/- SocketChat/MoreLearning/UdpFile/Acknowledgment
   digest: Which packet an acknowledgment counts for, and when that is the one it answers. -/

import SocketChat.MoreLearning.UdpFile.Transfer

set_option autoImplicit false
set_option relaxedAutoImplicit false

namespace SocketChat.MoreLearning.UdpFile.Acknowledgment

open SocketChat.Lib.CString
open SocketChat.Lib.LossyFifo
open SocketChat.Lib.Runs
open SocketChat.MoreLearning.UdpFile.Model
open SocketChat.MoreLearning.UdpFile.Invariant
open SocketChat.MoreLearning.UdpFile.Transfer

/-- The server gives up waiting only when neither the packet nor its acknowledgment can
still come. -/
def Patient (s : State) : Action → Prop
  | .serverTimeout => s.coming = []
  | _ => True

def awaited (server : Server) : List (Option ℕ) :=
  match server.point with
  | .request => [none]
  | .ack => [some server.packets]
  | _ => []

def Received (file : Option (List Byte)) (client : Client) (k : ℕ) : Prop :=
  ∃ d ∈ client.kept, d.packet = some k ∧ (pieces file)[k - 1]? = some d.payload

/-- Every acknowledgment under way is for a packet that was kept, and while the server
runs only the one it waits for is. -/
structure Attributed (s : State) : Prop where
  coming : s.server.point ≠ .finished → s.coming.Sublist (awaited s.server)
  acks : ∀ k, some k ∈ s.acks → some k ∈ s.client.kept.map Datagram.packet
  logged : ∀ e ∈ s.server.log, some e.packet ∈ s.client.kept.map Datagram.packet
  count : s.server.packet_count = BitVec.ofNat 32 s.server.packets
  counts : ∀ e ∈ s.server.log, e.packet_count = BitVec.ofNat 32 e.packet

private theorem eq_of_cons_sublist_singleton {α : Type} {x y : α} {xs : List α}
    (h : (x :: xs).Sublist [y]) : x = y ∧ xs = [] := by
  have short := h.length_le
  rw [List.length_cons, List.length_singleton] at short
  obtain rfl : xs = [] := List.eq_nil_of_length_eq_zero (by omega)
  exact ⟨List.singleton_inj.mp (h.eq_of_length rfl), rfl⟩

private theorem coming_pull {s : State} {d : Datagram} {up : Fifo Datagram} (server : Server)
    (pulled : s.up.pull = some (d, up)) :
    s.coming = d.packet :: { s with up := up, server := server }.coming := by
  obtain ⟨flight, _⟩ := Fifo.pull_spec pulled
  simp [State.coming, State.acks, flight]

private theorem coming_push (s : State) (d : Datagram) (server : Server) :
    ({ s with down := s.down.push d, server := server }.coming).Sublist
      (s.coming ++ [d.packet]) := by
  cases point : s.client.point with
  | left why => simp [State.coming, State.acks, point]
  | receive => simp [State.coming, State.acks, point]
  | written packet => simp [State.coming, State.acks, point]
  | counted packet => simp [State.coming, State.acks, point]

private theorem attributed_init (file : Option (List Byte)) : Attributed (init file) := by
  constructor
  · intro _
    exact List.Sublist.refl _
  · intro k hk
    simp [init, State.acks, Client.acking, Fifo.empty, Fifo.push] at hk
  · intro e he
    cases he
  · rfl
  · intro e he
    cases he

private theorem mem_acks_of_pull {s : State} {d : Datagram} {up : Fifo Datagram} (server : Server)
    (pulled : s.up.pull = some (d, up)) {k : ℕ}
    (later : some k ∈ { s with up := up, server := server }.acks) : some k ∈ s.acks := by
  obtain ⟨flight, _⟩ := Fifo.pull_spec pulled
  rw [State.acks, flight]
  exact List.mem_cons_of_mem _ later

private theorem Attributed.fewer {s t : State} (h : Attributed s) (server : t.server = s.server)
    (kept : t.client.kept = s.client.kept) (coming : t.coming.Sublist s.coming)
    (acks : ∀ k, some k ∈ t.acks → some k ∈ s.acks) : Attributed t := by
  constructor
  · intro running
    rw [server] at running ⊢
    exact coming.trans (h.coming running)
  · intro k under_way
    rw [kept]
    exact h.acks k (acks k under_way)
  · rw [server, kept]
    exact h.logged
  · rw [server]
    exact h.count
  · rw [server]
    exact h.counts

private theorem attributed_step {s : State} {a : Action} {t : State} (h : Attributed s)
    (ok : Patient s a) (taken : step s a = some t) : Attributed t := by
  have ⟨coming, acks, logged, count, counts⟩ := h
  cases took_of_step taken with
  | refused d up here absent pulled =>
    refine ⟨fun running => absurd rfl running, ?_, logged, count, counts⟩
    intro k hk
    exact acks k (mem_acks_of_pull { s.server with point := .finished } pulled hk)
  | opened d up rest here present pulled =>
    have first := coming (by simp [here])
    rw [coming_pull { s.server with point := .read } pulled, awaited, here] at first
    refine ⟨fun _ => ?_, ?_, logged, count, counts⟩
    · rw [(eq_of_cons_sublist_singleton first).2]
      exact List.nil_sublist _
    · intro k hk
      exact acks k (mem_acks_of_pull _ pulled hk)
  | chunk rest here present more =>
    have quiet := coming (by simp [here])
    rw [awaited, here, List.sublist_nil] at quiet
    refine ⟨fun _ => ?_, acks, logged, ?_, counts⟩
    · have sent := coming_push s ⟨some (s.server.packets + 1), rest.take BUFFER_SIZE⟩
        { s.server with
          point := .ack
          file := some (rest.drop BUFFER_SIZE)
          n := (rest.take BUFFER_SIZE).length
          packet_count := s.server.packet_count + 1
          packets := s.server.packets + 1 }
      rw [quiet] at sent
      exact sent
    · simp [count, BitVec.ofNat_add]
  | ended here present => exact ⟨fun running => absurd rfl running, acks, logged, count, counts⟩
  | logged d up here pulled =>
    have first := coming (by simp [here])
    rw [coming_pull { s.server with
      point := .read
      log := s.server.log ++ [⟨s.server.packet_count, s.server.n, s.server.packets⟩] } pulled,
      awaited, here] at first
    obtain ⟨answered, rest⟩ := eq_of_cons_sublist_singleton first
    obtain ⟨flight, _⟩ := Fifo.pull_spec pulled
    refine ⟨fun _ => ?_, ?_, ?_, count, ?_⟩
    · rw [rest]
      exact List.nil_sublist _
    · intro k hk
      exact acks k (mem_acks_of_pull _ pulled hk)
    · intro e he
      rcases List.mem_append.mp he with old | new
      · exact logged e old
      · rw [List.mem_singleton.mp new]
        apply acks
        rw [State.acks, flight, ← answered]
        exact List.mem_cons_self
    · intro e he
      rcases List.mem_append.mp he with old | new
      · exact counts e old
      · rw [List.mem_singleton.mp new]
        exact count
  | unanswered here =>
    refine ⟨fun _ => ?_, acks, logged, count, counts⟩
    have quiet : s.coming = [] := ok
    show s.coming.Sublist _
    rw [quiet]
    exact List.nil_sublist _
  | eof d down here pulled marker =>
    refine h.fewer rfl rfl ?_ ?_
    · simp [State.coming, State.acks, Client.acking, here]
    · simp [State.acks, Client.acking, here]
  | error d down here pulled marker =>
    refine h.fewer rfl rfl ?_ ?_
    · simp [State.coming, State.acks, Client.acking, here]
    · simp [State.acks, Client.acking, here]
  | kept d down here pulled plain =>
    obtain ⟨flight, _⟩ := Fifo.pull_spec pulled
    refine ⟨fun running => ?_, ?_, ?_, count, counts⟩
    · refine List.Sublist.trans ?_ (coming running)
      simp [State.coming, State.acks, Client.acking, here, flight]
    · intro k hk
      rw [List.map_append, List.mem_append]
      rcases List.mem_append.mp hk with old | new
      · left
        apply acks
        exact List.mem_append_left _ old
      · right
        exact new
    · intro e he
      rw [List.map_append]
      exact List.mem_append_left _ (logged e he)
  | gaveUp here =>
    refine h.fewer rfl rfl ?_ ?_
    · simp [State.coming, State.acks, Client.acking, here]
    · simp [State.acks, Client.acking, here]
  | counted packet here =>
    refine h.fewer rfl rfl ?_ ?_
    · simp [State.coming, State.acks, Client.acking, here]
    · simp [State.acks, Client.acking, here]
  | acked packet here =>
    refine h.fewer rfl rfl ?_ ?_
    · simp [State.coming, State.acks, Client.acking, here]
    · simp [State.acks, Client.acking, here]
  | lostDown i down dropped =>
    obtain ⟨_, _, flight, _⟩ := Fifo.drop_spec dropped
    have fewer := (List.eraseIdx_sublist s.down.flight i).map Datagram.packet
    rw [← flight] at fewer
    refine h.fewer rfl rfl ?_ fun _ => id
    cases point : s.client.point with
    | left why => simp [State.coming, State.acks, point]
    | receive => simpa [State.coming, State.acks, point] using fewer
    | written packet => simpa [State.coming, State.acks, point] using fewer
    | counted packet => simpa [State.coming, State.acks, point] using fewer
  | lostUp i up dropped =>
    obtain ⟨_, _, flight, _⟩ := Fifo.drop_spec dropped
    have fewer := (List.eraseIdx_sublist s.up.flight i).map Datagram.packet
    rw [← flight] at fewer
    refine h.fewer rfl rfl ((fewer.append_right _).append_right _) ?_
    intro k hk
    exact (fewer.append_right _).subset hk

private theorem mem_numbered {ps : List (List Byte)} {d : Datagram} {k : ℕ} (hd : d ∈ numbered ps)
    (tag : d.packet = some k) : ps[k - 1]? = some d.payload := by
  obtain ⟨⟨piece, i⟩, hp, rfl⟩ := List.mem_map.mp hd
  obtain rfl : i + 1 = k := Option.some.inj tag
  exact List.mk_mem_zipIdx_iff_getElem?.mp hp

/-- Where the server waits until nothing can come, every packet it logs as acknowledged
has been received. -/
theorem logged_received (file : Option (List Byte)) (s : State)
    (run : ReachWhere step Patient (init file) s) :
    ∀ e ∈ s.server.log, e.packet_count = BitVec.ofNat 32 e.packet ∧
      Received file s.client e.packet := by
  intro e he
  have attributed : Attributed s :=
    invariant_of_step (fun _ _ _ => attributed_step) (attributed_init file) run
  refine ⟨attributed.counts e he, ?_⟩
  obtain ⟨d, kept, tag⟩ := List.mem_map.mp (attributed.logged e he)
  refine ⟨d, kept, tag, ?_⟩
  exact mem_numbered ((kept_sublist_numbered (inv_reach run.reach)).subset kept) tag

theorem logged_received_greeting : ∃ s, Reach step (init (some greeting)) s ∧
    s.server.log ≠ [] ∧ ∀ e ∈ s.server.log, Received (some greeting) s.client e.packet := by
  let run : List Action := [.serverRequest, .serverRead, .clientReceive, .clientCount,
    .clientAck, .serverAck]
  have shown : (exec step (init (some greeting)) run).isSome := by decide +kernel
  obtain ⟨s, taken⟩ := Option.isSome_iff_exists.mp shown
  have patient : Guarded step Patient (init (some greeting)) run := by
    apply guarded_of_forall
    simp [run, Patient]
  have log : (exec step (init (some greeting)) run).map (fun s => s.server.log.length) =
      some 1 := by decide +kernel
  rw [taken] at log
  refine ⟨s, ⟨run, taken⟩, ?_, fun e he => ?_⟩
  · intro nothing
    simp [nothing] at log
  · exact (logged_received (some greeting) s ⟨run, patient, taken⟩ e he).2

/-- The late acknowledgment of packet 1 is logged for packet 2, whose datagram was lost. -/
theorem late_acknowledgment : ∃ s,
    Reach step (init (some (List.replicate 1025 0))) s ∧
      ∃ e ∈ s.server.log, e.packet_count = 2 ∧ e.packet = 2 ∧
        ∀ d ∈ s.client.kept, d.packet ≠ some 2 := by
  let run : List Action := [.serverRequest, .serverRead, .clientReceive, .clientCount,
    .clientAck, .serverTimeout, .serverRead, .loseDown 0, .serverAck]
  have shown : ((exec step (init (some (List.replicate 1025 0))) run).map fun s =>
      (s.server.log.map fun e => (e.packet_count, e.packet),
        s.client.kept.map Datagram.packet)) = some ([(2, 2)], [some 1]) := by
    decide +kernel
  obtain ⟨s, taken, final⟩ := Option.map_eq_some_iff.mp shown
  obtain ⟨log, kept⟩ := Prod.mk.inj final
  obtain ⟨e, he, entry⟩ : ∃ e ∈ s.server.log, (e.packet_count, e.packet) = (2, 2) := by
    apply List.mem_map.mp
    rw [log]
    exact List.mem_cons_self
  refine ⟨s, ⟨run, taken⟩, e, he, (Prod.mk.inj entry).1, (Prod.mk.inj entry).2, ?_⟩
  intro d hd tag
  have among : some 2 ∈ s.client.kept.map Datagram.packet := List.mem_map.mpr ⟨d, hd, tag⟩
  rw [kept] at among
  exact absurd among (by decide)

end SocketChat.MoreLearning.UdpFile.Acknowledgment
