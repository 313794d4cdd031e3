/- SocketChat/MoreLearning/UdpFile/Transfer
   digest: What received.txt holds: always chunks in order, the whole file on which runs. -/

import SocketChat.MoreLearning.UdpFile.Invariant

set_option autoImplicit false
set_option relaxedAutoImplicit false

namespace SocketChat.MoreLearning.UdpFile.Transfer

open SocketChat.Lib.Blocks
open SocketChat.Lib.CString
open SocketChat.Lib.LossyFifo
open SocketChat.Lib.Runs
open SocketChat.MoreLearning.UdpFile.Model
open SocketChat.MoreLearning.UdpFile.Invariant

section Order

variable {file : Option (List Byte)} {s : State}

private theorem got_extends_kept {client : Client} {got : List Datagram} (h : Keeping client got) :
    client.kept <+: got := by
  have read := h.read
  cases point : client.point with
  | left why =>
    rw [point] at read
    cases why with
    | timeout => exact ⟨[], by rw [List.append_nil, read]⟩
    | eof =>
      obtain ⟨d, got, _⟩ := read
      exact ⟨[d], got.symm⟩
    | error =>
      obtain ⟨d, got, _⟩ := read
      exact ⟨[d], got.symm⟩
  | receive =>
    rw [point] at read
    exact ⟨[], by rw [List.append_nil, read]⟩
  | written packet =>
    rw [point] at read
    exact ⟨[], by rw [List.append_nil, read]⟩
  | counted packet =>
    rw [point] at read
    exact ⟨[], by rw [List.append_nil, read]⟩

private theorem kept_sublist (inv : Inv file s) :
    s.client.kept.Sublist (numbered ((pieces file).take s.server.packets)) := by
  have sub : s.client.kept.Sublist s.down.sent :=
    (got_extends_kept inv.keeping).sublist.trans s.down.got_sublist
  rw [inv.sending.wire] at sub
  obtain ⟨data, control, parts, hdata, hcontrol⟩ := List.sublist_append_iff.mp sub
  have nothing : control = [] := by
    apply List.eq_nil_iff_forall_not_mem.mpr
    intro d hd
    have plain := inv.keeping.plain d (parts ▸ List.mem_append_right data hd)
    have last := hcontrol.subset hd
    split at last
    · rw [List.mem_singleton.mp last] at plain
      exact plain (isMarker_trailer file)
    · cases last
  rw [parts, nothing, List.append_nil]
  exact hdata

theorem kept_sublist_numbered (inv : Inv file s) :
    s.client.kept.Sublist (numbered (pieces file)) :=
  (kept_sublist inv).trans (numbered_take_sublist _ _)

private theorem written_sublist (inv : Inv file s) :
    (s.client.kept.map Datagram.payload).Sublist (pieces file) := by
  have sub := (kept_sublist_numbered inv).map Datagram.payload
  rwa [map_payload_numbered] at sub

private theorem length_kept_le (inv : Inv file s) : s.client.kept.length ≤ s.server.packets := by
  have le := (kept_sublist inv).length_le
  rw [numbered, List.length_map, List.length_zipIdx, List.length_take] at le
  omega

private theorem received_eq_iff {content : List Byte} (inv : Inv (some content) s) :
    s.client.received = content ↔ s.client.kept = numbered (pieces (some content)) := by
  rw [inv.keeping.received]
  constructor
  · intro whole
    have sub := written_sublist inv
    have all : s.client.kept.map Datagram.payload = pieces (some content) := by
      apply eq_of_sublist_of_flatten_eq sub fun piece hp => ne_nil_of_mem_pieces hp
      rw [whole, flatten_pieces]
    apply (kept_sublist_numbered inv).eq_of_length
    have count := congrArg List.length all
    rw [List.length_map] at count
    rw [count, numbered, List.length_map, List.length_zipIdx]
  · intro all
    rw [all, map_payload_numbered, flatten_pieces]

end Order

private theorem toInt_ofNat_le (n : ℕ) : (BitVec.ofNat 32 n).toInt ≤ n := by
  rw [BitVec.toInt_eq_toNat_cond, BitVec.toNat_ofNat]
  split <;> omega

/-- In every state of every run, whatever is lost and whenever the timeouts fire, what is
written is a subsequence of the chunks, and `packet_count` is its length as an `int`. -/
theorem received_in_order (file : Option (List Byte)) (s : State)
    (run : Reach step (init file) s) :
    ∃ written : List (List Byte), written.Sublist (pieces file) ∧
      s.client.received = written.flatten ∧ written.length ≤ s.server.packets ∧
      ((∀ packet, s.client.point ≠ .written packet) →
        s.client.packet_count = BitVec.ofNat 32 written.length ∧
        s.client.packet_count.toInt ≤ s.server.packets ∧
        (written.length < 2 ^ 31 → s.client.packet_count.toInt = written.length)) := by
  have inv := inv_reach run
  have le := length_kept_le inv
  refine ⟨s.client.kept.map Datagram.payload, written_sublist inv, inv.keeping.received, ?_, ?_⟩
  · rw [List.length_map]
    exact le
  · intro outside
    have count : s.client.packet_count = BitVec.ofNat 32 s.client.kept.length := by
      have count := inv.keeping.count
      cases point : s.client.point with
      | written packet => exact absurd point (outside packet)
      | receive => rwa [point] at count
      | counted packet => rwa [point] at count
      | left why => rwa [point] at count
    rw [List.length_map, count]
    refine ⟨rfl, ?_, ?_⟩
    · have := toInt_ofNat_le s.client.kept.length
      omega
    · intro small
      rw [BitVec.toInt_eq_toNat_cond, BitVec.toNat_ofNat]
      split <;> omega

section Loss

variable {content : List Byte} {s : State}

/-- Where no chunk spells a marker, a client that has read one has read the trailer. -/
theorem got_of_marker (plain : ∀ piece ∈ pieces (some content), ¬IsMarker piece)
    (inv : Inv (some content) s) {d : Datagram} (got : s.down.got = s.client.kept ++ [d])
    (marker : IsMarker d.payload) :
    s.down.got = s.client.kept ++ [trailer (some content)] ∧
      s.down.sent = numbered (pieces (some content)) ++ [trailer (some content)] := by
  have arrived : d ∈ s.down.sent := by
    apply s.down.got_sublist.subset
    rw [got]
    exact List.mem_append_right _ List.mem_cons_self
  rw [inv.sending.wire, List.mem_append] at arrived
  rcases arrived with data | control
  · exfalso
    have piece := payload_mem_of_mem_numbered data
    exact plain _ (List.mem_of_mem_take piece) marker
  · split at control
    · rename_i finished
      rw [List.mem_singleton] at control
      refine ⟨control ▸ got, ?_⟩
      rw [inv.sending.wire, if_pos finished, inv.sending.all finished, List.take_length]
    · cases control

private theorem nodup_data_trailer (file : Option (List Byte)) :
    (numbered (pieces file) ++ [trailer file]).Nodup := by
  apply List.nodup_append.mpr
  refine ⟨nodup_numbered _, List.nodup_singleton _, ?_⟩
  intro d data e control same
  rw [List.mem_singleton.mp control] at same
  exact packet_ne_none_of_mem_numbered data (congrArg Datagram.packet same)

private theorem kept_eq_filter
    (got : s.down.got = s.client.kept ++ [trailer (some content)])
    (sent : s.down.sent = numbered (pieces (some content)) ++ [trailer (some content)]) :
    s.client.kept =
      (numbered (pieces (some content))).filter fun d => decide (d ∉ s.down.lost) := by
  have once : s.down.sent.Nodup := by
    rw [sent]
    exact nodup_data_trailer (some content)
  have survivors := s.down.survivors_eq_filter once
  have apart : (s.down.got ++ s.down.flight).Nodup := once.sublist s.down.order
  have arrived : trailer (some content) ∈ s.down.got := by
    rw [got]
    exact List.mem_append_right _ List.mem_cons_self
  have last_kept : [trailer (some content)].filter (fun d => decide (d ∉ s.down.lost)) =
      [trailer (some content)] := by
    apply List.filter_eq_self.mpr
    intro d hd
    rw [List.mem_singleton.mp hd]
    apply decide_eq_true
    intro lost
    have all : (s.down.got ++ s.down.flight ++ s.down.lost).Nodup :=
      s.down.account.nodup_iff.mp once
    exact (List.nodup_append.mp all).2.2 _ (List.mem_append_left _ arrived) _ lost rfl
  rw [sent, List.filter_append, last_kept, got] at survivors
  rcases List.eq_nil_or_concat s.down.flight with landed | ⟨flight, d, last⟩
  · rw [landed, List.append_nil] at survivors
    exact (List.append_inj' survivors rfl).1
  · exfalso
    rw [List.concat_eq_append] at last
    rw [last, ← List.append_assoc] at survivors
    have same : d = trailer (some content) :=
      List.singleton_inj.mp (List.append_inj' survivors rfl).2
    have again : trailer (some content) ∈ s.down.flight := by
      rw [last, same]
      exact List.mem_append_right _ List.mem_cons_self
    exact (List.nodup_append.mp apart).2.2 _ arrived _ again rfl

/-- A client that leaves on the end marker has exactly the chunks that were not lost, in
order, so the whole file if and only if no data datagram was; nothing depends on the
acknowledgments that were lost or late. -/
theorem received_of_eof (content : List Byte)
    (plain : ∀ piece ∈ pieces (some content), ¬IsMarker piece) (s : State)
    (run : Reach step (init (some content)) s) (left : s.client.point = .left .eof) :
    s.client.received = (((numbered (pieces (some content))).filter fun d =>
        decide (d ∉ s.down.lost)).map Datagram.payload).flatten ∧
      (s.client.received = content ↔ s.down.lost = []) := by
  have inv := inv_reach run
  have read := inv.keeping.read
  rw [left] at read
  obtain ⟨d, got, marker⟩ := read
  obtain ⟨got, sent⟩ := got_of_marker plain inv got (Or.inl marker)
  have kept := kept_eq_filter got sent
  constructor
  · rw [← kept]
    exact inv.keeping.received
  · rw [received_eq_iff inv]
    constructor
    · intro all
      apply s.down.lost_nil_of_eq_sent
      apply s.down.order.eq_of_length_le
      rw [sent, got, all]
      exact (List.sublist_append_left _ s.down.flight).length_le
    · intro nothing
      rw [kept, nothing]
      apply List.filter_eq_self.mpr
      intro e he
      exact decide_eq_true List.not_mem_nil

def greeting : List Byte := lit ['h', 'i']

private theorem pieces_greeting : pieces (some greeting) = [greeting] := by
  rw [pieces_some_cons (by decide)]
  exact congrArg (greeting :: ·) pieces_some_nil

private theorem plain_greeting : ∀ piece ∈ pieces (some greeting), ¬IsMarker piece := by
  intro piece hp
  rw [pieces_greeting, List.mem_singleton] at hp
  subst hp
  decide

/-- Nothing lost on the way down, the acknowledgment lost on the way up. -/
theorem received_of_eof_greeting : ∃ s, Reach step (init (some greeting)) s ∧
    s.client.point = .left .eof ∧ s.up.lost ≠ [] ∧ s.client.received = greeting := by
  let run : List Action := [.serverRequest, .serverRead, .clientReceive, .clientCount,
    .clientAck, .loseUp 0, .serverTimeout, .serverRead, .clientReceive]
  have shown : ((exec step (init (some greeting)) run).map fun s =>
      (s.client.point, s.down.lost, s.up.lost)) = some (.left .eof, [], [⟨some 1, ACK⟩]) := by
    decide +kernel
  obtain ⟨s, taken, final⟩ := Option.map_eq_some_iff.mp shown
  obtain ⟨left, nothing, ack⟩ : s.client.point = .left .eof ∧ s.down.lost = [] ∧
      s.up.lost = [⟨some 1, ACK⟩] := by simpa using final
  refine ⟨s, ⟨run, taken⟩, left, by simp [ack], ?_⟩
  exact (received_of_eof greeting plain_greeting s ⟨run, taken⟩ left).2.mpr nothing

/-- The server goes on after a timeout without sending the lost chunk again. -/
theorem lost_chunk_missing : (∀ piece ∈ pieces (some greeting), ¬IsMarker piece) ∧
    ∃ s, Reach step (init (some greeting)) s ∧ s.client.point = .left .eof ∧
      s.client.received ≠ greeting := by
  let run : List Action := [.serverRequest, .serverRead, .loseDown 0, .serverTimeout,
    .serverRead, .clientReceive]
  have shown : ((exec step (init (some greeting)) run).map fun s =>
      (s.client.point, s.client.received)) = some (.left .eof, []) := by
    decide +kernel
  obtain ⟨s, taken, final⟩ := Option.map_eq_some_iff.mp shown
  obtain ⟨left, nothing⟩ : s.client.point = .left .eof ∧ s.client.received = [] := by
    simpa using final
  refine ⟨plain_greeting, s, ⟨run, taken⟩, left, ?_⟩
  rw [nothing]
  decide

theorem received_in_order_greeting : ∃ s, Reach step (init (some greeting)) s ∧
    s.client.received = greeting ∧ ∃ written : List (List Byte),
      written.Sublist (pieces (some greeting)) ∧ s.client.received = written.flatten ∧
        s.client.packet_count.toInt ≤ s.server.packets := by
  let run : List Action := [.serverRequest, .serverRead, .clientReceive, .clientCount]
  have shown : ((exec step (init (some greeting)) run).map fun s =>
      (s.client.point, s.client.received)) = some (.counted (some 1), greeting) := by
    decide +kernel
  obtain ⟨s, taken, final⟩ := Option.map_eq_some_iff.mp shown
  obtain ⟨point, whole⟩ := Prod.mk.inj final
  obtain ⟨written, sub, received, _, counted⟩ :=
    received_in_order (some greeting) s ⟨run, taken⟩
  have outside : ∀ packet, s.client.point ≠ .written packet := by
    intro packet
    simp [point]
  exact ⟨s, ⟨run, taken⟩, whole, written, sub, received, (counted outside).2.1⟩

end Loss

section Clean

/-- Nothing is lost, and no timer fires while what it waits for can still come. -/
def Timely (s : State) : Action → Prop
  | .serverTimeout => s.coming = []
  | .clientTimeout => False
  | .loseDown _ => False
  | .loseUp _ => False
  | _ => True

def Settled (s : State) : Prop := ∀ a, Timely s a → step s a = none

def ServerPoint.weight : ServerPoint → ℕ
  | .request => 7
  | .read => 6
  | .ack => 7
  | .finished => 0

def ClientPoint.weight : ClientPoint → ℕ
  | .receive => 1
  | .written _ => 4
  | .counted _ => 3
  | .left _ => 0

def potential (s : State) : ℕ :=
  8 * (pieces s.server.file).length + ServerPoint.weight s.server.point +
    4 * s.down.flight.length + s.up.flight.length + ClientPoint.weight s.client.point

theorem potential_lt (s : State) (a : Action) (t : State) (taken : step s a = some t) :
    potential t < potential s := by
  cases took_of_step taken with
  | refused d up here absent pulled =>
    obtain ⟨flight, _⟩ := Fifo.pull_spec pulled
    simp only [potential, here, absent, flight, ServerPoint.weight, Fifo.push_flight,
      List.length_append, List.length_cons, List.length_nil]
    omega
  | opened d up rest here present pulled =>
    obtain ⟨flight, _⟩ := Fifo.pull_spec pulled
    simp only [potential, here, flight, ServerPoint.weight, List.length_cons]
    omega
  | chunk rest here present more =>
    simp only [potential, here, present, pieces_some_cons more, ServerPoint.weight,
      Fifo.push_flight, List.length_append, List.length_cons, List.length_nil]
    omega
  | ended here present =>
    simp only [potential, here, ServerPoint.weight, Fifo.push_flight, List.length_append,
      List.length_cons, List.length_nil]
    omega
  | logged d up here pulled =>
    obtain ⟨flight, _⟩ := Fifo.pull_spec pulled
    simp only [potential, here, flight, ServerPoint.weight, List.length_cons]
    omega
  | unanswered here =>
    simp only [potential, here, ServerPoint.weight]
    omega
  | eof d down here pulled marker =>
    obtain ⟨flight, _⟩ := Fifo.pull_spec pulled
    simp only [potential, here, flight, ClientPoint.weight, List.length_cons]
    omega
  | error d down here pulled marker =>
    obtain ⟨flight, _⟩ := Fifo.pull_spec pulled
    simp only [potential, here, flight, ClientPoint.weight, List.length_cons]
    omega
  | kept d down here pulled plain =>
    obtain ⟨flight, _⟩ := Fifo.pull_spec pulled
    simp only [potential, here, flight, ClientPoint.weight, List.length_cons]
    omega
  | gaveUp here =>
    simp only [potential, here, ClientPoint.weight]
    omega
  | counted packet here =>
    simp only [potential, here, ClientPoint.weight]
    omega
  | acked packet here =>
    simp only [potential, here, ClientPoint.weight, Fifo.push_flight, List.length_append,
      List.length_cons, List.length_nil]
    omega
  | lostDown i down dropped =>
    have shorter := Fifo.length_flight_of_drop dropped
    simp only [potential]
    omega
  | lostUp i up dropped =>
    have shorter := Fifo.length_flight_of_drop dropped
    simp only [potential]
    omega

structure Clean (s : State) : Prop where
  down : s.down.lost = []
  up : s.up.lost = []
  patient : s.client.point ≠ .left .timeout
  asked : s.server.point = .request → s.up.got = []
  started : s.up.sent ≠ []

private theorem clean_init (file : Option (List Byte)) : Clean (init file) := by
  constructor
  · rfl
  · rfl
  · exact ClientPoint.noConfusion
  · intro _
    rfl
  · exact List.cons_ne_nil _ _

private theorem clean_step {s : State} {a : Action} {t : State} (clean : Clean s) (ok : Timely s a)
    (taken : step s a = some t) : Clean t := by
  obtain ⟨down, up, patient, asked, started⟩ := clean
  cases took_of_step taken with
  | refused d up' here absent pulled =>
    obtain ⟨_, _, sent, lost⟩ := Fifo.pull_spec pulled
    exact ⟨down, lost.trans up, patient, ServerPoint.noConfusion, sent ▸ started⟩
  | opened d up' rest here present pulled =>
    obtain ⟨_, _, sent, lost⟩ := Fifo.pull_spec pulled
    exact ⟨down, lost.trans up, patient, ServerPoint.noConfusion, sent ▸ started⟩
  | chunk rest here present more => exact ⟨down, up, patient, ServerPoint.noConfusion, started⟩
  | ended here present => exact ⟨down, up, patient, ServerPoint.noConfusion, started⟩
  | logged d up' here pulled =>
    obtain ⟨_, _, sent, lost⟩ := Fifo.pull_spec pulled
    exact ⟨down, lost.trans up, patient, ServerPoint.noConfusion, sent ▸ started⟩
  | unanswered here => exact ⟨down, up, patient, ServerPoint.noConfusion, started⟩
  | eof d down' here pulled marker =>
    obtain ⟨_, _, _, lost⟩ := Fifo.pull_spec pulled
    exact ⟨lost.trans down, up, by simp, asked, started⟩
  | error d down' here pulled marker =>
    obtain ⟨_, _, _, lost⟩ := Fifo.pull_spec pulled
    exact ⟨lost.trans down, up, by simp, asked, started⟩
  | kept d down' here pulled plain =>
    obtain ⟨_, _, _, lost⟩ := Fifo.pull_spec pulled
    exact ⟨lost.trans down, up, ClientPoint.noConfusion, asked, started⟩
  | gaveUp here => cases ok
  | counted packet here => exact ⟨down, up, ClientPoint.noConfusion, asked, started⟩
  | acked packet here =>
    exact ⟨down, up, ClientPoint.noConfusion, asked, Fifo.push_sent_ne_nil _ _⟩
  | lostDown i down' dropped => cases ok
  | lostUp i up' dropped => cases ok

variable {s : State}

theorem serverRequest_enabled (here : s.server.point = .request) (more : s.up.flight ≠ []) :
    step s .serverRequest ≠ none := by
  obtain ⟨d, rest, flight⟩ := List.exists_cons_of_ne_nil more
  obtain ⟨up, pulled⟩ := Fifo.pull_isSome flight
  simp [step, serverRequest, here, pulled]

theorem serverRead_enabled (here : s.server.point = .read) (opened : s.server.file.isSome) :
    step s .serverRead ≠ none := by
  obtain ⟨rest, present⟩ := Option.isSome_iff_exists.mp opened
  simp [step, serverRead, here, present]

private theorem serverAck_enabled (here : s.server.point = .ack) (more : s.up.flight ≠ []) :
    step s .serverAck ≠ none := by
  obtain ⟨d, rest, flight⟩ := List.exists_cons_of_ne_nil more
  obtain ⟨up, pulled⟩ := Fifo.pull_isSome flight
  simp [step, serverAck, here, pulled]

private theorem clientReceive_enabled (here : s.client.point = .receive)
    (more : s.down.flight ≠ []) :
    step s .clientReceive ≠ none := by
  obtain ⟨d, rest, flight⟩ := List.exists_cons_of_ne_nil more
  obtain ⟨down, pulled⟩ := Fifo.pull_isSome flight
  simp [step, clientReceive, here, pulled]

/-- A server that can no longer go on while nothing comes has sent its trailer. -/
theorem finished_of_settled {file : Option (List Byte)} (inv : Inv file s) (clean : Clean s)
    (opened : file.isSome) (settled : Settled s) (here : s.client.point = .receive)
    (landed : s.down.flight = []) : s.server.point = .finished := by
  cases point : s.server.point with
  | request =>
    exfalso
    have nothing : s.up.flight = [] := by
      by_contra more
      exact serverRequest_enabled point more (settled .serverRequest trivial)
    have all := s.up.eq_sent_of_lost_nil clean.up
    rw [clean.asked point, nothing] at all
    exact clean.started all.symm
  | read =>
    exfalso
    apply serverRead_enabled point
    · rw [inv.sending.opened]
      exact opened
    · exact settled .serverRead trivial
  | ack =>
    exfalso
    have nothing : s.up.flight = [] := by
      by_contra more
      exact serverAck_enabled point more (settled .serverAck trivial)
    have quiet : s.coming = [] := by
      rw [State.coming, State.acks, Client.acking, nothing, here, landed]
      rfl
    have stuck := settled .serverTimeout quiet
    simp [step, serverTimeout, point] at stuck
  | finished => rfl

/-- A timely run ends with a client that has read some marker. -/
theorem marker_of_settled {file : Option (List Byte)} (inv : Inv file s) (clean : Clean s)
    (opened : file.isSome) (settled : Settled s) :
    ∃ why d, s.client.point = .left why ∧ s.down.got = s.client.kept ++ [d] ∧
      IsMarker d.payload := by
  have read := inv.keeping.read
  cases point : s.client.point with
  | receive =>
    exfalso
    rw [point] at read
    have landed : s.down.flight = [] := by
      by_contra more
      exact clientReceive_enabled point more (settled .clientReceive trivial)
    have finished := finished_of_settled inv clean opened settled point landed
    have all := s.down.eq_sent_of_lost_nil clean.down
    rw [landed, List.append_nil, inv.sending.wire, if_pos finished, read] at all
    apply inv.keeping.plain (trailer file)
    · rw [all]
      exact List.mem_append_right _ List.mem_cons_self
    · exact isMarker_trailer file
  | written packet =>
    have stuck := settled .clientCount trivial
    simp [step, clientCount, point] at stuck
  | counted packet =>
    have stuck := settled .clientAck trivial
    simp [step, clientAck, point] at stuck
  | left why =>
    rw [point] at read
    cases why with
    | timeout => exact absurd point clean.patient
    | eof =>
      obtain ⟨d, got, marker⟩ := read
      exact ⟨.eof, d, rfl, got, Or.inl marker⟩
    | error =>
      obtain ⟨d, got, marker⟩ := read
      exact ⟨.error, d, rfl, got, Or.inr marker⟩

/-- Every timely run comes to an end, with the client done and the file received. -/
def Delivers (content : List Byte) : Prop :=
  (∃ bound, ∀ as s, Guarded step Timely (init (some content)) as →
      exec step (init (some content)) as = some s → as.length ≤ bound) ∧
    ∀ s, ReachWhere step Timely (init (some content)) s → Settled s →
      (∃ why, s.client.point = .left why) ∧ s.client.received = content

private theorem runs_bounded (content : List Byte) : ∃ bound, ∀ as s,
    Guarded step Timely (init (some content)) as →
      exec step (init (some content)) as = some s → as.length ≤ bound := by
  refine ⟨potential (init (some content)), fun as s _ taken => ?_⟩
  have total := length_le_of_measure potential_lt taken
  omega

private theorem exists_settled (s : State) : ∃ t, ReachWhere step Timely s t ∧ Settled t :=
  exists_stuck_of_measure potential_lt s

private theorem inv_clean_timely {file : Option (List Byte)}
    (run : ReachWhere step Timely (init file) s) : Inv file s ∧ Clean s := by
  refine ⟨inv_reach run.reach, ?_⟩
  exact invariant_of_step (fun _ _ _ => clean_step) (clean_init file) run

private theorem kept_of_settled {content : List Byte}
    (plain : ∀ piece ∈ pieces (some content), ¬IsMarker piece)
    (run : ReachWhere step Timely (init (some content)) s) (settled : Settled s) :
    (∃ why, s.client.point = .left why) ∧ s.client.kept = numbered (pieces (some content)) := by
  obtain ⟨inv, clean⟩ := inv_clean_timely run
  obtain ⟨why, d, left, got, marker⟩ := marker_of_settled inv clean rfl settled
  obtain ⟨got, sent⟩ := got_of_marker plain inv got marker
  refine ⟨⟨why, left⟩, ?_⟩
  rw [kept_eq_filter got sent, clean.down]
  apply List.filter_eq_self.mpr
  intro e he
  exact decide_eq_true List.not_mem_nil

private theorem not_delivers_of_marker {content : List Byte} {piece : List Byte}
    (hp : piece ∈ pieces (some content)) (marker : IsMarker piece) : ¬Delivers content := by
  rintro ⟨_, ends⟩
  obtain ⟨s, run, settled⟩ := exists_settled (init (some content))
  have inv := inv_reach run.reach
  have all := (received_eq_iff inv).mp (ends s run settled).2
  have kept : piece ∈ s.client.kept.map Datagram.payload := by
    rw [all, map_payload_numbered]
    exact hp
  obtain ⟨d, hd, rfl⟩ := List.mem_map.mp kept
  exact inv.keeping.plain d hd marker

def tail (content : List Byte) : List Byte :=
  content.drop (BUFFER_SIZE * (content.length / BUFFER_SIZE))

private theorem exists_marker_iff (content : List Byte) :
    (∃ piece ∈ pieces (some content), IsMarker piece) ↔ IsMarker (tail content) := by
  constructor
  · rintro ⟨piece, hp, marker⟩
    have short : piece.length < BUFFER_SIZE := by
      rcases marker with rfl | rfl
      · decide
      · decide
    rwa [eq_drop_of_short (by decide) hp short] at marker
  · intro marker
    refine ⟨tail content, drop_mem_blocks (by decide) ?_, marker⟩
    intro nothing
    change tail content = [] at nothing
    rw [nothing] at marker
    rcases marker with eof | error
    · cases eof
    · cases error

/-- The transfer is transparent exactly for the files whose bytes after the last full chunk
do not spell one of the two markers. -/
theorem delivers_iff (content : List Byte) : Delivers content ↔ ¬IsMarker (tail content) := by
  rw [← exists_marker_iff]
  constructor
  · rintro delivers ⟨piece, hp, marker⟩
    exact not_delivers_of_marker hp marker delivers
  · intro plain
    refine ⟨runs_bounded content, fun s run settled => ?_⟩
    have no_marker : ∀ piece ∈ pieces (some content), ¬IsMarker piece :=
      fun piece hp marker => plain ⟨piece, hp, marker⟩
    obtain ⟨left, all⟩ := kept_of_settled no_marker run settled
    exact ⟨left, (received_eq_iff (inv_reach run.reach)).mpr all⟩

/-- A file that consists of the three letters of the end marker. -/
theorem eof_not_delivered : ¬Delivers EOF := by
  have chunk : EOF ∈ pieces (some EOF) := by
    rw [pieces_some_cons (by decide)]
    exact List.mem_cons_self
  exact not_delivers_of_marker chunk (Or.inl rfl)

end Clean

section Width

private theorem plain_of_zeros {content : List Byte} (zeros : ∀ b ∈ content, b = 0) :
    ∀ piece ∈ pieces (some content), ¬IsMarker piece := by
  intro piece hp marker
  have inside : ∀ b ∈ piece, b = 0 := by
    intro b hb
    apply zeros
    rw [← flatten_pieces content]
    exact List.mem_flatten_of_mem hp hb
  rcases marker with rfl | rfl
  · exact absurd (inside 69 List.mem_cons_self) (by decide)
  · exact absurd (inside 69 List.mem_cons_self) (by decide)

private theorem count_wraps_of_zeros {content : List Byte} (zeros : ∀ b ∈ content, b = 0)
    (size : content.length = BUFFER_SIZE * 2 ^ 31) :
    ∃ s, Reach step (init (some content)) s ∧ (∀ packet, s.client.point ≠ .written packet) ∧
      ∀ written : List (List Byte), written.Sublist (pieces (some content)) →
        s.client.received = written.flatten → s.client.packet_count.toInt ≠ written.length := by
  have long : (pieces (some content)).length = 2 ^ 31 :=
    length_blocks_mul (by decide) (2 ^ 31) size
  obtain ⟨s, run, settled⟩ := exists_settled (init (some content))
  obtain ⟨⟨why, left⟩, all⟩ := kept_of_settled (plain_of_zeros zeros) run settled
  have inv := inv_reach run.reach
  refine ⟨s, run.reach, by simp [left], ?_⟩
  intro written sub received
  have whole : written = pieces (some content) := by
    apply eq_of_sublist_of_flatten_eq sub fun piece hp => ne_nil_of_mem_pieces hp
    rw [← received, (received_eq_iff inv).mpr all, flatten_pieces]
  have count := inv.keeping.count
  rw [left] at count
  rw [whole, long, count, all, numbered, List.length_map, List.length_zipIdx, long]
  decide

/-- After 2 ^ 31 chunks the client's `int` is negative. -/
theorem packet_count_wraps :
    ∃ s, Reach step (init (some (List.replicate (BUFFER_SIZE * 2 ^ 31) 0))) s ∧
      (∀ packet, s.client.point ≠ .written packet) ∧
      ∀ written : List (List Byte),
        written.Sublist (pieces (some (List.replicate (BUFFER_SIZE * 2 ^ 31) 0))) →
        s.client.received = written.flatten →
          s.client.packet_count.toInt ≠ written.length :=
  count_wraps_of_zeros (fun _ => List.eq_of_mem_replicate) List.length_replicate

end Width

end SocketChat.MoreLearning.UdpFile.Transfer
