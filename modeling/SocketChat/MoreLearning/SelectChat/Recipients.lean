/- SocketChat/MoreLearning/SelectChat/Recipients
   digest: Every chunk goes once to each other connection in the table, in one order for all. -/

import SocketChat.Lib.History
import SocketChat.Lib.Postings
import SocketChat.Lib.Seating
import SocketChat.MoreLearning.SelectChat.Table

set_option autoImplicit false
set_option relaxedAutoImplicit false

namespace SocketChat.MoreLearning.SelectChat.Recipients

open SocketChat.Lib
open SocketChat.Lib.CString
open SocketChat.Lib.Deliveries
open SocketChat.Lib.History
open SocketChat.Lib.Postings
open SocketChat.Lib.Room (Event present)
open SocketChat.Lib.Seating
open SocketChat.Lib.Runs
open SocketChat.Lib.SlotTable
open SocketChat.MoreLearning.SelectChat.Model
open SocketChat.MoreLearning.SelectChat.Table

def AcceptSucceeds (_ : State) : Action → Prop
  | .accept new_sock => 0 < new_sock
  | _ => True

/-- The table, the descriptors and the history of the room belong together. Connections
that found no slot are open without being in the table. -/
structure Members (s : State) : Prop where
  distinct : (occupants 0 s.clients).Nodup
  connected : ∀ fd ∈ occupants 0 s.clients, (s.fds fd).isSome
  injective : ∀ fd fd' c, s.fds fd = some c → s.fds fd' = some c → fd = fd'
  numbered : ∀ fd c, s.fds fd = some c → c < s.accepted
  joined : ∀ c, Event.join c ∈ s.history → c < s.accepted
  inside : Roster 0 s.clients s.fds s.history

def Settled (s : State) : Prop := Account s.said s.sends s.history fun _ => []

theorem members_init (server_sock : ℤ) : Members (init server_sock) := by
  have none_held : occupants 0 (init server_sock).clients = [] := occupants_replicate MAX_CLIENTS
  constructor
  · rw [none_held]
    exact List.nodup_nil
  · rw [none_held]
    intro fd hfd
    cases hfd
  · exact descriptors_none.injective
  · exact descriptors_none.numbered
  · intro c joined
    cases joined
  · exact roster_nil none_held

private theorem Members.descriptors {s : State} (h : Members s) : Descriptors s.fds s.accepted :=
  ⟨h.injective, h.numbered⟩

private theorem members_opened {s : State} (h : Members s) {new_sock : ℤ} (positive : 0 < new_sock)
    (fresh : s.fds new_sock = none) (point : Point) :
    Members { s with
      point := point
      clients := s.clients.replace 0 new_sock
      fds := Function.update s.fds new_sock (some s.accepted)
      accepted := s.accepted + 1
      history :=
        if 0 ∈ s.clients ∧ new_sock ≠ 0 then s.history ++ [.join s.accepted]
        else s.history } := by
  have used : new_sock ≠ 0 := Int.ne_of_gt positive
  have absent : new_sock ∉ occupants 0 s.clients := by
    intro held
    have opened := h.connected new_sock held
    rw [fresh] at opened
    cases opened
  have descriptors := h.descriptors.opened fresh
  by_cases room : 0 ∈ s.clients
  · rw [if_pos ⟨room, used⟩]
    refine ⟨?_, ?_, descriptors.injective, descriptors.numbered, ?_, ?_⟩
    · apply (occupants_fill room used).nodup_iff.mpr
      exact List.nodup_cons.mpr ⟨absent, h.distinct⟩
    · intro fd hfd
      apply isSome_update_some.mpr
      rcases (mem_occupants_fill room used).mp hfd with new | old
      · exact Or.inl new
      · exact Or.inr (h.connected fd old)
    · intro c joined
      rcases List.mem_append.mp joined with old | new
      · exact Nat.lt_succ_of_lt (h.joined c old)
      · cases List.mem_singleton.mp new
        exact Nat.lt_succ_self _
    · exact (h.inside.update absent _).join room used (Function.update_self ..)
  · rw [if_neg fun both => room both.1, List.replace_of_not_mem room]
    refine ⟨h.distinct, ?_, descriptors.injective, descriptors.numbered, ?_, ?_⟩
    · intro fd hfd
      exact isSome_update_some.mpr (Or.inr (h.connected fd hfd))
    · intro c joined
      exact Nat.lt_succ_of_lt (h.joined c joined)
    · exact h.inside.update absent _

private theorem members_closed {s : State} (h : Members s) {i : ℕ} {sd : ℤ}
    (held : s.clients[i]? = some sd) (positive : 0 < sd) (point : Point) :
    Members { s with
      point := point
      clients := s.clients.set i 0
      fds := Function.update s.fds sd none
      history := s.history ++ ((s.fds sd).map Event.leave).toList } := by
  have perm := occupants_set held (Int.ne_of_gt positive)
  obtain ⟨gone, distinct⟩ := List.nodup_cons.mp (perm.nodup_iff.mp h.distinct)
  obtain ⟨conn, behind⟩ := Option.isSome_iff_exists.mp
    (h.connected sd (perm.mem_iff.mpr List.mem_cons_self))
  constructor
  · exact distinct
  · intro fd hfd
    have before := h.connected fd (perm.mem_iff.mpr (List.mem_cons_of_mem sd hfd))
    refine isSome_update_none.mpr ⟨?_, before⟩
    rintro rfl
    exact gone hfd
  · exact (h.descriptors.closed sd).injective
  · exact (h.descriptors.closed sd).numbered
  · intro c joined
    rcases List.mem_append.mp joined with old | new
    · exact h.joined c old
    · rw [behind] at new
      cases List.mem_singleton.mp new
  · have own : ∀ fd, s.fds fd = some conn → fd = sd :=
      fun fd opened => h.injective fd sd conn opened behind
    change Roster 0 _ _ (s.history ++ ((s.fds sd).map Event.leave).toList)
    rw [behind]
    exact (h.inside.leave perm gone own behind).update gone none

theorem members_step {s : State} {a : Action} {t : State} (h : Members s)
    (ok : AcceptSucceeds s a) (taken : step s a = some t) : Members t := by
  cases took_of_step taken with
  | selected readfds here within =>
    exact ⟨h.distinct, h.connected, h.injective, h.numbered, h.joined, h.inside⟩
  | refused readfds new_sock here failed =>
    have positive : 0 < new_sock := ok
    omega
  | opened readfds new_sock here valid fresh => exact members_opened h ok fresh _
  | skipped readfds i here =>
    exact ⟨h.distinct, h.connected, h.injective, h.numbered, h.joined, h.inside⟩
  | closed readfds i sd beyond here held used ready => exact members_closed h held used _
  | forwarded readfds i sd conn got beyond msg here held used ready behind some_bytes fits text =>
    refine ⟨h.distinct, h.connected, h.injective, h.numbered, ?_, ?_⟩
    · intro c joined
      rcases List.mem_append.mp joined with old | new
      · exact h.joined c old
      · cases List.mem_singleton.mp new
    · exact h.inside.say _

section Broadcast

variable {s : State} {sd : ℤ} {conn : ConnId}

private theorem inbox_broadcast (h : Members s) (behind : s.fds sd = some conn) (msg : List Byte)
    (c : ConnId) :
    inbox (broadcast s sd msg) c =
      if present c s.history && conn ≠ c then [s.said.length] else [] := by
  have chunks : inbox (broadcast s sd msg) c =
      ((recipients 0 sd s.clients).filter fun fd => s.fds fd = some c).map
        fun _ => s.said.length := by
    rw [inbox, broadcast, List.filter_map, List.map_map]
    rfl
  rw [chunks]
  exact share_recipients h.distinct h.injective behind h.inside s.said.length c

private theorem settled_forwarded (h : Members s) (settled : Settled s)
    (behind : s.fds sd = some conn) (point : Point) (msg : List Byte) :
    Settled { s with
      point := point
      said := s.said ++ [⟨conn, (occupants 0 s.clients).filterMap s.fds⟩]
      sends := s.sends ++ broadcast s sd msg
      history := s.history ++ [.say conn s.said.length] } := by
  apply (Account.say settled h.inside.mem_filterMap).serve
  · intro sent hsent
    obtain ⟨fd, hfd, rfl⟩ := List.mem_map.mp hsent
    have held := (mem_recipients.mp (show fd ∈ recipients 0 sd s.clients from hfd)).1
    refine ⟨h.connected fd held, ?_⟩
    rw [List.length_append]
    exact Nat.lt_succ_self _
  · intro c
    rw [List.append_nil]
    exact inbox_broadcast h behind msg c

end Broadcast

theorem settled_step {s : State} {a : Action} {t : State} (h : Members s) (settled : Settled s)
    (taken : step s a = some t) : Settled t := by
  cases took_of_step taken with
  | selected readfds here within => exact settled
  | refused readfds new_sock here failed => exact settled
  | opened readfds new_sock here valid fresh => exact Account.join_if settled _ s.accepted
  | skipped readfds i here => exact settled
  | closed readfds i sd beyond here held used ready =>
    unfold Settled
    cases s.fds sd with
    | none =>
      simp only [Option.map_none, Option.toList_none, List.append_nil]
      exact settled
    | some conn => exact Account.leave settled conn
  | forwarded readfds i sd conn got beyond msg here held used ready behind some_bytes fits text =>
    exact settled_forwarded h settled behind _ msg

/-- The server is a room: what it does to the history is what may happen in one. -/
theorem simulates_room : Simulates step AcceptSucceeds Room.Step
    (fun s events => Members s ∧ s.history = events) := by
  rintro s a t events ⟨members, rfl⟩ ok taken
  refine ⟨t.history, ?_, members_step members ok taken, rfl⟩
  cases took_of_step taken with
  | selected readfds here within => exact .refl
  | refused readfds new_sock here failed => exact .refl
  | opened readfds new_sock here valid fresh =>
    by_cases stored : 0 ∈ s.clients ∧ new_sock ≠ 0
    · simp only [if_pos stored]
      apply Relation.ReflTransGen.single
      apply Room.Step.join
      intro before
      exact Nat.lt_irrefl _ (members.joined _ before)
    · simp only [if_neg stored]
      exact .refl
  | skipped readfds i here => exact .refl
  | closed readfds i sd beyond here held used ready =>
    have listed : sd ∈ occupants 0 s.clients :=
      mem_occupants.mpr ⟨List.mem_of_getElem? held, Int.ne_of_gt used⟩
    obtain ⟨conn, behind⟩ := Option.isSome_iff_exists.mp (members.connected sd listed)
    simp only [behind]
    apply Relation.ReflTransGen.single
    exact Room.Step.leave conn ((members.inside conn).mpr ⟨sd, listed, behind⟩)
  | forwarded readfds i sd conn got beyond msg here held used ready behind some_bytes fits text =>
    exact .single (.say conn s.said.length)

/-- What every run of the server leaves behind is a history of a room. -/
theorem history_is_room {server_sock : ℤ} {s : State}
    (run : ReachWhere step AcceptSucceeds (init server_sock) s) :
    Relation.ReflTransGen Room.Step [] s.history := by
  obtain ⟨events, room, _, rfl⟩ := simulates_room.run ⟨members_init server_sock, rfl⟩ run
  exact room

/-- The chunks as `broadcast` is called with them: from which descriptor, with the table and the
connections behind the descriptors at that time, and as the string that the buffer begins with. -/
def note (s : State) : Action → List (Posting ℤ ConnId (List Byte)) →
    List (Posting ℤ ConnId (List Byte))
  | .recv got beyond, postings =>
      match got, s.point with
      | _ :: _, .scan _ i =>
          let buffer := got ++ List.replicate (BUFFER_SIZE - got.length) 0
          postings ++ (s.clients[i]?.map fun sd =>
            ⟨sd, s.clients, s.fds, cstr (buffer ++ beyond)⟩).toList
      | _, _ => postings
  | _, postings => postings

abbrev Noted := State × List (Posting ℤ ConnId (List Byte))

def start (server_sock : ℤ) : Noted := (init server_sock, [])

structure Booked (m : Noted) : Prop where
  members : Members m.1
  settled : Settled m.1
  ledger : Ledger 0 SendCall.fd SendCall.msg m.2 m.1.said m.1.sends

private theorem booked_start (server_sock : ℤ) : Booked (start server_sock) :=
  ⟨members_init server_sock, account_nil, ledger_nil⟩

private theorem carried_broadcast {s : State} (h : Members s) (sd : ℤ) (msg : List Byte) :
    ∀ sent ∈ broadcast s sd msg, sent.number = s.said.length ∧
      (Posting.mk sd s.clients s.fds msg).Carries 0 sent.call.fd sent.call.msg ∧
        sent.reached = s.fds sent.call.fd := by
  intro sent hsent
  obtain ⟨fd, chosen, rfl⟩ := List.mem_map.mp hsent
  obtain ⟨listed, due⟩ := List.mem_filter.mp chosen
  obtain ⟨used, other⟩ := of_decide_eq_true due
  have reaches := h.connected fd (mem_occupants.mpr ⟨listed, used⟩)
  exact ⟨rfl, ⟨listed, used, other, reaches, rfl⟩, rfl⟩

private theorem booked_step (m : Noted) (a : Action) (m' : Noted) (h : Booked m)
    (ok : AcceptSucceeds m.1 a) (taken : remember step note m a = some m') : Booked m' := by
  obtain ⟨s, postings⟩ := m
  obtain ⟨t, postings'⟩ := m'
  obtain ⟨moved, noted⟩ := remember_eq_some.mp taken
  change step s a = some t at moved
  refine ⟨members_step h.members ok moved, settled_step h.members h.settled moved, ?_⟩
  subst noted
  cases took_of_step moved with
  | selected readfds here within => exact h.ledger
  | refused readfds new_sock here failed => exact h.ledger
  | opened readfds new_sock here valid fresh => exact h.ledger
  | skipped readfds i here => exact h.ledger
  | closed readfds i sd beyond here held used ready => exact h.ledger
  | forwarded readfds i sd conn got beyond msg here held used ready behind some_bytes fits text =>
    have posted : note s (.recv got beyond) postings =
        postings ++ [⟨sd, s.clients, s.fds, msg⟩] := by
      obtain ⟨byte, more, rfl⟩ := List.exists_cons_of_ne_nil some_bytes
      simp only [note, here, held, text, Option.map_some, Option.toList_some]
    rw [posted]
    apply (h.ledger.post behind).serve
    intro sent hsent
    obtain ⟨number, carries, reached⟩ := carried_broadcast h.members sd msg sent hsent
    refine ⟨_, ?_, carries, reached⟩
    rw [number, h.ledger.length_eq, List.getElem?_concat_length]

/-- Every chunk that is received leads to one `send` on the descriptor of each other connection in
the table at that time, with the string in the buffer, and to none on another descriptor; and any
two connections are sent what both are sent in the same order. -/
theorem forwarded_once_in_order (server_sock : ℤ) (m : Noted)
    (run : ReachWhere (remember step note) (fun m => AcceptSucceeds m.1) (start server_sock) m) :
    (∀ sent ∈ m.1.sends, ∃ p, m.2[sent.number]? = some p ∧
      p.Carries 0 sent.call.fd sent.call.msg ∧ sent.reached = p.behind sent.call.fd) ∧
      (∀ k p, m.2[k]? = some p → ∀ c, callsTo SendCall.fd m.1.sends k p c =
        if c ∈ p.members 0 ∧ p.behind p.sender ≠ some c then 1 else 0) ∧
      ∀ c d, (inbox m.1.sends c).filter (· ∈ inbox m.1.sends d) =
        (inbox m.1.sends d).filter (· ∈ inbox m.1.sends c) := by
  have booked : Booked m := invariant_of_step booked_step (booked_start server_sock) run
  refine ⟨booked.ledger.carried, ?_, booked.settled.same_order⟩
  intro k p posted c
  have once := booked.ledger.once booked.settled posted c
  rwa [List.count_nil, Nat.add_zero] at once

/-- Two clients join, one in each round; the first one sends a byte and then leaves, and a third
client comes to have its descriptor, and the other two send a byte each. -/
def threeClients : List Action :=
  [.select [3], .accept 4] ++ List.replicate 10 .skip ++ [.select [3], .accept 5] ++
    List.replicate 10 .skip ++ [.select [4], .recv [104] []] ++ List.replicate 9 .skip ++
    [.select [4], .recv [] []] ++ List.replicate 9 .skip ++ [.select [3], .accept 4] ++
    List.replicate 10 .skip ++ [.select [4, 5], .recv [105] [], .recv [106] []] ++
    List.replicate 8 .skip

theorem forwarded_once_three_clients : ∃ m,
    ReachWhere (remember step note) (fun m => AcceptSucceeds m.1) (start 3) m ∧
      m.2.map Posting.text = [[104], [105], [106]] ∧
      (∀ sent ∈ m.1.sends, ∃ p, m.2[sent.number]? = some p ∧
        p.Carries 0 sent.call.fd sent.call.msg ∧ sent.reached = p.behind sent.call.fd) ∧
      ∃ p, m.2[1]? = some p ∧ callsTo SendCall.fd m.1.sends 1 p 1 = 1 ∧
        callsTo SendCall.fd m.1.sends 1 p 0 = 0 ∧ callsTo SendCall.fd m.1.sends 1 p 2 = 0 := by
  have shown : (exec (remember step note) (start 3) threeClients).map (fun m =>
      (m.2.map Posting.text, m.2[1]?.map fun p => (p.members 0, p.behind p.sender))) =
        some ([[104], [105], [106]], some ([2, 1], some 2)) := by
    decide +kernel
  obtain ⟨m, taken, same⟩ := Option.map_eq_some_iff.mp shown
  obtain ⟨texts, second⟩ := Prod.mk.inj same
  obtain ⟨p, posted, facts⟩ := Option.map_eq_some_iff.mp second
  obtain ⟨members, mine⟩ := Prod.mk.inj facts
  have succeeds : Guarded (remember step note) (fun m => AcceptSucceeds m.1) (start 3)
      threeClients := by
    apply guarded_of_forall
    simp [threeClients, AcceptSucceeds]
  have run : ReachWhere (remember step note) (fun m => AcceptSucceeds m.1) (start 3) m :=
    ⟨threeClients, succeeds, taken⟩
  obtain ⟨carried, once, _⟩ := forwarded_once_in_order 3 m run
  refine ⟨m, run, texts, carried, p, posted, ?_, ?_, ?_⟩
  · rw [once 1 p posted 1, members, mine]
    rfl
  · rw [once 1 p posted 0, members, mine]
    rfl
  · rw [once 1 p posted 2, members, mine]
    rfl

end SocketChat.MoreLearning.SelectChat.Recipients
