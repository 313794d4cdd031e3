/- SocketChat/MoreLearning/UdpBroadcast/Silence
   digest: When what the server forwards ends the receive loop of another client. -/

import Mathlib.Logic.Function.Basic
import SocketChat.Lib.Runs
import SocketChat.MoreLearning.UdpBroadcast.Table

set_option autoImplicit false
set_option relaxedAutoImplicit false

namespace SocketChat.MoreLearning.UdpBroadcast.Silence

open SocketChat.Lib.CString
open SocketChat.Lib.FirstComers
open SocketChat.Lib.Runs
open Model
open Table

/-- The server, the clients by their addresses, and the forwarded datagrams that the network
still holds. -/
structure Room where
  server : Server.State
  clients : SockaddrIn → Option Client.State
  flight : List SendTo

/-- A datagram reaches the server; the network delivers, loses or doubles a forwarded one;
or the `recvfrom` of a client fails. -/
inductive Action
  | arrive (client : SockaddrIn) (payload beyond : List Byte)
  | deliver (i : ℕ) (beyond : List Byte)
  | lose (i : ℕ)
  | duplicate (i : ℕ)
  | recvfromFails (client : SockaddrIn)

def init (users : SockaddrIn → Option (List Byte × List Byte)) : Room where
  server := Server.init
  clients := fun a => (users a).map fun user => Client.init user.1 user.2
  flight := []

def arrive (s : Room) (client : SockaddrIn) (payload beyond : List Byte) : Room :=
  let served := Server.serve s.server (.received client payload) beyond
  { s with server := served.1, flight := s.flight ++ served.2 }

def Room.act (s : Room) (a : SockaddrIn) (action : Client.Action) : Option Room :=
  (s.clients a).bind fun client => (Client.step client action).map fun client' =>
    { s with clients := Function.update s.clients a (some client') }

def deliver (s : Room) (d : SendTo) (beyond : List Byte) : Option Room :=
  if s.clients d.dest = none then some s
  else s.act d.dest (.recvfrom Client.configured d.msg beyond)

def step (s : Room) : Action → Option Room
  | .arrive client payload beyond => some (arrive s client payload beyond)
  | .deliver i beyond => s.flight[i]?.bind fun d =>
      deliver { s with flight := s.flight.eraseIdx i } d beyond
  | .lose i => s.flight[i]?.map fun _ => { s with flight := s.flight.eraseIdx i }
  | .duplicate i => s.flight[i]?.map fun d => { s with flight := s.flight ++ [d] }
  | .recvfromFails client => s.act client .recvfromFails

abbrev Clients := SockaddrIn → Option Client.State

def receiving (clients : Clients) (a : SockaddrIn) : Bool :=
  (clients a).any (·.receiver = .receiving)

/-- A datagram of length zero has ended the receive loop at this address. -/
def silenced (clients : Clients) (a : SockaddrIn) : Bool :=
  (clients a).any (·.receiver = .ended 0)

/-- No loop was ended by a forwarded datagram, and none in flight would end one. -/
def Harmless (s : Room) : Prop :=
  (∀ a, silenced s.clients a = false) ∧
    ∀ d ∈ s.flight, receiving s.clients d.dest = true → d.msg ≠ []

/-- A datagram that reaches the server begins with a byte other than NUL, or no other
registered client is in its receive loop. -/
def Speaks (s : Room) : Action → Prop
  | .arrive client payload _ =>
      payload.headD 0 ≠ 0 ∨ ∀ a ∈ s.server.table, a ≠ client → receiving s.clients a = false
  | _ => True

private theorem cstr_received_eq_nil (client : SockaddrIn) (payload beyond : List Byte) :
    cstr ((Recvfrom.received client payload).buffer ++ beyond) = [] ↔ payload.headD 0 = 0 := by
  cases payload with
  | nil => exact iff_of_true rfl rfl
  | cons b payload =>
    have buffer : (Recvfrom.received client (b :: payload)).buffer ++ beyond =
        b :: (payload.take 255 ++
          (List.replicate BUFFER_SIZE 0).drop (payload.take 255).length.succ ++ beyond) := rfl
    rw [buffer, cstr, List.headD_cons]
    by_cases zero : b = 0
    · simp [zero]
    · simp [zero]

private theorem mem_sends_arrive (s : Room) (client : SockaddrIn) (payload beyond : List Byte)
    (d : SendTo) :
    d ∈ (Server.serve s.server (.received client payload) beyond).2 ↔
      d.dest ∈ s.server.table ∧ d.dest ≠ client ∧
        d.msg = cstr ((Recvfrom.received client payload).buffer ++ beyond) := by
  rw [Server.serve, broadcast_eq, List.mem_map]
  constructor
  · intro sent
    obtain ⟨entry, kept, rfl⟩ := sent
    have both := List.mem_filter.mp kept
    have differ : entry ≠ client := of_decide_eq_true both.2
    rw [table_enter] at both
    exact ⟨(mem_register differ).mp both.1, differ, rfl⟩
  · intro sent
    obtain ⟨entered, differ, text⟩ := sent
    refine ⟨d.dest, List.mem_filter.mpr ⟨?_, decide_eq_true differ⟩, ?_⟩
    · rw [table_enter]
      exact (mem_register differ).mpr entered
    · rw [← show d.msg = _ from text]

private theorem harmless_arrive {s : Room} (before : Harmless s) (client : SockaddrIn)
    (payload beyond : List Byte) :
    Harmless (arrive s client payload beyond) ↔ Speaks s (.arrive client payload beyond) := by
  constructor
  · intro after
    by_cases spoken : payload.headD 0 ≠ 0
    · exact Or.inl spoken
    · refine Or.inr fun a entered differ => ?_
      by_contra listening
      have sent : SendTo.mk a [] ∈
          (Server.serve s.server (.received client payload) beyond).2 := by
        refine (mem_sends_arrive s client payload beyond _).mpr ⟨entered, differ, ?_⟩
        exact ((cstr_received_eq_nil client payload beyond).mpr (not_not.mp spoken)).symm
      exact after.2 _ (List.mem_append_right _ sent) (Bool.not_eq_false _ ▸ listening) rfl
  · intro speaks
    refine ⟨before.1, fun d flying listening => ?_⟩
    rcases List.mem_append.mp flying with old | new
    · exact before.2 d old listening
    · obtain ⟨entered, differ, text⟩ := (mem_sends_arrive s client payload beyond d).mp new
      rw [text, ne_eq, cstr_received_eq_nil]
      rcases speaks with spoken | deaf
      · exact spoken
      · have silent : receiving s.clients d.dest = false := deaf d.dest entered differ
        exact absurd (listening.symm.trans silent) (by simp)

private theorem receiver_of_step {c c' : Client.State} {x : Client.Action}
    (nonempty : ∀ source payload beyond, x = .recvfrom source payload beyond → payload ≠ [])
    (taken : Client.step c x = some c') :
    (c'.receiver = .receiving → c.receiver = .receiving) ∧
      (c'.receiver = .ended 0 → c.receiver = .ended 0) := by
  cases x with
  | recvfrom source payload beyond =>
    have stored : ¬(payload.take BUFFER_SIZE).length = 0 := by
      have length_pos := List.length_pos_iff.mpr (nonempty source payload beyond rfl)
      simp only [List.length_take, BUFFER_SIZE]
      omega
    simp only [Client.step, Option.ite_none_right_eq_some, Option.some.injEq,
      Client.recvfrom, if_neg stored] at taken
    obtain ⟨_, rfl⟩ := taken
    exact ⟨id, id⟩
  | recvfromFails =>
    simp only [Client.step, Option.ite_none_right_eq_some, Option.some.injEq] at taken
    obtain ⟨_, rfl⟩ := taken
    constructor
    · intro here
      simp at here
    · intro ended
      simp at ended
  | fgets =>
    simp only [Client.step, Option.ite_none_right_eq_some, Option.some.injEq] at taken
    obtain ⟨_, rfl⟩ := taken
    unfold Client.fgets
    split <;> exact ⟨id, id⟩
  | sendto beyond =>
    simp only [Client.step, Option.ite_none_right_eq_some, Option.some.injEq] at taken
    obtain ⟨_, rfl⟩ := taken
    exact ⟨id, id⟩

private theorem harmless_act {s t : Room} (before : Harmless s) {a : SockaddrIn} {x : Client.Action}
    (nonempty : ∀ source payload beyond, x = .recvfrom source payload beyond → payload ≠ [])
    (taken : s.act a x = some t) : Harmless t := by
  obtain ⟨c, here, moved⟩ := Option.bind_eq_some_iff.mp taken
  obtain ⟨c', stepped, rfl⟩ := Option.map_eq_some_iff.mp moved
  have kept := receiver_of_step nonempty stepped
  have away : ∀ b, b ≠ a → Function.update s.clients a (some c') b = s.clients b := by
    intro b differ
    exact Function.update_of_ne differ _ _
  constructor
  · intro b
    by_cases same : b = a
    · subst b
      have quiet := before.1 a
      simp only [silenced, here, Function.update_self, Option.any_some, decide_eq_false_iff_not]
        at quiet ⊢
      exact fun ended => quiet (kept.2 ended)
    · rw [← before.1 b]
      exact congrArg (Option.any _) (away b same)
  · intro d flying listening
    refine before.2 d flying ?_
    by_cases same : d.dest = a
    · simp only [receiving, same, here, Function.update_self, Option.any_some,
        decide_eq_true_eq] at listening ⊢
      exact kept.1 listening
    · rw [← listening]
      exact congrArg (Option.any _) (away d.dest same).symm

private theorem harmless_of_subset {s : Room} (before : Harmless s) {flight : List SendTo}
    (fewer : flight ⊆ s.flight) : Harmless { s with flight := flight } :=
  ⟨before.1, fun d flying => before.2 d (fewer flying)⟩

private theorem harmless_deliver {s t : Room} (before : Harmless s) {d : SendTo}
    {beyond : List Byte} (loud : receiving s.clients d.dest = true → d.msg ≠ [])
    (taken : deliver s d beyond = some t) : Harmless t := by
  unfold deliver at taken
  split at taken
  · obtain rfl := Option.some.inj taken
    exact before
  · refine harmless_act before ?_ taken
    intro source payload beyond' same
    cases same
    obtain ⟨c, here, moved⟩ := Option.bind_eq_some_iff.mp taken
    obtain ⟨c', stepped, _⟩ := Option.map_eq_some_iff.mp moved
    simp only [Client.step, Option.ite_none_right_eq_some] at stepped
    exact loud (by simp [receiving, here, stepped.1])

private theorem harmless_step (s : Room) (a : Action) (t : Room) (before : Harmless s)
    (taken : step s a = some t) : Harmless t ↔ Speaks s a := by
  cases a with
  | arrive client payload beyond =>
    obtain rfl := Option.some.inj taken
    exact harmless_arrive before client payload beyond
  | deliver i beyond =>
    refine iff_of_true ?_ trivial
    obtain ⟨d, at_i, delivered⟩ := Option.bind_eq_some_iff.mp taken
    have fewer : Harmless { s with flight := s.flight.eraseIdx i } :=
      harmless_of_subset before List.eraseIdx_subset
    exact harmless_deliver fewer (before.2 d (List.mem_of_getElem? at_i)) delivered
  | lose i =>
    refine iff_of_true ?_ trivial
    obtain ⟨d, _, rfl⟩ := Option.map_eq_some_iff.mp taken
    exact harmless_of_subset before List.eraseIdx_subset
  | duplicate i =>
    refine iff_of_true ?_ trivial
    obtain ⟨d, at_i, rfl⟩ := Option.map_eq_some_iff.mp taken
    refine harmless_of_subset before fun d' flying => ?_
    rcases List.mem_append.mp flying with old | new
    · exact old
    · rw [List.mem_singleton.mp new]
      exact List.mem_of_getElem? at_i
  | recvfromFails client =>
    refine iff_of_true (harmless_act before ?_ taken) trivial
    intro source payload beyond same
    cases same

private theorem harmless_init (users : SockaddrIn → Option (List Byte × List Byte)) :
    Harmless (init users) := by
  refine ⟨fun a => ?_, fun d flying => by cases flying⟩
  cases here : users a <;> simp [silenced, init, here, Client.init]

/-- Along a run no client is silenced, and none would be by what is in flight, exactly when
every datagram that reaches the server speaks or finds no other client listening. -/
theorem silent_only_by_nul (users : SockaddrIn → Option (List Byte × List Byte))
    {as : List Action} {t : Room} (taken : exec step (init users) as = some t) :
    Always step Harmless (init users) as ↔ Guarded step Speaks (init users) as :=
  always_iff_guarded harmless_step (harmless_init users) taken

def users (a : SockaddrIn) : Option (List Byte × List Byte) :=
  if a = ⟨1, 0x0100007F⟩ ∨ a = ⟨2, 0x0100007F⟩ then some ([], []) else none

theorem silent_only_by_nul_two_users :
    ∃ t, exec step (init users)
        [.arrive ⟨1, 0x0100007F⟩ [] [], .arrive ⟨2, 0x0100007F⟩ [104, 105] [],
          .deliver 0 []] = some t ∧
      Always step Harmless (init users)
        [.arrive ⟨1, 0x0100007F⟩ [] [], .arrive ⟨2, 0x0100007F⟩ [104, 105] [],
          .deliver 0 []] := by
  have ran : (exec step (init users)
      [.arrive ⟨1, 0x0100007F⟩ [] [], .arrive ⟨2, 0x0100007F⟩ [104, 105] [],
        .deliver 0 []]).isSome = true := by decide +kernel
  obtain ⟨t, taken⟩ := Option.isSome_iff_exists.mp ran
  refine ⟨t, taken, (silent_only_by_nul users taken).mpr ?_⟩
  refine ⟨Or.inr fun a entered => ?_, fun s first => ⟨Or.inl (by decide), fun s' second => ?_⟩⟩
  · cases entered
  · exact ⟨trivial, fun _ _ => trivial⟩

/-- The second user sends an empty datagram, and the receive loop of the first ends. -/
theorem empty_datagram_silences :
    ∃ t, exec step (init users)
        [.arrive ⟨1, 0x0100007F⟩ [104, 105] [], .arrive ⟨2, 0x0100007F⟩ [] [],
          .deliver 0 []] = some t ∧
      silenced t.clients ⟨1, 0x0100007F⟩ = true := by
  have ran : ((exec step (init users)
      [.arrive ⟨1, 0x0100007F⟩ [104, 105] [], .arrive ⟨2, 0x0100007F⟩ [] [],
        .deliver 0 []]).any fun t => silenced t.clients ⟨1, 0x0100007F⟩) = true := by
    decide +kernel
  exact (Option.any_eq_true _ _).mp ran

end SocketChat.MoreLearning.UdpBroadcast.Silence
