/- SocketChat/UdpTurns/Integrity
   digest: What a party sends is its own standard input, as long as there is some. -/

import SocketChat.Lib.Runs
import SocketChat.UdpTurns.Model

set_option autoImplicit false
set_option relaxedAutoImplicit false

namespace SocketChat.UdpTurns.Integrity

open SocketChat.Lib.CString
open SocketChat.Lib.Lines
open SocketChat.Lib.Runs
open SocketChat.Lib.Sides
open Model

def lines (p : Program) (stdin : List Byte) : List (List Byte) :=
  (pieces p.bufferSize stdin).map cstr

/-- Each party has sent pieces of its own standard input, each once and in their order. -/
def Own (programs : Programs) (stdin : Side → List Byte) (s : State) : Prop :=
  ∀ who, (s.party who).sent <+: lines (programs who) (stdin who)

/-- No party sends when `fgets` has just found its standard input exhausted. -/
def Supplied (s : State) : Action → Prop
  | .sendto who => (s.party who).point ≠ .sendto false
  | _ => True

instance decidableSupplied (s : State) : (a : Action) → Decidable (Supplied s a)
  | .sendto who => inferInstanceAs (Decidable ((s.party who).point ≠ .sendto false))
  | .fgets _ => isTrue trivial
  | .recvfrom _ _ => isTrue trivial
  | .lose _ _ => isTrue trivial
  | .duplicate _ _ => isTrue trivial

def waiting (s : Party) : List (List Byte) :=
  if s.point = .sendto true then [cstr s.buffer] else []

structure Typed (p : Program) (stdin : List Byte) (s : Party) : Prop where
  account : s.sent ++ waiting s ++ lines p s.stdin = lines p stdin
  exhausted : s.point = .sendto false → s.stdin = []

private theorem waiting_of_ne {s : Party} (elsewhere : s.point ≠ .sendto true) : waiting s = [] :=
  if_neg elsewhere

section Steps

variable {p : Program} {stdin : List Byte} {s : Party}

private theorem typed_start (stack : List Byte) : Typed p stdin (p.start stack stdin) := by
  have elsewhere : ∀ typed, (p.start stack stdin).point ≠ .sendto typed := by
    intro typed
    unfold Program.start
    split <;> exact Point.noConfusion
  constructor
  · rw [waiting_of_ne (elsewhere true)]
    rfl
  · intro here
    exact absurd here (elsewhere false)

private theorem typed_fgets (two : 2 ≤ p.bufferSize) (before : Typed p stdin s)
    (ready : s.point = .fgets) : Typed p stdin (p.fgets s) := by
  have account := before.account
  rw [waiting_of_ne (by rw [ready]; exact Point.noConfusion), List.append_nil] at account
  unfold Program.fgets
  split
  · rename_i none_left
    exact ⟨by simpa [waiting] using account, fun _ => fgets_eq_none.mp none_left⟩
  · rename_i piece rest typed
    refine ⟨?_, fun here => by cases here⟩
    have split_lines : lines p s.stdin = cstr piece :: lines p rest := by
      rw [lines, pieces_of_fgets two typed]
      rfl
    rw [split_lines] at account
    simpa [waiting, cstr_overwrite] using account

private theorem typed_sendto (before : Typed p stdin s) (ready : s.point = .sendto true) :
    Typed p stdin (p.sendto s) := by
  have account := before.account
  have elsewhere : ∀ typed, (p.sendto s).point ≠ .sendto typed := by
    intro typed here
    rcases point_sendto p s with point | point <;> rw [point] at here <;> cases here
  constructor
  · rw [waiting_of_ne (elsewhere true), List.append_nil]
    rwa [waiting, if_pos ready] at account
  · intro here
    exact absurd here (elsewhere false)

private theorem typed_recvfrom (before : Typed p stdin s) (ready : s.point.receiving = true)
    (payload : List Byte) : Typed p stdin (p.recvfrom s payload) := by
  have account := before.account
  have idle : s.point ≠ .sendto true := by
    intro here
    rw [here] at ready
    cases ready
  have elsewhere : ∀ typed, (p.recvfrom s payload).point ≠ .sendto typed := by
    intro typed
    rcases point_recvfrom p s payload with point | point <;> rw [point] <;> exact Point.noConfusion
  rw [waiting_of_ne idle] at account
  constructor
  · rw [waiting_of_ne (elsewhere true)]
    exact account
  · intro here
    exact absurd here (elsewhere false)

private theorem sent_of_exhausted (here : Typed p stdin s) (point : s.point = .sendto false) :
    s.sent = lines p stdin := by
  have account := here.account
  rw [here.exhausted point, waiting_of_ne (by rw [point]; simp), List.append_nil] at account
  simpa [lines, pieces_nil] using account

end Steps

private theorem two_le_bufferSize (chat : Chat) (who : Side) :
    2 ≤ (chat.programs who).bufferSize := by
  cases chat <;> cases who <;> decide

private theorem typed_step {chat : Chat} {stdin : Side → List Byte} (s : State) (a : Action)
    (t : State) (before : ∀ who, Typed (chat.programs who) (stdin who) (s.party who))
    (supplied : Supplied s a) (taken : step chat.programs s a = some t) (who : Side) :
    Typed (chat.programs who) (stdin who) (t.party who) := by
  have moves := moves_of_step taken who
  generalize t.party who = after at moves
  cases moves with
  | idle rests => exact before who
  | fgets acts ready => exact typed_fgets (two_le_bufferSize chat who) (before who) ready
  | sendto typed acts ready =>
    subst acts
    cases typed with
    | false => exact absurd ready supplied
    | true => exact typed_sendto (before who) ready
  | recvfrom i payload acts ready held => exact typed_recvfrom (before who) ready payload

private theorem own_of_typed {programs : Programs} {stdin : Side → List Byte} (s : State)
    (here : ∀ who, Typed (programs who) (stdin who) (s.party who)) : Own programs stdin s := by
  intro who
  rw [← (here who).account, List.append_assoc]
  exact List.prefix_append _ _

private theorem supplied_of_own {programs : Programs} {stdin : Side → List Byte} (s : State)
    (a : Action) (t : State) (before : ∀ who, Typed (programs who) (stdin who) (s.party who))
    (taken : step programs s a = some t) (after : Own programs stdin t) : Supplied s a := by
  cases a with
  | sendto who =>
    intro exhausted
    have sent := sent_of_exhausted (before who) exhausted
    have moves := moves_of_step taken who
    have bound := (after who).length_le
    rw [← sent] at bound
    generalize t.party who = later at moves bound
    cases moves with
    | idle rests => exact rests rfl
    | fgets acts ready => cases acts
    | sendto typed acts ready =>
      simp only [Program.sendto, List.length_append, List.length_singleton] at bound
      omega
    | recvfrom i payload acts ready held => cases acts
  | fgets who => trivial
  | recvfrom who i => trivial
  | lose who i => trivial
  | duplicate who i => trivial

/-- In both chats, over any network, the payloads a party sends are pieces of its own standard
input, each sent once, along a run exactly when it never sends with that input exhausted. -/
theorem own_lines_iff (chat : Chat) (stack stdin : Side → List Byte) {as : List Action}
    {t : State} (taken : exec (step chat.programs) (init chat.programs stack stdin) as = some t) :
    Always (step chat.programs) (Own chat.programs stdin) (init chat.programs stack stdin) as ↔
      Guarded (step chat.programs) Supplied (init chat.programs stack stdin) as := by
  refine always_iff_guarded_of_invariant own_of_typed typed_step supplied_of_own ?_ taken
  intro who
  exact typed_start (stack who)

/-- The client types one line and the server, at the end of its input, a line of its own. -/
theorem own_lines_iff_one_line : ∃ t,
    exec (step TestCode.programs)
        (init TestCode.programs (fun _ => []) fun _ => [104, 105, 10])
        [.fgets .client, .sendto .client, .recvfrom .server 0, .fgets .server] = some t ∧
      Always (step TestCode.programs) (Own TestCode.programs fun _ => [104, 105, 10])
        (init TestCode.programs (fun _ => []) fun _ => [104, 105, 10])
        [.fgets .client, .sendto .client, .recvfrom .server 0, .fgets .server] := by
  have ran : (exec (step TestCode.programs)
      (init TestCode.programs (fun _ => []) fun _ => [104, 105, 10])
      [.fgets .client, .sendto .client, .recvfrom .server 0, .fgets .server]).isSome = true := by
    decide +kernel
  obtain ⟨t, taken⟩ := Option.isSome_iff_exists.mp ran
  refine ⟨t, taken, (own_lines_iff .testCode _ _ taken).mpr ?_⟩
  decide +kernel

def oneLine : Side → List Byte
  | .client => [104, 105, 10]
  | .server => []

/-- With nothing to type the server sends the line it received back to the client. -/
theorem echoed_back :
    (∃ t, exec (step TestCode.programs) (init TestCode.programs (fun _ => []) oneLine)
        [.fgets .client, .sendto .client, .recvfrom .server 0, .fgets .server,
          .sendto .server] = some t ∧
      ¬Own TestCode.programs oneLine t ∧
        (t.party .server).sent = (t.party .server).received) ∧
    ∃ t, exec (step MoreLearning.programs) (init MoreLearning.programs (fun _ => []) oneLine)
        [.fgets .client, .sendto .client, .recvfrom .server 0, .fgets .server,
          .sendto .server] = some t ∧
      ¬Own MoreLearning.programs oneLine t ∧
        (t.party .server).sent = (t.party .server).received := by
  have foreign : ∀ (programs : Programs) (t : State),
      (t.party .server).sent = [[104, 105, 10]] → ¬Own programs oneLine t := by
    intro programs t sent own
    have none_typed := own .server
    rw [sent] at none_typed
    cases List.prefix_nil.mp none_typed
  constructor
  · refine ⟨_, rfl, foreign _ _ ?_, ?_⟩ <;> decide +kernel
  · refine ⟨_, rfl, foreign _ _ ?_, ?_⟩ <;> decide +kernel

end SocketChat.UdpTurns.Integrity
