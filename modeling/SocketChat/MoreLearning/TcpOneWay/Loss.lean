/- SocketChat/MoreLearning/TcpOneWay/Loss
   digest: What the server prints is what the client sent unless a chunk looks like a farewell. -/

import SocketChat.Lib.Runs
import SocketChat.MoreLearning.TcpOneWay.Model

set_option autoImplicit false
set_option relaxedAutoImplicit false

namespace SocketChat.MoreLearning.TcpOneWay.Loss

open SocketChat.Lib.CString
open SocketChat.Lib.Lines
open SocketChat.Lib.Runs
open Model

def untilExit : List (List Byte) → List (List Byte)
  | [] => []
  | text :: texts => if isExit text then [text] else text :: untilExit texts

/-- The bytes the client sends for an input: its pieces up to and including its own farewell. -/
def transmission (stdin : List Byte) : List Byte :=
  (untilExit ((pieces BUFFER_SIZE stdin).map cstr)).flatten

def unsent (s : State) : List Byte := if s.client = .closed then [] else transmission s.stdin

/-- When the server has left its loop it has printed exactly the bytes the client sends. -/
def Complete (stdin : List Byte) (s : State) : Prop :=
  s.server = .closed → s.printed.flatten = transmission stdin

/-- A chunk that begins like a farewell is the last of what the client sends. -/
def Last (s : State) : Action → Prop
  | .recv k => isExit (s.stream.take k) = true → k = s.stream.length ∧ unsent s = []
  | _ => True

instance decidableLast (s : State) : (a : Action) → Decidable (Last s a)
  | .recv k => inferInstanceAs (Decidable (isExit (s.stream.take k) = true →
      k = s.stream.length ∧ unsent s = []))
  | .send => isTrue trivial
  | .recvEnd => isTrue trivial

private theorem transmission_nil : transmission [] = [] := rfl

private theorem isExit_cstr (text : List Byte) : isExit (cstr text) = isExit text := by
  rw [isExit, isExit, cstr_cstr]

private theorem transmission_of_fgets {stdin piece rest : List Byte}
    (typed : Lib.Lines.fgets BUFFER_SIZE stdin = some (piece, rest)) :
    transmission stdin =
      cstr piece ++ if isExit piece then [] else transmission rest := by
  have two : 2 ≤ BUFFER_SIZE := by decide
  rw [transmission, pieces_of_fgets two typed, List.map_cons, untilExit, isExit_cstr]
  split
  · simp
  · rw [List.flatten_cons]
    rfl

structure Account (stdin : List Byte) (s : State) : Prop where
  whole : s.printed.flatten ++ s.stream ++ unsent s = transmission stdin
  nul_free : 0 ∉ s.stream
  complete : Complete stdin s

private theorem cstr_received {chunk : List Byte} (nul_free : 0 ∉ chunk)
    (fits : chunk.length < BUFFER_SIZE) : cstr (received chunk) = chunk := by
  have padded := cstr_overwrite_zeros fits []
  rw [List.append_nil] at padded
  rw [received, padded, cstr_of_nul_free nul_free]

section Steps

variable {stdin : List Byte} {s : State}

private theorem account_send (before : Account stdin s) (ready : s.client = .loop) :
    Account stdin (send s) := by
  have whole := before.whole
  have inside : unsent s = transmission s.stdin := if_neg (by rw [ready]; exact Point.noConfusion)
  rw [inside] at whole
  unfold send
  cases typed : Lib.Lines.fgets BUFFER_SIZE s.stdin with
  | none =>
    have ended : s.stdin = [] := fgets_eq_none.mp typed
    rw [ended, transmission_nil] at whole
    exact ⟨whole, before.nul_free, before.complete⟩
  | some both =>
    obtain ⟨piece, rest⟩ := both
    rw [transmission_of_fgets typed] at whole
    refine ⟨?_, ?_, before.complete⟩
    · rw [← whole]
      by_cases leaves : isExit piece = true
      · simp [unsent, leaves]
      · simp [unsent, leaves]
    · intro zero
      rcases List.mem_append.mp zero with old | new
      · exact before.nul_free old
      · exact zero_not_mem_cstr piece new

private theorem recv_eq (before : Account stdin s) {k : ℕ} (bound : k ≤ BUFFER_SIZE - 1) :
    recv s k = { s with
      stream := s.stream.drop k
      server := if isExit (s.stream.take k) then .closed else .loop
      printed := s.printed ++ [s.stream.take k] } := by
  have nul_free : 0 ∉ s.stream.take k := fun zero => before.nul_free (List.mem_of_mem_take zero)
  have fits : (s.stream.take k).length < BUFFER_SIZE := by
    simp only [List.length_take]
    unfold BUFFER_SIZE at bound ⊢
    omega
  have text := cstr_received nul_free fits
  have same : isExit (received (s.stream.take k)) = isExit (s.stream.take k) := by
    rw [← isExit_cstr, text]
  rw [recv, text, same]

private theorem whole_recv (before : Account stdin s) (k : ℕ) :
    s.printed.flatten ++ s.stream.take k ++ s.stream.drop k ++ unsent s = transmission stdin := by
  rw [← before.whole, List.append_assoc s.printed.flatten, List.take_append_drop]

private theorem account_recv (before : Account stdin s) {k : ℕ} (bound : k ≤ BUFFER_SIZE - 1)
    (last : Last s (.recv k)) : Account stdin (recv s k) := by
  have whole := whole_recv before k
  rw [recv_eq before bound]
  refine ⟨?_, fun zero => before.nul_free (List.mem_of_mem_drop zero), ?_⟩
  · rw [← whole, List.flatten_append]
    simp [unsent]
  · intro left
    have leaves : isExit (s.stream.take k) = true := by
      by_contra stays
      simp [stays] at left
    obtain ⟨all, nothing⟩ := last leaves
    rw [nothing, all, List.drop_length, List.append_nil, List.append_nil] at whole
    rw [← whole, all]
    simp

private theorem account_step (s : State) (a : Action) (t : State) (before : Account stdin s)
    (last : Last s a) (taken : step s a = some t) : Account stdin t := by
  cases a with
  | send =>
    simp only [step, Option.ite_none_right_eq_some, Option.some.injEq] at taken
    obtain ⟨ready, rfl⟩ := taken
    exact account_send before ready
  | recv k =>
    simp only [step, Option.ite_none_right_eq_some, Option.some.injEq] at taken
    obtain ⟨⟨_, _, bound, _⟩, rfl⟩ := taken
    exact account_recv before bound last
  | recvEnd =>
    simp only [step, Option.ite_none_right_eq_some, Option.some.injEq] at taken
    obtain ⟨⟨_, left, empty⟩, rfl⟩ := taken
    refine ⟨before.whole, before.nul_free, fun _ => ?_⟩
    have whole := before.whole
    rw [empty, unsent, if_pos left, List.append_nil, List.append_nil] at whole
    exact whole

/-- A server that leaves on a chunk has printed everything only if nothing comes after it. -/
theorem last_of_complete (s : State) (a : Action) (t : State) (before : Account stdin s)
    (taken : step s a = some t) (after : Complete stdin t) : Last s a := by
  cases a with
  | recv k =>
    intro leaves
    simp only [step, Option.ite_none_right_eq_some, Option.some.injEq] at taken
    obtain ⟨⟨_, _, bound, some_bytes⟩, rfl⟩ := taken
    rw [recv_eq before bound] at after
    have printed := after (if_pos leaves)
    have whole := whole_recv before k
    rw [← printed, List.flatten_append, List.flatten_singleton, List.append_assoc] at whole
    have nothing := List.append_eq_nil_iff.mp (List.append_right_eq_self.mp whole)
    have length := List.drop_eq_nil_iff.mp nothing.1
    exact ⟨by omega, nothing.2⟩
  | send => trivial
  | recvEnd => trivial

private theorem account_init (stdin : List Byte) : Account stdin (init stdin) where
  whole := rfl
  nul_free := List.not_mem_nil
  complete := fun left => by cases left

private theorem closed_of_stuck {t : State} (stuck : ∀ a, step t a = none) :
    t.server = .closed := by
  by_contra inside
  have serving : t.server = .loop := by
    cases h : t.server with
    | loop => rfl
    | closed => exact absurd h inside
  have left : t.client = .closed := by
    by_contra typing
    have ready : t.client = .loop := by
      cases h : t.client with
      | loop => rfl
      | closed => exact absurd h typing
    have sends := stuck .send
    rw [step, if_pos ready] at sends
    cases sends
  by_cases empty : t.stream = []
  · have ends := stuck .recvEnd
    rw [step, if_pos ⟨serving, left, empty⟩] at ends
    cases ends
  · have receives := stuck (.recv 1)
    have length := List.length_pos_iff.mpr empty
    rw [step, if_pos ⟨serving, by decide, by decide, by omega⟩] at receives
    cases receives

end Steps

/-- Along a run the server, once it has left, has printed exactly what the client sends, if and
only if every chunk that begins like a farewell is the last of it; and a run that cannot go on
has come to that end. -/
theorem complete_iff_last (stdin : List Byte) {as : List Action} {t : State}
    (taken : exec step (init stdin) as = some t) :
    (Always step (Complete stdin) (init stdin) as ↔ Guarded step Last (init stdin) as) ∧
      ((∀ a, step t a = none) → t.server = .closed) :=
  ⟨always_iff_guarded_of_invariant (fun _ here => here.complete) account_step last_of_complete
    (account_init stdin) taken, closed_of_stuck⟩

/-- One line, then the end of the input. -/
theorem complete_iff_last_one_line : ∃ t,
    exec step (init [104, 105, 10]) [.send, .recv 3, .send, .recvEnd] = some t ∧
      Always step (Complete [104, 105, 10]) (init [104, 105, 10])
        [.send, .recv 3, .send, .recvEnd] := by
  refine ⟨_, rfl, (complete_iff_last [104, 105, 10] rfl).1.mpr ?_⟩
  decide +kernel

/-- The lines `a quit` and `hi`; the first arrives in two chunks, of which the second is
`quit`, and the server leaves without the second line. -/
theorem quit_inside_a_line : ∃ t,
    exec step (init [97, 32, 113, 117, 105, 116, 10, 104, 105, 10])
        [.send, .recv 2, .recv 5] = some t ∧
      ¬Complete [97, 32, 113, 117, 105, 116, 10, 104, 105, 10] t := by
  refine ⟨_, rfl, fun complete => ?_⟩
  have printed := complete (by decide +kernel)
  exact absurd printed (by decide +kernel)

end SocketChat.MoreLearning.TcpOneWay.Loss
