/- SocketChat/Lib/Lines
   digest: Standard input read by `fgets`, piece by piece. -/

import SocketChat.Lib.CString

set_option autoImplicit false
set_option relaxedAutoImplicit false

namespace SocketChat.Lib.Lines

open SocketChat.Lib.CString

def newline : Byte := 10

/-- The next line cut off after `room` bytes, and the input after it. -/
def cutLine : ℕ → List Byte → List Byte × List Byte
  | 0, input => ([], input)
  | _, [] => ([], [])
  | room + 1, b :: input =>
      if b = newline then ([b], input)
      else (b :: (cutLine room input).1, (cutLine room input).2)

/-- `fgets(buffer, size, stdin)`: the bytes it stores before the NUL and the input left, or
nothing at the end of the input. -/
def fgets (size : ℕ) (input : List Byte) : Option (List Byte × List Byte) :=
  if input = [] then none else some (cutLine (size - 1) input)

theorem cutLine_append (room : ℕ) (input : List Byte) :
    (cutLine room input).1 ++ (cutLine room input).2 = input := by
  induction room generalizing input with
  | zero => rfl
  | succ room ih =>
    cases input with
    | nil => rfl
    | cons b input =>
      rw [cutLine]
      split
      · rfl
      · rw [List.cons_append, ih]

private theorem length_cutLine_le (room : ℕ) (input : List Byte) :
    (cutLine room input).1.length ≤ room := by
  induction room generalizing input with
  | zero => exact Nat.le_refl 0
  | succ room ih =>
    cases input with
    | nil => exact Nat.zero_le _
    | cons b input =>
      rw [cutLine]
      split
      · simp
      · simpa using ih input

theorem cutLine_ne_nil {room : ℕ} (pos : 0 < room) {input : List Byte} (more : input ≠ []) :
    (cutLine room input).1 ≠ [] := by
  cases input with
  | nil => exact absurd rfl more
  | cons b input =>
    cases room with
    | zero => omega
    | succ room =>
      rw [cutLine]
      split <;> exact List.cons_ne_nil _ _

private theorem newline_notMem_dropLast_cutLine (room : ℕ) (input : List Byte) :
    newline ∉ (cutLine room input).1.dropLast := by
  induction room generalizing input with
  | zero => exact List.not_mem_nil
  | succ room ih =>
    cases input with
    | nil => exact List.not_mem_nil
    | cons b input =>
      rw [cutLine]
      split
      · exact List.not_mem_nil
      · rename_i other
        intro inside
        cases later : (cutLine room input).1 with
        | nil =>
          rw [later] at inside
          cases inside
        | cons x xs =>
          rw [later, List.dropLast_cons_cons, List.mem_cons] at inside
          rcases inside with here | further
          · exact other here.symm
          · refine ih input ?_
            rw [later]
            exact further

theorem filter_newline {text : List Byte} (only_last : newline ∉ text.dropLast) :
    text.filter (· ≠ newline) =
      if text.getLast? = some newline then text.dropLast else text := by
  have front : text.dropLast.filter (· ≠ newline) = text.dropLast := by
    refine List.filter_eq_self.mpr fun b inside => decide_eq_true ?_
    rintro rfl
    exact only_last inside
  rcases List.eq_nil_or_concat text with rfl | ⟨rest, last, rfl⟩
  · rfl
  · rw [List.concat_eq_append, List.dropLast_concat] at front
    rw [List.concat_eq_append, List.getLast?_concat, List.dropLast_concat, List.filter_append,
      front]
    by_cases is : last = newline
    · rw [is, if_pos rfl]
      exact List.append_nil rest
    · rw [if_neg fun same => is (Option.some.inj same)]
      simp [is]

theorem fgets_eq_none {size : ℕ} {input : List Byte} : fgets size input = none ↔ input = [] := by
  unfold fgets
  split <;> simp [*]

section Piece

variable {size : ℕ} {input piece rest : List Byte}

theorem fgets_append (typed : fgets size input = some (piece, rest)) : piece ++ rest = input := by
  unfold fgets at typed
  split at typed
  · cases typed
  · rw [← cutLine_append (size - 1) input, Option.some.inj typed]

theorem fgets_length_le (typed : fgets size input = some (piece, rest)) :
    piece.length ≤ size - 1 := by
  unfold fgets at typed
  split at typed
  · cases typed
  · have bound := length_cutLine_le (size - 1) input
    rwa [Option.some.inj typed] at bound

theorem newline_notMem_dropLast_fgets (typed : fgets size input = some (piece, rest)) :
    newline ∉ piece.dropLast := by
  unfold fgets at typed
  split at typed
  · cases typed
  · have last := newline_notMem_dropLast_cutLine (size - 1) input
    rwa [Option.some.inj typed] at last

theorem fgets_ne_nil (two : 2 ≤ size) (typed : fgets size input = some (piece, rest)) :
    piece ≠ [] := by
  unfold fgets at typed
  split at typed
  · cases typed
  · rename_i more
    have nonempty : (cutLine (size - 1) input).1 ≠ [] := cutLine_ne_nil (by omega) more
    rwa [Option.some.inj typed] at nonempty

theorem fgets_shorter (two : 2 ≤ size) (typed : fgets size input = some (piece, rest)) :
    rest.length < input.length := by
  have whole := congrArg List.length (fgets_append typed)
  have nonempty := List.length_pos_iff.mpr (fgets_ne_nil two typed)
  rw [List.length_append] at whole
  omega

end Piece

def firstPieces (size : ℕ) : ℕ → List Byte → List (List Byte)
  | 0, _ => []
  | calls + 1, input =>
      match fgets size input with
      | none => []
      | some (piece, rest) => piece :: firstPieces size calls rest

/-- All pieces of an input: every call but the last consumes a byte. -/
def pieces (size : ℕ) (input : List Byte) : List (List Byte) :=
  firstPieces size input.length input

private theorem firstPieces_eq_of_le {size : ℕ} (two : 2 ≤ size) {calls more : ℕ}
    {input : List Byte} (enough : input.length ≤ calls) (also : input.length ≤ more) :
    firstPieces size calls input = firstPieces size more input := by
  induction calls generalizing more input with
  | zero =>
    obtain rfl : input = [] := List.length_eq_zero_iff.mp (Nat.le_zero.mp enough)
    cases more <;> rfl
  | succ calls ih =>
    cases typed : fgets size input with
    | none =>
      obtain rfl := fgets_eq_none.mp typed
      cases more <;> rfl
    | some both =>
      obtain ⟨piece, rest⟩ := both
      have shorter := fgets_shorter two typed
      cases more with
      | zero => omega
      | succ more =>
        rw [firstPieces, firstPieces, typed]
        exact congrArg (piece :: ·) (ih (by omega) (by omega))

theorem pieces_nil (size : ℕ) : pieces size [] = [] := rfl

theorem pieces_of_fgets {size : ℕ} (two : 2 ≤ size) {input piece rest : List Byte}
    (typed : fgets size input = some (piece, rest)) :
    pieces size input = piece :: pieces size rest := by
  have shorter := fgets_shorter two typed
  have spare : firstPieces size input.length input =
      firstPieces size (input.length + 1) input :=
    firstPieces_eq_of_le two (Nat.le_refl _) (Nat.le_succ _)
  rw [pieces, spare, firstPieces, typed]
  exact congrArg (piece :: ·) (firstPieces_eq_of_le two (by omega) (Nat.le_refl _))

theorem of_mem_pieces {size : ℕ} (two : 2 ≤ size) {input piece : List Byte}
    (typed : piece ∈ pieces size input) :
    piece ≠ [] ∧ piece.length ≤ size - 1 ∧ piece <:+: input := by
  induction h : input.length using Nat.strong_induction_on generalizing input with
  | _ n ih =>
    cases first : fgets size input with
    | none =>
      rw [fgets_eq_none.mp first, pieces_nil] at typed
      cases typed
    | some both =>
      obtain ⟨head, rest⟩ := both
      have whole := fgets_append first
      rw [pieces_of_fgets two first] at typed
      rcases List.mem_cons.mp typed with rfl | later
      · exact ⟨fgets_ne_nil two first, fgets_length_le first, ⟨[], rest, whole⟩⟩
      · obtain ⟨nonempty, fits, within⟩ := ih _ (h ▸ fgets_shorter two first) later rfl
        exact ⟨nonempty, fits, whole ▸ within.trans (List.suffix_append head rest).isInfix⟩

end SocketChat.Lib.Lines
