/- SocketChat/Lib/LineBlocks
   digest: The lines of an input, and the blocks that `fgets` cuts each of them into. -/

import Mathlib.Data.List.TakeDrop
import SocketChat.Lib.Blocks
import SocketChat.Lib.Lines

set_option autoImplicit false
set_option relaxedAutoImplicit false

namespace SocketChat.Lib.LineBlocks

open SocketChat.Lib.Blocks
open SocketChat.Lib.CString
open SocketChat.Lib.Lines

def linesOf : List Byte → List (List Byte)
  | [] => []
  | b :: input =>
      if b = newline then [b] :: linesOf input
      else
        match linesOf input with
        | [] => [[b]]
        | line :: lines => (b :: line) :: lines

/-- At least one byte, and a newline at most at the end. -/
structure IsLine (line : List Byte) : Prop where
  nonempty : line ≠ []
  single : newline ∉ line.dropLast

section Lines

variable {b : Byte} {input line rest : List Byte} {lines before after : List (List Byte)}

private theorem isLine_singleton (b : Byte) :
    IsLine [b] := ⟨List.cons_ne_nil b [], List.not_mem_nil⟩

private theorem isLine_cons (other : b ≠ newline) (isLine : IsLine line) : IsLine (b :: line) := by
  refine ⟨List.cons_ne_nil b line, ?_⟩
  rw [List.dropLast_cons_of_ne_nil isLine.nonempty, List.mem_cons, not_or]
  exact ⟨other.symm, isLine.single⟩

private theorem IsLine.tail (isLine : IsLine (b :: line)) (more : line ≠ []) :
    b ≠ newline ∧ IsLine line := by
  have single := isLine.single
  rw [List.dropLast_cons_of_ne_nil more, List.mem_cons, not_or] at single
  exact ⟨fun same => single.1 same.symm, more, single.2⟩

private theorem IsLine.drop (isLine : IsLine line) {k : ℕ} (less : k < line.length) :
    IsLine (line.drop k) ∧ (line.drop k).getLast? = line.getLast? := by
  have more : line.drop k ≠ [] := by
    apply List.ne_nil_of_length_pos
    rw [List.length_drop]
    omega
  refine ⟨⟨more, ?_⟩, ?_⟩
  · rw [List.dropLast_drop_eq_drop_dropLast]
    intro inside
    exact isLine.single (List.mem_of_mem_drop inside)
  · rw [List.getLast?_drop, if_neg (by omega)]

private theorem linesOf_append (isLine : IsLine line)
    (ended : line.getLast? = some newline ∨ rest = []) :
    linesOf (line ++ rest) = line :: linesOf rest := by
  induction line with
  | nil => exact absurd rfl isLine.nonempty
  | cons b line ih =>
    by_cases more : line = []
    · subst more
      rw [List.singleton_append, linesOf]
      rcases ended with newline_last | nothing
      · have is : b = newline := Option.some.inj newline_last
        rw [if_pos is]
      · subst nothing
        split <;> rfl
    · obtain ⟨other, tail⟩ := isLine.tail more
      have later : line.getLast? = some newline ∨ rest = [] := by
        rwa [List.getLast?_cons_of_ne_nil more] at ended
      rw [List.cons_append, linesOf, if_neg other, ih tail later]

theorem flatten_linesOf (input : List Byte) : (linesOf input).flatten = input := by
  induction input with
  | nil => rfl
  | cons b input ih =>
    rw [linesOf]
    split
    · rw [List.flatten_cons, ih, List.singleton_append]
    · cases further : linesOf input with
      | nil =>
        rw [further] at ih
        exact congrArg (b :: ·) ih
      | cons next others =>
        rw [further] at ih
        exact congrArg (b :: ·) ih

private theorem isLine_first (cut : linesOf input = line :: lines) :
    IsLine line ∧ (line.getLast? = some newline ∨ lines = []) := by
  induction input generalizing line lines with
  | nil => cases cut
  | cons b input ih =>
    rw [linesOf] at cut
    split at cut
    · rename_i is
      obtain ⟨rfl, rfl⟩ := List.cons.inj cut
      exact ⟨isLine_singleton b, Or.inl (congrArg some is)⟩
    · rename_i other
      cases further : linesOf input with
      | nil =>
        rw [further] at cut
        obtain ⟨rfl, rfl⟩ := List.cons.inj cut
        exact ⟨isLine_singleton b, Or.inr rfl⟩
      | cons next others =>
        rw [further] at cut
        obtain ⟨rfl, rfl⟩ := List.cons.inj cut
        obtain ⟨isLine, ended⟩ := ih further
        refine ⟨isLine_cons other isLine, ?_⟩
        rwa [List.getLast?_cons_of_ne_nil isLine.nonempty]

private theorem linesOf_rest (cut : linesOf input = line :: lines) :
    linesOf lines.flatten = lines := by
  have whole := flatten_linesOf input
  rw [cut, List.flatten_cons] at whole
  obtain ⟨isLine, ended⟩ := isLine_first cut
  have again : linesOf (line ++ lines.flatten) = line :: linesOf lines.flatten := by
    apply linesOf_append isLine
    rcases ended with newline_last | only
    · exact Or.inl newline_last
    · rw [only]
      exact Or.inr rfl
  rw [whole, cut] at again
  exact (List.cons.inj again).2.symm

theorem linesOf_front (cut : linesOf input = before ++ after) :
    linesOf before.flatten = before := by
  induction before generalizing input with
  | nil => rfl
  | cons line before ih =>
    obtain ⟨isLine, ended⟩ := isLine_first cut
    have inner := ih (linesOf_rest cut)
    rw [List.flatten_cons, linesOf_append isLine, inner]
    rcases ended with newline_last | only
    · exact Or.inl newline_last
    · rw [(List.append_eq_nil_iff.mp only).1]
      exact Or.inr rfl

theorem isLine_of_mem (held : line ∈ linesOf input) : IsLine line := by
  obtain ⟨before, after, cut⟩ := List.append_of_mem held
  induction before generalizing input with
  | nil => exact (isLine_first cut).1
  | cons other before ih =>
    have inner := linesOf_rest cut
    apply ih _ inner
    rw [inner]
    exact List.mem_append_right before List.mem_cons_self

end Lines

section Fgets

variable {room : ℕ} {input line rest : List Byte}

private theorem cutLine_line (isLine : IsLine line)
    (ended : line.getLast? = some newline ∨ rest = [])
    (fits : line.length ≤ room) : cutLine room (line ++ rest) = (line, rest) := by
  induction line generalizing room with
  | nil => exact absurd rfl isLine.nonempty
  | cons b line ih =>
    rw [List.length_cons] at fits
    obtain ⟨less, rfl⟩ : ∃ less, room = less + 1 := ⟨room - 1, by omega⟩
    rw [List.cons_append, cutLine]
    by_cases more : line = []
    · subst more
      split
      · rfl
      · rename_i other
        rcases ended with newline_last | nothing
        · exact absurd (Option.some.inj newline_last) other
        · subst nothing
          cases less <;> rfl
    · obtain ⟨other, tail⟩ := isLine.tail more
      have later : line.getLast? = some newline ∨ rest = [] := by
        rwa [List.getLast?_cons_of_ne_nil more] at ended
      rw [if_neg other, ih tail later (by omega)]

private theorem cutLine_block (isLine : IsLine line) (long : room < line.length) :
    cutLine room (line ++ rest) = (line.take room, line.drop room ++ rest) := by
  induction line generalizing room with
  | nil => exact absurd rfl isLine.nonempty
  | cons b line ih =>
    cases room with
    | zero => rfl
    | succ room =>
      rw [List.length_cons] at long
      have more : line ≠ [] := List.ne_nil_of_length_pos (by omega)
      obtain ⟨other, tail⟩ := isLine.tail more
      rw [List.cons_append, cutLine, if_neg other, ih tail (by omega)]
      rfl

private theorem fgets_append_line (size : ℕ) (isLine : IsLine line) (rest : List Byte) :
    fgets size (line ++ rest) = some (cutLine (size - 1) (line ++ rest)) := by
  rw [fgets, if_neg]
  intro nothing
  exact isLine.nonempty (List.append_eq_nil_iff.mp nothing).1

theorem pieces_eq_blocks {size : ℕ} (two : 2 ≤ size) (input : List Byte) :
    pieces size input = (linesOf input).flatMap (blocks (size - 1)) := by
  have pos : 0 < size - 1 := by omega
  induction h : input.length using Nat.strong_induction_on generalizing input with
  | _ n ih =>
    cases cut : linesOf input with
    | nil =>
      have nothing := flatten_linesOf input
      rw [cut] at nothing
      rw [← nothing]
      rfl
    | cons line lines =>
      have whole := flatten_linesOf input
      rw [cut, List.flatten_cons] at whole
      obtain ⟨isLine, ended⟩ := isLine_first cut
      have last : line.getLast? = some newline ∨ lines.flatten = [] := by
        rcases ended with newline_last | only
        · exact Or.inl newline_last
        · rw [only]
          exact Or.inr rfl
      have shape := fgets_append_line size isLine lines.flatten
      rw [whole] at shape
      by_cases fits : line.length ≤ size - 1
      · rw [← whole, cutLine_line isLine last fits, whole] at shape
        have shorter := fgets_shorter two shape
        rw [pieces_of_fgets two shape, ih _ (h ▸ shorter) _ rfl, linesOf_rest cut,
          List.flatMap_cons, blocks_of_ne_nil pos isLine.nonempty, List.take_of_length_le fits,
          List.drop_eq_nil_of_le fits, blocks_nil]
        rfl
      · have long : size - 1 < line.length := Nat.lt_of_not_le fits
        rw [← whole, cutLine_block isLine long, whole] at shape
        have shorter := fgets_shorter two shape
        obtain ⟨left, same⟩ := isLine.drop long
        have later : (line.drop (size - 1)).getLast? = some newline ∨ lines.flatten = [] := by
          rw [same]
          exact last
        rw [pieces_of_fgets two shape, ih _ (h ▸ shorter) _ rfl, linesOf_append left later,
          linesOf_rest cut, List.flatMap_cons, List.flatMap_cons,
          blocks_of_ne_nil pos isLine.nonempty]
        rfl

def lastBlock (size : ℕ) (line : List Byte) : List Byte :=
  line.drop ((line.length - 1) / size * size)

theorem blocks_line {size : ℕ} (pos : 0 < size) (isLine : IsLine line) :
    ∃ full, blocks size line = full ++ [lastBlock size line] ∧
      ∀ block ∈ full, block.length = size ∧ newline ∉ block := by
  induction line using blocks_induction pos with
  | done => exact absurd rfl isLine.nonempty
  | more line some_left ih =>
    rw [blocks_of_ne_nil pos some_left]
    by_cases fits : line.length ≤ size
    · refine ⟨[], ?_, fun block held => absurd held List.not_mem_nil⟩
      have none_full : (line.length - 1) / size = 0 := Nat.div_eq_of_lt (by omega)
      rw [List.take_of_length_le fits, List.drop_eq_nil_of_le fits, blocks_nil, lastBlock,
        none_full, Nat.zero_mul, List.drop_zero]
      rfl
    · have long : size < line.length := Nat.lt_of_not_le fits
      obtain ⟨full, split, all⟩ := ih (isLine.drop long).1
      refine ⟨line.take size :: full, ?_, ?_⟩
      · rw [split]
        have count : (line.length - 1) / size = (line.length - size - 1) / size + 1 := by
          rw [← Nat.add_div_right _ pos]
          congr 1
          omega
        have same : lastBlock size (line.drop size) = lastBlock size line := by
          rw [lastBlock, lastBlock, List.drop_drop, List.length_drop, count, Nat.succ_mul,
            Nat.add_comm]
        rw [same]
        rfl
      · intro block held
        rcases List.mem_cons.mp held with rfl | later
        · refine ⟨List.length_take_of_le (Nat.le_of_lt long), ?_⟩
          intro inside
          apply isLine.single
          rw [List.dropLast_eq_take]
          exact (List.take_subset_take_left line (by omega)) inside
        · exact all block later

private theorem isLine_lastBlock {size : ℕ} (isLine : IsLine line) :
    IsLine (lastBlock size line) := by
  have some_bytes := List.length_pos_iff.mpr isLine.nonempty
  have before := Nat.div_mul_le_self (line.length - 1) size
  exact (isLine.drop (by omega)).1

theorem isLine_of_mem_blocks {size : ℕ} (pos : 0 < size) (isLine : IsLine line)
    {block : List Byte} (held : block ∈ blocks size line) : IsLine block := by
  obtain ⟨full, split, all⟩ := blocks_line pos isLine
  rw [split] at held
  rcases List.mem_append.mp held with front | last
  · obtain ⟨size_eq, without⟩ := all block front
    refine ⟨List.ne_nil_of_length_pos (by omega), ?_⟩
    intro inside
    exact without (List.dropLast_subset block inside)
  · rw [List.mem_singleton.mp last]
    exact isLine_lastBlock isLine

end Fgets

end SocketChat.Lib.LineBlocks
