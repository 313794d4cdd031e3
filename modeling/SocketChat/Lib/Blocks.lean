/- SocketChat/Lib/Blocks
   digest: Reading a list in pieces of a fixed size, the last one possibly shorter. -/

import Mathlib.Algebra.Order.Group.Nat
import Mathlib.Data.List.Basic
import Mathlib.Tactic.Ring

set_option autoImplicit false
set_option relaxedAutoImplicit false

namespace SocketChat.Lib.Blocks

universe u

variable {α : Type u}

/-- Successive reads of `size` items until nothing is left. -/
def blocks (size : ℕ) : List α → List (List α)
  | [] => []
  | x :: xs =>
      if 0 < size then (x :: xs).take size :: blocks size ((x :: xs).drop size) else []
termination_by xs => xs.length
decreasing_by
  simp only [List.length_drop, List.length_cons]
  omega

@[simp] theorem blocks_nil (size : ℕ) : blocks size ([] : List α) = [] := by rw [blocks]

theorem blocks_of_ne_nil {size : ℕ} (pos : 0 < size) {xs : List α} (h : xs ≠ []) :
    blocks size xs = xs.take size :: blocks size (xs.drop size) := by
  cases xs with
  | nil => exact absurd rfl h
  | cons x xs => rw [blocks, if_pos pos]

/-- Induction along the reads: an empty rest, or one block in front of the later reads. -/
theorem blocks_induction {size : ℕ} (pos : 0 < size) {motive : List α → Prop}
    (done : motive []) (more : ∀ xs, xs ≠ [] → motive (xs.drop size) → motive xs)
    (xs : List α) : motive xs := by
  induction h : xs.length using Nat.strong_induction_on generalizing xs with
  | _ n ih =>
    cases xs with
    | nil => exact done
    | cons x xs =>
      have shorter : ((x :: xs).drop size).length < n := by
        rw [← h, List.length_drop, List.length_cons]
        omega
      exact more _ (List.cons_ne_nil x xs) (ih _ shorter _ rfl)

theorem flatten_blocks {size : ℕ} (pos : 0 < size) (xs : List α) :
    (blocks size xs).flatten = xs := by
  induction xs using blocks_induction pos with
  | done => simp
  | more xs h ih =>
    rw [blocks_of_ne_nil pos h, List.flatten_cons, ih, List.take_append_drop]

private theorem exists_take_of_mem_blocks {size : ℕ} (pos : 0 < size) {xs b : List α}
    (hb : b ∈ blocks size xs) : ∃ ys, ys ≠ [] ∧ b = ys.take size := by
  induction xs using blocks_induction pos with
  | done => simp at hb
  | more xs h ih =>
    rw [blocks_of_ne_nil pos h, List.mem_cons] at hb
    rcases hb with rfl | hb
    · exact ⟨xs, h, rfl⟩
    · exact ih hb

theorem ne_nil_of_mem_blocks {size : ℕ} (pos : 0 < size) {xs b : List α}
    (hb : b ∈ blocks size xs) : b ≠ [] := by
  obtain ⟨ys, nonempty, rfl⟩ := exists_take_of_mem_blocks pos hb
  simp [List.take_eq_nil_iff, nonempty, pos.ne']

theorem length_le_of_mem_blocks {size : ℕ} (pos : 0 < size) {xs b : List α}
    (hb : b ∈ blocks size xs) : b.length ≤ size := by
  obtain ⟨ys, _, rfl⟩ := exists_take_of_mem_blocks pos hb
  exact List.length_take_le _ _

theorem length_blocks_mul {size : ℕ} (pos : 0 < size) (k : ℕ) {xs : List α}
    (h : xs.length = size * k) : (blocks size xs).length = k := by
  induction k generalizing xs with
  | zero =>
    obtain rfl : xs = [] := List.eq_nil_of_length_eq_zero (by simpa using h)
    simp
  | succ k ih =>
    have nonempty : xs ≠ [] := by
      rintro rfl
      rw [Nat.mul_succ] at h
      simp only [List.length_nil] at h
      omega
    have rest : (xs.drop size).length = size * k := by
      rw [List.length_drop, h, Nat.mul_succ]
      omega
    rw [blocks_of_ne_nil pos nonempty, List.length_cons, ih rest]

private theorem drop_drop_full {size : ℕ} (pos : 0 < size) {xs : List α}
    (large : size ≤ xs.length) : (xs.drop size).drop (size * ((xs.drop size).length / size)) =
      xs.drop (size * (xs.length / size)) := by
  have quotient : xs.length / size = (xs.length - size) / size + 1 := by
    rw [Nat.div_eq_sub_div pos large]
  rw [List.length_drop, List.drop_drop, quotient]
  congr 1
  ring

theorem eq_drop_of_short {size : ℕ} (pos : 0 < size) {xs b : List α}
    (hb : b ∈ blocks size xs) (short : b.length < size) :
    b = xs.drop (size * (xs.length / size)) := by
  induction xs using blocks_induction pos with
  | done => simp at hb
  | more xs h ih =>
    rw [blocks_of_ne_nil pos h, List.mem_cons] at hb
    rcases Nat.lt_or_ge xs.length size with small | large
    · have rest : xs.drop size = [] := List.drop_eq_nil_of_le small.le
      have whole : xs.take size = xs := List.take_of_length_le small.le
      rw [rest, blocks_nil, whole] at hb
      rw [Nat.div_eq_of_lt small]
      simpa using hb
    · rcases hb with rfl | hb
      · rw [List.length_take] at short
        omega
      · rw [← drop_drop_full pos large]
        exact ih hb

theorem drop_mem_blocks {size : ℕ} (pos : 0 < size) {xs : List α}
    (h : xs.drop (size * (xs.length / size)) ≠ []) :
    xs.drop (size * (xs.length / size)) ∈ blocks size xs := by
  induction xs using blocks_induction pos with
  | done => simp at h
  | more xs nonempty ih =>
    rw [blocks_of_ne_nil pos nonempty, List.mem_cons]
    rcases Nat.lt_or_ge xs.length size with small | large
    · left
      rw [Nat.div_eq_of_lt small]
      simp [List.take_of_length_le small.le]
    · right
      rw [← drop_drop_full pos large] at h ⊢
      exact ih h

private theorem flatten_sublist {xs ys : List (List α)} (sub : xs.Sublist ys) :
    xs.flatten.Sublist ys.flatten := by
  induction sub with
  | slnil => exact List.Sublist.refl _
  | cons b _ ih => exact ih.trans (List.sublist_append_right b _)
  | cons_cons b _ ih => exact ih.append_left b

theorem eq_of_sublist_of_flatten_eq {xs ys : List (List α)} (sub : xs.Sublist ys)
    (nonempty : ∀ b ∈ ys, b ≠ []) (h : xs.flatten.length = ys.flatten.length) : xs = ys := by
  induction sub with
  | slnil => rfl
  | @cons xs ys b sub ih =>
    exfalso
    have less : xs.flatten.length ≤ ys.flatten.length := (flatten_sublist sub).length_le
    have some_item : 0 < b.length :=
      List.length_pos_iff.mpr (nonempty b List.mem_cons_self)
    rw [List.flatten_cons, List.length_append] at h
    omega
  | @cons_cons xs ys b sub ih =>
    have same : xs.flatten.length = ys.flatten.length := by
      simpa using h
    rw [ih (fun c hc => nonempty c (List.mem_cons_of_mem b hc)) same]

end SocketChat.Lib.Blocks
