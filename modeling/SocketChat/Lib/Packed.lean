/- SocketChat/Lib/Packed
   digest: An array whose first cells are in use, and removal by shifting the later ones left. -/

import Mathlib.Data.List.Basic

set_option autoImplicit false
set_option relaxedAutoImplicit false

namespace SocketChat.Lib.Packed

universe u

variable {α : Type u} {cap : ℕ}

def live (cells : Vector α cap) (count : ℕ) : List α := cells.toList.take count

/-- `cells[j] = cells[j + 1]`. -/
def pull (cells : Vector α cap) (j : ℕ) : Vector α cap :=
  if inside : j + 1 < cap then cells.set j cells[j + 1] else cells

/-- `for (; j < count - 1; j++) cells[j] = cells[j + 1]`. -/
def shiftFrom (cells : Vector α cap) (count j : ℕ) : Vector α cap :=
  if j + 1 < count then shiftFrom (pull cells j) count (j + 1) else cells
termination_by count - j

/-- What is in use after the first occurrence of `x` from `i` on has been searched and
removed. -/
def removeFrom [DecidableEq α] (cells : Vector α cap) (count : ℕ) (x : α) (i : ℕ) : List α :=
  if i < count then
    if cells[i]? = some x then live (shiftFrom cells count i) (count - 1)
    else removeFrom cells count x (i + 1)
  else live cells count
termination_by count - i

section Cells

variable (cells : Vector α cap)

theorem getElem?_live (count k : ℕ) :
    (live cells count)[k]? = if k < count then cells[k]? else none := by
  rw [live, List.getElem?_take, Vector.getElem?_toList]

private theorem length_live {count : ℕ} (bound : count ≤ cap) :
    (live cells count).length = count := by
  rw [live, List.length_take, Vector.length_toList, Nat.min_eq_left bound]

theorem live_succ_set (x : α) {count : ℕ} (room : count < cap) :
    live (cells.set count x) (count + 1) = live cells count ++ [x] := by
  apply List.ext_getElem?
  intro k
  rw [getElem?_live, List.getElem?_append, length_live cells (Nat.le_of_lt room), getElem?_live,
    Vector.getElem?_set]
  rcases Nat.lt_trichotomy k count with before | rfl | after
  · rw [if_pos (by omega), if_neg (by omega), if_pos before, if_pos before]
  · simp
  · rw [if_neg (by omega), if_neg (by omega)]
    exact (List.getElem?_eq_none (by rw [List.length_singleton]; omega)).symm

private theorem getElem?_pull {j : ℕ} (inside : j + 1 < cap) (k : ℕ) :
    (pull cells j)[k]? = if k = j then cells[j + 1]? else cells[k]? := by
  rw [pull, dif_pos inside, Vector.getElem?_set, Vector.getElem?_eq_getElem inside]
  simp only [eq_comm]

private theorem getElem?_shiftFrom {count : ℕ} (bound : count ≤ cap) (j k : ℕ) :
    (shiftFrom cells count j)[k]? =
      if j ≤ k ∧ k + 1 < count then cells[k + 1]? else cells[k]? := by
  fun_induction shiftFrom cells count j with
  | case1 cells j more ih =>
    rw [ih, getElem?_pull cells (by omega), getElem?_pull cells (by omega)]
    rcases Nat.lt_trichotomy k j with before | rfl | after
    · rw [if_neg (by omega), if_neg (by omega), if_neg (by omega)]
    · rw [if_neg (by omega), if_pos rfl, if_pos ⟨Nat.le_refl k, more⟩]
    · by_cases inside : k + 1 < count
      · rw [if_pos ⟨after, inside⟩, if_neg (by omega), if_pos ⟨Nat.le_of_lt after, inside⟩]
      · rw [if_neg (by omega), if_neg (by omega), if_neg (by omega)]
  | case2 cells j done => rw [if_neg (by omega)]

private theorem live_shiftFrom {count j : ℕ} (bound : count ≤ cap) (inside : j < count) :
    live (shiftFrom cells count j) (count - 1) = (live cells count).eraseIdx j := by
  apply List.ext_getElem?
  intro k
  rw [getElem?_live, getElem?_shiftFrom cells bound, List.getElem?_eraseIdx, getElem?_live,
    getElem?_live]
  rcases Nat.lt_or_ge k j with before | behind
  · rw [if_pos (by omega), if_neg (by omega), if_pos before, if_pos (by omega)]
  · by_cases last : k + 1 < count
    · rw [if_pos (by omega), if_pos ⟨behind, last⟩, if_neg (Nat.not_lt.mpr behind), if_pos last]
    · rw [if_neg (by omega), if_neg (Nat.not_lt.mpr behind), if_neg last]

end Cells

theorem removeFrom_eq_erase [DecidableEq α] (cells : Vector α cap) {count : ℕ}
    (bound : count ≤ cap) (x : α) {i : ℕ} (before : x ∉ (live cells count).take i) :
    removeFrom cells count x i = (live cells count).erase x := by
  fun_induction removeFrom cells count x i with
  | case1 i inside found =>
    have here : (live cells count)[i]? = some x := by
      rw [getElem?_live, if_pos inside, found]
    obtain ⟨length, here⟩ := List.getElem?_eq_some_iff.mp here
    have split : live cells count = (live cells count).take i ++
        x :: (live cells count).drop (i + 1) := by
      rw [← here, List.getElem_cons_drop, List.take_append_drop]
    rw [live_shiftFrom cells bound inside, List.eraseIdx_eq_take_drop_succ]
    conv => rhs; rw [split]
    rw [List.erase_append_right _ before, List.erase_cons_head]
  | case2 i inside other ih =>
    refine ih fun within => ?_
    rw [List.take_add_one, List.mem_append] at within
    rcases within with earlier | here
    · exact before earlier
    · rw [getElem?_live, if_pos inside, Option.mem_toList] at here
      exact other here
  | case3 i done =>
    have all : (live cells count).take i = live cells count :=
      List.take_of_length_le (by rw [length_live cells bound]; omega)
    rw [all] at before
    exact (List.erase_of_not_mem before).symm

end SocketChat.Lib.Packed
