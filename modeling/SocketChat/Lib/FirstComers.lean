/- SocketChat/Lib/FirstComers
   digest: A register of bounded size that keeps the first distinct comers. -/

import Mathlib.Data.List.Induction
import Mathlib.Data.List.Nodup

set_option autoImplicit false
set_option relaxedAutoImplicit false

namespace SocketChat.Lib.FirstComers

universe u

variable {α : Type u} [DecidableEq α]

/-- The first `room` distinct comers, in the order of their first appearance. -/
def firstComers (room : ℕ) (comers : List α) : List α := comers.eraseDups.take room

def register (room : ℕ) (table : List α) (comer : α) : List α :=
  if comer ∉ table ∧ table.length < room then table ++ [comer] else table

private theorem eraseDups_concat (comers : List α) (comer : α) :
    (comers ++ [comer]).eraseDups =
      if comer ∈ comers then comers.eraseDups else comers.eraseDups ++ [comer] := by
  rw [List.eraseDups_append]
  by_cases known : comer ∈ comers
  · rw [if_pos known]
    simp [List.removeAll, known]
  · rw [if_neg known]
    simp [List.removeAll, known, List.eraseDups_cons]

theorem firstComers_concat (room : ℕ) (comers : List α) (comer : α) :
    firstComers room (comers ++ [comer]) = register room (firstComers room comers) comer := by
  unfold firstComers register
  rw [eraseDups_concat]
  by_cases known : comer ∈ comers
  · rw [if_pos known]
    by_cases full : comers.eraseDups.length ≤ room
    · rw [List.take_of_length_le full, if_neg]
      simp [known]
    · rw [if_neg]
      simp only [List.length_take]
      omega
  · rw [if_neg known]
    have fresh : comer ∉ comers.eraseDups.take room := by
      intro kept
      exact known (List.mem_eraseDups.mp (List.mem_of_mem_take kept))
    by_cases full : comers.eraseDups.length < room
    · have short : (comers.eraseDups.take room).length < room := by
        simp only [List.length_take]
        omega
      rw [if_pos ⟨fresh, short⟩, List.take_of_length_le (by simp; omega),
        List.take_of_length_le (by omega)]
    · have long : ¬(comers.eraseDups.take room).length < room := by
        simp only [List.length_take]
        omega
      rw [if_neg (fun both => long both.2), List.take_append_of_le_length (by omega)]

theorem mem_register {room : ℕ} {table : List α} {comer other : α} (differ : other ≠ comer) :
    other ∈ register room table comer ↔ other ∈ table := by
  unfold register
  split
  · simp [differ]
  · exact Iff.rfl

theorem nodup_register {room : ℕ} {table : List α} (distinct : table.Nodup) (comer : α) :
    (register room table comer).Nodup := by
  unfold register
  split
  · rename_i fresh
    rw [← List.concat_eq_append]
    exact distinct.concat fresh.1
  · exact distinct

theorem nodup_firstComers (room : ℕ) (comers : List α) : (firstComers room comers).Nodup := by
  induction comers using List.reverseRecOn with
  | nil => simp [firstComers]
  | append_singleton comers comer ih =>
    rw [firstComers_concat]
    exact nodup_register ih comer

end SocketChat.Lib.FirstComers
