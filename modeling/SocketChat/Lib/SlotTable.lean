/- SocketChat/Lib/SlotTable
   digest: A table of slots with an empty mark, filled at its first free slot. -/

import Mathlib.Data.List.Nodup
import Mathlib.Data.List.Perm.Basic
import Mathlib.Logic.Function.Basic

set_option autoImplicit false
set_option relaxedAutoImplicit false

namespace SocketChat.Lib.SlotTable

universe u

variable {α : Type u} [DecidableEq α] {free x y : α} {table : List α}

/-- What the slots hold, without those that hold the empty mark. -/
def occupants (free : α) (table : List α) : List α := table.filter (· ≠ free)

theorem mem_occupants : y ∈ occupants free table ↔ y ∈ table ∧ y ≠ free := by
  rw [occupants, List.mem_filter, decide_eq_true_iff]

private theorem occupants_cons_free (table : List α) :
    occupants free (free :: table) = occupants free table :=
  List.filter_cons_of_neg (by simp)

private theorem occupants_cons (used : x ≠ free) (table : List α) :
    occupants free (x :: table) = x :: occupants free table :=
  List.filter_cons_of_pos (decide_eq_true used)

theorem occupants_replicate (n : ℕ) : occupants free (List.replicate n free) = [] := by
  apply List.filter_eq_nil_iff.mpr
  intro y hy
  simp [List.eq_of_mem_replicate hy]

theorem occupants_fill (room : free ∈ table) (used : x ≠ free) :
    (occupants free (table.replace free x)).Perm (x :: occupants free table) := by
  induction table with
  | nil => cases room
  | cons y table ih =>
    by_cases hy : y = free
    · subst hy
      rw [List.replace_cons_self, occupants_cons used, occupants_cons_free]
    · have other : free ≠ y := fun h => hy h.symm
      have later : free ∈ table := (List.mem_cons.mp room).resolve_left other
      rw [List.replace_cons, beq_false_of_ne other, occupants_cons hy, occupants_cons hy]
      exact ((ih later).cons y).trans (List.Perm.swap x y _)

theorem replace_of_idle (idle : ¬(x ∈ table ∧ y ≠ x)) : table.replace x y = table := by
  by_cases held : x ∈ table
  · obtain rfl : y = x := by
      by_contra differ
      exact idle ⟨held, differ⟩
    clear idle held
    induction table with
    | nil => rfl
    | cons z table ih =>
      by_cases same : y = z
      · subst same
        rw [List.replace_cons_self]
      · rw [List.replace_cons, beq_false_of_ne same, ih]
  · exact List.replace_of_not_mem held

theorem occupants_clear (held : x ∈ table) (used : x ≠ free) :
    (occupants free table).Perm (x :: occupants free (table.replace x free)) := by
  induction table with
  | nil => cases held
  | cons y table ih =>
    by_cases hx : x = y
    · subst hx
      rw [List.replace_cons_self, occupants_cons used, occupants_cons_free]
    · have later : x ∈ table := (List.mem_cons.mp held).resolve_left hx
      rw [List.replace_cons, beq_false_of_ne hx]
      by_cases hy : y = free
      · subst hy
        rw [occupants_cons_free, occupants_cons_free]
        exact ih later
      · rw [occupants_cons hy, occupants_cons hy]
        exact ((ih later).cons y).trans (List.Perm.swap x y _)

theorem occupants_set {i : ℕ} (held : table[i]? = some x) (used : x ≠ free) :
    (occupants free table).Perm (x :: occupants free (table.set i free)) := by
  induction table generalizing i with
  | nil => cases held
  | cons y table ih =>
    cases i with
    | zero =>
      obtain rfl : y = x := Option.some.inj held
      rw [List.set_cons_zero, occupants_cons used, occupants_cons_free]
    | succ i =>
      rw [List.set_cons_succ]
      by_cases hy : y = free
      · subst hy
        rw [occupants_cons_free, occupants_cons_free]
        exact ih held
      · rw [occupants_cons hy, occupants_cons hy]
        exact ((ih held).cons y).trans (List.Perm.swap x y _)

theorem slot_unique {i j : ℕ} (once : (occupants free table).Nodup) (used : x ≠ free)
    (first : table[i]? = some x) (second : table[j]? = some x) : i = j := by
  by_contra differ
  have absent := (List.nodup_cons.mp ((occupants_set first used).nodup_iff.mp once)).1
  have kept : (table.set i free)[j]? = some x := by
    rw [List.getElem?_set_ne differ]
    exact second
  exact absent (mem_occupants.mpr ⟨List.mem_of_getElem? kept, used⟩)

section Chosen

variable {p : α → Bool}

private theorem filter_occupants (out : p free = false) (table : List α) :
    (occupants free table).filter p = table.filter p := by
  rw [occupants, List.filter_filter]
  apply List.filter_congr
  intro y _
  by_cases hy : y = free
  · subst hy
    simp [out]
  · simp [hy]

theorem filter_fill (out : p free = false) (room : free ∈ table) (used : x ≠ free) :
    ((table.replace free x).filter p).Perm ((x :: table).filter p) := by
  rw [← filter_occupants out, ← filter_occupants out (x :: table), occupants_cons used]
  exact (occupants_fill room used).filter p

theorem filter_set {i : ℕ} (out : p free = false) (held : table[i]? = some x) (used : x ≠ free) :
    (table.filter p).Perm ((x :: table.set i free).filter p) := by
  rw [← filter_occupants out, ← filter_occupants out (x :: table.set i free),
    occupants_cons used]
  exact (occupants_set held used).filter p

omit [DecidableEq α] in
theorem nodup_filter_of_imp {q : α → Bool} (narrower : ∀ y ∈ table, q y = true → p y = true)
    (once : (table.filter p).Nodup) : (table.filter q).Nodup := by
  have part : table.filter q = (table.filter p).filter q := by
    rw [List.filter_filter]
    apply List.filter_congr
    intro y hy
    cases hq : q y with
    | false => rfl
    | true => rw [narrower y hy hq, Bool.and_self]
  rw [part]
  exact once.filter q

end Chosen

section Behind

variable {β : Type u} {f : α → Option β} {b c : β}

theorem update_some_eq_some :
    Function.update f x (some b) y = some c ↔ (y = x ∧ b = c) ∨ (y ≠ x ∧ f y = some c) := by
  by_cases same : y = x
  · subst same
    simp
  · simp [same]

theorem update_none_eq_some :
    Function.update f x none y = some c ↔ y ≠ x ∧ f y = some c := by
  by_cases same : y = x
  · subst same
    simp
  · simp [same]

end Behind

section Recipients

def recipients (free x : α) (table : List α) : List α :=
  table.filter fun y => y ≠ free ∧ y ≠ x

theorem mem_recipients : y ∈ recipients free x table ↔ y ∈ occupants free table ∧ y ≠ x := by
  rw [recipients, List.mem_filter, decide_eq_true_iff, mem_occupants, and_assoc]

private theorem nodup_recipients (once : (occupants free table).Nodup) :
    (recipients free x table).Nodup := by
  have part : recipients free x table = (occupants free table).filter (· ≠ x) := by
    rw [recipients, occupants, List.filter_filter]
    apply List.filter_congr
    intro y _
    rw [← Bool.decide_and]
    exact decide_eq_decide.mpr and_comm
  rw [part]
  exact once.filter _

omit [DecidableEq α] in
theorem eq_singleton_of_nodup {l : List α} (once : l.Nodup) (held : y ∈ l)
    (only : ∀ z ∈ l, z = y) : l = [y] := by
  cases l with
  | nil => cases held
  | cons z l =>
    obtain ⟨absent, _⟩ := List.nodup_cons.mp once
    have first : z = y := only z List.mem_cons_self
    have rest : l = [] := by
      apply List.eq_nil_iff_forall_not_mem.mpr
      intro w hw
      rw [first, ← only w (List.mem_cons_of_mem z hw)] at absent
      exact absent hw
    rw [first, rest]

variable {β : Type u} [DecidableEq β] {f : α → Option β} {c : β}

private theorem filter_recipients (once : (occupants free table).Nodup)
    (own : ∀ y z c, f y = some c → f z = some c → y = z) (held : y ∈ occupants free table)
    (behind : f y = some c) (apart : y ≠ x) :
    (recipients free x table).filter (fun z => f z = some c) = [y] := by
  apply eq_singleton_of_nodup
  · exact (nodup_recipients once).filter _
  · exact List.mem_filter.mpr ⟨mem_recipients.mpr ⟨held, apart⟩, decide_eq_true behind⟩
  · intro z hz
    exact own z y c (of_decide_eq_true (List.mem_filter.mp hz).2) behind

theorem filter_recipients_nil (alone : ∀ y ∈ occupants free table, f y = some c → y = x) :
    (recipients free x table).filter (fun z => f z = some c) = [] := by
  apply List.filter_eq_nil_iff.mpr
  intro z hz behind
  obtain ⟨held, apart⟩ := mem_recipients.mp hz
  exact apart (alone z held (of_decide_eq_true behind))

/-- Where `p` tells who is in the table, one item for each recipient is one for everybody
in the table but the one that `x` stands for. -/
theorem share_recipients {γ : Type u} {p : β → Bool} {b : β}
    (once : (occupants free table).Nodup)
    (own : ∀ y z c, f y = some c → f z = some c → y = z) (mine : f x = some b)
    (inside : ∀ c, p c = true ↔ ∃ y ∈ occupants free table, f y = some c) (item : γ) (c : β) :
    ((recipients free x table).filter fun y => f y = some c).map (fun _ => item) =
      if p c && b ≠ c then [item] else [] := by
  by_cases same : b = c
  · subst same
    rw [filter_recipients_nil fun y _ behind => own y x b behind mine]
    simp
  · by_cases present : p c = true
    · obtain ⟨y, held, behind⟩ := (inside c).mp present
      have apart : y ≠ x := by
        rintro rfl
        rw [mine] at behind
        exact same (Option.some.inj behind)
      rw [filter_recipients once own held behind apart]
      simp [present, same]
    · have nobody : ∀ y ∈ occupants free table, f y = some c → y = x := by
        intro y held behind
        exact absurd ((inside c).mpr ⟨y, held, behind⟩) present
      rw [filter_recipients_nil nobody]
      simp [present]

end Recipients

end SocketChat.Lib.SlotTable
