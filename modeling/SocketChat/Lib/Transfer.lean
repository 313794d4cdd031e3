/- SocketChat/Lib/Transfer
   digest: The loop that repeats a partial transfer until all is moved, and the rule for it. -/

import Mathlib.Algebra.Order.Group.Nat
import Mathlib.Data.Int.Notation
import Mathlib.Data.Int.Order.Basic

set_option autoImplicit false
set_option relaxedAutoImplicit false

namespace SocketChat.Lib.Transfer

universe u

/-- A system call that moves items between a stream and an array, from an offset on, with its
result. It moves no more than it is asked to. -/
structure Mover (σ : Type u) where
  call : σ → ℕ → ℕ → ℤ × σ
  bounded : ∀ s offset asked, (call s offset asked).1 ≤ asked

structure Call where
  offset : ℕ
  asked : ℕ
  result : ℤ
deriving DecidableEq

variable {σ : Type u}

section Counters

variable {len t : UInt64}

theorem toNat_left (more : t < len) : (len - t).toNat = len.toNat - t.toNat :=
  UInt64.toNat_sub_of_le len t (UInt64.le_of_lt more)

theorem toNat_moved (more : t < len) {r : ℤ} (bound : r ≤ (len - t).toNat) :
    (t + UInt64.ofNat r.toNat).toNat = t.toNat + r.toNat := by
  have left := toNat_left more
  have below := UInt64.lt_iff_toNat_lt.mp more
  have wide := len.toNat_lt
  rw [UInt64.toNat_add, UInt64.toNat_ofNat']
  omega

private theorem left_lt (more : t < len) {r : ℤ} (bound : r ≤ (len - t).toNat) (pos : ¬r ≤ 0) :
    (len - (t + UInt64.ofNat r.toNat)).toNat < (len - t).toNat := by
  have left := toNat_left more
  have below := UInt64.lt_iff_toNat_lt.mp more
  have moved := toNat_moved more bound
  have within : t + UInt64.ofNat r.toNat ≤ len := by
    rw [UInt64.le_iff_toNat_le]
    omega
  rw [UInt64.toNat_sub_of_le _ _ within]
  omega

theorem toInt_of_small (small : t.toNat < 2 ^ 63) : t.toInt64.toInt = t.toNat := by
  have cast : t.toInt64.toInt = (t.toNat : ℤ).bmod (2 ^ 64) := BitVec.toInt_eq_toNat_bmod _
  rw [cast]
  exact Int.bmod_eq_of_le (by omega) (by omega)

end Counters

/-- Call after call moves what is left of `len`, counted in a `size_t`, until all has been moved or
a call returns nothing above zero; the result is an `ssize_t`. -/
def moveAll (m : Mover σ) (len t : UInt64) (s : σ) : (ℤ × σ) × List Call :=
  if _ : t < len then
    let r := (m.call s t.toNat (len - t).toNat).1
    let s' := (m.call s t.toNat (len - t).toNat).2
    let call : Call := ⟨t.toNat, (len - t).toNat, r⟩
    if _ : r ≤ 0 then ((r, s'), [call])
    else
      let rest := moveAll m len (t + UInt64.ofNat r.toNat) s'
      (rest.1, call :: rest.2)
  else ((t.toInt64.toInt, s), [])
termination_by (len - t).toNat
decreasing_by
  exact left_lt (by assumption) (m.bounded s t.toNat (len - t).toNat) (by assumption)

def total : List Call → ℕ
  | [] => 0
  | c :: calls => c.result.toNat + total calls

/-- What comes of moving `len` items, `before` of them moved already, where so many are in the end:
the result tells whether all are, or is the first one that is not above zero; each call goes on
where those before it have come to, for all that is left, and none outside of the array. -/
structure AllOrNothing (len before moved : ℕ) (returned : ℤ) (calls : List Call) : Prop where
  within : moved ≤ len
  whole : returned = len ↔ moved = len
  failed : moved ≠ len → (calls.find? fun c => c.result ≤ 0).map Call.result = some returned
  positive : 0 < returned → returned = len
  counted : moved = before + total calls
  placed : ∀ k c, calls[k]? = some c →
    c.offset = before + total (calls.take k) ∧ c.asked = len - c.offset
  inside : ∀ c ∈ calls, c.offset + c.asked ≤ len
  ends : calls.length ≤ len - before

section Rule

variable {m : Mover σ} {len before moved : ℕ} {returned : ℤ} {calls : List Call}

private theorem total_cons (c : Call) (calls : List Call) :
    total (c :: calls) = c.result.toNat + total calls := rfl

namespace AllOrNothing

private theorem done (len : ℕ) : AllOrNothing len len len len [] where
  within := Nat.le_refl len
  whole := iff_of_true rfl rfl
  failed := fun other => absurd rfl other
  positive := fun _ => rfl
  counted := rfl
  placed := by
    intro k c none_there
    cases none_there
  inside := fun _ none_there => absurd none_there List.not_mem_nil
  ends := Nat.zero_le _

private theorem refused (more : before < len) (stopped : returned ≤ 0) :
    AllOrNothing len before before returned [⟨before, len - before, returned⟩] where
  within := Nat.le_of_lt more
  whole := by omega
  failed := by
    intro _
    simp [stopped]
  positive := fun pos => absurd pos (not_lt.mpr stopped)
  counted := by
    rw [total_cons, Int.toNat_of_nonpos stopped]
    rfl
  placed := by
    intro k c entry
    cases k with
    | zero =>
      obtain rfl := Option.some.inj entry
      exact ⟨rfl, rfl⟩
    | succ k => cases entry
  inside := by
    intro c hc
    rw [List.mem_singleton.mp hc]
    dsimp only
    omega
  ends := by
    rw [List.length_singleton]
    omega

private theorem cons {r : ℤ} (more : before < len) (stored : 0 < r)
    (h : AllOrNothing len (before + r.toNat) moved returned calls) :
    AllOrNothing len before moved returned (⟨before, len - before, r⟩ :: calls) where
  within := h.within
  whole := h.whole
  failed := by
    intro other
    rw [List.find?_cons_of_neg (by simpa using stored)]
    exact h.failed other
  positive := h.positive
  counted := by
    rw [h.counted, total_cons, Nat.add_assoc]
  placed := by
    intro k c entry
    cases k with
    | zero =>
      obtain rfl := Option.some.inj entry
      exact ⟨rfl, rfl⟩
    | succ k =>
      obtain ⟨place, rest⟩ := h.placed k c entry
      rw [List.take_succ_cons, total_cons, ← Nat.add_assoc]
      exact ⟨place, rest⟩
  inside := by
    intro c hc
    rcases List.mem_cons.mp hc with rfl | later
    · dsimp only
      omega
    · exact h.inside c later
  ends := by
    have rest := h.ends
    rw [List.length_cons]
    omega

end AllOrNothing

/-- The rule of the loop: what each call keeps of the number of calls and of the items moved so far
holds of all of them, and before each call it held. -/
theorem moveAll_spec {len : UInt64} (small : len.toNat < 2 ^ 63) {I : ℕ → ℕ → σ → Prop}
    (keep : ∀ n t s, I n t s → t < len.toNat →
      I (n + 1) (t + (m.call s t (len.toNat - t)).1.toNat) (m.call s t (len.toNat - t)).2)
    {n : ℕ} {t : UInt64} {s : σ} (start : I n t.toNat s) (within : t ≤ len) :
    ∃ moved, I (n + (moveAll m len t s).2.length) moved (moveAll m len t s).1.2 ∧
      (∀ k c, (moveAll m len t s).2[k]? = some c →
        ∃ s', I (n + k) c.offset s' ∧ c.result = (m.call s' c.offset c.asked).1) ∧
      AllOrNothing len.toNat t.toNat moved (moveAll m len t s).1.1 (moveAll m len t s).2 := by
  fun_induction moveAll m len t s generalizing n with
  | case1 t s more r s' =>
    rename_i call stopped
    have below := UInt64.lt_iff_toNat_lt.mp more
    have left := toNat_left more
    have kept := keep n t.toNat s start below
    rw [← left] at kept
    change I (n + 1) (t.toNat + r.toNat) s' at kept
    rw [Int.toNat_of_nonpos stopped] at kept
    have refused := AllOrNothing.refused below stopped
    rw [← left] at refused
    refine ⟨t.toNat, kept, ?_, refused⟩
    intro k c entry
    cases k with
    | zero =>
      obtain rfl := Option.some.inj entry
      exact ⟨s, start, rfl⟩
    | succ k => cases entry
  | case2 t s more r s' call moving =>
    rename_i rest ih
    have below := UInt64.lt_iff_toNat_lt.mp more
    have left := toNat_left more
    have bound : r ≤ (len - t).toNat := m.bounded s t.toNat (len - t).toNat
    have moved := toNat_moved more bound
    have kept := keep n t.toNat s start below
    rw [← left] at kept
    have pos : 0 < r := not_le.mp moving
    have further : t + UInt64.ofNat r.toNat ≤ len := by
      rw [UInt64.le_iff_toNat_le, moved]
      omega
    obtain ⟨all, holds, answers, outcome⟩ := ih (moved ▸ kept) further
    rw [moved] at outcome
    have whole := outcome.cons below pos
    rw [← left] at whole
    refine ⟨all, ?_, ?_, whole⟩
    · rw [List.length_cons, Nat.add_comm rest.2.length, ← Nat.add_assoc]
      exact holds
    · intro k c entry
      cases k with
      | zero =>
        obtain rfl := Option.some.inj entry
        exact ⟨s, start, rfl⟩
      | succ k =>
        obtain ⟨before, held, result⟩ := answers k c entry
        rw [Nat.add_assoc, Nat.add_comm 1] at held
        exact ⟨before, held, result⟩
  | case3 t s done =>
    obtain rfl : t = len := UInt64.le_antisymm within (UInt64.not_lt.mp done)
    refine ⟨t.toNat, start, ?_, ?_⟩
    · intro k c none_there
      cases none_there
    · rw [toInt_of_small small]
      exact .done t.toNat

end Rule

end SocketChat.Lib.Transfer
