/- SocketChat/Lib/Stream
   digest: The two ends of a reliable byte stream, cut into pieces as the kernel pleases. -/

import Mathlib.Data.Int.Notation
import Mathlib.Data.Int.Order.Basic

set_option autoImplicit false
set_option relaxedAutoImplicit false

namespace SocketChat.Lib.Stream

universe u

/-- The reading end: what is still to come, the result a read gives once nothing is,
and the kernel's next answers. An answer above zero is the most the next read takes; any
other answer is that read's failure. -/
structure Reader (α : Type u) where
  pending : List α
  atEnd : ℤ
  answers : ℕ → ℤ
  atEnd_nonpos : atEnd ≤ 0

/-- The writing end: everything written so far, and the kernel's next answers. -/
structure Writer (α : Type u) where
  wire : List α
  answers : ℕ → ℤ

variable {α : Type u}

namespace Reader

theorem zero_nonpos : (0 : ℤ) ≤ 0 := Int.le_refl 0

def closed (pending : List α) (answers : ℕ → ℤ) : Reader α := ⟨pending, 0, answers, zero_nonpos⟩

def answered (r : Reader α) : Reader α := { r with answers := fun i => r.answers (i + 1) }

/-- One read of at most `want` items: its result, what it stored, and what is left. -/
def read (r : Reader α) (want : ℕ) : ℤ × List α × Reader α :=
  if r.answers 0 ≤ 0 then (r.answers 0, [], r.answered)
  else if r.pending.isEmpty then (r.atEnd, [], r.answered)
  else
    let k := min (r.answers 0).toNat (min want r.pending.length)
    (k, r.pending.take k, { r.answered with pending := r.pending.drop k })

def after (r : Reader α) (reads taken : ℕ) : Reader α :=
  { r with pending := r.pending.drop taken, answers := fun i => r.answers (i + reads) }

def feed (r : Reader α) (items : List α) : Reader α :=
  { r with pending := r.pending ++ items }

/-- Every read to come moves something while there is something: the connection holds. -/
def Willing (r : Reader α) : Prop := ∀ i, 0 < r.answers i

private theorem Willing.answered {r : Reader α} (h : r.Willing) : r.answered.Willing :=
  fun i => h (i + 1)

theorem length_pending_read_lt (r : Reader α) {want : ℕ} (pos : 0 < want)
    (stored : 0 < (r.read want).1) :
    (r.read want).2.2.pending.length < r.pending.length := by
  unfold read at stored ⊢
  split at stored
  · rename_i refused
    exact absurd stored (not_lt.mpr refused)
  · rename_i answer
    split at stored
    · exact absurd stored (not_lt.mpr r.atEnd_nonpos)
    · rename_i more
      have nonempty : 0 < r.pending.length := by
        rw [List.length_pos_iff]
        simpa using more
      rw [if_neg answer, if_neg more]
      simp only [List.length_drop]
      omega

theorem pos_of_read_pos {r : Reader α} {want : ℕ} (stored : 0 < (r.read want).1) : 0 < want := by
  refine Nat.pos_of_ne_zero fun zero => ?_
  subst zero
  unfold read at stored
  split at stored
  · rename_i refused
    exact absurd stored (not_lt.mpr refused)
  · split at stored
    · exact absurd stored (not_lt.mpr r.atEnd_nonpos)
    · simp at stored

theorem read_le (r : Reader α) (want : ℕ) : (r.read want).1 ≤ want := by
  unfold read
  split
  · rename_i refused
    exact le_trans refused (Int.natCast_nonneg want)
  · split
    · exact le_trans r.atEnd_nonpos (Int.natCast_nonneg want)
    · dsimp only
      omega

theorem length_read (r : Reader α) (want : ℕ) :
    (r.read want).2.1.length = (r.read want).1.toNat := by
  unfold read
  split
  · rename_i refused
    exact (Int.toNat_of_nonpos refused).symm
  · split
    · exact (Int.toNat_of_nonpos r.atEnd_nonpos).symm
    · dsimp only
      rw [List.length_take, Int.toNat_natCast]
      omega

theorem read_append (r : Reader α) (want : ℕ) :
    (r.read want).2.1 ++ (r.read want).2.2.pending = r.pending := by
  unfold read
  split
  · rfl
  · split
    · rfl
    · exact List.take_append_drop _ _

theorem after_read (r : Reader α) (reads taken want : ℕ) :
    ((r.after reads taken).read want).2.2 =
      r.after (reads + 1) (taken + ((r.after reads taken).read want).1.toNat) := by
  have shifted : ∀ i, i + 1 + reads = i + (reads + 1) := by
    intro i
    omega
  unfold read
  split
  · rename_i refused
    rw [Int.toNat_of_nonpos refused]
    simp only [answered, after, shifted, Nat.add_zero]
  · split
    · rw [Int.toNat_of_nonpos (r.after reads taken).atEnd_nonpos]
      simp only [answered, after, shifted, Nat.add_zero]
    · simp only [answered, after, shifted, List.drop_drop, Int.toNat_natCast]

theorem read_of_willing {r : Reader α} (h : r.Willing) (want : ℕ) (pos : 0 < want)
    (more : r.pending ≠ []) :
    ∃ (k : ℕ) (r' : Reader α), r.read want = ((k : ℤ), r.pending.take k, r') ∧ 0 < k ∧ k ≤ want ∧
      k ≤ r.pending.length ∧ k = min (r.answers 0).toNat (min want r.pending.length) ∧
      r'.pending = r.pending.drop k ∧ r'.atEnd = r.atEnd ∧ r'.Willing ∧
      r'.answers = fun i => r.answers (i + 1) := by
  have answer : 0 < r.answers 0 := h 0
  have length_pos : 0 < r.pending.length := List.length_pos_iff.mpr more
  refine ⟨min (r.answers 0).toNat (min want r.pending.length),
    { r.answered with
      pending := r.pending.drop (min (r.answers 0).toNat (min want r.pending.length)) },
    ?_, by omega, by omega, by omega, rfl, rfl, rfl, h.answered, rfl⟩
  rw [read, if_neg (not_le.mpr answer), if_neg (by simpa using more)]

theorem read_take {r : Reader α} (h : r.Willing) {want : ℕ} (pos : 0 < want)
    (more : r.pending ≠ []) :
    ∃ (k : ℤ) (r' : Reader α),
      r.read want = (k, r.pending.take (min (r.answers 0).toNat want), r') ∧ 0 < k ∧
      r'.pending = r.pending.drop (min (r.answers 0).toNat want) ∧ r'.atEnd = r.atEnd ∧
      r'.answers = fun i => r.answers (i + 1) := by
  obtain ⟨k, r', read, stored, _, _, hk, pending, atEnd, _, answers⟩ :=
    read_of_willing h want pos more
  have cut : r.pending.take k = r.pending.take (min (r.answers 0).toNat want) :=
    List.take_eq_take_iff.mpr (by omega)
  have left : r.pending.drop k = r.pending.drop (min (r.answers 0).toNat want) :=
    List.drop_eq_drop_iff.mpr (by omega)
  exact ⟨k, r', by rw [read, cut], Int.natCast_pos.mpr stored, by rw [pending, left], atEnd,
    answers⟩

theorem read_of_nil {r : Reader α} (h : r.Willing) (want : ℕ) (none_left : r.pending = []) :
    r.read want = (r.atEnd, [], r.answered) := by
  rw [read, if_neg (not_le.mpr (h 0)), if_pos (by simp [none_left])]

end Reader

namespace Writer

/-- One write of at most the whole buffer: its result and the stream after it. -/
def write (w : Writer α) (buf : List α) : ℤ × Writer α :=
  if w.answers 0 ≤ 0 then (w.answers 0, { w with answers := fun i => w.answers (i + 1) })
  else
    let k := min (w.answers 0).toNat buf.length
    (k, { wire := w.wire ++ buf.take k, answers := fun i => w.answers (i + 1) })

def Willing (w : Writer α) : Prop := ∀ i, 0 < w.answers i

theorem write_of_willing {w : Writer α} (h : w.Willing) {buf : List α} (more : buf ≠ []) :
    ∃ (k : ℕ) (w' : Writer α), w.write buf = ((k : ℤ), w') ∧ 0 < k ∧ k ≤ buf.length ∧
      w'.wire = w.wire ++ buf.take k ∧ w'.Willing := by
  have answer : 0 < w.answers 0 := h 0
  have length_pos : 0 < buf.length := List.length_pos_iff.mpr more
  refine ⟨min (w.answers 0).toNat buf.length,
    ⟨w.wire ++ buf.take (min (w.answers 0).toNat buf.length), fun i => w.answers (i + 1)⟩,
    ?_, by omega, by omega, rfl, fun i => h (i + 1)⟩
  rw [write, if_neg (not_le.mpr answer)]

theorem write_le (w : Writer α) (buf : List α) : (w.write buf).1 ≤ buf.length := by
  unfold write
  split
  · rename_i refused
    exact le_trans refused (Int.natCast_nonneg buf.length)
  · exact Int.ofNat_le.mpr (Nat.min_le_right _ _)

theorem wire_append (w : Writer α) (buf : List α) :
    (w.write buf).2.wire = w.wire ++ buf.take (w.write buf).1.toNat := by
  unfold write
  split
  · rename_i refused
    dsimp only
    rw [Int.toNat_of_nonpos refused, List.take_zero, List.append_nil]
  · rfl

def after (w : Writer α) (writes : ℕ) (put : List α) : Writer α where
  wire := w.wire ++ put
  answers := fun i => w.answers (i + writes)

theorem after_write (w : Writer α) (writes : ℕ) (put buf : List α) :
    ((w.after writes put).write buf).2 =
      w.after (writes + 1) (put ++ buf.take ((w.after writes put).write buf).1.toNat) := by
  have shifted : ∀ i, i + 1 + writes = i + (writes + 1) := by
    intro i
    omega
  unfold write
  split
  · rename_i refused
    rw [Int.toNat_of_nonpos refused, List.take_zero, List.append_nil]
    simp only [after, shifted]
  · simp only [after, shifted, List.append_assoc, Int.toNat_natCast]

theorem answers_write (w : Writer α) (buf : List α) :
    (w.write buf).2.answers = fun i => w.answers (i + 1) := by
  unfold write
  split
  · rfl
  · rfl

theorem write_all_iff {w : Writer α} {buf : List α} (more : buf ≠ []) :
    (w.write buf).1 = buf.length ↔ (buf.length : ℤ) ≤ w.answers 0 := by
  have pos := List.length_pos_iff.mpr more
  unfold write
  split
  · dsimp only
    omega
  · dsimp only
    omega

theorem exists_prefix_write (w : Writer α) (buf : List α) :
    ∃ taken, taken <+: buf ∧ (w.write buf).2.wire = w.wire ++ taken :=
  ⟨_, List.take_prefix _ _, wire_append w buf⟩

def pour (w : Writer α) : List (List α) → Writer α
  | [] => w
  | buf :: bufs => pour (w.write buf).2 bufs

private theorem wire_write {w : Writer α} (h : w.Willing) (buf : List α) :
    (w.write buf).2.wire = w.wire ++ buf.take (w.answers 0).toNat ∧
      (w.write buf).2.answers = fun i => w.answers (i + 1) := by
  rw [write, if_neg (not_le.mpr (h 0))]
  refine ⟨?_, rfl⟩
  show w.wire ++ buf.take (min (w.answers 0).toNat buf.length) = _
  rw [← List.take_take, List.take_length]

theorem wire_pour {w : Writer α} (h : w.Willing) (bufs : List (List α)) :
    ∃ taken, (w.pour bufs).wire = w.wire ++ taken ∧ taken.length ≤ bufs.flatten.length ∧
      (taken = bufs.flatten ↔
        ∀ i (_ : i < bufs.length), (bufs[i].length : ℤ) ≤ w.answers i) := by
  induction bufs generalizing w with
  | nil =>
    refine ⟨[], (List.append_nil _).symm, Nat.le_refl 0, iff_of_true rfl ?_⟩
    intro i none_there
    exact absurd none_there (Nat.not_lt_zero i)
  | cons buf bufs ih =>
    obtain ⟨first, answers⟩ := wire_write h buf
    have holds : (w.write buf).2.Willing := by
      intro i
      rw [answers]
      exact h (i + 1)
    obtain ⟨taken, wire, fewer, whole⟩ := ih holds
    have bound : (buf.take (w.answers 0).toNat).length ≤ buf.length := List.length_take_le' _ _
    have answer : 0 < w.answers 0 := h 0
    refine ⟨buf.take (w.answers 0).toNat ++ taken, ?_, ?_, ?_⟩
    · rw [pour, wire, first, List.append_assoc]
    · rw [List.flatten_cons, List.length_append, List.length_append]
      omega
    · have all_of_first : (buf.length : ℤ) ≤ w.answers 0 ↔
          buf.length ≤ (w.answers 0).toNat := by omega
      rw [List.flatten_cons]
      constructor
      · intro same i inside
        have lengths := congrArg List.length same
        rw [List.length_append, List.length_append, List.length_take] at lengths
        have all : buf.length ≤ (w.answers 0).toNat := by omega
        cases i with
        | zero => exact all_of_first.mpr all
        | succ i =>
          rw [List.take_of_length_le all, List.append_cancel_left_eq, whole, answers] at same
          exact same i (Nat.lt_of_succ_lt_succ inside)
      · intro each
        have all : buf.length ≤ (w.answers 0).toNat :=
          all_of_first.mp (each 0 (Nat.succ_pos _))
        rw [List.take_of_length_le all, List.append_cancel_left_eq, whole, answers]
        intro i inside
        exact each (i + 1) (Nat.succ_lt_succ inside)

end Writer

end SocketChat.Lib.Stream
