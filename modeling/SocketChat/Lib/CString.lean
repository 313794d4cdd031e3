/- SocketChat/Lib/CString
   digest: Byte buffers read as C strings, whitespace-delimited fields and path base names. -/

import Mathlib.Data.List.TakeWhile

set_option autoImplicit false
set_option relaxedAutoImplicit false

namespace SocketChat.Lib.CString

abbrev Byte := UInt8

def lit (text : List Char) : List Byte := text.map fun c => UInt8.ofNat c.toNat

/-- What a buffer holds as a string: everything before its first NUL. -/
def cstr (buf : List Byte) : List Byte := buf.takeWhile (· ≠ 0)

def strlen (buf : List Byte) : ℕ := (cstr buf).length

def overwrite (buf new : List Byte) : List Byte := new ++ buf.drop new.length

def storeAt (buf : List Byte) (offset : ℕ) (bytes : List Byte) : List Byte :=
  buf.take offset ++ overwrite (buf.drop offset) bytes

/-- `strcmp(a, b) == 0`. -/
def strEq (a b : List Byte) : Bool := cstr a == cstr b

/-- `isspace` in the C locale. -/
def isspace (c : Byte) : Bool := c == 32 || (9 ≤ c && c ≤ 13)

/-- One `%s` of `scanf`: the field after any whitespace, and what is left. -/
def scanField (s : List Byte) : List Byte × List Byte :=
  let s := s.dropWhile isspace
  (s.takeWhile (!isspace ·), s.dropWhile (!isspace ·))

/-- POSIX `basename`. -/
def basename (path : List Byte) : List Byte :=
  if path.isEmpty then lit ['.'] else
  let trimmed := path.reverse.dropWhile (· == 47)
  if trimmed.isEmpty then lit ['/'] else (trimmed.takeWhile (· != 47)).reverse

private theorem cstr_append_cons_zero (s rest : List Byte) : cstr (s ++ 0 :: rest) = cstr s := by
  induction s with
  | nil => rfl
  | cons b s ih =>
    by_cases hb : b = 0
    · subst b
      rfl
    · simp only [cstr, List.cons_append] at ih ⊢
      rw [List.takeWhile_cons_of_pos (by simpa using hb),
        List.takeWhile_cons_of_pos (by simpa using hb), ih]

theorem cstr_snoc_zero (s : List Byte) : cstr (s ++ [0]) = cstr s := cstr_append_cons_zero s []

theorem cstr_overwrite (buf s : List Byte) : cstr (overwrite buf (s ++ [0])) = cstr s := by
  rw [overwrite, List.append_assoc]
  exact cstr_append_cons_zero s _

theorem storeAt_overwrite (buf front bytes : List Byte) :
    storeAt (overwrite buf front) front.length bytes = overwrite buf (front ++ bytes) := by
  rw [storeAt, overwrite, List.take_left, List.drop_left, overwrite, overwrite, List.drop_drop,
    List.length_append, List.append_assoc]

theorem take_storeAt {buf : List Byte} {offset : ℕ} (inside : offset ≤ buf.length)
    (bytes : List Byte) : (storeAt buf offset bytes).take offset = buf.take offset := by
  have front : (buf.take offset).length = offset := List.length_take_of_le inside
  rw [storeAt, List.take_append_of_le_length (Nat.le_of_eq front.symm), List.take_take,
    Nat.min_self]

theorem range_inside {n size : ℕ} : (∀ i ∈ List.range n, i < size) ↔ n ≤ size := by
  constructor
  · intro inside
    cases n with
    | zero => exact Nat.zero_le size
    | succ k => exact inside k (List.mem_range.mpr (Nat.lt_succ_self k))
  · intro fits i held
    exact Nat.lt_of_lt_of_le (List.mem_range.mp held) fits

theorem range_zero_inside {n size : ℕ} : (∀ i ∈ List.range n ++ [n], i < size) ↔ n < size := by
  rw [← List.range_succ]
  exact range_inside

theorem cstr_overwrite_zeros {s : List Byte} {size : ℕ} (fits : s.length < size)
    (rest : List Byte) : cstr (overwrite (List.replicate size 0) s ++ rest) = cstr s := by
  obtain ⟨more, rfl⟩ : ∃ more, size = s.length + (more + 1) :=
    ⟨size - s.length - 1, by omega⟩
  rw [overwrite, List.drop_replicate, Nat.add_sub_cancel_left, List.replicate_succ,
    List.append_assoc]
  exact cstr_append_cons_zero s _

theorem cstr_take (s : List Byte) (n : ℕ) : cstr (s.take n) = (cstr s).take n :=
  List.take_takeWhile.symm

theorem cstr_cstr (s : List Byte) : cstr (cstr s) = cstr s := by
  rw [cstr, cstr, List.takeWhile_idem]

theorem zero_not_mem_cstr (s : List Byte) : 0 ∉ cstr s := by
  intro zero
  have held := List.mem_takeWhile_imp zero
  simp at held

theorem cstr_of_nul_free {s : List Byte} (nul_free : 0 ∉ s) : cstr s = s := by
  refine List.takeWhile_eq_self_iff.mpr fun b hb => decide_eq_true ?_
  intro zero
  exact nul_free (zero ▸ hb)

theorem cstr_append_zero {s : List Byte} (nul_free : 0 ∉ s) (rest : List Byte) :
    cstr (s ++ 0 :: rest) = s := by
  rw [cstr_append_cons_zero, cstr_of_nul_free nul_free]

theorem basename_ne_nil (path : List Byte) : basename path ≠ [] := by
  unfold basename
  split
  · simp [lit]
  · dsimp only
    split
    · simp [lit]
    · rename_i _ some_left
      cases h : path.reverse.dropWhile (· == 47) with
      | nil => simp [h] at some_left
      | cons b trimmed =>
        have head : ¬(b == 47) = true := by
          have first := List.head?_dropWhile_not (· == 47) path.reverse
          simpa [h] using first
        simp [List.takeWhile_cons_of_pos, show (b != 47) = true by simpa using head]

theorem mem_of_mem_basename {path : List Byte} {b : Byte} (hb : b ∈ basename path) :
    b ∈ path ∨ b ∈ lit ['.', '/'] := by
  unfold basename at hb
  split at hb
  · exact Or.inr (by simpa [lit] using Or.inl (by simpa [lit] using hb))
  · dsimp only at hb
    split at hb
    · exact Or.inr (by simpa [lit] using Or.inr (by simpa [lit] using hb))
    · left
      have kept := (List.takeWhile_sublist _).subset (List.mem_reverse.mp hb)
      exact List.mem_reverse.mp ((List.dropWhile_sublist _).subset kept)

theorem solid_of_all {s : List Byte} (h : s.all (!isspace ·) = true) :
    ∀ b ∈ s, isspace b = false := by
  intro b hb
  simpa using List.all_eq_true.mp h b hb

/-- A field is read back whole when it has no whitespace and whitespace or the end follows. -/
theorem scanField_append {field rest : List Byte} (solid : ∀ b ∈ field, isspace b = false)
    (stops : ∀ b ∈ rest.head?, isspace b = true) (nonempty : field ≠ []) :
    scanField (field ++ rest) = (field, rest) := by
  have start : (field ++ rest).dropWhile isspace = field ++ rest := by
    cases field with
    | nil => exact absurd rfl nonempty
    | cons b field => simp [solid b List.mem_cons_self]
  have inside : ∀ b ∈ field, (!isspace b) = true := by
    intro b hb
    simp [solid b hb]
  have outside : rest.takeWhile (!isspace ·) = [] ∧ rest.dropWhile (!isspace ·) = rest := by
    cases rest with
    | nil => exact ⟨rfl, rfl⟩
    | cons b rest => simp [stops b (by simp)]
  rw [scanField, start, List.takeWhile_append_of_pos inside, List.dropWhile_append_of_pos inside,
    outside.1, outside.2, List.append_nil]

theorem scanField_skip {b : Byte} (space : isspace b = true) (s : List Byte) :
    scanField (b :: s) = scanField s := by
  rw [scanField, scanField, List.dropWhile_cons_of_pos space]

end SocketChat.Lib.CString
