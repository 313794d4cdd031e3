/- SocketChat/Lib/BigEndian
   digest: Fixed-width numbers as bytes, the most significant byte first. -/

import Mathlib.Algebra.Order.Group.Nat
import Mathlib.Data.List.Induction
import Mathlib.Tactic.Ring

set_option autoImplicit false
set_option relaxedAutoImplicit false

namespace SocketChat.Lib.BigEndian

/-- The low `width` bytes of a number, the most significant first. -/
def encode : ℕ → ℕ → List UInt8
  | 0, _ => []
  | width + 1, n => encode width (n / 256) ++ [UInt8.ofNat n]

/-- The number whose bytes these are. -/
def decode (bytes : List UInt8) : ℕ := bytes.foldl (fun n b => n * 256 + b.toNat) 0

@[simp] theorem length_encode (width n : ℕ) : (encode width n).length = width := by
  induction width generalizing n with
  | zero => rfl
  | succ width ih => rw [encode, List.length_append, ih, List.length_singleton]

private theorem decode_append_singleton (bytes : List UInt8) (b : UInt8) :
    decode (bytes ++ [b]) = decode bytes * 256 + b.toNat := by
  simp only [decode, List.foldl_append, List.foldl_cons, List.foldl_nil]

private theorem decode_encode (width n : ℕ) : decode (encode width n) = n % 256 ^ width := by
  induction width generalizing n with
  | zero => simp [encode, decode, Nat.mod_one]
  | succ width ih =>
    have low : (UInt8.ofNat n).toNat = n % 256 := by simp
    rw [encode, decode_append_singleton, ih, low, pow_succ', Nat.mod_mul]
    ring

theorem decode_encode_of_lt {width n : ℕ} (h : n < 256 ^ width) :
    decode (encode width n) = n := by
  rw [decode_encode, Nat.mod_eq_of_lt h]

theorem decode_lt (bytes : List UInt8) : decode bytes < 256 ^ bytes.length := by
  induction bytes using List.reverseRecOn with
  | nil => exact Nat.one_pos
  | append_singleton bytes b ih =>
    have low : b.toNat < 256 := b.toNat_lt
    rw [decode_append_singleton, List.length_append, List.length_singleton, pow_succ]
    omega

theorem encode_decode (bytes : List UInt8) : encode bytes.length (decode bytes) = bytes := by
  induction bytes using List.reverseRecOn with
  | nil => rfl
  | append_singleton bytes b ih =>
    have low : b.toNat < 256 := b.toNat_lt
    have high : (decode bytes * 256 + b.toNat) / 256 = decode bytes := by omega
    have byte : UInt8.ofNat (decode bytes * 256 + b.toNat) = b := by
      apply UInt8.toNat_inj.mp
      rw [UInt8.toNat_ofNat']
      omega
    rw [decode_append_singleton, List.length_append, List.length_singleton, encode, high, ih, byte]

end SocketChat.Lib.BigEndian
