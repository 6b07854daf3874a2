import Mathlib

namespace NovaDb
namespace Foundation

/-!
# Fixed-width big-endian numbers

The most significant byte comes first.  Numbers are natural numbers, and a
writer of `width` bytes keeps the number modulo `256 ^ width`.
-/

/-- The `width` low-order bytes of a number, most significant first. -/
def toBigEndian : Nat -> Nat -> List UInt8
  | 0, _ => []
  | width + 1, number => toBigEndian width (number / 256) ++ [UInt8.ofNat number]

/-- The number written by a string of bytes, most significant first. -/
def ofBigEndian (bytes : List UInt8) : Nat :=
  bytes.foldl (fun number byte => number * 256 + byte.toNat) 0

@[simp] theorem length_toBigEndian (width number : Nat) :
    (toBigEndian width number).length = width := by
  induction width generalizing number with
  | zero => rfl
  | succ width ih => rw [toBigEndian, List.length_append, ih]; rfl

theorem ofBigEndian_concat (bytes : List UInt8) (byte : UInt8) :
    ofBigEndian (bytes ++ [byte]) = ofBigEndian bytes * 256 + byte.toNat := by
  simp only [ofBigEndian, List.foldl_append, List.foldl_cons, List.foldl_nil]

theorem ofBigEndian_toBigEndian (width number : Nat) :
    ofBigEndian (toBigEndian width number) = number % 256 ^ width := by
  induction width generalizing number with
  | zero => rw [Nat.pow_zero, Nat.mod_one]; rfl
  | succ width ih =>
      have byte : (UInt8.ofNat number).toNat = number % 256 := UInt8.toNat_ofNat'
      rw [toBigEndian, ofBigEndian_concat, ih, byte, Nat.pow_succ' (n := width), Nat.mod_mul]
      ring

/-- A string of bytes is the number it writes. -/
theorem toBigEndian_ofBigEndian {width : Nat} {bytes : List UInt8} (size : bytes.length = width) :
    toBigEndian width (ofBigEndian bytes) = bytes := by
  induction bytes using List.reverseRecOn generalizing width with
  | nil =>
      subst size
      rfl
  | append_singleton bytes byte ih =>
      rw [List.length_append, List.length_singleton] at size
      subst size
      have small := byte.toNat_lt
      have quotient : (ofBigEndian bytes * 256 + byte.toNat) / 256 = ofBigEndian bytes := by omega
      have remainder : UInt8.ofNat (ofBigEndian bytes * 256 + byte.toNat) = byte := by
        apply UInt8.toNat_inj.mp
        rw [UInt8.toNat_ofNat']
        omega
      rw [ofBigEndian_concat, toBigEndian, quotient, remainder, ih rfl]

theorem ofBigEndian_lt (bytes : List UInt8) : ofBigEndian bytes < 256 ^ bytes.length := by
  induction bytes using List.reverseRecOn with
  | nil => exact Nat.one_pos
  | append_singleton bytes byte ih =>
      have small := byte.toNat_lt
      rw [ofBigEndian_concat, List.length_append, List.length_singleton, Nat.pow_succ]
      omega

end Foundation
end NovaDb
