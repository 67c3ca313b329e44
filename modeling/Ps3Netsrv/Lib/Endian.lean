import Mathlib.Data.Nat.Bits
import Mathlib.Data.UInt

/-!
# Numbers as bytes

Fixed-width numbers in the two byte orders, and the decoders that read them
back.

Main results:

- Theorem {lit}`ofLittle_little` and {lit}`ofBig_big`: decoding gives the number
  back, reduced to the width.
-/

namespace Lib

/-- The low {lit}`width` bytes of a number, least significant first. -/
def little : (width : Nat) → Nat → List UInt8
  | 0, _ => []
  | width + 1, n => UInt8.ofNat n :: little width (n / 256)

/-- The low {lit}`width` bytes of a number, most significant first. -/
def big (width n : Nat) : List UInt8 := (little width n).reverse

/-- The number that bytes stand for, least significant first. -/
def ofLittle : List UInt8 → Nat
  | [] => 0
  | b :: bs => b.toNat + 256 * ofLittle bs

/-- The number that bytes stand for, most significant first. -/
def ofBig (bs : List UInt8) : Nat := ofLittle bs.reverse

@[simp]
theorem length_little (width n : Nat) : (little width n).length = width := by
  induction width generalizing n with
  | zero => rfl
  | succ width ih => simp [little, ih]

@[simp]
theorem length_big (width n : Nat) : (big width n).length = width := by
  simp [big]

/-- Reading back a little-endian number. -/
theorem ofLittle_little (width n : Nat) : ofLittle (little width n) = n % 256 ^ width := by
  induction width generalizing n with
  | zero => simp [little, ofLittle, Nat.mod_one]
  | succ width ih =>
      have hbyte : (UInt8.ofNat n).toNat = n % 256 := UInt8.toNat_ofNat'
      rw [little, ofLittle, ih, hbyte, Nat.pow_succ', Nat.mod_mul]

/-- Reading back a big-endian number. -/
theorem ofBig_big (width n : Nat) : ofBig (big width n) = n % 256 ^ width := by
  simp [ofBig, big, ofLittle_little]

/-- A number and its value at the width have the same bytes. -/
theorem little_mod (width n : Nat) : little width (n % 256 ^ width) = little width n := by
  induction width generalizing n with
  | zero => rfl
  | succ width ih =>
      have hlow : UInt8.ofNat (n % 256 ^ (width + 1)) = UInt8.ofNat n := by
        apply UInt8.toNat_inj.mp
        simp only [UInt8.toNat_ofNat', Nat.pow_succ']
        exact Nat.mod_mul_right_mod n 256 (256 ^ width)
      have hhigh : n % 256 ^ (width + 1) / 256 = n / 256 % 256 ^ width := by
        rw [Nat.pow_succ', Nat.mod_mul_right_div_self]
      simp only [little, hlow, hhigh, ih]

theorem big_mod (width n : Nat) : big width (n % 256 ^ width) = big width n := by
  simp only [big, little_mod]

end Lib
