import Mathlib.Data.Int.ModEq

/-!
# Signed 32-bit results

An `int` is an `Int`; where a result may leave the range it is taken back into it.
-/

namespace PeachOs

/-- `x` in two's complement with 32 bits. -/
def int32 (x : Int) : Int := x.bmod (2 ^ 32)

theorem int32_of_range {x : Int} (lo : -2 ^ 31 ≤ x) (hi : x < 2 ^ 31) : int32 x = x := by
  unfold int32
  rw [Int.bmod_def]
  omega

theorem int32_modEq (x : Int) : int32 x ≡ x [ZMOD 2 ^ 32] := by
  unfold int32 Int.ModEq
  rw [Int.bmod_def]
  omega

theorem int32_int32 (x : Int) : int32 (int32 x) = int32 x := Int.bmod_bmod

/-- The bits stay. -/
theorem ofInt_int32 (x : Int) : UInt32.ofInt (int32 x) = UInt32.ofInt x := by
  have same : int32 x % 2 ^ 32 = x % 2 ^ 32 := int32_modEq x
  unfold UInt32.ofInt
  rw [same]

/-- The only one of them whose bits are zero. -/
theorem ofInt_int32_zero {x : Int} (zero : UInt32.ofInt (int32 x) = 0) : int32 x = 0 := by
  have lo := Int.le_bmod (x := x) (m := 2 ^ 32) (by decide)
  have hi := Int.bmod_lt (x := x) (m := 2 ^ 32) (by decide)
  have bits := congrArg UInt32.toNat zero
  simp only [UInt32.ofInt, UInt32.toNat_ofNat', UInt32.toNat_zero] at bits
  unfold int32 at *
  omega

end PeachOs
