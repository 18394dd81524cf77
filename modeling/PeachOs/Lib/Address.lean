import Mathlib.Algebra.Group.Nat.Defs
import Mathlib.Order.Bounds.Defs

/-!
# 32-bit addresses

Pointer arithmetic wraps at 2^32, so a range is given by its start and its
length, and an address is in it when its distance from the start is short
enough. For a range that does not pass 2^32 this is the usual interval:
`inRange_iff`.
-/

namespace PeachOs.Address

theorem ofInt_natCast (n : Nat) : UInt32.ofInt (n : Int) = UInt32.ofNat n := by
  apply UInt32.toNat_inj.mp
  simp only [UInt32.ofInt, UInt32.toNat_ofNat']
  omega

/-- Address `x` is one of the `len` addresses from `p` on. -/
def InRange (x p : UInt32) (len : Nat) : Prop := (x - p).toNat < len

instance (x p : UInt32) (len : Nat) : Decidable (InRange x p len) := by
  unfold InRange; infer_instance

theorem toNat_sub (x p : UInt32) : (x - p).toNat = (x.toNat + 2 ^ 32 - p.toNat) % 2 ^ 32 := by
  have hp := p.toNat_lt
  rw [UInt32.toNat_sub]
  congr 1
  omega

theorem offset_toNat (p : UInt32) {i : Nat} (fit : i < 2 ^ 32) : (p + .ofNat i - p).toNat = i := by
  have back : p + UInt32.ofNat i - p = .ofNat i := by grind
  rw [back, UInt32.toNat_ofNat', Nat.mod_eq_of_lt fit]

theorem inRange_add {p : UInt32} {i len : Nat} (fit : i < 2 ^ 32) : InRange (p + .ofNat i) p len ↔ i < len := by
  unfold InRange
  rw [offset_toNat p fit]

theorem offset_ne {p : UInt32} {i j : Nat} (hi : i < 2 ^ 32) (hj : j < 2 ^ 32) (ne : i ≠ j) :
    p + .ofNat i ≠ p + .ofNat j := by
  intro same
  have index := offset_toNat p hi
  rw [same, offset_toNat p hj] at index
  exact ne index.symm

theorem inRange_iff {x p : UInt32} {len : Nat} (h : p.toNat + len ≤ 2 ^ 32) :
    InRange x p len ↔ p.toNat ≤ x.toNat ∧ x.toNat < p.toNat + len := by
  have hx := x.toNat_lt
  have hp := p.toNat_lt
  unfold InRange
  rw [toNat_sub]
  omega

/-- The distance to an address further on is the sum of the two distances. -/
theorem inRange_offset {x p : UInt32} {off len : Nat} (total : Nat) (hx : InRange x (p + .ofNat off) len)
    (fit : off + len ≤ total) (htotal : total ≤ 2 ^ 32) :
    (x - p).toNat = off + (x - (p + .ofNat off)).toNat ∧ InRange x p total := by
  have split : x - p = .ofNat off + (x - (p + .ofNat off)) := by grind
  unfold InRange at *
  have distance : (x - p).toNat = off + (x - (p + .ofNat off)).toNat := by
    rw [split, UInt32.toNat_add, UInt32.toNat_ofNat']
    omega
  exact ⟨distance, by omega⟩

end PeachOs.Address
