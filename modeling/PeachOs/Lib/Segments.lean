import PeachOs.Lib.Memory

/-!
# Memory filled piece by piece

What a loop that stores through an advancing pointer leaves behind.
-/

namespace PeachOs.Memory

open Address
open Function (update)

def store16 (m : Ram) (a : UInt32) (v : UInt16) : Ram := update (update m a v.toUInt8) (a + 1) (v >>> 8).toUInt8

/-- The `len` bytes from `p` on are `bytes`, and the others are as they were. -/
structure Filled (m : Ram) (p : UInt32) (len : Nat) (bytes : Nat → UInt8) (m' : Ram) : Prop where
  inside : ∀ i < len, m' (p + .ofNat i) = bytes i
  outside : Agree (fun x => ¬ InRange x p len) m m'

variable {m m' m'' : Ram} {p : UInt32} {a b : Nat} {bytes more : Nat → UInt8}

theorem Filled.nil (m : Ram) (p : UInt32) (bytes : Nat → UInt8) : Filled m p 0 bytes m :=
  ⟨fun i hi => absurd hi (Nat.not_lt_zero i), Agree.refl _ _⟩

theorem Filled.congr {bytes' : Nat → UInt8} (filled : Filled m p a bytes m') (same : ∀ i < a, bytes i = bytes' i) :
    Filled m p a bytes' m' :=
  ⟨fun i hi => (filled.inside i hi).trans (same i hi), filled.outside⟩

/-- Two pieces after each other. -/
theorem Filled.append (first : Filled m p a bytes m') (second : Filled m' (p + .ofNat a) b more m'')
    (fits : a + b ≤ 2 ^ 32) : Filled m p (a + b) (fun i => if i < a then bytes i else more (i - a)) m'' := by
  have apart (i : Nat) (hi : i < a) : ¬ InRange (p + .ofNat i) (p + .ofNat a) b := by
    intro inside
    have far := (inRange_offset (a + b) inside (Nat.le_refl _) fits).1
    rw [offset_toNat p (by omega)] at far
    omega
  constructor
  · intro i hi
    by_cases early : i < a
    · rw [if_pos early, second.outside _ (apart i early)]
      exact first.inside i early
    · have place : p + .ofNat i = p + .ofNat a + .ofNat (i - a) := by
        have split : UInt32.ofNat i = .ofNat a + .ofNat (i - a) := by
          rw [← UInt32.ofNat_add, Nat.add_sub_cancel' (Nat.le_of_not_lt early)]
        rw [split]
        grind
      rw [if_neg early, place]
      exact second.inside (i - a) (by omega)
  · intro x off
    have before : ¬ InRange x p a := fun inside => off (Nat.lt_of_lt_of_le inside (Nat.le_add_right a b))
    have behind : ¬ InRange x (p + .ofNat a) b := fun inside =>
      off (inRange_offset (a + b) inside (Nat.le_refl _) fits).2
    exact (second.outside x behind).trans (first.outside x before)

theorem store16_filled (m : Ram) (a : UInt32) (v : UInt16) :
    Filled m a 2 (fun i => if i = 0 then v.toUInt8 else (v >>> 8).toUInt8) (store16 m a v) := by
  have next : a ≠ a + 1 := by grind
  constructor
  · intro i hi
    obtain rfl | rfl : i = 0 ∨ i = 1 := by omega
    · simp [store16, next]
    · simp [store16]
  · intro x off
    have first : x ≠ a := by
      rintro rfl
      exact off (by simp [InRange])
    have second : x ≠ a + 1 := by
      rintro rfl
      apply off
      have distance : a + 1 - a = 1 := by grind
      rw [InRange, distance]
      decide
    simp [store16, first, second]

end PeachOs.Memory
