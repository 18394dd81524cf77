import PeachOs.Lib.Memory

/-!
# Strings in memory

`strncpy` of `string.c` over memory reached through a translation of addresses,
so that it can run while a task's directory is active. An access that faults
gives no result.
-/

namespace PeachOs

open Memory Address
open Function (update)

/-- How an address is reached; it may depend on tables in the memory itself. -/
abbrev Translation := Ram → UInt32 → Option UInt32

/-- Addresses that are their own translation, as under the kernel's directory. -/
def identity : Translation := fun _ v => some v

def readByte (tr : Translation) (m : Ram) (v : UInt32) : Option UInt8 := (tr m v).map m

def writeByte (tr : Translation) (m : Ram) (v : UInt32) (b : UInt8) : Option Ram :=
  (tr m v).map fun a => update m a b

/-- The loop of `strncpy` at `i`, with `left` turns to go, and the terminator. -/
def strncpyFrom (tr : Translation) (m : Ram) (dest src : UInt32) : (left i : Nat) → Option Ram
  | 0, i => writeByte tr m (dest + .ofNat i) 0
  | left + 1, i => do
    let c ← readByte tr m (src + .ofNat i)
    if c = 0 then writeByte tr m (dest + .ofNat i) 0
    else
      let m ← writeByte tr m (dest + .ofNat i) c
      strncpyFrom tr m dest src left (i + 1)

def strncpy (tr : Translation) (m : Ram) (dest src : UInt32) (n : Int) : Option Ram :=
  strncpyFrom tr m dest src (n - 1).toNat 0

theorem writeByte_agree {tr : Translation} {d : UInt32 → Prop} {m m' : Ram} {v : UInt32} {b : UInt8}
    (off : ∀ a, tr m v = some a → ¬ d a) (run : writeByte tr m v b = some m') : Agree d m m' := by
  obtain ⟨a, reached, rfl⟩ := Option.map_eq_some_iff.mp run
  intro x hx
  have ne : x ≠ a := by
    rintro rfl
    exact off x reached hx
  exact Function.update_of_ne ne b m

/-- Where the destination stays off `d`, so does the copy. -/
theorem strncpyFrom_agree {tr : Translation} {d : UInt32 → Prop} {dest src : UInt32} (left : Nat)
    {m m' : Ram} {i : Nat}
    (off : ∀ m₁, Agree d m m₁ → ∀ k, i ≤ k → k ≤ i + left → ∀ a, tr m₁ (dest + .ofNat k) = some a → ¬ d a)
    (run : strncpyFrom tr m dest src left i = some m') : Agree d m m' := by
  induction left generalizing m i with
  | zero => exact writeByte_agree (off m (Agree.refl d m) i (Nat.le_refl i) (Nat.le_refl i)) run
  | succ left ih =>
    have here := off m (Agree.refl d m) i (Nat.le_refl i) (Nat.le_add_right i _)
    rw [strncpyFrom] at run
    obtain ⟨c, _, run⟩ := Option.bind_eq_some_iff.mp run
    split at run
    · exact writeByte_agree here run
    · obtain ⟨m₁, wrote, rest⟩ := Option.bind_eq_some_iff.mp run
      have first := writeByte_agree here wrote
      refine first.trans (ih (fun m₂ same k lo hi => ?_) rest)
      exact off m₂ (first.trans same) k (by omega) (by omega)

/-- Where no access faults, the copy returns. -/
theorem strncpyFrom_returns {tr : Translation} {d : UInt32 → Prop} {dest : UInt32} (src : UInt32)
    (left : Nat) {m : Ram} {i : Nat}
    (off : ∀ m₁, Agree d m m₁ → ∀ k, i ≤ k → k ≤ i + left → ∀ a, tr m₁ (dest + .ofNat k) = some a → ¬ d a)
    (reach : ∀ m₁, Agree d m m₁ → ∀ v, ∃ a, tr m₁ v = some a) :
    ∃ m', strncpyFrom tr m dest src left i = some m' := by
  induction left generalizing m i with
  | zero =>
    obtain ⟨a, reached⟩ := reach m (Agree.refl d m) (dest + .ofNat i)
    exact ⟨update m a 0, by simp [strncpyFrom, writeByte, reached]⟩
  | succ left ih =>
    have here := off m (Agree.refl d m) i (Nat.le_refl i) (Nat.le_add_right i _)
    obtain ⟨a, reached⟩ := reach m (Agree.refl d m) (dest + .ofNat i)
    obtain ⟨b, read⟩ := reach m (Agree.refl d m) (src + .ofNat i)
    by_cases stop : m b = 0
    · exact ⟨update m a 0, by simp [strncpyFrom, readByte, writeByte, reached, read, stop]⟩
    · have first : Agree d m (update m a (m b)) :=
        writeByte_agree here (b := m b) (by simp [writeByte, reached])
      have later (m₂ : Ram) (same : Agree d (update m a (m b)) m₂) (k : Nat) (lo : i + 1 ≤ k)
          (hi : k ≤ i + 1 + left) := off m₂ (first.trans same) k (by omega) (by omega)
      obtain ⟨m', rest⟩ := ih later fun m₂ same => reach m₂ (first.trans same)
      exact ⟨m', by simp [strncpyFrom, readByte, writeByte, reached, read, stop, rest]⟩

end PeachOs
