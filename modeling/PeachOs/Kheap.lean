import PeachOs.Heap
import PeachOs.Lib.Memory

/-!
# The kernel's allocator

`kheap.c`. Code that only asks for memory is modelled over any allocator, so
that its results hold for the block heap and for every other one with the
stated property. A NULL pointer is 0.
-/

namespace PeachOs

open Memory Address

structure Allocator (H : Type*) where
  malloc : H → UInt32 → UInt32 × H
  free : H → UInt32 → H

/-- `kMalloc` and `kFree` over the block heap. -/
def kernelAllocator : Allocator Heap where
  malloc := heapMalloc
  free heap addr := (heapFree heap addr).2

variable {H : Type*} (A : Allocator H)

def kZalloc (h : H) (m : Ram) (bytes : UInt32) : UInt32 × H × Ram :=
  let (ptr, h) := A.malloc h bytes
  if ptr = 0 then (0, h, m) else (ptr, h, memset m ptr 0 bytes.toNat)

theorem kZalloc_null {h : H} {bytes : UInt32} (null : (A.malloc h bytes).1 = 0) (m : Ram) :
    kZalloc A h m bytes = (0, (A.malloc h bytes).2, m) := by
  dsimp only [kZalloc]
  rw [if_pos null]

/-- The pointer is the allocator's, and only the bytes handed out are cleared. -/
theorem kZalloc_spec (h : H) (m : Ram) (bytes : UInt32) :
    ∃ m', kZalloc A h m bytes = ((A.malloc h bytes).1, (A.malloc h bytes).2, m') ∧
      Agree (fun x => ¬ InRange x (A.malloc h bytes).1 bytes.toNat) m m' := by
  dsimp only [kZalloc]
  by_cases null : (A.malloc h bytes).1 = 0
  · rw [if_pos null]
    exact ⟨m, by rw [null], Agree.refl _ _⟩
  · rw [if_neg null]
    exact ⟨_, rfl, memset_agree m _ 0 bytes.toNat (Nat.le_of_lt bytes.toNat_lt)⟩

/-- A request that fits in a page touches only the page it got. -/
theorem kZalloc_page (h : H) (m : Ram) {bytes : UInt32} (small : bytes.toNat ≤ 4096)
    (aligned : (A.malloc h bytes).1 % 4096 = 0) :
    ∃ m', kZalloc A h m bytes = ((A.malloc h bytes).1, (A.malloc h bytes).2, m') ∧
      Agree (fun x => frame x ≠ (A.malloc h bytes).1) m m' := by
  obtain ⟨m', run, same⟩ := kZalloc_spec A h m bytes
  refine ⟨m', run, same.mono fun x off inside => off ?_⟩
  exact (inRange_page aligned).mp (Nat.lt_of_lt_of_le inside small)

/-! ## Successive requests -/

/-- The allocator after the first `n` of the requests `sizes`. -/
def Allocator.after (h : H) (sizes : Nat → UInt32) : Nat → H
  | 0 => h
  | n + 1 => (A.malloc (Allocator.after h sizes n) (sizes n)).2

/-- What request `n` returns. -/
def Allocator.pointer (h : H) (sizes : Nat → UInt32) (n : Nat) : UInt32 :=
  (A.malloc (A.after h sizes n) (sizes n)).1

/-- The first `n` requests return distinct page-aligned blocks. -/
structure FreshBlocks (h : H) (sizes : Nat → UInt32) (n : Nat) : Prop where
  aligned : ∀ i < n, A.pointer h sizes i % heapBlockSizeBytes = 0
  distinct : ∀ i < n, ∀ j < n, A.pointer h sizes i = A.pointer h sizes j → i = j

end PeachOs
