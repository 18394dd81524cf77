import PeachOs.HeapLayout
import PeachOs.Kheap

/-!
# Requests on the kernel's new heap

From `KheapInit` on, requests of at most one block get the blocks of the pool
in order, so code that asks for memory meets the block heap's blocks one after
the other.
-/

namespace PeachOs

open FirstFit Address Memory

/-- The first `k` blocks are single-block allocations and the others are free. -/
structure Packed (heap : Heap) (k : Nat) : Prop where
  placed : Placed heap
  taken : ∀ i < k, heap.table.entries i = entryLast
  free : ∀ i, k ≤ i → i < heap.table.total.toNat → heap.table.entries i = heapBlockTableEntryFree

/-- The next request of at most one block gets block `k`. -/
theorem Packed.malloc {heap : Heap} {k : Nat} (packed : Packed heap k)
    (room : k < heap.table.total.toNat) {n : UInt32} (positive : 1 ≤ n.toNat) (small : n.toNat ≤ 4096) :
    (heapMalloc heap n).1 = heap.saddr + .ofNat (4096 * k) ∧ Packed (heapMalloc heap n).2 (k + 1) := by
  have one : blocksNeeded n = 1 := blocksNeeded_one positive small
  have here : FreeRun heap 1 k :=
    ⟨room, fun j lo hi => packed.free j lo (by omega)⟩
  obtain ⟨s, least, ptr, after⟩ := heapMalloc_fits packed.placed positive ⟨k, one ▸ here⟩
  rw [one] at least after
  have first : s = k := by
    apply Nat.le_antisymm (least.2 here)
    by_contra lower
    have free := least.1.2 s (Nat.le_refl s) (by omega)
    rw [packed.taken s (by omega)] at free
    exact absurd free (by decide)
  subst first
  refine ⟨ptr, ?_⟩
  rw [after]
  refine ⟨⟨packed.placed.total, packed.placed.aligned⟩, fun i hi => ?_, fun i lo hi => ?_⟩
  · rw [Heap.setEntries_entries]
    by_cases last : i = s
    · rw [if_pos (by omega)]
    · rw [if_neg (by omega), if_neg (by omega)]
      exact packed.taken i (by omega)
  · rw [Heap.setEntries_entries, if_neg (by omega), if_neg (by omega)]
    exact packed.free i (by omega) hi

theorem kheapInit_packed (kernelHeap : Heap) (tableMem : Nat → UInt8) :
    Packed (kheapInit kernelHeap tableMem) 0 := by
  obtain ⟨placed, _⟩ := createHeap_placed (kheapInit_created tableMem kernelHeap) (by decide)
  refine ⟨placed, fun i hi => absurd hi (Nat.not_lt_zero i), fun i _ hi => ?_⟩
  exact (kheapInit_free kernelHeap tableMem (k := 25600) (Nat.le_refl _)).2 i (Nat.zero_le i)
    (by rw [kheapInit_total] at hi; omega)

section

variable {heap : Heap} {sizes : Nat → UInt32}

/-- `n` requests of at most one block on a heap with room for them. -/
theorem Packed.requests (packed : Packed heap 0)
    (block : ∀ i, 1 ≤ (sizes i).toNat ∧ (sizes i).toNat ≤ 4096) (n : Nat)
    (room : n ≤ heap.table.total.toNat) :
    (kernelAllocator.after heap sizes n).saddr = heap.saddr ∧
      (kernelAllocator.after heap sizes n).table.total = heap.table.total ∧
      Packed (kernelAllocator.after heap sizes n) n := by
  induction n with
  | zero => exact ⟨rfl, rfl, packed⟩
  | succ n ih =>
    obtain ⟨saddr, total, packed⟩ := ih (by omega)
    obtain ⟨saddr', total'⟩ := heapMalloc_shape (kernelAllocator.after heap sizes n) (sizes n)
    obtain ⟨_, next⟩ := packed.malloc (by rw [total]; omega) (block n).1 (block n).2
    exact ⟨saddr'.trans saddr, total'.trans total, next⟩

theorem Packed.pointer (packed : Packed heap 0)
    (block : ∀ i, 1 ≤ (sizes i).toNat ∧ (sizes i).toNat ≤ 4096) {n : Nat}
    (room : n < heap.table.total.toNat) :
    kernelAllocator.pointer heap sizes n = heap.saddr + .ofNat (4096 * n) := by
  obtain ⟨saddr, total, packed⟩ := packed.requests block n (by omega)
  rw [← saddr]
  exact (packed.malloc (by rw [total]; omega) (block n).1 (block n).2).1

/-- The block heap hands out distinct page-aligned blocks. -/
theorem Packed.fresh (packed : Packed heap 0)
    (block : ∀ i, 1 ≤ (sizes i).toNat ∧ (sizes i).toNat ≤ 4096) :
    FreshBlocks kernelAllocator heap sizes heap.table.total.toNat := by
  have bound := packed.placed.total
  refine ⟨fun i hi => ?_, fun i hi j hj same => ?_⟩
  · rw [packed.pointer block hi]
    exact addr_aligned packed.placed i
  · rw [packed.pointer block hi, packed.pointer block hj] at same
    rw [← blockIndex_addr heap (s := i) (by omega), same, blockIndex_addr heap (by omega)]

end

end PeachOs
