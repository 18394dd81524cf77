import PeachOs.Heap

/-!
# Requests that do not fit

`searchForContiguousBlocks` returns -1 only when the table's last entry is
taken. Otherwise it returns the start of the free entries at the end of the
table, however few they are, and `HeapMalloc` marks past them.
-/

namespace PeachOs

/-- Heaps reached from a successful `CreateHeap` by any calls. -/
inductive HeapReachable : Heap → Prop
  | created {old heap : Heap} {tableMem : Nat → UInt8} {startAddr endAddr : UInt32}
      (created : createHeap old tableMem startAddr endAddr = (0, heap)) : HeapReachable heap
  | malloc {heap : Heap} (bytes : UInt32) (h : HeapReachable heap) :
      HeapReachable (heapMalloc heap bytes).2
  | free {heap : Heap} (addr : UInt32) (h : HeapReachable heap) :
      HeapReachable (heapFree heap addr).2

theorem HeapReachable.total {heap : Heap} (h : HeapReachable heap) :
    heap.table.total.toNat < 2 ^ 20 := by
  induction h with
  | @created old heap tableMem startAddr endAddr created =>
    have hlt := (endAddr - startAddr + 1).toNat_lt
    unfold createHeap at created
    split at created
    · simp [einvarg] at created
    · cases created
      simp only [initializeHeapTable, UInt32.toNat_div, heapBlockSizeBytes, UInt32.reduceToNat]
      omega
  | malloc bytes _ ih => rw [(heapMalloc_shape _ bytes).2]; exact ih
  | free addr _ ih => rw [(heapFree_shape _ addr).2]; exact ih

/-- NULL, and no byte of the table or after it has changed. -/
def FailsCleanly (heap : Heap) (n : UInt32) : Prop :=
  (heapMalloc heap n).1 = 0 ∧
    ∀ i, (heapMalloc heap n).2.table.entries i = heap.table.entries i

/-- The last entry is taken, or there is none. -/
def LastTaken (heap : Heap) : Prop :=
  heap.table.total.toNat = 0 ∨
    heap.table.entries (heap.table.total.toNat - 1) ≠ heapBlockTableEntryFree

/-- A request above 2^32 - 4096 bytes is rounded to no blocks, and marks the
entry before the free tail as a last one. That shows nothing when the entry is
one already and the tail starts at address 0. -/
def RemarksBeforeNull (heap : Heap) (n : UInt32) : Prop :=
  2 ^ 32 - 4096 < n.toNat ∧ ∃ t, 0 < t ∧ t < heap.table.total.toNat ∧ TailStart heap t ∧
    heap.table.entries (t - 1) = entryLast ∧ heap.saddr + .ofNat (4096 * t) = 0

theorem TailStart.unique {heap : Heap} {t t' : Nat} (h : TailStart heap t)
    (h' : TailStart heap t') : t = t' := by
  have hle := h.le
  have hle' := h'.le
  by_contra ne
  rcases Nat.lt_or_gt_of_ne ne with lt | lt
  · exact h'.maximal (by omega) (h.free _ (by omega) (by omega))
  · exact h.maximal (by omega) (h'.free _ (by omega) (by omega))

theorem TailStart.lastTaken_iff {heap : Heap} {t : Nat} (h : TailStart heap t) :
    LastTaken heap ↔ t = heap.table.total.toNat := by
  have hle := h.le
  constructor
  · intro taken
    by_contra ne
    rcases taken with zero | taken
    · omega
    · exact taken (h.free _ (by omega) (by omega))
  · intro e
    by_cases zero : heap.table.total.toNat = 0
    · exact Or.inl zero
    · exact Or.inr (e ▸ h.maximal (by omega))

/-- With a free tail the request is answered by marking from the tail on. -/
theorem tail_marked {heap : Heap} (bound : heap.table.total.toNat < 2 ^ 20) {n : UInt32}
    (positive : 1 ≤ n.toNat) (none : ∀ s, ¬ FreeRun heap (blocksNeeded n) s) {t : Nat}
    (tail : TailStart heap t) (free : t < heap.table.total.toNat)
    (found : searchForContiguousBlocks heap (blocksToAllocate n) = t) :
    FailsCleanly heap n ↔ RemarksBeforeNull heap n := by
  have index : (UInt32.ofNat t).toNat = t := by
    rw [UInt32.toNat_ofNat']
    omega
  have entry := tail.free t (Nat.le_refl t) free
  have blocks := blocksToAllocate_toNat n
  have marked := updateHeapTable_entries heap (.ofNat t) (blocksToAllocate n)
  rw [index] at marked
  -- a mark over the free entry at the tail's start is a change
  have dirty (h : (UInt32.ofNat t + blocksToAllocate n - 1).toNat > t) : ¬ FailsCleanly heap n := by
    rintro ⟨_, same⟩
    have change := same t
    rw [heapMalloc_of_search found, marked, Heap.setEntries_entries, if_neg (by omega),
      if_pos ⟨Nat.le_refl t, h⟩, entry] at change
    exact absurd change (by decide)
  by_cases small : blocksNeeded n < 2 ^ 20
  · rw [if_pos small] at blocks
    have short : ¬ t + blocksNeeded n ≤ heap.table.total.toNat := by
      intro fits
      exact none t ⟨fits, fun j lo hj => tail.free j lo (by omega)⟩
    refine iff_of_false (dirty ?_) ?_
    · rw [UInt32.toNat_sub, UInt32.toNat_add, index, blocks]
      simp only [UInt32.reduceToNat]
      omega
    · rintro ⟨huge, _⟩
      unfold blocksNeeded at small
      omega
  · rw [if_neg small] at blocks
    have zero : blocksToAllocate n = 0 := UInt32.toNat_inj.mp blocks
    have huge : 2 ^ 32 - 4096 < n.toNat := by
      unfold blocksNeeded at small
      omega
    by_cases whole : t = 0
    · refine iff_of_false (dirty ?_) ?_
      · subst whole
        rw [zero]
        decide
      · rintro ⟨_, t', pos, _, tail', _⟩
        have := tail.unique tail'
        omega
    · have before : (UInt32.ofNat t + blocksToAllocate n - 1).toNat = t - 1 := by
        rw [zero, UInt32.add_zero, UInt32.toNat_sub, index]
        simp only [UInt32.reduceToNat]
        omega
      rw [before] at marked
      rw [FailsCleanly, heapMalloc_of_search found, marked]
      simp only [Heap.setEntries_entries]
      constructor
      · rintro ⟨null, same⟩
        have mark := same (t - 1)
        rw [if_pos rfl] at mark
        exact ⟨huge, t, by omega, free, tail, mark.symm, null⟩
      · rintro ⟨_, t', pos, _, tail', mark, null⟩
        have e := tail.unique tail'
        subst e
        refine ⟨null, fun i => ?_⟩
        by_cases hi : i = t - 1
        · rw [if_pos hi, hi, mark]
        · rw [if_neg hi, if_neg (by omega)]

/-- **Exhaustion.** A request that fits nowhere is refused without a trace
exactly when the last entry is taken (or the rounding hides the mark). -/
theorem exhausted_malloc_clean_iff {heap : Heap} (h : HeapReachable heap) (n : UInt32)
    (positive : 1 ≤ n.toNat) (none : ∀ s, ¬ FreeRun heap (blocksNeeded n) s) :
    ((heapMalloc heap n).1 = 0 ∧
      ∀ i, (heapMalloc heap n).2.table.entries i = heap.table.entries i) ↔
    LastTaken heap ∨ RemarksBeforeNull heap n := by
  have missed : (blocksToAllocate n).toNat = 0 ∨
      ∀ s, ¬ FreeRun heap (blocksToAllocate n).toNat s := by
    rw [blocksToAllocate_toNat]
    by_cases small : blocksNeeded n < 2 ^ 20
    · rw [if_pos small]
      exact Or.inr none
    · exact Or.inl (if_neg small)
  obtain ⟨t, tail, found⟩ := search_missed heap (blocksToAllocate n) missed
  by_cases full : t = heap.table.total.toNat
  · rw [if_pos full] at found
    refine iff_of_true ?_ (Or.inl (tail.lastTaken_iff.mpr full))
    simp [heapMalloc, found]
  · rw [if_neg full] at found
    have hle := tail.le
    rw [tail.lastTaken_iff, or_iff_right full]
    exact tail_marked h.total positive none tail (by omega) found

/-- A heap of one free block. -/
def oneBlock : Heap := (createHeap ⟨⟨fun _ => 0, 0⟩, 0⟩ (fun _ => 0) 0x1000 0x1FFF).2

theorem oneBlock_created :
    createHeap ⟨⟨fun _ => 0, 0⟩, 0⟩ (fun _ => 0) 0x1000 0x1FFF = (0, oneBlock) := by
  rw [oneBlock, createHeap, if_neg (by decide)]

theorem oneBlock_no_room (s : Nat) : ¬ FreeRun oneBlock (blocksNeeded 4097) s := by
  intro fits
  have inside := fits.1
  have needed : blocksNeeded 4097 = 2 := by decide
  have total : oneBlock.table.total.toNat = 1 := by decide
  omega

/-- Asked for two blocks, it hands out its one and marks the byte after the table. -/
theorem one_block_handed_out_for_two :
    HeapReachable oneBlock ∧ (∀ s, ¬ FreeRun oneBlock (blocksNeeded 4097) s) ∧
      ¬ ((heapMalloc oneBlock 4097).1 = 0 ∧
        ∀ i, (heapMalloc oneBlock 4097).2.table.entries i = oneBlock.table.entries i) :=
  ⟨.created oneBlock_created, oneBlock_no_room, fun clean => absurd clean.1 (by decide)⟩

theorem one_block_exhaustion :
    ((heapMalloc oneBlock 4097).1 = 0 ∧
      ∀ i, (heapMalloc oneBlock 4097).2.table.entries i = oneBlock.table.entries i) ↔
    LastTaken oneBlock ∨ RemarksBeforeNull oneBlock 4097 :=
  exhausted_malloc_clean_iff (.created oneBlock_created) 4097 (by decide) oneBlock_no_room

end PeachOs
