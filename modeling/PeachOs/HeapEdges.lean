import PeachOs.HeapExhaustion
import PeachOs.HeapLayout

/-!
# The edges of the heap

What `HeapMalloc` does with the request sizes that round to no block or fit
nowhere, and what `HeapFree` does with an address that is not a live block's.
-/

namespace PeachOs

open FirstFit Address

/-- The `k` entries from `s` on became a run, and no other entry changed. -/
structure ReservedRun (heap heap' : Heap) (s k : Nat) : Prop where
  nonempty : 0 < k
  inside : s + k ≤ heap.table.total.toNat
  next : ∀ j, s ≤ j → j + 1 < s + k → heap'.table.entries j = entryNext
  last : heap'.table.entries (s + k - 1) = entryLast
  others : ∀ j, j < s ∨ s + k ≤ j → heap'.table.entries j = heap.table.entries j

/-- A pointer is that of a reserved run with `n` bytes, and NULL changes nothing. -/
structure MallocRight (heap : Heap) (n : UInt32) : Prop where
  pointer : (heapMalloc heap n).1 ≠ 0 → ∃ s k, (heapMalloc heap n).1 = heap.saddr + .ofNat (4096 * s) ∧
    n.toNat ≤ 4096 * k ∧ ReservedRun heap (heapMalloc heap n).2 s k
  null : (heapMalloc heap n).1 = 0 → ∀ j, (heapMalloc heap n).2.table.entries j = heap.table.entries j

/-- There is a run of free blocks for `n` bytes. -/
def RequestFits (heap : Heap) (n : UInt32) : Prop := 1 ≤ n.toNat ∧ ∃ s, FreeRun heap (blocksNeeded n) s

/-- The size is rounded to no blocks, so the entry before the free tail is marked
as a last one. That shows nothing when the entry is one already and the tail
starts at address 0. -/
def HidesMark (heap : Heap) (n : UInt32) : Prop :=
  (n = 0 ∨ 2 ^ 32 - 4096 < n.toNat) ∧ ∃ t, 0 < t ∧ t < heap.table.total.toNat ∧ TailStart heap t ∧
    heap.table.entries (t - 1) = entryLast ∧ heap.saddr + .ofNat (4096 * t) = 0

section

variable {heap : Heap} {n : UInt32}

theorem blocksToAllocate_zero_iff (n : UInt32) :
    (blocksToAllocate n).toNat = 0 ↔ n = 0 ∨ 2 ^ 32 - 4096 < n.toNat := by
  have hlt := n.toNat_lt
  have zero : n = 0 ↔ n.toNat = 0 := UInt32.toNat_inj.symm
  rw [blocksToAllocate_toNat, zero]
  unfold blocksNeeded
  split <;> omega

theorem blockAt_inj {s t : Nat} (hs : s < 2 ^ 20) (ht : t < 2 ^ 20)
    (same : heap.saddr + .ofNat (4096 * s) = heap.saddr + .ofNat (4096 * t)) : s = t := by
  rw [← blockIndex_addr heap hs, same, blockIndex_addr heap ht]

/-- The entries a request changes that is answered with block `s`. -/
theorem heapMalloc_marks {s : Nat} (small : s < 2 ^ 32) (found : searchForContiguousBlocks heap (blocksToAllocate n) = s) :
    heapMalloc heap n = (heap.saddr + .ofNat (4096 * s), heap.setEntries fun j =>
      if j = (UInt32.ofNat s + blocksToAllocate n - 1).toNat then entryLast
      else if s ≤ j ∧ j < (UInt32.ofNat s + blocksToAllocate n - 1).toNat then entryNext
      else heap.table.entries j) := by
  rw [heapMalloc_of_search found, updateHeapTable_entries, UInt32.toNat_ofNat', Nat.mod_eq_of_lt small]

/-- A request that fits is right unless its block starts at address 0. -/
theorem fits_right_iff (bound : heap.table.total.toNat < 2 ^ 20) (positive : 1 ≤ n.toNat) {s : Nat}
    (least : IsLeast {s | FreeRun heap (blocksNeeded n) s} s)
    (found : searchForContiguousBlocks heap (blocksToAllocate n) = s) :
    MallocRight heap n ↔ heap.saddr + .ofNat (4096 * s) ≠ 0 := by
  have inside := least.1.1
  have some : 0 < blocksNeeded n := by
    unfold blocksNeeded
    omega
  have blocks := blocksToAllocate_toNat n
  rw [if_pos (by omega)] at blocks
  have index : (UInt32.ofNat s).toNat = s := by
    rw [UInt32.toNat_ofNat']
    omega
  have final : (UInt32.ofNat s + blocksToAllocate n - 1).toNat = s + blocksNeeded n - 1 := by
    rw [UInt32.toNat_sub, UInt32.toNat_add, index, blocks]
    simp only [UInt32.reduceToNat]
    omega
  have run := heapMalloc_marks (by omega) found
  rw [final] at run
  constructor
  · intro right null
    have same := right.null (by rw [run]; exact null) s
    rw [run] at same
    simp only [Heap.setEntries_entries] at same
    rw [least.1.2 s (Nat.le_refl s) (by omega)] at same
    by_cases one : s = s + blocksNeeded n - 1
    · rw [if_pos one] at same
      exact absurd same (by decide)
    · rw [if_neg one, if_pos (by omega)] at same
      exact absurd same (by decide)
  · intro nonzero
    constructor
    · intro _
      refine ⟨s, blocksNeeded n, by rw [run], ?_, ?_⟩
      · unfold blocksNeeded
        omega
      · rw [run]
        constructor
        · exact some
        · exact inside
        · intro j lo hi
          rw [Heap.setEntries_entries, if_neg (by omega), if_pos (by omega)]
        · rw [Heap.setEntries_entries, if_pos rfl]
        · intro j off
          rw [Heap.setEntries_entries, if_neg (by omega), if_neg (by omega)]
    · intro null
      rw [run] at null
      exact absurd null nonzero

section

variable {t : Nat}

/-- The run of an answer starts at the block that was found. -/
theorem ReservedRun.start_eq {s k : Nat} (reserved : ReservedRun heap (heapMalloc heap n).2 s k)
    (bound : heap.table.total.toNat < 2 ^ 20) (inside : t < heap.table.total.toNat)
    (found : searchForContiguousBlocks heap (blocksToAllocate n) = t)
    (address : (heapMalloc heap n).1 = heap.saddr + .ofNat (4096 * s)) : s = t := by
  have nonempty := reserved.nonempty
  have within := reserved.inside
  rw [heapMalloc_of_search found] at address
  exact (blockAt_inj (by omega) (by omega) address).symm

/-- Marks that cover the whole tail leave it without a last one. -/
theorem tail_covered (bound : heap.table.total.toNat < 2 ^ 20) (tail : TailStart heap t)
    (free : t < heap.table.total.toNat) (found : searchForContiguousBlocks heap (blocksToAllocate n) = t)
    (past : heap.table.total.toNat ≤ (UInt32.ofNat t + blocksToAllocate n - 1).toNat) : ¬ MallocRight heap n := by
  intro right
  have within (j : Nat) (lo : t ≤ j) (hi : j < heap.table.total.toNat) :
      (heapMalloc heap n).2.table.entries j = entryNext := by
    rw [heapMalloc_marks (by omega) found, Heap.setEntries_entries, if_neg (by omega), if_pos (by omega)]
  by_cases null : (heapMalloc heap n).1 = 0
  · have same := right.null null t
    rw [within t (Nat.le_refl t) free, tail.free t (Nat.le_refl t) free] at same
    exact absurd same (by decide)
  · obtain ⟨s, k, address, _, reserved⟩ := right.pointer null
    obtain rfl := reserved.start_eq bound free found address
    have inside := reserved.inside
    have nonempty := reserved.nonempty
    have mark := reserved.last
    rw [within _ (by omega) (by omega)] at mark
    exact absurd mark (by decide)

/-- A request for no blocks marks the entry before the tail. -/
theorem tail_unreserved (bound : heap.table.total.toNat < 2 ^ 20) (tail : TailStart heap t)
    (free : t < heap.table.total.toNat) (found : searchForContiguousBlocks heap (blocksToAllocate n) = t)
    (zero : (blocksToAllocate n).toNat = 0) (pos : 0 < t) : MallocRight heap n ↔ HidesMark heap n := by
  have none : blocksToAllocate n = 0 := UInt32.toNat_inj.mp zero
  have before : (UInt32.ofNat t + blocksToAllocate n - 1).toNat = t - 1 := by
    rw [none, UInt32.add_zero, UInt32.toNat_sub, UInt32.toNat_ofNat']
    simp only [UInt32.reduceToNat]
    omega
  have run := heapMalloc_marks (by omega) found
  rw [before] at run
  constructor
  · intro right
    by_cases null : (heapMalloc heap n).1 = 0
    · have same := right.null null (t - 1)
      rw [run, Heap.setEntries_entries, if_pos rfl] at same
      rw [run] at null
      exact ⟨(blocksToAllocate_zero_iff n).mp zero, t, pos, free, tail, same.symm, null⟩
    · obtain ⟨s, k, address, _, reserved⟩ := right.pointer null
      obtain rfl := reserved.start_eq bound free found address
      have nonempty := reserved.nonempty
      have stays : (heapMalloc heap n).2.table.entries s = heapBlockTableEntryFree := by
        rw [run, Heap.setEntries_entries, if_neg (by omega), if_neg (by omega), tail.free s (Nat.le_refl s) free]
      by_cases one : k = 1
      · have mark := reserved.last
        rw [one, Nat.add_sub_cancel, stays] at mark
        exact absurd mark (by decide)
      · have mark := reserved.next s (Nat.le_refl s) (by omega)
        rw [stays] at mark
        exact absurd mark (by decide)
  · rintro ⟨_, t', _, _, tail', mark, null⟩
    obtain rfl := tail.unique tail'
    constructor
    · intro some
      rw [run] at some
      exact absurd null some
    · intro _ j
      rw [run, Heap.setEntries_entries]
      by_cases here : j = t - 1
      · rw [if_pos here, here, mark]
      · rw [if_neg here, if_neg (by omega)]

/-- A request that is answered with the free tail is never right, but for a hidden mark. -/
theorem tail_right_iff (bound : heap.table.total.toNat < 2 ^ 20) (misfit : ¬ RequestFits heap n)
    (tail : TailStart heap t) (free : t < heap.table.total.toNat)
    (found : searchForContiguousBlocks heap (blocksToAllocate n) = t) :
    MallocRight heap n ↔ HidesMark heap n := by
  by_cases zero : (blocksToAllocate n).toNat = 0
  · by_cases whole : t = 0
    · subst whole
      have none : blocksToAllocate n = 0 := UInt32.toNat_inj.mp zero
      have last : (UInt32.ofNat 0 + blocksToAllocate n - 1).toNat = 2 ^ 32 - 1 := by
        rw [none]
        rfl
      refine iff_of_false (tail_covered bound tail free found (by omega)) ?_
      rintro ⟨_, t, pos, _, tail', _⟩
      have := tail.unique tail'
      omega
    · exact tail_unreserved bound tail free found zero (Nat.pos_of_ne_zero whole)
  · have rounded := (blocksToAllocate_zero_iff n).not.mp zero
    have blocks := blocksToAllocate_toNat n
    have small : blocksNeeded n < 2 ^ 20 := by
      by_contra large
      rw [if_neg large] at blocks
      exact zero blocks
    rw [if_pos small] at blocks
    have short : heap.table.total.toNat < t + blocksNeeded n := by
      by_contra fits
      apply misfit
      constructor
      · rw [not_or] at rounded
        exact Nat.pos_of_ne_zero fun none => rounded.1 (UInt32.toNat_inj.mp none)
      · exact ⟨t, by omega, fun j lo hi => tail.free j lo (by omega)⟩
    refine iff_of_false (tail_covered bound tail free found ?_) fun hidden => rounded hidden.1
    rw [UInt32.toNat_sub, UInt32.toNat_add, UInt32.toNat_ofNat', blocks]
    simp only [UInt32.reduceToNat]
    omega

end

/-- **A request of any size** is answered right exactly when it gets the lowest
run that holds it (and not at address 0), or when it fits nowhere and the last
entry is taken (or the rounding hides the mark). -/
theorem heapMalloc_right_iff (h : HeapReachable heap) (n : UInt32) :
    MallocRight heap n ↔
      (RequestFits heap n ∧ ∃ s, IsLeast {s | FreeRun heap (blocksNeeded n) s} s ∧
        heap.saddr + .ofNat (4096 * s) ≠ 0) ∨
      (¬ RequestFits heap n ∧ (LastTaken heap ∨ HidesMark heap n)) := by
  have bound := h.total
  by_cases fits : RequestFits heap n
  · obtain ⟨positive, s₀, run⟩ := fits
    have blocks := blocksToAllocate_toNat n
    have inside := run.1
    rw [if_pos (by omega)] at blocks
    obtain ⟨s, found, least⟩ := search_found heap (blocksToAllocate n) (by
      rw [blocks]
      unfold blocksNeeded
      omega) ⟨s₀, by rw [blocks]; exact run⟩
    rw [blocks] at least
    rw [fits_right_iff bound positive least found]
    constructor
    · intro nonzero
      exact Or.inl ⟨⟨positive, s₀, run⟩, s, least, nonzero⟩
    · rintro (⟨_, s', least', nonzero⟩ | ⟨misfit, _⟩)
      · have same : s = s' := Nat.le_antisymm (least.2 least'.1) (least'.2 least.1)
        rwa [same]
      · exact absurd ⟨positive, s₀, run⟩ misfit
  · have missed : (blocksToAllocate n).toNat = 0 ∨ ∀ s, ¬ FreeRun heap (blocksToAllocate n).toNat s := by
      by_cases zero : (blocksToAllocate n).toNat = 0
      · exact Or.inl zero
      · refine Or.inr fun s run => fits ⟨?_, s, ?_⟩
        · have rounded := (blocksToAllocate_zero_iff n).not.mp zero
          rw [not_or] at rounded
          exact Nat.pos_of_ne_zero fun none => rounded.1 (UInt32.toNat_inj.mp none)
        · have blocks := blocksToAllocate_toNat n
          split at blocks
          · rwa [← blocks]
          · exact absurd blocks zero
    obtain ⟨t, tail, found⟩ := search_missed heap (blocksToAllocate n) missed
    rw [or_iff_right fun answered => fits answered.1, and_iff_right fits]
    by_cases full : t = heap.table.total.toNat
    · rw [if_pos full] at found
      have run : heapMalloc heap n = (0, heap) := by
        simp only [heapMalloc, found, if_true]
      refine iff_of_true ?_ (Or.inl (tail.lastTaken_iff.mpr full))
      constructor
      · intro some
        rw [run] at some
        exact absurd rfl some
      · intro _ j
        rw [run]
    · rw [if_neg full] at found
      have hle := tail.le
      rw [tail.lastTaken_iff, or_iff_right full]
      exact tail_right_iff bound fits tail (by omega) found

end

/-- A request of no bytes at the start of the table is answered with a pointer, and the
marks run on behind the table: its block is marked as one that goes on. -/
theorem no_bytes_run_on : HeapReachable oneBlock ∧ ¬ MallocRight oneBlock 0 := by
  have found : searchForContiguousBlocks oneBlock (blocksToAllocate 0) = (0 : Nat) := by decide
  have run := heapMalloc_of_search found
  rw [updateHeapTable_entries] at run
  constructor
  · exact .created oneBlock_created
  · intro right
    obtain ⟨s, k, _, _, reserved⟩ := right.pointer (by simp only [run]; decide)
    have inside := reserved.inside
    have nonempty := reserved.nonempty
    have total : oneBlock.table.total.toNat = 1 := by decide
    have one : s + k - 1 = 0 := by omega
    have mark := reserved.last
    rw [one, run] at mark
    exact absurd mark (by decide)

theorem two_blocks_of_one :
    MallocRight oneBlock 4097 ↔
      (RequestFits oneBlock 4097 ∧ ∃ s, IsLeast {s | FreeRun oneBlock (blocksNeeded 4097) s} s ∧
        oneBlock.saddr + .ofNat (4096 * s) ≠ 0) ∨
      (¬ RequestFits oneBlock 4097 ∧ (LastTaken oneBlock ∨ HidesMark oneBlock 4097)) :=
  heapMalloc_right_iff (.created oneBlock_created) 4097

/-! ## Addresses that are not a live block's -/

/-- The same table with other bytes after it. -/
def Heap.withBeyond (heap : Heap) (beyond : Nat → UInt8) : Heap :=
  heap.setEntries fun i => if i < heap.table.total.toNat then heap.table.entries i else beyond i

/-- No entry changes, and whatever bytes follow the table stay. -/
structure FreeHarmless (heap : Heap) (addr : UInt32) : Prop where
  kept : ∀ i < heap.table.total.toNat,
    (heapFree heap addr).2.table.entries i = heap.table.entries i
  within : ∀ beyond i, heap.table.total.toNat ≤ i →
    (heapFree (heap.withBeyond beyond) addr).2.table.entries i = beyond i

/-- The loop passes over free entries and changes none of them. -/
theorem freeFrom_skip (n : Nat) (entries : Nat → UInt8) (last left i : Nat) (hn : n ≤ left)
    (free : ∀ j, j < n → entries (i + j) = heapBlockTableEntryFree) :
    freeFrom entries last left i = freeFrom entries last (left - n) (i + n) := by
  induction n generalizing i left with
  | zero => rfl
  | succ n ih =>
    cases left with
    | zero => omega
    | succ left =>
      have here : entries i = heapBlockTableEntryFree := free 0 (Nat.succ_pos n)
      have same : Function.update entries i heapBlockTableEntryFree = entries := by
        rw [← here, Function.update_eq_self]
      rw [freeFrom, here, if_neg (by decide), same, ih left (i + 1) (Nat.le_of_succ_le_succ hn)]
      · simp only [Nat.add_sub_add_right, Nat.add_right_comm, Nat.add_assoc]
      · intro j hj
        have next := free (j + 1) (Nat.succ_lt_succ hj)
        rwa [← Nat.add_assoc, Nat.add_right_comm] at next

theorem freeFrom_keeps (entries : Nat → UInt8) (last left i m : Nat)
    (free : entries m = heapBlockTableEntryFree) :
    (freeFrom entries last left i).1 m = heapBlockTableEntryFree := by
  induction left generalizing entries i with
  | zero => exact free
  | succ left ih =>
    rw [freeFrom]
    split
    · exact free
    · apply ih
      by_cases here : m = i
      · simp [here]
      · simp [Function.update_of_ne here, free]

/-- The entry the loop starts at is free in the end, marked as a last one or not. -/
theorem freeFrom_first (entries : Nat → UInt8) (last left i : Nat) :
    Function.update (freeFrom entries last (left + 1) i).1 (freeFrom entries last (left + 1) i).2
      heapBlockTableEntryFree i = heapBlockTableEntryFree := by
  rw [freeFrom]
  split
  · simp
  · by_cases here : i = (freeFrom (Function.update entries i heapBlockTableEntryFree) last left
        (i + 1)).2
    · rw [← here, Function.update_self]
    · rw [Function.update_of_ne here]
      apply freeFrom_keeps
      simp

section

variable (heap : Heap) {addr : UInt32}

theorem heapFree_unaligned (unaligned : addr % heapBlockSizeBytes ≠ 0) :
    heapFree heap addr = (-einvarg, heap) := by
  simp [heapFree, unaligned]

/-- Over free entries to the end of the table nothing is left to clear. -/
theorem heapFree_free_tail (inside : heap.blockIndex addr < heap.table.total.toNat)
    (free : ∀ j, heap.blockIndex addr ≤ j → j < heap.table.total.toNat →
      heap.table.entries j = heapBlockTableEntryFree) :
    (heapFree heap addr).2.table.entries = heap.table.entries := by
  unfold heapFree
  split
  · rfl
  · have loop := freeFrom_skip (heap.table.total.toNat - heap.blockIndex addr) heap.table.entries
      (heap.blockIndex addr) _ (heap.blockIndex addr) (Nat.le_refl _) (by
        intro j hj
        exact free _ (Nat.le_add_right _ j) (by omega))
    have here := free _ (Nat.le_refl _) inside
    simp only [loop, Nat.sub_self, freeFrom, Heap.setEntries_entries]
    rw [← here, Function.update_eq_self]

/-- The first entry from the address on that is not free gets cleared. -/
theorem heapFree_clears (aligned : addr % heapBlockSizeBytes = 0) {n : Nat}
    (inside : heap.blockIndex addr + n < heap.table.total.toNat)
    (free : ∀ j, j < n → heap.table.entries (heap.blockIndex addr + j) = heapBlockTableEntryFree) :
    (heapFree heap addr).2.table.entries (heap.blockIndex addr + n) = heapBlockTableEntryFree := by
  have loop := freeFrom_skip n heap.table.entries (heap.blockIndex addr)
    (heap.table.total.toNat - heap.blockIndex addr) (heap.blockIndex addr) (by omega) free
  obtain ⟨left, enough⟩ : ∃ left, heap.table.total.toNat - heap.blockIndex addr - n = left + 1 := by
    apply Nat.exists_eq_add_one_of_ne_zero
    omega
  simp only [heapFree, aligned, ne_eq, not_true, if_false, loop, enough, Heap.setEntries_entries]
  apply freeFrom_first

/-- From an address past the table one byte past it is written. -/
theorem heapFree_beyond (aligned : addr % heapBlockSizeBytes = 0)
    (outside : heap.table.total.toNat ≤ heap.blockIndex addr) :
    (heapFree heap addr).2.table.entries (heap.blockIndex addr) = heapBlockTableEntryFree := by
  simp only [heapFree, aligned, ne_eq, not_true, if_false, Nat.sub_eq_zero_of_le outside, freeFrom,
    Heap.setEntries_entries, Function.update_self]

/-- **Any address** is harmless to free exactly when it is unaligned or when the
block it is in and all blocks after it are free. -/
theorem heapFree_harmless_iff (heap : Heap) (addr : UInt32) :
    FreeHarmless heap addr ↔
      addr % heapBlockSizeBytes ≠ 0 ∨
      (heap.blockIndex addr < heap.table.total.toNat ∧
        ∀ j, heap.blockIndex addr ≤ j → j < heap.table.total.toNat →
          heap.table.entries j = heapBlockTableEntryFree) := by
  constructor
  · intro harmless
    by_cases aligned : addr % heapBlockSizeBytes = 0
    · right
      constructor
      · by_contra outside
        have past := harmless.within (fun _ => heapBlockTableEntryTaken) (heap.blockIndex addr)
          (Nat.le_of_not_lt outside)
        have written := heapFree_beyond (heap.withBeyond fun _ => heapBlockTableEntryTaken)
          aligned (Nat.le_of_not_lt outside)
        exact absurd (past.symm.trans written) (by decide)
      · -- by strong induction: up to the first entry that is not free the loop clears nothing
        intro j
        induction j using Nat.strongRecOn with
        | ind j ih =>
          intro lo hi
          obtain ⟨n, rfl⟩ := Nat.exists_eq_add_of_le lo
          have cleared := heapFree_clears heap aligned hi (by
            intro k hk
            exact ih _ (by omega) (by omega) (by omega))
          rw [← harmless.kept _ hi, cleared]
    · exact Or.inl aligned
  · rintro (unaligned | ⟨inside, free⟩)
    · constructor
      · intro i _
        rw [heapFree_unaligned _ unaligned]
      · intro beyond i hi
        rw [heapFree_unaligned _ unaligned]
        simp [Heap.withBeyond, Nat.not_lt.mpr hi]
    · constructor
      · intro i _
        rw [heapFree_free_tail heap inside free]
      · intro beyond i hi
        rw [heapFree_free_tail (heap.withBeyond beyond) inside]
        · simp [Heap.withBeyond, Nat.not_lt.mpr hi]
        · intro j lo hj
          have here : j < heap.table.total.toNat := hj
          simp [Heap.withBeyond, here, free j lo here]

end

/-- A heap of two free blocks. -/
def twoBlocks : Heap := (createHeap ⟨⟨fun _ => 0, 0⟩, 0⟩ (fun _ => 0) 0x1000 0x2FFF).2

/-- Both blocks were handed out, and the first is free again. -/
def secondLive : Heap := (heapFree (heapMalloc (heapMalloc twoBlocks 1).2 1).2 0x1000).2

theorem twoBlocks_created :
    createHeap ⟨⟨fun _ => 0, 0⟩, 0⟩ (fun _ => 0) 0x1000 0x2FFF = (0, twoBlocks) := by
  rw [twoBlocks, createHeap, if_neg (by decide)]

theorem freeRun_single {heap : Heap} {s : Nat} (inside : s < heap.table.total.toNat)
    (free : heap.table.entries s = heapBlockTableEntryFree) : FreeRun heap 1 s := by
  constructor
  · exact inside
  · intro j lo hi
    obtain rfl : j = s := by omega
    exact free

theorem secondLive_run : HeapRun twoBlocks secondLive [⟨0x2000, 1⟩] := by
  have first : (heapMalloc twoBlocks 1).1 = 0x1000 := by decide
  have second : (heapMalloc (heapMalloc twoBlocks 1).2 1).1 = 0x2000 := by decide
  have one : HeapRun twoBlocks _ _ :=
    .malloc 1 .created (by decide) ⟨0, freeRun_single (by decide) (by decide)⟩
  have two := HeapRun.malloc 1 one (by decide) ⟨1, freeRun_single (by decide) (by decide)⟩
  rw [first, second] at two
  exact HeapRun.free ⟨0x1000, 1⟩ two (by simp)

/-- Freed once more, the first block takes its live neighbour with it. -/
theorem freed_twice_frees_neighbour :
    HeapReachable secondLive ∧ HeapRun twoBlocks secondLive [⟨0x2000, 1⟩] ∧
      ¬ (Allocation.mk 0x2000 1).Has 0x1000 ∧ ¬ FreeHarmless secondLive 0x1000 := by
  refine ⟨?_, secondLive_run, ?_, ?_⟩
  · exact .free _ (.malloc _ (.malloc _ (.created twoBlocks_created)))
  · show ¬ (0x1000 - 0x2000 : UInt32).toNat < 4096 * blocksNeeded 1
    decide
  · intro harmless
    exact absurd (harmless.kept 1 (by decide)) (by decide)

end PeachOs
