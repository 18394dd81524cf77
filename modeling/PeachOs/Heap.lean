import PeachOs.Config
import PeachOs.Lib.FirstFit
import PeachOs.Lib.Address
import Mathlib.Logic.Function.Basic

/-!
# The block heap

`heap.c`: a table with one byte for each 4096-byte block of a pool. The
functions keep the loops of the source; each is described once, by
`searchForContiguousBlocks_spec`, `updateHeapTable_entries` and
`heapFree_entries`, and callers use only these.
-/

namespace PeachOs

open Function (update)

def heapBlockTableEntryTaken : UInt8 := 0x01
def heapBlockTableEntryFree : UInt8 := 0x00
def heapBlockHasNext : UInt8 := 0b10000000
def heapBlockIsLast : UInt8 := 0b01000000

def entryNext : UInt8 := heapBlockTableEntryTaken ||| heapBlockHasNext
def entryLast : UInt8 := heapBlockTableEntryTaken ||| heapBlockIsLast

/-- `entries` is the memory from the table's pointer on, so that it also has
the bytes at and after `total`. -/
structure HeapTable where
  entries : Nat → UInt8
  total : UInt32

structure Heap where
  table : HeapTable
  saddr : UInt32

def Heap.setEntries (heap : Heap) (entries : Nat → UInt8) : Heap :=
  { heap with table := { heap.table with entries } }

@[simp] theorem Heap.setEntries_entries (heap : Heap) (entries : Nat → UInt8) :
    (heap.setEntries entries).table.entries = entries := rfl

@[simp] theorem Heap.setEntries_total (heap : Heap) (entries : Nat → UInt8) :
    (heap.setEntries entries).table.total = heap.table.total := rfl

@[simp] theorem Heap.setEntries_saddr (heap : Heap) (entries : Nat → UInt8) :
    (heap.setEntries entries).saddr = heap.saddr := rfl

def initializeHeapTable (table : HeapTable) : HeapTable :=
  { table with
    entries := fun i => if i < table.total.toNat then heapBlockTableEntryFree else table.entries i }

/-- `tableMem` is the memory at `heapTableStAddr`. A refused size leaves the heap as it was. -/
def createHeap (heap : Heap) (tableMem : Nat → UInt8) (startAddr endAddr : UInt32) : Int × Heap :=
  if (endAddr - startAddr + 1) % heapBlockSizeBytes ≠ 0 then (-einvarg, heap)
  else
    (0, ⟨initializeHeapTable ⟨tableMem, (endAddr - startAddr + 1) / heapBlockSizeBytes⟩, startAddr⟩)

def blocksToAllocate (bytes : UInt32) : UInt32 :=
  if bytes % heapBlockSizeBytes = 0 then bytes / heapBlockSizeBytes
  else (bytes + (heapBlockSizeBytes - bytes % heapBlockSizeBytes)) / heapBlockSizeBytes

/-- The loop of `searchForContiguousBlocks` from entry `i` on, with `left` entries to go. -/
def searchFrom (entries : Nat → UInt8) (blocks : Nat) : (left i : Nat) → (bs : Int) → (bc : Nat) → Int
  | 0, _, bs, _ => bs
  | left + 1, i, bs, bc =>
    if entries i ||| heapBlockTableEntryFree = 0 then
      let bs := if bc = 0 then (i : Int) else bs
      let bc := bc + 1
      if bc = blocks then bs else searchFrom entries blocks left (i + 1) bs bc
    else searchFrom entries blocks left (i + 1) (-1) 0

def searchForContiguousBlocks (heap : Heap) (blocks : UInt32) : Int :=
  searchFrom heap.table.entries blocks.toNat heap.table.total.toNat 0 (-1) 0

/-- `n` steps of the marking loop from entry `i` on. -/
def markNext (entries : Nat → UInt8) (i : Nat) : Nat → Nat → UInt8
  | 0 => entries
  | n + 1 => markNext (update entries i entryNext) (i + 1) n

/-- The bound `stIndex + blocks - 1` is computed in 32 bits, and the loop
compares unsigned values. -/
def updateHeapTableOfAllocation (heap : Heap) (stIndex blocks : UInt32) : Heap :=
  let last := (stIndex + blocks - 1).toNat
  let entries := markNext heap.table.entries stIndex.toNat (last - stIndex.toNat)
  heap.setEntries (update entries last entryLast)

/-- A NULL pointer is 0. -/
def heapMalloc (heap : Heap) (bytes : UInt32) : UInt32 × Heap :=
  let blocks := blocksToAllocate bytes
  let si := searchForContiguousBlocks heap blocks
  if si = -1 then (0, heap)
  else
    (heap.saddr + .ofInt si * heapBlockSizeBytes,
      updateHeapTableOfAllocation heap (.ofInt si) blocks)

/-- The loop of `HeapFree` with `left` entries to go: the entries it clears and `last`. -/
def freeFrom (entries : Nat → UInt8) (last : Nat) : (left i : Nat) → (Nat → UInt8) × Nat
  | 0, _ => (entries, last)
  | left + 1, i =>
    if entries i &&& heapBlockIsLast = heapBlockIsLast then (entries, i)
    else freeFrom (update entries i heapBlockTableEntryFree) last left (i + 1)

/-- The entry `HeapFree` starts at. -/
def Heap.blockIndex (heap : Heap) (addr : UInt32) : Nat :=
  ((addr - heap.saddr) / heapBlockSizeBytes).toNat

def heapFree (heap : Heap) (addr : UInt32) : Int × Heap :=
  if addr % heapBlockSizeBytes ≠ 0 then (-einvarg, heap)
  else
    let si := heap.blockIndex addr
    let (entries, last) := freeFrom heap.table.entries si (heap.table.total.toNat - si) si
    (0, heap.setEntries (update entries last heapBlockTableEntryFree))

/-- `KheapInit` over the memory at the heap table's address. -/
def kheapInit (kernelHeap : Heap) (tableMem : Nat → UInt8) : Heap :=
  (createHeap kernelHeap tableMem heapStartAddr (heapStartAddr + heapSizeInBytes - 1)).2

/-- The functions write entries only. -/
theorem heapMalloc_shape (heap : Heap) (bytes : UInt32) :
    (heapMalloc heap bytes).2.saddr = heap.saddr ∧
      (heapMalloc heap bytes).2.table.total = heap.table.total := by
  dsimp only [heapMalloc]
  split <;> exact ⟨rfl, rfl⟩

theorem heapFree_shape (heap : Heap) (addr : UInt32) :
    (heapFree heap addr).2.saddr = heap.saddr ∧
      (heapFree heap addr).2.table.total = heap.table.total := by
  unfold heapFree
  split <;> exact ⟨rfl, rfl⟩

/-! ## The scan -/

/-- `k` consecutive free entries of the table from `s` on. -/
def FreeRun (heap : Heap) (k s : Nat) : Prop :=
  s + k ≤ heap.table.total.toNat ∧
    ∀ j, s ≤ j → j < s + k → heap.table.entries j = heapBlockTableEntryFree

/-- What the scan knows at entry `i`: `bc` counts the free entries that end
there, `bs` is where they start, and no earlier run was long enough. -/
structure Scanned (entries : Nat → UInt8) (blocks i : Nat) (bs : Int) (bc : Nat) : Prop where
  count : bc ≤ i
  free : ∀ j, i - bc ≤ j → j < i → entries j = heapBlockTableEntryFree
  maximal : bc < i → entries (i - bc - 1) ≠ heapBlockTableEntryFree
  start : bs = if bc = 0 then -1 else ((i - bc : Nat) : Int)
  short : blocks = 0 ∨
    ∀ s, s + blocks ≤ i → ∃ j, s ≤ j ∧ j < s + blocks ∧ entries j ≠ heapBlockTableEntryFree

theorem Scanned.count_lt {entries : Nat → UInt8} {blocks i : Nat} {bs : Int} {bc : Nat}
    (h : Scanned entries blocks i bs bc) (hb : 0 < blocks) : bc < blocks := by
  by_contra hle
  have hcount := h.count
  rcases h.short with h0 | h0
  · omega
  · obtain ⟨j, lo, hi, taken⟩ := h0 (i - blocks) (by omega)
    exact taken (h.free j (by omega) (by omega))

theorem Scanned.skip {entries : Nat → UInt8} {blocks i : Nat} {bs : Int} {bc : Nat}
    (h : Scanned entries blocks i bs bc) (taken : entries i ≠ heapBlockTableEntryFree) :
    Scanned entries blocks (i + 1) (-1) 0 := by
  refine ⟨by omega, by omega, fun _ => by simpa using taken, rfl, ?_⟩
  by_cases hb : blocks = 0
  · exact Or.inl hb
  · refine Or.inr fun s hs => ?_
    by_cases earlier : s + blocks ≤ i
    · exact (h.short.resolve_left hb) s earlier
    · exact ⟨i, by omega, by omega, taken⟩

theorem Scanned.extend {entries : Nat → UInt8} {blocks i : Nat} {bs : Int} {bc : Nat}
    (h : Scanned entries blocks i bs bc) (free : entries i = heapBlockTableEntryFree)
    (more : bc + 1 ≠ blocks) :
    Scanned entries blocks (i + 1) (if bc = 0 then (i : Int) else bs) (bc + 1) := by
  have hcount := h.count
  refine ⟨by omega, ?_, ?_, ?_, ?_⟩
  · intro j lo hi
    by_cases hj : j = i
    · rw [hj, free]
    · exact h.free j (by omega) (by omega)
  · intro hlt
    rw [show i + 1 - (bc + 1) - 1 = i - bc - 1 by omega]
    exact h.maximal (by omega)
  · rw [h.start]
    by_cases hc : bc = 0
    · simp [hc]
    · simp only [hc, if_false, Nat.add_eq_zero_iff, Nat.one_ne_zero, and_false]
      omega
  · by_cases hb : blocks = 0
    · exact Or.inl hb
    · refine Or.inr fun s hs => ?_
      have hlt := h.count_lt (Nat.pos_of_ne_zero hb)
      by_cases earlier : s + blocks ≤ i
      · exact (h.short.resolve_left hb) s earlier
      · exact ⟨i - bc - 1, by omega, by omega, h.maximal (by omega)⟩

/-- The run that ends the scan is the lowest one. -/
theorem Scanned.found {entries : Nat → UInt8} {blocks i : Nat} {bs : Int} {bc : Nat}
    (total : Nat) (h : Scanned entries blocks i bs bc) (free : entries i = heapBlockTableEntryFree)
    (done : bc + 1 = blocks) (hi : i < total) :
    (if bc = 0 then (i : Int) else bs) = ((i - bc : Nat) : Int) ∧
    IsLeast {s | s + blocks ≤ total ∧
      ∀ j, s ≤ j → j < s + blocks → entries j = heapBlockTableEntryFree} (i - bc) := by
  have hcount := h.count
  refine ⟨?_, ⟨by omega, ?_⟩, ?_⟩
  · rw [h.start]
    by_cases hc : bc = 0
    · simp [hc]
    · simp [hc]
  · intro j lo hj
    by_cases he : j = i
    · rw [he, free]
    · exact h.free j lo (by omega)
  · rintro s ⟨_, run⟩
    by_contra lower
    obtain ⟨j, lo, hj, taken⟩ := h.short.resolve_left (by omega) s (by omega)
    exact taken (run j lo hj)

theorem searchFrom_spec {entries : Nat → UInt8} {blocks total : Nat} (left : Nat) {i : Nat}
    {bs : Int} {bc : Nat} (h : Scanned entries blocks i bs bc) (hi : i + left = total) :
    (0 < blocks ∧ ∃ s : Nat, searchFrom entries blocks left i bs bc = s ∧
      IsLeast {s | s + blocks ≤ total ∧
        ∀ j, s ≤ j → j < s + blocks → entries j = heapBlockTableEntryFree} s) ∨
    ∃ bc', Scanned entries blocks total (searchFrom entries blocks left i bs bc) bc' := by
  induction left generalizing i bs bc with
  | zero =>
    rw [Nat.add_zero] at hi
    exact Or.inr ⟨bc, hi ▸ h⟩
  | succ left ih =>
    simp only [searchFrom, heapBlockTableEntryFree, UInt8.or_zero]
    by_cases free : entries i = 0
    · simp only [free, if_true]
      by_cases done : bc + 1 = blocks
      · rw [if_pos done]
        obtain ⟨value, least⟩ := h.found total free done (by omega)
        exact Or.inl ⟨by omega, _, value, least⟩
      · rw [if_neg done]
        exact ih (h.extend free done) (by omega)
    · rw [if_neg free]
      exact ih (h.skip free) (by omega)

theorem scanned_start (entries : Nat → UInt8) (blocks : Nat) : Scanned entries blocks 0 (-1) 0 := by
  refine ⟨by omega, by omega, by omega, rfl, ?_⟩
  by_cases hb : blocks = 0
  · exact Or.inl hb
  · exact Or.inr fun s hs => by omega

/-- Where the free entries at the end of the table start; `total` when the last
entry is taken. -/
structure TailStart (heap : Heap) (t : Nat) : Prop where
  le : t ≤ heap.table.total.toNat
  free : ∀ j, t ≤ j → j < heap.table.total.toNat → heap.table.entries j = heapBlockTableEntryFree
  maximal : 0 < t → heap.table.entries (t - 1) ≠ heapBlockTableEntryFree

/-- With a long enough run the scan returns the lowest one. -/
theorem search_found (heap : Heap) (blocks : UInt32) (hb : 0 < blocks.toNat)
    (fits : ∃ s, FreeRun heap blocks.toNat s) :
    ∃ s : Nat, searchForContiguousBlocks heap blocks = s ∧
      IsLeast {s | FreeRun heap blocks.toNat s} s := by
  rcases searchFrom_spec heap.table.total.toNat (scanned_start heap.table.entries blocks.toNat)
    (Nat.zero_add _) with ⟨-, found⟩ | ⟨bc, scanned⟩
  · exact found
  · obtain ⟨s, inside, run⟩ := fits
    obtain ⟨j, lo, hj, taken⟩ := scanned.short.resolve_left (by omega) s inside
    exact absurd (run j lo hj) taken

/-- Without one it returns the start of the free entries at the end of the
table, and -1 only when there are none. -/
theorem search_missed (heap : Heap) (blocks : UInt32)
    (none : blocks.toNat = 0 ∨ ∀ s, ¬ FreeRun heap blocks.toNat s) :
    ∃ t, TailStart heap t ∧
      searchForContiguousBlocks heap blocks = if t = heap.table.total.toNat then -1 else (t : Int) := by
  rcases searchFrom_spec heap.table.total.toNat (scanned_start heap.table.entries blocks.toNat)
    (Nat.zero_add _) with ⟨pos, s, _, least⟩ | ⟨bc, scanned⟩
  · rcases none with zero | none
    · omega
    · exact absurd least.1 (none s)
  · have hcount := scanned.count
    refine ⟨heap.table.total.toNat - bc, ⟨by omega, scanned.free, fun h => ?_⟩, ?_⟩
    · exact scanned.maximal (by omega)
    · refine scanned.start.trans ?_
      by_cases hc : bc = 0
      · simp [hc]
      · rw [if_neg hc, if_neg (by omega)]

/-! ## The marking and the clearing loop -/

theorem markNext_apply (entries : Nat → UInt8) (i n j : Nat) :
    markNext entries i n j = if i ≤ j ∧ j < i + n then entryNext else entries j := by
  induction n generalizing entries i with
  | zero => simp [markNext, show ¬ (i ≤ j ∧ j < i) by omega]
  | succ n ih =>
    rw [markNext, ih]
    by_cases hj : j = i
    · subst hj
      simp
    · rw [Function.update_of_ne hj]
      by_cases inside : i + 1 ≤ j ∧ j < i + 1 + n
      · rw [if_pos inside, if_pos (by omega)]
      · rw [if_neg inside, if_neg (by omega)]

/-- Every entry after a marking, for any start and count. -/
theorem updateHeapTable_entries (heap : Heap) (stIndex blocks : UInt32) :
    updateHeapTableOfAllocation heap stIndex blocks = heap.setEntries fun j =>
      if j = (stIndex + blocks - 1).toNat then entryLast
      else if stIndex.toNat ≤ j ∧ j < (stIndex + blocks - 1).toNat then entryNext
      else heap.table.entries j := by
  rw [updateHeapTableOfAllocation]
  congr 1
  funext j
  by_cases hj : j = (stIndex + blocks - 1).toNat
  · rw [hj, Function.update_self, if_pos rfl]
  · rw [Function.update_of_ne hj, if_neg hj, markNext_apply]
    by_cases inside : stIndex.toNat ≤ j ∧ j < (stIndex + blocks - 1).toNat
    · rw [if_pos inside, if_pos (by omega)]
    · rw [if_neg inside, if_neg (by omega)]

theorem freeFrom_run (n : Nat) (entries : Nat → UInt8) (last left i : Nat) (hn : n < left)
    (body : ∀ j, i ≤ j → j < i + n → entries j &&& heapBlockIsLast ≠ heapBlockIsLast)
    (stop : entries (i + n) &&& heapBlockIsLast = heapBlockIsLast) :
    freeFrom entries last left i =
      (fun j => if i ≤ j ∧ j < i + n then heapBlockTableEntryFree else entries j, i + n) := by
  induction n generalizing entries left i with
  | zero =>
    obtain ⟨left, rfl⟩ : ∃ l, left = l + 1 := ⟨left - 1, by omega⟩
    rw [Nat.add_zero] at stop
    rw [freeFrom, if_pos stop]
    simp [show ∀ j, ¬ (i ≤ j ∧ j < i) by omega]
  | succ n ih =>
    obtain ⟨left, rfl⟩ : ∃ l, left = l + 1 := ⟨left - 1, by omega⟩
    have far : i + 1 + n ≠ i := by omega
    rw [freeFrom, if_neg (body i (by omega) (by omega)), ih _ _ _ (by omega)]
    · refine Prod.ext (funext fun j => ?_) (by dsimp only; omega)
      dsimp only
      by_cases hj : j = i
      · subst hj
        simp
      · rw [Function.update_of_ne hj]
        by_cases inside : i + 1 ≤ j ∧ j < i + 1 + n
        · rw [if_pos inside, if_pos (by omega)]
        · rw [if_neg inside, if_neg (by omega)]
    · intro j lo hi
      rw [Function.update_of_ne (by omega)]
      exact body j (by omega) (by omega)
    · rw [Function.update_of_ne far, show i + 1 + n = i + (n + 1) by omega]
      exact stop

/-- Freeing the start of a run of `n` entries without the last mark, followed by
one with it, clears the run and nothing else. -/
theorem heapFree_entries (heap : Heap) (addr : UInt32) (n : Nat)
    (aligned : addr % heapBlockSizeBytes = 0)
    (inside : heap.blockIndex addr + n < heap.table.total.toNat)
    (body : ∀ j, heap.blockIndex addr ≤ j → j < heap.blockIndex addr + n →
      heap.table.entries j &&& heapBlockIsLast ≠ heapBlockIsLast)
    (stop : heap.table.entries (heap.blockIndex addr + n) &&& heapBlockIsLast = heapBlockIsLast) :
    (heapFree heap addr).2 = heap.setEntries fun j =>
      if heap.blockIndex addr ≤ j ∧ j ≤ heap.blockIndex addr + n
      then heapBlockTableEntryFree else heap.table.entries j := by
  have loop := freeFrom_run n heap.table.entries (heap.blockIndex addr)
    (heap.table.total.toNat - heap.blockIndex addr) (heap.blockIndex addr) (by omega) body stop
  simp only [heapFree, aligned, ne_eq, not_true, if_false, loop]
  congr 1
  funext j
  by_cases hj : j = heap.blockIndex addr + n
  · rw [hj, Function.update_self, if_pos (by omega)]
  · rw [Function.update_of_ne hj]
    by_cases within : heap.blockIndex addr ≤ j ∧ j < heap.blockIndex addr + n
    · rw [if_pos within, if_pos (by omega)]
    · rw [if_neg within, if_neg (by omega)]

/-! ## Sizes -/

/-- Blocks of 4096 bytes that hold `bytes` bytes. -/
def blocksNeeded (bytes : UInt32) : Nat := (bytes.toNat + 4095) / 4096

/-- The rounding is exact until it passes 2^32, where it gives 0. -/
theorem blocksToAllocate_toNat (bytes : UInt32) :
    (blocksToAllocate bytes).toNat = if blocksNeeded bytes < 2 ^ 20 then blocksNeeded bytes else 0 := by
  have hlt := bytes.toNat_lt
  unfold blocksToAllocate blocksNeeded heapBlockSizeBytes
  split
  · rename_i exact
    have hmod : bytes.toNat % 4096 = 0 := by
      have := congrArg UInt32.toNat exact
      simpa using this
    simp
    split <;> omega
  · rename_i rest
    have hmod : bytes.toNat % 4096 ≠ 0 := by
      intro h
      apply rest
      apply UInt32.toNat_inj.mp
      simpa using h
    have hsub : ((4096 : UInt32) - bytes % 4096).toNat = 4096 - bytes.toNat % 4096 := by
      rw [UInt32.toNat_sub_of_le]
      · simp
      · rw [UInt32.le_iff_toNat_le]
        simp
        omega
    rw [UInt32.toNat_div, UInt32.toNat_add, hsub]
    simp
    split <;> omega

/-- The bytes of a block or fewer. -/
theorem blocksNeeded_one {n : UInt32} (positive : 1 ≤ n.toNat) (small : n.toNat ≤ 4096) : blocksNeeded n = 1 := by
  unfold blocksNeeded
  omega

theorem blocksToAllocate_one {n : UInt32} (positive : 1 ≤ n.toNat) (small : n.toNat ≤ 4096) :
    (blocksToAllocate n).toNat = 1 := by
  rw [blocksToAllocate_toNat, blocksNeeded_one positive small]
  exact if_pos (by decide)

/-- What `HeapMalloc` does with a start the scan returned. -/
theorem heapMalloc_of_search {heap : Heap} {bytes : UInt32} {s : Nat}
    (found : searchForContiguousBlocks heap (blocksToAllocate bytes) = s) :
    heapMalloc heap bytes = (heap.saddr + .ofNat (4096 * s),
      updateHeapTableOfAllocation heap (.ofNat s) (blocksToAllocate bytes)) := by
  have scale : UInt32.ofNat s * heapBlockSizeBytes = .ofNat (4096 * s) := by
    apply UInt32.toNat_inj.mp
    simp only [UInt32.toNat_mul, UInt32.toNat_ofNat', heapBlockSizeBytes, UInt32.reduceToNat]
    omega
  simp only [heapMalloc, found, show ¬ (s : Int) = -1 by omega, if_false, Address.ofInt_natCast,
    scale]

end PeachOs
