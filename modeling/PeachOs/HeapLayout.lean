import PeachOs.Heap

/-!
# The heap table is the layout of the live allocations

The table is compared with a first-fit pool: `Represents` says that each live
allocation is a run of entries ended by the last mark and that every other
entry is free. `malloc_represents` and `free_represents` are the two steps,
`run_represents` the run.
-/

namespace PeachOs

open FirstFit Address

/-- A pointer `HeapMalloc` returned and the bytes it was asked for. -/
structure Allocation where
  ptr : UInt32
  bytes : UInt32
  deriving DecidableEq, Repr

def Allocation.blocks (a : Allocation) : Nat := blocksNeeded a.bytes

def Heap.blockOf (heap : Heap) (a : Allocation) : Block := ⟨heap.blockIndex a.ptr, a.blocks⟩

/-- Runs of calls: a request of at least one byte for which some long enough
run of free entries exists, or the release of a live pointer. -/
inductive HeapRun (h₀ : Heap) : Heap → List Allocation → Prop
  | created : HeapRun h₀ h₀ []
  | malloc {heap : Heap} {live : List Allocation} (n : UInt32) (run : HeapRun h₀ heap live)
      (positive : 1 ≤ n.toNat) (fits : ∃ s, FreeRun heap (blocksNeeded n) s) :
      HeapRun h₀ (heapMalloc heap n).2 (live ++ [⟨(heapMalloc heap n).1, n⟩])
  | free {heap : Heap} {live : List Allocation} (a : Allocation) (run : HeapRun h₀ heap live)
      (mem : a ∈ live) : HeapRun h₀ (heapFree heap a.ptr).2 (live.erase a)

/-- What `CreateHeap` fixes: fewer than 2^20 blocks, from an aligned start. -/
structure Placed (heap : Heap) : Prop where
  total : heap.table.total.toNat < 2 ^ 20
  aligned : heap.saddr.toNat % 4096 = 0

/-- The table is exactly the layout of the live allocations `p`. -/
structure Represents (heap : Heap) (live : List Allocation) (p : Pool) : Prop where
  total : p.total = heap.table.total.toNat
  blocks : p.live = live.map heap.blockOf
  ptr : ∀ a ∈ live, a.ptr = heap.saddr + .ofNat (4096 * heap.blockIndex a.ptr)
  positive : ∀ a ∈ live, 1 ≤ a.bytes.toNat
  last : ∀ b ∈ p.live, heap.table.entries (b.start + b.len - 1) = entryLast
  next : ∀ b ∈ p.live, ∀ i, b.start ≤ i → i + 1 < b.start + b.len →
    heap.table.entries i = entryNext
  free : ∀ i, i < p.total → p.Free i → heap.table.entries i = heapBlockTableEntryFree

theorem Represents.free_iff {heap : Heap} {live : List Allocation} {p : Pool}
    (rep : Represents heap live p) {i : Nat} (hi : i < p.total) :
    heap.table.entries i = heapBlockTableEntryFree ↔ p.Free i := by
  refine ⟨fun zero b hb covers => ?_, rep.free i hi⟩
  obtain ⟨lo, hlt⟩ := covers
  by_cases end_ : i + 1 < b.start + b.len
  · have taken := rep.next b hb i lo end_
    rw [zero] at taken
    exact absurd taken (by decide)
  · have taken := rep.last b hb
    rw [show b.start + b.len - 1 = i by omega, zero] at taken
    exact absurd taken (by decide)

theorem Represents.freeRun_iff {heap : Heap} {live : List Allocation} {p : Pool}
    (rep : Represents heap live p) {k : Nat} (hk : 0 < k) (s : Nat) :
    FreeRun heap k s ↔ p.Fits k s := by
  rw [p.fits_iff_free hk, FreeRun, rep.total]
  refine and_congr_right fun inside => forall_congr' fun j => ?_
  refine imp_congr_right fun _ => imp_congr_right fun hj => ?_
  exact rep.free_iff (by rw [rep.total]; omega)

/-- The address of block `s`, and back. -/
theorem blockIndex_addr (heap : Heap) {s : Nat} (hs : s < 2 ^ 20) :
    heap.blockIndex (heap.saddr + .ofNat (4096 * s)) = s := by
  have back : heap.saddr + .ofNat (4096 * s) - heap.saddr = .ofNat (4096 * s) := by grind
  rw [Heap.blockIndex, back, UInt32.toNat_div, UInt32.toNat_ofNat']
  simp only [heapBlockSizeBytes, UInt32.reduceToNat]
  omega

theorem addr_aligned {heap : Heap} (placed : Placed heap) (s : Nat) :
    (heap.saddr + .ofNat (4096 * s)) % heapBlockSizeBytes = 0 := by
  have aligned := placed.aligned
  apply UInt32.toNat_inj.mp
  rw [UInt32.toNat_mod, UInt32.toNat_add, UInt32.toNat_ofNat']
  simp only [heapBlockSizeBytes, UInt32.reduceToNat]
  omega

/-- A fitting request: the lowest run is marked, and its address returned. -/
theorem heapMalloc_fits {heap : Heap} (placed : Placed heap) {n : UInt32} (positive : 1 ≤ n.toNat)
    (fits : ∃ s, FreeRun heap (blocksNeeded n) s) :
    ∃ s, IsLeast {s | FreeRun heap (blocksNeeded n) s} s ∧
      (heapMalloc heap n).1 = heap.saddr + .ofNat (4096 * s) ∧
      (heapMalloc heap n).2 = heap.setEntries fun j =>
        if j = s + blocksNeeded n - 1 then entryLast
        else if s ≤ j ∧ j < s + blocksNeeded n - 1 then entryNext
        else heap.table.entries j := by
  have total := placed.total
  have pos : 0 < blocksNeeded n := by unfold blocksNeeded; omega
  have small : blocksNeeded n < 2 ^ 20 := by
    obtain ⟨s, inside, _⟩ := fits
    omega
  have blocks : (blocksToAllocate n).toNat = blocksNeeded n := by
    rw [blocksToAllocate_toNat, if_pos small]
  rw [← blocks] at fits
  obtain ⟨s, found, least⟩ := search_found heap (blocksToAllocate n) (by omega) fits
  rw [blocks] at least
  have inside := least.1.1
  have index : (UInt32.ofNat s).toNat = s := by
    rw [UInt32.toNat_ofNat']
    omega
  have bound : (UInt32.ofNat s + blocksToAllocate n - 1).toNat = s + blocksNeeded n - 1 := by
    rw [UInt32.toNat_sub, UInt32.toNat_add, index, blocks]
    simp only [UInt32.reduceToNat]
    omega
  rw [heapMalloc_of_search found]
  refine ⟨s, least, rfl, ?_⟩
  rw [updateHeapTable_entries, bound, index]

/-- A fitting request adds its block to the pool. -/
theorem malloc_represents {heap : Heap} {live : List Allocation} {p : Pool} (placed : Placed heap)
    (rep : Represents heap live p) {n : UInt32} (positive : 1 ≤ n.toNat)
    (fits : ∃ s, FreeRun heap (blocksNeeded n) s) :
    Placed (heapMalloc heap n).2 ∧
      ∃ p', Represents (heapMalloc heap n).2 (live ++ [⟨(heapMalloc heap n).1, n⟩]) p' := by
  have pos : 0 < blocksNeeded n := by unfold blocksNeeded; omega
  obtain ⟨s, least, ptr, after⟩ := heapMalloc_fits placed positive fits
  have room : p.Fits (blocksNeeded n) s := (rep.freeRun_iff pos s).mp least.1
  have bound := placed.total
  have inside := least.1.1
  have index := blockIndex_addr heap (s := s) (by omega)
  rw [ptr, after]
  refine ⟨⟨placed.total, placed.aligned⟩, p.alloc (blocksNeeded n) s pos room, ?_⟩
  constructor
  · exact rep.total
  · rw [List.map_append, Pool.alloc_live, rep.blocks]
    simp only [List.map_cons, List.map_nil, Heap.blockOf, Allocation.blocks, Heap.blockIndex,
      Heap.setEntries_saddr] at index ⊢
    rw [index]
    rfl
  · intro a ha
    rcases List.mem_append.mp ha with ha | ha
    · exact rep.ptr a ha
    · rw [List.mem_singleton.mp ha]
      simp only [Heap.blockIndex, Heap.setEntries_saddr] at index ⊢
      rw [index]
  · intro a ha
    rcases List.mem_append.mp ha with ha | ha
    · exact rep.positive a ha
    · rw [List.mem_singleton.mp ha]
      exact positive
  · intro b hb
    rcases List.mem_append.mp hb with hb | hb
    · have away := room.2 b hb
      have nonempty := p.inside b hb
      simp only [Block.Apart] at away
      rw [Heap.setEntries_entries, if_neg (by omega), if_neg (by omega)]
      exact rep.last b hb
    · rw [List.mem_singleton.mp hb, Heap.setEntries_entries, if_pos rfl]
  · intro b hb i lo hi
    rcases List.mem_append.mp hb with hb | hb
    · have away := room.2 b hb
      simp only [Block.Apart] at away
      rw [Heap.setEntries_entries, if_neg (by omega), if_neg (by omega)]
      exact rep.next b hb i lo hi
    · rw [List.mem_singleton.mp hb] at lo hi
      dsimp only at lo hi
      rw [Heap.setEntries_entries, if_neg (by omega), if_pos (by omega)]
  · intro i hi free
    have outside : ¬ (s ≤ i ∧ i < s + blocksNeeded n) :=
      free ⟨s, blocksNeeded n⟩ (List.mem_append_right _ List.mem_cons_self)
    rw [Heap.setEntries_entries, if_neg (by omega), if_neg (by omega)]
    exact rep.free i hi fun b hb => free b (List.mem_append_left _ hb)

/-- Taking one element's image out of a list without repeated images. -/
theorem map_erase_of_nodup {α β : Type} [DecidableEq α] [DecidableEq β] (f : α → β) {l : List α}
    (nodup : (l.map f).Nodup) {a : α} (ha : a ∈ l) : (l.map f).erase (f a) = (l.erase a).map f := by
  induction l with
  | nil => cases ha
  | cons x xs ih =>
    rw [List.map_cons, List.nodup_cons] at nodup
    by_cases hx : x = a
    · subst hx
      simp
    · have hmem : a ∈ xs := (List.mem_cons.mp ha).resolve_left (Ne.symm hx)
      have hf : f x ≠ f a := fun e => nodup.1 (e ▸ List.mem_map_of_mem hmem)
      rw [List.map_cons, List.erase_cons_tail (by simpa using hf),
        List.erase_cons_tail (by simpa using hx), List.map_cons, ih nodup.2 hmem]

/-- Releasing a live pointer takes its block back. -/
theorem free_represents {heap : Heap} {live : List Allocation} {p : Pool} (placed : Placed heap)
    (rep : Represents heap live p) {a : Allocation} (mem : a ∈ live) :
    Placed (heapFree heap a.ptr).2 ∧
      Represents (heapFree heap a.ptr).2 (live.erase a) (p.free (heap.blockOf a)) := by
  have hb : heap.blockOf a ∈ p.live := by
    rw [rep.blocks]
    exact List.mem_map_of_mem mem
  obtain ⟨nonempty, inside⟩ := p.inside _ hb
  have total := rep.total
  have bound := placed.total
  have ptr := rep.ptr a mem
  have last := rep.last _ hb
  have next := rep.next _ hb
  simp only [Heap.blockOf] at nonempty inside last next
  have cleared := heapFree_entries heap a.ptr (a.blocks - 1)
    (by rw [ptr]; exact addr_aligned placed _) (by omega)
    (fun j lo hj => by rw [next j lo (by omega)]; decide)
    (by rw [show heap.blockIndex a.ptr + (a.blocks - 1) = heap.blockIndex a.ptr + a.blocks - 1 by
      omega, last]; decide)
  rw [cleared]
  refine ⟨⟨placed.total, placed.aligned⟩, ?_⟩
  -- blocks other than the released one keep their entries
  have other : ∀ c ∈ p.live.erase (heap.blockOf a), c ∈ p.live ∧
      ∀ i, c.Covers i → ¬ (heap.blockIndex a.ptr ≤ i ∧
        i ≤ heap.blockIndex a.ptr + (a.blocks - 1)) := by
    intro c hc
    obtain ⟨ne, hc⟩ := (List.Nodup.mem_erase_iff p.nodup).mp hc
    refine ⟨hc, fun i covers within => ?_⟩
    have away := (p.apart_of_mem hc hb ne).not_covers covers
    simp only [Block.Covers, Heap.blockOf] at away
    omega
  constructor
  · exact rep.total
  · rw [Pool.free_live, rep.blocks]
    exact map_erase_of_nodup _ (rep.blocks ▸ p.nodup) mem
  · intro c hc
    exact rep.ptr c (List.mem_of_mem_erase hc)
  · intro c hc
    exact rep.positive c (List.mem_of_mem_erase hc)
  · intro c hc
    obtain ⟨hc, keep⟩ := other c hc
    have nonempty := p.inside c hc
    rw [Heap.setEntries_entries, if_neg (keep _ ⟨by omega, by omega⟩)]
    exact rep.last c hc
  · intro c hc i lo hi
    obtain ⟨hc, keep⟩ := other c hc
    rw [Heap.setEntries_entries, if_neg (keep _ ⟨lo, by omega⟩)]
    exact rep.next c hc i lo hi
  · intro i hi free
    rw [Heap.setEntries_entries]
    by_cases within : heap.blockIndex a.ptr ≤ i ∧ i ≤ heap.blockIndex a.ptr + (a.blocks - 1)
    · rw [if_pos within]
    · rw [if_neg within]
      refine rep.free i hi fun c hc covers => ?_
      by_cases same : c = heap.blockOf a
      · subst same
        simp only [Block.Covers, Heap.blockOf] at covers
        omega
      · exact free c ((List.Nodup.mem_erase_iff p.nodup).mpr ⟨same, hc⟩) covers

theorem createHeap_saddr {old heap : Heap} {tableMem : Nat → UInt8} {startAddr endAddr : UInt32}
    (created : createHeap old tableMem startAddr endAddr = (0, heap)) : heap.saddr = startAddr := by
  unfold createHeap at created
  split at created
  · simp [einvarg] at created
  · cases created
    rfl

theorem createHeap_placed {old heap : Heap} {tableMem : Nat → UInt8} {startAddr endAddr : UInt32}
    (created : createHeap old tableMem startAddr endAddr = (0, heap))
    (aligned : startAddr.toNat % 4096 = 0) :
    Placed heap ∧ Represents heap [] (Pool.empty heap.table.total.toNat) := by
  unfold createHeap at created
  split at created
  · simp [einvarg] at created
  · simp only [Prod.mk.injEq, true_and] at created
    subst created
    refine ⟨⟨?_, aligned⟩, ?_⟩
    · have hlt := (endAddr - startAddr + 1).toNat_lt
      simp only [initializeHeapTable, UInt32.toNat_div, heapBlockSizeBytes, UInt32.reduceToNat]
      omega
    · constructor <;> simp [Pool.empty, initializeHeapTable]
      intro i hi _ late
      omega

theorem run_saddr {h₀ heap : Heap} {live : List Allocation} (run : HeapRun h₀ heap live) :
    heap.saddr = h₀.saddr := by
  induction run with
  | created => rfl
  | malloc n _ _ _ ih => rw [(heapMalloc_shape _ n).1, ih]
  | free a _ _ ih => rw [(heapFree_shape _ a.ptr).1, ih]

theorem run_total {h₀ heap : Heap} {live : List Allocation} (run : HeapRun h₀ heap live) :
    heap.table.total = h₀.table.total := by
  induction run with
  | created => rfl
  | malloc n _ _ _ ih => rw [(heapMalloc_shape _ n).2, ih]
  | free a _ _ ih => rw [(heapFree_shape _ a.ptr).2, ih]

theorem run_represents {h₀ heap : Heap} {live : List Allocation} (placed : Placed h₀)
    (start : Represents h₀ [] (Pool.empty h₀.table.total.toNat)) (run : HeapRun h₀ heap live) :
    Placed heap ∧ ∃ p, Represents heap live p := by
  induction run with
  | created => exact ⟨placed, _, start⟩
  | malloc n run positive fits ih =>
    obtain ⟨placed, p, rep⟩ := ih
    exact malloc_represents placed rep positive fits
  | free a run mem ih =>
    obtain ⟨placed, p, rep⟩ := ih
    obtain ⟨placed, rep⟩ := free_represents placed rep mem
    exact ⟨placed, _, rep⟩

/-- The bytes of an allocation. -/
def Allocation.Has (a : Allocation) (x : UInt32) : Prop := InRange x a.ptr (4096 * a.blocks)

/-- Each byte of an allocation lies in its block of the pool. -/
theorem Represents.has {heap : Heap} {live : List Allocation} {p : Pool} (placed : Placed heap)
    (rep : Represents heap live p) {a : Allocation} (mem : a ∈ live) {x : UInt32} (hx : a.Has x) :
    InRange x heap.saddr (4096 * heap.table.total.toNat) ∧
      (heap.blockOf a).Covers ((x - heap.saddr).toNat / 4096) := by
  have hb : heap.blockOf a ∈ p.live := by
    rw [rep.blocks]
    exact List.mem_map_of_mem mem
  have inside := (p.inside _ hb).2
  rw [rep.total] at inside
  have bound := placed.total
  simp only [Heap.blockOf] at inside
  unfold Allocation.Has at hx
  rw [rep.ptr a mem] at hx
  obtain ⟨distance, within⟩ := inRange_offset (4096 * heap.table.total.toNat) hx
    (by omega) (by omega)
  refine ⟨within, ?_⟩
  unfold InRange at hx
  simp only [Block.Covers, Heap.blockOf]
  omega

/-- Releasing everything, in any order, is a run that ends with no live allocation. -/
theorem freeAll_run {h₀ : Heap} (order : List Allocation) {heap : Heap} {live : List Allocation}
    (run : HeapRun h₀ heap live) (perm : order.Perm live) :
    HeapRun h₀ (order.foldl (fun heap a => (heapFree heap a.ptr).2) heap) [] := by
  induction order generalizing heap live with
  | nil =>
    rw [List.nil_perm.mp perm] at run
    exact run
  | cons a order ih =>
    have mem : a ∈ live := perm.subset List.mem_cons_self
    exact ih (run.free a mem) (List.cons_perm_iff_perm_erase.mp perm).2

/-- The layout of the live allocations in a pool that starts at `startAddr`. -/
structure LaidOut (startAddr : UInt32) (heap : Heap) (live : List Allocation) : Prop where
  last : ∀ a ∈ live, heap.table.entries (heap.blockIndex a.ptr + a.blocks - 1) = entryLast
  next : ∀ a ∈ live, ∀ i, heap.blockIndex a.ptr ≤ i → i + 1 < heap.blockIndex a.ptr + a.blocks →
    heap.table.entries i = entryNext
  free : ∀ i, i < heap.table.total.toNat → (∀ a ∈ live, ¬ (heap.blockOf a).Covers i) →
    heap.table.entries i = heapBlockTableEntryFree
  disjoint : live.Pairwise fun a b => ∀ x, a.Has x → ¬ b.Has x
  inside : ∀ a ∈ live, ∀ x, a.Has x → InRange x startAddr (4096 * heap.table.total.toNat)
  start : ∀ a ∈ live, a.ptr = startAddr + .ofNat (4096 * heap.blockIndex a.ptr) ∧
    heap.blockIndex a.ptr + a.blocks ≤ heap.table.total.toNat
  covers : ∀ a ∈ live, a.bytes.toNat ≤ 4096 * a.blocks ∧ 4096 * a.blocks < a.bytes.toNat + 4096

theorem Represents.laidOut {heap : Heap} {live : List Allocation} {p : Pool}
    (placed : Placed heap) (rep : Represents heap live p) : LaidOut heap.saddr heap live := by
  have block : ∀ a ∈ live, heap.blockOf a ∈ p.live := by
    intro a ha
    rw [rep.blocks]
    exact List.mem_map_of_mem ha
  constructor
  · intro a ha
    exact rep.last _ (block a ha)
  · intro a ha
    exact rep.next _ (block a ha)
  · intro i hi uncovered
    refine rep.free i (by rw [rep.total]; exact hi) fun b hb => ?_
    rw [rep.blocks] at hb
    obtain ⟨a, ha, rfl⟩ := List.mem_map.mp hb
    exact uncovered a ha
  · have apart := p.apart
    rw [rep.blocks, List.pairwise_map] at apart
    refine apart.imp_of_mem fun ha hb h x hx hx' => ?_
    exact h.not_covers (rep.has placed ha hx).2 (rep.has placed hb hx').2
  · intro a ha x hx
    exact (rep.has placed ha hx).1
  · intro a ha
    refine ⟨rep.ptr a ha, ?_⟩
    rw [← rep.total]
    exact (p.inside _ (block a ha)).2
  · intro a _
    unfold Allocation.blocks blocksNeeded
    omega

/-- **The heap's layout.** After any run of fitting requests and releases from
a successful `CreateHeap`, the table is exactly the layout of the live
allocations; the next fitting request gets the lowest run that fits; and
releasing all live pointers in any order empties the table. -/
theorem heap_run_layout {old h₀ heap : Heap} {tableMem : Nat → UInt8}
    {startAddr endAddr : UInt32} {live : List Allocation}
    (created : createHeap old tableMem startAddr endAddr = (0, h₀))
    (aligned : startAddr.toNat % 4096 = 0) (run : HeapRun h₀ heap live) :
    LaidOut startAddr heap live ∧
    (∀ n : UInt32, 1 ≤ n.toNat → (∃ s, FreeRun heap (blocksNeeded n) s) →
      ∃ s, IsLeast {s | FreeRun heap (blocksNeeded n) s} s ∧
        (heapMalloc heap n).1 = startAddr + .ofNat (4096 * s)) ∧
    (∀ order : List Allocation, order.Perm live → ∀ i, i < heap.table.total.toNat →
      (order.foldl (fun heap a => (heapFree heap a.ptr).2) heap).table.entries i =
        heapBlockTableEntryFree) := by
  obtain ⟨placed₀, start⟩ := createHeap_placed created aligned
  obtain ⟨placed, p, rep⟩ := run_represents placed₀ start run
  have saddr : heap.saddr = startAddr := by
    rw [run_saddr run]
    exact createHeap_saddr created
  refine ⟨saddr ▸ rep.laidOut placed, ?_, ?_⟩
  · intro n positive fits
    obtain ⟨s, least, ptr, _⟩ := heapMalloc_fits placed positive fits
    exact ⟨s, least, saddr ▸ ptr⟩
  · intro order perm i hi
    have emptied := freeAll_run order run perm
    obtain ⟨_, p', rep'⟩ := run_represents placed₀ start emptied
    refine rep'.free i ?_ ?_
    · rw [rep'.total, run_total emptied, ← run_total run]
      exact hi
    · intro b hb
      rw [rep'.blocks] at hb
      cases hb

theorem kheapInit_created (tableMem : Nat → UInt8) (kernelHeap : Heap) :
    createHeap kernelHeap tableMem heapStartAddr (heapStartAddr + heapSizeInBytes - 1) =
      (0, kheapInit kernelHeap tableMem) := by
  rw [kheapInit, createHeap, if_neg (by decide)]

theorem kheapInit_total (kernelHeap : Heap) (tableMem : Nat → UInt8) :
    (kheapInit kernelHeap tableMem).table.total.toNat = 25600 := by
  rw [kheapInit, createHeap, if_neg (by decide)]
  rfl

theorem kheapInit_free (kernelHeap : Heap) (tableMem : Nat → UInt8) {k : Nat} (hk : k ≤ 25600) :
    FreeRun (kheapInit kernelHeap tableMem) k 0 := by
  have total := kheapInit_total kernelHeap tableMem
  refine ⟨by omega, fun j _ hj => ?_⟩
  rw [kheapInit, createHeap, if_neg (by decide)]
  exact if_pos (show j < 25600 by omega)

/-- After two blocks and their free, a block can be asked for. -/
theorem HeapRun.reuse {old h₀ : Heap} {tableMem : Nat → UInt8} {startAddr endAddr : UInt32}
    (created : createHeap old tableMem startAddr endAddr = (0, h₀)) (aligned : startAddr.toNat % 4096 = 0)
    (room : FreeRun h₀ 2 0) :
    HeapRun h₀ (heapMalloc (heapFree (heapMalloc h₀ 5000).2 (heapMalloc h₀ 5000).1).2 100).2
      [⟨(heapMalloc (heapFree (heapMalloc h₀ 5000).2 (heapMalloc h₀ 5000).1).2 100).1, 100⟩] := by
  have one : HeapRun h₀ (heapMalloc h₀ 5000).2 [⟨(heapMalloc h₀ 5000).1, 5000⟩] :=
    .malloc 5000 .created (by decide) ⟨0, room⟩
  have empty := one.free _ List.mem_cons_self
  rw [List.erase_cons_head] at empty
  obtain ⟨placed₀, start⟩ := createHeap_placed created aligned
  obtain ⟨_, p, rep⟩ := run_represents placed₀ start empty
  refine .malloc 100 empty (by decide) ⟨0, ?_, fun j _ inside => rep.free j ?_ fun b mem => ?_⟩
  · rw [run_total empty]
    exact Nat.le_trans (by decide) room.1
  · rw [rep.total, run_total empty]
    exact Nat.lt_of_lt_of_le (Nat.lt_trans inside (by decide)) room.1
  · rw [rep.blocks] at mem
    cases mem

/-- A two-block allocation on the kernel's fresh heap, its free, and a next one. -/
theorem kernel_heap_reused :
    let heap := kheapInit ⟨⟨fun _ => 0, 0⟩, 0⟩ fun _ => 0
    let freed := (heapFree (heapMalloc heap 5000).2 (heapMalloc heap 5000).1).2
    LaidOut heapStartAddr (heapMalloc freed 100).2 [⟨(heapMalloc freed 100).1, 100⟩] :=
  (heap_run_layout (kheapInit_created _ _) (by decide)
    (.reuse (kheapInit_created _ _) (by decide) (kheapInit_free _ _ (by decide)))).1

end PeachOs
