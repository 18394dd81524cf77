import PeachOs.TaskCopy
import PeachOs.Kernel
import Mathlib.Data.List.Nodup
import Mathlib.Data.List.Perm.Subperm

/-!
# Releasing an address space

The calls that map pages write in the tables only, so `paging_free_4gb` finds the
blocks that `paging_new_4gb` asked for, and the table is as before.
-/

namespace PeachOs

open Memory Address FirstFit

/-- A call on a chunk, with any arguments. -/
inductive ChunkCall
  | set (virt phy : UInt32)
  | map (call : PagingCall)

def ChunkCall.run (m : Ram) (chunk : UInt32) : ChunkCall → Int × Ram
  | set virt phy => pagingSet m (load32 m chunk) virt phy
  | map call => call.run m chunk

def runChunkCalls (m : Ram) (chunk : UInt32) (calls : List ChunkCall) : Ram :=
  calls.foldl (fun m call => (call.run m chunk).2) m

/-! ## The links stay -/

section

variable {m : Ram} {chunk directory : UInt32} {tables : Nat → UInt32}

theorem pagingSet_space (space : AddressSpace m chunk directory tables) (virt phy : UInt32) :
    AddressSpace (pagingSet m directory virt phy).2 chunk directory tables := by
  by_cases aligned : virt % 4096 = 0
  · obtain ⟨m', run, set⟩ := pagingSet_spec space aligned phy
    rw [run]
    exact set.space
  · have refused : pagingSet m directory virt phy = (-einvarg, m) := if_pos (Or.inl aligned)
    rw [refused]
    exact space

theorem pagingMap_space (space : AddressSpace m chunk directory tables) (virt phy : UInt32) (flags : Int) :
    AddressSpace (pagingMap m chunk virt phy flags).2 chunk directory tables := by
  unfold pagingMap
  split
  · exact space
  · rw [space.chunk_entry]
    exact pagingSet_space space virt _

theorem mapRangeFrom_space (flags : Int) (left : Nat) {m : Ram} (space : AddressSpace m chunk directory tables)
    (virt phy : UInt32) (res : Int) :
    AddressSpace (mapRangeFrom m chunk virt phy flags left res).2 chunk directory tables := by
  induction left generalizing m virt phy res with
  | zero => exact space
  | succ left ih =>
    have mapped := pagingMap_space space virt phy flags
    rw [mapRangeFrom]
    dsimp only
    split
    · exact mapped
    · exact ih mapped _ _ _

theorem ChunkCall.run_space (space : AddressSpace m chunk directory tables) (call : ChunkCall) :
    AddressSpace (call.run m chunk).2 chunk directory tables := by
  cases call with
  | set virt phy =>
    rw [ChunkCall.run, space.chunk_entry]
    exact pagingSet_space space virt phy
  | map call =>
    cases call with
    | map virt phy flags => exact pagingMap_space space virt phy flags
    | mapRange virt phy count flags => exact mapRangeFrom_space flags _ space virt phy 0
    | mapTo virt phy phyEnd flags =>
      have ranged := mapRangeFrom_space flags
        (((phyEnd - phy) / pageSizeInBytes).toNat : Int).toNat space virt phy 0
      rw [ChunkCall.run, PagingCall.run]
      unfold pagingMapTo
      split
      · exact space
      · split
        · exact space
        · split
          · exact space
          · dsimp only
            split <;> exact ranged

theorem runChunkCalls_space (calls : List ChunkCall) (space : AddressSpace m chunk directory tables) :
    AddressSpace (runChunkCalls m chunk calls) chunk directory tables := by
  induction calls generalizing m with
  | nil => exact space
  | cons call calls ih => exact ih (call.run_space space)

/-- The tables, the directory and the chunk are released, in this order. -/
theorem pagingFree4gb_frees {H : Type} (A : Allocator H) (h : H) (space : AddressSpace m chunk directory tables) :
    pagingFree4gb A h m chunk = ((List.range 1024).map tables ++ [directory, chunk]).foldl A.free h := by
  have entries : (heapBlockSizeBytes / sizeofUnsignedInt).toNat = 1024 := by decide
  have freed (n : Nat) (hn : n ≤ 1024) :
      freeTables A h m directory n = ((List.range n).map tables).foldl A.free h := by
    induction n with
    | zero => rfl
    | succ n ih =>
      have link := space.directory_entry n hn
      rw [frame] at link
      rw [freeTables, link, ih (by omega), List.range_succ, List.map_append, List.foldl_append]
      rfl
  simp only [pagingFree4gb, space.chunk_entry, entries, freed 1024 (Nat.le_refl _), List.foldl_append]
  rfl

end

/-- Builds an address space, runs the calls on it and releases it. -/
def buildAndFree {H : Type} (A : Allocator H) (h : H) (m : Ram) (flags : UInt8) (calls : List ChunkCall) : H :=
  let (chunk, h, m) := pagingNew4gb A h m flags
  pagingFree4gb A h (runChunkCalls m chunk calls) chunk

/-- The first goes behind the others, before the last. -/
theorem released_perm (g : Nat → UInt32) (n : Nat) :
    ((List.range n).map (fun i => g (i + 1)) ++ [g 0, g (n + 1)]).Perm ((List.range (n + 2)).map g) := by
  have inner : (List.range (n + 1)).map g = g 0 :: (List.range n).map fun i => g (i + 1) := by
    rw [List.range_succ_eq_map, List.map_cons, List.map_map]
    rfl
  rw [List.range_succ, List.map_append, inner, List.cons_append]
  exact List.perm_middle

theorem buildAndFree_frees {H : Type} {A : Allocator H} {h : H} (fresh : FreshBlocks A h pagingRequests 1026)
    (m : Ram) (flags : UInt8) (calls : List ChunkCall) :
    ∃ frees : List UInt32, buildAndFree A h m flags calls = frees.foldl A.free (A.after h pagingRequests 1026) ∧
      frees.Perm ((List.range 1026).map (A.pointer h pagingRequests)) := by
  obtain ⟨m', run, built⟩ := pagingNew4gb_spec A fresh m flags
  have frees := pagingFree4gb_frees A (A.after h pagingRequests 1026) (runChunkCalls_space calls built.space)
  refine ⟨(List.range 1024).map (fun i => A.pointer h pagingRequests (i + 1)) ++
    [A.pointer h pagingRequests 0, A.pointer h pagingRequests 1025], ?_, ?_⟩
  · rw [← frees, buildAndFree, run]
  · exact released_perm (A.pointer h pagingRequests) 1024

/-! ## Single blocks -/

/-- The kernel's heap with the pointers it handed out and took back, in order. -/
structure LoggedHeap where
  heap : Heap
  allocated : List UInt32
  freed : List UInt32

def loggedHeap : Allocator LoggedHeap where
  malloc h bytes :=
    let (ptr, heap) := heapMalloc h.heap bytes
    (ptr, { h with heap, allocated := h.allocated ++ [ptr] })
  free h ptr := { h with heap := (heapFree h.heap ptr).2, freed := h.freed ++ [ptr] }

/-- The free entries of the table. -/
def freeEntries (heap : Heap) : List Nat :=
  (List.range heap.table.total.toNat).filter fun i => heap.table.entries i = heapBlockTableEntryFree

theorem mem_freeEntries {heap : Heap} {i : Nat} : i ∈ freeEntries heap ↔
    i < heap.table.total.toNat ∧ heap.table.entries i = heapBlockTableEntryFree := by
  simp [freeEntries]

/-- `heap'` is `heap` with the free entries `marks` taken, a block each. -/
structure Marked (heap heap' : Heap) (marks : List Nat) : Prop where
  table : heap' = heap.setEntries fun j => if j ∈ marks then entryLast else heap.table.entries j
  free : ∀ i ∈ marks, i ∈ freeEntries heap
  nodup : marks.Nodup

theorem Marked.nil {heap heap' : Heap} : Marked heap heap' [] ↔ heap' = heap := by
  constructor
  · intro marked
    rw [marked.table]
    simp [Heap.setEntries]
  · rintro rfl
    refine ⟨?_, fun i mem => absurd mem List.not_mem_nil, List.nodup_nil⟩
    simp [Heap.setEntries]

section

variable {heap heap' : Heap} {marks : List Nat}

theorem Marked.placed (marked : Marked heap heap' marks) (placed : Placed heap) : Placed heap' := by
  rw [marked.table]
  exact ⟨placed.total, placed.aligned⟩

theorem Marked.shape (marked : Marked heap heap' marks) :
    heap'.saddr = heap.saddr ∧ heap'.table.total = heap.table.total := by
  rw [marked.table]
  exact ⟨rfl, rfl⟩

/-- A free entry is one that is not marked. -/
theorem Marked.entry_free (marked : Marked heap heap' marks) (i : Nat) :
    heap'.table.entries i = heapBlockTableEntryFree ↔
      i ∉ marks ∧ heap.table.entries i = heapBlockTableEntryFree := by
  rw [marked.table, Heap.setEntries_entries]
  by_cases mem : i ∈ marks
  · rw [if_pos mem]
    simp only [mem, not_true, false_and, iff_false]
    decide
  · rw [if_neg mem]
    simp [mem]

theorem Marked.malloc (marked : Marked heap heap' marks) (placed : Placed heap)
    (room : marks.length < (freeEntries heap).length) {n : UInt32} (positive : 1 ≤ n.toNat) (small : n.toNat ≤ 4096) :
    ∃ i, (heapMalloc heap' n).1 = heap.blockAddr i ∧ Marked heap (heapMalloc heap' n).2 (marks ++ [i]) := by
  have one : blocksNeeded n = 1 := blocksNeeded_one positive small
  have fits : ∃ s, FreeRun heap' (blocksNeeded n) s := by
    by_contra full
    have all : freeEntries heap ⊆ marks := by
      intro i mem
      by_contra unmarked
      obtain ⟨inside, free⟩ := mem_freeEntries.mp mem
      refine full ⟨i, ?_⟩
      rw [one]
      refine ⟨by rw [marked.shape.2]; omega, fun j lo hi => ?_⟩
      obtain rfl : j = i := by omega
      exact (marked.entry_free j).mpr ⟨unmarked, free⟩
    have nodup : (freeEntries heap).Nodup := List.nodup_range.filter _
    exact absurd (List.subperm_of_subset nodup all).length_le (Nat.not_le.mpr room)
  obtain ⟨i, least, ptr, after⟩ := heapMalloc_fits (marked.placed placed) positive fits
  rw [one] at least after
  obtain ⟨inside, run⟩ := least.1
  obtain ⟨fresh, free⟩ := (marked.entry_free i).mp (run i (Nat.le_refl i) (Nat.lt_succ_self i))
  rw [marked.shape.2] at inside
  refine ⟨i, ptr.trans (by rw [marked.shape.1]; rfl), ?_, fun j mem => ?_, ?_⟩
  · rw [after, marked.table]
    simp only [Heap.setEntries]
    congr 2
    funext j
    by_cases here : j = i
    · subst here
      simp
    · rw [if_neg (by omega), if_neg (by omega)]
      simp [here]
  · rcases List.mem_append.mp mem with mem | mem
    · exact marked.free j mem
    · rw [List.mem_singleton.mp mem]
      exact mem_freeEntries.mpr ⟨by omega, free⟩
  · exact List.nodup_append.mpr ⟨marked.nodup, List.nodup_singleton i, by grind⟩

theorem Marked.free_block (marked : Marked heap heap' marks) (placed : Placed heap) {i : Nat} (mem : i ∈ marks) :
    Marked heap (heapFree heap' (heap.blockAddr i)).2 (marks.erase i) := by
  obtain ⟨inside, free⟩ := mem_freeEntries.mp (marked.free i mem)
  have total := placed.total
  have index : heap'.blockIndex (heap.blockAddr i) = i := by
    rw [Heap.blockAddr, ← marked.shape.1]
    exact blockIndex_addr heap' (by omega)
  have aligned : heap.blockAddr i % heapBlockSizeBytes = 0 := addr_aligned placed i
  have taken : heap'.table.entries i = entryLast := by
    rw [marked.table, Heap.setEntries_entries, if_pos mem]
  have cleared := heapFree_entries heap' (heap.blockAddr i) 0 aligned
    (by rw [index, marked.shape.2]; omega) (fun j lo hi => by omega)
    (by rw [index, Nat.add_zero, taken]; decide)
  refine ⟨?_, fun j later => marked.free j (List.mem_of_mem_erase later), marked.nodup.erase i⟩
  rw [cleared, index, marked.table]
  simp only [Heap.setEntries]
  congr 2
  funext j
  by_cases here : j = i
  · subst here
    simp [marked.nodup.not_mem_erase, free]
  · rw [if_neg (by omega)]
    simp [List.mem_erase_of_ne here]

/-! ## Requests and releases -/

theorem loggedHeap_next (start : LoggedHeap) (sizes : Nat → UInt32) (n : Nat) :
    (loggedHeap.after start sizes (n + 1)).allocated =
      (loggedHeap.after start sizes n).allocated ++ [loggedHeap.pointer start sizes n] := rfl

theorem loggedHeap_requests (placed : Placed heap) {start : LoggedHeap} (table : start.heap = heap) {sizes : Nat → UInt32}
    (block : ∀ i, 1 ≤ (sizes i).toNat ∧ (sizes i).toNat ≤ 4096) (n : Nat) (room : n ≤ (freeEntries heap).length) :
    ∃ marks, Marked heap (loggedHeap.after start sizes n).heap marks ∧ marks.length = n ∧
      (List.range n).map (loggedHeap.pointer start sizes) = marks.map heap.blockAddr ∧
      (loggedHeap.after start sizes n).allocated = start.allocated ++ marks.map heap.blockAddr ∧
      (loggedHeap.after start sizes n).freed = start.freed := by
  induction n with
  | zero => exact ⟨[], Marked.nil.mpr table, rfl, rfl, (List.append_nil _).symm, rfl⟩
  | succ n ih =>
    obtain ⟨marks, marked, length, pointers, allocated, freed⟩ := ih (by omega)
    obtain ⟨i, ptr, marked'⟩ := marked.malloc placed (by omega) (block n).1 (block n).2
    refine ⟨marks ++ [i], marked', by rw [List.length_append, length]; rfl, ?_, ?_, freed⟩
    · rw [List.range_succ, List.map_append, List.map_append, pointers]
      exact congrArg (marks.map heap.blockAddr ++ [·]) ptr
    · rw [loggedHeap_next, allocated, List.map_append, ← List.append_assoc]
      exact congrArg (start.allocated ++ marks.map heap.blockAddr ++ [·]) ptr

/-- Releasing the marked blocks in any order. -/
theorem Marked.free_all (placed : Placed heap) (frees : List UInt32) {h : LoggedHeap} {marks : List Nat}
    (marked : Marked heap h.heap marks) (perm : frees.Perm (marks.map heap.blockAddr)) :
    frees.foldl loggedHeap.free h = ⟨heap, h.allocated, h.freed ++ frees⟩ := by
  induction frees generalizing h marks with
  | nil =>
    have none : marks = [] := List.map_eq_nil_iff.mp (List.nil_perm.mp perm)
    subst none
    rw [List.append_nil, ← Marked.nil.mp marked]
    rfl
  | cons p frees ih =>
    obtain ⟨i, mem, rfl⟩ := List.mem_map.mp (perm.subset List.mem_cons_self)
    have rest : frees.Perm ((marks.erase i).map heap.blockAddr) := by
      have split := (List.perm_cons_erase mem).map heap.blockAddr
      rw [List.map_cons] at split
      exact (perm.trans split).cons_inv
    have later := ih (marked.free_block placed mem) (h := loggedHeap.free h (heap.blockAddr i)) rest
    rw [List.foldl_cons, later]
    simp [loggedHeap]

theorem blockAddr_inj (placed : Placed heap) {i j : Nat} (hi : i ∈ freeEntries heap) (hj : j ∈ freeEntries heap)
    (same : heap.blockAddr i = heap.blockAddr j) : i = j := by
  have total := placed.total
  have inside := (mem_freeEntries.mp hi).1
  have inside' := (mem_freeEntries.mp hj).1
  rw [← blockIndex_addr heap (s := i) (by omega), ← blockIndex_addr heap (s := j) (by omega)]
  exact congrArg heap.blockIndex same

theorem Marked.nodup_addr (marked : Marked heap heap' marks) (placed : Placed heap) :
    (marks.map heap.blockAddr).Nodup := by
  apply List.Nodup.map_on _ marked.nodup
  intro i hi j hj same
  exact blockAddr_inj placed (marked.free i hi) (marked.free j hj) same

theorem loggedHeap_fresh (placed : Placed heap) {start : LoggedHeap} (table : start.heap = heap)
    {sizes : Nat → UInt32} (block : ∀ i, 1 ≤ (sizes i).toNat ∧ (sizes i).toNat ≤ 4096) {n : Nat}
    (room : n ≤ (freeEntries heap).length) : FreshBlocks loggedHeap start sizes n := by
  obtain ⟨marks, marked, -, pointers, -, -⟩ := loggedHeap_requests placed table block n room
  have nodup := marked.nodup_addr placed
  rw [← pointers] at nodup
  constructor
  · intro i hi
    have mem : loggedHeap.pointer start sizes i ∈ marks.map heap.blockAddr := by
      rw [← pointers]
      exact List.mem_map_of_mem (List.mem_range.mpr hi)
    obtain ⟨s, -, addr⟩ := List.mem_map.mp mem
    rw [← addr]
    exact addr_aligned placed s
  · intro i hi j hj same
    exact List.inj_on_of_nodup_map nodup (List.mem_range.mpr hi) (List.mem_range.mpr hj) same

/-- **An address space is built, mapped and released without a trace in the table.**
Its 1026 blocks were free before, and each is released once. -/
theorem buildAndFree_restores (placed : Placed heap) (room : 1026 ≤ (freeEntries heap).length) (m : Ram)
    (flags : UInt8) (calls : List ChunkCall) :
    ∃ allocated freed : List UInt32, buildAndFree loggedHeap ⟨heap, [], []⟩ m flags calls = ⟨heap, allocated, freed⟩ ∧
      allocated.length = 1026 ∧ allocated.Nodup ∧ freed.Perm allocated ∧
      ∀ p ∈ allocated, heap.blockIndex p ∈ freeEntries heap := by
  have fresh := @loggedHeap_fresh heap placed ⟨heap, [], []⟩ rfl pagingRequests pagingRequests_block _ room
  obtain ⟨marks, marked, length, pointers, allocated, freed⟩ :=
    @loggedHeap_requests heap placed ⟨heap, [], []⟩ rfl pagingRequests pagingRequests_block 1026 room
  obtain ⟨frees, run, perm⟩ := buildAndFree_frees fresh m flags calls
  rw [pointers] at perm
  refine ⟨marks.map heap.blockAddr, frees, ?_, ?_, marked.nodup_addr placed, perm, ?_⟩
  · rw [run, marked.free_all placed frees perm, allocated, freed]
    rfl
  · rw [List.length_map, length]
  · intro p mem
    obtain ⟨i, marked', rfl⟩ := List.mem_map.mp mem
    have free := marked.free i marked'
    have total := placed.total
    have inside := (mem_freeEntries.mp free).1
    rw [Heap.blockAddr, blockIndex_addr heap (by omega)]
    exact free

end

theorem kheapInit_freeEntries (kernelHeap : Heap) (tableMem : Nat → UInt8) :
    (freeEntries (kheapInit kernelHeap tableMem)).length = 25600 := by
  have free := (kheapInit_free kernelHeap tableMem (k := 25600) (Nat.le_refl _)).2
  have all : freeEntries (kheapInit kernelHeap tableMem) = List.range 25600 := by
    rw [freeEntries, kheapInit_total]
    apply List.filter_eq_self.mpr
    intro i mem
    exact decide_eq_true (free i (Nat.zero_le i) (by simpa using mem))
  rw [all, List.length_range]

/-- The kernel's own directory, built at boot with flags 7, mapped once and released. -/
theorem kernelDirectory_restored : ∃ allocated freed,
    buildAndFree loggedHeap ⟨newHeap, [], []⟩ (fun _ => 0) 7 [.map (.map 0x400000 0x1400000 7)] =
        ⟨newHeap, allocated, freed⟩ ∧
      allocated.length = 1026 ∧ freed.Perm allocated := by
  have room : 1026 ≤ (freeEntries newHeap).length := by
    rw [newHeap, kheapInit_freeEntries]
    decide
  obtain ⟨allocated, freed, run, length, _, perm, _⟩ := buildAndFree_restores
    (kheapInit_packed _ _).placed room (fun _ => 0) 7 [.map (.map 0x400000 0x1400000 7)]
  exact ⟨allocated, freed, run, length, perm⟩

end PeachOs
