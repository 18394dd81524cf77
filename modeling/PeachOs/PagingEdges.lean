import PeachOs.PagingFree
import PeachOs.HeapLaws

/-!
# The edges of the page tables

Reading an entry back, ranges that are reversed or pass the top of memory, and a
heap without room for an address space.
-/

namespace PeachOs

open Memory Address

/-! ## Reading an entry -/

/-- What is read after an entry was set: the entry at its page, and what was
there before at the others. The indexes of `u` are in the tables. -/
structure GetRight (m : Ram) (directory virt entry u : UInt32) : Prop where
  written : (pagingSet m directory virt entry).1 = peachosAllOk →
    pagingGet (pagingSet m directory virt entry).2 directory virt = entry
  others : (pagingSet m directory virt entry).1 = peachosAllOk → ∀ v, v % 4096 = 0 → v ≠ virt →
    pagingGet (pagingSet m directory virt entry).2 directory v = pagingGet m directory v
  indexes : (pagingGetIndexes u).1.toNat < 1024 ∧ (pagingGetIndexes u).2.toNat < 1024

theorem pagingGetIndexes_inside (u : UInt32) :
    ((pagingGetIndexes u).1.toNat < 1024 ∧ (pagingGetIndexes u).2.toNat < 1024) ↔
      u.toNat % 4096 < 1024 := by
  have hlt := u.toNat_lt
  have table : (pagingGetIndexes u).1.toNat = u.toNat / 0x400000 := by
    rw [pagingGetIndexes, UInt32.toNat_div]
    rfl
  have page : (pagingGetIndexes u).2.toNat = u.toNat % 4096 := by
    rw [pagingGetIndexes, UInt32.toNat_mod]
    rfl
  rw [table, page]
  omega

section

variable {m : Ram} {chunk directory virt : UInt32} {tables : Nat → UInt32}

/-- What `paging_get` reads after one `paging_set`. -/
theorem pagingGet_set (space : AddressSpace m chunk directory tables) (aligned : virt % 4096 = 0)
    (entry : UInt32) {v : UInt32} (hv : v % 4096 = 0) :
    (pagingSet m directory virt entry).1 = peachosAllOk ∧
      pagingGet (pagingSet m directory virt entry).2 directory v =
        if v.toNat / 0x400000 = virt.toNat / 0x400000 ∧ virt.toNat % 0x400000 / 0x1000 = 0 then entry
        else pagingGet m directory v := by
  obtain ⟨m', run, set⟩ := pagingSet_spec space aligned entry
  have read := set.entries _ (walk_indexes v).1 0 (by decide)
  rw [run, pagingGet_aligned _ _ hv, pagingGet_aligned _ _ hv, read]
  constructor
  · rfl
  · simp only [eq_comm]

theorem getRight_iff (space : AddressSpace m chunk directory tables) (aligned : virt % 4096 = 0)
    (entry u : UInt32) :
    GetRight m directory virt entry u ↔
      tableEntry m directory (virt.toNat / 0x400000) 0 = entry ∧ u.toNat % 4096 < 1024 := by
  have at_page := aligned_toNat.mp aligned
  rw [← pagingGet_aligned m directory aligned, ← pagingGetIndexes_inside]
  obtain ⟨success, own⟩ := pagingGet_set space aligned entry aligned
  constructor
  · intro right
    refine ⟨?_, right.indexes⟩
    by_cases first : virt.toNat % 0x400000 / 0x1000 = 0
    · -- the second page of the table reads the entry of the first
      have second : (virt + 0x1000).toNat = virt.toNat + 0x1000 := by
        have hlt := virt.toNat_lt
        rw [UInt32.toNat_add]
        simp only [UInt32.reduceToNat]
        omega
      have second_aligned : (virt + 0x1000) % 4096 = 0 := by
        rw [aligned_toNat, second]
        omega
      have same : (virt + 0x1000).toNat / 0x400000 = virt.toNat / 0x400000 := by omega
      obtain ⟨_, read⟩ := pagingGet_set space aligned entry second_aligned
      have kept := right.others success _ second_aligned (by
        intro equal
        have equal := congrArg UInt32.toNat equal
        omega)
      rw [read, if_pos ⟨same, first⟩, pagingGet_aligned m directory second_aligned, same,
        ← pagingGet_aligned m directory aligned] at kept
      exact kept.symm
    · have written := right.written success
      rw [own, if_neg fun both => first both.2] at written
      exact written
  · rintro ⟨same, indexes⟩
    refine ⟨fun _ => ?_, fun _ v hv ne => ?_, indexes⟩
    · rw [own]
      split
      · rfl
      · exact same
    · obtain ⟨_, read⟩ := pagingGet_set space aligned entry hv
      rw [read]
      split
      · rename_i here
        rw [pagingGet_aligned m directory hv, here.1, ← pagingGet_aligned m directory aligned, same]
      · rfl

end

section

variable {H : Type} {A : Allocator H} {h : H}

/-- **Reading back.** On a new chunk after any calls, the entry just set is read
and the others are as before exactly when the table's first entry was equal to
it already. -/
theorem pagingGet_right_iff (fresh : FreshBlocks A h pagingRequests 1026) (m : Ram) (flags : UInt8)
    (calls : List ChunkCall) {virt : UInt32} (aligned : virt % 4096 = 0) (entry u : UInt32) :
    let chunk := (pagingNew4gb A h m flags).1
    let m' := runChunkCalls (pagingNew4gb A h m flags).2.2 chunk calls
    GetRight m' (load32 m' chunk) virt entry u ↔
      tableEntry m' (load32 m' chunk) (virt.toNat / 0x400000) 0 = entry ∧ u.toNat % 4096 < 1024 := by
  obtain ⟨m₁, run, built⟩ := pagingNew4gb_spec A fresh m flags
  have space := runChunkCalls_space calls built.space
  rw [run]
  dsimp only
  rw [space.chunk_entry]
  exact getRight_iff space aligned entry u

end

theorem newHeap_paging : FreshBlocks kernelAllocator newHeap pagingRequests 1026 :=
  kernelHeap_paging _ _

/-- On the kernel's heap, after a page of the table was set to what its first entry is. -/
theorem kernel_chunk_read_back :
    let chunk := (pagingNew4gb kernelAllocator newHeap (fun _ => 0) 5).1
    let m' := runChunkCalls (pagingNew4gb kernelAllocator newHeap (fun _ => 0) 5).2.2 chunk
      [.set 0x1000 5]
    GetRight m' (load32 m' chunk) 0x2000 5 0x1003 ↔
      tableEntry m' (load32 m' chunk) ((0x2000 : UInt32).toNat / 0x400000) 0 = 5 ∧
        (0x1003 : UInt32).toNat % 4096 < 1024 :=
  pagingGet_right_iff newHeap_paging (fun _ => 0) 5 [.set 0x1000 5] (by decide) 5 0x1003

/-- The second page of a new chunk is set and the first one is read. -/
theorem second_page_not_read :
    let chunk := (pagingNew4gb kernelAllocator newHeap (fun _ => 0) 5).1
    let m' := (pagingNew4gb kernelAllocator newHeap (fun _ => 0) 5).2.2
    ¬ GetRight m' (load32 m' chunk) 0x1000 0x9003 0 := by
  obtain ⟨m₁, run, built⟩ := pagingNew4gb_spec kernelAllocator newHeap_paging (fun _ => 0) 5
  rw [run]
  dsimp only
  rw [built.space.chunk_entry, getRight_iff built.space (by decide)]
  intro both
  have first := built.entries 0 (by decide) 0 (by decide)
  exact absurd (first.symm.trans both.1) (by decide)

/-! ## Ranges -/

/-- Only the pages between `phy` and `phyEnd` are mapped, and a range that is
reversed or passes the top of the address space is refused. -/
structure MapToRight (m : Ram) (chunk virt phy phyEnd : UInt32) (flags : Int) : Prop where
  only : ∀ v, (∀ k : Nat, 4096 * k < phyEnd.toNat - phy.toNat → frame v ≠ virt + .ofNat (4096 * k)) →
    walk (pagingMapTo m chunk virt phy phyEnd flags).2 (load32 m chunk) v = walk m (load32 m chunk) v
  refused : phyEnd < phy ∨ 2 ^ 32 < virt.toNat + (phyEnd.toNat - phy.toNat) →
    (pagingMapTo m chunk virt phy phyEnd flags).1 < 0 ∧
      ∀ v, walk (pagingMapTo m chunk virt phy phyEnd flags).2 (load32 m chunk) v =
        walk m (load32 m chunk) v

/-- A page of the window is one of those counted from its start. -/
theorem inWindow_page {v virt : UInt32} {count : Nat} (aligned : virt % 4096 = 0)
    (inside : InWindow v virt count) : ∃ k < count, frame v = virt + .ofNat (4096 * k) := by
  have h := aligned_toNat.mp aligned
  have hv := v.toNat_lt
  obtain ⟨lo, hi⟩ := inside
  refine ⟨(v.toNat - virt.toNat) / 4096, by omega, ?_⟩
  apply UInt32.toNat_inj.mp
  rw [frame_toNat, UInt32.toNat_add, UInt32.toNat_ofNat']
  omega

theorem mapToRight_iff {m : Ram} {chunk directory virt phy phyEnd : UInt32} {tables : Nat → UInt32}
    (space : AddressSpace m chunk directory tables) (flags : Int) (hv : virt % 4096 = 0)
    (hp : phy % 4096 = 0) (he : phyEnd % 4096 = 0) :
    MapToRight m chunk virt phy phyEnd flags ↔
      phy ≤ phyEnd ∧ virt.toNat + (phyEnd.toNat - phy.toNat) ≤ 2 ^ 32 := by
  constructor
  · intro right
    have accepted (refused : phyEnd < phy ∨ 2 ^ 32 < virt.toNat + (phyEnd.toNat - phy.toNat)) : False := by
      have negative := (right.refused refused).1
      rw [pagingMapTo_range m chunk flags hv hp he] at negative
      exact absurd negative (Int.lt_irrefl 0)
    constructor
    · apply UInt32.not_lt.mp
      intro reversed
      exact accepted (Or.inl reversed)
    · apply Nat.not_lt.mp
      intro past
      exact accepted (Or.inr past)
  · rintro ⟨ordered, fit⟩
    obtain ⟨m', run, mapped⟩ := pagingMapTo_spec space flags hv hp he ordered fit
    constructor
    · intro v outside
      rw [run, space.chunk_entry, mapped.walk, if_neg]
      intro inside
      obtain ⟨k, hk, page⟩ := inWindow_page hv inside
      unfold pagesBetween at hk
      exact outside k (by omega) page
    · rintro (reversed | past)
      · exact absurd ordered (UInt32.not_le.mpr reversed)
      · omega

/-- **A range** is mapped right on a new chunk, after any calls, exactly when it
is neither reversed nor passes the top of the address space. -/
theorem pagingMapTo_right_iff {H : Type} {A : Allocator H} {h : H}
    (fresh : FreshBlocks A h pagingRequests 1026) (m : Ram) (flags : UInt8) (calls : List ChunkCall)
    {virt phy phyEnd : UInt32} (mapFlags : Int) (hv : virt % 4096 = 0) (hp : phy % 4096 = 0)
    (he : phyEnd % 4096 = 0) :
    let chunk := (pagingNew4gb A h m flags).1
    let m' := runChunkCalls (pagingNew4gb A h m flags).2.2 chunk calls
    MapToRight m' chunk virt phy phyEnd mapFlags ↔
      phy ≤ phyEnd ∧ virt.toNat + (phyEnd.toNat - phy.toNat) ≤ 2 ^ 32 := by
  obtain ⟨m₁, run, built⟩ := pagingNew4gb_spec A fresh m flags
  rw [run]
  exact mapToRight_iff (runChunkCalls_space calls built.space) mapFlags hv hp he

theorem kernel_chunk_range :
    let chunk := (pagingNew4gb kernelAllocator newHeap (fun _ => 0) 5).1
    let m' := runChunkCalls (pagingNew4gb kernelAllocator newHeap (fun _ => 0) 5).2.2 chunk
      [.set 0x1000 5]
    MapToRight m' chunk 0x400000 0x2000 0x5000 7 ↔
      (0x2000 : UInt32) ≤ 0x5000 ∧
        (0x400000 : UInt32).toNat + ((0x5000 : UInt32).toNat - (0x2000 : UInt32).toNat) ≤ 2 ^ 32 :=
  pagingMapTo_right_iff newHeap_paging (fun _ => 0) 5 [.set 0x1000 5] 7 (by decide) (by decide) (by decide)

/-- A range that ends before it starts is accepted. -/
theorem reversed_range_accepted :
    let chunk := (pagingNew4gb kernelAllocator newHeap (fun _ => 0) 5).1
    let m' := (pagingNew4gb kernelAllocator newHeap (fun _ => 0) 5).2.2
    (pagingMapTo m' chunk 0x400000 0x2000 0x1000 7).1 = 0 ∧
      ¬ MapToRight m' chunk 0x400000 0x2000 0x1000 7 := by
  dsimp only
  generalize (pagingNew4gb kernelAllocator newHeap (fun _ => 0) 5).1 = chunk
  generalize (pagingNew4gb kernelAllocator newHeap (fun _ => 0) 5).2.2 = m'
  have accepted : (pagingMapTo m' chunk 0x400000 0x2000 0x1000 7).1 = 0 := by
    rw [pagingMapTo_range m' chunk 7 (by decide) (by decide) (by decide)]
  constructor
  · exact accepted
  · intro right
    have negative := (right.refused (Or.inl (by decide))).1
    rw [accepted] at negative
    exact absurd negative (by decide)

/-! ## Without room -/

/-- NULL, nothing written through it, and the table is as before. -/
structure NewUndone (heap : Heap) (flags : UInt8) : Prop where
  null : ∀ m, (pagingNew4gb kernelAllocator heap m flags).1 = 0
  unwritten : ∀ m x, x.toNat < 4096 → (pagingNew4gb kernelAllocator heap m flags).2.2 x = m x
  table : ∀ m i, (pagingNew4gb kernelAllocator heap m flags).2.1.table.entries i = heap.table.entries i

section

variable {heap heap' : Heap} {marks : List Nat}

/-- With every free entry marked there is no free block. -/
theorem Marked.full (marked : Marked heap heap' marks) (all : marks.length = (freeEntries heap).length) :
    ∀ k, k ∉ heap'.freeBlocks := by
  rintro k ⟨inside, free⟩
  obtain ⟨unmarked, free⟩ := (marked.entry_free k).mp free
  rw [marked.shape.2] at inside
  have grown : (k :: marks).Nodup := List.nodup_cons.mpr ⟨unmarked, marked.nodup⟩
  have within : k :: marks ⊆ freeEntries heap := by
    intro i mem
    cases mem with
    | head => exact mem_freeEntries.mpr ⟨inside, free⟩
    | tail _ mem => exact marked.free i mem
  have length := (List.subperm_of_subset grown within).length_le
  simp only [List.length_cons] at length
  omega

theorem loggedHeap_heap (start : LoggedHeap) (sizes : Nat → UInt32) (n : Nat) :
    (loggedHeap.after start sizes n).heap = kernelAllocator.after start.heap sizes n := by
  induction n with
  | zero => rfl
  | succ n ih =>
    show (heapMalloc (loggedHeap.after start sizes n).heap (sizes n)).2 = _
    rw [ih]
    rfl

/-- A heap with no free block answers every later request of a block with NULL. -/
theorem requests_null {sizes : Nat → UInt32} (block : ∀ i, 1 ≤ (sizes i).toNat ∧ (sizes i).toNat ≤ 4096)
    {n : Nat} (full : ∀ k, k ∉ (kernelAllocator.after heap sizes n).freeBlocks) (later : Nat) :
    (∀ k, k ∉ (kernelAllocator.after heap sizes (n + later)).freeBlocks) ∧
      kernelAllocator.pointer heap sizes (n + later) = 0 := by
  have refused (i : Nat) (none : ∀ k, k ∉ (kernelAllocator.after heap sizes i).freeBlocks) :=
    heapMalloc_full (block i).2 (block i).1 none
  induction later with
  | zero => exact ⟨full, congrArg Prod.fst (refused n full)⟩
  | succ later ih =>
    have same : kernelAllocator.after heap sizes (n + later + 1) =
        kernelAllocator.after heap sizes (n + later) := congrArg Prod.snd (refused _ ih.1)
    have none : ∀ k, k ∉ (kernelAllocator.after heap sizes (n + later + 1)).freeBlocks := by
      rw [same]
      exact ih.1
    exact ⟨none, congrArg Prod.fst (refused _ none)⟩

/-- A request after as many as there were free blocks fails. -/
theorem pointer_null (placed : Placed heap) {sizes : Nat → UInt32}
    (block : ∀ i, 1 ≤ (sizes i).toNat ∧ (sizes i).toNat ≤ 4096) {n : Nat}
    (few : (freeEntries heap).length ≤ n) : kernelAllocator.pointer heap sizes n = 0 := by
  obtain ⟨marks, marked, length, _⟩ := @loggedHeap_requests heap placed ⟨heap, [], []⟩ rfl
    sizes block (freeEntries heap).length (Nat.le_refl _)
  rw [loggedHeap_heap] at marked
  obtain ⟨later, rfl⟩ := Nat.exists_eq_add_of_le few
  exact (requests_null block (marked.full length) later).2

/-- Whatever word is stored through NULL, some memory had another byte there. -/
theorem not_undone_of_null (null : kernelAllocator.pointer heap pagingRequests 1025 = 0) (flags : UInt8) :
    ¬ NewUndone heap flags := by
  intro undone
  have kept := undone.unwritten
    (fun _ => (kernelAllocator.pointer heap pagingRequests 0).toUInt8 + 1) 0 (by decide)
  obtain ⟨m₃, run⟩ := @pagingNew4gb_requests _ kernelAllocator heap
    (fun _ => (kernelAllocator.pointer heap pagingRequests 0).toUInt8 + 1) flags
  have byte (d : UInt32) : store32 m₃ 0 d 0 = d.toUInt8 := by
    simp [store32]
  rw [run] at kept
  dsimp only at kept
  rw [null, byte] at kept
  grind

/-- **Without room** for its 1026 blocks `paging_new_4gb` never fails cleanly: it
stores the directory's address through the NULL chunk. -/
theorem pagingNew4gb_not_undone (kernel : KernelHeap heap) (few : (freeEntries heap).length < 1026)
    (flags : UInt8) : ¬ NewUndone heap flags := by
  apply not_undone_of_null
  apply pointer_null kernel.placed pagingRequests_block
  exact Nat.le_of_lt_succ few

end

/-- After 25600 requests of a block each none is left. -/
theorem filledHeap_crowded : KernelHeap (filledHeap 25600) ∧ (freeEntries (filledHeap 25600)).length = 0 := by
  obtain ⟨kernel, packed⟩ := filledHeap_packed (Nat.le_refl 25600)
  constructor
  · exact kernel
  · apply List.length_eq_zero_iff.mpr
    apply List.eq_nil_iff_forall_not_mem.mpr
    intro i mem
    obtain ⟨inside, free⟩ := mem_freeEntries.mp mem
    rw [kernel.total] at inside
    rw [packed.taken i inside] at free
    exact absurd free (by decide)

theorem filledHeap_not_undone : ¬ NewUndone (filledHeap 25600) 7 := by
  obtain ⟨kernel, none⟩ := filledHeap_crowded
  apply pagingNew4gb_not_undone kernel
  rw [none]
  decide

/-- On the full heap every pointer is NULL, and word 0 is overwritten with one. -/
theorem full_heap_written_at_null :
    KernelHeap (filledHeap 25600) ∧ (freeEntries (filledHeap 25600)).length < 1026 ∧
      ¬ NewUndone (filledHeap 25600) 5 := by
  obtain ⟨kernel, none⟩ := filledHeap_crowded
  refine ⟨kernel, by omega, ?_⟩
  apply not_undone_of_null
  apply pointer_null kernel.placed pagingRequests_block
  omega

end PeachOs
