import PeachOs.FailedLoad
import PeachOs.FatBlocks

/-!
# Allocations of one block

On the kernel's heap an allocation of one block keeps its entry until it is
freed, whatever is requested meanwhile, granted or not, and whatever other such
blocks are freed.
-/

namespace PeachOs

open Function (update)

/-- `p` is an allocation of one block. -/
def Heap.Single (heap : Heap) (p : UInt32) : Prop :=
  ∃ k < heap.table.total.toNat, p = heap.blockAddr k ∧ heap.table.entries k = entryLast

section

variable {heap heap' : Heap} {p q : UInt32} {k : Nat}

theorem Heap.Single.inUse (single : heap.Single p) : heap.InUse p := by
  obtain ⟨k, inside, rfl, last⟩ := single
  refine ⟨k, inside, rfl, ?_⟩
  rw [last]
  decide

theorem Heap.Single.malloc (single : heap.Single p) (n : UInt32) : (heapMalloc heap n).2.Single p := by
  obtain ⟨k, inside, rfl, last⟩ := single
  obtain failed | ⟨s, start, run, free⟩ := heapMalloc_run heap n
  · rw [failed]
    exact ⟨k, inside, rfl, last⟩
  · have low := start.1
    have total := heap.table.total.toNat_lt
    have index : (UInt32.ofNat s).toNat = s := by
      rw [UInt32.toNat_ofNat']
      omega
    rw [run, updateHeapTable_entries, index]
    refine ⟨k, inside, rfl, ?_⟩
    simp only [Heap.setEntries_entries]
    split
    · rfl
    · split
      · rename_i within
        have was := free k within.1 within.2 inside
        rw [last] at was
        exact absurd was (by decide)
      · exact last

/-- A request of at most a block marks one block as the last of its run. -/
theorem heapMalloc_one (kernel : KernelHeap heap) {n : UInt32} (positive : 1 ≤ n.toNat) (small : n.toNat ≤ 4096) :
    heapMalloc heap n = (0, heap) ∨ ∃ s ∈ heap.freeBlocks,
      heapMalloc heap n = (heap.blockAddr s, heap.setEntries (update heap.table.entries s entryLast)) := by
  have one : (blocksToAllocate n).toNat = 1 := blocksToAllocate_one positive small
  obtain failed | ⟨s, start, run⟩ := heapMalloc_cases heap n
  · exact Or.inl failed
  · have inside := start.1
    rw [kernel.total] at inside
    have index : (UInt32.ofNat s).toNat = s := by
      rw [UInt32.toNat_ofNat']
      omega
    have last : (UInt32.ofNat s + blocksToAllocate n - 1).toNat = s := by
      rw [UInt32.toNat_sub, UInt32.toNat_add, index, one]
      simp only [UInt32.reduceToNat]
      omega
    refine Or.inr ⟨s, start, ?_⟩
    rw [run, updateHeapTable_entries, last, index]
    congr 2
    funext k
    by_cases here : k = s
    · rw [if_pos here, here, Function.update_self]
    · rw [if_neg here, if_neg (by omega), Function.update_of_ne here]

theorem heapMalloc_single (kernel : KernelHeap heap) {n : UInt32} (positive : 1 ≤ n.toNat)
    (small : n.toNat ≤ 4096) (nonzero : (heapMalloc heap n).1 ≠ 0) :
    (heapMalloc heap n).2.Single (heapMalloc heap n).1 := by
  obtain failed | ⟨s, start, run⟩ := heapMalloc_one kernel positive small
  · rw [failed] at nonzero
    exact absurd rfl nonzero
  · rw [run]
    refine ⟨s, start.1, rfl, ?_⟩
    rw [Heap.setEntries_entries, Function.update_self]

theorem heapMalloc_apart (kernel : KernelHeap heap) {n : UInt32} (used : heap.InUse p) : (heapMalloc heap n).1 ≠ p := by
  obtain failed | ⟨s, start, run⟩ := heapMalloc_cases heap n
  · rw [failed]
    rintro rfl
    obtain ⟨k, inside, null, _⟩ := used
    rw [kernel.total] at inside
    have place := kernel.blockAddr_toNat inside
    rw [← null, UInt32.toNat_zero] at place
    omega
  · rw [run]
    exact (kernel.free_apart start used).symm

/-- Freeing such a block clears its entry alone. -/
theorem heapFree_single (kernel : KernelHeap heap) (inside : k < heap.table.total.toNat)
    (last : heap.table.entries k = entryLast) :
    (heapFree heap (heap.blockAddr k)).2 =
      heap.setEntries (update heap.table.entries k heapBlockTableEntryFree) := by
  have bound := kernel.total
  have index : heap.blockIndex (heap.blockAddr k) = k := blockIndex_addr heap (by omega)
  obtain ⟨left, enough⟩ : ∃ left, heap.table.total.toNat - k = left + 1 := by
    apply Nat.exists_eq_add_one_of_ne_zero
    omega
  have mark : heap.table.entries k &&& heapBlockIsLast = heapBlockIsLast := by
    rw [last]
    decide
  have aligned : heap.blockAddr k % heapBlockSizeBytes = 0 := addr_aligned kernel.placed k
  simp only [heapFree, aligned, ne_eq, not_true, if_false, index, enough, freeFrom, mark, if_true]

theorem Heap.Single.free (single : heap.Single q) (kernel : KernelHeap heap) (other : heap.Single p) (ne : q ≠ p) :
    (heapFree heap p).2.Single q := by
  obtain ⟨j, within, rfl, mark⟩ := other
  obtain ⟨k, inside, rfl, last⟩ := single
  rw [heapFree_single kernel within mark]
  refine ⟨k, inside, rfl, ?_⟩
  have apart : k ≠ j := by
    rintro rfl
    exact ne rfl
  rw [Heap.setEntries_entries, Function.update_of_ne apart, last]

/-- NULL is past the table. -/
theorem heapFree_null (kernel : KernelHeap heap) (inside : k < heap.table.total.toNat) :
    (heapFree heap 0).2.table.entries k = heap.table.entries k := by
  have total := kernel.total
  have index : heap.blockIndex 0 = 1044480 := by
    rw [Heap.blockIndex, kernel.saddr]
    decide
  have none : heap.table.total.toNat - 1044480 = 0 := by omega
  have aligned : (0 : UInt32) % heapBlockSizeBytes = 0 := by decide
  simp only [heapFree, aligned, ne_eq, not_true, if_false, index, none, freeFrom, Heap.setEntries_entries]
  exact Function.update_of_ne (by omega) _ _

theorem Heap.Single.entry (single : heap'.Single (heap.blockAddr k)) (kernel : KernelHeap heap)
    (kernel' : KernelHeap heap') (inside : k < heap.table.total.toNat) : heap'.table.entries k = entryLast := by
  obtain ⟨j, within, same, last⟩ := single
  rw [kernel.total] at inside
  rw [kernel'.total] at within
  have place := congrArg UInt32.toNat same
  rw [kernel.blockAddr_toNat inside, kernel'.blockAddr_toNat within] at place
  have index : j = k := by omega
  rwa [← index]

/-- Different allocations of one block. -/
structure Singles (heap : Heap) (blocks : List UInt32) : Prop where
  kernel : KernelHeap heap
  nodup : blocks.Nodup
  single : ∀ p ∈ blocks, heap.Single p

variable {blocks : List UInt32}

theorem Singles.tail (singles : Singles heap (p :: blocks)) : Singles heap blocks :=
  ⟨singles.kernel, (List.nodup_cons.mp singles.nodup).2, fun q mem => singles.single q (List.mem_cons_of_mem p mem)⟩

theorem Singles.perm {blocks' : List UInt32} (singles : Singles heap blocks) (perm : blocks.Perm blocks') :
    Singles heap blocks' :=
  ⟨singles.kernel, perm.nodup singles.nodup, fun p mem => singles.single p (perm.mem_iff.mpr mem)⟩

theorem Singles.swap (singles : Singles heap (p :: q :: blocks)) : Singles heap (q :: p :: blocks) :=
  singles.perm (.swap q p blocks)

theorem Singles.requested (singles : Singles heap blocks) (n : UInt32) : Singles (heapMalloc heap n).2 blocks :=
  ⟨singles.kernel.malloc n, singles.nodup, fun p mem => (singles.single p mem).malloc n⟩

end

/-! ## Allocators over the block heap -/

/-- `A` works on a block heap, and may keep accounts beside it. -/
structure OnBlockHeap {H : Type} (A : Allocator H) where
  heap : H → Heap
  pointer : ∀ h n, (A.malloc h n).1 = (heapMalloc (heap h) n).1
  malloc : ∀ h n, heap (A.malloc h n).2 = (heapMalloc (heap h) n).2
  free : ∀ h p, heap (A.free h p) = (heapFree (heap h) p).2

def kernelOn : OnBlockHeap kernelAllocator := ⟨id, fun _ _ => rfl, fun _ _ => rfl, fun _ _ => rfl⟩

def watchedOn : OnBlockHeap watchedHeap := ⟨WatchedHeap.heap, fun _ _ => rfl, fun _ _ => rfl, fun _ _ => rfl⟩

section

variable {H : Type} {A : Allocator H} {on : OnBlockHeap A} {h h' : H} {p : UInt32} {blocks : List UInt32}

theorem Singles.asks (singles : Singles (on.heap h) blocks) (asks : Asks A h h') : Singles (on.heap h') blocks := by
  induction asks with
  | refl => exact singles
  | malloc n _ ih =>
    rw [on.malloc]
    exact ih.requested n

theorem Singles.malloc (singles : Singles (on.heap h) blocks) {n : UInt32} (positive : 1 ≤ n.toNat)
    (small : n.toNat ≤ 4096) (nonzero : (A.malloc h n).1 ≠ 0) :
    Singles (on.heap (A.malloc h n).2) ((A.malloc h n).1 :: blocks) := by
  have asked := singles.requested n
  rw [on.pointer] at nonzero
  rw [on.malloc, on.pointer]
  constructor
  · exact asked.kernel
  · rw [List.nodup_cons]
    refine ⟨fun mem => ?_, singles.nodup⟩
    exact heapMalloc_apart singles.kernel (singles.single _ mem).inUse rfl
  · intro p mem
    cases List.mem_cons.mp mem with
    | inl here =>
      rw [here]
      exact heapMalloc_single singles.kernel positive small nonzero
    | inr later => exact asked.single p later

theorem Singles.free (singles : Singles (on.heap h) (p :: blocks)) : Singles (on.heap (A.free h p)) blocks := by
  obtain ⟨apart, nodup⟩ := List.nodup_cons.mp singles.nodup
  rw [on.free]
  refine ⟨singles.kernel.free p, nodup, fun q mem => ?_⟩
  have ne : q ≠ p := by
    rintro rfl
    exact apart mem
  exact (singles.single q (List.mem_cons_of_mem p mem)).free singles.kernel
    (singles.single p List.mem_cons_self) ne

theorem Singles.freeNull (singles : Singles (on.heap h) blocks) : Singles (on.heap (A.free h 0)) blocks := by
  rw [on.free]
  refine ⟨singles.kernel.free 0, singles.nodup, fun q mem => ?_⟩
  obtain ⟨k, inside, rfl, last⟩ := singles.single q mem
  obtain ⟨saddr, total⟩ := heapFree_shape (on.heap h) 0
  refine ⟨k, ?_, ?_, ?_⟩
  · rw [total]
    exact inside
  · rw [Heap.blockAddr, Heap.blockAddr, saddr]
  · rw [heapFree_null singles.kernel inside]
    exact last

/-- A request of at most a block whose block is released at once. -/
theorem Singles.tried (singles : Singles (on.heap h) blocks) {n : UInt32} (positive : 1 ≤ n.toNat)
    (small : n.toNat ≤ 4096) : Singles (on.heap (A.free (A.malloc h n).2 (A.malloc h n).1)) blocks := by
  by_cases null : (A.malloc h n).1 = 0
  · rw [null]
    exact (singles.asks ((Asks.refl h).malloc n)).freeNull
  · exact (singles.malloc positive small null).free

/-! ## Paths and items -/

theorem getPathPart_singles {s s' : Paths H} {path rest : List UInt8} {b : UInt32}
    (run : pathparserGetPathPart A s path = some (b, rest, s')) (singles : Singles (on.heap s.heap) blocks) :
    Singles (on.heap s'.heap) blocks := by
  have buffer : (s.newBuffer A).1 =
        (A.malloc s.heap (.ofNat peachosMaxPathLength)).1 ∧
      (s.newBuffer A).2.heap =
        (A.malloc s.heap (.ofNat peachosMaxPathLength)).2 := by
    unfold Paths.newBuffer
    dsimp only
    split
    · rename_i null
      exact ⟨null.symm, rfl⟩
    · exact ⟨rfl, rfl⟩
  obtain ⟨pointer, heap⟩ := buffer
  unfold pathparserGetPathPart at run
  dsimp only at run
  split at run
  · cases run
    dsimp only
    rw [pointer, heap]
    exact singles.tried (by decide) (by decide)
  · split at run
    · cases run
    · cases run
      dsimp only
      rw [heap]
      exact singles.asks ((Asks.refl s.heap).malloc _)

theorem parsePathPart_singles {s s' : Paths H} {last p : UInt32} {path rest : List UInt8}
    (run : pathparserParsePathPart A s last path = some (p, rest, s'))
    (singles : Singles (on.heap s.heap) blocks) : Singles (on.heap s'.heap) blocks := by
  obtain ⟨_, got⟩ | ⟨b, s₁, _, got, heap⟩ := parsePathPart_cases A run
  · exact getPathPart_singles got singles
  · rw [heap]
    exact (getPathPart_singles got singles).asks ((Asks.refl s₁.heap).malloc sizeofPathPart)

theorem parsePartsFrom_singles {s s' : Paths H} {last : UInt32} {path : List UInt8}
    (run : parsePartsFrom A s last path = some s') (singles : Singles (on.heap s.heap) blocks) :
    Singles (on.heap s'.heap) blocks := by
  induction parsePartsFrom_run.mp run with
  | stop part => exact parsePathPart_singles part singles
  | next part _ later ih => exact ih (parsePartsFrom_run.mpr later) (parsePathPart_singles part singles)

theorem createRoot_singles {s s' : Paths H} {drive : Int} {root : UInt32}
    (run : pathparserCreateRoot A s drive = some (root, s')) (singles : Singles (on.heap s.heap) blocks) :
    (∃ k ∈ (on.heap s.heap).freeBlocks, root = (on.heap s.heap).blockAddr k) ∧ Singles (on.heap s'.heap) (root :: blocks) := by
  unfold pathparserCreateRoot at run
  dsimp only at run
  split at run
  · cases run
  · rename_i nonzero
    cases run
    constructor
    · rw [on.pointer] at nonzero ⊢
      obtain failed | ⟨k, free, answered⟩ := heapMalloc_cases (on.heap s.heap) sizeofPathRoot
      · exact absurd (congrArg Prod.fst failed) nonzero
      · exact ⟨k, free, congrArg Prod.fst answered⟩
    · exact singles.malloc (by decide) (by decide) nonzero

/-- The root of a parsed path was a free block, and is an allocation of its own. -/
theorem pathparserParse_singles {s s' : Paths H} {path : List UInt8} {root : UInt32}
    (run : pathparserParse A s path = some (root, s')) (nonzero : root ≠ 0)
    (singles : Singles (on.heap s.heap) blocks) :
    (∃ k ∈ (on.heap s.heap).freeBlocks, root = (on.heap s.heap).blockAddr k) ∧ Singles (on.heap s'.heap) (root :: blocks) := by
  unfold pathparserParse at run
  split at run
  · cases run
    exact absurd rfl nonzero
  · dsimp only at run
    split at run
    · cases run
      exact absurd rfl nonzero
    · split at run
      · cases run
      · rename_i root' s₁ made
        obtain ⟨free, first⟩ := createRoot_singles made singles
        split at run
        · cases run
        · rename_i part
          have parts := parsePathPart_singles part first
          split at run
          · cases run
            exact ⟨free, parts⟩
          · obtain ⟨s₃, loop, rest⟩ := Option.map_eq_some_iff.mp run
            cases rest
            exact ⟨free, parsePartsFrom_singles loop parts⟩

/-- The item is an allocation of its own, and so is its copy of an entry if there is one. -/
theorem ItemMade.singles {h : H} {s : Fs H} {f : UInt32} (made : ItemMade A h s f)
    (singles : Singles (on.heap h) blocks) :
    ((s.fatItems f).item = 0 ∧ Singles (on.heap s.heap) (f :: blocks)) ∨
      Singles (on.heap s.heap) ((s.fatItems f).item :: f :: blocks) := by
  obtain ⟨h₁, h₂, before, item, between, copy, after⟩ := made.requests
  have nonzero := made.nonzero
  rw [item] at nonzero
  have own := (singles.asks before).malloc (by decide) (by decide) nonzero
  rw [← item] at own
  have own := own.asks between
  by_cases null : (s.fatItems f).item = 0
  · exact Or.inl ⟨null, (own.asks ((Asks.refl h₂).malloc _)).asks after⟩
  · right
    rw [copy] at null
    have both := (own.malloc (by decide) (by decide) null).asks after
    rwa [← copy] at both

end

end PeachOs
