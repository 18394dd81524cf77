import PeachOs.KheapFresh
import PeachOs.PagingRefinement
import PeachOs.Task
import Mathlib.Data.Nat.Find
import Mathlib.Order.Bounds.Basic

/-!
# Copying a string out of a task

`copy_string_from_task` on the kernel's heap. The entry it puts back is that of
the first page of the block's table, so the address space survives a copy only
when the block's own entry is the same.
-/

namespace PeachOs

open Memory Address

/-- The pool `KheapInit` lays out, with any table. -/
structure KernelHeap (heap : Heap) : Prop where
  saddr : heap.saddr = heapStartAddr
  total : heap.table.total.toNat = 25600

def Heap.blockAddr (heap : Heap) (k : Nat) : UInt32 := heap.saddr + .ofNat (4096 * k)

/-- The blocks `HeapMalloc` may hand out. -/
def Heap.freeBlocks (heap : Heap) : Set Nat :=
  {k | k < heap.table.total.toNat ∧ heap.table.entries k = heapBlockTableEntryFree}

/-- `p` is the address of a block that is in use. -/
def Heap.InUse (heap : Heap) (p : UInt32) : Prop :=
  ∃ k < heap.table.total.toNat, p = heap.blockAddr k ∧ heap.table.entries k ≠ heapBlockTableEntryFree

section

variable {heap : Heap}

theorem KernelHeap.placed (kernel : KernelHeap heap) : Placed heap := by
  refine ⟨?_, ?_⟩
  · rw [kernel.total]
    decide
  · rw [kernel.saddr]
    decide

theorem KernelHeap.blockAddr_toNat (kernel : KernelHeap heap) {k : Nat} (hk : k < 25600) :
    (heap.blockAddr k).toNat = 0x1000000 + 4096 * k := by
  rw [Heap.blockAddr, kernel.saddr, UInt32.toNat_add, UInt32.toNat_ofNat']
  simp only [heapStartAddr, UInt32.reduceToNat]
  omega

theorem freeRun_one (k : Nat) : FreeRun heap 1 k ↔ k ∈ heap.freeBlocks := by
  constructor
  · rintro ⟨inside, free⟩
    exact ⟨by omega, free k (Nat.le_refl k) (by omega)⟩
  · rintro ⟨inside, free⟩
    refine ⟨by omega, fun j lo hi => ?_⟩
    rw [show j = k by omega, free]

/-- A request of one block gets the lowest free one. -/
theorem KernelHeap.malloc_least (kernel : KernelHeap heap) {n : UInt32} (positive : 1 ≤ n.toNat)
    (small : n.toNat ≤ 4096) {k : Nat} (least : IsLeast heap.freeBlocks k) :
    (heapMalloc heap n).1 = heap.blockAddr k := by
  have one : blocksNeeded n = 1 := blocksNeeded_one positive small
  obtain ⟨s, lowest, ptr, _⟩ := heapMalloc_fits kernel.placed positive
    ⟨k, one ▸ (freeRun_one k).mpr least.1⟩
  rw [one] at lowest
  have same : s = k := by
    apply Nat.le_antisymm
    · exact lowest.2 ((freeRun_one k).mpr least.1)
    · exact least.2 ((freeRun_one s).mp lowest.1)
  rw [ptr, same, Heap.blockAddr]

/-- Without a free block it fails. -/
theorem heapMalloc_full {n : UInt32} (small : n.toNat ≤ 4096) (positive : 1 ≤ n.toNat)
    (full : ∀ k, k ∉ heap.freeBlocks) : heapMalloc heap n = (0, heap) := by
  have one : (blocksToAllocate n).toNat = 1 := blocksToAllocate_one positive small
  obtain ⟨t, tail, value⟩ := search_missed heap (blocksToAllocate n)
    (Or.inr fun s run => full s ((freeRun_one s).mp (one ▸ run)))
  have last : t = heap.table.total.toNat := by
    by_contra inside
    have hlt := Nat.lt_of_le_of_ne tail.le inside
    exact full t ⟨hlt, tail.free t (Nat.le_refl t) hlt⟩
  rw [if_pos last] at value
  simp only [heapMalloc, value, if_true]

theorem least_free (some : ¬ ∀ k, k ∉ heap.freeBlocks) : ∃ k, IsLeast heap.freeBlocks k := by
  classical
  have exists_free : ∃ k, k ∈ heap.freeBlocks := by
    by_contra none
    exact some fun k hk => none ⟨k, hk⟩
  exact ⟨Nat.find exists_free, Nat.find_spec exists_free, fun j hj => Nat.find_min' exists_free hj⟩

/-- A free block is none of the pages in use. -/
theorem KernelHeap.free_apart (kernel : KernelHeap heap) {k : Nat} (free : k ∈ heap.freeBlocks)
    {p : UInt32} (used : heap.InUse p) : p ≠ heap.blockAddr k := by
  rintro rfl
  obtain ⟨j, hj, same, taken⟩ := used
  have hk := free.1
  rw [kernel.total] at hj hk
  have h := congrArg UInt32.toNat same
  rw [kernel.blockAddr_toNat hj, kernel.blockAddr_toNat hk] at h
  have index : k = j := by omega
  subst index
  exact taken free.2

end

/-- A task on the kernel's heap: its pages are in use, and the destination of a
copy of at most `max` bytes is apart from them. -/
structure TaskOnHeap (heap : Heap) (m : Ram) (task : Task) (directory : UInt32)
    (tables : Nat → UInt32) (phy : UInt32) (max : Int) : Prop where
  kernel : KernelHeap heap
  space : AddressSpace m task.pageDirectory directory tables
  used : ∀ x, OnPages task.pageDirectory directory tables x → heap.InUse (frame x)
  buffer : ∀ x, InRange x phy max.toNat → ¬ OnPages task.pageDirectory directory tables x

section

variable {heap : Heap} {m : Ram} {task : Task} {directory : UInt32} {tables : Nat → UInt32}
  {virtual phy : UInt32} {max : Int}

theorem copy_bytes (positive : 1 ≤ max) (small : max ≤ 4096) :
    1 ≤ (UInt32.ofInt max).toNat ∧ (UInt32.ofInt max).toNat ≤ 4096 := by
  obtain ⟨n, rfl⟩ := Int.eq_ofNat_of_zero_le (show 0 ≤ max by omega)
  rw [ofInt_natCast, UInt32.toNat_ofNat']
  omega

theorem TaskOnHeap.block (on : TaskOnHeap heap m task directory tables phy max) (positive : 1 ≤ max)
    (small : max ≤ 4096) {k : Nat} (least : IsLeast heap.freeBlocks k) :
    TmpBlock kernelAllocator heap task directory tables max (heap.blockAddr k) := by
  obtain ⟨lo, hi⟩ := copy_bytes positive small
  refine ⟨on.kernel.malloc_least lo hi least, fun null => ?_, addr_aligned on.kernel.placed k,
    fun x hx => on.kernel.free_apart least.1 (on.used x hx)⟩
  have place := on.kernel.blockAddr_toNat (on.kernel.total ▸ least.1.1)
  rw [null, UInt32.toNat_zero] at place
  omega

/-- The entries after a copy that got block `k`. -/
theorem TaskOnHeap.entries (on : TaskOnHeap heap m task directory tables phy max)
    (positive : 1 ≤ max) (small : max ≤ 4096) {k : Nat} (least : IsLeast heap.freeBlocks k)
    {res : Int} {heap' : Heap} {m' : Ram}
    (returned : copyStringFromTask kernelAllocator heap m task virtual phy max = some (res, heap', m'))
    {i j : Nat} (hi : i < 1024) (hj : j < 1024) :
    tableEntry m' directory i j = if i = (heap.blockAddr k).toNat / 0x400000 ∧
      j = (heap.blockAddr k).toNat % 0x400000 / 0x1000
      then tableEntry m directory ((heap.blockAddr k).toNat / 0x400000) 0
      else tableEntry m directory i j := by
  obtain ⟨_, m₁, restored, written⟩ :=
    copyStringFromTask_spec kernelAllocator on.space positive small (on.block positive small least) returned
  rw [restored.space.tableEntry_agree written (fun x hx inside => on.buffer x inside hx) hi hj]
  exact restored.entries i hi j hj

/-- **When the copy leaves the address space alone.** Every entry is as before
exactly when the entry of the lowest free block's page is that of the first page
of its table; a full heap has no such block, and the copy fails at once. -/
theorem copy_keeps_entries_iff (on : TaskOnHeap heap m task directory tables phy max)
    (positive : 1 ≤ max) (small : max ≤ 4096) {res : Int} {heap' : Heap} {m' : Ram}
    (returned : copyStringFromTask kernelAllocator heap m task virtual phy max = some (res, heap', m')) :
    (∀ i < 1024, ∀ j < 1024, tableEntry m' directory i j = tableEntry m directory i j) ↔
      ∀ k, IsLeast heap.freeBlocks k → walk m directory (heap.blockAddr k) =
        tableEntry m directory ((heap.blockAddr k).toNat / 0x400000) 0 := by
  by_cases full : ∀ k, k ∉ heap.freeBlocks
  · obtain ⟨lo, hi⟩ := copy_bytes positive small
    obtain ⟨_, fails⟩ := copyStringFromTask_fails kernelAllocator virtual phy
      (Or.inr ⟨small, congrArg Prod.fst (heapMalloc_full hi lo full)⟩)
    rw [fails] at returned
    cases returned
    exact ⟨fun _ k least => absurd least.1 (full k), fun _ _ _ _ _ => rfl⟩
  · obtain ⟨k, least⟩ := least_free full
    obtain ⟨hi, hj⟩ := walk_indexes (heap.blockAddr k)
    constructor
    · intro same k' least'
      rw [least'.unique least, walk, ← same _ hi _ hj,
        on.entries positive small least returned hi hj, if_pos ⟨rfl, rfl⟩]
    · intro kept i hi' j hj'
      rw [on.entries positive small least returned hi' hj']
      by_cases here : i = (heap.blockAddr k).toNat / 0x400000 ∧
          j = (heap.blockAddr k).toNat % 0x400000 / 0x1000
      · rw [if_pos here, ← kept k least, walk, here.1, here.2]
      · rw [if_neg here]

end

/-! ## A task on the kernel's new heap -/

def newHeap : Heap := kheapInit ⟨⟨fun _ => 0, 0⟩, 0⟩ fun _ => 0

/-- The directory as `task_init` builds it, and the memory then. -/
def newDirectory : UInt32 × Heap × Ram := pagingNew4gb kernelAllocator newHeap (fun _ => 0) 5

def newTask : Task := ⟨newDirectory.1, ⟨0, 0, 0, 0, 0, 0, 0, 0, 0, 0, 0, 0⟩, 0, 0, 0⟩

/-- The kernel's heap after `n` requests of a block each. -/
def filledHeap (n : Nat) : Heap := kernelAllocator.after newHeap pagingRequests n

theorem pagingRequests_block (i : Nat) :
    1 ≤ (pagingRequests i).toNat ∧ (pagingRequests i).toNat ≤ 4096 := by
  unfold pagingRequests
  split <;> decide

theorem filledHeap_packed {n : Nat} (hn : n ≤ 25600) :
    KernelHeap (filledHeap n) ∧ Packed (filledHeap n) n := by
  have total : newHeap.table.total.toNat = 25600 := kheapInit_total _ _
  obtain ⟨saddr, size, packed⟩ := (kheapInit_packed _ _).requests pagingRequests_block n
    (hn.trans_eq total.symm)
  exact ⟨⟨saddr, (congrArg UInt32.toNat size).trans total⟩, packed⟩

theorem filledHeap_least {n : Nat} (hn : n < 25600) : IsLeast (filledHeap n).freeBlocks n := by
  obtain ⟨kernel, packed⟩ := filledHeap_packed (Nat.le_of_lt hn)
  have inside : n < (filledHeap n).table.total.toNat := by
    rw [kernel.total]
    exact hn
  refine ⟨⟨inside, packed.free n (Nat.le_refl n) inside⟩, fun k free => ?_⟩
  by_contra lower
  have taken := packed.taken k (by omega)
  rw [free.2] at taken
  exact absurd taken (by decide)

/-- Page `i` of the new task. -/
def newPage (i : Nat) : UInt32 := kernelAllocator.pointer newHeap pagingRequests i

theorem newPage_eq {i : Nat} (hi : i < 25600) : newPage i = newHeap.blockAddr i :=
  (kheapInit_packed _ _).pointer pagingRequests_block (hi.trans_eq (kheapInit_total _ _).symm)

theorem newTask_built :
    newTask.pageDirectory = newPage 1025 ∧ newDirectory.2.1 = filledHeap 1026 ∧
      Fresh4gb (fun _ => 0) newDirectory.2.2 (newPage 1025) (newPage 0) (fun i => newPage (i + 1)) 5 := by
  have fresh : FreshBlocks kernelAllocator newHeap pagingRequests 1026 := kernelHeap_paging _ _
  obtain ⟨m', run, built⟩ := pagingNew4gb_spec kernelAllocator fresh (fun _ => 0) 5
  unfold newTask newDirectory filledHeap newPage
  rw [run]
  dsimp only
  exact ⟨rfl, rfl, built⟩

theorem newTask_onHeap {n : Nat} (lo : 1026 ≤ n) (hi : n ≤ 25600) {max : Int} (small : max ≤ 4096) :
    TaskOnHeap (filledHeap n) newDirectory.2.2 newTask (newPage 0) (fun i => newPage (i + 1))
      0x500000 max := by
  obtain ⟨kernel, packed⟩ := filledHeap_packed hi
  obtain ⟨chunk, -, built⟩ := newTask_built
  have page (x : UInt32) (hx : OnPages newTask.pageDirectory (newPage 0) (fun i => newPage (i + 1)) x) :
      ∃ k < 1026, frame x = (filledHeap n).blockAddr k := by
    have same (k : Nat) (hk : k < 1026) : newPage k = (filledHeap n).blockAddr k := by
      rw [newPage_eq (by omega), Heap.blockAddr, Heap.blockAddr, kernel.saddr]
      rfl
    rw [chunk] at hx
    rcases hx with hx | hx | ⟨i, hi, hx⟩
    · exact ⟨1025, by omega, hx.trans (same 1025 (by omega))⟩
    · exact ⟨0, by omega, hx.trans (same 0 (by omega))⟩
    · exact ⟨i + 1, by omega, hx.trans (same (i + 1) (by omega))⟩
  refine ⟨kernel, ?_, fun x hx => ?_, fun x hx on => ?_⟩
  · rw [chunk]
    exact built.space
  · obtain ⟨k, hk, same⟩ := page x hx
    refine ⟨k, ?_, same, ?_⟩
    · rw [kernel.total]
      omega
    · rw [packed.taken k (by omega)]
      decide
  · obtain ⟨k, hk, same⟩ := page x on
    have high := kernel.blockAddr_toNat (k := k) (by omega)
    rw [← same, frame_toNat] at high
    rw [inRange_iff (by simp only [UInt32.reduceToNat]; omega)] at hx
    simp only [UInt32.reduceToNat] at hx
    omega

theorem newTask_returns {n : Nat} (lo : 1026 ≤ n) (hi : n < 25600) :
    ∃ res heap' m', copyStringFromTask kernelAllocator (filledHeap n) newDirectory.2.2 newTask
      0x400000 0x500000 4096 = some (res, heap', m') := by
  have on := newTask_onHeap lo (Nat.le_of_lt hi) (show (4096 : Int) ≤ 4096 by decide)
  obtain ⟨-, -, built⟩ := newTask_built
  refine copyStringFromTask_returns kernelAllocator 0x400000 0x500000 on.space (by decide) (by decide)
    (on.block (by decide) (by decide) (filledHeap_least hi)) ?_
  exact built.reach (by decide)

theorem newBlock_toNat {n : Nat} (hn : n < 25600) :
    ((filledHeap n).blockAddr n).toNat = 0x1000000 + 4096 * n :=
  (filledHeap_packed (Nat.le_of_lt hn)).1.blockAddr_toNat hn

/-- A new task's first print: block 1026 is page 2 of table 5, whose entry becomes that of page 0. -/
theorem first_print_moves_entry :
    ∃ res heap' m', copyStringFromTask kernelAllocator newDirectory.2.1 newDirectory.2.2 newTask
        0x400000 0x500000 4096 = some (res, heap', m') ∧
      ¬ ∀ i < 1024, ∀ j < 1024,
        tableEntry m' (newPage 0) i j = tableEntry newDirectory.2.2 (newPage 0) i j := by
  obtain ⟨-, heap, built⟩ := newTask_built
  rw [heap]
  obtain ⟨res, heap', m', returned⟩ := newTask_returns (n := 1026) (by omega) (by omega)
  have on := newTask_onHeap (n := 1026) (by omega) (by omega) (show (4096 : Int) ≤ 4096 by decide)
  refine ⟨res, heap', m', returned, fun same => ?_⟩
  have moved := on.entries (by decide) (by decide) (filledHeap_least (by omega)) returned
    (i := 5) (j := 2) (by omega) (by omega)
  rw [newBlock_toNat (by omega), if_pos (by omega), same 5 (by omega) 2 (by omega),
    built.entries 5 (by omega) 2 (by omega), built.entries _ (by omega) 0 (by omega)] at moved
  exact absurd moved (by decide)

/-- With 2048 blocks in use the next one is the first page of a table, and nothing moves. -/
theorem print_on_table_boundary :
    ∃ res heap' m', copyStringFromTask kernelAllocator (filledHeap 2048) newDirectory.2.2 newTask
        0x400000 0x500000 4096 = some (res, heap', m') ∧
      ∀ i < 1024, ∀ j < 1024,
        tableEntry m' (newPage 0) i j = tableEntry newDirectory.2.2 (newPage 0) i j := by
  obtain ⟨res, heap', m', returned⟩ := newTask_returns (n := 2048) (by omega) (by omega)
  have on := newTask_onHeap (n := 2048) (by omega) (by omega) (show (4096 : Int) ≤ 4096 by decide)
  refine ⟨res, heap', m', returned, ?_⟩
  refine (copy_keeps_entries_iff on (by decide) (by decide) returned).mpr fun k least => ?_
  have last : k = 2048 := least.unique (filledHeap_least (by omega))
  rw [last, walk, newBlock_toNat (by omega)]

end PeachOs
