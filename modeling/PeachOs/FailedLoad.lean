import PeachOs.ProcessLoad
import PeachOs.TaskCopy

/-!
# Loads that fail

`process_load` gives back nothing it was handed. The record of the process is
the first block it asks for, so a load undoes itself only while that block is
still to come. A task that could not be made is not noticed at all: the test
after `task_new` asks whether the pointer is 0, and mapping fails on unaligned
addresses alone.
-/

namespace PeachOs

open Memory Address
open Function (update)

/-- `live h x`: `x` is a block in use. `held h x`: it was handed out to code
outside the file system and not released. -/
structure LoadLaws {H : Type} (A : Allocator H) (F : FileOps H) where
  live : H → UInt32 → Prop
  held : H → UInt32 → Prop
  opened : H → Int → Prop
  held_live : ∀ h x, held h x → live h x
  malloc_aligned : ∀ h n, (A.malloc h n).1 % 4096 = 0
  malloc_null : ∀ h n, (A.malloc h n).1 = 0 →
    (∀ x, live (A.malloc h n).2 x → live h x) ∧ ∀ fd, opened (A.malloc h n).2 fd → opened h fd
  malloc_fresh : ∀ h n, (A.malloc h n).1 ≠ 0 → ¬ live h (A.malloc h n).1
  malloc_new : ∀ h n, 1 ≤ n.toNat → n.toNat < 2 ^ 31 → (A.malloc h n).1 ≠ 0 →
    held (A.malloc h n).2 (A.malloc h n).1
  malloc_held : ∀ h n x, held h x → held (A.malloc h n).2 x
  fopen : ∀ h m name mode x, held h x → held (F.fopen h m name mode).2.1 x
  fstat : ∀ h m fd x, held h x → held (F.fstat h m fd).2.1 x
  fread : ∀ h m ptr size nmemb fd x, held h x → held (F.fread h m ptr size nmemb fd).2.1 x
  fclose : ∀ h m fd x, held h x → held (F.fclose h m fd).2.1 x

/-- The steps of `process_load` that can fail. -/
inductive LoadStep
  | slot
  | record
  | program
  | stack
  | task
  | mapping
  deriving DecidableEq

variable {H : Type} (A : Allocator H) (F : FileOps H)

/-- `process_load_for_slot` has its record `p`, cleared, in the kernel `k'`. -/
def HasRecord (k k' : Kernel H) (p : UInt32) : Prop :=
  (∃ slot < peachosMaxProcesses, k.processes slot = 0) ∧ p ≠ 0 ∧
    ∃ k₁, k.kZalloc A sizeofProcess = (p, k₁) ∧ k' = k₁.modifyProc p fun _ => Process.zero

/-- It also has the program and a stack, entered in the record in the kernel `k'`. -/
def HasStack (k k' : Kernel H) (filename : List UInt8) (p : UInt32) : Prop :=
  ∃ k₁ k₂ k₃ stack, HasRecord A k k₁ p ∧ processLoadData A F k₁ filename p = (0, k₂) ∧
    k₂.kZalloc A peachosUserProgramStackSize = (stack, k₃) ∧ stack ≠ 0 ∧
    k' = k₃.modifyProc p fun q => { q with
      filename := filename.take (peachosMaxPathLength - 1), stack, id := .ofInt (processGetFreeSlot k) }

/-- The steps before `step` succeed and `step` does not. -/
inductive FailsAt (k : Kernel H) (filename : List UInt8) : LoadStep → Prop
  | slot (full : ∀ slot < peachosMaxProcesses, k.processes slot ≠ 0) : FailsAt k filename .slot
  | record (free : ∃ slot < peachosMaxProcesses, k.processes slot = 0)
      (null : (A.malloc k.heap sizeofProcess).1 = 0) : FailsAt k filename .record
  | program {k₁ : Kernel H} {p : UInt32} (record : HasRecord A k k₁ p)
      (unread : (processLoadData A F k₁ filename p).1 ≠ peachosAllOk) : FailsAt k filename .program
  | stack {k₁ k₂ : Kernel H} {p : UInt32} (record : HasRecord A k k₁ p)
      (read : processLoadData A F k₁ filename p = (peachosAllOk, k₂))
      (null : (A.malloc k₂.heap peachosUserProgramStackSize).1 = 0) : FailsAt k filename .stack
  | task {k₁ : Kernel H} {p : UInt32} (stack : HasStack A F k k₁ filename p)
      (failed : errorI (taskNew A k₁ p).1 < 0) : FailsAt k filename .task
  | mapping {k₁ k₂ : Kernel H} {p task : UInt32} (stack : HasStack A F k k₁ filename p)
      (made : taskNew A k₁ p = (task, k₂)) (pointer : 0 < errorI task)
      (unmapped : (processMapMemory (k₂.modifyProc p fun q => { q with task }) p).1 < 0) :
      FailsAt k filename .mapping

section

variable {A : Allocator H} {F : FileOps H} (laws : LoadLaws A F)

/-- A load that reports a failure and left nothing behind. -/
structure LoadUndone (k : Kernel H) (result : Int × UInt32 × Kernel H) : Prop where
  negative : result.1 < 0
  processes : result.2.2.processes = k.processes
  tasks : result.2.2.tasks = k.tasks
  taskListHead : result.2.2.taskListHead = k.taskListHead
  taskListTail : result.2.2.taskListTail = k.taskListTail
  currentTask : result.2.2.currentTask = k.currentTask
  closed : ∀ fd, laws.opened result.2.2.heap fd → laws.opened k.heap fd
  freed : ∀ x, laws.live result.2.2.heap x → laws.live k.heap x

/-! ## Mapping -/

theorem pagingAlignAddres_aligned (a : UInt32) : pagingAlignAddres a % 4096 = 0 := by
  have size : pageSizeInBytes = 4096 := rfl
  unfold pagingAlignAddres
  rw [size]
  split
  · have rest : (a % 4096).toNat = a.toNat % 4096 := by simp
    rw [aligned_toNat, UInt32.toNat_add, UInt32.toNat_sub, rest]
    simp only [UInt32.reduceToNat]
    omega
  · rename_i exact
    exact not_not.mp exact

/-- Mapping whole pages succeeds, whatever lies where the directory should be. -/
theorem pagingMapTo_aligned (m : Ram) (directory : UInt32) {virt phy : UInt32} (size : UInt32) (flags : Int)
    (hv : virt % 4096 = 0) (hp : phy % 4096 = 0) :
    (pagingMapTo m directory virt phy (pagingAlignAddres (phy + size)) flags).1 = 0 := by
  rw [pagingMapTo_range m directory flags hv hp (pagingAlignAddres_aligned (phy + size))]

/-- With an aligned program and stack `process_map_memory` cannot fail. -/
theorem processMapMemory_aligned (k : Kernel H) {p : UInt32} (program : (k.procs p).ptr % 4096 = 0)
    (stack : (k.procs p).stack % 4096 = 0) : (processMapMemory k p).1 = 0 := by
  have first := pagingMapTo_aligned k.ram (k.tasks (k.procs p).task).pageDirectory (k.procs p).size
    userWriteable (show peachosProgramVirtualAddress % 4096 = 0 by decide) program
  have binary := processMapBinary_run (Prod.ext first rfl)
  have second := pagingMapTo_aligned (processMapBinary k p).2.ram (k.tasks (k.procs p).task).pageDirectory
    peachosUserProgramStackSize userWriteable
    (show peachosProgramStackVirtualAddressEnd % 4096 = 0 by decide) stack
  rw [binary] at second
  rw [processMapMemory_run binary (Prod.ext second rfl)]

/-! ## What a load keeps -/

/-- Between `k` and `k'` the file was read into a new block, entered in the record `p`. -/
structure ReadFor (k k' : Kernel H) (p : UInt32) : Prop where
  held : ∀ x, laws.held k.heap x → laws.held k'.heap x
  task : (k'.procs p).task = (k.procs p).task
  ptr : (k.procs p).ptr % 4096 = 0 → (k'.procs p).ptr % 4096 = 0

variable {laws} {k k' k'' : Kernel H} {p : UInt32}

theorem ReadFor.trans (one : ReadFor laws k k' p) (two : ReadFor laws k' k'' p) : ReadFor laws k k'' p :=
  ⟨fun x hx => two.held x (one.held x hx), two.task.trans one.task, fun h => two.ptr (one.ptr h)⟩

/-- A step that changes heap and memory only. -/
theorem ReadFor.of_heap {heap : H} (ram : Ram) (held : ∀ x, laws.held k.heap x → laws.held heap x) :
    ReadFor laws k { k with heap, ram } p :=
  ⟨held, rfl, id⟩

theorem Kernel.kZalloc_step {n ptr : UInt32} (run : k.kZalloc A n = (ptr, k')) :
    ptr = (A.malloc k.heap n).1 ∧ ∃ ram, k' = { k with heap := (A.malloc k.heap n).2, ram } := by
  obtain ⟨ram, alloc, _⟩ := kZalloc_spec A k.heap k.ram n
  simp only [Kernel.kZalloc, alloc, Prod.mk.injEq] at run
  exact ⟨run.1.symm, ram, run.2.symm⟩

theorem ReadFor.kZalloc {n ptr : UInt32} (run : k.kZalloc A n = (ptr, k')) : ReadFor laws k k' p := by
  obtain ⟨_, ram, rfl⟩ := Kernel.kZalloc_step run
  exact .of_heap ram (laws.malloc_held k.heap n)

theorem processReadBinary_readFor (laws : LoadLaws A F) (k : Kernel H) (fd : Int) (p : UInt32) :
    ReadFor laws k (processReadBinary A F k fd p).2 p := by
  have stat := laws.fstat k.heap k.ram fd
  unfold processReadBinary
  rcases hs : F.fstat k.heap k.ram fd with ⟨⟨res, filesize⟩, h₁, m₁⟩
  rw [hs] at stat
  have told : ReadFor laws k { k with heap := h₁, ram := m₁ } p := .of_heap m₁ stat
  dsimp only
  split
  · exact told
  rcases hz : ({ k with heap := h₁, ram := m₁ } : Kernel H).kZalloc A filesize with ⟨ptr, k₁⟩
  have asked := told.trans (.kZalloc hz)
  obtain ⟨address, _⟩ := Kernel.kZalloc_step hz
  dsimp only
  split
  · exact asked
  have taken := asked.trans (.of_heap (F.fread k₁.heap k₁.ram ptr filesize 1 fd).2.2
    (laws.fread k₁.heap k₁.ram ptr filesize 1 fd))
  split
  · exact taken
  · refine ⟨taken.held, ?_, fun _ => ?_⟩
    · rw [← taken.task]
      simp [Kernel.modifyProc]
    · simp only [Kernel.modifyProc, Function.update_self, address]
      exact laws.malloc_aligned h₁ filesize

theorem processLoadData_readFor (laws : LoadLaws A F) (k : Kernel H) (filename : List UInt8) (p : UInt32) :
    ReadFor laws k (processLoadData A F k filename p).2 p := by
  have open_ := laws.fopen k.heap k.ram filename [114]
  unfold processLoadData processLoadBinary
  rcases ho : F.fopen k.heap k.ram filename [114] with ⟨fd, h₁, m₁⟩
  rw [ho] at open_
  have opened : ReadFor laws k { k with heap := h₁, ram := m₁ } p := .of_heap m₁ open_
  dsimp only
  rcases hb : (if fd = 0 then (-eio, ({ k with heap := h₁, ram := m₁ } : Kernel H))
    else processReadBinary A F { k with heap := h₁, ram := m₁ } fd p) with ⟨res, k₁⟩
  have body : ReadFor laws k k₁ p := by
    split at hb
    · obtain ⟨-, rfl⟩ := Prod.mk.inj hb
      exact opened
    · have read := processReadBinary_readFor laws { k with heap := h₁, ram := m₁ } fd p
      rw [hb] at read
      exact opened.trans read
  exact body.trans (.of_heap _ (laws.fclose k₁.heap k₁.ram fd))

theorem taskListRemove_procs (k : Kernel H) (t : UInt32) : (taskListRemove k t).procs = k.procs := by
  have unlink : (taskUnlink k t).procs = k.procs := by
    unfold taskUnlink
    split
    · dsimp only
      split <;> rfl
    · rfl
  unfold taskListRemove
  dsimp only
  split <;> split <;> split <;> exact unlink

theorem taskFree_procs (k : Kernel H) (t : UInt32) : (taskFree A k t).2.procs = k.procs := by
  unfold taskFree
  dsimp only
  rw [taskListRemove_procs]

theorem taskInit_procs (k : Kernel H) (task process : UInt32) :
    (taskInit A k task process).2.procs = k.procs := by
  unfold taskInit
  rcases hp : pagingNew4gb A k.heap k.ram (pagingIsPresent ||| pagingAccessFromAll) with ⟨chunk, h₁, m₁⟩
  dsimp only
  split
  · rfl
  · rfl

theorem taskNew_procs (k : Kernel H) (process : UInt32) : (taskNew A k process).2.procs = k.procs := by
  unfold taskNew
  rcases hz : k.kZalloc A sizeofTask with ⟨task, k₁⟩
  have asked : k₁.procs = k.procs := by
    obtain ⟨_, ram, rfl⟩ := Kernel.kZalloc_step hz
    rfl
  dsimp only
  split
  · dsimp only
    rw [taskFree_procs, asked]
  have init := taskInit_procs (A := A) k₁ task process
  rcases hi : taskInit A k₁ task process with ⟨res, k₂⟩
  rw [hi] at init
  dsimp only at init ⊢
  split
  · split
    · dsimp only
      rw [taskFree_procs, init, asked]
    · exact init.trans asked
  · rw [(taskListAppend_shape k₂ task).2]
    exact init.trans asked

/-- When filling the slot of a cleared record fails, no task has been entered in it. -/
theorem processFillSlot_failed (laws : LoadLaws A F) (filename : List UInt8) (process : UInt32) (slot : Int)
    (cleared : k.procs p = Process.zero)
    (failed : (processFillSlot A F k filename process p slot).1 < 0) :
    (∀ x, laws.held k.heap x → laws.held (processFillSlot A F k filename process p slot).2.2.heap x) ∧
      ((processFillSlot A F k filename process p slot).2.2.procs p).task = 0 := by
  have read := processLoadData_readFor laws k filename p
  revert failed
  unfold processFillSlot
  rcases hl : processLoadData A F k filename p with ⟨res, k₁⟩
  rw [hl] at read
  have empty : (k₁.procs p).task = 0 := by
    rw [read.task, cleared]
    rfl
  have program : (k₁.procs p).ptr % 4096 = 0 := by
    apply read.ptr
    rw [cleared]
    rfl
  dsimp only
  split
  · exact fun _ => ⟨read.held, empty⟩
  rcases hs : k₁.kZalloc A peachosUserProgramStackSize with ⟨stack, k₂⟩
  have asked : ReadFor laws k₁ k₂ p := .kZalloc hs
  dsimp only
  split
  · exact fun _ => ⟨fun x hx => asked.held x (read.held x hx), asked.task.trans empty⟩
  -- from here on the record keeps the task that `task_new` returned, but nothing fails
  have aligned : stack % 4096 = 0 := by
    rw [(Kernel.kZalloc_step hs).1]
    exact laws.malloc_aligned k₁.heap peachosUserProgramStackSize
  have procs := taskNew_procs (A := A) (k₂.modifyProc p fun q => { q with
    filename := filename.take (peachosMaxPathLength - 1), stack, id := .ofInt slot }) p
  rcases ht : taskNew A (k₂.modifyProc p fun q => { q with
    filename := filename.take (peachosMaxPathLength - 1), stack, id := .ofInt slot }) p with ⟨task, k₃⟩
  rw [ht] at procs
  have procs : k₃.procs = _ := procs
  dsimp only
  split
  · rename_i zero
    dsimp only
    rw [zero]
    exact fun negative => absurd negative (Int.lt_irrefl 0)
  have mapped : (processMapMemory (k₃.modifyProc p fun q => { q with task }) p).1 = 0 := by
    apply processMapMemory_aligned
    · simp only [Kernel.modifyProc, procs, Function.update_self]
      exact asked.ptr program
    · simp only [Kernel.modifyProc, procs, Function.update_self]
      exact aligned
  rcases hm : processMapMemory (k₃.modifyProc p fun q => { q with task }) p with ⟨r, k₄⟩
  rw [hm] at mapped
  obtain rfl : r = 0 := mapped
  dsimp only
  rw [if_neg (Int.lt_irrefl 0)]
  exact fun negative => absurd negative (Int.lt_irrefl 0)

/-! ## The load -/

variable (filename : List UInt8)

theorem processLoad_full (full : ∀ slot < peachosMaxProcesses, k.processes slot ≠ 0) (process : UInt32) :
    processLoad A F k filename process = (-eistkn, process, k) := by
  have negative : processGetFreeSlot k < 0 := by
    cases freeSlotFrom_spec k peachosMaxProcesses 0 with
    | inl none =>
      rw [processGetFreeSlot, none.1]
      decide
    | inr found =>
      obtain ⟨slot, _, inside, empty, _⟩ := found
      exact absurd empty (full slot (by omega))
  unfold processLoad
  dsimp only
  rw [if_pos negative]

/-- With a free slot the load goes on to the record. -/
theorem processLoad_free (free : ∃ slot < peachosMaxProcesses, k.processes slot = 0) (process : UInt32) :
    ∃ slot, processGetFreeSlot k = slot ∧ processGet k slot = 0 ∧
      processLoad A F k filename process = processLoadForSlot A F k filename process slot := by
  cases freeSlotFrom_spec k peachosMaxProcesses 0 with
  | inl none =>
    obtain ⟨slot, inside, empty⟩ := free
    exact absurd empty (none.2 slot (Nat.zero_le slot) (by omega))
  | inr found =>
    obtain ⟨slot, _, inside, empty, value⟩ := found
    have twelve : peachosMaxProcesses = 12 := rfl
    have value : processGetFreeSlot k = slot := value
    refine ⟨slot, value, ?_, ?_⟩
    · unfold processGet
      rw [if_neg (by omega), Int.toNat_natCast]
      exact empty
    · unfold processLoad
      dsimp only
      rw [value, if_neg (by omega)]

theorem processLoad_noRecord (free : ∃ slot < peachosMaxProcesses, k.processes slot = 0)
    (null : (A.malloc k.heap sizeofProcess).1 = 0) (process : UInt32) :
    ∃ ram, processLoad A F k filename process =
      (-enomem, process, { k with heap := (A.malloc k.heap sizeofProcess).2, ram }) := by
  obtain ⟨slot, _, empty, run⟩ := processLoad_free (F := F) filename free process
  rcases hz : k.kZalloc A sizeofProcess with ⟨p, k₁⟩
  obtain ⟨address, ram, rfl⟩ := Kernel.kZalloc_step hz
  refine ⟨ram, ?_⟩
  rw [run]
  unfold processLoadForSlot
  rw [if_neg (not_not.mpr empty), hz]
  dsimp only
  rw [if_pos (address.trans null)]

/-- Once the record is there, a load that reports a failure keeps it. -/
theorem processLoad_keeps_record (laws : LoadLaws A F) {k₁ : Kernel H} (record : HasRecord A k k₁ p) (process : UInt32)
    (failed : (processLoad A F k filename process).1 < 0) :
    laws.held (processLoad A F k filename process).2.2.heap p := by
  obtain ⟨free, nonzero, k₀, alloc, rfl⟩ := record
  obtain ⟨address, ram, rfl⟩ := Kernel.kZalloc_step alloc
  obtain ⟨slot, _, empty, run⟩ := processLoad_free (F := F) filename free process
  rw [run] at failed ⊢
  revert failed
  unfold processLoadForSlot
  rw [if_neg (not_not.mpr empty), alloc]
  dsimp only
  rw [if_neg nonzero]
  have filled := processFillSlot_failed laws filename process slot
    (k := ({ k with heap := (A.malloc k.heap sizeofProcess).2, ram } : Kernel H).modifyProc p
      fun _ => Process.zero) (Function.update_self p _ _)
  rcases hf : processFillSlot A F (({ k with heap := (A.malloc k.heap sizeofProcess).2, ram } :
    Kernel H).modifyProc p fun _ => Process.zero) filename process p slot with ⟨res, out, k₂⟩
  rw [hf] at filled
  dsimp only at filled ⊢
  intro negative
  obtain ⟨held, noTask⟩ := filled negative
  rw [if_neg fun released => released.2 noTask]
  apply held
  rw [address]
  exact laws.malloc_new k.heap sizeofProcess (by decide) (by decide) (address ▸ nonzero)

/-- **Failed loads.** Nothing is left behind exactly when no slot is free or the
heap has no room for the record of the process. -/
theorem failed_load_undone_iff (laws : LoadLaws A F) {filename : List UInt8} {step : LoadStep} (fails : FailsAt A F k filename step) (process : UInt32) :
    LoadUndone laws k (processLoad A F k filename process) ↔
      (∀ slot < peachosMaxProcesses, k.processes slot ≠ 0) ∨ (A.malloc k.heap sizeofProcess).1 = 0 := by
  have kept {k₁ : Kernel H} {p : UInt32} (record : HasRecord A k k₁ p) :
      LoadUndone laws k (processLoad A F k filename process) ↔
        (∀ slot < peachosMaxProcesses, k.processes slot ≠ 0) ∨
          (A.malloc k.heap sizeofProcess).1 = 0 := by
    have leaks := processLoad_keeps_record filename laws record process
    obtain ⟨⟨slot, inside, free⟩, nonzero, _, alloc, _⟩ := record
    obtain ⟨rfl, _⟩ := Kernel.kZalloc_step alloc
    refine iff_of_false (fun undone => ?_) ?_
    · apply laws.malloc_fresh k.heap sizeofProcess nonzero
      exact undone.freed _ (laws.held_live _ _ (leaks undone.negative))
    · rintro (full | null)
      · exact full slot inside free
      · exact nonzero null
  cases fails with
  | slot full =>
    refine iff_of_true ?_ (Or.inl full)
    rw [processLoad_full filename full]
    exact ⟨show -eistkn < 0 by decide, rfl, rfl, rfl, rfl, rfl, fun _ => id, fun _ => id⟩
  | record free null =>
    refine iff_of_true ?_ (Or.inr null)
    obtain ⟨ram, run⟩ := processLoad_noRecord (F := F) filename free null process
    obtain ⟨live, opened⟩ := laws.malloc_null k.heap sizeofProcess null
    rw [run]
    exact ⟨show -enomem < 0 by decide, rfl, rfl, rfl, rfl, rfl, opened, live⟩
  | program record _ => exact kept record
  | stack record _ _ => exact kept record
  | task stack _ =>
    obtain ⟨_, _, _, _, record, _⟩ := stack
    exact kept record
  | mapping stack _ _ _ =>
    obtain ⟨_, _, _, _, record, _⟩ := stack
    exact kept record

end

/-! ## The kernel's heap without files -/

section

variable {heap : Heap}

/-- `HeapMalloc` fails without a trace, or returns a block that was free, and the
entries it marks before its last one were free. -/
theorem heapMalloc_run (heap : Heap) (n : UInt32) :
    heapMalloc heap n = (0, heap) ∨ ∃ s ∈ heap.freeBlocks,
      heapMalloc heap n = (heap.blockAddr s, updateHeapTableOfAllocation heap (.ofNat s) (blocksToAllocate n)) ∧
      ∀ k, s ≤ k → k < (UInt32.ofNat s + blocksToAllocate n - 1).toNat → k < heap.table.total.toNat →
        heap.table.entries k = heapBlockTableEntryFree := by
  by_cases fits : 0 < (blocksToAllocate n).toNat ∧ ∃ s, FreeRun heap (blocksToAllocate n).toNat s
  · obtain ⟨s, found, least⟩ := search_found heap _ fits.1 fits.2
    have inside := least.1.1
    have total := heap.table.total.toNat_lt
    have index : (UInt32.ofNat s).toNat = s := by
      rw [UInt32.toNat_ofNat']
      omega
    have last : (UInt32.ofNat s + blocksToAllocate n - 1).toNat = s + (blocksToAllocate n).toNat - 1 := by
      rw [UInt32.toNat_sub, UInt32.toNat_add, index]
      simp only [UInt32.reduceToNat]
      omega
    refine Or.inr ⟨s, ⟨by omega, least.1.2 s (Nat.le_refl s) (by omega)⟩, heapMalloc_of_search found, ?_⟩
    intro k lo hi _
    exact least.1.2 k lo (by omega)
  · have missed : (blocksToAllocate n).toNat = 0 ∨ ∀ s, ¬ FreeRun heap (blocksToAllocate n).toNat s := by
      by_cases zero : (blocksToAllocate n).toNat = 0
      · exact Or.inl zero
      · exact Or.inr fun s run => fits ⟨Nat.pos_of_ne_zero zero, s, run⟩
    obtain ⟨t, tail, found⟩ := search_missed heap _ missed
    by_cases last : t = heap.table.total.toNat
    · rw [if_pos last] at found
      exact Or.inl (by simp only [heapMalloc, found, if_true])
    · rw [if_neg last] at found
      have inside : t < heap.table.total.toNat := Nat.lt_of_le_of_ne tail.le last
      refine Or.inr ⟨t, ⟨inside, tail.free t (Nat.le_refl t) inside⟩, heapMalloc_of_search found, ?_⟩
      intro k lo _ within
      exact tail.free k lo within

theorem heapMalloc_cases (heap : Heap) (n : UInt32) :
    heapMalloc heap n = (0, heap) ∨ ∃ s ∈ heap.freeBlocks,
      heapMalloc heap n = (heap.blockAddr s, updateHeapTableOfAllocation heap (.ofNat s) (blocksToAllocate n)) :=
  (heapMalloc_run heap n).imp_right fun ⟨s, free, run, _⟩ => ⟨s, free, run⟩

theorem KernelHeap.blockAddr_ne_zero (kernel : KernelHeap heap) {s : Nat} (free : s ∈ heap.freeBlocks) :
    heap.blockAddr s ≠ 0 := by
  have inside := free.1
  rw [kernel.total] at inside
  have place := kernel.blockAddr_toNat inside
  intro null
  rw [null] at place
  have zero : (0 : UInt32).toNat = 0 := rfl
  omega

theorem KernelHeap.malloc (kernel : KernelHeap heap) (n : UInt32) : KernelHeap (heapMalloc heap n).2 := by
  obtain ⟨saddr, total⟩ := heapMalloc_shape heap n
  exact ⟨saddr.trans kernel.saddr, (congrArg UInt32.toNat total).trans kernel.total⟩

theorem KernelHeap.free (kernel : KernelHeap heap) (addr : UInt32) : KernelHeap (heapFree heap addr).2 := by
  obtain ⟨saddr, total⟩ := heapFree_shape heap addr
  exact ⟨saddr.trans kernel.saddr, (congrArg UInt32.toNat total).trans kernel.total⟩

/-- Marking takes entries and frees none. -/
theorem marked_inUse {x : UInt32} (used : heap.InUse x) (stIndex blocks : UInt32) :
    (updateHeapTableOfAllocation heap stIndex blocks).InUse x := by
  obtain ⟨k, inside, rfl, taken⟩ := used
  rw [updateHeapTable_entries]
  refine ⟨k, inside, rfl, ?_⟩
  simp only [Heap.setEntries_entries]
  split
  · decide
  · split
    · decide
    · exact taken

theorem heapMalloc_inUse {x : UInt32} (used : heap.InUse x) (n : UInt32) :
    (heapMalloc heap n).2.InUse x := by
  cases heapMalloc_cases heap n with
  | inl failed =>
    rw [failed]
    exact used
  | inr answered =>
    obtain ⟨s, _, run⟩ := answered
    rw [run]
    exact marked_inUse used _ _

/-- The block handed out was free, and is in use from then on. -/
theorem heapMalloc_takes (kernel : KernelHeap heap) {n : UInt32} (positive : 1 ≤ n.toNat)
    (small : n.toNat < 2 ^ 31) (nonzero : (heapMalloc heap n).1 ≠ 0) :
    (heapMalloc heap n).2.InUse (heapMalloc heap n).1 := by
  cases heapMalloc_cases heap n with
  | inl failed =>
    rw [failed] at nonzero
    exact absurd rfl nonzero
  | inr answered =>
    obtain ⟨s, free, run⟩ := answered
    have inside := free.1
    rw [kernel.total] at inside
    have blocks := blocksToAllocate_toNat n
    have few : 1 ≤ blocksNeeded n ∧ blocksNeeded n < 2 ^ 20 := by
      unfold blocksNeeded
      omega
    rw [if_pos few.2] at blocks
    have index : (UInt32.ofNat s).toNat = s := by
      rw [UInt32.toNat_ofNat']
      omega
    have last : (UInt32.ofNat s + blocksToAllocate n - 1).toNat = s + blocksNeeded n - 1 := by
      rw [UInt32.toNat_sub, UInt32.toNat_add, index, blocks]
      simp only [UInt32.reduceToNat]
      omega
    rw [run, updateHeapTable_entries]
    refine ⟨s, free.1, rfl, ?_⟩
    simp only [Heap.setEntries_entries, last, index]
    split
    · decide
    · rw [if_pos (by omega)]
      decide

end

/-- A heap with the kernel's pool. -/
def KernelPool := { heap : Heap // KernelHeap heap }

def kernelPool : Allocator KernelPool where
  malloc pool n := ((heapMalloc pool.1 n).1, ⟨(heapMalloc pool.1 n).2, pool.2.malloc n⟩)
  free pool addr := ⟨(heapFree pool.1 addr).2, pool.2.free addr⟩

/-- No file can be opened, and no descriptor is known. -/
def noFiles {H : Type} : FileOps H where
  fopen h m _ _ := (0, h, m)
  fstat h m _ := ((-eio, 0), h, m)
  fread h m _ _ _ _ := (-einvarg, h, m)
  fclose h m _ := (-eio, h, m)

def kernelPoolLaws : LoadLaws kernelPool noFiles where
  live pool x := pool.1.InUse x
  held pool x := pool.1.InUse x
  opened _ _ := False
  held_live _ _ := id
  malloc_aligned pool n := by
    dsimp only [kernelPool]
    cases heapMalloc_cases pool.1 n with
    | inl failed =>
      rw [failed]
      exact UInt32.zero_mod
    | inr answered =>
      obtain ⟨s, _, run⟩ := answered
      rw [run]
      exact addr_aligned pool.2.placed s
  malloc_null pool n null := by
    dsimp only [kernelPool] at null ⊢
    cases heapMalloc_cases pool.1 n with
    | inl failed =>
      rw [failed]
      exact ⟨fun _ => id, fun _ => id⟩
    | inr answered =>
      obtain ⟨s, free, run⟩ := answered
      rw [run] at null
      exact absurd null (pool.2.blockAddr_ne_zero free)
  malloc_fresh pool n nonzero used := by
    dsimp only [kernelPool] at nonzero used
    cases heapMalloc_cases pool.1 n with
    | inl failed =>
      rw [failed] at nonzero
      exact nonzero rfl
    | inr answered =>
      obtain ⟨s, free, run⟩ := answered
      rw [run] at used
      exact pool.2.free_apart free used rfl
  malloc_new pool _ positive small nonzero := heapMalloc_takes pool.2 positive small nonzero
  malloc_held pool n _ used := heapMalloc_inUse used n
  fopen _ _ _ _ _ := id
  fstat _ _ _ _ := id
  fread _ _ _ _ _ _ _ := id
  fclose _ _ _ _ := id

/-- The kernel before its first load, with the given table of processes. -/
def idleKernel (processes : Nat → UInt32) : Kernel KernelPool where
  heap := ⟨newHeap, (filledHeap_packed (Nat.zero_le _)).1⟩
  ram := fun _ => 0
  kernelPageChunk := 0
  tasks := fun _ => Task.zero
  currentTask := 0
  taskListHead := 0
  taskListTail := 0
  procs := fun _ => Process.zero
  currentProcess := 0
  processes

theorem newHeap_free {k : Nat} (inside : k < newHeap.table.total.toNat) :
    newHeap.table.entries k = heapBlockTableEntryFree := by
  have total : newHeap.table.total.toNat = 25600 := kheapInit_total _ _
  have free : FreeRun newHeap 25600 0 := kheapInit_free _ _ (Nat.le_refl 25600)
  exact free.2 k (Nat.zero_le k) (by omega)

theorem newHeap_grants : (heapMalloc newHeap sizeofProcess).1 ≠ 0 := by
  have kernel : KernelHeap newHeap := (filledHeap_packed (Nat.zero_le _)).1
  obtain ⟨s, least, address, _⟩ := heapMalloc_fits kernel.placed (n := sizeofProcess) (by decide)
    ⟨0, kheapInit_free _ _ (by decide)⟩
  have two : blocksNeeded sizeofProcess = 2 := by decide
  have inside := least.1.1
  rw [address]
  exact kernel.blockAddr_ne_zero ⟨by omega, least.1.2 s (Nat.le_refl s) (by omega)⟩

theorem noFiles_unread {H : Type} (A : Allocator H) (k : Kernel H) (filename : List UInt8) (p : UInt32) :
    (processLoadData A noFiles k filename p).1 ≠ peachosAllOk := by
  unfold processLoadData processLoadBinary
  dsimp only [noFiles]
  rw [if_pos rfl]
  exact (show -eio ≠ peachosAllOk by decide)

/-- A missing file costs the heap a record. -/
theorem missing_file_keeps_record : ¬ ∀ (k : Kernel KernelPool) (filename : List UInt8) (step : LoadStep)
    (process : UInt32), FailsAt kernelPool noFiles k filename step →
    LoadUndone kernelPoolLaws k (processLoad kernelPool noFiles k filename process) := by
  intro always
  have grants := newHeap_grants
  rcases hz : (idleKernel fun _ => 0).kZalloc kernelPool sizeofProcess with ⟨p, k₁⟩
  obtain ⟨address, _⟩ := Kernel.kZalloc_step hz
  have record : HasRecord kernelPool (idleKernel fun _ => 0) (k₁.modifyProc p fun _ => Process.zero) p :=
    ⟨⟨0, by decide, rfl⟩, address ▸ grants, k₁, hz, rfl⟩
  have undone := always (idleKernel fun _ => 0) [] .program 0 (.program record (noFiles_unread _ _ _ _))
  have kept := processLoad_keeps_record [] kernelPoolLaws record 0 undone.negative
  obtain ⟨k, inside, _, taken⟩ := undone.freed p kept
  exact taken (newHeap_free inside)

end PeachOs
