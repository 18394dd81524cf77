import PeachOs.PagingEdges

/-!
# Tasks that cannot be made

`task_new` cleans up with `task_free`, which goes through the task and its page
directory, and one of the two is NULL whenever `task_new` fails. Its result is
an error number as a pointer, and `process_load_for_slot` looks for NULL.
-/

namespace PeachOs

variable {H : Type} (A : Allocator H)

/-- There is no block for the task, or `task_init` reports that there is no page directory. -/
inductive TaskNewFails (k : Kernel H) (process : UInt32) : Prop
  | block (null : (A.malloc k.heap sizeofTask).1 = 0) : TaskNewFails k process
  | directory {task : UInt32} {k₁ : Kernel H} (block : k.kZalloc A sizeofTask = (task, k₁)) (nonzero : task ≠ 0)
      (failed : (taskInit A k₁ task process).1 ≠ peachosAllOk) : TaskNewFails k process

/-- `task_free` reads the page directory in the task, and `paging_free_4gb` the
directory in the page directory. -/
def taskFreePointers (k : Kernel H) (task : UInt32) : List UInt32 := [task, (k.tasks task).pageDirectory]

/-- The pointers that `task_new` has `task_free` go through. -/
def taskNewPointers (k : Kernel H) (process : UInt32) : List UInt32 :=
  let (task, k) := k.kZalloc A sizeofTask
  if task = 0 then taskFreePointers k task
  else
    let (res, k) := taskInit A k task process
    if res < 0 then taskFreePointers k task else []

/-- A failure that leaves nothing behind, and that the loader's test recognises. -/
structure TaskNewUndone (k : Kernel Heap) (process : UInt32) : Prop where
  followed : 0 ∉ taskNewPointers kernelAllocator k process
  taskListHead : (taskNew kernelAllocator k process).2.taskListHead = k.taskListHead
  taskListTail : (taskNew kernelAllocator k process).2.taskListTail = k.taskListTail
  currentTask : (taskNew kernelAllocator k process).2.currentTask = k.currentTask
  table : ∀ i < k.heap.table.total.toNat,
    (taskNew kernelAllocator k process).2.heap.table.entries i = k.heap.table.entries i
  recognised : errorI (taskNew kernelAllocator k process).1 = 0

variable {A} {k : Kernel H} {process : UInt32}

/-- `task_init` fails with a task that has no page directory. -/
theorem taskInit_failed {task : UInt32} (failed : (taskInit A k task process).1 ≠ peachosAllOk) :
    (taskInit A k task process).1 = -eio ∧
      ((taskInit A k task process).2.tasks task).pageDirectory = 0 := by
  revert failed
  unfold taskInit
  rcases pagingNew4gb A k.heap k.ram (pagingIsPresent ||| pagingAccessFromAll) with ⟨pageDirectory, heap, ram⟩
  dsimp only
  by_cases null : pageDirectory = 0
  · rw [if_pos null]
    intro _
    refine ⟨rfl, ?_⟩
    simp [Kernel.setTask, null]
  · rw [if_neg null]
    exact fun failed => absurd rfl failed

/-- **Both ways to fail** go through NULL, and return an error number. -/
theorem taskNew_failed (failed : TaskNewFails A k process) :
    0 ∈ taskNewPointers A k process ∧
      ((taskNew A k process).1 = error (-enomem) ∨ (taskNew A k process).1 = error (-eio)) := by
  cases failed with
  | block null =>
    have ptr : (k.kZalloc A sizeofTask).1 = 0 := congrArg Prod.fst (kZalloc_null A null k.ram)
    unfold taskNewPointers taskNew
    rcases hz : k.kZalloc A sizeofTask with ⟨task, k₁⟩
    rw [hz] at ptr
    obtain rfl : task = 0 := ptr
    dsimp only
    rw [if_pos rfl, if_pos rfl]
    exact ⟨List.mem_cons_self, Or.inl rfl⟩
  | @directory task k₁ block nonzero failed =>
    obtain ⟨res, directory⟩ := taskInit_failed failed
    unfold taskNewPointers taskNew
    rw [block]
    dsimp only
    rw [if_neg nonzero, if_neg nonzero]
    rcases hi : taskInit A k₁ task process with ⟨r, k₂⟩
    rw [hi] at res directory failed
    obtain rfl : r = -eio := res
    dsimp only at directory ⊢
    rw [if_pos (by decide), if_pos (by decide), if_pos (by decide), taskFreePointers, directory]
    exact ⟨List.mem_cons_of_mem _ List.mem_cons_self, Or.inr rfl⟩

/-- **A failing `task_new` is never undone**: it goes through NULL, and the loader
takes the error for a task. -/
theorem taskNew_never_undone {k : Kernel Heap} {process : UInt32} (failed : TaskNewFails kernelAllocator k process) :
    0 ∈ taskNewPointers kernelAllocator k process ∧ errorI (taskNew kernelAllocator k process).1 < 0 ∧
      ¬ TaskNewUndone k process := by
  obtain ⟨null, result⟩ := taskNew_failed failed
  refine ⟨null, ?_, fun undone => undone.followed null⟩
  rcases result with error | error
  · rw [error]
    decide
  · rw [error]
    decide

/-- A kernel without tasks. -/
def tasklessKernel (heap : Heap) : Kernel Heap where
  heap
  ram _ := 0
  kernelPageChunk := 0
  tasks _ := Task.zero
  currentTask := 0
  taskListHead := 0
  taskListTail := 0
  procs _ := Process.zero
  currentProcess := 0
  processes _ := 0

theorem task_null_of_full {heap : Heap} (none : (freeEntries heap).length = 0) :
    (heapMalloc heap sizeofTask).1 = 0 := by
  have full : heapMalloc heap sizeofTask = (0, heap) := by
    apply heapMalloc_full (by decide) (by decide)
    intro i free
    have mem : i ∈ freeEntries heap := mem_freeEntries.mpr free
    rw [List.length_eq_zero_iff.mp none] at mem
    cases mem
  rw [full]

theorem tasklessKernel_fails {heap : Heap} (none : (freeEntries heap).length = 0) :
    TaskNewFails kernelAllocator (tasklessKernel heap) 0 :=
  .block (task_null_of_full none)

theorem full_heap_never_undone :
    0 ∈ taskNewPointers kernelAllocator (tasklessKernel (filledHeap 25600)) 0 ∧
      errorI (taskNew kernelAllocator (tasklessKernel (filledHeap 25600)) 0).1 < 0 ∧
      ¬ TaskNewUndone (tasklessKernel (filledHeap 25600)) 0 := by
  obtain ⟨_, none⟩ := filledHeap_crowded
  exact taskNew_never_undone (tasklessKernel_fails none)

/-- Without a block `task_free` is called with NULL. -/
theorem full_heap_frees_null : ¬ ∀ (k : Kernel Heap) (process : UInt32), TaskNewFails kernelAllocator k process →
    TaskNewUndone k process := by
  intro always
  obtain ⟨_, none⟩ := filledHeap_crowded
  have failed := tasklessKernel_fails none
  have undone := always (tasklessKernel (filledHeap 25600)) 0 failed
  exact undone.followed (taskNew_failed failed).1

end PeachOs
