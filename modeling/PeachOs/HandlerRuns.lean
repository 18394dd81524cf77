import PeachOs.Idt
import PeachOs.PagingFree

/-!
# Which directory is loaded

Every helper that loads the directory of a task ends with the kernel's, so a
command returns to its handler under the kernel's directory, and a handler
returns to user mode under that of the current task.
-/

namespace PeachOs

open Memory Address

/-! ## A block taken and given back -/

theorem heapFree_malloc {heap : Heap} (placed : Placed heap) {n : UInt32} (positive : 1 ≤ n.toNat)
    (small : n.toNat ≤ 4096) {k : Nat} (free : k ∈ heap.freeBlocks) :
    (heapFree (heapMalloc heap n).2 (heapMalloc heap n).1).2 = heap := by
  have room : ([] : List Nat).length < (freeEntries heap).length :=
    List.length_pos_of_mem (mem_freeEntries.mpr free)
  obtain ⟨i, ptr, marked⟩ := (Marked.nil.mpr rfl : Marked heap heap []).malloc placed room positive small
  have cleared := marked.free_block placed (List.mem_singleton.mpr rfl : i ∈ [] ++ [i])
  rw [ptr]
  simpa [Marked.nil] using cleared

variable {s s' : Machine Heap} {directory : UInt32} {tables : Nat → UInt32}

/-- The kernel's directory is loaded, with the kernel's data segments. -/
structure InKernel (s : Machine Heap) : Prop where
  cr3 : s.cr3 = s.kernel.kernelDirectory
  currentDirectory : s.currentDirectory = s.kernel.kernelDirectory
  segments : s.segments = ⟨0x10, 0x10, 0x10, 0x10⟩

/-- The current task's directory is loaded, with the user's data segments. -/
structure InUser (s : Machine Heap) : Prop where
  cr3 : s.cr3 = load32 s.kernel.ram (s.kernel.tasks s.kernel.currentTask).pageDirectory
  currentDirectory : s.currentDirectory = load32 s.kernel.ram (s.kernel.tasks s.kernel.currentTask).pageDirectory
  segments : s.segments = ⟨0x23, 0x23, 0x23, 0x23⟩

/-- There is a current task, made by `task_new`, and the kernel's chunk is apart from its pages. -/
structure Guarded (s : Machine Heap) (directory : UInt32) (tables : Nat → UInt32) : Prop where
  current : s.kernel.currentTask ≠ 0
  heap : KernelHeap s.kernel.heap
  space : AddressSpace s.kernel.ram (s.kernel.tasks s.kernel.currentTask).pageDirectory directory tables
  used : ∀ x, OnPages (s.kernel.tasks s.kernel.currentTask).pageDirectory directory tables x →
    s.kernel.heap.InUse (frame x)
  chunk : s.kernel.heap.InUse s.kernel.kernelPageChunk
  apart : ¬ OnPages (s.kernel.tasks s.kernel.currentTask).pageDirectory directory tables s.kernel.kernelPageChunk

/-- What no handler changes. -/
structure Kept (directory : UInt32) (tables : Nat → UInt32) (s s' : Machine Heap) : Prop where
  current : s'.kernel.currentTask = s.kernel.currentTask
  pageDirectory : (s'.kernel.tasks s.kernel.currentTask).pageDirectory =
    (s.kernel.tasks s.kernel.currentTask).pageDirectory
  chunk : s'.kernel.kernelPageChunk = s.kernel.kernelPageChunk
  kernelDirectory : s'.kernel.kernelDirectory = s.kernel.kernelDirectory
  heap : s'.kernel.heap = s.kernel.heap
  space : AddressSpace s.kernel.ram (s.kernel.tasks s.kernel.currentTask).pageDirectory directory tables →
    AddressSpace s'.kernel.ram (s.kernel.tasks s.kernel.currentTask).pageDirectory directory tables

namespace Kept

theorem refl (s : Machine Heap) : Kept directory tables s s := ⟨rfl, rfl, rfl, rfl, rfl, id⟩

theorem trans {s₁ s₂ s₃ : Machine Heap} (first : Kept directory tables s₁ s₂)
    (second : Kept directory tables s₂ s₃) : Kept directory tables s₁ s₃ := by
  have current := first.current
  have pageDirectory := second.pageDirectory
  have space := second.space
  rw [current, first.pageDirectory] at pageDirectory space
  exact ⟨second.current.trans current, pageDirectory, second.chunk.trans first.chunk,
    second.kernelDirectory.trans first.kernelDirectory, second.heap.trans first.heap,
    fun before => space (first.space before)⟩

/-- A step that leaves the kernel's memory and heap alone. -/
theorem of_kernel (current : s'.kernel.currentTask = s.kernel.currentTask)
    (pageDirectory : ∀ t, (s'.kernel.tasks t).pageDirectory = (s.kernel.tasks t).pageDirectory)
    (chunk : s'.kernel.kernelPageChunk = s.kernel.kernelPageChunk) (heap : s'.kernel.heap = s.kernel.heap)
    (ram : s'.kernel.ram = s.kernel.ram) : Kept directory tables s s' := by
  refine ⟨current, pageDirectory _, chunk, ?_, heap, fun space => ?_⟩
  · rw [Kernel.kernelDirectory, Kernel.kernelDirectory, chunk, ram]
  · rw [ram]
    exact space

theorem guarded (kept : Kept directory tables s s') (before : Guarded s directory tables) : Guarded s' directory tables := by
  have space := kept.space before.space
  have current := before.current
  have heap := before.heap
  have used := before.used
  have chunk := before.chunk
  have apart := before.apart
  rw [← kept.current] at current
  rw [← kept.heap] at heap chunk
  rw [← kept.chunk] at chunk apart
  rw [← kept.pageDirectory, ← kept.current] at space used apart
  refine ⟨current, heap, space, fun x on => ?_, chunk, apart⟩
  rw [kept.heap]
  exact used x on

end Kept

/-! ## The helpers -/

theorem Machine.kernelPage_inKernel (s : Machine Heap) : InKernel s.kernelPage := ⟨rfl, rfl, rfl⟩

theorem Machine.kernelPage_kept (s : Machine Heap) : Kept directory tables s s.kernelPage :=
  .of_kernel rfl (fun _ => rfl) rfl rfl rfl

theorem Machine.taskPage_inUser (s : Machine Heap) : InUser s.taskPage := ⟨rfl, rfl, rfl⟩

theorem Machine.taskPage_kept (s : Machine Heap) : Kept directory tables s s.taskPage := .of_kernel rfl (fun _ => rfl) rfl rfl rfl

/-- A local buffer of a handler. -/
def OnKernelStack (buff : UInt32) : Prop := buff.toNat + 4096 ≤ tssEsp0.toNat

/-- Blocks in use lie behind the kernel's stack. -/
theorem KernelHeap.inUse_high {heap : Heap} (kernel : KernelHeap heap) {p : UInt32} (used : heap.InUse p) :
    0x1000000 ≤ p.toNat ∧ p % 4096 = 0 := by
  obtain ⟨k, hk, rfl, -⟩ := used
  rw [kernel.total] at hk
  have place := kernel.blockAddr_toNat hk
  exact ⟨by omega, addr_aligned kernel.placed k⟩

theorem OnKernelStack.off {heap : Heap} (kernel : KernelHeap heap) {buff x : UInt32} (below : OnKernelStack buff)
    (inside : InRange x buff 4096) : ¬ heap.InUse (frame x) := by
  intro used
  obtain ⟨high, -⟩ := kernel.inUse_high used
  unfold OnKernelStack at below
  have top : tssEsp0.toNat = 0x600000 := rfl
  rw [inRange_iff (by omega)] at inside
  rw [frame_toNat] at high
  omega

theorem Guarded.onHeap (guarded : Guarded s directory tables) {buff : UInt32} (below : OnKernelStack buff) :
    TaskOnHeap s.kernel.heap s.kernel.ram (s.kernel.tasks s.kernel.currentTask) directory tables buff 4096 :=
  ⟨guarded.heap, guarded.space, guarded.used, fun x inside on => below.off guarded.heap inside (guarded.used x on)⟩

/-- The kernel's directory is what it was when the pages of the chunk are. -/
theorem Guarded.kernelDirectory (guarded : Guarded s directory tables) {d : UInt32 → Prop} {m : Ram}
    (same : Agree d s.kernel.ram m) (page : ∀ x, frame x = s.kernel.kernelPageChunk → d x) :
    load32 m s.kernel.kernelPageChunk = s.kernel.kernelDirectory := by
  have first : slot s.kernel.kernelPageChunk 0 = s.kernel.kernelPageChunk := by simp [slot]
  have word := same.slot (guarded.heap.inUse_high guarded.chunk).2 (i := 0) (by decide) page
  rw [first] at word
  exact word

/-- The copy works like the plain one, and ends with the switch to the kernel's directory
in the memory `m` between the two copies. -/
theorem Machine.copySwitched_refines {H : Type} {A : Allocator H} {s s' : Machine H}
    {chunk taskDirectory tmp oldEntry virtual phy : UInt32} {max res : Int} (run : s.copySwitched A chunk taskDirectory tmp oldEntry virtual phy max = some (res, s')) :
    PeachOs.copySwitched A s.kernel.heap s.kernel.ram (load32 s.kernel.ram chunk) taskDirectory tmp oldEntry virtual
        phy max = some (res, s'.kernel.heap, s'.kernel.ram) ∧
      s'.kernel = { s.kernel with heap := s'.kernel.heap, ram := s'.kernel.ram } ∧
      ∃ m, strncpy (translate (load32 s.kernel.ram chunk)) s.kernel.ram tmp virtual max = some m ∧
        s'.cr3 = load32 m s.kernel.kernelPageChunk ∧ s'.currentDirectory = load32 m s.kernel.kernelPageChunk ∧
        s'.segments = ⟨0x10, 0x10, 0x10, 0x10⟩ := by
  obtain ⟨m, copyRun, run⟩ := Option.bind_eq_some_iff.mp run
  have plain : strncpy (translate (load32 s.kernel.ram chunk)) s.kernel.ram tmp virtual max = some m := copyRun
  rw [PeachOs.copySwitched, Option.bind_eq_bind, plain, Option.bind_some]
  dsimp only at run ⊢
  by_cases failed : (pagingSet m taskDirectory tmp oldEntry).1 < 0
  · rw [if_pos failed] at run ⊢
    cases run
    exact ⟨rfl, rfl, m, rfl, rfl, rfl, rfl⟩
  · rw [if_neg failed] at run ⊢
    obtain ⟨m₂, outRun, run⟩ := Option.bind_eq_some_iff.mp run
    cases run
    rw [outRun, Option.bind_some]
    exact ⟨rfl, rfl, m, rfl, rfl, rfl, rfl⟩

/-- Without a block nothing is switched. -/
theorem Machine.copyStringFromTask_enomem (full : ∀ k, k ∉ s.kernel.heap.freeBlocks) (task virtual phy : UInt32) :
    s.copyStringFromTask kernelAllocator task virtual phy 4096 = some (-enomem, s) := by
  have none : kernelAllocator.malloc s.kernel.heap (.ofInt 4096) = (0, s.kernel.heap) :=
    heapMalloc_full (by decide) (by decide) full
  have alloc := kZalloc_null kernelAllocator (congrArg Prod.fst none) s.kernel.ram
  rw [none] at alloc
  unfold Machine.copyStringFromTask
  rw [if_neg (by decide), Kernel.kZalloc, alloc]
  rfl

theorem Machine.copyStringFromTask_full {task virtual phy : UInt32} {res : Int}
    (full : ∀ k, k ∉ s.kernel.heap.freeBlocks)
    (run : s.copyStringFromTask kernelAllocator task virtual phy 4096 = some (res, s')) : s' = s := by
  rw [Machine.copyStringFromTask_enomem full] at run
  cases run
  rfl

/-- With a block the call comes to the switch. -/
theorem Machine.copyStringFromTask_switch {task virtual phy tmp : UInt32} {m₁ m₂ : Ram} {res : Int}
    (block : TmpBlock kernelAllocator s.kernel.heap (s.kernel.tasks task) directory tables 4096 tmp)
    (mapped : TmpMapped kernelAllocator s.kernel.heap s.kernel.ram (s.kernel.tasks task) directory tables 4096 tmp m₁ m₂)
    (run : s.copyStringFromTask kernelAllocator task virtual phy 4096 = some (res, s')) :
    PeachOs.copyStringFromTask kernelAllocator s.kernel.heap s.kernel.ram (s.kernel.tasks task) virtual phy 4096 =
        some (res, s'.kernel.heap, s'.kernel.ram) ∧
      s'.kernel = { s.kernel with heap := s'.kernel.heap, ram := s'.kernel.ram } ∧
      ∃ m, strncpy (translate directory) m₂ tmp virtual 4096 = some m ∧
        s'.cr3 = load32 m s.kernel.kernelPageChunk ∧ s'.currentDirectory = load32 m s.kernel.kernelPageChunk ∧
        s'.segments = ⟨0x10, 0x10, 0x10, 0x10⟩ := by
  unfold Machine.copyStringFromTask at run
  rw [if_neg (by decide), Kernel.kZalloc, mapped.alloc] at run
  dsimp only at run
  rw [if_neg block.nonzero, mapped.mapRun] at run
  obtain ⟨plain, kernel, m, copyRun, switched⟩ := Machine.copySwitched_refines run
  refine ⟨?_, kernel, m, ?_, switched⟩
  · unfold PeachOs.copyStringFromTask
    rw [if_neg (by decide), mapped.alloc]
    dsimp only
    rw [if_neg block.nonzero, mapped.mapRun]
    exact plain
  · rw [← mapped.set.space.chunk_entry]
    exact copyRun

/-- **A copy ends under the kernel's directory**, also when it fails. -/
theorem Machine.copyStringFromTask_served {virtual buff : UInt32} {res : Int} (guarded : Guarded s directory tables)
    (inKernel : InKernel s) (below : OnKernelStack buff)
    (run : s.copyStringFromTask kernelAllocator s.kernel.currentTask virtual buff 4096 = some (res, s')) :
    InKernel s' ∧ Kept directory tables s s' := by
  by_cases full : ∀ k, k ∉ s.kernel.heap.freeBlocks
  · rw [Machine.copyStringFromTask_full full run]
    exact ⟨inKernel, .refl s⟩
  · obtain ⟨k, least⟩ := least_free full
    have on := guarded.onHeap below
    have block := on.block (by decide) (by decide) least
    obtain ⟨m₁, m₂, mapped⟩ := block.mapped kernelAllocator guarded.space (by decide) (by decide)
    obtain ⟨plain, kernel, m, copyRun, cr3, current, segments⟩ := Machine.copyStringFromTask_switch block mapped run
    obtain ⟨-, through⟩ := mapped.copied kernelAllocator (by decide) (by decide) block copyRun
    obtain ⟨heap, m₃, restored, written⟩ :=
      copyStringFromTask_spec kernelAllocator guarded.space (by decide) (by decide) block plain
    -- the chunk's page is neither the block, nor a table, nor the buffer
    have page (x : UInt32) (onChunk : frame x = s.kernel.kernelPageChunk) :
        (frame x ≠ s.kernel.heap.blockAddr k ∧ ∀ i < 1024, frame x ≠ tables i) ∧ ¬ InRange x buff 4096 := by
      have used := onChunk ▸ guarded.chunk
      refine ⟨⟨guarded.heap.free_apart least.1 used, fun i hi same => guarded.apart ?_⟩, fun inside =>
        below.off guarded.heap inside used⟩
      have aligned := (guarded.heap.inUse_high guarded.chunk).2
      exact Or.inr (Or.inr ⟨i, hi, (frame_of_aligned aligned).trans (onChunk.symm.trans same)⟩)
    have middle := guarded.kernelDirectory through fun x hx => (page x hx).1
    have final := guarded.kernelDirectory (fun x hx => (written x hx.2).trans (restored.others x hx.1)) page
    have chunk : s'.kernel.kernelPageChunk = s.kernel.kernelPageChunk := by rw [kernel]
    have loaded : s'.kernel.kernelDirectory = s.kernel.kernelDirectory := by
      rw [← final, ← chunk]
      rfl
    constructor
    · exact ⟨(cr3.trans middle).trans loaded.symm, (current.trans middle).trans loaded.symm, segments⟩
    · refine ⟨by rw [kernel], by rw [kernel], chunk, loaded, ?_, fun _ => ?_⟩
      · rw [heap, ← block.malloc]
        exact heapFree_malloc guarded.heap.placed (by decide) (by decide) least.1
      · exact restored.space.of_agree written fun x hx inside =>
          on.buffer x inside (hx.elim Or.inl fun hx => Or.inr (Or.inl hx))

theorem Machine.taskGetStackItem_served {task item : UInt32} {index : Int}
    (run : s.taskGetStackItem task index = some (item, s')) : InKernel s' ∧ Kept directory tables s s' := by
  obtain ⟨v, -, returned⟩ := Option.bind_eq_some_iff.mp run
  cases returned
  exact ⟨Machine.kernelPage_inKernel _, .of_kernel rfl (fun _ => rfl) rfl rfl rfl⟩

/-! ## Commands and callbacks -/

theorem InKernel.of_same (inKernel : InKernel s) (loaded : s'.kernel.kernelDirectory = s.kernel.kernelDirectory)
    (cr3 : s'.cr3 = s.cr3) (current : s'.currentDirectory = s.currentDirectory) (segments : s'.segments = s.segments) :
    InKernel s' :=
  ⟨cr3.trans (inKernel.cr3.trans loaded.symm), current.trans (inKernel.currentDirectory.trans loaded.symm),
    segments.trans inKernel.segments⟩

/-- A step that switches nothing and changes processes and the terminal only. -/
theorem served_of_procs (inKernel : InKernel s)
    (shape : ∃ procs terminal, s' = { s with kernel := { s.kernel with procs }, terminal }) :
    InKernel s' ∧ Kept directory tables s s' := by
  obtain ⟨procs, terminal, rfl⟩ := shape
  exact ⟨inKernel.of_same rfl rfl rfl rfl, .of_kernel rfl (fun _ => rfl) rfl rfl rfl⟩

theorem keyboardPop_procs {H : Type} (k : Kernel H) : ∃ procs, (keyboardPop k).2 = { k with procs } := by
  unfold keyboardPop
  split
  · exact ⟨k.procs, rfl⟩
  · dsimp only
    split
    · exact ⟨k.procs, rfl⟩
    · exact ⟨_, rfl⟩

theorem keyboardPush_procs {H : Type} (k : Kernel H) (c : UInt8) : ∃ procs, keyboardPush k c = { k with procs } := by
  unfold keyboardPush
  dsimp only
  split
  · exact ⟨k.procs, rfl⟩
  · exact ⟨_, rfl⟩

theorem classicKeyboardHandleInterrupt_procs {H : Type} (k : Kernel H) (behind scancode : UInt8) :
    ∃ procs, classicKeyboardHandleInterrupt k behind scancode = { k with procs } := by
  unfold classicKeyboardHandleInterrupt
  dsimp only
  split
  · exact ⟨k.procs, rfl⟩
  · split
    · exact keyboardPush_procs k _
    · exact ⟨k.procs, rfl⟩

theorem Machine.isr80hCommand0Sum_served {res : UInt32} (run : s.isr80hCommand0Sum = some (res, s')) :
    InKernel s' ∧ Kept directory tables s s' := by
  obtain ⟨⟨v2, s₁⟩, first, run⟩ := Option.bind_eq_some_iff.mp run
  obtain ⟨⟨v1, s₂⟩, second, run⟩ := Option.bind_eq_some_iff.mp run
  cases run
  have kept : Kept directory tables s s₁ := (Machine.taskGetStackItem_served first).2
  obtain ⟨inKernel, kept'⟩ := Machine.taskGetStackItem_served second
  exact ⟨inKernel, kept.trans kept'⟩

theorem Machine.isr80hCommad1Print_served {buff res : UInt32} (guarded : Guarded s directory tables)
    (below : OnKernelStack buff) (run : s.isr80hCommad1Print kernelAllocator buff = some (res, s')) :
    InKernel s' ∧ Kept directory tables s s' := by
  obtain ⟨⟨msg, s₁⟩, first, run⟩ := Option.bind_eq_some_iff.mp run
  obtain ⟨⟨r, s₂⟩, copy, run⟩ := Option.bind_eq_some_iff.mp run
  obtain ⟨s₃, print, run⟩ := Option.bind_eq_some_iff.mp run
  cases run
  obtain ⟨chars, -, print⟩ := Option.bind_eq_some_iff.mp print
  cases print
  obtain ⟨inKernel₁, kept₁⟩ : InKernel s₁ ∧ Kept directory tables s s₁ := Machine.taskGetStackItem_served first
  obtain ⟨inKernel₂, kept₂⟩ := Machine.copyStringFromTask_served (kept₁.guarded guarded) inKernel₁ below copy
  obtain ⟨inKernel₃, kept₃⟩ := served_of_procs inKernel₂ ⟨s₂.kernel.procs, _, rfl⟩
  exact ⟨inKernel₃, (kept₁.trans kept₂).trans kept₃⟩

theorem Machine.isr80hCommand2Getkey_served (inKernel : InKernel s) :
    InKernel s.isr80hCommand2Getkey.2 ∧ Kept directory tables s s.isr80hCommand2Getkey.2 := by
  obtain ⟨procs, popped⟩ := keyboardPop_procs s.kernel
  apply served_of_procs inKernel
  refine ⟨procs, s.terminal, ?_⟩
  rw [← popped]
  rfl

theorem Machine.isr80hCommand3Putchar_served {res : UInt32} (run : s.isr80hCommand3Putchar = some (res, s')) :
    InKernel s' ∧ Kept directory tables s s' := by
  obtain ⟨⟨c, s₁⟩, first, run⟩ := Option.bind_eq_some_iff.mp run
  cases run
  obtain ⟨inKernel₁, kept₁⟩ : InKernel s₁ ∧ Kept directory tables s s₁ := Machine.taskGetStackItem_served first
  obtain ⟨inKernel₂, kept₂⟩ := served_of_procs inKernel₁ ⟨s₁.kernel.procs, _, rfl⟩
  exact ⟨inKernel₂, kept₁.trans kept₂⟩

/-- **Every command returns to its handler under the kernel's directory.** -/
theorem Isr80hCommand.run_served {command : Isr80hCommand} {buff res : UInt32} (guarded : Guarded s directory tables)
    (inKernel : InKernel s) (below : OnKernelStack buff) (run : command.run kernelAllocator s buff = some (res, s')) :
    InKernel s' ∧ Kept directory tables s s' := by
  cases command with
  | command0Sum => exact Machine.isr80hCommand0Sum_served run
  | commad1Print => exact Machine.isr80hCommad1Print_served guarded below run
  | command2Getkey =>
    cases run
    exact Machine.isr80hCommand2Getkey_served inKernel
  | command3Putchar => exact Machine.isr80hCommand3Putchar_served run

theorem InterruptCallback.run_served (callback : InterruptCallback) (inKernel : InKernel s) (behind scancode : UInt8) :
    InKernel (callback.run s behind scancode) ∧ Kept directory tables s (callback.run s behind scancode) := by
  cases callback with
  | classicKeyboardHandleInterrupt =>
    obtain ⟨procs, handled⟩ := classicKeyboardHandleInterrupt_procs s.kernel behind scancode
    apply served_of_procs inKernel
    refine ⟨procs, s.terminal, ?_⟩
    rw [← handled]
    rfl

theorem Machine.isr80hHandleCommand_served {command : Int} {buff res : UInt32} (guarded : Guarded s directory tables)
    (inKernel : InKernel s) (below : OnKernelStack buff)
    (run : s.isr80hHandleCommand kernelAllocator command buff = some (res, s')) :
    InKernel s' ∧ Kept directory tables s s' := by
  unfold Machine.isr80hHandleCommand at run
  split at run
  · cases run
    exact ⟨inKernel, .refl s⟩
  · split at run
    · cases run
      exact ⟨inKernel, .refl s⟩
    · exact Isr80hCommand.run_served guarded inKernel below run

/-! ## Handlers -/

/-- The entry of a handler: the kernel's directory, and the state saved. -/
theorem Machine.taskCurrentSaveState_served {frame : InterruptFrame}
    (saved : s.kernelPage.taskCurrentSaveState frame = some s') : InKernel s' ∧ Kept directory tables s s' := by
  unfold Machine.taskCurrentSaveState at saved
  split at saved
  · cases saved
  · cases saved
    refine ⟨⟨rfl, rfl, rfl⟩, .of_kernel rfl (fun t => ?_) rfl rfl rfl⟩
    by_cases here : t = s.kernel.currentTask
    · rw [here]
      simp [Machine.kernelPage, Machine.pagingSwitch, Machine.kernelRegisters, Kernel.modifyTask, taskSaveState]
    · exact congrArg Task.pageDirectory (Function.update_of_ne here _ _)

theorem Machine.isr80hHandler_returns {command : Int} {frame : InterruptFrame} {buff res : UInt32}
    (guarded : Guarded s directory tables) (below : OnKernelStack buff)
    (run : s.isr80hHandler kernelAllocator command frame buff = some (res, s')) :
    InUser s' ∧ Kept directory tables s s' := by
  obtain ⟨s₁, saved, run⟩ := Option.bind_eq_some_iff.mp run
  obtain ⟨⟨r, s₂⟩, handled, run⟩ := Option.bind_eq_some_iff.mp run
  cases run
  obtain ⟨inKernel₁, kept₁⟩ := Machine.taskCurrentSaveState_served saved
  obtain ⟨-, kept₂⟩ := Machine.isr80hHandleCommand_served (kept₁.guarded guarded) inKernel₁ below handled
  exact ⟨Machine.taskPage_inUser s₂, (kept₁.trans kept₂).trans (Machine.taskPage_kept s₂)⟩

theorem Machine.interruptHandler_returns {interrupt : Fin peachosTotalInterrupts} {frame : InterruptFrame}
    {behind scancode : UInt8} (run : s.interruptHandler interrupt frame behind scancode = some s') :
    InUser s' ∧ Kept directory tables s s' := by
  obtain ⟨s₁, handled, rfl⟩ := Option.map_eq_some_iff.mp run
  have kept : Kept directory tables s s₁ := by
    split at handled
    · cases handled
      exact Machine.kernelPage_kept s
    · obtain ⟨s₂, saved, handled⟩ := Option.map_eq_some_iff.mp handled
      subst handled
      obtain ⟨inKernel, kept⟩ := Machine.taskCurrentSaveState_served saved
      exact kept.trans (InterruptCallback.run_served _ inKernel behind scancode).2
  exact ⟨Machine.taskPage_inUser s₁, kept.trans (Machine.taskPage_kept s₁)⟩

/-! ## Runs -/

/-- User mode changes memory and segments, but neither the tables of the current
task nor the kernel's chunk. -/
structure UserMode (directory : UInt32) (tables : Nat → UInt32) (s s' : Machine Heap) : Prop where
  shape : ∃ ram segments, s' = { s with kernel := { s.kernel with ram }, segments }
  pages : Agree (fun x => OnPages (s.kernel.tasks s.kernel.currentTask).pageDirectory directory tables x ∨
    frame x = s.kernel.kernelPageChunk) s.kernel.ram s'.kernel.ram

theorem UserMode.kept (user : UserMode directory tables s s') (guarded : Guarded s directory tables) :
    Kept directory tables s s' := by
  obtain ⟨⟨ram, segments, rfl⟩, pages⟩ := user
  refine ⟨rfl, rfl, rfl, guarded.kernelDirectory pages fun x => Or.inr, rfl, fun space => ?_⟩
  exact space.of_agree pages fun x hx => Or.inl (hx.elim Or.inl fun hx => Or.inr (Or.inl hx))

/-- Calls of the handlers from `s₀` on, with user mode in between. A state of a
run is one in which a handler returned. -/
inductive HandlerRun (directory : UInt32) (tables : Nat → UInt32) (s₀ : Machine Heap) : Machine Heap → Prop
  | start : HandlerRun directory tables s₀ s₀
  | isr80h {s s₁ s' : Machine Heap} {command : Int} {frame : InterruptFrame} {buff res : UInt32}
      (run : HandlerRun directory tables s₀ s) (user : UserMode directory tables s s₁) (below : OnKernelStack buff)
      (returned : s₁.isr80hHandler kernelAllocator command frame buff = some (res, s')) :
      HandlerRun directory tables s₀ s'
  | interrupt {s s₁ s' : Machine Heap} {interrupt : Fin peachosTotalInterrupts} {frame : InterruptFrame}
      {behind scancode : UInt8} (run : HandlerRun directory tables s₀ s) (user : UserMode directory tables s s₁)
      (returned : s₁.interruptHandler interrupt frame behind scancode = some s') :
      HandlerRun directory tables s₀ s'

theorem HandlerRun.kept {s₀ : Machine Heap} (run : HandlerRun directory tables s₀ s)
    (guarded : Guarded s₀ directory tables) : Kept directory tables s₀ s := by
  induction run with
  | start => exact .refl s₀
  | isr80h _ user below returned ih =>
    have kept := ih.trans (user.kept (ih.guarded guarded))
    exact kept.trans (Machine.isr80hHandler_returns (kept.guarded guarded) below returned).2
  | interrupt _ user returned ih =>
    have kept := ih.trans (user.kept (ih.guarded guarded))
    exact kept.trans (Machine.interruptHandler_returns returned).2

/-- The handlers entered from `s` switch right: to the kernel's directory of `s₀`
until they return, and back to that of its current task. -/
structure SwitchesRight (s₀ s : Machine Heap) : Prop where
  command : ∀ (command : Int) (frame : InterruptFrame) (buff res : UInt32) (s₁ s₂ : Machine Heap), OnKernelStack buff →
    s.kernelPage.taskCurrentSaveState frame = some s₁ →
    s₁.isr80hHandleCommand kernelAllocator command buff = some (res, s₂) →
      InKernel s₂ ∧ s₂.kernel.kernelDirectory = s₀.kernel.kernelDirectory
  isr80h : ∀ (command : Int) (frame : InterruptFrame) (buff res : UInt32) (s' : Machine Heap), OnKernelStack buff →
    s.isr80hHandler kernelAllocator command frame buff = some (res, s') →
      InUser s' ∧ s'.kernel.currentTask = s₀.kernel.currentTask
  callback : ∀ (callback : InterruptCallback) (frame : InterruptFrame) (behind scancode : UInt8) (s₁ : Machine Heap),
    s.kernelPage.taskCurrentSaveState frame = some s₁ →
      InKernel (callback.run s₁ behind scancode) ∧
        (callback.run s₁ behind scancode).kernel.kernelDirectory = s₀.kernel.kernelDirectory
  interrupt : ∀ (interrupt : Fin peachosTotalInterrupts) (frame : InterruptFrame) (behind scancode : UInt8)
    (s' : Machine Heap), s.interruptHandler interrupt frame behind scancode = some s' →
      InUser s' ∧ s'.kernel.currentTask = s₀.kernel.currentTask

/-- **Commands and callbacks return under the kernel's directory, and handlers to
user mode under the current task's**, whatever calls came before. -/
theorem HandlerRun.switches_right {s₀ : Machine Heap} (guarded : Guarded s₀ directory tables)
    (run : HandlerRun directory tables s₀ s) (user : UserMode directory tables s s') : SwitchesRight s₀ s' := by
  have before := run.kept guarded
  have kept := before.trans (user.kept (before.guarded guarded))
  have guarded' := kept.guarded guarded
  constructor
  · intro command frame buff res s₁ s₂ below saved handled
    obtain ⟨inKernel₁, kept₁⟩ := Machine.taskCurrentSaveState_served saved
    obtain ⟨inKernel₂, kept₂⟩ := Machine.isr80hHandleCommand_served (kept₁.guarded guarded') inKernel₁ below handled
    exact ⟨inKernel₂, ((kept.trans kept₁).trans kept₂).kernelDirectory⟩
  · intro command frame buff res t below returned
    obtain ⟨inUser, kept₁⟩ := Machine.isr80hHandler_returns guarded' below returned
    exact ⟨inUser, (kept.trans kept₁).current⟩
  · intro callback frame behind scancode s₁ saved
    obtain ⟨inKernel₁, kept₁⟩ : InKernel s₁ ∧ Kept directory tables s' s₁ := Machine.taskCurrentSaveState_served saved
    obtain ⟨inKernel₂, kept₂⟩ := callback.run_served inKernel₁ behind scancode
    exact ⟨inKernel₂, ((kept.trans kept₁).trans kept₂).kernelDirectory⟩
  · intro interrupt frame behind scancode t returned
    obtain ⟨inUser, kept₁⟩ : InUser t ∧ Kept directory tables s' t := Machine.interruptHandler_returns returned
    exact ⟨inUser, (kept.trans kept₁).current⟩

/-- With a current task the handler of an interrupt always returns. -/
theorem Machine.interruptHandler_total (current : s.kernel.currentTask ≠ 0) (interrupt : Fin peachosTotalInterrupts)
    (frame : InterruptFrame) (behind scancode : UInt8) :
    ∃ s', s.interruptHandler interrupt frame behind scancode = some s' := by
  unfold Machine.interruptHandler
  dsimp only
  split
  · exact ⟨_, rfl⟩
  · have entered : s.kernelPage.kernel.currentTask ≠ 0 := current
    rw [Machine.taskCurrentSaveState, if_neg entered]
    exact ⟨_, rfl⟩

theorem Machine.isr80hHandler_getkey (current : s.kernel.currentTask ≠ 0)
    (registered : s.isr80hCommands = isr80hRegisterCommands) (frame : InterruptFrame) (buff : UInt32) :
    ∃ res s', s.isr80hHandler kernelAllocator 2 frame buff = some (res, s') := by
  have entered : s.kernelPage.kernel.currentTask ≠ 0 := current
  have handled (s₁ : Machine Heap) (table : s₁.isr80hCommands = isr80hRegisterCommands) :
      s₁.isr80hHandleCommand kernelAllocator 2 buff = some s₁.isr80hCommand2Getkey := by
    unfold Machine.isr80hHandleCommand
    rw [if_neg (by decide), table]
    rfl
  unfold Machine.isr80hHandler
  dsimp only
  rw [Machine.taskCurrentSaveState, if_neg entered, Option.bind_eq_bind, Option.bind_some, handled]
  · exact ⟨_, _, rfl⟩
  · exact registered

/-! ## A key pressed and read -/

/-- A machine with one task, that registers what `kernel_main` does. -/
def machineOver (heap : Heap) (ram : Ram) (chunk : UInt32) (task : Task) : Machine Heap where
  kernel :=
    { heap, ram
      kernelPageChunk := chunk
      tasks := fun _ => task
      currentTask := 0x2000000
      taskListHead := 0x2000000
      taskListTail := 0x2000000
      procs := fun _ => Process.zero
      currentProcess := 0
      processes := fun _ => 0 }
  cr3 := 0
  currentDirectory := 0
  segments := ⟨0, 0, 0, 0⟩
  terminal := ⟨0, 0, fun _ => 0, []⟩
  isr80hCommands := isr80hRegisterCommands
  callbackFunctions := fun interrupt =>
    if interrupt = isrKeyboardInterrupt then some .classicKeyboardHandleInterrupt else none

theorem machineOver_guarded {heap : Heap} {ram : Ram} {chunk : UInt32} {task : Task}
    (on : TaskOnHeap heap ram task directory tables 0x500000 4096) (used : heap.InUse chunk)
    (apart : ¬ OnPages task.pageDirectory directory tables chunk) :
    Guarded (machineOver heap ram chunk task) directory tables :=
  ⟨show (0x2000000 : UInt32) ≠ 0 by decide, on.kernel, on.space, on.used, used, apart⟩

/-- The block after the task's pages is the kernel's chunk. -/
def newMachine : Machine Heap := machineOver (filledHeap 1027) newDirectory.2.2 (newPage 1026) newTask

/-- The same with more blocks taken. -/
theorem filled_guarded {n : Nat} (lo : 1027 ≤ n) (hi : n ≤ 25600) :
    Guarded (machineOver (filledHeap n) newDirectory.2.2 (newPage 1026) newTask) (newPage 0)
      (fun i => newPage (i + 1)) := by
  obtain ⟨kernel, packed⟩ := filledHeap_packed hi
  have on := newTask_onHeap (n := n) (by omega) hi (show (4096 : Int) ≤ 4096 by decide)
  have place (k : Nat) (hk : k < 25600) : newPage k = (filledHeap n).blockAddr k := by
    rw [newPage_eq hk, Heap.blockAddr, Heap.blockAddr, kernel.saddr]
    rfl
  have address (k : Nat) (hk : k < 25600) : (newPage k).toNat = 0x1000000 + 4096 * k := by
    rw [place k hk]
    exact kernel.blockAddr_toNat hk
  have aligned : frame (newPage 1026) = newPage 1026 := by
    apply frame_of_aligned
    rw [place 1026 (by omega)]
    exact addr_aligned kernel.placed 1026
  have other (k : Nat) (hk : k < 1026) : newPage 1026 ≠ newPage k := by
    intro same
    have h := congrArg UInt32.toNat same
    rw [address 1026 (by omega), address k (by omega)] at h
    omega
  obtain ⟨chunk, -, -⟩ := newTask_built
  refine machineOver_guarded on ⟨1026, ?_, place 1026 (by omega), ?_⟩ ?_
  · rw [kernel.total]
    decide
  · rw [packed.taken 1026 (by omega)]
    decide
  · unfold OnPages
    rw [aligned, chunk]
    rintro (same | same | ⟨i, hi, same⟩)
    · exact other 1025 (by omega) same
    · exact other 0 (by omega) same
    · exact other (i + 1) (by omega) same

theorem newMachine_guarded : Guarded newMachine (newPage 0) (fun i => newPage (i + 1)) :=
  filled_guarded (by omega) (by omega)

theorem userMode_refl (s : Machine Heap) : UserMode directory tables s s :=
  ⟨⟨s.kernel.ram, s.segments, rfl⟩, Agree.refl _ _⟩

/-- After a key is read and another is pressed. -/
theorem newMachine_switches_right : ∃ res s₁ s₂,
    newMachine.isr80hHandler kernelAllocator 2 ⟨0, 0, 0, 0, 0, 0, 0, 0, 0, 0, 0, 0, 0⟩ 0x500000 = some (res, s₁) ∧
      s₁.interruptHandler isrKeyboardInterrupt ⟨0, 0, 0, 0, 0, 0, 0, 0, 0, 0, 0, 0, 0⟩ 0 0x1E = some s₂ ∧
      SwitchesRight newMachine s₂ := by
  have guarded := newMachine_guarded
  have commands : newMachine.isr80hCommands = isr80hRegisterCommands := rfl
  generalize newMachine = s at guarded commands ⊢
  have below : OnKernelStack 0x500000 := show 0x500000 + 4096 ≤ tssEsp0.toNat by decide
  obtain ⟨res, s₁, read⟩ := Machine.isr80hHandler_getkey guarded.current commands
    ⟨0, 0, 0, 0, 0, 0, 0, 0, 0, 0, 0, 0, 0⟩ 0x500000
  have kept := (Machine.isr80hHandler_returns guarded below read).2
  obtain ⟨s₂, pressed⟩ := Machine.interruptHandler_total (kept.guarded guarded).current isrKeyboardInterrupt
    ⟨0, 0, 0, 0, 0, 0, 0, 0, 0, 0, 0, 0, 0⟩ 0 0x1E
  have first : HandlerRun (newPage 0) (fun i => newPage (i + 1)) s s₁ :=
    HandlerRun.start.isr80h (userMode_refl s) below read
  have run := first.interrupt (userMode_refl s₁) pressed
  exact ⟨res, s₁, s₂, read, pressed, run.switches_right guarded (userMode_refl s₂)⟩

end PeachOs
