import PeachOs.HandlerRuns
import PeachOs.ProcessSwitch

/-!
# The steps of the system

After the first switch to user mode the kernel is entered for commands and
interrupts only, and in between the current task stores wherever the loaded
directory lets it.
-/

namespace PeachOs

open Memory Address Ownership
open Function (update)

variable {H : Type} {A : Allocator H} {F : FileOps H} {laws : HeapLaws A F}

/-- `task_run_first_ever_task` up to `iretd`, that takes the segments from the
task's registers. Without a current task the kernel panics. -/
def Machine.taskRunFirstEverTask (s : Machine H) : Option (Machine H) :=
  if s.kernel.currentTask = 0 then none
  else
    let s := s.taskSwitch s.kernel.taskListHead
    let selector := (s.kernel.tasks s.kernel.taskListHead).registers.ss.toUInt16
    some { s with segments := ⟨selector, selector, selector, selector⟩ }

/-- The loaded directory lets user code write the page of `a`. -/
def Machine.UserStore (s : Machine H) (a : UInt32) : Prop :=
  ∃ v, grants (load32 s.kernel.ram (slot s.cr3 (v.toNat / 0x400000))) ∧ grants (walk s.kernel.ram s.cr3 v) ∧
    frame (walk s.kernel.ram s.cr3 v) = frame a

/-- The current task is that of the process `p`. -/
def Kernel.Runs (k : Kernel H) (p : UInt32) : Prop := k.Loaded p ∧ k.currentTask = (k.procs p).task

/-- Processes are loaded one after the other, and loaded ones are made the current
process, on the stack below 0x200000 that the kernel starts with. -/
inductive Loads (laws : HeapLaws A F) (k₀ : Kernel H) : Kernel H → Prop
  | start : Loads laws k₀ k₀
  | load {k k' : Kernel H} {filename : List UInt8} {process p : UInt32} (loads : Loads laws k₀ k)
      (loaded : processLoad A F k filename process = (0, p, k')) (granted : laws.granted k'.heap) : Loads laws k₀ k'
  | switch {k : Kernel H} {p : UInt32} (loads : Loads laws k₀ k) (loaded : k.Loaded p) :
      Loads laws k₀ (processSwitch k p).2

/-- The first switch to user mode, after a run of loads from boot. -/
def Begun (laws : HeapLaws A F) (s : Machine H) : Prop :=
  ∃ (k₀ : Kernel H) (s₀ : Machine H), Booted A k₀ ∧ laws.granted k₀.heap ∧ Loads laws k₀ s₀.kernel ∧
    s₀.taskRunFirstEverTask = some s

/-- A page of a handler's, on the kernel's stack and above its image. -/
def HandlerBuffer (buff : UInt32) : Prop := 0x400000 ≤ buff.toNat ∧ OnKernelStack buff

/-- The two pages below `tss.esp0`: the frame of the interrupt, those of the handlers
with the page that `print` copies to, and those of what they call. -/
def HandlerFrame (v : UInt32) : Prop := 0x5FE000 ≤ v.toNat ∧ v.toNat < tssEsp0.toNat

/-- What is pushed on the kernel's stack arrives at `a`, through the loaded directory
or, once a handler has switched, through the kernel's. -/
def Machine.KernelPush (s : Machine H) (a : UInt32) : Prop :=
  ∃ v, HandlerFrame v ∧ (translate s.cr3 s.kernel.ram v = some a ∨
    translate s.kernel.kernelDirectory s.kernel.ram v = some a)

/-- A command or an interrupt with its handler, a switch to the task of another
process, a store by the process that runs, or a byte pushed on the kernel's stack,
by the processor or by a handler. Requests to the heap are granted, and a handler's
buffer is on the kernel's stack. A handler does here what it does when it finds its
frames again after the directory was changed: so it is while no program has more
than 0x1FE000 bytes, a longer one has the stack's pages in its own window. -/
inductive SystemStep (laws : HeapLaws A F) (s : Machine H) : (writer : Option UInt32) → Machine H → Prop
  | isr80h {s' : Machine H} {command : Int} {frame : InterruptFrame} {buff res : UInt32}
      (buffer : HandlerBuffer buff)
      (returned : s.isr80hHandler A command frame buff = some (res, s')) (granted : laws.granted s'.kernel.heap) :
      SystemStep laws s none s'
  | interrupt {s' : Machine H} {interrupt : Fin peachosTotalInterrupts} {frame : InterruptFrame}
      {behind scancode : UInt8} (returned : s.interruptHandler interrupt frame behind scancode = some s') :
      SystemStep laws s none s'
  | switch {p : UInt32} (loaded : s.kernel.Loaded p) :
      SystemStep laws s none (s.userRegisters.taskSwitch (s.kernel.procs p).task)
  | store {p a : UInt32} {b : UInt8} (runs : s.kernel.Runs p) (store : s.UserStore a) :
      SystemStep laws s (some p) (s.withRam (update s.kernel.ram a b))
  | push {a : UInt32} {b : UInt8} (push : s.KernelPush a) : SystemStep laws s none (s.withRam (update s.kernel.ram a b))

/-- Steps from `s₀` on, with the processes that stored. -/
inductive SystemRun (laws : HeapLaws A F) (s₀ : Machine H) : List (Option UInt32) → Machine H → Prop
  | start : SystemRun laws s₀ [] s₀
  | step {s s' : Machine H} {writers : List (Option UInt32)} {writer : Option UInt32}
      (run : SystemRun laws s₀ writers s) (step : SystemStep laws s writer s') :
      SystemRun laws s₀ (writer :: writers) s'

theorem HandlerBuffer.inside {buff x : UInt32} (buffer : HandlerBuffer buff) (inside : InRange x buff 4096) :
    0x400000 ≤ x.toNat ∧ x.toNat < 0x600000 := by
  obtain ⟨low, high⟩ := buffer
  have top : tssEsp0.toNat = 0x600000 := rfl
  unfold OnKernelStack at high
  rw [inRange_iff (by omega)] at inside
  omega

theorem HandlerBuffer.off_heap {buff : UInt32} (buffer : HandlerBuffer buff) (x : UInt32) (inside : InRange x buff 4096) :
    ¬ (0x1000000 ≤ x.toNat ∧ x.toNat < 0x7400000) := by
  have place := buffer.inside inside
  omega

/-! ## What the handlers change of the kernel -/

/-- Everything but the keyboards' buffers, the registers of the tasks, the lists
and what is current. -/
structure SameSpaces (k k' : Kernel H) : Prop where
  heap : k'.heap = k.heap
  ram : k'.ram = k.ram
  chunk : k'.kernelPageChunk = k.kernelPageChunk
  processes : k'.processes = k.processes
  directories : ∀ t, (k'.tasks t).pageDirectory = (k.tasks t).pageDirectory
  task : ∀ p, (k'.procs p).task = (k.procs p).task
  program : ∀ p, (k'.procs p).ptr = (k.procs p).ptr ∧ (k'.procs p).size = (k.procs p).size
  stack : ∀ p, (k'.procs p).stack = (k.procs p).stack

section

variable {k k' : Kernel H} {o : Ledger UInt32 Owner}

theorem SameSpaces.refl (k : Kernel H) : SameSpaces k k :=
  ⟨rfl, rfl, rfl, rfl, fun _ => rfl, fun _ => rfl, fun _ => ⟨rfl, rfl⟩, fun _ => rfl⟩

theorem SameSpaces.trans {k'' : Kernel H} (first : SameSpaces k k') (second : SameSpaces k' k'') : SameSpaces k k'' := by
  constructor
  · exact second.heap.trans first.heap
  · exact second.ram.trans first.ram
  · exact second.chunk.trans first.chunk
  · exact second.processes.trans first.processes
  · exact fun t => (second.directories t).trans (first.directories t)
  · exact fun p => (second.task p).trans (first.task p)
  · exact fun p => ⟨(second.program p).1.trans (first.program p).1, (second.program p).2.trans (first.program p).2⟩
  · exact fun p => (second.stack p).trans (first.stack p)

theorem SameSpaces.loaded (same : SameSpaces k k') (p : UInt32) : k'.Loaded p ↔ k.Loaded p := by
  unfold Kernel.Loaded
  rw [same.processes]

theorem SameSpaces.ownRun (same : SameSpaces k k') (p x : UInt32) : (k'.procs p).OwnRun x ↔ (k.procs p).OwnRun x := by
  unfold Process.OwnRun
  rw [(same.program p).1, (same.program p).2, same.stack]

/-- The invariant does not look at what changes. -/
theorem KernelSafe.sameSpaces (safe : KernelSafe laws o k) (same : SameSpaces k k') : KernelSafe laws o k' := by
  refine ⟨?_, ?_, fun p loaded => ?_⟩
  · rw [same.heap]
    exact safe.books
  · rw [same.ram, same.chunk]
    exact safe.kernel
  · have own := safe.processes p ((same.loaded p).mp loaded)
    constructor
    · exact own.record
    · rw [same.task]
      exact own.task
    · exact fun x inside => own.run x ((same.ownRun p x).mp inside)
    · rw [(same.program p).1, same.stack]
      exact own.aligned
    · rw [same.ram, same.task, same.directories]
      obtain ⟨directory, tables, space, linked, pages, entries⟩ := own.space
      exact ⟨directory, tables, space, linked, pages, fun v user => (same.ownRun p _).mpr (entries v user)⟩

theorem modifyProc_sameSpaces (k : Kernel H) (a : UInt32) {f : Process → Process}
    (keeps : ∀ p, (f p).task = p.task ∧ (f p).ptr = p.ptr ∧ (f p).size = p.size ∧ (f p).stack = p.stack) :
    SameSpaces k (k.modifyProc a f) := by
  have field {α : Type} (g : Process → α) (same : ∀ p, g (f p) = g p) (p : UInt32) :
      g ((k.modifyProc a f).procs p) = g (k.procs p) := by
    by_cases here : p = a
    · simp [Kernel.modifyProc, here, same]
    · simp [Kernel.modifyProc, here]
  refine ⟨rfl, rfl, rfl, rfl, fun _ => rfl, ?_, fun p => ⟨?_, ?_⟩, ?_⟩
  · exact field Process.task fun p => (keeps p).1
  · exact field Process.ptr (fun p => (keeps p).2.1) p
  · exact field Process.size (fun p => (keeps p).2.2.1) p
  · exact field Process.stack fun p => (keeps p).2.2.2

theorem modifyTask_sameSpaces (k : Kernel H) (a : UInt32) {f : Task → Task}
    (keeps : ∀ t, (f t).pageDirectory = t.pageDirectory) : SameSpaces k (k.modifyTask a f) := by
  refine ⟨rfl, rfl, rfl, rfl, fun t => ?_, fun _ => rfl, fun _ => ⟨rfl, rfl⟩, fun _ => rfl⟩
  by_cases here : t = a
  · simp [Kernel.modifyTask, here, keeps]
  · simp [Kernel.modifyTask, here]

theorem keyboardPop_sameSpaces (k : Kernel H) : SameSpaces k (keyboardPop k).2 := by
  unfold keyboardPop
  split
  · exact .refl k
  · dsimp only
    split
    · exact .refl k
    · dsimp only
      apply modifyProc_sameSpaces
      exact fun _ => ⟨rfl, rfl, rfl, rfl⟩

theorem keyboardPush_sameSpaces (k : Kernel H) (c : UInt8) : SameSpaces k (keyboardPush k c) := by
  unfold keyboardPush
  dsimp only
  split
  · exact .refl k
  · apply modifyProc_sameSpaces
    exact fun _ => ⟨rfl, rfl, rfl, rfl⟩

theorem classicKeyboardHandleInterrupt_sameSpaces (k : Kernel H) (behind scancode : UInt8) :
    SameSpaces k (classicKeyboardHandleInterrupt k behind scancode) := by
  unfold classicKeyboardHandleInterrupt
  dsimp only
  split
  · exact .refl k
  · split
    · exact keyboardPush_sameSpaces k _
    · exact .refl k

end

/-! ## What a handler does -/

/-- Beside what the invariant does not look at, a copy out of the current task. -/
structure Handled (A : Allocator H) (buff : UInt32) (k k' : Kernel H) (k₁ : Kernel H) : Prop where
  same : SameSpaces k k₁
  current : k₁.currentTask = k.currentTask
  copied : k' = k₁ ∨ ∃ virtual res, copyStringFromTask A k₁.heap k₁.ram (k₁.tasks k₁.currentTask) virtual buff 4096 =
    some (res, k'.heap, k'.ram) ∧ k' = { k₁ with heap := k'.heap, ram := k'.ram }

section

variable {s s' : Machine H} {k k' : Kernel H} {buff : UInt32}

theorem Handled.of_same (same : SameSpaces k k') (current : k'.currentTask = k.currentTask) : Handled A buff k k' k' :=
  ⟨same, current, Or.inl rfl⟩

theorem Machine.copyStringFromTask_plain {task virtual phy : UInt32} {max res : Int}
    (run : s.copyStringFromTask A task virtual phy max = some (res, s')) :
    PeachOs.copyStringFromTask A s.kernel.heap s.kernel.ram (s.kernel.tasks task) virtual phy max =
        some (res, s'.kernel.heap, s'.kernel.ram) ∧
      s'.kernel = { s.kernel with heap := s'.kernel.heap, ram := s'.kernel.ram } := by
  unfold Machine.copyStringFromTask at run
  unfold PeachOs.copyStringFromTask
  by_cases large : max > pageSizeInBytes.toNat
  · rw [if_pos large] at run ⊢
    cases run
    exact ⟨rfl, rfl⟩
  · rw [if_neg large] at run ⊢
    rcases alloc : PeachOs.kZalloc A s.kernel.heap s.kernel.ram (.ofInt max) with ⟨tmp, h, m⟩
    simp only [Kernel.kZalloc, alloc] at run ⊢
    by_cases null : tmp = 0
    · rw [if_pos null] at run ⊢
      cases run
      exact ⟨rfl, rfl⟩
    · rw [if_neg null] at run ⊢
      rcases mapped : pagingMap m (s.kernel.tasks task).pageDirectory tmp tmp userWriteable with ⟨r, m'⟩
      simp only [mapped] at run ⊢
      obtain ⟨plain, kernel, -⟩ := Machine.copySwitched_refines run
      exact ⟨plain, kernel⟩

theorem Machine.taskGetStackItem_kernel {task item : UInt32} {index : Int}
    (run : s.taskGetStackItem task index = some (item, s')) : s'.kernel = s.kernel := by
  obtain ⟨v, -, returned⟩ := Option.bind_eq_some_iff.mp run
  cases returned
  rfl

theorem Isr80hCommand.run_handled {command : Isr80hCommand} {res : UInt32} (run : command.run A s buff = some (res, s')) :
    ∃ k₁, Handled A buff s.kernel s'.kernel k₁ := by
  cases command with
  | command0Sum =>
    obtain ⟨⟨v2, s₁⟩, first, run⟩ := Option.bind_eq_some_iff.mp run
    obtain ⟨⟨v1, s₂⟩, second, run⟩ := Option.bind_eq_some_iff.mp run
    cases run
    have kernel : s'.kernel = s.kernel :=
      (Machine.taskGetStackItem_kernel second).trans (Machine.taskGetStackItem_kernel first)
    rw [kernel]
    exact ⟨_, .of_same (.refl _) rfl⟩
  | commad1Print =>
    obtain ⟨⟨msg, s₁⟩, first, run⟩ := Option.bind_eq_some_iff.mp run
    obtain ⟨⟨r, s₂⟩, copy, run⟩ := Option.bind_eq_some_iff.mp run
    obtain ⟨s₃, print, run⟩ := Option.bind_eq_some_iff.mp run
    cases run
    obtain ⟨chars, -, print⟩ := Option.bind_eq_some_iff.mp print
    cases print
    have kernel : s₁.kernel = s.kernel := Machine.taskGetStackItem_kernel first
    obtain ⟨plain, shape⟩ := Machine.copyStringFromTask_plain copy
    rw [← kernel]
    exact ⟨s₁.kernel, .refl _, rfl, Or.inr ⟨msg, r, plain, shape⟩⟩
  | command2Getkey =>
    cases run
    have current : (keyboardPop s.kernel).2.currentTask = s.kernel.currentTask := by
      obtain ⟨procs, popped⟩ := keyboardPop_procs s.kernel
      rw [popped]
    exact ⟨_, .of_same (keyboardPop_sameSpaces s.kernel) current⟩
  | command3Putchar =>
    obtain ⟨⟨c, s₁⟩, first, run⟩ := Option.bind_eq_some_iff.mp run
    cases run
    have kernel : s₁.kernel = s.kernel := Machine.taskGetStackItem_kernel first
    exact ⟨_, .of_same (kernel ▸ .refl _) (congrArg Kernel.currentTask kernel)⟩

theorem Machine.taskCurrentSaveState_same {frame : InterruptFrame} (saved : s.taskCurrentSaveState frame = some s') :
    SameSpaces s.kernel s'.kernel ∧ s'.kernel.currentTask = s.kernel.currentTask := by
  unfold Machine.taskCurrentSaveState at saved
  split at saved
  · cases saved
  · cases saved
    exact ⟨modifyTask_sameSpaces s.kernel s.kernel.currentTask (f := (taskSaveState · frame)) fun _ => rfl, rfl⟩

theorem Handled.after {k₀ k₁ : Kernel H} (first : SameSpaces k₀ k) (current : k.currentTask = k₀.currentTask)
    (handled : Handled A buff k k' k₁) : Handled A buff k₀ k' k₁ :=
  ⟨first.trans handled.same, handled.current.trans current, handled.copied⟩

theorem Machine.isr80hHandler_handled {command : Int} {frame : InterruptFrame} {res : UInt32}
    (run : s.isr80hHandler A command frame buff = some (res, s')) :
    (∃ k₁, Handled A buff s.kernel s'.kernel k₁) ∧
      s'.cr3 = load32 s'.kernel.ram (s'.kernel.tasks s'.kernel.currentTask).pageDirectory := by
  obtain ⟨s₁, saved, run⟩ := Option.bind_eq_some_iff.mp run
  obtain ⟨⟨r, s₂⟩, handled, run⟩ := Option.bind_eq_some_iff.mp run
  cases run
  obtain ⟨same, current⟩ : SameSpaces s.kernel s₁.kernel ∧ s₁.kernel.currentTask = s.kernel.currentTask :=
    Machine.taskCurrentSaveState_same (s := s.kernelPage) saved
  refine ⟨?_, rfl⟩
  unfold Machine.isr80hHandleCommand at handled
  split at handled
  · cases handled
    exact ⟨_, .of_same same current⟩
  · split at handled
    · cases handled
      exact ⟨_, .of_same same current⟩
    · obtain ⟨k₁, effect⟩ := Isr80hCommand.run_handled handled
      exact ⟨k₁, effect.after same current⟩

theorem Machine.interruptHandler_handled {interrupt : Fin peachosTotalInterrupts} {frame : InterruptFrame}
    {behind scancode : UInt8} (run : s.interruptHandler interrupt frame behind scancode = some s') :
    SameSpaces s.kernel s'.kernel ∧ s'.kernel.currentTask = s.kernel.currentTask ∧
      s'.cr3 = load32 s'.kernel.ram (s'.kernel.tasks s'.kernel.currentTask).pageDirectory := by
  obtain ⟨s₁, handled, rfl⟩ := Option.map_eq_some_iff.mp run
  suffices effect : SameSpaces s.kernel s₁.kernel ∧ s₁.kernel.currentTask = s.kernel.currentTask from
    ⟨effect.1, effect.2, rfl⟩
  split at handled
  · cases handled
    exact ⟨.refl _, rfl⟩
  · obtain ⟨s₂, saved, handled⟩ := Option.map_eq_some_iff.mp handled
    subst handled
    obtain ⟨same, current⟩ : SameSpaces s.kernel s₂.kernel ∧ s₂.kernel.currentTask = s.kernel.currentTask :=
      Machine.taskCurrentSaveState_same (s := s.kernelPage) saved
    rename_i callback _
    cases callback with
    | classicKeyboardHandleInterrupt =>
      obtain ⟨procs, pressed⟩ := classicKeyboardHandleInterrupt_procs s₂.kernel behind scancode
      refine ⟨same.trans (classicKeyboardHandleInterrupt_sameSpaces s₂.kernel behind scancode), ?_⟩
      exact (congrArg Kernel.currentTask pressed).trans current

end

/-! ## Handlers return -/

section

variable {s : Machine H}

theorem Machine.interruptHandler_some (current : s.kernel.currentTask ≠ 0) (i : Fin peachosTotalInterrupts)
    (frame : InterruptFrame) (behind scancode : UInt8) : ∃ s', s.interruptHandler i frame behind scancode = some s' := by
  have save : s.kernelPage.taskCurrentSaveState frame = some _ := if_neg (show s.kernel.currentTask ≠ 0 from current)
  unfold Machine.interruptHandler
  dsimp only
  split
  · exact ⟨_, rfl⟩
  · rw [save]
    exact ⟨_, rfl⟩

/-- `getkey` returns. -/
theorem Machine.isr80hHandler_some (current : s.kernel.currentTask ≠ 0)
    (table : s.isr80hCommands = isr80hRegisterCommands) (frame : InterruptFrame) (buff : UInt32) :
    ∃ res s', s.isr80hHandler A 2 frame buff = some (res, s') := by
  have save : s.kernelPage.taskCurrentSaveState frame = some _ := if_neg (show s.kernel.currentTask ≠ 0 from current)
  have table : s.kernelPage.isr80hCommands = isr80hRegisterCommands := table
  unfold Machine.isr80hHandler
  dsimp only
  rw [save, Option.bind_eq_bind, Option.bind_some]
  unfold Machine.isr80hHandleCommand
  rw [if_neg (by decide), table]
  exact ⟨_, _, rfl⟩

/-- It does not touch memory. -/
theorem Machine.getkey_same {frame : InterruptFrame} {buff res : UInt32} {s' : Machine H}
    (table : s.isr80hCommands = isr80hRegisterCommands) (run : s.isr80hHandler A 2 frame buff = some (res, s')) :
    SameSpaces s.kernel s'.kernel ∧ s'.kernel.currentTask = s.kernel.currentTask := by
  obtain ⟨s₁, saved, run⟩ := Option.bind_eq_some_iff.mp run
  obtain ⟨⟨r, s₂⟩, handled, run⟩ := Option.bind_eq_some_iff.mp run
  cases run
  have commands : s₁.isr80hCommands = isr80hRegisterCommands := by
    unfold Machine.taskCurrentSaveState at saved
    split at saved
    · cases saved
    · cases saved
      exact table
  obtain ⟨same, current⟩ : SameSpaces s.kernel s₁.kernel ∧ s₁.kernel.currentTask = s.kernel.currentTask :=
    Machine.taskCurrentSaveState_same (s := s.kernelPage) saved
  unfold Machine.isr80hHandleCommand at handled
  rw [if_neg (by decide), commands] at handled
  cases handled
  obtain ⟨procs, popped⟩ := keyboardPop_procs s₁.kernel
  refine ⟨same.trans (keyboardPop_sameSpaces s₁.kernel), ?_⟩
  exact (congrArg Kernel.currentTask popped).trans current

end

/-! ## The first switch -/

/-- The list's first task is current, and it is that of a loaded process. -/
def Kernel.Headed (k : Kernel H) : Prop :=
  k.taskListHead = 0 ∧ k.currentTask = 0 ∨ k.currentTask = k.taskListHead ∧ ∃ p, k.Loaded p ∧ k.taskListHead = (k.procs p).task

theorem processSwitch_sameSpaces (k : Kernel H) (p : UInt32) : SameSpaces k (processSwitch k p).2 :=
  ⟨rfl, rfl, rfl, rfl, fun _ => rfl, fun _ => rfl, fun _ => ⟨rfl, rfl⟩, fun _ => rfl⟩

section

variable {k₀ k k' : Kernel H}

theorem Loads.safe (loads : Loads laws k₀ k) (booted : Booted A k₀) (granted : laws.granted k₀.heap) :
    ∃ o, KernelSafe laws o k := by
  induction loads with
  | start => exact booted.safe granted
  | load _ loaded granted ih =>
    obtain ⟨o, safe⟩ := ih
    exact safe.load loaded granted
  | @switch k p _ _ ih =>
    obtain ⟨o, safe⟩ := ih
    exact ⟨o, safe.sameSpaces (processSwitch_sameSpaces k p)⟩

/-- A load leaves the list's first task, or makes its own the first. -/
theorem Kernel.Headed.load {o : Ledger UInt32 Owner} {filename : List UInt8} {process p : UInt32} (headed : k.Headed)
    (safe : KernelSafe laws o k) (load : processLoad A F k filename process = (0, p, k'))
    (granted : laws.granted k'.heap) : k'.Headed := by
  obtain ⟨_, ⟨slot, inside, empty, processes⟩, made⟩ := processLoad_spec load granted
  obtain ⟨o', new, record⟩ := made o safe.books
  obtain ⟨nonzero, t, some', rfl, _, _, head, current⟩ := processLoad_current load granted
  by_cases none : k.taskListHead = 0
  · rw [if_pos none] at head current
    refine Or.inr ⟨current.trans head.symm, p, ⟨nonzero, slot, inside, ?_⟩, head⟩
    rw [processes, Function.update_self]
  · rw [if_neg none] at head current
    obtain first | ⟨same, q, ⟨nonzero', slot', inside', there⟩, task⟩ := headed
    · exact absurd first.1 none
    · -- an older process keeps its slot and its record
      have apart : q ≠ p := record.ne_of_owned (by decide) (safe.processes q ⟨nonzero', slot', inside', there⟩).owned.1
      have other : slot' ≠ slot := by
        rintro rfl
        exact nonzero' (there.symm.trans empty)
      refine Or.inr ⟨by rw [current, head, same], q, ⟨nonzero', slot', inside', ?_⟩, ?_⟩
      · rw [processes, Function.update_of_ne other]
        exact there
      · rw [head, new.procs q apart]
        exact task

theorem Loads.headed (loads : Loads laws k₀ k) (booted : Booted A k₀) (granted : laws.granted k₀.heap) : k.Headed := by
  induction loads with
  | start => exact Or.inl ⟨booted.lists.1, booted.lists.2.2.1⟩
  | load before load granted' ih =>
    obtain ⟨o, safe⟩ := before.safe booted granted
    exact ih.load safe load granted'
  | switch _ _ ih => exact ih

end

end PeachOs
