import PeachOs.Isolation
import PeachOs.Keyboard
import PeachOs.TaskList

/-!
# The current process and the current task

`process_load_switch` makes the new process the current one. The current task
changes only when the list was empty, so the two agree after the first load and
no longer after the second.
-/

namespace PeachOs

open Memory Address Ownership
open Function (update)

variable {H : Type} {A : Allocator H} {F : FileOps H} {laws : HeapLaws A F}

def processSwitch (k : Kernel H) (process : UInt32) : Int × Kernel H := (0, { k with currentProcess := process })

def processLoadSwitch (A : Allocator H) (F : FileOps H) (k : Kernel H) (filename : List UInt8)
    (process : UInt32) : Int × UInt32 × Kernel H :=
  let (res, process, k) := processLoad A F k filename process
  (res, process, if res = 0 then (processSwitch k process).2 else k)

/-- The current process is the current task's, or there is neither. -/
def Kernel.Agrees (k : Kernel H) : Prop :=
  k.currentTask = 0 ∧ k.currentProcess = 0 ∨ k.Focused k.currentProcess

/-- Runs of successful calls from boot, with every request granted. `guard` is
what holds before a call. -/
inductive SwitchRun (laws : HeapLaws A F) (guard : Kernel H → Prop) : Kernel H → Prop
  | boot {k : Kernel H} (booted : Booted A k) : SwitchRun laws guard k
  | load {k k' : Kernel H} {filename : List UInt8} {process p : UInt32} (run : SwitchRun laws guard k)
      (loaded : processLoadSwitch A F k filename process = (0, p, k')) (granted : laws.granted k'.heap)
      (allowed : guard k) : SwitchRun laws guard k'

/-! ## One load -/

theorem taskInit_process {k k' : Kernel H} {t p : UInt32} (run : taskInit A k t p = (0, k')) :
    (k'.tasks t).process = p ∧ (∀ x, x ≠ t → k'.tasks x = k.tasks x) ∧
      k' = { k with heap := k'.heap, ram := k'.ram, tasks := k'.tasks } := by
  unfold taskInit at run
  cases made : pagingNew4gb A k.heap k.ram (pagingIsPresent ||| pagingAccessFromAll) with
  | mk chunk rest =>
    obtain ⟨h, m⟩ := rest
    rw [made] at run
    dsimp only at run
    split at run
    · exact absurd (Prod.mk.inj run).1 (by decide)
    · obtain ⟨-, rfl⟩ := Prod.mk.inj run
      refine ⟨?_, fun x ne => ?_, rfl⟩
      · simp only [Kernel.modifyTask, Kernel.setTask, Function.update_self]
      · simp only [Kernel.modifyTask, Kernel.setTask, Function.update_of_ne ne]

theorem taskListAppend_process (k : Kernel H) (t : UInt32) :
    (∀ x, ((taskListAppend k t).tasks x).process = (k.tasks x).process) ∧
      ((taskListAppend k t).taskListHead = if k.taskListHead = 0 then t else k.taskListHead) ∧
      (taskListAppend k t).currentTask = (if k.taskListHead = 0 then t else k.currentTask) := by
  have keeps (k : Kernel H) (b x : UInt32) (f : Task → Task) (same : ∀ t, (f t).process = t.process) :
      ((k.modifyTask b f).tasks x).process = (k.tasks x).process := by
    by_cases here : x = b
    · simp only [Kernel.modifyTask, here, Function.update_self, same]
    · simp only [Kernel.modifyTask, Function.update_of_ne here]
  unfold taskListAppend
  by_cases empty : k.taskListHead = 0
  · rw [if_pos empty, if_pos empty, if_pos empty]
    exact ⟨fun _ => rfl, rfl, rfl⟩
  · rw [if_neg empty, if_neg empty, if_neg empty]
    refine ⟨fun x => ?_, rfl, rfl⟩
    rw [keeps, keeps]
    · exact fun _ => rfl
    · exact fun _ => rfl

/-- What `task_new` does to the current task. -/
theorem taskNew_current {k k' : Kernel H} {t p : UInt32} (run : taskNew A k p = (t, k'))
    (granted : laws.granted k'.heap) :
    t ≠ 0 ∧ (k'.tasks t).process = p ∧ (∀ x, x ≠ t → (k'.tasks x).process = (k.tasks x).process) ∧
      (k'.taskListHead = if k.taskListHead = 0 then t else k.taskListHead) ∧
      k'.currentTask = (if k.taskListHead = 0 then t else k.currentTask) := by
  obtain ⟨_, made⟩ := (taskNew_spec run granted).2 _ noBooks
  obtain ⟨k₁, k₂, block, init, _, rfl⟩ := taskNew_calls run granted
  obtain ⟨process, others, shape⟩ := taskInit_process init
  obtain ⟨kept, head, current⟩ := taskListAppend_process k₂ t
  have same : k₁ = { k with heap := k₁.heap, ram := k₁.ram } := by
    obtain ⟨m', alloc, _⟩ := kZalloc_spec A k.heap k.ram sizeofTask
    rw [Kernel.kZalloc, alloc] at block
    obtain ⟨-, rfl⟩ := Prod.mk.inj block
    rfl
  refine ⟨made.record.pool.nonzero, (kept t).trans process, fun x ne => ?_, ?_, ?_⟩
  · rw [kept, others x ne, same]
  · rw [head, shape, same]
  · rw [current, shape, same]

/-- A load that succeeds: the kernel `k₁` its task is made in, and the slot it takes. -/
theorem processLoad_steps {k k' : Kernel H} {filename : List UInt8} {process p : UInt32}
    (run : processLoad A F k filename process = (0, p, k')) (granted : laws.granted k'.heap) :
    ∃ (slot : Nat) (k₁ : Kernel H) (stack t : UInt32) (k₂ : Kernel H) (ram : Ram), slot < peachosMaxProcesses ∧
      k₁ = { k with heap := k₁.heap, ram := k₁.ram, procs := k₁.procs } ∧
      taskNew A (k₁.modifyProc p fun q => { q with
        filename := filename.take (peachosMaxPathLength - 1), stack, id := .ofInt slot }) p = (t, k₂) ∧
      laws.granted k₂.heap ∧
      k' = { k₂.modifyProc p fun q => { q with task := t } with ram, processes := update k₂.processes slot p } := by
  have found := processLoad_found run
  obtain ⟨slot, q, k₁, r, k₂, inside, _, block, filled, rfl, granted₂, same⟩ := processLoad_calls run granted found
  obtain rfl := same (Int.le_refl 0)
  have shape₁ : k₁ = { k with heap := k₁.heap, ram := k₁.ram } := by
    obtain ⟨m', alloc, _⟩ := kZalloc_spec A k.heap k.ram sizeofProcess
    rw [Kernel.kZalloc, alloc] at block
    obtain ⟨-, rfl⟩ := Prod.mk.inj block
    rfl
  generalize start : (k₁.modifyProc q fun _ => Process.zero) = k₀ at filled
  have shape₀ : k₀ = { k with heap := k₀.heap, ram := k₀.ram, procs := k₀.procs } := by
    rw [← start, shape₁]
    rfl
  have read : 0 ≤ (processLoadData A F k₀ filename q).1 := by
    by_contra failed
    rw [processFillSlot_unread filename process q slot (by omega)] at filled
    have negative := (Prod.mk.inj filled).1
    omega
  cases data : processLoadData A F k₀ filename q with
  | mk r₀ k₃ =>
    rw [data] at read
    obtain ⟨stack, k₄, t, k₅, r', k₆, request, task, mapped, granted₅, result⟩ :=
      processFillSlot_calls data read filled granted₂
    have granted₄ : laws.granted k₄.heap := (taskNew_spec task granted₅).1
    have zero : k₀.procs q = Process.zero := by
      rw [← start]
      exact Function.update_self q _ _
    obtain ⟨_, loaded⟩ := processLoadBinary_spec data (Kernel.kZalloc_granted request granted₄) read
      (by rw [zero]; rfl) (by rw [zero]; rfl)
    obtain ⟨_, binary⟩ := loaded _ noBooks
    have shape₃ := binary.shape
    have shape₄ : k₄ = { k₃ with heap := k₄.heap, ram := k₄.ram } := by
      obtain ⟨_, _, _, shape⟩ := Kernel.kZalloc_advance request granted₄ noBooks (.record q)
      exact shape
    have windows := processMapMemory_shape (k₅.modifyProc q fun r => { r with task := t }) q
    rw [mapped] at windows
    dsimp only at windows
    have out : (0, p, k') = (r', q, { k₆ with processes := update k₆.processes slot q }) := by
      rw [result, if_neg]
      · rfl
      · intro failed
        rw [if_pos failed] at result
        have := (Prod.mk.inj result).1
        omega
    obtain ⟨-, out⟩ := Prod.mk.inj out
    obtain ⟨rfl, rfl⟩ := Prod.mk.inj out
    refine ⟨slot, k₄, stack, t, k₅, k₆.ram, inside, ?_, task, granted₅, ?_⟩
    · rw [shape₄, shape₃, shape₀]
    · rw [windows]
      rfl

/-- A load makes a task for its process, and makes it the current one only when
there was none in the list. -/
theorem processLoad_current {k k' : Kernel H} {filename : List UInt8} {process p : UInt32}
    (run : processLoad A F k filename process = (0, p, k')) (granted : laws.granted k'.heap) :
    p ≠ 0 ∧ ∃ t, t ≠ 0 ∧ t = (k'.procs p).task ∧ (k'.tasks t).process = p ∧
      (∀ x, x ≠ t → (k'.tasks x).process = (k.tasks x).process) ∧
      (k'.taskListHead = if k.taskListHead = 0 then t else k.taskListHead) ∧
      k'.currentTask = (if k.taskListHead = 0 then t else k.currentTask) := by
  obtain ⟨_, _, record⟩ := (processLoad_spec run granted).2.2 _ noBooks
  obtain ⟨slot, k₁, stack, t, k₂, ram, _, shape, task, granted₂, rfl⟩ := processLoad_steps run granted
  obtain ⟨nonzero, own, others, head, current⟩ := taskNew_current task granted₂
  have tasks : k₁.tasks = k.tasks := by rw [shape]
  have list : k₁.taskListHead = k.taskListHead := by rw [shape]
  have now : k₁.currentTask = k.currentTask := by rw [shape]
  refine ⟨record.pool.nonzero, t, nonzero, ?_, own, fun x ne => ?_, ?_, ?_⟩
  · show t = (update k₂.procs p { k₂.procs p with task := t } p).task
    rw [Function.update_self]
  · show (k₂.tasks x).process = (k.tasks x).process
    rw [others x ne, ← tasks]
    rfl
  · show k₂.taskListHead = _
    rw [head, ← list]
    rfl
  · show k₂.currentTask = _
    rw [current, ← list, ← now]
    rfl

/-- A successful switch is a load and a new current process. -/
theorem processLoadSwitch_load {k k' : Kernel H} {filename : List UInt8} {process p : UInt32}
    (run : processLoadSwitch A F k filename process = (0, p, k')) :
    ∃ k₁, processLoad A F k filename process = (0, p, k₁) ∧ k' = { k₁ with currentProcess := p } := by
  unfold processLoadSwitch at run
  cases load : processLoad A F k filename process with
  | mk res rest =>
    obtain ⟨q, k₁⟩ := rest
    rw [load] at run
    dsimp only at run
    obtain ⟨rfl, rest⟩ := Prod.mk.inj run
    obtain ⟨rfl, rfl⟩ := Prod.mk.inj rest
    exact ⟨k₁, rfl, rfl⟩

/-- A load beside a running task leaves that task current, and its process is
not the new one. -/
theorem processLoadSwitch_splits {k k' : Kernel H} {o : Ledger UInt32 Owner} {filename : List UInt8}
    {process p : UInt32} (run : processLoadSwitch A F k filename process = (0, p, k'))
    (granted : laws.granted k'.heap) (books : Books laws k.heap o) (task : o (frame k.currentTask) ≠ none)
    (own : o (frame k.currentProcess) ≠ none) (focused : k.Focused k.currentProcess)
    (some : k.taskListHead ≠ 0) : ¬ k'.Agrees := by
  obtain ⟨k₁, load, rfl⟩ := processLoadSwitch_load run
  obtain ⟨_, made, record⟩ := (processLoad_spec load granted).2.2 o books
  obtain ⟨nonzero, t, _, rfl, _, others, _, current⟩ := processLoad_current load granted
  rw [if_neg some] at current
  have apart : k.currentTask ≠ (k₁.procs p).task := made.task.ne_of_owned (by decide) task
  have new : k.currentProcess ≠ p := record.ne_of_owned (by decide) own
  have stays : (k₁.tasks k₁.currentTask).process = k.currentProcess := by
    rw [current, others _ apart, focused.own]
  intro agrees
  cases agrees with
  | inl none => exact nonzero none.2
  | inr again => exact new (stays.symm.trans again.own)

/-! ## Runs -/

/-- **While a process is loaded only where there is no task yet**, the current
process is the current task's. -/
theorem SwitchRun.agrees {k : Kernel H} (run : SwitchRun laws (fun k => k.taskListHead = 0) k) : k.Agrees := by
  induction run with
  | boot booted =>
    obtain ⟨_, _, task, process⟩ := booted.lists
    exact Or.inl ⟨task, process⟩
  | @load k k' filename process p run loaded granted empty ih =>
    obtain ⟨k₁, load, rfl⟩ := processLoadSwitch_load loaded
    obtain ⟨nonzero, t, some, _, own, _, _, current⟩ := processLoad_current load granted
    rw [if_pos empty] at current
    refine Or.inr ⟨rfl, nonzero, ?_, ?_⟩
    · show k₁.currentTask ≠ 0
      rw [current]
      exact some
    · show (k₁.tasks k₁.currentTask).process = p
      rw [current, own]

/-! ## One load and two -/

theorem processLoadSwitch_of_load {k k' : Kernel H} {filename : List UInt8} {process p : UInt32}
    (load : processLoad A F k filename process = (0, p, k')) :
    processLoadSwitch A F k filename process = (0, p, { k' with currentProcess := p }) := by
  rw [processLoadSwitch, load]
  rfl

theorem first_load_agrees : ∃ k : Kernel Nat,
    SwitchRun (freshLaws 100) (fun k => k.taskListHead = 0) k ∧ k.currentTask ≠ 0 ∧ k.Agrees := by
  obtain ⟨p, k, load, granted⟩ := freshKernel_loads 100 [48, 58, 47, 97] (by decide)
  have start : SwitchRun (freshLaws 100) (fun k => k.taskListHead = 0) freshKernel := .boot freshKernel_booted
  have run := start.load (processLoadSwitch_of_load load) granted freshKernel_booted.lists.1
  obtain ⟨_, t, some, _, _, _, _, current⟩ := processLoad_current load granted
  rw [if_pos freshKernel_booted.lists.1] at current
  refine ⟨_, run, ?_, run.agrees⟩
  show k.currentTask ≠ 0
  rw [current]
  exact some

/-- After the second load the keys go to the second process, and the first one runs. -/
theorem second_load_disagrees : ∃ k : Kernel Nat, SwitchRun (freshLaws 100) (fun _ => True) k ∧ ¬ k.Agrees := by
  obtain ⟨p, k, load, granted⟩ := freshKernel_loads 100 [48, 58, 47, 97] (by decide)
  have start : SwitchRun (freshLaws 100) (fun _ => True) freshKernel := .boot freshKernel_booted
  have first := start.load (processLoadSwitch_of_load load) granted trivial
  obtain ⟨_, ⟨slot, _, _, processes⟩, made⟩ := processLoad_spec load granted
  obtain ⟨nonzero, t, some, rfl, own, _, head, current⟩ := processLoad_current load granted
  rw [if_pos freshKernel_booted.lists.1] at head current
  obtain ⟨o, new, record⟩ := made _ noBooks
  -- there is room for a second process of the same size
  have used := freshHeap_load 100 freshKernel [48, 58, 47, 97] 0
  rw [load, freshKernel_heap] at used
  have one : blocksNeeded 100 = 1 := by decide
  have free : ∃ slot < peachosMaxProcesses, k.processes slot = 0 := by
    by_cases zero : slot = 0
    · refine ⟨1, by decide, ?_⟩
      rw [processes, zero, Function.update_of_ne (by decide)]
      exact freshKernel_booted.processes 1 (by decide)
    · refine ⟨0, by decide, ?_⟩
      rw [processes, Function.update_of_ne (Ne.symm zero)]
      exact freshKernel_booted.processes 0 (by decide)
  obtain ⟨q, k', load', _, granted'⟩ := freshHeap_loads 100 (k := { k with currentProcess := p })
    [48, 58, 47, 97] 0 free (by
      dsimp only at used ⊢
      omega)
  have switch := processLoadSwitch_of_load load'
  refine ⟨_, first.load switch granted' trivial, ?_⟩
  apply processLoadSwitch_splits switch granted' new.advance.books
  · show o (frame k.currentTask) ≠ none
    rw [current, new.task.labelled _ (inRange_self _ (by decide))]
    exact Option.some_ne_none _
  · show o (frame p) ≠ none
    rw [record.labelled _ (inRange_self _ (by decide))]
    exact Option.some_ne_none _
  · refine ⟨rfl, nonzero, ?_, ?_⟩
    · show k.currentTask ≠ 0
      rw [current]
      exact some
    · show (k.tasks k.currentTask).process = p
      rw [current, own]
  · show k.taskListHead ≠ 0
    rw [head]
    exact some

end PeachOs
