import PeachOs.KeyboardEdits
import PeachOs.Registration
import PeachOs.UserRuns

/-!
# Keys, from the interrupt to getkey

The keyboard's interrupt pushes to the current process, the command `getkey` pops for
the process of the current task. Over a run of the system the current process gets
the keys that the interrupts read, in order and each of them once, and the others get
none.
-/

namespace PeachOs

open Memory Address Ownership
open Function (update)

variable {H : Type} {A : Allocator H} {F : FileOps H} {laws : HeapLaws A F}

/-- What happens while user code runs. An interrupt's `scancode` is what the first
read of the data port returns. The handler reads the port once more and drops what it
gets, so a key behind another one can be lost before it is an event. -/
inductive UserEvent
  | isr80h (command : Int) (frame : InterruptFrame) (buff : UInt32)
  | interrupt (interrupt : Fin peachosTotalInterrupts) (frame : InterruptFrame) (behind scancode : UInt8)
  | switch (process : UInt32)
  | store (a : UInt32) (b : UInt8)
  | push (a : UInt32) (b : UInt8)

namespace UserEvent

/-- What a command returns, and the system after the event. -/
def run (A : Allocator H) (s : Machine H) : UserEvent → Option (UInt32 × Machine H)
  | isr80h command frame buff => s.isr80hHandler A command frame buff
  | interrupt i frame behind scancode => (s.interruptHandler i frame behind scancode).map (0, ·)
  | switch process => some (0, s.userRegisters.taskSwitch (s.kernel.procs process).task)
  | store a b => some (0, s.withRam (update s.kernel.ram a b))
  | push a b => some (0, s.withRam (update s.kernel.ram a b))

def isGetkey : UserEvent → Bool
  | isr80h command _ _ => command == 2
  | _ => false

/-- The character of the scan code that a keyboard's interrupt reads first. -/
def key : UserEvent → List UInt8
  | interrupt i _ behind scancode =>
    if i = isrKeyboardInterrupt ∧ scancode &&& classicKeyboardKeyReleased = 0 ∧
        classicKeyboardScancodeToChar behind scancode ≠ 0
    then [classicKeyboardScancodeToChar behind scancode]
    else []
  | _ => []

end UserEvent

/-- An event, the process whose task was current, and what was returned to it. -/
structure UserEntry where
  process : UInt32
  event : UserEvent
  result : UInt32

/-- The process of the current task. -/
def Kernel.running (k : Kernel H) : UInt32 := (k.tasks k.currentTask).process

/-- The steps of the system as events. -/
inductive UserRun (laws : HeapLaws A F) (s₀ : Machine H) : List UserEntry → Machine H → Prop
  | start : UserRun laws s₀ [] s₀
  | event {s s' : Machine H} {trace : List UserEntry} (run : UserRun laws s₀ trace s) (e : UserEvent) {result : UInt32}
      (ran : e.run A s = some (result, s')) {writer : Option UInt32} (step : SystemStep laws s writer s') :
      UserRun laws s₀ (trace ++ [⟨s.kernel.running, e, result⟩]) s'

/-- The characters of the scan codes that the handler read first. -/
def typedKeys (trace : List UserEntry) : List UInt8 := trace.flatMap fun entry => entry.event.key

/-- What `getkey` gave to `p`. -/
def takenBy (p : UInt32) (trace : List UserEntry) : List UInt32 :=
  (trace.filter fun entry => entry.process = p ∧ entry.event.isGetkey ∧ entry.result ≠ 0).map UserEntry.result

/-- A character as `getkey` returns it. -/
def getkeyValue (c : UInt8) : UInt32 := .ofInt c.toInt8.toInt

/-- No more than the buffer's size is ever unread. -/
def NeverFull (p : UInt32) (trace : List UserEntry) : Prop :=
  ∀ before, before <+: trace → (typedKeys before).length ≤ (takenBy p before).length + 1024

/-- The tables after `isr80h_register_commands` and `keyboard_init`. -/
structure Registered (s : Machine H) : Prop where
  commands : s.isr80hCommands = isr80hRegisterCommands
  callbacks : ∀ i, s.callbackFunctions i =
    if i = isrKeyboardInterrupt then some .classicKeyboardHandleInterrupt else none

theorem Registered.of_boot {s : Machine H} (keyboards : Keyboards) {classicKeyboard : UInt32}
    (commands : registerEach (fun _ => none) systemCommands = some s.isr80hCommands)
    (classic : (keyboards.keyboards classicKeyboard).initFunc = some .classicKeyboardInit)
    (empty : keyboards.callbackFunctions = fun _ => none)
    (callbacks : s.callbackFunctions = (keyboards.keyboardInit classicKeyboard).callbackFunctions) : Registered s := by
  constructor
  · rw [systemCommands_table] at commands
    exact (Option.some.inj commands).symm
  · intro i
    rw [callbacks, keyboards.keyboardInit_callbacks classic, empty, Function.update_apply]

theorem getkeyValue_eq_zero (c : UInt8) : getkeyValue c = 0 ↔ c = 0 := by
  have all : ∀ i : Fin 256, getkeyValue (.ofNat i) = 0 ↔ UInt8.ofNat i = 0 := by decide +kernel
  simpa using all ⟨c.toNat, c.toNat_lt⟩

/-! ## Steps -/

/-- Everything but the memory, the heap, the registers of the tasks and the current task. -/
structure SameKeys (k k' : Kernel H) : Prop where
  procs : k'.procs = k.procs
  processes : k'.processes = k.processes
  process : k'.currentProcess = k.currentProcess
  owners : ∀ t, (k'.tasks t).process = (k.tasks t).process

/-- Each process has a task, `p` is the current one, and `unread` waits for it. -/
structure Keyed (k : Kernel H) (p : UInt32) (unread : List UInt8) : Prop where
  process : k.currentProcess = p
  loaded : k.Loaded p
  linked : ∀ q, k.Loaded q → (k.procs q).task ≠ 0 ∧ (k.tasks (k.procs q).task).process = q
  unread : k.Unread p unread
  others : ∀ q, k.Loaded q → q ≠ p → k.Unread q []

section

variable {s s' s₀ : Machine H} {k k' : Kernel H} {p : UInt32} {unread : List UInt8} {o : Ledger UInt32 Owner}

theorem SameKeys.refl (k : Kernel H) : SameKeys k k := ⟨rfl, rfl, rfl, fun _ => rfl⟩

theorem SameKeys.trans {k'' : Kernel H} (first : SameKeys k k') (second : SameKeys k' k'') : SameKeys k k'' :=
  ⟨second.procs.trans first.procs, second.processes.trans first.processes, second.process.trans first.process,
    fun t => (second.owners t).trans (first.owners t)⟩

theorem SameKeys.loaded (same : SameKeys k k') (q : UInt32) : k'.Loaded q ↔ k.Loaded q := by
  unfold Kernel.Loaded
  rw [same.processes]

theorem Keyed.same (keyed : Keyed k p unread) (same : SameKeys k k') : Keyed k' p unread := by
  constructor
  · rw [same.process, keyed.process]
  · exact (same.loaded p).mpr keyed.loaded
  · intro q there
    rw [same.procs, same.owners]
    exact keyed.linked q ((same.loaded q).mp there)
  · rw [Kernel.Unread, same.procs]
    exact keyed.unread
  · intro q there ne
    rw [Kernel.Unread, same.procs]
    exact keyed.others q ((same.loaded q).mp there) ne

/-- A change of the keyboard of `p` alone. -/
theorem Keyed.modify {f : KeyboardBuffer → KeyboardBuffer} {unread' : List UInt8} (keyed : Keyed k p unread)
    (holds : (k.modifyProc p fun q => { q with keyboard := f q.keyboard }).Unread p unread') :
    Keyed (k.modifyProc p fun q => { q with keyboard := f q.keyboard }) p unread' := by
  refine ⟨keyed.process, keyed.loaded, fun q there => ?_, holds, fun q there ne => ?_⟩
  · have same := modifyProc_sameSpaces k p (f := fun q => { q with keyboard := f q.keyboard })
      fun _ => ⟨rfl, rfl, rfl, rfl⟩
    rw [same.task]
    exact keyed.linked q there
  · have same : (k.modifyProc p fun q => { q with keyboard := f q.keyboard }).procs q = k.procs q :=
      Function.update_of_ne ne _ _
    rw [Kernel.Unread, same]
    exact keyed.others q there ne

/-- The process that runs is a loaded one. -/
theorem Keyed.running (keyed : Keyed k p unread) (runs : ∃ q, k.Runs q) : k.currentTask ≠ 0 ∧ k.Loaded k.running := by
  obtain ⟨q, there, current⟩ := runs
  obtain ⟨nonzero, own⟩ := keyed.linked q there
  rw [Kernel.running, current, own]
  exact ⟨nonzero, there⟩

theorem Keyed.push (keyed : Keyed k p unread) (room : unread.length < 1024) {c : UInt8}
    (nonzero : c ≠ 0) : Keyed (keyboardPush k c) p (unread ++ [c]) := by
  -- a push does not look at the current task
  let k₁ : Kernel H := { k with currentTask := (k.procs p).task }
  have same : SameKeys k k₁ := ⟨rfl, rfl, rfl, fun _ => rfl⟩
  have back : SameKeys (keyboardPush k₁ c) (keyboardPush k c) := by
    unfold keyboardPush
    dsimp only [k₁]
    split
    · exact ⟨rfl, rfl, rfl, fun _ => rfl⟩
    · exact ⟨rfl, rfl, rfl, fun _ => rfl⟩
  have keyed₁ := keyed.same same
  obtain ⟨task, own⟩ := keyed.linked p keyed.loaded
  have focused : k₁.Focused p := ⟨keyed.process, keyed.loaded.1, task, own⟩
  have holds := keyboardPush_unread focused keyed₁.unread room nonzero
  refine Keyed.same ?_ back
  rw [keyboardPush_eq focused] at holds ⊢
  exact keyed₁.modify (f := fun b => { b with
    buffer := update b.buffer (Ring.index 1024 (k₁.procs p).keyboard.tail) c, tail := int32 (b.tail + 1) }) holds

/-- A pop for a process with nothing to read. -/
theorem keyboardPop_empty {q : UInt32} (task : k.currentTask ≠ 0) (own : k.running = q) (holds : k.Unread q []) :
    keyboardPop k = (0, k) := by
  have front := holds.front_nil (by decide)
  rw [← realIndex_eq] at front
  unfold keyboardPop
  rw [if_neg task]
  dsimp only
  rw [show (k.tasks k.currentTask).process = q from own, if_pos front]

/-- `getkey` takes the oldest character for the current process, and finds nothing for another. -/
theorem Keyed.pop (keyed : Keyed k p unread) (task : k.currentTask ≠ 0) (there : k.Loaded k.running) :
    if k.running = p then (keyboardPop k).1 = unread.headD 0 ∧ Keyed (keyboardPop k).2 p unread.tail
    else keyboardPop k = (0, k) := by
  by_cases here : k.running = p
  · have focused : k.Focused p := ⟨keyed.process, keyed.loaded.1, task, here⟩
    obtain ⟨front, holds⟩ := keyboardPop_queue focused keyed.unread
    rw [if_pos here]
    refine ⟨front, ?_⟩
    by_cases empty : (k.procs p).keyboard.buffer (Ring.index 1024 (k.procs p).keyboard.head) = 0
    · rw [keyboardPop_none focused empty] at holds ⊢
      exact { keyed with unread := holds }
    · rw [keyboardPop_char focused rfl empty] at holds ⊢
      exact keyed.modify (f := fun b => { b with
        buffer := update b.buffer (Ring.index 1024 (k.procs p).keyboard.head) 0, head := int32 (b.head + 1) }) holds
  · rw [if_neg here]
    exact keyboardPop_empty task rfl (keyed.others _ there here)

end

/-! ## Handlers -/

section

variable {s s' : Machine H} {p : UInt32} {unread : List UInt8} {frame : InterruptFrame} {buff res : UInt32}

/-- The tables stay, and so do the keyboards. -/
structure QuietStep (s s' : Machine H) : Prop where
  keys : SameKeys s.kernel s'.kernel
  task : s'.kernel.currentTask = s.kernel.currentTask
  commands : s'.isr80hCommands = s.isr80hCommands
  callbacks : s'.callbackFunctions = s.callbackFunctions

theorem QuietStep.trans {s'' : Machine H} (first : QuietStep s s') (second : QuietStep s' s'') : QuietStep s s'' :=
  ⟨first.keys.trans second.keys, second.task.trans first.task, second.commands.trans first.commands,
    second.callbacks.trans first.callbacks⟩

theorem Registered.quiet (registered : Registered s) (quiet : QuietStep s s') : Registered s' :=
  ⟨quiet.commands.trans registered.commands, quiet.callbacks ▸ registered.callbacks⟩

theorem Machine.taskCurrentSaveState_quiet (saved : s.taskCurrentSaveState frame = some s') : QuietStep s s' := by
  unfold Machine.taskCurrentSaveState at saved
  split at saved
  · cases saved
  · cases saved
    refine ⟨⟨rfl, rfl, rfl, fun t => ?_⟩, rfl, rfl, rfl⟩
    by_cases here : t = s.kernel.currentTask
    · simp [Kernel.modifyTask, here, taskSaveState]
    · simp [Kernel.modifyTask, here]

theorem Machine.taskGetStackItem_quiet {task item : UInt32} {index : Int}
    (run : s.taskGetStackItem task index = some (item, s')) : QuietStep s s' := by
  obtain ⟨v, -, returned⟩ := Option.bind_eq_some_iff.mp run
  cases returned
  exact ⟨.refl _, rfl, rfl, rfl⟩

theorem Machine.copySwitched_quiet {chunk taskDirectory tmp oldEntry virtual phy : UInt32} {max r : Int}
    (run : s.copySwitched A chunk taskDirectory tmp oldEntry virtual phy max = some (r, s')) : QuietStep s s' := by
  obtain ⟨m, -, run⟩ := Option.bind_eq_some_iff.mp run
  dsimp only at run
  split at run
  · cases run
    exact ⟨⟨rfl, rfl, rfl, fun _ => rfl⟩, rfl, rfl, rfl⟩
  · obtain ⟨m₂, -, run⟩ := Option.bind_eq_some_iff.mp run
    cases run
    exact ⟨⟨rfl, rfl, rfl, fun _ => rfl⟩, rfl, rfl, rfl⟩

theorem Machine.copyStringFromTask_quiet {task virtual phy : UInt32} {max r : Int}
    (run : s.copyStringFromTask A task virtual phy max = some (r, s')) : QuietStep s s' := by
  unfold Machine.copyStringFromTask at run
  split at run
  · cases run
    exact ⟨.refl _, rfl, rfl, rfl⟩
  · rcases alloc : s.kernel.kZalloc A (.ofInt max) with ⟨tmp, k⟩
    have same : SameKeys s.kernel k ∧ k.currentTask = s.kernel.currentTask := by
      unfold Kernel.kZalloc at alloc
      cases alloc
      exact ⟨⟨rfl, rfl, rfl, fun _ => rfl⟩, rfl⟩
    simp only [alloc] at run
    split at run
    · cases run
      exact ⟨same.1, same.2, rfl, rfl⟩
    · have quiet := Machine.copySwitched_quiet run
      have keys : SameKeys k s'.kernel := ⟨quiet.keys.procs, quiet.keys.processes, quiet.keys.process, quiet.keys.owners⟩
      exact ⟨same.1.trans keys, quiet.task.trans same.2, quiet.commands, quiet.callbacks⟩

theorem Isr80hCommand.run_quiet {command : Isr80hCommand} (other : command ≠ .command2Getkey)
    (run : command.run A s buff = some (res, s')) : QuietStep s s' := by
  cases command with
  | command0Sum =>
    obtain ⟨⟨v2, s₁⟩, first, run⟩ := Option.bind_eq_some_iff.mp run
    obtain ⟨⟨v1, s₂⟩, second, run⟩ := Option.bind_eq_some_iff.mp run
    cases run
    exact (Machine.taskGetStackItem_quiet first).trans (Machine.taskGetStackItem_quiet second)
  | commad1Print =>
    obtain ⟨⟨msg, s₁⟩, first, run⟩ := Option.bind_eq_some_iff.mp run
    obtain ⟨⟨r, s₂⟩, copy, run⟩ := Option.bind_eq_some_iff.mp run
    obtain ⟨s₃, print, run⟩ := Option.bind_eq_some_iff.mp run
    cases run
    obtain ⟨chars, -, print⟩ := Option.bind_eq_some_iff.mp print
    cases print
    have quiet := (Machine.taskGetStackItem_quiet first).trans (Machine.copyStringFromTask_quiet copy)
    exact ⟨quiet.keys, quiet.task, quiet.commands, quiet.callbacks⟩
  | command2Getkey => exact absurd rfl other
  | command3Putchar =>
    obtain ⟨⟨c, s₁⟩, first, run⟩ := Option.bind_eq_some_iff.mp run
    cases run
    have quiet := Machine.taskGetStackItem_quiet first
    exact ⟨quiet.keys, quiet.task, quiet.commands, quiet.callbacks⟩

theorem isr80hRegisterCommands_getkey {n : Nat} (found : isr80hRegisterCommands n = some .command2Getkey) : n = 2 := by
  unfold isr80hRegisterCommands at found
  split at found
  · cases found
  · cases found
  · rfl
  · cases found
  · cases found

/-- `getkey` pops for the task that made the command, the others leave the keyboards. -/
theorem Machine.isr80hHandler_keys {command : Int} (registered : Registered s)
    (run : s.isr80hHandler A command frame buff = some (res, s')) : ∃ s₁ : Machine H, QuietStep s s₁ ∧
      if command = 2 then res = getkeyValue (keyboardPop s₁.kernel).1 ∧ s'.kernel = (keyboardPop s₁.kernel).2 ∧ Registered s'
      else QuietStep s₁ s' := by
  obtain ⟨s₁, saved, run⟩ := Option.bind_eq_some_iff.mp run
  obtain ⟨⟨r, s₂⟩, handled, run⟩ := Option.bind_eq_some_iff.mp run
  cases run
  have saved := Machine.taskCurrentSaveState_quiet saved
  have quiet : QuietStep s s₁ := ⟨saved.keys, saved.task, saved.commands, saved.callbacks⟩
  refine ⟨s₁, quiet, ?_⟩
  have table := (registered.quiet quiet).commands
  unfold Machine.isr80hHandleCommand at handled
  by_cases getkey : command = 2
  · subst getkey
    rw [if_neg (by decide), table] at handled
    have handled : some s₁.isr80hCommand2Getkey = some (res, s₂) := handled
    cases handled
    rw [if_pos rfl]
    exact ⟨rfl, rfl, (registered.quiet quiet).commands, (registered.quiet quiet).callbacks⟩
  · rw [if_neg getkey]
    split at handled
    · cases handled
      exact ⟨.refl _, rfl, rfl, rfl⟩
    · split at handled
      · cases handled
        exact ⟨.refl _, rfl, rfl, rfl⟩
      · rename_i commandFunc found
        have other : commandFunc ≠ .command2Getkey := by
          rintro rfl
          rw [table] at found
          have number := isr80hRegisterCommands_getkey found
          omega
        have quiet := Isr80hCommand.run_quiet other handled
        exact ⟨quiet.keys, quiet.task, quiet.commands, quiet.callbacks⟩

/-- The keyboard's interrupt pushes its key, the others leave the keyboards. -/
theorem Machine.interruptHandler_keys {i : Fin peachosTotalInterrupts} {behind scancode : UInt8}
    (registered : Registered s) (run : s.interruptHandler i frame behind scancode = some s') :
    ∃ s₁ : Machine H, QuietStep s s₁ ∧ Registered s' ∧
      s'.kernel = (UserEvent.key (.interrupt i frame behind scancode)).foldl keyboardPush s₁.kernel := by
  obtain ⟨s₂, handled, rfl⟩ := Option.map_eq_some_iff.mp run
  have callbacks : s.kernelPage.callbackFunctions i = _ := registered.callbacks i
  rw [callbacks] at handled
  by_cases keyboard : i = isrKeyboardInterrupt
  · rw [if_pos keyboard] at handled
    obtain ⟨s₁, saved, handled⟩ := Option.map_eq_some_iff.mp handled
    subst handled
    have saved := Machine.taskCurrentSaveState_quiet saved
    have quiet : QuietStep s s₁ := ⟨saved.keys, saved.task, saved.commands, saved.callbacks⟩
    refine ⟨s₁, quiet, ⟨(registered.quiet quiet).commands, (registered.quiet quiet).callbacks⟩, ?_⟩
    show classicKeyboardHandleInterrupt s₁.kernel behind scancode = _
    unfold classicKeyboardHandleInterrupt UserEvent.key
    by_cases released : scancode &&& classicKeyboardKeyReleased = 0
    · by_cases none : classicKeyboardScancodeToChar behind scancode = 0
      · simp [released, none]
      · simp [keyboard, released, none]
    · simp [released]
  · rw [if_neg keyboard] at handled
    cases handled
    refine ⟨s, ⟨.refl _, rfl, rfl, rfl⟩, ⟨registered.commands, registered.callbacks⟩, ?_⟩
    rw [UserEvent.key, if_neg fun pressed => keyboard pressed.1]
    rfl

end

/-! ## Runs -/

section

variable {s s' s₀ : Machine H} {p : UInt32} {unread : List UInt8} {o : Ledger UInt32 Owner} {trace : List UserEntry}

theorem typedKeys_append (trace : List UserEntry) (entry : UserEntry) :
    typedKeys (trace ++ [entry]) = typedKeys trace ++ entry.event.key := by
  simp [typedKeys]

theorem UserEvent.key_cases (e : UserEvent) : e.key = [] ∨ ∃ c, c ≠ 0 ∧ e.key = [c] := by
  cases e with
  | interrupt i frame behind scancode =>
    simp only [UserEvent.key]
    split
    · rename_i pressed
      exact Or.inr ⟨_, pressed.2.2, rfl⟩
    · exact Or.inl rfl
  | isr80h => exact Or.inl rfl
  | switch => exact Or.inl rfl
  | store => exact Or.inl rfl
  | push => exact Or.inl rfl

theorem UserEvent.isGetkey_of_key {e : UserEvent} (some : e.key ≠ []) : e.isGetkey = false := by
  cases e with
  | isr80h => exact absurd rfl some
  | interrupt => rfl
  | switch => rfl
  | store => rfl
  | push => rfl

/-- What one entry gives to `p`. -/
def UserEntry.given (p : UInt32) (entry : UserEntry) : List UInt32 :=
  if entry.process = p ∧ entry.event.isGetkey ∧ entry.result ≠ 0 then [entry.result] else []

theorem takenBy_append (p : UInt32) (trace : List UserEntry) (entry : UserEntry) :
    takenBy p (trace ++ [entry]) = takenBy p trace ++ entry.given p := by
  unfold takenBy UserEntry.given
  rw [List.filter_append, List.map_append]
  congr 1
  split
  · rename_i mine
    simp [mine]
  · rename_i other
    simp [other]

/-- What a `getkey` returns to the process that runs. -/
def keyFor (p running : UInt32) (unread : List UInt8) : UInt32 :=
  if running = p then getkeyValue (unread.headD 0) else 0

/-- An event moves characters from the keyboard to `p`. -/
structure KeyMoved (s s' : Machine H) (p : UInt32) (unread : List UInt8) (e : UserEvent) (result : UInt32)
    (unread' : List UInt8) : Prop where
  keyed : Keyed s'.kernel p unread'
  registered : Registered s'
  moved : (unread ++ e.key).map getkeyValue = (UserEntry.mk s.kernel.running e result).given p ++ unread'.map getkeyValue
  result : e.isGetkey = true → result = keyFor p s.kernel.running unread

theorem KeyMoved.quiet {e : UserEvent} {result : UInt32} (keyed : Keyed s.kernel p unread) (registered : Registered s')
    (same : SameKeys s.kernel s'.kernel) (key : e.key = []) (other : e.isGetkey = false) :
    KeyMoved s s' p unread e result unread := by
  refine ⟨keyed.same same, registered, ?_, fun getkey => ?_⟩
  · simp [UserEntry.given, key, other]
  · rw [other] at getkey
    cases getkey

theorem Keyed.event (keyed : Keyed s.kernel p unread) (registered : Registered s) (runs : ∃ q, s.kernel.Runs q)
    {e : UserEvent} {result : UInt32} (ran : e.run A s = some (result, s'))
    (room : e.key ≠ [] → unread.length < 1024) : ∃ unread', KeyMoved s s' p unread e result unread' := by
  cases e with
  | isr80h command frame buff =>
    obtain ⟨s₁, quiet, handled⟩ := Machine.isr80hHandler_keys registered ran
    by_cases getkey : command = 2
    · subst getkey
      rw [if_pos rfl] at handled
      obtain ⟨value, kernel, registered'⟩ := handled
      have running : s₁.kernel.running = s.kernel.running := by
        rw [Kernel.running, Kernel.running, quiet.task, quiet.keys.owners]
      obtain ⟨task, there⟩ := keyed.running runs
      have pop := (keyed.same quiet.keys).pop (by rwa [quiet.task]) (by rwa [running, quiet.keys.loaded])
      rw [running] at pop
      have nothing : getkeyValue 0 = 0 := (getkeyValue_eq_zero 0).mpr rfl
      by_cases mine : s.kernel.running = p
      · rw [if_pos mine] at pop
        obtain ⟨front, rest⟩ := pop
        rw [front] at value
        refine ⟨unread.tail, by rwa [kernel], registered', ?_, fun _ => by rw [keyFor, if_pos mine, value]⟩
        cases unread with
        | nil => simp [UserEntry.given, UserEvent.key, value, nothing]
        | cons c unread =>
          have nonzero : getkeyValue c ≠ 0 := fun zero =>
            keyed.unread.unmarked c List.mem_cons_self ((getkeyValue_eq_zero c).mp zero)
          simp [UserEntry.given, UserEvent.key, UserEvent.isGetkey, mine, value, nonzero]
      · rw [if_neg mine] at pop
        rw [pop] at value kernel
        have zero : result = 0 := value.trans nothing
        refine ⟨unread, by rw [kernel]; exact keyed.same quiet.keys, registered', ?_, fun _ => ?_⟩
        · simp [UserEntry.given, UserEvent.key, mine]
        · rw [keyFor, if_neg mine, zero]
    · rw [if_neg getkey] at handled
      have quiet := quiet.trans handled
      exact ⟨unread, .quiet keyed (registered.quiet quiet) quiet.keys rfl (by simp [UserEvent.isGetkey, getkey])⟩
  | interrupt i frame behind scancode =>
    obtain ⟨s₂, returned, same⟩ := Option.map_eq_some_iff.mp ran
    cases same
    obtain ⟨s₁, quiet, registered', pushed⟩ := Machine.interruptHandler_keys registered returned
    have keyed₁ := keyed.same quiet.keys
    obtain none | ⟨c, nonzero, one⟩ := UserEvent.key_cases (.interrupt i frame behind scancode)
    · rw [none] at pushed
      refine ⟨unread, by rw [pushed]; exact keyed₁, registered', ?_, fun getkey => by cases getkey⟩
      simp [UserEntry.given, UserEvent.isGetkey, none]
    · rw [one] at pushed room
      refine ⟨unread ++ [c], ?_, registered', ?_, fun getkey => by cases getkey⟩
      · rw [pushed]
        exact keyed₁.push (room (List.cons_ne_nil c [])) nonzero
      · simp [UserEntry.given, UserEvent.isGetkey, one]
  | switch q =>
    cases ran
    exact ⟨unread, .quiet keyed ⟨registered.commands, registered.callbacks⟩ ⟨rfl, rfl, rfl, fun _ => rfl⟩ rfl rfl⟩
  | store a b =>
    cases ran
    exact ⟨unread, .quiet keyed ⟨registered.commands, registered.callbacks⟩ ⟨rfl, rfl, rfl, fun _ => rfl⟩ rfl rfl⟩
  | push a b =>
    cases ran
    exact ⟨unread, .quiet keyed ⟨registered.commands, registered.callbacks⟩ ⟨rfl, rfl, rfl, fun _ => rfl⟩ rfl rfl⟩

/-- What holds after a trace. -/
structure Delivered (p : UInt32) (trace : List UserEntry) (unread : List UInt8) : Prop where
  order : (typedKeys trace).map getkeyValue = takenBy p trace ++ unread.map getkeyValue
  others : ∀ entry ∈ trace, entry.event.isGetkey = true → entry.process ≠ p → entry.result = 0

theorem UserRun.keyed (run : UserRun laws s₀ trace s) (safe : SystemSafe laws o s₀) (registered : Registered s₀)
    (keyed : Keyed s₀.kernel p []) (inside : NeverFull p trace) : SystemSafe laws o s ∧ Registered s ∧
      ∃ unread, Keyed s.kernel p unread ∧ Delivered p trace unread := by
  induction run with
  | start => exact ⟨safe, registered, [], keyed, rfl, fun _ mem => absurd mem List.not_mem_nil⟩
  | @event s s' trace run e result ran writer step ih =>
    obtain ⟨safe, registered, unread, keyed, order, others⟩ :=
      ih fun before sub => inside before (sub.trans (List.prefix_append _ _))
    have lengths := congrArg List.length order
    rw [List.length_append, List.length_map, List.length_map] at lengths
    obtain ⟨unread', after⟩ := keyed.event registered safe.runs ran fun some => by
      have full := inside _ (List.prefix_refl _)
      have one : 1 ≤ e.key.length := List.length_pos_iff.mpr some
      have given : (UserEntry.mk s.kernel.running e result).given p = [] := by
        simp [UserEntry.given, UserEvent.isGetkey_of_key some]
      rw [typedKeys_append, takenBy_append, given, List.append_nil, List.length_append] at full
      change _ + e.key.length ≤ _ at full
      omega
    refine ⟨safe.step step, after.registered, unread', after.keyed, ?_, fun entry mem getkey ne => ?_⟩
    · rw [typedKeys_append, takenBy_append, List.map_append, order, List.append_assoc, ← List.map_append, after.moved,
        List.append_assoc]
    · rcases List.mem_append.mp mem with old | new
      · exact others entry old getkey ne
      · obtain rfl := List.mem_singleton.mp new
        rw [after.result getkey, keyFor, if_neg ne]

end

/-! ## From boot -/

section

variable {k k' k₀ : Kernel H} {p : UInt32} {o : Ledger UInt32 Owner}

/-- A load leaves the new process an untouched keyboard. -/
theorem processLoad_keyboard {filename : List UInt8} {process : UInt32}
    (run : processLoad A F k filename process = (0, p, k')) (granted : laws.granted k'.heap) :
    (k'.procs p).keyboard = Process.zero.keyboard ∧ k'.currentProcess = k.currentProcess := by
  obtain ⟨slot, q, k₁, r, k₂, _, _, block, filled, rfl, granted₂, same⟩ :=
    processLoad_calls run granted (processLoad_found run)
  obtain rfl := same (Int.le_refl 0)
  have before : k₁.currentProcess = k.currentProcess := by
    rw [Kernel.kZalloc] at block
    rw [← (Prod.mk.inj block).2]
  generalize start : (k₁.modifyProc q fun _ => Process.zero) = k₂ at filled
  have zero : k₂.procs q = Process.zero := by
    rw [← start]
    exact Function.update_self q _ _
  have current₂ : k₂.currentProcess = k.currentProcess := by
    rw [← start, ← before]
    rfl
  have read : 0 ≤ (processLoadData A F k₂ filename q).1 := by
    by_contra failed
    rw [processFillSlot_unread filename process q slot (by omega)] at filled
    have negative := (Prod.mk.inj filled).1
    omega
  rcases data : processLoadData A F k₂ filename q with ⟨r, k₃⟩
  rw [data] at read
  obtain ⟨stack, k₄, t, k₅, r', k₆, request, task, mapped, granted₅, result⟩ :=
    processFillSlot_calls data read filled granted₂
  obtain ⟨granted₄, made⟩ := taskNew_spec task granted₅
  obtain ⟨_, made⟩ := made _ noBooks
  obtain ⟨_, loaded⟩ := processLoadBinary_spec data (Kernel.kZalloc_granted request granted₄) read
    (by rw [zero]; rfl) (by rw [zero]; rfl)
  obtain ⟨_, binary⟩ := loaded _ noBooks
  obtain ⟨ptr, size, procs₃, _⟩ := binary.record
  obtain ⟨_, _, _, shape₄⟩ := Kernel.kZalloc_advance request granted₄ noBooks (.record q)
  have windows := processMapMemory_shape (k₅.modifyProc q fun r => { r with task := t }) q
  rw [mapped] at windows
  have out : (0, p, k') = (r', q, { k₆ with processes := update k₆.processes slot q }) := by
    rw [result, if_neg]
    · rfl
    · intro failed
      rw [if_pos failed] at result
      have := (Prod.mk.inj result).1
      omega
  obtain ⟨-, rfl, rfl⟩ : 0 = r' ∧ p = q ∧ k' = _ := by simpa using out
  dsimp only at windows ⊢
  rw [windows, made.shape, shape₄, binary.shape]
  refine ⟨?_, current₂⟩
  simp [Kernel.modifyProc, procs₃, zero]

/-- Before the first switch: nobody's keyboard has a character. -/
structure Untyped (k : Kernel H) : Prop where
  current : k.currentProcess = 0 ∨ k.Loaded k.currentProcess
  linked : ∀ q, k.Loaded q → (k.procs q).task ≠ 0 ∧ (k.tasks (k.procs q).task).process = q
  unread : ∀ q, k.Loaded q → k.Unread q []

theorem Untyped.load {filename : List UInt8} {process : UInt32} (untyped : Untyped k) (safe : KernelSafe laws o k)
    (run : processLoad A F k filename process = (0, p, k')) (granted : laws.granted k'.heap) : Untyped k' := by
  obtain ⟨_, ⟨slot, inside, empty, processes⟩, made⟩ := processLoad_spec run granted
  obtain ⟨o', new, record⟩ := made o safe.books
  obtain ⟨nonzero, t, some, rfl, own, others, _, _⟩ := processLoad_current run granted
  obtain ⟨keyboard, current⟩ := processLoad_keyboard run granted
  have apart (q : UInt32) (there : k.Loaded q) : q ≠ p :=
    record.ne_of_owned (by decide) (safe.processes q there).owned.1
  have old (q : UInt32) (there : k.Loaded q) : k'.Loaded q := by
    obtain ⟨some, slot', inside', here⟩ := there
    refine ⟨some, slot', inside', ?_⟩
    have other : slot' ≠ slot := by
      rintro rfl
      exact some (here.symm.trans empty)
    rw [processes, Function.update_of_ne other, here]
  refine ⟨?_, fun q there => ?_, fun q there => ?_⟩
  · rw [current]
    exact untyped.current.imp id (old _)
  · by_cases here : q = p
    · rw [here]
      exact ⟨some, own⟩
    · have before := there.of_update processes here
      rw [new.procs q here, others _ (new.task.ne_of_owned (by decide) (safe.processes q before).owned.2)]
      exact untyped.linked q before
  · by_cases here : q = p
    · rw [here, Kernel.Unread, keyboard]
      exact Ring.Holds.empty
    · have before := there.of_update processes here
      rw [Kernel.Unread, new.procs q here]
      exact untyped.unread q before

theorem Loads.untyped (loads : Loads laws k₀ k) (booted : Booted A k₀) (granted : laws.granted k₀.heap) : Untyped k := by
  induction loads with
  | start =>
    have none (q : UInt32) (there : k₀.Loaded q) : False := booted.not_loaded q there
    exact ⟨Or.inl booted.lists.2.2.2, fun q there => (none q there).elim, fun q there => (none q there).elim⟩
  | load before loaded granted' ih =>
    obtain ⟨o, safe⟩ := before.safe booted granted
    exact ih.load safe loaded granted'
  | switch _ loaded ih => exact ⟨Or.inr loaded, ih.linked, ih.unread⟩

/-- **Keys are delivered.** Over every run of the system, with whatever the programs
do and however their tasks are switched: while no more than 1024 characters wait, the
keys whose scan codes the interrupts read first are what `getkey` gave to the current process, in order, and those that
still wait; the next `getkey` returns the oldest of these, and the other
processes get nothing. -/
theorem keys_delivered {s₀ s₁ s : Machine H} {trace : List UserEntry} (booted : Booted A k₀)
    (granted : laws.granted k₀.heap) (loads : Loads laws k₀ s₀.kernel) (some : s₀.kernel.currentProcess ≠ 0)
    (registered : Registered s₀) (entered : s₀.taskRunFirstEverTask = .some s₁) (run : UserRun laws s₁ trace s)
    (inside : NeverFull s₀.kernel.currentProcess trace) :
    ∃ unread, Delivered s₀.kernel.currentProcess trace unread ∧
      ∀ frame buff res s', s.isr80hHandler A 2 frame buff = .some (res, s') →
        res = keyFor s₀.kernel.currentProcess s.kernel.running unread := by
  have untyped := loads.untyped booted granted
  obtain ⟨o, safe⟩ := Begun.safe ⟨k₀, s₀, booted, granted, loads, entered⟩
  have there := untyped.current.resolve_left some
  have keyed : Keyed s₀.kernel s₀.kernel.currentProcess [] :=
    ⟨rfl, there, untyped.linked, untyped.unread _ there, fun q loaded _ => untyped.unread q loaded⟩
  have first : SameKeys s₀.kernel s₁.kernel ∧ Registered s₁ := by
    unfold Machine.taskRunFirstEverTask at entered
    split at entered
    · cases entered
    · cases entered
      exact ⟨⟨rfl, rfl, rfl, fun _ => rfl⟩, registered.commands, registered.callbacks⟩
  obtain ⟨safe', registered', unread, keyed', delivered⟩ := run.keyed safe first.2 (keyed.same first.1) inside
  refine ⟨unread, delivered, fun frame buff res s' returned => ?_⟩
  obtain ⟨_, next⟩ := keyed'.event registered' safe'.runs (e := .isr80h 2 frame buff) returned fun key => absurd rfl key
  exact next.result rfl

end

/-! ## One key -/

/-- The keyboards before `keyboard_init`, with the classic one at 0x1000. -/
def bootKeyboards : Keyboards where
  keyboards := fun _ => ⟨some .classicKeyboardInit, 0⟩
  keyboardListHead := 0
  keyboardListLast := 0
  callbackFunctions := fun _ => none
  ports := []

/-- A machine with its keyboard. -/
def typingMachine (k : Kernel H) : Machine H :=
  { machineOf k with callbackFunctions := (bootKeyboards.keyboardInit 0x1000).callbackFunctions }

theorem typingMachine_registered (k : Kernel H) : Registered (typingMachine k) :=
  .of_boot bootKeyboards systemCommands_table rfl rfl rfl

/-- `A` is pressed, and then read. -/
theorem letter_delivered : ∃ s : Machine Nat, ∀ frame buff, (∃ res s', s.isr80hHandler freshHeap 2 frame buff = some (res, s')) ∧
    ∀ res s', s.isr80hHandler freshHeap 2 frame buff = some (res, s') → res = 65 := by
  obtain ⟨p, k, load, granted⟩ := freshKernel_loads 100 [48, 58, 47, 97] (by decide)
  obtain ⟨_, ⟨slot, inside, _, processes⟩, _⟩ := processLoad_spec load granted
  obtain ⟨nonzero, t, some, _, own, _, head, current⟩ := processLoad_current load granted
  rw [if_pos freshKernel_booted.lists.1] at head current
  have room : (freshLaws 100).granted freshKernel.heap := (processLoad_spec load granted).1
  have loaded : k.Loaded p := ⟨nonzero, slot, inside, by rw [processes, Function.update_self]⟩
  have loads : Loads (freshLaws 100) freshKernel (typingMachine (processSwitch k p).2).kernel :=
    (Loads.start.load load granted).switch loaded
  obtain ⟨s₁, entered, task₁, running₁⟩ : ∃ s₁, (typingMachine (processSwitch k p).2).taskRunFirstEverTask = .some s₁ ∧
      s₁.kernel.currentTask ≠ 0 ∧ s₁.kernel.running = p := by
    refine ⟨_, if_neg (show k.currentTask ≠ 0 by rwa [current]), ?_, ?_⟩
    · show k.taskListHead ≠ 0
      rwa [head]
    · show (k.tasks k.taskListHead).process = p
      rw [head, own]
  have registered := typingMachine_registered (processSwitch k p).2
  have registered₁ : Registered s₁ := by
    unfold Machine.taskRunFirstEverTask at entered
    split at entered
    · cases entered
    · cases entered
      exact ⟨registered.commands, registered.callbacks⟩
  obtain ⟨s₂, pressed⟩ := Machine.interruptHandler_some task₁ isrKeyboardInterrupt pressFrame 0 0x1E
  obtain ⟨s', quiet, registered₂, pushed⟩ := Machine.interruptHandler_keys registered₁ pressed
  have letter : UserEvent.key (.interrupt isrKeyboardInterrupt pressFrame 0 0x1E) = [65] := by decide
  rw [letter] at pushed
  obtain ⟨procs, push⟩ := keyboardPush_procs s'.kernel 65
  have kernel : s₂.kernel = { s'.kernel with procs } := pushed.trans push
  have task₂ : s₂.kernel.currentTask ≠ 0 := by
    rw [kernel]
    exact quiet.task ▸ task₁
  have running₂ : s₂.kernel.running = p := by
    rw [kernel, ← running₁]
    show (s'.kernel.tasks s'.kernel.currentTask).process = _
    rw [quiet.task, quiet.keys.owners]
    rfl
  have run : UserRun (freshLaws 100) s₁ [⟨s₁.kernel.running, .interrupt isrKeyboardInterrupt pressFrame 0 0x1E, 0⟩] s₂ :=
    UserRun.start.event _ (Option.map_eq_some_iff.mpr ⟨_, pressed, rfl⟩) (.interrupt pressed)
  have typed : typedKeys [⟨s₁.kernel.running, .interrupt isrKeyboardInterrupt pressFrame 0 0x1E, 0⟩] = [65] :=
    (List.flatMap_singleton ..).trans letter
  have inside : NeverFull p [⟨s₁.kernel.running, .interrupt isrKeyboardInterrupt pressFrame 0 0x1E, 0⟩] := by
    rintro before ⟨after, same⟩
    have lengths := congrArg List.length typed
    rw [← same, typedKeys, List.flatMap_append, List.length_append, List.length_singleton] at lengths
    rw [typedKeys]
    omega
  obtain ⟨unread, delivered, next⟩ :=
    keys_delivered freshKernel_booted room loads nonzero registered entered run inside
  have order : [getkeyValue 65] = unread.map getkeyValue := by
    have order := delivered.order
    rw [typed] at order
    simpa [takenBy, UserEvent.isGetkey] using order
  refine ⟨s₂, fun frame buff => ⟨Machine.isr80hHandler_some task₂ registered₂.commands frame buff, fun res s'' returned => ?_⟩⟩
  rw [next frame buff res s'' returned, running₂]
  obtain ⟨c, rfl, same⟩ : ∃ c, unread = [c] ∧ getkeyValue c = getkeyValue 65 := by
    rw [eq_comm, List.map_eq_singleton_iff] at order
    exact order
  refine (if_pos (show p = (processSwitch k p).2.currentProcess from rfl)).trans ?_
  rw [List.headD_cons, same]
  decide

end PeachOs
