import PeachOs.Idt

/-!
# Registering commands and callbacks

`isr80h_register_command` panics on a number out of bounds and on one that is taken, so
a sequence of registrations returns exactly when its numbers are distinct and in
bounds. A callback replaces the one before it. `keyboard_insert` appends a keyboard
to the list and calls its init function.
-/

namespace PeachOs

open Function (update)

variable {H : Type} {A : Allocator H}

/-! ## Commands -/

/-- A panic is no result. -/
def isr80hRegisterCommand (commands : Nat → Option Isr80hCommand) (commandId : Int) (func : Isr80hCommand) :
    Option (Nat → Option Isr80hCommand) :=
  if commandId < 0 ∨ commandId ≥ peachosMaxIsr80hCommands then none
  else if (commands commandId.toNat).isSome then none
  else some (update commands commandId.toNat (some func))

/-- Registrations one after the other. -/
def registerEach (commands : Nat → Option Isr80hCommand) :
    List (Int × Isr80hCommand) → Option (Nat → Option Isr80hCommand)
  | [] => some commands
  | (commandId, func) :: calls => (isr80hRegisterCommand commands commandId func).bind (registerEach · calls)

/-- The calls of `isr80h_register_commands`. -/
def systemCommands : List (Int × Isr80hCommand) :=
  [(0, .command0Sum), (1, .commad1Print), (2, .command2Getkey), (3, .command3Putchar)]

section

variable {commands table : Nat → Option Isr80hCommand} {calls : List (Int × Isr80hCommand)}

/-- The numbers are in bounds and free. -/
def InBounds (commands : Nat → Option Isr80hCommand) (commandId : Int) : Prop :=
  0 ≤ commandId ∧ commandId < peachosMaxIsr80hCommands ∧ commands commandId.toNat = none

theorem isr80hRegisterCommand_eq (commands : Nat → Option Isr80hCommand) (commandId : Int) (func : Isr80hCommand) :
    (InBounds commands commandId ∧
      isr80hRegisterCommand commands commandId func = some (update commands commandId.toNat (some func))) ∨
    (¬ InBounds commands commandId ∧ isr80hRegisterCommand commands commandId func = none) := by
  unfold InBounds isr80hRegisterCommand
  by_cases out : commandId < 0 ∨ commandId ≥ peachosMaxIsr80hCommands
  · exact Or.inr ⟨by omega, if_pos out⟩
  · rw [if_neg out]
    cases taken : commands commandId.toNat with
    | none => exact Or.inl ⟨⟨by omega, by omega, rfl⟩, rfl⟩
    | some f => exact Or.inr ⟨by simp, rfl⟩

/-- After one registration the other numbers are as free as before. -/
theorem inBounds_update {commandId other : Int} (func : Isr80hCommand) (nonneg : 0 ≤ commandId) :
    InBounds (update commands commandId.toNat (some func)) other ↔ InBounds commands other ∧ other ≠ commandId := by
  unfold InBounds
  constructor
  · rintro ⟨low, high, free⟩
    by_cases same : other = commandId
    · rw [same, Function.update_self] at free
      cases free
    · rw [Function.update_of_ne (by omega)] at free
      exact ⟨⟨low, high, free⟩, same⟩
  · rintro ⟨⟨low, high, free⟩, other'⟩
    refine ⟨low, high, ?_⟩
    rw [Function.update_of_ne (by omega)]
    exact free

theorem registerEach_isSome_iff : (registerEach commands calls).isSome ↔
    (∀ call ∈ calls, InBounds commands call.1) ∧ (calls.map Prod.fst).Nodup := by
  induction calls generalizing commands with
  | nil => simp [registerEach]
  | cons call calls ih =>
    obtain ⟨commandId, func⟩ := call
    rw [registerEach, List.map_cons, List.nodup_cons]
    obtain ⟨inside, registered⟩ | ⟨outside, panics⟩ := isr80hRegisterCommand_eq commands commandId func
    · rw [registered, Option.bind_some, ih]
      simp only [inBounds_update func inside.1, List.forall_mem_cons, List.mem_map]
      constructor
      · rintro ⟨free, distinct⟩
        refine ⟨⟨inside, fun call mem => (free call mem).1⟩, ?_, distinct⟩
        rintro ⟨call, mem, same⟩
        exact (free call mem).2 same
      · rintro ⟨⟨_, free⟩, fresh, distinct⟩
        exact ⟨fun call mem => ⟨free call mem, fun same => fresh ⟨call, mem, same⟩⟩, distinct⟩
    · rw [panics]
      simp only [Option.bind_none, Option.isSome_none, Bool.false_eq_true, List.forall_mem_cons, false_iff]
      rintro ⟨⟨inside, _⟩, _⟩
      exact outside inside

theorem registerEach_table (run : registerEach commands calls = some table) (n : Nat) (func : Isr80hCommand) :
    table n = some func ↔ commands n = some func ∨ ((n : Int), func) ∈ calls := by
  induction calls generalizing commands with
  | nil =>
    cases run
    simp
  | cons call calls ih =>
    obtain ⟨commandId, f⟩ := call
    rw [registerEach] at run
    obtain ⟨⟨low, high, free⟩, registered⟩ | ⟨_, panics⟩ := isr80hRegisterCommand_eq commands commandId f
    · rw [registered, Option.bind_some] at run
      rw [ih run, List.mem_cons, Prod.mk.injEq]
      by_cases here : n = commandId.toNat
      · have number : (n : Int) = commandId := by omega
        rw [here, Function.update_self, free]
        simp [← here, number, eq_comm]
      · have number : (n : Int) ≠ commandId := by omega
        rw [Function.update_of_ne here]
        simp [number]
    · rw [panics] at run
      cases run

/-- **Registrations.** From the empty table a sequence returns exactly when no number is
out of bounds or comes twice. Then the handler of the system call runs
what was registered under the command's number, and nothing for other numbers. -/
theorem registration_right (calls : List (Int × Isr80hCommand)) :
    ((registerEach (fun _ => none) calls).isSome ↔
      (∀ call ∈ calls, 0 ≤ call.1 ∧ call.1 < peachosMaxIsr80hCommands) ∧ (calls.map Prod.fst).Nodup) ∧
    ∀ (s : Machine H) (command : Int) (buff : UInt32), registerEach (fun _ => none) calls = some s.isr80hCommands →
      (∀ func, (command, func) ∈ calls → s.isr80hHandleCommand A command buff = func.run A s buff) ∧
      ((∀ func, (command, func) ∉ calls) → s.isr80hHandleCommand A command buff = some (0, s)) := by
  refine ⟨?_, fun s command buff run => ?_⟩
  · rw [registerEach_isSome_iff]
    simp [InBounds]
  · have bounds := (registerEach_isSome_iff.mp (Option.isSome_of_eq_some run)).1
    have entry := registerEach_table run
    constructor
    · intro func mem
      obtain ⟨low, high, _⟩ := bounds _ mem
      have number : ((command.toNat : Nat) : Int) = command := Int.toNat_of_nonneg low
      have there : s.isr80hCommands command.toNat = some func := (entry _ _).mpr (Or.inr (by rwa [number]))
      unfold Machine.isr80hHandleCommand
      rw [if_neg (by dsimp only at low high; omega), there]
    · intro unregistered
      unfold Machine.isr80hHandleCommand
      split
      · rfl
      · rename_i inside
        have number : ((command.toNat : Nat) : Int) = command := Int.toNat_of_nonneg (by omega)
        cases found : s.isr80hCommands command.toNat with
        | none => rfl
        | some func =>
          have mem := ((entry _ _).mp found).resolve_left (by simp)
          rw [number] at mem
          exact absurd mem (unregistered func)

end

/-- A system with the commands that `isr80h_register_commands` registers. -/
def registeredMachine : Machine Unit where
  kernel := keyboardKernel
  cr3 := 0
  currentDirectory := 0
  segments := ⟨0x10, 0x10, 0x10, 0x10⟩
  terminal := ⟨0, 0, fun _ => 0, []⟩
  isr80hCommands := isr80hRegisterCommands
  callbackFunctions := fun _ => none

theorem systemCommands_table : registerEach (fun _ => none) systemCommands = some isr80hRegisterCommands := by
  have each : registerEach (fun _ => none) systemCommands = some (update (update (update (update (fun _ => none)
      0 (some .command0Sum)) 1 (some .commad1Print)) 2 (some .command2Getkey)) 3 (some .command3Putchar)) := rfl
  rw [each, Option.some.injEq]
  funext n
  match n with
  | 0 => rfl
  | 1 => rfl
  | 2 => rfl
  | 3 => rfl
  | n + 4 => simp [isr80hRegisterCommands]

theorem getkey_dispatched : (registerEach (fun _ => none) systemCommands).isSome ∧
    registeredMachine.isr80hHandleCommand ⟨fun _ _ => (0, ()), fun _ _ => ()⟩ 2 0 =
      some registeredMachine.isr80hCommand2Getkey := by
  obtain ⟨returns, dispatch⟩ := registration_right (A := ⟨fun _ _ => (0, ()), fun _ _ => ()⟩) systemCommands
  refine ⟨returns.mpr ⟨by decide, by decide⟩, ?_⟩
  exact (dispatch registeredMachine 2 0 systemCommands_table).1 .command2Getkey (by simp [systemCommands])

/-! ## Callbacks and keyboards -/

abbrev Callbacks : Type := Fin peachosTotalInterrupts → Option InterruptCallback

def registerInterruptCallbackFunction (callbackFunctions : Callbacks) (interrupt : Int)
    (func : Option InterruptCallback) : Int × Callbacks :=
  if bounds : interrupt < 0 ∨ interrupt ≥ peachosTotalInterrupts then (-einvarg, callbackFunctions)
  else (0, update callbackFunctions ⟨interrupt.toNat, by omega⟩ func)

/-- The function a keyboard starts with. -/
inductive KeyboardInit
  | classicKeyboardInit

structure Keyboard where
  initFunc : Option KeyboardInit
  next : UInt32

/-- The keyboards by address, with what their init functions write. -/
structure Keyboards where
  keyboards : UInt32 → Keyboard
  keyboardListHead : UInt32
  keyboardListLast : UInt32
  callbackFunctions : Callbacks
  ports : List (UInt16 × UInt8)

def ps2PortNumber : UInt16 := 0x64
def firstPs2PortEnable : UInt8 := 0xAE

namespace Keyboards

def classicKeyboardInit (s : Keyboards) : Int × Keyboards :=
  let (_, callbackFunctions) := registerInterruptCallbackFunction s.callbackFunctions isrKeyboardInterrupt.val
    (some .classicKeyboardHandleInterrupt)
  (0, { s with callbackFunctions, ports := s.ports ++ [(ps2PortNumber, firstPs2PortEnable)] })

end Keyboards

def KeyboardInit.run (s : Keyboards) : KeyboardInit → Int × Keyboards
  | classicKeyboardInit => s.classicKeyboardInit

namespace Keyboards

def keyboardInsert (s : Keyboards) (keyboard : UInt32) : Int × Keyboards :=
  match (s.keyboards keyboard).initFunc with
  | none => (-einvarg, s)
  | some initFunc =>
    initFunc.run (
      if s.keyboardListLast ≠ 0 then
        { s with
          keyboards := update s.keyboards s.keyboardListLast
            { s.keyboards s.keyboardListLast with next := keyboard }
          keyboardListLast := keyboard }
      else { s with keyboardListHead := keyboard, keyboardListLast := keyboard })

/-- `classicKeyboard` is what `classic_init` returns. -/
def keyboardInit (s : Keyboards) (classicKeyboard : UInt32) : Keyboards := (s.keyboardInsert classicKeyboard).2

end Keyboards

theorem registerInterruptCallbackFunction_inside (callbackFunctions : Callbacks) (i : Fin peachosTotalInterrupts)
    (func : Option InterruptCallback) :
    registerInterruptCallbackFunction callbackFunctions i.val func = (0, update callbackFunctions i func) := by
  unfold registerInterruptCallbackFunction
  rw [dif_neg (by omega)]
  rfl

/-- After `keyboard_init` the keyboard's interrupt has its callback, and the others have what they had. -/
theorem Keyboards.keyboardInit_callbacks (s : Keyboards) {classicKeyboard : UInt32}
    (classic : (s.keyboards classicKeyboard).initFunc = some .classicKeyboardInit) :
    (s.keyboardInit classicKeyboard).callbackFunctions =
      update s.callbackFunctions isrKeyboardInterrupt (some .classicKeyboardHandleInterrupt) := by
  unfold keyboardInit keyboardInsert
  rw [classic]
  dsimp only [KeyboardInit.run, classicKeyboardInit]
  rw [registerInterruptCallbackFunction_inside]
  split
  · rfl
  · rfl

end PeachOs
