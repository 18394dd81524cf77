import PeachOs.KeyDelivery
import PeachOs.LoadedProgram

/-!
# From kernel_main to the first program

`kernel_main` sets up the tables, the kernel's directory, the commands and the
keyboard, loads `blank.bin` and enters it. What the runs of the system start from is
what it leaves.
-/

namespace PeachOs

open Memory X86

variable {H : Type} {A : Allocator H} {F : FileOps H} {laws : HeapLaws A F}

/-- `"0:/blank.bin"`. -/
def blankBin : List UInt8 := [48, 58, 47, 98, 108, 97, 110, 107, 46, 98, 105, 110]

/-- `paging_new_4gb` and `paging_switch` after the tables `t` in `m`, and what follows up to
the first switch. A panic is no result. -/
def kernelStart (A : Allocator H) (F : FileOps H) (h : H) (m : Ram) (terminal : Terminal) (keyboards : Keyboards)
    (classicKeyboard : UInt32) : Option (Machine H) := do
  let k := bootKernel A h m
  let directory := k.kernelDirectory
  let isr80hCommands ← registerEach (fun _ => none) systemCommands
  let callbackFunctions := (keyboards.keyboardInit classicKeyboard).callbackFunctions
  let (res, _, k) := processLoadSwitch A F k blankBin 0
  if res ≠ peachosAllOk then none
  else
    Machine.taskRunFirstEverTask
      { kernel := k, cr3 := directory, currentDirectory := directory, segments := ⟨0x10, 0x10, 0x10, 0x10⟩
        terminal, isr80hCommands, callbackFunctions }

/-- `h` is the heap after `KheapInit` and the mount, and `work` what the mount does to memory. -/
def kernelMain (A : Allocator H) (F : FileOps H) (image : KernelImage) (work : Ram → Ram) (h : H) (m : Ram)
    (terminal : Terminal) (keyboards : Keyboards) (classicKeyboard : UInt32) : Option (Machine H × Tables) := do
  let terminal := terminalInitialize terminal
  let (m, t) ← image.tablesInit work m
  let s ← kernelStart A F h m terminal keyboards classicKeyboard
  some (s, t)

section

variable {h : H} {m : Ram} {keyboards : Keyboards} {classicKeyboard : UInt32}

/-- What the first switch finds: the loads that came before, and the program's task. -/
structure ProgramEntered (laws : HeapLaws A F) (k₀ : Kernel H) (terminal : Terminal) (s : Machine H) : Prop where
  granted : laws.granted k₀.heap
  loads : ∃ s₀ : Machine H, Loads laws k₀ s₀.kernel ∧ s₀.taskRunFirstEverTask = some s
  registered : Registered s
  runs : s.kernel.Runs s.kernel.currentProcess
  screen : s.terminal = terminal

/-- Only a load that fails keeps the kernel from its first program. -/
theorem kernelStart_right (terminal : Terminal)
    (classic : (keyboards.keyboards classicKeyboard).initFunc = some .classicKeyboardInit)
    (empty : keyboards.callbackFunctions = fun _ => none)
    (granted : laws.granted (processLoad A F (bootKernel A h m) blankBin 0).2.2.heap) :
    (kernelStart A F h m terminal keyboards classicKeyboard = none ↔
      (processLoad A F (bootKernel A h m) blankBin 0).1 ≠ 0) ∧
    ∀ s, kernelStart A F h m terminal keyboards classicKeyboard = some s →
      ProgramEntered laws (bootKernel A h m) terminal s := by
  have booted := bootKernel_ready A h m
  rcases load : processLoad A F (bootKernel A h m) blankBin 0 with ⟨res, p, k⟩
  rw [load] at granted
  unfold kernelStart processLoadSwitch
  simp only [systemCommands_table, load, Option.bind_eq_bind, Option.bind_some, peachosAllOk]
  by_cases ok : res = 0
  · subst ok
    obtain ⟨nonzero, t, some', own, _, _, head, current⟩ := processLoad_current load granted
    rw [if_pos booted.lists.1] at head current
    have there : k.Loaded p := processLoad_loaded load granted
    have loads : Loads laws (bootKernel A h m) (processSwitch k p).2 := (Loads.start.load load granted).switch there
    rw [if_neg (not_not.mpr rfl), if_pos rfl]
    generalize start : (⟨(processSwitch k p).2, (bootKernel A h m).kernelDirectory, (bootKernel A h m).kernelDirectory,
      ⟨0x10, 0x10, 0x10, 0x10⟩, terminal, isr80hRegisterCommands,
      (keyboards.keyboardInit classicKeyboard).callbackFunctions⟩ : Machine H) = s₀
    have registered : Registered s₀ := by
      subst start
      exact .of_boot keyboards systemCommands_table classic empty rfl
    have kernel : s₀.kernel = (processSwitch k p).2 := by
      subst start
      rfl
    have screen : s₀.terminal = terminal := by
      subst start
      rfl
    have entered : s₀.taskRunFirstEverTask = some _ := if_neg (by
      rw [kernel]
      show k.currentTask ≠ 0
      rwa [current])
    refine ⟨⟨fun none => ?_, fun failed => absurd rfl failed⟩, fun s run => ?_⟩
    · rw [entered] at none
      cases none
    · obtain rfl := Option.some.inj (entered.symm.trans run)
      refine ⟨(processLoad_spec load granted).1, ⟨s₀, by rw [kernel]; exact loads, entered⟩,
        ⟨registered.commands, registered.callbacks⟩, ?_, screen⟩
      have same : (s₀.taskSwitch s₀.kernel.taskListHead).kernel =
          { (processSwitch k p).2 with currentTask := k.taskListHead } := by
        rw [← show s₀.kernel.taskListHead = k.taskListHead by rw [kernel]; rfl, ← kernel]
        rfl
      dsimp only
      rw [same]
      exact ⟨there, head.trans own⟩
  · rw [if_pos ok]
    refine ⟨⟨fun _ => ok, fun _ => rfl⟩, fun s run => ?_⟩
    cases run

/-- **`kernel_main` starts the system.** It panics exactly when `blank.bin` does not
load, and else leaves a state that the runs of the system begin from: the commands
and the keyboard are registered, the program is the current process and runs, the
screen is cleared, and its interrupts enter the kernel. -/
theorem kernelMain_starts (laws : HeapLaws A F) (image : KernelImage) (work : Ram → Ram) (h : H) (m : Ram)
    (terminal : Terminal) (keyboards : Keyboards) (classicKeyboard : UInt32)
    (kept : ∀ m, Agree (fun x => image.On .gdt x ∨ image.On .interruptFuncAddresses x) m (work m))
    (classic : (keyboards.keyboards classicKeyboard).initFunc = some .classicKeyboardInit)
    (empty : keyboards.callbackFunctions = fun _ => none) (keeps : F.Keeps image.Holds)
    (granted : ∀ m' t, image.tablesInit work m = some (m', t) →
      laws.granted (processLoad A F (bootKernel A h m') blankBin 0).2.2.heap) :
    (kernelMain A F image work h m terminal keyboards classicKeyboard = none ↔
      ∃ m' t, image.tablesInit work m = some (m', t) ∧ (processLoad A F (bootKernel A h m') blankBin 0).1 ≠ 0) ∧
    ∀ s t, kernelMain A F image work h m terminal keyboards classicKeyboard = some (s, t) →
      Begun laws s ∧ Registered s ∧ s.kernel.Runs s.kernel.currentProcess ∧
      s.terminal = terminalInitialize terminal ∧
      ∀ c : Cpu, c.cs.toNat % 4 ≠ 0 → ∀ vector software errorCode, c.deliver s.kernel.ram t vector software errorCode =
        some (c.interrupt kernelCodeSelector kernelDataSelector (image.stub m vector.toNat) tssEsp0 errorCode) := by
  have low (x : UInt32) (holds : image.Holds x) : x.toNat < 0x1000000 := Nat.lt_trans holds.low (by decide)
  obtain ⟨m', t, tables, prepared⟩ := image.tablesInit_prepared work kept m
  obtain ⟨panics, starts⟩ :=
    kernelStart_right (terminalInitialize terminal) classic empty (granted m' t tables)
  have unfolded : kernelMain A F image work h m terminal keyboards classicKeyboard =
      (kernelStart A F h m' (terminalInitialize terminal) keyboards classicKeyboard).map (·, t) := by
    unfold kernelMain
    dsimp only
    rw [tables, Option.bind_eq_bind, Option.bind_some]
    dsimp only
    generalize kernelStart A F h m' (terminalInitialize terminal) keyboards classicKeyboard = started
    cases started with
    | none => rfl
    | some s => rfl
  rw [unfolded]
  refine ⟨?_, fun s t' run => ?_⟩
  · rw [Option.map_eq_none_iff, panics]
    constructor
    · exact fun failed => ⟨m', t, tables, failed⟩
    · rintro ⟨m₁, t₁, tables', failed⟩
      obtain ⟨rfl, rfl⟩ := Prod.mk.inj (Option.some.inj (tables.symm.trans tables'))
      exact failed
  · obtain ⟨_, start, same⟩ := Option.map_eq_some_iff.mp run
    cases same
    obtain ⟨room, ⟨s₀, loads, entered⟩, registered, runs, screen⟩ := starts s start
    refine ⟨⟨_, s₀, bootKernel_ready A h m', room, loads, entered⟩, registered, runs, screen, ?_⟩
    have paged : Agree image.Holds m' (bootKernel A h m').ram := by
      have built (granted : laws.granted (pagingNew4gb A h m' (pagingIsWriteable ||| pagingIsPresent |||
          pagingAccessFromAll)).2.1) := pagingNew4gb_kept low m' granted
      rw [bootKernel_chunk] at built
      dsimp only at built
      exact built room
    have whole : Agree image.Holds m' s.kernel.ram := by
      rw [(entered_same entered).ram]
      exact paged.trans (loads.kept keeps low)
    exact fun c outer vector software errorCode => (prepared.mono whole).delivers outer vector software errorCode

end

/-- A kernel whose disk has a `blank.bin` of 100 bytes. -/
theorem blank_started : ∃ (s : Machine Nat) (t : Tables), Begun (freshLaws 100) s ∧
    userCpu.deliver s.kernel.ram t 0x80 true none =
      some (userCpu.interrupt kernelCodeSelector kernelDataSelector (smallImage.stub (fun _ => 0) 0x80) tssEsp0 none) := by
  have loads (m : Ram) := freshHeap_loads 100 (k := bootKernel freshHeap 0 m) blankBin 0
    ⟨0, by decide, (bootKernel_ready freshHeap 0 m).processes 0 (by decide)⟩ (by rw [bootKernel_fresh]; decide)
  obtain ⟨panics, starts⟩ := kernelMain_starts (freshLaws 100) smallImage clearBlock 0 (fun _ => 0) ⟨0, 0, fun _ => 0, []⟩
    bootKeyboards 0x1000 clearBlock_kept rfl rfl (oneFile_keeps 100 _) (fun m' _ _ => by
      obtain ⟨p, k, load, _, granted⟩ := loads m'
      rw [load]
      exact granted)
  cases run : kernelMain freshHeap (oneFile 100) smallImage clearBlock 0 (fun _ => 0) ⟨0, 0, fun _ => 0, []⟩ bootKeyboards
      0x1000 with
  | none =>
    obtain ⟨m', _, _, failed⟩ := panics.mp run
    obtain ⟨p, k, load, _⟩ := loads m'
    rw [load] at failed
    exact absurd rfl failed
  | some result =>
    obtain ⟨s, t⟩ := result
    obtain ⟨begun, _, _, _, delivers⟩ := starts s t run
    exact ⟨s, t, begun, delivers userCpu (by decide) 0x80 true none⟩

end PeachOs
