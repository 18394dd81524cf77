import PeachOs.Keyboard
import PeachOs.KernelPages
import PeachOs.TaskReturn
import PeachOs.Terminal

/-!
# Interrupts and system calls

`idt.c` with what its handlers call. The loaded directory and the data segments
are part of the state, and the kernel's own records are reached under every
directory.
-/

namespace PeachOs

open Memory Address

structure Segments where
  ds : UInt16
  es : UInt16
  fs : UInt16
  gs : UInt16

/-- The functions `isr80h_register_commands` registers. -/
inductive Isr80hCommand
  | command0Sum
  | commad1Print
  | command2Getkey
  | command3Putchar

/-- The function a keyboard registers for its interrupt. -/
inductive InterruptCallback
  | classicKeyboardHandleInterrupt

def peachosTotalInterrupts : Nat := 512
def peachosMaxIsr80hCommands : Nat := 1024
def isrKeyboardInterrupt : Fin peachosTotalInterrupts := ⟨0x21, by decide⟩

structure Machine (H : Type) where
  kernel : Kernel H
  cr3 : UInt32
  currentDirectory : UInt32
  segments : Segments
  terminal : Terminal
  isr80hCommands : Nat → Option Isr80hCommand
  callbackFunctions : Fin peachosTotalInterrupts → Option InterruptCallback

variable {H : Type}

/-! ## The loaded directory -/

namespace Machine

def withRam (s : Machine H) (ram : Ram) : Machine H := { s with kernel := { s.kernel with ram } }

def kFree (A : Allocator H) (s : Machine H) (ptr : UInt32) : Machine H :=
  { s with kernel := { s.kernel with heap := A.free s.kernel.heap ptr } }

def pagingSwitch (s : Machine H) (chunk : UInt32) : Machine H :=
  { s with cr3 := load32 s.kernel.ram chunk, currentDirectory := load32 s.kernel.ram chunk }

def kernelRegisters (s : Machine H) : Machine H := { s with segments := ⟨0x10, 0x10, 0x10, 0x10⟩ }

def userRegisters (s : Machine H) : Machine H := { s with segments := ⟨0x23, 0x23, 0x23, 0x23⟩ }

def kernelPage (s : Machine H) : Machine H := s.kernelRegisters.pagingSwitch s.kernel.kernelPageChunk

def taskSwitch (s : Machine H) (task : UInt32) : Machine H :=
  { s with kernel := { s.kernel with currentTask := task } }.pagingSwitch (s.kernel.tasks task).pageDirectory

def taskPage (s : Machine H) : Machine H := s.userRegisters.taskSwitch s.kernel.currentTask

def taskPageTask (s : Machine H) (task : UInt32) : Machine H :=
  s.userRegisters.pagingSwitch (s.kernel.tasks task).pageDirectory

end Machine

/-- A word behind a translation; its bytes may lie on two pages. -/
def readWord (tr : Translation) (m : Ram) (v : UInt32) : Option UInt32 := do
  let b₀ ← readByte tr m v
  let b₁ ← readByte tr m (v + 1)
  let b₂ ← readByte tr m (v + 2)
  let b₃ ← readByte tr m (v + 3)
  some (.ofNat (b₀.toNat + 256 * b₁.toNat + 65536 * b₂.toNat + 16777216 * b₃.toNat))

/-- The bytes of a string up to its NUL, or none when there is no NUL in the `left` bytes. -/
def stringFrom (m : Ram) (a : UInt32) : (left : Nat) → Option (List UInt8)
  | 0 => none
  | left + 1 => if m a = 0 then some [] else (stringFrom m (a + 1) left).map (m a :: ·)

namespace Machine

/-- No result when the user's stack pointer does not lead to memory. -/
def taskGetStackItem (s : Machine H) (task : UInt32) (index : Int) : Option (UInt32 × Machine H) := do
  let spPtr := (s.kernel.tasks task).registers.esp
  let s := s.taskPageTask task
  let result ← readWord (translate s.cr3) s.kernel.ram (spPtr + 4 * .ofInt index)
  some (result, s.kernelPage)

/-- `copy_string_from_task` from the switch to the task's directory on. -/
def copySwitched (A : Allocator H) (s : Machine H) (chunk taskDirectory tmp oldEntry virtual phy : UInt32)
    (max : Int) : Option (Int × Machine H) := do
  let s := s.pagingSwitch chunk
  let ram ← strncpy (translate s.cr3) s.kernel.ram tmp virtual max
  let s := (s.withRam ram).kernelPage
  let (res, ram) := pagingSet ram taskDirectory tmp oldEntry
  if res < 0 then some (-eio, (s.withRam ram).kFree A tmp)
  else
    let ram ← strncpy identity ram phy tmp max
    some (res, (s.withRam ram).kFree A tmp)

def copyStringFromTask (A : Allocator H) (s : Machine H) (task virtual phy : UInt32) (max : Int) :
    Option (Int × Machine H) :=
  if max > pageSizeInBytes.toNat then some (-einvarg, s)
  else
    let (tmp, kernel) := s.kernel.kZalloc A (.ofInt max)
    let s := { s with kernel }
    if tmp = 0 then some (-enomem, s)
    else
      let chunk := (s.kernel.tasks task).pageDirectory
      let taskDirectory := load32 s.kernel.ram chunk
      let oldEntry := pagingGet s.kernel.ram taskDirectory tmp
      let (_, ram) := pagingMap s.kernel.ram chunk tmp tmp userWriteable
      (s.withRam ram).copySwitched A chunk taskDirectory tmp oldEntry virtual phy max

def print (s : Machine H) (str : UInt32) : Option (Machine H) := do
  let chars ← stringFrom s.kernel.ram str (2 ^ 32)
  some { s with terminal := PeachOs.print s.terminal (chars.map UInt8.toInt8) }

/-! ## The commands -/

def isr80hCommand0Sum (s : Machine H) : Option (UInt32 × Machine H) := do
  let (v2, s) ← s.taskGetStackItem s.kernel.currentTask 1
  let (v1, s) ← s.taskGetStackItem s.kernel.currentTask 0
  some (v1 + v2, s)

/-- `buff` is the address of the local buffer. -/
def isr80hCommad1Print (A : Allocator H) (s : Machine H) (buff : UInt32) : Option (UInt32 × Machine H) := do
  let (userSpaceMsgBuffer, s) ← s.taskGetStackItem s.kernel.currentTask 0
  let (res, s) ← s.copyStringFromTask A s.kernel.currentTask userSpaceMsgBuffer buff pageSizeInBytes.toNat
  let s ← s.print buff
  some (error res, s)

def isr80hCommand2Getkey (s : Machine H) : UInt32 × Machine H :=
  let (c, kernel) := keyboardPop s.kernel
  (.ofInt c.toInt8.toInt, { s with kernel })

def isr80hCommand3Putchar (s : Machine H) : Option (UInt32 × Machine H) := do
  let (c, s) ← s.taskGetStackItem s.kernel.currentTask 0
  some (0, { s with terminal := terminalWritechar s.terminal c.toUInt8.toInt8 15 })

end Machine

def Isr80hCommand.run (A : Allocator H) (s : Machine H) (buff : UInt32) : Isr80hCommand → Option (UInt32 × Machine H)
  | command0Sum => s.isr80hCommand0Sum
  | commad1Print => s.isr80hCommad1Print A buff
  | command2Getkey => some s.isr80hCommand2Getkey
  | command3Putchar => s.isr80hCommand3Putchar

/-- The table after `isr80h_register_commands`. -/
def isr80hRegisterCommands : Nat → Option Isr80hCommand
  | 0 => some .command0Sum
  | 1 => some .commad1Print
  | 2 => some .command2Getkey
  | 3 => some .command3Putchar
  | _ => none

/-! ## The keyboard's callback -/

def keyboardScanSetOne : List UInt8 :=
  [0x00, 0x1B, 49, 50, 51, 52, 53, 54, 55, 56, 57, 48, 45, 61, 0x8, 9, 81, 87, 69, 82, 84, 89, 85, 73, 79, 80, 91, 93,
    0x0d, 0x0, 65, 83, 68, 70, 71, 72, 74, 75, 76, 59, 39, 96, 0x00, 92, 90, 88, 67, 86, 66, 78, 77, 44, 46, 47, 0x00,
    42, 0x00, 0x20, 0x00, 0x00, 0x00, 0x00, 0x00, 0x00, 0x00, 0x00, 0x00, 0x00, 0x00, 55, 56, 57, 45, 52, 53, 54, 43,
    49, 50, 51, 48, 46]

/-- The test lets one scan code through whose character is the byte `behind` the table. -/
def classicKeyboardScancodeToChar (behind scancode : UInt8) : UInt8 :=
  if scancode.toNat > keyboardScanSetOne.length then 0 else keyboardScanSetOne.getD scancode.toNat behind

def classicKeyboardKeyReleased : UInt8 := 0x80

/-- `scancode` is what the first `insb` reads. The second `insb` takes another byte from
the controller and drops it: if a scan code waits there, that key is lost. The
controller is no part of the kernel's state, so the second read changes nothing here. -/
def classicKeyboardHandleInterrupt (k : Kernel H) (behind scancode : UInt8) : Kernel H :=
  if scancode &&& classicKeyboardKeyReleased ≠ 0 then k
  else
    let c := classicKeyboardScancodeToChar behind scancode
    if c ≠ 0 then keyboardPush k c else k

def InterruptCallback.run (s : Machine H) (behind scancode : UInt8) : InterruptCallback → Machine H
  | classicKeyboardHandleInterrupt =>
    { s with kernel := PeachOs.classicKeyboardHandleInterrupt s.kernel behind scancode }

/-! ## The handlers -/

namespace Machine

/-- Without a current task the kernel panics. -/
def taskCurrentSaveState (s : Machine H) (frame : InterruptFrame) : Option (Machine H) :=
  if s.kernel.currentTask = 0 then none
  else some { s with kernel := s.kernel.modifyTask s.kernel.currentTask (taskSaveState · frame) }

def isr80hHandleCommand (A : Allocator H) (s : Machine H) (command : Int) (buff : UInt32) :
    Option (UInt32 × Machine H) :=
  if command < 0 ∨ command ≥ peachosMaxIsr80hCommands then some (0, s)
  else
    match s.isr80hCommands command.toNat with
    | none => some (0, s)
    | some commandFunc => commandFunc.run A s buff

def isr80hHandler (A : Allocator H) (s : Machine H) (command : Int) (frame : InterruptFrame) (buff : UInt32) :
    Option (UInt32 × Machine H) := do
  let s := s.kernelPage
  let s ← s.taskCurrentSaveState frame
  let (res, s) ← s.isr80hHandleCommand A command buff
  some (res, s.taskPage)

/-- `behind` and `scancode` are what the keyboard's callback reads. -/
def interruptHandler (s : Machine H) (interrupt : Fin peachosTotalInterrupts) (frame : InterruptFrame)
    (behind scancode : UInt8) : Option (Machine H) :=
  let s := s.kernelPage
  let called :=
    match s.callbackFunctions interrupt with
    | none => some s
    | some callback => (s.taskCurrentSaveState frame).map (callback.run · behind scancode)
  called.map taskPage

end Machine

end PeachOs
