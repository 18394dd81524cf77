import PeachOs.Task

/-!
# Kernel state

The kernel's memory and heap with the records of `task.c` and `process.c`. A
record is kept under its address, apart from the bytes of memory, as it lies in
heap blocks of its own. The functions of `task.c` that make and release tasks
keep their error paths.
-/

namespace PeachOs

open Memory Address
open Function (update)

structure KeyboardBuffer where
  buffer : Nat → UInt8
  tail : Int
  head : Int

/-- The field `allocations` is never read. A C string is the bytes before its NUL. -/
structure Process where
  id : UInt16
  filename : List UInt8
  task : UInt32
  ptr : UInt32
  stack : UInt32
  size : UInt32
  keyboard : KeyboardBuffer

/-- `processes` is the memory from the table's start on. -/
structure Kernel (H : Type) where
  heap : H
  ram : Ram
  kernelPageChunk : UInt32
  tasks : UInt32 → Task
  currentTask : UInt32
  taskListHead : UInt32
  taskListTail : UInt32
  procs : UInt32 → Process
  currentProcess : UInt32
  processes : Nat → UInt32

/-- `ERROR`, the pointer that stands for a result. -/
def error (res : Int) : UInt32 := .ofInt res

/-- `ERROR_I`, read back as an `int`. -/
def errorI (value : UInt32) : Int := Int.bmod value.toNat (2 ^ 32)

def sizeofTask : UInt32 := 64
def sizeofProcess : UInt32 := 5256
def peachosProgramVirtualAddress : UInt32 := 0x400000
def peachosUserProgramStackSize : UInt32 := 1024 * 16
def peachosProgramStackVirtualAddressStart : UInt32 := 0x3ff000
def peachosProgramStackVirtualAddressEnd : UInt32 :=
  peachosProgramStackVirtualAddressStart - 1024 * 16
def userDataSegment : UInt32 := 0x23
def userCodeSegment : UInt32 := 0x1b

/-- A record of zero bytes. -/
def Task.zero : Task := ⟨0, ⟨0, 0, 0, 0, 0, 0, 0, 0, 0, 0, 0, 0⟩, 0, 0, 0⟩

def Process.zero : Process := ⟨0, [], 0, 0, 0, 0, ⟨fun _ => 0, 0, 0⟩⟩

variable {H : Type} (A : Allocator H)

namespace Kernel

def setTask (k : Kernel H) (a : UInt32) (task : Task) : Kernel H :=
  { k with tasks := update k.tasks a task }

def modifyTask (k : Kernel H) (a : UInt32) (f : Task → Task) : Kernel H :=
  { k with tasks := update k.tasks a (f (k.tasks a)) }

def modifyProc (k : Kernel H) (a : UInt32) (f : Process → Process) : Kernel H :=
  { k with procs := update k.procs a (f (k.procs a)) }

def kZalloc (k : Kernel H) (bytes : UInt32) : UInt32 × Kernel H :=
  let (ptr, heap, ram) := PeachOs.kZalloc A k.heap k.ram bytes
  (ptr, { k with heap, ram })

end Kernel

/-- The loop of `paging_free_4gb` after `n` turns. -/
def freeTables (h : H) (m : Ram) (directoryEntry : UInt32) : Nat → H
  | 0 => h
  | i + 1 => A.free (freeTables h m directoryEntry i) (load32 m (slot directoryEntry i) &&& 0xfffff000)

def pagingFree4gb (h : H) (m : Ram) (chunk : UInt32) : H :=
  let directoryEntry := load32 m chunk
  let h := freeTables A h m directoryEntry (heapBlockSizeBytes / sizeofUnsignedInt).toNat
  A.free (A.free h directoryEntry) chunk

def taskGetNext (k : Kernel H) : UInt32 :=
  if (k.tasks k.currentTask).next = 0 then k.taskListHead else (k.tasks k.currentTask).next

/-- `task_list_remove` up to its treatment of the list's ends. -/
def taskUnlink (k : Kernel H) (task : UInt32) : Kernel H :=
  if (k.tasks task).prev ≠ 0 then
    let k := k.modifyTask (k.tasks task).prev fun prev => { prev with next := (k.tasks task).next }
    if (k.tasks task).next ≠ 0 then
      k.modifyTask (k.tasks task).next fun next => { next with prev := (k.tasks task).prev }
    else k
  else k

def taskListRemove (k : Kernel H) (task : UInt32) : Kernel H :=
  let k := taskUnlink k task
  let k := if task = k.taskListHead then { k with taskListHead := (k.tasks task).next } else k
  let k := if task = k.taskListTail then { k with taskListTail := (k.tasks task).prev } else k
  if task = k.currentTask then { k with currentTask := taskGetNext k } else k

def taskFree (k : Kernel H) (task : UInt32) : Int × Kernel H :=
  let k := { k with heap := pagingFree4gb A k.heap k.ram (k.tasks task).pageDirectory }
  let k := taskListRemove k task
  (0, { k with heap := A.free k.heap task })

def taskInit (k : Kernel H) (task process : UInt32) : Int × Kernel H :=
  let (pageDirectory, heap, ram) :=
    pagingNew4gb A k.heap k.ram (pagingIsPresent ||| pagingAccessFromAll)
  let k := { k with heap, ram }.setTask task { Task.zero with pageDirectory }
  if pageDirectory = 0 then (-eio, k)
  else
    let registers : Registers :=
      { Task.zero.registers with
        ip := peachosProgramVirtualAddress
        ss := userDataSegment
        esp := peachosProgramStackVirtualAddressStart
        cs := userCodeSegment }
    (0, k.modifyTask task fun t => { t with registers, process })

/-- The end of `task_new`: the task becomes the list's last. -/
def taskListAppend (k : Kernel H) (task : UInt32) : Kernel H :=
  if k.taskListHead = 0 then
    { k with taskListHead := task, taskListTail := task, currentTask := task }
  else
    let k := k.modifyTask k.taskListTail fun tail => { tail with next := task }
    let k := k.modifyTask task fun t => { t with prev := k.taskListTail }
    { k with taskListTail := task }

/-- The new task, or the error as a pointer. -/
def taskNew (k : Kernel H) (process : UInt32) : UInt32 × Kernel H :=
  let (task, k) := k.kZalloc A sizeofTask
  if task = 0 then (error (-enomem), (taskFree A k task).2)
  else
    let (res, k) := taskInit A k task process
    if res ≠ peachosAllOk then
      if res < 0 then (error res, (taskFree A k task).2) else (task, k)
    else (task, taskListAppend k task)

end PeachOs
