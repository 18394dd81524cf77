import PeachOs.Kernel

/-!
# Loading processes

`process.c` over the kernel state. The file system is a parameter: what
`fopen`, `fstat`, `fread` and `fclose` return and do to heap and memory.
-/

namespace PeachOs

open Memory Address
open Function (update)

/-- The heap's state carries what the file system keeps for itself. -/
structure FileOps (H : Type) where
  fopen : H → Ram → (filename mode : List UInt8) → Int × H × Ram
  fstat : H → Ram → (fd : Int) → (Int × UInt32) × H × Ram
  fread : H → Ram → (ptr size nmemb : UInt32) → (fd : Int) → Int × H × Ram
  fclose : H → Ram → (fd : Int) → Int × H × Ram

def peachosMaxProcesses : Nat := 12
def peachosMaxPathLength : Nat := 108

variable {H : Type} (A : Allocator H) (F : FileOps H)

def processGet (k : Kernel H) (processId : Int) : UInt32 :=
  if processId < 0 ∨ processId > peachosMaxProcesses then 0 else k.processes processId.toNat

/-- `process_load_binary` up to the label `out`. -/
def processReadBinary (k : Kernel H) (fd : Int) (process : UInt32) : Int × Kernel H :=
  let ((res, filesize), heap, ram) := F.fstat k.heap k.ram fd
  let k := { k with heap, ram }
  if res ≠ peachosAllOk then (res, k)
  else
    let (programDataPtr, k) := k.kZalloc A filesize
    if programDataPtr = 0 then (-enomem, k)
    else
      let (got, heap, ram) := F.fread k.heap k.ram programDataPtr filesize 1 fd
      let k := { k with heap, ram }
      if got ≠ 1 then (-eio, k)
      else (res, k.modifyProc process fun p => { p with ptr := programDataPtr, size := filesize })

def processLoadBinary (k : Kernel H) (filename : List UInt8) (process : UInt32) : Int × Kernel H :=
  let (fd, heap, ram) := F.fopen k.heap k.ram filename [114]
  let k := { k with heap, ram }
  let (res, k) := if fd = 0 then (-eio, k) else processReadBinary A F k fd process
  let (_, heap, ram) := F.fclose k.heap k.ram fd
  (res, { k with heap, ram })

def processLoadData (k : Kernel H) (filename : List UInt8) (process : UInt32) : Int × Kernel H :=
  processLoadBinary A F k filename process

def processMapBinary (k : Kernel H) (process : UInt32) : Int × Kernel H :=
  let p := k.procs process
  let (res, ram) := pagingMapTo k.ram (k.tasks p.task).pageDirectory peachosProgramVirtualAddress
    p.ptr (pagingAlignAddres (p.ptr + p.size)) userWriteable
  (res, { k with ram })

def processMapMemory (k : Kernel H) (process : UInt32) : Int × Kernel H :=
  let (res, k) := processMapBinary k process
  if res < 0 then (res, k)
  else
    let p := k.procs process
    let (res, ram) := pagingMapTo k.ram (k.tasks p.task).pageDirectory
      peachosProgramStackVirtualAddressEnd p.stack
      (pagingAlignAddres (p.stack + peachosUserProgramStackSize)) userWriteable
    (res, { k with ram })

/-- The loop of `process_get_free_slot` from slot `i` on. -/
def freeSlotFrom (k : Kernel H) : (left i : Nat) → Int
  | 0, _ => -eistkn
  | left + 1, i => if k.processes i = 0 then i else freeSlotFrom k left (i + 1)

def processGetFreeSlot (k : Kernel H) : Int := freeSlotFrom k peachosMaxProcesses 0

/-- `process_load_for_slot` up to the label `out`; `_process` is its local
pointer, and `process` is what `*process` holds afterwards. -/
def processFillSlot (k : Kernel H) (filename : List UInt8) (process _process : UInt32)
    (processSlot : Int) : Int × UInt32 × Kernel H :=
  let (res, k) := processLoadData A F k filename _process
  if res < 0 then (res, process, k)
  else
    let (programStackPtr, k) := k.kZalloc A peachosUserProgramStackSize
    if programStackPtr = 0 then (-enomem, process, k)
    else
      let k := k.modifyProc _process fun p =>
        { p with
          filename := filename.take (peachosMaxPathLength - 1)
          stack := programStackPtr
          id := .ofInt processSlot }
      let (task, k) := taskNew A k _process
      if errorI task = 0 then (errorI task, process, k)
      else
        let k := k.modifyProc _process fun p => { p with task }
        let (res, k) := processMapMemory k _process
        if res < 0 then (res, process, k)
        else (res, _process, { k with processes := update k.processes processSlot.toNat _process })

def processLoadForSlot (k : Kernel H) (filename : List UInt8) (process : UInt32) (processSlot : Int) :
    Int × UInt32 × Kernel H :=
  if processGet k processSlot ≠ 0 then (-eistkn, process, k)
  else
    let (_process, k) := k.kZalloc A sizeofProcess
    if _process = 0 then (-enomem, process, k)
    else
      let k := k.modifyProc _process fun _ => Process.zero
      let (res, process, k) := processFillSlot A F k filename process _process processSlot
      let k :=
        if res < 0 ∧ (k.procs _process).task ≠ 0 then (taskFree A k (k.procs _process).task).2 else k
      (res, process, k)

/-- `process` is what `*process` holds before the call. -/
def processLoad (k : Kernel H) (filename : List UInt8) (process : UInt32) : Int × UInt32 × Kernel H :=
  let processSlot := processGetFreeSlot k
  if processSlot < 0 then (-eistkn, process, k)
  else processLoadForSlot A F k filename process processSlot

end PeachOs
