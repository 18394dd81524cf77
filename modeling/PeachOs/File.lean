import PeachOs.FatItems

/-!
# Files

`file.c` over the one file system there is, FAT16 on the one disk, so the
pointers to them in a descriptor are left out.
-/

namespace PeachOs

open Function (update)

def peachosMaxFileDescriptors : Nat := 512

def fileModeWrite : UInt32 := 1
def fileModeAppend : UInt32 := 2
def fileModeInvalid : UInt32 := 3

def sizeofFileDescriptor : UInt32 := 16

structure FileDescriptor where
  index : Int
  privateInfo : UInt32

/-- The file system with the table of descriptors. -/
structure Files (H : Type) extends Fs H where
  descriptors : UInt32 → FileDescriptor
  fileDescriptors : Nat → UInt32

def strncmp (s1 s2 : List UInt8) : (lenToCompare : Nat) → Int
  | 0 => 0
  | n + 1 =>
    if s1.headD 0 ≠ s2.headD 0 then (s1.headD 0).toInt8.toInt - (s2.headD 0).toInt8.toInt
    else if s1.headD 0 = 0 then 0
    else strncmp s1.tail s2.tail n

def fileGetModeByString (str : List UInt8) : UInt32 :=
  let mode := fileModeInvalid
  let mode := if strncmp str [114] 1 = 0 then fileModeRead else mode
  let mode := if strncmp str [119] 1 = 0 then fileModeWrite else mode
  if strncmp str [97] 1 = 0 then fileModeAppend else mode

variable {H : Type} (A : Allocator H) (device : BlockDevice)

def Files.setFs (s : Files H) (fs : Fs H) : Files H := { s with toFs := fs }

def Files.setPaths (s : Files H) (paths : Paths H) : Files H := s.setFs { s.toFs with toPaths := paths }

/-- The lowest empty slot of the table from `i` on, with `left` to look at. -/
def freeDescriptorFrom (s : Files H) : (left i : Nat) → Option Nat
  | 0, _ => none
  | left + 1, i => if s.fileDescriptors i = 0 then some i else freeDescriptorFrom s left (i + 1)

/-- The result and the new descriptor. -/
def fileNewDescriptor (s : Files H) : Int × UInt32 × Files H :=
  match freeDescriptorFrom s peachosMaxFileDescriptors 0 with
  | none => (-enomem, 0, s)
  | some i =>
    let (desc, fs) := s.toFs.kZalloc A sizeofFileDescriptor
    if desc = 0 then (-enomem, 0, s.setFs fs)
    else (0, desc, { s.setFs fs with
      descriptors := update s.descriptors desc ⟨i + 1, 0⟩
      fileDescriptors := update s.fileDescriptors i desc })

def fileGetDescriptor (s : Files H) (fd : Int) : UInt32 :=
  if fd ≤ 0 ∨ fd > peachosMaxFileDescriptors then 0 else s.fileDescriptors (fd - 1).toNat

/-- The exit of `fopen` with a negative result. -/
def fopenFails (s : Files H) (pathRoot : UInt32) : Option (Int × Files H) :=
  (pathparserFree A s.toPaths pathRoot).map fun paths => (0, s.setPaths paths)

def fopen (s : Files H) (filename modeStr : List UInt8) : Option (Int × Files H) :=
  match pathparserParse A s.toPaths filename with
  | none => none
  | some (pathRoot, paths) =>
    let s := s.setPaths paths
    if pathRoot = 0 ∨ (s.roots pathRoot).first = 0 then fopenFails A s pathRoot
    else if (s.roots pathRoot).driveNo ≠ 0 then fopenFails A s pathRoot
    else if s.filesystem = 0 then fopenFails A s pathRoot
    else if fileGetModeByString modeStr = fileModeInvalid then fopenFails A s pathRoot
    else
      match fat16Open A device s.toFs (s.roots pathRoot).first (fileGetModeByString modeStr) with
      | none => none
      | some (privateData, fs) =>
        let s := s.setFs fs
        if errorI privateData < 0 then fopenFails A s pathRoot
        else
          let (res, desc, s) := fileNewDescriptor A s
          if res ≠ 0 then fopenFails A s pathRoot
          else
            let s := { s with
              descriptors := update s.descriptors desc { s.descriptors desc with privateInfo := privateData } }
            let res := (s.descriptors desc).index
            if res < 0 then fopenFails A s pathRoot else some (res, s)

/-- The result, and the bytes written for each item of `size` bytes. -/
def fread (s : Files H) (size nmemb : UInt32) (fd : Int) : Option (Int × List (List UInt8) × Files H) :=
  if size = 0 ∨ nmemb = 0 ∨ fd < 1 then some (-einvarg, [], s)
  else
    let desc := fileGetDescriptor s fd
    if desc = 0 then some (-einvarg, [], s)
    else (fat16Read device s.toFs (s.descriptors desc).privateInfo size nmemb).map fun (res, chunks, fs) =>
      (res, chunks, s.setFs fs)

def fseek (s : Files H) (fd : Int) (offset whence : UInt32) : Int × Files H :=
  let desc := fileGetDescriptor s fd
  if desc = 0 then (-eio, s)
  else
    let (res, fs) := fat16Seek s.toFs (s.descriptors desc).privateInfo offset whence
    (res, s.setFs fs)

def fstat (s : Files H) (fd : Int) : Int × Option FileStat :=
  let desc := fileGetDescriptor s fd
  if desc = 0 then (-eio, none) else fat16Stat s.toFs (s.descriptors desc).privateInfo

def fileFreeDescriptor (s : Files H) (desc : UInt32) : Files H :=
  let s := { s with fileDescriptors := update s.fileDescriptors ((s.descriptors desc).index - 1).toNat 0 }
  s.setFs (s.toFs.kFree A desc)

def fclose (s : Files H) (fd : Int) : Int × Files H :=
  let desc := fileGetDescriptor s fd
  if desc = 0 then (-eio, s)
  else
    let (res, fs) := fat16Close A s.toFs (s.descriptors desc).privateInfo
    let s := s.setFs fs
    if res = peachosAllOk then (res, fileFreeDescriptor A s desc) else (res, s)

end PeachOs
