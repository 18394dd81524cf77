import PeachOs.Fat16

/-!
# Items of a FAT16 volume

The part of `fat16.c` that makes items out of directory entries, finds them by
name, and opens, reads and closes files. Pointers inside an open file are taken
not to be NULL.
-/

namespace PeachOs

open Function (update)

/-- The file system's memory. There is one disk; `filesystem` is its file system
and `fsPrivate` its private data. `items` are arrays of directory entries. -/
structure Fs (H : Type) extends Paths H where
  filesystem : UInt32
  fsPrivate : UInt32
  privates : UInt32 → FatPrivate
  streams : Streams
  fatItems : UInt32 → FatItem
  directories : UInt32 → FatDirectory
  items : UInt32 → Nat → UInt8
  fatDescriptors : UInt32 → FatFileDescriptor

def sizeofFatDirectory : UInt32 := 16
def sizeofFatItem : UInt32 := 8
def sizeofFatFileDescriptor : UInt32 := 8

def fileModeRead : UInt32 := 0

variable {H : Type} (A : Allocator H) (device : BlockDevice)

def Fs.private (s : Fs H) : FatPrivate := s.privates s.fsPrivate

/-- Entry `i` of the array at `array`. -/
def Fs.entry (s : Fs H) (array : UInt32) (i : Nat) (j : Nat) : UInt8 :=
  s.items array (sizeofFatDirectoryItem * i + j)

/-- Memory with `bytes` written from its start on. -/
def written (bytes : List UInt8) (mem : Nat → UInt8) (i : Nat) : UInt8 := bytes.getD i (mem i)

/-- `kZalloc`, where what is in the block is set by the caller. -/
def Fs.kZalloc (s : Fs H) (bytes : UInt32) : UInt32 × Fs H :=
  let (ptr, heap) := A.malloc s.heap bytes
  (ptr, { s with heap })

def Fs.kFree (s : Fs H) (ptr : UInt32) : Fs H := { s with heap := A.free s.heap ptr }

/-- `kZalloc` of an array of entries. -/
def Fs.newItems (s : Fs H) (bytes : UInt32) : UInt32 × Fs H :=
  let (ptr, s) := s.kZalloc A bytes
  if ptr = 0 then (0, s)
  else (ptr, { s with items := update s.items ptr (cleared bytes.toNat (s.items ptr)) })

def Fs.setItem (s : Fs H) (ptr : UInt32) (item : FatItem) : Fs H :=
  { s with fatItems := update s.fatItems ptr item }

def Fs.setDirectory (s : Fs H) (ptr : UInt32) (directory : FatDirectory) : Fs H :=
  { s with directories := update s.directories ptr directory }

/-! ## Directories -/

/-- The first sector of the root directory. -/
def rootDirSectorPos (header : FatHeader) : Int :=
  header.fatCopies.toNat * header.sectorsPerFat.toNat + header.reservedSectors.toNat

/-- Fills `root_directory` of the private data at `p`. -/
def fat16GetRootDirectory (s : Fs H) (p : UInt32) : Option (Int × Fs H) :=
  let header := (s.privates p).header
  let rootDirSectorPos := rootDirSectorPos header
  let rootDirSize : Int := header.roodDirEntries.toNat * sizeofFatDirectoryItem
  let totalSectors := rootDirSize / peachosSectorSize + (if rootDirSize % peachosSectorSize ≠ 0 then 1 else 0)
  match fat16GetTotalItemsForDirectory device (s.privates p) s.streams rootDirSectorPos with
  | none => none
  | some (totalEntries, streams) =>
    let (dir, s) := ({ s with streams }).newItems A (.ofInt rootDirSize)
    if dir = 0 then some (-enomem, s)
    else
      let read := diskSteamerRead device (fat16SectorToAbsolute rootDirSectorPos) rootDirSize
      let s := { s with
        streams := update s.streams (s.privates p).directoryStream read.pos
        items := update s.items dir (written read.out (s.items dir)) }
      if read.res ≠ 0 then some (-eio, s)
      else
        let rootDirectory := ⟨dir, totalEntries, rootDirSectorPos, rootDirSectorPos + totalSectors⟩
        some (0, { s with privates := update s.privates p { s.privates p with rootDirectory } })

/-- The directory of entry `i` of `array`, or NULL. -/
def fat16LoadFatDirectory (s : Fs H) (array : UInt32) (i : Nat) : Option (UInt32 × Fs H) :=
  if itemAttribute (s.entry array i) ≠ fatFileSubdirectory then some (0, s)
  else
    let cluster := int32 (fat16GetFirstCluster (s.entry array i)).toNat
    let (directory, s) := s.kZalloc A sizeofFatDirectory
    if directory = 0 then some (0, s)
    else
      let clusterSector := fat16ClusterToSector s.private cluster
      match fat16GetTotalItemsForDirectory device s.private s.streams clusterSector with
      | none => none
      | some (totalItems, streams) =>
        let directorySizeBytes := int32 (totalItems * sizeofFatDirectoryItem)
        let (item, s) := ({ s with streams }).newItems A (.ofInt directorySizeBytes)
        let s := s.setDirectory directory ⟨item, totalItems, 0, 0⟩
        if item = 0 then some (directory, s)
        else
          match fat16ReadInternal device s.private s.streams cluster 0 directorySizeBytes with
          | none => none
          | some (_, out, streams) =>
            some (directory, { s with streams, items := update s.items item (written out (s.items item)) })

/-- A copy of entry `i` of `array`, or NULL. -/
def fat16CloneDirectoryItem (s : Fs H) (array : UInt32) (i : Nat) : UInt32 × Fs H :=
  let (itemCopy, s) := s.newItems A (.ofNat sizeofFatDirectoryItem)
  if itemCopy = 0 then (0, s)
  else
    let bytes := (List.range sizeofFatDirectoryItem).map (s.entry array i)
    (itemCopy, { s with items := update s.items itemCopy (written bytes (s.items itemCopy)) })

/-- The item of entry `i` of `array`, or NULL. A subdirectory is loaded, and then
its item is made a file's like every other. -/
def fat16NewFatItemForDirectoryItem (s : Fs H) (array : UInt32) (i : Nat) : Option (UInt32 × Fs H) :=
  let (fItem, s) := s.kZalloc A sizeofFatItem
  if fItem = 0 then some (0, s)
  else
    let loaded :=
      if itemAttribute (s.entry array i) &&& fatFileSubdirectory ≠ 0 then
        (fat16LoadFatDirectory A device s array i).map fun (directory, s) =>
          s.setItem fItem ⟨directory, fatItemTypeDirectory⟩
      else some (s.setItem fItem ⟨0, 0⟩)
    loaded.map fun s =>
      let s := s.setItem fItem { s.fatItems fItem with type := fatItemTypeFile }
      let (copy, s) := fat16CloneDirectoryItem A s array i
      (fItem, s.setItem fItem { s.fatItems fItem with item := copy })

/-- The loop of `fat16_find_item_in_directory` at entry `i` with `left` to go. -/
def findItemFrom (s : Fs H) (array : UInt32) (name : Nat → UInt8) (fItem : UInt32) :
    (left i : Nat) → Option (UInt32 × Fs H)
  | 0, _ => some (fItem, s)
  | left + 1, i =>
    if array = 0 then none
    else
      match fat16GetFullFilenameWithExtension (s.entry array i) peachosMaxPathLength with
      | none => none
      | some tempFilename =>
        if istrncmp (tempFilename.getD · 0) name peachosMaxPathLength = 0 then
          match fat16NewFatItemForDirectoryItem A device s array i with
          | none => none
          | some (fItem, s) => findItemFrom s array name fItem left (i + 1)
        else findItemFrom s array name fItem left (i + 1)

/-- The count is compared as an unsigned number. -/
def fat16FindItemInDirectory (s : Fs H) (directory : FatDirectory) (name : Nat → UInt8) :
    Option (UInt32 × Fs H) :=
  findItemFrom A device s directory.item name 0 (UInt32.ofInt directory.total).toNat 0

def fat16FreeDirectory (s : Fs H) (directory : UInt32) : Fs H :=
  if directory = 0 then s
  else
    let item := (s.directories directory).item
    let s := if item ≠ 0 then s.kFree A item else s
    s.kFree A directory

def fat16FatItemFree (s : Fs H) (item : UInt32) : Fs H :=
  let s :=
    if (s.fatItems item).type = fatItemTypeDirectory then fat16FreeDirectory A s (s.fatItems item).item
    else if (s.fatItems item).type = fatItemTypeFile then s.kFree A (s.fatItems item).item
    else s
  s.kFree A item

/-- The loop of `fat16_get_directory_entry`. -/
def Fs.directoryEntryFrom (s : Fs H) (currentItem nextPart : UInt32) : Option (UInt32 × Fs H) :=
  if nextPart = 0 then some (currentItem, s)
  else if currentItem = 0 then none
  else if (s.fatItems currentItem).type ≠ fatItemTypeDirectory then some (0, s)
  else if (s.fatItems currentItem).item = 0 then none
  else do
    let (tempItem, s) ← fat16FindItemInDirectory A device s (s.directories (s.fatItems currentItem).item)
      (s.strings (s.parts nextPart).part)
    fat16FatItemFree A s currentItem |>.directoryEntryFrom tempItem (s.parts nextPart).next
partial_fixpoint

def fat16GetDirectoryEntry (s : Fs H) (path : UInt32) : Option (UInt32 × Fs H) := do
  let (rootItem, s) ← fat16FindItemInDirectory A device s s.private.rootDirectory
    (s.strings (s.parts path).part)
  if rootItem = 0 then some (0, s)
  else s.directoryEntryFrom A device rootItem (s.parts path).next

/-! ## Files -/

def fat16Open (s : Fs H) (path mode : UInt32) : Option (UInt32 × Fs H) :=
  if mode ≠ fileModeRead then some (error (-erdonly), s)
  else
    let (descriptor, s) := s.kZalloc A sizeofFatFileDescriptor
    if descriptor = 0 then some (error (-enomem), s)
    else do
      let (item, s) ← fat16GetDirectoryEntry A device s path
      let s := { s with fatDescriptors := update s.fatDescriptors descriptor ⟨item, 0⟩ }
      if item = 0 then some (error (-eio), s) else some (descriptor, s)

/-- The loop of `fat16_read` with `left` items to go, where `read` reads the item
at an offset: a negative result or 0, and the bytes written for each item. -/
def readItemsFrom (read : Streams → UInt32 → Option (Int × List UInt8 × Streams)) (size : UInt32)
    (streams : Streams) (offset : UInt32) : (left : Nat) → Option (Int × List (List UInt8) × Streams)
  | 0 => some (0, [], streams)
  | left + 1 =>
    match read streams offset with
    | none => none
    | some (res, out, streams) =>
      if res < 0 then some (res, [out], streams)
      else
        match readItemsFrom read size streams (offset + size) left with
        | none => none
        | some (res, chunks, streams) => some (res, out :: chunks, streams)

/-- The bytes of item `i` are written from `out_ptr + i * size` on. -/
def fat16Read (s : Fs H) (descriptor size nmemb : UInt32) : Option (Int × List (List UInt8) × Fs H) :=
  let fatDesc := s.fatDescriptors descriptor
  let item := s.entry (s.fatItems fatDesc.item).item 0
  let startingCluster := int32 (fat16GetFirstCluster item).toNat
  let read (streams : Streams) (offset : UInt32) :=
    fat16ReadInternal device s.private streams startingCluster (int32 offset.toNat) (int32 size.toNat)
  (readItemsFrom read size s.streams fatDesc.pos nmemb.toNat).map fun (res, chunks, streams) =>
    (if res < 0 then res else int32 nmemb.toNat, chunks, { s with streams })

def seekSet : UInt32 := 0
def seekCur : UInt32 := 1
def seekEnd : UInt32 := 2

def fat16Seek (s : Fs H) (descriptor offset seekMode : UInt32) : Int × Fs H :=
  let desc := s.fatDescriptors descriptor
  let descItem := s.fatItems desc.item
  if descItem.type ≠ fatItemTypeFile then (-einvarg, s)
  else if offset ≥ itemFilesize (s.entry descItem.item 0) then (-eio, s)
  else if seekMode = seekSet then
    (0, { s with fatDescriptors := update s.fatDescriptors descriptor { desc with pos := offset } })
  else if seekMode = seekEnd then (-eunimp, s)
  else if seekMode = seekCur then
    (0, { s with fatDescriptors := update s.fatDescriptors descriptor { desc with pos := desc.pos + offset } })
  else (-einvarg, s)

structure FileStat where
  flags : UInt32
  filesize : UInt32
  deriving DecidableEq

def fileStatReadOnly : UInt32 := 1

/-- The result, and what is stored in `stat`. -/
def fat16Stat (s : Fs H) (descriptor : UInt32) : Int × Option FileStat :=
  let descItem := s.fatItems (s.fatDescriptors descriptor).item
  if descItem.type ≠ fatItemTypeFile then (-einvarg, none)
  else
    let ritem := s.entry descItem.item 0
    (0, some ⟨if itemAttribute ritem &&& fatFileReadOnly ≠ 0 then fileStatReadOnly else 0, itemFilesize ritem⟩)

def fat16Close (s : Fs H) (descriptor : UInt32) : Int × Fs H :=
  let s := fat16FatItemFree A s (s.fatDescriptors descriptor).item
  (0, s.kFree A descriptor)

end PeachOs
