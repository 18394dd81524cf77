import PeachOs.PathParser
import PeachOs.Streamer

/-!
# FAT16

`fat16.c` on a mounted volume. Records and the arrays of directory entries are
kept by address, an array as the bytes from its start on. Functions that may
divide by zero, go through a NULL pointer, write outside a buffer or not return
give an `Option`. An `int` that may leave its range is taken back into it.
-/

namespace PeachOs

open Function (update)

def fatItemTypeDirectory : UInt32 := 0
def fatItemTypeFile : UInt32 := 1
def fatFileReadOnly : UInt8 := 0x01
def fatFileSubdirectory : UInt8 := 0x10
def fat16BadSector : Int := 0xFF7

/-- The fields of `fat_header` that are read on a mounted volume. -/
structure FatHeader where
  sectorsPerCluster : UInt8
  reservedSectors : UInt16
  fatCopies : UInt8
  roodDirEntries : UInt16
  sectorsPerFat : UInt16

structure FatDirectory where
  item : UInt32
  total : Int
  sectorPos : Int
  endingSectorPos : Int

structure FatPrivate where
  header : FatHeader
  rootDirectory : FatDirectory
  clusterReadStream : UInt32
  fatReadStream : UInt32
  directoryStream : UInt32

/-- The union of the two pointers is `item`. -/
structure FatItem where
  item : UInt32
  type : UInt32

structure FatFileDescriptor where
  item : UInt32
  pos : UInt32

/-- The positions of the disk streams, by address. -/
abbrev Streams := UInt32 → Int

/-! ## Clusters -/

def fat16SectorToAbsolute (sector : Int) : Int := int32 (sector * peachosSectorSize)

def FatPrivate.clusterBytes (p : FatPrivate) : Int := p.header.sectorsPerCluster.toNat * peachosSectorSize

def fat16ClusterToSector (p : FatPrivate) (cluster : Int) : Int :=
  int32 (p.rootDirectory.endingSectorPos + (cluster - 2) * p.header.sectorsPerCluster.toNat)

def fat16GetFirstFatSector (p : FatPrivate) : Int := p.header.reservedSectors.toNat + 1

/-- The position the entry of a cluster is read from, computed unsigned. -/
def fatEntryPos (p : FatPrivate) (cluster : Int) : Int :=
  let fatTablePosition : UInt32 := .ofInt (fat16GetFirstFatSector p * peachosSectorSize)
  int32 (fatTablePosition * .ofInt (cluster * 2)).toNat

def fat16GetFatEntry (device : BlockDevice) (p : FatPrivate) (streams : Streams) (cluster : Int) :
    Int × Streams :=
  if p.fatReadStream = 0 then (-1, streams)
  else
    let read := diskSteamerRead device (fatEntryPos p cluster) 2
    let streams := update streams p.fatReadStream read.pos
    if read.res < 0 then (read.res, streams)
    else ((read.out.getD 0 0).toNat + 256 * (read.out.getD 1 0).toNat, streams)

/-- The loop of `fat16_get_cluster_for_offset` with `left` clusters to go. -/
def advanceClusters (device : BlockDevice) (p : FatPrivate) (streams : Streams) (clusterToUse : Int) :
    (left : Nat) → Int × Streams
  | 0 => (clusterToUse, streams)
  | left + 1 =>
    let (entry, streams) := fat16GetFatEntry device p streams clusterToUse
    if entry = 0xFF8 ∨ entry = 0xFFF then (-eio, streams)
    else if entry = fat16BadSector then (-eio, streams)
    else if entry = 0xFF0 ∨ entry = 0xFFF6 then (-eio, streams)
    else if entry = 0 then (-eio, streams)
    else advanceClusters device p streams entry left

def fat16GetClusterForOffset (device : BlockDevice) (p : FatPrivate) (streams : Streams)
    (startingCluster offset : Int) : Option (Int × Streams) :=
  if p.clusterBytes = 0 then none
  else some (advanceClusters device p streams startingCluster (offset.tdiv p.clusterBytes).toNat)

theorem clusterForOffset_divides {device : BlockDevice} {p : FatPrivate} {streams : Streams}
    {start offset : Int} {r : Int × Streams}
    (run : fat16GetClusterForOffset device p streams start offset = some r) : 0 < p.clusterBytes := by
  unfold fat16GetClusterForOffset at run
  split at run
  · cases run
  · rename_i nonzero
    unfold FatPrivate.clusterBytes peachosSectorSize at *
    omega

/-- The result, the bytes written from `out` on, and the streams. -/
def fat16ReadInternalFromStream (device : BlockDevice) (p : FatPrivate) (streams : Streams)
    (stream : UInt32) (cluster offset total : Int) : Option (Int × List UInt8 × Streams) :=
  match _found : fat16GetClusterForOffset device p streams cluster offset with
  | none => none
  | some (clusterToUse, streams) =>
    if clusterToUse < 0 then some (clusterToUse, [], streams)
    else
      let offsetFromCluster := offset.tmod p.clusterBytes
      let startingSector := fat16ClusterToSector p clusterToUse
      let startingPos := int32 (startingSector * peachosSectorSize + offsetFromCluster)
      let totalToRead := if total > p.clusterBytes then p.clusterBytes else total
      let read := diskSteamerRead device startingPos totalToRead
      let streams := update streams stream read.pos
      if read.res ≠ 0 then some (read.res, read.out, streams)
      else if _more : total - totalToRead > 0 then
        match fat16ReadInternalFromStream device p streams stream cluster (int32 (offset + totalToRead))
          (total - totalToRead) with
        | none => none
        | some (res, out, streams) => some (res, read.out ++ out, streams)
      else some (read.res, read.out, streams)
termination_by total.toNat
decreasing_by
  have positive := clusterForOffset_divides _found
  have more : 0 < total - (if total > p.clusterBytes then p.clusterBytes else total) := _more
  show (total - (if total > p.clusterBytes then p.clusterBytes else total)).toNat < total.toNat
  by_cases big : total > p.clusterBytes
  · rw [if_pos big] at more ⊢
    omega
  · rw [if_neg big] at more
    omega

def fat16ReadInternal (device : BlockDevice) (p : FatPrivate) (streams : Streams)
    (startingCluster offset total : Int) : Option (Int × List UInt8 × Streams) :=
  fat16ReadInternalFromStream device p streams p.clusterReadStream startingCluster offset total

/-! ## Directory entries

An entry is the memory from its address on. Its fields lie in the first 32 bytes. -/

def sizeofFatDirectoryItem : Nat := 32

def le16 (mem : Nat → UInt8) (i : Nat) : UInt32 := (mem i).toUInt32 ||| (mem (i + 1)).toUInt32 <<< 8

def itemAttribute (item : Nat → UInt8) : UInt8 := item 11

def itemFilesize (item : Nat → UInt8) : UInt32 := le16 item 28 ||| le16 item 30 <<< 16

def fat16GetFirstCluster (item : Nat → UInt8) : UInt32 := le16 item 20 <<< 16 ||| le16 item 26

/-- `fat16_to_proper_string` from byte `i` on, with `room` bytes left in the
buffer: the bytes it appends. The NUL after them is there already. -/
def fat16ToProperString (mem : Nat → UInt8) : (room i : Nat) → Option (List UInt8)
  | 0, i => if mem i = 0 then some [] else none
  | room + 1, i =>
    if mem i ≠ 0 ∧ mem i ≠ 0x20 then (fat16ToProperString mem room (i + 1)).map (mem i :: ·)
    else some []

/-- The bytes in the cleared buffer of `max_len` bytes before its NULs. -/
def fat16GetFullFilenameWithExtension (item : Nat → UInt8) (maxLen : Nat) : Option (List UInt8) :=
  match fat16ToProperString item maxLen 0 with
  | none => none
  | some base =>
    if item 8 ≠ 0 ∧ item 8 ≠ 0x20 then
      if base.length < maxLen then
        (fat16ToProperString item (maxLen - (base.length + 1)) 8).map fun ext => base ++ 0x2E :: ext
      else none
    else some base

/-- A `char` is signed, and the negative ones are no letters. -/
def toLower (s : UInt8) : UInt8 := if 65 ≤ s ∧ s ≤ 90 then s + 32 else s

/-- The loop of `istrncmp` at byte `i` with `n` bytes to go. -/
def istrncmpFrom (s1 s2 : Nat → UInt8) : (n i : Nat) → Int
  | 0, _ => 0
  | n + 1, i =>
    if s1 i ≠ s2 i ∧ toLower (s1 i) ≠ toLower (s2 i) then (s1 i).toNat - (s2 i).toNat
    else if s1 i = 0 then 0
    else istrncmpFrom s1 s2 n (i + 1)

def istrncmp (s1 s2 : Nat → UInt8) (n : Nat) : Int := istrncmpFrom s1 s2 n 0

/-- The loop of `fat16_get_total_items_for_directory` from a stream position on:
the result and the position after it. It ends at an entry that begins with 0. -/
def BlockDevice.totalItemsFrom (device : BlockDevice) (pos total : Int) : Option (Int × Int) :=
  let read := diskSteamerRead device pos sizeofFatDirectoryItem
  if read.res ≠ 0 then some (-eio, read.pos)
  else if read.out.getD 0 0 = 0xE5 then device |>.totalItemsFrom read.pos total
  else if read.out.getD 0 0 = 0 then some (total, read.pos)
  else device |>.totalItemsFrom read.pos (total + 1)
partial_fixpoint

def fat16GetTotalItemsForDirectory (device : BlockDevice) (p : FatPrivate) (streams : Streams)
    (directoryStartSector : Int) : Option (Int × Streams) :=
  (device.totalItemsFrom (fat16SectorToAbsolute directoryStartSector) 0).map fun (res, pos) =>
    (res, update streams p.directoryStream pos)

end PeachOs
