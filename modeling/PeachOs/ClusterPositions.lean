import PeachOs.FatMount

/-!
# Positions on a large volume

The byte position of a cluster is computed in a signed `int`, which ends in the
middle of the volumes that sector numbers can address.
-/

namespace PeachOs

/-- A volume of at most 2^32 bytes, with the private data of a mounted one. -/
structure FatVolume where
  p : FatPrivate
  sectors : Nat
  ending : p.rootDirectory.endingSectorPos = rootDirEnd p.header
  small : 512 * sectors ≤ 2 ^ 32

/-- `starting_pos` of `fat16_read_internal_from_stream`, for a cluster and an offset in it. -/
def FatPrivate.startingPos (p : FatPrivate) (clusterToUse offsetFromCluster : Int) : Int :=
  int32 (fat16ClusterToSector p clusterToUse * peachosSectorSize + offsetFromCluster)

namespace FatVolume

/-- The first sector of the data. -/
def dataStart (v : FatVolume) : Nat :=
  v.p.header.fatCopies.toNat * v.p.header.sectorsPerFat.toNat + v.p.header.reservedSectors.toNat +
    (v.p.header.roodDirEntries.toNat * 32 + 511) / 512

/-- Where byte `offset` of data cluster `c` is on the disk. -/
def bytePos (v : FatVolume) (c offset : Nat) : Nat :=
  (v.dataStart + (c - 2) * v.p.header.sectorsPerCluster.toNat) * 512 + offset

/-- The sectors of data cluster `c` are sectors of the volume. -/
def Inside (v : FatVolume) (c : Nat) : Prop :=
  2 ≤ c ∧ v.dataStart + (c - 2) * v.p.header.sectorsPerCluster.toNat + v.p.header.sectorsPerCluster.toNat ≤ v.sectors

/-- The position is the exact one, and reads start in the sector it is in. -/
structure StartsRight (v : FatVolume) (c offset : Nat) : Prop where
  exact : v.p.startingPos c offset = v.bytePos c offset
  sector : ∀ device total, (diskSteamerRead device (v.p.startingPos c offset) total).requests.head? =
    some ((v.bytePos c offset / 512 : Nat) : Int)

end FatVolume

/-- A read asks for the sector of its position first. -/
theorem diskSteamerRead_first (device : BlockDevice) (pos total : Int) :
    (diskSteamerRead device pos total).requests.head? = some (pos.tdiv peachosSectorSize) := by
  rw [diskSteamerRead]
  dsimp only
  split
  · rfl
  · split <;> rfl

/-- The chunk of a read is taken from `startingPos` on. -/
theorem readInternal_startingPos {device : BlockDevice} {p : FatPrivate} {streams s : Streams}
    {cluster offset c total : Int} (stream : UInt32) (found : fat16GetClusterForOffset device p streams cluster offset = some (c, s))
    (there : 0 ≤ c) (one : total ≤ p.clusterBytes) :
    fat16ReadInternalFromStream device p streams stream cluster offset total =
      some ((diskSteamerRead device (p.startingPos c (offset.tmod p.clusterBytes)) total).res,
        (diskSteamerRead device (p.startingPos c (offset.tmod p.clusterBytes)) total).out,
        Function.update s stream (diskSteamerRead device (p.startingPos c (offset.tmod p.clusterBytes)) total).pos) := by
  rw [readInternal_chunk stream total found, if_neg (Int.not_lt.mpr there), if_neg (Int.not_lt.mpr one)]
  dsimp only
  rw [Int.sub_self, if_neg (Int.lt_irrefl 0)]
  split <;> rfl

namespace FatVolume

variable (v : FatVolume) {c : Nat}

theorem clusterPos_eq (data : 2 ≤ c) (offset : Nat) : v.p.clusterPos c + offset = v.bytePos c offset := by
  have first : (c : Int) - 2 = ((c - 2 : Nat) : Int) := by omega
  have sector : peachosSectorSize = 512 := rfl
  unfold FatPrivate.clusterPos bytePos dataStart
  rw [v.ending, rootDirEnd, rootDirSectorPos, first, sector]
  push_cast
  rfl

/-- **The position of a byte** of a data cluster is right exactly when it is below 2^31. -/
theorem startsRight_iff (inside : v.Inside c) (offset : Nat) :
    v.StartsRight c offset ↔ v.bytePos c offset < 2 ^ 31 := by
  have place := v.clusterPos_eq inside.1 offset
  constructor
  · intro right
    have range := Int.bmod_lt (x := fat16ClusterToSector v.p c * peachosSectorSize + offset) (m := 2 ^ 32) (by decide)
    have same := right.exact
    unfold FatPrivate.startingPos int32 at same
    rw [same] at range
    omega
  · intro low
    have exact : v.p.startingPos c offset = v.bytePos c offset := by
      have start := startingPos_eq v.p c offset (by omega) (by omega)
      rwa [place] at start
    constructor
    · exact exact
    · intro device total
      rw [diskSteamerRead_first, exact]
      rfl

end FatVolume

/-- The volume the boot sector declares. -/
def bootVolume : FatVolume where
  p := { FatPrivate.zero with
    header := ⟨0x80, 200, 2, 0x40, 0x100⟩
    rootDirectory := ⟨0, 0, 712, 716⟩ }
  sectors := 0x773594
  ending := by decide
  small := by decide

theorem bootVolume_first : bootVolume.StartsRight 2 0 ↔ bootVolume.bytePos 2 0 < 2 ^ 31 :=
  bootVolume.startsRight_iff (by unfold FatVolume.Inside; decide) 0

/-- More than 2 GiB into the declared volume the position is negative. -/
theorem bootVolume_overflow :
    bootVolume.Inside 32765 ∧ bootVolume.p.startingPos 32765 0 < 0 ∧ ¬ bootVolume.StartsRight 32765 0 := by
  refine ⟨by unfold FatVolume.Inside; decide, by decide, fun right => ?_⟩
  exact absurd right.exact (by decide)

end PeachOs
