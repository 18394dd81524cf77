import PeachOs.FatItems
import PeachOs.ClusterRead
import PeachOs.Lib.Address

/-!
# Where the FAT is

`fat16_get_first_fat_sector` and the root directory's start disagree by a sector,
and the position of an entry is a product where the layout has a sum.
-/

namespace PeachOs

/-- The entry of cluster `c` in the first FAT, which begins after the reserved sectors. -/
def recordedEntry (disk : Nat → UInt8) (p : FatPrivate) (c : Nat) : Nat :=
  let pos := p.header.reservedSectors.toNat * 512 + 2 * c
  (disk pos).toNat + 256 * (disk (pos + 1)).toNat

/-- The entry of `c` lies in the first FAT. -/
def InFirstFat (p : FatPrivate) (c : Nat) : Prop := 2 * c + 2 ≤ p.header.sectorsPerFat.toNat * 512

/-- A chain of data clusters as the first FAT records it. -/
inductive Recorded (disk : Nat → UInt8) (p : FatPrivate) : Nat → List Nat → Prop
  | last {c : Nat} (data : 2 ≤ c) : Recorded disk p c []
  | next {c d : Nat} {rest : List Nat} (data : 2 ≤ c) (inside : InFirstFat p c)
      (entry : recordedEntry disk p c = d) (tail : Recorded disk p d rest) : Recorded disk p c (d :: rest)

/-- The FAT is read where the layout puts it. -/
structure FatRead (device : BlockDevice) (disk : Nat → UInt8) (p : FatPrivate) : Prop where
  entry : ∀ c, InFirstFat p c → ∀ streams,
    (fat16GetFatEntry device p streams c).1 = (recordedEntry disk p c : Int)
  walk : ∀ c rest, Recorded disk p c rest → ∀ (k offset : Nat) (_ : k ≤ rest.length) (_ : offset < 2 ^ 31),
    offset / p.clusterSize = k → ∀ streams, ∃ streams', fat16GetClusterForOffset device p streams c offset =
      some ((((c :: rest).getD k 0 : Nat) : Int), streams')
  layout : fat16GetFirstFatSector p + p.header.fatCopies.toNat * p.header.sectorsPerFat.toNat =
    rootDirSectorPos p.header

variable {device : BlockDevice} {disk : Nat → UInt8} {p : FatPrivate}

/-- The FAT's start is one sector too late for the root directory's. -/
theorem firstFatSector_late (p : FatPrivate) :
    fat16GetFirstFatSector p + p.header.fatCopies.toNat * p.header.sectorsPerFat.toNat =
      rootDirSectorPos p.header + 1 := by
  unfold fat16GetFirstFatSector rootDirSectorPos
  omega

/-- The position is a product: of the FAT's start and of the entry's offset in it. -/
theorem fatEntryPos_product (p : FatPrivate) (c : Nat)
    (small : (p.header.reservedSectors.toNat + 1) * 512 * (2 * c) < 2 ^ 31) :
    fatEntryPos p c = ((p.header.reservedSectors.toNat + 1) * 512 * (2 * c) : Nat) := by
  have reserved := UInt16.toNat_lt p.header.reservedSectors
  generalize hr : p.header.reservedSectors.toNat = r at *
  have start : fat16GetFirstFatSector p * peachosSectorSize = (((r + 1) * 512 : Nat) : Int) := by
    unfold fat16GetFirstFatSector peachosSectorSize
    rw [hr]
    push_cast
    rfl
  have entry : (c : Int) * 2 = ((2 * c : Nat) : Int) := by
    push_cast
    exact Int.mul_comm _ _
  have within : 2 * c ≤ (r + 1) * 512 * (2 * c) := Nat.le_mul_of_pos_left _ (by omega)
  have place : ((UInt32.ofInt (((r + 1) * 512 : Nat) : Int)) * .ofInt ((2 * c : Nat) : Int)).toNat =
      (r + 1) * 512 * (2 * c) := by
    rw [UInt32.toNat_mul, Address.ofInt_natCast, Address.ofInt_natCast, UInt32.toNat_ofNat', UInt32.toNat_ofNat',
      ← Nat.mul_mod, Nat.mod_eq_of_lt]
    omega
  unfold fatEntryPos
  dsimp only
  rw [start, entry, place]
  exact int32_of_range (by omega) (by omega)

/-- A 16-bit number determines its two bytes. -/
theorem le16_bytes {a b a' b' : UInt8}
    (same : a.toNat + 256 * b.toNat = a'.toNat + 256 * b'.toNat) : a = a' ∧ b = b' := by
  have low := UInt8.toNat_lt a
  have low' := UInt8.toNat_lt a'
  constructor
  · apply UInt8.toNat_inj.mp
    omega
  · apply UInt8.toNat_inj.mp
    omega

/-- The numbers at two places agree exactly where the two bytes do. -/
theorem le16_eq_iff (disk : Nat → UInt8) (x y : Nat) :
    (disk x).toNat + 256 * (disk (x + 1)).toNat = (disk y).toNat + 256 * (disk (y + 1)).toNat ↔
      ∀ i < 2, disk (x + i) = disk (y + i) := by
  constructor
  · intro same i hi
    obtain ⟨first, second⟩ := le16_bytes same
    cases Nat.le_one_iff_eq_zero_or_eq_one.mp (Nat.le_of_lt_succ hi) with
    | inl zero => simpa [zero] using first
    | inr one => simpa [one] using second
  · intro same
    have first := same 0 (by decide)
    have second := same 1 (by decide)
    simp only [Nat.add_zero] at first
    rw [first, second]

/-- **The FAT is never read where the layout puts it.** Its start does not agree
with the root directory's on any volume, and an entry is read right only where
the disk has the same two bytes at the product as at the sum. -/
theorem fatRead_never (delivers : Delivers device disk) (streamed : p.fatReadStream ≠ 0) :
    ¬ FatRead device disk p ∧
    ∀ c, (p.header.reservedSectors.toNat + 1) * 512 * (2 * c) + 2 < 2 ^ 31 → ∀ streams,
      ((fat16GetFatEntry device p streams c).1 = (recordedEntry disk p c : Int) ↔
        ∀ i < 2, disk ((p.header.reservedSectors.toNat + 1) * 512 * (2 * c) + i) =
          disk (p.header.reservedSectors.toNat * 512 + 2 * c + i)) := by
  constructor
  · intro read
    have late := firstFatSector_late p
    rw [read.layout] at late
    omega
  · intro c fits streams
    rw [getFatEntry_delivers delivers streamed streams (fatEntryPos_product p c (by omega)) fits]
    exact Int.ofNat_inj.trans (le16_eq_iff disk _ _)

/-- Cluster 2 is followed by cluster 3, which is the file's last. -/
def twoClusters (x : Nat) : UInt8 := if x = 516 then 3 else if x = 518 ∨ x = 519 then 0xFF else 0

theorem twoClusters_recorded : Recorded twoClusters splitVolume 2 [3] :=
  .next (by decide) (by unfold InFirstFat; decide) (by decide) (.last (by decide))

theorem twoClusters_entry (streams : Streams) :
    (fat16GetFatEntry (deviceOf twoClusters) splitVolume streams 2).1 = 0 := by
  have read := getFatEntry_delivers (deviceOf_delivers twoClusters) (p := splitVolume) (by decide) streams
    (show fatEntryPos splitVolume 2 = (4096 : Nat) by decide) (by decide)
  rw [read]
  decide

theorem twoClusters_never : ¬ FatRead (deviceOf twoClusters) twoClusters splitVolume ∧
    ∀ c, (splitVolume.header.reservedSectors.toNat + 1) * 512 * (2 * c) + 2 < 2 ^ 31 → ∀ streams,
      ((fat16GetFatEntry (deviceOf twoClusters) splitVolume streams c).1 =
          (recordedEntry twoClusters splitVolume c : Int) ↔
        ∀ i < 2, twoClusters ((splitVolume.header.reservedSectors.toNat + 1) * 512 * (2 * c) + i) =
          twoClusters (splitVolume.header.reservedSectors.toNat * 512 + 2 * c + i)) :=
  fatRead_never (deviceOf_delivers twoClusters) (by decide)

/-- The second cluster of the file is not found. -/
theorem second_cluster_lost :
    Recorded twoClusters splitVolume 2 [3] ∧ InFirstFat splitVolume 2 ∧
    recordedEntry twoClusters splitVolume 2 = 3 ∧
    (∀ streams, (fat16GetFatEntry (deviceOf twoClusters) splitVolume streams 2).1 = 0) ∧
    (∀ streams, ∃ streams', fat16GetClusterForOffset (deviceOf twoClusters) splitVolume streams 2 512 =
      some (-eio, streams')) ∧
    ¬ FatRead (deviceOf twoClusters) twoClusters splitVolume := by
  have inside : InFirstFat splitVolume 2 := by unfold InFirstFat; decide
  refine ⟨twoClusters_recorded, inside, by decide, twoClusters_entry, fun streams => ?_, fun read => ?_⟩
  · have entry := twoClusters_entry streams
    have one : ((512 : Int).tdiv splitVolume.clusterBytes).toNat = 1 := by decide
    unfold fat16GetClusterForOffset
    rw [if_neg (by decide), one, advanceClusters]
    rcases h : fat16GetFatEntry (deviceOf twoClusters) splitVolume streams 2 with ⟨e, s⟩
    rw [h] at entry
    have zero : e = 0 := entry
    subst zero
    exact ⟨s, rfl⟩
  · have entry := read.entry 2 inside fun _ => 0
    exact absurd ((twoClusters_entry _).symm.trans entry) (by decide)

end PeachOs
