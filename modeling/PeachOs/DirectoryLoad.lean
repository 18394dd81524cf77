import PeachOs.ClusterPositions
import PeachOs.FatLayout

/-!
# Loading a subdirectory

The entries are counted over the sectors that follow the first cluster's, and
then read through the chain.
-/

namespace PeachOs

/-- Byte `j` of the clusters one after the other. -/
def chainByte (disk : Nat → UInt8) (p : FatPrivate) (clusters : List Nat) (j : Nat) : UInt8 :=
  disk ((p.clusterPos (clusters.getD (j / p.clusterSize) 0)).toNat + j % p.clusterSize)

/-- The first cluster as `fat16_load_fat_directory` uses it. -/
def loadCluster (entry : Nat → UInt8) : Int := int32 (fat16GetFirstCluster entry).toNat

/-- Where the count starts: at the first sector of the first cluster. -/
def loadPos (p : FatPrivate) (entry : Nat → UInt8) : Int :=
  fat16SectorToAbsolute (fat16ClusterToSector p (loadCluster entry))

/-- `entry` is that of a subdirectory with `total` entries, none of them deleted,
and an end mark, on the clusters the first FAT records. Reads from its start
deliver the bytes of these clusters. -/
structure Subdirectory (device : BlockDevice) (disk : Nat → UInt8) (p : FatPrivate) (entry : Nat → UInt8)
    (clusters : List Nat) (total : Nat) : Prop where
  delivers : Delivers device disk
  marked : itemAttribute entry = fatFileSubdirectory
  recorded : ∃ rest, clusters = (fat16GetFirstCluster entry).toNat :: rest ∧
    Recorded disk p (fat16GetFirstCluster entry).toNat rest
  short : clusters.length ≤ 2 ^ 16
  small : p.header.sectorsPerCluster.toNat ≤ 128
  live : ∀ i < total, chainByte disk p clusters (32 * i) ≠ 0 ∧ chainByte disk p clusters (32 * i) ≠ 0xE5
  last : chainByte disk p clusters (32 * total) = 0
  fits : 32 * (total + 1) ≤ clusters.length * p.clusterSize
  reads : ∀ streams (n : Nat), n ≤ 32 * total → n < 2 ^ 31 → ∃ streams',
    fat16ReadInternal device p streams (loadCluster entry) 0 n =
      some (0, (List.range n).map (chainByte disk p clusters), streams')

section

variable {H : Type} (A : Allocator H) (device : BlockDevice) (s : Fs H) (array : UInt32) (i : Nat)

/-- A directory is returned with the entries of `content` up to number `total`. -/
def LoadRight (content : Nat → UInt8) (total : Nat) : Prop :=
  ∃ d s', fat16LoadFatDirectory A device s array i = some (d, s') ∧ d ≠ 0 ∧
    (s'.directories d).total = total ∧
    ∀ j < 32 * total, (s'.directories d).item ≠ 0 ∧ s'.items (s'.directories d).item j = content j

/-- The heap gives a block for the directory, and one for `bytes` of entries. -/
def directoryHeap : UInt32 × H := A.malloc s.heap sizeofFatDirectory

def entriesBlock (bytes : UInt32) : UInt32 := (A.malloc (directoryHeap A s).2 bytes).1

/-- The sectors from the first cluster on begin with entries of which `total` are
live, and an end mark. -/
def LinearTotal (p : FatPrivate) (entry : Nat → UInt8) (total : Nat) : Prop :=
  ∃ n, EndsAt device (loadPos p entry) n ∧ liveEntries device (loadPos p entry) n = total

end

section

variable {H : Type} {A : Allocator H} {device : BlockDevice} {s : Fs H} {array : UInt32} {i : Nat}

theorem loadFatDirectory_null (device : BlockDevice) (array : UInt32) (i : Nat) (null : (directoryHeap A s).1 = 0) :
    ∃ s', fat16LoadFatDirectory A device s array i = some (0, s') := by
  unfold fat16LoadFatDirectory
  split
  · exact ⟨_, rfl⟩
  · have none : (s.kZalloc A sizeofFatDirectory).1 = 0 := null
    dsimp only
    rw [if_pos none]
    exact ⟨_, rfl⟩

theorem loadFatDirectory_uncounted (marked : itemAttribute (s.entry array i) = fatFileSubdirectory)
    (nonnull : (directoryHeap A s).1 ≠ 0)
    (missing : device.totalItemsFrom (loadPos s.private (s.entry array i)) 0 = none) :
    fat16LoadFatDirectory A device s array i = none := by
  have some : (s.kZalloc A sizeofFatDirectory).1 ≠ 0 := nonnull
  have count : fat16GetTotalItemsForDirectory device (s.kZalloc A sizeofFatDirectory).2.private
      (s.kZalloc A sizeofFatDirectory).2.streams
      (fat16ClusterToSector (s.kZalloc A sizeofFatDirectory).2.private (loadCluster (s.entry array i))) = none :=
    Option.map_eq_none_iff.mpr missing
  unfold loadCluster at count
  unfold fat16LoadFatDirectory
  rw [if_neg (not_not.mpr marked)]
  dsimp only
  rw [if_neg some, count]

/-- With a count the rest depends on the block for the entries and on the read. -/
theorem loadFatDirectory_counted (marked : itemAttribute (s.entry array i) = fatFileSubdirectory)
    (nonnull : (directoryHeap A s).1 ≠ 0) {total after : Int}
    (counted : device.totalItemsFrom (loadPos s.private (s.entry array i)) 0 = some (total, after)) :
    let size := int32 (total * sizeofFatDirectoryItem)
    let item := entriesBlock A s (.ofInt size)
    (item = 0 → ∃ s', fat16LoadFatDirectory A device s array i = some ((directoryHeap A s).1, s') ∧
      s'.directories (directoryHeap A s).1 = ⟨0, total, 0, 0⟩) ∧
    (item ≠ 0 → ∃ streams,
      match fat16ReadInternal device s.private streams (loadCluster (s.entry array i)) 0 size with
      | none => fat16LoadFatDirectory A device s array i = none
      | some (_, out, _) => ∃ s', fat16LoadFatDirectory A device s array i = some ((directoryHeap A s).1, s') ∧
        s'.directories (directoryHeap A s).1 = ⟨item, total, 0, 0⟩ ∧
        s'.items item = written out (cleared (UInt32.ofInt size).toNat (s.items item))) := by
  have some' : (s.kZalloc A sizeofFatDirectory).1 ≠ 0 := nonnull
  have count : fat16GetTotalItemsForDirectory device (s.kZalloc A sizeofFatDirectory).2.private
      (s.kZalloc A sizeofFatDirectory).2.streams
      (fat16ClusterToSector (s.kZalloc A sizeofFatDirectory).2.private (loadCluster (s.entry array i))) =
        some (total, Function.update s.streams s.private.directoryStream after) := by
    unfold loadPos at counted
    show Option.map _ (device.totalItemsFrom
      (fat16SectorToAbsolute (fat16ClusterToSector s.private (loadCluster (s.entry array i)))) 0) = _
    rw [counted]
    rfl
  unfold loadCluster at count
  unfold fat16LoadFatDirectory
  rw [if_neg (not_not.mpr marked)]
  dsimp only
  rw [if_neg some', count]
  dsimp only
  constructor
  · intro null
    rw [newItems_null null]
    exact ⟨_, rfl, Function.update_self ..⟩
  · intro entries
    have here : (A.malloc (s.kZalloc A sizeofFatDirectory).2.heap
        (.ofInt (int32 (total * sizeofFatDirectoryItem)))).1 ≠ 0 := entries
    rw [newItems_some entries]
    dsimp only
    rw [if_neg here]
    refine ⟨Function.update s.streams s.private.directoryStream after, ?_⟩
    cases read : fat16ReadInternal device s.private (Function.update s.streams s.private.directoryStream after)
        (loadCluster (s.entry array i)) 0 (int32 (total * sizeofFatDirectoryItem)) with
    | none =>
      dsimp only
      split
      · rfl
      · rename_i again
        cases read.symm.trans again
    | some result =>
      dsimp only
      split
      · rename_i again
        cases read.symm.trans again
      · rename_i again
        cases read.symm.trans again
        exact ⟨_, rfl, Function.update_self ..,
          (Function.update_self ..).trans (congrArg (written _) (Function.update_self ..))⟩

/-- A directory that is returned has the count as its total. -/
theorem loadFatDirectory_total (marked : itemAttribute (s.entry array i) = fatFileSubdirectory) {d : UInt32}
    {s' : Fs H} (run : fat16LoadFatDirectory A device s array i = some (d, s')) (nonnull : d ≠ 0) :
    (directoryHeap A s).1 ≠ 0 ∧ ∃ after, device.totalItemsFrom (loadPos s.private (s.entry array i)) 0 =
      some ((s'.directories d).total, after) := by
  have made : (directoryHeap A s).1 ≠ 0 := by
    intro null
    obtain ⟨t, none⟩ := loadFatDirectory_null device array i null
    rw [none] at run
    cases run
    exact nonnull rfl
  refine ⟨made, ?_⟩
  cases counted : device.totalItemsFrom (loadPos s.private (s.entry array i)) 0 with
  | none =>
    rw [loadFatDirectory_uncounted marked made counted] at run
    cases run
  | some result =>
    obtain ⟨total, after⟩ := result
    refine ⟨after, ?_⟩
    obtain ⟨null, some'⟩ := loadFatDirectory_counted marked made counted
    by_cases item : entriesBlock A s (.ofInt (int32 (total * sizeofFatDirectoryItem))) = 0
    · obtain ⟨t, load, directory⟩ := null item
      rw [load] at run
      cases run
      rw [directory]
    · obtain ⟨streams, read⟩ := some' item
      split at read
      · rw [read] at run
        cases run
      · obtain ⟨t, load, directory, _⟩ := read
        rw [load] at run
        cases run
        rw [directory]

theorem Subdirectory.bound {p : FatPrivate} {entry : Nat → UInt8} {disk : Nat → UInt8} {clusters : List Nat}
    {total : Nat} (sub : Subdirectory device disk p entry clusters total) : 32 * total < 2 ^ 32 := by
  have size : p.clusterSize ≤ 2 ^ 16 := by
    have small := sub.small
    unfold FatPrivate.clusterSize
    omega
  have most := Nat.mul_le_mul sub.short size
  have fits := sub.fits
  omega

theorem directorySize_eq (total : Nat) : (total * sizeofFatDirectoryItem : Int) = ((32 * total : Nat) : Int) := by
  rw [Nat.mul_comm]
  rfl

/-- The size of the array is that of the entries, as an unsigned number. -/
theorem directorySize_bits (total : Nat) :
    UInt32.ofInt (int32 (total * sizeofFatDirectoryItem)) = .ofNat (32 * total) := by
  rw [directorySize_eq, ofInt_int32, Address.ofInt_natCast]

/-- **A subdirectory is loaded right** exactly when there is memory for it and the
sectors behind its first cluster's hold as many entries as its chain. -/
theorem loadFatDirectory_right_iff {disk : Nat → UInt8} {clusters : List Nat} {total : Nat}
    (sub : Subdirectory device disk s.private (s.entry array i) clusters total) :
    LoadRight A device s array i (chainByte disk s.private clusters) total ↔
      (directoryHeap A s).1 ≠ 0 ∧ LinearTotal device s.private (s.entry array i) total ∧
        (total = 0 ∨ (entriesBlock A s (.ofNat (32 * total)) ≠ 0 ∧ 32 * total < 2 ^ 31)) := by
  have bound := sub.bound
  have bits := directorySize_bits total
  constructor
  · rintro ⟨d, s', run, nonnull, same, items⟩
    obtain ⟨made, after, counted⟩ := loadFatDirectory_total sub.marked run nonnull
    rw [same] at counted
    refine ⟨made, ?_, ?_⟩
    · rcases totalItems_result counted with ⟨n, ends⟩ | ⟨failed, _⟩
      · refine ⟨n, ends, ?_⟩
        rw [totalItems_ends ends] at counted
        injection counted with counted
        injection counted with live
        omega
      · change (total : Int) = -eio at failed
        unfold eio at failed
        omega
    · by_cases none : total = 0
      · exact Or.inl none
      · right
        obtain ⟨null, some'⟩ := loadFatDirectory_counted sub.marked made counted
        rw [bits] at null some'
        have first := items 0 (by omega)
        by_cases item : entriesBlock A s (.ofNat (32 * total)) = 0
        · obtain ⟨t, load, directory⟩ := null item
          rw [load] at run
          cases run
          rw [directory] at first
          exact absurd rfl first.1
        · refine ⟨item, ?_⟩
          by_contra large
          obtain ⟨streams, read⟩ := some' item
          split at read
          · rw [read] at run
            cases run
          · rename_i res out after' delivered
            obtain ⟨t, load, directory, bytes⟩ := read
            rw [load] at run
            cases run
            -- a size above 2^31 is negative as an `int`, and nothing is read
            have negative : int32 (total * sizeofFatDirectoryItem) ≤ 0 := by
              rw [directorySize_eq, int32, Int.bmod_def]
              omega
            have empty := readInternal_empty negative delivered
            have length : (UInt32.ofNat (32 * total)).toNat = 32 * total := by
              rw [UInt32.toNat_ofNat']
              omega
            rw [directory] at first
            have zero := first.2
            dsimp only at zero
            rw [bytes, empty, length] at zero
            have cleared' : written [] (cleared (32 * total) (s.items (entriesBlock A s (.ofNat (32 * total))))) 0 = 0 := by
              simp [written, cleared, Nat.pos_of_ne_zero none]
            exact (sub.live 0 (Nat.pos_of_ne_zero none)).1 (zero.symm.trans cleared')
  · rintro ⟨made, ⟨n, ends, live⟩, room⟩
    have counted := totalItems_ends ends 0
    rw [live, Int.zero_add] at counted
    obtain ⟨null, some'⟩ := loadFatDirectory_counted sub.marked made counted
    rw [bits] at null some'
    by_cases item : entriesBlock A s (.ofNat (32 * total)) = 0
    · obtain rfl : total = 0 := by
        by_contra some
        exact (room.resolve_left some).1 item
      obtain ⟨t, load, directory⟩ := null item
      refine ⟨_, t, load, made, by rw [directory], ?_⟩
      intro j hj
      exact absurd hj (Nat.not_lt_zero j)
    · have low : 32 * total < 2 ^ 31 := by
        rcases room with none | ⟨_, low⟩ <;> omega
      obtain ⟨streams, read⟩ := some' item
      have size : int32 (total * sizeofFatDirectoryItem) = ((32 * total : Nat) : Int) := by
        rw [directorySize_eq]
        exact int32_of_range (by omega) (by omega)
      obtain ⟨streams', delivered⟩ := sub.reads streams (32 * total) (Nat.le_refl _) low
      rw [size, delivered] at read
      obtain ⟨t, load, directory, bytes⟩ := read
      refine ⟨_, t, load, made, by rw [directory], ?_⟩
      intro j hj
      rw [directory]
      refine ⟨item, ?_⟩
      dsimp only
      rw [bytes]
      simp [written, hj]

end

/-! ## A directory in two clusters -/

/-- The small volume, and an array with the entry of a subdirectory at cluster 2. -/
def directoryFs : Fs Heap :=
  { bootFs with
    privates := fun _ => splitVolume
    items := fun _ j => if j = 11 then 0x10 else if j = 26 then 2 else 0 }

theorem directoryFs_entry : itemAttribute (directoryFs.entry 0 0) = fatFileSubdirectory ∧
    (fat16GetFirstCluster (directoryFs.entry 0 0)).toNat = 2 := by
  constructor <;> decide

theorem directoryFs_pos : loadCluster (directoryFs.entry 0 0) = 2 ∧
    loadPos splitVolume (directoryFs.entry 0 0) = (8192 : Nat) := by
  have cluster : loadCluster (directoryFs.entry 0 0) = 2 := by
    rw [loadCluster, directoryFs_entry.2]
    decide
  refine ⟨cluster, ?_⟩
  rw [loadPos, cluster]
  decide

theorem splitVolume_chainByte (disk : Nat → UInt8) (rest : List Nat) {j : Nat} (first : j < 512) :
    chainByte disk splitVolume (2 :: rest) j = disk (8192 + j) := by
  have index : j / splitVolume.clusterSize = 0 := by
    rw [splitVolume_size]
    omega
  have within : j % splitVolume.clusterSize = j := by
    rw [splitVolume_size]
    omega
  have start : splitVolume.clusterPos ((2 :: rest).getD 0 0 : Nat) = 8192 := splitVolume_pos.1
  rw [chainByte, index, within, start, show (8192 : Int).toNat = 8192 from rfl]

/-- Reads inside the first cluster need no FAT. -/
theorem splitVolume_reads (disk : Nat → UInt8) (rest : List Nat) (streams : Streams) {n : Nat} (one : n ≤ 512) :
    ∃ streams', fat16ReadInternal (deviceOf disk) splitVolume streams 2 0 n =
      some (0, (List.range n).map (chainByte disk splitVolume (2 :: rest)), streams') := by
  have found : fat16GetClusterForOffset (deviceOf disk) splitVolume streams 2 0 = some (2, streams) := by
    unfold fat16GetClusterForOffset
    rw [if_neg (by decide)]
    rfl
  have bytes : splitVolume.clusterBytes = 512 := by decide
  have start : splitVolume.startingPos 2 (Int.tmod 0 splitVolume.clusterBytes) = (8192 : Nat) := by decide
  have read := readInternal_startingPos splitVolume.clusterReadStream found (by decide)
    (show (n : Int) ≤ splitVolume.clusterBytes by omega)
  obtain ⟨res, out, _⟩ := diskSteamerRead_delivers (deviceOf_delivers disk) 8192 n (by omega)
  rw [start, res, out] at read
  have same : diskBytes disk 8192 n = (List.range n).map (chainByte disk splitVolume (2 :: rest)) := by
    apply List.map_congr_left
    intro j mem
    have inside := List.mem_range.mp mem
    rw [splitVolume_chainByte disk rest (by omega)]
  rw [same] at read
  exact ⟨_, read⟩

theorem splitVolume_subdirectory (disk : Nat → UInt8) {rest : List Nat} (recorded : Recorded disk splitVolume 2 rest)
    (short : rest.length < 2 ^ 16) {total : Nat} (small : total ≤ 16)
    (live : ∀ i < total, disk (8192 + 32 * i) = 0x41) (last : chainByte disk splitVolume (2 :: rest) (32 * total) = 0)
    (fits : 32 * (total + 1) ≤ (rest.length + 1) * 512) :
    Subdirectory (deviceOf disk) disk splitVolume (directoryFs.entry 0 0) (2 :: rest) total := by
  constructor
  · exact deviceOf_delivers disk
  · exact directoryFs_entry.1
  · rw [directoryFs_entry.2]
    exact ⟨rest, rfl, recorded⟩
  · exact short
  · decide
  · intro i hi
    rw [splitVolume_chainByte disk rest (by omega), live i hi]
    decide
  · exact last
  · exact fits
  · intro streams n hn _
    rw [directoryFs_pos.1]
    exact splitVolume_reads disk rest streams (by omega)

/-- A directory of one entry in cluster 2. -/
def entryDisk (x : Nat) : UInt8 := if x = 8192 then 0x41 else 0

theorem entryDisk_loaded :
    LoadRight kernelAllocator (deviceOf entryDisk) directoryFs 0 0 (chainByte entryDisk splitVolume [2]) 1 ↔
      (directoryHeap kernelAllocator directoryFs).1 ≠ 0 ∧
        LinearTotal (deviceOf entryDisk) splitVolume (directoryFs.entry 0 0) 1 ∧
        (1 = 0 ∨ (entriesBlock kernelAllocator directoryFs (.ofNat (32 * 1)) ≠ 0 ∧ 32 * 1 < 2 ^ 31)) := by
  have sub : Subdirectory (deviceOf entryDisk) entryDisk splitVolume (directoryFs.entry 0 0) [2] 1 := by
    apply splitVolume_subdirectory entryDisk (.last (by decide)) (by decide) (by decide)
    · intro i hi
      obtain rfl := Nat.lt_one_iff.mp hi
      rfl
    · rw [splitVolume_chainByte entryDisk [] (by decide)]
      rfl
    · decide
  exact loadFatDirectory_right_iff sub

/-- Cluster 2 is full of entries, its chain goes on with cluster 4, which is empty,
and cluster 3 is some other file's. -/
def apartDisk (x : Nat) : UInt8 :=
  if x = 516 then 4 else if 8192 ≤ x ∧ x < 8736 then 0x41 else 0

theorem apartDisk_subdirectory :
    Subdirectory (deviceOf apartDisk) apartDisk splitVolume (directoryFs.entry 0 0) [2, 4] 16 := by
  have recorded : Recorded apartDisk splitVolume 2 [4] :=
    .next (by decide) (by unfold InFirstFat; decide) (by decide) (.last (by decide))
  apply splitVolume_subdirectory apartDisk recorded (by decide) (Nat.le_refl 16)
  · intro i hi
    have inside : 8192 ≤ 8192 + 32 * i ∧ 8192 + 32 * i < 8736 := by omega
    have other : ¬ 8192 + 32 * i = 516 := by omega
    rw [apartDisk, if_neg other, if_pos inside]
  · decide
  · decide

/-- The count goes on into cluster 3 and finds one entry too many. -/
theorem next_cluster_counted :
    Subdirectory (deviceOf apartDisk) apartDisk splitVolume (directoryFs.entry 0 0) [2, 4] 16 ∧
      ¬ LoadRight kernelAllocator (deviceOf apartDisk) directoryFs 0 0 (chainByte apartDisk splitVolume [2, 4]) 16 := by
  refine ⟨apartDisk_subdirectory, ?_⟩
  rintro ⟨d, s', run, nonnull, same, _⟩
  obtain ⟨_, after, counted⟩ := loadFatDirectory_total directoryFs_entry.1 run nonnull
  have place (k : Nat) (hk : k < 17) : apartDisk (8192 + 32 * k) = 0x41 := by
    have inside : 8192 ≤ 8192 + 32 * k ∧ 8192 + 32 * k < 8736 := by omega
    have other : ¬ 8192 + 32 * k = 516 := by omega
    rw [apartDisk, if_neg other, if_pos inside]
  have ends : EndsAt (deviceOf apartDisk) (8192 : Nat) 17 := by
    apply endsAt_disk (deviceOf_delivers _) (by decide)
    · intro k hk
      rw [place k hk]
      decide
    · decide
  have live : liveEntries (deviceOf apartDisk) (8192 : Nat) 17 = 17 := by
    rw [liveEntries_disk (deviceOf_delivers _) (by decide)]
    decide
  have pos : loadPos directoryFs.private (directoryFs.entry 0 0) = (8192 : Nat) := directoryFs_pos.2
  rw [pos, totalItems_ends ends, live, same] at counted
  injection counted with counted
  injection counted with total
  omega

end PeachOs
