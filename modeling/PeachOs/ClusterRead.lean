import PeachOs.Fat16
import Mathlib.Data.List.GetD

/-!
# Reading through a cluster chain

The cluster of an offset depends on the disk alone. A read is split into chunks
of a cluster's size that start at the offset inside the cluster, so a chunk may
run past its cluster's end.
-/

namespace PeachOs

open Function (update)

section

variable {device : BlockDevice} {p : FatPrivate}

/-- Stream positions do not matter: each read sets its own. -/
theorem getFatEntry_streams (streams streams' : Streams) (cluster : Int) :
    (fat16GetFatEntry device p streams cluster).1 = (fat16GetFatEntry device p streams' cluster).1 := by
  unfold fat16GetFatEntry
  split
  · rfl
  · dsimp only
    split <;> rfl

theorem advanceClusters_streams (left : Nat) (streams streams' : Streams) (cluster : Int) :
    (advanceClusters device p streams cluster left).1 =
      (advanceClusters device p streams' cluster left).1 := by
  induction left generalizing streams streams' cluster with
  | zero => rfl
  | succ left ih =>
    have same : (fat16GetFatEntry device p streams cluster).1 = (fat16GetFatEntry device p streams' cluster).1 :=
      getFatEntry_streams streams streams' cluster
    rw [advanceClusters, advanceClusters]
    rcases h : fat16GetFatEntry device p streams cluster with ⟨entry, s⟩
    rcases h' : fat16GetFatEntry device p streams' cluster with ⟨entry', s'⟩
    rw [h, h'] at same
    cases same
    dsimp only
    repeat' split
    all_goals first | rfl | exact ih s s' _

/-- A result without the streams. -/
abbrev deliveredBy {α : Type} (result : Option (Int × α × Streams)) : Option (Int × α) :=
  result.map fun r => (r.1, r.2.1)

theorem deliveredBy_append (bytes : List UInt8) (result : Option (Int × List UInt8 × Streams)) :
    deliveredBy (result.map fun (res, out, streams) => (res, bytes ++ out, streams)) =
      (deliveredBy result).map fun (res, out) => (res, bytes ++ out) := by
  cases result <;> rfl

theorem clusterForOffset_streams (streams streams' : Streams) (start offset : Int) :
    (fat16GetClusterForOffset device p streams start offset).map Prod.fst =
      (fat16GetClusterForOffset device p streams' start offset).map Prod.fst := by
  unfold fat16GetClusterForOffset
  split
  · rfl
  · exact congrArg some (advanceClusters_streams _ streams streams' start)

/-- One chunk of a read, and the rest after it. -/
theorem readInternal_chunk {streams s : Streams} {cluster offset c : Int} (stream : UInt32) (total : Int)
    (found : fat16GetClusterForOffset device p streams cluster offset = some (c, s)) :
    fat16ReadInternalFromStream device p streams stream cluster offset total =
      if c < 0 then some (c, [], s)
      else
        let n := if total > p.clusterBytes then p.clusterBytes else total
        let read := diskSteamerRead device
          (int32 (fat16ClusterToSector p c * peachosSectorSize + offset.tmod p.clusterBytes)) n
        let s := update s stream read.pos
        if read.res ≠ 0 then some (read.res, read.out, s)
        else if total - n > 0 then
          (fat16ReadInternalFromStream device p s stream cluster (int32 (offset + n)) (total - n)).map
            fun (res, out, s) => (res, read.out ++ out, s)
        else some (read.res, read.out, s) := by
  rw [fat16ReadInternalFromStream]
  split
  · rename_i missing
    rw [found] at missing
    cases missing
  · rename_i c' s' again
    rw [found] at again
    cases again
    dsimp only
    generalize hn : (if total > p.clusterBytes then p.clusterBytes else total) = n
    generalize diskSteamerRead device _ n = read
    by_cases failed : c < 0
    · rw [if_pos failed, if_pos failed]
    · rw [if_neg failed, if_neg failed]
      by_cases bad : read.res ≠ 0
      · rw [if_pos bad, if_pos bad]
      · rw [if_neg bad, if_neg bad]
        by_cases more : total - n > 0
        · rw [dif_pos more, if_pos more]
          cases fat16ReadInternalFromStream device p (update s stream read.pos) stream cluster
            (int32 (offset + n)) (total - n) <;> rfl
        · rw [dif_neg more, if_neg more]

theorem readInternal_missing {streams : Streams} {cluster offset : Int} (stream : UInt32) (total : Int)
    (missing : fat16GetClusterForOffset device p streams cluster offset = none) :
    fat16ReadInternalFromStream device p streams stream cluster offset total = none := by
  rw [fat16ReadInternalFromStream]
  split
  · rfl
  · rename_i found
    rw [missing] at found
    cases found

/-- Every read of a sector is at a position that was just set. -/
theorem readInternalFromStream_streams (stream : UInt32) (cluster total offset : Int)
    (streams streams' : Streams) :
    deliveredBy (fat16ReadInternalFromStream device p streams stream cluster offset total) =
      deliveredBy (fat16ReadInternalFromStream device p streams' stream cluster offset total) := by
  generalize left : total.toNat = n
  induction n using Nat.strongRecOn generalizing total offset streams streams' with
  | ind n ih =>
    have same : (fat16GetClusterForOffset device p streams cluster offset).map Prod.fst =
        (fat16GetClusterForOffset device p streams' cluster offset).map Prod.fst :=
      clusterForOffset_streams streams streams' cluster offset
    cases found : fat16GetClusterForOffset device p streams cluster offset with
    | none =>
      cases found' : fat16GetClusterForOffset device p streams' cluster offset with
      | none => rw [readInternal_missing stream total found, readInternal_missing stream total found']
      | some result => simp [found, found'] at same
    | some result =>
      cases found' : fat16GetClusterForOffset device p streams' cluster offset with
      | none => simp [found, found'] at same
      | some result' =>
        obtain ⟨c, s⟩ := result
        obtain ⟨c', s'⟩ := result'
        have cluster' : c = c' := by simpa [found, found'] using same
        subst cluster'
        have positive := clusterForOffset_divides found
        rw [readInternal_chunk stream total found, readInternal_chunk stream total found']
        dsimp only
        have fewer : 0 < total - (if total > p.clusterBytes then p.clusterBytes else total) →
            (total - if total > p.clusterBytes then p.clusterBytes else total).toNat < n := by
          split <;> omega
        generalize (if total > p.clusterBytes then p.clusterBytes else total) = k at fewer ⊢
        generalize diskSteamerRead device _ k = read
        split
        · rfl
        · split
          · rfl
          · split
            · rename_i more
              rw [deliveredBy_append, deliveredBy_append, ih _ (fewer more) _ _ _ (update s' stream read.pos) rfl]
            · rfl

/-- A read of no bytes writes none. -/
theorem readInternal_empty {streams streams' : Streams} {stream : UInt32} {cluster offset total res : Int}
    {out : List UInt8} (none : total ≤ 0)
    (run : fat16ReadInternalFromStream device p streams stream cluster offset total = some (res, out, streams')) :
    out = [] := by
  cases found : fat16GetClusterForOffset device p streams cluster offset with
  | none =>
    rw [readInternal_missing stream total found] at run
    cases run
  | some result =>
    obtain ⟨c, s⟩ := result
    have positive := clusterForOffset_divides found
    rw [readInternal_chunk stream total found, if_neg (show ¬ total > p.clusterBytes by omega)] at run
    dsimp only at run
    have bytes := diskSteamerRead_empty device
      (int32 (fat16ClusterToSector p c * peachosSectorSize + offset.tmod p.clusterBytes)) none
    generalize diskSteamerRead device _ total = read at run bytes
    split at run
    · cases run
      rfl
    · split at run
      · cases run
        exact bytes
      · rw [if_neg (by omega)] at run
        cases run
        exact bytes

end

/-- The cluster `fat16_get_cluster_for_offset` returns, or an error. -/
def clusterFor (device : BlockDevice) (p : FatPrivate) (start offset : Int) : Int :=
  ((fat16GetClusterForOffset device p (fun _ => 0) start offset).map Prod.fst).getD (-1)

theorem clusterForOffset_eq (device : BlockDevice) {p : FatPrivate} (positive : 0 < p.clusterBytes)
    (streams : Streams) (start offset : Int) : ∃ streams',
      fat16GetClusterForOffset device p streams start offset =
        some (clusterFor device p start offset, streams') := by
  have nonzero : p.clusterBytes ≠ 0 := by omega
  unfold clusterFor fat16GetClusterForOffset
  rw [if_neg nonzero, if_neg nonzero]
  refine ⟨(advanceClusters device p streams start (offset.tdiv p.clusterBytes).toNat).2, ?_⟩
  rw [Option.map_some, Option.getD_some,
    advanceClusters_streams _ (fun _ => 0) streams start]

/-- The bytes of a cluster. -/
def FatPrivate.clusterSize (p : FatPrivate) : Nat := p.header.sectorsPerCluster.toNat * 512

theorem clusterBytes_eq (p : FatPrivate) : p.clusterBytes = (p.clusterSize : Int) := by
  unfold FatPrivate.clusterBytes FatPrivate.clusterSize peachosSectorSize
  push_cast
  rfl

/-- Where a cluster begins on the disk. -/
def FatPrivate.clusterPos (p : FatPrivate) (cluster : Int) : Int :=
  (p.rootDirectory.endingSectorPos + (cluster - 2) * p.header.sectorsPerCluster.toNat) * peachosSectorSize

theorem startingPos_eq (p : FatPrivate) (cluster offset : Int) (lo : 0 ≤ p.clusterPos cluster + offset)
    (hi : p.clusterPos cluster + offset < 2 ^ 31) :
    int32 (fat16ClusterToSector p cluster * peachosSectorSize + offset) = p.clusterPos cluster + offset := by
  have whole : int32 (fat16ClusterToSector p cluster * peachosSectorSize + offset) =
      int32 (p.clusterPos cluster + offset) := by
    have sector := int32_modEq (p.rootDirectory.endingSectorPos + (cluster - 2) * p.header.sectorsPerCluster.toNat)
    have moved := (sector.mul_right peachosSectorSize).add_right offset
    unfold int32 fat16ClusterToSector FatPrivate.clusterPos
    exact Int.bmod_eq_bmod_iff_bmod_sub_eq_zero.mpr (by
      rw [← Int.dvd_iff_bmod_eq_zero]
      exact moved.symm.dvd)
  rw [whole, int32_of_range (by omega) hi]

/-- The cluster of the offset `i` clusters in. -/
def chain (device : BlockDevice) (p : FatPrivate) (start : Int) (i : Nat) : Int :=
  clusterFor device p start (i * p.clusterSize : Nat)

/-- The clusters of a chain up to number `last`, as a read needs them. -/
structure ChainReadable (device : BlockDevice) (p : FatPrivate) (start : Int) (last : Nat) : Prop where
  found : ∀ i ≤ last, 0 ≤ chain device p start i
  placed : ∀ i ≤ last, 0 ≤ p.clusterPos (chain device p start i)

section

variable {device : BlockDevice} {disk : Nat → UInt8} {p : FatPrivate} {start : Int}

theorem clusterFor_chain (positive : 0 < p.clusterSize) (offset : Nat) :
    clusterFor device p start offset = chain device p start (offset / p.clusterSize) := by
  have nonzero : p.clusterBytes ≠ 0 := by
    rw [clusterBytes_eq]
    omega
  have index (n : Nat) : ((n : Int).tdiv p.clusterBytes).toNat = n / p.clusterSize := by
    rw [clusterBytes_eq]
    rfl
  unfold chain clusterFor fat16GetClusterForOffset
  rw [if_neg nonzero, if_neg nonzero, index, index, Nat.mul_div_cancel _ positive]

/-- Byte `j` of a read from `offset` on, as the code finds it: chunk after chunk,
each from the same offset in its cluster. -/
def chunkPos (device : BlockDevice) (p : FatPrivate) (start : Int) (offset j : Nat) : Int :=
  p.clusterPos (chain device p start (offset / p.clusterSize + j / p.clusterSize)) +
    (offset % p.clusterSize + j % p.clusterSize : Nat)

theorem chunkPos_next (positive : 0 < p.clusterSize) (offset j : Nat) :
    chunkPos device p start (offset + p.clusterSize) j = chunkPos device p start offset (p.clusterSize + j) := by
  unfold chunkPos
  have index : offset / p.clusterSize + 1 + j / p.clusterSize = offset / p.clusterSize + (j / p.clusterSize + 1) := by
    omega
  rw [Nat.add_div_right _ positive, Nat.add_mod_right, Nat.add_div_left _ positive, Nat.add_mod_left,
    index]

/-- One chunk of a read lies in one cluster. -/
theorem chunk_delivers (delivers : Delivers device disk) {offset n : Nat} (some : 1 ≤ n) (within : n ≤ p.clusterSize)
    (small : n < 2 ^ 31) (placed : 0 ≤ p.clusterPos (chain device p start (offset / p.clusterSize)))
    (fits : chunkPos device p start offset (n - 1) < 2 ^ 31 - 1) :
    ∃ read, diskSteamerRead device (int32 (fat16ClusterToSector p (chain device p start (offset / p.clusterSize)) *
        peachosSectorSize + (offset % p.clusterSize : Nat))) n = read ∧ read.res = 0 ∧ read.out.length = n ∧
      ∀ j < n, read.out.getD j 0 = disk (chunkPos device p start offset j).toNat := by
  have bytes (j : Nat) (hj : j < n) : chunkPos device p start offset j =
      p.clusterPos (chain device p start (offset / p.clusterSize)) + (offset % p.clusterSize + j : Nat) := by
    have inside : j < p.clusterSize := by omega
    unfold chunkPos
    rw [Nat.div_eq_of_lt inside, Nat.mod_eq_of_lt inside, Nat.add_zero]
  rw [bytes _ (by omega)] at fits
  have pos := startingPos_eq p (chain device p start (offset / p.clusterSize)) (offset % p.clusterSize : Nat)
    (by omega) (by omega)
  obtain ⟨first, place⟩ := Int.eq_ofNat_of_zero_le
    (show 0 ≤ p.clusterPos (chain device p start (offset / p.clusterSize)) + (offset % p.clusterSize : Nat) by omega)
  obtain ⟨res, out, _⟩ := diskSteamerRead_delivers delivers first n (by omega)
  rw [pos, place]
  refine ⟨_, rfl, res, by rw [out, diskBytes_length], fun j hj => ?_⟩
  have address : (chunkPos device p start offset j).toNat = first + j := by
    rw [bytes j hj]
    omega
  rw [out, address, diskBytes_getD disk first hj]

/-- What a read through the chain delivers. -/
theorem readInternal_chunks (delivers : Delivers device disk) (positive : 0 < p.clusterSize)
    (stream : UInt32) (streams : Streams) (total : Nat) (some : 1 ≤ total) (offset : Nat)
    (small : offset + total < 2 ^ 31)
    (readable : ChainReadable device p start ((offset + total - 1) / p.clusterSize))
    (fits : ∀ j < total, chunkPos device p start offset j < 2 ^ 31 - 1) :
    ∃ out streams', fat16ReadInternalFromStream device p streams stream start offset total =
        Option.some (0, out, streams') ∧
      out.length = total ∧ ∀ j < total, out.getD j 0 = disk (chunkPos device p start offset j).toNat := by
  induction total using Nat.strongRecOn generalizing offset streams with
  | ind total ih =>
    obtain ⟨streams₁, found⟩ := clusterForOffset_eq device (p := p) (by rw [clusterBytes_eq]; omega)
      streams start offset
    rw [clusterFor_chain positive] at found
    have inside : offset / p.clusterSize ≤ (offset + total - 1) / p.clusterSize :=
      Nat.div_le_div_right (by omega)
    have ok := readable.found _ inside
    have placed := readable.placed _ inside
    have rest : (offset : Int).tmod p.clusterBytes = (offset % p.clusterSize : Nat) := by
      rw [clusterBytes_eq]
      rfl
    generalize hn : min total p.clusterSize = n
    have length : (if (total : Int) > p.clusterBytes then p.clusterBytes else total) = (n : Int) := by
      rw [clusterBytes_eq]
      split <;> omega
    obtain ⟨read, run, res, size, here⟩ :=
      chunk_delivers delivers (by omega) (by omega) (by omega) placed (fits (n - 1) (by omega))
    rw [readInternal_chunk stream total found, if_neg (by omega)]
    dsimp only
    rw [rest, length, run, if_neg (not_not.mpr res)]
    by_cases more : n < total
    · have whole : n = p.clusterSize := by omega
      have next : int32 ((offset : Int) + (n : Int)) = ((offset + n : Nat) : Int) := by
        rw [int32_of_range (by omega) (by omega)]
        omega
      have left : (total : Int) - (n : Int) = ((total - n : Nat) : Int) := by omega
      rw [if_pos (by omega), next, left]
      have moved (j : Nat) : chunkPos device p start (offset + n) j = chunkPos device p start offset (n + j) := by
        rw [whole]
        exact chunkPos_next positive offset j
      have rejoin : offset + n + (total - n) = offset + total := by
        rw [Nat.add_assoc, Nat.add_sub_cancel' (Nat.le_of_lt more)]
      obtain ⟨tail, streams', run, tailLength, tailBytes⟩ := ih (total - n) (by omega)
        (update streams₁ stream read.pos) (by omega) (offset + n)
        (by rw [rejoin]; exact small) (by rw [rejoin]; exact readable)
        (fun j hj => by rw [moved]; exact fits (n + j) (by omega))
      rw [run]
      refine ⟨_, _, rfl, ?_, fun j hj => ?_⟩
      · rw [List.length_append, size, tailLength]
        omega
      · by_cases first : j < n
        · rw [List.getD_append _ _ _ _ (by rw [size]; exact first)]
          exact here j first
        · have back : n + (j - n) = j := Nat.add_sub_cancel' (Nat.le_of_not_lt first)
          rw [List.getD_append_right _ _ _ _ (by rw [size]; omega), size, tailBytes _ (by omega), moved, back]
    · rw [if_neg (by omega), res]
      have all : n = total := by omega
      refine ⟨_, _, rfl, by rw [size, all], fun j hj => here j (by omega)⟩

/-- Where byte `j` of a read from `offset` on lies in the file. -/
def filePos (device : BlockDevice) (p : FatPrivate) (start : Int) (offset j : Nat) : Int :=
  p.clusterPos (chain device p start ((offset + j) / p.clusterSize)) + ((offset + j) % p.clusterSize : Nat)

/-- Inside the cluster its chunk starts in, a byte is read from its place. -/
theorem chunkPos_inside {offset j : Nat} (inside : offset % p.clusterSize + j % p.clusterSize < p.clusterSize) :
    chunkPos device p start offset j = filePos device p start offset j := by
  have index : (offset + j) / p.clusterSize = offset / p.clusterSize + j / p.clusterSize := by
    rw [Nat.add_div (by omega), if_neg (by omega), Nat.add_zero]
  have rest : (offset + j) % p.clusterSize = offset % p.clusterSize + j % p.clusterSize := by
    rw [Nat.add_mod, Nat.mod_eq_of_lt inside]
  rw [chunkPos, filePos, index, rest]

/-- **A read through the chain is right** exactly when each byte that is read past
the end of the cluster its chunk starts in is the one at its place in the next. -/
theorem readInternal_iff (delivers : Delivers device disk) (positive : 0 < p.clusterSize) (stream : UInt32)
    (streams : Streams) {offset total : Nat} (some : 1 ≤ total) (small : offset + total < 2 ^ 31)
    (readable : ChainReadable device p start ((offset + total - 1) / p.clusterSize))
    (fits : ∀ j < total, chunkPos device p start offset j < 2 ^ 31 - 1) :
    (∃ out streams', fat16ReadInternalFromStream device p streams stream start offset total =
        Option.some (0, out, streams') ∧
      out.length = total ∧ ∀ j < total, out.getD j 0 = disk (filePos device p start offset j).toNat) ↔
    ∀ j < total, p.clusterSize ≤ offset % p.clusterSize + j % p.clusterSize →
      disk (chunkPos device p start offset j).toNat = disk (filePos device p start offset j).toNat := by
  obtain ⟨out, streams', run, length, bytes⟩ :=
    readInternal_chunks delivers positive stream streams total some offset small readable fits
  constructor
  · rintro ⟨out', _, run', _, wanted⟩ j hj _
    rw [run] at run'
    cases run'
    rw [← bytes j hj, wanted j hj]
  · intro agree
    refine ⟨out, streams', run, length, fun j hj => ?_⟩
    rw [bytes j hj]
    by_cases inside : offset % p.clusterSize + j % p.clusterSize < p.clusterSize
    · rw [chunkPos_inside inside]
    · exact agree j hj (Nat.le_of_not_lt inside)

/-- The entry of a cluster is the two bytes at the position the code computes. -/
theorem getFatEntry_delivers (delivers : Delivers device disk) (streamed : p.fatReadStream ≠ 0)
    (streams : Streams) {cluster : Int} {pos : Nat} (place : fatEntryPos p cluster = pos)
    (fits : pos + 2 < 2 ^ 31) :
    (fat16GetFatEntry device p streams cluster).1 = ((disk pos).toNat + 256 * (disk (pos + 1)).toNat : Nat) := by
  obtain ⟨res, out, _⟩ := diskSteamerRead_delivers delivers pos 2 fits
  have two : ((2 : Nat) : Int) = 2 := rfl
  rw [two] at res out
  unfold fat16GetFatEntry
  rw [if_neg streamed, place]
  dsimp only
  rw [if_neg (by rw [res]; decide), out, diskBytes_getD disk pos (by decide), diskBytes_getD disk pos (by decide)]
  push_cast
  rfl

end

/-! ## A read across two clusters -/

/-- One sector per cluster, and a chain from cluster 2 to cluster 4. -/
def splitVolume : FatPrivate where
  header := ⟨1, 1, 1, 16, 14⟩
  rootDirectory := ⟨0, 0, 15, 16⟩
  clusterReadStream := 0x1000
  fatReadStream := 0x2000
  directoryStream := 0x3000

def splitDisk (x : Nat) : UInt8 := if x = 4096 then 4 else if 9216 ≤ x then 1 else 0

def deviceOf (disk : Nat → UInt8) : BlockDevice := fun sector => (0, fun i => disk (512 * sector + i).toNat)

theorem deviceOf_delivers (disk : Nat → UInt8) : Delivers (deviceOf disk) disk := by
  intro sector
  refine ⟨rfl, fun i _ => ?_⟩
  unfold deviceOf
  congr 1

theorem splitVolume_size : splitVolume.clusterSize = 512 := rfl

theorem splitVolume_chain :
    chain (deviceOf splitDisk) splitVolume 2 0 = 2 ∧ chain (deviceOf splitDisk) splitVolume 2 1 = 4 := by
  have entry := getFatEntry_delivers (deviceOf_delivers splitDisk) (p := splitVolume) (by decide) (fun _ => 0)
    (show fatEntryPos splitVolume 2 = (4096 : Nat) by decide) (by decide)
  have value : ((splitDisk 4096).toNat + 256 * (splitDisk (4096 + 1)).toNat : Nat) = 4 := by decide
  rw [value] at entry
  unfold chain clusterFor fat16GetClusterForOffset
  rw [if_neg (by decide), if_neg (by decide)]
  refine ⟨rfl, ?_⟩
  have one : ((1 * splitVolume.clusterSize : Nat) : Int).tdiv splitVolume.clusterBytes = 1 := by decide
  rw [one]
  show (advanceClusters (deviceOf splitDisk) splitVolume (fun _ => 0) 2 1).1 = 4
  rw [advanceClusters]
  rcases h : fat16GetFatEntry (deviceOf splitDisk) splitVolume (fun _ => 0) 2 with ⟨e, s⟩
  rw [h] at entry
  have value : e = 4 := entry
  subst value
  rfl

theorem splitVolume_readable : ChainReadable (deviceOf splitDisk) splitVolume 2 1 := by
  obtain ⟨first, second⟩ := splitVolume_chain
  constructor
  · intro i hi
    rcases Nat.le_one_iff_eq_zero_or_eq_one.mp hi with rfl | rfl
    · rw [first]
      decide
    · rw [second]
      decide
  · intro i hi
    rcases Nat.le_one_iff_eq_zero_or_eq_one.mp hi with rfl | rfl
    · rw [first]
      decide
    · rw [second]
      decide

theorem splitVolume_pos : splitVolume.clusterPos 2 = 8192 ∧ splitVolume.clusterPos 4 = 9216 := by decide

theorem splitVolume_chunk {r j : Nat} (start : r < 512) (inside : j < 1024) :
    chunkPos (deviceOf splitDisk) splitVolume 2 r j =
      if j < 512 then ((8192 + r + j : Nat) : Int) else ((9216 + r + (j - 512) : Nat) : Int) := by
  obtain ⟨first, second⟩ := splitVolume_chain
  unfold chunkPos
  rw [splitVolume_size, Nat.div_eq_of_lt start, Nat.mod_eq_of_lt start, Nat.zero_add]
  by_cases low : j < 512
  · rw [Nat.div_eq_of_lt low, Nat.mod_eq_of_lt low, first, splitVolume_pos.1, if_pos low]
    omega
  · have index : j / 512 = 1 := by omega
    have rest : j % 512 = j - 512 := by omega
    rw [index, rest, second, splitVolume_pos.2, if_neg low]
    omega

theorem splitVolume_fits {r : Nat} (start : r < 512) (j : Nat) (inside : j < 1024) :
    chunkPos (deviceOf splitDisk) splitVolume 2 r j < 2 ^ 31 - 1 := by
  rw [splitVolume_chunk start inside]
  split <;> omega

theorem aligned_read_right : ∃ out streams',
    fat16ReadInternalFromStream (deviceOf splitDisk) splitVolume (fun _ => 0) 0x1000 2 (0 : Nat) (1024 : Nat) =
        some (0, out, streams') ∧
      out.length = 1024 ∧
      ∀ j < 1024, out.getD j 0 = splitDisk (filePos (deviceOf splitDisk) splitVolume 2 0 j).toNat := by
  apply (readInternal_iff (deviceOf_delivers splitDisk) (by decide) 0x1000 (fun _ => 0) (by decide) (by decide)
    splitVolume_readable (splitVolume_fits (by decide))).mpr
  intro j _ past
  rw [splitVolume_size, Nat.zero_mod, Nat.zero_add] at past
  exact absurd (Nat.mod_lt j (by decide)) (Nat.not_lt.mpr past)

/-- A read of one cluster's size that starts in the middle of a cluster. -/
theorem crossing_read_wrong :
    Delivers (deviceOf splitDisk) splitDisk ∧
    ChainReadable (deviceOf splitDisk) splitVolume 2 ((256 + 512 - 1) / splitVolume.clusterSize) ∧
    (∀ j < 512, chunkPos (deviceOf splitDisk) splitVolume 2 256 j < 2 ^ 31 - 1) ∧
    ¬ ∃ out streams', fat16ReadInternalFromStream (deviceOf splitDisk) splitVolume (fun _ => 0) 0x1000 2
          (256 : Nat) (512 : Nat) = some (0, out, streams') ∧
        out.length = 512 ∧
        ∀ j < 512, out.getD j 0 = splitDisk (filePos (deviceOf splitDisk) splitVolume 2 256 j).toNat := by
  have fits (j : Nat) (hj : j < 512) := splitVolume_fits (r := 256) (by decide) j (by omega)
  refine ⟨deviceOf_delivers splitDisk, splitVolume_readable, fits, ?_⟩
  rintro ⟨out, streams', run, _, wanted⟩
  obtain ⟨out', _, run', _, bytes⟩ := readInternal_chunks (deviceOf_delivers splitDisk) (by decide) 0x1000
    (fun _ => 0) 512 (by decide) 256 (by decide) splitVolume_readable fits
  rw [run] at run'
  cases run'
  have read := bytes 256 (by decide)
  rw [wanted 256 (by decide), splitVolume_chunk (by decide) (by decide)] at read
  have next : filePos (deviceOf splitDisk) splitVolume 2 256 256 = 9216 := by
    unfold filePos
    rw [splitVolume_size]
    show splitVolume.clusterPos (chain (deviceOf splitDisk) splitVolume 2 1) + (0 : Nat) = 9216
    rw [splitVolume_chain.2, splitVolume_pos.2]
    rfl
  rw [next] at read
  exact absurd read (by decide)

end PeachOs
