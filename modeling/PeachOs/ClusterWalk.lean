import PeachOs.ClusterMarks
import PeachOs.FreadBounds

/-!
# Walking a cluster chain

A read looks up the cluster of every chunk from the start of the chain. Two walks one
after the other are one walk, and a walk that fails fails at every later cluster.
-/

namespace PeachOs

open Function (update)

/-! ## Walks that follow each other -/

section

variable {device : BlockDevice} {p : FatPrivate} {start : Int}

/-- Without a stream for the table there is no entry. -/
theorem fatEntry_unopened (unopened : p.fatReadStream = 0) (cluster : Int) : fatEntry device p cluster = -1 := by
  unfold fatEntry fat16GetFatEntry
  rw [if_pos unopened]

theorem fatEntry_nonneg (ok : NeverFails device) (opened : p.fatReadStream ≠ 0) (cluster : Int) :
    0 ≤ fatEntry device p cluster := by
  unfold fatEntry fat16GetFatEntry
  rw [if_neg opened]
  dsimp only
  rw [if_neg (by rw [(diskSteamerRead_ok ok _ _).1]; decide)]
  omega

/-- The cluster `left` entries on. -/
def clusterAt (device : BlockDevice) (p : FatPrivate) (cluster : Int) (left : Nat) : Int :=
  (advanceClusters device p (fun _ => 0) cluster left).1

theorem clusterAt_succ (cluster : Int) (left : Nat) : clusterAt device p cluster (left + 1) =
    if Tested (fatEntry device p cluster) then -eio else clusterAt device p (fatEntry device p cluster) left :=
  advanceClusters_succ _ cluster left

theorem clusterAt_unopened (unopened : p.fatReadStream = 0) (left : Nat) : clusterAt device p (-1) left = -1 := by
  induction left with
  | zero => rfl
  | succ left ih =>
    rw [clusterAt_succ, fatEntry_unopened unopened, if_neg (by decide)]
    exact ih

/-- A walk of `i + j` entries, after its first `i`. -/
theorem clusterAt_add (ok : NeverFails device) {cluster : Int} (begins : 0 ≤ cluster) (i j : Nat) :
    (0 ≤ clusterAt device p cluster i →
      clusterAt device p cluster (i + j) = clusterAt device p (clusterAt device p cluster i) j) ∧
      (clusterAt device p cluster i < 0 → clusterAt device p cluster (i + j) < 0) := by
  induction i generalizing cluster with
  | zero =>
    rw [Nat.zero_add]
    exact ⟨fun _ => rfl, fun negative => absurd negative (Int.not_lt.mpr begins)⟩
  | succ i ih =>
    rw [Nat.add_right_comm, clusterAt_succ, clusterAt_succ]
    by_cases tested : Tested (fatEntry device p cluster)
    · rw [if_pos tested, if_pos tested]
      exact ⟨fun found => absurd found (by decide), fun lost => lost⟩
    · rw [if_neg tested, if_neg tested]
      by_cases opened : p.fatReadStream = 0
      · -- every entry is -1
        rw [fatEntry_unopened opened, clusterAt_unopened opened, clusterAt_unopened opened]
        exact ⟨fun found => absurd found (by decide), fun lost => lost⟩
      · exact ih (fatEntry_nonneg ok opened cluster)

theorem clusterForOffset_clusterAt (device : BlockDevice) (positive : 0 < p.clusterSize) (streams : Streams)
    (start : Int) (offset : Nat) :
    (fat16GetClusterForOffset device p streams start offset).map Prod.fst =
      some (clusterAt device p start (offset / p.clusterSize)) := by
  unfold fat16GetClusterForOffset
  rw [clusterBytes_eq, if_neg (by omega)]
  exact congrArg some (advanceClusters_streams _ streams _ start)

end

/-! ## A read in one pass -/

/-- A read that carries its cluster forward. Every chunk starts at the same offset in
its cluster. -/
def readCarried (device : BlockDevice) (p : FatPrivate) (streams : Streams) (stream : UInt32)
    (clusterToUse offsetFromCluster total : Int) : Option (Int × List UInt8 × Streams) :=
  if clusterToUse < 0 then some (clusterToUse, [], streams)
  else
    let startingSector := fat16ClusterToSector p clusterToUse
    let startingPos := int32 (startingSector * peachosSectorSize + offsetFromCluster)
    let totalToRead := if total > p.clusterBytes then p.clusterBytes else total
    let read := diskSteamerRead device startingPos totalToRead
    let streams := update streams stream read.pos
    if read.res ≠ 0 then some (read.res, read.out, streams)
    else if _more : total - totalToRead > 0 then
      match _found : fat16GetClusterForOffset device p streams clusterToUse p.clusterBytes with
      | none => none
      | some (next, streams) =>
        (readCarried device p streams stream next offsetFromCluster (total - totalToRead)).map
          fun (res, out, streams) => (res, read.out ++ out, streams)
    else some (read.res, read.out, streams)
termination_by total.toNat
decreasing_by
  have positive := clusterForOffset_divides _found
  have more : 0 < total - (if total > p.clusterBytes then p.clusterBytes else total) := _more
  show (total - (if total > p.clusterBytes then p.clusterBytes else total)).toNat < total.toNat
  split at more
  · rw [if_pos (by assumption)]
    omega
  · omega

def readInOnePass (device : BlockDevice) (p : FatPrivate) (streams : Streams) (stream : UInt32)
    (cluster offset total : Int) : Option (Int × List UInt8 × Streams) :=
  match fat16GetClusterForOffset device p streams cluster offset with
  | none => none
  | some (clusterToUse, streams) =>
    readCarried device p streams stream clusterToUse (offset.tmod p.clusterBytes) total

section

variable {device : BlockDevice} {p : FatPrivate} {start : Int}

theorem clusterForOffset_found (device : BlockDevice) (positive : 0 < p.clusterSize) (streams : Streams) (start : Int)
    (offset : Nat) :
    ∃ streams', fat16GetClusterForOffset device p streams start offset =
      some (clusterAt device p start (offset / p.clusterSize), streams') := by
  have found := clusterForOffset_clusterAt device positive streams start offset
  obtain ⟨⟨cluster, streams'⟩, run, same⟩ := Option.map_eq_some_iff.mp found
  exact ⟨streams', by rw [run, ← same]⟩

/-- The cluster one entry on, as the pass finds it. -/
theorem clusterForOffset_next (device : BlockDevice) (positive : 0 < p.clusterSize) (streams : Streams)
    (cluster : Int) :
    ∃ streams', fat16GetClusterForOffset device p streams cluster p.clusterBytes =
      some (clusterAt device p cluster 1, streams') := by
  obtain ⟨streams', found⟩ := clusterForOffset_found device positive streams cluster p.clusterSize
  rw [Nat.div_self positive, ← clusterBytes_eq] at found
  exact ⟨streams', found⟩

/-- A pass that has not come to its last chunk. -/
theorem readCarried_next (ok : NeverFails device) (positive : 0 < p.clusterSize) (streams : Streams) (stream : UInt32)
    {cluster total : Int} (offset : Int) (placed : 0 ≤ cluster) (more : p.clusterBytes < total) : ∃ streams',
      deliveredBy (readCarried device p streams stream cluster offset total) =
        (deliveredBy (readCarried device p streams' stream (clusterAt device p cluster 1) offset
          (total - p.clusterBytes))).map fun (res, out) => (res, (diskSteamerRead device
            (int32 (fat16ClusterToSector p cluster * peachosSectorSize + offset)) p.clusterBytes).out ++ out) := by
  have res := (diskSteamerRead_ok ok (int32 (fat16ClusterToSector p cluster * peachosSectorSize + offset))
    p.clusterBytes).1
  rw [readCarried, if_neg (Int.not_lt.mpr placed)]
  dsimp only
  rw [if_pos more]
  generalize diskSteamerRead device _ p.clusterBytes = read at res ⊢
  rw [if_neg (not_not.mpr res), dif_pos (by omega)]
  obtain ⟨streams', next⟩ := clusterForOffset_next device positive (update streams stream read.pos) cluster
  refine ⟨streams', ?_⟩
  split
  · rename_i missing
    rw [next] at missing
    cases missing
  · rename_i again
    rw [next] at again
    cases again
    exact deliveredBy_append read.out _

/-- A pass in its last chunk. -/
theorem readCarried_last (ok : NeverFails device) (streams : Streams) (stream : UInt32) {cluster offset total : Int}
    (placed : 0 ≤ cluster) (last : total ≤ p.clusterBytes) :
    deliveredBy (readCarried device p streams stream cluster offset total) =
      some (0, (diskSteamerRead device (int32 (fat16ClusterToSector p cluster * peachosSectorSize + offset)) total).out)
      := by
  have res := (diskSteamerRead_ok ok (int32 (fat16ClusterToSector p cluster * peachosSectorSize + offset)) total).1
  rw [readCarried, if_neg (Int.not_lt.mpr placed)]
  dsimp only
  rw [if_neg (Int.not_lt.mpr last)]
  generalize diskSteamerRead device _ total = read at res ⊢
  rw [if_neg (not_not.mpr res), dif_neg (by omega), ← res]
  rfl

theorem readInternal_carried (ok : NeverFails device) (positive : 0 < p.clusterSize) (begins : 0 ≤ start)
    (stream : UInt32) {total : Int} {offset : Nat} (small : offset + total < 2 ^ 31) (streams streams' : Streams) :
    deliveredBy (fat16ReadInternalFromStream device p streams stream start offset total) =
      deliveredBy (readCarried device p streams' stream (clusterAt device p start (offset / p.clusterSize))
        (offset % p.clusterSize : Nat) total) := by
  generalize left : total.toNat = n
  induction n using Nat.strongRecOn generalizing total offset streams streams' with
  | ind n ih =>
    have rest : (offset : Int).tmod p.clusterBytes = (offset % p.clusterSize : Nat) := by
      rw [clusterBytes_eq]
      rfl
    have bytes : 0 < p.clusterBytes := by
      rw [clusterBytes_eq]
      omega
    obtain ⟨s, found⟩ := clusterForOffset_found device positive streams start offset
    obtain ⟨onward, _⟩ := clusterAt_add (p := p) ok begins (offset / p.clusterSize) 1
    rw [readInternal_chunk stream total found, rest]
    generalize hc : clusterAt device p start (offset / p.clusterSize) = cluster at onward ⊢
    by_cases lost : cluster < 0
    · rw [if_pos lost, readCarried, if_pos lost]
      rfl
    · rw [if_neg lost]
      have placed := Int.not_lt.mp lost
      dsimp only
      by_cases more : total > p.clusterBytes
      · -- the cluster looked up from the start is the one carried forward
        obtain ⟨s', next⟩ := readCarried_next ok positive streams' stream
          ((offset % p.clusterSize : Nat) : Int) placed more
        have further : int32 ((offset : Int) + p.clusterBytes) = (offset + p.clusterSize : Nat) := by
          rw [int32_of_range (by omega) (by omega), clusterBytes_eq]
          push_cast
          rfl
        have size := clusterBytes_eq p
        have res := (diskSteamerRead_ok ok (int32 (fat16ClusterToSector p cluster * peachosSectorSize +
          (offset % p.clusterSize : Nat))) p.clusterBytes).1
        rw [next, if_pos more, if_neg (not_not.mpr res), if_pos (by omega), further, deliveredBy_append]
        have fewer : (total - p.clusterBytes).toNat < n := by omega
        have small' : ((offset + p.clusterSize : Nat) : Int) + (total - p.clusterBytes) < 2 ^ 31 := by
          rw [size, Nat.cast_add, add_add_sub_cancel]
          exact small
        rw [ih _ fewer small' _ s' rfl, Nat.add_div_right _ positive, Nat.add_mod_right, onward placed]
      · have res := (diskSteamerRead_ok ok (int32 (fat16ClusterToSector p cluster * peachosSectorSize +
          (offset % p.clusterSize : Nat))) total).1
        rw [readCarried_last ok streams' stream placed (by omega), if_neg more]
        generalize diskSteamerRead device _ total = read at res ⊢
        rw [if_neg (not_not.mpr res), if_neg (by omega), ← res]
        rfl

theorem readInternal_onePass (ok : NeverFails device) (positive : 0 < p.clusterSize) (begins : 0 ≤ start)
    (stream : UInt32) {total : Int} {offset : Nat} (small : offset + total < 2 ^ 31) (streams streams' : Streams) :
    deliveredBy (fat16ReadInternalFromStream device p streams stream start offset total) =
      deliveredBy (readInOnePass device p streams' stream start offset total) := by
  obtain ⟨s, found⟩ := clusterForOffset_found device positive streams' start offset
  have rest : (offset : Int).tmod p.clusterBytes = (offset % p.clusterSize : Nat) := by
    rw [clusterBytes_eq]
    rfl
  rw [readInOnePass, found, rest]
  exact readInternal_carried ok positive begins stream small streams s

/-- The cluster of an offset is the cluster of the rest of it from any cluster on the way, and no offset
behind an error has one. So looking every chunk up from the start reads what one pass reads. -/
theorem clusterForOffset_composes (ok : NeverFails device) (positive : 0 < p.clusterSize) (begins : 0 ≤ start) :
    (∀ (i j r : Nat) (streams s₁ s₂ s : Streams) (m : Int), r < p.clusterSize →
      fat16GetClusterForOffset device p streams start (i * p.clusterSize : Nat) = some (m, s) → 0 ≤ m →
      (fat16GetClusterForOffset device p s₁ start ((i + j) * p.clusterSize + r : Nat)).map Prod.fst =
        (fat16GetClusterForOffset device p s₂ m (j * p.clusterSize + r : Nat)).map Prod.fst) ∧
    (∀ (offset further : Nat) (streams s₁ s : Streams) (e : Int), offset ≤ further →
      fat16GetClusterForOffset device p streams start offset = some (e, s) → e < 0 →
      ∃ e' s', fat16GetClusterForOffset device p s₁ start further = some (e', s') ∧ e' < 0) ∧
    ∀ (stream : UInt32) (streams s₁ : Streams) (offset : Nat) (total : Int), offset + total < 2 ^ 31 →
      deliveredBy (fat16ReadInternalFromStream device p streams stream start offset total) =
        deliveredBy (readInOnePass device p s₁ stream start offset total) := by
  have index (k : Nat) {r : Nat} (within : r < p.clusterSize) : (k * p.clusterSize + r) / p.clusterSize = k := by
    rw [Nat.add_comm, Nat.add_mul_div_right _ _ positive, Nat.div_eq_of_lt within, Nat.zero_add]
  refine ⟨?_, ?_, fun stream streams s₁ offset total small =>
    readInternal_onePass ok positive begins stream small streams s₁⟩
  · intro i j r streams s₁ s₂ s m within found placed
    have here := clusterForOffset_clusterAt device positive streams start (i * p.clusterSize)
    rw [found, Nat.mul_div_cancel i positive] at here
    have same : m = clusterAt device p start i := Option.some.inj here
    rw [clusterForOffset_clusterAt _ positive, clusterForOffset_clusterAt _ positive, index _ within, index _ within]
    rw [same] at placed ⊢
    exact congrArg some ((clusterAt_add ok begins i j).1 placed)
  · intro offset further streams s₁ s e later found lost
    have here := clusterForOffset_clusterAt device positive streams start offset
    rw [found] at here
    have same : e = clusterAt device p start (offset / p.clusterSize) := Option.some.inj here
    rw [same] at lost
    obtain ⟨s', found'⟩ := clusterForOffset_found device positive s₁ start further
    obtain ⟨k, split⟩ := Nat.exists_eq_add_of_le (Nat.div_le_div_right (c := p.clusterSize) later)
    refine ⟨_, s', found', ?_⟩
    rw [split]
    exact (clusterAt_add ok begins _ k).2 lost

end

/-- From cluster 2 the second cluster is 4. -/
theorem splitVolume_composes :
    (fat16GetClusterForOffset (deviceOf splitDisk) splitVolume (fun _ => 0) 2
        ((1 + 1) * splitVolume.clusterSize + 100 : Nat)).map Prod.fst =
      (fat16GetClusterForOffset (deviceOf splitDisk) splitVolume (fun _ => 0) 4
        (1 * splitVolume.clusterSize + 100 : Nat)).map Prod.fst := by
  obtain ⟨s, found⟩ := clusterForOffset_eq (deviceOf splitDisk) (p := splitVolume) (by decide) (fun _ => 0) 2
    (1 * splitVolume.clusterSize : Nat)
  have four : clusterFor (deviceOf splitDisk) splitVolume 2 (1 * splitVolume.clusterSize : Nat) = 4 :=
    splitVolume_chain.2
  rw [four] at found
  exact (clusterForOffset_composes (deviceOf_neverFails splitDisk) (by decide) (by decide)).1 1 1 100 _ _ _ s 4
    (by decide) found (by decide)

end PeachOs
