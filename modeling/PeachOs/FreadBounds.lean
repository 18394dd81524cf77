import PeachOs.OpenFile

/-!
# How much `fread` reads

`fat16_read` does not look at the file's size. It reads until the request is
done or the cluster of a byte cannot be found.
-/

namespace PeachOs

open Function (update)

/-- `disk_read_block` on the one disk there is. -/
def NeverFails (device : BlockDevice) : Prop := ∀ sector, (device sector).1 = 0

theorem diskSteamerRead_length {device : BlockDevice} (ok : NeverFails device) (pos : Int) (total : Nat) :
    (diskSteamerRead device pos total).res = 0 ∧ (diskSteamerRead device pos total).out.length = total := by
  induction total using Nat.strongRecOn generalizing pos with
  | ind total ih =>
    have small := Int.tmod_lt_of_pos pos (show (0 : Int) < peachosSectorSize by decide)
    have size : peachosSectorSize = 512 := rfl
    rw [diskSteamerRead]
    dsimp only
    rw [ok, if_neg (by decide)]
    by_cases overflow : pos.tmod peachosSectorSize + total ≥ peachosSectorSize
    · obtain ⟨n, hn⟩ := Int.eq_ofNat_of_zero_le (show 0 ≤ peachosSectorSize - pos.tmod peachosSectorSize by omega)
      have left : (total : Int) - (n : Int) = ((total - n : Nat) : Int) := by omega
      obtain ⟨res, length⟩ := ih (total - n) (by omega) (int32 (pos + n))
      rw [dif_pos overflow, hn, left]
      refine ⟨res, ?_⟩
      rw [List.length_append, length, List.length_map, List.length_range]
      omega
    · rw [dif_neg overflow]
      refine ⟨rfl, ?_⟩
      rw [List.length_map, List.length_range]
      rfl

theorem diskSteamerRead_ok {device : BlockDevice} (ok : NeverFails device) (pos total : Int) :
    (diskSteamerRead device pos total).res = 0 ∧ (diskSteamerRead device pos total).out.length = total.toNat := by
  by_cases some : 0 ≤ total
  · obtain ⟨n, rfl⟩ := Int.eq_ofNat_of_zero_le some
    exact diskSteamerRead_length ok pos n
  · have small := Int.tmod_lt_of_pos pos (show (0 : Int) < peachosSectorSize by decide)
    refine ⟨?_, ?_⟩
    · rw [diskSteamerRead]
      dsimp only
      rw [ok, if_neg (by decide), dif_neg (by omega)]
    · rw [diskSteamerRead_empty device pos (by omega)]
      simp only [List.length_nil]
      omega

/-- Bytes are read one after the other as long as the cluster of each is found. -/
inductive ReadStops (cluster : Nat → Int) (total : Nat) (res : Int) (written : Nat) : Prop
  | done (ok : res = 0) (all : written = total) (found : ∀ j < total, 0 ≤ cluster j)
  | lost (failed : res < 0) (inside : written < total) (missing : cluster written < 0)
    (found : ∀ j < written, 0 ≤ cluster j)

section

variable {cluster : Nat → Int} {a b written : Nat} {res : Int}

theorem ReadStops.append (found : ∀ j < a, 0 ≤ cluster j) (rest : ReadStops (fun j => cluster (a + j)) b res written) :
    ReadStops cluster (a + b) res (a + written) := by
  have later (n : Nat) (found' : ∀ j < n, 0 ≤ cluster (a + j)) (j : Nat) (hj : j < a + n) : 0 ≤ cluster j := by
    by_cases first : j < a
    · exact found j first
    · obtain ⟨k, rfl⟩ := Nat.exists_eq_add_of_le (Nat.le_of_not_lt first)
      exact found' k (by omega)
  cases rest with
  | done ok all found' => exact .done ok (by omega) (later b found')
  | lost failed inside missing found' => exact .lost failed (by omega) missing (later written found')

theorem ReadStops.congr {cluster' : Nat → Int} (stops : ReadStops cluster a res written) (same : ∀ j < a, cluster j = cluster' j) :
    ReadStops cluster' a res written := by
  cases stops with
  | done ok all found => exact .done ok all fun j hj => same j hj ▸ found j hj
  | lost failed inside missing found =>
    exact .lost failed inside (same written inside ▸ missing) fun j hj => same j (hj.trans inside) ▸ found j hj

theorem ReadStops.extend (stops : ReadStops cluster a res written) (failed : res < 0) (b : Nat) :
    ReadStops cluster (a + b) res written := by
  cases stops with
  | done ok all found => omega
  | lost _ inside missing found => exact .lost failed (by omega) missing found

/-- Where the reading stops is not behind any byte that is not found. -/
theorem ReadStops.written_le (stops : ReadStops cluster a res written) {j : Nat} (hj : j < a) (missing : cluster j < 0) :
    written ≤ j ∧ res < 0 := by
  cases stops with
  | done ok all found =>
    have := found j hj
    omega
  | lost failed inside _ found =>
    refine ⟨Nat.le_of_not_lt fun before => ?_, failed⟩
    have := found j before
    omega

end

section

variable {device : BlockDevice} {p : FatPrivate} {start : Int}

/-- The cluster the code looks up for chunk `c` of a read from `offset` on. -/
def chunkCluster (device : BlockDevice) (p : FatPrivate) (start offset : Int) (c : Nat) : Int :=
  clusterFor device p start (int32 (offset + (c * p.clusterSize : Nat)))

theorem chunkCluster_next (offset : Int) (c : Nat) :
    chunkCluster device p start (int32 (offset + (p.clusterSize : Nat))) c = chunkCluster device p start offset (c + 1) := by
  have same : int32 (int32 (offset + (p.clusterSize : Nat)) + (c * p.clusterSize : Nat)) =
      int32 (offset + ((c + 1) * p.clusterSize : Nat)) := by
    have moved := (int32_modEq (offset + (p.clusterSize : Nat))).add_right ((c * p.clusterSize : Nat) : Int)
    have sum : offset + (p.clusterSize : Nat) + (c * p.clusterSize : Nat) = offset + ((c + 1) * p.clusterSize : Nat) := by
      rw [Nat.succ_mul]
      omega
    rw [sum] at moved
    exact Int.bmod_eq_bmod_iff_bmod_sub_eq_zero.mpr (Int.dvd_iff_bmod_eq_zero.mp moved.symm.dvd)
  unfold chunkCluster
  rw [same]

theorem chunkCluster_zero {offset : Int} (range : int32 offset = offset) :
    chunkCluster device p start offset 0 = clusterFor device p start offset := by
  unfold chunkCluster
  rw [Nat.zero_mul, Nat.cast_zero, Int.add_zero, range]

/-- How far a read of one item comes. -/
theorem readInternal_stops (ok : NeverFails device) (positive : 0 < p.clusterSize) (stream : UInt32)
    (streams : Streams) (total : Nat) (some : 1 ≤ total) (offset : Int) (range : int32 offset = offset) :
    ∃ res out streams', fat16ReadInternalFromStream device p streams stream start offset total =
        Option.some (res, out, streams') ∧
      ReadStops (fun j => chunkCluster device p start offset (j / p.clusterSize)) total res out.length := by
  induction total using Nat.strongRecOn generalizing offset streams with
  | ind total ih =>
    obtain ⟨streams₁, found⟩ := clusterForOffset_eq device (p := p) (by rw [clusterBytes_eq]; omega)
      streams start offset
    have first : chunkCluster device p start offset 0 = clusterFor device p start offset := chunkCluster_zero range
    rw [readInternal_chunk stream total found]
    by_cases missing : clusterFor device p start offset < 0
    · rw [if_pos missing]
      refine ⟨_, _, _, rfl, .lost missing some ?_ fun j hj => absurd hj (Nat.not_lt_zero j)⟩
      dsimp only [List.length_nil]
      rw [Nat.zero_div, first]
      exact missing
    · rw [if_neg missing]
      generalize hn : min total p.clusterSize = n
      have length : (if (total : Int) > p.clusterBytes then p.clusterBytes else total) = (n : Int) := by
        rw [clusterBytes_eq]
        split <;> omega
      rw [length]
      dsimp only
      generalize int32 (fat16ClusterToSector p (clusterFor device p start offset) * peachosSectorSize +
        offset.tmod p.clusterBytes) = pos
      obtain ⟨res, size⟩ := diskSteamerRead_length ok pos n
      have chunk (j : Nat) (hj : j < n) : 0 ≤ chunkCluster device p start offset (j / p.clusterSize) := by
        rw [Nat.div_eq_of_lt (by omega), first]
        omega
      rw [if_neg (not_not.mpr res)]
      by_cases more : n < total
      · have whole : n = p.clusterSize := by omega
        have left : (total : Int) - (n : Int) = ((total - n : Nat) : Int) := by omega
        rw [if_pos (by omega), left]
        obtain ⟨r, out, streams', run, stops⟩ := ih (total - n) (by omega)
          (update streams₁ stream (diskSteamerRead device pos n).pos) (by omega) (int32 (offset + n)) (int32_int32 _)
        rw [run]
        refine ⟨_, _, _, rfl, ?_⟩
        subst whole
        dsimp only
        rw [List.length_append, size, ← Nat.add_sub_cancel' (Nat.le_of_lt more)]
        apply ReadStops.append chunk
        have shifted (j : Nat) : chunkCluster device p start offset ((p.clusterSize + j) / p.clusterSize) =
            chunkCluster device p start (int32 (offset + (p.clusterSize : Nat))) (j / p.clusterSize) := by
          rw [chunkCluster_next, Nat.add_div_left _ positive]
        simp only [shifted]
        exact stops
      · have all : n = total := by omega
        rw [if_neg (by omega)]
        exact ⟨_, _, _, rfl, .done res (size.trans all) (all ▸ chunk)⟩

/-- A read of a negative number of bytes looks one cluster up. -/
theorem readInternal_negative (ok : NeverFails device) (positive : 0 < p.clusterSize) (stream : UInt32)
    (streams : Streams) {total : Int} (none : total < 0) {offset : Int} (range : int32 offset = offset) :
    ∃ res streams', fat16ReadInternalFromStream device p streams stream start offset total =
        some (res, [], streams') ∧ ReadStops (fun _ => chunkCluster device p start offset 0) 1 res (if res < 0 then 0 else 1) := by
  obtain ⟨streams₁, found⟩ := clusterForOffset_eq device (p := p) (by rw [clusterBytes_eq]; omega)
    streams start offset
  rw [readInternal_chunk stream total found, chunkCluster_zero range]
  by_cases missing : clusterFor device p start offset < 0
  · rw [if_pos missing]
    refine ⟨_, _, rfl, ?_⟩
    rw [if_pos missing]
    exact .lost missing Nat.one_pos missing fun j hj => absurd hj (Nat.not_lt_zero j)
  · rw [if_neg missing, if_neg (show ¬ total > p.clusterBytes by rw [clusterBytes_eq]; omega)]
    dsimp only
    generalize int32 (fat16ClusterToSector p (clusterFor device p start offset) * peachosSectorSize +
      offset.tmod p.clusterBytes) = pos
    obtain ⟨res, _⟩ := diskSteamerRead_ok ok pos total
    have empty := diskSteamerRead_empty device pos (Int.le_of_lt none)
    rw [if_neg (not_not.mpr res), if_neg (by omega), res, empty]
    refine ⟨_, _, rfl, .done rfl rfl fun j _ => ?_⟩
    exact Int.not_lt.mp missing

/-- The items, when an item of `weight` lookups writes `k` bytes for each. -/
theorem readItemsFrom_stops {read : Streams → UInt32 → Option (Int × List UInt8 × Streams)} {size : UInt32}
    {k weight : Nat} {look all : UInt32 → Nat → Int}
    (item : ∀ streams offset, ∃ res out streams' w, read streams offset = some (res, out, streams') ∧
      out.length = k * w ∧ ReadStops (look offset) weight res w)
    (first : ∀ offset, ∀ j < weight, look offset j = all offset j)
    (next : ∀ offset j, all offset (weight + j) = all (offset + size) j) (left : Nat) (streams : Streams)
    (offset : UInt32) :
    ∃ res chunks streams' w, readItemsFrom read size streams offset left = some (res, chunks, streams') ∧
      chunks.flatten.length = k * w ∧ ReadStops (all offset) (left * weight) res w := by
  induction left generalizing streams offset with
  | zero =>
    refine ⟨0, [], streams, 0, rfl, rfl, .done rfl (Nat.zero_mul _).symm fun j hj => ?_⟩
    rw [Nat.zero_mul] at hj
    exact absurd hj (Nat.not_lt_zero j)
  | succ left ih =>
    obtain ⟨res, out, streams₁, w, run, length, stops⟩ := item streams offset
    have stops := stops.congr (first offset)
    have total : (left + 1) * weight = weight + left * weight := by
      rw [Nat.succ_mul, Nat.add_comm]
    rw [readItemsFrom, run, total]
    dsimp only
    by_cases failed : res < 0
    · rw [if_pos failed]
      exact ⟨_, _, _, w, rfl, by simpa using length, stops.extend failed _⟩
    · rw [if_neg failed]
      obtain ⟨res', chunks, streams₂, w', run', length', stops'⟩ := ih streams₁ (offset + size)
      rw [run']
      cases stops with
      | lost failed' _ _ _ => exact absurd failed' failed
      | done _ whole found =>
        refine ⟨_, _, _, weight + w', rfl, ?_, ?_⟩
        · rw [List.flatten_cons, List.length_append, length, length', whole, Nat.mul_add]
        · apply ReadStops.append found
          simp only [next]
          exact stops'

end

/-! ## The request -/

/-- The cluster looked up for byte `j` of a request of items of `size` bytes. -/
def OpenFile.byteCluster (device : BlockDevice) (file : OpenFile) (size : UInt32) (j : Nat) : Int :=
  chunkCluster device file.volume (int32 file.cluster.toNat)
    (int32 (file.pos + .ofNat (j / size.toNat) * size).toNat) (j % size.toNat / file.volume.clusterSize)

/-- The cluster looked up first for item `i`. -/
def OpenFile.itemCluster (device : BlockDevice) (file : OpenFile) (size : UInt32) (i : Nat) : Int :=
  chunkCluster device file.volume (int32 file.cluster.toNat) (int32 (file.pos + .ofNat i * size).toNat) 0

section

variable {device : BlockDevice} {file : OpenFile} {size nmemb : UInt32}

theorem item_next (offset : UInt32) (i : Nat) :
    offset + UInt32.ofNat (1 + i) * size = offset + size + .ofNat i * size := by
  rw [UInt32.ofNat_add]
  have one : UInt32.ofNat 1 = 1 := rfl
  rw [one]
  grind

theorem item_zero (offset : UInt32) : offset + UInt32.ofNat 0 * size = offset := by simp

theorem readFrom_stops (ok : NeverFails device) (positive : 0 < file.volume.clusterSize) (some : size ≠ 0)
    (short : size.toNat < 2 ^ 31) (streams : Streams) :
    ∃ res chunks streams', file.readFrom device streams size nmemb = Option.some (res, chunks, streams') ∧
      ReadStops (file.byteCluster device size) (nmemb.toNat * size.toNat) res chunks.flatten.length := by
  have one : 1 ≤ size.toNat := Nat.pos_of_ne_zero fun zero => some (UInt32.toNat_inj.mp zero)
  have asked : int32 size.toNat = size.toNat := int32_of_range (by omega) (by omega)
  let look (offset : UInt32) (j : Nat) : Int := chunkCluster device file.volume (int32 file.cluster.toNat)
    (int32 offset.toNat) (j / file.volume.clusterSize)
  let all (offset : UInt32) (j : Nat) : Int := chunkCluster device file.volume (int32 file.cluster.toNat)
    (int32 (offset + .ofNat (j / size.toNat) * size).toNat) (j % size.toNat / file.volume.clusterSize)
  have item (streams : Streams) (offset : UInt32) : ∃ res out streams' w, fat16ReadInternal device file.volume streams
      (int32 file.cluster.toNat) (int32 offset.toNat) (int32 size.toNat) = Option.some (res, out, streams') ∧
      out.length = 1 * w ∧ ReadStops (look offset) size.toNat res w := by
    obtain ⟨res, out, streams', run, stops⟩ := @readInternal_stops device file.volume (int32 file.cluster.toNat) ok
      positive file.volume.clusterReadStream streams size.toNat one (int32 offset.toNat) (int32_int32 _)
    rw [asked]
    exact ⟨res, out, streams', out.length, run, (Nat.one_mul _).symm, stops⟩
  have first (offset : UInt32) (j : Nat) (hj : j < size.toNat) : look offset j = all offset j := by
    dsimp only [look, all]
    rw [Nat.div_eq_of_lt hj, Nat.mod_eq_of_lt hj, item_zero]
  have next (offset : UInt32) (j : Nat) : all offset (size.toNat + j) = all (offset + size) j := by
    dsimp only [all]
    rw [Nat.add_div_left _ one, Nat.add_mod_left, Nat.add_comm (j / size.toNat), item_next]
  obtain ⟨res, chunks, streams', w, run, length, stops⟩ :=
    readItemsFrom_stops item first next nmemb.toNat streams file.pos
  rw [Nat.one_mul] at length
  exact ⟨res, chunks, streams', run, length ▸ stops⟩

theorem readFrom_negative (ok : NeverFails device) (positive : 0 < file.volume.clusterSize)
    (long : 2 ^ 31 ≤ size.toNat) (streams : Streams) :
    ∃ res chunks streams' w, file.readFrom device streams size nmemb = some (res, chunks, streams') ∧
      chunks.flatten = [] ∧ ReadStops (file.itemCluster device size) nmemb.toNat res w := by
  have below := size.toNat_lt
  have asked : int32 size.toNat < 0 := by
    unfold int32
    rw [Int.bmod_def]
    omega
  let look (offset : UInt32) (_ : Nat) : Int := chunkCluster device file.volume (int32 file.cluster.toNat)
    (int32 offset.toNat) 0
  let all (offset : UInt32) (i : Nat) : Int := chunkCluster device file.volume (int32 file.cluster.toNat)
    (int32 (offset + .ofNat i * size).toNat) 0
  have item (streams : Streams) (offset : UInt32) : ∃ res out streams' w, fat16ReadInternal device file.volume streams
      (int32 file.cluster.toNat) (int32 offset.toNat) (int32 size.toNat) = some (res, out, streams') ∧
      out.length = 0 * w ∧ ReadStops (look offset) 1 res w := by
    obtain ⟨res, streams', run, stops⟩ := @readInternal_negative device file.volume (int32 file.cluster.toNat) ok
      positive file.volume.clusterReadStream streams (int32 size.toNat) asked (int32 offset.toNat) (int32_int32 _)
    exact ⟨res, [], streams', _, run, (Nat.zero_mul _).symm, stops⟩
  have first (offset : UInt32) (j : Nat) (hj : j < 1) : look offset j = all offset j := by
    obtain rfl : j = 0 := Nat.lt_one_iff.mp hj
    dsimp only [look, all]
    rw [item_zero]
  have next (offset : UInt32) (j : Nat) : all offset (1 + j) = all (offset + size) j := by
    dsimp only [all]
    rw [item_next]
  obtain ⟨res, chunks, streams', w, run, length, stops⟩ :=
    readItemsFrom_stops item first next nmemb.toNat streams file.pos
  rw [Nat.zero_mul] at length
  rw [Nat.mul_one] at stops
  exact ⟨res, chunks, streams', w, run, List.eq_nil_of_length_eq_zero length, stops⟩

theorem readItemsFrom_none {read : Streams → UInt32 → Option (Int × List UInt8 × Streams)}
    (none : ∀ streams offset, read streams offset = .none) {left : Nat} (some : left ≠ 0) (streams : Streams)
    (offset : UInt32) : readItemsFrom read size streams offset left = .none := by
  cases left with
  | zero => exact absurd rfl some
  | succ left => rw [readItemsFrom, none]

/-- Without a cluster size the read divides by zero. -/
theorem readFrom_undivided (zero : file.volume.clusterSize = 0) (some : nmemb ≠ 0) (streams : Streams) :
    file.readFrom device streams size nmemb = none := by
  have missing (streams : Streams) (offset : Int) :
      fat16GetClusterForOffset device file.volume streams (int32 file.cluster.toNat) offset = none := by
    unfold fat16GetClusterForOffset
    rw [if_pos (by rw [clusterBytes_eq, zero]; rfl)]
  have item (streams : Streams) (offset : Int) : fat16ReadInternal device file.volume streams
      (int32 file.cluster.toNat) offset (int32 size.toNat) = none := readInternal_missing _ _ (missing streams offset)
  exact readItemsFrom_none (fun streams offset => item streams _) (fun zero => some (UInt32.toNat_inj.mp zero)) _ _

end

/-- What `fread` promises of its result and of what it writes. -/
structure FreadRight (file : OpenFile) (size nmemb : UInt32) (res : Int) (chunks : List (List UInt8)) : Prop where
  inside : chunks.flatten.length ≤ file.filesize.toNat - file.pos.toNat
  items : res < 0 ∨ res = (chunks.flatten.length / size.toNat : Nat)
  all : res = nmemb.toNat → chunks.flatten.length = size.toNat * nmemb.toNat

/-- The request ends inside the file, or one of its bytes up to the file's end is not found. -/
def EndsInFile (device : BlockDevice) (file : OpenFile) (size nmemb : UInt32) : Prop :=
  file.pos.toNat + size.toNat * nmemb.toNat ≤ file.filesize.toNat ∨
    ∃ j < size.toNat * nmemb.toNat, j ≤ file.filesize.toNat - file.pos.toNat ∧ file.byteCluster device size j < 0

/-- The number of items reads as an error, or the first byte of one is not found. -/
def ItemsFail (device : BlockDevice) (file : OpenFile) (size nmemb : UInt32) : Prop :=
  2 ^ 31 ≤ nmemb.toNat ∨ ∃ i < nmemb.toNat, file.itemCluster device size i < 0

section

variable {H : Type} {device : BlockDevice} {s : Files H} {size nmemb : UInt32} {fd : Int}

theorem int32_count (nmemb : UInt32) :
    nmemb.toNat < 2 ^ 31 ∧ int32 nmemb.toNat = nmemb.toNat ∨ 2 ^ 31 ≤ nmemb.toNat ∧ int32 nmemb.toNat < 0 := by
  have below := nmemb.toNat_lt
  by_cases small : nmemb.toNat < 2 ^ 31
  · exact Or.inl ⟨small, int32_of_range (by omega) (by omega)⟩
  · refine Or.inr ⟨by omega, ?_⟩
    unfold int32
    rw [Int.bmod_def]
    omega

theorem freadRight_short {file : OpenFile} {res : Int} {chunks : List (List UInt8)} (some : size ≠ 0 ∧ nmemb ≠ 0)
    (stops : ReadStops (file.byteCluster device size) (size.toNat * nmemb.toNat) res chunks.flatten.length) :
    FreadRight file size nmemb (if res < 0 then res else int32 nmemb.toNat) chunks ↔
      EndsInFile device file size nmemb := by
  have bytes : 1 ≤ size.toNat := Nat.pos_of_ne_zero fun zero => some.1 (UInt32.toNat_inj.mp zero)
  have count : 1 ≤ nmemb.toNat := Nat.pos_of_ne_zero fun zero => some.2 (UInt32.toNat_inj.mp zero)
  have asked : 1 ≤ size.toNat * nmemb.toNat := Nat.mul_pos bytes count
  constructor
  · intro right
    have inside := right.inside
    cases stops with
    | done ok all found =>
      rw [all] at inside
      exact Or.inl (by omega)
    | lost failed less missing found => exact Or.inr ⟨_, less, inside, missing⟩
  · intro ends
    have inside : chunks.flatten.length ≤ file.filesize.toNat - file.pos.toNat := by
      rcases ends with ends | ⟨j, hj, near, missing⟩
      · cases stops with
        | done ok all found => omega
        | lost failed less missing found => omega
      · exact (stops.written_le hj missing).1.trans near
    cases stops with
    | done ok all found =>
      rw [if_neg (by omega)]
      have whole : size.toNat * nmemb.toNat / size.toNat = nmemb.toNat := Nat.mul_div_cancel_left _ bytes
      refine ⟨inside, ?_, fun _ => all⟩
      rw [all, whole]
      rcases int32_count nmemb with ⟨_, same⟩ | ⟨_, negative⟩
      · exact Or.inr same
      · exact Or.inl negative
    | lost failed less missing found =>
      rw [if_pos failed]
      exact ⟨inside, Or.inl failed, fun equal => by omega⟩

theorem freadRight_long {file : OpenFile} {res : Int} {chunks : List (List UInt8)} {w : Nat} (some : nmemb ≠ 0)
    (empty : chunks.flatten = []) (stops : ReadStops (file.itemCluster device size) nmemb.toNat res w) :
    FreadRight file size nmemb (if res < 0 then res else int32 nmemb.toNat) chunks ↔
      ItemsFail device file size nmemb := by
  have count : 1 ≤ nmemb.toNat := Nat.pos_of_ne_zero fun zero => some (UInt32.toNat_inj.mp zero)
  have none : chunks.flatten.length = 0 := by rw [empty, List.length_nil]
  have result : FreadRight file size nmemb (if res < 0 then res else int32 nmemb.toNat) chunks ↔
      (if res < 0 then res else int32 nmemb.toNat) < 0 := by
    constructor
    · intro right
      have items := right.items
      have all := right.all
      rw [none] at items
      rw [Nat.zero_div] at items
      rcases items with negative | zero
      · exact negative
      · split at zero
        · omega
        · rcases int32_count nmemb with ⟨_, same⟩ | ⟨_, negative⟩
          · omega
          · omega
    · intro negative
      exact ⟨by omega, Or.inl negative, fun equal => by omega⟩
  rw [result]
  constructor
  · intro negative
    cases stops with
    | done ok all found =>
      rw [if_neg (by omega)] at negative
      rcases int32_count nmemb with ⟨_, same⟩ | ⟨large, _⟩
      · omega
      · exact Or.inl large
    | lost failed less missing found => exact Or.inr ⟨w, less, missing⟩
  · rintro (large | ⟨i, hi, missing⟩)
    · split
      · assumption
      · rcases int32_count nmemb with ⟨small, _⟩ | ⟨_, negative⟩
        · omega
        · exact negative
    · have failed := (stops.written_le hi missing).2
      rw [if_pos failed]
      exact failed

/-- What an open file's `fread` returns is what the read of the file does. -/
theorem fread_returns (opened : fileGetDescriptor s fd ≠ 0) (some : size ≠ 0 ∧ nmemb ≠ 0)
    (property : Int → List (List UInt8) → Prop) :
    (∃ res chunks s', fread device s size nmemb fd = Option.some (res, chunks, s') ∧ property res chunks) ↔
      ∃ res chunks streams', (s.openFile fd).readFrom device (fun _ => 0) size nmemb =
        Option.some (res, chunks, streams') ∧ property (if res < 0 then res else int32 nmemb.toNat) chunks := by
  have delivers := fread_delivers device s size nmemb fd
  rw [if_neg (by simp [opened, some]), OpenFile.read] at delivers
  cases run : fread device s size nmemb fd with
  | none =>
    cases run' : (s.openFile fd).readFrom device (fun _ => 0) size nmemb with
    | none => simp
    | some result' => simp [run, run'] at delivers
  | some result =>
    cases run' : (s.openFile fd).readFrom device (fun _ => 0) size nmemb with
    | none => simp [run, run'] at delivers
    | some result' =>
      obtain ⟨res, chunks, s'⟩ := result
      obtain ⟨res', chunks', streams'⟩ := result'
      simp only [run, run', deliveredBy, Option.map_some, Option.some.injEq, Prod.mk.injEq] at delivers
      obtain ⟨rfl, rfl⟩ := delivers
      constructor
      · rintro ⟨_, _, _, same, holds⟩
        cases same
        exact ⟨_, _, _, rfl, holds⟩
      · rintro ⟨_, _, _, same, holds⟩
        cases same
        exact ⟨_, _, _, rfl, holds⟩

/-- **When `fread` keeps its promise.** A request of less than 2^31 bytes an item has
to end inside the file, unless it fails before; a longer one writes nothing, and must fail. -/
theorem fread_right_iff (ok : NeverFails device) (opened : fileGetDescriptor s fd ≠ 0) (some : size ≠ 0 ∧ nmemb ≠ 0) :
    (∃ res chunks s', fread device s size nmemb fd = Option.some (res, chunks, s') ∧
      FreadRight (s.openFile fd) size nmemb res chunks) ↔
    0 < (s.openFile fd).volume.clusterSize ∧
      (size.toNat < 2 ^ 31 → EndsInFile device (s.openFile fd) size nmemb) ∧
      (2 ^ 31 ≤ size.toNat → ItemsFail device (s.openFile fd) size nmemb) := by
  rw [fread_returns opened some]
  by_cases positive : 0 < (s.openFile fd).volume.clusterSize
  · by_cases short : size.toNat < 2 ^ 31
    · obtain ⟨res, chunks, streams', run, stops⟩ := readFrom_stops ok positive some.1 short (fun _ => 0)
      rw [Nat.mul_comm] at stops
      have right := freadRight_short some stops
      rw [run]
      constructor
      · rintro ⟨_, _, _, same, holds⟩
        cases same
        exact ⟨positive, fun _ => right.mp holds, fun long => by omega⟩
      · rintro ⟨-, ends, -⟩
        exact ⟨_, _, _, rfl, right.mpr (ends short)⟩
    · obtain ⟨res, chunks, streams', w, run, empty, stops⟩ :=
        @readFrom_negative device (s.openFile fd) size nmemb ok positive (Nat.le_of_not_lt short) (fun _ => 0)
      have right := freadRight_long some.2 empty stops
      rw [run]
      constructor
      · rintro ⟨_, _, _, same, holds⟩
        cases same
        exact ⟨positive, fun small => absurd small short, fun _ => right.mp holds⟩
      · rintro ⟨-, -, fails⟩
        exact ⟨_, _, _, rfl, right.mpr (fails (by omega))⟩
  · rw [readFrom_undivided (by omega) some.2]
    constructor
    · rintro ⟨_, _, _, same, -⟩
      cases same
    · rintro ⟨some, -⟩
      exact absurd some positive

end

/-! ## A file of two bytes -/

theorem deviceOf_neverFails (disk : Nat → UInt8) : NeverFails (deviceOf disk) := fun _ => rfl

theorem smallFiles_open : smallFiles.openFile 1 = smallFile := smallFiles_file smallFiles.streams

/-- Both bytes. -/
theorem whole_read_right : ∃ res chunks s', fread (deviceOf smallDisk) smallFiles 2 1 1 = some (res, chunks, s') ∧
    FreadRight (smallFiles.openFile 1) 2 1 res chunks := by
  apply (fread_right_iff (deviceOf_neverFails smallDisk) (by decide) ⟨by decide, by decide⟩).mpr
  rw [smallFiles_open]
  exact ⟨by decide, fun _ => Or.inl (by decide), fun long => absurd long (by decide)⟩

/-- **A third byte is read, and counted.** -/
theorem third_byte_read : (∃ s', fread (deviceOf smallDisk) smallFiles 3 1 1 = some (1, [[1, 2, 0]], s')) ∧
    ¬ ∃ res chunks s', fread (deviceOf smallDisk) smallFiles 3 1 1 = some (res, chunks, s') ∧
      FreadRight (smallFiles.openFile 1) 3 1 res chunks := by
  have bytes : diskBytes smallDisk 8192 3 = [1, 2, 0] := by decide
  obtain ⟨streams, run⟩ := smallFiles_read smallFiles.streams (show 1 ≤ 3 by decide) (by decide)
  rw [bytes] at run
  have run : fread (deviceOf smallDisk) smallFiles 3 1 1 = some (1, [[1, 2, 0]], smallFiles.setStreams streams) := run
  refine ⟨⟨_, run⟩, ?_⟩
  rintro ⟨res, chunks, s', again, right⟩
  rw [run] at again
  cases again
  have inside := right.inside
  rw [smallFiles_open] at inside
  exact absurd inside (by decide)

end PeachOs
