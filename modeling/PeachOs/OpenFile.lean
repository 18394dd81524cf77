import PeachOs.File
import PeachOs.ClusterRead

/-!
# Open files

What is read through a descriptor depends on the descriptor's position, its
directory entry and the disk. The positions of the streams do not matter, as
every read sets its own.
-/

namespace PeachOs

open Function (update)

theorem readItemsFrom_streams {read : Streams → UInt32 → Option (Int × List UInt8 × Streams)}
    (same : ∀ offset streams streams', deliveredBy (read streams offset) = deliveredBy (read streams' offset))
    (size offset : UInt32) (left : Nat) (streams streams' : Streams) :
    deliveredBy (readItemsFrom read size streams offset left) =
      deliveredBy (readItemsFrom read size streams' offset left) := by
  induction left generalizing offset streams streams' with
  | zero => rfl
  | succ left ih =>
    have item := same offset streams streams'
    rw [readItemsFrom, readItemsFrom]
    cases run : read streams offset with
    | none =>
      cases run' : read streams' offset with
      | none => rfl
      | some result => simp [run, run'] at item
    | some result =>
      cases run' : read streams' offset with
      | none => simp [run, run'] at item
      | some result' =>
        obtain ⟨res, out, s⟩ := result
        obtain ⟨res', out', s'⟩ := result'
        obtain ⟨rfl, rfl⟩ : res = res' ∧ out = out' := by simpa [run, run'] using item
        dsimp only
        split
        · rfl
        · have later := ih (offset + size) s s'
          revert later
          cases readItemsFrom read size s (offset + size) left <;>
          cases readItemsFrom read size s' (offset + size) left <;> simp +contextual

theorem readItemsFrom_single (read : Streams → UInt32 → Option (Int × List UInt8 × Streams))
    (size offset : UInt32) (streams : Streams) {streams' : Streams} {out : List UInt8}
    (item : read streams offset = some (0, out, streams')) :
    readItemsFrom read size streams offset (1 : UInt32).toNat = some (0, [out], streams') := by
  have one : (1 : UInt32).toNat = 0 + 1 := rfl
  rw [one, readItemsFrom, item]
  rfl

/-- What an operation on a descriptor looks at. -/
structure OpenFile where
  volume : FatPrivate
  type : UInt32
  cluster : UInt32
  filesize : UInt32
  attr : UInt8
  pos : UInt32

namespace OpenFile

/-- The reads of `fat16_read` from any streams. -/
def readFrom (device : BlockDevice) (file : OpenFile) (streams : Streams) (size nmemb : UInt32) :
    Option (Int × List (List UInt8) × Streams) :=
  readItemsFrom (fun streams offset => fat16ReadInternal device file.volume streams (int32 file.cluster.toNat)
    (int32 offset.toNat) (int32 size.toNat)) size streams file.pos nmemb.toNat

def read (device : BlockDevice) (file : OpenFile) (size nmemb : UInt32) : Option (Int × List (List UInt8)) :=
  (deliveredBy (file.readFrom device (fun _ => 0) size nmemb)).map fun (res, chunks) =>
    (if res < 0 then res else int32 nmemb.toNat, chunks)

def seek (file : OpenFile) (offset seekMode : UInt32) : Int × OpenFile :=
  if file.type ≠ fatItemTypeFile then (-einvarg, file)
  else if offset ≥ file.filesize then (-eio, file)
  else if seekMode = seekSet then (0, { file with pos := offset })
  else if seekMode = seekEnd then (-eunimp, file)
  else if seekMode = seekCur then (0, { file with pos := file.pos + offset })
  else (-einvarg, file)

def stat (file : OpenFile) : Int × Option FileStat :=
  if file.type ≠ fatItemTypeFile then (-einvarg, none)
  else (0, some ⟨if file.attr &&& fatFileReadOnly ≠ 0 then fileStatReadOnly else 0, file.filesize⟩)

theorem readFrom_streams (device : BlockDevice) (file : OpenFile) (streams streams' : Streams)
    (size nmemb : UInt32) :
    deliveredBy (file.readFrom device streams size nmemb) =
      deliveredBy (file.readFrom device streams' size nmemb) :=
  readItemsFrom_streams (fun _ => readInternalFromStream_streams _ _ _ _) size file.pos nmemb.toNat streams streams'

end OpenFile

section

variable {H : Type} (device : BlockDevice) (s : Fs H) (descriptor : UInt32)

def Fs.openFile : OpenFile where
  volume := s.private
  type := (s.fatItems (s.fatDescriptors descriptor).item).type
  cluster := fat16GetFirstCluster (s.entry (s.fatItems (s.fatDescriptors descriptor).item).item 0)
  filesize := itemFilesize (s.entry (s.fatItems (s.fatDescriptors descriptor).item).item 0)
  attr := itemAttribute (s.entry (s.fatItems (s.fatDescriptors descriptor).item).item 0)
  pos := (s.fatDescriptors descriptor).pos

/-- `fat16_read` is the file's read, and changes the streams alone. -/
theorem fat16Read_eq (size nmemb : UInt32) :
    fat16Read device s descriptor size nmemb =
      ((s.openFile descriptor).readFrom device s.streams size nmemb).map fun (res, chunks, streams) =>
        (if res < 0 then res else int32 nmemb.toNat, chunks, { s with streams }) := rfl

theorem fat16Read_delivers (size nmemb : UInt32) :
    deliveredBy ((fat16Read device s descriptor size nmemb).map fun r => (r.1, r.2.1, r.2.2.streams)) =
      (s.openFile descriptor).read device size nmemb := by
  have same := (s.openFile descriptor).readFrom_streams device s.streams (fun _ => 0) size nmemb
  rw [fat16Read_eq, OpenFile.read, ← same]
  generalize (s.openFile descriptor).readFrom device s.streams size nmemb = result
  cases result <;> rfl

def Fs.setPos (pos : UInt32) : Fs H :=
  { s with fatDescriptors := update s.fatDescriptors descriptor { s.fatDescriptors descriptor with pos } }

theorem setPos_self : s.setPos descriptor (s.fatDescriptors descriptor).pos = s := by
  unfold Fs.setPos
  rw [Function.update_eq_self]

/-- `fat16_seek` is the file's seek, and changes the position alone. -/
theorem fat16Seek_eq (offset seekMode : UInt32) :
    fat16Seek s descriptor offset seekMode =
      (((s.openFile descriptor).seek offset seekMode).1,
        s.setPos descriptor ((s.openFile descriptor).seek offset seekMode).2.pos) := by
  have kept : s.setPos descriptor (s.openFile descriptor).pos = s := setPos_self s descriptor
  unfold Fs.openFile at kept ⊢
  unfold fat16Seek OpenFile.seek
  dsimp only at kept ⊢
  by_cases file : (s.fatItems (s.fatDescriptors descriptor).item).type ≠ fatItemTypeFile
  · rw [if_pos file, if_pos file, kept]
  · rw [if_neg file, if_neg file]
    split
    · rw [kept]
    · split
      · rfl
      · split
        · rw [kept]
        · split
          · rfl
          · rw [kept]

theorem openFile_setPos (pos : UInt32) :
    (s.setPos descriptor pos).openFile descriptor = { s.openFile descriptor with pos } := by
  simp only [Fs.openFile, Fs.setPos, Fs.private, Function.update_self]
  rfl

end

/-! ## Through a descriptor number -/

section

variable {H : Type} {device : BlockDevice}

def Files.setStreams (s : Files H) (streams : Streams) : Files H := s.setFs { s.toFs with streams }

def Files.openFile (s : Files H) (fd : Int) : OpenFile :=
  s.toFs.openFile (s.descriptors (fileGetDescriptor s fd)).privateInfo

theorem fread_streams {s s' : Files H} {size nmemb : UInt32} {fd res : Int} {chunks : List (List UInt8)}
    (run : fread device s size nmemb fd = some (res, chunks, s')) :
    ∃ streams, s' = s.setStreams streams := by
  unfold fread at run
  split at run
  · simp only [Option.some.injEq, Prod.mk.injEq] at run
    exact ⟨s.streams, run.2.2.symm⟩
  · dsimp only at run
    split at run
    · simp only [Option.some.injEq, Prod.mk.injEq] at run
      exact ⟨s.streams, run.2.2.symm⟩
    · rw [fat16Read_eq] at run
      generalize OpenFile.readFrom device _ _ _ _ = result at run
      cases result with
      | none => simp at run
      | some result =>
        simp only [Option.map_some, Option.some.injEq, Prod.mk.injEq] at run
        exact ⟨result.2.2, run.2.2.symm⟩

theorem fread_asked {s s' : Files H} {size nmemb : UInt32} {fd res : Int} {chunks : List (List UInt8)}
    (run : fread device s size nmemb fd = some (res, chunks, s')) (ok : ¬ res < 0) : size ≠ 0 ∧ nmemb ≠ 0 := by
  unfold fread at run
  split at run
  · simp only [Option.some.injEq, Prod.mk.injEq] at run
    rw [← run.1] at ok
    exact absurd (by decide) ok
  · rename_i asked
    rw [not_or, not_or] at asked
    exact ⟨asked.1, asked.2.1⟩

/-- What `fread` returns. -/
theorem fread_delivers (device : BlockDevice) (s : Files H) (size nmemb : UInt32) (fd : Int) :
    (fread device s size nmemb fd).map (fun r => (r.1, r.2.1)) =
      if size = 0 ∨ nmemb = 0 ∨ fileGetDescriptor s fd = 0 then some (-einvarg, [])
      else (s.openFile fd).read device size nmemb := by
  have closed : fd < 1 → fileGetDescriptor s fd = 0 := by
    intro low
    unfold fileGetDescriptor
    rw [if_pos (Or.inl (by omega))]
  unfold fread
  dsimp only
  by_cases missing : fileGetDescriptor s fd = 0
  · simp only [missing, if_true, or_true]
    split <;> rfl
  · have number : ¬ fd < 1 := fun low => missing (closed low)
    simp only [missing, number, or_false, if_false]
    split
    · rfl
    · rw [Files.openFile, ← fat16Read_delivers]
      generalize fat16Read device s.toFs _ size nmemb = result
      cases result <;> rfl

theorem fseek_eq (s : Files H) (fd : Int) (offset whence : UInt32) :
    fseek s fd offset whence =
      if fileGetDescriptor s fd = 0 then (-eio, s)
      else (((s.openFile fd).seek offset whence).1,
        s.setFs (s.toFs.setPos (s.descriptors (fileGetDescriptor s fd)).privateInfo
          ((s.openFile fd).seek offset whence).2.pos)) := by
  unfold fseek
  simp only [fat16Seek_eq]
  rfl

theorem fstat_eq (s : Files H) (fd : Int) :
    fstat s fd = if fileGetDescriptor s fd = 0 then (-eio, none) else (s.openFile fd).stat := rfl

/-! ## Reading on -/

/-- Successful reads one after the other, and the bytes they deliver. -/
def readsFrom (device : BlockDevice) (s : Files H) (fd : Int) :
    List (UInt32 × UInt32) → Option (List UInt8 × Files H)
  | [] => some ([], s)
  | (size, nmemb) :: calls =>
    match fread device s size nmemb fd with
    | none => none
    | some (res, chunks, s) =>
      if res < 0 then none
      else (readsFrom device s fd calls).map fun (bytes, s) => (chunks.flatten ++ bytes, s)

def requested (calls : List (UInt32 × UInt32)) : Nat := (calls.map fun call => call.1.toNat * call.2.toNat).sum

/-- The reads delivered what one read of as many bytes delivers, and the position
has moved past them. -/
structure ReadOn (device : BlockDevice) (s : Files H) (fd : Int) (calls : List (UInt32 × UInt32))
    (bytes : List UInt8) (s' : Files H) : Prop where
  bytes : ∀ chunks t, fread device s (.ofNat (requested calls)) 1 fd = some (1, chunks, t) → bytes = chunks.flatten
  moved : (s'.openFile fd).pos.toNat = (s.openFile fd).pos.toNat + requested calls

/-- The bytes of one successful read. -/
def readBytes (device : BlockDevice) (s : Files H) (fd : Int) (call : UInt32 × UInt32) : List UInt8 :=
  match (fread device s call.1 call.2 fd).map (fun r => (r.1, r.2.1)) with
  | none => []
  | some (_, chunks) => chunks.flatten

theorem readBytes_streams (s : Files H) (streams : Streams) (fd : Int) (call : UInt32 × UInt32) :
    readBytes device (s.setStreams streams) fd call = readBytes device s fd call := by
  unfold readBytes
  rw [fread_delivers, fread_delivers]
  rfl

/-- Every read starts at the first one's position. -/
theorem readsFrom_restart {s s' : Files H} {fd : Int} {calls : List (UInt32 × UInt32)} {bytes : List UInt8}
    (run : readsFrom device s fd calls = some (bytes, s')) :
    bytes = calls.flatMap (readBytes device s fd) ∧ (∃ streams, s' = s.setStreams streams) ∧
      ∀ call ∈ calls, call.1 ≠ 0 ∧ call.2 ≠ 0 := by
  induction calls generalizing s bytes with
  | nil =>
    cases run
    exact ⟨rfl, ⟨s'.streams, rfl⟩, fun _ mem => absurd mem List.not_mem_nil⟩
  | cons call calls ih =>
    obtain ⟨size, nmemb⟩ := call
    rw [readsFrom] at run
    cases read : fread device s size nmemb fd with
    | none => simp [read] at run
    | some result =>
      obtain ⟨res, chunks, s₁⟩ := result
      simp only [read] at run
      split at run
      · cases run
      · rename_i ok
        cases later : readsFrom device s₁ fd calls with
        | none => simp [later] at run
        | some rest =>
          obtain ⟨bytes', s₂⟩ := rest
          simp only [later, Option.map_some, Option.some.injEq, Prod.mk.injEq] at run
          obtain ⟨streams, rfl⟩ := fread_streams read
          obtain ⟨rfl, rfl⟩ := run
          obtain ⟨delivered, ⟨streams', same⟩, positive⟩ := ih later
          have first : readBytes device s fd (size, nmemb) = chunks.flatten := by
            rw [readBytes, read]
            rfl
          have asked := fread_asked read ok
          refine ⟨?_, ⟨streams', ?_⟩, ?_⟩
          · rw [delivered, List.flatMap_cons, first]
            congr 2
            funext call
            exact readBytes_streams s streams fd call
          · rw [same]
            rfl
          · intro call mem
            cases List.mem_cons.mp mem with
            | inl here => rw [here]; exact asked
            | inr later => exact positive call later

theorem requested_pos {calls : List (UInt32 × UInt32)} (some : calls ≠ [])
    (asked : ∀ call ∈ calls, call.1 ≠ 0 ∧ call.2 ≠ 0) : 0 < requested calls := by
  cases calls with
  | nil => exact absurd rfl some
  | cons call calls =>
    obtain ⟨size, nmemb⟩ := asked call List.mem_cons_self
    have one : 0 < call.1.toNat * call.2.toNat := by
      apply Nat.mul_pos
      · exact Nat.pos_of_ne_zero fun zero => size (UInt32.toNat_inj.mp zero)
      · exact Nat.pos_of_ne_zero fun zero => nmemb (UInt32.toNat_inj.mp zero)
    simp only [requested, List.map_cons, List.sum_cons]
    omega

/-- **Reads do not go on** from where the last one ended: the position never moves. -/
theorem readOn_iff {s s' : Files H} {fd : Int} {calls : List (UInt32 × UInt32)} {bytes : List UInt8}
    (run : readsFrom device s fd calls = some (bytes, s')) :
    ReadOn device s fd calls bytes s' ↔ calls = [] := by
  obtain ⟨_, ⟨streams, same⟩, asked⟩ := readsFrom_restart run
  constructor
  · intro on
    by_contra some
    have moved := on.moved
    have more := requested_pos some asked
    have stays : (s'.openFile fd).pos = (s.openFile fd).pos := by
      rw [same]
      rfl
    rw [stays] at moved
    omega
  · rintro rfl
    cases run
    constructor
    · intro chunks t read
      exact absurd rfl (fread_asked read (by decide)).1
    · rfl

end

/-! ## Two reads of a byte -/

/-- A file of two bytes that begins at cluster 2. -/
def smallFile : OpenFile where
  volume := splitVolume
  type := fatItemTypeFile
  cluster := 2
  filesize := 2
  attr := 0
  pos := 0

def smallDisk (x : Nat) : UInt8 := if x = 8192 then 1 else if x = 8193 then 2 else 0

theorem smallFile_read (disk : Nat → UInt8) {n : Nat} (some : 1 ≤ n) (fits : n ≤ 512) :
    smallFile.read (deviceOf disk) (.ofNat n) 1 = Option.some (1, [diskBytes disk 8192 n]) := by
  have size : (UInt32.ofNat n).toNat = n := by
    rw [UInt32.toNat_ofNat']
    omega
  have asked : int32 (n : Int) = n := int32_of_range (by omega) (by omega)
  have first : chain (deviceOf disk) splitVolume 2 0 = 2 := by
    unfold chain clusterFor fat16GetClusterForOffset
    rw [if_neg (by decide)]
    rfl
  have place (j : Nat) (hj : j < n) : chunkPos (deviceOf disk) splitVolume 2 0 j = (8192 + j : Nat) := by
    unfold chunkPos
    rw [splitVolume_size, Nat.zero_div, Nat.zero_mod, Nat.div_eq_of_lt (by omega), Nat.mod_eq_of_lt (by omega),
      first, splitVolume_pos.1]
    omega
  have zero : (0 + n - 1) / splitVolume.clusterSize = 0 := by
    rw [splitVolume_size]
    omega
  have readable : ChainReadable (deviceOf disk) splitVolume 2 ((0 + n - 1) / splitVolume.clusterSize) := by
    rw [zero]
    constructor
    · intro i hi
      rw [Nat.le_zero.mp hi, first]
      decide
    · intro i hi
      rw [Nat.le_zero.mp hi, first]
      decide
  obtain ⟨out, streams, run, length, bytes⟩ := readInternal_chunks (deviceOf_delivers disk) (by decide)
    splitVolume.clusterReadStream (fun _ => 0) n some 0 (by omega) readable (fun j hj => by
      rw [place j hj]
      omega)
  have whole : out = diskBytes disk 8192 n := by
    apply List.ext_getElem
    · rw [length, diskBytes_length]
    · intro j hj hj'
      have inside : j < n := length ▸ hj
      have byte := bytes j inside
      rw [place j inside, List.getD_eq_getElem _ _ hj] at byte
      have wanted := diskBytes_getD disk 8192 inside
      rw [List.getD_eq_getElem _ _ hj'] at wanted
      rw [byte, wanted]
      rfl
  have cluster : int32 smallFile.cluster.toNat = 2 := by decide
  have pos : int32 smallFile.pos.toNat = (0 : Nat) := by decide
  have item : fat16ReadInternal (deviceOf disk) smallFile.volume (fun _ => 0) (int32 smallFile.cluster.toNat)
      (int32 smallFile.pos.toNat) (int32 (UInt32.ofNat n).toNat) = Option.some (0, out, streams) := by
    rw [size, asked, cluster, pos]
    exact run
  unfold OpenFile.read OpenFile.readFrom
  rw [readItemsFrom_single (fun streams offset => fat16ReadInternal (deviceOf disk) smallFile.volume streams
    (int32 smallFile.cluster.toNat) (int32 offset.toNat) (int32 (UInt32.ofNat n).toNat)) (.ofNat n) smallFile.pos
    (fun _ => 0) item, whole]
  have count : int32 1 = 1 := by decide
  simp [deliveredBy, count]

/-- The file open as descriptor 1. -/
def smallFiles : Files Nat where
  heap := 0
  roots _ := ⟨0, 0⟩
  parts _ := ⟨0, 0⟩
  strings _ _ := 0
  filesystem := 0x1000
  fsPrivate := 0x2000
  privates _ := splitVolume
  streams _ := 0
  fatItems _ := ⟨0x3000, fatItemTypeFile⟩
  directories _ := ⟨0, 0, 0, 0⟩
  items _ j := if j = 26 ∨ j = 28 then 2 else 0
  fatDescriptors _ := ⟨0x4000, 0⟩
  descriptors _ := ⟨1, 0x5000⟩
  fileDescriptors i := if i = 0 then 0x6000 else 0

theorem smallFiles_file (streams : Streams) : (smallFiles.setStreams streams).openFile 1 = smallFile := by
  have entry : smallFiles.entry 0x3000 0 = fun j => if j = 26 ∨ j = 28 then 2 else 0 := by
    funext j
    simp [Fs.entry, smallFiles]
  have cluster : fat16GetFirstCluster (smallFiles.entry 0x3000 0) = 2 := by
    rw [entry]
    decide
  have filesize : itemFilesize (smallFiles.entry 0x3000 0) = 2 := by
    rw [entry]
    decide
  show OpenFile.mk splitVolume fatItemTypeFile (fat16GetFirstCluster (smallFiles.entry 0x3000 0))
    (itemFilesize (smallFiles.entry 0x3000 0)) 0 0 = smallFile
  rw [cluster, filesize]
  rfl

theorem smallFiles_read (streams : Streams) {n : Nat} (some : 1 ≤ n) (fits : n ≤ 512) :
    ∃ streams', fread (deviceOf smallDisk) (smallFiles.setStreams streams) (.ofNat n) 1 1 =
      Option.some (1, [diskBytes smallDisk 8192 n], smallFiles.setStreams streams') := by
  have size : UInt32.ofNat n ≠ 0 := by
    intro zero
    have := congrArg UInt32.toNat zero
    rw [UInt32.toNat_ofNat'] at this
    simp only [UInt32.toNat_zero] at this
    omega
  have delivers := fread_delivers (deviceOf smallDisk) (smallFiles.setStreams streams) (.ofNat n) 1 1
  have table : fileGetDescriptor (smallFiles.setStreams streams) 1 = 0x6000 := rfl
  rw [smallFiles_file, smallFile_read smallDisk some fits, table, if_neg (by simp [size])] at delivers
  cases run : fread (deviceOf smallDisk) (smallFiles.setStreams streams) (.ofNat n) 1 1 with
  | none => simp [run] at delivers
  | some result =>
    obtain ⟨res, chunks, s'⟩ := result
    obtain ⟨streams', rfl⟩ := fread_streams run
    simp only [run, Option.map_some, Option.some.injEq, Prod.mk.injEq] at delivers
    obtain ⟨rfl, rfl⟩ := delivers
    exact ⟨streams', rfl⟩

theorem smallFiles_run : ∃ s', readsFrom (deviceOf smallDisk) smallFiles 1 [(1, 1), (1, 1)] = some ([1, 1], s') := by
  have byte : diskBytes smallDisk 8192 1 = [1] := by decide
  obtain ⟨streams, first⟩ := smallFiles_read smallFiles.streams (Nat.le_refl 1) (by decide)
  obtain ⟨streams', second⟩ := smallFiles_read streams (Nat.le_refl 1) (by decide)
  rw [byte] at first second
  have first : fread (deviceOf smallDisk) smallFiles 1 1 1 = some (1, [[1]], smallFiles.setStreams streams) := first
  have second : fread (deviceOf smallDisk) (smallFiles.setStreams streams) 1 1 1 =
    some (1, [[1]], smallFiles.setStreams streams') := second
  refine ⟨smallFiles.setStreams streams', ?_⟩
  rw [readsFrom, first]
  dsimp only
  rw [if_neg (by decide), readsFrom, second]
  rfl

theorem two_reads_stay : ∃ s', readsFrom (deviceOf smallDisk) smallFiles 1 [(1, 1), (1, 1)] = some ([1, 1], s') ∧
    (ReadOn (deviceOf smallDisk) smallFiles 1 [(1, 1), (1, 1)] [1, 1] s' ↔
      ([(1, 1), (1, 1)] : List (UInt32 × UInt32)) = []) := by
  obtain ⟨s', run⟩ := smallFiles_run
  exact ⟨s', run, readOn_iff run⟩

/-- Two reads of a byte deliver the first byte twice, where one read of two bytes delivers both. -/
theorem second_read_repeats :
    (∃ s', readsFrom (deviceOf smallDisk) smallFiles 1 [(1, 1), (1, 1)] = some ([1, 1], s') ∧
      ¬ ReadOn (deviceOf smallDisk) smallFiles 1 [(1, 1), (1, 1)] [1, 1] s') ∧
    (∃ s', fread (deviceOf smallDisk) smallFiles 2 1 1 = some (1, [[1, 2]], s')) ∧
    (smallFiles.openFile 1).pos.toNat + 2 ≤ (smallFiles.openFile 1).filesize.toNat := by
  have bytes : diskBytes smallDisk 8192 2 = [1, 2] := by decide
  obtain ⟨streams, both⟩ := smallFiles_read smallFiles.streams (show 1 ≤ 2 by decide) (by decide)
  rw [bytes] at both
  have both : fread (deviceOf smallDisk) smallFiles 2 1 1 = some (1, [[1, 2]], smallFiles.setStreams streams) := both
  obtain ⟨s', run⟩ := smallFiles_run
  refine ⟨⟨s', run, fun on => ?_⟩, ⟨_, both⟩, by decide⟩
  have asked : (UInt32.ofNat (requested [(1, 1), (1, 1)]) : UInt32) = 2 := by decide
  have same := on.bytes [[1, 2]] (smallFiles.setStreams streams) (by rw [asked]; exact both)
  exact absurd same (by decide)

end PeachOs
