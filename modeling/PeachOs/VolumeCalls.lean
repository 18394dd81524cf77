import PeachOs.DescriptorRuns
import PeachOs.DirectorySearch

/-!
# Reads on a mounted volume

`fopen` reads clusters when it loads a subdirectory, `fread` when it reads a file. Both
divide by the cluster size, which is whatever the boot sector says.
-/

namespace PeachOs

open Function (update)

variable {H : Type} {A : Allocator H} {device : BlockDevice}

/-- The arguments of `fat16_read_internal`, with the volume and the streams. -/
structure ReadCall where
  volume : FatPrivate
  streams : Streams
  cluster : Int
  offset : Int
  total : Int

/-- Nothing is divided by zero, and the recursion ends. -/
def ReadCall.Returns (device : BlockDevice) (c : ReadCall) : Prop :=
  fat16ReadInternal device c.volume c.streams c.cluster c.offset c.total ≠ none

/-! ## What comes to a read -/

/-- The load of a subdirectory's entry gets its memory, its count ends, and it reads. -/
inductive LoadReads (A : Allocator H) (device : BlockDevice) (s : Fs H) (array : UInt32) (i : Nat) : ReadCall → Prop
  | directory {q item : UInt32} {s₁ s₂ : Fs H} {totalItems cluster : Int} {streams : Streams}
      (subdirectory : itemAttribute (s.entry array i) = fatFileSubdirectory)
      (first : int32 (fat16GetFirstCluster (s.entry array i)).toNat = cluster)
      (block : s.kZalloc A sizeofFatDirectory = (q, s₁)) (nonzero : q ≠ 0)
      (count : fat16GetTotalItemsForDirectory device s₁.private s₁.streams (fat16ClusterToSector s₁.private cluster) =
        some (totalItems, streams))
      (image : ({ s₁ with streams } : Fs H).newItems A (.ofInt (int32 (totalItems * sizeofFatDirectoryItem))) = (item, s₂))
      (pointer : item ≠ 0) :
      LoadReads A device s array i ⟨s₂.private, s₂.streams, cluster, 0, int32 (totalItems * sizeofFatDirectoryItem)⟩

/-- An item gets its memory, and its entry has the subdirectory's bit. -/
inductive NewItemReads (A : Allocator H) (device : BlockDevice) (s : Fs H) (array : UInt32) (i : Nat) : ReadCall → Prop
  | load {f : UInt32} {s₁ : Fs H} {c : ReadCall} (block : s.kZalloc A sizeofFatItem = (f, s₁)) (nonzero : f ≠ 0)
      (directory : itemAttribute (s₁.entry array i) &&& fatFileSubdirectory ≠ 0) (read : LoadReads A device s₁ array i c) :
      NewItemReads A device s array i c

/-- The search of a directory comes to an entry of the name that is loaded. -/
inductive SearchReads (A : Allocator H) (device : BlockDevice) (array : UInt32) (name : Nat → UInt8) :
    Fs H → (left i : Nat) → ReadCall → Prop
  | here {s : Fs H} {left i : Nat} {c : ReadCall} {w : List UInt8} (pointer : array ≠ 0)
      (decoded : fat16GetFullFilenameWithExtension (s.entry array i) peachosMaxPathLength = some w)
      (same : istrncmp (w.getD · 0) name peachosMaxPathLength = 0) (read : NewItemReads A device s array i c) :
      SearchReads A device array name s (left + 1) i c
  | made {s s' : Fs H} {left i : Nat} {c : ReadCall} {w : List UInt8} {f : UInt32} (pointer : array ≠ 0)
      (decoded : fat16GetFullFilenameWithExtension (s.entry array i) peachosMaxPathLength = some w)
      (same : istrncmp (w.getD · 0) name peachosMaxPathLength = 0)
      (made : fat16NewFatItemForDirectoryItem A device s array i = some (f, s'))
      (later : SearchReads A device array name s' left (i + 1) c) : SearchReads A device array name s (left + 1) i c
  | other {s : Fs H} {left i : Nat} {c : ReadCall} {w : List UInt8} (pointer : array ≠ 0)
      (decoded : fat16GetFullFilenameWithExtension (s.entry array i) peachosMaxPathLength = some w)
      (ne : istrncmp (w.getD · 0) name peachosMaxPathLength ≠ 0)
      (later : SearchReads A device array name s left (i + 1) c) : SearchReads A device array name s (left + 1) i c

/-- `fopen` gets as far as the search of the root directory. No other is searched,
since an item is never a directory's (`getDirectoryEntry_eq`). -/
inductive OpenReads (A : Allocator H) (device : BlockDevice) (s : Files H) (filename modeStr : List UInt8) : ReadCall → Prop
  | search {root p : UInt32} {paths : Paths H} {s₁ : Fs H} {c : ReadCall}
      (parsed : pathparserParse A s.toPaths filename = some (root, paths))
      (passes : Passes (s.setPaths paths) root modeStr) (mode : fileGetModeByString modeStr = fileModeRead)
      (block : (s.setPaths paths).toFs.kZalloc A sizeofFatFileDescriptor = (p, s₁)) (nonzero : p ≠ 0)
      (read : SearchReads A device s₁.private.rootDirectory.item
        (s₁.strings (s₁.parts ((s.setPaths paths).roots root).first).part) s₁
        (UInt32.ofInt s₁.private.rootDirectory.total).toNat 0 c) :
      OpenReads A device s filename modeStr c

/-- The streams and the offset with which an item is read, when those before it were. -/
inductive ItemReads (read : Streams → UInt32 → Option (Int × List UInt8 × Streams)) (size : UInt32) :
    Streams → UInt32 → (left : Nat) → Streams → UInt32 → Prop
  | first (streams : Streams) (offset : UInt32) (left : Nat) : ItemReads read size streams offset (left + 1) streams offset
  | later {streams streams' t : Streams} {offset place : UInt32} {left : Nat} {res : Int} {out : List UInt8}
      (done : read streams offset = some (res, out, streams')) (ok : ¬ res < 0)
      (later : ItemReads read size streams' (offset + size) left t place) :
      ItemReads read size streams offset (left + 1) t place

/-- `fread` reads the items of an open file. -/
inductive FreadReads (device : BlockDevice) (s : Files H) (size nmemb : UInt32) (fd : Int) : ReadCall → Prop
  | item {streams : Streams} {offset : UInt32} (asked : ¬ (size = 0 ∨ nmemb = 0 ∨ fd < 1))
      (open' : fileGetDescriptor s fd ≠ 0)
      (item : ItemReads (fun streams offset => fat16ReadInternal device (s.openFile fd).volume streams
        (int32 (s.openFile fd).cluster.toNat) (int32 offset.toNat) (int32 size.toNat)) size s.streams (s.openFile fd).pos
        nmemb.toNat streams offset) :
      FreadReads device s size nmemb fd ⟨(s.openFile fd).volume, streams, int32 (s.openFile fd).cluster.toNat,
        int32 offset.toNat, int32 size.toNat⟩

/-- The calls of `fat16_read_internal` that a call of the file layer comes to. -/
def FilesCall.Reads (A : Allocator H) (device : BlockDevice) (s : Files H) : FilesCall → ReadCall → Prop
  | .fopen filename modeStr => OpenReads A device s filename modeStr
  | .fread size nmemb fd => FreadReads device s size nmemb fd
  | _ => fun _ => False

/-- It comes to none. -/
def FilesCall.Idle (A : Allocator H) (device : BlockDevice) (s : Files H) : FilesCall → Prop
  | .fopen filename modeStr => ∀ c, ¬ OpenReads A device s filename modeStr c
  | .fread size nmemb fd => size = 0 ∨ nmemb = 0 ∨ fileGetDescriptor s fd = 0
  | _ => True

section

variable {s s' : Fs H} {array : UInt32} {i left : Nat} {c : ReadCall} {name : Nat → UInt8}

/-! ## They are the model's -/

theorem readInternal_zero {p : FatPrivate} (zero : p.clusterBytes = 0) (device : BlockDevice) (streams : Streams)
    (cluster offset total : Int) : fat16ReadInternal device p streams cluster offset total = none := by
  have missing : fat16GetClusterForOffset device p streams cluster offset = none := if_pos zero
  unfold fat16ReadInternal
  rw [fat16ReadInternalFromStream]
  split
  · rfl
  · rename_i found
    rw [missing] at found
    cases found

/-- The divisor is the cluster size. -/
theorem ReadCall.returns_iff (c : ReadCall) : c.Returns device ↔ c.volume.header.sectorsPerCluster ≠ 0 := by
  have bytes : c.volume.clusterBytes = 0 ↔ c.volume.header.sectorsPerCluster = 0 := by
    have sector : peachosSectorSize = 512 := rfl
    rw [FatPrivate.clusterBytes, sector, ← UInt8.toNat_inj, UInt8.toNat_zero]
    omega
  rw [ne_eq, ← bytes]
  constructor
  · exact fun returns zero => returns (readInternal_zero zero device _ _ _ _)
  · intro nonzero missing
    obtain ⟨r, read⟩ := readInternal_returns nonzero device c.volume.clusterReadStream c.cluster c.total c.offset c.streams
    unfold fat16ReadInternal at missing
    rw [read] at missing
    cases missing

/-- A load whose read does not return does not return. -/
theorem LoadReads.stuck (read : LoadReads A device s array i c) (stuck : ¬ c.Returns device) :
    fat16LoadFatDirectory A device s array i = none := by
  obtain ⟨subdirectory, rfl, block, nonzero, count, image, pointer⟩ := read
  have missing := not_not.mp stuck
  dsimp only at missing
  unfold fat16LoadFatDirectory
  rw [if_neg (not_not.mpr subdirectory), block]
  dsimp only
  rw [if_neg nonzero, count]
  dsimp only
  rw [image]
  dsimp only
  rw [if_neg pointer]
  have same : fat16ReadInternal device _ _ _ 0 _ = none := missing
  simp only [Fs.setDirectory, Fs.private] at same ⊢
  rw [same]

theorem NewItemReads.stuck (read : NewItemReads A device s array i c) (stuck : ¬ c.Returns device) :
    fat16NewFatItemForDirectoryItem A device s array i = none := by
  obtain ⟨block, nonzero, directory, read⟩ := read
  unfold fat16NewFatItemForDirectoryItem
  rw [block]
  dsimp only
  rw [if_neg nonzero, if_pos directory, read.stuck stuck]
  rfl

theorem SearchReads.stuck (read : SearchReads A device array name s left i c) (stuck : ¬ c.Returns device) (f : UInt32) :
    findItemFrom A device s array name f left i = none := by
  induction read generalizing f with
  | here pointer decoded same read =>
    rw [findItemFrom, if_neg pointer, decoded]
    dsimp only
    rw [if_pos same, read.stuck stuck]
  | made pointer decoded same made _ ih =>
    rw [findItemFrom, if_neg pointer, decoded]
    dsimp only
    rw [if_pos same, made]
    exact ih stuck _
  | other pointer decoded ne _ ih =>
    rw [findItemFrom, if_neg pointer, decoded]
    dsimp only
    rw [if_neg ne]
    exact ih stuck f

theorem ItemReads.stuck {read : Streams → UInt32 → Option (Int × List UInt8 × Streams)} {size offset place : UInt32}
    {streams t : Streams} (reads : ItemReads read size streams offset left t place) (stuck : read t place = none) :
    readItemsFrom read size streams offset left = none := by
  induction reads with
  | first => rw [readItemsFrom, stuck]
  | later done ok _ ih =>
    rw [readItemsFrom, done]
    dsimp only
    rw [if_neg ok, ih stuck]

end

section

variable {s s' : Files H} {c : ReadCall} {call : FilesCall}

/-- **A call whose read does not return does not return.** -/
theorem FilesCall.Reads.stuck (reads : call.Reads A device s c) (stuck : ¬ c.Returns device) : call.run A device s = none := by
  cases call with
  | fopen filename modeStr =>
    obtain ⟨parsed, passes, mode, block, nonzero, read⟩ := reads
    refine Option.map_eq_none_iff.mpr (fopen_unanswered parsed passes ?_)
    unfold fat16Open
    rw [if_neg (not_not.mpr mode), block]
    dsimp only
    rw [if_neg nonzero, getDirectoryEntry_eq, fat16FindItemInDirectory, read.stuck stuck]
    rfl
  | fread size nmemb fd =>
    obtain ⟨asked, open', item⟩ := reads
    refine Option.map_eq_none_iff.mpr ?_
    unfold PeachOs.fread
    rw [if_neg asked]
    dsimp only
    rw [if_neg open', fat16Read_eq]
    have missing := not_not.mp stuck
    dsimp only at missing
    have lost := item.stuck missing
    change Option.map _ (Option.map _ (OpenFile.readFrom device (s.openFile fd) s.streams size nmemb)) = none
    unfold OpenFile.readFrom
    rw [lost]
    rfl
  | fclose => exact reads.elim
  | fseek => exact reads.elim
  | fstat => exact reads.elim

/-- `fread` reads unless it refuses. -/
theorem freadReads_iff {size nmemb : UInt32} {fd : Int} :
    (∀ c, ¬ FreadReads device s size nmemb fd c) ↔ size = 0 ∨ nmemb = 0 ∨ fileGetDescriptor s fd = 0 := by
  have closed (low : fd < 1) : fileGetDescriptor s fd = 0 := by
    unfold fileGetDescriptor
    rw [if_pos (Or.inl (by omega))]
  constructor
  · intro idle
    by_contra asked
    rw [not_or, not_or] at asked
    obtain ⟨n, items⟩ : ∃ n, nmemb.toNat = n + 1 :=
      Nat.exists_eq_succ_of_ne_zero fun zero => asked.2.1 (UInt32.toNat_inj.mp zero)
    refine idle _ (@FreadReads.item _ device s size nmemb fd s.streams (s.openFile fd).pos ?_ asked.2.2 ?_)
    · rintro (zero | zero | low)
      · exact asked.1 zero
      · exact asked.2.1 zero
      · exact asked.2.2 (closed low)
    · rw [items]
      exact .first _ _ n
  · rintro refused c ⟨asked, open', _⟩
    obtain zero | zero | missing := refused
    · exact asked (Or.inl zero)
    · exact asked (Or.inr (Or.inl zero))
    · exact open' missing

theorem FilesCall.idle_iff : (∀ c, ¬ call.Reads A device s c) ↔ call.Idle A device s := by
  cases call with
  | fopen => exact Iff.rfl
  | fread => exact freadReads_iff
  | fclose => exact iff_of_true (fun _ => id) trivial
  | fseek => exact iff_of_true (fun _ => id) trivial
  | fstat => exact iff_of_true (fun _ => id) trivial

/-! ## The volume stays -/

theorem LoadReads.volume {s : Fs H} {array : UInt32} {i : Nat} (read : LoadReads A device s array i c) :
    c.volume = s.private := by
  obtain ⟨_, _, block, _, _, image, _⟩ := read
  exact (newItems_requested image).fixed.private.trans (fsKZalloc_requested block).fixed.private

theorem SearchReads.volume {s : Fs H} {array : UInt32} {name : Nat → UInt8} {left i : Nat}
    (read : SearchReads A device array name s left i c) : c.volume = s.private := by
  induction read with
  | here _ _ _ read =>
    obtain ⟨block, _, _, read⟩ := read
    exact read.volume.trans (fsKZalloc_requested block).fixed.private
  | made _ _ _ made _ ih => exact ih.trans (newFatItem_requested made).fixed.private
  | other _ _ _ _ ih => exact ih

/-- What is read is on the mounted volume. -/
theorem FilesCall.Reads.volume (reads : call.Reads A device s c) : c.volume = s.toFs.private := by
  cases call with
  | fopen =>
    obtain ⟨_, _, _, block, _, read⟩ := reads
    exact read.volume.trans (fsKZalloc_requested block).fixed.private
  | fread =>
    cases reads
    rfl
  | fclose => exact reads.elim
  | fseek => exact reads.elim
  | fstat => exact reads.elim

theorem fopenFails_private {root : UInt32} {res : Int} (run : fopenFails A s root = some (res, s')) :
    s'.toFs.private = s.toFs.private := by
  obtain ⟨paths, _, same⟩ := Option.map_eq_some_iff.mp run
  cases same
  rfl

theorem fopen_private {filename modeStr : List UInt8} {res : Int}
    (run : fopen A device s filename modeStr = some (res, s')) : s'.toFs.private = s.toFs.private := by
  obtain ⟨root, paths, _, ways⟩ := fopen_cases run
  cases ways with
  | refused _ freed => exact (fopenFails_private freed).trans rfl
  | unopened _ opened _ freed =>
    exact (fopenFails_private freed).trans (fat16Open_requested opened).fixed.private
  | noDescriptor _ opened _ none freed =>
    refine (fopenFails_private freed).trans (Eq.trans ?_ (fat16Open_requested opened).fixed.private)
    obtain ⟨_, rfl⟩ | ⟨_, _, _, block, rfl⟩ := none
    · rfl
    · exact (fsKZalloc_requested block).fixed.private
  | opened _ opened _ _ _ block =>
    exact (fsKZalloc_requested block).fixed.private.trans (fat16Open_requested opened).fixed.private

theorem kFree_private (s : Fs H) (p : UInt32) : (s.kFree A p).private = s.private := rfl

theorem fat16FatItemFree_private (s : Fs H) (item : UInt32) : (fat16FatItemFree A s item).private = s.private := by
  unfold fat16FatItemFree fat16FreeDirectory
  simp only [kFree_private, apply_ite Fs.private, ite_self]

theorem fclose_private (s : Files H) (fd : Int) : (fclose A s fd).2.toFs.private = s.toFs.private := by
  unfold fclose
  dsimp only
  split
  · rfl
  · exact fat16FatItemFree_private s.toFs _

theorem fseek_private (s : Files H) (fd : Int) (offset whence : UInt32) :
    (fseek s fd offset whence).2.toFs.private = s.toFs.private := by
  rw [fseek_eq]
  split <;> rfl

theorem FilesCall.run_private {result : CallResult} (ran : call.run A device s = some (result, s')) :
    s'.toFs.private = s.toFs.private := by
  cases call with
  | fopen filename modeStr =>
    obtain ⟨⟨res, t⟩, run, same⟩ := Option.map_eq_some_iff.mp ran
    cases same
    exact fopen_private run
  | fclose fd =>
    cases ran
    exact fclose_private s fd
  | fread size nmemb fd =>
    obtain ⟨⟨res, chunks, t⟩, run, same⟩ := Option.map_eq_some_iff.mp ran
    cases same
    obtain ⟨streams, rfl⟩ := fread_streams run
    rfl
  | fseek fd offset whence =>
    cases ran
    exact fseek_private s fd offset whence
  | fstat =>
    cases ran
    rfl

theorem CallsRun.private {allowed : FilesCall → Files H → Prop} {s₀ : Files H} {trace : List (FilesCall × CallResult)}
    (run : CallsRun A device allowed s₀ trace s) : s.toFs.private = s₀.toFs.private := by
  induction run with
  | start => rfl
  | call _ _ ran _ ih => exact (FilesCall.run_private ran).trans ih

end

/-- **Reads on an accepted volume.** After any calls on it, the next call divides
nothing by zero and its reads end exactly when the boot sector has sectors per cluster
or the call does not come to a read. -/
theorem fat16Resolve_reads_iff {s : Fs H} {s₀ t : Files H} {trace : List (FilesCall × CallResult)}
    (mount : fat16Resolve A device s = some (0, s₀.toFs)) (run : CallsRun A device (fun _ _ => True) s₀ trace t)
    (call : FilesCall) : (∀ c, call.Reads A device t c → c.Returns device) ↔
      (bootHeader device).sectorsPerCluster ≠ 0 ∨ call.Idle A device t := by
  have returns {c : ReadCall} (reads : call.Reads A device t c) :
      c.Returns device ↔ (bootHeader device).sectorsPerCluster ≠ 0 := by
    rw [c.returns_iff, reads.volume, run.private, (fat16Resolve_accepted mount).header]
  rw [← FilesCall.idle_iff]
  constructor
  · intro all
    by_cases some : ∃ c, call.Reads A device t c
    · obtain ⟨c, reads⟩ := some
      exact Or.inl ((returns reads).mp (all c reads))
    · exact Or.inr fun c reads => some ⟨c, reads⟩
  · rintro (nonzero | idle) c reads
    · exact (returns reads).mpr nonzero
    · exact absurd reads (idle c)

/-! ## A volume without sectors per cluster -/

/-- The heap became `h`, and the paths are as they were. -/
structure PathsKept (s s' : Fs H) (h : H) : Prop where
  heap : s'.heap = h
  roots : s'.roots = s.roots
  parts : s'.parts = s.parts
  strings : s'.strings = s.strings

section

variable {s s' : Fs H} {p stream : UInt32} {res : Int}

theorem PathsKept.toPaths {h : H} (kept : PathsKept s s' h) : s'.toPaths = { s.toPaths with heap := h } := by
  have shape : s'.toPaths = ⟨s'.heap, s'.roots, s'.parts, s'.strings⟩ := rfl
  rw [shape, kept.heap, kept.roots, kept.parts, kept.strings]

theorem PathsKept.trans {s'' : Fs H} {h h' : H} (one : PathsKept s s' h) (two : PathsKept s' s'' h') : PathsKept s s'' h' :=
  ⟨two.heap, two.roots.trans one.roots, two.parts.trans one.parts, two.strings.trans one.strings⟩

theorem diskSteamerNew_paths (run : diskSteamerNew A s = some (stream, s')) :
    PathsKept s s' (A.malloc s.heap sizeofDiskStream).2 := by
  unfold diskSteamerNew at run
  split at run
  rename_i made
  split at run
  · cases run
  · cases run
    cases made
    exact ⟨rfl, rfl, rfl, rfl⟩

theorem fat16InitPrivate_paths (run : fat16InitPrivate A s p = some s') :
    PathsKept s s' (A.after s.heap (fun _ => sizeofDiskStream) 3) := by
  unfold fat16InitPrivate at run
  obtain ⟨⟨_, s₁⟩, first, run⟩ := Option.bind_eq_some_iff.mp run
  obtain ⟨⟨_, s₂⟩, second, run⟩ := Option.bind_eq_some_iff.mp run
  obtain ⟨⟨_, s₃⟩, third, run⟩ := Option.bind_eq_some_iff.mp run
  cases run
  have one := diskSteamerNew_paths first
  have two := diskSteamerNew_paths second
  have three := diskSteamerNew_paths third
  have all := (one.trans two).trans three
  refine ⟨?_, all.roots, all.parts, all.strings⟩
  show s₃.heap = _
  rw [three.heap, two.heap, one.heap]
  rfl

theorem newItems_paths {bytes item : UInt32} (made : s.newItems A bytes = (item, s')) :
    PathsKept s s' (A.malloc s.heap bytes).2 := by
  have fixed := (newItems_requested made).fixed
  exact ⟨(newItems_request made).2.1, fixed.roots, fixed.parts, fixed.strings⟩

theorem fat16GetRootDirectory_paths (run : fat16GetRootDirectory A device s p = some (res, s')) :
    PathsKept s s' (A.malloc s.heap (.ofInt ((s.privates p).header.roodDirEntries.toNat * sizeofFatDirectoryItem))).2 := by
  unfold fat16GetRootDirectory at run
  dsimp only at run
  split at run
  · cases run
  · rename_i streams _
    rcases made : ({ s with streams } : Fs H).newItems A
      (.ofInt ((s.privates p).header.roodDirEntries.toNat * sizeofFatDirectoryItem)) with ⟨dir, s₁⟩
    have kept := newItems_paths made
    rw [made] at run
    dsimp only at run
    split at run
    · cases run
      exact ⟨kept.heap, kept.roots, kept.parts, kept.strings⟩
    · split at run
      · cases run
        exact ⟨kept.heap, kept.roots, kept.parts, kept.strings⟩
      · cases run
        exact ⟨kept.heap, kept.roots, kept.parts, kept.strings⟩

theorem readVolume_paths (run : readVolume A device s p stream = some (0, s')) (start : s.streams stream = 0) :
    PathsKept s s' (A.malloc s.heap (.ofInt ((bootHeader device).roodDirEntries.toNat * sizeofFatDirectoryItem))).2 ∧
      s'.filesystem = fat16Fs := by
  unfold readVolume at run
  dsimp only at run
  rw [start] at run
  split at run
  · cases run
  · split at run
    · cases run
    · obtain ⟨⟨res, s₁⟩, root, same⟩ := Option.map_eq_some_iff.mp run
      have kept := fat16GetRootDirectory_paths root
      dsimp only at kept
      rw [Function.update_self] at kept
      dsimp only at same
      split at same
      · cases same
      · cases same
        exact ⟨⟨kept.heap, kept.roots, kept.parts, kept.strings⟩, rfl⟩

/-- A mount makes six requests and frees its own stream. -/
theorem fat16Resolve_paths (run : fat16Resolve A device s = some (0, s')) : ∃ stream,
    PathsKept s s' (A.free (A.malloc (A.malloc (A.after (A.malloc s.heap sizeofFatPrivate).2 (fun _ => sizeofDiskStream) 3)
      sizeofDiskStream).2 (.ofInt ((bootHeader device).roodDirEntries.toNat * sizeofFatDirectoryItem))).2 stream) ∧
      s'.filesystem = fat16Fs := by
  unfold fat16Resolve at run
  rcases block : s.kZalloc A sizeofFatPrivate with ⟨p, s₀⟩
  rw [block] at run
  dsimp only at run
  split at run
  · cases run
  · obtain ⟨s₁, init, run⟩ := Option.bind_eq_some_iff.mp run
    obtain ⟨⟨stream, s₂⟩, opened, run⟩ := Option.bind_eq_some_iff.mp run
    obtain ⟨⟨res, s₃⟩, read, run⟩ := Option.bind_eq_some_iff.mp run
    cases run
    obtain ⟨start, -⟩ := diskSteamerNew_done opened
    obtain ⟨volume, filesystem⟩ := readVolume_paths read start
    have first : PathsKept s s₀ (A.malloc s.heap sizeofFatPrivate).2 := by
      cases block
      exact ⟨rfl, rfl, rfl, rfl⟩
    have private' := fat16InitPrivate_paths init
    have own := diskSteamerNew_paths opened
    have all := ((first.trans private').trans own).trans volume
    refine ⟨stream, ⟨?_, all.roots, all.parts, all.strings⟩, filesystem⟩
    show A.free s₃.heap stream = _
    rw [volume.heap, own.heap, private'.heap, first.heap]

end

/-- `fs_init`, and then the mount. -/
def mountedFiles (fs : Fs H) : Files H := { fs with descriptors := fun _ => ⟨0, 0⟩, fileDescriptors := fun _ => 0 }

/-- The disk with the subdirectory `A` in its root directory, with one entry in cluster 2. -/
def flatDisk (sectorsPerCluster : UInt8) (x : Nat) : UInt8 :=
  if x = 13 then sectorsPerCluster else if x = 1024 then 0x41 else listDisk 0x41 0 0x10 x

section

variable (n : UInt8)

theorem flatDisk_root {j : Nat} (inside : j < 32) : flatDisk n (512 + j) = listContent 0x41 0 0x10 j := by
  unfold flatDisk
  rw [if_neg (by omega), if_neg (by omega)]
  rfl

theorem flatDisk_header : bootHeader (deviceOf (flatDisk n)) = ⟨n, 1, 0, 4, 0⟩ := by
  rw [bootHeader_disk (deviceOf_delivers _)]
  simp [fatHeaderOf, diskBytes, flatDisk, listDisk]

theorem flatDisk_place : rootDirPos (bootHeader (deviceOf (flatDisk n))) = (512 : Nat) := by
  rw [flatDisk_header]
  show rootDirPos ⟨0, 1, 0, 4, 0⟩ = (512 : Nat)
  decide

theorem flatDisk_ends : EndsAt (deviceOf (flatDisk n)) (512 : Nat) 1 ∧ EndsAt (deviceOf (flatDisk n)) (1024 : Nat) 1 ∧
    liveEntries (deviceOf (flatDisk n)) (512 : Nat) 1 = 1 ∧ liveEntries (deviceOf (flatDisk n)) (1024 : Nat) 1 = 1 := by
  have one (pos : Nat) (small : pos + 64 < 2 ^ 31) (first : flatDisk n pos = 0x41) (last : flatDisk n (pos + 32) = 0) :
      EndsAt (deviceOf (flatDisk n)) pos 1 ∧ liveEntries (deviceOf (flatDisk n)) pos 1 = 1 := by
    constructor
    · apply endsAt_disk (deviceOf_delivers _) small
      · intro k below
        rw [Nat.lt_one_iff.mp below, Nat.mul_zero, Nat.add_zero, first]
        decide
      · exact last
    · rw [liveEntries_disk (deviceOf_delivers _) (by omega)]
      simp [first]
  obtain ⟨root, live⟩ := one 512 (by decide) rfl rfl
  obtain ⟨sub, live'⟩ := one 1024 (by decide) rfl rfl
  exact ⟨root, sub, live, live'⟩

/-- The mounted volume, with six blocks in use. -/
theorem flatDisk_mounted : ∃ fs : Fs Nat,
    fat16Resolve freshHeap (deviceOf (flatDisk n)) (noteFiles 0 0).toFs = some (0, fs) ∧
      fs.toPaths = { (noteFiles 0 0).toPaths with heap := 6 } ∧ fs.filesystem = fat16Fs ∧
      fs.private.header = ⟨n, 1, 0, 4, 0⟩ ∧ fs.private.rootDirectory.item = 0x1005000 ∧
      fs.private.rootDirectory.total = 1 ∧ fs.private.rootDirectory.endingSectorPos = 2 ∧
      ∀ j < 32, fs.items 0x1005000 j = listContent 0x41 0 0x10 j := by
  have signature : (diskSteamerRead (deviceOf (flatDisk n)) 0 sizeofFatH).out.getD 38 0 = fat16Signature :=
    signature_disk (deviceOf_delivers _)
  have header := flatDisk_header n
  have ends : EndsAt (deviceOf (flatDisk n)) (rootDirPos (bootHeader (deviceOf (flatDisk n)))) 1 := by
    rw [flatDisk_place]
    exact (flatDisk_ends n).1
  have nonnull : ∀ i < 6, freshHeap.pointer (noteFiles 0 0).toFs.heap
      (mountRequests (bootHeader (deviceOf (flatDisk n)))) i ≠ 0 := by
    rw [header]
    show ∀ i < 6, freshHeap.pointer 0 (mountRequests ⟨0, 1, 0, 4, 0⟩) i ≠ 0
    decide
  obtain ⟨fs, mount, item⟩ := fat16Resolve_accepts (deviceOf_neverFails _) (noteFiles 0 0).toFs nonnull signature ends
  obtain ⟨mounted, stored⟩ := fat16Resolve_done mount
  obtain ⟨stream, kept, filesystem⟩ := fat16Resolve_paths mount
  have place : fs.private.rootDirectory.item = 0x1005000 := by
    rw [item, header]
    show freshHeap.pointer 0 (mountRequests ⟨0, 1, 0, 4, 0⟩) 5 = _
    decide
  have own : fs.private.header = ⟨n, 1, 0, 4, 0⟩ := mounted.header.trans header
  refine ⟨fs, mount, ?_, filesystem, own, place, ?_, ?_, fun j inside => ?_⟩
  · have six : (freshHeap.malloc (freshHeap.malloc (freshHeap.after (freshHeap.malloc 0 sizeofFatPrivate).2
        (fun _ => sizeofDiskStream) 3) sizeofDiskStream).2 (.ofInt ((4 : UInt16).toNat * sizeofFatDirectoryItem))).2 = 6 := by
      decide
    rw [header] at kept
    rw [kept.toPaths, ← six]
    rfl
  · rw [mounted.total_ends (n := 1) (by rw [mounted.header]; exact ends), mounted.header, flatDisk_place, (flatDisk_ends n).2.2.1]
    rfl
  · rw [mounted.ending, own]
    show rootDirEnd ⟨0, 1, 0, 4, 0⟩ = 2
    decide
  · obtain ⟨mem, bytes⟩ := stored.bytes
    rw [place, mounted.header, flatDisk_place, header] at bytes
    have out := (diskSteamerRead_delivers (deviceOf_delivers (flatDisk n)) 512 128 (by decide)).2.1
    change (diskSteamerRead (deviceOf (flatDisk n)) ((512 : Nat) : Int) (128 : Nat)).out = _ at out
    rw [bytes, ← flatDisk_root n inside]
    show (diskSteamerRead (deviceOf (flatDisk n)) ((512 : Nat) : Int) (128 : Nat)).out.getD j (mem j) = _
    rw [out]
    simp [diskBytes, List.getD, show j < 128 by omega]

/-- The path to `A` is parsed, and the root directory is searched for it. -/
theorem flatPath_parsed : ∃ root paths, pathparserParse freshHeap { (noteFiles 0 0).toPaths with heap := 6 } notePath =
      some (root, paths) ∧ root ≠ 0 ∧ (paths.roots root).first ≠ 0 ∧ (paths.roots root).driveNo = 0 ∧ paths.heap = 10 ∧
      istrncmp (([0x41] : List UInt8).getD · 0) (paths.strings (paths.parts (paths.roots root).first).part)
        peachosMaxPathLength = 0 := by
  have run : (pathparserParse freshHeap { (noteFiles 0 0).toPaths with heap := 6 } notePath).map (fun r =>
      decide (r.1 ≠ 0 ∧ (r.2.roots r.1).first ≠ 0 ∧ (r.2.roots r.1).driveNo = 0 ∧ r.2.heap = 10 ∧
        istrncmp (([0x41] : List UInt8).getD · 0) (r.2.strings (r.2.parts (r.2.roots r.1).first).part)
          peachosMaxPathLength = 0)) = some true := by
    unfold pathparserParse parsePartsFrom
    decide +kernel
  obtain ⟨⟨root, paths⟩, parsed, results⟩ := Option.map_eq_some_iff.mp run
  exact ⟨root, paths, parsed, of_decide_eq_true results⟩

/-- The subdirectory's entry is loaded, and its cluster is read. -/
theorem flatDisk_loads {s : Fs Nat} {array : UInt32} (header : s.private.header = ⟨n, 1, 0, 4, 0⟩)
    (ending : s.private.rootDirectory.endingSectorPos = 2) (heap : s.heap ≤ 100)
    (bytes : ∀ j < 32, s.entry array 0 j = listContent 0x41 0 0x10 j) :
    ∃ c, LoadReads freshHeap (deviceOf (flatDisk n)) s array 0 c := by
  have cluster : int32 (fat16GetFirstCluster (s.entry array 0)).toNat = 2 := by
    unfold fat16GetFirstCluster le16
    repeat rw [bytes _ (by decide)]
    decide
  have place : fat16ClusterToSector s.private 2 = 2 := by
    rw [fat16ClusterToSector, ending, header]
    simp [int32]
  obtain ⟨streams, count⟩ : ∃ streams, fat16GetTotalItemsForDirectory (deviceOf (flatDisk n)) s.private s.streams
      (fat16ClusterToSector s.private 2) = some (1, streams) := by
    have position : fat16SectorToAbsolute 2 = (1024 : Nat) := by decide
    obtain ⟨_, ends, _, live⟩ := flatDisk_ends n
    rw [place, fat16GetTotalItemsForDirectory, position, totalItems_ends ends, live]
    exact ⟨_, rfl⟩
  rcases image : ({ (s.kZalloc freshHeap sizeofFatDirectory).2 with streams } : Fs Nat).newItems freshHeap
    (.ofInt (int32 (1 * sizeofFatDirectoryItem))) with ⟨item, s₂⟩
  refine ⟨_, .directory (bytes 11 (by decide)) cluster rfl (freshPointer_ne_zero (by omega)) count image ?_⟩
  rw [(newItems_request image).1]
  exact freshPointer_ne_zero (show s.heap + 1 ≤ 25600 by omega)

/-- `fopen` of the subdirectory comes to the read of its cluster. -/
theorem flatDisk_reads {fs : Fs Nat} (paths : fs.toPaths = { (noteFiles 0 0).toPaths with heap := 6 })
    (filesystem : fs.filesystem = fat16Fs) (header : fs.private.header = ⟨n, 1, 0, 4, 0⟩)
    (item : fs.private.rootDirectory.item = 0x1005000) (total : fs.private.rootDirectory.total = 1)
    (ending : fs.private.rootDirectory.endingSectorPos = 2)
    (bytes : ∀ j < 32, fs.items 0x1005000 j = listContent 0x41 0 0x10 j) :
    ∃ c, (FilesCall.fopen notePath [114]).Reads freshHeap (deviceOf (flatDisk n)) (mountedFiles fs) c := by
  obtain ⟨root, parsed, parse, nonzero, first, drive, heap, same⟩ := flatPath_parsed
  rw [← paths] at parse
  have entry (t : Fs Nat) (kept : t.items = fs.items) : ∀ j < 32, t.entry 0x1005000 0 j = listContent 0x41 0 0x10 j := by
    intro j inside
    rw [Fs.entry, kept, Nat.mul_zero, Nat.zero_add]
    exact bytes j inside
  have named : fat16GetFullFilenameWithExtension (fs.entry 0x1005000 0) peachosMaxPathLength = some [0x41] := by
    refine (note_named (entry fs rfl 0 (by decide)) fun j low high => ?_).1
    rw [entry fs rfl j (by omega)]
    simpa using note_spaces (k := 0) (by decide) low high
  have loads (h : Nat) (small : h ≤ 100) : ∃ c, LoadReads freshHeap (deviceOf (flatDisk n))
      { fs with toPaths := { parsed with heap := h } } 0x1005000 0 c :=
    flatDisk_loads n header ending small (entry _ rfl)
  obtain ⟨c, load⟩ := loads (parsed.heap + 2) (by omega)
  have subdirectory : itemAttribute (fs.entry 0x1005000 0) &&& fatFileSubdirectory ≠ 0 := by
    rw [itemAttribute, entry fs rfl 11 (by decide)]
    decide
  refine ⟨c, .search parse ⟨nonzero, first, drive, ?_, by decide⟩ (by decide) rfl
    (freshPointer_ne_zero (show parsed.heap ≤ 25600 by omega)) ?_⟩
  · show fs.filesystem ≠ 0
    rw [filesystem]
    decide
  · show SearchReads freshHeap _ fs.private.rootDirectory.item _ _ (UInt32.ofInt fs.private.rootDirectory.total).toNat 0 c
    rw [item, total]
    exact .here (by decide) named same (.load rfl
      (freshPointer_ne_zero (show parsed.heap + 1 ≤ 25600 by omega)) subdirectory load)

end

/-- With one sector per cluster the reads end. -/
theorem flatDisk_returns : ∃ s₀ : Files Nat,
    fat16Resolve freshHeap (deviceOf (flatDisk 1)) (noteFiles 0 0).toFs = some (0, s₀.toFs) ∧
      (∃ c, (FilesCall.fopen notePath [114]).Reads freshHeap (deviceOf (flatDisk 1)) s₀ c) ∧
      ((∀ c, (FilesCall.fopen notePath [114]).Reads freshHeap (deviceOf (flatDisk 1)) s₀ c →
        c.Returns (deviceOf (flatDisk 1))) ↔ (bootHeader (deviceOf (flatDisk 1))).sectorsPerCluster ≠ 0 ∨
          (FilesCall.fopen notePath [114]).Idle freshHeap (deviceOf (flatDisk 1)) s₀) := by
  obtain ⟨fs, mount, paths, filesystem, header, item, total, ending, bytes⟩ := flatDisk_mounted 1
  refine ⟨mountedFiles fs, mount, flatDisk_reads 1 paths filesystem header item total ending bytes, ?_⟩
  have unopened : (FilesCall.fread 1 1 1).run freshHeap (deviceOf (flatDisk 1)) (mountedFiles fs) =
      some (⟨-einvarg, [], none⟩, mountedFiles fs) := rfl
  exact fat16Resolve_reads_iff mount (CallsRun.start.call (.fread 1 1 1) unopened trivial) (.fopen notePath [114])

/-- **A volume without sectors per cluster is accepted**, and to open its subdirectory
divides by zero. -/
theorem zero_sectors_divide : ∃ s₀ : Files Nat,
    fat16Resolve freshHeap (deviceOf (flatDisk 0)) (noteFiles 0 0).toFs = some (0, s₀.toFs) ∧
      (∃ c, (FilesCall.fopen notePath [114]).Reads freshHeap (deviceOf (flatDisk 0)) s₀ c ∧
        ¬ c.Returns (deviceOf (flatDisk 0))) ∧
      fopen freshHeap (deviceOf (flatDisk 0)) s₀ notePath [114] = none := by
  obtain ⟨fs, mount, paths, filesystem, header, item, total, ending, bytes⟩ := flatDisk_mounted 0
  obtain ⟨c, reads⟩ := flatDisk_reads 0 paths filesystem header item total ending bytes
  have volume : c.volume = fs.private := FilesCall.Reads.volume reads
  have stuck : ¬ c.Returns (deviceOf (flatDisk 0)) := by
    rw [c.returns_iff, volume, header]
    exact not_not.mpr rfl
  exact ⟨mountedFiles fs, mount, ⟨c, reads, stuck⟩, Option.map_eq_none_iff.mp (FilesCall.Reads.stuck reads stuck)⟩

end PeachOs
