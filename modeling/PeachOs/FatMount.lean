import PeachOs.FreadBounds
import PeachOs.TaskCopy

/-!
# Mounting a volume

`fat16_resolve` looks at the signature alone. The root directory's array is as
long as the header says, and the entries are counted until one begins with 0.
-/

namespace PeachOs

open Function (update)

def fat16Signature : UInt8 := 0x29

/-- `sizeof(fat_private)` is that of the pointer. -/
def sizeofFatPrivate : UInt32 := 4
def sizeofDiskStream : UInt32 := 8
def sizeofFatH : Nat := 62

/-- The address of `fat16_fs`. It is only compared with NULL. -/
def fat16Fs : UInt32 := 1

/-- Cleared private data. -/
def FatPrivate.zero : FatPrivate := ⟨⟨0, 0, 0, 0, 0⟩, ⟨0, 0, 0, 0⟩, 0, 0, 0⟩

/-- The header in the first bytes of the disk. -/
def fatHeaderOf (bytes : List UInt8) : FatHeader where
  sectorsPerCluster := bytes.getD 13 0
  reservedSectors := (bytes.getD 14 0).toUInt16 ||| (bytes.getD 15 0).toUInt16 <<< 8
  fatCopies := bytes.getD 16 0
  roodDirEntries := (bytes.getD 17 0).toUInt16 ||| (bytes.getD 18 0).toUInt16 <<< 8
  sectorsPerFat := (bytes.getD 22 0).toUInt16 ||| (bytes.getD 23 0).toUInt16 <<< 8

section

variable {H : Type} (A : Allocator H) (device : BlockDevice)

/-- The new stream's fields are set without a look at the pointer. -/
def diskSteamerNew (s : Fs H) : Option (UInt32 × Fs H) :=
  let (streamer, s) := s.kZalloc A sizeofDiskStream
  if streamer = 0 then none else some (streamer, { s with streams := update s.streams streamer 0 })

def fat16InitPrivate (s : Fs H) (p : UInt32) : Option (Fs H) := do
  let (clusterReadStream, s) ← diskSteamerNew A s
  let (fatReadStream, s) ← diskSteamerNew A s
  let (directoryStream, s) ← diskSteamerNew A s
  some { s with
    fsPrivate := p
    privates := update s.privates p { FatPrivate.zero with clusterReadStream, fatReadStream, directoryStream } }

/-- The steps after the streams are there: the header, its signature, and the root directory. -/
def readVolume (s : Fs H) (p stream : UInt32) : Option (Int × Fs H) :=
  let read := diskSteamerRead device (s.streams stream) sizeofFatH
  let s := { s with
    streams := update s.streams stream read.pos
    privates := update s.privates p { s.privates p with header := fatHeaderOf read.out } }
  if read.res ≠ 0 then some (-eio, s)
  else if read.out.getD 38 0 ≠ fat16Signature then some (-efsnotus, s)
  else (fat16GetRootDirectory A device s p).map fun (res, s) =>
    if res ≠ 0 then (-eio, s) else (0, { s with filesystem := fat16Fs })

def fat16Resolve (s : Fs H) : Option (Int × Fs H) :=
  let (p, s) := s.kZalloc A sizeofFatPrivate
  if p = 0 then none
  else do
    let s ← fat16InitPrivate A s p
    let (stream, s) ← diskSteamerNew A s
    let (res, s) ← readVolume A device s p stream
    let s := if res ≠ 0 then { s.kFree A p with fsPrivate := 0 } else s
    some (res, s.kFree A stream)

end

/-! ## Counting entries -/

section

variable (device : BlockDevice)

/-- Read number `k` of the count that starts at `pos`. -/
def entryRead (pos : Int) : Nat → StreamRead
  | 0 => diskSteamerRead device pos sizeofFatDirectoryItem
  | k + 1 => diskSteamerRead device (entryRead pos k).pos sizeofFatDirectoryItem

def entryByte (pos : Int) (k : Nat) : UInt8 := (entryRead device pos k).out.getD 0 0

/-- Entry `n` is the first that begins with 0, and all up to it can be read. -/
structure EndsAt (pos : Int) (n : Nat) : Prop where
  read : ∀ k ≤ n, (entryRead device pos k).res = 0
  before : ∀ k < n, entryByte device pos k ≠ 0
  last : entryByte device pos n = 0

/-- Entries that are not deleted among the first `n`. -/
def liveEntries (pos : Int) (n : Nat) : Nat := (List.range n).countP fun k => entryByte device pos k ≠ 0xE5

variable {device} {pos : Int} {n : Nat}

theorem entryRead_succ (pos : Int) (k : Nat) :
    entryRead device pos (k + 1) = entryRead device (entryRead device pos 0).pos k := by
  induction k with
  | zero => rfl
  | succ k ih =>
    show diskSteamerRead device (entryRead device pos (k + 1)).pos sizeofFatDirectoryItem = _
    rw [ih]
    rfl

theorem entryByte_succ (pos : Int) (k : Nat) :
    entryByte device pos (k + 1) = entryByte device (entryRead device pos 0).pos k := by
  rw [entryByte, entryRead_succ, entryByte]

theorem liveEntries_succ (pos : Int) (n : Nat) :
    liveEntries device pos (n + 1) = (if entryByte device pos 0 = 0xE5 then 0 else 1) +
      liveEntries device (entryRead device pos 0).pos n := by
  unfold liveEntries
  rw [List.range_succ_eq_map, List.countP_cons, List.countP_map]
  have same : (fun k => decide (entryByte device pos k ≠ 0xE5)) ∘ Nat.succ =
      fun k => decide (entryByte device (entryRead device pos 0).pos k ≠ 0xE5) := by
    funext k
    simp only [Function.comp_apply, Nat.succ_eq_add_one, entryByte_succ]
  rw [same]
  by_cases deleted : entryByte device pos 0 = 0xE5
  · simp [deleted]
  · simp [deleted, Nat.add_comm]

theorem endsAt_succ (pos : Int) (n : Nat) :
    EndsAt device pos (n + 1) ↔ (entryRead device pos 0).res = 0 ∧ entryByte device pos 0 ≠ 0 ∧
      EndsAt device (entryRead device pos 0).pos n := by
  constructor
  · intro ends
    refine ⟨ends.read 0 (Nat.zero_le _), ends.before 0 (Nat.succ_pos n), ?_, ?_, ?_⟩
    · intro k hk
      rw [← entryRead_succ]
      exact ends.read (k + 1) (Nat.succ_le_succ hk)
    · intro k hk
      rw [← entryByte_succ]
      exact ends.before (k + 1) (Nat.succ_lt_succ hk)
    · rw [← entryByte_succ]
      exact ends.last
  · rintro ⟨read, first, ends⟩
    constructor
    · intro k hk
      cases k with
      | zero => exact read
      | succ k =>
        rw [entryRead_succ]
        exact ends.read k (Nat.le_of_succ_le_succ hk)
    · intro k hk
      cases k with
      | zero => exact first
      | succ k =>
        rw [entryByte_succ]
        exact ends.before k (Nat.lt_of_succ_lt_succ hk)
    · rw [entryByte_succ]
      exact ends.last

theorem EndsAt.unique {m : Nat} (ends : EndsAt device pos n) (ends' : EndsAt device pos m) : n = m := by
  apply Nat.le_antisymm
  · by_contra past
    exact ends.before m (Nat.lt_of_not_le past) ends'.last
  · by_contra past
    exact ends'.before n (Nat.lt_of_not_le past) ends.last

/-- With a last entry the count returns. -/
theorem totalItems_ends (ends : EndsAt device pos n) (total : Int) :
    device.totalItemsFrom pos total = some (total + liveEntries device pos n, (entryRead device pos n).pos) := by
  induction n generalizing pos total with
  | zero =>
    have read : (diskSteamerRead device pos sizeofFatDirectoryItem).res = 0 := ends.read 0 (Nat.le_refl 0)
    have last : (diskSteamerRead device pos sizeofFatDirectoryItem).out.getD 0 0 = 0 := ends.last
    rw [BlockDevice.totalItemsFrom, if_neg (not_not.mpr read), last, if_neg (by decide), if_pos rfl]
    simp [liveEntries, entryRead]
  | succ n ih =>
    obtain ⟨read, first, rest⟩ := (endsAt_succ pos n).mp ends
    rw [liveEntries_succ, entryRead_succ, BlockDevice.totalItemsFrom]
    change (diskSteamerRead device pos sizeofFatDirectoryItem).res = 0 at read
    change (diskSteamerRead device pos sizeofFatDirectoryItem).out.getD 0 0 ≠ 0 at first
    rw [if_neg (not_not.mpr read)]
    by_cases deleted : (diskSteamerRead device pos sizeofFatDirectoryItem).out.getD 0 0 = 0xE5
    · have byte : entryByte device pos 0 = 0xE5 := deleted
      rw [if_pos deleted, if_pos byte, Nat.zero_add]
      exact ih rest total
    · have byte : ¬ entryByte device pos 0 = 0xE5 := deleted
      rw [if_neg deleted, if_neg byte, if_neg first]
      have later := ih rest (total + 1)
      rw [Nat.cast_add, Nat.cast_one, ← Int.add_assoc]
      exact later

/-- When the count returns, it met a last entry or failed on the way. -/
theorem totalItems_result {total : Int} {r : Int × Int} (run : device.totalItemsFrom pos total = some r) :
    (∃ n, EndsAt device pos n) ∨ (r.1 = -eio ∧ ∀ n, ¬ EndsAt device pos n) := by
  refine BlockDevice.totalItemsFrom.partial_correctness device
    (fun pos _ r => (∃ n, EndsAt device pos n) ∨ (r.1 = -eio ∧ ∀ n, ¬ EndsAt device pos n)) ?_ pos total r run
  intro rec ih pos total r step
  dsimp only at step
  have later (open' : entryByte device pos 0 ≠ 0) (read : (entryRead device pos 0).res = 0)
      (rest : (∃ n, EndsAt device (entryRead device pos 0).pos n) ∨
        (r.1 = -eio ∧ ∀ n, ¬ EndsAt device (entryRead device pos 0).pos n)) :
      (∃ n, EndsAt device pos n) ∨ (r.1 = -eio ∧ ∀ n, ¬ EndsAt device pos n) := by
    cases rest with
    | inl found =>
      obtain ⟨n, ends⟩ := found
      exact Or.inl ⟨n + 1, (endsAt_succ pos n).mpr ⟨read, open', ends⟩⟩
    | inr failed =>
      refine Or.inr ⟨failed.1, fun n ends => ?_⟩
      cases n with
      | zero => exact open' ends.last
      | succ n => exact failed.2 n ((endsAt_succ pos n).mp ends).2.2
  by_cases read : (entryRead device pos 0).res = 0
  · change (diskSteamerRead device pos sizeofFatDirectoryItem).res = 0 at read
    rw [if_neg (not_not.mpr read)] at step
    by_cases deleted : (diskSteamerRead device pos sizeofFatDirectoryItem).out.getD 0 0 = 0xE5
    · rw [if_pos deleted] at step
      apply later _ read (ih _ _ _ step)
      rw [entryByte, entryRead, deleted]
      decide
    · rw [if_neg deleted] at step
      by_cases last : (diskSteamerRead device pos sizeofFatDirectoryItem).out.getD 0 0 = 0
      · left
        refine ⟨0, ?_, ?_, last⟩
        · intro k hk
          rw [Nat.le_zero.mp hk]
          exact read
        · intro k hk
          exact absurd hk (Nat.not_lt_zero k)
      · rw [if_neg last] at step
        exact later last read (ih _ _ _ step)
  · change ¬ (diskSteamerRead device pos sizeofFatDirectoryItem).res = 0 at read
    rw [if_pos read] at step
    cases step
    right
    constructor
    · rfl
    · intro n ends
      exact read (ends.read 0 (Nat.zero_le n))

end

/-! ## What is mounted -/

/-- The header in the boot sector. -/
def bootHeader (device : BlockDevice) : FatHeader := fatHeaderOf (diskSteamerRead device 0 sizeofFatH).out

/-- Where the root directory begins. -/
def rootDirPos (header : FatHeader) : Int := fat16SectorToAbsolute (rootDirSectorPos header)

/-- The first sector after the root directory. -/
def rootDirEnd (header : FatHeader) : Int :=
  rootDirSectorPos header + (header.roodDirEntries.toNat * 32 + 511) / 512

/-- What is known of the private data of an accepted volume: it has the header of
the boot sector, and the entries were counted from the sector after the FATs on. -/
structure Mounted (device : BlockDevice) (p : FatPrivate) : Prop where
  header : p.header = bootHeader device
  ending : p.rootDirectory.endingSectorPos = rootDirEnd p.header
  count : ∃ after, device.totalItemsFrom (rootDirPos p.header) 0 = some (p.rootDirectory.total, after)

/-- The root directory's array begins with what is read from its first sector on. -/
structure RootStored {H : Type} (device : BlockDevice) (s : Fs H) (p : FatPrivate) : Prop where
  nonnull : p.rootDirectory.item ≠ 0
  bytes : ∃ mem, s.items p.rootDirectory.item = written (diskSteamerRead device (rootDirPos p.header)
    (p.header.roodDirEntries.toNat * sizeofFatDirectoryItem)).out mem

section

variable {H : Type} {A : Allocator H} {device : BlockDevice}

theorem diskSteamerNew_done {s s' : Fs H} {stream : UInt32} (run : diskSteamerNew A s = some (stream, s')) :
    s'.streams stream = 0 ∧ s'.fsPrivate = s.fsPrivate := by
  unfold diskSteamerNew at run
  split at run
  rename_i made
  split at run
  · cases run
  · cases run
    cases made
    exact ⟨Function.update_self .., rfl⟩

theorem fat16InitPrivate_done {s s' : Fs H} {p : UInt32} (run : fat16InitPrivate A s p = some s') :
    s'.fsPrivate = p := by
  unfold fat16InitPrivate at run
  obtain ⟨_, _, run⟩ := Option.bind_eq_some_iff.mp run
  obtain ⟨_, _, run⟩ := Option.bind_eq_some_iff.mp run
  obtain ⟨_, _, run⟩ := Option.bind_eq_some_iff.mp run
  cases run
  rfl

theorem newItems_null {s : Fs H} {bytes : UInt32} (null : (A.malloc s.heap bytes).1 = 0) :
    s.newItems A bytes = (0, (s.kZalloc A bytes).2) := by
  have none : (s.kZalloc A bytes).1 = 0 := null
  simp only [Fs.newItems, none, if_true]

theorem newItems_some {s : Fs H} {bytes : UInt32} (nonnull : (A.malloc s.heap bytes).1 ≠ 0) :
    s.newItems A bytes = ((A.malloc s.heap bytes).1, { (s.kZalloc A bytes).2 with
      items := update s.items (A.malloc s.heap bytes).1
        (cleared bytes.toNat (s.items (A.malloc s.heap bytes).1)) }) := by
  have here : (s.kZalloc A bytes).1 ≠ 0 := nonnull
  simp only [Fs.newItems, here, if_false]
  rfl

theorem newItems_frame (s : Fs H) (bytes : UInt32) :
    (s.newItems A bytes).2.privates = s.privates ∧ (s.newItems A bytes).2.fsPrivate = s.fsPrivate := by
  by_cases null : (A.malloc s.heap bytes).1 = 0 <;> simp [Fs.newItems, Fs.kZalloc, null]

theorem totalSectors_eq (n : Nat) :
    (n * sizeofFatDirectoryItem : Int) / peachosSectorSize +
      (if (n * sizeofFatDirectoryItem : Int) % peachosSectorSize ≠ 0 then 1 else 0) = (n * 32 + 511) / 512 := by
  have entry : (sizeofFatDirectoryItem : Int) = 32 := rfl
  have sector : peachosSectorSize = 512 := rfl
  rw [entry, sector]
  split <;> omega

theorem fat16GetRootDirectory_done {s s' : Fs H} {p : UInt32}
    (run : fat16GetRootDirectory A device s p = some (0, s')) (header : (s.privates p).header = bootHeader device) :
    Mounted device (s'.privates p) ∧ RootStored device s' (s'.privates p) ∧ s'.fsPrivate = s.fsPrivate := by
  unfold fat16GetRootDirectory at run
  dsimp only at run
  cases count : fat16GetTotalItemsForDirectory device (s.privates p) s.streams
      (rootDirSectorPos (s.privates p).header) with
  | none => simp [count] at run
  | some result =>
    obtain ⟨totalEntries, streams⟩ := result
    rw [count] at run
    dsimp only at run
    obtain ⟨privates, fsPrivate⟩ := newItems_frame (A := A) { s with streams }
      (.ofInt ((s.privates p).header.roodDirEntries.toNat * sizeofFatDirectoryItem))
    generalize Fs.newItems A { s with streams } _ = made at run privates fsPrivate
    split at run
    · cases run
    · rename_i nonnull
      split at run
      · cases run
      · cases run
        have kept : (made.2.privates p).header = (s.privates p).header :=
          congrArg (fun privates => (privates p).header) privates
        obtain ⟨⟨total, after⟩, counted, same⟩ := Option.map_eq_some_iff.mp count
        cases same
        dsimp only
        rw [Function.update_self]
        refine ⟨⟨kept.trans header, ?_, ?_⟩, ⟨nonnull, ?_⟩, fsPrivate⟩
        · dsimp only
          rw [totalSectors_eq, kept]
          rfl
        · dsimp only
          rw [kept]
          exact ⟨after, counted⟩
        · dsimp only
          rw [Function.update_self, kept]
          exact ⟨_, rfl⟩

theorem readVolume_done {s s' : Fs H} {p stream : UInt32} (run : readVolume A device s p stream = some (0, s'))
    (start : s.streams stream = 0) :
    Mounted device (s'.privates p) ∧ RootStored device s' (s'.privates p) ∧ s'.fsPrivate = s.fsPrivate := by
  unfold readVolume at run
  dsimp only at run
  rw [start] at run
  split at run
  · cases run
  · split at run
    · cases run
    · obtain ⟨⟨res, s₁⟩, root, same⟩ := Option.map_eq_some_iff.mp run
      dsimp only at same
      split at same
      · cases same
      · rename_i ok
        obtain rfl : res = 0 := not_not.mp ok
        cases same
        have done : Mounted device (s₁.privates p) ∧ RootStored device s₁ (s₁.privates p) ∧
            s₁.fsPrivate = s.fsPrivate := by
          apply fat16GetRootDirectory_done root
          dsimp only
          rw [Function.update_self]
          rfl
        obtain ⟨mounted, stored, fsPrivate⟩ := done
        exact ⟨mounted, { stored with }, fsPrivate⟩

/-- Only the private data of volumes with the right signature is kept. -/
theorem fat16Resolve_done {s s' : Fs H} (run : fat16Resolve A device s = some (0, s')) :
    Mounted device s'.private ∧ RootStored device s' s'.private := by
  unfold fat16Resolve at run
  split at run
  rename_i p s₀ _
  split at run
  · cases run
  · obtain ⟨s₁, init, run⟩ := Option.bind_eq_some_iff.mp run
    obtain ⟨⟨stream, s₂⟩, opened, run⟩ := Option.bind_eq_some_iff.mp run
    obtain ⟨⟨res, s₃⟩, read, run⟩ := Option.bind_eq_some_iff.mp run
    cases run
    obtain ⟨start, kept⟩ := diskSteamerNew_done opened
    obtain ⟨mounted, stored, fsPrivate⟩ := readVolume_done read start
    have here : s₃.fsPrivate = p := (fsPrivate.trans kept).trans (fat16InitPrivate_done init)
    rw [← here] at mounted stored
    exact ⟨mounted, { stored with }⟩

theorem fat16Resolve_accepted {s s' : Fs H} (run : fat16Resolve A device s = some (0, s')) :
    Mounted device s'.private := (fat16Resolve_done run).1

end

/-! ## The root directory's count -/

/-- The count is a number of entries of the root directory's array, and every
index that `fat16_find_item_in_directory` counts to it is one of the array. -/
structure RootInside (p : FatPrivate) : Prop where
  total : 0 ≤ p.rootDirectory.total ∧ p.rootDirectory.total ≤ p.header.roodDirEntries.toNat
  index : ∀ i < (UInt32.ofInt p.rootDirectory.total).toNat, i < p.header.roodDirEntries.toNat

/-- From the root directory's first sector on, an entry begins with 0 after no more
live entries than the header says, and everything up to it can be read. -/
def RootFits (device : BlockDevice) (header : FatHeader) : Prop :=
  ∃ n, EndsAt device (rootDirPos header) n ∧
    liveEntries device (rootDirPos header) n ≤ header.roodDirEntries.toNat

theorem Mounted.total_ends {device : BlockDevice} {p : FatPrivate} (mounted : Mounted device p) {n : Nat}
    (ends : EndsAt device (rootDirPos p.header) n) :
    p.rootDirectory.total = (liveEntries device (rootDirPos p.header) n : Nat) := by
  obtain ⟨after, count⟩ := mounted.count
  rw [totalItems_ends ends] at count
  injection count with count
  injection count with total
  omega

theorem Mounted.rootInside_iff {device : BlockDevice} {p : FatPrivate} (mounted : Mounted device p) :
    RootInside p ↔ RootFits device p.header := by
  have entries := p.header.roodDirEntries.toNat_lt
  constructor
  · intro inside
    obtain ⟨after, count⟩ := mounted.count
    rcases totalItems_result count with ⟨n, ends⟩ | ⟨failed, _⟩
    · refine ⟨n, ends, ?_⟩
      have most := inside.total.2
      rw [mounted.total_ends ends] at most
      exact Int.ofNat_le.mp most
    · change p.rootDirectory.total = -eio at failed
      have positive := inside.total.1
      rw [failed] at positive
      exact absurd positive (by decide)
  · rintro ⟨n, ends, fits⟩
    have total := mounted.total_ends ends
    constructor
    · omega
    · intro i hi
      rw [total, Address.ofInt_natCast, UInt32.toNat_ofNat'] at hi
      omega

/-- **The root directory** of an accepted disk is counted inside its array exactly
when the disk has an end mark early enough. -/
theorem fat16Resolve_root_iff {H : Type} {A : Allocator H} {device : BlockDevice} {s s' : Fs H}
    (run : fat16Resolve A device s = some (0, s')) :
    RootInside s'.private ↔ RootFits device (bootHeader device) := by
  have mounted := fat16Resolve_accepted run
  rw [← mounted.header]
  exact mounted.rootInside_iff

/-! ## Disks that are accepted -/

/-- What `fat16_resolve` asks for: the private data, four streams and the array. -/
def mountRequests (header : FatHeader) (i : Nat) : UInt32 :=
  if i = 0 then sizeofFatPrivate else if i ≤ 4 then sizeofDiskStream else .ofNat (32 * header.roodDirEntries.toNat)

section

variable {H : Type} {A : Allocator H} {device : BlockDevice}

theorem diskSteamerNew_some {s : Fs H} (nonnull : (A.malloc s.heap sizeofDiskStream).1 ≠ 0) :
    ∃ s' stream, diskSteamerNew A s = some (stream, s') ∧ s'.heap = (A.malloc s.heap sizeofDiskStream).2 := by
  have here : (s.kZalloc A sizeofDiskStream).1 ≠ 0 := nonnull
  refine ⟨_, _, if_neg here, rfl⟩

theorem fat16InitPrivate_some {s : Fs H} {sizes : Nat → UInt32} {h : H} {n : Nat} (p : UInt32)
    (heap : s.heap = A.after h sizes n) (streams : ∀ i < 3, sizes (n + i) = sizeofDiskStream)
    (nonnull : ∀ i < 3, A.pointer h sizes (n + i) ≠ 0) :
    ∃ s', fat16InitPrivate A s p = some s' ∧ s'.heap = A.after h sizes (n + 3) := by
  have next (i : Nat) (hi : i < 3) {t : Fs H} (at' : t.heap = A.after h sizes (n + i)) :
      ∃ t' stream, diskSteamerNew A t = some (stream, t') ∧ t'.heap = A.after h sizes (n + (i + 1)) := by
    have asked := nonnull i hi
    rw [Allocator.pointer, ← at', streams i hi] at asked
    obtain ⟨t', stream, made, after⟩ := diskSteamerNew_some asked
    refine ⟨t', stream, made, ?_⟩
    rw [after, at', ← streams i hi]
    rfl
  obtain ⟨s₁, _, first, heap₁⟩ := next 0 (by decide) heap
  obtain ⟨s₂, _, second, heap₂⟩ := next 1 (by decide) heap₁
  obtain ⟨s₃, _, third, heap₃⟩ := next 2 (by decide) heap₂
  simp only [fat16InitPrivate, first, second, third, Option.bind_eq_bind, Option.bind_some]
  exact ⟨_, rfl, heap₃⟩

theorem fat16GetRootDirectory_some (ok : NeverFails device) {s : Fs H} {p : UInt32} {n : Nat}
    (nonnull : (A.malloc s.heap (.ofNat (32 * (s.privates p).header.roodDirEntries.toNat))).1 ≠ 0)
    (ends : EndsAt device (rootDirPos (s.privates p).header) n) :
    ∃ s', fat16GetRootDirectory A device s p = some (0, s') ∧ (s'.privates p).rootDirectory.item =
      (A.malloc s.heap (.ofNat (32 * (s.privates p).header.roodDirEntries.toNat))).1 := by
  have counted := totalItems_ends ends 0
  unfold rootDirPos at counted
  have size : UInt32.ofInt ((s.privates p).header.roodDirEntries.toNat * sizeofFatDirectoryItem) =
      .ofNat (32 * (s.privates p).header.roodDirEntries.toNat) := by
    have cast : ((s.privates p).header.roodDirEntries.toNat * sizeofFatDirectoryItem : Int) =
        ((32 * (s.privates p).header.roodDirEntries.toNat : Nat) : Int) := by
      rw [Nat.mul_comm]
      rfl
    rw [cast, Address.ofInt_natCast]
  unfold fat16GetRootDirectory fat16GetTotalItemsForDirectory
  simp only [counted, Option.map_some, size, Fs.newItems, Fs.kZalloc, if_neg nonnull, (diskSteamerRead_ok ok _ _).1,
    ne_eq, not_true, if_false]
  refine ⟨_, rfl, ?_⟩
  dsimp only
  rw [Function.update_self]

theorem readVolume_some (ok : NeverFails device) {s : Fs H} (p : UInt32) {stream : UInt32} {n : Nat}
    (start : s.streams stream = 0)
    (nonnull : (A.malloc s.heap (.ofNat (32 * (bootHeader device).roodDirEntries.toNat))).1 ≠ 0)
    (signature : (diskSteamerRead device 0 sizeofFatH).out.getD 38 0 = fat16Signature)
    (ends : EndsAt device (rootDirPos (bootHeader device)) n) :
    ∃ s', readVolume A device s p stream = some (0, s') ∧ (s'.privates p).rootDirectory.item =
      (A.malloc s.heap (.ofNat (32 * (bootHeader device).roodDirEntries.toNat))).1 := by
  have header : (update s.privates p { s.privates p with
      header := fatHeaderOf (diskSteamerRead device 0 sizeofFatH).out } p).header = bootHeader device := by
    rw [Function.update_self]
    rfl
  rw [← header] at nonnull ends ⊢
  obtain ⟨s', root, item⟩ := fat16GetRootDirectory_some (A := A) ok (s := { s with
    streams := update s.streams stream (diskSteamerRead device 0 sizeofFatH).pos
    privates := update s.privates p { s.privates p with
      header := fatHeaderOf (diskSteamerRead device 0 sizeofFatH).out } }) (p := p) nonnull ends
  unfold readVolume
  dsimp only
  rw [start, if_neg (not_not.mpr (diskSteamerRead_ok ok _ _).1), if_neg (not_not.mpr signature), root]
  exact ⟨_, rfl, item⟩

/-- The private data, the streams in them and the local stream. -/
theorem mount_starts (s : Fs H) (header : FatHeader)
    (nonnull : ∀ i < 5, A.pointer s.heap (mountRequests header) i ≠ 0) :
    ∃ s₁ s₂ stream, (s.kZalloc A sizeofFatPrivate).1 ≠ 0 ∧
      fat16InitPrivate A (s.kZalloc A sizeofFatPrivate).2 (s.kZalloc A sizeofFatPrivate).1 = some s₁ ∧
      diskSteamerNew A s₁ = some (stream, s₂) ∧ s₂.heap = A.after s.heap (mountRequests header) 5 := by
  have heap₀ : (s.kZalloc A sizeofFatPrivate).2.heap = A.after s.heap (mountRequests header) 1 := rfl
  have streams (i : Nat) (hi : i < 3) : mountRequests header (1 + i) = sizeofDiskStream := by
    unfold mountRequests
    rw [if_neg (by omega), if_pos (by omega)]
  obtain ⟨s₁, init, heap₁⟩ := fat16InitPrivate_some (s.kZalloc A sizeofFatPrivate).1 heap₀ streams
    (fun i hi => nonnull (1 + i) (by omega))
  have asked : (A.malloc s₁.heap sizeofDiskStream).1 ≠ 0 := by
    rw [heap₁]
    exact nonnull 4 (by decide)
  obtain ⟨s₂, stream, opened, heap₂⟩ := diskSteamerNew_some asked
  refine ⟨s₁, s₂, stream, nonnull 0 (by decide), init, opened, ?_⟩
  rw [heap₂, heap₁]
  rfl

/-- A disk with the signature and an end of its root directory is accepted. -/
theorem fat16Resolve_accepts (ok : NeverFails device) (s : Fs H)
    (nonnull : ∀ i < 6, A.pointer s.heap (mountRequests (bootHeader device)) i ≠ 0)
    (signature : (diskSteamerRead device 0 sizeofFatH).out.getD 38 0 = fat16Signature) {n : Nat}
    (ends : EndsAt device (rootDirPos (bootHeader device)) n) :
    ∃ s', fat16Resolve A device s = some (0, s') ∧
      s'.private.rootDirectory.item = A.pointer s.heap (mountRequests (bootHeader device)) 5 := by
  obtain ⟨s₁, s₂, stream, first, init, opened, heap₂⟩ := mount_starts s (bootHeader device)
    fun i hi => nonnull i (by omega)
  obtain ⟨start, kept⟩ := diskSteamerNew_done opened
  have last : (A.malloc s₂.heap (.ofNat (32 * (bootHeader device).roodDirEntries.toNat))).1 =
      A.pointer s.heap (mountRequests (bootHeader device)) 5 := by
    rw [heap₂]
    rfl
  obtain ⟨s₃, read, item⟩ := readVolume_some ok (s.kZalloc A sizeofFatPrivate).1 start (by
    rw [last]
    exact nonnull 5 (by decide)) signature ends
  obtain ⟨_, _, fsPrivate⟩ := readVolume_done read start
  have here : s₃.fsPrivate = (s.kZalloc A sizeofFatPrivate).1 := (fsPrivate.trans kept).trans (fat16InitPrivate_done init)
  unfold fat16Resolve
  dsimp only
  rw [if_neg first]
  simp only [init, opened, read, Option.bind_eq_bind, Option.bind_some]
  refine ⟨_, rfl, ?_⟩
  rw [← last, ← item, ← here]
  rfl

end

section

variable {device : BlockDevice} {disk : Nat → UInt8}

/-- The count's reads on a disk: entry after entry. -/
theorem entryRead_delivers (delivers : Delivers device disk) (pos k : Nat) (fits : pos + 32 * (k + 1) < 2 ^ 31) :
    (entryRead device pos k).res = 0 ∧ entryByte device pos k = disk (pos + 32 * k) ∧
      (entryRead device pos k).pos = (pos + 32 * (k + 1) : Nat) := by
  have one (start : Nat) (inside : start + 32 < 2 ^ 31) :
      (diskSteamerRead device start sizeofFatDirectoryItem).res = 0 ∧
        (diskSteamerRead device start sizeofFatDirectoryItem).out.getD 0 0 = disk start ∧
        (diskSteamerRead device start sizeofFatDirectoryItem).pos = (start + 32 : Nat) := by
    obtain ⟨res, out, after⟩ := diskSteamerRead_delivers delivers start sizeofFatDirectoryItem inside
    refine ⟨res, ?_, after⟩
    rw [out, diskBytes_getD disk start (by decide)]
    rfl
  cases k with
  | zero => exact one pos (by omega)
  | succ k =>
    have before := (entryRead_delivers delivers pos k (by omega)).2.2
    unfold entryByte
    rw [entryRead, before]
    exact one (pos + 32 * (k + 1)) (by omega)

theorem endsAt_disk (delivers : Delivers device disk) {pos n : Nat} (fits : pos + 32 * (n + 1) < 2 ^ 31)
    (before : ∀ k < n, disk (pos + 32 * k) ≠ 0) (last : disk (pos + 32 * n) = 0) : EndsAt device pos n := by
  constructor
  · intro k hk
    exact (entryRead_delivers delivers pos k (by omega)).1
  · intro k hk
    rw [(entryRead_delivers delivers pos k (by omega)).2.1]
    exact before k hk
  · rw [(entryRead_delivers delivers pos n fits).2.1]
    exact last

theorem liveEntries_disk (delivers : Delivers device disk) {pos n : Nat} (fits : pos + 32 * n < 2 ^ 31) :
    liveEntries device pos n = (List.range n).countP fun k => disk (pos + 32 * k) ≠ 0xE5 := by
  apply List.countP_congr
  intro k mem
  have inside := List.mem_range.mp mem
  rw [(entryRead_delivers delivers pos k (by omega)).2.1]

theorem bootHeader_disk (delivers : Delivers device disk) : bootHeader device = fatHeaderOf (diskBytes disk 0 62) := by
  rw [bootHeader]
  exact congrArg fatHeaderOf (diskSteamerRead_delivers delivers 0 62 (by decide)).2.1

/-- The byte that the mount checks. -/
theorem signature_disk (delivers : Delivers device disk) :
    (diskSteamerRead device 0 sizeofFatH).out.getD 38 0 = disk 38 := by
  have bytes := (diskSteamerRead_delivers delivers 0 sizeofFatH (by decide)).2.1
  change (diskSteamerRead _ 0 sizeofFatH).out = _ at bytes
  rw [bytes, diskBytes_getD _ _ (by decide), Nat.zero_add]

end

/-- The kernel's heap and no open files. -/
def bootFs : Fs Heap where
  heap := newHeap
  roots _ := ⟨0, 0⟩
  parts _ := ⟨0, 0⟩
  strings _ _ := 0
  filesystem := 0
  fsPrivate := 0
  privates _ := FatPrivate.zero
  streams _ := 0
  fatItems _ := ⟨0, 0⟩
  directories _ := ⟨0, 0, 0, 0⟩
  items _ _ := 0
  fatDescriptors _ := ⟨0, 0⟩

theorem bootFs_nonnull {header : FatHeader} (lo : 1 ≤ header.roodDirEntries.toNat)
    (hi : header.roodDirEntries.toNat ≤ 128) {i : Nat} (small : i < 6) :
    kernelAllocator.pointer bootFs.heap (mountRequests header) i ≠ 0 := by
  have block (i : Nat) : 1 ≤ (mountRequests header i).toNat ∧ (mountRequests header i).toNat ≤ 4096 := by
    unfold mountRequests
    split
    · decide
    · split
      · decide
      · rw [UInt32.toNat_ofNat']
        omega
  have place : kernelAllocator.pointer newHeap (mountRequests header) i = newHeap.saddr + .ofNat (4096 * i) :=
    (kheapInit_packed _ _).pointer block (Nat.lt_of_lt_of_eq (by omega) (kheapInit_total _ _).symm)
  intro null
  have zero := congrArg UInt32.toNat (place.symm.trans null)
  have start : newHeap.saddr = heapStartAddr := createHeap_saddr (kheapInit_created (fun _ => 0) ⟨⟨fun _ => 0, 0⟩, 0⟩)
  rw [start, UInt32.toNat_add, UInt32.toNat_ofNat'] at zero
  simp only [heapStartAddr, UInt32.reduceToNat] at zero
  omega

/-- A disk whose header asks for one root entry, and which has two. -/
def rootDisk (sectorsPerCluster : UInt8) (x : Nat) : UInt8 :=
  if x = 13 then sectorsPerCluster
  else if x = 14 ∨ x = 17 then 1
  else if x = 38 then 0x29
  else if x = 512 ∨ x = 544 then 0x41
  else 0

theorem rootDisk_header (n : UInt8) : bootHeader (deviceOf (rootDisk n)) = ⟨n, 1, 0, 1, 0⟩ := by
  rw [bootHeader_disk (deviceOf_delivers _)]
  simp [fatHeaderOf, diskBytes, rootDisk]

theorem rootDisk_ends (n : UInt8) : EndsAt (deviceOf (rootDisk n)) (rootDirPos (bootHeader (deviceOf (rootDisk n)))) 2 ∧
    liveEntries (deviceOf (rootDisk n)) (rootDirPos (bootHeader (deviceOf (rootDisk n)))) 2 = 2 := by
  rw [rootDisk_header]
  have start : rootDirPos ⟨n, 1, 0, 1, 0⟩ = (512 : Nat) := by
    show rootDirPos ⟨0, 1, 0, 1, 0⟩ = (512 : Nat)
    decide
  rw [start]
  constructor
  · apply endsAt_disk (deviceOf_delivers _) (by decide)
    · intro k hk
      have small : k = 0 ∨ k = 1 := by omega
      rcases small with rfl | rfl <;> simp [rootDisk]
    · simp [rootDisk]
  · rw [liveEntries_disk (deviceOf_delivers _) (by decide)]
    simp [rootDisk, List.range_succ]

theorem rootDisk_accepted (n : UInt8) : ∃ s', fat16Resolve kernelAllocator (deviceOf (rootDisk n)) bootFs = some (0, s') := by
  have nonnull (i : Nat) (hi : i < 6) :
      kernelAllocator.pointer bootFs.heap (mountRequests (bootHeader (deviceOf (rootDisk n)))) i ≠ 0 := by
    rw [rootDisk_header]
    exact bootFs_nonnull (show 1 ≤ (1 : UInt16).toNat by decide) (show (1 : UInt16).toNat ≤ 128 by decide) hi
  have signature : (diskSteamerRead (deviceOf (rootDisk n)) 0 sizeofFatH).out.getD 38 0 = fat16Signature :=
    signature_disk (deviceOf_delivers _)
  obtain ⟨s', run, _⟩ := fat16Resolve_accepts (deviceOf_neverFails _) bootFs nonnull signature (rootDisk_ends n).1
  exact ⟨s', run⟩

theorem rootDisk_count : ∃ s', fat16Resolve kernelAllocator (deviceOf (rootDisk 1)) bootFs = some (0, s') ∧
    (RootInside s'.private ↔ RootFits (deviceOf (rootDisk 1)) (bootHeader (deviceOf (rootDisk 1)))) := by
  obtain ⟨s', run⟩ := rootDisk_accepted 1
  exact ⟨s', run, fat16Resolve_root_iff run⟩

/-- Two entries are counted in an array of one. -/
theorem second_entry_outside :
    ∃ s', fat16Resolve kernelAllocator (deviceOf (rootDisk 1)) bootFs = some (0, s') ∧ ¬ RootInside s'.private := by
  obtain ⟨s', run⟩ := rootDisk_accepted 1
  obtain ⟨ends, live⟩ := rootDisk_ends 1
  have mounted := fat16Resolve_accepted run
  refine ⟨s', run, fun inside => ?_⟩
  obtain ⟨n, ends', fits⟩ := mounted.rootInside_iff.mp inside
  rw [mounted.header] at ends' fits
  rw [ends'.unique ends, live, rootDisk_header] at fits
  exact absurd fits (by decide)

/-! ## The cluster size -/

section

variable {p : FatPrivate}

theorem clusterForOffset_returns (nonzero : p.clusterBytes ≠ 0) (device : BlockDevice) (streams : Streams)
    (start offset : Int) : ∃ r, fat16GetClusterForOffset device p streams start offset = some r := by
  unfold fat16GetClusterForOffset
  rw [if_neg nonzero]
  exact ⟨_, rfl⟩

/-- Every turn takes a cluster, or what is left, from `total`. -/
theorem readInternal_returns (nonzero : p.clusterBytes ≠ 0) (device : BlockDevice) (stream : UInt32)
    (cluster total offset : Int) (streams : Streams) :
    ∃ r, fat16ReadInternalFromStream device p streams stream cluster offset total = some r := by
  obtain ⟨size, positive⟩ : ∃ n : Nat, p.clusterBytes = n := ⟨p.clusterSize, clusterBytes_eq p⟩
  induction h : total.toNat using Nat.strongRecOn generalizing total offset streams with
  | ind n ih =>
    obtain ⟨⟨c, s⟩, found⟩ := clusterForOffset_returns nonzero device streams cluster offset
    rw [readInternal_chunk stream total found]
    dsimp only
    generalize chunk : (if total > p.clusterBytes then p.clusterBytes else total) = k
    generalize diskSteamerRead device _ k = read
    by_cases missing : c < 0
    · rw [if_pos missing]
      exact ⟨_, rfl⟩
    · rw [if_neg missing]
      by_cases failed : read.res ≠ 0
      · rw [if_pos failed]
        exact ⟨_, rfl⟩
      · rw [if_neg failed]
        by_cases more : total - k > 0
        · have less : (total - k).toNat < n := by
            split at chunk <;> omega
          obtain ⟨r, later⟩ := ih _ less (total - k) (int32 (offset + k)) (update s stream read.pos) rfl
          rw [if_pos more, later]
          exact ⟨_, rfl⟩
        · rw [if_neg more]
          exact ⟨_, rfl⟩

end

end PeachOs
