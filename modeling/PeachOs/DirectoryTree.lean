import PeachOs.DirectorySearch

/-!
# Paths in a directory tree

What a path leads to on the disk, and what `fat16_get_directory_entry` makes of
it. An item is always made a file's, so the walk ends with the first part.
-/

namespace PeachOs

open Ownership

/-- Entry `k` of a directory. -/
def imageEntry (content : Nat → UInt8) (k : Nat) : Nat → UInt8 := fun j => content (32 * k + j)

/-- Entry `k` is one of the directory's, it is not deleted, and has the name. -/
structure EntryAt (content : Nat → UInt8) (n : Nat) (name : List UInt8) (k : Nat) : Prop where
  image : DirectoryImage content n
  inside : k < n
  live : content (32 * k) ≠ 0xE5
  named : EntryNamed (imageEntry content k) (name.getD · 0)

/-- `entry` is where the names lead from a directory on, down through the clusters of subdirectories. -/
inductive Reaches (disk : Nat → UInt8) (p : FatPrivate) : (Nat → UInt8) → List (List UInt8) → (Nat → UInt8) → Prop
  | last {content : Nat → UInt8} {n k : Nat} {name : List UInt8} (found : EntryAt content n name k) :
      Reaches disk p content [name] (imageEntry content k)
  | down {content entry : Nat → UInt8} {n k : Nat} {name : List UInt8} {names : List (List UInt8)} {rest : List Nat}
      (found : EntryAt content n name k) (directory : itemAttribute (imageEntry content k) &&& fatFileSubdirectory ≠ 0)
      (chain : Recorded disk p (fat16GetFirstCluster (imageEntry content k)).toNat rest)
      (later : Reaches disk p (chainByte disk p ((fat16GetFirstCluster (imageEntry content k)).toNat :: rest)) names entry) :
      Reaches disk p content (name :: names) entry

/-- The item is a directory's exactly when the entry is, and a file's has a copy of the entry. -/
structure ItemOf {H : Type} (s : Fs H) (f : UInt32) (entry : Nat → UInt8) : Prop where
  type : (s.fatItems f).type = fatItemTypeDirectory ↔ itemAttribute entry &&& fatFileSubdirectory ≠ 0
  copy : itemAttribute entry &&& fatFileSubdirectory = 0 →
    ∀ j < sizeofFatDirectoryItem, s.items (s.fatItems f).item j = entry j

/-- The walk returns the item of the entry that the names lead to, and NULL if there is none. -/
def PathRight {H : Type} (A : Allocator H) (device : BlockDevice) (disk : Nat → UInt8) (s : Fs H) (path : UInt32)
    (content : Nat → UInt8) (names : List (List UInt8)) : Prop :=
  ∃ f s', fat16GetDirectoryEntry A device s path = some (f, s') ∧
    (f = 0 ↔ ¬ ∃ entry, Reaches disk s.private content names entry) ∧
    (f ≠ 0 → ∃ entry, Reaches disk s.private content names entry ∧ ItemOf s' f entry)

/-- Of as many entries as are live, from the first on, one has the name if any live entry does, none of
these is deleted, and the last of them is no subdirectory's. -/
structure FileReached (content : Nat → UInt8) (n : Nat) (name : List UInt8) : Prop where
  early : ∀ k, EntryAt content n name k → ∃ j < liveCount content n, EntryNamed (imageEntry content j) (name.getD · 0)
  deleted : ∀ k < liveCount content n, EntryNamed (imageEntry content k) (name.getD · 0) → content (32 * k) ≠ 0xE5
  file : ∀ k, LastNamed (imageEntry content) (name.getD · 0) (liveCount content n) k →
    itemAttribute (imageEntry content k) &&& fatFileSubdirectory = 0

/-- A mounted volume whose root directory has the entries of `content`, all with names that are read right. -/
structure VolumeTree {H : Type} (A : Allocator H) (device : BlockDevice) (disk : Nat → UInt8) (s : Fs H)
    (content : Nat → UInt8) (n : Nat) : Prop where
  delivers : Delivers device disk
  loaded : DirectoryLoaded A device s content n s.private.rootDirectory
  image : DirectoryImage content n
  names : ∀ k < n, NameRight (imageEntry content k) peachosMaxPathLength

/-! ## Names that end inside their entries -/

section

variable {item item' : Nat → UInt8} {maxLen : Nat}

/-- Such a name is decoded from the bytes of the entry alone. -/
theorem EndsInside.decoded (ends : EndsInside item) (large : 14 ≤ maxLen)
    (same : ∀ j < sizeofFatDirectoryItem, item' j = item j) :
    ∃ w, fat16GetFullFilenameWithExtension item maxLen = some w ∧
      fat16GetFullFilenameWithExtension item' maxLen = some w := by
  have size : sizeofFatDirectoryItem = 32 := rfl
  rw [size] at same
  have stops {i : Nat} (small : i < 32) (stop : Stops item i) : Stops item' i := by
    unfold Stops at stop ⊢
    rwa [same i small]
  have runs {i m : Nat} (small : i + m ≤ 32) (run : Runs item i m) : Runs item' i m := by
    intro j low high stop
    apply run j low high
    unfold Stops at stop ⊢
    rwa [same j (by omega)] at stop
  have bytes {i m : Nat} (small : i + m ≤ 32) : (List.range' i m).map item' = (List.range' i m).map item := by
    apply List.map_congr_left
    intro j mem
    have inside := (List.mem_range'_1.mp mem).2
    exact same j (by omega)
  obtain ⟨b, small, run, stop⟩ := ends.first
  by_cases none : Stops item 8
  · refine ⟨_, (fullFilename_base run stop (by omega) none).1, ?_⟩
    rw [← bytes (by omega)]
    exact (fullFilename_base (runs (by omega) run) (stops (by omega) stop) (by omega) (stops (by decide) none)).1
  · obtain ⟨e, short, run', stop'⟩ := ends.second none
    refine ⟨_, fullFilename_extended run stop (by omega) run' stop' (by omega), ?_⟩
    rw [← bytes (i := 0) (by omega), ← bytes (i := 8) (by omega)]
    exact fullFilename_extended (runs (by omega) run) (stops (by omega) stop) (by omega) (runs (by omega) run')
      (stops (by omega) stop') (by omega)

theorem EndsInside.named_iff (ends : EndsInside item) (same : ∀ j < sizeofFatDirectoryItem, item' j = item j)
    (name : Nat → UInt8) : EntryNamed item' name ↔ EntryNamed item name := by
  have large : 14 ≤ peachosMaxPathLength := by decide
  obtain ⟨w, here, there⟩ := ends.decoded large same
  unfold EntryNamed
  rw [here, there]

end

/-- A part's buffer and the part are the same name. -/
theorem ReadsAs.named_iff {buffer : Nat → UInt8} {w : List UInt8} (reads : ReadsAs buffer w) (entry : Nat → UInt8) :
    EntryNamed entry buffer ↔ EntryNamed entry (w.getD · 0) := by
  have byte (i : Nat) (inside : i ≤ w.length) : buffer i = w.getD i 0 := by
    by_cases last : i = w.length
    · rw [last, reads.ends, List.getD_eq_default _ _ (Nat.le_refl _)]
    · exact reads.bytes i (by omega)
  have ends : w.getD w.length 0 = 0 := List.getD_eq_default _ _ (Nat.le_refl _)
  have same {v name name' : Nat → UInt8} (nul : name w.length = 0) (agree : ∀ i ≤ w.length, name' i = name i)
      (named : SameName v name) : SameName v name' := by
    intro i before
    by_cases inside : i ≤ w.length
    · rw [agree i inside]
      exact named i before
    · -- both names end at the part's length
      have last := named w.length fun j below => before j (by omega)
      have zero : toLower (0 : UInt8) = 0 := rfl
      rw [nul, zero, toLower_eq_iff (Or.inl (by decide))] at last
      exact absurd last (before w.length (by omega))
  constructor
  · rintro ⟨v, decoded, named⟩
    exact ⟨v, decoded, same reads.ends (fun i inside => (byte i inside).symm) named⟩
  · rintro ⟨v, decoded, named⟩
    exact ⟨v, decoded, same ends byte named⟩

/-! ## What is reached -/

section

variable {disk : Nat → UInt8} {p : FatPrivate} {content entry : Nat → UInt8} {n m : Nat} {name : List UInt8}

theorem DirectoryImage.unique (image : DirectoryImage content n) (image' : DirectoryImage content m) : n = m := by
  apply Nat.le_antisymm
  · by_contra past
    exact image.before m (by omega) image'.last
  · by_contra past
    exact image'.before n (by omega) image.last

theorem reaches_one (image : DirectoryImage content n) :
    Reaches disk p content [name] entry ↔ ∃ k, EntryAt content n name k ∧ entry = imageEntry content k := by
  constructor
  · intro reaches
    cases reaches with
    | last found =>
      obtain rfl := found.image.unique image
      exact ⟨_, found, rfl⟩
    | down _ _ _ later => cases later
  · rintro ⟨k, found, rfl⟩
    exact .last found

theorem EntryAt.deleted {k j : Nat} (found : EntryAt content n name k)
    (named : EntryNamed (imageEntry content j) (name.getD · 0)) : content (32 * j) ≠ 0xE5 := by
  intro deleted
  exact found.live (found.named.deleted.mp (named.deleted.mpr deleted))

end

section

variable {H : Type} {A : Allocator H} {device : BlockDevice} {disk : Nat → UInt8} {laws : BlockLaws A}
  {L : Ledger UInt32 Nat} {s s' : Fs H} {content : Nat → UInt8} {n : Nat} {path f : UInt32} {blocks : List UInt32}
  {name : List UInt8} {names : List (List UInt8)}

theorem VolumeTree.stored (tree : VolumeTree A device disk s content n) :
    ImageStored s content n s.private.rootDirectory := tree.loaded.stored tree.image

theorem VolumeTree.entry (tree : VolumeTree A device disk s content n) {k : Nat} (early : k < liveCount content n) :
    EndsInside (imageEntry content k) ∧
      ∀ j < sizeofFatDirectoryItem, s.entry s.private.rootDirectory.item k j = imageEntry content k j :=
  ⟨(tree.names k (Nat.lt_of_lt_of_le early (liveCount_le content n))).ends (by decide),
    fun _ inside => tree.stored.entry early inside⟩

/-- The buffer of a part is compared with the names on the disk. -/
theorem VolumeTree.named_iff (tree : VolumeTree A device disk s content n) {buffer : Nat → UInt8}
    (reads : ReadsAs buffer name) {k : Nat} (early : k < liveCount content n) :
    EntryNamed (s.entry s.private.rootDirectory.item k) buffer ↔ EntryNamed (imageEntry content k) (name.getD · 0) := by
  obtain ⟨ends, same⟩ := tree.entry early
  rw [ends.named_iff same, reads.named_iff]

theorem VolumeTree.last_iff (tree : VolumeTree A device disk s content n) {buffer : Nat → UInt8}
    (reads : ReadsAs buffer name) {k : Nat} :
    LastNamed (s.entry s.private.rootDirectory.item) buffer (liveCount content n) k ↔
      LastNamed (imageEntry content) (name.getD · 0) (liveCount content n) k := by
  constructor
  · intro last
    refine ⟨last.inside, (tree.named_iff reads last.inside).mp last.named, fun j low high => ?_⟩
    rw [← tree.named_iff reads high]
    exact last.last j low high
  · intro last
    refine ⟨last.inside, (tree.named_iff reads last.inside).mpr last.named, fun j low high => ?_⟩
    rw [tree.named_iff reads high]
    exact last.last j low high

/-- What the search of the root directory for the first part finds. -/
theorem VolumeTree.search (tree : VolumeTree A device disk s content n) {buffer : Nat → UInt8}
    (reads : ReadsAs buffer name) (holds : laws.holds s.heap L)
    (block : liveCount content n = 0 ∨ L s.private.rootDirectory.item ≠ none)
    (granted : SearchGranted laws device s s.private.rootDirectory.item buffer (liveCount content n))
    (load : NamedLoad A device s s.private.rootDirectory.item buffer (liveCount content n)) :
    ∃ f s', fat16FindItemInDirectory A device s s.private.rootDirectory buffer = some (f, s') ∧
      ((f = 0 ∧ ∀ k < liveCount content n, ¬ EntryNamed (imageEntry content k) (name.getD · 0)) ∨
        ∃ k, LastNamed (imageEntry content) (name.getD · 0) (liveCount content n) k ∧
          CopiedItem s' f (imageEntry content k)) := by
  have short : ∃ e < peachosMaxPathLength, buffer e = 0 := ⟨name.length, reads.inside, reads.ends⟩
  have large : 14 ≤ peachosMaxPathLength := by decide
  have decoded (k : Nat) (early : k < liveCount content n) :
      fat16GetFullFilenameWithExtension (s.entry s.private.rootDirectory.item k) peachosMaxPathLength ≠ none := by
    obtain ⟨ends, same⟩ := tree.entry early
    obtain ⟨w, _, here⟩ := ends.decoded large same
    rw [here]
    exact Option.some_ne_none w
  obtain ⟨⟨f, s'⟩, run⟩ := findItemFrom_returns short holds block tree.stored.array granted load decoded
  refine ⟨f, s', ?_, ?_⟩
  · unfold fat16FindItemInDirectory
    rw [tree.stored.total]
    exact run
  · obtain ⟨_, ⟨zero, none⟩ | ⟨k, last, copied⟩⟩ := findItemFrom_last short holds block granted run
    · refine Or.inl ⟨zero, fun k early named => ?_⟩
      exact none k early ((tree.named_iff reads early).mpr named)
    · refine Or.inr ⟨k, (tree.last_iff reads).mp last, copied.nonzero, copied.type, fun j inside => ?_⟩
      rw [copied.bytes j inside]
      exact (tree.entry last.inside).2 j inside

theorem LastNamed.unique {entries : Nat → Nat → UInt8} {name : Nat → UInt8} {n k j : Nat}
    (one : LastNamed entries name n k) (two : LastNamed entries name n j) : k = j := by
  apply Nat.le_antisymm
  · by_contra past
    exact two.last k (by omega) one.inside one.named
  · by_contra past
    exact one.last j (by omega) two.inside two.named

/-- The walk's result: the item that the search found for the first part, if there are no more. -/
theorem getDirectoryEntry_walk (list : PartList s.toPaths path blocks (name :: names))
    (run : fat16FindItemInDirectory A device s s.private.rootDirectory (s.strings (s.parts path).part) = some (f, s')) :
    fat16GetDirectoryEntry A device s path = some (if names = [] then f else 0, s') := by
  have parts : s'.parts = s.parts := (findItemFrom_requested run).fixed.parts
  rw [getDirectoryEntry_eq, run, Option.map_some]
  dsimp only
  rw [parts]
  cases list with
  | cons _ _ rest =>
    generalize (s.parts path).next = next at rest ⊢
    cases rest with
    | nil => rw [if_pos rfl, if_pos rfl]
    | cons nonzero => rw [if_neg nonzero, if_neg (List.cons_ne_nil _ _)]

/-- A path of one part. -/
theorem VolumeTree.file_iff (tree : VolumeTree A device disk s content n)
    (walk : fat16GetDirectoryEntry A device s path = some (f, s'))
    (found : (f = 0 ∧ ∀ k < liveCount content n, ¬ EntryNamed (imageEntry content k) (name.getD · 0)) ∨
      ∃ k, LastNamed (imageEntry content) (name.getD · 0) (liveCount content n) k ∧
        CopiedItem s' f (imageEntry content k)) :
    PathRight A device disk s path content [name] ↔ FileReached content n name := by
  unfold PathRight
  rw [walk]
  constructor
  · rintro ⟨_, _, same, zero, item⟩
    cases same
    have reached {k : Nat} (at' : EntryAt content n name k) : f ≠ 0 := fun null => zero.mp null ⟨_, .last at'⟩
    constructor
    · intro k at'
      obtain ⟨null, _⟩ | ⟨j, last, _⟩ := found
      · exact absurd null (reached at')
      · exact ⟨j, last.inside, last.named⟩
    · intro k early named
      obtain ⟨_, none⟩ | ⟨_, _, copied⟩ := found
      · exact absurd named (none k early)
      · obtain ⟨entry, reaches, _⟩ := item copied.nonzero
        obtain ⟨j, at', _⟩ := (reaches_one tree.image).mp reaches
        exact at'.deleted named
    · intro k last
      obtain ⟨_, none⟩ | ⟨j, last', copied⟩ := found
      · exact absurd last.named (none k last.inside)
      · obtain rfl := last.unique last'
        obtain ⟨entry, _, here⟩ := item copied.nonzero
        have file : itemAttribute entry &&& fatFileSubdirectory = 0 := by
          by_contra directory
          have type := here.type.mpr directory
          rw [copied.type] at type
          exact absurd type (by decide)
        have same : itemAttribute (imageEntry content k) = itemAttribute entry :=
          (copied.bytes 11 (by decide)).symm.trans (here.copy file 11 (by decide))
        rw [same]
        exact file
  · rintro ⟨early, deleted, file⟩
    obtain ⟨rfl, none⟩ | ⟨k, last, copied⟩ := found
    · refine ⟨0, s', rfl, iff_of_true rfl ?_, fun some => absurd rfl some⟩
      rintro ⟨entry, reaches⟩
      obtain ⟨k, at', _⟩ := (reaches_one tree.image).mp reaches
      obtain ⟨j, inside, named⟩ := early k at'
      exact none j inside named
    · have at' : EntryAt content n name k :=
        ⟨tree.image, Nat.lt_of_lt_of_le last.inside (liveCount_le content n), deleted k last.inside last.named, last.named⟩
      have plain := file k last
      refine ⟨f, s', rfl, iff_of_false copied.nonzero (not_not.mpr ⟨_, .last at'⟩), fun _ => ⟨_, .last at', ?_, ?_⟩⟩
      · rw [copied.type]
        exact iff_of_false (by decide) (not_not.mpr plain)
      · exact fun _ => copied.bytes

/-- **A path is followed right** exactly when it leads nowhere, if it has two parts or more, or else when its
one part reaches a file among the entries that are searched. -/
theorem path_right_iff (tree : VolumeTree A device disk s content n)
    (list : PartList s.toPaths path blocks (name :: names)) (holds : laws.holds s.heap L)
    (block : liveCount content n = 0 ∨ L s.private.rootDirectory.item ≠ none)
    (granted : SearchGranted laws device s s.private.rootDirectory.item (s.strings (s.parts path).part)
      (liveCount content n))
    (load : NamedLoad A device s s.private.rootDirectory.item (s.strings (s.parts path).part) (liveCount content n)) :
    PathRight A device disk s path content (name :: names) ↔ (names = [] ∧ FileReached content n name) ∨
      (names ≠ [] ∧ ¬ ∃ entry, Reaches disk s.private content (name :: names) entry) := by
  have reads : ReadsAs (s.strings (s.parts path).part) name := by
    cases list with
    | cons _ reads _ => exact reads
  obtain ⟨f, s', run, found⟩ := tree.search reads holds block granted load
  have walk := getDirectoryEntry_walk list run
  by_cases one : names = []
  · subst one
    rw [if_pos rfl] at walk
    rw [tree.file_iff walk found]
    simp
  · rw [if_neg one] at walk
    have null : PathRight A device disk s path content (name :: names) ↔
        ¬ ∃ entry, Reaches disk s.private content (name :: names) entry := by
      unfold PathRight
      rw [walk]
      constructor
      · rintro ⟨_, _, same, zero, _⟩
        cases same
        exact zero.mp rfl
      · intro none
        exact ⟨0, s', rfl, iff_of_true rfl none, fun some => absurd rfl some⟩
    rw [null]
    simp [one]

end

/-! ## A root directory with the entry `A` -/

theorem noteName_reads : ReadsAs noteName [97] := ⟨by decide, by decide, rfl⟩

section

variable {attr : UInt8} {s s' : Fs Nat}

theorem note_nameRight {k : Nat} (early : k < 2) :
    NameRight (imageEntry (listContent 0x41 0xE5 attr) k) peachosMaxPathLength := by
  have space (j : Nat) (low : 1 ≤ j) (high : j ≤ 8) : Stops (imageEntry (listContent 0x41 0xE5 attr) k) j :=
    Or.inr (note_spaces early low high)
  refine (nameRight_iff (by decide)).mpr ⟨⟨⟨8, by decide, by decide, space 8 (by decide) (by decide)⟩, ?_⟩, ?_⟩
  · intro run
    exact absurd (space 1 (by decide) (by decide)) (run 1 (Nat.zero_le 1) (by decide))
  · intro base ext named
    left
    by_contra long
    exact named.base_runs 1 (Nat.zero_le 1) (by omega) (space 1 (by decide) (by decide))

theorem note_tree (loaded : DirectoryLoaded freshHeap (deviceOf (listDisk 0x41 0xE5 attr)) s (listContent 0x41 0xE5 attr) 2
    s.private.rootDirectory) :
    VolumeTree freshHeap (deviceOf (listDisk 0x41 0xE5 attr)) (listDisk 0x41 0xE5 attr) s (listContent 0x41 0xE5 attr) 2 := by
  exact ⟨deviceOf_delivers _, loaded, note_image.1, fun k => note_nameRight⟩

theorem note_path (parts : s.parts 1 = ⟨1, 0⟩) (strings : s.strings 1 = noteName) :
    PartList s.toPaths 1 [1, 1] [[97]] := by
  have reads : ReadsAs (s.strings (s.parts 1).part) [97] := by
    rw [parts, strings]
    exact noteName_reads
  have rest : PartList s.toPaths (s.parts 1).next [] [] := by
    rw [parts]
    exact .nil
  have list : PartList s.toPaths 1 [(s.parts 1).part, 1] [[97]] := .cons (by decide) reads rest
  rwa [parts] at list

theorem note_at : EntryAt (listContent 0x41 0xE5 attr) 2 [97] 0 := by
  have first : listContent 0x41 0xE5 attr (32 * 0) = 0x41 := rfl
  refine ⟨note_image.1, by decide, ?_, (noteName_reads.named_iff _).mp (note_named rfl fun j low high => ?_).2⟩
  · rw [first]
    decide
  · rw [imageEntry, Nat.mul_zero, Nat.zero_add]
    simpa using note_spaces (k := 0) (by decide) low high

theorem note_only {n k : Nat} {name : List UInt8} (found : EntryAt (listContent 0x41 0xE5 attr) n name k) : k = 0 := by
  by_contra later
  by_cases deleted : k = 1
  · rw [deleted] at found
    exact found.live rfl
  · -- the third entry ends the directory
    refine found.image.before 2 ?_ rfl
    have inside := found.inside
    omega

end

theorem note_file : FileReached (listContent 0x41 0xE5 0) 2 [97] := by
  have count : liveCount (listContent 0x41 0xE5 0) 2 = 1 := note_image.2
  have first {k : Nat} (below : k < liveCount (listContent 0x41 0xE5 0) 2) : k = 0 := by omega
  constructor
  · exact fun k _ => ⟨0, by rw [count]; decide, note_at.named⟩
  · intro k below _
    rw [first below]
    decide
  · intro k last
    rw [first last.inside]
    decide

/-- Nothing is reached below a file. -/
theorem note_below {disk : Nat → UInt8} {p : FatPrivate} (entry : Nat → UInt8) :
    ¬ Reaches disk p (listContent 0x41 0xE5 0) [[97], [97]] entry := by
  intro reached
  cases reached with
  | down found directory _ _ =>
    rw [note_only found] at directory
    exact directory rfl

/-- The file is found, and nothing below it. -/
theorem note_followed : ∃ s : Fs Nat,
    VolumeTree freshHeap (deviceOf (listDisk 0x41 0xE5 0)) (listDisk 0x41 0xE5 0) s (listContent 0x41 0xE5 0) 2 ∧
      PathRight freshHeap (deviceOf (listDisk 0x41 0xE5 0)) (listDisk 0x41 0xE5 0) s 1 (listContent 0x41 0xE5 0) [[97]] ∧
      PathRight freshHeap (deviceOf (listDisk 0x41 0xE5 0)) (listDisk 0x41 0xE5 0) s 2 (listContent 0x41 0xE5 0)
        [[97], [97]] := by
  obtain ⟨s, heap, parts, longer, strings, place, _, loaded⟩ := note_mounted 0
  have tree := note_tree loaded
  have list := note_path parts strings
  have block : Function.update (fun _ => none) 0x1005000 (some 1) s.private.rootDirectory.item ≠ none := by
    rw [place, Function.update_self]
    exact Option.some_ne_none 1
  have granted := note_granted tree.stored heap
  have load := note_load tree.stored noteName
  have name : s.strings (s.parts 1).part = noteName := by
    rw [parts, strings]
  have name' : s.strings (s.parts 2).part = noteName := by
    rw [longer, strings]
  have rest : PartList s.toPaths (s.parts 2).next [1, 1] [[97]] := by
    rwa [longer]
  have two := PartList.cons (p := 2) (by decide) (by rw [name']; exact noteName_reads) rest
  refine ⟨s, tree, (path_right_iff tree list (note_holds heap) (Or.inr block) ?_ ?_).mpr (Or.inl ⟨rfl, note_file⟩),
    (path_right_iff tree two (note_holds heap) (Or.inr block) ?_ ?_).mpr
      (Or.inr ⟨List.cons_ne_nil _ _, fun ⟨entry, reached⟩ => note_below entry reached⟩)⟩
  · rwa [name]
  · rwa [name]
  · rwa [name']
  · rwa [name']

/-! ## The entry of a subdirectory -/

/-- Cluster 2 is empty, and so is the subdirectory there. -/
theorem subdirectory_loads {s : Fs Nat} {array : UInt32} (mounted : Mounted (deviceOf (listDisk 0x41 0xE5 0x10)) s.private)
    (bytes : ∀ j < 32, s.entry array 0 j = listContent 0x41 0xE5 0x10 j) :
    fat16LoadFatDirectory freshHeap (deviceOf (listDisk 0x41 0xE5 0x10)) s array 0 ≠ none := by
  have marked : itemAttribute (s.entry array 0) = fatFileSubdirectory := bytes 11 (by decide)
  have header : s.private.header = ⟨1, 1, 0, 4, 0⟩ := mounted.header.trans listDisk_header
  have ending : s.private.rootDirectory.endingSectorPos = 2 := by
    rw [mounted.ending, header]
    decide
  have cluster : loadCluster (s.entry array 0) = 2 := by
    unfold loadCluster fat16GetFirstCluster le16
    repeat rw [bytes _ (by decide)]
    decide
  have place : loadPos s.private (s.entry array 0) = (1024 : Nat) := by
    rw [loadPos, cluster, fat16ClusterToSector, ending, header]
    decide
  have ends : EndsAt (deviceOf (listDisk 0x41 0xE5 0x10)) (loadPos s.private (s.entry array 0)) 0 := by
    rw [place]
    exact endsAt_disk (deviceOf_delivers _) (by decide) (fun k below => absurd below (Nat.not_lt_zero k)) (by decide)
  have counted := totalItems_ends ends 0
  generalize (0 : Int) + (liveEntries _ _ 0 : Nat) = total at counted
  by_cases null : (directoryHeap freshHeap s).1 = 0
  · obtain ⟨t, load⟩ := loadFatDirectory_null (deviceOf (listDisk 0x41 0xE5 0x10)) array 0 null
    rw [load]
    exact Option.some_ne_none _
  · obtain ⟨empty, entries⟩ := loadFatDirectory_counted marked null counted
    by_cases item : entriesBlock freshHeap s (.ofInt (int32 (total * sizeofFatDirectoryItem))) = 0
    · obtain ⟨t, load, _⟩ := empty item
      rw [load]
      exact Option.some_ne_none _
    · obtain ⟨streams, read⟩ := entries item
      have nonzero : s.private.clusterBytes ≠ 0 := by
        rw [FatPrivate.clusterBytes, header]
        decide
      obtain ⟨r, delivered⟩ := readInternal_returns nonzero (deviceOf (listDisk 0x41 0xE5 0x10)) s.private.clusterReadStream
        (loadCluster (s.entry array 0)) (int32 (total * sizeofFatDirectoryItem)) 0 streams
      rw [fat16ReadInternal, delivered] at read
      obtain ⟨t, load, _⟩ := read
      rw [load]
      exact Option.some_ne_none _

/-- The path to the subdirectory `A` leads to an item that is a file's. -/
theorem subdirectory_as_file : ∃ s f s',
    VolumeTree freshHeap (deviceOf (listDisk 0x41 0xE5 0x10)) (listDisk 0x41 0xE5 0x10) s (listContent 0x41 0xE5 0x10) 2 ∧
      PartList s.toPaths 1 [1, 1] [[97]] ∧
      Reaches (listDisk 0x41 0xE5 0x10) s.private (listContent 0x41 0xE5 0x10) [[97]] (imageEntry (listContent 0x41 0xE5 0x10) 0) ∧
      itemAttribute (imageEntry (listContent 0x41 0xE5 0x10) 0) = fatFileSubdirectory ∧
      fat16GetDirectoryEntry freshHeap (deviceOf (listDisk 0x41 0xE5 0x10)) s 1 = some (f, s') ∧ f ≠ 0 ∧
      (s'.fatItems f).type = fatItemTypeFile ∧
      ¬ PathRight freshHeap (deviceOf (listDisk 0x41 0xE5 0x10)) (listDisk 0x41 0xE5 0x10) s 1 (listContent 0x41 0xE5 0x10) [[97]] := by
  obtain ⟨s, heap, parts, _, strings, place, mounted, loaded⟩ := note_mounted 0x10
  have tree := note_tree loaded
  have list := note_path parts strings
  have stored := tree.stored
  have directory : itemAttribute (imageEntry (listContent 0x41 0xE5 0x10) 0) = fatFileSubdirectory := by decide
  have load (s₁ : Fs Nat) (private' : s₁.private = s.private)
      (entry : s₁.entry s.private.rootDirectory.item 0 = s.entry s.private.rootDirectory.item 0) :
      fat16LoadFatDirectory freshHeap (deviceOf (listDisk 0x41 0xE5 0x10)) s₁ s.private.rootDirectory.item 0 ≠ none := by
    apply subdirectory_loads
    · rw [private']
      exact mounted
    · intro j inside
      rw [entry]
      exact note_entry stored inside
  obtain ⟨⟨f, s'⟩, made⟩ := newFatItem_returns load
  have found : fat16FindItemInDirectory freshHeap (deviceOf (listDisk 0x41 0xE5 0x10)) s s.private.rootDirectory
      (s.strings (s.parts 1).part) = some (f, s') := by
    obtain ⟨decoded, w, decoded', same⟩ := note_seen stored
    have array : s.private.rootDirectory.item ≠ 0 := by
      rw [place]
      decide
    unfold fat16FindItemInDirectory
    rw [stored.total, note_image.2, parts, strings, findItemFrom, if_neg array, decoded']
    dsimp only
    rw [if_pos ((istrncmp_eq_zero noteName_short).mpr same), made]
    rfl
  have nonzero : f ≠ 0 := by
    obtain ⟨s₁, block, _⟩ := newFatItem_cases made
    rw [(fsKZalloc_request block).1, heap]
    decide
  have type : (s'.fatItems f).type = fatItemTypeFile := ((newFatItem_made made).resolve_left nonzero).type
  have walk := getDirectoryEntry_walk list found
  rw [if_pos rfl] at walk
  refine ⟨s, f, s', tree, list, .last note_at, directory, walk, nonzero, type, ?_⟩
  rintro ⟨_, _, again, _, item⟩
  cases walk.symm.trans again
  obtain ⟨entry, reaches, here⟩ := item nonzero
  obtain ⟨k, at', rfl⟩ := (reaches_one tree.image).mp reaches
  obtain rfl := note_only at'
  have kind := here.type.mpr (by rw [directory]; decide)
  rw [type] at kind
  exact absurd kind (by decide)

end PeachOs
