import PeachOs.DirectoryLoad
import PeachOs.FatNames
import PeachOs.OpenRuns

/-!
# Searching a directory

The count of a directory leaves out the deleted entries, and its array does not.
So the search looks at as many entries as are not deleted, from the first on.
-/

namespace PeachOs

open Ownership

/-! ## Names -/

theorem toLower_cases (c : UInt8) : toLower c = c ∨ (97 ≤ (toLower c).toNat ∧ (toLower c).toNat ≤ 122) := by
  unfold toLower
  split
  · rename_i letter
    have low := UInt8.le_iff_toNat_le.mp letter.1
    have high := UInt8.le_iff_toNat_le.mp letter.2
    change 65 ≤ c.toNat at low
    change c.toNat ≤ 90 at high
    right
    rw [UInt8.toNat_add]
    change 97 ≤ (c.toNat + 32) % 256 ∧ (c.toNat + 32) % 256 ≤ 122
    omega
  · exact Or.inl rfl

/-- A byte outside the letters is its own small letter. -/
theorem toLower_eq_iff {c d : UInt8} (other : d.toNat < 65 ∨ 122 < d.toNat) : toLower c = d ↔ c = d := by
  constructor
  · rintro rfl
    obtain same | letter := toLower_cases c
    · exact same.symm
    · omega
  · rintro rfl
    unfold toLower
    rw [if_neg]
    rintro ⟨low, high⟩
    have low := UInt8.le_iff_toNat_le.mp low
    have high := UInt8.le_iff_toNat_le.mp high
    change 65 ≤ c.toNat at low
    change c.toNat ≤ 90 at high
    omega

/-- The same up to the case of letters, as far as the first NUL. -/
def SameName (w name : Nat → UInt8) : Prop := ∀ i, (∀ j < i, w j ≠ 0) → toLower (w i) = toLower (name i)

theorem istrncmpFrom_eq_zero {s1 s2 : Nat → UInt8} {n i : Nat} : istrncmpFrom s1 s2 n i = 0 ↔
    ∀ j, i ≤ j → j < i + n → (∀ k, i ≤ k → k < j → s1 k ≠ 0) → toLower (s1 j) = toLower (s2 j) := by
  induction n generalizing i with
  | zero =>
    refine iff_of_true rfl fun j low high => ?_
    omega
  | succ n ih =>
    rw [istrncmpFrom]
    by_cases other : s1 i ≠ s2 i ∧ toLower (s1 i) ≠ toLower (s2 i)
    · rw [if_pos other]
      refine iff_of_false ?_ fun same => other.2 (same i (Nat.le_refl i) (by omega) fun k low high => by omega)
      have ne : (s1 i).toNat ≠ (s2 i).toNat := fun same => other.1 (UInt8.toNat_inj.mp same)
      omega
    · rw [if_neg other]
      have here : toLower (s1 i) = toLower (s2 i) := by
        by_contra ne
        exact other ⟨fun same => ne (by rw [same]), ne⟩
      by_cases last : s1 i = 0
      · rw [if_pos last]
        refine iff_of_true rfl fun j low _ before => ?_
        by_cases first : j = i
        · rw [first]
          exact here
        · exact absurd last (before i (Nat.le_refl i) (by omega))
      · rw [if_neg last, ih]
        constructor
        · intro same j low high before
          by_cases first : j = i
          · rw [first]
            exact here
          · exact same j (by omega) (by omega) fun k low' high' => before k (by omega) high'
        · intro same j low high before
          refine same j (by omega) (by omega) fun k low' high' => ?_
          by_cases first : k = i
          · rw [first]
            exact last
          · exact before k (by omega) high'

/-- For a name that ends within the bytes compared. -/
theorem istrncmp_eq_zero {w name : Nat → UInt8} {n : Nat} (short : ∃ i < n, name i = 0) :
    istrncmp w name n = 0 ↔ SameName w name := by
  obtain ⟨e, inside, ends⟩ := short
  rw [istrncmp, istrncmpFrom_eq_zero]
  constructor
  · intro same i before
    apply same i (Nat.zero_le i) _ fun k _ high => before k high
    -- at the end of the name the other one ends too
    by_contra past
    have last := same e (Nat.zero_le e) (by omega) fun k _ high => before k (by omega)
    rw [ends] at last
    have zero : toLower (0 : UInt8) = 0 := rfl
    rw [zero, toLower_eq_iff (Or.inl (by decide))] at last
    exact before e (by omega) last
  · intro same j _ _ before
    exact same j fun k high => before k (Nat.zero_le k) high

/-- A decoded name begins with 0xE5 if its entry does. -/
theorem fullFilename_deleted {entry : Nat → UInt8} {maxLen : Nat} (room : 0 < maxLen) {w : List UInt8}
    (decoded : fat16GetFullFilenameWithExtension entry maxLen = some w) : w.getD 0 0 = 0xE5 ↔ entry 0 = 0xE5 := by
  obtain ⟨maxLen, rfl⟩ := Nat.exists_eq_succ_of_ne_zero (Nat.pos_iff_ne_zero.mp room)
  unfold fat16GetFullFilenameWithExtension at decoded
  rw [fat16ToProperString] at decoded
  by_cases go : entry 0 ≠ 0 ∧ entry 0 ≠ 0x20
  · rw [if_pos go] at decoded
    have first : w.getD 0 0 = entry 0 := by
      cases rest : fat16ToProperString entry maxLen (0 + 1) with
      | none => simp [rest] at decoded
      | some base =>
        simp only [rest, Option.map_some] at decoded
        split at decoded
        · split at decoded
          · obtain ⟨ext, _, rfl⟩ := Option.map_eq_some_iff.mp decoded
            rfl
          · cases decoded
        · cases decoded
          rfl
    rw [first]
  · rw [if_neg go] at decoded
    have stops : entry 0 ≠ 0xE5 := by
      intro same
      exact go (by rw [same]; decide)
    refine iff_of_false ?_ stops
    simp only at decoded
    split at decoded
    · split at decoded
      · obtain ⟨ext, _, rfl⟩ := Option.map_eq_some_iff.mp decoded
        rw [List.nil_append, List.getD_cons_zero]
        decide
      · cases decoded
    · cases decoded
      decide

/-- The decoded name of the entry is `name`. -/
def EntryNamed (entry name : Nat → UInt8) : Prop :=
  ∃ w, fat16GetFullFilenameWithExtension entry peachosMaxPathLength = some w ∧ SameName (w.getD · 0) name

/-- Entries of one name are all deleted or all live. -/
theorem EntryNamed.deleted {entry name : Nat → UInt8} (named : EntryNamed entry name) :
    name 0 = 0xE5 ↔ entry 0 = 0xE5 := by
  obtain ⟨w, decoded, same⟩ := named
  have first := same 0 fun j below => absurd below (Nat.not_lt_zero j)
  rw [← fullFilename_deleted (by decide) decoded]
  have high : (0xE5 : UInt8).toNat < 65 ∨ 122 < (0xE5 : UInt8).toNat := Or.inr (by decide)
  rw [← toLower_eq_iff high, ← first, toLower_eq_iff high]

/-! ## The search -/

section

variable {H : Type} {A : Allocator H} {device : BlockDevice} {laws : BlockLaws A} {L : Ledger UInt32 Nat}
  {s s' : Fs H} {array : UInt32} {name : Nat → UInt8} {f f₀ : UInt32} {n : Nat}

/-- The search with one entry more. -/
theorem findItemFrom_append (device : BlockDevice) (s : Fs H) (array : UInt32) (name : Nat → UInt8) (f₀ : UInt32)
    (left i : Nat) : findItemFrom A device s array name f₀ (left + 1) i =
      (findItemFrom A device s array name f₀ left i).bind fun r =>
        findItemFrom A device r.2 array name r.1 1 (i + left) := by
  induction left generalizing s f₀ i with
  | zero => rfl
  | succ left ih =>
    have place : i + 1 + left = i + (left + 1) := by omega
    conv_lhs => rw [findItemFrom]
    conv_rhs => rw [findItemFrom]
    split
    · rfl
    · split
      · rfl
      · split
        · split
          · rfl
          · rw [ih, place]
        · rw [ih, place]

/-- The item `f` is a file's, with a copy of `entry`. -/
structure CopiedItem (s : Fs H) (f : UInt32) (entry : Nat → UInt8) : Prop where
  nonzero : f ≠ 0
  type : (s.fatItems f).type = fatItemTypeFile
  bytes : ∀ j < sizeofFatDirectoryItem, s.items (s.fatItems f).item j = entry j

/-- Entry `k` is the last of the first `n` with the name. -/
structure LastNamed (entries : Nat → Nat → UInt8) (name : Nat → UInt8) (n k : Nat) : Prop where
  inside : k < n
  named : EntryNamed (entries k) name
  last : ∀ j, k < j → j < n → ¬ EntryNamed (entries j) name

/-- What the search of `n` entries has found. -/
def FoundLast (s s' : Fs H) (array : UInt32) (name : Nat → UInt8) (f : UInt32) (n : Nat) : Prop :=
  (f = 0 ∧ ∀ k < n, ¬ EntryNamed (s.entry array k) name) ∨
    ∃ k, LastNamed (s.entry array) name n k ∧ CopiedItem s' f (s.entry array k)

/-- Every request of a search of up to `n` entries is granted. -/
def SearchGranted (laws : BlockLaws A) (device : BlockDevice) (s : Fs H) (array : UInt32) (name : Nat → UInt8)
    (n : Nat) : Prop :=
  ∀ k ≤ n, ∀ f s', findItemFrom A device s array name 0 k 0 = some (f, s') → laws.granted s'.heap

theorem findItemFrom_one {i : Nat} (short : ∃ e < peachosMaxPathLength, name e = 0)
    (run : findItemFrom A device s array name f₀ 1 i = some (f, s')) :
    fat16GetFullFilenameWithExtension (s.entry array i) peachosMaxPathLength ≠ none ∧
      ((EntryNamed (s.entry array i) name ∧ fat16NewFatItemForDirectoryItem A device s array i = some (f, s')) ∨
        (¬ EntryNamed (s.entry array i) name ∧ f = f₀ ∧ s' = s)) := by
  obtain ⟨w, decoded, ⟨same, f₁, s₁, made, rest⟩ | ⟨other, rest⟩⟩ := findItemFrom_cases run
  · cases rest
    rw [decoded]
    exact ⟨Option.some_ne_none w, Or.inl ⟨⟨w, decoded, (istrncmp_eq_zero short).mp same⟩, made⟩⟩
  · cases rest
    refine ⟨?_, Or.inr ⟨?_, rfl, rfl⟩⟩
    · rw [decoded]
      exact Option.some_ne_none w
    · rintro ⟨w', decoded', same⟩
      cases decoded.symm.trans decoded'
      exact other ((istrncmp_eq_zero short).mpr same)

/-- The last entry with the name is found. -/
theorem findItemFrom_last (short : ∃ e < peachosMaxPathLength, name e = 0) (holds : laws.holds s.heap L)
    (live : n = 0 ∨ L array ≠ none) (granted : SearchGranted laws device s array name n)
    (run : findItemFrom A device s array name 0 n 0 = some (f, s')) :
    (∀ k < n, fat16GetFullFilenameWithExtension (s.entry array k) peachosMaxPathLength ≠ none) ∧
      FoundLast s s' array name f n := by
  induction n generalizing f s' with
  | zero =>
    cases run
    exact ⟨fun k below => absurd below (Nat.not_lt_zero k), Or.inl ⟨rfl, fun k below => absurd below (Nat.not_lt_zero k)⟩⟩
  | succ n ih =>
    have live : L array ≠ none := live.resolve_left (Nat.succ_ne_zero n)
    have granted' := granted (n + 1) (Nat.le_refl _) f s' run
    rw [findItemFrom_append] at run
    obtain ⟨⟨f₁, s₁⟩, before, one⟩ := Option.bind_eq_some_iff.mp run
    rw [Nat.zero_add] at one
    have granted₁ := granted n (Nat.le_succ n) f₁ s₁ before
    obtain ⟨decoded, found⟩ := ih (Or.inr live) (fun k below => granted k (Nat.le_succ_of_le below)) before
    obtain ⟨L₁, grows, _⟩ := findItemFrom_grows before granted₁ holds
    obtain ⟨decoded', one⟩ := findItemFrom_one short one
    rw [grows.kept.entry live n] at decoded' one
    constructor
    · intro k below
      by_cases here : k = n
      · rw [here]
        exact decoded'
      · exact decoded k (by omega)
    · obtain ⟨named, made⟩ | ⟨other, rfl, rfl⟩ := one
      · obtain ⟨L', _, own, copy⟩ := newFatItem_spec made granted' grows.holds
        refine Or.inr ⟨n, ⟨Nat.lt_succ_self n, named, fun j low high => by omega⟩, own.nonzero, own.type, ?_⟩
        intro j inside
        rw [copy (grows.extends'.owned live) j inside, grows.kept.entry live]
      · obtain ⟨zero, none⟩ | ⟨k, last, copied⟩ := found
        · refine Or.inl ⟨zero, fun k below => ?_⟩
          by_cases here : k = n
          · rw [here]
            exact other
          · exact none k (by omega)
        · refine Or.inr ⟨k, ⟨Nat.lt_succ_of_lt last.inside, last.named, fun j low high => ?_⟩, copied⟩
          by_cases here : j = n
          · rw [here]
            exact other
          · exact last.last j low (by omega)

/-- A subdirectory with the name is loaded, if its entry is one of the first `n`. -/
def NamedLoad (A : Allocator H) (device : BlockDevice) (s : Fs H) (array : UInt32) (name : Nat → UInt8) (n : Nat) : Prop :=
  ∀ k < n, EntryNamed (s.entry array k) name → ∀ s₁ : Fs H, s₁.private = s.private →
    s₁.entry array k = s.entry array k → fat16LoadFatDirectory A device s₁ array k ≠ none

theorem newFatItem_returns {i : Nat} (load : ∀ s₁ : Fs H, s₁.private = s.private →
      s₁.entry array i = s.entry array i → fat16LoadFatDirectory A device s₁ array i ≠ none) :
    ∃ r, fat16NewFatItemForDirectoryItem A device s array i = some r := by
  unfold fat16NewFatItemForDirectoryItem
  cases block : s.kZalloc A sizeofFatItem with
  | mk f s₁ =>
    obtain ⟨_, rfl⟩ := fsKZalloc_request block
    dsimp only
    split
    · exact ⟨_, rfl⟩
    · split
      · cases loaded : fat16LoadFatDirectory A device { s with heap := (A.malloc s.heap sizeofFatItem).2 } array i with
        | none => exact absurd loaded (load _ rfl rfl)
        | some r => exact ⟨_, rfl⟩
      · exact ⟨_, rfl⟩

/-- The search returns if every name it looks at can be decoded. -/
theorem findItemFrom_returns (short : ∃ e < peachosMaxPathLength, name e = 0) (holds : laws.holds s.heap L)
    (live : n = 0 ∨ L array ≠ none) (array' : n = 0 ∨ array ≠ 0) (granted : SearchGranted laws device s array name n)
    (load : NamedLoad A device s array name n)
    (decoded : ∀ k < n, fat16GetFullFilenameWithExtension (s.entry array k) peachosMaxPathLength ≠ none) :
    ∃ r, findItemFrom A device s array name 0 n 0 = some r := by
  induction n with
  | zero => exact ⟨_, rfl⟩
  | succ n ih =>
    have live : L array ≠ none := live.resolve_left (Nat.succ_ne_zero n)
    have array' : array ≠ 0 := array'.resolve_left (Nat.succ_ne_zero n)
    obtain ⟨⟨f₁, s₁⟩, before⟩ := ih (Or.inr live) (Or.inr array') (fun k below => granted k (Nat.le_succ_of_le below))
      (fun k below => load k (Nat.lt_succ_of_lt below)) fun k below => decoded k (Nat.lt_succ_of_lt below)
    obtain ⟨L₁, grows, _⟩ := findItemFrom_grows before (granted n (Nat.le_succ n) f₁ s₁ before) holds
    have entry := grows.kept.entry live n
    have here := decoded n (Nat.lt_succ_self n)
    rw [findItemFrom_append, before, Option.bind_some, Nat.zero_add, findItemFrom, if_neg array', entry]
    split
    · rename_i none
      exact absurd none here
    · rename_i w name'
      split
      · rename_i same
        have named : EntryNamed (s.entry array n) name := ⟨w, name', (istrncmp_eq_zero short).mp same⟩
        have load₁ (s₂ : Fs H) (private' : s₂.private = s₁.private) (entry' : s₂.entry array n = s₁.entry array n) :
            fat16LoadFatDirectory A device s₂ array n ≠ none :=
          load n (Nat.lt_succ_self n) named s₂ (private'.trans grows.kept.fixed.private) (entry'.trans entry)
        obtain ⟨r, made⟩ := newFatItem_returns load₁
        rw [made]
        exact ⟨_, rfl⟩
      · exact ⟨_, rfl⟩

end

/-! ## Directories on the disk -/

/-- `n` entries and an end mark. -/
structure DirectoryImage (content : Nat → UInt8) (n : Nat) : Prop where
  before : ∀ k < n, content (32 * k) ≠ 0
  last : content (32 * n) = 0

/-- How many of the first `n` entries are not deleted. -/
def liveCount (content : Nat → UInt8) (n : Nat) : Nat :=
  (List.range n).countP fun k => content (32 * k) ≠ 0xE5

/-- The directory is that of the root, or of a loaded subdirectory, and its array is as it was loaded. -/
inductive DirectoryLoaded {H : Type} (A : Allocator H) (device : BlockDevice) (s : Fs H) (content : Nat → UInt8)
    (n : Nat) : FatDirectory → Prop
  | root {disk : Nat → UInt8} {pos : Nat} {s₀ s₁ : Fs H} (delivers : Delivers device disk)
      (mount : fat16Resolve A device s₀ = some (0, s₁)) (place : rootDirPos (bootHeader device) = pos)
      (image : ∀ j, content j = disk (pos + j)) (inside : n < (bootHeader device).roodDirEntries.toNat)
      (fits : pos + 32 * (bootHeader device).roodDirEntries.toNat < 2 ^ 31)
      (kept : s.items s₁.private.rootDirectory.item = s₁.items s₁.private.rootDirectory.item) :
      DirectoryLoaded A device s content n s₁.private.rootDirectory
  | subdirectory {array d : UInt32} {i : Nat} {s₀ s₁ : Fs H}
      (marked : itemAttribute (s₀.entry array i) = fatFileSubdirectory)
      (load : fat16LoadFatDirectory A device s₀ array i = some (d, s₁)) (nonnull : d ≠ 0)
      (counted : LinearTotal device s₀.private (s₀.entry array i) (liveCount content n))
      (small : 32 * liveCount content n < 2 ^ 31)
      (memory : liveCount content n = 0 ∨ (s₁.directories d).item ≠ 0)
      (reads : ∀ streams, ∃ streams', fat16ReadInternal device s₀.private streams (loadCluster (s₀.entry array i)) 0
        (32 * liveCount content n : Nat) =
          some (0, (List.range (32 * liveCount content n)).map content, streams'))
      (kept : s.items (s₁.directories d).item = s₁.items (s₁.directories d).item) :
      DirectoryLoaded A device s content n (s₁.directories d)

theorem liveCount_le (content : Nat → UInt8) (n : Nat) : liveCount content n ≤ n := by
  have most := List.countP_le_length (p := fun k => content (32 * k) ≠ 0xE5) (l := List.range n)
  rwa [List.length_range] at most

section

variable {H : Type} {A : Allocator H} {device : BlockDevice} {s : Fs H} {content : Nat → UInt8} {n : Nat}
  {directory : FatDirectory}

/-- The array begins with the entries of the image, and the total is the number of live ones. -/
structure ImageStored (s : Fs H) (content : Nat → UInt8) (n : Nat) (directory : FatDirectory) : Prop where
  total : (UInt32.ofInt directory.total).toNat = liveCount content n
  array : liveCount content n = 0 ∨ directory.item ≠ 0
  bytes : ∀ j < 32 * liveCount content n, s.items directory.item j = content j

theorem written_map {content mem : Nat → UInt8} {m j : Nat} (inside : j < m) :
    written ((List.range m).map content) mem j = content j := by
  simp [written, inside]

theorem DirectoryLoaded.stored (loaded : DirectoryLoaded A device s content n directory)
    (image : DirectoryImage content n) : ImageStored s content n directory := by
  have most := liveCount_le content n
  cases loaded with
  | @root disk pos s₀ s₁ delivers mount place bytes inside fits kept =>
    obtain ⟨mounted, stored⟩ := fat16Resolve_done mount
    have header := mounted.header
    obtain ⟨mem, array⟩ := stored.bytes
    have small := (bootHeader device).roodDirEntries.toNat_lt
    have ends : EndsAt device (rootDirPos s₁.private.header) n := by
      rw [header, place]
      apply endsAt_disk delivers (by omega)
      · intro k below
        rw [← bytes]
        exact image.before k below
      · rw [← bytes]
        exact image.last
    have total := mounted.total_ends ends
    have live : liveEntries device (rootDirPos s₁.private.header) n = liveCount content n := by
      rw [header, place, liveEntries_disk delivers (by omega)]
      unfold liveCount
      simp only [bytes]
    rw [live] at total
    have read := diskSteamerRead_delivers delivers pos (32 * (bootHeader device).roodDirEntries.toNat) fits
    have length : ((bootHeader device).roodDirEntries.toNat * sizeofFatDirectoryItem : Int) =
        (32 * (bootHeader device).roodDirEntries.toNat : Nat) := by
      unfold sizeofFatDirectoryItem
      omega
    refine ⟨?_, Or.inr stored.nonnull, fun j below => ?_⟩
    · rw [total, Address.ofInt_natCast, UInt32.toNat_ofNat']
      omega
    · rw [kept, array, header, place, length, read.2.1, bytes]
      unfold diskBytes
      exact written_map (by omega)
  | @subdirectory array d i s₀ s₁ marked load nonnull counted small memory reads kept =>
    have made := (loadFatDirectory_total marked load nonnull).1
    obtain ⟨e, ends, live⟩ := counted
    have count := totalItems_ends ends 0
    rw [live, Int.zero_add] at count
    obtain ⟨null, some'⟩ := loadFatDirectory_counted marked made count
    rw [directorySize_bits] at null some'
    have entries : (UInt32.ofInt (liveCount content n : Nat)).toNat = liveCount content n := by
      rw [Address.ofInt_natCast, UInt32.toNat_ofNat']
      omega
    by_cases item : entriesBlock A s₀ (.ofNat (32 * liveCount content n)) = 0
    · obtain ⟨t, again, stored⟩ := null item
      rw [load] at again
      cases again
      have none : liveCount content n = 0 := by
        refine memory.resolve_right fun some => some ?_
        rw [stored]
      rw [stored]
      refine ⟨entries, Or.inl none, fun j below => ?_⟩
      omega
    · obtain ⟨streams, read⟩ := some' item
      have length : int32 (liveCount content n * sizeofFatDirectoryItem) = ((32 * liveCount content n : Nat) : Int) := by
        rw [directorySize_eq]
        exact int32_of_range (by omega) (by omega)
      obtain ⟨streams', delivered⟩ := reads streams
      rw [length, delivered] at read
      obtain ⟨t, again, stored, bytes⟩ := read
      rw [load] at again
      cases again
      rw [stored] at kept ⊢
      refine ⟨entries, Or.inr item, fun j below => ?_⟩
      rw [kept]
      dsimp only
      rw [bytes]
      exact written_map below

/-- Entry `k` of the image with what follows it: in the array for the entries that are loaded,
on the disk for the others. A name may go on behind its entry. -/
def seenEntry (s : Fs H) (directory : FatDirectory) (content : Nat → UInt8) (n k : Nat) : Nat → UInt8 :=
  if k < liveCount content n then s.entry directory.item k else fun j => content (32 * k + j)

/-- Entry `k` is not deleted, and has the name. -/
structure LiveNamed (s : Fs H) (directory : FatDirectory) (content : Nat → UInt8) (n : Nat) (name : Nat → UInt8)
    (k : Nat) : Prop where
  inside : k < n
  live : content (32 * k) ≠ 0xE5
  named : EntryNamed (seenEntry s directory content n k) name

/-- An item is found exactly when a live entry has the name, and it is a copy of such an entry. -/
def FindRight (A : Allocator H) (device : BlockDevice) (s : Fs H) (directory : FatDirectory)
    (content : Nat → UInt8) (n : Nat) (name : Nat → UInt8) : Prop :=
  ∃ f s', fat16FindItemInDirectory A device s directory name = some (f, s') ∧
    (f ≠ 0 ↔ ∃ k, LiveNamed s directory content n name k) ∧
    (f ≠ 0 → ∃ k, LiveNamed s directory content n name k ∧
      ∀ j < sizeofFatDirectoryItem, s'.items (s'.fatItems f).item j = content (32 * k + j))

/-- As many entries as are live, from the first on, can be decoded; a live entry with the name is among them
if there is any, and a deleted one is not. -/
structure SearchReaches (s : Fs H) (directory : FatDirectory) (content : Nat → UInt8) (n : Nat)
    (name : Nat → UInt8) : Prop where
  decoded : ∀ k < liveCount content n,
    fat16GetFullFilenameWithExtension (s.entry directory.item k) peachosMaxPathLength ≠ none
  early : ∀ k, LiveNamed s directory content n name k → ∃ j < liveCount content n, LiveNamed s directory content n name j
  deleted : ∀ k < liveCount content n, EntryNamed (s.entry directory.item k) name → content (32 * k) ≠ 0xE5

variable {name : Nat → UInt8} {laws : BlockLaws A} {L : Ledger UInt32 Nat}

theorem ImageStored.entry (stored : ImageStored s content n directory) {k j : Nat} (early : k < liveCount content n)
    (inside : j < sizeofFatDirectoryItem) : s.entry directory.item k j = content (32 * k + j) := by
  have size : sizeofFatDirectoryItem = 32 := rfl
  rw [Fs.entry, size]
  rw [size] at inside
  exact stored.bytes _ (by omega)

theorem seenEntry_loaded (s : Fs H) (directory : FatDirectory) {k : Nat} (early : k < liveCount content n) :
    seenEntry s directory content n k = s.entry directory.item k := if_pos early

theorem ImageStored.seen_first (stored : ImageStored s content n directory) (k : Nat) :
    seenEntry s directory content n k 0 = content (32 * k) := by
  by_cases early : k < liveCount content n
  · rw [seenEntry_loaded s directory early]
    exact stored.entry early (by decide)
  · rw [seenEntry, if_neg early]
    rfl

/-- A loaded entry with the name is live if another one is. -/
theorem LiveNamed.loaded {k j : Nat} (live : LiveNamed s directory content n name k)
    (stored : ImageStored s content n directory) (early : j < liveCount content n)
    (named : EntryNamed (s.entry directory.item j) name) : LiveNamed s directory content n name j := by
  have seen := seenEntry_loaded s directory early
  rw [← seen] at named
  refine ⟨Nat.lt_of_lt_of_le early (liveCount_le content n), ?_, named⟩
  have other := live.live
  rwa [ne_eq, ← stored.seen_first, ← live.named.deleted, named.deleted, stored.seen_first] at other

/-- **The search is right** exactly when the entries it looks at can be decoded, one of them is found if any
live entry has the name, and no deleted one. -/
theorem findItem_right_iff (loaded : DirectoryLoaded A device s content n directory)
    (image : DirectoryImage content n) (short : ∃ e < peachosMaxPathLength, name e = 0)
    (holds : laws.holds s.heap L) (block : liveCount content n = 0 ∨ L directory.item ≠ none)
    (granted : SearchGranted laws device s directory.item name (liveCount content n))
    (load : NamedLoad A device s directory.item name (liveCount content n)) :
    FindRight A device s directory content n name ↔ SearchReaches s directory content n name := by
  have stored := loaded.stored image
  unfold FindRight fat16FindItemInDirectory
  rw [stored.total]
  constructor
  · rintro ⟨f, s', run, found, copy⟩
    obtain ⟨decoded, last⟩ := findItemFrom_last short holds block granted run
    refine ⟨decoded, fun k live => ?_, fun k early named => ?_⟩
    · have some := found.mpr ⟨k, live⟩
      obtain ⟨zero, _⟩ | ⟨j, last, _⟩ := last
      · exact absurd zero some
      · exact ⟨j, last.inside, live.loaded stored last.inside last.named⟩
    · obtain ⟨_, none⟩ | ⟨j, last, copied⟩ := last
      · exact absurd named (none k early)
      · obtain ⟨i, live⟩ := found.mp copied.nonzero
        exact (live.loaded stored early named).live
  · rintro ⟨decoded, early, deleted⟩
    obtain ⟨⟨f, s'⟩, run⟩ := findItemFrom_returns short holds block stored.array granted load decoded
    refine ⟨f, s', run, ?_⟩
    obtain ⟨_, ⟨rfl, none⟩ | ⟨k, last, copied⟩⟩ := findItemFrom_last short holds block granted run
    · have missing : ¬ ∃ k, LiveNamed s directory content n name k := by
        rintro ⟨k, live⟩
        obtain ⟨j, inside, live⟩ := early k live
        have named := live.named
        rw [seenEntry_loaded s directory inside] at named
        exact none j inside named
      exact ⟨iff_of_false (not_not.mpr rfl) missing, fun some => absurd rfl some⟩
    · have named := last.named
      rw [← seenEntry_loaded s directory last.inside] at named
      have live : LiveNamed s directory content n name k :=
        ⟨Nat.lt_of_lt_of_le last.inside (liveCount_le content n), deleted k last.inside last.named, named⟩
      refine ⟨iff_of_true copied.nonzero ⟨k, live⟩, fun _ => ⟨k, live, fun j inside => ?_⟩⟩
      rw [copied.bytes j inside]
      exact stored.entry last.inside inside

end

/-! ## Two entries in the root directory -/

/-- A disk with room for four root entries. The first has the one letter `first`, the attribute `attr` and the cluster 2,
the second has the one letter `second`, or is the end mark. -/
def listDisk (first second attr : UInt8) (x : Nat) : UInt8 :=
  if x = 13 ∨ x = 14 then 1
  else if x = 17 then 4
  else if x = 38 then 0x29
  else if x = 512 then first
  else if x = 544 then second
  else if x = 523 then attr
  else if x = 538 then 2
  else if (512 < x ∧ x < 523) ∨ (544 < x ∧ x < 555) then 0x20
  else 0

/-- The root directory on it. -/
def listContent (first second attr : UInt8) (j : Nat) : UInt8 := listDisk first second attr (512 + j)

/-- The name `a`. -/
def noteName (i : Nat) : UInt8 := if i = 0 then 97 else 0

section

variable {first second attr : UInt8}

theorem listDisk_header : bootHeader (deviceOf (listDisk first second attr)) = ⟨1, 1, 0, 4, 0⟩ := by
  rw [bootHeader_disk (deviceOf_delivers _)]
  simp [fatHeaderOf, diskBytes, listDisk]

theorem listDisk_place : rootDirPos (bootHeader (deviceOf (listDisk first second attr))) = (512 : Nat) := by
  rw [listDisk_header]
  decide

theorem listDisk_accepted {H : Type} {A : Allocator H} (s : Fs H) {n : Nat} (inside : n < 4)
    (image : DirectoryImage (listContent first second attr) n)
    (nonnull : ∀ i < 6, A.pointer s.heap (mountRequests ⟨1, 1, 0, 4, 0⟩) i ≠ 0) :
    ∃ s₁, fat16Resolve A (deviceOf (listDisk first second attr)) s = some (0, s₁) ∧
      s₁.private.rootDirectory.item = A.pointer s.heap (mountRequests ⟨1, 1, 0, 4, 0⟩) 5 ∧
      ∀ s' : Fs H, s'.items s₁.private.rootDirectory.item = s₁.items s₁.private.rootDirectory.item →
        DirectoryLoaded A (deviceOf (listDisk first second attr)) s' (listContent first second attr) n
          s₁.private.rootDirectory := by
  have ends : EndsAt (deviceOf (listDisk first second attr)) (rootDirPos (bootHeader (deviceOf (listDisk first second attr)))) n := by
    rw [listDisk_place]
    exact endsAt_disk (deviceOf_delivers _) (by omega) image.before image.last
  have signature : (diskSteamerRead (deviceOf (listDisk first second attr)) 0 sizeofFatH).out.getD 38 0 = fat16Signature :=
    signature_disk (deviceOf_delivers _)
  have header := @listDisk_header first second attr
  rw [← header] at nonnull ⊢
  obtain ⟨s₁, mount, item⟩ := fat16Resolve_accepts (deviceOf_neverFails _) s nonnull signature ends
  refine ⟨s₁, mount, item, fun s' kept => ?_⟩
  refine .root (deviceOf_delivers _) mount listDisk_place (fun _ => rfl) ?_ ?_ kept
  · rw [listDisk_header]
    exact inside
  · rw [listDisk_header]
    decide

end

theorem noteName_short : ∃ e < peachosMaxPathLength, noteName e = 0 := ⟨1, by decide, rfl⟩

/-- The entry of a file named `A` has the name. -/
theorem note_named {entry : Nat → UInt8} (first : entry 0 = 0x41) (rest : ∀ j, 1 ≤ j → j ≤ 8 → entry j = 0x20) :
    fat16GetFullFilenameWithExtension entry peachosMaxPathLength = some [0x41] ∧ EntryNamed entry noteName := by
  have run : Runs entry 0 1 := by
    intro j _ below stop
    obtain rfl : j = 0 := by omega
    rw [Stops, first] at stop
    exact absurd stop (by decide)
  have fits : 1 < peachosMaxPathLength := by decide
  have stop (j : Nat) (low : 1 ≤ j) (high : j ≤ 8) : Stops entry j := Or.inr (rest j low high)
  have decoded := (fullFilename_base run (stop 1 (by decide) (by decide)) fits (stop 8 (by decide) (by decide))).1
  have bytes : (List.range' 0 1).map entry = [0x41] := by
    rw [← first]
    rfl
  rw [bytes] at decoded
  refine ⟨decoded, _, decoded, fun i before => ?_⟩
  cases i with
  | zero => rfl
  | succ i =>
    cases i with
    | zero => rfl
    | succ i => exact absurd rfl (before 1 (by omega))

theorem note_image {attr : UInt8} : DirectoryImage (listContent 0x41 0xE5 attr) 2 ∧
    liveCount (listContent 0x41 0xE5 attr) 2 = 1 := by
  have first : listContent 0x41 0xE5 attr (32 * 0) = 0x41 := rfl
  have second : listContent 0x41 0xE5 attr (32 * 1) = 0xE5 := rfl
  refine ⟨⟨fun k below => ?_, rfl⟩, rfl⟩
  obtain rfl | rfl : k = 0 ∨ k = 1 := by omega
  · rw [first]
    decide
  · rw [second]
    decide

theorem note_spaces {first second attr : UInt8} {k j : Nat} (early : k < 2) (low : 1 ≤ j) (high : j ≤ 8) :
    listContent first second attr (32 * k + j) = 0x20 := by
  unfold listContent listDisk
  repeat rw [if_neg (by omega)]
  rw [if_pos (by omega)]

/-- An item for a file takes two blocks. -/
theorem freshHeap_newItem {s s' : Fs Nat} {device : BlockDevice} {array f : UInt32} {i : Nat}
    (file : itemAttribute (s.entry array i) &&& fatFileSubdirectory = 0)
    (made : fat16NewFatItemForDirectoryItem freshHeap device s array i = some (f, s')) : s'.heap ≤ s.heap + 2 := by
  obtain ⟨s₁, block, ⟨_, rfl⟩ | ⟨_, s₂, c, s₃, prepared, clone, rfl⟩⟩ := newFatItem_cases made
  · obtain ⟨_, rfl⟩ := fsKZalloc_request block
    exact Nat.le_succ (s.heap + 1)
  · obtain ⟨_, rfl⟩ := fsKZalloc_request block
    obtain ⟨directory, _⟩ | ⟨_, rfl⟩ := prepared
    · exact absurd file directory
    · obtain ⟨_, heap, _⟩ := cloneDirectoryItem_request clone
      have after : s₃.heap = s.heap + 1 + 1 := heap
      exact Nat.le_of_eq after

/-- The volume with the entry `A` and a deleted one, mounted, and the paths `a` and `a/a`. -/
theorem note_mounted (attr : UInt8) : ∃ s : Fs Nat, s.heap = 6 ∧ s.parts 1 = ⟨1, 0⟩ ∧ s.parts 2 = ⟨1, 1⟩ ∧ s.strings 1 = noteName ∧
    s.private.rootDirectory.item = 0x1005000 ∧ Mounted (deviceOf (listDisk 0x41 0xE5 attr)) s.private ∧
    DirectoryLoaded freshHeap (deviceOf (listDisk 0x41 0xE5 attr)) s (listContent 0x41 0xE5 attr) 2
      s.private.rootDirectory := by
  have image : DirectoryImage (listContent 0x41 0xE5 attr) 2 := note_image.1
  obtain ⟨s₁, mount, item, loads⟩ := listDisk_accepted (A := freshHeap) (noteFiles 0 0).toFs (by decide) image (by decide)
  have place : s₁.private.rootDirectory.item = 0x1005000 := item.trans (by decide)
  have mounted := fat16Resolve_accepted mount
  exact ⟨{ s₁ with heap := 6, parts := fun p => if p = 2 then ⟨1, 1⟩ else ⟨1, 0⟩, strings := fun _ => noteName },
    rfl, rfl, rfl, rfl, place, mounted, loads _ rfl⟩

section

variable {s : Fs Nat} {directory : FatDirectory} {attr : UInt8}

theorem note_entry (stored : ImageStored s (listContent 0x41 0xE5 attr) 2 directory) {j : Nat} (inside : j < 32) :
    s.entry directory.item 0 j = listContent 0x41 0xE5 attr j := by
  have early : 0 < liveCount (listContent 0x41 0xE5 attr) 2 := by
    rw [note_image.2]
    decide
  have byte := stored.entry early inside
  rwa [Nat.mul_zero, Nat.zero_add] at byte

theorem note_attribute (stored : ImageStored s (listContent 0x41 0xE5 attr) 2 directory) :
    itemAttribute (s.entry directory.item 0) = attr := by
  rw [itemAttribute, note_entry stored (by decide)]
  rfl

/-- The entry's name in the array. -/
theorem note_seen (stored : ImageStored s (listContent 0x41 0xE5 attr) 2 directory) :
    fat16GetFullFilenameWithExtension (s.entry directory.item 0) peachosMaxPathLength = some [0x41] ∧
      EntryNamed (s.entry directory.item 0) noteName := by
  apply note_named
  · exact note_entry stored (by decide)
  · intro j low high
    rw [note_entry stored (by omega)]
    simpa using note_spaces (k := 0) (by decide) low high

theorem note_granted (stored : ImageStored s (listContent 0x41 0xE5 0) 2 directory) (heap : s.heap = 6) :
    SearchGranted freshBlocks (deviceOf (listDisk 0x41 0xE5 0)) s directory.item noteName
      (liveCount (listContent 0x41 0xE5 0) 2) := by
  intro k below f s' run
  rw [note_image.2] at below
  show s'.heap ≤ 25600
  match k with
  | 0 =>
    cases run
    rw [heap]
    decide
  | 1 =>
    obtain ⟨_, ⟨_, made⟩ | ⟨_, _, rfl⟩⟩ := findItemFrom_one noteName_short run
    · have more := freshHeap_newItem (by rw [note_attribute stored]; decide) made
      omega
    · rw [heap]
      decide

theorem note_load (stored : ImageStored s (listContent 0x41 0xE5 0) 2 directory) (name : Nat → UInt8) :
    NamedLoad freshHeap (deviceOf (listDisk 0x41 0xE5 0)) s directory.item name (liveCount (listContent 0x41 0xE5 0) 2) := by
  intro k below _ s₂ _ same
  rw [note_image.2] at below
  obtain rfl := Nat.lt_one_iff.mp below
  unfold fat16LoadFatDirectory
  rw [same, note_attribute stored, if_pos (by decide)]
  exact Option.some_ne_none _

theorem note_holds (heap : s.heap = 6) :
    freshBlocks.holds s.heap (Function.update (fun _ => none) 0x1005000 (some 1)) := by
  intro x some
  by_cases here : x = 0x1005000
  · rw [here, heap]
    decide
  · rw [Function.update_of_ne here] at some
    exact absurd rfl some

end

theorem note_found : ∃ s : Fs Nat,
    DirectoryLoaded freshHeap (deviceOf (listDisk 0x41 0xE5 0)) s (listContent 0x41 0xE5 0) 2 s.private.rootDirectory ∧
      FindRight freshHeap (deviceOf (listDisk 0x41 0xE5 0)) s s.private.rootDirectory (listContent 0x41 0xE5 0) 2 noteName := by
  obtain ⟨s, heap, _, _, _, place, _, loaded⟩ := note_mounted 0
  have image : DirectoryImage (listContent 0x41 0xE5 0) 2 := note_image.1
  have count : liveCount (listContent 0x41 0xE5 0) 2 = 1 := note_image.2
  have stored := loaded.stored image
  have block : Function.update (fun _ => none) 0x1005000 (some 1) s.private.rootDirectory.item ≠ none := by
    rw [place, Function.update_self]
    exact Option.some_ne_none 1
  refine ⟨s, loaded, (findItem_right_iff loaded image noteName_short (note_holds heap) (Or.inr block)
    (note_granted stored heap) (note_load stored noteName)).mpr ?_⟩
  have zero {k : Nat} (below : k < liveCount (listContent 0x41 0xE5 0) 2) : k = 0 := by omega
  constructor
  · intro k below
    rw [zero below, (note_seen stored).1]
    exact Option.some_ne_none _
  · intro k live
    -- the deleted entry is not the one named
    have first : k = 0 := by
      by_contra later
      obtain rfl : k = 1 := by
        have inside := live.inside
        omega
      exact live.live rfl
    exact ⟨k, by rw [count, first]; decide, live⟩
  · intro k below _
    rw [zero below]
    decide

/-- An entry that is deleted before it hides the file `A`. -/
theorem deleted_first_hides : ∃ s, fat16Resolve kernelAllocator (deviceOf (listDisk 0xE5 0x41 0)) bootFs = some (0, s) ∧
    DirectoryImage (listContent 0xE5 0x41 0) 2 ∧
    DirectoryLoaded kernelAllocator (deviceOf (listDisk 0xE5 0x41 0)) s (listContent 0xE5 0x41 0) 2 s.private.rootDirectory ∧
    LiveNamed s s.private.rootDirectory (listContent 0xE5 0x41 0) 2 noteName 1 ∧
    ¬ FindRight kernelAllocator (deviceOf (listDisk 0xE5 0x41 0)) s s.private.rootDirectory
      (listContent 0xE5 0x41 0) 2 noteName := by
  have image : DirectoryImage (listContent 0xE5 0x41 0) 2 := ⟨by decide, by decide⟩
  have count : liveCount (listContent 0xE5 0x41 0) 2 = 1 := by decide
  obtain ⟨s, mount, _, loads⟩ := listDisk_accepted (A := kernelAllocator) bootFs (by decide) image
    fun i below => bootFs_nonnull (by decide) (by decide) below
  have loaded := loads s rfl
  have stored := loaded.stored image
  have live : LiveNamed s s.private.rootDirectory (listContent 0xE5 0x41 0) 2 noteName 1 := by
    refine ⟨by decide, by decide, ?_⟩
    rw [seenEntry, count, if_neg (Nat.lt_irrefl 1)]
    apply (note_named _ _).2
    · decide
    · decide
  refine ⟨s, mount, image, loaded, live, ?_⟩
  rintro ⟨f, s', run, found, _⟩
  unfold fat16FindItemInDirectory at run
  rw [stored.total, count] at run
  obtain ⟨_, ⟨named, _⟩ | ⟨_, none, _⟩⟩ := findItemFrom_one noteName_short run
  · have first : s.entry s.private.rootDirectory.item 0 0 = 0xE5 := by
      rw [stored.entry (by rw [count]; decide) (by decide)]
      decide
    exact absurd (named.deleted.mpr first) (by decide)
  · exact found.mpr ⟨1, live⟩ none

end PeachOs
