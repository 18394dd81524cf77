import PeachOs.FatBlocks
import PeachOs.OpenFile

/-!
# Opening and closing

The ways through `fopen`, and what `fclose` does with a file's descriptor.
-/

namespace PeachOs

open Function (update)

variable {H : Type} {A : Allocator H} {device : BlockDevice}

/-! ## The file system's part -/

/-- `fat16_open` refuses to open before it asks for an item. -/
inductive OpenRefused (A : Allocator H) (s : Fs H) (mode : UInt32) : UInt32 → Fs H → Prop
  | mode (write : mode ≠ fileModeRead) : OpenRefused A s mode (error (-erdonly)) s
  | memory {s' : Fs H} (read : mode = fileModeRead) (block : s.kZalloc A sizeofFatFileDescriptor = (0, s')) :
      OpenRefused A s mode (error (-enomem)) s'

/-- It has the descriptor `p`, and the search for an item gave `item`. -/
structure OpenSearched (A : Allocator H) (device : BlockDevice) (s : Fs H) (path mode p item : UInt32)
    (s₁ s₂ : Fs H) : Prop where
  read : mode = fileModeRead
  nonzero : p ≠ 0
  block : s.kZalloc A sizeofFatFileDescriptor = (p, s₁)
  search : fat16GetDirectoryEntry A device s₁ path = some (item, s₂)

def Fs.setDescriptor (s : Fs H) (p : UInt32) (descriptor : FatFileDescriptor) : Fs H :=
  { s with fatDescriptors := update s.fatDescriptors p descriptor }

theorem fat16Open_cases {s s' : Fs H} {path mode r : UInt32} (run : fat16Open A device s path mode = some (r, s')) :
    OpenRefused A s mode r s' ∨ ∃ p item s₁ s₂, OpenSearched A device s path mode p item s₁ s₂ ∧
      r = (if item = 0 then error (-eio) else p) ∧ s' = s₂.setDescriptor p ⟨item, 0⟩ := by
  unfold fat16Open at run
  split at run
  · rename_i write
    cases run
    exact Or.inl (.mode write)
  · rename_i read
    have read := not_not.mp read
    cases block : s.kZalloc A sizeofFatFileDescriptor with
    | mk p s₁ =>
      rw [block] at run
      dsimp only at run
      split at run
      · rename_i missing
        subst missing
        cases run
        exact Or.inl (.memory read block)
      · rename_i nonzero
        right
        cases search : fat16GetDirectoryEntry A device s₁ path with
        | none => simp [search] at run
        | some result =>
          obtain ⟨item, s₂⟩ := result
          simp only [search, Option.bind_eq_bind, Option.bind_some] at run
          refine ⟨p, item, s₁, s₂, ⟨read, nonzero, block, search⟩, ?_⟩
          split at run
          · rename_i missing
            cases run
            rw [if_pos missing]
            exact ⟨rfl, rfl⟩
          · rename_i found
            cases run
            rw [if_neg found]
            exact ⟨rfl, rfl⟩

theorem fat16Open_requested {s s' : Fs H} {path mode r : UInt32}
    (run : fat16Open A device s path mode = some (r, s')) : Requested A s s' := by
  obtain refused | ⟨p, item, s₁, s₂, searched, _, rfl⟩ := fat16Open_cases run
  · cases refused with
    | mode => exact .refl s
    | memory _ block => exact fsKZalloc_requested block
  · have requested := (fsKZalloc_requested searched.block).trans (getDirectoryEntry_made searched.search).1
    exact ⟨requested.asks, { requested.fixed with }⟩

/-! ## The table of descriptors -/

theorem freeDescriptorFrom_some {s : Files H} {left i k : Nat} (found : freeDescriptorFrom s left i = some k) :
    i ≤ k ∧ k < i + left ∧ s.fileDescriptors k = 0 ∧ ∀ j, i ≤ j → j < k → s.fileDescriptors j ≠ 0 := by
  induction left generalizing i with
  | zero => cases found
  | succ left ih =>
    rw [freeDescriptorFrom] at found
    split at found
    · rename_i empty
      cases found
      exact ⟨Nat.le_refl k, by omega, empty, fun j lo hi => absurd hi (Nat.not_lt.mpr lo)⟩
    · rename_i taken
      obtain ⟨lo, hi, empty, below⟩ := ih found
      refine ⟨by omega, by omega, empty, fun j low high => ?_⟩
      by_cases here : j = i
      · rw [here]
        exact taken
      · exact below j (by omega) high

theorem freeDescriptorFrom_none {s : Files H} {left i : Nat} :
    freeDescriptorFrom s left i = none ↔ ∀ j, i ≤ j → j < i + left → s.fileDescriptors j ≠ 0 := by
  induction left generalizing i with
  | zero =>
    refine iff_of_true rfl fun j lo hi => ?_
    exact absurd hi (Nat.not_lt.mpr lo)
  | succ left ih =>
    rw [freeDescriptorFrom]
    by_cases empty : s.fileDescriptors i = 0
    · rw [if_pos empty]
      refine iff_of_false (Option.some_ne_none i) fun full => ?_
      exact full i (Nat.le_refl i) (by omega) empty
    · rw [if_neg empty, ih]
      constructor
      · intro full j lo hi
        by_cases here : j = i
        · rw [here]
          exact empty
        · exact full j (by omega) (by omega)
      · intro full j lo hi
        exact full j (by omega) (by omega)

/-- Every slot of the table is in use. -/
def Files.Full (s : Files H) : Prop := ∀ i < peachosMaxFileDescriptors, s.fileDescriptors i ≠ 0

/-- Slot `i` is the lowest empty one. -/
structure Files.Lowest (s : Files H) (i : Nat) : Prop where
  inside : i < peachosMaxFileDescriptors
  empty : s.fileDescriptors i = 0
  below : ∀ j < i, s.fileDescriptors j ≠ 0

/-- No slot is empty, or there is no memory for a descriptor. -/
def NoDescriptor (A : Allocator H) (s s' : Files H) : Prop :=
  (s.Full ∧ s' = s) ∨ ∃ i fs, s.Lowest i ∧ s.toFs.kZalloc A sizeofFileDescriptor = (0, fs) ∧ s' = s.setFs fs

theorem fileNewDescriptor_cases {s s' : Files H} {res : Int} {desc : UInt32}
    (run : fileNewDescriptor A s = (res, desc, s')) :
    (res = -enomem ∧ NoDescriptor A s s') ∨
    (res = 0 ∧ desc ≠ 0 ∧ ∃ i fs, s.Lowest i ∧ s.toFs.kZalloc A sizeofFileDescriptor = (desc, fs) ∧
      s' = { s.setFs fs with
        descriptors := update s.descriptors desc ⟨i + 1, 0⟩
        fileDescriptors := update s.fileDescriptors i desc }) := by
  unfold fileNewDescriptor at run
  cases found : freeDescriptorFrom s peachosMaxFileDescriptors 0 with
  | none =>
    rw [found] at run
    cases run
    have full : s.Full := fun i hi => freeDescriptorFrom_none.mp found i (Nat.zero_le i) (by omega)
    exact Or.inl ⟨rfl, Or.inl ⟨full, rfl⟩⟩
  | some i =>
    obtain ⟨_, inside, empty, below⟩ := freeDescriptorFrom_some found
    have lowest : s.Lowest i := ⟨by omega, empty, fun j hj => below j (Nat.zero_le j) hj⟩
    rw [found] at run
    cases block : s.toFs.kZalloc A sizeofFileDescriptor with
    | mk q fs =>
      simp only [block] at run
      split at run
      · rename_i missing
        subst missing
        cases run
        exact Or.inl ⟨rfl, Or.inr ⟨i, fs, lowest, block, rfl⟩⟩
      · rename_i some
        cases run
        exact Or.inr ⟨rfl, some, i, fs, lowest, rfl, rfl⟩

/-! ## `fopen` -/

/-- The checks of `fopen` before it calls the file system. -/
structure Passes (s : Files H) (root : UInt32) (modeStr : List UInt8) : Prop where
  nonzero : root ≠ 0
  first : (s.roots root).first ≠ 0
  drive : (s.roots root).driveNo = 0
  filesystem : s.filesystem ≠ 0
  mode : fileGetModeByString modeStr ≠ fileModeInvalid

/-- The state with the new descriptor `d` in slot `i`, for the open file `p`. -/
def Files.setOpen (s : Files H) (fs : Fs H) (i : Nat) (d p : UInt32) : Files H :=
  { s.setFs fs with
    descriptors := update s.descriptors d ⟨i + 1, p⟩
    fileDescriptors := update s.fileDescriptors i d }

/-- The ways through `fopen` with the parsed path `root`. -/
inductive FopenRun (A : Allocator H) (device : BlockDevice) (s : Files H) (modeStr : List UInt8) (root : UInt32) :
    Int → Files H → Prop
  | refused {s' : Files H} (bad : ¬ Passes s root modeStr) (freed : fopenFails A s root = some (0, s')) :
      FopenRun A device s modeStr root 0 s'
  | unopened {r : UInt32} {fs : Fs H} {s' : Files H} (passes : Passes s root modeStr)
      (opened : fat16Open A device s.toFs (s.roots root).first (fileGetModeByString modeStr) = some (r, fs))
      (failed : errorI r < 0) (freed : fopenFails A (s.setFs fs) root = some (0, s')) :
      FopenRun A device s modeStr root 0 s'
  | noDescriptor {r : UInt32} {fs : Fs H} {s₁ s' : Files H} (passes : Passes s root modeStr)
      (opened : fat16Open A device s.toFs (s.roots root).first (fileGetModeByString modeStr) = some (r, fs))
      (pointer : ¬ errorI r < 0) (none : NoDescriptor A (s.setFs fs) s₁)
      (freed : fopenFails A s₁ root = some (0, s')) : FopenRun A device s modeStr root 0 s'
  | opened {r d : UInt32} {fs fs' : Fs H} {i : Nat} (passes : Passes s root modeStr)
      (opened : fat16Open A device s.toFs (s.roots root).first (fileGetModeByString modeStr) = some (r, fs))
      (pointer : ¬ errorI r < 0) (lowest : s.Lowest i) (nonzero : d ≠ 0)
      (block : fs.kZalloc A sizeofFileDescriptor = (d, fs')) :
      FopenRun A device s modeStr root (i + 1) (s.setOpen fs' i d r)

theorem fopenFails_zero {s s' : Files H} {root : UInt32} {res : Int}
    (run : fopenFails A s root = some (res, s')) : res = 0 := by
  unfold fopenFails at run
  cases freed : pathparserFree A s.toPaths root with
  | none => simp [freed] at run
  | some paths =>
    simp only [freed, Option.map_some, Option.some.injEq, Prod.mk.injEq] at run
    exact run.1.symm

/-- A check that fails leads to the exit. -/
theorem fopen_refused {s : Files H} {filename modeStr : List UInt8} {root : UInt32} {paths : Paths H}
    (parsed : pathparserParse A s.toPaths filename = some (root, paths))
    (bad : ¬ Passes (s.setPaths paths) root modeStr) :
    fopen A device s filename modeStr = fopenFails A (s.setPaths paths) root := by
  unfold fopen
  rw [parsed]
  dsimp only
  generalize s.setPaths paths = s at bad ⊢
  by_cases null : root = 0 ∨ (s.roots root).first = 0
  · rw [if_pos null]
  · rw [if_neg null]
    by_cases drive : (s.roots root).driveNo ≠ 0
    · rw [if_pos drive]
    · rw [if_neg drive]
      by_cases filesystem : s.filesystem = 0
      · rw [if_pos filesystem]
      · rw [if_neg filesystem]
        by_cases mode : fileGetModeByString modeStr = fileModeInvalid
        · rw [if_pos mode]
        · rw [not_or] at null
          exact absurd ⟨null.1, null.2, not_not.mp drive, filesystem, mode⟩ bad

section

variable {s : Files H} {filename modeStr : List UInt8} {root r : UInt32} {paths : Paths H} {fs : Fs H}

theorem fopen_unanswered (parsed : pathparserParse A s.toPaths filename = some (root, paths))
    (passes : Passes (s.setPaths paths) root modeStr)
    (lost : fat16Open A device (s.setPaths paths).toFs ((s.setPaths paths).roots root).first
      (fileGetModeByString modeStr) = none) : fopen A device s filename modeStr = none := by
  unfold fopen
  rw [parsed]
  dsimp only
  rw [if_neg (not_or.mpr ⟨passes.nonzero, passes.first⟩), if_neg (not_not.mpr passes.drive),
    if_neg passes.filesystem, if_neg passes.mode, lost]

/-- What is left of `fopen` once the file system answered. -/
theorem fopen_opened (parsed : pathparserParse A s.toPaths filename = some (root, paths))
    (passes : Passes (s.setPaths paths) root modeStr)
    (opened : fat16Open A device (s.setPaths paths).toFs ((s.setPaths paths).roots root).first
      (fileGetModeByString modeStr) = some (r, fs)) :
    fopen A device s filename modeStr =
      if errorI r < 0 then fopenFails A ((s.setPaths paths).setFs fs) root
      else
        let (res, d, s) := fileNewDescriptor A ((s.setPaths paths).setFs fs)
        if res ≠ 0 then fopenFails A s root
        else
          let s := { s with descriptors := update s.descriptors d { s.descriptors d with privateInfo := r } }
          let res := (s.descriptors d).index
          if res < 0 then fopenFails A s root else some (res, s) := by
  unfold fopen
  rw [parsed]
  dsimp only
  rw [if_neg (not_or.mpr ⟨passes.nonzero, passes.first⟩), if_neg (not_not.mpr passes.drive),
    if_neg passes.filesystem, if_neg passes.mode, opened]

/-- A mode other than reading leads to the exit too. -/
theorem fopen_unread (parsed : pathparserParse A s.toPaths filename = some (root, paths))
    (passes : Passes (s.setPaths paths) root modeStr) (write : fileGetModeByString modeStr ≠ fileModeRead) :
    fopen A device s filename modeStr = fopenFails A (s.setPaths paths) root := by
  have opened : fat16Open A device (s.setPaths paths).toFs ((s.setPaths paths).roots root).first
      (fileGetModeByString modeStr) = some (error (-erdonly), (s.setPaths paths).toFs) := by
    unfold fat16Open
    rw [if_pos write]
  have negative : errorI (error (-erdonly)) < 0 := by decide
  rw [fopen_opened parsed passes opened, if_pos negative]
  rfl

/-- With every slot in use the exit is taken before or after the search. -/
theorem fopen_full (parsed : pathparserParse A s.toPaths filename = some (root, paths)) (full : s.Full)
    (passes : Passes (s.setPaths paths) root modeStr)
    (opened : fat16Open A device (s.setPaths paths).toFs ((s.setPaths paths).roots root).first
      (fileGetModeByString modeStr) = some (r, fs)) :
    fopen A device s filename modeStr = fopenFails A ((s.setPaths paths).setFs fs) root := by
  have none : freeDescriptorFrom ((s.setPaths paths).setFs fs) peachosMaxFileDescriptors 0 = none :=
    freeDescriptorFrom_none.mpr fun j _ inside => full j (by omega)
  have unnumbered : fileNewDescriptor A ((s.setPaths paths).setFs fs) = (-enomem, 0, (s.setPaths paths).setFs fs) := by
    unfold fileNewDescriptor
    rw [none]
  have failed : (-enomem : Int) ≠ 0 := by decide
  rw [fopen_opened parsed passes opened]
  by_cases error : errorI r < 0
  · rw [if_pos error]
  · rw [if_neg error, unnumbered]
    dsimp only
    rw [if_pos failed]

end

theorem fopen_cases {s s' : Files H} {filename modeStr : List UInt8} {res : Int}
    (run : fopen A device s filename modeStr = some (res, s')) :
    ∃ root paths, pathparserParse A s.toPaths filename = some (root, paths) ∧
      FopenRun A device (s.setPaths paths) modeStr root res s' := by
  cases parsed : pathparserParse A s.toPaths filename with
  | none =>
    rw [fopen, parsed] at run
    cases run
  | some result =>
    obtain ⟨root, paths⟩ := result
    refine ⟨root, paths, rfl, ?_⟩
    by_cases passes : Passes (s.setPaths paths) root modeStr
    · cases opened : fat16Open A device (s.setPaths paths).toFs ((s.setPaths paths).roots root).first
          (fileGetModeByString modeStr) with
      | none =>
        rw [fopen_unanswered parsed passes opened] at run
        cases run
      | some answer =>
        obtain ⟨r, fs⟩ := answer
        rw [fopen_opened parsed passes opened] at run
        by_cases failed : errorI r < 0
        · rw [if_pos failed] at run
          cases fopenFails_zero run
          exact .unopened passes opened failed run
        · rw [if_neg failed] at run
          cases made : fileNewDescriptor A ((s.setPaths paths).setFs fs) with
          | mk res₁ rest =>
            obtain ⟨d, s₁⟩ := rest
            rw [made] at run
            dsimp only at run
            obtain ⟨rfl, none⟩ | ⟨rfl, nonzero, i, fs', lowest, block, rfl⟩ := fileNewDescriptor_cases made
            · rw [if_pos (by decide)] at run
              cases fopenFails_zero run
              exact .noDescriptor passes opened failed none run
            · rw [if_neg (not_not.mpr rfl)] at run
              simp only [Function.update_self, Function.update_idem] at run
              rw [if_neg (by omega)] at run
              cases run
              have slots : (s.setPaths paths).Lowest i := ⟨lowest.inside, lowest.empty, lowest.below⟩
              exact .opened passes opened failed slots nonzero block
    · rw [fopen_refused parsed passes] at run
      cases fopenFails_zero run
      exact .refused passes run

/-! ## `fclose` -/

/-- The open file `fd`: its descriptor `d`, the file system's `p`, and the item `f`. -/
structure OpenBlocks (s : Files H) (fd : Int) (d p f : UInt32) : Prop where
  slot : fileGetDescriptor s fd = d
  nonzero : d ≠ 0
  descriptor : s.descriptors d = ⟨fd, p⟩
  item : (s.fatDescriptors p).item = f
  type : (s.fatItems f).type = fatItemTypeFile

theorem setOpen_blocks {s : Files H} {fs : Fs H} {i : Nat} {d p f : UInt32} (inside : i < peachosMaxFileDescriptors)
    (nonzero : d ≠ 0) (item : (fs.fatDescriptors p).item = f) (type : (fs.fatItems f).type = fatItemTypeFile) :
    OpenBlocks (s.setOpen fs i d p) (i + 1) d p f := by
  have number : ¬ ((i : Int) + 1 ≤ 0 ∨ (i : Int) + 1 > peachosMaxFileDescriptors) := by omega
  have index : ((i : Int) + 1 - 1).toNat = i := by omega
  constructor
  · rw [fileGetDescriptor, if_neg number, index]
    exact Function.update_self i d s.fileDescriptors
  · exact nonzero
  · exact Function.update_self d _ s.descriptors
  · exact item
  · exact type

/-- The item's entry, the item, and the two descriptors are released, and the slot is emptied. -/
theorem fclose_eq {s : Files H} {fd : Int} {d p f : UInt32} (blocks : OpenBlocks s fd d p f) :
    fclose A s fd = (0, { s with
      heap := A.free (A.free (A.free (A.free s.heap (s.fatItems f).item) f) p) d
      fileDescriptors := update s.fileDescriptors (fd - 1).toNat 0 }) := by
  have file : ¬ (s.fatItems f).type = fatItemTypeDirectory := by
    rw [blocks.type]
    decide
  have freed : fat16Close A s.toFs p = (0, ({ s.toFs with
      heap := A.free (A.free (A.free s.heap (s.fatItems f).item) f) p } : Fs H)) := by
    unfold fat16Close fat16FatItemFree
    dsimp only
    rw [blocks.item, if_neg file, if_pos blocks.type]
    rfl
  unfold fclose
  rw [blocks.slot]
  dsimp only
  rw [if_neg blocks.nonzero, blocks.descriptor, freed]
  dsimp only
  rw [if_pos (show (0 : Int) = peachosAllOk from rfl)]
  unfold fileFreeDescriptor
  have descriptor : (s.setFs { s.toFs with
      heap := A.free (A.free (A.free s.heap (s.fatItems f).item) f) p }).descriptors d = ⟨fd, p⟩ := blocks.descriptor
  rw [descriptor]
  rfl

/-! ## A volume with one file -/

/-- The entry of a file named `A`. -/
def noteEntry (j : Nat) : UInt8 := if j = 0 then 65 else if j < 11 then 32 else 0

/-- The file system after the mount, where the root directory has `total` such entries. -/
def noteFiles {H : Type} (heap : H) (total : Int) : Files H where
  heap
  roots _ := ⟨0, 0⟩
  parts _ := ⟨0, 0⟩
  strings _ _ := 0
  filesystem := 1
  fsPrivate := 0
  privates _ := ⟨⟨0, 0, 0, 0, 0⟩, ⟨0x800000, total, 0, 0⟩, 0, 0, 0⟩
  streams _ := 0
  fatItems _ := ⟨0, 0⟩
  directories _ := ⟨0, 0, 0, 0⟩
  items _ := noteEntry
  fatDescriptors _ := ⟨0, 0⟩
  descriptors _ := ⟨0, 0⟩
  fileDescriptors _ := 0

/-- `0:/A` -/
def notePath : List UInt8 := [48, 58, 47, 65]

def emptyDisk : BlockDevice := fun _ => (0, fun _ => 0)

end PeachOs
