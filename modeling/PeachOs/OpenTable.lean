import PeachOs.OpenRuns

/-!
# The table of open files

Every open file has four blocks of its own: its descriptor, the file system's,
the item, and the item's copy of a directory entry. As long as every request is
granted, opening a file leaves what is live, and closing one releases its four.
-/

namespace PeachOs

open Ownership
open Function (update)

variable {H : Type} {A : Allocator H} {laws : BlockLaws A} {device : BlockDevice}

/-- What an open file looks at, if its blocks are live under `L`. -/
structure KeptFiles (L : Ledger UInt32 Nat) (s s' : Files H) : Prop where
  volume : s'.toFs.private = s.toFs.private
  descriptors : ∀ x, L x ≠ none → s'.descriptors x = s.descriptors x
  fatDescriptors : ∀ x, L x ≠ none → s'.fatDescriptors x = s.fatDescriptors x
  fatItems : ∀ x, L x ≠ none → s'.fatItems x = s.fatItems x
  items : ∀ x, L x ≠ none → s'.items x = s.items x

/-- The blocks of the file in slot `i`. -/
def Files.slotBlocks (s : Files H) (i : Nat) : List UInt32 :=
  let d := s.fileDescriptors i
  let p := (s.descriptors d).privateInfo
  let f := (s.fatDescriptors p).item
  [d, p, f, (s.fatItems f).item]

/-- The open files' blocks are live and apart, and each descriptor knows its number. -/
structure TableOk (L : Ledger UInt32 Nat) (s : Files H) : Prop where
  live : ∀ i < peachosMaxFileDescriptors, s.fileDescriptors i ≠ 0 → ∀ x ∈ s.slotBlocks i, L x ≠ none
  nodup : ∀ i < peachosMaxFileDescriptors, s.fileDescriptors i ≠ 0 → (s.slotBlocks i).Nodup
  apart : ∀ i < peachosMaxFileDescriptors, ∀ j < peachosMaxFileDescriptors, s.fileDescriptors i ≠ 0 →
    s.fileDescriptors j ≠ 0 → i ≠ j → ∀ x ∈ s.slotBlocks i, x ∉ s.slotBlocks j
  index : ∀ i < peachosMaxFileDescriptors, s.fileDescriptors i ≠ 0 →
    (s.descriptors (s.fileDescriptors i)).index = i + 1
  type : ∀ i < peachosMaxFileDescriptors, s.fileDescriptors i ≠ 0 →
    (s.fatItems (s.fatDescriptors (s.descriptors (s.fileDescriptors i)).privateInfo).item).type = fatItemTypeFile

section

variable {L L' : Ledger UInt32 Nat} {s s' s'' : Files H} {i : Nat}

theorem KeptFiles.refl (L : Ledger UInt32 Nat) (s : Files H) : KeptFiles L s s :=
  ⟨rfl, fun _ _ => rfl, fun _ _ => rfl, fun _ _ => rfl, fun _ _ => rfl⟩

theorem KeptFiles.trans (more : Extends L L') (one : KeptFiles L s s') (two : KeptFiles L' s' s'') :
    KeptFiles L s s'' where
  volume := two.volume.trans one.volume
  descriptors x live := (two.descriptors x (more.owned live)).trans (one.descriptors x live)
  fatDescriptors x live := (two.fatDescriptors x (more.owned live)).trans (one.fatDescriptors x live)
  fatItems x live := (two.fatItems x (more.owned live)).trans (one.fatItems x live)
  items x live := (two.items x (more.owned live)).trans (one.items x live)

theorem Grows.keptFiles {fs : Fs H} (grows : Grows laws L L' s.toFs fs) : KeptFiles L s (s.setFs fs) where
  volume := grows.kept.fixed.private
  descriptors _ _ := rfl
  fatDescriptors := grows.kept.fatDescriptors
  fatItems := grows.kept.fatItems
  items := grows.kept.items

/-! ## Slots that stay -/

/-- A slot of `s'` with the same open file as in `s`. -/
structure SameSlot (s s' : Files H) (i : Nat) : Prop where
  table : s'.fileDescriptors i = s.fileDescriptors i
  blocks : s'.slotBlocks i = s.slotBlocks i
  index : (s'.descriptors (s'.fileDescriptors i)).index = (s.descriptors (s.fileDescriptors i)).index
  type : (s'.fatItems (s'.fatDescriptors (s'.descriptors (s'.fileDescriptors i)).privateInfo).item).type =
    (s.fatItems (s.fatDescriptors (s.descriptors (s.fileDescriptors i)).privateInfo).item).type

theorem KeptFiles.slot (kept : KeptFiles L s s') (table : s'.fileDescriptors i = s.fileDescriptors i)
    (live : ∀ x ∈ s.slotBlocks i, L x ≠ none) : SameSlot s s' i := by
  have d := kept.descriptors _ (live _ List.mem_cons_self)
  have p := kept.fatDescriptors _ (live _ (.tail _ List.mem_cons_self))
  have f := kept.fatItems _ (live _ (.tail _ (.tail _ List.mem_cons_self)))
  constructor
  · exact table
  · simp only [Files.slotBlocks, table, d, p, f]
  · rw [table, d]
  · rw [table, d, p, f]

theorem KeptFiles.openFile (kept : KeptFiles L s s') (inside : i < peachosMaxFileDescriptors)
    (table : s'.fileDescriptors i = s.fileDescriptors i) (live : ∀ x ∈ s.slotBlocks i, L x ≠ none) :
    s'.openFile (i + 1) = s.openFile (i + 1) := by
  have number : ¬ ((i : Int) + 1 ≤ 0 ∨ (i : Int) + 1 > peachosMaxFileDescriptors) := by omega
  have index : ((i : Int) + 1 - 1).toNat = i := by omega
  have d := kept.descriptors _ (live _ List.mem_cons_self)
  have p := kept.fatDescriptors _ (live _ (.tail _ List.mem_cons_self))
  have f := kept.fatItems _ (live _ (.tail _ (.tail _ List.mem_cons_self)))
  have c := kept.items _ (live _ (.tail _ (.tail _ (.tail _ List.mem_cons_self))))
  have entry : s'.entry (s.fatItems (s.fatDescriptors (s.descriptors (s.fileDescriptors i)).privateInfo).item).item 0 =
      s.entry (s.fatItems (s.fatDescriptors (s.descriptors (s.fileDescriptors i)).privateInfo).item).item 0 := by
    funext j
    rw [Fs.entry, Fs.entry, c]
  simp only [Files.openFile, fileGetDescriptor, if_neg number, index, Fs.openFile, table, d, p, f, entry, kept.volume]

/-- Slots may be emptied. -/
theorem TableOk.keep (ok : TableOk L s)
    (same : ∀ i < peachosMaxFileDescriptors, s'.fileDescriptors i ≠ 0 → SameSlot s s' i)
    (live : ∀ i < peachosMaxFileDescriptors, s'.fileDescriptors i ≠ 0 → ∀ x ∈ s.slotBlocks i, L' x ≠ none) :
    TableOk L' s' := by
  have before {i : Nat} (hi : i < peachosMaxFileDescriptors) (some : s'.fileDescriptors i ≠ 0) :
      s.fileDescriptors i ≠ 0 := by
    rwa [← (same i hi some).table]
  constructor
  · intro i hi some
    rw [(same i hi some).blocks]
    exact live i hi some
  · intro i hi some
    rw [(same i hi some).blocks]
    exact ok.nodup i hi (before hi some)
  · intro i hi j hj some some' ne
    rw [(same i hi some).blocks, (same j hj some').blocks]
    exact ok.apart i hi j hj (before hi some) (before hj some') ne
  · intro i hi some
    rw [(same i hi some).index]
    exact ok.index i hi (before hi some)
  · intro i hi some
    rw [(same i hi some).type]
    exact ok.type i hi (before hi some)

theorem TableOk.grow (ok : TableOk L s) (more : Extends L L') (kept : KeptFiles L s s')
    (table : s'.fileDescriptors = s.fileDescriptors) : TableOk L' s' := by
  apply ok.keep
  · intro i hi some
    rw [table] at some
    exact kept.slot (congrFun table i) (ok.live i hi some)
  · intro i hi some x mem
    rw [table] at some
    exact more.owned (ok.live i hi some x mem)

/-- The new file in slot `i` of `s'`. -/
structure NewFile (L L' : Ledger UInt32 Nat) (s' : Files H) (i : Nat) : Prop where
  inside : i < peachosMaxFileDescriptors
  some : s'.fileDescriptors i ≠ 0
  fresh : ∀ x ∈ s'.slotBlocks i, L x = none
  live : ∀ x ∈ s'.slotBlocks i, L' x ≠ none
  nodup : (s'.slotBlocks i).Nodup
  index : (s'.descriptors (s'.fileDescriptors i)).index = i + 1
  type : (s'.fatItems (s'.fatDescriptors (s'.descriptors (s'.fileDescriptors i)).privateInfo).item).type =
    fatItemTypeFile

theorem TableOk.add (ok : TableOk L s) (more : Extends L L') (kept : KeptFiles L s s') (new : NewFile L L' s' i)
    (others : ∀ j, j ≠ i → s'.fileDescriptors j = s.fileDescriptors j) : TableOk L' s' := by
  have old {j : Nat} (hj : j < peachosMaxFileDescriptors) (some : s'.fileDescriptors j ≠ 0) (ne : j ≠ i) :
      s.fileDescriptors j ≠ 0 ∧ SameSlot s s' j := by
    have before : s.fileDescriptors j ≠ 0 := by
      rwa [← others j ne]
    exact ⟨before, kept.slot (others j ne) (ok.live j hj before)⟩
  have away {j : Nat} (hj : j < peachosMaxFileDescriptors) (some : s'.fileDescriptors j ≠ 0) (ne : j ≠ i) :
      ∀ x ∈ s'.slotBlocks j, x ∉ s'.slotBlocks i := by
    obtain ⟨before, same⟩ := old hj some ne
    rw [same.blocks]
    intro x mem mem'
    exact ok.live j hj before x mem (new.fresh x mem')
  constructor
  · intro j hj some
    by_cases here : j = i
    · rw [here]
      exact new.live
    · obtain ⟨before, same⟩ := old hj some here
      rw [same.blocks]
      exact fun x mem => more.owned (ok.live j hj before x mem)
  · intro j hj some
    by_cases here : j = i
    · rw [here]
      exact new.nodup
    · obtain ⟨before, same⟩ := old hj some here
      rw [same.blocks]
      exact ok.nodup j hj before
  · intro j hj k hk some some' ne x mem mem'
    by_cases here : j = i
    · rw [here] at mem ne
      exact away hk some' ne.symm x mem' mem
    · by_cases there : k = i
      · rw [there] at mem'
        exact away hj some here x mem mem'
      · obtain ⟨before, same⟩ := old hj some here
        obtain ⟨before', same'⟩ := old hk some' there
        rw [same.blocks] at mem
        rw [same'.blocks] at mem'
        exact ok.apart j hj k hk before before' ne x mem mem'
  · intro j hj some
    by_cases here : j = i
    · rw [here]
      exact new.index
    · obtain ⟨before, same⟩ := old hj some here
      rw [same.index]
      exact ok.index j hj before
  · intro j hj some
    by_cases here : j = i
    · rw [here]
      exact new.type
    · obtain ⟨before, same⟩ := old hj some here
      rw [same.type]
      exact ok.type j hj before

theorem open_iff {fd : Int} : fileGetDescriptor s fd ≠ 0 ↔
    ∃ i < peachosMaxFileDescriptors, fd = i + 1 ∧ s.fileDescriptors i ≠ 0 := by
  by_cases bad : fd ≤ 0 ∨ fd > peachosMaxFileDescriptors
  · refine iff_of_false ?_ ?_
    · rw [fileGetDescriptor, if_pos bad]
      exact not_not.mpr rfl
    · rintro ⟨i, inside, rfl, _⟩
      omega
  · have get : fileGetDescriptor s fd = s.fileDescriptors (fd - 1).toNat := by
      rw [fileGetDescriptor, if_neg bad]
    rw [get]
    rw [not_or] at bad
    constructor
    · intro some
      exact ⟨(fd - 1).toNat, by omega, by omega, some⟩
    · rintro ⟨i, _, rfl, some⟩
      have index : ((i : Int) + 1 - 1).toNat = i := by omega
      rwa [index]

/-- What a number in the table stands for. -/
theorem TableOk.blocks (ok : TableOk L s) {fd : Int} (open' : fileGetDescriptor s fd ≠ 0) :
    ∃ i < peachosMaxFileDescriptors, fd = i + 1 ∧ s.fileDescriptors i ≠ 0 ∧
      OpenBlocks s fd (s.fileDescriptors i) (s.descriptors (s.fileDescriptors i)).privateInfo
        (s.fatDescriptors (s.descriptors (s.fileDescriptors i)).privateInfo).item := by
  obtain ⟨n, inside, rfl, some⟩ := open_iff.mp open'
  have number : ¬ ((n : Int) + 1 ≤ 0 ∨ (n : Int) + 1 > peachosMaxFileDescriptors) := by omega
  have index : ((n : Int) + 1 - 1).toNat = n := by omega
  have get : fileGetDescriptor s (n + 1) = s.fileDescriptors n := by
    rw [fileGetDescriptor, if_neg number, index]
  refine ⟨n, inside, rfl, some, ⟨get, some, ?_, rfl, ok.type n inside some⟩⟩
  rw [← ok.index n inside some]

/-- Files in different slots have different descriptors. -/
theorem TableOk.descriptor_inj (ok : TableOk L s) {j : Nat} (hi : i < peachosMaxFileDescriptors)
    (hj : j < peachosMaxFileDescriptors) (some : s.fileDescriptors i ≠ 0)
    (same : s.fileDescriptors i = s.fileDescriptors j) : i = j := by
  have index := ok.index i hi some
  have index' := ok.index j hj (same ▸ some)
  rw [same, index'] at index
  omega

end

/-! ## Opening -/

/-- The file `p` of the file system and its item were not live before. -/
structure NewFat (L L' : Ledger UInt32 Nat) (s : Fs H) (p : UInt32) : Prop where
  fresh : L p = none
  live : L' p ≠ none
  item : OwnItem L L' s (s.fatDescriptors p).item
  apart : (s.fatDescriptors p).item ≠ p
  apartCopy : (s.fatItems (s.fatDescriptors p).item).item ≠ p

theorem fat16Open_spec {L : Ledger UInt32 Nat} {s s' : Fs H} {path mode r : UInt32}
    (run : fat16Open A device s path mode = some (r, s')) (granted : laws.granted s'.heap)
    (holds : laws.holds s.heap L) : ∃ L', Grows laws L L' s s' ∧ (errorI r < 0 ∨ NewFat L L' s' r) := by
  have positive : 1 ≤ sizeofFatFileDescriptor.toNat := by decide
  obtain refused | ⟨p, item, s₁, s₂, searched, result, rfl⟩ := fat16Open_cases run
  · cases refused with
    | mode _ => exact ⟨L, .refl holds, Or.inl (by decide)⟩
    | memory _ block => exact absurd rfl (fsKZalloc_spec block granted holds positive).1.1
  · have search := searched.search
    rw [getDirectoryEntry_eq] at search
    obtain ⟨⟨f, s₃⟩, found, last⟩ := Option.map_eq_some_iff.mp search
    obtain ⟨value, rfl⟩ := Prod.mk.inj last
    have granted₁ := (findItemFrom_requested found).granted laws granted
    obtain ⟨_, fresh, L₁, live, grows⟩ := fsKZalloc_spec searched.block granted₁ holds positive
    obtain ⟨L₂, grows', own⟩ := findItemFrom_grows found granted grows.holds
    refine ⟨L₂, (grows.trans grows').setDescriptor fresh ⟨item, 0⟩, ?_⟩
    by_cases missing : item = 0
    · rw [result, if_pos missing]
      exact Or.inl (by decide)
    · rw [if_neg missing] at result
      subst result
      have here : f = item := by
        by_cases next : (s₃.parts path).next = 0
        · rwa [if_pos next] at value
        · rw [if_neg next] at value
          exact absurd value.symm missing
      subst here
      obtain none | own := own
      · exact absurd none missing
      · right
        have set : (s₃.setDescriptor r ⟨f, 0⟩).fatDescriptors r = ⟨f, 0⟩ :=
          Function.update_self r _ s₃.fatDescriptors
        have item : OwnItem L L₂ (s₃.setDescriptor r ⟨f, 0⟩) f :=
          { own.mono grows.extends' (.refl grows'.holds) with }
        constructor
        · exact fresh
        · exact grows'.extends'.owned live
        · rw [set]
          exact item
        · rw [set]
          rintro rfl
          exact live own.fresh
        · rw [set]
          rintro same
          have copy : (s₃.fatItems f).item = r := same
          have unused := own.copyFresh
          rw [copy] at unused
          exact live unused

theorem NewFat.mono {L L₀ L₁ L' : Ledger UInt32 Nat} {s s' : Fs H} {p : UInt32} (new : NewFat L L₁ s p)
    (less : Extends L₀ L) (grows : Grows laws L₁ L' s s') : NewFat L₀ L' s' p := by
  have descriptor := grows.kept.fatDescriptors p new.live
  have item := grows.kept.fatItems _ new.item.live
  constructor
  · exact less.free new.fresh
  · exact grows.extends'.owned new.live
  · rw [descriptor]
    exact new.item.mono less grows
  · rw [descriptor]
    exact new.apart
  · rw [descriptor, item]
    exact new.apartCopy

/-- A file's four blocks, the last of them the table's descriptor. -/
theorem NewFat.newFile {L L₂ L₃ : Ledger UInt32 Nat} {s : Files H} {fs fs' : Fs H} {i : Nat} {d p : UInt32}
    (new : NewFat L L₂ fs p) (grows : Grows laws L₂ L₃ fs fs') (inside : i < peachosMaxFileDescriptors)
    (nonzero : d ≠ 0) (unused : L d = none) (fresh : L₂ d = none) (live : L₃ d ≠ none) :
    NewFile L L₃ (s.setOpen fs' i d p) i := by
  have later := new.mono (.refl L) grows
  have slot : (s.setOpen fs' i d p).fileDescriptors i = d := by
    show update s.fileDescriptors i d i = d
    rw [Function.update_self]
  have record : (s.setOpen fs' i d p).descriptors d = ⟨i + 1, p⟩ := by
    show update s.descriptors d _ d = _
    rw [Function.update_self]
  have four : (s.setOpen fs' i d p).slotBlocks i =
      [d, p, (fs'.fatDescriptors p).item, (fs'.fatItems (fs'.fatDescriptors p).item).item] := by
    simp only [Files.slotBlocks, slot, record]
    rfl
  have apart {x : UInt32} (owned : L₂ x ≠ none) : d ≠ x := by
    rintro rfl
    exact owned fresh
  have descriptor := grows.kept.fatDescriptors p new.live
  have item := grows.kept.fatItems _ new.item.live
  constructor
  · exact inside
  · rw [slot]
    exact nonzero
  · rw [four]
    simp only [List.mem_cons, List.not_mem_nil, or_false]
    rintro x (rfl | rfl | rfl | rfl)
    · exact unused
    · exact later.fresh
    · exact later.item.fresh
    · exact later.item.copyFresh
  · rw [four]
    simp only [List.mem_cons, List.not_mem_nil, or_false]
    rintro x (rfl | rfl | rfl | rfl)
    · exact live
    · exact later.live
    · exact later.item.live
    · exact later.item.copyLive
  · rw [four, descriptor, item]
    simp only [List.nodup_cons, List.mem_cons, List.not_mem_nil, or_false, not_or, not_false_eq_true,
      List.nodup_nil, and_true]
    exact ⟨⟨apart new.live, apart new.item.live, apart new.item.copyLive⟩, ⟨new.apart.symm, new.apartCopy.symm⟩,
      new.item.apart.symm⟩
  · rw [slot, record]
  · rw [slot, record]
    exact later.item.type

/-- What `fopen` does to the table. -/
inductive OpenResult (L L' : Ledger UInt32 Nat) (s s' : Files H) : Int → Prop
  | failed (table : s'.fileDescriptors = s.fileDescriptors) : OpenResult L L' s s' 0
  | opened {i : Nat} {d : UInt32} (lowest : s.Lowest i) (table : s'.fileDescriptors = update s.fileDescriptors i d)
      (new : NewFile L L' s' i) : OpenResult L L' s s' (i + 1)

theorem freePartsFrom_granted (laws : BlockLaws A) {s s' : Paths H} {p : UInt32} (run : Paths.freePartsFrom A s p = some s') :
    laws.granted s'.heap → laws.granted s.heap := by
  refine Paths.freePartsFrom.partial_correctness A (fun s _ s' => laws.granted s'.heap → laws.granted s.heap) ?_ s p s' run
  intro loop later s p s' run granted
  split at run
  · cases run
    exact granted
  · have back := later _ _ _ run granted
    exact (laws.free_granted _ _).mp ((laws.free_granted _ _).mp back)

theorem fopenFails_granted (laws : BlockLaws A) {s s' : Files H} {root : UInt32} {res : Int}
    (run : fopenFails A s root = some (res, s')) (granted : laws.granted s'.heap) : laws.granted s.heap := by
  obtain ⟨paths, freed, same⟩ := Option.map_eq_some_iff.mp run
  cases same
  unfold pathparserFree at freed
  split at freed
  · cases freed
  · obtain ⟨s₁, parts, same⟩ := Option.map_eq_some_iff.mp freed
    cases same
    exact freePartsFrom_granted laws parts ((laws.free_granted _ _).mp granted)

section

variable {L L₂ : Ledger UInt32 Nat} {s s' t : Files H} {filename modeStr : List UInt8} {root : UInt32}
  {paths : Paths H} {blocks : List UInt32} {res : Int}

/-- The state of an open whose path is still there. -/
structure Underway (laws : BlockLaws A) (L L₂ : Ledger UInt32 Nat) (s t : Files H) (paths : Paths H) (root : UInt32)
    (blocks : List UInt32) : Prop where
  extends' : Extends (assign L (· ∈ root :: blocks) 1) L₂
  holds : laws.holds t.heap L₂
  kept : KeptFiles L s t
  roots : t.roots = paths.roots
  parts : t.parts = paths.parts
  strings : t.strings = paths.strings

theorem Parsed.underway (parsed : Parsed laws L s.toPaths paths root blocks filename) :
    Underway laws L (assign L (· ∈ root :: blocks) 1) s (s.setPaths paths) paths root blocks :=
  ⟨.refl _, parsed.holds, { KeptFiles.refl L s with }, rfl, rfl, rfl⟩

theorem Underway.grow {fs : Fs H} {L₃ : Ledger UInt32 Nat} (underway : Underway laws L L₂ s t paths root blocks)
    (parsed : Parsed laws L s.toPaths paths root blocks filename) (grows : Grows laws L₂ L₃ t.toFs fs) :
    Underway laws L L₃ s (t.setFs fs) paths root blocks where
  extends' := underway.extends'.trans grows.extends'
  holds := grows.holds
  kept := underway.kept.trans ((parsed.new.extends 1).trans underway.extends') grows.keptFiles
  roots := grows.kept.fixed.roots.trans underway.roots
  parts := grows.kept.fixed.parts.trans underway.parts
  strings := grows.kept.fixed.strings.trans underway.strings

/-- The exit frees the path and changes nothing else. -/
theorem Underway.exit (underway : Underway laws L L₂ s t paths root blocks)
    (parsed : Parsed laws L s.toPaths paths root blocks filename) :
    ∃ s' L', fopenFails A t root = some (0, s') ∧ s'.fileDescriptors = t.fileDescriptors ∧ Extends L L' ∧
      laws.holds s'.heap L' ∧ KeptFiles L s s' := by
  obtain ⟨heap', L', freed, back, more⟩ := parsed.free_later underway.roots underway.parts underway.strings
    underway.extends' underway.holds
  refine ⟨t.setPaths { t.toPaths with heap := heap' }, L', ?_, rfl, more, back, ?_⟩
  · rw [fopenFails, freed]
    rfl
  · exact { underway.kept with }

theorem fopen_spec (run : fopen A device s filename modeStr = some (res, s')) (granted : laws.granted s'.heap)
    (holds : laws.holds s.heap L) (noNul : (0 : UInt8) ∉ filename) (good : Accepted filename) :
    ∃ L', Extends L L' ∧ laws.holds s'.heap L' ∧ KeptFiles L s s' ∧ OpenResult L L' s s' res := by
  obtain ⟨root, paths, parse, run⟩ := fopen_cases run
  have parses (granted : laws.granted paths.heap) : ∃ blocks, Parsed laws L s.toPaths paths root blocks filename :=
    pathparserParse_spec parse granted holds noNul good
  have leaves {t : Files H} {blocks : List UInt32} {L₂ : Ledger UInt32 Nat}
      (parsed : Parsed laws L s.toPaths paths root blocks filename)
      (underway : Underway laws L L₂ s t paths root blocks) (table : t.fileDescriptors = s.fileDescriptors)
      (exit : fopenFails A t root = some (0, s')) :
      ∃ L', Extends L L' ∧ laws.holds s'.heap L' ∧ KeptFiles L s s' ∧ OpenResult L L' s s' 0 := by
    obtain ⟨s₁, L', again, same, more, back, kept⟩ := underway.exit parsed
    rw [exit] at again
    cases again
    exact ⟨L', more, back, kept, .failed (same.trans table)⟩
  cases run with
  | refused _ exit =>
    obtain ⟨blocks, parsed⟩ := parses (fopenFails_granted laws exit granted)
    exact leaves parsed parsed.underway rfl exit
  | unopened _ opened _ exit =>
    have granted := fopenFails_granted laws exit granted
    obtain ⟨blocks, parsed⟩ := parses ((fat16Open_requested opened).granted laws granted)
    obtain ⟨L₂, grows, _⟩ := fat16Open_spec opened granted parsed.holds
    exact leaves parsed (parsed.underway.grow parsed grows) rfl exit
  | @noDescriptor r fs s₁ _ _ opened _ none exit =>
    have granted := fopenFails_granted laws exit granted
    obtain ⟨_, rfl⟩ | ⟨i, fs', _, block, rfl⟩ := none
    · obtain ⟨blocks, parsed⟩ := parses ((fat16Open_requested opened).granted laws granted)
      obtain ⟨L₂, grows, _⟩ := fat16Open_spec opened granted parsed.holds
      exact leaves parsed (parsed.underway.grow parsed grows) rfl exit
    · -- a request that was granted does not fail
      have granted₁ := (fsKZalloc_requested block).granted laws granted
      obtain ⟨blocks, parsed⟩ := parses ((fat16Open_requested opened).granted laws granted₁)
      obtain ⟨L₂, grows, _⟩ := fat16Open_spec opened granted₁ parsed.holds
      exact absurd rfl (fsKZalloc_spec block granted grows.holds (by decide)).1.1
  | @opened r d fs fs' i _ opened pointer lowest nonzero block =>
    have granted₁ := (fsKZalloc_requested block).granted laws granted
    obtain ⟨blocks, parsed⟩ := parses ((fat16Open_requested opened).granted laws granted₁)
    obtain ⟨L₂, grows, refused | new⟩ := fat16Open_spec opened granted₁ parsed.holds
    · exact absurd refused pointer
    · obtain ⟨_, fresh, L₃, live, grows'⟩ := fsKZalloc_spec block granted grows.holds (by decide)
      have before := parsed.underway.grow parsed grows
      have underway := before.grow parsed grows'
      have path := parsed.new.extends 1
      have unused : L d = none := (path.trans before.extends').free fresh
      have new := new.mono path (.refl grows.holds)
      have file := new.newFile (s := s.setPaths paths) grows' lowest.inside nonzero unused fresh live
      refine ⟨L₃, path.trans underway.extends', grows'.holds, ?_, ?_⟩
      · refine { underway.kept with descriptors := fun x owned => ?_ }
        have ne : x ≠ d := by
          rintro rfl
          exact owned unused
        exact Function.update_of_ne ne _ s.descriptors
      · exact .opened (d := d) ⟨lowest.inside, lowest.empty, lowest.below⟩ rfl file

end

/-! ## Closing -/

theorem release_blocks {L : Ledger UInt32 Nat} {h : H} {blocks : List UInt32} (nodup : blocks.Nodup)
    (live : ∀ x ∈ blocks, L x ≠ none) (holds : laws.holds h L) :
    ∃ L', laws.holds (blocks.foldl A.free h) L' ∧ ∀ x, x ∉ blocks → L' x = L x := by
  induction blocks generalizing h L with
  | nil => exact ⟨L, holds, fun _ _ => rfl⟩
  | cons p blocks ih =>
    obtain ⟨apart, nodup⟩ := List.nodup_cons.mp nodup
    have other {x : UInt32} (ne : x ≠ p) : update L p none x = L x := Function.update_of_ne ne _ _
    have still : ∀ x ∈ blocks, update L p none x ≠ none := by
      intro x mem
      have ne : x ≠ p := by
        rintro rfl
        exact apart mem
      rw [other ne]
      exact live x (List.mem_cons_of_mem p mem)
    obtain ⟨L', back, same⟩ := ih nodup still (laws.free h L p holds (live p List.mem_cons_self))
    refine ⟨L', back, fun x out => ?_⟩
    rw [List.mem_cons, not_or] at out
    rw [same x out.2, other out.1]

section

variable {L : Ledger UInt32 Nat} {s : Files H}

theorem emptied_kept (L : Ledger UInt32 Nat) (s : Files H) (heap : H) (i : Nat) :
    KeptFiles L s { s with heap, fileDescriptors := update s.fileDescriptors i 0 } := { KeptFiles.refl L s with }

/-- An open number's slot is emptied, and the other files keep their blocks. -/
theorem fclose_spec (ok : TableOk L s) (holds : laws.holds s.heap L) {fd : Int} (open' : fileGetDescriptor s fd ≠ 0) :
    ∃ i s' L', i < peachosMaxFileDescriptors ∧ fd = i + 1 ∧ fclose A s fd = (0, s') ∧
      s'.fileDescriptors = update s.fileDescriptors i 0 ∧ laws.holds s'.heap L' ∧
      (∀ x, x ∉ s.slotBlocks i → L' x = L x) ∧ KeptFiles L s s' ∧ TableOk L' s' := by
  obtain ⟨i, inside, rfl, some, blocks⟩ := ok.blocks open'
  have four : (s.slotBlocks i).reverse = [(s.fatItems (s.fatDescriptors (s.descriptors
      (s.fileDescriptors i)).privateInfo).item).item, (s.fatDescriptors (s.descriptors
      (s.fileDescriptors i)).privateInfo).item, (s.descriptors (s.fileDescriptors i)).privateInfo,
      s.fileDescriptors i] := rfl
  obtain ⟨L', back, same⟩ := release_blocks (A := A) (List.nodup_reverse.mpr (ok.nodup i inside some))
    (fun x mem => ok.live i inside some x (List.mem_reverse.mp mem)) holds
  have others (x : UInt32) (out : x ∉ s.slotBlocks i) : L' x = L x :=
    same x fun mem => out (List.mem_reverse.mp mem)
  have index : ((i : Int) + 1 - 1).toNat = i := by omega
  refine ⟨i, _, L', inside, rfl, fclose_eq blocks, ?_, ?_, others, emptied_kept L s _ _, ?_⟩
  · rw [index]
  · rw [four] at back
    exact back
  · rw [index]
    have table {j : Nat} (here : update s.fileDescriptors i 0 j ≠ 0) : j ≠ i ∧ s.fileDescriptors j ≠ 0 := by
      by_cases same : j = i
      · rw [same, Function.update_self] at here
        exact absurd rfl here
      · rw [Function.update_of_ne same] at here
        exact ⟨same, here⟩
    apply ok.keep
    · intro j hj here
      obtain ⟨ne, before⟩ := table here
      exact (emptied_kept L s _ i).slot (Function.update_of_ne ne _ _) (ok.live j hj before)
    · intro j hj here x mem
      obtain ⟨ne, before⟩ := table here
      rw [others x (ok.apart j hj i inside before some ne x mem)]
      exact ok.live j hj before x mem

end

/-! ## Reading and seeking -/

section

variable {L : Ledger UInt32 Nat} {s : Files H}

theorem TableOk.streams (ok : TableOk L s) (streams : Streams) : TableOk L (s.setStreams streams) :=
  ⟨ok.live, ok.nodup, ok.apart, ok.index, ok.type⟩

theorem setPos_item (s : Fs H) (p x pos : UInt32) :
    ((s.setPos p pos).fatDescriptors x).item = (s.fatDescriptors x).item := by
  by_cases here : x = p
  · subst here
    show (update s.fatDescriptors x _ x).item = _
    rw [Function.update_self]
  · show (update s.fatDescriptors p _ x).item = _
    rw [Function.update_of_ne here]

theorem TableOk.seek (ok : TableOk L s) (fd : Int) (offset whence : UInt32) :
    TableOk L (fseek s fd offset whence).2 := by
  by_cases closed : fileGetDescriptor s fd = 0
  · rw [fseek_eq, if_pos closed]
    exact ok
  · rw [fseek_eq, if_neg closed]
    generalize (s.descriptors (fileGetDescriptor s fd)).privateInfo = p
    generalize ((s.openFile fd).seek offset whence).2.pos = pos
    have item (x : UInt32) : ((s.setFs (s.toFs.setPos p pos)).fatDescriptors x).item = (s.fatDescriptors x).item :=
      setPos_item s.toFs p x pos
    apply ok.keep
    · intro i hi some
      constructor
      · rfl
      · simp only [Files.slotBlocks, item]
        rfl
      · rfl
      · rw [item]
        rfl
    · exact ok.live

/-- A seek leaves the position of every other file. -/
theorem TableOk.seek_apart (ok : TableOk L s) {fd a : Int} (ne : a ≠ fd) (open' : fileGetDescriptor s a ≠ 0)
    (offset whence : UInt32) : (fseek s fd offset whence).2.openFile a = s.openFile a := by
  by_cases closed : fileGetDescriptor s fd = 0
  · rw [fseek_eq, if_pos closed]
  · obtain ⟨i, hi, rfl, some, blocks⟩ := ok.blocks open'
    obtain ⟨j, hj, rfl, some', blocks'⟩ := ok.blocks closed
    have apart : (s.descriptors (s.fileDescriptors i)).privateInfo ≠ (s.descriptors (s.fileDescriptors j)).privateInfo := by
      intro same
      have slots : i ≠ j := by
        rintro rfl
        exact ne rfl
      have mem : (s.descriptors (s.fileDescriptors i)).privateInfo ∈ s.slotBlocks i := .tail _ List.mem_cons_self
      apply ok.apart i hi j hj some some' slots _ mem
      rw [same]
      exact .tail _ List.mem_cons_self
    rw [fseek_eq, if_neg closed, blocks'.slot]
    generalize ((s.openFile (j + 1)).seek offset whence).2.pos = pos
    have slot : fileGetDescriptor (s.setFs (s.toFs.setPos (s.descriptors (s.fileDescriptors j)).privateInfo pos))
        (i + 1) = s.fileDescriptors i := blocks.slot
    have here : (s.toFs.setPos (s.descriptors (s.fileDescriptors j)).privateInfo pos).fatDescriptors
        (s.descriptors (s.fileDescriptors i)).privateInfo =
        s.fatDescriptors (s.descriptors (s.fileDescriptors i)).privateInfo := Function.update_of_ne apart _ _
    unfold Files.openFile
    rw [slot, blocks.slot]
    show Fs.openFile (s.toFs.setPos _ pos) (s.descriptors (s.fileDescriptors i)).privateInfo = _
    unfold Fs.openFile
    rw [here]
    rfl

end

end PeachOs
