import PeachOs.ClusterRead
import PeachOs.FatItems
import PeachOs.PathList

/-!
# Blocks of the file system

The search for an entry and the opening of a file only add blocks: what was live
before keeps its contents, and what is handed out was not live.
-/

namespace PeachOs

open Ownership
open Function (update)

variable {H : Type} {A : Allocator H} {laws : BlockLaws A}

/-- The heap after requests. -/
inductive Asks (A : Allocator H) : H → H → Prop
  | refl (h : H) : Asks A h h
  | malloc {h h' : H} (n : UInt32) (asks : Asks A h h') : Asks A h (A.malloc h' n).2

theorem Asks.trans {h h' h'' : H} (one : Asks A h h') (two : Asks A h' h'') : Asks A h h'' := by
  induction two with
  | refl => exact one
  | malloc n _ ih => exact ih.malloc n

theorem Asks.granted {h h' : H} (laws : BlockLaws A) (asks : Asks A h h') (granted : laws.granted h') :
    laws.granted h := by
  induction asks with
  | refl => exact granted
  | malloc n _ ih => exact ih (laws.malloc_granted _ _ granted)

/-- The volume and the paths are as they were. -/
structure Fixed (s s' : Fs H) : Prop where
  filesystem : s'.filesystem = s.filesystem
  fsPrivate : s'.fsPrivate = s.fsPrivate
  privates : s'.privates = s.privates
  roots : s'.roots = s.roots
  parts : s'.parts = s.parts
  strings : s'.strings = s.strings

/-- Only requests were made, and only the file system's own memory was written. -/
structure Requested (A : Allocator H) (s s' : Fs H) : Prop where
  asks : Asks A s.heap s'.heap
  fixed : Fixed s s'

/-- What was live under `L` keeps its contents. -/
structure KeptUnder (L : Ledger UInt32 Nat) (s s' : Fs H) : Prop where
  fixed : Fixed s s'
  fatItems : ∀ x, L x ≠ none → s'.fatItems x = s.fatItems x
  directories : ∀ x, L x ≠ none → s'.directories x = s.directories x
  items : ∀ x, L x ≠ none → s'.items x = s.items x
  fatDescriptors : ∀ x, L x ≠ none → s'.fatDescriptors x = s.fatDescriptors x

/-- From `s` with the live blocks `L` to `s'` with `L'`, blocks were only added. -/
structure Grows (laws : BlockLaws A) (L L' : Ledger UInt32 Nat) (s s' : Fs H) : Prop where
  extends' : Extends L L'
  holds : laws.holds s'.heap L'
  kept : KeptUnder L s s'

theorem Fixed.refl (s : Fs H) : Fixed s s := ⟨rfl, rfl, rfl, rfl, rfl, rfl⟩

theorem Fixed.trans {s s' s'' : Fs H} (one : Fixed s s') (two : Fixed s' s'') : Fixed s s'' where
  filesystem := two.filesystem.trans one.filesystem
  fsPrivate := two.fsPrivate.trans one.fsPrivate
  privates := two.privates.trans one.privates
  roots := two.roots.trans one.roots
  parts := two.parts.trans one.parts
  strings := two.strings.trans one.strings

theorem Fixed.private {s s' : Fs H} (fixed : Fixed s s') : s'.private = s.private := by
  rw [Fs.private, Fs.private, fixed.privates, fixed.fsPrivate]

theorem Requested.refl (s : Fs H) : Requested A s s := ⟨.refl _, .refl s⟩

theorem Requested.trans {s s' s'' : Fs H} (one : Requested A s s') (two : Requested A s' s'') : Requested A s s'' :=
  ⟨one.asks.trans two.asks, one.fixed.trans two.fixed⟩

theorem Requested.granted {s s' : Fs H} (laws : BlockLaws A) (requested : Requested A s s')
    (granted : laws.granted s'.heap) : laws.granted s.heap := requested.asks.granted laws granted

theorem KeptUnder.heap (L : Ledger UInt32 Nat) (s : Fs H) (heap : H) : KeptUnder L s { s with heap } :=
  ⟨{ Fixed.refl s with }, fun _ _ => rfl, fun _ _ => rfl, fun _ _ => rfl, fun _ _ => rfl⟩

theorem KeptUnder.refl (L : Ledger UInt32 Nat) (s : Fs H) : KeptUnder L s s := .heap L s s.heap

theorem KeptUnder.trans {L L' : Ledger UInt32 Nat} {s s' s'' : Fs H} (more : Extends L L') (one : KeptUnder L s s')
    (two : KeptUnder L' s' s'') : KeptUnder L s s'' where
  fixed := one.fixed.trans two.fixed
  fatItems x live := (two.fatItems x (more.owned live)).trans (one.fatItems x live)
  directories x live := (two.directories x (more.owned live)).trans (one.directories x live)
  items x live := (two.items x (more.owned live)).trans (one.items x live)
  fatDescriptors x live := (two.fatDescriptors x (more.owned live)).trans (one.fatDescriptors x live)

theorem KeptUnder.entry {L : Ledger UInt32 Nat} {s s' : Fs H} (kept : KeptUnder L s s') {array : UInt32}
    (live : L array ≠ none) (i : Nat) : s'.entry array i = s.entry array i := by
  funext j
  rw [Fs.entry, Fs.entry, kept.items array live]

theorem Grows.refl {L : Ledger UInt32 Nat} {s : Fs H} (holds : laws.holds s.heap L) : Grows laws L L s s :=
  ⟨.refl L, holds, .refl L s⟩

theorem Grows.trans {L L' L'' : Ledger UInt32 Nat} {s s' s'' : Fs H} (one : Grows laws L L' s s')
    (two : Grows laws L' L'' s' s'') : Grows laws L L'' s s'' :=
  ⟨one.extends'.trans two.extends', two.holds, one.kept.trans one.extends' two.kept⟩

section

variable {L L' : Ledger UInt32 Nat} {s s' : Fs H}

/-! What is written to a block that was not live before. -/

theorem Grows.setItem (grows : Grows laws L L' s s') {f : UInt32} (fresh : L f = none) (item : FatItem) :
    Grows laws L L' s (s'.setItem f item) := by
  refine ⟨grows.extends', grows.holds, { grows.kept with fixed := { grows.kept.fixed with }, fatItems := fun x live => ?_ }⟩
  have ne : x ≠ f := by
    rintro rfl
    exact live fresh
  rw [← grows.kept.fatItems x live]
  exact Function.update_of_ne ne _ _

theorem Grows.setDirectory (grows : Grows laws L L' s s') {d : UInt32} (fresh : L d = none)
    (directory : FatDirectory) : Grows laws L L' s (s'.setDirectory d directory) := by
  refine ⟨grows.extends', grows.holds, { grows.kept with fixed := { grows.kept.fixed with }, directories := fun x live => ?_ }⟩
  have ne : x ≠ d := by
    rintro rfl
    exact live fresh
  rw [← grows.kept.directories x live]
  exact Function.update_of_ne ne _ _

theorem Grows.setItems (grows : Grows laws L L' s s') {a : UInt32} (mem : Nat → UInt8)
    (apart : L a = none ∨ mem = s'.items a) :
    Grows laws L L' s { s' with items := update s'.items a mem } := by
  refine ⟨grows.extends', grows.holds, { grows.kept with fixed := { grows.kept.fixed with }, items := fun x live => ?_ }⟩
  rw [← grows.kept.items x live]
  by_cases here : x = a
  · subst here
    cases apart with
    | inl fresh => exact absurd fresh live
    | inr same =>
      rw [same]
      exact congrFun (Function.update_eq_self x s'.items) x
  · exact Function.update_of_ne here _ _

theorem Grows.setDescriptor (grows : Grows laws L L' s s') {d : UInt32} (fresh : L d = none)
    (descriptor : FatFileDescriptor) :
    Grows laws L L' s { s' with fatDescriptors := update s'.fatDescriptors d descriptor } := by
  refine ⟨grows.extends', grows.holds, { grows.kept with fixed := { grows.kept.fixed with }, fatDescriptors := fun x live => ?_ }⟩
  have ne : x ≠ d := by
    rintro rfl
    exact live fresh
  rw [← grows.kept.fatDescriptors x live]
  exact Function.update_of_ne ne _ _

theorem Grows.setStreams (grows : Grows laws L L' s s') (streams : Streams) :
    Grows laws L L' s { s' with streams } :=
  ⟨grows.extends', grows.holds, { grows.kept with fixed := { grows.kept.fixed with } }⟩

end

/-! ## Requests -/

section

variable {L : Ledger UInt32 Nat} {s s' : Fs H} {p n : UInt32}

theorem fsKZalloc_request (run : s.kZalloc A n = (p, s')) :
    p = (A.malloc s.heap n).1 ∧ s' = { s with heap := (A.malloc s.heap n).2 } := by
  cases run
  exact ⟨rfl, rfl⟩

theorem fsKZalloc_requested (run : s.kZalloc A n = (p, s')) : Requested A s s' := by
  cases run
  exact ⟨(Asks.refl _).malloc n, rfl, rfl, rfl, rfl, rfl, rfl⟩

theorem newItems_requested (run : s.newItems A n = (p, s')) : Requested A s s' := by
  unfold Fs.newItems at run
  cases block : s.kZalloc A n with
  | mk q s₁ =>
    have requested := fsKZalloc_requested block
    rw [block] at run
    dsimp only at run
    split at run <;> cases run
    · exact requested
    · exact ⟨requested.asks, { requested.fixed with }⟩

theorem newItems_request (run : s.newItems A n = (p, s')) :
    p = (A.malloc s.heap n).1 ∧ s'.heap = (A.malloc s.heap n).2 ∧ s'.fatItems = s.fatItems := by
  unfold Fs.newItems at run
  cases block : s.kZalloc A n with
  | mk q s₁ =>
    rw [block] at run
    dsimp only at run
    split at run
    · rename_i missing
      cases run
      cases block
      exact ⟨missing.symm, rfl, rfl⟩
    · cases run
      cases block
      exact ⟨rfl, rfl, rfl⟩

/-- A granted request of at least a byte. -/
theorem fsKZalloc_spec (run : s.kZalloc A n = (p, s')) (granted : laws.granted s'.heap)
    (holds : laws.holds s.heap L) (positive : 1 ≤ n.toNat) :
    (p ≠ 0 ∧ p.toNat < 2 ^ 31) ∧ L p = none ∧ ∃ L', L' p ≠ none ∧ Grows laws L L' s s' := by
  obtain ⟨⟨some, small⟩, fresh, holds'⟩ := laws.malloc s.heap n L (by cases run; exact granted) holds positive
  cases run
  have nonzero : (A.malloc s.heap n).1 ≠ 0 := by
    intro zero
    rw [zero] at some
    exact absurd some (Nat.lt_irrefl 0)
  refine ⟨⟨nonzero, small⟩, fresh, update L (A.malloc s.heap n).1 (Option.some (blocksNeeded n)), ?_,
    extends_update fresh _, holds', .heap L s _⟩
  rw [Function.update_self]
  exact Option.some_ne_none _

theorem newItems_spec (run : s.newItems A n = (p, s')) (granted : laws.granted s'.heap)
    (holds : laws.holds s.heap L) (positive : 1 ≤ n.toNat) :
    p ≠ 0 ∧ L p = none ∧ ∃ L', L' p ≠ none ∧ Grows laws L L' s s' := by
  unfold Fs.newItems at run
  cases block : s.kZalloc A n with
  | mk q s₁ =>
    rw [block] at run
    dsimp only at run
    have granted₁ : laws.granted s₁.heap := by
      split at run <;> cases run <;> exact granted
    obtain ⟨⟨nonzero, _⟩, fresh, L', live, grows⟩ := fsKZalloc_spec block granted₁ holds positive
    rw [if_neg nonzero] at run
    cases run
    exact ⟨nonzero, fresh, L', live, grows.setItems _ (Or.inl fresh)⟩

/-- A request for no bytes, where a block is live. -/
theorem newItems_empty {x : UInt32} (run : s.newItems A 0 = (p, s')) (granted : laws.granted s'.heap)
    (holds : laws.holds s.heap L) (owned : L x ≠ none) : Grows laws L L s s' := by
  unfold Fs.newItems at run
  cases block : s.kZalloc A 0 with
  | mk q s₁ =>
    have same : s₁ = { s with heap := (A.malloc s.heap 0).2 } := by
      cases block
      rfl
    rw [block] at run
    dsimp only at run
    have granted₁ : laws.granted s₁.heap := by
      split at run <;> cases run <;> exact granted
    have grows : Grows laws L L s s₁ := by
      rw [same] at granted₁ ⊢
      exact ⟨.refl L, laws.malloc_empty s.heap L x granted₁ holds owned, .heap L s _⟩
    have clear (mem : Nat → UInt8) : cleared (UInt32.toNat 0) mem = mem := by
      funext i
      simp [cleared]
    split at run
    · cases run
      exact grows
    · cases run
      exact grows.setItems _ (Or.inr (clear _))

end

/-! ## Items -/

/-- The subdirectory with the first cluster `cluster` is loaded into `d`, from a
state in which the block for `d` has been taken. -/
structure SubdirectoryLoaded (A : Allocator H) (device : BlockDevice) (cluster : Int) (d : UInt32)
    (s₁ s' : Fs H) (total : Int) (item : UInt32) (s₂ : Fs H) (out : List UInt8) : Prop where
  counted : ∃ streams, fat16GetTotalItemsForDirectory device s₁.private s₁.streams
    (fat16ClusterToSector s₁.private cluster) = some (total, streams) ∧
    ({ s₁ with streams } : Fs H).newItems A (.ofInt (int32 (total * sizeofFatDirectoryItem))) = (item, s₂)
  read : item ≠ 0 → ∃ res streams, fat16ReadInternal device s₂.private s₂.streams cluster 0
      (int32 (total * sizeofFatDirectoryItem)) = some (res, out, streams) ∧
    s' = { s₂.setDirectory d ⟨item, total, 0, 0⟩ with
      streams, items := update s₂.items item (written out (s₂.items item)) }
  unread : item = 0 → s' = s₂.setDirectory d ⟨item, total, 0, 0⟩

section

variable {device : BlockDevice} {L : Ledger UInt32 Nat} {s s' : Fs H} {array : UInt32} {i : Nat}

/-- What loading the directory of an entry does. -/
theorem loadFatDirectory_cases {d : UInt32} (run : fat16LoadFatDirectory A device s array i = some (d, s')) :
    (d = 0 ∧ s' = s) ∨
    ∃ q s₁, itemAttribute (s.entry array i) = fatFileSubdirectory ∧ s.kZalloc A sizeofFatDirectory = (q, s₁) ∧
      ((q = 0 ∧ d = 0 ∧ s' = s₁) ∨
        (q ≠ 0 ∧ d = q ∧ ∃ total item s₂ out, SubdirectoryLoaded A device
          (int32 (fat16GetFirstCluster (s.entry array i)).toNat) d s₁ s' total item s₂ out)) := by
  unfold fat16LoadFatDirectory at run
  split at run
  · cases run
    exact Or.inl ⟨rfl, rfl⟩
  · rename_i directory
    refine Or.inr ?_
    dsimp only at run
    cases block : s.kZalloc A sizeofFatDirectory with
    | mk q s₁ =>
      refine ⟨q, s₁, not_not.mp directory, rfl, ?_⟩
      rw [block] at run
      dsimp only at run
      split at run
      · rename_i missing
        cases run
        exact Or.inl ⟨missing, rfl, rfl⟩
      · rename_i made
        cases count : fat16GetTotalItemsForDirectory device s₁.private s₁.streams
            (fat16ClusterToSector s₁.private (int32 (fat16GetFirstCluster (s.entry array i)).toNat)) with
        | none => simp [count] at run
        | some result =>
          obtain ⟨total, streams⟩ := result
          simp only [count] at run
          cases image : ({ s₁ with streams } : Fs H).newItems A (.ofInt (int32 (total * sizeofFatDirectoryItem))) with
          | mk item s₂ =>
            simp only [image] at run
            split at run
            · rename_i missing
              cases run
              exact Or.inr ⟨made, rfl, total, item, s₂, [], ⟨streams, count, image⟩,
                fun some => absurd missing some, fun _ => rfl⟩
            · rename_i some
              split at run
              · cases run
              · rename_i res out streams' read
                cases run
                exact Or.inr ⟨made, rfl, total, item, s₂, out, ⟨streams, count, image⟩,
                  fun _ => ⟨res, streams', read, rfl⟩, fun none => absurd none some⟩

theorem SubdirectoryLoaded.requested {cluster total : Int} {d item : UInt32} {s₁ s₂ : Fs H} {out : List UInt8}
    (loaded : SubdirectoryLoaded A device cluster d s₁ s' total item s₂ out) :
    Requested A s₁ s' ∧ s'.heap = s₂.heap := by
  obtain ⟨streams, _, image⟩ := loaded.counted
  have counted : Requested A s₁ { s₁ with streams } := ⟨.refl _, { Fixed.refl s₁ with }⟩
  have requested := counted.trans (newItems_requested image)
  by_cases missing : item = 0
  · rw [loaded.unread missing]
    exact ⟨⟨requested.asks, { requested.fixed with }⟩, rfl⟩
  · obtain ⟨_, _, _, same⟩ := loaded.read missing
    rw [same]
    exact ⟨⟨requested.asks, { requested.fixed with }⟩, rfl⟩

theorem loadFatDirectory_requested {d : UInt32} (run : fat16LoadFatDirectory A device s array i = some (d, s')) :
    Requested A s s' := by
  rcases loadFatDirectory_cases run with ⟨_, rfl⟩ | ⟨q, s₁, _, block, ⟨_, _, rfl⟩ | ⟨_, _, _, _, _, _, loaded⟩⟩
  · exact .refl s'
  · exact fsKZalloc_requested block
  · exact (fsKZalloc_requested block).trans loaded.requested.1

/-- A loaded directory lies in blocks of its own. -/
theorem loadFatDirectory_grows {d : UInt32} (run : fat16LoadFatDirectory A device s array i = some (d, s'))
    (granted : laws.granted s'.heap) (holds : laws.holds s.heap L) : ∃ L', Grows laws L L' s s' := by
  have positive : 1 ≤ sizeofFatDirectory.toNat := by decide
  rcases loadFatDirectory_cases run with
    ⟨_, rfl⟩ | ⟨q, s₁, _, block, ⟨_, _, rfl⟩ | ⟨_, rfl, total, item, s₂, out, loaded⟩⟩
  · exact ⟨L, .refl holds⟩
  · obtain ⟨_, _, L', _, grows⟩ := fsKZalloc_spec block granted holds positive
    exact ⟨L', grows⟩
  · obtain ⟨requested, same⟩ := loaded.requested
    obtain ⟨_, fresh, L₁, live, grows⟩ := fsKZalloc_spec block (requested.granted laws granted) holds positive
    rw [same] at granted
    obtain ⟨streams, _, image⟩ := loaded.counted
    have before := grows.setStreams streams
    -- an image of no bytes takes no block, and nothing is written to it
    by_cases empty : UInt32.ofInt (int32 (total * sizeofFatDirectoryItem)) = 0
    · rw [empty] at image
      have after := before.trans (newItems_empty image granted before.holds live)
      refine ⟨L₁, ?_⟩
      by_cases missing : item = 0
      · rw [loaded.unread missing]
        exact after.setDirectory fresh _
      · obtain ⟨res, streams', read, rfl⟩ := loaded.read missing
        have none : out = [] := readInternal_empty (Int.le_of_eq (ofInt_int32_zero empty)) read
        subst none
        exact ((after.setItems _ (Or.inr rfl)).setDirectory fresh ⟨item, total, 0, 0⟩).setStreams streams'
    · have some : 1 ≤ (UInt32.ofInt (int32 (total * sizeofFatDirectoryItem))).toNat := by
        by_contra zero
        exact empty (UInt32.toNat_inj.mp (Nat.lt_one_iff.mp (Nat.not_le.mp zero)))
      obtain ⟨nonzero, fresh', L₂, live', grows'⟩ := newItems_spec image granted before.holds some
      obtain ⟨_, streams', _, rfl⟩ := loaded.read nonzero
      have written := (before.trans grows').setItems (written out (s₂.items item))
        (Or.inl (before.extends'.free fresh'))
      exact ⟨L₂, (written.setDirectory fresh ⟨item, total, 0, 0⟩).setStreams streams'⟩

theorem cloneDirectoryItem_requested {c : UInt32} (run : fat16CloneDirectoryItem A s array i = (c, s')) :
    Requested A s s' := by
  unfold fat16CloneDirectoryItem at run
  cases block : s.newItems A (.ofNat sizeofFatDirectoryItem) with
  | mk q s₁ =>
    have requested := newItems_requested block
    rw [block] at run
    dsimp only at run
    split at run <;> cases run
    · exact requested
    · exact ⟨requested.asks, { requested.fixed with }⟩

theorem cloneDirectoryItem_request {c : UInt32} (run : fat16CloneDirectoryItem A s array i = (c, s')) :
    c = (A.malloc s.heap (.ofNat sizeofFatDirectoryItem)).1 ∧
      s'.heap = (A.malloc s.heap (.ofNat sizeofFatDirectoryItem)).2 ∧ s'.fatItems = s.fatItems := by
  unfold fat16CloneDirectoryItem at run
  cases block : s.newItems A (.ofNat sizeofFatDirectoryItem) with
  | mk q s₁ =>
    have request := newItems_request block
    rw [block] at run
    dsimp only at run
    split at run
    · rename_i missing
      cases run
      rwa [missing] at request
    · cases run
      exact request

theorem cloneDirectoryItem_spec {c : UInt32} (run : fat16CloneDirectoryItem A s array i = (c, s'))
    (granted : laws.granted s'.heap) (holds : laws.holds s.heap L) :
    c ≠ 0 ∧ L c = none ∧ ∃ L', L' c ≠ none ∧ Grows laws L L' s s' ∧
      (L array ≠ none → ∀ j < sizeofFatDirectoryItem, s'.items c j = s.entry array i j) := by
  unfold fat16CloneDirectoryItem at run
  cases block : s.newItems A (.ofNat sizeofFatDirectoryItem) with
  | mk q s₁ =>
    rw [block] at run
    dsimp only at run
    have granted₁ : laws.granted s₁.heap := by
      split at run <;> cases run <;> exact granted
    obtain ⟨nonzero, fresh, L', live, grows⟩ := newItems_spec block granted₁ holds (by decide)
    rw [if_neg nonzero] at run
    cases run
    refine ⟨nonzero, fresh, L', live, grows.setItems _ (Or.inl fresh), fun owned j inside => ?_⟩
    have entry := congrFun (grows.kept.entry owned i) j
    rw [← entry]
    dsimp only
    rw [Function.update_self]
    simp [written, List.getD, inside]

/-- The item at `f` is a file's. It and its copy of an entry were not live before. -/
structure OwnItem (L L' : Ledger UInt32 Nat) (s : Fs H) (f : UInt32) : Prop where
  nonzero : f ≠ 0
  fresh : L f = none
  live : L' f ≠ none
  type : (s.fatItems f).type = fatItemTypeFile
  copyFresh : L (s.fatItems f).item = none
  copyLive : L' (s.fatItems f).item ≠ none
  apart : (s.fatItems f).item ≠ f

theorem OwnItem.mono {L L₀ L₁ L' : Ledger UInt32 Nat} {s s' : Fs H} {f : UInt32} (made : OwnItem L L₁ s f)
    (less : Extends L₀ L) (grows : Grows laws L₁ L' s s') : OwnItem L₀ L' s' f := by
  have same := grows.kept.fatItems f made.live
  constructor
  · exact made.nonzero
  · exact less.free made.fresh
  · exact grows.extends'.owned made.live
  · rw [same]
    exact made.type
  · rw [same]
    exact less.free made.copyFresh
  · rw [same]
    exact grows.extends'.owned made.copyLive
  · rw [same]
    exact made.apart

/-- The item at `f` before its entry is copied. -/
def ItemPrepared (A : Allocator H) (device : BlockDevice) (s₁ s₂ : Fs H) (entry : Nat → UInt8) (array : UInt32)
    (i : Nat) (f : UInt32) : Prop :=
  (itemAttribute entry &&& fatFileSubdirectory ≠ 0 ∧ ∃ d s', fat16LoadFatDirectory A device s₁ array i = some (d, s') ∧
    s₂ = s'.setItem f ⟨d, fatItemTypeDirectory⟩) ∨
  (itemAttribute entry &&& fatFileSubdirectory = 0 ∧ s₂ = s₁.setItem f ⟨0, 0⟩)

/-- What making an item does. -/
theorem newFatItem_cases {f : UInt32} (run : fat16NewFatItemForDirectoryItem A device s array i = some (f, s')) :
    ∃ s₁, s.kZalloc A sizeofFatItem = (f, s₁) ∧ ((f = 0 ∧ s' = s₁) ∨
      (f ≠ 0 ∧ ∃ s₂ c s₃, ItemPrepared A device s₁ s₂ (s₁.entry array i) array i f ∧
        fat16CloneDirectoryItem A (s₂.setItem f { s₂.fatItems f with type := fatItemTypeFile }) array i = (c, s₃) ∧
        s' = s₃.setItem f { s₃.fatItems f with item := c })) := by
  unfold fat16NewFatItemForDirectoryItem at run
  cases block : s.kZalloc A sizeofFatItem with
  | mk q s₁ =>
    rw [block] at run
    dsimp only at run
    split at run
    · rename_i missing
      subst missing
      cases run
      exact ⟨_, rfl, Or.inl ⟨rfl, rfl⟩⟩
    · rename_i some
      split at run
      · rename_i directory
        cases load : fat16LoadFatDirectory A device s₁ array i with
        | none => simp [load] at run
        | some result =>
          obtain ⟨d, s₀⟩ := result
          simp only [load, Option.map_some, Option.some.injEq, Prod.mk.injEq] at run
          obtain ⟨rfl, rfl⟩ := run
          exact ⟨s₁, rfl, Or.inr ⟨some, _, _, _, Or.inl ⟨directory, d, s₀, load, rfl⟩, rfl, rfl⟩⟩
      · rename_i file
        simp only [Option.map_some, Option.some.injEq, Prod.mk.injEq] at run
        obtain ⟨rfl, rfl⟩ := run
        exact ⟨s₁, rfl, Or.inr ⟨some, _, _, _, Or.inr ⟨not_not.mp file, rfl⟩, rfl, rfl⟩⟩

theorem ItemPrepared.requested {s₁ s₂ : Fs H} {entry : Nat → UInt8} {f : UInt32}
    (prepared : ItemPrepared A device s₁ s₂ entry array i f) : Requested A s₁ s₂ := by
  rcases prepared with ⟨_, d, s₀, load, rfl⟩ | ⟨_, rfl⟩
  · have requested := loadFatDirectory_requested load
    exact ⟨requested.asks, { requested.fixed with }⟩
  · exact ⟨.refl _, { Fixed.refl s₁ with }⟩

theorem newFatItem_requested {f : UInt32} (run : fat16NewFatItemForDirectoryItem A device s array i = some (f, s')) :
    Requested A s s' := by
  obtain ⟨s₁, block, ⟨_, rfl⟩ | ⟨_, s₂, c, s₃, prepared, clone, rfl⟩⟩ := newFatItem_cases run
  · exact fsKZalloc_requested block
  · have before := (fsKZalloc_requested block).trans prepared.requested
    have copy := cloneDirectoryItem_requested clone
    have typed : Requested A s (s₂.setItem f { s₂.fatItems f with type := fatItemTypeFile }) :=
      ⟨before.asks, { before.fixed with }⟩
    have requested := typed.trans copy
    exact ⟨requested.asks, { requested.fixed with }⟩

/-- The item at `f` is a file's. It and its copy of an entry were requested one after
the other, and nothing was released meanwhile. -/
structure ItemMade (A : Allocator H) (h : H) (s : Fs H) (f : UInt32) : Prop where
  nonzero : f ≠ 0
  type : (s.fatItems f).type = fatItemTypeFile
  requests : ∃ h₁ h₂, Asks A h h₁ ∧ f = (A.malloc h₁ sizeofFatItem).1 ∧
    Asks A (A.malloc h₁ sizeofFatItem).2 h₂ ∧
    (s.fatItems f).item = (A.malloc h₂ (.ofNat sizeofFatDirectoryItem)).1 ∧
    Asks A (A.malloc h₂ (.ofNat sizeofFatDirectoryItem)).2 s.heap

theorem ItemMade.before {h h' : H} {f : UInt32} (asks : Asks A h h') (made : ItemMade A h' s f) :
    ItemMade A h s f := by
  obtain ⟨h₁, h₂, first, rest⟩ := made.requests
  exact ⟨made.nonzero, made.type, h₁, h₂, asks.trans first, rest⟩

theorem newFatItem_made {f : UInt32} (run : fat16NewFatItemForDirectoryItem A device s array i = some (f, s')) :
    f = 0 ∨ ItemMade A s.heap s' f := by
  obtain ⟨s₁, block, ⟨missing, _⟩ | ⟨some, s₂, c, s₃, prepared, clone, rfl⟩⟩ := newFatItem_cases run
  · exact Or.inl missing
  · have asks := prepared.requested.asks
    obtain ⟨copy, heap, items⟩ := cloneDirectoryItem_request clone
    have after : s₃.heap = (A.malloc s₂.heap (.ofNat sizeofFatDirectoryItem)).2 := heap
    have item : (s₃.setItem f { s₃.fatItems f with item := c }).fatItems f = ⟨c, fatItemTypeFile⟩ := by
      have type : s₃.fatItems f = { s₂.fatItems f with type := fatItemTypeFile } := by
        rw [items]
        exact Function.update_self f _ s₂.fatItems
      rw [type]
      exact Function.update_self f _ s₃.fatItems
    cases block
    right
    refine ⟨some, by rw [item], s.heap, s₂.heap, .refl _, rfl, asks, ?_, ?_⟩
    · rw [item]
      exact copy
    · rw [← after]
      exact .refl _

/-- A made item and its copy are two new blocks, and the copy has the entry's bytes. -/
theorem newFatItem_spec {f : UInt32} (run : fat16NewFatItemForDirectoryItem A device s array i = some (f, s'))
    (granted : laws.granted s'.heap) (holds : laws.holds s.heap L) :
    ∃ L', Grows laws L L' s s' ∧ OwnItem L L' s' f ∧
      (L array ≠ none → ∀ j < sizeofFatDirectoryItem, s'.items (s'.fatItems f).item j = s.entry array i j) := by
  have positive : 1 ≤ sizeofFatItem.toNat := by decide
  obtain ⟨s₁, block, ⟨missing, rfl⟩ | ⟨_, s₂, c, s₃, prepared, clone, rfl⟩⟩ := newFatItem_cases run
  · exact absurd missing (fsKZalloc_spec block granted holds positive).1.1
  · have copy := cloneDirectoryItem_requested clone
    have granted₂ : laws.granted s₂.heap := copy.granted laws granted
    obtain ⟨⟨nonzero, _⟩, fresh, L₁, live, grows⟩ :=
      fsKZalloc_spec block (prepared.requested.granted laws granted₂) holds positive
    have before : ∃ L₂, Extends L₁ L₂ ∧ Grows laws L L₂ s s₂ := by
      rcases prepared with ⟨_, d, s₀, load, rfl⟩ | ⟨_, rfl⟩
      · obtain ⟨L₂, loaded⟩ := loadFatDirectory_grows load granted₂ grows.holds
        exact ⟨L₂, loaded.extends', (grows.trans loaded).setItem fresh _⟩
      · exact ⟨L₁, .refl L₁, grows.setItem fresh _⟩
    obtain ⟨L₂, more, before⟩ := before
    have typed := before.setItem fresh { s₂.fatItems f with type := fatItemTypeFile }
    obtain ⟨copyNonzero, copyFresh, L₃, copyLive, copied, bytes⟩ := cloneDirectoryItem_spec clone granted typed.holds
    have owned := more.owned live
    have type : (s₃.fatItems f).type = fatItemTypeFile := by
      rw [copied.kept.fatItems f owned]
      exact congrArg FatItem.type (Function.update_self f _ s₂.fatItems)
    have item : (s₃.setItem f { s₃.fatItems f with item := c }).fatItems f = ⟨c, fatItemTypeFile⟩ := by
      rw [← type]
      exact Function.update_self f _ s₃.fatItems
    have apart : c ≠ f := by
      rintro rfl
      exact owned copyFresh
    refine ⟨L₃, (typed.trans copied).setItem fresh _, ?_, ?_⟩
    · constructor
      · exact nonzero
      · exact fresh
      · exact copied.extends'.owned owned
      · rw [item]
      · rw [item]
        exact typed.extends'.free copyFresh
      · rw [item]
        exact copyLive
      · rw [item]
        exact apart
    · intro array j inside
      rw [item, ← typed.kept.entry array i]
      exact bytes (typed.extends'.owned array) j inside

/-- One entry of a search: it is decoded, and a match is made into an item. -/
theorem findItemFrom_cases {name : Nat → UInt8} {f₀ f : UInt32} {left : Nat}
    (run : findItemFrom A device s array name f₀ (left + 1) i = some (f, s')) :
    ∃ w, fat16GetFullFilenameWithExtension (s.entry array i) peachosMaxPathLength = some w ∧
      ((istrncmp (w.getD · 0) name peachosMaxPathLength = 0 ∧ ∃ f₁ s₁,
          fat16NewFatItemForDirectoryItem A device s array i = some (f₁, s₁) ∧
          findItemFrom A device s₁ array name f₁ left (i + 1) = some (f, s')) ∨
        (istrncmp (w.getD · 0) name peachosMaxPathLength ≠ 0 ∧
          findItemFrom A device s array name f₀ left (i + 1) = some (f, s'))) := by
  rw [findItemFrom] at run
  split at run
  · cases run
  · split at run
    · cases run
    · rename_i w decoded
      refine ⟨w, decoded, ?_⟩
      split at run
      · rename_i same
        split at run
        · cases run
        · rename_i f₁ s₁ made
          exact Or.inl ⟨same, f₁, s₁, made, run⟩
      · rename_i other
        exact Or.inr ⟨other, run⟩

theorem findItemFrom_requested {name : Nat → UInt8} {f₀ f : UInt32} {left : Nat}
    (run : findItemFrom A device s array name f₀ left i = some (f, s')) : Requested A s s' := by
  induction left generalizing s f₀ i with
  | zero =>
    cases run
    exact .refl _
  | succ left ih =>
    obtain ⟨_, _, ⟨_, f₁, s₁, made, rest⟩ | ⟨_, rest⟩⟩ := findItemFrom_cases run
    · exact (newFatItem_requested made).trans (ih rest)
    · exact ih rest

theorem findItemFrom_made {name : Nat → UInt8} {f₀ f : UInt32} {left : Nat}
    (run : findItemFrom A device s array name f₀ left i = some (f, s')) :
    (f = f₀ ∧ s' = s) ∨ f = 0 ∨ ItemMade A s.heap s' f := by
  induction left generalizing s f₀ i with
  | zero =>
    cases run
    exact Or.inl ⟨rfl, rfl⟩
  | succ left ih =>
    obtain ⟨_, _, ⟨_, f₁, s₁, made, rest⟩ | ⟨_, rest⟩⟩ := findItemFrom_cases run
    · have asks := (newFatItem_requested made).asks
      obtain ⟨rfl, rfl⟩ | missing | later := ih rest
      · exact Or.inr (newFatItem_made made)
      · exact Or.inr (Or.inl missing)
      · exact Or.inr (Or.inr (later.before asks))
    · exact ih rest

/-- What a search leaves behind. -/
theorem findItemFrom_grows {name : Nat → UInt8} {f₀ f : UInt32} {left : Nat}
    (run : findItemFrom A device s array name f₀ left i = some (f, s')) (granted : laws.granted s'.heap)
    (holds : laws.holds s.heap L) : ∃ L', Grows laws L L' s s' ∧ (f = f₀ ∨ OwnItem L L' s' f) := by
  induction left generalizing s f₀ i L with
  | zero =>
    cases run
    exact ⟨L, .refl holds, Or.inl rfl⟩
  | succ left ih =>
    obtain ⟨_, _, ⟨_, f₁, s₁, made, rest⟩ | ⟨_, rest⟩⟩ := findItemFrom_cases run
    · obtain ⟨L₁, grows, item, _⟩ := newFatItem_spec made ((findItemFrom_requested rest).granted laws granted) holds
      obtain ⟨L', grows', found⟩ := ih rest grows.holds
      refine ⟨L', grows.trans grows', Or.inr ?_⟩
      cases found with
      | inl same =>
        subst same
        exact item.mono (.refl L) grows'
      | inr later => exact later.mono grows.extends' (.refl grows'.holds)
    · exact ih rest holds

/-! ## Opening -/

variable {path : UInt32}

theorem findItem_made {directory : FatDirectory} {name : Nat → UInt8} {f : UInt32}
    (run : fat16FindItemInDirectory A device s directory name = some (f, s')) : f = 0 ∨ ItemMade A s.heap s' f := by
  obtain ⟨missing, _⟩ | found := findItemFrom_made run
  · exact Or.inl missing
  · exact found

/-- An item is never a directory's, so the search ends with the first part. -/
theorem getDirectoryEntry_eq (device : BlockDevice) (s : Fs H) (path : UInt32) :
    fat16GetDirectoryEntry A device s path =
      (fat16FindItemInDirectory A device s s.private.rootDirectory (s.strings (s.parts path).part)).map
        fun (f, s') => (if (s'.parts path).next = 0 then f else 0, s') := by
  unfold fat16GetDirectoryEntry
  cases found : fat16FindItemInDirectory A device s s.private.rootDirectory (s.strings (s.parts path).part) with
  | none => rfl
  | some result =>
    obtain ⟨f, s'⟩ := result
    simp only [Option.bind_eq_bind, Option.bind_some, Option.map_some]
    by_cases missing : f = 0
    · simp [missing]
    · rw [if_neg missing, Fs.directoryEntryFrom]
      obtain none | made := findItem_made found
      · exact absurd none missing
      · have file : (s'.fatItems f).type ≠ fatItemTypeDirectory := by
          rw [made.type]
          decide
        by_cases last : (s'.parts path).next = 0
        · rw [if_pos last, if_pos last]
        · rw [if_neg last, if_neg missing, if_pos file, if_neg last]

theorem getDirectoryEntry_made {f : UInt32} (run : fat16GetDirectoryEntry A device s path = some (f, s')) :
    Requested A s s' ∧ (f = 0 ∨ ItemMade A s.heap s' f) := by
  rw [getDirectoryEntry_eq] at run
  obtain ⟨⟨f₀, s₀⟩, found, rest⟩ := Option.map_eq_some_iff.mp run
  cases rest
  refine ⟨findItemFrom_requested found, ?_⟩
  by_cases last : (s'.parts path).next = 0
  · rw [if_pos last]
    exact findItem_made found
  · rw [if_neg last]
    exact Or.inl rfl

end

end PeachOs
