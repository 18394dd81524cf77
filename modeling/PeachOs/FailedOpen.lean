import PeachOs.HeapEdges
import PeachOs.OpenLeaks
import Mathlib.Data.Set.Card

/-!
# Opens that fail

What a failed `fopen` leaves behind, on a heap with blocks for the path and the
file system's descriptor.
-/

namespace PeachOs

open Ownership
open Function (update)

/-! ## Blocks that are free -/

section

variable {heap : Heap} {h h' : WatchedHeap}

theorem freeBlocks_finite (heap : Heap) : heap.freeBlocks.Finite :=
  (Set.finite_lt_nat heap.table.total.toNat).subset fun _ free => free.1

/-- Freeing anything takes no block. -/
theorem heapFree_freeBlocks (heap : Heap) (p : UInt32) : heap.freeBlocks ⊆ (heapFree heap p).2.freeBlocks := by
  rintro k ⟨inside, free⟩
  obtain ⟨_, total⟩ := heapFree_shape heap p
  refine ⟨by rwa [total], ?_⟩
  unfold heapFree
  split
  · exact free
  · rw [Heap.setEntries_entries]
    by_cases last : k = (freeFrom heap.table.entries (heap.blockIndex p)
        (heap.table.total.toNat - heap.blockIndex p) (heap.blockIndex p)).2
    · rw [← last, Function.update_self]
    · rw [Function.update_of_ne last]
      exact freeFrom_keeps _ _ _ _ _ free

/-- A request of at most a block takes one block. -/
theorem heapMalloc_freeBlocks (kernel : KernelHeap heap) {n : UInt32} (positive : 1 ≤ n.toNat) (small : n.toNat ≤ 4096) :
    ∃ s, heap.freeBlocks \ {s} ⊆ (heapMalloc heap n).2.freeBlocks := by
  obtain failed | ⟨s, _, run⟩ := heapMalloc_one kernel positive small
  · rw [failed]
    exact ⟨0, Set.sdiff_subset⟩
  · refine ⟨s, ?_⟩
    rintro k ⟨⟨within, free⟩, other⟩
    rw [run]
    refine ⟨within, ?_⟩
    rw [Heap.setEntries_entries, Function.update_of_ne other]
    exact free

theorem Releases.freeBlocks (kernel : KernelHeap h.heap) (rest : Releases watchedHeap h h') :
    KernelHeap h'.heap ∧ h.heap.freeBlocks ⊆ h'.heap.freeBlocks ∧ (h.granted → h'.granted) := by
  induction rest with
  | refl => exact ⟨kernel, subset_rfl, id⟩
  | @free h' p _ ih =>
    obtain ⟨kernel', more, granted⟩ := ih
    exact ⟨kernel'.free p, more.trans (heapFree_freeBlocks h'.heap p), granted⟩

/-- Free blocks serve requests of a block. -/
theorem serves_of_free (kernel : KernelHeap h.heap) (granted : h.granted) {n : Nat}
    (room : n ≤ h.heap.freeBlocks.ncard) : kernelBlocks.Serves n h := by
  induction n generalizing h with
  | zero => trivial
  | succ n ih =>
    intro h' rest bytes positive small
    obtain ⟨kernel', more, granted'⟩ := rest.freeBlocks kernel
    have room' : n + 1 ≤ h'.heap.freeBlocks.ncard :=
      Nat.le_trans room (Set.ncard_le_ncard more (freeBlocks_finite _))
    have one : blocksNeeded bytes = 1 := blocksNeeded_one positive small
    obtain ⟨k, free⟩ : h'.heap.freeBlocks.Nonempty := by
      apply Set.nonempty_of_ncard_ne_zero
      omega
    have fits : (watchedHeap.malloc h' bytes).2.granted := by
      refine ⟨granted' granted, k, ?_⟩
      rw [one]
      exact (freeRun_one k).mpr free
    obtain ⟨s, left⟩ := heapMalloc_freeBlocks kernel' positive small
    refine ⟨fits, ih (kernel'.malloc bytes) fits ?_⟩
    have fewer : n ≤ (h'.heap.freeBlocks \ {s}).ncard := by
      have := Set.ncard_le_ncard_sdiff_add_ncard h'.heap.freeBlocks {s}
      rw [Set.ncard_singleton] at this
      omega
    exact Nat.le_trans fewer (Set.ncard_le_ncard left (freeBlocks_finite _))

end

/-! ## Giving a path back -/

section

variable {H : Type} {A : Allocator H} {on : OnBlockHeap A} {rest : List UInt32}

theorem LiveHeap.singles {heap : Heap} {L : Ledger UInt32 Nat} {blocks : List UInt32} (live : LiveHeap heap L)
    (nodup : blocks.Nodup) (owned : ∀ p ∈ blocks, L p = some 1) : Singles heap blocks := by
  refine ⟨⟨live.saddr, live.total⟩, nodup, fun p mem => ?_⟩
  obtain ⟨_, inside, place⟩ := live.block (owned p mem)
  refine ⟨heap.blockIndex p, ?_, ?_, ?_⟩
  · rw [live.total]
    omega
  · rw [Heap.blockAddr, live.saddr]
    exact place
  · rw [live.entry_taken (owned p mem) (Nat.le_refl _) (Nat.lt_succ_self _), if_pos rfl]

/-- Freeing a path leaves the other blocks. -/
theorem freePartsFrom_singles {s s' : Paths H} {p : UInt32} {blocks : List UInt32} {ws : List (List UInt8)}
    (list : PartList s p blocks ws) {h : H} (singles : Singles (on.heap h) (blocks ++ rest))
    (run : Paths.freePartsFrom A { s with heap := h } p = some s') : Singles (on.heap s'.heap) rest := by
  induction list generalizing h with
  | nil =>
    rw [Paths.freePartsFrom, if_pos rfl] at run
    cases run
    exact singles
  | cons nonzero _ _ ih =>
    rw [Paths.freePartsFrom, if_neg nonzero] at run
    exact ih singles.free.free run

theorem pathparserFree_singles {s s' : Paths H} {root : UInt32} {blocks : List UInt32} {ws : List (List UInt8)}
    (list : PartList s (s.roots root).first blocks ws) (singles : Singles (on.heap s.heap) (root :: (blocks ++ rest)))
    (run : pathparserFree A s root = some s') : Singles (on.heap s'.heap) rest := by
  have order : Singles (on.heap s.heap) (blocks ++ root :: rest) := singles.perm List.perm_middle.symm
  unfold pathparserFree at run
  split at run
  · cases run
  · obtain ⟨s₁, parts, same⟩ := Option.map_eq_some_iff.mp run
    cases same
    exact (freePartsFrom_singles list order parts).free

end

/-! ## `fopen` that fails -/

section

variable {device : BlockDevice} {s s' : Files WatchedHeap} {filename modeStr : List UInt8} {L : Ledger UInt32 Nat}

/-- 0 is returned, and the table of descriptors and the heap's are as they were. -/
def OpenUndone (device : BlockDevice) (s : Files WatchedHeap) (filename modeStr : List UInt8) : Prop :=
  ∃ s', fopen watchedHeap device s filename modeStr = some (0, s') ∧ s'.fileDescriptors = s.fileDescriptors ∧
    TableKept s.heap.heap s'.heap.heap

/-- The path has a part, drive and mode are 0 and `r`, and there is a file system. -/
structure OpenTried (s : Files WatchedHeap) (filename modeStr : List UInt8) : Prop where
  parts : components (filename.drop 3) ≠ []
  drive : toNumericDigit (filename.headD 0) = 0
  filesystem : s.filesystem ≠ 0
  mode : fileGetModeByString modeStr = fileModeRead

theorem Parsed.passes_iff {root : UInt32} {paths : Paths WatchedHeap} {blocks : List UInt32}
    (parsed : Parsed kernelBlocks L s.toPaths paths root blocks filename) :
    Passes (s.setPaths paths) root modeStr ↔
      components (filename.drop 3) ≠ [] ∧ toNumericDigit (filename.headD 0) = 0 ∧ s.filesystem ≠ 0 ∧
        fileGetModeByString modeStr ≠ fileModeInvalid := by
  have some : (paths.roots root).first ≠ 0 ↔ components (filename.drop 3) ≠ [] := by
    rw [not_iff_not]
    have list := parsed.list
    constructor
    · intro first
      rw [first] at list
      generalize components (filename.drop 3) = ws at list
      cases list with
      | nil => rfl
      | cons nonzero => exact absurd rfl nonzero
    · intro none
      rw [none] at list
      exact list.first_nil
  constructor
  · intro passes
    exact ⟨some.mp passes.first, parsed.drive ▸ passes.drive, passes.filesystem, passes.mode⟩
  · rintro ⟨parts, drive, filesystem, mode⟩
    exact ⟨parsed.nonzero, some.mpr parts, parsed.drive.trans drive, filesystem, mode⟩

/-- The exit gives exactly the path back. -/
theorem Parsed.exit_undone {root : UInt32} {paths : Paths WatchedHeap} {blocks : List UInt32}
    (live : LiveHeap s.heap.heap L) (parsed : Parsed kernelBlocks L s.toPaths paths root blocks filename)
    (exit : fopen watchedHeap device s filename modeStr = fopenFails watchedHeap (s.setPaths paths) root) :
    OpenUndone device s filename modeStr := by
  obtain ⟨heap', freed, back⟩ := parsed.free
  refine ⟨(s.setPaths paths).setPaths { paths with heap := heap' }, ?_, rfl, ?_⟩
  · have freed : pathparserFree watchedHeap (s.setPaths paths).toPaths root = some { paths with heap := heap' } := freed
    rw [exit, fopenFails, freed]
    rfl
  · intro k inside
    have back : LiveHeap heap'.heap L := back
    rw [live.total] at inside
    exact back.table_eq live inside

/-- The exit leaves every block that is not the path's. -/
theorem exit_keeps {t : Files WatchedHeap} {paths : Paths WatchedHeap} {root p : UInt32} {blocks : List UInt32} {res : Int}
    (parsed : Parsed kernelBlocks L s.toPaths paths root blocks filename) (roots : t.roots = paths.roots)
    (parts : t.parts = paths.parts) (strings : t.strings = paths.strings)
    (singles : Singles (watchedOn.heap t.heap) (p :: root :: blocks))
    (exit : fopenFails watchedHeap t root = some (res, s')) : Singles (watchedOn.heap s'.heap) [p] := by
  obtain ⟨paths', freed, same⟩ := Option.map_eq_some_iff.mp exit
  cases same
  have list : PartList t.toPaths (t.roots root).first blocks (components (filename.drop 3)) := by
    rw [roots]
    exact parsed.list.of_eq parts strings
  refine pathparserFree_singles list (singles.perm ?_) freed
  exact (List.perm_append_singleton p (root :: blocks)).symm

/-- An open that gets as far as the search loses the file system's descriptor. -/
theorem tried_leaks {paths : Paths WatchedHeap} {root : UInt32} {blocks : List UInt32}
    (live : LiveHeap s.heap.heap L) (parsed : Parsed kernelBlocks L s.toPaths paths root blocks filename)
    (serves : kernelBlocks.Serves 1 paths.heap) (tried : OpenTried s filename modeStr)
    (run : FopenRun watchedHeap device (s.setPaths paths) modeStr root 0 s') :
    ∃ k ∈ s.heap.heap.freeBlocks, s'.heap.heap.table.entries k = entryLast := by
  have read : fileModeRead ≠ fileModeInvalid := by decide
  have passes : Passes (s.setPaths paths) root modeStr :=
    parsed.passes_iff.mpr ⟨tried.parts, tried.drive, tried.filesystem, tried.mode ▸ read⟩
  have held : Singles (watchedOn.heap paths.heap) (root :: blocks) :=
    LiveHeap.singles parsed.holds parsed.new.nodup fun p mem => assign_new L 1 mem
  obtain ⟨granted, _⟩ := serves.malloc sizeofFatFileDescriptor (by decide) (by decide)
  obtain ⟨⟨positive, _⟩, new, live'⟩ := kernelBlocks.malloc _ _ _ granted parsed.holds (by decide)
  have live' : LiveHeap _ _ := live'
  have one : blocksNeeded sizeofFatFileDescriptor = 1 := by decide
  rw [one] at live'
  have path := parsed.new.extends 1
  obtain ⟨inside, free⟩ := live.fresh_free live' (path.trans (extends_update new 1)) (path.free new)
    (Function.update_self _ _ _)
  obtain ⟨_, _, place⟩ := live'.block (Function.update_self _ _ _)
  -- what the search finds, and why the descriptor stays
  have leaks {r : UInt32} {fs : Fs WatchedHeap} {t : Files WatchedHeap}
      (opened : fat16Open watchedHeap device (s.setPaths paths).toFs ((s.setPaths paths).roots root).first
        (fileGetModeByString modeStr) = some (r, fs))
      (asks : Asks watchedHeap fs.heap t.heap) (same : t.toPaths = { fs.toPaths with heap := t.heap })
      (exit : fopenFails watchedHeap t root = some (0, s')) :
      ∃ k ∈ s.heap.heap.freeBlocks, s'.heap.heap.table.entries k = entryLast := by
    obtain refused | ⟨p, item, s₁, s₂, searched, _, rfl⟩ := fat16Open_cases opened
    · cases refused with
      | mode write => exact absurd tried.mode write
      | memory _ block =>
        obtain ⟨null, _⟩ := fsKZalloc_request block
        have null : (watchedHeap.malloc paths.heap sizeofFatFileDescriptor).1 = 0 := null.symm
        rw [null] at positive
        exact absurd positive (Nat.lt_irrefl 0)
    · have own : Singles (watchedOn.heap s₁.heap) (p :: root :: blocks) := searched.singles held
      obtain ⟨requested, _⟩ := getDirectoryEntry_made searched.search
      obtain ⟨rfl, rfl⟩ := fsKZalloc_request searched.block
      have left := exit_keeps parsed (congrArg Paths.roots same |>.trans requested.fixed.roots)
        (congrArg Paths.parts same |>.trans requested.fixed.parts)
        (congrArg Paths.strings same |>.trans requested.fixed.strings)
        ((own.asks requested.asks).asks asks) exit
      have within := inside
      rw [← live.total] at within
      refine ⟨_, ⟨within, free⟩, ?_⟩
      have single := left.single _ List.mem_cons_self
      refine Heap.Single.entry ?_ ⟨live.saddr, live.total⟩ left.kernel within
      rw [Heap.blockAddr, live.saddr, ← place]
      exact single
  cases run with
  | refused bad => exact absurd passes bad
  | unopened _ opened _ freed => exact leaks opened (.refl _) rfl freed
  | @noDescriptor r fs s₁ _ _ opened _ none freed =>
    obtain ⟨_, rfl⟩ | ⟨i, fs', _, block, rfl⟩ := none
    · exact leaks opened (.refl _) rfl freed
    · obtain ⟨_, rfl⟩ := fsKZalloc_request block
      exact leaks opened ((Asks.refl _).malloc _) rfl freed

/-- A parse of an accepted path returns, and leaves a block for a descriptor. -/
theorem accepted_parses (live : LiveHeap s.heap.heap L) (granted : s.heap.granted) (noNul : (0 : UInt8) ∉ filename)
    (room : 2 * (components (filename.drop 3)).length + 4 ≤ s.heap.heap.freeBlocks.ncard) (good : Accepted filename) :
    ∃ root paths blocks, pathparserParse watchedHeap s.toPaths filename = some (root, paths) ∧
      Parsed kernelBlocks L s.toPaths paths root blocks filename ∧ kernelBlocks.Serves 1 paths.heap := by
  have serves : kernelBlocks.Serves (1 + 2 * (components (filename.drop 3)).length + 3) s.heap := by
    rw [Nat.add_comm 1]
    exact serves_of_free ⟨live.saddr, live.total⟩ granted room
  obtain ⟨root, paths, parsed, granted', left⟩ := pathparserParse_returns serves live noNul good
  obtain ⟨blocks, spec⟩ := pathparserParse_spec parsed granted' live noNul good
  exact ⟨root, paths, blocks, parsed, spec, left⟩

theorem fopen_rejected (noNul : (0 : UInt8) ∉ filename) (bad : ¬ Accepted filename) :
    fopen watchedHeap device s filename modeStr = none := by
  have rejected := pathparserParse_rejects (A := watchedHeap) s.toPaths noNul bad
  rw [fopen_refused rejected fun passes => passes.nonzero rfl]
  rfl

theorem tried_not_undone (live : LiveHeap s.heap.heap L) (granted : s.heap.granted) (noNul : (0 : UInt8) ∉ filename)
    (room : 2 * (components (filename.drop 3)).length + 4 ≤ s.heap.heap.freeBlocks.ncard) (good : Accepted filename)
    (tried : OpenTried s filename modeStr) : ¬ OpenUndone device s filename modeStr := by
  rintro ⟨s', run, _, kept⟩
  obtain ⟨root, paths, blocks, parsed, spec, left⟩ := accepted_parses live granted noNul room good
  obtain ⟨root', paths', again, run⟩ := fopen_cases run
  rw [parsed] at again
  cases again
  obtain ⟨k, free, taken⟩ := tried_leaks live spec left tried run
  rw [kept k free.1, free.2] at taken
  exact absurd taken (by decide)

/-- **Opens that fail.** Nothing is left behind exactly when the path is accepted
and a check before the search fails. A path that is not accepted has no root to
free, and the search leaves the file system's descriptor. (An open that succeeds
is on neither side.) -/
theorem fopen_undone_iff (live : LiveHeap s.heap.heap L) (granted : s.heap.granted) (noNul : (0 : UInt8) ∉ filename)
    (room : 2 * (components (filename.drop 3)).length + 4 ≤ s.heap.heap.freeBlocks.ncard) :
    OpenUndone device s filename modeStr ↔ Accepted filename ∧ ¬ OpenTried s filename modeStr := by
  constructor
  · intro undone
    have good : Accepted filename := by
      by_contra bad
      obtain ⟨s', run, _⟩ := undone
      rw [fopen_rejected noNul bad] at run
      cases run
    exact ⟨good, fun tried => tried_not_undone live granted noNul room good tried undone⟩
  · rintro ⟨good, early⟩
    obtain ⟨root, paths, blocks, parsed, spec, _⟩ := accepted_parses live granted noNul room good
    apply spec.exit_undone live
    by_cases passes : Passes (s.setPaths paths) root modeStr
    · obtain ⟨parts, drive, filesystem, _⟩ := spec.passes_iff.mp passes
      exact fopen_unread parsed passes fun read => early ⟨parts, drive, filesystem, read⟩
    · exact fopen_refused parsed passes

end

/-! ## A volume without files -/

def newWatched : WatchedHeap := ⟨newHeap, True⟩

theorem newHeap_live : LiveHeap newHeap fun _ => none := kheapInit_live _ _

theorem newHeap_room {n : Nat} (few : n ≤ 25600) : n ≤ newHeap.freeBlocks.ncard := by
  have total : newHeap.table.total.toNat = 25600 := kheapInit_total _ _
  have all : (Finset.range 25600 : Set Nat) ⊆ newHeap.freeBlocks := by
    intro k mem
    have inside : k < 25600 := Finset.mem_range.mp mem
    exact ⟨by rwa [total], newHeap_free (by rwa [total])⟩
  have count := Set.ncard_le_ncard all (freeBlocks_finite newHeap)
  rw [Set.ncard_coe_finset, Finset.card_range] at count
  exact Nat.le_trans few count

theorem notePath_parts : components (notePath.drop 3) = [[65]] := by
  have name : PartName [65] := ⟨by decide, by decide, by decide⟩
  exact components_last name false

theorem notePath_accepted : Accepted notePath := ⟨by decide, by decide⟩

theorem no_mode_undone : OpenUndone emptyDisk (noteFiles newWatched 0) notePath [120] := by
  refine (fopen_undone_iff newHeap_live trivial (by decide) ?_).mpr ⟨notePath_accepted, fun tried => ?_⟩
  · rw [notePath_parts]
    exact newHeap_room (by decide)
  · exact absurd tried.mode (by decide)

theorem emptyRoot_fails {fd : Int} {s' : Files WatchedHeap}
    (run : fopen watchedHeap emptyDisk (noteFiles newWatched 0) notePath [114] = some (fd, s')) : fd ≤ 0 := by
  obtain ⟨root, paths, _, run⟩ := fopen_cases run
  cases run with
  | refused => exact Int.le_refl 0
  | unopened => exact Int.le_refl 0
  | noDescriptor => exact Int.le_refl 0
  | opened _ opened pointer =>
    exfalso
    obtain refused | ⟨p, item, s₁, s₂, searched, same, _⟩ := fat16Open_cases opened
    · cases refused with
      | mode write => exact write (by decide)
      | memory _ _ => exact pointer (by decide)
    · obtain ⟨rfl, rfl⟩ := fsKZalloc_request searched.block
      have search := searched.search
      rw [getDirectoryEntry_eq] at search
      obtain ⟨⟨f, s₃⟩, found, last⟩ := Option.map_eq_some_iff.mp search
      have none : f = 0 := by
        cases found
        rfl
      have missing : item = 0 := by
        cases last
        rw [none]
        exact ite_self 0
      rw [same, if_pos missing] at pointer
      exact pointer (by decide)

/-- The name without a drive is not accepted, and then nothing is returned. A missing
file is reported, and its descriptor stays on the heap. -/
theorem failed_opens_leave :
    fopen watchedHeap emptyDisk (noteFiles newWatched 0) [65] [114] = none ∧
      ¬ OpenUndone emptyDisk (noteFiles newWatched 0) [65] [114] ∧
    (∀ fd s', fopen watchedHeap emptyDisk (noteFiles newWatched 0) notePath [114] = some (fd, s') → fd ≤ 0) ∧
      ¬ OpenUndone emptyDisk (noteFiles newWatched 0) notePath [114] := by
  have missing : fopen watchedHeap emptyDisk (noteFiles newWatched 0) [65] [114] = none := by
    apply fopen_rejected (by decide)
    rintro ⟨_, valid⟩
    exact absurd valid (by decide)
  refine ⟨missing, ?_, fun _ _ => emptyRoot_fails, ?_⟩
  · rintro ⟨s', run, _⟩
    rw [missing] at run
    cases run
  · apply tried_not_undone newHeap_live trivial (by decide) ?_ notePath_accepted
    · constructor
      · rw [notePath_parts]
        exact List.cons_ne_nil _ _
      · decide
      · decide
      · decide
    · rw [notePath_parts]
      exact newHeap_room (by decide)

end PeachOs
