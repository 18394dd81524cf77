import PeachOs.FailedOpen
import PeachOs.PagingEdges

/-!
# Parsing and freeing

After `pathparser_parse` and `pathparser_free` the heap's table is as it was,
whatever was free in it, and each block was released as often as it was
allocated.
-/

namespace PeachOs

open Ownership
open Function (update)

/-! ## Heaps that answer alike -/

/-- Requests of at most a block get the same pointers from both heaps. -/
structure AnswerAlike {H K : Type} (A : Allocator H) (B : Allocator K) (R : H → K → Prop) : Prop where
  pointer : ∀ h g n, R h g → (A.malloc h n).1 = (B.malloc g n).1
  malloc : ∀ h g n, R h g → 1 ≤ n.toNat → n.toNat ≤ 4096 → R (A.malloc h n).2 (B.malloc g n).2
  free : ∀ h g p, R h g → R (A.free h p) (B.free g p)

/-- The same records and buffers over another heap. -/
def Paths.over {H K : Type} (s : Paths H) (g : K) : Paths K := ⟨g, s.roots, s.parts, s.strings⟩

section

variable {H K : Type} {A : Allocator H} {B : Allocator K} {R : H → K → Prop} {s s' : Paths H} {g : K}

theorem newBuffer_alike (alike : AnswerAlike A B R) (related : R s.heap g) :
    ∃ g', (s.over g).newBuffer B = ((s.newBuffer A).1, (s.newBuffer A).2.over g') ∧
      R (s.newBuffer A).2.heap g' := by
  have pointer := alike.pointer s.heap g (.ofNat peachosMaxPathLength) related
  have asked := alike.malloc s.heap g (.ofNat peachosMaxPathLength) related (by decide) (by decide)
  refine ⟨(B.malloc g (.ofNat peachosMaxPathLength)).2, ?_, ?_⟩
  · unfold Paths.newBuffer
    dsimp only [Paths.over]
    rw [← pointer]
    split <;> rfl
  · unfold Paths.newBuffer
    dsimp only
    split <;> exact asked

theorem getPathPart_alike (alike : AnswerAlike A B R) {path rest : List UInt8} {b : UInt32}
    (run : pathparserGetPathPart A s path = some (b, rest, s')) (related : R s.heap g) :
    ∃ g', pathparserGetPathPart B (s.over g) path = some (b, rest, s'.over g') ∧ R s'.heap g' := by
  obtain ⟨g₁, buffer, related₁⟩ := newBuffer_alike alike related
  unfold pathparserGetPathPart at run ⊢
  rw [buffer]
  dsimp only [Paths.over] at run ⊢
  split at run
  · rename_i none
    cases run
    rw [if_pos none]
    exact ⟨_, rfl, alike.free _ _ _ related₁⟩
  · rename_i some
    rw [if_neg some]
    split at run
    · cases run
    · rename_i nonzero
      cases run
      rw [if_neg nonzero]
      exact ⟨g₁, rfl, related₁⟩

theorem parsePathPart_alike (alike : AnswerAlike A B R) {last p : UInt32} {path rest : List UInt8}
    (run : pathparserParsePathPart A s last path = some (p, rest, s')) (related : R s.heap g) :
    ∃ g', pathparserParsePathPart B (s.over g) last path = some (p, rest, s'.over g') ∧ R s'.heap g' := by
  unfold pathparserParsePathPart at run ⊢
  cases got : pathparserGetPathPart A s path with
  | none =>
    rw [got] at run
    cases run
  | some result =>
    obtain ⟨b, left, s₁⟩ := result
    obtain ⟨g₁, part, related₁⟩ := getPathPart_alike alike got related
    have pointer := alike.pointer s₁.heap g₁ sizeofPathPart related₁
    rw [got] at run
    rw [part]
    dsimp only [Paths.over] at run ⊢
    split at run
    · rename_i stop
      cases run
      rw [if_pos stop]
      exact ⟨g₁, rfl, related₁⟩
    · rename_i go
      rw [if_neg go, ← pointer]
      split at run
      · cases run
      · rename_i nonzero
        cases run
        rw [if_neg nonzero]
        exact ⟨_, rfl, alike.malloc _ _ _ related₁ (by decide) (by decide)⟩

theorem parsePartsFrom_alike (alike : AnswerAlike A B R) {last : UInt32} {path : List UInt8}
    (run : parsePartsFrom A s last path = some s') (related : R s.heap g) :
    ∃ g', parsePartsFrom B (s.over g) last path = some (s'.over g') ∧ R s'.heap g' := by
  induction parsePartsFrom_run.mp run generalizing g with
  | stop part =>
    obtain ⟨g', part', related'⟩ := parsePathPart_alike alike part related
    exact ⟨g', parsePartsFrom_run.mpr (.stop part'), related'⟩
  | next part found later ih =>
    obtain ⟨g₁, part', related₁⟩ := parsePathPart_alike alike part related
    obtain ⟨g', loop, related'⟩ := ih (parsePartsFrom_run.mpr later) related₁
    exact ⟨g', parsePartsFrom_run.mpr (.next part' found (parsePartsFrom_run.mp loop)), related'⟩

theorem createRoot_alike (alike : AnswerAlike A B R) {drive : Int} {root : UInt32}
    (run : pathparserCreateRoot A s drive = some (root, s')) (related : R s.heap g) :
    ∃ g', pathparserCreateRoot B (s.over g) drive = some (root, s'.over g') ∧ R s'.heap g' := by
  have pointer := alike.pointer s.heap g sizeofPathRoot related
  unfold pathparserCreateRoot at run ⊢
  dsimp only [Paths.over] at run ⊢
  rw [← pointer]
  split at run
  · cases run
  · rename_i nonzero
    cases run
    rw [if_neg nonzero]
    exact ⟨_, rfl, alike.malloc _ _ _ related (by decide) (by decide)⟩

theorem pathparserParse_alike (alike : AnswerAlike A B R) {path : List UInt8} {root : UInt32}
    (run : pathparserParse A s path = some (root, s')) (related : R s.heap g) :
    ∃ g', pathparserParse B (s.over g) path = some (root, s'.over g') ∧ R s'.heap g' := by
  unfold pathparserParse at run ⊢
  split at run
  · rename_i long
    cases run
    rw [if_pos long]
    exact ⟨g, rfl, related⟩
  · rename_i short
    rw [if_neg short]
    dsimp only at run ⊢
    split at run
    · rename_i bad
      cases run
      rw [if_pos bad]
      exact ⟨g, rfl, related⟩
    · rename_i good
      rw [if_neg good]
      split at run
      · cases run
      · rename_i root' s₁ made
        obtain ⟨g₁, made', related₁⟩ := createRoot_alike alike made related
        rw [made']
        split at run
        · cases run
        · rename_i p rest s₂ part
          obtain ⟨g₂, part', related₂⟩ := parsePathPart_alike alike part related₁
          dsimp only
          rw [part']
          dsimp only
          split at run
          · rename_i stop
            cases run
            rw [if_pos stop]
            exact ⟨g₂, rfl, related₂⟩
          · rename_i go
            rw [if_neg go]
            obtain ⟨s₃, loop, same⟩ := Option.map_eq_some_iff.mp run
            cases same
            obtain ⟨g₃, loop', related₃⟩ := parsePartsFrom_alike (g := g₂) alike loop related₂
            refine ⟨g₃, ?_, related₃⟩
            exact Option.map_eq_some_iff.mpr ⟨_, loop', rfl⟩

end

/-! ## The blocks a path is made of -/

section

variable {H : Type} {A : Allocator H}

/-- The loop releases the buffers and records in the order of the list. -/
theorem freePartsFrom_frees {s : Paths H} {p : UInt32} {blocks : List UInt32} {ws : List (List UInt8)}
    (list : PartList s p blocks ws) (heap : H) :
    Paths.freePartsFrom A { s with heap } p = some { s with heap := blocks.foldl A.free heap } := by
  induction list generalizing heap with
  | nil =>
    rw [Paths.freePartsFrom, if_pos rfl]
    rfl
  | cons nonzero _ _ ih =>
    rw [Paths.freePartsFrom, if_neg nonzero]
    exact ih _

theorem PartList.over {K : Type} {s : Paths H} {p : UInt32} {blocks : List UInt32} {ws : List (List UInt8)}
    (list : PartList s p blocks ws) (g : K) : PartList (s.over g) p blocks ws := by
  induction list with
  | nil => exact .nil
  | cons nonzero reads _ ih => exact .cons (s := s.over g) nonzero reads ih

theorem pathparserFree_frees {s : Paths H} {root : UInt32} {blocks : List UInt32} {ws : List (List UInt8)}
    (nonzero : root ≠ 0) (list : PartList s (s.roots root).first blocks ws) :
    pathparserFree A s root = some { s with heap := (blocks ++ [root]).foldl A.free s.heap } := by
  have parts : Paths.freePartsFrom A s (s.roots root).first = some { s with heap := blocks.foldl A.free s.heap } :=
    freePartsFrom_frees list s.heap
  rw [pathparserFree, if_neg nonzero, parts, List.foldl_append]
  rfl

end

/-! ## Requests of a block on any table -/

/-- The log, and whether each request was of at most a block and got one. -/
structure AuditedHeap extends LoggedHeap where
  granted : Prop

def auditedHeap : Allocator AuditedHeap where
  malloc h n := ((loggedHeap.malloc h.toLoggedHeap n).1, ⟨(loggedHeap.malloc h.toLoggedHeap n).2,
    h.granted ∧ 1 ≤ n.toNat ∧ n.toNat ≤ 4096 ∧ (loggedHeap.malloc h.toLoggedHeap n).1 ≠ 0⟩)
  free h p := ⟨loggedHeap.free h.toLoggedHeap p, h.granted⟩

/-- The live blocks `L` are the free entries `marks` of `heap`, and the log has
released all others. -/
structure HeapLog (heap : Heap) (h : LoggedHeap) (L : Ledger UInt32 Nat) (marks : List Nat) : Prop where
  marked : Marked heap h.heap marks
  ledger : ∀ x b, L x = some b ↔ b = 1 ∧ x ∈ marks.map heap.blockAddr
  log : h.allocated.Perm (h.freed ++ marks.map heap.blockAddr)

section

variable {heap : Heap} {h : LoggedHeap} {L : Ledger UInt32 Nat} {marks : List Nat} {p : UInt32}

theorem HeapLog.unlisted (account : HeapLog heap h L marks) : L p = none ↔ p ∉ marks.map heap.blockAddr := by
  rw [Option.eq_none_iff_forall_ne_some]
  constructor
  · intro free mem
    exact free 1 ((account.ledger p 1).mpr ⟨rfl, mem⟩)
  · intro unmarked b owned
    exact unmarked ((account.ledger p b).mp owned).2

theorem HeapLog.malloc (kernel : KernelHeap heap) (account : HeapLog heap h L marks) {n : UInt32}
    (positive : 1 ≤ n.toNat) (small : n.toNat ≤ 4096) (nonzero : (heapMalloc h.heap n).1 ≠ 0) :
    ∃ i ∈ freeEntries heap, (heapMalloc h.heap n).1 = heap.blockAddr i ∧ L (heap.blockAddr i) = none ∧
      HeapLog heap (loggedHeap.malloc h n).2 (update L (heap.blockAddr i) (some 1)) (marks ++ [i]) := by
  have room : marks.length < (freeEntries heap).length := by
    have within : marks.length ≤ (freeEntries heap).length :=
      (List.subperm_of_subset account.marked.nodup account.marked.free).length_le
    apply Nat.lt_of_le_of_ne within
    intro all
    rw [heapMalloc_full small positive (account.marked.full all)] at nonzero
    exact nonzero rfl
  obtain ⟨i, pointer, marked⟩ := account.marked.malloc kernel.placed room positive small
  have free : i ∈ freeEntries heap := marked.free i (by simp)
  have fresh : heap.blockAddr i ∉ marks.map heap.blockAddr := by
    have nodup := marked.nodup_addr kernel.placed
    rw [List.map_append, List.nodup_append] at nodup
    intro mem
    exact nodup.2.2 _ mem _ (by simp) rfl
  refine ⟨i, free, pointer, account.unlisted.mpr fresh, marked, ?_, ?_⟩
  · intro x b
    by_cases here : x = heap.blockAddr i
    · subst here
      rw [Function.update_self]
      simp [eq_comm]
    · rw [Function.update_of_ne here, account.ledger x b]
      simp [here]
  · show (h.allocated ++ [(heapMalloc h.heap n).1]).Perm (h.freed ++ (marks ++ [i]).map heap.blockAddr)
    rw [pointer, List.map_append, ← List.append_assoc]
    exact account.log.append_right _

theorem HeapLog.free (kernel : KernelHeap heap) (account : HeapLog heap h L marks) {i : Nat} (mem : i ∈ marks) :
    HeapLog heap (loggedHeap.free h (heap.blockAddr i)) (update L (heap.blockAddr i) none) (marks.erase i) := by
  have split := (List.perm_cons_erase mem).map heap.blockAddr
  have nodup := split.nodup (account.marked.nodup_addr kernel.placed)
  rw [List.map_cons] at split nodup
  refine ⟨account.marked.free_block kernel.placed mem, fun x b => ?_, ?_⟩
  · by_cases here : x = heap.blockAddr i
    · subst here
      have gone := (List.nodup_cons.mp nodup).1
      simp [gone]
    · rw [Function.update_of_ne here, account.ledger x b, split.mem_iff]
      simp [here]
  · refine account.log.trans ((split.append_left h.freed).trans ?_)
    show (h.freed ++ heap.blockAddr i :: _).Perm ((h.freed ++ [heap.blockAddr i]) ++ _)
    rw [List.append_assoc]
    exact .refl _

end

def auditedBlocks {heap : Heap} (kernel : KernelHeap heap) : BlockLaws auditedHeap where
  granted h := h.granted
  holds h L := ∃ marks, HeapLog heap h.toLoggedHeap L marks
  malloc_granted _ _ granted := granted.1
  free_granted _ _ := Iff.rfl
  malloc h n L granted held positive := by
    obtain ⟨marks, account⟩ := held
    obtain ⟨_, _, small, nonzero⟩ := granted
    obtain ⟨i, free, pointer, fresh, account'⟩ := account.malloc kernel positive small nonzero
    have one : blocksNeeded n = 1 := blocksNeeded_one positive small
    have pointer : (auditedHeap.malloc h n).1 = heap.blockAddr i := pointer
    have inside := (mem_freeEntries.mp free).1
    rw [kernel.total] at inside
    have place := kernel.blockAddr_toNat inside
    rw [one, pointer]
    exact ⟨⟨by omega, by omega⟩, fresh, _, account'⟩
  malloc_empty _ _ _ granted _ _ := absurd granted.2.1 (by decide)
  free h L p held owned := by
    obtain ⟨marks, account⟩ := held
    have mem : p ∈ marks.map heap.blockAddr := by
      by_contra unmarked
      exact owned (account.unlisted.mpr unmarked)
    obtain ⟨i, marked, rfl⟩ := List.mem_map.mp mem
    exact ⟨_, account.free kernel marked⟩

/-- A log without NULL is one of granted requests. -/
def Audits (h : LoggedHeap) (g : AuditedHeap) : Prop := g.toLoggedHeap = h ∧ ((0 : UInt32) ∉ h.allocated → g.granted)

theorem audits_alike : AnswerAlike loggedHeap auditedHeap Audits where
  pointer := by
    rintro h g n ⟨rfl, _⟩
    rfl
  malloc := by
    rintro h g n ⟨rfl, granted⟩ positive small
    refine ⟨rfl, fun noNull => ?_⟩
    have noNull : (0 : UInt32) ∉ g.allocated ++ [(heapMalloc g.heap n).1] := noNull
    rw [List.mem_append, not_or, List.mem_singleton] at noNull
    exact ⟨granted noNull.1, positive, small, Ne.symm noNull.2⟩
  free := by
    rintro h g p ⟨rfl, granted⟩
    exact ⟨rfl, granted⟩

/-- **A path parsed and freed leaves no trace in the table.** Each block is
released as often as it was allocated. -/
theorem pathparserParse_restored {heap : Heap} (kernel : KernelHeap heap) {s s' : Paths LoggedHeap} {path : List UInt8}
    {root : UInt32} (start : s.heap = ⟨heap, [], []⟩) (noNul : (0 : UInt8) ∉ path)
    (run : pathparserParse loggedHeap s path = some (root, s')) (nonzero : root ≠ 0)
    (noNull : (0 : UInt32) ∉ s'.heap.allocated) :
    ∃ t, pathparserFree loggedHeap s' root = some t ∧ t.heap.heap = heap ∧ t.heap.allocated = s'.heap.allocated ∧
      t.heap.freed.Perm s'.heap.allocated := by
  have good : Accepted path := by
    by_contra bad
    rw [pathparserParse_rejects s noNul bad] at run
    cases run
    exact nonzero rfl
  have audits : Audits s.heap ⟨s.heap, True⟩ := ⟨rfl, fun _ => trivial⟩
  obtain ⟨g', audited, same, granted⟩ := pathparserParse_alike audits_alike run audits
  have before : (auditedBlocks kernel).holds ⟨s.heap, True⟩ fun _ => none := by
    refine ⟨[], ?_, fun x b => by simp, ?_⟩
    · rw [start]
      exact Marked.nil.mpr rfl
    · rw [start]
      exact .refl _
  obtain ⟨blocks, parsed⟩ := pathparserParse_spec audited (granted noNull) before noNul good
  obtain ⟨marks, account⟩ := parsed.holds
  have account : HeapLog heap g'.toLoggedHeap (assign (fun _ => none) (· ∈ root :: blocks) 1) marks := account
  rw [same] at account
  have list : PartList s' (s'.roots root).first blocks (components (path.drop 3)) :=
    parsed.list.over s'.heap
  have perm : (blocks ++ [root]).Perm (marks.map heap.blockAddr) := by
    refine (List.perm_append_singleton root blocks).trans ?_
    rw [List.perm_ext_iff_of_nodup parsed.new.nodup (account.marked.nodup_addr kernel.placed)]
    intro x
    by_cases mem : x ∈ root :: blocks
    · have owned := (account.ledger x 1).mp (assign_new _ 1 mem)
      exact iff_of_true mem owned.2
    · have free := account.unlisted.mp (assign_old _ 1 mem)
      exact iff_of_false mem free
  refine ⟨_, pathparserFree_frees nonzero list, ?_⟩
  dsimp only
  rw [account.marked.free_all kernel.placed _ perm]
  exact ⟨rfl, rfl, (perm.append_left _).trans account.log.symm⟩

/-- As long as the requests find a run, the log has no NULL. -/
def LogsGranted (w : WatchedHeap) (h : LoggedHeap) : Prop :=
  KernelHeap w.heap ∧ h.heap = w.heap ∧ (w.granted → (0 : UInt32) ∉ h.allocated)

theorem logsGranted_alike : AnswerAlike watchedHeap loggedHeap LogsGranted where
  pointer := by
    rintro w h n ⟨_, same, _⟩
    show (heapMalloc w.heap n).1 = (heapMalloc h.heap n).1
    rw [same]
  malloc := by
    rintro w ⟨_, allocated, freed⟩ n ⟨kernel, rfl, noNull⟩ positive small
    refine ⟨kernel.malloc n, rfl, ?_⟩
    rintro ⟨granted, run⟩
    obtain ⟨i, least, pointer, _⟩ := heapMalloc_fits kernel.placed positive run
    have one : blocksNeeded n = 1 := blocksNeeded_one positive small
    rw [one] at least
    have nonzero : w.heap.blockAddr i ≠ 0 := kernel.blockAddr_ne_zero ((freeRun_one i).mp least.1)
    have pointer : (heapMalloc w.heap n).1 = w.heap.blockAddr i := pointer
    show (0 : UInt32) ∉ allocated ++ [(heapMalloc w.heap n).1]
    rw [pointer, List.mem_append, List.mem_singleton, not_or]
    exact ⟨noNull granted, nonzero.symm⟩
  free := by
    rintro w ⟨_, allocated, freed⟩ p ⟨kernel, rfl, noNull⟩
    exact ⟨kernel.free p, rfl, noNull⟩

theorem notePath_restored : ∃ root s' t,
    pathparserParse loggedHeap (freshPaths.over ⟨newHeap, [], []⟩) notePath = some (root, s') ∧
      pathparserFree loggedHeap s' root = some t ∧ t.heap.heap = newHeap ∧
      t.heap.freed.Perm s'.heap.allocated := by
  have kernel : KernelHeap newHeap := ⟨newHeap_live.saddr, newHeap_live.total⟩
  have noNul : (0 : UInt8) ∉ notePath := by decide
  have serves : kernelBlocks.Serves (0 + 2 * (components (notePath.drop 3)).length + 3) newWatched := by
    rw [notePath_parts]
    exact serves_of_free kernel trivial (newHeap_room (by decide))
  obtain ⟨root, s₁, run, granted, _⟩ :=
    pathparserParse_returns (s := freshPaths.over newWatched) serves newHeap_live noNul notePath_accepted
  obtain ⟨_, parsed⟩ := pathparserParse_spec run granted newHeap_live noNul notePath_accepted
  obtain ⟨h, logged, _, _, noNull⟩ := pathparserParse_alike (g := ⟨newHeap, [], []⟩) logsGranted_alike run
    ⟨kernel, rfl, fun _ => List.not_mem_nil⟩
  obtain ⟨t, freed, table, _, once⟩ :=
    pathparserParse_restored kernel rfl noNul logged parsed.nonzero (noNull granted)
  exact ⟨root, _, t, logged, freed, table, once⟩

end PeachOs
