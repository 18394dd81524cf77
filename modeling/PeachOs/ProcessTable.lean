import PeachOs.FailedLoad
import PeachOs.ProcessSwitch

/-!
# The process table

A process has the number of its slot as its id. `process_get` lets one id through that
is the number of no slot, and reads behind the table there.
-/

namespace PeachOs

open Memory Address Ownership
open Function (update)

variable {H : Type} {A : Allocator H} {F : FileOps H} {laws : HeapLaws A F}

/-- The slots `process_get` reads. -/
def processGetReads (processId : Int) : List Nat :=
  if processId < 0 ∨ processId > peachosMaxProcesses then [] else [processId.toNat]

/-- The lookup stays in the table and finds the one process of that id. -/
structure LookupRight (k : Kernel H) (processId : Int) : Prop where
  reads : ∀ slot ∈ processGetReads processId, slot < peachosMaxProcesses
  found : processGet k processId ≠ 0 →
    k.Loaded (processGet k processId) ∧ ((k.procs (processGet k processId)).id.toNat : Int) = processId
  only : ∀ p, k.Loaded p → ((k.procs p).id.toNat : Int) = processId → processGet k processId = p

/-- What holds of the loaded processes together. -/
structure SlotsRight (A : Allocator H) (F : FileOps H) (k : Kernel H) : Prop where
  distinct : ∀ p q, k.Loaded p → k.Loaded q → (k.procs p).id = (k.procs q).id → p = q
  linked : ∀ p, k.Loaded p → (k.procs p).task ≠ 0 ∧ (k.tasks (k.procs p).task).process = p
  full : (∀ slot < peachosMaxProcesses, k.processes slot ≠ 0) → ∀ (filename : List UInt8) (process : UInt32),
    ∃ res, res < 0 ∧ processLoad A F k filename process = (res, process, k)

/-! ## The invariant -/

/-- Every process has the number of its slot, and a task of its own. -/
structure Numbered (k : Kernel H) : Prop where
  id : ∀ slot < peachosMaxProcesses, k.processes slot ≠ 0 → (k.procs (k.processes slot)).id.toNat = slot
  linked : ∀ p, k.Loaded p → (k.procs p).task ≠ 0 ∧ (k.tasks (k.procs p).task).process = p

/-- The new process gets the number of its slot. -/
theorem processLoad_slot {k k' : Kernel H} {filename : List UInt8} {process p : UInt32}
    (run : processLoad A F k filename process = (0, p, k')) (granted : laws.granted k'.heap) :
    ∃ slot < peachosMaxProcesses, k'.processes = update k.processes slot p ∧ (k'.procs p).id.toNat = slot := by
  obtain ⟨slot, k₁, stack, t, k₂, ram, inside, shape, task, granted₂, rfl⟩ := processLoad_steps run granted
  obtain ⟨_, made⟩ := (taskNew_spec task granted₂).2 _ noBooks
  have processes : k₂.processes = k.processes := by
    rw [made.shape, shape]
    rfl
  have record : k₂.procs p = { k₁.procs p with
      filename := filename.take (peachosMaxPathLength - 1), stack, id := .ofInt slot } := by
    rw [made.shape]
    exact Function.update_self p _ _
  refine ⟨slot, inside, congrArg (update · slot p) processes, ?_⟩
  show (update k₂.procs p { k₂.procs p with task := t } p).id.toNat = slot
  rw [Function.update_self, record]
  have twelve : peachosMaxProcesses = 12 := rfl
  show (UInt16.ofNat ((slot : Int) % 2 ^ 16).toNat).toNat = slot
  rw [UInt16.toNat_ofNat']
  omega

section

variable {k k' : Kernel H}

theorem Booted.numbered (booted : Booted A k) : Numbered k := by
  constructor
  · intro slot inside taken
    exact absurd (booted.processes slot inside) taken
  · intro p loaded
    exact absurd loaded (booted.not_loaded p)

/-- A load writes no record but the new one. -/
theorem Numbered.load {filename : List UInt8} {process p : UInt32} (numbered : Numbered k)
    (before : KernelRun laws k) (run : processLoad A F k filename process = (0, p, k'))
    (granted : laws.granted k'.heap) : Numbered k' := by
  obtain ⟨o, safe⟩ := before.safe
  obtain ⟨o', made, record⟩ := (processLoad_spec run granted).2.2 o safe.books
  obtain ⟨slot, inside, processes, id⟩ := processLoad_slot run granted
  obtain ⟨_, t, nonzero, rfl, own, others, _, _⟩ := processLoad_current run granted
  have apart (q : UInt32) (loaded : k.Loaded q) : q ≠ p :=
    record.ne_of_owned (by decide) (safe.processes q loaded).owned.1
  constructor
  · intro slot' inside' taken
    by_cases new : slot' = slot
    · rw [new, processes, Function.update_self]
      exact id
    · rw [processes, Function.update_of_ne new] at taken ⊢
      rw [made.procs _ (apart _ ⟨taken, slot', inside', rfl⟩)]
      exact numbered.id slot' inside' taken
  · intro q loaded
    by_cases new : q = p
    · rw [new]
      exact ⟨nonzero, own⟩
    · have old := loaded.of_update processes new
      obtain ⟨some, back⟩ := numbered.linked q old
      rw [made.procs q new]
      refine ⟨some, ?_⟩
      -- the new task is in a block that was nobody's
      rw [others _ (made.task.ne_of_owned (by decide) (safe.processes q old).owned.2)]
      exact back

theorem KernelRun.numbered (run : KernelRun laws k) : Numbered k := by
  induction run with
  | boot booted _ => exact booted.numbered
  | load run loaded granted ih => exact ih.load run loaded granted
  | copy _ _ _ _ _ _ ih => exact ⟨ih.id, ih.linked⟩

/-! ## The table and the lookup -/

theorem Numbered.table (numbered : Numbered k) (A : Allocator H) (F : FileOps H) : SlotsRight A F k := by
  constructor
  · rintro p q ⟨some, slot, inside, rfl⟩ ⟨some', slot', inside', rfl⟩ same
    have slots : slot = slot' := by
      rw [← numbered.id slot inside some, ← numbered.id slot' inside' some', same]
    rw [slots]
  · exact numbered.linked
  · intro full filename process
    exact ⟨-eistkn, by decide, processLoad_full filename full process⟩

theorem Numbered.lookup (numbered : Numbered k) {processId : Int} (other : processId ≠ peachosMaxProcesses) :
    LookupRight k processId := by
  have twelve : peachosMaxProcesses = 12 := rfl
  constructor
  · intro slot read
    unfold processGetReads at read
    split at read
    · cases read
    · cases List.mem_singleton.mp read
      omega
  · intro some
    unfold processGet at some ⊢
    split at some
    · exact absurd rfl some
    · rename_i allowed
      rw [if_neg allowed]
      have inside : processId.toNat < peachosMaxProcesses := by omega
      refine ⟨⟨some, processId.toNat, inside, rfl⟩, ?_⟩
      rw [numbered.id _ inside some]
      omega
  · rintro p ⟨some, slot, inside, rfl⟩ rfl
    rw [numbered.id slot inside some]
    unfold processGet
    rw [if_neg (by omega)]
    rfl

/-- **In every run the table is right, and every lookup but the one behind it.** -/
theorem KernelRun.processGet_iff (run : KernelRun laws k) :
    SlotsRight A F k ∧ ∀ processId : Int, LookupRight k processId ↔ processId ≠ peachosMaxProcesses := by
  refine ⟨run.numbered.table A F, fun processId => ⟨?_, run.numbered.lookup⟩⟩
  rintro right rfl
  have behind := right.reads 12 (List.mem_singleton.mpr rfl)
  exact absurd behind (Nat.lt_irrefl 12)

end

/-! ## The table of a new kernel -/

/-- After the first load the process is found under its slot. -/
theorem first_load_found : ∃ (k : Kernel Nat) (p : UInt32), k.Loaded p ∧ SlotsRight freshHeap (oneFile 100) k ∧
    LookupRight k 0 ∧ ¬ LookupRight k 12 := by
  obtain ⟨p, k, load, granted⟩ := freshKernel_loads 100 [48, 58, 47, 97] (by decide)
  obtain ⟨table, lookup⟩ := ((freshKernel_run 100).load load granted).processGet_iff
  obtain ⟨nonzero, _⟩ := processLoad_current load granted
  obtain ⟨slot, inside, processes, _⟩ := processLoad_slot load granted
  refine ⟨k, p, ⟨nonzero, slot, inside, ?_⟩, table, (lookup 0).mpr (by decide), fun right => ?_⟩
  · rw [processes, Function.update_self]
  · exact (lookup 12).mp right rfl

/-- Before any load `process_get` reads the word behind the table. -/
theorem processGet_reads_behind : ¬ ∀ (k : Kernel Nat) (processId : Int), KernelRun (freshLaws 100) k →
    SlotsRight freshHeap (oneFile 100) k ∧ LookupRight k processId := by
  intro always
  obtain ⟨_, lookup⟩ := always freshKernel 12 (freshKernel_run 100)
  have behind := lookup.reads 12 (List.mem_singleton.mpr rfl)
  exact absurd behind (Nat.lt_irrefl 12)

end PeachOs
