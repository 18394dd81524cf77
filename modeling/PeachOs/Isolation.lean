import PeachOs.FreshHeap

/-!
# User stores stay in the process's own memory

The invariant of runs of `process_load` and `copy_string_from_task`: a ledger
gives every block an owner, each directory lies in blocks of its own, and an
entry that lets user code write leads into the blocks of its process.
-/

namespace PeachOs

open Memory Address Ownership
open Function (update)

variable {H : Type} {A : Allocator H} {F : FileOps H}

/-- The kernel after `kernel_main` has set up paging. -/
structure Booted (A : Allocator H) (k : Kernel H) : Prop where
  chunk : ∃ h m, pagingNew4gb A h m (pagingIsWriteable ||| pagingIsPresent ||| pagingAccessFromAll) =
    (k.kernelPageChunk, k.heap, k.ram)
  processes : ∀ slot < peachosMaxProcesses, k.processes slot = 0
  lists : k.taskListHead = 0 ∧ k.taskListTail = 0 ∧ k.currentTask = 0 ∧ k.currentProcess = 0

def Kernel.Loaded (k : Kernel H) (p : UInt32) : Prop :=
  p ≠ 0 ∧ ∃ slot < peachosMaxProcesses, k.processes slot = p

theorem Booted.not_loaded {k : Kernel H} (booted : Booted A k) (p : UInt32) : ¬ k.Loaded p := by
  rintro ⟨nonzero, slot, inside, same⟩
  exact nonzero (same ▸ booted.processes slot inside)

theorem Kernel.Loaded.of_update {k k' : Kernel H} {slot : Nat} {p q : UInt32} (loaded : k'.Loaded q)
    (processes : k'.processes = update k.processes slot p) (other : q ≠ p) : k.Loaded q := by
  obtain ⟨nonzero, slot', inside, same⟩ := loaded
  refine ⟨nonzero, slot', inside, ?_⟩
  have apart : slot' ≠ slot := by
    rintro rfl
    rw [processes, Function.update_self] at same
    exact other same.symm
  rwa [processes, Function.update_of_ne apart] at same

/-- Runs of successful loads and of copies out of the task of a loaded process,
with every request granted. The caller's buffer has room for a byte and is on
the kernel's stack, so outside the heap. -/
inductive KernelRun (laws : HeapLaws A F) : Kernel H → Prop
  | boot {k : Kernel H} (booted : Booted A k) (granted : laws.granted k.heap) : KernelRun laws k
  | load {k k' : Kernel H} {filename : List UInt8} {process p : UInt32} (run : KernelRun laws k)
      (loaded : processLoad A F k filename process = (0, p, k')) (granted : laws.granted k'.heap) :
      KernelRun laws k'
  | copy {k : Kernel H} {p virtual phy : UInt32} {max res : Int} {heap : H} {ram : Ram}
      (run : KernelRun laws k) (loaded : k.Loaded p) (positive : 1 ≤ max)
      (buffer : ∀ x, InRange x phy max.toNat → ¬ (0x1000000 ≤ x.toNat ∧ x.toNat < 0x7400000))
      (returned : copyStringFromTask A k.heap k.ram (k.tasks (k.procs p).task) virtual phy max =
        some (res, heap, ram))
      (granted : laws.granted heap) : KernelRun laws { k with heap, ram }

/-- The program and stack allocations of a process. -/
def Process.OwnRun (process : Process) (x : UInt32) : Prop :=
  InRange x process.ptr (4096 * blocksNeeded process.size) ∨ InRange x process.stack (4096 * 4)

/-- An entry with the user and the writable bit. -/
def grants (entry : UInt32) : Prop :=
  entry &&& pagingAccessFromAll.toUInt32 ≠ 0 ∧ entry &&& pagingIsWriteable.toUInt32 ≠ 0

/-! ## The invariant -/

/-- A directory in blocks of `l`, whose entries satisfy `safe`. -/
def DirectorySafe (o : Ledger UInt32 Owner) (m : Ram) (chunk : UInt32) (l : Owner)
    (safe : UInt32 → UInt32 → Prop) : Prop :=
  ∃ directory tables, AddressSpace m chunk directory tables ∧ OpenDirectory m directory ∧
    (∀ x, OnPages chunk directory tables x → o (frame x) = some l) ∧
    ∀ v, safe v (walk m directory v)

structure ProcessSafe (o : Ledger UInt32 Owner) (k : Kernel H) (p : UInt32) : Prop where
  record : ∀ x, InRange x p (4096 * 2) → o (frame x) = some (.record p)
  task : ∀ x, InRange x (k.procs p).task (4096 * 1) → o (frame x) = some (.record p)
  run : ∀ x, (k.procs p).OwnRun x → o (frame x) = some (.run p)
  aligned : (k.procs p).ptr % 4096 = 0 ∧ (k.procs p).stack % 4096 = 0
  space : DirectorySafe o k.ram (k.tasks (k.procs p).task).pageDirectory (.paging p)
    fun _ entry => grants entry → (k.procs p).OwnRun (frame entry)

structure KernelSafe (laws : HeapLaws A F) (o : Ledger UInt32 Owner) (k : Kernel H) : Prop where
  books : Books laws k.heap o
  kernel : DirectorySafe o k.ram k.kernelPageChunk .kernel fun v entry => entry = frame v ||| 7
  processes : ∀ p, k.Loaded p → ProcessSafe o k p

/-- Memory that agrees on owned pages has the same directory, under a larger ledger. -/
theorem DirectorySafe.mono {o o' : Ledger UInt32 Owner} {m m' : Ram} {chunk : UInt32} {l : Owner}
    {safe : UInt32 → UInt32 → Prop} (dir : DirectorySafe o m chunk l safe) (grown : Extends o o')
    (kept : Agree (fun x => o (frame x) = some l) m m') : DirectorySafe o' m' chunk l safe := by
  obtain ⟨directory, tables, space, linked, pages, entries⟩ := dir
  refine ⟨directory, tables, ?_, ?_, fun x hx => grown _ _ (pages x hx), fun v => ?_⟩
  · exact space.of_agree kept fun x hx =>
      pages x (hx.elim Or.inl fun hx => Or.inr (Or.inl hx))
  · exact linked.of_agree kept space.directory_aligned fun x hx => pages x (Or.inr (Or.inl hx))
  · obtain ⟨hi, hj⟩ := walk_indexes v
    rw [walk, space.tableEntry_agree kept pages hi hj, ← walk]
    exact entries v

theorem inRange_self (p : UInt32) {len : Nat} (pos : 0 < len) : InRange p p len := by
  unfold InRange
  rw [UInt32.sub_self]
  exact pos

/-- A new run does not start where something was owned. -/
theorem NewRun.ne_of_owned {o o' : Ledger UInt32 Owner} {p ptr : UInt32} {blocks : Nat} {l : Owner}
    (new : NewRun o o' ptr blocks l) (some : 0 < 4096 * blocks) (owned : o (frame p) ≠ none) : p ≠ ptr := by
  rintro rfl
  exact owned (new.fresh p (inRange_self p some))

theorem ProcessSafe.owned {o : Ledger UInt32 Owner} {k : Kernel H} {p : UInt32} (safe : ProcessSafe o k p) :
    o (frame p) ≠ none ∧ o (frame (k.procs p).task) ≠ none := by
  constructor
  · rw [safe.record p (inRange_self p (by decide))]
    exact Option.some_ne_none _
  · rw [safe.task _ (inRange_self _ (by decide))]
    exact Option.some_ne_none _

/-- What a loaded process may write lies in its own runs. -/
theorem loadedEntry_safe (process : Process) (program_aligned : process.ptr % 4096 = 0)
    (stack_aligned : process.stack % 4096 = 0) (v : UInt32)
    (granted : grants (loadedEntry process v)) : process.OwnRun (frame (loadedEntry process v)) := by
  unfold loadedEntry at granted ⊢
  split at granted
  · rename_i inside
    rw [if_pos inside, frame_or (shifted_aligned (by decide) stack_aligned) userWriteable_toNat]
    exact Or.inr (inRange_of_inWindow (by decide) inside _)
  · rename_i outside
    rw [if_neg outside]
    split at granted
    · rename_i inside
      rw [if_pos inside, frame_or (shifted_aligned (by decide) program_aligned) userWriteable_toNat]
      exact Or.inl (inRange_of_inWindow (by decide) inside _)
    · -- the entries of a new directory are not writable
      have bit := granted.2
      rw [flag_lowBits, lowBits_or (frame_aligned v) (by decide)] at bit
      exact absurd rfl bit

section

variable {laws : HeapLaws A F} {o : Ledger UInt32 Owner} {k k' : Kernel H}

theorem Booted.safe (booted : Booted A k) (granted : laws.granted k.heap) :
    ∃ o, KernelSafe laws o k := by
  obtain ⟨h, m, build⟩ := booted.chunk
  have granted' : laws.granted (pagingNew4gb A h m
      (pagingIsWriteable ||| pagingIsPresent ||| pagingAccessFromAll)).2.1 := by
    rw [build]
    exact granted
  obtain ⟨m', o, directory, tables, ram, built, advance, _, pages⟩ :=
    pagingNew4gb_advance granted' noBooks .kernel
  rw [build] at ram built advance pages
  dsimp only at ram built advance pages
  subst ram
  refine ⟨o, advance.books, ⟨directory, tables, built.space, built.openDirectory (by decide),
    fun x hx => (pages x hx).2, fun v => ?_⟩, fun p loaded => ?_⟩
  · exact built.walk v
  · exact absurd loaded (booted.not_loaded p)

/-- A process that was there before keeps its records, runs and directory. -/
theorem ProcessSafe.mono {o' : Ledger UInt32 Owner} {q : UInt32} (safe : ProcessSafe o k q)
    (grown : Extends o o') (kept : Agree (fun x => o (frame x) = some (.paging q)) k.ram k'.ram)
    (procs : k'.procs q = k.procs q)
    (tasks : (k'.tasks (k.procs q).task).pageDirectory = (k.tasks (k.procs q).task).pageDirectory) :
    ProcessSafe o' k' q := by
  constructor
  · exact fun x hx => grown _ _ (safe.record x hx)
  · rw [procs]
    exact fun x hx => grown _ _ (safe.task x hx)
  · rw [procs]
    exact fun x hx => grown _ _ (safe.run x hx)
  · rw [procs]
    exact safe.aligned
  · rw [procs, tasks]
    exact safe.space.mono grown kept

theorem ProcessMade.safe {o' : Ledger UInt32 Owner} {p : UInt32}
    (made : ProcessMade laws k k' o o' p) (record : NewRun o o' p 2 (.record p)) :
    ProcessSafe o' k' p := by
  obtain ⟨directory, tables, space, linked, entries, pages⟩ := made.space
  refine ⟨record.labelled, made.task.labelled, fun x hx => ?_,
    ⟨made.program.bounds.1, made.stack.pool.aligned⟩, directory, tables, space, linked, fun x hx => (pages x hx).2, fun v => ?_⟩
  · rcases hx with hx | hx
    · rcases made.program with ⟨_, empty⟩ | run
      · rw [empty] at hx
        exact absurd hx (Nat.not_lt_zero _)
      · exact run.labelled x hx
    · exact made.stack.labelled x hx
  · rw [entries]
    exact loadedEntry_safe _ made.program.bounds.1 made.stack.pool.aligned v

theorem KernelSafe.load {filename : List UInt8} {process p : UInt32} (safe : KernelSafe laws o k)
    (run : processLoad A F k filename process = (0, p, k')) (granted : laws.granted k'.heap) :
    ∃ o', KernelSafe laws o' k' := by
  obtain ⟨_, ⟨slot, inside, empty, processes⟩, load⟩ := processLoad_spec run granted
  obtain ⟨o', made, record⟩ := load o safe.books
  have kept (l : Owner) : Agree (fun x => o (frame x) = some l) k.ram k'.ram :=
    made.advance.kept.mono fun x hx => by
      rw [hx]
      exact Option.some_ne_none l
  refine ⟨o', made.advance.books, ?_, fun q loaded => ?_⟩
  · rw [made.chunk]
    exact safe.kernel.mono made.advance.grown (kept _)
  · by_cases new : q = p
    · rw [new]
      exact made.safe record
    · have before := safe.processes q (loaded.of_update processes new)
      -- the new task's block had no owner
      have other := made.task.ne_of_owned (by decide) before.owned.2
      exact before.mono made.advance.grown (kept _) (made.procs q new) (made.tasks _ other)

/-! ## Copies -/

/-- Every page of a restored directory has an entry the directory had before. -/
theorem TmpRestored.walk {m m' : Ram} {chunk directory tmp : UInt32} {tables : Nat → UInt32}
    (restored : TmpRestored m m' chunk directory tables tmp) (v : UInt32) :
    ∃ w, walk m' directory v = walk m directory w := by
  obtain ⟨hi, hj⟩ := walk_indexes v
  have entry := restored.entries _ hi _ hj
  by_cases here : v.toNat / 0x400000 = tmp.toNat / 0x400000 ∧
      v.toNat % 0x400000 / 0x1000 = tmp.toNat % 0x400000 / 0x1000
  · rw [if_pos here] at entry
    have first : (UInt32.ofNat (tmp.toNat / 0x400000 * 0x400000)).toNat =
        tmp.toNat / 0x400000 * 0x400000 := by
      have hlt := tmp.toNat_lt
      rw [UInt32.toNat_ofNat']
      omega
    refine ⟨.ofNat (tmp.toNat / 0x400000 * 0x400000), ?_⟩
    rw [PeachOs.walk, PeachOs.walk, entry, first]
    congr 1 <;> omega
  · rw [if_neg here] at entry
    exact ⟨v, entry⟩

/-- The entry of a page below the heap stays. -/
theorem TmpRestored.walk_low {m m' : Ram} {chunk directory tmp : UInt32} {tables : Nat → UInt32}
    (restored : TmpRestored m m' chunk directory tables tmp) (heap : 0x1000000 ≤ tmp.toNat) {v : UInt32}
    (low : v.toNat < 0x1000000) : PeachOs.walk m' directory v = PeachOs.walk m directory v := by
  obtain ⟨hi, hj⟩ := walk_indexes v
  rw [PeachOs.walk, restored.entries _ hi _ hj, if_neg (by omega), ← PeachOs.walk]

/-- Besides what `copy_effect` says, nothing below the heap changes but the buffer. -/
theorem copy_trace {task : Task} {virtual phy directory : UInt32} {max res : Int} {h' : H} {m' : Ram}
    {tables : Nat → UInt32} {l : Owner} (books : Books laws k.heap o)
    (space : AddressSpace k.ram task.pageDirectory directory tables)
    (linked : OpenDirectory k.ram directory)
    (pages : ∀ x, OnPages task.pageDirectory directory tables x → o (frame x) = some l)
    (positive : 1 ≤ max)
    (buffer : ∀ x, InRange x phy max.toNat → ¬ (0x1000000 ≤ x.toNat ∧ x.toNat < 0x7400000))
    (returned : copyStringFromTask A k.heap k.ram task virtual phy max = some (res, h', m'))
    (granted : laws.granted h') :
    Books laws h' o ∧ Agree (fun x => o (frame x) ≠ none ∧ o (frame x) ≠ some l) k.ram m' ∧
      AddressSpace m' task.pageDirectory directory tables ∧ OpenDirectory m' directory ∧
      (∀ v, ∃ w, walk m' directory v = walk k.ram directory w) ∧
      (∀ v, v.toNat < 0x1000000 → walk m' directory v = walk k.ram directory v) ∧
      Agree (fun x => x.toNat < 0x1000000 ∧ ¬ InRange x phy max.toNat) k.ram m' := by
  by_cases large : max > 4096
  · obtain ⟨_, failed⟩ : ∃ r, copyStringFromTask A k.heap k.ram task virtual phy max =
        some (r, if max > 4096 then k.heap else (A.malloc k.heap (.ofInt max)).2, k.ram) :=
      copyStringFromTask_fails A virtual phy (Or.inl large)
    rw [if_pos large, returned] at failed
    cases failed
    exact ⟨books, Agree.refl _ _, space, linked, fun v => ⟨v, rfl⟩, fun v _ => rfl, Agree.refl _ _⟩
  have small : max ≤ 4096 := by omega
  have one : blocksNeeded (.ofInt max) = 1 := by
    obtain ⟨n, rfl⟩ := Int.eq_ofNat_of_zero_le (show 0 ≤ max by omega)
    rw [ofInt_natCast, blocksNeeded, UInt32.toNat_ofNat']
    omega
  have granted₁ : laws.granted (A.malloc k.heap (.ofInt max)).2 := by
    rcases copyStringFromTask_heap A small returned with same | same
    · rwa [same] at granted
    · rw [same] at granted
      exact laws.free_granted _ _ granted
  have pool := laws.malloc_pool _ _ granted₁
  have fresh (x : UInt32) (on : frame x = (A.malloc k.heap (.ofInt max)).1) : o (frame x) = none := by
    cases owner : o (frame x) with
    | none => rfl
    | some l' =>
      have inside : InRange x (A.malloc k.heap (.ofInt max)).1 (4096 * blocksNeeded (.ofInt max)) := by
        rw [one]
        exact (inRange_page pool.aligned).mpr on
      exact absurd (books _ l' owner) (laws.malloc_fresh _ _ granted₁ x inside)
  have block : TmpBlock A k.heap task directory tables max (A.malloc k.heap (.ofInt max)).1 := by
    refine ⟨rfl, pool.nonzero, pool.aligned, fun x hx same => ?_⟩
    have owned := pages x hx
    rw [fresh x same] at owned
    cases owned
  obtain ⟨heap, m₁, restored, out⟩ := copyStringFromTask_spec A space positive small block returned
  have kept : Agree (fun x => o (frame x) ≠ none) m₁ m' := out.mono fun x hx inside => by
    cases owner : o (frame x) with
    | none => exact hx owner
    | some l' =>
      have inPool := laws.owned_pool _ _ (books _ l' owner)
      rw [frame_toNat] at inPool
      exact buffer x inside (by omega)
  have links (x : UInt32) (hx : OnPages task.pageDirectory directory tables x) : o (frame x) ≠ none := by
    rw [pages x hx]
    exact Option.some_ne_none l
  refine ⟨?_, fun x hx => ?_, ?_, ?_, fun v => ?_, fun v low => ?_, fun x low => ?_⟩
  · rw [heap]
    exact fun x l' owner => laws.free_old _ _ _ granted₁ (books x l' owner)
  · refine (kept x hx.1).trans (restored.others x ⟨fun same => hx.1 (fresh x same), fun i hi same => ?_⟩)
    exact hx.2 (pages x (Or.inr (Or.inr ⟨i, hi, same⟩)))
  · exact restored.space.of_agree kept fun x hx => links x (hx.elim Or.inl fun hx => Or.inr (Or.inl hx))
  · have written := linked.of_agree restored.others space.directory_aligned fun x hx =>
      ⟨block.off x (Or.inr (Or.inl hx)), fun i hi => hx ▸ (space.table_apart i hi).1.symm⟩
    exact written.of_agree kept space.directory_aligned fun x hx => links x (Or.inr (Or.inl hx))
  · obtain ⟨hi, hj⟩ := walk_indexes v
    obtain ⟨w, entry⟩ := restored.walk v
    refine ⟨w, ?_⟩
    rw [PeachOs.walk, restored.space.tableEntry_agree kept links hi hj, ← PeachOs.walk]
    exact entry
  · obtain ⟨hi, hj⟩ := walk_indexes v
    rw [PeachOs.walk, restored.space.tableEntry_agree kept links hi hj, ← PeachOs.walk]
    exact restored.walk_low pool.low low
  · refine (out x low.2).trans (restored.others x ⟨fun same => ?_, fun i hi same => ?_⟩)
    · have heap := pool.low
      rw [← same, frame_toNat] at heap
      omega
    · have heap := (laws.owned_pool _ _ (books _ l (pages x (Or.inr (Or.inr ⟨i, hi, same⟩))))).1
      rw [frame_toNat] at heap
      omega

/-- A copy writes no owned page but the tables of its task, whose pages keep an
entry the task had. -/
theorem copy_effect {task : Task} {virtual phy directory : UInt32} {max res : Int} {h' : H} {m' : Ram}
    {tables : Nat → UInt32} {l : Owner} (books : Books laws k.heap o)
    (space : AddressSpace k.ram task.pageDirectory directory tables)
    (linked : OpenDirectory k.ram directory)
    (pages : ∀ x, OnPages task.pageDirectory directory tables x → o (frame x) = some l)
    (positive : 1 ≤ max)
    (buffer : ∀ x, InRange x phy max.toNat → ¬ (0x1000000 ≤ x.toNat ∧ x.toNat < 0x7400000))
    (returned : copyStringFromTask A k.heap k.ram task virtual phy max = some (res, h', m'))
    (granted : laws.granted h') :
    Books laws h' o ∧ Agree (fun x => o (frame x) ≠ none ∧ o (frame x) ≠ some l) k.ram m' ∧
      AddressSpace m' task.pageDirectory directory tables ∧ OpenDirectory m' directory ∧
      ∀ v, ∃ w, walk m' directory v = walk k.ram directory w := by
  obtain ⟨books', others, space', linked', walks, _⟩ := copy_trace books space linked pages positive buffer returned granted
  exact ⟨books', others, space', linked', walks⟩

theorem KernelSafe.copy {p virtual phy : UInt32} {max res : Int} {heap : H} {ram : Ram}
    (safe : KernelSafe laws o k) (loaded : k.Loaded p) (positive : 1 ≤ max)
    (buffer : ∀ x, InRange x phy max.toNat → ¬ (0x1000000 ≤ x.toNat ∧ x.toNat < 0x7400000))
    (returned : copyStringFromTask A k.heap k.ram (k.tasks (k.procs p).task) virtual phy max =
      some (res, heap, ram))
    (granted : laws.granted heap) : KernelSafe laws o { k with heap, ram } := by
  have own := safe.processes p loaded
  obtain ⟨directory, tables, space, linked, pages, entries⟩ := own.space
  obtain ⟨books, others, space', linked', walks⟩ :=
    copy_effect safe.books space linked pages positive buffer returned granted
  have kept {l : Owner} (other : l ≠ .paging p) : Agree (fun x => o (frame x) = some l) k.ram ram :=
    others.mono fun x hx => by
      rw [hx]
      exact ⟨Option.some_ne_none l, fun same => other (Option.some.inj same)⟩
  refine ⟨books, safe.kernel.mono (Extends.refl o) (kept (fun same => nomatch same)), fun q there => ?_⟩
  by_cases same : q = p
  · refine ⟨same ▸ own.record, same ▸ own.task, same ▸ own.run, same ▸ own.aligned, ?_⟩
    rw [same]
    refine ⟨directory, tables, space', linked', pages, fun v user => ?_⟩
    obtain ⟨w, entry⟩ := walks v
    rw [entry] at user ⊢
    exact entries w user
  · have other : Owner.paging q ≠ .paging p := fun eq => same (Owner.paging.inj eq)
    exact (safe.processes q there).mono (Extends.refl o) (kept other) rfl rfl

/-- **The invariant holds in every run.** -/
theorem KernelRun.safe (run : KernelRun laws k) : ∃ o, KernelSafe laws o k := by
  induction run with
  | boot booted granted => exact booted.safe granted
  | load run loaded granted ih =>
    obtain ⟨o, safe⟩ := ih
    exact safe.load loaded granted
  | copy run loaded positive buffer returned granted ih =>
    obtain ⟨o, safe⟩ := ih
    exact ⟨o, safe.copy loaded positive buffer returned granted⟩

end

/-! ## User stores -/

/-- The directory the processor uses while `p` runs. -/
def Kernel.directory (k : Kernel H) (p : UInt32) : UInt32 :=
  load32 k.ram (k.tasks (k.procs p).task).pageDirectory

/-- The page directory of `p` lets user code write the page of `a`. -/
def Kernel.UserStore (k : Kernel H) (p a : UInt32) : Prop :=
  ∃ v, grants (load32 k.ram (slot (k.directory p) (v.toNat / 0x400000))) ∧
    grants (walk k.ram (k.directory p) v) ∧ frame (walk k.ram (k.directory p) v) = frame a

/-- The pages of a chunk as memory has them. -/
def OnChunk (m : Ram) (chunk x : UInt32) : Prop :=
  OnPages chunk (load32 m chunk) (fun i => frame (load32 m (slot (load32 m chunk) i))) x

/-- Memory that only the kernel may write: all that is not in the heap, every
page directory with its tables, and the records of the loaded processes. -/
def Kernel.Private (k : Kernel H) (a : UInt32) : Prop :=
  ¬ (0x1000000 ≤ a.toNat ∧ a.toNat < 0x7400000) ∨ OnChunk k.ram k.kernelPageChunk a ∨
    ∃ q, k.Loaded q ∧ (OnChunk k.ram (k.tasks (k.procs q).task).pageDirectory a ∨
      InRange a q sizeofProcess.toNat ∨ InRange a (k.procs q).task sizeofTask.toNat)

theorem DirectorySafe.owned {o : Ledger UInt32 Owner} {m : Ram} {chunk x : UInt32} {l : Owner}
    {safe : UInt32 → UInt32 → Prop} (dir : DirectorySafe o m chunk l safe) (on : OnChunk m chunk x) :
    o (frame x) = some l := by
  obtain ⟨directory, tables, space, _, pages, _⟩ := dir
  apply pages
  unfold OnChunk at on
  rw [space.chunk_entry] at on
  rcases on with on | on | ⟨i, hi, on⟩
  · exact Or.inl on
  · exact Or.inr (Or.inl on)
  · have page : frame x = frame (load32 m (slot directory i)) := on
    rw [space.directory_entry i hi] at page
    exact Or.inr (Or.inr ⟨i, hi, page⟩)

/-- A run of blocks has all of a page or nothing of it. -/
theorem inRange_of_frame {x p : UInt32} {n : Nat} (aligned : p % 4096 = 0)
    (inside : InRange (frame x) p (4096 * n)) : InRange x p (4096 * n) := by
  have h := aligned_toNat.mp aligned
  have hx := x.toNat_lt
  unfold InRange at *
  rw [toNat_sub, frame_toNat] at inside
  rw [toNat_sub]
  omega

/-- **A user store lands in the program or the stack of its own process**, and so
in nothing that is the kernel's or another process's. -/
theorem userStore_own {laws : HeapLaws A F} {k : Kernel H} (run : KernelRun laws k) {p : UInt32}
    (loaded : k.Loaded p) {a : UInt32} (store : k.UserStore p a) :
    (k.procs p).OwnRun a ∧ ¬ k.Private a ∧
      ∀ q, k.Loaded q → q ≠ p → ¬ (k.procs q).OwnRun a := by
  obtain ⟨o, safe⟩ := run.safe
  have own := safe.processes p loaded
  obtain ⟨v, _, user, same⟩ := store
  have inside : (k.procs p).OwnRun a := by
    obtain ⟨directory, tables, space, _, _, entries⟩ := own.space
    rw [show k.directory p = directory from space.chunk_entry] at user same
    have reached := entries v user
    rw [same] at reached
    exact reached.imp (inRange_of_frame own.aligned.1) (inRange_of_frame own.aligned.2)
  have label := own.run a inside
  have other {l : Owner} (theirs : o (frame a) = some l) : l = .run p :=
    Option.some.inj (theirs.symm.trans label)
  refine ⟨inside, ?_, fun q there ne theirs => ?_⟩
  · rintro (outside | kernel | ⟨q, there, tables | record | task⟩)
    · have pool := laws.owned_pool _ _ (safe.books _ _ label)
      rw [frame_toNat] at pool
      exact outside (by omega)
    · cases other (safe.kernel.owned kernel)
    · cases other ((safe.processes q there).space.owned tables)
    · have whole : InRange a q (4096 * 2) := Nat.lt_of_lt_of_le record (by decide)
      cases other ((safe.processes q there).record a whole)
    · have whole : InRange a (k.procs q).task (4096 * 1) := Nat.lt_of_lt_of_le task (by decide)
      cases other ((safe.processes q there).task a whole)
  · exact ne (Owner.run.inj (other ((safe.processes q there).run a theirs)))

theorem grants_of_lowBits {entry : UInt32} (user : lowBits entry = 7) : grants entry := by
  unfold grants
  rw [flag_lowBits, user, flag_lowBits entry, user]
  decide

/-- A new process can write its stack. -/
theorem ProcessMade.stack_store {laws : HeapLaws A F} {k k' : Kernel H} {o o' : Ledger UInt32 Owner}
    {p : UInt32} (made : ProcessMade laws k k' o o' p) : k'.UserStore p (k'.procs p).stack := by
  obtain ⟨directory, tables, space, linked, entries, _⟩ := made.space
  have aligned := made.stack.pool.aligned
  have entry : walk k'.ram directory peachosProgramStackVirtualAddressEnd =
      (k'.procs p).stack ||| .ofInt userWriteable := by
    have first : frame peachosProgramStackVirtualAddressEnd - peachosProgramStackVirtualAddressEnd +
        (k'.procs p).stack = (k'.procs p).stack := by
      rw [frame_of_aligned (by decide), UInt32.sub_self, UInt32.zero_add]
    rw [entries, loadedEntry, if_pos (by decide), first]
  have own : k'.directory p = directory := space.chunk_entry
  unfold Kernel.UserStore
  rw [own]
  refine ⟨peachosProgramStackVirtualAddressEnd, ?_, ?_, ?_⟩
  · exact grants_of_lowBits (linked _ (walk_indexes _).1)
  · rw [entry]
    apply grants_of_lowBits
    rw [lowBits_or aligned userWriteable_toNat]
    decide
  · rw [entry, frame_or aligned userWriteable_toNat, frame_of_aligned aligned]

theorem bootKernel_ready (A : Allocator H) (h : H) (m : Ram) : Booted A (bootKernel A h m) := by
  have chunk := bootKernel_chunk A h m
  unfold bootKernel at chunk ⊢
  rcases built : pagingNew4gb A h m (pagingIsWriteable ||| pagingIsPresent ||| pagingAccessFromAll) with ⟨chunk', h', m'⟩
  exact ⟨⟨h, m, built⟩, fun _ _ => rfl, rfl, rfl, rfl, rfl⟩

theorem freshKernel_booted : Booted freshHeap freshKernel := bootKernel_ready _ _ _

theorem freshKernel_run (size : UInt32) : KernelRun (freshLaws size) freshKernel := by
  refine .boot freshKernel_booted ?_
  rw [freshKernel_heap]
  exact Nat.le_of_ble_eq_true rfl

/-- The first load of a new kernel. -/
theorem freshKernel_loads (size : UInt32) (filename : List UInt8) (fits : blocksNeeded size ≤ 20000) :
    ∃ p k', processLoad freshHeap (oneFile size) freshKernel filename 0 = (0, p, k') ∧
      (freshLaws size).granted k'.heap := by
  obtain ⟨p, k', load, _, granted⟩ := freshHeap_loads size (k := freshKernel) filename 0
    ⟨0, by decide, freshKernel_booted.processes 0 (by decide)⟩ (by rw [freshKernel_heap]; omega)
  exact ⟨p, k', load, granted⟩

theorem first_process_writes_stack : ∃ (k : Kernel Nat) (p a : UInt32), k.Loaded p ∧ k.UserStore p a ∧
    (k.procs p).OwnRun a ∧ ¬ k.Private a ∧ ∀ q, k.Loaded q → q ≠ p → ¬ (k.procs q).OwnRun a := by
  obtain ⟨p, k, load, granted⟩ := freshKernel_loads 100 [48, 58, 47, 97] (by decide)
  obtain ⟨_, ⟨slot, inside, _, processes⟩, made⟩ := processLoad_spec load granted
  obtain ⟨o, safe⟩ := (freshKernel_run 100).safe
  obtain ⟨_, new, record⟩ := made o safe.books
  have loaded : k.Loaded p := by
    refine ⟨record.pool.nonzero, slot, inside, ?_⟩
    rw [processes, Function.update_self]
  exact ⟨k, p, _, loaded, new.stack_store,
    userStore_own ((freshKernel_run 100).load load granted) loaded new.stack_store⟩

end PeachOs
