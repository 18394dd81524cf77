import PeachOs.EntriesKept

/-!
# The system while user code runs

What a run of the system keeps: the ownership of memory, the directories and, of a
process that does not store, its program and its stack.
-/

namespace PeachOs

open Memory Address Ownership
open Function (update)

variable {H : Type} {A : Allocator H} {F : FileOps H} {laws : HeapLaws A F}

/-! ## The invariant -/

structure SystemSafe (laws : HeapLaws A F) (o : Ledger UInt32 Owner) (s : Machine H) : Prop where
  kernel : KernelSafe laws o s.kernel
  runs : ∃ p, s.kernel.Runs p
  cr3 : s.cr3 = load32 s.kernel.ram (s.kernel.tasks s.kernel.currentTask).pageDirectory
  mapped : EntriesLoaded s.kernel

section

variable {o : Ledger UInt32 Owner} {s s' : Machine H}

theorem Begun.safe (begun : Begun laws s) : ∃ o, SystemSafe laws o s := by
  obtain ⟨k₀, s₀, booted, granted, loads, entered⟩ := begun
  obtain ⟨o, safe⟩ := loads.safe booted granted
  have headed := loads.headed booted granted
  unfold Machine.taskRunFirstEverTask at entered
  split at entered
  · cases entered
  · rename_i current
    cases entered
    obtain first | ⟨same, p, loaded, head⟩ := headed
    · exact absurd first.2 current
    · have same : SameSpaces s₀.kernel (s₀.taskSwitch s₀.kernel.taskListHead).kernel :=
        ⟨rfl, rfl, rfl, rfl, fun _ => rfl, fun _ => rfl, fun _ => ⟨rfl, rfl⟩, fun _ => rfl⟩
      exact ⟨o, safe.sameSpaces same, ⟨p, loaded, head⟩, rfl, (loads.entriesLoaded booted granted).sameSpaces same⟩

/-- The directory that is loaded is the one the invariant speaks of. -/
theorem SystemSafe.cr3_directory (safe : SystemSafe laws o s) {p : UInt32} (runs : s.kernel.Runs p) :
    s.cr3 = s.kernel.directory p := by
  rw [safe.cr3, runs.2]
  rfl

/-- A store by the process that runs lands in one of its two runs of blocks. -/
theorem SystemSafe.store_own (safe : SystemSafe laws o s) {p a : UInt32} (runs : s.kernel.Runs p)
    (store : s.UserStore a) : (s.kernel.procs p).OwnRun a ∧ o (frame a) = some (.run p) := by
  obtain ⟨v, _, user, same⟩ := store
  have own := safe.kernel.processes p runs.1
  obtain ⟨directory, tables, space, _, _, entries⟩ := own.space
  have loaded : s.cr3 = directory := (safe.cr3_directory runs).trans space.chunk_entry
  rw [loaded] at user same
  have reached := entries v user
  rw [same] at reached
  have inside := reached.imp (inRange_of_frame own.aligned.1) (inRange_of_frame own.aligned.2)
  exact ⟨inside, own.run a inside⟩

/-- The directory of the process that runs is the one its stores go through. -/
theorem SystemSafe.userStore (safe : SystemSafe laws o s) {p a : UInt32} (runs : s.kernel.Runs p)
    (store : s.kernel.UserStore p a) : s.UserStore a := by
  unfold Machine.UserStore
  rw [safe.cr3_directory runs]
  exact store

/-- A push lands in the kernel's stack, or in the program that runs if that reaches
as far as the stack. -/
theorem SystemSafe.push_place (safe : SystemSafe laws o s) {p a : UInt32} (runs : s.kernel.Runs p)
    (push : s.KernelPush a) : (0x5FE000 ≤ a.toNat ∧ a.toNat < 0x600000) ∨
      (0x1FE000 < (s.kernel.procs p).size.toNat ∧ o (frame a) = some (.run p)) := by
  obtain ⟨v, ⟨low, high⟩, pushed⟩ := push
  have top : tssEsp0.toNat = 0x600000 := rfl
  have same (there : frame v + lowBits v = a) : 0x5FE000 ≤ a.toNat ∧ a.toNat < 0x600000 := by
    rw [← there, frame_add_lowBits]
    omega
  cases pushed with
  | inr kernel =>
    rw [safe.kernel.kernel_translate] at kernel
    exact Or.inl (same (Option.some.inj kernel))
  | inl task =>
    have own := safe.kernel.processes p runs.1
    obtain ⟨directory, tables, space, linked, _, _⟩ := own.space
    have here : s.kernel.directory p = directory := space.chunk_entry
    have entry := safe.mapped p runs.1 v (by omega)
    have off : ¬ InWindow v peachosProgramStackVirtualAddressEnd 4 := by
      have stack : peachosProgramStackVirtualAddressEnd.toNat = 0x3fb000 := rfl
      unfold InWindow
      omega
    rw [safe.cr3_directory runs, here] at task
    rw [loadedEntry, if_neg off, here] at entry
    by_cases inside : InWindow v peachosProgramVirtualAddress (blocksNeeded (s.kernel.procs p).size)
    · -- the window of the program reaches up to here
      have program : peachosProgramVirtualAddress.toNat = 0x400000 := rfl
      rw [if_pos inside] at entry
      rw [translate_window linked (by decide) own.aligned.1 entry] at task
      have run : InRange a (s.kernel.procs p).ptr (4096 * blocksNeeded (s.kernel.procs p).size) := by
        rw [← Option.some.inj task]
        unfold InWindow at inside
        unfold InRange
        rw [toNat_sub, UInt32.toNat_add, toNat_sub, program]
        have small := v.toNat_lt
        have ptr := (s.kernel.procs p).ptr.toNat_lt
        omega
      refine Or.inr ⟨?_, own.run a (Or.inl run)⟩
      unfold InWindow blocksNeeded at inside
      omega
    · have aligned := frame_aligned v
      rw [if_neg inside] at entry
      rw [translate_open linked v entry (present_or aligned (by decide) (by decide)), frame_or aligned (by decide)] at task
      exact Or.inl (same (Option.some.inj task))

/-- A byte of another owner than the writer. -/
theorem update_kept {m : Ram} {a : UInt32} {b : UInt8} {l l' : Owner} (owned : o (frame a) = some l) (ne : l' ≠ l) :
    Agree (fun x => o (frame x) = some l') m (update m a b) := by
  intro x theirs
  apply Function.update_of_ne
  rintro rfl
  exact ne (Option.some.inj (theirs.symm.trans owned))

/-- Memory that is changed in the runs of blocks alone, or off the heap's. -/
def KeepsOwn (o : Ledger UInt32 Owner) (m m' : Ram) : Prop :=
  ∀ l, (∀ p, l ≠ .run p) → Agree (fun x => o (frame x) = some l) m m'

theorem KeepsOwn.store {m : Ram} {p a : UInt32} {b : UInt8} (owned : o (frame a) = some (.run p)) :
    KeepsOwn o m (update m a b) := fun _ ne => update_kept owned (ne p)

/-- A byte that no block of the heap has. -/
theorem off_kept {h : H} (books : Books laws h o) {m : Ram} {a : UInt32} {b : UInt8} (low : a.toNat < 0x1000000) (l : Owner) :
    Agree (fun x => o (frame x) = some l) m (update m a b) := by
  intro x owned
  apply Function.update_of_ne
  rintro rfl
  have above := owned_above books owned
  omega

theorem KernelSafe.ram {k : Kernel H} (safe : KernelSafe laws o k) {m : Ram} (kept : KeepsOwn o k.ram m) :
    KernelSafe laws o { k with ram := m } := by
  refine ⟨safe.books, ?_, fun q loaded => ?_⟩
  · exact safe.kernel.mono (Extends.refl o) (kept _ (by simp))
  · exact (safe.processes q loaded).mono (Extends.refl o) (kept _ (by simp)) rfl rfl

/-- A change of memory that keeps what the kernel has on the heap. -/
theorem SystemSafe.withRam (safe : SystemSafe laws o s) {m : Ram} (kept : KeepsOwn o s.kernel.ram m) :
    SystemSafe laws o (s.withRam m) := by
  obtain ⟨kernel, ⟨p, loaded, current⟩, cr3, mapped⟩ := safe
  refine ⟨kernel.ram kept, ⟨p, loaded, current⟩, ?_, fun q there v low => ?_⟩
  · obtain ⟨directory, tables, space, _, pages, _⟩ := (kernel.processes p loaded).space
    have after := space.of_agree (kept (.paging p) (by simp)) fun x on =>
      pages x (on.elim Or.inl fun on => Or.inr (Or.inl on))
    rw [current] at cr3
    show s.cr3 = load32 m (s.kernel.tasks s.kernel.currentTask).pageDirectory
    rw [current, cr3, space.chunk_entry]
    exact after.chunk_entry.symm
  · have same := (kernel.processes q there).walk_kept (s.withRam m).kernel (kept (.paging q) (by simp)) rfl v
    exact same.trans (mapped q there v low)

/-- **One step keeps the invariant.** -/
theorem SystemSafe.step (safe : SystemSafe laws o s) {writer : Option UInt32} (step : SystemStep laws s writer s') :
    SystemSafe laws o s' := by
  obtain ⟨kernel, ⟨p, loaded, current⟩, cr3, mapped⟩ := id safe
  cases step with
  | isr80h buffer returned granted =>
    obtain ⟨⟨k₁, same, now, copied⟩, cr3'⟩ := Machine.isr80hHandler_handled returned
    have before := kernel.sameSpaces same
    have mapped₁ := mapped.sameSpaces same
    have loaded₁ := (same.loaded p).mpr loaded
    have current₁ : k₁.currentTask = (k₁.procs p).task := by
      rw [now, current, same.task]
    suffices after : KernelSafe laws o s'.kernel ∧ s'.kernel.Runs p ∧ EntriesLoaded s'.kernel from
      ⟨after.1, ⟨p, after.2.1⟩, cr3', after.2.2⟩
    obtain shape | ⟨virtual, res, run, shape⟩ := copied
    · rw [shape]
      exact ⟨before, ⟨loaded₁, current₁⟩, mapped₁⟩
    · rw [current₁] at run
      have page : (1 : Int) ≤ 4096 := by decide
      have copied := before.copy loaded₁ page buffer.off_heap run granted
      have mapped' := (mapped₁.copy before loaded₁ page buffer.off_heap run granted).1
      rw [← shape] at copied mapped'
      refine ⟨copied, ?_, mapped'⟩
      rw [shape]
      exact ⟨loaded₁, current₁⟩
  | interrupt returned =>
    obtain ⟨same, now, cr3'⟩ := Machine.interruptHandler_handled returned
    refine ⟨kernel.sameSpaces same, ⟨p, (same.loaded p).mpr loaded, ?_⟩, cr3', mapped.sameSpaces same⟩
    rw [now, current, same.task]
  | @switch q loaded' =>
    have same : SameSpaces s.kernel (s.userRegisters.taskSwitch (s.kernel.procs q).task).kernel :=
      ⟨rfl, rfl, rfl, rfl, fun _ => rfl, fun _ => rfl, fun _ => ⟨rfl, rfl⟩, fun _ => rfl⟩
    exact ⟨kernel.sameSpaces same, ⟨q, loaded', rfl⟩, rfl, mapped.sameSpaces same⟩
  | store runs store => exact safe.withRam (.store (safe.store_own runs store).2)
  | push push =>
    obtain place | ⟨_, owned⟩ := safe.push_place ⟨loaded, current⟩ push
    · exact safe.withRam fun l _ => off_kept kernel.books (by omega) l
    · exact safe.withRam (.store owned)

/-! ## Runs -/

/-- The ledger of the first switch serves for the whole run. -/
theorem SystemRun.safe {s₀ : Machine H} {writers : List (Option UInt32)} (run : SystemRun laws s₀ writers s)
    (safe : SystemSafe laws o s₀) : SystemSafe laws o s := by
  induction run with
  | start => exact safe
  | step _ step ih => exact ih.step step

/-- A byte of a process's run is nothing of the kernel's or of another process's. -/
theorem KernelSafe.run_apart {k : Kernel H} (safe : KernelSafe laws o k) {p a : UInt32}
    (label : o (frame a) = some (.run p)) :
    ¬ k.Private a ∧ ∀ q, k.Loaded q → q ≠ p → ¬ (k.procs q).OwnRun a := by
  have other {l : Owner} (theirs : o (frame a) = some l) : l = .run p := Option.some.inj (theirs.symm.trans label)
  refine ⟨?_, fun q there ne theirs => ?_⟩
  · rintro (outside | onChunk | ⟨q, there, tables | record | task⟩)
    · have pool := laws.owned_pool _ _ (safe.books _ _ label)
      rw [frame_toNat] at pool
      exact outside (by omega)
    · cases other (safe.kernel.owned onChunk)
    · cases other ((safe.processes q there).space.owned tables)
    · have whole : InRange a q (4096 * 2) := Nat.lt_of_lt_of_le record (by decide)
      cases other ((safe.processes q there).record a whole)
    · have whole : InRange a (k.procs q).task (4096 * 1) := Nat.lt_of_lt_of_le task (by decide)
      cases other ((safe.processes q there).task a whole)
  · exact ne (Owner.run.inj (other ((safe.processes q there).run a theirs)))

/-- **In every state of the system a store that the loaded directory allows lands in
the program or the stack of the process that runs**, and in nothing of the kernel's
or of another process's. -/
theorem systemRun_store {s₀ : Machine H} {writers : List (Option UInt32)} (begun : Begun laws s₀)
    (run : SystemRun laws s₀ writers s) {a : UInt32} (store : s.UserStore a) :
    ∃ p, s.kernel.Runs p ∧ (s.kernel.procs p).OwnRun a ∧ ¬ s.kernel.Private a ∧
      ∀ q, s.kernel.Loaded q → q ≠ p → ¬ (s.kernel.procs q).OwnRun a := by
  obtain ⟨o, first⟩ := begun.safe
  have safe := run.safe first
  obtain ⟨p, runs⟩ := safe.runs
  obtain ⟨inside, label⟩ := safe.store_own runs store
  exact ⟨p, runs, inside, safe.kernel.run_apart label⟩

/-! ## Memory that is not stored to -/

/-- A program that ends below the two pages of the kernel's stack. -/
def Process.Short (process : Process) : Prop := process.size.toNat ≤ 0x1FE000

/-- The program and the stack of `p` are where they were, with the same bytes. -/
structure KeptRuns (p : UInt32) (k k' : Kernel H) : Prop where
  loaded : k.Loaded p → k'.Loaded p
  program : (k'.procs p).ptr = (k.procs p).ptr ∧ (k'.procs p).size = (k.procs p).size
  stack : (k'.procs p).stack = (k.procs p).stack
  bytes : ∀ x, (k.procs p).OwnRun x → k'.ram x = k.ram x

theorem KeptRuns.ownRun {p : UInt32} {k k' : Kernel H} (kept : KeptRuns p k k') (x : UInt32) :
    (k'.procs p).OwnRun x ↔ (k.procs p).OwnRun x := by
  unfold Process.OwnRun
  rw [kept.program.1, kept.program.2, kept.stack]

theorem KeptRuns.short {p : UInt32} {k k' : Kernel H} (kept : KeptRuns p k k') (short : (k.procs p).Short) :
    (k'.procs p).Short := by
  unfold Process.Short
  rwa [kept.program.2]

theorem KeptRuns.refl (p : UInt32) (k : Kernel H) : KeptRuns p k k := ⟨id, ⟨rfl, rfl⟩, rfl, fun _ _ => rfl⟩

theorem KeptRuns.trans {p : UInt32} {k k' k'' : Kernel H} (first : KeptRuns p k k') (second : KeptRuns p k' k'') :
    KeptRuns p k k'' := by
  refine ⟨fun loaded => second.loaded (first.loaded loaded), ?_, second.stack.trans first.stack, fun x inside => ?_⟩
  · exact ⟨second.program.1.trans first.program.1, second.program.2.trans first.program.2⟩
  · exact (second.bytes x ((first.ownRun x).mpr inside)).trans (first.bytes x inside)

theorem SameSpaces.keptRuns {k k' : Kernel H} (same : SameSpaces k k') (p : UInt32) : KeptRuns p k k' :=
  ⟨(same.loaded p).mpr, same.program p, same.stack p, fun x _ => congrFun same.ram x⟩

/-- A copy writes nothing that a process owns, but its tables. -/
theorem KernelSafe.copy_kept {k : Kernel H} {p q virtual phy : UInt32} {max res : Int} {heap : H} {ram : Ram}
    (safe : KernelSafe laws o k) (loaded : k.Loaded q) (positive : 1 ≤ max)
    (buffer : ∀ x, InRange x phy max.toNat → ¬ (0x1000000 ≤ x.toNat ∧ x.toNat < 0x7400000))
    (returned : copyStringFromTask A k.heap k.ram (k.tasks (k.procs q).task) virtual phy max = some (res, heap, ram))
    (granted : laws.granted heap) (there : k.Loaded p) : KeptRuns p k { k with heap, ram } := by
  obtain ⟨directory, tables, space, linked, pages, _⟩ := (safe.processes q loaded).space
  obtain ⟨_, others, _⟩ := copy_effect safe.books space linked pages positive buffer returned granted
  refine ⟨id, ⟨rfl, rfl⟩, rfl, fun x inside => others x ?_⟩
  have owner := (safe.processes p there).run x inside
  simp [owner]

/-- A write to a byte that `p` does not own. -/
theorem KernelSafe.write_kept {k : Kernel H} (safe : KernelSafe laws o k) {p a : UInt32} {b : UInt8} (there : k.Loaded p)
    (other : o (frame a) ≠ some (.run p)) : KeptRuns p k { k with ram := update k.ram a b } := by
  refine ⟨id, ⟨rfl, rfl⟩, rfl, fun x inside => Function.update_of_ne ?_ _ _⟩
  rintro rfl
  exact other ((safe.processes p there).run x inside)

/-- What a short program does not store to itself stays. -/
theorem SystemSafe.step_kept (safe : SystemSafe laws o s) {writer : Option UInt32} {p : UInt32}
    (step : SystemStep laws s writer s') (other : writer ≠ some p) (there : s.kernel.Loaded p)
    (short : (s.kernel.procs p).Short) : KeptRuns p s.kernel s'.kernel := by
  cases step with
  | isr80h buffer returned granted =>
    obtain ⟨q, loaded, current⟩ := safe.runs
    obtain ⟨⟨k₁, same, now, copied⟩, _⟩ := Machine.isr80hHandler_handled returned
    obtain shape | ⟨virtual, res, run, shape⟩ := copied
    · rw [shape]
      exact same.keptRuns p
    · rw [now, current, ← same.task] at run
      rw [shape]
      exact (same.keptRuns p).trans ((safe.kernel.sameSpaces same).copy_kept ((same.loaded q).mpr loaded)
        (show (1 : Int) ≤ 4096 by decide) buffer.off_heap run granted
        ((same.loaded p).mpr there))
  | interrupt returned => exact (Machine.interruptHandler_handled returned).1.keptRuns p
  | switch loaded => exact ⟨id, ⟨rfl, rfl⟩, rfl, fun _ _ => rfl⟩
  | @store q a b runs store =>
    have owned := (safe.store_own runs store).2
    apply safe.kernel.write_kept there
    rw [owned]
    exact fun same => other (congrArg some (Owner.run.inj (Option.some.inj same)))
  | push push =>
    obtain ⟨q, runs⟩ := safe.runs
    apply safe.kernel.write_kept there
    intro owned
    obtain place | ⟨long, owned'⟩ := safe.push_place runs push
    · have above := owned_above safe.kernel.books owned
      omega
    · obtain rfl : q = p := Owner.run.inj (Option.some.inj (owned'.symm.trans owned))
      exact absurd short (Nat.not_le.mpr long)

theorem SystemRun.keptRuns {writers : List (Option UInt32)} {p : UInt32} (run : SystemRun laws s writers s')
    (safe : SystemSafe laws o s) (there : s.kernel.Loaded p) (short : (s.kernel.procs p).Short)
    (silent : some p ∉ writers) : KeptRuns p s.kernel s'.kernel := by
  induction run with
  | start => exact .refl p s.kernel
  | @step _ _ writers writer run step ih =>
    have quiet := ih fun mem => silent (List.mem_cons_of_mem _ mem)
    have other : writer ≠ some p := fun same => silent (same ▸ List.mem_cons_self)
    exact quiet.trans ((run.safe safe).step_kept step other (quiet.loaded there) (quiet.short short))

/-- **While a process does not store, its program and its stack stay as they are**,
whatever the other processes store and whatever commands and interrupts are served,
its own commands included. Its program ends below the kernel's stack, for otherwise
the frames of an interrupt are pushed into it. -/
theorem systemRun_kept {s₀ : Machine H} {before writers : List (Option UInt32)} (begun : Begun laws s₀)
    (first : SystemRun laws s₀ before s) (run : SystemRun laws s writers s') {p : UInt32} (there : s.kernel.Loaded p)
    (short : (s.kernel.procs p).Short) (silent : some p ∉ writers) : KeptRuns p s.kernel s'.kernel := by
  obtain ⟨o, start⟩ := begun.safe
  exact run.keptRuns (first.safe start) there short silent

end

/-! ## Loads -/

section

variable {k k' : Kernel H} {o : Ledger UInt32 Owner} {filename : List UInt8} {process p q : UInt32}

theorem processLoad_loaded (load : processLoad A F k filename process = (0, p, k')) (granted : laws.granted k'.heap) :
    k'.Loaded p := by
  obtain ⟨_, ⟨slot, inside, _, processes⟩, made⟩ := processLoad_spec load granted
  obtain ⟨_, _, record⟩ := made _ noBooks
  exact ⟨record.pool.nonzero, slot, inside, by rw [processes, Function.update_self]⟩

/-- A load leaves the older processes as they are. -/
theorem KernelSafe.load_kept (safe : KernelSafe laws o k) (there : k.Loaded q)
    (load : processLoad A F k filename process = (0, p, k')) (granted : laws.granted k'.heap) : KeptRuns q k k' := by
  obtain ⟨_, ⟨slot, _, empty, processes⟩, made⟩ := processLoad_spec load granted
  obtain ⟨o', new, record⟩ := made o safe.books
  have own := safe.processes q there
  have same : k'.procs q = k.procs q := new.procs q (record.ne_of_owned (by decide) own.owned.1)
  refine ⟨fun _ => ?_, by rw [same]; exact ⟨rfl, rfl⟩, by rw [same], fun x inside => ?_⟩
  · obtain ⟨nonzero, slot', inside, here⟩ := there
    refine ⟨nonzero, slot', inside, ?_⟩
    have other : slot' ≠ slot := by
      rintro rfl
      exact nonzero (here.symm.trans empty)
    rw [processes, Function.update_of_ne other, here]
  · apply new.advance.kept x
    rw [own.run x inside]
    exact Option.some_ne_none _

theorem Loads.trans {k₀ : Kernel H} (before : Loads laws k₀ k) (later : Loads laws k k') : Loads laws k₀ k' := by
  induction later with
  | start => exact before
  | load _ loaded granted ih => exact ih.load loaded granted
  | switch _ loaded ih => exact ih.switch loaded

theorem Loads.keptRuns {k₀ : Kernel H} (before : Loads laws k₀ k) (booted : Booted A k₀) (granted₀ : laws.granted k₀.heap)
    (there : k.Loaded q) (loads : Loads laws k k') : KeptRuns q k k' := by
  induction loads with
  | start => exact .refl q k
  | load later loaded granted ih =>
    obtain ⟨o, safe⟩ := (before.trans later).safe booted granted₀
    exact ih.trans (safe.load_kept (ih.loaded there) loaded granted)
  | @switch k p _ _ ih => exact ih.trans ((processSwitch_sameSpaces k p).keptRuns q)

/-- The first switch changes nothing of a process. -/
theorem entered_same {s₀ s₁ : Machine H} (entered : s₀.taskRunFirstEverTask = some s₁) : SameSpaces s₀.kernel s₁.kernel := by
  unfold Machine.taskRunFirstEverTask at entered
  split at entered
  · cases entered
  · cases entered
    exact ⟨rfl, rfl, rfl, rfl, fun _ => rfl, fun _ => rfl, fun _ => ⟨rfl, rfl⟩, fun _ => rfl⟩

end

/-! ## Two processes -/

/-- After `enable_paging` and the loads. -/
def machineOf {H : Type} (k : Kernel H) : Machine H where
  kernel := k
  cr3 := k.kernelDirectory
  currentDirectory := k.kernelDirectory
  segments := ⟨0x10, 0x10, 0x10, 0x10⟩
  terminal := ⟨0, 0, fun _ => 0, []⟩
  isr80hCommands := isr80hRegisterCommands
  callbackFunctions := fun _ => none

/-- A process is loaded and entered. -/
theorem first_process_begun : ∃ (s : Machine Nat) (p : UInt32), Begun (freshLaws 100) s ∧ s.kernel.Runs p ∧
    s.UserStore (s.kernel.procs p).stack := by
  obtain ⟨p, k, load, granted⟩ := freshKernel_loads 100 [48, 58, 47, 97] (by decide)
  have room : (freshLaws 100).granted freshKernel.heap := (processLoad_spec load granted).1
  have loads : Loads (freshLaws 100) freshKernel k := Loads.start.load load granted
  obtain ⟨_, ⟨slot, inside, _, processes⟩, made⟩ := processLoad_spec load granted
  obtain ⟨o, safe⟩ := (freshKernel_run 100).safe
  obtain ⟨_, new, record⟩ := made o safe.books
  obtain ⟨nonzero, t, some', rfl, _, _, head, current⟩ := processLoad_current load granted
  rw [if_pos freshKernel_booted.lists.1] at head current
  have entered : (machineOf k).taskRunFirstEverTask = some _ := if_neg (show k.currentTask ≠ 0 by rwa [current])
  refine ⟨_, p, ⟨_, machineOf k, freshKernel_booted, room, loads, entered⟩, ⟨⟨nonzero, slot, inside, ?_⟩, head⟩, ?_⟩
  · show k.processes slot = p
    rw [processes, Function.update_self]
  · have directory : load32 k.ram (k.tasks k.taskListHead).pageDirectory = k.directory p := by
      rw [head]
      rfl
    obtain ⟨v, table, entry, same⟩ := new.stack_store
    rw [← directory] at table entry same
    exact ⟨v, table, entry, same⟩

theorem first_process_store : ∃ (s : Machine Nat) (a p : UInt32), s.UserStore a ∧ s.kernel.Runs p ∧
    (s.kernel.procs p).OwnRun a ∧ ¬ s.kernel.Private a := by
  obtain ⟨s, p, begun, _, store⟩ := first_process_begun
  obtain ⟨q, runs, inside, apart, _⟩ := systemRun_store begun .start store
  exact ⟨s, _, q, store, runs, inside, apart⟩

def pressFrame : InterruptFrame := ⟨0, 0, 0, 0, 0, 0, 0, 0, 0, 0, 0, 0, 0⟩

/-- Two processes are loaded, and the first is entered. -/
theorem two_processes_begun : ∃ (s : Machine Nat) (p q : UInt32), q ≠ p ∧ Begun (freshLaws 100) s ∧ s.kernel.Runs p ∧
    s.kernel.Loaded q ∧ s.isr80hCommands = isr80hRegisterCommands ∧ (freshLaws 100).granted s.kernel.heap ∧
    s.kernel.currentTask ≠ 0 ∧ (s.kernel.procs p).Short ∧ s.kernel.UserStore q (s.kernel.procs q).stack := by
  obtain ⟨p, k, load, size, granted⟩ := freshHeap_loads 100 (k := freshKernel) [48, 58, 47, 97] 0
    ⟨0, by decide, freshKernel_booted.processes 0 (by decide)⟩ (by rw [freshKernel_heap]; decide)
  obtain ⟨room, ⟨slot, _, _, processes⟩, made⟩ := processLoad_spec load granted
  obtain ⟨o, safe⟩ := (freshKernel_run 100).safe
  obtain ⟨o₁, new, record⟩ := made o safe.books
  obtain ⟨nonzero, t, some', rfl, _, _, head, current⟩ := processLoad_current load granted
  rw [if_pos freshKernel_booted.lists.1] at head current
  have heap : k.heap ≤ 1026 + (blocksNeeded 100 + 1033) := by
    have most := freshHeap_load 100 freshKernel [48, 58, 47, 97] 0
    rw [load, freshKernel_heap] at most
    exact most
  have there := processLoad_loaded load granted
  obtain ⟨slot', inside', free⟩ : ∃ slot' < peachosMaxProcesses, k.processes slot' = 0 := by
    by_cases first : slot = 0
    · refine ⟨1, by decide, ?_⟩
      rw [processes, Function.update_of_ne (by omega)]
      exact freshKernel_booted.processes 1 (by decide)
    · refine ⟨0, by decide, ?_⟩
      rw [processes, Function.update_of_ne (Ne.symm first)]
      exact freshKernel_booted.processes 0 (by decide)
  have one : blocksNeeded 100 = 1 := by decide
  obtain ⟨q, k₂, load₂, _, granted₂⟩ := freshHeap_loads 100 (k := k) [48, 58, 47, 97] 0 ⟨slot', inside', free⟩ (by omega)
  have loads : Loads (freshLaws 100) freshKernel k₂ := (Loads.start.load load granted).load load₂ granted₂
  obtain ⟨o₂, safe₁⟩ := (Loads.start.load load granted).safe freshKernel_booted room
  obtain ⟨_, ⟨slot₂, _, empty₂, processes₂⟩, made₂⟩ := processLoad_spec load₂ granted₂
  obtain ⟨_, new₂, record₂⟩ := made₂ o₂ safe₁.books
  have apart : q ≠ p := (record₂.ne_of_owned (by decide) (safe₁.processes p there).owned.1).symm
  have kept := safe₁.load_kept there load₂ granted₂
  obtain ⟨nonzero₂, t₂, some₂, rfl, _, _, head₂, current₂⟩ := processLoad_current load₂ granted₂
  rw [if_neg (by rwa [head])] at head₂ current₂
  have same : k₂.procs p = k.procs p :=
    new₂.procs p (record₂.ne_of_owned (by decide) (safe₁.processes p there).owned.1)
  have task : k₂.taskListHead = (k₂.procs p).task := by
    rw [head₂, head, same]
  have entered : (machineOf k₂).taskRunFirstEverTask = some _ := if_neg (show k₂.currentTask ≠ 0 by rwa [current₂, current])
  have there₂ := processLoad_loaded load₂ granted₂
  refine ⟨_, p, q, apart, ⟨_, machineOf k₂, freshKernel_booted, room, loads, entered⟩, ⟨kept.loaded there, task⟩,
    there₂, rfl, granted₂, ?_, ?_, new₂.stack_store⟩
  · show k₂.taskListHead ≠ 0
    rwa [head₂, head]
  · show (k₂.procs p).size.toNat ≤ 0x1FE000
    rw [same, size]
    decide

/-- The first process calls `getkey` and is interrupted, the second is switched to and
stores to its stack, and a byte is pushed on the kernel's. -/
theorem first_process_kept : ∃ (s s' : Machine Nat) (p q : UInt32), s.kernel.Runs p ∧ q ≠ p ∧
    SystemRun (freshLaws 100) s [none, some q, none, none, none] s' ∧ KeptRuns p s.kernel s'.kernel := by
  obtain ⟨s, p, q, apart, begun, runs, there, table, granted, current, short, store⟩ := two_processes_begun
  have buffer : HandlerBuffer 0x500000 := ⟨by decide, by unfold OnKernelStack; decide⟩
  obtain ⟨res, s₁, getkey⟩ := Machine.isr80hHandler_some (A := freshHeap) current table pressFrame 0x500000
  obtain ⟨same₁, current₁⟩ := Machine.getkey_same table getkey
  have run₁ : SystemRun (freshLaws 100) s [none] s₁ := SystemRun.start.step
    (.isr80h buffer getkey (by rw [same₁.heap]; exact granted))
  obtain ⟨s₂, interrupt⟩ := Machine.interruptHandler_some (show s₁.kernel.currentTask ≠ 0 by rwa [current₁])
    isrKeyboardInterrupt pressFrame 0 0x1E
  have same₂ := same₁.trans (Machine.interruptHandler_handled interrupt).1
  have run₂ := run₁.step (.interrupt interrupt)
  have run₃ := run₂.step (.switch ((same₂.loaded q).mpr there))
  generalize switched : s₂.userRegisters.taskSwitch (s₂.kernel.procs q).task = s₃ at run₃
  have same₃ : SameSpaces s.kernel s₃.kernel := by
    subst switched
    exact same₂.trans ⟨rfl, rfl, rfl, rfl, fun _ => rfl, fun _ => rfl, fun _ => ⟨rfl, rfl⟩, fun _ => rfl⟩
  have runs₃ : s₃.kernel.Runs q := by
    refine ⟨(same₃.loaded q).mpr there, ?_⟩
    subst switched
    rfl
  obtain ⟨o, safe⟩ := begun.safe
  have run₄ := run₃.step (.store (b := 1) runs₃ ((run₃.safe safe).userStore runs₃ (same₃.userStore store)))
  have push : (s₃.withRam (update s₃.kernel.ram (s.kernel.procs q).stack 1)).KernelPush 0x5FFFFC := by
    refine ⟨0x5FFFFC, ⟨by decide, by decide⟩, Or.inr ?_⟩
    rw [(run₄.safe safe).kernel.kernel_translate, frame_add_lowBits]
  have run₅ := run₄.step (.push (b := 1) push)
  exact ⟨s, _, p, q, runs, apart, run₅, systemRun_kept begun .start run₅ runs.1 short (by simp [apart.symm])⟩

end PeachOs
