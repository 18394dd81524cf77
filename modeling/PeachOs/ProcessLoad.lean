import PeachOs.HeapLaws

/-!
# What a successful load does

One lemma for each function on the way of `process_load`, from the heap's and
the file system's promises to the new process: its blocks, its directory and
the two windows mapped in it.
-/

namespace PeachOs

open Memory Address Ownership
open Function (update)

variable {H : Type} {A : Allocator H} {F : FileOps H} {laws : HeapLaws A F}
  {o : Ledger UInt32 Owner}

/-- The program's run of blocks. There is none when `fstat` fails with a
positive result, which `process_load_for_slot` takes for a success. -/
def HasRun (o o' : Ledger UInt32 Owner) (ptr size : UInt32) (l : Owner) : Prop :=
  ptr = 0 ∧ size = 0 ∨ NewRun o o' ptr (blocksNeeded size) l

theorem HasRun.mono {o₀ o o' o'' : Ledger UInt32 Owner} {ptr size : UInt32} {l : Owner}
    (run : HasRun o o' ptr size l) (before : Extends o₀ o) (after : Extends o' o'') :
    HasRun o₀ o'' ptr size l :=
  run.imp id fun new => new.mono before after

/-! ## The program's data -/

/-- `k'` has the program's run in the record of `p`, and is otherwise `k` with
another heap and memory. -/
structure BinaryLoaded (laws : HeapLaws A F) (k k' : Kernel H) (o o' : Ledger UInt32 Owner)
    (p : UInt32) : Prop where
  advance : Advance laws k.ram o k'.heap k'.ram o'
  record : ∃ ptr size, k'.procs = update k.procs p { k.procs p with ptr, size } ∧
    HasRun o o' ptr size (.run p)
  shape : k' = { k with heap := k'.heap, ram := k'.ram, procs := k'.procs }

theorem Kernel.kZalloc_advance {k k' : Kernel H} {n ptr : UInt32} (run : k.kZalloc A n = (ptr, k'))
    (granted : laws.granted k'.heap) (books : Books laws k.heap o) (l : Owner) :
    ∃ o', Advance laws k.ram o k'.heap k'.ram o' ∧ NewRun o o' ptr (blocksNeeded n) l ∧
      k' = { k with heap := k'.heap, ram := k'.ram } := by
  obtain ⟨m', alloc, _⟩ := kZalloc_spec A k.heap k.ram n
  simp only [Kernel.kZalloc, alloc, Prod.mk.injEq] at run
  obtain ⟨rfl, rfl⟩ := run
  obtain ⟨m'', o', alloc', advance, new⟩ := PeachOs.kZalloc_advance (m := k.ram) granted books l
  rw [alloc] at alloc'
  cases alloc'
  exact ⟨o', advance, new, rfl⟩

/-- What a request returns, and what it clears. -/
theorem Kernel.kZalloc_run {k k' : Kernel H} {n ptr : UInt32} (run : k.kZalloc A n = (ptr, k')) :
    ptr = (A.malloc k.heap n).1 ∧ k'.heap = (A.malloc k.heap n).2 ∧
      Agree (fun x => ¬ InRange x ptr n.toNat) k.ram k'.ram := by
  obtain ⟨m', alloc, same⟩ := kZalloc_spec A k.heap k.ram n
  simp only [Kernel.kZalloc, alloc, Prod.mk.injEq] at run
  obtain ⟨rfl, rfl⟩ := run
  exact ⟨rfl, rfl, same⟩

theorem Kernel.kZalloc_granted {k k' : Kernel H} {n ptr : UInt32} (run : k.kZalloc A n = (ptr, k'))
    (granted : laws.granted k'.heap) : laws.granted k.heap := by
  obtain ⟨m', alloc, _⟩ := kZalloc_spec A k.heap k.ram n
  simp only [Kernel.kZalloc, alloc, Prod.mk.injEq] at run
  obtain ⟨rfl, rfl⟩ := run
  exact laws.malloc_granted _ n granted

theorem Kernel.kZalloc_nonzero {k k' : Kernel H} {n ptr : UInt32} (run : k.kZalloc A n = (ptr, k'))
    (granted : laws.granted k'.heap) : ptr ≠ 0 := by
  obtain ⟨o', _, new, _⟩ := Kernel.kZalloc_advance run granted noBooks .kernel
  exact new.pool.nonzero

theorem processReadBinary_spec {k k' : Kernel H} {fd res : Int} {p : UInt32}
    (run : processReadBinary A F k fd p = (res, k')) (granted : laws.granted k'.heap) (ok : 0 ≤ res)
    (ptr_zero : (k.procs p).ptr = 0) (size_zero : (k.procs p).size = 0) :
    laws.granted k.heap ∧ ∀ o, Books laws k.heap o → ∃ o', BinaryLoaded laws k k' o o' p := by
  have stat := laws.fstat k.heap k.ram fd
  rcases hs : F.fstat k.heap k.ram fd with ⟨⟨r, size⟩, h₁, m₁⟩
  rw [hs] at stat
  simp only [processReadBinary, hs] at run
  by_cases failed : r ≠ peachosAllOk
  · rw [if_pos failed] at run
    cases run
    refine ⟨stat.granted granted, fun o books => ⟨o, ?_, ⟨_, _, ?_, Or.inl ⟨ptr_zero, size_zero⟩⟩, rfl⟩⟩
    · exact (Advance.refl books k.ram).quiet stat fun _ hx => hx.elim
    · exact (Function.update_eq_self p k.procs).symm
  · rw [if_neg failed] at run
    rcases hz : Kernel.kZalloc A { k with heap := h₁, ram := m₁ } size with ⟨ptr, k₁⟩
    simp only [hz] at run
    have read := laws.fread k₁.heap k₁.ram ptr size 1 fd
    rcases hr : F.fread k₁.heap k₁.ram ptr size 1 fd with ⟨got, h₂, m₂⟩
    rw [hr] at read
    simp only [hr] at run
    by_cases null : ptr = 0
    · rw [if_pos null] at run
      cases run
      exact absurd ok (by decide)
    · rw [if_neg null] at run
      by_cases short : got ≠ 1
      · rw [if_pos short] at run
        cases run
        exact absurd ok (by decide)
      · rw [if_neg short] at run
        cases run
        have granted₁ : laws.granted k₁.heap := read.granted granted
        refine ⟨stat.granted (Kernel.kZalloc_granted hz granted₁), fun o books => ?_⟩
        have first := (Advance.refl books k.ram).quiet stat fun _ hx => hx.elim
        obtain ⟨o', alloc, new, shape⟩ := Kernel.kZalloc_advance hz granted₁ first.books (.run p)
        have same : k₁.procs = k.procs := by rw [shape]
        refine ⟨o', (first.trans alloc).quiet read fun x inside => new.fresh x ?_,
          ⟨ptr, size, ?_, Or.inr new⟩, ?_⟩
        · unfold InRange blocksNeeded at *
          rw [UInt32.toNat_one, Nat.mul_one] at inside
          omega
        · simp only [Kernel.modifyProc, same]
        · rw [shape]
          rfl

/-- A program's data is in place, wherever `fopen` found it. -/
theorem processLoadBinary_spec {k k' : Kernel H} {filename : List UInt8} {res : Int} {p : UInt32}
    (run : processLoadBinary A F k filename p = (res, k')) (granted : laws.granted k'.heap)
    (ok : 0 ≤ res) (ptr_zero : (k.procs p).ptr = 0) (size_zero : (k.procs p).size = 0) :
    laws.granted k.heap ∧ ∀ o, Books laws k.heap o → ∃ o', BinaryLoaded laws k k' o o' p := by
  have opening := laws.fopen k.heap k.ram filename [114]
  rcases ho : F.fopen k.heap k.ram filename [114] with ⟨fd, h₁, m₁⟩
  rw [ho] at opening
  simp only [processLoadBinary, ho] at run
  by_cases missing : fd = 0
  · simp only [missing, if_true] at run
    cases run
    exact absurd ok (by decide)
  · rw [if_neg missing] at run
    rcases hr : processReadBinary A F { k with heap := h₁, ram := m₁ } fd p with ⟨r, k₁⟩
    simp only [hr] at run
    have closing := laws.fclose k₁.heap k₁.ram fd
    rcases hc : F.fclose k₁.heap k₁.ram fd with ⟨_, h₂, m₂⟩
    rw [hc] at closing
    simp only [hc] at run
    cases run
    obtain ⟨granted₁, read⟩ := processReadBinary_spec hr (closing.granted granted) ok ptr_zero size_zero
    refine ⟨opening.granted granted₁, fun o books => ?_⟩
    have first := (Advance.refl books k.ram).quiet opening fun _ hx => hx.elim
    obtain ⟨o', loaded⟩ := read o first.books
    have whole := (first.trans loaded.advance).quiet closing fun _ hx => hx.elim
    refine ⟨o', whole, loaded.record, ?_⟩
    rw [loaded.shape]

/-! ## The task -/

theorem taskUnlink_heap (k : Kernel H) (t : UInt32) : (taskUnlink k t).heap = k.heap := by
  unfold taskUnlink
  dsimp only
  split
  · split <;> rfl
  · rfl

theorem taskListRemove_heap (k : Kernel H) (t : UInt32) : (taskListRemove k t).heap = k.heap := by
  rw [← taskUnlink_heap k t]
  unfold taskListRemove
  generalize taskUnlink k t = k₁
  dsimp only
  split <;> split <;> split <;> rfl

theorem freeTables_granted {h : H} {m : Ram} {directory : UInt32} (n : Nat)
    (granted : laws.granted (freeTables A h m directory n)) : laws.granted h := by
  induction n with
  | zero => exact granted
  | succ n ih => exact ih (laws.free_granted _ _ granted)

theorem taskFree_granted {k : Kernel H} {t : UInt32} (granted : laws.granted (taskFree A k t).2.heap) :
    laws.granted k.heap := by
  have back := laws.free_granted _ _ granted
  rw [taskListRemove_heap] at back
  exact freeTables_granted _ (laws.free_granted _ _ (laws.free_granted _ _ back))

/-- The page directory of a new task, all of it under the owner `paging p`. -/
structure TaskSpace (k k' : Kernel H) (o o' : Ledger UInt32 Owner) (p t directory : UInt32)
    (tables : Nat → UInt32) : Prop where
  space : AddressSpace k'.ram (k'.tasks t).pageDirectory directory tables
  linked : OpenDirectory k'.ram directory
  own : ∀ v, walk k'.ram directory v = frame v ||| 5
  pages : ∀ x, OnPages (k'.tasks t).pageDirectory directory tables x →
    o (frame x) = none ∧ o' (frame x) = some (.paging p)
  tasks : ∀ a, a ≠ t → (k'.tasks a).pageDirectory = (k.tasks a).pageDirectory

theorem taskInit_spec {k k' : Kernel H} {t p : UInt32} {res : Int}
    (run : taskInit A k t p = (res, k')) (granted : laws.granted k'.heap) :
    res = 0 ∧ laws.granted k.heap ∧ ∀ o, Books laws k.heap o → ∃ o' directory tables,
      Advance laws k.ram o k'.heap k'.ram o' ∧ TaskSpace k k' o o' p t directory tables ∧
      k' = { k with heap := k'.heap, ram := k'.ram, tasks := k'.tasks } := by
  rcases hp : pagingNew4gb A k.heap k.ram (pagingIsPresent ||| pagingAccessFromAll) with ⟨chunk, h₁, m₁⟩
  have heap : k'.heap = h₁ := by
    simp only [taskInit, hp] at run
    split at run <;> (cases run; rfl)
  have granted₁ : laws.granted
      (pagingNew4gb A k.heap k.ram (pagingIsPresent ||| pagingAccessFromAll)).2.1 := by
    rw [hp, ← heap]
    exact granted
  have nonzero : chunk ≠ 0 := by
    obtain ⟨_, _, _, _, _, _, _, pool, _⟩ := pagingNew4gb_advance granted₁ noBooks .kernel
    rw [hp] at pool
    exact pool.nonzero
  simp only [taskInit, hp, if_neg nonzero] at run
  cases run
  have before : laws.granted k.heap := by
    rw [pagingNew4gb_heap] at granted₁
    exact after_granted pagingRequests granted₁ (Nat.zero_le 1026)
  refine ⟨rfl, before, fun o books => ?_⟩
  obtain ⟨m', o', directory, tables, ram, built, advance, _, pages⟩ :=
    pagingNew4gb_advance granted₁ books (.paging p)
  rw [hp] at ram built advance pages
  dsimp only at ram built advance pages
  subst ram
  refine ⟨o', directory, tables, advance,
    ⟨?_, ?_, fun v => ?_, fun x hx => ?_, fun a ne => ?_⟩, rfl⟩
  · simp only [Kernel.modifyTask, Kernel.setTask, Function.update_self]
    exact built.space
  · exact built.openDirectory (by decide)
  · exact built.walk v
  · simp only [Kernel.modifyTask, Kernel.setTask, Function.update_self] at hx
    exact pages x hx
  · simp only [Kernel.modifyTask, Kernel.setTask, Function.update_of_ne ne]

/-- What `task_new` adds when its requests are granted. -/
structure TaskMade (laws : HeapLaws A F) (k k' : Kernel H) (o o' : Ledger UInt32 Owner)
    (p t : UInt32) : Prop where
  advance : Advance laws k.ram o k'.heap k'.ram o'
  record : NewRun o o' t 1 (.record p)
  space : ∃ directory tables, TaskSpace k k' o o' p t directory tables
  shape : k' = { k with
    heap := k'.heap, ram := k'.ram, tasks := k'.tasks, taskListHead := k'.taskListHead
    taskListTail := k'.taskListTail, currentTask := k'.currentTask }

/-- Appending changes links only. -/
theorem taskListAppend_shape (k : Kernel H) (t : UInt32) :
    (∀ a, ((taskListAppend k t).tasks a).pageDirectory = (k.tasks a).pageDirectory) ∧
      taskListAppend k t = { k with
        tasks := (taskListAppend k t).tasks, taskListHead := (taskListAppend k t).taskListHead
        taskListTail := (taskListAppend k t).taskListTail
        currentTask := (taskListAppend k t).currentTask } := by
  unfold taskListAppend
  split
  · exact ⟨fun _ => rfl, rfl⟩
  · refine ⟨fun a => ?_, rfl⟩
    have keeps (k : Kernel H) (b : UInt32) (f : Task → Task)
        (same : ∀ t, (f t).pageDirectory = t.pageDirectory) :
        ((k.modifyTask b f).tasks a).pageDirectory = (k.tasks a).pageDirectory := by
      by_cases here : a = b
      · simp only [Kernel.modifyTask, here, Function.update_self, same]
      · simp only [Kernel.modifyTask, Function.update_of_ne here]
    dsimp only
    rw [keeps, keeps]
    · exact fun _ => rfl
    · exact fun _ => rfl

/-- The calls of `task_new` when its requests are granted. -/
theorem taskNew_calls {k k' : Kernel H} {t p : UInt32} (run : taskNew A k p = (t, k'))
    (granted : laws.granted k'.heap) :
    ∃ k₁ k₂, k.kZalloc A sizeofTask = (t, k₁) ∧ taskInit A k₁ t p = (0, k₂) ∧ laws.granted k₂.heap ∧
      k' = taskListAppend k₂ t := by
  rcases hz : k.kZalloc A sizeofTask with ⟨task, k₁⟩
  unfold taskNew at run
  rw [hz] at run
  dsimp only at run
  by_cases null : task = 0
  · rw [if_pos null] at run
    obtain ⟨-, rfl⟩ := Prod.mk.inj run
    exact absurd null (Kernel.kZalloc_nonzero hz (taskFree_granted granted))
  · rw [if_neg null] at run
    rcases hi : taskInit A k₁ task p with ⟨res, k₂⟩
    rw [hi] at run
    dsimp only at run
    have granted₂ : laws.granted k₂.heap := by
      by_cases failed : res ≠ peachosAllOk
      · rw [if_pos failed] at run
        by_cases negative : res < 0
        · rw [if_pos negative] at run
          obtain ⟨-, rfl⟩ := Prod.mk.inj run
          exact taskFree_granted granted
        · rw [if_neg negative] at run
          obtain ⟨-, rfl⟩ := Prod.mk.inj run
          exact granted
      · rw [if_neg failed] at run
        obtain ⟨-, rfl⟩ := Prod.mk.inj run
        rwa [(taskListAppend_shape k₂ task).2] at granted
    obtain ⟨rfl, _⟩ := taskInit_spec hi granted₂
    rw [if_neg (by decide)] at run
    obtain ⟨rfl, rfl⟩ := Prod.mk.inj run
    exact ⟨k₁, k₂, rfl, hi, granted₂, rfl⟩

theorem taskNew_spec {k k' : Kernel H} {t p : UInt32} (run : taskNew A k p = (t, k'))
    (granted : laws.granted k'.heap) :
    laws.granted k.heap ∧ ∀ o, Books laws k.heap o → ∃ o', TaskMade laws k k' o o' p t := by
  obtain ⟨k₁, k₂, hz, hi, granted₂, rfl⟩ := taskNew_calls run granted
  obtain ⟨_, granted₁, made⟩ := taskInit_spec hi granted₂
  refine ⟨Kernel.kZalloc_granted hz granted₁, fun o books => ?_⟩
  obtain ⟨o₁, alloc, record, shape⟩ := Kernel.kZalloc_advance hz granted₁ books (.record p)
  obtain ⟨o₂, directory, tables, advance, space, shape₂⟩ := made o₁ alloc.books
  have one : blocksNeeded sizeofTask = 1 := by decide
  rw [one] at record
  have record' := record.mono (Extends.refl o) advance.grown
  obtain ⟨links, listed⟩ := taskListAppend_shape k₂ t
  have ram : (taskListAppend k₂ t).ram = k₂.ram := by rw [listed]
  have heap : (taskListAppend k₂ t).heap = k₂.heap := by rw [listed]
  refine ⟨o₂, ?_, record', ⟨directory, tables, ?_, ?_, ?_, ?_, ?_⟩, ?_⟩
  · rw [ram, heap]
    exact alloc.trans advance
  · rw [ram, links]
    exact space.space
  · rw [ram]
    exact space.linked
  · rw [ram]
    exact space.own
  · intro x hx
    rw [links] at hx
    exact ⟨alloc.grown.free (space.pages x hx).1, (space.pages x hx).2⟩
  · intro a ne
    rw [links, space.tasks a ne, shape]
  · rw [listed, shape₂, shape]

/-! ## The two windows -/

theorem pagingAlignAddres_toNat {a : UInt32} (fit : a.toNat + 4095 < 2 ^ 32) :
    (pagingAlignAddres a).toNat = (a.toNat + 4095) / 4096 * 4096 := by
  have small : (a % pageSizeInBytes).toNat = a.toNat % 4096 := by
    rw [UInt32.toNat_mod]
    rfl
  unfold pagingAlignAddres
  split
  · rename_i rest
    have ne : a.toNat % 4096 ≠ 0 := by
      rw [← small]
      exact fun zero => rest (UInt32.toNat_inj.mp zero)
    have le : (a % pageSizeInBytes).toNat ≤ pageSizeInBytes.toNat := by
      rw [small]
      exact Nat.le_of_lt (Nat.mod_lt _ (by decide))
    have page : pageSizeInBytes.toNat = 4096 := by decide
    rw [UInt32.toNat_add, UInt32.toNat_sub_of_le _ _ (UInt32.le_iff_toNat_le.mpr le), small, page]
    omega
  · rename_i exact
    have zero : a.toNat % 4096 = 0 := by
      rw [← small, not_not.mp exact]
      rfl
    omega

/-- A run of blocks is mapped page by page: as many pages as it has blocks. -/
theorem mapRun_spec {m : Ram} {chunk directory : UInt32} {tables : Nat → UInt32}
    (space : AddressSpace m chunk directory tables) (virt : UInt32) {ptr : UInt32} (size : UInt32)
    (virt_aligned : virt % 4096 = 0) (virt_low : virt.toNat ≤ 0x400000) (aligned : ptr % 4096 = 0)
    (high : ptr.toNat + 4096 * blocksNeeded size ≤ 0x7400000) :
    ∃ m', pagingMapTo m chunk virt ptr (pagingAlignAddres (ptr + size)) userWriteable = (0, m') ∧
      RangeMapped m m' chunk directory tables virt ptr (blocksNeeded size) userWriteable := by
  have haligned := aligned_toNat.mp aligned
  have cover : size.toNat ≤ 4096 * blocksNeeded size := by
    unfold blocksNeeded
    omega
  have sum : (ptr + size).toNat = ptr.toNat + size.toNat := by
    rw [UInt32.toNat_add]
    omega
  have last : (pagingAlignAddres (ptr + size)).toNat = ptr.toNat + 4096 * blocksNeeded size := by
    rw [pagingAlignAddres_toNat (by omega), sum]
    unfold blocksNeeded
    omega
  have pages : pagesBetween ptr (pagingAlignAddres (ptr + size)) = blocksNeeded size := by
    unfold pagesBetween
    rw [last]
    omega
  rw [← pages]
  apply pagingMapTo_spec space userWriteable virt_aligned aligned
  · rw [aligned_toNat, last]
    omega
  · rw [UInt32.le_iff_toNat_le, last]
    omega
  · rw [last]
    omega

/-- The entry of `v` in the directory of a loaded process. -/
def loadedEntry (process : Process) (v : UInt32) : UInt32 :=
  if InWindow v peachosProgramStackVirtualAddressEnd 4 then
    (frame v - peachosProgramStackVirtualAddressEnd + process.stack) ||| .ofInt userWriteable
  else if InWindow v peachosProgramVirtualAddress (blocksNeeded process.size) then
    (frame v - peachosProgramVirtualAddress + process.ptr) ||| .ofInt userWriteable
  else frame v ||| 5

theorem HasRun.bounds {o o' : Ledger UInt32 Owner} {ptr size : UInt32} {l : Owner}
    (run : HasRun o o' ptr size l) :
    ptr % 4096 = 0 ∧ ptr.toNat + 4096 * blocksNeeded size ≤ 0x7400000 := by
  rcases run with ⟨rfl, rfl⟩ | new
  · decide
  · exact ⟨new.pool.aligned, new.pool.high⟩

theorem processMapBinary_run {k : Kernel H} {p : UInt32} {res : Int} {m : Ram}
    (run : pagingMapTo k.ram (k.tasks (k.procs p).task).pageDirectory peachosProgramVirtualAddress (k.procs p).ptr
      (pagingAlignAddres ((k.procs p).ptr + (k.procs p).size)) userWriteable = (res, m)) :
    processMapBinary k p = (res, { k with ram := m }) := by
  rw [processMapBinary, run]

/-- Once the program is mapped the stack is. -/
theorem processMapMemory_run {k : Kernel H} {p : UInt32} {res : Int} {m₁ m₂ : Ram}
    (binary : processMapBinary k p = (0, { k with ram := m₁ }))
    (run : pagingMapTo m₁ (k.tasks (k.procs p).task).pageDirectory peachosProgramStackVirtualAddressEnd
      (k.procs p).stack (pagingAlignAddres ((k.procs p).stack + peachosUserProgramStackSize)) userWriteable =
        (res, m₂)) :
    processMapMemory k p = (res, { k with ram := m₂ }) := by
  unfold processMapMemory
  rw [binary]
  simp only [Int.lt_irrefl, if_false, run]

theorem processMapBinary_shape (k : Kernel H) (p : UInt32) :
    (processMapBinary k p).2 = { k with ram := (processMapBinary k p).2.ram } := rfl

/-- Mapping changes memory only. -/
theorem processMapMemory_shape (k : Kernel H) (p : UInt32) :
    (processMapMemory k p).2 = { k with ram := (processMapMemory k p).2.ram } := by
  have first := processMapBinary_shape k p
  unfold processMapMemory
  generalize processMapBinary k p = binary at first ⊢
  obtain ⟨res, k₁⟩ := binary
  dsimp only at first ⊢
  split
  · exact first
  · rw [first]

theorem processMapMemory_heap (k : Kernel H) (p : UInt32) :
    (processMapMemory k p).2.heap = k.heap := by
  rw [processMapMemory_shape]

theorem processMapMemory_spec {k : Kernel H} {p directory : UInt32} {tables : Nat → UInt32}
    (space : AddressSpace k.ram (k.tasks (k.procs p).task).pageDirectory directory tables)
    (own : ∀ v, walk k.ram directory v = frame v ||| 5)
    (program : (k.procs p).ptr % 4096 = 0 ∧
      (k.procs p).ptr.toNat + 4096 * blocksNeeded (k.procs p).size ≤ 0x7400000)
    (stack : (k.procs p).stack % 4096 = 0 ∧ (k.procs p).stack.toNat + 4096 * 4 ≤ 0x7400000) :
    ∃ m', processMapMemory k p = (0, { k with ram := m' }) ∧
      AddressSpace m' (k.tasks (k.procs p).task).pageDirectory directory tables ∧
      Agree (fun x => ∀ i < 1024, frame x ≠ tables i) k.ram m' ∧
      ∀ v, walk m' directory v = loadedEntry (k.procs p) v := by
  obtain ⟨m₁, first, mapped⟩ := mapRun_spec space peachosProgramVirtualAddress (k.procs p).size
    (by decide) (by decide) program.1 program.2
  have four : blocksNeeded peachosUserProgramStackSize = 4 := by decide
  obtain ⟨m₂, second, mapped'⟩ := mapRun_spec mapped.space peachosProgramStackVirtualAddressEnd
    peachosUserProgramStackSize (by decide) (by decide) stack.1 (by
      rw [four]
      exact stack.2)
  rw [four] at mapped'
  refine ⟨m₂, ?_, mapped'.space, mapped.others.trans mapped'.others, fun v => ?_⟩
  · exact processMapMemory_run (processMapBinary_run first) second
  · rw [mapped'.walk, mapped.walk, own, loadedEntry]

/-! ## The new process -/

/-- What a successful load adds: the process `p` with its blocks and directory. -/
structure ProcessMade (laws : HeapLaws A F) (k k' : Kernel H) (o o' : Ledger UInt32 Owner)
    (p : UInt32) : Prop where
  advance : Advance laws k.ram o k'.heap k'.ram o'
  program : HasRun o o' (k'.procs p).ptr (k'.procs p).size (.run p)
  stack : NewRun o o' (k'.procs p).stack 4 (.run p)
  task : NewRun o o' (k'.procs p).task 1 (.record p)
  space : ∃ directory tables,
    AddressSpace k'.ram (k'.tasks (k'.procs p).task).pageDirectory directory tables ∧
    OpenDirectory k'.ram directory ∧
    (∀ v, walk k'.ram directory v = loadedEntry (k'.procs p) v) ∧
    ∀ x, OnPages (k'.tasks (k'.procs p).task).pageDirectory directory tables x →
      o (frame x) = none ∧ o' (frame x) = some (.paging p)
  procs : ∀ a, a ≠ p → k'.procs a = k.procs a
  tasks : ∀ a, a ≠ (k'.procs p).task → (k'.tasks a).pageDirectory = (k.tasks a).pageDirectory
  chunk : k'.kernelPageChunk = k.kernelPageChunk

theorem error_small {t : UInt32} {blocks : Nat} (pool : InPool t blocks) : errorI t ≠ 0 := by
  have low := pool.low
  have high := pool.high
  unfold errorI
  rw [Int.bmod_def]
  omega

/-- The calls that fill a slot once the program's data is there. -/
theorem processFillSlot_calls {k k' k₁ : Kernel H} {filename : List UInt8} {process p out : UInt32}
    {slot res r : Int} (data : processLoadData A F k filename p = (r, k₁)) (read : 0 ≤ r)
    (run : processFillSlot A F k filename process p slot = (res, out, k'))
    (granted : laws.granted k'.heap) :
    ∃ stack k₂ t k₃ r' k₄, k₁.kZalloc A peachosUserProgramStackSize = (stack, k₂) ∧
      taskNew A (k₂.modifyProc p fun q => { q with
        filename := filename.take (peachosMaxPathLength - 1), stack, id := .ofInt slot }) p = (t, k₃) ∧
      processMapMemory (k₃.modifyProc p fun q => { q with task := t }) p = (r', k₄) ∧
      laws.granted k₃.heap ∧
      (res, out, k') = if r' < 0 then (r', process, k₄)
        else (r', p, { k₄ with processes := update k₄.processes slot.toNat p }) := by
  unfold processFillSlot at run
  rw [data] at run
  dsimp only at run
  rw [if_neg (by omega)] at run
  rcases hs : k₁.kZalloc A peachosUserProgramStackSize with ⟨stack, k₂⟩
  rw [hs] at run
  dsimp only at run
  by_cases null : stack = 0
  · rw [if_pos null] at run
    obtain ⟨-, rfl⟩ := Prod.mk.inj (Prod.mk.inj run).2
    exact absurd null (Kernel.kZalloc_nonzero hs granted)
  rw [if_neg null] at run
  rcases ht : taskNew A (k₂.modifyProc p fun q => { q with
      filename := filename.take (peachosMaxPathLength - 1), stack, id := .ofInt slot }) p with ⟨t, k₃⟩
  rw [ht] at run
  dsimp only at run
  by_cases missing : errorI t = 0
  · rw [if_pos missing] at run
    obtain ⟨-, rfl⟩ := Prod.mk.inj (Prod.mk.inj run).2
    obtain ⟨_, task⟩ := (taskNew_spec ht granted).2 _ noBooks
    exact absurd missing (error_small task.record.pool)
  rw [if_neg missing] at run
  have kept := processMapMemory_heap (k₃.modifyProc p fun q => { q with task := t }) p
  rcases hm : processMapMemory (k₃.modifyProc p fun q => { q with task := t }) p with ⟨r', k₄⟩
  rw [hm] at run kept
  dsimp only at run kept
  refine ⟨stack, k₂, t, k₃, r', k₄, rfl, ht, hm, ?_, run.symm⟩
  have same : k₄.heap = k₃.heap := kept
  rw [← same]
  split at run
  · obtain ⟨-, rfl⟩ := Prod.mk.inj (Prod.mk.inj run).2
    exact granted
  · obtain ⟨-, rfl⟩ := Prod.mk.inj (Prod.mk.inj run).2
    exact granted

/-- What filling a slot adds to the kernel `k₁` that has the program's data. -/
structure SlotMade (laws : HeapLaws A F) (k₁ k' : Kernel H) (o₁ o' : Ledger UInt32 Owner) (p : UInt32) : Prop where
  advance : Advance laws k₁.ram o₁ k'.heap k'.ram o'
  stack : NewRun o₁ o' (k'.procs p).stack 4 (.run p)
  cleared : ∀ i < 16384, k'.ram ((k'.procs p).stack + .ofNat i) = 0
  task : NewRun o₁ o' (k'.procs p).task 1 (.record p)
  space : ∃ directory tables,
    AddressSpace k'.ram (k'.tasks (k'.procs p).task).pageDirectory directory tables ∧
    OpenDirectory k'.ram directory ∧
    (∀ v, walk k'.ram directory v = loadedEntry (k'.procs p) v) ∧
    ∀ x, OnPages (k'.tasks (k'.procs p).task).pageDirectory directory tables x →
      o₁ (frame x) = none ∧ o' (frame x) = some (.paging p)
  program : (k'.procs p).ptr = (k₁.procs p).ptr ∧ (k'.procs p).size = (k₁.procs p).size
  procs : ∀ a, a ≠ p → k'.procs a = k₁.procs a
  tasks : ∀ a, a ≠ (k'.procs p).task → (k'.tasks a).pageDirectory = (k₁.tasks a).pageDirectory
  chunk : k'.kernelPageChunk = k₁.kernelPageChunk

theorem kZalloc_cleared {k k' : Kernel H} {n ptr : UInt32} (run : k.kZalloc A n = (ptr, k')) (some : ptr ≠ 0) :
    ∀ i < n.toNat, k'.ram (ptr + .ofNat i) = 0 := by
  simp only [Kernel.kZalloc, kZalloc] at run
  split at run
  · exact absurd (Prod.mk.inj run).1.symm some
  · obtain ⟨rfl, rfl⟩ := Prod.mk.inj run
    exact fun i hi => memset_bytes k.ram _ 0 (Nat.le_of_lt n.toNat_lt) hi

/-- A process whose data is there gets its stack, its task and its windows. -/
theorem processFillSlot_made {k k' k₁ : Kernel H} {filename : List UInt8} {process p out : UInt32}
    {slot res r : Int} (data : processLoadData A F k filename p = (r, k₁)) (read : 0 ≤ r)
    (run : processFillSlot A F k filename process p slot = (res, out, k'))
    (granted : laws.granted k'.heap) (program : (k₁.procs p).ptr % 4096 = 0 ∧
      (k₁.procs p).ptr.toNat + 4096 * blocksNeeded (k₁.procs p).size ≤ 0x7400000) :
    (res = 0 ∧ out = p ∧ laws.granted k₁.heap ∧ k'.processes = update k₁.processes slot.toNat p) ∧
      ∀ o₁, Books laws k₁.heap o₁ → ∃ o', SlotMade laws k₁ k' o₁ o' p := by
  obtain ⟨stack, k₂, t, k₃, r', k₄, hs, ht, hm, granted₃, result⟩ :=
    processFillSlot_calls data read run granted
  obtain ⟨granted₂, made⟩ := taskNew_spec ht granted₃
  have granted₁ : laws.granted k₁.heap := Kernel.kZalloc_granted hs granted₂
  have step (o₁ : Ledger UInt32 Owner) (books : Books laws k₁.heap o₁) :
      (res = 0 ∧ out = p ∧ k'.processes = update k₁.processes slot.toNat p) ∧
        ∃ o', SlotMade laws k₁ k' o₁ o' p := by
    obtain ⟨o₂, alloc, stackRun, shape₂⟩ := Kernel.kZalloc_advance hs granted₂ books (.run p)
    obtain ⟨o₃, task⟩ := made o₂ alloc.books
    obtain ⟨directory, tables, space⟩ := task.space
    rw [show blocksNeeded peachosUserProgramStackSize = 4 by decide] at stackRun
    have procs₂ : k₂.procs = k₁.procs := by rw [shape₂]
    obtain ⟨k₅, here⟩ : ∃ k₅, k₅ = k₃.modifyProc p fun q => { q with task := t } := ⟨_, rfl⟩
    rw [← here] at hm
    have record : k₅.procs p = { k₁.procs p with
        id := .ofInt slot, filename := filename.take (peachosMaxPathLength - 1), task := t, stack } := by
      rw [here, task.shape]
      simp only [Kernel.modifyProc, Function.update_self, procs₂]
    have others (a : UInt32) (ne : a ≠ p) : k₅.procs a = k₁.procs a := by
      rw [here, task.shape]
      simp only [Kernel.modifyProc, Function.update_of_ne ne, procs₂]
    have tasks : k₅.tasks = k₃.tasks := by rw [here]; rfl
    have ram : k₅.ram = k₃.ram := by rw [here]; rfl
    have linked : AddressSpace k₅.ram (k₅.tasks (k₅.procs p).task).pageDirectory directory tables := by
      rw [record, tasks, ram]
      exact space.space
    obtain ⟨m', mapRun, mapped, off, entries⟩ := processMapMemory_spec linked (ram ▸ space.own)
      (by rw [record]; exact program)
      (by rw [record]; exact ⟨stackRun.pool.aligned, stackRun.pool.high⟩)
    obtain ⟨rfl, rfl⟩ := Prod.mk.inj (hm.symm.trans mapRun)
    rw [if_neg (by decide)] at result
    obtain ⟨zero', tail⟩ := Prod.mk.inj result
    obtain ⟨out', same⟩ := Prod.mk.inj tail
    have ram' : k'.ram = m' := by rw [same]
    have procs' : k'.procs = k₅.procs := by rw [same]
    have tasks' : k'.tasks = k₃.tasks := by rw [same, ← tasks]
    have heap' : k'.heap = k₃.heap := by rw [same, here]; rfl
    have at_p : k'.procs p = k₅.procs p := by rw [procs']
    -- the windows are mapped in tables that had no owner before the task
    have windows : Agree (fun x => o₂ (frame x) ≠ none) k₂.ram k'.ram := by
      intro x hx
      rw [ram', off x fun i hi on => hx (space.pages x (Or.inr (Or.inr ⟨i, hi, on⟩))).1, ram]
      exact task.advance.kept x hx
    have kept : Agree (fun x => o₁ (frame x) ≠ none) k₁.ram k'.ram :=
      alloc.kept.trans (windows.mono fun x hx => alloc.grown.owned hx)
    refine ⟨⟨zero', out', ?_⟩, o₃, ⟨?_, ?_, ?_, ?_, ⟨directory, tables, ?_, ?_, ?_, ?_⟩, ?_, ?_, ?_, ?_⟩⟩
    · rw [same, here, task.shape, Kernel.modifyProc, Kernel.modifyProc, shape₂]
    · exact ⟨heap' ▸ task.advance.books, alloc.grown.trans task.advance.grown, kept⟩
    · rw [at_p, record]
      exact stackRun.mono (Extends.refl o₁) task.advance.grown
    · intro i hi
      rw [at_p, record]
      have inside : InRange (stack + .ofNat i) stack (4096 * 4) := (inRange_add (by omega)).mpr hi
      have owned : o₂ (frame (stack + .ofNat i)) ≠ none := by
        rw [stackRun.labelled _ inside]
        exact Option.some_ne_none _
      exact (windows _ owned).trans (kZalloc_cleared hs stackRun.pool.nonzero i hi)
    · rw [at_p, record]
      exact task.record.mono alloc.grown (Extends.refl o₃)
    · rw [ram', at_p, tasks', ← tasks]
      exact mapped
    · rw [ram']
      refine (ram ▸ space.linked).of_agree off space.space.directory_aligned fun x hx i hi on => ?_
      exact (space.space.table_apart i hi).1 (on.symm.trans hx)
    · rw [ram', at_p]
      exact entries
    · intro x hx
      rw [at_p, tasks', record] at hx
      exact ⟨alloc.grown.free (space.pages x hx).1, (space.pages x hx).2⟩
    · rw [at_p, record]
      exact ⟨rfl, rfl⟩
    · intro a ne
      rw [procs']
      exact others a ne
    · intro a ne
      rw [tasks', space.tasks a (by rwa [at_p, record] at ne), Kernel.modifyProc, shape₂]
    · rw [same, here, task.shape, Kernel.modifyProc, Kernel.modifyProc, shape₂]
  obtain ⟨⟨res_zero, out_p, processes⟩, _⟩ := step _ noBooks
  exact ⟨⟨res_zero, out_p, granted₁, processes⟩, fun o books => (step o books).2⟩

theorem processFillSlot_spec {k k' : Kernel H} {filename : List UInt8} {process p out : UInt32}
    {slot res : Int} (run : processFillSlot A F k filename process p slot = (res, out, k'))
    (granted : laws.granted k'.heap) (zero : k.procs p = Process.zero)
    (read : 0 ≤ (processLoadData A F k filename p).1) :
    (res = 0 ∧ out = p ∧ laws.granted k.heap ∧
      (k'.procs p).size = ((processLoadData A F k filename p).2.procs p).size) ∧
      ∀ o, Books laws k.heap o → ∃ o',
        ProcessMade laws k k' o o' p ∧ k'.processes = update k.processes slot.toNat p := by
  rcases hl : processLoadData A F k filename p with ⟨r, k₁⟩
  rw [hl] at read
  obtain ⟨_, _, _, _, _, _, hs, ht, _, granted₃, _⟩ := processFillSlot_calls hl read run granted
  have granted₁ : laws.granted k₁.heap := Kernel.kZalloc_granted hs (taskNew_spec ht granted₃).1
  obtain ⟨granted₀, load⟩ := processLoadBinary_spec hl granted₁ read (by rw [zero]; rfl)
    (by rw [zero]; rfl)
  have bounds : (k₁.procs p).ptr % 4096 = 0 ∧
      (k₁.procs p).ptr.toNat + 4096 * blocksNeeded (k₁.procs p).size ≤ 0x7400000 := by
    obtain ⟨_, loaded⟩ := load _ noBooks
    obtain ⟨ptr, size, procs₁, program⟩ := loaded.record
    rw [procs₁, Function.update_self]
    exact program.bounds
  obtain ⟨⟨res_zero, out_p, -, processes⟩, made⟩ := processFillSlot_made hl read run granted bounds
  have size : (k'.procs p).size = (k₁.procs p).size := (made _ noBooks).choose_spec.program.2
  refine ⟨⟨res_zero, out_p, granted₀, size⟩, fun o books => ?_⟩
  obtain ⟨o₁, loaded⟩ := load o books
  obtain ⟨o', slotMade⟩ := made o₁ loaded.advance.books
  obtain ⟨ptr, size₁, procs₁, program⟩ := loaded.record
  obtain ⟨directory, tables, space, linked, entries, pages⟩ := slotMade.space
  have grown := loaded.advance.grown
  refine ⟨o', ⟨loaded.advance.trans slotMade.advance, ?_, slotMade.stack.mono grown (Extends.refl o'),
    slotMade.task.mono grown (Extends.refl o'), ⟨directory, tables, space, linked, entries, fun x hx => ?_⟩,
    fun a ne => ?_, fun a ne => ?_, ?_⟩, ?_⟩
  · rw [slotMade.program.1, slotMade.program.2, procs₁, Function.update_self]
    exact program.mono (Extends.refl o) slotMade.advance.grown
  · exact ⟨grown.free (pages x hx).1, (pages x hx).2⟩
  · rw [slotMade.procs a ne, procs₁, Function.update_of_ne ne]
  · rw [slotMade.tasks a ne, loaded.shape]
  · rw [slotMade.chunk, loaded.shape]
  · rw [processes, loaded.shape]

theorem freeSlotFrom_spec (k : Kernel H) (left i : Nat) :
    (freeSlotFrom k left i = -eistkn ∧ ∀ j, i ≤ j → j < i + left → k.processes j ≠ 0) ∨
      ∃ j, i ≤ j ∧ j < i + left ∧ k.processes j = 0 ∧ freeSlotFrom k left i = j := by
  induction left generalizing i with
  | zero => exact Or.inl ⟨rfl, fun j lo hi => absurd hi (by omega)⟩
  | succ left ih =>
    unfold freeSlotFrom
    by_cases free : k.processes i = 0
    · rw [if_pos free]
      exact Or.inr ⟨i, Nat.le_refl i, by omega, free, rfl⟩
    · rw [if_neg free]
      rcases ih (i + 1) with ⟨none, full⟩ | ⟨j, lo, hi, empty, value⟩
      · refine Or.inl ⟨none, fun j lo hi => ?_⟩
        by_cases first : j = i
        · rwa [first]
        · exact full j (by omega) (by omega)
      · exact Or.inr ⟨j, by omega, by omega, empty, value⟩

theorem processGetFreeSlot_found {k : Kernel H} (free : ∃ slot < peachosMaxProcesses, k.processes slot = 0) :
    0 ≤ processGetFreeSlot k := by
  obtain ⟨slot, inside, empty⟩ := free
  rcases freeSlotFrom_spec k peachosMaxProcesses 0 with ⟨_, full⟩ | ⟨j, _, _, _, value⟩
  · exact absurd empty (full slot (Nat.zero_le slot) (by omega))
  · rw [show processGetFreeSlot k = j from value]
    omega

/-- Filling a slot fails at once when the data cannot be read. -/
theorem processFillSlot_unread {k : Kernel H} (filename : List UInt8) (process p : UInt32) (slot : Int)
    (failed : (processLoadData A F k filename p).1 < 0) :
    processFillSlot A F k filename process p slot =
      ((processLoadData A F k filename p).1, process, (processLoadData A F k filename p).2) := by
  unfold processFillSlot
  rcases hl : processLoadData A F k filename p with ⟨r, k₁⟩
  rw [hl] at failed
  dsimp only
  rw [if_pos failed]

theorem processFillSlot_granted {k k' : Kernel H} {filename : List UInt8} {process p out : UInt32} {slot res : Int}
    (run : processFillSlot A F k filename process p slot = (res, out, k')) (granted : laws.granted k'.heap) :
    laws.granted (processLoadData A F k filename p).2.heap := by
  by_cases failed : (processLoadData A F k filename p).1 < 0
  · rw [processFillSlot_unread filename process p slot failed] at run
    obtain ⟨-, rfl⟩ := Prod.mk.inj (Prod.mk.inj run).2
    exact granted
  · obtain ⟨_, _, _, _, _, _, hs, ht, _, granted₃, _⟩ :=
      processFillSlot_calls (Prod.eta _).symm (Int.not_lt.mp failed) run granted
    exact Kernel.kZalloc_granted hs (taskNew_spec ht granted₃).1

/-- The calls of a load up to the filling of its slot. -/
theorem processLoad_calls {k k' : Kernel H} {filename : List UInt8} {process out : UInt32} {res : Int}
    (run : processLoad A F k filename process = (res, out, k')) (granted : laws.granted k'.heap)
    (found : 0 ≤ processGetFreeSlot k) :
    ∃ (slot : Nat) (p : UInt32) (k₁ : Kernel H) (r : Int) (k₂ : Kernel H),
      slot < peachosMaxProcesses ∧ k.processes slot = 0 ∧ k.kZalloc A sizeofProcess = (p, k₁) ∧
      processFillSlot A F (k₁.modifyProc p fun _ => Process.zero) filename process p slot =
        (r, out, k₂) ∧ res = r ∧ laws.granted k₂.heap ∧ (0 ≤ r → k' = k₂) := by
  unfold processLoad at run
  dsimp only at run
  rcases freeSlotFrom_spec k peachosMaxProcesses 0 with ⟨full, _⟩ | ⟨slot, _, inside, empty, value⟩
  · rw [show processGetFreeSlot k = -eistkn from full] at found
    exact absurd found (by decide)
  rw [show processGetFreeSlot k = slot from value, if_neg (by omega)] at run
  unfold processLoadForSlot at run
  have twelve : peachosMaxProcesses = 12 := rfl
  have free : processGet k slot = 0 := by
    unfold processGet
    rw [if_neg (by omega), Int.toNat_natCast]
    exact empty
  rw [if_neg (not_not.mpr free)] at run
  rcases hz : k.kZalloc A sizeofProcess with ⟨p, k₁⟩
  rw [hz] at run
  dsimp only at run
  by_cases null : p = 0
  · rw [if_pos null] at run
    obtain ⟨-, rfl⟩ := Prod.mk.inj (Prod.mk.inj run).2
    exact absurd null (Kernel.kZalloc_nonzero hz granted)
  rw [if_neg null] at run
  rcases hf : processFillSlot A F (k₁.modifyProc p fun _ => Process.zero) filename process p slot
    with ⟨r, out', k₂⟩
  rw [hf] at run
  dsimp only at run
  obtain ⟨same, tail⟩ := Prod.mk.inj run
  obtain ⟨same', kernel⟩ := Prod.mk.inj tail
  refine ⟨slot, p, k₁, r, k₂, by omega, empty, rfl, same' ▸ hf, same.symm, ?_, fun ok => ?_⟩
  · split at kernel
    · rw [← kernel] at granted
      exact taskFree_granted granted
    · rwa [← kernel] at granted
  · rw [if_neg fun failed => absurd failed.1 (by omega)] at kernel
    exact kernel.symm

theorem processLoad_found {k k' : Kernel H} {filename : List UInt8} {process p : UInt32}
    (run : processLoad A F k filename process = (0, p, k')) : 0 ≤ processGetFreeSlot k := by
  by_contra full
  unfold processLoad at run
  dsimp only at run
  rw [if_pos (by omega)] at run
  exact absurd (Prod.mk.inj run).1 (by decide)

/-- **A successful `process_load`** puts a new process in a free slot. -/
theorem processLoad_spec {k k' : Kernel H} {filename : List UInt8} {process p : UInt32}
    (run : processLoad A F k filename process = (0, p, k')) (granted : laws.granted k'.heap) :
    laws.granted k.heap ∧ (∃ slot < peachosMaxProcesses, k.processes slot = 0 ∧
      k'.processes = update k.processes slot p) ∧
      ∀ o, Books laws k.heap o → ∃ o', ProcessMade laws k k' o o' p ∧ NewRun o o' p 2 (.record p) := by
  have found := processLoad_found run
  obtain ⟨slot, ptr, k₁, r, k₂, inside, empty, hz, hf, rfl, granted₂, same⟩ :=
    processLoad_calls run granted found
  obtain rfl := same (Int.le_refl 0)
  have read : 0 ≤ (processLoadData A F (k₁.modifyProc ptr fun _ => Process.zero) filename ptr).1 := by
    by_contra failed
    rw [processFillSlot_unread filename process ptr slot (by omega)] at hf
    have negative := (Prod.mk.inj hf).1
    omega
  obtain ⟨⟨-, rfl, granted₁, -⟩, filled⟩ :=
    processFillSlot_spec hf granted₂ (Function.update_self ptr _ _) read
  have granted₁ : laws.granted k₁.heap := granted₁
  refine ⟨Kernel.kZalloc_granted hz granted₁, ⟨slot, inside, empty, ?_⟩, fun o books => ?_⟩
  · obtain ⟨_, alloc, _, shape⟩ := Kernel.kZalloc_advance hz granted₁ noBooks (.record p)
    obtain ⟨_, _, processes⟩ := filled _ noBooks
    have before : k₁.processes = k.processes := by rw [shape]
    rw [processes, Int.toNat_natCast]
    exact congrArg (update · slot p) before
  · obtain ⟨o₁, alloc, record, shape⟩ := Kernel.kZalloc_advance hz granted₁ books (.record p)
    obtain ⟨o₂, made, _⟩ := filled o₁ alloc.books
    rw [show blocksNeeded sizeofProcess = 2 by decide] at record
    have procs : k₁.procs = k.procs := by rw [shape]
    have tasks : k₁.tasks = k.tasks := by rw [shape]
    have chunk : k₁.kernelPageChunk = k.kernelPageChunk := by rw [shape]
    obtain ⟨directory, tables, space, linked, entries, pages⟩ := made.space
    refine ⟨o₂, ⟨alloc.trans made.advance, made.program.mono alloc.grown (Extends.refl o₂),
      made.stack.mono alloc.grown (Extends.refl o₂), made.task.mono alloc.grown (Extends.refl o₂),
      ⟨directory, tables, space, linked, entries, fun x hx => ?_⟩, fun a ne => ?_, fun a ne => ?_,
      made.chunk.trans chunk⟩, record.mono (Extends.refl o) made.advance.grown⟩
    · exact ⟨alloc.grown.free (pages x hx).1, (pages x hx).2⟩
    · rw [made.procs a ne, ← procs]
      exact Function.update_of_ne ne _ _
    · rw [made.tasks a ne, ← tasks]
      rfl

/-! ## Loads that succeed -/

/-- The file can be opened, has `size` bytes and can be read, whatever state the
kernel is in. -/
structure Readable (F : FileOps H) (filename : List UInt8) (size : UInt32) : Prop where
  fopen : ∀ h m, (F.fopen h m filename [114]).1 ≠ 0
  fstat : ∀ h m fd, (F.fstat h m fd).1 = (0, size)
  fread : ∀ h m ptr fd, (F.fread h m ptr size 1 fd).1 = 1

variable {filename : List UInt8} {size : UInt32}

theorem processReadBinary_returns (readable : Readable F filename size) (k : Kernel H) (fd : Int)
    (p : UInt32) (granted : laws.granted (processReadBinary A F k fd p).2.heap) :
    (processReadBinary A F k fd p).1 = 0 ∧
      ((processReadBinary A F k fd p).2.procs p).size = size := by
  have stat := readable.fstat k.heap k.ram fd
  rcases hs : F.fstat k.heap k.ram fd with ⟨⟨r, n⟩, h₁, m₁⟩
  rw [hs] at stat
  obtain ⟨rfl, rfl⟩ := Prod.mk.inj stat
  unfold processReadBinary at granted ⊢
  rw [hs] at granted ⊢
  dsimp only at granted ⊢
  rw [if_neg (by decide)] at granted ⊢
  rcases hz : Kernel.kZalloc A { k with heap := h₁, ram := m₁ } n with ⟨ptr, k₁⟩
  rw [hz] at granted
  dsimp only at granted ⊢
  by_cases null : ptr = 0
  · rw [if_pos null] at granted
    exact absurd null (Kernel.kZalloc_nonzero hz granted)
  · have read := readable.fread k₁.heap k₁.ram ptr fd
    rw [if_neg null, if_neg (not_not.mpr read)]
    exact ⟨rfl, by simp only [Kernel.modifyProc, Function.update_self]⟩

theorem processLoadData_returns (readable : Readable F filename size) (k : Kernel H) (p : UInt32)
    (granted : laws.granted (processLoadData A F k filename p).2.heap) :
    (processLoadData A F k filename p).1 = 0 ∧
      ((processLoadData A F k filename p).2.procs p).size = size := by
  have opened := readable.fopen k.heap k.ram
  rcases ho : F.fopen k.heap k.ram filename [114] with ⟨fd, h₁, m₁⟩
  rw [ho] at opened
  unfold processLoadData processLoadBinary at granted ⊢
  rw [ho] at granted ⊢
  dsimp only at granted ⊢
  rw [if_neg opened] at granted ⊢
  exact processReadBinary_returns readable { k with heap := h₁, ram := m₁ } fd p
    ((laws.fclose _ _ fd).granted granted)

/-- With a free slot, a file that can be read and every request granted, a load succeeds. -/
theorem processLoad_returns (readable : Readable F filename size) {k : Kernel H} {process : UInt32}
    (free : ∃ slot < peachosMaxProcesses, k.processes slot = 0)
    (granted : laws.granted (processLoad A F k filename process).2.2.heap) :
    ∃ p k', processLoad A F k filename process = (0, p, k') ∧ (k'.procs p).size = size := by
  have found := processGetFreeSlot_found free
  rcases run : processLoad A F k filename process with ⟨res, out, k'⟩
  rw [run] at granted
  obtain ⟨slot, p, k₁, r, k₂, _, _, _, hf, rfl, granted₂, same⟩ := processLoad_calls run granted found
  obtain ⟨read, bytes⟩ := processLoadData_returns readable _ p (processFillSlot_granted hf granted₂)
  obtain ⟨⟨rfl, rfl, _, kept⟩, _⟩ :=
    processFillSlot_spec hf granted₂ (Function.update_self p _ _) (Int.le_of_eq read.symm)
  obtain rfl := same (Int.le_refl 0)
  exact ⟨out, k', rfl, kept.trans bytes⟩

end PeachOs
