import PeachOs.PagingBuild
import PeachOs.Strings

/-!
# Tasks

`task.c`: the task record and the copy of a string out of a task's memory. While
the copy runs the task's directory is active; afterwards the kernel's is, under
which every address is its own.
-/

namespace PeachOs

open Memory Address

structure Registers where
  edi : UInt32
  esi : UInt32
  ebp : UInt32
  ebx : UInt32
  edx : UInt32
  ecx : UInt32
  eax : UInt32
  ip : UInt32
  cs : UInt32
  flags : UInt32
  esp : UInt32
  ss : UInt32

/-- Pointers are addresses; 0 is NULL. -/
structure Task where
  pageDirectory : UInt32
  registers : Registers
  process : UInt32
  next : UInt32
  prev : UInt32

/-- The flags of a mapping that user code may write. -/
def userWriteable : Int :=
  (pagingIsWriteable ||| pagingIsPresent ||| pagingAccessFromAll).toNat

variable {H : Type}

/-- `copy_string_from_task` from the switch to the task's directory on: the copy
under it, the entry put back, and the copy under the kernel's directory. -/
def copySwitched (A : Allocator H) (h : H) (m : Ram) (active taskDirectory tmp oldEntry virtual phy : UInt32)
    (max : Int) : Option (Int × H × Ram) := do
  let m ← strncpy (translate active) m tmp virtual max
  let (res, m) := pagingSet m taskDirectory tmp oldEntry
  if res < 0 then some (-eio, A.free h tmp, m)
  else
    let m ← strncpy identity m phy tmp max
    some (res, A.free h tmp, m)

/-- No result when an access to the user's string faults. -/
def copyStringFromTask (A : Allocator H) (h : H) (m : Ram) (task : Task) (virtual phy : UInt32)
    (max : Int) : Option (Int × H × Ram) :=
  if max > pageSizeInBytes.toNat then some (-einvarg, h, m)
  else
    let (tmp, h, m) := kZalloc A h m (.ofInt max)
    if tmp = 0 then some (-enomem, h, m)
    else
      let taskDirectory := load32 m task.pageDirectory
      let oldEntry := pagingGet m taskDirectory tmp
      let (_, m) := pagingMap m task.pageDirectory tmp tmp userWriteable
      copySwitched A h m (load32 m task.pageDirectory) taskDirectory tmp oldEntry virtual phy max

/-! ## What a copy leaves behind -/

section

variable {m m' : Ram} {chunk directory : UInt32} {tables : Nat → UInt32} {tmp : UInt32}

/-- `paging_get` reads the first entry of the table a page-aligned address is in. -/
theorem pagingGet_aligned (m : Ram) (directory : UInt32) {virt : UInt32} (aligned : virt % 4096 = 0) :
    pagingGet m directory virt = tableEntry m directory (virt.toNat / 0x400000) 0 := by
  have index : pagingGetIndexes virt = (virt / 0x400000, 0) := Prod.ext rfl aligned
  have directoryIndex : (virt / 0x400000).toNat = virt.toNat / 0x400000 := by simp
  rw [pagingGet, index]
  dsimp only
  rw [directoryIndex]
  rfl

theorem userWriteable_toNat : (UInt32.ofInt userWriteable).toNat < 4096 := by decide

theorem frame_add {a k : UInt32} (aligned : a % 4096 = 0) (small : k.toNat < 4096) :
    frame (a + k) = a ∧ lowBits (a + k) = k := by
  have h := aligned_toNat.mp aligned
  have hlt := a.toNat_lt
  rw [← UInt32.toNat_inj, ← UInt32.toNat_inj, frame_toNat, lowBits_toNat, UInt32.toNat_add]
  omega

theorem ofNat_offset {k : Nat} (small : k < 4096) : (UInt32.ofNat k).toNat < 4096 := by
  rw [UInt32.toNat_ofNat']
  omega

theorem frame_offset {a : UInt32} (aligned : a % 4096 = 0) {k : Nat} (small : k < 4096) :
    frame (a + .ofNat k) = a :=
  (frame_add aligned (ofNat_offset small)).1

/-- A page mapped to itself is reached under its own addresses only. -/
theorem translate_self {k : UInt32} {entry a : UInt32} (aligned : tmp % 4096 = 0) (small : k.toNat < 4096)
    (mapped : walk m directory tmp = tmp ||| entry) (low : entry.toNat < 4096)
    (reached : translate directory m (tmp + k) = some a) : a = tmp + k := by
  obtain ⟨page, offset⟩ := frame_add aligned small
  have same : walk m directory (tmp + k) = walk m directory tmp := by
    obtain ⟨hi, hj⟩ := (same_page_iff aligned).mp page
    rw [walk, hi, hj, walk]
  unfold translate at reached
  split at reached
  · rw [same, mapped, frame_or aligned low, offset] at reached
    exact (Option.some.inj reached).symm
  · cases reached

/-- `m'` is `m` but for the page `tmp`, whose entry is now that of the first page of its table. -/
structure TmpRestored (m m' : Ram) (chunk directory : UInt32) (tables : Nat → UInt32)
    (tmp : UInt32) : Prop where
  space : AddressSpace m' chunk directory tables
  others : Agree (fun x => frame x ≠ tmp ∧ ∀ i < 1024, frame x ≠ tables i) m m'
  entries : ∀ i < 1024, ∀ j < 1024, tableEntry m' directory i j =
    if i = tmp.toNat / 0x400000 ∧ j = tmp.toNat % 0x400000 / 0x1000 then
      tableEntry m directory (tmp.toNat / 0x400000) 0
    else tableEntry m directory i j

/-- The copy runs on `m₂`, where `tmp` is mapped to itself, and stays on its page. -/
theorem mapped_copy_off {m₂ : Ram} (aligned : tmp % 4096 = 0)
    (off : ∀ x, OnPages chunk directory tables x → frame x ≠ tmp)
    (set : Remapped m m₂ chunk directory tables tmp (tmp ||| .ofInt userWriteable)) {max : Int}
    (positive : 1 ≤ max) (small : max ≤ 4096) (m₁ : Ram) (same : Agree (fun x => frame x ≠ tmp) m₂ m₁)
    (k : Nat) (_ : 0 ≤ k) (hk : k ≤ 0 + (max - 1).toNat) (a : UInt32)
    (reached : translate directory m₁ (tmp + .ofNat k) = some a) : ¬ frame a ≠ tmp := by
  have hk' : k < 4096 := by omega
  have kept : walk m₁ directory tmp = tmp ||| .ofInt userWriteable := by
    obtain ⟨hi, hj⟩ := walk_indexes tmp
    rw [walk, set.space.tableEntry_agree same off hi hj, ← walk, set.walk aligned,
      if_pos (frame_of_aligned aligned)]
  rw [translate_self aligned (ofNat_offset hk') kept userWriteable_toNat reached]
  exact not_not.mpr (frame_offset aligned hk')

theorem identity_off {max : Int} {phy : UInt32} (small : max ≤ 4096) (positive : 1 ≤ max) (m₁ : Ram) (k : Nat)
    (hk : k ≤ 0 + (max - 1).toNat) (a : UInt32) (reached : identity m₁ (phy + .ofNat k) = some a) :
    ¬ ¬ InRange a phy max.toNat := by
  cases reached
  exact not_not.mpr ((inRange_add (by omega)).mpr (by omega))

end

section

variable (A : Allocator H) {h : H} {m : Ram} {task : Task} {directory : UInt32}
  {tables : Nat → UInt32} {max : Int}

/-- A block for `tmp` that is apart from the task's pages. -/
structure TmpBlock (h : H) (task : Task) (directory : UInt32) (tables : Nat → UInt32) (max : Int)
    (tmp : UInt32) : Prop where
  malloc : (A.malloc h (.ofInt max)).1 = tmp
  nonzero : tmp ≠ 0
  aligned : tmp % 4096 = 0
  off : ∀ x, OnPages task.pageDirectory directory tables x → frame x ≠ tmp

/-- The block is cleared and mapped to itself. -/
structure TmpMapped (h : H) (m : Ram) (task : Task) (directory : UInt32) (tables : Nat → UInt32) (max : Int)
    (tmp : UInt32) (m₁ m₂ : Ram) : Prop where
  alloc : kZalloc A h m (.ofInt max) = (tmp, (A.malloc h (.ofInt max)).2, m₁)
  cleared : Agree (fun x => frame x ≠ tmp) m m₁
  mapRun : pagingMap m₁ task.pageDirectory tmp tmp userWriteable = (0, m₂)
  set : Remapped m₁ m₂ task.pageDirectory directory tables tmp (tmp ||| .ofInt userWriteable)

theorem TmpBlock.mapped {tmp : UInt32} (space : AddressSpace m task.pageDirectory directory tables)
    (positive : 1 ≤ max) (small : max ≤ 4096) (block : TmpBlock A h task directory tables max tmp) :
    ∃ m₁ m₂, TmpMapped A h m task directory tables max tmp m₁ m₂ := by
  have bytes : (UInt32.ofInt max).toNat ≤ 4096 := by
    obtain ⟨n, rfl⟩ := Int.eq_ofNat_of_zero_le (show 0 ≤ max by omega)
    rw [ofInt_natCast, UInt32.toNat_ofNat']
    omega
  obtain ⟨m₁, alloc, cleared⟩ := kZalloc_page A h m bytes (block.malloc ▸ block.aligned)
  rw [block.malloc] at alloc cleared
  have space₁ := space.of_agree cleared fun x hx =>
    block.off x (hx.elim Or.inl fun hx => Or.inr (Or.inl hx))
  obtain ⟨m₂, mapRun, set⟩ := pagingMap_spec space₁ block.aligned block.aligned userWriteable
  exact ⟨m₁, m₂, alloc, cleared, mapRun, set⟩

/-- The copy under the task's directory stays on the block. -/
theorem TmpMapped.copied {tmp virtual : UInt32} {m₁ m₂ m₃ : Ram} (mapped : TmpMapped A h m task directory tables max tmp m₁ m₂)
    (positive : 1 ≤ max) (small : max ≤ 4096) (block : TmpBlock A h task directory tables max tmp)
    (copyRun : strncpy (translate directory) m₂ tmp virtual max = some m₃) :
    Agree (fun x => frame x ≠ tmp) m₂ m₃ ∧
      Agree (fun x => frame x ≠ tmp ∧ ∀ i < 1024, frame x ≠ tables i) m m₃ := by
  have copied := strncpyFrom_agree _ (mapped_copy_off block.aligned block.off mapped.set positive small) copyRun
  refine ⟨copied, fun x hx => ?_⟩
  rw [copied x hx.1, mapped.set.others x (hx.2 _ (walk_indexes tmp).1), mapped.cleared x hx.1]

/-- With a block the call comes to the switch, with `tmp` mapped to itself. -/
theorem copyStringFromTask_switch (virtual phy : UInt32) {tmp : UInt32} (space : AddressSpace m task.pageDirectory directory tables)
    (positive : 1 ≤ max) (small : max ≤ 4096) (block : TmpBlock A h task directory tables max tmp) :
    ∃ m₁ m₂, TmpMapped A h m task directory tables max tmp m₁ m₂ ∧
      copyStringFromTask A h m task virtual phy max =
        copySwitched A (A.malloc h (.ofInt max)).2 m₂ directory directory tmp
          (tableEntry m directory (tmp.toNat / 0x400000) 0) virtual phy max := by
  have page : (pageSizeInBytes.toNat : Int) = 4096 := by decide
  obtain ⟨m₁, m₂, mapped⟩ := block.mapped A space positive small
  have space₁ := space.of_agree mapped.cleared fun x hx =>
    block.off x (hx.elim Or.inl fun hx => Or.inr (Or.inl hx))
  refine ⟨m₁, m₂, mapped, ?_⟩
  unfold copyStringFromTask
  rw [page, if_neg (by omega), mapped.alloc]
  dsimp only
  rw [if_neg block.nonzero, mapped.mapRun, space₁.chunk_entry, pagingGet_aligned m₁ directory block.aligned,
    mapped.set.space.chunk_entry,
    space.tableEntry_agree mapped.cleared block.off (walk_indexes tmp).1 (Nat.zero_lt_succ 1023)]

/-- Without a block, or with a string too long for a page, it fails at once. -/
theorem copyStringFromTask_fails (virtual phy : UInt32)
    (failed : max > 4096 ∨ max ≤ 4096 ∧ (A.malloc h (.ofInt max)).1 = 0) :
    ∃ res, copyStringFromTask A h m task virtual phy max =
      some (res, if max > 4096 then h else (A.malloc h (.ofInt max)).2, m) := by
  have page : (pageSizeInBytes.toNat : Int) = 4096 := by decide
  unfold copyStringFromTask
  rw [page]
  rcases failed with large | ⟨small, null⟩
  · rw [if_pos large, if_pos large]
    exact ⟨_, rfl⟩
  · rw [if_neg (by omega), if_neg (by omega), kZalloc_null A null]
    exact ⟨_, rfl⟩

/-- The heap after a copy, whatever happened in it. -/
theorem copyStringFromTask_heap {virtual phy : UInt32} {h' : H} {m' : Ram} {res : Int}
    (small : max ≤ 4096)
    (returned : copyStringFromTask A h m task virtual phy max = some (res, h', m')) :
    h' = (A.malloc h (.ofInt max)).2 ∨
      h' = A.free (A.malloc h (.ofInt max)).2 (A.malloc h (.ofInt max)).1 := by
  obtain ⟨m₁, alloc, _⟩ := kZalloc_spec A h m (.ofInt max)
  have page : (pageSizeInBytes.toNat : Int) = 4096 := by decide
  unfold copyStringFromTask at returned
  rw [page, if_neg (by omega), alloc] at returned
  dsimp only at returned
  by_cases null : (A.malloc h (.ofInt max)).1 = 0
  · rw [if_pos null] at returned
    cases returned
    exact Or.inl rfl
  · rw [if_neg null] at returned
    obtain ⟨m₂, _, returned⟩ := Option.bind_eq_some_iff.mp returned
    dsimp only at returned
    split at returned
    · cases returned
      exact Or.inr rfl
    · obtain ⟨m₃, _, returned⟩ := Option.bind_eq_some_iff.mp returned
      cases returned
      exact Or.inr rfl

/-- **What a copy does with its block.** It writes the block, one entry of the
task's tables and the destination, and releases the block. -/
theorem copyStringFromTask_spec {virtual phy tmp : UInt32} {h' : H} {m' : Ram} {res : Int}
    (space : AddressSpace m task.pageDirectory directory tables) (positive : 1 ≤ max)
    (small : max ≤ 4096) (block : TmpBlock A h task directory tables max tmp)
    (returned : copyStringFromTask A h m task virtual phy max = some (res, h', m')) :
    h' = A.free (A.malloc h (.ofInt max)).2 tmp ∧
      ∃ m₁, TmpRestored m m₁ task.pageDirectory directory tables tmp ∧
        Agree (fun x => ¬ InRange x phy max.toNat) m₁ m' := by
  obtain ⟨m₁, m₂, mapped, run⟩ :=
    copyStringFromTask_switch A virtual phy space positive small block
  have off := block.off
  have cleared := mapped.cleared
  have set := mapped.set
  rw [run] at returned
  obtain ⟨m₃, copyRun, returned⟩ := Option.bind_eq_some_iff.mp returned
  obtain ⟨copied, through⟩ := mapped.copied A positive small block copyRun
  have space₃ := set.space.of_agree copied fun x hx =>
    off x (hx.elim Or.inl fun hx => Or.inr (Or.inl hx))
  obtain ⟨m₄, setRun, restored⟩ := pagingSet_spec space₃ block.aligned
    (tableEntry m directory (tmp.toNat / 0x400000) 0)
  rw [setRun] at returned
  dsimp only at returned
  rw [if_neg (by decide)] at returned
  obtain ⟨m₅, outRun, returned⟩ := Option.bind_eq_some_iff.mp returned
  cases returned
  refine ⟨rfl, m₄, ⟨restored.space, ?_, ?_⟩, ?_⟩
  · intro x hx
    have ne := hx.2 _ (walk_indexes tmp).1
    rw [restored.others x ne, through x hx]
  · intro i hi j hj
    rw [restored.entries i hi j hj]
    by_cases here : i = tmp.toNat / 0x400000 ∧ j = tmp.toNat % 0x400000 / 0x1000
    · rw [if_pos here, if_pos here]
    · rw [if_neg here, if_neg here, set.space.tableEntry_agree copied off hi hj,
        set.entries i hi j hj, if_neg here, space.tableEntry_agree cleared off hi hj]
  · exact strncpyFrom_agree _ (fun m₆ _ k _ => identity_off small positive m₆ k) outRun

/-- Mapping `tmp` keeps every address reachable. -/
theorem reach_mapped {m₁ m₂ m₃ : Ram} {tmp : UInt32} (space : AddressSpace m task.pageDirectory directory tables)
    (block : TmpBlock A h task directory tables max tmp) (cleared : Agree (fun x => frame x ≠ tmp) m m₁)
    (set : Remapped m₁ m₂ task.pageDirectory directory tables tmp (tmp ||| .ofInt userWriteable))
    (same : Agree (fun x => frame x ≠ tmp) m₂ m₃) (reach : ∀ v, ∃ a, translate directory m v = some a)
    (v : UInt32) : ∃ a, translate directory m₃ v = some a := by
  obtain ⟨hi, hj⟩ := walk_indexes v
  have off := block.off
  have link : load32 m₃ (slot directory (v.toNat / 0x400000)) =
      load32 m (slot directory (v.toNat / 0x400000)) := by
    have apart := (space.table_apart _ (walk_indexes tmp).1).1
    rw [same.slot space.directory_aligned hi fun x hx => off x (Or.inr (Or.inl hx)),
      set.others.slot space.directory_aligned hi fun x hx => hx ▸ apart.symm,
      cleared.slot space.directory_aligned hi fun x hx => off x (Or.inr (Or.inl hx))]
  have entry : walk m₃ directory v =
      if frame v = tmp then tmp ||| .ofInt userWriteable else walk m directory v := by
    rw [walk, set.space.tableEntry_agree same off hi hj, ← walk, set.walk block.aligned, walk,
      space.tableEntry_agree cleared off hi hj, ← walk]
  obtain ⟨a, before⟩ := reach v
  unfold translate at before
  split at before
  · rename_i here
    unfold translate
    rw [link, entry, if_pos]
    · exact ⟨_, rfl⟩
    · refine ⟨here.1, ?_⟩
      split
      · rw [present, flag_lowBits, lowBits_or block.aligned userWriteable_toNat]
        decide
      · exact here.2
  · cases before

/-- When no page of the task is missing, the copy returns. -/
theorem copyStringFromTask_returns (virtual phy : UInt32) {tmp : UInt32}
    (space : AddressSpace m task.pageDirectory directory tables) (positive : 1 ≤ max)
    (small : max ≤ 4096) (block : TmpBlock A h task directory tables max tmp)
    (reach : ∀ v, ∃ a, translate directory m v = some a) :
    ∃ res h' m', copyStringFromTask A h m task virtual phy max = some (res, h', m') := by
  obtain ⟨m₁, m₂, mapped, run⟩ :=
    copyStringFromTask_switch A virtual phy space positive small block
  have off := block.off
  have cleared := mapped.cleared
  have set := mapped.set
  obtain ⟨m₃, copyRun⟩ := strncpyFrom_returns virtual (max - 1).toNat
    (mapped_copy_off block.aligned off set positive small)
    fun m₃ same => reach_mapped A space block cleared set same reach
  obtain ⟨copied, -⟩ := mapped.copied A positive small block copyRun
  have space₃ := set.space.of_agree copied fun x hx =>
    off x (hx.elim Or.inl fun hx => Or.inr (Or.inl hx))
  obtain ⟨m₄, setRun, _⟩ := pagingSet_spec space₃ block.aligned
    (tableEntry m directory (tmp.toNat / 0x400000) 0)
  obtain ⟨m₅, outRun⟩ := strncpyFrom_returns tmp (max - 1).toNat
    (fun m₆ (_ : Agree _ m₄ m₆) k _ => identity_off small positive m₆ k)
    fun m₆ _ v => ⟨v, rfl⟩
  refine ⟨0, A.free (A.malloc h (.ofInt max)).2 tmp, m₅, ?_⟩
  rw [run, copySwitched, strncpy, copyRun, Option.bind_eq_bind, Option.bind_some, setRun]
  dsimp only
  rw [if_neg (by decide), strncpy, outRun]
  rfl

end

end PeachOs
