import PeachOs.ProcessSwitch

/-!
# What a load leaves alone

A load writes the heap, and what the file operations write. Below the heap only the
latter can change anything.
-/

namespace PeachOs

open Memory Address Ownership

variable {H : Type} {A : Allocator H} {F : FileOps H} {laws : HeapLaws A F} {d : UInt32 → Prop}

/-- The file operations write nothing of `d`, the buffer of a read apart. -/
structure FileOps.Keeps (F : FileOps H) (d : UInt32 → Prop) : Prop where
  fopen : ∀ h m name mode, Agree d m (F.fopen h m name mode).2.2
  fstat : ∀ h m fd, Agree d m (F.fstat h m fd).2.2
  fread : ∀ h m ptr size nmemb fd,
    Agree (fun x => d x ∧ ¬ InRange x ptr (size.toNat * nmemb.toNat)) m (F.fread h m ptr size nmemb fd).2.2
  fclose : ∀ h m fd, Agree d m (F.fclose h m fd).2.2

/-! ## Mapping -/

section

variable {m : Ram} {chunk directory : UInt32} {tables : Nat → UInt32}

/-- An address space stays one, and nothing is written but its tables. -/
structure TablesOnly (m m' : Ram) (chunk directory : UInt32) (tables : Nat → UInt32) : Prop where
  space : AddressSpace m' chunk directory tables
  others : Agree (fun x => ∀ i < 1024, frame x ≠ tables i) m m'

theorem TablesOnly.refl (space : AddressSpace m chunk directory tables) : TablesOnly m m chunk directory tables :=
  ⟨space, Agree.refl _ m⟩

theorem TablesOnly.trans {m' m'' : Ram} (first : TablesOnly m m' chunk directory tables)
    (second : TablesOnly m' m'' chunk directory tables) : TablesOnly m m'' chunk directory tables :=
  ⟨second.space, first.others.trans second.others⟩

theorem pagingMap_tablesOnly (space : AddressSpace m chunk directory tables) (virt phy : UInt32) (flags : Int) :
    TablesOnly m (pagingMap m chunk virt phy flags).2 chunk directory tables := by
  by_cases aligned : virt % 4096 = 0 ∧ phy % 4096 = 0
  · obtain ⟨m', run, set⟩ := pagingMap_spec space aligned.1 aligned.2 flags
    rw [run]
    exact ⟨set.space, set.others.mono fun x off => off _ (walk_indexes virt).1⟩
  · have unaligned : virt % 4096 ≠ 0 ∨ phy % 4096 ≠ 0 := not_and_or.mp aligned
    rw [pagingMap_unaligned m chunk virt phy flags unaligned]
    exact .refl space

theorem mapRangeFrom_tablesOnly (space : AddressSpace m chunk directory tables) (virt phy : UInt32) (flags : Int)
    (left : Nat) (res : Int) : TablesOnly m (mapRangeFrom m chunk virt phy flags left res).2 chunk directory tables := by
  induction left generalizing m virt phy res with
  | zero => exact .refl space
  | succ left ih =>
    have first := pagingMap_tablesOnly space virt phy flags
    unfold mapRangeFrom
    dsimp only
    split
    · exact first
    · exact first.trans (ih first.space _ _ _)

theorem pagingMapTo_tablesOnly (space : AddressSpace m chunk directory tables) (virt phy phyEnd : UInt32) (flags : Int) :
    TablesOnly m (pagingMapTo m chunk virt phy phyEnd flags).2 chunk directory tables := by
  have range := mapRangeFrom_tablesOnly space virt phy flags ((phyEnd - phy) / pageSizeInBytes).toNat 0
  unfold pagingMapTo
  split
  · exact .refl space
  · split
    · exact .refl space
    · split
      · exact .refl space
      · dsimp only
        split <;> exact range

end

theorem processMapMemory_tablesOnly {k : Kernel H} {p directory : UInt32} {tables : Nat → UInt32}
    (space : AddressSpace k.ram (k.tasks (k.procs p).task).pageDirectory directory tables) :
    TablesOnly k.ram (processMapMemory k p).2.ram (k.tasks (k.procs p).task).pageDirectory directory tables := by
  have program := pagingMapTo_tablesOnly space peachosProgramVirtualAddress (k.procs p).ptr
    (pagingAlignAddres ((k.procs p).ptr + (k.procs p).size)) userWriteable
  unfold processMapMemory processMapBinary
  dsimp only
  split
  · exact program
  · exact program.trans (pagingMapTo_tablesOnly program.space _ _ _ _)

/-! ## A load -/

section

variable {k k' : Kernel H}

theorem Kernel.kZalloc_kept {n ptr : UInt32} (run : k.kZalloc A n = (ptr, k')) (granted : laws.granted k'.heap)
    (low : ∀ x, d x → x.toNat < 0x1000000) : Agree d k.ram k'.ram := by
  obtain ⟨rfl, heap, same⟩ := Kernel.kZalloc_run run
  rw [heap] at granted
  have pool := laws.malloc_pool _ _ granted
  refine same.mono fun x hx inside => ?_
  have below := low x hx
  have start := pool.low
  have top := pool.high
  have bytes := n.toNat_lt
  rw [inRange_iff (by unfold blocksNeeded at top; omega)] at inside
  omega

theorem processReadBinary_kept (keeps : F.Keeps d) (low : ∀ x, d x → x.toNat < 0x1000000) {fd res : Int} {p : UInt32}
    (run : processReadBinary A F k fd p = (res, k')) (granted : laws.granted k'.heap) : Agree d k.ram k'.ram := by
  have stat := keeps.fstat k.heap k.ram fd
  rcases hs : F.fstat k.heap k.ram fd with ⟨⟨r, size⟩, h₁, m₁⟩
  rw [hs] at stat
  simp only [processReadBinary, hs] at run
  split at run
  · cases run
    exact stat
  · rcases hz : Kernel.kZalloc A { k with heap := h₁, ram := m₁ } size with ⟨ptr, k₁⟩
    have read := keeps.fread k₁.heap k₁.ram ptr size 1 fd
    have quiet := laws.fread k₁.heap k₁.ram ptr size 1 fd
    rcases hr : F.fread k₁.heap k₁.ram ptr size 1 fd with ⟨got, h₂, m₂⟩
    rw [hr] at read quiet
    simp only [hz, hr] at run
    split at run
    · cases run
      exact stat.trans (Kernel.kZalloc_kept hz granted low)
    · have granted₁ : laws.granted k₁.heap := by
        split at run <;> (cases run; exact quiet.granted granted)
      have alloc := stat.trans (Kernel.kZalloc_kept hz granted₁ low)
      have filled : Agree d k₁.ram m₂ := by
        obtain ⟨place, heap, _⟩ := Kernel.kZalloc_run hz
        have pool := laws.malloc_pool _ _ (heap ▸ granted₁)
        rw [← place] at pool
        refine read.mono fun x hx => ⟨hx, fun inside => ?_⟩
        have below := low x hx
        have start := pool.low
        have top := pool.high
        rw [UInt32.toNat_one, Nat.mul_one, inRange_iff (by unfold blocksNeeded at top; omega)] at inside
        omega
      split at run <;> (cases run; exact alloc.trans filled)

theorem processLoadBinary_kept (keeps : F.Keeps d) (low : ∀ x, d x → x.toNat < 0x1000000) {filename : List UInt8}
    {res : Int} {p : UInt32} (run : processLoadBinary A F k filename p = (res, k')) (granted : laws.granted k'.heap) :
    Agree d k.ram k'.ram := by
  have opening := keeps.fopen k.heap k.ram filename [114]
  rcases ho : F.fopen k.heap k.ram filename [114] with ⟨fd, h₁, m₁⟩
  rw [ho] at opening
  simp only [processLoadBinary, ho] at run
  generalize read : (if fd = 0 then (-eio, { k with heap := h₁, ram := m₁ })
    else processReadBinary A F { k with heap := h₁, ram := m₁ } fd p) = binary at run
  obtain ⟨r, k₁⟩ := binary
  have closing := keeps.fclose k₁.heap k₁.ram fd
  have quiet := laws.fclose k₁.heap k₁.ram fd
  rcases hc : F.fclose k₁.heap k₁.ram fd with ⟨_, h₂, m₂⟩
  rw [hc] at closing quiet
  simp only [hc] at run
  cases run
  refine opening.trans (Agree.trans ?_ closing)
  split at read
  · cases read
    exact Agree.refl _ _
  · exact processReadBinary_kept keeps low read (quiet.granted granted)

/-- Pages that are handed out are not below the heap. -/
theorem owned_above {h : H} {o : Ledger UInt32 Owner} (books : Books laws h o) {x : UInt32} {l : Owner}
    (owned : o (frame x) = some l) : 0x1000000 ≤ x.toNat := by
  have pool := (laws.owned_pool _ _ (books _ l owned)).1
  rw [frame_toNat] at pool
  omega

theorem pagingNew4gb_kept (low : ∀ x, d x → x.toNat < 0x1000000) {h : H} (m : Ram) {flags : UInt8}
    (granted : laws.granted (pagingNew4gb A h m flags).2.1) : Agree d m (pagingNew4gb A h m flags).2.2 := by
  obtain ⟨m', o, directory, tables, ram, built, advance, _, pages⟩ := pagingNew4gb_advance (m := m) granted noBooks .kernel
  rw [ram]
  refine built.others.mono fun x hx on => ?_
  have above := owned_above advance.books (pages x on).2
  have below := low x hx
  omega

theorem taskInit_kept (low : ∀ x, d x → x.toNat < 0x1000000) {t p : UInt32} {res : Int}
    (run : taskInit A k t p = (res, k')) (granted : laws.granted k'.heap) : Agree d k.ram k'.ram := by
  have built (granted : laws.granted (pagingNew4gb A k.heap k.ram (pagingIsPresent ||| pagingAccessFromAll)).2.1) :=
    pagingNew4gb_kept low k.ram granted
  rcases hp : pagingNew4gb A k.heap k.ram (pagingIsPresent ||| pagingAccessFromAll) with ⟨chunk, h₁, m₁⟩
  rw [hp] at built
  simp only [taskInit, hp] at run
  split at run <;> (cases run; exact built granted)

theorem taskNew_kept (low : ∀ x, d x → x.toNat < 0x1000000) {p t : UInt32} (run : taskNew A k p = (t, k'))
    (granted : laws.granted k'.heap) : Agree d k.ram k'.ram := by
  obtain ⟨k₁, k₂, hz, hi, granted₂, rfl⟩ := taskNew_calls run granted
  obtain ⟨_, granted₁, _⟩ := taskInit_spec hi granted₂
  have ram : (taskListAppend k₂ t).ram = k₂.ram := by rw [(taskListAppend_shape k₂ t).2]
  rw [ram]
  exact (Kernel.kZalloc_kept hz granted₁ low).trans (taskInit_kept low hi granted₂)

theorem processFillSlot_kept (keeps : F.Keeps d) (low : ∀ x, d x → x.toNat < 0x1000000) {filename : List UInt8}
    {process p out : UInt32} {slot res : Int} (run : processFillSlot A F k filename process p slot = (res, out, k'))
    (granted : laws.granted k'.heap) (read : 0 ≤ (processLoadData A F k filename p).1) : Agree d k.ram k'.ram := by
  rcases data : processLoadData A F k filename p with ⟨r, k₁⟩
  rw [data] at read
  obtain ⟨stack, k₂, t, k₃, r', k₄, hs, ht, hm, granted₃, result⟩ := processFillSlot_calls data read run granted
  obtain ⟨granted₂, made⟩ := taskNew_spec ht granted₃
  have granted₁ := Kernel.kZalloc_granted hs granted₂
  have loaded := processLoadBinary_kept keeps low data granted₁
  have stacked := Kernel.kZalloc_kept hs granted₂ low
  have task := taskNew_kept low ht granted₃
  have mapped : Agree d k₃.ram k₄.ram := by
    obtain ⟨o, new⟩ := made _ noBooks
    obtain ⟨directory, tables, space⟩ := new.space
    have linked : AddressSpace (k₃.modifyProc p fun q => { q with task := t }).ram
        ((k₃.modifyProc p fun q => { q with task := t }).tasks
          ((k₃.modifyProc p fun q => { q with task := t }).procs p).task).pageDirectory directory tables := by
      simp only [Kernel.modifyProc, Function.update_self]
      exact space.space
    have written := (processMapMemory_tablesOnly linked).others
    rw [hm] at written
    refine written.mono fun x hx i hi on => ?_
    have above := owned_above new.advance.books (space.pages x (Or.inr (Or.inr ⟨i, hi, on⟩))).2
    have below := low x hx
    omega
  have ram : k'.ram = k₄.ram := by
    split at result <;> (cases result; rfl)
  rw [ram]
  exact loaded.trans (stacked.trans (task.trans mapped))

/-- **A load that succeeds changes nothing below the heap** but what the file
operations do. -/
theorem processLoad_kept (keeps : F.Keeps d) (low : ∀ x, d x → x.toNat < 0x1000000) {filename : List UInt8}
    {process p : UInt32} (run : processLoad A F k filename process = (0, p, k')) (granted : laws.granted k'.heap) :
    Agree d k.ram k'.ram := by
  obtain ⟨slot, q, k₁, r, k₂, _, _, hz, hf, rfl, granted₂, same⟩ := processLoad_calls run granted (processLoad_found run)
  obtain rfl := same (Int.le_refl 0)
  have read : 0 ≤ (processLoadData A F (k₁.modifyProc q fun _ => Process.zero) filename q).1 := by
    by_contra failed
    rw [processFillSlot_unread filename process q slot (by omega)] at hf
    have negative := (Prod.mk.inj hf).1
    omega
  have filled := processFillSlot_kept keeps low hf granted₂ read
  have granted₁ : laws.granted k₁.heap := (processFillSlot_spec hf granted₂ (Function.update_self q _ _) read).1.2.2.1
  exact (Kernel.kZalloc_kept hz granted₁ low).trans filled

end

end PeachOs
