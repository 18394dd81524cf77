import PeachOs.Isolation

/-!
# The pages an interrupt needs

An interrupt arrives while the directory of a task is active. The pages of the
kernel it then needs are the kernel's own in a new directory exactly when the
program stays below the stack the processor switches to.
-/

namespace PeachOs

open Memory Address Ownership

variable {H : Type} {A : Allocator H} {F : FileOps H} {laws : HeapLaws A F} {k k' : Kernel H}

/-- `tss.esp0`. -/
def tssEsp0 : UInt32 := 0x600000

/-- The page the interrupt frame is pushed on, and the kernel's image with the
stack it starts on. -/
def InterruptPage (v : UInt32) : Prop :=
  frame v = frame (tssEsp0 - 4) ∨ 0x100000 ≤ v.toNat ∧ v.toNat < 0x200000

/-- The directory of `kernel_page_chunk`. -/
def Kernel.kernelDirectory (k : Kernel H) : UInt32 := load32 k.ram k.kernelPageChunk

theorem translate_open {m : Ram} {directory entry : UInt32} (linked : OpenDirectory m directory)
    (v : UInt32) (mapped : walk m directory v = entry) (here : present entry) :
    translate directory m v = some (frame entry + lowBits v) := by
  unfold translate
  rw [mapped, if_pos]
  refine ⟨?_, here⟩
  rw [present, flag_lowBits, linked _ (walk_indexes v).1]
  decide

theorem present_or {a f : UInt32} (aligned : a % 4096 = 0) (small : f.toNat < 4096)
    (flagged : f &&& pagingIsPresent.toUInt32 ≠ 0) : present (a ||| f) := by
  rw [present, flag_lowBits, lowBits_or aligned small]
  exact flagged

theorem KernelSafe.kernel_translate {o : Ledger UInt32 Owner} (safe : KernelSafe laws o k) (v : UInt32) :
    translate k.kernelDirectory k.ram v = some (frame v + lowBits v) := by
  obtain ⟨directory, tables, space, linked, _, entries⟩ := safe.kernel
  have aligned := frame_aligned v
  rw [show k.kernelDirectory = directory from space.chunk_entry,
    translate_open linked v (entries v) (present_or aligned (by decide) (by decide)),
    frame_or aligned (by decide)]

/-- Where a new process's directory leads. -/
def loadedFrame (process : Process) (v : UInt32) : UInt32 :=
  if InWindow v peachosProgramStackVirtualAddressEnd 4 then
    frame v - peachosProgramStackVirtualAddressEnd + process.stack
  else if InWindow v peachosProgramVirtualAddress (blocksNeeded process.size) then
    frame v - peachosProgramVirtualAddress + process.ptr
  else frame v

theorem ProcessMade.translate {o o' : Ledger UInt32 Owner} {p : UInt32}
    (made : ProcessMade laws k k' o o' p) (v : UInt32) :
    translate (k'.directory p) k'.ram v = some (loadedFrame (k'.procs p) v + lowBits v) := by
  obtain ⟨directory, tables, space, linked, entries, _⟩ := made.space
  have user : UInt32.ofInt userWriteable &&& pagingIsPresent.toUInt32 ≠ 0 := by decide
  rw [show k'.directory p = directory from space.chunk_entry]
  have entry := entries v
  unfold loadedEntry at entry
  unfold loadedFrame
  split at entry
  · rename_i stack
    have aligned : (frame v - peachosProgramStackVirtualAddressEnd + (k'.procs p).stack) % 4096 = 0 :=
      shifted_aligned (by decide) made.stack.pool.aligned
    rw [if_pos stack, translate_open linked v entry (present_or aligned userWriteable_toNat user),
      frame_or aligned userWriteable_toNat]
  · rename_i below
    rw [if_neg below]
    split at entry
    · rename_i program
      have aligned : (frame v - peachosProgramVirtualAddress + (k'.procs p).ptr) % 4096 = 0 :=
        shifted_aligned (by decide) made.program.bounds.1
      rw [if_pos program, translate_open linked v entry (present_or aligned userWriteable_toNat user),
        frame_or aligned userWriteable_toNat]
    · rename_i outside
      have aligned := frame_aligned v
      rw [if_neg outside, translate_open linked v entry (present_or aligned (by decide) (by decide)),
        frame_or aligned (by decide)]

/-- An interrupt page as a number. -/
theorem interruptPage_iff (v : UInt32) : InterruptPage v ↔
    v.toNat / 4096 = 0x5FF ∨ 0x100000 ≤ v.toNat ∧ v.toNat < 0x200000 := by
  have top : (frame (tssEsp0 - 4)).toNat = 0x5FF000 := by decide
  unfold InterruptPage
  rw [← UInt32.toNat_inj, top, frame_toNat]
  omega

theorem interruptPage_off {v size : UInt32} (page : InterruptPage v) (short : size.toNat ≤ 0x1FF000) :
    ¬ InWindow v peachosProgramStackVirtualAddressEnd 4 ∧
      ¬ InWindow v peachosProgramVirtualAddress (blocksNeeded size) := by
  rw [interruptPage_iff] at page
  have stack : peachosProgramStackVirtualAddressEnd.toNat = 0x3FB000 := by decide
  have program : peachosProgramVirtualAddress.toNat = 0x400000 := by decide
  unfold InWindow blocksNeeded
  rw [stack, program]
  omega

/-- What a load with a readable file makes, in a state that runs reach. -/
theorem KernelRun.made {filename : List UInt8} {size process p : UInt32} (run : KernelRun laws k)
    (readable : Readable F filename size) (load : processLoad A F k filename process = (0, p, k'))
    (granted : laws.granted k'.heap) :
    (k'.procs p).size = size ∧ (∃ o', KernelSafe laws o' k') ∧
      ∃ o o', ProcessMade laws k k' o o' p := by
  obtain ⟨o, safe⟩ := run.safe
  obtain ⟨_, ⟨slot, inside, empty, _⟩, load'⟩ := processLoad_spec load granted
  obtain ⟨o', made, _⟩ := load' o safe.books
  refine ⟨?_, safe.load load granted, o, o', made⟩
  have granted' : laws.granted (processLoad A F k filename process).2.2.heap := by rwa [load]
  obtain ⟨q, k₁, same, bytes⟩ := processLoad_returns readable ⟨slot, inside, empty⟩ granted'
  rw [load] at same
  obtain ⟨rfl, rfl⟩ := Prod.mk.inj (Prod.mk.inj same).2
  exact bytes

/-- The page the interrupt frame is pushed on is in the window of a long program. -/
theorem stackPage_taken {filename : List UInt8} {size process p : UInt32} (run : KernelRun laws k)
    (readable : Readable F filename size) (load : processLoad A F k filename process = (0, p, k'))
    (granted : laws.granted k'.heap) (long : 0x1FF000 < size.toNat) :
    translate (k'.directory p) k'.ram 0x5FF000 ≠ translate k'.kernelDirectory k'.ram 0x5FF000 := by
  obtain ⟨bytes, ⟨_, safe⟩, _, _, made⟩ := run.made readable load granted
  have above : ¬ InWindow 0x5FF000 peachosProgramStackVirtualAddressEnd 4 := by decide
  have top : (0x5FF000 : UInt32).toNat = 0x5FF000 := by decide
  have program : peachosProgramVirtualAddress.toNat = 0x400000 := by decide
  have below : InWindow 0x5FF000 peachosProgramVirtualAddress (blocksNeeded (k'.procs p).size) := by
    unfold InWindow blocksNeeded
    rw [bytes, top, program]
    omega
  rw [made.translate, safe.kernel_translate, loadedFrame, if_neg above, if_pos below]
  intro same
  rcases made.program with ⟨_, none⟩ | new
  · rw [← bytes, none] at long
    exact absurd long (by decide)
  · have low := new.pool.low
    have high := new.pool.high
    have start : (frame 0x5FF000 - peachosProgramVirtualAddress).toNat = 0x1FF000 := by decide
    have here : (frame 0x5FF000).toNat = 0x5FF000 := by decide
    have offset : (lowBits 0x5FF000).toNat = 0 := by decide
    have moved := congrArg UInt32.toNat (Option.some.inj same)
    rw [UInt32.toNat_add, UInt32.toNat_add, UInt32.toNat_add, start, here, offset] at moved
    omega

/-- **The pages an interrupt needs are the kernel's own** in the directory of a
new process exactly when its program ends below the page of the ring 0 stack. -/
theorem interruptPages_iff {filename : List UInt8} {size process p : UInt32} (run : KernelRun laws k)
    (readable : Readable F filename size) (load : processLoad A F k filename process = (0, p, k'))
    (granted : laws.granted k'.heap) :
    (∀ v, InterruptPage v →
      translate (k'.directory p) k'.ram v = translate k'.kernelDirectory k'.ram v) ↔
      size.toNat ≤ 0x1FF000 := by
  constructor
  · intro own
    by_contra long
    exact stackPage_taken run readable load granted (by omega) (own _ (Or.inl (by decide)))
  · intro short v page
    obtain ⟨bytes, ⟨_, safe⟩, _, _, made⟩ := run.made readable load granted
    obtain ⟨above, below⟩ := interruptPage_off page short
    rw [← bytes] at below
    rw [made.translate, safe.kernel_translate, loadedFrame, if_neg above, if_neg below]

theorem small_program_keeps_pages : ∃ (k : Kernel Nat) (p : UInt32), ∀ v, InterruptPage v →
    translate (k.directory p) k.ram v = translate k.kernelDirectory k.ram v := by
  obtain ⟨p, k, load, granted⟩ := freshKernel_loads 100 [48, 58, 47, 97] (by decide)
  exact ⟨k, p, (interruptPages_iff (freshKernel_run 100) (oneFile_readable 100 _) load granted).mpr
    (by decide)⟩

/-- A program of two megabytes covers the kernel's stack. -/
theorem large_program_takes_stack : ∃ (k k' : Kernel Nat) (p v : UInt32),
    KernelRun (freshLaws 0x200000) k ∧ Readable (oneFile 0x200000) [48, 58, 47, 97] 0x200000 ∧
      processLoad freshHeap (oneFile 0x200000) k [48, 58, 47, 97] 0 = (0, p, k') ∧
      (freshLaws 0x200000).granted k'.heap ∧ InterruptPage v ∧
      translate (k'.directory p) k'.ram v ≠ translate k'.kernelDirectory k'.ram v := by
  obtain ⟨p, k', load, granted⟩ := freshKernel_loads 0x200000 [48, 58, 47, 97] (by decide)
  have run := freshKernel_run 0x200000
  have readable := oneFile_readable 0x200000 [48, 58, 47, 97]
  exact ⟨freshKernel, k', p, 0x5FF000, run, readable, load, granted, Or.inl (by decide),
    stackPage_taken run readable load granted (by decide)⟩

end PeachOs
