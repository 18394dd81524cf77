import PeachOs.FreshHeap
import PeachOs.Isolation

/-!
# What a new process sees in its windows

The program's blocks are cleared up to the file's size only, and mapped up to the
end of the last page.
-/

namespace PeachOs

open Memory Address Ownership
open Function (update)

def Kernel.withRam {H : Type} (k : Kernel H) (m : Ram) : Kernel H := { k with ram := m }

@[simp] theorem Kernel.withRam_heap {H : Type} (k : Kernel H) (m : Ram) : (k.withRam m).heap = k.heap := rfl

/-- The byte at `v` under the directory of `p`. -/
def Kernel.visible {H : Type} (k : Kernel H) (p v : UInt32) : Option UInt8 :=
  readByte (translate (k.directory p)) k.ram v

/-- A file that is read whole. The file system keeps its own records apart from the
bytes of memory, and what it does is independent of these. -/
structure StillFile {H : Type} (F : FileOps H) (filename contents : List UInt8) : Prop where
  short : contents.length < 2 ^ 32
  fopen : ∀ h, ∃ fd h', fd ≠ 0 ∧ ∀ m, F.fopen h m filename [114] = (fd, h', m)
  fstat : ∀ h fd, ∃ h', ∀ m, F.fstat h m fd = ((0, .ofNat contents.length), h', m)
  fread : ∀ h ptr fd, ∃ h', ∀ m, ∃ m', F.fread h m ptr (.ofNat contents.length) 1 fd = (1, h', m') ∧
    (∀ i < contents.length, m' (ptr + .ofNat i) = contents.getD i 0) ∧
    Agree (fun x => ¬ InRange x ptr contents.length) m m'
  fclose : ∀ h fd, ∃ res h', ∀ m, F.fclose h m fd = (res, h', m)

section

variable {H : Type} {A : Allocator H} {F : FileOps H} {laws : HeapLaws A F} {filename contents : List UInt8}

theorem StillFile.readable (file : StillFile F filename contents) :
    Readable F filename (.ofNat contents.length) := by
  constructor
  · intro h m
    obtain ⟨fd, h', opened, run⟩ := file.fopen h
    rw [run]
    exact opened
  · intro h m fd
    obtain ⟨h', run⟩ := file.fstat h fd
    rw [run]
  · intro h m ptr fd
    obtain ⟨h', run⟩ := file.fread h ptr fd
    obtain ⟨m', run, -⟩ := run m
    rw [run]

/-- The program's data at `ptr`: the file, and behind it what memory had before. -/
structure DataLoaded (laws : HeapLaws A F) (k k₁ : Kernel H) (p ptr : UInt32) (contents : List UInt8) : Prop where
  pool : InPool ptr (blocksNeeded (.ofNat contents.length))
  fresh : ∀ x, InRange x ptr (4096 * blocksNeeded (.ofNat contents.length)) → ¬ laws.owned k.heap (frame x)
  record : (k₁.procs p).ptr = ptr ∧ (k₁.procs p).size = .ofNat contents.length
  file : ∀ i < contents.length, k₁.ram (ptr + .ofNat i) = contents.getD i 0
  others : Agree (fun x => ¬ InRange x ptr contents.length) k.ram k₁.ram

/-- Where the data goes is decided by the heap alone. -/
theorem StillFile.loadData (file : StillFile F filename contents) (h : H) :
    ∃ ptr, ∀ (k : Kernel H) (p : UInt32), k.heap = h →
      laws.granted (processLoadData A F k filename p).2.heap →
      (processLoadData A F k filename p).1 = 0 ∧
        DataLoaded laws k (processLoadData A F k filename p).2 p ptr contents := by
  obtain ⟨fd, h₁, opened, fopen⟩ := file.fopen h
  obtain ⟨h₂, fstat⟩ := file.fstat h₁ fd
  refine ⟨(A.malloc h₂ (.ofNat contents.length)).1, ?_⟩
  rintro k p rfl granted
  have quiet := laws.fopen k.heap k.ram filename [114]
  have told := laws.fstat h₁ k.ram fd
  rw [fopen] at quiet
  rw [fstat] at told
  obtain ⟨m₁, alloc, cleared⟩ := kZalloc_spec A h₂ k.ram (.ofNat contents.length)
  unfold processLoadData processLoadBinary processReadBinary at granted ⊢
  simp only [fopen, if_neg opened, fstat, peachosAllOk, ne_eq, not_true, if_false, Kernel.kZalloc, alloc] at granted ⊢
  by_cases null : (A.malloc h₂ (.ofNat contents.length)).1 = 0
  · rw [if_pos null] at granted
    have pool := laws.malloc_pool _ _ ((laws.fclose _ _ fd).granted granted)
    exact absurd null pool.nonzero
  · rw [if_neg null] at granted ⊢
    obtain ⟨h₃, fread⟩ := file.fread (A.malloc h₂ (.ofNat contents.length)).2
      (A.malloc h₂ (.ofNat contents.length)).1 fd
    obtain ⟨m₂, fread, file', others⟩ := fread m₁
    have read := laws.fread (A.malloc h₂ (.ofNat contents.length)).2 m₁
      (A.malloc h₂ (.ofNat contents.length)).1 (.ofNat contents.length) 1 fd
    rw [fread] at read
    simp only [fread, not_true, if_false] at granted ⊢
    obtain ⟨res, h₄, fclose⟩ := file.fclose h₃ fd
    have closed := laws.fclose h₃ m₂ fd
    rw [fclose] at closed
    simp only [Kernel.modifyProc, fclose] at granted ⊢
    have granted' := read.granted (closed.granted granted)
    have length : (UInt32.ofNat contents.length).toNat = contents.length := by
      rw [UInt32.toNat_ofNat', Nat.mod_eq_of_lt file.short]
    rw [length] at cleared
    refine ⟨trivial, laws.malloc_pool _ _ granted', fun x inside owned => ?_, ?_, file', cleared.trans others⟩
    · exact laws.malloc_fresh _ _ granted' x inside (told.owned _ (quiet.owned _ owned))
    · simp

/-- A loaded process: the file at `ptr` and behind it what `m` had, a cleared
stack, and a directory that maps both. -/
structure LoadedBytes (m : Ram) (k' : Kernel H) (p ptr : UInt32) (contents : List UInt8) : Prop where
  place : (k'.procs p).ptr = ptr
  size : (k'.procs p).size = .ofNat contents.length
  program : ∀ i < 4096 * blocksNeeded (.ofNat contents.length),
    k'.ram (ptr + .ofNat i) = if i < contents.length then contents.getD i 0 else m (ptr + .ofNat i)
  stack : ∀ i < 16384, k'.ram ((k'.procs p).stack + .ofNat i) = 0
  stack_pool : InPool (k'.procs p).stack 4
  space : ∃ tables, AddressSpace k'.ram (k'.tasks (k'.procs p).task).pageDirectory (k'.directory p) tables
  linked : OpenDirectory k'.ram (k'.directory p)
  entries : ∀ v, walk k'.ram (k'.directory p) v = loadedEntry (k'.procs p) v

theorem StillFile.load (file : StillFile F filename contents) (k : Kernel H) (process : UInt32)
    (free : ∃ slot < peachosMaxProcesses, k.processes slot = 0) :
    ∃ ptr, ∀ m, laws.granted (processLoad A F (k.withRam m) filename process).2.2.heap →
      (InPool ptr (blocksNeeded (.ofNat contents.length)) ∧
        ∀ x, InRange x ptr (4096 * blocksNeeded (.ofNat contents.length)) → ¬ laws.owned k.heap (frame x)) ∧
      ∃ p k', processLoad A F (k.withRam m) filename process = (0, p, k') ∧
        LoadedBytes m k' p ptr contents := by
  obtain ⟨ptr, data⟩ := @StillFile.loadData H A F laws filename contents file (A.malloc k.heap sizeofProcess).2
  refine ⟨ptr, fun m granted => ?_⟩
  obtain ⟨p, k', run, size⟩ :=
    @processLoad_returns H A F laws filename _ file.readable (k.withRam m) process free granted
  rw [run] at granted
  obtain ⟨slot, p₁, k₁, r, k₂, -, -, hz, hf, rfl, granted₂, same⟩ :=
    processLoad_calls run granted (processGetFreeSlot_found free)
  obtain rfl := same (Int.le_refl 0)
  obtain ⟨record, heap₁, cleared⟩ := Kernel.kZalloc_run hz
  rw [Kernel.withRam_heap] at record heap₁
  have granted₁ := processFillSlot_granted hf granted₂
  obtain ⟨ok, loaded⟩ := data (k₁.modifyProc p₁ fun _ => Process.zero) p₁ heap₁ granted₁
  rcases hl : processLoadData A F (k₁.modifyProc p₁ fun _ => Process.zero) filename p₁ with ⟨r, k₃⟩
  rw [hl] at ok loaded granted₁
  obtain rfl : r = 0 := ok
  have zero : (k₁.modifyProc p₁ fun _ => Process.zero).procs p₁ = Process.zero := Function.update_self _ _ _
  obtain ⟨granted₀, binary⟩ := processLoadBinary_spec hl granted₁ (Int.le_refl 0) (by rw [zero]; rfl) (by rw [zero]; rfl)
  obtain ⟨o₁, binary⟩ := binary _ noBooks
  obtain ⟨ptr', size', procs, hasRun⟩ := binary.record
  have place : (k₃.procs p₁).ptr = ptr := loaded.record.1
  have length : (k₃.procs p₁).size = .ofNat contents.length := loaded.record.2
  rw [procs, Function.update_self] at place length
  obtain rfl : ptr' = ptr := place
  obtain rfl : size' = .ofNat contents.length := length
  have program := hasRun.resolve_left fun none => loaded.pool.nonzero none.1
  have bounds : (k₃.procs p₁).ptr % 4096 = 0 ∧
      (k₃.procs p₁).ptr.toNat + 4096 * blocksNeeded (k₃.procs p₁).size ≤ 0x7400000 := by
    rw [loaded.record.1, loaded.record.2]
    exact ⟨loaded.pool.aligned, loaded.pool.high⟩
  obtain ⟨⟨-, rfl, -, -⟩, made⟩ := processFillSlot_made hl (Int.le_refl 0) hf granted₂ bounds
  obtain ⟨o', made⟩ := made o₁ binary.advance.books
  obtain ⟨directory, tables, space, linked, entries, -⟩ := made.space
  have fresh (x : UInt32) (inside : InRange x ptr' (4096 * blocksNeeded (.ofNat contents.length))) :
      ¬ laws.owned k₁.heap (frame x) := loaded.fresh x inside
  have granted₀ : laws.granted (A.malloc k.heap sizeofProcess).2 := heap₁ ▸ granted₀
  refine ⟨⟨loaded.pool, fun x inside owned => fresh x inside ?_⟩, p, k', run, ?_⟩
  · rw [heap₁]
    exact laws.malloc_old _ _ _ owned
  have here : k'.directory p = directory := space.chunk_entry
  refine ⟨made.program.1.trans loaded.record.1, made.program.2.trans loaded.record.2, fun i hi => ?_, made.cleared,
    made.stack.pool, ⟨tables, ?_⟩, ?_, ?_⟩
  · have high := loaded.pool.high
    have small : i < 2 ^ 32 := by omega
    have inside : InRange (ptr' + .ofNat i) ptr' (4096 * blocksNeeded (.ofNat contents.length)) :=
      (inRange_add small).mpr hi
    have owned : o₁ (frame (ptr' + .ofNat i)) ≠ none := by
      rw [program.labelled _ inside]
      exact Option.some_ne_none _
    rw [made.advance.kept _ owned]
    by_cases read : i < contents.length
    · rw [if_pos read]
      exact loaded.file i read
    · rw [if_neg read]
      have behind : ¬ InRange (ptr' + .ofNat i) ptr' contents.length := (inRange_add small).not.mpr read
      have elsewhere : ¬ InRange (ptr' + .ofNat i) p sizeofProcess.toNat := by
        intro onRecord
        have page : InRange (ptr' + .ofNat i) p (4096 * blocksNeeded sizeofProcess) :=
          Nat.lt_of_lt_of_le onRecord (by decide)
        rw [record] at page
        have taken := laws.malloc_new _ _ granted₀ _ page
        rw [← heap₁] at taken
        exact fresh _ inside taken
      exact (loaded.others _ behind).trans (cleared _ elsewhere)
  · rw [here]
    exact space
  · rw [here]
    exact linked
  · rw [here]
    exact entries

/-! ## The windows -/

theorem present_of_lowBits {entry : UInt32} (user : lowBits entry = 7) : present entry := by
  unfold present
  rw [flag_lowBits, user]
  decide

/-- An address of a window is translated into the window's block. -/
theorem translate_window {m : Ram} {directory v virt phy : UInt32} (linked : OpenDirectory m directory)
    (aligned : virt % 4096 = 0) (phy_aligned : phy % 4096 = 0)
    (entry : walk m directory v = (frame v - virt + phy) ||| .ofInt userWriteable) :
    translate directory m v = some (phy + (v - virt)) := by
  have shifted := shifted_aligned (v := v) aligned phy_aligned
  have user : lowBits (walk m directory v) = 7 := by
    rw [entry, lowBits_or shifted userWriteable_toNat]
    decide
  have address : frame (walk m directory v) + lowBits v = phy + (v - virt) := by
    rw [entry, frame_or shifted userWriteable_toNat]
    have split := frame_add_lowBits v
    grind
  rw [translate, if_pos ⟨present_of_lowBits (linked _ (walk_indexes v).1), present_of_lowBits user⟩, address]

theorem window_address {virt : UInt32} {i count : Nat} (fit : virt.toNat + 4096 * count ≤ 2 ^ 32) (hi : i < 4096 * count) :
    InWindow (virt + .ofNat i) virt count ∧ virt + .ofNat i - virt = .ofNat i := by
  have value : (virt + UInt32.ofNat i).toNat = virt.toNat + i := by
    rw [UInt32.toNat_add, UInt32.toNat_ofNat']
    omega
  refine ⟨⟨by omega, by omega⟩, ?_⟩
  grind

theorem LoadedBytes.visible_program {m : Ram} {k' : Kernel H} {p ptr : UInt32} (loaded : LoadedBytes m k' p ptr contents)
    (pool : InPool ptr (blocksNeeded (.ofNat contents.length))) {i : Nat}
    (hi : i < 4096 * blocksNeeded (.ofNat contents.length)) :
    k'.visible p (peachosProgramVirtualAddress + .ofNat i) =
      some (if i < contents.length then contents.getD i 0 else m (ptr + .ofNat i)) := by
  have high := pool.high
  have low := pool.low
  have base : peachosProgramVirtualAddress.toNat = 0x400000 := rfl
  obtain ⟨inside, back⟩ := @window_address peachosProgramVirtualAddress _ _ (by omega) hi
  have off : ¬ InWindow (peachosProgramVirtualAddress + .ofNat i) peachosProgramStackVirtualAddressEnd 4 := by
    have stackBase : peachosProgramStackVirtualAddressEnd.toNat = 0x3fb000 := by decide
    obtain ⟨lo, -⟩ := inside
    unfold InWindow
    omega
  have entry := loaded.entries (peachosProgramVirtualAddress + .ofNat i)
  rw [loadedEntry, if_neg off, loaded.size, if_pos inside, loaded.place] at entry
  have place := translate_window loaded.linked (by decide) pool.aligned entry
  rw [back] at place
  rw [Kernel.visible, readByte, place, Option.map_some, loaded.program i hi]

theorem LoadedBytes.visible_stack {m : Ram} {k' : Kernel H} {p ptr : UInt32} (loaded : LoadedBytes m k' p ptr contents)
    {i : Nat} (hi : i < 16384) : k'.visible p (peachosProgramStackVirtualAddressEnd + .ofNat i) = some 0 := by
  obtain ⟨inside, back⟩ := @window_address peachosProgramStackVirtualAddressEnd i 4 (by decide) hi
  have entry := loaded.entries (peachosProgramStackVirtualAddressEnd + .ofNat i)
  rw [loadedEntry, if_pos inside] at entry
  have place := translate_window loaded.linked (by decide) loaded.stack_pool.aligned entry
  rw [back] at place
  rw [Kernel.visible, readByte, place, Option.map_some, loaded.stack i hi]

/-- `m` differs from the kernel's memory in free memory of the heap only. -/
def FreeMemory (laws : HeapLaws A F) (k : Kernel H) (m : Ram) : Prop :=
  Agree (fun x => ¬ (0x1000000 ≤ x.toNat ∧ x.toNat < 0x7400000) ∨ laws.owned k.heap (frame x)) k.ram m

/-- Two new processes see the same: the file's bytes followed by zeros, and zeros on the stack. -/
structure SameWindows (loaded loaded' : Int × UInt32 × Kernel H) (contents : List UInt8) : Prop where
  program : ∀ i < 4096 * blocksNeeded (.ofNat contents.length),
    loaded.2.2.visible loaded.2.1 (peachosProgramVirtualAddress + .ofNat i) =
        loaded'.2.2.visible loaded'.2.1 (peachosProgramVirtualAddress + .ofNat i) ∧
      loaded.2.2.visible loaded.2.1 (peachosProgramVirtualAddress + .ofNat i) = some (contents.getD i 0)
  stack : ∀ i < 16384,
    loaded.2.2.visible loaded.2.1 (peachosProgramStackVirtualAddressEnd + .ofNat i) =
        loaded'.2.2.visible loaded'.2.1 (peachosProgramStackVirtualAddressEnd + .ofNat i) ∧
      loaded.2.2.visible loaded.2.1 (peachosProgramStackVirtualAddressEnd + .ofNat i) = some 0

theorem whole_blocks (short : contents.length < 2 ^ 32) :
    4096 * blocksNeeded (.ofNat contents.length) = (contents.length + 4095) / 4096 * 4096 := by
  unfold blocksNeeded
  rw [UInt32.toNat_ofNat', Nat.mod_eq_of_lt short, Nat.mul_comm]

/-- Behind a file that does not fill its last page there is what was in memory before. -/
theorem leftover_visible (file : StillFile F filename contents) (k : Kernel H) (process : UInt32)
    (free : ∃ slot < peachosMaxProcesses, k.processes slot = 0)
    (granted : ∀ m, FreeMemory laws k m → laws.granted (processLoad A F (k.withRam m) filename process).2.2.heap)
    (partly : contents.length % 4096 ≠ 0) (b : UInt8) :
    ∃ m, FreeMemory laws k m ∧
      (processLoad A F (k.withRam m) filename process).2.2.visible
        (processLoad A F (k.withRam m) filename process).2.1
        (peachosProgramVirtualAddress + .ofNat contents.length) = some b := by
  obtain ⟨ptr, load⟩ := @StillFile.load H A F laws filename contents file k process free
  have size := whole_blocks file.short
  obtain ⟨⟨pool, fresh⟩, -⟩ := load k.ram (granted k.ram (Agree.refl _ _))
  have high := pool.high
  have low := pool.low
  have inside : contents.length < 4096 * blocksNeeded (.ofNat contents.length) := by omega
  have onRun : InRange (ptr + .ofNat contents.length) ptr (4096 * blocksNeeded (.ofNat contents.length)) :=
    (inRange_add file.short).mpr inside
  have untouched : FreeMemory laws k (update k.ram (ptr + .ofNat contents.length) b) := by
    intro x hx
    apply Function.update_of_ne
    rintro rfl
    rcases hx with outside | owned
    · apply outside
      rw [inRange_iff (by omega)] at onRun
      omega
    · exact fresh _ onRun owned
  refine ⟨_, untouched, ?_⟩
  obtain ⟨-, p, k', run, loaded⟩ := load _ (granted _ untouched)
  rw [run, loaded.visible_program pool inside, if_neg (Nat.lt_irrefl _), Function.update_self]

/-- Old memory can be told from what a process sees behind its file. -/
theorem partly_differs (file : StillFile F filename contents) (k : Kernel H) (process : UInt32)
    (free : ∃ slot < peachosMaxProcesses, k.processes slot = 0)
    (granted : ∀ m, FreeMemory laws k m → laws.granted (processLoad A F (k.withRam m) filename process).2.2.heap)
    (partly : contents.length % 4096 ≠ 0) :
    ¬ ∀ m m', FreeMemory laws k m → FreeMemory laws k m' →
      SameWindows (processLoad A F (k.withRam m) filename process)
        (processLoad A F (k.withRam m') filename process) contents := by
  intro same
  have size := whole_blocks file.short
  obtain ⟨m, untouched, sees⟩ := leftover_visible file k process free granted partly 0
  obtain ⟨m', untouched', sees'⟩ := leftover_visible file k process free granted partly 1
  have equal := ((same m m' untouched untouched').program contents.length (by omega)).1
  rw [sees, sees'] at equal
  cases equal

/-- **What a new process sees is independent of old memory exactly when the file
fills its last page.** -/
theorem sameWindows_iff (file : StillFile F filename contents) (k : Kernel H) (process : UInt32)
    (free : ∃ slot < peachosMaxProcesses, k.processes slot = 0)
    (granted : ∀ m, FreeMemory laws k m → laws.granted (processLoad A F (k.withRam m) filename process).2.2.heap) :
    (∀ m m', FreeMemory laws k m → FreeMemory laws k m' →
      SameWindows (processLoad A F (k.withRam m) filename process)
        (processLoad A F (k.withRam m') filename process) contents) ↔ contents.length % 4096 = 0 := by
  have size := whole_blocks file.short
  constructor
  · intro same
    by_contra partly
    exact partly_differs file k process free granted partly same
  · intro whole m m' untouched untouched'
    obtain ⟨ptr, load⟩ := @StillFile.load H A F laws filename contents file k process free
    obtain ⟨⟨pool, -⟩, p, k₁, run, loaded⟩ := load m (granted m untouched)
    obtain ⟨-, p', k₁', run', loaded'⟩ := load m' (granted m' untouched')
    rw [run, run']
    constructor
    · intro i hi
      dsimp only
      rw [loaded.visible_program pool hi, loaded'.visible_program pool hi, if_pos (by omega), if_pos (by omega)]
      exact ⟨rfl, rfl⟩
    · intro i hi
      dsimp only
      rw [loaded.visible_stack hi, loaded'.visible_stack hi]
      exact ⟨rfl, rfl⟩

end

/-! ## A page and a single byte -/

theorem oneFile_still (n : Nat) (short : n < 2 ^ 32) (filename : List UInt8) :
    StillFile (oneFile (.ofNat n)) filename (List.replicate n 0) := by
  have length : (List.replicate n (0 : UInt8)).length = n := List.length_replicate
  refine ⟨by rwa [length], fun h => ⟨1, h, by decide, fun m => rfl⟩, fun h fd => ⟨h, fun m => ?_⟩,
    fun h ptr fd => ⟨h, fun m => ⟨memset m ptr 0 n, ?_, ?_, ?_⟩⟩, fun h fd => ⟨0, h, fun m => rfl⟩⟩
  · rw [length]
    rfl
  · rw [length]
    have bytes : (UInt32.ofNat n * 1).toNat = n := by
      rw [UInt32.mul_one, UInt32.toNat_ofNat', Nat.mod_eq_of_lt short]
    show ((((1 : UInt32).toNat : Nat) : Int), h, memset m ptr 0 (UInt32.ofNat n * 1).toNat) = _
    rw [bytes]
    rfl
  · intro i hi
    rw [length] at hi
    rw [memset_bytes m ptr 0 (Nat.le_of_lt short) hi]
    simp [hi]
  · rw [length]
    exact memset_agree m ptr 0 n (Nat.le_of_lt short)

theorem freshHeap_memory (k : Kernel Nat) {n : Nat} (fits : k.heap + blocksNeeded (.ofNat n) + 1033 ≤ 25600) (m : Ram) :
    (freshLaws (.ofNat n)).granted
      (processLoad freshHeap (oneFile (.ofNat n)) (k.withRam m) [97] 0).2.2.heap :=
  Nat.le_trans (freshHeap_load (.ofNat n) (k.withRam m) [97] 0) fits

theorem freshKernel_slot : ∃ slot < peachosMaxProcesses, freshKernel.processes slot = 0 :=
  ⟨0, by decide, freshKernel_booted.processes 0 (by decide)⟩

theorem freshKernel_memory {n : Nat} (fits : blocksNeeded (.ofNat n) ≤ 20000) (m : Ram) :
    (freshLaws (.ofNat n)).granted
      (processLoad freshHeap (oneFile (.ofNat n)) (freshKernel.withRam m) [97] 0).2.2.heap := by
  apply freshHeap_memory
  rw [freshKernel_heap]
  omega

def zeroPage : List UInt8 := List.replicate 4096 0

/-- A file of a page. -/
theorem zeroPage_sameWindows : zeroPage.length % 4096 = 0 ∧
    ∀ m m', FreeMemory (freshLaws (.ofNat 4096)) freshKernel m → FreeMemory (freshLaws (.ofNat 4096)) freshKernel m' →
      SameWindows (processLoad freshHeap (oneFile (.ofNat 4096)) (freshKernel.withRam m) [97] 0)
        (processLoad freshHeap (oneFile (.ofNat 4096)) (freshKernel.withRam m') [97] 0) zeroPage := by
  have length : zeroPage.length = 4096 := List.length_replicate
  have still : StillFile (oneFile (.ofNat 4096)) [97] zeroPage := oneFile_still 4096 (by decide) [97]
  have slot := freshKernel_slot
  have memory := @freshKernel_memory 4096 (by decide)
  have whole : zeroPage.length % 4096 = 0 := by rw [length]
  generalize freshKernel = k at slot memory ⊢
  exact ⟨whole, (sameWindows_iff still k 0 slot fun m _ => memory m).mpr whole⟩

def zeroByte : List UInt8 := List.replicate 1 0

/-- **Behind a file of one byte there is old memory.** -/
theorem byte_leftover :
    ¬ ∀ m m', FreeMemory (freshLaws (.ofNat 1)) freshKernel m → FreeMemory (freshLaws (.ofNat 1)) freshKernel m' →
      SameWindows (processLoad freshHeap (oneFile (.ofNat 1)) (freshKernel.withRam m) [97] 0)
        (processLoad freshHeap (oneFile (.ofNat 1)) (freshKernel.withRam m') [97] 0) zeroByte := by
  have still : StillFile (oneFile (.ofNat 1)) [97] zeroByte := oneFile_still 1 (by decide) [97]
  have slot := freshKernel_slot
  have memory := @freshKernel_memory 1 (by decide)
  generalize freshKernel = k at slot memory ⊢
  exact partly_differs still k 0 slot (fun m _ => memory m) (by decide)

end PeachOs
