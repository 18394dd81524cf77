import PeachOs.LoadRequests
import PeachOs.SharedHeap
import PeachOs.TablesKept
import PeachOs.WindowBytes

/-!
# From the file on the disk to the program that runs

With the heap shared by the loader and the file system a load reads its program through
`fopen` and `fread` on the volume. What the process then sees in its window is the
file, until it writes there itself.
-/

namespace PeachOs

open Memory Address Ownership
open Function (update)

/-! ## Reading a file whole -/

section

variable {H : Type} {A : Allocator H} {device : BlockDevice} {disk : Nat → UInt8} {file : OpenFile}

/-- A file is opened at its start. -/
theorem fopen_pos {s t : Files H} {filename modeStr : List UInt8} {fd : Int}
    (run : fopen A device s filename modeStr = some (fd, t)) (nonzero : fd ≠ 0) : (t.openFile fd).pos = 0 := by
  obtain ⟨root, paths, _, ways⟩ := fopen_cases run
  cases ways with
  | refused => exact absurd rfl nonzero
  | unopened => exact absurd rfl nonzero
  | noDescriptor => exact absurd rfl nonzero
  | @opened r d fs fs' i _ opened pointer lowest some block =>
    obtain ⟨_, rfl⟩ := fsKZalloc_request block
    obtain refused | ⟨p, item, s₁, s₂, _, result, rfl⟩ := fat16Open_cases opened
    · cases refused with
      | mode => exact absurd (by decide) pointer
      | memory => exact absurd (by decide) pointer
    · have found : item ≠ 0 := by
        rintro rfl
        rw [if_pos rfl] at result
        exact pointer (by rw [result]; decide)
      rw [if_neg found] at result
      subst result
      have inside := lowest.inside
      have number : ¬ ((i : Int) + 1 ≤ 0 ∨ (i : Int) + 1 > peachosMaxFileDescriptors) := by omega
      have index : ((i : Int) + 1 - 1).toNat = i := by omega
      rw [Files.openFile, fileGetDescriptor, if_neg number, index]
      simp [Fs.openFile, Files.setOpen, Files.setFs, Fs.setDescriptor]

/-- The clusters of the file, as the code looks them up, lie on the disk. -/
structure OpenFile.OnDisk (device : BlockDevice) (file : OpenFile) : Prop where
  divides : 0 < file.volume.clusterSize
  readable : ChainReadable device file.volume (int32 file.cluster.toNat)
    ((file.filesize.toNat - 1) / file.volume.clusterSize)
  fits : ∀ i < file.filesize.toNat, filePos device file.volume (int32 file.cluster.toNat) 0 i < 2 ^ 31 - 1

/-- Byte `i` of the file. -/
def OpenFile.byte (device : BlockDevice) (disk : Nat → UInt8) (file : OpenFile) (i : Nat) : UInt8 :=
  disk (filePos device file.volume (int32 file.cluster.toNat) 0 i).toNat

/-- One item of the file's size, read from its start. -/
theorem OpenFile.read_whole (delivers : Delivers device disk) (start : file.pos = 0) (onDisk : file.OnDisk device)
    (some : file.filesize ≠ 0) (short : file.filesize.toNat < 2 ^ 31) :
    ∃ out, file.read device file.filesize 1 = .some (1, [out]) ∧ out.length = file.filesize.toNat ∧
      ∀ i < file.filesize.toNat, out.getD i 0 = file.byte device disk i := by
  have positive : 1 ≤ file.filesize.toNat := Nat.pos_of_ne_zero fun zero => some (UInt32.toNat_inj.mp zero)
  have asked : int32 file.filesize.toNat = file.filesize.toNat := int32_of_range (by omega) (by omega)
  have pos : int32 file.pos.toNat = (0 : Nat) := by
    rw [start]
    decide
  have inside (j : Nat) : chunkPos device file.volume (int32 file.cluster.toNat) 0 j =
      filePos device file.volume (int32 file.cluster.toNat) 0 j := by
    apply chunkPos_inside
    rw [Nat.zero_mod, Nat.zero_add]
    exact Nat.mod_lt _ onDisk.divides
  obtain ⟨out, streams, run, length, bytes⟩ := readInternal_chunks delivers onDisk.divides
    file.volume.clusterReadStream (fun _ => 0) file.filesize.toNat positive 0 (by omega)
    (by rw [Nat.zero_add]; exact onDisk.readable) (fun j hj => by rw [inside]; exact onDisk.fits j hj)
  have item : fat16ReadInternal device file.volume (fun _ => 0) (int32 file.cluster.toNat) (int32 file.pos.toNat)
      (int32 file.filesize.toNat) = .some (0, out, streams) := by
    rw [asked, pos]
    exact run
  refine ⟨out, ?_, length, fun i hi => ?_⟩
  · unfold OpenFile.read OpenFile.readFrom
    rw [readItemsFrom_single (fun streams offset => fat16ReadInternal device file.volume streams
      (int32 file.cluster.toNat) (int32 offset.toNat) (int32 file.filesize.toNat)) file.filesize file.pos _ item]
    have count : int32 1 = 1 := by decide
    simp [deliveredBy, count]
  · rw [bytes i hi, inside]
    rfl

end

/-! ## The calls of a load -/

section

variable {H : Type} {A : Allocator H} {F : FileOps H} {k k' : Kernel H} {fd res : Int} {p : UInt32}

/-- What is asked of the file system for the program's data. -/
structure DataCalls (A : Allocator H) (F : FileOps H) (k k' : Kernel H) (fd : Int) (p : UInt32) (size ptr : UInt32)
    (k₁ : Kernel H) : Prop where
  told : (F.fstat k.heap k.ram fd).1 = (0, size)
  block : Kernel.kZalloc A { k with
    heap := (F.fstat k.heap k.ram fd).2.1, ram := (F.fstat k.heap k.ram fd).2.2 } size = (ptr, k₁)
  read : (F.fread k₁.heap k₁.ram ptr size 1 fd).1 = 1
  result : k' = Kernel.modifyProc { k₁ with
    heap := (F.fread k₁.heap k₁.ram ptr size 1 fd).2.1
    ram := (F.fread k₁.heap k₁.ram ptr size 1 fd).2.2 } p fun q => { q with ptr, size }

theorem processReadBinary_calls (run : processReadBinary A F k fd p = (res, k')) (ok : 0 ≤ res)
    (told : (F.fstat k.heap k.ram fd).1.1 ≤ 0) : ∃ size ptr k₁, DataCalls A F k k' fd p size ptr k₁ := by
  rcases hs : F.fstat k.heap k.ram fd with ⟨⟨r, size⟩, h₁, m₁⟩
  rw [hs] at told
  simp only [processReadBinary, hs] at run
  split at run
  · rename_i failed
    cases run
    exact absurd (Int.le_antisymm told ok) failed
  · rename_i zero
    obtain rfl : r = 0 := not_not.mp zero
    rcases hz : Kernel.kZalloc A { k with heap := h₁, ram := m₁ } size with ⟨ptr, k₁⟩
    simp only [hz] at run
    split at run
    · cases run
      exact absurd ok (by decide)
    · split at run
      · cases run
        exact absurd ok (by decide)
      · rename_i whole
        cases run
        exact ⟨size, ptr, k₁, by rw [hs], by rw [hs]; exact hz, not_not.mp whole, rfl⟩

theorem processLoadBinary_calls {filename : List UInt8} (run : processLoadBinary A F k filename p = (res, k'))
    (ok : 0 ≤ res) : ∃ fd h₁ m₁ k₁, F.fopen k.heap k.ram filename [114] = (fd, h₁, m₁) ∧ fd ≠ 0 ∧
      processReadBinary A F { k with heap := h₁, ram := m₁ } fd p = (res, k₁) ∧
      k' = { k₁ with heap := (F.fclose k₁.heap k₁.ram fd).2.1, ram := (F.fclose k₁.heap k₁.ram fd).2.2 } := by
  rcases ho : F.fopen k.heap k.ram filename [114] with ⟨fd, h₁, m₁⟩
  simp only [processLoadBinary, ho] at run
  by_cases missing : fd = 0
  · simp only [missing, if_true] at run
    cases run
    exact absurd ok (by decide)
  · rw [if_neg missing] at run
    cases run
    exact ⟨fd, h₁, m₁, _, rfl, missing, rfl, rfl⟩

end

/-! ## The program in memory -/

section

variable {H : Type} {A : Allocator H} {laws : PageLaws A} {device : BlockDevice} {disk : Nat → UInt8}
  {k k' : Kernel (SharedHeap laws)} {filename : List UInt8} {p : UInt32} {file : OpenFile}

/-- The program of `p` is what one read of the whole of `file` stored. -/
structure ProgramFrom (device : BlockDevice) (file : OpenFile) (k : Kernel (SharedHeap laws)) (p : UInt32) : Prop where
  size : (k.procs p).size = file.filesize
  some : file.filesize ≠ 0
  pool : InPool (k.procs p).ptr (blocksNeeded file.filesize)
  stored : ∃ chunks m, file.read device file.filesize 1 = .some (1, chunks) ∧
    ∀ x, InRange x (k.procs p).ptr (4096 * blocksNeeded file.filesize) →
      k.ram x = storeItems m (k.procs p).ptr file.filesize chunks x

theorem fstat_cases (s : Files H) (fd : Int) : (fstat s fd).1 < 0 ∨ fileGetDescriptor s fd ≠ 0 ∧
    ∃ flags, fstat s fd = (0, some ⟨flags, (s.openFile fd).filesize⟩) := by
  rw [fstat_eq]
  split
  · exact Or.inl (by decide)
  · rename_i there
    unfold OpenFile.stat
    split
    · exact Or.inl (by decide)
    · exact Or.inr ⟨there, _, rfl⟩

theorem sharedFiles_told (device : BlockDevice) (h : SharedHeap laws) (m : Ram) (fd : Int) :
    (((sharedFiles laws device).fstat h m fd).1.1 ≤ 0) ∧
    (((sharedFiles laws device).fstat h m fd).1.1 = 0 → ((sharedFiles laws device).fstat h m fd).1.2 =
      (h.files.openFile fd).filesize) := by
  obtain failed | ⟨_, flags, told⟩ := fstat_cases h.files fd
  · exact ⟨Int.le_of_lt failed, fun zero => absurd failed (by rw [show (fstat h.files fd).1 = 0 from zero]; decide)⟩
  · simp [sharedFiles, told]

theorem sharedFiles_read {h : SharedHeap laws} {m : Ram} {ptr size : UInt32} {fd : Int}
    (read : ((sharedFiles laws device).fread h m ptr size 1 fd).1 = 1) :
    size ≠ 0 ∧ ∃ chunks, (h.files.openFile fd).read device size 1 = some (1, chunks) ∧
      ((sharedFiles laws device).fread h m ptr size 1 fd).2.2 = storeItems m ptr size chunks := by
  have value : ((sharedFiles laws device).fread h m ptr size 1 fd).1 =
      ((fread device h.files size 1 fd).map fun r => r.1).getD 0 := rfl
  have ram : ((sharedFiles laws device).fread h m ptr size 1 fd).2.2 =
      storeItems m ptr size (((fread device h.files size 1 fd).map fun r => r.2.1).getD []) := rfl
  have delivers := fread_delivers device h.files size 1 fd
  rw [value] at read
  rw [ram]
  cases run : fread device h.files size 1 fd with
  | none => simp [run] at read
  | some result =>
    obtain ⟨got, chunks, s⟩ := result
    simp only [run, Option.map_some, Option.getD_some] at read delivers ⊢
    subst read
    split at delivers
    · cases delivers
    · rename_i asked
      rw [not_or] at asked
      exact ⟨asked.1, chunks, delivers.symm, rfl⟩

/-- The program's data is one item of the size that was told. -/
theorem processReadBinary_shared {fd res : Int}
    (run : processReadBinary (sharedAllocator laws) (sharedFiles laws device) k fd p = (res, k')) (ok : 0 ≤ res)
    (granted : k'.heap.granted) : ProgramFrom device (k.heap.files.openFile fd) k' p := by
  obtain ⟨negative, filesize⟩ := sharedFiles_told device k.heap k.ram fd
  obtain ⟨size, ptr, k₁, told, block, read, rfl⟩ := processReadBinary_calls run ok negative
  rw [told] at filesize
  obtain rfl : size = (k.heap.files.openFile fd).filesize := filesize rfl
  obtain ⟨place, heap, _⟩ := Kernel.kZalloc_run block
  have files : k₁.heap.files.openFile fd = k.heap.files.openFile fd := by
    rw [heap]
    rfl
  have granted₁ : k₁.heap.granted := ((sharedLaws laws device).fread _ k₁.ram ptr _ _ _).granted granted
  rw [heap] at granted₁
  obtain ⟨some, chunks, delivered, ram⟩ := sharedFiles_read read
  rw [files] at delivered
  constructor
  · simp [Kernel.modifyProc]
  · exact some
  · simp only [Kernel.modifyProc, Function.update_self]
    rw [place]
    exact SharedHeap.malloc_pool granted₁
  · refine ⟨chunks, k₁.ram, delivered, fun x _ => ?_⟩
    simp only [Kernel.modifyProc, Function.update_self]
    exact congrFun ram x

theorem sharedFiles_fopen {h h₁ : SharedHeap laws} {m m₁ : Ram} {fd : Int}
    (run : (sharedFiles laws device).fopen h m filename [114] = (fd, h₁, m₁)) (nonzero : fd ≠ 0) :
    fopen A device h.files (cString filename) [114] = some (fd, h₁.files) := by
  cases result : fopen A device h.files (cString filename) [114] with
  | none =>
    have value : fd = ((fopen A device h.files (cString filename) [114]).map Prod.fst).getD 0 := by
      cases run
      rfl
    rw [result] at value
    exact absurd value nonzero
  | some opened =>
    cases run
    simp [SharedHeap.after, result]

theorem processLoadData_shared {res : Int}
    (run : processLoadData (sharedAllocator laws) (sharedFiles laws device) k filename p = (res, k')) (ok : 0 ≤ res)
    (granted : k'.heap.granted) : ∃ fd t, fopen A device k.heap.files (cString filename) [114] = some (fd, t) ∧
      fd ≠ 0 ∧ ProgramFrom device (t.openFile fd) k' p := by
  obtain ⟨fd, h₁, m₁, k₁, opening, nonzero, read, rfl⟩ := processLoadBinary_calls run ok
  have granted₁ : k₁.heap.granted := ((sharedLaws laws device).fclose _ k₁.ram fd).granted granted
  have program := processReadBinary_shared read ok granted₁
  exact ⟨fd, h₁.files, sharedFiles_fopen opening nonzero, nonzero, program.size, program.some, program.pool, program.stored⟩

/-- The rest of a load leaves the program alone. -/
theorem ProgramFrom.filled {process out : UInt32} {slot res : Int} {k₁ : Kernel (SharedHeap laws)}
    (data : processLoadData (sharedAllocator laws) (sharedFiles laws device) k filename p = (res, k₁)) (ok : 0 ≤ res)
    (zero : k.procs p = Process.zero) {r : Int}
    (run : processFillSlot (sharedAllocator laws) (sharedFiles laws device) k filename process p slot = (r, out, k'))
    (granted : (sharedLaws laws device).granted k'.heap) (program : ProgramFrom device file k₁ p) :
    ProgramFrom device file k' p := by
  have granted₁ : (sharedLaws laws device).granted k₁.heap := by
    have before := processFillSlot_granted run granted
    rwa [data] at before
  obtain ⟨_, load⟩ := processLoadBinary_spec data granted₁ ok (by rw [zero]; rfl) (by rw [zero]; rfl)
  obtain ⟨o₁, loaded⟩ := load _ noBooks
  obtain ⟨ptr, size, procs, own⟩ := loaded.record
  have pool := program.pool
  rw [← program.size] at pool
  obtain ⟨_, made⟩ := processFillSlot_made data ok run granted ⟨pool.aligned, pool.high⟩
  obtain ⟨o', slotMade⟩ := made o₁ loaded.advance.books
  have place : (k₁.procs p).ptr = ptr ∧ (k₁.procs p).size = size := by
    rw [procs, Function.update_self]
    exact ⟨rfl, rfl⟩
  have new : NewRun (fun _ => none) o₁ ptr (blocksNeeded size) (.run p) := by
    obtain none | new := own
    · exact absurd (by rw [← program.size, place.2, none.2]) program.some
    · exact new
  obtain ⟨chunks, m, read, stored⟩ := program.stored
  constructor
  · rw [slotMade.program.2, program.size]
  · exact program.some
  · rw [slotMade.program.1]
    exact program.pool
  · rw [slotMade.program.1]
    refine ⟨chunks, m, read, fun x inside => ?_⟩
    rw [← stored x inside]
    apply slotMade.advance.kept x
    rw [place.1, ← program.size, place.2] at inside
    rw [new.labelled x inside]
    exact Option.some_ne_none _

theorem processLoad_program {process : UInt32}
    (run : processLoad (sharedAllocator laws) (sharedFiles laws device) k filename process = (0, p, k'))
    (granted : (sharedLaws laws device).granted k'.heap) :
    ∃ fd t, fopen A device (k.heap.malloc sizeofProcess).2.files (cString filename) [114] = some (fd, t) ∧
      fd ≠ 0 ∧ ProgramFrom device (t.openFile fd) k' p := by
  obtain ⟨slot, ptr, k₁, r, k₂, _, _, block, fill, rfl, granted₂, same⟩ :=
    processLoad_calls run granted (processLoad_found run)
  obtain rfl := same (Int.le_refl 0)
  obtain ⟨_, heap, _⟩ := Kernel.kZalloc_run block
  rcases data : processLoadData (sharedAllocator laws) (sharedFiles laws device) (k₁.modifyProc ptr fun _ => Process.zero)
    filename ptr with ⟨res, k₂⟩
  have ok : 0 ≤ res := by
    by_contra failed
    rw [processFillSlot_unread filename process ptr slot (by rw [data]; omega), data] at fill
    have negative : res = 0 := (Prod.mk.inj fill).1
    omega
  have zero : (k₁.modifyProc ptr fun _ => Process.zero).procs ptr = Process.zero := Function.update_self ptr _ _
  have granted₁ : (sharedLaws laws device).granted k₂.heap := by
    have before := processFillSlot_granted fill granted
    rwa [data] at before
  obtain ⟨fd, t, opening, nonzero, program⟩ := processLoadData_shared data ok granted₁
  have filled := program.filled data ok zero fill granted
  obtain ⟨⟨_, rfl, _⟩, _⟩ := processFillSlot_spec fill granted zero (by rw [data]; exact ok)
  have files : k₁.heap = (k.heap.malloc sizeofProcess).2 := heap
  rw [← files]
  exact ⟨fd, t, opening, nonzero, filled⟩

theorem ProgramFrom.kept (program : ProgramFrom device file k p) (kept : KeptRuns p k k') : ProgramFrom device file k' p := by
  obtain ⟨chunks, m, read, stored⟩ := program.stored
  constructor
  · rw [kept.program.2, program.size]
  · exact program.some
  · rw [kept.program.1]
    exact program.pool
  · rw [kept.program.1]
    refine ⟨chunks, m, read, fun x inside => ?_⟩
    rw [← stored x inside]
    rw [← program.size] at inside
    exact kept.bytes x (Or.inl inside)

/-- The bytes of a file that lies on the disk. -/
theorem ProgramFrom.bytes (program : ProgramFrom device file k p) (delivers : Delivers device disk) (start : file.pos = 0)
    (onDisk : file.OnDisk device) {i : Nat} (hi : i < file.filesize.toNat) :
    k.ram ((k.procs p).ptr + .ofNat i) = file.byte device disk i := by
  have low := program.pool.low
  have high := program.pool.high
  have cover : file.filesize.toNat ≤ 4096 * blocksNeeded file.filesize := by
    unfold blocksNeeded
    omega
  obtain ⟨out, whole, length, bytes⟩ := OpenFile.read_whole delivers start onDisk program.some (by omega)
  obtain ⟨chunks, m, read, stored⟩ := program.stored
  obtain rfl : chunks = [out] := (Prod.mk.inj (Option.some.inj (read.symm.trans whole))).2
  rw [stored _ ((inRange_add (by omega)).mpr (by omega))]
  show storeBytes m (k.procs p).ptr out ((k.procs p).ptr + .ofNat i) = _
  rw [storeBytes_getD m _ out (by omega) (by omega), bytes i hi]

end

/-! ## Loads and runs -/

section

variable {H : Type} {A : Allocator H} {F : FileOps H} {laws : HeapLaws A F} {k k' : Kernel H} {o : Ledger UInt32 Owner}
  {filename : List UInt8} {process p q : UInt32}

/-- What is mapped below the heap shows the program from its start on. -/
theorem SystemSafe.visible_program {s : Machine H} (safe : SystemSafe laws o s) (there : s.kernel.Loaded p) {i : Nat} (hi : i < (s.kernel.procs p).size.toNat) (low : 0x400000 + i < 0x1000000) :
    s.kernel.visible p (peachosProgramVirtualAddress + .ofNat i) =
      some (s.kernel.ram ((s.kernel.procs p).ptr + .ofNat i)) := by
  have own := safe.kernel.processes p there
  obtain ⟨directory, tables, space, linked, _, _⟩ := own.space
  have here : s.kernel.directory p = directory := space.chunk_entry
  have base : peachosProgramVirtualAddress.toNat = 0x400000 := rfl
  have value : (peachosProgramVirtualAddress + UInt32.ofNat i).toNat = 0x400000 + i := by
    rw [UInt32.toNat_add, UInt32.toNat_ofNat']
    omega
  have program : InWindow (peachosProgramVirtualAddress + .ofNat i) peachosProgramVirtualAddress
      (blocksNeeded (s.kernel.procs p).size) := by
    unfold InWindow blocksNeeded
    omega
  have off : ¬ InWindow (peachosProgramVirtualAddress + .ofNat i) peachosProgramStackVirtualAddressEnd 4 := by
    have stack : peachosProgramStackVirtualAddressEnd.toNat = 0x3fb000 := rfl
    unfold InWindow
    omega
  have entry := safe.mapped p there (peachosProgramVirtualAddress + .ofNat i) (by omega)
  rw [loadedEntry, if_neg off, if_pos program, here] at entry
  have back : peachosProgramVirtualAddress + UInt32.ofNat i - peachosProgramVirtualAddress = .ofNat i := by grind
  rw [Kernel.visible, here, readByte, translate_window linked (by decide) own.aligned.1 entry, back, Option.map_some]

end

section

variable {H : Type} {A : Allocator H} {laws : PageLaws A} {device : BlockDevice} {disk : Nat → UInt8}

/-- **A process sees its file.** However many processes are loaded before and after it,
and whatever the others do once the system runs: until it stores itself, a process
whose program ends below the kernel's stack finds at its program's address the bytes
that the clusters of its file have on the disk. What its file is, `fopen` says. -/
theorem file_shown {k₀ k k' : Kernel (SharedHeap laws)} {filename : List UInt8} {process p : UInt32}
    (delivers : Delivers device disk) (booted : Booted (sharedAllocator laws) k₀)
    (granted₀ : (sharedLaws laws device).granted k₀.heap) (before : Loads (sharedLaws laws device) k₀ k)
    (load : processLoad (sharedAllocator laws) (sharedFiles laws device) k filename process = (0, p, k'))
    (granted : (sharedLaws laws device).granted k'.heap) (short : (k'.procs p).Short) {s₀ s₁ s : Machine (SharedHeap laws)}
    (later : Loads (sharedLaws laws device) k' s₀.kernel) (entered : s₀.taskRunFirstEverTask = some s₁)
    {writers : List (Option UInt32)} (run : SystemRun (sharedLaws laws device) s₁ writers s) (silent : some p ∉ writers) :
    ∃ fd t, fopen A device (k.heap.malloc sizeofProcess).2.files (cString filename) [114] = some (fd, t) ∧
      (s.kernel.procs p).size = (t.openFile fd).filesize ∧
      ((t.openFile fd).OnDisk device → ∀ i < (t.openFile fd).filesize.toNat,
        s.kernel.visible p (peachosProgramVirtualAddress + .ofNat i) = some ((t.openFile fd).byte device disk i)) := by
  obtain ⟨fd, t, opening, nonzero, program⟩ := processLoad_program load granted
  have through : Loads (sharedLaws laws device) k₀ k' := before.load load granted
  have loads := through.trans later
  obtain ⟨o, safe⟩ := Begun.safe ⟨k₀, s₀, booted, granted₀, loads, entered⟩
  have there : k'.Loaded p := processLoad_loaded load granted
  have same := entered_same entered
  have first : KeptRuns p k' s₁.kernel := (through.keptRuns booted granted₀ there later).trans (same.keptRuns p)
  have kept := first.trans (run.keptRuns safe (first.loaded there) (first.short short) silent)
  have now := program.kept kept
  refine ⟨fd, t, opening, now.size, fun onDisk i hi => ?_⟩
  have inside : i < (s.kernel.procs p).size.toNat := by
    rw [now.size]
    exact hi
  have most : (s.kernel.procs p).size.toNat ≤ 0x1FE000 := kept.short short
  rw [(run.safe safe).visible_program (kept.loaded there) inside (by omega),
    now.bytes delivers (fopen_pos opening nonzero) onDisk hi]

end

/-! ## A program of two bytes -/

section

variable {H : Type} {A : Allocator H} {laws : PageLaws A}

theorem bootKernel_heap (h : H) (m : Ram) : (bootKernel A h m).heap = A.after h pagingRequests 1026 := by
  rw [← pagingNew4gb_heap h m (pagingIsWriteable ||| pagingIsPresent ||| pagingAccessFromAll)]
  unfold bootKernel
  rcases pagingNew4gb A h m (pagingIsWriteable ||| pagingIsPresent ||| pagingAccessFromAll) with ⟨chunk, h', m'⟩
  rfl

theorem SharedHeap.requests_files (h : SharedHeap laws) (sizes : Nat → UInt32) (n : Nat) :
    ((sharedAllocator laws).after h sizes n).files = { h.files with heap := A.after h.files.heap sizes n } := by
  induction n with
  | zero => rfl
  | succ n ih =>
    rw [Allocator.after, Allocator.after]
    show { ((sharedAllocator laws).after h sizes n).files with
      heap := (A.malloc ((sharedAllocator laws).after h sizes n).files.heap (sizes n)).2 } = _
    rw [ih]

theorem sharedFiles_opens {device : BlockDevice} {h : SharedHeap laws} {filename modeStr : List UInt8} {fd : Int}
    {s : Files H} (m : Ram) (granted : h.granted)
    (run : fopen A device h.files (cString filename) modeStr = some (fd, s)) (fits : laws.granted s.heap) :
    ∃ h', (sharedFiles laws device).fopen h m filename modeStr = (fd, h', m) ∧ h'.files = s ∧ h'.granted := by
  refine ⟨((sharedFiles laws device).fopen h m filename modeStr).2.1, ?_, ?_, ?_⟩
  · simp [sharedFiles, run]
  · simp [sharedFiles, SharedHeap.after, run]
  · simpa [sharedFiles, SharedHeap.after, run] using ⟨granted, fits⟩

/-- `n` blocks can still be asked for. -/
def SharedHeap.Room (h : SharedHeap freshPages) (n : Nat) : Prop := h.granted ∧ h.files.heap + n ≤ 25600

theorem SharedHeap.Room.malloc {h : SharedHeap freshPages} {bytes : UInt32} {n : Nat}
    (room : h.Room (blocksNeeded bytes + n)) (positive : 1 ≤ bytes.toNat) : (h.malloc bytes).2.Room n := by
  obtain ⟨granted, fits⟩ := room
  have fits' : h.files.heap + blocksNeeded bytes + n ≤ 25600 := by omega
  exact ⟨⟨granted, Nat.le_trans (Nat.le_add_right _ n) fits', positive⟩, fits'⟩

theorem SharedHeap.Room.requests {h : SharedHeap freshPages} {m n : Nat} (room : h.Room (m + n)) :
    ((sharedAllocator freshPages).after h pagingRequests m).Room n := by
  induction m generalizing n with
  | zero => rwa [Nat.zero_add] at room
  | succ m ih =>
    have one : blocksNeeded (pagingRequests m) = 1 ∧ 1 ≤ (pagingRequests m).toNat := by
      unfold pagingRequests
      split <;> decide
    rw [Nat.add_assoc] at room
    have before := ih room
    rw [← one.1] at before
    exact before.malloc one.2

theorem freshHeap_kFree (s : Fs Nat) (p : UInt32) : s.kFree freshHeap p = s := rfl

theorem freshHeap_fclose (s : Files Nat) (fd : Int) : (fclose freshHeap s fd).2.heap = s.heap := by
  unfold fclose fat16Close fat16FatItemFree fat16FreeDirectory fileFreeDescriptor
  simp only [freshHeap_kFree, ite_self]
  split
  · rfl
  · rfl

theorem sharedFiles_reads {device : BlockDevice} {h : SharedHeap freshPages} (m : Ram) (ptr : UInt32) {n : Nat}
    (room : h.Room n) {fd : Int} (there : fileGetDescriptor h.files fd ≠ 0) {size : UInt32} (some : size ≠ 0)
    {chunks : List (List UInt8)} (whole : (h.files.openFile fd).read device size 1 = .some (1, chunks)) :
    ∃ h' m', (sharedFiles freshPages device).fread h m ptr size 1 fd = (1, h', m') ∧ h'.Room n := by
  have delivers := fread_delivers device h.files size 1 fd
  rw [if_neg (by simp [there, some]), whole] at delivers
  obtain ⟨⟨got, items, s⟩, run, same⟩ := Option.map_eq_some_iff.mp delivers
  cases same
  obtain ⟨streams, rfl⟩ := fread_streams run
  refine ⟨((sharedFiles freshPages device).fread h m ptr size 1 fd).2.1, storeItems m ptr size items, ?_, ?_⟩
  · simp [sharedFiles, run]
  · obtain ⟨granted, fits⟩ := room
    have here : h.files.heap ≤ 25600 := by omega
    simpa [sharedFiles, SharedHeap.after, SharedHeap.Room, run] using ⟨⟨granted, here⟩, fits⟩

theorem SharedHeap.Room.fclose {h : SharedHeap freshPages} {n : Nat} (room : h.Room n) (device : BlockDevice) (m : Ram)
    (fd : Int) : ((sharedFiles freshPages device).fclose h m fd).2.1.Room n := by
  obtain ⟨granted, fits⟩ := room
  have heap := freshHeap_fclose h.files fd
  have here : (PeachOs.fclose freshHeap h.files fd).2.heap ≤ 25600 := by omega
  refine ⟨⟨granted, _, rfl, here⟩, ?_⟩
  show (PeachOs.fclose freshHeap h.files fd).2.heap + n ≤ 25600
  omega

theorem SharedHeap.Room.slot {h : SharedHeap freshPages} (room : h.Room 1031) :
    (slotRequests (sharedAllocator freshPages) h).granted := by
  have stack : blocksNeeded peachosUserProgramStackSize = 4 := by decide
  have task : blocksNeeded sizeofTask = 1 := by decide
  have room : h.Room (blocksNeeded peachosUserProgramStackSize + (blocksNeeded sizeofTask + (1026 + 0))) := by
    rw [stack, task]
    exact room
  exact ((room.malloc (by decide)).malloc (by decide)).requests.1

end

/-- `jmp $`, in cluster 2. -/
def jumpDisk (x : Nat) : UInt8 := if x = 8192 then 0xEB else if x = 8193 then 0xFE else 0

/-- The entry of a file `A` of two bytes from cluster 2 on. -/
def jumpEntry (j : Nat) : UInt8 := if j = 26 ∨ j = 28 then 2 else noteEntry j

def jumpVolume : FatPrivate := { splitVolume with rootDirectory := ⟨0x800000, 1, 15, 16⟩ }

/-- The file system after the mount. -/
def jumpFiles (heap : Nat) : Files Nat := { noteFiles heap 1 with
  privates := fun _ => jumpVolume
  items := fun _ => jumpEntry }

def jumpFile : OpenFile := ⟨jumpVolume, fatItemTypeFile, 2, 2, 0, 0⟩

deriving instance DecidableEq for FatHeader, FatDirectory, FatPrivate, OpenFile

theorem jump_opens : ∃ s, fopen freshHeap (deviceOf jumpDisk) (jumpFiles 1028) notePath [114] = some (1, s) ∧
    s.heap ≤ 1100 ∧ s.openFile 1 = jumpFile ∧ fstat s 1 = (0, some ⟨0, 2⟩) := by
  have run : (fopen freshHeap (deviceOf jumpDisk) (jumpFiles 1028) notePath [114]).map (fun r =>
      decide (r.1 = 1 ∧ r.2.heap ≤ 1100 ∧ r.2.openFile 1 = jumpFile ∧ fstat r.2 1 = (0, some ⟨0, 2⟩))) = some true := by
    unfold fopen pathparserParse parsePartsFrom fat16Open
    simp only [getDirectoryEntry_eq]
    decide +kernel
  obtain ⟨⟨fd, s⟩, opening, results⟩ := Option.map_eq_some_iff.mp run
  obtain ⟨rfl, fits, file, stat⟩ := of_decide_eq_true results
  exact ⟨s, opening, fits, file, stat⟩

theorem jumpFile_onDisk : jumpFile.OnDisk (deviceOf jumpDisk) := by
  have none : (jumpFile.filesize.toNat - 1) / jumpFile.volume.clusterSize = 0 := by decide
  refine ⟨by decide, ⟨fun i inside => ?_, fun i inside => ?_⟩, fun i inside => ?_⟩
  · rw [none, Nat.le_zero] at inside
    subst inside
    decide
  · rw [none, Nat.le_zero] at inside
    subst inside
    decide
  · have two : jumpFile.filesize.toNat = 2 := by decide
    rw [two] at inside
    obtain rfl | rfl : i = 0 ∨ i = 1 := by omega
    · decide
    · decide

/-- The state before the first load. -/
def jumpHeap : SharedHeap freshPages where
  files := jumpFiles 0
  handed _ := none
  granted := True
  heap _ := Nat.zero_le _
  sound _ := by
    have closed {i : Nat} (open' : (jumpFiles 0).fileDescriptors i ≠ 0) : False := open' rfl
    refine ⟨fun _ => none, ⟨fun _ _ some => ?_, fun _ _ _ _ some => ?_⟩, ?_, fun _ _ some => ?_, fun _ _ open' => ?_⟩
    · cases some
    · cases some
    · constructor
      · exact fun _ _ open' => (closed open').elim
      · exact fun _ _ open' => (closed open').elim
      · exact fun _ _ _ _ open' => (closed open').elim
      · exact fun _ _ open' => (closed open').elim
      · exact fun _ _ open' => (closed open').elim
    · exact some
    · exact (closed open').elim

theorem jump_reads {k : Kernel (SharedHeap freshPages)} {p : UInt32} (files : k.heap.files = jumpFiles 1028)
    (granted : k.heap.granted) :
    ∃ k', processLoadData (sharedAllocator freshPages) (sharedFiles freshPages (deviceOf jumpDisk)) k notePath p = (0, k') ∧
      k'.heap.Room 1031 := by
  obtain ⟨s, opening, fits, file, stat⟩ := jump_opens
  have name : cString notePath = notePath := by decide
  rw [← files, ← name] at opening
  obtain ⟨h₁, open', files₁, granted₁⟩ := sharedFiles_opens k.ram granted opening
    (Nat.le_trans fits (by decide))
  have told : (sharedFiles freshPages (deviceOf jumpDisk)).fstat h₁ k.ram 1 = ((0, 2), h₁, k.ram) := by
    simp [sharedFiles, files₁, stat]
  have room : h₁.Room (blocksNeeded 2 + 1031) := ⟨granted₁, by rw [files₁, show blocksNeeded 2 = 1 by decide]; omega⟩
  have room₂ : (h₁.malloc 2).2.Room 1031 := room.malloc (by decide)
  rcases block : Kernel.kZalloc (sharedAllocator freshPages) { k with heap := h₁, ram := k.ram } 2 with ⟨ptr, k₂⟩
  obtain ⟨_, heap, _⟩ := Kernel.kZalloc_run block
  have heap : k₂.heap = (h₁.malloc 2).2 := heap
  rw [← heap] at room₂
  have granted₂ : (sharedLaws freshPages (deviceOf jumpDisk)).granted k₂.heap := room₂.1
  have some : ptr ≠ 0 := Kernel.kZalloc_nonzero block granted₂
  have files₂ : k₂.heap.files = { s with heap := (freshHeap.malloc s.heap 2).2 } := by
    rw [heap, ← files₁]
    rfl
  have file₂ : k₂.heap.files.openFile 1 = jumpFile := by
    rw [files₂]
    exact file
  have there : fileGetDescriptor k₂.heap.files 1 ≠ 0 := by
    rw [files₂]
    obtain failed | ⟨there, _⟩ := fstat_cases s 1
    · rw [stat] at failed
      exact absurd failed (by decide)
    · exact there
  obtain ⟨out, whole, _⟩ := OpenFile.read_whole (deviceOf_delivers jumpDisk) (show jumpFile.pos = 0 from rfl)
    jumpFile_onDisk (by decide) (by decide)
  have whole : (k₂.heap.files.openFile 1).read (deviceOf jumpDisk) 2 1 = .some (1, [out]) := by
    rw [file₂]
    exact whole
  obtain ⟨h₃, m₃, read, room₃⟩ := sharedFiles_reads k₂.ram ptr room₂ there (by decide) whole
  have last := room₃.fclose (deviceOf jumpDisk) m₃ 1
  unfold processLoadData processLoadBinary
  simp only [open']
  rw [if_neg (by decide)]
  unfold processReadBinary
  simp only [told, block, if_neg some, read]
  exact ⟨_, rfl, last⟩

/-- The program runs: what is at its address is the instruction. -/
theorem jump_shown : ∃ (s : Machine (SharedHeap freshPages)) (p : UInt32),
    s.kernel.visible p peachosProgramVirtualAddress = some 0xEB ∧
      s.kernel.visible p (peachosProgramVirtualAddress + 1) = some 0xFE := by
  have booted := bootKernel_ready (sharedAllocator freshPages) jumpHeap fun _ => 0
  have heap := bootKernel_heap (A := sharedAllocator freshPages) jumpHeap fun _ => 0
  generalize bootKernel (sharedAllocator freshPages) jumpHeap (fun _ => 0) = k at booted heap
  have room : k.heap.Room 2000 := by
    rw [heap]
    exact SharedHeap.Room.requests ⟨trivial, by decide⟩
  rcases record : k.kZalloc (sharedAllocator freshPages) sizeofProcess with ⟨p, k₁⟩
  obtain ⟨_, heap₁, _⟩ := Kernel.kZalloc_run record
  have files : (k.heap.malloc sizeofProcess).2.files = jumpFiles 1028 := by
    show { k.heap.files with heap := (freshHeap.malloc k.heap.files.heap sizeofProcess).2 } = _
    rw [heap, SharedHeap.requests_files, freshHeap_pages]
    rfl
  have granted₁ : (k.heap.malloc sizeofProcess).2.granted := by
    have two : blocksNeeded sizeofProcess = 2 := by decide
    exact (SharedHeap.Room.malloc (n := 1998) (by rw [two]; exact room) (by decide)).1
  have heap₁ : k₁.heap = (k.heap.malloc sizeofProcess).2 := heap₁
  rw [← heap₁] at files granted₁
  obtain ⟨k₂, data, left⟩ := jump_reads (k := k₁.modifyProc p fun _ => Process.zero) (p := p) files granted₁
  have later : (sharedLaws freshPages (deviceOf jumpDisk)).granted (slotRequests (sharedAllocator freshPages) k₂.heap) :=
    left.slot
  obtain ⟨k', load, granted⟩ := processLoad_requests 0 ⟨0, by decide, booted.processes 0 (by decide)⟩ record data
    (Int.le_refl 0) later
  obtain ⟨_, t', nonzero, _, _, _, _, current⟩ := processLoad_current load granted
  rw [if_pos booted.lists.1] at current
  have entered : (machineOf k').taskRunFirstEverTask = some _ := if_neg (show k'.currentTask ≠ 0 by rwa [current])
  obtain ⟨s, opens, _, file, _⟩ := jump_opens
  have name : cString notePath = notePath := by decide
  have short : (k'.procs p).Short := by
    obtain ⟨fd, t, opening, _, program⟩ := processLoad_program load granted
    rw [← heap₁, files, name, opens] at opening
    cases opening
    unfold Process.Short
    rw [program.size, file]
    decide
  obtain ⟨fd, t, opening, _, shown⟩ := file_shown (deviceOf_delivers jumpDisk) booted room.1 .start load granted short
    .start entered .start List.not_mem_nil
  rw [← heap₁, files, name, opens] at opening
  cases opening
  rw [file] at shown
  have shown := shown jumpFile_onDisk
  exact ⟨_, p, shown 0 (by decide), shown 1 (by decide)⟩

end PeachOs
