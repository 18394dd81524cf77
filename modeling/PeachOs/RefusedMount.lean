import PeachOs.FatMount
import PeachOs.SingleBlocks

/-!
# Disks that are refused

The exit block of `fat16_resolve` releases the private data and the local
stream. The three streams that only the private data point to, and the root
directory's array, stay allocated.
-/

namespace PeachOs

/-- A refusal that leaves the disk without private data and the heap as before. -/
structure MountUndone (s s' : Fs Heap) : Prop where
  filesystem : s'.filesystem = s.filesystem
  fsPrivate : s'.fsPrivate = 0
  table : ∀ i < s.heap.table.total.toNat, s'.heap.table.entries i = s.heap.table.entries i

section

variable {H : Type} {A : Allocator H} {device : BlockDevice} {s s' : Fs H} {res : Int}

/-! ## The steps -/

theorem diskSteamerNew_takes {stream : UInt32} (run : diskSteamerNew A s = some (stream, s')) :
    stream = (A.malloc s.heap sizeofDiskStream).1 ∧ stream ≠ 0 ∧
      s'.heap = (A.malloc s.heap sizeofDiskStream).2 ∧ s'.filesystem = s.filesystem := by
  unfold diskSteamerNew at run
  dsimp only at run
  split at run
  · cases run
  · rename_i nonzero
    cases run
    exact ⟨rfl, nonzero, rfl, rfl⟩

theorem fat16GetRootDirectory_asks {p : UInt32} (run : fat16GetRootDirectory A device s p = some (res, s')) :
    Asks A s.heap s'.heap ∧ s'.filesystem = s.filesystem := by
  unfold fat16GetRootDirectory at run
  dsimp only at run
  split at run
  · cases run
  · rename_i streams _
    cases array : ({ s with streams } : Fs H).newItems A
        (.ofInt ((s.privates p).header.roodDirEntries.toNat * sizeofFatDirectoryItem)) with
    | mk dir s₁ =>
      have requested := newItems_requested array
      have asked : Asks A s.heap s₁.heap ∧ s₁.filesystem = s.filesystem :=
        ⟨requested.asks, requested.fixed.filesystem⟩
      rw [array] at run
      dsimp only at run
      split at run
      · cases run
        exact asked
      · split at run <;> cases run <;> exact asked

/-- A volume that is not read keeps the disk's file system. -/
theorem readVolume_refused {p stream : UInt32} (run : readVolume A device s p stream = some (res, s'))
    (refused : res ≠ 0) : Asks A s.heap s'.heap ∧ s'.filesystem = s.filesystem := by
  unfold readVolume at run
  dsimp only at run
  split at run
  · cases run
    exact ⟨.refl _, rfl⟩
  · split at run
    · cases run
      exact ⟨.refl _, rfl⟩
    · obtain ⟨⟨rootRes, s₁⟩, root, rest⟩ := Option.map_eq_some_iff.mp run
      have asked := fat16GetRootDirectory_asks root
      by_cases failed : rootRes ≠ 0
      · rw [if_pos failed] at rest
        obtain ⟨-, rfl⟩ := Prod.mk.inj rest
        exact asked
      · rw [if_neg failed] at rest
        obtain ⟨done, -⟩ := Prod.mk.inj rest
        exact absurd done.symm refused

end

section

variable {device : BlockDevice} {s s' : Fs Heap} {res : Int} {blocks : List UInt32}

theorem diskSteamerNew_single {stream : UInt32} (singles : Singles s.heap blocks)
    (run : diskSteamerNew kernelAllocator s = some (stream, s')) :
    Singles s'.heap (stream :: blocks) ∧ s'.filesystem = s.filesystem := by
  obtain ⟨rfl, nonzero, heap, filesystem⟩ := diskSteamerNew_takes run
  have singles : Singles (kernelOn.heap s.heap) blocks := singles
  rw [heap]
  exact ⟨singles.malloc (by decide) (by decide) nonzero, filesystem⟩

/-- A block that is handed out after a request was free before it. -/
theorem requested_free {heap : Heap} (kernel : KernelHeap heap) (n m : UInt32)
    (nonzero : (heapMalloc (heapMalloc heap n).2 m).1 ≠ 0) :
    ∃ k < heap.table.total.toNat, (heapMalloc (heapMalloc heap n).2 m).1 = heap.blockAddr k ∧
      heap.table.entries k = heapBlockTableEntryFree := by
  obtain ⟨saddr, total⟩ := heapMalloc_shape heap n
  obtain failed | ⟨k, free, run⟩ := heapMalloc_cases (heapMalloc heap n).2 m
  · exact absurd (congrArg Prod.fst failed) nonzero
  · have address : (heapMalloc (heapMalloc heap n).2 m).1 = heap.blockAddr k := by
      rw [run, Heap.blockAddr, Heap.blockAddr, saddr]
    have inside := free.1
    rw [total] at inside
    refine ⟨k, inside, address, ?_⟩
    by_contra taken
    have used := heapMalloc_inUse ⟨k, inside, rfl, taken⟩ n
    apply (kernel.malloc n).free_apart free used
    rw [Heap.blockAddr, Heap.blockAddr, saddr]

/-- A block that was free and is allocated now shows in the table. -/
theorem Singles.entry_changed {heap heap' : Heap} {k : Nat} (left : Singles heap' blocks) (kernel : KernelHeap heap)
    (inside : k < heap.table.total.toNat) (mem : heap.blockAddr k ∈ blocks)
    (free : heap.table.entries k = heapBlockTableEntryFree) : heap'.table.entries k ≠ heap.table.entries k := by
  rw [(left.single _ mem).entry kernel left.kernel inside, free]
  decide

/-- **What a refused disk leaves behind**: no private data, and three streams. -/
theorem fat16Resolve_leaves (kernel : KernelHeap s.heap)
    (run : fat16Resolve kernelAllocator device s = some (res, s')) (refused : res ≠ 0) :
    s'.filesystem = s.filesystem ∧ s'.fsPrivate = 0 ∧
      ∃ clusterReadStream fatReadStream directoryStream : UInt32,
        Singles s'.heap [directoryStream, fatReadStream, clusterReadStream] ∧
        ∃ k < s.heap.table.total.toNat, clusterReadStream = s.heap.blockAddr k ∧
          s.heap.table.entries k = heapBlockTableEntryFree := by
  unfold fat16Resolve at run
  dsimp only at run
  split at run
  · cases run
  · rename_i nonzero
    obtain ⟨s₁, init, run⟩ := Option.bind_eq_some_iff.mp run
    obtain ⟨⟨stream, s₂⟩, opened, run⟩ := Option.bind_eq_some_iff.mp run
    obtain ⟨⟨r, s₃⟩, read, rest⟩ := Option.bind_eq_some_iff.mp run
    dsimp only at read rest
    obtain ⟨rfl, after⟩ := Prod.mk.inj (Option.some.inj rest)
    rw [if_pos refused] at after
    unfold fat16InitPrivate at init
    obtain ⟨⟨one, t₁⟩, first, init⟩ := Option.bind_eq_some_iff.mp init
    obtain ⟨⟨two, t₂⟩, second, init⟩ := Option.bind_eq_some_iff.mp init
    obtain ⟨⟨three, t₃⟩, third, init⟩ := Option.bind_eq_some_iff.mp init
    dsimp only at second third init
    cases init
    -- the private data, the streams in them, and the local stream
    have none : Singles (kernelOn.heap s.heap) [] := ⟨kernel, List.nodup_nil, fun q mem => absurd mem List.not_mem_nil⟩
    have own : Singles (s.kZalloc kernelAllocator sizeofFatPrivate).2.heap
        [(s.kZalloc kernelAllocator sizeofFatPrivate).1] :=
      none.malloc (by decide) (by decide) nonzero
    obtain ⟨singles₁, fs₁⟩ := diskSteamerNew_single own first
    obtain ⟨singles₂, fs₂⟩ := diskSteamerNew_single singles₁ second
    obtain ⟨singles₃, fs₃⟩ := diskSteamerNew_single singles₂ third
    obtain ⟨singles₄, fs₄⟩ := diskSteamerNew_single (by exact singles₃) opened
    obtain ⟨asks, fs₅⟩ := readVolume_refused read refused
    have opened : Singles (kernelOn.heap s₂.heap) ([stream, three, two, one] ++ [_]) := singles₄
    have all := (opened.asks asks).perm List.perm_append_comm
    have left := all.free.free
    subst after
    refine ⟨?_, rfl, one, two, three, left, ?_⟩
    · show s₃.filesystem = s.filesystem
      rw [fs₅, fs₄, fs₃, fs₂, fs₁]
      rfl
    · obtain ⟨address, some, _, _⟩ := diskSteamerNew_takes first
      rw [address] at some ⊢
      exact requested_free kernel sizeofFatPrivate sizeofDiskStream some

/-- **A refused disk always costs the heap** the streams of its private data. -/
theorem fat16Resolve_never_undone (kernel : KernelHeap s.heap)
    (run : fat16Resolve kernelAllocator device s = some (res, s')) (refused : res ≠ 0) : ¬ MountUndone s s' := by
  intro undone
  obtain ⟨_, _, clusterReadStream, _, _, left, k, inside, rfl, free⟩ := fat16Resolve_leaves kernel run refused
  exact left.entry_changed kernel inside (by simp) free (undone.table k inside)

end

/-! ## An empty disk -/

theorem fat16Resolve_refuses {H : Type} {A : Allocator H} {device : BlockDevice} (ok : NeverFails device) (s : Fs H)
    (header : FatHeader) (nonnull : ∀ i < 5, A.pointer s.heap (mountRequests header) i ≠ 0)
    (signature : (diskSteamerRead device 0 sizeofFatH).out.getD 38 0 ≠ fat16Signature) :
    ∃ s', fat16Resolve A device s = some (-efsnotus, s') := by
  obtain ⟨s₁, s₂, stream, first, init, opened, _⟩ := mount_starts s header nonnull
  obtain ⟨start, _⟩ := diskSteamerNew_done opened
  have read := (diskSteamerRead_ok ok 0 sizeofFatH).1
  unfold fat16Resolve
  dsimp only
  rw [if_neg first]
  simp only [init, opened, readVolume, start, read, signature, Option.bind_eq_bind, Option.bind_some, ne_eq,
    not_true, not_false_eq_true, if_true, if_false]
  exact ⟨_, rfl⟩

theorem emptyDisk_refused : KernelHeap bootFs.heap ∧
    ∃ s', fat16Resolve kernelAllocator (deviceOf fun _ => 0) bootFs = some (-efsnotus, s') := by
  refine ⟨(filledHeap_packed (Nat.zero_le _)).1, ?_⟩
  apply fat16Resolve_refuses (deviceOf_neverFails _) bootFs ⟨0, 0, 0, 1, 0⟩
  · intro i hi
    exact bootFs_nonnull (show 1 ≤ (1 : UInt16).toNat by decide) (show (1 : UInt16).toNat ≤ 128 by decide)
      (Nat.lt_succ_of_lt hi)
  · have bytes := (diskSteamerRead_delivers (deviceOf_delivers fun _ => 0) 0 sizeofFatH (by decide)).2.1
    change (diskSteamerRead _ 0 sizeofFatH).out = _ at bytes
    rw [bytes, diskBytes_getD _ _ (by decide)]
    decide

theorem emptyDisk_never_undone :
    ∃ s', fat16Resolve kernelAllocator (deviceOf fun _ => 0) bootFs = some (-efsnotus, s') ∧ ¬ MountUndone bootFs s' := by
  obtain ⟨kernel, s', run⟩ := emptyDisk_refused
  exact ⟨s', run, fat16Resolve_never_undone kernel run (by decide)⟩

/-- A disk of zeros is refused, and its streams are never released. -/
theorem empty_disk_keeps_streams : ¬ ∀ (device : BlockDevice) (s s' : Fs Heap) (res : Int), KernelHeap s.heap →
    fat16Resolve kernelAllocator device s = some (res, s') → res ≠ 0 → MountUndone s s' := by
  intro always
  obtain ⟨kernel, s', run⟩ := emptyDisk_refused
  have undone := always _ _ _ _ kernel run (by decide)
  obtain ⟨_, _, _, _, _, left, k, inside, rfl, free⟩ := fat16Resolve_leaves kernel run (by decide)
  exact left.entry_changed kernel inside (by simp) free (undone.table k inside)

end PeachOs
