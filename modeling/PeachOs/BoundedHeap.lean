import PeachOs.FailedLoad
import PeachOs.SharedHeap

/-!
# A heap with an end under the file system

Blocks are handed out one behind the other, to the loader and to the file system
alike, until the pool is used up. Nothing comes back.
-/

namespace PeachOs

section

variable {H : Type} {A : Allocator H} {device : BlockDevice}

theorem pathparserParse_granted (laws : BlockLaws A) {s s' : Paths H} {path : List UInt8} {root : UInt32}
    (run : pathparserParse A s path = some (root, s')) (granted : laws.granted s'.heap) : laws.granted s.heap := by
  unfold pathparserParse at run
  split at run
  · cases run
    exact granted
  dsimp only at run
  split at run
  · cases run
    exact granted
  split at run
  · cases run
  rename_i s₁ made
  split at run
  · cases run
  rename_i s₂ part
  have first (granted : laws.granted s₂.heap) : laws.granted s.heap := by
    have before := (parsePathPart_moves part).granted laws granted
    unfold pathparserCreateRoot at made
    dsimp only at made
    split at made
    · cases made
    · cases made
      exact laws.malloc_granted _ _ before
  split at run
  · cases run
    exact first granted
  · obtain ⟨s₃, rest, same⟩ := Option.map_eq_some_iff.mp run
    cases same
    exact first ((parsePartsFrom_moves rest).granted laws granted)

theorem fopen_granted (laws : BlockLaws A) {s s' : Files H} {filename modeStr : List UInt8} {res : Int}
    (run : fopen A device s filename modeStr = some (res, s')) (granted : laws.granted s'.heap) :
    laws.granted s.heap := by
  obtain ⟨root, paths, parsed, ways⟩ := fopen_cases run
  refine pathparserParse_granted laws parsed ?_
  cases ways with
  | refused _ freed => exact fopenFails_granted laws freed granted
  | unopened _ opened _ freed =>
    exact (fat16Open_requested opened).asks.granted laws (fopenFails_granted laws freed granted)
  | noDescriptor _ opened _ none freed =>
    have before := fopenFails_granted laws freed granted
    refine (fat16Open_requested opened).asks.granted laws ?_
    obtain ⟨_, rfl⟩ | ⟨_, _, _, block, rfl⟩ := none
    · exact before
    · exact (fsKZalloc_requested block).asks.granted laws before
  | opened _ opened _ _ _ block =>
    exact (fat16Open_requested opened).asks.granted laws ((fsKZalloc_requested block).asks.granted laws granted)

end

/-! ## The heap -/

/-- How many blocks of the pool were handed out. -/
def BoundedHeap := { next : Nat // next ≤ 25600 }

def boundedHeap : Allocator BoundedHeap where
  malloc h n :=
    if fits : h.1 + blocksNeeded n ≤ 25600 then (.ofNat (0x1000000 + 4096 * h.1), ⟨h.1 + blocksNeeded n, fits⟩)
    else (0, h)
  free h _ := h

def BoundedHeap.Live (h : BoundedHeap) (x : UInt32) : Prop := 0x1000000 ≤ x.toNat ∧ x.toNat < 0x1000000 + 4096 * h.1

/-- A request is answered with the next blocks, or not at all. -/
theorem boundedHeap_malloc (h : BoundedHeap) (n : UInt32) :
    (boundedHeap.malloc h n).1 = 0 ∧ (boundedHeap.malloc h n).2 = h ∨
      (boundedHeap.malloc h n).1.toNat = 0x1000000 + 4096 * h.1 ∧
        (boundedHeap.malloc h n).2.1 = h.1 + blocksNeeded n := by
  dsimp only [boundedHeap]
  split
  · exact Or.inr ⟨freshPointer h.2, rfl⟩
  · exact Or.inl ⟨rfl, rfl⟩

theorem boundedHeap_live {h : BoundedHeap} {x : UInt32} (live : h.Live x) (n : UInt32) :
    (boundedHeap.malloc h n).2.Live x := by
  obtain ⟨low, high⟩ := live
  obtain ⟨_, same⟩ | ⟨_, next⟩ := boundedHeap_malloc h n
  · rw [same]
    exact ⟨low, high⟩
  · refine ⟨low, ?_⟩
    rw [next]
    omega

/-- What is not handed out was not handed out before. -/
def unhanded (x : UInt32) : BlockLaws boundedHeap where
  granted h := ¬ h.Live x
  holds _ _ := False
  malloc_granted _ n new old := new (boundedHeap_live old n)
  free_granted _ _ := Iff.rfl
  malloc _ _ _ _ holds := holds.elim
  malloc_empty _ _ _ _ holds := holds.elim
  free _ _ _ holds := holds.elim

/-! ## Under the loader -/

def boundedAllocator : Allocator (Files BoundedHeap) where
  malloc h n := ((boundedHeap.malloc h.heap n).1, { h with heap := (boundedHeap.malloc h.heap n).2 })
  free h p := { h with heap := boundedHeap.free h.heap p }

/-- The calls on the volume of `device`. -/
def boundedFiles (device : BlockDevice) : FileOps (Files BoundedHeap) where
  fopen h m filename mode :=
    match fopen boundedHeap device h (cString filename) mode with
    | none => (0, h, m)
    | some (fd, s) => (fd, s, m)
  fstat h m fd :=
    let (res, stat) := fstat h fd
    ((res, (stat.map FileStat.filesize).getD 0), h, m)
  fread h m ptr size nmemb fd :=
    match fread device h size nmemb fd with
    | none => (0, h, m)
    | some (res, chunks, s) => (res, s, storeItems m ptr size chunks)
  fclose h m fd := ((fclose boundedHeap h fd).1, (fclose boundedHeap h fd).2, m)

theorem fatItemFree_bounded (s : Fs BoundedHeap) (item : UInt32) :
    (fat16FatItemFree boundedHeap s item).heap = s.heap := by
  unfold fat16FatItemFree fat16FreeDirectory
  dsimp only
  split
  · split
    · rfl
    · split <;> rfl
  · split <;> rfl

theorem fclose_bounded (h : Files BoundedHeap) (fd : Int) : (fclose boundedHeap h fd).2.heap = h.heap := by
  unfold fclose
  dsimp only
  split
  · rfl
  · have freed : (fat16Close boundedHeap h.toFs (h.descriptors (fileGetDescriptor h fd)).privateInfo).2.heap = h.heap :=
      fatItemFree_bounded h.toFs _
    split
    · exact freed
    · exact freed

/-- The loader's laws with the file system on its heap. -/
def boundedLaws (device : BlockDevice) : LoadLaws boundedAllocator (boundedFiles device) where
  live h := h.heap.Live
  held h := h.heap.Live
  opened h fd := fileGetDescriptor h fd ≠ 0
  held_live _ _ := id
  malloc_aligned h n := by
    obtain ⟨null, _⟩ | ⟨place, _⟩ := boundedHeap_malloc h.heap n
    · rw [show (boundedAllocator.malloc h n).1 = 0 from null]
      exact UInt32.zero_mod
    · rw [← UInt32.toNat_inj, UInt32.toNat_mod]
      show (boundedHeap.malloc h.heap n).1.toNat % 4096 = 0
      omega
  malloc_null h n null := by
    obtain ⟨_, same⟩ | ⟨place, _⟩ := boundedHeap_malloc h.heap n
    · refine ⟨fun x live => ?_, fun _ => id⟩
      rwa [show (boundedAllocator.malloc h n).2.heap = h.heap from same] at live
    · rw [show (boundedHeap.malloc h.heap n).1 = 0 from null, UInt32.toNat_zero] at place
      omega
  malloc_fresh h n nonzero live := by
    obtain ⟨null, _⟩ | ⟨place, _⟩ := boundedHeap_malloc h.heap n
    · exact nonzero null
    · have below : (boundedHeap.malloc h.heap n).1.toNat < 0x1000000 + 4096 * h.heap.1 := live.2
      omega
  malloc_new h n positive _ nonzero := by
    obtain ⟨null, _⟩ | ⟨place, next⟩ := boundedHeap_malloc h.heap n
    · exact absurd null nonzero
    · have some : 1 ≤ blocksNeeded n := by
        unfold blocksNeeded
        omega
      show 0x1000000 ≤ (boundedHeap.malloc h.heap n).1.toNat ∧
        (boundedHeap.malloc h.heap n).1.toNat < 0x1000000 + 4096 * (boundedHeap.malloc h.heap n).2.1
      omega
  malloc_held _ n _ live := boundedHeap_live live n
  fopen h m filename mode x live := by
    dsimp only [boundedFiles]
    split
    · exact live
    · rename_i run
      by_contra lost
      exact fopen_granted (unhanded x) run lost live
  fstat _ _ _ _ := id
  fread h m ptr size nmemb fd x live := by
    dsimp only [boundedFiles]
    split
    · exact live
    · rename_i run
      obtain ⟨streams, rfl⟩ := fread_streams run
      exact live
  fclose h _ fd _ live := by
    show (fclose boundedHeap h fd).2.heap.Live _
    rwa [fclose_bounded]

/-! ## A file that is not there -/

/-- The kernel before its first load, with a volume that has no entry. -/
def filesKernel : Kernel (Files BoundedHeap) where
  heap := noteFiles ⟨0, by decide⟩ 0
  ram := fun _ => 0
  kernelPageChunk := 0
  tasks := fun _ => Task.zero
  currentTask := 0
  taskListHead := 0
  taskListTail := 0
  procs := fun _ => Process.zero
  currentProcess := 0
  processes := fun _ => 0

theorem note_missing (h : Files BoundedHeap) (same : h = noteFiles ⟨2, by decide⟩ 0) (m : Memory.Ram) :
    ((boundedFiles emptyDisk).fopen h m notePath [114]).1 = 0 := by
  have run :
      (fopen boundedHeap emptyDisk (noteFiles ⟨2, by decide⟩ 0) (cString notePath) [114]).map Prod.fst = some 0 := by
    unfold fopen pathparserParse parsePartsFrom fat16Open fopenFails pathparserFree
    -- the exit frees the path's one part
    unfold Paths.freePartsFrom
    unfold Paths.freePartsFrom
    simp only [getDirectoryEntry_eq]
    decide +kernel
  obtain ⟨⟨fd, s⟩, opened, zero⟩ := Option.map_eq_some_iff.mp run
  subst same
  dsimp only [boundedFiles]
  rw [opened]
  exact zero

theorem note_unread {k : Kernel (Files BoundedHeap)} (heap : k.heap = noteFiles ⟨2, by decide⟩ 0) (p : UInt32) :
    (processLoadData boundedAllocator (boundedFiles emptyDisk) k notePath p).1 ≠ peachosAllOk := by
  have missing := note_missing k.heap heap k.ram
  unfold processLoadData processLoadBinary
  dsimp only
  rw [if_pos missing]
  exact (show -eio ≠ peachosAllOk by decide)

/-- The load of a missing file, with its path on the same heap, is not undone. -/
theorem missing_note_not_undone : ¬ LoadUndone (boundedLaws emptyDisk) filesKernel
    (processLoad boundedAllocator (boundedFiles emptyDisk) filesKernel notePath 0) := by
  rcases hz : filesKernel.kZalloc boundedAllocator sizeofProcess with ⟨p, k₁⟩
  obtain ⟨address, ram, same⟩ := Kernel.kZalloc_step hz
  have grants : (boundedAllocator.malloc filesKernel.heap sizeofProcess).1 ≠ 0 := by decide
  have record : HasRecord boundedAllocator filesKernel (k₁.modifyProc p fun _ => Process.zero) p :=
    ⟨⟨0, by decide, rfl⟩, address ▸ grants, k₁, hz, rfl⟩
  have heap : (k₁.modifyProc p fun _ => Process.zero).heap = noteFiles ⟨2, by decide⟩ 0 := by
    rw [same]
    rfl
  have unread := note_unread heap p
  rw [failed_load_undone_iff (boundedLaws emptyDisk) (.program record unread) 0]
  rintro (full | null)
  · exact full 0 (by decide) rfl
  · exact grants null

end PeachOs
