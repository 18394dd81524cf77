import PeachOs.OpenRuns
import PeachOs.SingleBlocks
import PeachOs.SeekRuns

/-!
# What opening leaves on the heap

`fopen` gives the parsed path back when it fails, and not when it succeeds, and
`fclose` does not know of it.
-/

namespace PeachOs

open Function (update)

section

variable {H : Type} {A : Allocator H} {on : OnBlockHeap A} {device : BlockDevice} {blocks : List UInt32}

/-! ## Opening and closing a file -/

theorem OpenSearched.singles {s s₁ s₂ : Fs H} {path mode p item : UInt32}
    (searched : OpenSearched A device s path mode p item s₁ s₂) (singles : Singles (on.heap s.heap) blocks) :
    Singles (on.heap s₁.heap) (p :: blocks) := by
  have nonzero := searched.nonzero
  obtain ⟨rfl, rfl⟩ := fsKZalloc_request searched.block
  exact singles.malloc (by decide) (by decide) nonzero

/-- The new blocks of an open file. -/
theorem fat16Open_singles {s s' : Fs H} {path mode p : UInt32}
    (run : fat16Open A device s path mode = some (p, s')) (pointer : ¬ errorI p < 0)
    (singles : Singles (on.heap s.heap) blocks) : ∃ f, (s'.fatDescriptors p).item = f ∧ (s'.fatItems f).type = fatItemTypeFile ∧
      (((s'.fatItems f).item = 0 ∧ Singles (on.heap s'.heap) (f :: p :: blocks)) ∨
        Singles (on.heap s'.heap) ((s'.fatItems f).item :: f :: p :: blocks)) := by
  obtain refused | ⟨q, item, s₁, s₂, searched, same, rfl⟩ := fat16Open_cases run
  · cases refused with
    | mode _ => exact absurd (by decide) pointer
    | memory _ _ => exact absurd (by decide) pointer
  · by_cases missing : item = 0
    · rw [if_pos missing] at same
      rw [same] at pointer
      exact absurd (by decide) pointer
    · rw [if_neg missing] at same
      subst same
      obtain ⟨_, none | made⟩ := getDirectoryEntry_made searched.search
      · exact absurd none missing
      · refine ⟨item, ?_, made.type, made.singles (searched.singles singles)⟩
        exact congrArg FatFileDescriptor.item (Function.update_self p _ s₂.fatDescriptors)

/-- Calls on an open file leave its blocks and the heap as they are. -/
theorem FileRun.keeps {allowed : Files H → FileCall → Prop} {s s' : Files H} {fd : Int} {d p f : UInt32}
    (run : FileRun device fd allowed s s') (open' : OpenBlocks s fd d p f) :
    OpenBlocks s' fd d p f ∧ s'.heap = s.heap ∧ s'.fatItems = s.fatItems := by
  induction run with
  | opened => exact ⟨open', rfl, rfl⟩
  | @call s₁ s₂ call before ok ran ih =>
    obtain ⟨now, heap, items⟩ := ih
    cases call with
    | read size nmemb =>
      obtain ⟨⟨res, chunks, s₃⟩, read, same⟩ := Option.map_eq_some_iff.mp ran
      obtain ⟨streams, rfl⟩ := fread_streams read
      cases same
      exact ⟨⟨now.slot, now.nonzero, now.descriptor, now.item, now.type⟩, heap, items⟩
    | seek offset whence =>
      cases ran
      have here : fileGetDescriptor s₁ fd ≠ 0 := by
        rw [now.slot]
        exact now.nonzero
      rw [fseek_eq, if_neg here, now.slot, now.descriptor]
      refine ⟨⟨now.slot, now.nonzero, now.descriptor, ?_, now.type⟩, heap, items⟩
      show (update s₁.fatDescriptors p _ p).item = f
      rw [Function.update_self, ← now.item]

/-- The block of the path's root outlives the file. -/
theorem closed_keeps_root {s s₁ s₂ : Files Heap} (kernel : KernelHeap s.heap) {filename modeStr : List UInt8} {fd : Int}
    (opened : fopen kernelAllocator device s filename modeStr = some (fd, s₁)) (ok : 0 < fd)
    {allowed : Files Heap → FileCall → Prop} (used : FileRun device fd allowed s₁ s₂) :
    ∃ k ∈ s.heap.freeBlocks, (fclose kernelAllocator s₂ fd).2.heap.table.entries k = entryLast := by
  obtain ⟨root, paths, parsed, run⟩ := fopen_cases opened
  cases run with
  | refused => exact absurd ok (Int.lt_irrefl 0)
  | unopened => exact absurd ok (Int.lt_irrefl 0)
  | noDescriptor => exact absurd ok (Int.lt_irrefl 0)
  | @opened p d fs fs' i passes opened pointer lowest nonzero block =>
    have start : Singles (kernelOn.heap s.heap) [] := ⟨kernel, List.nodup_nil, fun _ mem => absurd mem List.not_mem_nil⟩
    obtain ⟨⟨k, free, rfl⟩, path⟩ := pathparserParse_singles parsed passes.nonzero start
    obtain ⟨f, item, type, file⟩ := fat16Open_singles opened pointer path
    obtain ⟨rfl, rfl⟩ := fsKZalloc_request block
    obtain ⟨now, heap, items⟩ := used.keeps (setOpen_blocks lowest.inside nonzero item type)
    have memory : s₂.heap = (kernelAllocator.malloc fs.heap sizeofFileDescriptor).2 := heap
    have items : s₂.fatItems = fs.fatItems := items
    refine ⟨k, free, ?_⟩
    rw [fclose_eq now, memory, items]
    suffices left : Singles (kernelOn.heap _) [s.heap.blockAddr k] from
      (left.single _ List.mem_cons_self).entry kernel left.kernel free.1
    obtain ⟨null, file⟩ | file := file
    · rw [null]
      have file := (file.malloc (by decide) (by decide) nonzero).freeNull
      exact file.swap.free.swap.free.free
    · have file := file.malloc (by decide) (by decide) nonzero
      exact file.swap.free.swap.free.swap.free.free

/-- The block table is what it was. -/
def TableKept (heap heap' : Heap) : Prop :=
  ∀ k < heap.table.total.toNat, heap'.table.entries k = heap.table.entries k

/-- **Opening and closing** never gives back what it took. -/
theorem closed_never_restored {s s₁ s₂ : Files Heap} (kernel : KernelHeap s.heap) {filename modeStr : List UInt8}
    {fd : Int} (opened : fopen kernelAllocator device s filename modeStr = some (fd, s₁)) (ok : 0 < fd)
    (used : FileRun device fd (fun _ _ => True) s₁ s₂) :
    ¬ TableKept s.heap (fclose kernelAllocator s₂ fd).2.heap := by
  obtain ⟨k, free, taken⟩ := closed_keeps_root kernel opened ok used
  intro kept
  rw [kept k free.1, free.2] at taken
  exact absurd taken (by decide)

end

theorem note_opens : ∃ s₁, fopen kernelAllocator emptyDisk (noteFiles newHeap 1) notePath [114] = some (1, s₁) ∧
    (fclose kernelAllocator s₁ 1).1 = 0 ∧ (fclose kernelAllocator s₁ 1).2.heap.table.entries 0 = entryLast := by
  have run : (fopen kernelAllocator emptyDisk (noteFiles newHeap 1) notePath [114]).map (fun r =>
      (r.1, (fclose kernelAllocator r.2 1).1, (fclose kernelAllocator r.2 1).2.heap.table.entries 0)) =
        some (1, 0, entryLast) := by
    unfold fopen pathparserParse parsePartsFrom fat16Open
    simp only [getDirectoryEntry_eq]
    decide +kernel
  obtain ⟨⟨fd, s₁⟩, opened, results⟩ := Option.map_eq_some_iff.mp run
  obtain ⟨rfl, rest⟩ := Prod.mk.inj results
  exact ⟨s₁, opened, Prod.mk.inj rest⟩

/-- With a seek and a refused read in between. -/
theorem closed_note_unrestored : ∃ s₁ s₂,
    fopen kernelAllocator emptyDisk (noteFiles newHeap 1) notePath [114] = some (1, s₁) ∧
      FileRun emptyDisk 1 (fun _ _ => True) s₁ s₂ ∧ ¬ TableKept newHeap (fclose kernelAllocator s₂ 1).2.heap := by
  obtain ⟨s₁, opened, _⟩ := note_opens
  have kernel : KernelHeap newHeap := (filledHeap_packed (Nat.zero_le _)).1
  have sought : FileRun emptyDisk 1 (fun _ _ => True) s₁ (fseek s₁ 1 0 seekSet).2 :=
    .call (.seek 0 seekSet) .opened trivial rfl
  have used := FileRun.call (.read 0 1) sought trivial rfl
  exact ⟨s₁, _, opened, used, closed_never_restored kernel opened (by decide) used⟩

/-- The root of the path to `A` stays on the heap after the file was opened and closed. -/
theorem closed_note_leaks : ∃ s₁,
    fopen kernelAllocator emptyDisk (noteFiles newHeap 1) notePath [114] = some (1, s₁) ∧
      (fclose kernelAllocator s₁ 1).1 = 0 ∧ ¬ TableKept newHeap (fclose kernelAllocator s₁ 1).2.heap := by
  obtain ⟨s₁, opened, closed, taken⟩ := note_opens
  refine ⟨s₁, opened, closed, fun kept => ?_⟩
  have free : newHeap.table.entries 0 = heapBlockTableEntryFree := newHeap_free (by decide)
  rw [kept 0 (by decide), free] at taken
  exact absurd taken (by decide)

end PeachOs
