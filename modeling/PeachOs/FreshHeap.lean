import PeachOs.ProcessLoad

/-!
# A fresh heap

On a heap nothing was released from, the first fit hands out the blocks in
order, so a counter says it all. With a file system that knows one file it keeps
the promises of `HeapLaws`, and a load that fits in the pool succeeds.
-/

namespace PeachOs

open Memory Address

/-- The heap is the number of blocks handed out. -/
def freshHeap : Allocator Nat where
  malloc next n := (.ofNat (0x1000000 + 4096 * next), next + blocksNeeded n)
  free next _ := next

/-- Every name is that of a file of `size` zero bytes. -/
def oneFile (size : UInt32) : FileOps Nat where
  fopen next m _ _ := (1, next, m)
  fstat next m _ := ((0, size), next, m)
  fread next m ptr size nmemb _ := (nmemb.toNat, next, memset m ptr 0 (size * nmemb).toNat)
  fclose next m _ := (0, next, m)

def freshAccounts : Accounts Nat where
  granted next := next ≤ 25600
  owned next x := 0x1000000 ≤ x.toNat ∧ x.toNat < 0x1000000 + 4096 * min next 25600

theorem freshAccounts_quiet (next : Nat) (m : Ram) :
    freshAccounts.Quiet next m (fun _ => False) next m :=
  ⟨id, fun _ => id, Agree.refl _ m⟩

/-- Where the next block is, while there is one. -/
theorem freshPointer {next : Nat} (inside : next ≤ 25600) :
    (UInt32.ofNat (0x1000000 + 4096 * next)).toNat = 0x1000000 + 4096 * next := by
  rw [UInt32.toNat_ofNat']
  omega

theorem freshPointer_ne_zero {next : Nat} (inside : next ≤ 25600) : UInt32.ofNat (0x1000000 + 4096 * next) ≠ 0 := by
  intro zero
  have place := freshPointer inside
  rw [zero, UInt32.toNat_zero] at place
  omega

theorem freshHeap_frame {next n : Nat} (fits : next + n ≤ 25600) {x : UInt32}
    (inside : InRange x (.ofNat (0x1000000 + 4096 * next)) (4096 * n)) :
    0x1000000 + 4096 * next ≤ (frame x).toNat ∧
      (frame x).toNat < 0x1000000 + 4096 * (next + n) := by
  rw [inRange_iff (by rw [UInt32.toNat_ofNat']; omega), UInt32.toNat_ofNat'] at inside
  rw [frame_toNat]
  omega

def freshLaws (size : UInt32) : HeapLaws freshHeap (oneFile size) where
  toAccounts := freshAccounts
  owned_pool next x owned := by
    have h : 0x1000000 ≤ x.toNat ∧ x.toNat < 0x1000000 + 4096 * min next 25600 := owned
    omega
  malloc_granted next n granted := Nat.le_trans (Nat.le_add_right next _) granted
  malloc_pool next n granted := by
    have fits : next + blocksNeeded n ≤ 25600 := granted
    have place := freshPointer (show next ≤ 25600 by omega)
    refine ⟨aligned_toNat.mpr ?_, ?_, ?_⟩
    · rw [freshHeap, place]
      omega
    · rw [freshHeap, place]
      omega
    · rw [freshHeap, place]
      omega
  malloc_fresh next n granted x inside owned := by
    have h := freshHeap_frame granted inside
    have h' : 0x1000000 ≤ (frame x).toNat ∧ (frame x).toNat < 0x1000000 + 4096 * min next 25600 := owned
    omega
  malloc_new next n granted x inside := by
    have fits : next + blocksNeeded n ≤ 25600 := granted
    have h := freshHeap_frame granted inside
    show 0x1000000 ≤ (frame x).toNat ∧ (frame x).toNat < 0x1000000 + 4096 * min (next + blocksNeeded n) 25600
    omega
  malloc_old next n x owned := by
    have h : 0x1000000 ≤ x.toNat ∧ x.toNat < 0x1000000 + 4096 * min next 25600 := owned
    show 0x1000000 ≤ x.toNat ∧ x.toNat < 0x1000000 + 4096 * min (next + blocksNeeded n) 25600
    omega
  free_granted _ _ granted := granted
  free_old next n x _ owned := by
    have h : 0x1000000 ≤ x.toNat ∧ x.toNat < 0x1000000 + 4096 * min next 25600 := owned
    show 0x1000000 ≤ x.toNat ∧ x.toNat < 0x1000000 + 4096 * min (next + blocksNeeded n) 25600
    omega
  fopen next m _ _ := freshAccounts_quiet next m
  fstat next m _ := freshAccounts_quiet next m
  fread next m ptr size nmemb _ := by
    refine ⟨id, fun _ => id, (memset_agree m ptr 0 _ (Nat.le_of_lt (UInt32.toNat_lt _))).mono ?_⟩
    rintro x ⟨_, off⟩ inside
    apply off
    unfold InRange at inside ⊢
    rw [UInt32.toNat_mul] at inside
    exact Nat.lt_of_lt_of_le inside (Nat.mod_le _ _)
  fclose next m _ := freshAccounts_quiet next m

theorem oneFile_readable (size : UInt32) (filename : List UInt8) :
    Readable (oneFile size) filename size := by
  constructor
  · exact fun _ _ => Int.one_ne_zero
  · exact fun _ _ _ => rfl
  · exact fun _ _ _ _ => rfl

/-! ## What a load takes from it -/

theorem freshHeap_kZalloc (k : Kernel Nat) (n : UInt32) :
    (k.kZalloc freshHeap n).2.heap = k.heap + blocksNeeded n := by
  obtain ⟨m', run, _⟩ := kZalloc_spec freshHeap k.heap k.ram n
  rw [Kernel.kZalloc, run]
  rfl

theorem freshHeap_pages (next n : Nat) : freshHeap.after next pagingRequests n = next + n := by
  induction n with
  | zero => rfl
  | succ n ih =>
    have one : blocksNeeded (pagingRequests n) = 1 := by
      unfold pagingRequests
      split <;> decide
    show freshHeap.after next pagingRequests n + blocksNeeded (pagingRequests n) = next + (n + 1)
    rw [ih, one, Nat.add_assoc]

theorem freshHeap_paging (next : Nat) (m : Ram) (flags : UInt8) :
    (pagingNew4gb freshHeap next m flags).2.1 = next + 1026 := by
  rw [pagingNew4gb_heap, freshHeap_pages]

theorem freshHeap_free4gb (next : Nat) (m : Ram) (chunk : UInt32) :
    pagingFree4gb freshHeap next m chunk = next := by
  have tables (directory : UInt32) (n : Nat) : freeTables freshHeap next m directory n = next := by
    induction n with
    | zero => rfl
    | succ n ih => exact ih
  unfold pagingFree4gb
  dsimp only
  rw [tables]
  rfl

theorem freshHeap_taskFree (k : Kernel Nat) (t : UInt32) : (taskFree freshHeap k t).2.heap = k.heap := by
  unfold taskFree
  rw [freshHeap_free4gb]
  dsimp only [freshHeap]
  rw [taskListRemove_heap]

theorem freshHeap_taskNew (k : Kernel Nat) (p : UInt32) :
    (taskNew freshHeap k p).2.heap ≤ k.heap + 1027 := by
  have one : blocksNeeded sizeofTask = 1 := by decide
  have record := freshHeap_kZalloc k sizeofTask
  unfold taskNew
  rcases hz : k.kZalloc freshHeap sizeofTask with ⟨task, k₁⟩
  rw [hz, one] at record
  dsimp only at record ⊢
  split
  · rw [freshHeap_taskFree]
    omega
  · have init : (taskInit freshHeap k₁ task p).2.heap = k₁.heap + 1026 := by
      unfold taskInit
      rcases hp : pagingNew4gb freshHeap k₁.heap k₁.ram (pagingIsPresent ||| pagingAccessFromAll)
        with ⟨chunk, h₁, m₁⟩
      have pages := freshHeap_paging k₁.heap k₁.ram (pagingIsPresent ||| pagingAccessFromAll)
      rw [hp] at pages
      dsimp only at pages ⊢
      split <;> exact pages
    rcases hi : taskInit freshHeap k₁ task p with ⟨res, k₂⟩
    rw [hi] at init
    dsimp only at init ⊢
    split
    · split
      · rw [freshHeap_taskFree]
        omega
      · dsimp only
        omega
    · rw [(taskListAppend_shape k₂ task).2]
      dsimp only
      omega

theorem freshHeap_newRecord (k : Kernel Nat) (fits : k.heap + 1 ≤ 25600) :
    ∃ t k₁, k.kZalloc freshHeap sizeofTask = (t, k₁) ∧ t.toNat = 0x1000000 + 4096 * k.heap ∧
      t ≠ 0 ∧ k₁.heap = k.heap + 1 := by
  have one : blocksNeeded sizeofTask = 1 := by decide
  have place := freshPointer (show k.heap ≤ 25600 by omega)
  have heap := freshHeap_kZalloc k sizeofTask
  obtain ⟨m', record, _⟩ := kZalloc_spec freshHeap k.heap k.ram sizeofTask
  rw [one] at heap
  rcases block : k.kZalloc freshHeap sizeofTask with ⟨t, k₁⟩
  rw [block] at heap
  rw [Kernel.kZalloc, record] at block
  obtain ⟨here, -⟩ := Prod.mk.inj block
  have place' : t.toNat = 0x1000000 + 4096 * k.heap := by
    rw [← here]
    exact place
  refine ⟨t, k₁, rfl, place', ?_, heap⟩
  rintro rfl
  have zero : (0 : UInt32).toNat = 0 := rfl
  omega

/-- `task_new` on the fresh heap. -/
theorem freshHeap_newTask (k : Kernel Nat) (process : UInt32) (fits : k.heap + 1027 ≤ 25600) :
    ∃ t k₁ k', k.kZalloc freshHeap sizeofTask = (t, k₁) ∧ taskNew freshHeap k process = (t, k') ∧
      t.toNat = 0x1000000 + 4096 * k.heap ∧ t ≠ 0 ∧ k'.heap = k.heap + 1027 ∧
      (pagingNew4gb freshHeap k₁.heap k₁.ram (pagingIsPresent ||| pagingAccessFromAll)).1 ≠ 0 := by
  obtain ⟨t, k₁, block, place, nonzero, heap₁⟩ := freshHeap_newRecord k (by omega)
  have pages := freshHeap_paging k₁.heap k₁.ram (pagingIsPresent ||| pagingAccessFromAll)
  have granted : (freshLaws 0).granted
      (pagingNew4gb freshHeap k₁.heap k₁.ram (pagingIsPresent ||| pagingAccessFromAll)).2.1 := by
    rw [pages, heap₁]
    exact Nat.le_trans (Nat.le_of_eq (by omega)) fits
  have directory :
      (pagingNew4gb freshHeap k₁.heap k₁.ram (pagingIsPresent ||| pagingAccessFromAll)).1 ≠ 0 := by
    obtain ⟨_, _, _, _, _, _, _, pool, _⟩ := pagingNew4gb_advance granted noBooks .kernel
    exact pool.nonzero
  have init : ∃ k₂, taskInit freshHeap k₁ t process = (0, k₂) ∧ k₂.heap = k₁.heap + 1026 := by
    unfold taskInit
    rcases hp : pagingNew4gb freshHeap k₁.heap k₁.ram (pagingIsPresent ||| pagingAccessFromAll)
      with ⟨chunk, h₁, m₁⟩
    rw [hp] at directory pages
    dsimp only at directory pages ⊢
    rw [if_neg directory]
    exact ⟨_, rfl, pages⟩
  obtain ⟨k₂, init, heap₂⟩ := init
  have made : taskNew freshHeap k process = (t, taskListAppend k₂ t) := by
    unfold taskNew
    rw [block]
    dsimp only
    rw [if_neg nonzero, init]
    dsimp only
    rw [if_neg (by decide)]
  refine ⟨t, k₁, _, block, made, place, nonzero, ?_, directory⟩
  rw [(taskListAppend_shape _ _).2]
  dsimp only
  omega

theorem freshHeap_loadData (size : UInt32) (k : Kernel Nat) (filename : List UInt8) (p : UInt32) :
    (processLoadData freshHeap (oneFile size) k filename p).2.heap ≤ k.heap + blocksNeeded size := by
  have data := freshHeap_kZalloc k size
  unfold processLoadData processLoadBinary processReadBinary
  dsimp only [oneFile]
  rw [if_neg (by decide), if_neg (by decide)]
  rcases hz : k.kZalloc freshHeap size with ⟨ptr, k₁⟩
  rw [hz] at data
  dsimp only at data ⊢
  split
  · exact Nat.le_of_eq data
  · exact Nat.le_of_eq data

theorem freshHeap_fillSlot (size : UInt32) (k : Kernel Nat) (filename : List UInt8) (process p : UInt32)
    (slot : Int) : (processFillSlot freshHeap (oneFile size) k filename process p slot).2.2.heap ≤
      k.heap + blocksNeeded size + 1031 := by
  have data := freshHeap_loadData size k filename p
  unfold processFillSlot
  rcases hl : processLoadData freshHeap (oneFile size) k filename p with ⟨r, k₁⟩
  rw [hl] at data
  dsimp only at data ⊢
  split
  · dsimp only
    omega
  have four : blocksNeeded peachosUserProgramStackSize = 4 := by decide
  have stack := freshHeap_kZalloc k₁ peachosUserProgramStackSize
  rcases hs : k₁.kZalloc freshHeap peachosUserProgramStackSize with ⟨ptr, k₂⟩
  rw [hs, four] at stack
  dsimp only at stack ⊢
  split
  · dsimp only
    omega
  have task := freshHeap_taskNew (k₂.modifyProc p fun q => { q with
    filename := filename.take (peachosMaxPathLength - 1), stack := ptr, id := .ofInt slot }) p
  rcases ht : taskNew freshHeap (k₂.modifyProc p fun q => { q with
    filename := filename.take (peachosMaxPathLength - 1), stack := ptr, id := .ofInt slot }) p with ⟨t, k₃⟩
  rw [ht] at task
  have task : k₃.heap ≤ k₂.heap + 1027 := task
  dsimp only
  split
  · dsimp only
    omega
  have windows := processMapMemory_heap (k₃.modifyProc p fun q => { q with task := t }) p
  rcases hm : processMapMemory (k₃.modifyProc p fun q => { q with task := t }) p with ⟨r', k₄⟩
  rw [hm] at windows
  have windows : k₄.heap = k₃.heap := windows
  dsimp only
  split
  · dsimp only
    omega
  · dsimp only
    omega

theorem freshHeap_load (size : UInt32) (k : Kernel Nat) (filename : List UInt8) (process : UInt32) :
    (processLoad freshHeap (oneFile size) k filename process).2.2.heap ≤
      k.heap + blocksNeeded size + 1033 := by
  unfold processLoad
  dsimp only
  split
  · dsimp only
    omega
  unfold processLoadForSlot
  split
  · dsimp only
    omega
  have two : blocksNeeded sizeofProcess = 2 := by decide
  have record := freshHeap_kZalloc k sizeofProcess
  rcases hz : k.kZalloc freshHeap sizeofProcess with ⟨p, k₁⟩
  rw [hz, two] at record
  dsimp only at record ⊢
  split
  · dsimp only
    omega
  have slot := freshHeap_fillSlot size (k₁.modifyProc p fun _ => Process.zero) filename process p
    (processGetFreeSlot k)
  rcases hf : processFillSlot freshHeap (oneFile size) (k₁.modifyProc p fun _ => Process.zero) filename
    process p (processGetFreeSlot k) with ⟨res, out, k₂⟩
  rw [hf] at slot
  have slot : k₂.heap ≤ k₁.heap + blocksNeeded size + 1031 := slot
  dsimp only
  split
  · rw [freshHeap_taskFree]
    omega
  · omega

/-- While a process fits in the pool, a load succeeds. -/
theorem freshHeap_loads (size : UInt32) {k : Kernel Nat} (filename : List UInt8) (process : UInt32)
    (free : ∃ slot < peachosMaxProcesses, k.processes slot = 0)
    (fits : k.heap + blocksNeeded size + 1033 ≤ 25600) :
    ∃ p k', processLoad freshHeap (oneFile size) k filename process = (0, p, k') ∧
      (k'.procs p).size = size ∧ (freshLaws size).granted k'.heap := by
  have granted : (freshLaws size).granted
      (processLoad freshHeap (oneFile size) k filename process).2.2.heap :=
    Nat.le_trans (freshHeap_load size k filename process) fits
  obtain ⟨p, k', run, bytes⟩ := processLoad_returns (oneFile_readable size filename) free granted
  rw [run] at granted
  exact ⟨p, k', run, bytes, granted⟩

/-- The kernel with its own directory and no process. -/
def bootKernel {H : Type} (A : Allocator H) (h : H) (m : Ram) : Kernel H :=
  let (kernelPageChunk, heap, ram) := pagingNew4gb A h m
    (pagingIsWriteable ||| pagingIsPresent ||| pagingAccessFromAll)
  { heap, ram, kernelPageChunk
    tasks := fun _ => Task.zero, currentTask := 0, taskListHead := 0, taskListTail := 0
    procs := fun _ => Process.zero, currentProcess := 0, processes := fun _ => 0 }

theorem bootKernel_chunk {H : Type} (A : Allocator H) (h : H) (m : Ram) :
    pagingNew4gb A h m (pagingIsWriteable ||| pagingIsPresent ||| pagingAccessFromAll) =
      ((bootKernel A h m).kernelPageChunk, (bootKernel A h m).heap, (bootKernel A h m).ram) := by
  unfold bootKernel
  rcases pagingNew4gb A h m (pagingIsWriteable ||| pagingIsPresent ||| pagingAccessFromAll) with ⟨chunk, h', m'⟩
  rfl

theorem bootKernel_fresh (m : Ram) : (bootKernel freshHeap 0 m).heap = 1026 := by
  have pages := freshHeap_paging 0 m (pagingIsWriteable ||| pagingIsPresent ||| pagingAccessFromAll)
  rw [bootKernel_chunk] at pages
  dsimp only at pages
  exact pages

def freshKernel : Kernel Nat := bootKernel freshHeap 0 fun _ => 0

theorem freshKernel_heap : freshKernel.heap = 1026 := bootKernel_fresh _

end PeachOs
