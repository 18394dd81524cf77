import PeachOs.ProcessLoad

/-!
# The requests of a load

Once its data is read, a load asks the heap for a stack, for a task and for the 1026
blocks of an address space. Where these are granted it succeeds.
-/

namespace PeachOs

open Memory Address

section

variable {H : Type} {A : Allocator H} {F : FileOps H} {laws : HeapLaws A F} {k k₁ : Kernel H} {filename : List UInt8}
  {process p : UInt32} {slot r : Int}

/-- The heap after the requests of `task_new`. -/
def taskRequests (A : Allocator H) (h : H) : H := A.after (A.malloc h sizeofTask).2 pagingRequests 1026

/-- The heap after the requests of `process_load_for_slot` that follow the data. -/
def slotRequests (A : Allocator H) (h : H) : H := taskRequests A (A.malloc h peachosUserProgramStackSize).2

theorem taskInit_requests (t : UInt32) (granted : laws.granted (A.after k.heap pagingRequests 1026)) :
    ∃ k', taskInit A k t p = (0, k') ∧ k'.heap = A.after k.heap pagingRequests 1026 := by
  have heap := pagingNew4gb_heap (A := A) k.heap k.ram (pagingIsPresent ||| pagingAccessFromAll)
  rw [← heap] at granted ⊢
  obtain ⟨_, _, _, _, _, _, _, pool, _⟩ := pagingNew4gb_advance granted noBooks .kernel
  unfold taskInit
  rcases hp : pagingNew4gb A k.heap k.ram (pagingIsPresent ||| pagingAccessFromAll) with ⟨chunk, h, m⟩
  rw [hp] at pool
  have some : chunk ≠ 0 := pool.nonzero
  simp only [if_neg some]
  exact ⟨_, rfl, rfl⟩

theorem taskNew_requests (granted : laws.granted (taskRequests A k.heap)) :
    (taskNew A k p).2.heap = taskRequests A k.heap := by
  rcases hz : k.kZalloc A sizeofTask with ⟨t, k₁⟩
  obtain ⟨_, heap, _⟩ := Kernel.kZalloc_run hz
  unfold taskRequests at granted ⊢
  rw [← heap] at granted ⊢
  obtain ⟨k₂, init, heap₂⟩ := taskInit_requests (p := p) t granted
  obtain ⟨_, granted₁, _⟩ := taskInit_spec init (by rwa [heap₂])
  have some : t ≠ 0 := Kernel.kZalloc_nonzero hz granted₁
  rw [← heap₂]
  unfold taskNew
  rw [hz]
  dsimp only
  rw [if_neg some, init]
  dsimp only
  rw [if_neg (by decide), (taskListAppend_shape _ _).2]

theorem processFillSlot_requests (data : processLoadData A F k filename p = (r, k₁)) (read : 0 ≤ r)
    (granted : laws.granted (slotRequests A k₁.heap)) :
    (processFillSlot A F k filename process p slot).2.2.heap = slotRequests A k₁.heap := by
  rcases hs : k₁.kZalloc A peachosUserProgramStackSize with ⟨stack, k₂⟩
  obtain ⟨_, heap, _⟩ := Kernel.kZalloc_run hs
  unfold slotRequests at granted ⊢
  rw [← heap] at granted ⊢
  generalize made : k₂.modifyProc p (fun q => { q with
    filename := filename.take (peachosMaxPathLength - 1), stack, id := .ofInt slot }) = k₃
  have same : k₃.heap = k₂.heap := by rw [← made]; rfl
  rw [← same] at granted ⊢
  have new := taskNew_requests (p := p) granted
  rcases ht : taskNew A k₃ p with ⟨t, k₄⟩
  rw [ht] at new
  have new : k₄.heap = taskRequests A k₃.heap := new
  rw [← new] at granted ⊢
  obtain ⟨granted₂, task⟩ := taskNew_spec ht granted
  rw [same] at granted₂
  obtain ⟨_, task⟩ := task _ noBooks
  have some : stack ≠ 0 := Kernel.kZalloc_nonzero hs granted₂
  have pointer : errorI t ≠ 0 := error_small task.record.pool
  unfold processFillSlot
  simp only [data, if_neg (show ¬ r < 0 by omega), hs, if_neg some, made, ht, if_neg pointer]
  have windows := processMapMemory_heap (k₄.modifyProc p fun q => { q with task := t }) p
  rcases hm : processMapMemory (k₄.modifyProc p fun q => { q with task := t }) p with ⟨r', k₅⟩
  rw [hm] at windows
  dsimp only
  split
  · exact windows
  · exact windows

/-- A load that reads its data succeeds where its later requests are granted. -/
theorem processLoad_requests (process : UInt32) (free : ∃ slot < peachosMaxProcesses, k.processes slot = 0)
    (record : k.kZalloc A sizeofProcess = (p, k₁)) {k₂ : Kernel H}
    (data : processLoadData A F (k₁.modifyProc p fun _ => Process.zero) filename p = (r, k₂)) (read : 0 ≤ r)
    (granted : laws.granted (slotRequests A k₂.heap)) :
    ∃ k', processLoad A F k filename process = (0, p, k') ∧ laws.granted k'.heap := by
  obtain found := processGetFreeSlot_found free
  rcases freeSlotFrom_spec k peachosMaxProcesses 0 with ⟨full, _⟩ | ⟨slot, _, inside, empty, value⟩
  · rw [show processGetFreeSlot k = -eistkn from full] at found
    exact absurd found (by decide)
  have value : processGetFreeSlot k = slot := value
  have filled : (processFillSlot A F (k₁.modifyProc p fun _ => Process.zero) filename process p slot).2.2.heap = _ :=
    processFillSlot_requests data read granted
  rcases hf : processFillSlot A F (k₁.modifyProc p fun _ => Process.zero) filename process p slot with ⟨res, out, k₃⟩
  rw [hf] at filled
  have filled : k₃.heap = slotRequests A k₂.heap := filled
  rw [← filled] at granted
  obtain ⟨⟨rfl, rfl, granted₁, _⟩, _⟩ :=
    processFillSlot_spec hf granted (Function.update_self p _ _) (by rw [data]; exact read)
  have some : out ≠ 0 := Kernel.kZalloc_nonzero record granted₁
  have unused : processGet k slot = 0 := by
    have twelve : peachosMaxProcesses = 12 := rfl
    rw [processGet, if_neg (by omega), Int.toNat_natCast]
    exact empty
  refine ⟨k₃, ?_, granted⟩
  unfold processLoad processLoadForSlot
  simp only [value, if_neg (show ¬ (slot : Int) < 0 by omega), if_neg (not_not.mpr unused), record, if_neg some, hf]
  simp

end

end PeachOs
