import PeachOs.FreshHeap
import PeachOs.Lib.LinkedList

/-!
# The task list

`task_new` links a task after the tail and `task_free` takes one out. Taking out
the head of a longer list leaves the new head with a link back to the freed
task; as long as this is avoided the list stays doubly linked.
-/

namespace PeachOs

open LinkedList
open Function (update)

variable {H : Type} {A : Allocator H}

def Kernel.next (k : Kernel H) (task : UInt32) : UInt32 := (k.tasks task).next

def Kernel.prev (k : Kernel H) (task : UInt32) : UInt32 := (k.tasks task).prev

/-- The list holds the tasks `live`, and the current task is one of them. -/
structure TaskList (k : Kernel H) (live : List UInt32) : Prop where
  linked : Linked k.next k.prev 0 k.taskListHead k.taskListTail live
  none : live = [] → k.currentTask = 0
  current : live ≠ [] → k.currentTask ∈ live

/-- Runs of `task_new` and of `task_free` on live tasks, with the live tasks in
the order they were made. Every request is granted, and the block of a new task
is none of a live one. `guard` is what holds before a task is freed. -/
inductive TaskRun (A : Allocator H) (guard : Kernel H → UInt32 → Prop) : Kernel H → List UInt32 → Prop
  | start {k : Kernel H} (head : k.taskListHead = 0) (tail : k.taskListTail = 0)
      (current : k.currentTask = 0) : TaskRun A guard k []
  | new {k k₁ k' : Kernel H} {live : List UInt32} {process t t' : UInt32} (run : TaskRun A guard k live)
      (block : k.kZalloc A sizeofTask = (t, k₁)) (nonzero : t ≠ 0) (fresh : t ∉ live)
      (directory : (pagingNew4gb A k₁.heap k₁.ram (pagingIsPresent ||| pagingAccessFromAll)).1 ≠ 0)
      (made : taskNew A k process = (t', k')) : TaskRun A guard k' (live ++ [t])
  | free {k : Kernel H} {live : List UInt32} {t : UInt32} (run : TaskRun A guard k live) (mem : t ∈ live)
      (allowed : guard k t) : TaskRun A guard (taskFree A k t).2 (live.erase t)

/-! ## One step -/

theorem modifyTask_next (k : Kernel H) (a : UInt32) (f : Task → Task) :
    (k.modifyTask a f).next = update k.next a (f (k.tasks a)).next := by
  funext x
  by_cases here : x = a
  · subst here
    simp only [Kernel.next, Kernel.modifyTask, Function.update_self]
  · simp only [Kernel.next, Kernel.modifyTask, Function.update_of_ne here]

theorem modifyTask_prev (k : Kernel H) (a : UInt32) (f : Task → Task) :
    (k.modifyTask a f).prev = update k.prev a (f (k.tasks a)).prev := by
  funext x
  by_cases here : x = a
  · subst here
    simp only [Kernel.prev, Kernel.modifyTask, Function.update_self]
  · simp only [Kernel.prev, Kernel.modifyTask, Function.update_of_ne here]

/-- A new task has no links, and the others keep theirs. -/
theorem taskInit_links {k : Kernel H} {t p : UInt32}
    (directory : (pagingNew4gb A k.heap k.ram (pagingIsPresent ||| pagingAccessFromAll)).1 ≠ 0) :
    ∃ k', taskInit A k t p = (0, k') ∧ k'.next = update k.next t 0 ∧ k'.prev = update k.prev t 0 ∧
      k'.taskListHead = k.taskListHead ∧ k'.taskListTail = k.taskListTail ∧
      k'.currentTask = k.currentTask := by
  unfold taskInit
  rcases hp : pagingNew4gb A k.heap k.ram (pagingIsPresent ||| pagingAccessFromAll) with ⟨chunk, h, m⟩
  rw [hp] at directory
  dsimp only at directory ⊢
  rw [if_neg directory]
  refine ⟨_, rfl, ?_, ?_, rfl, rfl, rfl⟩
  · funext x
    by_cases here : x = t
    · subst here
      simp only [Kernel.next, Kernel.modifyTask, Kernel.setTask, Function.update_self]
      rfl
    · simp only [Kernel.next, Kernel.modifyTask, Kernel.setTask, Function.update_of_ne here]
  · funext x
    by_cases here : x = t
    · subst here
      simp only [Kernel.prev, Kernel.modifyTask, Kernel.setTask, Function.update_self]
      rfl
    · simp only [Kernel.prev, Kernel.modifyTask, Kernel.setTask, Function.update_of_ne here]

theorem taskListAppend_links (k : Kernel H) (t : UInt32) (some : k.taskListHead ≠ 0) :
    (taskListAppend k t).next = update k.next k.taskListTail t ∧
      (taskListAppend k t).prev = update k.prev t k.taskListTail ∧
      (taskListAppend k t).taskListHead = k.taskListHead ∧ (taskListAppend k t).taskListTail = t ∧
      (taskListAppend k t).currentTask = k.currentTask := by
  unfold taskListAppend
  rw [if_neg some]
  refine ⟨?_, ?_, rfl, rfl, rfl⟩
  · have outer := modifyTask_next (k.modifyTask k.taskListTail fun tail => { tail with next := t }) t
      fun new => { new with prev := k.taskListTail }
    rw [← modifyTask_next k k.taskListTail fun tail => { tail with next := t }]
    exact outer.trans (Function.update_eq_self t _)
  · have inner := modifyTask_prev k k.taskListTail fun tail => { tail with next := t }
    have outer := modifyTask_prev (k.modifyTask k.taskListTail fun tail => { tail with next := t }) t
      fun new => { new with prev := k.taskListTail }
    have kept : (k.modifyTask k.taskListTail fun tail => { tail with next := t }).prev = k.prev :=
      inner.trans (Function.update_eq_self k.taskListTail k.prev)
    rw [kept] at outer
    exact outer

/-- A new task is the list's last. -/
theorem TaskList.new {k k₁ k' : Kernel H} {live : List UInt32} {process t t' : UInt32}
    (list : TaskList k live) (block : k.kZalloc A sizeofTask = (t, k₁)) (nonzero : t ≠ 0)
    (fresh : t ∉ live)
    (directory : (pagingNew4gb A k₁.heap k₁.ram (pagingIsPresent ||| pagingAccessFromAll)).1 ≠ 0)
    (made : taskNew A k process = (t', k')) : TaskList k' (live ++ [t]) := by
  obtain ⟨k₂, init, next, prev, head, tail, current⟩ := taskInit_links (t := t) (p := process) directory
  have same : k₁.next = k.next ∧ k₁.prev = k.prev ∧ k₁.taskListHead = k.taskListHead ∧
      k₁.taskListTail = k.taskListTail ∧ k₁.currentTask = k.currentTask := by
    obtain ⟨m', alloc, _⟩ := kZalloc_spec A k.heap k.ram sizeofTask
    rw [Kernel.kZalloc, alloc] at block
    obtain ⟨-, rfl⟩ := Prod.mk.inj block
    exact ⟨rfl, rfl, rfl, rfl, rfl⟩
  obtain ⟨next₁, prev₁, head₁, tail₁, current₁⟩ := same
  rw [next₁] at next
  rw [prev₁] at prev
  rw [head₁] at head
  rw [tail₁] at tail
  rw [current₁] at current
  unfold taskNew at made
  rw [block] at made
  dsimp only at made
  rw [if_neg nonzero, init] at made
  dsimp only at made
  rw [if_neg (by decide)] at made
  obtain ⟨-, rfl⟩ := Prod.mk.inj made
  by_cases empty : live = []
  · subst empty
    unfold taskListAppend
    rw [if_pos (head.trans (list.linked.nil_iff.mp rfl))]
    refine ⟨?_, fun none => absurd none (by simp), fun _ => List.mem_singleton.mpr rfl⟩
    apply linked_singleton nonzero
    · show k₂.next t = 0
      rw [next, Function.update_self]
    · show k₂.prev t = 0
      rw [prev, Function.update_self]
  · have some : k₂.taskListHead ≠ 0 := by
      rw [head]
      exact fun none => empty (list.linked.nil_iff.mpr none)
    obtain ⟨next', prev', head', tail', current'⟩ := taskListAppend_links k₂ t some
    have apart {x : UInt32} (hx : x ∈ live) : x ≠ t := by
      rintro rfl
      exact fresh hx
    have last := apart (list.linked.segment.last_mem empty)
    constructor
    · rw [head', tail', head, next', prev', next, prev, tail]
      apply list.linked.append empty fresh nonzero
      · intro x hx ne
        rw [Function.update_of_ne ne, Function.update_of_ne (apart hx)]
      · intro x hx
        rw [Function.update_of_ne (apart hx), Function.update_of_ne (apart hx)]
      · rw [Function.update_self]
      · rw [Function.update_of_ne last.symm, Function.update_self]
      · rw [Function.update_self]
    · intro none
      exact absurd none (by simp)
    · intro _
      rw [current', current]
      exact List.mem_append_left _ (list.current empty)

/-! ## Taking a task out -/

theorem taskUnlink_shape (k : Kernel H) (t : UInt32) :
    (taskUnlink k t).taskListHead = k.taskListHead ∧ (taskUnlink k t).taskListTail = k.taskListTail ∧
      (taskUnlink k t).currentTask = k.currentTask := by
  unfold taskUnlink
  dsimp only
  split
  · split <;> exact ⟨rfl, rfl, rfl⟩
  · exact ⟨rfl, rfl, rfl⟩

/-- What `task_list_remove` does to the list's ends and to the current task. -/
theorem taskListRemove_links (k : Kernel H) (t : UInt32) :
    (taskListRemove k t).next = (taskUnlink k t).next ∧ (taskListRemove k t).prev = (taskUnlink k t).prev ∧
      (taskListRemove k t).taskListHead =
        (if t = k.taskListHead then (taskUnlink k t).next t else k.taskListHead) ∧
      (taskListRemove k t).taskListTail =
        (if t = k.taskListTail then (taskUnlink k t).prev t else k.taskListTail) ∧
      (taskListRemove k t).currentTask =
        if t = k.currentTask then
          if (taskUnlink k t).next t = 0 then
            if t = k.taskListHead then (taskUnlink k t).next t else k.taskListHead
          else (taskUnlink k t).next t
        else k.currentTask := by
  obtain ⟨head, tail, current⟩ := taskUnlink_shape k t
  unfold taskListRemove
  rw [← head, ← tail, ← current]
  generalize taskUnlink k t = k₁
  dsimp only
  -- one end after the other, each from the state before it
  generalize def₂ : (if t = k₁.taskListHead then { k₁ with taskListHead := (k₁.tasks t).next } else k₁) = k₂
  have at₂ : k₂.tasks = k₁.tasks ∧
      k₂.taskListHead = (if t = k₁.taskListHead then k₁.next t else k₁.taskListHead) ∧
      k₂.taskListTail = k₁.taskListTail ∧ k₂.currentTask = k₁.currentTask := by
    rw [← def₂]
    split <;> exact ⟨rfl, rfl, rfl, rfl⟩
  obtain ⟨tasks₂, head₂, tail₂, current₂⟩ := at₂
  generalize def₃ : (if t = k₂.taskListTail then { k₂ with taskListTail := (k₂.tasks t).prev } else k₂) = k₃
  have at₃ : k₃.tasks = k₂.tasks ∧ k₃.taskListHead = k₂.taskListHead ∧
      k₃.taskListTail = (if t = k₂.taskListTail then k₂.prev t else k₂.taskListTail) ∧
      k₃.currentTask = k₂.currentTask := by
    rw [← def₃]
    split <;> exact ⟨rfl, rfl, rfl, rfl⟩
  obtain ⟨tasks₃, head₃, tail₃, current₃⟩ := at₃
  have links : k₃.next = k₁.next ∧ k₃.prev = k₁.prev ∧ k₂.prev = k₁.prev := by
    refine ⟨?_, ?_, ?_⟩
    · funext x
      rw [Kernel.next, tasks₃, tasks₂, Kernel.next]
    · funext x
      rw [Kernel.prev, tasks₃, tasks₂, Kernel.prev]
    · funext x
      rw [Kernel.prev, tasks₂, Kernel.prev]
  rw [← current₂, ← current₃, ← head₂, ← tail₂, ← links.1, ← links.2.1, ← head₃]
  rw [links.2.2, ← links.2.1] at tail₃
  rw [← tail₃]
  by_cases now : t = k₃.currentTask
  · rw [if_pos now, if_pos now]
    refine ⟨rfl, rfl, rfl, rfl, ?_⟩
    show taskGetNext k₃ = _
    rw [taskGetNext, ← now]
    rfl
  · rw [if_neg now, if_neg now]
    exact ⟨rfl, rfl, rfl, rfl, rfl⟩

/-- `task_list_remove` of the only task. -/
theorem TaskList.remove_only {k : Kernel H} {t : UInt32} (list : TaskList k [t]) :
    TaskList (taskListRemove k t) [] := by
  obtain ⟨next', prev', head', tail', current'⟩ := taskListRemove_links k t
  obtain ⟨head, back, tail, forth⟩ := list.linked.segment
  have prev : (k.tasks t).prev = 0 := back
  have current : k.currentTask = t := List.mem_singleton.mp (list.current (by simp))
  have unlink : taskUnlink k t = k := by
    unfold taskUnlink
    rw [if_neg (not_not.mpr prev)]
  rw [unlink] at head' tail' current'
  rw [if_pos head.symm, ← forth] at head'
  rw [if_pos tail.symm, back] at tail'
  rw [if_pos current.symm, if_pos forth.symm, if_pos head.symm, ← forth] at current'
  refine ⟨?_, fun _ => current', fun some => absurd rfl some⟩
  rw [head', tail']
  exact linked_nil

/-- The links after a node with a node before it has been unlinked. -/
theorem taskUnlink_links (k : Kernel H) {p t : UInt32} (back : k.prev t = p) (inner : p ≠ 0)
    (apart : p ≠ t) :
    (taskUnlink k t).next = update k.next p (k.next t) ∧
      (taskUnlink k t).prev = if k.next t = 0 then k.prev else update k.prev (k.next t) p := by
  have first := modifyTask_next k p fun prev => { prev with next := (k.tasks t).next }
  have kept : (k.modifyTask p fun prev => { prev with next := (k.tasks t).next }).prev = k.prev :=
    (modifyTask_prev k p _).trans (Function.update_eq_self p k.prev)
  have own : (k.modifyTask p fun prev => { prev with next := (k.tasks t).next }).tasks t = k.tasks t := by
    simp only [Kernel.modifyTask, Function.update_of_ne apart.symm]
  have back' : (k.tasks t).prev = p := back
  unfold taskUnlink
  rw [back', if_pos inner]
  dsimp only
  rw [own, back']
  by_cases last : (k.tasks t).next = 0
  · have last' : k.next t = 0 := last
    rw [if_neg (not_not.mpr last), if_pos last']
    exact ⟨first, kept⟩
  · have last' : k.next t ≠ 0 := last
    rw [if_pos last, if_neg last', ← kept]
    refine ⟨?_, modifyTask_prev _ _ _⟩
    have second := modifyTask_next (k.modifyTask p fun prev => { prev with next := (k.tasks t).next })
      (k.tasks t).next fun next => { next with prev := p }
    exact (second.trans (Function.update_eq_self _ _)).trans first

/-- `task_list_remove` of a task that is not the first. -/
theorem TaskList.remove_inner {k : Kernel H} {l₀ l₂ : List UInt32} {p t : UInt32}
    (list : TaskList k (l₀ ++ p :: t :: l₂)) : TaskList (taskListRemove k t) (l₀ ++ p :: l₂) := by
  obtain ⟨next', prev', head', tail', current'⟩ := taskListRemove_links k t
  have linked := list.linked
  obtain ⟨m, first, _, _, back, rest⟩ := linked.around
  have inner : p ≠ 0 := by
    rintro rfl
    exact linked.proper (List.mem_append_right _ List.mem_cons_self)
  have nodup := (List.nodup_append.mp linked.nodup).2.1
  rw [List.nodup_cons, List.nodup_cons] at nodup
  have apart : p ≠ t := by
    rintro rfl
    exact nodup.1 List.mem_cons_self
  have notHead : t ≠ k.taskListHead := by
    rintro same
    cases l₀ with
    | nil => exact apart (first.2.symm ▸ same.symm)
    | cons x xs =>
      have here : k.taskListHead = x := first.1
      have twice := List.disjoint_of_nodup_append linked.nodup (List.mem_cons_self (a := x))
      apply twice
      rw [← here, ← same]
      exact List.mem_cons_of_mem p List.mem_cons_self
  obtain ⟨next₁, prev₁⟩ := taskUnlink_links k back inner apart
  have own : (taskUnlink k t).next t = k.next t := by
    rw [next₁, Function.update_of_ne apart.symm]
  rw [if_neg notHead] at head'
  rw [own, if_neg notHead] at current'
  have member : k.currentTask ∈ l₀ ++ p :: t :: l₂ := list.current (by simp)
  have headMem : k.taskListHead ∈ l₀ ++ p :: l₂ := by
    have mem := linked.head_mem (by simp)
    rw [List.mem_append, List.mem_cons, List.mem_cons] at mem
    rw [List.mem_append, List.mem_cons]
    exact mem.imp_right fun mem => mem.imp_right fun mem => mem.resolve_left (Ne.symm notHead)
  have stays (ne : t ≠ k.currentTask) : k.currentTask ∈ l₀ ++ p :: l₂ := by
    rw [List.mem_append, List.mem_cons, List.mem_cons] at member
    rw [List.mem_append, List.mem_cons]
    exact member.imp_right fun mem => mem.imp_right fun mem => mem.resolve_left ne.symm
  cases l₂ with
  | nil =>
    have last : k.next t = 0 := rest.2.symm
    have tail : t = k.taskListTail := rest.1.symm
    have backOwn : (taskUnlink k t).prev t = p := by
      rw [prev₁, if_pos last, back]
    rw [if_pos last] at prev₁
    rw [if_pos tail, backOwn] at tail'
    refine ⟨?_, fun none => absurd none (by simp), fun _ => ?_⟩
    · rw [head', tail', next', prev', prev₁]
      apply linked.remove_last
      · intro x ne
        rw [next₁, Function.update_of_ne ne]
      · rw [next₁, Function.update_self, last]
    · rw [current']
      by_cases now : t = k.currentTask
      · rw [if_pos now, if_pos last]
        exact headMem
      · rw [if_neg now]
        exact stays now
  | cons n l₃ =>
    obtain ⟨here, forth, rest⟩ := rest
    have some : n ≠ 0 := by
      rintro rfl
      exact linked.proper (by simp)
    rw [here] at next₁ prev₁ current'
    rw [if_neg some] at prev₁ current'
    have notTail : t ≠ k.taskListTail := by
      rintro same
      have mem : k.taskListTail ∈ n :: l₃ :=
        Segment.last_mem ⟨here, forth, rest⟩ (List.cons_ne_nil n l₃)
      exact nodup.2.1 (same ▸ mem)
    rw [if_neg notTail] at tail'
    refine ⟨?_, fun none => absurd none (by simp), fun _ => ?_⟩
    · rw [head', tail', next', prev']
      apply linked.remove_inner
      · intro x ne
        rw [next₁, Function.update_of_ne ne]
      · intro x ne
        rw [prev₁, Function.update_of_ne ne]
      · rw [next₁, Function.update_self]
      · rw [prev₁, Function.update_self]
    · rw [current']
      by_cases now : t = k.currentTask
      · rw [if_pos now]
        exact List.mem_append_right _ (List.mem_cons_of_mem p List.mem_cons_self)
      · rw [if_neg now]
        exact stays now

/-! ## Runs -/

/-- `task_free` is not called on the first task of a list with others. -/
def SparesHead (k : Kernel H) (t : UInt32) : Prop := t = k.taskListHead → t = k.taskListTail

theorem erase_inner {l₀ l₂ : List UInt32} {p t : UInt32} (nodup : (l₀ ++ p :: t :: l₂).Nodup) :
    (l₀ ++ p :: t :: l₂).erase t = l₀ ++ p :: l₂ := by
  obtain ⟨_, inner, apart⟩ := List.nodup_append.mp nodup
  have off : t ∉ l₀ := fun mem => apart t mem t (by simp) rfl
  have ne : p ≠ t := by
    rintro rfl
    exact (List.nodup_cons.mp inner).1 List.mem_cons_self
  rw [List.erase_append_right _ off, List.erase_cons_tail (by simpa using ne), List.erase_cons_head]

theorem TaskList.free {k : Kernel H} {live : List UInt32} {t : UInt32} (list : TaskList k live)
    (mem : t ∈ live) (spares : SparesHead k t) : TaskList (taskFree A k t).2 (live.erase t) := by
  have start : TaskList { k with heap := pagingFree4gb A k.heap k.ram (k.tasks t).pageDirectory } live :=
    ⟨list.linked, list.none, list.current⟩
  have removed : TaskList (taskListRemove
      { k with heap := pagingFree4gb A k.heap k.ram (k.tasks t).pageDirectory } t) (live.erase t) := by
    by_cases first : k.prev t = 0
    · obtain ⟨l₁, l₂, rfl⟩ := List.append_of_mem mem
      cases l₁ with
      | nil =>
        have head : k.taskListHead = t := list.linked.segment.1
        have tail := spares head.symm
        cases l₂ with
        | nil =>
          rw [List.nil_append, List.erase_cons_head]
          exact start.remove_only
        | cons n l₃ =>
          have inside := Segment.last_mem list.linked.segment.2.2 (List.cons_ne_nil n l₃)
          rw [← tail] at inside
          exact absurd inside (List.nodup_cons.mp list.linked.nodup).1
      | cons x xs =>
        obtain ⟨m, r, front, rfl, back, _⟩ := segment_append.mp list.linked.segment
        have inside := Segment.last_mem front (List.cons_ne_nil x xs)
        rw [← back, first] at inside
        exact absurd (List.mem_append_left _ inside) list.linked.proper
    · obtain ⟨l₀, p, l₂, rfl⟩ := list.linked.split mem first
      rw [erase_inner list.linked.nodup]
      exact start.remove_inner
  exact ⟨removed.linked, removed.none, removed.current⟩

theorem TaskRun.mono {guard guard' : Kernel H → UInt32 → Prop} {k : Kernel H} {live : List UInt32}
    (weaker : ∀ k t, guard k t → guard' k t) (run : TaskRun A guard k live) : TaskRun A guard' k live := by
  induction run with
  | start head tail current => exact .start head tail current
  | new _ block nonzero fresh directory made ih => exact ih.new block nonzero fresh directory made
  | free _ mem allowed ih => exact ih.free mem (weaker _ _ allowed)

theorem TaskRun.list {k : Kernel H} {live : List UInt32} (run : TaskRun A SparesHead k live) :
    TaskList k live := by
  induction run with
  | start head tail current =>
    refine ⟨?_, fun _ => current, fun some => absurd rfl some⟩
    rw [head, tail]
    exact linked_nil
  | new run block nonzero fresh directory made ih => exact ih.new block nonzero fresh directory made
  | free run mem allowed ih => exact ih.free mem allowed

/-- The list's links as one meets them: both walks visit the live tasks, each
task is reached back from the next, and no link leads to a freed task. -/
structure WellLinked (k : Kernel H) (live : List UInt32) : Prop where
  forth : ∀ n, live.length ≤ n → visit k.next 0 n k.taskListHead = live
  back : ∀ n, live.length ≤ n → visit k.prev 0 n k.taskListTail = live.reverse
  head : live ≠ [] → k.prev k.taskListHead = 0
  tail : live ≠ [] → k.next k.taskListTail = 0
  returns : ∀ x ∈ live, x = k.taskListTail ∨ k.prev (k.next x) = x
  links : ∀ x ∈ live, (k.next x = 0 ∨ k.next x ∈ live) ∧ (k.prev x = 0 ∨ k.prev x ∈ live)
  current : (live = [] ↔ k.currentTask = 0) ∧ (live ≠ [] → k.currentTask ∈ live)

theorem TaskList.wellLinked {k : Kernel H} {live : List UInt32} (list : TaskList k live) :
    WellLinked k live := by
  have forward := list.linked.segment
  have backward := forward.reverse
  have proper := list.linked.proper
  have proper' : (0 : UInt32) ∉ live.reverse := by rwa [List.mem_reverse]
  constructor
  · exact fun n long => forward.visit proper long
  · exact fun n long => backward.visit proper' (by rwa [List.length_reverse])
  · intro some
    cases live with
    | nil => exact absurd rfl some
    | cons x xs => exact forward.1 ▸ forward.2.1
  · intro some
    cases hl : live.reverse with
    | nil => exact absurd (List.reverse_eq_nil_iff.mp hl) some
    | cons x xs =>
      rw [hl] at backward
      exact backward.1 ▸ backward.2.1
  · intro x hx
    rcases forward.next_mem hx with ⟨last, _⟩ | ⟨_, back⟩
    · exact Or.inl last
    · exact Or.inr back
  · intro x hx
    constructor
    · rcases forward.next_mem hx with ⟨_, last⟩ | ⟨inside, _⟩
      · exact Or.inl last
      · exact Or.inr inside
    · rcases backward.next_mem (List.mem_reverse.mpr hx) with ⟨_, first⟩ | ⟨inside, _⟩
      · exact Or.inl first
      · exact Or.inr (List.mem_reverse.mp inside)
  · refine ⟨⟨list.none, fun zero => ?_⟩, list.current⟩
    by_contra some
    exact proper (zero ▸ list.current some)

/-- **The task list stays doubly linked** in every run that does not free the
first of several tasks. -/
theorem tasks_wellLinked {k : Kernel H} {live : List UInt32} (run : TaskRun A SparesHead k live) :
    WellLinked k live :=
  run.list.wellLinked

/-- Freeing the first of several tasks leaves the new head linked to it. -/
theorem TaskList.free_head {k : Kernel H} {a b : UInt32} {l : List UInt32} (list : TaskList k (a :: b :: l)) :
    (taskFree A k a).2.taskListHead = b ∧ (taskFree A k a).2.prev b = a := by
  obtain ⟨head, none, next, back, _⟩ := list.linked.segment
  obtain ⟨_, prev', head', _, _⟩ := taskListRemove_links
    { k with heap := pagingFree4gb A k.heap k.ram (k.tasks a).pageDirectory } a
  have unlink : taskUnlink
      { k with heap := pagingFree4gb A k.heap k.ram (k.tasks a).pageDirectory } a =
      { k with heap := pagingFree4gb A k.heap k.ram (k.tasks a).pageDirectory } := by
    have none' : (k.tasks a).prev = 0 := none
    unfold taskUnlink
    rw [if_neg (not_not.mpr none')]
  rw [unlink] at prev' head'
  rw [if_pos head.symm] at head'
  constructor
  · exact head'.trans next
  · exact (congrFun prev' b).trans back

/-- A task made on the fresh heap joins a run whose tasks lie below its block. -/
theorem freshHeap_run {guard : Kernel Nat → UInt32 → Prop} {k : Kernel Nat} {live : List UInt32}
    (run : TaskRun freshHeap guard k live) (fits : k.heap + 1027 ≤ 25600)
    (below : ∀ x ∈ live, x.toNat < 0x1000000 + 4096 * k.heap) :
    ∃ t k', TaskRun freshHeap guard k' (live ++ [t]) ∧ t ≠ 0 ∧ t ∉ live ∧ k'.heap = k.heap + 1027 ∧
      ∀ x ∈ live ++ [t], x.toNat < 0x1000000 + 4096 * k'.heap := by
  obtain ⟨t, k₁, k', block, made, place, nonzero, heap, directory⟩ := freshHeap_newTask k 0 fits
  have fresh : t ∉ live := by
    intro mem
    have := below t mem
    omega
  refine ⟨t, k', run.new block nonzero fresh directory made, nonzero, fresh, heap, ?_⟩
  intro x mem
  rw [heap]
  rcases List.mem_append.mp mem with old | new
  · have := below x old
    omega
  · cases List.mem_singleton.mp new
    omega

theorem freshKernel_lists :
    freshKernel.taskListHead = 0 ∧ freshKernel.taskListTail = 0 ∧ freshKernel.currentTask = 0 := by
  unfold freshKernel bootKernel
  rcases hp : pagingNew4gb freshHeap 0 (fun _ => 0)
    (pagingIsWriteable ||| pagingIsPresent ||| pagingAccessFromAll) with ⟨chunk, h, m⟩
  exact ⟨rfl, rfl, rfl⟩

theorem freshKernel_noTask (guard : Kernel Nat → UInt32 → Prop) :
    TaskRun freshHeap guard freshKernel [] :=
  .start freshKernel_lists.1 freshKernel_lists.2.1 freshKernel_lists.2.2

/-- Two tasks are made and the second is freed. -/
theorem freed_tail_wellLinked : ∃ (k : Kernel Nat) (a b : UInt32), a ≠ b ∧ TaskRun freshHeap SparesHead k [a, b] ∧
    WellLinked (taskFree freshHeap k b).2 [a] := by
  have start := freshKernel_heap
  obtain ⟨a, k₁, run₁, _, _, heap₁, below₁⟩ := freshHeap_run (freshKernel_noTask SparesHead)
    (by omega) (fun _ none => absurd none List.not_mem_nil)
  obtain ⟨b, k₂, run₂, _, fresh, _⟩ := freshHeap_run run₁ (by omega) below₁
  rw [List.nil_append, List.mem_singleton] at fresh
  -- the head is `a`, so the guard has nothing to say
  have spares : SparesHead k₂ b := by
    intro first
    have visited := run₂.list.wellLinked.forth 2 (Nat.le_refl 2)
    rw [visit, ← first] at visited
    split at visited
    · cases visited
    · exact absurd (List.cons.inj visited).1 fresh
  have run := run₂.free (t := b) (List.mem_append_right _ List.mem_cons_self) spares
  have left : ([] ++ [a] ++ [b] : List UInt32).erase b = [a] := by
    simp [Ne.symm fresh]
  rw [left] at run
  exact ⟨k₂, a, b, Ne.symm fresh, run₂, tasks_wellLinked run⟩

/-- Two tasks are made and the first is freed. -/
theorem freed_head_stays_linked : ∃ (k : Kernel Nat) (live : List UInt32),
    TaskRun freshHeap (fun _ _ => True) k live ∧ ¬ WellLinked k live := by
  have start := freshKernel_heap
  obtain ⟨a, k₁, run₁, nonzero, _, heap₁, below₁⟩ := freshHeap_run (freshKernel_noTask SparesHead)
    (by omega) (fun _ none => absurd none List.not_mem_nil)
  obtain ⟨b, k₂, run₂, _⟩ := freshHeap_run run₁ (by omega) below₁
  obtain ⟨head, back⟩ := run₂.list.free_head (A := freshHeap)
  have free := (run₂.mono fun _ _ _ => trivial).free (t := a) List.mem_cons_self trivial
  refine ⟨_, _, free, fun linked => nonzero ?_⟩
  rw [List.nil_append, List.singleton_append, List.erase_cons_head] at linked
  have first := linked.head (List.cons_ne_nil b [])
  rw [head, back] at first
  exact first

end PeachOs
