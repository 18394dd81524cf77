import PeachOs.Keyboard

/-!
# Taking a key back

`keyboard_backspace` moves the write counter back without a look at the read
counter. With a character unread it takes back the newest one; on an empty
buffer the next key goes to a slot where no pop looks.
-/

namespace PeachOs

open Function (update)

variable {H : Type}

inductive KeyCall
  | push (c : UInt8)
  | pop

/-- What the pops among some calls return. -/
def popsOf (k : Kernel H) : List KeyCall → List UInt8
  | [] => []
  | .push c :: calls => popsOf (keyboardPush k c) calls
  | .pop :: calls => (keyboardPop k).1 :: popsOf (keyboardPop k).2 calls

/-- What they return on a queue, where NUL stands for an empty one. -/
def queuePops (queue : List UInt8) : List KeyCall → List UInt8
  | [] => []
  | .push c :: calls => queuePops (queue ++ [c]) calls
  | .pop :: calls => queue.headD 0 :: queuePops queue.tail calls

/-- Every push is of a character other than NUL. -/
def Typed (calls : List KeyCall) : Prop := .push 0 ∉ calls

/-- No more than 1024 characters are ever unread. -/
def StaysInside (queue : List UInt8) : List KeyCall → Prop
  | [] => True
  | .push c :: calls => queue.length < 1024 ∧ StaysInside (queue ++ [c]) calls
  | .pop :: calls => StaysInside queue.tail calls

/-- A backspace at `k`, where `unread` has not been popped yet. -/
structure BackspaceRight (k : Kernel H) (p : UInt32) (unread : List UInt8) : Prop where
  newest : unread ≠ [] → ∀ calls, Typed calls → StaysInside unread.dropLast calls →
    popsOf (keyboardBackspace k p) calls = queuePops unread.dropLast calls
  nothing : unread = [] → ∀ calls, Typed calls → popsOf (keyboardBackspace k p) calls = popsOf k calls

/-- Runs of pushes, pops and backspaces on the buffer of `p` with at most 1024
characters unread. `guard` is what holds before a backspace. -/
inductive EditRun (guard : List UInt8 → Prop) (p : UInt32) (k₀ : Kernel H) : Kernel H → List UInt8 → Prop
  | start : EditRun guard p k₀ k₀ []
  | push {k : Kernel H} {unread : List UInt8} (run : EditRun guard p k₀ k unread) {c : UInt8}
      (nonzero : c ≠ 0) (room : unread.length < 1024) : EditRun guard p k₀ (keyboardPush k c) (unread ++ [c])
  | pop {k : Kernel H} {unread : List UInt8} (run : EditRun guard p k₀ k unread) :
      EditRun guard p k₀ (keyboardPop k).2 unread.tail
  | backspace {k : Kernel H} {unread : List UInt8} (run : EditRun guard p k₀ k unread) (allowed : guard unread) :
      EditRun guard p k₀ (keyboardBackspace k p) unread.dropLast

/-! ## One step -/

variable {k k₀ : Kernel H} {p : UInt32} {unread queue : List UInt8}

theorem keyboardBackspace_eq (k : Kernel H) (p : UInt32) :
    keyboardBackspace k p = k.modifyProc p fun q =>
      { q with keyboard :=
        { q.keyboard with
          buffer := update q.keyboard.buffer (Ring.index 1024 ((k.procs p).keyboard.tail - 1)) 0
          tail := int32 (q.keyboard.tail - 1) } } := by
  unfold keyboardBackspace keyboardGetTailIndex
  simp only [Kernel.modifyProc, Function.update_self, Function.update_idem, realIndex_eq]
  rw [Ring.index_congr (int32_slot _)]

theorem keyboardBackspace_focused (focused : k.Focused p) : (keyboardBackspace k p).Focused p := by
  rw [keyboardBackspace_eq]
  exact ⟨focused.process, focused.nonzero, focused.task, focused.own⟩

/-- The newest character is gone, and the older ones are as before. -/
theorem keyboardBackspace_unread (holds : k.Unread p unread) (some : unread ≠ []) :
    (keyboardBackspace k p).Unread p unread.dropLast := by
  rw [← List.dropLast_concat_getLast some] at holds
  rw [keyboardBackspace_eq]
  unfold Kernel.Unread
  simp only [Kernel.modifyProc, Function.update_self]
  exact holds.unpush.congr (Int.ModEq.refl _) (int32_slot _)

theorem keyboardPop_queue (focused : k.Focused p) (holds : k.Unread p queue) :
    (keyboardPop k).1 = queue.headD 0 ∧ (keyboardPop k).2.Unread p queue.tail := by
  cases queue with
  | nil =>
    rw [keyboardPop_nil focused holds]
    exact ⟨rfl, holds⟩
  | cons c queue => exact keyboardPop_cons focused holds

/-- The pops on a buffer are those on the queue it holds. -/
theorem popsOf_queue {calls : List KeyCall} (focused : k.Focused p) (holds : k.Unread p queue) (typed : Typed calls)
    (inside : StaysInside queue calls) : popsOf k calls = queuePops queue calls := by
  induction calls generalizing k queue with
  | nil => rfl
  | cons call calls ih =>
    have later : Typed calls := fun mem => typed (List.mem_cons_of_mem call mem)
    cases call with
    | push c =>
      have nonzero : c ≠ 0 := by
        rintro rfl
        exact typed List.mem_cons_self
      exact ih (keyboardPush_focused focused c) (keyboardPush_unread focused holds inside.1 nonzero) later inside.2
    | pop =>
      obtain ⟨front, rest⟩ := keyboardPop_queue focused holds
      rw [popsOf, queuePops, front, ih (keyboardPop_focused focused) rest later inside]

/-- After a backspace on an empty buffer the next key cannot be popped. -/
theorem empty_backspace_loses (focused : k.Focused p) (holds : k.Unread p []) (c : UInt8) :
    (keyboardPop (keyboardPush (keyboardBackspace k p) c)).1 = 0 := by
  have focused₁ := keyboardBackspace_focused focused
  have focused₂ := keyboardPush_focused focused₁ c
  -- the key goes to the slot before the one the pop looks at
  have same : Ring.index 1024 (k.procs p).keyboard.tail = Ring.index 1024 (k.procs p).keyboard.head := by
    apply Ring.index_congr
    simpa using holds.tail
  have before : Ring.index 1024 (k.procs p).keyboard.head ≠ Ring.index 1024 ((k.procs p).keyboard.tail - 1) := by
    rw [← same]
    exact (Ring.index_pred_ne (by decide) _).symm
  have front := holds.front_nil (by decide)
  have empty : ((keyboardPush (keyboardBackspace k p) c).procs p).keyboard.buffer
      (Ring.index 1024 ((keyboardPush (keyboardBackspace k p) c).procs p).keyboard.head) = 0 := by
    rw [keyboardPush_eq focused₁, keyboardBackspace_eq]
    simp only [Kernel.modifyProc, Function.update_self]
    rw [Ring.index_congr (int32_slot _), Function.update_of_ne before, Function.update_of_ne before, front]
  rw [keyboardPop_none focused₂ empty]

theorem empty_backspace_wrong (focused : k.Focused p) (holds : k.Unread p []) : ¬ BackspaceRight k p [] := by
  intro right
  have typed : Typed [.push 1, .pop] := by simp [Typed]
  have seen := right.nothing rfl [.push 1, .pop] typed
  have kept := popsOf_queue focused holds typed ⟨by decide, trivial⟩
  have lost := empty_backspace_loses focused holds 1
  rw [kept] at seen
  simp [popsOf, queuePops, lost] at seen

/-! ## Runs -/

/-- While every backspace finds a character, the buffer holds what is unread. -/
theorem editRun_unread (fresh : FreshKeyboard k₀ p) (run : EditRun (· ≠ []) p k₀ k unread) :
    k.Focused p ∧ k.Unread p unread := by
  induction run with
  | start => exact ⟨fresh.focused, fresh.unread⟩
  | push _ nonzero room ih => exact ⟨keyboardPush_focused ih.1 _, keyboardPush_unread ih.1 ih.2 room nonzero⟩
  | pop _ ih => exact ⟨keyboardPop_focused ih.1, (keyboardPop_queue ih.1 ih.2).2⟩
  | backspace _ some ih => exact ⟨keyboardBackspace_focused ih.1, keyboardBackspace_unread ih.2 some⟩

/-- **A backspace is right exactly when a character is unread**, in every state
that is reached without a backspace on an empty buffer. -/
theorem keyboardBackspace_right_iff (fresh : FreshKeyboard k₀ p) (run : EditRun (· ≠ []) p k₀ k unread) :
    BackspaceRight k p unread ↔ unread ≠ [] := by
  obtain ⟨focused, holds⟩ := editRun_unread fresh run
  constructor
  · rintro right rfl
    exact empty_backspace_wrong focused holds right
  · intro some
    constructor
    · intro _ calls typed inside
      exact popsOf_queue (keyboardBackspace_focused focused) (keyboardBackspace_unread holds some) typed inside
    · intro none
      exact absurd none some

/-- Two keys, a read, a key and its backspace. -/
theorem typed_key_taken_back : BackspaceRight (keyboardBackspace typedKernel 1) 1 [98] ↔ [(98 : UInt8)] ≠ [] := by
  have typed : EditRun (fun unread => unread ≠ []) 1 keyboardKernel typedKernel [98, 99] :=
    .push (.pop (.push (.push .start (by decide) (by decide)) (by decide) (by decide))) (by decide) (by decide)
  exact keyboardBackspace_right_iff keyboardKernel_fresh (typed.backspace (List.cons_ne_nil 98 [99]))

/-- A backspace on the untouched buffer, and the next key is lost. -/
theorem first_backspace_seen : ∃ unread, FreshKeyboard keyboardKernel 1 ∧
    EditRun (fun _ => True) 1 keyboardKernel keyboardKernel unread ∧ ¬ BackspaceRight keyboardKernel 1 unread := by
  have fresh := keyboardKernel_fresh
  exact ⟨[], fresh, .start, empty_backspace_wrong fresh.focused fresh.unread⟩

end PeachOs
