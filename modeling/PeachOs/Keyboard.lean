import PeachOs.Kernel
import PeachOs.Lib.Int32
import PeachOs.Lib.Ring

/-!
# The keyboard buffer

`keyboard.c`: keys go to the current process, and are taken out for the process
of the current task. The buffer is a ring without a count whose mark is NUL; it
is a queue while no more than its size is unread, and a push to a full buffer
takes the place of the oldest unread character.
-/

namespace PeachOs

open Function (update)

variable {H : Type}

def peachosKeyboardBufferSize : UInt32 := 1024

def keyboardGetTailIndex (process : Process) : Nat :=
  (UInt32.ofInt process.keyboard.tail % peachosKeyboardBufferSize).toNat

def keyboardBackspace (k : Kernel H) (process : UInt32) : Kernel H :=
  let k := k.modifyProc process fun p =>
    { p with keyboard := { p.keyboard with tail := int32 (p.keyboard.tail - 1) } }
  let realIndex := keyboardGetTailIndex (k.procs process)
  k.modifyProc process fun p =>
    { p with keyboard := { p.keyboard with buffer := update p.keyboard.buffer realIndex 0 } }

def keyboardPush (k : Kernel H) (c : UInt8) : Kernel H :=
  let process := k.currentProcess
  if process = 0 then k
  else
    let realIndex := keyboardGetTailIndex (k.procs process)
    k.modifyProc process fun p =>
      { p with keyboard :=
        { p.keyboard with
          buffer := update p.keyboard.buffer realIndex c
          tail := int32 (p.keyboard.tail + 1) } }

def keyboardPop (k : Kernel H) : UInt8 × Kernel H :=
  if k.currentTask = 0 then (0, k)
  else
    let process := (k.tasks k.currentTask).process
    let realIndex :=
      (UInt32.ofInt (k.procs process).keyboard.head % peachosKeyboardBufferSize).toNat
    let c := (k.procs process).keyboard.buffer realIndex
    if c = 0 then (0, k)
    else
      (c, k.modifyProc process fun p =>
        { p with keyboard :=
          { p.keyboard with
            buffer := update p.keyboard.buffer realIndex 0
            head := int32 (p.keyboard.head + 1) } })

/-- `p` is the current process and that of the current task. -/
structure Kernel.Focused (k : Kernel H) (p : UInt32) : Prop where
  process : k.currentProcess = p
  nonzero : p ≠ 0
  task : k.currentTask ≠ 0
  own : (k.tasks k.currentTask).process = p

/-- Runs of pushes of characters other than NUL and of pops, with the characters
pushed and those popped. `guard` is what holds before a push. -/
inductive KeyRun (guard : Kernel H → List UInt8 → List UInt8 → Prop) (k₀ : Kernel H) :
    Kernel H → List UInt8 → List UInt8 → Prop
  | start : KeyRun guard k₀ k₀ [] []
  | push {k : Kernel H} {pushed popped : List UInt8} (run : KeyRun guard k₀ k pushed popped)
      {c : UInt8} (nonzero : c ≠ 0) (allowed : guard k pushed popped) :
      KeyRun guard k₀ (keyboardPush k c) (pushed ++ [c]) popped
  | pop {k : Kernel H} {pushed popped : List UInt8} (run : KeyRun guard k₀ k pushed popped) :
      KeyRun guard k₀ (keyboardPop k).2 pushed
        (if (keyboardPop k).1 = 0 then popped else popped ++ [(keyboardPop k).1])

/-! ## One step -/

/-- The buffer of `p` holds `unread`. -/
def Kernel.Unread (k : Kernel H) (p : UInt32) (unread : List UInt8) : Prop :=
  Ring.Holds 1024 0 (k.procs p).keyboard.buffer (k.procs p).keyboard.head (k.procs p).keyboard.tail
    unread

theorem realIndex_eq (counter : Int) :
    (UInt32.ofInt counter % peachosKeyboardBufferSize).toNat = Ring.index 1024 counter := by
  have size : peachosKeyboardBufferSize.toNat = 1024 := rfl
  rw [UInt32.toNat_mod, size, Ring.index, UInt32.ofInt, UInt32.toNat_ofNat']
  omega

/-- Wrapping a counter keeps its slot. -/
theorem int32_slot (x : Int) : int32 x ≡ x [ZMOD (1024 : Nat)] :=
  (int32_modEq x).of_dvd (by decide)

theorem keyboardPush_eq {k : Kernel H} {p : UInt32} (focused : k.Focused p) (c : UInt8) :
    keyboardPush k c = k.modifyProc p fun q =>
      { q with keyboard :=
        { q.keyboard with
          buffer := update q.keyboard.buffer (Ring.index 1024 (k.procs p).keyboard.tail) c
          tail := int32 (q.keyboard.tail + 1) } } := by
  unfold keyboardPush
  rw [focused.process, if_neg focused.nonzero, keyboardGetTailIndex, realIndex_eq]

theorem keyboardPush_focused {k : Kernel H} {p : UInt32} (focused : k.Focused p) (c : UInt8) :
    (keyboardPush k c).Focused p := by
  rw [keyboardPush_eq focused]
  exact ⟨focused.process, focused.nonzero, focused.task, focused.own⟩

theorem keyboardPush_unread {k : Kernel H} {p : UInt32} {unread : List UInt8} (focused : k.Focused p)
    (holds : k.Unread p unread) (room : unread.length < 1024) {c : UInt8} (nonzero : c ≠ 0) :
    (keyboardPush k c).Unread p (unread ++ [c]) := by
  rw [keyboardPush_eq focused]
  unfold Kernel.Unread
  simp only [Kernel.modifyProc, Function.update_self]
  exact (holds.push room nonzero).congr (Int.ModEq.refl _) (int32_slot _)

/-- A pop that finds NUL at the read counter. -/
theorem keyboardPop_none {k : Kernel H} {p : UInt32} (focused : k.Focused p)
    (front : (k.procs p).keyboard.buffer (Ring.index 1024 (k.procs p).keyboard.head) = 0) :
    keyboardPop k = (0, k) := by
  unfold keyboardPop
  rw [if_neg focused.task, focused.own]
  dsimp only
  rw [realIndex_eq, if_pos front]

/-- A pop with nothing to pop. -/
theorem keyboardPop_nil {k : Kernel H} {p : UInt32} (focused : k.Focused p) (holds : k.Unread p []) :
    keyboardPop k = (0, k) :=
  keyboardPop_none focused (holds.front_nil (by decide))

/-- A pop that finds a character at the read counter. -/
theorem keyboardPop_char {k : Kernel H} {p : UInt32} (focused : k.Focused p) {c : UInt8}
    (front : (k.procs p).keyboard.buffer (Ring.index 1024 (k.procs p).keyboard.head) = c)
    (nonzero : c ≠ 0) :
    keyboardPop k = (c, k.modifyProc p fun q =>
      { q with keyboard :=
        { q.keyboard with
          buffer := update q.keyboard.buffer (Ring.index 1024 (k.procs p).keyboard.head) 0
          head := int32 (q.keyboard.head + 1) } }) := by
  unfold keyboardPop
  rw [if_neg focused.task, focused.own]
  dsimp only
  rw [realIndex_eq, front, if_neg nonzero]

theorem keyboardPop_focused {k : Kernel H} {p : UInt32} (focused : k.Focused p) :
    (keyboardPop k).2.Focused p := by
  by_cases empty : (k.procs p).keyboard.buffer (Ring.index 1024 (k.procs p).keyboard.head) = 0
  · rw [keyboardPop_none focused empty]
    exact focused
  · rw [keyboardPop_char focused rfl empty]
    exact ⟨focused.process, focused.nonzero, focused.task, focused.own⟩

theorem keyboardPop_cons {k : Kernel H} {p : UInt32} {c : UInt8} {unread : List UInt8}
    (focused : k.Focused p) (holds : k.Unread p (c :: unread)) :
    (keyboardPop k).1 = c ∧ (keyboardPop k).2.Unread p unread := by
  have nonzero := holds.unmarked c List.mem_cons_self
  rw [keyboardPop_char focused holds.front nonzero]
  refine ⟨rfl, ?_⟩
  unfold Kernel.Unread
  simp only [Kernel.modifyProc, Function.update_self]
  exact holds.pop.congr (int32_slot _) (Int.ModEq.refl _)

/-! ## Runs -/

/-- A kernel whose process `p` has the focus and an untouched keyboard buffer. -/
structure FreshKeyboard (k : Kernel H) (p : UInt32) : Prop where
  focused : k.Focused p
  keyboard : (k.procs p).keyboard = Process.zero.keyboard

theorem FreshKeyboard.unread {k : Kernel H} {p : UInt32} (fresh : FreshKeyboard k p) : k.Unread p [] := by
  unfold Kernel.Unread
  rw [fresh.keyboard]
  exact Ring.Holds.empty

variable {guard : Kernel H → List UInt8 → List UInt8 → Prop} {k₀ k : Kernel H} {p : UInt32}
  {pushed popped : List UInt8}

/-- While no push meets a full buffer, it holds what was pushed and not popped. -/
theorem keyRun_unread (fresh : FreshKeyboard k₀ p)
    (room : ∀ k pushed popped unread, pushed = popped ++ unread → k.Focused p → k.Unread p unread →
      guard k pushed popped → unread.length < 1024)
    (run : KeyRun guard k₀ k pushed popped) :
    k.Focused p ∧ ∃ unread, pushed = popped ++ unread ∧ k.Unread p unread := by
  induction run with
  | start => exact ⟨fresh.focused, [], rfl, fresh.unread⟩
  | @push k pushed popped run c nonzero allowed ih =>
    obtain ⟨focused, unread, split, holds⟩ := ih
    refine ⟨keyboardPush_focused focused c, unread ++ [c], ?_, ?_⟩
    · rw [split, List.append_assoc]
    · exact keyboardPush_unread focused holds (room _ _ _ _ split focused holds allowed) nonzero
  | pop run ih =>
    obtain ⟨focused, unread, split, holds⟩ := ih
    refine ⟨keyboardPop_focused focused, ?_⟩
    cases unread with
    | nil =>
      rw [keyboardPop_nil focused holds]
      exact ⟨[], split, holds⟩
    | cons c unread =>
      obtain ⟨value, rest⟩ := keyboardPop_cons focused holds
      have nonzero := holds.unmarked c List.mem_cons_self
      rw [value, if_neg nonzero]
      refine ⟨unread, ?_, rest⟩
      rw [split, List.append_assoc, List.singleton_append]

/-- **The buffer is a queue.** While at most 1024 characters are unread, every
pop returns the oldest one not yet popped, or NUL without a change. -/
theorem keyboard_fifo (fresh : FreshKeyboard k₀ p)
    (run : KeyRun (fun _ pushed popped => pushed.length < popped.length + 1024) k₀ k pushed popped) :
    ∃ unread, pushed = popped ++ unread ∧ (keyboardPop k).1 = unread.headD 0 ∧
      (unread = [] → (keyboardPop k).2 = k) := by
  obtain ⟨focused, unread, split, holds⟩ := keyRun_unread fresh (by
    intro k pushed popped unread split _ _ allowed
    rw [split, List.length_append] at allowed
    omega) run
  refine ⟨unread, split, ?_, ?_⟩
  · cases unread with
    | nil => rw [keyboardPop_nil focused holds, List.headD_nil]
    | cons c unread => exact (keyboardPop_cons focused holds).1
  · rintro rfl
    rw [keyboardPop_nil focused holds]

/-- A kernel whose process 1 has the focus. -/
def keyboardKernel : Kernel Unit where
  heap := ()
  ram _ := 0
  kernelPageChunk := 0
  tasks _ := { Task.zero with process := 1 }
  currentTask := 1
  taskListHead := 1
  taskListTail := 1
  procs _ := Process.zero
  currentProcess := 1
  processes _ := 0

theorem keyboardKernel_fresh : FreshKeyboard keyboardKernel 1 :=
  ⟨⟨rfl, by decide, by decide, rfl⟩, rfl⟩

/-- Two keys, a read, and a third key. -/
def typedKernel : Kernel Unit :=
  keyboardPush (keyboardPop (keyboardPush (keyboardPush keyboardKernel 97) 98)).2 99

theorem typedKernel_run {guard : Kernel Unit → List UInt8 → List UInt8 → Prop} (first : guard keyboardKernel [] [])
    (second : guard (keyboardPush keyboardKernel 97) [97] [])
    (third : guard (keyboardPop (keyboardPush (keyboardPush keyboardKernel 97) 98)).2 [97, 98] [97]) :
    KeyRun guard keyboardKernel typedKernel [97, 98, 99] [97] := by
  have two : KeyRun guard keyboardKernel (keyboardPush (keyboardPush keyboardKernel 97) 98) [97, 98] [] :=
    .push (.push .start (by decide) first) (by decide) second
  have read : (keyboardPop (keyboardPush (keyboardPush keyboardKernel 97) 98)).1 = 97 := by decide
  have popped := two.pop
  rw [read, if_neg (by decide)] at popped
  exact .push popped (by decide) third

theorem typedKernel_read : ∃ unread, [97, 98, 99] = [97] ++ unread ∧
    (keyboardPop typedKernel).1 = unread.headD 0 ∧ (unread = [] → (keyboardPop typedKernel).2 = typedKernel) :=
  keyboard_fifo keyboardKernel_fresh (typedKernel_run (by decide) (by decide) (by decide))

/-- The slot the next push writes is empty. -/
def KeyboardHasRoom (p : UInt32) (k : Kernel H) : Prop :=
  (k.procs p).keyboard.buffer (keyboardGetTailIndex (k.procs p)) = 0

/-- **Pushes into free slots only** deliver the pushed characters in order. -/
theorem popped_sublist (fresh : FreshKeyboard k₀ p)
    (run : KeyRun (fun k _ _ => KeyboardHasRoom p k) k₀ k pushed popped) :
    popped.Sublist pushed := by
  obtain ⟨_, unread, split, _⟩ := keyRun_unread fresh (by
    intro k pushed popped unread _ _ holds free
    unfold KeyboardHasRoom keyboardGetTailIndex at free
    rw [realIndex_eq] at free
    exact (holds.back_iff (by decide)).mp free) run
  rw [split]
  exact List.sublist_append_left popped unread

theorem typedKernel_sublist : ([97] : List UInt8).Sublist [97, 98, 99] :=
  popped_sublist keyboardKernel_fresh (typedKernel_run rfl rfl rfl)

/-! ## A full buffer -/

/-- A push to a full buffer is the next character popped, and then come older ones. -/
theorem full_push_first {a b c : UInt8} {unread : List UInt8} (focused : k.Focused p)
    (holds : k.Unread p (a :: b :: unread)) (full : (a :: b :: unread).length = 1024) (nonzero : c ≠ 0) :
    (keyboardPop (keyboardPush k c)).1 = c ∧ (keyboardPop (keyboardPop (keyboardPush k c)).2).1 = b := by
  -- the write counter is a whole round ahead of the read counter
  have same : Ring.index 1024 (k.procs p).keyboard.tail = Ring.index 1024 (k.procs p).keyboard.head := by
    apply Ring.index_congr
    refine holds.tail.trans ?_
    rw [full]
    simp [Int.ModEq]
  have pushed := keyboardPush_focused focused c
  have next := holds.pop.front
  have pushEq := keyboardPush_eq focused c
  rw [same] at pushEq
  have front : ((keyboardPush k c).procs p).keyboard.buffer
      (Ring.index 1024 ((keyboardPush k c).procs p).keyboard.head) = c := by
    rw [pushEq]
    simp only [Kernel.modifyProc, Function.update_self]
  have popEq := keyboardPop_char pushed front nonzero
  have popped := keyboardPop_focused pushed
  rw [popEq] at popped ⊢
  refine ⟨rfl, ?_⟩
  have front' : ((((keyboardPush k c).modifyProc p fun q =>
      { q with keyboard :=
        { q.keyboard with
          buffer := update q.keyboard.buffer
            (Ring.index 1024 ((keyboardPush k c).procs p).keyboard.head) 0
          head := int32 (q.keyboard.head + 1) } }).procs p).keyboard.buffer
      (Ring.index 1024 (int32 (((keyboardPush k c).procs p).keyboard.head + 1)))) = b := by
    have older := holds.pop.front
    rw [pushEq]
    simp only [Kernel.modifyProc, Function.update_self, Function.update_idem]
    rw [Ring.index_congr (int32_slot _)]
    exact older
  have nonzero' := holds.unmarked b (List.mem_cons_of_mem a List.mem_cons_self)
  dsimp only
  rw [keyboardPop_char popped (c := b) ?_ nonzero']
  simp only [Kernel.modifyProc, Function.update_self] at front' ⊢
  exact front'

/-- `n` pushes of the same character. -/
theorem repeated_push (n : Nat) (hn : n ≤ 1024) : ∃ k : Kernel Unit,
    KeyRun (fun _ _ _ => True) keyboardKernel k (List.replicate n 1) [] ∧ k.Focused 1 ∧
      k.Unread 1 (List.replicate n 1) := by
  induction n with
  | zero => exact ⟨_, .start, keyboardKernel_fresh.focused, keyboardKernel_fresh.unread⟩
  | succ n ih =>
    obtain ⟨k, run, focused, holds⟩ := ih (by omega)
    rw [List.replicate_succ']
    refine ⟨keyboardPush k 1, run.push (by decide) trivial, keyboardPush_focused focused 1, ?_⟩
    apply keyboardPush_unread focused holds
    · rw [List.length_replicate]
      omega
    · decide

/-- After 1025 pushes without a pop the last character comes out first. -/
theorem overflow_breaks_order : ∃ (k : Kernel Unit) (pushed popped : List UInt8),
    FreshKeyboard keyboardKernel 1 ∧ KeyRun (fun _ _ _ => True) keyboardKernel k pushed popped ∧
      ¬ popped.Sublist pushed := by
  obtain ⟨k, run, focused, holds⟩ := repeated_push 1024 (Nat.le_refl _)
  have cells : List.replicate 1024 (1 : UInt8) = 1 :: 1 :: List.replicate 1022 1 := rfl
  have full : (1 :: 1 :: List.replicate 1022 (1 : UInt8)).length = 1024 := by
    rw [List.length_cons, List.length_cons, List.length_replicate]
  have run' := ((run.push (c := 2) (by decide) trivial).pop).pop
  rw [cells] at holds
  obtain ⟨first, second⟩ := full_push_first focused holds full (c := 2) (by decide)
  rw [first, second, if_neg (by decide), if_neg (by decide)] at run'
  refine ⟨_, _, _, keyboardKernel_fresh, run', ?_⟩
  -- the pushed characters end with the 2, so nothing follows it
  intro sub
  have back : [1, 2].Sublist (2 :: List.replicate 1024 (1 : UInt8)) := by
    have reversed : [1, 2].Sublist (List.replicate 1024 (1 : UInt8) ++ [2]).reverse := sub.reverse
    rwa [List.reverse_append, List.reverse_replicate] at reversed
  cases back with
  | cons _ inside =>
    have two := inside.subset (List.mem_cons_of_mem 1 List.mem_cons_self)
    exact absurd (List.eq_of_mem_replicate two) (by decide)

end PeachOs
