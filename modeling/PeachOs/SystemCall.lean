import PeachOs.InterruptEntry

/-!
# A system call and back

`isr80h_wrapper` is not one of the macro's stubs: the command comes in `eax`, and
so does the result. It waits in `temp_res` while the registers are restored.
-/

namespace PeachOs

open Memory Address X86

/-! ## The wrapper -/

/-- The wrapper up to `isr80h_handler`'s first instruction. -/
def isr80hCall (after : UInt32) (c : Cpu) : Cpu := exec [.push .esp, .push .eax, .call after] c.cli.pushad

/-- The wrapper from the return of `isr80h_handler` on. `tempRes` is where `temp_res` lies. -/
def isr80hReturn (tempRes : UInt32) (c : Cpu) : Cpu :=
  exec [.iretd] ((exec [.addEsp 2] (c.store tempRes .eax)).popad.fetch .eax tempRes)

/-- `int 0x80` with the wrapper at `stub` in the table. -/
def isr80hCalled (stub after : UInt32) (c : Cpu) : Cpu :=
  isr80hCall after (c.interrupt kernelCodeSelector kernelDataSelector stub tssEsp0 none)

/-- The first argument of `isr80h_handler`. -/
def passedCommand (called : Cpu) : Int := (load32 called.ram (called.regs .esp + 4)).toInt32.toInt

/-- `temp_res` is none of the words the wrapper pushes. -/
def OffStack (tempRes : UInt32) : Prop := ∀ x, InRange x tempRes 4 → ¬ InRange x (tssEsp0 - 4 * .ofNat 17) (4 * 17)

section

variable {m : Ram} {base : UInt32} {n : Nat} {c : Cpu} {ws : List UInt32}

/-- The command is pushed where the macro pushes the vector. -/
theorem isr80hCall_eq (after : UInt32) (c : Cpu) : isr80hCall after c = interruptCall (c.regs .eax) after c := by
  have command : (c.cli.pushad.push (c.cli.pushad.regs .esp)).regs .eax = c.regs .eax := by
    simp [Cpu.pushad, Cpu.cli]
  simp only [isr80hCall, interruptCall, exec, List.foldl_cons, List.foldl_nil, step, command]

/-- The words at `isr80h_handler`'s first instruction. -/
theorem isr80hCalled_stacked (stub after : UInt32) (c : Cpu) :
    ∃ reserved, Stacked c.ram tssEsp0 17 (isr80hCalled stub after c)
      ([after, c.regs .eax, (isr80hCalled stub after c).regs .esp + 12] ++
        [c.regs .edi, c.regs .esi, c.regs .ebp, reserved, c.regs .ebx, c.regs .edx, c.regs .ecx, c.regs .eax, c.eip,
          c.cs.toUInt32, c.eflags, c.regs .esp, c.ss.toUInt32]) := by
  have pushed := interrupt_stacked c kernelCodeSelector kernelDataSelector stub tssEsp0 none (n := 17) (by decide)
  have called := interruptCall_stacked pushed (by simp)
    ((c.interrupt kernelCodeSelector kernelDataSelector stub tssEsp0 none).regs .eax) after
  rw [← isr80hCall_eq] at called
  simp only [interrupt_regs c kernelCodeSelector kernelDataSelector stub tssEsp0 none, ne_eq, reduceCtorEq,
    not_false_eq_true] at called
  exact ⟨_, called⟩

theorem isr80hCalled_command (stub after : UInt32) (c : Cpu) :
    passedCommand (isr80hCalled stub after c) = (c.regs .eax).toInt32.toInt := by
  obtain ⟨reserved, called⟩ := isr80hCalled_stacked stub after c
  have command : load32 _ ((isr80hCalled stub after c).regs .esp + 4) = c.regs .eax := called.word (i := 1) (by simp)
  rw [passedCommand, command]

theorem isr80hCalled_frame (stub after : UInt32) (c : Cpu) : FrameOf c (passedFrame (isr80hCalled stub after c)) := by
  obtain ⟨reserved, called⟩ := isr80hCalled_stacked stub after c
  have whole : Stacked c.ram tssEsp0 17 (isr80hCalled stub after c)
      ([_, _, _] ++ ([_, _, _, _, _, _, _, _, _, _, _, _, _] ++ [])) := called
  rw [passedFrame_eq whole]
  constructor <;> rfl

/-- The way back: the registers of the caller, but the result in `eax`. -/
theorem isr80hReturn_resumes {isr80hHandler : Cpu → Cpu} (routine : CRoutine isr80hHandler 2 13) {tempRes : UInt32}
    (apart : OffStack tempRes) (stub after : UInt32) (c : Cpu) :
    GoesOn (c.set .eax ((isr80hHandler (isr80hCalled stub after c)).regs .eax))
      (isr80hReturn tempRes (isr80hHandler (isr80hCalled stub after c))) := by
  obtain ⟨reserved, called⟩ := isr80hCalled_stacked stub after c
  have back := routine.stacked called rfl (Nat.le_refl 13)
  generalize isr80hHandler (isr80hCalled stub after c) = handled at back ⊢
  have kept := Stacked.store (c := handled.drop 2) back .eax apart
  have eight : Stacked _ tssEsp0 17 ((handled.drop 2).store tempRes .eax)
      ([_, _, _, _, _, _, _, _] ++ [c.eip, c.cs.toUInt32, c.eflags, c.regs .esp, c.ss.toUInt32]) := kept
  obtain ⟨left, loaded⟩ := eight.popad
  have result : load32 ((handled.drop 2).store tempRes .eax).popad.ram tempRes = handled.regs .eax := by
    rw [Cpu.popad_ram]
    exact (load32_store32_same _ _ _).trans (Cpu.drop_ne handled 2 (by decide))
  have fetched : Stacked _ tssEsp0 17 _ ([_, _, _, _, _] ++ []) :=
    left.set (r := .eax) (by decide) (handled.regs .eax)
  rw [← result] at fetched
  have run : isr80hReturn tempRes handled =
      step (((handled.drop 2).store tempRes .eax).popad.fetch .eax tempRes) .iretd := rfl
  rw [run, Cpu.fetch, Stacked.iretd fetched, result]
  constructor
  · intro r
    cases r with
    | esp => simp
    | eax => simp
    | ebx => simpa using loaded.ebx
    | ecx => simpa using loaded.ecx
    | edx => simpa using loaded.edx
    | esi => simpa using loaded.esi
    | edi => simpa using loaded.edi
    | ebp => simpa using loaded.ebp
  · rfl
  · simp [Cpu.set]
  · rfl
  · simp [Cpu.set]

/-- Of the memory only the word at `temp_res` changes on the way back. -/
theorem isr80hReturn_memory (tempRes : UInt32) (handled : Cpu) :
    (isr80hReturn tempRes handled).ram = store32 handled.ram tempRes (handled.regs .eax) := rfl

end

/-! ## What the program sees of it -/

variable {H : Type}

/-- `isr80h_handler` as it is compiled: `s` becomes `s'`, and `eax` is the result. -/
structure Serves (A : Allocator H) (s : Machine H) (buff : UInt32) (isr80hHandler : Cpu → Cpu) (called : Cpu)
    (s' : Machine H) : Prop where
  routine : CRoutine isr80hHandler 2 13
  run : s.isr80hHandler A (passedCommand called) (passedFrame called) buff =
    some ((isr80hHandler called).regs .eax, s')

/-- The command in `eax` was run for the caller's frame, and `c'` is the caller
again, with the result in `eax`. -/
structure SystemCall (A : Allocator H) (s : Machine H) (buff : UInt32) (c : Cpu) (s' : Machine H) (c' : Cpu) : Prop where
  served : ∃ frame, FrameOf c frame ∧
    s.isr80hHandler A (c.regs .eax).toInt32.toInt frame buff = some (c'.regs .eax, s')
  resumed : GoesOn (c.set .eax (c'.regs .eax)) c'

/-- **A system call returns to the program with its result in `eax` and all else as
it was.** The word at `temp_res` is the result too, although only two bytes are
reserved there. -/
theorem systemCall_right {A : Allocator H} {s s' : Machine H} {buff : UInt32} {isr80hHandler : Cpu → Cpu}
    {tempRes : UInt32} (apart : OffStack tempRes) (stub after : UInt32) (c : Cpu)
    (serves : Serves A s buff isr80hHandler (isr80hCalled stub after c) s') :
    SystemCall A s buff c s' (isr80hReturn tempRes (isr80hHandler (isr80hCalled stub after c))) ∧
      load32 (isr80hReturn tempRes (isr80hHandler (isr80hCalled stub after c))).ram tempRes =
        (isr80hHandler (isr80hCalled stub after c)).regs .eax ∧
      Agree (fun x => ¬ InRange x tempRes 4) (isr80hHandler (isr80hCalled stub after c)).ram
        (isr80hReturn tempRes (isr80hHandler (isr80hCalled stub after c))).ram := by
  have resumed := isr80hReturn_resumes serves.routine apart stub after c
  have result : (isr80hReturn tempRes (isr80hHandler (isr80hCalled stub after c))).regs .eax =
      (isr80hHandler (isr80hCalled stub after c)).regs .eax := by
    simpa using resumed.regs .eax
  refine ⟨⟨⟨_, isr80hCalled_frame stub after c, ?_⟩, ?_⟩, ?_, ?_⟩
  · rw [result, ← isr80hCalled_command stub after c]
    exact serves.run
  · rw [result]
    exact resumed
  · rw [isr80hReturn_memory]
    exact load32_store32_same _ _ _
  · rw [isr80hReturn_memory]
    exact store32_agree _ _ _

/-! ## A command that is not registered -/

def noHeap : Allocator Unit := ⟨fun h _ => (0, h), fun h _ => h⟩

def machineWithoutCommands : Machine Unit where
  kernel :=
    { heap := ()
      ram := fun _ => 0
      kernelPageChunk := 0x1402000
      tasks := fun _ => Task.zero
      currentTask := 0x2000000
      taskListHead := 0x2000000
      taskListTail := 0x2000000
      procs := fun _ => Process.zero
      currentProcess := 0
      processes := fun _ => 0 }
  cr3 := 0
  currentDirectory := 0
  segments := ⟨0, 0, 0, 0⟩
  terminal := ⟨0, 0, fun _ => 0, []⟩
  isr80hCommands := fun _ => none
  callbackFunctions := fun _ => none

def refusingHandler (c : Cpu) : Cpu :=
  { (step c .ret).set .eax 0 with ds := 0x23, es := 0x23, fs := 0x23, gs := 0x23 }

theorem refusingHandler_routine : CRoutine refusingHandler 2 13 := by
  constructor
  · intro c
    simp [refusingHandler, step, Cpu.drop]
  · intro c
    rfl
  · intro c r mem
    have apart : r ≠ .esp ∧ r ≠ .eax := by
      cases r <;> simp at mem ⊢
    simp [refusingHandler, step, apart]
  · intro c x _
    rfl

/-- Any command is answered with 0. -/
theorem machineWithoutCommands_run (command : Int) (frame : InterruptFrame) (buff : UInt32) :
    ∃ s', machineWithoutCommands.isr80hHandler noHeap command frame buff = some (0, s') := by
  have current : machineWithoutCommands.kernelPage.kernel.currentTask ≠ 0 := show (0x2000000 : UInt32) ≠ 0 by decide
  unfold Machine.isr80hHandler
  dsimp only
  rw [Machine.taskCurrentSaveState, if_neg current, Option.bind_eq_bind, Option.bind_some,
    Machine.isr80hHandleCommand]
  split <;> exact ⟨_, rfl⟩

theorem offStack_data : OffStack 0x10a000 := by
  intro x inside on
  rw [inRange_iff (by decide)] at inside on
  have low : (0x10a000 : UInt32).toNat = 0x10a000 := rfl
  have high : (tssEsp0 - 4 * .ofNat 17).toNat = 0x5fffbc := by decide
  omega

/-- Seven is no command. -/
theorem unregistered_call_right : ∃ s',
    SystemCall noHeap machineWithoutCommands 0x500000 userCpu s'
      (isr80hReturn 0x10a000 (refusingHandler (isr80hCalled 0x101000 0x101008 userCpu))) := by
  obtain ⟨s', run⟩ := machineWithoutCommands_run (passedCommand (isr80hCalled 0x101000 0x101008 userCpu))
    (passedFrame (isr80hCalled 0x101000 0x101008 userCpu)) 0x500000
  exact ⟨s', (systemCall_right offStack_data 0x101000 0x101008 userCpu ⟨refusingHandler_routine, run⟩).1⟩

/-! ## A program that is interrupted -/

/-- A program cannot tell `c'` from `c`: its registers are the same, and so is the
memory it reaches. -/
structure SameView (mine : UInt32 → Prop) (c c' : Cpu) : Prop where
  registers : GoesOn c c'
  memory : Agree mine c.ram c'.ram

/-- What happens next: an instruction of the program, or an interrupt with the
handler that is called for it. -/
inductive Moment
  | instruction
  | interrupted (entry : Entry) (stub after : UInt32) (interruptHandler : Cpu → Cpu)

def Moment.step (instruction : Cpu → Cpu) (c : Cpu) : Moment → Cpu
  | .instruction => instruction c
  | .interrupted entry stub after interruptHandler => interruptReturn (interruptHandler (entry.called stub after c))

def instructions : List Moment → Nat
  | [] => 0
  | .instruction :: moments => instructions moments + 1
  | .interrupted .. :: moments => instructions moments

/-- No error code is pushed, and the handler leaves the program's memory. -/
def Moment.Unseen (mine : UInt32 → Prop) : Moment → Prop
  | .instruction => True
  | .interrupted entry _ _ interruptHandler =>
    entry.errorCode = none ∧ CRoutine interruptHandler 2 13 ∧ ∀ c, Agree mine c.ram (interruptHandler c).ram

section

variable {mine : UInt32 → Prop} {instruction : Cpu → Cpu} {c c' : Cpu}

theorem SameView.refl (mine : UInt32 → Prop) (c : Cpu) : SameView mine c c :=
  ⟨⟨fun _ => rfl, rfl, rfl, rfl, rfl⟩, Agree.refl _ _⟩

theorem SameView.trans {c'' : Cpu} (first : SameView mine c c') (second : SameView mine c' c'') :
    SameView mine c c'' := by
  refine ⟨⟨fun r => ?_, ?_, ?_, ?_, ?_⟩, first.memory.trans second.memory⟩
  · exact (second.registers.regs r).trans (first.registers.regs r)
  · exact second.registers.eip.trans first.registers.eip
  · exact second.registers.cs.trans first.registers.cs
  · exact second.registers.eflags.trans first.registers.eflags
  · exact second.registers.ss.trans first.registers.ss

/-- One interrupt. -/
theorem interrupted_sameView {entry : Entry} {interruptHandler : Cpu → Cpu}
    (off : ∀ x, mine x → ¬ InRange x (tssEsp0 - 4 * .ofNat 17) (4 * 17)) (none : entry.errorCode = none)
    (routine : CRoutine interruptHandler 2 13) (kept : ∀ c, Agree mine c.ram (interruptHandler c).ram)
    (stub after : UInt32) (c : Cpu) :
    SameView mine c (interruptReturn (interruptHandler (entry.called stub after c))) := by
  refine ⟨(entry_right routine none stub after c).resumed, ?_⟩
  obtain ⟨_, called⟩ := entry.called_stacked stub after c
  have pushed := called.outside.mono off
  exact pushed.trans (kept _)

/-- **A program runs as if it had never been interrupted**, wherever the interrupts
fall among its instructions. -/
theorem program_undisturbed (own : ∀ c c', SameView mine c c' → SameView mine (instruction c) (instruction c'))
    (off : ∀ x, mine x → ¬ InRange x (tssEsp0 - 4 * .ofNat 17) (4 * 17)) {moments : List Moment}
    (unseen : ∀ moment ∈ moments, moment.Unseen mine) (c : Cpu) :
    SameView mine (instruction^[instructions moments] c) (moments.foldl (Moment.step instruction) c) := by
  -- the run without interrupts is followed by the one with them, step by step
  suffices follows : ∀ c c', SameView mine c c' →
      SameView mine (instruction^[instructions moments] c) (moments.foldl (Moment.step instruction) c') from
    follows c c (.refl mine c)
  induction moments with
  | nil =>
    intro c c' same
    exact same
  | cons moment moments ih =>
    intro c c' same
    obtain ⟨first, rest⟩ := List.forall_mem_cons.mp unseen
    cases moment with
    | instruction => exact ih rest _ _ (own c c' same)
    | interrupted entry stub after interruptHandler =>
      obtain ⟨none, routine, kept⟩ := first
      exact ih rest _ _ (same.trans (interrupted_sameView off none routine kept stub after c'))

end

/-- A program that counts in `eax`, with a timer that nothing is registered for. -/
theorem counting_undisturbed :
    SameView (fun x => InRange x 0x3fb000 0x4000)
      ((fun c => c.set .eax (c.regs .eax + 1))^[instructions
        [.instruction, .interrupted timerInterrupt 0x101000 0x101008 unregisteredHandler, .instruction]] userCpu)
      ([.instruction, .interrupted timerInterrupt 0x101000 0x101008 unregisteredHandler, .instruction].foldl
        (Moment.step fun c => c.set .eax (c.regs .eax + 1)) userCpu) := by
  apply program_undisturbed
  · rintro c c' ⟨registers, memory⟩
    refine ⟨⟨fun r => ?_, registers.eip, registers.cs, registers.eflags, registers.ss⟩, memory⟩
    by_cases here : r = .eax
    · simp [here, registers.regs .eax]
    · simp [here, registers.regs r]
  · intro x inside on
    rw [inRange_iff (by decide)] at inside on
    have low : (0x3fb000 : UInt32).toNat = 0x3fb000 := rfl
    have high : (tssEsp0 - 4 * .ofNat 17).toNat = 0x5fffbc := by decide
    omega
  · intro moment mem
    simp only [List.mem_cons, List.not_mem_nil, or_false] at mem
    obtain rfl | rfl | rfl := mem
    · trivial
    · exact ⟨rfl, unregisteredHandler_routine, fun c x _ => rfl⟩
    · trivial

end PeachOs
