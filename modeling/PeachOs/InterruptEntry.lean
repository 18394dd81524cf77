import PeachOs.Idt

/-!
# Entering the kernel

The stubs of `idt.asm` between user mode and `interrupt_handler`. One macro
serves all vectors, and nothing takes off the error code that the CPU pushes for
some exceptions.
-/

namespace PeachOs

open Memory Address X86

def kernelCodeSelector : UInt16 := 0x8
def kernelDataSelector : UInt16 := 0x10

inductive Cause
  | exception (errorCode : UInt32)
  | external
  | software

/-- The exceptions the CPU pushes an error code for. -/
def hasErrorCode (vector : Nat) : Bool := vector ∈ [8, 10, 11, 12, 13, 14, 17, 21, 29, 30]

structure Entry where
  vector : Fin peachosTotalInterrupts
  cause : Cause

/-- What is pushed after the interrupted registers. -/
def Entry.errorCode (entry : Entry) : Option UInt32 :=
  match entry.cause with
  | .exception code => if hasErrorCode entry.vector then some code else none
  | .external => none
  | .software => none

/-! ## The stub -/

/-- The macro up to `interrupt_handler`'s first instruction. `after` is the
address after the call. -/
def interruptCall (vector after : UInt32) (c : Cpu) : Cpu :=
  exec [.push .esp, .pushImm vector, .call after] c.cli.pushad

/-- The macro from the return of `interrupt_handler` on. -/
def interruptReturn (c : Cpu) : Cpu := exec [.iretd] (exec [.addEsp 2] c).popad

/-- `interrupt_handler` is entered, by way of the stub at `stub`. -/
def Entry.called (entry : Entry) (stub after : UInt32) (c : Cpu) : Cpu :=
  interruptCall (.ofNat entry.vector) after
    (c.interrupt kernelCodeSelector kernelDataSelector stub tssEsp0 entry.errorCode)

def interruptFrameAt (m : Ram) (a : UInt32) : InterruptFrame :=
  ⟨load32 m (a + 0), load32 m (a + 4), load32 m (a + 8), load32 m (a + 12), load32 m (a + 16), load32 m (a + 20),
    load32 m (a + 24), load32 m (a + 28), load32 m (a + 32), load32 m (a + 36), load32 m (a + 40), load32 m (a + 44),
    load32 m (a + 48)⟩

/-- The second argument of `interrupt_handler`. -/
def passedFrame (called : Cpu) : InterruptFrame :=
  interruptFrameAt called.ram (load32 called.ram (called.regs .esp + 8))

/-- Each field is the register it names; `reserved` names none. -/
structure FrameOf (c : Cpu) (frame : InterruptFrame) : Prop where
  edi : frame.edi = c.regs .edi
  esi : frame.esi = c.regs .esi
  ebp : frame.ebp = c.regs .ebp
  ebx : frame.ebx = c.regs .ebx
  edx : frame.edx = c.regs .edx
  ecx : frame.ecx = c.regs .ecx
  eax : frame.eax = c.regs .eax
  ip : frame.ip = c.eip
  cs : frame.cs = c.cs.toUInt32
  flags : frame.flags = c.eflags
  esp : frame.esp = c.regs .esp
  ss : frame.ss = c.ss.toUInt32

/-- `c'` goes on where `c` was. -/
structure GoesOn (c c' : Cpu) : Prop where
  regs : ∀ r, c'.regs r = c.regs r
  eip : c'.eip = c.eip
  cs : c'.cs = c.cs
  eflags : c'.eflags = c.eflags
  ss : c'.ss = c.ss

structure EntryRight (interruptHandler : Cpu → Cpu) (stub after : UInt32) (entry : Entry) (c : Cpu) : Prop where
  frame : FrameOf c (passedFrame (entry.called stub after c))
  resumed : GoesOn c (interruptReturn (interruptHandler (entry.called stub after c)))

/-- The selectors every task runs with. -/
structure UserSelectors (c : Cpu) : Prop where
  cs : c.cs.toUInt32 = userCodeSegment
  ss : c.ss.toUInt32 = userDataSegment

section

variable {m : Ram} {base : UInt32} {n : Nat} {c : Cpu} {ws : List UInt32}

/-- The frame the words on top of the stack make. -/
theorem Stacked.interruptFrame {edi esi ebp reserved ebx edx ecx eax ip cs flags esp ss : UInt32}
    (stacked : Stacked m base n c ([edi, esi, ebp, reserved, ebx, edx, ecx, eax, ip, cs, flags, esp, ss] ++ ws)) :
    interruptFrameAt c.ram (c.regs .esp) =
      ⟨edi, esi, ebp, reserved, ebx, edx, ecx, eax, ip, cs, flags, esp, ss⟩ := by
  have word {i : Nat} (hi : i < 13) := stacked.word (i := i) (by simp; omega)
  unfold interruptFrameAt
  congr
  · exact word (i := 0) (by decide)
  · exact word (i := 1) (by decide)
  · exact word (i := 2) (by decide)
  · exact word (i := 3) (by decide)
  · exact word (i := 4) (by decide)
  · exact word (i := 5) (by decide)
  · exact word (i := 6) (by decide)
  · exact word (i := 7) (by decide)
  · exact word (i := 8) (by decide)
  · exact word (i := 9) (by decide)
  · exact word (i := 10) (by decide)
  · exact word (i := 11) (by decide)
  · exact word (i := 12) (by decide)

/-- The words at `interrupt_handler`'s first instruction: the return address, its
arguments, the general registers and what was there before. -/
theorem interruptCall_stacked (stacked : Stacked m base 17 c ws) (few : ws.length ≤ 6) (vector after : UInt32) :
    Stacked m base 17 (interruptCall vector after c)
      ([after, vector, (interruptCall vector after c).regs .esp + 12] ++ ([c.regs .edi, c.regs .esi, c.regs .ebp,
        c.regs .esp, c.regs .ebx, c.regs .edx, c.regs .ecx, c.regs .eax] ++ ws)) := by
  have disabled : Stacked m base 17 c.cli ws := stacked.of_eq rfl rfl
  have saved := disabled.pushad (by omega)
  have room : ([c.regs .edi, c.regs .esi, c.regs .ebp, c.regs .esp, c.regs .ebx, c.regs .edx, c.regs .ecx,
      c.regs .eax] ++ ws).length ≤ 14 := by
    simp only [List.length_append, List.length_cons, List.length_nil]
    omega
  have called := saved.pushAll [c.cli.pushad.regs .esp, vector, after]
    (Nat.add_le_add_right room 3)
  have frame : (interruptCall vector after c).regs .esp + 12 = c.cli.pushad.regs .esp := by
    simp [interruptCall, exec, step, Cpu.push]
    grind
  rw [frame]
  exact called

/-- The words at `interrupt_handler`'s first instruction after an entry. -/
theorem Entry.called_stacked (entry : Entry) (stub after : UInt32) (c : Cpu) :
    ∃ reserved, Stacked c.ram tssEsp0 17 (entry.called stub after c)
      ([after, .ofNat entry.vector, (entry.called stub after c).regs .esp + 12] ++
        ([c.regs .edi, c.regs .esi, c.regs .ebp, reserved, c.regs .ebx, c.regs .edx, c.regs .ecx, c.regs .eax] ++
          (entry.errorCode.toList ++ [c.eip, c.cs.toUInt32, c.eflags, c.regs .esp, c.ss.toUInt32]))) := by
  have pushed := interrupt_stacked c kernelCodeSelector kernelDataSelector stub tssEsp0 entry.errorCode
    (n := 17) (by decide)
  have few : (entry.errorCode.toList ++ [c.eip, c.cs.toUInt32, c.eflags, c.regs .esp, c.ss.toUInt32]).length ≤ 6 := by
    cases entry.errorCode <;> simp
  have called := interruptCall_stacked pushed few (.ofNat entry.vector) after
  simp only [interrupt_regs c kernelCodeSelector kernelDataSelector stub tssEsp0 entry.errorCode, ne_eq, reduceCtorEq,
    not_false_eq_true] at called
  exact ⟨_, called⟩

/-- The frame passed, with what the CPU pushed behind the general registers. -/
theorem passedFrame_eq {after vector edi esi ebp reserved ebx edx ecx eax ip cs flags esp ss : UInt32}
    (called : Stacked m base n c ([after, vector, c.regs .esp + 12] ++
      ([edi, esi, ebp, reserved, ebx, edx, ecx, eax, ip, cs, flags, esp, ss] ++ ws))) :
    passedFrame c = ⟨edi, esi, ebp, reserved, ebx, edx, ecx, eax, ip, cs, flags, esp, ss⟩ := by
  have argument : load32 c.ram (c.regs .esp + 8) = c.regs .esp + 12 := called.word (i := 2) (by simp)
  have place : (c.drop 3).regs .esp = c.regs .esp + 12 := Cpu.set_self c .esp _
  have frame := Stacked.interruptFrame (called.drop (k := 3) (by simp))
  rw [place] at frame
  rw [passedFrame, argument]
  exact frame

/-- With an error code every field from `ip` on holds the word before its own. -/
theorem passedFrame_shifted {entry : Entry} {code : UInt32} (pushed : entry.errorCode = some code) (stub after : UInt32)
    (c : Cpu) :
    (passedFrame (entry.called stub after c)).ip = code ∧ (passedFrame (entry.called stub after c)).cs = c.eip ∧
      (passedFrame (entry.called stub after c)).flags = c.cs.toUInt32 ∧
      (passedFrame (entry.called stub after c)).esp = c.eflags ∧
      (passedFrame (entry.called stub after c)).ss = c.regs .esp := by
  obtain ⟨reserved, called⟩ := entry.called_stacked stub after c
  rw [pushed] at called
  rw [passedFrame_eq called]
  exact ⟨rfl, rfl, rfl, rfl, rfl⟩

/-- A frame that is shifted would name the registers only if they were all the same. -/
theorem shifted_wrong {entry : Entry} {code : UInt32} (pushed : entry.errorCode = some code) (user : UserSelectors c)
    (stub after : UInt32) : ¬ FrameOf c (passedFrame (entry.called stub after c)) := by
  intro right
  obtain ⟨_, cs, flags, esp, ss⟩ := passedFrame_shifted pushed stub after c
  have same : c.cs.toUInt32 = c.ss.toUInt32 := by
    rw [← flags, right.flags, ← esp, right.esp, ← ss, right.ss]
  rw [user.cs, user.ss] at same
  exact absurd same (by decide)

/-- Without an error code the macro undoes what it did. -/
theorem entry_right {interruptHandler : Cpu → Cpu} {entry : Entry} (routine : CRoutine interruptHandler 2 13)
    (none : entry.errorCode = none) (stub after : UInt32) (c : Cpu) :
    EntryRight interruptHandler stub after entry c := by
  obtain ⟨reserved, called⟩ := entry.called_stacked stub after c
  rw [none] at called
  constructor
  · rw [passedFrame_eq called]
    constructor <;> rfl
  · have back := routine.stacked called rfl (Nat.le_refl 13)
    obtain ⟨left, loaded⟩ := back.popad
    have resumed := Stacked.iretd left
    have run : interruptReturn (interruptHandler (entry.called stub after c)) =
        step ((interruptHandler (entry.called stub after c)).drop 2).popad .iretd := rfl
    rw [run, resumed]
    constructor
    · intro r
      cases r with
      | esp => simp
      | eax => simpa using loaded.eax
      | ebx => simpa using loaded.ebx
      | ecx => simpa using loaded.ecx
      | edx => simpa using loaded.edx
      | esi => simpa using loaded.esi
      | edi => simpa using loaded.edi
      | ebp => simpa using loaded.ebp
    · rfl
    · simp
    · rfl
    · simp

/-- **A user program is interrupted without a trace exactly when the CPU pushes no
error code.** The macro is the same for every vector, so with one the frame and
the return address are a word off. -/
theorem entryRight_iff {interruptHandler : Cpu → Cpu} (routine : CRoutine interruptHandler 2 13) (user : UserSelectors c)
    (entry : Entry) (stub after : UInt32) :
    EntryRight interruptHandler stub after entry c ↔ entry.errorCode = none := by
  constructor
  · intro right
    cases pushed : entry.errorCode with
    | none => rfl
    | some code => exact absurd right.frame (shifted_wrong pushed user stub after)
  · intro none
    exact entry_right routine none stub after c

end

/-! ## A handler without a callback -/

/-- `interrupt_handler` when no function is registered: it switches to the kernel
and back, and acknowledges the interrupt. -/
def unregisteredHandler (c : Cpu) : Cpu :=
  { ((step c .ret).set .eax 0x20).set .edx 0x20 with ds := 0x23, es := 0x23, fs := 0x23, gs := 0x23 }

theorem unregisteredHandler_routine : CRoutine unregisteredHandler 2 13 := by
  constructor
  · intro c
    simp [unregisteredHandler, step, Cpu.drop]
  · intro c
    rfl
  · intro c r mem
    have apart : r ≠ .esp ∧ r ≠ .eax ∧ r ≠ .edx := by
      cases r <;> simp at mem ⊢
    simp [unregisteredHandler, step, apart]
  · intro c x _
    rfl

def userCpu : Cpu :=
  ⟨fun r => if r = .esp then 0x3feff0 else 7, 0x202, 0x400010, 0x1b, 0x23, 0x23, 0x23, 0x23, 0x23, fun _ => 0⟩

theorem userCpu_selectors : UserSelectors userCpu := ⟨rfl, rfl⟩

def timerInterrupt : Entry := ⟨⟨0x20, by decide⟩, .external⟩

theorem timer_unnoticed : EntryRight unregisteredHandler 0x101000 0x101008 timerInterrupt userCpu :=
  (entryRight_iff unregisteredHandler_routine userCpu_selectors timerInterrupt 0x101000 0x101008).2 rfl

/-- A user program reads a page that is not there. -/
def pageFault : Entry := ⟨⟨14, by decide⟩, .exception 4⟩

/-- **A page fault's frame is a word off**: its `ip` is the error code, and its
`cs` the address of the instruction. -/
theorem page_fault_shifted :
    CRoutine unregisteredHandler 2 13 ∧ UserSelectors userCpu ∧
      (passedFrame (pageFault.called 0x101000 0x101008 userCpu)).ip = 4 ∧
      (passedFrame (pageFault.called 0x101000 0x101008 userCpu)).cs = userCpu.eip ∧
      ¬ EntryRight unregisteredHandler 0x101000 0x101008 pageFault userCpu := by
  have pushed : pageFault.errorCode = some 4 := by decide
  obtain ⟨ip, cs, _⟩ := passedFrame_shifted pushed 0x101000 0x101008 userCpu
  refine ⟨unregisteredHandler_routine, userCpu_selectors, ip, cs, fun right => ?_⟩
  exact shifted_wrong pushed userCpu_selectors 0x101000 0x101008 right.frame

end PeachOs
