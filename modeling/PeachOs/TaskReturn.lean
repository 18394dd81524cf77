import PeachOs.Task
import PeachOs.Lib.X86

/-!
# Saving a task's state and returning to it

`task_save_state` leaves out `eax`, and `task_return` takes the flags from the
kernel and overwrites `ebp` with a stack address of its own.
-/

namespace PeachOs

open Memory Address X86

structure InterruptFrame where
  edi : UInt32
  esi : UInt32
  ebp : UInt32
  reserved : UInt32
  ebx : UInt32
  edx : UInt32
  ecx : UInt32
  eax : UInt32
  ip : UInt32
  cs : UInt32
  flags : UInt32
  esp : UInt32
  ss : UInt32

/-- The field `eax` keeps its value. -/
def taskSaveState (task : Task) (frame : InterruptFrame) : Task :=
  { task with
    registers :=
      { task.registers with
        ip := frame.ip, cs := frame.cs, flags := frame.flags, esp := frame.esp, ss := frame.ss
        ebp := frame.ebp, ebx := frame.ebx, ecx := frame.ecx, edi := frame.edi, edx := frame.edx
        esi := frame.esi } }

/-! ## `task.asm` -/

def restoreGeneralPusposeRegisters : List Instr :=
  [.push .ebp, .mov .ebp .esp, .load .ebx .ebp 8, .load .edi .ebx 0, .load .esi .ebx 4, .load .ebp .ebx 8,
    .load .edx .ebx 16, .load .ecx .ebx 20, .load .eax .ebx 24, .load .ebx .ebx 12, .pop .ebp, .ret]

/-- `task_return` up to the call of `restore_general_puspose_registers`. -/
def taskReturnFrame : List Instr :=
  [.mov .ebp .esp, .load .ebx .ebp 4, .pushMem .ebx 44, .pushMem .ebx 40, .pushf, .pop .eax, .or .eax 0x200,
    .push .eax, .pushMem .ebx 32, .pushMem .ebx 28, .load16 .eax .ebx 44, .dataSegments .eax]

/-- `after` is the address after the call. -/
def taskReturn (after : UInt32) : List Instr :=
  taskReturnFrame ++ [.pushMem .ebp 4, .call after] ++ restoreGeneralPusposeRegisters ++ [.addEsp 1, .iretd]

/-- The record `r` at `a`. -/
structure RegistersAt (m : Ram) (a : UInt32) (r : Registers) : Prop where
  edi : load32 m (a + 0) = r.edi
  esi : load32 m (a + 4) = r.esi
  ebp : load32 m (a + 8) = r.ebp
  ebx : load32 m (a + 12) = r.ebx
  edx : load32 m (a + 16) = r.edx
  ecx : load32 m (a + 20) = r.ecx
  eax : load32 m (a + 24) = r.eax
  ip : load32 m (a + 28) = r.ip
  cs : load32 m (a + 32) = r.cs
  flags : load32 m (a + 36) = r.flags
  esp : load32 m (a + 40) = r.esp
  ss : load32 m (a + 44) = r.ss

/-- `task_return` is entered with the record at `a`, which the eight words below
the stack pointer do not reach. -/
structure Entered (c : Cpu) (a : UInt32) (r : Registers) : Prop where
  argument : load32 c.ram (c.regs .esp + 4) = a
  registers : RegistersAt c.ram a r
  apart : ∀ x, InRange x a 48 → ¬ InRange x (c.regs .esp - 4 * .ofNat 8) (4 * 8)

section

variable {c c' : Cpu} {a : UInt32} {r : Registers} {ws : List UInt32}

/-- A field of the record, however deep the stack is. -/
theorem Entered.field (entered : Entered c a r) (stacked : Stacked c.ram (c.regs .esp) 8 c' ws) {disp : Nat}
    (inside : disp + 4 ≤ 48) : load32 c'.ram (a + .ofNat disp) = load32 c.ram (a + .ofNat disp) := by
  apply stacked.load
  intro k hk
  apply entered.apart
  unfold InRange
  have distance : a + .ofNat disp + .ofNat k - a = .ofNat (disp + k) := by
    rw [UInt32.ofNat_add]
    grind
  rw [distance, UInt32.toNat_ofNat']
  omega

theorem Entered.argument_kept (entered : Entered c a r) (stacked : Stacked c.ram (c.regs .esp) 8 c' ws) :
    load32 c'.ram (c.regs .esp + 4) = a := by
  rw [← entered.argument]
  apply stacked.load
  intro k hk
  unfold InRange
  have distance : c.regs .esp + 4 + .ofNat k - (c.regs .esp - 4 * .ofNat 8) = .ofNat (36 + k) := by
    rw [UInt32.ofNat_add]
    grind
  rw [distance, UInt32.toNat_ofNat']
  omega

/-- `task_return` has pushed `ws` so far. -/
structure Returning (c : Cpu) (a : UInt32) (ws : List UInt32) (c' : Cpu) : Prop where
  stacked : Stacked c.ram (c.regs .esp) 8 c' ws
  ebp : c'.regs .ebp = c.regs .esp
  ebx : c'.regs .ebx = a
  eflags : c'.eflags = c.eflags

theorem Returning.push (returning : Returning c a ws c') (room : ws.length < 8) (v : UInt32) :
    Returning c a (v :: ws) (c'.push v) := by
  constructor
  · exact returning.stacked.push room v
  · simpa using returning.ebp
  · simpa using returning.ebx
  · simpa using returning.eflags

theorem Returning.setEax (returning : Returning c a ws c') (v : UInt32) : Returning c a ws (c'.set .eax v) := by
  constructor
  · exact returning.stacked.set (by decide) v
  · simpa using returning.ebp
  · simpa using returning.ebx
  · simpa using returning.eflags

theorem Returning.dataSegments (returning : Returning c a ws c') :
    Returning c a ws (step c' (.dataSegments .eax)) :=
  ⟨returning.stacked.dataSegments .eax, returning.ebp, returning.ebx, returning.eflags⟩

theorem Returning.pushField (returning : Returning c a ws c') (entered : Entered c a r) (disp : Nat) {v : UInt32}
    (inside : disp + 4 ≤ 48) (field : load32 c.ram (a + .ofNat disp) = v) (room : ws.length < 8) :
    Returning c a (v :: ws) (step c' (.pushMem .ebx (.ofNat disp))) := by
  have pushed := returning.push room v
  rw [← field, ← entered.field returning.stacked inside] at pushed ⊢
  simpa only [step, returning.ebx] using pushed

/-- The flags are the ones of the kernel at the call. -/
theorem Returning.pushFlags (returning : Returning c a ws c') (room : ws.length < 8) :
    Returning c a ((c.eflags ||| 0x200) :: ws) (exec [.pushf, .pop .eax, .or .eax 0x200, .push .eax] c') := by
  have pushed := returning.push room c.eflags
  have popped : Returning c a ws ((c'.push c.eflags).drop 1) := by
    constructor
    · exact pushed.stacked.drop (Nat.succ_le_succ (Nat.zero_le _))
    · simpa using pushed.ebp
    · simpa using pushed.ebx
    · simpa using pushed.eflags
  have set := ((popped.setEax c.eflags).setEax (c.eflags ||| 0x200)).push room (c.eflags ||| 0x200)
  simpa [exec, step, returning.eflags, pushed.stacked.top] using set

/-- The frame for `iretd` is on the stack. -/
theorem taskReturnFrame_spec (entered : Entered c a r) :
    Returning c a [r.ip, r.cs, c.eflags ||| 0x200, r.esp, r.ss] (exec taskReturnFrame c) := by
  have start : Stacked c.ram (c.regs .esp) 8 (c.set .ebp (c.regs .esp)) [] :=
    (Stacked.start (by decide)).set (by decide) _
  have begun : Returning c a [] (exec [.mov .ebp .esp, .load .ebx .ebp 4] c) := by
    have argument := entered.argument_kept start
    constructor
    · exact start.set (by decide) _
    · simp [exec, step]
    · simpa [exec, step] using argument
    · rfl
  have ss := begun.pushField entered 44 (by decide) entered.registers.ss (by simp)
  have esp := ss.pushField entered 40 (by decide) entered.registers.esp (by simp)
  have flags := esp.pushFlags (by simp)
  have cs := flags.pushField entered 32 (by decide) entered.registers.cs (by simp)
  have ip := cs.pushField entered 28 (by decide) entered.registers.ip (by simp)
  exact (ip.setEax _).dataSegments

/-- The general purpose registers of the record are loaded, except `ebp`. -/
structure Restored (c : Cpu) (r : Registers) (c' : Cpu) : Prop where
  edi : c'.regs .edi = r.edi
  esi : c'.regs .esi = r.esi
  ebp : c'.regs .ebp = c.regs .esp
  ebx : c'.regs .ebx = r.ebx
  edx : c'.regs .edx = r.edx
  ecx : c'.regs .ecx = r.ecx
  eax : c'.regs .eax = r.eax
  eflags : c'.eflags = c.eflags

/-- `restore_general_puspose_registers` up to its last `pop`, with `ebp` pushed in `pushed`. -/
def loadRegisters (pushed : Cpu) (a : UInt32) (r : Registers) : Cpu :=
  (((((((((pushed.set .ebp (pushed.regs .esp)).set .ebx a).set .edi r.edi).set .esi r.esi).set .ebp r.ebp).set
    .edx r.edx).set .ecx r.ecx).set .eax r.eax).set .ebx r.ebx)

theorem loadRegisters_stacked (stacked : Stacked c.ram (c.regs .esp) 8 c' ws) :
    Stacked c.ram (c.regs .esp) 8 (loadRegisters c' a r) ws := by
  unfold loadRegisters
  repeat apply Stacked.set _ (by decide)
  exact stacked

/-- **The record's `ebp` is overwritten** by the one that was pushed. -/
theorem restoreGeneralPusposeRegisters_spec {after : UInt32} (entered : Entered c a r)
    (returning : Returning c a (after :: a :: ws) c') (room : ws.length < 6) :
    Stacked c.ram (c.regs .esp) 8 (exec restoreGeneralPusposeRegisters c') (a :: ws) ∧
      Restored c r (exec restoreGeneralPusposeRegisters c') := by
  have pushed := returning.push (Nat.add_lt_add_right room 2) (c.regs .esp)
  have argument : load32 (c'.push (c.regs .esp)).ram ((c'.push (c.regs .esp)).regs .esp + 8) = a :=
    pushed.stacked.word (i := 2) (by simp)
  have field (disp : Nat) (inside : disp + 4 ≤ 48) := entered.field pushed.stacked inside
  have edi : load32 _ (a + 0) = _ := (field 0 (by decide)).trans entered.registers.edi
  have esi : load32 _ (a + 4) = _ := (field 4 (by decide)).trans entered.registers.esi
  have ebp : load32 _ (a + 8) = _ := (field 8 (by decide)).trans entered.registers.ebp
  have ebx : load32 _ (a + 12) = _ := (field 12 (by decide)).trans entered.registers.ebx
  have edx : load32 _ (a + 16) = _ := (field 16 (by decide)).trans entered.registers.edx
  have ecx : load32 _ (a + 20) = _ := (field 20 (by decide)).trans entered.registers.ecx
  have eax : load32 _ (a + 24) = _ := (field 24 (by decide)).trans entered.registers.eax
  have loaded := loadRegisters_stacked (a := a) (r := r) pushed.stacked
  have run : exec restoreGeneralPusposeRegisters c' =
      exec [.pop .ebp, .ret] (loadRegisters (c'.push (c.regs .esp)) a r) := by
    simp only [restoreGeneralPusposeRegisters, exec_cons, step, returning.ebp, Cpu.set_ram, Cpu.set_self, argument,
      edi, esi, ebp, edx, ecx, eax, ebx, Cpu.set_ne, ne_eq, reduceCtorEq, not_false_eq_true, loadRegisters]
  have popped := (loaded.drop (k := 1) (by simp)).set (r := .ebp) (by decide) (c.regs .esp)
  have done := popped.drop (k := 1) (by simp)
  rw [run]
  simp only [exec_cons, step, loaded.top]
  refine ⟨⟨done.fits, done.esp, done.words, done.outside⟩, ?_⟩
  constructor <;> simp [exec, loadRegisters, returning.eflags]

/-- What `task_return` leaves for a record `r`. -/
structure Returned (c : Cpu) (r : Registers) (c' : Cpu) : Prop where
  edi : c'.regs .edi = r.edi
  esi : c'.regs .esi = r.esi
  ebp : c'.regs .ebp = c.regs .esp
  ebx : c'.regs .ebx = r.ebx
  edx : c'.regs .edx = r.edx
  ecx : c'.regs .ecx = r.ecx
  eax : c'.regs .eax = r.eax
  eip : c'.eip = r.ip
  cs : c'.cs = r.cs.toUInt16
  eflags : c'.eflags = c.eflags ||| 0x200
  esp : c'.regs .esp = r.esp
  ss : c'.ss = r.ss.toUInt16

/-- **`task_return` loads the record, except the flags and `ebp`.** -/
theorem taskReturn_spec (entered : Entered c a r) (after : UInt32) : Returned c r (exec (taskReturn after) c) := by
  have framed := taskReturnFrame_spec entered
  simp only [taskReturn, exec_append]
  generalize exec taskReturnFrame c = prepared at framed
  have called : Returning c a [after, a, r.ip, r.cs, c.eflags ||| 0x200, r.esp, r.ss]
      (exec [.pushMem .ebp 4, .call after] prepared) := by
    have pushed := (framed.push (by simp) a).push (by simp) after
    simpa [exec, step, framed.ebp, entered.argument_kept framed.stacked] using pushed
  obtain ⟨stacked, restored⟩ := restoreGeneralPusposeRegisters_spec entered called (by simp)
  generalize exec restoreGeneralPusposeRegisters _ = last at stacked restored
  have dropped : Stacked c.ram (c.regs .esp) 8 (last.drop 1)
      ([r.ip, r.cs, c.eflags ||| 0x200, r.esp, r.ss] ++ []) := stacked.drop (k := 1) (by simp)
  have returns : exec [.addEsp 1, .iretd] last = step (last.drop 1) .iretd := rfl
  rw [returns, dropped.iretd]
  constructor
  · simpa using restored.edi
  · simpa using restored.esi
  · simpa using restored.ebp
  · simpa using restored.ebx
  · simpa using restored.edx
  · simpa using restored.ecx
  · simpa using restored.eax
  · rfl
  · rfl
  · rfl
  · simp
  · rfl

/-- User mode goes on with the values of `frame`. -/
structure Resumed (frame : InterruptFrame) (c' : Cpu) : Prop where
  edi : c'.regs .edi = frame.edi
  esi : c'.regs .esi = frame.esi
  ebp : c'.regs .ebp = frame.ebp
  ebx : c'.regs .ebx = frame.ebx
  edx : c'.regs .edx = frame.edx
  ecx : c'.regs .ecx = frame.ecx
  eax : c'.regs .eax = frame.eax
  eip : c'.eip = frame.ip
  cs : c'.cs = frame.cs.toUInt16
  eflags : c'.eflags = frame.flags ||| 0x200
  esp : c'.regs .esp = frame.esp
  ss : c'.ss = frame.ss.toUInt16

/-- **A saved task resumes with the values of its frame exactly when the three
that are not restored happen to agree.** `ebp` would have to be the kernel's
stack pointer, `eax` the task's last saved one and the flags the kernel's. -/
theorem resumed_iff {task : Task} {frame : InterruptFrame} (entered : Entered c a (taskSaveState task frame).registers)
    (after : UInt32) :
    Resumed frame (exec (taskReturn after) c) ↔
      frame.ebp = c.regs .esp ∧ frame.eax = task.registers.eax ∧ frame.flags ||| 0x200 = c.eflags ||| 0x200 := by
  have returned := taskReturn_spec entered after
  constructor
  · intro resumed
    refine ⟨?_, ?_, ?_⟩
    · rw [← resumed.ebp, returned.ebp]
    · rw [← resumed.eax, returned.eax]
      rfl
    · rw [← resumed.eflags, returned.eflags]
  · rintro ⟨ebp, eax, eflags⟩
    constructor
    · exact returned.edi
    · exact returned.esi
    · rw [ebp, returned.ebp]
    · exact returned.ebx
    · exact returned.edx
    · exact returned.ecx
    · rw [eax, returned.eax]
      rfl
    · exact returned.eip
    · exact returned.cs
    · rw [eflags, returned.eflags]
    · exact returned.esp
    · exact returned.ss

end

/-! ## A system call's frame -/

def calledFrame : InterruptFrame :=
  ⟨1, 2, 0x5ffff0, 0, 3, 4, 5, 0, 0x400010, 0x1b, 0x202, 0x3feff0, 0x23⟩

/-- A task that has never been saved. -/
def freshTask : Task := ⟨0, ⟨0, 0, 0, 0, 0, 0, 0, 0x400000, 0x1b, 0, 0x3ff000, 0x23⟩, 0, 0, 0⟩

/-- The saved record at `0x1000000`, passed to `task_return` on the kernel's stack. -/
def savedRam : Ram :=
  [(0x5ffff4, 0x1000000), (0x1000000, 1), (0x1000004, 2), (0x1000008, 0x5ffff0), (0x100000c, 3), (0x1000010, 4),
    (0x1000014, 5), (0x100001c, 0x400010), (0x1000020, 0x1b), (0x1000024, 0x202), (0x1000028, 0x3feff0),
    (0x100002c, 0x23)].foldl (fun m word => store32 m word.1 word.2) fun _ => 0

def savedCpu : Cpu :=
  ⟨fun r => if r = .esp then 0x5ffff0 else 0, 2, 0x101000, 8, 0x10, 0x10, 0x10, 0x10, 0x10, savedRam⟩

theorem savedRam_laidOut : RegistersAt savedRam 0x1000000 (taskSaveState freshTask calledFrame).registers := by
  constructor <;> decide

theorem savedCpu_entered (eax : UInt32) :
    Entered savedCpu 0x1000000 (taskSaveState freshTask { calledFrame with eax := eax }).registers := by
  refine ⟨by decide, savedRam_laidOut, ?_⟩
  intro x inside below
  unfold InRange at inside below
  rw [toNat_sub] at inside below
  simp [savedCpu] at inside below
  omega

/-- A frame whose three values agree. -/
theorem calledFrame_resumed : Resumed calledFrame (exec (taskReturn 0x101000) savedCpu) :=
  (resumed_iff (savedCpu_entered 0) 0x101000).2 ⟨rfl, rfl, rfl⟩

/-- **A program's `eax` is lost.** -/
theorem eax_lost :
    ¬ ∀ (c : Cpu) (a after : UInt32) (task : Task) (frame : InterruptFrame),
      Entered c a (taskSaveState task frame).registers → Resumed frame (exec (taskReturn after) c) := by
  intro all
  have resumed := all savedCpu 0x1000000 0x101000 freshTask _ (savedCpu_entered 7)
  have eax := (taskReturn_spec (savedCpu_entered 7) 0x101000).eax
  rw [resumed.eax] at eax
  exact absurd eax (by decide)

end PeachOs
