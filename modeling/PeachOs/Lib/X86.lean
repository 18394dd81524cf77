import PeachOs.Lib.Memory
import Mathlib.Data.List.GetD

/-!
# A stack machine's part of 32-bit x86

Straight-line code over registers, flags, selectors and memory. What was pushed
since the stack pointer was at `base` is a list of words, and the memory outside
them is as it was.
-/

namespace PeachOs.X86

open Memory Address
open Function (update)

inductive Reg
  | eax | ebx | ecx | edx | esi | edi | ebp | esp
  deriving DecidableEq

structure Cpu where
  regs : Reg → UInt32
  eflags : UInt32
  eip : UInt32
  cs : UInt16
  ss : UInt16
  ds : UInt16
  es : UInt16
  fs : UInt16
  gs : UInt16
  ram : Ram

namespace Cpu

def set (c : Cpu) (r : Reg) (v : UInt32) : Cpu := { c with regs := update c.regs r v }

def push (c : Cpu) (v : UInt32) : Cpu :=
  { c with regs := update c.regs .esp (c.regs .esp - 4), ram := store32 c.ram (c.regs .esp - 4) v }

/-- The word on top of the stack. -/
def top (c : Cpu) : UInt32 := load32 c.ram (c.regs .esp)

/-- Takes `n` words off the stack. -/
def drop (c : Cpu) (n : Nat) : Cpu := c.set .esp (c.regs .esp + 4 * .ofNat n)

end Cpu

/-- `call` and `ret` are the two ends of a routine that is written in place. -/
inductive Instr
  | mov (dst src : Reg)
  | load (dst base : Reg) (disp : UInt32)
  | load16 (dst base : Reg) (disp : UInt32)
  | push (src : Reg)
  | pushImm (v : UInt32)
  | pushMem (base : Reg) (disp : UInt32)
  | pop (dst : Reg)
  | pushf
  | or (dst : Reg) (v : UInt32)
  | dataSegments (src : Reg)
  | call (after : UInt32)
  | ret
  | addEsp (words : Nat)
  | iretd

/-- `iretd` to an outer ring also takes the stack pointer and its segment. -/
def step (c : Cpu) : Instr → Cpu
  | .mov dst src => c.set dst (c.regs src)
  | .load dst base disp => c.set dst (load32 c.ram (c.regs base + disp))
  | .load16 dst base disp =>
    c.set dst (c.regs dst &&& 0xffff0000 ||| (load32 c.ram (c.regs base + disp)).toUInt16.toUInt32)
  | .push src => c.push (c.regs src)
  | .pushImm v => c.push v
  | .pushMem base disp => c.push (load32 c.ram (c.regs base + disp))
  | .pop dst => (c.drop 1).set dst c.top
  | .pushf => c.push c.eflags
  | .or dst v => c.set dst (c.regs dst ||| v)
  | .dataSegments src =>
    let selector := (c.regs src).toUInt16
    { c with ds := selector, es := selector, fs := selector, gs := selector }
  | .call after => c.push after
  | .ret => { c.drop 1 with eip := c.top }
  | .addEsp words => c.drop words
  | .iretd =>
    let popped := (c.drop 5)
    { popped.set .esp (c.drop 3).top with
      eip := c.top, cs := (c.drop 1).top.toUInt16, eflags := (c.drop 2).top, ss := (c.drop 4).top.toUInt16 }

def exec (code : List Instr) (c : Cpu) : Cpu := code.foldl step c

theorem exec_append (a b : List Instr) (c : Cpu) : exec (a ++ b) c = exec b (exec a c) :=
  List.foldl_append

theorem exec_cons (i : Instr) (code : List Instr) (c : Cpu) : exec (i :: code) c = exec code (step c i) := rfl

namespace Cpu

@[simp] theorem set_self (c : Cpu) (r : Reg) (v : UInt32) : (c.set r v).regs r = v := by
  simp [set]

@[simp] theorem set_ne (c : Cpu) {r r' : Reg} (v : UInt32) (ne : r' ≠ r) : (c.set r v).regs r' = c.regs r' := by
  simp [set, ne]

@[simp] theorem push_ne (c : Cpu) {r : Reg} (v : UInt32) (ne : r ≠ .esp) : (c.push v).regs r = c.regs r := by
  simp [push, ne]

@[simp] theorem drop_ne (c : Cpu) {r : Reg} (n : Nat) (ne : r ≠ .esp) : (c.drop n).regs r = c.regs r :=
  set_ne c _ ne

@[simp] theorem set_ram (c : Cpu) (r : Reg) (v : UInt32) : (c.set r v).ram = c.ram := rfl

@[simp] theorem set_eflags (c : Cpu) (r : Reg) (v : UInt32) : (c.set r v).eflags = c.eflags := rfl

@[simp] theorem push_eflags (c : Cpu) (v : UInt32) : (c.push v).eflags = c.eflags := rfl

@[simp] theorem drop_eflags (c : Cpu) (n : Nat) : (c.drop n).eflags = c.eflags := rfl

end Cpu

/-! ## The stack -/

/-- Of at most `n` words below `base`, `ws` are on the stack, the last one pushed
first. The memory outside is that of `m`. -/
structure Stacked (m : Ram) (base : UInt32) (n : Nat) (c : Cpu) (ws : List UInt32) : Prop where
  fits : ws.length ≤ n ∧ 4 * n < 2 ^ 31
  esp : c.regs .esp = base - 4 * .ofNat ws.length
  words : ∀ i < ws.length, load32 c.ram (base - 4 * .ofNat (ws.length - i)) = ws.getD i 0
  outside : Agree (fun x => ¬ InRange x (base - 4 * .ofNat n) (4 * n)) m c.ram

section

variable {m : Ram} {base v a : UInt32} {n : Nat} {c : Cpu} {ws : List UInt32}

theorem Stacked.start (fits : 4 * n < 2 ^ 31) : Stacked c.ram (c.regs .esp) n c [] := by
  refine ⟨⟨Nat.zero_le n, fits⟩, ?_, fun i hi => absurd hi (Nat.not_lt_zero i), Agree.refl _ _⟩
  simp

/-- Distinct words of a stack do not overlap. -/
theorem load32_store32_below (m : Ram) {i j : Nat} (ne : i ≠ j) (hi : 4 * i < 2 ^ 31) (hj : 4 * j < 2 ^ 31) :
    load32 (store32 m (base - 4 * .ofNat i) v) (base - 4 * .ofNat j) = load32 m (base - 4 * .ofNat j) := by
  have far (k : UInt32) (hk : k.toNat < 4) : ¬ InRange (base - 4 * .ofNat j + k) (base - 4 * .ofNat i) 4 := by
    have distance : base - 4 * .ofNat j + k - (base - 4 * .ofNat i) = 4 * .ofNat i - 4 * .ofNat j + k := by grind
    unfold InRange
    rw [distance]
    simp only [UInt32.toNat_add, UInt32.toNat_sub, UInt32.toNat_mul, UInt32.toNat_ofNat', UInt32.reduceToNat]
    omega
  apply (store32_agree m (base - 4 * .ofNat i) v).word
  exact far

/-- A register other than the stack pointer. -/
theorem Stacked.set (stacked : Stacked m base n c ws) {r : Reg} (ne : r ≠ .esp) (v : UInt32) :
    Stacked m base n (c.set r v) ws := by
  refine ⟨stacked.fits, ?_, stacked.words, stacked.outside⟩
  rw [← stacked.esp]
  exact Function.update_of_ne ne.symm _ _

theorem Stacked.push (stacked : Stacked m base n c ws) (room : ws.length < n) (v : UInt32) :
    Stacked m base n (c.push v) (v :: ws) := by
  have fits := stacked.fits
  have place : c.regs .esp - 4 = base - 4 * .ofNat (ws.length + 1) := by
    rw [stacked.esp]
    have next : UInt32.ofNat (ws.length + 1) = .ofNat ws.length + 1 := UInt32.ofNat_add _ _
    rw [next]
    grind
  refine ⟨⟨room, fits.2⟩, ?_, fun i hi => ?_, ?_⟩
  · show update c.regs .esp (c.regs .esp - 4) .esp = _
    rw [Function.update_self, place]
    rfl
  · show load32 (store32 c.ram (c.regs .esp - 4) v) _ = _
    rw [place]
    cases i with
    | zero => exact load32_store32_same _ _ _
    | succ i =>
      rw [List.length_cons] at hi ⊢
      rw [load32_store32_below c.ram (by omega) (by omega) (by omega), List.getD_cons_succ,
        ← stacked.words i (by omega)]
      congr 4
      omega
  · show Agree _ m (store32 c.ram (c.regs .esp - 4) v)
    rw [place]
    refine stacked.outside.trans ((store32_agree c.ram _ v).mono fun x off inside => off ?_)
    have at' : base - 4 * .ofNat (ws.length + 1) = base - 4 * .ofNat n + .ofNat (4 * (n - (ws.length + 1))) := by
      have total : UInt32.ofNat n = .ofNat (ws.length + 1) + .ofNat (n - (ws.length + 1)) := by
        rw [← UInt32.ofNat_add, Nat.add_sub_cancel' room]
      rw [total, UInt32.ofNat_mul]
      grind
    rw [at'] at inside
    exact (inRange_offset (4 * n) inside (by omega) (by omega)).2

theorem Stacked.dataSegments (stacked : Stacked m base n c ws) (r : Reg) :
    Stacked m base n (step c (.dataSegments r)) ws :=
  ⟨stacked.fits, stacked.esp, stacked.words, stacked.outside⟩

/-- The word `i` places under the top. -/
theorem Stacked.word (stacked : Stacked m base n c ws) {i : Nat} (hi : i < ws.length) :
    load32 c.ram (c.regs .esp + 4 * .ofNat i) = ws.getD i 0 := by
  rw [stacked.esp, ← stacked.words i hi]
  have rest : UInt32.ofNat ws.length = .ofNat (ws.length - i) + .ofNat i := by
    rw [← UInt32.ofNat_add, Nat.sub_add_cancel (Nat.le_of_lt hi)]
  rw [rest]
  congr 1
  grind

/-- The word on top. -/
theorem Stacked.top (stacked : Stacked m base n c (v :: ws)) : c.top = v := by
  rw [Cpu.top, stacked.esp]
  exact stacked.words 0 (Nat.succ_pos _)

theorem Stacked.drop {k : Nat} (stacked : Stacked m base n c ws) (inside : k ≤ ws.length) :
    Stacked m base n (c.drop k) (ws.drop k) := by
  have fits := stacked.fits
  refine ⟨⟨?_, fits.2⟩, ?_, fun i hi => ?_, stacked.outside⟩
  · rw [List.length_drop]
    omega
  · show update c.regs .esp (c.regs .esp + 4 * .ofNat k) .esp = _
    have rest : UInt32.ofNat ws.length = .ofNat (ws.length - k) + .ofNat k := by
      rw [← UInt32.ofNat_add, Nat.sub_add_cancel inside]
    rw [Function.update_self, stacked.esp, List.length_drop, rest]
    grind
  · rw [List.length_drop] at hi ⊢
    have word := stacked.words (k + i) (by omega)
    have byte : (ws.drop k).getD i 0 = ws.getD (k + i) 0 := by simp [List.getD]
    rw [Nat.sub_sub, byte]
    exact word

/-- A word outside the stack's reach. -/
theorem Stacked.load (stacked : Stacked m base n c ws) (apart : ∀ k < 4, ¬ InRange (a + .ofNat k) (base - 4 * .ofNat n) (4 * n)) :
    load32 c.ram a = load32 m a := by
  apply stacked.outside.word
  intro k hk
  simpa using apart k.toNat hk

end

/-! ## Interrupts -/

namespace Cpu

/-- Bit 9 of `eflags` is cleared. -/
def cli (c : Cpu) : Cpu := { c with eflags := c.eflags &&& 0xfffffdff }

/-- The stack pointer that is pushed is the one before. -/
def pushad (c : Cpu) : Cpu :=
  [Reg.eax, .ecx, .edx, .ebx, .esp, .ebp, .esi, .edi].foldl (fun c' r => c'.push (c.regs r)) c

/-- The pushed stack pointer is skipped. -/
def popad (c : Cpu) : Cpu :=
  (((((((c.drop 8).set .edi c.top).set .esi (c.drop 1).top).set .ebp (c.drop 2).top).set .ebx (c.drop 4).top).set
    .edx (c.drop 5).top).set .ecx (c.drop 6).top).set .eax (c.drop 7).top

/-- An interrupt gate to an inner ring: the stack `ss:esp` is taken, what was
interrupted is pushed on it, and an error code if there is one. The flags IF, TF,
NT, RF and VM are cleared. -/
def interrupt (c : Cpu) (cs ss : UInt16) (eip esp : UInt32) (errorCode : Option UInt32) : Cpu :=
  let inner := { c.set .esp esp with cs := cs, ss := ss, eip := eip, eflags := c.eflags &&& 0xfffcbcff }
  let words := [c.ss.toUInt32, c.regs .esp, c.eflags, c.cs.toUInt32, c.eip] ++ errorCode.toList
  words.foldl push inner

end Cpu

/-- A routine with the C calling convention and `args` words of arguments. It
returns to its caller, and leaves the registers that are the caller's and the
`words` words over the arguments. The arguments are its own. -/
structure CRoutine (f : Cpu → Cpu) (args words : Nat) : Prop where
  esp : ∀ c, (f c).regs .esp = c.regs .esp + 4
  eip : ∀ c, (f c).eip = c.top
  kept : ∀ c, ∀ r ∈ [Reg.ebx, .esi, .edi, .ebp], (f c).regs r = c.regs r
  frame : ∀ c, Agree (fun x => InRange x (c.regs .esp + 4 * .ofNat (1 + args)) (4 * words)) c.ram (f c).ram

section

variable {m : Ram} {base v : UInt32} {n : Nat} {c : Cpu} {ws : List UInt32}

/-- The other fields of the state. -/
theorem Stacked.of_eq {c' : Cpu} (stacked : Stacked m base n c ws) (regs : c'.regs = c.regs) (ram : c'.ram = c.ram) :
    Stacked m base n c' ws := by
  refine ⟨stacked.fits, ?_, ?_, ?_⟩
  · rw [regs]
    exact stacked.esp
  · rw [ram]
    exact stacked.words
  · rw [ram]
    exact stacked.outside

theorem Stacked.pushAll (stacked : Stacked m base n c ws) (vs : List UInt32) (room : ws.length + vs.length ≤ n) :
    Stacked m base n (vs.foldl Cpu.push c) (vs.reverse ++ ws) := by
  induction vs generalizing c ws with
  | nil => exact stacked
  | cons v vs ih =>
    rw [List.length_cons] at room
    have pushed := ih (stacked.push (by omega) v) (by rw [List.length_cons]; omega)
    rw [List.reverse_cons, List.append_assoc]
    exact pushed

theorem Stacked.pushad (stacked : Stacked m base n c ws) (room : ws.length + 8 ≤ n) :
    Stacked m base n c.pushad ([c.regs .edi, c.regs .esi, c.regs .ebp, c.regs .esp, c.regs .ebx, c.regs .edx,
      c.regs .ecx, c.regs .eax] ++ ws) :=
  stacked.pushAll [c.regs .eax, c.regs .ecx, c.regs .edx, c.regs .ebx, c.regs .esp, c.regs .ebp, c.regs .esi,
    c.regs .edi] room

theorem interrupt_stacked (c : Cpu) (cs ss : UInt16) (eip esp : UInt32) (errorCode : Option UInt32) {n : Nat}
    (fits : 6 ≤ n ∧ 4 * n < 2 ^ 31) :
    Stacked c.ram esp n (c.interrupt cs ss eip esp errorCode)
      (errorCode.toList ++ [c.eip, c.cs.toUInt32, c.eflags, c.regs .esp, c.ss.toUInt32]) := by
  have start : Stacked c.ram esp n
      { c.set .esp esp with cs := cs, ss := ss, eip := eip, eflags := c.eflags &&& 0xfffcbcff } [] := by
    refine ⟨⟨Nat.zero_le n, fits.2⟩, ?_, fun i hi => absurd hi (Nat.not_lt_zero i), Agree.refl _ _⟩
    simp [Cpu.set]
  have pushed := start.pushAll ([c.ss.toUInt32, c.regs .esp, c.eflags, c.cs.toUInt32, c.eip] ++ errorCode.toList)
  cases errorCode with
  | none => exact pushed (Nat.le_trans (by simp) fits.1)
  | some code => exact pushed fits.1

/-- The general registers are the interrupted ones. -/
theorem interrupt_regs (c : Cpu) (cs ss : UInt16) (eip esp : UInt32) (errorCode : Option UInt32) {r : Reg}
    (ne : r ≠ .esp) : (c.interrupt cs ss eip esp errorCode).regs r = c.regs r := by
  cases errorCode <;> simp [Cpu.interrupt, Cpu.set, ne]

/-- The general registers, except the stack pointer. -/
structure Loaded (edi esi ebp ebx edx ecx eax : UInt32) (c : Cpu) : Prop where
  edi : c.regs .edi = edi
  esi : c.regs .esi = esi
  ebp : c.regs .ebp = ebp
  ebx : c.regs .ebx = ebx
  edx : c.regs .edx = edx
  ecx : c.regs .ecx = ecx
  eax : c.regs .eax = eax

theorem Stacked.popad {edi esi ebp skipped ebx edx ecx eax : UInt32}
    (stacked : Stacked m base n c ([edi, esi, ebp, skipped, ebx, edx, ecx, eax] ++ ws)) :
    Stacked m base n c.popad ws ∧ Loaded edi esi ebp ebx edx ecx eax c.popad := by
  constructor
  · have dropped : Stacked m base n (c.drop 8) ws := stacked.drop (k := 8) (by simp)
    unfold Cpu.popad
    repeat apply Stacked.set _ (by decide)
    exact dropped
  · have esi := (stacked.drop (k := 1) (by simp)).top
    have ebp := (stacked.drop (k := 2) (by simp)).top
    have ebx := (stacked.drop (k := 4) (by simp)).top
    have edx := (stacked.drop (k := 5) (by simp)).top
    have ecx := (stacked.drop (k := 6) (by simp)).top
    have eax := (stacked.drop (k := 7) (by simp)).top
    constructor <;> simp [Cpu.popad, stacked.top, *]

/-- A frame for `iretd` on top of the stack. -/
theorem Stacked.iretd {ip cs flags esp ss : UInt32} (stacked : Stacked m base n c ([ip, cs, flags, esp, ss] ++ ws)) :
    step c .iretd = { (c.set .esp esp) with eip := ip, cs := cs.toUInt16, eflags := flags, ss := ss.toUInt16 } := by
  have cs := (stacked.drop (k := 1) (by simp)).top
  have flags := (stacked.drop (k := 2) (by simp)).top
  have esp := (stacked.drop (k := 3) (by simp)).top
  have ss := (stacked.drop (k := 4) (by simp)).top
  simp only [step, stacked.top, cs, flags, esp, ss]
  simp [Cpu.drop, Cpu.set]

/-- After the routine the caller drops the arguments, whatever became of them. -/
theorem CRoutine.stacked {f : Cpu → Cpu} {args words : Nat} {own : List UInt32} (routine : CRoutine f args words)
    (stacked : Stacked m base n c (own ++ ws)) (length : own.length = 1 + args) (all : ws.length ≤ words) :
    Stacked (f c).ram base n ((f c).drop args) ws := by
  have fits := stacked.fits
  rw [List.length_append, length] at fits
  have esp : c.regs .esp + 4 * .ofNat (1 + args) = base - 4 * .ofNat ws.length := by
    rw [stacked.esp, List.length_append, length, UInt32.ofNat_add]
    grind
  refine ⟨⟨by omega, fits.2⟩, ?_, fun i hi => ?_, Agree.refl _ _⟩
  · rw [Cpu.drop, Cpu.set_self, routine.esp, ← esp, UInt32.ofNat_add]
    grind
  · have word := stacked.words (1 + args + i) (by rw [List.length_append]; omega)
    have place : (own ++ ws).length - (1 + args + i) = ws.length - i := by
      rw [List.length_append]
      omega
    have same : (own ++ ws).getD (1 + args + i) 0 = ws.getD i 0 := by
      rw [List.getD_append_right _ _ _ _ (by omega), length, Nat.add_sub_cancel_left]
    rw [place, same] at word
    rw [← word]
    have inside (k : UInt32) (hk : k.toNat < 4) :
        InRange (base - 4 * .ofNat (ws.length - i) + k) (c.regs .esp + 4 * .ofNat (1 + args)) (4 * words) := by
      have distance : base - 4 * .ofNat (ws.length - i) + k - (c.regs .esp + 4 * .ofNat (1 + args)) =
          .ofNat (4 * i) + k := by
        have split : UInt32.ofNat ws.length = .ofNat (ws.length - i) + .ofNat i := by
          rw [← UInt32.ofNat_add, Nat.sub_add_cancel (Nat.le_of_lt hi)]
        rw [esp, split, UInt32.ofNat_mul]
        grind
      unfold InRange
      rw [distance, UInt32.toNat_add, UInt32.toNat_ofNat']
      omega
    exact (routine.frame c).word inside

end

/-! ## A word at an address -/

namespace Cpu

/-- `mov [a], src` -/
def store (c : Cpu) (a : UInt32) (src : Reg) : Cpu := { c with ram := store32 c.ram a (c.regs src) }

/-- `mov dst, [a]` -/
def fetch (c : Cpu) (dst : Reg) (a : UInt32) : Cpu := c.set dst (load32 c.ram a)

@[simp] theorem store_regs (c : Cpu) (a : UInt32) (src : Reg) : (c.store a src).regs = c.regs := rfl

@[simp] theorem store_eflags (c : Cpu) (a : UInt32) (src : Reg) : (c.store a src).eflags = c.eflags := rfl

@[simp] theorem drop_ram (c : Cpu) (n : Nat) : (c.drop n).ram = c.ram := rfl

@[simp] theorem popad_ram (c : Cpu) : c.popad.ram = c.ram := rfl

end Cpu

/-- A store beside the stack. -/
theorem Stacked.store {base a : UInt32} {n : Nat} {c : Cpu} {ws : List UInt32} (stacked : Stacked c.ram base n c ws)
    (src : Reg) (apart : ∀ x, InRange x a 4 → ¬ InRange x (base - 4 * .ofNat n) (4 * n)) :
    Stacked (c.store a src).ram base n (c.store a src) ws := by
  have fits := stacked.fits
  refine ⟨fits, stacked.esp, fun i hi => ?_, Agree.refl _ _⟩
  rw [← stacked.words i hi]
  apply (store32_agree c.ram a _).word
  intro k hk inside
  apply apart _ inside
  -- the word is `n - (ws.length - i)` words over the lowest one
  have place : base - 4 * .ofNat (ws.length - i) + k - (base - 4 * .ofNat n) =
      .ofNat (4 * (n - (ws.length - i))) + k := by
    have split : UInt32.ofNat n = .ofNat (ws.length - i) + .ofNat (n - (ws.length - i)) := by
      rw [← UInt32.ofNat_add, Nat.add_sub_cancel' (by omega)]
    rw [split, UInt32.ofNat_mul]
    grind
  unfold InRange
  rw [place, UInt32.toNat_add, UInt32.toNat_ofNat']
  omega

end PeachOs.X86
