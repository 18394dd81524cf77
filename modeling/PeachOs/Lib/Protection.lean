import PeachOs.Lib.X86

/-!
# Interrupt gates of 32-bit x86

Where the processor goes when an interrupt leaves an outer ring. The gate of the
vector names a code segment and an address in it, and the task state segment has
the stack of that segment's ring.
-/

namespace PeachOs.X86

open Memory

/-- A table or a segment. Its limit is its last offset. -/
structure Region where
  base : UInt32
  limit : Nat

structure Tables where
  gdtr : Region
  idtr : Region
  tr : Region

/-- The bytes of memory from `base` on. -/
def bytesAt (m : Ram) (base : UInt32) (i : Nat) : UInt8 := m (base + .ofNat i)

def half (mem : Nat → UInt8) (i : Nat) : UInt16 := .ofNat ((mem i).toNat + 2 ^ 8 * (mem (i + 1)).toNat)

def word (mem : Nat → UInt8) (i : Nat) : UInt32 :=
  .ofNat ((mem i).toNat + 2 ^ 8 * (mem (i + 1)).toNat + 2 ^ 16 * (mem (i + 2)).toNat + 2 ^ 24 * (mem (i + 3)).toNat)

/-- What `lgdt` and `lidt` take from memory. -/
def regionAt (m : Ram) (a : UInt32) : Region := ⟨word (bytesAt m a) 2, (half (bytesAt m a) 0).toNat⟩

/-! ## Access bytes -/

def isPresent (access : UInt8) : Prop := access &&& 0x80 ≠ 0

def ring (access : UInt8) : Nat := (access >>> 5 &&& 3).toNat

/-- Code that is entered in its own ring. -/
def isCode (access : UInt8) : Prop := access &&& 0x1c = 0x18

def isWritableData (access : UInt8) : Prop := access &&& 0x1a = 0x12

/-- An available task state segment. -/
def isFreeTask (access : UInt8) : Prop := access &&& 0x1f = 0x9

def isInterruptGate (access : UInt8) : Prop := access &&& 0x1f = 0xe

instance (access : UInt8) : Decidable (isPresent access) := by unfold isPresent; infer_instance

instance (access : UInt8) : Decidable (isCode access) := by unfold isCode; infer_instance

instance (access : UInt8) : Decidable (isWritableData access) := by unfold isWritableData; infer_instance

instance (access : UInt8) : Decidable (isFreeTask access) := by unfold isFreeTask; infer_instance

instance (access : UInt8) : Decidable (isInterruptGate access) := by unfold isInterruptGate; infer_instance

/-! ## Descriptors -/

/-- Where the descriptor is that a selector names in the global table. The first names none. -/
def Region.descriptor (gdtr : Region) (selector : UInt16) : Option Nat :=
  let place := selector.toNat / 8 * 8
  if place ≠ 0 ∧ selector.toNat / 4 % 2 = 0 ∧ place + 7 ≤ gdtr.limit then some place else none

structure Gate where
  selector : UInt16
  offset : UInt32
  ring : Nat

/-- A gate of another kind has no result here. -/
def gateOf (m : Ram) (idtr : Region) (vector : UInt8) : Option Gate :=
  let place := 8 * vector.toNat
  let mem := bytesAt m idtr.base
  if place + 7 ≤ idtr.limit ∧ isPresent (mem (place + 5)) ∧ isInterruptGate (mem (place + 5)) then
    some ⟨half mem (place + 2), .ofNat ((half mem place).toNat + 2 ^ 16 * (half mem (place + 6)).toNat),
      ring (mem (place + 5))⟩
  else none

/-- The ring of a code segment, when it is an inner one of `cpl`. -/
def innerRing (m : Ram) (gdtr : Region) (selector : UInt16) (cpl : Nat) : Option Nat := do
  let place ← gdtr.descriptor selector
  let access := bytesAt m gdtr.base (place + 5)
  if isPresent access ∧ isCode access ∧ ring access < cpl then some (ring access) else none

/-- The stack pointer and its segment for a ring. -/
def innerStack (m : Ram) (t : Tables) (inner : Nat) : Option (UInt16 × UInt32) :=
  if 8 * inner + 9 ≤ t.tr.limit then do
    let ss := half (bytesAt m t.tr.base) (8 * inner + 8)
    let place ← t.gdtr.descriptor ss
    let access := bytesAt m t.gdtr.base (place + 5)
    if ss.toNat % 4 = inner ∧ isPresent access ∧ isWritableData access ∧ ring access = inner then
      some (ss, word (bytesAt m t.tr.base) (8 * inner + 4))
    else none
  else none

/-- An interrupt in an outer ring. The instruction `int` may only use a gate of its
own ring or an outer one. No result stands for a fault of the gate, a selector or the
task's segment; segment limits and the room on the stack are not checked. -/
def Cpu.deliver (c : Cpu) (m : Ram) (t : Tables) (vector : UInt8) (software : Bool) (errorCode : Option UInt32) :
    Option Cpu := do
  let cpl := c.cs.toNat % 4
  let gate ← gateOf m t.idtr vector
  if software ∧ gate.ring < cpl then none
  else
    let inner ← innerRing m t.gdtr gate.selector cpl
    let (ss, esp) ← innerStack m t inner
    some (c.interrupt (.ofNat (gate.selector.toNat / 4 * 4 + inner)) ss gate.offset esp errorCode)

end PeachOs.X86
