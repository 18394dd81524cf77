import Mathlib.Algebra.Group.Nat.Defs

/-!
# An ATA drive behind its ports

The first drive of a channel that has no second one, read with programmed I/O and
28-bit addresses. How long a sector takes is not known, so every sector has its own
number of status reads before its words can be taken.
-/

namespace PeachOs.Ata

/-- The sectors of a drive; some cannot be read. -/
structure Medium where
  sector : Nat → Option (Nat → UInt8)
  addressed : ∀ lba, 2 ^ 28 ≤ lba → sector lba = none

/-- `more` sectors follow the one at hand. -/
inductive Phase
  | idle
  | busy (wait lba more : Nat)
  | data (content : Nat → UInt8) (word lba more : Nat)
  | failed

structure Drive where
  medium : Medium
  delays : Nat → Nat
  sectorCount : UInt8
  lbaLow : UInt8
  lbaMid : UInt8
  lbaHigh : UInt8
  device : UInt8
  phase : Phase

namespace Drive

/-- Bit 4 selects the second drive. -/
def Selected (d : Drive) : Prop := d.device &&& 0x10 = 0

instance (d : Drive) : Decidable d.Selected := by
  unfold Selected; infer_instance

def lba (d : Drive) : Nat :=
  (d.device &&& 0xf).toNat * 2 ^ 24 + d.lbaHigh.toNat * 2 ^ 16 + d.lbaMid.toNat * 2 ^ 8 + d.lbaLow.toNat

/-- Works on the sector `lba`. -/
def seek (d : Drive) (lba more : Nat) : Drive :=
  { d with phase := .busy (d.delays 0) lba more, delays := fun n => d.delays (n + 1) }

/-- A command starts a transfer of 1 to 256 sectors; a count of 0 means 256. Bit 6
of the device register says that the address is a number. Other commands and other
addresses are refused, and so is a command before the last one is done. -/
def command (d : Drive) (v : UInt8) : Drive :=
  match d.phase with
  | .idle =>
    if v = 0x20 ∧ d.device &&& 0x40 ≠ 0 then d.seek d.lba (d.sectorCount - 1).toNat else { d with phase := .failed }
  | _ => { d with phase := .failed }

def outb (d : Drive) (port : UInt16) (v : UInt8) : Drive :=
  if port = 0x1f2 then { d with sectorCount := v }
  else if port = 0x1f3 then { d with lbaLow := v }
  else if port = 0x1f4 then { d with lbaMid := v }
  else if port = 0x1f5 then { d with lbaHigh := v }
  else if port = 0x1f6 then { d with device := v }
  else if port = 0x1f7 ∧ d.Selected then d.command v
  else d

/-- A read of the status. A drive that is not there shows no bit. -/
def status (d : Drive) : UInt8 × Drive :=
  if d.Selected then
    match d.phase with
    | .idle => (0x50, d)
    | .busy (wait + 1) lba more => (0x80, { d with phase := .busy wait lba more })
    | .busy 0 lba more =>
      match d.medium.sector lba with
      | some content => (0x58, { d with phase := .data content 0 lba more })
      | none => (0x51, { d with phase := .failed })
    | .data .. => (0x58, d)
    | .failed => (0x51, d)
  else (0, d)

def insb (d : Drive) (port : UInt16) : UInt8 × Drive := if port = 0x1f7 then d.status else (0xff, d)

/-- The last word of a sector was taken. -/
def sectorTaken (d : Drive) (lba : Nat) : (more : Nat) → Drive
  | 0 => { d with phase := .idle }
  | more + 1 => d.seek (lba + 1) more

/-- Words are little-endian. -/
def wordOf (content : Nat → UInt8) (word : Nat) : UInt16 :=
  .ofNat ((content (2 * word)).toNat + 256 * (content (2 * word + 1)).toNat)

def insw (d : Drive) (port : UInt16) : UInt16 × Drive :=
  if port = 0x1f0 then
    match d.phase with
    | .data content word lba more =>
      (wordOf content word,
        if word + 1 < 256 then { d with phase := .data content (word + 1) lba more } else d.sectorTaken lba more)
    | _ => (0xffff, d)
  else (0xffff, d)

end Drive

/-! ## What the ports do not change -/

variable {d : Drive}

@[simp] theorem seek_medium (d : Drive) (lba more : Nat) : (d.seek lba more).medium = d.medium := rfl

@[simp] theorem seek_device (d : Drive) (lba more : Nat) : (d.seek lba more).device = d.device := rfl

@[simp] theorem sectorTaken_medium (d : Drive) (lba more : Nat) : (d.sectorTaken lba more).medium = d.medium := by
  cases more <;> rfl

@[simp] theorem sectorTaken_device (d : Drive) (lba more : Nat) : (d.sectorTaken lba more).device = d.device := by
  cases more <;> rfl

theorem wordOf_low (content : Nat → UInt8) (word : Nat) : (Drive.wordOf content word).toUInt8 = content (2 * word) := by
  have low := (content (2 * word)).toNat_lt
  have high := (content (2 * word + 1)).toNat_lt
  apply UInt8.toNat_inj.mp
  simp only [Drive.wordOf, UInt16.toNat_toUInt8, UInt16.toNat_ofNat']
  omega

theorem wordOf_high (content : Nat → UInt8) (word : Nat) :
    (Drive.wordOf content word >>> 8).toUInt8 = content (2 * word + 1) := by
  have low := (content (2 * word)).toNat_lt
  have high := (content (2 * word + 1)).toNat_lt
  apply UInt8.toNat_inj.mp
  simp only [Drive.wordOf, UInt16.toNat_toUInt8, UInt16.toNat_shiftRight, UInt16.toNat_ofNat', UInt16.reduceToNat,
    Nat.reduceMod, Nat.shiftRight_eq_div_pow]
  omega

end PeachOs.Ata
