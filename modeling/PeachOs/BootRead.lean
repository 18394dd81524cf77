import PeachOs.Disk

/-!
# The boot sector's read

`ata_lba_read` of `boot.asm` reads the kernel. It counts in `ecx`, that waits on the
stack while a sector is read, and tests behind the body. On the drive's ports it does
what `disk_read_sector` does.
-/

namespace PeachOs

open Memory Address Ata

/-- The registers that the routine reads again, the drive and memory. `es` and `ss` are
taken as flat, and the direction flag as clear. -/
structure BootCpu where
  eax : UInt32
  ecx : UInt32
  edi : UInt32
  esp : UInt32
  drive : Drive
  ram : Ram

namespace BootCpu

/-- From the first line to `.next_sector`. -/
def sendCommand (c : BootCpu) : BootCpu :=
  let d := c.drive.outb 0x1f6 ((c.eax >>> 24).toUInt8 ||| 0xe0)
  let d := d.outb 0x1f2 c.ecx.toUInt8
  let d := d.outb 0x1f3 c.eax.toUInt8
  let d := d.outb 0x1f4 (c.eax >>> 8).toUInt8
  let d := d.outb 0x1f5 (c.eax >>> 16).toUInt8
  { c with drive := d.outb 0x1f7 0x20 }

/-- `.next_sector` up to its `loop`. The loop `.in_progress` reads words that have the
status in `al` until bit 3 is set, and `rep insw` takes 256 words upwards. -/
def readSector (c : BootCpu) : Option BootCpu := do
  let ram := store32 c.ram (c.esp - 4) c.ecx
  let drive ← c.drive.pollReady
  let (drive, ram, edi) := readWords drive ram c.edi 256
  some { c with ecx := load32 ram (c.esp - 4) - 1, edi, drive, ram }

def nextSector (c : BootCpu) : Option BootCpu :=
  match c.readSector with
  | none => none
  | some c => if c.ecx ≠ 0 then c |>.nextSector else some c
partial_fixpoint

/-- Up to `ret`. -/
def ataLbaRead (c : BootCpu) : Option BootCpu := c.sendCommand.nextSector

/-- The word that `ecx` is pushed to. -/
def Pushed (c : BootCpu) (x : UInt32) : Prop := InRange x (c.esp - 4) 4

/-- `n` sectors fit in memory behind `edi`, off the pushed word. -/
structure Apart (c : BootCpu) (n : Nat) : Prop where
  fits : 512 * n ≤ 2 ^ 32
  off : ∀ k : UInt32, k.toNat < 4 → ¬ InRange (c.esp - 4 + k) c.edi (512 * n)

end BootCpu

/-! ## Words -/

section

variable {m m' : Ram} {off : UInt32 → Prop}

/-- The words do not depend on what memory has. -/
theorem readWords_same (d : Drive) (ptr : UInt32) (same : Agree off m m') (left : Nat) :
    (readWords d m ptr left).1 = (readWords d m' ptr left).1 ∧
      (readWords d m ptr left).2.2 = (readWords d m' ptr left).2.2 ∧
      Agree off (readWords d m ptr left).2.1 (readWords d m' ptr left).2.1 := by
  induction left generalizing d m m' ptr with
  | zero => exact ⟨rfl, rfl, same⟩
  | succ left ih =>
    simp only [readWords]
    apply ih
    exact (same.update ptr _).update (ptr + 1) _

/-- They go behind each other from `ptr` on. -/
theorem readWords_place (d : Drive) (m : Ram) (ptr : UInt32) {left : Nat} (fits : 2 * left ≤ 2 ^ 32) :
    (readWords d m ptr left).2.2 = ptr + 2 * .ofNat left ∧
      Agree (fun x => ¬ InRange x ptr (2 * left)) m (readWords d m ptr left).2.1 := by
  induction left generalizing d m ptr with
  | zero =>
    refine ⟨?_, Agree.refl _ _⟩
    simp [readWords]
  | succ left ih =>
    obtain ⟨place, rest⟩ := ih (d.insw 0x1f0).2 (store16 m ptr (d.insw 0x1f0).1) (ptr + 2) (by omega)
    simp only [readWords]
    constructor
    · have next : UInt32.ofNat (left + 1) = .ofNat left + 1 := UInt32.ofNat_add _ _
      rw [place, next]
      grind
    · refine Agree.trans (fun x away => ?_) (rest.mono fun x away inside => away ?_)
      · exact (store16_filled m ptr _).outside x fun inside => away (Nat.lt_of_lt_of_le inside (by omega))
      · have inside : InRange x (ptr + .ofNat 2) (2 * left) := inside
        exact (inRange_offset (2 * (left + 1)) inside (by omega) fits).2

end

/-! ## Sectors -/

section

variable {c c' : BootCpu} {m : Ram} {n : Nat}

/-- `c'` is where the routine is after `n` sectors, when they came as `result`. -/
structure BootCpu.After (c : BootCpu) (n : Nat) (result : Drive × Ram) (c' : BootCpu) : Prop where
  drive : c'.drive = result.1
  ram : Agree (fun x => ¬ c.Pushed x) result.2 c'.ram
  ecx : c'.ecx = c.ecx - .ofNat n
  edi : c'.edi = c.edi + 512 * .ofNat n
  esp : c'.esp = c.esp

/-- One turn of the loop is one turn of the driver's. -/
theorem BootCpu.readSector_step (apart : c.Apart (n + 1)) (same : Agree (fun x => ¬ c.Pushed x) m c.ram) :
    (readSectors c.drive m c.edi (n + 1) = none ∧ c.readSector = none) ∨
    ∃ d m₁ c₁, c.readSector = some c₁ ∧ c.After 1 (d, m₁) c₁ ∧ c₁.Apart n ∧
      readSectors c.drive m c.edi (n + 1) = readSectors d m₁ c₁.edi n := by
  cases ready : c.drive.pollReady with
  | none =>
    refine Or.inl ⟨?_, ?_⟩
    · rw [readSectors, ready]
      rfl
    · rw [readSector, ready]
      rfl
  | some d =>
    have pushed : Agree (fun x => ¬ c.Pushed x) m (store32 c.ram (c.esp - 4) c.ecx) :=
      same.trans (store32_agree c.ram (c.esp - 4) c.ecx)
    obtain ⟨drives, places, rams⟩ := readWords_same d c.edi pushed 256
    obtain ⟨place, outside⟩ :=
      readWords_place d (store32 c.ram (c.esp - 4) c.ecx) c.edi (show 2 * 256 ≤ 2 ^ 32 by decide)
    rcases driver : readWords d m c.edi 256 with ⟨d₁, m₁, ptr⟩
    rcases boot : readWords d (store32 c.ram (c.esp - 4) c.ecx) c.edi 256 with ⟨d₂, ram, edi⟩
    rw [driver, boot] at drives places rams
    rw [boot] at place outside
    obtain rfl : d₁ = d₂ := drives
    obtain rfl : ptr = edi := places
    obtain rfl : ptr = c.edi + 512 := place
    have popped : load32 ram (c.esp - 4) = c.ecx := by
      rw [outside.word fun k hk inside => apart.off k hk (Nat.lt_of_lt_of_le inside (by omega))]
      exact load32_store32_same c.ram (c.esp - 4) c.ecx
    refine Or.inr ⟨d₁, m₁, { c with ecx := c.ecx - 1, edi := c.edi + 512, drive := d₁, ram := ram }, ?_, ?_, ?_, ?_⟩
    · rw [readSector, ready, Option.bind_eq_bind, Option.bind_some, boot]
      dsimp only
      rw [popped]
    · exact ⟨rfl, rams, rfl, rfl, rfl⟩
    · have fits := apart.fits
      refine ⟨by omega, fun k hk inside => apart.off k hk ?_⟩
      have inside : InRange (c.esp - 4 + k) (c.edi + .ofNat 512) (512 * n) := inside
      exact (inRange_offset (512 * (n + 1)) inside (by omega) fits).2
    · rw [readSectors, ready, Option.bind_eq_bind, Option.bind_some, driver]

/-- The loop reads as many sectors as `ecx` says, and at least one. -/
theorem BootCpu.nextSector_refines (count : c.ecx.toNat = n + 1) (apart : c.Apart (n + 1))
    (same : Agree (fun x => ¬ c.Pushed x) m c.ram) :
    (readSectors c.drive m c.edi (n + 1) = none ∧ c.nextSector = none) ∨
    ∃ result c', readSectors c.drive m c.edi (n + 1) = some result ∧ c.nextSector = some c' ∧
      c.After (n + 1) result c' := by
  induction n generalizing c m with
  | zero =>
    obtain ⟨never, stuck⟩ | ⟨d, m₁, c₁, read, after, _, driver⟩ := readSector_step apart same
    · refine Or.inl ⟨never, ?_⟩
      rw [nextSector, stuck]
    · have done : c₁.ecx = 0 := by
        rw [after.ecx]
        apply UInt32.toNat_inj.mp
        rw [UInt32.toNat_sub, count]
        decide
      refine Or.inr ⟨(d, m₁), c₁, driver, ?_, after⟩
      rw [nextSector, read]
      exact if_neg (not_not.mpr done)
  | succ n ih =>
    obtain ⟨never, stuck⟩ | ⟨d, m₁, c₁, read, after, rest, driver⟩ := readSector_step apart same
    · refine Or.inl ⟨never, ?_⟩
      rw [nextSector, stuck]
    · have left : c₁.ecx.toNat = n + 1 := by
        rw [after.ecx, UInt32.toNat_sub, count]
        have below := c.ecx.toNat_lt
        simp only [UInt32.toNat_ofNat']
        omega
      have pushed : c₁.Pushed = c.Pushed := by
        unfold Pushed
        rw [after.esp]
      have on : c.nextSector = c₁.nextSector := by
        have more : c₁.ecx ≠ 0 := by
          intro zero
          rw [zero] at left
          exact absurd left (by simp)
        rw [nextSector, read]
        exact if_pos more
      rw [on, driver]
      obtain rfl : d = c₁.drive := after.drive.symm
      obtain never | ⟨result, c', reads, goes, after'⟩ := ih (m := m₁) left rest (by rw [pushed]; exact after.ram)
      · exact Or.inl never
      · refine Or.inr ⟨result, c', reads, goes, after'.drive, ?_, ?_, ?_, after'.esp.trans after.esp⟩
        · rw [← pushed]
          exact after'.ram
        · rw [after'.ecx, after.ecx]
          have next : UInt32.ofNat (n + 1 + 1) = .ofNat (n + 1) + 1 := UInt32.ofNat_add _ _
          have one : UInt32.ofNat 1 = 1 := rfl
          rw [next, one]
          grind
        · rw [after'.edi, after.edi]
          have next : UInt32.ofNat (n + 1 + 1) = .ofNat (n + 1) + 1 := UInt32.ofNat_add _ _
          have one : UInt32.ofNat 1 = 1 := rfl
          rw [next, one]
          grind

/-! ## The command -/

theorem shifted_byte (x : Int) : (UInt32.ofInt x).toUInt8 = .ofInt x ∧
    ((UInt32.ofInt x) >>> 8).toUInt8 = .ofInt (x >>> (8 : Nat)) ∧
    ((UInt32.ofInt x) >>> 16).toUInt8 = .ofInt (x >>> (16 : Nat)) ∧
    ((UInt32.ofInt x) >>> 24).toUInt8 = .ofInt (x >>> (24 : Nat)) := by
  have value : (UInt32.ofInt x).toNat = (x % 2 ^ 32).toNat := by
    rw [UInt32.ofInt, UInt32.toNat_ofNat']
    omega
  refine ⟨?_, ?_, ?_, ?_⟩ <;> apply UInt8.toNat_inj.mp <;>
    simp only [ofInt_byte_toNat, UInt32.toNat_toUInt8, UInt32.toNat_shiftRight, value, Int.shiftRight_eq_div_pow,
      Nat.shiftRight_eq_div_pow, UInt32.reduceToNat, Nat.reduceMod] <;> omega

/-- The ports get the bytes that the driver writes, in its order. -/
theorem BootCpu.sendCommand_drive {lba total : Int} (eax : c.eax = .ofInt lba) (ecx : c.ecx = .ofInt total) :
    c.sendCommand.drive = c.drive.readCommand lba total := by
  obtain ⟨low, mid, high, top⟩ := shifted_byte lba
  unfold sendCommand Drive.readCommand
  rw [eax, ecx, low, mid, high, top, (shifted_byte total).1]

/-- **The boot sector reads as the kernel does.** Whatever the drive does, with the
same arguments the assembly goes on for ever when `disk_read_sector` does, and else
leaves the same drive and the same memory, but for the word it pushed. -/
theorem ataLbaRead_refines (lba total : Int) (eax : c.eax = .ofInt lba) (ecx : c.ecx = .ofInt total)
    (positive : 1 ≤ total) (apart : c.Apart total.toNat) :
    (diskReadSector c.drive c.ram lba total c.edi = none ∧ c.ataLbaRead = none) ∨
    ∃ drive ram c', diskReadSector c.drive c.ram lba total c.edi = some (0, drive, ram) ∧ c.ataLbaRead = some c' ∧
      c.After total.toNat (drive, ram) c' := by
  have fits := apart.fits
  obtain ⟨n, count⟩ : ∃ n, total.toNat = n + 1 := ⟨total.toNat - 1, by omega⟩
  have asked : c.sendCommand.ecx.toNat = n + 1 := by
    show c.ecx.toNat = n + 1
    rw [ecx, UInt32.ofInt, UInt32.toNat_ofNat']
    omega
  have sent := BootCpu.sendCommand_drive eax ecx
  rw [count] at apart ⊢
  unfold diskReadSector BootCpu.ataLbaRead
  rw [← sent, count]
  obtain ⟨never, stuck⟩ | ⟨⟨drive, ram⟩, c', reads, goes, after⟩ :=
    BootCpu.nextSector_refines (c := c.sendCommand) (m := c.ram) asked ⟨apart.fits, apart.off⟩ (Agree.refl _ _)
  · refine Or.inl ⟨?_, stuck⟩
    have never : readSectors c.sendCommand.drive c.ram c.edi (n + 1) = none := never
    rw [never]
    rfl
  · refine Or.inr ⟨drive, ram, c', ?_, goes, after.drive, after.ram, after.ecx, after.edi, after.esp⟩
    have reads : readSectors c.sendCommand.drive c.ram c.edi (n + 1) = some (drive, ram) := reads
    rw [reads]
    rfl

end

/-- `load32`, with the return address on the stack. -/
def bootCpu (drive : Drive) (ram : Ram) : BootCpu := ⟨1, 100, 0x100000, 0x7bfc, drive, ram⟩

/-- The kernel's sectors are behind 0x100000 when they can be read. -/
theorem kernel_loaded : ∃ c', (bootCpu numberedDrive fun _ => 0).ataLbaRead = some c' ∧ c'.drive.phase = .idle ∧
    ∀ i < 51200, c'.ram (0x100000 + .ofNat i) = numberedMedium.byte (512 + i) := by
  have apart : (bootCpu numberedDrive fun _ => 0).Apart 100 := by
    refine ⟨by decide, fun k hk inside => ?_⟩
    rw [inRange_iff (by decide)] at inside
    have place : (bootCpu numberedDrive fun _ => 0).esp - 4 = 0x7bf8 := by decide
    have value : (0x7bf8 + k).toNat = 0x7bf8 + k.toNat := by
      rw [UInt32.toNat_add]
      simp only [UInt32.reduceToNat]
      omega
    have low : (bootCpu numberedDrive fun _ => 0).edi.toNat = 0x100000 := rfl
    rw [place, value, low] at inside
    omega
  obtain ⟨result, reads, right⟩ := diskReadSector_granted (d := numberedDrive) rfl (show (1 : Int) ≤ 100 by decide)
    hundred_sectors_granted (fun _ => 0) 0x100000
  obtain ⟨never, _⟩ | ⟨drive, ram, c', driver, goes, after⟩ :=
    ataLbaRead_refines (c := bootCpu numberedDrive fun _ => 0) 1 100 (by decide) (by decide) (by decide) apart
  · cases reads.symm.trans never
  · obtain rfl : result = (0, drive, ram) := Option.some.inj (reads.symm.trans driver)
    refine ⟨c', goes, ?_, fun i hi => ?_⟩
    · rw [after.drive]
      exact right.idle
    · have off : ¬ (bootCpu numberedDrive fun _ => 0).Pushed (0x100000 + .ofNat i) := by
        intro inside
        have start : (bootCpu numberedDrive fun _ => 0).esp - 4 = 0x7bf8 := by decide
        have value : (0x100000 + UInt32.ofNat i).toNat = 0x100000 + i := by
          rw [UInt32.toNat_add, UInt32.toNat_ofNat']
          simp only [UInt32.reduceToNat]
          omega
        unfold BootCpu.Pushed at inside
        rw [start, inRange_iff (by decide), value] at inside
        simp only [UInt32.reduceToNat] at inside
        omega
      rw [after.ram _ off]
      exact right.filled.inside i hi

end PeachOs
