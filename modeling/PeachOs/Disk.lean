import PeachOs.Lib.Ata
import PeachOs.Lib.Segments
import PeachOs.SectorRequests

/-!
# Reading the disk

`disk.c` on a drive's ports. The driver waits for the one bit that says that a
sector is there, so it returns exactly when all its sectors come.
-/

namespace PeachOs

open Memory Address Ata

/-- `while (!(insb(0x1F7) & 0x8));`, without a result when it goes on for ever. -/
def Ata.Drive.pollReady (d : Drive) : Option Drive :=
  let polled := d.insb 0x1f7
  if polled.1 &&& 0x8 ≠ 0 then some polled.2 else polled.2 |>.pollReady
partial_fixpoint

/-- `left` words are stored from `ptr` on. -/
def readWords (d : Drive) (m : Ram) (ptr : UInt32) : (left : Nat) → Drive × Ram × UInt32
  | 0 => (d, m, ptr)
  | left + 1 =>
    let read := d.insw 0x1f0
    readWords read.2 (store16 m ptr read.1) (ptr + 2) left

def readSectors (d : Drive) (m : Ram) (ptr : UInt32) : (left : Nat) → Option (Drive × Ram)
  | 0 => some (d, m)
  | left + 1 => do
    let d ← d.pollReady
    let (d, m, ptr) := readWords d m ptr 256
    readSectors d m ptr left

/-- The writes to the ports. The conversions to `unsigned char` keep the low byte. -/
def Ata.Drive.readCommand (d : Drive) (startLba totalSectors : Int) : Drive :=
  let d := d.outb 0x1f6 (.ofInt (startLba >>> (24 : Nat)) ||| 0xe0)
  let d := d.outb 0x1f2 (.ofInt totalSectors)
  let d := d.outb 0x1f3 (.ofInt startLba)
  let d := d.outb 0x1f4 (.ofInt (startLba >>> (8 : Nat)))
  let d := d.outb 0x1f5 (.ofInt (startLba >>> (16 : Nat)))
  d.outb 0x1f7 0x20

def diskReadSector (d : Drive) (m : Ram) (startLba totalSectors : Int) (buff : UInt32) : Option (Int × Drive × Ram) := do
  let (d, m) ← readSectors (d.readCommand startLba totalSectors) m buff totalSectors.toNat
  some (0, d, m)

/-- `disk` is the address of the only disk. -/
def diskReadBlock (disk : UInt32) (d : Drive) (m : Ram) (idisk : UInt32) (lba total : Int) (buff : UInt32) :
    Option (Int × Drive × Ram) :=
  if idisk ≠ disk then some (-eio, d, m) else diskReadSector d m lba total buff

/-- Sector `lba` comes when it is asked for. -/
def Ata.Medium.Readable (medium : Medium) (lba : Nat) : Prop := (medium.sector lba).isSome

instance (medium : Medium) (lba : Nat) : Decidable (medium.Readable lba) := by
  unfold Medium.Readable; infer_instance

/-- The bytes of the drive one after the other. -/
def Ata.Medium.byte (medium : Medium) (k : Nat) : UInt8 := ((medium.sector (k / 512)).map (· (k % 512))).getD 0

/-! ## The loops -/

section

variable {d d' : Drive} {m m' : Ram} {content : Nat → UInt8} {lba more : Nat}

theorem pollReady_again {status : UInt8} (polled : d.status = (status, d')) (clear : status &&& 0x8 = 0) :
    d.pollReady = d'.pollReady := by
  have read : d.insb 0x1f7 = (status, d') := polled
  rw [Drive.pollReady, read]
  exact if_neg (not_not.mpr clear)

theorem pollReady_ready {status : UInt8} (polled : d.status = (status, d')) (set : status &&& 0x8 ≠ 0) :
    d.pollReady = some d' := by
  have read : d.insb 0x1f7 = (status, d') := polled
  rw [Drive.pollReady, read]
  exact if_pos set

/-- A status that stays as it is. -/
theorem pollReady_stuck {status : UInt8} (stays : d.status = (status, d)) (clear : status &&& 0x8 = 0) :
    d.pollReady = none := by
  suffices never : ∀ d r : Drive, d.pollReady = some r → ¬ ∃ status, d.status = (status, d) ∧ status &&& 0x8 = 0 by
    cases result : d.pollReady with
    | none => rfl
    | some r => exact absurd ⟨status, stays, clear⟩ (never d r result)
  apply Drive.pollReady.partial_correctness
  rintro poll ih d r run ⟨status, stays, clear⟩
  have polled : d.insb 0x1f7 = (status, d) := stays
  simp only [polled, clear, ne_eq, not_true_eq_false, if_false] at run
  exact ih d r run ⟨status, stays, clear⟩

theorem pollReady_failed (failed : d.phase = .failed) : d.pollReady = none := by
  by_cases selected : d.Selected
  · have error : d.status = (0x51, d) := by simp [Drive.status, selected, failed]
    exact pollReady_stuck error (by decide)
  · have absent : d.status = (0, d) := by simp [Drive.status, selected]
    exact pollReady_stuck absent (by decide)

/-- The loop waits as long as the drive takes. -/
theorem pollReady_busy (selected : d.Selected) {wait : Nat} (busy : d.phase = .busy wait lba more) :
    d.pollReady = (d.medium.sector lba).map fun content => { d with phase := .data content 0 lba more } := by
  induction wait generalizing d with
  | zero =>
    cases sector : d.medium.sector lba with
    | none =>
      have polled : d.status = (0x51, { d with phase := .failed }) := by
        simp [Drive.status, selected, busy, sector]
      exact (pollReady_again polled (by decide)).trans (pollReady_failed rfl)
    | some content =>
      have polled : d.status = (0x58, { d with phase := .data content 0 lba more }) := by
        simp [Drive.status, selected, busy, sector]
      exact pollReady_ready polled (by decide)
  | succ wait ih =>
    have polled : d.status = (0x80, { d with phase := .busy wait lba more }) := by
      simp [Drive.status, selected, busy]
    rw [pollReady_again polled (by decide)]
    exact ih (d := { d with phase := .busy wait lba more }) selected rfl

theorem pollReady_idle (idle : d.phase = .idle) : d.pollReady = none := by
  by_cases selected : d.Selected
  · have ready : d.status = (0x50, d) := by simp [Drive.status, selected, idle]
    exact pollReady_stuck ready (by decide)
  · have absent : d.status = (0, d) := by simp [Drive.status, selected]
    exact pollReady_stuck absent (by decide)

/-- The rest of a sector from word `word` on. -/
theorem readWords_sector {left : Nat} (some' : 0 < left) {word : Nat} (all : word + left = 256)
    (ready : d.phase = .data content word lba more) (m : Ram) (ptr : UInt32) :
    ∃ m', readWords d m ptr left = (d.sectorTaken lba more, m', ptr + 2 * .ofNat left) ∧
      Filled m ptr (2 * left) (fun i => content (2 * word + i)) m' := by
  induction left generalizing d word m ptr with
  | zero => exact absurd some' (Nat.lt_irrefl 0)
  | succ left ih =>
    have stored : Filled m ptr 2 (fun i => content (2 * word + i)) (store16 m ptr (Drive.wordOf content word)) := by
      apply (store16_filled m ptr (Drive.wordOf content word)).congr
      intro i hi
      obtain rfl | rfl : i = 0 ∨ i = 1 := by omega
      · exact wordOf_low content word
      · exact wordOf_high content word
    by_cases last : left = 0
    · subst last
      have read : d.insw 0x1f0 = (Drive.wordOf content word, d.sectorTaken lba more) := by
        simp [Drive.insw, ready, show ¬ word + 1 < 256 by omega]
      refine ⟨_, ?_, stored⟩
      rw [readWords, read]
      rfl
    · have read : d.insw 0x1f0 = (Drive.wordOf content word, { d with phase := .data content (word + 1) lba more }) := by
        simp [Drive.insw, ready, show word + 1 < 256 by omega]
      obtain ⟨m', run, rest⟩ := ih (Nat.pos_of_ne_zero last) (by omega)
        (d := { d with phase := .data content (word + 1) lba more }) rfl
        (store16 m ptr (Drive.wordOf content word)) (ptr + 2)
      refine ⟨m', ?_, ?_⟩
      · rw [readWords, read]
        have taken : ({ d with phase := .data content (word + 1) lba more } : Drive).sectorTaken lba more =
            d.sectorTaken lba more := by
          cases more <;> rfl
        have next : UInt32.ofNat (left + 1) = .ofNat left + 1 := UInt32.ofNat_add _ _
        rw [run, taken, next]
        congr 2
        grind
      · have both := stored.append rest (by omega)
        rw [show 2 + 2 * left = 2 * (left + 1) by omega] at both
        apply both.congr
        intro i _
        split
        · rfl
        · congr 1
          omega

theorem readable_byte {medium : Medium} (sector : medium.sector lba = some content) {i : Nat} (hi : i < 512) :
    medium.byte (512 * lba + i) = content i := by
  have place : (512 * lba + i) / 512 = lba := by omega
  have offset : (512 * lba + i) % 512 = i := by omega
  rw [Medium.byte, place, offset, sector]
  rfl

/-- A sector that comes. -/
theorem readSectors_step (selected : d.Selected) {wait : Nat} (busy : d.phase = .busy wait lba more)
    (sector : d.medium.sector lba = some content) (m : Ram) (ptr : UInt32) (left : Nat) :
    ∃ m', readSectors d m ptr (left + 1) = readSectors (d.sectorTaken lba more) m' (ptr + .ofNat 512) left ∧
      Filled m ptr 512 (fun i => d.medium.byte (512 * lba + i)) m' := by
  have ready := pollReady_busy selected busy
  rw [sector, Option.map_some] at ready
  obtain ⟨m', words, filled⟩ := readWords_sector (d := { d with phase := .data content 0 lba more })
    (by decide : 0 < 256) (Nat.zero_add 256) rfl m ptr
  have taken : ({ d with phase := .data content 0 lba more } : Drive).sectorTaken lba more = d.sectorTaken lba more := by
    cases more <;> rfl
  refine ⟨m', ?_, filled.congr fun i hi => ?_⟩
  · rw [readSectors, ready, Option.bind_eq_bind, Option.bind_some, words, taken]
    rfl
  · rw [readable_byte sector hi, Nat.mul_zero, Nat.zero_add]

/-- A sector that does not come. -/
theorem readSectors_unreadable (selected : d.Selected) {wait : Nat} (busy : d.phase = .busy wait lba more)
    (sector : d.medium.sector lba = none) (m : Ram) (ptr : UInt32) (left : Nat) :
    readSectors d m ptr (left + 1) = none := by
  have never := pollReady_busy selected busy
  rw [sector, Option.map_none] at never
  rw [readSectors, never]
  rfl

theorem readSectors_idle (idle : d.phase = .idle) (m : Ram) (ptr : UInt32) (left : Nat) :
    readSectors d m ptr (left + 1) = none := by
  rw [readSectors, pollReady_idle idle]
  rfl

/-- As many sectors are awaited as the drive was told. -/
theorem readSectors_right (selected : d.Selected) {wait : Nat} (busy : d.phase = .busy wait lba more)
    (readable : ∀ i ≤ more, d.medium.Readable (lba + i)) (small : more < 2 ^ 20) (m : Ram) (ptr : UInt32) :
    ∃ d' m', readSectors d m ptr (more + 1) = some (d', m') ∧ d'.phase = .idle ∧ d'.medium = d.medium ∧
      Filled m ptr (512 * (more + 1)) (fun i => d.medium.byte (512 * lba + i)) m' := by
  induction more generalizing d wait lba m ptr with
  | zero =>
    obtain ⟨content, sector⟩ := Option.isSome_iff_exists.mp (readable 0 (Nat.le_refl 0))
    obtain ⟨m', run, filled⟩ := readSectors_step selected busy sector m ptr 0
    exact ⟨_, m', run, rfl, rfl, filled⟩
  | succ more ih =>
    obtain ⟨content, sector⟩ := Option.isSome_iff_exists.mp (readable 0 (Nat.zero_le _))
    obtain ⟨m₁, run, first⟩ := readSectors_step selected busy sector m ptr (more + 1)
    obtain ⟨d', m', rest, idle, medium, filled⟩ := ih (d := d.seek (lba + 1) more) selected rfl
      (fun i hi => by
        have later := readable (i + 1) (Nat.succ_le_succ hi)
        rw [Nat.add_left_comm, Nat.add_comm] at later
        exact later)
      (by omega) m₁ (ptr + .ofNat 512)
    refine ⟨d', m', run.trans rest, idle, medium, ?_⟩
    have both := first.append filled (by omega)
    rw [show 512 + 512 * (more + 1) = 512 * (more + 1 + 1) by omega] at both
    apply both.congr
    intro i _
    split
    · rfl
    · have place : 512 * (lba + 1) + (i - 512) = 512 * lba + i := by omega
      rw [place]
      rfl

/-- One sector more than the drive was told, or one that cannot be read. -/
theorem readSectors_none (selected : d.Selected) {wait left : Nat} (busy : d.phase = .busy wait lba more)
    (wrong : more < left ∨ ∃ i ≤ left, ¬ d.medium.Readable (lba + i)) (m : Ram) (ptr : UInt32) :
    readSectors d m ptr (left + 1) = none := by
  induction left generalizing d wait lba more m ptr with
  | zero =>
    obtain absurd' | ⟨i, hi, unreadable⟩ := wrong
    · exact absurd absurd' (Nat.not_lt_zero _)
    · rw [Nat.le_zero.mp hi] at unreadable
      exact readSectors_unreadable selected busy (Option.not_isSome_iff_eq_none.mp unreadable) m ptr 0
  | succ left ih =>
    cases sector : d.medium.sector lba with
    | none => exact readSectors_unreadable selected busy sector m ptr (left + 1)
    | some content =>
      obtain ⟨m₁, run, -⟩ := readSectors_step selected busy sector m ptr (left + 1)
      rw [run]
      cases more with
      | zero => exact readSectors_idle rfl m₁ _ left
      | succ more =>
        apply ih (d := d.seek (lba + 1) more) selected rfl
        obtain few | ⟨i, hi, unreadable⟩ := wrong
        · exact Or.inl (Nat.lt_of_succ_lt_succ few)
        · cases i with
          | zero => exact absurd (Option.isSome_of_mem sector) unreadable
          | succ i =>
            refine Or.inr ⟨i, Nat.le_of_succ_le_succ hi, ?_⟩
            rw [Nat.add_left_comm, Nat.add_comm] at unreadable
            exact unreadable

/-! ## The command -/

/-- What the device register's fixed bits leave of a byte. -/
theorem device_bits : ∀ n : Fin 256, (UInt8.ofNat n ||| 0xe0) &&& 0x40 ≠ 0 ∧
    ((UInt8.ofNat n ||| 0xe0) &&& 0x10 = 0 ↔ n.val / 16 % 2 = 0) ∧
    ((UInt8.ofNat n ||| 0xe0) &&& 0xf).toNat = n.val % 16 := by
  decide +kernel

theorem ofInt_byte (x : Int) : UInt8.ofInt x = UInt8.ofNat (x % 256).toNat := rfl

theorem ofInt_byte_toNat (x : Int) : (UInt8.ofInt x).toNat = (x % 256).toNat := by
  rw [ofInt_byte, UInt8.toNat_ofNat']
  omega

/-- The byte of the device register for an address. -/
theorem device_byte (startLba : Int) :
    (UInt8.ofInt (startLba >>> (24 : Nat)) ||| 0xe0) &&& 0x40 ≠ 0 ∧
      ((UInt8.ofInt (startLba >>> (24 : Nat)) ||| 0xe0) &&& 0x10 = 0 ↔ startLba / 2 ^ 28 % 2 = 0) ∧
      ((UInt8.ofInt (startLba >>> (24 : Nat)) ||| 0xe0) &&& 0xf).toNat = (startLba / 2 ^ 24 % 16).toNat := by
  have shifted : startLba >>> (24 : Nat) = startLba / 2 ^ 24 := Int.shiftRight_eq_div_pow startLba 24
  obtain ⟨number, second, top⟩ := device_bits ⟨(startLba / 2 ^ 24 % 256).toNat, by omega⟩
  rw [ofInt_byte, shifted]
  refine ⟨number, second.trans ?_, top.trans ?_⟩
  · dsimp only
    omega
  · dsimp only
    omega

/-- The four bytes of an address. -/
theorem lba_bytes (x : Int) : (x / 2 ^ 24 % 16).toNat * 2 ^ 24 + (x / 2 ^ 16 % 256).toNat * 2 ^ 16 +
    (x / 2 ^ 8 % 256).toNat * 2 ^ 8 + (x % 256).toNat = (x % 2 ^ 28).toNat := by
  have second : x / 2 ^ 16 = x / 2 ^ 8 / 2 ^ 8 := by
    rw [Int.ediv_ediv_of_nonneg (by decide)]
    rfl
  have third : x / 2 ^ 24 = x / 2 ^ 8 / 2 ^ 8 / 2 ^ 8 := by
    rw [Int.ediv_ediv_of_nonneg (by decide), Int.ediv_ediv_of_nonneg (by decide)]
    rfl
  have low : x % 2 ^ 28 = x % 2 ^ 8 + 2 ^ 8 * (x / 2 ^ 8 % 2 ^ 20) := by omega
  have mid (y : Int) : y % 2 ^ 20 = y % 2 ^ 8 + 2 ^ 8 * (y / 2 ^ 8 % 2 ^ 12) := by omega
  have high (y : Int) : y % 2 ^ 12 = y % 2 ^ 8 + 2 ^ 8 * (y / 2 ^ 8 % 2 ^ 4) := by omega
  rw [second, third, low, mid, high]
  omega

theorem readCommand_first (idle : d.phase = .idle) {startLba : Int} (first : startLba / 2 ^ 28 % 2 = 0)
    (totalSectors : Int) :
    (d.readCommand startLba totalSectors).Selected ∧ (d.readCommand startLba totalSectors).medium = d.medium ∧
      (d.readCommand startLba totalSectors).phase =
        .busy (d.delays 0) (startLba % 2 ^ 28).toNat ((totalSectors - 1) % 256).toNat := by
  obtain ⟨number, second, top⟩ := device_byte startLba
  have selected := second.mpr first
  have count : (UInt8.ofInt totalSectors - 1).toNat = ((totalSectors - 1) % 256).toNat := by
    rw [UInt8.toNat_sub, ofInt_byte_toNat, UInt8.toNat_one]
    omega
  have address : ((UInt8.ofInt (startLba >>> (24 : Nat)) ||| 0xe0) &&& 0xf).toNat * 2 ^ 24 +
      (UInt8.ofInt (startLba >>> (16 : Nat))).toNat * 2 ^ 16 + (UInt8.ofInt (startLba >>> (8 : Nat))).toNat * 2 ^ 8 +
      (UInt8.ofInt startLba).toNat = (startLba % 2 ^ 28).toNat := by
    rw [top, ofInt_byte_toNat, ofInt_byte_toNat, ofInt_byte_toNat, Int.shiftRight_eq_div_pow,
      Int.shiftRight_eq_div_pow]
    exact lba_bytes startLba
  refine ⟨?_, ?_, ?_⟩
  · simp [Drive.readCommand, Drive.outb, Drive.command, Drive.Selected, idle, number, selected]
  · simp [Drive.readCommand, Drive.outb, Drive.command, Drive.Selected, idle, number, selected]
  · simpa [Drive.readCommand, Drive.outb, Drive.command, Drive.Selected, Drive.seek, Drive.lba, idle, number, selected,
      count, -UInt8.toNat_and, -UInt8.toNat_or] using address

theorem readCommand_second (idle : d.phase = .idle) {startLba : Int} (second : startLba / 2 ^ 28 % 2 ≠ 0)
    (totalSectors : Int) : (d.readCommand startLba totalSectors).phase = .idle := by
  have other := mt (device_byte startLba).2.1.mp second
  simp [Drive.readCommand, Drive.outb, Drive.Selected, idle, other]

/-! ## A read -/

/-- The sectors `disk_read_sector` asks for, on the first drive and of at most 256. -/
structure SectorsGranted (medium : Medium) (startLba totalSectors : Int) : Prop where
  first : startLba / 2 ^ 28 % 2 = 0
  few : totalSectors ≤ 256
  readable : ∀ i < totalSectors.toNat, medium.Readable ((startLba % 2 ^ 28).toNat + i)

/-- The sectors are in the buffer, and the drive waits for the next command. -/
structure ReadRight (d : Drive) (m : Ram) (startLba totalSectors : Int) (buff : UInt32) (result : Int × Drive × Ram) :
    Prop where
  ok : result.1 = 0
  idle : result.2.1.phase = .idle
  medium : result.2.1.medium = d.medium
  filled : Filled m buff (512 * totalSectors.toNat)
    (fun i => d.medium.byte (512 * (startLba % 2 ^ 28).toNat + i)) result.2.2

theorem diskReadSector_granted (idle : d.phase = .idle) {startLba totalSectors : Int} (some' : 1 ≤ totalSectors)
    (granted : SectorsGranted d.medium startLba totalSectors) (m : Ram) (buff : UInt32) :
    ∃ result, diskReadSector d m startLba totalSectors buff = some result ∧
      ReadRight d m startLba totalSectors buff result := by
  obtain ⟨selected, medium, busy⟩ := readCommand_first idle granted.first totalSectors
  obtain ⟨more, count⟩ : ∃ more, totalSectors.toNat = more + 1 := ⟨totalSectors.toNat - 1, by omega⟩
  have few := granted.few
  have told : ((totalSectors - 1) % 256).toNat = more := by omega
  rw [told] at busy
  have readable : ∀ i ≤ more, (d.readCommand startLba totalSectors).medium.Readable ((startLba % 2 ^ 28).toNat + i) := by
    intro i hi
    rw [medium]
    exact granted.readable i (by omega)
  obtain ⟨d', m', run, idle', medium', filled⟩ := readSectors_right selected busy readable (by omega) m buff
  refine ⟨(0, d', m'), ?_, rfl, idle', medium'.trans medium, ?_⟩
  · rw [diskReadSector, count, run]
    rfl
  · rw [count, ← medium]
    exact filled

theorem diskReadSector_refused (idle : d.phase = .idle) {startLba totalSectors : Int} (some' : 1 ≤ totalSectors)
    (refused : ¬ SectorsGranted d.medium startLba totalSectors) (m : Ram) (buff : UInt32) :
    diskReadSector d m startLba totalSectors buff = none := by
  obtain ⟨left, count⟩ : ∃ left, totalSectors.toNat = left + 1 := ⟨totalSectors.toNat - 1, by omega⟩
  have never : readSectors (d.readCommand startLba totalSectors) m buff totalSectors.toNat = none := by
    rw [count]
    by_cases first : startLba / 2 ^ 28 % 2 = 0
    · obtain ⟨selected, medium, busy⟩ := readCommand_first idle first totalSectors
      apply readSectors_none selected busy
      by_contra right
      push Not at right
      apply refused
      refine ⟨first, by omega, fun i hi => ?_⟩
      have readable := right.2 i (by omega)
      rw [medium] at readable
      exact readable
    · exact readSectors_idle (readCommand_second idle first totalSectors) m buff left
  rw [diskReadSector, never]
  rfl

/-- **A read returns exactly when the drive has all its sectors**, however long they
take, and then they are in the buffer and the drive is idle again. -/
theorem diskReadSector_returns (idle : d.phase = .idle) {startLba totalSectors : Int} (some' : 1 ≤ totalSectors)
    (m : Ram) (buff : UInt32) :
    ((∃ result, diskReadSector d m startLba totalSectors buff = some result) ↔
      SectorsGranted d.medium startLba totalSectors) ∧
    ∀ result, diskReadSector d m startLba totalSectors buff = some result →
      ReadRight d m startLba totalSectors buff result := by
  by_cases granted : SectorsGranted d.medium startLba totalSectors
  · obtain ⟨result, run, right⟩ := diskReadSector_granted idle some' granted m buff
    refine ⟨⟨fun _ => granted, fun _ => ⟨result, run⟩⟩, fun result' run' => ?_⟩
    obtain rfl := Option.some.inj (run.symm.trans run')
    exact right
  · have never := diskReadSector_refused idle some' granted m buff
    rw [never]
    simp [granted]

end

/-- A drive with every address, its sectors numbered. -/
def numberedMedium : Medium where
  sector lba := if lba < 2 ^ 28 then some fun _ => .ofNat lba else none
  addressed _ far := if_neg (Nat.not_lt.mpr far)

def numberedDrive : Drive := ⟨numberedMedium, fun n => n % 7, 0, 0, 0, 0, 0, .idle⟩

/-- The boot loader's request. -/
theorem hundred_sectors_granted : SectorsGranted numberedMedium 1 100 := by
  refine ⟨by decide, by decide, fun i hi => ?_⟩
  have place : ((1 : Int) % 2 ^ 28).toNat = 1 := rfl
  have sectors : (100 : Int).toNat = 100 := rfl
  have inside : 1 + i < 2 ^ 28 := by omega
  rw [place]
  exact Option.isSome_of_mem (if_pos inside)

theorem hundred_sectors_return :
    ∃ result, diskReadSector numberedDrive (fun _ => 0) 1 100 0x100000 = some result ∧
      ReadRight numberedDrive (fun _ => 0) 1 100 0x100000 result := by
  obtain ⟨returns, right⟩ := diskReadSector_returns (d := numberedDrive) rfl (show (1 : Int) ≤ 100 by decide)
    (fun _ => 0) 0x100000
  obtain ⟨result, run⟩ := returns.mpr hundred_sectors_granted
  exact ⟨result, run, right result run⟩

end PeachOs
