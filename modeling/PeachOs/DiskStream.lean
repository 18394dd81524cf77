import PeachOs.Disk

/-!
# The streamer on the drive

The streamer asks for sectors one at a time, so over the drive's ports it does what
it does over the blocks of a device, as long as every sector it asks for comes.
-/

namespace PeachOs

open Memory Address Ata

/-- The blocks of a drive. -/
def driveDevice (medium : Medium) : BlockDevice := fun sector =>
  (0, fun i => medium.byte (512 * sector.toNat + i.toNat))

theorem driveDevice_delivers (medium : Medium) : Delivers (driveDevice medium) medium.byte :=
  fun _ => ⟨rfl, fun _ _ => rfl⟩

/-- `diskSteamerRead` with the driver. Each call has a buffer of its own, in the
memory as it is then. -/
def diskSteamerReadPorts (disk : UInt32) (frames : Nat → Ram × UInt32) (d : Drive) (pos total : Int) :
    Option (StreamRead × Drive) := do
  let sector := pos.tdiv peachosSectorSize
  let offset := pos.tmod peachosSectorSize
  let (res, d, m) ← diskReadBlock disk d (frames 0).1 disk sector 1 (frames 0).2
  let buff (i : Int) := m ((frames 0).2 + .ofInt i)
  if res < 0 then some (⟨res, [], [sector], pos⟩, d)
  else if _overflow : offset + total ≥ peachosSectorSize then
    let totalToRead := peachosSectorSize - offset
    let (rest, d) ← diskSteamerReadPorts disk (fun n => frames (n + 1)) d (int32 (pos + totalToRead))
      (total - totalToRead)
    some (⟨rest.res, (List.range totalToRead.toNat).map (fun (i : Nat) => buff (i + offset)) ++ rest.out,
      sector :: rest.requests, rest.pos⟩, d)
  else some (⟨res, (List.range total.toNat).map (fun (i : Nat) => buff (i + offset)), [sector], int32 (pos + total)⟩, d)
termination_by total.toNat
decreasing_by
  have := Int.tmod_lt_of_pos pos (show (0 : Int) < peachosSectorSize by decide)
  omega

/-- Reads one after the other, each with its buffers, its position and its length. -/
def steamerRun (disk : UInt32) (d : Drive) :
    List ((Nat → Ram × UInt32) × Nat × Nat) → Option (List StreamRead × Drive)
  | [] => some ([], d)
  | (frames, pos, total) :: reads => do
    let (read, d) ← diskSteamerReadPorts disk frames d pos total
    let (rest, d) ← steamerRun disk d reads
    some (read :: rest, d)

/-- Every sector a read asks for; the last may be one behind the bytes. -/
def Asked (medium : Medium) (pos total : Nat) : Prop :=
  ∀ sector, pos / 512 ≤ sector → sector ≤ (pos + total) / 512 → medium.Readable sector

section

variable {d : Drive} {disk : UInt32} {frames : Nat → Ram × UInt32}

/-- One block, as the device has it. -/
theorem diskReadBlock_block (disk : UInt32) (idle : d.phase = .idle) {sector : Nat} (small : sector < 2 ^ 28)
    (readable : d.medium.Readable sector) (m : Ram) (buff : UInt32) :
    ∃ d' m', diskReadBlock disk d m disk sector 1 buff = some (0, d', m') ∧ d'.phase = .idle ∧ d'.medium = d.medium ∧
      ∀ i < 512, m' (buff + .ofNat i) = d.medium.byte (512 * sector + i) := by
  have place : ((sector : Int) % 2 ^ 28).toNat = sector := by omega
  have granted : SectorsGranted d.medium sector 1 := by
    refine ⟨by omega, by decide, fun i hi => ?_⟩
    obtain rfl : i = 0 := by
      have one : (1 : Int).toNat = 1 := rfl
      omega
    rw [place]
    exact readable
  obtain ⟨⟨res, d', m'⟩, run, right⟩ := diskReadSector_granted idle (by decide) granted m buff
  obtain rfl : res = 0 := right.ok
  refine ⟨d', m', ?_, right.idle, right.medium, fun i hi => ?_⟩
  · rw [diskReadBlock, if_neg (not_not.mpr rfl)]
    exact run
  · have byte := right.filled.inside i hi
    rw [place] at byte
    exact byte

theorem diskReadBlock_never (idle : d.phase = .idle) {sector : Nat} (small : sector < 2 ^ 28)
    (unreadable : ¬ d.medium.Readable sector) (m : Ram) (buff : UInt32) :
    diskReadBlock disk d m disk sector 1 buff = none := by
  have place : ((sector : Int) % 2 ^ 28).toNat = sector := by omega
  rw [diskReadBlock, if_neg (not_not.mpr rfl)]
  apply diskReadSector_refused idle (by decide)
  intro granted
  apply unreadable
  have first := granted.readable 0 (by decide)
  rw [place] at first
  exact first

/-- The bytes taken from one block. -/
theorem block_bytes {m : Ram} {buff : UInt32} {sector offset n : Nat} (inside : offset + n ≤ 512)
    (bytes : ∀ i < 512, m (buff + .ofNat i) = d.medium.byte (512 * sector + i)) :
    (List.range n).map (fun (i : Nat) => m (buff + .ofInt ((i : Int) + (offset : Int)))) =
      (List.range n).map fun (i : Nat) => ((driveDevice d.medium) (sector : Int)).2 ((i : Int) + (offset : Int)) := by
  apply List.map_congr_left
  intro i hi
  have small := List.mem_range.mp hi
  have place : (i : Int) + (offset : Int) = ((i + offset : Nat) : Int) := (Int.natCast_add i offset).symm
  rw [place, ofInt_natCast, bytes (i + offset) (by omega)]
  rfl

/-! ## One read -/

/-- A read that goes on in the next sector. -/
theorem steamer_split {pos total : Nat} (fits : pos + total < 2 ^ 31) (overflow : pos % 512 + total ≥ 512) :
    ((pos % 512 : Nat) : Int) + (total : Int) ≥ peachosSectorSize ∧
      peachosSectorSize - ((pos % 512 : Nat) : Int) = (512 - pos % 512 : Nat) ∧
      int32 ((pos : Int) + (512 - pos % 512 : Nat)) = ((pos + (512 - pos % 512) : Nat) : Int) ∧
      (total : Int) - ((512 - pos % 512 : Nat) : Int) = (total - (512 - pos % 512) : Nat) := by
  unfold peachosSectorSize
  refine ⟨by omega, by omega, ?_, by omega⟩
  rw [int32_of_range (by omega) (by omega)]
  omega

/-- A read whose sectors come is the device's. -/
theorem diskSteamerReadPorts_asked (disk : UInt32) (frames : Nat → Ram × UInt32) (idle : d.phase = .idle) (pos total : Nat) (fits : pos + total < 2 ^ 31)
    (asked : Asked d.medium pos total) :
    ∃ d', diskSteamerReadPorts disk frames d pos total = some (diskSteamerRead (driveDevice d.medium) pos total, d') ∧
      d'.phase = .idle ∧ d'.medium = d.medium := by
  induction total using Nat.strongRecOn generalizing pos d frames with
  | ind total ih =>
    have sector : (pos : Int).tdiv peachosSectorSize = (pos / 512 : Nat) := rfl
    have offset : (pos : Int).tmod peachosSectorSize = (pos % 512 : Nat) := rfl
    have readable := asked (pos / 512) (Nat.le_refl _) (Nat.div_le_div_right (Nat.le_add_right pos total))
    obtain ⟨d₁, m₁, block, idle₁, medium₁, bytes⟩ := diskReadBlock_block disk idle (by omega) readable
      (frames 0).1 (frames 0).2
    rw [diskSteamerReadPorts, diskSteamerRead]
    dsimp only
    rw [sector, offset, block, Option.bind_eq_bind, Option.bind_some]
    dsimp only
    rw [if_neg (Int.lt_irrefl 0), if_neg (show ¬ ((driveDevice d.medium) _).1 < 0 from Int.lt_irrefl 0)]
    by_cases overflow : pos % 512 + total ≥ 512
    · obtain ⟨overflow', head, next, left⟩ := steamer_split fits overflow
      rw [dif_pos overflow', dif_pos overflow']
      rw [head, next, left, Int.toNat_natCast]
      obtain ⟨d₂, rest, idle₂, medium₂⟩ := @ih (total - (512 - pos % 512)) (by omega) d₁ (fun n => frames (n + 1))
        idle₁ (pos + (512 - pos % 512)) (by omega) (fun later lo hi => by
          rw [medium₁]
          exact asked later (by omega) (by omega))
      refine ⟨d₂, ?_, idle₂, medium₂.trans medium₁⟩
      rw [rest, Option.bind_eq_bind, Option.bind_some, medium₁]
      dsimp only
      rw [block_bytes (by omega) bytes]
    · have inside : ¬ ((pos % 512 : Nat) : Int) + (total : Int) ≥ peachosSectorSize := by
        unfold peachosSectorSize
        omega
      rw [dif_neg inside, dif_neg inside, Int.toNat_natCast, block_bytes (by omega) bytes]
      exact ⟨d₁, rfl, idle₁, medium₁⟩

/-- A read waits for ever for a sector that does not come, also for the one behind
its bytes. -/
theorem diskSteamerReadPorts_never (idle : d.phase = .idle) (pos total : Nat) (fits : pos + total < 2 ^ 31)
    (missing : ¬ Asked d.medium pos total) : diskSteamerReadPorts disk frames d pos total = none := by
  induction total using Nat.strongRecOn generalizing pos d frames with
  | ind total ih =>
    have sector : (pos : Int).tdiv peachosSectorSize = (pos / 512 : Nat) := rfl
    have offset : (pos : Int).tmod peachosSectorSize = (pos % 512 : Nat) := rfl
    rw [diskSteamerReadPorts]
    dsimp only
    rw [sector, offset]
    by_cases readable : d.medium.Readable (pos / 512)
    · obtain ⟨d₁, m₁, block, idle₁, medium₁, -⟩ := diskReadBlock_block disk idle (by omega) readable
        (frames 0).1 (frames 0).2
      rw [block, Option.bind_eq_bind, Option.bind_some]
      dsimp only
      rw [if_neg (Int.lt_irrefl 0)]
      have overflow : pos % 512 + total ≥ 512 := by
        by_contra short
        apply missing
        intro later lo hi
        obtain rfl : later = pos / 512 := by omega
        exact readable
      obtain ⟨overflow', head, next, left⟩ := steamer_split fits overflow
      rw [dif_pos overflow']
      rw [head, next, left, @ih (total - (512 - pos % 512)) (by omega) d₁ (fun n => frames (n + 1)) idle₁
        (pos + (512 - pos % 512)) (by omega)]
      · rfl
      · intro asked
        apply missing
        intro later lo hi
        by_cases here : later = pos / 512
        · rw [here]
          exact readable
        · rw [← medium₁]
          exact asked later (by omega) (by omega)
    · rw [diskReadBlock_never idle (by omega) readable]
      rfl

/-! ## Reads one after the other -/

/-- **Over any sequence of reads the drive is the device of its bytes.** The reads
return exactly when every sector comes that one of them asks for, in whatever time
it takes, and each delivers the bytes from its position on. -/
theorem steamerRun_refines (idle : d.phase = .idle) {reads : List ((Nat → Ram × UInt32) × Nat × Nat)}
    (fits : ∀ read ∈ reads, read.2.1 + read.2.2 < 2 ^ 31) :
    ((∃ result, steamerRun disk d reads = some result) ↔ ∀ read ∈ reads, Asked d.medium read.2.1 read.2.2) ∧
    ∀ results d', steamerRun disk d reads = some (results, d') →
      results = reads.map (fun read => diskSteamerRead (driveDevice d.medium) read.2.1 read.2.2) ∧
      results.map StreamRead.out = reads.map (fun read => diskBytes d.medium.byte read.2.1 read.2.2) ∧
      d'.phase = .idle ∧ d'.medium = d.medium := by
  induction reads generalizing d with
  | nil =>
    refine ⟨⟨fun _ read mem => absurd mem List.not_mem_nil, fun _ => ⟨_, rfl⟩⟩, fun results d' run => ?_⟩
    cases run
    exact ⟨rfl, rfl, idle, rfl⟩
  | cons read reads ih =>
    obtain ⟨frames, pos, total⟩ := read
    obtain ⟨first, later⟩ := List.forall_mem_cons.mp fits
    by_cases asked : Asked d.medium pos total
    · obtain ⟨d₁, run₁, idle₁, medium₁⟩ := diskSteamerReadPorts_asked disk frames idle pos total
        first asked
      have next : steamerRun disk d ((frames, pos, total) :: reads) =
          (steamerRun disk d₁ reads).map fun rest =>
            (diskSteamerRead (driveDevice d.medium) pos total :: rest.1, rest.2) := by
        rw [steamerRun, run₁, Option.bind_eq_bind, Option.bind_some]
        dsimp only
        cases steamerRun disk d₁ reads <;> rfl
      obtain ⟨returns, right⟩ := ih idle₁ later
      rw [medium₁] at returns right
      rw [next]
      refine ⟨?_, fun results d' run => ?_⟩
      · rw [List.forall_mem_cons, ← returns, ← Option.isSome_iff_exists, ← Option.isSome_iff_exists, Option.isSome_map]
        exact (and_iff_right asked).symm
      · obtain ⟨⟨rest, d₂⟩, run₂, shape⟩ := Option.map_eq_some_iff.mp run
        cases shape
        obtain ⟨reads', bytes, idle₂, medium₂⟩ := right rest _ run₂
        refine ⟨by rw [List.map_cons, reads'], ?_, idle₂, medium₂⟩
        rw [List.map_cons, List.map_cons, bytes,
          (diskSteamerRead_delivers (driveDevice_delivers d.medium) pos total first).2.1]
    · have never : steamerRun disk d ((frames, pos, total) :: reads) = none := by
        rw [steamerRun, diskSteamerReadPorts_never idle pos total first asked]
        rfl
      rw [never]
      simp [asked]

end

/-- The boot sector's end and the sector after it. -/
theorem signature_read : ∃ results d',
    steamerRun 0x10b000 numberedDrive [(fun _ => (fun _ => 0, 0x1fff00), 510, 4)] = some (results, d') ∧
      results.map StreamRead.out = [diskBytes numberedMedium.byte 510 4] := by
  obtain ⟨returns, right⟩ := @steamerRun_refines numberedDrive 0x10b000 rfl
    [(fun _ => (fun _ => 0, 0x1fff00), 510, 4)] (by
      intro read mem
      rw [List.mem_singleton.mp mem]
      decide)
  obtain ⟨⟨results, d'⟩, run⟩ := returns.mpr (by
    intro read mem sector lo hi
    rw [List.mem_singleton.mp mem] at hi
    have small : sector < 2 ^ 28 := by
      dsimp only at hi
      omega
    exact Option.isSome_of_mem (if_pos small))
  exact ⟨results, d', run, (right results d' run).2.1⟩

end PeachOs
