import PeachOs.ClusterRead
import PeachOs.FatItems

/-!
# What a read of the disk returns and asks for

The bytes are right for every start and length. A read that ends on a sector
boundary still asks for the sector after it.
-/

namespace PeachOs

variable {device : BlockDevice} {disk : Nat → UInt8}

/-- **The bytes of a read** are those of the disk from the stream's position on,
and two reads after each other are one. -/
theorem diskSteamerRead_right (delivers : Delivers device disk) (pos total : Nat) (fits : pos + total < 2 ^ 31) :
    (diskSteamerRead device pos total).res = 0 ∧
    (∀ mem i, written (diskSteamerRead device pos total).out mem i = if i < total then disk (pos + i) else mem i) ∧
    (diskSteamerRead device pos total).pos = (pos + total : Nat) ∧
    ∀ a b : Nat, a + b = total →
      (diskSteamerRead device pos a).res = 0 ∧
      (diskSteamerRead device (diskSteamerRead device pos a).pos b).res = 0 ∧
      (diskSteamerRead device pos a).out ++ (diskSteamerRead device (diskSteamerRead device pos a).pos b).out =
        (diskSteamerRead device pos total).out ∧
      (diskSteamerRead device (diskSteamerRead device pos a).pos b).pos = (diskSteamerRead device pos total).pos := by
  obtain ⟨res, out, after⟩ := diskSteamerRead_delivers delivers pos total fits
  refine ⟨res, ?_, after, ?_⟩
  · intro mem i
    rw [out, written]
    split
    · rename_i inside
      simp [diskBytes, List.getD, inside]
    · rename_i outside
      rw [List.getD_eq_default]
      rw [diskBytes_length]
      exact Nat.le_of_not_lt outside
  · rintro a b rfl
    obtain ⟨res₁, out₁, after₁⟩ := diskSteamerRead_delivers delivers pos a (by omega)
    obtain ⟨res₂, out₂, after₂⟩ := diskSteamerRead_delivers delivers (pos + a) b (by omega)
    rw [after₁, out, after, out₁]
    refine ⟨res₁, res₂, ?_, ?_⟩
    · rw [out₂, diskBytes_add]
    · rw [after₂, Nat.add_assoc]

/-- Across the first boundary. -/
theorem crossing_read_right :
    (diskSteamerRead (deviceOf (.ofNat ·)) (500 : Nat) (24 : Nat)).res = 0 ∧
    (∀ mem i, written (diskSteamerRead (deviceOf (.ofNat ·)) (500 : Nat) (24 : Nat)).out mem i =
      if i < 24 then UInt8.ofNat (500 + i) else mem i) ∧
    (diskSteamerRead (deviceOf (.ofNat ·)) (500 : Nat) (24 : Nat)).pos = (524 : Nat) := by
  obtain ⟨res, out, after, _⟩ := diskSteamerRead_right (deviceOf_delivers (.ofNat ·)) 500 24 (by decide)
  exact ⟨res, out, after⟩

/-! ## Sectors asked for -/

/-- The sectors of the `total` bytes from `pos` on. -/
def sectorsOf (pos total : Nat) : List Int :=
  (List.range' (pos / 512) ((pos + total - 1) / 512 + 1 - pos / 512)).map Nat.cast

/-- Sectors are asked for until one cannot be read. -/
def untilFailure (device : BlockDevice) : List Int → List Int
  | [] => []
  | sector :: rest => if (device sector).1 < 0 then [sector] else sector :: untilFailure device rest

theorem untilFailure_nil {sectors : List Int} : untilFailure device sectors = [] ↔ sectors = [] := by
  cases sectors with
  | nil => exact Iff.rfl
  | cons sector rest =>
    rw [untilFailure]
    split <;> simp

/-- The first of the sectors are asked for, and no others. -/
theorem untilFailure_append (first more : List Int) (last : Int) :
    untilFailure device (first ++ last :: more) = first ++ [last] ↔
      (∀ sector ∈ first, 0 ≤ (device sector).1) ∧ ((device last).1 < 0 ∨ more = []) := by
  induction first with
  | nil =>
    rw [List.nil_append, List.nil_append, untilFailure]
    by_cases failed : (device last).1 < 0
    · simp [failed]
    · simp [failed, untilFailure_nil]
  | cons sector first ih =>
    rw [List.cons_append, List.cons_append, untilFailure, List.forall_mem_cons]
    by_cases failed : (device sector).1 < 0
    · rw [if_pos failed]
      constructor
      · intro short
        have none := (List.cons.inj short).2
        simp at none
      · rintro ⟨⟨read, _⟩, _⟩
        omega
    · rw [if_neg failed, List.cons_inj_right, ih, and_assoc]
      exact (and_iff_right (Int.not_lt.mp failed)).symm

/-- A read that ends on a boundary goes on to the next sector. -/
theorem diskSteamerRead_requests (device : BlockDevice) (pos total : Nat) (fits : pos + total < 2 ^ 31) :
    (diskSteamerRead device pos total).requests =
      untilFailure device ((List.range' (pos / 512) ((pos + total) / 512 + 1 - pos / 512)).map Nat.cast) := by
  induction total using Nat.strongRecOn generalizing pos with
  | ind total ih =>
    have sector : (pos : Int).tdiv peachosSectorSize = (pos / 512 : Nat) := rfl
    have offset : (pos : Int).tmod peachosSectorSize = (pos % 512 : Nat) := rfl
    have size : peachosSectorSize = 512 := rfl
    obtain ⟨left, count⟩ : ∃ left, (pos + total) / 512 + 1 - pos / 512 = left + 1 := by
      apply Nat.exists_eq_add_one_of_ne_zero
      omega
    rw [count, List.range'_succ, List.map_cons, untilFailure, diskSteamerRead]
    dsimp only
    rw [sector, offset, size]
    by_cases failed : (device ((pos / 512 : Nat) : Int)).1 < 0
    · rw [if_pos failed, if_pos failed]
    · rw [if_neg failed, if_neg failed]
      by_cases overflow : pos % 512 + total ≥ 512
      · have overflow' : ((pos % 512 : Nat) : Int) + (total : Int) ≥ 512 := by omega
        have next : int32 ((pos : Int) + (512 - ((pos % 512 : Nat) : Int))) = ((pos + (512 - pos % 512) : Nat) : Int) := by
          rw [int32_of_range (by omega) (by omega)]
          omega
        have rest : (total : Int) - (512 - ((pos % 512 : Nat) : Int)) = (total - (512 - pos % 512) : Nat) := by
          omega
        have later := ih (total - (512 - pos % 512)) (by omega) (pos + (512 - pos % 512)) (by omega)
        have start : (pos + (512 - pos % 512)) / 512 = pos / 512 + 1 := by omega
        have left' : (pos + (512 - pos % 512) + (total - (512 - pos % 512))) / 512 + 1 - (pos / 512 + 1) = left := by
          omega
        rw [start, left'] at later
        rw [dif_pos overflow', next, rest, later]
      · have inside : ¬ ((pos % 512 : Nat) : Int) + (total : Int) ≥ 512 := by omega
        have none : left = 0 := by omega
        rw [dif_neg inside, none]
        rfl

/-- **A read asks for exactly its sectors** when none before the last fails, and it
does not end on a sector boundary or the last cannot be read. -/
theorem diskSteamerRead_requests_iff (device : BlockDevice) (pos total : Nat) (some : 1 ≤ total)
    (fits : pos + total < 2 ^ 31) :
    (diskSteamerRead device pos total).requests = sectorsOf pos total ↔
      (∀ sector : Nat, pos / 512 ≤ sector → sector < (pos + total - 1) / 512 → 0 ≤ (device sector).1) ∧
        ((device ((pos + total - 1) / 512 : Nat)).1 < 0 ∨ (pos + total) % 512 ≠ 0) := by
  generalize before : (pos + total - 1) / 512 - pos / 512 = n
  have last : (pos + total - 1) / 512 = pos / 512 + n := by omega
  have wanted : sectorsOf pos total =
      (List.range' (pos / 512) n).map Nat.cast ++ [((pos / 512 + n : Nat) : Int)] := by
    have count : (pos + total - 1) / 512 + 1 - pos / 512 = n + 1 := by omega
    rw [sectorsOf, count, List.range'_1_concat, List.map_append]
    rfl
  have asked : ∃ more : List Int, (more = [] ↔ (pos + total) % 512 ≠ 0) ∧
      (List.range' (pos / 512) ((pos + total) / 512 + 1 - pos / 512)).map Nat.cast =
        (List.range' (pos / 512) n).map Nat.cast ++ ((pos / 512 + n : Nat) : Int) :: more := by
    by_cases boundary : (pos + total) % 512 = 0
    · have count : (pos + total) / 512 + 1 - pos / 512 = n + 1 + 1 := by omega
      refine ⟨[((pos / 512 + (n + 1) : Nat) : Int)], by simp [boundary], ?_⟩
      rw [count, List.range'_1_concat, List.range'_1_concat, List.map_append, List.map_append, List.append_assoc]
      rfl
    · have count : (pos + total) / 512 + 1 - pos / 512 = n + 1 := by omega
      refine ⟨[], by simp [boundary], ?_⟩
      rw [count, List.range'_1_concat, List.map_append]
      rfl
  obtain ⟨more, exact, sectors⟩ := asked
  rw [diskSteamerRead_requests device pos total fits, wanted, sectors, untilFailure_append, exact, last]
  apply and_congr_left'
  simp only [List.forall_mem_map, List.mem_range'_1]
  constructor
  · intro read sector lo hi
    exact read sector ⟨lo, hi⟩
  · rintro read sector ⟨lo, hi⟩
    exact read sector lo hi

/-- The first sector of a disk, and no more. -/
theorem first_sector_read :
    (diskSteamerRead (deviceOf (.ofNat ·)) (0 : Nat) (511 : Nat)).requests = sectorsOf 0 511 ↔
      (∀ sector : Nat, 0 / 512 ≤ sector → sector < (0 + 511 - 1) / 512 →
        0 ≤ (deviceOf (.ofNat ·) sector).1) ∧
      ((deviceOf (.ofNat ·) ((0 + 511 - 1) / 512 : Nat)).1 < 0 ∨ (0 + 511) % 512 ≠ 0) :=
  diskSteamerRead_requests_iff (deviceOf (.ofNat ·)) 0 511 (by decide) (by decide)

/-- A read of the first sector asks for two. -/
theorem next_sector_requested :
    ¬ (diskSteamerRead (deviceOf (.ofNat ·)) (0 : Nat) (512 : Nat)).requests = sectorsOf 0 512 := by
  rw [diskSteamerRead_requests _ 0 512 (by decide)]
  decide

end PeachOs
