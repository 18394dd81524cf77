import PeachOs.Lib.Int32

/-!
# Disk streamer

`streamer.c` over the blocks `disk_read_block` delivers. A read asks for one
sector after the other, each for the bytes up to its end.
-/

namespace PeachOs

/-- What `disk_read_block` returns for a sector, and what is in `buff` then. An
index outside the 512 bytes reads the stack next to the buffer. -/
abbrev BlockDevice := Int → Int × (Int → UInt8)

def peachosSectorSize : Int := 512

/-- A read: its result, the bytes written from `out` on, the sectors asked for
and the stream's position after it. -/
structure StreamRead where
  res : Int
  out : List UInt8
  requests : List Int
  pos : Int

/-- The sum `offset + total_to_read` is an `int` and taken not to overflow. -/
def diskSteamerRead (device : BlockDevice) (pos total : Int) : StreamRead :=
  let sector := pos.tdiv peachosSectorSize
  let offset := pos.tmod peachosSectorSize
  let res := (device sector).1
  let buff := (device sector).2
  if res < 0 then ⟨res, [], [sector], pos⟩
  else if _overflow : offset + total ≥ peachosSectorSize then
    let totalToRead := peachosSectorSize - offset
    let rest := diskSteamerRead device (int32 (pos + totalToRead)) (total - totalToRead)
    ⟨rest.res, (List.range totalToRead.toNat).map (fun (i : Nat) => buff (i + offset)) ++ rest.out,
      sector :: rest.requests, rest.pos⟩
  else ⟨res, (List.range total.toNat).map (fun (i : Nat) => buff (i + offset)), [sector], int32 (pos + total)⟩
termination_by total.toNat
decreasing_by
  have := Int.tmod_lt_of_pos pos (show (0 : Int) < peachosSectorSize by decide)
  omega

theorem diskSteamerRead_empty (device : BlockDevice) (pos : Int) {total : Int} (none : total ≤ 0) :
    (diskSteamerRead device pos total).out = [] := by
  have offset := Int.tmod_lt_of_pos pos (show (0 : Int) < peachosSectorSize by decide)
  rw [diskSteamerRead]
  dsimp only
  split
  · rfl
  · rw [dif_neg (by omega), Int.toNat_eq_zero.mpr none]
    rfl

/-- Sector reads succeed and deliver the bytes of `disk`. -/
def Delivers (device : BlockDevice) (disk : Nat → UInt8) : Prop :=
  ∀ sector : Nat, (device sector).1 = 0 ∧
    ∀ i : Nat, i < 512 → (device sector).2 i = disk (512 * sector + i)

/-- The `n` bytes of the disk from `pos` on. -/
def diskBytes (disk : Nat → UInt8) (pos n : Nat) : List UInt8 := (List.range n).map fun i => disk (pos + i)

theorem diskBytes_add (disk : Nat → UInt8) (pos a b : Nat) :
    diskBytes disk pos (a + b) = diskBytes disk pos a ++ diskBytes disk (pos + a) b := by
  unfold diskBytes
  rw [List.range_add, List.map_append, List.map_map]
  congr 1
  apply List.map_congr_left
  intro i _
  simp only [Function.comp_apply, Nat.add_assoc]

theorem diskBytes_length (disk : Nat → UInt8) (pos n : Nat) : (diskBytes disk pos n).length = n := by
  simp [diskBytes]

theorem diskBytes_getD (disk : Nat → UInt8) (pos : Nat) {n j : Nat} (hj : j < n) :
    (diskBytes disk pos n).getD j 0 = disk (pos + j) := by
  simp [diskBytes, List.getD, hj]

/-- A read delivers the disk's bytes from the stream's position on. -/
theorem diskSteamerRead_delivers {device : BlockDevice} {disk : Nat → UInt8} (delivers : Delivers device disk)
    (pos total : Nat) (fits : pos + total < 2 ^ 31) :
    (diskSteamerRead device pos total).res = 0 ∧
      (diskSteamerRead device pos total).out = diskBytes disk pos total ∧
      (diskSteamerRead device pos total).pos = (pos + total : Nat) := by
  induction total using Nat.strongRecOn generalizing pos with
  | ind total ih =>
    have sector : (pos : Int).tdiv peachosSectorSize = (pos / 512 : Nat) := rfl
    have offset : (pos : Int).tmod peachosSectorSize = (pos % 512 : Nat) := rfl
    obtain ⟨ok, bytes⟩ := delivers (pos / 512)
    have chunk (n : Nat) (inside : pos % 512 + n ≤ 512) :
        (List.range n).map (fun (i : Nat) => (device ((pos / 512 : Nat) : Int)).2 ((i : Int) + (pos % 512 : Nat))) =
          diskBytes disk pos n := by
      apply List.map_congr_left
      intro i hi
      have small := List.mem_range.mp hi
      have place := bytes (i + pos % 512) (by omega)
      rw [Int.natCast_add] at place
      rw [place]
      congr 1
      omega
    rw [diskSteamerRead]
    dsimp only
    rw [sector, offset, ok, if_neg (by decide)]
    by_cases overflow : pos % 512 + total ≥ 512
    · have overflow' : ((pos % 512 : Nat) : Int) + (total : Int) ≥ peachosSectorSize := by
        unfold peachosSectorSize
        omega
      rw [dif_pos overflow']
      have head : peachosSectorSize - ((pos % 512 : Nat) : Int) = (512 - pos % 512 : Nat) := by
        unfold peachosSectorSize
        omega
      have next : int32 ((pos : Int) + (512 - pos % 512 : Nat)) = ((pos + (512 - pos % 512) : Nat) : Int) := by
        rw [int32_of_range (by omega) (by omega)]
        omega
      have left : (total : Int) - ((512 - pos % 512 : Nat) : Int) = (total - (512 - pos % 512) : Nat) := by
        omega
      rw [head, next, left, Int.toNat_natCast]
      obtain ⟨res, out, after⟩ := ih (total - (512 - pos % 512)) (by omega) (pos + (512 - pos % 512)) (by omega)
      have split := diskBytes_add disk pos (512 - pos % 512) (total - (512 - pos % 512))
      rw [Nat.add_sub_cancel' (by omega)] at split
      refine ⟨res, ?_, ?_⟩
      · rw [out, chunk _ (by omega), ← split]
      · rw [after]
        omega
    · have inside : ¬ ((pos % 512 : Nat) : Int) + (total : Int) ≥ peachosSectorSize := by
        unfold peachosSectorSize
        omega
      rw [dif_neg inside, Int.toNat_natCast]
      refine ⟨rfl, chunk total (by omega), ?_⟩
      dsimp only
      rw [int32_of_range (by omega) (by omega)]
      omega

end PeachOs
