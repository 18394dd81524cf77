import PeachOs.FatMount
import Mathlib.Logic.Function.Iterate

/-!
# Marks in a cluster chain

The special 16-bit values are tested one by one, most of them with three digits,
so an end-of-chain mark is followed like the number of a cluster.
-/

namespace PeachOs

/-- An end-of-chain mark, the bad-cluster mark, a reserved value, a free entry or a
read error. -/
def Special (entry : Int) : Prop := 0xFFF0 ≤ entry ∧ entry ≤ 0xFFFF ∨ entry = 0 ∨ entry < 0

/-- The values the loop gives up on. -/
def Tested (entry : Int) : Prop :=
  entry = 0xFF8 ∨ entry = 0xFFF ∨ entry = fat16BadSector ∨ entry = 0xFF0 ∨ entry = 0xFFF6 ∨ entry = 0

instance (entry : Int) : Decidable (Special entry) := by unfold Special; infer_instance

instance (entry : Int) : Decidable (Tested entry) := by unfold Tested; infer_instance

section

variable (device : BlockDevice) (p : FatPrivate)

/-- What `fat16_get_fat_entry` returns. -/
def fatEntry (cluster : Int) : Int := (fat16GetFatEntry device p (fun _ => 0) cluster).1

/-- The clusters the loop asks for, each with the entry it gets. -/
def entriesMet (cluster : Int) : (left : Nat) → List (Int × Int)
  | 0 => []
  | left + 1 =>
    (cluster, fatEntry device p cluster) ::
      if Tested (fatEntry device p cluster) then [] else entriesMet (fatEntry device p cluster) left

/-- A special entry that is met gives an error, and is no cluster that is asked for. -/
def MarksRefused (start : Int) (left : Nat) (res : Int) : Prop :=
  ∀ before c e after, entriesMet device p start left = before ++ (c, e) :: after → Special e →
    res < 0 ∧ after = []

end

section

variable {device : BlockDevice} {p : FatPrivate}

theorem getFatEntry_eq (streams : Streams) (cluster : Int) :
    (fat16GetFatEntry device p streams cluster).1 = fatEntry device p cluster :=
  getFatEntry_streams streams _ cluster

/-- One turn of the loop. -/
theorem advanceClusters_succ (streams : Streams) (cluster : Int) (left : Nat) :
    (advanceClusters device p streams cluster (left + 1)).1 =
      if Tested (fatEntry device p cluster) then -eio
      else (advanceClusters device p streams (fatEntry device p cluster) left).1 := by
  rw [← getFatEntry_eq streams, advanceClusters]
  rcases fat16GetFatEntry device p streams cluster with ⟨entry, after⟩
  dsimp only
  by_cases tested : Tested entry
  · rw [if_pos tested]
    rcases tested with h | h | h | h | h | h
    · simp [h]
    · simp [h]
    · simp [h, fat16BadSector]
    · simp [h, fat16BadSector]
    · simp [h, fat16BadSector]
    · simp [h, fat16BadSector]
  · rw [if_neg tested]
    simp only [Tested, not_or] at tested
    obtain ⟨h₁, h₂, h₃, h₄, h₅, h₆⟩ := tested
    rw [if_neg (by simp [h₁, h₂]), if_neg h₃, if_neg (by simp [h₄, h₅]), if_neg h₆]
    exact advanceClusters_streams left after streams entry

theorem entriesMet_eq_nil {cluster : Int} {left : Nat} : entriesMet device p cluster left = [] ↔ left = 0 := by
  cases left with
  | zero => simp [entriesMet]
  | succ left => simp [entriesMet]

theorem marksRefused_tested {cluster res : Int} {left : Nat} (tested : Tested (fatEntry device p cluster))
    (negative : res < 0) : MarksRefused device p cluster (left + 1) res := by
  intro before c e after met _
  rw [entriesMet, if_pos tested] at met
  refine ⟨negative, ?_⟩
  cases before with
  | nil => exact (List.cons.inj met).2.symm
  | cons _ before =>
    have none := (List.cons.inj met).2
    simp at none

theorem marksRefused_next {cluster res : Int} {left : Nat} (untested : ¬ Tested (fatEntry device p cluster)) :
    MarksRefused device p cluster (left + 1) res ↔
      (Special (fatEntry device p cluster) → res < 0 ∧ left = 0) ∧
        MarksRefused device p (fatEntry device p cluster) left res := by
  unfold MarksRefused
  rw [entriesMet, if_neg untested]
  constructor
  · intro refused
    constructor
    · intro special
      obtain ⟨negative, last⟩ := refused [] _ _ _ rfl special
      exact ⟨negative, entriesMet_eq_nil.mp last⟩
    · intro before c e after met
      exact refused (_ :: before) c e after (congrArg _ met)
  · rintro ⟨first, rest⟩ before c e after met special
    cases before with
    | nil =>
      obtain ⟨same, tail⟩ := List.cons.inj met
      obtain ⟨rfl, rfl⟩ := Prod.mk.inj same
      obtain ⟨negative, last⟩ := first special
      exact ⟨negative, tail.symm.trans (entriesMet_eq_nil.mpr last)⟩
    | cons _ before => exact rest before c e after (List.cons.inj met).2 special

/-- The loop goes wrong at a special entry it does not test, unless that is an
error in its last turn. -/
theorem marksRefused_iff_chain (left : Nat) (streams : Streams) (cluster : Int) :
    MarksRefused device p cluster left (advanceClusters device p streams cluster left).1 ↔
      ∀ i < left, Special ((fatEntry device p)^[i + 1] cluster) →
        (∃ j ≤ i, Tested ((fatEntry device p)^[j + 1] cluster)) ∨
          (fatEntry device p)^[i + 1] cluster < 0 ∧ i + 1 = left := by
  induction left generalizing cluster with
  | zero =>
    constructor
    · intro _ i hi
      exact absurd hi (Nat.not_lt_zero i)
    · intro _ before c e after met
      have none : [] = before ++ (c, e) :: after := met
      simp at none
  | succ left ih =>
    have later := ih (fatEntry device p cluster)
    rw [advanceClusters_succ]
    by_cases tested : Tested (fatEntry device p cluster)
    · rw [if_pos tested]
      refine iff_of_true (marksRefused_tested tested (by decide)) fun i _ _ => Or.inl ⟨0, Nat.zero_le i, tested⟩
    · rw [if_neg tested, marksRefused_next tested, later]
      constructor
      · rintro ⟨first, rest⟩ i hi special
        cases i with
        | zero =>
          obtain ⟨negative, last⟩ := first special
          subst last
          exact Or.inr ⟨negative, rfl⟩
        | succ i =>
          rcases rest i (Nat.lt_of_succ_lt_succ hi) special with ⟨j, hj, found⟩ | ⟨negative, last⟩
          · exact Or.inl ⟨j + 1, Nat.succ_le_succ hj, found⟩
          · exact Or.inr ⟨negative, congrArg Nat.succ last⟩
      · intro all
        constructor
        · intro special
          rcases all 0 (Nat.succ_pos left) special with ⟨j, hj, found⟩ | ⟨negative, last⟩
          · obtain rfl : j = 0 := Nat.le_zero.mp hj
            exact absurd found tested
          · obtain rfl : left = 0 := by omega
            exact ⟨negative, rfl⟩
        · intro i hi special
          rcases all (i + 1) (Nat.succ_lt_succ hi) special with ⟨j, hj, found⟩ | ⟨negative, last⟩
          · cases j with
            | zero => exact absurd found tested
            | succ j => exact Or.inl ⟨j, Nat.le_of_succ_le_succ hj, found⟩
          · exact Or.inr ⟨negative, Nat.succ.inj last⟩

/-- **A mark on the chain is refused exactly when it or one before it is among the
tested values, or it is a read error in the last turn.** -/
theorem marksRefused_iff {streams streams' : Streams} {start offset res : Int}
    (run : fat16GetClusterForOffset device p streams start offset = some (res, streams')) :
    MarksRefused device p start (offset.tdiv p.clusterBytes).toNat res ↔
      ∀ i < (offset.tdiv p.clusterBytes).toNat, Special ((fatEntry device p)^[i + 1] start) →
        (∃ j ≤ i, Tested ((fatEntry device p)^[j + 1] start)) ∨
          (fatEntry device p)^[i + 1] start < 0 ∧ i + 1 = (offset.tdiv p.clusterBytes).toNat := by
  unfold fat16GetClusterForOffset at run
  split at run
  · cases run
  · rw [← marksRefused_iff_chain _ streams]
    rw [Option.some.inj run]

end

/-! ## A mark on a volume -/

/-- The boot sector of `splitVolume`, an empty root directory, and the bytes `b` in the
entry of cluster 2. -/
def markDisk (b : UInt8) (x : Nat) : UInt8 :=
  if x = 13 ∨ x = 14 ∨ x = 16 then 1
  else if x = 17 then 16
  else if x = 22 then 14
  else if x = 38 then 0x29
  else if x = 4096 ∨ x = 4097 then b
  else 0

theorem markDisk_header (b : UInt8) : bootHeader (deviceOf (markDisk b)) = splitVolume.header := by
  rw [bootHeader_disk (deviceOf_delivers _)]
  simp [fatHeaderOf, diskBytes, markDisk, splitVolume]

theorem markDisk_accepted (b : UInt8) :
    ∃ fs, fat16Resolve kernelAllocator (deviceOf (markDisk b)) bootFs = some (0, fs) ∧
      fs.private.header = splitVolume.header := by
  have header := markDisk_header b
  have signature : (diskSteamerRead (deviceOf (markDisk b)) 0 sizeofFatH).out.getD 38 0 = fat16Signature :=
    signature_disk (deviceOf_delivers _)
  have ends : EndsAt (deviceOf (markDisk b)) (rootDirPos (bootHeader (deviceOf (markDisk b)))) 0 := by
    have start : rootDirPos splitVolume.header = (7680 : Nat) := by decide
    rw [header, start]
    exact endsAt_disk (deviceOf_delivers _) (by decide) (fun k below => absurd below (Nat.not_lt_zero k)) rfl
  have nonnull (i : Nat) (hi : i < 6) :
      kernelAllocator.pointer bootFs.heap (mountRequests (bootHeader (deviceOf (markDisk b)))) i ≠ 0 := by
    rw [header]
    exact bootFs_nonnull (by decide) (by decide) hi
  obtain ⟨fs, mount, _⟩ := fat16Resolve_accepts (deviceOf_neverFails _) bootFs nonnull signature ends
  exact ⟨fs, mount, (fat16Resolve_accepted mount).header.trans header⟩

theorem markDisk_entry (b : UInt8) : fatEntry (deviceOf (markDisk b)) splitVolume 2 = (257 * b.toNat : Nat) := by
  have entry := getFatEntry_delivers (deviceOf_delivers (markDisk b)) (p := splitVolume) (by decide) (fun _ => 0)
    (show fatEntryPos splitVolume 2 = (4096 : Nat) by decide) (by decide)
  have bytes : markDisk b 4096 = b ∧ markDisk b (4096 + 1) = b := ⟨rfl, rfl⟩
  rw [bytes.1, bytes.2] at entry
  rw [fatEntry, entry]
  congr 1
  omega

theorem markDisk_run (b : UInt8) : ∃ streams',
    fat16GetClusterForOffset (deviceOf (markDisk b)) splitVolume (fun _ => 0) 2 512 =
      some (if Tested (257 * b.toNat : Nat) then -eio else (257 * b.toNat : Nat), streams') := by
  have turn := @advanceClusters_succ (deviceOf (markDisk b)) splitVolume (fun _ => 0) 2 0
  rw [markDisk_entry] at turn
  have one : ((512 : Int).tdiv splitVolume.clusterBytes).toNat = 1 := by decide
  have last (c : Int) : (advanceClusters (deviceOf (markDisk b)) splitVolume (fun _ => 0) c 0).1 = c := rfl
  rw [last] at turn
  refine ⟨(advanceClusters (deviceOf (markDisk b)) splitVolume (fun _ => 0) 2 1).2, ?_⟩
  unfold fat16GetClusterForOffset
  rw [if_neg (by decide), one, ← turn]

/-- A free entry is refused. -/
theorem zeros_refused : ∃ res streams',
    fat16GetClusterForOffset (deviceOf (markDisk 0)) splitVolume (fun _ => 0) 2 512 = some (res, streams') ∧
      MarksRefused (deviceOf (markDisk 0)) splitVolume 2 1 res := by
  obtain ⟨streams', run⟩ := markDisk_run 0
  refine ⟨_, streams', run, (marksRefused_iff run).mpr fun i hi _ => Or.inl ⟨0, Nat.zero_le i, ?_⟩⟩
  show Tested (fatEntry (deviceOf (markDisk 0)) splitVolume 2)
  rw [markDisk_entry]
  decide

/-- **An end-of-chain mark is returned as a cluster**, of a volume that is accepted. -/
theorem endMark_followed :
    (∃ fs, fat16Resolve kernelAllocator (deviceOf (markDisk 0xFF)) bootFs = some (0, fs) ∧
      fs.private.header = splitVolume.header) ∧
    fatEntry (deviceOf (markDisk 0xFF)) splitVolume 2 = 0xFFFF ∧
    (∃ streams', fat16GetClusterForOffset (deviceOf (markDisk 0xFF)) splitVolume (fun _ => 0) 2 512 =
      some (0xFFFF, streams')) ∧
    ¬ MarksRefused (deviceOf (markDisk 0xFF)) splitVolume 2 1 0xFFFF := by
  have entry : fatEntry (deviceOf (markDisk 0xFF)) splitVolume 2 = 0xFFFF := markDisk_entry 0xFF
  obtain ⟨streams', run⟩ := markDisk_run 0xFF
  refine ⟨markDisk_accepted 0xFF, entry, ⟨streams', run⟩, fun refused => ?_⟩
  have met : entriesMet (deviceOf (markDisk 0xFF)) splitVolume 2 1 = [] ++ (2, 0xFFFF) :: [] := by
    rw [entriesMet, entry]
    rfl
  exact absurd (refused [] 2 0xFFFF [] met (by decide)).1 (by decide)

end PeachOs
