import PeachOs.DirectorySearch

/-!
# Comparing names

`istrncmp` compares unsigned bytes, `toLower` takes a signed `char`.
The bytes above 127 are negative there and stay as they are.
-/

namespace PeachOs

/-! ## The loop with the bytes it reads -/

/-- `toLower` with the sign of its argument. -/
def toLowerChar (s : Int8) : Int8 := if 65 ≤ s ∧ s ≤ 90 then s + 32 else s

/-- The loop of `istrncmp` and the places it reads, the same in both strings. -/
def istrncmpReads (s1 s2 : Nat → UInt8) : (n i : Nat) → Int × List Nat
  | 0, _ => (0, [])
  | n + 1, i =>
    if s1 i ≠ s2 i ∧ toLowerChar (s1 i).toInt8 ≠ toLowerChar (s2 i).toInt8 then
      ((s1 i).toNat - (s2 i).toNat, [i])
    else if s1 i = 0 then (0, [i])
    else
      let (res, reads) := istrncmpReads s1 s2 n (i + 1)
      (res, i :: reads)

theorem toLower_zero : toLower 0 = 0 := rfl

theorem toLower_eq_zero {c : UInt8} : toLower c = 0 ↔ c = 0 := toLower_eq_iff (Or.inl (by decide))

theorem toLowerChar_toInt8 (c : UInt8) : toLowerChar c.toInt8 = (toLower c).toInt8 := by
  have all : ∀ n : Fin 256, toLowerChar (UInt8.ofFin n).toInt8 = (toLower (UInt8.ofFin n)).toInt8 := by
    decide +kernel
  exact all c.toFin

theorem toLowerChar_inj {c d : UInt8} : toLowerChar c.toInt8 = toLowerChar d.toInt8 ↔ toLower c = toLower d := by
  rw [toLowerChar_toInt8, toLowerChar_toInt8]
  constructor
  · intro same
    simpa using congrArg Int8.toUInt8 same
  · intro same
    rw [same]

theorem istrncmpReads_res (s1 s2 : Nat → UInt8) (n i : Nat) :
    (istrncmpReads s1 s2 n i).1 = istrncmpFrom s1 s2 n i := by
  induction n generalizing i with
  | zero => rfl
  | succ n ih =>
    rw [istrncmpReads, istrncmpFrom]
    simp only [ne_eq, toLowerChar_inj]
    split
    · rfl
    · split
      · rfl
      · exact ih (i + 1)

/-- Reading on means that neither string has ended. -/
theorem istrncmpReads_inside {s1 s2 : Nat → UInt8} {n i k : Nat} (read : k ∈ (istrncmpReads s1 s2 n i).2) :
    i ≤ k ∧ k < i + n ∧ ∀ j, i ≤ j → j < k → s1 j ≠ 0 ∧ s2 j ≠ 0 := by
  induction n generalizing i with
  | zero => cases read
  | succ n ih =>
    -- the byte at `i` is read whatever comes after it
    have first : k = i → i ≤ k ∧ k < i + (n + 1) ∧ ∀ j, i ≤ j → j < k → s1 j ≠ 0 ∧ s2 j ≠ 0 := by
      rintro rfl
      exact ⟨Nat.le_refl k, by omega, fun j low high => by omega⟩
    rw [istrncmpReads] at read
    simp only [ne_eq, toLowerChar_inj] at read
    split at read
    · exact first (List.mem_singleton.mp read)
    · rename_i same
      split at read
      · exact first (List.mem_singleton.mp read)
      · rename_i more
        cases read with
        | head => exact first rfl
        | tail _ later =>
          obtain ⟨low, high, before⟩ := ih later
          refine ⟨by omega, by omega, fun j low' high' => ?_⟩
          by_cases here : j = i
          · subst here
            refine ⟨more, fun ends => same ?_⟩
            rw [ends, toLower_zero, toLower_eq_zero]
            exact ⟨more, more⟩
          · exact before j (by omega) high'

/-! ## The names compared -/

/-- 'A'..'Z' become 'a'..'z', every other byte stays. -/
def smallLetter (c : UInt8) : UInt8 :=
  if 'A'.toNat ≤ c.toNat ∧ c.toNat ≤ 'Z'.toNat then UInt8.ofNat (c.toNat - 'A'.toNat + 'a'.toNat) else c

/-- The first `n` bytes, cut at the first NUL. -/
def firstBytes (s : Nat → UInt8) (n : Nat) : List UInt8 := ((List.range n).map s).takeWhile (· ≠ 0)

theorem toLower_smallLetter (c : UInt8) : toLower c = smallLetter c := by
  have all : ∀ n : Fin 256, toLower (UInt8.ofFin n) = smallLetter (UInt8.ofFin n) := by decide +kernel
  exact all c.toFin

/-- The bytes from `i` on, at most `n` of them, before a NUL. -/
def bytesFrom (s : Nat → UInt8) (n i : Nat) : List UInt8 := ((List.range' i n).map s).takeWhile (· ≠ 0)

section

variable {s : Nat → UInt8} {n i : Nat}

theorem bytesFrom_end (ends : s i = 0) : bytesFrom s (n + 1) i = [] := by
  simp [bytesFrom, List.range'_succ, ends]

theorem bytesFrom_more (more : s i ≠ 0) : bytesFrom s (n + 1) i = s i :: bytesFrom s n (i + 1) := by
  simp [bytesFrom, List.range'_succ, more]

theorem bytesFrom_congr {t : Nat → UInt8} (same : ∀ j, i ≤ j → j < i + n → s j = t j) :
    bytesFrom s n i = bytesFrom t n i := by
  have bytes : (List.range' i n).map s = (List.range' i n).map t := by
    apply List.map_congr_left
    intro j inside
    obtain ⟨low, high⟩ := List.mem_range'_1.mp inside
    exact same j low high
  rw [bytesFrom, bytesFrom, bytes]

theorem firstBytes_eq : firstBytes s n = bytesFrom s n 0 := by
  rw [firstBytes, bytesFrom, List.range_eq_range']

end

/-- The result is 0 if the bytes at `i` are equal letters and the rest compares equal or is cut off. -/
theorem istrncmpFrom_succ_eq_zero {a b : Nat → UInt8} {n i : Nat} : istrncmpFrom a b (n + 1) i = 0 ↔
    toLower (a i) = toLower (b i) ∧ (a i ≠ 0 → istrncmpFrom a b n (i + 1) = 0) := by
  rw [istrncmpFrom]
  by_cases other : a i ≠ b i ∧ toLower (a i) ≠ toLower (b i)
  · rw [if_pos other]
    have ne : (a i).toNat ≠ (b i).toNat := fun same => other.1 (UInt8.toNat_inj.mp same)
    refine iff_of_false ?_ fun same => other.2 same.1
    omega
  · rw [if_neg other]
    have here : toLower (a i) = toLower (b i) := by
      by_contra ne
      exact other ⟨fun same => ne (by rw [same]), ne⟩
    by_cases ends : a i = 0
    · rw [if_pos ends]
      exact iff_of_true rfl ⟨here, fun more => absurd ends more⟩
    · rw [if_neg ends]
      exact ⟨fun rest => ⟨here, fun _ => rest⟩, fun same => same.2 ends⟩

theorem istrncmpFrom_iff_bytesFrom {a b : Nat → UInt8} {n i : Nat} :
    istrncmpFrom a b n i = 0 ↔ (bytesFrom a n i).map smallLetter = (bytesFrom b n i).map smallLetter := by
  induction n generalizing i with
  | zero => exact iff_of_true rfl rfl
  | succ n ih =>
    rw [istrncmpFrom_succ_eq_zero, ih]
    by_cases left : a i = 0
    · by_cases right : b i = 0
      · simp [bytesFrom_end left, bytesFrom_end right, left, right]
      · -- only the other string goes on
        have other : toLower (a i) ≠ toLower (b i) := by
          rw [left, toLower_zero]
          exact fun same => right (toLower_eq_zero.mp same.symm)
        simp [bytesFrom_end left, bytesFrom_more right, other]
    · by_cases right : b i = 0
      · have other : toLower (a i) ≠ toLower (b i) := by
          rw [right, toLower_zero]
          exact fun same => left (toLower_eq_zero.mp same)
        simp [bytesFrom_more left, bytesFrom_end right, other]
      · simp [bytesFrom_more left, bytesFrom_more right, left, toLower_smallLetter]

theorem istrncmp_iff_firstBytes {a b : Nat → UInt8} {n : Nat} :
    istrncmp a b n = 0 ↔ (firstBytes a n).map smallLetter = (firstBytes b n).map smallLetter := by
  rw [firstBytes_eq, firstBytes_eq]
  exact istrncmpFrom_iff_bytesFrom

theorem istrncmp_equivalence (n : Nat) : Equivalence fun a b => istrncmp a b n = 0 where
  refl _ := istrncmp_iff_firstBytes.mpr rfl
  symm same := istrncmp_iff_firstBytes.mpr (istrncmp_iff_firstBytes.mp same).symm
  trans left right :=
    istrncmp_iff_firstBytes.mpr ((istrncmp_iff_firstBytes.mp left).trans (istrncmp_iff_firstBytes.mp right))

/-- Two names compare equal if they are the same letters up to case as far as the first NUL and the limit.
Nothing behind either of them is read. -/
theorem istrncmp_compares :
    (∀ (a b : Nat → UInt8) (n : Nat),
      istrncmp a b n = 0 ↔ (firstBytes a n).map smallLetter = (firstBytes b n).map smallLetter) ∧
    (∀ (a b : Nat → UInt8) (n : Nat), (istrncmpReads a b n 0).1 = istrncmp a b n ∧
      ∀ k ∈ (istrncmpReads a b n 0).2, k < n ∧ (∀ j < k, a j ≠ 0) ∧ ∀ j < k, b j ≠ 0) ∧
    ∀ n : Nat, Equivalence fun a b => istrncmp a b n = 0 := by
  refine ⟨fun a b n => istrncmp_iff_firstBytes, fun a b n => ⟨istrncmpReads_res a b n 0, ?_⟩, istrncmp_equivalence⟩
  intro k read
  obtain ⟨_, high, before⟩ := istrncmpReads_inside read
  exact ⟨by omega, fun j first => (before j (Nat.zero_le j) first).1, fun j first => (before j (Nat.zero_le j) first).2⟩

end PeachOs
