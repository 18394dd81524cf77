import PeachOs.Fat16
import Mathlib.Data.List.GetD
import Mathlib.Data.Nat.Find

/-!
# Names of directory entries

`fat16_to_proper_string` stops at a space or a NUL only, so a name that fills its
field goes on with the bytes behind it.
-/

namespace PeachOs

/-- Where the copying loop ends. -/
def Stops (mem : Nat → UInt8) (i : Nat) : Prop := mem i = 0 ∨ mem i = 0x20

instance (mem : Nat → UInt8) (i : Nat) : Decidable (Stops mem i) := by unfold Stops; infer_instance

/-! ## The bytes read and written -/

/-- What `fat16_to_proper_string` reads from byte `i` on and writes from `out` on,
up to a write outside the buffer. -/
def toProperStringAccess (mem : Nat → UInt8) : (room i out : Nat) → List Nat × List Nat
  | 0, i, out => ([i], if mem i = 0 then [] else [out])
  | room + 1, i, out =>
    if mem i ≠ 0 ∧ mem i ≠ 0x20 then
      let (reads, writes) := toProperStringAccess mem room (i + 1) (out + 1)
      (i :: reads, out :: writes)
    else ([i], if mem i = 0x20 then [out] else [])

/-- What `fat16_get_full_filename_with_extension` reads of the entry and writes
after the buffer is cleared. -/
def fullFilenameAccess (item : Nat → UInt8) (maxLen : Nat) : List Nat × List Nat :=
  let (reads, writes) := toProperStringAccess item maxLen 0 0
  match fat16ToProperString item maxLen 0 with
  | none => (reads, writes)
  | some base =>
    if item 8 ≠ 0 ∧ item 8 ≠ 0x20 then
      let (reads', writes') :=
        toProperStringAccess item (maxLen - (base.length + 1)) 8 (base.length + 1)
      (reads ++ 8 :: reads', writes ++ base.length :: writes')
    else (reads ++ [8], writes)

/-- No byte of the `n` from `i` on ends the copy. -/
def Runs (mem : Nat → UInt8) (i n : Nat) : Prop := ∀ j, i ≤ j → j < i + n → ¬ Stops mem j

section

variable {mem : Nat → UInt8} {i n room : Nat}

theorem Runs.head (run : Runs mem i (n + 1)) : mem i ≠ 0 ∧ mem i ≠ 0x20 :=
  not_or.mp (run i (Nat.le_refl i) (by omega))

theorem Runs.tail (run : Runs mem i (n + 1)) : Runs mem (i + 1) n :=
  fun j lo hi => run j (by omega) (by omega)

theorem Stops.halts (stop : Stops mem i) : ¬ (mem i ≠ 0 ∧ mem i ≠ 0x20) := by
  rintro ⟨nul, space⟩
  exact stop.elim nul space

/-- The copy up to the first stop. -/
theorem Runs.copied (run : Runs mem i n) (stop : Stops mem (i + n))
    (fits : n < room ∨ n = room ∧ mem (i + n) = 0) :
    fat16ToProperString mem room i = some ((List.range' i n).map mem) := by
  induction n generalizing room i with
  | zero =>
    cases room with
    | zero =>
      have nul : mem i = 0 := (fits.resolve_left (Nat.lt_irrefl 0)).2
      rw [fat16ToProperString, if_pos nul]
      rfl
    | succ room =>
      rw [Nat.add_zero] at stop
      rw [fat16ToProperString, if_neg stop.halts]
      rfl
  | succ n ih =>
    cases room with
    | zero => omega
    | succ room =>
      have next : i + (n + 1) = i + 1 + n := by omega
      rw [next] at stop fits
      have fits' : n < room ∨ n = room ∧ mem (i + 1 + n) = 0 :=
        fits.imp Nat.lt_of_succ_lt_succ fun same => ⟨Nat.succ.inj same.1, same.2⟩
      rw [fat16ToProperString, if_pos run.head, ih run.tail stop fits', List.range'_succ]
      rfl

/-- What is read and written up to the first stop. -/
theorem Runs.accessed (run : Runs mem i n) (stop : Stops mem (i + n)) (fits : n ≤ room) (out : Nat) :
    toProperStringAccess mem room i out =
      (List.range' i (n + 1), List.range' out n ++ if mem (i + n) = 0x20 then [out + n] else []) := by
  induction n generalizing room i out with
  | zero =>
    rw [Nat.add_zero] at stop
    cases room with
    | zero =>
      have other : mem i = 0x20 ↔ ¬ mem i = 0 := by
        constructor
        · intro space nul
          rw [nul] at space
          exact absurd space (by decide)
        · exact stop.resolve_left
      simp [toProperStringAccess, other]
    | succ room =>
      rw [toProperStringAccess, if_neg stop.halts]
      simp
  | succ n ih =>
    cases room with
    | zero => omega
    | succ room =>
      have next : i + (n + 1) = i + 1 + n := by omega
      have next' : out + (n + 1) = out + 1 + n := by omega
      rw [next] at stop
      rw [toProperStringAccess, if_pos run.head, ih run.tail stop (by omega) (out + 1), next, next', List.range'_succ,
        List.range'_succ]
      rfl

/-- While no byte stops it, the copy reads on. -/
theorem Runs.read_on (run : Runs mem i n) (fits : n ≤ room) (out : Nat) :
    i + n ∈ (toProperStringAccess mem room i out).1 := by
  induction n generalizing room i out with
  | zero =>
    cases room with
    | zero => simp [toProperStringAccess]
    | succ room =>
      rw [toProperStringAccess]
      split <;> simp
  | succ n ih =>
    cases room with
    | zero => omega
    | succ room =>
      have next : i + (n + 1) = i + 1 + n := by omega
      rw [toProperStringAccess, if_pos run.head, next]
      exact List.mem_cons_of_mem i (ih run.tail (by omega) (out + 1))

/-- The first stop from `i` on. -/
theorem first_stop (within : ∃ j, i ≤ j ∧ j ≤ i + n ∧ Stops mem j) : ∃ k ≤ n, Runs mem i k ∧ Stops mem (i + k) := by
  have found : ∃ k, Stops mem (i + k) := by
    obtain ⟨j, lo, hi, stop⟩ := within
    exact ⟨j - i, by rwa [Nat.add_sub_cancel' lo]⟩
  refine ⟨Nat.find found, ?_, fun j lo hi stop => ?_, Nat.find_spec found⟩
  · obtain ⟨j, lo, hi, stop⟩ := within
    exact Nat.le_trans (Nat.find_min' found (m := j - i) (by rwa [Nat.add_sub_cancel' lo])) (by omega)
  · exact Nat.find_min found (m := j - i) (by omega) (by rwa [Nat.add_sub_cancel' lo])

end

/-! ## Names -/

/-- The entry's name fields hold `base` and `ext`, padded with spaces. -/
structure Named (item : Nat → UInt8) (base ext : List UInt8) : Prop where
  base_length : 1 ≤ base.length ∧ base.length ≤ 8
  ext_length : ext.length ≤ 3
  base_bytes : ∀ c ∈ base, c ≠ 0 ∧ c ≠ 0x20
  ext_bytes : ∀ c ∈ ext, c ≠ 0 ∧ c ≠ 0x20
  base_field : ∀ i < 8, item i = base.getD i 0x20
  ext_field : ∀ i < 3, item (8 + i) = ext.getD i 0x20

def properName (base ext : List UInt8) : List UInt8 := base ++ if ext = [] then [] else 0x2E :: ext

/-- A name is read exactly, and only name bytes are read and 13 bytes written. -/
structure NameRight (item : Nat → UInt8) (maxLen : Nat) : Prop where
  exact : ∀ base ext, Named item base ext → fat16GetFullFilenameWithExtension item maxLen = some (properName base ext)
  reads : ∀ i ∈ (fullFilenameAccess item maxLen).1, i < 11
  writes : ∀ i ∈ (fullFilenameAccess item maxLen).2, i < 13

/-- One of the last three name bytes ends the copy; the very last one, where none
before it does, only as a NUL. -/
structure EndsInside (item : Nat → UInt8) : Prop where
  ends : ∃ i, 8 ≤ i ∧ i ≤ 10 ∧ Stops item i
  nul : Runs item 0 10 → item 10 ≠ 0x20

section

variable {item : Nat → UInt8} {maxLen b e : Nat}

theorem fullFilename_base (run : Runs item 0 b) (stop : Stops item b) (fits : b < maxLen) (none : Stops item 8) :
    fat16GetFullFilenameWithExtension item maxLen = some ((List.range' 0 b).map item) ∧
      fullFilenameAccess item maxLen =
        (List.range' 0 (b + 1) ++ [8], List.range' 0 b ++ if item b = 0x20 then [b] else []) := by
  rw [← Nat.zero_add b] at stop
  have copied := run.copied stop (Or.inl fits)
  have accessed := run.accessed stop (Nat.le_of_lt fits) 0
  rw [Nat.zero_add] at accessed
  constructor
  · rw [fat16GetFullFilenameWithExtension, copied]
    exact if_neg none.halts
  · rw [fullFilenameAccess, copied, accessed]
    exact if_neg none.halts

theorem fullFilename_access (run : Runs item 0 b) (stop : Stops item b) (fits : b < maxLen)
    (run' : Runs item 8 (e + 1)) (stop' : Stops item (8 + (e + 1))) (fits' : b + (e + 2) ≤ maxLen) :
    fullFilenameAccess item maxLen =
      (List.range' 0 (b + 1) ++ 8 :: List.range' 8 (e + 2),
        (List.range' 0 b ++ if item b = 0x20 then [b] else []) ++ b :: (List.range' (b + 1) (e + 1) ++
          if item (8 + (e + 1)) = 0x20 then [b + 1 + (e + 1)] else [])) := by
  rw [← Nat.zero_add b] at stop
  have copied := run.copied stop (Or.inl fits)
  have accessed := run.accessed stop (Nat.le_of_lt fits) 0
  rw [Nat.zero_add] at accessed
  have accessed' := run'.accessed stop' (by omega : e + 1 ≤ maxLen - (b + 1)) (b + 1)
  simp only [fullFilenameAccess, copied, accessed, List.length_map, List.length_range', accessed',
    if_pos run'.head]

theorem fullFilename_extended (run : Runs item 0 b) (stop : Stops item b) (fits : b < maxLen)
    (run' : Runs item 8 (e + 1)) (stop' : Stops item (8 + (e + 1))) (fits' : b + (e + 2) < maxLen) :
    fat16GetFullFilenameWithExtension item maxLen =
      some ((List.range' 0 b).map item ++ 0x2E :: (List.range' 8 (e + 1)).map item) := by
  rw [← Nat.zero_add b] at stop
  have copied := run.copied stop (Or.inl fits)
  have room : e + 1 < maxLen - (b + 1) := by omega
  have copied' := run'.copied stop' (Or.inl room)
  simp only [fat16GetFullFilenameWithExtension, copied, List.length_map, List.length_range', copied',
    if_pos run'.head, if_pos fits]
  rfl

theorem field_bytes {w : List UInt8} {at' : Nat} (field : ∀ i < w.length, item (at' + i) = w.getD i 0x20) :
    (List.range' at' w.length).map item = w := by
  apply List.ext_getElem
  · rw [List.length_map, List.length_range']
  · intro i hi hi'
    rw [List.getElem_map, List.getElem_range', Nat.one_mul, field i hi', List.getD_eq_getElem _ _ hi']

theorem field_runs {w : List UInt8} {at' : Nat} (field : ∀ i < w.length, item (at' + i) = w.getD i 0x20)
    (bytes : ∀ c ∈ w, c ≠ 0 ∧ c ≠ 0x20) : Runs item at' w.length := by
  intro j lo hi
  obtain ⟨i, rfl⟩ := Nat.exists_eq_add_of_le lo
  have inside : i < w.length := by omega
  rw [Stops, field i inside, List.getD_eq_getElem _ _ inside, not_or]
  exact bytes _ (List.getElem_mem inside)

section

variable {base ext : List UInt8}

theorem Named.base_getD (named : Named item base ext) : ∀ i < base.length, item (0 + i) = base.getD i 0x20 := by
  intro i hi
  rw [Nat.zero_add]
  exact named.base_field i (by have := named.base_length; omega)

theorem Named.ext_getD (named : Named item base ext) : ∀ i < ext.length, item (8 + i) = ext.getD i 0x20 :=
  fun i hi => named.ext_field i (by have := named.ext_length; omega)

theorem Named.base_runs (named : Named item base ext) : Runs item 0 base.length :=
  field_runs named.base_getD named.base_bytes

theorem Named.ext_runs (named : Named item base ext) : Runs item 8 ext.length :=
  field_runs named.ext_getD named.ext_bytes

/-- The padding of a short base. -/
theorem Named.base_stops (named : Named item base ext) (short : base.length < 8) : Stops item base.length := by
  right
  rw [named.base_field _ short, List.getD_eq_default _ _ (Nat.le_refl _)]

theorem Named.ext_stops (named : Named item base ext) (short : ext.length < 3) : Stops item (8 + ext.length) := by
  right
  rw [named.ext_field _ short, List.getD_eq_default _ _ (Nat.le_refl _)]

/-- A base that fills its field runs into the extension. -/
theorem Named.base_full (named : Named item base ext) (full : base.length = 8) : Runs item 0 (8 + ext.length) := by
  intro j lo hi
  by_cases inBase : j < 8
  · exact named.base_runs j lo (by omega)
  · exact named.ext_runs j (by omega) (by omega)

end

theorem EndsInside.first (ends : EndsInside item) : ∃ b ≤ 10, Runs item 0 b ∧ Stops item b := by
  obtain ⟨i, -, hi, stop⟩ := ends.ends
  obtain ⟨b, small, run, stop⟩ := first_stop (i := 0) (n := 10) ⟨i, Nat.zero_le i, by omega, stop⟩
  rw [Nat.zero_add] at stop
  exact ⟨b, small, run, stop⟩

theorem EndsInside.second (ends : EndsInside item) (go : ¬ Stops item 8) :
    ∃ e ≤ 1, Runs item 8 (e + 1) ∧ Stops item (8 + (e + 1)) := by
  obtain ⟨e, small, run, stop⟩ := first_stop (i := 8) (n := 2) ends.ends
  cases e with
  | zero => exact absurd stop go
  | succ e => exact ⟨e, by omega, run, stop⟩

/-! ## When names are right -/

theorem reads_first {r : Nat} (mem : r ∈ (toProperStringAccess item maxLen 0 0).1) :
    r ∈ (fullFilenameAccess item maxLen).1 := by
  unfold fullFilenameAccess
  dsimp only
  split
  · exact mem
  · split <;> exact List.mem_append_left _ mem

/-- Without a stop in the last three name bytes the byte after them is read. -/
theorem reads_past (large : 13 ≤ maxLen) (run : Runs item 8 3) : 11 ∈ (fullFilenameAccess item maxLen).1 := by
  by_cases short : ∃ j, 0 ≤ j ∧ j ≤ 0 + 7 ∧ Stops item j
  · obtain ⟨b, small, run₀, stop⟩ := first_stop short
    have copied := run₀.copied stop (Or.inl (by omega : b < maxLen))
    have read := run.read_on (by omega : 3 ≤ maxLen - (b + 1)) (b + 1)
    simp only [fullFilenameAccess, copied, List.length_map, List.length_range', if_pos run.head]
    exact List.mem_append_right _ (List.mem_cons_of_mem 8 read)
  · have long : Runs item 0 11 := by
      intro j lo hi stop
      by_cases inBase : j ≤ 7
      · exact short ⟨j, lo, by omega, stop⟩
      · exact run j (by omega) (by omega) stop
    exact reads_first (long.read_on (by omega) 0)

theorem NameRight.ends (right : NameRight item maxLen) (large : 13 ≤ maxLen) : EndsInside item := by
  constructor
  · by_contra none
    have run : Runs item 8 3 := fun j lo hi stop => none ⟨j, lo, by omega, stop⟩
    exact absurd (right.reads 11 (reads_past large run)) (Nat.lt_irrefl 11)
  · intro run space
    have stop : Stops item 10 := Or.inr space
    have run' : Runs item 8 (1 + 1) := fun j lo hi => run j (Nat.zero_le j) (by omega)
    have access := fullFilename_access run stop (by omega : 10 < maxLen) run' stop (by omega)
    have last : 13 ∈ (fullFilenameAccess item maxLen).2 := by
      rw [access]
      simp [space]
    exact absurd (right.writes 13 last) (Nat.lt_irrefl 13)

theorem EndsInside.accesses (ends : EndsInside item) (large : 13 ≤ maxLen) :
    (∀ i ∈ (fullFilenameAccess item maxLen).1, i < 11) ∧ ∀ i ∈ (fullFilenameAccess item maxLen).2, i < 13 := by
  obtain ⟨b, small, run, stop⟩ := ends.first
  by_cases none : Stops item 8
  · rw [(fullFilename_base run stop (by omega : b < maxLen) none).2]
    constructor
    · intro i mem
      simp only [List.mem_append, List.mem_range'_1, List.mem_singleton] at mem
      omega
    · intro i mem
      simp only [List.mem_append, List.mem_range'_1, List.mem_ite_nil_right, List.mem_singleton] at mem
      omega
  · obtain ⟨e, short, run', stop'⟩ := ends.second none
    rw [fullFilename_access run stop (by omega : b < maxLen) run' stop' (by omega)]
    constructor
    · intro i mem
      simp only [List.mem_append, List.mem_cons, List.mem_range'_1] at mem
      omega
    · intro i mem
      simp only [List.mem_append, List.mem_cons, List.mem_range'_1, List.mem_ite_nil_right, List.not_mem_nil,
        or_false] at mem
      -- the NUL after both fields, at 13 only where it is not written
      by_cases last : b = 10 ∧ e = 1
      · obtain ⟨rfl, rfl⟩ := last
        have space : ¬ item (8 + (1 + 1)) = 0x20 := ends.nul run
        simp only [space, false_and, or_false] at mem
        omega
      · omega

theorem EndsInside.ext_short {base ext : List UInt8} (ends : EndsInside item) (named : Named item base ext) :
    ext.length < 3 := by
  obtain ⟨i, lo, hi, stop⟩ := ends.ends
  by_contra long
  exact named.ext_runs i lo (by omega) stop

theorem EndsInside.exact {base ext : List UInt8} (ends : EndsInside item) (large : 13 ≤ maxLen)
    (named : Named item base ext) (room : base.length < 8 ∨ ext = []) :
    fat16GetFullFilenameWithExtension item maxLen = some (properName base ext) := by
  have lengths := named.base_length
  have short := ends.ext_short named
  have ext_stop := named.ext_stops short
  have base_stop : Stops item base.length := by
    by_cases full : base.length < 8
    · exact named.base_stops full
    · have length : base.length = 8 := by omega
      rw [room.resolve_left full] at ext_stop
      rwa [length]
  have bytes := field_bytes named.base_getD
  cases ext with
  | nil =>
    rw [(fullFilename_base named.base_runs base_stop (by omega) ext_stop).1, bytes]
    simp [properName]
  | cons c ext =>
    have short' : base.length < 8 := room.resolve_right (List.cons_ne_nil c ext)
    rw [List.length_cons] at short
    rw [fullFilename_extended named.base_runs base_stop (by omega) named.ext_runs ext_stop (by omega), bytes]
    have bytes' := field_bytes named.ext_getD
    rw [List.length_cons] at bytes'
    rw [bytes']
    simp [properName]

/-- **A name is read right exactly when the copies end inside the name fields and
the base does not run into an extension.** -/
theorem nameRight_iff (large : 13 ≤ maxLen) : NameRight item maxLen ↔
    EndsInside item ∧ ∀ base ext, Named item base ext → base.length < 8 ∨ ext = [] := by
  constructor
  · intro right
    have ends := right.ends large
    refine ⟨ends, fun base ext named => ?_⟩
    by_contra both
    rw [not_or] at both
    have lengths := named.base_length
    have full : base.length = 8 := by omega
    have short := ends.ext_short named
    have run := named.base_full full
    have ext_stop := named.ext_stops short
    cases ext with
    | nil => exact both.2 rfl
    | cons c ext =>
      rw [List.length_cons] at short run ext_stop
      have single : ext.length = 0 := by
        by_contra more
        have two : ext.length = 1 := by omega
        have space : item 10 = 0x20 := by
          have padding := named.ext_field 2 (by decide)
          rwa [List.getD_eq_default _ _ (by rw [List.length_cons, two])] at padding
        rw [two] at run
        exact ends.nul run space
      have fits : 8 + (ext.length + 1) + (ext.length + 2) < maxLen := by omega
      have result := fullFilename_extended run ext_stop (by omega) named.ext_runs ext_stop fits
      rw [right.exact base (c :: ext) named] at result
      have length := congrArg List.length (Option.some.inj result)
      simp [properName] at length
      omega
  · rintro ⟨ends, room⟩
    exact ⟨fun base ext named => ends.exact large named (room base ext named), (ends.accesses large).1,
      (ends.accesses large).2⟩

end

/-- `README.TXT`, read-only. -/
def readOnlyEntry (i : Nat) : UInt8 := [82, 69, 65, 68, 77, 69, 32, 32, 84, 88, 84, 1].getD i 0

/-- `README.MD`. -/
def readmeEntry (i : Nat) : UInt8 := [82, 69, 65, 68, 77, 69, 32, 32, 77, 68, 32, 1].getD i 0

theorem readmeEntry_right : NameRight readmeEntry peachosMaxPathLength := by
  refine (nameRight_iff (by decide)).mpr ⟨⟨⟨10, by decide, by decide, by decide⟩, ?_⟩, ?_⟩
  · intro run
    exact absurd (by decide) (run 6 (Nat.zero_le 6) (by decide))
  · intro base ext named
    left
    by_contra long
    have inside := named.base_length
    exact absurd (by decide) (named.base_runs 6 (Nat.zero_le 6) (by omega))

/-- **A full extension takes the attribute with it.** -/
theorem readOnlyEntry_wrong : Named readOnlyEntry [82, 69, 65, 68, 77, 69] [84, 88, 84] ∧
    fat16GetFullFilenameWithExtension readOnlyEntry peachosMaxPathLength ≠
      some (properName [82, 69, 65, 68, 77, 69] [84, 88, 84]) ∧
    ¬ NameRight readOnlyEntry peachosMaxPathLength := by
  have named : Named readOnlyEntry [82, 69, 65, 68, 77, 69] [84, 88, 84] := by
    constructor <;> decide +kernel
  have wrong : fat16GetFullFilenameWithExtension readOnlyEntry peachosMaxPathLength ≠
      some (properName [82, 69, 65, 68, 77, 69] [84, 88, 84]) := by
    decide
  exact ⟨named, wrong, fun right => wrong (right.exact _ _ named)⟩

end PeachOs
