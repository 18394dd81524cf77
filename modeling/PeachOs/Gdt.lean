import Mathlib.Algebra.Group.Nat.Defs
import Mathlib.Logic.Function.Basic

/-!
# Segment descriptors

`gdt.c`: the bytes of a descriptor and what the processor reads from them.
-/

namespace PeachOs

open Function (update)

structure GdtStructured where
  base : UInt32
  limit : UInt32
  type : UInt8

/-- The stores of `generate_gdt` after it chose the unit of the limit. -/
def encodeFields (mem : Nat → UInt8) (gdt : Nat) (source : GdtStructured) : Nat → UInt8 :=
  let mem := update mem (gdt + 0) (source.limit &&& 0xFF).toUInt8
  let mem := update mem (gdt + 1) (source.limit >>> 8 &&& 0xFF).toUInt8
  let mem := update mem (gdt + 6) (mem (gdt + 6) ||| (source.limit >>> 16 &&& 0x0F).toUInt8)
  let mem := update mem (gdt + 2) (source.base &&& 0xFF).toUInt8
  let mem := update mem (gdt + 3) (source.base >>> 8 &&& 0xFF).toUInt8
  let mem := update mem (gdt + 4) (source.base >>> 16 &&& 0xFF).toUInt8
  let mem := update mem (gdt + 7) (source.base >>> 24 &&& 0xFF).toUInt8
  update mem (gdt + 5) source.type

/-- The panic has no result. -/
def generateGdt (mem : Nat → UInt8) (gdt : Nat) (source : GdtStructured) : Option (Nat → UInt8) :=
  if source.limit > 65536 ∧ source.limit &&& 0xFFF ≠ 0xFFF then none
  else
    let mem := update mem (gdt + 6) 0x40
    if source.limit > 65536 then
      let source := { source with limit := source.limit >>> 12 }
      some (encodeFields (update mem (gdt + 6) 0xc0) gdt source)
    else some (encodeFields mem gdt source)

def sizeofGdt : Nat := 8

/-- The loop of `gdt_structured_to_gdt` from entry `i` on. -/
def gdtEntriesFrom (mem : Nat → UInt8) (gdtStructured : Nat → GdtStructured) : (left i : Nat) → Option (Nat → UInt8)
  | 0, _ => some mem
  | left + 1, i => do
    let mem ← generateGdt mem (sizeofGdt * i) (gdtStructured i)
    gdtEntriesFrom mem gdtStructured left (i + 1)

/-- `mem` is the memory from the table's start on. -/
def gdtStructuredToGdt (mem : Nat → UInt8) (gdtStructured : Nat → GdtStructured) (total : Int) :
    Option (Nat → UInt8) :=
  gdtEntriesFrom mem gdtStructured (total - 1).toNat 1

/-! ## What the processor reads -/

def segmentBase (mem : Nat → UInt8) (gdt : Nat) : Nat :=
  (mem (gdt + 2)).toNat + 2 ^ 8 * (mem (gdt + 3)).toNat + 2 ^ 16 * (mem (gdt + 4)).toNat +
    2 ^ 24 * (mem (gdt + 7)).toNat

def limitField (mem : Nat → UInt8) (gdt : Nat) : Nat :=
  (mem (gdt + 0)).toNat + 2 ^ 8 * (mem (gdt + 1)).toNat + 2 ^ 16 * ((mem (gdt + 6)).toNat % 16)

/-- In units of 4 KiB when the granularity bit is set. -/
def segmentLimit (mem : Nat → UInt8) (gdt : Nat) : Nat :=
  if (mem (gdt + 6)).toNat / 128 = 1 then limitField mem gdt * 4096 + 0xFFF else limitField mem gdt

/-- The descriptor at `gdt` is that of the segment `source`. -/
structure Decodes (mem : Nat → UInt8) (gdt : Nat) (source : GdtStructured) : Prop where
  base : segmentBase mem gdt = source.base.toNat
  limit : segmentLimit mem gdt = source.limit.toNat
  type : mem (gdt + 5) = source.type

/-- A limit that neither unit can express is refused. -/
def LimitRefused (source : GdtStructured) : Prop := 65536 < source.limit.toNat ∧ source.limit.toNat % 4096 ≠ 0xFFF

variable {mem : Nat → UInt8} {gdt : Nat} {source : GdtStructured}

/-! ## One descriptor -/

theorem byte_toNat (x : UInt32) {k : UInt32} (small : k.toNat < 32) :
    (x >>> k &&& 0xFF).toUInt8.toNat = x.toNat / 2 ^ k.toNat % 256 := by
  have mask : (0xFF : UInt32).toNat = 2 ^ 8 - 1 := rfl
  rw [UInt32.toNat_toUInt8, UInt32.toNat_and, UInt32.toNat_shiftRight, mask, Nat.and_two_pow_sub_one_eq_mod,
    Nat.shiftRight_eq_div_pow, Nat.mod_eq_of_lt small]
  omega

theorem lowByte_toNat (x : UInt32) : (x &&& 0xFF).toUInt8.toNat = x.toNat % 256 := by
  simpa using byte_toNat x (k := 0) (by decide)

theorem limitBits_toNat (x : UInt32) : (x >>> 16 &&& 0x0F).toUInt8.toNat = x.toNat / 2 ^ 16 % 16 := by
  have mask : (0x0F : UInt32).toNat = 2 ^ 4 - 1 := rfl
  have shift : (16 : UInt32).toNat % 32 = 16 := rfl
  rw [UInt32.toNat_toUInt8, UInt32.toNat_and, UInt32.toNat_shiftRight, mask, Nat.and_two_pow_sub_one_eq_mod,
    Nat.shiftRight_eq_div_pow, shift]
  omega

/-- The flags and the limit's upper bits share a byte without meeting. -/
theorem flagsByte_toNat {flags n : UInt8} (high : flags.toNat % 16 = 0) (low : n.toNat < 16) :
    (flags ||| n).toNat = flags.toNat + n.toNat := by
  have whole : flags.toNat = 2 ^ 4 * (flags.toNat / 16) := by omega
  rw [UInt8.toNat_or, whole]
  exact (Nat.two_pow_add_eq_or_of_lt low _).symm

theorem lowBits_mask (x : UInt32) : x &&& 0xFFF ≠ 0xFFF ↔ x.toNat % 4096 ≠ 0xFFF := by
  have mask : (0xFFF : UInt32).toNat = 2 ^ 12 - 1 := rfl
  have low : (x &&& 0xFFF).toNat = x.toNat % 4096 := by
    rw [UInt32.toNat_and, mask]
    exact Nat.and_two_pow_sub_one_eq_mod _ 12
  exact not_congr (UInt32.toNat_inj.symm.trans (Eq.congr low rfl))

/-- The fields that are stored, when the flags leave room for the limit. -/
theorem encodeFields_spec (mem : Nat → UInt8) (gdt : Nat) (source : GdtStructured) (flags : UInt8)
    (high : flags.toNat % 16 = 0) :
    segmentBase (encodeFields (update mem (gdt + 6) flags) gdt source) gdt = source.base.toNat ∧
    limitField (encodeFields (update mem (gdt + 6) flags) gdt source) gdt = source.limit.toNat % 2 ^ 20 ∧
    (encodeFields (update mem (gdt + 6) flags) gdt source (gdt + 6)).toNat / 16 = flags.toNat / 16 ∧
    encodeFields (update mem (gdt + 6) flags) gdt source (gdt + 5) = source.type := by
  have bound := source.limit.toNat_lt
  have baseBound := source.base.toNat_lt
  have shared := flagsByte_toNat (n := (source.limit >>> 16 &&& 0x0F).toUInt8) high (by rw [limitBits_toNat]; omega)
  rw [limitBits_toNat] at shared
  generalize after : encodeFields (update mem (gdt + 6) flags) gdt source = mem'
  have byte0 : mem' (gdt + 0) = (source.limit &&& 0xFF).toUInt8 := by simp [← after, encodeFields]
  have byte1 : mem' (gdt + 1) = (source.limit >>> 8 &&& 0xFF).toUInt8 := by simp [← after, encodeFields]
  have byte2 : mem' (gdt + 2) = (source.base &&& 0xFF).toUInt8 := by simp [← after, encodeFields]
  have byte3 : mem' (gdt + 3) = (source.base >>> 8 &&& 0xFF).toUInt8 := by simp [← after, encodeFields]
  have byte4 : mem' (gdt + 4) = (source.base >>> 16 &&& 0xFF).toUInt8 := by simp [← after, encodeFields]
  have byte5 : mem' (gdt + 5) = source.type := by simp [← after, encodeFields]
  have byte6 : mem' (gdt + 6) = flags ||| (source.limit >>> 16 &&& 0x0F).toUInt8 := by
    simp [← after, encodeFields]
  have byte7 : mem' (gdt + 7) = (source.base >>> 24 &&& 0xFF).toUInt8 := by simp [← after, encodeFields]
  have eight : (8 : UInt32).toNat = 8 := rfl
  have sixteen : (16 : UInt32).toNat = 16 := rfl
  have twentyFour : (24 : UInt32).toNat = 24 := rfl
  refine ⟨?_, ?_, ?_, byte5⟩
  · rw [segmentBase, byte2, byte3, byte4, byte7, lowByte_toNat, byte_toNat _ (by decide), byte_toNat _ (by decide),
      byte_toNat _ (by decide), eight, sixteen, twentyFour]
    omega
  · rw [limitField, byte0, byte1, byte6, lowByte_toNat, byte_toNat _ (by decide), eight, shared]
    omega
  · rw [byte6, shared]
    omega

/-- Only the eight bytes of the descriptor are stored to. -/
theorem encodeFields_frame (mem : Nat → UInt8) (source : GdtStructured) {j : Nat}
    (outside : j < gdt ∨ gdt + sizeofGdt ≤ j) : encodeFields mem gdt source j = mem j := by
  have off (k : Nat) (inside : k < 8) : j ≠ gdt + k := by
    unfold sizeofGdt at outside
    omega
  have first : j ≠ gdt := off 0 (by decide)
  simp [encodeFields, off, first]

theorem generateGdt_refuses : generateGdt mem gdt source = none ↔ LimitRefused source := by
  unfold generateGdt LimitRefused
  simp only [gt_iff_lt, UInt32.lt_iff_toNat_lt, lowBits_mask]
  split
  · rename_i refused
    simpa using refused
  · rename_i fits
    split <;> simpa using fits

/-- **A segment that is not refused is encoded.** -/
theorem generateGdt_decodes (mem : Nat → UInt8) (gdt : Nat) (fits : ¬ LimitRefused source) :
    ∃ mem', generateGdt mem gdt source = some mem' ∧ Decodes mem' gdt source ∧
      ∀ j, j < gdt ∨ gdt + sizeofGdt ≤ j → mem' j = mem j := by
  have bound := source.limit.toNat_lt
  have small : (65536 : UInt32).toNat = 65536 := rfl
  have off (j : Nat) (outside : j < gdt ∨ gdt + sizeofGdt ≤ j) : j ≠ gdt + 6 := by
    unfold sizeofGdt at outside
    omega
  unfold LimitRefused at fits
  unfold generateGdt
  simp only [gt_iff_lt, UInt32.lt_iff_toNat_lt, lowBits_mask, small]
  rw [if_neg fits]
  by_cases pages : 65536 < source.limit.toNat
  · rw [if_pos pages]
    have units : (source.limit >>> 12).toNat = source.limit.toNat / 4096 := by
      rw [UInt32.toNat_shiftRight, Nat.shiftRight_eq_div_pow]
      rfl
    obtain ⟨base, limit, flags, type⟩ := encodeFields_spec (update mem (gdt + 6) 0x40) gdt
      { source with limit := source.limit >>> 12 } 0xc0 (by decide)
    have high : (0xc0 : UInt8).toNat = 192 := rfl
    refine ⟨_, rfl, ⟨base, ?_, type⟩, fun j outside => ?_⟩
    · -- the twelve bits that were shifted out are set
      unfold segmentLimit
      rw [if_pos (by omega), limit, units]
      omega
    · rw [encodeFields_frame _ _ outside, Function.update_of_ne (off j outside),
        Function.update_of_ne (off j outside)]
  · rw [if_neg pages]
    obtain ⟨base, limit, flags, type⟩ := encodeFields_spec mem gdt source 0x40 (by decide)
    have high : (0x40 : UInt8).toNat = 64 := rfl
    refine ⟨_, rfl, ⟨base, ?_, type⟩, fun j outside => ?_⟩
    · unfold segmentLimit
      rw [if_neg (by omega), limit]
      omega
    · rw [encodeFields_frame _ _ outside, Function.update_of_ne (off j outside)]

/-! ## The table -/

theorem Decodes.of_eq {mem' : Nat → UInt8} (decodes : Decodes mem gdt source)
    (same : ∀ j, gdt ≤ j → j < gdt + sizeofGdt → mem' j = mem j) : Decodes mem' gdt source := by
  have byte (k : Nat) (inside : k < 8) : mem' (gdt + k) = mem (gdt + k) :=
    same (gdt + k) (Nat.le_add_right gdt k) (Nat.add_lt_add_left inside gdt)
  have field : limitField mem' gdt = limitField mem gdt := by
    rw [limitField, limitField, byte 0 (by decide), byte 1 (by decide), byte 6 (by decide)]
  constructor
  · rw [← decodes.base, segmentBase, segmentBase, byte 2 (by decide), byte 3 (by decide), byte 4 (by decide),
      byte 7 (by decide)]
  · rw [← decodes.limit, segmentLimit, segmentLimit, byte 6 (by decide), field]
  · rw [byte 5 (by decide), decodes.type]

theorem gdtEntriesFrom_decodes (mem : Nat → UInt8) (gdtStructured : Nat → GdtStructured) (left i : Nat)
    (fits : ∀ n, i ≤ n → n < i + left → ¬ LimitRefused (gdtStructured n)) :
    ∃ mem', gdtEntriesFrom mem gdtStructured left i = some mem' ∧
      (∀ n, i ≤ n → n < i + left → Decodes mem' (sizeofGdt * n) (gdtStructured n)) ∧
      ∀ j, j < sizeofGdt * i → mem' j = mem j := by
  induction left generalizing mem i with
  | zero => exact ⟨mem, rfl, fun n lo hi => by omega, fun j _ => rfl⟩
  | succ left ih =>
    obtain ⟨mem₁, first, decodes, frame⟩ := generateGdt_decodes mem (sizeofGdt * i)
      (fits i (Nat.le_refl i) (by omega))
    obtain ⟨mem₂, rest, later, below⟩ := ih mem₁ (i + 1) fun n lo hi => fits n (by omega) (by omega)
    refine ⟨mem₂, ?_, fun n lo hi => ?_, fun j hj => ?_⟩
    · rw [gdtEntriesFrom, first]
      exact rest
    · by_cases here : n = i
      · subst here
        apply decodes.of_eq
        intro j _ hj
        rw [Nat.mul_succ] at below
        exact below j hj
      · exact later n (by omega) (by omega)
    · rw [below j (Nat.lt_of_lt_of_le hj (Nat.mul_le_mul_left _ (Nat.le_succ i))), frame j (Or.inl hj)]

/-- **The processor reads back what was encoded**: each segment that is not
refused, and each entry of a table from the second on. The first is not written. -/
theorem gdt_read_back :
    (∀ (mem : Nat → UInt8) gdt source, ¬ LimitRefused source →
      ∃ mem', generateGdt mem gdt source = some mem' ∧ Decodes mem' gdt source) ∧
    (∀ (mem : Nat → UInt8) gdt source, generateGdt mem gdt source = none ↔ LimitRefused source) ∧
    ∀ (mem : Nat → UInt8) (gdtStructured : Nat → GdtStructured) (total : Int),
      (∀ n : Nat, 1 ≤ n → n < total → ¬ LimitRefused (gdtStructured n)) →
      ∃ mem', gdtStructuredToGdt mem gdtStructured total = some mem' ∧
        (∀ n : Nat, 1 ≤ n → n < total → Decodes mem' (sizeofGdt * n) (gdtStructured n)) ∧
        ∀ j < sizeofGdt, mem' j = mem j := by
  refine ⟨?_, fun mem gdt source => generateGdt_refuses, ?_⟩
  · intro mem gdt source fits
    obtain ⟨mem', run, decodes, _⟩ := generateGdt_decodes mem gdt fits
    exact ⟨mem', run, decodes⟩
  · intro mem gdtStructured total fits
    obtain ⟨mem', run, decodes, below⟩ := gdtEntriesFrom_decodes mem gdtStructured
      (total - 1).toNat 1 fun n lo hi => fits n lo (by omega)
    exact ⟨mem', run, fun n lo hi => decodes n lo (by omega), below⟩

/-- The segments of `kernel.c` but for that of the TSS. -/
def kernelSegments : Nat → GdtStructured
  | 1 => ⟨0, 0xffffffff, 0x9a⟩
  | 2 => ⟨0, 0xffffffff, 0x92⟩
  | 3 => ⟨0, 0xffffffff, 0xf8⟩
  | 4 => ⟨0, 0xffffffff, 0xf2⟩
  | _ => ⟨0, 0, 0⟩

theorem kernel_segments_read_back :
    (∃ mem', generateGdt (fun _ => 0xFF) 8 (kernelSegments 1) = some mem' ∧ Decodes mem' 8 (kernelSegments 1)) ∧
    ∃ mem', gdtStructuredToGdt (fun _ => 0) kernelSegments 5 = some mem' ∧
      (∀ n : Nat, 1 ≤ n → n < (5 : Int) → Decodes mem' (sizeofGdt * n) (kernelSegments n)) ∧
      ∀ j < sizeofGdt, mem' j = 0 := by
  have whole (n : Nat) (lo : 1 ≤ n) (hi : (n : Int) < 5) : ¬ LimitRefused (kernelSegments n) := by
    have cases : n = 1 ∨ n = 2 ∨ n = 3 ∨ n = 4 := by omega
    rintro ⟨_, refused⟩
    rcases cases with rfl | rfl | rfl | rfl <;> exact absurd refused (by decide)
  obtain ⟨one, _, table⟩ := gdt_read_back
  exact ⟨one (fun _ => 0xFF) 8 (kernelSegments 1) (whole 1 (by decide) (by decide)),
    table (fun _ => 0) kernelSegments 5 whole⟩

end PeachOs
