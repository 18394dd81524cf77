import PeachOs.Lib.Address
import Mathlib.Logic.Function.Basic

/-!
# Byte memory, words and pages

Words are little-endian. A page is the 4096 addresses that share a frame, and
the 1024 slots of a page are the words an array of words at its start has.
Frame conditions are stated with `Agree`.
-/

namespace PeachOs.Memory

open Function (update)
open PeachOs.Address

abbrev Ram := UInt32 → UInt8

def load32 (m : Ram) (a : UInt32) : UInt32 :=
  .ofNat ((m a).toNat + 256 * (m (a + 1)).toNat + 65536 * (m (a + 2)).toNat +
    16777216 * (m (a + 3)).toNat)

def store32 (m : Ram) (a v : UInt32) : Ram :=
  update (update (update (update m a v.toUInt8) (a + 1) (v >>> 8).toUInt8)
    (a + 2) (v >>> 16).toUInt8) (a + 3) (v >>> 24).toUInt8

/-- The memory after `n` bytes from `p` on were set to `b`. -/
def memset (m : Ram) (p : UInt32) (b : UInt8) : Nat → Ram
  | 0 => m
  | n + 1 => update (memset m p b n) (p + .ofNat n) b

/-- The memory after `bytes` were stored from `p` on. -/
def storeBytes (m : Ram) (p : UInt32) : List UInt8 → Ram
  | [] => m
  | b :: bytes => storeBytes (update m p b) (p + 1) bytes

/-- `m'` has the bytes of `m` on `d`. -/
def Agree (d : UInt32 → Prop) (m m' : Ram) : Prop := ∀ x, d x → m' x = m x

theorem Agree.refl (d : UInt32 → Prop) (m : Ram) : Agree d m m := fun _ _ => rfl

theorem Agree.trans {d : UInt32 → Prop} {m m' m'' : Ram} (h : Agree d m m') (h' : Agree d m' m'') :
    Agree d m m'' := fun x hx => (h' x hx).trans (h x hx)

theorem Agree.mono {d d' : UInt32 → Prop} {m m' : Ram} (h : Agree d m m') (sub : ∀ x, d' x → d x) :
    Agree d' m m' := fun x hx => h x (sub x hx)

theorem Agree.load32 {d : UInt32 → Prop} {m m' : Ram} (h : Agree d m m') {a : UInt32}
    (h0 : d a) (h1 : d (a + 1)) (h2 : d (a + 2)) (h3 : d (a + 3)) :
    load32 m' a = load32 m a := by
  simp only [Memory.load32, h _ h0, h _ h1, h _ h2, h _ h3]

/-- A word all of whose bytes agree. -/
theorem Agree.word {d : UInt32 → Prop} {m m' : Ram} (h : Agree d m m') {a : UInt32}
    (inside : ∀ k : UInt32, k.toNat < 4 → d (a + k)) : Memory.load32 m' a = Memory.load32 m a := by
  have first : d a := by simpa using inside 0 (by decide)
  exact h.load32 first (inside 1 (by decide)) (inside 2 (by decide)) (inside 3 (by decide))

theorem load32_store32_same (m : Ram) (a v : UInt32) : load32 (store32 m a v) a = v := by
  have h1 : a + 1 ≠ a := by grind
  have h2 : a + 2 ≠ a := by grind
  have h3 : a + 3 ≠ a := by grind
  have h4 : a + 2 ≠ a + 1 := by grind
  have h5 : a + 3 ≠ a + 1 := by grind
  have h6 : a + 3 ≠ a + 2 := by grind
  have hv := v.toNat_lt
  apply UInt32.toNat_inj.mp
  simp only [load32, store32, update, eq_rec_constant, h1.symm, h2.symm, h3.symm, h4, h4.symm, h5.symm,
    h6.symm, h1, h2, h3, h5, h6, dite_eq_ite, if_true, if_false, UInt32.toNat_toUInt8,
    UInt32.toNat_shiftRight, UInt32.toNat_ofNat', UInt32.reduceToNat, Nat.reduceMod,
    Nat.shiftRight_eq_div_pow]
  omega

/-- A store leaves every byte outside its word as it was. -/
theorem store32_agree (m : Ram) (a v : UInt32) :
    Agree (fun x => ¬ InRange x a 4) m (store32 m a v) := by
  intro x hx
  have apart (k : Nat) (hk : k < 4) : x ≠ a + .ofNat k := by
    rintro rfl
    exact hx ((inRange_add (by omega)).mpr hk)
  have h0 : x ≠ a := by simpa using apart 0 (by omega)
  have h1 : x ≠ a + 1 := apart 1 (by omega)
  have h2 : x ≠ a + 2 := apart 2 (by omega)
  have h3 : x ≠ a + 3 := apart 3 (by omega)
  simp only [store32, Function.update_of_ne h0, Function.update_of_ne h1, Function.update_of_ne h2,
    Function.update_of_ne h3]

theorem memset_agree (m : Ram) (p : UInt32) (b : UInt8) (n : Nat) (fit : n ≤ 2 ^ 32) :
    Agree (fun x => ¬ InRange x p n) m (memset m p b n) := by
  induction n with
  | zero => exact Agree.refl _ _
  | succ n ih =>
    intro x hx
    have here : x ≠ p + .ofNat n := by
      rintro rfl
      exact hx ((inRange_add (by omega)).mpr (Nat.lt_succ_self n))
    rw [memset, Function.update_of_ne here]
    exact ih (by omega) x fun inside => hx (Nat.lt_succ_of_lt inside)

theorem memset_bytes (m : Ram) (p : UInt32) (b : UInt8) {n : Nat} (fit : n ≤ 2 ^ 32) {i : Nat} (hi : i < n) :
    memset m p b n (p + .ofNat i) = b := by
  induction n with
  | zero => exact absurd hi (Nat.not_lt_zero i)
  | succ n ih =>
    rw [memset]
    by_cases last : i = n
    · rw [last, Function.update_self]
    · rw [Function.update_of_ne]
      · exact ih (by omega) (by omega)
      · exact offset_ne (by omega) (by omega) last

theorem next_offset (p : UInt32) (i : Nat) : p + 1 + .ofNat i = p + .ofNat (i + 1) := by
  rw [UInt32.ofNat_add]
  have one : UInt32.ofNat 1 = 1 := rfl
  rw [one]
  grind

theorem storeBytes_agree (m : Ram) (p : UInt32) (bytes : List UInt8) (fit : bytes.length ≤ 2 ^ 32) :
    Agree (fun x => ¬ InRange x p bytes.length) m (storeBytes m p bytes) := by
  induction bytes generalizing m p with
  | nil => exact Agree.refl _ _
  | cons b bytes ih =>
    rw [List.length_cons] at fit
    intro x off
    have here : x ≠ p := by
      rintro rfl
      apply off
      simp [InRange]
    have later : ¬ InRange x (p + 1) bytes.length := by
      intro inside
      have inside : InRange x (p + .ofNat 1) bytes.length := inside
      apply off
      rw [List.length_cons]
      exact (inRange_offset (bytes.length + 1) inside (by omega) fit).2
    rw [storeBytes, ih _ _ (by omega) x later, Function.update_of_ne here]

theorem storeBytes_getD (m : Ram) (p : UInt32) (bytes : List UInt8) (fit : bytes.length ≤ 2 ^ 32) {i : Nat}
    (hi : i < bytes.length) : storeBytes m p bytes (p + .ofNat i) = bytes.getD i 0 := by
  induction bytes generalizing m p i with
  | nil => exact absurd hi (Nat.not_lt_zero i)
  | cons b bytes ih =>
    rw [List.length_cons] at fit hi
    rw [storeBytes]
    cases i with
    | zero =>
      have first : p + UInt32.ofNat 0 = p := by simp
      have off : ¬ InRange p (p + 1) bytes.length := by
        have back : p - (p + 1) = 0xffffffff := by grind
        unfold InRange
        rw [back]
        exact Nat.not_lt.mpr (by simp; omega)
      rw [first, storeBytes_agree _ _ bytes (by omega) p off, Function.update_self]
      rfl
    | succ i =>
      rw [← next_offset, ih _ _ (by omega) (by omega)]
      rfl

/-! ## One write in two memories -/

section

variable {d : UInt32 → Prop} {m m' : Ram}

theorem Agree.update (same : Agree d m m') (a : UInt32) (b : UInt8) : Agree d (update m a b) (update m' a b) := by
  intro x hx
  by_cases here : x = a
  · rw [here, Function.update_self, Function.update_self]
  · rw [Function.update_of_ne here, Function.update_of_ne here]
    exact same x hx

theorem Agree.store32 (same : Agree d m m') (a v : UInt32) :
    Agree d (Memory.store32 m a v) (Memory.store32 m' a v) :=
  (((same.update _ _).update _ _).update _ _).update _ _

theorem Agree.memset (same : Agree d m m') (p : UInt32) (b : UInt8) (n : Nat) :
    Agree d (Memory.memset m p b n) (Memory.memset m' p b n) := by
  induction n with
  | zero => exact same
  | succ n ih => exact ih.update _ _

end

/-! ## Pages -/

/-- The start of the page of `v`, and the frame an entry holds. -/
def frame (v : UInt32) : UInt32 := v &&& 0xfffff000

/-- The twelve low bits of an entry. -/
def lowBits (v : UInt32) : UInt32 := v &&& 0xfff

/-- Where word `i` of an array of words at `p` is. -/
def slot (p : UInt32) (i : Nat) : UInt32 := p + 4 * .ofNat i

theorem frame_toNat (v : UInt32) : (frame v).toNat = v.toNat / 4096 * 4096 := by
  have hv := v.toNat_lt
  have mask : (0xfffff000 : UInt32).toNat = (2 ^ 20 - 1) * 2 ^ 12 := by decide
  rw [frame, UInt32.toNat_and, mask, show (4096 : Nat) = 2 ^ 12 from rfl]
  apply Nat.eq_of_testBit_eq
  intro i
  rw [Nat.testBit_and, Nat.testBit_mul_two_pow, Nat.testBit_two_pow_sub_one,
    Nat.testBit_mul_two_pow, Nat.testBit_div_two_pow]
  by_cases high : 12 ≤ i
  · by_cases inside : i < 32
    · simp [high, show i - 12 < 20 by omega]
    · have clear : v.toNat.testBit i = false :=
        Nat.testBit_lt_two_pow (Nat.lt_of_lt_of_le hv (Nat.pow_le_pow_right (by decide) (by omega)))
      simp [high, clear]
  · simp [high]

theorem lowBits_toNat (v : UInt32) : (lowBits v).toNat = v.toNat % 4096 := by
  rw [lowBits, UInt32.toNat_and]
  exact Nat.and_two_pow_sub_one_eq_mod _ 12

theorem or_toNat {a f : UInt32} (ha : a.toNat % 4096 = 0) (hf : f.toNat < 4096) :
    (a ||| f).toNat = a.toNat + f.toNat := by
  have h := Nat.two_pow_add_eq_or_of_lt (i := 12) hf (a.toNat / 4096)
  have split : 2 ^ 12 * (a.toNat / 4096) = a.toNat := by omega
  rw [split] at h
  rw [UInt32.toNat_or]
  exact h.symm

theorem aligned_toNat {a : UInt32} : a % 4096 = 0 ↔ a.toNat % 4096 = 0 := by
  rw [← UInt32.toNat_inj]
  simp

theorem frame_of_aligned {a : UInt32} (ha : a % 4096 = 0) : frame a = a := by
  have h := aligned_toNat.mp ha
  apply UInt32.toNat_inj.mp
  rw [frame_toNat]
  omega

theorem frame_aligned (v : UInt32) : frame v % 4096 = 0 := by
  rw [aligned_toNat, frame_toNat]
  omega

/-- An entry is its frame and its flags. -/
theorem frame_or {a f : UInt32} (ha : a % 4096 = 0) (hf : f.toNat < 4096) : frame (a ||| f) = a := by
  have h := aligned_toNat.mp ha
  apply UInt32.toNat_inj.mp
  rw [frame_toNat, or_toNat h hf]
  omega

theorem lowBits_or {a f : UInt32} (ha : a % 4096 = 0) (hf : f.toNat < 4096) :
    lowBits (a ||| f) = f := by
  have h := aligned_toNat.mp ha
  apply UInt32.toNat_inj.mp
  rw [lowBits_toNat, or_toNat h hf]
  omega

theorem frame_add_lowBits (v : UInt32) : frame v + lowBits v = v := by
  have hv := v.toNat_lt
  apply UInt32.toNat_inj.mp
  rw [UInt32.toNat_add, frame_toNat, lowBits_toNat]
  omega

theorem inRange_page {x p : UInt32} (hp : p % 4096 = 0) : InRange x p 4096 ↔ frame x = p := by
  have h := aligned_toNat.mp hp
  have hx := x.toNat_lt
  have hlt := p.toNat_lt
  rw [inRange_iff (by omega), ← UInt32.toNat_inj, frame_toNat]
  omega

theorem slot_toNat {p : UInt32} {i : Nat} (hp : p % 4096 = 0) (hi : i < 1024) :
    (slot p i).toNat = p.toNat + 4 * i := by
  have h := aligned_toNat.mp hp
  have hlt := p.toNat_lt
  simp only [slot, UInt32.toNat_add, UInt32.toNat_mul, UInt32.toNat_ofNat', UInt32.reduceToNat]
  omega

/-- The bytes of a slot lie on its page. -/
theorem frame_of_inRange_slot {x p : UInt32} {i : Nat} (hp : p % 4096 = 0) (hi : i < 1024)
    (hx : InRange x (slot p i) 4) : frame x = p := by
  have h := aligned_toNat.mp hp
  have hlt := p.toNat_lt
  have place := slot_toNat hp hi
  rw [inRange_iff (by omega)] at hx
  rw [← UInt32.toNat_inj, frame_toNat]
  omega

theorem frame_slot {p k : UInt32} {i : Nat} (hp : p % 4096 = 0) (hi : i < 1024) (hk : k.toNat < 4) :
    frame (slot p i + k) = p := by
  apply frame_of_inRange_slot hp hi
  unfold InRange
  rwa [show slot p i + k - slot p i = k by grind]

/-- Memories that agree on a page have the same words there. -/
theorem Agree.slot {d : UInt32 → Prop} {m m' : Ram} (h : Agree d m m') {p : UInt32} {i : Nat}
    (hp : p % 4096 = 0) (hi : i < 1024) (page : ∀ x, frame x = p → d x) :
    Memory.load32 m' (slot p i) = Memory.load32 m (slot p i) := by
  apply h.word
  intro k hk
  exact page _ (frame_slot hp hi hk)

theorem store32_slot_agree (m : Ram) {p : UInt32} {i : Nat} (v : UInt32) (hp : p % 4096 = 0)
    (hi : i < 1024) : Agree (fun x => frame x ≠ p) m (store32 m (slot p i) v) :=
  (store32_agree m _ v).mono fun _ hx inside => hx (frame_of_inRange_slot hp hi inside)

theorem load32_store32_slot (m : Ram) {p : UInt32} {i j : Nat} (v : UInt32) (hp : p % 4096 = 0)
    (hi : i < 1024) (hj : j < 1024) :
    load32 (store32 m (slot p i) v) (slot p j) = if j = i then v else load32 m (slot p j) := by
  by_cases same : j = i
  · rw [if_pos same, same, load32_store32_same]
  · have h := aligned_toNat.mp hp
    have hlt := p.toNat_lt
    have hpi := slot_toNat hp hi
    have hpj := slot_toNat hp hj
    have far (k : UInt32) (hk : k.toNat < 4) : ¬ InRange (slot p j + k) (slot p i) 4 := by
      rw [inRange_iff (by omega), UInt32.toNat_add]
      omega
    rw [if_neg same]
    exact (store32_agree m (slot p i) v).word far

end PeachOs.Memory
