import PeachOs.Gdt
import PeachOs.InterruptEntry
import PeachOs.Lib.Protection
import PeachOs.Lib.Segments

/-!
# The tables `kernel_main` gives the processor

Segments, interrupt gates and the task state segment as bytes of the kernel's image,
and where the processor goes with them when a user program is interrupted.
-/

namespace PeachOs

open Memory Address X86
open Function (update)

/-- The objects of the image that are written or read here. -/
inductive Symbol
  | gdt | lgdtDescriptor | idtDescriptorTable | idtr | tss | interruptFuncAddresses
  deriving DecidableEq

def Symbol.size : Symbol → Nat
  | gdt => 48
  | lgdtDescriptor => 6
  | idtDescriptorTable => 4096
  | idtr => 6
  | tss => 100
  | interruptFuncAddresses => 2048

/-- The image as it is linked, from 1M on and below the stacks of the programs. The stack of
`kernel_main`, below 2M, is not modelled: an image that reaches into it would be overwritten. -/
structure KernelImage where
  address : Symbol → UInt32
  isr80hWrapper : UInt32
  apart : ∀ s t, s ≠ t → (address s).toNat + s.size ≤ (address t).toNat ∨ (address t).toNat + t.size ≤ (address s).toNat
  low : ∀ s, 0x100000 ≤ (address s).toNat ∧ (address s).toNat + s.size ≤ 0x3fb000

/-! ## The functions -/

def setupInterruptHandler (m : Ram) (table : UInt32) (intID : Nat) (ptr : UInt32) : Ram :=
  let idtEntryPtr := table + .ofNat (8 * intID)
  let m := store16 m idtEntryPtr (ptr &&& 0xffff).toUInt16
  let m := store16 m (idtEntryPtr + 2) kernelCodeSelector
  let m := update m (idtEntryPtr + 4) 0
  let m := update m (idtEntryPtr + 5) 0xee
  store16 m (idtEntryPtr + 6) (ptr >>> 16).toUInt16

/-- The loop of `idtInit` from entry `i` on. -/
def idtEntriesFrom (m : Ram) (table funcs : UInt32) : (left i : Nat) → Ram
  | 0, _ => m
  | left + 1, i =>
    idtEntriesFrom (setupInterruptHandler m table i (load32 m (funcs + .ofNat (4 * i)))) table funcs left (i + 1)

namespace KernelImage

variable (image : KernelImage)

/-- The last step is `load_idt`. -/
def idtInit (m : Ram) : Ram × Region :=
  let table := image.address .idtDescriptorTable
  let idtr := image.address .idtr
  let m := memset m table 0 4096
  let m := store16 m idtr 4095
  let m := store32 m (idtr + 2) table
  let m := idtEntriesFrom m table (image.address .interruptFuncAddresses) peachosTotalInterrupts 0
  let m := setupInterruptHandler m table 0x80 image.isr80hWrapper
  (m, regionAt m idtr)

def gdtLoad (m : Ram) (gdt : UInt32) (size : Int) : Ram × Region :=
  let m := store32 m (image.address .lgdtDescriptor + 2) gdt
  let m := store16 m (image.address .lgdtDescriptor) (.ofInt size)
  (m, regionAt m (image.address .lgdtDescriptor))

/-- `gdt_structured`. -/
def gdtStructured : Nat → GdtStructured
  | 5 => ⟨image.address .tss, 100, 0xe9⟩
  | n => kernelSegments n

/-- The first lines of `kernel_main`. -/
def gdtInit (m : Ram) : Option (Ram × Region) := do
  let gdt := image.address .gdt
  let m := memset m gdt 0 48
  let mem ← gdtStructuredToGdt (bytesAt m gdt) image.gdtStructured 6
  some (image.gdtLoad (fun x => if InRange x gdt 48 then mem (x - gdt).toNat else m x) gdt 47)

def tssInit (m : Ram) : Ram :=
  let tss := image.address .tss
  let m := memset m tss 0 100
  let m := store32 m (tss + 4) tssEsp0
  store32 m (tss + 8) kernelDataSelector.toUInt32

end KernelImage

/-- `ltr` marks the segment as busy. Without a free task state segment it faults. -/
def tssLoad (m : Ram) (gdtr : Region) (tssSegment : UInt16) : Option (Ram × Region) := do
  let place ← gdtr.descriptor tssSegment
  let mem := bytesAt m gdtr.base
  let access := mem (place + 5)
  if isPresent access ∧ isFreeTask access then
    some (update m (gdtr.base + .ofNat (place + 5)) (access ||| 2), ⟨.ofNat (segmentBase mem place), segmentLimit mem place⟩)
  else none

/-- `kernel_main` from its start to `tss_load`. `work` is what the heap, the file
systems and the disk do in between. -/
def KernelImage.tablesInit (image : KernelImage) (work : Ram → Ram) (m : Ram) : Option (Ram × Tables) := do
  let (m, gdtr) ← image.gdtInit m
  let (m, idtr) := image.idtInit (work m)
  let (m, tr) ← tssLoad (image.tssInit m) gdtr 0x28
  some (m, ⟨gdtr, idtr, tr⟩)

/-! ## Bytes of words -/

section

variable {m m' : Ram} {p : UInt32}

theorem bytesAt_add (m : Ram) (p : UInt32) (i k : Nat) : bytesAt m (p + .ofNat i) k = bytesAt m p (i + k) := by
  rw [bytesAt, bytesAt, UInt32.ofNat_add, UInt32.add_assoc]

theorem word_bytesAt (m : Ram) (p : UInt32) (i : Nat) : word (bytesAt m p) i = load32 m (p + .ofNat i) := by
  have next (k : Nat) : bytesAt m p (i + k) = m (p + .ofNat i + .ofNat k) := (bytesAt_add m p i k).symm
  rw [word, next, next, next, load32]
  rfl

theorem halves_join (low high : UInt8) :
    (UInt16.ofNat (low.toNat + 2 ^ 8 * high.toNat)).toNat = low.toNat + 2 ^ 8 * high.toNat := by
  have hl := low.toNat_lt
  have hh := high.toNat_lt
  rw [UInt16.toNat_ofNat']
  omega

theorem half_of_bytes (v : UInt16) : UInt16.ofNat (v.toUInt8.toNat + 2 ^ 8 * (v >>> 8).toUInt8.toNat) = v := by
  have hv := v.toNat_lt
  apply UInt16.toNat_inj.mp
  rw [halves_join, UInt16.toNat_toUInt8, UInt16.toNat_toUInt8, UInt16.toNat_shiftRight, Nat.shiftRight_eq_div_pow]
  have eight : (8 : UInt16).toNat % 16 = 8 := rfl
  rw [eight]
  omega

theorem half_store16 (m : Ram) (p : UInt32) (v : UInt16) : half (bytesAt (store16 m p v) p) 0 = v := by
  have filled := (store16_filled m p v).inside
  have first : bytesAt (store16 m p v) p 0 = v.toUInt8 := filled 0 (by decide)
  have second : bytesAt (store16 m p v) p (0 + 1) = (v >>> 8).toUInt8 := filled 1 (by decide)
  rw [half, first, second, half_of_bytes]

/-- The first two bytes of a word. -/
theorem half_store32 (m : Ram) (p v : UInt32) : half (bytesAt (store32 m p v) p) 0 = v.toUInt16 := by
  have first : bytesAt (store32 m p v) p 0 = v.toUInt16.toUInt8 := by
    simp [bytesAt, store32]
  have second : bytesAt (store32 m p v) p (0 + 1) = (v.toUInt16 >>> 8).toUInt8 := by
    have low : (v.toUInt16 >>> 8).toUInt8 = (v >>> 8).toUInt8 := by
      apply UInt8.toNat_inj.mp
      simp only [UInt16.toNat_toUInt8, UInt16.toNat_shiftRight, UInt32.toNat_toUInt8, UInt32.toNat_shiftRight,
        UInt32.toNat_toUInt16, Nat.shiftRight_eq_div_pow, UInt16.reduceToNat, UInt32.reduceToNat, Nat.reduceMod]
      omega
    rw [low]
    simp [bytesAt, store32]
  rw [half, first, second, half_of_bytes]

/-- The bytes that are read lie where the memories agree. -/
theorem half_agree {d : UInt32 → Prop} (same : Agree d m m') {i : Nat} (first : d (p + .ofNat i))
    (second : d (p + .ofNat (i + 1))) : half (bytesAt m' p) i = half (bytesAt m p) i := by
  rw [half, half, bytesAt, bytesAt, bytesAt, bytesAt, same _ first, same _ second]

end

/-! ## One gate -/

/-- Entry `i` of the table at `table` leads to `ptr` in the kernel's code, and may be
used from every ring. -/
structure GateTo (m : Ram) (table : UInt32) (i : Nat) (ptr : UInt32) : Prop where
  selector : half (bytesAt m table) (8 * i + 2) = kernelCodeSelector
  access : bytesAt m table (8 * i + 5) = 0xee
  offset : .ofNat ((half (bytesAt m table) (8 * i)).toNat + 2 ^ 16 * (half (bytesAt m table) (8 * i + 6)).toNat) = ptr

theorem offset_halves (ptr : UInt32) :
    UInt32.ofNat ((ptr &&& 0xffff).toUInt16.toNat + 2 ^ 16 * (ptr >>> 16).toUInt16.toNat) = ptr := by
  have bound := ptr.toNat_lt
  have mask : (0xffff : UInt32).toNat = 2 ^ 16 - 1 := rfl
  have shift : (16 : UInt32).toNat % 32 = 16 := rfl
  apply UInt32.toNat_inj.mp
  rw [UInt32.toNat_ofNat', UInt32.toNat_toUInt16, UInt32.toNat_toUInt16, UInt32.toNat_and, UInt32.toNat_shiftRight,
    mask, Nat.and_two_pow_sub_one_eq_mod, Nat.shiftRight_eq_div_pow, shift]
  omega

/-- The eight bytes of an entry, stored field by field. -/
theorem entry_stores (m : Ram) (e : UInt32) (low high : UInt16) :
    let m' := store16 (update (update (store16 (store16 m e low) (e + 2) kernelCodeSelector) (e + 4) 0) (e + 5) 0xee)
      (e + 6) high
    half (bytesAt m' e) 0 = low ∧ half (bytesAt m' e) 2 = kernelCodeSelector ∧ bytesAt m' e 5 = 0xee ∧
      half (bytesAt m' e) 6 = high := by
  refine ⟨?_, ?_, ?_, ?_⟩
  · simpa [half, bytesAt, store16, UInt32.add_assoc] using half_of_bytes low
  · simpa [half, bytesAt, store16, UInt32.add_assoc] using half_of_bytes kernelCodeSelector
  · simp [bytesAt, store16, UInt32.add_assoc]
  · simpa [half, bytesAt, store16, UInt32.add_assoc] using half_of_bytes high

theorem half_bytesAt_add (m : Ram) (p : UInt32) (i k : Nat) :
    half (bytesAt m (p + .ofNat i)) k = half (bytesAt m p) (i + k) := by
  rw [half, half, bytesAt_add, bytesAt_add, Nat.add_assoc]

theorem setupInterruptHandler_gate (m : Ram) (table : UInt32) (i : Nat) (ptr : UInt32) :
    GateTo (setupInterruptHandler m table i ptr) table i ptr := by
  obtain ⟨low, selector, access, high⟩ := entry_stores m (table + .ofNat (8 * i)) (ptr &&& 0xffff).toUInt16
    (ptr >>> 16).toUInt16
  rw [half_bytesAt_add] at low selector high
  rw [bytesAt_add] at access
  refine ⟨selector, access, ?_⟩
  rw [Nat.add_zero] at low
  unfold setupInterruptHandler
  rw [low, high, offset_halves]

/-- Only the entry's bytes are stored to. -/
theorem setupInterruptHandler_frame (m : Ram) (table : UInt32) (i : Nat) (ptr : UInt32) :
    Agree (fun x => ¬ InRange x (table + .ofNat (8 * i)) 8) m (setupInterruptHandler m table i ptr) := by
  intro x off
  generalize entry : table + .ofNat (8 * i) = e at off
  have apart (k : Nat) (hk : k < 8) : x ≠ e + .ofNat k := by
    rintro rfl
    exact off ((inRange_add (by omega)).mpr hk)
  have first : x ≠ e := by simpa using apart 0 (by decide)
  have b1 : x ≠ e + 1 := apart 1 (by decide)
  have b2 : x ≠ e + 2 := apart 2 (by decide)
  have b3 : x ≠ e + 3 := apart 3 (by decide)
  have b4 : x ≠ e + 4 := apart 4 (by decide)
  have b5 : x ≠ e + 5 := apart 5 (by decide)
  have b6 : x ≠ e + 6 := apart 6 (by decide)
  have b7 : x ≠ e + 7 := apart 7 (by decide)
  unfold setupInterruptHandler
  rw [entry]
  simp [store16, UInt32.add_assoc, first, b1, b2, b3, b4, b5, b6, b7]

/-! ## The table -/

theorem GateTo.of_eq {m m' : Ram} {table ptr : UInt32} {i : Nat} (gate : GateTo m table i ptr)
    (same : ∀ k < 8, bytesAt m' table (8 * i + k) = bytesAt m table (8 * i + k)) : GateTo m' table i ptr := by
  have first : half (bytesAt m' table) (8 * i) = half (bytesAt m table) (8 * i) := by
    have low := same 0 (by decide)
    rw [Nat.add_zero] at low
    rw [half, half, low, same 1 (by decide)]
  have halves (k : Nat) (hk : k < 7) : half (bytesAt m' table) (8 * i + k) = half (bytesAt m table) (8 * i + k) := by
    rw [half, half, Nat.add_assoc, same k (by omega), same (k + 1) (by omega)]
  constructor
  · rw [halves 2 (by decide), gate.selector]
  · rw [same 5 (by decide), gate.access]
  · rw [first, halves 6 (by decide), gate.offset]

/-- An entry's bytes are the table's. -/
theorem entry_inRange {x table : UInt32} {i : Nat} (hi : i < 512) (inside : InRange x (table + .ofNat (8 * i)) 8) :
    InRange x table 4096 :=
  (inRange_offset 4096 inside (by omega) (by decide)).2

/-- Other entries stay. -/
theorem setupInterruptHandler_other (m : Ram) (table : UInt32) {i j : Nat} (hi : i < 512) (ptr : UInt32)
    (hj : j < 4096) (other : j < 8 * i ∨ 8 * i + 8 ≤ j) :
    bytesAt (setupInterruptHandler m table i ptr) table j = bytesAt m table j := by
  apply setupInterruptHandler_frame
  intro inside
  obtain ⟨distance, -⟩ := inRange_offset 4096 inside (by omega) (by decide)
  rw [offset_toNat table (by omega)] at distance
  unfold InRange at inside
  omega

/-- The loop of `idtInit`, when the addresses of the stubs are not in the table. -/
theorem idtEntriesFrom_gates (m : Ram) {table funcs : UInt32} (apart : ∀ x, InRange x table 4096 → ¬ InRange x funcs 2048)
    (left i : Nat) (all : i + left ≤ 512) :
    (∀ n, i ≤ n → n < i + left →
      GateTo (idtEntriesFrom m table funcs left i) table n (load32 m (funcs + .ofNat (4 * n)))) ∧
    Agree (fun x => ¬ InRange x table 4096) m (idtEntriesFrom m table funcs left i) ∧
    ∀ j < 8 * i, bytesAt (idtEntriesFrom m table funcs left i) table j = bytesAt m table j := by
  induction left generalizing m i with
  | zero => exact ⟨fun n lo hi => by omega, Agree.refl _ _, fun j _ => rfl⟩
  | succ left ih =>
    have here := setupInterruptHandler_gate m table i (load32 m (funcs + .ofNat (4 * i)))
    have frame := setupInterruptHandler_frame m table i (load32 m (funcs + .ofNat (4 * i)))
    have before (j : Nat) (hj : j < 8 * i) := setupInterruptHandler_other m table (i := i) (by omega)
      (load32 m (funcs + .ofNat (4 * i))) (j := j) (by omega) (Or.inl hj)
    rw [idtEntriesFrom]
    generalize setupInterruptHandler m table i (load32 m (funcs + .ofNat (4 * i))) = m₁ at here frame before ⊢
    have outside : Agree (fun x => ¬ InRange x table 4096) m m₁ := frame.mono fun x off inside =>
      off (entry_inRange (by omega) inside)
    obtain ⟨gates, others, below⟩ := ih m₁ (i + 1) (by omega)
    refine ⟨fun n lo hi => ?_, outside.trans others, fun j hj => ?_⟩
    · by_cases first : n = i
      · subst first
        exact here.of_eq fun k hk => below _ (by omega)
      · -- the address of a later stub has not been touched
        have address : load32 m₁ (funcs + .ofNat (4 * n)) = load32 m (funcs + .ofNat (4 * n)) := by
          apply outside.word
          intro k hk inTable
          apply apart _ inTable
          have part : InRange (funcs + .ofNat (4 * n) + k) (funcs + .ofNat (4 * n)) 4 := by
            have back : funcs + .ofNat (4 * n) + k - (funcs + .ofNat (4 * n)) = k := by grind
            rwa [InRange, back]
          exact (inRange_offset 2048 part (by omega) (by decide)).2
        rw [← address]
        exact gates n (by omega) (by omega)
    · rw [below j (by omega), before j hj]

namespace KernelImage

variable (image : KernelImage)

def On (s : Symbol) (x : UInt32) : Prop := InRange x (image.address s) s.size

variable {image : KernelImage} {s t : Symbol} {x : UInt32}

theorem on_iff : image.On s x ↔
    (image.address s).toNat ≤ x.toNat ∧ x.toNat < (image.address s).toNat + s.size := by
  have high := (image.low s).2
  exact inRange_iff (by omega)

theorem On.off (on : image.On s x) (ne : s ≠ t) : ¬ image.On t x := by
  rw [on_iff] at on ⊢
  have apart := image.apart s t ne
  omega

theorem on_offset {i : Nat} (hi : i < s.size) : image.On s (image.address s + .ofNat i) := by
  have fits : s.size ≤ 4096 := by cases s <;> decide
  exact (inRange_add (by omega)).mpr hi

theorem on_of_word {i : Nat} (hi : i + 4 ≤ s.size) {k : UInt32} (hk : k.toNat < 4) :
    image.On s (image.address s + .ofNat i + k) := by
  have fits : s.size ≤ 4096 := by cases s <;> decide
  have place : image.address s + .ofNat i + k = image.address s + .ofNat (i + k.toNat) := by
    rw [UInt32.ofNat_add, UInt32.ofNat_toNat, UInt32.add_assoc]
  rw [place]
  exact on_offset (by omega)

/-- Four stored bytes that lie in an object. -/
theorem store32_on (m : Ram) {i : Nat} (hi : i + 4 ≤ s.size) (v : UInt32) :
    Agree (fun x => ¬ image.On s x) m (store32 m (image.address s + .ofNat i) v) := by
  have fits : s.size ≤ 4096 := by cases s <;> decide
  exact (store32_agree m _ v).mono fun x off inside => off (inRange_offset s.size inside hi (by omega)).2

theorem store16_on (m : Ram) (two : 2 ≤ s.size) (v : UInt16) :
    Agree (fun x => ¬ image.On s x) m (store16 m (image.address s) v) :=
  (store16_filled m _ v).outside.mono fun _ off inside => off (Nat.lt_of_lt_of_le inside two)

theorem load32_same {m m' : Ram} {d : UInt32 → Prop} (same : Agree d m m') (there : ∀ x, image.On s x → d x) {i : Nat}
    (hi : i + 4 ≤ s.size) : load32 m' (image.address s + .ofNat i) = load32 m (image.address s + .ofNat i) :=
  same.word fun _ hk => there _ (on_of_word hi hk)

theorem bytesAt_same {m m' : Ram} {d : UInt32 → Prop} (same : Agree d m m') (there : ∀ x, image.On s x → d x) {i : Nat}
    (hi : i < s.size) : bytesAt m' (image.address s) i = bytesAt m (image.address s) i :=
  same _ (there _ (on_offset hi))

theorem half_same {m m' : Ram} {d : UInt32 → Prop} (same : Agree d m m') (there : ∀ x, image.On s x → d x) {i : Nat}
    (hi : i + 1 < s.size) : half (bytesAt m' (image.address s)) i = half (bytesAt m (image.address s)) i := by
  rw [half, half, bytesAt_same same there (by omega), bytesAt_same same there hi]

theorem regionAt_same {m m' : Ram} (six : s.size = 6) (same : Agree (image.On s) m m') :
    regionAt m' (image.address s) = regionAt m (image.address s) := by
  rw [regionAt, regionAt, word_bytesAt, word_bytesAt, load32_same same (fun _ => id) (by omega),
    half_same same (fun _ => id) (by omega)]

end KernelImage

/-- The two bytes before a word. -/
theorem regionAt_limit_first (m : Ram) (p base : UInt32) (limit : UInt16) :
    regionAt (store32 (store16 m p limit) (p + 2) base) p = ⟨base, limit.toNat⟩ := by
  have off (k : Nat) (hk : k < 2) : ¬ InRange (p + .ofNat k) (p + .ofNat 2) 4 := by
    intro inside
    obtain ⟨distance, -⟩ := inRange_offset 6 inside (by decide) (by decide)
    rw [offset_toNat p (by omega)] at distance
    omega
  have kept := store32_agree (store16 m p limit) (p + 2) base
  have first : half (bytesAt (store32 (store16 m p limit) (p + 2) base) p) 0 = limit :=
    (half_agree kept (off 0 (by decide)) (off 1 (by decide))).trans (half_store16 m p limit)
  have second : word (bytesAt (store32 (store16 m p limit) (p + 2) base) p) 2 = base :=
    (word_bytesAt _ p 2).trans (load32_store32_same _ (p + 2) base)
  rw [regionAt, first, second]

theorem regionAt_base_first (m : Ram) (p base : UInt32) (limit : UInt16) :
    regionAt (store16 (store32 m (p + 2) base) p limit) p = ⟨base, limit.toNat⟩ := by
  have kept := (store16_filled (store32 m (p + 2) base) p limit).outside
  have second : word (bytesAt (store16 (store32 m (p + 2) base) p limit) p) 2 = base := by
    rw [word_bytesAt, kept.word fun k hk => ?_]
    · exact load32_store32_same m (p + 2) base
    · have distance : p + 2 + k - p = 2 + k := by grind
      rw [InRange, show p + UInt32.ofNat 2 + k - p = 2 + k from distance, UInt32.toNat_add]
      have two : (2 : UInt32).toNat = 2 := rfl
      omega
  rw [regionAt, half_store16, second]

namespace KernelImage

variable {image : KernelImage}

/-! ## The interrupt table -/

/-- The handler of a vector, in memory that holds the addresses of the stubs. -/
def stub (image : KernelImage) (m : Ram) (i : Nat) : UInt32 :=
  if i = 0x80 then image.isr80hWrapper else load32 m (image.address .interruptFuncAddresses + .ofNat (4 * i))

theorem idtInit_right (image : KernelImage) (m : Ram) :
    (image.idtInit m).2 = ⟨image.address .idtDescriptorTable, 4095⟩ ∧
    (∀ i < 512, GateTo (image.idtInit m).1 (image.address .idtDescriptorTable) i (image.stub m i)) ∧
    Agree (fun x => ¬ image.On .idtDescriptorTable x ∧ ¬ image.On .idtr x) m (image.idtInit m).1 := by
  unfold idtInit peachosTotalInterrupts
  dsimp only
  have cleared := memset_agree m (image.address .idtDescriptorTable) 0 4096 (by decide)
  generalize memset m (image.address .idtDescriptorTable) 0 4096 = m₁ at cleared ⊢
  have limit : Agree (fun x => ¬ image.On .idtr x) m₁ (store16 m₁ (image.address .idtr) 4095) :=
    store16_on m₁ (by decide) 4095
  have base : Agree (fun x => ¬ image.On .idtr x) (store16 m₁ (image.address .idtr) 4095)
      (store32 (store16 m₁ (image.address .idtr) 4095) (image.address .idtr + 2) (image.address .idtDescriptorTable)) :=
    store32_on (s := .idtr) (i := 2) _ (by decide) _
  have region := regionAt_limit_first m₁ (image.address .idtr) (image.address .idtDescriptorTable) 4095
  have stored := limit.trans base
  generalize store32 (store16 m₁ (image.address .idtr) 4095) (image.address .idtr + 2)
    (image.address .idtDescriptorTable) = m₂ at region stored ⊢
  have apart : ∀ x, InRange x (image.address .idtDescriptorTable) 4096 →
      ¬ InRange x (image.address .interruptFuncAddresses) 2048 := fun x inside =>
    On.off (s := .idtDescriptorTable) (t := .interruptFuncAddresses) inside (by decide)
  obtain ⟨gates, filled, -⟩ := idtEntriesFrom_gates m₂ apart 512 0 (by decide)
  generalize idtEntriesFrom m₂ (image.address .idtDescriptorTable) (image.address .interruptFuncAddresses) 512 0 = m₃
    at gates filled ⊢
  have last := setupInterruptHandler_gate m₃ (image.address .idtDescriptorTable) 0x80 image.isr80hWrapper
  have frame := (setupInterruptHandler_frame m₃ (image.address .idtDescriptorTable) 0x80 image.isr80hWrapper).mono
    fun x (off : ¬ image.On .idtDescriptorTable x) inside => off (entry_inRange (by decide) inside)
  have table : Agree (fun x => ¬ image.On .idtDescriptorTable x) m₂ _ := filled.trans frame
  have before : Agree (fun x => ¬ image.On .idtDescriptorTable x ∧ ¬ image.On .idtr x) m m₂ := fun x off =>
    (stored x off.2).trans (cleared x off.1)
  refine ⟨?_, fun i hi => ?_, before.trans (table.mono fun x off => off.1)⟩
  · exact (regionAt_same rfl (table.mono fun x on => on.off (by decide))).trans region
  · by_cases wrapper : i = 0x80
    · rw [wrapper]
      exact last
    · rw [stub, if_neg wrapper]
      have address : load32 m₂ (image.address .interruptFuncAddresses + .ofNat (4 * i)) =
          load32 m (image.address .interruptFuncAddresses + .ofNat (4 * i)) := by
        apply load32_same before fun x on => ⟨on.off (by decide), on.off (by decide)⟩
        show 4 * i + 4 ≤ 2048
        omega
      rw [← address]
      apply (gates i (Nat.zero_le i) (by omega)).of_eq
      intro k hk
      exact setupInterruptHandler_other m₃ _ (by decide) _ (by omega) (by omega)

/-! ## The segments -/

theorem gdtStructured_kernel (image : KernelImage) {n : Nat} (other : n ≠ 5) :
    image.gdtStructured n = kernelSegments n := by
  unfold gdtStructured
  split
  · exact absurd rfl other
  · rfl

theorem gdtStructured_fits (image : KernelImage) (n : Nat) (lo : 1 ≤ n) (hi : n < 6) :
    ¬ LimitRefused (image.gdtStructured n) := by
  rintro ⟨large, refused⟩
  by_cases task : n = 5
  · subst task
    exact absurd large (by simp [gdtStructured])
  · have cases : n = 1 ∨ n = 2 ∨ n = 3 ∨ n = 4 := by omega
    rw [gdtStructured_kernel image task] at refused
    rcases cases with rfl | rfl | rfl | rfl <;> exact absurd refused (by decide)

theorem gdtInit_right (image : KernelImage) (m : Ram) :
    ∃ m', image.gdtInit m = some (m', ⟨image.address .gdt, 47⟩) ∧
      (∀ n, 1 ≤ n → n < 6 → Decodes (bytesAt m' (image.address .gdt)) (sizeofGdt * n) (image.gdtStructured n)) ∧
      Agree (fun x => ¬ image.On .gdt x ∧ ¬ image.On .lgdtDescriptor x) m m' := by
  have cleared := memset_agree m (image.address .gdt) 0 48 (by decide)
  obtain ⟨mem, run, decodes, -⟩ := gdtEntriesFrom_decodes (bytesAt (memset m (image.address .gdt) 0 48) (image.address .gdt))
    image.gdtStructured 5 1 fun n lo hi => image.gdtStructured_fits n lo hi
  have run' : gdtStructuredToGdt (bytesAt (memset m (image.address .gdt) 0 48) (image.address .gdt)) image.gdtStructured 6 =
      some mem := run
  unfold gdtInit
  dsimp only
  rw [run', Option.bind_eq_bind, Option.bind_some]
  generalize memset m (image.address .gdt) 0 48 = m₁ at cleared ⊢
  have spliced (i : Nat) (hi : i < 48) : bytesAt (fun x => if InRange x (image.address .gdt) 48 then
      mem (x - image.address .gdt).toNat else m₁ x) (image.address .gdt) i = mem i := by
    rw [bytesAt, if_pos ((inRange_add (by omega)).mpr hi), offset_toNat _ (by omega)]
  have outside : Agree (fun x => ¬ image.On .gdt x) m₁ (fun x => if InRange x (image.address .gdt) 48 then
      mem (x - image.address .gdt).toNat else m₁ x) := fun x off => if_neg off
  generalize (fun x => if InRange x (image.address .gdt) 48 then mem (x - image.address .gdt).toNat else m₁ x) = m₂
    at spliced outside ⊢
  have base : Agree (fun x => ¬ image.On .lgdtDescriptor x) m₂
      (store32 m₂ (image.address .lgdtDescriptor + 2) (image.address .gdt)) :=
    store32_on (s := .lgdtDescriptor) (i := 2) m₂ (by decide) _
  have stored : Agree (fun x => ¬ image.On .lgdtDescriptor x) m₂ (image.gdtLoad m₂ (image.address .gdt) 47).1 :=
    base.trans (store16_on (s := .lgdtDescriptor) _ (by decide) _)
  have region : (image.gdtLoad m₂ (image.address .gdt) 47).2 = ⟨image.address .gdt, 47⟩ :=
    regionAt_base_first m₂ (image.address .lgdtDescriptor) (image.address .gdt) (.ofInt 47)
  refine ⟨(image.gdtLoad m₂ (image.address .gdt) 47).1, ?_, fun n lo hi => ?_, fun x off => ?_⟩
  · rw [← region]
  · apply (decodes n lo (by omega)).of_eq
    intro j lower upper
    have inside : j < 48 := by
      unfold sizeofGdt at upper
      omega
    rw [← spliced j inside]
    exact bytesAt_same (s := .gdt) stored (fun x on => on.off (by decide)) inside
  · exact ((stored x off.2).trans (outside x off.1)).trans (cleared x off.1)

/-! ## The task state segment -/

theorem tssInit_right (image : KernelImage) (m : Ram) :
    word (bytesAt (image.tssInit m) (image.address .tss)) 4 = tssEsp0 ∧
    half (bytesAt (image.tssInit m) (image.address .tss)) 8 = kernelDataSelector ∧
    Agree (fun x => ¬ image.On .tss x) m (image.tssInit m) := by
  unfold tssInit
  dsimp only
  have cleared : Agree (fun x => ¬ image.On .tss x) m (memset m (image.address .tss) 0 100) :=
    memset_agree m (image.address .tss) 0 100 (by decide)
  generalize memset m (image.address .tss) 0 100 = m₁ at cleared ⊢
  have esp : Agree (fun x => ¬ image.On .tss x) m₁ (store32 m₁ (image.address .tss + 4) tssEsp0) :=
    store32_on (s := .tss) (i := 4) m₁ (by decide) tssEsp0
  have first : load32 (store32 m₁ (image.address .tss + 4) tssEsp0) (image.address .tss + 4) = tssEsp0 :=
    load32_store32_same m₁ _ _
  generalize store32 m₁ (image.address .tss + 4) tssEsp0 = m₂ at esp first ⊢
  have ss : Agree (fun x => ¬ image.On .tss x) m₂ (store32 m₂ (image.address .tss + 8) kernelDataSelector.toUInt32) :=
    store32_on (s := .tss) (i := 8) m₂ (by decide) _
  refine ⟨?_, ?_, cleared.trans (esp.trans ss)⟩
  · rw [word_bytesAt, ← first]
    apply (store32_agree m₂ (image.address .tss + 8) _).word
    intro k hk inside
    have distance : image.address .tss + 4 + k - (image.address .tss + 8) = k - 4 := by grind
    rw [InRange, show image.address .tss + UInt32.ofNat 4 + k - (image.address .tss + 8) = k - 4 from distance,
      toNat_sub] at inside
    have four : (4 : UInt32).toNat = 4 := rfl
    omega
  · have low := half_store32 m₂ (image.address .tss + .ofNat 8) kernelDataSelector.toUInt32
    rw [half_bytesAt_add] at low
    exact low

/-- The segment's descriptor is marked as busy, and nothing else changes. -/
theorem tssLoad_right (image : KernelImage) {m : Ram}
    (decodes : Decodes (bytesAt m (image.address .gdt)) 40 (image.gdtStructured 5)) :
    tssLoad m ⟨image.address .gdt, 47⟩ 0x28 =
      some (update m (image.address .gdt + .ofNat 45) 0xeb, ⟨image.address .tss, 100⟩) := by
  have named : Region.descriptor ⟨image.address .gdt, 47⟩ 0x28 = some 40 := by
    simp [Region.descriptor]
  have access : bytesAt m (image.address .gdt) 45 = 0xe9 := decodes.type
  have base : segmentBase (bytesAt m (image.address .gdt)) 40 = (image.address .tss).toNat := decodes.base
  have limit : segmentLimit (bytesAt m (image.address .gdt)) 40 = 100 := decodes.limit
  have available : isPresent 0xe9 ∧ isFreeTask 0xe9 := by decide
  unfold tssLoad
  rw [named, Option.bind_eq_bind, Option.bind_some]
  dsimp only
  rw [access, base, limit, if_pos available, UInt32.ofNat_toNat]
  rfl

/-! ## Interrupted programs -/

/-- Memory and registers hold the tables; `stub` names the handlers. -/
structure Prepared (image : KernelImage) (stub : Nat → UInt32) (m : Ram) (t : Tables) : Prop where
  gdtr : t.gdtr = ⟨image.address .gdt, 47⟩
  idtr : t.idtr = ⟨image.address .idtDescriptorTable, 4095⟩
  tr : t.tr = ⟨image.address .tss, 100⟩
  code : bytesAt m (image.address .gdt) 13 = 0x9a
  data : bytesAt m (image.address .gdt) 21 = 0x92
  gates : ∀ i < 512, GateTo m (image.address .idtDescriptorTable) i (stub i)
  esp : word (bytesAt m (image.address .tss)) 4 = tssEsp0
  ss : half (bytesAt m (image.address .tss)) 8 = kernelDataSelector

/-- The set-up has a result, and it is the tables. -/
theorem tablesInit_prepared (image : KernelImage) (work : Ram → Ram)
    (kept : ∀ m, Agree (fun x => image.On .gdt x ∨ image.On .interruptFuncAddresses x) m (work m)) (m : Ram) :
    ∃ m' t, image.tablesInit work m = some (m', t) ∧ Prepared image (image.stub m) m' t := by
  obtain ⟨m₁, gdt, decodes, first⟩ := image.gdtInit_right m
  have worked := kept m₁
  obtain ⟨idtr, gates, second⟩ := image.idtInit_right (work m₁)
  obtain ⟨esp, ss, third⟩ := image.tssInit_right (image.idtInit (work m₁)).1
  unfold tablesInit
  rw [gdt, Option.bind_eq_bind, Option.bind_some]
  dsimp only
  rw [idtr]
  generalize work m₁ = m₂ at worked gates second third esp ss ⊢
  generalize (image.idtInit m₂).1 = m₃ at gates second third esp ss ⊢
  generalize image.tssInit m₃ = m₄ at third esp ss ⊢
  have byte (j : Nat) (hj : j < 48) : bytesAt m₄ (image.address .gdt) j = bytesAt m₁ (image.address .gdt) j := by
    have later : Agree (image.On .gdt) m₁ m₄ := (worked.mono fun x on => Or.inl on).trans
      ((second.mono fun x on => ⟨on.off (by decide), on.off (by decide)⟩).trans
        (third.mono fun x on => on.off (by decide)))
    exact bytesAt_same (s := .gdt) later (fun _ => id) hj
  have segment (n : Nat) (lo : 1 ≤ n) (hi : n < 6) :
      Decodes (bytesAt m₄ (image.address .gdt)) (sizeofGdt * n) (image.gdtStructured n) :=
    (decodes n lo hi).of_eq fun j _ upper => byte j (by unfold sizeofGdt at upper; omega)
  have task := image.tssLoad_right (segment 5 (by decide) (by decide))
  rw [task, Option.bind_some]
  -- the byte that is marked is none of those that count
  have marked : Agree (fun x => x ≠ image.address .gdt + .ofNat 45) m₄
      (update m₄ (image.address .gdt + .ofNat 45) 0xeb) := fun x other => Function.update_of_ne other _ _
  have busy : image.On .gdt (image.address .gdt + .ofNat 45) := on_offset (by decide)
  have off {s : Symbol} (ne : s ≠ .gdt) (x : UInt32) (on : image.On s x) : x ≠ image.address .gdt + .ofNat 45 := by
    rintro rfl
    exact on.off ne busy
  have access (n : Nat) (hn : n < 45) : bytesAt (update m₄ (image.address .gdt + .ofNat 45) 0xeb)
      (image.address .gdt) n = bytesAt m₄ (image.address .gdt) n :=
    marked _ (offset_ne (by omega) (by decide) (by omega))
  refine ⟨_, _, rfl, ⟨rfl, rfl, rfl, ?_, ?_, fun i hi => ?_, ?_, ?_⟩⟩
  · rw [access 13 (by decide)]
    exact (segment 1 (by decide) (by decide)).type
  · rw [access 21 (by decide)]
    exact (segment 2 (by decide) (by decide)).type
  · have same : image.stub m i = image.stub m₂ i := by
      unfold stub
      have kept : Agree (image.On .interruptFuncAddresses) m m₂ :=
        (first.mono fun x on => ⟨on.off (by decide), on.off (by decide)⟩).trans (worked.mono fun x on => Or.inr on)
      rw [load32_same (s := .interruptFuncAddresses) kept (fun _ => id) (by simp only [Symbol.size]; omega)]
    rw [same]
    apply (gates i hi).of_eq
    intro k hk
    have inside : 8 * i + k < Symbol.idtDescriptorTable.size := by
      simp only [Symbol.size]
      omega
    rw [bytesAt_same (s := .idtDescriptorTable) marked (off (by decide)) inside,
      bytesAt_same (s := .idtDescriptorTable) third (fun x on => on.off (by decide)) inside]
  · rw [word_bytesAt, load32_same (s := .tss) marked (off (by decide)) (by decide), ← word_bytesAt]
    exact esp
  · rw [half_same (s := .tss) marked (off (by decide)) (by decide)]
    exact ss

theorem Prepared.gateOf {stub : Nat → UInt32} {m : Ram} {t : Tables} (prepared : Prepared image stub m t)
    (vector : UInt8) : gateOf m t.idtr vector = some ⟨kernelCodeSelector, stub vector.toNat, 3⟩ := by
  have small := vector.toNat_lt
  obtain ⟨selector, access, offset⟩ := prepared.gates vector.toNat (by omega)
  have open' : isPresent 0xee ∧ isInterruptGate 0xee := by decide
  unfold X86.gateOf
  rw [prepared.idtr]
  dsimp only
  rw [access, selector, offset, if_pos ⟨by omega, open'⟩]
  rfl

/-- **In an outer ring every interrupt enters the kernel at its own stub**, on the
stack the task state segment names, whether it comes from outside, from an
exception or from `int`. -/
theorem Prepared.delivers {stub : Nat → UInt32} {m : Ram} {t : Tables} (prepared : Prepared image stub m t) {c : Cpu}
    (outer : c.cs.toNat % 4 ≠ 0) (vector : UInt8) (software : Bool) (errorCode : Option UInt32) :
    c.deliver m t vector software errorCode =
      some (c.interrupt kernelCodeSelector kernelDataSelector (stub vector.toNat) tssEsp0 errorCode) := by
  have small : c.cs.toNat % 4 ≤ 3 := by omega
  have code : innerRing m t.gdtr kernelCodeSelector (c.cs.toNat % 4) = some 0 := by
    have named : t.gdtr.descriptor kernelCodeSelector = some 8 := by
      simp [Region.descriptor, prepared.gdtr, kernelCodeSelector]
    have access : isPresent 0x9a ∧ isCode 0x9a ∧ ring 0x9a = 0 := by decide
    unfold innerRing
    rw [named, Option.bind_eq_bind, Option.bind_some, prepared.gdtr]
    dsimp only
    rw [prepared.code, access.2.2, if_pos ⟨access.1, access.2.1, by omega⟩]
  have stack : innerStack m t 0 = some (kernelDataSelector, tssEsp0) := by
    have named : t.gdtr.descriptor kernelDataSelector = some 16 := by
      simp [Region.descriptor, prepared.gdtr, kernelDataSelector]
    have access : kernelDataSelector.toNat % 4 = 0 ∧ isPresent 0x92 ∧ isWritableData 0x92 ∧ ring 0x92 = 0 := by decide
    have ss : half (bytesAt m t.tr.base) (8 * 0 + 8) = kernelDataSelector := by
      rw [prepared.tr]
      exact prepared.ss
    have esp : word (bytesAt m t.tr.base) (8 * 0 + 4) = tssEsp0 := by
      rw [prepared.tr]
      exact prepared.esp
    have limit : 8 * 0 + 9 ≤ t.tr.limit := by simp [prepared.tr]
    unfold innerStack
    rw [if_pos limit, ss]
    dsimp only
    rw [named, Option.bind_eq_bind, Option.bind_some, prepared.gdtr, prepared.data, if_pos access, esp]
  unfold Cpu.deliver
  rw [prepared.gateOf vector, Option.bind_eq_bind, Option.bind_some]
  dsimp only
  rw [if_neg (by omega), code, Option.bind_eq_bind, Option.bind_some, stack, Option.bind_eq_bind, Option.bind_some]
  rfl

/-- **What `kernel_main` sets up sends every interrupt of a program to its stub**, and
`int 0x80` to the wrapper of the commands. -/
theorem tablesInit_delivers (image : KernelImage) (work : Ram → Ram)
    (kept : ∀ m, Agree (fun x => image.On .gdt x ∨ image.On .interruptFuncAddresses x) m (work m)) (m : Ram) :
    ∃ m' t, image.tablesInit work m = some (m', t) ∧
      ∀ c : Cpu, c.cs.toNat % 4 ≠ 0 → ∀ vector software errorCode, c.deliver m' t vector software errorCode =
        some (c.interrupt kernelCodeSelector kernelDataSelector (image.stub m vector.toNat) tssEsp0 errorCode) := by
  obtain ⟨m', t, run, prepared⟩ := image.tablesInit_prepared work kept m
  exact ⟨m', t, run, fun c outer vector software errorCode => prepared.delivers outer vector software errorCode⟩

end KernelImage

/-- Objects one behind the other, from the second page of the image on. -/
def smallImage : KernelImage where
  address
    | .gdt => 0x101000
    | .lgdtDescriptor => 0x101030
    | .idtDescriptorTable => 0x102000
    | .idtr => 0x103000
    | .tss => 0x103010
    | .interruptFuncAddresses => 0x104000
  isr80hWrapper := 0x100040
  apart := by
    intro s t ne
    cases s <;> cases t <;> first | exact absurd rfl ne | decide
  low := by
    intro s
    cases s <;> decide

/-- A work that clears the block at `0x1000000` and leaves the image. -/
def clearBlock (m : Ram) (x : UInt32) : UInt8 := if 0x1000000 ≤ x ∧ x < 0x1001000 then 0 else m x

theorem clearBlock_kept (m : Ram) :
    Agree (fun x => smallImage.On .gdt x ∨ smallImage.On .interruptFuncAddresses x) m (clearBlock m) := by
  intro x inside
  have low : x.toNat < 0x1000000 := by
    rcases inside with on | on
    · have place := KernelImage.on_iff.mp on
      have top := (smallImage.low .gdt).2
      omega
    · have place := KernelImage.on_iff.mp on
      have top := (smallImage.low .interruptFuncAddresses).2
      omega
  refine if_neg fun cleared => ?_
  exact absurd (UInt32.le_iff_toNat_le.mp cleared.1) (Nat.not_le.mpr low)

/-- A command of a program that runs with the selectors of every task. -/
theorem command_enters_wrapper : ∃ m' t, smallImage.tablesInit clearBlock (fun _ => 0) = some (m', t) ∧
    userCpu.deliver m' t 0x80 true none =
      some (userCpu.interrupt kernelCodeSelector kernelDataSelector 0x100040 tssEsp0 none) := by
  obtain ⟨m', t, run, delivers⟩ := smallImage.tablesInit_delivers clearBlock clearBlock_kept fun _ => 0
  exact ⟨m', t, run, delivers userCpu (by decide) 0x80 true none⟩

end PeachOs
