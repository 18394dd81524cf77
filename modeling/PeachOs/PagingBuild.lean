import PeachOs.Paging

/-!
# A new address space

What `paging_new_4gb` builds on blocks that are apart: page `j` of table `i` is
mapped to itself, and nothing but the blocks is written.
-/

namespace PeachOs

open Memory Address

variable {H : Type*} (A : Allocator H)

/-- The sizes `paging_new_4gb` asks for: the directory, its tables, the chunk. -/
def pagingRequests (i : Nat) : UInt32 := if i ≤ 1024 then 4096 else 4

/-- The entry that maps page `j` of table `i` to itself. -/
def ownEntry (flags : UInt8) (i j : Nat) : UInt32 := .ofNat (4096 * (1024 * i + j)) ||| flags.toUInt32

theorem fillTable_spec (m : Ram) {entry : UInt32} (start : UInt32) (flags : UInt8)
    (aligned : entry % 4096 = 0) (n : Nat) (hn : n ≤ 1024) :
    Agree (fun x => frame x ≠ entry) m (fillTable m entry start flags n) ∧
      ∀ j < n, load32 (fillTable m entry start flags n) (slot entry j) =
        (start + .ofNat j * pageSizeInBytes) ||| flags.toUInt32 := by
  induction n with
  | zero => exact ⟨Agree.refl _ _, fun j hj => absurd hj (by omega)⟩
  | succ n ih =>
    obtain ⟨same, filled⟩ := ih (by omega)
    refine ⟨same.trans (store32_slot_agree _ _ aligned (by omega)), fun j hj => ?_⟩
    rw [fillTable, load32_store32_slot _ _ aligned (by omega) (by omega)]
    by_cases new : j = n
    · rw [if_pos new, new]
    · rw [if_neg new]
      exact filled j (by omega)

theorem tableStart_entry (flags : UInt8) {i j : Nat} (_ : i < 1024) :
    (UInt32.ofNat i * heapBlockSizeBytes / sizeofUnsignedInt * pageSizeInBytes +
      .ofNat j * pageSizeInBytes) ||| flags.toUInt32 = ownEntry flags i j := by
  congr 1
  apply UInt32.toNat_inj.mp
  simp only [heapBlockSizeBytes, sizeofUnsignedInt, pageSizeInBytes, UInt32.toNat_add,
    UInt32.toNat_mul, UInt32.toNat_div, UInt32.toNat_ofNat', UInt32.reduceToNat]
  omega

/-- The first `n` tables and their directory entries are in place. -/
structure TablesBuilt (m m' : Ram) (directory : UInt32) (tables : Nat → UInt32) (flags : UInt8)
    (n : Nat) : Prop where
  same : Agree (fun x => frame x ≠ directory ∧ ∀ i < n, frame x ≠ tables i) m m'
  linked : ∀ i < n, load32 m' (slot directory i) =
    tables i ||| flags.toUInt32 ||| pagingIsWriteable.toUInt32
  filled : ∀ i < n, ∀ j < 1024, load32 m' (slot (tables i) j) = ownEntry flags i j

theorem TablesBuilt.step {m m₁ m₃ : Ram} {directory : UInt32} {tables : Nat → UInt32}
    {flags : UInt8} {n : Nat} (built : TablesBuilt m m₁ directory tables flags n) (hn : n < 1024)
    (directory_aligned : directory % 4096 = 0) (table_aligned : ∀ i ≤ n, tables i % 4096 = 0)
    (apart : ∀ i ≤ n, tables i ≠ directory) (new : ∀ i < n, tables i ≠ tables n)
    (written : Agree (fun x => frame x ≠ tables n) m₁ m₃)
    (filled : ∀ j < 1024, load32 m₃ (slot (tables n) j) = ownEntry flags n j) :
    TablesBuilt m (store32 m₃ (slot directory n)
      (tables n ||| flags.toUInt32 ||| pagingIsWriteable.toUInt32)) directory tables flags (n + 1) := by
  have link := store32_slot_agree m₃
    (tables n ||| flags.toUInt32 ||| pagingIsWriteable.toUInt32) directory_aligned hn
  refine ⟨?_, fun i hi => ?_, fun i hi j hj => ?_⟩
  · intro x ⟨off, others⟩
    have old : frame x ≠ directory ∧ ∀ i < n, frame x ≠ tables i :=
      ⟨off, fun i hi => others i (by omega)⟩
    rw [link x off, written x (others n (by omega)), built.same x old]
  · rw [load32_store32_slot m₃ _ directory_aligned hn (by omega)]
    by_cases last : i = n
    · rw [if_pos last, last]
    · rw [if_neg last, written.slot directory_aligned (by omega) fun x hx => by
        rw [hx]
        exact (apart n (Nat.le_refl n)).symm]
      exact built.linked i (by omega)
  · rw [link.slot (table_aligned i (by omega)) hj fun x hx => by
      rw [hx]
      exact apart i (by omega)]
    by_cases last : i = n
    · rw [last]
      exact filled j hj
    · rw [written.slot (table_aligned i (by omega)) hj fun x hx => by
        rw [hx]
        exact new i (by omega)]
      exact built.filled i (by omega) j hj

section

variable {h : H} {total : Nat}

theorem FreshBlocks.apart (fresh : FreshBlocks A h pagingRequests total) {i j : Nat}
    (hi : i < total) (hj : j < total) (ne : i ≠ j) :
    A.pointer h pagingRequests i ≠ A.pointer h pagingRequests j :=
  fun same => ne (fresh.distinct i hi j hj same)

theorem newTables_spec (fresh : FreshBlocks A h pagingRequests total) (m : Ram) (flags : UInt8)
    (n : Nat) (hn : n ≤ 1024) (ht : n < total) :
    ∃ m', newTables A (A.after h pagingRequests 1) m (A.pointer h pagingRequests 0) flags n =
        (A.after h pagingRequests (n + 1), m') ∧
      TablesBuilt m m' (A.pointer h pagingRequests 0)
        (fun i => A.pointer h pagingRequests (i + 1)) flags n := by
  induction n with
  | zero =>
    refine ⟨m, rfl, Agree.refl _ _, ?_, ?_⟩
    · intro i hi
      omega
    · intro i hi
      omega
  | succ n ih =>
    obtain ⟨m₁, before, built⟩ := ih (by omega) (by omega)
    have size : sizeofUint32 * heapBlockSizeBytes / sizeofUnsignedInt = pagingRequests (n + 1) := by
      rw [pagingRequests, if_pos (by omega)]
      decide
    have full : (pagingRequests (n + 1)).toNat ≤ 4096 := by
      rw [← size]
      decide
    have entry_aligned := fresh.aligned (n + 1) ht
    obtain ⟨m₂, alloc, cleared⟩ :=
      kZalloc_page A (A.after h pagingRequests (n + 1)) m₁ full entry_aligned
    obtain ⟨other, filled⟩ := fillTable_spec m₂
      (UInt32.ofNat n * heapBlockSizeBytes / sizeofUnsignedInt * pageSizeInBytes) flags
      entry_aligned 1024 (by omega)
    have entries : (heapBlockSizeBytes / sizeofUnsignedInt).toNat = 1024 := by decide
    simp only [newTables, before, size, alloc, entries]
    refine ⟨_, rfl, built.step (by omega) (fresh.aligned 0 (by omega)) ?_ ?_ ?_
      (cleared.trans other) ?_⟩
    · intro i hi
      exact fresh.aligned (i + 1) (by omega)
    · intro i hi
      exact fresh.apart A (by omega) (by omega) (by omega)
    · intro i hi
      exact fresh.apart A (by omega) (by omega) (by omega)
    · intro j hj
      exact (filled j hj).trans (tableStart_entry flags (by omega))

end

/-- The flags of a directory entry are below the page size. -/
theorem flags_small (flags : UInt8) :
    (flags.toUInt32 ||| pagingIsWriteable.toUInt32).toNat < 4096 := by
  rw [UInt32.toNat_or]
  apply Nat.or_lt_two_pow (n := 12)
  · have h := flags.toNat_lt
    rw [UInt8.toNat_toUInt32]
    omega
  · decide

/-- An address space with no mapping of its own: page `j` of table `i` is itself. -/
structure Fresh4gb (m m' : Ram) (chunk directory : UInt32) (tables : Nat → UInt32)
    (flags : UInt8) : Prop where
  space : AddressSpace m' chunk directory tables
  others : Agree (fun x => ¬ OnPages chunk directory tables x) m m'
  linked : ∀ i < 1024, load32 m' (slot directory i) =
    tables i ||| flags.toUInt32 ||| pagingIsWriteable.toUInt32
  entries : ∀ i < 1024, ∀ j < 1024, tableEntry m' directory i j = ownEntry flags i j

theorem pagingNew4gb_spec {h : H} (fresh : FreshBlocks A h pagingRequests 1026) (m : Ram)
    (flags : UInt8) :
    ∃ m', pagingNew4gb A h m flags =
        (A.pointer h pagingRequests 1025, A.after h pagingRequests 1026, m') ∧
      Fresh4gb m m' (A.pointer h pagingRequests 1025) (A.pointer h pagingRequests 0)
        (fun i => A.pointer h pagingRequests (i + 1)) flags := by
  have directory_aligned := fresh.aligned 0 (by omega)
  have chunk_aligned := fresh.aligned 1025 (by omega)
  have small (i : Nat) : (pagingRequests i).toNat ≤ 4096 := by
    unfold pagingRequests
    split <;> decide
  obtain ⟨m₁, first, cleared⟩ := kZalloc_page A h m (small 0) directory_aligned
  obtain ⟨m₂, tables, built⟩ := newTables_spec A fresh m₁ flags 1024 (by omega) (by omega)
  obtain ⟨m₃, final, emptied⟩ :=
    kZalloc_page A (A.after h pagingRequests 1025) m₂ (small 1025) chunk_aligned
  have link := store32_slot_agree m₃ (A.pointer h pagingRequests 0) chunk_aligned (Nat.zero_lt_succ 1023)
  have start : slot (A.pointer h pagingRequests 1025) 0 = A.pointer h pagingRequests 1025 := by
    simp [slot]
  rw [start] at link
  have written := emptied.trans link
  have table_apart (i : Nat) (hi : i < 1024) :
      A.pointer h pagingRequests (i + 1) ≠ A.pointer h pagingRequests 0 ∧
        A.pointer h pagingRequests (i + 1) ≠ A.pointer h pagingRequests 1025 :=
    ⟨fresh.apart A (by omega) (by omega) (by omega), fresh.apart A (by omega) (by omega) (by omega)⟩
  have chunk_apart := fresh.apart A (i := 0) (j := 1025) (by omega) (by omega) (by omega)
  have linked (i : Nat) (hi : i < 1024) :=
    (written.slot directory_aligned hi fun x hx => by
      rw [hx]
      exact chunk_apart).trans (built.linked i hi)
  refine ⟨store32 m₃ (A.pointer h pagingRequests 1025) (A.pointer h pagingRequests 0), ?_, ?_⟩
  · have size : sizeofUint32 * heapBlockSizeBytes / sizeofUnsignedInt = pagingRequests 0 := by decide
    have entries : (heapBlockSizeBytes / sizeofUnsignedInt).toNat = 1024 := by decide
    have chunk : sizeofPaging4gbChunk = pagingRequests 1025 := by decide
    have start : kZalloc A h m (pagingRequests 0) =
        (A.pointer h pagingRequests 0, A.after h pagingRequests 1, m₁) := first
    have last : kZalloc A (A.after h pagingRequests 1025) m₂ (pagingRequests 1025) =
        (A.pointer h pagingRequests 1025, A.after h pagingRequests 1026, m₃) := final
    unfold pagingNew4gb
    rw [size, start]
    dsimp only
    rw [entries, tables]
    dsimp only
    rw [chunk, last]
  · have space : AddressSpace
        (store32 m₃ (A.pointer h pagingRequests 1025) (A.pointer h pagingRequests 0))
        (A.pointer h pagingRequests 1025) (A.pointer h pagingRequests 0)
        (fun i => A.pointer h pagingRequests (i + 1)) :=
      { chunk_aligned, directory_aligned, table_apart
        table_aligned := fun i hi => fresh.aligned (i + 1) (by omega)
        chunk_apart := chunk_apart
        tables_distinct := fun i hi j hj same => by
          have h := fresh.distinct (i + 1) (by omega) (j + 1) (by omega) same
          omega
        chunk_entry := load32_store32_same _ _ _
        directory_entry := fun i hi => by
          rw [linked i hi, UInt32.or_assoc]
          exact frame_or (fresh.aligned (i + 1) (by omega)) (flags_small flags) }
    refine ⟨space, ?_, linked, fun i hi j hj => ?_⟩
    · intro x off
      have apart : frame x ≠ A.pointer h pagingRequests 1025 := fun hx => off (Or.inl hx)
      have apart' : frame x ≠ A.pointer h pagingRequests 0 := fun hx => off (Or.inr (Or.inl hx))
      have apart'' : ∀ i < 1024, frame x ≠ A.pointer h pagingRequests (i + 1) :=
        fun i hi hx => off (Or.inr (Or.inr ⟨i, hi, hx⟩))
      rw [written x apart, built.same x ⟨apart', apart''⟩]
      exact cleared x apart'
    · rw [space.tableEntry hi, written.slot (fresh.aligned (i + 1) (by omega)) hj fun x hx => by
        rw [hx]
        exact (table_apart i hi).2]
      exact built.filled i hi j hj

/-- The walk of a new space ends at the page itself. -/
theorem Fresh4gb.walk {m m' : Ram} {chunk directory : UInt32} {tables : Nat → UInt32} {flags : UInt8}
    (built : Fresh4gb m m' chunk directory tables flags) (v : UInt32) :
    walk m' directory v = frame v ||| flags.toUInt32 := by
  obtain ⟨hi, hj⟩ := walk_indexes v
  rw [PeachOs.walk, built.entries _ hi _ hj, ownEntry]
  congr 1
  apply UInt32.toNat_inj.mp
  rw [frame_toNat, UInt32.toNat_ofNat']
  omega

/-- A directory whose entries are all present, writable and open to user code. -/
def OpenDirectory (m : Ram) (directory : UInt32) : Prop :=
  ∀ i < 1024, lowBits (load32 m (slot directory i)) = 7

theorem OpenDirectory.of_agree {d : UInt32 → Prop} {m m' : Ram} {directory : UInt32}
    (all : OpenDirectory m directory) (same : Agree d m m') (aligned : directory % 4096 = 0)
    (page : ∀ x, frame x = directory → d x) : OpenDirectory m' directory := by
  intro i hi
  rw [same.slot aligned hi page]
  exact all i hi

theorem Fresh4gb.openDirectory {m m' : Ram} {chunk directory : UInt32} {tables : Nat → UInt32}
    {flags : UInt8} (built : Fresh4gb m m' chunk directory tables flags)
    (user : flags.toUInt32 ||| pagingIsWriteable.toUInt32 = 7) : OpenDirectory m' directory := by
  intro i hi
  rw [built.linked i hi, UInt32.or_assoc, user]
  exact lowBits_or (built.space.table_aligned i hi) (by decide)

/-- Built with the present flag, a new space reaches every address. -/
theorem Fresh4gb.reach {m m' : Ram} {chunk directory : UInt32} {tables : Nat → UInt32} {flags : UInt8}
    (built : Fresh4gb m m' chunk directory tables flags)
    (flagged : flags.toUInt32 &&& pagingIsPresent.toUInt32 ≠ 0) (v : UInt32) :
    ∃ a, translate directory m' v = some a := by
  obtain ⟨hi, hj⟩ := walk_indexes v
  have small : flags.toUInt32.toNat < 4096 := by
    have h := flags.toNat_lt
    rw [UInt8.toNat_toUInt32]
    omega
  have keeps (a f : UInt32) (ha : a % 4096 = 0) (hf : f.toNat < 4096)
      (hp : f &&& pagingIsPresent.toUInt32 ≠ 0) : present (a ||| f) := by
    rw [present, flag_lowBits, lowBits_or ha hf]
    exact hp
  unfold translate
  rw [if_pos]
  · exact ⟨_, rfl⟩
  · constructor
    · rw [built.linked _ hi, UInt32.or_assoc]
      apply keeps _ _ (built.space.table_aligned _ hi) (flags_small flags)
      have split : (flags.toUInt32 ||| pagingIsWriteable.toUInt32) &&& pagingIsPresent.toUInt32 =
          flags.toUInt32 &&& pagingIsPresent.toUInt32 |||
            pagingIsWriteable.toUInt32 &&& pagingIsPresent.toUInt32 := by
        apply UInt32.toNat_inj.mp
        simp only [UInt32.toNat_and, UInt32.toNat_or, Nat.and_or_distrib_right]
      rw [split]
      intro zero
      exact flagged (UInt32.or_eq_zero_iff.mp zero).1
    · rw [built.walk]
      exact keeps _ _ (frame_aligned v) small flagged

end PeachOs
