import PeachOs.Kheap

/-!
# Two-level page tables

`paging.c` over byte memory. `AddressSpace` says where the directory and the
1024 tables of a chunk are; every function is described once by what it does to
the entries of the tables, and callers use only these descriptions.
-/

namespace PeachOs

open Memory Address

def pageSizeInBytes : UInt32 := heapBlockSizeBytes
def sizeofUint32 : UInt32 := 4
def sizeofUnsignedInt : UInt32 := 4
def sizeofPaging4gbChunk : UInt32 := 4

def pagingIsPresent : UInt8 := 0b000000001
def pagingIsWriteable : UInt8 := 0b000000010
def pagingAccessFromAll : UInt8 := 0b000000100

variable {H : Type*} (A : Allocator H)

/-! `PAGE_TABLE_ENTRIES_PER_TABLE` is a quotient without parentheses, so each
use below is written out as the compiler reads it. -/

/-- The inner loop of `paging_new_4gb` after `n` turns. -/
def fillTable (m : Ram) (entry pageTableStartAddr : UInt32) (flags : UInt8) : Nat → Ram
  | 0 => m
  | pageTableIndex + 1 =>
    store32 (fillTable m entry pageTableStartAddr flags pageTableIndex) (slot entry pageTableIndex)
      ((pageTableStartAddr + .ofNat pageTableIndex * pageSizeInBytes) ||| flags.toUInt32)

/-- The outer loop after `n` turns. -/
def newTables (h : H) (m : Ram) (directory : UInt32) (flags : UInt8) : Nat → H × Ram
  | 0 => (h, m)
  | pageDirectoryIndex + 1 =>
    let (h, m) := newTables h m directory flags pageDirectoryIndex
    let (entry, h, m) := kZalloc A h m (sizeofUint32 * heapBlockSizeBytes / sizeofUnsignedInt)
    let pageTableStartAddr :=
      .ofNat pageDirectoryIndex * heapBlockSizeBytes / sizeofUnsignedInt * pageSizeInBytes
    let m := fillTable m entry pageTableStartAddr flags (heapBlockSizeBytes / sizeofUnsignedInt).toNat
    (h, store32 m (slot directory pageDirectoryIndex)
      (entry ||| flags.toUInt32 ||| pagingIsWriteable.toUInt32))

def pagingNew4gb (h : H) (m : Ram) (flags : UInt8) : UInt32 × H × Ram :=
  let (directory, h, m) := kZalloc A h m (sizeofUint32 * heapBlockSizeBytes / sizeofUnsignedInt)
  let (h, m) := newTables A h m directory flags (heapBlockSizeBytes / sizeofUnsignedInt).toNat
  let (chunk4gb, h, m) := kZalloc A h m sizeofPaging4gbChunk
  (chunk4gb, h, store32 m chunk4gb directory)

def pagingSet (m : Ram) (directory virt phy : UInt32) : Int × Ram :=
  if virt % pageSizeInBytes ≠ 0 ∨ (phy &&& 0xfffff000) % pageSizeInBytes ≠ 0 then (-einvarg, m)
  else
    let pageDirectoryIndex := virt / (heapBlockSizeBytes / sizeofUnsignedInt * pageSizeInBytes)
    let pageTableStartAddr := load32 m (slot directory pageDirectoryIndex.toNat) &&& 0xfffff000
    let pageTableIndex :=
      virt % (heapBlockSizeBytes / sizeofUnsignedInt * pageSizeInBytes) / pageSizeInBytes
    (peachosAllOk, store32 m (slot pageTableStartAddr pageTableIndex.toNat) phy)

/-- The directory's address is the chunk's only field. -/
def pagingMap (m : Ram) (chunk virt phy : UInt32) (flags : Int) : Int × Ram :=
  if virt % pageSizeInBytes ≠ 0 ∨ phy % pageSizeInBytes ≠ 0 then (-einvarg, m)
  else pagingSet m (load32 m chunk) virt (phy ||| .ofInt flags)

/-- The loop of `paging_map_range` with `left` turns to go. -/
def mapRangeFrom (m : Ram) (directory virt phy : UInt32) (flags : Int) : (left : Nat) → (res : Int) → Int × Ram
  | 0, res => (res, m)
  | left + 1, _ =>
    let (res, m) := pagingMap m directory virt phy flags
    if res < 0 then (res, m)
    else mapRangeFrom m directory (virt + pageSizeInBytes) (phy + pageSizeInBytes) flags left res

def pagingMapRange (m : Ram) (directory virt phy : UInt32) (count flags : Int) : Int × Ram :=
  mapRangeFrom m directory virt phy flags count.toNat 0

/-- A page count is below 2^20, so passing it as an `int` keeps its value. -/
def pagingMapTo (m : Ram) (directory virt phy phyEnd : UInt32) (flags : Int) : Int × Ram :=
  if virt % pageSizeInBytes ≠ 0 then (-einvarg, m)
  else if phy % pageSizeInBytes ≠ 0 then (-einvarg, m)
  else if phyEnd % pageSizeInBytes ≠ 0 then (-einvarg, m)
  else
    let totalBytes := phyEnd - phy
    let totalPages := totalBytes / pageSizeInBytes
    let (res, m) := pagingMapRange m directory virt phy totalPages.toNat flags
    if res < 0 then (-eio, m) else (res, m)

def pagingAlignAddres (ptr : UInt32) : UInt32 :=
  if ptr % pageSizeInBytes ≠ 0 then ptr + (pageSizeInBytes - ptr % pageSizeInBytes) else ptr

/-- The second index is the offset in the page, not the number of the page in its table. -/
def pagingGetIndexes (virt : UInt32) : UInt32 × UInt32 :=
  (virt / (pageSizeInBytes * heapBlockSizeBytes / sizeofUnsignedInt), virt % pageSizeInBytes)

def pagingGet (m : Ram) (directory virt : UInt32) : UInt32 :=
  let (directoryIndex, tableIndex) := pagingGetIndexes virt
  let directoryEntry := load32 m (slot directory directoryIndex.toNat)
  load32 m (slot (directoryEntry &&& 0xfffff000) tableIndex.toNat)

/-! ## The processor's view -/

/-- Entry `j` of table `i`. -/
def tableEntry (m : Ram) (directory : UInt32) (i j : Nat) : UInt32 :=
  load32 m (slot (frame (load32 m (slot directory i))) j)

/-- The entry the two-level walk of `v` ends at. -/
def walk (m : Ram) (directory v : UInt32) : UInt32 :=
  tableEntry m directory (v.toNat / 0x400000) (v.toNat % 0x400000 / 0x1000)

def present (entry : UInt32) : Prop := entry &&& pagingIsPresent.toUInt32 ≠ 0

instance (entry : UInt32) : Decidable (present entry) := by unfold present; infer_instance

/-- A flag of an entry is a flag of its low bits. -/
theorem flag_lowBits (entry : UInt32) (flag : UInt8) :
    entry &&& flag.toUInt32 = lowBits entry &&& flag.toUInt32 := by
  have kept : (0xfff : UInt32) &&& flag.toUInt32 = flag.toUInt32 := by
    have hlt := flag.toNat_lt
    apply UInt32.toNat_inj.mp
    rw [UInt32.and_comm, ← lowBits, lowBits_toNat, UInt8.toNat_toUInt32]
    omega
  rw [lowBits, UInt32.and_assoc, kept]

/-- The physical address of `v` under a directory. Without a present entry the access faults. -/
def translate (directory : UInt32) (m : Ram) (v : UInt32) : Option UInt32 :=
  if present (load32 m (slot directory (v.toNat / 0x400000))) ∧ present (walk m directory v) then
    some (frame (walk m directory v) + lowBits v)
  else none

/-- The pages a chunk consists of, and how they are linked. -/
structure AddressSpace (m : Ram) (chunk directory : UInt32) (tables : Nat → UInt32) : Prop where
  chunk_aligned : chunk % 4096 = 0
  directory_aligned : directory % 4096 = 0
  table_aligned : ∀ i < 1024, tables i % 4096 = 0
  chunk_apart : directory ≠ chunk
  table_apart : ∀ i < 1024, tables i ≠ directory ∧ tables i ≠ chunk
  tables_distinct : ∀ i < 1024, ∀ j < 1024, tables i = tables j → i = j
  chunk_entry : load32 m chunk = directory
  directory_entry : ∀ i < 1024, frame (load32 m (slot directory i)) = tables i

/-- The addresses of a chunk's pages. -/
def OnPages (chunk directory : UInt32) (tables : Nat → UInt32) (x : UInt32) : Prop :=
  frame x = chunk ∨ frame x = directory ∨ ∃ i < 1024, frame x = tables i

section

variable {m m' : Ram} {chunk directory : UInt32} {tables : Nat → UInt32}

theorem AddressSpace.tableEntry (space : AddressSpace m chunk directory tables) {i : Nat}
    (hi : i < 1024) (j : Nat) : tableEntry m directory i j = load32 m (slot (tables i) j) := by
  rw [PeachOs.tableEntry, space.directory_entry i hi]

theorem AddressSpace.of_agree {d : UInt32 → Prop} (space : AddressSpace m chunk directory tables)
    (same : Agree d m m') (links : ∀ x, frame x = chunk ∨ frame x = directory → d x) :
    AddressSpace m' chunk directory tables := by
  refine { space with chunk_entry := ?_, directory_entry := fun i hi => ?_ }
  · have h := same.slot space.chunk_aligned (i := 0) (by omega) fun x hx => links x (Or.inl hx)
    have first : slot chunk 0 = chunk := by simp [slot]
    rw [first] at h
    exact h.trans space.chunk_entry
  · rw [same.slot space.directory_aligned hi fun x hx => links x (Or.inr hx)]
    exact space.directory_entry i hi

/-- Writes that stay off the pages change no entry. -/
theorem AddressSpace.tableEntry_agree {d : UInt32 → Prop}
    (space : AddressSpace m chunk directory tables) (same : Agree d m m')
    (pages : ∀ x, OnPages chunk directory tables x → d x) {i j : Nat} (hi : i < 1024)
    (hj : j < 1024) :
    PeachOs.tableEntry m' directory i j = PeachOs.tableEntry m directory i j := by
  have space' := space.of_agree same fun x hx => pages x (hx.elim Or.inl fun h => Or.inr (Or.inl h))
  rw [space.tableEntry hi, space'.tableEntry hi]
  exact same.slot (space.table_aligned i hi) hj fun x hx => pages x (Or.inr (Or.inr ⟨i, hi, hx⟩))

end

/-- Where the walk of a virtual address ends. -/
theorem walk_indexes (v : UInt32) :
    v.toNat / 0x400000 < 1024 ∧ v.toNat % 0x400000 / 0x1000 < 1024 := by
  have hv := v.toNat_lt
  omega

theorem same_page_iff {v virt : UInt32} (aligned : virt % 4096 = 0) :
    frame v = virt ↔ v.toNat / 0x400000 = virt.toNat / 0x400000 ∧
      v.toNat % 0x400000 / 0x1000 = virt.toNat % 0x400000 / 0x1000 := by
  have h := aligned_toNat.mp aligned
  rw [← UInt32.toNat_inj, frame_toNat]
  omega

/-! ## Setting entries -/

/-- `m'` is `m` with the entry of page `virt` set, in an address space that is
linked as before. -/
structure Remapped (m m' : Ram) (chunk directory : UInt32) (tables : Nat → UInt32)
    (virt entry : UInt32) : Prop where
  space : AddressSpace m' chunk directory tables
  others : Agree (fun x => frame x ≠ tables (virt.toNat / 0x400000)) m m'
  entries : ∀ i < 1024, ∀ j < 1024, tableEntry m' directory i j =
    if i = virt.toNat / 0x400000 ∧ j = virt.toNat % 0x400000 / 0x1000 then entry
    else tableEntry m directory i j

theorem Remapped.walk {m m' : Ram} {chunk directory virt entry : UInt32} {tables : Nat → UInt32}
    (set : Remapped m m' chunk directory tables virt entry) (aligned : virt % 4096 = 0)
    (v : UInt32) :
    walk m' directory v = if frame v = virt then entry else walk m directory v := by
  obtain ⟨hi, hj⟩ := walk_indexes v
  have h := set.entries _ hi _ hj
  by_cases same : frame v = virt
  · rw [if_pos same]
    rw [if_pos ((same_page_iff aligned).mp same)] at h
    exact h
  · rw [if_neg same]
    rw [if_neg fun indexes => same ((same_page_iff aligned).mpr indexes)] at h
    exact h

section

variable {m : Ram} {chunk directory : UInt32} {tables : Nat → UInt32}

theorem AddressSpace.set (space : AddressSpace m chunk directory tables) (virt entry : UInt32) :
    Remapped m (store32 m (slot (tables (virt.toNat / 0x400000)) (virt.toNat % 0x400000 / 0x1000))
      entry) chunk directory tables virt entry := by
  obtain ⟨hi, hj⟩ := walk_indexes virt
  have aligned := space.table_aligned _ hi
  have others := store32_slot_agree m entry aligned hj
  have apart := space.table_apart _ hi
  have linked := space.of_agree others fun x hx => by
    rcases hx with hx | hx
    · rw [hx]
      exact Ne.symm apart.2
    · rw [hx]
      exact Ne.symm apart.1
  refine ⟨linked, others, fun i hi' j hj' => ?_⟩
  rw [linked.tableEntry hi', space.tableEntry hi']
  by_cases table : i = virt.toNat / 0x400000
  · subst table
    rw [load32_store32_slot m entry aligned hj hj']
    by_cases page : j = virt.toNat % 0x400000 / 0x1000
    · rw [if_pos page, if_pos ⟨rfl, page⟩]
    · rw [if_neg page, if_neg fun h => page h.2]
  · rw [if_neg fun h => table h.1]
    apply others.slot (space.table_aligned i hi') hj'
    intro x hx same
    exact table (space.tables_distinct i hi' _ hi (hx.symm.trans same))

theorem pagingSet_spec (space : AddressSpace m chunk directory tables) {virt : UInt32}
    (aligned : virt % 4096 = 0) (phy : UInt32) :
    ∃ m', pagingSet m directory virt phy = (0, m') ∧
      Remapped m m' chunk directory tables virt phy := by
  refine ⟨_, ?_, space.set virt phy⟩
  have masked : (phy &&& 0xfffff000) % pageSizeInBytes = 0 := frame_aligned phy
  have size : heapBlockSizeBytes / sizeofUnsignedInt * pageSizeInBytes = 0x400000 := by decide
  have directoryIndex : (virt / 0x400000).toNat = virt.toNat / 0x400000 := by simp
  have tableIndex : (virt % 0x400000 / pageSizeInBytes).toNat = virt.toNat % 0x400000 / 0x1000 := by
    simp [pageSizeInBytes, heapBlockSizeBytes]
  have link := space.directory_entry _ (walk_indexes virt).1
  rw [frame] at link
  have given : virt % pageSizeInBytes = 0 := aligned
  simp only [pagingSet, given, masked, size, directoryIndex, tableIndex, link, ne_eq, not_true,
    or_self, if_false, peachosAllOk]

theorem pagingMap_spec (space : AddressSpace m chunk directory tables) {virt phy : UInt32}
    (virt_aligned : virt % 4096 = 0) (phy_aligned : phy % 4096 = 0) (flags : Int) :
    ∃ m', pagingMap m chunk virt phy flags = (0, m') ∧
      Remapped m m' chunk directory tables virt (phy ||| .ofInt flags) := by
  obtain ⟨m', run, set⟩ := pagingSet_spec space virt_aligned (phy ||| .ofInt flags)
  refine ⟨m', ?_, set⟩
  have hv : virt % pageSizeInBytes = 0 := virt_aligned
  have hp : phy % pageSizeInBytes = 0 := phy_aligned
  rw [pagingMap, if_neg (by simp [hv, hp]), space.chunk_entry, run]

theorem pagingMap_unaligned (m : Ram) (chunk virt phy : UInt32) (flags : Int)
    (unaligned : virt % 4096 ≠ 0 ∨ phy % 4096 ≠ 0) :
    pagingMap m chunk virt phy flags = (-einvarg, m) := by
  have h : virt % pageSizeInBytes ≠ 0 ∨ phy % pageSizeInBytes ≠ 0 := unaligned
  rw [pagingMap, if_pos h]

theorem pagingMapTo_unaligned (m : Ram) (chunk virt phy phyEnd : UInt32) (flags : Int)
    (unaligned : virt % 4096 ≠ 0 ∨ phy % 4096 ≠ 0 ∨ phyEnd % 4096 ≠ 0) :
    pagingMapTo m chunk virt phy phyEnd flags = (-einvarg, m) := by
  have h : virt % pageSizeInBytes ≠ 0 ∨ phy % pageSizeInBytes ≠ 0 ∨ phyEnd % pageSizeInBytes ≠ 0 :=
    unaligned
  unfold pagingMapTo
  by_cases hv : virt % pageSizeInBytes = 0
  · by_cases hp : phy % pageSizeInBytes = 0
    · have he : phyEnd % pageSizeInBytes ≠ 0 := (h.resolve_left (· hv)).resolve_left (· hp)
      rw [if_neg (not_not.mpr hv), if_neg (not_not.mpr hp), if_pos he]
    · rw [if_neg (not_not.mpr hv), if_pos hp]
  · rw [if_pos hv]

end

/-- Page `v` of the window of `count` pages at `virt`. -/
def InWindow (v virt : UInt32) (count : Nat) : Prop :=
  virt.toNat ≤ v.toNat ∧ v.toNat < virt.toNat + 4096 * count

instance (v virt : UInt32) (count : Nat) : Decidable (InWindow v virt count) := by
  unfold InWindow; infer_instance

theorem shifted_aligned {v virt phy : UInt32} (hv : virt % 4096 = 0) (hp : phy % 4096 = 0) :
    (frame v - virt + phy) % 4096 = 0 := by
  have h := aligned_toNat.mp (frame_aligned v)
  have h' := aligned_toNat.mp hv
  have h'' := aligned_toNat.mp hp
  rw [aligned_toNat, UInt32.toNat_add, toNat_sub]
  omega

/-- A page of a window is mapped into the window's frames. -/
theorem inRange_of_inWindow {v virt : UInt32} {count : Nat} (aligned : virt % 4096 = 0)
    (inside : InWindow v virt count) (phy : UInt32) :
    InRange (frame v - virt + phy) phy (4096 * count) := by
  have h := aligned_toNat.mp aligned
  have hv := v.toNat_lt
  obtain ⟨lo, hi⟩ := inside
  have distance : frame v - virt + phy - phy = frame v - virt := by grind
  unfold InRange
  rw [distance, toNat_sub, frame_toNat]
  omega

/-- `m'` is `m` with `count` pages from `virt` on mapped to the frames from `phy` on. -/
structure RangeMapped (m m' : Ram) (chunk directory : UInt32) (tables : Nat → UInt32)
    (virt phy : UInt32) (count : Nat) (flags : Int) : Prop where
  space : AddressSpace m' chunk directory tables
  others : Agree (fun x => ∀ i < 1024, frame x ≠ tables i) m m'
  walk : ∀ v, walk m' directory v =
    if InWindow v virt count then (frame v - virt + phy) ||| .ofInt flags else walk m directory v

theorem next_page {virt : UInt32} {count : Nat} (aligned : virt % 4096 = 0)
    (fit : virt.toNat + 4096 * (count + 1) ≤ 2 ^ 32) :
    (virt + pageSizeInBytes) % 4096 = 0 ∧
      (0 < count → (virt + pageSizeInBytes).toNat = virt.toNat + 4096) ∧
      (virt + pageSizeInBytes).toNat + 4096 * count ≤ 2 ^ 32 := by
  have h := aligned_toNat.mp aligned
  have step : (virt + pageSizeInBytes).toNat = (virt.toNat + 4096) % 2 ^ 32 := by
    simp only [pageSizeInBytes, heapBlockSizeBytes, UInt32.toNat_add, UInt32.reduceToNat]
  rw [aligned_toNat]
  omega

theorem inWindow_succ {v virt : UInt32} {count : Nat} (aligned : virt % 4096 = 0)
    (fit : virt.toNat + 4096 * (count + 1) ≤ 2 ^ 32) :
    InWindow v virt (count + 1) ↔ frame v = virt ∨ InWindow v (virt + pageSizeInBytes) count := by
  have h := aligned_toNat.mp aligned
  obtain ⟨-, step, -⟩ := next_page aligned fit
  rw [← UInt32.toNat_inj, frame_toNat]
  unfold InWindow
  by_cases more : 0 < count
  · rw [step more]
    omega
  · omega

theorem mapRangeFrom_spec {m : Ram} {chunk directory : UInt32} {tables : Nat → UInt32}
    (space : AddressSpace m chunk directory tables) {virt phy : UInt32} (count : Nat)
    (virt_aligned : virt % 4096 = 0) (phy_aligned : phy % 4096 = 0) (flags : Int)
    (virt_fit : virt.toNat + 4096 * count ≤ 2 ^ 32) (phy_fit : phy.toNat + 4096 * count ≤ 2 ^ 32) :
    ∃ m', mapRangeFrom m chunk virt phy flags count 0 = (0, m') ∧
      RangeMapped m m' chunk directory tables virt phy count flags := by
  induction count generalizing m virt phy with
  | zero =>
    refine ⟨m, rfl, space, Agree.refl _ _, fun v => ?_⟩
    rw [if_neg (by simp [InWindow])]
  | succ count ih =>
    obtain ⟨m₁, first, set⟩ := pagingMap_spec space virt_aligned phy_aligned flags
    have own : Agree (fun x => ∀ i < 1024, frame x ≠ tables i) m m₁ :=
      set.others.mono fun x hx => hx _ (walk_indexes virt).1
    obtain ⟨virt_next, virt_step, virt_fit'⟩ := next_page virt_aligned virt_fit
    obtain ⟨phy_next, -, phy_fit'⟩ := next_page phy_aligned phy_fit
    obtain ⟨m', rest, mapped⟩ := ih set.space virt_next phy_next virt_fit' phy_fit'
    refine ⟨m', ?_, mapped.space, own.trans mapped.others, fun v => ?_⟩
    · simpa [mapRangeFrom, first] using rest
    · have grown := inWindow_succ (v := v) virt_aligned virt_fit
      rw [mapped.walk, set.walk virt_aligned]
      by_cases later : InWindow v (virt + pageSizeInBytes) count
      · have shift : frame v - (virt + pageSizeInBytes) + (phy + pageSizeInBytes) =
            frame v - virt + phy := by grind
        rw [if_pos later, if_pos (grown.mpr (Or.inr later)), shift]
      · rw [if_neg later]
        by_cases here : frame v = virt
        · rw [if_pos here, if_pos (grown.mpr (Or.inl here)), here,
            show virt - virt + phy = phy by grind]
        · rw [if_neg here, if_neg fun h => (grown.mp h).elim here later]

section

variable {m : Ram} {chunk directory : UInt32} {tables : Nat → UInt32} {virt phy : UInt32}

theorem pagingMapRange_spec (space : AddressSpace m chunk directory tables) (count flags : Int)
    (virt_aligned : virt % 4096 = 0) (phy_aligned : phy % 4096 = 0)
    (virt_fit : virt.toNat + 4096 * count.toNat ≤ 2 ^ 32)
    (phy_fit : phy.toNat + 4096 * count.toNat ≤ 2 ^ 32) :
    ∃ m', pagingMapRange m chunk virt phy count flags = (0, m') ∧
      RangeMapped m m' chunk directory tables virt phy count.toNat flags :=
  mapRangeFrom_spec space count.toNat virt_aligned phy_aligned flags virt_fit phy_fit

/-- Mapping one page is mapping a range of one. -/
theorem pagingMapRange_one (m : Ram) (chunk virt phy : UInt32) (flags : Int) :
    pagingMapRange m chunk virt phy 1 flags = pagingMap m chunk virt phy flags := by
  rw [pagingMapRange, Int.toNat_one, mapRangeFrom]
  dsimp only
  split <;> rfl

/-- The pages between two page-aligned addresses. -/
def pagesBetween (phy phyEnd : UInt32) : Nat := (phyEnd.toNat - phy.toNat) / 4096

theorem pagingMapTo_spec (space : AddressSpace m chunk directory tables) {phyEnd : UInt32}
    (flags : Int) (virt_aligned : virt % 4096 = 0) (phy_aligned : phy % 4096 = 0)
    (end_aligned : phyEnd % 4096 = 0) (ordered : phy ≤ phyEnd)
    (fit : virt.toNat + (phyEnd.toNat - phy.toNat) ≤ 2 ^ 32) :
    ∃ m', pagingMapTo m chunk virt phy phyEnd flags = (0, m') ∧
      RangeMapped m m' chunk directory tables virt phy (pagesBetween phy phyEnd) flags := by
  have hle := UInt32.le_iff_toNat_le.mp ordered
  have hlt := phyEnd.toNat_lt
  have total : ((phyEnd - phy) / pageSizeInBytes).toNat = pagesBetween phy phyEnd := by
    rw [UInt32.toNat_div, UInt32.toNat_sub_of_le phyEnd phy ordered]
    rfl
  have count : (((phyEnd - phy) / pageSizeInBytes).toNat : Int).toNat = pagesBetween phy phyEnd := by
    rw [Int.toNat_natCast, total]
  have whole : 4096 * pagesBetween phy phyEnd ≤ phyEnd.toNat - phy.toNat :=
    Nat.mul_div_le _ _
  obtain ⟨m', run, mapped⟩ := pagingMapRange_spec space
    (((phyEnd - phy) / pageSizeInBytes).toNat : Int) flags virt_aligned phy_aligned
    (by omega) (by omega)
  rw [count] at mapped
  refine ⟨m', ?_, mapped⟩
  have hv : virt % pageSizeInBytes = 0 := virt_aligned
  have hp : phy % pageSizeInBytes = 0 := phy_aligned
  have he : phyEnd % pageSizeInBytes = 0 := end_aligned
  simp only [pagingMapTo, hv, hp, he, run, ne_eq, not_true, if_false, Int.lt_irrefl]

end

/-! ## Whole pages

On aligned addresses nothing fails, whatever lies where the directory should be. -/

theorem pagingMap_aligned (m : Ram) (chunk : UInt32) {virt phy : UInt32} (flags : Int)
    (hv : virt % 4096 = 0) (hp : phy % 4096 = 0) : (pagingMap m chunk virt phy flags).1 = 0 := by
  have virt_aligned : virt % pageSizeInBytes = 0 := hv
  have phy_aligned : phy % pageSizeInBytes = 0 := hp
  have masked (entry : UInt32) : (entry &&& 0xfffff000) % pageSizeInBytes = 0 := frame_aligned entry
  simp only [pagingMap, pagingSet, virt_aligned, phy_aligned, masked, ne_eq, not_true, or_self,
    if_false, peachosAllOk]

theorem next_aligned {a : UInt32} (aligned : a % 4096 = 0) : (a + pageSizeInBytes) % 4096 = 0 := by
  have h := aligned_toNat.mp aligned
  rw [aligned_toNat, UInt32.toNat_add]
  simp only [pageSizeInBytes, heapBlockSizeBytes, UInt32.reduceToNat]
  omega

theorem mapRangeFrom_aligned (m : Ram) (directory : UInt32) {virt phy : UInt32} (flags : Int) (left : Nat)
    (hv : virt % 4096 = 0) (hp : phy % 4096 = 0) :
    (mapRangeFrom m directory virt phy flags left 0).1 = 0 := by
  induction left generalizing m virt phy with
  | zero => rfl
  | succ left ih =>
    have first := pagingMap_aligned m directory flags hv hp
    unfold mapRangeFrom
    cases run : pagingMap m directory virt phy flags with
    | mk res m' =>
      rw [run] at first
      obtain rfl : res = 0 := first
      dsimp only
      rw [if_neg (by decide)]
      exact ih m' (next_aligned hv) (next_aligned hp)

theorem pagingMapTo_range (m : Ram) (directory : UInt32) {virt phy phyEnd : UInt32} (flags : Int)
    (hv : virt % 4096 = 0) (hp : phy % 4096 = 0) (he : phyEnd % 4096 = 0) :
    pagingMapTo m directory virt phy phyEnd flags =
      (0, (mapRangeFrom m directory virt phy flags ((phyEnd - phy) / pageSizeInBytes).toNat 0).2) := by
  have virt_aligned : virt % pageSizeInBytes = 0 := hv
  have phy_aligned : phy % pageSizeInBytes = 0 := hp
  have end_aligned : phyEnd % pageSizeInBytes = 0 := he
  have succeeds := mapRangeFrom_aligned m directory flags
    ((phyEnd - phy) / pageSizeInBytes).toNat hv hp
  simp only [pagingMapTo, virt_aligned, phy_aligned, end_aligned, pagingMapRange, Int.toNat_natCast,
    succeeds, ne_eq, not_true, if_false, Int.lt_irrefl]

end PeachOs
