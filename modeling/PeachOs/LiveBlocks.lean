import PeachOs.FreshHeap
import PeachOs.HeapLayout
import Mathlib.Data.List.Nodup

/-!
# Live blocks

What code that asks for memory and gives it back relies on, as a ledger of the
live blocks and their sizes. The block heap keeps the laws as long as every
request finds room, and its table says exactly what the ledger says.
-/

namespace PeachOs

open FirstFit Address Ownership
open Function (update)

/-- `granted h`: every request so far was granted. `holds h L`: the live blocks
are those of `L`, which gives their sizes. -/
structure BlockLaws {H : Type} (A : Allocator H) where
  granted : H → Prop
  holds : H → Ledger UInt32 Nat → Prop
  malloc_granted : ∀ h n, granted (A.malloc h n).2 → granted h
  free_granted : ∀ h p, granted (A.free h p) ↔ granted h
  malloc : ∀ h n L, granted (A.malloc h n).2 → holds h L → 1 ≤ n.toNat →
    (0 < (A.malloc h n).1.toNat ∧ (A.malloc h n).1.toNat < 2 ^ 31) ∧ L (A.malloc h n).1 = none ∧
      holds (A.malloc h n).2 (update L (A.malloc h n).1 (some (blocksNeeded n)))
  malloc_empty : ∀ h L x, granted (A.malloc h 0).2 → holds h L → L x ≠ none → holds (A.malloc h 0).2 L
  free : ∀ h L p, holds h L → L p ≠ none → holds (A.free h p) (update L p none)

/-- The heap after requests and releases. -/
inductive Moves {H : Type} (A : Allocator H) : H → H → Prop
  | refl (h : H) : Moves A h h
  | malloc {h h' : H} (n : UInt32) (moves : Moves A h h') : Moves A h (A.malloc h' n).2
  | free {h h' : H} (p : UInt32) (moves : Moves A h h') : Moves A h (A.free h' p)

section

variable {H : Type} {A : Allocator H} {h h' h'' : H}

theorem Moves.trans (one : Moves A h h') (two : Moves A h' h'') : Moves A h h'' := by
  induction two with
  | refl => exact one
  | malloc n _ ih => exact ih.malloc n
  | free p _ ih => exact ih.free p

theorem Moves.granted (laws : BlockLaws A) (moves : Moves A h h') (granted : laws.granted h') :
    laws.granted h := by
  induction moves with
  | refl => exact granted
  | malloc n _ ih => exact ih (laws.malloc_granted _ _ granted)
  | free p _ ih => exact ih ((laws.free_granted _ _).mp granted)

/-- What is released between two requests. -/
inductive Releases (A : Allocator H) : H → H → Prop
  | refl (h : H) : Releases A h h
  | free {h h' : H} (p : UInt32) (rest : Releases A h h') : Releases A h (A.free h' p)

/-- The next `n` requests of at most a block are granted, whatever is released in between. -/
def BlockLaws.Serves (laws : BlockLaws A) : Nat → H → Prop
  | 0, _ => True
  | n + 1, h => ∀ h', Releases A h h' → ∀ bytes : UInt32, 1 ≤ bytes.toNat → bytes.toNat ≤ 4096 →
      laws.granted (A.malloc h' bytes).2 ∧ Serves laws n (A.malloc h' bytes).2

variable {laws : BlockLaws A} {n : Nat}

theorem BlockLaws.Serves.malloc (serves : laws.Serves (n + 1) h) (bytes : UInt32) (positive : 1 ≤ bytes.toNat)
    (small : bytes.toNat ≤ 4096) :
    laws.granted (A.malloc h bytes).2 ∧ laws.Serves n (A.malloc h bytes).2 :=
  serves h (.refl h) bytes positive small

theorem Releases.head {p : UInt32} (rest : Releases A (A.free h p) h') : Releases A h h' := by
  induction rest with
  | refl => exact .free p (.refl h)
  | free q _ ih => exact .free q ih

theorem BlockLaws.Serves.free (serves : laws.Serves n h) (p : UInt32) : laws.Serves n (A.free h p) := by
  cases n with
  | zero => trivial
  | succ n => exact fun h' rest => serves h' rest.head

theorem BlockLaws.Serves.mono {m : Nat} (serves : laws.Serves n h) (le : m ≤ n) : laws.Serves m h := by
  induction m generalizing n h with
  | zero => trivial
  | succ m ih =>
    cases n with
    | zero => exact absurd le (Nat.not_succ_le_zero m)
    | succ n =>
      intro h' rest bytes positive small
      obtain ⟨granted, later⟩ := serves h' rest bytes positive small
      exact ⟨granted, ih later (Nat.le_of_succ_le_succ le)⟩

end

/-! ## The fresh heap -/

def freshBlocks : BlockLaws freshHeap where
  granted next := next ≤ 25600
  holds next L := ∀ x, L x ≠ none → x.toNat < 0x1000000 + 4096 * next
  malloc_granted next n granted := Nat.le_trans (Nat.le_add_right next _) granted
  free_granted _ _ := Iff.rfl
  malloc next n L granted below positive := by
    have one : 1 ≤ blocksNeeded n := by
      unfold blocksNeeded
      omega
    have fits : next + blocksNeeded n ≤ 25600 := granted
    have place := freshPointer (show next ≤ 25600 by omega)
    dsimp only [freshHeap]
    refine ⟨by omega, ?_, ?_⟩
    · by_contra owned
      have := below _ owned
      omega
    · intro x owned
      by_cases here : x = .ofNat (0x1000000 + 4096 * next)
      · rw [here, place]
        omega
      · rw [Function.update_of_ne here] at owned
        have := below x owned
        omega
  malloc_empty next L _ granted below _ := by
    intro x owned
    have := below x owned
    have more : 0x1000000 + 4096 * next ≤ 0x1000000 + 4096 * (next + blocksNeeded 0) := by omega
    exact Nat.lt_of_lt_of_le this more
  free next L p below owned := by
    intro x left
    by_cases here : x = p
    · rw [here, Function.update_self] at left
      exact absurd rfl left
    · rw [Function.update_of_ne here] at left
      exact below x left

/-! ## The block heap -/

/-- The block heap, and whether each request found a run of free blocks. -/
structure WatchedHeap where
  heap : Heap
  granted : Prop

def watchedHeap : Allocator WatchedHeap where
  malloc w n := ((heapMalloc w.heap n).1,
    ⟨(heapMalloc w.heap n).2, w.granted ∧ ∃ s, FreeRun w.heap (blocksNeeded n) s⟩)
  free w p := ⟨(heapFree w.heap p).2, w.granted⟩

/-- The ledger `L` lists the allocations `live`. -/
def Lists (L : Ledger UInt32 Nat) (live : List Allocation) : Prop :=
  ∀ x b, L x = some b ↔ ∃ a ∈ live, a.ptr = x ∧ a.blocks = b

/-- The kernel's heap with the live blocks `L`. -/
structure LiveHeap (heap : Heap) (L : Ledger UInt32 Nat) : Prop where
  saddr : heap.saddr = heapStartAddr
  total : heap.table.total.toNat = 25600
  layout : ∃ live p, Represents heap live p ∧ Lists L live

theorem LiveHeap.placed {heap : Heap} {L : Ledger UInt32 Nat} (kernel : LiveHeap heap L) :
    Placed heap := by
  refine ⟨by rw [kernel.total]; decide, ?_⟩
  rw [kernel.saddr]
  decide

/-- Nothing is live after `KheapInit`. -/
theorem kheapInit_live (kernelHeap : Heap) (tableMem : Nat → UInt8) :
    LiveHeap (kheapInit kernelHeap tableMem) fun _ => none := by
  have created := kheapInit_created tableMem kernelHeap
  refine ⟨createHeap_saddr created, kheapInit_total _ _, [], _, (createHeap_placed created (by decide)).2, ?_⟩
  intro x b
  simp

/-- Live blocks start at different addresses. -/
theorem Represents.ptr_inj {heap : Heap} {live : List Allocation} {p : Pool}
    (rep : Represents heap live p) : live.Pairwise fun a b => a.ptr ≠ b.ptr := by
  have apart := p.apart
  rw [rep.blocks, List.pairwise_map] at apart
  refine apart.imp_of_mem fun {a b} ha hb away same => ?_
  have hb' := (p.inside (heap.blockOf b) (rep.blocks ▸ List.mem_map_of_mem hb)).1
  have ha' := (p.inside (heap.blockOf a) (rep.blocks ▸ List.mem_map_of_mem ha)).1
  simp only [Block.Apart, Heap.blockOf, same] at away ha' hb'
  omega

theorem Represents.eq_of_ptr {heap : Heap} {live : List Allocation} {p : Pool}
    (rep : Represents heap live p) {a b : Allocation} (ha : a ∈ live) (hb : b ∈ live)
    (same : a.ptr = b.ptr) : a = b := by
  have nodup : (live.map Allocation.ptr).Nodup := List.pairwise_map.mpr rep.ptr_inj
  exact List.inj_on_of_nodup_map nodup ha hb same

theorem Represents.nodup {heap : Heap} {live : List Allocation} {p : Pool}
    (rep : Represents heap live p) : live.Nodup :=
  rep.ptr_inj.imp fun ne same => ne (congrArg Allocation.ptr same)

/-- Where a live block lies. -/
theorem LiveHeap.block {heap : Heap} {L : Ledger UInt32 Nat} (kernel : LiveHeap heap L) {x : UInt32}
    {b : Nat} (live : L x = some b) : 0 < b ∧ heap.blockIndex x + b ≤ 25600 ∧
      x = heapStartAddr + .ofNat (4096 * heap.blockIndex x) := by
  obtain ⟨allocations, p, rep, lists⟩ := kernel.layout
  obtain ⟨a, mem, rfl, rfl⟩ := (lists x b).mp live
  have here : heap.blockOf a ∈ p.live := rep.blocks ▸ List.mem_map_of_mem mem
  obtain ⟨nonempty, inside⟩ := p.inside _ here
  rw [rep.total, kernel.total] at inside
  refine ⟨nonempty, inside, ?_⟩
  rw [← kernel.saddr]
  exact rep.ptr a mem

theorem LiveHeap.malloc {heap : Heap} {L : Ledger UInt32 Nat} {n : UInt32} (kernel : LiveHeap heap L)
    (fits : ∃ s, FreeRun heap (blocksNeeded n) s) (positive : 1 ≤ n.toNat) :
    L (heapMalloc heap n).1 = none ∧
      LiveHeap (heapMalloc heap n).2 (update L (heapMalloc heap n).1 (some (blocksNeeded n))) := by
  obtain ⟨live, p, rep, lists⟩ := kernel.layout
  obtain ⟨_, p', rep'⟩ := malloc_represents kernel.placed rep positive fits
  obtain ⟨saddr, total⟩ := heapMalloc_shape heap n
  have apart := List.pairwise_append.mp rep'.ptr_inj
  have new (a : Allocation) (mem : a ∈ live) : a.ptr ≠ (heapMalloc heap n).1 :=
    apart.2.2 a mem _ List.mem_cons_self
  constructor
  · by_contra taken
    obtain ⟨b, owned⟩ := Option.ne_none_iff_exists'.mp taken
    obtain ⟨a, mem, here, _⟩ := (lists _ b).mp owned
    exact new a mem here
  · refine ⟨saddr.trans kernel.saddr, total ▸ kernel.total, _, p', rep', ?_⟩
    intro x b
    by_cases here : x = (heapMalloc heap n).1
    · subst here
      rw [Function.update_self]
      constructor
      · intro size
        exact ⟨_, List.mem_append_right live List.mem_cons_self, rfl, Option.some.inj size⟩
      · rintro ⟨a, mem, same, rfl⟩
        rcases List.mem_append.mp mem with old | last
        · exact absurd same (new a old)
        · cases List.mem_singleton.mp last
          rfl
    · rw [Function.update_of_ne here, lists]
      constructor
      · rintro ⟨a, mem, rest⟩
        exact ⟨a, List.mem_append_left _ mem, rest⟩
      · rintro ⟨a, mem, same, rest⟩
        rcases List.mem_append.mp mem with old | last
        · exact ⟨a, old, same, rest⟩
        · cases List.mem_singleton.mp last
          exact absurd same.symm here

theorem LiveHeap.free {heap : Heap} {L : Ledger UInt32 Nat} {x : UInt32} (kernel : LiveHeap heap L)
    (owned : L x ≠ none) : LiveHeap (heapFree heap x).2 (update L x none) := by
  obtain ⟨live, p, rep, lists⟩ := kernel.layout
  obtain ⟨b, size⟩ := Option.ne_none_iff_exists'.mp owned
  obtain ⟨a, mem, rfl, _⟩ := (lists x b).mp size
  obtain ⟨_, rep'⟩ := free_represents kernel.placed rep mem
  obtain ⟨saddr, total⟩ := heapFree_shape heap a.ptr
  refine ⟨saddr.trans kernel.saddr, total ▸ kernel.total, _, _, rep', ?_⟩
  intro y c
  by_cases here : y = a.ptr
  · subst here
    rw [Function.update_self]
    constructor
    · intro none
      cases none
    · rintro ⟨d, left, same, _⟩
      obtain ⟨ne, old⟩ := rep.nodup.mem_erase_iff.mp left
      exact absurd (rep.eq_of_ptr old mem same) ne
  · rw [Function.update_of_ne here, lists]
    constructor
    · rintro ⟨d, old, rfl, rest⟩
      have ne : d ≠ a := by
        rintro rfl
        exact here rfl
      exact ⟨d, rep.nodup.mem_erase_iff.mpr ⟨ne, old⟩, rfl, rest⟩
    · rintro ⟨d, left, rest⟩
      exact ⟨d, List.mem_of_mem_erase left, rest⟩

/-- A request for no bytes rewrites the mark that ends the last block, which
takes a live block. On an empty table it would mark every entry. -/
theorem LiveHeap.malloc_empty {heap : Heap} {L : Ledger UInt32 Nat} {x : UInt32}
    (kernel : LiveHeap heap L) (owned : L x ≠ none) : (heapMalloc heap 0).2 = heap := by
  have total := kernel.total
  have zero : blocksToAllocate 0 = 0 := by decide
  obtain ⟨t, tail, found⟩ := search_missed heap 0 (Or.inl rfl)
  by_cases full : t = heap.table.total.toNat
  · rw [if_pos full] at found
    rw [heapMalloc, zero, found, if_pos rfl]
  · rw [if_neg full] at found
    have le := tail.le
    obtain ⟨b, size⟩ := Option.ne_none_iff_exists'.mp owned
    obtain ⟨live, p, rep, lists⟩ := kernel.layout
    obtain ⟨a, mem, rfl, rfl⟩ := (lists x b).mp size
    have block : heap.blockOf a ∈ p.live := rep.blocks ▸ List.mem_map_of_mem mem
    obtain ⟨nonempty, inside⟩ := p.inside _ block
    rw [rep.total] at inside
    have used (i : Nat) (hi : i < heap.table.total.toNat) : heap.table.entries i = heapBlockTableEntryFree ↔
        p.Free i := rep.free_iff (by rw [rep.total]; exact hi)
    have start : 0 < t := by
      by_contra none
      have free := (used (heap.blockOf a).start (by omega)).mp (tail.free _ (by omega) (by omega))
      exact free _ block ⟨by omega, by omega⟩
    have taken := tail.maximal start
    rw [Ne, used (t - 1) (by omega)] at taken
    obtain ⟨c, hc, covers⟩ : ∃ c ∈ p.live, c.Covers (t - 1) := by
      by_contra none
      exact taken fun c hc covers => none ⟨c, hc, covers⟩
    have free := (used t (by omega)).mp (tail.free t (Nat.le_refl t) (by omega)) c hc
    simp only [Block.Covers] at covers free
    have mark := rep.last c hc
    have at' : c.start + c.len - 1 = t - 1 := by omega
    rw [at'] at mark
    have bound : (UInt32.ofNat t + 0 - 1).toNat = t - 1 := by
      rw [UInt32.toNat_sub, UInt32.toNat_add, UInt32.toNat_ofNat']
      simp only [UInt32.reduceToNat]
      omega
    have index : (UInt32.ofNat t).toNat = t := by
      rw [UInt32.toNat_ofNat']
      omega
    rw [← zero] at found
    rw [heapMalloc_of_search found, zero, updateHeapTable_entries, bound, index]
    dsimp only
    have same : (fun j => if j = t - 1 then entryLast
        else if t ≤ j ∧ j < t - 1 then entryNext else heap.table.entries j) = heap.table.entries := by
      funext j
      by_cases here : j = t - 1
      · rw [if_pos here, here, mark]
      · rw [if_neg here, if_neg (by omega)]
    rw [same]
    rfl

def kernelBlocks : BlockLaws watchedHeap where
  granted w := w.granted
  holds w L := LiveHeap w.heap L
  malloc_granted _ _ granted := granted.1
  free_granted _ _ := Iff.rfl
  malloc w n L granted kernel positive := by
    obtain ⟨fresh, kernel'⟩ := kernel.malloc granted.2 positive
    refine ⟨?_, fresh, kernel'⟩
    obtain ⟨nonempty, inside, place⟩ := kernel'.block (x := (heapMalloc w.heap n).1)
      (Function.update_self _ _ L)
    have start : heapStartAddr.toNat = 0x1000000 := by decide
    have at' : (heapMalloc w.heap n).1.toNat =
        0x1000000 + 4096 * (heapMalloc w.heap n).2.blockIndex (heapMalloc w.heap n).1 := by
      conv_lhs => rw [place]
      rw [UInt32.toNat_add, start, UInt32.toNat_ofNat']
      omega
    dsimp only [watchedHeap]
    omega
  malloc_empty w L x _ kernel owned := by
    dsimp only [watchedHeap]
    rw [kernel.malloc_empty owned]
    exact kernel
  free w L p kernel owned := kernel.free owned

/-! ## The table -/

section

variable {heap heap' : Heap} {L L' : Ledger UInt32 Nat}

theorem LiveHeap.entry_taken (kernel : LiveHeap heap L) {x : UInt32} {b i : Nat} (live : L x = some b)
    (lo : heap.blockIndex x ≤ i) (hi : i < heap.blockIndex x + b) :
    heap.table.entries i = if i + 1 = heap.blockIndex x + b then entryLast else entryNext := by
  obtain ⟨allocations, p, rep, lists⟩ := kernel.layout
  obtain ⟨a, mem, rfl, rfl⟩ := (lists x b).mp live
  have block : heap.blockOf a ∈ p.live := rep.blocks ▸ List.mem_map_of_mem mem
  by_cases last : i + 1 = heap.blockIndex a.ptr + a.blocks
  · have mark := rep.last _ block
    dsimp only [Heap.blockOf] at mark
    rw [if_pos last, ← mark, ← last, Nat.add_sub_cancel]
  · rw [if_neg last]
    apply rep.next _ block i lo
    dsimp only [Heap.blockOf]
    omega

theorem LiveHeap.entry_free (kernel : LiveHeap heap L) {i : Nat} (inside : i < 25600)
    (off : ∀ x b, L x = some b → ¬ (heap.blockIndex x ≤ i ∧ i < heap.blockIndex x + b)) :
    heap.table.entries i = heapBlockTableEntryFree := by
  obtain ⟨allocations, p, rep, lists⟩ := kernel.layout
  apply rep.free i
  · rw [rep.total, kernel.total]
    exact inside
  · intro c mem covers
    rw [rep.blocks] at mem
    obtain ⟨a, live, rfl⟩ := List.mem_map.mp mem
    exact off a.ptr a.blocks ((lists _ _).mpr ⟨a, live, rfl, rfl⟩) covers

/-- Live blocks share no entry. -/
theorem LiveHeap.apart (kernel : LiveHeap heap L) {x y : UInt32} {b c i : Nat} (hx : L x = some b)
    (hy : L y = some c) (inx : heap.blockIndex x ≤ i ∧ i < heap.blockIndex x + b)
    (iny : heap.blockIndex y ≤ i ∧ i < heap.blockIndex y + c) : x = y := by
  obtain ⟨_, _, placeX⟩ := kernel.block hx
  obtain ⟨_, _, placeY⟩ := kernel.block hy
  obtain ⟨allocations, p, rep, lists⟩ := kernel.layout
  obtain ⟨a, memA, rfl, rfl⟩ := (lists x b).mp hx
  obtain ⟨d, memD, rfl, rfl⟩ := (lists y c).mp hy
  by_contra ne
  have different : heap.blockOf a ≠ heap.blockOf d := by
    intro same
    have index := congrArg Block.start same
    dsimp only [Heap.blockOf] at index
    rw [placeX, placeY, index] at ne
    exact ne rfl
  have away := p.apart_of_mem (rep.blocks ▸ List.mem_map_of_mem memA)
    (rep.blocks ▸ List.mem_map_of_mem memD) different
  exact away.not_covers (i := i) inx iny

/-- The ledger says all of the table. -/
theorem LiveHeap.table_eq (kernel : LiveHeap heap L) (kernel' : LiveHeap heap' L) {i : Nat}
    (inside : i < 25600) : heap.table.entries i = heap'.table.entries i := by
  have index (x : UInt32) : heap'.blockIndex x = heap.blockIndex x := by
    rw [Heap.blockIndex, Heap.blockIndex, kernel.saddr, kernel'.saddr]
  by_cases taken : ∃ x b, L x = some b ∧ heap.blockIndex x ≤ i ∧ i < heap.blockIndex x + b
  · obtain ⟨x, b, live, lo, hi⟩ := taken
    rw [kernel.entry_taken live lo hi, kernel'.entry_taken live (index x ▸ lo) (index x ▸ hi), index]
  · have off (x : UInt32) (b : Nat) (live : L x = some b) :
        ¬ (heap.blockIndex x ≤ i ∧ i < heap.blockIndex x + b) := fun on => taken ⟨x, b, live, on⟩
    rw [kernel.entry_free inside off, kernel'.entry_free inside fun x b live => index x ▸ off x b live]

/-- A block that is not live yet is free. -/
theorem LiveHeap.fresh_free (kernel : LiveHeap heap L) (kernel' : LiveHeap heap' L') (more : Extends L L')
    {x : UInt32} {b : Nat} (fresh : L x = none) (live : L' x = some b) :
    heap'.blockIndex x < 25600 ∧ heap.table.entries (heap'.blockIndex x) = heapBlockTableEntryFree := by
  have index (x : UInt32) : heap'.blockIndex x = heap.blockIndex x := by
    rw [Heap.blockIndex, Heap.blockIndex, kernel.saddr, kernel'.saddr]
  obtain ⟨nonempty, inside, _⟩ := kernel'.block live
  have here : heap'.blockIndex x ≤ heap'.blockIndex x ∧ heap'.blockIndex x < heap'.blockIndex x + b := by
    omega
  have within : heap'.blockIndex x < 25600 := by omega
  refine ⟨within, kernel.entry_free within fun y c old on => ?_⟩
  rw [← index y] at on
  have same := kernel'.apart live (more y c old) here on
  rw [same, old] at fresh
  cases fresh

end

end PeachOs
