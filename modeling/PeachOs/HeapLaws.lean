import PeachOs.Process
import PeachOs.Lib.Ledger

/-!
# What the loader relies on

`HeapLaws` states what heap and file system promise: a granted request gets a
fresh run of blocks in the heap's pool, and file operations leave alone what
other code was handed, the read buffer apart. A ledger names the owner of each
page; every operation extends it and keeps the bytes of owned pages.
-/

namespace PeachOs

open Memory Address Ownership

/-- A run of `blocks` blocks from `ptr` on, inside the pool. -/
structure InPool (ptr : UInt32) (blocks : Nat) : Prop where
  aligned : ptr % 4096 = 0
  low : 0x1000000 ≤ ptr.toNat
  high : ptr.toNat + 4096 * blocks ≤ 0x7400000

/-- `granted h`: every request so far was granted. `owned h p`: page `p` lies in a
block handed out by `kMalloc` outside the file system, and not released. -/
structure Accounts (H : Type) where
  granted : H → Prop
  owned : H → UInt32 → Prop

/-- A file operation that may write `buffer`. -/
structure Accounts.Quiet {H : Type} (acc : Accounts H) (h : H) (m : Ram) (buffer : UInt32 → Prop)
    (h' : H) (m' : Ram) : Prop where
  granted : acc.granted h' → acc.granted h
  owned : ∀ x, acc.owned h x → acc.owned h' x
  ram : Agree (fun x => acc.owned h (frame x) ∧ ¬ buffer x) m m'

variable {H : Type} (A : Allocator H) (F : FileOps H)

structure HeapLaws extends Accounts H where
  owned_pool : ∀ h x, owned h x → 0x1000000 ≤ x.toNat ∧ x.toNat < 0x7400000
  malloc_granted : ∀ h n, granted (A.malloc h n).2 → granted h
  malloc_pool : ∀ h n, granted (A.malloc h n).2 → InPool (A.malloc h n).1 (blocksNeeded n)
  malloc_fresh : ∀ h n, granted (A.malloc h n).2 →
    ∀ x, InRange x (A.malloc h n).1 (4096 * blocksNeeded n) → ¬ owned h (frame x)
  malloc_new : ∀ h n, granted (A.malloc h n).2 →
    ∀ x, InRange x (A.malloc h n).1 (4096 * blocksNeeded n) → owned (A.malloc h n).2 (frame x)
  malloc_old : ∀ h n x, owned h x → owned (A.malloc h n).2 x
  free_granted : ∀ h p, granted (A.free h p) → granted h
  free_old : ∀ h n x, granted (A.malloc h n).2 → owned h x →
    owned (A.free (A.malloc h n).2 (A.malloc h n).1) x
  fopen : ∀ h m name mode, toAccounts.Quiet h m (fun _ => False) (F.fopen h m name mode).2.1
    (F.fopen h m name mode).2.2
  fstat : ∀ h m fd, toAccounts.Quiet h m (fun _ => False) (F.fstat h m fd).2.1 (F.fstat h m fd).2.2
  fread : ∀ h m ptr size nmemb fd, toAccounts.Quiet h m
    (fun x => InRange x ptr (size.toNat * nmemb.toNat)) (F.fread h m ptr size nmemb fd).2.1
    (F.fread h m ptr size nmemb fd).2.2
  fclose : ∀ h m fd, toAccounts.Quiet h m (fun _ => False) (F.fclose h m fd).2.1
    (F.fclose h m fd).2.2

inductive Owner
  | kernel
  | record (process : UInt32)
  | paging (process : UInt32)
  | run (process : UInt32)
  deriving DecidableEq

/-- The pages that have an owner are handed out. -/
def Books {A : Allocator H} {F : FileOps H} (laws : HeapLaws A F) (h : H) (o : Ledger UInt32 Owner) :
    Prop :=
  ∀ x l, o x = some l → laws.owned h x

/-- From `h`, `m` to `h'`, `m'` the ledger grows and the bytes of owned pages stay. -/
structure Advance {A : Allocator H} {F : FileOps H} (laws : HeapLaws A F) (m : Ram)
    (o : Ledger UInt32 Owner) (h' : H) (m' : Ram) (o' : Ledger UInt32 Owner) : Prop where
  books : Books laws h' o'
  grown : Extends o o'
  kept : Agree (fun x => o (frame x) ≠ none) m m'

/-- `l` now owns the `blocks` blocks from `ptr` on, which had no owner. -/
structure NewRun (o o' : Ledger UInt32 Owner) (ptr : UInt32) (blocks : Nat) (l : Owner) : Prop where
  pool : InPool ptr blocks
  fresh : ∀ x, InRange x ptr (4096 * blocks) → o (frame x) = none
  labelled : ∀ x, InRange x ptr (4096 * blocks) → o' (frame x) = some l

theorem InPool.nonzero {ptr : UInt32} {blocks : Nat} (pool : InPool ptr blocks) : ptr ≠ 0 := by
  rintro rfl
  exact absurd pool.low (by decide)

section

variable {A : Allocator H} {F : FileOps H} {laws : HeapLaws A F} {h h' h'' : H} {m m' m'' : Ram}
  {o o' o'' : Ledger UInt32 Owner}

theorem Advance.trans (one : Advance laws m o h' m' o') (two : Advance laws m' o' h'' m'' o'') :
    Advance laws m o h'' m'' o'' :=
  ⟨two.books, one.grown.trans two.grown,
    one.kept.trans (two.kept.mono fun _ hx => one.grown.owned hx)⟩

theorem NewRun.mono {ptr : UInt32} {blocks : Nat} {l : Owner} (new : NewRun o o' ptr blocks l)
    {o₀ : Ledger UInt32 Owner} (before : Extends o₀ o) (after : Extends o' o'') :
    NewRun o₀ o'' ptr blocks l :=
  ⟨new.pool, fun x hx => before.free (new.fresh x hx), fun x hx => after _ _ (new.labelled x hx)⟩

/-- A ledger without owners. -/
theorem noBooks : Books laws h (fun _ => none) := fun _ _ owner => nomatch owner

theorem Advance.refl (books : Books laws h o) (m : Ram) : Advance laws m o h m o :=
  ⟨books, Extends.refl o, Agree.refl _ m⟩

/-- A file operation whose buffer had no owner at the start. -/
theorem Advance.quiet {buffer : UInt32 → Prop} (advance : Advance laws m o h' m' o')
    (quiet : laws.Quiet h' m' buffer h'' m'') (off : ∀ x, buffer x → o (frame x) = none) :
    Advance laws m o h'' m'' o' := by
  refine ⟨fun x l hx => quiet.owned x (advance.books x l hx), advance.grown, fun x hx => ?_⟩
  cases owner : o (frame x) with
  | none => exact absurd owner hx
  | some l =>
    have outside : ¬ buffer x := fun inside => hx (off x inside)
    rw [quiet.ram x ⟨advance.books _ l (advance.grown _ l owner), outside⟩, advance.kept x hx]

/-- A granted request puts its block under a new owner. -/
theorem malloc_books {n : UInt32} (granted : laws.granted (A.malloc h n).2) (books : Books laws h o)
    (l : Owner) : ∃ o', Books laws (A.malloc h n).2 o' ∧ Extends o o' ∧
      NewRun o o' (A.malloc h n).1 (blocksNeeded n) l := by
  have fresh (x : UInt32) (hx : InRange x (A.malloc h n).1 (4096 * blocksNeeded n)) :
      o (frame x) = none := by
    cases owner : o (frame x) with
    | none => rfl
    | some l' => exact absurd (books _ l' owner) (laws.malloc_fresh h n granted x hx)
  have grown : Extends o (assign o (fun p => ∃ x,
      InRange x (A.malloc h n).1 (4096 * blocksNeeded n) ∧ frame x = p) l) := by
    apply extends_assign
    rintro _ ⟨x, hx, rfl⟩
    exact fresh x hx
  refine ⟨_, ?_, grown, laws.malloc_pool h n granted, fresh, fun x hx => assign_new o l ⟨x, hx, rfl⟩⟩
  intro p l' owner
  by_cases new : ∃ x, InRange x (A.malloc h n).1 (4096 * blocksNeeded n) ∧ frame x = p
  · obtain ⟨x, hx, rfl⟩ := new
    exact laws.malloc_new h n granted x hx
  · rw [assign_old o l new] at owner
    exact laws.malloc_old h n p (books p l' owner)

theorem kZalloc_advance {n : UInt32} (granted : laws.granted (A.malloc h n).2)
    (books : Books laws h o) (l : Owner) :
    ∃ m' o', kZalloc A h m n = ((A.malloc h n).1, (A.malloc h n).2, m') ∧
      Advance laws m o (A.malloc h n).2 m' o' ∧ NewRun o o' (A.malloc h n).1 (blocksNeeded n) l := by
  obtain ⟨m', run, cleared⟩ := kZalloc_spec A h m n
  obtain ⟨o', books', grown, new⟩ := malloc_books granted books l
  refine ⟨m', o', run, ⟨books', grown, fun x hx => cleared x fun inside => ?_⟩, new⟩
  apply hx
  apply new.fresh x
  unfold InRange at inside ⊢
  unfold blocksNeeded
  omega

/-! ## A page directory -/

theorem after_granted (sizes : Nat → UInt32) {n : Nat} (granted : laws.granted (A.after h sizes n))
    {i : Nat} (hi : i ≤ n) : laws.granted (A.after h sizes i) := by
  induction n with
  | zero => rwa [show i = 0 by omega]
  | succ n ih =>
    by_cases last : i = n + 1
    · rwa [last]
    · exact ih (laws.malloc_granted _ _ granted) (by omega)

/-- `n` requests of a page each. -/
theorem requests_books {sizes : Nat → UInt32} (block : ∀ i, blocksNeeded (sizes i) = 1) (n : Nat)
    (granted : laws.granted (A.after h sizes n)) (books : Books laws h o) (l : Owner) :
    ∃ o', Books laws (A.after h sizes n) o' ∧ Extends o o' ∧
      (∀ i < n, NewRun o o' (A.pointer h sizes i) 1 l) ∧
      ∀ i < n, ∀ j < i, A.pointer h sizes j ≠ A.pointer h sizes i := by
  induction n with
  | zero =>
    refine ⟨o, books, Extends.refl o, fun i hi => ?_, fun i hi => ?_⟩
    · omega
    · omega
  | succ n ih =>
    obtain ⟨o₁, books₁, grown₁, new, distinct⟩ := ih (laws.malloc_granted _ _ granted)
    obtain ⟨o₂, books₂, grown₂, last⟩ := malloc_books granted books₁ l
    rw [block] at last
    have own (i : Nat) : InRange (A.pointer h sizes i) (A.pointer h sizes i) (4096 * 1) := by
      unfold InRange
      rw [UInt32.sub_self]
      decide
    refine ⟨o₂, books₂, grown₁.trans grown₂, fun i hi => ?_, fun i hi j hj same => ?_⟩
    · by_cases here : i = n
      · rw [here]
        exact last.mono grown₁ (Extends.refl o₂)
      · exact (new i (by omega)).mono (Extends.refl o) grown₂
    · by_cases here : i = n
      · have old := (new j (by omega)).labelled _ (own j)
        have none := last.fresh _ (own n)
        rw [show A.pointer h sizes j = A.pointer h sizes n from here ▸ same] at old
        rw [none] at old
        cases old
      · exact distinct i (by omega) j hj same

theorem newTables_heap (h : H) (m : Ram) (directory : UInt32) (flags : UInt8) (n : Nat) (hn : n ≤ 1024) :
    (newTables A (A.after h pagingRequests 1) m directory flags n).1 =
      A.after h pagingRequests (n + 1) := by
  induction n with
  | zero => rfl
  | succ n ih =>
    have size : sizeofUint32 * heapBlockSizeBytes / sizeofUnsignedInt = pagingRequests (n + 1) := by
      rw [pagingRequests, if_pos (by omega)]
      decide
    obtain ⟨m', run, _⟩ := kZalloc_spec A
      (newTables A (A.after h pagingRequests 1) m directory flags n).1
      (newTables A (A.after h pagingRequests 1) m directory flags n).2
      (sizeofUint32 * heapBlockSizeBytes / sizeofUnsignedInt)
    simp only [newTables, run]
    rw [ih (by omega), size]
    rfl

/-- The last store of `paging_new_4gb` is through the chunk, whatever its request returned. -/
theorem pagingNew4gb_requests (h : H) (m : Ram) (flags : UInt8) :
    ∃ m₃, pagingNew4gb A h m flags = (A.pointer h pagingRequests 1025, A.after h pagingRequests 1026,
      store32 m₃ (A.pointer h pagingRequests 1025) (A.pointer h pagingRequests 0)) := by
  have size : sizeofUint32 * heapBlockSizeBytes / sizeofUnsignedInt = pagingRequests 0 := by decide
  have entries : (heapBlockSizeBytes / sizeofUnsignedInt).toNat = 1024 := by decide
  have chunk : sizeofPaging4gbChunk = pagingRequests 1025 := by decide
  obtain ⟨m₁, first, _⟩ := kZalloc_spec A h m (pagingRequests 0)
  have start : (A.malloc h (pagingRequests 0)).2 = A.after h pagingRequests 1 := rfl
  have tables := newTables_heap (A := A) h m₁ (A.malloc h (pagingRequests 0)).1 flags 1024 (by omega)
  unfold pagingNew4gb
  rw [size, first, start]
  dsimp only
  rw [entries]
  obtain ⟨m₂, last, _⟩ := kZalloc_spec A (A.after h pagingRequests 1025)
    (newTables A (A.after h pagingRequests 1) m₁ (A.malloc h (pagingRequests 0)).1 flags 1024).2
    (pagingRequests 1025)
  rw [tables, chunk, last]
  exact ⟨m₂, rfl⟩

/-- The requests `paging_new_4gb` makes do not depend on what it gets. -/
theorem pagingNew4gb_heap (h : H) (m : Ram) (flags : UInt8) :
    (pagingNew4gb A h m flags).2.1 = A.after h pagingRequests 1026 := by
  obtain ⟨m₃, run⟩ := pagingNew4gb_requests (A := A) h m flags
  rw [run]

/-- A page directory built from granted requests, all of it under one owner. -/
theorem pagingNew4gb_advance {flags : UInt8} (granted : laws.granted (pagingNew4gb A h m flags).2.1)
    (books : Books laws h o) (l : Owner) :
    ∃ m' o' directory tables, (pagingNew4gb A h m flags).2.2 = m' ∧
      Fresh4gb m m' (pagingNew4gb A h m flags).1 directory tables flags ∧
      Advance laws m o (pagingNew4gb A h m flags).2.1 m' o' ∧
      InPool (pagingNew4gb A h m flags).1 1 ∧
      ∀ x, OnPages (pagingNew4gb A h m flags).1 directory tables x →
        o (frame x) = none ∧ o' (frame x) = some l := by
  rw [pagingNew4gb_heap] at granted
  have block (i : Nat) : blocksNeeded (pagingRequests i) = 1 := by
    unfold pagingRequests
    split <;> decide
  obtain ⟨o', books', grown, new, distinct⟩ := requests_books block 1026 granted books l
  have fresh : FreshBlocks A h pagingRequests 1026 := by
    refine ⟨fun i hi => (new i hi).pool.aligned, fun i hi j hj same => ?_⟩
    by_contra ne
    rcases Nat.lt_or_gt_of_ne ne with lt | gt
    · exact distinct j hj i lt same
    · exact distinct i hi j gt same.symm
  obtain ⟨m', run, built⟩ := pagingNew4gb_spec A fresh m flags
  have page (x : UInt32) (i : Nat) (hi : i < 1026) (hx : frame x = A.pointer h pagingRequests i) :
      o (frame x) = none ∧ o' (frame x) = some l := by
    have inside : InRange x (A.pointer h pagingRequests i) (4096 * 1) :=
      (inRange_page (new i hi).pool.aligned).mpr hx
    exact ⟨(new i hi).fresh x inside, (new i hi).labelled x inside⟩
  have pages (x : UInt32) (hx : OnPages (A.pointer h pagingRequests 1025) (A.pointer h pagingRequests 0)
      (fun i => A.pointer h pagingRequests (i + 1)) x) : o (frame x) = none ∧ o' (frame x) = some l := by
    rcases hx with hx | hx | ⟨i, hi, hx⟩
    · exact page x 1025 (by omega) hx
    · exact page x 0 (by omega) hx
    · exact page x (i + 1) (by omega) hx
  rw [run]
  refine ⟨m', o', _, _, rfl, built, ⟨books', grown, ?_⟩, (new 1025 (by omega)).pool, pages⟩
  exact built.others.mono fun x owned on => owned (pages x on).1

end

end PeachOs
