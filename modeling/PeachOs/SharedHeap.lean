import PeachOs.DescriptorRuns
import PeachOs.FreshHeap
import Mathlib.Data.List.TakeWhile

/-!
# One heap for the loader and the file system

The file system keeps its records in blocks of the heap that the loader's blocks come
from. The heap of `HeapLaws` is the file system's state with that heap in it, and
the operations are `fopen`, `fstat`, `fread` and `fclose` on the volume.
-/

namespace PeachOs

open Memory Address Ownership
open Function (update)

/-! ## What a read writes -/

theorem diskSteamerRead_length_le (device : BlockDevice) (pos total : Int) :
    (diskSteamerRead device pos total).out.length ≤ total.toNat := by
  generalize left : total.toNat = n
  induction n using Nat.strongRecOn generalizing pos total with
  | ind n ih =>
    have offset := Int.tmod_lt_of_pos pos (show (0 : Int) < peachosSectorSize by decide)
    rw [diskSteamerRead]
    dsimp only
    split
    · simp
    · split
      · have rest := ih _ (by omega) (int32 (pos + (peachosSectorSize - pos.tmod peachosSectorSize)))
          (total - (peachosSectorSize - pos.tmod peachosSectorSize)) rfl
        simp only [List.length_append, List.length_map, List.length_range]
        omega
      · simp [left]

theorem readInternal_length_le {device : BlockDevice} {p : FatPrivate} {streams streams' : Streams} {stream : UInt32}
    {cluster offset total res : Int} {out : List UInt8}
    (run : fat16ReadInternalFromStream device p streams stream cluster offset total = some (res, out, streams')) :
    out.length ≤ total.toNat := by
  generalize left : total.toNat = n
  induction n using Nat.strongRecOn generalizing streams offset total res out streams' with
  | ind n ih =>
    cases found : fat16GetClusterForOffset device p streams cluster offset with
    | none =>
      rw [readInternal_missing stream total found] at run
      cases run
    | some result =>
      obtain ⟨c, s⟩ := result
      have positive := clusterForOffset_divides found
      rw [readInternal_chunk stream total found] at run
      dsimp only at run
      have chunk := diskSteamerRead_length_le device
        (int32 (fat16ClusterToSector p c * peachosSectorSize + offset.tmod p.clusterBytes))
        (if total > p.clusterBytes then p.clusterBytes else total)
      have within : (if total > p.clusterBytes then p.clusterBytes else total) ≤ total := by
        split <;> omega
      have some (more : total - (if total > p.clusterBytes then p.clusterBytes else total) > 0) :
          0 < (if total > p.clusterBytes then p.clusterBytes else total) := by
        split <;> omega
      generalize (if total > p.clusterBytes then p.clusterBytes else total) = k at run chunk within some
      generalize diskSteamerRead device _ k = read at run chunk
      split at run
      · cases run
        exact Nat.zero_le n
      · split at run
        · cases run
          omega
        · split at run
          · rename_i more
            obtain ⟨⟨res', out', s'⟩, rest, same⟩ := Option.map_eq_some_iff.mp run
            obtain ⟨rfl, rfl, rfl⟩ : res' = res ∧ read.out ++ out' = out ∧ s' = streams' := by simpa using same
            have length := ih _ (by omega) rest rfl
            rw [List.length_append]
            omega
          · cases run
            omega

/-- At most `left` items of at most `size` bytes. -/
structure ItemsFit (size : UInt32) (left : Nat) (chunks : List (List UInt8)) : Prop where
  count : chunks.length ≤ left
  length : ∀ out ∈ chunks, out.length ≤ size.toNat

theorem readItemsFrom_fit {read : Streams → UInt32 → Option (Int × List UInt8 × Streams)} {size : UInt32}
    (item : ∀ streams offset res out streams', read streams offset = some (res, out, streams') → out.length ≤ size.toNat)
    {left : Nat} {streams streams' : Streams} {offset : UInt32} {res : Int} {chunks : List (List UInt8)}
    (run : readItemsFrom read size streams offset left = some (res, chunks, streams')) : ItemsFit size left chunks := by
  induction left generalizing streams offset res chunks streams' with
  | zero =>
    cases run
    exact ⟨Nat.le_refl 0, fun _ mem => absurd mem List.not_mem_nil⟩
  | succ left ih =>
    rw [readItemsFrom] at run
    cases one : read streams offset with
    | none => simp [one] at run
    | some result =>
      obtain ⟨r, out, s⟩ := result
      have first := item _ _ _ _ _ one
      simp only [one] at run
      split at run
      · cases run
        exact ⟨by simp, by simpa using first⟩
      · cases later : readItemsFrom read size s (offset + size) left with
        | none => simp [later] at run
        | some rest =>
          obtain ⟨r', chunks', s'⟩ := rest
          simp only [later, Option.some.injEq, Prod.mk.injEq] at run
          obtain ⟨rfl, rfl, rfl⟩ := run
          obtain ⟨count, length⟩ := ih later
          exact ⟨by simpa using count, by simpa using ⟨first, length⟩⟩

theorem fread_fit {H : Type} {device : BlockDevice} {s s' : Files H} {size nmemb : UInt32} {fd res : Int}
    {chunks : List (List UInt8)} (run : fread device s size nmemb fd = some (res, chunks, s')) :
    ItemsFit size nmemb.toNat chunks := by
  have none : ItemsFit size nmemb.toNat [] := ⟨Nat.zero_le _, fun _ mem => absurd mem List.not_mem_nil⟩
  have short : (int32 size.toNat).toNat ≤ size.toNat := by
    have below := size.toNat_lt
    unfold int32
    rw [Int.bmod_def]
    omega
  unfold fread at run
  dsimp only at run
  split at run
  · cases run
    exact none
  · split at run
    · cases run
      exact none
    · rw [fat16Read_eq] at run
      obtain ⟨⟨r, items, fs⟩, read, same⟩ := Option.map_eq_some_iff.mp run
      cases same
      obtain ⟨⟨r', items', streams⟩, read', same⟩ := Option.map_eq_some_iff.mp read
      cases same
      refine readItemsFrom_fit (fun streams offset res out streams' one => ?_) read'
      exact Nat.le_trans (readInternal_length_le one) short

/-- Item `i` is stored from `ptr + i * size` on. -/
def storeItems (m : Ram) (ptr size : UInt32) : List (List UInt8) → Ram
  | [] => m
  | out :: chunks => storeItems (storeBytes m ptr out) (ptr + size) size chunks

theorem storeItems_agree (m : Ram) (ptr : UInt32) {size : UInt32} {left : Nat} {chunks : List (List UInt8)}
    (fit : ItemsFit size left chunks) :
    Agree (fun x => ¬ InRange x ptr (size.toNat * left)) m (storeItems m ptr size chunks) := by
  induction chunks generalizing m ptr left with
  | nil => exact Agree.refl _ _
  | cons out chunks ih =>
    obtain ⟨count, length⟩ := fit
    have first := length out List.mem_cons_self
    have below := size.toNat_lt
    rw [List.length_cons] at count
    cases left with
    | zero => exact absurd count (Nat.not_succ_le_zero _)
    | succ left =>
      intro x off
      have bound : size.toNat * (left + 1) ≤ 2 ^ 32 := by
        by_contra whole
        exact off (Nat.lt_of_lt_of_le (UInt32.toNat_lt _) (Nat.le_of_not_le whole))
      have total : size.toNat * (left + 1) = size.toNat + size.toNat * left := by
        rw [Nat.mul_add_one, Nat.add_comm]
      have here : ¬ InRange x ptr out.length := by
        intro inside
        exact off (Nat.lt_of_lt_of_le inside (by omega))
      have later : ¬ InRange x (ptr + size) (size.toNat * left) := by
        intro inside
        have start : ptr + size = ptr + .ofNat size.toNat := by rw [UInt32.ofNat_toNat]
        rw [start] at inside
        exact off (inRange_offset (size.toNat * (left + 1)) inside (by omega) bound).2
      rw [storeItems, ih _ _ ⟨by omega, fun out mem => length out (List.mem_cons_of_mem _ mem)⟩ x later,
        storeBytes_agree m ptr out (by omega) x here]

/-! ## Where live blocks lie -/

/-- Live blocks lie in the pool, apart from each other. -/
structure PageLaws {H : Type} (A : Allocator H) extends BlockLaws A where
  pool : ∀ h L x b, granted h → holds h L → L x = some b → InPool x b
  apart : ∀ h L x y b c a, granted h → holds h L → L x = some b → L y = some c → InRange a x (4096 * b) →
    InRange a y (4096 * c) → x = y

theorem LiveHeap.place {heap : Heap} {L : Ledger UInt32 Nat} (kernel : LiveHeap heap L) {x : UInt32} {b : Nat}
    (live : L x = some b) : x.toNat = 0x1000000 + 4096 * heap.blockIndex x ∧ heap.blockIndex x + b ≤ 25600 := by
  obtain ⟨_, inside, place⟩ := kernel.block live
  have start : heapStartAddr.toNat = 0x1000000 := by decide
  refine ⟨?_, inside⟩
  conv_lhs => rw [place]
  rw [UInt32.toNat_add, start, UInt32.toNat_ofNat']
  omega

/-- The kernel's block heap. -/
def kernelPages : PageLaws watchedHeap where
  toBlockLaws := kernelBlocks
  pool w L x b _ kernel live := by
    obtain ⟨place, inside⟩ := LiveHeap.place kernel live
    exact ⟨aligned_toNat.mpr (by omega), by omega, by omega⟩
  apart w L x y b c a _ kernel hx hy inx iny := by
    obtain ⟨placeX, insideX⟩ := LiveHeap.place kernel hx
    obtain ⟨placeY, insideY⟩ := LiveHeap.place kernel hy
    rw [inRange_iff (by omega)] at inx iny
    exact LiveHeap.apart kernel (i := (a.toNat - 0x1000000) / 4096) hx hy ⟨by omega, by omega⟩ ⟨by omega, by omega⟩

/-- The live blocks lie below the counter. -/
structure FreshLive (next : Nat) (L : Ledger UInt32 Nat) : Prop where
  pool : ∀ x b, L x = some b →
    1 ≤ b ∧ x % 4096 = 0 ∧ 0x1000000 ≤ x.toNat ∧ x.toNat + 4096 * b ≤ 0x1000000 + 4096 * next
  apart : ∀ x y b c, L x = some b → L y = some c → x.toNat < y.toNat → x.toNat + 4096 * b ≤ y.toNat

theorem freshHeap_place {next n : Nat} (fits : next + n ≤ 25600) :
    (UInt32.ofNat (0x1000000 + 4096 * next)).toNat = 0x1000000 + 4096 * next := by
  rw [UInt32.toNat_ofNat']
  omega

theorem FreshLive.malloc {next n : Nat} {L : Ledger UInt32 Nat} (live : FreshLive next L) (positive : 1 ≤ n)
    (fits : next + n ≤ 25600) : L (.ofNat (0x1000000 + 4096 * next)) = none ∧
      FreshLive (next + n) (update L (.ofNat (0x1000000 + 4096 * next)) (some n)) := by
  have place := freshHeap_place fits
  generalize UInt32.ofNat (0x1000000 + 4096 * next) = p at place ⊢
  refine ⟨?_, fun x b owned => ?_, fun x y b c hx hy below => ?_⟩
  · by_contra taken
    obtain ⟨b, owned⟩ := Option.ne_none_iff_exists'.mp taken
    have := live.pool p b owned
    omega
  · by_cases here : x = p
    · subst here
      rw [Function.update_self] at owned
      cases owned
      exact ⟨positive, aligned_toNat.mpr (by omega), by omega, by omega⟩
    · rw [Function.update_of_ne here] at owned
      have := live.pool x b owned
      exact ⟨this.1, this.2.1, this.2.2.1, by omega⟩
  · by_cases there : x = p
    · -- nothing lies above the new block
      subst there
      have ne : y ≠ x := fun same => absurd below (by rw [same]; exact Nat.lt_irrefl _)
      rw [Function.update_of_ne ne] at hy
      have := live.pool y c hy
      omega
    · rw [Function.update_of_ne there] at hx
      by_cases here : y = p
      · have := live.pool x b hx
        rw [here, place]
        omega
      · rw [Function.update_of_ne here] at hy
        exact live.apart x y b c hx hy below

theorem FreshLive.request {next : Nat} {n : UInt32} {L : Ledger UInt32 Nat} (live : FreshLive next L)
    (positive : 1 ≤ n.toNat) (fits : next + blocksNeeded n ≤ 25600) :
    (0 < (freshHeap.malloc next n).1.toNat ∧ (freshHeap.malloc next n).1.toNat < 2 ^ 31) ∧
      L (freshHeap.malloc next n).1 = none ∧ FreshLive (freshHeap.malloc next n).2
        (update L (freshHeap.malloc next n).1 (some (blocksNeeded n))) := by
  have one : 1 ≤ blocksNeeded n := by
    unfold blocksNeeded
    omega
  obtain ⟨fresh, live'⟩ := live.malloc one fits
  have place := freshHeap_place fits
  refine ⟨?_, fresh, live'⟩
  dsimp only [freshHeap]
  omega

theorem FreshLive.free {next : Nat} {L : Ledger UInt32 Nat} (live : FreshLive next L) (p : UInt32) :
    FreshLive next (update L p none) := by
  have old {x : UInt32} {b : Nat} (left : update L p none x = some b) : L x = some b := by
    by_cases here : x = p
    · rw [here, Function.update_self] at left
      cases left
    · rwa [Function.update_of_ne here] at left
  exact ⟨fun x b left => live.pool x b (old left), fun x y b c hx hy => live.apart x y b c (old hx) (old hy)⟩

theorem FreshLive.inPool {next b : Nat} {L : Ledger UInt32 Nat} {x : UInt32} (live : FreshLive next L)
    (fits : next ≤ 25600) (owned : L x = some b) : InPool x b := by
  have place := live.pool x b owned
  exact ⟨place.2.1, place.2.2.1, by omega⟩

theorem FreshLive.same {next b c : Nat} {L : Ledger UInt32 Nat} {a x y : UInt32} (live : FreshLive next L)
    (fits : next ≤ 25600) (hx : L x = some b) (hy : L y = some c) (inx : InRange a x (4096 * b))
    (iny : InRange a y (4096 * c)) : x = y := by
  have placeX := live.pool x b hx
  have placeY := live.pool y c hy
  rw [inRange_iff (by omega)] at inx iny
  apply UInt32.toNat_inj.mp
  rcases Nat.lt_trichotomy x.toNat y.toNat with below | same | above
  · have := live.apart x y b c hx hy below
    omega
  · exact same
  · have := live.apart y x c b hy hx above
    omega

def freshPages : PageLaws freshHeap where
  granted next := next ≤ 25600
  holds := FreshLive
  malloc_granted := freshBlocks.malloc_granted
  free_granted := freshBlocks.free_granted
  malloc _ _ _ granted live positive := live.request positive granted
  malloc_empty _ _ _ _ live _ := live
  free _ _ p live _ := live.free p
  pool _ _ _ _ granted live owned := live.inPool granted owned
  apart _ _ _ _ _ _ _ granted live hx hy inx iny := live.same granted hx hy inx iny

/-! ## The shared heap -/

section

variable {H : Type} {A : Allocator H}

/-- The files' blocks and those that were handed to other code are live, and no file
has a block of the latter. -/
structure Shared (laws : PageLaws A) (files : Files H) (handed L : Ledger UInt32 Nat) : Prop where
  holds : laws.holds files.heap L
  table : TableOk L files
  live : Extends handed L
  apart : ∀ i < peachosMaxFileDescriptors, files.fileDescriptors i ≠ 0 → ∀ x ∈ files.slotBlocks i, handed x = none

/-- The file system with the heap, and the blocks handed to other code. `granted`: every
request asked for something and found room, every release was of such a block, and
every call of the file system returned. -/
structure SharedHeap (laws : PageLaws A) where
  files : Files H
  handed : Ledger UInt32 Nat
  granted : Prop
  heap : granted → laws.granted files.heap
  sound : granted → ∃ L, Shared laws files handed L

variable {laws : PageLaws A} {L : Ledger UInt32 Nat} {files : Files H} {handed : Ledger UInt32 Nat}

theorem Shared.malloc {n : UInt32} (shared : Shared laws files handed L) (positive : 1 ≤ n.toNat)
    (granted : laws.granted (A.malloc files.heap n).2) : L (A.malloc files.heap n).1 = none ∧
      Shared laws { files with heap := (A.malloc files.heap n).2 }
        (update handed (A.malloc files.heap n).1 (some (blocksNeeded n)))
        (update L (A.malloc files.heap n).1 (some (blocksNeeded n))) := by
  obtain ⟨_, fresh, holds⟩ := laws.malloc files.heap n L granted shared.holds positive
  refine ⟨fresh, holds, shared.table.grow (extends_update fresh _) { KeptFiles.refl L files with } rfl,
    fun x b mem => ?_, fun i hi open' x mem => ?_⟩
  · by_cases here : x = (A.malloc files.heap n).1
    · rw [here, Function.update_self] at mem ⊢
      exact mem
    · rw [Function.update_of_ne here] at mem ⊢
      exact shared.live x b mem
  · have ne : x ≠ (A.malloc files.heap n).1 := by
      rintro rfl
      exact shared.table.live i hi open' _ mem fresh
    rw [Function.update_of_ne ne]
    exact shared.apart i hi open' x mem

theorem Shared.free {p : UInt32} (shared : Shared laws files handed L) (there : handed p ≠ none) :
    Shared laws { files with heap := A.free files.heap p } (update handed p none) (update L p none) := by
  have owned : L p ≠ none := shared.live.owned there
  have ne {i : Nat} (hi : i < peachosMaxFileDescriptors) (open' : files.fileDescriptors i ≠ 0) {x : UInt32}
      (mem : x ∈ files.slotBlocks i) : x ≠ p := by
    rintro rfl
    exact there (shared.apart i hi open' x mem)
  refine ⟨laws.free files.heap L p shared.holds owned, ?_, fun x b mem => ?_, fun i hi open' x mem => ?_⟩
  · apply shared.table.keep
    · intro i hi open'
      exact ⟨rfl, rfl, rfl, rfl⟩
    · intro i hi open' x mem
      rw [Function.update_of_ne (ne hi open' mem)]
      exact shared.table.live i hi open' x mem
  · by_cases here : x = p
    · rw [here, Function.update_self] at mem
      cases mem
    · rw [Function.update_of_ne here] at mem ⊢
      exact shared.live x b mem
  · rw [Function.update_of_ne (ne hi open' mem)]
    exact shared.apart i hi open' x mem

variable {device : BlockDevice} {s : Files H}

theorem Shared.fopen {filename modeStr : List UInt8} {res : Int} (shared : Shared laws files handed L)
    (run : fopen A device files filename modeStr = some (res, s)) (granted : laws.granted s.heap)
    (noNul : (0 : UInt8) ∉ filename) : ∃ L', Shared laws s handed L' := by
  obtain ⟨L', more, holds, kept, opened⟩ :=
    fopen_spec run granted shared.holds noNul (fopen_accepted run noNul)
  have old {i : Nat} (hi : i < peachosMaxFileDescriptors) (open' : files.fileDescriptors i ≠ 0)
      (same : s.fileDescriptors i = files.fileDescriptors i) : ∀ x ∈ s.slotBlocks i, handed x = none := by
    rw [(kept.slot same (shared.table.live i hi open')).blocks]
    exact shared.apart i hi open'
  cases opened with
  | failed same =>
    refine ⟨L', holds, shared.table.grow more kept same, shared.live.trans more, fun i hi open' => ?_⟩
    rw [same] at open'
    exact old hi open' (congrFun same i)
  | @opened i d lowest same new =>
    have others (j : Nat) (ne : j ≠ i) : s.fileDescriptors j = files.fileDescriptors j := by
      rw [same, Function.update_of_ne ne]
    refine ⟨L', holds, shared.table.add more kept new others, shared.live.trans more, fun j hj open' => ?_⟩
    by_cases here : j = i
    · subst here
      exact fun x mem => shared.live.free (new.fresh x mem)
    · rw [others j here] at open'
      exact old hj open' (others j here)

theorem Shared.fclose (shared : Shared laws files handed L) (fd : Int) :
    ∃ L', Shared laws (fclose A files fd).2 handed L' := by
  by_cases closed : fileGetDescriptor files fd = 0
  · rw [fclose_closed closed]
    exact ⟨L, shared⟩
  · obtain ⟨i, s, L', hi, rfl, run, same, holds, left, kept, table⟩ := fclose_spec (A := A) shared.table shared.holds closed
    have some : files.fileDescriptors i ≠ 0 := by
      obtain ⟨j, _, number, open'⟩ := open_iff.mp closed
      have : i = j := by omega
      rwa [this]
    rw [run]
    refine ⟨L', holds, table, fun x b mem => ?_, fun j hj open' => ?_⟩
    · rw [left x]
      · exact shared.live x b mem
      · intro block
        rw [shared.apart i hi some x block] at mem
        cases mem
    · have ne : j ≠ i := by
        rintro rfl
        rw [same, Function.update_self] at open'
        exact open' rfl
      have slot : s.fileDescriptors j = files.fileDescriptors j := by
        rw [same, Function.update_of_ne ne]
      rw [slot] at open'
      rw [(kept.slot slot (shared.table.live j hj open')).blocks]
      exact shared.apart j hj open'

theorem Shared.fread {size nmemb : UInt32} {fd res : Int} {chunks : List (List UInt8)}
    (shared : Shared laws files handed L) (run : fread device files size nmemb fd = some (res, chunks, s)) :
    ∃ L', Shared laws s handed L' := by
  obtain ⟨streams, rfl⟩ := fread_streams run
  exact ⟨L, shared.holds, shared.table.streams streams, shared.live, shared.apart⟩

namespace SharedHeap

/-- After a call of the file system that left `files'`, or did not return. -/
def after (h : SharedHeap laws) (files' : Option (Files H))
    (kept : ∀ s L, files' = some s → laws.granted s.heap → Shared laws h.files h.handed L →
      ∃ L', Shared laws s h.handed L') : SharedHeap laws where
  files := files'.getD h.files
  handed := h.handed
  granted := h.granted ∧ ∃ s, files' = some s ∧ laws.granted s.heap
  heap := by
    rintro ⟨_, s, rfl, granted⟩
    exact granted
  sound := by
    rintro ⟨before, s, rfl, granted⟩
    obtain ⟨L, shared⟩ := h.sound before
    exact kept s L rfl granted shared

/-- `kMalloc` for other code than the file system. -/
def malloc (h : SharedHeap laws) (n : UInt32) : UInt32 × SharedHeap laws :=
  let ptr := (A.malloc h.files.heap n).1
  (ptr, {
    files := { h.files with heap := (A.malloc h.files.heap n).2 }
    handed := update h.handed ptr ((h.handed ptr).or (some (blocksNeeded n)))
    granted := h.granted ∧ laws.granted (A.malloc h.files.heap n).2 ∧ 1 ≤ n.toNat
    heap := fun granted => granted.2.1
    sound := by
      rintro ⟨before, granted, positive⟩
      obtain ⟨L, shared⟩ := h.sound before
      obtain ⟨fresh, shared'⟩ := shared.malloc positive granted
      have unused : h.handed ptr = none := shared.live.free fresh
      rw [unused, Option.none_or]
      exact ⟨_, shared'⟩ })

def free (h : SharedHeap laws) (p : UInt32) : SharedHeap laws where
  files := { h.files with heap := A.free h.files.heap p }
  handed := update h.handed p none
  granted := h.granted ∧ h.handed p ≠ none
  heap := fun granted => (laws.free_granted _ _).mpr (h.heap granted.1)
  sound := by
    rintro ⟨before, there⟩
    obtain ⟨L, shared⟩ := h.sound before
    exact ⟨_, shared.free there⟩

end SharedHeap

def sharedAllocator (laws : PageLaws A) : Allocator (SharedHeap laws) where
  malloc := SharedHeap.malloc
  free := SharedHeap.free

/-- A string ends at its first NUL. -/
def cString (s : List UInt8) : List UInt8 := s.takeWhile (· ≠ 0)

theorem cString_noNul (s : List UInt8) : (0 : UInt8) ∉ cString s := by
  intro mem
  simpa using List.mem_takeWhile_imp mem

/-- The calls on the volume of `device`. -/
def sharedFiles (laws : PageLaws A) (device : BlockDevice) : FileOps (SharedHeap laws) where
  fopen h m filename mode :=
    let result := fopen A device h.files (cString filename) mode
    ((result.map Prod.fst).getD 0, h.after (result.map Prod.snd) (by
      intro s L left granted shared
      obtain ⟨⟨res, _⟩, run, rfl⟩ := Option.map_eq_some_iff.mp left
      exact shared.fopen run granted (cString_noNul filename)), m)
  fstat h m fd :=
    let (res, stat) := fstat h.files fd
    ((res, (stat.map FileStat.filesize).getD 0), h, m)
  fread h m ptr size nmemb fd :=
    let result := fread device h.files size nmemb fd
    ((result.map fun r => r.1).getD 0, h.after (result.map fun r => r.2.2) (by
      intro s L left _ shared
      obtain ⟨⟨res, chunks, _⟩, run, rfl⟩ := Option.map_eq_some_iff.mp left
      exact shared.fread run), storeItems m ptr size ((result.map fun r => r.2.1).getD []))
  fclose h m fd :=
    ((fclose A h.files fd).1, h.after (some (fclose A h.files fd).2) (by
      intro s L left _ shared
      cases left
      exact shared.fclose fd), m)

/-! ## Its laws -/

/-- A page of a block that was handed out. -/
def SharedHeap.Owned (h : SharedHeap laws) (x : UInt32) : Prop :=
  (0x1000000 ≤ x.toNat ∧ x.toNat < 0x7400000) ∧ ∃ p b, h.handed p = some b ∧ InRange x p (4096 * b)

theorem SharedHeap.Owned.mono {h h' : SharedHeap laws} {x : UInt32} (owned : h.Owned x)
    (more : ∀ p b, h.handed p = some b → InRange x p (4096 * b) → h'.handed p = some b) : h'.Owned x := by
  obtain ⟨pool, p, b, there, inside⟩ := owned
  exact ⟨pool, p, b, more p b there inside, inside⟩

theorem frame_inRange {x p : UInt32} {n : Nat} (aligned : p % 4096 = 0) (inside : InRange x p (4096 * n)) :
    InRange (frame x) p (4096 * n) := by
  have h := aligned_toNat.mp aligned
  have hx := x.toNat_lt
  have hp := p.toNat_lt
  unfold InRange at *
  rw [toNat_sub] at inside ⊢
  rw [frame_toNat]
  omega

/-- What a granted request hands out. -/
theorem SharedHeap.malloc_shared {h : SharedHeap laws} {n : UInt32} (granted : (h.malloc n).2.granted) :
    ∃ L, Shared laws h.files h.handed L ∧ L (h.malloc n).1 = none ∧ h.handed (h.malloc n).1 = none ∧
      (h.malloc n).2.handed (h.malloc n).1 = some (blocksNeeded n) ∧
      Shared laws (h.malloc n).2.files (h.malloc n).2.handed
        (update L (h.malloc n).1 (some (blocksNeeded n))) := by
  obtain ⟨before, granted', positive⟩ := granted
  obtain ⟨L, shared⟩ := h.sound before
  obtain ⟨fresh, shared'⟩ := shared.malloc positive granted'
  have unused := shared.live.free fresh
  have entry : (h.malloc n).2.handed =
      update h.handed (A.malloc h.files.heap n).1 (some (blocksNeeded n)) := by
    simp only [malloc, unused, Option.none_or]
  refine ⟨L, shared, fresh, unused, ?_, ?_⟩
  · rw [entry]
    exact Function.update_self _ _ _
  · rw [entry]
    exact shared'

theorem SharedHeap.malloc_pool {h : SharedHeap laws} {n : UInt32} (granted : (h.malloc n).2.granted) :
    InPool (h.malloc n).1 (blocksNeeded n) := by
  obtain ⟨L, _, _, _, _, shared⟩ := malloc_shared granted
  exact laws.pool _ _ _ _ granted.2.1 shared.holds (Function.update_self _ _ L)

/-- A request and a release keep the block of every other pointer. -/
theorem SharedHeap.malloc_keeps (h : SharedHeap laws) (n : UInt32) {p : UInt32} {b : Nat} (there : h.handed p = some b) :
    (h.malloc n).2.handed p = some b := by
  dsimp only [malloc]
  by_cases here : p = (A.malloc h.files.heap n).1
  · rw [← here, Function.update_self, there, Option.some_or]
  · rw [Function.update_of_ne here, there]

def sharedLaws (laws : PageLaws A) (device : BlockDevice) : HeapLaws (sharedAllocator laws) (sharedFiles laws device) where
  granted h := h.granted
  owned := SharedHeap.Owned
  owned_pool h x owned := owned.1
  malloc_granted h n granted := granted.1
  malloc_pool h n granted := SharedHeap.malloc_pool granted
  malloc_fresh h n granted x inside owned := by
    obtain ⟨L, shared, fresh, unused, _, shared'⟩ := SharedHeap.malloc_shared granted
    obtain ⟨_, p, b, there, inside'⟩ := owned
    have ne : p ≠ (h.malloc n).1 := by
      rintro rfl
      rw [unused] at there
      cases there
    have live : update L (h.malloc n).1 (some (blocksNeeded n)) p = some b := by
      rw [Function.update_of_ne ne]
      exact shared.live p b there
    have inside := frame_inRange (SharedHeap.malloc_pool granted).aligned inside
    exact ne (laws.apart _ _ _ _ _ _ _ granted.2.1 shared'.holds live (Function.update_self _ _ L) inside' inside)
  malloc_new h n granted x inside := by
    obtain ⟨_, _, _, _, entry, _⟩ := SharedHeap.malloc_shared granted
    have pool := SharedHeap.malloc_pool granted
    have page := frame_inRange pool.aligned inside
    refine ⟨?_, _, _, entry, page⟩
    have low := pool.low
    have high := pool.high
    rw [inRange_iff (by omega)] at page
    omega
  malloc_old h n x owned := owned.mono fun p b there _ => h.malloc_keeps n there
  free_granted h p granted := granted.1
  free_old h n x granted owned := owned.mono fun p b there _ => by
    obtain ⟨_, _, _, unused, _, _⟩ := SharedHeap.malloc_shared granted
    have ne : p ≠ (h.malloc n).1 := by
      rintro rfl
      rw [unused] at there
      cases there
    exact (Function.update_of_ne ne _ _).trans (h.malloc_keeps n there)
  fopen h m filename mode := ⟨fun granted => granted.1, fun _ owned => owned, Agree.refl _ m⟩
  fstat h m fd := ⟨id, fun _ owned => owned, Agree.refl _ m⟩
  fread h m ptr size nmemb fd := by
    refine ⟨fun granted => granted.1, fun _ owned => owned, ?_⟩
    have fit : ItemsFit size nmemb.toNat (((fread device h.files size nmemb fd).map fun r => r.2.1).getD []) := by
      cases run : fread device h.files size nmemb fd with
      | none => exact ⟨Nat.zero_le _, fun _ mem => absurd mem List.not_mem_nil⟩
      | some result => exact fread_fit run
    exact (storeItems_agree m ptr fit).mono fun x owned => owned.2
  fclose h m fd := ⟨fun granted => granted.1, fun _ owned => owned, Agree.refl _ m⟩

end

end PeachOs
