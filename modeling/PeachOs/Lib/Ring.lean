import Mathlib.Data.Int.ModEq
import Mathlib.Logic.Function.Basic

/-!
# Ring buffers without a count

A ring of slots with a read and a write counter, which are only used modulo the
size and so may wrap at any multiple of it. A slot without an unread element
holds a mark, and this alone tells a full ring from an empty one.
-/

namespace PeachOs.Ring

open Function (update)

variable {α : Type*} {size : Nat} {mark : α} {slots : Nat → α} {head tail : Int} {queue : List α}

/-- The slot a counter stands for. -/
def index (size : Nat) (counter : Int) : Nat := (counter % size).toNat

/-- The ring holds `queue`, from the read counter on, and marks elsewhere. -/
structure Holds (size : Nat) (mark : α) (slots : Nat → α) (head tail : Int) (queue : List α) : Prop where
  room : queue.length ≤ size
  tail : tail ≡ head + queue.length [ZMOD size]
  unread : ∀ i (h : i < queue.length), slots (index size (head + i)) = queue[i]
  unmarked : ∀ c ∈ queue, c ≠ mark
  marked : ∀ i, queue.length ≤ i → i < size → slots (index size (head + i)) = mark

theorem index_congr {a b : Int} (same : a ≡ b [ZMOD size]) : index size a = index size b := by
  unfold index
  rw [same]

theorem index_injective (head : Int) {i j : Nat} (hi : i < size) (hj : j < size)
    (same : index size (head + i) = index size (head + j)) : i = j := by
  have pos : (size : Int) ≠ 0 := by omega
  have residues : (head + i) % size = (head + j) % size := by
    have lo := Int.emod_nonneg (head + i) pos
    have lo' := Int.emod_nonneg (head + j) pos
    unfold index at same
    omega
  have shifted : (i : Int) ≡ j [ZMOD size] := Int.ModEq.add_left_cancel' head residues
  unfold Int.ModEq at shifted
  rw [Int.emod_eq_of_lt (by omega) (by omega), Int.emod_eq_of_lt (by omega) (by omega)] at shifted
  omega

/-- Counters matter up to the size only. -/
theorem Holds.congr {head' tail' : Int} (holds : Holds size mark slots head tail queue)
    (sameHead : head' ≡ head [ZMOD size]) (sameTail : tail' ≡ tail [ZMOD size]) :
    Holds size mark slots head' tail' queue := by
  constructor
  · exact holds.room
  · exact sameTail.trans (holds.tail.trans (sameHead.symm.add_right _))
  · intro i h
    rw [index_congr (sameHead.add_right _)]
    exact holds.unread i h
  · exact holds.unmarked
  · intro i lo hi
    rw [index_congr (sameHead.add_right _)]
    exact holds.marked i lo hi

theorem Holds.empty : Holds size mark (fun _ => mark) head head [] := by
  constructor
  · exact Nat.zero_le size
  · simp only [List.length_nil, Nat.cast_zero, add_zero, Int.ModEq.refl]
  · intro i h
    cases h
  · intro c hc
    cases hc
  · intros
    rfl

/-- Writing at the write counter appends, while there is room. -/
theorem Holds.push (holds : Holds size mark slots head tail queue) (room : queue.length < size) {c : α}
    (hc : c ≠ mark) :
    Holds size mark (update slots (index size tail) c) head (tail + 1) (queue ++ [c]) := by
  have here : index size tail = index size (head + queue.length) := index_congr holds.tail
  rw [here]
  constructor
  · rw [List.length_append]
    exact room
  · rw [List.length_append, List.length_singleton, Nat.cast_add, Nat.cast_one, ← add_assoc]
    exact holds.tail.add_right 1
  · intro i h
    rw [List.length_append, List.length_singleton] at h
    by_cases last : i = queue.length
    · subst last
      simp
    · have apart : index size (head + i) ≠ index size (head + queue.length) := by
        intro same
        exact last (index_injective head (by omega) room same)
      rw [Function.update_of_ne apart, holds.unread i (by omega),
        List.getElem_append_left (by omega)]
  · intro d hd
    rcases List.mem_append.mp hd with hd | hd
    · exact holds.unmarked d hd
    · rw [List.mem_singleton.mp hd]
      exact hc
  · intro i lo hi
    rw [List.length_append, List.length_singleton] at lo
    have apart : index size (head + i) ≠ index size (head + queue.length) := by
      intro same
      have := index_injective head hi room same
      omega
    rw [Function.update_of_ne apart]
    exact holds.marked i (by omega) hi

/-- The slot at the read counter has the oldest element. -/
theorem Holds.front {c : α} (holds : Holds size mark slots head tail (c :: queue)) :
    slots (index size head) = c := by
  have first := holds.unread 0 (Nat.succ_pos _)
  simpa using first

/-- An empty ring has the mark at the read counter. -/
theorem Holds.front_nil (holds : Holds size mark slots head tail []) (pos : 0 < size) :
    slots (index size head) = mark := by
  have first := holds.marked 0 (Nat.le_refl 0) pos
  simpa using first

/-- The slot at the write counter is marked exactly when there is room. -/
theorem Holds.back_iff (holds : Holds size mark slots head tail queue) (pos : 0 < size) :
    slots (index size tail) = mark ↔ queue.length < size := by
  rw [index_congr holds.tail]
  constructor
  · intro empty
    by_contra full
    have whole : queue.length = size := Nat.le_antisymm holds.room (Nat.not_lt.mp full)
    have first := holds.unread 0 (by omega)
    have round : head + (queue.length : Int) ≡ head + (0 : Nat) [ZMOD size] := by
      rw [whole]
      simp [Int.ModEq]
    rw [← index_congr round, empty] at first
    exact holds.unmarked _ (List.getElem_mem (by omega)) first.symm
  · exact holds.marked _ (Nat.le_refl _)

/-- Clearing the slot at the read counter takes the oldest element out. -/
theorem Holds.pop {c : α} (holds : Holds size mark slots head tail (c :: queue)) :
    Holds size mark (update slots (index size head) mark) (head + 1) tail queue := by
  have room := holds.room
  rw [List.length_cons] at room
  have next (i : Nat) : head + 1 + (i : Int) = head + ((i + 1 : Nat) : Int) := by
    rw [Nat.cast_add, Nat.cast_one]
    omega
  have apart {i : Nat} (hi : i + 1 < size) : index size (head + 1 + i) ≠ index size head := by
    intro same
    rw [next] at same
    have := index_injective (j := 0) head hi (by omega) (by simpa using same)
    omega
  constructor
  · omega
  · rw [next]
    exact holds.tail
  · intro i h
    rw [Function.update_of_ne (apart (by omega)), next, holds.unread (i + 1) (by simpa using h)]
    rfl
  · exact fun d hd => holds.unmarked d (List.mem_cons_of_mem c hd)
  · intro i lo hi
    by_cases last : i + 1 = size
    · have round : head + 1 + (i : Int) ≡ head [ZMOD size] := by
        rw [next, last]
        simp [Int.ModEq]
      rw [index_congr round, Function.update_self]
    · rw [Function.update_of_ne (apart (by omega)), next]
      exact holds.marked (i + 1) (by simpa using lo) (by omega)

/-- Going back from the write counter takes the newest element out. -/
theorem Holds.unpush {c : α} (holds : Holds size mark slots head tail (queue ++ [c])) :
    Holds size mark (update slots (index size (tail - 1)) mark) head (tail - 1) queue := by
  have room := holds.room
  rw [List.length_append, List.length_singleton] at room
  have back : tail - 1 ≡ head + queue.length [ZMOD size] := by
    have last := holds.tail.sub_right 1
    rw [List.length_append, List.length_singleton, Nat.cast_add, Nat.cast_one, ← add_assoc] at last
    simpa using last
  have apart {i : Nat} (hi : i < size) (ne : i ≠ queue.length) :
      index size (head + i) ≠ index size (head + queue.length) := by
    intro same
    exact ne (index_injective head hi room same)
  rw [index_congr back]
  constructor
  · exact Nat.le_of_succ_le room
  · exact back
  · intro i h
    rw [Function.update_of_ne (apart (by omega) (by omega)),
      holds.unread i (by rw [List.length_append]; exact Nat.lt_add_right _ h), List.getElem_append_left h]
  · intro d hd
    exact holds.unmarked d (List.mem_append_left [c] hd)
  · intro i lo hi
    by_cases here : i = queue.length
    · rw [here, Function.update_self]
    · rw [Function.update_of_ne (apart hi here)]
      apply holds.marked i _ hi
      rw [List.length_append, List.length_singleton]
      omega

/-- The slot before the read counter's is another one. -/
theorem index_pred_ne (several : 1 < size) (head : Int) : index size (head - 1) ≠ index size head := by
  intro same
  have next : index size (head - 1 + (0 : Nat)) = index size (head - 1 + (1 : Nat)) := by simpa using same
  exact absurd (index_injective (head - 1) (by omega) several next) (by decide)

end PeachOs.Ring
