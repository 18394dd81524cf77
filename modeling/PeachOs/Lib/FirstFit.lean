import Mathlib.Data.List.Pairwise
import Mathlib.Order.Bounds.Defs

/-!
# First-fit pools

A pool of numbered slots from which blocks of consecutive slots are handed
out and taken back. A `Pool` carries its own invariant: live blocks are
non-empty, inside the pool and pairwise apart. `fits_iff_free` reads "fits"
off the slots, the form in which an allocator scans its table.
-/

namespace PeachOs.FirstFit

/-- The slots `start`, ..., `start + len - 1`. -/
structure Block where
  start : Nat
  len : Nat
  deriving DecidableEq, Repr

namespace Block

def Covers (b : Block) (i : Nat) : Prop := b.start ≤ i ∧ i < b.start + b.len

def Apart (a b : Block) : Prop := a.start + a.len ≤ b.start ∨ b.start + b.len ≤ a.start

theorem Apart.symm {a b : Block} (h : Apart a b) : Apart b a := Or.symm h

instance : Std.Symm Apart := ⟨fun _ _ h => h.symm⟩

theorem Apart.not_covers {a b : Block} (h : Apart a b) {i : Nat} (ha : a.Covers i) :
    ¬ b.Covers i := by
  unfold Apart Covers at *
  omega

/-- Non-empty blocks are apart when they share no slot. -/
theorem apart_of_disjoint {a b : Block} (ha : 0 < a.len) (hb : 0 < b.len)
    (h : ∀ i, a.Covers i → ¬ b.Covers i) : Apart a b := by
  by_contra overlap
  have meet := h (max a.start b.start)
  unfold Apart Covers at *
  omega

end Block

/-- The blocks handed out of `total` slots. -/
structure Pool where
  total : Nat
  live : List Block
  apart : live.Pairwise Block.Apart
  inside : ∀ b ∈ live, 0 < b.len ∧ b.start + b.len ≤ total

namespace Pool

def empty (total : Nat) : Pool := ⟨total, [], .nil, by simp⟩

/-- `len` slots from `start` on are in the pool and in no live block. -/
def Fits (p : Pool) (len start : Nat) : Prop :=
  start + len ≤ p.total ∧ ∀ b ∈ p.live, Block.Apart ⟨start, len⟩ b

def Free (p : Pool) (i : Nat) : Prop := ∀ b ∈ p.live, ¬ b.Covers i

theorem fits_iff_free (p : Pool) {len : Nat} (hlen : 0 < len) (start : Nat) :
    p.Fits len start ↔
      start + len ≤ p.total ∧ ∀ i, start ≤ i → i < start + len → p.Free i := by
  refine and_congr_right fun _ => ⟨fun h i lo hi b hb => ?_, fun h b hb => ?_⟩
  · exact (h b hb).not_covers ⟨lo, hi⟩
  · exact Block.apart_of_disjoint hlen (p.inside b hb).1 fun i hi => h i hi.1 hi.2 b hb

/-- Hand out a block that fits. -/
def alloc (p : Pool) (len start : Nat) (hlen : 0 < len) (h : p.Fits len start) : Pool where
  total := p.total
  live := p.live ++ [⟨start, len⟩]
  apart := by
    rw [List.pairwise_append]
    refine ⟨p.apart, List.pairwise_singleton _ _, fun b hb c hc => ?_⟩
    rw [List.mem_singleton.mp hc]
    exact (h.2 b hb).symm
  inside := by
    intro b hb
    rcases List.mem_append.mp hb with hb | hb
    · exact p.inside b hb
    · rw [List.mem_singleton.mp hb]
      exact ⟨hlen, h.1⟩

/-- Take a block back. -/
def free (p : Pool) (b : Block) : Pool where
  total := p.total
  live := p.live.erase b
  apart := p.apart.sublist List.erase_sublist
  inside c hc := p.inside c (List.mem_of_mem_erase hc)

@[simp] theorem alloc_live (p : Pool) (len start : Nat) (hlen : 0 < len)
    (h : p.Fits len start) : (p.alloc len start hlen h).live = p.live ++ [⟨start, len⟩] := rfl

@[simp] theorem free_live (p : Pool) (b : Block) : (p.free b).live = p.live.erase b := rfl

/-- A live block occurs once, so taking it back leaves none of its slots covered. -/
theorem nodup (p : Pool) : p.live.Nodup := by
  refine p.apart.imp_of_mem fun {a b} ha _ h e => ?_
  have := p.inside a ha
  rw [← e] at h
  unfold Block.Apart at h
  omega

theorem apart_of_mem (p : Pool) {a b : Block} (ha : a ∈ p.live) (hb : b ∈ p.live) (ne : a ≠ b) :
    Block.Apart a b :=
  p.apart.forall ha hb ne

end Pool

end PeachOs.FirstFit
