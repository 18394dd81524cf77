import Mathlib.Data.List.Nodup
import Mathlib.Logic.Function.Basic

/-!
# Doubly linked lists in memory

Nodes are addresses, and `next` and `prev` are what memory holds for them. A
`Segment` is a run of linked nodes with the node before it and the node after
it, so that segments compose; a list is a segment between two nulls.
-/

namespace PeachOs.LinkedList

open Function (update)

variable {α : Type*} {next prev next' prev' : α → α} {null : α}

/-- From `a`, entered from `p`, the links lead through the nodes of `l` to `b`,
entered from `q`. -/
def Segment (next prev : α → α) : (p a : α) → List α → (q b : α) → Prop
  | p, a, [], q, b => q = p ∧ b = a
  | p, a, x :: xs, q, b => a = x ∧ prev x = p ∧ Segment next prev x (next x) xs q b

/-- What a walk of at most `n` nodes visits. -/
def visit [DecidableEq α] (step : α → α) (null : α) : Nat → α → List α
  | 0, _ => []
  | n + 1, a => if a = null then [] else a :: visit step null n (step a)

theorem segment_append {p a q b : α} {l₁ l₂ : List α} :
    Segment next prev p a (l₁ ++ l₂) q b ↔
      ∃ m r, Segment next prev p a l₁ m r ∧ Segment next prev m r l₂ q b := by
  induction l₁ generalizing p a with
  | nil =>
    constructor
    · intro h
      exact ⟨p, a, ⟨rfl, rfl⟩, h⟩
    · rintro ⟨m, r, ⟨rfl, rfl⟩, h⟩
      exact h
  | cons x xs ih =>
    constructor
    · rintro ⟨here, back, rest⟩
      obtain ⟨m, r, first, second⟩ := ih.mp rest
      exact ⟨m, r, ⟨here, back, first⟩, second⟩
    · rintro ⟨m, r, ⟨here, back, first⟩, second⟩
      exact ⟨here, back, ih.mpr ⟨m, r, first, second⟩⟩

/-- A segment depends on the links of its nodes only. -/
theorem Segment.congr {p a q b : α} {l : List α} (h : Segment next prev p a l q b)
    (same : ∀ x ∈ l, next' x = next x ∧ prev' x = prev x) : Segment next' prev' p a l q b := by
  induction l generalizing p a with
  | nil => exact h
  | cons x xs ih =>
    obtain ⟨here, back, rest⟩ := h
    obtain ⟨sameNext, samePrev⟩ := same x List.mem_cons_self
    refine ⟨here, samePrev.trans back, ?_⟩
    rw [sameNext]
    exact ih rest fun y hy => same y (List.mem_cons_of_mem x hy)

/-- Read backwards, the links lead through the nodes in reverse. -/
theorem Segment.reverse {p a q b : α} {l : List α} (h : Segment next prev p a l q b) :
    Segment prev next b q l.reverse a p := by
  induction l generalizing p a with
  | nil =>
    obtain ⟨rfl, rfl⟩ := h
    exact ⟨rfl, rfl⟩
  | cons x xs ih =>
    obtain ⟨rfl, back, rest⟩ := h
    rw [List.reverse_cons, segment_append]
    exact ⟨next a, a, ih rest, rfl, rfl, rfl, back.symm⟩

theorem Segment.visit [DecidableEq α] {p a q : α} {l : List α} (h : Segment next prev p a l q null)
    (proper : null ∉ l) {n : Nat} (long : l.length ≤ n) : visit next null n a = l := by
  induction l generalizing p a n with
  | nil =>
    obtain ⟨rfl, rfl⟩ := h
    cases n with
    | zero => rfl
    | succ n => rw [LinkedList.visit, if_pos rfl]
  | cons x xs ih =>
    obtain ⟨rfl, back, rest⟩ := h
    rw [List.mem_cons, not_or] at proper
    cases n with
    | zero => cases long
    | succ n =>
      rw [LinkedList.visit, if_neg (Ne.symm proper.1), ih rest proper.2 (Nat.le_of_succ_le_succ long)]

theorem Segment.last_mem {p a q b : α} {l : List α} (h : Segment next prev p a l q b) (some : l ≠ []) :
    q ∈ l := by
  induction l generalizing p a with
  | nil => exact absurd rfl some
  | cons x xs ih =>
    cases xs with
    | nil =>
      rw [h.2.2.1]
      exact List.mem_cons_self
    | cons y ys => exact List.mem_cons_of_mem x (ih h.2.2 (List.cons_ne_nil y ys))

/-- Where a node's link leads, and that it leads back. -/
theorem Segment.next_mem {p a q b : α} {l : List α} (h : Segment next prev p a l q b) {x : α}
    (hx : x ∈ l) : x = q ∧ next x = b ∨ next x ∈ l ∧ prev (next x) = x := by
  induction l generalizing p a with
  | nil => cases hx
  | cons y ys ih =>
    obtain ⟨rfl, back, rest⟩ := h
    rcases List.mem_cons.mp hx with rfl | hx
    · cases ys with
      | nil => exact Or.inl ⟨rest.1.symm, rest.2.symm⟩
      | cons z zs =>
        obtain ⟨here, back', _⟩ := rest
        rw [here]
        exact Or.inr ⟨List.mem_cons_of_mem _ List.mem_cons_self, back'⟩
    · rcases ih rest hx with last | ⟨inside, back'⟩
      · exact Or.inl last
      · exact Or.inr ⟨List.mem_cons_of_mem _ inside, back'⟩

variable {head tail : α} {l : List α}

/-- A list between two nulls: head, nodes, tail. -/
structure Linked (next prev : α → α) (null head tail : α) (l : List α) : Prop where
  segment : Segment next prev null head l tail null
  nodup : l.Nodup
  proper : null ∉ l

theorem Linked.nil_iff (linked : Linked next prev null head tail l) : l = [] ↔ head = null := by
  constructor
  · rintro rfl
    exact linked.segment.2.symm
  · intro none
    cases l with
    | nil => rfl
    | cons x xs =>
      have first := linked.segment.1
      exact absurd List.mem_cons_self (first ▸ none ▸ linked.proper)

theorem Linked.head_mem (linked : Linked next prev null head tail l) (some : l ≠ []) : head ∈ l := by
  cases l with
  | nil => exact absurd rfl some
  | cons x xs =>
    rw [show head = x from linked.segment.1]
    exact List.mem_cons_self

theorem linked_nil : Linked next prev null null null [] := ⟨⟨rfl, rfl⟩, List.nodup_nil, nofun⟩

theorem linked_singleton {t : α} (proper : t ≠ null) (last : next t = null) (first : prev t = null) :
    Linked next prev null t t [t] := by
  refine ⟨⟨rfl, first, rfl, last.symm⟩, List.nodup_singleton t, ?_⟩
  rw [List.mem_singleton]
  exact proper.symm

/-- A node linked after the tail. -/
theorem Linked.append (linked : Linked next prev null head tail l) (some : l ≠ []) {t : α} (new : t ∉ l)
    (proper : t ≠ null) (same : ∀ x ∈ l, x ≠ tail → next' x = next x) (same' : ∀ x ∈ l, prev' x = prev x)
    (link : next' tail = t) (last : next' t = null) (back : prev' t = tail) :
    Linked next' prev' null head t (l ++ [t]) := by
  refine ⟨?_, ?_, ?_⟩
  · obtain ⟨front, e, rfl⟩ : ∃ front e, l = front ++ [e] :=
      ⟨l.dropLast, l.getLast some, (List.dropLast_append_getLast some).symm⟩
    obtain ⟨m, r, first, here, second, end_, _⟩ := segment_append.mp linked.segment
    subst here end_
    have apart : ∀ x ∈ front, x ≠ tail := by
      rintro x hx rfl
      exact (List.disjoint_of_nodup_append linked.nodup) hx (List.mem_singleton.mpr rfl)
    have mine : tail ∈ front ++ [tail] := List.mem_append_right _ (List.mem_singleton.mpr rfl)
    rw [List.append_assoc, segment_append]
    refine ⟨m, tail, first.congr fun x hx => ?_, rfl, ?_, link, back, rfl, last.symm⟩
    · exact ⟨same x (List.mem_append_left _ hx) (apart x hx), same' x (List.mem_append_left _ hx)⟩
    · rw [same' tail mine, second]
  · rw [List.nodup_append]
    refine ⟨linked.nodup, List.nodup_singleton t, ?_⟩
    rintro x hx y hy rfl
    rw [List.mem_singleton] at hy
    exact new (hy ▸ hx)
  · rw [List.mem_append, List.mem_singleton, not_or]
    exact ⟨linked.proper, proper.symm⟩

theorem Linked.sublist {l' : List α} (linked : Linked next prev null head tail l) {head' tail' : α}
    (sub : l'.Sublist l) (segment : Segment next' prev' null head' l' tail' null) :
    Linked next' prev' null head' tail' l' :=
  ⟨segment, linked.nodup.sublist sub, fun inside => linked.proper (sub.subset inside)⟩

/-- A node with a node before it, in its place. -/
theorem Linked.split (linked : Linked next prev null head tail l) {t : α} (mem : t ∈ l)
    (inner : prev t ≠ null) : ∃ l₀ p l₂, l = l₀ ++ p :: t :: l₂ := by
  obtain ⟨l₁, l₂, rfl⟩ := List.append_of_mem mem
  cases hl : l₁.reverse with
  | nil =>
    rw [List.reverse_eq_nil_iff] at hl
    subst hl
    exact absurd linked.segment.2.1 inner
  | cons p front =>
    refine ⟨front.reverse, p, l₂, ?_⟩
    rw [← List.reverse_reverse l₁, hl, List.reverse_cons, List.append_assoc, List.singleton_append]

variable {l₀ l₂ : List α} {p t n : α}

theorem Linked.around (linked : Linked next prev null head tail (l₀ ++ p :: t :: l₂)) :
    ∃ m, Segment next prev null head l₀ m p ∧ prev p = m ∧ next p = t ∧ prev t = p ∧
      Segment next prev t (next t) l₂ tail null := by
  obtain ⟨m, r, first, rfl, back, link, back', rest⟩ := segment_append.mp linked.segment
  exact ⟨m, first, back, link, back', rest⟩

/-- The links around a node in the middle of a list meet no other node. -/
theorem Linked.apart (linked : Linked next prev null head tail (l₀ ++ p :: l₂)) {x : α} (hx : x ∈ l₀) :
    x ≠ p ∧ x ∉ l₂ := by
  have apart : x ∉ p :: l₂ := List.disjoint_of_nodup_append linked.nodup hx
  rwa [List.mem_cons, not_or] at apart

/-- The tail is taken out: the node before it is the new tail. -/
theorem Linked.remove_last (linked : Linked next prev null head tail (l₀ ++ [p, t]))
    (same : ∀ x, x ≠ p → next' x = next x) (link : next' p = null) :
    Linked next' prev null head p (l₀ ++ [p]) := by
  obtain ⟨m, first, back, _, _, _⟩ := linked.around
  apply linked.sublist
  · exact (List.Sublist.refl l₀).append ((List.nil_sublist [t]).cons_cons p)
  · rw [segment_append]
    refine ⟨m, p, first.congr fun x hx => ?_, rfl, back, rfl, link.symm⟩
    exact ⟨same x (linked.apart hx).1, rfl⟩

/-- A node between two others is taken out: they are linked to each other. -/
theorem Linked.remove_inner (linked : Linked next prev null head tail (l₀ ++ p :: t :: n :: l₂))
    (same : ∀ x, x ≠ p → next' x = next x) (same' : ∀ x, x ≠ n → prev' x = prev x)
    (link : next' p = n) (link' : prev' n = p) :
    Linked next' prev' null head tail (l₀ ++ p :: n :: l₂) := by
  obtain ⟨m, first, back, _, _, here, _, rest⟩ := linked.around
  have nodup := (List.nodup_append.mp linked.nodup).2.1
  rw [List.nodup_cons, List.nodup_cons, List.nodup_cons] at nodup
  obtain ⟨off, _, last, _⟩ := nodup
  have between : p ≠ n := by
    rintro rfl
    exact off (List.mem_cons_of_mem t List.mem_cons_self)
  apply linked.sublist
  · exact (List.Sublist.refl l₀).append (((List.Sublist.refl _).cons t).cons_cons p)
  · rw [segment_append]
    refine ⟨m, p, first.congr fun x hx => ?_, rfl, ?_, link, link', ?_⟩
    · have apart := linked.apart hx
      refine ⟨same x apart.1, same' x ?_⟩
      rintro rfl
      exact apart.2 (List.mem_cons_of_mem t List.mem_cons_self)
    · rw [same' p between]
      exact back
    · rw [same n between.symm]
      apply rest.congr
      intro x hx
      constructor
      · apply same
        rintro rfl
        exact off (List.mem_cons_of_mem t (List.mem_cons_of_mem n hx))
      · apply same'
        rintro rfl
        exact last hx

end PeachOs.LinkedList
