import Mathlib.Logic.Function.Basic

/-!
# Ledgers of ownership

A ledger names the owner of some keys. Ledgers grow by giving owners to keys
without one, so two keys with different owners are different, whatever is added
later.
-/

namespace PeachOs.Ownership

variable {κ α : Type*}

abbrev Ledger (κ α : Type*) := κ → Option α

/-- Every owner of `o` is kept. -/
def Extends (o o' : Ledger κ α) : Prop := ∀ x l, o x = some l → o' x = some l

theorem Extends.refl (o : Ledger κ α) : Extends o o := fun _ _ h => h

theorem Extends.trans {o o' o'' : Ledger κ α} (h : Extends o o') (h' : Extends o' o'') :
    Extends o o'' := fun x l hx => h' x l (h x l hx)

theorem Extends.owned {o o' : Ledger κ α} (h : Extends o o') {x : κ} (hx : o x ≠ none) :
    o' x ≠ none := by
  cases value : o x with
  | none => exact absurd value hx
  | some l =>
    rw [h x l value]
    exact Option.some_ne_none l

/-- Keys without an owner in the larger ledger have none in the smaller one. -/
theorem Extends.free {o o' : Ledger κ α} (h : Extends o o') {x : κ} (hx : o' x = none) :
    o x = none := by
  by_contra owned
  exact h.owned owned hx

theorem extends_update [DecidableEq κ] {o : Ledger κ α} {x : κ} (fresh : o x = none) (l : α) :
    Extends o (Function.update o x (some l)) := by
  intro y l' owned
  have ne : y ≠ x := by
    rintro rfl
    rw [fresh] at owned
    cases owned
  rw [Function.update_of_ne ne, owned]

/-- `o` with `l` as the owner of the keys `new`. -/
noncomputable def assign (o : Ledger κ α) (new : κ → Prop) (l : α) : Ledger κ α :=
  open Classical in fun x => if new x then some l else o x

theorem assign_new (o : Ledger κ α) {new : κ → Prop} (l : α) {x : κ} (hx : new x) :
    assign o new l x = some l := if_pos hx

theorem assign_old (o : Ledger κ α) {new : κ → Prop} (l : α) {x : κ} (hx : ¬ new x) :
    assign o new l x = o x := if_neg hx

theorem extends_assign {o : Ledger κ α} {new : κ → Prop} (l : α) (fresh : ∀ x, new x → o x = none) :
    Extends o (assign o new l) := by
  intro x l' owned
  by_cases hx : new x
  · rw [fresh x hx] at owned
    cases owned
  · rw [assign_old o l hx, owned]

/-! ## Lists of new keys -/

/-- `keys` are different and without an owner. -/
structure New (o : Ledger κ α) (keys : List κ) : Prop where
  nodup : keys.Nodup
  free : ∀ x ∈ keys, o x = none

theorem New.extends {o : Ledger κ α} {keys : List κ} (new : New o keys) (l : α) :
    Extends o (assign o (· ∈ keys) l) := extends_assign l new.free

theorem assign_nil (o : Ledger κ α) (l : α) : assign o (· ∈ ([] : List κ)) l = o := by
  funext x
  exact assign_old o l List.not_mem_nil

theorem New.cons [DecidableEq κ] {o : Ledger κ α} {x : κ} {keys : List κ} {l : α} (hx : o x = none)
    (rest : New (Function.update o x (some l)) keys) : New o (x :: keys) := by
  have apart : x ∉ keys := by
    intro mem
    have free := rest.free x mem
    rw [Function.update_self] at free
    cases free
  refine ⟨List.nodup_cons.mpr ⟨apart, rest.nodup⟩, ?_⟩
  intro y mem
  rcases List.mem_cons.mp mem with rfl | later
  · exact hx
  · have ne : y ≠ x := by
      rintro rfl
      exact apart later
    have free := rest.free y later
    rwa [Function.update_of_ne ne] at free

theorem New.tail {o : Ledger κ α} {x : κ} {keys : List κ} (new : New o (x :: keys)) : New o keys :=
  ⟨(List.nodup_cons.mp new.nodup).2, fun y mem => new.free y (List.mem_cons_of_mem x mem)⟩

/-- Entering a key and then the others, or all together. -/
theorem assign_cons [DecidableEq κ] (o : Ledger κ α) (x : κ) (keys : List κ) (l : α) :
    assign (Function.update o x (some l)) (· ∈ keys) l = assign o (· ∈ x :: keys) l := by
  funext y
  by_cases later : y ∈ keys
  · rw [assign_new _ l later, assign_new _ l (List.mem_cons_of_mem x later)]
  · rw [assign_old _ l later]
    by_cases here : y = x
    · subst here
      rw [Function.update_self, assign_new _ l List.mem_cons_self]
    · rw [Function.update_of_ne here, assign_old]
      intro mem
      exact later ((List.mem_cons.mp mem).resolve_left here)

/-- Giving the first key back. -/
theorem New.release [DecidableEq κ] {o : Ledger κ α} {x : κ} {keys : List κ} (new : New o (x :: keys))
    (l : α) : Function.update (assign o (· ∈ x :: keys) l) x none = assign o (· ∈ keys) l := by
  funext y
  by_cases here : y = x
  · subst here
    rw [Function.update_self, assign_old _ l (List.nodup_cons.mp new.nodup).1]
    exact (new.free y List.mem_cons_self).symm
  · rw [Function.update_of_ne here]
    by_cases later : y ∈ keys
    · rw [assign_new _ l later, assign_new _ l (List.mem_cons_of_mem x later)]
    · rw [assign_old _ l later, assign_old]
      intro mem
      exact later ((List.mem_cons.mp mem).resolve_left here)

end PeachOs.Ownership
