import PeachOs.PathList
import Mathlib.Data.List.GetD
import Mathlib.Data.List.TakeWhile

/-!
# Writing a parsed path back

The parser takes an empty component for the end of the path, so what follows two
slashes is dropped.
-/

namespace PeachOs

open Ownership

/-- Two slashes in a row stand before a byte of a later component. -/
def HidesName (path : List UInt8) : Prop := ∃ a b, path = a ++ slash :: slash :: b ∧ ∃ c ∈ b, c ≠ slash

theorem not_hidesName_nil : ¬ HidesName [] := by
  rintro ⟨a, b, whole, -⟩
  cases a <;> cases whole

theorem not_hidesName_slash : ¬ HidesName [slash] := by
  rintro ⟨a, b, whole, -⟩
  have length := congrArg List.length whole
  simp at length
  omega

theorem hidesName_cons {c : UInt8} (other : c ≠ slash) (path : List UInt8) : HidesName (c :: path) ↔ HidesName path := by
  constructor
  · rintro ⟨a, b, whole, later⟩
    cases a with
    | nil =>
      obtain ⟨rfl, -⟩ := List.cons.inj whole
      exact absurd rfl other
    | cons _ a =>
      obtain ⟨-, rest⟩ := List.cons.inj whole
      exact ⟨a, b, rest, later⟩
  · rintro ⟨a, b, rfl, later⟩
    exact ⟨c :: a, b, rfl, later⟩

theorem hidesName_slash_cons {c : UInt8} (other : c ≠ slash) (path : List UInt8) :
    HidesName (slash :: c :: path) ↔ HidesName (c :: path) := by
  constructor
  · rintro ⟨a, b, whole, later⟩
    cases a with
    | nil =>
      obtain ⟨-, rest⟩ := List.cons.inj whole
      exact absurd (List.cons.inj rest).1 other
    | cons _ a =>
      obtain ⟨-, rest⟩ := List.cons.inj whole
      exact ⟨a, b, rest, later⟩
  · rintro ⟨a, b, whole, later⟩
    exact ⟨slash :: a, b, congrArg (slash :: ·) whole, later⟩

theorem hidesName_slashes (path : List UInt8) :
    HidesName (slash :: slash :: path) ↔ ∃ c ∈ path, c ≠ slash := by
  constructor
  · rintro ⟨a, b, whole, c, mem, other⟩
    have last : c ∈ slash :: slash :: path := by
      rw [whole]
      simp [mem]
    simp only [List.mem_cons, other, false_or] at last
    exact ⟨c, last, other⟩
  · intro later
    exact ⟨[], path, rfl, later⟩

theorem hidesName_append {w : List UInt8} (name : slash ∉ w) (path : List UInt8) :
    HidesName (w ++ path) ↔ HidesName path := by
  induction w with
  | nil => rfl
  | cons c w ih =>
    rw [List.mem_cons, not_or] at name
    rw [List.cons_append, hidesName_cons (Ne.symm name.1), ih name.2]

theorem component_name {path : List UInt8} (noNul : (0 : UInt8) ∉ path) (found : component path ≠ []) :
    PartName (component path) := by
  have inside : ∀ c ∈ component path, inPart c = true := fun c mem => List.mem_takeWhile_imp mem
  refine ⟨found, fun mem => ?_, fun mem => noNul (List.takeWhile_subset _ mem)⟩
  exact absurd (inside slash mem) (by decide)

/-- A component reaches up to the end or to a slash. -/
theorem component_split {path : List UInt8} (noNul : (0 : UInt8) ∉ path) :
    path = component path ∧ afterComponent path = [] ∨ path = component path ++ slash :: afterComponent path := by
  have whole : component path ++ path.dropWhile inPart = path := List.takeWhile_append_dropWhile
  unfold afterComponent
  cases rest : path.dropWhile inPart with
  | nil =>
    rw [rest, List.append_nil] at whole
    exact Or.inl ⟨whole.symm, rfl⟩
  | cons c tail =>
    have stop : inPart c ≠ true := by
      have := List.head_dropWhile_not inPart (l := path) (by rw [rest]; exact List.cons_ne_nil _ _)
      simpa [rest] using this
    have mem : c ∈ path := by
      rw [← whole, rest]
      simp
    have isSlash : c = slash := by
      have notNul : c ≠ 0 := fun zero => noNul (zero ▸ mem)
      simpa [inPart, notNul] using stop
    subst isSlash
    rw [rest] at whole
    exact Or.inr whole.symm

/-- A path without a component starts with a slash or is empty. -/
theorem components_eq_nil {path : List UInt8} (noNul : (0 : UInt8) ∉ path) :
    components path = [] ↔ path = [] ∨ ∃ rest, path = slash :: rest := by
  constructor
  · intro none
    have empty : component path = [] := by
      rw [components] at none
      by_contra found
      rw [dif_neg found] at none
      cases none
    rcases component_split noNul with ⟨whole, -⟩ | whole
    · rw [empty] at whole
      exact Or.inl whole
    · rw [empty] at whole
      exact Or.inr ⟨_, whole⟩
  · rintro (rfl | ⟨rest, rfl⟩)
    · exact components_nil
    · rw [components]
      exact dif_pos (List.takeWhile_cons_of_neg (by decide))

theorem eq_replicate_iff {path : List UInt8} :
    (∃ n, path = List.replicate n slash) ↔ ¬ ∃ c ∈ path, c ≠ slash := by
  constructor
  · rintro ⟨n, rfl⟩ ⟨c, mem, other⟩
    exact other (List.eq_of_mem_replicate mem)
  · intro all
    refine ⟨path.length, List.eq_replicate_of_mem fun c mem => ?_⟩
    by_contra other
    exact all ⟨c, mem, other⟩

/-- The names with slashes between them, and slashes after them. -/
theorem components_rejoin {path : List UInt8} (noNul : (0 : UInt8) ∉ path) (some : components path ≠ []) :
    (∃ n, path = [slash].intercalate (components path) ++ List.replicate n slash) ↔ ¬ HidesName path := by
  induction path using components.induct with
  | case1 path empty =>
    rw [components] at some
    exact absurd (dif_pos empty) some
  | case2 path found ih =>
    have name := component_name noNul found
    have names : components path = component path :: components (afterComponent path) := by
      rw [components, dif_neg found]
    rcases component_split noNul with ⟨whole, last⟩ | whole
    · rw [names, last, components_nil]
      have tidy : ¬ HidesName path := by
        rw [whole, ← List.append_nil (component path), hidesName_append name.noSlash]
        exact not_hidesName_nil
      refine ⟨fun _ => tidy, fun _ => ⟨0, ?_⟩⟩
      simpa [List.intercalate] using whole
    · have noNul' : (0 : UInt8) ∉ afterComponent path := by
        intro mem
        rw [whole] at noNul
        exact noNul (by simp [mem])
      have later := ih noNul'
      rw [names]
      generalize component path = w at whole name
      generalize afterComponent path = rest at whole later noNul'
      subst whole
      rw [hidesName_append name.noSlash]
      cases parts : components rest with
      | nil =>
        have slashes : (∃ n, w ++ slash :: rest = [slash].intercalate [w] ++ List.replicate n slash) ↔
            ∃ n, slash :: rest = List.replicate n slash := by
          simp [List.intercalate]
        rw [slashes, eq_replicate_iff]
        apply not_congr
        rcases (components_eq_nil noNul').mp parts with rfl | ⟨rest, rfl⟩
        · simp [not_hidesName_slash]
        · rw [hidesName_slashes]
          simp
      | cons v vs =>
        have joined : (∃ n, w ++ slash :: rest = [slash].intercalate (w :: v :: vs) ++ List.replicate n slash) ↔
            ∃ n, rest = [slash].intercalate (v :: vs) ++ List.replicate n slash := by
          simp [List.intercalate]
        rw [joined, ← parts, later (by rw [parts]; exact List.cons_ne_nil v vs)]
        apply not_congr
        cases rest with
        | nil =>
          rw [components_nil] at parts
          cases parts
        | cons c rest =>
          have other : c ≠ slash := by
            rintro rfl
            rw [(components_eq_nil noNul').mpr (Or.inr ⟨rest, rfl⟩)] at parts
            cases parts
          exact (hidesName_slash_cons other rest).symm

/-! ## The parsed root -/

section

variable {H : Type} {A : Allocator H} {laws : BlockLaws A}

/-- A buffer holds one string. -/
theorem ReadsAs.unique {buffer : Nat → UInt8} {w w' : List UInt8} (reads : ReadsAs buffer w)
    (reads' : ReadsAs buffer w') (noNul : (0 : UInt8) ∉ w) (noNul' : (0 : UInt8) ∉ w') : w = w' := by
  have notLonger {v v' : List UInt8} (reads : ReadsAs buffer v) (reads' : ReadsAs buffer v')
      (noNul' : (0 : UInt8) ∉ v') : v'.length ≤ v.length := by
    by_contra longer
    have inside : v.length < v'.length := Nat.lt_of_not_le longer
    have zero := reads'.bytes v.length inside
    rw [reads.ends, List.getD_eq_getElem _ _ inside] at zero
    exact noNul' (zero ▸ List.getElem_mem inside)
  have same : w.length = w'.length := Nat.le_antisymm (notLonger reads' reads noNul) (notLonger reads reads' noNul')
  apply List.ext_getElem same
  intro j hj hj'
  have byte := reads.bytes j hj
  rw [reads'.bytes j hj', List.getD_eq_getElem _ _ hj', List.getD_eq_getElem _ _ hj] at byte
  exact byte.symm

theorem PartList.unique {s : Paths H} {p : UInt32} {blocks blocks' : List UInt32} {ws ws' : List (List UInt8)}
    (list : PartList s p blocks ws) (list' : PartList s p blocks' ws') (noNul : ∀ w ∈ ws, (0 : UInt8) ∉ w)
    (noNul' : ∀ w ∈ ws', (0 : UInt8) ∉ w) : ws = ws' := by
  induction list generalizing blocks' ws' with
  | nil =>
    cases list' with
    | nil => rfl
    | cons nonzero => exact absurd rfl nonzero
  | @cons p blocks w ws nonzero reads rest ih =>
    cases list' with
    | nil => exact absurd rfl nonzero
    | @cons _ blocks' w' ws' _ reads' rest' =>
      rw [reads.unique reads' (noNul w List.mem_cons_self) (noNul' w' List.mem_cons_self),
        ih rest' (fun v mem => noNul v (List.mem_cons_of_mem w mem))
          fun v mem => noNul' v (List.mem_cons_of_mem w' mem)]

/-- The root's drive and parts, written with slashes between them, are `path` up to
slashes at its end. -/
def WrittenBack (s : Paths H) (root : UInt32) (path : List UInt8) : Prop :=
  ∃ blocks ws n, PartList s (s.roots root).first blocks ws ∧ (∀ w ∈ ws, (0 : UInt8) ∉ w) ∧
    path = writtenPath (.ofNat ((s.roots root).driveNo.toNat + 48)) ws false ++ List.replicate n slash

theorem components_noNul {path : List UInt8} (noNul : (0 : UInt8) ∉ path) :
    ∀ w ∈ components path, (0 : UInt8) ∉ w := by
  induction path using components.induct with
  | case1 path empty =>
    rw [components, dif_pos empty]
    intro w mem
    cases mem
  | case2 path found ih =>
    rw [components, dif_neg found]
    intro w mem
    rcases List.mem_cons.mp mem with rfl | mem
    · exact (component_name noNul found).noNul
    · refine ih (fun inside => noNul ?_) w mem
      rcases component_split noNul with ⟨-, last⟩ | whole
      · rw [last] at inside
        cases inside
      · rw [whole]
        simp [inside]

theorem digit_restored {d : UInt8} (digit : isDigit d = true) : UInt8.ofNat ((toNumericDigit d).toNat + 48) = d := by
  have low : (48 : UInt8) ≤ d := by
    simp only [isDigit, Bool.and_eq_true, decide_eq_true_eq] at digit
    exact digit.1
  have low' : 48 ≤ d.toNat := UInt8.le_iff_toNat_le.mp low
  have value : (toNumericDigit d).toNat + 48 = d.toNat := by
    unfold toNumericDigit
    omega
  rw [value, UInt8.ofNat_toNat]

theorem Parsed.writtenBack {s s' : Paths H} {root : UInt32} {blocks : List UInt32} {path : List UInt8}
    {L : Ledger UInt32 Nat} (parsed : Parsed laws L s s' root blocks path) (noNul : (0 : UInt8) ∉ path)
    (good : Accepted path) (some : components (path.drop 3) ≠ []) :
    WrittenBack s' root path ↔ ¬ HidesName (path.drop 3) := by
  obtain ⟨d, rest, digit, rfl⟩ := (validFormat_iff noNul).mp good.2
  have noNul' : (0 : UInt8) ∉ rest := fun mem => noNul (by simp [mem])
  have list : PartList s' (s'.roots root).first blocks (components rest) := parsed.list
  have drive : UInt8.ofNat ((s'.roots root).driveNo.toNat + 48) = d := by
    rw [parsed.drive]
    exact digit_restored digit
  show _ ↔ ¬ HidesName rest
  rw [← components_rejoin noNul' some]
  constructor
  · rintro ⟨blocks', ws, n, list', names, whole⟩
    cases list.unique list' (components_noNul noNul') names
    rw [drive] at whole
    exact ⟨n, by simpa [writtenPath] using whole⟩
  · rintro ⟨n, whole⟩
    refine ⟨blocks, components rest, n, list, components_noNul noNul', ?_⟩
    rw [drive]
    simpa [writtenPath] using whole

/-- **The root writes back to the path exactly when no two slashes in a row stand
before a byte that is not a slash.** -/
theorem writtenBack_iff {s s' : Paths H} {root : UInt32} {path : List UInt8} {L : Ledger UInt32 Nat}
    (run : pathparserParse A s path = some (root, s')) (granted : laws.granted s'.heap)
    (holds : laws.holds s.heap L) (noNul : (0 : UInt8) ∉ path) (good : Accepted path)
    (first : (s'.roots root).first ≠ 0) : WrittenBack s' root path ↔ ¬ HidesName (path.drop 3) := by
  obtain ⟨blocks, parsed⟩ := pathparserParse_spec run granted holds noNul good
  apply parsed.writtenBack noNul good
  intro none
  have list := parsed.list
  rw [none] at list
  exact first list.first_nil

end

theorem freshPaths_parse {path w : List UInt8} {ws : List (List UInt8)} (noNul : (0 : UInt8) ∉ path)
    (good : Accepted path) (parts : components (path.drop 3) = w :: ws) (few : 2 * ws.length + 5 ≤ 25600) :
    ∃ root s' blocks, pathparserParse freshHeap freshPaths path = some (root, s') ∧ freshBlocks.granted s'.heap ∧
      Parsed freshBlocks (fun _ => none) freshPaths s' root blocks path ∧ (s'.roots root).first ≠ 0 := by
  have start : freshBlocks.holds freshPaths.heap (fun _ => none) := fun x owned => absurd rfl owned
  have serves : freshBlocks.Serves (2 * (components (path.drop 3)).length + 3) freshPaths.heap := by
    rw [parts, List.length_cons]
    exact freshHeap_serves (by show 0 + _ ≤ 25600; omega)
  obtain ⟨root, s', run, granted, _⟩ := pathparserParse_returns (n := 0) (by rwa [Nat.zero_add]) start noNul good
  obtain ⟨blocks, parsed⟩ := pathparserParse_spec run granted start noNul good
  refine ⟨root, s', blocks, run, granted, parsed, fun zero => ?_⟩
  have list := parsed.list
  rw [parts, zero] at list
  cases list with
  | cons nonzero => exact nonzero rfl

/-- `0:/a/`. -/
def tidyPath : List UInt8 := [48, 58, 47, 97, 47]

theorem tidyPath_writtenBack :
    ∃ root s', pathparserParse freshHeap freshPaths tidyPath = some (root, s') ∧ WrittenBack s' root tidyPath := by
  have noNul : (0 : UInt8) ∉ tidyPath := by decide
  have good : Accepted tidyPath := ⟨by decide, by decide⟩
  have name : PartName [97] := ⟨by decide, by decide, by decide⟩
  have parts : components (tidyPath.drop 3) = [[97]] := components_last name true
  obtain ⟨root, s', blocks, run, granted, -, first⟩ := freshPaths_parse noNul good parts (by decide)
  have start : freshBlocks.holds freshPaths.heap (fun _ => none) := fun x owned => absurd rfl owned
  refine ⟨root, s', run, (writtenBack_iff run granted start noNul good first).mpr ?_⟩
  show ¬ HidesName [97, slash]
  rw [hidesName_cons (by decide)]
  exact not_hidesName_slash

/-- `0:/a//b`. -/
def doubledPath : List UInt8 := [48, 58, 47, 97, 47, 47, 98]

/-- **The name after two slashes is lost.** -/
theorem doubledPath_lost :
    ∃ root s', pathparserParse freshHeap freshPaths doubledPath = some (root, s') ∧ (s'.roots root).first ≠ 0 ∧
      ¬ WrittenBack s' root doubledPath := by
  have noNul : (0 : UInt8) ∉ doubledPath := by decide
  have good : Accepted doubledPath := ⟨by decide, by decide⟩
  have parts : components (doubledPath.drop 3) = [[97]] := by
    have rest : components [slash, 98] = [] := (components_eq_nil (by decide)).mpr (Or.inr ⟨_, rfl⟩)
    have split := @components_cons [97] [slash, 98] ⟨by decide, by decide, by decide⟩
    rwa [rest] at split
  obtain ⟨root, s', blocks, run, -, parsed, first⟩ := freshPaths_parse noNul good parts (by decide)
  have some : components (doubledPath.drop 3) ≠ [] := by
    rw [parts]
    exact List.cons_ne_nil _ _
  refine ⟨root, s', run, first, fun back => (parsed.writtenBack noNul good some).mp back ?_⟩
  exact ⟨[97], [98], rfl, 98, by decide, by decide⟩

end PeachOs
