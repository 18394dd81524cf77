import PeachOs.PathParser

/-!
# Parsed paths

The parts `pathparser_parse` finds are the path's components up to the first
empty one, each in a buffer of its own, and the blocks of a path are the ones
`pathparser_free` gives back.
-/

namespace PeachOs

open Ownership
open Function (update)

def inPart (c : UInt8) : Bool := c ≠ slash && c ≠ 0

/-- The bytes up to a slash or the end. -/
def component (path : List UInt8) : List UInt8 := path.takeWhile inPart

/-- What is left after the component and one slash. -/
def afterComponent (path : List UInt8) : List UInt8 :=
  let rest := path.dropWhile inPart
  if rest.headD 0 = slash then rest.tail else rest

theorem component_length (path : List UInt8) :
    (component path).length + (afterComponent path).length ≤ path.length := by
  have whole : (component path).length + (path.dropWhile inPart).length =
      path.length := by
    rw [component, ← List.length_append, List.takeWhile_append_dropWhile]
  unfold afterComponent
  dsimp only
  split
  · rw [List.length_tail]
    omega
  · omega

/-- The components before the first empty one. -/
def components (path : List UInt8) : List (List UInt8) :=
  if _found : component path = [] then [] else component path :: components (afterComponent path)
termination_by path.length
decreasing_by
  have := component_length path
  have := List.length_pos_of_ne_nil _found
  omega

theorem copyPart_eq (path : List UInt8) (buffer : Nat → UInt8) (i : Nat) :
    (copyPart buffer i path).2 =
        (i + (component path).length, path.dropWhile inPart) ∧
      (∀ j, i ≤ j → j < i + (component path).length →
        (copyPart buffer i path).1 j = (component path).getD (j - i) 0) ∧
      ∀ j, j < i ∨ i + (component path).length ≤ j → (copyPart buffer i path).1 j = buffer j := by
  induction path generalizing buffer i with
  | nil =>
    refine ⟨rfl, fun j lo hi => ?_, fun j _ => rfl⟩
    exact absurd (Nat.lt_of_lt_of_le hi lo) (Nat.lt_irrefl j)
  | cons c path ih =>
    by_cases stop : c ≠ slash ∧ c ≠ 0
    · have go : inPart c = true := by simpa [inPart] using stop
      obtain ⟨rest, copied, kept⟩ := ih (update buffer i c) (i + 1)
      have here : component (c :: path) = c :: component path := by
        rw [component, List.takeWhile_cons_of_pos go, component]
      rw [copyPart, if_pos stop, here, List.length_cons]
      refine ⟨?_, fun j lo hi => ?_, fun j off => ?_⟩
      · rw [rest, List.dropWhile_cons_of_pos go]
        congr 1
        omega
      · by_cases first : j = i
        · subst first
          rw [kept j (Or.inl (Nat.lt_succ_self j)), Function.update_self, Nat.sub_self]
          rfl
        · rw [copied j (by omega) (by omega)]
          have next : j - i = (j - (i + 1)) + 1 := by omega
          rw [next]
          rfl
      · have ne : j ≠ i := by omega
        rw [kept j (by omega), Function.update_of_ne ne]
    · have halt : ¬ inPart c = true := by simpa [inPart] using stop
      have here : component (c :: path) = [] := by
        rw [component, List.takeWhile_cons_of_neg halt]
      rw [copyPart, if_neg stop, here, List.dropWhile_cons_of_neg halt]
      refine ⟨rfl, fun j lo hi => ?_, fun j _ => rfl⟩
      exact absurd (Nat.lt_of_lt_of_le hi lo) (Nat.lt_irrefl j)

/-- The string `w` in a buffer of `PEACHOS_MAX_PATH_LENGTH` bytes. -/
structure ReadsAs (buffer : Nat → UInt8) (w : List UInt8) : Prop where
  inside : w.length < peachosMaxPathLength
  bytes : ∀ j < w.length, buffer j = w.getD j 0
  ends : buffer w.length = 0

variable {H : Type} {A : Allocator H} {laws : BlockLaws A}

/-! ## One part -/

theorem getPathPart_moves {s s' : Paths H} {path rest : List UInt8} {b : UInt32}
    (run : pathparserGetPathPart A s path = some (b, rest, s')) : Moves A s.heap s'.heap := by
  have buffer : Moves A s.heap (s.newBuffer A).2.heap := by
    unfold Paths.newBuffer
    dsimp only
    split <;> exact (Moves.refl _).malloc _
  unfold pathparserGetPathPart at run
  rcases hb : s.newBuffer A with ⟨ptr, s₀⟩
  rw [hb] at run buffer
  dsimp only at run buffer
  split at run
  · obtain ⟨-, run⟩ := Prod.mk.inj (Option.some.inj run)
    obtain ⟨-, rfl⟩ := Prod.mk.inj run
    exact buffer.free ptr
  · split at run
    · cases run
    · obtain ⟨-, run⟩ := Prod.mk.inj (Option.some.inj run)
      obtain ⟨-, rfl⟩ := Prod.mk.inj run
      exact buffer

theorem parsePathPart_moves {s s' : Paths H} {last p : UInt32} {path rest : List UInt8}
    (run : pathparserParsePathPart A s last path = some (p, rest, s')) : Moves A s.heap s'.heap := by
  obtain ⟨_, got⟩ | ⟨b, s₁, _, got, heap⟩ := parsePathPart_cases A run
  · exact getPathPart_moves got
  · rw [heap]
    exact (getPathPart_moves got).malloc sizeofPathPart

theorem newBuffer_spec {s s' : Paths H} {b : UInt32} {L : Ledger UInt32 Nat}
    (run : s.newBuffer A = (b, s')) (granted : laws.granted s'.heap) (holds : laws.holds s.heap L) :
    b ≠ 0 ∧ L b = none ∧ laws.holds s'.heap (update L b (some 1)) ∧ s'.parts = s.parts ∧
      s'.roots = s.roots ∧ (∀ x, x ≠ b → s'.strings x = s.strings x) ∧
      ∀ j < peachosMaxPathLength, s'.strings b j = 0 := by
  have one : blocksNeeded (.ofNat peachosMaxPathLength) = 1 := by decide
  have request := laws.malloc s.heap (.ofNat peachosMaxPathLength) L
  unfold Paths.newBuffer at run
  rcases hm : A.malloc s.heap (.ofNat peachosMaxPathLength) with ⟨ptr, heap⟩
  rw [hm, one] at request
  rw [hm] at run
  dsimp only at run request
  have granted' : laws.granted heap := by
    split at run <;> obtain ⟨-, rfl⟩ := Prod.mk.inj run <;> exact granted
  obtain ⟨⟨positive, _⟩, fresh, holds'⟩ := request granted' holds (by decide)
  have nonzero : ptr ≠ 0 := by
    rintro rfl
    exact absurd positive (Nat.lt_irrefl 0)
  rw [if_neg nonzero] at run
  obtain ⟨rfl, rfl⟩ := Prod.mk.inj run
  refine ⟨nonzero, fresh, holds', rfl, rfl, ?_, ?_⟩
  · intro x ne
    exact Function.update_of_ne ne _ _
  · intro j hj
    dsimp only
    rw [Function.update_self, cleared, if_pos hj]

/-- What getting a part leaves: nothing for an empty component, else its buffer. -/
theorem getPathPart_spec {s s' : Paths H} {path rest : List UInt8} {b : UInt32} {L : Ledger UInt32 Nat}
    (run : pathparserGetPathPart A s path = some (b, rest, s')) (granted : laws.granted s'.heap)
    (holds : laws.holds s.heap L) (short : path.length < peachosMaxPathLength) :
    rest = afterComponent path ∧ s'.parts = s.parts ∧ s'.roots = s.roots ∧
      (∀ x, L x ≠ none → s'.strings x = s.strings x) ∧
      (component path = [] → b = 0 ∧ laws.holds s'.heap L) ∧
      (component path ≠ [] → b ≠ 0 ∧ L b = none ∧ laws.holds s'.heap (update L b (some 1)) ∧
        ReadsAs (s'.strings b) (component path)) := by
  have fits := component_length path
  unfold pathparserGetPathPart at run
  rcases hb : s.newBuffer A with ⟨ptr, s₀⟩
  rw [hb] at run
  dsimp only at run
  obtain ⟨count, copied, kept⟩ := copyPart_eq path (s₀.strings ptr) 0
  rcases hc : copyPart (s₀.strings ptr) 0 path with ⟨buffer, i, left⟩
  rw [hc] at run count copied kept
  dsimp only at run count copied kept
  obtain ⟨rfl, rfl⟩ := Prod.mk.inj count
  rw [Nat.zero_add] at run copied kept
  by_cases empty : component path = []
  · rw [if_pos (by rw [empty]; rfl)] at run
    obtain ⟨rfl, left⟩ := Prod.mk.inj (Option.some.inj run)
    obtain ⟨rfl, rfl⟩ := Prod.mk.inj left
    obtain ⟨nonzero, fresh, held, parts, roots, strings, _⟩ :=
      newBuffer_spec hb ((laws.free_granted _ _).mp granted) holds
    refine ⟨rfl, parts, roots, ?_, fun _ => ⟨rfl, ?_⟩, fun some => absurd empty some⟩
    · intro x owned
      apply strings
      rintro rfl
      exact owned fresh
    · have back := laws.free _ _ ptr held (by rw [Function.update_self]; exact Option.some_ne_none 1)
      rwa [Function.update_idem, ← fresh, Function.update_eq_self] at back
  · have long : (component path).length ≠ 0 := by
      intro zero
      exact empty (List.length_eq_zero_iff.mp zero)
    rw [if_neg long] at run
    split at run
    · cases run
    · obtain ⟨rfl, left⟩ := Prod.mk.inj (Option.some.inj run)
      obtain ⟨rfl, rfl⟩ := Prod.mk.inj left
      obtain ⟨nonzero, fresh, held, parts, roots, strings, zero⟩ := newBuffer_spec hb granted holds
      refine ⟨rfl, parts, roots, ?_, fun none => absurd none empty, fun _ => ⟨nonzero, fresh, held, ?_⟩⟩
      · intro x owned
        have ne : x ≠ ptr := by
          rintro rfl
          exact owned fresh
        exact (Function.update_of_ne ne _ _).trans (strings x ne)
      · dsimp only
        rw [Function.update_self]
        refine ⟨by omega, fun j hj => ?_, ?_⟩
        · rw [copied j (Nat.zero_le j) hj, Nat.sub_zero]
        · rw [kept _ (Or.inr (Nat.le_refl _))]
          exact zero _ (by omega)

/-- A part `p` for the component `w`, with its buffer `b`, linked after `last`. -/
structure PartFound (laws : BlockLaws A) (L : Ledger UInt32 Nat) (s s' : Paths H) (last p b : UInt32)
    (w : List UInt8) : Prop where
  nonzero : p ≠ 0
  buffer : L b = none
  record : update L b (some 1) p = none
  holds : laws.holds s'.heap (update (update L b (some 1)) p (some 1))
  reads : ReadsAs (s'.strings b) w
  strings : ∀ x, L x ≠ none → s'.strings x = s.strings x
  part : s'.parts p = ⟨b, 0⟩
  linked : last ≠ 0 → s'.parts last = { s.parts last with next := p }
  others : ∀ x, x ≠ p → (last ≠ 0 → x ≠ last) → s'.parts x = s.parts x

theorem parsePathPart_spec {s s' : Paths H} {last p : UInt32} {path rest : List UInt8}
    {L : Ledger UInt32 Nat} (run : pathparserParsePathPart A s last path = some (p, rest, s'))
    (granted : laws.granted s'.heap) (holds : laws.holds s.heap L) (live : last ≠ 0 → L last ≠ none)
    (short : path.length < peachosMaxPathLength) :
    rest = afterComponent path ∧ s'.roots = s.roots ∧
      (component path = [] → p = 0 ∧ laws.holds s'.heap L ∧ s'.parts = s.parts ∧
        ∀ x, L x ≠ none → s'.strings x = s.strings x) ∧
      (component path ≠ [] → ∃ b, PartFound laws L s s' last p b (component path)) := by
  unfold pathparserParsePathPart at run
  cases got : pathparserGetPathPart A s path with
  | none =>
    rw [got] at run
    cases run
  | some result =>
    obtain ⟨b, left, s₁⟩ := result
    have one : blocksNeeded sizeofPathPart = 1 := by decide
    have request := laws.malloc s₁.heap sizeofPathPart (update L b (some 1))
    rcases hm : A.malloc s₁.heap sizeofPathPart with ⟨part, heap⟩
    rw [hm, one] at request
    simp only [got, hm] at run
    dsimp only at request
    by_cases empty : component path = []
    · have stop : b = 0 := by
        by_contra go
        have granted₁ : laws.granted s₁.heap := by
          rw [if_neg go] at run
          split at run
          · cases run
          · obtain ⟨-, run⟩ := Prod.mk.inj (Option.some.inj run)
            obtain ⟨-, rfl⟩ := Prod.mk.inj run
            apply laws.malloc_granted s₁.heap sizeofPathPart
            rw [hm]
            exact granted
        obtain ⟨_, _, _, _, none, _⟩ := getPathPart_spec got granted₁ holds short
        exact go (none empty).1
      rw [if_pos stop] at run
      obtain ⟨rfl, tail⟩ := Prod.mk.inj (Option.some.inj run)
      obtain ⟨rfl, rfl⟩ := Prod.mk.inj tail
      obtain ⟨after, parts, roots, strings, none, _⟩ := getPathPart_spec got granted holds short
      exact ⟨after, roots, fun _ => ⟨rfl, (none empty).2, parts, strings⟩, fun some => absurd empty some⟩
    · have go : b ≠ 0 := by
        rintro rfl
        rw [if_pos rfl] at run
        obtain ⟨-, tail⟩ := Prod.mk.inj (Option.some.inj run)
        obtain ⟨-, rfl⟩ := Prod.mk.inj tail
        obtain ⟨_, _, _, _, _, found⟩ := getPathPart_spec got granted holds short
        exact (found empty).1 rfl
      rw [if_neg go] at run
      split at run
      · cases run
      · rename_i nonzero
        obtain ⟨rfl, tail⟩ := Prod.mk.inj (Option.some.inj run)
        obtain ⟨rfl, rfl⟩ := Prod.mk.inj tail
        have granted₁ : laws.granted s₁.heap := by
          apply laws.malloc_granted s₁.heap sizeofPathPart
          rw [hm]
          exact granted
        obtain ⟨after, parts, roots, strings, _, found⟩ := getPathPart_spec got granted₁ holds short
        obtain ⟨_, fresh, held, reads⟩ := found empty
        obtain ⟨_, record, held⟩ := request granted held (by decide)
        have apart : last ≠ 0 → last ≠ part := by
          rintro some rfl
          have owned := live some
          by_cases same : last = b
          · rw [same] at owned
            exact owned fresh
          · rw [Function.update_of_ne same] at record
            exact owned record
        refine ⟨after, roots, fun none => absurd none empty, fun _ => ⟨b, nonzero, fresh, record, held, reads,
          strings, ?_, ?_, ?_⟩⟩
        · dsimp only
          split
          · rename_i some
            rw [Function.update_of_ne (apart some).symm, Function.update_self]
          · rw [Function.update_self]
        · intro some
          dsimp only
          rw [if_pos some, Function.update_self, Function.update_of_ne (apart some), parts]
        · intro x ne off
          dsimp only
          split
          · rename_i some
            rw [Function.update_of_ne (off some), Function.update_of_ne ne, parts]
          · rw [Function.update_of_ne ne, parts]

theorem kept_of_update {L : Ledger UInt32 Nat} {p x : UInt32} (fresh : L p = none) (n : Nat)
    (owned : L x ≠ none) : update L p (some n) x ≠ none := by
  have ne : x ≠ p := by
    rintro rfl
    exact owned fresh
  rwa [Function.update_of_ne ne]

/-! ## The list of parts -/

/-- The parts from `p` on are the strings `ws`; `blocks` are the buffers and records. -/
inductive PartList (s : Paths H) : UInt32 → List UInt32 → List (List UInt8) → Prop
  | nil : PartList s 0 [] []
  | cons {p : UInt32} {blocks : List UInt32} {w : List UInt8} {ws : List (List UInt8)} (nonzero : p ≠ 0)
      (reads : ReadsAs (s.strings (s.parts p).part) w) (rest : PartList s (s.parts p).next blocks ws) :
      PartList s p ((s.parts p).part :: p :: blocks) (w :: ws)

theorem PartList.of_eq {s s' : Paths H} {p : UInt32} {blocks : List UInt32} {ws : List (List UInt8)}
    (list : PartList s p blocks ws) (parts : s'.parts = s.parts) (strings : s'.strings = s.strings) :
    PartList s' p blocks ws := by
  induction list with
  | nil => exact .nil
  | cons nonzero reads _ ih =>
    rw [← parts] at reads ih ⊢
    exact .cons nonzero (strings ▸ reads) ih

theorem PartList.first_nil {s : Paths H} {p : UInt32} {blocks : List UInt32} (list : PartList s p blocks []) :
    p = 0 := by
  cases list
  rfl

/-- The parts after `last` for the components of a path. -/
structure PartsFound (laws : BlockLaws A) (L : Ledger UInt32 Nat) (s s' : Paths H) (last : UInt32)
    (blocks : List UInt32) (ws : List (List UInt8)) : Prop where
  new : New L blocks
  holds : laws.holds s'.heap (assign L (· ∈ blocks) 1)
  list : PartList s' (s'.parts last).next blocks ws
  part : (s'.parts last).part = (s.parts last).part
  roots : s'.roots = s.roots
  strings : ∀ x, L x ≠ none → s'.strings x = s.strings x
  others : ∀ x, L x ≠ none → x ≠ last → s'.parts x = s.parts x

theorem parsePartsFrom_moves {s s' : Paths H} {last : UInt32} {path : List UInt8}
    (run : parsePartsFrom A s last path = some s') : Moves A s.heap s'.heap := by
  induction parsePartsFrom_run.mp run with
  | stop part => exact parsePathPart_moves part
  | next part _ later ih => exact (parsePathPart_moves part).trans (ih (parsePartsFrom_run.mpr later))

theorem parsePartsFrom_spec {s s' : Paths H} {last : UInt32} {path : List UInt8} {L : Ledger UInt32 Nat}
    (run : parsePartsFrom A s last path = some s') (granted : laws.granted s'.heap)
    (holds : laws.holds s.heap L) (nonzero : last ≠ 0) (live : L last ≠ none) (open' : (s.parts last).next = 0)
    (short : path.length < peachosMaxPathLength) :
    ∃ blocks, PartsFound laws L s s' last blocks (components path) := by
  induction parsePartsFrom_run.mp run generalizing L with
  | @stop s last path rest part =>
    obtain ⟨_, roots, stopped, found⟩ := parsePathPart_spec part granted holds (fun _ => live) short
    have empty : component path = [] := by
      by_contra more
      obtain ⟨b, found⟩ := found more
      exact found.nonzero rfl
    obtain ⟨_, held, parts, strings⟩ := stopped empty
    refine ⟨[], ⟨List.nodup_nil, fun x mem => absurd mem List.not_mem_nil⟩, ?_, ?_, ?_, roots, strings, ?_⟩
    · rw [assign_nil]
      exact held
    · rw [parts, open', components, dif_pos empty]
      exact .nil
    · rw [parts]
    · intro x _ _
      rw [parts]
  | @next s s₁ last p path rest part go later ih =>
    have run₁ := parsePartsFrom_run.mpr later
    have granted₁ := (parsePartsFrom_moves run₁).granted laws granted
    have shorter := parsePathPart_shorter A part go
    obtain ⟨rfl, roots, stop, found⟩ := parsePathPart_spec part granted₁ holds (fun _ => live) short
    have more : component path ≠ [] := fun empty => go (stop empty).1
    obtain ⟨b, found⟩ := found more
    obtain ⟨blocks, rest⟩ := ih run₁ found.holds go
      (by rw [Function.update_self]; exact Option.some_ne_none 1) (by rw [found.part]) (by omega)
    have apart : last ≠ p := by
      rintro rfl
      exact kept_of_update found.buffer 1 live found.record
    have kept (x : UInt32) (owned : L x ≠ none) :=
      kept_of_update found.record 1 (kept_of_update found.buffer 1 owned)
    have before : s'.parts last = { s.parts last with next := p } := by
      rw [rest.others last (kept last live) apart, found.linked nonzero]
    have own : (s'.parts p).part = b := by rw [rest.part, found.part]
    refine ⟨b :: p :: blocks, .cons found.buffer (.cons found.record rest.new), ?_, ?_, ?_, ?_, ?_, ?_⟩
    · rw [← assign_cons, ← assign_cons]
      exact rest.holds
    · rw [before, components, dif_neg more]
      have reads : ReadsAs (s'.strings (s'.parts p).part) (component path) := by
        rw [own, rest.strings b (kept_of_update found.record 1
          (by rw [Function.update_self]; exact Option.some_ne_none 1))]
        exact found.reads
      have list := PartList.cons go reads rest.list
      rwa [own] at list
    · rw [before]
    · exact rest.roots.trans roots
    · intro x owned
      exact (rest.strings x (kept x owned)).trans (found.strings x owned)
    · intro x owned off
      have ne : x ≠ p := by
        rintro rfl
        exact kept_of_update found.buffer 1 owned found.record
      exact (rest.others x (kept x owned) ne).trans (found.others x ne fun _ => off)

/-- A parsed path: its drive, its parts, and the blocks it takes. -/
structure Parsed (laws : BlockLaws A) (L : Ledger UInt32 Nat) (s s' : Paths H) (root : UInt32)
    (blocks : List UInt32) (path : List UInt8) : Prop where
  nonzero : root ≠ 0
  new : New L (root :: blocks)
  holds : laws.holds s'.heap (assign L (· ∈ root :: blocks) 1)
  drive : (s'.roots root).driveNo = toNumericDigit (path.headD 0)
  list : PartList s' (s'.roots root).first blocks (components (path.drop 3))
  roots : ∀ x, L x ≠ none → s'.roots x = s.roots x
  strings : ∀ x, L x ≠ none → s'.strings x = s.strings x
  parts : ∀ x, L x ≠ none → s'.parts x = s.parts x

theorem driveByPath_of_valid {path : List UInt8} (valid : pathparserPathValidFormat path) :
    pathparserGetDriveByPath path = (toNumericDigit (path.headD 0), path.drop 3) ∧
      0 ≤ toNumericDigit (path.headD 0) := by
  constructor
  · rw [pathparserGetDriveByPath, if_neg (not_not.mpr valid)]
  · have digit : isDigit (path.headD 0) = true := by
      unfold pathparserPathValidFormat at valid
      simp only [Bool.and_eq_true] at valid
      exact valid.1.2
    simp only [isDigit, Bool.and_eq_true, decide_eq_true_eq, UInt8.le_iff_toNat_le] at digit
    have low : (48 : UInt8).toNat = 48 := rfl
    unfold toNumericDigit
    omega

theorem strlen_eq {path : List UInt8} (noNul : (0 : UInt8) ∉ path) : strlen path = path.length := by
  induction path with
  | nil => rfl
  | cons c path ih =>
    rw [List.mem_cons, not_or] at noNul
    rw [strlen, if_neg (Ne.symm noNul.1), ih noNul.2, List.length_cons]

/-- The paths with a root: short enough, and of the form digit, colon, slash. -/
def Accepted (path : List UInt8) : Prop :=
  path.length ≤ peachosMaxPathLength ∧ pathparserPathValidFormat path

theorem pathparserParse_rejects (s : Paths H) {path : List UInt8} (noNul : (0 : UInt8) ∉ path)
    (bad : ¬ Accepted path) : pathparserParse A s path = some (0, s) := by
  unfold pathparserParse
  rw [strlen_eq noNul]
  by_cases long : path.length > peachosMaxPathLength
  · rw [if_pos long]
  · have invalid : ¬ pathparserPathValidFormat path := fun valid => bad ⟨Nat.le_of_not_lt long, valid⟩
    rw [if_neg long, pathparserGetDriveByPath, if_pos invalid]
    dsimp only
    rw [if_pos (by decide)]

/-- What a parse of an accepted path runs through. -/
theorem pathparserParse_accepts (s : Paths H) {path : List UInt8} (noNul : (0 : UInt8) ∉ path)
    (good : Accepted path) : pathparserParse A s path =
      match pathparserCreateRoot A s (toNumericDigit (path.headD 0)) with
      | none => none
      | some (pathRoot, s) =>
        match pathparserParsePathPart A s 0 (path.drop 3) with
        | none => none
        | some (firstPart, tmpPath, s) =>
          if firstPart = 0 then some (pathRoot, s)
          else
            let s := { s with roots := update s.roots pathRoot { s.roots pathRoot with first := firstPart } }
            (parsePartsFrom A s firstPart tmpPath).map fun s => (pathRoot, s) := by
  obtain ⟨short, valid⟩ := good
  obtain ⟨drive, digit⟩ := driveByPath_of_valid valid
  unfold pathparserParse
  rw [strlen_eq noNul, if_neg (Nat.not_lt.mpr short), drive]
  exact if_neg (Int.not_lt.mpr digit)

theorem createRoot_spec {s s' : Paths H} {drive : Int} {root : UInt32} {L : Ledger UInt32 Nat}
    (run : pathparserCreateRoot A s drive = some (root, s')) (granted : laws.granted s'.heap)
    (holds : laws.holds s.heap L) : root ≠ 0 ∧ L root = none ∧
      laws.holds s'.heap (update L root (some 1)) ∧ s'.roots = update s.roots root ⟨drive, 0⟩ ∧
      s'.parts = s.parts ∧ s'.strings = s.strings := by
  have one : blocksNeeded sizeofPathRoot = 1 := by decide
  have request := laws.malloc s.heap sizeofPathRoot L
  unfold pathparserCreateRoot at run
  rcases hm : A.malloc s.heap sizeofPathRoot with ⟨ptr, heap⟩
  rw [hm, one] at request
  rw [hm] at run
  dsimp only at run request
  split at run
  · cases run
  · rename_i nonzero
    obtain ⟨rfl, rfl⟩ := Prod.mk.inj (Option.some.inj run)
    obtain ⟨_, fresh, held⟩ := request granted holds (by decide)
    exact ⟨nonzero, fresh, held, rfl, rfl, rfl⟩

/-- A path without a component has the root only. -/
theorem pathparserParse_stops {s s₁ s₂ : Paths H} {root : UInt32} {path rest : List UInt8} {L : Ledger UInt32 Nat}
    (made : pathparserCreateRoot A s (toNumericDigit (path.headD 0)) = some (root, s₁))
    (part : pathparserParsePathPart A s₁ 0 (path.drop 3) = some (0, rest, s₂)) (granted : laws.granted s₂.heap)
    (holds : laws.holds s.heap L) (short : (path.drop 3).length < peachosMaxPathLength) :
    Parsed laws L s s₂ root [] path := by
  have moves₂ := parsePathPart_moves part
  obtain ⟨nonzero, fresh, held, roots, parts, strings⟩ :=
    createRoot_spec made (moves₂.granted laws granted) holds
  obtain ⟨_, roots₂, stopped, found⟩ := parsePathPart_spec part granted held (fun no => absurd rfl no) short
  have empty : component (path.drop 3) = [] := by
    by_contra more
    obtain ⟨b, found⟩ := found more
    exact found.nonzero rfl
  obtain ⟨_, held₂, parts₂, strings₂⟩ := stopped empty
  have only : (s₂.roots root).first = 0 := by
    rw [roots₂, roots, Function.update_self]
  have old (x : UInt32) (owned : L x ≠ none) := kept_of_update fresh 1 owned
  refine ⟨nonzero, .cons (l := 1) fresh ⟨List.nodup_nil, fun x mem => absurd mem List.not_mem_nil⟩,
    ?_, ?_, ?_, ?_, ?_, ?_⟩
  · rw [← assign_cons, assign_nil]
    exact held₂
  · rw [roots₂, roots, Function.update_self]
  · rw [only, components, dif_pos empty]
    exact .nil
  · intro x owned
    have ne : x ≠ root := by
      rintro rfl
      exact owned fresh
    rw [roots₂, roots, Function.update_of_ne ne]
  · intro x owned
    rw [strings₂ x (old x owned), strings]
  · intro x _
    rw [parts₂, parts]

/-- The first component is behind the root, and the parts of the rest behind it. -/
theorem pathparserParse_goes {s s₁ s₂ s₃ : Paths H} {root first : UInt32} {path rest : List UInt8}
    {L : Ledger UInt32 Nat} (made : pathparserCreateRoot A s (toNumericDigit (path.headD 0)) = some (root, s₁))
    (part : pathparserParsePathPart A s₁ 0 (path.drop 3) = some (first, rest, s₂)) (go : first ≠ 0)
    (parsed : parsePartsFrom A
      { s₂ with roots := update s₂.roots root { s₂.roots root with first := first } } first rest = some s₃)
    (granted : laws.granted s₃.heap) (holds : laws.holds s.heap L)
    (short : (path.drop 3).length < peachosMaxPathLength) : ∃ blocks, Parsed laws L s s₃ root blocks path := by
  have left : (afterComponent (path.drop 3)).length < peachosMaxPathLength :=
    Nat.lt_of_le_of_lt (Nat.le_trans (Nat.le_add_left _ _) (component_length _)) short
  have moves₂ := parsePathPart_moves part
  have granted₂ : laws.granted s₂.heap := (parsePartsFrom_moves parsed).granted laws granted
  obtain ⟨nonzero, fresh, held, roots, parts, strings⟩ :=
    createRoot_spec made (moves₂.granted laws granted₂) holds
  obtain ⟨rfl, roots₂, stopped, found⟩ :=
    parsePathPart_spec part granted₂ held (fun no => absurd rfl no) short
  have more : component (path.drop 3) ≠ [] := fun empty => go (stopped empty).1
  obtain ⟨b, found⟩ := found more
  have second : (s₂.parts first).next = 0 := by rw [found.part]
  obtain ⟨blocks, rest⟩ := parsePartsFrom_spec parsed granted found.holds go
    (by rw [Function.update_self]; exact Option.some_ne_none 1) second left
  have own : (s₃.parts first).part = b := by
    rw [rest.part]
    dsimp only
    rw [found.part]
  have here : s₃.roots root = ⟨toNumericDigit (path.headD 0), first⟩ := by
    rw [rest.roots]
    dsimp only
    rw [Function.update_self, roots₂, roots, Function.update_self]
  have old (x : UInt32) (owned : L x ≠ none) := kept_of_update fresh 1 owned
  have old₂ (x : UInt32) (owned : update L root (some 1) x ≠ none) :=
    kept_of_update found.record 1 (kept_of_update found.buffer 1 owned)
  refine ⟨b :: first :: blocks, nonzero, .cons fresh (.cons found.buffer (.cons found.record rest.new)),
    ?_, ?_, ?_, ?_, ?_, ?_⟩
  · rw [← assign_cons, ← assign_cons, ← assign_cons]
    exact rest.holds
  · rw [here]
  · rw [here, components, dif_neg more]
    have reads : ReadsAs (s₃.strings (s₃.parts first).part) (component (path.drop 3)) := by
      rw [own, rest.strings b (kept_of_update found.record 1
        (by rw [Function.update_self]; exact Option.some_ne_none 1))]
      exact found.reads
    have list := PartList.cons go reads rest.list
    rwa [own] at list
  · intro x owned
    have ne : x ≠ root := by
      rintro rfl
      exact owned fresh
    rw [rest.roots]
    dsimp only
    rw [Function.update_of_ne ne, roots₂, roots, Function.update_of_ne ne]
  · intro x owned
    rw [rest.strings x (old₂ x (old x owned))]
    dsimp only
    rw [found.strings x (old x owned), strings]
  · intro x owned
    have ne : x ≠ first := by
      rintro rfl
      exact kept_of_update found.buffer 1 (old _ owned) found.record
    rw [rest.others x (old₂ x (old x owned)) ne]
    dsimp only
    rw [found.others x ne fun no => absurd rfl no, parts]

/-- An accepted path is parsed into its components. -/
theorem pathparserParse_spec {s s' : Paths H} {root : UInt32} {path : List UInt8} {L : Ledger UInt32 Nat}
    (run : pathparserParse A s path = some (root, s')) (granted : laws.granted s'.heap)
    (holds : laws.holds s.heap L) (noNul : (0 : UInt8) ∉ path) (good : Accepted path) :
    ∃ blocks, Parsed laws L s s' root blocks path := by
  have short : (path.drop 3).length < peachosMaxPathLength := by
    have := good.1
    rw [List.length_drop]
    unfold peachosMaxPathLength at *
    omega
  rw [pathparserParse_accepts s noNul good] at run
  cases made : pathparserCreateRoot A s (toNumericDigit (path.headD 0)) with
  | none =>
    rw [made] at run
    cases run
  | some result =>
    obtain ⟨root', s₁⟩ := result
    rw [made] at run
    dsimp only at run
    cases part : pathparserParsePathPart A s₁ 0 (path.drop 3) with
    | none =>
      rw [part] at run
      cases run
    | some result =>
      obtain ⟨first, rest, s₂⟩ := result
      rw [part] at run
      dsimp only at run
      split at run
      · rename_i stop
        subst stop
        obtain ⟨rfl, rfl⟩ := Prod.mk.inj (Option.some.inj run)
        exact ⟨[], pathparserParse_stops made part granted holds short⟩
      · rename_i go
        rcases parsed : parsePartsFrom A
            { s₂ with roots := update s₂.roots root' { s₂.roots root' with first := first } } first rest with _ | s₃
        · rw [parsed] at run
          cases run
        rw [parsed] at run
        obtain ⟨rfl, rfl⟩ := Prod.mk.inj (Option.some.inj run)
        exact pathparserParse_goes made part go parsed granted holds short

/-! ## A parse returns -/

theorem getPathPart_returns {s : Paths H} {n : Nat} {L : Ledger UInt32 Nat} (path : List UInt8)
    (serves : laws.Serves (n + 1) s.heap) (holds : laws.holds s.heap L) :
    ∃ b rest s', pathparserGetPathPart A s path = some (b, rest, s') ∧ laws.granted s'.heap ∧
      laws.Serves n s'.heap := by
  obtain ⟨granted, later⟩ := serves.malloc (.ofNat peachosMaxPathLength) (by decide) (by decide)
  rcases hb : s.newBuffer A with ⟨ptr, s₀⟩
  have heap : s₀.heap = (A.malloc s.heap (.ofNat peachosMaxPathLength)).2 := by
    have same : (s.newBuffer A).2.heap = (A.malloc s.heap (.ofNat peachosMaxPathLength)).2 := by
      unfold Paths.newBuffer
      dsimp only
      split <;> rfl
    rw [hb] at same
    exact same
  rw [← heap] at granted later
  obtain ⟨nonzero, _⟩ := newBuffer_spec hb granted holds
  unfold pathparserGetPathPart
  rw [hb]
  dsimp only
  split
  · exact ⟨_, _, _, rfl, (laws.free_granted _ _).mpr granted, later.free ptr⟩
  · exact ⟨_, _, _, rfl, granted, later⟩

theorem parsePathPart_returns {s : Paths H} {n : Nat} {L : Ledger UInt32 Nat} (last : UInt32)
    {path : List UInt8} (serves : laws.Serves (n + 2) s.heap) (holds : laws.holds s.heap L)
    (short : path.length < peachosMaxPathLength) :
    ∃ p rest s', pathparserParsePathPart A s last path = some (p, rest, s') ∧ laws.granted s'.heap ∧
      laws.Serves n s'.heap := by
  obtain ⟨b, rest, s₁, got, granted, later⟩ := getPathPart_returns path serves holds
  obtain ⟨_, _, _, _, stopped, found⟩ := getPathPart_spec got granted holds short
  unfold pathparserParsePathPart
  rw [got]
  dsimp only
  split
  · exact ⟨_, _, _, rfl, granted, later.mono (Nat.le_succ n)⟩
  · rename_i go
    have more : component path ≠ [] := fun empty => go (stopped empty).1
    obtain ⟨_, _, held, _⟩ := found more
    obtain ⟨granted', later'⟩ := later.malloc sizeofPathPart (by decide) (by decide)
    obtain ⟨⟨positive, _⟩, _⟩ := laws.malloc _ _ _ granted' held (by decide)
    have nonzero : (A.malloc s₁.heap sizeofPathPart).1 ≠ 0 := by
      intro zero
      rw [zero] at positive
      exact absurd positive (Nat.lt_irrefl 0)
    rw [if_neg nonzero]
    exact ⟨_, _, _, rfl, granted', later'⟩

theorem parsePartsFrom_returns {s : Paths H} {n : Nat} {last : UInt32} {path : List UInt8} {L : Ledger UInt32 Nat}
    (serves : laws.Serves (n + 2 * (components path).length + 2) s.heap) (holds : laws.holds s.heap L)
    (live : last ≠ 0 → L last ≠ none) (short : path.length < peachosMaxPathLength) :
    ∃ s', parsePartsFrom A s last path = some s' ∧ laws.granted s'.heap ∧ laws.Serves n s'.heap := by
  induction size : path.length using Nat.strongRecOn generalizing s last path L with
  | ind size ih =>
    subst size
    obtain ⟨p, rest, s₁, part, granted, later⟩ := parsePathPart_returns last serves holds short
    obtain ⟨after, _, stopped, found⟩ := parsePathPart_spec part granted holds live short
    rw [parsePartsFrom_eq part]
    split
    · exact ⟨_, rfl, granted, later.mono (Nat.le_add_right n _)⟩
    · rename_i go
      have more : component path ≠ [] := fun empty => go (stopped empty).1
      obtain ⟨b, found⟩ := found more
      have shorter := parsePathPart_shorter A part go
      subst after
      rw [components, dif_neg more, List.length_cons] at later
      exact ih _ shorter later found.holds
        (fun _ => by rw [Function.update_self]; exact Option.some_ne_none 1) (by omega) rfl

theorem pathparserParse_returns {s : Paths H} {n : Nat} {path : List UInt8} {L : Ledger UInt32 Nat}
    (serves : laws.Serves (n + 2 * (components (path.drop 3)).length + 3) s.heap) (holds : laws.holds s.heap L)
    (noNul : (0 : UInt8) ∉ path) (good : Accepted path) :
    ∃ root s', pathparserParse A s path = some (root, s') ∧ laws.granted s'.heap ∧ laws.Serves n s'.heap := by
  have short : (path.drop 3).length < peachosMaxPathLength := by
    have := good.1
    rw [List.length_drop]
    unfold peachosMaxPathLength at *
    omega
  obtain ⟨granted, later⟩ := serves.malloc sizeofPathRoot (by decide) (by decide)
  obtain ⟨⟨positive, _⟩, fresh, held⟩ := laws.malloc _ _ _ granted holds (by decide)
  have nonzero : (A.malloc s.heap sizeofPathRoot).1 ≠ 0 := by
    intro zero
    rw [zero] at positive
    exact absurd positive (Nat.lt_irrefl 0)
  rw [pathparserParse_accepts s noNul good]
  unfold pathparserCreateRoot
  rcases hm : A.malloc s.heap sizeofPathRoot with ⟨root, heap⟩
  rw [hm] at granted later held nonzero
  dsimp only at granted later held nonzero ⊢
  rw [if_neg nonzero]
  dsimp only
  generalize hs : ({ s with heap, roots := update s.roots root ⟨toNumericDigit (path.headD 0), 0⟩ } : Paths H) = s₁
  have same : s₁.heap = heap := by rw [← hs]
  rw [← same] at granted later held
  obtain ⟨first, rest, s₂, part, granted₂, later₂⟩ := parsePathPart_returns 0 later held short
  obtain ⟨after, _, stopped, found⟩ := parsePathPart_spec part granted₂ held (fun no => absurd rfl no) short
  rw [part]
  dsimp only
  by_cases stop : first = 0
  · rw [if_pos stop]
    exact ⟨_, _, rfl, granted₂, later₂.mono (Nat.le_add_right n _)⟩
  · rw [if_neg stop]
    have more : component (path.drop 3) ≠ [] := fun empty => stop (stopped empty).1
    obtain ⟨b, found⟩ := found more
    subst after
    rw [components, dif_neg more, List.length_cons] at later₂
    have left : (afterComponent (path.drop 3)).length < peachosMaxPathLength :=
      Nat.lt_of_le_of_lt (Nat.le_trans (Nat.le_add_left _ _) (component_length _)) short
    obtain ⟨s₃, loop, served⟩ := parsePartsFrom_returns
      (s := { s₂ with roots := update s₂.roots root { s₂.roots root with first := first } }) later₂ found.holds
      (fun _ => by rw [Function.update_self]; exact Option.some_ne_none 1) left
    rw [loop]
    exact ⟨_, _, rfl, served⟩

/-! ## Giving a path back -/

theorem freePartsFrom_spec {s : Paths H} {p : UInt32} {blocks : List UInt32} {ws : List (List UInt8)}
    (list : PartList s p blocks ws) {L : Ledger UInt32 Nat} (new : New L blocks) {heap : H}
    (holds : laws.holds heap (assign L (· ∈ blocks) 1)) :
    ∃ heap', Paths.freePartsFrom A { s with heap } p = some { s with heap := heap' } ∧ laws.holds heap' L := by
  induction list generalizing heap with
  | nil =>
    rw [Paths.freePartsFrom, if_pos rfl]
    rw [assign_nil] at holds
    exact ⟨heap, rfl, holds⟩
  | @cons p blocks w ws nonzero reads rest ih =>
    have held := laws.free _ _ (s.parts p).part holds (by
      rw [assign_new L 1 List.mem_cons_self]
      exact Option.some_ne_none 1)
    rw [new.release 1] at held
    have held := laws.free _ _ p held (by
      rw [assign_new L 1 List.mem_cons_self]
      exact Option.some_ne_none 1)
    rw [new.tail.release 1] at held
    obtain ⟨heap', run, back⟩ := ih new.tail.tail held
    rw [Paths.freePartsFrom, if_neg nonzero]
    exact ⟨heap', run, back⟩

theorem pathparserFree_spec {s : Paths H} {root : UInt32} {blocks : List UInt32} {ws : List (List UInt8)}
    {L : Ledger UInt32 Nat} (nonzero : root ≠ 0) (list : PartList s (s.roots root).first blocks ws)
    (new : New L (root :: blocks)) (holds : laws.holds s.heap (assign L (· ∈ root :: blocks) 1)) :
    ∃ heap', pathparserFree A s root = some { s with heap := heap' } ∧ laws.holds heap' L := by
  have apart : root ∉ blocks := (List.nodup_cons.mp new.nodup).1
  have taken : update L root (some 1) root ≠ none := by
    rw [Function.update_self]
    exact Option.some_ne_none 1
  have later : New (update L root (some 1)) blocks := by
    refine ⟨new.tail.nodup, fun x mem => ?_⟩
    have ne : x ≠ root := by
      rintro rfl
      exact apart mem
    rw [Function.update_of_ne ne]
    exact new.tail.free x mem
  rw [← assign_cons] at holds
  obtain ⟨heap', run, back⟩ := freePartsFrom_spec (A := A) list later holds
  have back := laws.free _ _ root back taken
  rw [Function.update_idem, ← new.free root List.mem_cons_self, Function.update_eq_self] at back
  refine ⟨A.free heap' root, ?_, back⟩
  have run' : Paths.freePartsFrom A s (s.roots root).first = some { s with heap := heap' } := run
  rw [pathparserFree, if_neg nonzero, run']
  rfl

/-- Freeing a parsed path gives back exactly its blocks. -/
theorem Parsed.free {s s' : Paths H} {root : UInt32} {blocks : List UInt32} {path : List UInt8}
    {L : Ledger UInt32 Nat} (parsed : Parsed laws L s s' root blocks path) :
    ∃ heap', pathparserFree A s' root = some { s' with heap := heap' } ∧ laws.holds heap' L :=
  pathparserFree_spec parsed.nonzero parsed.list parsed.new parsed.holds

/-- More blocks may be live by then. -/
theorem Parsed.free_later {s s' t : Paths H} {root : UInt32} {blocks : List UInt32} {path : List UInt8}
    {L L' : Ledger UInt32 Nat} (parsed : Parsed laws L s s' root blocks path) (roots : t.roots = s'.roots)
    (parts : t.parts = s'.parts) (strings : t.strings = s'.strings)
    (more : Extends (assign L (· ∈ root :: blocks) 1) L') (holds : laws.holds t.heap L') :
    ∃ heap' L'', pathparserFree A t root = some { t with heap := heap' } ∧ laws.holds heap' L'' ∧ Extends L L'' := by
  have list : PartList t (t.roots root).first blocks (components (path.drop 3)) := by
    rw [roots]
    exact parsed.list.of_eq parts strings
  have new : New (fun x => if x ∈ root :: blocks then none else L' x) (root :: blocks) :=
    ⟨parsed.new.nodup, fun x mem => if_pos mem⟩
  have same : assign (fun x => if x ∈ root :: blocks then none else L' x) (· ∈ root :: blocks) 1 = L' := by
    funext x
    by_cases mem : x ∈ root :: blocks
    · rw [assign_new _ 1 mem, more x 1 (assign_new L 1 mem)]
    · rw [assign_old _ 1 mem, if_neg mem]
  obtain ⟨heap', run, back⟩ := pathparserFree_spec (A := A) parsed.nonzero list new (by rwa [same])
  refine ⟨heap', _, run, back, fun x l owned => ?_⟩
  have old : x ∉ root :: blocks := by
    intro mem
    rw [parsed.new.free x mem] at owned
    cases owned
  rw [if_neg old]
  exact more x l (parsed.new.extends 1 x l owned)

/-! ## Paths as they are written -/

/-- The digit `d`, a colon and a slash, and the parts with slashes between them. -/
def writtenPath (d : UInt8) (ws : List (List UInt8)) (trailing : Bool) : List UInt8 :=
  d :: 58 :: slash :: ([slash].intercalate ws ++ if trailing then [slash] else [])

/-- A name that can be a part: not empty, without slash and NUL. -/
structure PartName (w : List UInt8) : Prop where
  nonempty : w ≠ []
  noSlash : slash ∉ w
  noNul : (0 : UInt8) ∉ w

theorem PartName.all_inPart {w : List UInt8} (name : PartName w) : ∀ c ∈ w, inPart c = true := by
  intro c mem
  have isSlash : c ≠ slash := by
    rintro rfl
    exact name.noSlash mem
  have isNul : c ≠ 0 := by
    rintro rfl
    exact name.noNul mem
  simp [inPart, isSlash, isNul]

theorem components_nil : components [] = [] := by
  rw [components]
  exact dif_pos rfl

theorem components_last {w : List UInt8} (name : PartName w) (trailing : Bool) :
    components (w ++ if trailing then [slash] else []) = [w] := by
  have first : component (w ++ if trailing then [slash] else []) = w := by
    rw [component, List.takeWhile_append_of_pos name.all_inPart]
    cases trailing with
    | false => rw [if_neg Bool.false_ne_true, List.takeWhile_nil, List.append_nil]
    | true => rw [if_pos rfl, List.takeWhile_cons_of_neg (by decide), List.append_nil]
  have rest : afterComponent (w ++ if trailing then [slash] else []) = [] := by
    unfold afterComponent
    rw [List.dropWhile_append_of_pos name.all_inPart]
    cases trailing <;> rfl
  rw [components, first, dif_neg name.nonempty, rest, components_nil]

theorem components_cons {w path : List UInt8} (name : PartName w) :
    components (w ++ slash :: path) = w :: components path := by
  have first : component (w ++ slash :: path) = w := by
    rw [component, List.takeWhile_append_of_pos name.all_inPart, List.takeWhile_cons_of_neg (by decide),
      List.append_nil]
  have rest : afterComponent (w ++ slash :: path) = path := by
    unfold afterComponent
    rw [List.dropWhile_append_of_pos name.all_inPart]
    rfl
  rw [components, first, dif_neg name.nonempty, rest]

/-- The parts written are the components read. -/
theorem components_written {ws : List (List UInt8)} (names : ∀ w ∈ ws, PartName w) (trailing : Bool)
    (some : trailing = true → ws ≠ []) :
    components ([slash].intercalate ws ++ if trailing then [slash] else []) = ws := by
  induction ws with
  | nil =>
    cases trailing with
    | false => exact components_nil
    | true => exact absurd rfl (some rfl)
  | cons w ws ih =>
    have name := names w List.mem_cons_self
    cases ws with
    | nil =>
      have single : [slash].intercalate [w] = w := by simp [List.intercalate]
      rw [single, components_last name]
    | cons v ws =>
      have later := ih (fun x mem => names x (List.mem_cons_of_mem w mem)) (fun _ => List.cons_ne_nil v ws)
      have next : [slash].intercalate (w :: v :: ws) = w ++ slash :: [slash].intercalate (v :: ws) := by
        simp [List.intercalate]
      rw [next, List.append_assoc, List.cons_append, components_cons name, later]

theorem strnlen_eq {path : List UInt8} (noNul : (0 : UInt8) ∉ path) (max : Nat) :
    strnlen path max = min path.length max := by
  induction path generalizing max with
  | nil => cases max <;> simp [strnlen]
  | cons c path ih =>
    rw [List.mem_cons, not_or] at noNul
    cases max with
    | zero => simp [strnlen]
    | succ max =>
      rw [strnlen, if_neg (Ne.symm noNul.1), ih noNul.2, List.length_cons]
      omega

theorem memcmp_succ (s1 s2 : List UInt8) (n : Nat) :
    memcmp s1 s2 (n + 1) = 0 ↔ s1.headD 0 = s2.headD 0 ∧ memcmp s1.tail s2.tail n = 0 := by
  rw [memcmp]
  by_cases same : s1.headD 0 = s2.headD 0
  · rw [if_neg (not_not.mpr same)]
    simp only [same, true_and]
  · rw [if_pos same]
    have apart : ¬ (if (s1.headD 0).toInt8 < (s2.headD 0).toInt8 then (-1 : Int) else 1) = 0 := by
      split <;> decide
    simp only [apart, same, false_and]

/-- The form the parser asks for. -/
theorem validFormat_iff {path : List UInt8} (noNul : (0 : UInt8) ∉ path) :
    pathparserPathValidFormat path ↔ ∃ d rest, isDigit d = true ∧ path = d :: 58 :: slash :: rest := by
  unfold pathparserPathValidFormat
  rw [strnlen_eq noNul]
  have compare : memcmp path.tail [58, slash] 2 = 0 ↔
      path.tail.headD 0 = 58 ∧ path.tail.tail.headD 0 = slash := by
    rw [memcmp_succ _ _ 1, memcmp_succ _ _ 0]
    simp [memcmp]
  simp only [Bool.and_eq_true, decide_eq_true_eq, compare]
  constructor
  · rintro ⟨⟨long, digit⟩, first, second⟩
    rcases path with _ | ⟨d, _ | ⟨colon, _ | ⟨mark, rest⟩⟩⟩
    · exact absurd (Nat.le_trans long (Nat.min_le_left _ _)) (by simp)
    · exact absurd (Nat.le_trans long (Nat.min_le_left _ _)) (by simp)
    · exact absurd (Nat.le_trans long (Nat.min_le_left _ _)) (by simp)
    · have first : colon = 58 := first
      have second : mark = slash := second
      subst first second
      exact ⟨d, rest, digit, rfl⟩
  · rintro ⟨d, rest, digit, rfl⟩
    refine ⟨⟨?_, digit⟩, rfl, rfl⟩
    have long : 3 ≤ (d :: 58 :: slash :: rest).length := by simp
    exact Nat.le_min.mpr ⟨long, by decide⟩

theorem writtenPath_noNul {d : UInt8} (digit : isDigit d = true) {ws : List (List UInt8)}
    (names : ∀ w ∈ ws, PartName w) (trailing : Bool) : (0 : UInt8) ∉ writtenPath d ws trailing := by
  have first : d ≠ 0 := by
    rintro rfl
    exact absurd digit (by decide)
  have middle : (0 : UInt8) ∉ [slash].intercalate ws := by
    induction ws with
    | nil => simp [List.intercalate]
    | cons w ws ih =>
      have name := (names w List.mem_cons_self).noNul
      cases ws with
      | nil => simpa [List.intercalate] using name
      | cons v ws =>
        have later := ih fun x mem => names x (List.mem_cons_of_mem w mem)
        have next : [slash].intercalate (w :: v :: ws) = w ++ slash :: [slash].intercalate (v :: ws) := by
          simp [List.intercalate]
        rw [next, List.mem_append, List.mem_cons, not_or, not_or]
        exact ⟨name, by decide, later⟩
  have last : (0 : UInt8) ∉ (if trailing then [slash] else []) := by
    cases trailing <;> decide
  unfold writtenPath
  simp only [List.mem_cons, List.mem_append, not_or]
  exact ⟨first.symm, by decide, by decide, middle, last⟩

/-- **A written path is read back**: its drive and exactly its parts. A string
that is too long or not of that form has no root. -/
theorem pathparserParse_written {s : Paths H} {L : Ledger UInt32 Nat} (holds : laws.holds s.heap L) :
    (∀ d ws trailing, isDigit d = true → (∀ w ∈ ws, PartName w) → (trailing = true → ws ≠ []) →
      (writtenPath d ws trailing).length ≤ peachosMaxPathLength → laws.Serves (2 * ws.length + 3) s.heap →
      ∃ root s' blocks, pathparserParse A s (writtenPath d ws trailing) = some (root, s') ∧ root ≠ 0 ∧
        (s'.roots root).driveNo = d.toNat - 48 ∧ PartList s' (s'.roots root).first blocks ws ∧
        (ws = [] → (s'.roots root).first = 0)) ∧
    ∀ path, (0 : UInt8) ∉ path → (peachosMaxPathLength < path.length ∨
        ¬ ∃ d rest, isDigit d = true ∧ path = d :: 58 :: slash :: rest) →
      pathparserParse A s path = some (0, s) := by
  constructor
  · intro d ws trailing digit names some short serves
    have noNul := writtenPath_noNul digit names trailing
    have good : Accepted (writtenPath d ws trailing) := ⟨short, (validFormat_iff noNul).mpr ⟨d, _, digit, rfl⟩⟩
    have parts : components ((writtenPath d ws trailing).drop 3) = ws := components_written names trailing some
    obtain ⟨root, s', run, granted, _⟩ :=
      pathparserParse_returns (n := 0) (by rwa [Nat.zero_add, parts]) holds noNul good
    obtain ⟨blocks, parsed⟩ := pathparserParse_spec run granted holds noNul good
    have list := parsed.list
    rw [parts] at list
    refine ⟨root, s', blocks, run, parsed.nonzero, parsed.drive, list, ?_⟩
    rintro rfl
    exact list.first_nil
  · intro path noNul bad
    apply pathparserParse_rejects s noNul
    rintro ⟨short, valid⟩
    rcases bad with long | form
    · exact absurd short (Nat.not_le.mpr long)
    · exact form ((validFormat_iff noNul).mp valid)

def freshPaths : Paths Nat := ⟨0, fun _ => ⟨0, 0⟩, fun _ => ⟨0, 0⟩, fun _ _ => 0⟩

theorem freshHeap_serves {n next : Nat} (fits : next + n ≤ 25600) : freshBlocks.Serves n next := by
  induction n generalizing next with
  | zero => trivial
  | succ n ih =>
    intro h' rest bytes positive small
    have same : h' = next := by
      induction rest with
      | refl => rfl
      | free _ _ ih => exact ih
    subst same
    have one : blocksNeeded bytes = 1 := blocksNeeded_one positive small
    have room : (freshHeap.malloc h' bytes).2 = h' + 1 := by
      rw [← one]
      rfl
    rw [room]
    exact ⟨by show h' + 1 ≤ 25600; omega, ih (by omega)⟩

theorem two_parts_read : ∃ root s' blocks,
    pathparserParse freshHeap freshPaths (writtenPath 48 [[97], [98]] true) = some (root, s') ∧ root ≠ 0 ∧
      (s'.roots root).driveNo = 0 ∧ PartList s' (s'.roots root).first blocks [[97], [98]] := by
  have start : freshBlocks.holds freshPaths.heap (fun _ => none) := fun x owned => absurd rfl owned
  have names : ∀ w ∈ [[(97 : UInt8)], [98]], PartName w := by
    intro w mem
    rcases List.mem_cons.mp mem with rfl | mem
    · exact ⟨by decide, by decide, by decide⟩
    · cases List.mem_singleton.mp mem
      exact ⟨by decide, by decide, by decide⟩
  obtain ⟨root, s', blocks, run, nonzero, drive, list, _⟩ := (pathparserParse_written start).1 48 [[97], [98]] true
    (by decide) names (fun _ => by decide) (by decide) (freshHeap_serves (by decide))
  exact ⟨root, s', blocks, run, nonzero, drive, list⟩

end PeachOs
