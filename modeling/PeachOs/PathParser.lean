import PeachOs.LiveBlocks

/-!
# Path parser

`pparser.c` and the functions of `string.c` it uses. A C string is the list of
the bytes from its address on, and the end of the list reads as NUL. Where the
code goes through a NULL pointer there is no result.
-/

namespace PeachOs

open Ownership
open Function (update)

def strlen : List UInt8 → Nat
  | [] => 0
  | c :: s => if c = 0 then 0 else strlen s + 1

def strnlen : List UInt8 → (max : Nat) → Nat
  | [], _ => 0
  | _, 0 => 0
  | c :: s, max + 1 => if c = 0 then 0 else strnlen s max + 1

/-- A `char` is signed, and no negative one is a digit. -/
def isDigit (c : UInt8) : Bool := 48 ≤ c && c ≤ 57

def toNumericDigit (c : UInt8) : Int := (c.toNat : Int) - 48

def memcmp (s1 s2 : List UInt8) : (count : Nat) → Int
  | 0 => 0
  | count + 1 =>
    if s1.headD 0 ≠ s2.headD 0 then
      if (s1.headD 0).toInt8 < (s2.headD 0).toInt8 then -1 else 1
    else memcmp s1.tail s2.tail count

def slash : UInt8 := 47

structure PathRoot where
  driveNo : Int
  first : UInt32

structure PathPart where
  part : UInt32
  next : UInt32

/-- The heap with the records of `pparser.c` and the buffers of part names, by address. -/
structure Paths (H : Type) where
  heap : H
  roots : UInt32 → PathRoot
  parts : UInt32 → PathPart
  strings : UInt32 → Nat → UInt8

def sizeofPathRoot : UInt32 := 8
def sizeofPathPart : UInt32 := 8

/-- `mem` with its first `n` bytes cleared. -/
def cleared (n : Nat) (mem : Nat → UInt8) (i : Nat) : UInt8 := if i < n then 0 else mem i

def pathparserPathValidFormat (filename : List UInt8) : Bool :=
  let len := strnlen filename peachosMaxPathLength
  len ≥ 3 && isDigit (filename.headD 0) && memcmp filename.tail [58, slash] 2 = 0

/-- The drive number and the path after it. -/
def pathparserGetDriveByPath (path : List UInt8) : Int × List UInt8 :=
  if ¬ pathparserPathValidFormat path then (-ebadpath, path)
  else (toNumericDigit (path.headD 0), path.drop 3)

variable {H : Type} (A : Allocator H)

def pathparserCreateRoot (s : Paths H) (driveNumber : Int) : Option (UInt32 × Paths H) :=
  let (pathRoot, heap) := A.malloc s.heap sizeofPathRoot
  if pathRoot = 0 then none
  else some (pathRoot, { s with heap, roots := update s.roots pathRoot ⟨driveNumber, 0⟩ })

/-- `kZalloc` of a part's buffer. -/
def Paths.newBuffer (s : Paths H) : UInt32 × Paths H :=
  let (ptr, heap) := A.malloc s.heap (.ofNat peachosMaxPathLength)
  if ptr = 0 then (0, { s with heap })
  else (ptr, { s with heap, strings := update s.strings ptr (cleared peachosMaxPathLength (s.strings ptr)) })

/-- The copying loop at `i`: the buffer, the bytes copied and the path left. -/
def copyPart (buffer : Nat → UInt8) (i : Nat) : List UInt8 → (Nat → UInt8) × Nat × List UInt8
  | [] => (buffer, i, [])
  | c :: path =>
    if c ≠ slash ∧ c ≠ 0 then copyPart (update buffer i c) (i + 1) path else (buffer, i, c :: path)

def pathparserGetPathPart (s : Paths H) (path : List UInt8) :
    Option (UInt32 × List UInt8 × Paths H) :=
  let (resultPathPart, s) := s.newBuffer A
  let (buffer, i, path) := copyPart (s.strings resultPathPart) 0 path
  let path := if path.headD 0 = slash then path.tail else path
  if i = 0 then some (0, path, { s with heap := A.free s.heap resultPathPart })
  else if resultPathPart = 0 then none
  else some (resultPathPart, path, { s with strings := update s.strings resultPathPart buffer })

def pathparserParsePathPart (s : Paths H) (lastPart : UInt32) (path : List UInt8) :
    Option (UInt32 × List UInt8 × Paths H) :=
  match pathparserGetPathPart A s path with
  | none => none
  | some (pathPart, path, s) =>
    if pathPart = 0 then some (0, path, s)
    else
      let (part, heap) := A.malloc s.heap sizeofPathPart
      if part = 0 then none
      else
        let parts := update s.parts part ⟨pathPart, 0⟩
        let parts := if lastPart ≠ 0 then update parts lastPart { parts lastPart with next := part } else parts
        some (part, path, { s with heap, parts })

theorem copyPart_length (path : List UInt8) (buffer : Nat → UInt8) (i : Nat) :
    (copyPart buffer i path).2.1 + (copyPart buffer i path).2.2.length = i + path.length := by
  induction path generalizing buffer i with
  | nil => rfl
  | cons c path ih =>
    rw [copyPart]
    split
    · rw [ih, List.length_cons]
      omega
    · rfl

theorem getPathPart_shorter {s s' : Paths H} {b : UInt32} {path rest : List UInt8}
    (run : pathparserGetPathPart A s path = some (b, rest, s')) (found : b ≠ 0) : rest.length < path.length := by
  unfold pathparserGetPathPart at run
  rcases hb : s.newBuffer A with ⟨ptr, s₀⟩
  rw [hb] at run
  dsimp only at run
  have length := copyPart_length path (s₀.strings ptr) 0
  rcases hc : copyPart (s₀.strings ptr) 0 path with ⟨buffer, i, after⟩
  rw [hc] at run length
  dsimp only at run length
  split at run
  · cases run
    exact absurd rfl found
  · rename_i copied
    split at run
    · cases run
    · cases run
      split
      · rw [List.length_tail]
        omega
      · omega

/-- Either there is no part, or its record is asked for after its buffer. -/
theorem parsePathPart_cases {s s' : Paths H} {lastPart part : UInt32} {path rest : List UInt8}
    (run : pathparserParsePathPart A s lastPart path = some (part, rest, s')) :
    (part = 0 ∧ pathparserGetPathPart A s path = some (0, rest, s')) ∨
      ∃ b s₁, b ≠ 0 ∧ pathparserGetPathPart A s path = some (b, rest, s₁) ∧
        s'.heap = (A.malloc s₁.heap sizeofPathPart).2 := by
  unfold pathparserParsePathPart at run
  cases got : pathparserGetPathPart A s path with
  | none =>
    rw [got] at run
    cases run
  | some result =>
    obtain ⟨b, left, s₁⟩ := result
    rw [got] at run
    dsimp only at run
    split at run
    · rename_i stop
      cases run
      subst stop
      exact Or.inl ⟨rfl, rfl⟩
    · rename_i go
      split at run
      · cases run
      · cases run
        exact Or.inr ⟨b, s₁, go, rfl, rfl⟩

/-- A part takes bytes off the path. -/
theorem parsePathPart_shorter {s s' : Paths H} {lastPart part : UInt32} {path rest : List UInt8}
    (run : pathparserParsePathPart A s lastPart path = some (part, rest, s')) (found : part ≠ 0) :
    rest.length < path.length := by
  obtain ⟨none, _⟩ | ⟨b, s₁, some, got, _⟩ := parsePathPart_cases A run
  · exact absurd none found
  · exact getPathPart_shorter A got some

/-- The loop of `pathparser_parse` after the part `part`. -/
def parsePartsFrom (s : Paths H) (part : UInt32) (path : List UInt8) : Option (Paths H) :=
  match _run : pathparserParsePathPart A s part path with
  | none => none
  | some (next, rest, s) => if _stop : next = 0 then some s else parsePartsFrom s next rest
termination_by path.length
decreasing_by exact parsePathPart_shorter A _run _stop

/-- The turns of the loop: each but the last one finds a part. -/
inductive PartsRun (s' : Paths H) : Paths H → UInt32 → List UInt8 → Prop
  | stop {s : Paths H} {last : UInt32} {path rest : List UInt8}
      (part : pathparserParsePathPart A s last path = some (0, rest, s')) : PartsRun s' s last path
  | next {s s₁ : Paths H} {last p : UInt32} {path rest : List UInt8}
      (part : pathparserParsePathPart A s last path = some (p, rest, s₁)) (found : p ≠ 0)
      (later : PartsRun s' s₁ p rest) : PartsRun s' s last path

section

variable {A}

theorem parsePartsFrom_eq {s s₁ : Paths H} {last p : UInt32} {path rest : List UInt8}
    (part : pathparserParsePathPart A s last path = some (p, rest, s₁)) :
    parsePartsFrom A s last path = if p = 0 then some s₁ else parsePartsFrom A s₁ p rest := by
  rw [parsePartsFrom]
  split
  · rename_i none
    rw [part] at none
    cases none
  · rename_i again
    rw [part] at again
    cases again
    rfl

theorem parsePartsFrom_run {s s' : Paths H} {last : UInt32} {path : List UInt8} :
    parsePartsFrom A s last path = some s' ↔ PartsRun A s' s last path := by
  constructor
  · intro run
    induction n : path.length using Nat.strongRecOn generalizing s last path with
    | ind n ih =>
      cases turn : pathparserParsePathPart A s last path with
      | none =>
        rw [parsePartsFrom] at run
        split at run
        · cases run
        · rename_i part
          rw [turn] at part
          cases part
      | some result =>
        obtain ⟨p, rest, s₁⟩ := result
        rw [parsePartsFrom_eq turn] at run
        split at run
        · rename_i stop
          cases run
          subst stop
          exact .stop turn
        · rename_i found
          subst n
          exact .next turn found (ih rest.length (parsePathPart_shorter A turn found) run rfl)
  · intro run
    induction run with
    | stop part => exact (parsePartsFrom_eq part).trans (if_pos rfl)
    | next part found _ ih => exact (parsePartsFrom_eq part).trans ((if_neg found).trans ih)

end

/-- The root, or NULL. The parameter `curr_directory_path` is never read. -/
def pathparserParse (s : Paths H) (path : List UInt8) : Option (UInt32 × Paths H) :=
  if strlen path > peachosMaxPathLength then some (0, s)
  else
    let (res, tmpPath) := pathparserGetDriveByPath path
    if res < 0 then some (0, s)
    else
      match pathparserCreateRoot A s res with
      | none => none
      | some (pathRoot, s) =>
        match pathparserParsePathPart A s 0 tmpPath with
        | none => none
        | some (firstPart, tmpPath, s) =>
          if firstPart = 0 then some (pathRoot, s)
          else
            let s := { s with roots := update s.roots pathRoot { s.roots pathRoot with first := firstPart } }
            (parsePartsFrom A s firstPart tmpPath).map fun s => (pathRoot, s)

/-- The loop of `pathparser_free`, which does not end on a list with a cycle. -/
def Paths.freePartsFrom (s : Paths H) (part : UInt32) : Option (Paths H) :=
  if part = 0 then some s
  else
    let nextPart := (s.parts part).next
    let heap := A.free s.heap (s.parts part).part
    { s with heap := A.free heap part } |>.freePartsFrom nextPart
partial_fixpoint

def pathparserFree (s : Paths H) (root : UInt32) : Option (Paths H) :=
  if root = 0 then none
  else (s.freePartsFrom A (s.roots root).first).map fun s => { s with heap := A.free s.heap root }

end PeachOs
