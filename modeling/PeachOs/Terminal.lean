import Mathlib.Logic.Function.Basic
import Mathlib.Data.List.TakeWhile

/-!
# The VGA text terminal

`terminal_writechar` moves two wrapping 16-bit counters over video memory.
The cursor is one position on a tape of rows (`moveCursor`), and
`stores_on_screen_iff` says for which texts every store stays inside the
cells `terminal_initialize` clears.
-/

namespace PeachOs

def vgaWidth : Nat := 80
def vgaHeight : Nat := 20

/-- The arguments of one `terminal_putchar`, with the word it stores. -/
structure Store where
  x : Nat
  y : Nat
  value : UInt16
  deriving DecidableEq, Repr

/-- `terminal_row`, `terminal_col` and the words from `video_mem` on. `stores`
is history only: every `terminal_putchar` so far, the latest first. -/
structure Terminal where
  row : UInt16
  col : UInt16
  videoMem : Nat → UInt16
  stores : List Store

/-- `char` is signed on the target, so both operands are sign-extended. -/
def terminalMakeChar (c colour : Int8) : UInt16 :=
  (colour.toInt16.toUInt16 <<< 8) ||| c.toInt16.toUInt16

def terminalPutchar (t : Terminal) (x y : Nat) (c colour : Int8) : Terminal :=
  { t with
    videoMem := Function.update t.videoMem (y * vgaWidth + x) (terminalMakeChar c colour)
    stores := ⟨x, y, terminalMakeChar c colour⟩ :: t.stores }

/-- What `terminal_writechar` does once `'\n'` and `0x08` are excluded. -/
def terminalWriteplain (t : Terminal) (c colour : Int8) : Terminal :=
  let t := terminalPutchar t t.col.toNat t.row.toNat c colour
  let t := { t with col := t.col + 1 }
  if t.col.toNat ≥ vgaWidth then { t with col := 0, row := t.row + 1 } else t

/-- The source calls `terminal_writechar(' ', 15)` here, which never takes its
two early returns: `writechar_blank`. -/
def terminalBackspace (t : Terminal) : Terminal :=
  if t.row = 0 ∧ t.col = 0 then t
  else if t.col = 0 then
    let t := { t with row := t.row - 1, col := .ofNat (vgaWidth - 1) }
    terminalPutchar t t.col.toNat t.row.toNat 32 15
  else
    let t := { t with col := t.col - 1 }
    let t := terminalWriteplain t 32 15
    { t with col := t.col - 1 }

def newline : Int8 := 10
def backspace : Int8 := 8

def terminalWritechar (t : Terminal) (c colour : Int8) : Terminal :=
  if c = newline then { t with row := t.row + 1, col := 0 }
  else if c = backspace then terminalBackspace t
  else terminalWriteplain t c colour

theorem writechar_blank (t : Terminal) (colour : Int8) :
    terminalWritechar t 32 colour = terminalWriteplain t 32 colour := rfl

def terminalInitialize (t : Terminal) : Terminal :=
  (List.range vgaHeight).foldl
    (fun t y => (List.range vgaWidth).foldl (fun t x => terminalPutchar t x y 32 0) t)
    { t with row := 0, col := 0 }

/-- `print` stops at the first NUL of the string it is given. -/
def print (t : Terminal) (str : List Int8) : Terminal :=
  (str.takeWhile (· ≠ 0)).foldl (fun t c => terminalWritechar t c 15) t

/-- The ways a character reaches the terminal: directly (and by the putchar
system call), or in a string given to `print` (and by the print system call). -/
inductive TerminalCall where
  | writechar (c colour : Int8)
  | print (str : List Int8)

def TerminalCall.run (t : Terminal) : TerminalCall → Terminal
  | writechar c colour => terminalWritechar t c colour
  | print str => PeachOs.print t str

/-- The characters a call passes to `terminal_writechar`. -/
def TerminalCall.chars : TerminalCall → List Int8
  | writechar c _ => [c]
  | print str => str.takeWhile (· ≠ 0)

/-! ## The cursor as a position on a tape -/

/-- The row counter starts over after 2^16 rows. -/
def tapeCells : Nat := 65536 * vgaWidth

def moveCursor (p : Nat) (c : Int8) : Nat :=
  if c = newline then (p / vgaWidth + 1) * vgaWidth % tapeCells
  else if c = backspace then p - 1
  else (p + 1) % tapeCells

def screenCells : Nat := vgaWidth * vgaHeight

/-- Where a character may be passed: a newline anywhere, a backspace up to the
first position below the screen, any other character on the screen. -/
def Fits (p : Nat) (c : Int8) : Prop :=
  c = newline ∨ (if c = backspace then p ≤ screenCells else p < screenCells)

instance (p : Nat) (c : Int8) : Decidable (Fits p c) := by
  unfold Fits; infer_instance

/-- Every character of a text fits where the characters before it put the cursor. -/
def StaysOnScreen (p : Nat) : List Int8 → Prop
  | [] => True
  | c :: cs => Fits p c ∧ StaysOnScreen (moveCursor p c) cs

instance StaysOnScreen.decidable : ∀ p cs, Decidable (StaysOnScreen p cs)
  | _, [] => .isTrue trivial
  | p, c :: cs => @instDecidableAnd _ _ _ (decidable (moveCursor p c) cs)

def position (t : Terminal) : Nat := t.row.toNat * vgaWidth + t.col.toNat

def OnScreen (s : Store) : Prop := s.x < vgaWidth ∧ s.y < vgaHeight

/-- What one character does: the column stays in its row, the cursor moves on
the tape, and the store it makes, if any, is on the screen when the character fits. -/
structure Steps (t t' : Terminal) (c : Int8) : Prop where
  col : t'.col.toNat < vgaWidth
  moves : position t' = moveCursor (position t) c
  stores : (∀ s ∈ t'.stores, OnScreen s) ↔ (∀ s ∈ t.stores, OnScreen s) ∧ Fits (position t) c

theorem putchar_stores (t : Terminal) (x y : Nat) (c colour : Int8) :
    (∀ s ∈ (terminalPutchar t x y c colour).stores, OnScreen s) ↔
      (∀ s ∈ t.stores, OnScreen s) ∧ x < vgaWidth ∧ y < vgaHeight := by
  simp only [terminalPutchar, List.forall_mem_cons, OnScreen, and_comm]

theorem writeplain_steps (t : Terminal) (c colour : Int8) (hcol : t.col.toNat < vgaWidth)
    (hn : c ≠ newline) (hb : c ≠ backspace) : Steps t (terminalWriteplain t c colour) c := by
  have hr := t.row.toNat_lt
  have row1 : (t.row + 1).toNat = (t.row.toNat + 1) % 65536 := UInt16.toNat_add _ _
  have col1 : (t.col + 1).toNat = t.col.toNat + 1 := by
    rw [UInt16.toNat_add]
    simp only [vgaWidth] at hcol
    simp
    omega
  have put := putchar_stores t t.col.toNat t.row.toNat c colour
  have fits : (t.col.toNat < vgaWidth ∧ t.row.toNat < vgaHeight) ↔ Fits (position t) c := by
    simp only [Fits, hn, hb, false_or, if_false, position, screenCells, vgaWidth, vgaHeight] at *
    omega
  rw [fits] at put
  unfold terminalWriteplain
  simp only [vgaWidth, ge_iff_le] at *
  split
  · rename_i wrap
    refine ⟨by simp [vgaWidth], ?_, put⟩
    simp only [terminalPutchar, col1] at wrap
    simp only [moveCursor, hn, hb, if_false, position, tapeCells, vgaWidth, terminalPutchar, row1]
    simp
    omega
  · rename_i stay
    simp only [terminalPutchar, col1] at stay
    refine ⟨by simp only [terminalPutchar, col1, vgaWidth]; omega, ?_, put⟩
    simp only [moveCursor, hn, hb, if_false, position, tapeCells, vgaWidth, terminalPutchar, col1]
    omega

theorem pred_toNat {n : UInt16} (h : n ≠ 0) : (n - 1).toNat = n.toNat - 1 := by
  have pos : n.toNat ≠ 0 := fun e => h (UInt16.toNat_inj.mp e)
  rw [UInt16.toNat_sub_of_le]
  · rfl
  · rw [UInt16.le_iff_toNat_le]
    exact Nat.one_le_iff_ne_zero.mpr pos

theorem backspace_steps (t : Terminal) (hcol : t.col.toNat < vgaWidth) :
    Steps t (terminalBackspace t) backspace := by
  have fits : Fits (position t) backspace ↔ position t ≤ screenCells := by
    simp [Fits, show backspace ≠ newline by decide]
  have moves : moveCursor (position t) backspace = position t - 1 := by
    simp [moveCursor, show backspace ≠ newline by decide]
  unfold terminalBackspace
  split
  · rename_i home
    have hp : position t = 0 := by simp [position, home]
    exact ⟨hcol, by rw [moves, hp], by rw [fits, hp]; simp⟩
  · rename_i away
    split
    · -- over the start of a row, to the last column of the row above
      rename_i start
      have row : t.row ≠ 0 := fun e => away ⟨e, start⟩
      have hrow : t.row.toNat ≠ 0 := fun e => row (UInt16.toNat_inj.mp e)
      refine ⟨show 79 < vgaWidth by decide, ?_, ?_⟩
      · rw [moves]
        simp only [position, terminalPutchar, pred_toNat row, start, vgaWidth]
        simp
        omega
      · rw [putchar_stores, fits]
        simp only [position, pred_toNat row, start, vgaWidth, vgaHeight, screenCells]
        simp
        omega
    · rename_i inside
      have hin : t.col.toNat ≠ 0 := fun e => inside (UInt16.toNat_inj.mp e)
      have back : t.col - 1 + 1 = t.col := by grind
      have stay : ¬ vgaWidth ≤ t.col.toNat := by omega
      have put := putchar_stores { t with col := t.col - 1 } (t.col - 1).toNat t.row.toNat 32 15
      rw [pred_toNat inside] at put
      simp only [terminalWriteplain, terminalPutchar, back, ge_iff_le, stay, if_false]
      refine ⟨?_, ?_, ?_⟩
      · rw [pred_toNat inside]
        omega
      · rw [moves]
        simp only [position, pred_toNat inside, vgaWidth]
        omega
      · rw [fits]
        simp only [pred_toNat inside]
        refine put.trans (and_congr_right fun _ => ?_)
        simp only [position, vgaWidth, vgaHeight, screenCells] at hcol ⊢
        omega

theorem writechar_steps (t : Terminal) (c colour : Int8) (hcol : t.col.toNat < vgaWidth) :
    Steps t (terminalWritechar t c colour) c := by
  unfold terminalWritechar
  split
  · rename_i hn
    refine ⟨show 0 < vgaWidth by decide, ?_, by simp [Fits, hn]⟩
    have hr := t.row.toNat_lt
    have row1 : (t.row + 1).toNat = (t.row.toNat + 1) % 65536 := UInt16.toNat_add _ _
    simp only [moveCursor, hn, if_true, position, row1, vgaWidth, tapeCells] at *
    simp
    omega
  · split
    · rename_i hb
      rw [hb]
      exact backspace_steps t hcol
    · exact writeplain_steps t c colour hcol (by assumption) (by assumption)

/-- A text written character by character, each with its own colour. -/
def writeAll (t : Terminal) (text : List (Int8 × Int8)) : Terminal :=
  text.foldl (fun t c => terminalWritechar t c.1 c.2) t

theorem writeAll_stores (text : List (Int8 × Int8)) (t : Terminal)
    (hcol : t.col.toNat < vgaWidth) :
    (∀ s ∈ (writeAll t text).stores, OnScreen s) ↔
      (∀ s ∈ t.stores, OnScreen s) ∧ StaysOnScreen (position t) (text.map Prod.fst) := by
  induction text generalizing t with
  | nil => simp [writeAll, StaysOnScreen]
  | cons c cs ih =>
    have step := writechar_steps t c.1 c.2 hcol
    have rest := ih (terminalWritechar t c.1 c.2) step.col
    simp only [writeAll, List.foldl_cons, List.map_cons, StaysOnScreen] at rest ⊢
    rw [rest, step.stores, step.moves, and_assoc]

def runTerminal (t : Terminal) (calls : List TerminalCall) : Terminal :=
  calls.foldl TerminalCall.run t

/-- A call with its characters' colours written out. -/
def TerminalCall.text : TerminalCall → List (Int8 × Int8)
  | writechar c colour => [(c, colour)]
  | print str => (str.takeWhile (· ≠ 0)).map fun c => (c, 15)

theorem TerminalCall.text_chars (call : TerminalCall) : call.text.map Prod.fst = call.chars := by
  cases call with
  | writechar c colour => rfl
  | print str => simp [text, chars, Function.comp_def]

theorem TerminalCall.run_eq (t : Terminal) (call : TerminalCall) :
    call.run t = writeAll t call.text := by
  cases call with
  | writechar c colour => rfl
  | print str => simp [run, PeachOs.print, writeAll, text, List.foldl_map]

theorem runTerminal_eq (calls : List TerminalCall) (t : Terminal) :
    runTerminal t calls = writeAll t (calls.flatMap TerminalCall.text) := by
  induction calls generalizing t with
  | nil => rfl
  | cons call calls ih =>
    have rest := ih (call.run t)
    simp only [runTerminal, List.foldl_cons] at rest ⊢
    rw [rest, call.run_eq, List.flatMap_cons]
    exact (List.foldl_append ..).symm

/-! ## Clearing the screen -/

/-- `t'` has the cursor of `t` and, beyond its stores, only stores on the screen. -/
def Clears (t t' : Terminal) : Prop :=
  t'.row = t.row ∧ t'.col = t.col ∧
    ((∀ s ∈ t'.stores, OnScreen s) ↔ ∀ s ∈ t.stores, OnScreen s)

theorem Clears.putchar {t t' : Terminal} (h : Clears t t') {x y : Nat} (hx : x < vgaWidth)
    (hy : y < vgaHeight) (c colour : Int8) : Clears t (terminalPutchar t' x y c colour) :=
  ⟨h.1, h.2.1, by rw [putchar_stores, h.2.2]; simp [hx, hy]⟩

theorem initialize_clears (t : Terminal) :
    Clears { t with row := 0, col := 0 } (terminalInitialize t) := by
  refine List.foldlRecOn _ _ ⟨rfl, rfl, Iff.rfl⟩ fun t' h y hy => ?_
  refine List.foldlRecOn _ _ h fun t'' h' x hx => ?_
  exact h'.putchar (List.mem_range.mp hx) (List.mem_range.mp hy) _ _

theorem cleared_text_stores (t : Terminal) (text : List (Int8 × Int8)) :
    (∀ s ∈ (writeAll (terminalInitialize { t with stores := [] }) text).stores, OnScreen s) ↔
      StaysOnScreen 0 (text.map Prod.fst) := by
  obtain ⟨row, col, stores⟩ := initialize_clears { t with stores := [] }
  have home : position (terminalInitialize { t with stores := [] }) = 0 := by
    simp [position, row, col]
  refine (writeAll_stores text _ (by simp [col, vgaWidth])).trans ?_
  rw [stores, home]
  simp

/-- **The stores of a text.** After `terminal_initialize`, every store of a
sequence of calls is on the screen exactly when each character is passed at a
position where it fits. Below the last row only backspaces bring the cursor back. -/
theorem stores_on_screen_iff (t : Terminal) (calls : List TerminalCall) :
    (∀ s ∈ (runTerminal (terminalInitialize { t with stores := [] }) calls).stores,
      s.x < vgaWidth ∧ s.y < vgaHeight) ↔ StaysOnScreen 0 (calls.flatMap TerminalCall.chars) := by
  rw [runTerminal_eq]
  refine (cleared_text_stores t _).trans ?_
  simp [List.map_flatMap, TerminalCall.text_chars]

/-- Twenty newlines put the cursor below the screen, and the next printable
character is stored there. -/
theorem twenty_newlines_leave_screen :
    ¬ ∀ s ∈ (runTerminal (terminalInitialize ⟨0, 0, fun _ => 0, []⟩)
      [.print (List.replicate 20 newline), .writechar 65 15]).stores,
      s.x < vgaWidth ∧ s.y < vgaHeight := by
  rw [runTerminal_eq]
  intro inside
  have stays := (cleared_text_stores ⟨0, 0, fun _ => 0, []⟩ _).mp inside
  revert stays
  decide

/-! ## Other memory -/

/-- Every word that differs was the target of a store in the history. -/
def Logged (t t' : Terminal) : Prop :=
  t.stores ⊆ t'.stores ∧
    ∀ i, t'.videoMem i ≠ t.videoMem i → ∃ s ∈ t'.stores, s.y * vgaWidth + s.x = i

theorem Logged.refl (t : Terminal) : Logged t t :=
  ⟨List.Subset.refl _, fun _ h => absurd rfl h⟩

theorem Logged.trans {t t' t'' : Terminal} (h : Logged t t') (h' : Logged t' t'') :
    Logged t t'' := by
  refine ⟨List.Subset.trans h.1 h'.1, fun i hi => ?_⟩
  by_cases later : t''.videoMem i = t'.videoMem i
  · obtain ⟨s, hs, e⟩ := h.2 i (later ▸ hi)
    exact ⟨s, h'.1 hs, e⟩
  · exact h'.2 i later

/-- The cursor is no part of the history, so only `terminal_putchar` counts. -/
theorem putchar_logged (t : Terminal) (x y : Nat) (c colour : Int8) (row col : UInt16) :
    Logged t { terminalPutchar t x y c colour with row, col } := by
  refine ⟨List.subset_cons_self _ _, fun i hi => ⟨_, List.mem_cons_self, ?_⟩⟩
  by_contra other
  exact hi (Function.update_of_ne (Ne.symm other) _ _)

theorem writeplain_logged (t : Terminal) (c colour : Int8) :
    Logged t (terminalWriteplain t c colour) := by
  simp only [terminalWriteplain]
  split
  · exact putchar_logged t _ _ c colour _ _
  · exact putchar_logged t _ _ c colour _ _

theorem writechar_logged (t : Terminal) (c colour : Int8) :
    Logged t (terminalWritechar t c colour) := by
  simp only [terminalWritechar, terminalBackspace]
  repeat' split
  · exact Logged.refl t
  · exact Logged.refl t
  · exact putchar_logged t _ _ 32 15 _ _
  · have blank := writeplain_logged { t with col := t.col - 1 } 32 15
    exact ⟨blank.1, blank.2⟩
  · exact writeplain_logged t c colour

theorem initialize_logged (t : Terminal) : Logged t (terminalInitialize t) := by
  refine List.foldlRecOn _ _ (Logged.refl t) fun t' h y _ => ?_
  exact List.foldlRecOn _ _ h fun t'' h' x _ =>
    h'.trans (putchar_logged t'' x y 32 0 t''.row t''.col)

/-- A text that stays on the screen changes no word outside the cleared cells. -/
theorem onscreen_text_frame (t : Terminal) (calls : List TerminalCall)
    (stays : StaysOnScreen 0 (calls.flatMap TerminalCall.chars)) (i : Nat)
    (outside : screenCells ≤ i) :
    (runTerminal (terminalInitialize { t with stores := [] }) calls).videoMem i = t.videoMem i := by
  have logged : Logged { t with stores := [] }
      (runTerminal (terminalInitialize { t with stores := [] }) calls) := by
    rw [runTerminal_eq]
    exact List.foldlRecOn _ _ (initialize_logged _) fun t' h c _ =>
      h.trans (writechar_logged t' c.1 c.2)
  by_contra changed
  obtain ⟨s, hs, cell⟩ := logged.2 i changed
  obtain ⟨hx, hy⟩ := (cleared_text_stores t _).mpr (by simpa [List.map_flatMap,
    TerminalCall.text_chars] using stays) s (runTerminal_eq calls _ ▸ hs)
  simp only [vgaWidth, vgaHeight, screenCells] at *
  omega

end PeachOs
