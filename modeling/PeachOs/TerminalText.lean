import PeachOs.Terminal

/-!
# Text on the screen

What a text without newlines leaves in the cells after the cursor, and what
as many backspaces make of it. The attribute is lost where the character is
negative, as `terminal_make_char` extends the sign over it.
-/

namespace PeachOs

open Function (update)

/-- The word of the character `c` with the attribute 15. -/
def whiteCell (c : Int8) : UInt16 := 0x0F00 ||| c.toUInt8.toUInt16

/-- `print` puts the string's bytes in white after the cursor, moves the cursor
behind them, and changes nothing else. -/
structure PrintRight (t : Terminal) (str : List Int8) : Prop where
  cells : ∀ i (h : i < str.length), (print t str).videoMem (position t + i) = whiteCell str[i]
  others : ∀ j, j < position t ∨ position t + str.length ≤ j → (print t str).videoMem j = t.videoMem j
  col : (print t str).col.toNat < vgaWidth
  moves : position (print t str) = position t + str.length

/-- A character that is stored and moves the cursor by one. -/
def Plain (c : Int8) : Prop := c ≠ newline ∧ c ≠ backspace

variable {t : Terminal}

/-! ## One character -/

theorem terminalMakeChar_blank : terminalMakeChar 32 15 = whiteCell 32 := by decide

theorem terminalMakeChar_byte : ∀ b : Fin 256,
    terminalMakeChar (UInt8.ofNat b).toInt8 15 = whiteCell (UInt8.ofNat b).toInt8 ↔ b.val < 128 := by
  decide +kernel

/-- The attribute survives for bytes below 128. -/
theorem terminalMakeChar_white (c : Int8) : terminalMakeChar c 15 = whiteCell c ↔ c.toUInt8.toNat < 128 := by
  have byte := terminalMakeChar_byte ⟨c.toUInt8.toNat, c.toUInt8.toNat_lt⟩
  simpa using byte

/-- On the screen the cursor's tape does not start over. -/
theorem moveCursor_plain {c : Int8} (plain : Plain c) {p : Nat} (room : p < screenCells) :
    moveCursor p c = p + 1 := by
  unfold moveCursor screenCells vgaWidth vgaHeight tapeCells at *
  rw [if_neg plain.1, if_neg plain.2, Nat.mod_eq_of_lt]
  unfold vgaWidth
  omega

theorem moveCursor_backspace (p : Nat) : moveCursor p backspace = p - 1 := by
  simp [moveCursor, show backspace ≠ newline by decide]

theorem writechar_plain_mem (t : Terminal) {c : Int8} (plain : Plain c) (colour : Int8) :
    (terminalWritechar t c colour).videoMem = update t.videoMem (position t) (terminalMakeChar c colour) := by
  unfold terminalWritechar terminalWriteplain
  rw [if_neg plain.1, if_neg plain.2]
  dsimp only
  split <;> rfl

/-- A backspace away from the first position blanks the cell before the cursor. -/
theorem writechar_backspace_mem (away : position t ≠ 0) (colour : Int8) :
    (terminalWritechar t backspace colour).videoMem = update t.videoMem (position t - 1) (whiteCell 32) := by
  rw [← terminalMakeChar_blank]
  unfold terminalWritechar terminalBackspace
  rw [if_neg (by decide), if_pos rfl]
  split
  · rename_i home
    exact absurd (by simp [position, home]) away
  · rename_i inside
    split
    · -- from the start of a row to the end of the row above
      rename_i start
      have row : t.row ≠ 0 := fun zero => inside ⟨zero, start⟩
      have above := pred_toNat row
      have nonzero : t.row.toNat ≠ 0 := fun zero => row (UInt16.toNat_inj.mp zero)
      have here : (t.row - 1).toNat * vgaWidth + (UInt16.ofNat (vgaWidth - 1)).toNat = position t - 1 := by
        have last : (UInt16.ofNat (vgaWidth - 1)).toNat = 79 := rfl
        rw [above, last]
        simp only [position, start, vgaWidth, UInt16.toNat_zero]
        omega
      simp only [terminalPutchar, here]
    · rename_i middle
      have left := pred_toNat middle
      have nonzero : t.col.toNat ≠ 0 := fun zero => middle (UInt16.toNat_inj.mp zero)
      have here : t.row.toNat * vgaWidth + (t.col - 1).toNat = position t - 1 := by
        rw [left, position]
        omega
      unfold terminalWriteplain
      dsimp only
      split <;> simp only [terminalPutchar, here]

/-! ## Texts -/

/-- A text is stored after the cursor, which moves behind it. -/
theorem writeAll_plain {text : List (Int8 × Int8)} (hcol : t.col.toNat < vgaWidth)
    (plain : ∀ c ∈ text, Plain c.1) (fits : position t + text.length ≤ screenCells) :
    (writeAll t text).col.toNat < vgaWidth ∧ position (writeAll t text) = position t + text.length ∧
    (∀ i (h : i < text.length),
      (writeAll t text).videoMem (position t + i) = terminalMakeChar text[i].1 text[i].2) ∧
    ∀ j, j < position t ∨ position t + text.length ≤ j → (writeAll t text).videoMem j = t.videoMem j := by
  induction text generalizing t with
  | nil => exact ⟨hcol, rfl, fun i h => absurd h (Nat.not_lt_zero i), fun j _ => rfl⟩
  | cons c text ih =>
    obtain ⟨first, rest⟩ := List.forall_mem_cons.mp plain
    rw [List.length_cons] at fits
    have step := writechar_steps t c.1 c.2 hcol
    have moved := step.moves
    rw [moveCursor_plain first (by omega)] at moved
    have mem := writechar_plain_mem t first c.2
    obtain ⟨col, place, cells, others⟩ := ih step.col rest (by omega)
    rw [moved] at place cells others
    have unfolded : writeAll t (c :: text) = writeAll (terminalWritechar t c.1 c.2) text := rfl
    rw [unfolded]
    refine ⟨col, ?_, ?_, ?_⟩
    · rw [place, List.length_cons]
      omega
    · intro i h
      cases i with
      | zero =>
        have first := others (position t + 0) (Or.inl (Nat.lt_succ_self _))
        rw [first, mem]
        exact Function.update_self ..
      | succ i =>
        have cell := cells i (Nat.lt_of_succ_lt_succ h)
        rw [Nat.add_assoc, Nat.add_comm 1 i] at cell
        exact cell
    · intro j outside
      rw [List.length_cons] at outside
      rw [others j (by omega), mem, Function.update_of_ne (by omega)]

/-- Backspaces blank the cells before the cursor, one each. -/
theorem writeAll_backspaces (colours : List Int8) (hcol : t.col.toNat < vgaWidth)
    (enough : colours.length ≤ position t) :
    (writeAll t (colours.map (backspace, ·))).col.toNat < vgaWidth ∧
    position (writeAll t (colours.map (backspace, ·))) = position t - colours.length ∧
    ∀ j, (writeAll t (colours.map (backspace, ·))).videoMem j =
      if position t - colours.length ≤ j ∧ j < position t then whiteCell 32 else t.videoMem j := by
  induction colours generalizing t with
  | nil =>
    refine ⟨hcol, rfl, fun j => ?_⟩
    rw [if_neg]
    · rfl
    · rintro ⟨lo, hi⟩
      exact absurd hi (Nat.not_lt.mpr lo)
  | cons colour colours ih =>
    rw [List.length_cons] at enough
    have step := writechar_steps t backspace colour hcol
    have moved := step.moves
    rw [moveCursor_backspace] at moved
    have mem := writechar_backspace_mem (t := t) (by omega) colour
    obtain ⟨col, place, cells⟩ := ih step.col (by omega)
    rw [moved] at place cells
    rw [List.map_cons, List.length_cons]
    have unfolded : writeAll t ((backspace, colour) :: colours.map (backspace, ·)) =
        writeAll (terminalWritechar t backspace colour) (colours.map (backspace, ·)) := rfl
    rw [unfolded]
    refine ⟨col, ?_, fun j => ?_⟩
    · rw [place]
      omega
    · rw [cells, mem]
      by_cases here : j = position t - 1
      · rw [if_pos (by omega : position t - (colours.length + 1) ≤ j ∧ j < position t), here,
          Function.update_self, ite_self]
      · rw [Function.update_of_ne here]
        by_cases inside : position t - 1 - colours.length ≤ j ∧ j < position t - 1
        · rw [if_pos inside, if_pos (by omega)]
        · rw [if_neg inside, if_neg (by omega)]

/-- The cursor is known from its position. -/
theorem cursor_of_position {t' : Terminal} (hcol : t.col.toNat < vgaWidth) (hcol' : t'.col.toNat < vgaWidth)
    (same : position t' = position t) : t'.row = t.row ∧ t'.col = t.col := by
  unfold position vgaWidth at *
  constructor
  · apply UInt16.toNat_inj.mp
    omega
  · apply UInt16.toNat_inj.mp
    omega

/-- **As many backspaces as characters** bring the cursor back, and leave the
cells of the text blank and all others as they were. -/
theorem typed_text_taken_back (hcol : t.col.toNat < vgaWidth)
    {text : List (Int8 × Int8)} (plain : ∀ c ∈ text, Plain c.1) (fits : position t + text.length ≤ screenCells)
    {colours : List Int8} (many : colours.length = text.length) :
    (writeAll (writeAll t text) (colours.map (backspace, ·))).row = t.row ∧
    (writeAll (writeAll t text) (colours.map (backspace, ·))).col = t.col ∧
    ∀ j, (writeAll (writeAll t text) (colours.map (backspace, ·))).videoMem j =
      if position t ≤ j ∧ j < position t + text.length then 0x0F20 else t.videoMem j := by
  obtain ⟨col, place, _, others⟩ := writeAll_plain hcol plain fits
  obtain ⟨col', place', cells⟩ := writeAll_backspaces colours col (by omega)
  have home : position (writeAll t text) - colours.length = position t := by omega
  obtain ⟨row, column⟩ := cursor_of_position hcol col' (place'.trans home)
  refine ⟨row, column, fun j => ?_⟩
  rw [cells, home, place]
  by_cases inside : position t ≤ j ∧ j < position t + text.length
  · rw [if_pos inside, if_pos inside]
    rfl
  · rw [if_neg inside, if_neg inside, others j (by omega)]

/-- Two characters across the end of a row. -/
theorem wrapped_text_taken_back :
    (writeAll (writeAll ⟨0, 79, fun _ => 0, []⟩ [(65, 15), (66, 15)]) ([15, 15].map (backspace, ·))).row = 0 ∧
    (writeAll (writeAll ⟨0, 79, fun _ => 0, []⟩ [(65, 15), (66, 15)]) ([15, 15].map (backspace, ·))).col = 79 := by
  have plain : ∀ c ∈ [((65 : Int8), (15 : Int8)), (66, 15)], Plain c.1 := by
    intro c mem
    rcases List.mem_cons.mp mem with rfl | mem
    · exact ⟨by decide, by decide⟩
    · rw [List.mem_singleton.mp mem]
      exact ⟨by decide, by decide⟩
  obtain ⟨row, col, _⟩ := typed_text_taken_back (t := ⟨0, 79, fun _ => 0, []⟩) (by decide) plain
    (by decide) (show [(15 : Int8), 15].length = 2 from rfl)
  exact ⟨row, col⟩

/-! ## Strings -/

theorem print_eq {str : List Int8} (noNul : 0 ∉ str) : print t str = writeAll t (str.map (·, 15)) := by
  have whole : str.takeWhile (· ≠ 0) = str := by
    apply List.takeWhile_eq_self_iff.mpr
    intro c mem
    have nonzero : c ≠ 0 := by
      rintro rfl
      exact noNul mem
    simpa using nonzero
  unfold print writeAll
  rw [whole, List.foldl_map]

/-- **A printed string** comes out in white exactly when its bytes are below 128. -/
theorem print_right_iff (hcol : t.col.toNat < vgaWidth) {str : List Int8}
    (noNul : 0 ∉ str) (plain : ∀ c ∈ str, Plain c) (fits : position t + str.length ≤ screenCells) :
    PrintRight t str ↔ ∀ c ∈ str, c.toUInt8.toNat < 128 := by
  have text : ∀ c ∈ str.map (·, (15 : Int8)), Plain c.1 := by
    intro c mem
    obtain ⟨d, inside, rfl⟩ := List.mem_map.mp mem
    exact plain d inside
  obtain ⟨col, place, cells, others⟩ := writeAll_plain hcol text
    (by rwa [List.length_map])
  rw [← print_eq noNul] at col place cells others
  rw [List.length_map] at place others
  have cell (i : Nat) (h : i < str.length) :
      (print t str).videoMem (position t + i) = terminalMakeChar str[i] 15 := by
    have stored := cells i (by rwa [List.length_map])
    simpa using stored
  constructor
  · intro right c mem
    obtain ⟨i, h, rfl⟩ := List.getElem_of_mem mem
    rw [← terminalMakeChar_white, ← cell i h]
    exact right.cells i h
  · intro ascii
    refine ⟨fun i h => ?_, others, col, place⟩
    rw [cell i h, terminalMakeChar_white]
    exact ascii _ (List.getElem_mem h)

/-- A greeting at the end of a row. -/
theorem greeting_printed : PrintRight ⟨0, 79, fun _ => 0, []⟩ [72, 105] ↔ ∀ c ∈ [(72 : Int8), 105], c.toUInt8.toNat < 128 := by
  have plain : ∀ c ∈ [(72 : Int8), 105], Plain c := by
    intro c mem
    rcases List.mem_cons.mp mem with rfl | mem
    · exact ⟨by decide, by decide⟩
    · rw [List.mem_singleton.mp mem]
      exact ⟨by decide, by decide⟩
  exact print_right_iff (by decide) (by decide) plain (by decide)

/-- The byte 0x80 is stored with the attribute 0xFF. -/
theorem high_byte_loses_attribute : ¬ PrintRight ⟨0, 0, fun _ => 0, []⟩ [-128] := by
  intro right
  have cell := right.cells 0 (by decide)
  have white := terminalMakeChar_white (-128)
  rw [print_eq (by decide)] at cell
  have stored : (writeAll ⟨0, 0, fun _ => 0, []⟩ ([-128].map (·, 15))).videoMem 0 = terminalMakeChar (-128) 15 :=
    congrFun (writechar_plain_mem ⟨0, 0, fun _ => 0, []⟩ (c := -128) ⟨by decide, by decide⟩ 15) 0
  exact absurd (white.mp (stored.symm.trans cell)) (by decide)

end PeachOs
