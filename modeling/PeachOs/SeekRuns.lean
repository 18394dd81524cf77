import PeachOs.OpenFile

/-!
# Runs of seeks and reads

`fat16_seek` compares the offset with the file's size before it looks at the
mode, so a seek from the current position is checked as one from the start.
-/

namespace PeachOs

inductive FileCall
  | seek (offset whence : UInt32)
  | read (size nmemb : UInt32)

section

variable {H : Type} (device : BlockDevice)

/-- The state after a call. A read that does not return has none. -/
def FileCall.run (s : Files H) (fd : Int) : FileCall → Option (Files H)
  | .seek offset whence => some (fseek s fd offset whence).2
  | .read size nmemb => (fread device s size nmemb fd).map fun (_, _, s) => s

/-- The position stays in the file, and a seek that fails would not move it. -/
structure PositionKept (s : Files H) (fd : Int) : Prop where
  within : (s.openFile fd).pos ≤ (s.openFile fd).filesize
  failed : ∀ offset whence, (fseek s fd offset whence).1 < 0 →
    ((fseek s fd offset whence).2.openFile fd).pos = (s.openFile fd).pos

/-- An accepted seek from the current position ends in the file, or so far
behind it that the 32-bit sum is in the file again. -/
def FileCall.Lands (s : Files H) (fd : Int) : FileCall → Prop
  | .seek offset whence => whence = seekCur → offset < (s.openFile fd).filesize →
    (s.openFile fd).pos.toNat + offset.toNat ≤ (s.openFile fd).filesize.toNat ∨
      2 ^ 32 ≤ (s.openFile fd).pos.toNat + offset.toNat
  | .read _ _ => True

/-- Any calls on the file, each of them `allowed` in the state it is made in. -/
inductive FileRun (fd : Int) (allowed : Files H → FileCall → Prop) (s₀ : Files H) : Files H → Prop
  | opened : FileRun fd allowed s₀ s₀
  | call {s s' : Files H} (call : FileCall) (before : FileRun fd allowed s₀ s) (ok : allowed s call)
      (ran : call.run device s fd = some s') : FileRun fd allowed s₀ s'

end

/-- The mode decides only what an offset below the size does. -/
theorem OpenFile.seek_pos (file : OpenFile) (offset whence : UInt32) :
    (file.seek offset whence).2 = file ∨
      ((file.seek offset whence).1 = 0 ∧ offset < file.filesize ∧
        ((whence = seekSet ∧ (file.seek offset whence).2 = { file with pos := offset }) ∨
        (whence = seekCur ∧ (file.seek offset whence).2 = { file with pos := file.pos + offset }))) := by
  unfold OpenFile.seek
  by_cases type : file.type ≠ fatItemTypeFile
  · simp [type]
  · by_cases past : offset ≥ file.filesize
    · simp [type, past]
    · have inside : offset < file.filesize := UInt32.not_le.mp past
      by_cases set : whence = seekSet
      · subst set
        simp [type, past, inside]
      · by_cases fromEnd : whence = seekEnd
        · subst fromEnd
          simp [type, past, set]
        · by_cases cur : whence = seekCur
          · subst cur
            simp [type, past, set, fromEnd, inside]
          · simp [type, past, set, fromEnd, cur]

/-- From the current position a file takes every offset below its size. -/
theorem OpenFile.seek_cur (file : OpenFile) {offset : UInt32} (type : file.type = fatItemTypeFile)
    (inside : offset < file.filesize) :
    file.seek offset seekCur = (0, { file with pos := file.pos + offset }) := by
  have past : ¬ offset ≥ file.filesize := UInt32.not_le.mpr inside
  have set : seekCur ≠ seekSet := by decide
  have fromEnd : seekCur ≠ seekEnd := by decide
  simp [OpenFile.seek, type, past, set, fromEnd]

section

variable {H : Type} {device : BlockDevice} {s s' : Files H} {fd : Int}

theorem openFile_setStreams (s : Files H) (streams : Streams) (fd : Int) :
    (s.setStreams streams).openFile fd = s.openFile fd := rfl

theorem fseek_closed {offset whence : UInt32} (missing : fileGetDescriptor s fd = 0) :
    fseek s fd offset whence = (-eio, s) := by
  rw [fseek_eq, if_pos missing]

/-- After a seek through a number the file is the one `seek` returns. -/
theorem fseek_opened (here : fileGetDescriptor s fd ≠ 0) (offset whence : UInt32) :
    (fseek s fd offset whence).1 = ((s.openFile fd).seek offset whence).1 ∧
      (fseek s fd offset whence).2.openFile fd = ((s.openFile fd).seek offset whence).2 := by
  rw [fseek_eq, if_neg here]
  constructor
  · rfl
  · have set := openFile_setPos s.toFs (s.descriptors (fileGetDescriptor s fd)).privateInfo
      ((s.openFile fd).seek offset whence).2.pos
    have file : { s.openFile fd with pos := ((s.openFile fd).seek offset whence).2.pos } =
        ((s.openFile fd).seek offset whence).2 := by
      rcases (s.openFile fd).seek_pos offset whence with kept | ⟨_, _, ⟨_, moved⟩ | ⟨_, moved⟩⟩
      · rw [kept]
      · rw [moved]
      · rw [moved]
    exact set.trans file

theorem fseek_failed {offset whence : UInt32} (failed : (fseek s fd offset whence).1 < 0) :
    ((fseek s fd offset whence).2.openFile fd).pos = (s.openFile fd).pos := by
  by_cases missing : fileGetDescriptor s fd = 0
  · rw [fseek_closed missing]
  · obtain ⟨result, file⟩ := fseek_opened missing offset whence
    rcases (s.openFile fd).seek_pos offset whence with kept | ⟨zero, _⟩
    · rw [file, kept]
    · rw [result, zero] at failed
      exact absurd failed (by decide)

/-- One call keeps the file and its size, and the position in it when it lands. -/
theorem FileCall.run_within (call : FileCall) (ran : call.run device s fd = some s')
    (within : (s.openFile fd).pos ≤ (s.openFile fd).filesize) (lands : call.Lands s fd) :
    (s'.openFile fd).pos ≤ (s'.openFile fd).filesize := by
  cases call with
  | read size nmemb =>
    cases read : fread device s size nmemb fd with
    | none => simp [FileCall.run, read] at ran
    | some result =>
      simp only [FileCall.run, read, Option.map_some, Option.some.injEq] at ran
      obtain ⟨streams, same⟩ := fread_streams read
      rw [← ran, same, openFile_setStreams]
      exact within
  | seek offset whence =>
    simp only [FileCall.run, Option.some.injEq] at ran
    rw [← ran]
    by_cases missing : fileGetDescriptor s fd = 0
    · rw [fseek_closed missing]
      exact within
    · rw [(fseek_opened missing offset whence).2]
      rcases (s.openFile fd).seek_pos offset whence with kept | ⟨_, inside, ⟨_, moved⟩ | ⟨cur, moved⟩⟩
      · rw [kept]
        exact within
      · rw [moved]
        exact UInt32.le_of_lt inside
      · have sum := lands cur inside
        rw [moved]
        rw [UInt32.le_iff_toNat_le] at within ⊢
        rw [UInt32.lt_iff_toNat_lt] at inside
        have bound := (s.openFile fd).pos.toNat_lt
        dsimp only
        rw [UInt32.toNat_add]
        omega

/-- **In a run** whose seeks from the current position land in the file, the
position stays in the file and seeks that fail leave it alone. -/
theorem position_kept {s₀ : Files H} (opened : (s₀.openFile fd).pos ≤ (s₀.openFile fd).filesize)
    (run : FileRun device fd (fun s call => call.Lands s fd) s₀ s) : PositionKept s fd := by
  have within : (s.openFile fd).pos ≤ (s.openFile fd).filesize := by
    induction run with
    | opened => exact opened
    | call call before ok ran ih => exact call.run_within ran ih ok
  exact ⟨within, fun _ _ => fseek_failed⟩

end

/-- The small file after `n` seeks by one byte from the current position. -/
def seekOn : Nat → Files Nat
  | 0 => smallFiles
  | n + 1 => (fseek (seekOn n) 1 1 seekCur).2

theorem seekOn_file (n : Nat) : (seekOn n).openFile 1 = { smallFile with pos := .ofNat n } ∧
    fileGetDescriptor (seekOn n) 1 ≠ 0 := by
  induction n with
  | zero =>
    constructor
    · exact smallFiles_file smallFiles.streams
    · decide
  | succ n ih =>
    obtain ⟨file, here⟩ := ih
    have inside : (1 : UInt32) < smallFile.filesize := by decide
    have step := OpenFile.seek_cur { smallFile with pos := .ofNat n } rfl inside
    obtain ⟨_, moved⟩ := fseek_opened here 1 seekCur
    constructor
    · rw [seekOn, moved, file, step]
      simp
    · rw [seekOn, fseek_eq, if_neg here]
      exact here

theorem one_step_kept : PositionKept (seekOn 1) 1 := by
  have start : smallFiles.openFile 1 = smallFile := (seekOn_file 0).1
  have run : FileRun (deviceOf smallDisk) 1 (fun s call => call.Lands s 1) smallFiles (seekOn 1) := by
    apply FileRun.call (.seek 1 seekCur) .opened
    · intro _ _
      rw [start]
      decide
    · rfl
  have opened : (smallFiles.openFile 1).pos ≤ (smallFiles.openFile 1).filesize := by
    rw [start]
    decide
  exact position_kept opened run

/-- The third step from the start of a file of two bytes leaves it. -/
theorem third_step_leaves :
    (smallFiles.openFile 1).pos ≤ (smallFiles.openFile 1).filesize ∧
      FileRun (deviceOf smallDisk) 1 (fun _ _ => True) smallFiles (seekOn 3) ∧
      ¬ PositionKept (seekOn 3) 1 := by
  have start : smallFiles.openFile 1 = smallFile := (seekOn_file 0).1
  refine ⟨?_, ?_, ?_⟩
  · rw [start]
    decide
  · have step (n : Nat) (before : FileRun (deviceOf smallDisk) 1 (fun _ _ => True) smallFiles (seekOn n)) :
        FileRun (deviceOf smallDisk) 1 (fun _ _ => True) smallFiles (seekOn (n + 1)) :=
      .call (.seek 1 seekCur) before trivial rfl
    exact step 2 (step 1 (step 0 .opened))
  · intro kept
    have within := kept.within
    rw [(seekOn_file 3).1] at within
    exact absurd within (by decide)

end PeachOs
