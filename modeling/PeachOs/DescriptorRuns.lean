import PeachOs.OpenTable
import PeachOs.SeekRuns

/-!
# Runs of file calls

Any calls of `fopen`, `fclose`, `fread`, `fseek` and `fstat` after `fs_init`.
The table always says which numbers are open, and what is done with one open
file depends on no other.
-/

namespace PeachOs

open Ownership
open Function (update)

/-- `fs_init`, with the one file system loaded already. -/
def fsInit {H : Type} (s : Files H) : Files H := { s with fileDescriptors := fun _ => 0 }

inductive FilesCall
  | fopen (filename modeStr : List UInt8)
  | fclose (fd : Int)
  | fread (size nmemb : UInt32) (fd : Int)
  | fseek (fd : Int) (offset whence : UInt32)
  | fstat (fd : Int)

/-- What a call returns, and what it stores for its caller. -/
structure CallResult where
  res : Int
  chunks : List (List UInt8)
  stat : Option FileStat
  deriving DecidableEq

section

variable {H : Type} (A : Allocator H) (device : BlockDevice)

def FilesCall.run (s : Files H) : FilesCall → Option (CallResult × Files H)
  | .fopen filename modeStr =>
    (PeachOs.fopen A device s filename modeStr).map fun (res, s) => (⟨res, [], none⟩, s)
  | .fclose fd =>
    let (res, s) := PeachOs.fclose A s fd
    some (⟨res, [], none⟩, s)
  | .fread size nmemb fd =>
    (PeachOs.fread device s size nmemb fd).map fun (res, chunks, s) => (⟨res, chunks, none⟩, s)
  | .fseek fd offset whence =>
    let (res, s) := PeachOs.fseek s fd offset whence
    some (⟨res, [], none⟩, s)
  | .fstat fd =>
    let (res, stat) := PeachOs.fstat s fd
    some (⟨res, [], stat⟩, s)

/-- Calls one after the other with their results, each `allowed` in the state it leaves. -/
inductive CallsRun (allowed : FilesCall → Files H → Prop) (s₀ : Files H) :
    List (FilesCall × CallResult) → Files H → Prop
  | start : CallsRun allowed s₀ [] s₀
  | call {trace : List (FilesCall × CallResult)} {s s' : Files H} {result : CallResult} (call : FilesCall)
      (before : CallsRun allowed s₀ trace s) (ran : call.run A device s = some (result, s')) (ok : allowed call s') :
      CallsRun allowed s₀ (trace ++ [(call, result)]) s'

end

/-- Names are strings that end with their list, and every request is granted. -/
def Granted {H : Type} {A : Allocator H} (laws : BlockLaws A) (call : FilesCall) (s : Files H) : Prop :=
  laws.granted s.heap ∧ ∀ filename modeStr, call = .fopen filename modeStr → (0 : UInt8) ∉ filename

/-- A number is open from the `fopen` that returned it to the next `fclose` of it. -/
def FilesCall.openAfter (numbers : List Int) (res : Int) : FilesCall → List Int
  | .fopen _ _ => if 0 < res then res :: numbers else numbers
  | .fclose fd => numbers.erase fd
  | _ => numbers

def openNumbers (trace : List (FilesCall × CallResult)) : List Int :=
  trace.foldl (fun numbers entry => entry.1.openAfter numbers entry.2.res) []

/-- The numbers are those of the slots in use. -/
structure Numbers {H : Type} (s : Files H) (numbers : List Int) : Prop where
  nodup : numbers.Nodup
  mem_iff : ∀ fd, fd ∈ numbers ↔ fileGetDescriptor s fd ≠ 0

section

variable {H : Type} {A : Allocator H} {laws : BlockLaws A} {device : BlockDevice} {L : Ledger UInt32 Nat}
  {s s' : Files H} {numbers : List Int} {trace : List (FilesCall × CallResult)}

theorem fopen_accepted {filename modeStr : List UInt8} {res : Int}
    (run : fopen A device s filename modeStr = some (res, s')) (noNul : (0 : UInt8) ∉ filename) :
    Accepted filename := by
  by_contra bad
  rw [fopen_refused (pathparserParse_rejects s.toPaths noNul bad) fun passes => passes.nonzero rfl] at run
  cases run

/-! ## One call -/

theorem Numbers.of_table (held : Numbers s numbers) (table : s'.fileDescriptors = s.fileDescriptors) :
    Numbers s' numbers := by
  refine ⟨held.nodup, fun fd => ?_⟩
  rw [held.mem_iff, open_iff, open_iff, table]

theorem Numbers.opened (held : Numbers s numbers) {i : Nat} {d : UInt32} (lowest : s.Lowest i) (nonzero : d ≠ 0)
    (table : s'.fileDescriptors = update s.fileDescriptors i d) : Numbers s' ((i + 1 : Int) :: numbers) := by
  constructor
  · rw [List.nodup_cons, held.mem_iff, open_iff]
    refine ⟨?_, held.nodup⟩
    rintro ⟨j, _, same, some⟩
    have here : i = j := by omega
    subst here
    exact some lowest.empty
  · intro fd
    rw [List.mem_cons, held.mem_iff, open_iff, open_iff, table]
    constructor
    · rintro (rfl | ⟨j, inside, rfl, some⟩)
      · refine ⟨i, lowest.inside, rfl, ?_⟩
        rwa [Function.update_self]
      · refine ⟨j, inside, rfl, ?_⟩
        have ne : j ≠ i := by
          rintro rfl
          exact some lowest.empty
        rwa [Function.update_of_ne ne]
    · rintro ⟨j, inside, rfl, some⟩
      by_cases here : j = i
      · rw [here]
        exact Or.inl rfl
      · rw [Function.update_of_ne here] at some
        exact Or.inr ⟨j, inside, rfl, some⟩

theorem Numbers.closed (held : Numbers s numbers) {i : Nat}
    (table : s'.fileDescriptors = update s.fileDescriptors i 0) : Numbers s' (numbers.erase (i + 1)) := by
  refine ⟨held.nodup.erase _, fun fd => ?_⟩
  rw [held.nodup.mem_erase_iff, held.mem_iff, open_iff, open_iff, table]
  constructor
  · rintro ⟨other, j, inside, rfl, some⟩
    have ne : j ≠ i := by
      rintro rfl
      exact other rfl
    refine ⟨j, inside, rfl, ?_⟩
    rwa [Function.update_of_ne ne]
  · rintro ⟨j, inside, rfl, some⟩
    by_cases here : j = i
    · rw [here, Function.update_self] at some
      exact absurd rfl some
    · rw [Function.update_of_ne here] at some
      refine ⟨?_, j, inside, rfl, some⟩
      omega

theorem fclose_closed {fd : Int} (closed : fileGetDescriptor s fd = 0) : fclose A s fd = (-eio, s) := by
  unfold fclose
  dsimp only
  rw [if_pos closed]

theorem fseek_frame (s : Files H) (fd : Int) (offset whence : UInt32) :
    (fseek s fd offset whence).2.heap = s.heap ∧
      (fseek s fd offset whence).2.fileDescriptors = s.fileDescriptors := by
  rw [fseek_eq]
  split
  · exact ⟨rfl, rfl⟩
  · exact ⟨rfl, rfl⟩

/-- The state between two calls. -/
structure Between (laws : BlockLaws A) (L : Ledger UInt32 Nat) (s : Files H) (numbers : List Int) : Prop where
  holds : laws.holds s.heap L
  table : TableOk L s
  numbers : Numbers s numbers

theorem Between.call (between : Between laws L s numbers) {call : FilesCall} {result : CallResult}
    (ran : call.run A device s = some (result, s')) (ok : Granted laws call s') :
    ∃ L', Between laws L' s' (call.openAfter numbers result.res) := by
  obtain ⟨holds, table, held⟩ := between
  cases call with
  | fopen filename modeStr =>
    obtain ⟨⟨res, s₁⟩, run, same⟩ := Option.map_eq_some_iff.mp ran
    cases same
    have noNul := ok.2 filename modeStr rfl
    obtain ⟨L', more, holds', kept, opened⟩ := fopen_spec run ok.1 holds noNul (fopen_accepted run noNul)
    cases opened with
    | failed same =>
      exact ⟨L', holds', table.grow more kept same, held.of_table same⟩
    | @opened i d lowest same new =>
      have others (j : Nat) (ne : j ≠ i) : s'.fileDescriptors j = s.fileDescriptors j := by
        rw [same, Function.update_of_ne ne]
      have nonzero : d ≠ 0 := by
        have some := new.some
        rwa [same, Function.update_self] at some
      have positive : (0 : Int) < i + 1 := by omega
      refine ⟨L', holds', table.add more kept new others, ?_⟩
      show Numbers s' (if (0 : Int) < i + 1 then (i + 1 : Int) :: numbers else numbers)
      rw [if_pos positive]
      exact held.opened lowest nonzero same
  | fclose fd =>
    by_cases closed : fileGetDescriptor s fd = 0
    · simp only [FilesCall.run, fclose_closed closed, Option.some.injEq, Prod.mk.injEq] at ran
      obtain ⟨rfl, rfl⟩ := ran
      have out : fd ∉ numbers := fun mem => (held.mem_iff fd).mp mem closed
      refine ⟨L, holds, table, ?_⟩
      show Numbers s (numbers.erase fd)
      rwa [List.erase_of_not_mem out]
    · obtain ⟨i, s₁, L', _, rfl, run, same, holds', _, _, table'⟩ := fclose_spec (A := A) table holds closed
      simp only [FilesCall.run, run, Option.some.injEq, Prod.mk.injEq] at ran
      obtain ⟨rfl, rfl⟩ := ran
      exact ⟨L', holds', table', held.closed same⟩
  | fread size nmemb fd =>
    obtain ⟨⟨res, chunks, s₁⟩, run, same⟩ := Option.map_eq_some_iff.mp ran
    cases same
    obtain ⟨streams, rfl⟩ := fread_streams run
    exact ⟨L, holds, table.streams streams, held.of_table rfl⟩
  | fseek fd offset whence =>
    simp only [FilesCall.run, Option.some.injEq, Prod.mk.injEq] at ran
    obtain ⟨rfl, rfl⟩ := ran
    obtain ⟨heap, same⟩ := fseek_frame s fd offset whence
    refine ⟨L, ?_, table.seek fd offset whence, held.of_table same⟩
    rw [heap]
    exact holds
  | fstat fd =>
    simp only [FilesCall.run, Option.some.injEq, Prod.mk.injEq] at ran
    obtain ⟨rfl, rfl⟩ := ran
    exact ⟨L, holds, table, held⟩

/-! ## Runs -/

theorem fsInit_between {s : Files H} (holds : laws.holds s.heap L) : Between laws L (fsInit s) [] := by
  have none {i : Nat} (some : (fsInit s).fileDescriptors i ≠ 0) : False := some rfl
  refine ⟨holds, ?_, List.nodup_nil, fun fd => ?_⟩
  · constructor
    · exact fun i _ some => (none some).elim
    · exact fun i _ some => (none some).elim
    · exact fun i _ j _ some => (none some).elim
    · exact fun i _ some => (none some).elim
    · exact fun i _ some => (none some).elim
  · refine iff_of_false List.not_mem_nil fun here => ?_
    obtain ⟨i, _, _, some⟩ := open_iff.mp here
    exact none some

theorem CallsRun.between {s₀ : Files H} (holds : laws.holds s₀.heap L)
    (run : CallsRun A device (Granted laws) (fsInit s₀) trace s) : ∃ L', Between laws L' s (openNumbers trace) := by
  induction run with
  | start => exact ⟨L, fsInit_between holds⟩
  | call call _ ran ok ih =>
    obtain ⟨L', between⟩ := ih
    rw [openNumbers, List.foldl_append]
    exact between.call ran ok

/-! ## The numbers and the table -/

/-- Slot `i` in use holds a descriptor of its own that knows the number `i + 1`. -/
structure TableRight (s : Files H) (numbers : List Int) : Prop where
  used : ∀ i < peachosMaxFileDescriptors, s.fileDescriptors i ≠ 0 ↔ (i + 1 : Int) ∈ numbers
  index : ∀ i < peachosMaxFileDescriptors, s.fileDescriptors i ≠ 0 →
    (s.descriptors (s.fileDescriptors i)).index = i + 1
  distinct : ∀ i < peachosMaxFileDescriptors, ∀ j < peachosMaxFileDescriptors, s.fileDescriptors i ≠ 0 → i ≠ j →
    s.fileDescriptors i ≠ s.fileDescriptors j
  nodup : numbers.Nodup
  range : ∀ fd ∈ numbers, 1 ≤ fd ∧ fd ≤ peachosMaxFileDescriptors

structure LowestNumber (numbers : List Int) (fd : Int) : Prop where
  range : 1 ≤ fd ∧ fd ≤ peachosMaxFileDescriptors
  unused : fd ∉ numbers
  below : ∀ k, 1 ≤ k → k < fd → k ∈ numbers

/-- The path is parsed and the volume is searched to an end, with every request granted. -/
def OpenEnds (laws : BlockLaws A) (device : BlockDevice) (s : Files H) (filename modeStr : List UInt8) : Prop :=
  ∃ root paths, pathparserParse A s.toPaths filename = some (root, paths) ∧ laws.granted paths.heap ∧
    (Passes (s.setPaths paths) root modeStr → ∃ r fs, fat16Open A device (s.setPaths paths).toFs
      ((s.setPaths paths).roots root).first (fileGetModeByString modeStr) = some (r, fs) ∧ laws.granted fs.heap)

/-- The other calls have their error for `fd` and change nothing. -/
structure NumberRefused (A : Allocator H) (device : BlockDevice) (s : Files H) (fd : Int) : Prop where
  fclose : fclose A s fd = (-eio, s)
  fread : ∀ size nmemb, fread device s size nmemb fd = some (-einvarg, [], s)
  fseek : ∀ offset whence, fseek s fd offset whence = (-eio, s)
  fstat : fstat s fd = (-eio, none)

/-- What the next call does with the table when `numbers` are open. -/
structure NextRight (laws : BlockLaws A) (device : BlockDevice) (s : Files H) (numbers : List Int) : Prop where
  opened : ∀ filename modeStr res s', fopen A device s filename modeStr = some (res, s') → laws.granted s'.heap →
    (0 : UInt8) ∉ filename → (res = 0 ∧ s'.fileDescriptors = s.fileDescriptors) ∨
      (LowestNumber numbers res ∧ ∃ d ≠ 0, s'.fileDescriptors = update s.fileDescriptors (res - 1).toNat d)
  full : (∀ fd : Int, 1 ≤ fd → fd ≤ peachosMaxFileDescriptors → fd ∈ numbers) → ∀ filename modeStr,
    (0 : UInt8) ∉ filename → Accepted filename → OpenEnds laws device s filename modeStr →
      ∃ s', fopen A device s filename modeStr = some (0, s') ∧ s'.fileDescriptors = s.fileDescriptors
  closed : ∀ fd ∈ numbers, ∃ s', fclose A s fd = (0, s') ∧
    s'.fileDescriptors = update s.fileDescriptors (fd - 1).toNat 0
  refused : ∀ fd, fd ∉ numbers → NumberRefused A device s fd

theorem Numbers.range (held : Numbers s numbers) {fd : Int} (mem : fd ∈ numbers) :
    1 ≤ fd ∧ fd ≤ peachosMaxFileDescriptors := by
  obtain ⟨i, inside, rfl, _⟩ := open_iff.mp ((held.mem_iff fd).mp mem)
  omega

theorem Numbers.used (held : Numbers s numbers) {i : Nat} (inside : i < peachosMaxFileDescriptors) :
    s.fileDescriptors i ≠ 0 ↔ (i + 1 : Int) ∈ numbers := by
  rw [held.mem_iff, open_iff]
  constructor
  · intro some
    exact ⟨i, inside, rfl, some⟩
  · rintro ⟨j, _, same, some⟩
    have here : i = j := by omega
    rwa [here]

theorem Between.tableRight (between : Between laws L s numbers) : TableRight s numbers where
  used _ := between.numbers.used
  index := between.table.index
  distinct _ hi _ hj some ne same := ne (between.table.descriptor_inj hi hj some same)
  nodup := between.numbers.nodup
  range _ := between.numbers.range

theorem Numbers.lowest (held : Numbers s numbers) {i : Nat} (lowest : s.Lowest i) : LowestNumber numbers (i + 1) := by
  have inside := lowest.inside
  refine ⟨by omega, fun mem => (held.used inside).mpr mem lowest.empty, fun k low high => ?_⟩
  obtain ⟨j, rfl⟩ : ∃ j : Nat, k = j + 1 := ⟨(k - 1).toNat, by omega⟩
  exact (held.used (by omega)).mp (lowest.below j (by omega))

theorem refused_of_closed {fd : Int} (closed : fileGetDescriptor s fd = 0) : NumberRefused A device s fd := by
  constructor
  · exact fclose_closed closed
  · intro size nmemb
    unfold fread
    split
    · rfl
    · dsimp only
      rw [if_pos closed]
  · intro offset whence
    exact fseek_closed closed
  · rw [fstat_eq, if_pos closed]

theorem Between.full (between : Between laws L s numbers) (full : s.Full) {filename modeStr : List UInt8}
    (noNul : (0 : UInt8) ∉ filename) (good : Accepted filename) (ends : OpenEnds laws device s filename modeStr) :
    ∃ s', fopen A device s filename modeStr = some (0, s') ∧ s'.fileDescriptors = s.fileDescriptors := by
  obtain ⟨root, paths, parse, granted, search⟩ := ends
  obtain ⟨blocks, parsed⟩ := pathparserParse_spec parse granted between.holds noNul good
  by_cases passes : Passes (s.setPaths paths) root modeStr
  · obtain ⟨r, fs, opened, granted⟩ := search passes
    obtain ⟨L₂, grows, _⟩ := fat16Open_spec opened granted parsed.holds
    obtain ⟨s', _, exit, same, _⟩ := (parsed.underway.grow parsed grows).exit parsed
    rw [fopen_full parse full passes opened]
    exact ⟨s', exit, same⟩
  · obtain ⟨s', _, exit, same, _⟩ := parsed.underway.exit parsed
    rw [fopen_refused parse passes]
    exact ⟨s', exit, same⟩

theorem Between.nextRight (between : Between laws L s numbers) : NextRight laws device s numbers := by
  constructor
  · intro filename modeStr res s' run granted noNul
    obtain ⟨_, _, _, _, result⟩ := fopen_spec run granted between.holds noNul (fopen_accepted run noNul)
    cases result with
    | failed same => exact Or.inl ⟨rfl, same⟩
    | @opened i d lowest same new =>
      have index : ((i : Int) + 1 - 1).toNat = i := by omega
      have nonzero : d ≠ 0 := by
        have some := new.some
        rwa [same, Function.update_self] at some
      refine Or.inr ⟨between.numbers.lowest lowest, d, nonzero, ?_⟩
      rw [index, same]
  · intro all filename modeStr noNul good ends
    have full : s.Full := fun i inside => (between.numbers.used inside).mpr (all (i + 1) (by omega) (by omega))
    exact between.full full noNul good ends
  · intro fd mem
    obtain ⟨i, s', _, _, rfl, run, same, _⟩ :=
      fclose_spec (A := A) between.table between.holds ((between.numbers.mem_iff fd).mp mem)
    have index : ((i : Int) + 1 - 1).toNat = i := by omega
    refine ⟨s', run, ?_⟩
    rw [index, same]
  · intro fd out
    apply refused_of_closed
    by_contra here
    exact out ((between.numbers.mem_iff fd).mpr here)

/-- **The table of descriptors** is right after any calls, and so is what the next call does with it. -/
theorem table_right {s₀ : Files H} (holds : laws.holds s₀.heap L)
    (run : CallsRun A device (Granted laws) (fsInit s₀) trace s) :
    TableRight s (openNumbers trace) ∧ NextRight laws device s (openNumbers trace) := by
  obtain ⟨L', between⟩ := run.between holds
  exact ⟨between.tableRight, between.nextRight⟩

end

/-! ## The note, opened twice -/

def openNote : FilesCall := .fopen notePath [114]

def opened (fd : Int) : CallResult := ⟨fd, [], none⟩

theorem notes_open : ∃ s₁ s₂ : Files Nat,
    openNote.run freshHeap emptyDisk (fsInit (noteFiles 0 1)) = some (opened 1, s₁) ∧ s₁.heap ≤ 25600 ∧
      openNote.run freshHeap emptyDisk s₁ = some (opened 2, s₂) ∧ s₂.heap ≤ 25600 ∧
      fstat s₂ 1 = (0, some ⟨0, 0⟩) := by
  have run : (openNote.run freshHeap emptyDisk (fsInit (noteFiles 0 1))).bind (fun r =>
      (openNote.run freshHeap emptyDisk r.2).map fun r' =>
        decide (r.1 = opened 1 ∧ r.2.heap ≤ 25600 ∧ r'.1 = opened 2 ∧ r'.2.heap ≤ 25600 ∧
          fstat r'.2 1 = (0, some ⟨0, 0⟩))) = some true := by
    unfold openNote FilesCall.run
    dsimp only
    unfold fopen pathparserParse parsePartsFrom fat16Open
    simp only [getDirectoryEntry_eq]
    decide +kernel
  obtain ⟨⟨r, s₁⟩, first, rest⟩ := Option.bind_eq_some_iff.mp run
  obtain ⟨⟨r', s₂⟩, second, results⟩ := Option.map_eq_some_iff.mp rest
  obtain ⟨rfl, fits, rfl, fits', stat⟩ := of_decide_eq_true results
  exact ⟨s₁, s₂, first, fits, second, fits', stat⟩

theorem granted_note {s : Files Nat} (fits : s.heap ≤ 25600) : Granted freshBlocks openNote s := by
  refine ⟨fits, fun filename modeStr same => ?_⟩
  cases same
  decide

theorem two_notes_right : ∃ s, CallsRun freshHeap emptyDisk (Granted freshBlocks) (fsInit (noteFiles 0 1))
    [(openNote, opened 1), (openNote, opened 2)] s ∧ TableRight s [2, 1] ∧
      NextRight freshBlocks emptyDisk s [2, 1] := by
  obtain ⟨s₁, s₂, first, fits, second, fits', _⟩ := notes_open
  have run : CallsRun freshHeap emptyDisk (Granted freshBlocks) (fsInit (noteFiles 0 1))
      [(openNote, opened 1), (openNote, opened 2)] s₂ :=
    .call openNote (.call openNote .start first (granted_note fits)) second (granted_note fits')
  have none : freshBlocks.holds (noteFiles 0 1).heap (fun _ => none) := fun x some => absurd rfl some
  exact ⟨s₂, run, table_right none run⟩

/-! ## One open file among others -/

/-- Reads, seeks and status of the number `a`. -/
def FilesCall.on (a : Int) : FilesCall → Bool
  | .fread _ _ fd => fd == a
  | .fseek fd _ _ => fd == a
  | .fstat fd => fd == a
  | _ => false

/-- The calls of a run on the number `a`, with their results. -/
def callsOn (a : Int) (trace : List (FilesCall × CallResult)) : List (FilesCall × CallResult) :=
  trace.filter fun entry => entry.1.on a

/-- What such a call makes of the file. -/
def FilesCall.next (file : OpenFile) : FilesCall → OpenFile
  | .fseek _ offset whence => (file.seek offset whence).2
  | _ => file

section

variable {H : Type} {A : Allocator H} {laws : BlockLaws A} {device : BlockDevice} {L : Ledger UInt32 Nat}
  {s s' t : Files H} {numbers : List Int} {trace : List (FilesCall × CallResult)} {a : Int} {call : FilesCall}
  {result : CallResult}

/-- The number `a` is open in both states, on a file that looks the same. -/
structure SameFile (s t : Files H) (a : Int) : Prop where
  left : fileGetDescriptor s a ≠ 0
  right : fileGetDescriptor t a ≠ 0
  file : s.openFile a = t.openFile a

theorem callsOn_append (a : Int) (trace : List (FilesCall × CallResult)) (call : FilesCall) (result : CallResult) :
    callsOn a (trace ++ [(call, result)]) =
      if call.on a = true then callsOn a trace ++ [(call, result)] else callsOn a trace := by
  unfold callsOn
  rw [List.filter_append]
  cases on : call.on a <;> simp [on]

theorem descriptor_of_table (table : s'.fileDescriptors = s.fileDescriptors) (fd : Int) :
    fileGetDescriptor s' fd = fileGetDescriptor s fd := by
  rw [fileGetDescriptor, fileGetDescriptor, table]

theorem FilesCall.run_on (here : fileGetDescriptor s a ≠ 0) (on : call.on a = true)
    (ran : call.run A device s = some (result, s')) :
    fileGetDescriptor s' a ≠ 0 ∧ s'.openFile a = call.next (s.openFile a) := by
  cases call with
  | fopen => cases on
  | fclose => cases on
  | fread size nmemb fd =>
    obtain rfl : fd = a := eq_of_beq on
    obtain ⟨⟨res, chunks, s₁⟩, run, same⟩ := Option.map_eq_some_iff.mp ran
    cases same
    obtain ⟨streams, rfl⟩ := fread_streams run
    exact ⟨here, rfl⟩
  | fseek fd offset whence =>
    obtain rfl : fd = a := eq_of_beq on
    simp only [FilesCall.run, Option.some.injEq, Prod.mk.injEq] at ran
    obtain ⟨_, rfl⟩ := ran
    obtain ⟨_, table⟩ := fseek_frame s fd offset whence
    refine ⟨?_, (fseek_opened here offset whence).2⟩
    rwa [descriptor_of_table table]
  | fstat fd =>
    simp only [FilesCall.run, Option.some.injEq, Prod.mk.injEq] at ran
    obtain ⟨_, rfl⟩ := ran
    exact ⟨here, rfl⟩

/-- What such a call returns depends on the file alone. -/
theorem SameFile.results (same : SameFile s t a) (on : call.on a = true) :
    (call.run A device s).map Prod.fst = (call.run A device t).map Prod.fst := by
  cases call with
  | fopen => cases on
  | fclose => cases on
  | fread size nmemb fd =>
    obtain rfl : fd = a := eq_of_beq on
    have view (s : Files H) : (FilesCall.run A device s (.fread size nmemb fd)).map Prod.fst =
        ((fread device s size nmemb fd).map fun r => (r.1, r.2.1)).map fun r => ⟨r.1, r.2, none⟩ := by
      simp only [FilesCall.run, Option.map_map]
      rfl
    rw [view, view, fread_delivers, fread_delivers, same.file]
    simp only [same.left, same.right]
  | fseek fd offset whence =>
    obtain rfl : fd = a := eq_of_beq on
    have left := (fseek_opened same.left offset whence).1
    have right := (fseek_opened same.right offset whence).1
    simp only [FilesCall.run, Option.map_some, left, right, same.file]
  | fstat fd =>
    obtain rfl : fd = a := eq_of_beq on
    simp only [FilesCall.run, Option.map_some, fstat_eq, same.left, same.right, same.file]

theorem SameFile.step (same : SameFile s t a) (on : call.on a = true)
    (ran : call.run A device s = some (result, s')) :
    ∃ t', call.run A device t = some (result, t') ∧ SameFile s' t' a := by
  have results : (call.run A device s).map Prod.fst = (call.run A device t).map Prod.fst := same.results on
  rw [ran] at results
  obtain ⟨⟨result', t'⟩, ran', rfl⟩ := Option.map_eq_some_iff.mp results.symm
  obtain ⟨left, file⟩ := FilesCall.run_on same.left on ran
  obtain ⟨right, file'⟩ := FilesCall.run_on same.right on ran'
  refine ⟨t', ran', left, right, ?_⟩
  rw [file, file', same.file]

/-- The other calls leave the file alone. -/
theorem Between.other (between : Between laws L s numbers) (here : fileGetDescriptor s a ≠ 0)
    (off : call.on a = false) (stays : call ≠ .fclose a) (ran : call.run A device s = some (result, s'))
    (ok : Granted laws call s') : fileGetDescriptor s' a ≠ 0 ∧ s'.openFile a = s.openFile a := by
  obtain ⟨holds, table, held⟩ := between
  have slot {i : Nat} (inside : i < peachosMaxFileDescriptors) (some : s.fileDescriptors i ≠ 0)
      (kept : KeptFiles L s s') (same : s'.fileDescriptors i = s.fileDescriptors i) :
      fileGetDescriptor s' (i + 1) ≠ 0 ∧ s'.openFile (i + 1) = s.openFile (i + 1) := by
    refine ⟨open_iff.mpr ⟨i, inside, rfl, ?_⟩, kept.openFile inside same (table.live i inside some)⟩
    rwa [same]
  cases call with
  | fopen filename modeStr =>
    obtain ⟨⟨res, s₁⟩, run, same⟩ := Option.map_eq_some_iff.mp ran
    cases same
    have noNul := ok.2 filename modeStr rfl
    obtain ⟨_, _, _, kept, opened⟩ := fopen_spec run ok.1 holds noNul (fopen_accepted run noNul)
    obtain ⟨i, inside, rfl, some⟩ := open_iff.mp here
    cases opened with
    | failed same => exact slot inside some kept (congrFun same i)
    | opened lowest same =>
      refine slot inside some kept ?_
      rw [same, Function.update_of_ne]
      rintro rfl
      exact some lowest.empty
  | fclose fd =>
    by_cases closed : fileGetDescriptor s fd = 0
    · simp only [FilesCall.run, fclose_closed closed, Option.some.injEq, Prod.mk.injEq] at ran
      obtain ⟨_, rfl⟩ := ran
      exact ⟨here, rfl⟩
    · obtain ⟨j, s₁, _, _, rfl, run, same, _, _, left, _⟩ := fclose_spec (A := A) table holds closed
      simp only [FilesCall.run, run, Option.some.injEq, Prod.mk.injEq] at ran
      obtain ⟨_, rfl⟩ := ran
      obtain ⟨i, inside, rfl, some⟩ := open_iff.mp here
      refine slot inside some left ?_
      rw [same, Function.update_of_ne]
      rintro rfl
      exact stays rfl
  | fread size nmemb fd =>
    obtain ⟨⟨res, chunks, s₁⟩, run, same⟩ := Option.map_eq_some_iff.mp ran
    cases same
    obtain ⟨streams, rfl⟩ := fread_streams run
    exact ⟨here, rfl⟩
  | fseek fd offset whence =>
    simp only [FilesCall.run, Option.some.injEq, Prod.mk.injEq] at ran
    obtain ⟨_, rfl⟩ := ran
    have ne : a ≠ fd := by
      rintro rfl
      rw [FilesCall.on, beq_self_eq_true] at off
      cases off
    obtain ⟨_, same⟩ := fseek_frame s fd offset whence
    refine ⟨?_, table.seek_apart ne here offset whence⟩
    rwa [descriptor_of_table same]
  | fstat fd =>
    simp only [FilesCall.run, Option.some.injEq, Prod.mk.injEq] at ran
    obtain ⟨_, rfl⟩ := ran
    exact ⟨here, rfl⟩

/-- The run with the calls on `a` alone, beside the run with all of them. -/
theorem CallsRun.alone (between : Between laws L s numbers) (here : fileGetDescriptor s a ≠ 0)
    (run : CallsRun A device (Granted laws) s trace s') (kept : ∀ entry ∈ trace, entry.1 ≠ .fclose a) :
    (∃ L' numbers', Between laws L' s' numbers') ∧
      ∃ t, CallsRun A device (fun _ _ => True) s (callsOn a trace) t ∧ SameFile s' t a := by
  induction run with
  | start => exact ⟨⟨L, numbers, between⟩, s, .start, here, here, rfl⟩
  | @call trace s₁ s₂ result call _ ran ok ih =>
    have before (entry) (mem : entry ∈ trace) : entry.1 ≠ .fclose a := kept entry (List.mem_append_left _ mem)
    obtain ⟨⟨L₁, numbers₁, between₁⟩, t, alone, same⟩ := ih before
    obtain ⟨L₂, between₂⟩ := between₁.call ran ok
    refine ⟨⟨L₂, _, between₂⟩, ?_⟩
    rw [callsOn_append]
    cases on : call.on a with
    | true =>
      obtain ⟨t', ran', same'⟩ := same.step on ran
      exact ⟨t', .call call alone ran' trivial, same'⟩
    | false =>
      have stays : call ≠ .fclose a := kept (call, result) (List.mem_append_right _ List.mem_cons_self)
      obtain ⟨left, file⟩ := between₁.other same.left on stays ran ok
      exact ⟨t, alone, left, same.right, file.trans same.file⟩

/-- **An open file is on its own.** The calls on `a` return what they return without the other
calls in between, and so does the next one. -/
theorem calls_apart {s₀ : Files H} {before : List (FilesCall × CallResult)} (holds : laws.holds s₀.heap L)
    (reached : CallsRun A device (Granted laws) (fsInit s₀) before s) (opened : a ∈ openNumbers before)
    (run : CallsRun A device (Granted laws) s trace s') (kept : ∀ entry ∈ trace, entry.1 ≠ .fclose a) :
    ∃ t, CallsRun A device (fun _ _ => True) s (callsOn a trace) t ∧
      ∀ call : FilesCall, call.on a = true →
        (call.run A device s').map Prod.fst = (call.run A device t).map Prod.fst := by
  obtain ⟨_, between⟩ := reached.between holds
  obtain ⟨_, t, alone, same⟩ := run.alone between ((between.numbers.mem_iff a).mp opened) kept
  exact ⟨t, alone, fun call on => same.results on⟩

end

theorem note_apart : ∃ s₁ s₂, CallsRun freshHeap emptyDisk (Granted freshBlocks) (fsInit (noteFiles 0 1))
    [(openNote, opened 1)] s₁ ∧ CallsRun freshHeap emptyDisk (Granted freshBlocks) s₁
      [(openNote, opened 2), (.fstat 1, ⟨0, [], some ⟨0, 0⟩⟩)] s₂ ∧
    ∃ t, CallsRun freshHeap emptyDisk (fun _ _ => True) s₁ [(.fstat 1, ⟨0, [], some ⟨0, 0⟩⟩)] t ∧
      ∀ call : FilesCall, call.on 1 = true →
        (call.run freshHeap emptyDisk s₂).map Prod.fst = (call.run freshHeap emptyDisk t).map Prod.fst := by
  obtain ⟨s₁, s₂, first, fits, second, fits', stat⟩ := notes_open
  have reached : CallsRun freshHeap emptyDisk (Granted freshBlocks) (fsInit (noteFiles 0 1)) [(openNote, opened 1)] s₁ :=
    .call openNote .start first (granted_note fits)
  have status : FilesCall.run freshHeap emptyDisk s₂ (.fstat 1) = some (⟨0, [], some ⟨0, 0⟩⟩, s₂) := by
    simp only [FilesCall.run, stat]
  have granted : Granted freshBlocks (.fstat 1) s₂ := ⟨fits', fun _ _ same => by cases same⟩
  have run : CallsRun freshHeap emptyDisk (Granted freshBlocks) s₁
      [(openNote, opened 2), (.fstat 1, ⟨0, [], some ⟨0, 0⟩⟩)] s₂ :=
    .call (.fstat 1) (.call openNote .start second (granted_note fits')) status granted
  have none : freshBlocks.holds (noteFiles 0 1).heap (fun _ => none) := fun x some => absurd rfl some
  have kept : ∀ entry ∈ [(openNote, opened 2), (FilesCall.fstat 1, ⟨0, [], some ⟨0, 0⟩⟩)], entry.1 ≠ .fclose 1 := by
    intro entry mem same
    simp only [List.mem_cons, List.not_mem_nil, or_false] at mem
    obtain rfl | rfl := mem <;> cases same
  exact ⟨s₁, s₂, reached, run, calls_apart none reached (by decide) run kept⟩

end PeachOs
