import PeachOs.ImageKept
import PeachOs.SystemSteps
import PeachOs.WindowBytes

/-!
# What the directories map

Below the heap the directory of a process stays as its load left it, whatever the
kernel copies for it. With that the handlers' frames have their place: in the
kernel's memory, or in the window of a long program.
-/

namespace PeachOs

open Memory Address Ownership
open Function (update)

variable {H : Type} {A : Allocator H} {F : FileOps H} {laws : HeapLaws A F}

/-- Below the heap the directories map as they did when their processes were loaded. -/
def EntriesLoaded (k : Kernel H) : Prop :=
  ∀ p, k.Loaded p → ∀ v : UInt32, v.toNat < 0x1000000 → walk k.ram (k.directory p) v = loadedEntry (k.procs p) v

/-! ## The directories -/

section

variable {k k' : Kernel H} {o : Ledger UInt32 Owner}

theorem SameSpaces.directory (same : SameSpaces k k') (p : UInt32) : k'.directory p = k.directory p := by
  unfold Kernel.directory
  rw [same.ram, same.task, same.directories]

theorem SameSpaces.userStore (same : SameSpaces k k') {p a : UInt32} (store : k.UserStore p a) : k'.UserStore p a := by
  unfold Kernel.UserStore
  rw [same.directory, same.ram]
  exact store

theorem EntriesLoaded.sameSpaces (mapped : EntriesLoaded k) (same : SameSpaces k k') : EntriesLoaded k' := by
  intro p loaded v low
  rw [same.directory, same.ram, mapped p ((same.loaded p).mp loaded) v low]
  simp only [loadedEntry, (same.program p).1, (same.program p).2, same.stack]

/-- Memory that keeps the tables of a process keeps its entries. -/
theorem ProcessSafe.walk_kept {p : UInt32} (safe : ProcessSafe o k p) (l : Kernel H)
    (kept : Agree (fun x => o (frame x) = some (.paging p)) k.ram l.ram)
    (place : (l.tasks (l.procs p).task).pageDirectory = (k.tasks (k.procs p).task).pageDirectory) (v : UInt32) :
    walk l.ram (l.directory p) v = walk k.ram (k.directory p) v := by
  obtain ⟨directory, tables, space, _, pages, _⟩ := safe.space
  obtain ⟨hi, hj⟩ := walk_indexes v
  have after := space.of_agree kept fun x on => pages x (on.elim Or.inl fun on => Or.inr (Or.inl on))
  have here : k.directory p = directory := space.chunk_entry
  have there : l.directory p = directory := by
    unfold Kernel.directory
    rw [place]
    exact after.chunk_entry
  rw [here, there, walk, walk, space.tableEntry_agree kept pages hi hj]

theorem loadedEntry_low (process : Process) {v : UInt32} (low : v.toNat < 0x3fb000) :
    loadedEntry process v = frame v ||| 5 := by
  have stack : peachosProgramStackVirtualAddressEnd.toNat = 0x3fb000 := rfl
  have program : peachosProgramVirtualAddress.toNat = 0x400000 := rfl
  unfold loadedEntry
  rw [if_neg, if_neg]
  · rintro ⟨inside, _⟩
    omega
  · rintro ⟨inside, _⟩
    omega

theorem EntriesLoaded.load {filename : List UInt8} {process p : UInt32} (safe : KernelSafe laws o k) (mapped : EntriesLoaded k)
    (load : processLoad A F k filename process = (0, p, k')) (granted : laws.granted k'.heap) : EntriesLoaded k' := by
  obtain ⟨_, ⟨slot, _, _, processes⟩, made⟩ := processLoad_spec load granted
  obtain ⟨o', new, record⟩ := made o safe.books
  intro q loaded v low
  by_cases here : q = p
  · subst here
    obtain ⟨directory, tables, space, _, entries, _⟩ := new.space
    rw [show k'.directory q = directory from space.chunk_entry, entries]
  · have old := loaded.of_update processes here
    have own := safe.processes q old
    have task : (k.procs q).task ≠ (k'.procs p).task := new.task.ne_of_owned (by decide) own.owned.2
    have kept : Agree (fun x => o (frame x) = some (.paging q)) k.ram k'.ram := new.advance.kept.mono fun x hx => by
      rw [hx]
      exact Option.some_ne_none _
    rw [own.walk_kept k' kept, new.procs q here]
    · exact mapped q old v low
    · rw [new.procs q here, new.tasks _ task]

/-- A copy out of the task of `p`. -/
theorem EntriesLoaded.copy {p virtual phy : UInt32} {max res : Int} {heap : H} {ram : Ram} (safe : KernelSafe laws o k)
    (mapped : EntriesLoaded k) (loaded : k.Loaded p) (positive : 1 ≤ max)
    (buffer : ∀ x, InRange x phy max.toNat → ¬ (0x1000000 ≤ x.toNat ∧ x.toNat < 0x7400000))
    (returned : copyStringFromTask A k.heap k.ram (k.tasks (k.procs p).task) virtual phy max = some (res, heap, ram))
    (granted : laws.granted heap) :
    EntriesLoaded { k with heap, ram } ∧ Agree (fun x => x.toNat < 0x1000000 ∧ ¬ InRange x phy max.toNat) k.ram ram := by
  obtain ⟨directory, tables, space, linked, pages, _⟩ := (safe.processes p loaded).space
  obtain ⟨_, others, space', _, _, walks, outside⟩ := copy_trace safe.books space linked pages positive buffer returned granted
  refine ⟨fun q there v low => ?_, outside⟩
  by_cases here : q = p
  · subst here
    have before : k.directory q = directory := space.chunk_entry
    have after : Kernel.directory { k with heap, ram } q = directory := space'.chunk_entry
    rw [after]
    refine (walks v low).trans ?_
    rw [← before]
    exact mapped q loaded v low
  · have kept : Agree (fun x => o (frame x) = some (.paging q)) k.ram ram := others.mono fun x hx => by
      rw [hx]
      exact ⟨Option.some_ne_none _, fun same => here (Owner.paging.inj (Option.some.inj same))⟩
    exact ((safe.processes q there).walk_kept { k with heap, ram } kept rfl v).trans (mapped q there v low)

theorem Loads.entriesLoaded {k₀ : Kernel H} (loads : Loads laws k₀ k) (booted : Booted A k₀) (granted : laws.granted k₀.heap) :
    EntriesLoaded k := by
  induction loads with
  | start => exact fun p loaded => absurd loaded (booted.not_loaded p)
  | load before loaded granted' ih =>
    obtain ⟨o, safe⟩ := before.safe booted granted
    exact ih.load safe loaded granted'
  | @switch k p _ _ ih => exact ih.sameSpaces (processSwitch_sameSpaces k p)

end

end PeachOs
