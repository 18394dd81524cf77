import PeachOs.DescriptorTables
import PeachOs.UserRuns

/-!
# Interrupts over whole runs

The tables of the processor lie in the image, that nothing writes after they were set
up, and every directory shows them to the processor where they are.
-/

namespace PeachOs

open Memory Address Ownership X86
open Function (update)

variable {H : Type} {A : Allocator H} {F : FileOps H} {laws : HeapLaws A F}

section

variable {k k' : Kernel H}

/-- What the file operations keep below the heap is kept by the loads. -/
theorem Loads.kept {k₀ : Kernel H} {d : UInt32 → Prop} (keeps : F.Keeps d) (low : ∀ x, d x → x.toNat < 0x1000000)
    (loads : Loads laws k₀ k) : Agree d k₀.ram k.ram := by
  induction loads with
  | start => exact Agree.refl _ _
  | load _ loaded granted ih => exact ih.trans (processLoad_kept keeps low loaded granted)
  | switch _ _ ih => exact ih

end

/-! ## The run -/

section

variable {s s' : Machine H} {o : Ledger UInt32 Owner}

/-- One step writes nothing below the kernel's stack and the heap. -/
theorem SystemSafe.step_low (safe : SystemSafe laws o s) {writer : Option UInt32} (step : SystemStep laws s writer s') :
    Agree (fun x => x.toNat < 0x400000) s.kernel.ram s'.kernel.ram := by
  have above {a : UInt32} {p : UInt32} (owned : o (frame a) = some (.run p)) := owned_above safe.kernel.books owned
  have write {a : UInt32} (b : UInt8) (high : 0x400000 ≤ a.toNat) :
      Agree (fun x => x.toNat < 0x400000) s.kernel.ram (update s.kernel.ram a b) := by
    intro x low
    apply Function.update_of_ne
    rintro rfl
    omega
  cases step with
  | isr80h buffer returned granted =>
    obtain ⟨q, loaded, current⟩ := safe.runs
    obtain ⟨⟨k₁, same, now, copied⟩, _⟩ := Machine.isr80hHandler_handled returned
    have ram : Agree (fun x => x.toNat < 0x400000) s.kernel.ram k₁.ram := fun x _ => congrFun same.ram x
    obtain shape | ⟨virtual, res, run, shape⟩ := copied
    · rw [shape]
      exact ram
    · rw [now, current, ← same.task] at run
      obtain ⟨_, outside⟩ := (safe.mapped.sameSpaces same).copy (safe.kernel.sameSpaces same) ((same.loaded q).mpr loaded)
        (show (1 : Int) ≤ 4096 by decide) buffer.off_heap run granted
      rw [shape]
      refine ram.trans (outside.mono fun x low => ⟨by omega, fun inside => ?_⟩)
      have above := (buffer.inside inside).1
      omega
  | interrupt returned => exact fun x _ => congrFun (Machine.interruptHandler_handled returned).1.ram x
  | switch _ => exact Agree.refl _ _
  | store runs store =>
    have high := above (safe.store_own runs store).2
    exact write _ (by omega)
  | push push =>
    obtain ⟨p, runs⟩ := safe.runs
    obtain place | ⟨_, owned⟩ := safe.push_place runs push
    · exact write _ (by omega)
    · have high := above owned
      exact write _ (by omega)

theorem SystemRun.low {s₀ : Machine H} {writers : List (Option UInt32)} (run : SystemRun laws s₀ writers s)
    (safe : SystemSafe laws o s₀) : Agree (fun x => x.toNat < 0x400000) s₀.kernel.ram s.kernel.ram := by
  induction run with
  | start => exact Agree.refl _ _
  | step before step ih => exact ih.trans ((before.safe safe).step_low step)

/-- The image as the loaded directory shows it. -/
theorem SystemSafe.image_shown (safe : SystemSafe laws o s) {x : UInt32}
    (low : x.toNat < 0x3fb000) : readByte (translate s.cr3) s.kernel.ram x = some (s.kernel.ram x) := by
  obtain ⟨p, runs⟩ := safe.runs
  obtain ⟨directory, tables, space, linked, _, _⟩ := (safe.kernel.processes p runs.1).space
  have entry := (safe.mapped p runs.1 x (by omega)).trans (loadedEntry_low _ low)
  have here : s.kernel.directory p = directory := space.chunk_entry
  rw [here] at entry
  have aligned := frame_aligned x
  rw [safe.cr3_directory runs, here, readByte, translate_open linked x entry (present_or aligned (by decide) (by decide)),
    frame_or aligned (by decide), frame_add_lowBits]
  rfl

end

namespace KernelImage

/-- The bytes of the objects the tables are made of. -/
def Holds (image : KernelImage) (x : UInt32) : Prop := ∃ s, image.On s x

theorem Holds.low {image : KernelImage} {x : UInt32} (holds : image.Holds x) : x.toNat < 0x3fb000 := by
  obtain ⟨s, on⟩ := holds
  have high := (image.low s).2
  have inside := (on_iff.mp on).2
  omega

theorem Prepared.mono {image : KernelImage} {stub : Nat → UInt32} {m m' : Ram} {t : Tables}
    (prepared : image.Prepared stub m t) (same : Agree image.Holds m m') : image.Prepared stub m' t := by
  have there (s : Symbol) (x : UInt32) (on : image.On s x) : image.Holds x := ⟨s, on⟩
  refine ⟨prepared.gdtr, prepared.idtr, prepared.tr, ?_, ?_, fun i hi => ?_, ?_, ?_⟩
  · rw [bytesAt_same same (there .gdt) (by decide), prepared.code]
  · rw [bytesAt_same same (there .gdt) (by decide), prepared.data]
  · apply (prepared.gates i hi).of_eq
    intro k hk
    apply bytesAt_same same (there .idtDescriptorTable)
    simp only [Symbol.size]
    omega
  · rw [word_bytesAt, load32_same same (there .tss) (by decide), ← word_bytesAt, prepared.esp]
  · rw [half_same same (there .tss) (by decide), prepared.ss]

end KernelImage

/-- **Whatever programs are loaded and whatever they do, an interrupt enters the
kernel.** From the set-up of the tables to any state of the run: the loaded
directory shows the tables where they are, and they send every interrupt of a
program to its stub on the kernel's stack. -/
theorem interrupts_enter_kernel {image : KernelImage} {work : Ram → Ram} {m m' : Ram} {t : Tables}
    (kept : ∀ m, Agree (fun x => image.On .gdt x ∨ image.On .interruptFuncAddresses x) m (work m))
    (tables : image.tablesInit work m = some (m', t)) {h : H} {k₀ : Kernel H} (booted : Booted A k₀)
    (chunk : pagingNew4gb A h m' (pagingIsWriteable ||| pagingIsPresent ||| pagingAccessFromAll) =
      (k₀.kernelPageChunk, k₀.heap, k₀.ram))
    (granted : laws.granted k₀.heap) (keeps : F.Keeps image.Holds) {s₀ s₁ s : Machine H}
    (loads : Loads laws k₀ s₀.kernel) (entered : s₀.taskRunFirstEverTask = some s₁) {writers : List (Option UInt32)}
    (run : SystemRun laws s₁ writers s) :
    (∀ x, image.Holds x → readByte (translate s.cr3) s.kernel.ram x = some (s.kernel.ram x)) ∧
    ∀ c : Cpu, c.cs.toNat % 4 ≠ 0 → ∀ vector software errorCode, c.deliver s.kernel.ram t vector software errorCode =
      some (c.interrupt kernelCodeSelector kernelDataSelector (image.stub m vector.toNat) tssEsp0 errorCode) := by
  have low (x : UInt32) (holds : image.Holds x) : x.toNat < 0x1000000 := Nat.lt_trans holds.low (by decide)
  obtain ⟨m₁, t₁, run₁, prepared⟩ := image.tablesInit_prepared work kept m
  obtain ⟨rfl, rfl⟩ := Prod.mk.inj (Option.some.inj (run₁.symm.trans tables))
  have paged : Agree image.Holds m₁ k₀.ram := by
    have built (granted : laws.granted (pagingNew4gb A h m₁ (pagingIsWriteable ||| pagingIsPresent |||
        pagingAccessFromAll)).2.1) := pagingNew4gb_kept low m₁ granted
    rw [chunk] at built
    exact built granted
  obtain ⟨o, safe⟩ := Begun.safe ⟨k₀, s₀, booted, granted, loads, entered⟩
  have same := run.low safe
  rw [(entered_same entered).ram] at same
  have whole : Agree image.Holds m₁ s.kernel.ram := (paged.trans (loads.kept keeps low)).trans
    (same.mono fun x holds => Nat.lt_trans holds.low (by decide))
  refine ⟨fun x holds => (run.safe safe).image_shown holds.low, fun c outer vector software errorCode => ?_⟩
  exact (prepared.mono whole).delivers outer vector software errorCode

/-! ## A kernel with its tables -/

theorem oneFile_keeps (size : UInt32) (d : UInt32 → Prop) : (oneFile size).Keeps d := by
  refine ⟨fun _ m _ _ => Agree.refl _ m, fun _ m _ => Agree.refl _ m, fun _ m ptr size nmemb _ => ?_,
    fun _ m _ => Agree.refl _ m⟩
  refine (memset_agree m ptr 0 _ (Nat.le_of_lt (UInt32.toNat_lt _))).mono ?_
  rintro x ⟨_, off⟩ inside
  apply off
  unfold InRange at inside ⊢
  rw [UInt32.toNat_mul] at inside
  exact Nat.lt_of_lt_of_le inside (Nat.mod_le _ _)

/-- The keyboard while the first program runs, after a command and a key. -/
theorem first_program_interrupted : ∃ (s : Machine Nat) (t : Tables),
    userCpu.deliver s.kernel.ram t 0x21 false none =
      some (userCpu.interrupt kernelCodeSelector kernelDataSelector (smallImage.stub (fun _ => 0) 0x21) tssEsp0 none) := by
  obtain ⟨m', t, tables, _⟩ := smallImage.tablesInit_prepared clearBlock clearBlock_kept fun _ => 0
  have granted : (freshLaws 100).granted (bootKernel freshHeap 0 m').heap := by
    rw [bootKernel_fresh]
    exact Nat.le_of_ble_eq_true rfl
  obtain ⟨p, k, load, _, granted'⟩ := freshHeap_loads 100 (k := bootKernel freshHeap 0 m') [48, 58, 47, 97] 0
    ⟨0, by decide, (bootKernel_ready freshHeap 0 m').processes 0 (by decide)⟩ (by rw [bootKernel_fresh]; decide)
  obtain ⟨_, t', some', _, _, _, head, current⟩ := processLoad_current load granted'
  rw [if_pos (bootKernel_ready freshHeap 0 m').lists.1] at head current
  obtain ⟨s₁, entered, table, active, heap⟩ : ∃ s₁, (machineOf k).taskRunFirstEverTask = some s₁ ∧
      s₁.isr80hCommands = isr80hRegisterCommands ∧ s₁.kernel.currentTask ≠ 0 ∧ s₁.kernel.heap = k.heap :=
    ⟨_, if_neg (show k.currentTask ≠ 0 by rwa [current]), rfl, show k.taskListHead ≠ 0 by rwa [head], rfl⟩
  have loads : Loads (freshLaws 100) (bootKernel freshHeap 0 m') (machineOf k).kernel := Loads.start.load load granted'
  have buffer : HandlerBuffer 0x500000 := ⟨by decide, by unfold OnKernelStack; decide⟩
  obtain ⟨res, s₂, getkey⟩ := Machine.isr80hHandler_some (A := freshHeap) active table pressFrame 0x500000
  obtain ⟨same, current₂⟩ := Machine.getkey_same table getkey
  obtain ⟨s₃, interrupt⟩ := Machine.interruptHandler_some (show s₂.kernel.currentTask ≠ 0 by rwa [current₂])
    isrKeyboardInterrupt pressFrame 0 0x1E
  have run : SystemRun (freshLaws 100) s₁ [none, none] s₃ :=
    (SystemRun.start.step (.isr80h buffer getkey (by rw [same.heap, heap]; exact granted'))).step (.interrupt interrupt)
  exact ⟨s₃, t, (interrupts_enter_kernel clearBlock_kept tables (bootKernel_ready freshHeap 0 m')
    (bootKernel_chunk freshHeap 0 m') granted (oneFile_keeps 100 _) loads entered run).2 userCpu (by decide) 0x21 false none⟩

end PeachOs
