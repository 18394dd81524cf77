import PeachOs.HandlerRuns
import PeachOs.NameCompare

/-!
# What a print sends

The print command copies the string of the program to a buffer on the kernel's stack.
When the copy fails the buffer is what the stack held before, and it is printed too.
-/

namespace PeachOs

open Memory Address
open Function (update)

/-! ## Strings in two memories -/

/-- Copies that read the same bytes and write at the same places. -/
theorem strncpyFrom_rel {tr : Translation} {R : Ram → Ram → Prop} {dest src : UInt32} (left : Nat) {m m' : Ram}
    {i : Nat} (reads : ∀ a b k, R a b → i ≤ k → k < i + left →
      readByte tr a (src + .ofNat k) = readByte tr b (src + .ofNat k))
    (writes : ∀ a b k c, R a b → i ≤ k → k ≤ i + left →
      Option.Rel R (writeByte tr a (dest + .ofNat k) c) (writeByte tr b (dest + .ofNat k) c))
    (start : R m m') : Option.Rel R (strncpyFrom tr m dest src left i) (strncpyFrom tr m' dest src left i) := by
  induction left generalizing m m' i with
  | zero => exact writes m m' i 0 start (Nat.le_refl i) (Nat.le_refl i)
  | succ left ih =>
    rw [strncpyFrom, strncpyFrom, reads m m' i start (Nat.le_refl i) (by omega)]
    cases readByte tr m' (src + .ofNat i) with
    | none => exact .none
    | some c =>
      simp only [Option.bind_eq_bind, Option.bind_some]
      split
      · exact writes m m' i 0 start (Nat.le_refl i) (by omega)
      · have wrote := writes m m' i c start (Nat.le_refl i) (by omega)
        cases first : writeByte tr m (dest + .ofNat i) c with
        | none =>
          cases second : writeByte tr m' (dest + .ofNat i) c with
          | none => exact .none
          | some b =>
            rw [first, second] at wrote
            cases wrote
        | some a =>
          cases second : writeByte tr m' (dest + .ofNat i) c with
          | none =>
            rw [first, second] at wrote
            cases wrote
          | some b =>
            rw [first, second] at wrote
            cases wrote with
            | some related =>
              exact ih (fun a b k same low high => reads a b k same (by omega) (by omega))
                (fun a b k c same low high => writes a b k c same (by omega) (by omega)) related

theorem readWord_congr {tr : Translation} {m m' : Ram} {v : UInt32}
    (bytes : ∀ k < 4, readByte tr m (v + .ofNat k) = readByte tr m' (v + .ofNat k)) :
    readWord tr m v = readWord tr m' v := by
  have b₀ : readByte tr m v = readByte tr m' v := by simpa using bytes 0 (by decide)
  have b₁ : readByte tr m (v + 1) = readByte tr m' (v + 1) := bytes 1 (by decide)
  have b₂ : readByte tr m (v + 2) = readByte tr m' (v + 2) := bytes 2 (by decide)
  have b₃ : readByte tr m (v + 3) = readByte tr m' (v + 3) := bytes 3 (by decide)
  simp only [readWord, b₀, b₁, b₂, b₃]

theorem readWord_reached {tr : Translation} {m : Ram} (reach : ∀ v, ∃ a, tr m v = some a) (v : UInt32) :
    ∃ word, readWord tr m v = some word := by
  have byte (v : UInt32) : ∃ b, readByte tr m v = some b := by
    obtain ⟨a, reached⟩ := reach v
    exact ⟨m a, by rw [readByte, reached, Option.map_some]⟩
  obtain ⟨b₀, h₀⟩ := byte v
  obtain ⟨b₁, h₁⟩ := byte (v + 1)
  obtain ⟨b₂, h₂⟩ := byte (v + 2)
  obtain ⟨b₃, h₃⟩ := byte (v + 3)
  simp only [readWord, h₀, h₁, h₂, h₃, Option.bind_eq_bind, Option.bind_some]
  exact ⟨_, rfl⟩

theorem stringFrom_mono {m : Ram} {a : UInt32} {n n' : Nat} {chars : List UInt8}
    (found : stringFrom m a n = some chars) (more : n ≤ n') : stringFrom m a n' = some chars := by
  induction n generalizing a n' chars with
  | zero => cases found
  | succ n ih =>
    obtain ⟨n', rfl⟩ := Nat.exists_eq_succ_of_ne_zero (show n' ≠ 0 by omega)
    rw [stringFrom] at found ⊢
    split
    · rename_i ends
      rw [if_pos ends] at found
      exact found
    · rename_i goesOn
      rw [if_neg goesOn] at found
      obtain ⟨rest, later, rfl⟩ := Option.map_eq_some_iff.mp found
      rw [ih later (Nat.le_of_succ_le_succ more)]
      rfl

theorem stringFrom_end {m : Ram} {a : UInt32} (ends : m a = 0) (left : Nat) : stringFrom m a (left + 1) = some [] := by
  rw [stringFrom, if_pos ends]

theorem stringFrom_nil {m : Ram} {a : UInt32} {left : Nat} (found : stringFrom m a left = some []) : m a = 0 := by
  cases left with
  | zero => cases found
  | succ left =>
    rw [stringFrom] at found
    by_contra goesOn
    rw [if_neg goesOn] at found
    obtain ⟨rest, -, same⟩ := Option.map_eq_some_iff.mp found
    cases same

/-- What a copy under the kernel's directory leaves at its destination. -/
theorem strncpyFrom_identity {dest src : UInt32} (left : Nat) {m : Ram} {i : Nat} (small : i + left < 4096)
    (apart : ∀ j < 4096, ∀ k < 4096, dest + .ofNat j ≠ src + .ofNat k) :
    ∃ m', strncpyFrom identity m dest src left i = some m' ∧
      (∀ j < i, m' (dest + .ofNat j) = m (dest + .ofNat j)) ∧
      stringFrom m' (dest + .ofNat i) (left + 1) = some (bytesFrom (fun j => m (src + .ofNat j)) left i) := by
  -- a byte written at `i` leaves those before it
  have before (m : Ram) (i : Nat) (b : UInt8) (inside : i < 4096) (j : Nat) (lower : j < i) :
      update m (dest + .ofNat i) b (dest + .ofNat j) = m (dest + .ofNat j) :=
    Function.update_of_ne (offset_ne (by omega) (by omega) (Nat.ne_of_lt lower)) b m
  induction left generalizing m i with
  | zero =>
    refine ⟨update m (dest + .ofNat i) 0, rfl, before m i 0 (by omega), ?_⟩
    exact stringFrom_end (Function.update_self _ _ m) 0
  | succ left ih =>
    by_cases ends : m (src + .ofNat i) = 0
    · refine ⟨update m (dest + .ofNat i) 0, ?_, before m i 0 (by omega), ?_⟩
      · simp [strncpyFrom, readByte, writeByte, identity, ends]
      · rw [bytesFrom_end ends]
        exact stringFrom_end (Function.update_self _ _ m) (left + 1)
    · obtain ⟨m', run, kept, found⟩ :=
        ih (m := update m (dest + .ofNat i) (m (src + .ofNat i))) (i := i + 1) (by omega)
      have here : m' (dest + .ofNat i) = m (src + .ofNat i) := by
        rw [kept i (Nat.lt_succ_self i), Function.update_self]
      have source : bytesFrom (fun j => update m (dest + .ofNat i) (m (src + .ofNat i)) (src + .ofNat j)) left (i + 1) =
          bytesFrom (fun j => m (src + .ofNat j)) left (i + 1) := by
        apply bytesFrom_congr
        intro j _ high
        exact Function.update_of_ne (apart i (by omega) j (by omega)).symm _ m
      have next : dest + .ofNat i + 1 = dest + UInt32.ofNat (i + 1) := by
        rw [UInt32.add_assoc, UInt32.ofNat_add]
        rfl
      refine ⟨m', ?_, fun j lower => ?_, ?_⟩
      · simpa [strncpyFrom, readByte, writeByte, identity, ends] using run
      · rw [kept j (by omega), before m i _ (by omega) j lower]
      · rw [stringFrom, here, if_neg ends, next, found, source, bytesFrom_more ends]
        rfl

/-! ## Addresses of a task -/

section

variable {m m' : Ram} {chunk directory : UInt32} {tables : Nat → UInt32}

theorem AddressSpace.translate_agree {d : UInt32 → Prop} (space : AddressSpace m chunk directory tables)
    (same : Agree d m m') (pages : ∀ x, OnPages chunk directory tables x → d x) (v : UInt32) :
    translate directory m' v = translate directory m v := by
  obtain ⟨hi, hj⟩ := walk_indexes v
  have link := same.slot space.directory_aligned hi fun x hx => pages x (Or.inr (Or.inl hx))
  rw [translate, translate, walk, walk, space.tableEntry_agree same pages hi hj, link]

/-- After a page is mapped to itself its addresses lead to it, and the others where they led before. -/
theorem Remapped.translate {tmp v x : UInt32}
    (set : Remapped m m' chunk directory tables tmp (tmp ||| .ofInt userWriteable))
    (aligned : tmp % 4096 = 0) (reached : PeachOs.translate directory m' v = some x) :
    frame x = tmp ∨ PeachOs.translate directory m v = some x := by
  obtain ⟨hi, hj⟩ := walk_indexes v
  have link : load32 m' (slot directory (v.toNat / 0x400000)) = load32 m (slot directory (v.toNat / 0x400000)) :=
    set.others.slot set.space.directory_aligned hi fun y hy =>
      hy ▸ (set.space.table_apart _ (walk_indexes tmp).1).1.symm
  unfold PeachOs.translate at reached ⊢
  rw [link, set.walk aligned] at reached
  by_cases here : frame v = tmp
  · left
    rw [if_pos here] at reached
    split at reached
    · rw [frame_or aligned userWriteable_toNat] at reached
      cases reached
      have low : (lowBits v).toNat < 4096 := by
        rw [lowBits_toNat]
        omega
      exact (frame_add aligned low).1
    · cases reached
  · right
    rw [if_neg here] at reached
    exact reached

theorem kZalloc_agree {H : Type} (A : Allocator H) (h : H) {d : UInt32 → Prop} (same : Agree d m m')
    (bytes : UInt32) :
    Agree d (kZalloc A h m bytes).2.2 (kZalloc A h m' bytes).2.2 := by
  dsimp only [kZalloc]
  split
  · exact same
  · exact same.memset _ 0 _

theorem pagingSet_agree {d : UInt32 → Prop} (same : Agree d m m') (virt phy : UInt32)
    (links : ∀ i < 1024, load32 m' (slot directory i) = load32 m (slot directory i)) :
    Agree d (pagingSet m directory virt phy).2 (pagingSet m' directory virt phy).2 := by
  have size : heapBlockSizeBytes / sizeofUnsignedInt * pageSizeInBytes = 0x400000 := by decide
  have index : (virt / 0x400000).toNat < 1024 := by
    have hv := virt.toNat_lt
    have value : (virt / 0x400000).toNat = virt.toNat / 0x400000 := by simp
    omega
  unfold pagingSet
  split
  · exact same
  · dsimp only
    rw [size, links _ index]
    exact same.store32 _ _

theorem pagingMap_agree {d : UInt32 → Prop} (same : Agree d m m') (virt phy : UInt32) (flags : Int)
    (chunk_entry : load32 m' chunk = load32 m chunk)
    (links : ∀ i < 1024, load32 m' (slot (load32 m chunk) i) = load32 m (slot (load32 m chunk) i)) :
    Agree d (pagingMap m chunk virt phy flags).2 (pagingMap m' chunk virt phy flags).2 := by
  unfold pagingMap
  split
  · exact same
  · rw [chunk_entry]
    exact pagingSet_agree same virt _ links

end

/-! ## What the command sends -/

namespace Machine

variable {H : Type}

/-- The command up to its call of `print`. -/
def printCopy (A : Allocator H) (s : Machine H) (buff : UInt32) : Option (Int × Machine H) := do
  let (userSpaceMsgBuffer, s) ← s.taskGetStackItem s.kernel.currentTask 0
  s.copyStringFromTask A s.kernel.currentTask userSpaceMsgBuffer buff pageSizeInBytes.toNat

/-- The characters it sends to the terminal. -/
def printSent (A : Allocator H) (s : Machine H) (buff : UInt32) : Option (List UInt8) := do
  let (_, s) ← s.printCopy A buff
  stringFrom s.kernel.ram buff (2 ^ 32)

theorem isr80hCommad1Print_eq (A : Allocator H) (s : Machine H) (buff : UInt32) :
    s.isr80hCommad1Print A buff = (s.printCopy A buff).bind fun (res, t) =>
      (stringFrom t.kernel.ram buff (2 ^ 32)).map fun chars =>
        (error res, { t with terminal := PeachOs.print t.terminal (chars.map UInt8.toInt8) }) := by
  unfold isr80hCommad1Print printCopy
  cases s.taskGetStackItem s.kernel.currentTask 0 with
  | none => rfl
  | some item =>
    obtain ⟨virtual, t⟩ := item
    simp only [Option.bind_eq_bind, Option.bind_some]
    cases t.copyStringFromTask A t.kernel.currentTask virtual buff pageSizeInBytes.toNat with
    | none => rfl
    | some copied =>
      simp only [Option.bind_some, print, Option.bind_eq_bind]
      cases stringFrom copied.2.kernel.ram buff (2 ^ 32) <;> rfl

end Machine

/-- The addresses of the kernel's stack down to `bottom`. -/
def OnStack (bottom x : UInt32) : Prop := bottom ≤ x ∧ x < tssEsp0

/-- The current task's view of memory. -/
def taskView (s : Machine Heap) : UInt32 → Option UInt32 :=
  translate (load32 s.kernel.ram (s.kernel.tasks s.kernel.currentTask).pageDirectory) s.kernel.ram

/-- The bytes a program hands over: its pointer and the page from the string on. -/
def Handed (s : Machine Heap) (virtual x : UInt32) : Prop :=
  (∃ k < 4, taskView s ((s.kernel.tasks s.kernel.currentTask).registers.esp + .ofNat k) = some x) ∨
    ∃ k < 4096, taskView s (virtual + .ofNat k) = some x

/-- What the kernel's stack holds that is not the program's. -/
def Secret (s : Machine Heap) (virtual bottom x : UInt32) : Prop := OnStack bottom x ∧ ¬ Handed s virtual x

/-- The memory of `s` with another stack. -/
abbrev OtherStack (s : Machine Heap) (virtual bottom : UInt32) (m : Ram) : Prop :=
  Agree (fun x => ¬ Secret s virtual bottom x) s.kernel.ram m

/-- The characters sent do not depend on what the stack held. When the copy fails none
are sent, the terminal is as before, and the command returns the error. -/
structure PrintSecure (s : Machine Heap) (virtual bottom buff : UInt32) : Prop where
  same : ∀ m m', OtherStack s virtual bottom m → OtherStack s virtual bottom m' →
    (s.withRam m).printSent kernelAllocator buff = (s.withRam m').printSent kernelAllocator buff
  failed : ∀ m res t, OtherStack s virtual bottom m →
    (s.withRam m).printCopy kernelAllocator buff = some (res, t) → res < 0 →
    (s.withRam m).printSent kernelAllocator buff = some [] ∧
      ∃ t', (s.withRam m).isr80hCommad1Print kernelAllocator buff = some (error res, t') ∧ t'.terminal = s.terminal

section

variable {s : Machine Heap} {directory : UInt32} {tables : Nat → UInt32} {virtual bottom buff : UInt32}

/-- The pool lies above the kernel's stack. -/
theorem pool_off_stack {x : UInt32} (high : 0x1000000 ≤ (frame x).toNat) : ¬ OnStack bottom x := by
  rintro ⟨-, below⟩
  have top : tssEsp0.toNat = 0x600000 := rfl
  have below := UInt32.lt_iff_toNat_lt.mp below
  rw [frame_toNat] at high
  omega

theorem OnKernelStack.apart {tmp : UInt32} (below : OnKernelStack buff) (high : 0x1000000 ≤ tmp.toNat)
    (aligned : tmp % 4096 = 0) {j k : Nat} (hj : j < 4096) (hk : k < 4096) : buff + .ofNat j ≠ tmp + .ofNat k := by
  intro same
  have value := congrArg UInt32.toNat same
  have page := aligned_toNat.mp aligned
  have top : tssEsp0.toNat = 0x600000 := rfl
  have size := tmp.toNat_lt
  unfold OnKernelStack at below
  rw [UInt32.toNat_add, UInt32.toNat_add, UInt32.toNat_ofNat', UInt32.toNat_ofNat'] at value
  omega

theorem Guarded.off_stack (guarded : Guarded s directory tables) {x : UInt32}
    (on : OnPages (s.kernel.tasks s.kernel.currentTask).pageDirectory directory tables x) :
    ¬ Secret s virtual bottom x :=
  fun secret => pool_off_stack (guarded.heap.inUse_high (guarded.used x on)).1 secret.1

/-- A change off the pages of the task leaves it as it is. -/
theorem Guarded.of_agree (guarded : Guarded s directory tables) {d : UInt32 → Prop} {m : Ram}
    (same : Agree d s.kernel.ram m)
    (pages : ∀ x, OnPages (s.kernel.tasks s.kernel.currentTask).pageDirectory directory tables x → d x) :
    Guarded (s.withRam m) directory tables := by
  refine { guarded with space := ?_ }
  exact guarded.space.of_agree same fun x hx => pages x (hx.elim Or.inl fun hx => Or.inr (Or.inl hx))

theorem Guarded.withRam (guarded : Guarded s directory tables) {m : Ram} (same : OtherStack s virtual bottom m) :
    Guarded (s.withRam m) directory tables :=
  guarded.of_agree same fun _ on => guarded.off_stack on

/-- What the program hands over is read the same. -/
theorem Guarded.readByte_same (guarded : Guarded s directory tables) {m : Ram}
    (same : OtherStack s virtual bottom m) {v : UInt32}
    (handed : ∀ x, taskView s v = some x → Handed s virtual x) :
    readByte (translate directory) m v = readByte (translate directory) s.kernel.ram v := by
  have view : translate directory m v = translate directory s.kernel.ram v :=
    guarded.space.translate_agree same (fun x on => guarded.off_stack on) v
  rw [readByte, readByte, view]
  cases reached : translate directory s.kernel.ram v with
  | none => rfl
  | some x =>
    have given : Handed s virtual x := by
      apply handed
      rw [taskView, guarded.space.chunk_entry]
      exact reached
    exact congrArg some (same x fun secret => secret.2 given)

/-- So is its pointer. -/
theorem Guarded.item_same (guarded : Guarded s directory tables) {m : Ram}
    (same : OtherStack s virtual bottom m) {s₁ : Machine Heap}
    (item : s.taskGetStackItem s.kernel.currentTask 0 = some (virtual, s₁)) :
    ∃ t, (s.withRam m).taskGetStackItem s.kernel.currentTask 0 = some (virtual, t) ∧
      t.kernel = (s.withRam m).kernel ∧ t.terminal = s.terminal := by
  have chunk := guarded.space.chunk_entry
  have chunk' := (guarded.withRam same).space.chunk_entry
  have word : readWord (translate directory) m (s.kernel.tasks s.kernel.currentTask).registers.esp =
      readWord (translate directory) s.kernel.ram (s.kernel.tasks s.kernel.currentTask).registers.esp :=
    readWord_congr fun k hk => guarded.readByte_same same fun x reached => Or.inl ⟨k, hk, reached⟩
  have first : (s.kernel.tasks s.kernel.currentTask).registers.esp + 4 * .ofInt 0 =
      (s.kernel.tasks s.kernel.currentTask).registers.esp := by
    have none : 4 * UInt32.ofInt 0 = 0 := rfl
    rw [none, UInt32.add_zero]
  obtain ⟨v, read, returned⟩ := Option.bind_eq_some_iff.mp item
  cases returned
  have read' : readWord (translate (load32 s.kernel.ram (s.kernel.tasks s.kernel.currentTask).pageDirectory))
      s.kernel.ram ((s.kernel.tasks s.kernel.currentTask).registers.esp + 4 * .ofInt 0) = some virtual := read
  rw [chunk, first, ← word] at read'
  refine ⟨((s.withRam m).taskPageTask s.kernel.currentTask).kernelPage, ?_, rfl, rfl⟩
  have view : readWord (translate (load32 m (s.kernel.tasks s.kernel.currentTask).pageDirectory)) m
      ((s.kernel.tasks s.kernel.currentTask).registers.esp + 4 * .ofInt 0) = some virtual := by
    rw [← read', first]
    exact congrArg (fun directory => readWord (translate directory) m _) chunk'
  exact Option.bind_eq_some_iff.mpr ⟨virtual, view, rfl⟩

/-- With a block the copy faults or succeeds, and the buffer holds the string copied to the block. -/
theorem Guarded.copyStringFromTask_rel (guarded : Guarded s directory tables) (virtual : UInt32)
    (below : OnKernelStack buff)
    {tmp : UInt32} {m₁ m₂ : Ram} (high : 0x1000000 ≤ tmp.toNat)
    (block : TmpBlock kernelAllocator s.kernel.heap (s.kernel.tasks s.kernel.currentTask) directory tables 4096 tmp)
    (mapped : TmpMapped kernelAllocator s.kernel.heap s.kernel.ram (s.kernel.tasks s.kernel.currentTask) directory
      tables 4096 tmp m₁ m₂) :
    Option.Rel (fun m₃ r => r.1 = 0 ∧ stringFrom r.2.kernel.ram buff (2 ^ 32) =
        some (bytesFrom (fun j => m₃ (tmp + .ofNat j)) 4095 0))
      (strncpy (translate directory) m₂ tmp virtual 4096)
      (s.copyStringFromTask kernelAllocator s.kernel.currentTask virtual buff 4096) := by
  have chunk := mapped.set.space.chunk_entry
  have chunk₁ : load32 m₁ (s.kernel.tasks s.kernel.currentTask).pageDirectory = directory :=
    (guarded.space.of_agree mapped.cleared fun x hx =>
      block.off x (hx.elim Or.inl fun hx => Or.inr (Or.inl hx))).chunk_entry
  unfold Machine.copyStringFromTask
  rw [if_neg (by decide), Kernel.kZalloc, mapped.alloc]
  dsimp only
  rw [if_neg block.nonzero, mapped.mapRun]
  cases copied : strncpy (translate directory) m₂ tmp virtual 4096 with
  | none =>
    show Option.Rel _ none (Option.bind (strncpy (translate (load32 m₂ _)) m₂ tmp virtual 4096) _)
    rw [chunk, copied]
    exact .none
  | some m₃ =>
    show Option.Rel _ (some m₃) (Option.bind (strncpy (translate (load32 m₂ _)) m₂ tmp virtual 4096) _)
    rw [chunk, copied, Option.bind_some]
    have space₃ := mapped.set.space.of_agree (mapped.copied kernelAllocator (by decide) (by decide) block copied).1
      fun x hx => block.off x (hx.elim Or.inl fun hx => Or.inr (Or.inl hx))
    obtain ⟨m₄, setRun, restored⟩ := pagingSet_spec space₃ block.aligned
      (pagingGet m₁ (load32 m₁ (s.kernel.tasks s.kernel.currentTask).pageDirectory) tmp)
    -- the entry put back is not on the block
    have onBlock (j : Nat) (hj : j < 4096) : m₄ (tmp + .ofNat j) = m₃ (tmp + .ofNat j) := by
      have page := frame_offset block.aligned hj
      exact restored.others _ fun same => block.off _ (Or.inr (Or.inr ⟨_, (walk_indexes tmp).1, same⟩)) page
    obtain ⟨m₅, outRun, -, found⟩ := strncpyFrom_identity 4095 (m := m₄) (i := 0) (by decide)
      fun j hj k hk => below.apart high block.aligned hj hk
    rw [bytesFrom_congr fun j _ hj => onBlock j (by omega)] at found
    have outRun' : strncpy identity m₄ buff tmp 4096 = some m₅ := outRun
    have whole : stringFrom m₅ buff (2 ^ 32) = some (bytesFrom (fun j => m₃ (tmp + .ofNat j)) 4095 0) := by
      have start : buff + UInt32.ofNat 0 = buff := UInt32.add_zero buff
      rw [start] at found
      exact stringFrom_mono found (by decide)
    dsimp only
    rw [chunk₁] at setRun ⊢
    rw [setRun]
    dsimp only
    rw [if_neg (by decide), outRun']
    exact .some ⟨rfl, whole⟩

/-- Mapping the block leaves machines that differ in the stack only. -/
theorem Guarded.mapped_same (guarded : Guarded s directory tables) {m : Ram}
    (same : OtherStack s virtual bottom m) {tmp : UInt32} {m₁ m₂ n₁ n₂ : Ram}
    (block : TmpBlock kernelAllocator s.kernel.heap (s.kernel.tasks s.kernel.currentTask) directory tables 4096 tmp)
    (mapped : TmpMapped kernelAllocator s.kernel.heap s.kernel.ram (s.kernel.tasks s.kernel.currentTask) directory
      tables 4096 tmp m₁ m₂)
    (mapped' : TmpMapped kernelAllocator s.kernel.heap m (s.kernel.tasks s.kernel.currentTask) directory
      tables 4096 tmp n₁ n₂) : Agree (fun x => ¬ Secret s virtual bottom x) m₂ n₂ := by
  have cleared : Agree (fun x => ¬ Secret s virtual bottom x) m₁ n₁ := by
    have both := kZalloc_agree kernelAllocator s.kernel.heap same (.ofInt 4096)
    rw [mapped.alloc, mapped'.alloc] at both
    exact both
  have off (x : UInt32) (hx : frame x = (s.kernel.tasks s.kernel.currentTask).pageDirectory ∨ frame x = directory) :
      frame x ≠ tmp := block.off x (hx.elim Or.inl fun hx => Or.inr (Or.inl hx))
  have chunk := (guarded.space.of_agree mapped.cleared off).chunk_entry
  have chunk' : load32 n₁ (s.kernel.tasks s.kernel.currentTask).pageDirectory = directory :=
    ((guarded.withRam same).space.of_agree mapped'.cleared off).chunk_entry
  have links (i : Nat) (hi : i < 1024) :
      load32 n₁ (slot (load32 m₁ (s.kernel.tasks s.kernel.currentTask).pageDirectory) i) =
      load32 m₁ (slot (load32 m₁ (s.kernel.tasks s.kernel.currentTask).pageDirectory) i) := by
    rw [chunk]
    exact cleared.slot guarded.space.directory_aligned hi fun x hx => guarded.off_stack (Or.inr (Or.inl hx))
  have set := pagingMap_agree cleared tmp tmp userWriteable (chunk'.trans chunk.symm) links
  rw [mapped.mapRun, mapped'.mapRun] at set
  exact set

/-- The copies to the block of two machines that differ in the stack only. -/
theorem Guarded.copied_rel (guarded : Guarded s directory tables) {m : Ram}
    (same : OtherStack s virtual bottom m) {tmp : UInt32} {m₁ m₂ n₁ n₂ : Ram}
    (high : 0x1000000 ≤ tmp.toNat)
    (block : TmpBlock kernelAllocator s.kernel.heap (s.kernel.tasks s.kernel.currentTask) directory tables 4096 tmp)
    (mapped : TmpMapped kernelAllocator s.kernel.heap s.kernel.ram (s.kernel.tasks s.kernel.currentTask) directory
      tables 4096 tmp m₁ m₂)
    (mapped' : TmpMapped kernelAllocator s.kernel.heap m (s.kernel.tasks s.kernel.currentTask) directory
      tables 4096 tmp n₁ n₂) :
    Option.Rel (fun a b =>
        Agree (fun x => ¬ Secret s virtual bottom x) a b ∧ Agree (fun x => frame x ≠ tmp) m₂ a)
      (strncpy (translate directory) m₂ tmp virtual 4096) (strncpy (translate directory) n₂ tmp virtual 4096) := by
  have onBlock (x : UInt32) (on : frame x = tmp) : ¬ Secret s virtual bottom x := fun secret =>
    pool_off_stack (on ▸ high) secret.1
  -- both machines translate alike while the copy runs
  have view (a b : Ram) (alike : Agree (fun x => ¬ Secret s virtual bottom x) a b)
      (kept : Agree (fun x => frame x ≠ tmp) m₂ a) (v : UInt32) :
      translate directory b v = translate directory a v := by
    have space := mapped.set.space.of_agree kept fun x hx => block.off x (hx.elim Or.inl fun hx => Or.inr (Or.inl hx))
    exact space.translate_agree alike (fun x on => guarded.off_stack on) v
  have given (a : Ram) (kept : Agree (fun x => frame x ≠ tmp) m₂ a) (k : Nat) (hk : k < 4095) (x : UInt32)
      (reached : translate directory a (virtual + .ofNat k) = some x) : ¬ Secret s virtual bottom x := by
    rw [mapped.set.space.translate_agree kept block.off] at reached
    obtain on | reached := mapped.set.translate block.aligned reached
    · exact onBlock x on
    · rw [guarded.space.translate_agree mapped.cleared block.off] at reached
      refine fun secret => secret.2 (Or.inr ⟨k, by omega, ?_⟩)
      rw [taskView, guarded.space.chunk_entry]
      exact reached
  apply strncpyFrom_rel
  · intro a b k ⟨alike, kept⟩ _ hk
    rw [readByte, readByte, view a b alike kept]
    cases reached : translate directory a (virtual + .ofNat k) with
    | none => rfl
    | some x => exact congrArg some (alike x (given a kept k (by omega) x reached)).symm
  · intro a b k c ⟨alike, kept⟩ low hk
    rw [writeByte, writeByte, view a b alike kept]
    cases reached : translate directory a (tmp + .ofNat k) with
    | none => exact .none
    | some x =>
      refine .some ⟨alike.update x c, fun y hy => ?_⟩
      have on := mapped_copy_off block.aligned block.off mapped.set (by decide) (by decide) a kept k low hk x reached
      have ne : y ≠ x := fun here => on (here ▸ hy)
      exact (Function.update_of_ne ne c a).trans (kept y hy)
  · exact ⟨guarded.mapped_same same block mapped mapped', .refl _ _⟩

theorem Machine.printCopy_item {t : Machine Heap}
    (item : s.taskGetStackItem s.kernel.currentTask 0 = some (virtual, t)) :
    s.printCopy kernelAllocator buff = t.copyStringFromTask kernelAllocator t.kernel.currentTask virtual buff 4096 := by
  have page : (pageSizeInBytes.toNat : Int) = 4096 := by decide
  rw [Machine.printCopy, page, item, Option.bind_eq_bind, Option.bind_some]

/-- The same command on another stack. -/
theorem Guarded.printCopy_same (guarded : Guarded s directory tables) (buff : UInt32) {m : Ram}
    (same : OtherStack s virtual bottom m) {s₁ : Machine Heap}
    (item : s.taskGetStackItem s.kernel.currentTask 0 = some (virtual, s₁)) :
    ∃ t : Machine Heap, Guarded t directory tables ∧ t.kernel = (s.withRam m).kernel ∧ t.terminal = s.terminal ∧
      (s.withRam m).printCopy kernelAllocator buff =
        t.copyStringFromTask kernelAllocator t.kernel.currentTask virtual buff 4096 := by
  obtain ⟨t, item', kernel, terminal⟩ := guarded.item_same same item
  have guarded' := guarded.withRam same
  refine ⟨t, ?_, kernel, terminal, Machine.printCopy_item item'⟩
  obtain ⟨k, cr3, current, segments, terminal, commands, callbacks⟩ := t
  cases kernel
  exact ⟨guarded'.current, guarded'.heap, guarded'.space, guarded'.used, guarded'.chunk, guarded'.apart⟩

/-- Without a block the buffer is printed as it is. -/
theorem Guarded.printCopy_full (guarded : Guarded s directory tables) (buff : UInt32) {m : Ram}
    (same : OtherStack s virtual bottom m) {s₁ : Machine Heap}
    (item : s.taskGetStackItem s.kernel.currentTask 0 = some (virtual, s₁))
    (full : ∀ k, k ∉ s.kernel.heap.freeBlocks) :
    ∃ t : Machine Heap, t.kernel.ram = m ∧ t.terminal = s.terminal ∧
      (s.withRam m).printCopy kernelAllocator buff = some (-enomem, t) := by
  obtain ⟨t, -, kernel, terminal, copy⟩ := guarded.printCopy_same buff same item
  refine ⟨t, by rw [kernel]; rfl, terminal, copy.trans ?_⟩
  apply Machine.copyStringFromTask_enomem
  rw [kernel]
  exact full

theorem Guarded.printSent_full (guarded : Guarded s directory tables) {m : Ram} (same : OtherStack s virtual bottom m)
    {s₁ : Machine Heap} (item : s.taskGetStackItem s.kernel.currentTask 0 = some (virtual, s₁))
    (full : ∀ k, k ∉ s.kernel.heap.freeBlocks) :
    (s.withRam m).printSent kernelAllocator buff = stringFrom m buff (2 ^ 32) := by
  obtain ⟨t, ram, -, copy⟩ := guarded.printCopy_full buff same item full
  rw [Machine.printSent, copy, ← ram]
  rfl

/-- With a block what is printed is the string on the block. -/
theorem Guarded.printCopy_rel (guarded : Guarded s directory tables) (below : OnKernelStack buff) {m : Ram}
    (same : OtherStack s virtual bottom m) {s₁ : Machine Heap}
    (item : s.taskGetStackItem s.kernel.currentTask 0 = some (virtual, s₁)) {k : Nat}
    (least : IsLeast s.kernel.heap.freeBlocks k) :
    ∃ n₁ n₂, TmpMapped kernelAllocator s.kernel.heap m (s.kernel.tasks s.kernel.currentTask) directory tables 4096
        (s.kernel.heap.blockAddr k) n₁ n₂ ∧
      Option.Rel (fun m₃ r => r.1 = 0 ∧ stringFrom r.2.kernel.ram buff (2 ^ 32) =
          some (bytesFrom (fun j => m₃ (s.kernel.heap.blockAddr k + .ofNat j)) 4095 0))
        (strncpy (translate directory) n₂ (s.kernel.heap.blockAddr k) virtual 4096)
        ((s.withRam m).printCopy kernelAllocator buff) := by
  obtain ⟨t, guarded', kernel, -, copy⟩ := guarded.printCopy_same buff same item
  have least' : IsLeast t.kernel.heap.freeBlocks k := by
    rw [kernel]
    exact least
  have block := (guarded'.onHeap below).block (by decide) (by decide) least'
  obtain ⟨n₁, n₂, mapped⟩ := block.mapped kernelAllocator guarded'.space (by decide) (by decide)
  have place := guarded'.heap.blockAddr_toNat (guarded'.heap.total ▸ least'.1.1)
  have rel := guarded'.copyStringFromTask_rel virtual below (by omega) block mapped
  rw [← copy, kernel] at rel
  rw [kernel] at mapped
  exact ⟨n₁, n₂, mapped, rel⟩

theorem Machine.printSent_of_rel {copied : Option Ram} {chars : Ram → List UInt8}
    (rel : Option.Rel (fun m r => r.1 = 0 ∧ stringFrom r.2.kernel.ram buff (2 ^ 32) = some (chars m)) copied
      (s.printCopy kernelAllocator buff)) : s.printSent kernelAllocator buff = copied.map chars := by
  rw [Machine.printSent]
  cases printed : s.printCopy kernelAllocator buff with
  | none =>
    rw [printed] at rel
    cases rel
    rfl
  | some r =>
    rw [printed] at rel
    cases rel with
    | some found =>
      rw [Option.map_some, ← found.2, Option.bind_eq_bind, Option.bind_some]

/-- A machine with a free block sends what the program handed over. -/
theorem Guarded.print_secure (guarded : Guarded s directory tables) (below : OnKernelStack buff) {s₁ : Machine Heap}
    (item : s.taskGetStackItem s.kernel.currentTask 0 = some (virtual, s₁)) {k : Nat}
    (least : IsLeast s.kernel.heap.freeBlocks k) : PrintSecure s virtual bottom buff := by
  have place := guarded.heap.blockAddr_toNat (guarded.heap.total ▸ least.1.1)
  have block := (guarded.onHeap below).block (by decide) (by decide) least
  have self : OtherStack s virtual bottom s.kernel.ram := .refl _ _
  -- each stack against the one of `s`
  have sent (m : Ram) (same : OtherStack s virtual bottom m) :
      (s.withRam m).printSent kernelAllocator buff = (s.withRam s.kernel.ram).printSent kernelAllocator buff := by
    obtain ⟨m₁, m₂, mapped, rel⟩ := guarded.printCopy_rel below self item least
    obtain ⟨n₁, n₂, mapped', rel'⟩ := guarded.printCopy_rel below same item least
    have copied := guarded.copied_rel same (by omega) block mapped mapped'
    rw [Machine.printSent_of_rel rel, Machine.printSent_of_rel rel']
    generalize strncpy (translate directory) m₂ (s.kernel.heap.blockAddr k) virtual 4096 = a at copied ⊢
    generalize strncpy (translate directory) n₂ (s.kernel.heap.blockAddr k) virtual 4096 = b at copied ⊢
    cases copied with
    | none => rfl
    | some alike =>
      apply congrArg some
      apply bytesFrom_congr
      intro j _ hj
      have page := frame_offset block.aligned (show j < 4096 by omega)
      exact alike.1 _ fun secret => pool_off_stack (by rw [page]; omega) secret.1
  constructor
  · intro m m' same same'
    rw [sent m same, sent m' same']
  · intro m res t same copied failed
    obtain ⟨n₁, n₂, -, rel⟩ := guarded.printCopy_rel below same item least
    rw [copied] at rel
    generalize strncpy (translate directory) n₂ (s.kernel.heap.blockAddr k) virtual 4096 = b at rel
    -- a copy that got its block does not fail
    cases rel with
    | some printed =>
      have ok : res = 0 := printed.1
      omega

/-- Without a free block the first byte of the buffer decides. -/
theorem Guarded.print_secure_full (guarded : Guarded s directory tables) (below : OnKernelStack buff)
    (above : bottom ≤ buff) {s₁ : Machine Heap}
    (item : s.taskGetStackItem s.kernel.currentTask 0 = some (virtual, s₁))
    (full : ∀ k, k ∉ s.kernel.heap.freeBlocks) :
    PrintSecure s virtual bottom buff ↔ Handed s virtual buff ∧ s.kernel.ram buff = 0 := by
  have sent (m : Ram) (same : OtherStack s virtual bottom m) :
      (s.withRam m).printSent kernelAllocator buff = stringFrom m buff (2 ^ 32) :=
    guarded.printSent_full same item full
  constructor
  · intro secure
    by_cases handed : Handed s virtual buff
    · refine ⟨handed, ?_⟩
      obtain ⟨t, -, -, copy⟩ := guarded.printCopy_full buff (.refl _ _ : OtherStack s virtual bottom _) item full
      obtain ⟨silent, -⟩ := secure.failed _ _ t (.refl _ _) copy (by decide)
      rw [sent _ (.refl _ _)] at silent
      exact stringFrom_nil silent
    · -- two buffers, one empty and one not
      have on : OnStack bottom buff := by
        refine ⟨above, UInt32.lt_iff_toNat_lt.mpr ?_⟩
        unfold OnKernelStack at below
        omega
      have secret : Secret s virtual bottom buff := ⟨on, handed⟩
      have other (b : UInt8) : OtherStack s virtual bottom (update s.kernel.ram buff b) := by
        intro x hx
        have ne : x ≠ buff := fun here => hx (here ▸ secret)
        exact Function.update_of_ne ne b s.kernel.ram
      have alike := secure.same _ _ (other 0) (other 0x41)
      rw [sent _ (other 0), sent _ (other 0x41)] at alike
      rw [stringFrom_mono (stringFrom_end (Function.update_self _ _ _) 0) (by decide)] at alike
      have first := stringFrom_nil alike.symm
      rw [Function.update_self] at first
      exact absurd first (by decide)
  · rintro ⟨handed, nul⟩
    have silent (m : Ram) (same : OtherStack s virtual bottom m) : stringFrom m buff (2 ^ 32) = some [] :=
      stringFrom_mono (stringFrom_end ((same buff fun secret => secret.2 handed).trans nul) 0) (by decide)
    constructor
    · intro m m' same same'
      rw [sent m same, sent m' same', silent m same, silent m' same']
    · intro m res t same copied failed
      obtain ⟨t', ram, terminal, copy⟩ := guarded.printCopy_full buff same item full
      rw [copy] at copied
      cases copied
      refine ⟨by rw [sent m same, silent m same], ?_⟩
      rw [Machine.isr80hCommad1Print_eq, copy, Option.bind_some]
      dsimp only
      rw [ram, silent m same]
      exact ⟨_, rfl, terminal⟩

/-- **When a print keeps the kernel's stack to itself.** With a free block the copy gets its page and what is sent
is the program's string. Without one nothing is sent only if the program's own bytes say so. -/
theorem Guarded.print_secure_iff (guarded : Guarded s directory tables) (below : OnKernelStack buff)
    (above : bottom ≤ buff) {s₁ : Machine Heap}
    (item : s.taskGetStackItem s.kernel.currentTask 0 = some (virtual, s₁)) : PrintSecure s virtual bottom buff ↔
      (∃ k, k ∈ s.kernel.heap.freeBlocks) ∨ Handed s virtual buff ∧ s.kernel.ram buff = 0 := by
  by_cases full : ∀ k, k ∉ s.kernel.heap.freeBlocks
  · rw [guarded.print_secure_full below above item full]
    exact ⟨Or.inr, fun either => either.resolve_left fun ⟨k, free⟩ => full k free⟩
  · obtain ⟨k, least⟩ := least_free full
    exact iff_of_true (guarded.print_secure below item least) (Or.inl ⟨k, least.1⟩)

/-- Where no page is missing the pointer is read. -/
theorem taskGetStackItem_reached (reach : ∀ v, ∃ a, taskView s v = some a) (index : Int) :
    ∃ item t, s.taskGetStackItem s.kernel.currentTask index = some (item, t) := by
  obtain ⟨item, read⟩ := readWord_reached (m := s.kernel.ram) reach
    ((s.kernel.tasks s.kernel.currentTask).registers.esp + 4 * .ofInt index)
  exact ⟨item, _, Option.bind_eq_some_iff.mpr ⟨item, read, rfl⟩⟩

end

section

variable (heap : Heap) (ram : Ram) (chunk : UInt32) (task : Task)

theorem machineOver_heap : (machineOver heap ram chunk task).kernel.heap = heap := rfl

theorem machineOver_ram : (machineOver heap ram chunk task).kernel.ram = ram := rfl

theorem machineOver_task (t : UInt32) : (machineOver heap ram chunk task).kernel.tasks t = task := rfl

end

/-- The memory a new task reaches. -/
theorem Guarded.new_reach {s : Machine Heap} (guarded : Guarded s (newPage 0) (fun i => newPage (i + 1)))
    (ram : s.kernel.ram = newDirectory.2.2) (v : UInt32) : ∃ a, taskView s v = some a := by
  obtain ⟨-, -, built⟩ := newTask_built
  have reach := built.reach (by decide) v
  rw [← ram] at reach
  rw [taskView, guarded.space.chunk_entry]
  exact reach

/-- The next block of a new machine is free. -/
theorem newMachine_print_secure : ∃ virtual t,
    newMachine.taskGetStackItem newMachine.kernel.currentTask 0 = some (virtual, t) ∧
      PrintSecure newMachine virtual 0x500000 0x500000 := by
  have guarded := newMachine_guarded
  have free : 1027 ∈ newMachine.kernel.heap.freeBlocks := by
    rw [newMachine, machineOver_heap]
    exact (filledHeap_least (by omega)).1
  have reach := guarded.new_reach (machineOver_ram _ _ _ _)
  generalize newMachine = s at guarded free reach ⊢
  obtain ⟨virtual, t, item⟩ := taskGetStackItem_reached reach 0
  have below : OnKernelStack 0x500000 := show 0x500000 + 4096 ≤ tssEsp0.toNat by decide
  exact ⟨virtual, t, item, (guarded.print_secure_iff below (UInt32.le_refl _) item).mpr (Or.inl ⟨1027, free⟩)⟩

theorem filledHeap_full (k : Nat) : k ∉ (filledHeap 25600).freeBlocks := by
  rintro ⟨inside, free⟩
  obtain ⟨kernel, packed⟩ := filledHeap_packed (Nat.le_refl 25600)
  rw [kernel.total] at inside
  rw [packed.taken k inside] at free
  exact absurd free (by decide)

section

variable {s : Machine Heap} {directory : UInt32} {tables : Nat → UInt32}

theorem Guarded.low_off (guarded : Guarded s directory tables) {x : UInt32} (low : x.toNat < 0x1000000) :
    ¬ OnPages (s.kernel.tasks s.kernel.currentTask).pageDirectory directory tables x := by
  intro on
  obtain ⟨high, -⟩ := guarded.heap.inUse_high (guarded.used x on)
  rw [frame_toNat] at high
  omega

/-- An `A` where the buffer of the command comes to lie. -/
def withLetter (s : Machine Heap) : Machine Heap := s.withRam (update s.kernel.ram 0x500000 0x41)

theorem withLetter_ram : (withLetter s).kernel.ram = update s.kernel.ram 0x500000 0x41 := rfl

theorem withLetter_agree : Agree (fun x => x ≠ 0x500000) s.kernel.ram (withLetter s).kernel.ram :=
  fun _ ne => Function.update_of_ne ne 0x41 s.kernel.ram

theorem Guarded.letter_off (guarded : Guarded s directory tables) (x : UInt32)
    (on : OnPages (s.kernel.tasks s.kernel.currentTask).pageDirectory directory tables x) : x ≠ 0x500000 := by
  rintro rfl
  exact guarded.low_off (by decide) on

theorem Guarded.withLetter (guarded : Guarded s directory tables) : Guarded (PeachOs.withLetter s) directory tables :=
  guarded.of_agree withLetter_agree guarded.letter_off

theorem Guarded.withLetter_view (guarded : Guarded s directory tables) (v : UInt32) :
    taskView (PeachOs.withLetter s) v = taskView s v := by
  have current : (PeachOs.withLetter s).kernel.currentTask = s.kernel.currentTask := rfl
  have tasks : (PeachOs.withLetter s).kernel.tasks = s.kernel.tasks := rfl
  rw [taskView, taskView, guarded.withLetter.space.chunk_entry, guarded.space.chunk_entry]
  exact guarded.space.translate_agree withLetter_agree guarded.letter_off v

theorem withLetter_found (nul : s.kernel.ram 0x500001 = 0) :
    stringFrom (withLetter s).kernel.ram 0x500000 2 = some [0x41] := by
  have next : (0x500000 : UInt32) + 1 = 0x500001 := by decide
  have ne : (0x500001 : UInt32) ≠ 0x500000 := by decide
  rw [withLetter_ram, stringFrom, Function.update_self, if_neg (by decide), next, stringFrom_end]
  · rfl
  · rw [Function.update_of_ne ne]
    exact nul

/-- Without a free block the print fails and sends the `A`. -/
theorem Guarded.letter_printed (guarded : Guarded s directory tables) (full : ∀ k, k ∉ s.kernel.heap.freeBlocks)
    (reach : ∀ v, ∃ a, taskView s v = some a) (nul : s.kernel.ram 0x500001 = 0) :
    ∃ virtual t t',
      (PeachOs.withLetter s).taskGetStackItem (PeachOs.withLetter s).kernel.currentTask 0 = some (virtual, t) ∧
      (PeachOs.withLetter s).printCopy kernelAllocator 0x500000 = some (-enomem, t') ∧
      (PeachOs.withLetter s).printSent kernelAllocator 0x500000 = some [0x41] ∧
      ¬ PrintSecure (PeachOs.withLetter s) virtual 0x500000 0x500000 := by
  have lettered := guarded.withLetter
  have found := stringFrom_mono (withLetter_found nul) (show 2 ≤ 2 ^ 32 by decide)
  have letter : (PeachOs.withLetter s).kernel.ram 0x500000 = 0x41 := by rw [withLetter_ram, Function.update_self]
  have reach' (v : UInt32) : ∃ a, taskView (PeachOs.withLetter s) v = some a := by
    rw [guarded.withLetter_view]
    exact reach v
  have full' (k : Nat) : k ∉ (PeachOs.withLetter s).kernel.heap.freeBlocks := full k
  generalize PeachOs.withLetter s = s' at *
  have below : OnKernelStack 0x500000 := show 0x500000 + 4096 ≤ tssEsp0.toNat by decide
  obtain ⟨virtual, t, item⟩ := taskGetStackItem_reached reach' 0
  have self : OtherStack s' virtual 0x500000 s'.kernel.ram := .refl _ _
  obtain ⟨t', -, -, copy⟩ := lettered.printCopy_full 0x500000 self item full'
  refine ⟨virtual, t, t', item, copy, ?_, fun secure => ?_⟩
  · exact (lettered.printSent_full self item full').trans found
  · obtain ⟨-, zero⟩ := (lettered.print_secure_full below (UInt32.le_refl _) item full').mp secure
    rw [letter] at zero
    exact absurd zero (by decide)

end

/-- A machine without a free block. -/
def fullMachine : Machine Heap :=
  withLetter (machineOver (filledHeap 25600) newDirectory.2.2 (newPage 1026) newTask)

theorem fullMachine_prints : ∃ virtual t t',
    fullMachine.taskGetStackItem fullMachine.kernel.currentTask 0 = some (virtual, t) ∧
      fullMachine.printCopy kernelAllocator 0x500000 = some (-enomem, t') ∧
      fullMachine.printSent kernelAllocator 0x500000 = some [0x41] ∧
      ¬ PrintSecure fullMachine virtual 0x500000 0x500000 := by
  have guarded := filled_guarded (n := 25600) (by omega) (by omega)
  have ram := machineOver_ram (filledHeap 25600) newDirectory.2.2 (newPage 1026) newTask
  have heap := machineOver_heap (filledHeap 25600) newDirectory.2.2 (newPage 1026) newTask
  have task := machineOver_task (filledHeap 25600) newDirectory.2.2 (newPage 1026) newTask
  obtain ⟨chunk, -, built⟩ := newTask_built
  have whole : fullMachine = withLetter (machineOver (filledHeap 25600) newDirectory.2.2 (newPage 1026) newTask) := rfl
  generalize machineOver (filledHeap 25600) newDirectory.2.2 (newPage 1026) newTask = s at guarded ram heap task whole
  rw [whole]
  have off := guarded.low_off (x := 0x500001) (by decide)
  rw [task, chunk] at off
  have nul := built.others _ off
  rw [← ram] at nul
  have full : ∀ k, k ∉ s.kernel.heap.freeBlocks := by
    rw [heap]
    exact filledHeap_full
  have reach := guarded.new_reach ram
  exact guarded.letter_printed full reach nul

end PeachOs
