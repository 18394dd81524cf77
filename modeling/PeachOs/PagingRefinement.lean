import PeachOs.PagingBuild
import PeachOs.KheapFresh
import PeachOs.Lib.Overlay

/-!
# Page tables refine a flat map

The 1024 tables of a chunk are compared with one map from addresses to a frame
and flags, over which each mapping call writes a window.
-/

namespace PeachOs

open Memory Address Overlay

/-- A frame and its flags. -/
structure Mapping where
  frame : UInt32
  flags : UInt32
  deriving DecidableEq

/-- The mapping an entry encodes. -/
def decode (entry : UInt32) : Mapping := ⟨frame entry, lowBits entry⟩

inductive PagingCall
  | map (virt phy : UInt32) (flags : Int)
  | mapRange (virt phy : UInt32) (count flags : Int)
  | mapTo (virt phy phyEnd : UInt32) (flags : Int)

namespace PagingCall

def run (m : Ram) (chunk : UInt32) : PagingCall → Int × Ram
  | map virt phy flags => pagingMap m chunk virt phy flags
  | mapRange virt phy count flags => pagingMapRange m chunk virt phy count flags
  | mapTo virt phy phyEnd flags => pagingMapTo m chunk virt phy phyEnd flags

def virt : PagingCall → UInt32
  | map virt _ _ | mapRange virt _ _ _ | mapTo virt _ _ _ => virt

def phy : PagingCall → UInt32
  | map _ phy _ | mapRange _ phy _ _ | mapTo _ phy _ _ => phy

def flags : PagingCall → Int
  | map _ _ flags | mapRange _ _ _ flags | mapTo _ _ _ flags => flags

/-- The pages of the call's window. -/
def count : PagingCall → Nat
  | map _ _ _ => 1
  | mapRange _ _ count _ => count.toNat
  | mapTo _ phy phyEnd _ => pagesBetween phy phyEnd

/-- A range does not end before it starts. -/
def Ordered : PagingCall → Prop
  | map _ _ _ => True
  | mapRange _ _ count _ => 0 ≤ count
  | mapTo _ phy phyEnd _ => phyEnd % 4096 = 0 ∧ phy ≤ phyEnd

/-- Page-aligned addresses, flags of twelve bits, and windows that end below 2^32. -/
structure Valid (c : PagingCall) : Prop where
  virt_aligned : c.virt % 4096 = 0
  phy_aligned : c.phy % 4096 = 0
  flags_low : 0 ≤ c.flags
  flags_high : c.flags ≤ 0xfff
  virt_fit : c.virt.toNat + 4096 * c.count ≤ 2 ^ 32
  phy_fit : c.phy.toNat + 4096 * c.count ≤ 2 ^ 32
  ordered : c.Ordered

/-- What the call writes over the flat map. -/
def window (c : PagingCall) : Window UInt32 Mapping where
  covers v := decide (InWindow v c.virt c.count)
  value v := ⟨Memory.frame v - c.virt + c.phy, .ofInt c.flags⟩

end PagingCall

def runCalls (m : Ram) (chunk : UInt32) (calls : List PagingCall) : Ram :=
  calls.foldl (fun m c => (c.run m chunk).2) m

theorem flags_toNat {flags : Int} (low : 0 ≤ flags) (high : flags ≤ 0xfff) :
    (UInt32.ofInt flags).toNat < 4096 := by
  obtain ⟨n, rfl⟩ := Int.eq_ofNat_of_zero_le low
  rw [ofInt_natCast, UInt32.toNat_ofNat']
  omega

theorem decode_or {a f : UInt32} (ha : a % 4096 = 0) (hf : f.toNat < 4096) :
    decode (a ||| f) = ⟨a, f⟩ := by
  rw [decode, frame_or ha hf, lowBits_or ha hf]

section

variable {m : Ram} {chunk directory : UInt32} {tables : Nat → UInt32}

theorem PagingCall.run_spec (space : AddressSpace m chunk directory tables) (c : PagingCall)
    (valid : c.Valid) :
    ∃ m', c.run m chunk = (0, m') ∧
      RangeMapped m m' chunk directory tables c.virt c.phy c.count c.flags := by
  have fit := valid.virt_fit
  cases c with
  | map virt phy flags =>
    have one := pagingMapRange_spec space 1 flags valid.virt_aligned valid.phy_aligned fit valid.phy_fit
    rw [pagingMapRange_one] at one
    exact one
  | mapRange virt phy count flags =>
    exact pagingMapRange_spec space count flags valid.virt_aligned valid.phy_aligned fit valid.phy_fit
  | mapTo virt phy phyEnd flags =>
    obtain ⟨end_aligned, ordered⟩ := valid.ordered
    have whole : 4096 * pagesBetween phy phyEnd = phyEnd.toNat - phy.toNat := by
      have h := aligned_toNat.mp end_aligned
      have phy_aligned : phy % 4096 = 0 := valid.phy_aligned
      have h' := aligned_toNat.mp phy_aligned
      unfold pagesBetween
      omega
    simp only [PagingCall.virt, count, whole] at fit
    exact pagingMapTo_spec space flags valid.virt_aligned valid.phy_aligned end_aligned ordered fit

/-- One call writes its window over the flat map. -/
theorem PagingCall.decode_run (space : AddressSpace m chunk directory tables) (c : PagingCall)
    (valid : c.Valid) :
    AddressSpace (c.run m chunk).2 chunk directory tables ∧
      (fun v => decode (walk (c.run m chunk).2 directory v)) =
        Overlay.write (fun v => decode (walk m directory v)) c.window := by
  obtain ⟨m', run, mapped⟩ := c.run_spec space valid
  rw [run]
  refine ⟨mapped.space, funext fun v => ?_⟩
  dsimp only
  rw [mapped.walk]
  by_cases inside : InWindow v c.virt c.count
  · rw [if_pos inside, decode_or (shifted_aligned valid.virt_aligned valid.phy_aligned)
      (flags_toNat valid.flags_low valid.flags_high)]
    exact (if_pos (decide_eq_true inside)).symm
  · rw [if_neg inside]
    exact (if_neg fun covers => inside (of_decide_eq_true covers)).symm

theorem runCalls_decode (space : AddressSpace m chunk directory tables) (calls : List PagingCall)
    (valid : ∀ c ∈ calls, c.Valid) :
    AddressSpace (runCalls m chunk calls) chunk directory tables ∧
      (fun v => decode (walk (runCalls m chunk calls) directory v)) =
        (calls.map PagingCall.window).foldl Overlay.write (fun v => decode (walk m directory v)) := by
  induction calls generalizing m with
  | nil => exact ⟨space, rfl⟩
  | cons c calls ih =>
    obtain ⟨first, one⟩ := c.decode_run space (valid c List.mem_cons_self)
    obtain ⟨rest, all⟩ := ih first fun c hc => valid c (List.mem_cons_of_mem _ hc)
    rw [List.map_cons, List.foldl_cons, ← one]
    exact ⟨rest, all⟩

end

/-- The mapping of `v` after `calls`: the last window over it, or itself. -/
def flatMapping (flags : UInt8) (calls : List PagingCall) (v : UInt32) : Mapping :=
  match Overlay.last (calls.map PagingCall.window) v with
  | some window => window.value v
  | none => ⟨frame v, flags.toUInt32⟩

variable {H : Type*} (A : Allocator H)

/-- **The two-level walk is the flat map.** After any valid calls on a new
chunk, every address has the frame and flags of the last window over it, and a
call with an unaligned address fails and writes nothing. -/
theorem walk_after_calls (h : H) (m : Ram) (flags : UInt8)
    (fresh : FreshBlocks A h pagingRequests 1026) (calls : List PagingCall)
    (valid : ∀ c ∈ calls, c.Valid) :
    let chunk := (pagingNew4gb A h m flags).1
    let m' := runCalls (pagingNew4gb A h m flags).2.2 chunk calls
    (∀ v, decode (walk m' (load32 m' chunk) v) = flatMapping flags calls v) ∧
    (∀ (virt phy : UInt32) (flags : Int), virt % 4096 ≠ 0 ∨ phy % 4096 ≠ 0 →
      (pagingMap m' chunk virt phy flags).1 < 0 ∧ (pagingMap m' chunk virt phy flags).2 = m') ∧
    (∀ (virt phy phyEnd : UInt32) (flags : Int),
      virt % 4096 ≠ 0 ∨ phy % 4096 ≠ 0 ∨ phyEnd % 4096 ≠ 0 →
      (pagingMapTo m' chunk virt phy phyEnd flags).1 < 0 ∧
        (pagingMapTo m' chunk virt phy phyEnd flags).2 = m') := by
  obtain ⟨m₁, run, built⟩ := pagingNew4gb_spec A fresh m flags
  rw [run]
  obtain ⟨space, all⟩ := runCalls_decode built.space calls valid
  dsimp only
  refine ⟨fun v => ?_, ?_, ?_⟩
  · have own : decode (walk m₁ (A.pointer h pagingRequests 0) v) = ⟨frame v, flags.toUInt32⟩ := by
      have low : flags.toUInt32.toNat < 4096 := by
        have h := flags.toNat_lt
        rw [UInt8.toNat_toUInt32]
        omega
      rw [built.walk, decode_or (frame_aligned v) low]
    have here := congrFun all v
    rw [Overlay.foldl_write, own] at here
    rw [space.chunk_entry, flatMapping]
    cases covered : Overlay.last (calls.map PagingCall.window) v with
    | none => rw [here, covered]; rfl
    | some window => rw [here, covered]; rfl
  · intro virt phy flags unaligned
    rw [pagingMap_unaligned _ _ _ _ _ unaligned]
    exact ⟨(by decide : -einvarg < 0), rfl⟩
  · intro virt phy phyEnd flags unaligned
    rw [pagingMapTo_unaligned _ _ _ _ _ _ unaligned]
    exact ⟨(by decide : -einvarg < 0), rfl⟩

theorem kernelHeap_paging (kernelHeap : Heap) (tableMem : Nat → UInt8) :
    FreshBlocks kernelAllocator (kheapInit kernelHeap tableMem) pagingRequests 1026 := by
  have total := kheapInit_total kernelHeap tableMem
  have fresh : FreshBlocks kernelAllocator (kheapInit kernelHeap tableMem) pagingRequests _ :=
    (kheapInit_packed kernelHeap tableMem).fresh fun i => by
      unfold pagingRequests
      split <;> decide
  exact ⟨fun i hi => fresh.aligned i (by omega),
    fun i hi j hj same => fresh.distinct i (by omega) j (by omega) same⟩

/-- On the kernel's heap: three pages over a table boundary, one of them mapped again. -/
theorem kernel_chunk_two_calls :
    let heap := kheapInit ⟨⟨fun _ => 0, 0⟩, 0⟩ fun _ => 0
    let chunk := (pagingNew4gb kernelAllocator heap (fun _ => 0) 5).1
    let calls : List PagingCall := [.mapRange 0x3ff000 0x5000 3 7, .map 0x400000 0x9000 3]
    let m' := runCalls (pagingNew4gb kernelAllocator heap (fun _ => 0) 5).2.2 chunk calls
    decode (walk m' (load32 m' chunk) 0x400123) = ⟨0x9000, 3⟩ ∧
      decode (walk m' (load32 m' chunk) 0x401fff) = ⟨0x7000, 7⟩ ∧
      decode (walk m' (load32 m' chunk) 0x402000) = ⟨0x402000, 5⟩ := by
  have all := (walk_after_calls kernelAllocator (kheapInit ⟨⟨fun _ => 0, 0⟩, 0⟩ fun _ => 0)
    (fun _ => 0) 5 (kernelHeap_paging _ _) [.mapRange 0x3ff000 0x5000 3 7, .map 0x400000 0x9000 3]
    (by
      intro c hc
      simp only [List.mem_cons, List.not_mem_nil, or_false] at hc
      rcases hc with rfl | rfl
      · exact ⟨by decide, by decide, by decide, by decide, by decide, by decide,
          (by decide : (0 : Int) ≤ 3)⟩
      · exact ⟨by decide, by decide, by decide, by decide, by decide, by decide, trivial⟩)).1
  exact ⟨(all _).trans (by decide), (all _).trans (by decide), (all _).trans (by decide)⟩

end PeachOs
