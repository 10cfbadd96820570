import Kthxvm.Boot.Gdt
import Kthxvm.Guest
import Kthxvm.Layout

/-! `setup_long_mode` of `regs.h`. -/
namespace Kthxvm.LongMode

open Layout Lib.ByteMemory Lib.WriteLog

def pde64Present : UInt64 := 0x1
def pde64Rw : UInt64 := 0x2
def pde64Ps : UInt64 := 0x80

def cr0Pe : UInt64 := 1
def cr0Mp : UInt64 := (1 : UInt64) <<< 1
def cr0Et : UInt64 := (1 : UInt64) <<< 4
def cr0Ne : UInt64 := (1 : UInt64) <<< 5
def cr0Wp : UInt64 := (1 : UInt64) <<< 16
def cr0Am : UInt64 := (1 : UInt64) <<< 18
def cr0Pg : UInt64 := (1 : UInt64) <<< 31

def cr4Pae : UInt64 := (1 : UInt64) <<< 5
def cr4Osfxsr : UInt64 := (1 : UInt64) <<< 9
def cr4Osxmmexcpt : UInt64 := (1 : UInt64) <<< 10

def eferSce : UInt64 := 1
def eferLme : UInt64 := (1 : UInt64) <<< 8
def eferLma : UInt64 := (1 : UInt64) <<< 10

structure DTable where
  base : UInt64
  limit : UInt16
deriving DecidableEq

structure Sregs where
  cs : Gdt.Segment
  ds : Gdt.Segment
  es : Gdt.Segment
  fs : Gdt.Segment
  gs : Gdt.Segment
  ss : Gdt.Segment
  tr : Gdt.Segment
  ldt : Gdt.Segment
  gdt : DTable
  idt : DTable
  cr0 : UInt64
  cr2 : UInt64
  cr3 : UInt64
  cr4 : UInt64
  cr8 : UInt64
  efer : UInt64
  apicBase : UInt64
  interruptBitmap : Vector UInt64 4
deriving DecidableEq

def nullSregs : Sregs :=
  let null := Gdt.segment 0 0
  ⟨null, null, null, null, null, null, null, null, ⟨0, 0⟩, ⟨0, 0⟩, 0, 0, 0, 0, 0, 0, 0,
    Vector.replicate 4 0⟩

def pml4Entry : UInt64 := pdpteStart ||| pde64Present ||| pde64Rw
def pdpteEntry : UInt64 := pdeStart ||| pde64Present ||| pde64Rw

/-- `pde[i]`; the sum binds more tightly than the disjunctions. -/
def pdeEntry (i : Nat) : UInt64 :=
  ((UInt64.ofNat i <<< 21) + pde64Present) ||| pde64Rw ||| pde64Ps

def pdeAddr (i : Nat) : UInt64 := pdeStart + UInt64.ofNat (8 * i)

def quad (v : UInt64) : List UInt8 := bytesOfNat 8 v.toNat

/-- The table as it lies in memory, of which `memcpy` takes as many bytes as it
has entries. -/
def gdtBytes : List UInt8 := (Gdt.table.toList.flatMap quad).take Gdt.table.size

def stores : Log :=
  (pml4Start, quad pml4Entry) :: (pdpteStart, quad pdpteEntry) ::
    (List.range 512).map (fun i => (pdeAddr i, quad (pdeEntry i))) ++
    [(bootGdtOffset, gdtBytes), (bootIdtOffset, List.replicate 8 0)]

/-- `setup_long_mode` for a processor whose registers were `sregs`. -/
def setupLongMode (g : Guest) (sregs : Sregs) : Except Fault (Guest × Sregs) := do
  let g ← g.writeAll stores
  let code := Gdt.segment 1 Gdt.table[1]
  let data := Gdt.segment 2 Gdt.table[2]
  let tss := Gdt.segment 3 Gdt.table[3]
  return (g, { sregs with
    cr0 := cr0Pe ||| cr0Mp ||| cr0Et ||| cr0Ne ||| cr0Wp ||| cr0Am ||| cr0Pg
    cr3 := pml4Start
    cr4 := cr4Pae ||| cr4Osfxsr ||| cr4Osxmmexcpt
    efer := eferLme ||| eferLma ||| eferSce
    gdt := ⟨bootGdtOffset, UInt16.ofNat (Gdt.table.size * 8 - 1)⟩
    idt := ⟨bootIdtOffset, 8 - 1⟩
    cs := code, ds := data, es := data, fs := data, gs := data, ss := data, tr := tss })

@[simp] theorem length_quad (v : UInt64) : (quad v).length = 8 := length_bytesOfNat 8 _

theorem length_gdtBytes : gdtBytes.length = 4 := by
  unfold gdtBytes
  rw [List.length_take, Gdt.table.toList.length_flatMap]
  simp only [length_quad]
  rfl

theorem pdeAddr_toNat {i : Nat} (hi : i < 512) : (pdeAddr i).toNat = 0xb000 + 8 * i := by
  have hstart : pdeStart.toNat = 0xb000 := rfl
  unfold pdeAddr
  rw [UInt64.toNat_add, UInt64.toNat_ofNat', hstart]
  omega

theorem mem_stores {w : UInt64 × List UInt8} (h : w ∈ stores) :
    w = (pml4Start, quad pml4Entry) ∨ w = (pdpteStart, quad pdpteEntry) ∨
      (∃ i < 512, w = (pdeAddr i, quad (pdeEntry i))) ∨
      w = (bootGdtOffset, gdtBytes) ∨ w = (bootIdtOffset, List.replicate 8 0) := by
  simp only [stores, List.cons_append, List.mem_cons, List.mem_append, List.mem_map,
    List.mem_range, List.not_mem_nil, or_false] at h
  rcases h with h | h | ⟨i, hi, h⟩ | h
  · exact Or.inl h
  · exact Or.inr (Or.inl h)
  · exact Or.inr (Or.inr (Or.inl ⟨i, hi, h.symm⟩))
  · exact Or.inr (Or.inr (Or.inr h))

theorem stores_within {w : UInt64 × List UInt8} (h : w ∈ stores) :
    0x500 ≤ w.1.toNat ∧ w.1.toNat + w.2.length ≤ 0x528 ∨
      0x9000 ≤ w.1.toNat ∧ w.1.toNat + w.2.length ≤ 0xc000 := by
  rcases mem_stores h with rfl | rfl | ⟨i, hi, rfl⟩ | rfl | rfl
  · right
    rw [length_quad]
    decide
  · right
    rw [length_quad]
    decide
  · right
    rw [length_quad, pdeAddr_toNat hi]
    omega
  · left
    rw [length_gdtBytes]
    decide
  · left
    rw [List.length_replicate]
    decide

theorem stores_covers {x : UInt64} (h : Covers stores x) :
    0x500 ≤ x.toNat ∧ x.toNat < 0x528 ∨ 0x9000 ≤ x.toNat ∧ x.toNat < 0xc000 := by
  obtain ⟨w, hw, hx⟩ := h
  have hw := stores_within hw
  rw [Span.mem_iff_toNat (by omega)] at hx
  omega

theorem load64_untouched (m : Memory) {a : UInt64} (hgdt : 0x504 ≤ a.toNat)
    (hidt : a.toNat + 8 ≤ 0x520 ∨ 0x528 ≤ a.toNat)
    (hpml4 : a.toNat + 8 ≤ 0x9000 ∨ 0x9008 ≤ a.toNat)
    (hpdpte : a.toNat + 8 ≤ 0xa000 ∨ 0xa008 ≤ a.toNat) (hpde : a.toNat + 8 ≤ 0xb000) :
    load64 (storeAll m stores) a = load64 m a := by
  have hagree : AgreeOn ⟨a, 8⟩ (storeAll m stores) m := by
    intro x hx
    apply storeAll_of_not_covers
    rintro ⟨w, hw, hxw⟩
    have haside : w.1.toNat + w.2.length ≤ a.toNat ∨ a.toNat + 8 ≤ w.1.toNat := by
      rcases mem_stores hw with rfl | rfl | ⟨i, hi, rfl⟩ | rfl | rfl
      · have hstart : pml4Start.toNat = 0x9000 := rfl
        simp only [length_quad]
        omega
      · have hstart : pdpteStart.toNat = 0xa000 := rfl
        simp only [length_quad]
        omega
      · simp only [length_quad, pdeAddr_toNat hi]
        omega
      · have hstart : bootGdtOffset.toNat = 0x500 := rfl
        simp only [length_gdtBytes]
        omega
      · have hstart : bootIdtOffset.toNat = 0x520 := rfl
        simp only [List.length_replicate]
        omega
    have hwithin := stores_within hw
    rw [Span.mem_iff_toNat (by omega)] at hx hxw
    omega
  exact hagree.load64_eq

theorem writeAll_stores {g : Guest} (hsize : 0xc000 ≤ g.size) :
    g.writeAll stores = .ok { g with bytes := storeAll g.bytes stores } := by
  refine Guest.writeAll_ok fun w hw => Or.inr ?_
  have hw := stores_within hw
  omega

structure Loaded (sregs : Sregs) : Prop where
  cr3 : sregs.cr3 = pml4Start
  gdt : sregs.gdt = ⟨bootGdtOffset, UInt16.ofNat (Gdt.table.size * 8 - 1)⟩
  code : sregs.cs = Gdt.segment 1 Gdt.table[1]
  data : ∀ s ∈ [sregs.ds, sregs.es, sregs.fs, sregs.gs, sregs.ss],
    s = Gdt.segment 2 Gdt.table[2]
  tss : sregs.tr = Gdt.segment 3 Gdt.table[3]

structure HasDescriptors (m : Memory) : Prop where
  code : load64 m (bootGdtOffset + 8) = Gdt.table[1]
  data : load64 m (bootGdtOffset + 16) = Gdt.table[2]
  tss : load64 m (bootGdtOffset + 24) = Gdt.table[3]

theorem setupLongMode_ok {g : Guest} (sregs : Sregs) (hsize : 0xc000 ≤ g.size) :
    ∃ sregs', setupLongMode g sregs =
      .ok ({ g with bytes := storeAll g.bytes stores }, sregs') ∧ Loaded sregs' := by
  unfold setupLongMode
  rw [writeAll_stores hsize]
  refine ⟨_, rfl, rfl, rfl, rfl, ?_, rfl⟩
  simp

theorem stores_aside : stores.Pairwise Aside := by
  have hpml4 : pml4Start.toNat = 0x9000 := rfl
  have hpdpte : pdpteStart.toNat = 0xa000 := rfl
  have hgdt : bootGdtOffset.toNat = 0x500 := rfl
  have hidt : bootIdtOffset.toNat = 0x520 := rfl
  have hpde : ((List.range 512).map fun i => (pdeAddr i, quad (pdeEntry i))).Pairwise Aside := by
    rw [List.pairwise_map]
    refine List.pairwise_lt_range.imp_of_mem fun hi hj hij => Or.inl ?_
    rw [List.mem_range] at hi hj
    simp only [length_quad, pdeAddr_toNat hi, pdeAddr_toNat hj]
    omega
  have htables : ∀ w ∈ (List.range 512).map fun i => (pdeAddr i, quad (pdeEntry i)),
      0xb000 ≤ w.1.toNat ∧ w.1.toNat + w.2.length ≤ 0xc000 := by
    intro w hw
    obtain ⟨i, hi, rfl⟩ := List.mem_map.mp hw
    rw [List.mem_range] at hi
    rw [pdeAddr_toNat hi, length_quad]
    omega
  have hdescriptors : ∀ w ∈ [(bootGdtOffset, gdtBytes),
      (bootIdtOffset, List.replicate 8 (0 : UInt8))],
      w.1.toNat + w.2.length ≤ 0x528 := by
    intro w hw
    simp only [List.mem_cons, List.not_mem_nil, or_false] at hw
    rcases hw with rfl | rfl
    · rw [length_gdtBytes]
      decide
    · rw [List.length_replicate]
      decide
  unfold stores
  rw [List.pairwise_append, List.pairwise_cons, List.pairwise_cons]
  refine ⟨⟨?_, ?_, hpde⟩, ?_, ?_⟩
  · intro w hw
    rcases List.mem_cons.mp hw with rfl | hw
    · left
      simp only [length_quad]
      omega
    · have hw := htables w hw
      left
      simp only [length_quad]
      omega
  · intro w hw
    have hw := htables w hw
    left
    simp only [length_quad]
    omega
  · rw [List.pairwise_pair]
    left
    simp only [length_gdtBytes, List.length_replicate]
    omega
  · intro w hw w' hw'
    have hw' := hdescriptors w' hw'
    right
    rcases List.mem_cons.mp hw with rfl | hw
    · simp only [length_quad]
      omega
    · rcases List.mem_cons.mp hw with rfl | hw
      · simp only [length_quad]
        omega
      · have hw := htables w hw
        omega

theorem load64_entry (m : Memory) {addr entry : UInt64} (h : (addr, quad entry) ∈ stores) :
    load64 (storeAll m stores) addr = entry := by
  have hlen : (addr, quad entry).2.length ≤ 2 ^ 64 := by
    rw [length_quad]
    norm_num
  have hload := load_storeAll_of_mem m stores_aside h hlen
  rw [length_quad] at hload
  rw [load64_of_load hload, UInt64.ofNat_toNat]

theorem load64_pml4 (m : Memory) : load64 (storeAll m stores) pml4Start = pml4Entry :=
  load64_entry m List.mem_cons_self

theorem load64_pdpte (m : Memory) : load64 (storeAll m stores) pdpteStart = pdpteEntry :=
  load64_entry m (List.mem_cons_of_mem _ List.mem_cons_self)

theorem load64_pde (m : Memory) {i : Nat} (hi : i < 512) :
    load64 (storeAll m stores) (pdeAddr i) = pdeEntry i := by
  apply load64_entry
  unfold stores
  apply List.mem_append_left
  apply List.mem_cons_of_mem
  apply List.mem_cons_of_mem
  exact List.mem_map.mpr ⟨i, List.mem_range.mpr hi, rfl⟩

end Kthxvm.LongMode
