import Kthxvm.Boot.GdtEncoding
import Kthxvm.Boot.LongMode

/-! The segment registers that `setup_long_mode` loads and the descriptors that it leaves
in memory. -/
namespace Kthxvm.LongMode

open Layout Lib.ByteMemory Lib.WriteLog

def Sregs.segments (sregs : Sregs) : List Gdt.Segment :=
  [sregs.cs, sregs.ds, sregs.es, sregs.fs, sregs.gs, sregs.ss, sregs.tr]

def descriptor (m : Memory) (gdt : DTable) (selector : UInt16) : UInt64 :=
  load64 m (gdt.base + selector.toUInt64)

/-- A register that is loaded again from its selector keeps its value. -/
structure Agrees (m : Memory) (gdt : DTable) (s : Gdt.Segment) : Prop where
  inside : s.selector.toNat + 7 ≤ gdt.limit.toNat
  reload : Gdt.segment (s.selector / 8).toUInt8 (descriptor m gdt s.selector) = s

theorem agrees_segment_iff {m : Memory} {i : UInt8} {entry : UInt64} (hi : i.toNat < 4)
    {a : UInt64} (ha : (i.toUInt16 * 8).toUInt64 = a) :
    Agrees m ⟨bootGdtOffset, UInt16.ofNat (Gdt.table.size * 8 - 1)⟩ (Gdt.segment i entry) ↔
      load64 m (bootGdtOffset + a) = entry := by
  rw [← ha]
  have hindex : (i.toUInt16 * 8 / 8).toUInt8 = i := by
    have height : (8 : UInt16).toNat = 8 := rfl
    rw [← UInt8.toNat_inj, UInt16.toNat_toUInt8, UInt16.toNat_div, UInt16.toNat_mul,
      UInt8.toNat_toUInt16, height]
    omega
  constructor
  · intro h
    have hreload := h.reload
    change Gdt.segment (i.toUInt16 * 8 / 8).toUInt8 _ = _ at hreload
    rw [hindex] at hreload
    exact Gdt.segment_inj hreload
  · intro h
    constructor
    case inside =>
      have height : (8 : UInt16).toNat = 8 := rfl
      have hlimit : (UInt16.ofNat (Gdt.table.size * 8 - 1)).toNat = 31 := rfl
      have hselector : (Gdt.segment i entry).selector.toNat = i.toNat * 8 := by
        change (i.toUInt16 * 8).toNat = _
        rw [UInt16.toNat_mul, UInt8.toNat_toUInt16, height]
        omega
      rw [hselector, hlimit]
      omega
    case reload =>
      change Gdt.segment (i.toUInt16 * 8 / 8).toUInt8 (load64 m _) = _
      rw [hindex]
      exact congrArg (Gdt.segment i) h

theorem load64_descriptor (m : Memory) {k : Nat} (hlow : 4 ≤ k) (hhigh : k ≤ 24) :
    load64 (storeAll m stores) (bootGdtOffset + UInt64.ofNat k) =
      load64 m (bootGdtOffset + UInt64.ofNat k) := by
  have hstart : bootGdtOffset.toNat = 0x500 := rfl
  have haddr : (bootGdtOffset + UInt64.ofNat k).toNat = 0x500 + k := by
    rw [UInt64.toNat_add, UInt64.toNat_ofNat', hstart]
    omega
  exact load64_untouched m (by omega) (by omega) (by omega) (by omega) (by omega)

theorem hasDescriptors_stores (m : Memory) :
    HasDescriptors (storeAll m stores) ↔ HasDescriptors m := by
  have hcode : load64 (storeAll m stores) (bootGdtOffset + 8) = load64 m (bootGdtOffset + 8) :=
    load64_descriptor m (k := 8) (by decide) (by decide)
  have hdata : load64 (storeAll m stores) (bootGdtOffset + 16) = load64 m (bootGdtOffset + 16) :=
    load64_descriptor m (k := 16) (by decide) (by decide)
  have htss : load64 (storeAll m stores) (bootGdtOffset + 24) = load64 m (bootGdtOffset + 24) :=
    load64_descriptor m (k := 24) (by decide) (by decide)
  constructor
  · rintro ⟨hc, hd, ht⟩
    exact ⟨hcode ▸ hc, hdata ▸ hd, htss ▸ ht⟩
  · rintro ⟨hc, hd, ht⟩
    exact ⟨hcode.trans hc, hdata.trans hd, htss.trans ht⟩

theorem segments_agree {m : Memory} {sregs : Sregs} (h : Loaded sregs) :
    (∀ s ∈ sregs.segments, Agrees m sregs.gdt s) ↔ HasDescriptors m := by
  obtain ⟨-, hgdt, hcode, hdata, htss⟩ := h
  have hds := hdata sregs.ds List.mem_cons_self
  rw [hgdt]
  constructor
  · intro hagrees
    constructor
    case code =>
      have hcs := hagrees sregs.cs (by simp [Sregs.segments])
      rw [hcode] at hcs
      exact (agrees_segment_iff (i := 1) (by decide) rfl).mp hcs
    case data =>
      have hds' := hagrees sregs.ds (by simp [Sregs.segments])
      rw [hds] at hds'
      exact (agrees_segment_iff (i := 2) (by decide) rfl).mp hds'
    case tss =>
      have htr := hagrees sregs.tr (by simp [Sregs.segments])
      rw [htss] at htr
      exact (agrees_segment_iff (i := 3) (by decide) rfl).mp htr
  · intro hmemory s hs
    have hsplit : s = sregs.cs ∨
        s ∈ [sregs.ds, sregs.es, sregs.fs, sregs.gs, sregs.ss] ∨ s = sregs.tr := by
      simpa [Sregs.segments, or_assoc] using hs
    rcases hsplit with rfl | hs | rfl
    · rw [hcode]
      exact (agrees_segment_iff (i := 1) (by decide) rfl).mpr hmemory.code
    · rw [hdata s hs]
      exact (agrees_segment_iff (i := 2) (by decide) rfl).mpr hmemory.data
    · rw [htss]
      exact (agrees_segment_iff (i := 3) (by decide) rfl).mpr hmemory.tss

theorem setup_agrees {g g' : Guest} {sregs sregs' : Sregs} (hsize : 0xc000 ≤ g.size)
    (hsetup : setupLongMode g sregs = .ok (g', sregs')) :
    (∀ s ∈ sregs'.segments, Agrees g'.bytes sregs'.gdt s) ↔ HasDescriptors g.bytes := by
  obtain ⟨loaded, hok, hloaded⟩ := setupLongMode_ok sregs hsize
  rw [hok] at hsetup
  obtain ⟨rfl, rfl⟩ := Prod.mk.inj (Except.ok.inj hsetup)
  dsimp only
  rw [segments_agree hloaded, hasDescriptors_stores]

/-- A guest can reload its segments exactly if the descriptors that are not copied were in
memory before. -/
theorem segments_agree_iff (g : Guest) (sregs : Sregs) (hsize : 0xc000 ≤ g.size) :
    (∃ g' sregs', setupLongMode g sregs = .ok (g', sregs') ∧
      ∀ s ∈ sregs'.segments, Agrees g'.bytes sregs'.gdt s) ↔ HasDescriptors g.bytes := by
  constructor
  · rintro ⟨g', sregs', hsetup, hagrees⟩
    exact (setup_agrees hsize hsetup).mp hagrees
  · intro hmemory
    obtain ⟨sregs', hok, -⟩ := setupLongMode_ok sregs hsize
    exact ⟨_, sregs', hok, (setup_agrees hsize hok).mpr hmemory⟩

def warmGuest : Guest where
  bytes := store (fun _ => 0) bootGdtOffset (Gdt.table.toList.flatMap quad)
  size := 0x100000

theorem warm_segments_agree : ∃ g' sregs', setupLongMode warmGuest nullSregs = .ok (g', sregs') ∧
    ∀ s ∈ sregs'.segments, Agrees g'.bytes sregs'.gdt s :=
  (segments_agree_iff warmGuest nullSregs (by decide)).mpr ⟨by decide, by decide, by decide⟩

/-- In memory that was zero the descriptors are null. -/
theorem fresh_segments_disagree : ¬ ∀ (g : Guest) (sregs : Sregs), 0xc000 ≤ g.size →
    ∃ g' sregs', setupLongMode g sregs = .ok (g', sregs') ∧
      ∀ s ∈ sregs'.segments, Agrees g'.bytes sregs'.gdt s := by
  intro h
  have hsize : 0xc000 ≤ (⟨fun _ => 0, 0x100000⟩ : Guest).size := by decide
  obtain ⟨g', sregs', hsetup, hagrees⟩ := h ⟨fun _ => 0, 0x100000⟩ nullSregs hsize
  have hcode := ((setup_agrees hsize hsetup).mp hagrees).code
  exact absurd hcode (by decide)

end Kthxvm.LongMode
