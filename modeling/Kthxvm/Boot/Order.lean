import Kthxvm.Boot.E820Reader
import Kthxvm.Boot.ElfImage
import Kthxvm.Boot.LongMode
import Kthxvm.Boot.MpReader

/-! The writers of guest memory that `vmm::start` calls before the guest runs. They
share low memory by convention; no order among them is needed. -/
namespace Kthxvm.Boot

open Layout Lib.ByteMemory Lib.WriteLog

inductive Step where
  | elfLoad
  | longMode
  | bootparams
  | mptable
deriving DecidableEq

/-- What the steps are given; the kernel is the contents of its file. -/
structure Setup where
  kernel : List UInt8
  cmdline : List UInt8
  memSize : UInt64
  ncpus : UInt32
  sregs : LongMode.Sregs

def startOrder : List Step := [.elfLoad, .longMode, .bootparams, .mptable]

namespace Setup

def step (s : Setup) (g : Guest) : Step → Except Fault Guest
  | .elfLoad => do
    let result ← Elf.load g (some { contents := s.kernel })
    return result.2
  | .longMode => do
    let result ← LongMode.setupLongMode g s.sregs
    return result.1
  | .bootparams => BootParams.setupBootparams g s.cmdline
  | .mptable => MpTable.setupMptable g s.ncpus

/-- The memory that `mmap` returns. -/
def zeroed (s : Setup) : Guest := ⟨fun _ => 0, s.memSize.toNat⟩

def boot (s : Setup) (order : List Step) : Except Fault Guest := order.foldlM s.step s.zeroed

structure Fits (s : Setup) : Prop where
  file : s.kernel.length < 2 ^ 63
  loads : ∃ entry g, Elf.load s.zeroed (some { contents := s.kernel }) = .ok (.returned entry, g)
  segments : ∀ p ∈ Elf.loads s.kernel,
    himemStart.toNat ≤ p.paddr ∧ p.paddr + p.memsz ≤ s.memSize.toNat
  noNul : 0 ∉ s.cmdline
  cmdline_lt : s.cmdline.length < cmdlineMaxSize.toNat
  memSize_ge : 2 <<< 20 ≤ s.memSize.toNat
  image_le : mptableStart.toNat + (MpTable.image s.ncpus).length ≤ 0xA0000

def CString (m : Memory) (addr : UInt64) (s : List UInt8) : Prop :=
  load m addr s.length = s ∧ 0 ∉ s ∧ m (addr + UInt64.ofNat s.length) = 0

/-- Memory holds what a step alone puts there. -/
def Kept (s : Setup) (m : Memory) (step : Step) (span : Span) : Prop :=
  ∃ g, s.step s.zeroed step = .ok g ∧ AgreeOn span g.bytes m

/-- Everything that was written for the guest to find is there, and is what the kernel file,
the command line, the size of memory and the number of processors say. -/
structure ReadsBack (s : Setup) (m : Memory) : Prop where
  kept : ∀ p ∈ Elf.loads s.kernel, s.Kept m .elfLoad ⟨UInt64.ofNat p.paddr, p.memsz⟩
  kernel : ∀ x : UInt64, himemStart ≤ x → m x = Elf.byteAt s.kernel x
  segments : Elf.WellFormed s.kernel s.memSize.toNat → ∀ p ∈ Elf.loads s.kernel,
    load m (UInt64.ofNat p.paddr) p.memsz = Elf.segmentBytes s.kernel p
  pages : s.Kept m .longMode ⟨pml4Start, 3 * 4096⟩
  pml4 : load64 m pml4Start = LongMode.pml4Entry
  pdpte : load64 m pdpteStart = LongMode.pdpteEntry
  pde : ∀ i < 512, load64 m (LongMode.pdeAddr i) = LongMode.pdeEntry i
  bootParams : s.Kept m .bootparams ⟨zeroPageStart, BootParams.bootParamsSize⟩
  header : BootParams.Header m
  e820 : BootParams.readE820 m zeroPageStart = MemoryMap.e820Table s.memSize
  cmdline : CString m (load32 m BootParams.cmdLinePtr).toUInt64 s.cmdline
  cmdline_size : (load32 m BootParams.cmdlineSize).toNat = s.cmdline.length
  image : load m mptableStart (MpTable.image s.ncpus).length = MpTable.image s.ncpus
  processors : ∃ entries, MpTable.decode m = some entries ∧
    MpTable.Describes entries s.ncpus.toNat

end Setup

def Step.Owns (x : Nat) : Step → Prop
  | .elfLoad => 0x100000 ≤ x
  | .longMode => 0x500 ≤ x ∧ x < 0x528 ∨ 0x9000 ≤ x ∧ x < 0xc000
  | .bootparams => 0x7000 ≤ x ∧ x < 0x8000 ∨ 0x20000 ≤ x ∧ x < 0x30000
  | .mptable => 0x9fc00 ≤ x ∧ x < 0xA0000

theorem Step.owns_unique {x : Nat} {step step' : Step} (h : step.Owns x) (h' : step'.Owns x) :
    step = step' := by
  cases step <;> cases step' <;> simp only [Step.Owns, reduceCtorEq] at h h' ⊢ <;> omega

/-- Each step stores one log, whatever memory it finds, and only where it owns it. -/
structure Logged (s : Setup) (log : Step → Log) : Prop where
  step_eq : ∀ step m, s.step ⟨m, s.memSize.toNat⟩ step =
    .ok ⟨storeAll m (log step), s.memSize.toNat⟩
  owns : ∀ {step x}, Covers (log step) x → step.Owns x.toNat

theorem Setup.Fits.room {s : Setup} (h : s.Fits) :
    ∀ p ∈ Elf.loads s.kernel, p.paddr + p.memsz ≤ 2 ^ 64 := by
  intro p hp
  have hend := (h.segments p hp).2
  have hmax := s.memSize.toNat_lt
  omega

def kernelLog (contents : List UInt8) : Log :=
  (Elf.placed contents).map (Elf.stored contents)

theorem Setup.Fits.logged {s : Setup} (h : s.Fits) : ∃ log, Logged s log ∧
    log .elfLoad = kernelLog s.kernel ∧ log .longMode = LongMode.stores ∧
    log .bootparams = BootParams.stores s.memSize s.cmdline ∧
    log .mptable = [(mptableStart, MpTable.image s.ncpus)] := by
  have hmem : 0x200000 ≤ s.memSize.toNat := h.memSize_ge
  have hmax : s.memSize.toNat < 2 ^ 64 := s.memSize.toNat_lt
  have hline : s.cmdline.length < 0x10000 := h.cmdline_lt
  have himage : 0x9fc00 + (MpTable.image s.ncpus).length ≤ 0xA0000 := h.image_le
  have hstart : mptableStart.toNat = 0x9fc00 := rfl
  obtain ⟨entry, g, hload⟩ := h.loads
  refine ⟨fun
    | .elfLoad => kernelLog s.kernel
    | .longMode => LongMode.stores
    | .bootparams => BootParams.stores s.memSize s.cmdline
    | .mptable => [(mptableStart, MpTable.image s.ncpus)], ⟨?_, ?_⟩, rfl, rfl, rfl, rfl⟩
  · intro step m
    cases step with
    | elfLoad => exact bind_eq_ok.mpr ⟨_, Elf.load_stores h.file hload m, rfl⟩
    | longMode =>
      have hsize : 0xc000 ≤ s.memSize.toNat := by omega
      have hstores := LongMode.writeAll_stores (g := ⟨m, s.memSize.toNat⟩) hsize
      exact bind_eq_ok.mpr ⟨_, bind_eq_ok.mpr ⟨_, hstores, rfl⟩, rfl⟩
    | bootparams =>
      have hpage : 0x8000 ≤ s.memSize.toNat := by omega
      have hend : 0x20000 + s.cmdline.length ≤ s.memSize.toNat := by omega
      have hparams := BootParams.setupBootparams_ok (g := ⟨m, s.memSize.toNat⟩) hpage hend hmax.le
      rw [UInt64.ofNat_toNat] at hparams
      exact hparams
    | mptable =>
      have hbuffer : (MpTable.image s.ncpus).length ≤ MpTable.mptableMaxSize :=
        le_trans (by omega) (show 0x400 ≤ MpTable.mptableMaxSize by decide)
      have hend : mptableStart.toNat + (MpTable.image s.ncpus).length ≤ s.memSize.toNat := by omega
      have hstep := MpTable.setupMptable_ok (g := ⟨m, s.memSize.toNat⟩) hbuffer hend
      dsimp only [Setup.step]
      rw [hstep, storeAll_cons, storeAll_nil]
  · intro step x hx
    cases step with
    | elfLoad =>
      obtain ⟨p, hp, hle, -⟩ := Elf.covers_placed h.room hx
      exact (h.segments p hp).1.trans hle
    | longMode => exact LongMode.stores_covers hx
    | bootparams =>
      have hx := BootParams.stores_covers (by omega) hx
      unfold Step.Owns
      omega
    | mptable =>
      obtain ⟨w, hw, hx⟩ := hx
      rw [List.mem_singleton.mp hw] at hx
      rw [Span.mem_iff_toNat (by dsimp only; omega)] at hx
      unfold Step.Owns
      dsimp only at hx
      omega

namespace Logged

variable {s : Setup} {log : Step → Log} (h : Logged s log)

include h

theorem pairwise {order : List Step} (hnodup : order.Nodup) :
    (order.map log).Pairwise Log.Apart := by
  rw [List.pairwise_map]
  refine hnodup.imp fun hne x hx hx' => hne ?_
  exact Step.owns_unique (h.owns hx) (h.owns hx')

theorem boot_eq (order : List Step) (m : Memory) :
    order.foldlM s.step ⟨m, s.memSize.toNat⟩ =
      .ok ⟨storeAll m (order.map log).flatten, s.memSize.toNat⟩ := by
  induction order generalizing m with
  | nil => rfl
  | cons step order ih =>
    rw [List.foldlM_cons, h.step_eq, List.map_cons, List.flatten_cons, storeAll_append]
    exact ih _

/-- In its own addresses memory holds what a step stores when it runs alone. -/
theorem final_eq {order : List Step} (hnodup : order.Nodup) {step : Step} (hstep : step ∈ order)
    {x : UInt64} (hx : step.Owns x.toNat) (m : Memory) :
    storeAll m (order.map log).flatten x = storeAll m (log step) x := by
  by_cases hcovers : Covers (log step) x
  · exact storeAll_flatten_of_mem (h.pairwise hnodup) (List.mem_map_of_mem hstep) hcovers m m
  · rw [storeAll_of_not_covers m hcovers]
    apply storeAll_of_not_covers
    rw [covers_flatten]
    rintro ⟨log', hlog', hx'⟩
    obtain ⟨step', -, rfl⟩ := List.mem_map.mp hlog'
    rw [Step.owns_unique hx (h.owns hx')] at hcovers
    exact hcovers hx'

def final (_ : Logged s log) : Memory := storeAll s.zeroed.bytes (startOrder.map log).flatten

theorem final_agrees (step : Step) {a : UInt64} {n : Nat} (hn : a.toNat + n ≤ 2 ^ 64)
    (howns : ∀ x, a.toNat ≤ x → x < a.toNat + n → step.Owns x) :
    AgreeOn ⟨a, n⟩ h.final (storeAll s.zeroed.bytes (log step)) := by
  intro x hx
  rw [Span.mem_iff_toNat hn] at hx
  have hstep : step ∈ startOrder := by cases step <;> decide
  exact h.final_eq (by decide) hstep (howns x.toNat hx.1 hx.2) _

theorem kept (step : Step) {a : UInt64} {n : Nat} (hn : a.toNat + n ≤ 2 ^ 64)
    (howns : ∀ x, a.toNat ≤ x → x < a.toNat + n → step.Owns x) :
    s.Kept h.final step ⟨a, n⟩ :=
  ⟨_, h.step_eq step _, (h.final_agrees step hn howns).symm⟩

end Logged

section Tables

variable {s : Setup} {log : Step → Log} (h : Logged s log)
  (hlong : log .longMode = LongMode.stores)

include hlong

theorem page_entry {a : UInt64} (hlow : 0x9000 ≤ a.toNat) (hhigh : a.toNat + 8 ≤ 0xc000) :
    load64 h.final a = load64 (storeAll s.zeroed.bytes LongMode.stores) a := by
  rw [← hlong]
  refine AgreeOn.load64_eq (h.final_agrees .longMode (by omega) fun x hx hlt => ?_)
  right
  omega

theorem final_pml4 : load64 h.final pml4Start = LongMode.pml4Entry := by
  rw [page_entry h hlong (by decide) (by decide), LongMode.load64_pml4]

theorem final_pdpte : load64 h.final pdpteStart = LongMode.pdpteEntry := by
  rw [page_entry h hlong (by decide) (by decide), LongMode.load64_pdpte]

theorem final_pde {i : Nat} (hi : i < 512) :
    load64 h.final (LongMode.pdeAddr i) = LongMode.pdeEntry i := by
  have haddr := LongMode.pdeAddr_toNat hi
  rw [page_entry h hlong (by omega) (by omega), LongMode.load64_pde _ hi]

end Tables

section ZeroPage

variable {s : Setup} (hfits : s.Fits) {log : Step → Log} (h : Logged s log)
  (hparams : log .bootparams = BootParams.stores s.memSize s.cmdline)

include hparams

theorem final_zeroPage : AgreeOn ⟨zeroPageStart, BootParams.bootParamsSize⟩ h.final
    (storeAll s.zeroed.bytes (BootParams.stores s.memSize s.cmdline)) := by
  have hpage : zeroPageStart.toNat = 0x7000 := rfl
  have hbytes : BootParams.bootParamsSize = 4096 := rfl
  rw [← hparams]
  refine h.final_agrees .bootparams (by decide) fun x hx hlt => ?_
  left
  omega

theorem final_header : BootParams.Header h.final :=
  (BootParams.header_stores _ _ _).congr (final_zeroPage h hparams).symm

theorem final_cmdLinePtr : load32 h.final BootParams.cmdLinePtr = cmdlineStart.toUInt32 := by
  have hfield : AgreeOn ⟨BootParams.cmdLinePtr, 4⟩ h.final _ :=
    (final_zeroPage h hparams).mono (Span.within_of_offset (by decide))
  rw [hfield.load32_eq, BootParams.load_cmdLinePtr]

theorem final_cmdlineSize :
    load32 h.final BootParams.cmdlineSize = UInt32.ofNat s.cmdline.length := by
  have hfield : AgreeOn ⟨BootParams.cmdlineSize, 4⟩ h.final _ :=
    (final_zeroPage h hparams).mono (Span.within_of_offset (by decide))
  rw [hfield.load32_eq, BootParams.load_cmdlineSize]

include hfits

/-- Nobody stores the terminator: the byte after the string is one of those the
memory started with. -/
theorem final_cmdline : Setup.CString h.final cmdlineStart s.cmdline := by
  have hline : s.cmdline.length < 0x10000 := hfits.cmdline_lt
  have hstart : cmdlineStart.toNat = 0x20000 := rfl
  have hagree : AgreeOn ⟨cmdlineStart, s.cmdline.length + 1⟩ h.final
      (storeAll s.zeroed.bytes (log .bootparams)) := by
    refine h.final_agrees .bootparams (by omega) fun x hx hlt => ?_
    right
    omega
  rw [hparams] at hagree
  have hend : (cmdlineStart + UInt64.ofNat s.cmdline.length).toNat =
      0x20000 + s.cmdline.length := by
    rw [UInt64.toNat_add, UInt64.toNat_ofNat', hstart]
    omega
  refine ⟨?_, hfits.noNul, ?_⟩
  · have hstring := hagree.mono (Span.within_of_le (Nat.le_succ s.cmdline.length))
    rw [hstring.load_eq (by omega)]
    exact BootParams.load_cmdline _ _ _ (by omega)
  · have hmem := Span.mem_offset (a := cmdlineStart) (Nat.lt_succ_self s.cmdline.length) (by omega)
    rw [hagree _ hmem]
    apply storeAll_of_not_covers
    intro hcovers
    have hcovers := BootParams.stores_covers (by omega) hcovers
    omega

theorem final_e820 :
    BootParams.readE820 h.final zeroPageStart = MemoryMap.e820Table s.memSize := by
  have hline : s.cmdline.length < 0x10000 := hfits.cmdline_lt
  have hshort := BootParams.length_e820Table s.memSize
  exact BootParams.readE820_of_agree (final_zeroPage h hparams)
    (BootParams.readE820_stores s.zeroed.bytes s.memSize s.cmdline (by omega)) (by omega)

end ZeroPage

theorem final_image {s : Setup} (hfits : s.Fits) {log : Step → Log} (h : Logged s log)
    (hmp : log .mptable = [(mptableStart, MpTable.image s.ncpus)]) :
    load h.final mptableStart (MpTable.image s.ncpus).length = MpTable.image s.ncpus := by
  have himage : 0x9fc00 + (MpTable.image s.ncpus).length ≤ 0xA0000 := hfits.image_le
  have hstart : mptableStart.toNat = 0x9fc00 := rfl
  have hagree : AgreeOn ⟨mptableStart, (MpTable.image s.ncpus).length⟩ h.final
      (storeAll s.zeroed.bytes (log .mptable)) := by
    refine h.final_agrees .mptable (by omega) fun x hx hlt => ?_
    unfold Step.Owns
    omega
  rw [hmp] at hagree
  have hlen : (MpTable.image s.ncpus).length ≤ 2 ^ 64 := by omega
  rw [hagree.load_eq hlen, storeAll_cons, storeAll_nil]
  exact load_store _ _ _ hlen

theorem final_processors {s : Setup} (hfits : s.Fits) {m : Memory}
    (himage : load m mptableStart (MpTable.image s.ncpus).length = MpTable.image s.ncpus) :
    ∃ entries, MpTable.decode m = some entries ∧ MpTable.Describes entries s.ncpus.toNat := by
  have hroom : 0x9fc00 + (MpTable.image s.ncpus).length ≤ 0xA0000 := hfits.image_le
  have hfew : s.ncpus.toNat ≤ 46 := by
    rw [MpTable.length_image] at hroom
    unfold MpTable.alignKernel at hroom
    omega
  have hcopied : m = MpTable.copied m s.ncpus := by
    unfold MpTable.copied
    conv_rhs => rw [← himage]
    exact (store_load _ _ _).symm
  rw [hcopied]
  exact MpTable.decode_copied m hfew

section Kernel

variable {s : Setup} (hfits : s.Fits) {log : Step → Log} (h : Logged s log)
  (hkernel : log .elfLoad = kernelLog s.kernel)

include hfits hkernel

theorem final_byteAt {x : UInt64} (hx : himemStart ≤ x) : h.final x = Elf.byteAt s.kernel x := by
  have howns : Step.elfLoad.Owns x.toNat := hx
  have hfinal : h.final x = storeAll s.zeroed.bytes (log .elfLoad) x :=
    h.final_eq (by decide) (by decide) howns _
  rw [hfinal, hkernel]
  exact Elf.storeAll_placed hfits.room rfl

theorem final_segment (hordered : Elf.WellFormed s.kernel s.memSize.toNat) {p : Elf.ProgramHeader}
    (hp : p ∈ Elf.loads s.kernel) :
    load h.final (UInt64.ofNat p.paddr) p.memsz = Elf.segmentBytes s.kernel p := by
  have hlt := s.memSize.toNat_lt
  obtain ⟨hhigh, hroom⟩ := hfits.segments p hp
  have hpos := hordered.sizes p hp
  have hlow : himemStart.toNat = 0x100000 := rfl
  have hpaddr : (UInt64.ofNat p.paddr).toNat = p.paddr :=
    (UInt64.toNat_ofNat' ..).trans (Nat.mod_eq_of_lt (by omega))
  have hagree : AgreeOn ⟨UInt64.ofNat p.paddr, p.memsz⟩ h.final
      (storeAll s.zeroed.bytes (log .elfLoad)) := by
    refine h.final_agrees .elfLoad (by rw [hpaddr]; omega) fun x hx _ => ?_
    unfold Step.Owns
    omega
  rw [hagree.load_eq (by omega), hkernel, kernelLog, hordered.placed_eq hfits.file]
  have hloaded := hordered.loaded hlt.le (m := s.zeroed.bytes) fun _ _ => rfl
  exact hloaded.load_segment hp (hordered.present p hp) hpos.2

end Kernel

theorem Setup.Fits.readsBack {s : Setup} (hfits : s.Fits) {log : Step → Log} (h : Logged s log)
    (hkernel : log .elfLoad = kernelLog s.kernel) (hlong : log .longMode = LongMode.stores)
    (hparams : log .bootparams = BootParams.stores s.memSize s.cmdline)
    (hmp : log .mptable = [(mptableStart, MpTable.image s.ncpus)]) : s.ReadsBack h.final := by
  constructor
  case kept =>
    intro p hp
    obtain ⟨hhigh, hroom⟩ := hfits.segments p hp
    have hlow : himemStart.toNat = 0x100000 := rfl
    have hmax := s.memSize.toNat_lt
    rcases Nat.eq_zero_or_pos p.memsz with hzero | hpos
    · rw [hzero]
      exact ⟨_, h.step_eq .elfLoad _, fun x hx => absurd hx (Nat.not_lt_zero _)⟩
    · have hpaddr : (UInt64.ofNat p.paddr).toNat = p.paddr :=
        (UInt64.toNat_ofNat' ..).trans (Nat.mod_eq_of_lt (by omega))
      refine h.kept .elfLoad (by omega) fun x hx _ => ?_
      unfold Step.Owns
      omega
  case kernel => exact fun x hx => final_byteAt hfits h hkernel hx
  case segments => exact fun hordered p hp => final_segment hfits h hkernel hordered hp
  case pages =>
    have hstart : pml4Start.toNat = 0x9000 := rfl
    refine h.kept .longMode (by decide) fun x hx hlt => ?_
    right
    omega
  case pml4 => exact final_pml4 h hlong
  case pdpte => exact final_pdpte h hlong
  case pde => exact fun i hi => final_pde h hlong hi
  case bootParams =>
    have hstart : zeroPageStart.toNat = 0x7000 := rfl
    have hpage : BootParams.bootParamsSize = 4096 := rfl
    refine h.kept .bootparams (by decide) fun x hx hlt => ?_
    left
    omega
  case header => exact final_header h hparams
  case e820 => exact final_e820 hfits h hparams
  case cmdline =>
    rw [final_cmdLinePtr h hparams]
    exact final_cmdline hfits h hparams
  case cmdline_size =>
    have hline : s.cmdline.length < 0x10000 := hfits.cmdline_lt
    rw [final_cmdlineSize h hparams, UInt32.toNat_ofNat']
    omega
  case image => exact final_image hfits h hmp
  case processors => exact final_processors hfits (final_image hfits h hmp)

/-- The boot structures do not touch each other: every order of the steps leaves
the same memory, and everything reads back from it. -/
theorem boot_in_every_order (s : Setup) (hfits : s.Fits) :
    ∃ m : Memory, (∀ order : List Step, order.Perm startOrder →
      s.boot order = .ok ⟨m, s.memSize.toNat⟩) ∧ s.ReadsBack m := by
  obtain ⟨log, h, hkernel, hlong, hparams, hmp⟩ := hfits.logged
  refine ⟨h.final, fun order horder => ?_, hfits.readsBack h hkernel hlong hparams hmp⟩
  have hstart : startOrder.Nodup := by decide
  have hnodup : order.Nodup := horder.nodup_iff.mpr hstart
  have hpair := h.pairwise hnodup
  have hmemory : storeAll s.zeroed.bytes (order.map log).flatten = h.final :=
    storeAll_perm (horder.map log) hpair _
  rw [← hmemory]
  exact h.boot_eq order _

def noSegment : Gdt.Segment := Gdt.segment 0 0

def smallMachine : Setup where
  kernel := Elf.haltFile
  cmdline := [0x61]
  memSize := 0x200000
  ncpus := 1
  sregs := ⟨noSegment, noSegment, noSegment, noSegment, noSegment, noSegment, noSegment, noSegment,
    ⟨0, 0⟩, ⟨0, 0⟩, 0, 0, 0, 0, 0, 0, 0, #v[0, 0, 0, 0]⟩

set_option maxRecDepth 4000 in
theorem smallMachine_loads : ∃ entry g, Elf.load smallMachine.zeroed
    (some { contents := smallMachine.kernel }) = .ok (.returned entry, g) :=
  ⟨_, _, rfl⟩

theorem smallMachine_segments : ∀ p ∈ Elf.loads smallMachine.kernel,
    himemStart.toNat ≤ p.paddr ∧ p.paddr + p.memsz ≤ smallMachine.memSize.toNat := by
  have hloads : Elf.loads smallMachine.kernel = [Elf.haltSegment] := Elf.loads_haltFile
  rw [hloads]
  decide

theorem smallMachine_boots : ∃ m : Memory,
    (∀ order : List Step, order.Perm startOrder →
      smallMachine.boot order = .ok ⟨m, smallMachine.memSize.toNat⟩) ∧ smallMachine.ReadsBack m :=
  boot_in_every_order smallMachine
    { file := by decide
      loads := smallMachine_loads
      segments := smallMachine_segments
      noNul := by decide
      cmdline_lt := by decide
      memSize_ge := by decide
      image_le := by
        rw [MpTable.length_image]
        decide }

end Kthxvm.Boot
