import Kthxvm.Boot.Order
import Kthxvm.Boot.PageTables
import Kthxvm.Boot.Processors

/-! What the boot processor finds when it starts to run: the kernel, its command line, the map of
memory and the table of the processors, all at addresses that its own page tables map. -/
namespace Kthxvm

open Layout Lib.ByteMemory Lib.Disk Lib.PageWalk Lib.WriteLog

namespace LongMode

structure Active (sregs : Sregs) : Prop where
  pe : sregs.cr0 &&& cr0Pe ≠ 0
  pg : sregs.cr0 &&& cr0Pg ≠ 0
  pae : sregs.cr4 &&& cr4Pae ≠ 0
  lme : sregs.efer &&& eferLme ≠ 0
  lma : sregs.efer &&& eferLma ≠ 0
  code : sregs.cs.present = 1 ∧ sregs.cs.l = 1 ∧ sregs.cs.db = 0

theorem setupLongMode_active {g g' : Guest} {sregs sregs' : Sregs}
    (h : setupLongMode g sregs = .ok (g', sregs')) : Active sregs' := by
  obtain ⟨g₁, -, h⟩ := bind_eq_ok.mp h
  cases h
  constructor
  all_goals
    dsimp only
    decide

/-- Memory that has the tables had them put there, into pages that were zero. -/
theorem exists_clear {m zeros : Memory} (hzero : ∀ x, zeros x = 0)
    (h : ∀ x : UInt64, Boot.Step.longMode.Owns x.toNat → m x = storeAll zeros stores x) :
    ∃ m₀, ClearTables m₀ ∧ m = storeAll m₀ stores := by
  have hpml4 : pml4Start.toNat = 0x9000 := rfl
  have hpde : pdeStart.toNat = 0xb000 := rfl
  refine ⟨fun x => if 0x9000 ≤ x.toNat ∧ x.toNat < 0xc000 then 0 else m x, ?_, ?_⟩
  · intro x hlow hhigh
    exact if_pos (by omega)
  · funext x
    by_cases hcovers : Covers stores x
    · rw [h x (stores_covers hcovers)]
      exact storeAll_of_covers _ _ hcovers
    · rw [storeAll_of_not_covers _ hcovers]
      split
      next htables =>
        rw [h x (Or.inr htables), storeAll_of_not_covers _ hcovers, hzero]
      next => rfl

end LongMode

/-- What the tables of `setup_long_mode` map: the first GiB to itself, and nothing else. -/
def Identity (m : Memory) (cr3 : UInt64) : Prop :=
  ∀ v : BitVec 48, (resolve m cr3 v).map (·.addr) = if v.toNat < 2 ^ 30 then some v.toNat else none

theorem Identity.seen_eq {m : Memory} {cr3 : UInt64} (h : Identity m cr3) {x : UInt64}
    (hx : x.toNat < 2 ^ 30) : seen m cr3 x = m x := by
  have htoNat : (BitVec.ofNat 48 x.toNat).toNat = x.toNat := by
    rw [BitVec.toNat_ofNat]
    omega
  have hmapped := h (BitVec.ofNat 48 x.toNat)
  rw [htoNat, if_pos hx] at hmapped
  obtain ⟨t, hresolve, haddr⟩ := Option.map_eq_some_iff.mp hmapped
  exact seen_identity hresolve haddr

/-- The part of the boot stack that the stack pointer leaves to be written. -/
def OnStack (x : UInt64) : Prop :=
  bootStackStart.toNat ≤ x.toNat ∧ x.toNat < bootStackPointer.toNat

namespace Board

/-- A kernel and a command line for a machine whose memory has room for them and for the
description of its processors. -/
structure Ready (b : Board) (contents cmdline : List UInt8) : Prop where
  zeroed : ∀ x, b.guest.bytes x = 0
  size_ge : 2 <<< 20 ≤ b.guest.size
  size_lt : b.guest.size < 2 ^ 64
  file : contents.length < 2 ^ 63
  kernel : Elf.WellFormed contents b.guest.size
  high : ∀ p ∈ Elf.loads contents, himemStart.toNat ≤ p.paddr
  noNul : 0 ∉ cmdline
  cmdline_lt : cmdline.length < cmdlineMaxSize.toNat
  cpus_le : b.cpuCount ≤ 46

/-- The boot processor is at the entry of the kernel, in 64-bit mode, and finds by its own
addresses and registers what the kernel needs. -/
structure Finds (b : Board) (contents cmdline : List UInt8) (m : Memory) (cpu : Vcpu) : Prop where
  active : LongMode.Active cpu.sregs
  identity : Identity m cpu.sregs.cr3
  entry : cpu.regs.rip = UInt64.ofNat (Elf.entry contents)
  kernel : ∀ p ∈ Elf.loads contents, p.paddr + p.memsz ≤ 2 ^ 30 →
    load (seen m cpu.sregs.cr3) (UInt64.ofNat p.paddr) p.memsz = Elf.segmentBytes contents p
  cmdline : Boot.Setup.CString (seen m cpu.sregs.cr3)
    (load32 (seen m cpu.sregs.cr3) (cpu.regs.rsi + 0x228)).toUInt64 cmdline
  e820 : BootParams.readE820 (seen m cpu.sregs.cr3) cpu.regs.rsi =
    MemoryMap.e820Table (UInt64.ofNat b.guest.size)
  processors : ∃ entries, MpTable.decode (seen m cpu.sregs.cr3) = some entries ∧
    MpTable.Describes entries b.cpuCount

def setup (b : Board) (contents cmdline : List UInt8) : Boot.Setup where
  kernel := contents
  cmdline := cmdline
  memSize := UInt64.ofNat b.guest.size
  ncpus := UInt32.ofNat b.cpuCount
  sregs := b.boot.sregs

namespace Ready

variable {b : Board} {contents cmdline : List UInt8} (h : b.Ready contents cmdline)

include h

theorem memSize_toNat : (b.setup contents cmdline).memSize.toNat = b.guest.size :=
  (UInt64.toNat_ofNat' ..).trans (Nat.mod_eq_of_lt h.size_lt)

theorem ncpus_toNat : (b.setup contents cmdline).ncpus.toNat = b.cpuCount := by
  have hcpus := h.cpus_le
  exact (UInt32.toNat_ofNat' ..).trans (Nat.mod_eq_of_lt (by omega))

theorem load_eq (m : Memory) : Elf.load ⟨m, b.guest.size⟩ (some { contents := contents }) =
    .ok (.returned (UInt64.ofNat (Elf.entry contents)),
      ⟨storeAll m ((Elf.loads contents).map (Elf.copy contents)), b.guest.size⟩) := by
  have hsize := h.size_lt
  have hwrite : (⟨m, b.guest.size⟩ : Guest).writeAll
      ((Elf.loads contents).map (Elf.copy contents)) = .ok
        ⟨storeAll m ((Elf.loads contents).map (Elf.copy contents)), b.guest.size⟩ :=
    Guest.writeAll_ok fun w hw => by
      obtain ⟨p, hp, rfl⟩ := List.mem_map.mp hw
      obtain ⟨haddr, hlen⟩ := h.kernel.copy_spec hsize.le hp
      have hroom := h.kernel.room p hp
      have hsizes := h.kernel.sizes p hp
      right
      rw [haddr, hlen]
      dsimp only
      omega
  rw [Elf.load_complete h.file _ h.kernel.magic h.kernel.small h.kernel.complete, hwrite]
  rfl

theorem image_le : mptableStart.toNat +
    (MpTable.image (b.setup contents cmdline).ncpus).length ≤ 0xA0000 := by
  have hstart : mptableStart.toNat = 0x9fc00 := rfl
  have hcpus := h.cpus_le
  rw [MpTable.length_image, h.ncpus_toNat]
  unfold MpTable.alignKernel
  omega

theorem fits : (b.setup contents cmdline).Fits where
  file := h.file
  loads := by
    have hload := h.load_eq fun _ => 0
    rw [← h.memSize_toNat] at hload
    exact ⟨_, _, hload⟩
  segments := by
    intro p hp
    rw [h.memSize_toNat]
    exact ⟨h.high p hp, h.kernel.room p hp⟩
  noNul := h.noNul
  cmdline_lt := h.cmdline_lt
  memSize_ge := by
    rw [h.memSize_toNat]
    exact h.size_ge
  image_le := h.image_le

end Ready

section Memory

variable {b : Board} {contents cmdline : List UInt8} {log : Boot.Step → Log}
  (hlog : Boot.Logged (b.setup contents cmdline) log)

section View

variable (hlong : log .longMode = LongMode.stores)
  {m : Memory} (hstack : ∀ x, ¬ OnStack x → m x = hlog.final x)

include hlong hstack

theorem identity_of_agree : Identity m pml4Start := by
  have hbottom : bootStackStart.toNat = 0x8000 := rfl
  have htop : bootStackPointer.toNat = 0x8ff0 := rfl
  have hzero : ∀ x, (b.setup contents cmdline).zeroed.bytes x = 0 := fun _ => rfl
  obtain ⟨m₀, hclear, hm⟩ := LongMode.exists_clear (m := m) hzero fun x hx => by
    have hoff : ¬ OnStack x := by
      unfold OnStack
      unfold Boot.Step.Owns at hx
      omega
    rw [hstack x hoff, ← hlong]
    exact hlog.final_eq (by decide) (by decide) hx (b.setup contents cmdline).zeroed.bytes
  intro v
  rw [hm, LongMode.resolve_stores hclear]
  split
  · rfl
  · rfl

theorem seen_agrees {a : UInt64} {n : Nat} (hend : a.toNat + n ≤ 2 ^ 30)
    (hoff : a.toNat + n ≤ bootStackStart.toNat ∨ bootStackPointer.toNat ≤ a.toNat) :
    AgreeOn ⟨a, n⟩ (seen m pml4Start) hlog.final := by
  intro x hx
  rw [Span.mem_iff_toNat (by omega)] at hx
  rw [(identity_of_agree hlog hlong hstack).seen_eq (by omega)]
  apply hstack
  unfold OnStack
  omega

end View

variable (h : b.Ready contents cmdline)

include hlog h

theorem final_segment (hkernel : log .elfLoad = Boot.kernelLog contents) {p : Elf.ProgramHeader}
    (hp : p ∈ Elf.loads contents) :
    load hlog.final (UInt64.ofNat p.paddr) p.memsz = Elf.segmentBytes contents p := by
  refine Boot.final_segment h.fits hlog hkernel ?_ hp
  rw [h.memSize_toNat]
  exact h.kernel

section Finds

variable (hlong : log .longMode = LongMode.stores)
  {m : Memory} (hstack : ∀ x, ¬ OnStack x → m x = hlog.final x)

include hlong hstack

theorem seen_segment (hkernel : log .elfLoad = Boot.kernelLog contents) {p : Elf.ProgramHeader}
    (hp : p ∈ Elf.loads contents) (hlow : p.paddr + p.memsz ≤ 2 ^ 30) :
    load (seen m pml4Start) (UInt64.ofNat p.paddr) p.memsz = Elf.segmentBytes contents p := by
  have hhigh : 0x100000 ≤ p.paddr := h.high p hp
  have htop : bootStackPointer.toNat = 0x8ff0 := rfl
  have hpaddr : (UInt64.ofNat p.paddr).toNat = p.paddr :=
    (UInt64.toNat_ofNat' ..).trans (Nat.mod_eq_of_lt (by omega))
  have hagree := seen_agrees hlog hlong hstack (a := UInt64.ofNat p.paddr) (n := p.memsz)
    (by omega) (Or.inr (by omega))
  rw [hagree.load_eq (by omega), final_segment hlog h hkernel hp]

theorem seen_cmdline (hparams : log .bootparams = BootParams.stores
      (b.setup contents cmdline).memSize cmdline) :
    Boot.Setup.CString (seen m pml4Start)
      (load32 (seen m pml4Start) (zeroPageStart + 0x228)).toUInt64 cmdline := by
  have hline : cmdline.length < 0x10000 := h.cmdline_lt
  have hstart : cmdlineStart.toNat = 0x20000 := rfl
  have hptr : load32 (seen m pml4Start) (zeroPageStart + 0x228) = cmdlineStart.toUInt32 := by
    have hagree := seen_agrees hlog hlong hstack (a := zeroPageStart + 0x228) (n := 4)
      (by decide) (Or.inl (by decide))
    rw [hagree.load32_eq]
    exact Boot.final_cmdLinePtr hlog hparams
  have hwide : cmdlineStart.toUInt32.toUInt64 = cmdlineStart := rfl
  have hagree := seen_agrees hlog hlong hstack (a := cmdlineStart) (n := cmdline.length + 1)
    (by omega) (Or.inr (by decide))
  obtain ⟨hstring, hnoNul, hend⟩ := Boot.final_cmdline h.fits hlog hparams
  rw [hptr, hwide]
  refine ⟨?_, hnoNul, ?_⟩
  · rw [(hagree.mono (Span.within_of_le (Nat.le_succ _))).load_eq (by omega)]
    exact hstring
  · rw [hagree _ (Span.mem_offset (Nat.lt_succ_self _) (by omega))]
    exact hend

theorem seen_e820 (hparams : log .bootparams = BootParams.stores
      (b.setup contents cmdline).memSize cmdline) :
    BootParams.readE820 (seen m pml4Start) zeroPageStart =
      MemoryMap.e820Table (UInt64.ofNat b.guest.size) := by
  have hagree := seen_agrees hlog hlong hstack (a := zeroPageStart)
    (n := BootParams.bootParamsSize) (by decide) (Or.inl (by decide))
  have hshort := BootParams.length_e820Table (UInt64.ofNat b.guest.size)
  exact BootParams.readE820_of_agree hagree (Boot.final_e820 h.fits hlog hparams) (by omega)

theorem seen_processors (hmp : log .mptable =
      [(mptableStart, MpTable.image (b.setup contents cmdline).ncpus)]) :
    ∃ entries, MpTable.decode (seen m pml4Start) = some entries ∧
      MpTable.Describes entries b.cpuCount := by
  have himage := h.image_le
  have hstart : mptableStart.toNat = 0x9fc00 := rfl
  have hagree := seen_agrees hlog hlong hstack (a := mptableStart)
    (n := (MpTable.image (b.setup contents cmdline).ncpus).length) (by omega) (Or.inr (by decide))
  rw [← h.ncpus_toNat]
  apply Boot.final_processors h.fits
  rw [hagree.load_eq (by omega)]
  exact Boot.final_image h.fits hlog hmp

end Finds

theorem finds {m : Memory} (hkernel : log .elfLoad = Boot.kernelLog contents)
    (hlong : log .longMode = LongMode.stores)
    (hparams : log .bootparams = BootParams.stores (b.setup contents cmdline).memSize cmdline)
    (hmp : log .mptable = [(mptableStart, MpTable.image (b.setup contents cmdline).ncpus)])
    (hstack : ∀ x, ¬ OnStack x → m x = hlog.final x) {cpu : Vcpu}
    (hactive : LongMode.Active cpu.sregs) (hcr3 : cpu.sregs.cr3 = pml4Start)
    (hrip : cpu.regs.rip = UInt64.ofNat (Elf.entry contents))
    (hrsi : cpu.regs.rsi = zeroPageStart) : b.Finds contents cmdline m cpu := by
  constructor
  case active => exact hactive
  case identity =>
    rw [hcr3]
    exact identity_of_agree hlog hlong hstack
  case entry => exact hrip
  case kernel =>
    rw [hcr3]
    exact fun p hp hlow => seen_segment hlog h hlong hstack hkernel hp hlow
  case cmdline =>
    rw [hcr3, hrsi]
    exact seen_cmdline hlog h hlong hstack hparams
  case e820 =>
    rw [hcr3, hrsi]
    exact seen_e820 hlog h hlong hstack hparams
  case processors =>
    rw [hcr3]
    exact seen_processors hlog h hlong hstack hmp

end Memory

end Board

/-! What every processor is given. -/

namespace Apic

/-- No bit of the old entry survives, the mask bit neither. -/
theorem deliveryMode_eq (reg mode : UInt32) : deliveryMode reg mode = mode <<< 8 := by
  have hnot : logicalNot 0x700 = 0 := rfl
  unfold deliveryMode
  rw [hnot, UInt32.and_zero, UInt32.zero_or]

end Apic

structure Initialised (cpuid : Cpuid.Cpuid2) (cpu cpu' : Vcpu) : Prop where
  cpuid : cpu'.cpuid = Cpuid.filterCpuidCopy cpuid
  fpu : cpu'.fpu = { fcw := 0x37f, mxcsr := 0x1f80 }
  fastString : cpu'.msrs Msr.ia32MiscEnable = Msr.ia32MiscEnableFastString
  cleared : ∀ e ∈ Msr.entries, e.index ≠ Msr.ia32MiscEnable → cpu'.msrs e.index = 0
  msrs : ∀ i, (∀ e ∈ Msr.entries, e.index ≠ i) → cpu'.msrs i = cpu.msrs i
  extint : load32 cpu'.lapic Apic.lvt0 = Apic.modeExtint <<< 8
  nmi : load32 cpu'.lapic Apic.lvt1 = Apic.modeNmi <<< 8
  lapic : ∀ x, x ∉ (⟨Apic.lvt0, 4⟩ : Span) → x ∉ (⟨Apic.lvt1, 4⟩ : Span) →
    cpu'.lapic x = cpu.lapic x

def Vcpu.initial (cpuid : Cpuid.Cpuid2) (cpu : Vcpu) : Vcpu :=
  setupLapic (setupFpu (setupMsrs { cpu with cpuid := Cpuid.filterCpuidCopy cpuid }))

theorem Vcpu.initial_lapic (cpuid : Cpuid.Cpuid2) (cpu : Vcpu) : (cpu.initial cpuid).lapic =
    store32 (store32 cpu.lapic Apic.lvt0 (Apic.modeExtint <<< 8)) Apic.lvt1
      (Apic.modeNmi <<< 8) := by
  unfold Vcpu.initial setupLapic
  dsimp only
  rw [Apic.deliveryMode_eq, Apic.deliveryMode_eq]
  rfl

theorem foldl_update_of_notMem {entries : List MsrEntry} {msrs : UInt32 → UInt64} {i : UInt32}
    (h : ∀ e ∈ entries, e.index ≠ i) :
    entries.foldl (fun msrs e => Function.update msrs e.index e.data) msrs i = msrs i := by
  induction entries generalizing msrs with
  | nil => rfl
  | cons e entries ih =>
    rw [List.foldl_cons, ih fun e' he' => h e' (List.mem_cons_of_mem _ he')]
    exact Function.update_of_ne (h e List.mem_cons_self).symm _ _

theorem foldl_update_of_mem {entries : List MsrEntry} {msrs : UInt32 → UInt64}
    (hnodup : (entries.map MsrEntry.index).Nodup) {e : MsrEntry} (he : e ∈ entries) :
    entries.foldl (fun msrs e => Function.update msrs e.index e.data) msrs e.index = e.data := by
  induction entries generalizing msrs with
  | nil => exact absurd he List.not_mem_nil
  | cons e' entries ih =>
    rw [List.map_cons, List.nodup_cons] at hnodup
    rw [List.foldl_cons]
    rcases List.mem_cons.mp he with rfl | he
    · rw [foldl_update_of_notMem, Function.update_self]
      intro e' he' heq
      exact hnodup.1 (heq ▸ List.mem_map_of_mem he')
    · exact ih hnodup.2 he

theorem Vcpu.initialised (cpuid : Cpuid.Cpuid2) (cpu : Vcpu) :
    Initialised cpuid cpu (cpu.initial cpuid) := by
  have hnodup : (Msr.entries.map MsrEntry.index).Nodup := by decide
  have hapart : Span.Apart ⟨Apic.lvt0, 4⟩ ⟨Apic.lvt1, 4⟩ :=
    Span.apart_of_le (by decide) (by decide)
  constructor
  case cpuid => rfl
  case fpu => rfl
  case fastString =>
    unfold Vcpu.initial setupLapic setupFpu setupMsrs Vcpu.setMsrs
    dsimp only
    have hlast : (⟨Msr.ia32MiscEnable, 0, Msr.ia32MiscEnableFastString⟩ : MsrEntry) ∈
        Msr.entries := by decide
    exact foldl_update_of_mem hnodup hlast
  case cleared =>
    intro e he hne
    have hdata : ∀ e ∈ Msr.entries, e.index ≠ Msr.ia32MiscEnable → e.data = 0 := by decide
    rw [← hdata e he hne]
    exact foldl_update_of_mem hnodup he
  case msrs => exact fun i hi => foldl_update_of_notMem hi
  case extint =>
    have hframe := (AgreeOn.refl ⟨Apic.lvt0, 4⟩ (store32 cpu.lapic Apic.lvt0
      (Apic.modeExtint <<< 8))).store32 (v := Apic.modeNmi <<< 8) hapart
    rw [cpu.initial_lapic, ← hframe.load32_eq, load32_store32]
  case nmi => rw [cpu.initial_lapic, load32_store32]
  case lapic =>
    intro x hx hx'
    rw [cpu.initial_lapic, store32, store32,
      store_of_notMem _ _ _ (by rwa [length_bytesOfNat]),
      store_of_notMem _ _ _ (by rwa [length_bytesOfNat])]

namespace Board

structure HandedOver (b b' : Board) (cpuid : Cpuid.Cpuid2) (contents cmdline : List UInt8) :
    Prop where
  finds : ∀ m, (∀ x, ¬ OnStack x → m x = b'.guest.bytes x) →
    b.Finds contents cmdline m b'.boot
  each : List.Forall₂ (Initialised cpuid) (b.boot :: b.others) (b'.boot :: b'.others)
  others : b'.others.map (fun cpu => (cpu.regs, cpu.sregs)) =
    b.others.map fun cpu => (cpu.regs, cpu.sregs)

theorem Ready.prepare_eq {b : Board} {contents cmdline : List UInt8}
    (h : b.Ready contents cmdline) (cpuid : Cpuid.Cpuid2) {log : Boot.Step → Log}
    (hlog : Boot.Logged (b.setup contents cmdline) log)
    (hkernel : log .elfLoad = Boot.kernelLog contents)
    (hlong : log .longMode = LongMode.stores) :
    ∃ sregs, b.prepare cpuid (some { contents := contents }) cmdline =
        .ok (.returned (UInt64.ofNat (Elf.entry contents)),
          { guest := ⟨hlog.final, b.guest.size⟩
            routes := Irq.routing
            boot := { setupRegs (b.boot.initial cpuid) (UInt64.ofNat (Elf.entry contents))
              bootStackPointer zeroPageStart with sregs := sregs }
            others := b.others.map (Vcpu.initial cpuid) }) ∧
      LongMode.Active sregs ∧ sregs.cr3 = pml4Start := by
  have hge : 0x200000 ≤ b.guest.size := h.size_ge
  have hguest : b.guest = ⟨fun _ => 0, b.guest.size⟩ := by
    have hbytes : b.guest.bytes = fun _ => 0 := funext h.zeroed
    rw [← hbytes]
  have hload := h.load_eq fun _ => 0
  rw [← hguest, ← h.kernel.placed_eq h.file] at hload
  have hstored : (Elf.placed contents).map (Elf.stored contents) = log .elfLoad := hkernel.symm
  rw [hstored] at hload
  obtain ⟨m₁, hm₁⟩ : ∃ m₁, m₁ = storeAll (fun _ => 0) (log .elfLoad) := ⟨_, rfl⟩
  obtain ⟨sregs, hsetup, hloaded⟩ := LongMode.setupLongMode_ok (g := ⟨m₁, b.guest.size⟩)
    b.boot.sregs (show 0xc000 ≤ b.guest.size by omega)
  have hparams := hlog.step_eq .bootparams (storeAll m₁ LongMode.stores)
  have hmptable := hlog.step_eq .mptable
    (storeAll (storeAll m₁ LongMode.stores) (log .bootparams))
  have hfinal : hlog.final = storeAll (storeAll (storeAll m₁ LongMode.stores) (log .bootparams))
      (log .mptable) := by
    unfold Boot.Logged.final Boot.startOrder
    simp only [List.map_cons, List.map_nil, List.flatten_cons, List.flatten_nil, storeAll_append,
      storeAll_nil, hm₁, hlong]
    rfl
  rw [h.memSize_toNat] at hparams hmptable
  rw [← hm₁] at hload
  have hcount : ∀ f g : Vcpu → Vcpu,
      UInt32.ofNat (((b.others.map f).map g).length + 1) = UInt32.ofNat b.cpuCount := by
    intro f g
    rw [List.length_map, List.length_map]
    rfl
  refine ⟨sregs, ?_, LongMode.setupLongMode_active hsetup, hloaded.cr3⟩
  refine bind_eq_ok.mpr ⟨_, hload, bind_eq_ok.mpr ⟨_, hsetup, bind_eq_ok.mpr ⟨_, hparams, ?_⟩⟩⟩
  refine bind_eq_ok.mpr ⟨_, (congrArg (MpTable.setupMptable _) (hcount _ _)).trans hmptable, ?_⟩
  dsimp only [each, setupIrqRouting]
  rw [List.map_map, hfinal]
  rfl

theorem handed_over (b : Board) (cpuid : Cpuid.Cpuid2) (contents cmdline : List UInt8)
    (h : b.Ready contents cmdline) :
    ∃ b', b.prepare cpuid (some { contents := contents }) cmdline =
        .ok (.returned (UInt64.ofNat (Elf.entry contents)), b') ∧
      b.HandedOver b' cpuid contents cmdline := by
  obtain ⟨log, hlog, hkernel, hlong, hparams, hmp⟩ := h.fits.logged
  obtain ⟨sregs, hprepare, hactive, hcr3⟩ := h.prepare_eq cpuid hlog hkernel hlong
  refine ⟨_, hprepare, ?_⟩
  constructor
  case finds =>
    exact fun m hstack => finds hlog h hkernel hlong hparams hmp hstack hactive hcr3 rfl rfl
  case each =>
    have hboot := b.boot.initialised cpuid
    refine List.Forall₂.cons ⟨hboot.cpuid, hboot.fpu, hboot.fastString, hboot.cleared, hboot.msrs,
      hboot.extint, hboot.nmi, hboot.lapic⟩ ?_
    rw [List.forall₂_map_right_iff]
    exact List.forall₂_same.mpr fun cpu _ => cpu.initialised cpuid
  case others =>
    rw [List.map_map]
    rfl

def noCpuid : Cpuid.Cpuid2 := ⟨0, 0, [], le_refl _⟩

def idleCpu : Vcpu := ⟨noCpuid, {}, LongMode.nullSregs, {}, fun _ => 0, fun _ => 0⟩

def haltBoard : Board := ⟨Elf.zeroGuest, [], idleCpu, [idleCpu]⟩

set_option maxRecDepth 4000 in
theorem ready_haltBoard : haltBoard.Ready Elf.haltFile startCmdline where
  zeroed _ := rfl
  size_ge := by decide
  size_lt := by decide
  file := by decide
  kernel := Elf.wellFormed_haltFile
  high := by
    rw [Elf.loads_haltFile]
    decide
  noNul := by decide
  cmdline_lt := by decide
  cpus_le := by decide

theorem haltBoard_handed_over : ∃ b', haltBoard.prepare noCpuid
      (some { contents := Elf.haltFile }) startCmdline =
        .ok (.returned (UInt64.ofNat (Elf.entry Elf.haltFile)), b') ∧
    haltBoard.HandedOver b' noCpuid Elf.haltFile startCmdline :=
  handed_over haltBoard noCpuid Elf.haltFile startCmdline ready_haltBoard

end Board

end Kthxvm
