import Kthxvm.Boot.BootParams
import Kthxvm.Boot.Elf
import Kthxvm.Boot.LongMode
import Kthxvm.Boot.MpTable
import Kthxvm.CpuidCopy

/-! What the processors are given before they run, by `msr.h`, `apic.h`, `irq.h` and the rest of
`regs.h`, and `vmm::start` up to where it adds the devices. -/
namespace Kthxvm

open Layout Lib.ByteMemory

structure Regs where
  rax : UInt64 := 0
  rbx : UInt64 := 0
  rcx : UInt64 := 0
  rdx : UInt64 := 0
  rsi : UInt64 := 0
  rdi : UInt64 := 0
  rsp : UInt64 := 0
  rbp : UInt64 := 0
  r8 : UInt64 := 0
  r9 : UInt64 := 0
  r10 : UInt64 := 0
  r11 : UInt64 := 0
  r12 : UInt64 := 0
  r13 : UInt64 := 0
  r14 : UInt64 := 0
  r15 : UInt64 := 0
  rip : UInt64 := 0
  rflags : UInt64 := 0
deriving DecidableEq

/-- `kvm_fpu`, its arrays of bytes in one piece each. -/
structure Fpu where
  fpr : List UInt8 := List.replicate (8 * 16) 0
  fcw : UInt16 := 0
  fsw : UInt16 := 0
  ftwx : UInt8 := 0
  pad1 : UInt8 := 0
  lastOpcode : UInt16 := 0
  lastIp : UInt64 := 0
  lastDp : UInt64 := 0
  xmm : List UInt8 := List.replicate (16 * 16) 0
  mxcsr : UInt32 := 0
  pad2 : UInt32 := 0
deriving DecidableEq

structure MsrEntry where
  index : UInt32
  reserved : UInt32
  data : UInt64
deriving DecidableEq

/-- What KVM holds for a processor, as far as `vcpu.h` reads or sets it. -/
structure Vcpu where
  cpuid : Cpuid.Cpuid2
  regs : Regs
  sregs : LongMode.Sregs
  fpu : Fpu
  msrs : UInt32 → UInt64
  /-- `kvm_lapic_state::regs` -/
  lapic : Memory

namespace Vcpu

def setMsrs (cpu : Vcpu) (entries : List MsrEntry) : Vcpu :=
  { cpu with msrs := entries.foldl (fun msrs e => Function.update msrs e.index e.data) cpu.msrs }

end Vcpu

namespace Msr

def star : UInt32 := 0xc0000081
def lstar : UInt32 := 0xc0000082
def cstar : UInt32 := 0xc0000083
def syscallMask : UInt32 := 0xc0000084
def kernelGsBase : UInt32 := 0xc0000102
def ia32SysenterCs : UInt32 := 0x174
def ia32SysenterEsp : UInt32 := 0x175
def ia32SysenterEip : UInt32 := 0x176
def ia32Tsc : UInt32 := 0x10
def ia32MiscEnable : UInt32 := 0x1a0
def ia32MiscEnableFastString : UInt64 := (1 : UInt64) <<< 0

def entries : List MsrEntry :=
  [⟨ia32SysenterCs, 0, 0⟩, ⟨ia32SysenterEsp, 0, 0⟩, ⟨ia32SysenterEip, 0, 0⟩, ⟨star, 0, 0⟩,
    ⟨cstar, 0, 0⟩, ⟨kernelGsBase, 0, 0⟩, ⟨syscallMask, 0, 0⟩, ⟨lstar, 0, 0⟩, ⟨ia32Tsc, 0, 0⟩,
    ⟨ia32MiscEnable, 0, ia32MiscEnableFastString⟩]

end Msr

def setupMsrs (cpu : Vcpu) : Vcpu := cpu.setMsrs Msr.entries

def setupFpu (cpu : Vcpu) : Vcpu := { cpu with fpu := { fcw := 0x37f, mxcsr := 0x1f80 } }

def setupRegs (cpu : Vcpu) (rip rsp rsi : UInt64) : Vcpu :=
  { cpu with regs := { rflags := 0x2, rip := rip, rsp := rsp, rsi := rsi } }

namespace Apic

def lvt0 : UInt64 := 0x350
def lvt1 : UInt64 := 0x360
def modeNmi : UInt32 := 0x4
def modeExtint : UInt32 := 0x7

/-- The operator `!` of the language, not `~`. -/
def logicalNot (x : UInt32) : UInt32 := if x = 0 then 1 else 0

def deliveryMode (reg mode : UInt32) : UInt32 := (reg &&& logicalNot 0x700) ||| (mode <<< 8)

end Apic

def setupLapic (cpu : Vcpu) : Vcpu :=
  let regs := cpu.lapic
  let regs := store32 regs Apic.lvt0 (Apic.deliveryMode (load32 regs Apic.lvt0) Apic.modeExtint)
  let regs := store32 regs Apic.lvt1 (Apic.deliveryMode (load32 regs Apic.lvt1) Apic.modeNmi)
  { cpu with lapic := regs }

namespace Irq

def irqchipMaster : UInt32 := 0
def irqchipSlave : UInt32 := 1
def irqchipIoapic : UInt32 := 2

def routingIrqchip : UInt32 := 1

/-- What `create_irq_routing_entry` sets in a `kvm_irq_routing_entry`. -/
structure RoutingEntry where
  gsi : UInt32
  type : UInt32
  irqchip : UInt32
  pin : UInt32
deriving DecidableEq

def routing : List RoutingEntry :=
  ((List.range 8).filter (· ≠ 2)).map
      (fun i => ⟨UInt32.ofNat i, routingIrqchip, irqchipMaster, UInt32.ofNat i⟩) ++
    (List.range' 8 8).map
      (fun i => ⟨UInt32.ofNat i, routingIrqchip, irqchipSlave, UInt32.ofNat i - 8⟩) ++
    ((List.range 24).filter (· ≠ 2)).map fun i =>
      ⟨UInt32.ofNat i, routingIrqchip, irqchipIoapic, if i = 0 then 2 else UInt32.ofNat i⟩

end Irq

/-- A machine that is being put together: `boot` is `get_vcpu(0)`. -/
structure Board where
  guest : Guest
  routes : List Irq.RoutingEntry
  boot : Vcpu
  others : List Vcpu

namespace Board

def cpuCount (b : Board) : Nat := b.others.length + 1

def each (b : Board) (f : Vcpu → Vcpu) : Board :=
  { b with boot := f b.boot, others := b.others.map f }

def setupIrqRouting (b : Board) : Board := { b with routes := Irq.routing }

/-- `vmm::start` up to the devices, for what `get_supported_cpuid` gave; a kernel that cannot be
loaded ends it with an exception. -/
def prepare (b : Board) (cpuid : Cpuid.Cpuid2) (kernel : Option FStream) (cmdline : List UInt8) :
    Except Fault (Elf.Outcome × Board) := do
  let b := b.each fun cpu => { cpu with cpuid := Cpuid.filterCpuidCopy cpuid }
  let (outcome, g) ← Elf.load b.guest kernel
  let b := { b with guest := g }
  match outcome with
  | .returned entry =>
    let b := b.setupIrqRouting
    let b := b.each fun cpu => setupLapic (setupFpu (setupMsrs cpu))
    let boot := setupRegs b.boot entry bootStackPointer zeroPageStart
    let (g, sregs) ← LongMode.setupLongMode b.guest boot.sregs
    let g ← BootParams.setupBootparams g cmdline
    let g ← MpTable.setupMptable g (UInt32.ofNat b.cpuCount)
    return (.returned entry, { b with guest := g, boot := { boot with sregs := sregs } })
  | outcome => return (outcome, b)

end Board

def startCmdline : List UInt8 :=
  MpTable.chars "console=ttyS0" ++ MpTable.chars " virtio_mmio.device=0x1000@0xd0000000:12" ++
    MpTable.chars " virtio_mmio.device=0x1000@0xd0001000:13" ++
    MpTable.chars " virtio_mmio.device=0x1000@0xd0002000:14" ++
    MpTable.chars " reboot=k panic=1 pci=off" ++
    MpTable.chars " i8042.noaux i8042.nomux i8042.nopnp i8042.dumbkbd" ++
    MpTable.chars " root=/dev/vda init=/sbin/init"

end Kthxvm
