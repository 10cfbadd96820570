import Kthxvm.Device.I8042
import Kthxvm.Device.Uart
import Kthxvm.Virtio.Mmio
import Kthxvm.Virtio.Rng

/-! The devices that `vmm.h` adds to a machine, and the loop of `vm.h` that serves
the exits of a processor. -/
namespace Kthxvm

open IoDevice Virtio

/-- The devices on ports, in the order in which they are added. -/
inductive PortDevice where
  | i8042
  | ttyS (n : Fin 4)
deriving DecidableEq

namespace PortDevice

def all : List PortDevice := [.i8042, .ttyS 0, .ttyS 1, .ttyS 2, .ttyS 3]

abbrev ttyS0 : Fin 4 := 0

def window : PortDevice → Window
  | .i8042 => ⟨0x60, 5⟩
  | .ttyS n => ⟨#v[0x3f8, 0x2f8, 0x3e8, 0x2e8][n], 8⟩

def line : PortDevice → Fin 32
  | .i8042 => 1
  | .ttyS n => #v[4, 3, 4, 3][n]

/-- The first of `io_devices` with `in_range(port)`. -/
def claimant (port : UInt64) : Option PortDevice := all.find? (·.window.inRange port)

end PortDevice

/-- The devices behind `mmio`, in the order in which they are added. -/
inductive MmioDevice where
  | blk
  | rng
  | net
deriving DecidableEq

namespace MmioDevice

def all : List MmioDevice := [.blk, .rng, .net]

def type : MmioDevice → DeviceType
  | .blk => blkType
  | .rng => rngType
  | .net => netType

def window : MmioDevice → Window
  | .blk => ⟨0xd0000000, 0x1000⟩
  | .rng => ⟨0xd0001000, 0x1000⟩
  | .net => ⟨0xd0002000, 0x1000⟩

def claimant (addr : UInt64) : Option MmioDevice := all.find? (·.window.inRange addr)

end MmioDevice

/-- The ports share an array of interrupts; a virtio device has its own. -/
structure Machine where
  keyboard : I8042
  serial : Fin 4 → Uart
  lines : Fin 32 → Interrupt
  virtio : (k : MmioDevice) → Device k.type
  guest : Guest

/-- What an exit finds outside the machine: the bytes of `/dev/random`, and the
contents of locals that are read before they are set. -/
structure World where
  random : Nat → List UInt8
  indeterminate : UInt8

def kvmExitIo : UInt32 := 2
def kvmExitDebug : UInt32 := 4
def kvmExitHlt : UInt32 := 5
def kvmExitMmio : UInt32 := 6
def kvmExitShutdown : UInt32 := 8
def kvmExitIntr : UInt32 := 10

def kvmExitIoIn : UInt8 := 0
def kvmExitIoOut : UInt8 := 1

structure Io where
  direction : UInt8
  size : UInt8
  port : UInt16
  count : UInt32
deriving DecidableEq

structure Mmio where
  physAddr : UInt64
  data : Vector UInt8 8
  len : UInt32
  isWrite : UInt8

/-- What `run_cpu` uses of the page that a processor shares with its host. The
page outlives the exit: bytes that an exit does not define are those of an earlier one. -/
structure KvmRun where
  exitReason : UInt32
  io : Io
  /-- the page from `io.data_offset` on -/
  ioData : List UInt8
  mmio : Mmio

namespace Machine

def portRead (m : Machine) (world : World) (p : PortDevice) (offset : UInt64) (size : UInt32) :
    Except Fault (List UInt8 × Machine) :=
  match p with
  | .i8042 => do
    let (buf, k, irq) ← m.keyboard.read (m.lines p.line) offset size
    return (buf, { m with keyboard := k, lines := Function.update m.lines p.line irq })
  | .ttyS n => do
    let (buf, u, irq) ← (m.serial n).read (m.lines p.line) world.indeterminate offset size
    return (buf, { m with
      serial := Function.update m.serial n u
      lines := Function.update m.lines p.line irq })

def portWrite (m : Machine) (world : World) (p : PortDevice) (data : List UInt8)
    (offset : UInt64) : Except Fault Machine :=
  match p with
  | .i8042 => do
    let (k, irq) ← m.keyboard.write (m.lines p.line) data offset
    return { m with keyboard := k, lines := Function.update m.lines p.line irq }
  | .ttyS n => do
    let (u, irq) ← (m.serial n).write (m.lines p.line) world.indeterminate data offset
    return { m with
      serial := Function.update m.serial n u
      lines := Function.update m.lines p.line irq }

def handleIoDevice (m : Machine) (world : World) (run : KvmRun) (p : PortDevice) :
    Except Fault (Machine × KvmRun) :=
  let offset := p.window.offset run.io.port.toUInt64
  let size := run.io.count * run.io.size.toUInt32
  if run.io.direction = kvmExitIoIn then do
    let (buf, m) ← m.portRead world p offset size
    return (m, { run with ioData := buf ++ run.ioData.drop buf.length })
  else if run.io.direction = kvmExitIoOut then do
    let m ← m.portWrite world p run.ioData offset
    return (m, run)
  else .ok (m, run)

/-- `mmio::read`; an address that no device claims gives no bytes at all. -/
def mmioRead (m : Machine) (addr : UInt64) (size : UInt32) : Except Fault (List UInt8) :=
  match MmioDevice.claimant addr with
  | some k => (m.virtio k).mmioRead (k.window.offset addr) size
  | none => .ok []

def mmioWrite (m : Machine) (data : List UInt8) (addr : UInt64) (size : UInt32) :
    Except Fault Machine :=
  match MmioDevice.claimant addr with
  | some k => do
    let d ← (m.virtio k).mmioWrite data (k.window.offset addr) size
    return { m with virtio := Function.update m.virtio k d }
  | none => .ok m

/-- `mmio::update`; only the one of `rng` does anything. -/
def update (m : Machine) (world : World) : Except Fault Machine := do
  let d := m.virtio .rng
  let queue ← d.selected
  let (queue, irq, guest, _) ← Rng.update queue d.irq m.guest world.random
  return { m with
    virtio := Function.update m.virtio .rng { d.setQ d.queueIndex queue with irq := irq }
    guest := guest }

/-- `memcpy(kvm_run->mmio.data, buf.data(), buf.size())` -/
def copyIn (data : Vector UInt8 8) (buf : List UInt8) : Except Fault (Vector UInt8 8) :=
  if buf.length ≤ 8 then .ok (Vector.ofFn fun i => buf.getD i data[i])
  else .error .hostBuffer

/-- One iteration of `run_cpu`, from the return of `KVM_RUN` on. The first component
is set when the loop returns. -/
def runCpu (m : Machine) (world : World) (run : KvmRun) :
    Except Fault (Option UInt32 × Machine × KvmRun) :=
  if run.exitReason = kvmExitIo then
    match PortDevice.claimant run.io.port.toUInt64 with
    | some p => do
      let (m, run) ← m.handleIoDevice world run p
      return (none, m, run)
    -- the POST codes of port 0x80 and everything else only differ in what is printed
    | none => .ok (none, m, run)
  else if run.exitReason = kvmExitMmio then
    if run.mmio.isWrite = 0 then do
      let buf ← m.mmioRead run.mmio.physAddr run.mmio.len
      let data ← copyIn run.mmio.data buf
      let m ← m.update world
      return (none, m, { run with mmio := { run.mmio with data := data } })
    else do
      let m ← m.mmioWrite run.mmio.data.toList run.mmio.physAddr run.mmio.len
      let m ← m.update world
      return (none, m, run)
  else if run.exitReason = kvmExitDebug ∨ run.exitReason = kvmExitIntr then .ok (none, m, run)
  else if run.exitReason = kvmExitShutdown ∨ run.exitReason = kvmExitHlt then .ok (some 0, m, run)
  else .ok (some run.exitReason, m, run)

end Machine

end Kthxvm
