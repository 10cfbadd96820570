import Kthxvm.Lib.Transition
import Kthxvm.Virtio.Mmio

/-! One virtio device between its guest and its threads. An event is an access
to the register file, a store to guest memory, or one call that a device thread
makes on a queue; events come in any order. -/
namespace Kthxvm.Virtio

open Lib.ByteMemory Lib.Transition

namespace DeviceMachine

structure State (t : DeviceType) where
  dev : Device t
  guest : Guest

/-- `q()` of `blk` and `rng`, `q(rx_queue)` and `q(tx_queue)` of `net`. -/
inductive Which where
  | selected
  | constant (index : UInt32)
deriving DecidableEq

/-- The subscript of `queues`. `q()` reads `queue_index` on every evaluation. -/
def Which.index {t : DeviceType} (which : Which) (d : Device t) : UInt32 :=
  match which with
  | .selected => d.queueIndex
  | .constant index => index

inductive Event where
  | write (data : List UInt8) (offset : UInt64) (size : UInt32)
  | read (offset : UInt64) (size : UInt32)
  /-- a store to guest memory: the driver publishes, a device fills a buffer -/
  | memory (bytes : Memory)
  /-- `q()` for its addresses: `q().desc()`, `q().translate(...)`, `q().avail()` -/
  | evaluate (which : Which)
  | next (which : Which)
  | popBack (which : Which)
  | availId (which : Which)
  | addUsed (which : Which) (start len : UInt32)
  /-- `irq->set_level(true)` -/
  | raise

inductive Reply where
  | done
  | bytes (data : List UInt8)
  | taken (head : Option UInt16)
  | index (id : UInt16)
deriving DecidableEq

variable {t : DeviceType}

def perform (s : State t) : Event → Except Fault (Reply × State t)
  | .write data offset size => do
    let dev ← s.dev.mmioWrite data offset size
    return (.done, { s with dev := dev })
  | .read offset size => do
    let data ← s.dev.mmioRead offset size
    return (.bytes data, s)
  | .memory bytes => return (.done, { s with guest := { s.guest with bytes := bytes } })
  | .evaluate which => do
    let _ ← s.dev.q (which.index s.dev)
    return (.done, s)
  | .next which => do
    let queue ← s.dev.q (which.index s.dev)
    let (head, queue) ← queue.next s.guest
    return (.taken head, { s with dev := s.dev.setQ (which.index s.dev) queue })
  | .popBack which => do
    let queue ← s.dev.q (which.index s.dev)
    return (.done, { s with dev := s.dev.setQ (which.index s.dev) queue.popBack })
  | .availId which => do
    let queue ← s.dev.q (which.index s.dev)
    let id ← queue.availId s.guest
    return (.index id, s)
  | .addUsed which start len => do
    let queue ← s.dev.q (which.index s.dev)
    let (idx, guest) ← queue.addUsed s.guest start len
    return (.index idx, { s with guest := guest })
  | .raise =>
    return (.done, { s with dev := { s.dev with irq := s.dev.irq.setLevel true } })

def Step (s : State t) (e : Event) (s' : State t) : Prop :=
  ∃ reply, perform s e = .ok (reply, s')

def OnReady (s : State t) (which : Which) : Prop :=
  ∀ queue, s.dev.q (which.index s.dev) = .ok queue → queue.ready = true

/-- A device calls these three only between a successful `next()` and the end of
the request, and nothing makes a ready queue unready. -/
def Live (s : State t) : Event → Prop
  | .popBack which | .availId which | .addUsed which _ _ => OnReady s which
  | _ => True

def boot (t : DeviceType) (irq : Interrupt) (config : List UInt8) (g : Guest) : State t :=
  ⟨Device.fresh t irq config, g⟩

def store (offset : UInt64) (value : UInt32) : Event :=
  .write (bytesOfNat 4 value.toNat) offset 4

def play (s : State t) : List Event → Except Fault (State t)
  | [] => .ok s
  | e :: es => do
    let (_, s) ← perform s e
    play s es

end DeviceMachine

end Kthxvm.Virtio
