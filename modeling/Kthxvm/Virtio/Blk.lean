import Kthxvm.FStream
import Kthxvm.Virtio.Device

/-! The block device of `blk.h`: a `std::fstream` behind one queue, served by a
thread that repeats `runOnce`. -/
namespace Kthxvm.Virtio

open Lib.ByteMemory Lib.Disk

/-! Request types and status codes of `linux/virtio_blk.h`. -/

def blkTIn : UInt32 := 0
def blkTOut : UInt32 := 1
def blkTGetId : UInt32 := 8
def blkSOk : UInt8 := 0

/-- `DISK_ID` with its terminating NUL. -/
def diskId : List UInt8 :=
  [107, 116, 104, 120, 118, 109, 107, 116, 104, 120, 118, 109, 107, 116, 104, 120, 118, 109,
    100, 105, 115, 107, 0]

structure Blk where
  dev : Device blkType
  file : FStream

namespace Blk

inductive Outcome where
  /-- `next()` returned `nullptr` -/
  | idle
  /-- an unhandled type: `continue` before `add_used` -/
  | dropped (head : UInt16)
  /-- `add_used(id, len)` returned `idx`; `raised` if `set_level(true)` followed -/
  | answered (head : UInt16) (id len : UInt32) (idx : UInt16) (raised : Bool)
deriving DecidableEq

/-- The descriptor loop of `VIRTIO_BLK_T_IN`; it ends at the status descriptor. -/
def inLoop (q : Queue) : Nat → FStream → Guest → UInt16 → UInt32 →
    Except Fault (FStream × Guest × UInt16 × UInt32)
  | 0, _, _, _, _ => .error .unfinished
  | fuel + 1, file, g, next, len => do
    let d ← q.descriptor g next
    if d.hasNext then
      let transfer := file.read d.len.toNat
      let g ← g.write d.addr transfer.1
      -- `next->len` and `next->next` are loaded after the buffer was stored
      let d ← q.descriptor g next
      let next ← descriptorIndex d.next
      inLoop q fuel transfer.2 g next (len + d.len)
    else .ok (file, g, next, len)

def outLoop (q : Queue) (g : Guest) : Nat → FStream → UInt16 → UInt32 →
    Except Fault (FStream × UInt16 × UInt32)
  | 0, _, _, _ => .error .unfinished
  | fuel + 1, file, next, len => do
    let d ← q.descriptor g next
    if d.hasNext then
      -- a stream in error does not look at the buffer
      let bytes ← if file.fail then .ok [] else g.read d.addr d.len.toNat
      let next ← descriptorIndex d.next
      outLoop q g fuel (file.write bytes) next (len + d.len)
    else .ok (file, next, len)

def follow (q : Queue) (g : Guest) (next : UInt16) : Except Fault UInt16 := do
  descriptorIndex (← q.descriptor g next).next

def putStatus (q : Queue) (g : Guest) (next : UInt16) : Except Fault Guest := do
  g.write (← q.descriptor g next).addr [blkSOk]

/-- The `switch` on `hdr->type` for the chain at `next`; `none` for the default
case, otherwise the stream, the memory and the length to report. -/
def handle (fuel : Nat) (q : Queue) (file : FStream) (g : Guest) (next : UInt16) :
    Except Fault (Option (FStream × Guest × UInt32)) := do
  let hdr := (← q.descriptor g next).addr
  let type ← g.read32 hdr
  if type = blkTIn then
    let next ← follow q g next
    let sector ← g.read64 (hdr + 8)
    let (file, g, next, len) ← inLoop q fuel (file.seek (sector * 512)) g next 0
    let g ← putStatus q g next
    return some (file, g, len + 1)
  else if type = blkTOut then
    let next ← follow q g next
    let sector ← g.read64 (hdr + 8)
    let (file, next, len) ← outLoop q g fuel (file.seek (sector * 512)) next 0
    let g ← putStatus q g next
    return some (file, g, len + 1)
  else if type = blkTGetId then
    let next ← follow q g next
    let d ← q.descriptor g next
    let g ← if d.len.toNat ≤ diskId.length then g.write d.addr (diskId.take d.len.toNat)
      else .error .hostBuffer
    let len := (← q.descriptor g next).len
    let next ← follow q g next
    let g ← putStatus q g next
    return some (file, g, len + 1)
  else return none

/-- `(idx - 1) == q().avail()->used_event`; both sides are promoted to `int`. -/
def notifies (idx usedEvent : UInt16) : Bool :=
  (idx.toNat : Int) - 1 = usedEvent.toNat

/-- One round of `while (should_run)`. Nobody writes `queue_index` during it, so
every `q()` is the same queue. -/
def runOnce (fuel : Nat) (b : Blk) (g : Guest) : Except Fault (Outcome × Blk × Guest) := do
  let (taken, q) ← (← b.dev.selected).next g
  let b := { b with dev := b.dev.setQ b.dev.queueIndex q }
  match taken with
  | none => return (.idle, b, g)
  | some head =>
    let descStart := (← q.availId g).toUInt32
    match ← handle fuel q b.file g head with
    | none => return (.dropped head, b, g)
    | some (file, g, len) =>
      let (idx, g) ← q.addUsed g descStart len
      let raised := notifies idx (← g.read16 q.usedEventAddr)
      let irq := if raised then b.dev.irq.setLevel true else b.dev.irq
      return (.answered head descStart len idx raised,
        ⟨{ b.dev with irq := irq }, file⟩, g)

end Blk

end Kthxvm.Virtio
