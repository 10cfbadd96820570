import Kthxvm.Device.IoDevice
import Kthxvm.Interrupt

/-! The keyboard controller of `i8042.h`. -/
namespace Kthxvm

open IoDevice

namespace I8042

def dataReg : UInt64 := 0x0
def commandReg : UInt64 := 0x04

def cmdReadCtr : UInt8 := 0x20
def cmdWriteCtr : UInt8 := 0x60
def cmdReadOutp : UInt8 := 0xD0
def cmdWriteOutp : UInt8 := 0xD1
def cmdResetCpu : UInt8 := 0xFE
def cmdResetKbd : UInt8 := 0xFF

def sbOutDataAvail : UInt8 := 0x0001
def sbI8042CmdData : UInt8 := 0x0008
def sbKbdEnabled : UInt8 := 0x0010

def cbKbdInt : UInt8 := 0x0001
def cbPostOk : UInt8 := 0x0004

def bufSize : Nat := 16

end I8042

open I8042 in
structure I8042 where
  command : UInt8 := 0
  status : UInt8 := sbKbdEnabled
  control : UInt8 := cbPostOk ||| cbKbdInt
  outp : UInt8 := 0
  buffer : Vector UInt8 bufSize
  bufferHead : UInt32 := 0
  bufferTail : UInt32 := 0
deriving DecidableEq

namespace I8042

/-- `!bit`, the logical negation of a constant that is not zero. -/
def logicalNot (bit : UInt8) : UInt8 := if bit = 0 then 1 else 0

def triggerIrq (k : I8042) (irq : Interrupt) : Interrupt :=
  if k.control &&& cbKbdInt ≠ 0 then (irq.setLevel true).setLevel false else irq

def bufferLen (k : I8042) : UInt32 := k.bufferTail - k.bufferHead

def slot (index : UInt32) : Fin bufSize := ⟨index.toNat % bufSize, Nat.mod_lt _ (by decide)⟩

def pop (k : I8042) : UInt8 × I8042 :=
  if k.bufferLen = 0 then (0, k)
  else
    let res := k.buffer[slot k.bufferHead]
    let k := { k with bufferHead := k.bufferHead + 1 }
    if k.bufferLen = 0 then
      (res, { k with status := k.status &&& logicalNot sbOutDataAvail })
    else (res, k)

def push (k : I8042) (val : UInt8) : I8042 :=
  if k.bufferLen.toNat = bufSize then k
  else { k with
    status := k.status ||| sbOutDataAvail
    buffer := k.buffer.set (slot k.bufferTail) val
    bufferTail := k.bufferTail + 1 }

def flush (k : I8042) : I8042 :=
  { k with
    bufferHead := 0
    bufferTail := 0
    status := k.status &&& logicalNot sbOutDataAvail }

def read (k : I8042) (irq : Interrupt) (offset : UInt64) (size : UInt32) :
    Except Fault (List UInt8 × I8042 × Interrupt) :=
  if offset = commandReg then do
    let buf ← putByte size k.status
    return (buf, k, irq)
  else if offset = dataReg then do
    let (value, k) := k.pop
    let buf ← putByte size value
    return (buf, k, if k.status &&& sbOutDataAvail ≠ 0 then k.triggerIrq irq else irq)
  else .ok (zeros size, k, irq)

def writeCommand (k : I8042) (cmd : UInt8) : I8042 :=
  if cmd = cmdReadCtr then k.flush.push k.control
  else if cmd = cmdWriteCtr then
    let k := k.flush
    { k with status := k.status ||| sbI8042CmdData, command := cmd }
  else if cmd = cmdReadOutp then k.flush.push k.outp
  else if cmd = cmdWriteOutp then
    { k with status := k.status ||| sbI8042CmdData, command := cmd }
  else if cmd = cmdResetCpu then k
  else if cmd = cmdResetKbd then { k with status := 0x0 }
  else k

def storeParameter (k : I8042) (data : List UInt8) : Except Fault I8042 :=
  if k.command = cmdWriteCtr then do return { k with control := ← firstByte data }
  else if k.command = cmdWriteOutp then do return { k with outp := ← firstByte data }
  else .ok k

def writeParameter (k : I8042) (data : List UInt8) : Except Fault I8042 := do
  let k ← k.storeParameter data
  return { k with status := k.status &&& logicalNot sbI8042CmdData }

def write (k : I8042) (irq : Interrupt) (data : List UInt8) (offset : UInt64) :
    Except Fault (I8042 × Interrupt) :=
  if offset = commandReg then do
    let cmd ← firstByte data
    return (k.writeCommand cmd, irq)
  else if offset = dataReg then
    if k.status &&& sbI8042CmdData ≠ 0 then do
      let k ← k.writeParameter data
      return (k, irq)
    else
      let k := k.flush.push 0xFA
      .ok (k, k.triggerIrq irq)
  else .ok (k, irq)

theorem write_congr {data data' : List UInt8} (h : firstByte data = firstByte data') (k : I8042)
    (irq : Interrupt) (offset : UInt64) : k.write irq data offset = k.write irq data' offset := by
  unfold write writeParameter storeParameter
  rw [h]

theorem length_read {k k' : I8042} {irq irq' : Interrupt} {offset : UInt64} {size : UInt32}
    {buf : List UInt8} (h : k.read irq offset size = .ok (buf, k', irq')) :
    buf.length = size.toNat := by
  unfold read at h
  split at h
  · obtain ⟨_, hput, h⟩ := bind_eq_ok.mp h
    cases h
    exact length_putByte hput
  · split at h
    · obtain ⟨_, hput, h⟩ := bind_eq_ok.mp h
      cases h
      exact length_putByte hput
    · cases h
      exact length_zeros size

end I8042

end Kthxvm
