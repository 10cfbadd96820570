import Kthxvm.Device.IoDevice
import Kthxvm.Interrupt

/-! The serial port of `uart.h`. -/
namespace Kthxvm

open IoDevice

namespace Uart

def fifoLen : Nat := 64

def ierRecvBit : UInt8 := 0x1
def ierThrBit : UInt8 := 0x2
def ierFifoBits : UInt8 := 0x0f

def iirFifoBits : UInt8 := 0xc0
def iirNoneBit : UInt8 := 0x1
def iirThrBit : UInt8 := 0x2
def iirRecvBit : UInt8 := 0x4

def lcrDlabBit : UInt8 := 0x80

def lsrDataBit : UInt8 := 0x1
def lsrBreakBit : UInt8 := 0x10
def lsrEmptyBit : UInt8 := 0x20
def lsrIdleBit : UInt8 := 0x40

def mcrLoopBit : UInt8 := 0x10

/-- The offsets that the switch statements name; `IIR` and `FCR` share one, and
`DATA` and `IER` are also `DLAB_LOW` and `DLAB_HIGH`. -/
inductive Register where
  | data | ier | iir | lcr | mcr | lsr | msr | scr
  | unhandled
deriving DecidableEq

def Register.ofOffset (offset : UInt64) : Register :=
  match offset.toNat with
  | 0 => .data
  | 1 => .ier
  | 2 => .iir
  | 3 => .lcr
  | 4 => .mcr
  | 5 => .lsr
  | 6 => .msr
  | 7 => .scr
  | _ => .unhandled

end Uart

open Uart in
structure Uart where
  /-- the bytes that `put` of the terminal was called with; `none` without a terminal -/
  term : Option (List UInt8)
  baudDivisor : UInt16 := 0
  ier : UInt8 := 0
  iir : UInt8 := iirNoneBit
  fcr : UInt8 := 0
  lcr : UInt8 := 0
  mcr : UInt8 := 0x08
  lsr : UInt8 := lsrEmptyBit ||| lsrIdleBit
  msr : UInt8 := 0x20 ||| 0x10 ||| 0x80
  scr : UInt8 := 0
  rxBuf : Vector UInt8 fifoLen
  rxCnt : UInt8 := 0
  rxDone : UInt8 := 0
  txBuf : Vector UInt8 fifoLen
  txCnt : UInt8 := 0
deriving DecidableEq

namespace Uart

def isDlabSet (u : Uart) : Bool := u.lcr &&& lcrDlabBit ≠ 0

def isLoop (u : Uart) : Bool := u.mcr &&& mcrLoopBit ≠ 0

def flushTx (u : Uart) : Except Fault Uart :=
  let u := { u with lsr := u.lsr ||| (lsrEmptyBit ||| lsrIdleBit) }
  if u.txCnt = 0 then .ok u
  else
    match u.term with
    | none => .ok { u with txCnt := 0 }
    | some out =>
      if u.txCnt.toNat ≤ fifoLen then
        .ok { u with term := some (out ++ u.txBuf.toList.take u.txCnt.toNat), txCnt := 0 }
      else .error .hostBuffer

/-- `update_irq`, where `indeterminate` is what the uninitialised `tmp_iir` holds. -/
def updateIrq (u : Uart) (irq : Interrupt) (indeterminate : UInt8) :
    Except Fault (Uart × Interrupt) := do
  let tmpIir := indeterminate
  let tmpIir := if u.ier &&& ierRecvBit ≠ 0 ∧ u.lsr &&& lsrDataBit ≠ 0 then
    tmpIir ||| iirRecvBit else tmpIir
  let tmpIir := if u.ier &&& ierThrBit ≠ 0 ∧ u.lsr &&& lsrIdleBit ≠ 0 then
    tmpIir ||| iirThrBit else tmpIir
  let (u, irq) := if tmpIir = 0 then ({ u with iir := iirNoneBit }, irq.setLevel false)
    else ({ u with iir := tmpIir }, (irq.setLevel true).setLevel false)
  let u ← if u.ier &&& ierThrBit = 0 then u.flushTx else .ok u
  return (u, irq)

def receive (u : Uart) (size : UInt32) : Except Fault (List UInt8 × Uart) :=
  if u.rxCnt = u.rxDone then .ok (zeros size, u)
  else if u.lsr &&& lsrBreakBit ≠ 0 then do
    let buf ← putByte size 0
    return (buf, { u with lsr := u.lsr &&& ~~~lsrBreakBit })
  else if h : u.rxDone.toNat < fifoLen then do
    let buf ← putByte size u.rxBuf[u.rxDone.toNat]
    let u := { u with rxDone := u.rxDone + 1 }
    if u.rxCnt = u.rxDone then
      return (buf, { u with lsr := u.lsr &&& ~~~lsrDataBit, rxCnt := 0, rxDone := 0 })
    else return (buf, u)
  else .error .hostBuffer

def readRegister (u : Uart) (register : Register) (size : UInt32) :
    Except Fault (List UInt8 × Uart) :=
  match register with
  | .data => u.receive size
  | .ier => (putByte size u.ier).map (·, u)
  | .iir => (putByte size (u.iir ||| iirFifoBits)).map (·, u)
  | .lcr => (putByte size u.lcr).map (·, u)
  | .mcr => (putByte size u.mcr).map (·, u)
  | .lsr => (putByte size u.lsr).map (·, u)
  | .msr => (putByte size u.msr).map (·, u)
  | .scr => (putByte size u.scr).map (·, u)
  | .unhandled => .ok (zeros size, u)

def readDivisor (u : Uart) (register : Register) : Option UInt8 :=
  if u.isDlabSet then
    match register with
    | .data => some u.baudDivisor.toUInt8
    | .ier => some (u.baudDivisor >>> 8).toUInt8
    | _ => none
  else none

def read (u : Uart) (irq : Interrupt) (indeterminate : UInt8) (offset : UInt64)
    (size : UInt32) : Except Fault (List UInt8 × Uart × Interrupt) :=
  match u.readDivisor (.ofOffset offset) with
  | some value => do
    let buf ← putByte size value
    return (buf, u, irq)
  | none => do
    let (buf, u) ← u.readRegister (.ofOffset offset) size
    let (u, irq) ← u.updateIrq irq indeterminate
    return (buf, u, irq)

def writeDivisor (u : Uart) (register : Register) (data : List UInt8) : Except Fault Uart :=
  if u.isDlabSet then
    match register with
    | .data => do
      let b ← firstByte data
      return { u with baudDivisor := (u.baudDivisor &&& (0xff00 : UInt16)) ||| b.toUInt16 }
    | .ier => do
      let b ← firstByte data
      return { u with baudDivisor := (u.baudDivisor &&& (0x00ff : UInt16)) ||| (b.toUInt16 <<< 8) }
    | _ => .ok u
  else .ok u

def transmit (u : Uart) (data : List UInt8) : Except Fault Uart :=
  if u.isLoop then
    if h : u.rxCnt.toNat < fifoLen then do
      let b ← firstByte data
      return { u with
        rxBuf := u.rxBuf.set u.rxCnt.toNat b
        rxCnt := u.rxCnt + 1
        lsr := u.lsr ||| lsrDataBit }
    else .ok u
  else if h : u.txCnt.toNat < fifoLen then do
    let b ← firstByte data
    let u := { u with
      txBuf := u.txBuf.set u.txCnt.toNat b
      txCnt := u.txCnt + 1
      lsr := u.lsr &&& ~~~lsrIdleBit }
    let u := if u.txCnt.toNat = fifoLen / 2 then { u with lsr := u.lsr &&& ~~~lsrEmptyBit } else u
    u.flushTx
  else .ok { u with lsr := u.lsr &&& ~~~(lsrEmptyBit ||| lsrIdleBit) }

def writeRegister (u : Uart) (register : Register) (data : List UInt8) : Except Fault Uart :=
  match register with
  | .data => u.transmit data
  | .ier => do return { u with ier := (← firstByte data) &&& ierFifoBits }
  | .iir => do return { u with fcr := ← firstByte data }
  | .lcr => do return { u with lcr := ← firstByte data }
  | .mcr => do return { u with mcr := ← firstByte data }
  | .scr => do return { u with scr := ← firstByte data }
  | .lsr | .msr | .unhandled => .ok u

def write (u : Uart) (irq : Interrupt) (indeterminate : UInt8) (data : List UInt8)
    (offset : UInt64) : Except Fault (Uart × Interrupt) := do
  -- the first switch does not return, so the second sees the byte too
  let u ← u.writeDivisor (.ofOffset offset) data
  let u ← u.writeRegister (.ofOffset offset) data
  u.updateIrq irq indeterminate

/-- The loop of `write_stdio`. The terminal is readable as long as `input` has an
element, which is what `get` returns. -/
def receiveInput (u : Uart) (input : List Int) : Uart :=
  match input with
  | [] => u
  | c :: input =>
    if h : u.rxCnt.toNat < fifoLen then
      if c < 0 then u
      else receiveInput { u with
        rxBuf := u.rxBuf.set u.rxCnt.toNat (UInt8.ofInt c)
        rxCnt := u.rxCnt + 1
        lsr := u.lsr ||| lsrDataBit } input
    else u

def writeStdio (u : Uart) (irq : Interrupt) (indeterminate : UInt8) (input : List Int) :
    Except Fault (UInt64 × Uart × Interrupt) :=
  if u.isLoop then .ok (0, u, irq)
  else if u.lsr &&& lsrDataBit ≠ 0 ∨ u.rxCnt ≠ 0 then do
    let (u, irq) ← u.updateIrq irq indeterminate
    return (0, u, irq)
  else if u.term.isNone then .error .null
  else do
    let (u, irq) ← (u.receiveInput input).updateIrq irq indeterminate
    return (1, u, irq)

theorem receiveInput_keeps {β : Type} (f : Uart → β)
    (hput : ∀ (u : Uart) rxBuf rxCnt lsr,
      f { u with rxBuf := rxBuf, rxCnt := rxCnt, lsr := lsr } = f u)
    (u : Uart) (input : List Int) : f (u.receiveInput input) = f u := by
  induction input generalizing u with
  | nil => rfl
  | cons c input ih =>
    unfold receiveInput
    split
    · split
      · rfl
      · rw [ih, hput]
    · rfl

theorem write_congr {data data' : List UInt8} (h : firstByte data = firstByte data') (u : Uart)
    (irq : Interrupt) (indeterminate : UInt8) (offset : UInt64) :
    u.write irq indeterminate data offset = u.write irq indeterminate data' offset := by
  have hdivisor : ∀ register, u.writeDivisor register data = u.writeDivisor register data' := by
    intro register
    unfold writeDivisor
    rw [h]
  have hregister : ∀ (u : Uart) register, u.writeRegister register data =
      u.writeRegister register data' := by
    intro u register
    unfold writeRegister transmit
    rw [h]
  unfold write
  simp only [hdivisor, hregister]

section Length

variable {u u' : Uart} {size : UInt32} {buf : List UInt8}

theorem length_receive (h : u.receive size = .ok (buf, u')) : buf.length = size.toNat := by
  unfold receive at h
  split at h
  · cases h
    exact length_zeros size
  · split at h
    · obtain ⟨_, hput, h⟩ := bind_eq_ok.mp h
      cases h
      exact length_putByte hput
    · split at h
      · obtain ⟨_, hput, h⟩ := bind_eq_ok.mp h
        dsimp only at h
        split at h
        all_goals
          cases h
          exact length_putByte hput
      · contradiction

theorem length_readRegister {register : Register}
    (h : u.readRegister register size = .ok (buf, u')) : buf.length = size.toNat := by
  have hput : ∀ {value}, (putByte size value).map (·, u) = .ok (buf, u') →
      buf.length = size.toNat := by
    intro value h
    obtain ⟨_, hput, h⟩ := bind_eq_ok.mp ((map_eq_pure_bind _ _).symm.trans h)
    cases h
    exact length_putByte hput
  cases register
  case data => exact length_receive h
  case unhandled =>
    cases h
    exact length_zeros size
  all_goals exact hput h

theorem length_read {irq irq' : Interrupt} {indeterminate : UInt8} {offset : UInt64}
    (h : u.read irq indeterminate offset size = .ok (buf, u', irq')) :
    buf.length = size.toNat := by
  unfold read at h
  split at h
  · obtain ⟨_, hput, h⟩ := bind_eq_ok.mp h
    cases h
    exact length_putByte hput
  · obtain ⟨⟨_, _⟩, hread, h⟩ := bind_eq_ok.mp h
    obtain ⟨⟨_, _⟩, -, h⟩ := bind_eq_ok.mp h
    cases h
    exact length_readRegister hread

end Length

end Uart

end Kthxvm
