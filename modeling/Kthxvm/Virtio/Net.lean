import Kthxvm.Lib.Disk
import Kthxvm.Virtio.Device

/-! The receive and transmit paths of `net.h`, each on its own queue and with a
staging buffer that survives from one call to the next. -/
namespace Kthxvm.Virtio

open Lib.ByteMemory Lib.Disk Lib.Triple

namespace Net

/-- `65550 + sizeof(virtio_net_hdr_v1)` -/
def bufferLen : Nat := 65550 + 12

/-- The bytes that `memcpy(_, buffer + pos, n)` reads from a host buffer. -/
def hostRead (buffer : List UInt8) (pos n : Nat) : Except Fault (List UInt8) :=
  if n = 0 ∨ pos + n ≤ buffer.length then .ok (slice buffer pos n)
  else .error .hostBuffer

theorem hostRead_meets {allowed : Fault → Prop} (h : allowed .hostBuffer) (buffer : List UInt8)
    (pos n : Nat) : Meets allowed (hostRead buffer pos n) fun bytes => bytes.length ≤ n := by
  unfold hostRead
  split
  · exact List.length_take_le _ _
  · exact h

def hostRoom (buffer : List UInt8) (pos n : Nat) : Except Fault Unit :=
  if n = 0 ∨ pos + n ≤ buffer.length then .ok () else .error .hostBuffer

theorem hostRoom_meets {allowed : Fault → Prop} (h : allowed .hostBuffer) (buffer : List UInt8)
    (pos n : Nat) : Meets allowed (hostRoom buffer pos n) fun _ => True := by
  unfold hostRoom
  split
  · trivial
  · exact h

theorem min_toNat (a b : UInt32) : (min a b).toNat = min a.toNat b.toNat := by
  change (if a ≤ b then a else b).toNat = _
  split
  · rename_i h
    exact (min_eq_left (UInt32.le_iff_toNat_le.mp h)).symm
  · rename_i h
    rw [UInt32.le_iff_toNat_le, Nat.not_le] at h
    exact (min_eq_right h.le).symm

theorem min_toNat_le (a b : UInt32) : (min a b).toNat ≤ b.toNat := by
  rw [min_toNat]
  exact min_le_right _ _

theorem ofInt_toNat {n : Nat} (h : n < 2 ^ 32) : (UInt32.ofInt n).toNat = n := by
  unfold UInt32.ofInt
  rw [UInt32.toNat_ofNat']
  omega

/-- What a call leaves behind; `used` is the argument pair of `add_used`. -/
structure Result where
  queue : Queue
  irq : Interrupt
  buffer : List UInt8
  guest : Guest
  used : Option (UInt32 × UInt32)

/-- The scatter loop of `update_rx`. `size` is the result of `::read`. -/
def rxLoop (q : Queue) (buffer : List UInt8) (size : Int) : Nat → Guest → UInt16 → UInt32 →
    Except Fault (Guest × UInt32)
  | 0, _, _, _ => .error .unfinished
  | fuel + 1, g, next, len => do
    let d ← q.descriptor g next
    -- `size - len` is signed and then cast to 32 bits
    let writeLen := min (UInt32.ofInt (size - len.toNat)) d.len
    let g ← g.write d.addr (← hostRead buffer len.toNat writeLen.toNat)
    let len := len + writeLen
    if (len.toNat : Int) = size then .ok (g, len)
    else
      let d ← q.descriptor g next
      if d.hasNext then
        let next ← descriptorIndex d.next
        rxLoop q buffer size fuel g next len
      else .ok (g, len)

/-- `polled` is the result of `poll_fd_in`, `packet` that of `::read` on the tap
with the bytes it stored, `none` for an error. -/
def updateRx (fuel : Nat) (q : Queue) (irq : Interrupt) (buffer : List UInt8) (g : Guest)
    (polled : Bool) (packet : Option (List UInt8)) : Except Fault Result := do
  let (taken, q) ← q.next g
  match taken with
  | none => return ⟨q, irq, buffer, g, none⟩
  | some head =>
    if polled = false then return ⟨q.popBack, irq, buffer, g, none⟩
    else
      let size : Int := match packet with
        | none => -1
        | some bytes => bytes.length
      let bytes := packet.getD []
      let buffer := bytes ++ buffer.drop bytes.length
      let descStart := (← q.availId g).toUInt32
      let (g, len) ← rxLoop q buffer size fuel g head 0
      let (_, g) ← q.addUsed g descStart len
      return ⟨q, irq.setLevel true, buffer, g, some (descStart, len)⟩

/-- The gather loop of `update_tx`; the guest memory is only read. -/
def txLoop (q : Queue) (g : Guest) : Nat → List UInt8 → UInt16 → UInt32 →
    Except Fault (List UInt8 × UInt32)
  | 0, _, _, _ => .error .unfinished
  | fuel + 1, buffer, next, written => do
    let d ← q.descriptor g next
    hostRoom buffer written.toNat d.len.toNat
    let buffer := splice buffer written.toNat (← g.read d.addr d.len.toNat)
    let written := written + d.len
    if d.hasNext then
      let next ← descriptorIndex d.next
      txLoop q g fuel buffer next written
    else .ok (buffer, written)

/-- `tapWrite` is the result of `::write` for the frame it is given. -/
def updateTx (fuel : Nat) (q : Queue) (irq : Interrupt) (buffer : List UInt8) (g : Guest)
    (tapWrite : List UInt8 → Int) : Except Fault Result := do
  let (taken, q) ← q.next g
  match taken with
  | none => return ⟨q, irq, buffer, g, none⟩
  | some head =>
    let descStart := (← q.availId g).toUInt32
    let (buffer, written) ← txLoop q g fuel buffer head 0
    let ret := tapWrite (buffer.take written.toNat)
    let len := UInt32.ofInt ret
    let (_, g) ← q.addUsed g descStart len
    return ⟨q, irq.setLevel true, buffer, g, some (descStart, len)⟩

end Net

end Kthxvm.Virtio
