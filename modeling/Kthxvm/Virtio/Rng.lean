import Kthxvm.Virtio.Device

/-! The entropy device of `rng.h`. `update` runs on every vCPU thread, so its
body is also given as the four atomic steps between which threads interleave. -/
namespace Kthxvm.Virtio

open Lib.ByteMemory

namespace Rng

/-- Where one call of `update` stands, with the locals it has computed. -/
inductive Position where
  | start
  /-- `next` is set -/
  | taken (next : UInt16)
  /-- `desc_start` is set -/
  | named (next : UInt16) (descStart : UInt32)
  /-- the buffer is filled and `len` is set -/
  | filled (descStart len : UInt32)
  | finished
deriving DecidableEq

def stepNext (q : Queue) (g : Guest) : Except Fault (Position × Queue) := do
  let (taken, q) ← q.next g
  match taken with
  | none => return (.finished, q)
  | some next => return (.taken next, q)

def stepAvailId (q : Queue) (g : Guest) (next : UInt16) : Except Fault Position := do
  return .named next (← q.availId g).toUInt32

/-- `file.read(ptr + next->addr, next->len)`, where the file yields `random n`,
and `len += next->len` -/
def stepFill (q : Queue) (g : Guest) (random : Nat → List UInt8) (next : UInt16)
    (descStart : UInt32) : Except Fault (Position × Guest) := do
  let d ← q.descriptor g next
  let g ← g.write d.addr (random d.len.toNat)
  let d ← q.descriptor g next
  return (.filled descStart d.len, g)

def stepAddUsed (q : Queue) (g : Guest) (descStart len : UInt32) : Except Fault Guest := do
  let (_, g) ← q.addUsed g descStart len
  return g

/-- The whole call; the last component is the argument pair of `add_used`. -/
def update (q : Queue) (irq : Interrupt) (g : Guest) (random : Nat → List UInt8) :
    Except Fault (Queue × Interrupt × Guest × Option (UInt32 × UInt32)) := do
  let (taken, q) ← q.next g
  match taken with
  | none => return (q, irq, g, none)
  | some next =>
    let descStart := (← q.availId g).toUInt32
    let d ← q.descriptor g next
    let g ← g.write d.addr (random d.len.toNat)
    let len := (← q.descriptor g next).len
    let (_, g) ← q.addUsed g descStart len
    return (q, irq.setLevel true, g, some (descStart, len))

/-- A call that nobody interrupts takes the four steps in order. -/
theorem update_eq_steps (q : Queue) (irq : Interrupt) (g : Guest)
    (random : Nat → List UInt8) :
    update q irq g random = (do
      let (position, q) ← stepNext q g
      match position with
      | .taken next =>
        match ← stepAvailId q g next with
        | .named next descStart =>
          let (position, g) ← stepFill q g random next descStart
          match position with
          | .filled descStart len =>
            let g ← stepAddUsed q g descStart len
            return (q, irq.setLevel true, g, some (descStart, len))
          | _ => return (q, irq, g, none)
        | _ => return (q, irq, g, none)
      | _ => return (q, irq, g, none)) := by
  simp only [update, stepNext, stepAvailId, stepFill, stepAddUsed, bind_assoc, pure_bind]
  congr 1
  funext taken
  obtain ⟨taken, q⟩ := taken
  cases taken <;> simp

end Rng

end Kthxvm.Virtio
