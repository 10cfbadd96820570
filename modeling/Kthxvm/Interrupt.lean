import Mathlib

/-! The edge-filtered interrupt line of `interrupt.h`. -/
namespace Kthxvm

structure Interrupt where
  number : UInt32
  /-- the counter of the eventfd, raised by one for every write of `0x1` -/
  fd : Nat := 0
  state : Bool := false
deriving DecidableEq

namespace Interrupt

/-- Only a rising edge signals the eventfd. -/
def setLevel (irq : Interrupt) (update : Bool) : Interrupt :=
  if irq.state = update then irq
  else
    let irq := if update then { irq with fd := irq.fd + 1 } else irq
    { irq with state := update }

def level (irq : Interrupt) : Bool := irq.state

def num (irq : Interrupt) : UInt32 := irq.number

@[simp] theorem setLevel_state (irq : Interrupt) (update : Bool) :
    (irq.setLevel update).state = update := by
  unfold setLevel
  split
  · assumption
  · rfl

theorem setLevel_low_fd (irq : Interrupt) : (irq.setLevel false).fd = irq.fd := by
  unfold setLevel
  split <;> rfl

/-- A request to raise a line that is high already is swallowed. -/
theorem setLevel_high_of_high {irq : Interrupt} (h : irq.state = true) :
    irq.setLevel true = irq :=
  if_pos h

theorem setLevel_high_fd_of_low {irq : Interrupt} (h : irq.state = false) :
    (irq.setLevel true).fd = irq.fd + 1 := by
  unfold setLevel
  rw [if_neg (by simp [h])]
  rfl

end Interrupt

end Kthxvm
