import Kthxvm.Device.I8042Run
import Kthxvm.Device.UartRun

/-! A device on a port drives its line and never looks at it: between two accesses the line
is low, and an access adds to the eventfd a number that does not depend on the line. -/
namespace Kthxvm

open IoDevice

namespace Interrupt

def raised (irq : Interrupt) (n : Nat) : Interrupt := { irq with fd := irq.fd + n }

@[simp] theorem raised_state (irq : Interrupt) (n : Nat) : (irq.raised n).state = irq.state := rfl

@[simp] theorem raised_fd (irq : Interrupt) (n : Nat) : (irq.raised n).fd = irq.fd + n := rfl

@[simp] theorem raised_zero (irq : Interrupt) : irq.raised 0 = irq := rfl

theorem raised_add (irq : Interrupt) (n k : Nat) :
    irq.raised (n + k) = (irq.raised n).raised k := by
  unfold raised
  rw [Nat.add_assoc]

theorem setLevel_low {irq : Interrupt} (h : irq.state = false) : irq.setLevel false = irq :=
  if_pos h

theorem pulse_low {irq : Interrupt} (h : irq.state = false) :
    (irq.setLevel true).setLevel false = irq.raised 1 := by
  obtain ⟨number, fd, state⟩ := irq
  cases h
  rfl

/-- What a computation does to a low line does not depend on which line it is. -/
def Pulsed {α : Type} (f : Interrupt → Except Fault (α × Interrupt)) : Prop :=
  ∃ r : Except Fault (α × Nat), ∀ irq : Interrupt, irq.state = false →
    f irq = r.map fun p => (p.1, irq.raised p.2)

namespace Pulsed

variable {α β : Type} {f : Interrupt → Except Fault (α × Interrupt)}

theorem quiet (a : α) : Pulsed fun irq => .ok (a, irq) := ⟨.ok (a, 0), fun _ _ => rfl⟩

theorem once (a : α) : Pulsed fun irq => .ok (a, (irq.setLevel true).setLevel false) := by
  refine ⟨.ok (a, 1), fun irq h => ?_⟩
  exact congrArg (fun irq => Except.ok (a, irq)) (pulse_low h)

theorem failed (e : Fault) : Pulsed fun _ => (.error e : Except Fault (α × Interrupt)) :=
  ⟨.error e, fun _ _ => rfl⟩

theorem map (g : α → β) (h : Pulsed f) : Pulsed fun irq => (f irq).map fun p => (g p.1, p.2) := by
  obtain ⟨r, hr⟩ := h
  refine ⟨r.map fun p => (g p.1, p.2), fun irq hirq => ?_⟩
  dsimp only
  rw [hr irq hirq]
  cases r <;> rfl

theorem of_eq {g : Interrupt → Except Fault (α × Interrupt)} (h : Pulsed g)
    (heq : ∀ irq, f irq = g irq) : Pulsed f := by
  rwa [funext heq]

theorem transport (h : Pulsed f) {irq irq' : Interrupt} {a : α} (hlow : irq.state = false)
    (hf : f irq = .ok (a, irq')) :
    ∃ n, irq' = irq.raised n ∧ ∀ irq₂ : Interrupt, irq₂.state = false →
      f irq₂ = .ok (a, irq₂.raised n) := by
  obtain ⟨r, hr⟩ := h
  rw [hr irq hlow] at hf
  cases r with
  | error e => contradiction
  | ok p =>
    obtain ⟨b, n⟩ := p
    cases hf
    exact ⟨n, rfl, fun irq₂ hlow₂ => hr irq₂ hlow₂⟩

end Pulsed

end Interrupt

open Interrupt

namespace Uart

theorem signal_pulsed {α : Type} (x : Except Fault α) (p : UInt8) :
    Pulsed fun irq => x.map (·, signal irq p) := by
  cases x with
  | error e => exact Pulsed.failed e
  | ok a =>
    unfold signal
    by_cases hp : p = 0
    · simp only [if_pos hp]
      refine ⟨.ok (a, 0), fun irq h => ?_⟩
      exact congrArg (fun irq => Except.ok (a, irq)) (setLevel_low h)
    · simp only [if_neg hp]
      exact Pulsed.once a

theorem updateIrq_pulsed (u : Uart) (indeterminate : UInt8) :
    Pulsed fun irq => u.updateIrq irq indeterminate := by
  simp only [updateIrq_eq]
  exact signal_pulsed _ _

theorem updateIrq_reply_pulsed (u : Uart) (indeterminate : UInt8) (buf : List UInt8) :
    Pulsed fun irq => (u.updateIrq irq indeterminate).map fun p => ((buf, p.1), p.2) :=
  (updateIrq_pulsed u indeterminate).map fun u => (buf, u)

theorem serve_pulsed (u : Uart) (access : Access) (indeterminate : UInt8) :
    Pulsed fun irq => (Wired.serve ⟨u, irq⟩ access indeterminate).map
      fun p => ((p.1, p.2.uart), p.2.irq) := by
  cases access with
  | read offset size =>
    unfold Wired.serve read
    dsimp only
    cases u.readDivisor (.ofOffset offset) with
    | some value =>
      dsimp only
      cases putByte size value with
      | error e => exact Pulsed.failed e
      | ok buf => exact Pulsed.quiet (buf, u)
    | none =>
      dsimp only
      cases u.readRegister (.ofOffset offset) size with
      | error e => exact Pulsed.failed e
      | ok result =>
        apply (updateIrq_reply_pulsed result.2 indeterminate result.1).of_eq
        intro irq
        dsimp only [ok_bind]
        cases result.2.updateIrq irq indeterminate <;> rfl
  | write offset data =>
    unfold Wired.serve write
    dsimp only
    cases u.writeDivisor (.ofOffset offset) data with
    | error e => exact Pulsed.failed e
    | ok u₁ =>
      dsimp only [ok_bind]
      cases u₁.writeRegister (.ofOffset offset) data with
      | error e => exact Pulsed.failed e
      | ok u₂ =>
        apply (updateIrq_reply_pulsed u₂ indeterminate []).of_eq
        intro irq
        dsimp only [ok_bind]
        cases u₂.updateIrq irq indeterminate <;> rfl
  | stdio input =>
    unfold Wired.serve writeStdio
    dsimp only
    split_ifs with hloop hbusy hterm
    · exact Pulsed.quiet ([], u)
    · apply (updateIrq_reply_pulsed u indeterminate []).of_eq
      intro irq
      cases u.updateIrq irq indeterminate <;> rfl
    · exact Pulsed.failed _
    · apply (updateIrq_reply_pulsed (u.receiveInput input) indeterminate []).of_eq
      intro irq
      cases (u.receiveInput input).updateIrq irq indeterminate <;> rfl

theorem step_line {s s' : Wired} {l : Served} (hlow : s.irq.state = false) (h : Step s l s') :
    ∃ n, s'.irq = s.irq.raised n ∧ ∀ irq : Interrupt, irq.state = false →
      Step ⟨s.uart, irq⟩ l ⟨s'.uart, irq.raised n⟩ := by
  have hf : (Wired.serve ⟨s.uart, s.irq⟩ l.access l.indeterminate).map
      (fun p => ((p.1, p.2.uart), p.2.irq)) = .ok ((l.reply, s'.uart), s'.irq) :=
    congrArg (Except.map _) h
  obtain ⟨n, hn, hall⟩ := (serve_pulsed s.uart l.access l.indeterminate).transport hlow hf
  refine ⟨n, hn, fun irq hirq => ?_⟩
  have hirq := hall irq hirq
  unfold Step
  cases hserve : Wired.serve ⟨s.uart, irq⟩ l.access l.indeterminate with
  | error e =>
    rw [hserve] at hirq
    contradiction
  | ok result =>
    rw [hserve] at hirq
    obtain ⟨buf, u, line⟩ := result
    cases hirq
    rfl

end Uart

namespace I8042

theorem triggerIrq_pulsed {α : Type} (k : I8042) (a : α) :
    Pulsed fun irq => .ok (a, k.triggerIrq irq) := by
  unfold triggerIrq
  split
  · exact Pulsed.once a
  · exact Pulsed.quiet a

theorem serve_pulsed (k : I8042) (access : Access) :
    Pulsed fun irq => (Wired.serve ⟨k, irq⟩ access).map
      fun p => ((p.1, p.2.controller), p.2.irq) := by
  cases access with
  | read offset size =>
    unfold Wired.serve read
    dsimp only
    by_cases hcommand : offset = commandReg
    · simp only [if_pos hcommand]
      cases putByte size k.status with
      | error e => exact Pulsed.failed e
      | ok buf => exact Pulsed.quiet (buf, k)
    simp only [if_neg hcommand]
    by_cases hdata : offset = dataReg
    · simp only [if_pos hdata]
      generalize k.pop = popped
      obtain ⟨value, k'⟩ := popped
      dsimp only
      cases putByte size value with
      | error e => exact Pulsed.failed e
      | ok buf =>
        by_cases hready : k'.status &&& sbOutDataAvail ≠ 0
        · simp only [if_pos hready]
          exact triggerIrq_pulsed k' (buf, k')
        · simp only [if_neg hready]
          exact Pulsed.quiet (buf, k')
    · simp only [if_neg hdata]
      exact Pulsed.quiet (zeros size, k)
  | write offset data =>
    unfold Wired.serve write
    dsimp only
    by_cases hcommand : offset = commandReg
    · simp only [if_pos hcommand]
      cases firstByte data with
      | error e => exact Pulsed.failed e
      | ok cmd => exact Pulsed.quiet ([], k.writeCommand cmd)
    simp only [if_neg hcommand]
    by_cases hdata : offset = dataReg
    · simp only [if_pos hdata]
      by_cases hpending : k.status &&& sbI8042CmdData ≠ 0
      · simp only [if_pos hpending]
        cases k.writeParameter data with
        | error e => exact Pulsed.failed e
        | ok k' => exact Pulsed.quiet ([], k')
      · simp only [if_neg hpending]
        exact triggerIrq_pulsed _ ([], k.flush.push 0xFA)
    · simp only [if_neg hdata]
      exact Pulsed.quiet ([], k)

theorem step_line {s s' : Wired} {l : Served} (hlow : s.irq.state = false) (h : Step s l s') :
    ∃ n, s'.irq = s.irq.raised n ∧ ∀ irq : Interrupt, irq.state = false →
      Step ⟨s.controller, irq⟩ l ⟨s'.controller, irq.raised n⟩ := by
  have hf : (Wired.serve ⟨s.controller, s.irq⟩ l.access).map
      (fun p => ((p.1, p.2.controller), p.2.irq)) = .ok ((l.reply, s'.controller), s'.irq) :=
    congrArg (Except.map _) h
  obtain ⟨n, hn, hall⟩ := (serve_pulsed s.controller l.access).transport hlow hf
  refine ⟨n, hn, fun irq hirq => ?_⟩
  have hirq := hall irq hirq
  unfold Step
  cases hserve : Wired.serve ⟨s.controller, irq⟩ l.access with
  | error e =>
    rw [hserve] at hirq
    contradiction
  | ok result =>
    rw [hserve] at hirq
    obtain ⟨buf, k, line⟩ := result
    cases hirq
    rfl

end I8042

end Kthxvm
