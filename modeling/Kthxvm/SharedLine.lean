import Kthxvm.Interrupt

/-! Several devices on one interrupt. `register_irq` hands out one object for
each number, and `set_level` filters edges on the state that all of them share.
An interleaving of the devices is the list of their calls in order. -/
namespace Kthxvm.SharedLine

abbrev Call (Device : Type) := Device × Bool

variable {Device : Type}

def line (irq : Interrupt) (calls : List (Call Device)) : Interrupt :=
  calls.foldl (fun irq call => irq.setLevel call.2) irq

theorem line_take_succ (irq : Interrupt) {calls : List (Call Device)} {k : Nat}
    {call : Call Device} (h : calls[k]? = some call) :
    line irq (calls.take (k + 1)) = (line irq (calls.take k)).setLevel call.2 := by
  unfold line
  rw [List.take_add_one, h, List.foldl_append]
  rfl

theorem state_take_succ (irq : Interrupt) {calls : List (Call Device)} {k : Nat}
    {call : Call Device} (h : calls[k]? = some call) :
    (line irq (calls.take (k + 1))).state = call.2 := by
  rw [line_take_succ irq h, Interrupt.setLevel_state]

def Writes (irq : Interrupt) (calls : List (Call Device)) (k : Nat) : Prop :=
  (line irq (calls.take (k + 1))).fd ≠ (line irq (calls.take k)).fd

theorem writes_iff (irq : Interrupt) {calls : List (Call Device)} {k : Nat}
    {call : Call Device} (h : calls[k]? = some call) :
    Writes irq calls k ↔ call.2 = true ∧ (line irq (calls.take k)).state = false := by
  unfold Writes
  rw [line_take_succ irq h]
  cases hlevel : call.2 with
  | false =>
    rw [Interrupt.setLevel_low_fd]
    simp
  | true =>
    cases hstate : (line irq (calls.take k)).state with
    | false =>
      rw [Interrupt.setLevel_high_fd_of_low hstate]
      simp
    | true =>
      rw [Interrupt.setLevel_high_of_high hstate]
      simp

/-- A device raises the line with call `i` and lowers it with its next call `j`. -/
structure Pulse (calls : List (Call Device)) (dev : Device) (i j : Nat) : Prop where
  lt : i < j
  raised : calls[i]? = some (dev, true)
  lowered : calls[j]? = some (dev, false)
  between : ∀ k level, i < k → k < j → calls[k]? ≠ some (dev, level)

def Covered (irq : Interrupt) (calls : List (Call Device)) (i j : Nat) : Prop :=
  ∃ k, i ≤ k ∧ k ≤ j ∧ Writes irq calls k

/-- Call `k` raises the line and is the first, or follows a call that lowered it. -/
def Rises (calls : List (Call Device)) (k : Nat) : Prop :=
  (∃ dev, calls[k]? = some (dev, true)) ∧ (k = 0 ∨ ∃ dev, calls[k - 1]? = some (dev, false))

theorem writes_iff_rises {irq : Interrupt} (hlow : irq.state = false)
    {calls : List (Call Device)} {k : Nat} (hk : k < calls.length) :
    Writes irq calls k ↔ Rises calls k := by
  have hget := List.getElem?_eq_getElem hk
  generalize calls[k] = call at hget
  obtain ⟨dev, level⟩ := call
  rw [writes_iff irq hget]
  unfold Rises
  have hraise : (∃ d, calls[k]? = some (d, true)) ↔ level = true := by
    rw [hget]
    simp
  rw [hraise]
  refine and_congr_right fun _ => ?_
  cases k with
  | zero => simp [line, hlow]
  | succ k =>
    have hget' := List.getElem?_eq_getElem (Nat.lt_of_succ_lt hk)
    generalize calls[k] = call' at hget'
    obtain ⟨dev', level'⟩ := call'
    rw [state_take_succ irq hget', Nat.add_sub_cancel, hget']
    simp

/-- In every interleaving, a pulse is covered by a write of the eventfd if and
only if the line rises in its time: its own `set_level(true)` or another one
comes first of all or directly after a `set_level(false)`. -/
theorem covered_iff (number : UInt32) (calls : List (Call Device)) {dev : Device} {i j : Nat}
    (pulse : Pulse calls dev i j) :
    Covered { number := number } calls i j ↔ ∃ k, i ≤ k ∧ k ≤ j ∧ Rises calls k := by
  have hj : j < calls.length := by
    by_contra hge
    have hnone := List.getElem?_eq_none (Nat.le_of_not_lt hge)
    rw [pulse.lowered] at hnone
    contradiction
  unfold Covered
  constructor
  · rintro ⟨k, hik, hkj, hw⟩
    exact ⟨k, hik, hkj, (writes_iff_rises rfl (hkj.trans_lt hj)).mp hw⟩
  · rintro ⟨k, hik, hkj, hr⟩
    exact ⟨k, hik, hkj, (writes_iff_rises rfl (hkj.trans_lt hj)).mpr hr⟩

/-- Two devices that pulse one after the other; the second pulse has its own edge. -/
theorem second_pulse_covered :
    Covered { number := 4 } [(0, true), (0, false), (1, true), ((1 : Nat), false)] 2 3 := by
  have pulse : Pulse [(0, true), (0, false), (1, true), ((1 : Nat), false)] 1 2 3 :=
    ⟨by decide, rfl, rfl, fun k level h h' => by omega⟩
  exact (covered_iff 4 _ pulse).mpr ⟨2, by decide, by decide, ⟨1, rfl⟩, Or.inr ⟨0, rfl⟩⟩

/-- Two devices whose pulses overlap: the second one finds the line high, and
when the first one lowers it nobody raises it again. -/
theorem overlapping_pulse_swallowed : ∃ calls : List (Call Nat), ∃ i j,
    Pulse calls 1 i j ∧ ¬ Covered { number := 4 } calls i j := by
  refine ⟨[(0, true), (1, true), (0, false), (1, false)], 1, 3,
    ⟨by decide, rfl, rfl, ?_⟩, ?_⟩
  · intro k level h h'
    obtain rfl : k = 2 := by omega
    simp
  · rintro ⟨k, h, h', hw⟩
    unfold Writes at hw
    interval_cases k <;> exact hw (by decide)

end Kthxvm.SharedLine
