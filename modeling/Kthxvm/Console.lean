import Kthxvm.MachineRun

/-! The console of the whole machine: what the guest puts on the terminal, and what it gets
from it, over runs in which everything else goes on as well. -/
namespace Kthxvm.Machine

open IoDevice Lib.Transition

/-- The port that `console=ttyS0` writes to and reads from. -/
def consolePort : UInt16 := 0x3f8

/-- The byte that an exit sends to the terminal: the first one, and also while the divisor
latch is selected, since `uart::write` goes on to the data register then. -/
def shown (move : Move Machine Served) : List UInt8 :=
  match move.label.event with
  | .exit _ run =>
    if run.exitReason = kvmExitIo ∧ run.io.direction = kvmExitIoOut ∧ run.io.port = consolePort ∧
        ¬ (move.source.serial PortDevice.ttyS0).isLoop then run.ioData.take 1
    else []
  | _ => []

/-- All that the guest writes to the data register in an exit. -/
def sent (move : Move Machine Served) : List UInt8 :=
  let u := move.source.serial PortDevice.ttyS0
  match move.label.event with
  | .exit _ run =>
    if run.exitReason = kvmExitIo ∧ run.io.direction = kvmExitIoOut ∧ run.io.port = consolePort ∧
        ¬ u.isLoop ∧ ¬ u.isDlabSet then run.ioData.take run.io.length
    else []
  | _ => []

/-- The guest writes to the console port byte by byte and not with the latch selected. -/
def Plain (move : Move Machine Served) : Prop :=
  match move.label.event with
  | .exit _ run => run.exitReason = kvmExitIo → run.io.direction = kvmExitIoOut →
      run.io.port = consolePort →
        run.io.length = 1 ∧ ¬ (move.source.serial PortDevice.ttyS0).isDlabSet
  | _ => True

/-- What comes into the receive buffer: keys, or a byte that the guest loops back. -/
def entered (move : Move Machine Served) : List UInt8 :=
  let u := move.source.serial PortDevice.ttyS0
  match move.label.event with
  | .exit _ run =>
    if run.exitReason = kvmExitIo ∧ run.io.direction = kvmExitIoOut ∧ run.io.port = consolePort ∧
        u.isLoop ∧ u.rxCnt.toNat < Uart.fifoLen then run.ioData.take 1
    else []
  | .terminal input _ => if u.isLoop ∨ u.dataReady ∨ u.rxCnt ≠ 0 then [] else u.stored input
  | .meanwhile _ => []

def fetched (move : Move Machine Served) : List UInt8 :=
  let u := move.source.serial PortDevice.ttyS0
  match move.label.event with
  | .exit _ run =>
    if run.exitReason = kvmExitIo ∧ run.io.direction = kvmExitIoIn ∧ run.io.port = consolePort ∧
        ¬ u.isDlabSet ∧ u.dataReady then move.label.reply.take 1
    else []
  | _ => []

section Step

variable {m m' : Machine} {l : Served}

theorem serial_of_other {n : Fin 4} (h : Step m l m')
    (howner : l.event.owner ≠ some (.port (.ttyS n))) : m'.serial n = m.serial n := by
  cases hother : l.event.owner with
  | none =>
    rw [(step_unclaimed hother h).2]
  | some c =>
    cases c with
    | backend =>
      rw [(step_backend hother h).1]
      rfl
    | port p =>
      cases p with
      | i8042 =>
        obtain ⟨-, h⟩ := (step_keyboard hother).mp h
        cases haccess : l.event.keyboardAccess with
        | none =>
          rw [haccess] at h
          rw [h.2]
        | some access =>
          rw [haccess] at h
          obtain ⟨s, -, rfl⟩ := h
          rfl
      | ttyS n' =>
        have hne : n ≠ n' := by
          rintro rfl
          exact howner hother
        obtain ⟨-, h⟩ := (step_serial hother).mp h
        cases haccess : l.event.serialAccess n' with
        | none =>
          rw [haccess] at h
          rw [h.2]
        | some access =>
          rw [haccess] at h
          obtain ⟨s, -, rfl⟩ := h
          exact Function.update_of_ne hne _ _

theorem serial_of_own {n : Fin 4} (h : Step m l m')
    (howner : l.event.owner = some (.port (.ttyS n))) :
    (∃ access indeterminate s, l.event.serialAccess n = some (access, indeterminate) ∧
      Uart.Step ⟨m.serial n, m.lines (PortDevice.ttyS n).line⟩ ⟨access, indeterminate, l.reply⟩ s ∧
      m'.serial n = s.uart) ∨
    l.event.serialAccess n = none ∧ m'.serial n = m.serial n := by
  obtain ⟨-, h⟩ := (step_serial howner).mp h
  cases haccess : l.event.serialAccess n with
  | none =>
    rw [haccess] at h
    exact Or.inr ⟨rfl, by rw [h.2]⟩
  | some access =>
    rw [haccess] at h
    obtain ⟨s, hserve, rfl⟩ := h
    exact Or.inl ⟨access.1, access.2, s, rfl, hserve, Function.update_self _ _ _⟩

end Step

/-! The console port among the ports. -/

section Port

variable {world : World} {run : KvmRun}

theorem owner_console (hio : run.exitReason = kvmExitIo) (hport : run.io.port = consolePort) :
    (Event.exit world run).owner = some (.port (.ttyS 0)) := by
  have hclaimant : PortDevice.claimant consolePort.toUInt64 = some (.ttyS 0) := by decide
  dsimp only [Event.owner]
  rw [if_pos hio, hport, hclaimant]
  rfl

theorem data_iff_console (port : UInt16) :
    Uart.Register.ofOffset ((PortDevice.ttyS 0).window.offset port.toUInt64) = .data ↔
      port = consolePort := by
  have hoffset : (PortDevice.ttyS 0).window.offset port.toUInt64 =
      port.toUInt64 - consolePort.toUInt64 := rfl
  have hzero : ∀ offset : UInt64, Uart.Register.ofOffset offset = .data ↔ offset = 0 := by
    intro offset
    constructor
    · intro h
      unfold Uart.Register.ofOffset at h
      split at h
      next heq => exact UInt64.toNat_inj.mp heq
      all_goals contradiction
    · rintro rfl
      rfl
  rw [hzero, hoffset, UInt64.sub_eq_iff_eq_add, UInt64.zero_add]
  constructor
  · intro h
    rw [← UInt16.toNat_inj]
    exact congrArg UInt64.toNat h
  · rintro rfl
    rfl

theorem serialAccess_in (hin : run.io.direction = kvmExitIoIn) (n : Fin 4) :
    (Event.exit world run).serialAccess n =
      some (.read ((PortDevice.ttyS n).window.offset run.io.port.toUInt64)
        (run.io.count * run.io.size.toUInt32), world.indeterminate) :=
  if_pos hin

theorem out_ne_in (hout : run.io.direction = kvmExitIoOut) :
    run.io.direction ≠ kvmExitIoIn := by
  rw [hout]
  decide

theorem serialAccess_out (hout : run.io.direction = kvmExitIoOut) (n : Fin 4) :
    (Event.exit world run).serialAccess n =
      some (.write ((PortDevice.ttyS n).window.offset run.io.port.toUInt64) run.ioData,
        world.indeterminate) :=
  (if_neg (out_ne_in hout)).trans (if_pos hout)

end Port

section Run

variable {m m' : Machine} {l : Served}

theorem silent {e : Event} (code : Option UInt32) (reply : List UInt8)
    (h : e.owner ≠ some (.port (.ttyS 0)) ∨ e.serialAccess 0 = none) :
    entered ⟨m, ⟨e, code, reply⟩, m'⟩ = [] ∧ fetched ⟨m, ⟨e, code, reply⟩, m'⟩ = [] ∧
      shown ⟨m, ⟨e, code, reply⟩, m'⟩ = [] := by
  cases e with
  | meanwhile next => exact ⟨rfl, rfl, rfl⟩
  | terminal input indeterminate =>
    rcases h with h | h
    · exact absurd rfl h
    · cases h
  | exit world run =>
    unfold entered fetched shown
    dsimp only
    rcases h with h | h
    · have hport : ∀ hio : run.exitReason = kvmExitIo, run.io.port ≠ consolePort :=
        fun hio hport => h (owner_console hio hport)
      refine ⟨if_neg ?_, if_neg ?_, if_neg ?_⟩
      all_goals
        rintro ⟨hio, -, hport', -⟩
        exact hport hio hport'
    · refine ⟨if_neg ?_, if_neg ?_, if_neg ?_⟩
      · rintro ⟨-, hout, -⟩
        rw [serialAccess_out hout] at h
        cases h
      · rintro ⟨-, hin, -⟩
        rw [serialAccess_in hin] at h
        cases h
      · rintro ⟨-, hout, -⟩
        rw [serialAccess_out hout] at h
        cases h

theorem carries {e : Event} (code : Option UInt32) (reply : List UInt8) (line : Interrupt)
    {access : Uart.Access} {indeterminate : UInt8} {s : Uart.Wired}
    (howner : e.owner = some (.port (.ttyS 0)))
    (haccess : e.serialAccess 0 = some (access, indeterminate)) :
    entered ⟨m, ⟨e, code, reply⟩, m'⟩ =
        Uart.accepted ⟨⟨m.serial 0, line⟩, ⟨access, indeterminate, reply⟩, s⟩ ∧
      fetched ⟨m, ⟨e, code, reply⟩, m'⟩ =
        Uart.returned ⟨⟨m.serial 0, line⟩, ⟨access, indeterminate, reply⟩, s⟩ ∧
      shown ⟨m, ⟨e, code, reply⟩, m'⟩ =
        Uart.written ⟨⟨m.serial 0, line⟩, ⟨access, indeterminate, reply⟩, s⟩ := by
  cases e with
  | meanwhile next => cases howner
  | terminal input indeterminate =>
    cases haccess
    exact ⟨rfl, rfl, rfl⟩
  | exit world run =>
    obtain ⟨hio, -⟩ := Event.owner_exit_port howner
    have hdata := data_iff_console run.io.port
    unfold entered fetched shown
    by_cases hin : run.io.direction = kvmExitIoIn
    · have hout : run.io.direction ≠ kvmExitIoOut := fun hout => out_ne_in hout hin
      rw [serialAccess_in hin] at haccess
      cases haccess
      simp only [hio, hin, hin ▸ hout, true_and, false_and, if_false, ← hdata]
      exact ⟨rfl, rfl, rfl⟩
    · by_cases hout : run.io.direction = kvmExitIoOut
      · rw [serialAccess_out hout] at haccess
        cases haccess
        simp only [hio, hout, hout ▸ hin, true_and, false_and, if_false, ← hdata]
        exact ⟨rfl, rfl, rfl⟩
      · dsimp only [Event.serialAccess] at haccess
        rw [if_neg hin, if_neg hout] at haccess
        cases haccess

theorem step_console (hsound : Uart.Sound (m.serial 0)) (h : Step m l m') :
    Uart.Advances (m.serial 0) (entered ⟨m, l, m'⟩) (fetched ⟨m, l, m'⟩) (shown ⟨m, l, m'⟩)
      (m'.serial 0) := by
  have hsilent : (l.event.owner ≠ some (.port (.ttyS 0)) ∨ l.event.serialAccess 0 = none) →
      m'.serial 0 = m.serial 0 → Uart.Advances (m.serial 0) (entered ⟨m, l, m'⟩)
        (fetched ⟨m, l, m'⟩) (shown ⟨m, l, m'⟩) (m'.serial 0) := by
    intro hnone hsame
    obtain ⟨hentered, hfetched, hshown⟩ := @silent m m' _ l.code l.reply hnone
    rw [hentered, hfetched, hshown, hsame]
    exact Uart.Advances.frame hsound rfl rfl rfl rfl rfl rfl
  by_cases howner : l.event.owner = some (.port (.ttyS 0))
  · rcases serial_of_own h howner with ⟨access, indeterminate, s, haccess, hstep, hsame⟩ |
      ⟨hnone, hsame⟩
    · obtain ⟨hentered, hfetched, hshown⟩ := @carries m m' _ l.code l.reply
        (m.lines (PortDevice.ttyS 0).line) _ _ s howner haccess
      rw [hentered, hfetched, hshown, hsame]
      exact Uart.step_advances hsound hstep
    · exact hsilent (Or.inr hnone) hsame
  · exact hsilent (Or.inl howner) (serial_of_other h howner)

theorem step_unattached {n : Fin 4} (hsound : Uart.Sound (m.serial n))
    (hnone : (m.serial n).term = none) (h : Step m l m') :
    Uart.Sound (m'.serial n) ∧ (m'.serial n).term = none := by
  by_cases howner : l.event.owner = some (.port (.ttyS n))
  · rcases serial_of_own h howner with ⟨access, indeterminate, s, -, hstep, hsame⟩ | ⟨-, hsame⟩
    · have hadv := Uart.step_advances hsound hstep
      rw [hsame, hadv.term]
      dsimp only
      rw [hnone]
      exact ⟨hadv.sound, rfl⟩
    · rw [hsame]
      exact ⟨hsound, hnone⟩
  · rw [serial_of_other h howner]
    exact ⟨hsound, hnone⟩

variable {start : Machine} {moves : List (Move Machine Served)}

structure Connected (m : Machine) : Prop where
  sound : Uart.Sound (m.serial 0)
  term : (m.serial 0).term.isSome
  others : ∀ n, n ≠ 0 → Uart.Sound (m.serial n) ∧ (m.serial n).term = none

theorem Connected.step (h : Connected m) (hstep : Step m l m') : Connected m' := by
  have hadv := step_console h.sound hstep
  constructor
  case sound => exact hadv.sound
  case term =>
    rw [hadv.term, Option.isSome_map]
    exact h.term
  case others =>
    intro n hn
    obtain ⟨hsound, hnone⟩ := h.others n hn
    exact step_unattached hsound hnone hstep

end Run

/-! A byte to the terminal while something happens to guest memory. -/

def stored : Served := ⟨.meanwhile ⟨console.virtio, ⟨fun _ => 1, 0⟩⟩, none, []⟩

end Kthxvm.Machine
