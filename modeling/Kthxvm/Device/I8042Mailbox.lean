import Kthxvm.Device.LinePulses
import Kthxvm.Lib.Product

/-! What the keyboard controller is for its guest: a mailbox for one byte, where the answer
to a command or an acknowledgement replaces what was in it. The ring buffer of the source,
its two indices and the test in `read` make no difference to that. -/
namespace Kthxvm.I8042

open IoDevice Interrupt Lib.Flags Lib.Product

/-- The controller without its ring buffer. -/
structure Mailbox where
  command : UInt8 := 0
  status : UInt8 := sbKbdEnabled
  control : UInt8 := cbPostOk ||| cbKbdInt
  outp : UInt8 := 0
  slot : Option UInt8 := none
deriving DecidableEq

namespace Mailbox

/-- A byte for the guest, in place of any that it did not fetch. -/
def answer (box : Mailbox) (b : UInt8) : Mailbox :=
  { box with status := sbOutDataAvail, slot := some b }

def fetch (box : Mailbox) : Mailbox :=
  match box.slot with
  | none => box
  | some _ => { box with status := 0, slot := none }

def issue (box : Mailbox) (cmd : UInt8) : Mailbox :=
  if cmd = cmdReadCtr then box.answer box.control
  else if cmd = cmdWriteCtr then
    { box with status := sbI8042CmdData, slot := none, command := cmdWriteCtr }
  else if cmd = cmdReadOutp then box.answer box.outp
  else if cmd = cmdWriteOutp then
    { box with status := box.status ||| sbI8042CmdData, command := cmdWriteOutp }
  else if cmd = cmdResetKbd then { box with status := 0 }
  else box

def accept (box : Mailbox) (b : UInt8) : Mailbox :=
  { box with
    control := if box.command = cmdWriteCtr then b else box.control
    outp := if box.command = cmdWriteOutp then b else box.outp
    status := 0 }

/-- The bytes returned, the mailbox after the access, and how often it signals the guest. -/
def serve (box : Mailbox) : Access → Except Fault (List UInt8 × Mailbox × Nat)
  | .read offset size =>
    if offset = commandReg then do
      let buf ← putByte size box.status
      return (buf, box, 0)
    else if offset = dataReg then do
      let buf ← putByte size (box.slot.getD 0)
      return (buf, box.fetch, 0)
    else .ok (zeros size, box, 0)
  | .write offset data =>
    if offset = commandReg then do
      let cmd ← firstByte data
      return ([], box.issue cmd, 0)
    else if offset = dataReg then
      if box.status &&& sbI8042CmdData ≠ 0 then
        if box.command = cmdWriteCtr ∨ box.command = cmdWriteOutp then do
          let b ← firstByte data
          return ([], box.accept b, 0)
        else .ok ([], { box with status := 0 }, 0)
      else .ok ([], box.answer 0xFA, if box.control &&& cbKbdInt ≠ 0 then 1 else 0)
    else .ok ([], box, 0)

structure Counted where
  box : Mailbox
  signals : Nat := 0

def Step (s : Counted) (l : Served) (s' : Counted) : Prop :=
  ∃ n, s.box.serve l.access = .ok (l.reply, s'.box, n) ∧ s'.signals = s.signals + n

end Mailbox

/-- What is in the first slot of the buffer while the indices differ. -/
def mailbox (k : I8042) : Mailbox where
  command := k.command
  status := k.status
  control := k.control
  outp := k.outp
  slot := if k.bufferLen = 0 then none else some k.buffer[0]

/-- Besides the buffer: while it is empty the status does not announce a byte. -/
structure Honest (k : I8042) : Prop extends Sound k where
  announced : k.bufferLen = 0 → k.status &&& sbOutDataAvail = 0

section Mailbox

variable {k : I8042}

theorem honest_push (k : I8042) (val : UInt8) : Honest (k.flush.push val) := by
  have hlen : ¬ (1 : UInt32) - 0 = 0 := by decide
  rw [flush_push]
  exact ⟨⟨Nat.zero_le _, le_refl _⟩, fun h => absurd h hlen⟩

theorem mailbox_push (k : I8042) (val : UInt8) :
    (k.flush.push val).mailbox = k.mailbox.answer val := by
  rw [flush_push]
  have hlen : ¬ (1 : UInt32) - 0 = 0 := by decide
  unfold mailbox Mailbox.answer bufferLen
  simp only [if_neg hlen, Vector.getElem_set_self]

theorem Honest.registers {k' : I8042} (h : Honest k) (hhead : k'.bufferHead = k.bufferHead)
    (htail : k'.bufferTail = k.bufferTail)
    (hstatus : k.status &&& sbOutDataAvail = 0 → k'.status &&& sbOutDataAvail = 0) :
    Honest k' := by
  have hlen : k'.bufferLen = k.bufferLen := by
    unfold bufferLen
    rw [hhead, htail]
  constructor
  · exact ⟨by rw [hhead, htail]; exact h.head_le, by rw [htail]; exact h.tail_le⟩
  · rw [hlen]
    exact fun hempty => hstatus (h.announced hempty)

theorem Honest.pop (h : Honest k) : Honest k.pop.2 := by
  by_cases hlen : k.bufferLen = 0
  · rw [pop_of_empty hlen]
    exact h
  · obtain ⟨-, htail⟩ := h.ends hlen
    rw [h.toSound.pop hlen]
    exact ⟨⟨by rw [htail], h.tail_le⟩, fun _ => UInt8.zero_and⟩

theorem Honest.mailbox_pop (h : Honest k) :
    k.pop.1 = k.mailbox.slot.getD 0 ∧ k.pop.2.mailbox = k.mailbox.fetch := by
  by_cases hlen : k.bufferLen = 0
  · have hslot : k.mailbox.slot = none := if_pos hlen
    rw [pop_of_empty hlen]
    unfold Mailbox.fetch
    rw [hslot]
    exact ⟨rfl, rfl⟩
  · obtain ⟨-, htail⟩ := h.ends hlen
    have hslot : k.mailbox.slot = some k.buffer[0] := if_neg hlen
    have hempty : (1 : UInt32) - 1 = 0 := by decide
    rw [h.toSound.pop hlen]
    unfold Mailbox.fetch
    rw [hslot]
    refine ⟨rfl, ?_⟩
    unfold mailbox bufferLen
    simp only [htail, if_pos hempty]

theorem Honest.popped_idle (h : Honest k) : k.pop.2.status &&& sbOutDataAvail = 0 :=
  h.pop.announced h.bufferLen_pop

theorem mailbox_writeCommand (k : I8042) (cmd : UInt8) :
    (k.writeCommand cmd).mailbox = k.mailbox.issue cmd := by
  unfold Mailbox.issue
  split_ifs with hreadCtr hwriteCtr hreadOutp hwriteOutp hreset
  · subst hreadCtr
    exact mailbox_push k k.control
  · subst hwriteCtr
    have hempty : (0 : UInt32) - 0 = 0 := by decide
    rw [writeCommand_writeCtr]
    unfold mailbox bufferLen
    simp only [if_pos hempty]
  · subst hreadOutp
    exact mailbox_push k k.outp
  · subst hwriteOutp
    rfl
  · subst hreset
    rfl
  · rw [writeCommand_other (fun h => h.elim hreadCtr hreadOutp) hwriteCtr hwriteOutp hreset]

theorem Honest.writeCommand (h : Honest k) (cmd : UInt8) : Honest (k.writeCommand cmd) := by
  by_cases hread : cmd = cmdReadCtr ∨ cmd = cmdReadOutp
  · obtain ⟨val, hval⟩ := k.writeCommand_read hread
    rw [hval]
    exact honest_push k val
  by_cases hctr : cmd = cmdWriteCtr
  · subst hctr
    rw [writeCommand_writeCtr]
    have hbit : sbI8042CmdData &&& sbOutDataAvail = 0 := by decide
    exact ⟨sound_of_empty rfl rfl, fun _ => hbit⟩
  by_cases houtp : cmd = cmdWriteOutp
  · subst houtp
    refine h.registers rfl rfl fun hidle => ?_
    have hapart : (k.status ||| sbI8042CmdData) &&& sbOutDataAvail =
        k.status &&& sbOutDataAvail := or_and_of_apart (by decide)
    exact hapart.trans hidle
  by_cases hreset : cmd = cmdResetKbd
  · subst hreset
    exact h.registers rfl rfl fun _ => UInt8.zero_and
  · rw [writeCommand_other hread hctr houtp hreset]
    exact h

theorem mailbox_parameter (k : I8042) (b : UInt8) :
    (k.parameter b).mailbox = k.mailbox.accept b := rfl

theorem writeParameter_eq (k : I8042) (data : List UInt8) : k.writeParameter data =
    if k.command = cmdWriteCtr ∨ k.command = cmdWriteOutp then (firstByte data).map k.parameter
    else .ok { k with status := 0 } := by
  have hcleared : ∀ status, status &&& logicalNot sbI8042CmdData = 0 := fun status =>
    and_logicalNot status (by decide)
  have hne : cmdWriteOutp ≠ cmdWriteCtr := by decide
  unfold writeParameter storeParameter
  by_cases hctr : k.command = cmdWriteCtr
  · rw [if_pos hctr, if_pos (Or.inl hctr)]
    cases firstByte data with
    | error e => rfl
    | ok b =>
      have houtp : k.command ≠ cmdWriteOutp := fun h => hne (h.symm.trans hctr)
      unfold parameter
      dsimp only [ok_bind, Except.map]
      rw [if_pos hctr, if_neg houtp]
      simp only [pure_bind, hcleared]
      rfl
  rw [if_neg hctr]
  by_cases houtp : k.command = cmdWriteOutp
  · rw [if_pos houtp, if_pos (Or.inr houtp)]
    cases firstByte data with
    | error e => rfl
    | ok b =>
      unfold parameter
      dsimp only [ok_bind, Except.map]
      rw [if_neg hctr, if_pos houtp]
      simp only [pure_bind, hcleared]
      rfl
  · rw [if_neg houtp, if_neg fun h => h.elim hctr houtp]
    dsimp only [ok_bind]
    rw [hcleared]
    rfl

theorem Honest.writeParameter (h : Honest k) {data : List UInt8} {k' : I8042}
    (hk : k.writeParameter data = .ok k') : Honest k' := by
  rw [writeParameter_eq_ok hk]
  exact h.registers rfl rfl fun _ => UInt8.zero_and

theorem triggerIrq_raised (k : I8042) {irq : Interrupt} (hlow : irq.state = false) :
    k.triggerIrq irq = irq.raised (if k.control &&& cbKbdInt ≠ 0 then 1 else 0) := by
  unfold triggerIrq
  split
  · exact pulse_low hlow
  · rfl

theorem Honest.serve_eq (h : Honest k) {irq : Interrupt} (hlow : irq.state = false)
    (access : Access) :
    (Wired.serve ⟨k, irq⟩ access).map (fun p => (p.1, p.2.controller.mailbox, p.2.irq)) =
      (k.mailbox.serve access).map fun p => (p.1, p.2.1, irq.raised p.2.2) := by
  cases access with
  | read offset size =>
    unfold Wired.serve I8042.read Mailbox.serve
    dsimp only
    by_cases hcommand : offset = commandReg
    · rw [if_pos hcommand, if_pos hcommand]
      have hstatus : k.mailbox.status = k.status := rfl
      rw [hstatus]
      cases putByte size k.status <;> rfl
    rw [if_neg hcommand, if_neg hcommand]
    by_cases hdata : offset = dataReg
    · obtain ⟨hvalue, hbox⟩ := h.mailbox_pop
      rw [if_pos hdata, if_pos hdata, if_neg (not_not.mpr h.popped_idle), ← hvalue, ← hbox]
      cases putByte size k.pop.1 <;> rfl
    · rw [if_neg hdata, if_neg hdata]
      rfl
  | write offset data =>
    unfold Wired.serve I8042.write Mailbox.serve
    dsimp only
    by_cases hcommand : offset = commandReg
    · rw [if_pos hcommand, if_pos hcommand]
      cases firstByte data with
      | error e => rfl
      | ok cmd =>
        dsimp only [ok_bind]
        rw [← mailbox_writeCommand]
        rfl
    rw [if_neg hcommand, if_neg hcommand]
    by_cases hdata : offset = dataReg
    · rw [if_pos hdata, if_pos hdata]
      have hstatus : k.mailbox.status = k.status := rfl
      rw [hstatus]
      by_cases hpending : k.status &&& sbI8042CmdData ≠ 0
      · have hcommand : k.mailbox.command = k.command := rfl
        rw [if_pos hpending, if_pos hpending, writeParameter_eq, hcommand]
        split
        · cases firstByte data with
          | error e => rfl
          | ok b =>
            dsimp only [ok_bind, Except.map]
            rw [← mailbox_parameter]
            rfl
        · rfl
      · rw [if_neg hpending, if_neg hpending, ← mailbox_push, triggerIrq_raised _ hlow]
        have hcontrol : (k.flush.push 0xFA).control = k.mailbox.control := by rw [flush_push]; rfl
        rw [hcontrol]
        rfl
    · rw [if_neg hdata, if_neg hdata]
      rfl

theorem Honest.serve (h : Honest k) {irq : Interrupt} {access : Access} {reply : List UInt8}
    {s : Wired} (hs : Wired.serve ⟨k, irq⟩ access = .ok (reply, s)) : Honest s.controller := by
  have hnext : s.controller = k.next access :=
    step_next (s := ⟨k, irq⟩) (l := ⟨access, reply⟩) hs
  rw [hnext]
  unfold next
  cases access with
  | read offset size =>
    dsimp only
    split
    · exact h.pop
    · exact h
  | write offset data =>
    dsimp only
    split
    · exact h.writeCommand _
    split
    · split
      · exact h.registers rfl rfl fun _ => UInt8.zero_and
      · exact honest_push k 0xFA
    · exact h

end Mailbox

structure Matches (irq : Interrupt) (s : Wired) (t : Mailbox.Counted) : Prop where
  honest : Honest s.controller
  low : irq.state = false
  box : t.box = s.controller.mailbox
  line : s.irq = irq.raised t.signals

section Run

variable {irq : Interrupt} {s s' start : Wired} {t t' : Mailbox.Counted} {l : Served}
  {ls : List Served}

theorem Matches.step (h : Matches irq s t) (hs : Step s l s') :
    ∃ t', Mailbox.Step t l t' ∧ Matches irq s' t' := by
  have hlow : s.irq.state = false := by rw [h.line]; exact h.low
  have heq := h.honest.serve_eq hlow l.access
  have hserve : Wired.serve ⟨s.controller, s.irq⟩ l.access = .ok (l.reply, s') := hs
  rw [hserve, ← h.box] at heq
  cases hbox : t.box.serve l.access with
  | error e =>
    rw [hbox] at heq
    contradiction
  | ok result =>
    obtain ⟨reply, box, n⟩ := result
    rw [hbox] at heq
    obtain ⟨hreply, hrest⟩ := Prod.mk.inj (Except.ok.inj heq)
    obtain ⟨hmailbox, hline⟩ := Prod.mk.inj hrest
    dsimp only at hreply hmailbox hline
    refine ⟨⟨box, t.signals + n⟩, ⟨n, by rw [hbox, hreply], rfl⟩, h.honest.serve hserve, h.low,
      hmailbox.symm, ?_⟩
    rw [hline, h.line]
    exact (raised_add _ _ _).symm

theorem Matches.step_back (h : Matches irq s t) (ht : Mailbox.Step t l t') :
    ∃ s', Step s l s' ∧ Matches irq s' t' := by
  obtain ⟨n, hbox, hsignals⟩ := ht
  have hlow : s.irq.state = false := by rw [h.line]; exact h.low
  have heq := h.honest.serve_eq hlow l.access
  rw [← h.box, hbox] at heq
  cases hserve : Wired.serve ⟨s.controller, s.irq⟩ l.access with
  | error e =>
    rw [hserve] at heq
    contradiction
  | ok result =>
    obtain ⟨reply, s'⟩ := result
    rw [hserve] at heq
    obtain ⟨hreply, hrest⟩ := Prod.mk.inj (Except.ok.inj heq)
    obtain ⟨hmailbox, hline⟩ := Prod.mk.inj hrest
    dsimp only at hreply hmailbox hline
    have hstep : Step s l s' := by
      unfold Step
      rw [← hreply]
      exact hserve
    refine ⟨s', hstep, h.honest.serve hserve, h.low, hmailbox.symm, ?_⟩
    rw [hline, h.line, hsignals]
    exact (raised_add _ _ _).symm

theorem matches_start (h : Start start) (hlow : start.irq.state = false) :
    Matches start.irq start ⟨{}, 0⟩ := by
  obtain ⟨buffer, hk⟩ := h
  have hempty : (0 : UInt32) - 0 = 0 := by decide
  refine ⟨?_, hlow, ?_, (raised_zero _).symm⟩
  · rw [hk]
    have hbit : sbKbdEnabled &&& sbOutDataAvail = 0 := by decide
    exact ⟨sound_of_empty rfl rfl, fun _ => hbit⟩
  · rw [hk]
    unfold mailbox fresh bufferLen
    simp only [if_pos hempty]

/-- A sequence of accesses with these replies is possible for the controller exactly when
it is for the mailbox, and then both have signalled the guest as often. -/
theorem controller_is_mailbox (h : Start start) (hlow : start.irq.state = false) :
    (∃ s, Path Step start ls s ∧ s.controller.mailbox = t.box ∧
      s.irq = start.irq.raised t.signals) ↔ Path Mailbox.Step ⟨{}, 0⟩ ls t := by
  have hstart := matches_start h hlow
  constructor
  · rintro ⟨s, hpath, hbox, hline⟩
    obtain ⟨t', hpath', hmatch⟩ :=
      hpath.simulate (fun _ _ _ _ h hstep => h.step hstep) hstart
    have hsignals : start.irq.fd + t'.signals = start.irq.fd + t.signals :=
      congrArg fd (hmatch.line.symm.trans hline)
    have hsame : t' = t := by
      obtain ⟨box, signals⟩ := t
      obtain ⟨box', signals'⟩ := t'
      obtain rfl : box' = box := hmatch.box.trans hbox
      obtain rfl : signals' = signals := Nat.add_left_cancel hsignals
      rfl
    rwa [← hsame]
  · intro hpath
    have hback : ∀ (t : Mailbox.Counted) (s : Wired) l t', Matches start.irq s t →
        Mailbox.Step t l t' → ∃ s', Step s l s' ∧ Matches start.irq s' t' :=
      fun _ _ _ _ h hstep => h.step_back hstep
    obtain ⟨s, hpath', hmatch⟩ :=
      hpath.simulate (R := fun t s => Matches start.irq s t) hback hstart
    exact ⟨s, hpath', hmatch.box.symm, hmatch.line⟩

end Run

/-- A byte without a command is acknowledged, and the acknowledgement is fetched. -/
theorem acknowledged : Path Mailbox.Step ⟨{}, 0⟩
    [⟨.write dataReg [0xED], []⟩, ⟨.read dataReg 1, [0xFA]⟩] ⟨{ status := 0 }, 1⟩ := by
  refine (controller_is_mailbox start_newKeyboard rfl).mp
    ⟨⟨{ newKeyboard with
        status := 0
        buffer := (Vector.replicate 16 0).set 0 0xFA
        bufferHead := 1
        bufferTail := 1 }, kbdLine.raised 1⟩, ?_, rfl, rfl⟩
  exact Path.cons rfl (Path.cons rfl (Path.nil _))

end Kthxvm.I8042
