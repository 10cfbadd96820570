import Kthxvm.Device.I8042Run

/-! The status register against what it stands for: the byte in the buffer, the parameter
that the controller waits for, and the keyboard lock. -/
namespace Kthxvm.I8042

open IoDevice Lib.Flags Lib.Transition

def announces (access : Access) : Option Bool :=
  match access with
  | .read _ _ => none
  | .write offset data =>
    if offset = commandReg then
      if data.headD 0 = cmdWriteCtr ∨ data.headD 0 = cmdWriteOutp then some true
      else if data.headD 0 = cmdResetKbd then some false
      else none
    else if offset = dataReg then some false
    else none

/-- A command was issued whose parameter was not written yet. -/
def awaited (moves : List (Move Wired Served)) : Bool :=
  (moves.filterMap fun move => announces move.label.access).getLast?.getD false

def resets (access : Access) : Bool :=
  match access with
  | .read _ _ => false
  | .write offset data => offset = commandReg ∧ data.headD 0 = cmdResetKbd

structure StatusLaw (waits : Bool) (k : I8042) : Prop where
  available : k.status &&& sbOutDataAvail ≠ 0 ↔ k.bufferLen ≠ 0
  room : k.bufferLen.toNat ≤ bufSize
  pending : k.status &&& sbI8042CmdData ≠ 0 ↔ waits

def locked (k : I8042) : UInt8 := k.status &&& sbKbdEnabled

structure RegisterExact (start : Wired) (moves : List (Move Wired Served)) : Prop where
  reached : ∀ pre s, pre <+: moves → Run Step start pre s →
    StatusLaw (awaited pre) s.controller
  kept : ∀ move ∈ moves, ¬ resets move.label.access →
    move.target.controller.locked = move.source.controller.locked

/-- The access clears no flag that has to stay. To clear one flag the controller clears the
others too, so none of them may be set. -/
def Spares (k : I8042) (access : Access) : Prop :=
  match access with
  | .read offset _ =>
    offset = dataReg ∧ k.bufferLen ≠ 0 → k.status &&& sbI8042CmdData = 0 ∧ k.locked = 0
  | .write offset data =>
    if offset = commandReg then
      if data.headD 0 = cmdReadCtr ∨ data.headD 0 = cmdReadOutp then
        k.status &&& sbI8042CmdData = 0 ∧ k.locked = 0
      else if data.headD 0 = cmdWriteCtr then k.locked = 0
      else if data.headD 0 = cmdResetKbd then k.bufferLen = 0
      else True
    else if offset = dataReg then
      k.locked = 0 ∧ (k.status &&& sbI8042CmdData ≠ 0 → k.bufferLen = 0)
    else True

theorem awaited_snoc (moves : List (Move Wired Served)) (move : Move Wired Served) :
    awaited (moves ++ [move]) = (announces move.label.access).getD (awaited moves) :=
  latest_snoc _ _ _ _

section Law

variable {k k' : I8042} {waits waits' : Bool}

theorem StatusLaw.idle_iff (h : StatusLaw waits k) :
    k.status &&& sbI8042CmdData = 0 ↔ waits = false := by
  have hpending := h.pending
  cases waits
  · simpa using hpending
  · simpa using hpending

theorem law_of_cleared (hroom : k.bufferLen.toNat ≤ bufSize) (hstatus : k.status = 0) :
    StatusLaw waits k ↔ waits = false ∧ k.bufferLen = 0 := by
  constructor
  · intro h
    have havailable := h.available
    rw [hstatus, UInt8.zero_and] at havailable
    have hidle := h.idle_iff.mp (by rw [hstatus, UInt8.zero_and])
    exact ⟨hidle, not_not.mp fun hlen => havailable.mpr hlen rfl⟩
  · rintro ⟨rfl, hlen⟩
    constructor
    case available => simp [hstatus, hlen]
    case room => exact hroom
    case pending => simp [hstatus]

theorem law_push (waits : Bool) (k : I8042) (val : UInt8) :
    StatusLaw waits (k.flush.push val) ↔ waits = false := by
  have hlen : (k.flush.push val).bufferLen = 1 := by
    rw [flush_push]
    exact UInt32.sub_zero 1
  have hstatus : (k.flush.push val).status = sbOutDataAvail := by rw [flush_push]
  constructor
  · intro h
    exact h.idle_iff.mp (by rw [hstatus]; decide)
  · rintro rfl
    constructor
    case available =>
      rw [hlen, hstatus]
      decide
    case room =>
      rw [hlen]
      decide
    case pending =>
      rw [hstatus]
      decide

theorem locked_push (k : I8042) (val : UInt8) : (k.flush.push val).locked = 0 := by
  have hapart : sbOutDataAvail &&& sbKbdEnabled = 0 := by decide
  rw [flush_push]
  exact hapart

theorem read_keeps_iff (hsound : Sound k) (h : StatusLaw waits k) (offset : UInt64)
    (size : UInt32) :
    StatusLaw waits (k.next (.read offset size)) ∧
        (k.next (.read offset size)).locked = k.locked ↔ k.Spares (.read offset size) := by
  unfold next Spares
  dsimp only
  by_cases hdata : offset = dataReg
  · rw [if_pos hdata]
    by_cases hlen : k.bufferLen = 0
    · rw [pop_of_empty hlen]
      exact ⟨fun _ hread => absurd hlen hread.2, fun _ => ⟨h, rfl⟩⟩
    · have hempty := hsound.bufferLen_pop
      have hstatus : k.pop.2.status = 0 := by rw [hsound.pop hlen]
      have hlocked : k.pop.2.locked = 0 := by rw [locked, hstatus, UInt8.zero_and]
      rw [law_of_cleared (by rw [hempty]; exact Nat.zero_le _) hstatus, hlocked, ← h.idle_iff]
      exact ⟨fun hkeep _ => ⟨hkeep.1.1, hkeep.2.symm⟩, fun hspare =>
        ⟨⟨(hspare ⟨hdata, hlen⟩).1, hempty⟩, (hspare ⟨hdata, hlen⟩).2.symm⟩⟩
  · rw [if_neg hdata]
    exact ⟨fun _ hread => absurd hread.1 hdata, fun _ => ⟨h, rfl⟩⟩

theorem law_writeCtr (k : I8042) : StatusLaw true (k.writeCommand cmdWriteCtr) := by
  have hstatus : (k.writeCommand cmdWriteCtr).status = sbI8042CmdData := by
    rw [writeCommand_writeCtr]
  have hlen : (k.writeCommand cmdWriteCtr).bufferLen = 0 := by
    rw [writeCommand_writeCtr]
    exact UInt32.sub_zero 0
  constructor
  case available =>
    rw [hstatus, hlen]
    decide
  case room =>
    rw [hlen]
    decide
  case pending =>
    rw [hstatus]
    decide

theorem law_writeOutp (h : StatusLaw waits k) :
    StatusLaw true (k.writeCommand cmdWriteOutp) := by
  have hflag : (k.status ||| sbI8042CmdData) &&& sbOutDataAvail = k.status &&& sbOutDataAvail :=
    or_and_of_apart (by decide)
  have hset : (k.status ||| sbI8042CmdData) &&& sbI8042CmdData ≠ 0 := by
    rw [or_and_self]
    decide
  rw [writeCommand_writeOutp]
  constructor
  case available =>
    dsimp only
    rw [hflag]
    exact h.available
  case room => exact h.room
  case pending => exact ⟨fun _ => rfl, fun _ => hset⟩

theorem command_keeps_iff (h : StatusLaw waits k) (data : List UInt8) :
    StatusLaw ((announces (.write commandReg data)).getD waits)
          (k.writeCommand (data.headD 0)) ∧
        (¬ resets (.write commandReg data) →
          (k.writeCommand (data.headD 0)).locked = k.locked) ↔
      k.Spares (.write commandReg data) := by
  unfold announces resets Spares
  simp only [if_true, true_and, decide_eq_true_eq]
  generalize data.headD 0 = cmd
  by_cases hread : cmd = cmdReadCtr ∨ cmd = cmdReadOutp
  · have hwrite : ¬ (cmd = cmdWriteCtr ∨ cmd = cmdWriteOutp) := by
      rcases hread with rfl | rfl <;> decide
    have hreset : cmd ≠ cmdResetKbd := by
      rcases hread with rfl | rfl <;> decide
    obtain ⟨val, hpush⟩ := writeCommand_read (k := k) hread
    rw [if_neg hwrite, if_neg hreset, if_pos hread, hpush, Option.getD_none, law_push,
      locked_push, ← h.idle_iff]
    exact ⟨fun hkeep => ⟨hkeep.1, (hkeep.2 hreset).symm⟩,
      fun hspare => ⟨hspare.1, fun _ => hspare.2.symm⟩⟩
  rw [if_neg hread]
  by_cases hctr : cmd = cmdWriteCtr
  · subst hctr
    have hapart : sbI8042CmdData &&& sbKbdEnabled = 0 := by decide
    have hlocked : (k.writeCommand cmdWriteCtr).locked = 0 := by
      rw [writeCommand_writeCtr]
      exact hapart
    rw [if_pos (Or.inl rfl), if_pos rfl, hlocked, Option.getD_some]
    exact ⟨fun hkeep => (hkeep.2 (by decide)).symm,
      fun hspare => ⟨law_writeCtr k, fun _ => hspare.symm⟩⟩
  by_cases houtp : cmd = cmdWriteOutp
  · subst houtp
    have hlocked : (k.writeCommand cmdWriteOutp).locked = k.locked := by
      rw [writeCommand_writeOutp]
      exact or_and_of_apart (by decide)
    rw [if_pos (Or.inr rfl), if_neg (by decide), if_neg (by decide)]
    exact ⟨fun _ => trivial, fun _ => ⟨law_writeOutp h, fun _ => hlocked⟩⟩
  by_cases hreset : cmd = cmdResetKbd
  · subst hreset
    have hcleared : StatusLaw false (k.writeCommand cmdResetKbd) ↔
        false = false ∧ k.bufferLen = 0 := law_of_cleared h.room rfl
    rw [if_neg (by decide), if_pos rfl, if_neg (by decide), if_pos rfl, Option.getD_some,
      hcleared]
    exact ⟨fun hkeep => hkeep.1.2, fun hspare => ⟨⟨rfl, hspare⟩, fun hnot => absurd rfl hnot⟩⟩
  · rw [if_neg (not_or.mpr ⟨hctr, houtp⟩), if_neg hreset, if_neg hctr, if_neg hreset,
      writeCommand_other hread hctr houtp hreset]
    exact ⟨fun _ => trivial, fun _ => ⟨h, fun _ => rfl⟩⟩

theorem data_keeps_iff (h : StatusLaw waits k) (data : List UInt8) :
    StatusLaw false (k.next (.write dataReg data)) ∧
        (k.next (.write dataReg data)).locked = k.locked ↔ k.Spares (.write dataReg data) := by
  have hcommand : dataReg ≠ commandReg := by decide
  unfold next Spares
  dsimp only
  rw [if_neg hcommand, if_neg hcommand, if_pos rfl, if_pos rfl]
  by_cases hpending : k.status &&& sbI8042CmdData ≠ 0
  · have hcleared : StatusLaw false (k.parameter (data.headD 0)) ↔
        false = false ∧ k.bufferLen = 0 := law_of_cleared h.room rfl
    have hlocked : (k.parameter (data.headD 0)).locked = 0 := UInt8.zero_and
    rw [if_pos hpending, hcleared, hlocked]
    exact ⟨fun hkeep => ⟨hkeep.2.symm, fun _ => hkeep.1.2⟩,
      fun hspare => ⟨⟨rfl, hspare.2 hpending⟩, hspare.1.symm⟩⟩
  · rw [if_neg hpending, law_push, locked_push]
    exact ⟨fun hkeep => ⟨hkeep.2.symm, fun hset => absurd hset hpending⟩,
      fun hspare => ⟨rfl, hspare.1.symm⟩⟩

theorem keeps_iff_spares (hsound : Sound k) (h : StatusLaw waits k) (access : Access) :
    StatusLaw ((announces access).getD waits) (k.next access) ∧
        (¬ resets access → (k.next access).locked = k.locked) ↔ k.Spares access := by
  cases access with
  | read offset size =>
    rw [← read_keeps_iff hsound h offset size]
    exact ⟨fun hkeep => ⟨hkeep.1, hkeep.2 nofun⟩, fun hkeep => ⟨hkeep.1, fun _ => hkeep.2⟩⟩
  | write offset data =>
    by_cases hcommand : offset = commandReg
    · subst hcommand
      exact command_keeps_iff h data
    have hreset : ¬ resets (.write offset data) := by
      unfold resets
      rw [decide_eq_true_eq]
      exact fun hreset => hcommand hreset.1
    by_cases hdata : offset = dataReg
    · subst hdata
      rw [← data_keeps_iff h data]
      have hannounce : announces (.write dataReg data) = some false := rfl
      rw [hannounce, Option.getD_some]
      exact ⟨fun hkeep => ⟨hkeep.1, hkeep.2 hreset⟩, fun hkeep => ⟨hkeep.1, fun _ => hkeep.2⟩⟩
    · unfold announces next Spares
      dsimp only
      rw [if_neg hcommand, if_neg hcommand, if_neg hcommand, if_neg hdata, if_neg hdata,
        if_neg hdata]
      exact ⟨fun _ => trivial, fun _ => ⟨h, fun _ => rfl⟩⟩

end Law

section

variable {start s : Wired} {moves : List (Move Wired Served)}

theorem law_start (h : Start start) : StatusLaw false start.controller := by
  obtain ⟨buffer, hk⟩ := h
  rw [hk]
  have hlen : (fresh buffer).bufferLen = 0 := UInt32.sub_zero 0
  have hstatus : (fresh buffer).status = sbKbdEnabled := rfl
  constructor
  case available =>
    rw [hlen, hstatus]
    decide
  case room =>
    rw [hlen]
    decide
  case pending =>
    rw [hstatus]
    decide

theorem law_run (h : Start start) (run : Run Step start moves s)
    (hspares : ∀ move ∈ moves, move.source.controller.Spares move.label.access) :
    StatusLaw (awaited moves) s.controller := by
  induction run with
  | nil => exact law_start h
  | @snoc moves s s' l hrun hstep ih =>
    have hlaw := ih fun move hmem => hspares move (List.mem_append_left _ hmem)
    have hspare := hspares _ (List.mem_append_right _ (List.mem_singleton_self _))
    rw [awaited_snoc, step_next hstep]
    exact ((keeps_iff_spares (sound_run h hrun) hlaw l.access).mpr hspare).1

/-- In a run from a new controller the register is exact in every state, and the lock is
kept, exactly when no access clears a flag that has to stay. -/
theorem register_exact_iff (h : Start start) (run : Run Step start moves s) :
    RegisterExact start moves ↔
      ∀ move ∈ moves, move.source.controller.Spares move.label.access := by
  constructor
  · intro hexact move hmem
    obtain ⟨pre, post, hsplit⟩ := List.append_of_mem hmem
    have hbefore := run.before hsplit
    have hstep := run.step_of_mem move hmem
    have hlaw := hexact.reached pre move.source ⟨move :: post, hsplit.symm⟩ hbefore
    have hafter := hexact.reached (pre ++ [move]) move.target
      ⟨post, by rw [hsplit, List.append_assoc]; rfl⟩ (hbefore.snoc hstep)
    have hkept := hexact.kept move hmem
    rw [awaited_snoc] at hafter
    rw [step_next hstep] at hafter hkept
    exact (keeps_iff_spares (sound_run h hbefore) hlaw move.label.access).mp ⟨hafter, hkept⟩
  · intro hspares
    constructor
    case reached =>
      intro pre s' hpre hrun
      exact law_run h hrun fun move hmem => hspares move (hpre.subset hmem)
    case kept =>
      intro move hmem
      obtain ⟨pre, post, hsplit⟩ := List.append_of_mem hmem
      have hbefore := run.before hsplit
      have hlaw := law_run h hbefore fun move' hmem' =>
        hspares move' (by rw [hsplit]; exact List.mem_append_left _ hmem')
      rw [step_next (run.step_of_mem move hmem)]
      exact ((keeps_iff_spares (sound_run h hbefore) hlaw move.label.access).mpr
        (hspares move hmem)).2

end

/-! A guest that resets the keyboard first, and one that does not. -/

def resetKeyboard : I8042 := { newKeyboard with status := 0 }

def expectingKeyboard : I8042 :=
  { resetKeyboard with status := sbI8042CmdData, command := cmdWriteCtr }

def resetMoves : List (Move Wired Served) :=
  [⟨⟨newKeyboard, kbdLine⟩, ⟨.write 4 [0xFF], []⟩, ⟨resetKeyboard, kbdLine⟩⟩,
    ⟨⟨resetKeyboard, kbdLine⟩, ⟨.write 4 [0x60], []⟩, ⟨expectingKeyboard, kbdLine⟩⟩]

theorem reset_run : Run Step ⟨newKeyboard, kbdLine⟩ resetMoves ⟨expectingKeyboard, kbdLine⟩ :=
  (Run.one rfl).snoc rfl

theorem reset_register_exact : RegisterExact ⟨newKeyboard, kbdLine⟩ resetMoves :=
  (register_exact_iff start_newKeyboard reset_run).mpr fun move hmem => by
    rcases List.mem_cons.mp hmem with rfl | hmem
    · exact (by decide : newKeyboard.bufferLen = 0)
    · rw [List.mem_singleton.mp hmem]
      exact (by decide : resetKeyboard.locked = 0)

/-- To announce a parameter locks the keyboard. -/
theorem command_locks_keyboard : ¬ ∀ (start s : Wired) (moves : List (Move Wired Served)),
    Start start → Run Step start moves s → RegisterExact start moves := by
  intro h
  have hrun : Run Step ⟨newKeyboard, kbdLine⟩
      [⟨⟨newKeyboard, kbdLine⟩, ⟨.write 4 [0x60], []⟩, ⟨expectingKeyboard, kbdLine⟩⟩]
      ⟨expectingKeyboard, kbdLine⟩ := Run.one rfl
  have hkept := (h _ _ _ start_newKeyboard hrun).kept _ (List.mem_singleton_self _) (by decide)
  exact absurd hkept (by decide)

end Kthxvm.I8042
