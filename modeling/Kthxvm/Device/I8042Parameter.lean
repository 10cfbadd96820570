import Kthxvm.Device.I8042Run

/-! The two registers that are written in two steps, a command and its parameter. -/
namespace Kthxvm.I8042

open IoDevice Lib.Flags Lib.Transition

inductive Register where
  | control
  | outp
deriving DecidableEq

namespace Register

def writeCmd : Register → UInt8
  | control => cmdWriteCtr
  | outp => cmdWriteOutp

def readCmd : Register → UInt8
  | control => cmdReadCtr
  | outp => cmdReadOutp

def value (register : Register) (k : I8042) : UInt8 :=
  match register with
  | control => k.control
  | outp => k.outp

end Register

def Access.isRead : Access → Bool
  | .read _ _ => true
  | .write _ _ => false

def Access.fetches : Access → Bool
  | .read offset _ => offset = dataReg
  | .write _ _ => false

def Access.issues (access : Access) (cmd : UInt8) : Bool :=
  match access with
  | .read _ _ => false
  | .write offset data => offset = commandReg ∧ data.headD 0 = cmd

/-- The byte is stored, nothing else happens, and until the register is written again it
can be read back. -/
structure Stored (register : Register) (v : UInt8) (s s' : Wired) : Prop where
  value : register.value s'.controller = v
  buffer : s'.controller.buffer = s.controller.buffer ∧
    s'.controller.bufferHead = s.controller.bufferHead ∧
    s'.controller.bufferTail = s.controller.bufferTail
  irq : s'.irq = s.irq
  readBack : ∀ moves s₁, Run Step s' moves s₁ →
    (∀ move ∈ moves, ¬ move.label.access.issues register.writeCmd) →
    ∀ rest size, size ≠ 0 → ∃ s₂ s₃ reply,
      s₁.serve (.write commandReg (register.readCmd :: rest)) = .ok ([], s₂) ∧
        s₂.serve (.read dataReg size) = .ok (v :: reply, s₃)

variable {k : I8042} {register : Register} {v : UInt8}

/-! Reads between the command and its parameter. -/

theorem reads_run {s s' : Wired} {moves : List (Move Wired Served)} (h : Sound s.controller)
    (run : Run Step s moves s') (hreads : ∀ move ∈ moves, move.label.access.isRead) :
    s'.controller = if ∃ move ∈ moves, move.label.access.fetches then s.controller.pop.2
      else s.controller := by
  induction run with
  | nil => exact (if_neg (by simp)).symm
  | @snoc moves s₁ s₂ l hrun hstep ih =>
    have hbefore := ih fun move hmem => hreads move (List.mem_append_left _ hmem)
    have hread := hreads _ (List.mem_append_right _ (List.mem_singleton_self _))
    obtain ⟨access, reply⟩ := l
    cases access with
    | write offset data => contradiction
    | read offset size =>
      have hlast : (Access.read offset size).fetches ↔ offset = dataReg := decide_eq_true_iff
      rw [step_next hstep, hbefore]
      unfold next
      simp only [List.mem_append, List.mem_singleton, or_and_right, exists_or, exists_eq_left,
        hlast]
      by_cases hfetched : ∃ move ∈ moves, move.label.access.fetches
      · rw [if_pos hfetched, if_pos (Or.inl hfetched), pop_of_empty h.bufferLen_pop]
        exact ite_id _
      · simp only [hfetched, if_false, false_or]

/-! The command announces its parameter, and nothing but the command can. -/

def Expects (register : Register) (k : I8042) : Prop :=
  k.status &&& sbI8042CmdData ≠ 0 ∧ k.command = register.writeCmd

theorem expects_writeCommand (register : Register) (k : I8042) :
    Expects register (k.writeCommand register.writeCmd) := by
  have hset : ∀ x : UInt8, (x ||| sbI8042CmdData) &&& sbI8042CmdData ≠ 0 := by
    intro x
    rw [or_and_self]
    decide
  cases register with
  | control => exact ⟨hset _, rfl⟩
  | outp => exact ⟨hset _, rfl⟩

theorem value_parameter (h : k.command = register.writeCmd) (b : UInt8) :
    register.value (k.parameter b) = b := by
  cases register with
  | control => exact if_pos h
  | outp => exact if_pos h

theorem value_parameter_other (h : k.command ≠ register.writeCmd) (b : UInt8) :
    register.value (k.parameter b) = register.value k := by
  cases register with
  | control => exact if_neg h
  | outp => exact if_neg h

/-- The register holds its byte, and no parameter is due that would change it. -/
def Settled (register : Register) (v : UInt8) (k : I8042) : Prop :=
  register.value k = v ∧ ¬ Expects register k

theorem settled_push (h : register.value k = v) (val : UInt8) :
    Settled register v (k.flush.push val) := by
  have hapart : sbOutDataAvail &&& sbI8042CmdData = 0 := by decide
  rw [flush_push]
  refine ⟨?_, fun hexpects => hexpects.1 hapart⟩
  rw [← h]
  cases register <;> rfl

theorem Settled.next (hsound : Sound k) (h : Settled register v k) {access : Access}
    (hother : ¬ access.issues register.writeCmd) : Settled register v (k.next access) := by
  obtain ⟨hvalue, hidle⟩ := h
  have hcleared : ∀ k' : I8042, register.value k' = register.value k → k'.status = 0 →
      Settled register v k' := by
    intro k' hkept hstatus
    refine ⟨hkept.trans hvalue, fun hexpects => hexpects.1 ?_⟩
    rw [hstatus, UInt8.zero_and]
  unfold I8042.next
  cases access with
  | read offset size =>
    dsimp only
    split
    · by_cases hlen : k.bufferLen = 0
      · rw [pop_of_empty hlen]
        exact ⟨hvalue, hidle⟩
      · rw [hsound.pop hlen]
        exact hcleared _ (by cases register <;> rfl) rfl
    · exact ⟨hvalue, hidle⟩
  | write offset data =>
    dsimp only
    split
    next hcommand =>
      have hcmd : data.headD 0 ≠ register.writeCmd := by
        intro hcmd
        exact hother (decide_eq_true ⟨hcommand, hcmd⟩)
      have hcmds : cmdWriteCtr ≠ cmdWriteOutp := by decide
      generalize data.headD 0 = cmd at hcmd ⊢
      by_cases hread : cmd = cmdReadCtr ∨ cmd = cmdReadOutp
      · obtain ⟨val, hpush⟩ := writeCommand_read (k := k) hread
        rw [hpush]
        exact settled_push hvalue val
      by_cases hctr : cmd = cmdWriteCtr
      · subst hctr
        rw [writeCommand_writeCtr]
        cases register with
        | control => exact absurd rfl hcmd
        | outp => exact ⟨hvalue, fun hexpects => hcmds hexpects.2⟩
      by_cases houtp : cmd = cmdWriteOutp
      · subst houtp
        rw [writeCommand_writeOutp]
        cases register with
        | control => exact ⟨hvalue, fun hexpects => hcmds hexpects.2.symm⟩
        | outp => exact absurd rfl hcmd
      by_cases hreset : cmd = cmdResetKbd
      · subst hreset
        exact hcleared _ (by cases register <;> rfl) rfl
      · rw [writeCommand_other hread hctr houtp hreset]
        exact ⟨hvalue, hidle⟩
    · split
      · split
        next hpending =>
          have hcommand : k.command ≠ register.writeCmd := fun hcommand =>
            hidle ⟨hpending, hcommand⟩
          exact hcleared _ (value_parameter_other hcommand _) rfl
        · exact settled_push hvalue _
      · exact ⟨hvalue, hidle⟩

theorem settled_run {s s' : Wired} {moves : List (Move Wired Served)}
    (hsound : Sound s.controller) (h : Settled register v s.controller)
    (run : Run Step s moves s')
    (hother : ∀ move ∈ moves, ¬ move.label.access.issues register.writeCmd) :
    Sound s'.controller ∧ Settled register v s'.controller := by
  induction run with
  | nil => exact ⟨hsound, h⟩
  | snoc _ hstep ih =>
    obtain ⟨hsound', hsettled⟩ := ih fun move hmem => hother move (List.mem_append_left _ hmem)
    have hlast := hother _ (List.mem_append_right _ (List.mem_singleton_self _))
    rw [step_next hstep]
    exact ⟨hsound'.next _, hsettled.next hsound' hlast⟩

theorem read_back (h : register.value k = v) (irq : Interrupt) (rest : List UInt8)
    {size : UInt32} (hsize : size ≠ 0) : ∃ s₂ s₃ reply,
      Wired.serve ⟨k, irq⟩ (.write commandReg (register.readCmd :: rest)) = .ok ([], s₂) ∧
        s₂.serve (.read dataReg size) = .ok (v :: reply, s₃) := by
  have hcommand : k.writeCommand register.readCmd = k.flush.push v := by
    rw [← h]
    cases register <;> rfl
  have hwrite : Wired.serve ⟨k, irq⟩ (.write commandReg (register.readCmd :: rest)) =
      .ok ([], ⟨k.writeCommand register.readCmd, irq⟩) := rfl
  have hsound : Sound (k.flush.push v) := by
    rw [flush_push]
    exact ⟨Nat.zero_le _, le_refl _⟩
  have hlen : (k.flush.push v).bufferLen ≠ 0 := by
    rw [flush_push]
    exact (by decide : (1 : UInt32) - 0 ≠ 0)
  have hvalue : (k.flush.push v).pop.1 = v := by
    rw [hsound.pop hlen, flush_push]
    exact Vector.getElem_set_self _
  rw [hcommand] at hwrite
  refine ⟨_, ⟨((k.flush.push v).afterRead irq).1, ((k.flush.push v).afterRead irq).2⟩,
    List.replicate (size.toNat - 1) 0, hwrite, ?_⟩
  have hread := read_data (k.flush.push v) irq hsize
  rw [hvalue] at hread
  unfold Wired.serve
  dsimp only
  rw [hread]
  rfl

theorem serve_parameter (irq : Interrupt) (h : Expects register k) (b : UInt8)
    (rest : List UInt8) : Wired.serve ⟨k, irq⟩ (.write dataReg (b :: rest)) =
      .ok ([], ⟨k.parameter b, irq⟩) := by
  have hstore : k.writeParameter (b :: rest) = .ok (k.parameter b) := by
    cases hok : k.writeParameter (b :: rest) with
    | ok k' =>
      rw [writeParameter_eq_ok hok]
      rfl
    | error e =>
      unfold writeParameter storeParameter at hok
      rw [h.2] at hok
      cases register <;> contradiction
  unfold Wired.serve write
  dsimp only
  rw [if_neg (by decide), if_pos rfl, if_pos h.1, hstore]
  rfl

theorem serve_acknowledged (irq : Interrupt) (h : k.status &&& sbI8042CmdData = 0) (b : UInt8)
    (rest : List UInt8) : Wired.serve ⟨k, irq⟩ (.write dataReg (b :: rest)) =
      .ok ([], ⟨k.flush.push 0xFA, (k.flush.push 0xFA).triggerIrq irq⟩) := by
  unfold Wired.serve write
  dsimp only
  rw [if_neg (by decide), if_pos rfl, if_neg (not_not.mpr h)]
  rfl

theorem stored_of_expected {s : Wired} (hsound : Sound s.controller)
    (h : Expects register s.controller) (v : UInt8) :
    Stored register v s ⟨s.controller.parameter v, s.irq⟩ where
  value := value_parameter h.2 v
  buffer := ⟨rfl, rfl, rfl⟩
  irq := rfl
  readBack := by
    intro moves s₁ hrun hother rest size hsize
    have hsettled : Settled register v (s.controller.parameter v) :=
      ⟨value_parameter h.2 v, fun hexpects => hexpects.1 UInt8.zero_and⟩
    obtain ⟨-, hlater⟩ := settled_run (s := ⟨s.controller.parameter v, s.irq⟩)
      ⟨hsound.head_le, hsound.tail_le⟩ hsettled hrun hother
    exact read_back hlater.1 s₁.irq rest hsize

section

variable {start s s₁ s₂ : Wired} {moves reads : List (Move Wired Served)}

/-- After a run of a new controller, a command and any number of reads, the parameter is
stored exactly when no read took a byte that was buffered before the command. Only
`CMD_WRITE_OUTP` leaves one. -/
theorem parameter_stored_iff (h : Start start) (run : Run Step start moves s)
    (register : Register) {rest reply : List UInt8}
    (hcommand : Step s ⟨.write commandReg (register.writeCmd :: rest), reply⟩ s₁)
    (hreads : Run Step s₁ reads s₂) (honly : ∀ move ∈ reads, move.label.access.isRead)
    (v : UInt8) (rest' : List UInt8) :
    (∃ s₃, s₂.serve (.write dataReg (v :: rest')) = .ok ([], s₃) ∧ Stored register v s₂ s₃) ↔
      register = .control ∨ s.controller.bufferLen = 0 ∨
        ∀ move ∈ reads, ¬ move.label.access.fetches := by
  have hsound : Sound s.controller := sound_run h run
  have hcontroller : s₁.controller = s.controller.writeCommand register.writeCmd :=
    step_next hcommand
  have hsound₁ : Sound s₁.controller := by
    rw [step_next hcommand]
    exact hsound.next _
  have hexpects : Expects register s₁.controller := by
    rw [hcontroller]
    exact expects_writeCommand register _
  have hread := reads_run hsound₁ hreads honly
  have hempty : s₁.controller.bufferLen = 0 ↔
      register = .control ∨ s.controller.bufferLen = 0 := by
    rw [hcontroller]
    cases register with
    | control =>
      have hflushed : (s.controller.writeCommand cmdWriteCtr).bufferLen = 0 := by
        rw [writeCommand_writeCtr]
        exact UInt32.sub_zero 0
      exact ⟨fun _ => Or.inl rfl, fun _ => hflushed⟩
    | outp => exact ⟨Or.inr, fun hor => hor.resolve_left nofun⟩
  have hstored : s₂.controller = s₁.controller → ∃ s₃,
      s₂.serve (.write dataReg (v :: rest')) = .ok ([], s₃) ∧ Stored register v s₂ s₃ := by
    intro hsame
    rw [← hsame] at hexpects hsound₁
    exact ⟨_, serve_parameter s₂.irq hexpects v rest', stored_of_expected hsound₁ hexpects v⟩
  rw [← or_assoc, ← hempty]
  by_cases hfetched : ∃ move ∈ reads, move.label.access.fetches
  · rw [if_pos hfetched] at hread
    by_cases hlen : s₁.controller.bufferLen = 0
    · rw [pop_of_empty hlen] at hread
      exact ⟨fun _ => Or.inl hlen, fun _ => hstored hread⟩
    · -- the read that took the byte made the controller forget the command
      rw [hsound₁.pop hlen] at hread
      have hidle : s₂.controller.status &&& sbI8042CmdData = 0 := by
        rw [hread]
        exact UInt8.zero_and
      constructor
      · rintro ⟨s₃, hserve, hstore⟩
        rw [serve_acknowledged s₂.irq hidle v rest'] at hserve
        cases hserve
        have hhead := hstore.buffer.2.1
        rw [flush_push, hread] at hhead
        exact absurd hhead (by decide : ¬ (0 : UInt32) = 1)
      · rintro (hnone | hnone)
        · exact absurd hnone hlen
        · obtain ⟨move, hmem, hfetch⟩ := hfetched
          exact absurd hfetch (hnone move hmem)
  · rw [if_neg hfetched] at hread
    refine ⟨fun _ => Or.inr fun move hmem hfetch => hfetched ⟨move, hmem, hfetch⟩, fun _ => ?_⟩
    exact hstored hread

end

/-! A byte that was acknowledged is still there when the guest writes to the output port. -/

def acknowledgedKeyboard : I8042 :=
  { newKeyboard with
    status := sbOutDataAvail
    buffer := (Vector.replicate 16 0).set 0 0xFA
    bufferTail := 1 }

def acknowledgedLine : Interrupt := { kbdLine with fd := 1 }

def announcedKeyboard : I8042 :=
  { acknowledgedKeyboard with status := sbOutDataAvail ||| sbI8042CmdData, command := cmdWriteOutp }

def forgetfulKeyboard : I8042 := { announcedKeyboard with status := 0, bufferHead := 1 }

theorem acknowledged_run : Run Step ⟨newKeyboard, kbdLine⟩
    [⟨⟨newKeyboard, kbdLine⟩, ⟨.write 0 [0xF4], []⟩,
      ⟨acknowledgedKeyboard, acknowledgedLine⟩⟩] ⟨acknowledgedKeyboard, acknowledgedLine⟩ :=
  Run.one rfl

theorem polled_run : Run Step ⟨announcedKeyboard, acknowledgedLine⟩
    [⟨⟨announcedKeyboard, acknowledgedLine⟩, ⟨.read commandReg 1, [0x09]⟩,
      ⟨announcedKeyboard, acknowledgedLine⟩⟩] ⟨announcedKeyboard, acknowledgedLine⟩ :=
  Run.one rfl

/-- To poll the status in between does no harm. -/
theorem outp_stored_unread : ∃ s₃,
    Wired.serve ⟨announcedKeyboard, acknowledgedLine⟩ (.write dataReg [0x55]) = .ok ([], s₃) ∧
      Stored .outp 0x55 ⟨announcedKeyboard, acknowledgedLine⟩ s₃ :=
  (parameter_stored_iff start_newKeyboard acknowledged_run .outp
    (show Step ⟨acknowledgedKeyboard, acknowledgedLine⟩ ⟨.write commandReg [0xD1], []⟩
      ⟨announcedKeyboard, acknowledgedLine⟩ from rfl)
    polled_run (fun _ hmem => by rw [List.mem_singleton.mp hmem]; rfl) 0x55 []).mpr
    (Or.inr (Or.inr fun _ hmem => by rw [List.mem_singleton.mp hmem]; decide))

/-- To read the acknowledgement in between loses the parameter. -/
theorem read_loses_parameter : ¬ ∀ (start s s₁ s₂ : Wired) (moves reads : List (Move Wired Served))
    (register : Register) (rest reply : List UInt8), Start start → Run Step start moves s →
    Step s ⟨.write commandReg (register.writeCmd :: rest), reply⟩ s₁ → Run Step s₁ reads s₂ →
    (∀ move ∈ reads, move.label.access.isRead) → ∀ (v : UInt8) (rest' : List UInt8), ∃ s₃,
      s₂.serve (.write dataReg (v :: rest')) = .ok ([], s₃) ∧ Stored register v s₂ s₃ := by
  intro h
  have hrun : Run Step ⟨announcedKeyboard, acknowledgedLine⟩
      [⟨⟨announcedKeyboard, acknowledgedLine⟩, ⟨.read 0 1, [0xFA]⟩,
        ⟨forgetfulKeyboard, acknowledgedLine⟩⟩] ⟨forgetfulKeyboard, acknowledgedLine⟩ :=
    Run.one rfl
  obtain ⟨s₃, hserve, hstore⟩ := h _ _ ⟨announcedKeyboard, acknowledgedLine⟩ _ _ _ .outp [] []
    start_newKeyboard acknowledged_run rfl hrun
    (fun _ hmem => by rw [List.mem_singleton.mp hmem]; rfl) 0x55 []
  rw [serve_acknowledged acknowledgedLine (by decide)] at hserve
  cases hserve
  exact absurd hstore.value (by decide)

end Kthxvm.I8042
