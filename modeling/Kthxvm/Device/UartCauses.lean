import Kthxvm.Device.UartLine

/-! What `IIR` tells about the causes of an interrupt. `update_irq` collects them in
`tmp_iir` without clearing it first. -/
namespace Kthxvm.Uart

open IoDevice Lib.Flags Lib.Transition

def receiving (u : Uart) : Prop := u.ier &&& ierRecvBit ≠ 0 ∧ u.lsr &&& lsrDataBit ≠ 0

def transmitting (u : Uart) : Prop := u.ier &&& ierThrBit ≠ 0 ∧ u.lsr &&& lsrIdleBit ≠ 0

instance (u : Uart) : Decidable u.receiving := by unfold receiving; infer_instance

instance (u : Uart) : Decidable u.transmitting := by unfold transmitting; infer_instance

def causeBits (receive transmit : Prop) [Decidable receive] [Decidable transmit] : UInt8 :=
  (if receive then iirRecvBit else 0) ||| (if transmit then iirThrBit else 0)

def causes (u : Uart) : UInt8 := causeBits u.receiving u.transmitting

structure Identifies (u : Uart) : Prop where
  none : u.iir = iirNoneBit ↔ ¬ u.receiving ∧ ¬ u.transmitting
  union : u.receiving ∨ u.transmitting → u.iir = u.causes

section Bits

variable (receive transmit : Prop) [Decidable receive] [Decidable transmit]

theorem causeBits_eq_zero : causeBits receive transmit = 0 ↔ ¬ receive ∧ ¬ transmit := by
  unfold causeBits
  by_cases hreceive : receive <;> by_cases htransmit : transmit
  all_goals simp only [hreceive, htransmit, if_true, if_false]
  all_goals decide

theorem causeBits_ne_none : causeBits receive transmit ≠ iirNoneBit := by
  unfold causeBits
  by_cases hreceive : receive <;> by_cases htransmit : transmit
  all_goals simp only [hreceive, htransmit, if_true, if_false]
  all_goals decide

end Bits

variable {u u' : Uart}

theorem causes_eq_zero : u.causes = 0 ↔ ¬ u.receiving ∧ ¬ u.transmitting :=
  causeBits_eq_zero _ _

/-- Bits that were on the stack stay in `tmp_iir`. -/
theorem pending_eq (u : Uart) (indeterminate : UInt8) :
    u.pending indeterminate = indeterminate ||| u.causes := by
  unfold causes causeBits
  by_cases hreceive : u.receiving <;> by_cases htransmit : u.transmitting
  all_goals
    simp only [hreceive, htransmit, if_true, if_false]
    unfold receiving at hreceive
    unfold transmitting at htransmit
    simp [pending, hreceive, htransmit, UInt8.or_assoc]

theorem identifies_iff : Identifies u ↔
    u.iir = if u.causes = 0 then iirNoneBit else u.causes := by
  constructor
  · intro h
    split
    next hzero => exact h.none.mpr (causes_eq_zero.mp hzero)
    next hsome =>
      rw [causes_eq_zero] at hsome
      exact h.union (by tauto)
  · intro h
    by_cases hzero : u.causes = 0
    · rw [if_pos hzero] at h
      have hnone := causes_eq_zero.mp hzero
      exact ⟨⟨fun _ => hnone, fun _ => h⟩, fun hsome => absurd hsome (by tauto)⟩
    · rw [if_neg hzero] at h
      have hsome : ¬ (¬ u.receiving ∧ ¬ u.transmitting) := fun hnone =>
        hzero (causes_eq_zero.mpr hnone)
      exact ⟨⟨fun hiir => absurd (h.symm.trans hiir) (causeBits_ne_none _ _),
        fun hnone => absurd hnone hsome⟩, fun _ => h⟩

theorem signal_raises {irq : Interrupt} (hlow : irq.state = false) (pending : UInt8) :
    (signal irq pending).fd = irq.fd + 1 ↔ pending ≠ 0 := by
  rw [signal_fd]
  by_cases hpending : pending = 0
  · rw [if_neg fun h => h.1 hpending]
    exact ⟨fun h => absurd h (Nat.ne_add_one _), fun h => absurd hpending h⟩
  · rw [if_pos ⟨hpending, hlow⟩]
    exact ⟨fun _ => hpending, fun _ => rfl⟩

/-! The state in which an access leaves the port to `update_irq`. -/

def updates (u : Uart) (access : Access) : Bool :=
  match access with
  | .read offset _ => (u.readDivisor (.ofOffset offset)).isNone
  | .write _ _ => true
  | .stdio _ => !u.isLoop

def ierAfter (u : Uart) (access : Access) : UInt8 :=
  match access with
  | .write offset data =>
    if Register.ofOffset offset = .ier then data.headD 0 &&& ierFifoBits else u.ier
  | .read _ _ | .stdio _ => u.ier

def readyAfter (u : Uart) (access : Access) : Prop :=
  match access with
  | .read offset _ =>
    if Register.ofOffset offset = .data then 1 < u.waiting.length else 0 < u.waiting.length
  | .write offset _ =>
    0 < u.waiting.length ∨ Register.ofOffset offset = .data ∧ u.isLoop ∧ u.rxCnt.toNat < fifoLen
  | .stdio input => 0 < u.waiting.length ∨ 0 ≤ input.headD (-1)

instance (u : Uart) (access : Access) : Decidable (u.readyAfter access) := by
  unfold readyAfter
  cases access <;> infer_instance

/-- The causes that hold after the access. A byte can be sent at any time. -/
def causesAfter (u : Uart) (access : Access) : UInt8 :=
  causeBits (u.ierAfter access &&& ierRecvBit ≠ 0 ∧ u.readyAfter access)
    (u.ierAfter access &&& ierThrBit ≠ 0)

theorem Sound.length_waiting (h : Sound u) :
    u.waiting.length = u.rxCnt.toNat - u.rxDone.toNat := by
  have hcnt := h.cnt_le
  have hlen : u.rxBuf.toList.length = fifoLen := Vector.length_toList
  unfold waiting
  rw [List.length_drop, List.length_take]
  omega

theorem Sound.ready_iff_waiting (h : Sound u) : u.dataReady ↔ 0 < u.waiting.length := by
  rw [h.ready, h.length_waiting]
  omega

theorem Sound.transmits (h : Sound u) : u.lsr &&& lsrIdleBit ≠ 0 := by
  rw [and_of_within h.idle (by decide)]
  decide

theorem Advances.ready {put got sent : List UInt8} (h : Advances u put got sent u') :
    u'.dataReady ↔ got.length < u.waiting.length + put.length := by
  have hlen := congrArg List.length h.buffer
  rw [List.length_append, List.length_append] at hlen
  rw [h.sound.ready_iff_waiting]
  omega

theorem Sound.causes_eq (h : Sound u') {access : Access} (hier : u'.ier = u.ierAfter access)
    (hready : u'.dataReady ↔ u.readyAfter access) : u'.causes = u.causesAfter access := by
  unfold causes causesAfter causeBits receiving transmitting
  simp only [hier, ← dataReady_iff, hready, h.transmits, ne_eq, not_false_eq_true, and_true]

theorem readRegister_ier {register : Register} {size : UInt32} {buf : List UInt8}
    (hr : u.readRegister register size = .ok (buf, u')) : u'.ier = u.ier := by
  have hput : ∀ {value}, (putByte size value).map (·, u) = .ok (buf, u') → u'.ier = u.ier := by
    intro value hr
    obtain ⟨_, -, hr⟩ := bind_eq_ok.mp ((map_eq_pure_bind _ _).symm.trans hr)
    cases hr
    rfl
  cases register
  case data =>
    change u.receive size = _ at hr
    unfold receive at hr
    split at hr
    · cases hr
      rfl
    · split at hr
      · obtain ⟨_, -, hr⟩ := bind_eq_ok.mp hr
        cases hr
        rfl
      · split at hr
        · obtain ⟨_, -, hr⟩ := bind_eq_ok.mp hr
          dsimp only at hr
          split at hr
          all_goals
            cases hr
            rfl
        · contradiction
  case unhandled =>
    cases hr
    rfl
  all_goals exact hput hr

theorem receive_nonempty {size : UInt32} {buf : List UInt8} (h : Sound u) (hready : u.dataReady)
    (hr : u.receive size = .ok (buf, u')) : (buf.take 1).length = 1 := by
  have hlt := h.ready.mp hready
  have hne : u.rxCnt ≠ u.rxDone := fun heq => by
    rw [heq] at hlt
    exact absurd hlt (lt_irrefl _)
  have hcnt := h.cnt_le
  unfold receive at hr
  rw [if_neg hne, if_neg (not_not.mpr h.unbroken), dif_pos (lt_of_lt_of_le hlt hcnt)] at hr
  obtain ⟨_, hput, hr⟩ := bind_eq_ok.mp hr
  have hone := congrArg List.length (putByte_take hput)
  dsimp only at hr
  split at hr
  all_goals
    cases hr
    exact hone

theorem transmit_ier {data : List UInt8} (h : Sound u) (ht : u.transmit data = .ok u') :
    u'.ier = u.ier := by
  by_cases hloop : u.isLoop = true
  · unfold transmit at ht
    rw [if_pos hloop] at ht
    split at ht
    · obtain ⟨_, -, ht⟩ := bind_eq_ok.mp ht
      cases ht
      rfl
    · cases ht
      rfl
  · rw [transmit_out h (Bool.eq_false_iff.mpr hloop)] at ht
    obtain ⟨_, -, ht⟩ := bind_eq_ok.mp ((map_eq_pure_bind _ _).symm.trans ht)
    cases ht
    rfl

theorem writeRegister_ier {offset : UInt64} {data : List UInt8} (h : Sound u)
    (hw : u.writeRegister (.ofOffset offset) data = .ok u') :
    u'.ier = u.ierAfter (.write offset data) := by
  unfold ierAfter
  dsimp only
  generalize Register.ofOffset offset = register at hw ⊢
  cases register
  case data =>
    rw [if_neg nofun]
    exact transmit_ier h hw
  case ier =>
    obtain ⟨b, hb, hw⟩ := bind_eq_ok.mp hw
    cases hw
    rw [if_pos rfl]
    cases data with
    | nil => contradiction
    | cons b' data =>
      cases hb
      rfl
  case lsr | msr | unhandled =>
    cases hw
    rw [if_neg nofun]
  all_goals
    obtain ⟨_, -, hw⟩ := bind_eq_ok.mp hw
    cases hw
    rw [if_neg nofun]

theorem receiveInput_ier (u : Uart) (input : List Int) : (u.receiveInput input).ier = u.ier :=
  receiveInput_keeps Uart.ier (fun _ _ _ _ => rfl) u input

theorem length_stored (hempty : u.rxCnt = 0) (input : List Int) :
    0 < (u.stored input).length ↔ 0 ≤ input.headD (-1) := by
  have hroom : fifoLen - u.rxCnt.toNat = 63 + 1 := by rw [hempty]; rfl
  unfold stored
  rw [hroom]
  cases input with
  | nil => simp
  | cons c input =>
    by_cases hc : 0 ≤ c
    · rw [List.takeWhile_cons_of_pos (by simpa using hc)]
      simp [hc]
    · rw [List.takeWhile_cons_of_neg (by simpa using hc)]
      simp [hc]

theorem looped_nonempty {register : Register} {data : List UInt8}
    (hcond : register = .data ∧ u.isLoop ∧ u.rxCnt.toNat < fifoLen)
    (hw : u.writeRegister register data = .ok u') : 0 < (data.take 1).length := by
  obtain ⟨rfl, hloop, hroom⟩ := hcond
  change u.transmit data = _ at hw
  unfold transmit at hw
  rw [if_pos hloop, dif_pos hroom] at hw
  cases data with
  | nil => contradiction
  | cons b data => exact Nat.one_pos

theorem Sound.ready_of_cnt (h : Sound u) (hcnt : u.rxCnt ≠ 0) : u.dataReady := by
  rw [h.ready]
  apply lt_of_le_of_ne h.done_le
  intro heq
  exact hcnt (h.drained (UInt8.toNat_inj.mp heq))

structure Reaches (s : Wired) (access : Access) (u : Uart) : Prop where
  sound : Sound u
  ier : u.ier = s.uart.ierAfter access
  ready : u.dataReady ↔ s.uart.readyAfter access

theorem Prepares.reaches {s : Wired} {access : Access} (h : Sound s.uart)
    (hprepares : Prepares s.uart access u) : Reaches s access u := by
  cases hprepares with
  | @read offset size buf u hdivisor hregister =>
    have hput := readRegister_advances h hregister
    refine ⟨hput.sound, readRegister_ier hregister, ?_⟩
    rw [hput.ready]
    unfold readyAfter
    dsimp only
    by_cases hdata : Register.ofOffset offset = .data
    · by_cases hready : s.uart.dataReady
      · rw [if_pos ⟨hdata, hready⟩, if_pos hdata]
        rw [hdata] at hregister
        rw [receive_nonempty h hready hregister]
        rfl
      · have hempty := mt h.ready_iff_waiting.mpr hready
        rw [if_neg fun hcond => hready hcond.2, if_pos hdata]
        simp only [List.length_nil]
        omega
    · rw [if_neg fun hcond => hdata hcond.1, if_neg hdata]
      rfl
  | @write offset data _ u hdivisor hregister =>
    obtain ⟨divisor, rfl⟩ := writeDivisor_eq_ok hdivisor
    have hput := writeRegister_advances (h.divisor divisor) hregister
    have hier := writeRegister_ier (h.divisor divisor) hregister
    refine ⟨hput.sound, hier, ?_⟩
    rw [hput.ready]
    change 0 < s.uart.waiting.length + (if Register.ofOffset offset = .data ∧ s.uart.isLoop ∧
      s.uart.rxCnt.toNat < fifoLen then data.take 1 else []).length ↔
        0 < s.uart.waiting.length ∨ Register.ofOffset offset = .data ∧ s.uart.isLoop ∧
          s.uart.rxCnt.toNat < fifoLen
    split
    next hcond =>
      have hdata := looped_nonempty (u := { s.uart with baudDivisor := divisor }) hcond hregister
      exact ⟨fun _ => Or.inr hcond, fun _ => by omega⟩
    next hcond =>
      rw [List.length_nil, Nat.add_zero]
      exact ⟨Or.inl, fun hor => hor.resolve_right hcond⟩
  | busy hloop hbusy =>
    have hready : s.uart.dataReady := hbusy.elim dataReady_iff.mpr h.ready_of_cnt
    exact ⟨h, rfl, fun _ => Or.inl (h.ready_iff_waiting.mp hready), fun _ => hready⟩
  | @input input hloop hidle =>
    have hput := receiveInput_advances h input
    have hstored := length_stored (not_not.mp fun hcnt => hidle (Or.inr hcnt)) input
    refine ⟨hput.sound, receiveInput_ier s.uart input, ?_⟩
    rw [hput.ready]
    unfold readyAfter
    dsimp only [List.length_nil]
    rw [← hstored]
    omega

theorem Prepares.updates {u u' : Uart} {access : Access} (h : Prepares u access u') :
    u.updates access = true := by
  cases h with
  | read hdivisor =>
    rw [Uart.updates, hdivisor]
    rfl
  | write => rfl
  | busy hloop | input hloop => simpa [Uart.updates] using hloop

theorem step_updates {s s' : Wired} {l : Served} (h : Sound s.uart) (hs : Step s l s')
    (hupdates : s.uart.updates l.access) : ∃ u, Reaches s l.access u ∧
      s' = ⟨u.identified (u.pending l.indeterminate),
        signal s.irq (u.pending l.indeterminate)⟩ := by
  rcases step_cases hs with ⟨offset, size, value, hread, hdivisor, -⟩ | ⟨input, hstdio, hloop, -⟩ |
    ⟨u, hprepares, hirq⟩
  · rw [hread, updates, hdivisor] at hupdates
    contradiction
  · rw [hstdio, updates, hloop] at hupdates
    contradiction
  · rw [updateIrq_ok (hprepares.sound h)] at hirq
    obtain ⟨hu, hline⟩ := Prod.mk.inj (Except.ok.inj hirq)
    refine ⟨u, hprepares.reaches h, ?_⟩
    rw [hu, hline]

theorem step_rests {s s' : Wired} {l : Served} (hs : Step s l s')
    (hrests : s.uart.updates l.access = false) : s' = s := by
  rcases step_cases hs with ⟨_, _, _, -, -, heq⟩ | ⟨_, -, -, heq⟩ | ⟨u, hprepares, -⟩
  · exact heq
  · exact heq
  · rw [hprepares.updates] at hrests
    contradiction

/-- What is on the stack when the access comes to `update_irq` has no bit but those of the
causes. -/
def Clean (move : Move Wired Served) : Prop :=
  move.source.uart.updates move.label.access →
    move.label.indeterminate ||| move.source.uart.causesAfter move.label.access =
      move.source.uart.causesAfter move.label.access

def Raised (move : Move Wired Served) : Prop := move.target.irq.fd = move.source.irq.fd + 1

/-- `iir` names the causes, and `update_irq` raises the line if there are any. -/
structure Lawful (move : Move Wired Served) : Prop where
  identifies : Identifies move.target.uart
  raises : move.source.uart.updates move.label.access →
    (Raised move ↔ move.target.uart.receiving ∨ move.target.uart.transmitting)

theorem receiving_or_transmitting : u.receiving ∨ u.transmitting ↔ u.causes ≠ 0 := by
  rw [ne_eq, causes_eq_zero]
  tauto

/-- `iir` alone would not tell a stray `IIR_NONE_BIT` from no cause; the line does. -/
theorem named_iff (p c : UInt8) : (if p = 0 then iirNoneBit else p) =
    (if c = 0 then iirNoneBit else c) ∧ (p ≠ 0 ↔ c ≠ 0) ↔ p = c := by
  constructor
  · rintro ⟨hiir, hline⟩
    by_cases hp : p = 0
    · have hc : c = 0 := not_not.mp fun hc => hline.mpr hc hp
      rw [hp, hc]
    · rwa [if_neg hp, if_neg (hline.mp hp)] at hiir
  · rintro rfl
    exact ⟨rfl, Iff.rfl⟩

section

variable {s s' : Wired} {l : Served}

theorem lawful_iff_clean (h : Sound s.uart) (hlow : s.irq.state = false) (hs : Step s l s')
    (hupdates : s.uart.updates l.access) : Lawful ⟨s, l, s'⟩ ↔ Clean ⟨s, l, s'⟩ := by
  obtain ⟨u, hreach, rfl⟩ := step_updates h hs hupdates
  have hcauses := hreach.sound.causes_eq hreach.ier hreach.ready
  have hpending := pending_eq u l.indeterminate
  have hraised := signal_raises hlow (u.pending l.indeterminate)
  have hidentifies := identifies_iff (u := u.identified (u.pending l.indeterminate))
  have hsome := receiving_or_transmitting (u := u.identified (u.pending l.indeterminate))
  -- neither `iir` nor the line is among the causes
  have hkept : (u.identified (u.pending l.indeterminate)).causes = s.uart.causesAfter l.access :=
    hcauses
  rw [hkept] at hidentifies hsome
  rw [hcauses] at hpending
  have hnamed := named_iff (u.pending l.indeterminate) (s.uart.causesAfter l.access)
  rw [hpending] at hnamed
  constructor
  · intro hlaw _
    apply hnamed.mp
    rw [← hpending]
    exact ⟨hidentifies.mp hlaw.identifies,
      hraised.symm.trans ((hlaw.raises hupdates).trans hsome)⟩
  · intro hclean
    obtain ⟨hiir, hline⟩ := hnamed.mpr (hclean hupdates)
    rw [← hpending] at hiir hline
    exact ⟨hidentifies.mpr hiir, fun _ => hraised.trans (hline.trans hsome.symm)⟩

theorem step_low (h : Sound s.uart) (hlow : s.irq.state = false) (hs : Step s l s') :
    s'.irq.state = false := by
  cases hupdates : s.uart.updates l.access
  · rw [step_rests hs hupdates]
    exact hlow
  · obtain ⟨u, -, rfl⟩ := step_updates h hs hupdates
    exact signal_low _ _

end

section

variable {start s : Wired} {moves : List (Move Wired Served)}

theorem low_run (h : Start start) (hlow : start.irq.state = false)
    (run : Run Step start moves s) : Sound s.uart ∧ s.irq.state = false :=
  run.invariant (I := fun s => Sound s.uart ∧ s.irq.state = false) ⟨sound_start h, hlow⟩
    fun _ _ _ hs hstep => ⟨(step_advances hs.1 hstep).sound, step_low hs.1 hs.2 hstep⟩

theorem identifies_start (h : Start s) : Identifies s.uart := by
  obtain ⟨term, rxBuf, txBuf, -, hu⟩ := h
  rw [hu, identifies_iff]
  have hnone : (fresh term rxBuf txBuf).causes = 0 :=
    causes_eq_zero.mpr ⟨fun h => h.1 UInt8.zero_and, fun h => h.1 UInt8.zero_and⟩
  rw [if_pos hnone]
  rfl

/-- Moves that do not come to `update_irq` keep the law, and the others obey it exactly
where the stack is clean. -/
theorem identifies_run (h : Start start) (hlow : start.irq.state = false)
    (run : Run Step start moves s) (hclean : ∀ move ∈ moves, Clean move) :
    Identifies s.uart := by
  induction run with
  | nil => exact identifies_start h
  | @snoc moves s s' l hrun hstep ih =>
    obtain ⟨hsound, hlow'⟩ := low_run h hlow hrun
    cases hupdates : s.uart.updates l.access
    · rw [step_rests hstep hupdates]
      exact ih fun move hmem => hclean move (List.mem_append_left _ hmem)
    · exact ((lawful_iff_clean hsound hlow' hstep hupdates).mpr
        (hclean _ (List.mem_append_right _ (List.mem_singleton_self _)))).identifies

/-- Over every run of a port whose line is low to begin with, `iir` names the causes after
every access, and the line is raised where there are any, exactly when `update_irq` never
finds a bit on the stack that is not that of a cause. -/
theorem iir_names_causes_iff (h : Start start) (hlow : start.irq.state = false)
    (run : Run Step start moves s) :
    (∀ move ∈ moves, Lawful move) ↔ ∀ move ∈ moves, Clean move := by
  constructor
  · intro hlaw move hmem hupdates
    obtain ⟨pre, post, hsplit⟩ := List.append_of_mem hmem
    obtain ⟨hsound, hlow'⟩ := low_run h hlow (run.before hsplit)
    exact (lawful_iff_clean hsound hlow' (run.step_of_mem move hmem) hupdates).mp
      (hlaw move hmem) hupdates
  · intro hclean move hmem
    obtain ⟨pre, post, hsplit⟩ := List.append_of_mem hmem
    have hbefore := run.before hsplit
    have hstep := run.step_of_mem move hmem
    obtain ⟨hsound, hlow'⟩ := low_run h hlow hbefore
    cases hupdates : move.source.uart.updates move.label.access
    · have hidentifies := identifies_run h hlow hbefore fun move' hmem' => by
        apply hclean
        rw [hsplit]
        exact List.mem_append_left _ hmem'
      rw [← step_rests hstep hupdates] at hidentifies
      exact ⟨hidentifies, fun hup => absurd (hup.symm.trans hupdates) (by decide)⟩
    · exact (lawful_iff_clean hsound hlow' hstep hupdates).mpr (hclean move hmem)

end

/-! A guest that asks to be told when it can send, and one that only uses the scratch
register. -/

def askingPort : Uart := { quietPort with ier := ierThrBit, iir := iirThrBit }

def askingMove : Move Wired Served :=
  ⟨⟨quietPort, line⟩, ⟨.write 1 [ierThrBit], 0, []⟩, ⟨askingPort, { line with fd := 1 }⟩⟩

theorem asking_run : Run Step ⟨quietPort, line⟩ [askingMove] askingMove.target := Run.one rfl

theorem asking_lawful : Lawful askingMove :=
  (iir_names_causes_iff start_quietPort rfl asking_run).mpr (fun _ hmem => by
    rw [List.mem_singleton.mp hmem]
    exact fun _ => rfl) askingMove (List.mem_singleton_self _)

def strayPort : Uart := { quietPort with scr := 5, iir := iirThrBit }

def strayMove : Move Wired Served :=
  ⟨⟨quietPort, line⟩, ⟨.write 7 [5], iirThrBit, []⟩, ⟨strayPort, { line with fd := 1 }⟩⟩

/-- A stray bit interrupts a guest that masked everything. -/
theorem stray_bit_interrupts : ¬ ∀ (start s : Wired) (moves : List (Move Wired Served)),
    Start start → start.irq.state = false → Run Step start moves s →
      ∀ move ∈ moves, Lawful move := by
  intro h
  have hrun : Run Step strayMove.source [strayMove] strayMove.target := Run.one rfl
  have hlaw := h _ _ _ start_quietPort rfl hrun strayMove (List.mem_singleton_self _)
  have hcause := (hlaw.raises rfl).mp rfl
  exact absurd hcause (by decide)

end Kthxvm.Uart
