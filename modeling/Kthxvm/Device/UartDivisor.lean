import Kthxvm.Device.UartLine

/-! The divisor latch behind the first two offsets. A write to it is also a write to the
register that it hides; a read is not. -/
namespace Kthxvm.Uart

open IoDevice Lib.Flags Lib.Transition

/-! Only a write to the latch changes the divisor. -/

def divided (u : Uart) (register : Register) (data : List UInt8) : UInt16 :=
  if u.isDlabSet then
    match register, data with
    | .data, b :: _ => (u.baudDivisor &&& (0xff00 : UInt16)) ||| b.toUInt16
    | .ier, b :: _ => (u.baudDivisor &&& (0x00ff : UInt16)) ||| (b.toUInt16 <<< 8)
    | _, _ => u.baudDivisor
  else u.baudDivisor

theorem writeDivisor_divided {u u' : Uart} {register : Register} {data : List UInt8}
    (h : u.writeDivisor register data = .ok u') :
    u' = { u with baudDivisor := u.divided register data } := by
  unfold writeDivisor at h
  unfold divided
  split at h
  next hdlab =>
    rw [if_pos hdlab]
    split at h
    · obtain ⟨b, hb, h⟩ := bind_eq_ok.mp h
      cases data with
      | nil => contradiction
      | cons b' data =>
        cases hb
        exact (Except.ok.inj h).symm
    · obtain ⟨b, hb, h⟩ := bind_eq_ok.mp h
      cases data with
      | nil => contradiction
      | cons b' data =>
        cases hb
        exact (Except.ok.inj h).symm
    next hdata hier =>
      cases h
      cases register
      case data => exact absurd rfl hdata
      case ier => exact absurd rfl hier
      all_goals rfl
  next hdlab =>
    rw [if_neg hdlab]
    exact (Except.ok.inj h).symm

theorem flushTx_divisor {u u' : Uart} (h : u.flushTx = .ok u') :
    u'.baudDivisor = u.baudDivisor := by
  unfold flushTx at h
  dsimp only at h
  split at h
  · cases h
    rfl
  · split at h
    · cases h
      rfl
    · split at h
      · cases h
        rfl
      · contradiction

theorem updateIrq_divisor {u u' : Uart} {irq irq' : Interrupt} {indeterminate : UInt8}
    (h : u.updateIrq irq indeterminate = .ok (u', irq')) : u'.baudDivisor = u.baudDivisor := by
  rw [updateIrq_eq] at h
  split at h
  · obtain ⟨_, hflush, h⟩ := bind_eq_ok.mp ((map_eq_pure_bind _ _).symm.trans h)
    cases h
    exact (flushTx_divisor hflush).trans rfl
  · cases h
    rfl

theorem receive_divisor {u u' : Uart} {size : UInt32} {buf : List UInt8}
    (h : u.receive size = .ok (buf, u')) : u'.baudDivisor = u.baudDivisor := by
  unfold receive at h
  split at h
  · cases h
    rfl
  · split at h
    · obtain ⟨_, -, h⟩ := bind_eq_ok.mp h
      cases h
      rfl
    · split at h
      · obtain ⟨_, -, h⟩ := bind_eq_ok.mp h
        dsimp only at h
        split at h
        · cases h
          rfl
        · cases h
          rfl
      · contradiction

theorem readRegister_divisor {u u' : Uart} {register : Register} {size : UInt32}
    {buf : List UInt8} (h : u.readRegister register size = .ok (buf, u')) :
    u'.baudDivisor = u.baudDivisor := by
  cases register
  case data => exact receive_divisor h
  case unhandled =>
    cases h
    rfl
  all_goals
    obtain ⟨_, -, h⟩ := bind_eq_ok.mp ((map_eq_pure_bind _ _).symm.trans h)
    cases h
    rfl

theorem transmit_divisor {u u' : Uart} {data : List UInt8} (h : u.transmit data = .ok u') :
    u'.baudDivisor = u.baudDivisor := by
  unfold transmit at h
  split at h
  · split at h
    · obtain ⟨_, -, h⟩ := bind_eq_ok.mp h
      cases h
      rfl
    · cases h
      rfl
  · split at h
    · obtain ⟨_, -, h⟩ := bind_eq_ok.mp h
      dsimp only at h
      rw [flushTx_divisor h]
      split <;> rfl
    · cases h
      rfl

theorem writeRegister_divisor {u u' : Uart} {register : Register} {data : List UInt8}
    (h : u.writeRegister register data = .ok u') : u'.baudDivisor = u.baudDivisor := by
  cases register
  case data => exact transmit_divisor h
  case lsr | msr | unhandled =>
    cases h
    rfl
  all_goals
    obtain ⟨_, -, h⟩ := bind_eq_ok.mp h
    cases h
    rfl

theorem receiveInput_divisor (u : Uart) (input : List Int) :
    (u.receiveInput input).baudDivisor = u.baudDivisor :=
  receiveInput_keeps Uart.baudDivisor (fun _ _ _ _ => rfl) u input

theorem step_divisor {s s' : Wired} {l : Served} (h : Step s l s') :
    s'.uart.baudDivisor = match l.access with
      | .write offset data => s.uart.divided (.ofOffset offset) data
      | _ => s.uart.baudDivisor := by
  rcases step_cases h with ⟨_, _, _, hread, -, rfl⟩ | ⟨_, hstdio, -, rfl⟩ | ⟨u, hprepares, hirq⟩
  · rw [hread]
  · rw [hstdio]
  · rw [updateIrq_divisor hirq]
    obtain ⟨access, indeterminate, reply⟩ := l
    cases hprepares with
    | read hdivisor hregister => exact readRegister_divisor hregister
    | write hdivisor hregister =>
      have hdivided := congrArg Uart.baudDivisor (writeDivisor_divided hdivisor)
      exact (writeRegister_divisor hregister).trans hdivided
    | busy => rfl
    | input => exact receiveInput_divisor _ _

/-! The halves of the divisor. -/

def half (divisor : UInt16) : Register → UInt8
  | .data => divisor.toUInt8
  | _ => (divisor >>> 8).toUInt8

def latchByte (register : Register) (move : Move Wired Served) : Option UInt8 :=
  match move.label.access with
  | .write offset data =>
    if move.source.uart.isDlabSet ∧ Register.ofOffset offset = register then data.head? else none
  | _ => none

def latched (register : Register) (moves : List (Move Wired Served)) : UInt8 :=
  (moves.filterMap (latchByte register)).getLast?.getD 0

theorem low_half (d : UInt16) (b : UInt8) :
    ((d &&& (0xff00 : UInt16)) ||| b.toUInt16).toUInt8 = b ∧
      (((d &&& (0xff00 : UInt16)) ||| b.toUInt16) >>> 8).toUInt8 = (d >>> 8).toUInt8 := by
  constructor
  · apply eq_of_bits
    intro i hi
    interval_cases i <;> simp
  · apply eq_of_bits
    intro i hi
    interval_cases i <;> simp

theorem high_half (d : UInt16) (b : UInt8) :
    ((d &&& (0x00ff : UInt16)) ||| (b.toUInt16 <<< 8)).toUInt8 = d.toUInt8 ∧
      (((d &&& (0x00ff : UInt16)) ||| (b.toUInt16 <<< 8)) >>> 8).toUInt8 = b := by
  constructor
  · apply eq_of_bits
    intro i hi
    interval_cases i <;> simp
  · apply eq_of_bits
    intro i hi
    interval_cases i <;> simp

theorem step_latch {s s' : Wired} {l : Served} (h : Step s l s') {register : Register}
    (hregister : register = .data ∨ register = .ier) :
    half s'.uart.baudDivisor register =
      (latchByte register ⟨s, l, s'⟩).getD (half s.uart.baudDivisor register) := by
  have hdivisor := step_divisor h
  obtain ⟨access, indeterminate, reply⟩ := l
  unfold latchByte
  dsimp only at hdivisor ⊢
  rw [hdivisor]
  cases access with
  | read offset size => rfl
  | stdio input => rfl
  | write offset data =>
    dsimp only
    unfold divided
    by_cases hdlab : s.uart.isDlabSet = true
    · rw [if_pos hdlab]
      simp only [hdlab, true_and]
      cases data with
      | nil => cases Register.ofOffset offset <;> simp
      | cons b data =>
        have hlow := low_half s.uart.baudDivisor b
        have hhigh := high_half s.uart.baudDivisor b
        rcases hregister with rfl | rfl
        · cases Register.ofOffset offset
          case data => exact hlow.1
          case ier => exact hhigh.1
          all_goals rfl
        · cases Register.ofOffset offset
          case data => exact hlow.2
          case ier => exact hhigh.2
          all_goals rfl
    · rw [if_neg hdlab, if_neg fun h => hdlab h.1]
      rfl

variable {start s : Wired} {moves : List (Move Wired Served)}

theorem latched_run (h : Start start) (run : Run Step start moves s) {register : Register}
    (hregister : register = .data ∨ register = .ier) :
    half s.uart.baudDivisor register = latched register moves := by
  have hzero : half start.uart.baudDivisor register = 0 := by
    obtain ⟨term, rxBuf, txBuf, -, hu⟩ := h
    have hstart : start.uart.baudDivisor = 0 := by rw [hu]; rfl
    rw [hstart]
    rcases hregister with rfl | rfl <;> decide
  have hlaw := run.latest (fun s => half s.uart.baudDivisor register)
    (latchByte register) fun move hmem =>
      step_latch (run.step_of_mem move hmem) hregister
  rw [hzero] at hlaw
  exact hlaw

theorem serve_read_latch {s : Wired} (hdlab : s.uart.isDlabSet) {offset : UInt64}
    (hoffset : offset = 0 ∨ offset = 1) {size : UInt32} (hsize : size ≠ 0)
    (indeterminate : UInt8) :
    s.serve (.read offset size) indeterminate =
      .ok (half s.uart.baudDivisor (.ofOffset offset) :: List.replicate (size.toNat - 1) 0, s) := by
  have hhalf : s.uart.readDivisor (.ofOffset offset) =
      some (half s.uart.baudDivisor (.ofOffset offset)) := by
    unfold readDivisor
    rw [if_pos hdlab]
    rcases hoffset with rfl | rfl <;> rfl
  have hput : ∀ value, putByte size value = .ok (value :: List.replicate (size.toNat - 1) 0) :=
    fun value => if_neg hsize
  apply bind_eq_ok.mpr
  refine ⟨(_, s.uart, s.irq), ?_, rfl⟩
  unfold read
  rw [hhalf]
  dsimp only
  rw [hput, ok_bind]
  rfl

/-! The write, with all that it changes. -/

/-- `update_irq` would leave `iir` and the line as they are. -/
def Quiet (s : Wired) (indeterminate : UInt8) : Prop :=
  indeterminate = 0 ∧ (s.uart.ier &&& ierRecvBit = 0 ∨ s.uart.dataReady = false) ∧
    s.uart.ier &&& ierThrBit = 0 ∧ s.uart.iir = iirNoneBit ∧ s.irq.state = false

theorem pending_eq_zero_iff {u : Uart} (h : Sound u) (indeterminate : UInt8) :
    u.pending indeterminate = 0 ↔ indeterminate = 0 ∧
      (u.ier &&& ierRecvBit = 0 ∨ u.dataReady = false) ∧ u.ier &&& ierThrBit = 0 := by
  have hidle : u.lsr &&& lsrIdleBit ≠ 0 := by
    rw [and_of_within h.idle (by decide)]
    decide
  have hrecv : iirRecvBit ≠ 0 := by decide
  have hthr : iirThrBit ≠ 0 := by decide
  have hready : u.dataReady = false ↔ u.lsr &&& lsrDataBit = 0 := by
    rw [← Bool.not_eq_true, dataReady_iff, not_not]
  rw [hready]
  unfold pending
  by_cases hr : u.ier &&& ierRecvBit = 0 <;> by_cases hd : u.lsr &&& lsrDataBit = 0 <;>
    by_cases ht : u.ier &&& ierThrBit = 0 <;>
    simp [hr, hd, ht, hidle, hrecv, hthr]

theorem signal_eq_self_iff (irq : Interrupt) (p : UInt8) :
    signal irq p = irq ↔ p = 0 ∧ irq.state = false := by
  unfold signal
  constructor
  · intro h
    have hstate : irq.state = false := by
      rw [← h]
      split <;> exact Interrupt.setLevel_state _ _
    refine ⟨?_, hstate⟩
    by_contra hp
    rw [if_neg hp] at h
    -- a pulse raises the counter of the line
    have hfd := congrArg Interrupt.fd h
    rw [Interrupt.setLevel_low_fd, Interrupt.setLevel_high_fd_of_low hstate] at hfd
    omega
  · rintro ⟨hp, hstate⟩
    rw [if_pos hp]
    exact if_pos hstate

theorem updateIrq_leaves_iff {u w : Uart} (h : Sound u) (hiir : w.iir = u.iir) (irq : Interrupt)
    (indeterminate : UInt8) :
    u.updateIrq irq indeterminate = .ok (w, irq) ↔ w = u ∧ Quiet ⟨u, irq⟩ indeterminate := by
  rw [updateIrq_ok h]
  constructor
  · intro heq
    have hpair := Prod.mk.inj (Except.ok.inj heq)
    obtain ⟨hp, hstate⟩ := (signal_eq_self_iff irq _).mp hpair.2
    obtain ⟨hv, hrecv, hthr⟩ := (pending_eq_zero_iff h _).mp hp
    have hw := hpair.1.symm
    unfold identified at hw
    rw [if_pos hp] at hw
    have hnone : u.iir = iirNoneBit := by rw [← hiir, hw]
    refine ⟨?_, hv, hrecv, hthr, hnone, hstate⟩
    rw [hw, ← hnone]
  · rintro ⟨rfl, hv, hrecv, hthr, hnone, hstate⟩
    have hp : w.pending indeterminate = 0 := (pending_eq_zero_iff h _).mpr ⟨hv, hrecv, hthr⟩
    have hsignal := (signal_eq_self_iff irq (w.pending indeterminate)).mpr ⟨hp, hstate⟩
    have hsame : w.identified (w.pending indeterminate) = w := by
      unfold identified
      dsimp only at hnone
      rw [if_pos hp, ← hnone]
    rw [hsignal, hsame]

/-- What the second switch makes of the byte is what the register holds already. -/
def Redundant (u : Uart) (register : Register) (b : UInt8) : Prop :=
  match register with
  | .data =>
    if u.isLoop then fifoLen ≤ u.rxCnt.toNat else u.term = none ∧ u.txBuf.set 0 b = u.txBuf
  | _ => b &&& ierFifoBits = u.ier

theorem transmit_redundant_iff {u u' : Uart} {b : UInt8} {rest : List UInt8} (h : Sound u)
    (ht : u.transmit (b :: rest) = .ok u') : u' = u ↔ u.Redundant .data b := by
  unfold Redundant
  dsimp only
  by_cases hloop : u.isLoop = true
  · rw [if_pos hloop]
    unfold transmit at ht
    rw [if_pos hloop] at ht
    split at ht
    next hlt =>
      cases ht
      constructor
      · intro heq
        have hcnt : u.rxCnt + 1 = u.rxCnt := congrArg Uart.rxCnt heq
        have hsucc := rxCnt_succ hlt
        rw [hcnt] at hsucc
        omega
      · intro hfull
        exact absurd hlt (not_lt.mpr hfull)
    next hfull =>
      cases ht
      exact ⟨fun _ => not_lt.mp hfull, fun _ => rfl⟩
  · rw [if_neg hloop]
    rw [transmit_out h (Bool.eq_false_iff.mpr hloop)] at ht
    cases ht
    constructor
    · intro heq
      have hterm : u.term.map (· ++ [b]) = u.term := congrArg Uart.term heq
      refine ⟨?_, congrArg Uart.txBuf heq⟩
      cases hout : u.term with
      | none => rfl
      | some out =>
        rw [hout] at hterm
        have hlen := congrArg List.length (Option.some.inj hterm)
        simp at hlen
    · rintro ⟨hterm, hbuf⟩
      have hout : u.term.map (· ++ [b]) = u.term := by rw [hterm, Option.map_none]
      exact congrArg₂ (fun buf out => ({ u with txBuf := buf, term := out } : Uart)) hbuf hout

theorem writeRegister_redundant_iff {u u' : Uart} {register : Register} {b : UInt8}
    {rest : List UInt8} (h : Sound u) (hregister : register = .data ∨ register = .ier)
    (hw : u.writeRegister register (b :: rest) = .ok u') :
    u' = u ↔ u.Redundant register b := by
  rcases hregister with rfl | rfl
  · exact transmit_redundant_iff h hw
  · cases hw
    constructor
    · exact congrArg Uart.ier
    · intro heq
      change b &&& ierFifoBits = u.ier at heq
      rw [heq]

theorem writeRegister_iir {u u' : Uart} {register : Register} {data : List UInt8} (h : Sound u)
    (hw : u.writeRegister register data = .ok u') : u'.iir = u.iir := by
  cases register
  case data =>
    change u.transmit data = .ok u' at hw
    by_cases hloop : u.isLoop = true
    · unfold transmit at hw
      rw [if_pos hloop] at hw
      split at hw
      · obtain ⟨_, -, hw⟩ := bind_eq_ok.mp hw
        cases hw
        rfl
      · cases hw
        rfl
    · rw [transmit_out h (Bool.eq_false_iff.mpr hloop)] at hw
      obtain ⟨_, -, hw⟩ := bind_eq_ok.mp ((map_eq_pure_bind _ _).symm.trans hw)
      cases hw
      rfl
  case lsr | msr | unhandled =>
    cases hw
    rfl
  all_goals
    obtain ⟨_, -, hw⟩ := bind_eq_ok.mp hw
    cases hw
    rfl

theorem serve_write_iff {s : Wired} (h : Sound s.uart) {offset : UInt64}
    (hoffset : offset = 0 ∨ offset = 1) (b : UInt8) (rest : List UInt8) (indeterminate : UInt8) :
    (∃ divisor, s.serve (.write offset (b :: rest)) indeterminate =
        .ok ([], { s with uart := { s.uart with baudDivisor := divisor } })) ↔
      s.uart.Redundant (.ofOffset offset) b ∧ Quiet s indeterminate := by
  obtain ⟨u, irq⟩ := s
  dsimp only at h ⊢
  have hregister : Register.ofOffset offset = .data ∨ Register.ofOffset offset = .ier := by
    rcases hoffset with rfl | rfl
    · exact Or.inl rfl
    · exact Or.inr rfl
  generalize hr : Register.ofOffset offset = register at hregister
  obtain ⟨u₁, hdivisor⟩ := writeDivisor_ok (u := u) (List.cons_ne_nil b rest) register
  obtain ⟨divided, hu₁⟩ := writeDivisor_eq_ok hdivisor
  have hsound₁ : Sound u₁ := by
    rw [hu₁]
    exact h.divisor divided
  obtain ⟨u₂, hstored⟩ := writeRegister_ok hsound₁ (List.cons_ne_nil b rest) register
  have hsound₂ := (writeRegister_advances hsound₁ hstored).sound
  have hwrite : u.write irq indeterminate (b :: rest) offset = u₂.updateIrq irq indeterminate := by
    unfold write
    rw [hr, hdivisor, ok_bind, hstored, ok_bind]
  -- the divisor is the one that the first switch has stored
  have hserve : (∃ divisor, Wired.serve ⟨u, irq⟩ (.write offset (b :: rest)) indeterminate =
      .ok ([], ⟨{ u with baudDivisor := divisor }, irq⟩)) ↔
      u₂.updateIrq irq indeterminate = .ok (u₁, irq) := by
    unfold Wired.serve
    dsimp only
    rw [hwrite]
    constructor
    · rintro ⟨divisor, hs⟩
      obtain ⟨⟨_, _⟩, hirq, hs⟩ := bind_eq_ok.mp hs
      cases hs
      have hkept := (updateIrq_divisor hirq).trans (writeRegister_divisor hstored)
      rw [hirq, hu₁]
      rw [hu₁] at hkept
      dsimp only at hkept
      rw [hkept]
    · intro hirq
      refine ⟨divided, ?_⟩
      rw [hirq, hu₁]
      rfl
  rw [hserve, updateIrq_leaves_iff hsound₂ (writeRegister_iir hsound₁ hstored).symm]
  have hredundant : u₂ = u₁ ↔ u.Redundant register b := by
    rw [writeRegister_redundant_iff hsound₁ hregister hstored, hu₁]
    rcases hregister with rfl | rfl <;> rfl
  constructor
  · rintro ⟨heq, hquiet⟩
    rw [← heq, hu₁] at hquiet
    exact ⟨hredundant.mp heq.symm, hquiet⟩
  · rintro ⟨hred, hquiet⟩
    have heq := hredundant.mpr hred
    refine ⟨heq.symm, ?_⟩
    rw [heq, hu₁]
    exact hquiet

/-- With the latch open: a write at `offset` reaches the divisor alone, a read there
changes nothing, and the two reads return what was written to the latch last. -/
structure Isolated (moves : List (Move Wired Served)) (s : Wired) (offset : UInt64) (b : UInt8)
    (indeterminate : UInt8) : Prop where
  write : ∀ rest, ∃ divisor, s.serve (.write offset (b :: rest)) indeterminate =
    .ok ([], { s with uart := { s.uart with baudDivisor := divisor } })
  read : ∀ size ≠ 0, ∃ reply, s.serve (.read offset size) indeterminate = .ok (reply, s)
  low : ∀ size ≠ 0, ∃ rest, s.serve (.read 0 size) indeterminate =
    .ok (latched .data moves :: rest, s)
  high : ∀ size ≠ 0, ∃ rest, s.serve (.read 1 size) indeterminate =
    .ok (latched .ier moves :: rest, s)

/-- In every state that is reached with the latch open: the reads are right, and the
write is if and only if the register behind the latch holds its byte already and no
interrupt is pending. -/
theorem divisor_isolated_iff (h : Start start) (run : Run Step start moves s)
    (hdlab : s.uart.isDlabSet) {offset : UInt64} (hoffset : offset = 0 ∨ offset = 1) (b : UInt8)
    (indeterminate : UInt8) :
    Isolated moves s offset b indeterminate ↔
      s.uart.Redundant (.ofOffset offset) b ∧ Quiet s indeterminate := by
  have hsound := sound_run h run
  constructor
  · intro hisolated
    exact (serve_write_iff hsound hoffset b [] indeterminate).mp (hisolated.write [])
  · intro hcond
    constructor
    case write =>
      exact fun rest => (serve_write_iff hsound hoffset b rest indeterminate).mpr hcond
    case read =>
      exact fun size hsize => ⟨_, serve_read_latch hdlab hoffset hsize indeterminate⟩
    case low =>
      intro size hsize
      rw [← latched_run h run (Or.inl rfl)]
      exact ⟨_, serve_read_latch hdlab (Or.inl rfl) hsize indeterminate⟩
    case high =>
      intro size hsize
      rw [← latched_run h run (Or.inr rfl)]
      exact ⟨_, serve_read_latch hdlab (Or.inr rfl) hsize indeterminate⟩

/-! A guest that opens the latch to set the speed of the line. -/

def openPort : Uart := { quietPort with lcr := lcrDlabBit }

def openMoves : List (Move Wired Served) :=
  [⟨⟨quietPort, line⟩, ⟨.write 3 [0x80], 0, []⟩, ⟨openPort, line⟩⟩]

theorem open_run : Run Step ⟨quietPort, line⟩ openMoves ⟨openPort, line⟩ := Run.one rfl

theorem high_byte_isolated : Isolated openMoves ⟨openPort, line⟩ 1 0 0 :=
  (divisor_isolated_iff start_quietPort open_run rfl (Or.inr rfl) 0 0).mpr
    ⟨(by decide : (0 : UInt8) &&& ierFifoBits = 0), rfl, Or.inl rfl, rfl, rfl, rfl⟩

/-- The low byte of the divisor for 115200 baud also goes out on the terminal. -/
theorem low_byte_leaks :
    ¬ ∀ (start s : Wired) (moves : List (Move Wired Served)), Start start →
      Run Step start moves s → s.uart.isDlabSet → ∀ offset : UInt64, offset = 0 ∨ offset = 1 →
      ∀ b indeterminate : UInt8, Isolated moves s offset b indeterminate := by
  intro h
  have hisolated := h _ _ _ start_quietPort open_run rfl 0 (Or.inl rfl) 1 0
  obtain ⟨divisor, hwrite⟩ := hisolated.write []
  have hleak : Wired.serve ⟨openPort, line⟩ (.write 0 [1]) 0 = .ok ([], ⟨{ openPort with
      baudDivisor := 1
      term := some [1]
      txBuf := (Vector.replicate 64 0).set 0 1 }, line⟩) := rfl
  rw [hleak] at hwrite
  have hterm : (some [1] : Option (List UInt8)) = some [] :=
    congrArg (fun s : Wired => s.uart.term) (Prod.mk.inj (Except.ok.inj hwrite)).2
  contradiction

end Kthxvm.Uart
