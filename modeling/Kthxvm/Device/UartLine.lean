import Kthxvm.Device.UartRun

/-! The two directions of the line. What the guest reads is what came in, and what
comes out on the terminal is what the guest wrote. -/
namespace Kthxvm.Uart

open IoDevice Lib.Flags Lib.Transition

/-- What an access must bring along: room for the byte of a read, a byte for a write,
and a terminal for the thread that reads it. -/
def Access.Proper (u : Uart) : Access → Prop
  | .read _ size => size ≠ 0
  | .write _ data => data ≠ []
  | .stdio _ => u.term.isSome

/-- The receive buffer is the queue between what is accepted and what is returned. -/
structure FifoExact (moves : List (Move Wired Served)) (s : Wired) : Prop where
  counters : s.uart.rxDone ≤ s.uart.rxCnt ∧ s.uart.rxCnt.toNat ≤ fifoLen
  ready : s.uart.dataReady ↔ s.uart.rxDone < s.uart.rxCnt
  drained : s.uart.rxDone = s.uart.rxCnt → s.uart.rxDone = 0 ∧ s.uart.rxCnt = 0
  /-- no index is out of range, whatever comes next -/
  serves : ∀ (access : Access) (indeterminate : UInt8), access.Proper s.uart →
    ∃ reply s', s.serve access indeterminate = .ok (reply, s')
  initial : moves.flatMap returned <+: moves.flatMap accepted
  complete : s.uart.dataReady = false → moves.flatMap returned = moves.flatMap accepted

theorem putByte_ok {size : UInt32} (h : size ≠ 0) (value : UInt8) :
    ∃ buf, putByte size value = .ok buf :=
  ⟨_, if_neg h⟩

theorem firstByte_ok {data : List UInt8} (h : data ≠ []) : ∃ b, firstByte data = .ok b := by
  cases data with
  | nil => exact absurd rfl h
  | cons b data => exact ⟨b, rfl⟩

section Serves

variable {u : Uart}

theorem receive_ok (h : Sound u) {size : UInt32} (hsize : size ≠ 0) :
    ∃ r, u.receive size = .ok r := by
  have hdone := h.done_le
  have hcnt := h.cnt_le
  unfold receive
  split
  · exact ⟨_, rfl⟩
  next hne =>
    have hlt : u.rxDone.toNat < fifoLen := by
      have hne' : u.rxCnt.toNat ≠ u.rxDone.toNat := fun heq => hne (UInt8.toNat_inj.mp heq)
      omega
    obtain ⟨buf, hbuf⟩ := putByte_ok hsize u.rxBuf[u.rxDone.toNat]
    rw [if_neg (not_not.mpr h.unbroken), dif_pos hlt, hbuf, ok_bind]
    dsimp only
    split
    · exact ⟨_, rfl⟩
    · exact ⟨_, rfl⟩

theorem readRegister_ok (h : Sound u) {size : UInt32} (hsize : size ≠ 0) (register : Register) :
    ∃ r, u.readRegister register size = .ok r := by
  have hput : ∀ value, ∃ r, (putByte size value).map (·, u) = .ok r := by
    intro value
    obtain ⟨buf, hbuf⟩ := putByte_ok hsize value
    rw [hbuf]
    exact ⟨_, rfl⟩
  cases register
  case data => exact receive_ok h hsize
  case unhandled => exact ⟨_, rfl⟩
  all_goals exact hput _

theorem read_ok (h : Sound u) {size : UInt32} (hsize : size ≠ 0) (irq : Interrupt)
    (indeterminate : UInt8) (offset : UInt64) :
    ∃ r, u.read irq indeterminate offset size = .ok r := by
  unfold read
  split
  next value _ =>
    obtain ⟨buf, hbuf⟩ := putByte_ok hsize value
    rw [hbuf]
    exact ⟨_, rfl⟩
  next =>
    obtain ⟨⟨buf, u'⟩, hread⟩ := readRegister_ok h hsize (.ofOffset offset)
    have hsound := (readRegister_advances h hread).sound
    have hirq := updateIrq_ok hsound irq indeterminate
    exact ⟨_, bind_eq_ok.mpr ⟨_, hread, bind_eq_ok.mpr ⟨_, hirq, rfl⟩⟩⟩

theorem transmit_ok (h : Sound u) {data : List UInt8} (hdata : data ≠ []) :
    ∃ u', u.transmit data = .ok u' := by
  obtain ⟨b, hb⟩ := firstByte_ok hdata
  by_cases hloop : u.isLoop = true
  · unfold transmit
    rw [if_pos hloop, hb]
    split
    · exact ⟨_, rfl⟩
    · exact ⟨_, rfl⟩
  · rw [transmit_out h (Bool.eq_false_iff.mpr hloop), hb]
    exact ⟨_, rfl⟩

theorem writeRegister_ok (h : Sound u) {data : List UInt8} (hdata : data ≠ [])
    (register : Register) : ∃ u', u.writeRegister register data = .ok u' := by
  obtain ⟨b, hb⟩ := firstByte_ok hdata
  cases register
  case data => exact transmit_ok h hdata
  case lsr | msr | unhandled => exact ⟨_, rfl⟩
  all_goals exact ⟨_, bind_eq_ok.mpr ⟨b, hb, rfl⟩⟩

theorem writeDivisor_ok {data : List UInt8} (hdata : data ≠ []) (register : Register) :
    ∃ u', u.writeDivisor register data = .ok u' := by
  obtain ⟨b, hb⟩ := firstByte_ok hdata
  unfold writeDivisor
  rw [hb]
  split
  · split
    · exact ⟨_, rfl⟩
    · exact ⟨_, rfl⟩
    · exact ⟨_, rfl⟩
  · exact ⟨_, rfl⟩

theorem write_ok (h : Sound u) {data : List UInt8} (hdata : data ≠ []) (irq : Interrupt)
    (indeterminate : UInt8) (offset : UInt64) :
    ∃ r, u.write irq indeterminate data offset = .ok r := by
  obtain ⟨u₁, hdivisor⟩ := writeDivisor_ok (u := u) hdata (.ofOffset offset)
  obtain ⟨divisor, rfl⟩ := writeDivisor_eq_ok hdivisor
  have hframe := h.divisor divisor
  obtain ⟨u₂, hregister⟩ := writeRegister_ok hframe hdata (.ofOffset offset)
  have hsound := (writeRegister_advances hframe hregister).sound
  have hirq := updateIrq_ok hsound irq indeterminate
  exact ⟨_, bind_eq_ok.mpr ⟨_, hdivisor, bind_eq_ok.mpr ⟨_, hregister, hirq⟩⟩⟩

theorem writeStdio_ok (h : Sound u) (hterm : u.term.isSome) (irq : Interrupt)
    (indeterminate : UInt8) (input : List Int) :
    ∃ r, u.writeStdio irq indeterminate input = .ok r := by
  unfold writeStdio
  split
  · exact ⟨_, rfl⟩
  · split
    · exact ⟨_, bind_eq_ok.mpr ⟨_, updateIrq_ok h irq indeterminate, rfl⟩⟩
    · rw [if_neg (by rw [Option.isNone_iff_eq_none]; exact Option.isSome_iff_ne_none.mp hterm)]
      have hsound := (receiveInput_advances h input).sound
      exact ⟨_, bind_eq_ok.mpr ⟨_, updateIrq_ok hsound irq indeterminate, rfl⟩⟩

theorem serve_ok {s : Wired} (h : Sound s.uart) {access : Access} (hproper : access.Proper s.uart)
    (indeterminate : UInt8) : ∃ reply s', s.serve access indeterminate = .ok (reply, s') := by
  cases access with
  | read offset size =>
    obtain ⟨_, hread⟩ := read_ok h hproper s.irq indeterminate offset
    exact ⟨_, _, bind_eq_ok.mpr ⟨_, hread, rfl⟩⟩
  | write offset data =>
    obtain ⟨_, hwrite⟩ := write_ok h hproper s.irq indeterminate offset
    exact ⟨_, _, bind_eq_ok.mpr ⟨_, hwrite, rfl⟩⟩
  | stdio input =>
    obtain ⟨_, hstdio⟩ := writeStdio_ok h hproper s.irq indeterminate input
    exact ⟨_, _, bind_eq_ok.mpr ⟨_, hstdio, rfl⟩⟩

end Serves

variable {start s : Wired} {moves : List (Move Wired Served)}

theorem waiting_nil {u : Uart} (h : Sound u) (hready : u.dataReady = false) : u.waiting = [] := by
  have hdone := h.done_le
  have hnot : ¬ u.rxDone.toNat < u.rxCnt.toNat := by
    rw [← h.ready, hready]
    exact Bool.false_ne_true
  apply List.drop_of_length_le
  rw [List.length_take]
  omega

/-- In every run the bytes that `DATA` returns are those that came in, in order, and
all of them once no more are ready. -/
theorem fifo_exact (h : Start start) (run : Run Step start moves s) : FifoExact moves s := by
  have hsound := sound_run h run
  have hempty : start.uart.waiting = [] := by
    obtain ⟨term, rxBuf, txBuf, -, hu⟩ := h
    rw [hu]
    rfl
  have hlaw := run.conserved (fun s => s.uart.waiting) accepted returned fun move hmem =>
    (advances_run h run move hmem).buffer
  rw [hempty, List.nil_append] at hlaw
  constructor
  case counters => exact ⟨UInt8.le_iff_toNat_le.mpr hsound.done_le, hsound.cnt_le⟩
  case ready => exact hsound.ready.trans UInt8.lt_iff_toNat_lt.symm
  case drained =>
    intro heq
    have hzero := hsound.drained heq
    exact ⟨heq.trans hzero, hzero⟩
  case serves => exact fun access indeterminate hproper => serve_ok hsound hproper indeterminate
  case initial => exact ⟨_, hlaw.symm⟩
  case complete =>
    intro hready
    rw [hlaw, waiting_nil hsound hready, List.append_nil]

/-! A byte that the guest loops back to itself. -/

def quietPort : Uart := fresh (some []) (Vector.replicate 64 0) (Vector.replicate 64 0)

def loopedPort : Uart := { quietPort with mcr := mcrLoopBit }

def echoPort : Uart :=
  { loopedPort with rxBuf := (Vector.replicate 64 0).set 0 0x41, rxCnt := 1, lsr := 0x61 }

def line : Interrupt := { number := 4 }

theorem start_quietPort : Start ⟨quietPort, line⟩ := ⟨_, _, _, Or.inr rfl, rfl⟩

def readPort : Uart := { echoPort with rxCnt := 0, lsr := 0x60 }

def echoMoves : List (Move Wired Served) :=
  [⟨⟨quietPort, line⟩, ⟨.write 4 [0x10], 0, []⟩, ⟨loopedPort, line⟩⟩,
    ⟨⟨loopedPort, line⟩, ⟨.write 0 [0x41], 0, []⟩, ⟨echoPort, line⟩⟩,
    ⟨⟨echoPort, line⟩, ⟨.read 0 1, 0, [0x41]⟩, ⟨readPort, line⟩⟩]

theorem echo_run : Run Step ⟨quietPort, line⟩ echoMoves ⟨readPort, line⟩ :=
  ((Run.one rfl).snoc rfl).snoc rfl

theorem echo_fifo : FifoExact echoMoves ⟨readPort, line⟩ := fifo_exact start_quietPort echo_run

/-- The terminal gets every byte that is written without loopback, at once. -/
structure LineExact (moves : List (Move Wired Served)) (s : Wired) : Prop where
  term : s.uart.term = some (moves.flatMap written)
  flushed : s.uart.txCnt = 0
  empty : s.uart.lsr &&& lsrEmptyBit ≠ 0
  idle : s.uart.lsr &&& lsrIdleBit ≠ 0

theorem attached_run (h : Start start) (hterm : start.uart.term.isSome)
    (run : Run Step start moves s) :
    s.uart.term.isSome ∧ ∀ move ∈ moves, move.source.uart.term.isSome := by
  have hstart : Sound start.uart ∧ start.uart.term.isSome := ⟨sound_start h, hterm⟩
  have hstep : ∀ (s : Wired) (l : Served) (s' : Wired),
      Sound s.uart ∧ s.uart.term.isSome → Step s l s' → Sound s'.uart ∧ s'.uart.term.isSome := by
    rintro s l s' ⟨hsound, hsome⟩ hstep
    have hadv := step_advances hsound hstep
    rw [hadv.term, Option.isSome_map]
    exact ⟨hadv.sound, hsome⟩
  exact ⟨(run.invariant (I := fun s => Sound s.uart ∧ s.uart.term.isSome) hstart hstep).2,
    fun move hmem => (run.invariant_source (I := fun s => Sound s.uart ∧ s.uart.term.isSome)
      hstart hstep move hmem).2⟩

/-- In every run of a port with a terminal no byte is lost, held back or repeated. -/
theorem line_exact (h : Start start) (hterm : start.uart.term.isSome)
    (run : Run Step start moves s) : LineExact moves s := by
  have hsound := sound_run h run
  obtain ⟨hsome, hsource⟩ := attached_run h hterm run
  constructor
  case term =>
    have hempty : start.uart.term.getD [] = [] := by
      obtain ⟨term, rxBuf, txBuf, rfl | rfl, hu⟩ := h <;> rw [hu] <;> rfl
    have hlaw := run.conserved (fun s => s.uart.term.getD []) written (fun _ => []) ?_
    · have hnone : moves.flatMap (fun _ => ([] : List UInt8)) = [] :=
        List.flatMap_eq_nil_iff.mpr fun _ _ => rfl
      obtain ⟨out, hout⟩ := Option.isSome_iff_exists.mp hsome
      rw [hempty, List.nil_append, hnone, List.nil_append, hout, Option.getD_some] at hlaw
      rw [hout, hlaw]
    · intro move hmem
      obtain ⟨out, hout⟩ := Option.isSome_iff_exists.mp (hsource move hmem)
      rw [(advances_run h run move hmem).term, hout]
      rfl
  case flushed => exact hsound.flushed
  case empty =>
    rw [and_of_within hsound.idle (by decide)]
    decide
  case idle =>
    rw [and_of_within hsound.idle (by decide)]
    decide

def sentPort : Uart :=
  { quietPort with term := some [0x41], txBuf := (Vector.replicate 64 0).set 0 0x41 }

theorem sent_line : LineExact [⟨⟨quietPort, line⟩, ⟨.write 0 [0x41], 0, []⟩, ⟨sentPort, line⟩⟩]
    ⟨sentPort, line⟩ :=
  line_exact start_quietPort rfl (Run.one rfl)

end Kthxvm.Uart
