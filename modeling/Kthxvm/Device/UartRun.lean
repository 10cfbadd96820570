import Kthxvm.Device.Uart
import Kthxvm.Lib.Flags
import Kthxvm.Lib.Transition

/-! Runs of a serial port: accesses of the guest and of the thread that reads the
terminal, each of them under the lock of the port, in any order. -/
namespace Kthxvm.Uart

open IoDevice Lib.Flags Lib.Transition

inductive Access where
  | read (offset : UInt64) (size : UInt32)
  | write (offset : UInt64) (data : List UInt8)
  | stdio (input : List Int)
deriving DecidableEq

structure Wired where
  uart : Uart
  irq : Interrupt
deriving DecidableEq

def Wired.serve (s : Wired) (access : Access) (indeterminate : UInt8) :
    Except Fault (List UInt8 × Wired) :=
  match access with
  | .read offset size => do
    let (buf, u, irq) ← s.uart.read s.irq indeterminate offset size
    return (buf, ⟨u, irq⟩)
  | .write offset data => do
    let (u, irq) ← s.uart.write s.irq indeterminate data offset
    return ([], ⟨u, irq⟩)
  | .stdio input => do
    let (_, u, irq) ← s.uart.writeStdio s.irq indeterminate input
    return ([], ⟨u, irq⟩)

/-- An access, what `update_irq` finds on the stack, and the bytes returned. -/
structure Served where
  access : Access
  indeterminate : UInt8
  reply : List UInt8
deriving DecidableEq

def Step (s : Wired) (l : Served) (s' : Wired) : Prop :=
  s.serve l.access l.indeterminate = .ok (l.reply, s')

/-- A port as its constructor leaves it; the arrays are not initialised. -/
def fresh (term : Option (List UInt8)) (rxBuf txBuf : Vector UInt8 fifoLen) : Uart :=
  { term := term, rxBuf := rxBuf, txBuf := txBuf }

def Start (s : Wired) : Prop :=
  ∃ term rxBuf txBuf, (term = none ∨ term = some []) ∧ s.uart = fresh term rxBuf txBuf

def dataReady (u : Uart) : Bool := u.lsr &&& lsrDataBit ≠ 0

theorem dataReady_iff {u : Uart} : u.dataReady ↔ u.lsr &&& lsrDataBit ≠ 0 := decide_eq_true_iff

def waiting (u : Uart) : List UInt8 := (u.rxBuf.toList.take u.rxCnt.toNat).drop u.rxDone.toNat

structure Sound (u : Uart) : Prop where
  done_le : u.rxDone.toNat ≤ u.rxCnt.toNat
  cnt_le : u.rxCnt.toNat ≤ fifoLen
  ready : u.dataReady ↔ u.rxDone.toNat < u.rxCnt.toNat
  drained : u.rxDone = u.rxCnt → u.rxCnt = 0
  unbroken : u.lsr &&& lsrBreakBit = 0
  flushed : u.txCnt = 0
  idle : u.lsr ||| (lsrEmptyBit ||| lsrIdleBit) = u.lsr

theorem sound_fresh (term : Option (List UInt8)) (rxBuf txBuf : Vector UInt8 fifoLen) :
    Sound (fresh term rxBuf txBuf) := by
  have hdata : (lsrEmptyBit ||| lsrIdleBit) &&& lsrDataBit = 0 := by decide
  have hready : (fresh term rxBuf txBuf).dataReady = false := decide_eq_false fun h => h hdata
  constructor
  case done_le => exact le_refl _
  case cnt_le => exact Nat.zero_le _
  case ready =>
    rw [hready]
    exact ⟨fun h => absurd h Bool.false_ne_true, fun h => absurd h (lt_irrefl 0)⟩
  case drained => exact fun _ => rfl
  case unbroken =>
    have hbreak : (lsrEmptyBit ||| lsrIdleBit) &&& lsrBreakBit = 0 := by decide
    exact hbreak
  case flushed => rfl
  case idle => exact UInt8.or_self

/-! `update_irq` between two accesses. -/

def pending (u : Uart) (indeterminate : UInt8) : UInt8 :=
  let tmpIir := if u.ier &&& ierRecvBit ≠ 0 ∧ u.lsr &&& lsrDataBit ≠ 0 then
    indeterminate ||| iirRecvBit else indeterminate
  if u.ier &&& ierThrBit ≠ 0 ∧ u.lsr &&& lsrIdleBit ≠ 0 then tmpIir ||| iirThrBit else tmpIir

def signal (irq : Interrupt) (pending : UInt8) : Interrupt :=
  if pending = 0 then irq.setLevel false else (irq.setLevel true).setLevel false

theorem signal_low (irq : Interrupt) (p : UInt8) : (signal irq p).state = false := by
  unfold signal
  split <;> exact Interrupt.setLevel_state _ _

theorem signal_fd (irq : Interrupt) (p : UInt8) :
    (signal irq p).fd = if p ≠ 0 ∧ irq.state = false then irq.fd + 1 else irq.fd := by
  unfold signal
  by_cases hp : p = 0
  · rw [if_pos hp, if_neg fun h => h.1 hp, Interrupt.setLevel_low_fd]
  · rw [if_neg hp, Interrupt.setLevel_low_fd]
    cases hstate : irq.state
    · rw [if_pos ⟨hp, rfl⟩, Interrupt.setLevel_high_fd_of_low hstate]
    · rw [if_neg fun h => Bool.noConfusion h.2, Interrupt.setLevel_high_of_high hstate]

def identified (u : Uart) (pending : UInt8) : Uart :=
  { u with iir := if pending = 0 then iirNoneBit else pending }

theorem updateIrq_eq (u : Uart) (irq : Interrupt) (indeterminate : UInt8) :
    u.updateIrq irq indeterminate =
      (if u.ier &&& ierThrBit = 0 then (u.identified (u.pending indeterminate)).flushTx
        else .ok (u.identified (u.pending indeterminate))).map
          (·, signal irq (u.pending indeterminate)) := by
  unfold updateIrq identified signal
  generalize hp : u.pending indeterminate = p
  unfold pending at hp
  dsimp only at hp ⊢
  rw [hp]
  by_cases hzero : p = 0
  · simp only [if_pos hzero]
    split <;> exact (map_eq_pure_bind _ _).symm
  · simp only [if_neg hzero]
    split <;> exact (map_eq_pure_bind _ _).symm

theorem flushTx_idle {u : Uart} (hflushed : u.txCnt = 0)
    (hidle : u.lsr ||| (lsrEmptyBit ||| lsrIdleBit) = u.lsr) : u.flushTx = .ok u := by
  unfold flushTx
  rw [hidle]
  exact if_pos hflushed

/-- With nothing to flush only `iir` and the line are left to change. -/
theorem updateIrq_ok {u : Uart} (h : Sound u) (irq : Interrupt) (indeterminate : UInt8) :
    u.updateIrq irq indeterminate =
      .ok (u.identified (u.pending indeterminate), signal irq (u.pending indeterminate)) := by
  rw [updateIrq_eq]
  split
  · have hflush : (u.identified (u.pending indeterminate)).flushTx = .ok _ :=
      flushTx_idle h.flushed h.idle
    rw [hflush]
    rfl
  · rfl

/-! What an access does to the receive buffer and to the terminal. -/

/-- `put` is accepted, `got` is returned and `sent` is put on the terminal. -/
structure Advances (u : Uart) (put got sent : List UInt8) (u' : Uart) : Prop where
  sound : Sound u'
  buffer : u.waiting ++ put = got ++ u'.waiting
  term : u'.term = u.term.map (· ++ sent)

theorem term_map_nil (term : Option (List UInt8)) : term = term.map (· ++ []) := by
  cases term <;> simp

theorem Advances.frame {u u' : Uart} (h : Sound u) (hterm : u'.term = u.term)
    (hbuf : u'.rxBuf = u.rxBuf) (hcnt : u'.rxCnt = u.rxCnt) (hdone : u'.rxDone = u.rxDone)
    (hlsr : u'.lsr = u.lsr) (htx : u'.txCnt = u.txCnt) : Advances u [] [] [] u' := by
  have hready : u'.dataReady = u.dataReady := by rw [dataReady, dataReady, hlsr]
  obtain ⟨h1, h2, h3, h4, h5, h6, h7⟩ := h
  constructor
  · constructor
    all_goals simpa only [hready, hcnt, hdone, hlsr, htx]
  · rw [waiting, waiting, hbuf, hcnt, hdone, List.append_nil, List.nil_append]
  · rw [hterm]
    exact term_map_nil _

theorem Advances.trans {u u₁ u₂ : Uart} {put put' got got' sent sent' : List UInt8}
    (h : Advances u put got sent u₁) (h' : Advances u₁ put' got' sent' u₂) :
    Advances u (put ++ put') (got ++ got') (sent ++ sent') u₂ where
  sound := h'.sound
  buffer := by rw [← List.append_assoc, h.buffer, List.append_assoc, h'.buffer, List.append_assoc]
  term := by
    rw [h'.term, h.term, Option.map_map]
    simp only [Function.comp_def, List.append_assoc]

theorem updateIrq_advances {u u' : Uart} {irq irq' : Interrupt} {indeterminate : UInt8}
    (h : Sound u) (hu : u.updateIrq irq indeterminate = .ok (u', irq')) :
    Advances u [] [] [] u' := by
  rw [updateIrq_ok h] at hu
  cases hu
  exact Advances.frame h rfl rfl rfl rfl rfl rfl

theorem firstByte_take {data : List UInt8} {b : UInt8} (h : firstByte data = .ok b) :
    data.take 1 = [b] := by
  cases data with
  | nil => contradiction
  | cons b' data =>
    cases h
    rfl

theorem putByte_take {size : UInt32} {value : UInt8} {buf : List UInt8}
    (h : putByte size value = .ok buf) : buf.take 1 = [value] := by
  unfold putByte at h
  split at h
  · contradiction
  · cases h
    rfl

theorem rxCnt_succ {u : Uart} (h : u.rxCnt.toNat < fifoLen) :
    (u.rxCnt + 1).toNat = u.rxCnt.toNat + 1 := by
  have hlen : fifoLen = 64 := rfl
  rw [UInt8.toNat_add, UInt8.toNat_one]
  omega

theorem push_advances {u : Uart} (h : Sound u) (hlt : u.rxCnt.toNat < fifoLen) (b : UInt8) :
    Advances u [b] [] [] { u with
      rxBuf := u.rxBuf.set u.rxCnt.toNat b
      rxCnt := u.rxCnt + 1
      lsr := u.lsr ||| lsrDataBit } := by
  have hsucc := rxCnt_succ hlt
  have hdone := h.done_le
  constructor
  · constructor
    case done_le =>
      change u.rxDone.toNat ≤ (u.rxCnt + 1).toNat
      omega
    case cnt_le =>
      change (u.rxCnt + 1).toNat ≤ fifoLen
      omega
    case ready =>
      have hbit : (u.lsr ||| lsrDataBit) &&& lsrDataBit ≠ 0 := by
        rw [or_and_self]
        decide
      constructor
      · intro _
        change u.rxDone.toNat < (u.rxCnt + 1).toNat
        omega
      · intro _
        exact decide_eq_true hbit
    case drained =>
      intro heq
      have heq' := congrArg UInt8.toNat heq
      change u.rxDone.toNat = (u.rxCnt + 1).toNat at heq'
      omega
    case unbroken => exact (or_and_of_apart (by decide)).trans h.unbroken
    case flushed => exact h.flushed
    case idle => exact or_within h.idle
  · have hlen : u.rxBuf.toList.length = fifoLen := by simp
    have htake : (u.rxBuf.set u.rxCnt.toNat b).toList.take (u.rxCnt + 1).toNat =
        u.rxBuf.toList.take u.rxCnt.toNat ++ [b] := by
      rw [hsucc, Vector.toList_set, List.take_add_one, List.take_set_of_le (le_refl _),
        List.getElem?_set_self (by omega)]
      rfl
    unfold waiting
    dsimp only
    rw [htake, List.nil_append, List.drop_append_of_le_length]
    rw [List.length_take]
    omega
  · exact term_map_nil _

theorem receive_advances {u u' : Uart} {size : UInt32} {buf : List UInt8} (h : Sound u)
    (hr : u.receive size = .ok (buf, u')) :
    Advances u [] (if u.dataReady then buf.take 1 else []) [] u' := by
  have hdone := h.done_le
  have hcnt := h.cnt_le
  unfold receive at hr
  split at hr
  next heq =>
    cases hr
    have hready : ¬ u.dataReady := by
      rw [h.ready, heq]
      exact lt_irrefl _
    rw [if_neg hready]
    exact Advances.frame h rfl rfl rfl rfl rfl rfl
  next hne =>
    have hlt : u.rxDone.toNat < u.rxCnt.toNat :=
      lt_of_le_of_ne hdone fun heq => hne (UInt8.toNat_inj.mp heq.symm)
    have hsucc : (u.rxDone + 1).toNat = u.rxDone.toNat + 1 := by
      have hmax := u.rxCnt.toNat_lt
      rw [UInt8.toNat_add, UInt8.toNat_one]
      omega
    have hfull : u.rxDone.toNat < fifoLen := by omega
    rw [if_neg (not_not.mpr h.unbroken), dif_pos hfull] at hr
    obtain ⟨_, hput, hr⟩ := bind_eq_ok.mp hr
    -- the buffer without the byte at its front
    have hlen : u.rxBuf.toList.length = fifoLen := by simp
    have hwaiting : u.waiting = u.rxBuf[u.rxDone.toNat] ::
        (u.rxBuf.toList.take u.rxCnt.toNat).drop (u.rxDone.toNat + 1) := by
      unfold waiting
      rw [List.drop_eq_getElem_cons (by rw [List.length_take]; omega), List.getElem_take]
      rfl
    rw [if_pos (h.ready.mpr hlt)]
    dsimp only at hr
    split at hr
    next hlast =>
      cases hr
      rw [putByte_take hput]
      constructor
      · constructor
        case done_le => exact le_refl _
        case cnt_le => exact Nat.zero_le _
        case ready =>
          constructor
          · intro hready
            exact absurd (clear_and_self u.lsr lsrDataBit) (of_decide_eq_true hready)
          · intro hlt
            exact absurd hlt (lt_irrefl _)
        case drained => exact fun _ => rfl
        case unbroken => exact (clear_and_of_apart (by decide)).trans h.unbroken
        case flushed => exact h.flushed
        case idle => exact clear_within (by decide) h.idle
      · have hnone : (u.rxBuf.toList.take u.rxCnt.toNat).drop (u.rxDone.toNat + 1) = [] := by
          apply List.drop_of_length_le
          rw [List.length_take, hlast, hsucc]
          omega
        rw [hwaiting, hnone]
        rfl
      · exact term_map_nil _
    next hmore =>
      cases hr
      rw [putByte_take hput]
      have hlt' : (u.rxDone + 1).toNat < u.rxCnt.toNat := by
        have hne' : u.rxCnt.toNat ≠ (u.rxDone + 1).toNat := fun heq =>
          hmore (UInt8.toNat_inj.mp heq)
        omega
      constructor
      · constructor
        case done_le => exact hlt'.le
        case cnt_le => exact hcnt
        case ready => exact ⟨fun _ => hlt', fun _ => h.ready.mpr hlt⟩
        case drained =>
          intro heq
          exact absurd (congrArg UInt8.toNat heq) hlt'.ne
        case unbroken => exact h.unbroken
        case flushed => exact h.flushed
        case idle => exact h.idle
      · rw [hwaiting, List.append_nil]
        unfold waiting
        dsimp only
        rw [hsucc]
        rfl
      · exact term_map_nil _

theorem readRegister_advances {u u' : Uart} {register : Register} {size : UInt32}
    {buf : List UInt8} (h : Sound u) (hr : u.readRegister register size = .ok (buf, u')) :
    Advances u [] (if register = .data ∧ u.dataReady then buf.take 1 else []) [] u' := by
  have hsame : register ≠ .data → u' = u →
      Advances u [] (if register = .data ∧ u.dataReady then buf.take 1 else []) [] u' := by
    rintro hne rfl
    rw [if_neg fun h => hne h.1]
    exact Advances.frame h rfl rfl rfl rfl rfl rfl
  have hput : ∀ {value}, (putByte size value).map (·, u) = .ok (buf, u') → u' = u := by
    intro value hr
    obtain ⟨_, -, hr⟩ := bind_eq_ok.mp ((map_eq_pure_bind _ _).symm.trans hr)
    cases hr
    rfl
  cases register
  case data =>
    simp only [true_and]
    exact receive_advances h hr
  case unhandled =>
    cases hr
    exact hsame nofun rfl
  all_goals exact hsame nofun (hput hr)

/-- Without loopback a byte is on the terminal before `write` goes on. -/
theorem transmit_out {u : Uart} (h : Sound u) (hloop : u.isLoop = false) (data : List UInt8) :
    u.transmit data = (firstByte data).map fun b => { u with
      txBuf := u.txBuf.set 0 b
      term := u.term.map (· ++ [b]) } := by
  have hcnt : u.txCnt.toNat = 0 := by rw [h.flushed]; rfl
  have hroom : u.txCnt.toNat < fifoLen := by rw [hcnt]; decide
  have hone : (u.txCnt + 1).toNat = 1 := by rw [h.flushed]; rfl
  have hhalf : ¬ (u.txCnt + 1).toNat = fifoLen / 2 := by rw [hone]; decide
  have hsome : ¬ u.txCnt + 1 = 0 := by rw [h.flushed]; decide
  have hlsr : (u.lsr &&& ~~~lsrIdleBit) ||| (lsrEmptyBit ||| lsrIdleBit) = u.lsr := by
    rw [clear_or_of_within (by decide), h.idle]
  have hzero : (0 : UInt8) = u.txCnt := h.flushed.symm
  unfold transmit
  rw [if_neg (by simp [hloop]), dif_pos hroom]
  cases data with
  | nil => rfl
  | cons b data =>
    dsimp only
    change flushTx _ = Except.ok _
    rw [if_neg hhalf]
    unfold flushTx
    dsimp only
    rw [if_neg hsome, hlsr]
    cases hterm : u.term with
    | none =>
      simp only [hcnt, Option.map_none]
      rw [hzero, ← hterm]
    | some out =>
      have htake : (u.txBuf.set 0 b).toList.take 1 = [b] := by
        rw [Vector.toList_set, List.take_one, List.head?_eq_getElem?,
          List.getElem?_set_self (by rw [Vector.length_toList]; decide)]
        rfl
      dsimp only
      rw [if_pos (by rw [hone]; decide), hone]
      simp only [hcnt, htake, Option.map_some]
      rw [hzero]

theorem transmit_advances {u u' : Uart} {data : List UInt8} (h : Sound u)
    (ht : u.transmit data = .ok u') :
    Advances u (if u.isLoop ∧ u.rxCnt.toNat < fifoLen then data.take 1 else []) []
      (if u.isLoop then [] else data.take 1) u' := by
  by_cases hloop : u.isLoop = true
  · rw [if_pos hloop]
    unfold transmit at ht
    rw [if_pos hloop] at ht
    split at ht
    next hlt =>
      obtain ⟨b, hb, ht⟩ := bind_eq_ok.mp ht
      cases ht
      rw [if_pos ⟨hloop, hlt⟩, firstByte_take hb]
      exact push_advances h hlt b
    next hfull =>
      cases ht
      rw [if_neg fun h => hfull h.2]
      exact Advances.frame h rfl rfl rfl rfl rfl rfl
  · rw [if_neg hloop, if_neg fun h => hloop h.1]
    rw [transmit_out h (Bool.eq_false_iff.mpr hloop)] at ht
    obtain ⟨b, hb, ht⟩ := bind_eq_ok.mp ((map_eq_pure_bind _ _).symm.trans ht)
    cases ht
    rw [firstByte_take hb]
    exact ⟨⟨h.done_le, h.cnt_le, h.ready, h.drained, h.unbroken, h.flushed, h.idle⟩,
      List.append_nil _, rfl⟩

theorem Sound.divisor {u : Uart} (h : Sound u) (divisor : UInt16) :
    Sound { u with baudDivisor := divisor } :=
  ⟨h.done_le, h.cnt_le, h.ready, h.drained, h.unbroken, h.flushed, h.idle⟩

theorem writeDivisor_eq_ok {u u' : Uart} {register : Register} {data : List UInt8}
    (hw : u.writeDivisor register data = .ok u') :
    ∃ divisor, u' = { u with baudDivisor := divisor } := by
  unfold writeDivisor at hw
  split at hw
  · split at hw
    · obtain ⟨_, -, hw⟩ := bind_eq_ok.mp hw
      cases hw
      exact ⟨_, rfl⟩
    · obtain ⟨_, -, hw⟩ := bind_eq_ok.mp hw
      cases hw
      exact ⟨_, rfl⟩
    · cases hw
      exact ⟨_, rfl⟩
  · cases hw
    exact ⟨_, rfl⟩

theorem writeRegister_advances {u u' : Uart} {register : Register} {data : List UInt8}
    (h : Sound u) (hw : u.writeRegister register data = .ok u') :
    Advances u (if register = .data ∧ u.isLoop ∧ u.rxCnt.toNat < fifoLen then data.take 1 else [])
      [] (if register = .data ∧ ¬ u.isLoop then data.take 1 else []) u' := by
  cases register
  case data =>
    simp only [true_and, ite_not]
    exact transmit_advances h hw
  case lsr | msr | unhandled =>
    cases hw
    exact Advances.frame h rfl rfl rfl rfl rfl rfl
  all_goals
    obtain ⟨b, -, hw⟩ := bind_eq_ok.mp hw
    cases hw
    exact Advances.frame h rfl rfl rfl rfl rfl rfl

/-- The bytes that `write_stdio` stores until the terminal has no more or fails, or the
buffer is full. -/
def stored (u : Uart) (input : List Int) : List UInt8 :=
  ((input.takeWhile (0 ≤ ·)).take (fifoLen - u.rxCnt.toNat)).map UInt8.ofInt

theorem receiveInput_advances {u : Uart} (h : Sound u) (input : List Int) :
    Advances u (u.stored input) [] [] (u.receiveInput input) := by
  induction input generalizing u with
  | nil =>
    have hnone : u.stored [] = [] := by rw [stored, List.takeWhile_nil, List.take_nil, List.map_nil]
    rw [hnone]
    exact Advances.frame h rfl rfl rfl rfl rfl rfl
  | cons c input ih =>
    unfold receiveInput
    split
    next hlt =>
      split
      next hc =>
        have hnone : u.stored (c :: input) = [] := by
          rw [stored, List.takeWhile_cons_of_neg (by simpa using hc), List.take_nil, List.map_nil]
        rw [hnone]
        exact Advances.frame h rfl rfl rfl rfl rfl rfl
      next hc =>
        have hpush := push_advances h hlt (UInt8.ofInt c)
        have hrest := hpush.trans (ih hpush.sound)
        have hstored : u.stored (c :: input) = [UInt8.ofInt c] ++ stored { u with
            rxBuf := u.rxBuf.set u.rxCnt.toNat (UInt8.ofInt c)
            rxCnt := u.rxCnt + 1
            lsr := u.lsr ||| lsrDataBit } input := by
          obtain ⟨n, hn⟩ : ∃ n, fifoLen - u.rxCnt.toNat = n + 1 :=
            Nat.exists_eq_succ_of_ne_zero (by omega)
          have hn' : fifoLen - (u.rxCnt + 1).toNat = n := by rw [rxCnt_succ hlt]; omega
          unfold stored
          dsimp only
          rw [List.takeWhile_cons_of_pos (by simpa using hc), hn, hn', List.take_succ_cons]
          rfl
        rw [hstored]
        exact hrest
    next hfull =>
      have hnone : u.stored (c :: input) = [] := by
        have hzero : fifoLen - u.rxCnt.toNat = 0 := by omega
        rw [stored, hzero]
        rfl
      rw [hnone]
      exact Advances.frame h rfl rfl rfl rfl rfl rfl

/-! The two directions of the line over a run. -/

/-- The bytes that an access brings into the receive buffer: a byte that is looped back, or
input of the terminal, as long as there is room. -/
def accepted (move : Move Wired Served) : List UInt8 :=
  let u := move.source.uart
  match move.label.access with
  | .read _ _ => []
  | .write offset data =>
    if Register.ofOffset offset = .data ∧ u.isLoop ∧ u.rxCnt.toNat < fifoLen then data.take 1
    else []
  | .stdio input => if u.isLoop ∨ u.dataReady ∨ u.rxCnt ≠ 0 then [] else u.stored input

def returned (move : Move Wired Served) : List UInt8 :=
  let u := move.source.uart
  match move.label.access with
  | .read offset _ =>
    if Register.ofOffset offset = .data ∧ ¬ u.isDlabSet ∧ u.dataReady then move.label.reply.take 1
    else []
  | _ => []

def written (move : Move Wired Served) : List UInt8 :=
  match move.label.access with
  | .write offset data =>
    if Register.ofOffset offset = .data ∧ ¬ move.source.uart.isLoop then data.take 1 else []
  | _ => []

theorem readDivisor_eq_some {u : Uart} {register : Register} {value : UInt8}
    (h : u.readDivisor register = some value) :
    u.isDlabSet ∧ (register = .data ∨ register = .ier) := by
  unfold readDivisor at h
  split at h
  next hdlab =>
    refine ⟨hdlab, ?_⟩
    cases register
    case data => exact Or.inl rfl
    case ier => exact Or.inr rfl
    all_goals contradiction
  next => contradiction

theorem readDivisor_data_none {u : Uart} (h : u.readDivisor .data = none) :
    ¬ u.isDlabSet = true := by
  intro hdlab
  rw [readDivisor, if_pos hdlab] at h
  contradiction

theorem read_advances {u u' : Uart} {irq irq' : Interrupt} {indeterminate : UInt8}
    {offset : UInt64} {size : UInt32} {buf : List UInt8} (h : Sound u)
    (hr : u.read irq indeterminate offset size = .ok (buf, u', irq')) :
    Advances u [] (if Register.ofOffset offset = .data ∧ ¬ u.isDlabSet ∧ u.dataReady
      then buf.take 1 else []) [] u' := by
  unfold read at hr
  cases hdivisor : u.readDivisor (.ofOffset offset) with
  | some value =>
    rw [hdivisor] at hr
    obtain ⟨_, -, hr⟩ := bind_eq_ok.mp hr
    cases hr
    rw [if_neg fun hcond => hcond.2.1 (readDivisor_eq_some hdivisor).1]
    exact Advances.frame h rfl rfl rfl rfl rfl rfl
  | none =>
    rw [hdivisor] at hr
    obtain ⟨⟨_, _⟩, hregister, hr⟩ := bind_eq_ok.mp hr
    obtain ⟨⟨_, _⟩, hirq, hr⟩ := bind_eq_ok.mp hr
    cases hr
    have hgot := readRegister_advances h hregister
    have hall := hgot.trans (updateIrq_advances hgot.sound hirq)
    simp only [List.append_nil] at hall
    by_cases hdata : Register.ofOffset offset = .data
    · rw [hdata] at hdivisor
      simp only [hdata, true_and] at hall
      have hdlab := readDivisor_data_none hdivisor
      simp only [hdata, true_and, hdlab, Bool.false_eq_true, not_false_eq_true]
      exact hall
    · simp only [hdata, false_and, if_false] at hall ⊢
      exact hall

theorem write_advances {u u' : Uart} {irq irq' : Interrupt} {indeterminate : UInt8}
    {offset : UInt64} {data : List UInt8} (h : Sound u)
    (hw : u.write irq indeterminate data offset = .ok (u', irq')) :
    Advances u (if Register.ofOffset offset = .data ∧ u.isLoop ∧ u.rxCnt.toNat < fifoLen
        then data.take 1 else []) []
      (if Register.ofOffset offset = .data ∧ ¬ u.isLoop then data.take 1 else []) u' := by
  obtain ⟨_, hdivisor, hw⟩ := bind_eq_ok.mp hw
  obtain ⟨_, hregister, hirq⟩ := bind_eq_ok.mp hw
  obtain ⟨divisor, rfl⟩ := writeDivisor_eq_ok hdivisor
  have hframe : Advances u [] [] [] { u with baudDivisor := divisor } :=
    Advances.frame h rfl rfl rfl rfl rfl rfl
  have hput := writeRegister_advances hframe.sound hregister
  have hall := (hframe.trans hput).trans (updateIrq_advances hput.sound hirq)
  simp only [List.nil_append, List.append_nil] at hall
  exact hall

theorem writeStdio_advances {u u' : Uart} {irq irq' : Interrupt} {indeterminate : UInt8}
    {input : List Int} {result : UInt64} (h : Sound u)
    (hw : u.writeStdio irq indeterminate input = .ok (result, u', irq')) :
    Advances u (if u.isLoop ∨ u.dataReady ∨ u.rxCnt ≠ 0 then [] else u.stored input) [] [] u' := by
  unfold writeStdio at hw
  split at hw
  next hloop =>
    cases hw
    rw [if_pos (Or.inl hloop)]
    exact Advances.frame h rfl rfl rfl rfl rfl rfl
  next hloop =>
    split at hw
    next hbusy =>
      obtain ⟨⟨_, _⟩, hirq, hw⟩ := bind_eq_ok.mp hw
      cases hw
      rw [if_pos (Or.inr (hbusy.imp dataReady_iff.mpr id))]
      exact updateIrq_advances h hirq
    next hidle =>
      split at hw
      · contradiction
      · obtain ⟨⟨_, _⟩, hirq, hw⟩ := bind_eq_ok.mp hw
        cases hw
        have hput := receiveInput_advances h input
        have hall := hput.trans (updateIrq_advances hput.sound hirq)
        simp only [List.append_nil] at hall
        rw [if_neg]
        · exact hall
        · rintro (hcond | hcond | hcond)
          · exact hloop hcond
          · exact hidle (Or.inl (dataReady_iff.mp hcond))
          · exact hidle (Or.inr hcond)

theorem step_advances {s s' : Wired} {l : Served} (h : Sound s.uart) (hs : Step s l s') :
    Advances s.uart (accepted ⟨s, l, s'⟩) (returned ⟨s, l, s'⟩) (written ⟨s, l, s'⟩) s'.uart := by
  obtain ⟨access, indeterminate, reply⟩ := l
  cases access with
  | read offset size =>
    obtain ⟨⟨_, _, _⟩, hread, hs⟩ := bind_eq_ok.mp hs
    cases hs
    exact read_advances h hread
  | write offset data =>
    obtain ⟨⟨_, _⟩, hwrite, hs⟩ := bind_eq_ok.mp hs
    cases hs
    exact write_advances h hwrite
  | stdio input =>
    obtain ⟨⟨_, _, _⟩, hstdio, hs⟩ := bind_eq_ok.mp hs
    cases hs
    exact writeStdio_advances h hstdio

/-! What a step can be: an access that leaves before `update_irq` does nothing. -/

/-- The port as an access has it when it calls `update_irq`. -/
inductive Prepares (u : Uart) : Access → Uart → Prop where
  | read {offset : UInt64} {size : UInt32} {buf : List UInt8} {u' : Uart}
      (hdivisor : u.readDivisor (.ofOffset offset) = none)
      (h : u.readRegister (.ofOffset offset) size = .ok (buf, u')) :
      Prepares u (.read offset size) u'
  | write {offset : UInt64} {data : List UInt8} {u₁ u' : Uart}
      (hdivisor : u.writeDivisor (.ofOffset offset) data = .ok u₁)
      (h : u₁.writeRegister (.ofOffset offset) data = .ok u') :
      Prepares u (.write offset data) u'
  | busy {input : List Int} (hloop : ¬ u.isLoop) (h : u.lsr &&& lsrDataBit ≠ 0 ∨ u.rxCnt ≠ 0) :
      Prepares u (.stdio input) u
  | input {input : List Int} (hloop : ¬ u.isLoop)
      (h : ¬ (u.lsr &&& lsrDataBit ≠ 0 ∨ u.rxCnt ≠ 0)) :
      Prepares u (.stdio input) (u.receiveInput input)

theorem step_cases {s s' : Wired} {l : Served} (hs : Step s l s') :
    (∃ offset size value, l.access = .read offset size ∧
      s.uart.readDivisor (.ofOffset offset) = some value ∧ s' = s) ∨
    (∃ input, l.access = .stdio input ∧ s.uart.isLoop ∧ s' = s) ∨
    ∃ u, Prepares s.uart l.access u ∧
      u.updateIrq s.irq l.indeterminate = .ok (s'.uart, s'.irq) := by
  obtain ⟨access, indeterminate, reply⟩ := l
  cases access with
  | read offset size =>
    obtain ⟨⟨_, _, _⟩, hread, hs⟩ := bind_eq_ok.mp hs
    cases hs
    unfold read at hread
    split at hread
    next value hdivisor =>
      obtain ⟨_, -, hread⟩ := bind_eq_ok.mp hread
      cases hread
      exact Or.inl ⟨offset, size, value, rfl, hdivisor, rfl⟩
    next hdivisor =>
      obtain ⟨⟨_, _⟩, hregister, hread⟩ := bind_eq_ok.mp hread
      obtain ⟨⟨_, _⟩, hirq, hread⟩ := bind_eq_ok.mp hread
      cases hread
      exact Or.inr (Or.inr ⟨_, .read hdivisor hregister, hirq⟩)
  | write offset data =>
    obtain ⟨⟨_, _⟩, hwrite, hs⟩ := bind_eq_ok.mp hs
    cases hs
    obtain ⟨_, hdivisor, hwrite⟩ := bind_eq_ok.mp hwrite
    obtain ⟨_, hregister, hirq⟩ := bind_eq_ok.mp hwrite
    exact Or.inr (Or.inr ⟨_, .write hdivisor hregister, hirq⟩)
  | stdio input =>
    obtain ⟨⟨_, _, _⟩, hstdio, hs⟩ := bind_eq_ok.mp hs
    cases hs
    unfold writeStdio at hstdio
    split at hstdio
    next hloop =>
      cases hstdio
      exact Or.inr (Or.inl ⟨input, rfl, hloop, rfl⟩)
    next hloop =>
      split at hstdio
      next hbusy =>
        obtain ⟨⟨_, _⟩, hirq, hstdio⟩ := bind_eq_ok.mp hstdio
        cases hstdio
        exact Or.inr (Or.inr ⟨_, .busy hloop hbusy, hirq⟩)
      next hidle =>
        split at hstdio
        · contradiction
        · obtain ⟨⟨_, _⟩, hirq, hstdio⟩ := bind_eq_ok.mp hstdio
          cases hstdio
          exact Or.inr (Or.inr ⟨_, .input hloop hidle, hirq⟩)

theorem Prepares.sound {u u' : Uart} {access : Access} (h : Sound u)
    (hprepares : Prepares u access u') : Sound u' := by
  cases hprepares with
  | read hdivisor hregister => exact (readRegister_advances h hregister).sound
  | write hdivisor hregister =>
    obtain ⟨divisor, rfl⟩ := writeDivisor_eq_ok hdivisor
    exact (writeRegister_advances (h.divisor divisor) hregister).sound
  | busy => exact h
  | input => exact (receiveInput_advances h _).sound

variable {start s : Wired} {moves : List (Move Wired Served)}

theorem sound_start (h : Start s) : Sound s.uart := by
  obtain ⟨term, rxBuf, txBuf, -, hu⟩ := h
  rw [hu]
  exact sound_fresh term rxBuf txBuf

theorem sound_run (h : Start start) (run : Run Step start moves s) : Sound s.uart :=
  run.invariant (I := fun s => Sound s.uart) (sound_start h)
    fun _ _ _ hsound hstep => (step_advances hsound hstep).sound

theorem advances_run (h : Start start) (run : Run Step start moves s) :
    ∀ move ∈ moves, Advances move.source.uart (accepted move) (returned move) (written move)
      move.target.uart := by
  intro move hmem
  have hsound := run.invariant_source (I := fun s => Sound s.uart) (sound_start h)
    (fun _ _ _ hsound hstep => (step_advances hsound hstep).sound) move hmem
  exact step_advances hsound (run.step_of_mem move hmem)

end Kthxvm.Uart
