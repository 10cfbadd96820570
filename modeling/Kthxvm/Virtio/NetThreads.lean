import Kthxvm.Lib.Transition
import Kthxvm.Virtio.NetTransmit

/-! The two threads of `net.h` beside a driver that keeps publishing. A move is one call on
a queue, one iteration of a loop or one system call; the driver may move between any two. -/
namespace Kthxvm.Virtio.Net

open Lib.ByteMemory Lib.Disk Lib.ScatterGather Lib.Transition

/-- The body of the scatter loop; the last component is the descriptor to go on with. -/
def rxIterate (q : Queue) (buffer : List UInt8) (size : Int) (g : Guest) (next : UInt16)
    (len : UInt32) : Except Fault (Guest × UInt32 × Option UInt16) := do
  let d ← q.descriptor g next
  let writeLen := min (UInt32.ofInt (size - len.toNat)) d.len
  let g ← g.write d.addr (← hostRead buffer len.toNat writeLen.toNat)
  let len := len + writeLen
  if (len.toNat : Int) = size then .ok (g, len, none)
  else
    let d ← q.descriptor g next
    if d.hasNext then
      let next ← descriptorIndex d.next
      .ok (g, len, some next)
    else .ok (g, len, none)

def txIterate (q : Queue) (buffer : List UInt8) (g : Guest) (next : UInt16) (written : UInt32) :
    Except Fault (List UInt8 × UInt32 × Option UInt16) := do
  let d ← q.descriptor g next
  hostRoom buffer written.toNat d.len.toNat
  let buffer := splice buffer written.toNat (← g.read d.addr d.len.toNat)
  let written := written + d.len
  if d.hasNext then
    let next ← descriptorIndex d.next
    .ok (buffer, written, some next)
  else .ok (buffer, written, none)

theorem rxLoop_iterate (q : Queue) (buffer : List UInt8) (size : Int) (fuel : Nat) (g : Guest)
    (next : UInt16) (len : UInt32) :
    rxLoop q buffer size (fuel + 1) g next len = (do
      let (g, len, next) ← rxIterate q buffer size g next len
      match next with
      | none => .ok (g, len)
      | some next => rxLoop q buffer size fuel g next len) := by
  rw [rxLoop_succ]
  unfold rxIterate
  rw [bind_assoc]
  congr 1
  funext d
  rw [bind_assoc]
  congr 1
  funext bytes
  rw [bind_assoc]
  congr 1
  funext g
  unfold rxNext
  change (if ((len + writeLen size len d).toNat : Int) = size then _ else _) =
    (if ((len + writeLen size len d).toNat : Int) = size then _ else _) >>= _
  split
  · rfl
  · rw [bind_assoc]
    congr 1
    funext d
    split
    · rw [bind_assoc]
      rfl
    · rfl

theorem txLoop_iterate (q : Queue) (g : Guest) (fuel : Nat) (buffer : List UInt8)
    (next : UInt16) (written : UInt32) :
    txLoop q g (fuel + 1) buffer next written = (do
      let (buffer, written, next) ← txIterate q buffer g next written
      match next with
      | none => .ok (buffer, written)
      | some next => txLoop q g fuel buffer next written) := by
  conv_lhs => unfold txLoop
  unfold txIterate
  rw [bind_assoc]
  congr 1
  funext d
  rw [bind_assoc]
  congr 1
  funext room
  rw [bind_assoc]
  congr 1
  funext bytes
  dsimp only
  split
  · rw [bind_assoc]
    rfl
  · rfl

/-- Where a thread stands in `update_rx` or `update_tx`, with the locals that it still
needs; `α` is what the tap has told it. -/
inductive Position (α : Type) where
  | idle
  /-- the tap has not been polled yet -/
  | taken (next : UInt16)
  | filled (next : UInt16) (told : α)
  | copying (told : α) (descStart : UInt32) (next : UInt16) (len : UInt32)
  /-- the tap has not been written yet -/
  | gathered (descStart written : UInt32)
  | copied (descStart len : UInt32)

structure Side (α : Type) where
  queue : Queue
  buffer : List UInt8
  position : Position α := .idle
  /-- the heads that the driver has published -/
  published : List UInt16 := []
  /-- the ids that were given to `add_used` -/
  used : List UInt32 := []

namespace Side

variable {α : Type}

def slot (s : Side α) (k : Nat) : UInt64 :=
  s.queue.availSlot (UInt32.ofNat (k % s.queue.size.toNat))

def Outstanding (s : Side α) (k : Nat) (head : UInt16) : Prop :=
  s.used.length ≤ k ∧ s.published[k]? = some head

def afterPublish (s : Side α) (head : UInt16) : Side α :=
  { s with published := s.published ++ [head] }

def publishIdx (s : Side α) (g : Guest) : Guest :=
  ⟨store16 g.bytes s.queue.availIdxAddr (UInt16.ofNat (s.published.length + 1)), g.size⟩

def afterAddUsed (s : Side α) (descStart : UInt32) : Side α :=
  { s with position := .idle, used := s.used ++ [descStart] }

/-- What a driver leaves alone as long as a chain is not completed. -/
structure Keeps (s : Side α) (m m' : Memory) : Prop where
  used : AgreeOn s.queue.usedSpan m m'
  idx : load16 m' s.queue.availIdxAddr = load16 m s.queue.availIdxAddr
  slots : ∀ k head, s.Outstanding k head → load16 m' (s.slot k) = load16 m (s.slot k)
  entries : ∀ k head ds, s.Outstanding k head → s.queue.Chain m head ds →
    ∀ i ∈ Queue.chainIndices head ds, s.queue.entry m' i = s.queue.entry m i

end Side

def rings (q : Queue) : List Span := [q.tableSpan, q.availSpan, q.usedSpan]

/-- A chain that ends, with its buffers in guest memory, off the rings, and together no
longer than the staging buffer. -/
structure Offered (taboo : List Span) (q : Queue) (g : Guest) (head : UInt16)
    (ds : List Descriptor) : Prop where
  chain : q.Chain g.bytes head ds
  held : ∀ d ∈ ds, g.Holds d.addr d.len.toNat
  apart : ∀ d ∈ ds, ∀ ring ∈ taboo, ring.Apart d.span
  fits : totalLen (spans ds) ≤ bufferLen

/-- When a driver may publish one more chain, which it has put into its slot already. -/
structure Side.MayPublish {α : Type} (taboo : List Span) (s : Side α) (g : Guest)
    (head : UInt16) : Prop where
  room : s.published.length < s.used.length + s.queue.size.toNat
  few : s.published.length + 1 < 2 ^ 16
  slot : load16 g.bytes (s.slot s.published.length) = head
  offered : ∃ ds, Offered taboo s.queue g head ds

inductive Act where
  | publish (head : UInt16)
  | next
  | timeout
  | receive (packet : Option (List UInt8))
  | availId
  | copy
  | write (ret : Int)
  | addUsed
deriving DecidableEq

def Act.ofDevice : Act → Prop
  | .publish _ => False
  | _ => True

/-- The receive queue. A read of the tap returns at most what it was asked for. -/
inductive RxStep (taboo : List Span) (s : Side Int) (g : Guest) :
    Act → Side Int → Guest → Prop where
  | publish {head : UInt16} (h : s.MayPublish taboo g head) :
      RxStep taboo s g (.publish head) (s.afterPublish head) (s.publishIdx g)
  | next {taken : Option UInt16} {q : Queue} (hidle : s.position = .idle)
      (h : s.queue.next g = .ok (taken, q)) :
      RxStep taboo s g .next { s with queue := q, position := taken.elim .idle .taken } g
  | timeout {next : UInt16} (htaken : s.position = .taken next) :
      RxStep taboo s g .timeout { s with queue := s.queue.popBack, position := .idle } g
  | receive {next : UInt16} (htaken : s.position = .taken next) (packet : Option (List UInt8))
      (hpacket : (packet.getD []).length ≤ bufferLen) :
      RxStep taboo s g (.receive packet)
        { s with buffer := staging s.buffer packet, position := .filled next (sizeOf packet) } g
  | availId {next id : UInt16} {size : Int} (hfilled : s.position = .filled next size)
      (h : s.queue.availId g = .ok id) :
      RxStep taboo s g .availId { s with position := .copying size id.toUInt32 next 0 } g
  | copy {size : Int} {descStart len len' : UInt32} {next : UInt16} {next' : Option UInt16}
      {g' : Guest} (hcopying : s.position = .copying size descStart next len)
      (h : rxIterate s.queue s.buffer size g next len = .ok (g', len', next')) :
      RxStep taboo s g .copy
        { s with
          position := next'.elim (.copied descStart len')
            fun next => .copying size descStart next len' } g'
  | addUsed {descStart len : UInt32} {idx : UInt16} {g' : Guest}
      (hcopied : s.position = .copied descStart len)
      (h : s.queue.addUsed g descStart len = .ok (idx, g')) :
      RxStep taboo s g .addUsed (s.afterAddUsed descStart) g'

inductive TxStep (taboo : List Span) (s : Side Unit) (g : Guest) :
    Act → Side Unit → Guest → Prop where
  | publish {head : UInt16} (h : s.MayPublish taboo g head) :
      TxStep taboo s g (.publish head) (s.afterPublish head) (s.publishIdx g)
  | next {taken : Option UInt16} {q : Queue} (hidle : s.position = .idle)
      (h : s.queue.next g = .ok (taken, q)) :
      TxStep taboo s g .next
        { s with queue := q, position := taken.elim .idle fun next => .filled next () } g
  | availId {next id : UInt16} (hfilled : s.position = .filled next ())
      (h : s.queue.availId g = .ok id) :
      TxStep taboo s g .availId { s with position := .copying () id.toUInt32 next 0 } g
  | copy {descStart written written' : UInt32} {next : UInt16} {next' : Option UInt16}
      {buffer : List UInt8} (hcopying : s.position = .copying () descStart next written)
      (h : txIterate s.queue s.buffer g next written = .ok (buffer, written', next')) :
      TxStep taboo s g .copy
        { s with
          buffer := buffer
          position := next'.elim (.gathered descStart written')
            fun next => .copying () descStart next written' } g
  | write {descStart written : UInt32} (hgathered : s.position = .gathered descStart written)
      (ret : Int) :
      TxStep taboo s g (.write ret) { s with position := .copied descStart (UInt32.ofInt ret) } g
  | addUsed {descStart len : UInt32} {idx : UInt16} {g' : Guest}
      (hcopied : s.position = .copied descStart len)
      (h : s.queue.addUsed g descStart len = .ok (idx, g')) :
      TxStep taboo s g .addUsed (s.afterAddUsed descStart) g'

structure State where
  guest : Guest
  rx : Side Int
  tx : Side Unit

def State.rings (s : State) : List Span := Net.rings s.rx.queue ++ Net.rings s.tx.queue

inductive Event where
  /-- the driver writes memory, to lay out chains and frames or for its own ends -/
  | memory (bytes : Memory)
  | rx (act : Act)
  | tx (act : Act)

inductive Step : State → Event → State → Prop where
  | memory {s : State} {bytes : Memory} (hrx : s.rx.Keeps s.guest.bytes bytes)
      (htx : s.tx.Keeps s.guest.bytes bytes) :
      Step s (.memory bytes) { s with guest := ⟨bytes, s.guest.size⟩ }
  | rx {s : State} {act : Act} {side : Side Int} {g : Guest}
      (h : RxStep s.rings s.rx s.guest act side g) :
      Step s (.rx act) { s with rx := side, guest := g }
  | tx {s : State} {act : Act} {side : Side Unit} {g : Guest}
      (h : TxStep s.rings s.tx s.guest act side g) :
      Step s (.tx act) { s with tx := side, guest := g }

def Event.ofRx : Event → Prop
  | .rx act => act.ofDevice
  | _ => False

def Event.ofTx : Event → Prop
  | .tx act => act.ofDevice
  | _ => False

/-! A call that nobody interrupts is a run of these moves. -/

section Call

variable {s : State} {fuel : Nat} {g g' : Guest} {next : UInt16} {descStart len len' : UInt32}
  {irq : Interrupt} {r : Result} {act : Act}

theorem rx_move {side : Side Int} (h : RxStep s.rings s.rx s.guest act side g)
    (hact : act.ofDevice) :
    Run (guarded Step fun _ e => e.ofRx) s [⟨s, .rx act, { s with rx := side, guest := g }⟩]
      { s with rx := side, guest := g } :=
  Run.one ⟨hact, Step.rx h⟩

theorem tx_move {side : Side Unit} (h : TxStep s.rings s.tx s.guest act side g)
    (hact : act.ofDevice) :
    Run (guarded Step fun _ e => e.ofTx) s [⟨s, .tx act, { s with tx := side, guest := g }⟩]
      { s with tx := side, guest := g } :=
  Run.one ⟨hact, Step.tx h⟩

theorem rxLoop_run {size : Int}
    (h : rxLoop s.rx.queue s.rx.buffer size fuel s.guest next len = .ok (g', len'))
    (hcopying : s.rx.position = .copying size descStart next len) :
    ∃ moves, Run (guarded Step fun _ e => e.ofRx) s moves
      { s with guest := g', rx := { s.rx with position := .copied descStart len' } } := by
  induction fuel generalizing s next len with
  | zero => contradiction
  | succ fuel ih =>
    rw [rxLoop_iterate] at h
    obtain ⟨⟨g₁, len₁, next₁⟩, hiterate, h⟩ := bind_eq_ok.mp h
    have hmove := rx_move (RxStep.copy hcopying hiterate) trivial
    cases next₁ with
    | none =>
      cases h
      exact ⟨_, hmove⟩
    | some next₁ =>
      obtain ⟨moves, run⟩ := ih (s := { s with
        guest := g₁, rx := { s.rx with position := .copying size descStart next₁ len₁ } }) h rfl
      exact ⟨_, hmove.append run⟩

theorem txLoop_run {buffer : List UInt8} {written written' : UInt32}
    (h : txLoop s.tx.queue s.guest fuel s.tx.buffer next written = .ok (buffer, written'))
    (hcopying : s.tx.position = .copying () descStart next written) :
    ∃ moves, Run (guarded Step fun _ e => e.ofTx) s moves
      { s with
        tx := { s.tx with buffer := buffer, position := .gathered descStart written' } } := by
  induction fuel generalizing s next written with
  | zero => contradiction
  | succ fuel ih =>
    rw [txLoop_iterate] at h
    obtain ⟨⟨buffer₁, written₁, next₁⟩, hiterate, h⟩ := bind_eq_ok.mp h
    have hmove := tx_move (TxStep.copy hcopying hiterate) trivial
    cases next₁ with
    | none =>
      cases h
      exact ⟨_, hmove⟩
    | some next₁ =>
      obtain ⟨moves, run⟩ := ih (s := { s with
        tx := { s.tx with
          buffer := buffer₁, position := .copying () descStart next₁ written₁ } }) h rfl
      exact ⟨_, hmove.append run⟩

def Side.returned {α : Type} (s : Side α) (r : Result) : Side α :=
  { s with
    queue := r.queue
    buffer := r.buffer
    position := .idle
    used := r.used.elim s.used fun used => s.used ++ [used.1] }

theorem updateRx_run {polled : Bool} {packet : Option (List UInt8)}
    (hidle : s.rx.position = .idle) (hpacket : (packet.getD []).length ≤ bufferLen)
    (h : updateRx fuel s.rx.queue irq s.rx.buffer s.guest polled packet = .ok r) :
    ∃ moves, Run (guarded Step fun _ e => e.ofRx) s moves
      { s with guest := r.guest, rx := s.rx.returned r } := by
  unfold updateRx at h
  obtain ⟨⟨taken, q⟩, hnext, h⟩ := bind_eq_ok.mp h
  have hmove := rx_move (RxStep.next hidle hnext) trivial
  cases taken with
  | none =>
    cases h
    exact ⟨_, hmove⟩
  | some head =>
    dsimp only at h
    split at h
    · cases h
      exact ⟨_, hmove.append (rx_move (RxStep.timeout rfl) trivial)⟩
    · obtain ⟨id, hid, h⟩ := bind_eq_ok.mp h
      obtain ⟨⟨g₁, len⟩, hloop, h⟩ := bind_eq_ok.mp h
      obtain ⟨⟨idx, g₂⟩, hadd, h⟩ := bind_eq_ok.mp h
      cases h
      have hfilled := hmove.append (rx_move (RxStep.receive rfl packet hpacket) trivial)
      have hcopying := hfilled.append (rx_move (RxStep.availId rfl hid) trivial)
      obtain ⟨moves, hcopied⟩ := rxLoop_run (s := { s with
        rx := { s.rx with
          queue := q
          buffer := staging s.rx.buffer packet
          position := .copying (sizeOf packet) id.toUInt32 head 0 } }) hloop rfl
      have hdone := hcopied.append (rx_move (RxStep.addUsed rfl hadd) trivial)
      exact ⟨_, hcopying.append hdone⟩

theorem updateTx_run {tapWrite : List UInt8 → Int} (hidle : s.tx.position = .idle)
    (h : updateTx fuel s.tx.queue irq s.tx.buffer s.guest tapWrite = .ok r) :
    ∃ moves, Run (guarded Step fun _ e => e.ofTx) s moves
      { s with guest := r.guest, tx := s.tx.returned r } := by
  unfold updateTx at h
  obtain ⟨⟨taken, q⟩, hnext, h⟩ := bind_eq_ok.mp h
  have hmove := tx_move (TxStep.next hidle hnext) trivial
  cases taken with
  | none =>
    cases h
    exact ⟨_, hmove⟩
  | some head =>
    obtain ⟨id, hid, h⟩ := bind_eq_ok.mp h
    obtain ⟨⟨frame, written⟩, hloop, h⟩ := bind_eq_ok.mp h
    obtain ⟨⟨idx, g₁⟩, hadd, h⟩ := bind_eq_ok.mp h
    cases h
    have hcopying := hmove.append (tx_move (TxStep.availId rfl hid) trivial)
    obtain ⟨moves, hgathered⟩ := txLoop_run (s := { s with
      tx := { s.tx with queue := q, position := .copying () id.toUInt32 head 0 } }) hloop rfl
    have hcopied := hgathered.append (tx_move
      (TxStep.write rfl (tapWrite (frame.take written.toNat))) trivial)
    have hdone := hcopied.append (tx_move (TxStep.addUsed rfl hadd) trivial)
    exact ⟨_, hcopying.append hdone⟩

end Call

end Kthxvm.Virtio.Net
