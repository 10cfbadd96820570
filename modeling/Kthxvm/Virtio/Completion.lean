import Kthxvm.Lib.Transition
import Kthxvm.Virtio.Mmio

/-! Completions of the net and rng devices. Device threads repeat `add_used`
and `set_level(true)` on one shared interrupt; the driver answers each signal
of the eventfd with one run of its handler. -/
namespace Kthxvm.Virtio.Completion

open Lib.ByteMemory Lib.Transition

inductive Position where
  | idle
  /-- about to read `INTERRUPT_STATUS` -/
  | entered
  /-- the status was not zero; about to write `INTERRUPT_ACK` -/
  | acking
  /-- about to scan the used rings in `rest` -/
  | scanning (rest : List UInt32)
deriving DecidableEq

structure State (t : DeviceType) (Thread : Type) where
  dev : Device t
  guest : Guest
  /-- between its `add_used` and its `set_level(true)` -/
  completing : Thread → Bool
  driver : Position
  /-- how many signals of the eventfd have led to a run of the handler -/
  handled : Nat
  /-- entries put on each used ring, and how many of them the driver has scanned -/
  added : UInt32 → Nat
  scanned : UInt32 → Nat

inductive Action (Thread : Type) where
  | addUsed (thread : Thread) (ring id len : UInt32)
  | setLevel (thread : Thread)
  | enter
  | readStatus (value : UInt32)
  | ack
  | scan (ring : UInt32)
  | finish

def rings (t : DeviceType) : List UInt32 := (List.range t.queueCount).map UInt32.ofNat

variable {t : DeviceType} {Thread : Type}

section Steps

variable [DecidableEq Thread]

namespace State

def afterAddUsed (s : State t Thread) (thread : Thread) (ring : UInt32) (g : Guest) :
    State t Thread :=
  { s with
    guest := g
    completing := Function.update s.completing thread true
    added := Function.update s.added ring (s.added ring + 1) }

def afterSetLevel (s : State t Thread) (thread : Thread) : State t Thread :=
  { s with
    dev := { s.dev with irq := s.dev.irq.setLevel true }
    completing := Function.update s.completing thread false }

def afterScan (s : State t Thread) (ring : UInt32) (rest : List UInt32) : State t Thread :=
  { s with
    driver := .scanning (rest.erase ring)
    scanned := Function.update s.scanned ring (s.added ring) }

end State

/-- The registers are read and written four bytes wide. -/
inductive Step : State t Thread → Action Thread → State t Thread → Prop where
  | addUsed {s : State t Thread} {thread : Thread} {ring id len : UInt32} {q : Queue}
      {idx : UInt16} {g : Guest} (hthread : s.completing thread = false)
      (hq : s.dev.q ring = .ok q) (h : q.addUsed s.guest id len = .ok (idx, g)) :
      Step s (.addUsed thread ring id len) (s.afterAddUsed thread ring g)
  | setLevel {s : State t Thread} {thread : Thread} (hthread : s.completing thread = true) :
      Step s (.setLevel thread) (s.afterSetLevel thread)
  -- one run may answer several signals
  | enter {s : State t Thread} {n : Nat} (hidle : s.driver = .idle) (hlt : s.handled < n)
      (hle : n ≤ s.dev.irq.fd) : Step s .enter { s with driver := .entered, handled := n }
  | readStatus {s : State t Thread} {bytes : List UInt8} {value : UInt32}
      (hdriver : s.driver = .entered) (hread : s.dev.mmioRead 0x60 4 = .ok bytes)
      (hvalue : Device.getWord bytes = .ok value) :
      Step s (.readStatus value) { s with driver := if value = 0 then .idle else .acking }
  | ack {s : State t Thread} {dev : Device t} (hdriver : s.driver = .acking)
      (hwrite : s.dev.mmioWrite (bytesOfNat 4 1) 0x64 4 = .ok dev) :
      Step s .ack { s with dev := dev, driver := .scanning (rings t) }
  | scan {s : State t Thread} {ring : UInt32} {rest : List UInt32}
      (hdriver : s.driver = .scanning rest) (hring : ring ∈ rest) :
      Step s (.scan ring) (s.afterScan ring rest)
  | finish {s : State t Thread} (hdriver : s.driver = .scanning []) :
      Step s .finish { s with driver := .idle }

end Steps

def initial (dev : Device t) (guest : Guest) : State t Thread where
  dev := { dev with irq := { number := dev.irq.number } }
  guest := guest
  completing := fun _ => false
  driver := .idle
  handled := 0
  added := fun _ => 0
  scanned := fun _ => 0

def Pending (s : State t Thread) : Prop := s.handled < s.dev.irq.fd

/-- The handler is running, will not return early and has the ring before it. -/
def WillScan (s : State t Thread) (ring : UInt32) : Prop :=
  match s.driver with
  | .idle => False
  | .entered => s.dev.irqLevel = true
  | .acking => True
  | .scanning rest => ring ∈ rest

/-- A high line has a run of the handler before it, and whatever is not scanned
has a high line, a handler on its way or a thread about to raise the line. -/
structure Inv (s : State t Thread) : Prop where
  handled : s.handled ≤ s.dev.irq.fd
  line : s.dev.irq.state = true → Pending s ∨ s.driver = .entered ∨ s.driver = .acking
  counted : ∀ ring, s.added ring ≠ 0 → ring ∈ rings t
  covered : ∀ ring, s.scanned ring < s.added ring →
    s.dev.irq.state = true ∨ (∃ thread, s.completing thread = true) ∨
      s.driver = .acking ∨ ∃ rest, s.driver = .scanning rest ∧ ring ∈ rest

/-- An entry that is not scanned has a signal, a handler or a device thread before it. -/
theorem Inv.not_lost {s : State t Thread} (hs : Inv s) {ring : UInt32}
    (hring : s.scanned ring < s.added ring) :
    Pending s ∨ WillScan s ring ∨ ∃ thread, s.completing thread = true := by
  rcases hs.covered ring hring with hstate | hthread | hacking | ⟨rest, hdriver, hmem⟩
  · rcases hs.line hstate with hpending | hentered | hacking
    · exact Or.inl hpending
    · right; left
      unfold WillScan
      rw [hentered]
      exact hstate
    · right; left
      unfold WillScan
      rw [hacking]
      exact trivial
  · exact Or.inr (Or.inr hthread)
  · right; left
    unfold WillScan
    rw [hacking]
    exact trivial
  · right; left
    unfold WillScan
    rw [hdriver]
    exact hmem

theorem mem_rings {d : Device t} {ring : UInt32} {q : Queue} (h : d.q ring = .ok q) :
    ring ∈ rings t := by
  obtain ⟨hlt, -⟩ := Device.q_eq_ok h
  refine List.mem_map.mpr ⟨ring.toNat, List.mem_range.mpr hlt, ?_⟩
  exact UInt32.ofNat_toNat

theorem readStatus_zero {d : Device t} {bytes : List UInt8} {value : UInt32}
    (hread : d.mmioRead 0x60 4 = .ok bytes) (hvalue : Device.getWord bytes = .ok value) :
    value = 0 ↔ d.irq.state = false := by
  have hword : d.mmioRead 0x60 4 = Device.putWord 4 (Device.ofBool d.irq.state) := rfl
  rw [hword] at hread
  cases hstate : d.irq.state
  · rw [hstate] at hread
    cases hread
    cases hvalue
    decide
  · rw [hstate] at hread
    cases hread
    cases hvalue
    decide

theorem ack_eq {d d' : Device t} (h : d.mmioWrite (bytesOfNat 4 1) 0x64 4 = .ok d') :
    d' = { d with irq := d.irq.setLevel false } := by
  cases h
  rfl

theorem inv_initial (dev : Device t) (guest : Guest) :
    Inv (initial dev guest : State t Thread) where
  handled := le_rfl
  line := fun h => by contradiction
  counted := fun ring h => absurd rfl h
  covered := fun ring h => absurd h (lt_irrefl 0)

/-- Past the acknowledgement a high line is the next run's. -/
theorem Inv.pending_of_scanning {s : State t Thread} (hs : Inv s) {rest : List UInt32}
    (hdriver : s.driver = .scanning rest) (hstate : s.dev.irq.state = true) : Pending s := by
  rcases hs.line hstate with h | h | h
  · exact h
  · rw [hdriver] at h
    contradiction
  · rw [hdriver] at h
    contradiction

/-- Without a handler past its first register, the line or a thread answers for a ring. -/
theorem Inv.covered_by_line {s : State t Thread} (hs : Inv s) (hacking : s.driver ≠ .acking)
    (hscanning : ∀ rest, s.driver ≠ .scanning rest) {ring : UInt32}
    (hring : s.scanned ring < s.added ring) :
    s.dev.irq.state = true ∨ ∃ thread, s.completing thread = true := by
  rcases hs.covered ring hring with h | h | h | ⟨rest, h, -⟩
  · exact Or.inl h
  · exact Or.inr h
  · exact absurd h hacking
  · exact absurd h (hscanning rest)

theorem inv_enter {s : State t Thread} (hs : Inv s) (hidle : s.driver = .idle) {n : Nat}
    (hle : n ≤ s.dev.irq.fd) : Inv { s with driver := .entered, handled := n } where
  handled := hle
  line := fun _ => Or.inr (Or.inl rfl)
  counted := hs.counted
  covered := by
    intro ring hring
    rcases hs.covered_by_line (by simp [hidle]) (by simp [hidle]) hring with h | h
    · exact Or.inl h
    · exact Or.inr (Or.inl h)

theorem inv_readStatus {s : State t Thread} (hs : Inv s) (hdriver : s.driver = .entered)
    {value : UInt32} (hvalue : value = 0 ↔ s.dev.irq.state = false) :
    Inv { s with driver := if value = 0 then .idle else .acking } where
  handled := hs.handled
  line := by
    intro hstate
    have hne : value ≠ 0 := by
      rw [Ne, hvalue, Bool.not_eq_false]
      exact hstate
    exact Or.inr (Or.inr (if_neg hne))
  counted := hs.counted
  covered := by
    intro ring hring
    rcases hs.covered_by_line (by simp [hdriver]) (by simp [hdriver]) hring with h | h
    · exact Or.inl h
    · exact Or.inr (Or.inl h)

theorem inv_ack {s : State t Thread} (hs : Inv s) :
    Inv { s with
      dev := { s.dev with irq := s.dev.irq.setLevel false }
      driver := .scanning (rings t) } where
  handled := by
    change s.handled ≤ (s.dev.irq.setLevel false).fd
    rw [Interrupt.setLevel_low_fd]
    exact hs.handled
  line := by
    intro hstate
    change (s.dev.irq.setLevel false).state = true at hstate
    rw [Interrupt.setLevel_state] at hstate
    contradiction
  counted := hs.counted
  covered := by
    intro ring hring
    have hne : s.added ring ≠ 0 := by
      intro h
      rw [h] at hring
      omega
    exact Or.inr (Or.inr (Or.inr ⟨rings t, rfl, hs.counted ring hne⟩))

theorem inv_scan {s : State t Thread} (hs : Inv s) {rest : List UInt32}
    (hdriver : s.driver = .scanning rest) (ring : UInt32) : Inv (s.afterScan ring rest) where
  handled := hs.handled
  line := fun hstate => Or.inl (hs.pending_of_scanning hdriver hstate)
  counted := hs.counted
  covered := by
    intro r hr
    have hne : r ≠ ring := by
      rintro rfl
      simp [State.afterScan] at hr
    have hold : s.scanned r < s.added r := by simpa [State.afterScan, hne] using hr
    rcases hs.covered r hold with h | h | h | ⟨rest', h, hmem⟩
    · exact Or.inl h
    · exact Or.inr (Or.inl h)
    · rw [hdriver] at h
      contradiction
    · rw [hdriver] at h
      cases h
      exact Or.inr (Or.inr (Or.inr ⟨_, rfl, (List.mem_erase_of_ne hne).mpr hmem⟩))

theorem inv_finish {s : State t Thread} (hs : Inv s) (hdriver : s.driver = .scanning []) :
    Inv { s with driver := .idle } where
  handled := hs.handled
  line := fun hstate => Or.inl (hs.pending_of_scanning hdriver hstate)
  counted := hs.counted
  covered := by
    intro ring hring
    rcases hs.covered ring hring with h | h | h | ⟨rest, h, hmem⟩
    · exact Or.inl h
    · exact Or.inr (Or.inl h)
    · rw [hdriver] at h
      contradiction
    · rw [hdriver] at h
      cases h
      contradiction

section Threads

variable [DecidableEq Thread]

theorem inv_addUsed {s : State t Thread} (hs : Inv s) (thread : Thread) {ring : UInt32}
    {q : Queue} (hq : s.dev.q ring = .ok q) (g : Guest) :
    Inv (s.afterAddUsed thread ring g) where
  handled := hs.handled
  line := hs.line
  counted := by
    intro r hr
    by_cases h : r = ring
    · rw [h]
      exact mem_rings hq
    · apply hs.counted
      simpa [State.afterAddUsed, h] using hr
  covered := fun _ _ => Or.inr (Or.inl ⟨thread, Function.update_self _ _ _⟩)

/-- Whether the line was low, so that the request signals, or high already. -/
theorem inv_setLevel {s : State t Thread} (hs : Inv s) (thread : Thread) :
    Inv (s.afterSetLevel thread) where
  handled := by
    have hle := hs.handled
    change s.handled ≤ (s.dev.irq.setLevel true).fd
    cases hstate : s.dev.irq.state
    · rw [Interrupt.setLevel_high_fd_of_low hstate]
      omega
    · rwa [Interrupt.setLevel_high_of_high hstate]
  line := by
    intro _
    have hle := hs.handled
    cases hstate : s.dev.irq.state
    · left
      change s.handled < (s.dev.irq.setLevel true).fd
      rw [Interrupt.setLevel_high_fd_of_low hstate]
      omega
    · have hsame : (s.afterSetLevel thread).dev = s.dev := by
        unfold State.afterSetLevel
        rw [Interrupt.setLevel_high_of_high hstate]
      unfold Pending
      rw [hsame]
      exact hs.line hstate
  counted := hs.counted
  covered := fun _ _ => Or.inl (Interrupt.setLevel_state _ _)

theorem inv_step {s s' : State t Thread} {l : Action Thread} (hs : Inv s)
    (hstep : Step s l s') : Inv s' := by
  cases hstep with
  | addUsed _ hq _ => exact inv_addUsed hs _ hq _
  | setLevel _ => exact inv_setLevel hs _
  | enter hidle _ hle => exact inv_enter hs hidle hle
  | readStatus hdriver hread hvalue =>
    exact inv_readStatus hs hdriver (readStatus_zero hread hvalue)
  | ack _ hwrite =>
    rw [ack_eq hwrite]
    exact inv_ack hs
  | scan hdriver _ => exact inv_scan hs hdriver _
  | finish hdriver => exact inv_finish hs hdriver

/-! The ghost counters count what the memory of the rings says. -/

structure Separate (dev : Device t) (g : Guest) : Prop where
  placed : ∀ ring q, dev.q ring = .ok q → q.Placed g
  apart : ∀ ring ring' q q', ring ≠ ring' → dev.q ring = .ok q → dev.q ring' = .ok q' →
    q.usedSpan.Apart q'.usedSpan

/-- The index of every used ring has moved by the number of entries added. -/
def Tallied (dev : Device t) (guest : Guest) (s : State t Thread) : Prop :=
  s.dev.queues = dev.queues ∧ s.guest.size = guest.size ∧
    ∀ ring q, dev.q ring = .ok q → load16 s.guest.bytes q.usedIdxAddr =
      load16 guest.bytes q.usedIdxAddr + UInt16.ofNat (s.added ring)

theorem tallied_addUsed {dev : Device t} {guest : Guest} {s : State t Thread}
    (hsep : Separate dev guest) (hs : Tallied dev guest s) (thread : Thread)
    {ring id len : UInt32} {q : Queue} {idx : UInt16} {g : Guest}
    (hq : dev.q ring = .ok q) (h : q.addUsed s.guest id len = .ok (idx, g)) :
    Tallied dev guest (s.afterAddUsed thread ring g) := by
  obtain ⟨hqueues, hsize, hidx⟩ := hs
  have hp : q.Placed s.guest := (hsep.placed ring q hq).congr rfl rfl rfl rfl hsize
  rw [Queue.addUsed_ok hp] at h
  cases h
  refine ⟨hqueues, hsize, ?_⟩
  intro r q' hq'
  change load16 (q.afterAddUsed s.guest.bytes id len) q'.usedIdxAddr =
    load16 guest.bytes q'.usedIdxAddr +
      UInt16.ofNat (Function.update s.added ring (s.added ring + 1) r)
  by_cases hr : r = ring
  · subst hr
    rw [hq] at hq'
    cases hq'
    rw [Queue.afterAddUsed_idx, hidx r q hq, Function.update_self, UInt16.ofNat_add,
      UInt16.add_assoc]
    rfl
  · have hp' := hsep.placed r q' hq'
    have hapart : Span.Apart ⟨q'.usedIdxAddr, 2⟩ q.usedSpan :=
      (hsep.apart r ring q' q hr hq' hq).mono (Queue.usedIdx_within hp'.size_pos)
        (Span.Within.refl _)
    have hkeep := Queue.afterAddUsed_agree hp.size_pos hp.size_le hapart s.guest.bytes id len
    rw [← hkeep.load16_eq, hidx r q' hq', Function.update_of_ne hr]

theorem added_eq_idx {dev : Device t} {guest : Guest} {s : State t Thread}
    {moves : List (Move (State t Thread) (Action Thread))}
    (hsep : Separate dev guest) (run : Run Step (initial dev guest) moves s)
    {ring : UInt32} {q : Queue} (hq : dev.q ring = .ok q) :
    load16 s.guest.bytes q.usedIdxAddr =
      load16 guest.bytes q.usedIdxAddr + UInt16.ofNat (s.added ring) := by
  have hinitial : Tallied dev guest (initial dev guest : State t Thread) :=
    ⟨rfl, rfl, fun _ _ _ => (UInt16.add_zero _).symm⟩
  refine (run.invariant hinitial ?_).2.2 ring q hq
  intro s l s' hs hstep
  cases hstep with
  | addUsed _ hq h =>
    rw [Device.q_congr hs.1] at hq
    exact tallied_addUsed hsep hs _ hq h
  | ack _ hwrite =>
    rw [ack_eq hwrite]
    exact hs
  | setLevel | enter | readStatus | scan | finish => exact hs

/-- No completion is lost, in any reachable state; what is added is what the indices of the used
rings in guest memory count. -/
theorem no_lost_completion {dev : Device t} {guest : Guest} {s : State t Thread}
    {moves : List (Move (State t Thread) (Action Thread))}
    (run : Run Step (initial dev guest) moves s) :
    (∀ ring, s.scanned ring < s.added ring →
      Pending s ∨ WillScan s ring ∨ ∃ thread, s.completing thread = true) ∧
    (Separate dev guest → ∀ ring q, dev.q ring = .ok q → load16 s.guest.bytes q.usedIdxAddr =
      load16 guest.bytes q.usedIdxAddr + UInt16.ofNat (s.added ring)) := by
  have hs : Inv s := run.invariant (inv_initial dev guest) fun _ _ _ => inv_step
  exact ⟨fun ring hring => hs.not_lost hring, fun hsep ring q hq => added_eq_idx hsep run hq⟩

def sampleEntropy : Device rngType :=
  { irq := { number := 5 }, queues := Vector.replicate _ sampleQueue, config := [] }

theorem sampleEntropy_q {ring : UInt32} {q : Queue} (h : sampleEntropy.q ring = .ok q) :
    ring = 0 ∧ q = sampleQueue := by
  obtain ⟨hlt, hq⟩ := Device.q_eq_ok h
  exact ⟨UInt32.toNat_inj.mp (Nat.lt_one_iff.mp hlt), hq.trans (Vector.getElem_replicate _)⟩

theorem sampleEntropy_separate : Separate sampleEntropy ⟨fun _ => 0, 0x8000⟩ where
  placed := by
    intro ring q hq
    rw [(sampleEntropy_q hq).2]
    exact sampleQueue_placed le_rfl
  apart := by
    intro ring ring' q q' hne hq hq'
    exact absurd ((sampleEntropy_q hq).1.trans (sampleEntropy_q hq').1.symm) hne

/-- One buffer is completed and signalled, and the handler has read the status. -/
theorem sample_completion : ∃ (s : State rngType Unit) (moves : List (Move _ (Action Unit))),
    Run Step (initial sampleEntropy ⟨fun _ => 0, 0x8000⟩) moves s ∧ s.driver = .acking ∧
    s.scanned 0 < s.added 0 ∧
    (Pending s ∨ WillScan s 0 ∨ ∃ thread, s.completing thread = true) ∧
    load16 s.guest.bytes sampleQueue.usedIdxAddr = 1 := by
  have hused := Queue.addUsed_ok (sampleQueue_placed (g := ⟨fun _ => 0, 0x8000⟩) le_rfl) 0 4
  have hadded : Step (initial sampleEntropy ⟨fun _ => 0, 0x8000⟩ : State rngType Unit)
      (.addUsed () 0 0 4) _ := Step.addUsed rfl rfl hused
  have run := Run.one hadded
  have run := run.snoc (@Step.setLevel rngType Unit _ _ () rfl)
  have run := run.snoc (Step.enter (n := 1) rfl (by decide) (by decide))
  have run := run.snoc (@Step.readStatus rngType Unit _ _ [1, 0, 0, 0] 1 rfl rfl rfl)
  obtain ⟨hpending, hidx⟩ := no_lost_completion run
  exact ⟨_, _, run, rfl, Nat.one_pos, hpending 0 Nat.one_pos,
    hidx sampleEntropy_separate 0 sampleQueue rfl⟩

end Threads

end Kthxvm.Virtio.Completion
