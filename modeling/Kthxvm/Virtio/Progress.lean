import Kthxvm.Virtio.NetProgress
import Kthxvm.Virtio.SharedMemory

/-! No device starves: what is published comes back after a bounded number of moves of the thread
that has to do it, whatever the others do in between. -/
namespace Kthxvm.Virtio

open Lib.ByteMemory Lib.Transition

namespace Net

variable {taboo : List Span} {g g' : Guest} {act : Act}

theorem RxStep.not_gathered {s s' : Side Int} (hs : RxStep taboo s g act s' g')
    (h : ∀ descStart written, s.position ≠ .gathered descStart written) :
    ∀ descStart written, s'.position ≠ .gathered descStart written := by
  cases hs with
  | publish => exact h
  | @next taken =>
    intro descStart written heq
    cases taken with
    | none => exact nomatch heq
    | some next => exact nomatch heq
  | @copy _ _ _ _ _ next' =>
    intro descStart written heq
    cases next' with
    | none => exact nomatch heq
    | some next => exact nomatch heq
  | timeout | receive | availId | addUsed =>
    intro descStart written heq
    exact nomatch heq

theorem TxStep.not_taken {s s' : Side Unit} (hs : TxStep taboo s g act s' g')
    (h : ∀ next, s.position ≠ .taken next) : ∀ next, s'.position ≠ .taken next := by
  cases hs with
  | publish => exact h
  | @next taken =>
    intro descStart heq
    cases taken with
    | none => exact nomatch heq
    | some next => exact nomatch heq
  | @copy _ _ _ _ next' =>
    intro descStart heq
    cases next' with
    | none => exact nomatch heq
    | some next => exact nomatch heq
  | availId | write | addUsed =>
    intro descStart heq
    exact nomatch heq

theorem TxStep.lost {s s' : Side Unit} (hs : TxStep taboo s g act s' g') : act.lost = 0 := by
  cases hs with
  | _ => rfl

theorem RxStep.used_le {s s' : Side Int} (hs : RxStep taboo s g act s' g') :
    s.used.length ≤ s'.used.length := by
  cases hs with
  | addUsed => exact (List.prefix_append _ _).length_le
  | _ => exact le_refl _

theorem TxStep.used_le {s s' : Side Unit} (hs : TxStep taboo s g act s' g') :
    s.used.length ≤ s'.used.length := by
  cases hs with
  | addUsed => exact (List.prefix_append _ _).length_le
  | _ => exact le_refl _

end Net

namespace SharedMemory

namespace Event

def rxTurn : Event → Nat
  | .rx act => act.turn
  | _ => 0

def rxLost : Event → Nat
  | .rx act => act.lost
  | _ => 0

def txTurn : Event → Nat
  | .tx act => act.turn
  | _ => 0

def blkTurn : Event → Nat
  | .blk (.round _) => 1
  | _ => 0

def byRx : Event → Prop
  | .rx act => act.ofDevice
  | _ => False

def byTx : Event → Prop
  | .tx act => act.ofDevice
  | _ => False

end Event

def State.mover (s : State) : Event → List Span
  | .memory _ => []
  | .rx _ => Net.rings s.rx.queue
  | .tx _ => Net.rings s.tx.queue
  | .blk _ => Net.rings s.blk.queue
  | .rng _ => Net.rings s.rng.queue

section Moves

variable {fuel size : Nat} {image : List UInt8} {s s' : State} {e : Event}
  (hfuel : queueSizeMax.toNat ≤ fuel) (hsize : size < 2 ^ 63)
  (h : Inv size image s) (hs : Step fuel size s e s')

include hfuel hsize h hs

theorem Inv.frame (hdevice : ∀ bytes, e ≠ .memory bytes) {ring : Span} (hring : ring ∈ s.rings)
    (hoff : ∀ mine ∈ s.mover e, ring.Apart mine) :
    s'.guest.size = s.guest.size ∧ AgreeOn ring s.guest.bytes s'.guest.bytes := by
  cases hs with
  | memory => exact absurd rfl (hdevice _)
  | rx hs =>
    obtain ⟨-, havail, hused⟩ := mem_rings s.rx.queue
    have hfollows := hs.follows h.rx
    exact ⟨hfollows.size, hfollows.frame ring (List.mem_append_left _ hring)
      (hoff _ havail) (hoff _ hused)⟩
  | tx hs =>
    obtain ⟨-, havail, hused⟩ := mem_rings s.tx.queue
    have hfollows := hs.follows h.tx
    exact ⟨hfollows.size, hfollows.frame ring (List.mem_append_left _ hring)
      (hoff _ havail) (hoff _ hused)⟩
  | blk hs =>
    obtain ⟨-, havail, hused⟩ := mem_rings s.blk.queue
    have hfollows := hs.follows h.blk hfuel hsize
    exact ⟨hfollows.size, hfollows.frame ring (hoff _ havail) (hoff _ hused)
      fun buffer hbuffer => h.blk.off_rings buffer hbuffer ring hring⟩
  | rng hs hdriver hfills =>
    obtain ⟨-, -, hused⟩ := mem_rings s.rng.queue
    have hfollows := rng_follows hs h.rng hdriver hfills
    exact ⟨hfollows.size, hfollows.frame ring (List.mem_append_left _ hring) (hoff _ hused)⟩

theorem Inv.side_kept {α : Type} {taboo : List Span} {side : Net.Side α}
    (hside : side.Inv taboo s.guest) (hdevice : ∀ bytes, e ≠ .memory bytes)
    (hmem : ∀ ring ∈ Net.rings side.queue, ring ∈ s.rings)
    (hoff : ∀ ring ∈ Net.rings side.queue, ∀ mine ∈ s.mover e, ring.Apart mine) :
    s'.guest.size = s.guest.size ∧ side.Keeps s.guest.bytes s'.guest.bytes := by
  have hframe : ∀ ring ∈ Net.rings side.queue,
      s'.guest.size = s.guest.size ∧ AgreeOn ring s.guest.bytes s'.guest.bytes :=
    fun ring hring => h.frame hfuel hsize hs hdevice (hmem ring hring) (hoff ring hring)
  exact ⟨(hframe _ List.mem_cons_self).1,
    hside.keeps_of_agree fun ring hring => (hframe ring hring).2⟩

theorem Inv.rx_kept (hother : ∀ act, e ≠ .rx act) : s'.rx = s.rx ∧
    s'.guest.size = s.guest.size ∧ s.rx.Keeps s.guest.bytes s'.guest.bytes := by
  have hcrossed := crossed h.apart
  have hdevice := h.side_kept hfuel hsize hs h.rx
  cases hs with
  | memory hrx => exact ⟨rfl, rfl, hrx⟩
  | rx => exact absurd rfl (hother _)
  | tx => exact ⟨rfl, hdevice (fun _ heq => nomatch heq) mem_rx hcrossed.rx_tx⟩
  | blk => exact ⟨rfl, hdevice (fun _ heq => nomatch heq) mem_rx hcrossed.rx_blk⟩
  | rng => exact ⟨rfl, hdevice (fun _ heq => nomatch heq) mem_rx hcrossed.rx_rng⟩

theorem Inv.tx_kept (hother : ∀ act, e ≠ .tx act) : s'.tx = s.tx ∧
    s'.guest.size = s.guest.size ∧ s.tx.Keeps s.guest.bytes s'.guest.bytes := by
  have hcrossed := crossed h.apart
  have hdevice := h.side_kept hfuel hsize hs h.tx
  cases hs with
  | memory _ htx => exact ⟨rfl, rfl, htx⟩
  | tx => exact absurd rfl (hother _)
  | rx => exact ⟨rfl, hdevice (fun _ heq => nomatch heq) mem_tx
      fun ring hring mine hmine => (hcrossed.rx_tx mine hmine ring hring).symm⟩
  | blk => exact ⟨rfl, hdevice (fun _ heq => nomatch heq) mem_tx hcrossed.tx_blk⟩
  | rng => exact ⟨rfl, hdevice (fun _ heq => nomatch heq) mem_tx hcrossed.tx_rng⟩

theorem Inv.rx_behind {goal n : Nat} (hbehind : s.rx.Behind s.guest goal n) :
    goal ≤ s'.rx.used.length ∨
      ∃ n', s'.rx.Behind s'.guest goal n' ∧ n' + e.rxTurn ≤ n + e.rxLost := by
  by_cases hrx : ∃ act, e = .rx act
  · obtain ⟨act, rfl⟩ := hrx
    cases hs with
    | rx hs => exact hs.behind h.rx hbehind
  · obtain ⟨hside, hguest, hkeeps⟩ := h.rx_kept hfuel hsize hs fun act heq => hrx ⟨act, heq⟩
    have hkept := h.rx.behind_keep hkeeps hbehind
    right
    refine ⟨n, ?_, ?_⟩
    · rw [hside]
      rwa [← hguest] at hkept
    · cases e with
      | rx act => exact absurd ⟨act, rfl⟩ hrx
      | memory | tx | blk | rng => exact le_refl n

theorem Inv.tx_behind {goal n : Nat} (hbehind : s.tx.Behind s.guest goal n) :
    goal ≤ s'.tx.used.length ∨
      ∃ n', s'.tx.Behind s'.guest goal n' ∧ n' + e.txTurn ≤ n := by
  by_cases htx : ∃ act, e = .tx act
  · obtain ⟨act, rfl⟩ := htx
    cases hs with
    | tx hs =>
      have hnearer := hs.behind h.tx hbehind
      rwa [hs.lost] at hnearer
  · obtain ⟨hside, hguest, hkeeps⟩ := h.tx_kept hfuel hsize hs fun act heq => htx ⟨act, heq⟩
    have hkept := h.tx.behind_keep hkeeps hbehind
    right
    refine ⟨n, ?_, ?_⟩
    · rw [hside]
      rwa [← hguest] at hkept
    · cases e with
      | tx act => exact absurd ⟨act, rfl⟩ htx
      | memory | rx | blk | rng => exact le_refl n

theorem Inv.blk_taken (goal : Nat) (hgoal : goal ≤ s.blk.orders.length)
    (hmissing : s.blk.taken < goal) : s.blk.taken + e.blkTurn ≤ s'.blk.taken := by
  cases hs with
  | memory | rx | tx | rng => exact le_refl _
  | blk hs =>
    cases hs with
    | publish | register => exact le_refl _
    | @round o b q g' hround =>
      have hfirst := List.getElem?_eq_getElem (hmissing.trans_le hgoal)
      obtain ⟨len, idx, raised, b', g', heq, -⟩ := (h.blk.exact hfuel hsize).next _ hfirst
      rw [heq] at hround
      cases hround
      exact le_refl _

end Moves

theorem Step.monotone {fuel size : Nat} {s s' : State} {e : Event} (hs : Step fuel size s e s') :
    s.rx.used.length ≤ s'.rx.used.length ∧ s.tx.used.length ≤ s'.tx.used.length ∧
      s.blk.taken ≤ s'.blk.taken ∧ s.blk.orders.length ≤ s'.blk.orders.length := by
  cases hs with
  | memory | rng => exact ⟨le_refl _, le_refl _, le_refl _, le_refl _⟩
  | rx hs => exact ⟨hs.used_le, le_refl _, le_refl _, le_refl _⟩
  | tx hs => exact ⟨le_refl _, hs.used_le, le_refl _, le_refl _⟩
  | blk hs =>
    refine ⟨le_refl _, le_refl _, ?_⟩
    cases hs with
    | publish => exact ⟨le_refl _, (List.prefix_append _ _).length_le⟩
    | register => exact ⟨le_refl _, le_refl _⟩
    | round => exact ⟨Nat.le_add_right _ _, le_refl _⟩

structure Running (size : Nat) (image : List UInt8) (s : State) : Prop where
  inv : Inv size image s
  rx : ∀ descStart written, s.rx.position ≠ .gathered descStart written
  tx : ∀ next, s.tx.position ≠ .taken next

section Run

variable {fuel : Nat} {start s s' : State} {before moves : List (Move State Event)}
  (hfuel : queueSizeMax.toNat ≤ fuel) (hsize : start.blk.blk.file.contents.length < 2 ^ 63)
  (h : Start start) (past : Run (Step fuel start.blk.blk.file.contents.length) start before s)

include hfuel hsize h past

theorem running : Running start.blk.blk.file.contents.length start.blk.blk.file.contents s := by
  refine past.invariant ⟨inv_start h, ?_, ?_⟩ fun s e s' hs hstep => ?_
  · rw [h.rx.idle]
    exact fun _ _ heq => nomatch heq
  · rw [h.tx.idle]
    exact fun _ heq => nomatch heq
  · refine ⟨inv_step hfuel hsize hs.inv hstep, ?_, ?_⟩
    · cases hstep with
      | rx hrx => exact hrx.not_gathered hs.rx
      | _ => exact hs.rx
    · cases hstep with
      | tx htx => exact htx.not_taken hs.tx
      | _ => exact hs.tx

theorem rx_turns (n : Nat) : ∃ own t,
    Run (guarded (Step fuel start.blk.blk.file.contents.length) fun _ e => e.byRx) s own t ∧
      total Event.rxTurn own = n ∧ total Event.rxLost own = 0 := by
  induction n with
  | zero => exact ⟨[], s, Run.nil, rfl, rfl⟩
  | succ n ih =>
    obtain ⟨own, t, run, hturn, hlost⟩ := ih
    have hrunning := running hfuel hsize h (past.append run.of_guarded.1)
    obtain ⟨act, rx, g, hact, hne, hstep⟩ := hrunning.inv.rx.rx_goes_on hrunning.rx
    obtain ⟨hone, hnone⟩ := Net.Act.turn_of_device hact hne
    have hmine : (Event.rx act).byRx := hact
    refine ⟨_, _, run.snoc ⟨hmine, Step.rx hstep⟩, ?_, ?_⟩
    · rw [total_snoc, hturn]
      exact congrArg (n + ·) hone
    · rw [total_snoc, hlost, Nat.zero_add]
      exact hnone

theorem tx_turns (n : Nat) : ∃ own t,
    Run (guarded (Step fuel start.blk.blk.file.contents.length) fun _ e => e.byTx) s own t ∧
      total Event.txTurn own = n := by
  induction n with
  | zero => exact ⟨[], s, Run.nil, rfl⟩
  | succ n ih =>
    obtain ⟨own, t, run, hturn⟩ := ih
    have hrunning := running hfuel hsize h (past.append run.of_guarded.1)
    obtain ⟨act, tx, g, hact, hne, hstep⟩ := hrunning.inv.tx.tx_goes_on hrunning.tx
    obtain ⟨hone, -⟩ := Net.Act.turn_of_device hact hne
    have hmine : (Event.tx act).byTx := hact
    refine ⟨_, _, run.snoc ⟨hmine, Step.tx hstep⟩, ?_⟩
    rw [total_snoc, hturn]
    exact congrArg (n + ·) hone

variable (run : Run (Step fuel start.blk.blk.file.contents.length) s moves s')

include run

theorem inv_between : ∀ move ∈ moves,
    Inv start.blk.blk.file.contents.length start.blk.blk.file.contents move.source :=
  run.invariant_source (running hfuel hsize h past).inv
    fun _ _ _ hs hstep => inv_step hfuel hsize hs hstep

theorem rx_reaches {goal : Nat} (hgoal : goal ≤ s.rx.published.length)
    (hturns : (goal - s.rx.used.length) * s.rx.callLength + total Event.rxLost moves ≤
      total Event.rxTurn moves) : goal ≤ s'.rx.used.length := by
  by_cases hdone : goal ≤ s.rx.used.length
  · refine run.invariant (I := fun s => goal ≤ s.rx.used.length) hdone fun _ _ _ hs hstep => ?_
    exact hs.trans hstep.monotone.1
  · obtain ⟨n, hbehind, hn⟩ := (running hfuel hsize h past).inv.rx.behind hgoal (not_le.mp hdone)
    refine run.reaches (fun s => goal ≤ s.rx.used.length) (fun s => s.rx.Behind s.guest goal)
      Event.rxTurn Event.rxLost (Or.inr hbehind) (fun move hmove hgoal => ?_)
      (fun move hmove k hk => ?_) (fun _ _ hk => hk.pos) (by omega)
    · exact hgoal.trans (run.step_of_mem move hmove).monotone.1
    · exact (inv_between hfuel hsize h past run move hmove).rx_behind hfuel hsize
        (run.step_of_mem move hmove) hk

theorem tx_reaches {goal : Nat} (hgoal : goal ≤ s.tx.published.length)
    (hturns : (goal - s.tx.used.length) * s.tx.callLength ≤ total Event.txTurn moves) :
    goal ≤ s'.tx.used.length := by
  by_cases hdone : goal ≤ s.tx.used.length
  · refine run.invariant (I := fun s => goal ≤ s.tx.used.length) hdone fun _ _ _ hs hstep => ?_
    exact hs.trans hstep.monotone.2.1
  · obtain ⟨n, hbehind, hn⟩ := (running hfuel hsize h past).inv.tx.behind hgoal (not_le.mp hdone)
    refine run.reaches (fun s => goal ≤ s.tx.used.length) (fun s => s.tx.Behind s.guest goal)
      Event.txTurn (fun _ => 0) (Or.inr hbehind) (fun move hmove hgoal => ?_)
      (fun move hmove k hk => ?_) (fun _ _ hk => hk.pos) (by rw [total_zero]; omega)
    · exact hgoal.trans (run.step_of_mem move hmove).monotone.2.1
    · exact (inv_between hfuel hsize h past run move hmove).tx_behind hfuel hsize
        (run.step_of_mem move hmove) hk

theorem blk_reaches {goal : Nat} (hgoal : goal ≤ s.blk.orders.length)
    (hturns : goal - s.blk.taken ≤ total Event.blkTurn moves) : goal ≤ s'.blk.taken := by
  by_cases hdone : goal ≤ s.blk.taken
  · refine run.invariant (I := fun s => goal ≤ s.blk.taken) hdone fun _ _ _ hs hstep => ?_
    exact hs.trans hstep.monotone.2.2.1
  · refine run.reaches (fun s => goal ≤ s.blk.taken)
      (fun s k => goal ≤ s.blk.orders.length ∧ s.blk.taken < goal ∧ k = goal - s.blk.taken)
      Event.blkTurn (fun _ => 0) (Or.inr ⟨hgoal, not_le.mp hdone, rfl⟩)
      (fun move hmove hgoal => ?_) (fun move hmove k hk => ?_) (fun _ _ hk => ?_) ?_
    · exact hgoal.trans (run.step_of_mem move hmove).monotone.2.2.1
    · obtain ⟨horders, hlt, rfl⟩ := hk
      have hstep := run.step_of_mem move hmove
      have hinv := inv_between hfuel hsize h past run move hmove
      have htaken := hinv.blk_taken hfuel hsize hstep goal horders hlt
      rcases Nat.lt_or_ge move.target.blk.taken goal with hmissing | hreached
      · exact Or.inr ⟨_, ⟨horders.trans hstep.monotone.2.2.2, hmissing, rfl⟩, by omega⟩
      · exact Or.inl hreached
    · obtain ⟨-, hlt, rfl⟩ := hk
      exact Nat.sub_pos_of_lt hlt
    · rwa [total_zero, Nat.add_zero]

end Run

/-- From every state that is reached, and whatever the others do: as many moves of the transmit
thread as make up the calls for the chains that wait, and these chains have come back; the receive
thread needs one move more for each poll that finds nothing; a round of the disk is a request
answered. Neither thread of `net` waits for another one to go on. -/
theorem no_starvation {fuel : Nat} {start s s' : State} {before moves : List (Move State Event)}
    (hfuel : queueSizeMax.toNat ≤ fuel) (hsize : start.blk.blk.file.contents.length < 2 ^ 63)
    (h : Start start) (past : Run (Step fuel start.blk.blk.file.contents.length) start before s)
    (run : Run (Step fuel start.blk.blk.file.contents.length) s moves s') :
    (∀ n, (∃ own t,
        Run (guarded (Step fuel start.blk.blk.file.contents.length) fun _ e => e.byRx) s own t ∧
          total Event.rxTurn own = n ∧ total Event.rxLost own = 0) ∧
      ∃ own t,
        Run (guarded (Step fuel start.blk.blk.file.contents.length) fun _ e => e.byTx) s own t ∧
          total Event.txTurn own = n) ∧
    (∀ goal ≤ s.rx.published.length,
      (goal - s.rx.used.length) * s.rx.callLength + total Event.rxLost moves ≤
        total Event.rxTurn moves → goal ≤ s'.rx.used.length) ∧
    (∀ goal ≤ s.tx.published.length,
      (goal - s.tx.used.length) * s.tx.callLength ≤ total Event.txTurn moves →
        goal ≤ s'.tx.used.length) ∧
    ∀ goal ≤ s.blk.orders.length,
      goal - s.blk.taken ≤ total Event.blkTurn moves → goal ≤ s'.blk.taken := by
  refine ⟨fun n => ⟨rx_turns hfuel hsize h past n, tx_turns hfuel hsize h past n⟩,
    fun goal hgoal hturns => ?_, fun goal hgoal hturns => ?_, fun goal hgoal hturns => ?_⟩
  · exact rx_reaches hfuel hsize h past run hgoal hturns
  · exact tx_reaches hfuel hsize h past run hgoal hturns
  · exact blk_reaches hfuel hsize h past run hgoal hturns

def sampleLent : State :=
  { sampleOffered with
    tx := sampleOffered.tx.afterPublish 0
    guest := sampleOffered.tx.publishIdx sampleOffered.guest }

theorem sampleLent_step : Step 512 4 sampleOffered (.tx (.publish 0)) sampleLent := by
  refine Step.tx (Net.TxStep.publish ?_)
  constructor
  case room => decide
  case few => decide
  case slot => decide
  case offered =>
    refine ⟨[⟨0x19000, 2, 0, 0⟩], ⟨by decide, by decide, by decide⟩, by decide, ?_, by decide⟩
    intro d hd ring hring
    obtain rfl := List.mem_singleton.mp hd
    have hplaces : ∀ ring ∈ sampleOffered.taboo, ring.addr.toNat + ring.len ≤ 0x19000 ∨
        (Descriptor.span ⟨0x19000, 2, 0, 0⟩).addr.toNat + 2 ≤ ring.addr.toNat ∧
          ring.addr.toNat + ring.len ≤ 2 ^ 64 := by decide
    rcases hplaces ring hring with hbelow | ⟨habove, hend⟩
    · exact Span.apart_of_le hbelow (by decide)
    · exact (Span.apart_of_le habove hend).symm

/-- A round of the disk and a few moves of each thread of `net`, and everything is back. -/
theorem sampleLent_back : ∃ moves s, Run (Step 512 4) sampleLent moves s ∧
    1 ≤ s.rx.used.length ∧ 1 ≤ s.tx.used.length ∧ 1 ≤ s.blk.taken := by
  have hstart : Inv 4 [1, 2, 3, 4] sampleState := inv_start sampleState_start
  have hordered := inv_step (by decide) (by decide) hstart sampleOrdered_step
  have hoffered := inv_step (by decide) (by decide) hordered sampleOffered_step
  have hlent := inv_step (by decide) (by decide) hoffered sampleLent_step
  have hpend : sampleLent.blk.Pending 0 sampleOrder := ⟨le_rfl, rfl⟩
  obtain ⟨len, idx, raised, hround⟩ := Blk.runOnce_eq (show queueSizeMax.toNat ≤ 512 by decide)
    (hlent.blk.takes hpend.2) ((hlent.blk.requests _ _ hpend).counter _).toProper
  have hanswered : Step 512 4 sampleLent _ _ :=
    Step.blk (Blk.Side.Step.round hround
      (Blk.selected_answer sampleLent.blk.selected _ _ _)) trivial
  have past := ((Run.one sampleOrdered_step).snoc sampleOffered_step).snoc sampleLent_step
  have round := Run.one hanswered
  obtain ⟨rxOwn, t, rxRun, hrx, hrxLost⟩ :=
    rx_turns (by decide) (by decide) sampleState_start (past.append round) 9
  have past' := (past.append round).append rxRun.of_guarded.1
  obtain ⟨txOwn, u, txRun, htx⟩ := tx_turns (by decide) (by decide) sampleState_start past' 9
  have run := (round.append rxRun.of_guarded.1).append txRun.of_guarded.1
  have hnotRx : ∀ e : Event, e.byTx → e.rxLost = 0 := by
    intro e he
    cases e with
    | rx => exact he.elim
    | memory | tx | blk | rng => rfl
  have hquiet : total Event.rxLost txOwn = 0 := total_eq_zero fun move hmove =>
    hnotRx _ (txRun.of_guarded.2 move hmove)
  obtain ⟨-, hrxBack, htxBack, hblkBack⟩ :=
    no_starvation (by decide) (by decide) sampleState_start past run
  refine ⟨_, u, run, hrxBack 1 (le_refl 1) ?_, htxBack 1 (le_refl 1) ?_, hblkBack 1 (le_refl 1) ?_⟩
  · rw [total_append, total_append, hrxLost, hquiet, total_append, total_append, hrx]
    exact Nat.le_add_right_of_le (Nat.le_add_left _ _)
  · rw [total_append, htx]
    exact Nat.le_add_left _ _
  · rw [total_append, total_append]
    exact Nat.le_add_right_of_le (Nat.le_add_right _ _)

end SharedMemory

end Kthxvm.Virtio
