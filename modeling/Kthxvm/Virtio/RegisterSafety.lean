import Kthxvm.Lib.Triple
import Kthxvm.Virtio.Blk
import Kthxvm.Virtio.DeviceMachine
import Kthxvm.Virtio.Net
import Kthxvm.Virtio.Rng

/-! Which register writes keep the subscripts of the queues and of the rings in
bounds. `write` stores whatever the guest sends; `q()`, `avail_id()` and
`add_used()` use it unchecked. -/
namespace Kthxvm.Virtio

open Lib.ByteMemory Lib.Transition Lib.Triple
open Guest (read_meets read16_meets read32_meets read64_meets write_meets
  write16_meets write32_meets)

/-- A subscript of `queues` or of a ring is out of bounds, or has no value. -/
def BadSubscript : Fault → Prop
  | .queue _ | .slot _ | .divideByZero => True
  | _ => False

abbrev InBounds {α : Type} (x : Except Fault α) (P : α → Prop) : Prop :=
  Meets (fun f => ¬ BadSubscript f) x P

theorem outside_inBounds (addr : UInt64) (n : Nat) : ¬ BadSubscript (.outside addr n) := id

namespace Queue

/-- The size is one that `% size` reduces into the rings. -/
def Usable (q : Queue) : Prop := q.size ≠ 0 ∧ q.size ≤ queueSizeMax

/-- What the register writes have to keep: a ready queue is usable. -/
def Sound (q : Queue) : Prop := q.ready = true → q.Usable

variable {q : Queue} {g : Guest}

theorem Usable.slot_lt (h : q.Usable) (index : UInt32) : index % q.size < queueSizeMax := by
  have hpos : 0 < q.size.toNat := by
    rw [Nat.pos_iff_ne_zero]
    intro hzero
    exact h.1 (UInt32.toNat_inj.mp hzero)
  have hlt := mod_size_lt hpos index
  rw [UInt32.lt_iff_toNat_lt]
  exact lt_of_lt_of_le hlt (UInt32.le_iff_toNat_le.mp h.2)

theorem Usable.slot (h : q.Usable) (index : UInt32) :
    InBounds (q.slot index) fun _ => True := by
  unfold Queue.slot
  rw [if_neg h.1, if_pos (h.slot_lt index)]
  trivial

theorem descriptor_inBounds (i : UInt16) :
    InBounds (q.descriptor g i) fun d => d = q.entry g.bytes i :=
  descriptor_meets outside_inBounds i

theorem descriptorIndex_inBounds (i : UInt16) : InBounds (descriptorIndex i) fun j => j = i :=
  descriptorIndex_meets (fun _ => id) i

theorem availId_inBounds (h : q.Usable) : InBounds (q.availId g) fun _ => True :=
  (h.slot _).bind fun _ _ => read16_meets outside_inBounds

theorem next_inBounds (h : q.Sound) :
    InBounds (q.next g) fun result =>
      result.2.Sound ∧ (result.1 ≠ none → result.2.Usable) := by
  unfold next
  split
  · exact ⟨h, fun hne => absurd rfl hne⟩
  · rename_i hready
    have husable : q.Usable := h (by simpa using hready)
    refine (read16_meets outside_inBounds).bind fun idx _ => ?_
    split
    · exact ⟨h, fun hne => absurd rfl hne⟩
    · have husable' : Usable { q with lastAvail := q.lastAvail + 1 } := husable
      refine (availId_inBounds husable').bind fun id _ => ?_
      refine (descriptorIndex_inBounds id).bind fun i _ => ?_
      exact ⟨fun _ => husable', fun _ => husable'⟩

theorem addUsed_inBounds (h : q.Usable) (start len : UInt32) :
    InBounds (q.addUsed g start len) fun _ => True := by
  unfold addUsed
  refine (read16_meets outside_inBounds).bind fun _ _ => (h.slot _).bind fun _ _ => ?_
  refine (write32_meets outside_inBounds len).bind fun _ _ => ?_
  refine (read16_meets outside_inBounds).bind fun _ _ => (h.slot _).bind fun _ _ => ?_
  refine (write32_meets outside_inBounds start).bind fun _ _ => ?_
  refine (read16_meets outside_inBounds).bind fun _ _ => ?_
  refine (write16_meets outside_inBounds _).bind fun _ _ => ?_
  exact (read16_meets outside_inBounds).bind fun _ _ => trivial

end Queue

/-! Whole calls of the device threads, with no register write in between. -/

namespace Net

variable {q : Queue} {g : Guest}

theorem rxLoop_inBounds (buffer : List UInt8) (size : Int) (fuel : Nat) (i : UInt16)
    (len : UInt32) : InBounds (rxLoop q buffer size fuel g i len) fun _ => True := by
  induction fuel generalizing g i len with
  | zero => exact id
  | succ fuel ih =>
    unfold rxLoop
    refine (Queue.descriptor_inBounds i).bind fun d _ => ?_
    dsimp only
    refine (hostRead_meets id _ _ _).bind fun bytes _ => ?_
    refine (write_meets outside_inBounds bytes).bind fun g' _ => ?_
    split
    · trivial
    · refine (Queue.descriptor_inBounds i).bind fun d _ => ?_
      split
      · exact (Queue.descriptorIndex_inBounds _).bind fun next _ => ih next _
      · trivial

theorem txLoop_inBounds (fuel : Nat) (buffer : List UInt8) (i : UInt16) (written : UInt32) :
    InBounds (txLoop q g fuel buffer i written) fun _ => True := by
  induction fuel generalizing buffer i written with
  | zero => exact id
  | succ fuel ih =>
    unfold txLoop
    refine (Queue.descriptor_inBounds i).bind fun d _ => ?_
    refine (hostRoom_meets id _ _ _).bind fun _ _ => ?_
    refine (read_meets outside_inBounds _).bind fun bytes _ => ?_
    dsimp only
    split
    · exact (Queue.descriptorIndex_inBounds _).bind fun next _ => ih _ next _
    · trivial

theorem updateRx_inBounds (h : q.Sound) (fuel : Nat) (irq : Interrupt) (buffer : List UInt8)
    (polled : Bool) (packet : Option (List UInt8)) :
    InBounds (updateRx fuel q irq buffer g polled packet) fun _ => True := by
  unfold updateRx
  refine (Queue.next_inBounds h).bind ?_
  rintro ⟨_ | head, q'⟩ hq
  · trivial
  · have husable := hq.2 (by simp)
    dsimp only
    split
    · trivial
    · refine (Queue.availId_inBounds husable).bind fun id _ => ?_
      refine (rxLoop_inBounds _ _ _ _ _).bind fun result _ => ?_
      exact (Queue.addUsed_inBounds husable _ _).bind fun _ _ => trivial

theorem updateTx_inBounds (h : q.Sound) (fuel : Nat) (irq : Interrupt) (buffer : List UInt8)
    (tapWrite : List UInt8 → Int) :
    InBounds (updateTx fuel q irq buffer g tapWrite) fun _ => True := by
  unfold updateTx
  refine (Queue.next_inBounds h).bind ?_
  rintro ⟨_ | head, q'⟩ hq
  · trivial
  · have husable := hq.2 (by simp)
    refine (Queue.availId_inBounds husable).bind fun id _ => ?_
    refine (txLoop_inBounds _ _ _ _).bind fun result _ => ?_
    exact (Queue.addUsed_inBounds husable _ _).bind fun _ _ => trivial

end Net

theorem Rng.update_inBounds {q : Queue} {g : Guest} (h : q.Sound) (irq : Interrupt)
    (random : Nat → List UInt8) : InBounds (Rng.update q irq g random) fun _ => True := by
  unfold Rng.update
  refine (Queue.next_inBounds h).bind ?_
  rintro ⟨_ | head, q'⟩ hq
  · trivial
  · have husable := hq.2 (by simp)
    refine (Queue.availId_inBounds husable).bind fun id _ => ?_
    refine (Queue.descriptor_inBounds head).bind fun d _ => ?_
    refine (write_meets outside_inBounds _).bind fun g' _ => ?_
    refine (Queue.descriptor_inBounds head).bind fun d _ => ?_
    exact (Queue.addUsed_inBounds husable _ _).bind fun _ _ => trivial

namespace Blk

variable {q : Queue} {g : Guest}

theorem inLoop_inBounds (fuel : Nat) (file : FStream) (i : UInt16) (len : UInt32) :
    InBounds (inLoop q fuel file g i len) fun _ => True := by
  induction fuel generalizing g file i len with
  | zero => exact id
  | succ fuel ih =>
    unfold inLoop
    refine (Queue.descriptor_inBounds i).bind fun d _ => ?_
    split
    · refine (write_meets outside_inBounds _).bind fun g' _ => ?_
      refine (Queue.descriptor_inBounds i).bind fun d _ => ?_
      exact (Queue.descriptorIndex_inBounds _).bind fun next _ => ih _ next _
    · trivial

theorem outLoop_inBounds (fuel : Nat) (file : FStream) (i : UInt16) (len : UInt32) :
    InBounds (outLoop q g fuel file i len) fun _ => True := by
  induction fuel generalizing file i len with
  | zero => exact id
  | succ fuel ih =>
    unfold outLoop
    refine (Queue.descriptor_inBounds i).bind fun d _ => ?_
    have hrest : ∀ bytes, InBounds (do
        let next ← descriptorIndex d.next
        outLoop q g fuel (file.write bytes) next (len + d.len)) fun _ => True := fun bytes =>
      (Queue.descriptorIndex_inBounds _).bind fun next _ => ih _ next _
    split
    · dsimp only
      split
      · exact hrest _
      · exact (read_meets outside_inBounds _).bind fun bytes _ => hrest bytes
    · trivial

theorem follow_inBounds (i : UInt16) : InBounds (follow q g i) fun _ => True := by
  refine (Queue.descriptor_inBounds i).bind fun d _ => ?_
  exact (Queue.descriptorIndex_inBounds _).mono (fun _ h => h) fun _ _ => trivial

theorem putStatus_inBounds (i : UInt16) : InBounds (putStatus q g i) fun _ => True := by
  refine (Queue.descriptor_inBounds i).bind fun d _ => ?_
  exact (write_meets outside_inBounds _).mono (fun _ h => h) fun _ _ => trivial

theorem handle_inBounds (fuel : Nat) (file : FStream) (i : UInt16) :
    InBounds (handle fuel q file g i) fun _ => True := by
  unfold handle
  refine (Queue.descriptor_inBounds i).bind fun d _ => ?_
  refine (read32_meets outside_inBounds).bind fun type _ => ?_
  split
  · refine (follow_inBounds i).bind fun next _ => ?_
    refine (read64_meets outside_inBounds).bind fun sector _ => ?_
    refine (inLoop_inBounds _ _ _ _).bind fun result _ => ?_
    exact (putStatus_inBounds _).bind fun _ _ => trivial
  · split
    · refine (follow_inBounds i).bind fun next _ => ?_
      refine (read64_meets outside_inBounds).bind fun sector _ => ?_
      refine (outLoop_inBounds _ _ _ _).bind fun result _ => ?_
      exact (putStatus_inBounds _).bind fun _ _ => trivial
    · split
      · refine (follow_inBounds i).bind fun next _ => ?_
        refine (Queue.descriptor_inBounds next).bind fun d _ => ?_
        have hrest : ∀ g : Guest, InBounds (do
            let len := (← q.descriptor g next).len
            let next ← follow q g next
            let g ← putStatus q g next
            return some (file, g, len + 1)) fun _ => True := by
          intro g
          refine (Queue.descriptor_inBounds next).bind fun d _ => ?_
          refine (follow_inBounds next).bind fun st _ => ?_
          exact (putStatus_inBounds st).bind fun _ _ => trivial
        dsimp only
        split
        · exact (write_meets outside_inBounds _).bind fun g' _ => hrest g'
        · exact id
      · trivial

end Blk

namespace DeviceMachine

variable {t : DeviceType}

/-- The values that a driver keeping to the device's limits writes. -/
def AdmissibleWrite (d : Device t) (register : Register) (value : UInt32) : Prop :=
  match register with
  | .queueSel | .queueNotify => value.toNat < t.queueCount
  | .queueNum =>
    ∀ queue, d.selected = .ok queue → queue.ready = true → value ≠ 0 ∧ value ≤ queueSizeMax
  | .queueReady => ∀ queue, d.selected = .ok queue → queue.Usable
  | _ => True

def Which.InRange (t : DeviceType) : Which → Prop
  | .selected => True
  | .constant index => index.toNat < t.queueCount

/-- Admissible register writes, between calls of `next()` on any queue and of
`avail_id()` and `add_used()` on a ready one. The constants are those that the
device was written with. -/
def Admissible (s : State t) : Event → Prop
  | .write data offset _ =>
    ∀ value, Device.getWord data = .ok value →
      AdmissibleWrite s.dev (Register.ofOffset offset) value
  | .evaluate which | .next which | .popBack which => which.InRange t
  | .availId which | .addUsed which _ _ => which.InRange t ∧ OnReady s which
  | _ => True

structure Sound (d : Device t) : Prop where
  selected : d.queueIndex.toNat < t.queueCount
  queues : ∀ i queue, d.q i = .ok queue → queue.Sound

theorem Sound.of_queues {d d' : Device t} (h : Sound d) (hq : d'.queues = d.queues)
    (hi : d'.queueIndex.toNat < t.queueCount) : Sound d' where
  selected := hi
  queues i queue hqueue := h.queues i queue (by rwa [← Device.q_congr hq])

theorem Sound.setQ {d : Device t} (h : Sound d) {i : UInt32} {old new : Queue}
    (hold : d.q i = .ok old) (hnew : new.Sound) : Sound (d.setQ i new) where
  selected := by
    rw [Device.setQ_queueIndex]
    exact h.selected
  queues := Device.forall_q_setQ h.queues hold hnew

theorem Which.index_lt {which : Which} {d : Device t} (h : Sound d) (hw : which.InRange t) :
    (which.index d).toNat < t.queueCount := by
  cases which with
  | selected => exact h.selected
  | constant index => exact hw

theorem Sound.q {d : Device t} (h : Sound d) {i : UInt32} (hi : i.toNat < t.queueCount) :
    InBounds (d.q i) fun queue => d.q i = .ok queue ∧ queue.Sound := by
  rw [Device.q_of_lt d hi]
  exact ⟨rfl, h.queues i _ (Device.q_of_lt d hi)⟩

theorem putWord_inBounds (size value : UInt32) :
    InBounds (Device.putWord size value) fun _ => True := by
  unfold Device.putWord
  split
  · exact id
  · trivial

theorem getWord_inBounds (data : List UInt8) :
    InBounds (Device.getWord data) fun value => Device.getWord data = .ok value := by
  unfold Device.getWord
  split
  · exact id
  · rfl

theorem mmioRead_inBounds {d : Device t} (h : Sound d) (offset : UInt64) (size : UInt32) :
    InBounds (d.mmioRead offset size) fun _ => True := by
  unfold Device.mmioRead
  split
  case h_8 => exact (h.q h.selected).bind fun _ _ => putWord_inBounds _ _
  all_goals first | exact putWord_inBounds _ _ | trivial | skip
  unfold Device.readConfig
  split
  · trivial
  · split
    · trivial
    · exact id

theorem writeRegister_inBounds {d : Device t} (h : Sound d) {register : Register}
    {value : UInt32} (ha : AdmissibleWrite d register value) (data : List UInt8)
    (size : UInt32) : InBounds (d.writeRegister register value data size) Sound := by
  cases hp : register.program value with
  | some f =>
    rw [Device.writeRegister_program hp]
    refine (h.q h.selected).bind fun queue hq => ?_
    refine h.setQ hq.1 fun hready => ?_
    have hsize := Register.program_size hp queue
    rw [Register.program_ready hp] at hready
    unfold Queue.Usable
    rw [hsize]
    by_cases hnum : register = .queueNum
    · subst hnum
      rw [if_pos rfl]
      exact ha queue hq.1 (by simpa using hready)
    · rw [if_neg hnum]
      by_cases hr : register = .queueReady
      · subst hr
        exact ha queue hq.1
      · rw [if_neg hr] at hready
        exact hq.2 hready
  | none =>
    by_cases hn : register = .queueNotify
    · subst hn
      refine (h.q ha).bind fun queue hq => ?_
      exact h.setQ hq.1 hq.2
    · refine (Device.writeRegister_other hp hn d data size).mono ?_ ?_
      · rintro f rfl
        exact id
      · rintro d' ⟨hq, hi⟩
        refine h.of_queues hq ?_
        rw [hi]
        split
        · rename_i hs
          subst hs
          exact ha
        · exact h.selected

theorem perform_inBounds {s : State t} (h : Sound s.dev) {e : Event} (ha : Admissible s e) :
    InBounds (perform s e) fun result => Sound result.2.dev := by
  cases e with
  | write data offset size =>
    refine ((getWord_inBounds data).bind fun value hv => ?_).bind fun _ hd => hd
    exact writeRegister_inBounds h (ha value hv) data size
  | read offset size => exact (mmioRead_inBounds h offset size).bind fun _ _ => h
  | memory bytes => exact h
  | evaluate which => exact (h.q (which.index_lt h ha)).bind fun _ _ => h
  | next which =>
    refine (h.q (which.index_lt h ha)).bind fun queue hq => ?_
    exact (Queue.next_inBounds hq.2).bind fun _ hnext => h.setQ hq.1 hnext.1
  | popBack which =>
    refine (h.q (which.index_lt h ha)).bind fun queue hq => ?_
    exact h.setQ hq.1 hq.2
  | availId which =>
    refine (h.q (which.index_lt h ha.1)).bind fun queue hq => ?_
    exact (Queue.availId_inBounds (hq.2 (ha.2 queue hq.1))).bind fun _ _ => h
  | addUsed which start len =>
    refine (h.q (which.index_lt h ha.1)).bind fun queue hq => ?_
    exact (Queue.addUsed_inBounds (hq.2 (ha.2 queue hq.1)) start len).bind fun _ _ => h
  | raise => exact h.of_queues rfl h.selected

theorem sound_fresh (hcount : 0 < t.queueCount) (irq : Interrupt) (config : List UInt8) :
    Sound (Device.fresh t irq config) where
  selected := hcount
  queues i queue hq hready := by
    obtain ⟨hi, rfl⟩ := Device.q_eq_ok hq
    simp [Device.fresh] at hready

theorem sound_of_run (hcount : 0 < t.queueCount) {irq : Interrupt} {config : List UInt8}
    {g : Guest} {moves : List (Move (State t) Event)} {s : State t}
    (run : Run (guarded Step Admissible) (boot t irq config g) moves s) : Sound s.dev := by
  have hstep : ∀ (s : State t) e s', Sound s.dev → guarded Step Admissible s e s' →
      Sound s'.dev := by
    rintro s e s' h ⟨ha, reply, hperform⟩
    have hmeets := perform_inBounds h ha
    rw [hperform] at hmeets
    exact hmeets
  exact @Run.invariant _ _ _ _ _ _ (fun s => Sound s.dev) run
    (sound_fresh hcount irq config) hstep

/-- While the driver keeps to admissible writes, `q()` and `q(index)` stay inside
`queues`, the ring slots of a ready queue stay inside the rings, and no event
ends in a bad subscript. -/
theorem subscripts_stay_in_bounds (hcount : 0 < t.queueCount) {irq : Interrupt}
    {config : List UInt8} {g : Guest} {moves : List (Move (State t) Event)} {s : State t}
    (run : Run (guarded Step Admissible) (boot t irq config g) moves s) :
    (∀ which : Which, which.InRange t → (which.index s.dev).toNat < t.queueCount) ∧
      (∀ i queue, s.dev.q i = .ok queue → queue.ready = true →
        queue.size ≠ 0 ∧ ∀ index, index % queue.size < queueSizeMax) ∧
      ∀ e f, Admissible s e → perform s e = .error f → ¬ BadSubscript f := by
  have h := sound_of_run hcount run
  refine ⟨fun which hw => which.index_lt h hw, fun i queue hq hready => ?_, fun e f ha hf => ?_⟩
  · have husable := h.queues i queue hq hready
    exact ⟨husable.1, husable.slot_lt⟩
  · exact (perform_inBounds h ha).allowed_of_error hf

theorem runOnce_inBounds {b : Blk} (h : Sound b.dev) (fuel : Nat) (g : Guest) :
    InBounds (b.runOnce fuel g) fun result => Sound result.2.1.dev := by
  unfold Blk.runOnce
  refine (h.q h.selected).bind fun queue hq => ?_
  refine (Queue.next_inBounds hq.2).bind ?_
  rintro ⟨_ | head, q'⟩ hnext
  · exact h.setQ hq.1 hnext.1
  · have husable := hnext.2 (by simp)
    refine (Queue.availId_inBounds husable).bind fun id _ => ?_
    refine (Blk.handle_inBounds fuel b.file head).bind ?_
    rintro (_ | ⟨file, g', len⟩) -
    · exact h.setQ hq.1 hnext.1
    · refine (Queue.addUsed_inBounds husable _ _).bind fun result _ => ?_
      have hset := h.setQ hq.1 hnext.1
      exact (read16_meets outside_inBounds).bind fun _ _ => hset.of_queues rfl hset.selected

def blkBoot (bytes : Memory) : State blkType := boot blkType { number := 5 } [] ⟨bytes, 0x10000⟩

/-- Each of the four conditions on the written values is needed. -/
theorem unchecked_values_fault :
    (play (blkBoot (image [])) [store 0x030 1, .evaluate .selected]).map (fun _ => ()) =
        .error (.queue 1) ∧
      (play (blkBoot (image [])) [store 0x050 1]).map (fun _ => ()) = .error (.queue 1) ∧
      (play (blkBoot (image [(2, [1])])) [store 0x044 1, .next .selected]).map (fun _ => ()) =
        .error .divideByZero ∧
      (play (blkBoot (image [(2, [88, 2])]))
        [store 0x038 1024, store 0x044 1, .addUsed .selected 0 0]).map (fun _ => ()) =
        .error (.slot 600) := by
  decide

def blkReady : State blkType :=
  { blkBoot (image []) with
    dev := { (blkBoot (image [])).dev with queues := #v[{ size := 4, ready := true }] } }

theorem blkReady_run :
    ∃ moves, Run (guarded Step Admissible) (blkBoot (image [])) moves blkReady := by
  let sized : State blkType :=
    { blkBoot (image []) with
      dev := { (blkBoot (image [])).dev with queues := #v[{ size := 4 }] } }
  have hsize : guarded Step Admissible (blkBoot (image [])) (store 0x038 4) sized := by
    refine ⟨?_, .done, rfl⟩
    rintro _ ⟨⟩ _ ⟨⟩ h
    contradiction
  have hready : guarded Step Admissible sized (store 0x044 1) blkReady := by
    refine ⟨?_, .done, rfl⟩
    rintro _ ⟨⟩ _ ⟨⟩
    exact ⟨by decide, by decide⟩
  exact ⟨_, Run.snoc (Run.one hsize) hready⟩

theorem blkReady_in_bounds :
    (∀ which : Which, which.InRange blkType → (which.index blkReady.dev).toNat < 1) ∧
      (∀ i queue, blkReady.dev.q i = .ok queue → queue.ready = true →
        queue.size ≠ 0 ∧ ∀ index, index % queue.size < queueSizeMax) ∧
      ∀ e f, Admissible blkReady e → perform blkReady e = .error f → ¬ BadSubscript f := by
  obtain ⟨moves, run⟩ := blkReady_run
  exact subscripts_stay_in_bounds (t := blkType) (by decide) run

end DeviceMachine

end Kthxvm.Virtio
