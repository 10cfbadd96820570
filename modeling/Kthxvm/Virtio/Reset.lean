import Kthxvm.Lib.TwoRuns
import Kthxvm.Virtio.DeviceMachine

/-! A write of `VIRTIO_DEVICE_RESET` to the status register. It is stored like
any other status, so a driver that starts over meets what it left behind. -/
namespace Kthxvm.Virtio

open Lib.ByteMemory Lib.Transition Lib.Triple Lib.TwoRuns

structure Ring where
  size : UInt32 := 0
  descAddr : UInt64 := 0
  availAddr : UInt64 := 0
  usedAddr : UInt64 := 0
deriving DecidableEq

def Queue.ring (q : Queue) : Ring where
  size := q.size
  descAddr := q.descAddr
  availAddr := q.availAddr
  usedAddr := q.usedAddr

/-- The registers whose read-back a driver relies on when it starts. -/
def Register.readBack : Register → Bool
  | .status | .queueReady | .interruptStatus => true
  | _ => false

namespace DeviceMachine

variable {t : DeviceType}

/-- What the device was told: the selected queue, the accepted features and the
rings of every queue. -/
structure View where
  queueIndex : UInt32
  driverFeatures : UInt64
  rings : UInt32 → Option Ring

def view (d : Device t) : View where
  queueIndex := d.queueIndex
  driverFeatures := d.driverFeatures
  rings i := match d.q i with
    | .ok queue => some queue.ring
    | .error _ => none

def seen (e : Event) (reply : Reply) : Reply :=
  match e with
  | .read offset _ => if (Register.ofOffset offset).readBack then reply else .done
  | _ => reply

def watched (s : State t) (e : Event) : Except Fault ((Reply × View) × State t) := do
  let (reply, s) ← perform s e
  return ((seen e reply, view s.dev), s)

/-- The view of the device now, and reply and view at every later event. -/
def behaviour (s : State t) (later : List Event) : View × List (Except Fault (Reply × View)) :=
  (view s.dev, observe watched s later)

/-- Queues that differ at most in the number of notifications, which nothing reads. -/
def SameQueue (q q' : Queue) : Prop := q' = { q with notify := q'.notify }

theorem SameQueue.refl (q : Queue) : SameQueue q q := rfl

theorem SameQueue.ring_eq {q q' : Queue} (h : SameQueue q q') : q.ring = q'.ring := by
  rw [h]
  rfl

theorem SameQueue.setNotify {q q' : Queue} (h : SameQueue q q') :
    SameQueue q.setNotify q'.setNotify := by
  rw [h]
  rfl

theorem SameQueue.popBack {q q' : Queue} (h : SameQueue q q') :
    SameQueue q.popBack q'.popBack := by
  rw [h]
  rfl

theorem SameQueue.program {q q' : Queue} (h : SameQueue q q') {register : Register}
    {value : UInt32} {f : Queue → Queue} (hf : register.program value = some f) :
    SameQueue (f q) (f q') := by
  rw [h]
  cases register <;> cases hf <;> rfl

theorem SameQueue.availId {q q' : Queue} (h : SameQueue q q') (g : Guest) :
    q.availId g = q'.availId g := by
  rw [h]
  rfl

theorem SameQueue.addUsed {q q' : Queue} (h : SameQueue q q') (g : Guest) (start len : UInt32) :
    q.addUsed g start len = q'.addUsed g start len := by
  rw [h]
  rfl

theorem SameQueue.next {q q' : Queue} (h : SameQueue q q') (g : Guest) :
    Related (fun a b => a.1 = b.1 ∧ SameQueue a.2 b.2) (q.next g) (q'.next g) := by
  rw [h]
  unfold Queue.next
  dsimp only
  split
  · exact ⟨rfl, rfl⟩
  · refine Related.bind_same _ fun idx => ?_
    split
    · exact ⟨rfl, rfl⟩
    · refine Related.bind_same _ fun id => Related.bind_same _ fun i => ?_
      exact ⟨rfl, rfl⟩

/-- Devices that no register access and no call of a device thread tells apart,
as far as `view` and `seen` go. -/
structure Alike (d d' : Device t) : Prop where
  driverFeatures : d.driverFeatures = d'.driverFeatures
  driverFeatureSel : d.driverFeatureSel = d'.driverFeatureSel
  queueIndex : d.queueIndex = d'.queueIndex
  status : d.status = d'.status
  irq : d.irq.state = d'.irq.state
  config : d.config.length = d'.config.length
  queues : ∀ i, Related SameQueue (d.q i) (d'.q i)

variable {d d' : Device t}

theorem Alike.view_eq (h : Alike d d') : view d = view d' := by
  unfold view
  rw [h.queueIndex, h.driverFeatures]
  congr 1
  funext i
  have hq := h.queues i
  cases hx : d.q i with
  | error e =>
    cases hy : d'.q i with
    | error e' => rfl
    | ok q' =>
      rw [hx, hy] at hq
      exact hq.elim
  | ok q =>
    cases hy : d'.q i with
    | error e' =>
      rw [hx, hy] at hq
      exact hq.elim
    | ok q' =>
      rw [hx, hy] at hq
      have hsame : SameQueue q q' := hq
      dsimp only
      rw [hsame.ring_eq]

theorem Alike.setQ (h : Alike d d') {i : UInt32} {old old' new new' : Queue}
    (hold : d.q i = .ok old) (hold' : d'.q i = .ok old') (hnew : SameQueue new new') :
    Alike (d.setQ i new) (d'.setQ i new') := by
  have hq : ∀ j, Related SameQueue ((d.setQ i new).q j) ((d'.setQ i new').q j) := by
    intro j
    rw [Device.q_setQ hold, Device.q_setQ hold']
    split
    · exact hnew
    · exact h.queues j
  obtain ⟨queues, hset⟩ := d.setQ_eq_queues i new
  obtain ⟨queues', hset'⟩ := d'.setQ_eq_queues i new'
  rw [hset, hset'] at hq ⊢
  exact ⟨h.1, h.2, h.3, h.4, h.5, h.6, hq⟩

theorem Alike.updateSelected (h : Alike d d') {f : Queue → Queue}
    (hf : ∀ q q', SameQueue q q' → SameQueue (f q) (f q')) :
    Related Alike (d.updateSelected f) (d'.updateSelected f) := by
  have hq := h.queues d.queueIndex
  unfold Device.updateSelected Device.selected
  rw [← h.queueIndex]
  refine hq.bind fun q q' hx hy hsame => ?_
  exact h.setQ hx hy (hf q q' hsame)

theorem Alike.writeConfig (h : Alike d d') (data : List UInt8) (offset : UInt64)
    (size : UInt32) :
    Related Alike (d.writeConfig data offset size) (d'.writeConfig data offset size) := by
  unfold Device.writeConfig Device.configRejects
  rw [h.config]
  split
  · exact h
  · split
    · refine ⟨h.1, h.2, h.3, h.4, h.5, ?_, h.queues⟩
      simp only [List.length_append, List.length_take, List.length_drop, h.config]
    · exact rfl

theorem Alike.writeRegister (h : Alike d d') (register : Register) (value : UInt32)
    (data : List UInt8) (size : UInt32) :
    Related Alike (d.writeRegister register value data size)
      (d'.writeRegister register value data size) := by
  cases hp : register.program value with
  | some f =>
    rw [Device.writeRegister_program hp, Device.writeRegister_program hp]
    exact h.updateSelected fun q q' hsame => hsame.program hp
  | none =>
    cases register
    case queueNum | queueReady | queueDescLow | queueDescHigh | queueAvailLow
        | queueAvailHigh | queueUsedLow | queueUsedHigh => contradiction
    case queueNotify =>
      refine (h.queues value).bind fun q q' hx hy hsame => ?_
      exact h.setQ hx hy hsame.setNotify
    case config offset => exact h.writeConfig data offset size
    case status => exact ⟨h.1, h.2, h.3, rfl, h.5, h.6, h.queues⟩
    case driverFeatures =>
      refine ⟨?_, h.2, h.3, h.4, h.5, h.6, h.queues⟩
      rw [h.driverFeatures, h.driverFeatureSel]
    case driverFeaturesSel => exact ⟨h.1, rfl, h.3, h.4, h.5, h.6, h.queues⟩
    case queueSel => exact ⟨h.1, h.2, rfl, h.4, h.5, h.6, h.queues⟩
    case interruptAck =>
      unfold Device.writeRegister
      dsimp only
      split
      · refine ⟨h.1, h.2, h.3, h.4, ?_, h.6, h.queues⟩
        exact (Interrupt.setLevel_state _ _).trans (Interrupt.setLevel_state _ _).symm
      · exact h
    all_goals exact ⟨h.1, h.2, h.3, h.4, h.5, h.6, h.queues⟩

theorem putWord_related (size value value' : UInt32) :
    Related (fun _ _ => True) (Device.putWord size value) (Device.putWord size value') := by
  unfold Device.putWord
  split
  · exact rfl
  · trivial

theorem Alike.mmioRead (h : Alike d d') (offset : UInt64) (size : UInt32) :
    Related (fun a b => (Register.ofOffset offset).readBack → a = b)
      (d.mmioRead offset size) (d'.mmioRead offset size) := by
  unfold Device.mmioRead
  cases Register.ofOffset offset
  case status =>
    refine Related.of_eq (fun _ _ => rfl) ?_
    dsimp only
    rw [Device.readStatus, Device.readStatus, h.status]
  case interruptStatus =>
    refine Related.of_eq (fun _ _ => rfl) ?_
    dsimp only
    rw [Device.irqLevel, Device.irqLevel, Interrupt.level, Interrupt.level, h.irq]
  case queueReady =>
    have hq := h.queues d.queueIndex
    dsimp only
    unfold Device.selected
    rw [← h.queueIndex]
    refine hq.bind fun q q' _ _ hsame => Related.of_eq (fun _ _ => rfl) ?_
    rw [hsame]
    rfl
  case config offset =>
    unfold Device.readConfig Device.configRejects
    dsimp only
    rw [h.config]
    split
    · exact fun _ => rfl
    · split
      · exact fun hno => absurd hno Bool.false_ne_true
      · exact rfl
  all_goals
    first
      | exact (putWord_related _ _ _).mono fun _ _ _ hno => absurd hno Bool.false_ne_true
      | exact fun _ => rfl

/-- Step lemma: one event keeps two devices alike and shows the same of both. -/
theorem watched_related {s s' : State t} (h : Alike s.dev s'.dev) (hg : s.guest = s'.guest)
    (e : Event) :
    Related (fun a b => a.1 = b.1 ∧ Alike a.2.dev b.2.dev ∧ a.2.guest = b.2.guest)
      (watched s e) (watched s' e) := by
  obtain ⟨d, g⟩ := s
  obtain ⟨d', g'⟩ := s'
  dsimp only at h hg
  subst hg
  suffices hperform : Related (fun a b => seen e a.1 = seen e b.1 ∧ Alike a.2.dev b.2.dev ∧
      a.2.guest = b.2.guest) (perform ⟨d, g⟩ e) (perform ⟨d', g⟩ e) by
    refine hperform.bind fun a b _ _ hab => ⟨?_, hab.2⟩
    dsimp only
    rw [hab.1, hab.2.1.view_eq]
  have hq : ∀ which : Which, Related SameQueue (d.q (which.index d)) (d'.q (which.index d)) :=
    fun which => h.queues _
  have hi : ∀ which : Which, which.index d' = which.index d := by
    intro which
    cases which with
    | selected => exact h.queueIndex.symm
    | constant index => rfl
  cases e with
  | write data offset size =>
    have hwrite : Related Alike (d.mmioWrite data offset size) (d'.mmioWrite data offset size) :=
      Related.bind_same _ fun value => h.writeRegister _ value data size
    exact hwrite.bind fun _ _ _ _ hd => ⟨rfl, hd, rfl⟩
  | read offset size =>
    refine (h.mmioRead offset size).bind fun a b _ _ hab => ⟨?_, h, rfl⟩
    unfold seen
    dsimp only
    split
    · rename_i hback
      rw [hab hback]
    · rfl
  | memory bytes => exact ⟨rfl, h, rfl⟩
  | evaluate which =>
    unfold perform
    dsimp only
    rw [hi which]
    exact (hq which).bind fun _ _ _ _ _ => ⟨rfl, h, rfl⟩
  | next which =>
    unfold perform
    dsimp only
    rw [hi which]
    refine (hq which).bind fun q q' hx hy hsame => (hsame.next g).bind fun a b _ _ hab => ?_
    exact ⟨congrArg Reply.taken hab.1, h.setQ hx hy hab.2, rfl⟩
  | popBack which =>
    unfold perform
    dsimp only
    rw [hi which]
    refine (hq which).bind fun q q' hx hy hsame => ?_
    exact ⟨rfl, h.setQ hx hy hsame.popBack, rfl⟩
  | availId which =>
    unfold perform
    dsimp only
    rw [hi which]
    refine (hq which).bind fun q q' _ _ hsame => ?_
    rw [hsame.availId]
    exact Related.bind_same _ fun id => ⟨rfl, h, rfl⟩
  | addUsed which start len =>
    unfold perform
    dsimp only
    rw [hi which]
    refine (hq which).bind fun q q' _ _ hsame => ?_
    rw [hsame.addUsed]
    exact Related.bind_same _ fun result => ⟨rfl, h, rfl⟩
  | raise =>
    refine ⟨rfl, ⟨h.1, h.2, h.3, h.4, ?_, h.6, h.queues⟩, rfl⟩
    exact (Interrupt.setLevel_state _ _).trans (Interrupt.setLevel_state _ _).symm

theorem behaviour_eq_of_alike {s s' : State t} (h : Alike s.dev s'.dev)
    (hg : s.guest = s'.guest) (later : List Event) : behaviour s later = behaviour s' later := by
  unfold behaviour
  rw [h.view_eq]
  congr 1
  exact observe_eq_of_related (R := fun s s' => Alike s.dev s'.dev ∧ s.guest = s'.guest)
    (fun s s' e hs => watched_related hs.1 hs.2 e) ⟨h, hg⟩ later

/-- What every history leaves true: a queue that was never made ready has taken
no chain, and the configuration structure keeps its size. -/
structure Historic (config : List UInt8) (d : Device t) : Prop where
  config : d.config.length = config.length
  lastAvail : ∀ i queue, d.q i = .ok queue → queue.ready = false → queue.lastAvail = 0

theorem Historic.setQ {config : List UInt8} {d : Device t} (h : Historic config d) {i : UInt32}
    {old new : Queue} (hold : d.q i = .ok old) (hnew : new.ready = false → new.lastAvail = 0) :
    Historic config (d.setQ i new) where
  config := (congrArg List.length (d.setQ_config i new)).trans h.config
  lastAvail := Device.forall_q_setQ h.lastAvail hold hnew

theorem writeRegister_length {d d' : Device t} {register : Register} {value : UInt32}
    {data : List UInt8} {size : UInt32} (h : d.writeRegister register value data size = .ok d') :
    d'.config.length = d.config.length := by
  have hset : ∀ i queue, (d.setQ i queue).config.length = d.config.length := by
    intro i queue
    rw [Device.setQ_config]
  cases hp : register.program value with
  | some f =>
    rw [Device.writeRegister_program hp] at h
    obtain ⟨queue, -, rfl⟩ := Device.updateSelected_ok h
    exact hset _ _
  | none =>
    cases register
    case queueNum | queueReady | queueDescLow | queueDescHigh | queueAvailLow
        | queueAvailHigh | queueUsedLow | queueUsedHigh => contradiction
    case queueNotify =>
      obtain ⟨queue, -, h⟩ := bind_eq_ok.mp h
      cases h
      exact hset _ _
    case config offset =>
      unfold Device.writeRegister Device.writeConfig at h
      dsimp only at h
      split at h
      · cases h
        rfl
      · split at h
        · rename_i hfits
          cases h
          simp only [List.length_append, List.length_take, List.length_drop]
          omega
        · contradiction
    case interruptAck =>
      unfold Device.writeRegister at h
      dsimp only at h
      split at h <;> cases h <;> rfl
    all_goals
      cases h
      rfl

theorem Historic.writeRegister {config : List UInt8} {d d' : Device t} (h : Historic config d)
    {register : Register} {value : UInt32} {data : List UInt8} {size : UInt32}
    (hd : d.writeRegister register value data size = .ok d') : Historic config d' where
  config := (writeRegister_length hd).trans h.config
  lastAvail i queue hq hready := by
    obtain ⟨old, hold, rfl | rfl | ⟨f, hf, rfl⟩⟩ := Device.writeRegister_q hd hq
    · exact h.lastAvail i _ hold hready
    · exact h.lastAvail i old hold hready
    · rw [Register.program_ready hf] at hready
      rw [Register.program_lastAvail hf]
      split at hready
      · contradiction
      · exact h.lastAvail i _ hold hready

theorem historic_fresh (irq : Interrupt) (config : List UInt8) :
    Historic config (Device.fresh t irq config) where
  config := rfl
  lastAvail i queue hq _ := by
    obtain ⟨hi, rfl⟩ := Device.q_eq_ok hq
    simp [Device.fresh]

theorem Historic.step {config : List UInt8} {s s' : State t} (h : Historic config s.dev)
    {e : Event} (hlive : Live s e) (hstep : Step s e s') : Historic config s'.dev := by
  obtain ⟨reply, hperform⟩ := hstep
  cases e with
  | write data offset size =>
    obtain ⟨dev, hwrite, hperform⟩ := bind_eq_ok.mp hperform
    obtain ⟨value, -, hwrite⟩ := bind_eq_ok.mp hwrite
    cases hperform
    exact h.writeRegister hwrite
  | read offset size =>
    obtain ⟨data, -, hperform⟩ := bind_eq_ok.mp hperform
    cases hperform
    exact h
  | memory bytes =>
    cases hperform
    exact h
  | evaluate which =>
    obtain ⟨queue, -, hperform⟩ := bind_eq_ok.mp hperform
    cases hperform
    exact h
  | next which =>
    obtain ⟨queue, hq, hperform⟩ := bind_eq_ok.mp hperform
    obtain ⟨⟨head, queue'⟩, hnext, hperform⟩ := bind_eq_ok.mp hperform
    cases hperform
    refine h.setQ hq fun hready => ?_
    cases head with
    | none =>
      have hidle := Queue.next_idle hnext
      subst hidle
      exact h.lastAvail _ _ hq hready
    | some head =>
      obtain ⟨hwas, rfl, -⟩ := Queue.next_takes hnext
      rw [hwas] at hready
      contradiction
  | popBack which =>
    obtain ⟨queue, hq, hperform⟩ := bind_eq_ok.mp hperform
    cases hperform
    refine h.setQ hq fun hready => ?_
    have hwas : queue.ready = true := hlive queue hq
    have hnot : queue.ready = false := hready
    rw [hwas] at hnot
    contradiction
  | availId which =>
    obtain ⟨queue, -, hperform⟩ := bind_eq_ok.mp hperform
    obtain ⟨id, -, hperform⟩ := bind_eq_ok.mp hperform
    cases hperform
    exact h
  | addUsed which start len =>
    obtain ⟨queue, -, hperform⟩ := bind_eq_ok.mp hperform
    obtain ⟨result, -, hperform⟩ := bind_eq_ok.mp hperform
    cases hperform
    exact h
  | raise =>
    cases hperform
    exact ⟨h.config, h.lastAvail⟩

/-- Nothing that a driver programs or negotiates is left on the device. -/
structure Unprogrammed (d : Device t) : Prop where
  driverFeatures : d.driverFeatures = 0
  driverFeatureSel : d.driverFeatureSel = false
  queueIndex : d.queueIndex = 0
  irqLevel : d.irqLevel = false
  rings : ∀ i queue, d.q i = .ok queue → queue.ring = {} ∧ queue.ready = false

theorem sameQueue_initial {q : Queue} (hring : q.ring = {}) (hready : q.ready = false)
    (hlast : q.lastAvail = 0) : SameQueue q {} := by
  obtain ⟨size, descAddr, availAddr, usedAddr, notify, lastAvail, ready⟩ := q
  cases hring
  cases hready
  cases hlast
  rfl

theorem alike_fresh {irq : Interrupt} (hlow : irq.level = false) {config : List UInt8}
    {d : Device t} (h : Historic config d) (hd : Unprogrammed d) :
    Alike (d.writeStatus 0) (Device.fresh t irq config) := by
  refine ⟨hd.driverFeatures, hd.driverFeatureSel, hd.queueIndex, rfl,
    hd.irqLevel.trans hlow.symm, h.config, fun i => ?_⟩
  change Related SameQueue (d.q i) _
  by_cases hi : i.toNat < t.queueCount
  · have hq := Device.q_of_lt d hi
    obtain ⟨hring, hready⟩ := hd.rings i _ hq
    have hlast := h.lastAvail i _ hq hready
    have hfresh : (Device.fresh t irq config).queues[i.toNat] = {} := by
      simp [Device.fresh]
    rw [hq, Device.q_of_lt _ hi, hfresh]
    exact sameQueue_initial hring hready hlast
  · unfold Device.q
    rw [dif_neg hi, dif_neg hi]
    exact rfl

theorem perform_store (s : State t) (offset : UInt64) (value : UInt32) :
    perform s (store offset value) = (do
      let dev ← s.dev.writeRegister (Register.ofOffset offset) value
        (bytesOfNat 4 value.toNat) 4
      return (.done, { s with dev := dev })) := by
  unfold perform store Device.mmioWrite
  dsimp only
  rw [Device.getWord_store]
  rfl

section Necessity

variable {s s' : State t}

theorem view_eq_of_behaviour (h : ∀ later, behaviour s later = behaviour s' later) :
    view s.dev = view s'.dev :=
  congrArg Prod.fst (h [])

theorem watched_eq_of_behaviour (h : ∀ later, behaviour s later = behaviour s' later)
    (e : Event) : (watched s e).map Prod.fst = (watched s' e).map Prod.fst := by
  have hone := congrArg Prod.snd (h [e])
  unfold behaviour at hone
  dsimp only at hone
  rw [observe_singleton, observe_singleton] at hone
  exact List.head_eq_of_cons_eq hone

theorem read_eq_of_behaviour (h : ∀ later, behaviour s later = behaviour s' later)
    {offset : UInt64} (hback : (Register.ofOffset offset).readBack = true) {data data' : List UInt8}
    (hd : s.dev.mmioRead offset 4 = .ok data) (hd' : s'.dev.mmioRead offset 4 = .ok data') :
    data = data' := by
  have hone := watched_eq_of_behaviour h (.read offset 4)
  unfold watched perform at hone
  dsimp only at hone
  rw [hd, hd'] at hone
  have hreply := congrArg Prod.fst (Except.ok.inj hone)
  unfold seen at hreply
  dsimp only at hreply
  rw [if_pos hback, if_pos hback] at hreply
  exact Reply.bytes.inj hreply

theorem behaviour_step {e : Event} {r r' : State t} (hr : perform s e = .ok (.done, r))
    (hr' : perform s' e = .ok (.done, r'))
    (h : ∀ later, behaviour s later = behaviour s' later) (later : List Event) :
    behaviour r later = behaviour r' later := by
  have hcons := congrArg Prod.snd (h (e :: later))
  unfold behaviour observe watched at hcons
  dsimp only at hcons
  rw [hr, hr'] at hcons
  have hhead := congrArg Prod.snd (Except.ok.inj (List.head_eq_of_cons_eq hcons))
  exact Prod.ext hhead (List.tail_eq_of_cons_eq hcons)

end Necessity

theorem putWord_four (b : Bool) :
    Device.putWord 4 (Device.ofBool b) = .ok [if b then 1 else 0, 0, 0, 0] := by
  cases b <;> decide

/-- What a fresh device shows, a device that behaves like it has to have. -/
theorem unprogrammed_of_behaviour {irq : Interrupt} (hlow : irq.level = false)
    {config : List UInt8} {s : State t}
    (h : ∀ later, behaviour s later = behaviour (boot t irq config s.guest) later) :
    Unprogrammed s.dev := by
  have hview := view_eq_of_behaviour h
  have hfeatures : s.dev.driverFeatures = 0 := congrArg View.driverFeatures hview
  have hindex : s.dev.queueIndex = 0 := congrArg View.queueIndex hview
  refine ⟨hfeatures, ?_, hindex, ?_, ?_⟩
  · -- the selector shows in where the next accepted word goes
    have hr : perform s (store 0x020 1) = .ok (.done, { s with dev := { s.dev with
        driverFeatures := s.dev.driverFeatures |||
          ((1 : UInt32).toUInt64 <<< (if s.dev.driverFeatureSel then 32 else 0)) } }) :=
      perform_store s 0x020 1
    have hr' := perform_store (boot t irq config s.guest) 0x020 1
    have hfeatures' := congrArg View.driverFeatures (view_eq_of_behaviour (behaviour_step hr hr' h))
    dsimp only [view] at hfeatures'
    rw [hfeatures] at hfeatures'
    cases hsel : s.dev.driverFeatureSel with
    | false => rfl
    | true =>
      rw [hsel] at hfeatures'
      have hdiffer : ((0 : UInt64) ||| ((1 : UInt32).toUInt64 <<< 32)) ≠
          ((0 : UInt64) ||| ((1 : UInt32).toUInt64 <<< 0)) := by decide
      exact absurd hfeatures' hdiffer
  · have hd : s.dev.mmioRead 0x060 4 = .ok [if s.dev.irqLevel then 1 else 0, 0, 0, 0] :=
      putWord_four _
    have hd' : (Device.fresh t irq config).mmioRead 0x060 4 =
        .ok [if irq.level then 1 else 0, 0, 0, 0] := putWord_four _
    have hbyte := List.head_eq_of_cons_eq (read_eq_of_behaviour h rfl hd hd')
    rw [hlow] at hbyte
    cases hirq : s.dev.irqLevel with
    | false => rfl
    | true =>
      rw [hirq] at hbyte
      exact absurd hbyte (by decide)
  · intro i queue hq
    obtain ⟨hi, -⟩ := Device.q_eq_ok hq
    have hq' : (Device.fresh t irq config).q i = .ok {} := by
      rw [Device.q_of_lt _ hi]
      simp [Device.fresh]
    constructor
    · have hring := congrFun (congrArg View.rings hview) i
      dsimp only [view] at hring
      rw [hq, show (boot t irq config s.guest).dev.q i = .ok {} from hq'] at hring
      exact Option.some.inj hring
    · -- select the queue, then read `QUEUE_READY`
      have hr := perform_store s 0x030 i
      have hr' := perform_store (boot t irq config s.guest) 0x030 i
      have hselected := behaviour_step hr hr' h
      have hd : (Device.mmioRead { s.dev with queueIndex := i } 0x044 4) =
          .ok [if queue.ready then 1 else 0, 0, 0, 0] := by
        have hsel : (Device.mmioRead { s.dev with queueIndex := i } 0x044 4) =
          (s.dev.q i >>= fun queue => Device.putWord 4 (Device.ofBool queue.isReady)) := rfl
        rw [hsel, hq]
        exact putWord_four _
      have hd' : (Device.mmioRead { Device.fresh t irq config with queueIndex := i } 0x044 4) =
          .ok [0, 0, 0, 0] := by
        have hsel : (Device.mmioRead { Device.fresh t irq config with queueIndex := i } 0x044 4) =
          ((Device.fresh t irq config).q i >>= fun queue =>
            Device.putWord 4 (Device.ofBool queue.isReady)) := rfl
        rw [hsel, hq']
        exact putWord_four _
      have hbyte := List.head_eq_of_cons_eq (read_eq_of_behaviour hselected rfl hd hd')
      cases hready : queue.ready with
      | false => rfl
      | true =>
        rw [hready] at hbyte
        exact absurd hbyte (by decide)

/-- After any history, writing 0 to the status makes the device behave like a
fresh one exactly when there was nothing to forget. -/
theorem reset_forgets_iff {irq : Interrupt} {config : List UInt8} {g : Guest}
    (hlow : irq.level = false) {moves : List (Move (State t) Event)} {s s' : State t}
    (run : Run (guarded Step Live) (boot t irq config g) moves s)
    (hreset : Step s (store 0x070 0) s') :
    (∀ later, behaviour s' later = behaviour (boot t irq config s'.guest) later) ↔
      Unprogrammed s.dev := by
  have hhistory : Historic config s.dev := by
    have hstep : ∀ (s : State t) e s', Historic config s.dev → guarded Step Live s e s' →
        Historic config s'.dev := fun s e s' h hmove => h.step hmove.1 hmove.2
    exact @Run.invariant _ _ _ _ _ _ (fun s => Historic config s.dev) run
      (historic_fresh irq config) hstep
  obtain ⟨reply, hreset⟩ := hreset
  rw [perform_store] at hreset
  obtain ⟨dev, hdev, hreset⟩ := bind_eq_ok.mp hreset
  cases hdev
  cases hreset
  constructor
  · intro h
    have hd := unprogrammed_of_behaviour hlow h
    exact ⟨hd.driverFeatures, hd.driverFeatureSel, hd.queueIndex, hd.irqLevel, hd.rings⟩
  · intro hd later
    have halike := alike_fresh hlow hhistory hd
    exact @behaviour_eq_of_alike _ ⟨s.dev.writeStatus 0, s.guest⟩ (boot t irq config s.guest)
      halike rfl later

def blkFresh : State blkType := boot blkType { number := 5 } [] ⟨image [], 0x10000⟩

def blkLookedAt : State blkType :=
  { blkFresh with dev := { blkFresh.dev with deviceFeatureSel := true } }

/-- Nothing was programmed yet, so nothing is left behind. -/
theorem looked_at_reset :
    (∀ later, behaviour blkLookedAt later =
      behaviour (boot blkType { number := 5 } [] blkLookedAt.guest) later) ∧
      blkLookedAt.dev.deviceFeatureSel = true := by
  have hstep : guarded Step Live blkFresh (store 0x014 1) blkLookedAt := ⟨trivial, .done, rfl⟩
  have hreset : Step blkLookedAt (store 0x070 0) blkLookedAt := ⟨.done, rfl⟩
  refine ⟨(reset_forgets_iff rfl (Run.one hstep) hreset).mpr ?_, rfl⟩
  refine ⟨rfl, rfl, rfl, rfl, fun i queue hq => ?_⟩
  obtain ⟨hi, rfl⟩ := Device.q_eq_ok hq
  simp [blkLookedAt, blkFresh, boot, Device.fresh, Queue.ring]

/-- A queue that was made ready still reads ready after the reset. -/
theorem reset_keeps_queue_ready : ∃ moves s s' later,
    Run (guarded Step Live) blkFresh moves s ∧ Step s (store 0x070 0) s' ∧
      behaviour s' later ≠ behaviour (boot blkType { number := 5 } [] s'.guest) later := by
  let ready : State blkType :=
    { blkFresh with dev := { blkFresh.dev with queues := #v[{ ready := true }] } }
  have hstep : guarded Step Live blkFresh (store 0x044 1) ready := ⟨trivial, .done, rfl⟩
  have hreset : Step ready (store 0x070 0) ready := ⟨.done, rfl⟩
  refine ⟨_, ready, ready, [.read 0x044 4], Run.one hstep, hreset, fun h => ?_⟩
  have hreplies := congrArg (fun b => b.2.map fun x => x.map Prod.fst) h
  revert hreplies
  decide

end DeviceMachine

end Kthxvm.Virtio
