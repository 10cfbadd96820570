import Kthxvm.Interrupt
import Kthxvm.Virtio.Queue

/-! The state of a virtio device of `device.h`. What `blk`, `net` and `rng`
override is a `DeviceType`; everything else is common to the three. -/
namespace Kthxvm.Virtio

open Lib.ByteMemory

/-- The virtual functions of a device. A device without a configuration
structure rejects every access to it. -/
structure DeviceType where
  deviceId : UInt32
  queueCount : Nat
  features : UInt32
  /-- `rng` has no configuration structure -/
  hasConfig : Bool

structure Device (t : DeviceType) where
  driverFeatures : UInt64 := 0
  queueIndex : UInt32 := 0
  deviceFeatureSel : Bool := false
  driverFeatureSel : Bool := false
  irq : Interrupt
  status : UInt8 := 0
  queues : Vector Queue t.queueCount
  /-- the bytes of the configuration structure, as many as its `sizeof` -/
  config : List UInt8
  generation : UInt32 := 0

namespace Device

variable {t : DeviceType}

/-- A device as its constructor leaves it; the interrupt is registered before. -/
def fresh (t : DeviceType) (irq : Interrupt) (config : List UInt8) : Device t where
  irq := irq
  queues := Vector.replicate t.queueCount {}
  config := config

def readStatus (d : Device t) : UInt8 := d.status

/-- The status is stored in a single byte; no value of it is treated specially. -/
def writeStatus (d : Device t) (update : UInt32) : Device t :=
  { d with status := update.toUInt8 }

def irqLevel (d : Device t) : Bool := d.irq.level

def irqAck (d : Device t) : Device t := { d with irq := d.irq.setLevel false }

/-- `q(index)`: an unchecked index into the array of queues. -/
def q (d : Device t) (index : UInt32) : Except Fault Queue :=
  if h : index.toNat < t.queueCount then .ok d.queues[index.toNat]
  else .error (.queue index.toNat)

def selected (d : Device t) : Except Fault Queue := d.q d.queueIndex

def setQ (d : Device t) (index : UInt32) (queue : Queue) : Device t :=
  if h : index.toNat < t.queueCount then
    { d with queues := d.queues.set index.toNat queue }
  else d

def updateSelected (d : Device t) (f : Queue → Queue) : Except Fault (Device t) := do
  let queue ← d.selected
  return d.setQ d.queueIndex (f queue)

/-- The test `(offset + size) > sizeof(config)`, in 64-bit arithmetic. -/
def configRejects (d : Device t) (offset : UInt64) (size : UInt32) : Bool :=
  d.config.length < (offset + size.toUInt64).toNat

/-- `read` of the derived class: a rejected read returns zeros. -/
def readConfig (d : Device t) (offset : UInt64) (size : UInt32) :
    Except Fault (List UInt8) :=
  if !t.hasConfig || d.configRejects offset size then
    .ok (List.replicate size.toNat 0)
  -- an offset that wraps past the test leaves the structure
  else if offset.toNat + size.toNat ≤ d.config.length then
    .ok ((d.config.drop offset.toNat).take size.toNat)
  else .error .hostBuffer

def writeConfig (d : Device t) (data : List UInt8) (offset : UInt64) (size : UInt32) :
    Except Fault (Device t) :=
  if !t.hasConfig || d.configRejects offset size then .ok d
  else if offset.toNat + size.toNat ≤ d.config.length ∧ size.toNat ≤ data.length then
    .ok { d with
      config := d.config.take offset.toNat ++ data.take size.toNat ++
        d.config.drop (offset.toNat + size.toNat)
      generation := d.generation + 1 }
  else .error .hostBuffer

/-- The slice that a read returns unless it reaches past the structure. -/
theorem readConfig_eq (d : Device t) {offset : UInt64} {size : UInt32}
    (h : offset.toNat + size.toNat < 2 ^ 64) :
    d.readConfig offset size = .ok
      (if t.hasConfig ∧ offset.toNat + size.toNat ≤ d.config.length then
        (d.config.drop offset.toNat).take size.toNat else List.replicate size.toNat 0) := by
  have hsum : (offset + size.toUInt64).toNat = offset.toNat + size.toNat := by
    rw [UInt64.toNat_add, UInt32.toNat_toUInt64, Nat.mod_eq_of_lt h]
  unfold readConfig configRejects
  rw [hsum]
  by_cases hc : t.hasConfig
  · by_cases hfits : offset.toNat + size.toNat ≤ d.config.length
    · rw [if_neg (by simp [hc, hfits]), if_pos hfits, if_pos ⟨hc, hfits⟩]
    · rw [if_pos (by simp [not_le.mp hfits]), if_neg fun h => hfits h.2]
  · rw [if_pos (by simp [hc]), if_neg fun h => hc h.1]

theorem length_readConfig {d : Device t} {offset : UInt64} {size : UInt32} {buf : List UInt8}
    (h : d.readConfig offset size = .ok buf) : buf.length = size.toNat := by
  unfold readConfig at h
  split at h
  · cases h
    exact List.length_replicate
  · split at h
    · cases h
      rw [List.length_take, List.length_drop]
      omega
    · contradiction

def configGeneration (d : Device t) : UInt32 := d.generation

@[simp] theorem q_of_lt (d : Device t) {index : UInt32}
    (h : index.toNat < t.queueCount) : d.q index = .ok d.queues[index.toNat] :=
  dif_pos h

theorem q_eq_ok {d : Device t} {index : UInt32} {queue : Queue}
    (h : d.q index = .ok queue) :
    ∃ hi : index.toNat < t.queueCount, queue = d.queues[index.toNat] := by
  unfold q at h
  split at h
  · rename_i hi
    exact ⟨hi, (Except.ok.inj h).symm⟩
  · contradiction

theorem setQ_of_lt (d : Device t) {index : UInt32} (h : index.toNat < t.queueCount)
    (queue : Queue) :
    d.setQ index queue = { d with queues := d.queues.set index.toNat queue } :=
  dif_pos h

theorem setQ_eq_queues (d : Device t) (index : UInt32) (queue : Queue) :
    ∃ queues, d.setQ index queue = { d with queues := queues } := by
  unfold setQ
  split
  · exact ⟨_, rfl⟩
  · exact ⟨d.queues, rfl⟩

@[simp] theorem setQ_config (d : Device t) (index : UInt32) (queue : Queue) :
    (d.setQ index queue).config = d.config := by
  obtain ⟨queues, h⟩ := d.setQ_eq_queues index queue
  rw [h]

@[simp] theorem setQ_generation (d : Device t) (index : UInt32) (queue : Queue) :
    (d.setQ index queue).generation = d.generation := by
  obtain ⟨queues, h⟩ := d.setQ_eq_queues index queue
  rw [h]

@[simp] theorem setQ_queueIndex (d : Device t) (index : UInt32) (queue : Queue) :
    (d.setQ index queue).queueIndex = d.queueIndex := by
  obtain ⟨queues, h⟩ := d.setQ_eq_queues index queue
  rw [h]

@[simp] theorem setQ_driverFeatures (d : Device t) (index : UInt32) (queue : Queue) :
    (d.setQ index queue).driverFeatures = d.driverFeatures := by
  obtain ⟨queues, h⟩ := d.setQ_eq_queues index queue
  rw [h]

@[simp] theorem setQ_irq (d : Device t) (index : UInt32) (queue : Queue) :
    (d.setQ index queue).irq = d.irq := by
  obtain ⟨queues, h⟩ := d.setQ_eq_queues index queue
  rw [h]

theorem q_congr {d d' : Device t} (h : d'.queues = d.queues) (i : UInt32) : d'.q i = d.q i := by
  unfold q
  simp only [h]

theorem q_setQ {d : Device t} {i j : UInt32} {old : Queue} (h : d.q i = .ok old) (queue : Queue) :
    (d.setQ i queue).q j = if i = j then .ok queue else d.q j := by
  obtain ⟨hi, -⟩ := q_eq_ok h
  rw [setQ_of_lt d hi]
  unfold q
  by_cases hij : i = j
  · subst hij
    rw [dif_pos hi, if_pos rfl]
    simp
  · have hne : i.toNat ≠ j.toNat := fun h => hij (UInt32.toNat_inj.mp h)
    rw [if_neg hij]
    split
    · simp [Vector.getElem_set_ne _ _ hne]
    · rfl

theorem forall_q_setQ {P : Queue → Prop} {d : Device t} {i : UInt32} {old new : Queue}
    (h : ∀ j queue, d.q j = .ok queue → P queue) (hold : d.q i = .ok old) (hnew : P new) :
    ∀ j queue, (d.setQ i new).q j = .ok queue → P queue := by
  intro j queue hq
  rw [q_setQ hold] at hq
  split at hq
  · cases hq
    exact hnew
  · exact h j queue hq

theorem fresh_q (irq : Interrupt) (config : List UInt8) {i : UInt32}
    (hi : i.toNat < t.queueCount) : (fresh t irq config).q i = .ok {} := by
  rw [q_of_lt _ hi]
  simp [fresh]

theorem setQ_self {d : Device t} {i : UInt32} {queue : Queue} (h : d.q i = .ok queue) :
    d.setQ i queue = d := by
  obtain ⟨hi, rfl⟩ := q_eq_ok h
  rw [setQ_of_lt d hi, Vector.set_getElem_self]

theorem updateSelected_ok {d d' : Device t} {f : Queue → Queue} (h : d.updateSelected f = .ok d') :
    ∃ queue, d.selected = .ok queue ∧ d' = d.setQ d.queueIndex (f queue) := by
  obtain ⟨queue, hq, h⟩ := bind_eq_ok.mp h
  exact ⟨queue, hq, (Except.ok.inj h).symm⟩

end Device

/-! The virtio devices of the machine. -/

/-- `blk::features`: `SIZE_MAX` (1), `SEG_MAX` (2) and `EVENT_IDX` (29). -/
def blkType : DeviceType where
  deviceId := 2
  queueCount := 1
  features := ((1 : UInt32) <<< 1) ||| ((1 : UInt32) <<< 2) ||| ((1 : UInt32) <<< 29)
  hasConfig := true

/-- `net::features`: `MAC` (5), `CSUM` (0), `HOST_TSO4` (11), `GUEST_TSO4` (7),
`HOST_TSO6` (12), `GUEST_TSO6` (8), `HOST_UFO` (14) and `GUEST_UFO` (10). -/
def netType : DeviceType where
  deviceId := 1
  queueCount := 3
  features := ((1 : UInt32) <<< 5) ||| ((1 : UInt32) <<< 0) ||| ((1 : UInt32) <<< 11) |||
    ((1 : UInt32) <<< 7) ||| ((1 : UInt32) <<< 12) ||| ((1 : UInt32) <<< 8) |||
    ((1 : UInt32) <<< 14) ||| ((1 : UInt32) <<< 10)
  hasConfig := true

def rngType : DeviceType where
  deviceId := 4
  queueCount := 1
  features := 0
  hasConfig := false

end Kthxvm.Virtio
