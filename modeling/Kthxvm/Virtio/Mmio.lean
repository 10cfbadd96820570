import Kthxvm.Lib.Triple
import Kthxvm.Virtio.Device

/-! The register file of `mmio_device_holder` in `mmio.h`. -/
namespace Kthxvm.Virtio

open Lib.ByteMemory Lib.Triple

inductive Register where
  | magicValue | version | deviceId | vendorId
  | deviceFeatures | deviceFeaturesSel | driverFeatures | driverFeaturesSel
  | guestPageSize | queueSel | queueNumMax | queueNum | queueAlign | queueReady
  | queueNotify | interruptStatus | interruptAck | status
  | queueDescLow | queueDescHigh | queueAvailLow | queueAvailHigh
  | queueUsedLow | queueUsedHigh | configGeneration
  | config (offset : UInt64)
  | unhandled
deriving DecidableEq

/-- The offsets of `linux/virtio_mmio.h`; `VIRTIO_MMIO_CONFIG` is `0x100`. -/
def Register.ofOffset (offset : UInt64) : Register :=
  match offset.toNat with
  | 0x000 => .magicValue
  | 0x004 => .version
  | 0x008 => .deviceId
  | 0x00c => .vendorId
  | 0x010 => .deviceFeatures
  | 0x014 => .deviceFeaturesSel
  | 0x020 => .driverFeatures
  | 0x024 => .driverFeaturesSel
  | 0x028 => .guestPageSize
  | 0x030 => .queueSel
  | 0x034 => .queueNumMax
  | 0x038 => .queueNum
  | 0x03c => .queueAlign
  | 0x044 => .queueReady
  | 0x050 => .queueNotify
  | 0x060 => .interruptStatus
  | 0x064 => .interruptAck
  | 0x070 => .status
  | 0x080 => .queueDescLow
  | 0x084 => .queueDescHigh
  | 0x090 => .queueAvailLow
  | 0x094 => .queueAvailHigh
  | 0x0a0 => .queueUsedLow
  | 0x0a4 => .queueUsedHigh
  | 0x0fc => .configGeneration
  | _ => if 0x100 ≤ offset then .config (offset - 0x100) else .unhandled

theorem Register.ofOffset_config {offset o : UInt64} (h : ofOffset offset = .config o) :
    o = offset - 0x100 ∧ 0x100 ≤ offset := by
  unfold ofOffset at h
  split at h
  case h_26 =>
    split at h
    · rename_i hle
      cases h
      exact ⟨rfl, hle⟩
    · contradiction
  all_goals contradiction

theorem Register.ofOffset_of_config {offset : UInt64} (h : 0x100 ≤ offset) :
    ofOffset offset = .config (offset - 0x100) := by
  have hle : 0x100 ≤ offset.toNat := UInt64.le_iff_toNat_le.mp h
  unfold ofOffset
  split
  case h_26 => exact if_pos h
  all_goals omega

def mmioMagicValue : UInt32 := 0x74726976
def virtVendor : UInt32 := 0x4b544858

namespace Device

variable {t : DeviceType}

def putWord (size : UInt32) (value : UInt32) : Except Fault (List UInt8) :=
  if size.toNat < 4 then .error .hostBuffer
  else .ok (bytesOfNat 4 value.toNat ++ List.replicate (size.toNat - 4) 0)

theorem length_putWord {size value : UInt32} {buf : List UInt8}
    (h : putWord size value = .ok buf) : buf.length = size.toNat := by
  unfold putWord at h
  split at h
  · contradiction
  · cases h
    rw [List.length_append, length_bytesOfNat, List.length_replicate]
    omega

/-- `*((__u32 *)data)`: four bytes are loaded whatever the access width is. -/
def getWord (data : List UInt8) : Except Fault UInt32 :=
  if data.length < 4 then .error .hostBuffer
  else .ok (UInt32.ofNat (natOfBytes (data.take 4)))

@[simp] theorem getWord_store (value : UInt32) :
    getWord (bytesOfNat 4 value.toNat) = .ok value := by
  unfold getWord
  have htake : (bytesOfNat 4 value.toNat).take 4 = bytesOfNat 4 value.toNat := by
    apply List.take_of_length_le
    simp
  rw [if_neg (by simp), htake, natOfBytes_bytesOfNat]
  simp

def ofBool (b : Bool) : UInt32 := if b then 0x1 else 0x0

/-- The word that a read of `DEVICE_FEATURES` stores. `VIRTIO_F_VERSION_1` is bit 32. -/
def offeredWord (d : Device t) : UInt32 :=
  let features := t.features.toUInt64 ||| ((1 : UInt64) <<< 32)
  let shift : UInt64 := if d.deviceFeatureSel then 32 else 0
  ((features >>> shift) &&& 0xFFFFFF).toUInt32

def mmioRead (d : Device t) (offset : UInt64) (size : UInt32) :
    Except Fault (List UInt8) :=
  match Register.ofOffset offset with
  | .magicValue => putWord size mmioMagicValue
  | .version => putWord size 2
  | .deviceId => putWord size t.deviceId
  | .vendorId => putWord size virtVendor
  | .status => putWord size d.readStatus.toUInt32
  | .deviceFeatures => putWord size d.offeredWord
  | .queueNumMax => putWord size queueSizeMax
  | .queueReady => do
      let queue ← d.selected
      putWord size (ofBool queue.isReady)
  | .configGeneration => putWord size d.configGeneration
  | .interruptStatus => putWord size (ofBool d.irqLevel)
  | .config offset => d.readConfig offset size
  -- write-only and unhandled registers leave the buffer at zero
  | .deviceFeaturesSel | .driverFeatures | .driverFeaturesSel | .guestPageSize
  | .queueSel | .queueNum | .queueAlign | .queueNotify | .interruptAck
  | .queueDescLow | .queueDescHigh | .queueAvailLow | .queueAvailHigh
  | .queueUsedLow | .queueUsedHigh | .unhandled => .ok (List.replicate size.toNat 0)

theorem length_mmioRead {d : Device t} {offset : UInt64} {size : UInt32} {buf : List UInt8}
    (h : d.mmioRead offset size = .ok buf) : buf.length = size.toNat := by
  unfold mmioRead at h
  split at h
  case h_8 =>
    obtain ⟨queue, -, h⟩ := bind_eq_ok.mp h
    exact length_putWord h
  case h_11 => exact length_readConfig h
  all_goals first
    | exact length_putWord h
    | cases h
      exact List.length_replicate

/-- `mmio_device_holder::write` once the value has been loaded; `data` and
`size` only matter to the configuration structure. -/
def writeRegister (d : Device t) (register : Register) (value : UInt32)
    (data : List UInt8) (size : UInt32) : Except Fault (Device t) :=
  match register with
  | .status => .ok (d.writeStatus value)
  | .deviceFeaturesSel => .ok { d with deviceFeatureSel := value = 1 }
  | .driverFeatures =>
      let shift : UInt64 := if d.driverFeatureSel then 32 else 0
      .ok { d with driverFeatures := d.driverFeatures ||| (value.toUInt64 <<< shift) }
  | .driverFeaturesSel => .ok { d with driverFeatureSel := value = 1 }
  | .queueSel => .ok { d with queueIndex := value }
  | .queueNum => d.updateSelected fun q => { q with size := value }
  | .queueReady => d.updateSelected Queue.setReady
  | .queueNotify => do
      let queue ← d.q value
      return d.setQ value queue.setNotify
  | .queueDescLow => d.updateSelected fun q =>
      { q with descAddr := q.descAddr ||| (value.toUInt64 <<< 0) }
  | .queueDescHigh => d.updateSelected fun q =>
      { q with descAddr := q.descAddr ||| (value.toUInt64 <<< 32) }
  | .queueAvailLow => d.updateSelected fun q =>
      { q with availAddr := q.availAddr ||| (value.toUInt64 <<< 0) }
  | .queueAvailHigh => d.updateSelected fun q =>
      { q with availAddr := q.availAddr ||| (value.toUInt64 <<< 32) }
  | .queueUsedLow => d.updateSelected fun q =>
      { q with usedAddr := q.usedAddr ||| (value.toUInt64 <<< 0) }
  | .queueUsedHigh => d.updateSelected fun q =>
      { q with usedAddr := q.usedAddr ||| (value.toUInt64 <<< 32) }
  | .interruptAck => if value = 0x1 then .ok d.irqAck else .ok d
  | .config offset => d.writeConfig data offset size
  -- read-only and unhandled registers ignore the write
  | .magicValue | .version | .deviceId | .vendorId | .deviceFeatures
  | .queueNumMax | .interruptStatus | .configGeneration | .guestPageSize
  | .queueAlign | .unhandled => .ok d

def mmioWrite (d : Device t) (data : List UInt8) (offset : UInt64) (size : UInt32) :
    Except Fault (Device t) := do
  let value ← getWord data
  d.writeRegister (Register.ofOffset offset) value data size

end Device

def Register.program (register : Register) (value : UInt32) : Option (Queue → Queue) :=
  match register with
  | .queueNum => some fun q => { q with size := value }
  | .queueReady => some Queue.setReady
  | .queueDescLow => some fun q => { q with descAddr := q.descAddr ||| (value.toUInt64 <<< 0) }
  | .queueDescHigh => some fun q => { q with descAddr := q.descAddr ||| (value.toUInt64 <<< 32) }
  | .queueAvailLow => some fun q =>
      { q with availAddr := q.availAddr ||| (value.toUInt64 <<< 0) }
  | .queueAvailHigh => some fun q =>
      { q with availAddr := q.availAddr ||| (value.toUInt64 <<< 32) }
  | .queueUsedLow => some fun q => { q with usedAddr := q.usedAddr ||| (value.toUInt64 <<< 0) }
  | .queueUsedHigh => some fun q => { q with usedAddr := q.usedAddr ||| (value.toUInt64 <<< 32) }
  | _ => none

namespace Register

variable {register : Register} {value : UInt32} {f : Queue → Queue}

theorem program_lastAvail (h : register.program value = some f) (q : Queue) :
    (f q).lastAvail = q.lastAvail := by
  cases register <;> cases h <;> rfl

theorem program_size (h : register.program value = some f) (q : Queue) :
    (f q).size = if register = .queueNum then value else q.size := by
  cases register <;> cases h <;> rfl

theorem program_ready (h : register.program value = some f) (q : Queue) :
    (f q).ready = if register = .queueReady then true else q.ready := by
  cases register <;> cases h <;> rfl

end Register

namespace Device

variable {t : DeviceType}

theorem writeRegister_driverFeatures {d d' : Device t} {register : Register}
    {value : UInt32} {data : List UInt8} {size : UInt32}
    (h : d.writeRegister register value data size = .ok d') :
    d'.driverFeatures = if register = .driverFeatures then
      d.driverFeatures ||| (value.toUInt64 <<< (if d.driverFeatureSel then 32 else 0))
      else d.driverFeatures := by
  cases register
  case queueNotify =>
    obtain ⟨queue, -, h⟩ := bind_eq_ok.mp h
    cases h
    rw [setQ_driverFeatures, if_neg (by simp)]
  case queueNum | queueReady | queueDescLow | queueDescHigh | queueAvailLow | queueAvailHigh
      | queueUsedLow | queueUsedHigh =>
    obtain ⟨queue, -, rfl⟩ := updateSelected_ok h
    rw [setQ_driverFeatures, if_neg (by simp)]
  case config offset =>
    unfold writeRegister writeConfig at h
    simp only at h
    split at h
    · cases h
      rw [if_neg (by simp)]
    · split at h
      · cases h
        rw [if_neg (by simp)]
      · contradiction
  case interruptAck =>
    unfold writeRegister at h
    simp only at h
    split at h
    · cases h
      rw [if_neg (by simp)]
      rfl
    · cases h
      rw [if_neg (by simp)]
  all_goals
    cases h
    rfl

/-- The registers that program the selected queue do nothing else. -/
theorem writeRegister_program {register : Register} {value : UInt32} {f : Queue → Queue}
    (h : register.program value = some f) (d : Device t) (data : List UInt8) (size : UInt32) :
    d.writeRegister register value data size = d.updateSelected f := by
  cases register
  case queueNum | queueReady | queueDescLow | queueDescHigh | queueAvailLow | queueAvailHigh
      | queueUsedLow | queueUsedHigh =>
    cases h
    rfl
  all_goals contradiction

theorem writeRegister_other {register : Register} {value : UInt32}
    (h : register.program value = none) (hn : register ≠ .queueNotify) (d : Device t)
    (data : List UInt8) (size : UInt32) :
    Meets (· = .hostBuffer) (d.writeRegister register value data size) fun d' =>
      d'.queues = d.queues ∧
        d'.queueIndex = if register = .queueSel then value else d.queueIndex := by
  cases register
  case queueNum | queueReady | queueDescLow | queueDescHigh | queueAvailLow | queueAvailHigh
      | queueUsedLow | queueUsedHigh => contradiction
  case queueNotify => contradiction
  case config offset =>
    unfold writeRegister writeConfig
    dsimp only
    split
    · exact ⟨rfl, rfl⟩
    · split
      · exact ⟨rfl, rfl⟩
      · exact rfl
  case interruptAck =>
    unfold writeRegister
    dsimp only
    split <;> exact ⟨rfl, rfl⟩
  all_goals exact ⟨rfl, rfl⟩

/-- A queue after a register write is the queue it was, with one field programmed
or one notification more. -/
theorem writeRegister_q {d d' : Device t} {register : Register} {value : UInt32}
    {data : List UInt8} {size i : UInt32} {new : Queue}
    (h : d.writeRegister register value data size = .ok d') (hnew : d'.q i = .ok new) :
    ∃ old, d.q i = .ok old ∧
      (new = old ∨ new = old.setNotify ∨ ∃ f, register.program value = some f ∧ new = f old) := by
  have hset : ∀ {index : UInt32} {queue : Queue} (f : Queue → Queue), d.q index = .ok queue →
      d' = d.setQ index (f queue) → ∃ old, d.q i = .ok old ∧ (new = old ∨ new = f old) := by
    rintro index queue f hq rfl
    rw [q_setQ hq] at hnew
    split at hnew
    · rename_i hi
      exact ⟨queue, hi ▸ hq, Or.inr (Except.ok.inj hnew).symm⟩
    · exact ⟨new, hnew, Or.inl rfl⟩
  cases hp : register.program value with
  | some f =>
    rw [writeRegister_program hp] at h
    obtain ⟨queue, hq, rfl⟩ := updateSelected_ok h
    obtain ⟨old, hold, hnew⟩ := hset f hq rfl
    refine ⟨old, hold, hnew.imp id fun hf => Or.inr ⟨f, rfl, hf⟩⟩
  | none =>
    by_cases hn : register = .queueNotify
    · subst hn
      obtain ⟨queue, hq, h⟩ := bind_eq_ok.mp h
      obtain ⟨old, hold, hnew⟩ := hset Queue.setNotify hq (Except.ok.inj h).symm
      exact ⟨old, hold, hnew.imp id Or.inl⟩
    · have hmeets := writeRegister_other hp hn d data size
      rw [h] at hmeets
      rw [q_congr hmeets.1] at hnew
      exact ⟨new, hnew, Or.inl rfl⟩

theorem writeRegister_lastAvail {d d' : Device t} {register : Register} {value : UInt32}
    {data : List UInt8} {size i : UInt32} {new : Queue}
    (h : d.writeRegister register value data size = .ok d') (hnew : d'.q i = .ok new) :
    ∃ old, d.q i = .ok old ∧ new.lastAvail = old.lastAvail := by
  obtain ⟨old, hold, rfl | rfl | ⟨f, hf, rfl⟩⟩ := writeRegister_q h hnew
  · exact ⟨_, hold, rfl⟩
  · exact ⟨_, hold, rfl⟩
  · exact ⟨_, hold, Register.program_lastAvail hf old⟩

end Device

end Kthxvm.Virtio
