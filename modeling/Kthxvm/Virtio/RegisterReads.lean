import Kthxvm.Virtio.Mmio

/-! What a read of the register file returns, for every width of the access. -/
namespace Kthxvm.Virtio

open Lib.ByteMemory

namespace Register

/-- The registers that a read stores as a word of 32 bits, however narrow it is. -/
def isWord : Register → Bool
  | .magicValue | .version | .deviceId | .vendorId | .status | .deviceFeatures | .queueNumMax
  | .queueReady | .configGeneration | .interruptStatus => true
  | _ => false

end Register

namespace Device

variable {t : DeviceType}

def registerValue (d : Device t) : Register → UInt32
  | .magicValue => mmioMagicValue
  | .version => 2
  | .deviceId => t.deviceId
  | .vendorId => virtVendor
  | .status => d.readStatus.toUInt32
  | .deviceFeatures => d.offeredWord
  | .queueNumMax => queueSizeMax
  | .queueReady => (d.selected.toOption.map fun queue => ofBool queue.isReady).getD 0
  | .configGeneration => d.configGeneration
  | .interruptStatus => ofBool d.irqLevel
  | _ => 0

/-- A read that stores inside its buffer and returns all of it, below the configuration
structure with the low bytes of the register. -/
def ReadsWithin (d : Device t) (offset : UInt64) (size : UInt32) : Prop :=
  ∃ buf, d.mmioRead offset size = .ok buf ∧ buf.length = size.toNat ∧
    (offset < 0x100 →
      buf = bytesOfNat size.toNat (d.registerValue (Register.ofOffset offset)).toNat)

theorem putWord_ok {size : UInt32} (h : 4 ≤ size.toNat) (value : UInt32) :
    putWord size value = .ok (bytesOfNat size.toNat value.toNat) := by
  have hsize : 4 + (size.toNat - 4) = size.toNat := by omega
  have hbytes := bytesOfNat_extend (n := 4) value.toNat_lt (size.toNat - 4)
  rw [hsize] at hbytes
  rw [putWord, if_neg (by omega), hbytes]

theorem putWord_narrow {size : UInt32} (h : size.toNat < 4) (value : UInt32) :
    putWord size value = .error .hostBuffer :=
  if_pos h

theorem mmioRead_word (d : Device t) {offset : UInt64} (h : (Register.ofOffset offset).isWord)
    (hqueue : Register.ofOffset offset = .queueReady → d.queueIndex.toNat < t.queueCount)
    (size : UInt32) :
    d.mmioRead offset size = putWord size (d.registerValue (Register.ofOffset offset)) := by
  unfold mmioRead
  cases hr : Register.ofOffset offset <;> rw [hr] at h
  case queueReady =>
    have hi := hqueue hr
    have hq : d.selected = .ok d.queues[d.queueIndex.toNat] := q_of_lt d hi
    dsimp only
    rw [registerValue, hq]
    rfl
  all_goals first
    | rfl
    | exact absurd h Bool.false_ne_true

theorem mmioRead_zero (d : Device t) {offset : UInt64} (hoffset : offset < 0x100)
    (h : ¬ (Register.ofOffset offset).isWord) (size : UInt32) :
    d.mmioRead offset size = .ok (List.replicate size.toNat 0) ∧
      d.registerValue (Register.ofOffset offset) = 0 := by
  unfold mmioRead
  cases hr : Register.ofOffset offset <;> rw [hr] at h
  case config o =>
    have hle := (Register.ofOffset_config hr).2
    exact absurd hoffset (UInt64.not_lt.mpr hle)
  all_goals first
    | exact ⟨rfl, rfl⟩
    | exact absurd rfl h

/-- An access of at most eight bytes in the configuration space never wraps around. -/
theorem mmioRead_config (d : Device t) {offset : UInt64} {size : UInt32}
    (hoffset : 0x100 ≤ offset) (hsize : size.toNat ≤ 8) :
    ∃ buf, d.mmioRead offset size = .ok buf := by
  have hle : 0x100 ≤ offset.toNat := UInt64.le_iff_toNat_le.mp hoffset
  have hlt := offset.toNat_lt
  have hsub : (offset - 0x100).toNat = offset.toNat - 0x100 := UInt64.toNat_sub_of_le _ _ hoffset
  unfold mmioRead
  rw [Register.ofOffset_of_config hoffset]
  exact ⟨_, d.readConfig_eq (by omega)⟩

/-- Every read is within its buffer if and only if no word is stored in a narrower one
and the queue that is asked for exists. -/
theorem readsWithin_iff (d : Device t) (offset : UInt64) {size : UInt32}
    (hsize : size.toNat ∈ [1, 2, 4, 8]) :
    d.ReadsWithin offset size ↔
      ((Register.ofOffset offset).isWord → 4 ≤ size.toNat) ∧
        (Register.ofOffset offset = .queueReady → d.queueIndex.toNat < t.queueCount) := by
  have hle : size.toNat ≤ 8 := by
    simp only [List.mem_cons, List.not_mem_nil, or_false] at hsize
    omega
  constructor
  · rintro ⟨buf, hread, -, -⟩
    have hqueue : Register.ofOffset offset = .queueReady →
        d.queueIndex.toNat < t.queueCount := by
      intro hready
      unfold mmioRead at hread
      rw [hready] at hread
      obtain ⟨queue, hq, -⟩ := bind_eq_ok.mp hread
      exact (q_eq_ok hq).1
    refine ⟨fun hword => ?_, hqueue⟩
    by_contra hnarrow
    rw [d.mmioRead_word hword hqueue, putWord_narrow (by omega)] at hread
    contradiction
  · rintro ⟨hwide, hqueue⟩
    by_cases hword : (Register.ofOffset offset).isWord
    · have hread := d.mmioRead_word hword hqueue size
      rw [putWord_ok (hwide hword)] at hread
      exact ⟨_, hread, length_bytesOfNat _ _, fun _ => rfl⟩
    · by_cases hlow : offset < 0x100
      · obtain ⟨hread, hvalue⟩ := d.mmioRead_zero hlow hword size
        refine ⟨_, hread, List.length_replicate, fun _ => ?_⟩
        have hbytes := bytesOfNat_extend (n := 0) (v := 0) (by decide) size.toNat
        rw [hvalue]
        simpa [bytesOfNat] using hbytes.symm
      · obtain ⟨buf, hread⟩ := d.mmioRead_config (UInt64.not_lt.mp hlow) hle
        exact ⟨buf, hread, length_mmioRead hread, fun h => absurd h hlow⟩

theorem readsWithin_status : (fresh rngType ⟨7, 0, false⟩ []).ReadsWithin 0x70 4 :=
  (readsWithin_iff _ 0x70 (by decide)).mpr ⟨fun _ => by decide, fun h => absurd h (by decide)⟩

/-- A guest that loads a single byte of the magic value has the host store four
bytes into a buffer of one. -/
theorem magic_byte_overflows :
    ¬ ∀ (d : Device rngType) (offset : UInt64) (size : UInt32), size.toNat ∈ [1, 2, 4, 8] →
      d.ReadsWithin offset size := by
  intro h
  obtain ⟨buf, hread, -⟩ := h (fresh rngType ⟨7, 0, false⟩ []) 0 1 (by decide)
  have hfault : (fresh rngType ⟨7, 0, false⟩ []).mmioRead 0 1 = .error .hostBuffer := rfl
  rw [hfault] at hread
  contradiction

end Device

end Kthxvm.Virtio
