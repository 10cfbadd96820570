import Kthxvm.Virtio.Programming

/-! Feature negotiation through the two selectors. The offer is masked to 24 bits
of the selected half, and the accepted words are ORed together. -/
namespace Kthxvm.Virtio

open Lib.ByteMemory Lib.Halves

inductive FeatureRegister where
  | deviceFeaturesSel | driverFeaturesSel | driverFeatures
deriving DecidableEq

namespace FeatureRegister

def offset : FeatureRegister → UInt64
  | deviceFeaturesSel => 0x014
  | driverFeaturesSel => 0x024
  | driverFeatures => 0x020

end FeatureRegister

abbrev FeatureWrites := List (FeatureRegister × UInt32)

/-- The selector that was written last to `register`; `sel` is the one before. -/
def lastSelector (register : FeatureRegister) (sel : UInt32) (writes : FeatureWrites) : UInt32 :=
  ((writes.filter (·.1 = register)).map Prod.snd).getLastD sel

theorem lastSelector_cons (register : FeatureRegister) (sel : UInt32)
    (w : FeatureRegister × UInt32) (writes : FeatureWrites) :
    lastSelector register sel (w :: writes) =
      lastSelector register (if w.1 = register then w.2 else sel) writes := by
  unfold lastSelector
  rw [List.filter_cons]
  by_cases hw : w.1 = register
  · rw [if_pos (decide_eq_true hw), if_pos hw, List.map_cons, List.getLastD_cons]
  · rw [if_neg (by simpa using hw), if_neg hw]

def acceptedUnder : UInt32 → FeatureWrites → List (UInt32 × UInt32)
  | _, [] => []
  | sel, (.deviceFeaturesSel, _) :: writes => acceptedUnder sel writes
  | _, (.driverFeaturesSel, value) :: writes => acceptedUnder value writes
  | sel, (.driverFeatures, value) :: writes => (sel, value) :: acceptedUnder sel writes

def wordsUnder (p : UInt32 → Bool) (accepted : List (UInt32 × UInt32)) : List UInt32 :=
  (accepted.filter fun w => p w.1).map Prod.snd

theorem wordsUnder_cons (p : UInt32 → Bool) (w : UInt32 × UInt32)
    (accepted : List (UInt32 × UInt32)) :
    wordsUnder p (w :: accepted) =
      if p w.1 then w.2 :: wordsUnder p accepted else wordsUnder p accepted := by
  unfold wordsUnder
  rw [List.filter_cons]
  split <;> rfl

theorem mem_wordsUnder_of_imp {p p' : UInt32 → Bool} (hp : ∀ sel, p sel → p' sel)
    {v : UInt32} {accepted : List (UInt32 × UInt32)} (h : v ∈ wordsUnder p accepted) :
    v ∈ wordsUnder p' accepted := by
  obtain ⟨w, hw, rfl⟩ := List.mem_map.mp h
  obtain ⟨hmem, hsel⟩ := List.mem_filter.mp hw
  exact List.mem_map_of_mem (List.mem_filter.mpr ⟨hmem, hp _ hsel⟩)

namespace Device

variable {t : DeviceType}

def storeFeatures (d : Device t) (writes : FeatureWrites) : Except Fault (Device t) :=
  d.storeWords (writes.map fun w => (w.1.offset, w.2))

def loadDeviceFeatures (d : Device t) : Except Fault UInt32 := do
  let data ← d.mmioRead 0x010 4
  getWord data

theorem loadDeviceFeatures_eq (d : Device t) : d.loadDeviceFeatures = .ok d.offeredWord := by
  have hread : d.mmioRead 0x010 4 = .ok (bytesOfNat 4 d.offeredWord.toNat ++ []) := rfl
  unfold loadDeviceFeatures
  rw [hread, List.append_nil]
  exact getWord_store _

theorem storeFeatures_cons (d : Device t) (register : FeatureRegister) (value : UInt32)
    (writes : FeatureWrites) :
    d.storeFeatures ((register, value) :: writes) =
      d.storeWord register.offset value >>= fun d => d.storeFeatures writes := rfl

theorem storeWord_deviceFeaturesSel (d : Device t) (value : UInt32) :
    d.storeWord FeatureRegister.deviceFeaturesSel.offset value =
      .ok { d with deviceFeatureSel := value = 1 } := by
  rw [storeWord_eq]
  rfl

theorem storeWord_driverFeaturesSel (d : Device t) (value : UInt32) :
    d.storeWord FeatureRegister.driverFeaturesSel.offset value =
      .ok { d with driverFeatureSel := value = 1 } := by
  rw [storeWord_eq]
  rfl

theorem storeWord_driverFeatures (d : Device t) (value : UInt32) :
    d.storeWord FeatureRegister.driverFeatures.offset value =
      .ok { d with driverFeatures := d.driverFeatures |||
        (value.toUInt64 <<< if d.driverFeatureSel then 32 else 0) } := by
  rw [storeWord_eq]
  rfl

/-- The state of a negotiation: the selectors last written and, in each half, the
bits of every word accepted. -/
structure Negotiated (d : Device t) (deviceSel driverSel low high : UInt32) : Prop where
  deviceSel : d.deviceFeatureSel = (deviceSel = 1 : Bool)
  driverSel : d.driverFeatureSel = (driverSel = 1 : Bool)
  accepted : d.driverFeatures = join low high

theorem storeFeatures_negotiated {d : Device t} {deviceSel driverSel low high : UInt32}
    (h : Negotiated d deviceSel driverSel low high) (writes : FeatureWrites) :
    ∃ d', d.storeFeatures writes = .ok d' ∧
      Negotiated d' (lastSelector .deviceFeaturesSel deviceSel writes)
        (lastSelector .driverFeaturesSel driverSel writes)
        (low ||| orAll (wordsUnder (· ≠ 1) (acceptedUnder driverSel writes)))
        (high ||| orAll (wordsUnder (· = 1) (acceptedUnder driverSel writes))) := by
  induction writes generalizing d deviceSel driverSel low high with
  | nil =>
    refine ⟨d, rfl, ?_⟩
    simpa [lastSelector, acceptedUnder, wordsUnder] using h
  | cons w writes ih =>
    obtain ⟨register, value⟩ := w
    rw [storeFeatures_cons]
    cases register with
    | deviceFeaturesSel =>
      rw [storeWord_deviceFeaturesSel, lastSelector_cons, lastSelector_cons]
      have hstep : Negotiated { d with deviceFeatureSel := value = 1 } value driverSel low high :=
        { h with deviceSel := rfl }
      exact ih hstep
    | driverFeaturesSel =>
      rw [storeWord_driverFeaturesSel, lastSelector_cons, lastSelector_cons]
      have hstep : Negotiated { d with driverFeatureSel := value = 1 } deviceSel value low high :=
        { h with driverSel := rfl }
      exact ih hstep
    | driverFeatures =>
      rw [storeWord_driverFeatures, lastSelector_cons, lastSelector_cons]
      have haccepted : acceptedUnder driverSel ((.driverFeatures, value) :: writes) =
          (driverSel, value) :: acceptedUnder driverSel writes := rfl
      rw [haccepted, wordsUnder_cons (· ≠ 1), wordsUnder_cons (· = 1)]
      by_cases hsel : driverSel = 1
      · have hstep : Negotiated { d with driverFeatures := d.driverFeatures |||
            (value.toUInt64 <<< if d.driverFeatureSel then 32 else 0) } deviceSel driverSel low
            (high ||| value) := by
          refine { h with accepted := ?_ }
          rw [h.driverSel, h.accepted, hsel]
          exact join_or_high low high value
        have hrest := ih hstep
        rw [UInt32.or_assoc] at hrest
        have hlow : ¬ decide (driverSel ≠ 1) = true := by simp [hsel]
        rw [if_neg hlow, if_pos (decide_eq_true hsel)]
        exact hrest
      · have hstep : Negotiated { d with driverFeatures := d.driverFeatures |||
            (value.toUInt64 <<< if d.driverFeatureSel then 32 else 0) } deviceSel driverSel
            (low ||| value) high := by
          refine { h with accepted := ?_ }
          rw [h.driverSel, h.accepted, decide_eq_false hsel]
          exact join_or_low low high value
        have hrest := ih hstep
        rw [UInt32.or_assoc] at hrest
        have hhigh : ¬ decide (driverSel = 1) = true := by simp [hsel]
        rw [if_pos (decide_eq_true hsel), if_neg hhigh]
        exact hrest

def offered (t : DeviceType) : UInt64 := t.features.toUInt64 ||| ((1 : UInt64) <<< 32)

theorem offered_toNat (t : DeviceType) : (offered t).toNat = 2 ^ 32 + t.features.toNat := by
  have hjoin : offered t = join t.features 1 := rfl
  rw [hjoin, join_toNat]
  rfl

/-- The offer as `DEVICE_FEATURES` shows it: 24 bits of one of the two halves. -/
theorem offeredWord_toNat (d : Device t) :
    d.offeredWord.toNat = if d.deviceFeatureSel then 1 else t.features.toNat % 2 ^ 24 := by
  have hmask (w : UInt64) : (w &&& 0xFFFFFF).toUInt32.toNat = w.toNat % 2 ^ 24 := by
    have hand : (w &&& 0xFFFFFF).toNat = w.toNat % 2 ^ 24 := by
      rw [UInt64.toNat_and]
      exact Nat.and_two_pow_sub_one_eq_mod _ 24
    rw [UInt64.toNat_toUInt32, hand]
    omega
  have hword : d.offeredWord =
      ((offered t >>> (if d.deviceFeatureSel then 32 else 0)) &&& 0xFFFFFF).toUInt32 := rfl
  have hlt := t.features.toNat_lt
  rw [hword, hmask, UInt64.toNat_shiftRight, offered_toNat]
  cases d.deviceFeatureSel
  · change (2 ^ 32 + t.features.toNat) >>> 0 % 2 ^ 24 = t.features.toNat % 2 ^ 24
    rw [Nat.shiftRight_zero]
    omega
  · change (2 ^ 32 + t.features.toNat) >>> 32 % 2 ^ 24 = 1
    rw [Nat.shiftRight_eq_div_pow]
    omega

end Device

/-- The ideal negotiation: the driver reads the half of the offer that it
selected, and each half of what it accepted is the last word it wrote there. -/
structure Lossless (t : DeviceType) (writes : FeatureWrites) (reads : UInt32)
    (driverFeatures : UInt64) : Prop where
  offered : reads.toNat = (Device.offered t).toNat /
    2 ^ (32 * (lastSelector .deviceFeaturesSel 0 writes).toNat) % 2 ^ 32
  low : driverFeatures.toNat % 2 ^ 32 = (last (wordsUnder (· = 0) (acceptedUnder 0 writes))).toNat
  high : driverFeatures.toNat / 2 ^ 32 = (last (wordsUnder (· = 1) (acceptedUnder 0 writes))).toNat

/-- The bits that the 24-bit mask and the decoding of the selector lose are zero. -/
def Shown (t : DeviceType) (sel : UInt32) : Prop :=
  (sel = 0 → t.features.toNat < 2 ^ 24) ∧ (2 ≤ sel.toNat → t.features.toNat % 2 ^ 24 = 0)

/-- No word takes a bit back, and a word written under a selector that names no
half has only bits of the low one. -/
structure NothingWithdrawn (accepted : List (UInt32 × UInt32)) : Prop where
  low : ∀ v ∈ wordsUnder (· ≠ 1) accepted,
    v ||| last (wordsUnder (· = 0) accepted) = last (wordsUnder (· = 0) accepted)
  high : Growing (wordsUnder (· = 1) accepted)

theorem shown_iff (t : DeviceType) (sel : UInt32) :
    (if sel = 1 then 1 else t.features.toNat % 2 ^ 24) =
      (Device.offered t).toNat / 2 ^ (32 * sel.toNat) % 2 ^ 32 ↔ Shown t sel := by
  have hlt := t.features.toNat_lt
  rw [Device.offered_toNat]
  unfold Shown
  by_cases hone : sel = 1
  · subst hone
    change 1 = (2 ^ 32 + t.features.toNat) / 2 ^ (32 * 1) % 2 ^ 32 ↔
      ((1 : UInt32) = 0 → _) ∧ (2 ≤ 1 → _)
    have hne : ¬ (1 : UInt32) = 0 := by decide
    simp only [hne, false_imp_iff, true_and]
    omega
  · rw [if_neg hone]
    by_cases hzero : sel = 0
    · subst hzero
      change t.features.toNat % 2 ^ 24 = (2 ^ 32 + t.features.toNat) / 2 ^ (32 * 0) % 2 ^ 32 ↔
        ((0 : UInt32) = 0 → _) ∧ (2 ≤ 0 → _)
      simp only [true_imp_iff]
      omega
    · have hsel : 2 ≤ sel.toNat := by
        rw [← UInt32.toNat_inj] at hone hzero
        change sel.toNat ≠ 1 at hone
        change sel.toNat ≠ 0 at hzero
        omega
      have hpow : 2 ^ (32 * 2) ≤ 2 ^ (32 * sel.toNat) :=
        Nat.pow_le_pow_right (by omega) (by omega)
      rw [Nat.div_eq_of_lt (by omega)]
      simp only [hzero, false_imp_iff, true_and, hsel, true_imp_iff, Nat.zero_mod]

theorem last_low_eq_zero_or_mem (accepted : List (UInt32 × UInt32)) :
    last (wordsUnder (· = 0) accepted) = 0 ∨
      last (wordsUnder (· = 0) accepted) ∈ wordsUnder (· ≠ 1) accepted := by
  refine (last_eq_zero_or_mem _).imp id (mem_wordsUnder_of_imp ?_)
  intro sel hsel
  rw [decide_eq_true_eq] at hsel
  subst hsel
  decide

namespace Device

/-- Negotiation loses nothing exactly when the mask hides no bit of the selected
half and the driver withdraws no bit it accepted. -/
theorem negotiation_lossless_iff (t : DeviceType) (irq : Interrupt) (config : List UInt8)
    (writes : FeatureWrites) :
    ∃ d reads, (fresh t irq config).storeFeatures writes = .ok d ∧
      d.loadDeviceFeatures = .ok reads ∧
      (Lossless t writes reads d.driverFeatures ↔
        Shown t (lastSelector .deviceFeaturesSel 0 writes) ∧
          NothingWithdrawn (acceptedUnder 0 writes)) := by
  have hfresh : Negotiated (fresh t irq config) 0 0 0 0 := ⟨rfl, rfl, rfl⟩
  obtain ⟨d, hrun, h⟩ := storeFeatures_negotiated hfresh writes
  rw [UInt32.zero_or, UInt32.zero_or] at h
  refine ⟨d, _, hrun, loadDeviceFeatures_eq d, ?_⟩
  have hoffer : d.offeredWord.toNat = (offered t).toNat /
      2 ^ (32 * (lastSelector .deviceFeaturesSel 0 writes).toNat) % 2 ^ 32 ↔
        Shown t (lastSelector .deviceFeaturesSel 0 writes) := by
    rw [← shown_iff, offeredWord_toNat, h.deviceSel]
    simp only [decide_eq_true_eq]
  have hlow : d.driverFeatures.toNat % 2 ^ 32 =
      (orAll (wordsUnder (· ≠ 1) (acceptedUnder 0 writes))).toNat := by
    rw [h.accepted]
    exact join_toNat_mod _ _
  have hhigh : d.driverFeatures.toNat / 2 ^ 32 =
      (orAll (wordsUnder (· = 1) (acceptedUnder 0 writes))).toNat := by
    rw [h.accepted]
    exact join_toNat_div _ _
  have hgrowing := last_low_eq_zero_or_mem (acceptedUnder 0 writes)
  constructor
  · intro hloss
    refine ⟨hoffer.mp hloss.offered, ?_, ?_⟩
    · exact (orAll_eq_iff hgrowing).mp (UInt32.toNat_inj.mp (hlow.symm.trans hloss.low))
    · exact (orAll_eq_last_iff _).mp (UInt32.toNat_inj.mp (hhigh.symm.trans hloss.high))
  · rintro ⟨hshown, hkept⟩
    refine ⟨hoffer.mpr hshown, ?_, ?_⟩
    · rw [hlow, (orAll_eq_iff hgrowing).mpr hkept.low]
    · rw [hhigh, (orAll_eq_last_iff _).mpr hkept.high]

/-- `VIRTIO_RING_F_EVENT_IDX`, which `blk` offers, is above the mask. -/
theorem eventIdx_hidden : ∃ d : Device blkType, ∃ reads,
    (fresh blkType { number := 5 } []).storeFeatures [(.deviceFeaturesSel, 0)] = .ok d ∧
      d.loadDeviceFeatures = .ok reads ∧ blkType.features &&& 0x20000000 ≠ 0 ∧
      reads &&& 0x20000000 = 0 ∧
      ¬ Lossless blkType [(.deviceFeaturesSel, 0)] reads d.driverFeatures := by
  refine ⟨_, 0x6, rfl, rfl, by decide, by decide, fun h => ?_⟩
  have hoffer := h.offered
  revert hoffer
  decide

end Device

end Kthxvm.Virtio
