import Kthxvm.Cpuid

/-! The filter that `vmm.h` applies to the table before the processors get it. -/
namespace Kthxvm.Cpuid

open Lib.ByteMemory Lib.InPlace Lib.MaskedWrite

def vendorCopy : List UInt8 := "LKVMLKVMLKVM".toList.map fun c => UInt8.ofNat c.toNat

def signatureCopy (i : Nat) : BitVec 32 :=
  BitVec.ofNat 32 (natOfBytes ((vendorCopy.drop (4 * i)).take 4))

def versionId (eax : BitVec 32) : BitVec 8 := eax.extractLsb' 0 8

def numCounters (eax : BitVec 32) : BitVec 8 := eax.extractLsb' 8 8

def filterEntryCopy (e : Entry) : Entry :=
  if e.function = 0x0#32 then
    { e with ebx := signatureCopy 0, ecx := signatureCopy 1, edx := signatureCopy 2 }
  else if e.function = 0x1#32 then
    if e.index = 0#32 then { e with ecx := e.ecx ||| (1#32 <<< 31) } else e
  else if e.function = 0x6#32 then { e with ecx := e.ecx &&& ~~~(1#32 <<< 3) }
  else if e.function = 0xA#32 then
    if e.eax ≠ 0#32 then
      if versionId e.eax ≠ 2#8 ∨ numCounters e.eax = 0#8 then { e with eax := 0#32 } else e
    else e
  else e

def filterCpuidCopy (t : Cpuid2) : Cpuid2 :=
  { t with
    entries := updateEach filterEntryCopy t.nent.toNat t.entries
    held := by rw [length_updateEach]; exact t.held }

/-- A monitoring leaf that the guest is shown: there are no counters at all, or those of
the second version. -/
def Monitored (eax : BitVec 32) : Prop := eax = 0#32 ∨ versionId eax = 2#8 ∧ numCounters eax ≠ 0#8

instance (eax : BitVec 32) : Decidable (Monitored eax) := inferInstanceAs (Decidable (_ ∨ _))

/-- What the comments of `filter_cpuid_copy` say of an entry. -/
def copied (e : Entry) : Changes :=
  if e.function = 0x0#32 then
    { ebx := .put (signatureCopy 0), ecx := .put (signatureCopy 1), edx := .put (signatureCopy 2) }
  else if e.function = 0x1#32 ∧ e.index = 0#32 then { ecx := .set (bits 31 1) }
  else if e.function = 0x6#32 then { ecx := .clear (bits 3 1) }
  else if e.function = 0xA#32 ∧ ¬ Monitored e.eax then { eax := .put 0#32 }
  else {}

structure Shown (e : Entry) : Prop where
  vendor : e.function = 0x0#32 →
    bytesOfNat 4 e.ebx.toNat ++ bytesOfNat 4 e.edx.toNat ++ bytesOfNat 4 e.ecx.toNat = vendorCopy
  hypervisor : e.function = 0x1#32 → e.index = 0#32 → e.ecx.getLsbD 31 = true
  noBias : e.function = 0x6#32 → e.ecx.getLsbD 3 = false
  monitored : e.function = 0xA#32 → Monitored e.eax

structure OnlyCopied (t t' : Cpuid2) : Prop where
  nent : t'.nent = t.nent
  padding : t'.padding = t.padding
  length : t'.entries.length = t.entries.length
  changed : ∀ i < t.nent.toNat, ∀ e, t.entries[i]? = some e →
    t'.entries[i]? = some ((copied e).apply e)
  behind : ∀ i, t.nent.toNat ≤ i → t'.entries[i]? = t.entries[i]?
  shown : ∀ i < t.nent.toNat, ∀ e, t'.entries[i]? = some e → Shown e

theorem keep_apply (e : Entry) : ({} : Changes).apply e = e := by
  simp only [Changes.apply, Write.keep_apply]

theorem filterEntryCopy_eq (e : Entry) : filterEntryCopy e = (copied e).apply e := by
  have hhypervisor : bits 31 1 = 1#32 <<< 31 := rfl
  have hbias : bits 3 1 = 1#32 <<< 3 := rfl
  unfold filterEntryCopy copied
  by_cases h0 : e.function = 0x0#32
  · rw [if_pos h0, if_pos h0]
    simp only [Changes.apply, Write.put_apply, Write.keep_apply]
  rw [if_neg h0, if_neg h0]
  by_cases h1 : e.function = 0x1#32
  · have h6 : e.function ≠ 0x6#32 := by rw [h1]; decide
    have hA : ¬ (e.function = 0xA#32 ∧ ¬ Monitored e.eax) := by
      rw [h1]
      exact fun h => absurd h.1 (by decide)
    rw [if_pos h1]
    by_cases hindex : e.index = 0#32
    · rw [if_pos hindex, if_pos ⟨h1, hindex⟩]
      simp only [Changes.apply, Write.set_apply, Write.keep_apply, hhypervisor]
    · have hindex' : ¬ (e.function = 0x1#32 ∧ e.index = 0#32) := fun h => hindex h.2
      rw [if_neg hindex, if_neg hindex', if_neg h6, if_neg hA, keep_apply]
  have h1' : ¬ (e.function = 0x1#32 ∧ e.index = 0#32) := fun h => h1 h.1
  rw [if_neg h1, if_neg h1']
  by_cases h6 : e.function = 0x6#32
  · rw [if_pos h6, if_pos h6]
    simp only [Changes.apply, Write.clear_apply, Write.keep_apply, hbias]
  rw [if_neg h6, if_neg h6]
  by_cases hA : e.function = 0xA#32
  · rw [if_pos hA]
    by_cases hshown : Monitored e.eax
    · have hshown' : ¬ (e.function = 0xA#32 ∧ ¬ Monitored e.eax) := fun h => h.2 hshown
      rw [if_neg hshown', keep_apply]
      rcases hshown with hzero | ⟨hversion, hcounters⟩
      · rw [if_neg (not_not.mpr hzero)]
      · have hsecond : ¬ (versionId e.eax ≠ 2#8 ∨ numCounters e.eax = 0#8) :=
          not_or.mpr ⟨not_not.mpr hversion, hcounters⟩
        rw [if_neg hsecond, ite_self]
    · have hsome : e.eax ≠ 0#32 := fun h => hshown (Or.inl h)
      have hother : versionId e.eax ≠ 2#8 ∨ numCounters e.eax = 0#8 := by
        by_contra hnot
        obtain ⟨hversion, hcounters⟩ := not_or.mp hnot
        exact hshown (Or.inr ⟨not_not.mp hversion, hcounters⟩)
      rw [if_pos hsome, if_pos hother, if_pos ⟨hA, hshown⟩]
      simp only [Changes.apply, Write.put_apply, Write.keep_apply]
  · have hA' : ¬ (e.function = 0xA#32 ∧ ¬ Monitored e.eax) := fun h => hA h.1
    rw [if_neg hA, if_neg hA', keep_apply]

theorem shown_filterEntryCopy (e : Entry) : Shown (filterEntryCopy e) := by
  have hfunction : (filterEntryCopy e).function = e.function := by
    rw [filterEntryCopy_eq]
    rfl
  have hindex : (filterEntryCopy e).index = e.index := by
    rw [filterEntryCopy_eq]
    rfl
  constructor
  all_goals rw [hfunction]
  case vendor =>
    intro h0
    have hvendor : bytesOfNat 4 (signatureCopy 0).toNat ++ bytesOfNat 4 (signatureCopy 2).toNat ++
        bytesOfNat 4 (signatureCopy 1).toNat = vendorCopy := by decide
    unfold filterEntryCopy
    rw [if_pos h0]
    exact hvendor
  case hypervisor =>
    rw [hindex]
    intro h1 h
    have hecx : (filterEntryCopy e).ecx = e.ecx ||| (1#32 <<< 31) := by
      unfold filterEntryCopy
      rw [if_neg (by rw [h1]; decide), if_pos h1, if_pos h]
    rw [hecx, BitVec.getLsbD_or]
    exact Bool.or_eq_true_iff.mpr (Or.inr (by decide))
  case noBias =>
    intro h6
    have hecx : (filterEntryCopy e).ecx = e.ecx &&& ~~~(1#32 <<< 3) := by
      unfold filterEntryCopy
      rw [if_neg (by rw [h6]; decide), if_neg (by rw [h6]; decide), if_pos h6]
    have hbit : (~~~(1#32 <<< 3)).getLsbD 3 = false := by decide
    rw [hecx, BitVec.getLsbD_and, hbit, Bool.and_false]
  case monitored =>
    intro hA
    have hne : e.function ≠ 0x0#32 ∧ e.function ≠ 0x1#32 ∧ e.function ≠ 0x6#32 := by
      rw [hA]
      decide
    rw [filterEntryCopy_eq]
    unfold copied
    have hne1 : ¬ (e.function = 0x1#32 ∧ e.index = 0#32) := fun h => hne.2.1 h.1
    rw [if_neg hne.1, if_neg hne1, if_neg hne.2.2]
    by_cases hshown : Monitored e.eax
    · have hshown' : ¬ (e.function = 0xA#32 ∧ ¬ Monitored e.eax) := fun h => h.2 hshown
      rwa [if_neg hshown', keep_apply]
    · rw [if_pos ⟨hA, hshown⟩]
      simp only [Changes.apply, Write.put_apply]
      exact Or.inl rfl

/-- The second time every change that there still is has been made: what goes by the shown
counters finds nothing to hide any more. -/
theorem copied_copied_apply (e : Entry) :
    copied ((copied e).apply e) = copied e ∨ copied ((copied e).apply e) = {} := by
  have hfunction : ((copied e).apply e).function = e.function := rfl
  have hindex : ((copied e).apply e).index = e.index := rfl
  by_cases hA : e.function = 0xA#32
  · right
    have hshown := (shown_filterEntryCopy e).monitored
    rw [filterEntryCopy_eq] at hshown
    have hne : e.function ≠ 0x0#32 ∧ e.function ≠ 0x1#32 ∧ e.function ≠ 0x6#32 := by
      rw [hA]
      decide
    have hne1 : ¬ (e.function = 0x1#32 ∧ e.index = 0#32) := fun h => hne.2.1 h.1
    have hnone : ¬ (e.function = 0xA#32 ∧ ¬ Monitored ((copied e).apply e).eax) :=
      fun h => h.2 (hshown hA)
    rw [copied, hfunction, hindex, if_neg hne.1, if_neg hne1, if_neg hne.2.2, if_neg hnone]
  · left
    have hnone (eax : BitVec 32) : ¬ (e.function = 0xA#32 ∧ ¬ Monitored eax) := fun h => hA h.1
    rw [copied, hfunction, hindex, if_neg (hnone _), copied, if_neg (hnone e.eax)]

theorem filterEntryCopy_filterEntryCopy (e : Entry) :
    filterEntryCopy (filterEntryCopy e) = filterEntryCopy e := by
  rw [filterEntryCopy_eq e, filterEntryCopy_eq]
  rcases copied_copied_apply e with hsame | hnothing
  · rw [hsame, apply_apply]
  · rw [hnothing, keep_apply]

/-- The entries that are counted have what the comments say and nothing else, the guest finds a
hypervisor in them and no counters that it could not use, and a second pass changes nothing. -/
theorem filterCpuidCopy_exact (t : Cpuid2) :
    OnlyCopied t (filterCpuidCopy t) ∧ filterCpuidCopy (filterCpuidCopy t) = filterCpuidCopy t := by
  have hinside {i : Nat} (hi : i < t.nent.toNat) :
      (filterCpuidCopy t).entries[i]? = t.entries[i]?.map filterEntryCopy := by
    have h := getElem?_updateEach filterEntryCopy t.nent.toNat t.entries i
    rwa [if_pos hi] at h
  refine ⟨⟨rfl, rfl, length_updateEach _ _ _, ?_, ?_, ?_⟩, ?_⟩
  · intro i hi e he
    rw [hinside hi, he, ← filterEntryCopy_eq]
    rfl
  · intro i hi
    have h := getElem?_updateEach filterEntryCopy t.nent.toNat t.entries i
    rwa [if_neg (Nat.not_lt.mpr hi)] at h
  · intro i hi e he
    rw [hinside hi] at he
    obtain ⟨e₀, -, rfl⟩ := Option.map_eq_some_iff.mp he
    exact shown_filterEntryCopy e₀
  · simp only [filterCpuidCopy, updateEach_updateEach filterEntryCopy_filterEntryCopy]

end Kthxvm.Cpuid
