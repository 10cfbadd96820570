import Kthxvm.Lib.ByteMemory
import Kthxvm.Lib.InPlace
import Kthxvm.Lib.MaskedWrite

/-! The filter of the processor's identification table, `cpuid.h`. -/
namespace Kthxvm.Cpuid

open Lib.ByteMemory Lib.InPlace Lib.MaskedWrite

def leafbhIndex1ApicidShift : BitVec 32 := 6#32
def hypervisorShift : Nat := 31
def httShift : Nat := 28
def cacheLevelShift : Nat := 5
def maxAddrIdsSharingCache : Nat := 14
def maxAddrIdsInPackage : Nat := 26
def turboBoostShift : Nat := 1
def epbShift : Nat := 3
def levelTypeInvalid : BitVec 32 := 0#32
def levelTypeCore : BitVec 32 := 2#32
def levelTypeShift : Nat := 8

structure Entry where
  function : BitVec 32
  index : BitVec 32
  flags : BitVec 32
  eax : BitVec 32
  ebx : BitVec 32
  ecx : BitVec 32
  edx : BitVec 32
  padding : Vector (BitVec 32) 3
deriving DecidableEq

/-- `kvm_cpuid2`, with all the entries that its memory has room for. -/
structure Cpuid2 where
  nent : UInt32
  padding : UInt32
  entries : List Entry
  held : nent.toNat ≤ entries.length

def vendor : List UInt8 := "GenuineIntel".toList.map fun c => UInt8.ofNat c.toNat

def signature (i : Nat) : BitVec 32 := BitVec.ofNat 32 (natOfBytes ((vendor.drop (4 * i)).take 4))

/-- `!value` -/
def logicalNot (value : BitVec 32) : BitVec 32 := if value = 0#32 then 1#32 else 0#32

def cacheLevel (eax : BitVec 32) : BitVec 32 := (eax >>> cacheLevelShift) &&& 0b111#32

def filterCacheParameters (e : Entry) : Entry :=
  let level := cacheLevel e.eax
  let e :=
    if level = 1#32 ∨ level = 2#32 then
      { e with eax := e.eax &&& logicalNot (0b111111111111#32 <<< maxAddrIdsSharingCache) }
    else if level = 3#32 then
      { e with eax := e.eax &&& logicalNot (0b111111111111#32 <<< maxAddrIdsSharingCache) }
    else e
  { e with eax := e.eax &&& logicalNot (0b111111#32 <<< maxAddrIdsInPackage) }

def filterTopology (e : Entry) : Entry :=
  if e.index = 0#32 then
    { e with eax := 0#32, ebx := 1#32, ecx := levelTypeCore <<< levelTypeShift }
  else if e.index = 1#32 then
    { e with
      eax := leafbhIndex1ApicidShift
      ebx := 0#32
      ecx := e.index ||| (levelTypeInvalid <<< levelTypeShift) }
  else { e with eax := 0#32, ebx := 0#32, ecx := e.index }

def filterEntry (e : Entry) : Entry :=
  if e.function = 0x0#32 then
    { e with ebx := signature 0, edx := signature 1, ecx := signature 2 }
  else if e.function = 0x1#32 then
    { e with
      ecx := e.ecx ||| (1#32 <<< hypervisorShift)
      edx := e.edx &&& ~~~(1#32 <<< httShift) }
  else if e.function = 0x4#32 then filterCacheParameters e
  else if e.function = 0x6#32 then
    { e with
      eax := e.eax &&& logicalNot (1#32 <<< turboBoostShift)
      ecx := e.ecx &&& logicalNot (1#32 <<< epbShift) }
  else if e.function = 0xA#32 then { e with eax := 0#32, ebx := 0#32, ecx := 0#32, edx := 0#32 }
  else if e.function = 0xB#32 then filterTopology e
  else e

def filterCpuid (t : Cpuid2) : Cpuid2 :=
  { t with
    entries := updateEach filterEntry t.nent.toNat t.entries
    held := by rw [length_updateEach]; exact t.held }

/-! The changes that the filter names, register by register. -/

structure Changes where
  eax : Write 32 := Write.keep
  ebx : Write 32 := Write.keep
  ecx : Write 32 := Write.keep
  edx : Write 32 := Write.keep

def Changes.apply (changes : Changes) (e : Entry) : Entry :=
  { e with
    eax := changes.eax.apply e.eax
    ebx := changes.ebx.apply e.ebx
    ecx := changes.ecx.apply e.ecx
    edx := changes.edx.apply e.edx }

def topology (index : BitVec 32) : Changes :=
  if index = 0#32 then { eax := .put 0#32, ebx := .put 1#32, ecx := .put 0x200#32 }
  else if index = 1#32 then { eax := .put 6#32, ebx := .put 0#32, ecx := .put index }
  else { eax := .put 0#32, ebx := .put 0#32, ecx := .put index }

/-- What the comments of `filter_cpuid` say of an entry. -/
def named (e : Entry) : Changes :=
  if e.function = 0x0#32 then
    { ebx := .put (signature 0), edx := .put (signature 1), ecx := .put (signature 2) }
  else if e.function = 0x1#32 then { ecx := .set (bits 31 1), edx := .clear (bits 28 1) }
  else if e.function = 0x4#32 then
    if cacheLevel e.eax = 1#32 ∨ cacheLevel e.eax = 2#32 ∨ cacheLevel e.eax = 3#32 then
      { eax := .clear (bits 26 6 ||| bits 14 12) }
    else { eax := .clear (bits 26 6) }
  else if e.function = 0x6#32 then { eax := .clear (bits 1 1), ecx := .clear (bits 3 1) }
  else if e.function = 0xA#32 then
    { eax := .put 0#32, ebx := .put 0#32, ecx := .put 0#32, edx := .put 0#32 }
  else if e.function = 0xB#32 then topology e.index
  else {}

example : (bits 26 6 ||| bits 14 12 : BitVec 32) = 0xffffc000#32 := by decide

/-- What it does: `!` of a mask is zero, and leaves 4 and 6 lose whole registers. -/
def made (e : Entry) : Changes :=
  if e.function = 0x4#32 then { eax := .put 0#32 }
  else if e.function = 0x6#32 then { eax := .put 0#32, ecx := .put 0#32 }
  else named e

/-- Every entry of the table as it is with the named changes, and nothing else touched. -/
structure OnlyNamed (t t' : Cpuid2) : Prop where
  nent : t'.nent = t.nent
  padding : t'.padding = t.padding
  length : t'.entries.length = t.entries.length
  changed : ∀ i < t.nent.toNat, ∀ e, t.entries[i]? = some e →
    t'.entries[i]? = some ((named e).apply e)
  behind : ∀ i, t.nent.toNat ≤ i → t'.entries[i]? = t.entries[i]?

theorem apply_apply (changes : Changes) (e : Entry) :
    changes.apply (changes.apply e) = changes.apply e := by
  simp only [Changes.apply, Write.apply_apply]

/-- `&= !mask` leaves nothing of a register. -/
theorem and_logicalNot {value : BitVec 32} (h : value ≠ 0#32) (x : BitVec 32) :
    x &&& logicalNot value = 0#32 := by
  rw [logicalNot, if_neg h]
  exact BitVec.and_zero

theorem filterCacheParameters_eq (e : Entry) :
    filterCacheParameters e = { e with eax := 0#32 } := by
  have hpackage : 0b111111#32 <<< maxAddrIdsInPackage ≠ 0#32 := by decide
  simp only [filterCacheParameters, and_logicalNot hpackage]
  split_ifs
  · rfl
  · rfl
  · rfl

theorem filterTopology_eq (e : Entry) : filterTopology e = (topology e.index).apply e := by
  unfold filterTopology topology
  split_ifs with h0 h1
  · simp only [Changes.apply, Write.put_apply, Write.keep_apply]
    rfl
  · simp only [Changes.apply, Write.put_apply, Write.keep_apply, h1]
    rfl
  · simp only [Changes.apply, Write.put_apply, Write.keep_apply]

theorem filterEntry_eq (e : Entry) : filterEntry e = (made e).apply e := by
  have hhypervisor : bits 31 1 = 1#32 <<< hypervisorShift := rfl
  have hhtt : bits 28 1 = 1#32 <<< httShift := rfl
  have hturbo : 1#32 <<< turboBoostShift ≠ 0#32 := by decide
  have hepb : 1#32 <<< epbShift ≠ 0#32 := by decide
  unfold filterEntry
  split_ifs with h0 h1 h4 h6 hA hB
  · simp [made, named, h0, Changes.apply]
  · simp [made, named, h1, Changes.apply, hhypervisor, hhtt]
  · rw [filterCacheParameters_eq]
    simp [made, h4, Changes.apply]
  · rw [and_logicalNot hturbo, and_logicalNot hepb]
    simp [made, h6, Changes.apply]
  · simp [made, named, hA, Changes.apply]
  · rw [filterTopology_eq]
    simp [made, named, hB]
  · simp [made, named, h0, h1, h4, h6, hA, hB, Changes.apply]

/-- What is made of an entry depends on nothing that the filter writes. -/
theorem made_apply (changes : Changes) (e : Entry) : made (changes.apply e) = made e := by
  have hfunction : (changes.apply e).function = e.function := rfl
  have hindex : (changes.apply e).index = e.index := rfl
  unfold made named
  rw [hfunction, hindex]
  by_cases h4 : e.function = 0x4#32
  · rw [if_pos h4, if_pos h4]
  · simp only [if_neg h4]

theorem filterEntry_filterEntry (e : Entry) : filterEntry (filterEntry e) = filterEntry e := by
  rw [filterEntry_eq e, filterEntry_eq, made_apply, apply_apply]

theorem filterCpuid_filterCpuid (t : Cpuid2) : filterCpuid (filterCpuid t) = filterCpuid t := by
  simp only [filterCpuid, updateEach_updateEach filterEntry_filterEntry]

/-! When the two agree. -/

/-- No bit but those that leaves 4 and 6 have to lose. -/
structure Entry.Bare (e : Entry) : Prop where
  cache : e.function = 0x4#32 → e.eax &&& ~~~bits 26 6 = 0#32
  power : e.function = 0x6#32 → e.eax &&& ~~~bits 1 1 = 0#32 ∧ e.ecx &&& ~~~bits 3 1 = 0#32

theorem cacheLevel_eq_zero {x m : BitVec 32} (hm : cacheLevel m = 0#32)
    (h : x &&& ~~~m = 0#32) : cacheLevel x = 0#32 := by
  have hx : x = x &&& m := by
    calc x = (x &&& m) ||| (x &&& ~~~m) := by
          rw [← BitVec.and_or_distrib_left, BitVec.or_not_self, BitVec.and_allOnes]
      _ = x &&& m := by rw [h, BitVec.or_zero]
  unfold cacheLevel at hm ⊢
  rw [hx, BitVec.ushiftRight_and_distrib, BitVec.and_assoc, hm, BitVec.and_zero]

theorem made_cache_iff {e : Entry} (h4 : e.function = 0x4#32) :
    (made e).apply e = (named e).apply e ↔ e.eax &&& ~~~bits 26 6 = 0#32 := by
  have hmade : (made e).apply e = { e with eax := 0#32 } := by
    rw [made, if_pos h4]
    simp only [Changes.apply, Write.put_apply, Write.keep_apply]
  have hnamed (m : BitVec 32) : ({ eax := .clear m } : Changes).apply e =
      { e with eax := e.eax &&& ~~~m } := by
    simp only [Changes.apply, Write.clear_apply, Write.keep_apply]
  rw [hmade]
  constructor
  · intro h
    by_cases hlevel : cacheLevel e.eax = 1#32 ∨ cacheLevel e.eax = 2#32 ∨ cacheLevel e.eax = 3#32
    · have hchanges : named e = { eax := .clear (bits 26 6 ||| bits 14 12) } := by
        simp [named, h4, hlevel]
      rw [hchanges, hnamed] at h
      -- the bits of the level are not in the mask
      have hzero := cacheLevel_eq_zero (by decide) (congrArg Entry.eax h).symm
      rw [hzero] at hlevel
      exact absurd hlevel (by decide)
    · have hchanges : named e = { eax := .clear (bits 26 6) } := by
        simp [named, h4, hlevel]
      rw [hchanges, hnamed] at h
      exact (congrArg Entry.eax h).symm
  · intro h
    have hzero := cacheLevel_eq_zero (by decide) h
    have hchanges : named e = { eax := .clear (bits 26 6) } := by
      simp [named, h4, hzero]
    rw [hchanges, hnamed, h]

theorem made_power_iff {e : Entry} (h6 : e.function = 0x6#32) :
    (made e).apply e = (named e).apply e ↔
      e.eax &&& ~~~bits 1 1 = 0#32 ∧ e.ecx &&& ~~~bits 3 1 = 0#32 := by
  have hmade : (made e).apply e = { e with eax := 0#32, ecx := 0#32 } := by
    simp [made, h6, Changes.apply]
  have hnamed : (named e).apply e =
      { e with eax := e.eax &&& ~~~bits 1 1, ecx := e.ecx &&& ~~~bits 3 1 } := by
    simp [named, h6, Changes.apply]
  rw [hmade, hnamed]
  constructor
  · intro h
    exact ⟨(congrArg Entry.eax h).symm, (congrArg Entry.ecx h).symm⟩
  · rintro ⟨heax, hecx⟩
    rw [heax, hecx]

theorem filterEntry_named_iff (e : Entry) : filterEntry e = (named e).apply e ↔ e.Bare := by
  rw [filterEntry_eq]
  by_cases h4 : e.function = 0x4#32
  · have h6 : e.function ≠ 0x6#32 := by
      rw [h4]
      decide
    rw [made_cache_iff h4]
    exact ⟨fun h => ⟨fun _ => h, fun h' => absurd h' h6⟩, fun h => h.cache h4⟩
  · by_cases h6 : e.function = 0x6#32
    · rw [made_power_iff h6]
      exact ⟨fun h => ⟨fun h' => absurd h' h4, fun _ => h⟩, fun h => h.power h6⟩
    · have hmade : made e = named e := by rw [made, if_neg h4, if_neg h6]
      rw [hmade]
      exact ⟨fun _ => ⟨fun h => absurd h h4, fun h => absurd h h6⟩, fun _ => rfl⟩

theorem entries_filterCpuid (t : Cpuid2) (i : Nat) : (filterCpuid t).entries[i]? =
    if i < t.nent.toNat then t.entries[i]?.map filterEntry else t.entries[i]? :=
  getElem?_updateEach filterEntry t.nent.toNat t.entries i

/-- The filter keeps to the changes that it names exactly when leaves 4 and 6 of the table have no
other bits to lose. Filtered a second time, the table stays as it is. -/
theorem filterCpuid_only_named_iff (t : Cpuid2) :
    (OnlyNamed t (filterCpuid t) ∧ filterCpuid (filterCpuid t) = filterCpuid t) ↔
      ∀ i < t.nent.toNat, ∀ e, t.entries[i]? = some e → e.Bare := by
  constructor
  · rintro ⟨hnamed, -⟩ i hi e he
    have hchanged := hnamed.changed i hi e he
    rw [entries_filterCpuid, if_pos hi, he] at hchanged
    exact (filterEntry_named_iff e).mp (Option.some.inj hchanged)
  · intro hbare
    have hnamed : OnlyNamed t (filterCpuid t) :=
      { nent := rfl
        padding := rfl
        length := length_updateEach filterEntry t.nent.toNat t.entries
        changed := by
          intro i hi e he
          rw [entries_filterCpuid, if_pos hi, he]
          exact congrArg some ((filterEntry_named_iff e).mpr (hbare i hi e he))
        behind := by
          intro i hi
          rw [entries_filterCpuid, if_neg (Nat.not_lt.mpr hi)] }
    exact ⟨hnamed, filterCpuid_filterCpuid t⟩

def hostTable : Cpuid2 where
  nent := 2
  padding := 0
  entries :=
    [{ function := 0x4#32, index := 0#32, flags := 1#32, eax := 0x1c004121#32, ebx := 0x01c0003f#32,
       ecx := 0x3f#32, edx := 0#32, padding := Vector.replicate 3 0#32 },
     { function := 0x6#32, index := 0#32, flags := 0#32, eax := 0x77#32, ebx := 0x2#32,
       ecx := 0x9#32, edx := 0#32, padding := Vector.replicate 3 0#32 }]
  held := Nat.le_refl 2

/-- Of the cache's parameters nothing is left, its level and type included. -/
theorem filterCpuid_hostTable : ¬ (OnlyNamed hostTable (filterCpuid hostTable) ∧
    filterCpuid (filterCpuid hostTable) = filterCpuid hostTable) := by
  rintro ⟨hnamed, -⟩
  have hchanged := hnamed.changed 0 (by decide) _ rfl
  rw [entries_filterCpuid, if_pos (by decide)] at hchanged
  have hbare := (filterEntry_named_iff _).mp (Option.some.inj hchanged)
  exact absurd (hbare.cache rfl) (by decide)

end Kthxvm.Cpuid
