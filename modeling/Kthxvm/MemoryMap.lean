import Kthxvm.Layout

/-! The memory map of `vm.h`, derived twice: `create_memory` registers slots with
KVM, `setup_bootparams` describes the same memory to the kernel as an e820 table. -/
namespace Kthxvm.MemoryMap

open Layout

/-- `kvm_userspace_memory_region`; `userspaceAddr` is relative to the mapping. -/
structure Region where
  slot : UInt32
  flags : UInt32
  guestPhysAddr : UInt64
  memorySize : UInt64
  userspaceAddr : UInt64
deriving DecidableEq

def memorySize (mem : UInt64) : UInt64 :=
  if gapStart32 ≤ mem then mem + gapSize32 else mem

/-- The calls of `KVM_SET_USER_MEMORY_REGION` in `create_memory`. -/
def createMemory (mem : UInt64) : List Region :=
  let size := memorySize mem
  if size < gapStart32 then [⟨0, 0, 0, size, 0⟩]
  else [⟨0, 0, 0, gapStart32, 0⟩, ⟨1, 0, maxMemSize32, size - maxMemSize32, maxMemSize32⟩]

def e820Ram : UInt32 := 1

structure E820Entry where
  addr : UInt64
  size : UInt64
  type : UInt32
deriving DecidableEq

/-- The table that `setup_bootparams` writes for `vm.mem_size()`. -/
def e820Table (memSize : UInt64) : List E820Entry :=
  ⟨0, ebdaStart, e820Ram⟩ ::
    if memSize < gapStart32 then [⟨himemStart, memSize - himemStart, e820Ram⟩]
    else [⟨himemStart, gapStart32 - himemStart, e820Ram⟩,
      ⟨maxMemSize32, memSize - maxMemSize32, e820Ram⟩]

/-- Minuend and subtrahend of every subtraction in `e820Table`. -/
def e820Differences (memSize : UInt64) : List (UInt64 × UInt64) :=
  if memSize < gapStart32 then [(memSize, himemStart)]
  else [(gapStart32, himemStart), (memSize, maxMemSize32)]

def Region.range (r : Region) : Set ℕ :=
  Set.Ico r.guestPhysAddr.toNat (r.guestPhysAddr.toNat + r.memorySize.toNat)

def E820Entry.range (e : E820Entry) : Set ℕ :=
  Set.Ico e.addr.toNat (e.addr.toNat + e.size.toNat)

def gap : Set ℕ := Set.Ico gapStart32.toNat maxMemSize32.toNat

def lowHole : Set ℕ := Set.Ico ebdaStart.toNat himemStart.toNat

/-- The slots are the memory that was asked for, outside the gap, and the kernel
is told of exactly that memory less the low hole. -/
structure Agreement (mem : UInt64) : Prop where
  slots_nonempty : ∀ r ∈ createMemory mem, r.range.Nonempty
  slots_disjoint : (createMemory mem).Pairwise fun r s => Disjoint r.range s.range
  slots_total : ((createMemory mem).map fun r => r.memorySize.toNat).sum = mem.toNat
  slots_gap : ∀ r ∈ createMemory mem, Disjoint r.range gap
  no_underflow : ∀ d ∈ e820Differences (memorySize mem), d.2 ≤ d.1
  e820_nonempty : ∀ e ∈ e820Table (memorySize mem), e.range.Nonempty
  e820_disjoint : (e820Table (memorySize mem)).Pairwise fun e f => Disjoint e.range f.range
  e820_union : ⋃ e ∈ e820Table (memorySize mem), e.range =
    (⋃ r ∈ createMemory mem, r.range) \ lowHole

theorem gapStart32_toNat : gapStart32.toNat = 0xd0000000 := by decide

theorem maxMemSize32_toNat : maxMemSize32.toNat = 0x100000000 := by decide

theorem himemStart_toNat : himemStart.toNat = 0x100000 := rfl

theorem ebdaStart_toNat : ebdaStart.toNat = 0x9fc00 := rfl

section Low

variable {mem : UInt64} (h : mem.toNat < 0xd0000000)

include h

theorem memorySize_low : memorySize mem = mem := by
  apply if_neg
  rw [UInt64.le_iff_toNat_le, gapStart32_toNat]
  omega

theorem low_lt : memorySize mem < gapStart32 := by
  rw [memorySize_low h, UInt64.lt_iff_toNat_lt, gapStart32_toNat]
  exact h

theorem createMemory_low : createMemory mem = [⟨0, 0, 0, mem, 0⟩] := by
  unfold createMemory
  dsimp only
  rw [if_pos (low_lt h), memorySize_low h]

theorem e820Table_low : e820Table (memorySize mem) =
    [⟨0, ebdaStart, e820Ram⟩, ⟨himemStart, mem - himemStart, e820Ram⟩] := by
  unfold e820Table
  rw [if_pos (low_lt h), memorySize_low h]

theorem e820Differences_low : e820Differences (memorySize mem) = [(mem, himemStart)] := by
  unfold e820Differences
  rw [if_pos (low_lt h), memorySize_low h]

end Low

section High

variable {mem : UInt64} (h : 0xd0000000 ≤ mem.toNat)
  (hbound : mem.toNat + gapSize32.toNat < 2 ^ 64)

include h hbound

theorem memorySize_high : (memorySize mem).toNat = mem.toNat + 0x30000000 := by
  have hsize : gapSize32.toNat = 0x30000000 := by decide
  have hle : gapStart32 ≤ mem := by
    rw [UInt64.le_iff_toNat_le, gapStart32_toNat]
    exact h
  rw [memorySize, if_pos hle, UInt64.toNat_add, hsize]
  rw [hsize] at hbound
  exact Nat.mod_eq_of_lt hbound

theorem high_not_lt : ¬ memorySize mem < gapStart32 := by
  rw [UInt64.lt_iff_toNat_lt, memorySize_high h hbound, gapStart32_toNat]
  omega

theorem high_size : (memorySize mem - maxMemSize32).toNat = mem.toNat - 0xd0000000 := by
  have hle : maxMemSize32 ≤ memorySize mem := by
    rw [UInt64.le_iff_toNat_le, memorySize_high h hbound, maxMemSize32_toNat]
    omega
  rw [UInt64.toNat_sub_of_le _ _ hle, memorySize_high h hbound, maxMemSize32_toNat]
  omega

theorem createMemory_high : createMemory mem = [⟨0, 0, 0, gapStart32, 0⟩,
    ⟨1, 0, maxMemSize32, memorySize mem - maxMemSize32, maxMemSize32⟩] :=
  if_neg (high_not_lt h hbound)

theorem e820Table_high : e820Table (memorySize mem) =
    [⟨0, ebdaStart, e820Ram⟩, ⟨himemStart, gapStart32 - himemStart, e820Ram⟩,
      ⟨maxMemSize32, memorySize mem - maxMemSize32, e820Ram⟩] := by
  unfold e820Table
  rw [if_neg (high_not_lt h hbound)]

theorem e820Differences_high : e820Differences (memorySize mem) =
    [(gapStart32, himemStart), (memorySize mem, maxMemSize32)] :=
  if_neg (high_not_lt h hbound)

end High

theorem agreement_low {mem : UInt64} (h : mem.toNat < 0xd0000000)
    (hmin : 0x100000 < mem.toNat) : Agreement mem := by
  have hle : himemStart ≤ mem := by
    rw [UInt64.le_iff_toNat_le, himemStart_toNat]
    omega
  have hsize : (mem - himemStart).toNat = mem.toNat - 0x100000 :=
    UInt64.toNat_sub_of_le _ _ hle
  constructor
  case slots_nonempty =>
    rw [createMemory_low h]
    simp only [List.mem_cons, List.not_mem_nil, or_false, Region.range, Set.nonempty_Ico,
      lt_add_iff_pos_right, forall_eq]
    omega
  case slots_disjoint =>
    rw [createMemory_low h]
    exact List.pairwise_singleton _ _
  case slots_total =>
    rw [createMemory_low h]
    simp
  case slots_gap =>
    rw [createMemory_low h]
    simp only [List.mem_cons, List.not_mem_nil, or_false, Region.range, gap, gapStart32_toNat,
      maxMemSize32_toNat, Set.Ico_disjoint_Ico, le_sup_iff, inf_le_iff, add_le_iff_nonpos_right,
      nonpos_iff_eq_zero, Nat.reduceLeDiff, forall_eq, UInt64.toNat_zero, OfNat.ofNat_ne_zero,
      zero_add]
    omega
  case no_underflow =>
    rw [e820Differences_low h]
    simpa using hle
  case e820_nonempty =>
    rw [e820Table_low h]
    simp only [List.mem_cons, List.not_mem_nil, or_false, E820Entry.range, Set.nonempty_Ico,
      lt_add_iff_pos_right, forall_eq_or_imp, ebdaStart_toNat, Nat.ofNat_pos, forall_eq, hsize,
      tsub_pos_iff_lt, true_and]
    omega
  case e820_disjoint =>
    rw [e820Table_low h]
    simp [E820Entry.range, hsize, ebdaStart_toNat, himemStart_toNat, Set.Ico_disjoint_Ico]
  case e820_union =>
    rw [e820Table_low h, createMemory_low h]
    ext x
    simp only [List.mem_cons, List.not_mem_nil, or_false, E820Entry.range,
      Set.iUnion_iUnion_eq_or_left, UInt64.toNat_zero, ebdaStart_toNat, zero_add,
      Set.iUnion_iUnion_eq_left, himemStart_toNat, hsize, Set.mem_union, Set.mem_Ico, zero_le,
      true_and, Region.range, lowHole, Set.mem_sdiff, not_and, not_lt]
    omega

theorem agreement_high {mem : UInt64} (h : 0xd0000000 < mem.toNat)
    (hbound : mem.toNat + gapSize32.toNat < 2 ^ 64) : Agreement mem := by
  have hsize := high_size h.le hbound
  have hlow : (gapStart32 - himemStart).toNat = 0xcff00000 := by decide
  constructor
  case slots_nonempty =>
    rw [createMemory_high h.le hbound]
    simp only [List.mem_cons, List.not_mem_nil, or_false, Region.range, Set.nonempty_Ico,
      lt_add_iff_pos_right, forall_eq_or_imp, gapStart32_toNat, Nat.ofNat_pos, forall_eq, hsize,
      tsub_pos_iff_lt, true_and]
    omega
  case slots_disjoint =>
    rw [createMemory_high h.le hbound]
    simp [Region.range, hsize, gapStart32_toNat, maxMemSize32_toNat, Set.Ico_disjoint_Ico]
  case slots_total =>
    rw [createMemory_high h.le hbound]
    change gapStart32.toNat + ((memorySize mem - maxMemSize32).toNat + 0) = mem.toNat
    rw [hsize, gapStart32_toNat]
    omega
  case slots_gap =>
    rw [createMemory_high h.le hbound]
    simp [Region.range, gap, hsize, gapStart32_toNat, maxMemSize32_toNat, Set.Ico_disjoint_Ico]
  case no_underflow =>
    rw [e820Differences_high h.le hbound]
    have hms := memorySize_high h.le hbound
    have hle : maxMemSize32 ≤ memorySize mem := by
      rw [UInt64.le_iff_toNat_le, hms, maxMemSize32_toNat]
      omega
    simp only [List.mem_cons, List.not_mem_nil, or_false, forall_eq_or_imp, forall_eq, hle,
      and_true, ge_iff_le]
    decide
  case e820_nonempty =>
    rw [e820Table_high h.le hbound]
    simp only [List.mem_cons, List.not_mem_nil, or_false, E820Entry.range, Set.nonempty_Ico,
      lt_add_iff_pos_right, forall_eq_or_imp, ebdaStart_toNat, Nat.ofNat_pos, hlow, forall_eq,
      hsize, tsub_pos_iff_lt, true_and]
    omega
  case e820_disjoint =>
    rw [e820Table_high h.le hbound]
    simp [E820Entry.range, hsize, hlow, ebdaStart_toNat, himemStart_toNat, maxMemSize32_toNat,
      Set.Ico_disjoint_Ico]
  case e820_union =>
    rw [e820Table_high h.le hbound, createMemory_high h.le hbound]
    ext x
    simp only [List.mem_cons, List.not_mem_nil, or_false, E820Entry.range,
      Set.iUnion_iUnion_eq_or_left, UInt64.toNat_zero, ebdaStart_toNat, zero_add,
      himemStart_toNat, hlow, Nat.reduceAdd, Set.iUnion_iUnion_eq_left, maxMemSize32_toNat,
      hsize, Set.mem_union, Set.mem_Ico, zero_le, true_and, Region.range, gapStart32_toNat,
      lowHole, Set.mem_sdiff, not_and, not_lt]
    omega

/-- The slots and the e820 table agree exactly on memories of more than one
megabyte that do not end where the gap starts. -/
theorem agreement_iff (mem : UInt64) (hbound : mem.toNat + gapSize32.toNat < 2 ^ 64) :
    Agreement mem ↔ himemStart < mem ∧ mem ≠ gapStart32 := by
  rw [UInt64.lt_iff_toNat_lt, himemStart_toNat, ne_eq, ← UInt64.toNat_inj, gapStart32_toNat]
  rcases Nat.lt_trichotomy mem.toNat 0xd0000000 with hlow | hgap | hhigh
  · constructor
    · intro h
      refine ⟨?_, by omega⟩
      -- the second entry has a size that neither wraps nor is zero
      have hle := h.no_underflow
      have hne := h.e820_nonempty
      rw [e820Differences_low hlow] at hle
      rw [e820Table_low hlow] at hne
      have hle' : himemStart ≤ mem := hle _ List.mem_cons_self
      have hne' := hne ⟨himemStart, mem - himemStart, e820Ram⟩ (by simp)
      have hsize := UInt64.toNat_sub_of_le _ _ hle'
      simp only [E820Entry.range, himemStart_toNat, hsize, Set.nonempty_Ico,
        lt_add_iff_pos_right, tsub_pos_iff_lt] at hne'
      exact hne'
    · rintro ⟨hmin, -⟩
      exact agreement_low hlow hmin
  · constructor
    · intro h
      have hne := h.slots_nonempty
      rw [createMemory_high (by omega) hbound] at hne
      have hsize := high_size (by omega) hbound
      have hne' := hne ⟨1, 0, maxMemSize32, memorySize mem - maxMemSize32, maxMemSize32⟩ (by simp)
      simp only [Region.range, hsize, Set.nonempty_Ico, lt_add_iff_pos_right,
        tsub_pos_iff_lt] at hne'
      omega
    · rintro ⟨-, hne⟩
      contradiction
  · constructor
    · intro _
      omega
    · intro _
      exact agreement_high hhigh hbound

/-- The memory of the machine that `vmm.h` starts. -/
theorem fourGiB_agrees : Agreement ((4096 : UInt64) <<< 20) :=
  (agreement_iff _ (by decide)).mpr ⟨by decide, by decide⟩

/-- A memory that ends where the gap starts gets an empty second slot. -/
theorem gap_start_disagrees : ¬ Agreement gapStart32 := by
  intro h
  have hmem : (⟨1, 0, maxMemSize32, 0, maxMemSize32⟩ : Region) ∈ createMemory gapStart32 := by
    decide
  have hne := h.slots_nonempty _ hmem
  simp [Region.range] at hne

end Kthxvm.MemoryMap
