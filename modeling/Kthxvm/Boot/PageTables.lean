import Kthxvm.Boot.LongMode
import Kthxvm.Lib.PageWalk

/-! The tables of `setup_long_mode` as the processor walks them. -/
namespace Kthxvm.LongMode

open Layout Lib.BitField Lib.ByteMemory Lib.PageWalk Lib.WriteLog

def ClearTables (m : Memory) : Prop :=
  ∀ x : UInt64, pml4Start.toNat ≤ x.toNat → x.toNat < pdeStart.toNat + 4096 → m x = 0

/-! The entries. -/

theorem toNat_pdeEntry {i : Nat} (hi : i < 512) : (pdeEntry i).toNat = 2 ^ 21 * i + 131 := by
  have hone : pde64Present.toNat = 1 := rfl
  have htwo : pde64Rw.toNat = 2 := rfl
  have hps : pde64Ps.toNat = 128 := rfl
  have hshift : (UInt64.ofNat i <<< 21).toNat = 2 ^ 21 * i := by
    have hbits : (21 : UInt64).toNat % 64 = 21 := rfl
    rw [UInt64.toNat_shiftLeft, UInt64.toNat_ofNat', hbits, Nat.shiftLeft_eq]
    omega
  have hsum : (UInt64.ofNat i <<< 21 + pde64Present).toNat = 2 ^ 21 * i + 1 := by
    rw [UInt64.toNat_add, hshift, hone]
    omega
  unfold pdeEntry
  rw [UInt64.toNat_or, UInt64.toNat_or, hsum, htwo, hps,
    Nat.two_pow_add_eq_or_of_lt (by decide), Nat.or_assoc, Nat.or_assoc,
    Nat.two_pow_add_eq_or_of_lt (by decide)]
  rfl

theorem flag_pdeEntry {i j : Nat} (hi : i < 512) (hj : j < 21) :
    (pdeEntry i).toNat.testBit j = (131).testBit j := by
  rw [toNat_pdeEntry hi, Nat.testBit_two_pow_mul_add _ (by decide), if_pos hj]

theorem present_pdeEntry {i : Nat} (hi : i < 512) : present (pdeEntry i) = true :=
  (flag_pdeEntry hi (by decide)).trans rfl

theorem writable_pdeEntry {i : Nat} (hi : i < 512) : writable (pdeEntry i) = true :=
  (flag_pdeEntry hi (by decide)).trans rfl

theorem pageSize_pdeEntry {i : Nat} (hi : i < 512) : pageSize (pdeEntry i) = true :=
  (flag_pdeEntry hi (by decide)).trans rfl

theorem frame_pdeEntry {i : Nat} (hi : i < 512) : frame (pdeEntry i) 21 = 2 ^ 21 * i := by
  unfold frame field
  rw [toNat_pdeEntry hi]
  omega

/-! The words of the upper two tables that are not stored. -/

theorem load64_clear {m : Memory} (h : ClearTables m) {a : UInt64} (hpml4 : 0x9008 ≤ a.toNat)
    (hpdpte : a.toNat + 8 ≤ 0xa000 ∨ 0xa008 ≤ a.toNat) (hpde : a.toNat + 8 ≤ 0xb000) :
    load64 (storeAll m stores) a = 0 := by
  have hstart : pml4Start.toNat = 0x9000 := rfl
  have hend : pdeStart.toNat = 0xb000 := rfl
  have hzero : AgreeOn ⟨a, 8⟩ m fun _ => 0 := by
    intro x hx
    rw [Span.mem_iff_toNat (by omega)] at hx
    exact h x (by omega) (by omega)
  rw [load64_untouched m (by omega) (by omega) (by omega) hpdpte hpde]
  exact hzero.load64_eq.trans (load64_zeros a)

/-! The walk. -/

section Walk

variable {m : Memory} (v : Nat)

theorem walk_pde (m : Memory) : walk (storeAll m stores) v 1 pdeStart.toNat =
    some (page v 1 (pdeEntry (index v 1))) := by
  have hi : index v 1 < 512 := field_lt _ _ 9
  have haddr : UInt64.ofNat (pdeStart.toNat + 8 * index v 1) = pdeAddr (index v 1) := by
    rw [UInt64.ofNat_add, UInt64.ofNat_toNat]
    rfl
  have hentry : entryAt (storeAll m stores) v 1 pdeStart.toNat = pdeEntry (index v 1) := by
    unfold entryAt
    rw [haddr, load64_pde m hi]
  exact walk_page hentry (by decide) (present_pdeEntry hi) (pageSize_pdeEntry hi)

variable (h : ClearTables m)

include h

theorem walk_pdpte : walk (storeAll m stores) v 2 pdpteStart.toNat =
    if index v 2 = 0 then
      some ((page v 1 (pdeEntry (index v 1))).through pdpteEntry)
    else none := by
  have hi : index v 2 < 512 := field_lt _ _ 9
  have hstart : pdpteStart.toNat = 0xa000 := rfl
  split
  next hzero =>
    have hentry : entryAt (storeAll m stores) v 2 pdpteStart.toNat = pdpteEntry := by
      unfold entryAt
      rw [hzero]
      exact load64_pdpte m
    have hframe : frame pdpteEntry 12 = pdeStart.toNat := by decide
    rw [walk_table hentry (by decide) (by decide), hframe, walk_pde]
    rfl
  next hnonzero =>
    have haddr : (UInt64.ofNat (pdpteStart.toNat + 8 * index v 2)).toNat =
        0xa000 + 8 * index v 2 := by
      rw [UInt64.toNat_ofNat', hstart]
      omega
    have hentry : entryAt (storeAll m stores) v 2 pdpteStart.toNat = 0 :=
      load64_clear h (by omega) (by omega) (by omega)
    exact walk_absent hentry (by decide)

theorem walk_pml4 : walk (storeAll m stores) v 3 pml4Start.toNat =
    if index v 3 = 0 ∧ index v 2 = 0 then
      some (((page v 1 (pdeEntry (index v 1))).through pdpteEntry).through pml4Entry)
    else none := by
  have hi : index v 3 < 512 := field_lt _ _ 9
  have hstart : pml4Start.toNat = 0x9000 := rfl
  by_cases hzero : index v 3 = 0
  · have hentry : entryAt (storeAll m stores) v 3 pml4Start.toNat = pml4Entry := by
      unfold entryAt
      rw [hzero]
      exact load64_pml4 m
    have hframe : frame pml4Entry 12 = pdpteStart.toNat := by decide
    rw [walk_table hentry (by decide) (by decide), hframe, walk_pdpte v h]
    by_cases hzero' : index v 2 = 0
    · rw [if_pos hzero', if_pos ⟨hzero, hzero'⟩]
      rfl
    · rw [if_neg hzero', if_neg fun hboth => hzero' hboth.2]
      rfl
  · have haddr : (UInt64.ofNat (pml4Start.toNat + 8 * index v 3)).toNat =
        0x9000 + 8 * index v 3 := by
      rw [UInt64.toNat_ofNat', hstart]
      omega
    have hentry : entryAt (storeAll m stores) v 3 pml4Start.toNat = 0 :=
      load64_clear h (by omega) (by omega) (by omega)
    rw [if_neg fun hboth => hzero hboth.1]
    exact walk_absent hentry (by decide)

end Walk

theorem resolve_stores {m : Memory} (h : ClearTables m) (v : BitVec 48) :
    resolve (storeAll m stores) pml4Start v =
      if v.toNat < 2 ^ 30 then
        some ⟨v.toNat, [pml4Entry, pdpteEntry, pdeEntry (v.toNat / 2 ^ 21)]⟩
      else none := by
  have hv := v.isLt
  have hframe : frame pml4Start 12 = pml4Start.toNat := by decide
  have hpml4 : index v.toNat 3 = v.toNat / 2 ^ 39 % 2 ^ 9 := rfl
  have hpdpte : index v.toNat 2 = v.toNat / 2 ^ 30 % 2 ^ 9 := rfl
  have hpde : index v.toNat 1 = v.toNat / 2 ^ 21 % 2 ^ 9 := rfl
  unfold resolve
  rw [hframe, walk_pml4 v.toNat h]
  by_cases hlow : v.toNat < 2 ^ 30
  · have hindex : index v.toNat 1 = v.toNat / 2 ^ 21 := by omega
    have hpage : page v.toNat 1 (pdeEntry (index v.toNat 1)) =
        ⟨v.toNat, [pdeEntry (v.toNat / 2 ^ 21)]⟩ := by
      have hshift : shift 1 = 21 := rfl
      unfold page
      rw [hindex, hshift, frame_pdeEntry (by omega), Nat.div_add_mod]
    rw [if_pos hlow, if_pos (by omega), hpage]
    rfl
  · rw [if_neg hlow, if_neg (by omega)]

/-- The tables map the first GiB to itself and nothing else. -/
theorem first_gib_identity (g : Guest) (sregs : Sregs) (hsize : 0xc000 ≤ g.size)
    (hclear : ClearTables g.bytes) :
    ∃ g' sregs', setupLongMode g sregs = .ok (g', sregs') ∧ ∀ v : BitVec 48,
      (v.toNat < 2 ^ 30 → ∃ t, resolve g'.bytes sregs'.cr3 v = some t ∧ t.addr = v.toNat ∧
        ∀ entry ∈ t.entries, present entry = true ∧ writable entry = true) ∧
      (2 ^ 30 ≤ v.toNat → resolve g'.bytes sregs'.cr3 v = none) := by
  obtain ⟨sregs', hsetup, hloaded⟩ := setupLongMode_ok sregs hsize
  refine ⟨_, sregs', hsetup, fun v => ?_⟩
  have hresolve := resolve_stores hclear v
  rw [hloaded.cr3]
  dsimp only
  constructor
  · intro hlow
    rw [if_pos hlow] at hresolve
    refine ⟨_, hresolve, rfl, ?_⟩
    have hi : v.toNat / 2 ^ 21 < 512 := by omega
    intro entry hentry
    simp only [List.mem_cons, List.not_mem_nil, or_false] at hentry
    rcases hentry with rfl | rfl | rfl
    · decide
    · decide
    · exact ⟨present_pdeEntry hi, writable_pdeEntry hi⟩
  · intro hhigh
    rwa [if_neg (by omega)] at hresolve

theorem first_gib_identity_fresh :
    ∃ g' sregs', setupLongMode ⟨fun _ => 0, 0x100000⟩ nullSregs = .ok (g', sregs') ∧
      ∀ v : BitVec 48,
        (v.toNat < 2 ^ 30 → ∃ t, resolve g'.bytes sregs'.cr3 v = some t ∧ t.addr = v.toNat ∧
          ∀ entry ∈ t.entries, present entry = true ∧ writable entry = true) ∧
        (2 ^ 30 ≤ v.toNat → resolve g'.bytes sregs'.cr3 v = none) :=
  first_gib_identity ⟨fun _ => 0, 0x100000⟩ nullSregs (by decide) fun _ _ _ => rfl

end Kthxvm.LongMode
