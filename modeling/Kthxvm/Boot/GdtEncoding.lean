import Kthxvm.Boot.Gdt

/-! `gdt::entry` and `gdt::segment` as inverses: what a descriptor is built from is what its
segment shows, and what a segment shows is what its descriptor is built from. -/
namespace Kthxvm.Gdt

open Lib.BitField

def Segment.flags (s : Segment) : UInt16 :=
  s.type.toUInt16 ||| (s.s.toUInt16 <<< 4) ||| (s.dpl.toUInt16 <<< 5) |||
    (s.present.toUInt16 <<< 7) ||| (s.avl.toUInt16 <<< 12) ||| (s.l.toUInt16 <<< 13) |||
    (s.db.toUInt16 <<< 14) ||| (s.g.toUInt16 <<< 15)

structure Segment.Shows (seg : Segment) (flags : UInt16) (base limit : UInt32) : Prop where
  base : seg.base = base.toUInt64
  limit : seg.limit = limit
  type : seg.type.toNat = field flags.toNat 0 4
  s : seg.s.toNat = field flags.toNat 4 1
  dpl : seg.dpl.toNat = field flags.toNat 5 2
  present : seg.present.toNat = field flags.toNat 7 1
  avl : seg.avl.toNat = field flags.toNat 12 1
  l : seg.l.toNat = field flags.toNat 13 1
  db : seg.db.toNat = field flags.toNat 14 1
  g : seg.g.toNat = field flags.toNat 15 1
  unusable : seg.unusable = 1 - seg.present

/-! What `gdt::entry` puts where. -/

/-- The mask on the flags leaves out the four bits where the descriptor has its limit. -/
theorem toNat_flags_and (flags : UInt16) : ((flags.toUInt64 &&& 0x0000f0ff) <<< 40).toNat =
    field flags.toNat 12 4 * 2 ^ 52 ||| field flags.toNat 0 8 * 2 ^ 40 := by
  have hsplit : flags.toUInt64 &&& 0x0000f0ff =
      (flags.toUInt64 &&& 0xf000) ||| (flags.toUInt64 &&& 0x00ff) := by
    apply UInt64.toNat_inj.mp
    rw [UInt64.toNat_or, UInt64.toNat_and, UInt64.toNat_and, UInt64.toNat_and,
      ← Nat.and_or_distrib_left]
    rfl
  have hhigh : ((flags.toUInt64 &&& 0xf000) <<< 40).toNat = field flags.toNat 12 4 * 2 ^ 52 :=
    toNat_and_shiftLeft (k := 12) (w := 4) flags.toUInt64 rfl (by decide) (by decide)
  have hlow : ((flags.toUInt64 &&& 0x00ff) <<< 40).toNat = field flags.toNat 0 8 * 2 ^ 40 :=
    toNat_and_shiftLeft (k := 0) (w := 8) flags.toUInt64 rfl (by decide) (by decide)
  rw [hsplit, UInt64.shiftLeft_or, UInt64.toNat_or, hhigh, hlow]

/-- From the first bit on, the pieces of a descriptor. -/
def pieces (flags : UInt16) (base limit : UInt32) : List Piece :=
  [⟨limit.toNat, 0, 16⟩, ⟨base.toNat, 0, 24⟩, ⟨flags.toNat, 0, 8⟩, ⟨limit.toNat, 16, 4⟩,
    ⟨flags.toNat, 12, 4⟩, ⟨base.toNat, 24, 8⟩]

theorem toNat_entry (flags : UInt16) (base limit : UInt32) :
    (entry flags base limit).toNat = pack (pieces flags base limit) := by
  have hbaseHigh : ((base.toUInt64 &&& 0xff000000) <<< (56 - 24)).toNat =
      field base.toNat 24 8 * 2 ^ 56 :=
    toNat_and_shiftLeft (k := 24) (w := 8) base.toUInt64 rfl (by decide) (by decide)
  have hlimitHigh : ((limit.toUInt64 &&& 0x000f0000) <<< (48 - 16)).toNat =
      field limit.toNat 16 4 * 2 ^ 48 :=
    toNat_and_shiftLeft (k := 16) (w := 4) limit.toUInt64 rfl (by decide) (by decide)
  have hbaseLow : ((base.toUInt64 &&& 0x00ffffff) <<< 16).toNat = field base.toNat 0 24 * 2 ^ 16 :=
    toNat_and_shiftLeft (k := 0) (w := 24) base.toUInt64 rfl (by decide) (by decide)
  have hlimitLow : (limit.toUInt64 &&& 0x0000ffff).toNat = field limit.toNat 0 16 := by
    have hmask : (0x0000ffff : UInt64).toNat = (2 ^ 16 - 1) * 2 ^ 0 := rfl
    rw [UInt64.toNat_and, hmask, and_mask, Nat.pow_zero, Nat.mul_one, UInt32.toNat_toUInt64]
  unfold entry
  rw [UInt64.toNat_or, UInt64.toNat_or, UInt64.toNat_or, UInt64.toNat_or, hbaseHigh,
    toNat_flags_and, hlimitHigh, hbaseLow, hlimitLow, ← spread_zero]
  simp only [pieces, spread, Nat.reduceAdd, Nat.zero_or, Nat.pow_zero, Nat.mul_one]
  ac_rfl

/-! What can be read of it. -/

section Entry

variable (flags : UInt16) (base limit : UInt32)

theorem field_entry_limitLow :
    field (entry flags base limit).toNat 0 16 = field limit.toNat 0 16 := by
  rw [toNat_entry]
  exact field_pack_self (i := 0) rfl rfl

theorem field_entry_baseLow :
    field (entry flags base limit).toNat 16 24 = field base.toNat 0 24 := by
  rw [toNat_entry]
  exact field_pack_self (i := 1) rfl rfl

theorem field_entry_flags {j w : Nat} (h : j + w ≤ 8) :
    field (entry flags base limit).toNat (40 + j) w = field flags.toNat j w := by
  rw [toNat_entry, field_pack (i := 2) (s := 40) rfl rfl h, Nat.zero_add]

theorem field_entry_limitHigh :
    field (entry flags base limit).toNat 48 4 = field limit.toNat 16 4 := by
  rw [toNat_entry]
  exact field_pack_self (i := 3) rfl rfl

theorem field_entry_flagsHigh {j w : Nat} (h : j + w ≤ 4) :
    field (entry flags base limit).toNat (52 + j) w = field flags.toNat (12 + j) w := by
  rw [toNat_entry, field_pack (i := 4) (s := 52) rfl rfl h]

theorem field_entry_baseHigh :
    field (entry flags base limit).toNat 56 8 = field base.toNat 24 8 := by
  rw [toNat_entry]
  exact field_pack_self (i := 5) rfl rfl

end Entry

theorem toNat_getBase_pack (d : UInt64) :
    (getBase d).toNat = pack [⟨d.toNat, 16, 24⟩, ⟨d.toNat, 56, 8⟩] := by
  have hlow : field d.toNat 16 24 = field d.toNat 32 8 * 2 ^ 16 + field d.toNat 16 16 :=
    field_append d.toNat 16 16 8
  rw [toNat_getBase, pack_cons, pack_cons, pack_nil, hlow]
  omega

theorem toNat_getLimit_pack (d : UInt64) :
    (getLimit d).toNat = pack [⟨d.toNat, 0, 16⟩, ⟨d.toNat, 48, 4⟩] := by
  rw [toNat_getLimit, pack_cons, pack_cons, pack_nil, Nat.zero_mul, Nat.zero_add]

theorem getP_eq (d : UInt64) : getP d = 0 ∨ getP d = 1 := by
  have hlt : (getP d).toNat < 2 ^ 1 := by
    rw [toNat_getP]
    exact field_lt _ _ _
  rcases Nat.lt_or_ge (getP d).toNat 1 with h | h
  · exact Or.inl (UInt8.toNat_inj.mp (Nat.lt_one_iff.mp h))
  · exact Or.inr (UInt8.toNat_inj.mp (Nat.le_antisymm (Nat.le_of_lt_succ hlt) h))

theorem shows_segment (i : UInt8) (flags : UInt16) (base : UInt32) {limit : UInt32}
    (hlimit : limit.toNat < 2 ^ 20) :
    (segment i (entry flags base limit)).Shows flags base limit where
  base := by
    have hcut := pack_cut base.toNat 0 [24, 8]
    rw [cut, cut, cut, pack_cons, pack_cons] at hcut
    apply UInt64.toNat_inj.mp
    rw [segment, toNat_getBase_pack, pack_cons, pack_cons, field_entry_baseHigh,
      field_entry_baseLow, UInt32.toNat_toUInt64]
    exact hcut.trans (field_zero_of_lt base.toNat_lt)
  limit := by
    have hcut := pack_cut limit.toNat 0 [16, 4]
    rw [cut, cut, cut, pack_cons, pack_cons] at hcut
    apply UInt32.toNat_inj.mp
    rw [segment, toNat_getLimit_pack, pack_cons, pack_cons, field_entry_limitHigh,
      field_entry_limitLow]
    exact hcut.trans (field_zero_of_lt hlimit)
  type := (toNat_getType _).trans (field_entry_flags (j := 0) _ _ _ (by decide))
  s := (toNat_getS _).trans (field_entry_flags (j := 4) _ _ _ (by decide))
  dpl := (toNat_getDpl _).trans (field_entry_flags (j := 5) _ _ _ (by decide))
  present := (toNat_getP _).trans (field_entry_flags (j := 7) _ _ _ (by decide))
  avl := (toNat_getAvl _).trans (field_entry_flagsHigh (j := 0) _ _ _ (by decide))
  l := (toNat_getL _).trans (field_entry_flagsHigh (j := 1) _ _ _ (by decide))
  db := (toNat_getDb _).trans (field_entry_flagsHigh (j := 2) _ _ _ (by decide))
  g := (toNat_getG _).trans (field_entry_flagsHigh (j := 3) _ _ _ (by decide))
  unusable := by
    dsimp only [segment]
    rcases getP_eq (entry flags base limit) with hp | hp
    · rw [hp]
      rfl
    · rw [hp]
      rfl

/-! What the fields of a segment make up. -/

theorem toNat_toUInt16_shiftLeft (b : UInt8) {k : UInt16} {w : Nat} (hb : b.toNat < 2 ^ w)
    (hk : w + k.toNat ≤ 16) (hk' : k.toNat < 16) :
    (b.toUInt16 <<< k).toNat = b.toNat * 2 ^ k.toNat := by
  have hlt := mul_two_pow_lt hb hk
  rw [UInt16.toNat_shiftLeft, Nat.mod_eq_of_lt hk', UInt8.toNat_toUInt16, Nat.shiftLeft_eq,
    Nat.mod_eq_of_lt hlt]

theorem toNat_flags (i : UInt8) (d : UInt64) : (segment i d).flags.toNat =
    pack [⟨d.toNat, 40, 8⟩, ⟨0, 0, 4⟩, ⟨d.toNat, 52, 4⟩] := by
  have hs := field_lt d.toNat 44 1
  have hdpl := field_lt d.toNat 45 2
  have hp := field_lt d.toNat 47 1
  have havl := field_lt d.toNat 52 1
  have hl := field_lt d.toNat 53 1
  have hdb := field_lt d.toNat 54 1
  have hg := field_lt d.toNat 55 1
  have hbits : (segment i d).flags.toNat = spread 0
      (cut d.toNat 40 [4, 1, 2, 1] ++ ⟨0, 0, 4⟩ :: cut d.toNat 52 [1, 1, 1, 1]) := by
    simp only [Segment.flags, segment, UInt16.toNat_or, UInt8.toNat_toUInt16]
    rw [toNat_toUInt16_shiftLeft (w := 1) _ (by rwa [toNat_getS]) (by decide) (by decide),
      toNat_toUInt16_shiftLeft (w := 2) _ (by rwa [toNat_getDpl]) (by decide) (by decide),
      toNat_toUInt16_shiftLeft (w := 1) _ (by rwa [toNat_getP]) (by decide) (by decide),
      toNat_toUInt16_shiftLeft (w := 1) _ (by rwa [toNat_getAvl]) (by decide) (by decide),
      toNat_toUInt16_shiftLeft (w := 1) _ (by rwa [toNat_getL]) (by decide) (by decide),
      toNat_toUInt16_shiftLeft (w := 1) _ (by rwa [toNat_getDb]) (by decide) (by decide),
      toNat_toUInt16_shiftLeft (w := 1) _ (by rwa [toNat_getG]) (by decide) (by decide),
      toNat_getType, toNat_getS, toNat_getDpl, toNat_getP, toNat_getAvl, toNat_getL, toNat_getDb,
      toNat_getG]
    simp only [cut, List.cons_append, List.nil_append, spread, Nat.reduceAdd,
      Nat.zero_or, Nat.pow_zero, Nat.mul_one]
    ac_rfl
  rw [hbits, spread_zero, pack_append, pack_cut, pack_cons, pack_cut, pack_cons, pack_cons,
    pack_cons, pack_nil, Nat.zero_mul, Nat.zero_add]
  rfl

theorem toNat_getBase_toUInt32 (d : UInt64) : (getBase d).toUInt32.toNat = (getBase d).toNat := by
  have hlow := field_lt d.toNat 16 24
  have hhigh := field_lt d.toNat 56 8
  rw [UInt64.toNat_toUInt32, toNat_getBase_pack, pack_cons, pack_cons, pack_nil]
  omega

theorem flags_segment (i : UInt8) {flags : UInt16} (base limit : UInt32)
    (hflags : flags &&& 0x0f00 = 0) : (segment i (entry flags base limit)).flags = flags := by
  have hzero : field flags.toNat 8 4 = 0 := by
    have hand := congrArg UInt16.toNat hflags
    have hmask : (0x0f00 : UInt16).toNat = (2 ^ 4 - 1) * 2 ^ 8 := rfl
    rw [UInt16.toNat_and, hmask, and_mask] at hand
    exact (Nat.mul_eq_zero.mp hand).resolve_right (by decide)
  have hcut := pack_cut flags.toNat 0 [8, 4, 4]
  rw [cut, cut, cut, cut, pack_cons, pack_cons, hzero] at hcut
  apply UInt16.toNat_inj.mp
  rw [toNat_flags, pack_cons, pack_cons, pack_cons, field_entry_flags (j := 0) _ _ _ (by decide),
    field_entry_flagsHigh (j := 0) _ _ _ (by decide)]
  exact hcut.trans (field_zero_of_lt flags.toNat_lt)

theorem entry_segment (i : UInt8) (d : UInt64) :
    entry (segment i d).flags (segment i d).base.toUInt32 (segment i d).limit = d := by
  have hpieces : pack (pieces (segment i d).flags (getBase d).toUInt32 (getLimit d)) =
      pack (cut d.toNat 0 [16, 24, 8, 4, 4, 8]) := by
    have hlimitLow : field (getLimit d).toNat 0 16 = field d.toNat 0 16 := by
      rw [toNat_getLimit_pack]
      exact field_pack_self (i := 0) rfl rfl
    have hlimitHigh : field (getLimit d).toNat 16 4 = field d.toNat 48 4 := by
      rw [toNat_getLimit_pack]
      exact field_pack_self (i := 1) rfl rfl
    have hbaseLow : field (getBase d).toUInt32.toNat 0 24 = field d.toNat 16 24 := by
      rw [toNat_getBase_toUInt32, toNat_getBase_pack]
      exact field_pack_self (i := 0) rfl rfl
    have hbaseHigh : field (getBase d).toUInt32.toNat 24 8 = field d.toNat 56 8 := by
      rw [toNat_getBase_toUInt32, toNat_getBase_pack]
      exact field_pack_self (i := 1) rfl rfl
    have hflagsLow : field (segment i d).flags.toNat 0 8 = field d.toNat 40 8 := by
      rw [toNat_flags]
      exact field_pack_self (i := 0) rfl rfl
    have hflagsHigh : field (segment i d).flags.toNat 12 4 = field d.toNat 52 4 := by
      rw [toNat_flags]
      exact field_pack_self (i := 2) rfl rfl
    simp only [pieces, cut, pack_cons, Nat.reduceAdd, hlimitLow, hbaseLow, hflagsLow, hlimitHigh,
      hflagsHigh, hbaseHigh]
  apply UInt64.toNat_inj.mp
  calc (entry (segment i d).flags (getBase d).toUInt32 (getLimit d)).toNat
      = pack (cut d.toNat 0 [16, 24, 8, 4, 4, 8]) := (toNat_entry _ _ _).trans hpieces
    _ = field d.toNat 0 64 := pack_cut _ _ _
    _ = d.toNat := field_zero_of_lt d.toNat_lt

theorem segment_inj {i : UInt8} {d d' : UInt64} (h : segment i d = segment i d') : d = d' := by
  rw [← entry_segment i d, h, entry_segment]

/-- Building a descriptor and showing its segment are inverse to one another: for flags that leave
the limit's four bits alone and a limit of twenty bits, and for every descriptor. -/
theorem entry_segment_round_trip (i : UInt8) :
    (∀ (flags : UInt16) (base limit : UInt32), flags &&& 0x0f00 = 0 → limit.toNat < 2 ^ 20 →
      (segment i (entry flags base limit)).Shows flags base limit ∧
        (segment i (entry flags base limit)).flags = flags) ∧
    ∀ d, entry (segment i d).flags (segment i d).base.toUInt32 (segment i d).limit = d :=
  ⟨fun flags base _ hflags hlimit =>
    ⟨shows_segment i flags base hlimit, flags_segment i base _ hflags⟩, entry_segment i⟩

theorem entry_segment_round_trip_code :
    (segment 1 (entry 0xa09b 0x12345678 0xfffff)).Shows 0xa09b 0x12345678 0xfffff ∧
      entry (segment 1 0x12af9b345678ffff).flags (segment 1 0x12af9b345678ffff).base.toUInt32
        (segment 1 0x12af9b345678ffff).limit = 0x12af9b345678ffff :=
  ⟨((entry_segment_round_trip 1).1 0xa09b 0x12345678 0xfffff (by decide) (by decide)).1,
    (entry_segment_round_trip 1).2 0x12af9b345678ffff⟩

end Kthxvm.Gdt
