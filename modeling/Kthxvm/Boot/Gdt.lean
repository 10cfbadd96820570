import Kthxvm.Lib.BitField

/-! Segment descriptors, `gdt.h`. -/
namespace Kthxvm.Gdt

open Lib.BitField

def entry (flags : UInt16) (base limit : UInt32) : UInt64 :=
  ((base.toUInt64 &&& 0xff000000) <<< (56 - 24)) |||
    ((flags.toUInt64 &&& 0x0000f0ff) <<< 40) |||
    ((limit.toUInt64 &&& 0x000f0000) <<< (48 - 16)) |||
    ((base.toUInt64 &&& 0x00ffffff) <<< 16) |||
    (limit.toUInt64 &&& 0x0000ffff)

def getBase (entry : UInt64) : UInt64 :=
  ((entry &&& 0xFF00000000000000) >>> 32) |||
    ((entry &&& 0x000000FF00000000) >>> 16) |||
    ((entry &&& 0x00000000FFFF0000) >>> 16)

def getLimit (entry : UInt64) : UInt32 :=
  (((entry &&& 0x000F000000000000) >>> 32) ||| (entry &&& 0x000000000000FFFF)).toUInt32

def getG (entry : UInt64) : UInt8 := ((entry &&& 0x0080000000000000) >>> 55).toUInt8
def getDb (entry : UInt64) : UInt8 := ((entry &&& 0x0040000000000000) >>> 54).toUInt8
def getL (entry : UInt64) : UInt8 := ((entry &&& 0x0020000000000000) >>> 53).toUInt8
def getAvl (entry : UInt64) : UInt8 := ((entry &&& 0x0010000000000000) >>> 52).toUInt8
def getP (entry : UInt64) : UInt8 := ((entry &&& 0x0000800000000000) >>> 47).toUInt8
def getDpl (entry : UInt64) : UInt8 := ((entry &&& 0x0000600000000000) >>> 45).toUInt8
def getS (entry : UInt64) : UInt8 := ((entry &&& 0x0000100000000000) >>> 44).toUInt8
def getType (entry : UInt64) : UInt8 := ((entry &&& 0x00000F0000000000) >>> 40).toUInt8

structure Segment where
  base : UInt64
  limit : UInt32
  selector : UInt16
  type : UInt8
  present : UInt8
  dpl : UInt8
  db : UInt8
  s : UInt8
  l : UInt8
  g : UInt8
  avl : UInt8
  unusable : UInt8
  padding : UInt8
deriving DecidableEq

def segment (index : UInt8) (entry : UInt64) : Segment where
  base := getBase entry
  limit := getLimit entry
  selector := index.toUInt16 * 8
  type := getType entry
  present := getP entry
  dpl := getDpl entry
  db := getDb entry
  s := getS entry
  l := getL entry
  g := getG entry
  avl := getAvl entry
  unusable := if getP entry = 0 then 1 else 0
  padding := 0

/-- `gdt::table`: the null, code, data and task state descriptors. -/
def table : Vector UInt64 4 :=
  #v[entry 0 0 0, entry 0xa09b 0 0xfffff, entry 0xc093 0 0xfffff, entry 0x808b 0 0xfffff]

/-! What the getters cut out. -/

theorem toNat_getBase (entry : UInt64) : (getBase entry).toNat =
    field entry.toNat 56 8 * 2 ^ 24 + field entry.toNat 32 8 * 2 ^ 16 +
      field entry.toNat 16 16 := by
  have hhigh : ((entry &&& 0xFF00000000000000) >>> 32).toNat = field entry.toNat 56 8 * 2 ^ 24 :=
    toNat_and_shiftRight entry rfl (by decide) (by decide)
  have hmiddle : ((entry &&& 0x000000FF00000000) >>> 16).toNat = field entry.toNat 32 8 * 2 ^ 16 :=
    toNat_and_shiftRight entry rfl (by decide) (by decide)
  have hlow : ((entry &&& 0x00000000FFFF0000) >>> 16).toNat = field entry.toNat 16 16 * 2 ^ 0 :=
    toNat_and_shiftRight entry rfl (by decide) (by decide)
  have hm := field_lt entry.toNat 32 8
  have hl := field_lt entry.toNat 16 16
  have hjoin : field entry.toNat 56 8 * 2 ^ 24 + field entry.toNat 32 8 * 2 ^ 16 =
      (field entry.toNat 56 8 * 2 ^ 8 + field entry.toNat 32 8) * 2 ^ 16 := by omega
  unfold getBase
  rw [UInt64.toNat_or, UInt64.toNat_or, hhigh, hmiddle, hlow, or_eq_add (by omega), hjoin,
    Nat.pow_zero, Nat.mul_one, or_eq_add hl]

theorem toNat_getLimit (entry : UInt64) : (getLimit entry).toNat =
    field entry.toNat 48 4 * 2 ^ 16 + field entry.toNat 0 16 := by
  have hhigh : ((entry &&& 0x000F000000000000) >>> 32).toNat = field entry.toNat 48 4 * 2 ^ 16 :=
    toNat_and_shiftRight entry rfl (by decide) (by decide)
  have hlow : (entry &&& 0x000000000000FFFF).toNat = field entry.toNat 0 16 := by
    have hmask : (0x000000000000FFFF : UInt64).toNat = 2 ^ 16 - 1 := rfl
    rw [UInt64.toNat_and, hmask, Nat.and_two_pow_sub_one_eq_mod, field, Nat.pow_zero, Nat.div_one]
  have hh := field_lt entry.toNat 48 4
  have hl := field_lt entry.toNat 0 16
  unfold getLimit
  rw [UInt64.toNat_toUInt32, UInt64.toNat_or, hhigh, hlow, or_eq_add hl,
    Nat.mod_eq_of_lt (by omega)]

theorem toNat_getter (entry : UInt64) {m s : UInt64} {k w : Nat}
    (hm : m.toNat = (2 ^ w - 1) * 2 ^ k) (hs : s.toNat = k) (hk : k < 64) (hw : w ≤ 8) :
    ((entry &&& m) >>> s).toUInt8.toNat = field entry.toNat k w := by
  have hlt : field entry.toNat k w < 2 ^ 8 :=
    Nat.lt_of_lt_of_le (field_lt _ _ _) (Nat.pow_le_pow_right (by decide) hw)
  rw [UInt64.toNat_toUInt8, toNat_and_shiftRight entry hm (Nat.le_of_eq hs) hk, hs, Nat.sub_self,
    Nat.pow_zero, Nat.mul_one, Nat.mod_eq_of_lt hlt]

theorem toNat_getG (entry : UInt64) : (getG entry).toNat = field entry.toNat 55 1 :=
  toNat_getter entry rfl rfl (by decide) (by decide)

theorem toNat_getDb (entry : UInt64) : (getDb entry).toNat = field entry.toNat 54 1 :=
  toNat_getter entry rfl rfl (by decide) (by decide)

theorem toNat_getL (entry : UInt64) : (getL entry).toNat = field entry.toNat 53 1 :=
  toNat_getter entry rfl rfl (by decide) (by decide)

theorem toNat_getAvl (entry : UInt64) : (getAvl entry).toNat = field entry.toNat 52 1 :=
  toNat_getter entry rfl rfl (by decide) (by decide)

theorem toNat_getP (entry : UInt64) : (getP entry).toNat = field entry.toNat 47 1 :=
  toNat_getter entry rfl rfl (by decide) (by decide)

theorem toNat_getDpl (entry : UInt64) : (getDpl entry).toNat = field entry.toNat 45 2 :=
  toNat_getter entry rfl rfl (by decide) (by decide)

theorem toNat_getS (entry : UInt64) : (getS entry).toNat = field entry.toNat 44 1 :=
  toNat_getter entry rfl rfl (by decide) (by decide)

theorem toNat_getType (entry : UInt64) : (getType entry).toNat = field entry.toNat 40 4 :=
  toNat_getter entry rfl rfl (by decide) (by decide)

end Kthxvm.Gdt
