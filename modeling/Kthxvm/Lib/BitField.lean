import Mathlib

/-! Contiguous fields of a word, and the masks that cut them out. -/
namespace Kthxvm.Lib.BitField

def field (a k w : Nat) : Nat := a / 2 ^ k % 2 ^ w

theorem field_lt (a k w : Nat) : field a k w < 2 ^ w := Nat.mod_lt _ (Nat.two_pow_pos w)

theorem and_mask (a k w : Nat) : a &&& (2 ^ w - 1) * 2 ^ k = field a k w * 2 ^ k := by
  apply Nat.eq_of_testBit_eq
  intro i
  unfold field
  rw [Nat.testBit_and, Nat.testBit_mul_two_pow, Nat.testBit_mul_two_pow,
    Nat.testBit_two_pow_sub_one, Nat.testBit_mod_two_pow, Nat.testBit_div_two_pow]
  by_cases hi : k ≤ i
  · rw [Nat.sub_add_cancel hi, Bool.and_comm (a.testBit i), Bool.and_assoc]
  · simp [hi]

theorem or_eq_add {a b k : Nat} (h : b < 2 ^ k) : a * 2 ^ k ||| b = a * 2 ^ k + b := by
  rw [Nat.mul_comm, Nat.two_pow_add_eq_or_of_lt h]

theorem toNat_and_shiftRight (d : UInt64) {m s : UInt64} {k w : Nat}
    (hm : m.toNat = (2 ^ w - 1) * 2 ^ k) (hs : s.toNat ≤ k) (hk : k < 64) :
    ((d &&& m) >>> s).toNat = field d.toNat k w * 2 ^ (k - s.toNat) := by
  have hpow : 2 ^ k = 2 ^ (k - s.toNat) * 2 ^ s.toNat := by
    rw [← pow_add, Nat.sub_add_cancel hs]
  rw [UInt64.toNat_shiftRight, UInt64.toNat_and, hm, and_mask, Nat.mod_eq_of_lt (by omega),
    Nat.shiftRight_eq_div_pow, hpow, ← Nat.mul_assoc,
    Nat.mul_div_cancel _ (Nat.two_pow_pos _)]

theorem field_field {a k w j v : Nat} (h : j + v ≤ w) :
    field (field a k w) j v = field a (k + j) v := by
  apply Nat.eq_of_testBit_eq
  intro i
  unfold field
  simp only [Nat.testBit_mod_two_pow, Nat.testBit_div_two_pow]
  by_cases hi : i < v
  · have hin : i + j < w := by omega
    simp only [hi, hin, decide_true, Bool.true_and, Nat.add_assoc, Nat.add_comm j k]
  · simp only [hi, decide_false, Bool.false_and]

theorem field_append (a k w v : Nat) :
    field a k (w + v) = field a (k + w) v * 2 ^ w + field a k w := by
  unfold field
  rw [pow_add, pow_add, Nat.mod_mul, Nat.div_div_eq_div_mul, Nat.add_comm, Nat.mul_comm (2 ^ w)]

theorem field_zero_of_lt {a w : Nat} (h : a < 2 ^ w) : field a 0 w = a := by
  rw [field, Nat.pow_zero, Nat.div_one, Nat.mod_eq_of_lt h]

theorem field_of_low {a b k j w : Nat} (h : j + w ≤ k) :
    field (a * 2 ^ k + b) j w = field b j w := by
  have hlow : field (a * 2 ^ k + b) 0 k = field b 0 k := by
    rw [field, field, Nat.pow_zero, Nat.div_one, Nat.div_one, Nat.mul_add_mod_self_right]
  rw [← Nat.zero_add j, ← field_field h, hlow, field_field h]

theorem field_of_high {a b k j w : Nat} (h : b < 2 ^ k) :
    field (a * 2 ^ k + b) (k + j) w = field a j w := by
  unfold field
  rw [pow_add, ← Nat.div_div_eq_div_mul, Nat.mul_comm a, Nat.mul_add_div (Nat.two_pow_pos k),
    Nat.div_eq_of_lt h, Nat.add_zero]

theorem mul_two_pow_lt {a w k n : Nat} (ha : a < 2 ^ w) (h : w + k ≤ n) : a * 2 ^ k < 2 ^ n :=
  calc a * 2 ^ k
      < 2 ^ w * 2 ^ k := Nat.mul_lt_mul_of_pos_right ha (Nat.two_pow_pos k)
    _ = 2 ^ (w + k) := (pow_add 2 w k).symm
    _ ≤ 2 ^ n := Nat.pow_le_pow_right (by decide) h

structure Piece where
  word : Nat
  first : Nat
  width : Nat

def pack : List Piece → Nat
  | [] => 0
  | piece :: pieces =>
    pack pieces * 2 ^ piece.width + field piece.word piece.first piece.width

@[simp] theorem pack_nil : pack [] = 0 := rfl

theorem pack_cons (a k w : Nat) (pieces : List Piece) :
    pack (⟨a, k, w⟩ :: pieces) = pack pieces * 2 ^ w + field a k w := rfl

def spread (s : Nat) : List Piece → Nat
  | [] => 0
  | piece :: pieces =>
    spread (s + piece.width) pieces ||| field piece.word piece.first piece.width * 2 ^ s

theorem spread_eq_pack_mul (s : Nat) (pieces : List Piece) :
    spread s pieces = pack pieces * 2 ^ s := by
  induction pieces generalizing s with
  | nil => rw [spread, pack_nil, Nat.zero_mul]
  | cons piece pieces ih =>
    rw [spread, ih, pack, ← or_eq_add (field_lt _ _ _), Nat.add_comm s, pow_add, ← Nat.mul_assoc,
      ← Nat.shiftLeft_eq _ s, ← Nat.shiftLeft_eq _ s, ← Nat.shiftLeft_eq _ s,
      Nat.shiftLeft_or_distrib]

theorem spread_zero (pieces : List Piece) : spread 0 pieces = pack pieces := by
  rw [spread_eq_pack_mul, Nat.pow_zero, Nat.mul_one]

theorem pack_append (pieces rest : List Piece) :
    pack (pieces ++ rest) = pack rest * 2 ^ (pieces.map Piece.width).sum + pack pieces := by
  induction pieces with
  | nil => rw [List.nil_append, List.map_nil, List.sum_nil, Nat.pow_zero, Nat.mul_one, pack_nil,
      Nat.add_zero]
  | cons piece pieces ih =>
    rw [List.cons_append, pack, ih, List.map_cons, List.sum_cons, pack, Nat.add_mul, Nat.mul_assoc,
      ← pow_add, Nat.add_comm piece.width, Nat.add_assoc]

theorem field_pack {pieces : List Piece} {i a k n s j w : Nat}
    (hi : pieces[i]? = some ⟨a, k, n⟩) (hs : ((pieces.take i).map Piece.width).sum = s)
    (h : j + w ≤ n) : field (pack pieces) (s + j) w = field a (k + j) w := by
  subst hs
  induction pieces generalizing i with
  | nil => exact nomatch hi
  | cons piece pieces ih =>
    cases i with
    | zero =>
      obtain rfl : piece = ⟨a, k, n⟩ := Option.some.inj hi
      rw [List.take_zero, List.map_nil, List.sum_nil, Nat.zero_add, pack_cons, field_of_low h,
        field_field h]
    | succ i =>
      rw [List.take_succ_cons, List.map_cons, List.sum_cons, Nat.add_assoc, pack,
        field_of_high (field_lt _ _ _), ih hi]

theorem field_pack_self {pieces : List Piece} {i a k n s : Nat}
    (hi : pieces[i]? = some ⟨a, k, n⟩) (hs : ((pieces.take i).map Piece.width).sum = s) :
    field (pack pieces) s n = field a k n :=
  field_pack (j := 0) hi hs (Nat.zero_add n).le

def cut (a : Nat) (k : Nat) : List Nat → List Piece
  | [] => []
  | w :: ws => ⟨a, k, w⟩ :: cut a (k + w) ws

theorem pack_cut (a k : Nat) (ws : List Nat) : pack (cut a k ws) = field a k ws.sum := by
  induction ws generalizing k with
  | nil => rw [cut, pack_nil, List.sum_nil, field, Nat.pow_zero, Nat.mod_one]
  | cons w ws ih => rw [cut, pack_cons, ih, List.sum_cons, field_append]

theorem toNat_and_shiftLeft (d : UInt64) {m s : UInt64} {k w : Nat}
    (hm : m.toNat = (2 ^ w - 1) * 2 ^ k) (h : w + (k + s.toNat) ≤ 64) (hs : s.toNat < 64) :
    ((d &&& m) <<< s).toNat = field d.toNat k w * 2 ^ (k + s.toNat) := by
  have hlt := mul_two_pow_lt (field_lt d.toNat k w) h
  rw [UInt64.toNat_shiftLeft, UInt64.toNat_and, hm, and_mask, Nat.mod_eq_of_lt hs,
    Nat.shiftLeft_eq, Nat.mul_assoc, ← pow_add, Nat.mod_eq_of_lt hlt]

end Kthxvm.Lib.BitField
