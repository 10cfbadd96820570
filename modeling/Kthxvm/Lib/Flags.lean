import Mathlib

/-! A byte as a set of flags, and what masks do to flags that they do not name. -/
namespace Kthxvm.Lib.Flags

variable {x m k : UInt8}

theorem eq_of_bits {y : UInt8}
    (h : ∀ i < 8, x.toBitVec.getLsbD i = y.toBitVec.getLsbD i) : x = y :=
  UInt8.toBitVec_inj.mp (BitVec.eq_of_getLsbD_eq h)

theorem bits_of_apart (h : m &&& k = 0) (i : Nat) :
    (m.toBitVec.getLsbD i && k.toBitVec.getLsbD i) = false := by
  have hbits := congrArg (fun y : UInt8 => y.toBitVec.getLsbD i) h
  simpa using hbits

theorem bits_of_within (h : x ||| m = x) (i : Nat) :
    (x.toBitVec.getLsbD i || m.toBitVec.getLsbD i) = x.toBitVec.getLsbD i := by
  have hbits := congrArg (fun y : UInt8 => y.toBitVec.getLsbD i) h
  simpa using hbits

@[simp] theorem or_and_self (x m : UInt8) : (x ||| m) &&& m = m := by
  apply eq_of_bits
  intro i hi
  cases hx : x.toBitVec.getLsbD i <;> simp [hx]

@[simp] theorem clear_and_self (x m : UInt8) : (x &&& ~~~m) &&& m = 0 := by
  rw [UInt8.and_assoc, UInt8.not_and_self, UInt8.and_zero]

theorem or_and_of_apart (h : m &&& k = 0) : (x ||| m) &&& k = x &&& k := by
  apply eq_of_bits
  intro i hi
  have hbits := bits_of_apart h i
  cases hm : m.toBitVec.getLsbD i <;> simp_all

theorem clear_and_of_apart (h : m &&& k = 0) : (x &&& ~~~m) &&& k = x &&& k := by
  apply eq_of_bits
  intro i hi
  have hbits := bits_of_apart h i
  cases hm : m.toBitVec.getLsbD i <;> simp_all

theorem clear_or_of_within (h : m ||| k = m) : (x &&& ~~~k) ||| m = x ||| m := by
  apply eq_of_bits
  intro i hi
  have hbits := bits_of_within h i
  cases hm : m.toBitVec.getLsbD i <;> simp_all

theorem and_of_within (h : x ||| m = x) (hk : m ||| k = m) : x &&& k = k := by
  have hx : x ||| k = x := by
    calc x ||| k = (x ||| m) ||| k := by rw [h]
      _ = x ||| m := by rw [UInt8.or_assoc, hk]
      _ = x := h
  rw [← hx, or_and_self]

theorem or_within (h : x ||| m = x) : (x ||| k) ||| m = x ||| k := by
  rw [UInt8.or_assoc, UInt8.or_comm k m, ← UInt8.or_assoc, h]

theorem clear_within (hapart : k &&& m = 0) (h : x ||| m = x) :
    (x &&& ~~~k) ||| m = x &&& ~~~k := by
  apply eq_of_bits
  intro i hi
  have hbits := bits_of_within h i
  have hnone := bits_of_apart hapart i
  cases hm : m.toBitVec.getLsbD i <;> simp_all

end Kthxvm.Lib.Flags
