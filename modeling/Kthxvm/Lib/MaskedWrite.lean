import Mathlib

/-! Writes to some of the bits of a word, and what they leave of the others. -/
namespace Kthxvm.Lib.MaskedWrite

variable {w : Nat}

structure Write (w : Nat) where
  mask : BitVec w
  value : BitVec w
  within : value &&& ~~~mask = 0#w

def bits (k n : Nat) : BitVec w := BitVec.ofNat w ((2 ^ n - 1) * 2 ^ k)

namespace Write

def apply (write : Write w) (x : BitVec w) : BitVec w := (x &&& ~~~write.mask) ||| write.value

def keep : Write w := ⟨0#w, 0#w, BitVec.zero_and⟩

def clear (mask : BitVec w) : Write w := ⟨mask, 0#w, BitVec.zero_and⟩

def set (mask : BitVec w) : Write w := ⟨mask, mask, BitVec.and_not_self mask⟩

def put (value : BitVec w) : Write w :=
  ⟨BitVec.allOnes w, value, by rw [BitVec.not_allOnes, BitVec.and_zero]⟩

@[simp] theorem keep_apply (x : BitVec w) : keep.apply x = x := by
  simp [keep, apply]

@[simp] theorem clear_apply (mask x : BitVec w) : (clear mask).apply x = x &&& ~~~mask := by
  simp [clear, apply]

@[simp] theorem set_apply (mask x : BitVec w) : (set mask).apply x = x ||| mask := by
  ext i
  cases hmask : mask[i] <;> simp [set, apply, hmask]

@[simp] theorem put_apply (value x : BitVec w) : (put value).apply x = value := by
  simp [put, apply]

theorem apply_and_not_mask (write : Write w) (x : BitVec w) :
    write.apply x &&& ~~~write.mask = x &&& ~~~write.mask := by
  rw [apply, BitVec.and_or_distrib_right, write.within, BitVec.and_assoc, BitVec.and_self]
  exact BitVec.or_zero

theorem apply_apply (write : Write w) (x : BitVec w) :
    write.apply (write.apply x) = write.apply x := by
  rw [apply, apply_and_not_mask]
  rfl

end Write

end Kthxvm.Lib.MaskedWrite
