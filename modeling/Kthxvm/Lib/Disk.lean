import Mathlib

/-! Flat byte arrays with positioned reads and writes. The two composition laws
say that a transfer may be split anywhere: consecutive reads are one read and
consecutive writes are one write. -/
namespace Kthxvm.Lib.Disk

variable {α : Type*}

def slice (bytes : List α) (pos len : Nat) : List α :=
  (bytes.drop pos).take len

/-- Overwriting past the end fills the gap; writing nothing changes nothing. -/
def splice [Inhabited α] (bytes : List α) (pos : Nat) (data : List α) : List α :=
  if data = [] then bytes
  else (bytes ++ List.replicate (pos - bytes.length) default).take pos ++ data ++
    bytes.drop (pos + data.length)

theorem length_slice (bytes : List α) {pos len : Nat} (h : pos + len ≤ bytes.length) :
    (slice bytes pos len).length = len := by
  rw [slice, List.length_take, List.length_drop]
  omega

@[simp] theorem slice_zero (bytes : List α) (pos : Nat) : slice bytes pos 0 = [] := by
  simp [slice]

theorem getElem?_slice (bytes : List α) {pos len k : Nat} (hk : k < len) :
    (slice bytes pos len)[k]? = bytes[pos + k]? := by
  rw [slice, List.getElem?_take_of_lt hk, List.getElem?_drop]

theorem take_slice (bytes : List α) (pos m n : Nat) :
    (slice bytes pos (m + n)).take m = slice bytes pos m := by
  unfold slice
  rw [List.take_take, Nat.min_eq_left (Nat.le_add_right m n)]

theorem drop_slice (bytes : List α) (pos m n : Nat) :
    (slice bytes pos (m + n)).drop m = slice bytes (pos + m) n := by
  unfold slice
  rw [List.drop_take, List.drop_drop, Nat.add_sub_cancel_left]

section Splice

variable [Inhabited α]

@[simp] theorem splice_nil (bytes : List α) (pos : Nat) : splice bytes pos [] = bytes :=
  if_pos rfl

theorem splice_of_le (bytes data : List α) {pos : Nat} (h : pos ≤ bytes.length) :
    splice bytes pos data = bytes.take pos ++ data ++ bytes.drop (pos + data.length) := by
  unfold splice
  split
  · rename_i hnil
    subst hnil
    simp
  · have hgap : pos - bytes.length = 0 := by omega
    rw [hgap, List.replicate_zero, List.append_nil]

theorem length_splice (bytes data : List α) {pos : Nat}
    (h : pos + data.length ≤ bytes.length) : (splice bytes pos data).length = bytes.length := by
  rw [splice_of_le bytes data (by omega)]
  simp only [List.length_append, List.length_take, List.length_drop]
  omega

theorem getElem?_splice {bytes data : List α} {pos : Nat} (h : pos + data.length ≤ bytes.length)
    (i : Nat) : (splice bytes pos data)[i]? =
      if pos ≤ i ∧ i < pos + data.length then data[i - pos]? else bytes[i]? := by
  have hpre : (bytes.take pos).length = pos := List.length_take_of_le (by omega)
  rw [splice_of_le bytes data (by omega), List.append_assoc]
  rcases Nat.lt_or_ge i pos with hbefore | hfrom
  · rw [if_neg (by omega), List.getElem?_append_left (by omega),
      List.getElem?_take_of_lt hbefore]
  rw [List.getElem?_append_right (by omega), hpre]
  rcases Nat.lt_or_ge i (pos + data.length) with hin | hafter
  · rw [if_pos ⟨hfrom, hin⟩, List.getElem?_append_left (by omega)]
  · rw [if_neg (by omega), List.getElem?_append_right (by omega), List.getElem?_drop]
    congr 1
    omega

theorem splice_append {bytes left right : List α} {pos : Nat}
    (h : pos + (left ++ right).length ≤ bytes.length) :
    splice (splice bytes pos left) (pos + left.length) right =
      splice bytes pos (left ++ right) := by
  rw [List.length_append] at h
  have hlen := length_splice bytes left (show pos + left.length ≤ bytes.length by omega)
  rw [splice_of_le (splice bytes pos left) right (by omega),
    splice_of_le bytes left (by omega), splice_of_le bytes (left ++ right) (by omega)]
  have hpre : (bytes.take pos ++ left).length = pos + left.length := by
    simp only [List.length_append, List.length_take]
    omega
  have htake : ((bytes.take pos ++ left) ++ bytes.drop (pos + left.length)).take
      (pos + left.length) = bytes.take pos ++ left := by
    rw [← hpre]
    exact List.take_left
  have hdrop : ((bytes.take pos ++ left) ++ bytes.drop (pos + left.length)).drop
      (pos + left.length + right.length) =
        bytes.drop (pos + (left ++ right).length) := by
    rw [List.drop_append, List.drop_eq_nil_of_le (by omega), hpre, List.drop_drop,
      List.length_append, List.nil_append]
    congr 1
    omega
  rw [htake, hdrop]
  simp only [List.append_assoc]

end Splice

/-! The flat disk: a sequence of accesses to one array. -/

inductive Access (α : Type*) where
  | read (pos len : Nat)
  | write (pos : Nat) (data : List α)

namespace Access

variable [Inhabited α]

def apply (bytes : List α) : Access α → List α
  | .read _ _ => bytes
  | .write pos data => splice bytes pos data

def result (bytes : List α) : Access α → List α
  | .read pos len => slice bytes pos len
  | .write _ data => data

def Fits (size : Nat) : Access α → Prop
  | .read pos len => pos + len ≤ size
  | .write pos data => pos + data.length ≤ size

theorem length_apply {bytes : List α} {access : Access α} (h : access.Fits bytes.length) :
    (access.apply bytes).length = bytes.length := by
  cases access with
  | read => rfl
  | write pos data => exact length_splice bytes data h

end Access

def replay [Inhabited α] (bytes : List α) (accesses : List (Access α)) : List α :=
  accesses.foldl Access.apply bytes

theorem replay_append [Inhabited α] (bytes : List α) (left right : List (Access α)) :
    replay bytes (left ++ right) = replay (replay bytes left) right :=
  List.foldl_append

end Kthxvm.Lib.Disk
