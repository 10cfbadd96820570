import Kthxvm.Guest

/-! The base class of `io_device.h` and the host buffers that devices are handed. -/
namespace Kthxvm.IoDevice

structure Window where
  addr : UInt64
  width : UInt64
deriving DecidableEq

def Window.inRange (w : Window) (port : UInt64) : Bool :=
  w.addr ≤ port && port < w.addr + w.width

def Window.offset (w : Window) (port : UInt64) : UInt64 := port - w.addr

def firstByte (data : List UInt8) : Except Fault UInt8 :=
  match data with
  | [] => .error .hostBuffer
  | b :: _ => .ok b

/-- `buf[0] = value` on a zeroed buffer of `size` bytes. -/
def putByte (size : UInt32) (value : UInt8) : Except Fault (List UInt8) :=
  if size = 0 then .error .hostBuffer
  else .ok (value :: List.replicate (size.toNat - 1) 0)

def zeros (size : UInt32) : List UInt8 := List.replicate size.toNat 0

@[simp] theorem length_zeros (size : UInt32) : (zeros size).length = size.toNat :=
  List.length_replicate

theorem length_putByte {size : UInt32} {value : UInt8} {buf : List UInt8}
    (h : putByte size value = .ok buf) : buf.length = size.toNat := by
  unfold putByte at h
  split at h
  · contradiction
  next hsize =>
    cases h
    have hpos : size.toNat ≠ 0 := fun h => hsize (UInt32.toNat_inj.mp h)
    rw [List.length_cons, List.length_replicate]
    omega

theorem cons_of_size {size : UInt32} {bs : List UInt8} (hsize : size ≠ 0)
    (hlen : bs.length = size.toNat) :
    ∃ b rest, bs = b :: rest ∧ size.toNat - 1 = rest.length ∧ (rest = [] ↔ size = 1) := by
  have hpos : size.toNat ≠ 0 := fun h => hsize (UInt32.toNat_inj.mp h)
  cases bs with
  | nil => exact absurd hlen.symm hpos
  | cons b rest =>
    rw [List.length_cons] at hlen
    have hunit : (1 : UInt32).toNat = 1 := rfl
    refine ⟨b, rest, rfl, by omega, ?_⟩
    rw [← List.length_eq_zero_iff, ← UInt32.toNat_inj]
    omega

theorem firstByte_congr {data data' : List UInt8} {n : Nat} (hn : 0 < n)
    (h : data.take n = data'.take n) : firstByte data = firstByte data' := by
  obtain ⟨n, rfl⟩ := Nat.exists_eq_succ_of_ne_zero hn.ne'
  cases data with
  | nil =>
    cases data' with
    | nil => rfl
    | cons b' data' => simp at h
  | cons b data =>
    cases data' with
    | nil => simp at h
    | cons b' data' =>
      simp only [List.take_succ_cons, List.cons.injEq] at h
      simp only [firstByte, h.1]

theorem putByte_pad {size : UInt32} (hsize : size ≠ 0) (value : UInt8) :
    putByte size value = .ok ([value] ++ List.replicate (size.toNat - 1) 0) :=
  if_neg hsize

theorem zeros_pad {size : UInt32} (hsize : size ≠ 0) :
    zeros size = zeros 1 ++ List.replicate (size.toNat - 1) 0 := by
  have hpos : size.toNat ≠ 0 := fun h => hsize (UInt32.toNat_inj.mp h)
  have hone : zeros 1 = [0] := rfl
  have hsucc : size.toNat = (size.toNat - 1) + 1 := by omega
  rw [hone, zeros, hsucc, List.replicate_succ, Nat.add_sub_cancel]
  rfl

end Kthxvm.IoDevice
