import Kthxvm.Lib.Disk

/-! A `std::fstream`, as the block device and the loader use it. -/
namespace Kthxvm

open Lib.Disk

/-- A `std::fstream` with its single position; `fail` stands for any error bit. -/
structure FStream where
  contents : List UInt8
  pos : Nat := 0
  fail : Bool := false
deriving DecidableEq

namespace FStream

/-- `seekg` and `seekp` with an unsigned argument, converted to a signed offset. -/
def seek (f : FStream) (off : UInt64) : FStream :=
  if f.fail then f
  else if off.toNat < 2 ^ 63 then { f with pos := off.toNat }
  else { f with fail := true }

/-- The bytes stored by `read(_, n)`; a short read sets the error bits. -/
def read (f : FStream) (n : Nat) : List UInt8 × FStream :=
  if f.fail then ([], f)
  else
    let bytes := slice f.contents f.pos n
    (bytes, { f with pos := f.pos + bytes.length, fail := bytes.length < n })

def write (f : FStream) (data : List UInt8) : FStream :=
  if f.fail then f
  else { f with contents := splice f.contents f.pos data, pos := f.pos + data.length }

def available (file : FStream) : Nat :=
  if file.fail then 0 else file.contents.length - file.pos

theorem length_read (file : FStream) (n : Nat) :
    (file.read n).1.length = min n file.available := by
  unfold read available
  split
  · simp
  · simp only [slice, List.length_take, List.length_drop]

theorem length_read_le (f : FStream) (n : Nat) : (f.read n).1.length ≤ n := by
  rw [length_read]
  exact min_le_left _ _

theorem write_of_fail {f : FStream} (h : f.fail = true) (data : List UInt8) :
    f.write data = f :=
  if_pos h

end FStream

end Kthxvm
