import Kthxvm.Lib.BitField
import Kthxvm.Lib.ByteMemory

/-! Address translation in 64-bit mode: four levels of tables, each of 512 entries of
eight bytes. -/
namespace Kthxvm.Lib.PageWalk

open BitField ByteMemory

def present (entry : UInt64) : Bool := entry.toNat.testBit 0
def writable (entry : UInt64) : Bool := entry.toNat.testBit 1
def pageSize (entry : UInt64) : Bool := entry.toNat.testBit 7

def frame (entry : UInt64) (shift : Nat) : Nat :=
  field entry.toNat shift (52 - shift) * 2 ^ shift

def shift (level : Nat) : Nat := 12 + 9 * level

def index (v level : Nat) : Nat := field v (shift level) 9

def entryAt (m : Memory) (v level table : Nat) : UInt64 :=
  load64 m (UInt64.ofNat (table + 8 * index v level))

structure Translation where
  addr : Nat
  entries : List UInt64
deriving DecidableEq

def page (v level : Nat) (entry : UInt64) : Translation :=
  ⟨frame entry (shift level) + v % 2 ^ shift level, [entry]⟩

def Translation.through (entry : UInt64) (t : Translation) : Translation :=
  { t with entries := entry :: t.entries }

/-- The walk from a table of a level. Pages that are larger than 4 KiB end at level 1
or 2; above, the size flag is reserved. -/
def walk (m : Memory) (v : Nat) : Nat → Nat → Option Translation
  | 0, table =>
    let entry := entryAt m v 0 table
    if present entry then some (page v 0 entry) else none
  | level + 1, table =>
    let entry := entryAt m v (level + 1) table
    if present entry then
      if pageSize entry then if level < 2 then some (page v (level + 1) entry) else none
      else (walk m v level (frame entry 12)).map (Translation.through entry)
    else none

def resolve (m : Memory) (cr3 : UInt64) (v : BitVec 48) : Option Translation :=
  walk m v.toNat 3 (frame cr3 12)

/-- Memory at the addresses of a program, of which the low 48 bits are translated; what is not
mapped reads as zero. -/
def seen (m : Memory) (cr3 : UInt64) : Memory := fun v =>
  match resolve m cr3 (BitVec.ofNat 48 v.toNat) with
  | some t => m (UInt64.ofNat t.addr)
  | none => 0

theorem seen_identity {m : Memory} {cr3 v : UInt64} {t : Translation}
    (h : resolve m cr3 (BitVec.ofNat 48 v.toNat) = some t) (haddr : t.addr = v.toNat) :
    seen m cr3 v = m v := by
  unfold seen
  rw [h]
  dsimp only
  rw [haddr, UInt64.ofNat_toNat]

section Walk

variable {m : Memory} {v level table : Nat} {entry : UInt64}

theorem walk_absent (hentry : entryAt m v (level + 1) table = entry)
    (h : present entry = false) : walk m v (level + 1) table = none := by
  rw [walk, hentry, h]
  rfl

theorem walk_page (hentry : entryAt m v (level + 1) table = entry) (hlevel : level < 2)
    (h : present entry = true) (hsize : pageSize entry = true) :
    walk m v (level + 1) table = some (page v (level + 1) entry) := by
  rw [walk, hentry, if_pos h, if_pos hsize, if_pos hlevel]

theorem walk_table (hentry : entryAt m v (level + 1) table = entry)
    (h : present entry = true) (hsize : pageSize entry = false) :
    walk m v (level + 1) table =
      (walk m v level (frame entry 12)).map (Translation.through entry) := by
  rw [walk, hentry, if_pos h, hsize, if_neg Bool.false_ne_true]

end Walk

end Kthxvm.Lib.PageWalk
