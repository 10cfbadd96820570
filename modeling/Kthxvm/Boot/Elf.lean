import Kthxvm.FStream
import Kthxvm.Guest
import Kthxvm.Lib.WriteLog

/-! The kernel loader of `elf.h`. -/
namespace Kthxvm.Elf

open Lib.ByteMemory Lib.Disk Lib.WriteLog

def elfMagic : List UInt8 := [0x7f, 0x45, 0x4c, 0x46]

def ehdrSize : Nat := 64
def phdrSize : Nat := 56

def ptLoad : Nat := 1

/-- `-EINVAL` as it is returned, in 64 unsigned bits. -/
def invalid : UInt64 := UInt64.ofInt (-22)

inductive Outcome where
  | returned (entry : UInt64)
  /-- `could not open file` -/
  | couldNotOpen
  /-- `not an elf file` -/
  | notElf
  /-- the length error of a `std::vector` whose size came out negative -/
  | badLength
deriving DecidableEq

/-- A zeroed `std::vector` of `n` bytes after a read into it. -/
def filled (n : Nat) (bytes : List UInt8) : List UInt8 :=
  bytes ++ List.replicate (n - bytes.length) 0

def field (buf : List UInt8) (offset n : Nat) : Except Fault Nat :=
  if offset + n ≤ buf.length then .ok (natOfBytes (slice buf offset n)) else .error .hostBuffer

/-- `read(_, n)` where `n` becomes a signed count. -/
def readCount (file : FStream) (n : Nat) : List UInt8 × FStream :=
  if n < 2 ^ 63 then file.read n else ([], { file with fail := true })

/-- The loop over the program headers; the result tells whether it ran to its end. -/
def loadLoop (phdrs : List UInt8) : Nat → Nat → FStream → Guest → Except Fault (Bool × Guest)
  | 0, _, _, g => .ok (true, g)
  | n + 1, i, file, g => do
    let type ← field phdrs (phdrSize * i) 4
    if type ≠ ptLoad then loadLoop phdrs n (i + 1) file g
    else
      let filesz ← field phdrs (phdrSize * i + 32) 8
      let memsz ← field phdrs (phdrSize * i + 40) 8
      if memsz < filesz then .ok (false, g)
      else if filesz = 0 then .ok (false, g)
      else
        let offset ← field phdrs (phdrSize * i + 8) 8
        let paddr ← field phdrs (phdrSize * i + 24) 8
        let transfer := readCount (file.seek (UInt64.ofNat offset)) filesz
        let g ← g.write (UInt64.ofNat paddr) transfer.1
        loadLoop phdrs n (i + 1) transfer.2 g

/-- `elf::load`; `none` is a file that cannot be opened. -/
def load (g : Guest) (file : Option FStream) : Except Fault (Outcome × Guest) :=
  match file with
  | none => .ok (.couldNotOpen, g)
  | some file => do
    let ehdr := filled ehdrSize (file.read ehdrSize).1
    let file := (file.read ehdrSize).2
    if ehdr.take 4 ≠ elfMagic then return (.notElf, g)
    let phentsize ← field ehdr 54 2
    let phnum ← field ehdr 56 2
    -- the product of two `__u16` is an `int`
    if 2 ^ 31 ≤ phentsize * phnum then return (.badLength, g)
    let phoff ← field ehdr 32 8
    let transfer := (file.seek (UInt64.ofNat phoff)).read (phentsize * phnum)
    let phdrs := filled (phentsize * phnum) transfer.1
    let (complete, g) ← loadLoop phdrs phnum 0 transfer.2 g
    if complete then
      let entry ← field ehdr 24 8
      return (.returned (UInt64.ofNat entry), g)
    else return (.returned invalid, g)

/-! The program headers as the loop finds them. -/

def fieldAt (buf : List UInt8) (offset n : Nat) : Nat := natOfBytes (slice buf offset n)

theorem field_eq_ok {buf : List UInt8} {offset n v : Nat} (h : field buf offset n = .ok v) :
    v = fieldAt buf offset n := by
  unfold field at h
  split at h
  · exact (Except.ok.inj h).symm
  · contradiction

section Step

variable {headers : List UInt8} {n i : Nat} {file : FStream} {g : Guest} {type : Nat}
  (htype : field headers (phdrSize * i) 4 = .ok type)

include htype

theorem loadLoop_skipped (hload : type ≠ ptLoad) :
    loadLoop headers (n + 1) i file g = loadLoop headers n (i + 1) file g := by
  conv_lhs => unfold loadLoop
  rw [htype]
  exact if_pos hload

variable (hload : type = ptLoad) {filesz memsz : Nat}
  (hfilesz : field headers (phdrSize * i + 32) 8 = .ok filesz)
  (hmemsz : field headers (phdrSize * i + 40) 8 = .ok memsz)

include hload hfilesz hmemsz

theorem loadLoop_rejected (h : memsz < filesz ∨ filesz = 0) :
    loadLoop headers (n + 1) i file g = .ok (false, g) := by
  unfold loadLoop
  rw [htype, hfilesz, hmemsz]
  refine (if_neg (not_not.mpr hload)).trans ?_
  exact (ite_or ..).symm.trans (if_pos h)

theorem loadLoop_accepted (h : ¬ (memsz < filesz ∨ filesz = 0)) {offset paddr : Nat}
    (hoffset : field headers (phdrSize * i + 8) 8 = .ok offset)
    (hpaddr : field headers (phdrSize * i + 24) 8 = .ok paddr) :
    loadLoop headers (n + 1) i file g =
      let transfer := readCount (file.seek (UInt64.ofNat offset)) filesz
      g.write (UInt64.ofNat paddr) transfer.1 >>= fun g =>
        loadLoop headers n (i + 1) transfer.2 g := by
  conv_lhs => unfold loadLoop
  rw [htype, hfilesz, hmemsz, hoffset, hpaddr]
  refine (if_neg (not_not.mpr hload)).trans ?_
  exact (ite_or ..).symm.trans (if_neg h)

end Step

end Kthxvm.Elf
