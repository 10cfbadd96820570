import Kthxvm.Boot.Elf

/-! What the headers of a kernel file say, and how far the loader gets with them. A field
that the file is too short for is zero, as the buffers of the loader are before they are
filled. -/
namespace Kthxvm.Elf

open Lib.ByteMemory Lib.Disk Lib.WriteLog

structure ProgramHeader where
  type : Nat
  offset : Nat
  paddr : Nat
  filesz : Nat
  memsz : Nat
deriving DecidableEq

def programHeader (buf : List UInt8) (i : Nat) : ProgramHeader where
  type := fieldAt buf (phdrSize * i) 4
  offset := fieldAt buf (phdrSize * i + 8) 8
  paddr := fieldAt buf (phdrSize * i + 24) 8
  filesz := fieldAt buf (phdrSize * i + 32) 8
  memsz := fieldAt buf (phdrSize * i + 40) 8

section File

variable (contents : List UInt8)

def entry : Nat := fieldAt contents 24 8

def phoff : Nat := fieldAt contents 32 8

def phentsize : Nat := fieldAt contents 54 2

def phnum : Nat := fieldAt contents 56 2

def tableSize : Nat := phentsize contents * phnum contents

/-- The program headers, as far as the file has them. -/
def table : List UInt8 :=
  if contents.length < ehdrSize then [] else slice contents (phoff contents) (tableSize contents)

def header (i : Nat) : ProgramHeader := programHeader (table contents) i

def loadsFrom (n i : Nat) : List ProgramHeader :=
  ((List.range' i n).map (header contents)).filter (·.type = ptLoad)

def loads : List ProgramHeader := loadsFrom contents (phnum contents) 0

/-- A segment as it is copied, if the file has all of it. -/
def copy (h : ProgramHeader) : UInt64 × List UInt8 :=
  (UInt64.ofNat h.paddr, slice contents h.offset h.filesz)

end File

/-- The loader returns `-EINVAL` at such a header. -/
def ProgramHeader.Rejected (h : ProgramHeader) : Prop := h.memsz < h.filesz ∨ h.filesz = 0

instance (h : ProgramHeader) : Decidable h.Rejected := by
  unfold ProgramHeader.Rejected
  infer_instance

/-! Fields of a buffer that was filled as far as the file went. -/

theorem natOfBytes_replicate_zero (n : Nat) : natOfBytes (List.replicate n 0) = 0 := by
  induction n with
  | zero => rfl
  | succ n ih =>
    rw [List.replicate_succ, natOfBytes, ih]
    rfl

theorem fieldAt_filled (n : Nat) (bytes : List UInt8) (offset k : Nat) :
    fieldAt (filled n bytes) offset k = fieldAt bytes offset k := by
  unfold fieldAt filled slice
  rw [List.drop_append, List.take_append, List.drop_replicate, List.take_replicate,
    natOfBytes_append, natOfBytes_replicate_zero, Nat.mul_zero, Nat.add_zero]

theorem programHeader_filled (n : Nat) (bytes : List UInt8) (i : Nat) :
    programHeader (filled n bytes) i = programHeader bytes i := by
  unfold programHeader
  simp only [fieldAt_filled]

theorem length_filled {n : Nat} {bytes : List UInt8} (h : bytes.length ≤ n) :
    (filled n bytes).length = n := by
  unfold filled
  rw [List.length_append, List.length_replicate]
  omega

theorem fieldAt_lt (buf : List UInt8) (offset n : Nat) : fieldAt buf offset n < 256 ^ n := by
  have hlen : (slice buf offset n).length ≤ n := by
    rw [slice]
    exact List.length_take_le _ _
  exact lt_of_lt_of_le (natOfBytes_lt _) (Nat.pow_le_pow_right (by decide) hlen)

theorem field_ok {buf : List UInt8} {offset n : Nat} (h : offset + n ≤ buf.length) :
    field buf offset n = .ok (fieldAt buf offset n) :=
  if_pos h

theorem fieldAt_take {contents : List UInt8} {m offset n : Nat} (h : offset + n ≤ m) :
    fieldAt (contents.take m) offset n = fieldAt contents offset n := by
  unfold fieldAt slice
  rw [List.drop_take, List.take_take, Nat.min_eq_left (by omega)]

/-! The stream. -/

section Stream

variable {contents : List UInt8} {file : FStream}

theorem seek_read (hcontents : file.contents = contents) (hsize : contents.length < 2 ^ 63)
    (hok : file.fail = false) {offset : Nat} (hoffset : offset < 2 ^ 64) (n : Nat) :
    ((file.seek (UInt64.ofNat offset)).read n).1 = slice contents offset n ∧
      ((file.seek (UInt64.ofNat offset)).read n).2.contents = contents ∧
      (0 < n → (((file.seek (UInt64.ofNat offset)).read n).2.fail = false ↔
        offset + n ≤ contents.length)) := by
  have htoNat : (UInt64.ofNat offset).toNat = offset := by
    rw [UInt64.toNat_ofNat', Nat.mod_eq_of_lt hoffset]
  unfold FStream.seek FStream.read
  rw [hok, htoNat]
  by_cases hpos : offset < 2 ^ 63
  · simp only [hpos, if_true, Bool.false_eq_true, if_false, hcontents]
    refine ⟨trivial, trivial, fun hn => ?_⟩
    simp only [slice, List.length_take, List.length_drop, decide_eq_false_iff_not]
    omega
  · have hnone : slice contents offset n = [] := by
      rw [slice, List.drop_of_length_le (by omega), List.take_nil]
    simp only [hpos, if_false, Bool.false_eq_true, if_true, hcontents, hnone]
    refine ⟨trivial, trivial, fun hn => ?_⟩
    simp only [Bool.true_eq_false, false_iff]
    omega

theorem seek_read_failed (hfail : file.fail = true) (offset : UInt64) (n : Nat) :
    (file.seek offset).read n = ([], file) := by
  unfold FStream.seek FStream.read
  rw [hfail]
  simp only [if_true, hfail]

def transferred (contents : List UInt8) (h : ProgramHeader) : List UInt8 :=
  if h.filesz < 2 ^ 63 then slice contents h.offset h.filesz else []

theorem readCount_ok (hcontents : file.contents = contents) (hsize : contents.length < 2 ^ 63)
    (hok : file.fail = false) {h : ProgramHeader} (hoffset : h.offset < 2 ^ 64)
    (hpos : 0 < h.filesz) :
    (readCount (file.seek (UInt64.ofNat h.offset)) h.filesz).1 = transferred contents h ∧
      (readCount (file.seek (UInt64.ofNat h.offset)) h.filesz).2.contents = contents ∧
      ((readCount (file.seek (UInt64.ofNat h.offset)) h.filesz).2.fail = false ↔
        h.offset + h.filesz ≤ contents.length) := by
  obtain ⟨hbytes, hkept, hfail⟩ := seek_read hcontents hsize hok hoffset h.filesz
  unfold readCount transferred
  by_cases hcount : h.filesz < 2 ^ 63
  · rw [if_pos hcount, if_pos hcount]
    exact ⟨hbytes, hkept, hfail hpos⟩
  · rw [if_neg hcount, if_neg hcount]
    refine ⟨rfl, ?_, ?_⟩
    · rw [← hcontents]
      unfold FStream.seek
      dsimp only
      split
      · rfl
      · split <;> rfl
    · simp only [Bool.true_eq_false, false_iff]
      omega

theorem readCount_failed (hcontents : file.contents = contents) (hfail : file.fail = true)
    (offset : UInt64) (n : Nat) :
    (readCount (file.seek offset) n).1 = [] ∧
      (readCount (file.seek offset) n).2.contents = contents ∧
      (readCount (file.seek offset) n).2.fail = true := by
  have hseek : file.seek offset = file := if_pos hfail
  unfold readCount
  split
  · rw [seek_read_failed hfail]
    exact ⟨rfl, hcontents, hfail⟩
  · rw [hseek]
    exact ⟨rfl, hcontents, rfl⟩

end Stream

/-! The loader up to its loop. -/

def phdrBuf (contents : List UInt8) : List UInt8 :=
  filled (tableSize contents) (table contents)

def stream (contents : List UInt8) : FStream :=
  (((({ contents := contents } : FStream).read ehdrSize).2.seek
    (UInt64.ofNat (phoff contents))).read (tableSize contents)).2

section Headers

variable (contents : List UInt8)

theorem phoff_lt : phoff contents < 2 ^ 64 := fieldAt_lt contents 32 8

theorem length_table_le : (table contents).length ≤ tableSize contents := by
  unfold table
  split
  · exact Nat.zero_le _
  · rw [slice]
    exact List.length_take_le _ _

theorem length_phdrBuf : (phdrBuf contents).length = tableSize contents :=
  length_filled (length_table_le contents)

theorem programHeader_phdrBuf (i : Nat) :
    programHeader (phdrBuf contents) i = header contents i :=
  programHeader_filled _ _ _

theorem read_ehdr :
    (({ contents := contents } : FStream).read ehdrSize).1 = contents.take ehdrSize := by
  unfold FStream.read
  exact if_neg Bool.false_ne_true ▸ rfl

theorem header_offset_lt (i : Nat) :
    (header contents i).offset < 2 ^ 64 :=
  fieldAt_lt _ _ 8

theorem field_ehdr {offset n : Nat} (h : offset + n ≤ ehdrSize) :
    field (filled ehdrSize (({ contents := contents } : FStream).read ehdrSize).1) offset n =
      .ok (fieldAt contents offset n) := by
  have hlen : (contents.take ehdrSize).length ≤ ehdrSize := List.length_take_le _ _
  rw [read_ehdr, field_ok (by rw [length_filled hlen]; exact h), fieldAt_filled, fieldAt_take h]

/-- A file that ends within the four bytes is not taken for an ELF file. -/
theorem magic_iff :
    (filled ehdrSize (({ contents := contents } : FStream).read ehdrSize).1).take 4 = elfMagic ↔
      contents.take 4 = elfMagic := by
  have hehdr : ehdrSize = 64 := rfl
  unfold filled
  rw [read_ehdr]
  by_cases hlen : 4 ≤ contents.length
  · rw [List.take_append_of_le_length (by rw [List.length_take]; omega), List.take_take,
      Nat.min_eq_left (by decide)]
  · have hshort : contents.take 4 ≠ elfMagic := by
      intro h
      have hlen' := congrArg List.length h
      rw [List.length_take, show elfMagic.length = 4 from rfl] at hlen'
      omega
    refine ⟨fun h => ?_, fun h => absurd h hshort⟩
    -- the last byte of the magic number is not zero
    have hlast := congrArg (fun l => l[3]?) h
    rw [List.getElem?_take_of_lt (by decide), List.getElem?_append_right
      (by rw [List.length_take]; omega), List.getElem?_replicate_of_lt
      (by rw [List.length_take]; omega)] at hlast
    contradiction

theorem first_read : ((({ contents := contents } : FStream).read ehdrSize).2).contents = contents ∧
    (((({ contents := contents } : FStream).read ehdrSize).2).fail = false ↔
      ehdrSize ≤ contents.length) := by
  unfold FStream.read
  simp only [Bool.false_eq_true, if_false, slice, List.drop_zero, List.length_take,
    decide_eq_false_iff_not, true_and]
  omega

variable {contents}

theorem stream_spec (hsize : contents.length < 2 ^ 63) :
    (((({ contents := contents } : FStream).read ehdrSize).2.seek
        (UInt64.ofNat (phoff contents))).read (tableSize contents)).1 = table contents ∧
      (stream contents).contents = contents ∧
      (0 < tableSize contents → ((stream contents).fail = false ↔ ehdrSize ≤ contents.length ∧
        phoff contents + tableSize contents ≤ contents.length)) := by
  obtain ⟨hkept, hfail⟩ := first_read contents
  unfold stream table
  by_cases hehdr : ehdrSize ≤ contents.length
  · obtain ⟨hbytes, hcontents, hshort⟩ := seek_read hkept hsize (hfail.mpr hehdr)
      (phoff_lt contents) (tableSize contents)
    rw [if_neg (not_lt.mpr hehdr)]
    refine ⟨hbytes, hcontents, fun hpos => ?_⟩
    rw [hshort hpos]
    exact ⟨fun h => ⟨hehdr, h⟩, fun h => h.2⟩
  · have hset := Bool.eq_true_of_not_eq_false (mt hfail.mp hehdr)
    rw [seek_read_failed hset, if_pos (not_le.mp hehdr)]
    refine ⟨rfl, hkept, fun _ => ?_⟩
    rw [hset]
    exact ⟨nofun, fun h => absurd h.1 hehdr⟩

theorem field_phdrBuf {offset n : Nat} (h : offset + n ≤ tableSize contents) :
    field (phdrBuf contents) offset n = .ok (fieldAt (table contents) offset n) := by
  rw [field_ok (by rw [length_phdrBuf]; exact h)]
  exact congrArg Except.ok (fieldAt_filled _ _ _ _)

theorem load_notElf (g : Guest) (h : contents.take 4 ≠ elfMagic) :
    load g (some { contents := contents }) = .ok (.notElf, g) := by
  unfold load
  dsimp only
  rw [if_pos (mt (magic_iff contents).mp h)]
  rfl

theorem load_badLength (g : Guest) (hmagic : contents.take 4 = elfMagic)
    (hlarge : 2 ^ 31 ≤ tableSize contents) :
    load g (some { contents := contents }) = .ok (.badLength, g) := by
  unfold load
  dsimp only
  rw [if_neg (not_not.mpr ((magic_iff contents).mpr hmagic)), field_ehdr contents (by decide),
    field_ehdr contents (by decide)]
  exact if_pos hlarge

theorem load_eq (hsize : contents.length < 2 ^ 63) (g : Guest)
    (hmagic : contents.take 4 = elfMagic) (hsmall : tableSize contents < 2 ^ 31) :
    load g (some { contents := contents }) =
      loadLoop (phdrBuf contents) (phnum contents) 0 (stream contents) g >>= fun r =>
        .ok (.returned (if r.1 then UInt64.ofNat (entry contents) else invalid), r.2) := by
  unfold load
  dsimp only
  rw [if_neg (not_not.mpr ((magic_iff contents).mpr hmagic)), field_ehdr contents (by decide),
    field_ehdr contents (by decide), field_ehdr contents (by decide),
    field_ehdr contents (by decide)]
  refine (if_neg (not_le.mpr hsmall)).trans ?_
  have hbytes := (stream_spec hsize).1
  change loadLoop (filled (tableSize contents) (((({ contents := contents } : FStream).read
    ehdrSize).2.seek (UInt64.ofNat (phoff contents))).read (tableSize contents)).1)
      (phnum contents) 0 (stream contents) g >>= _ = _
  rw [hbytes]
  refine congrArg (_ >>= ·) (funext ?_)
  rintro ⟨complete, g⟩
  cases complete <;> rfl

end Headers

def oneSegment (entry phentsize : Nat) (h : ProgramHeader) (data : List UInt8) : List UInt8 :=
  elfMagic ++ List.replicate 20 0 ++ bytesOfNat 8 entry ++ bytesOfNat 8 64 ++
    List.replicate 14 0 ++ bytesOfNat 2 phentsize ++ bytesOfNat 2 1 ++ List.replicate 6 0 ++
    bytesOfNat 4 h.type ++ List.replicate 4 0 ++ bytesOfNat 8 h.offset ++ List.replicate 8 0 ++
    bytesOfNat 8 h.paddr ++ bytesOfNat 8 h.filesz ++ bytesOfNat 8 h.memsz ++
    List.replicate 8 0 ++ data

end Kthxvm.Elf
