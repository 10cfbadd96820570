import Kthxvm.Boot.ElfHeaders

/-! Where the loader reads and writes when nothing vouches for its file. It walks the
program headers with the stride of its own structure through a table that is as large as
the file says, and it stores where they say. -/
namespace Kthxvm.Elf

open Lib.ByteMemory Lib.Disk Lib.WriteLog

section File

variable (contents : List UInt8)

/-- No header before `i` ends the loop. -/
def Visits (i : Nat) : Prop :=
  ∀ j < i, (header contents j).type = ptLoad → ¬ (header contents j).Rejected

/-- The stream has met no error before header `i`. -/
def Streams (i : Nat) : Prop :=
  ehdrSize ≤ contents.length ∧ phoff contents + tableSize contents ≤ contents.length ∧
    ∀ j < i, (header contents j).type = ptLoad →
      (header contents j).offset + (header contents j).filesz ≤ contents.length

/-- The bytes that the file has for a segment; a count from `2 ^ 63` on is negative. -/
def present (h : ProgramHeader) : Nat :=
  if h.filesz < 2 ^ 63 then min h.filesz (contents.length - h.offset) else 0

/-- Header `i` lies in the table as far as it is looked at, and the bytes of its segment
lie in a guest of `size` bytes. -/
def Contained (size i : Nat) : Prop :=
  phdrSize * i + 4 ≤ tableSize contents ∧
    ((header contents i).type = ptLoad → phdrSize * i + 48 ≤ tableSize contents ∧
      (¬ (header contents i).Rejected → Streams contents i →
        present contents (header contents i) = 0 ∨
          (header contents i).paddr + present contents (header contents i) ≤ size))

end File

variable {contents : List UInt8}

theorem length_transferred (h : ProgramHeader) :
    (transferred contents h).length = present contents h := by
  unfold transferred present
  split
  · rw [slice, List.length_take, List.length_drop]
  · rfl

theorem streams_succ (i : Nat) : Streams contents (i + 1) ↔ Streams contents i ∧
    ((header contents i).type = ptLoad →
      (header contents i).offset + (header contents i).filesz ≤ contents.length) := by
  unfold Streams
  constructor
  · rintro ⟨hehdr, htable, hall⟩
    exact ⟨⟨hehdr, htable, fun j hj => hall j (by omega)⟩, hall i (by omega)⟩
  · rintro ⟨⟨hehdr, htable, hall⟩, hlast⟩
    refine ⟨hehdr, htable, fun j hj => ?_⟩
    rcases Nat.lt_succ_iff_lt_or_eq.mp hj with hlt | rfl
    · exact hall j hlt
    · exact hlast

theorem field_bound {buf : List UInt8} {offset n v : Nat} (h : field buf offset n = .ok v) :
    offset + n ≤ buf.length := by
  unfold field at h
  split at h
  · assumption
  · contradiction

/-- The loop does not get past a header that is not in the table. -/
theorem loadLoop_fields {n i : Nat} {file : FStream} {g : Guest} {r : Bool × Guest}
    (h : loadLoop (phdrBuf contents) (n + 1) i file g = .ok r) :
    phdrSize * i + 4 ≤ tableSize contents ∧
      ((header contents i).type = ptLoad → phdrSize * i + 48 ≤ tableSize contents) := by
  have hlen := length_phdrBuf contents
  obtain ⟨type, htype, h⟩ := bind_eq_ok.mp h
  have hfirst := field_bound htype
  rw [hlen] at hfirst
  refine ⟨hfirst, fun hload => ?_⟩
  have hvalue : type = ptLoad := by
    rw [field_eq_ok htype, ← hload, ← programHeader_phdrBuf]
    rfl
  rw [if_neg (not_not.mpr hvalue)] at h
  obtain ⟨filesz, -, h⟩ := bind_eq_ok.mp h
  obtain ⟨memsz, hmemsz, h⟩ := bind_eq_ok.mp h
  have hlast := field_bound hmemsz
  rw [hlen] at hlast
  omega

theorem visits_shift (contents : List UInt8) {i : Nat}
    (h : (header contents i).type = ptLoad → ¬ (header contents i).Rejected) (k : Nat) :
    (∀ j, i ≤ j → j < k → (header contents j).type = ptLoad → ¬ (header contents j).Rejected) ↔
      ∀ j, i + 1 ≤ j → j < k → (header contents j).type = ptLoad →
        ¬ (header contents j).Rejected := by
  constructor
  · exact fun hall j hle hlt => hall j (by omega) hlt
  · intro hall j hle hlt
    rcases Nat.eq_or_lt_of_le hle with rfl | hlt'
    · exact h
    · exact hall j hlt' hlt

theorem transfer_spec (hsize : contents.length < 2 ^ 63) {i : Nat} {file : FStream}
    (hcontents : file.contents = contents) (hfail : file.fail = false ↔ Streams contents i)
    (hload : (header contents i).type = ptLoad) (haccepted : ¬ (header contents i).Rejected) :
    let transfer := readCount (file.seek (UInt64.ofNat (header contents i).offset))
      (header contents i).filesz
    (Streams contents i → transfer.1.length = present contents (header contents i)) ∧
      (¬ Streams contents i → transfer.1.length = 0) ∧ transfer.2.contents = contents ∧
      (transfer.2.fail = false ↔ Streams contents (i + 1)) := by
  have hpos : 0 < (header contents i).filesz :=
    Nat.pos_of_ne_zero fun hzero => haccepted (Or.inr hzero)
  rw [streams_succ]
  by_cases hstreams : Streams contents i
  · obtain ⟨hbytes, hkept, hgood⟩ := readCount_ok hcontents hsize (hfail.mpr hstreams)
      (header_offset_lt contents i) hpos
    refine ⟨fun _ => ?_, fun hnot => absurd hstreams hnot, hkept, ?_⟩
    · rw [hbytes, length_transferred]
    · rw [hgood]
      exact ⟨fun h => ⟨hstreams, fun _ => h⟩, fun h => h.2 hload⟩
  · have hset := Bool.eq_true_of_not_eq_false (mt hfail.mp hstreams)
    obtain ⟨hbytes, hkept, hbad⟩ := readCount_failed hcontents hset
      (UInt64.ofNat (header contents i).offset) (header contents i).filesz
    refine ⟨fun h => absurd h hstreams, fun _ => ?_, hkept, ?_⟩
    · rw [hbytes]
      rfl
    · rw [hbad]
      exact ⟨nofun, fun h => absurd h.1 hstreams⟩

theorem holds_iff {g : Guest} {i n : Nat} :
    g.Holds (UInt64.ofNat (header contents i).paddr) n ↔
      n = 0 ∨ (header contents i).paddr + n ≤ g.size := by
  have hpaddr : (header contents i).paddr < 2 ^ 64 := fieldAt_lt _ _ 8
  have htoNat : (UInt64.ofNat (header contents i).paddr).toNat = (header contents i).paddr :=
    (UInt64.toNat_ofNat' ..).trans (Nat.mod_eq_of_lt hpaddr)
  unfold Guest.Holds
  rw [htoNat]

/-- The guest has room for what is read of a segment, which is nothing once the stream failed. -/
theorem holds_transfer_iff {g : Guest} {i : Nat} {bytes : List UInt8}
    (hgood : Streams contents i → bytes.length = present contents (header contents i))
    (hbad : ¬ Streams contents i → bytes.length = 0) :
    g.Holds (UInt64.ofNat (header contents i).paddr) bytes.length ↔
      (Streams contents i → present contents (header contents i) = 0 ∨
        (header contents i).paddr + present contents (header contents i) ≤ g.size) := by
  rw [holds_iff]
  by_cases hstreams : Streams contents i
  · rw [hgood hstreams]
    exact ⟨fun h _ => h, fun h => h hstreams⟩
  · exact ⟨fun _ h => absurd h hstreams, fun _ => Or.inl (hbad hstreams)⟩

theorem forall_from_succ {P : Nat → Prop} {i n : Nat} :
    (∀ k, i ≤ k → k < i + (n + 1) → P k) ↔ P i ∧ ∀ k, i + 1 ≤ k → k < i + 1 + n → P k := by
  constructor
  · exact fun h => ⟨h i (le_refl _) (by omega), fun k hle hlt => h k (by omega) (by omega)⟩
  · rintro ⟨hfirst, hrest⟩ k hle hlt
    rcases Nat.eq_or_lt_of_le hle with rfl | hlt'
    · exact hfirst
    · exact hrest k hlt' (by omega)

theorem loadLoop_bounds (hsize : contents.length < 2 ^ 63) {n i : Nat} {file : FStream}
    {g : Guest} (hcontents : file.contents = contents)
    (hfail : 0 < tableSize contents → (file.fail = false ↔ Streams contents i)) :
    (∃ r, loadLoop (phdrBuf contents) n i file g = .ok r) ↔ ∀ k, i ≤ k → k < i + n →
      (∀ j, i ≤ j → j < k → (header contents j).type = ptLoad → ¬ (header contents j).Rejected) →
        Contained contents g.size k := by
  induction n generalizing i file g with
  | zero => exact ⟨fun _ k hle hlt => by omega, fun _ => ⟨_, rfl⟩⟩
  | succ n ih =>
    -- the headers after the first, once it is known that they are reached
    rw [forall_from_succ]
    by_cases hfields : phdrSize * i + 4 ≤ tableSize contents ∧
        ((header contents i).type = ptLoad → phdrSize * i + 48 ≤ tableSize contents)
    · obtain ⟨hfirst, hrest⟩ := hfields
      have htype := field_phdrBuf hfirst
      by_cases hload : (header contents i).type = ptLoad
      · have hlast := hrest hload
        by_cases hrejected : (header contents i).Rejected
        · rw [loadLoop_rejected htype hload (field_phdrBuf (by omega)) (field_phdrBuf (by omega))
            hrejected]
          refine ⟨fun _ => ⟨fun _ => ⟨hfirst, fun _ => ⟨hlast, fun hnot => absurd hrejected hnot⟩⟩,
            fun k hle _ hvisits => ?_⟩, fun _ => ⟨_, rfl⟩⟩
          exact absurd hrejected (hvisits i (le_refl _) (by omega) hload)
        · obtain ⟨hgood, hbad, hkept, hnext⟩ := transfer_spec hsize hcontents (hfail (by omega))
            hload hrejected
          rw [loadLoop_accepted htype hload (field_phdrBuf (by omega)) (field_phdrBuf (by omega))
            hrejected (field_phdrBuf (by omega)) (field_phdrBuf (by omega))]
          change (∃ r, g.write (UInt64.ofNat (header contents i).paddr)
            (readCount (file.seek (UInt64.ofNat (header contents i).offset))
              (header contents i).filesz).1 >>= (fun g => loadLoop (phdrBuf contents) n (i + 1)
                (readCount (file.seek (UInt64.ofNat (header contents i).offset))
                  (header contents i).filesz).2 g) = .ok r) ↔ _
          generalize readCount (file.seek (UInt64.ofNat (header contents i).offset))
            (header contents i).filesz = transfer at hgood hbad hkept hnext ⊢
          have hroom := holds_transfer_iff (g := g) hgood hbad
          have hvisits := visits_shift contents (i := i) fun _ => hrejected
          by_cases hheld : g.Holds (UInt64.ofNat (header contents i).paddr) transfer.1.length
          · simp only [Guest.write_ok hheld]
            have hnow : Contained contents g.size i :=
              ⟨hfirst, fun _ => ⟨hlast, fun _ => hroom.mp hheld⟩⟩
            simp only [ok_bind]
            rw [ih hkept fun _ => hnext]
            constructor
            · intro h
              exact ⟨fun _ => hnow, fun k hle hlt hvisited =>
                h k hle hlt ((hvisits k).mp hvisited)⟩
            · rintro ⟨-, h⟩ k hle hlt hvisited
              exact h k hle hlt ((hvisits k).mpr hvisited)
          · constructor
            · rintro ⟨r, hloop⟩
              obtain ⟨g', hwrite, -⟩ := bind_eq_ok.mp hloop
              exact absurd (Guest.write_held hwrite) hheld
            · rintro ⟨hcontained, -⟩
              have hnow := hcontained fun j hle hlt => by omega
              exact absurd (hroom.mpr ((hnow.2 hload).2 hrejected)) hheld
      · rw [loadLoop_skipped htype hload, ih hcontents (by
          intro hpos
          rw [hfail hpos, streams_succ]
          exact ⟨fun h => ⟨h, fun heq => absurd heq hload⟩, fun h => h.1⟩)]
        have hvisits := visits_shift contents fun heq => absurd heq hload
        constructor
        · intro h
          refine ⟨fun _ => ⟨hfirst, fun heq => absurd heq hload⟩, fun k hle hlt hvisited => ?_⟩
          exact h k hle hlt ((hvisits k).mp hvisited)
        · rintro ⟨-, h⟩ k hle hlt hvisited
          exact h k hle hlt ((hvisits k).mpr hvisited)
    · constructor
      · rintro ⟨r, hloop⟩
        exact absurd (loadLoop_fields hloop) hfields
      · rintro ⟨hcontained, -⟩
        have hnow := hcontained fun j hle hlt => by omega
        exact absurd ⟨hnow.1, fun hload => (hnow.2 hload).1⟩ hfields

/-- Loading stays inside the table and inside the guest exactly when the loader throws
before it looks at either, or every header that it comes to is contained. -/
theorem load_bounds_iff (hsize : contents.length < 2 ^ 63) (g : Guest) :
    (∃ r, load g (some { contents := contents }) = .ok r) ↔
      contents.take 4 ≠ elfMagic ∨ 2 ^ 31 ≤ tableSize contents ∨
        ∀ i < phnum contents, Visits contents i → Contained contents g.size i := by
  by_cases hmagic : contents.take 4 = elfMagic
  · by_cases hsmall : tableSize contents < 2 ^ 31
    · obtain ⟨-, hkept, hfail⟩ := stream_spec hsize
      have hstreams : 0 < tableSize contents →
          ((stream contents).fail = false ↔ Streams contents 0) := by
        intro hpos
        rw [hfail hpos]
        exact ⟨fun h => ⟨h.1, h.2, fun j hj => absurd hj (Nat.not_lt_zero j)⟩,
          fun h => ⟨h.1, h.2.1⟩⟩
      rw [or_iff_right (not_not.mpr hmagic), or_iff_right (not_le.mpr hsmall),
        load_eq hsize g hmagic hsmall]
      have hloop := loadLoop_bounds (n := phnum contents) (g := g) hsize hkept hstreams
      constructor
      · rintro ⟨r, hload⟩ i hi hvisits
        obtain ⟨r', hrun, -⟩ := bind_eq_ok.mp hload
        exact hloop.mp ⟨r', hrun⟩ i (Nat.zero_le _) (by omega) fun j _ => hvisits j
      · intro hall
        obtain ⟨r, hrun⟩ := hloop.mpr fun k _ hk hvisits =>
          hall k (by omega) fun j hj => hvisits j (Nat.zero_le _) hj
        rw [hrun]
        exact ⟨_, rfl⟩
    · have hlarge := not_lt.mp hsmall
      exact ⟨fun _ => Or.inr (Or.inl hlarge), fun _ => ⟨_, load_badLength g hmagic hlarge⟩⟩
  · exact ⟨fun _ => Or.inl hmagic, fun _ => ⟨_, load_notElf g hmagic⟩⟩

def smallGuest : Guest := ⟨fun _ => 0, 0x200000⟩

def edgeFile : List UInt8 := oneSegment 0x100000 phdrSize ⟨ptLoad, 120, 0x1fffff, 1, 1⟩ [0xf4]

def outsideFile : List UInt8 := oneSegment 0x100000 phdrSize ⟨ptLoad, 120, 0x200000, 1, 1⟩ [0xf4]

set_option maxRecDepth 4000 in
theorem header_edgeFile : header edgeFile 0 = ⟨ptLoad, 120, 0x1fffff, 1, 1⟩ := by decide

set_option maxRecDepth 4000 in
theorem edgeFile_in_bounds : ∃ r, load smallGuest (some { contents := edgeFile }) = .ok r := by
  refine (load_bounds_iff (by decide) smallGuest).mpr (Or.inr (Or.inr fun i hi _ => ?_))
  have hnum : phnum edgeFile = 1 := by decide
  have hzero : i = 0 := by omega
  subst hzero
  refine ⟨by decide, fun _ => ⟨by decide, fun _ _ => Or.inr ?_⟩⟩
  rw [header_edgeFile]
  decide

set_option maxRecDepth 4000 in
/-- A segment that begins where the guest ends is stored there. -/
theorem segment_leaves_guest : ¬ ∀ (contents : List UInt8) (g : Guest),
    contents.length < 2 ^ 63 → ∃ r, load g (some { contents := contents }) = .ok r := by
  intro h
  obtain ⟨r, hload⟩ := h outsideFile smallGuest (by decide)
  have hfault : load smallGuest (some { contents := outsideFile }) =
      .error (.outside 0x200000 1) := rfl
  rw [hfault] at hload
  contradiction

end Kthxvm.Elf
