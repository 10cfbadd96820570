import Kthxvm.Boot.ElfBounds
import Kthxvm.Boot.ElfExact

/-! What is left in memory by any kernel that loads, whether or not its headers are in order:
its segments may meet, and the file may end before the last of them. -/
namespace Kthxvm.Elf

open Lib.ByteMemory Lib.Disk Lib.WriteLog

def ProgramHeader.byteAt? (contents : List UInt8) (p : ProgramHeader) (x : Nat) : Option UInt8 :=
  if p.paddr ≤ x ∧ x < p.paddr + present contents p then contents[p.offset + (x - p.paddr)]?
  else none

/-- The segments that are read: those before the first that is rejected, and none behind one
of which the file has not all. -/
def readable (contents : List UInt8) : List ProgramHeader → List ProgramHeader
  | [] => []
  | p :: ps =>
    if p.Rejected then []
    else if p.offset + p.filesz ≤ contents.length then p :: readable contents ps
    else [p]

/-- Nothing is read of a file that ends within its headers. -/
def placed (contents : List UInt8) : List ProgramHeader :=
  if ehdrSize ≤ contents.length ∧ phoff contents + tableSize contents ≤ contents.length then
    readable contents (loads contents)
  else []

/-- The byte that a kernel file leaves at `x`; where segments meet the last one has it. -/
def byteAt (contents : List UInt8) (x : UInt64) : UInt8 :=
  ((placed contents).filterMap (·.byteAt? contents x.toNat)).getLast?.getD 0

def stored (contents : List UInt8) (p : ProgramHeader) : UInt64 × List UInt8 :=
  (UInt64.ofNat p.paddr, transferred contents p)

section Readable

variable {contents : List UInt8}

theorem readable_spec {ps : List ProgramHeader} {p : ProgramHeader}
    (h : p ∈ readable contents ps) : p ∈ ps ∧ ¬ p.Rejected := by
  induction ps with
  | nil => exact absurd h List.not_mem_nil
  | cons q ps ih =>
    unfold readable at h
    split at h
    · exact absurd h List.not_mem_nil
    next haccepted =>
    split at h
    · rcases List.mem_cons.mp h with rfl | h
      · exact ⟨List.mem_cons_self, haccepted⟩
      · exact ⟨List.mem_cons_of_mem q (ih h).1, (ih h).2⟩
    · rw [List.mem_singleton.mp h]
      exact ⟨List.mem_cons_self, haccepted⟩

theorem placed_spec {p : ProgramHeader} (h : p ∈ placed contents) :
    p ∈ loads contents ∧ ¬ p.Rejected := by
  unfold placed at h
  split at h
  · exact readable_spec h
  · exact absurd h List.not_mem_nil

theorem present_le (p : ProgramHeader) : present contents p ≤ p.filesz := by
  unfold present
  split
  · exact min_le_left _ _
  · exact Nat.zero_le _

end Readable

section Loop

variable {contents : List UInt8}

theorem loadLoop_copied {n i : Nat} {file : FStream} {g : Guest}
    (hfields : phdrSize * i + 48 ≤ tableSize contents) (hload : (header contents i).type = ptLoad)
    (haccepted : ¬ (header contents i).Rejected) :
    loadLoop (phdrBuf contents) (n + 1) i file g =
      let transfer := readCount (file.seek (UInt64.ofNat (header contents i).offset))
        (header contents i).filesz
      g.write (UInt64.ofNat (header contents i).paddr) transfer.1 >>= fun g =>
        loadLoop (phdrBuf contents) n (i + 1) transfer.2 g :=
  loadLoop_accepted (field_phdrBuf (by omega)) hload (field_phdrBuf (by omega))
    (field_phdrBuf (by omega)) haccepted (field_phdrBuf (by omega)) (field_phdrBuf (by omega))

variable (hsize : contents.length < 2 ^ 63)

include hsize

/-- The loop never looks at guest memory: a stream without an error stores what is readable,
and one with an error nothing. -/
theorem loadLoop_stores {n i : Nat} {file : FStream} {g : Guest} {r : Bool × Guest}
    (hcontents : file.contents = contents)
    (h : loadLoop (phdrBuf contents) n i file g = .ok r) (m : Memory) :
    loadLoop (phdrBuf contents) n i file ⟨m, g.size⟩ = .ok (r.1, ⟨storeAll m
      ((if file.fail then [] else readable contents (loadsFrom contents n i)).map
        (stored contents)), g.size⟩) := by
  induction n generalizing i file g r m with
  | zero =>
    cases h
    have hnone : (if file.fail then [] else readable contents (loadsFrom contents 0 i)) = [] :=
      ite_self []
    rw [hnone]
    rfl
  | succ n ih =>
    obtain ⟨hfirst, hrest⟩ := loadLoop_fields h
    have htype := field_phdrBuf hfirst
    rw [loadsFrom_succ]
    by_cases hload : (header contents i).type = ptLoad
    · have hlast := hrest hload
      rw [if_pos hload, readable]
      by_cases hrejected : (header contents i).Rejected
      · rw [loadLoop_rejected htype hload (field_phdrBuf (by omega)) (field_phdrBuf (by omega))
          hrejected] at h ⊢
        cases h
        rw [if_pos hrejected, ite_self]
        rfl
      · have hpos : 0 < (header contents i).filesz :=
          Nat.pos_of_ne_zero fun hzero => hrejected (Or.inr hzero)
        have hgood := fun hok => readCount_ok hcontents hsize hok (header_offset_lt contents i) hpos
        have hbad := fun hfail => readCount_failed hcontents hfail
          (UInt64.ofNat (header contents i).offset) (header contents i).filesz
        rw [loadLoop_copied hlast hload hrejected] at h ⊢
        obtain ⟨transfer, htransfer⟩ : ∃ transfer, transfer = readCount
          (file.seek (UInt64.ofNat (header contents i).offset)) (header contents i).filesz :=
            ⟨_, rfl⟩
        dsimp only at h ⊢
        rw [← htransfer] at h hgood hbad ⊢
        obtain ⟨g₁, hwrite, h⟩ := bind_eq_ok.mp h
        have hkept : g₁.size = g.size := by rw [Guest.write_eq_ok hwrite]
        have hheld := Guest.write_held hwrite
        have hwrite' := Guest.write_ok (g := ⟨m, g.size⟩) hheld
        refine bind_eq_ok.mpr ⟨_, hwrite', ?_⟩
        rw [if_neg hrejected]
        cases hfail : file.fail with
        | true =>
          obtain ⟨hbytes, hcontents', hfail'⟩ := hbad hfail
          have hrun := ih hcontents' h m
          rw [hfail', hkept] at hrun
          rw [hbytes]
          exact hrun
        | false =>
          obtain ⟨hbytes, hcontents', hshort⟩ := hgood hfail
          have hrun := ih hcontents' h (store m (UInt64.ofNat (header contents i).paddr) transfer.1)
          rw [hkept] at hrun
          rw [hrun, hbytes]
          -- only a short read leaves an error behind
          by_cases hall : (header contents i).offset + (header contents i).filesz ≤ contents.length
          · rw [hshort.mpr hall, if_pos hall]
            rfl
          · rw [Bool.eq_true_of_not_eq_false (mt hshort.mp hall), if_neg hall]
            rfl
    · rw [loadLoop_skipped htype hload] at h ⊢
      rw [if_neg hload]
      exact ih hcontents h m

theorem load_stores {g g' : Guest} {v : UInt64}
    (h : load g (some { contents := contents }) = .ok (.returned v, g')) (m : Memory) :
    load ⟨m, g.size⟩ (some { contents := contents }) =
      .ok (.returned v, ⟨storeAll m ((placed contents).map (stored contents)), g.size⟩) := by
  by_cases hmagic : contents.take 4 = elfMagic
  · by_cases hsmall : tableSize contents < 2 ^ 31
    · obtain ⟨-, hkept, hfail⟩ := stream_spec hsize
      rw [load_eq hsize _ hmagic hsmall] at h ⊢
      obtain ⟨r, hloop, h⟩ := bind_eq_ok.mp h
      cases h
      refine bind_eq_ok.mpr ⟨_, loadLoop_stores hsize hkept hloop m, ?_⟩
      have hplaced : (if (stream contents).fail then []
          else readable contents (loads contents)) = placed contents := by
        unfold placed
        cases hnum : phnum contents with
        | zero =>
          have hnone : loads contents = [] := by
            unfold loads
            rw [hnum]
            rfl
          rw [hnone]
          exact (ite_self []).trans (ite_self []).symm
        | succ n =>
          rw [hnum] at hloop
          have hfirst := (loadLoop_fields hloop).1
          have hheaders := hfail (by omega)
          by_cases hthere : ehdrSize ≤ contents.length ∧
              phoff contents + tableSize contents ≤ contents.length
          · rw [hheaders.mpr hthere, if_pos hthere]
            rfl
          · rw [Bool.eq_true_of_not_eq_false (mt hheaders.mp hthere), if_neg hthere]
            rfl
      rw [← hplaced]
      rfl
    · rw [load_badLength g hmagic (not_lt.mp hsmall)] at h
      cases h
  · rw [load_notElf g hmagic] at h
    cases h

end Loop

section Image

variable {contents : List UInt8}

theorem getElem?_transferred {p : ProgramHeader} (hroom : p.paddr + present contents p ≤ 2 ^ 64)
    (x : UInt64) :
    (transferred contents p)[(x - UInt64.ofNat p.paddr).toNat]? = p.byteAt? contents x.toNat := by
  have hlen : (transferred contents p).length = present contents p := length_transferred p
  have hx := x.toNat_lt
  unfold ProgramHeader.byteAt?
  by_cases hnone : present contents p = 0
  · rw [if_neg (by omega), List.getElem?_eq_none (by omega)]
  · have hpaddr : (UInt64.ofNat p.paddr).toNat = p.paddr :=
      (UInt64.toNat_ofNat' ..).trans (Nat.mod_eq_of_lt (by omega))
    rw [UInt64.toNat_sub, hpaddr]
    split
    next hin =>
      have hoff : (2 ^ 64 - p.paddr + x.toNat) % 2 ^ 64 = x.toNat - p.paddr := by omega
      have hcount : p.filesz < 2 ^ 63 := by
        by_contra hlarge
        exact hnone (if_neg hlarge)
      have hle : present contents p ≤ p.filesz := present_le p
      rw [hoff, transferred, if_pos hcount, getElem?_slice contents (by omega)]
    next hout => exact List.getElem?_eq_none (by omega)

theorem storeAll_placed {m : Memory}
    (hroom : ∀ p ∈ loads contents, p.paddr + p.memsz ≤ 2 ^ 64) {x : UInt64} (hzero : m x = 0) :
    storeAll m ((placed contents).map (stored contents)) x = byteAt contents x := by
  rw [storeAll_apply, List.filterMap_map, hzero, byteAt]
  have hsame : ∀ p ∈ placed contents,
      (transferred contents p)[(x - UInt64.ofNat p.paddr).toNat]? =
        p.byteAt? contents x.toNat := by
    intro p hp
    obtain ⟨hload, haccepted⟩ := placed_spec hp
    have hend := hroom p hload
    have hle : present contents p ≤ p.filesz := present_le p
    unfold ProgramHeader.Rejected at haccepted
    exact getElem?_transferred (by omega) x
  exact congrArg (fun bytes => (bytes.getLast?).getD 0) (List.filterMap_congr hsame)

theorem covers_placed (hroom : ∀ p ∈ loads contents, p.paddr + p.memsz ≤ 2 ^ 64) {x : UInt64}
    (hx : Covers ((placed contents).map (stored contents)) x) :
    ∃ p ∈ loads contents, p.paddr ≤ x.toNat ∧ x.toNat < p.paddr + p.memsz := by
  obtain ⟨w, hw, hmem⟩ := hx
  obtain ⟨p, hp, rfl⟩ := List.mem_map.mp hw
  obtain ⟨hload, haccepted⟩ := placed_spec hp
  have hend := hroom p hload
  have hle : present contents p ≤ p.filesz := present_le p
  have hlen : (transferred contents p).length = present contents p := length_transferred p
  unfold ProgramHeader.Rejected at haccepted
  have hpaddr : (UInt64.ofNat p.paddr).toNat = p.paddr :=
    (UInt64.toNat_ofNat' ..).trans (Nat.mod_eq_of_lt (by omega))
  unfold stored at hmem
  rw [Span.mem_iff_toNat (by rw [hpaddr]; dsimp only; omega), hpaddr] at hmem
  dsimp only at hmem
  exact ⟨p, hload, hmem.1, by omega⟩

end Image

/-! A kernel that is in order. -/

def segmentBytes (contents : List UInt8) (p : ProgramHeader) : List UInt8 :=
  slice contents p.offset p.filesz ++ List.replicate (p.memsz - p.filesz) 0

section Ordered

variable {contents : List UInt8} {size : Nat}

theorem readable_eq {ps : List ProgramHeader}
    (h : ∀ p ∈ ps, ¬ p.Rejected ∧ p.offset + p.filesz ≤ contents.length) :
    readable contents ps = ps := by
  induction ps with
  | nil => rfl
  | cons p ps ih =>
    obtain ⟨haccepted, hall⟩ := h p List.mem_cons_self
    rw [readable, if_neg haccepted, if_pos hall, ih fun q hq => h q (List.mem_cons_of_mem p hq)]

theorem WellFormed.placed_eq (h : WellFormed contents size) (hsize : contents.length < 2 ^ 63) :
    (placed contents).map (stored contents) = (loads contents).map (copy contents) := by
  have hall : ∀ p ∈ loads contents, ¬ p.Rejected ∧ p.offset + p.filesz ≤ contents.length := by
    intro p hp
    have hsizes := h.sizes p hp
    unfold ProgramHeader.Rejected
    exact ⟨by omega, h.present p hp⟩
  have hplaced : placed contents = loads contents := by
    rcases h.complete.table with hzero | htable
    · have hnum : phnum contents = 0 := by
        have hentsize := h.entsize
        have hphdr : phdrSize = 56 := rfl
        unfold tableSize at hzero
        rw [hentsize, hphdr] at hzero
        omega
      have hnone : loads contents = [] := by
        unfold loads
        rw [hnum]
        rfl
      unfold placed
      rw [hnone]
      exact ite_self []
    · unfold placed
      rw [if_pos ⟨h.ehdr, htable⟩, readable_eq hall]
  rw [hplaced]
  refine List.map_congr_left fun p hp => ?_
  have hpresent := h.present p hp
  unfold stored copy transferred
  rw [if_pos (by omega)]

theorem Loaded.load_segment {m m' : Memory} (h : Loaded contents m m') {p : ProgramHeader}
    (hp : p ∈ loads contents) (hfile : p.offset + p.filesz ≤ contents.length)
    (hle : p.filesz ≤ p.memsz) :
    Lib.ByteMemory.load m' (UInt64.ofNat p.paddr) p.memsz = segmentBytes contents p := by
  have hlen : (slice contents p.offset p.filesz).length = p.filesz := length_slice contents hfile
  unfold segmentBytes
  apply List.ext_getElem
  · rw [length_load, List.length_append, hlen, List.length_replicate]
    omega
  · intro i hi hi'
    rw [length_load] at hi
    have hbyte : (Lib.ByteMemory.load m' (UInt64.ofNat p.paddr) p.memsz)[i] =
        m' (UInt64.ofNat (p.paddr + i)) := by
      simp only [Lib.ByteMemory.load, List.getElem_map, List.getElem_range, UInt64.ofNat_add]
    rw [hbyte]
    by_cases hin : i < p.filesz
    · have hcopied := h.copied p hp i hin
      rw [List.getElem_append_left (by omega)]
      apply Option.some.inj
      rw [← hcopied, ← List.getElem?_eq_getElem, getElem?_slice contents hin]
    · rw [List.getElem_append_right (by omega), List.getElem_replicate]
      exact h.zeroed p hp i hi (by omega)

end Ordered

end Kthxvm.Elf
