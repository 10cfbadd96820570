import Kthxvm.Boot.ElfHeaders

/-! Loading a kernel whose headers are in order: every segment is in memory as it is in the
file, followed by zeros, and nothing else is touched. -/
namespace Kthxvm.Elf

open Lib.ByteMemory Lib.Disk Lib.WriteLog

/-- The loader finds header `i`, accepts it, and finds the bytes of its segment. -/
def Intact (contents : List UInt8) (i : Nat) : Prop :=
  phdrSize * i + 4 ≤ tableSize contents ∧
    ((header contents i).type = ptLoad → phdrSize * i + 48 ≤ tableSize contents ∧
      ¬ (header contents i).Rejected ∧
      (header contents i).offset + (header contents i).filesz ≤ contents.length)

/-- All that the loader asks the file for is there, and no segment is rejected. -/
structure Complete (contents : List UInt8) : Prop where
  ehdr : ehdrSize ≤ contents.length
  table : tableSize contents = 0 ∨ phoff contents + tableSize contents ≤ contents.length
  headers : ∀ i < phnum contents, Intact contents i

section Loop

variable {contents : List UInt8}

theorem loadsFrom_succ (contents : List UInt8) (n i : Nat) : loadsFrom contents (n + 1) i =
    if (header contents i).type = ptLoad then header contents i :: loadsFrom contents n (i + 1)
    else loadsFrom contents n (i + 1) := by
  unfold loadsFrom
  rw [List.range'_succ, List.map_cons, List.filter_cons]
  simp only [decide_eq_true_eq]

theorem loadLoop_intact (hsize : contents.length < 2 ^ 63) {n i : Nat} {file : FStream}
    {g : Guest} (hcontents : file.contents = contents) (hok : 0 < n → file.fail = false)
    (h : ∀ k, i ≤ k → k < i + n → Intact contents k) :
    loadLoop (phdrBuf contents) n i file g =
      g.writeAll ((loadsFrom contents n i).map (copy contents)) >>= fun g => .ok (true, g) := by
  induction n generalizing i file g with
  | zero => rfl
  | succ n ih =>
    obtain ⟨htype, hload⟩ := h i (le_refl _) (by omega)
    have hrest : ∀ k, i + 1 ≤ k → k < i + 1 + n → Intact contents k := fun k hle hlt =>
      h k (by omega) (by omega)
    rw [loadsFrom_succ]
    by_cases heq : (header contents i).type = ptLoad
    · obtain ⟨hfields, haccepted, hinside⟩ := hload heq
      have hpos : 0 < (header contents i).filesz :=
        Nat.pos_of_ne_zero fun hzero => haccepted (Or.inr hzero)
      obtain ⟨hbytes, hkept, hfail⟩ := readCount_ok hcontents hsize (hok (Nat.succ_pos n))
        (header_offset_lt contents i) hpos
      have htransferred : transferred contents (header contents i) =
          (copy contents (header contents i)).2 := if_pos (by omega)
      rw [loadLoop_accepted (field_phdrBuf htype) heq (field_phdrBuf (by omega))
        (field_phdrBuf (by omega)) haccepted (field_phdrBuf (by omega))
        (field_phdrBuf (by omega)), if_pos heq, List.map_cons, Guest.writeAll, bind_assoc]
      change g.write (copy contents (header contents i)).1
        (readCount (file.seek (UInt64.ofNat (header contents i).offset))
          (header contents i).filesz).1 >>= _ = _
      rw [hbytes, htransferred]
      refine congrArg (_ >>= ·) (funext fun g' => ?_)
      exact ih hkept (fun _ => hfail.mpr hinside) hrest
    · rw [loadLoop_skipped (field_phdrBuf htype) heq, if_neg heq]
      exact ih hcontents (fun _ => hok (Nat.succ_pos n)) hrest

theorem load_complete (hsize : contents.length < 2 ^ 63) (g : Guest)
    (hmagic : contents.take 4 = elfMagic) (hsmall : tableSize contents < 2 ^ 31)
    (h : Complete contents) :
    load g (some { contents := contents }) =
      g.writeAll ((loads contents).map (copy contents)) >>= fun g =>
        .ok (.returned (UInt64.ofNat (entry contents)), g) := by
  obtain ⟨-, hkept, hfail⟩ := stream_spec hsize
  have hok : 0 < phnum contents → (stream contents).fail = false := by
    intro hpos
    have hfirst := (h.headers 0 hpos).1
    have htable : phoff contents + tableSize contents ≤ contents.length :=
      h.table.resolve_left (by omega)
    exact (hfail (by omega)).mpr ⟨h.ehdr, htable⟩
  rw [load_eq hsize g hmagic hsmall, loadLoop_intact hsize hkept hok fun k _ hk =>
    h.headers k (by omega), bind_assoc]
  rfl

end Loop

def ProgramHeader.Apart (h h' : ProgramHeader) : Prop :=
  h.paddr + h.memsz ≤ h'.paddr ∨ h'.paddr + h'.memsz ≤ h.paddr

instance : Std.Symm ProgramHeader.Apart := ⟨fun _ _ h => Or.symm h⟩

/-- A kernel that is in order and that a guest of `size` bytes has room for. -/
structure WellFormed (contents : List UInt8) (size : Nat) : Prop where
  magic : contents.take 4 = elfMagic
  ehdr : ehdrSize ≤ contents.length
  entsize : phentsize contents = phdrSize
  table : phnum contents = 0 ∨ phoff contents + phdrSize * phnum contents ≤ contents.length
  present : ∀ h ∈ loads contents, h.offset + h.filesz ≤ contents.length
  sizes : ∀ h ∈ loads contents, 0 < h.filesz ∧ h.filesz ≤ h.memsz
  room : ∀ h ∈ loads contents, h.paddr + h.memsz ≤ size
  apart : (loads contents).Pairwise ProgramHeader.Apart

structure Loaded (contents : List UInt8) (m m' : Memory) : Prop where
  copied : ∀ h ∈ loads contents, ∀ i < h.filesz,
    contents[h.offset + i]? = some (m' (UInt64.ofNat (h.paddr + i)))
  zeroed : ∀ h ∈ loads contents, ∀ i < h.memsz, h.filesz ≤ i →
    m' (UInt64.ofNat (h.paddr + i)) = 0
  kept : ∀ x : UInt64, (∀ h ∈ loads contents,
    ¬ (h.paddr ≤ x.toNat ∧ x.toNat < h.paddr + h.memsz)) → m' x = m x

section Exact

variable {contents : List UInt8} {size : Nat}

theorem header_mem_loads {i : Nat} (hi : i < phnum contents)
    (hload : (header contents i).type = ptLoad) : header contents i ∈ loads contents := by
  unfold loads loadsFrom
  rw [List.mem_filter, decide_eq_true_eq]
  exact ⟨List.mem_map_of_mem (List.mem_range'_1.mpr ⟨Nat.zero_le _, by omega⟩), hload⟩

theorem WellFormed.complete (h : WellFormed contents size) : Complete contents := by
  have htable : tableSize contents = phdrSize * phnum contents := by
    unfold tableSize
    rw [h.entsize]
  constructor
  case ehdr => exact h.ehdr
  case table =>
    rw [htable]
    exact h.table.imp (fun hzero => by rw [hzero, Nat.mul_zero]) id
  case headers =>
    intro i hi
    have hphdr : phdrSize = 56 := rfl
    refine ⟨by rw [htable, hphdr]; omega, fun hload => ?_⟩
    have hmem := header_mem_loads hi hload
    obtain ⟨hpos, hle⟩ := h.sizes _ hmem
    refine ⟨by rw [htable, hphdr]; omega, ?_, h.present _ hmem⟩
    unfold ProgramHeader.Rejected
    omega

theorem WellFormed.small (h : WellFormed contents size) : tableSize contents < 2 ^ 31 := by
  have hnum : phnum contents < 256 ^ 2 := fieldAt_lt contents 56 2
  have hphdr : phdrSize = 56 := rfl
  unfold tableSize
  rw [h.entsize, hphdr]
  omega

theorem WellFormed.copy_spec (h : WellFormed contents size) (hsize : size ≤ 2 ^ 64)
    {p : ProgramHeader} (hp : p ∈ loads contents) :
    (copy contents p).1.toNat = p.paddr ∧ (copy contents p).2.length = p.filesz := by
  obtain ⟨hpos, hle⟩ := h.sizes p hp
  have hroom := h.room p hp
  refine ⟨?_, length_slice contents (h.present p hp)⟩
  exact (UInt64.toNat_ofNat' ..).trans (Nat.mod_eq_of_lt (by omega))

theorem WellFormed.aside (h : WellFormed contents size) (hsize : size ≤ 2 ^ 64) :
    ((loads contents).map (copy contents)).Pairwise Aside := by
  rw [List.pairwise_map]
  refine h.apart.imp_of_mem fun {p p'} hp hp' hapart => ?_
  obtain ⟨haddr, hlen⟩ := h.copy_spec hsize hp
  obtain ⟨haddr', hlen'⟩ := h.copy_spec hsize hp'
  have hroom := h.room p hp
  have hroom' := h.room p' hp'
  have hsizes := h.sizes p hp
  have hsizes' := h.sizes p' hp'
  unfold ProgramHeader.Apart at hapart
  unfold Aside
  rw [haddr, haddr', hlen, hlen']
  omega

theorem WellFormed.covers (h : WellFormed contents size) (hsize : size ≤ 2 ^ 64) {x : UInt64}
    (hx : Covers ((loads contents).map (copy contents)) x) :
    ∃ p ∈ loads contents, p.paddr ≤ x.toNat ∧ x.toNat < p.paddr + p.filesz := by
  obtain ⟨w, hw, hmem⟩ := hx
  obtain ⟨p, hp, rfl⟩ := List.mem_map.mp hw
  obtain ⟨haddr, hlen⟩ := h.copy_spec hsize hp
  have hroom := h.room p hp
  have hsizes := h.sizes p hp
  rw [Span.mem_iff_toNat (by rw [haddr, hlen]; omega), haddr, hlen] at hmem
  exact ⟨p, hp, hmem⟩

theorem WellFormed.loaded (h : WellFormed contents size) (hsize : size ≤ 2 ^ 64) {m : Memory}
    (hzero : ∀ x : UInt64, x.toNat < size → m x = 0) :
    Loaded contents m (storeAll m ((loads contents).map (copy contents))) := by
  constructor
  case copied =>
    intro p hp i hi
    obtain ⟨haddr, hlen⟩ := h.copy_spec hsize hp
    have hroom := h.room p hp
    have hsizes := h.sizes p hp
    have hload := load_storeAll_of_mem m (h.aside hsize) (List.mem_map_of_mem hp)
      (by rw [hlen]; omega)
    have hbyte := congrArg (fun l => l[i]?) hload
    rw [hlen] at hbyte
    unfold Lib.ByteMemory.load at hbyte
    rw [List.getElem?_map, List.getElem?_range hi] at hbyte
    rw [UInt64.ofNat_add, ← getElem?_slice contents hi]
    exact hbyte.symm
  case zeroed =>
    intro p hp i hi hge
    have hroom := h.room p hp
    have htoNat : (UInt64.ofNat (p.paddr + i)).toNat = p.paddr + i :=
      (UInt64.toNat_ofNat' ..).trans (Nat.mod_eq_of_lt (by omega))
    rw [storeAll_of_not_covers]
    · exact hzero _ (by rw [htoNat]; omega)
    · intro hx
      obtain ⟨p', hp', hle, hlt⟩ := h.covers hsize hx
      have hsizes := h.sizes p' hp'
      rw [htoNat] at hle hlt
      by_cases heq : p = p'
      · subst heq
        omega
      · have hapart := h.apart.forall hp hp' heq
        unfold ProgramHeader.Apart at hapart
        omega
  case kept =>
    intro x hx
    apply storeAll_of_not_covers
    intro hcovers
    obtain ⟨p, hp, hle, hlt⟩ := h.covers hsize hcovers
    have hsizes := h.sizes p hp
    exact hx p hp ⟨hle, by omega⟩

end Exact

/-- A kernel that is in order is loaded into zeroed memory as its headers say, whatever
their number and order. -/
theorem load_exact {contents : List UInt8} {g : Guest} (hfile : contents.length < 2 ^ 63)
    (hsize : g.size ≤ 2 ^ 64) (h : WellFormed contents g.size)
    (hzero : ∀ x : UInt64, x.toNat < g.size → g.bytes x = 0) :
    ∃ m', load g (some { contents := contents }) =
        .ok (.returned (UInt64.ofNat (entry contents)), ⟨m', g.size⟩) ∧
      Loaded contents g.bytes m' := by
  refine ⟨storeAll g.bytes ((loads contents).map (copy contents)), ?_, h.loaded hsize hzero⟩
  have hwrite : g.writeAll ((loads contents).map (copy contents)) = .ok _ :=
    Guest.writeAll_ok fun w hw => by
      obtain ⟨p, hp, rfl⟩ := List.mem_map.mp hw
      obtain ⟨haddr, hlen⟩ := h.copy_spec hsize hp
      have hroom := h.room p hp
      have hsizes := h.sizes p hp
      right
      rw [haddr, hlen]
      omega
  rw [load_complete hfile g h.magic h.small h.complete, hwrite]
  rfl

def haltSegment : ProgramHeader := ⟨ptLoad, 120, 0x100000, 1, 2⟩

def haltFile : List UInt8 := oneSegment 0x100000 phdrSize haltSegment [0xf4]

set_option maxRecDepth 4000 in
theorem loads_haltFile : loads haltFile = [haltSegment] := by decide

theorem wellFormed_haltFile : WellFormed haltFile 0x200000 where
  magic := by decide
  ehdr := by decide
  entsize := by decide
  table := Or.inr (by decide)
  present := by
    rw [loads_haltFile]
    decide
  sizes := by
    rw [loads_haltFile]
    decide
  room := by
    rw [loads_haltFile]
    decide
  apart := by
    rw [loads_haltFile]
    exact List.pairwise_singleton _ _

def zeroGuest : Guest := ⟨fun _ => 0, 0x200000⟩

theorem haltFile_loaded : ∃ m', load zeroGuest (some { contents := haltFile }) =
      .ok (.returned (UInt64.ofNat (entry haltFile)), ⟨m', zeroGuest.size⟩) ∧
    Loaded haltFile zeroGuest.bytes m' :=
  load_exact (by decide) (by decide) wellFormed_haltFile fun _ _ => rfl

end Kthxvm.Elf
