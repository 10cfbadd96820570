import Kthxvm.Boot.BootParams

/-! The memory map as a kernel reads it from the zero page. -/
namespace Kthxvm.BootParams

open Layout MemoryMap Lib.ByteMemory Lib.WriteLog

def e820At (m : Memory) (page : UInt64) (n : Nat) : E820Entry :=
  let slot := page + (0x2d0 + 20 * UInt64.ofNat n)
  ⟨load64 m slot, load64 m (slot + 8), load32 m (slot + 16)⟩

/-- As many entries as `e820_entries` says. -/
def readE820 (m : Memory) (page : UInt64) : List E820Entry :=
  (List.range (m (page + 0x1e8)).toNat).map (e820At m page)

theorem e820At_congr {m m' : Memory} {page : UInt64} {n : Nat}
    (h : AgreeOn ⟨page + (0x2d0 + 20 * UInt64.ofNat n), 20⟩ m m') :
    e820At m page n = e820At m' page n := by
  have hsize : AgreeOn ⟨page + (0x2d0 + 20 * UInt64.ofNat n) + 8, 8⟩ m m' :=
    h.mono (Span.within_of_offset (by decide))
  have htype : AgreeOn ⟨page + (0x2d0 + 20 * UInt64.ofNat n) + 16, 4⟩ m m' :=
    h.mono (Span.within_of_offset (by decide))
  have haddr : AgreeOn ⟨page + (0x2d0 + 20 * UInt64.ofNat n), 8⟩ m m' :=
    h.mono (Span.within_of_le (by decide))
  unfold e820At
  dsimp only
  rw [haddr.load64_eq, hsize.load64_eq, htype.load32_eq]

theorem slot_toNat {n : Nat} (hn : n < 128) :
    (0x2d0 + 20 * UInt64.ofNat n).toNat = 0x2d0 + 20 * n := by
  rw [UInt64.toNat_add, UInt64.toNat_mul, UInt64.toNat_ofNat']
  simp only [UInt64.reduceToNat]
  omega

theorem readE820_congr {m m' : Memory} {page : UInt64} (h : AgreeOn ⟨page, bootParamsSize⟩ m m')
    (hcount : (m (page + 0x1e8)).toNat ≤ 128) : readE820 m page = readE820 m' page := by
  have hsize : bootParamsSize = 4096 := rfl
  have hentries : m (page + 0x1e8) = m' (page + 0x1e8) :=
    h (page + UInt64.ofNat 0x1e8) (Span.mem_offset (by omega) (by omega))
  unfold readE820
  rw [← hentries]
  refine List.map_congr_left fun n hn => ?_
  rw [List.mem_range] at hn
  refine e820At_congr (h.mono (Span.within_of_offset ?_))
  rw [slot_toNat (by omega)]
  omega

theorem readE820_of_agree {m m' : Memory} {page : UInt64} {es : List E820Entry}
    (h : AgreeOn ⟨page, bootParamsSize⟩ m m') (hread : readE820 m' page = es)
    (hshort : es.length ≤ 128) : readE820 m page = es := by
  have hcount := congrArg List.length hread
  unfold readE820 at hcount
  rw [List.length_map, List.length_range] at hcount
  rw [← readE820_congr h.symm (by omega), hread]

theorem count_stored (m : Memory) (n : UInt8) (e : E820Entry) :
    storeAll m (e820Stores n e) e820Entries = n + 1 := by
  simp only [e820Stores, storeAll_cons, storeAll_nil, store_one]

theorem e820Fields_toNat {n : UInt8} (hn : n.toNat < 128) :
    (e820Slot n + 8).toNat = 0x72d8 + 20 * n.toNat ∧
      (e820Slot n + 16).toNat = 0x72e0 + 20 * n.toNat ∧ e820Entries.toNat = 0x71e8 := by
  have hslot := e820Slot_toNat n
  refine ⟨?_, ?_, rfl⟩
  · rw [UInt64.toNat_add, hslot]
    simp only [UInt64.reduceToNat]
    omega
  · rw [UInt64.toNat_add, hslot]
    simp only [UInt64.reduceToNat]
    omega

section Slots

variable {n : UInt8} (hn : n.toNat < 128) (e : E820Entry)

include hn

theorem e820Stores_aside : (e820Stores n e).Pairwise Aside := by
  have hslot := e820Slot_toNat n
  obtain ⟨hsize, htype, hcount⟩ := e820Fields_toNat hn
  simp only [e820Stores, List.pairwise_cons, List.mem_cons, List.not_mem_nil, or_false,
    forall_eq_or_imp, forall_eq, Aside, hslot, hsize, htype, hcount, length_bytesOfNat,
    List.length_singleton, IsEmpty.forall_iff, implies_true, List.Pairwise.nil, and_true]
  omega

theorem e820At_stored (m : Memory) :
    e820At (storeAll m (e820Stores n e)) zeroPageStart n.toNat = e := by
  have haside := e820Stores_aside hn e
  have hslot : zeroPageStart + (0x2d0 + 20 * UInt64.ofNat n.toNat) = e820Slot n := by
    rw [e820Slot, UInt64.ofNat_uInt8ToNat]
  have haddr := load_storeAll_of_mem m haside (w := (e820Slot n, bytesOfNat 8 e.addr.toNat))
    (by simp [e820Stores]) (by simp)
  have hsize := load_storeAll_of_mem m haside (w := (e820Slot n + 8, bytesOfNat 8 e.size.toNat))
    (by simp [e820Stores]) (by simp)
  have htype := load_storeAll_of_mem m haside (w := (e820Slot n + 16, bytesOfNat 4 e.type.toNat))
    (by simp [e820Stores]) (by simp)
  rw [length_bytesOfNat] at haddr hsize htype
  unfold e820At
  rw [hslot]
  dsimp only
  rw [load64_of_load haddr, load64_of_load hsize, load32_of_load htype, UInt64.ofNat_toNat,
    UInt64.ofNat_toNat, UInt32.ofNat_toNat]

theorem e820At_kept (m : Memory) {i : Nat} (hi : i < n.toNat) :
    e820At (storeAll m (e820Stores n e)) zeroPageStart i = e820At m zeroPageStart i := by
  have hpage : zeroPageStart.toNat = 0x7000 := rfl
  have hslot := e820Slot_toNat n
  have hfield := slot_toNat (n := i) (by omega)
  refine e820At_congr fun x hx => storeAll_of_not_covers m ?_
  have hstart : (zeroPageStart + (0x2d0 + 20 * UInt64.ofNat i)).toNat = 0x72d0 + 20 * i := by
    rw [UInt64.toNat_add, hfield, hpage]
    omega
  rw [Span.mem_iff_toNat (by rw [hstart]; omega), hstart] at hx
  rintro ⟨w, hw, hxw⟩
  obtain ⟨hsize, htype, hcount⟩ := e820Fields_toNat hn
  have hwithin := e820Stores_within hn e w hw
  rw [Span.mem_iff_toNat (by omega)] at hxw
  simp only [e820Stores, List.mem_cons, List.not_mem_nil, or_false] at hw
  rcases hw with rfl | rfl | rfl | rfl
  all_goals
    simp only [length_bytesOfNat, List.length_singleton] at hxw
    omega

theorem readE820_stored {m : Memory} (hcount : m e820Entries = n) :
    readE820 (storeAll m (e820Stores n e)) zeroPageStart = readE820 m zeroPageStart ++ [e] := by
  have hentries : zeroPageStart + 0x1e8 = e820Entries := rfl
  have hkept := List.map_congr_left (l := List.range n.toNat) fun i hi =>
    e820At_kept hn e m (List.mem_range.mp hi)
  unfold readE820
  rw [hentries, count_stored, hcount, succ_toNat hn, List.range_succ, List.map_append,
    List.map_singleton, e820At_stored hn, hkept]

end Slots

theorem readE820_log (es : List E820Entry) {n : UInt8} {m : Memory} (hcount : m e820Entries = n)
    (hn : n.toNat + es.length ≤ 128) :
    readE820 (storeAll m (e820Log n es)) zeroPageStart = readE820 m zeroPageStart ++ es := by
  induction es generalizing n m with
  | nil => rw [e820Log, storeAll_nil, List.append_nil]
  | cons e es ih =>
    rw [List.length_cons] at hn
    have hnext : (n + 1).toNat = n.toNat + 1 := succ_toNat (by omega)
    have hstored := count_stored m n e
    obtain ⟨m₁, hm⟩ : ∃ m₁, m₁ = storeAll m (e820Stores n e) := ⟨_, rfl⟩
    have hread := readE820_stored (by omega) e hcount
    rw [← hm] at hstored hread
    rw [e820Log, storeAll_append, ← hm, ih hstored (by omega), hread, List.append_assoc,
      List.singleton_append]

theorem readE820_hdr (m : Memory) (cmdline : List UInt8) (hcount : (m e820Entries).toNat ≤ 128) :
    readE820 (storeAll m (hdrStores cmdline)) zeroPageStart = readE820 m zeroPageStart := by
  have hpage : zeroPageStart.toNat = 0x7000 := rfl
  have hentries : e820Entries.toNat = 0x71e8 := rfl
  have haside : ∀ x, Covers (hdrStores cmdline) x → 0x71e9 ≤ x.toNat ∧ x.toNat < 0x72d0 := by
    refine fun x hx => Log.Within.of_covers (fun w hw => ?_) (by decide) hx
    simp only [hdrStores, List.mem_cons, List.not_mem_nil, or_false] at hw
    rcases hw with rfl | rfl | rfl | rfl | rfl | rfl
    all_goals
      simp only [length_bytesOfNat, List.length_singleton]
      decide
  have hsame : storeAll m (hdrStores cmdline) e820Entries = m e820Entries := by
    apply storeAll_of_not_covers
    intro hcovers
    have hx := haside _ hcovers
    omega
  have haddr : zeroPageStart + 0x1e8 = e820Entries := rfl
  unfold readE820
  rw [haddr, hsame]
  refine List.map_congr_left fun i hi => e820At_congr fun x hx => ?_
  rw [List.mem_range] at hi
  have hstart : (zeroPageStart + (0x2d0 + 20 * UInt64.ofNat i)).toNat = 0x72d0 + 20 * i := by
    rw [UInt64.toNat_add, slot_toNat (by omega), hpage]
    omega
  rw [Span.mem_iff_toNat (by rw [hstart]; omega), hstart] at hx
  apply storeAll_of_not_covers
  intro hcovers
  have hx' := haside _ hcovers
  omega

theorem readE820_stores (m : Memory) (memSize : UInt64) (cmdline : List UInt8)
    (hline : 0x20000 + cmdline.length ≤ 2 ^ 64) :
    readE820 (storeAll m (stores memSize cmdline)) zeroPageStart = e820Table memSize := by
  have hzero := zeroed_count m hline
  have hshort := length_e820Table memSize
  rw [stores, storeAll_cons, storeAll_cons]
  obtain ⟨m₁, hm⟩ : ∃ m₁, m₁ = store (store m zeroPageStart (List.replicate bootParamsSize 0))
    cmdlineStart cmdline := ⟨_, rfl⟩
  dsimp only
  rw [← hm] at hzero ⊢
  have hempty : readE820 m₁ zeroPageStart = [] := by
    have haddr : zeroPageStart + 0x1e8 = e820Entries := rfl
    unfold readE820
    rw [haddr, hzero]
    rfl
  have hlog := readE820_log (e820Table memSize) hzero (by
    simp only [UInt8.reduceToNat]
    omega)
  rw [hempty, List.nil_append] at hlog
  have hlen : (storeAll m₁ (e820Log 0 (e820Table memSize)) e820Entries).toNat ≤ 128 := by
    have hcount := congrArg List.length hlog
    unfold readE820 at hcount
    rw [List.length_map, List.length_range] at hcount
    have haddr : zeroPageStart + 0x1e8 = e820Entries := rfl
    rw [haddr] at hcount
    omega
  rw [storeAll_append, readE820_hdr _ _ hlen, hlog]

end Kthxvm.BootParams
