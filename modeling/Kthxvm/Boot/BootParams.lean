import Kthxvm.Guest
import Kthxvm.MemoryMap

/-! `setup_bootparams` of `vm.h`. The offsets are those of `boot_params`, which the
kernel's boot protocol fixes. -/
namespace Kthxvm.BootParams

open Layout MemoryMap Lib.ByteMemory Lib.WriteLog

def kernelBootFlagMagic : UInt16 := 0xaa55
def kernelHdrMagic : UInt32 := 0x53726448
def kernelLoaderOther : UInt8 := 0xff
def kernelMinAlignmentBytes : UInt32 := 0x1000000

/-- `sizeof(struct boot_params)` -/
def bootParamsSize : Nat := 4096

def e820Entries : UInt64 := zeroPageStart + 0x1e8
def bootFlag : UInt64 := zeroPageStart + 0x1fe
def header : UInt64 := zeroPageStart + 0x202
def typeOfLoader : UInt64 := zeroPageStart + 0x210
def cmdLinePtr : UInt64 := zeroPageStart + 0x228
def kernelAlignment : UInt64 := zeroPageStart + 0x230
def cmdlineSize : UInt64 := zeroPageStart + 0x238

def e820Slot (n : UInt8) : UInt64 := zeroPageStart + (0x2d0 + 20 * n.toUInt64)

def e820Stores (n : UInt8) (e : E820Entry) : Log :=
  [(e820Slot n, bytesOfNat 8 e.addr.toNat), (e820Slot n + 8, bytesOfNat 8 e.size.toNat),
    (e820Slot n + 16, bytesOfNat 4 e.type.toNat), (e820Entries, [n + 1])]

def addE820 (g : Guest) (e : E820Entry) : Except Fault Guest := do
  let n ← g.read8 e820Entries
  g.writeAll (e820Stores n e)

def hdrStores (cmdline : List UInt8) : Log :=
  [(typeOfLoader, [kernelLoaderOther]), (bootFlag, bytesOfNat 2 kernelBootFlagMagic.toNat),
    (header, bytesOfNat 4 kernelHdrMagic.toNat), (cmdLinePtr, bytesOfNat 4 cmdlineStart.toNat),
    (cmdlineSize, bytesOfNat 4 cmdline.length),
    (kernelAlignment, bytesOfNat 4 kernelMinAlignmentBytes.toNat)]

def setupBootparams (g : Guest) (cmdline : List UInt8) : Except Fault Guest := do
  let g ← g.write zeroPageStart (List.replicate bootParamsSize 0)
  let g ← g.write cmdlineStart cmdline
  let g ← (e820Table (UInt64.ofNat g.size)).foldlM addE820 g
  g.writeAll (hdrStores cmdline)

def e820Log : UInt8 → List E820Entry → Log
  | _, [] => []
  | n, e :: es => e820Stores n e ++ e820Log (n + 1) es

/-- The stores of `setup_bootparams`, in order. -/
def stores (memSize : UInt64) (cmdline : List UInt8) : Log :=
  (zeroPageStart, List.replicate bootParamsSize 0) :: (cmdlineStart, cmdline) ::
    (e820Log 0 (e820Table memSize) ++ hdrStores cmdline)

theorem succ_toNat {n : UInt8} (hn : n.toNat < 128) : (n + 1).toNat = n.toNat + 1 := by
  rw [UInt8.toNat_add]
  simp only [UInt8.reduceToNat]
  omega

theorem e820Slot_toNat (n : UInt8) : (e820Slot n).toNat = 0x72d0 + 20 * n.toNat := by
  have hn := n.toNat_lt
  have hpage : zeroPageStart.toNat = 0x7000 := rfl
  unfold e820Slot
  rw [UInt64.toNat_add, UInt64.toNat_add, UInt64.toNat_mul, UInt8.toNat_toUInt64, hpage]
  simp only [UInt64.reduceToNat]
  omega

theorem e820Stores_within {n : UInt8} (hn : n.toNat < 128) (e : E820Entry) :
    Log.Within (e820Stores n e) 0x7000 0x8000 := by
  have hslot := e820Slot_toNat n
  have hsize : (e820Slot n + 8).toNat = 0x72d8 + 20 * n.toNat := by
    rw [UInt64.toNat_add, hslot]
    simp only [UInt64.reduceToNat]
    omega
  have htype : (e820Slot n + 16).toNat = 0x72e0 + 20 * n.toNat := by
    rw [UInt64.toNat_add, hslot]
    simp only [UInt64.reduceToNat]
    omega
  have hcount : e820Entries.toNat = 0x71e8 := rfl
  intro w hw
  simp only [e820Stores, List.mem_cons, List.not_mem_nil, or_false] at hw
  rcases hw with rfl | rfl | rfl | rfl
  · rw [hslot, length_bytesOfNat]
    omega
  · rw [hsize, length_bytesOfNat]
    omega
  · rw [htype, length_bytesOfNat]
    omega
  · rw [hcount]
    simp

theorem e820Log_within {es : List E820Entry} {n : UInt8} (hn : n.toNat + es.length ≤ 128) :
    Log.Within (e820Log n es) 0x7000 0x8000 := by
  induction es generalizing n with
  | nil => exact fun w hw => absurd hw List.not_mem_nil
  | cons e es ih =>
    rw [List.length_cons] at hn
    have hnext : (n + 1).toNat = n.toNat + 1 := succ_toNat (by omega)
    exact Log.within_append.mpr ⟨e820Stores_within (by omega) e, ih (by omega)⟩

theorem hdrStores_within (cmdline : List UInt8) : Log.Within (hdrStores cmdline) 0x7000 0x8000 := by
  intro w hw
  simp only [hdrStores, List.mem_cons, List.not_mem_nil, or_false] at hw
  rcases hw with rfl | rfl | rfl | rfl | rfl | rfl
  all_goals
    simp only [length_bytesOfNat, List.length_singleton]
    decide

/-- `e820_entries` counts the entries, so the loop fills the slots in order. -/
theorem addE820_log {es : List E820Entry} {n : UInt8} {g : Guest} (hcount : g.bytes e820Entries = n)
    (hsize : 0x8000 ≤ g.size) (hn : n.toNat + es.length ≤ 128) :
    es.foldlM addE820 g = .ok { g with bytes := storeAll g.bytes (e820Log n es) } := by
  induction es generalizing n g with
  | nil => rfl
  | cons e es ih =>
    rw [List.length_cons] at hn
    have hnext : (n + 1).toNat = n.toNat + 1 := succ_toNat (by omega)
    have haddr : e820Entries.toNat = 0x71e8 := rfl
    have hheld : g.Holds e820Entries 1 := Or.inr (by omega)
    have hread : g.read8 e820Entries = .ok n := by
      rw [Guest.read8_ok hheld, hcount]
    have hwithin := e820Stores_within (n := n) (by omega) e
    have hwrite := Guest.writeAll_ok (g := g) fun w hw => Or.inr ((hwithin w hw).2.trans hsize)
    have hstored : storeAll g.bytes (e820Stores n e) e820Entries = n + 1 := by
      simp only [e820Stores, storeAll_cons, storeAll_nil, store_one]
    have hadd : addE820 g e = .ok { g with bytes := storeAll g.bytes (e820Stores n e) } := by
      unfold addE820
      rw [hread]
      exact hwrite
    rw [List.foldlM_cons, hadd, e820Log, storeAll_append]
    have hrest : (n + 1).toNat + es.length ≤ 128 := by omega
    obtain ⟨m, hm⟩ : ∃ m, m = storeAll g.bytes (e820Stores n e) := ⟨_, rfl⟩
    rw [← hm] at hstored ⊢
    exact ih (g := ⟨m, g.size⟩) hstored hsize hrest

theorem length_e820Table (memSize : UInt64) : (e820Table memSize).length ≤ 3 := by
  unfold e820Table
  split
  · simp
  · simp

theorem zeroed_count (m : Memory) {cmdline : List UInt8}
    (hline : 0x20000 + cmdline.length ≤ 2 ^ 64) :
    store (store m zeroPageStart (List.replicate bootParamsSize 0)) cmdlineStart cmdline
      e820Entries = 0 := by
  have hstart : cmdlineStart.toNat = 0x20000 := rfl
  have haddr : e820Entries.toNat = 0x71e8 := rfl
  have hout : e820Entries ∉ (⟨cmdlineStart, cmdline.length⟩ : Span) := by
    rw [Span.mem_iff_toNat (by omega)]
    omega
  have hoff : (e820Entries - zeroPageStart).toNat = 0x1e8 := rfl
  rw [store_of_notMem _ _ _ hout, store, hoff, List.getD_eq_getElem?_getD,
    List.getElem?_replicate]
  rfl

theorem setupBootparams_ok {g : Guest} {cmdline : List UInt8} (hpage : 0x8000 ≤ g.size)
    (hline : 0x20000 + cmdline.length ≤ g.size) (hsize : g.size ≤ 2 ^ 64) :
    setupBootparams g cmdline =
      .ok { g with bytes := storeAll g.bytes (stores (UInt64.ofNat g.size) cmdline) } := by
  have hzero : g.Holds zeroPageStart (List.replicate bootParamsSize (0 : UInt8)).length := by
    rw [List.length_replicate]
    exact Or.inr (le_trans (by decide) hpage)
  have hcount := zeroed_count g.bytes (hline.trans hsize)
  have hentries := length_e820Table (UInt64.ofNat g.size)
  have hlog : (0 : UInt8).toNat + (e820Table (UInt64.ofNat g.size)).length ≤ 128 := by
    simp only [UInt8.reduceToNat]
    omega
  unfold setupBootparams stores
  rw [storeAll_cons, storeAll_cons, storeAll_append]
  generalize hzeros : List.replicate bootParamsSize (0 : UInt8) = zeros at hzero hcount ⊢
  refine bind_eq_ok.mpr ⟨_, Guest.write_ok hzero, ?_⟩
  refine bind_eq_ok.mpr ⟨_, Guest.write_ok (Or.inr hline), ?_⟩
  refine bind_eq_ok.mpr ⟨_, addE820_log hcount hpage hlog, ?_⟩
  exact Guest.writeAll_ok fun w hw => Or.inr ((hdrStores_within cmdline w hw).2.trans hpage)

theorem entries_within (memSize : UInt64) (cmdline : List UInt8) :
    Log.Within (e820Log 0 (e820Table memSize) ++ hdrStores cmdline) 0x7000 0x8000 := by
  have hentries := length_e820Table memSize
  refine Log.within_append.mpr ⟨e820Log_within ?_, hdrStores_within cmdline⟩
  simp only [UInt8.reduceToNat]
  omega

theorem stores_covers {memSize : UInt64} {cmdline : List UInt8}
    (hline : 0x20000 + cmdline.length ≤ 2 ^ 64) {x : UInt64}
    (h : Covers (stores memSize cmdline) x) :
    0x7000 ≤ x.toNat ∧ x.toNat < 0x8000 ∨
      0x20000 ≤ x.toNat ∧ x.toNat < 0x20000 + cmdline.length := by
  have hpage : zeroPageStart.toNat = 0x7000 := rfl
  have hstart : cmdlineStart.toNat = 0x20000 := rfl
  have hwithin := entries_within memSize cmdline
  rw [stores, covers_cons, covers_cons] at h
  dsimp only at h
  rcases h with h | h | h
  · left
    rw [List.length_replicate, bootParamsSize, Span.mem_iff_toNat (by omega)] at h
    omega
  · right
    rw [Span.mem_iff_toNat (by omega)] at h
    omega
  · left
    exact hwithin.of_covers (by norm_num) h

/-- What tells the kernel that it was loaded by the boot protocol. -/
structure Header (m : Memory) : Prop where
  typeOfLoader : m typeOfLoader = kernelLoaderOther
  bootFlag : load16 m bootFlag = kernelBootFlagMagic
  header : load32 m header = kernelHdrMagic
  kernelAlignment : load32 m kernelAlignment = kernelMinAlignmentBytes

theorem Header.congr {m m' : Memory} (hagree : AgreeOn ⟨zeroPageStart, bootParamsSize⟩ m m')
    (h : Header m) : Header m' := by
  have hfield : ∀ {k : UInt64} {n : Nat}, k.toNat + n ≤ bootParamsSize →
      AgreeOn ⟨zeroPageStart + k, n⟩ m m' := fun hk => hagree.mono (Span.within_of_offset hk)
  constructor
  case typeOfLoader =>
    have hbyte := hagree _ (Span.mem_offset (i := 0x210) (by decide) (by decide))
    exact hbyte.symm.trans h.typeOfLoader
  case bootFlag => exact (hfield (by decide)).load16_eq.symm.trans h.bootFlag
  case header => exact (hfield (by decide)).load32_eq.symm.trans h.header
  case kernelAlignment => exact (hfield (by decide)).load32_eq.symm.trans h.kernelAlignment

section ReadBack

variable (m : Memory) (memSize : UInt64) (cmdline : List UInt8)

theorem load_cmdline (hline : 0x20000 + cmdline.length ≤ 2 ^ 64) :
    load (storeAll m (stores memSize cmdline)) cmdlineStart cmdline.length = cmdline := by
  have hstart : cmdlineStart.toNat = 0x20000 := rfl
  have hwithin := entries_within memSize cmdline
  refine load_storeAll m [(zeroPageStart, List.replicate bootParamsSize 0)] _
    (cmdlineStart, cmdline) (by dsimp only; omega) fun w hw => ?_
  have hw := (hwithin w hw).2
  right
  dsimp only
  omega

theorem hdrStores_aside : (hdrStores cmdline).Pairwise Aside := by
  have hloader : typeOfLoader.toNat = 0x7210 := rfl
  have hflag : bootFlag.toNat = 0x71fe := rfl
  have hheader : header.toNat = 0x7202 := rfl
  have hptr : cmdLinePtr.toNat = 0x7228 := rfl
  have hsize : cmdlineSize.toNat = 0x7238 := rfl
  have halign : kernelAlignment.toNat = 0x7230 := rfl
  simp only [hdrStores, List.pairwise_cons, List.mem_cons, List.not_mem_nil, or_false,
    forall_eq_or_imp, forall_eq, Aside, hloader, hflag, hheader, hptr, hsize, halign,
    length_bytesOfNat, List.length_singleton, IsEmpty.forall_iff, implies_true,
    List.Pairwise.nil, and_true]
  omega

theorem load_hdr {w : UInt64 × List UInt8} (hw : w ∈ hdrStores cmdline) :
    load (storeAll m (stores memSize cmdline)) w.1 w.2.length = w.2 := by
  have hwithin := hdrStores_within cmdline w hw
  rw [stores, storeAll_cons, storeAll_cons, storeAll_append]
  exact load_storeAll_of_mem _ (hdrStores_aside cmdline) hw (by omega)

theorem header_stores : Header (storeAll m (stores memSize cmdline)) := by
  have hload := fun w hw => load_hdr m memSize cmdline (w := w) hw
  constructor
  case typeOfLoader =>
    have hbyte := hload (typeOfLoader, [kernelLoaderOther]) (by simp [hdrStores])
    dsimp only at hbyte
    rw [List.length_singleton, load_one] at hbyte
    exact List.singleton_inj.mp hbyte
  case bootFlag =>
    exact load16_of_load (hload (bootFlag, bytesOfNat 2 kernelBootFlagMagic.toNat)
      (by simp [hdrStores]))
  case header =>
    exact load32_of_load (hload (header, bytesOfNat 4 kernelHdrMagic.toNat)
      (by simp [hdrStores]))
  case kernelAlignment =>
    exact load32_of_load (hload (kernelAlignment, bytesOfNat 4 kernelMinAlignmentBytes.toNat)
      (by simp [hdrStores]))

theorem load_cmdLinePtr :
    load32 (storeAll m (stores memSize cmdline)) cmdLinePtr = cmdlineStart.toUInt32 := by
  apply load32_of_load
  exact load_hdr m memSize cmdline (w := (cmdLinePtr, bytesOfNat 4 cmdlineStart.toNat))
    (by simp [hdrStores])

theorem load_cmdlineSize :
    load32 (storeAll m (stores memSize cmdline)) cmdlineSize = UInt32.ofNat cmdline.length := by
  apply load32_of_load
  exact load_hdr m memSize cmdline (w := (cmdlineSize, bytesOfNat 4 cmdline.length))
    (by simp [hdrStores])

end ReadBack

end Kthxvm.BootParams
