import Kthxvm.Guest
import Kthxvm.Layout

/-! The multiprocessor table of `mptable.h`, in the layout of `mpspec_def.h`. -/
namespace Kthxvm.MpTable

open Layout Lib.ByteMemory

def mptableMaxSize : Nat := 32 <<< 20

def apicAddr : UInt32 := 0xfee00000
def ioapicAddr : UInt32 := 0xfec00000
def kvmApicVersion : UInt8 := 0x14

def mpProcessor : UInt8 := 0
def mpBus : UInt8 := 1
def mpIoapic : UInt8 := 2
def mpLintsrc : UInt8 := 4

def cpuEnabled : UInt32 := 1
def cpuBootprocessor : UInt32 := 2
def mpcApicUsable : UInt8 := 1

def mpInt : UInt8 := 0
def mpNmi : UInt8 := 1
def mpIrqpolDefault : UInt16 := 0

def isabusid : UInt8 := 0

def chars (s : String) : List UInt8 := s.toList.map fun c => UInt8.ofNat c.toNat

def genCpuFlag (cpu ncpu : UInt32) : UInt32 :=
  (if cpu < ncpu then cpuEnabled else 0) ||| (if cpu = 0 then cpuBootprocessor else 0)

def mpfChecksum (mp : List UInt8) : UInt32 :=
  mp.foldl (fun sum b => sum + b.toUInt32) 0 &&& 0xFF

/-- `-mpf_checksum(_)`, stored as one byte. -/
def checksum (mp : List UInt8) : UInt8 := (0 - mpfChecksum mp).toUInt8

def mpcTable (length : UInt16) (checksum : UInt8) (oemcount : UInt16) : List UInt8 :=
  chars "PCMP" ++ bytesOfNat 2 length.toNat ++ [4, checksum] ++ chars "KVMCPU00" ++
    chars "0.1         " ++ bytesOfNat 4 0 ++ bytesOfNat 2 0 ++ bytesOfNat 2 oemcount.toNat ++
    bytesOfNat 4 apicAddr.toNat ++ bytesOfNat 4 0

/-- `mpc_cpu` of the loop's iteration `i`. -/
def mpcCpu (i ncpus : UInt32) : List UInt8 :=
  [mpProcessor, i.toUInt8, kvmApicVersion, (genCpuFlag i ncpus).toUInt8] ++
    bytesOfNat 4 0x600 ++ bytesOfNat 4 0x201 ++ bytesOfNat 8 0

def mpcBus : List UInt8 := [mpBus, isabusid] ++ chars "PCI   "

def mpcIoapic (ncpus : UInt32) : List UInt8 :=
  [mpIoapic, (ncpus + 1).toUInt8, kvmApicVersion, mpcApicUsable] ++
    bytesOfNat 4 ioapicAddr.toNat

def mpcIntsrc (irqtype dstirq : UInt8) : List UInt8 :=
  [mpLintsrc, irqtype] ++ bytesOfNat 2 mpIrqpolDefault.toNat ++ [isabusid, 0, 0, dstirq]

def mpfIntel (checksum : UInt8) : List UInt8 :=
  chars "_MP_" ++ bytesOfNat 4 mptableStart.toNat ++ [1, 4, checksum, 0, 0, 0, 0, 0]

def entries (ncpus : UInt32) : List UInt8 :=
  (List.range ncpus.toNat).flatMap (fun i => mpcCpu (UInt32.ofNat i) ncpus) ++ mpcBus ++
    mpcIoapic ncpus ++ mpcIntsrc mpInt 0 ++ mpcIntsrc mpNmi 1

/-- `last_addr - mpc_table` -/
def tableLength (ncpus : UInt32) : Nat := 44 + (entries ncpus).length

def alignKernel (x : Nat) : Nat := (x + 15) / 16 * 16

def buffer (ncpus : UInt32) (sum : UInt8) : List UInt8 :=
  mpcTable (UInt16.ofNat (tableLength ncpus)) sum (ncpus + 4).toUInt16 ++ entries ncpus ++
    List.replicate (alignKernel (tableLength ncpus) - tableLength ncpus) 0 ++
    mpfIntel (checksum (mpfIntel 0))

/-- What `setup_mptable` copies; the sum runs over `mpc_table->length` bytes. -/
def image (ncpus : UInt32) : List UInt8 :=
  buffer ncpus
    (checksum ((buffer ncpus 0).take (UInt16.ofNat (tableLength ncpus)).toNat))

def setupMptable (g : Guest) (ncpus : UInt32) : Except Fault Guest :=
  if (image ncpus).length ≤ mptableMaxSize then g.write mptableStart (image ncpus)
  else .error .hostBuffer

theorem length_entries (ncpus : UInt32) : (entries ncpus).length = 20 * ncpus.toNat + 32 := by
  have hcpu : ∀ i, (mpcCpu i ncpus).length = 20 := by
    intro i
    simp [mpcCpu]
  have hrest : (mpcBus ++ mpcIoapic ncpus ++ mpcIntsrc mpInt 0 ++ mpcIntsrc mpNmi 1).length
      = 32 := by
    simp [mpcBus, mpcIoapic, mpcIntsrc, chars]
  simp only [List.length_append] at hrest
  unfold entries
  simp only [List.length_append, List.length_flatMap, hcpu, List.map_const', List.sum_replicate,
    List.length_range, smul_eq_mul]
  omega

theorem length_image (ncpus : UInt32) :
    (image ncpus).length = alignKernel (20 * ncpus.toNat + 76) + 16 := by
  have htable : ∀ l s c, (mpcTable l s c).length = 44 := by
    intro l s c
    simp [mpcTable, chars]
  have hmpf : ∀ s, (mpfIntel s).length = 16 := by
    intro s
    simp [mpfIntel, chars]
  have hlength : tableLength ncpus = 20 * ncpus.toNat + 76 := by
    rw [tableLength, length_entries]
    omega
  unfold image buffer
  simp only [List.length_append, htable, hmpf, length_entries, List.length_replicate, hlength]
  unfold alignKernel
  omega

theorem setupMptable_ok {g : Guest} {ncpus : UInt32}
    (hbuffer : (image ncpus).length ≤ mptableMaxSize)
    (hroom : mptableStart.toNat + (image ncpus).length ≤ g.size) :
    setupMptable g ncpus =
      .ok { g with bytes := store g.bytes mptableStart (image ncpus) } := by
  unfold setupMptable
  rw [if_pos hbuffer]
  exact Guest.write_ok (Or.inr hroom)

end Kthxvm.MpTable
