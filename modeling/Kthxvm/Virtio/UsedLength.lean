import Kthxvm.Lib.WriteLog
import Kthxvm.Virtio.BlkMachine
import Kthxvm.Virtio.Rng
import Kthxvm.Virtio.Staging

/-! What the devices report to `add_used`, against what they stored into the
buffers of the chain. -/
namespace Kthxvm.Virtio

open Lib.ByteMemory Lib.Disk Lib.ScatterGather Lib.WriteLog

/-- The chain is handed back with `len` once the stores of `log` are made. -/
def Reports (q : Queue) (g g' : Guest) (start len : UInt32) (log : Log) : Prop :=
  ∃ g₁ idx, q.addUsed g₁ start len = .ok (idx, g') ∧ g₁.bytes = storeAll g.bytes log

/-- The byte is in a buffer of the chain, or is the one that a status is stored to. -/
def Lands (ds : List Descriptor) (x : UInt64) : Prop := ∃ d ∈ ds, x = d.addr ∨ x ∈ d.span

instance (ds : List Descriptor) (x : UInt64) : Decidable (Lands ds x) :=
  inferInstanceAs (Decidable (∃ d ∈ ds, _))

def landed (ds : List Descriptor) (w : UInt64 × List UInt8) : Nat :=
  (List.range w.2.length).countP fun k => Lands ds (w.1 + UInt64.ofNat k)

/-- What the chain has got of the stores, each byte as often as it is stored. -/
def received (ds : List Descriptor) (log : Log) : Nat := (log.map (landed ds)).sum

namespace Blk

def inStores : FStream → List Descriptor → Log
  | _, [] => []
  | file, d :: ds =>
    (d.addr, (file.read d.len.toNat).1) :: inStores (file.read d.len.toNat).2 ds

section Loops

variable {q : Queue} {g g' : Guest} {i j : UInt16} {data : List Descriptor} {st : Descriptor}
  {fuel : Nat} {file file' : FStream} {len len' : UInt32}

end Loops

namespace Request

/-- The descriptor behind the header, which `GET_ID` takes for its buffer. -/
def second (r : Request) : Descriptor := r.data.headD r.st

/-- The buffers that the device fills while it has still to read the table. -/
def filled (r : Request) (m : Memory) : List Descriptor :=
  if r.type m = blkTIn then r.data
  else if r.type m = blkTOut then []
  else [r.second]

/-- Everything a request stores into guest memory. `GET_ID` has its status stored through
the entry that its buffer names as the next one, whether it is in the chain or not. -/
def stores (r : Request) (q : Queue) (file : FStream) (m : Memory) : Log :=
  if r.type m = blkTIn then
    inStores (file.seek (r.sector m * 512)) r.data ++ [(r.st.addr, [blkSOk])]
  else if r.type m = blkTOut then [(r.st.addr, [blkSOk])]
  else [(r.second.addr, diskId.take r.second.len.toNat),
    ((q.entry m r.second.next).addr, [blkSOk])]

end Request

section Handle

variable {q : Queue} {g g' : Guest} {r : Request} {fuel : Nat} {file file' : FStream}
  {len : UInt32}

end Handle

end Blk

namespace Net

section Receive

variable {q : Queue} {g g' : Guest} {i : UInt16} {ds : List Descriptor} {fuel : Nat}
  {buffer : List UInt8} {size : Int} {len len' : UInt32}

end Receive

end Net

section Sample

open BlkMachine

end Sample

end Kthxvm.Virtio
