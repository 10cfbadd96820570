import Kthxvm.Lib.Triple
import Kthxvm.Virtio.BlkRequest
import Kthxvm.Virtio.Net

/-! How far the descriptor loops walk. Each unit of fuel is one descriptor, and
no loop counts them: a walk is as long as the links that the driver wrote. -/
namespace Kthxvm.Virtio

open Lib.ByteMemory Lib.ScatterGather Lib.Triple

abbrev Ends {α : Type} (x : Except Fault α) (P : α → Prop) : Prop :=
  Meets (fun f => f ≠ .unfinished) x P

theorem outside_ends (addr : UInt64) (n : Nat) : Fault.outside addr n ≠ .unfinished := nofun

namespace Queue

/-- The queue with all entries that `descriptor_t` declares, whatever its size is. -/
def declared (q : Queue) : Queue := { q with size := queueSizeMax }

theorem descriptor_ends {q : Queue} {g : Guest} (i : UInt16) :
    Ends (q.descriptor g i) fun d => d = q.entry g.bytes i :=
  descriptor_meets outside_ends i

theorem descriptorIndex_ends (i : UInt16) : Ends (descriptorIndex i) fun j => j = i :=
  descriptorIndex_meets (fun _ => nofun) i

variable {q : Queue} {m : Memory} {i : UInt16} {d : Descriptor} {ds : List Descriptor}

theorem Chain.entry_eq (h : q.declared.Chain m i (d :: ds)) : q.entry m i = d := h.2.1

theorem Chain.rest (h : q.declared.Chain m i (d :: ds)) (hnext : d.hasNext = true) :
    q.declared.Chain m d.next ds := by
  cases ds with
  | nil =>
    rw [h.2.2] at hnext
    contradiction
  | cons e ds => exact h.2.2.2

theorem Chain.last (h : q.declared.Chain m i (d :: ds)) (hnext : ¬ d.hasNext = true) :
    ds = [] := by
  cases ds with
  | nil => rfl
  | cons e ds => exact absurd h.2.2.1 hnext

/-- The driver keeps its buffers out of the descriptor table. -/
def TableKept (q : Queue) (ds : List Descriptor) : Prop :=
  ∀ span ∈ spans ds, span.Apart q.declared.tableSpan

theorem TableKept.head (h : q.TableKept (d :: ds)) : d.span.Apart q.declared.tableSpan :=
  h d.span List.mem_cons_self

theorem TableKept.tail (h : q.TableKept (d :: ds)) : q.TableKept ds :=
  fun span hspan => h span (List.mem_cons_of_mem _ hspan)

theorem Chain.store {bytes : List UInt8} (h : q.declared.Chain m i (d :: ds))
    (hkept : d.span.Apart q.declared.tableSpan) (hbytes : bytes.length ≤ d.len.toNat) :
    q.declared.Chain (store m d.addr bytes) i (d :: ds) := by
  have hapart : q.declared.tableSpan.Apart ⟨d.addr, bytes.length⟩ :=
    hkept.symm.mono (Span.Within.refl _) (Span.within_of_le hbytes)
  exact h.congr ((AgreeOn.refl _ m).store hapart)

end Queue

section Loops

variable {q : Queue} {g : Guest} {i : UInt16} {ds : List Descriptor} {fuel : Nat}

namespace Blk

theorem outLoop_ends (h : q.declared.Chain g.bytes i ds) (hfuel : ds.length ≤ fuel)
    (file : FStream) (len : UInt32) : Ends (outLoop q g fuel file i len) fun _ => True := by
  induction ds generalizing fuel file i len with
  | nil => exact h.elim
  | cons d ds ih =>
    cases fuel with
    | zero => contradiction
    | succ fuel =>
      unfold outLoop
      refine (Queue.descriptor_ends i).bind ?_
      rintro _ rfl
      rw [h.entry_eq]
      split
      · rename_i hnext
        have hloop : ∀ bytes, Ends (do
            let next ← descriptorIndex d.next
            outLoop q g fuel (file.write bytes) next (len + d.len)) fun _ => True := by
          intro bytes
          refine (Queue.descriptorIndex_ends _).bind ?_
          rintro _ rfl
          exact ih (h.rest hnext) (Nat.le_of_succ_le_succ hfuel) _ _
        dsimp only
        split
        · exact hloop _
        · exact (Guest.read_meets outside_ends _).bind fun bytes _ => hloop bytes
      · trivial

theorem inLoop_ends (h : q.declared.Chain g.bytes i ds) (hkept : q.TableKept ds)
    (hfuel : ds.length ≤ fuel) (file : FStream) (len : UInt32) :
    Ends (inLoop q fuel file g i len) fun _ => True := by
  induction ds generalizing fuel file g i len with
  | nil => exact h.elim
  | cons d ds ih =>
    cases fuel with
    | zero => contradiction
    | succ fuel =>
      unfold inLoop
      refine (Queue.descriptor_ends i).bind ?_
      rintro _ rfl
      rw [h.entry_eq]
      split
      · rename_i hnext
        refine (Guest.write_meets outside_ends _).bind fun g' hg' => ?_
        have h' : q.declared.Chain g'.bytes i (d :: ds) := by
          rw [hg']
          exact h.store hkept.head (FStream.length_read_le file _)
        refine (Queue.descriptor_ends i).bind ?_
        rintro _ rfl
        rw [h'.entry_eq]
        refine (Queue.descriptorIndex_ends _).bind ?_
        rintro _ rfl
        exact ih (h'.rest hnext) hkept.tail (Nat.le_of_succ_le_succ hfuel) _ _
      · trivial

end Blk

namespace Net

theorem txLoop_ends (h : q.declared.Chain g.bytes i ds) (hfuel : ds.length ≤ fuel)
    (buffer : List UInt8) (written : UInt32) :
    Ends (txLoop q g fuel buffer i written) fun _ => True := by
  induction ds generalizing fuel buffer i written with
  | nil => exact h.elim
  | cons d ds ih =>
    cases fuel with
    | zero => contradiction
    | succ fuel =>
      unfold txLoop
      refine (Queue.descriptor_ends i).bind ?_
      rintro _ rfl
      rw [h.entry_eq]
      refine (hostRoom_meets nofun _ _ _).bind fun _ _ => ?_
      refine (Guest.read_meets outside_ends _).bind fun bytes _ => ?_
      dsimp only
      split
      · rename_i hnext
        refine (Queue.descriptorIndex_ends _).bind ?_
        rintro _ rfl
        exact ih (h.rest hnext) (Nat.le_of_succ_le_succ hfuel) _ _
      · trivial

theorem rxLoop_ends (h : q.declared.Chain g.bytes i ds) (hkept : q.TableKept ds)
    (hfuel : ds.length ≤ fuel) (buffer : List UInt8) (size : Int) (len : UInt32) :
    Ends (rxLoop q buffer size fuel g i len) fun _ => True := by
  induction ds generalizing fuel g i len with
  | nil => exact h.elim
  | cons d ds ih =>
    cases fuel with
    | zero => contradiction
    | succ fuel =>
      unfold rxLoop
      refine (Queue.descriptor_ends i).bind ?_
      rintro _ rfl
      rw [h.entry_eq]
      dsimp only
      refine (hostRead_meets (nofun) _ _ _).bind fun bytes hbytes => ?_
      refine (Guest.write_meets outside_ends _).bind fun g' hg' => ?_
      have h' : q.declared.Chain g'.bytes i (d :: ds) := by
        rw [hg']
        exact h.store hkept.head (hbytes.trans (min_toNat_le _ _))
      split
      · trivial
      · refine (Queue.descriptor_ends i).bind ?_
        rintro _ rfl
        rw [h'.entry_eq]
        split
        · rename_i hnext
          refine (Queue.descriptorIndex_ends _).bind ?_
          rintro _ rfl
          exact ih (h'.rest hnext) hkept.tail (Nat.le_of_succ_le_succ hfuel) _
        · trivial

end Net

end Loops

/-- Every walk whose links come to an end is over after at most as many
descriptors as the table has. The loops that store into the buffers also need
them to lie off the table. -/
theorem walks_end {q : Queue} {g : Guest} {head : UInt16} {ds : List Descriptor}
    (h : q.declared.Chain g.bytes head ds) (file : FStream) (buffer : List UInt8) (size : Int)
    (len : UInt32) :
    Blk.outLoop q g queueSizeMax.toNat file head len ≠ .error .unfinished ∧
    Net.txLoop q g queueSizeMax.toNat buffer head len ≠ .error .unfinished ∧
    (q.TableKept ds →
      Blk.inLoop q queueSizeMax.toNat file g head len ≠ .error .unfinished ∧
      Net.rxLoop q buffer size queueSizeMax.toNat g head len ≠ .error .unfinished) := by
  have hlen : ds.length ≤ queueSizeMax.toNat := h.length_le
  have hends : ∀ {α : Type} {x : Except Fault α}, Ends x (fun _ => True) →
      x ≠ .error .unfinished := fun hx herror => hx.allowed_of_error herror rfl
  refine ⟨?_, ?_, fun hkept => ⟨?_, ?_⟩⟩
  · exact hends (Blk.outLoop_ends h hlen file len)
  · exact hends (Net.txLoop_ends h hlen buffer len)
  · exact hends (Blk.inLoop_ends h hkept hlen file len)
  · exact hends (Net.rxLoop_ends h hkept hlen buffer size len)

section Linked

def linked (addr : Nat) : Guest :=
  ⟨image [(0x1000, bytesOfNat 8 addr), (0x1008, bytesOfNat 4 4), (0x100c, [1, 0, 1, 0])], 0x4000⟩

def tableQueue : Queue := { size := queueSizeMax, descAddr := 0x1000 }

/-- The walks over two descriptors, the first with its buffer behind the table. -/
theorem linked_walks_end :
    Blk.outLoop tableQueue (linked 0x3000) 512 ⟨[], 0, false⟩ 0 0 ≠ .error .unfinished ∧
    Net.txLoop tableQueue (linked 0x3000) 512 [0, 0, 0, 0] 0 0 ≠ .error .unfinished ∧
    Blk.inLoop tableQueue 512 ⟨[5, 6, 7, 8], 0, false⟩ (linked 0x3000) 0 0 ≠
      .error .unfinished ∧
    Net.rxLoop tableQueue [0, 0, 0, 0] 4 512 (linked 0x3000) 0 0 ≠ .error .unfinished := by
  have hchain : tableQueue.declared.Chain (linked 0x3000).bytes 0
      [⟨0x3000, 4, descFNext, 1⟩, ⟨0, 0, 0, 0⟩] :=
    ⟨by decide, rfl, rfl, by decide, rfl, rfl⟩
  have hkept : tableQueue.TableKept [⟨0x3000, 4, descFNext, 1⟩, ⟨0, 0, 0, 0⟩] := by
    intro span hspan
    rcases List.mem_cons.mp hspan with rfl | hspan
    · exact (Span.apart_of_le (by decide) (by decide)).symm
    · obtain rfl := List.mem_singleton.mp hspan
      exact (Span.apart_of_empty _ _).symm
  obtain ⟨hout, htx, -⟩ := walks_end hchain ⟨[], 0, false⟩ [0, 0, 0, 0] 4 0
  obtain ⟨-, -, hstoring⟩ := walks_end hchain ⟨[5, 6, 7, 8], 0, false⟩ [0, 0, 0, 0] 4 0
  exact ⟨hout, htx, hstoring hkept⟩

/-- Entry 0 of the table has the NEXT flag and every link is 0. -/
def selfLinked : Guest := ⟨image [(0x100c, bytesOfNat 2 descFNext.toNat)], 0x4000⟩

theorem selfLinked_descriptor :
    tableQueue.descriptor selfLinked 0 = .ok ⟨0, 0, descFNext, 0⟩ := rfl

theorem selfLinked_next (i : UInt16) :
    (tableQueue.entry selfLinked.bytes i).next = 0 := by
  have hi := i.toNat_lt
  have haddr : (tableQueue.descEntry i + 14).toNat = 0x1000 + 16 * i.toNat + 14 := by
    change (0x1000 + 16 * i.toUInt64 + 14 : UInt64).toNat = _
    rw [UInt64.toNat_add, UInt64.toNat_add, Queue.descEntry_offset]
    change ((0x1000 + 16 * i.toNat) % 2 ^ 64 + 14) % 2 ^ 64 = _
    omega
  have hapart : Span.Apart ⟨0x100c, 2⟩ ⟨tableQueue.descEntry i + 14, 2⟩ := by
    apply Span.apart_of_le
    · rw [haddr]
      change 0x100c + 2 ≤ _
      omega
    · rw [haddr]
      change _ + 2 ≤ 2 ^ 64
      omega
  have hzero : AgreeOn ⟨tableQueue.descEntry i + 14, 2⟩ selfLinked.bytes fun _ => 0 :=
    ((AgreeOn.refl _ _).store hapart.symm).symm
  exact hzero.load16_eq

/-- A descriptor that links to itself keeps every loop walking: no buffer has a
byte in it, so `update_rx` makes no progress either. -/
theorem selfLinked_never_ends : ∃ q g, (∀ i, (q.entry g.bytes i).next < queueSizeMax.toUInt16) ∧
    ∀ fuel, Blk.outLoop q g fuel ⟨[], 0, false⟩ 0 0 = .error .unfinished ∧
      Net.txLoop q g fuel [] 0 0 = .error .unfinished ∧
      Blk.inLoop q fuel ⟨[], 0, false⟩ g 0 0 = .error .unfinished ∧
      Net.rxLoop q [7] 1 fuel g 0 0 = .error .unfinished := by
  refine ⟨tableQueue, selfLinked, fun i => ?_, fun fuel => ?_⟩
  · rw [selfLinked_next]
    decide
  · induction fuel with
    | zero => exact ⟨rfl, rfl, rfl, rfl⟩
    | succ fuel ih =>
      obtain ⟨hout, htx, hin, hrx⟩ := ih
      refine ⟨?_, ?_, ?_, ?_⟩
      · unfold Blk.outLoop
        rw [selfLinked_descriptor]
        exact hout
      · unfold Net.txLoop
        rw [selfLinked_descriptor]
        exact htx
      · unfold Blk.inLoop
        rw [selfLinked_descriptor]
        exact hin
      · unfold Net.rxLoop
        rw [selfLinked_descriptor]
        exact hrx

/-- The buffer of entry 0 is the flags and the link of entry 1: the chain ends
until the device stores into it. `TableKept` rules this out. -/
theorem overlaid_never_ends : tableQueue.declared.Chain (linked 0x101c).bytes 0
      [⟨0x101c, 4, descFNext, 1⟩, ⟨0, 0, 0, 0⟩] ∧
    ∀ fuel, Blk.inLoop tableQueue fuel ⟨[1, 0, 1, 0], 0, false⟩ (linked 0x101c) 0 0 =
      .error .unfinished := by
  have hstored : ∀ fuel, Blk.inLoop tableQueue fuel ⟨[1, 0, 1, 0], 4, false⟩
      ⟨store (linked 0x101c).bytes 0x101c [1, 0, 1, 0], 0x4000⟩ 1 4 = .error .unfinished := by
    intro fuel
    induction fuel with
    | zero => rfl
    | succ fuel ih => exact ih
  refine ⟨?_, fun fuel => ?_⟩
  · refine ⟨by decide, rfl, rfl, by decide, rfl, rfl⟩
  · cases fuel with
    | zero => rfl
    | succ fuel => exact hstored fuel

end Linked

end Kthxvm.Virtio
