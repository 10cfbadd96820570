import Kthxvm.Virtio.Blk
import Kthxvm.Virtio.Chain

/-! One round of `blk::run` on a chain that a driver laid out: what the loops
over the data descriptors compute, and that the round ends with `add_used`. -/
namespace Kthxvm.Virtio.Blk

open Lib.ByteMemory Lib.Disk Lib.ScatterGather

/-! The loops without their bounds checks. -/

def ioIn : FStream → Memory → List Descriptor → FStream × Memory
  | file, m, [] => (file, m)
  | file, m, d :: ds =>
    ioIn (file.read d.len.toNat).2 (store m d.addr (file.read d.len.toNat).1) ds

def ioOut (m : Memory) : FStream → List Descriptor → FStream
  | file, [] => file
  | file, d :: ds => ioOut m (file.write (load m d.addr d.len.toNat)) ds

theorem ioIn_agree {span : Span} {ds : List Descriptor}
    (h : ∀ d ∈ ds, span.Apart d.span) (file : FStream) (m : Memory) :
    AgreeOn span m (ioIn file m ds).2 := by
  induction ds generalizing file m with
  | nil => exact AgreeOn.refl _ _
  | cons d ds ih =>
    have hd : span.Apart ⟨d.addr, (file.read d.len.toNat).1.length⟩ :=
      (h d List.mem_cons_self).mono (Span.Within.refl _)
        (Span.within_of_le (FStream.length_read_le _ _))
    exact ((AgreeOn.refl _ _).store hd).trans
      (ih (fun d' hd' => h d' (List.mem_cons_of_mem _ hd')) _ _)

section Loops

variable {q : Queue} {g : Guest} {i : UInt16} {data : List Descriptor} {st : Descriptor}

theorem inLoop_ok (hp : q.Placed g) (hchain : q.Chain g.bytes i (data ++ [st]))
    (hheld : ∀ d ∈ data, g.Holds d.addr d.len.toNat)
    (hentries : ∀ d ∈ data, ∀ j ∈ Queue.chainIndices i (data ++ [st]),
      Span.Apart ⟨q.descEntry j, 16⟩ d.span) {fuel : Nat}
    (hfuel : data.length < fuel) (file : FStream) (len : UInt32) :
    ∃ j ∈ Queue.chainIndices i (data ++ [st]),
      inLoop q fuel file g i len = .ok ((ioIn file g.bytes data).1,
        ⟨(ioIn file g.bytes data).2, g.size⟩, j, len + len32 data) ∧
      q.entry g.bytes j = st := by
  induction data generalizing g i fuel file len with
  | nil =>
    obtain ⟨fuel, rfl⟩ : ∃ n, fuel = n + 1 := ⟨fuel - 1, by omega⟩
    obtain ⟨hi, hentry, hlast⟩ := hchain
    refine ⟨i, List.mem_cons_self, ?_, hentry⟩
    unfold inLoop
    rw [Queue.descriptor_ok hp hi, hentry]
    simp only [bind, Except.bind, hlast]
    simp [ioIn]
  | cons d data ih =>
    obtain ⟨fuel, rfl⟩ : ∃ n, fuel = n + 1 := ⟨fuel - 1, by omega⟩
    obtain ⟨hi, hentry, hnext, hrest⟩ := Queue.chain_append.mp hchain
    have hshort := FStream.length_read_le file d.len.toNat
    have hwrite := Guest.write_ok ((hheld d List.mem_cons_self).mono hshort)
    -- the buffer leaves the entries of the chain as they were
    have hkept : ∀ j ∈ Queue.chainIndices i (d :: (data ++ [st])),
        q.entry (store g.bytes d.addr (file.read d.len.toNat).1) j = q.entry g.bytes j := by
      intro j hj
      have hagree : AgreeOn ⟨q.descEntry j, 16⟩ g.bytes
          (store g.bytes d.addr (file.read d.len.toNat).1) :=
        (AgreeOn.refl _ _).store ((hentries d List.mem_cons_self j hj).mono (Span.Within.refl _)
          (Span.within_of_le hshort))
      exact (Queue.entry_of_agree hagree).symm
    have hp' : q.Placed ⟨store g.bytes d.addr (file.read d.len.toNat).1, g.size⟩ :=
      hp.congr rfl rfl rfl rfl rfl
    have hentry' := (hkept i List.mem_cons_self).trans hentry
    have hrest' := hrest.of_entries fun j hj => hkept j (List.mem_cons_of_mem i hj)
    obtain ⟨j, hj, hloop, hst⟩ := ih hp' hrest'
      (fun d' hd' => hheld d' (List.mem_cons_of_mem _ hd'))
      (fun d' hd' j hj => hentries d' (List.mem_cons_of_mem _ hd') j (List.mem_cons_of_mem i hj))
      (Nat.lt_of_succ_lt_succ hfuel) (file.read d.len.toNat).2 (len + d.len)
    have hj' := List.mem_cons_of_mem i hj
    refine ⟨j, hj', ?_, (hkept j hj').symm.trans hst⟩
    unfold inLoop
    rw [Queue.descriptor_ok hp hi, hentry]
    simp only [bind, Except.bind, hnext, if_true, hwrite]
    rw [Queue.descriptor_ok hp' hi, hentry']
    simp only
    rw [Queue.descriptorIndex_ok hp.size_le hrest.head_lt]
    simp only [hloop]
    rw [ioIn, len32_cons, UInt32.add_assoc]

theorem outLoop_ok (hp : q.Placed g) (hchain : q.Chain g.bytes i (data ++ [st]))
    (hheld : ∀ d ∈ data, g.Holds d.addr d.len.toNat) {fuel : Nat}
    (hfuel : data.length < fuel) (file : FStream) (len : UInt32) :
    ∃ j, outLoop q g fuel file i len =
        .ok (ioOut g.bytes file data, j, len + len32 data) ∧
      j.toNat < q.size.toNat ∧ q.entry g.bytes j = st := by
  induction data generalizing i fuel file len with
  | nil =>
    obtain ⟨fuel, rfl⟩ : ∃ n, fuel = n + 1 := ⟨fuel - 1, by omega⟩
    obtain ⟨hi, hentry, hlast⟩ := hchain
    refine ⟨i, ?_, hi, hentry⟩
    unfold outLoop
    rw [Queue.descriptor_ok hp hi, hentry]
    simp only [bind, Except.bind, hlast]
    simp [ioOut]
  | cons d data ih =>
    obtain ⟨fuel, rfl⟩ : ∃ n, fuel = n + 1 := ⟨fuel - 1, by omega⟩
    obtain ⟨hi, hentry, hnext, hrest⟩ := Queue.chain_append.mp hchain
    have hread := Guest.read_ok (hheld d List.mem_cons_self)
    obtain ⟨j, hloop, hj, hst⟩ := ih hrest
      (fun d' hd' => hheld d' (List.mem_cons_of_mem _ hd'))
      (Nat.lt_of_succ_lt_succ hfuel) (file.write (load g.bytes d.addr d.len.toNat))
      (len + d.len)
    refine ⟨j, ?_, hj, hst⟩
    unfold outLoop
    rw [Queue.descriptor_ok hp hi, hentry]
    simp only [bind, Except.bind, hnext, if_true]
    rw [ioOut, len32_cons, ← UInt32.add_assoc]
    cases hfail : file.fail
    · simp only [Bool.false_eq_true, if_false, hread]
      rw [Queue.descriptorIndex_ok hp.size_le hrest.head_lt]
      exact hloop
    · simp only [if_true]
      rw [Queue.descriptorIndex_ok hp.size_le hrest.head_lt]
      simp only [FStream.write_of_fail hfail] at hloop ⊢
      exact hloop

end Loops

structure Request where
  head : UInt16
  hdr : Descriptor
  data : List Descriptor
  st : Descriptor

namespace Request

def type (r : Request) (m : Memory) : UInt32 := load32 m r.hdr.addr
def sector (r : Request) (m : Memory) : UInt64 := load64 m (r.hdr.addr + 8)

def chain (r : Request) : List Descriptor := r.hdr :: (r.data ++ [r.st])

/-- The chain is in the table and its buffers are in guest memory; what is stored while it is
walked leaves its entries alone. A write request stores nothing then. -/
structure Laid (r : Request) (q : Queue) (g : Guest) : Prop where
  chain : q.Chain g.bytes r.head (r.hdr :: (r.data ++ [r.st]))
  hdr_held : g.Holds r.hdr.addr 16
  data_held : ∀ d ∈ r.data, g.Holds d.addr d.len.toNat
  data_entries : r.type g.bytes ≠ blkTOut → ∀ d ∈ r.data,
    ∀ i ∈ Queue.chainIndices r.head r.chain, Span.Apart ⟨q.descEntry i, 16⟩ d.span
  st_held : g.Holds r.st.addr 1

/-- The requests for which the switch has a case; `GET_ID` looks at exactly one
data descriptor and copies no more than the identifier. -/
def Handled (r : Request) (m : Memory) : Prop :=
  r.type m = blkTIn ∨ r.type m = blkTOut ∨
    (r.type m = blkTGetId ∧ ∃ d, r.data = [d] ∧ d.len.toNat ≤ diskId.length)

/-- Stream and memory when the status byte is about to be stored. -/
def effect (r : Request) (file : FStream) (m : Memory) : FStream × Memory :=
  if r.type m = blkTIn then ioIn (file.seek (r.sector m * 512)) m r.data
  else if r.type m = blkTOut then (ioOut m (file.seek (r.sector m * 512)) r.data, m)
  else match r.data with
    | [d] => (file, store m d.addr (diskId.take d.len.toNat))
    | _ => (file, m)

end Request

section Handle

variable {q : Queue} {g : Guest} {r : Request}

theorem header_ok (hp : q.Placed g) (hr : r.Laid q g) :
    q.descriptor g r.head = .ok r.hdr ∧
      g.read32 r.hdr.addr = .ok (r.type g.bytes) ∧
      g.read64 (r.hdr.addr + 8) = .ok (r.sector g.bytes) := by
  obtain ⟨hi, hentry, -⟩ := Queue.chain_append.mp hr.chain
  refine ⟨?_, ?_, ?_⟩
  · rw [Queue.descriptor_ok hp hi, hentry]
  · exact Guest.read32_ok (hr.hdr_held.mono (by norm_num))
  · exact Guest.read64_ok (hr.hdr_held.field (by simp only [UInt64.reduceToNat]; norm_num))

theorem follow_ok {i : UInt16} {d : Descriptor} (hp : q.Placed g)
    (hi : i.toNat < q.size.toNat) (hentry : q.entry g.bytes i = d)
    (hnext : d.next.toNat < q.size.toNat) : follow q g i = .ok d.next := by
  unfold follow
  rw [Queue.descriptor_ok hp hi, hentry]
  exact Queue.descriptorIndex_ok hp.size_le hnext

theorem putStatus_ok {i : UInt16} {d : Descriptor} (hp : q.Placed g)
    (hi : i.toNat < q.size.toNat) (hentry : q.entry g.bytes i = d)
    (hheld : g.Holds d.addr 1) :
    putStatus q g i = .ok ⟨store g.bytes d.addr [blkSOk], g.size⟩ := by
  unfold putStatus
  rw [Queue.descriptor_ok hp hi, hentry]
  exact Guest.write_ok hheld

theorem handle_in (hp : q.Placed g) (hr : r.Laid q g) (htype : r.type g.bytes = blkTIn)
    {fuel : Nat} (hfuel : r.data.length < fuel) (file : FStream) :
    handle fuel q file g r.head = .ok (some ((r.effect file g.bytes).1,
      ⟨store (r.effect file g.bytes).2 r.st.addr [blkSOk], g.size⟩,
      len32 r.data + 1)) := by
  obtain ⟨hdesc, hread, hsector⟩ := header_ok hp hr
  obtain ⟨hi, hentry, -, hrest⟩ := Queue.chain_append.mp hr.chain
  have heffect : r.effect file g.bytes =
      ioIn (file.seek (r.sector g.bytes * 512)) g.bytes r.data := if_pos htype
  have hentries : ∀ d ∈ r.data, ∀ j ∈ Queue.chainIndices r.hdr.next (r.data ++ [r.st]),
      Span.Apart ⟨q.descEntry j, 16⟩ d.span := fun d hd j hj =>
    hr.data_entries (by rw [htype]; decide) d hd j (List.mem_cons_of_mem r.head hj)
  obtain ⟨j, hj, hloop, hst⟩ := inLoop_ok hp hrest hr.data_held hentries hfuel
    (file.seek (r.sector g.bytes * 512)) 0
  have hagree := ioIn_agree (fun d hd => hentries d hd j hj)
    (file.seek (r.sector g.bytes * 512)) g.bytes
  have hstatus := putStatus_ok
    (g := ⟨(ioIn (file.seek (r.sector g.bytes * 512)) g.bytes r.data).2, g.size⟩)
    (hp.congr rfl rfl rfl rfl rfl) (hrest.index_lt j hj)
    ((Queue.entry_of_agree hagree).symm.trans hst) hr.st_held
  rw [heffect]
  unfold handle
  simp only [hdesc, hread, bind, Except.bind, pure, Except.pure]
  rw [if_pos htype, follow_ok hp hi hentry hrest.head_lt]
  simp only [hsector]
  rw [hloop]
  simp only [hstatus, UInt32.zero_add]

theorem handle_out (hp : q.Placed g) (hr : r.Laid q g) (htype : r.type g.bytes = blkTOut)
    {fuel : Nat} (hfuel : r.data.length < fuel) (file : FStream) :
    handle fuel q file g r.head = .ok (some ((r.effect file g.bytes).1,
      ⟨store (r.effect file g.bytes).2 r.st.addr [blkSOk], g.size⟩,
      len32 r.data + 1)) := by
  obtain ⟨hdesc, hread, hsector⟩ := header_ok hp hr
  obtain ⟨hi, hentry, -, hrest⟩ := Queue.chain_append.mp hr.chain
  have hnot : ¬ r.type g.bytes = blkTIn := by
    rw [htype]
    decide
  have heffect : r.effect file g.bytes =
      (ioOut g.bytes (file.seek (r.sector g.bytes * 512)) r.data, g.bytes) := by
    rw [Request.effect, if_neg hnot, if_pos htype]
  obtain ⟨j, hloop, hj, hst⟩ := outLoop_ok hp hrest hr.data_held hfuel
    (file.seek (r.sector g.bytes * 512)) 0
  have hstatus := putStatus_ok hp hj hst hr.st_held
  rw [heffect]
  unfold handle
  simp only [hdesc, hread, bind, Except.bind, pure, Except.pure]
  rw [if_neg hnot, if_pos htype, follow_ok hp hi hentry hrest.head_lt]
  simp only [hsector]
  rw [hloop]
  simp only [hstatus, UInt32.zero_add]

theorem handle_getId (hp : q.Placed g) (hr : r.Laid q g)
    (htype : r.type g.bytes = blkTGetId) {d : Descriptor} (hdata : r.data = [d])
    (hlen : d.len.toNat ≤ diskId.length) (fuel : Nat) (file : FStream) :
    handle fuel q file g r.head = .ok (some ((r.effect file g.bytes).1,
      ⟨store (r.effect file g.bytes).2 r.st.addr [blkSOk], g.size⟩,
      len32 r.data + 1)) := by
  obtain ⟨hdesc, hread, -⟩ := header_ok hp hr
  obtain ⟨hi, hentry, -, hrest⟩ := Queue.chain_append.mp hr.chain
  rw [hdata] at hrest
  obtain ⟨hk, hentryd, -, hj, hentryst, -⟩ := Queue.chain_append.mp hrest
  have hin : ¬ r.type g.bytes = blkTIn := by
    rw [htype]
    decide
  have hout : ¬ r.type g.bytes = blkTOut := by
    rw [htype]
    decide
  have heffect : r.effect file g.bytes =
      (file, store g.bytes d.addr (diskId.take d.len.toNat)) := by
    rw [Request.effect, if_neg hin, if_neg hout, hdata]
  have hmem : d ∈ r.data := by simp [hdata]
  have htake : (diskId.take d.len.toNat).length = d.len.toNat := by
    rw [List.length_take]
    omega
  have hwrite : g.write d.addr (diskId.take d.len.toNat) =
      .ok { g with bytes := store g.bytes d.addr (diskId.take d.len.toNat) } := by
    apply Guest.write_ok
    rw [htake]
    exact hr.data_held d hmem
  have hkept : ∀ i ∈ Queue.chainIndices r.hdr.next [d, r.st],
      q.entry (store g.bytes d.addr (diskId.take d.len.toNat)) i = q.entry g.bytes i := by
    intro i hi
    have hindex : i ∈ Queue.chainIndices r.head r.chain := by
      unfold Request.chain
      rw [hdata]
      exact List.mem_cons_of_mem r.head hi
    have hagree : AgreeOn ⟨q.descEntry i, 16⟩ g.bytes
        (store g.bytes d.addr (diskId.take d.len.toNat)) := by
      apply (AgreeOn.refl _ _).store
      rw [htake]
      exact hr.data_entries hout d hmem i hindex
    exact (Queue.entry_of_agree hagree).symm
  have hp' : q.Placed ⟨store g.bytes d.addr (diskId.take d.len.toNat), g.size⟩ :=
    hp.congr rfl rfl rfl rfl rfl
  have hentryd' := (hkept _ List.mem_cons_self).trans hentryd
  have hentryst' := (hkept _ (List.mem_cons_of_mem _ List.mem_cons_self)).trans hentryst
  have hstatus := putStatus_ok hp' hj hentryst' hr.st_held
  rw [heffect, hdata]
  unfold handle
  simp only [hdesc, hread, bind, Except.bind, pure, Except.pure]
  rw [if_neg hin, if_neg hout, if_pos htype, follow_ok hp hi hentry hrest.head_lt]
  simp only
  rw [Queue.descriptor_ok hp hk, hentryd]
  simp only [if_pos hlen, hwrite]
  rw [Queue.descriptor_ok hp' hk, hentryd', follow_ok hp' hk hentryd' hj]
  simp only [hstatus]
  simp

theorem handle_ok (hp : q.Placed g) (hr : r.Laid q g) (hh : r.Handled g.bytes)
    {fuel : Nat} (hfuel : queueSizeMax.toNat ≤ fuel) (file : FStream) :
    handle fuel q file g r.head = .ok (some ((r.effect file g.bytes).1,
      ⟨store (r.effect file g.bytes).2 r.st.addr [blkSOk], g.size⟩,
      len32 r.data + 1)) := by
  have hlong := hr.chain.length_le
  have hsize := hp.size_le
  simp only [List.length_cons, List.length_append] at hlong
  have hdata : r.data.length < fuel := by omega
  rcases hh with hin | hout | ⟨hid, d, hd, hlen⟩
  · exact handle_in hp hr hin hdata file
  · exact handle_out hp hr hout hdata file
  · exact handle_getId hp hr hid hd hlen fuel file

theorem handle_default {i : UInt16} {d : Descriptor} (hp : q.Placed g)
    (hi : i.toNat < q.size.toNat) (hentry : q.entry g.bytes i = d)
    (hheld : g.Holds d.addr 4)
    (htype : load32 g.bytes d.addr ≠ blkTIn ∧ load32 g.bytes d.addr ≠ blkTOut ∧
      load32 g.bytes d.addr ≠ blkTGetId) (fuel : Nat) (file : FStream) :
    handle fuel q file g i = .ok none := by
  unfold handle
  rw [Queue.descriptor_ok hp hi, hentry]
  simp only [bind, Except.bind]
  rw [Guest.read32_ok hheld]
  simp only
  rw [if_neg htype.1, if_neg htype.2.1, if_neg htype.2.2]
  rfl

end Handle

section Round

variable {fuel : Nat} {b : Blk} {g : Guest} {q : Queue}

def Takes (b : Blk) (g : Guest) (head : UInt16) (q : Queue) : Prop :=
  ∃ q₀, b.dev.selected = .ok q₀ ∧ q₀.next g = .ok (some head, q)

theorem Takes.availId {b : Blk} {g : Guest} {head : UInt16} {q : Queue}
    (h : Takes b g head q) : q.availId g = .ok head := by
  obtain ⟨q₀, -, hnext⟩ := h
  exact (Queue.next_takes hnext).2.2

theorem Takes.unique {b : Blk} {g : Guest} {head head' : UInt16} {q q' : Queue}
    (h : Takes b g head q) (h' : Takes b g head' q') : head = head' ∧ q = q' := by
  obtain ⟨q₀, hsel, hnext⟩ := h
  obtain ⟨q₀', hsel', hnext'⟩ := h'
  rw [hsel] at hsel'
  cases hsel'
  rw [hnext] at hnext'
  cases hnext'
  exact ⟨rfl, rfl⟩

def answer (b : Blk) (q : Queue) (file : FStream) (raised : Bool) : Blk where
  dev := { b.dev.setQ b.dev.queueIndex q with
    irq := if raised then b.dev.irq.setLevel true else b.dev.irq }
  file := file

/-- Everything a round that ends well can have done. -/
theorem runOnce_cases {o : Outcome} {b' : Blk} {g' : Guest}
    (h : runOnce fuel b g = .ok (o, b', g')) :
    (o = .idle ∧ g' = g ∧ ∃ q₀ q, b.dev.selected = .ok q₀ ∧ q₀.next g = .ok (none, q) ∧
      b' = { b with dev := b.dev.setQ b.dev.queueIndex q }) ∨
    (∃ head q, Takes b g head q ∧ handle fuel q b.file g head = .ok none ∧
      o = .dropped head ∧ g' = g ∧ b' = { b with dev := b.dev.setQ b.dev.queueIndex q }) ∨
    (∃ head q id file g₁ len idx event, Takes b g head q ∧ q.availId g = .ok id ∧
      handle fuel q b.file g head = .ok (some (file, g₁, len)) ∧
      q.addUsed g₁ id.toUInt32 len = .ok (idx, g') ∧
      g'.read16 q.usedEventAddr = .ok event ∧
      o = .answered head id.toUInt32 len idx (notifies idx event) ∧
      b' = answer b q file (notifies idx event)) := by
  unfold runOnce at h
  obtain ⟨q₀, hsel, h⟩ := bind_eq_ok.mp h
  obtain ⟨⟨taken, q⟩, hnext, h⟩ := bind_eq_ok.mp h
  cases taken with
  | none =>
    cases h
    exact Or.inl ⟨rfl, rfl, q₀, q, hsel, hnext, rfl⟩
  | some head =>
    obtain ⟨id, hid, h⟩ := bind_eq_ok.mp h
    obtain ⟨handled, hhandle, h⟩ := bind_eq_ok.mp h
    cases handled with
    | none =>
      cases h
      exact Or.inr (Or.inl ⟨head, q, ⟨q₀, hsel, hnext⟩, hhandle, rfl, rfl, rfl⟩)
    | some result =>
      obtain ⟨file, g₁, len⟩ := result
      obtain ⟨⟨idx, g₂⟩, hused, h⟩ := bind_eq_ok.mp h
      obtain ⟨event, hevent, h⟩ := bind_eq_ok.mp h
      cases h
      refine Or.inr (Or.inr ⟨head, q, id, file, g₁, len, idx, event, ⟨q₀, hsel, hnext⟩, hid,
        hhandle, hused, hevent, rfl, ?_⟩)
      simp only [answer, Device.setQ_irq]

theorem runOnce_answered {head id : UInt16} {file : FStream} {g₁ : Guest} {len : UInt32}
    (htakes : Takes b g head q) (hid : q.availId g = .ok id)
    (hhandle : handle fuel q b.file g head = .ok (some (file, g₁, len)))
    (hp : q.Placed g₁) (hheld : g₁.Holds q.usedEventAddr 2) :
    ∃ raised, runOnce fuel b g =
      .ok (.answered head id.toUInt32 len (load16 g₁.bytes q.usedIdxAddr + 1) raised,
        answer b q file raised,
        ⟨q.afterAddUsed g₁.bytes id.toUInt32 len, g₁.size⟩) ∧
      raised = notifies (load16 g₁.bytes q.usedIdxAddr + 1)
        (load16 (q.afterAddUsed g₁.bytes id.toUInt32 len) q.usedEventAddr) := by
  obtain ⟨q₀, hsel, hnext⟩ := htakes
  have hevent : (⟨q.afterAddUsed g₁.bytes id.toUInt32 len, g₁.size⟩ : Guest).read16
      q.usedEventAddr =
        .ok (load16 (q.afterAddUsed g₁.bytes id.toUInt32 len) q.usedEventAddr) :=
    Guest.read16_ok hheld
  refine ⟨_, ?_, rfl⟩
  unfold runOnce
  simp only [hsel, bind, Except.bind, hnext, hid, hhandle, pure, Except.pure]
  rw [Queue.addUsed_ok hp]
  simp only [hevent, answer, Device.setQ_irq]

theorem runOnce_dropped {head id : UInt16} (htakes : Takes b g head q)
    (hid : q.availId g = .ok id) (hhandle : handle fuel q b.file g head = .ok none) :
    runOnce fuel b g =
      .ok (.dropped head, { b with dev := b.dev.setQ b.dev.queueIndex q }, g) := by
  obtain ⟨q₀, hsel, hnext⟩ := htakes
  unfold runOnce
  simp only [hsel, bind, Except.bind, hnext, hid, hhandle, pure, Except.pure]

end Round

end Kthxvm.Virtio.Blk
