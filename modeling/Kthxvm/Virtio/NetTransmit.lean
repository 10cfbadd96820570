import Kthxvm.Virtio.NetReceive

/-! The frame that `update_tx` hands to the tap. -/
namespace Kthxvm.Virtio

open Lib.ByteMemory Lib.Disk Lib.ScatterGather

namespace Net

variable {q q' : Queue} {g : Guest} {i head : UInt16} {ds : List Descriptor}
  {buffer : List UInt8} {fuel : Nat}

theorem txLoop_gather (hp : q.Placed g) (hchain : q.Chain g.bytes i ds)
    (hheld : ∀ d ∈ ds, g.Holds d.addr d.len.toNat) (hfuel : ds.length ≤ fuel)
    (hbuffer : buffer.length = bufferLen) {written : UInt32}
    (hroom : written.toNat + totalLen (spans ds) ≤ bufferLen) :
    txLoop q g fuel buffer i written =
      .ok (splice buffer written.toNat (gather g.bytes (spans ds)),
        UInt32.ofNat (written.toNat + totalLen (spans ds))) := by
  have hlt : bufferLen < 2 ^ 32 := by decide
  induction ds generalizing fuel buffer i written with
  | nil => exact hchain.elim
  | cons d ds ih =>
    cases fuel with
    | zero => contradiction
    | succ fuel =>
      have hi : i.toNat < q.size.toNat := hchain.1
      have hdesc : q.descriptor g i = .ok d := by
        rw [Queue.descriptor_ok hp hi, hchain.2.1]
      have htotal : totalLen (spans (d :: ds)) = d.len.toNat + totalLen (spans ds) :=
        totalLen_cons d.span (spans ds)
      rw [htotal] at hroom ⊢
      have hload : (load g.bytes d.addr d.len.toNat).length = d.len.toNat := length_load _ _ _
      have hsum : (written + d.len).toNat = written.toNat + d.len.toNat := by
        rw [UInt32.toNat_add, Nat.mod_eq_of_lt (by omega)]
      have hcopy : hostRoom buffer written.toNat d.len.toNat = .ok () :=
        if_pos (Or.inr (by omega))
      rw [txLoop_step hdesc, hcopy, ok_bind, Guest.read_ok (hheld d List.mem_cons_self), ok_bind,
        spans_cons, gather_cons]
      change (if d.hasNext = true then _ else _) =
        Except.ok (splice buffer written.toNat
          (load g.bytes d.addr d.len.toNat ++ gather g.bytes (spans ds)), _)
      cases ds with
      | nil =>
        have hlast : ¬ d.hasNext = true := by
          rw [hchain.2.2]
          exact Bool.false_ne_true
        rw [if_neg hlast, spans_nil, gather_nil, totalLen_nil, List.append_nil, Nat.add_zero,
          ← hsum, UInt32.ofNat_toNat]
      | cons e ds =>
        obtain ⟨-, -, hnext, hrest⟩ := hchain
        have hlen : (splice buffer written.toNat (load g.bytes d.addr d.len.toNat)).length =
            bufferLen := by
          rw [length_splice _ _ (by omega), hbuffer]
        have hloop := ih hrest (fun d' hd' => hheld d' (List.mem_cons_of_mem _ hd'))
          (Nat.le_of_succ_le_succ hfuel) hlen
          (show (written + d.len).toNat + totalLen (spans (e :: ds)) ≤ bufferLen by omega)
        have hboth : written.toNat +
            (load g.bytes d.addr d.len.toNat ++ gather g.bytes (spans (e :: ds))).length ≤
              buffer.length := by
          rw [List.length_append, hload, length_gather]
          omega
        have hsplice := splice_append hboth
        rw [hload] at hsplice
        rw [if_pos hnext, Queue.descriptorIndex_ok hp.size_le hrest.head_lt, ok_bind, hloop, hsum,
          hsplice, Nat.add_assoc]

/-- What the transmit path leaves behind when `::write` has returned `ret`. -/
structure Sent (q : Queue) (g : Guest) (head : UInt16) (ret : Int) (r : Result) : Prop where
  used : r.used = some (head.toUInt32, UInt32.ofInt ret)
  elem : q.usedElem r.guest.bytes (q.usedSlot (load16 g.bytes q.usedIdxAddr)) =
    (head.toUInt32, UInt32.ofInt ret)
  index : load16 r.guest.bytes q.usedIdxAddr = load16 g.bytes q.usedIdxAddr + 1
  frame : ∀ x,
    x ∉ (⟨q.usedIdField (q.usedSlot (load16 g.bytes q.usedIdxAddr)), 8⟩ : Span) →
    x ∉ (⟨q.usedIdxAddr, 2⟩ : Span) → r.guest.bytes x = g.bytes x

/-- The tap is written once, with the buffers of the chain one after another, whatever the
staging buffer held. -/
theorem tx_sends (hp : q.Placed g) (hnext : q.next g = .ok (some head, q'))
    (hchain : q.Chain g.bytes head ds) (hheld : ∀ d ∈ ds, g.Holds d.addr d.len.toNat)
    (hroom : totalLen (spans ds) ≤ bufferLen) (hbuffer : buffer.length = bufferLen)
    (hfuel : ds.length ≤ fuel) (irq : Interrupt) (tapWrite : List UInt8 → Int) :
    ∃ r, updateTx fuel q irq buffer g tapWrite = .ok r ∧
      r.buffer.take (totalLen (spans ds)) = gather g.bytes (spans ds) ∧
      Sent q g head (tapWrite (gather g.bytes (spans ds))) r := by
  obtain ⟨-, hq', havail⟩ := Queue.next_takes hnext
  have hp' := hp.of_next hnext
  have hpos := hp.size_pos
  have hle : q.size.toNat ≤ 512 := hp.size_le
  have hchain' := hchain.of_next hnext
  have hloop := txLoop_gather hp' hchain' hheld hfuel hbuffer
    (show (0 : UInt32).toNat + totalLen (spans ds) ≤ bufferLen by
      rwa [UInt32.toNat_zero, Nat.zero_add])
  rw [UInt32.toNat_zero, Nat.zero_add] at hloop
  have hwritten : (UInt32.ofNat (totalLen (spans ds))).toNat = totalLen (spans ds) := by
    rw [UInt32.toNat_ofNat', Nat.mod_eq_of_lt]
    exact hroom.trans_lt (by decide)
  have hstaged : (splice buffer 0 (gather g.bytes (spans ds))).take (totalLen (spans ds)) =
      gather g.bytes (spans ds) := by
    rw [splice_of_le _ _ (Nat.zero_le _), List.take_zero, List.nil_append, ← length_gather g.bytes,
      List.take_left]
  refine ⟨⟨q', irq.setLevel true, splice buffer 0 (gather g.bytes (spans ds)),
    ⟨q'.afterAddUsed g.bytes head.toUInt32
      (UInt32.ofInt (tapWrite (gather g.bytes (spans ds)))), g.size⟩,
    some (head.toUInt32, UInt32.ofInt (tapWrite (gather g.bytes (spans ds))))⟩, ?_, hstaged, ?_⟩
  · unfold updateTx
    rw [hnext, ok_bind]
    dsimp only
    rw [havail, ok_bind, hloop, ok_bind]
    dsimp only
    rw [hwritten, hstaged, Queue.addUsed_ok hp', ok_bind]
    rfl
  · rw [hq']
    exact ⟨rfl, Queue.usedElem_added hpos hle _ _ _, Queue.afterAddUsed_idx _ _ _ _,
      fun x helem hidx => Queue.afterAddUsed_of_notMem _ _ _ helem hidx⟩

theorem six_bytes_sent : ∃ r,
    updateTx 3 sampleQueue { number := 6 } (List.replicate bufferLen 0x55) threeBuffers
      (fun frame => frame.length) = .ok r ∧
    r.buffer.take 6 = gather threeBuffers.bytes (spans threeDescriptors) ∧
    Sent sampleQueue threeBuffers 0 6 r :=
  tx_sends (sampleQueue_placed (by decide)) threeBuffers_next threeBuffers_chain (by decide)
    (by decide) List.length_replicate (by decide) { number := 6 } _

end Net

end Kthxvm.Virtio
