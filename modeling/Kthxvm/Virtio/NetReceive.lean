import Kthxvm.Virtio.Staging
import Kthxvm.Virtio.UsedRing

/-! What `update_rx` makes of a packet and of a failed read of the tap. -/
namespace Kthxvm.Virtio

open Lib.ByteMemory Lib.Disk Lib.ScatterGather

namespace Net

/-- The descriptors that a packet of `n` bytes reaches; it ends in the last of them. -/
def reached (n : Nat) : List Descriptor → List Descriptor
  | [] => []
  | d :: ds => if n ≤ d.len.toNat then [d] else d :: reached (n - d.len.toNat) ds

section Scatter

variable {q : Queue} {g : Guest} {i : UInt16} {ds : List Descriptor} {bytes rest : List UInt8}
  {len : UInt32}

theorem hostRead_packet (hbytes : bytes.length ≤ bufferLen) (hlen : len.toNat ≤ bytes.length)
    (d : Descriptor) :
    hostRead (bytes ++ rest) len.toNat (writeLen bytes.length len d).toNat =
      .ok ((bytes.drop len.toNat).take d.len.toNat) := by
  have hwrite := writeLen_toNat hbytes hlen d
  have hin : hostRead bytes len.toNat (writeLen bytes.length len d).toNat =
      .ok (slice bytes len.toNat (writeLen bytes.length len d).toNat) := if_pos (by omega)
  have hne : hostRead bytes len.toNat (writeLen bytes.length len d).toNat ≠
      .error .hostBuffer := by
    rw [hin]
    exact nofun
  rw [hostRead_append hne, hin, hwrite]
  unfold slice
  rw [← List.length_drop, ← List.take_take, List.take_of_length_le (List.length_take_le' _ _)]

theorem copied_toNat (hbytes : bytes.length ≤ bufferLen) (hlen : len.toNat ≤ bytes.length)
    (d : Descriptor) : (len + writeLen bytes.length len d).toNat =
      len.toNat + min (bytes.length - len.toNat) d.len.toNat := by
  rw [UInt32.toNat_add, writeLen_toNat hbytes hlen, Nat.mod_eq_of_lt]
  have hlt : bufferLen < 2 ^ 32 := by decide
  omega

def laid (g : Guest) (ds : List Descriptor) (bytes : List UInt8) (len : UInt32) :
    Guest × UInt32 :=
  (⟨scatter g.bytes (spans ds) (bytes.drop len.toNat), g.size⟩,
    UInt32.ofNat (len.toNat + min (bytes.length - len.toNat) (totalLen (spans ds))))

theorem laid_nil (g : Guest) (bytes : List UInt8) (len : UInt32) :
    laid g [] bytes len = (g, len) := by
  unfold laid
  rw [spans_nil, totalLen_nil, Nat.min_zero, Nat.add_zero, UInt32.ofNat_toNat]
  rfl

theorem laid_done (g : Guest) (ds : List Descriptor) (h : len.toNat = bytes.length) :
    laid g ds bytes len = (g, len) := by
  unfold laid
  rw [h, List.drop_length, scatter_done, Nat.sub_self, Nat.zero_min, Nat.add_zero, ← h,
    UInt32.ofNat_toNat]

theorem laid_cons (hbytes : bytes.length ≤ bufferLen) (hlen : len.toNat ≤ bytes.length)
    (g : Guest) (d : Descriptor) (ds : List Descriptor) :
    laid g (d :: ds) bytes len =
      laid ⟨store g.bytes d.addr ((bytes.drop len.toNat).take d.len.toNat), g.size⟩ ds bytes
        (len + writeLen bytes.length len d) := by
  have hcopied := copied_toNat hbytes hlen d
  have hdrop : (bytes.drop len.toNat).drop d.len.toNat =
      bytes.drop (len + writeLen bytes.length len d).toNat := by
    rw [List.drop_drop, hcopied]
    rcases Nat.le_total (bytes.length - len.toNat) d.len.toNat with hle | hle
    · rw [min_eq_left hle, List.drop_eq_nil_of_le (by omega), List.drop_eq_nil_of_le (by omega)]
    · rw [min_eq_right hle]
  have hsum : len.toNat + min (bytes.length - len.toNat) (totalLen (spans (d :: ds))) =
      (len + writeLen bytes.length len d).toNat +
        min (bytes.length - (len + writeLen bytes.length len d).toNat) (totalLen (spans ds)) := by
    have htotal : totalLen (spans (d :: ds)) = d.len.toNat + totalLen (spans ds) :=
      totalLen_cons d.span (spans ds)
    omega
  unfold laid
  rw [hsum, ← hdrop, spans_cons, scatter]
  rfl

theorem reached_ne_nil {n : Nat} {ds : List Descriptor} (h : ds ≠ []) : reached n ds ≠ [] := by
  cases ds with
  | nil => exact absurd rfl h
  | cons d ds =>
    unfold reached
    split <;> exact List.cons_ne_nil _ _

/-- The loop lays the rest of the packet over the chain, with one iteration for each
descriptor that the packet reaches. -/
theorem rxLoop_scatter (hbytes : bytes.length ≤ bufferLen) (hp : q.Placed g)
    (hchain : q.Chain g.bytes i ds) (hheld : ∀ d ∈ ds, g.Holds d.addr d.len.toNat)
    (htable : ∀ d ∈ ds, q.tableSpan.Apart d.span) (hlen : len.toNat ≤ bytes.length)
    (rest : List UInt8) (fuel : Nat) :
    rxLoop q (bytes ++ rest) bytes.length fuel g i len =
      if (reached (bytes.length - len.toNat) ds).length ≤ fuel then .ok (laid g ds bytes len)
      else .error .unfinished := by
  induction ds generalizing fuel g i len with
  | nil => exact hchain.elim
  | cons d ds ih =>
    cases fuel with
    | zero =>
      have hpos := List.length_pos_of_ne_nil (reached_ne_nil (n := bytes.length - len.toNat)
        (List.cons_ne_nil d ds))
      rw [if_neg (by omega)]
      rfl
    | succ fuel =>
      have hi : i.toNat < q.size.toNat := hchain.1
      have hentry : q.entry g.bytes i = d := hchain.2.1
      have hshort : ((bytes.drop len.toNat).take d.len.toNat).length ≤ d.len.toNat :=
        List.length_take_le _ _
      have hwrite := Guest.write_ok ((hheld d List.mem_cons_self).mono hshort)
      rw [rxLoop_succ, Queue.descriptor_ok hp hi, hentry, ok_bind, hostRead_packet hbytes hlen,
        ok_bind, hwrite, ok_bind, laid_cons hbytes hlen]
      -- the buffer leaves the descriptor table as it was
      have hagree : AgreeOn q.tableSpan g.bytes
          (store g.bytes d.addr ((bytes.drop len.toNat).take d.len.toNat)) :=
        (AgreeOn.refl _ _).store ((htable d List.mem_cons_self).mono (Span.Within.refl _)
          (Span.within_of_le hshort))
      have hentry' := (Queue.entry_congr hi hagree).symm.trans hentry
      have hcopied := copied_toNat hbytes hlen d
      generalize hm : store g.bytes d.addr ((bytes.drop len.toNat).take d.len.toNat) = m
        at hagree hentry'
      have hp' : q.Placed ⟨m, g.size⟩ := hp.congr rfl rfl rfl rfl rfl
      change rxNext q (bytes ++ rest) bytes.length fuel i _ ⟨m, g.size⟩ = _
      generalize len + writeLen bytes.length len d = copied at hcopied
      unfold rxNext reached
      by_cases hends : bytes.length - len.toNat ≤ d.len.toNat
      · have hsize : copied.toNat = bytes.length := by omega
        have hone : [d].length ≤ fuel + 1 := Nat.le_add_left 1 fuel
        rw [if_pos (congrArg Nat.cast hsize), if_pos hends, if_pos hone, laid_done _ _ hsize]
      · have hsize : ¬ (copied.toNat : Int) = bytes.length := by omega
        have hrest : bytes.length - len.toNat - d.len.toNat = bytes.length - copied.toNat := by
          omega
        rw [if_neg hsize, if_neg hends, Queue.descriptor_ok hp' hi, hentry', ok_bind, hrest]
        cases ds with
        | nil =>
          have hlast : ¬ d.hasNext = true := by
            rw [hchain.2.2]
            exact Bool.false_ne_true
          have hone : (d :: reached (bytes.length - copied.toNat) []).length ≤ fuel + 1 :=
            Nat.le_add_left 1 fuel
          rw [if_neg hlast, if_pos hone, laid_nil]
        | cons e ds =>
          obtain ⟨-, -, hnext, hrests⟩ := hchain
          have hloop := ih hp' (hrests.congr hagree)
            (fun d' hd' => hheld d' (List.mem_cons_of_mem _ hd'))
            (fun d' hd' => htable d' (List.mem_cons_of_mem _ hd'))
            (show copied.toNat ≤ bytes.length by omega) fuel
          rw [if_pos hnext, Queue.descriptorIndex_ok hp.size_le hrests.head_lt, ok_bind, hloop]
          simp only [List.length_cons, Nat.add_le_add_iff_right]

end Scatter

section Packet

variable {q q' : Queue} {g : Guest} {head : UInt16} {ds : List Descriptor}
  {packet : List UInt8}

def afterPacket (q : Queue) (g : Guest) (head : UInt16) (ds : List Descriptor)
    (packet : List UInt8) : Guest :=
  ⟨q.afterAddUsed (scatter g.bytes (spans ds) packet) head.toUInt32
    (UInt32.ofNat (min packet.length (totalLen (spans ds)))), g.size⟩

theorem updateRx_packet (hp : q.Placed g) (hnext : q.next g = .ok (some head, q'))
    (hchain : q.Chain g.bytes head ds) (hheld : ∀ d ∈ ds, g.Holds d.addr d.len.toNat)
    (htable : ∀ d ∈ ds, q.tableSpan.Apart d.span) (hpacket : packet.length ≤ bufferLen)
    (fuel : Nat) (irq : Interrupt) (buffer : List UInt8) :
    updateRx fuel q irq buffer g true (some packet) =
      if (reached packet.length ds).length ≤ fuel then
        .ok ⟨q', irq.setLevel true, packet ++ buffer.drop packet.length,
          afterPacket q g head ds packet,
          some (head.toUInt32, UInt32.ofNat (min packet.length (totalLen (spans ds))))⟩
      else .error .unfinished := by
  obtain ⟨-, hq', havail⟩ := Queue.next_takes hnext
  have hp' := hp.of_next hnext
  have hchain' := hchain.of_next hnext
  have htable' : ∀ d ∈ ds, q'.tableSpan.Apart d.span := by
    rw [hq']
    exact htable
  have hloop := rxLoop_scatter hpacket hp' hchain' hheld htable'
    (show (0 : UInt32).toNat ≤ packet.length from Nat.zero_le _) (buffer.drop packet.length) fuel
  rw [UInt32.toNat_zero, Nat.sub_zero] at hloop
  unfold updateRx
  rw [hnext, ok_bind]
  dsimp only
  rw [if_neg (by decide), havail, ok_bind]
  change (rxLoop q' (packet ++ buffer.drop packet.length) packet.length fuel g head 0 >>= _) = _
  rw [hloop]
  split
  · have hadd : ∀ m, (⟨m, g.size⟩ : Guest).Holds q'.usedAddr (4 + 8 * q'.size.toNat) :=
      fun _ => hp'.used
    unfold laid
    rw [UInt32.toNat_zero, Nat.sub_zero, Nat.zero_add, List.drop_zero, ok_bind]
    dsimp only
    rw [Queue.addUsed_of_held hp'.size_pos hp'.size_le (hadd _), ok_bind, hq']
    rfl
  · rfl

/-- The packet is in the buffers and one used element tells how much of it, and nothing
else has changed. -/
structure Delivered (q : Queue) (g : Guest) (head : UInt16) (ds : List Descriptor)
    (packet : List UInt8) (g' : Guest) (len : UInt32) : Prop where
  amount : len.toNat = min packet.length (totalLen (spans ds))
  buffers : gather g'.bytes (spans ds) =
    packet.take len.toNat ++ (gather g.bytes (spans ds)).drop len.toNat
  elem : q.usedElem g'.bytes (q.usedSlot (load16 g.bytes q.usedIdxAddr)) = (head.toUInt32, len)
  index : load16 g'.bytes q.usedIdxAddr = load16 g.bytes q.usedIdxAddr + 1
  frame : ∀ x, (∀ d ∈ ds, x ∉ d.span) →
    x ∉ (⟨q.usedIdField (q.usedSlot (load16 g.bytes q.usedIdxAddr)), 8⟩ : Span) →
    x ∉ (⟨q.usedIdxAddr, 2⟩ : Span) → g'.bytes x = g.bytes x

theorem delivered (hp : q.Placed g) (hpair : (spans ds).Pairwise Span.Apart)
    (hused : ∀ d ∈ ds, q.usedSpan.Apart d.span) (hpacket : packet.length ≤ bufferLen) :
    Delivered q g head ds packet (afterPacket q g head ds packet)
      (UInt32.ofNat (min packet.length (totalLen (spans ds)))) := by
  have hpos := hp.size_pos
  have hle : q.size.toNat ≤ 512 := hp.size_le
  have hlen : (UInt32.ofNat (min packet.length (totalLen (spans ds)))).toNat =
      min packet.length (totalLen (spans ds)) := by
    rw [UInt32.toNat_ofNat', Nat.mod_eq_of_lt]
    have hlt : bufferLen < 2 ^ 32 := by decide
    omega
  have hsame : AgreeOn q.usedSpan g.bytes (scatter g.bytes (spans ds) packet) := by
    apply scatter_agree
    intro span hspan
    obtain ⟨d, hd, rfl⟩ := List.mem_map.mp hspan
    exact hused d hd
  have hidx : load16 (scatter g.bytes (spans ds) packet) q.usedIdxAddr =
      load16 g.bytes q.usedIdxAddr := (hsame.mono (Queue.usedIdx_within hpos)).load16_eq.symm
  constructor
  case amount => exact hlen
  case buffers =>
    have hkept : gather (afterPacket q g head ds packet).bytes (spans ds) =
        gather (scatter g.bytes (spans ds) packet) (spans ds) := by
      apply gather_congr (spans_len_le ds)
      intro span hspan
      obtain ⟨d, hd, rfl⟩ := List.mem_map.mp hspan
      exact (Queue.afterAddUsed_agree hpos hle (hused d hd).symm _ _ _).symm
    have hlast : ∀ n, (gather g.bytes (spans ds)).length ≤ n →
        (gather g.bytes (spans ds)).drop n = [] := fun _ => List.drop_eq_nil_of_le
    rw [length_gather] at hlast
    rw [hkept, gather_scatter_front _ _ _ (spans_len_le ds) hpair, hlen]
    rcases Nat.le_total packet.length (totalLen (spans ds)) with hfits | hover
    · rw [min_eq_left hfits, List.take_of_length_le hfits, List.take_length]
    · rw [min_eq_right hover, hlast _ hover, hlast _ le_rfl]
  case elem =>
    have hadded := Queue.usedElem_added hpos hle (scatter g.bytes (spans ds) packet) head.toUInt32
      (UInt32.ofNat (min packet.length (totalLen (spans ds))))
    rwa [hidx] at hadded
  case index =>
    have hafter := Queue.afterAddUsed_idx q (scatter g.bytes (spans ds) packet) head.toUInt32
      (UInt32.ofNat (min packet.length (totalLen (spans ds))))
    rwa [hidx] at hafter
  case frame =>
    intro x hout helem hindex
    rw [← hidx] at helem
    refine (Queue.afterAddUsed_of_notMem _ _ _ helem hindex).trans ?_
    apply scatter_of_notMem
    intro span hspan
    obtain ⟨d, hd, rfl⟩ := List.mem_map.mp hspan
    exact hout d hd

/-- A packet goes to the buffers of the chain in order, each filled before the next, and
the loop makes one iteration for each descriptor that the packet reaches, no more. -/
theorem rx_delivers (hp : q.Placed g) (hnext : q.next g = .ok (some head, q'))
    (hchain : q.Chain g.bytes head ds) (hheld : ∀ d ∈ ds, g.Holds d.addr d.len.toNat)
    (hpair : (spans ds).Pairwise Span.Apart) (htable : ∀ d ∈ ds, q.tableSpan.Apart d.span)
    (hused : ∀ d ∈ ds, q.usedSpan.Apart d.span) (hpacket : packet.length ≤ bufferLen)
    (irq : Interrupt) (buffer : List UInt8) :
    (∀ fuel, (reached packet.length ds).length ≤ fuel → ∃ r len,
      updateRx fuel q irq buffer g true (some packet) = .ok r ∧
        r.used = some (head.toUInt32, len) ∧ Delivered q g head ds packet r.guest len) ∧
    ∀ fuel, fuel < (reached packet.length ds).length →
      updateRx fuel q irq buffer g true (some packet) = .error .unfinished := by
  have hupdate := fun fuel => updateRx_packet hp hnext hchain hheld htable hpacket fuel irq buffer
  constructor
  · intro fuel hfuel
    have hone := hupdate fuel
    rw [if_pos hfuel] at hone
    exact ⟨_, _, hone, rfl, delivered hp hpair hused hpacket⟩
  · intro fuel hfuel
    have hone := hupdate fuel
    rwa [if_neg (Nat.not_le_of_lt hfuel)] at hone

end Packet

/-! A chain of three buffers, the second of them empty. -/

def threeBuffers : Guest :=
  ⟨image [(0x1000, bytesOfNat 8 0x4000), (0x1008, [2]), (0x100c, [1, 0, 1]),
    (0x1010, bytesOfNat 8 0x5000), (0x101c, [1, 0, 2]),
    (0x1020, bytesOfNat 8 0x6000), (0x1028, [4]), (0x2002, [1])], 0x8000⟩

def threeDescriptors : List Descriptor :=
  [⟨0x4000, 2, 1, 1⟩, ⟨0x5000, 0, 1, 2⟩, ⟨0x6000, 4, 0, 0⟩]

theorem threeBuffers_chain : sampleQueue.Chain threeBuffers.bytes 0 threeDescriptors :=
  ⟨by decide, rfl, rfl, by decide, rfl, rfl, by decide, rfl, rfl⟩

theorem threeBuffers_next :
    sampleQueue.next threeBuffers = .ok (some 0, { sampleQueue with lastAvail := 1 }) := rfl

theorem apart_low {span : Span} (h : span.addr.toNat + span.len ≤ 0x4000) :
    ∀ d ∈ threeDescriptors, span.Apart d.span := by
  intro d hd
  apply Span.apart_of_le
  · fin_cases hd <;> exact h.trans (by decide)
  · fin_cases hd <;> decide

theorem three_bytes_delivered : ∃ r len,
    updateRx 3 sampleQueue { number := 6 } [] threeBuffers true (some [0xa, 0xb, 0xc]) = .ok r ∧
      r.used = some (0, len) ∧
      Delivered sampleQueue threeBuffers 0 threeDescriptors [0xa, 0xb, 0xc] r.guest len := by
  have hheld : ∀ d ∈ threeDescriptors, threeBuffers.Holds d.addr d.len.toNat := by decide
  have hpair : (spans threeDescriptors).Pairwise fun left right =>
      left.addr.toNat + left.len ≤ right.addr.toNat ∧ right.addr.toNat + right.len ≤ 2 ^ 64 := by
    decide
  exact (rx_delivers (sampleQueue_placed (by decide)) threeBuffers_next threeBuffers_chain hheld
    (hpair.imp fun h => Span.apart_of_le h.1 h.2) (apart_low (by decide)) (apart_low (by decide))
    (by decide) { number := 6 } []).1 3 (by decide)

/-! A read of the tap that fails. Its result -1 is cast to an unsigned length. -/

section Failed

variable {q q' : Queue} {g g' : Guest} {i head : UInt16} {ds : List Descriptor}
  {buffer : List UInt8} {len len' : UInt32} {fuel : Nat}

/-- Nothing of the chain changes and no used element with a length is published. -/
def DeliversNothing (fuel : Nat) (q : Queue) (irq : Interrupt) (buffer : List UInt8) (g : Guest)
    (ds : List Descriptor) : Prop :=
  ∃ r, updateRx fuel q irq buffer g true none = .ok r ∧
    (∀ d ∈ ds, AgreeOn d.span g.bytes r.guest.bytes) ∧
    ∀ id len, r.used = some (id, len) → len = 0

theorem size_ne_failed (len : UInt32) : ¬ (len.toNat : Int) = -1 := by omega

theorem rxLoop_len_le (hbuffer : buffer.length = bufferLen)
    (h : rxLoop q buffer (-1) fuel g i len = .ok (g', len')) : len.toNat ≤ len'.toNat := by
  induction fuel generalizing g i len with
  | zero => contradiction
  | succ fuel ih =>
    rw [rxLoop_succ] at h
    obtain ⟨d, -, h⟩ := bind_eq_ok.mp h
    obtain ⟨bytes, hread, h⟩ := bind_eq_ok.mp h
    obtain ⟨g₁, -, h⟩ := bind_eq_ok.mp h
    have hgrows : len.toNat ≤ (len + writeLen (-1) len d).toNat := by
      have hroom : (writeLen (-1) len d).toNat = 0 ∨
          len.toNat + (writeLen (-1) len d).toNat ≤ buffer.length := by
        unfold hostRead at hread
        split at hread
        · assumption
        · contradiction
      have hlt : bufferLen < 2 ^ 32 := by decide
      have hlen := len.toNat_lt
      rw [UInt32.toNat_add, Nat.mod_eq_of_lt (by omega)]
      exact Nat.le_add_right _ _
    unfold rxNext at h
    rw [if_neg (size_ne_failed _)] at h
    obtain ⟨e, -, h⟩ := bind_eq_ok.mp h
    split at h
    · obtain ⟨next, -, h⟩ := bind_eq_ok.mp h
      exact hgrows.trans (ih h)
    · cases h
      exact hgrows

theorem rxLoop_failed_empty {d : Descriptor} (hp : q.Placed g) (hi : i.toNat < q.size.toNat)
    (hentry : q.entry g.bytes i = d) (hempty : d.len = 0) :
    rxLoop q buffer (-1) (fuel + 1) g i 0 =
      if d.hasNext then do
        let next ← descriptorIndex d.next
        rxLoop q buffer (-1) fuel g next 0
      else .ok (g, 0) := by
  have hread : hostRead buffer (0 : UInt32).toNat (0 : UInt32).toNat = .ok [] := by
    rw [UInt32.toNat_zero]
    exact (if_pos (Or.inl rfl)).trans (congrArg Except.ok (slice_zero buffer 0))
  have hwrite : g.write d.addr [] = .ok g := by
    rw [Guest.write_ok (Or.inl rfl), store_nil]
  rw [rxLoop_succ, Queue.descriptor_ok hp hi, hentry, ok_bind, writeLen_failed, hempty, hread,
    ok_bind, hwrite, ok_bind]
  unfold rxNext
  rw [if_neg (size_ne_failed _), Queue.descriptor_ok hp hi, hentry, ok_bind]
  rfl

theorem rxLoop_failed_idle (hp : q.Placed g) (hchain : q.Chain g.bytes i ds)
    (hempty : ∀ d ∈ ds, d.len = 0) (hfuel : ds.length ≤ fuel) :
    rxLoop q buffer (-1) fuel g i 0 = .ok (g, 0) := by
  induction ds generalizing fuel i with
  | nil => exact hchain.elim
  | cons d ds ih =>
    cases fuel with
    | zero => contradiction
    | succ fuel =>
      rw [rxLoop_failed_empty hp hchain.1 hchain.2.1 (hempty d List.mem_cons_self)]
      cases ds with
      | nil =>
        rw [if_neg]
        rw [hchain.2.2]
        exact Bool.false_ne_true
      | cons e ds =>
        obtain ⟨-, -, hnext, hrest⟩ := hchain
        rw [if_pos hnext, Queue.descriptorIndex_ok hp.size_le hrest.head_lt, ok_bind]
        exact ih hrest (fun d' hd' => hempty d' (List.mem_cons_of_mem _ hd'))
          (Nat.le_of_succ_le_succ hfuel)

/-- A count of zero means that every buffer was empty: the first one that was not has
been filled from the staging buffer. -/
theorem empty_of_rxLoop_failed (hbuffer : buffer.length = bufferLen) (hp : q.Placed g)
    (hchain : q.Chain g.bytes i ds) (h : rxLoop q buffer (-1) fuel g i 0 = .ok (g', 0)) :
    ∀ d ∈ ds, d.len = 0 := by
  induction ds generalizing fuel i with
  | nil => exact fun d hd => absurd hd List.not_mem_nil
  | cons d ds ih =>
    cases fuel with
    | zero => contradiction
    | succ fuel =>
      have hfirst : d.len = 0 := by
        rw [rxLoop_succ, Queue.descriptor_ok hp hchain.1, hchain.2.1, ok_bind] at h
        obtain ⟨bytes, -, h⟩ := bind_eq_ok.mp h
        obtain ⟨g₁, -, h⟩ := bind_eq_ok.mp h
        rw [writeLen_failed, UInt32.zero_add] at h
        have hle : d.len.toNat ≤ (0 : UInt32).toNat := by
          unfold rxNext at h
          rw [if_neg (size_ne_failed _)] at h
          obtain ⟨e, -, h⟩ := bind_eq_ok.mp h
          split at h
          · obtain ⟨next, -, h⟩ := bind_eq_ok.mp h
            exact rxLoop_len_le hbuffer h
          · exact (congrArg UInt32.toNat (congrArg Prod.snd (Except.ok.inj h))).le
        exact UInt32.toNat_inj.mp (Nat.le_zero.mp hle)
      rw [rxLoop_failed_empty hp hchain.1 hchain.2.1 hfirst] at h
      intro e he
      rcases List.mem_cons.mp he with rfl | he
      · exact hfirst
      · cases ds with
        | nil => contradiction
        | cons d' ds =>
          obtain ⟨-, -, hnext, hrest⟩ := hchain
          rw [if_pos hnext, Queue.descriptorIndex_ok hp.size_le hrest.head_lt, ok_bind] at h
          exact ih hrest h e he

theorem updateRx_failed (hnext : q.next g = .ok (some head, q')) (irq : Interrupt) :
    updateRx fuel q irq buffer g true none = (do
      let (g, len) ← rxLoop q' buffer (-1) fuel g head 0
      let (_, g) ← q'.addUsed g head.toUInt32 len
      return ⟨q', irq.setLevel true, buffer, g, some (head.toUInt32, len)⟩) := by
  obtain ⟨-, -, havail⟩ := Queue.next_takes hnext
  unfold updateRx
  rw [hnext, ok_bind]
  dsimp only
  rw [if_neg (by decide), havail, ok_bind]
  rfl

theorem empty_of_deliversNothing (hp : q.Placed g) (hnext : q.next g = .ok (some head, q'))
    (hchain : q.Chain g.bytes head ds) (hbuffer : buffer.length = bufferLen) {irq : Interrupt}
    (h : DeliversNothing fuel q irq buffer g ds) : ∀ d ∈ ds, d.len = 0 := by
  have hp' := hp.of_next hnext
  have hchain' := hchain.of_next hnext
  obtain ⟨r, hr, -, hused⟩ := h
  rw [updateRx_failed hnext] at hr
  obtain ⟨⟨g₁, len⟩, hloop, hr⟩ := bind_eq_ok.mp hr
  obtain ⟨⟨idx, g₂⟩, -, hr⟩ := bind_eq_ok.mp hr
  cases hr
  rw [hused _ _ rfl] at hloop
  exact empty_of_rxLoop_failed hbuffer hp' hchain' hloop

theorem deliversNothing_of_empty (hp : q.Placed g) (hnext : q.next g = .ok (some head, q'))
    (hchain : q.Chain g.bytes head ds) (hfuel : ds.length ≤ fuel) (irq : Interrupt)
    (hempty : ∀ d ∈ ds, d.len = 0) : DeliversNothing fuel q irq buffer g ds := by
  have hp' := hp.of_next hnext
  have hchain' := hchain.of_next hnext
  refine ⟨⟨q', irq.setLevel true, buffer,
    ⟨q'.afterAddUsed g.bytes head.toUInt32 0, g.size⟩, some (head.toUInt32, 0)⟩, ?_, ?_, ?_⟩
  · rw [updateRx_failed hnext, rxLoop_failed_idle hp' hchain' hempty hfuel, ok_bind]
    dsimp only
    rw [Queue.addUsed_ok hp', ok_bind]
    rfl
  · intro d hd x hx
    unfold Descriptor.span at hx
    rw [hempty d hd] at hx
    exact absurd hx (Nat.not_lt_zero _)
  · intro id len hused
    cases hused
    rfl

/-- A failed read delivers nothing exactly when there is no chain to deliver to or all of its
buffers are empty. -/
theorem deliversNothing_iff {taken : Option UInt16} (hp : q.Placed g)
    (hnext : q.next g = .ok (taken, q'))
    (hchain : ∀ head, taken = some head → q.Chain g.bytes head ds)
    (hbuffer : buffer.length = bufferLen) (hfuel : ds.length ≤ fuel) (irq : Interrupt) :
    DeliversNothing fuel q irq buffer g ds ↔ taken = none ∨ ∀ d ∈ ds, d.len = 0 := by
  cases taken with
  | none =>
    refine iff_of_true ⟨⟨q', irq, buffer, g, none⟩, ?_, fun _ _ => AgreeOn.refl _ _, nofun⟩
      (Or.inl rfl)
    unfold updateRx
    rw [hnext, ok_bind]
    rfl
  | some head =>
    have htaken := hchain head rfl
    rw [or_iff_right nofun]
    constructor
    · exact empty_of_deliversNothing hp hnext htaken hbuffer
    · exact deliversNothing_of_empty hp hnext htaken hfuel irq

end Failed

def emptyBuffer : Guest :=
  ⟨image [(0x1000, bytesOfNat 8 0x4000), (0x2002, [1])], 0x8000⟩

theorem empty_buffer_nothing : DeliversNothing 1 sampleQueue { number := 6 }
    (List.replicate bufferLen 0x55) emptyBuffer [⟨0x4000, 0, 0, 0⟩] := by
  have hnext : sampleQueue.next emptyBuffer =
      .ok (some 0, { sampleQueue with lastAvail := 1 }) := rfl
  refine (deliversNothing_iff (sampleQueue_placed (by decide)) hnext ?_ List.length_replicate
    (by decide) { number := 6 }).mpr (Or.inr (by decide))
  rintro head ⟨⟩
  exact ⟨by decide, rfl, rfl⟩

/-- After a read that failed the guest is told of six bytes, which are those of an earlier
packet. -/
theorem earlier_bytes_delivered : ¬ DeliversNothing 3 sampleQueue { number := 6 }
    (List.replicate bufferLen 0x55) threeBuffers threeDescriptors := by
  intro h
  have hempty := empty_of_deliversNothing (sampleQueue_placed (by decide)) threeBuffers_next
    threeBuffers_chain List.length_replicate h
  exact absurd hempty (by decide)

end Net

end Kthxvm.Virtio
