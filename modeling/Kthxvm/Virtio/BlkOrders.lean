import Kthxvm.Virtio.AvailRing
import Kthxvm.Virtio.FlatDisk
import Kthxvm.Virtio.UsedRing

/-! The block device beside a driver that goes on publishing requests: the disk gets what
each of them asked for when it was published. -/
namespace Kthxvm.Virtio

open Lib.ByteMemory Lib.Disk Lib.Ring Lib.ScatterGather

namespace Queue

/-- The used ring lists these ids, and has the elements of its last round. -/
structure Listed (q : Queue) (m : Memory) (ids : List UInt32) : Prop where
  idx : load16 m q.usedIdxAddr = UInt16.ofNat ids.length
  elems : ∀ k id, ids[k]? = some id → ids.length ≤ k + q.size.toNat →
    (q.usedElem m (UInt32.ofNat (k % q.size.toNat))).1 = id

variable {q : Queue} {m m' : Memory} {ids : List UInt32}

theorem Listed.congr (h : q.Listed m ids) (hpos : 0 < q.size.toNat) (hle : q.size.toNat ≤ 512)
    (hagree : AgreeOn q.usedSpan m m') : q.Listed m' ids where
  idx := (hagree.mono (usedIdx_within hpos)).load16_eq.symm.trans h.idx
  elems := by
    intro k id hk hlast
    have hi : (UInt32.ofNat (k % q.size.toNat)).toNat < q.size.toNat := by
      rw [AvailRing.slot_toNat hpos hle]
      exact Nat.mod_lt k hpos
    rw [← h.elems k id hk hlast]
    exact congrArg Prod.fst (usedElem_congr (hagree.mono (usedElem_within hle hi))).symm

theorem Listed.add (h : q.Listed m ids) (hpos : 0 < q.size.toNat) (hle : q.size.toNat ≤ 512)
    (hfew : ids.length < 2 ^ 16) (id len : UInt32) :
    q.Listed (q.afterAddUsed m id len) (ids ++ [id]) where
  idx := by
    rw [afterAddUsed_idx, h.idx, List.length_append, UInt16.ofNat_add]
    rfl
  elems := by
    -- the element that it fills is the one of the new number
    have hslot :
        q.usedSlot (load16 m q.usedIdxAddr) = UInt32.ofNat (ids.length % q.size.toNat) := by
      apply UInt32.toNat_inj.mp
      unfold usedSlot
      rw [AvailRing.slot_toNat hpos hle, UInt32.toNat_mod, UInt16.toNat_toUInt32, h.idx,
        UInt16.toNat_ofNat', Nat.mod_eq_of_lt (a := ids.length) hfew]
    intro k x hk hlast
    rw [List.length_append, List.length_singleton] at hlast
    rcases Nat.lt_trichotomy k ids.length with hold | rfl | hbeyond
    · rw [List.getElem?_append_left hold] at hk
      have hne : k % q.size.toNat ≠ ids.length % q.size.toNat :=
        mod_ne_of_window hold (by omega)
      rw [usedElem_kept hpos hle]
      · exact h.elems k x hk (by omega)
      · rw [AvailRing.slot_toNat hpos hle]
        exact (Nat.mod_lt k hpos).trans_le hle
      · rw [hslot]
        intro heq
        apply hne
        rw [← AvailRing.slot_toNat hpos hle, heq, AvailRing.slot_toNat hpos hle]
    · rw [List.getElem?_concat_length, Option.some.injEq] at hk
      rw [← hslot, usedElem_added hpos hle, hk]
    · rw [List.getElem?_eq_none (by rw [List.length_append, List.length_singleton]; omega)] at hk
      contradiction

end Queue

namespace Blk

structure Order where
  request : Request
  access : Access UInt8

namespace Request

def asked (r : Request) : List Span := ⟨r.hdr.addr, 16⟩ :: spans r.data

def buffers (r : Request) : List Span := ⟨r.st.addr, 1⟩ :: r.asked

variable {r : Request} {q : Queue} {g : Guest} {size : Nat} {m : Memory}

theorem type_congr (h : AgreeOn ⟨r.hdr.addr, 16⟩ g.bytes m) : r.type m = r.type g.bytes :=
  (h.mono (Span.within_of_le (by decide))).load32_eq.symm

theorem sector_congr (h : AgreeOn ⟨r.hdr.addr, 16⟩ g.bytes m) : r.sector m = r.sector g.bytes := by
  have hwithin : Span.Within ⟨r.hdr.addr + 8, 8⟩ ⟨r.hdr.addr, 16⟩ :=
    Span.within_of_offset (by simp only [UInt64.reduceToNat]; decide)
  exact (h.mono hwithin).load64_eq.symm

theorem access_congr (h : ∀ span ∈ r.asked, AgreeOn span g.bytes m) :
    r.access m = r.access g.bytes := by
  have hheader := h _ List.mem_cons_self
  unfold access
  rw [type_congr hheader, sector_congr hheader, gather_congr (spans_len_le _) fun span hspan =>
    (h span (List.mem_cons_of_mem _ hspan)).symm]

theorem WellFormed.keep (h : r.WellFormed q g size)
    (hentries : ∀ i ∈ Queue.chainIndices r.head r.chain, q.entry m i = q.entry g.bytes i)
    (hasked : ∀ span ∈ r.asked, AgreeOn span g.bytes m) : r.WellFormed q ⟨m, g.size⟩ size where
  placed := h.placed.congr rfl rfl rfl rfl rfl
  event := h.event
  laid := {
    chain := h.laid.chain.of_entries hentries
    hdr_held := h.laid.hdr_held
    data_held := h.laid.data_held
    data_entries := by
      rw [type_congr (hasked _ List.mem_cons_self)]
      exact h.laid.data_entries
    st_held := h.laid.st_held }
  kind := by
    rw [type_congr (hasked _ List.mem_cons_self)]
    exact h.kind
  data_apart := h.data_apart
  data_used := h.data_used
  data_st := h.data_st
  st_used := h.st_used
  range := by
    unfold InRange
    rw [sector_congr (hasked _ List.mem_cons_self)]
    exact h.range

theorem WellFormed.counter (h : r.WellFormed q g size) (n : UInt32) :
    r.WellFormed { q with lastAvail := n } g size where
  placed := h.placed.congr rfl rfl rfl rfl rfl
  event := h.event
  laid := {
    chain := h.laid.chain.queue rfl rfl
    hdr_held := h.laid.hdr_held
    data_held := h.laid.data_held
    data_entries := h.laid.data_entries
    st_held := h.laid.st_held }
  kind := h.kind
  data_apart := h.data_apart
  data_used := h.data_used
  data_st := h.data_st
  st_used := h.st_used
  range := h.range

theorem Proper.effect_agree {span : Span} (h : r.Proper q g)
    (hspan : ∀ buffer ∈ spans r.data, span.Apart buffer) (file : FStream) :
    AgreeOn span g.bytes (r.effect file g.bytes).2 := by
  unfold effect
  rcases h.kind with hin | hout
  · rw [if_pos hin]
    exact ioIn_agree (fun d hd => hspan _ (List.mem_map_of_mem hd)) _ _
  · have hnot : ¬ r.type g.bytes = blkTIn := by
      rw [hout]
      decide
    rw [if_neg hnot, if_pos hout]
    exact AgreeOn.refl _ _

end Request

def answered (r : Request) (file : FStream) (m : Memory) : Memory :=
  store (r.effect file m).2 r.st.addr [blkSOk]

def afterRound (r : Request) (q : Queue) (file : FStream) (m : Memory) : Memory :=
  q.afterAddUsed (answered r file m) r.head.toUInt32 (len32 r.data + 1)

section Round

variable {fuel : Nat} {b : Blk} {g : Guest} {r : Request} {q : Queue}

theorem runOnce_eq (hfuel : queueSizeMax.toNat ≤ fuel) (htakes : Takes b g r.head q)
    (h : r.Proper q g) : ∃ len idx raised, runOnce fuel b g =
      .ok (.answered r.head r.head.toUInt32 len idx raised,
        answer b q (r.effect b.file g.bytes).1 raised,
        ⟨afterRound r q b.file g.bytes, g.size⟩) := by
  have hhandle := handle_ok h.placed h.laid (h.kind.imp_right Or.inl) hfuel b.file
  have hplaced : q.Placed ⟨store (r.effect b.file g.bytes).2 r.st.addr [blkSOk], g.size⟩ :=
    h.placed.congr rfl rfl rfl rfl rfl
  obtain ⟨raised, hround, -⟩ := runOnce_answered htakes htakes.availId hhandle hplaced h.event
  exact ⟨_, _, raised, hround⟩

theorem answered_agree {span : Span} (h : r.Proper q g)
    (hdata : ∀ buffer ∈ spans r.data, span.Apart buffer) (hst : span.Apart ⟨r.st.addr, 1⟩)
    (file : FStream) : AgreeOn span g.bytes (answered r file g.bytes) :=
  (h.effect_agree hdata file).store hst

theorem afterRound_agree {span : Span} (h : r.Proper q g)
    (hspan : ∀ buffer ∈ r.buffers, span.Apart buffer) (hused : span.Apart q.usedSpan)
    (file : FStream) : AgreeOn span g.bytes (afterRound r q file g.bytes) := by
  have hdata : ∀ buffer ∈ spans r.data, span.Apart buffer := fun buffer hbuffer =>
    hspan buffer (List.mem_cons_of_mem _ (List.mem_cons_of_mem _ hbuffer))
  have hstatus := answered_agree h hdata (hspan _ List.mem_cons_self) file
  exact hstatus.trans (Queue.afterAddUsed_agree h.placed.size_pos h.placed.size_le hused _ _ _)

theorem selected_answer {q₀ : Queue} (h : b.dev.selected = .ok q₀) (q : Queue) (file : FStream)
    (raised : Bool) : (answer b q file raised).dev.selected = .ok q := by
  unfold Device.selected at h ⊢
  change (b.dev.setQ b.dev.queueIndex q).q (b.dev.setQ b.dev.queueIndex q).queueIndex = .ok q
  rw [Device.setQ_queueIndex, Device.q_setQ h, if_pos rfl]

end Round

structure Side where
  blk : Blk
  queue : Queue
  selected : blk.dev.selected = .ok queue
  /-- what the driver has published -/
  orders : List Order := []
  /-- how many chains the device has taken -/
  taken : Nat := 0

namespace Side

def slot (s : Side) (k : Nat) : UInt64 :=
  s.queue.availSlot (UInt32.ofNat (k % s.queue.size.toNat))

def Pending (s : Side) (k : Nat) (order : Order) : Prop :=
  s.taken ≤ k ∧ s.orders[k]? = some order

def answered (s : Side) : List UInt32 :=
  (s.orders.take s.taken).map fun o => o.request.head.toUInt32

def pending (s : Side) : List Span := (s.orders.drop s.taken).flatMap fun o => o.request.buffers

def afterPublish (s : Side) (order : Order) : Side := { s with orders := s.orders ++ [order] }

def publishIdx (s : Side) (g : Guest) : Guest :=
  ⟨store16 g.bytes s.queue.availIdxAddr (UInt16.ofNat (s.orders.length + 1)), g.size⟩

/-- What a driver leaves alone as long as a request is not answered. -/
structure Keeps (s : Side) (m m' : Memory) : Prop where
  used : AgreeOn s.queue.usedSpan m m'
  idx : load16 m' s.queue.availIdxAddr = load16 m s.queue.availIdxAddr
  slots : ∀ k order, s.Pending k order → load16 m' (s.slot k) = load16 m (s.slot k)
  entries : ∀ k order, s.Pending k order →
    ∀ i ∈ Queue.chainIndices order.request.head order.request.chain,
      s.queue.entry m' i = s.queue.entry m i
  asked : ∀ k order, s.Pending k order → ∀ span ∈ order.request.asked, AgreeOn span m m'

/-- When a driver may publish one more request, which it has put into its slot already. -/
structure MayPublish (size : Nat) (rings : List Span) (s : Side) (g : Guest) (order : Order) :
    Prop where
  room : s.orders.length < s.taken + s.queue.size.toNat
  few : s.orders.length + 1 < 2 ^ 16
  slot : load16 g.bytes (s.slot s.orders.length) = order.request.head
  request : order.request.WellFormed s.queue g size
  access : order.request.access g.bytes = order.access
  off_rings : ∀ span ∈ order.request.buffers, ∀ ring ∈ rings, ring.Apart span
  off_others : ∀ span ∈ order.request.buffers, ∀ other ∈ s.pending, other.Apart span

inductive Act where
  | publish (order : Order)
  | register (data : List UInt8) (offset : UInt64) (size : UInt32)
  | round (outcome : Outcome)

/-- The writes of registers are those that leave the queue in its place. -/
inductive Step (fuel size : Nat) (rings : List Span) (s : Side) (g : Guest) :
    Act → Side → Guest → Prop where
  | publish {order : Order} (h : s.MayPublish size rings g order) :
      Step fuel size rings s g (.publish order) (s.afterPublish order) (s.publishIdx g)
  | register {data : List UInt8} {offset : UInt64} {n : UInt32} {dev : Device blkType}
      (h : s.blk.dev.mmioWrite data offset n = .ok dev) (hsel : dev.selected = .ok s.queue) :
      Step fuel size rings s g (.register data offset n)
        { s with blk := ⟨dev, s.blk.file⟩, selected := hsel } g
  | round {o : Outcome} {b : Blk} {q : Queue} {g' : Guest}
      (h : runOnce fuel s.blk g = .ok (o, b, g')) (hsel : b.dev.selected = .ok q) :
      Step fuel size rings s g (.round o)
        { s with
          blk := b
          queue := q
          selected := hsel
          taken := s.taken + (BlkMachine.takenHead (.round o)).toList.length } g'

/-- The rings say what was published and what is answered, every request that waits is as it
was published, and the disk has had the others. -/
structure Inv (size : Nat) (image : List UInt8) (rings : List Span) (s : Side) (g : Guest) :
    Prop where
  placed : s.queue.Placed g
  ready : s.queue.ready = true
  table_avail : s.queue.tableSpan.Apart s.queue.availSpan
  mine : s.queue.tableSpan ∈ rings ∧ s.queue.availSpan ∈ rings ∧ s.queue.usedSpan ∈ rings
  counter : s.queue.lastAvail.toNat = s.taken
  behind : s.taken ≤ s.orders.length
  few : s.orders.length < 2 ^ 16
  window : s.orders.length ≤ s.taken + s.queue.size.toNat
  idx : load16 g.bytes s.queue.availIdxAddr = UInt16.ofNat s.orders.length
  slots : ∀ k order, s.Pending k order → load16 g.bytes (s.slot k) = order.request.head
  requests : ∀ k order, s.Pending k order → order.request.WellFormed s.queue g size
  accesses : ∀ k order, s.Pending k order → order.request.access g.bytes = order.access
  off_rings : ∀ span ∈ s.pending, ∀ ring ∈ rings, ring.Apart span
  off_others : ∀ j k left right, s.Pending j left → s.Pending k right → j < k →
    ∀ span ∈ right.request.buffers, ∀ other ∈ left.request.buffers, other.Apart span
  listed : s.queue.Listed g.bytes s.answered
  stream : s.blk.file.fail = false
  length : s.blk.file.contents.length = size
  disk : s.blk.file.contents = replay image ((s.orders.take s.taken).map Order.access)

section Pending

variable {s : Side} {k : Nat} {order x : Order}

theorem Pending.lt (h : s.Pending k order) : k < s.orders.length :=
  (List.getElem?_eq_some_iff.mp h.2).1

theorem Pending.buffers_subset (h : s.Pending k order) : order.request.buffers ⊆ s.pending := by
  have hdrop : (s.orders.drop s.taken)[k - s.taken]? = some order := by
    rw [List.getElem?_drop, Nat.add_sub_cancel' h.1]
    exact h.2
  exact fun span hspan => List.mem_flatMap.mpr ⟨order, List.mem_of_getElem? hdrop, hspan⟩

theorem exists_pending {span : Span} (h : span ∈ s.pending) :
    ∃ k order, s.Pending k order ∧ span ∈ order.request.buffers := by
  obtain ⟨order, horder, hspan⟩ := List.mem_flatMap.mp h
  obtain ⟨i, hi⟩ := List.getElem?_of_mem horder
  rw [List.getElem?_drop] at hi
  exact ⟨s.taken + i, order, ⟨Nat.le_add_right _ _, hi⟩, hspan⟩

theorem Pending.of_publish (h : (s.afterPublish order).Pending k x) :
    s.Pending k x ∨ k = s.orders.length ∧ x = order := by
  obtain ⟨hk, hx⟩ := h
  change (s.orders ++ [order])[k]? = some x at hx
  rcases Nat.lt_trichotomy k s.orders.length with hold | rfl | hbeyond
  · rw [List.getElem?_append_left hold] at hx
    exact Or.inl ⟨hk, hx⟩
  · rw [List.getElem?_concat_length, Option.some.injEq] at hx
    exact Or.inr ⟨rfl, hx.symm⟩
  · rw [List.getElem?_eq_none (by rw [List.length_append, List.length_singleton]; omega)] at hx
    contradiction

theorem pending_afterPublish (order : Order) (h : s.taken ≤ s.orders.length) :
    (s.afterPublish order).pending = s.pending ++ order.request.buffers := by
  unfold pending afterPublish
  rw [List.drop_append_of_le_length h, List.flatMap_append, List.flatMap_singleton]

end Pending

variable {size : Nat} {image : List UInt8} {rings : List Span} {s : Side} {g : Guest} {m : Memory}

section Inv

variable (h : s.Inv size image rings g)

include h

theorem Inv.size_le : s.queue.size.toNat ≤ 512 := h.placed.size_le

theorem Inv.slot_lt (k : Nat) :
    (UInt32.ofNat (k % s.queue.size.toNat)).toNat < s.queue.size.toNat := by
  rw [AvailRing.slot_toNat h.placed.size_pos h.size_le]
  exact Nat.mod_lt k h.placed.size_pos

theorem Inv.length_answered : s.answered.length = s.taken := by
  unfold answered
  rw [List.length_map, List.length_take_of_le h.behind]

theorem Inv.keeps_of_agree (htable : AgreeOn s.queue.tableSpan g.bytes m)
    (havail : AgreeOn s.queue.availSpan g.bytes m) (hused : AgreeOn s.queue.usedSpan g.bytes m)
    (hpending : ∀ span ∈ s.pending, AgreeOn span g.bytes m) : s.Keeps g.bytes m := by
  constructor
  case used => exact hused
  case idx => exact (havail.mono (Queue.availIdx_within h.placed.size_pos)).load16_eq.symm
  case slots =>
    intro k order _
    exact (havail.mono (Queue.availSlot_within h.size_le (h.slot_lt k))).load16_eq.symm
  case entries =>
    intro k order hpend i hi
    have hlt := (h.requests k order hpend).laid.chain.index_lt i hi
    exact (Queue.entry_congr hlt htable).symm
  case asked =>
    exact fun k order hpend span hspan =>
      hpending span (hpend.buffers_subset (List.mem_cons_of_mem _ hspan))

theorem Inv.keep (hkeep : s.Keeps g.bytes m) : s.Inv size image rings ⟨m, g.size⟩ := by
  constructor
  case placed => exact h.placed.congr rfl rfl rfl rfl rfl
  case ready => exact h.ready
  case table_avail => exact h.table_avail
  case mine => exact h.mine
  case counter => exact h.counter
  case behind => exact h.behind
  case few => exact h.few
  case window => exact h.window
  case idx => exact hkeep.idx.trans h.idx
  case slots => exact fun k o hpend => (hkeep.slots k o hpend).trans (h.slots k o hpend)
  case requests =>
    exact fun k o hpend =>
      (h.requests k o hpend).keep (hkeep.entries k o hpend) (hkeep.asked k o hpend)
  case accesses =>
    exact fun k o hpend =>
      (Request.access_congr (hkeep.asked k o hpend)).trans (h.accesses k o hpend)
  case off_rings => exact h.off_rings
  case off_others => exact h.off_others
  case listed => exact h.listed.congr h.placed.size_pos h.size_le hkeep.used
  case stream => exact h.stream
  case length => exact h.length
  case disk => exact h.disk

theorem Inv.next_eq : s.queue.next g =
    .ok ((s.orders[s.taken]?).map fun o => o.request.head,
      { s.queue with lastAvail := s.queue.lastAvail +
        if s.taken < s.orders.length then 1 else 0 }) := by
  have hcounter := h.counter
  have hidx : (load16 g.bytes s.queue.availIdxAddr).toNat = s.orders.length := by
    rw [h.idx, UInt16.toNat_ofNat', Nat.mod_eq_of_lt h.few]
  by_cases hlt : s.taken < s.orders.length
  · have hfirst := List.getElem?_eq_getElem hlt
    have hslot := h.slots _ _ ⟨le_rfl, hfirst⟩
    have hhead := (h.requests _ _ ⟨le_rfl, hfirst⟩).laid.chain.head_lt
    unfold slot at hslot
    rw [← AvailRing.counter_slot h.placed.size_pos h.size_le hcounter] at hslot
    have hnext := Queue.next_some h.placed h.ready (by omega)
      (by rw [hslot]; exact hhead.trans_le h.size_le)
    rw [hnext, hslot, hfirst, if_pos hlt]
    rfl
  · rw [Queue.next_none h.placed (by omega), List.getElem?_eq_none (by omega), if_neg hlt,
      UInt32.add_zero]
    rfl

end Inv

structure Follows (size : Nat) (image : List UInt8) (rings : List Span) (s : Side) (g : Guest)
    (t : Side) (g' : Guest) : Prop where
  inv : t.Inv size image rings g'
  table : t.queue.tableSpan = s.queue.tableSpan
  avail : t.queue.availSpan = s.queue.availSpan
  used : t.queue.usedSpan = s.queue.usedSpan
  size : g'.size = g.size
  frame : ∀ span : Span, span.Apart s.queue.availSpan → span.Apart s.queue.usedSpan →
    (∀ buffer ∈ s.pending, span.Apart buffer) → AgreeOn span g.bytes g'.bytes

section Follows

variable (h : s.Inv size image rings g)

include h

theorem Inv.follows_publish {order : Order} (hmay : s.MayPublish size rings g order) :
    Follows size image rings s g (s.afterPublish order) (s.publishIdx g) := by
  have hpos := h.placed.size_pos
  have hidx : Span.Within ⟨s.queue.availIdxAddr, 2⟩ s.queue.availSpan := Queue.availIdx_within hpos
  have hagree : ∀ span : Span, span.Apart s.queue.availSpan →
      AgreeOn span g.bytes (s.publishIdx g).bytes :=
    fun span hspan => (AgreeOn.refl _ _).store16 (hspan.mono (Span.Within.refl _) hidx)
  have hslots : ∀ k, load16 (s.publishIdx g).bytes (s.slot k) = load16 g.bytes (s.slot k) := by
    intro k
    have hkept : AgreeOn ⟨s.slot k, 2⟩ g.bytes (s.publishIdx g).bytes :=
      (AgreeOn.refl _ _).store16
        (Queue.availIdx_apart_slot (q := s.queue) ((h.slot_lt k).trans_le h.size_le)).symm
    exact hkept.load16_eq.symm
  have hused := hagree _ h.placed.avail_used.symm
  have hentry : ∀ i : UInt16, i.toNat < s.queue.size.toNat →
      s.queue.entry (s.publishIdx g).bytes i = s.queue.entry g.bytes i :=
    fun i hi => (Queue.entry_congr hi (hagree _ h.table_avail)).symm
  have hkept : ∀ o : Order, o.request.WellFormed s.queue g size →
      (∀ span ∈ o.request.buffers, ∀ ring ∈ rings, ring.Apart span) →
      o.request.WellFormed s.queue (s.publishIdx g) size ∧
        o.request.access (s.publishIdx g).bytes = o.request.access g.bytes := by
    intro o hrequest hoff
    have hasked : ∀ span ∈ o.request.asked, AgreeOn span g.bytes (s.publishIdx g).bytes :=
      fun span hspan =>
        hagree span (hoff span (List.mem_cons_of_mem _ hspan) _ h.mine.2.1).symm
    exact ⟨hrequest.keep (fun i hi => hentry i (hrequest.laid.chain.index_lt i hi)) hasked,
      Request.access_congr hasked⟩
  have hlen : (s.orders ++ [order]).length = s.orders.length + 1 := List.length_append
  have hpending := pending_afterPublish order h.behind
  refine ⟨?_, rfl, rfl, rfl, rfl, fun span havail _ _ => hagree span havail⟩
  constructor
  case placed => exact h.placed.congr rfl rfl rfl rfl rfl
  case ready => exact h.ready
  case table_avail => exact h.table_avail
  case mine => exact h.mine
  case counter => exact h.counter
  case behind =>
    change s.taken ≤ (s.orders ++ [order]).length
    rw [hlen]
    exact Nat.le_succ_of_le h.behind
  case few =>
    change (s.orders ++ [order]).length < 2 ^ 16
    rw [hlen]
    exact hmay.few
  case window =>
    change (s.orders ++ [order]).length ≤ s.taken + s.queue.size.toNat
    rw [hlen]
    exact hmay.room
  case idx =>
    change load16 (store16 g.bytes s.queue.availIdxAddr _) s.queue.availIdxAddr =
      UInt16.ofNat (s.orders ++ [order]).length
    rw [load16_store16, hlen]
  case slots =>
    intro k x hpend
    refine (hslots k).trans ?_
    rcases hpend.of_publish with hold | ⟨rfl, rfl⟩
    · exact h.slots k x hold
    · exact hmay.slot
  case requests =>
    intro k x hpend
    rcases hpend.of_publish with hold | ⟨-, rfl⟩
    · have hoff : ∀ span ∈ x.request.buffers, ∀ ring ∈ rings, ring.Apart span :=
        fun span hspan => h.off_rings span (hold.buffers_subset hspan)
      exact (hkept x (h.requests k x hold) hoff).1
    · exact (hkept x hmay.request hmay.off_rings).1
  case accesses =>
    intro k x hpend
    rcases hpend.of_publish with hold | ⟨-, rfl⟩
    · have hoff : ∀ span ∈ x.request.buffers, ∀ ring ∈ rings, ring.Apart span :=
        fun span hspan => h.off_rings span (hold.buffers_subset hspan)
      exact (hkept x (h.requests k x hold) hoff).2.trans (h.accesses k x hold)
    · exact (hkept x hmay.request hmay.off_rings).2.trans hmay.access
  case off_rings =>
    intro span hspan
    rw [hpending] at hspan
    rcases List.mem_append.mp hspan with hold | hnew
    · exact h.off_rings span hold
    · exact hmay.off_rings span hnew
  case off_others =>
    intro j k left right hleft hright hjk
    rcases hright.of_publish with hright | ⟨rfl, rfl⟩
    · rcases hleft.of_publish with hleft | ⟨rfl, -⟩
      · exact h.off_others j k left right hleft hright hjk
      · exact absurd hright.lt (Nat.not_lt.mpr hjk.le)
    · rcases hleft.of_publish with hleft | ⟨rfl, -⟩
      · exact fun span hspan other hother =>
          hmay.off_others span hspan other (hleft.buffers_subset hother)
      · exact absurd hjk (Nat.lt_irrefl _)
  case listed =>
    unfold answered afterPublish
    rw [List.take_append_of_le_length h.behind]
    exact h.listed.congr hpos h.size_le hused
  case stream => exact h.stream
  case length => exact h.length
  case disk =>
    change s.blk.file.contents =
      replay image (((s.orders ++ [order]).take s.taken).map Order.access)
    rw [List.take_append_of_le_length h.behind]
    exact h.disk

theorem Inv.takes {order : Order} (hfirst : s.orders[s.taken]? = some order) :
    Takes s.blk g order.request.head { s.queue with lastAvail := s.queue.lastAvail + 1 } := by
  have hlt : s.taken < s.orders.length := (List.getElem?_eq_some_iff.mp hfirst).1
  refine ⟨s.queue, s.selected, ?_⟩
  rw [h.next_eq, hfirst, if_pos hlt]
  rfl

theorem Inv.follows_answer {order : Order} (hfirst : s.orders[s.taken]? = some order)
    (hsize : size < 2 ^ 63) {b : Blk} {q : Queue}
    (hq : q = { s.queue with lastAvail := s.queue.lastAvail + 1 })
    (hfile : b.file = (order.request.effect s.blk.file g.bytes).1)
    (hsel : b.dev.selected = .ok q) :
    Follows size image rings s g
      { s with blk := b, queue := q, selected := hsel, taken := s.taken + 1 }
      ⟨afterRound order.request q s.blk.file g.bytes, g.size⟩ := by
  subst hq
  have hpos := h.placed.size_pos
  have hle := h.size_le
  have hlt : s.taken < s.orders.length := (List.getElem?_eq_some_iff.mp hfirst).1
  have hfew := h.few
  have hpend : s.Pending s.taken order := ⟨le_rfl, hfirst⟩
  have hrequest := (h.requests _ _ hpend).counter (s.queue.lastAvail + 1)
  obtain ⟨htable, havail, hused⟩ := h.mine
  have hbuffers : ∀ span ∈ order.request.buffers, span ∈ s.pending :=
    fun span hspan => hpend.buffers_subset hspan
  have hagree : ∀ span : Span, (∀ buffer ∈ order.request.buffers, span.Apart buffer) →
      span.Apart s.queue.usedSpan → AgreeOn span g.bytes
        (afterRound order.request { s.queue with lastAvail := s.queue.lastAvail + 1 }
          s.blk.file g.bytes) :=
    fun span hspan hspan' => afterRound_agree hrequest.toProper hspan hspan' s.blk.file
  have hring : ∀ ring ∈ rings, ring.Apart s.queue.usedSpan → AgreeOn ring g.bytes
      (afterRound order.request { s.queue with lastAvail := s.queue.lastAvail + 1 }
        s.blk.file g.bytes) :=
    fun ring hmem => hagree ring fun buffer hbuffer =>
      h.off_rings buffer (hbuffers _ hbuffer) _ hmem
  have havail' := hring _ havail h.placed.avail_used
  have htable' := hring _ htable h.placed.table_used
  have hpast : ∀ {k : Nat} {x : Order}, s.taken + 1 ≤ k ∧ s.orders[k]? = some x → s.Pending k x :=
    fun hx => ⟨Nat.le_of_succ_le hx.1, hx.2⟩
  -- the requests behind it are not touched
  have hothers : ∀ k x, s.taken + 1 ≤ k ∧ s.orders[k]? = some x →
      ∀ span ∈ x.request.asked, AgreeOn span g.bytes
        (afterRound order.request { s.queue with lastAvail := s.queue.lastAvail + 1 }
          s.blk.file g.bytes) := by
    intro k x hx span hspan
    have hmem : span ∈ x.request.buffers := List.mem_cons_of_mem _ hspan
    apply hagree
    · exact fun buffer hbuffer => (h.off_others s.taken k order x hpend (hpast hx)
        (Nat.lt_of_succ_le hx.1) span hmem buffer hbuffer).symm
    · exact (h.off_rings span ((hpast hx).buffers_subset hmem) _ hused).symm
  -- only `add_used` writes the used ring
  have hused₁ := answered_agree hrequest.toProper
    (fun _ hspan => (hrequest.data_used _ hspan).symm) hrequest.st_used.symm s.blk.file
  have hdisk := hrequest.effect_eq h.stream h.length hsize
  have haccess := h.accesses _ _ hpend
  refine ⟨?_, rfl, rfl, rfl, rfl, fun span _ hspan hbuffer =>
    hagree span (fun buffer hmem => hbuffer buffer (hbuffers _ hmem)) hspan⟩
  constructor
  case placed => exact h.placed.congr rfl rfl rfl rfl rfl
  case ready => exact h.ready
  case table_avail => exact h.table_avail
  case mine => exact h.mine
  case counter =>
    change (s.queue.lastAvail + 1).toNat = s.taken + 1
    rw [UInt32.toNat_add, h.counter]
    simp only [UInt32.reduceToNat]
    omega
  case behind => exact hlt
  case few => exact h.few
  case window =>
    have hwindow := h.window
    change s.orders.length ≤ s.taken + 1 + s.queue.size.toNat
    omega
  case idx => exact (havail'.mono (Queue.availIdx_within hpos)).load16_eq.symm.trans h.idx
  case slots =>
    intro k x hx
    have hslot := (havail'.mono (Queue.availSlot_within hle (h.slot_lt k))).load16_eq
    exact hslot.symm.trans (h.slots k x (hpast hx))
  case requests =>
    intro k x hx
    have hold := (h.requests k x (hpast hx)).counter (s.queue.lastAvail + 1)
    exact hold.keep (fun i hi => (Queue.entry_congr (hold.laid.chain.index_lt i hi) htable').symm)
      (hothers k x hx)
  case accesses =>
    intro k x hx
    exact (Request.access_congr (hothers k x hx)).trans (h.accesses k x (hpast hx))
  case off_rings =>
    intro span hspan
    obtain ⟨k, x, hx, hmem⟩ := exists_pending hspan
    exact h.off_rings span ((hpast hx).buffers_subset hmem)
  case off_others =>
    exact fun j k left right hleft hright =>
      h.off_others j k left right (hpast hleft) (hpast hright)
  case listed =>
    have hlisted := (h.listed.congr hpos hle hused₁).add hpos hle (by rw [h.length_answered]; omega)
      order.request.head.toUInt32 (len32 order.request.data + 1)
    unfold answered
    rw [List.take_add_one, hfirst, List.map_append]
    exact ⟨hlisted.idx, hlisted.elems⟩
  case stream =>
    change b.file.fail = false
    rw [hfile]
    exact hdisk.2.1
  case length =>
    change b.file.contents.length = size
    have hfits : (order.request.access g.bytes).Fits s.blk.file.contents.length := by
      rw [h.length]
      exact hrequest.fits
    rw [hfile, hdisk.1, Access.length_apply hfits]
    exact h.length
  case disk =>
    change b.file.contents = replay image ((s.orders.take (s.taken + 1)).map Order.access)
    rw [hfile, hdisk.1, haccess, List.take_add_one, hfirst, List.map_append, replay_append,
      ← h.disk]
    rfl

theorem Inv.follows_device {b : Blk} (hfile : b.file = s.blk.file)
    (hsel : b.dev.selected = .ok s.queue) :
    Follows size image rings s g { s with blk := b, selected := hsel } g := by
  refine ⟨?_, rfl, rfl, rfl, rfl, fun _ _ _ _ => AgreeOn.refl _ _⟩
  obtain ⟨dev, file⟩ := b
  change file = s.blk.file at hfile
  subst hfile
  constructor
  case placed => exact h.placed
  case ready => exact h.ready
  case table_avail => exact h.table_avail
  case mine => exact h.mine
  case counter => exact h.counter
  case behind => exact h.behind
  case few => exact h.few
  case window => exact h.window
  case idx => exact h.idx
  case slots => exact h.slots
  case requests => exact h.requests
  case accesses => exact h.accesses
  case off_rings => exact h.off_rings
  case off_others => exact h.off_others
  case listed => exact h.listed
  case stream => exact h.stream
  case length => exact h.length
  case disk => exact h.disk

end Follows

section Step

variable {fuel : Nat} {act : Act} {t : Side} {g' : Guest}

theorem Step.follows (hs : Step fuel size rings s g act t g') (h : s.Inv size image rings g)
    (hfuel : queueSizeMax.toNat ≤ fuel) (hsize : size < 2 ^ 63) :
    Follows size image rings s g t g' := by
  cases hs with
  | publish hmay => exact h.follows_publish hmay
  | @register data offset n dev _ hsel => exact h.follows_device (b := ⟨dev, s.blk.file⟩) rfl hsel
  | @round o b q _ hround hsel =>
    cases hfirst : s.orders[s.taken]? with
    | none =>
      have hnext := h.next_eq
      rw [hfirst] at hnext
      rcases runOnce_cases hround with ⟨rfl, rfl, q₀, q₁, hsel₀, hnext₀, rfl⟩ |
        ⟨head, q₁, ⟨q₀, hsel₀, hnext₀⟩, -⟩ | ⟨head, q₁, _, _, _, _, _, _, ⟨q₀, hsel₀, hnext₀⟩, -⟩
      · have hsame : { s.blk with dev := s.blk.dev.setQ s.blk.dev.queueIndex q₁ } = s.blk := by
          rw [Queue.next_idle hnext₀, Device.setQ_self hsel₀]
        have hq : q = s.queue := by
          rw [hsame, s.selected] at hsel
          exact (Except.ok.inj hsel).symm
        subst hq
        exact h.follows_device (b := { s.blk with dev := s.blk.dev.setQ s.blk.dev.queueIndex q₁ })
          rfl hsel
      all_goals
        rw [s.selected] at hsel₀
        cases hsel₀
        rw [hnext] at hnext₀
        exact nomatch (Prod.mk.inj (Except.ok.inj hnext₀)).1
    | some order =>
      have hpend : s.Pending s.taken order := ⟨le_rfl, hfirst⟩
      have htakes := h.takes hfirst
      obtain ⟨len, idx, raised, hanswer⟩ := runOnce_eq hfuel htakes
        ((h.requests _ _ hpend).counter (s.queue.lastAvail + 1)).toProper
      rw [hanswer] at hround
      cases hround
      have hq : q = { s.queue with lastAvail := s.queue.lastAvail + 1 } := by
        rw [selected_answer s.selected] at hsel
        exact (Except.ok.inj hsel).symm
      subst hq
      exact h.follows_answer hfirst hsize rfl rfl hsel

theorem Step.pending_subset (hs : Step fuel size rings s g act t g')
    (hact : ∀ order, act ≠ .publish order) : t.pending ⊆ s.pending := by
  cases hs with
  | @publish order => exact absurd rfl (hact order)
  | register => exact fun _ hspan => hspan
  | round =>
    intro span hspan
    obtain ⟨k, x, ⟨hk, hx⟩, hmem⟩ := exists_pending hspan
    have hpend : s.Pending k x := ⟨(Nat.le_add_right _ _).trans hk, hx⟩
    exact hpend.buffers_subset hmem

end Step

structure Start (s : Side) (g : Guest) : Prop where
  placed : s.queue.Placed g
  ready : s.queue.ready = true
  table_avail : s.queue.tableSpan.Apart s.queue.availSpan
  counter : s.queue.lastAvail = 0
  availIdx : load16 g.bytes s.queue.availIdxAddr = 0
  usedIdx : load16 g.bytes s.queue.usedIdxAddr = 0
  orders : s.orders = []
  taken : s.taken = 0
  stream : s.blk.file.fail = false

theorem inv_start (h : s.Start g)
    (hmine : s.queue.tableSpan ∈ rings ∧ s.queue.availSpan ∈ rings ∧ s.queue.usedSpan ∈ rings) :
    s.Inv s.blk.file.contents.length s.blk.file.contents rings g := by
  have hnone : ∀ k order, ¬ s.Pending k order := by
    rintro k order ⟨-, hk⟩
    rw [h.orders] at hk
    contradiction
  have hpending : s.pending = [] := by
    unfold pending
    rw [h.orders, List.drop_nil]
    rfl
  have hanswered : s.answered = [] := by
    unfold answered
    rw [h.orders, List.take_nil]
    rfl
  constructor
  case placed => exact h.placed
  case ready => exact h.ready
  case table_avail => exact h.table_avail
  case mine => exact hmine
  case counter => rw [h.counter, h.taken]; rfl
  case behind => rw [h.taken]; exact Nat.zero_le _
  case few => rw [h.orders]; decide
  case window => rw [h.orders]; exact Nat.zero_le _
  case idx => rw [h.availIdx, h.orders]; rfl
  case slots => exact fun k order hpend => absurd hpend (hnone k order)
  case requests => exact fun k order hpend => absurd hpend (hnone k order)
  case accesses => exact fun k order hpend => absurd hpend (hnone k order)
  case off_rings => rw [hpending]; exact fun span hspan => absurd hspan List.not_mem_nil
  case off_others => exact fun j k left right hleft => absurd hleft (hnone j left)
  case listed =>
    rw [hanswered]
    exact ⟨h.usedIdx, fun k id hk => nomatch hk⟩
  case stream => exact h.stream
  case length => rfl
  case disk => rw [h.orders, List.take_nil]; rfl

/-- The disk has had the requests that are answered, as they were published, the used ring lists
them in this order, and the next round does what the next one asked for. -/
structure Exact (fuel : Nat) (image : List UInt8) (s : Side) (g : Guest) : Prop where
  disk : s.blk.file.contents = replay image ((s.orders.take s.taken).map Order.access)
  listed : s.queue.Listed g.bytes s.answered
  next : ∀ order, s.orders[s.taken]? = some order → ∃ len idx raised b g',
    runOnce fuel s.blk g =
      .ok (.answered order.request.head order.request.head.toUInt32 len idx raised, b, g') ∧
    gather g'.bytes (spans order.request.data) = order.access.result s.blk.file.contents ∧
    g'.bytes order.request.st.addr = blkSOk

theorem Inv.exact {fuel : Nat} (h : s.Inv size image rings g) (hfuel : queueSizeMax.toNat ≤ fuel)
    (hsize : size < 2 ^ 63) : s.Exact fuel image g where
  disk := h.disk
  listed := h.listed
  next := by
    intro order hfirst
    have hpend : s.Pending s.taken order := ⟨le_rfl, hfirst⟩
    obtain ⟨len, idx, raised, b, g', hround, -, -, hgather, hst⟩ := runOnce_access hfuel
      (h.takes hfirst) ((h.requests _ _ hpend).counter _) h.stream h.length hsize
    rw [h.accesses _ _ hpend] at hgather
    exact ⟨len, idx, raised, b, g', hround, hgather, hst⟩

end Side

end Blk

end Kthxvm.Virtio
