import Kthxvm.Virtio.AvailRing
import Kthxvm.Virtio.NetThreads

/-! Every interleaving of the two threads of `net` with the driver completes the chains of
each queue in the order in which they were published. -/
namespace Kthxvm.Virtio

open Lib.ByteMemory Lib.Disk Lib.Ring Lib.ScatterGather Lib.Transition

namespace Net

namespace Offered

variable {taboo : List Span} {q q' : Queue} {g g' : Guest} {head : UInt16}
  {d : Descriptor} {ds : List Descriptor}

theorem congr (h : Offered taboo q g head ds) (hsize : g'.size = g.size)
    (hchain : q'.Chain g'.bytes head ds) : Offered taboo q' g' head ds where
  chain := hchain
  held := by
    unfold Guest.Holds
    rw [hsize]
    exact h.held
  apart := h.apart
  fits := h.fits

theorem rest {e : Descriptor} (h : Offered taboo q g head (d :: e :: ds)) :
    Offered taboo q g d.next (e :: ds) where
  chain := h.chain.2.2.2
  held := fun d' hd' => h.held d' (List.mem_cons_of_mem _ hd')
  apart := fun d' hd' => h.apart d' (List.mem_cons_of_mem _ hd')
  fits := by
    have hfits := h.fits
    rw [spans_cons, totalLen_cons] at hfits
    exact (Nat.le_add_left _ _).trans hfits

end Offered

namespace Side

variable {α : Type} {taboo : List Span} {s : Side α} {g g' : Guest} {m : Memory}
  {head : UInt16} {q : Queue}

structure Holding (s : Side α) (head : UInt16) : Prop where
  counter : s.queue.lastAvail.toNat = s.used.length + 1
  first : s.published[s.used.length]? = some head

def Copying (taboo : List Span) (s : Side α) (g : Guest) (descStart : UInt32) (next : UInt16)
    (len : UInt32) : Prop :=
  ∃ head ds left, s.Holding head ∧ descStart = head.toUInt32 ∧
    s.queue.Chain g.bytes head ds ∧ Offered taboo s.queue g next left ∧
    Queue.chainIndices next left <:+ Queue.chainIndices head ds ∧
    len.toNat + totalLen (spans left) ≤ bufferLen

def Stands (taboo : List Span) (s : Side α) (g : Guest) : Position α → Prop
  | .idle => s.queue.lastAvail.toNat = s.used.length
  | .taken next | .filled next _ => s.Holding next
  | .copying _ descStart next len => s.Copying taboo g descStart next len
  | .gathered descStart _ | .copied descStart _ =>
    ∃ head, s.Holding head ∧ descStart = head.toUInt32

structure Inv (taboo : List Span) (s : Side α) (g : Guest) : Prop where
  placed : s.queue.Placed g
  table_avail : s.queue.tableSpan.Apart s.queue.availSpan
  mine : ∀ ring ∈ rings s.queue, ring ∈ taboo
  ready : s.queue.ready = true
  few : s.published.length < 2 ^ 16
  window : s.published.length ≤ s.used.length + s.queue.size.toNat
  idx : load16 g.bytes s.queue.availIdxAddr = UInt16.ofNat s.published.length
  slots : ∀ k head, s.Outstanding k head → load16 g.bytes (s.slot k) = head
  offered : ∀ k head, s.Outstanding k head → ∃ ds, Offered taboo s.queue g head ds
  order : s.used <+: s.published.map UInt16.toUInt32
  usedIdx : load16 g.bytes s.queue.usedIdxAddr = UInt16.ofNat s.used.length
  usedIds : ∀ k id, s.used[k]? = some id → s.used.length ≤ k + s.queue.size.toNat →
    (s.queue.usedElem g.bytes (UInt32.ofNat (k % s.queue.size.toNat))).1 = id
  buffer : s.buffer.length = bufferLen
  stands : s.Stands taboo g s.position

theorem Stands.congr {s' : Side α} {position : Position α} (hstands : s.Stands taboo g position)
    (hqueue : s'.queue = s.queue) (hpublished : s'.published = s.published)
    (hused : s'.used = s.used) : s'.Stands taboo g position := by
  have hholding : ∀ head, s.Holding head → s'.Holding head := by
    intro head hhold
    refine ⟨?_, ?_⟩
    · rw [hqueue, hused]
      exact hhold.counter
    · rw [hpublished, hused]
      exact hhold.first
  cases position with
  | idle =>
    change s'.queue.lastAvail.toNat = s'.used.length
    rw [hqueue, hused]
    exact hstands
  | taken | filled => exact hholding _ hstands
  | gathered | copied =>
    obtain ⟨head, hhold, hstart⟩ := hstands
    exact ⟨head, hholding head hhold, hstart⟩
  | copying =>
    obtain ⟨head, ds, left, hhold, hrest⟩ := hstands
    rw [← hqueue] at hrest
    exact ⟨head, ds, left, hholding head hhold, hrest⟩

theorem Copying.keep {descStart len : UInt32} {next : UInt16}
    (hc : s.Copying taboo g descStart next len) (hkeep : s.Keeps g.bytes m) :
    s.Copying taboo ⟨m, g.size⟩ descStart next len := by
  obtain ⟨head, ds, left, hhold, hstart, hds, hleft, hsuffix, hroom⟩ := hc
  have hentries := hkeep.entries _ _ _ ⟨le_rfl, hhold.first⟩ hds
  refine ⟨head, ds, left, hhold, hstart, hds.of_entries hentries, hleft.congr rfl ?_, hsuffix,
    hroom⟩
  exact hleft.chain.of_entries fun j hj => hentries j (hsuffix.subset hj)

section Inv

variable (h : s.Inv taboo g)

include h

theorem Inv.used_le : s.used.length ≤ s.published.length := by
  have hle := h.order.length_le
  rwa [List.length_map] at hle

theorem Inv.size_le : s.queue.size.toNat ≤ 512 := h.placed.size_le

theorem Inv.slot_lt (k : Nat) :
    (UInt32.ofNat (k % s.queue.size.toNat)).toNat < s.queue.size.toNat := by
  rw [AvailRing.slot_toNat h.placed.size_pos h.size_le]
  exact Nat.mod_lt k h.placed.size_pos

theorem Inv.keeps_of_agree (hagree : ∀ ring ∈ rings s.queue, AgreeOn ring g.bytes m) :
    s.Keeps g.bytes m := by
  have htable := hagree s.queue.tableSpan (by simp [rings])
  have havail := hagree s.queue.availSpan (by simp [rings])
  constructor
  case used => exact hagree s.queue.usedSpan (by simp [rings])
  case idx => exact (havail.mono (Queue.availIdx_within h.placed.size_pos)).load16_eq.symm
  case slots =>
    intro k head _
    exact (havail.mono (Queue.availSlot_within h.size_le (h.slot_lt k))).load16_eq.symm
  case entries =>
    intro k head ds _ hchain i hi
    exact (Queue.entry_congr (hchain.index_lt i hi) htable).symm

theorem Inv.keep (hkeep : s.Keeps g.bytes m) : s.Inv taboo ⟨m, g.size⟩ := by
  constructor
  case placed => exact h.placed.congr rfl rfl rfl rfl rfl
  case table_avail => exact h.table_avail
  case mine => exact h.mine
  case ready => exact h.ready
  case few => exact h.few
  case window => exact h.window
  case idx => exact hkeep.idx.trans h.idx
  case slots => exact fun k head hout => (hkeep.slots k head hout).trans (h.slots k head hout)
  case offered =>
    intro k head hout
    obtain ⟨ds, hds⟩ := h.offered k head hout
    exact ⟨ds, hds.congr rfl (hds.chain.of_entries (hkeep.entries k head ds hout hds.chain))⟩
  case order => exact h.order
  case usedIdx =>
    exact (hkeep.used.mono (Queue.usedIdx_within h.placed.size_pos)).load16_eq.symm.trans h.usedIdx
  case usedIds =>
    intro k id hk hlast
    rw [← h.usedIds k id hk hlast]
    refine congrArg Prod.fst (Queue.usedElem_congr (hkeep.used.mono ?_)).symm
    exact Queue.usedElem_within h.size_le (h.slot_lt k)
  case buffer => exact h.buffer
  case stands =>
    have hstands := h.stands
    revert hstands
    generalize s.position = position
    cases position with
    | idle | taken | filled | gathered | copied => exact id
    | copying => exact fun hc => hc.keep hkeep

theorem Inv.move {counter : UInt32} {buffer : List UInt8} {position : Position α}
    (hbuffer : buffer.length = bufferLen)
    (hstands : Stands taboo { s with
      queue := { s.queue with lastAvail := counter }, buffer := buffer, position := position }
      g position) :
    Inv taboo { s with
      queue := { s.queue with lastAvail := counter }, buffer := buffer, position := position }
      g where
  placed := h.placed.congr rfl rfl rfl rfl rfl
  table_avail := h.table_avail
  mine := h.mine
  ready := h.ready
  few := h.few
  window := h.window
  idx := h.idx
  slots := h.slots
  offered := by
    intro k head hout
    obtain ⟨ds, hds⟩ := h.offered k head hout
    exact ⟨ds, hds.congr rfl (hds.chain.queue rfl rfl)⟩
  order := h.order
  usedIdx := h.usedIdx
  usedIds := h.usedIds
  buffer := hbuffer
  stands := hstands

end Inv

structure Follows (taboo : List Span) (s : Side α) (g : Guest) (s' : Side α) (g' : Guest) :
    Prop where
  inv : s'.Inv taboo g'
  same : rings s'.queue = rings s.queue
  size : g'.size = g.size
  frame : ∀ ring ∈ taboo, ring.Apart s.queue.availSpan → ring.Apart s.queue.usedSpan →
    AgreeOn ring g.bytes g'.bytes

section Follows

variable (h : s.Inv taboo g)

include h

theorem Inv.follows_move {counter : UInt32} {buffer : List UInt8} {position : Position α}
    (hbuffer : buffer.length = bufferLen)
    (hstands : Stands taboo { s with
      queue := { s.queue with lastAvail := counter }, buffer := buffer, position := position }
      g position) :
    Follows taboo s g { s with
      queue := { s.queue with lastAvail := counter }, buffer := buffer, position := position }
      g where
  inv := h.move hbuffer hstands
  same := rfl
  size := rfl
  frame := fun _ _ _ _ => AgreeOn.refl _ _

/-- An idle thread is given the first chain that is not completed, if there is one. -/
theorem Inv.next_eq (hidle : s.position = .idle) :
    s.queue.next g = .ok (s.published[s.used.length]?,
      { s.queue with lastAvail := s.queue.lastAvail +
        if s.used.length < s.published.length then 1 else 0 }) := by
  have hcounter : s.queue.lastAvail.toNat = s.used.length := by
    have hstands := h.stands
    rwa [hidle] at hstands
  have hidx : (load16 g.bytes s.queue.availIdxAddr).toNat = s.published.length := by
    rw [h.idx, UInt16.toNat_ofNat', Nat.mod_eq_of_lt h.few]
  by_cases hlt : s.used.length < s.published.length
  · have hfirst := List.getElem?_eq_getElem hlt
    have hslot := h.slots _ _ ⟨le_rfl, hfirst⟩
    obtain ⟨ds, hds⟩ := h.offered _ _ ⟨le_rfl, hfirst⟩
    unfold slot at hslot
    rw [← AvailRing.counter_slot h.placed.size_pos h.size_le hcounter] at hslot
    have hnext := Queue.next_some h.placed h.ready (by omega)
      (by rw [hslot]; exact hds.chain.head_lt.trans_le h.size_le)
    rw [hnext, hslot, hfirst, if_pos hlt]
  · rw [Queue.next_none h.placed (by omega), List.getElem?_eq_none (by omega), if_neg hlt,
      UInt32.add_zero]

theorem Inv.follows_next {taken : Option UInt16} {f : UInt16 → Position α}
    (hidle : s.position = .idle) (hn : s.queue.next g = .ok (taken, q))
    (hf : ∀ (s' : Side α) next, s'.Holding next → s'.Stands taboo g (f next)) :
    Follows taboo s g { s with queue := q, position := taken.elim .idle f } g := by
  have hcounter : s.queue.lastAvail.toNat = s.used.length := by
    have hstands := h.stands
    rwa [hidle] at hstands
  have hfew := h.few
  rw [h.next_eq hidle] at hn
  cases hn
  apply h.follows_move h.buffer
  by_cases hlt : s.used.length < s.published.length
  · rw [if_pos hlt, List.getElem?_eq_getElem hlt]
    apply hf
    refine ⟨?_, List.getElem?_eq_getElem hlt⟩
    change (s.queue.lastAvail + 1).toNat = s.used.length + 1
    rw [UInt32.toNat_add, hcounter]
    simp only [UInt32.reduceToNat]
    omega
  · rw [if_neg hlt, List.getElem?_eq_none (by omega), UInt32.add_zero]
    exact hcounter

theorem Inv.follows_popBack {next : UInt16} (htaken : s.position = .taken next) :
    Follows taboo s g { s with queue := s.queue.popBack, position := .idle } g := by
  have hhold : s.Holding next := by
    have hstands := h.stands
    rwa [htaken] at hstands
  have hcounter := hhold.counter
  apply h.follows_move h.buffer
  change (s.queue.lastAvail - 1).toNat = s.used.length
  have hone : (1 : UInt32) ≤ s.queue.lastAvail := by
    rw [UInt32.le_iff_toNat_le, hcounter]
    simp only [UInt32.reduceToNat]
    omega
  rw [UInt32.toNat_sub_of_le _ _ hone, hcounter]
  rfl

theorem Inv.availId_eq (hhold : s.Holding head) : s.queue.availId g = .ok head := by
  have hcancel : s.queue.lastAvail - 1 + 1 = s.queue.lastAvail := UInt32.sub_add_cancel _ _
  have hcounter : (s.queue.lastAvail - 1).toNat = s.used.length := by
    have hlast := hhold.counter
    have hone : (1 : UInt32) ≤ s.queue.lastAvail := by
      rw [UInt32.le_iff_toNat_le, hlast]
      simp only [UInt32.reduceToNat]
      omega
    rw [UInt32.toNat_sub_of_le _ _ hone, hlast]
    rfl
  have hslot := h.slots _ _ ⟨le_rfl, hhold.first⟩
  unfold slot at hslot
  rw [Queue.availId_ok h.placed, ← hslot]
  congr 3
  apply UInt32.toNat_inj.mp
  rw [UInt32.toNat_mod, AvailRing.slot_toNat h.placed.size_pos h.size_le, hcounter]

theorem Inv.follows_between {buffer : List UInt8} {position : Position α}
    (hagree : ∀ ring ∈ taboo, AgreeOn ring g.bytes m) (hbuffer : buffer.length = bufferLen)
    (hstands : s.Stands taboo ⟨m, g.size⟩ position) :
    Follows taboo s g { s with buffer := buffer, position := position } ⟨m, g.size⟩ where
  inv := (h.keep (h.keeps_of_agree fun ring hring => hagree ring (h.mine ring hring))).move
    hbuffer (hstands.congr rfl rfl rfl)
  same := rfl
  size := rfl
  frame := fun ring hring _ _ => hagree ring hring

theorem Inv.follows_availId {next id : UInt16} {told : α} (hfilled : s.position = .filled next told)
    (hid : s.queue.availId g = .ok id) :
    Follows taboo s g { s with position := .copying told id.toUInt32 next 0 } g := by
  have hhold : s.Holding next := by
    have hstands := h.stands
    rwa [hfilled] at hstands
  rw [h.availId_eq hhold] at hid
  cases hid
  obtain ⟨ds, hds⟩ := h.offered _ _ ⟨le_rfl, hhold.first⟩
  refine h.follows_between (fun _ _ => AgreeOn.refl _ _) h.buffer ⟨next, ds, ds, hhold, rfl,
    hds.chain, hds, List.suffix_rfl, ?_⟩
  rw [UInt32.toNat_zero, Nat.zero_add]
  exact hds.fits

end Follows

/-! One descriptor of a chain. -/

section Copy

variable {descStart len : UInt32} {next : UInt16}

theorem Copying.holding (hc : s.Copying taboo g descStart next len) :
    ∃ head, s.Holding head ∧ descStart = head.toUInt32 := by
  obtain ⟨head, -, -, hhold, hstart, -⟩ := hc
  exact ⟨head, hhold, hstart⟩

theorem Copying.first (hc : s.Copying taboo g descStart next len) :
    next.toNat < s.queue.size.toNat ∧
      g.Holds (s.queue.entry g.bytes next).addr (s.queue.entry g.bytes next).len.toNat ∧
      (∀ ring ∈ taboo, ring.Apart (s.queue.entry g.bytes next).span) ∧
      len.toNat + (s.queue.entry g.bytes next).len.toNat ≤ bufferLen := by
  obtain ⟨head, ds, left, -, -, -, hleft, -, hroom⟩ := hc
  cases left with
  | nil => exact hleft.chain.elim
  | cons d left =>
    have hentry : s.queue.entry g.bytes next = d := hleft.chain.2.1
    rw [spans_cons, totalLen_cons] at hroom
    rw [hentry]
    refine ⟨hleft.chain.1, hleft.held d List.mem_cons_self, hleft.apart d List.mem_cons_self, ?_⟩
    exact (Nat.add_le_add_left (Nat.le_add_right _ _) _).trans hroom

theorem Copying.goes_on (hc : s.Copying taboo g descStart next len)
    (hnext : (s.queue.entry g.bytes next).hasNext = true) {len' : UInt32}
    (hlen : len'.toNat ≤ len.toNat + (s.queue.entry g.bytes next).len.toNat) :
    s.Copying taboo g descStart (s.queue.entry g.bytes next).next len' := by
  obtain ⟨head, ds, left, hhold, hstart, hds, hleft, hsuffix, hroom⟩ := hc
  cases left with
  | nil => exact hleft.chain.elim
  | cons d left =>
    have hentry : s.queue.entry g.bytes next = d := hleft.chain.2.1
    rw [hentry] at hnext hlen ⊢
    rw [spans_cons, totalLen_cons] at hroom
    change len.toNat + (d.len.toNat + totalLen (spans left)) ≤ bufferLen at hroom
    cases left with
    | nil =>
      have hlast : d.hasNext = false := hleft.chain.2.2
      rw [hnext] at hlast
      contradiction
    | cons e left =>
      refine ⟨head, ds, e :: left, hhold, hstart, hds, hleft.rest, ?_, by omega⟩
      exact (List.suffix_cons _ _).trans hsuffix

def Resumes (taboo : List Span) (s : Side α) (g : Guest) (descStart len : UInt32) :
    Option UInt16 → Prop
  | none => ∃ head, s.Holding head ∧ descStart = head.toUInt32
  | some next => s.Copying taboo g descStart next len

/-- The scatter loop goes on without a fault, whatever `::read` has returned. -/
theorem Inv.rxIterate_ok (h : s.Inv taboo g) (hc : s.Copying taboo g descStart next len)
    (size : Int) : ∃ m len' next',
      rxIterate s.queue s.buffer size g next len = .ok (⟨m, g.size⟩, len', next') ∧
        (∀ ring ∈ taboo, AgreeOn ring g.bytes m) ∧
        s.Resumes taboo ⟨m, g.size⟩ descStart len' next' := by
  obtain ⟨hi, hheld, hapart, hroom⟩ := hc.first
  generalize hd : s.queue.entry g.bytes next = d at hheld hapart hroom
  have hle : (writeLen size len d).toNat ≤ d.len.toNat := min_toNat_le _ _
  have hread : hostRead s.buffer len.toNat (writeLen size len d).toNat =
      .ok (slice s.buffer len.toNat (writeLen size len d).toNat) := by
    apply if_pos
    rw [h.buffer]
    omega
  have hshort : (slice s.buffer len.toNat (writeLen size len d).toNat).length ≤ d.len.toNat :=
    (List.length_take_le _ _).trans hle
  have hsum : (len + writeLen size len d).toNat ≤ len.toNat + d.len.toNat := by
    rw [UInt32.toNat_add]
    exact (Nat.mod_le _ _).trans (Nat.add_le_add_left hle _)
  have hagree : ∀ ring ∈ taboo, AgreeOn ring g.bytes
      (store g.bytes d.addr (slice s.buffer len.toNat (writeLen size len d).toNat)) :=
    fun ring hring => (AgreeOn.refl _ _).store
      ((hapart ring hring).mono (Span.Within.refl _) (Span.within_of_le hshort))
  have hiterate : rxIterate s.queue s.buffer size g next len = (do
      let g ← g.write d.addr (slice s.buffer len.toNat (writeLen size len d).toNat)
      if ((len + writeLen size len d).toNat : Int) = size then
        .ok (g, len + writeLen size len d, none)
      else
        let d' ← s.queue.descriptor g next
        if d'.hasNext then
          let next ← descriptorIndex d'.next
          .ok (g, len + writeLen size len d, some next)
        else .ok (g, len + writeLen size len d, none)) := by
    unfold rxIterate
    rw [Queue.descriptor_ok h.placed hi, hd, ok_bind]
    change (hostRead s.buffer len.toNat (writeLen size len d).toNat >>= _) = _
    rw [hread]
    rfl
  rw [hiterate, Guest.write_ok (hheld.mono hshort), ok_bind]
  generalize store g.bytes d.addr (slice s.buffer len.toNat (writeLen size len d).toNat) = m
    at hagree
  generalize len + writeLen size len d = len' at hsum
  have hkeep := h.keeps_of_agree fun ring hring => hagree ring (h.mine ring hring)
  have hc' := hc.keep hkeep
  have hd' : s.queue.entry m next = d := by
    rw [← hd]
    exact (Queue.entry_congr hi (hagree _ (h.mine _ List.mem_cons_self))).symm
  split
  · exact ⟨m, len', none, rfl, hagree, hc.holding⟩
  · rw [Queue.descriptor_ok (h.keep hkeep).placed hi, ok_bind]
    dsimp only
    rw [hd']
    by_cases hnext : d.hasNext = true
    · rw [← hd'] at hnext hsum
      have hrest := hc'.goes_on hnext hsum
      rw [hd'] at hnext hrest
      rw [if_pos hnext, Queue.descriptorIndex_ok h.size_le hrest.first.1, ok_bind]
      exact ⟨m, len', some d.next, rfl, hagree, hrest⟩
    · rw [if_neg hnext]
      exact ⟨m, len', none, rfl, hagree, hc.holding⟩

theorem Inv.txIterate_ok (h : s.Inv taboo g) (hc : s.Copying taboo g descStart next len) :
    ∃ buffer len' next', txIterate s.queue s.buffer g next len = .ok (buffer, len', next') ∧
      buffer.length = bufferLen ∧ s.Resumes taboo g descStart len' next' := by
  obtain ⟨hi, hheld, -, hroom⟩ := hc.first
  have hsum : (len + (s.queue.entry g.bytes next).len).toNat ≤
      len.toNat + (s.queue.entry g.bytes next).len.toNat := by
    rw [UInt32.toNat_add]
    exact Nat.mod_le _ _
  have hnext := fun hn => hc.goes_on hn hsum
  generalize hd : s.queue.entry g.bytes next = d at hheld hroom hnext
  have hload : (load g.bytes d.addr d.len.toNat).length = d.len.toNat := length_load _ _ _
  have hcopy : hostRoom s.buffer len.toNat d.len.toNat = .ok () := by
    apply if_pos
    rw [h.buffer]
    exact Or.inr hroom
  have hbuffer : (splice s.buffer len.toNat (load g.bytes d.addr d.len.toNat)).length =
      bufferLen := by
    rw [length_splice _ _ (by rw [hload, h.buffer]; exact hroom), h.buffer]
  unfold txIterate
  rw [Queue.descriptor_ok h.placed hi, hd, ok_bind, hcopy, ok_bind, Guest.read_ok hheld, ok_bind]
  dsimp only
  by_cases hn : d.hasNext = true
  · have hrest := hnext hn
    rw [if_pos hn, Queue.descriptorIndex_ok h.size_le hrest.first.1, ok_bind]
    exact ⟨_, _, some d.next, rfl, hbuffer, hrest⟩
  · rw [if_neg hn]
    exact ⟨_, _, none, rfl, hbuffer, hc.holding⟩

end Copy

theorem Outstanding.of_publish {k : Nat} {x : UInt16}
    (hout : (s.afterPublish head).Outstanding k x) :
    s.Outstanding k x ∨ k = s.published.length ∧ x = head := by
  obtain ⟨hk, hx⟩ := hout
  change (s.published ++ [head])[k]? = some x at hx
  rcases Nat.lt_trichotomy k s.published.length with hold | rfl | hbeyond
  · rw [List.getElem?_append_left hold] at hx
    exact Or.inl ⟨hk, hx⟩
  · rw [List.getElem?_concat_length, Option.some.injEq] at hx
    exact Or.inr ⟨rfl, hx.symm⟩
  · rw [List.getElem?_eq_none (by rw [List.length_append, List.length_singleton]; omega)] at hx
    contradiction

section Follows

variable (h : s.Inv taboo g)

include h

theorem Inv.follows_addUsed {descStart len : UInt32} {idx : UInt16}
    (hcopied : s.position = .copied descStart len)
    (hadd : s.queue.addUsed g descStart len = .ok (idx, g')) :
    Follows taboo s g (s.afterAddUsed descStart) g' := by
  have hpos := h.placed.size_pos
  have hle := h.size_le
  obtain ⟨head, hhold, rfl⟩ : ∃ head, s.Holding head ∧ descStart = head.toUInt32 := by
    have hstands := h.stands
    rwa [hcopied] at hstands
  rw [Queue.addUsed_ok h.placed] at hadd
  cases hadd
  have hagree : ∀ span : Span, span.Apart s.queue.usedSpan →
      AgreeOn span g.bytes (s.queue.afterAddUsed g.bytes head.toUInt32 len) :=
    fun span hspan => Queue.afterAddUsed_agree hpos hle hspan _ _ _
  have havail := hagree _ h.placed.avail_used
  have hlen : (s.used ++ [head.toUInt32]).length = s.used.length + 1 := List.length_append
  have hfew := h.few
  have hlt : s.used.length < s.published.length := by
    rcases Nat.lt_or_ge s.used.length s.published.length with hlt | hge
    · exact hlt
    · have hfirst := hhold.first
      rw [List.getElem?_eq_none hge] at hfirst
      contradiction
  refine ⟨?_, rfl, rfl, fun ring _ _ hused => hagree ring hused⟩
  constructor
  case placed => exact h.placed.congr rfl rfl rfl rfl rfl
  case table_avail => exact h.table_avail
  case mine => exact h.mine
  case ready => exact h.ready
  case few => exact h.few
  case window =>
    have hwindow := h.window
    change s.published.length ≤ (s.used ++ [head.toUInt32]).length + s.queue.size.toNat
    omega
  case idx => exact (havail.mono (Queue.availIdx_within hpos)).load16_eq.symm.trans h.idx
  case slots =>
    rintro k head' ⟨hk, hpublished⟩
    change (s.used ++ [head.toUInt32]).length ≤ k at hk
    have hslot := (havail.mono (Queue.availSlot_within hle (h.slot_lt k))).load16_eq
    exact hslot.symm.trans (h.slots k head' ⟨by omega, hpublished⟩)
  case offered =>
    rintro k head' ⟨hk, hpublished⟩
    change (s.used ++ [head.toUInt32]).length ≤ k at hk
    obtain ⟨ds, hds⟩ := h.offered k head' ⟨by omega, hpublished⟩
    exact ⟨ds, hds.congr rfl (hds.chain.congr (hagree _ h.placed.table_used))⟩
  case order =>
    have hlt' : s.used.length < (s.published.map UInt16.toUInt32).length := by
      rwa [List.length_map]
    have hhead : s.published[s.used.length] = head :=
      Option.some.inj ((List.getElem?_eq_getElem hlt).symm.trans hhold.first)
    have hnext := List.concat_get_prefix h.order hlt'
    rw [List.get_eq_getElem, List.getElem_map, hhead] at hnext
    exact hnext
  case usedIdx =>
    change load16 (s.queue.afterAddUsed g.bytes head.toUInt32 len) s.queue.usedIdxAddr =
      UInt16.ofNat (s.used ++ [head.toUInt32]).length
    rw [Queue.afterAddUsed_idx, h.usedIdx, hlen, UInt16.ofNat_add]
    rfl
  case usedIds =>
    -- the element that `add_used` fills is the one of the new number
    have hslot : s.queue.usedSlot (load16 g.bytes s.queue.usedIdxAddr) =
        UInt32.ofNat (s.used.length % s.queue.size.toNat) := by
      apply UInt32.toNat_inj.mp
      unfold Queue.usedSlot
      rw [AvailRing.slot_toNat hpos hle, UInt32.toNat_mod, UInt16.toNat_toUInt32, h.usedIdx,
        UInt16.toNat_ofNat', Nat.mod_eq_of_lt (a := s.used.length) (by omega)]
    intro k id hk hlast
    change (s.used ++ [head.toUInt32])[k]? = some id at hk
    change (s.used ++ [head.toUInt32]).length ≤ k + s.queue.size.toNat at hlast
    change (s.queue.usedElem (s.queue.afterAddUsed g.bytes head.toUInt32 len)
      (UInt32.ofNat (k % s.queue.size.toNat))).1 = id
    rcases Nat.lt_trichotomy k s.used.length with hold | rfl | hbeyond
    · rw [List.getElem?_append_left hold] at hk
      have hne : k % s.queue.size.toNat ≠ s.used.length % s.queue.size.toNat :=
        mod_ne_of_window hold (by omega)
      rw [Queue.usedElem_kept hpos hle]
      · exact h.usedIds k id hk (by omega)
      · exact (h.slot_lt k).trans_le hle
      · rw [hslot]
        intro heq
        apply hne
        rw [← AvailRing.slot_toNat hpos hle, heq, AvailRing.slot_toNat hpos hle]
    · rw [List.getElem?_concat_length, Option.some.injEq] at hk
      rw [← hslot, Queue.usedElem_added hpos hle, hk]
    · rw [List.getElem?_eq_none (by omega)] at hk
      contradiction
  case buffer => exact h.buffer
  case stands => exact hhold.counter.trans hlen.symm

theorem Inv.follows_publish (hmay : s.MayPublish taboo g head) :
    Follows taboo s g (s.afterPublish head) (s.publishIdx g) := by
  have hpos := h.placed.size_pos
  have hidx : Span.Within ⟨s.queue.availIdxAddr, 2⟩ s.queue.availSpan := Queue.availIdx_within hpos
  have hlen : (s.published ++ [head]).length = s.published.length + 1 := List.length_append
  have hagree : ∀ span : Span, span.Apart s.queue.availSpan →
      AgreeOn span g.bytes (s.publishIdx g).bytes :=
    fun span hspan => (AgreeOn.refl _ _).store16 (hspan.mono (Span.Within.refl _) hidx)
  have hslots : ∀ k, load16 (s.publishIdx g).bytes (s.slot k) = load16 g.bytes (s.slot k) := by
    intro k
    have hkept := (AgreeOn.refl ⟨s.slot k, 2⟩ g.bytes).store16
      (v := UInt16.ofNat (s.published.length + 1))
      (Queue.availIdx_apart_slot (q := s.queue) ((h.slot_lt k).trans_le h.size_le)).symm
    exact hkept.load16_eq.symm
  have hused := hagree _ h.placed.avail_used.symm
  have htable := hagree _ h.table_avail
  have hfirst : ∀ {k : Nat} {x}, s.published[k]? = some x →
      (s.published ++ [head])[k]? = some x := by
    intro k x hk
    rw [List.getElem?_append_left (List.getElem?_eq_some_iff.mp hk).1, hk]
  refine ⟨?_, rfl, rfl, fun ring _ havail _ => hagree ring havail⟩
  constructor
  case placed => exact h.placed.congr rfl rfl rfl rfl rfl
  case table_avail => exact h.table_avail
  case mine => exact h.mine
  case ready => exact h.ready
  case few =>
    change (s.published ++ [head]).length < 2 ^ 16
    rw [hlen]
    exact hmay.few
  case window =>
    change (s.published ++ [head]).length ≤ s.used.length + s.queue.size.toNat
    rw [hlen]
    exact hmay.room
  case idx =>
    change load16 (store16 g.bytes s.queue.availIdxAddr _) s.queue.availIdxAddr =
      UInt16.ofNat (s.published ++ [head]).length
    rw [load16_store16, hlen]
  case slots =>
    intro k x hout
    refine (hslots k).trans ?_
    rcases hout.of_publish with hold | ⟨rfl, rfl⟩
    · exact h.slots k x hold
    · exact hmay.slot
  case offered =>
    intro k x hout
    obtain ⟨ds, hds⟩ : ∃ ds, Offered taboo s.queue g x ds := by
      rcases hout.of_publish with hold | ⟨rfl, rfl⟩
      · exact h.offered k x hold
      · exact hmay.offered
    exact ⟨ds, hds.congr rfl (hds.chain.congr htable)⟩
  case order => exact h.order.trans ((List.prefix_append s.published [head]).map _)
  case usedIdx => exact (hused.mono (Queue.usedIdx_within hpos)).load16_eq.symm.trans h.usedIdx
  case usedIds =>
    intro k id hk hlast
    rw [← h.usedIds k id hk hlast]
    refine congrArg Prod.fst (Queue.usedElem_congr (hused.mono ?_)).symm
    exact Queue.usedElem_within h.size_le (h.slot_lt k)
  case buffer => exact h.buffer
  case stands =>
    have hstands := h.stands
    revert hstands
    change s.Stands taboo g s.position →
      (s.afterPublish head).Stands taboo (s.publishIdx g) s.position
    generalize s.position = position
    cases position with
    | idle => exact id
    | taken | filled => exact fun hhold => ⟨hhold.counter, hfirst hhold.first⟩
    | gathered | copied =>
      rintro ⟨head', hhold, hstart⟩
      exact ⟨head', ⟨hhold.counter, hfirst hhold.first⟩, hstart⟩
    | copying =>
      rintro ⟨head', ds, left, hhold, hstart, hds, hleft, hsuffix, hroom⟩
      exact ⟨head', ds, left, ⟨hhold.counter, hfirst hhold.first⟩, hstart, hds.congr htable,
        hleft.congr rfl (hleft.chain.congr htable), hsuffix, hroom⟩

end Follows

theorem Resumes.stands {descStart len : UInt32} {next : Option UInt16} {position : Position α}
    {f : UInt16 → Position α} (hresumes : s.Resumes taboo g descStart len next)
    (hdone : (∃ head, s.Holding head ∧ descStart = head.toUInt32) → s.Stands taboo g position)
    (hf : ∀ next, s.Copying taboo g descStart next len → s.Stands taboo g (f next)) :
    s.Stands taboo g (next.elim position f) := by
  cases next with
  | none => exact hdone hresumes
  | some next => exact hf next hresumes

end Side

section Sides

variable {taboo : List Span} {g g' : Guest} {act : Act}

theorem RxStep.follows {s s' : Side Int} (hs : RxStep taboo s g act s' g')
    (h : s.Inv taboo g) : s.Follows taboo g s' g' := by
  have hstands := h.stands
  cases hs with
  | publish hmay => exact h.follows_publish hmay
  | next hidle hn => exact h.follows_next hidle hn fun _ _ hhold => hhold
  | timeout htaken => exact h.follows_popBack htaken
  | receive htaken packet hpacket =>
    rw [htaken] at hstands
    have hbuffer : (staging s.buffer packet).length = bufferLen := by
      unfold staging
      rw [List.length_append, List.length_drop, h.buffer]
      omega
    exact h.follows_between (fun _ _ => AgreeOn.refl _ _) hbuffer hstands
  | availId hfilled hid => exact h.follows_availId hfilled hid
  | copy hcopying hloop =>
    rw [hcopying] at hstands
    obtain ⟨m, len', next', hok, hagree, hresumes⟩ := h.rxIterate_ok hstands _
    rw [hok] at hloop
    cases hloop
    refine h.follows_between hagree h.buffer (hresumes.stands ?_ ?_)
    · exact id
    · exact fun _ hc => hc
  | addUsed hcopied hadd => exact h.follows_addUsed hcopied hadd

theorem TxStep.follows {s s' : Side Unit} (hs : TxStep taboo s g act s' g')
    (h : s.Inv taboo g) : s.Follows taboo g s' g' := by
  have hstands := h.stands
  cases hs with
  | publish hmay => exact h.follows_publish hmay
  | next hidle hn => exact h.follows_next hidle hn fun _ _ hhold => hhold
  | availId hfilled hid => exact h.follows_availId hfilled hid
  | copy hcopying hloop =>
    rw [hcopying] at hstands
    obtain ⟨buffer, len', next', hok, hbuffer, hresumes⟩ := h.txIterate_ok hstands
    rw [hok] at hloop
    cases hloop
    refine h.follows_between (fun _ _ => AgreeOn.refl _ _) hbuffer (hresumes.stands ?_ ?_)
    · exact id
    · exact fun _ hc => hc
  | write hgathered ret =>
    rw [hgathered] at hstands
    exact h.follows_between (fun _ _ => AgreeOn.refl _ _) h.buffer hstands
  | addUsed hcopied hadd => exact h.follows_addUsed hcopied hadd

/-- The receive thread always has a move of its own, and no call of it faults. -/
theorem Side.Inv.rx_goes_on {s : Side Int} (h : s.Inv taboo g)
    (hposition : ∀ descStart written, s.position ≠ .gathered descStart written) :
    ∃ act s' g', act.ofDevice ∧ act ≠ .timeout ∧ RxStep taboo s g act s' g' := by
  have hstands := h.stands
  cases hat : s.position with
  | idle => exact ⟨.next, _, _, trivial, by decide, RxStep.next hat (h.next_eq hat)⟩
  | taken next =>
    exact ⟨.receive none, _, _, trivial, by decide, RxStep.receive hat none (Nat.zero_le _)⟩
  | filled next size =>
    rw [hat] at hstands
    exact ⟨.availId, _, _, trivial, by decide, RxStep.availId hat (h.availId_eq hstands)⟩
  | copying size descStart next len =>
    rw [hat] at hstands
    obtain ⟨m, len', next', hok, -, -⟩ := h.rxIterate_ok hstands size
    exact ⟨.copy, _, _, trivial, by decide, RxStep.copy hat hok⟩
  | gathered descStart written => exact absurd hat (hposition descStart written)
  | copied descStart len =>
    have hok := Queue.addUsed_ok h.placed descStart len
    exact ⟨.addUsed, _, _, trivial, by decide, RxStep.addUsed hat hok⟩

theorem Side.Inv.tx_goes_on {s : Side Unit} (h : s.Inv taboo g)
    (hposition : ∀ next, s.position ≠ .taken next) :
    ∃ act s' g', act.ofDevice ∧ act ≠ .timeout ∧ TxStep taboo s g act s' g' := by
  have hstands := h.stands
  cases hat : s.position with
  | idle => exact ⟨.next, _, _, trivial, by decide, TxStep.next hat (h.next_eq hat)⟩
  | taken next => exact absurd hat (hposition next)
  | filled next =>
    rw [hat] at hstands
    exact ⟨.availId, _, _, trivial, by decide, TxStep.availId hat (h.availId_eq hstands)⟩
  | copying told descStart next written =>
    rw [hat] at hstands
    obtain ⟨buffer, written', next', hok, -, -⟩ := h.txIterate_ok hstands
    exact ⟨.copy, _, _, trivial, by decide, TxStep.copy hat hok⟩
  | gathered descStart written => exact ⟨.write 0, _, _, trivial, by decide, TxStep.write hat 0⟩
  | copied descStart len =>
    have hok := Queue.addUsed_ok h.placed descStart len
    exact ⟨.addUsed, _, _, trivial, by decide, TxStep.addUsed hat hok⟩

end Sides

structure Side.Start {α : Type} (s : Side α) (g : Guest) : Prop where
  placed : s.queue.Placed g
  ready : s.queue.ready = true
  counter : s.queue.lastAvail = 0
  availIdx : load16 g.bytes s.queue.availIdxAddr = 0
  usedIdx : load16 g.bytes s.queue.usedIdxAddr = 0
  buffer : s.buffer.length = bufferLen
  idle : s.position = .idle
  published : s.published = []
  used : s.used = []

structure Start (s : State) : Prop where
  rx : s.rx.Start s.guest
  tx : s.tx.Start s.guest
  apart : s.rings.Pairwise Span.Apart

structure Inv (s : State) : Prop where
  rx : s.rx.Inv s.rings s.guest
  tx : s.tx.Inv s.rings s.guest
  apart : s.rings.Pairwise Span.Apart
  rx_position : ∀ descStart written, s.rx.position ≠ .gathered descStart written
  tx_position : ∀ next, s.tx.position ≠ .taken next

section Run

theorem Side.inv_start {α : Type} {taboo : List Span} {s : Side α} {g : Guest} (h : s.Start g)
    (hmine : ∀ ring ∈ rings s.queue, ring ∈ taboo) (hapart : (rings s.queue).Pairwise Span.Apart) :
    s.Inv taboo g := by
  have hnone : ∀ k head, ¬ s.Outstanding k head := by
    rintro k head ⟨-, hk⟩
    rw [h.published] at hk
    contradiction
  constructor
  case placed => exact h.placed
  case table_avail => exact (List.pairwise_cons.mp hapart).1 _ List.mem_cons_self
  case mine => exact hmine
  case ready => exact h.ready
  case few => rw [h.published]; decide
  case window => rw [h.published]; exact Nat.zero_le _
  case idx => rw [h.availIdx, h.published]; rfl
  case slots => exact fun k head hout => absurd hout (hnone k head)
  case offered => exact fun k head hout => absurd hout (hnone k head)
  case order => rw [h.used]; exact List.nil_prefix
  case usedIdx => rw [h.usedIdx, h.used]; rfl
  case usedIds =>
    intro k id hk
    rw [h.used] at hk
    contradiction
  case buffer => exact h.buffer
  case stands =>
    rw [h.idle]
    change s.queue.lastAvail.toNat = s.used.length
    rw [h.counter, h.used]
    rfl

theorem inv_start {s : State} (h : Start s) : Inv s := by
  obtain ⟨hrx, htx, -⟩ := List.pairwise_append.mp h.apart
  constructor
  case rx => exact Side.inv_start h.rx (fun _ hring => List.mem_append_left _ hring) hrx
  case tx => exact Side.inv_start h.tx (fun _ hring => List.mem_append_right _ hring) htx
  case apart => exact h.apart
  case rx_position =>
    rw [h.rx.idle]
    exact nofun
  case tx_position =>
    rw [h.tx.idle]
    exact nofun

theorem Side.Follows.other {α β : Type} {taboo : List Span} {s s' : Side α} {t : Side β}
    {g g' : Guest} (hfollows : s.Follows taboo g s' g') (h : t.Inv taboo g)
    (hapart : ∀ ring ∈ rings t.queue, ∀ mine ∈ rings s.queue, ring.Apart mine) :
    t.Inv taboo g' := by
  have hkeep := h.keep (h.keeps_of_agree fun ring hring =>
    hfollows.frame ring (h.mine ring hring) (hapart ring hring _ (by simp [rings]))
      (hapart ring hring _ (by simp [rings])))
  rw [← hfollows.size] at hkeep
  exact hkeep

theorem inv_step (s : State) (e : Event) (s' : State) (h : Inv s) (hs : Step s e s') : Inv s' := by
  obtain ⟨-, -, hcross⟩ := List.pairwise_append.mp h.apart
  have hrx_position := h.rx_position
  have htx_position := h.tx_position
  cases hs with
  | memory hrx htx =>
    exact ⟨h.rx.keep hrx, h.tx.keep htx, h.apart, hrx_position, htx_position⟩
  | @rx act side g hrx =>
    have hfollows := hrx.follows h.rx
    have hrings : State.rings { s with rx := side, guest := g } = s.rings := by
      unfold State.rings
      rw [hfollows.same]
    constructor
    case rx => rw [hrings]; exact hfollows.inv
    case tx =>
      rw [hrings]
      exact hfollows.other h.tx fun ring hring mine hmine => (hcross mine hmine ring hring).symm
    case apart => rw [hrings]; exact h.apart
    case rx_position =>
      cases hrx with
      | @next taken => cases taken <;> exact nofun
      | @copy _ _ _ _ _ next' => cases next' <;> exact nofun
      | publish => exact hrx_position
      | _ => exact nofun
    case tx_position => exact htx_position
  | @tx act side g htx =>
    have hfollows := htx.follows h.tx
    have hrings : State.rings { s with tx := side, guest := g } = s.rings := by
      unfold State.rings
      rw [hfollows.same]
    constructor
    case rx => rw [hrings]; exact hfollows.other h.rx hcross
    case tx => rw [hrings]; exact hfollows.inv
    case apart => rw [hrings]; exact h.apart
    case rx_position => exact hrx_position
    case tx_position =>
      cases htx with
      | @next taken => cases taken <;> exact nofun
      | @copy _ _ _ _ next' => cases next' <;> exact nofun
      | publish => exact htx_position
      | _ => exact nofun

theorem inv_run {start s : State} {moves : List (Move State Event)} (h : Start start)
    (run : Run Step start moves s) : Inv s :=
  run.invariant (inv_start h) inv_step

end Run

/-- The used ring lists the published chains from the first one on, each of them once; the
elements are those of the last round of the ring. -/
structure Side.Exact {α : Type} (s : Side α) (g : Guest) : Prop where
  order : s.used <+: s.published.map UInt16.toUInt32
  idx : (load16 g.bytes s.queue.usedIdxAddr).toNat = s.used.length
  ids : ∀ k id, s.used[k]? = some id → s.used.length ≤ k + s.queue.size.toNat →
    (s.queue.usedElem g.bytes (UInt32.ofNat (k % s.queue.size.toNat))).1 = id
  /-- The next call takes up the first chain that is not on it. -/
  next : s.position = .idle → ∃ q, s.queue.next g = .ok (s.published[s.used.length]?, q)

theorem Side.Inv.exact {α : Type} {taboo : List Span} {s : Side α} {g : Guest}
    (h : s.Inv taboo g) : s.Exact g where
  order := h.order
  idx := by
    have hle := h.used_le
    have hfew := h.few
    rw [h.usedIdx, UInt16.toNat_ofNat', Nat.mod_eq_of_lt (by omega)]
  ids := h.usedIds
  next := fun hidle => ⟨_, h.next_eq hidle⟩

/-- A call of `update_rx` whose poll times out, with moves of the others in between: it
writes nothing, and of its queue only what the driver has published is new. -/
structure GivenBack (s₁ s₂ s₃ s₄ : State) : Prop where
  next : s₂.guest = s₁.guest
  popBack : s₄.guest = s₃.guest
  side : s₄.rx = { s₁.rx with published := s₄.rx.published }

theorem others_keep_rx {s s' : State} {e : Event} (hs : Step s e s') (hother : ¬ e.ofRx) :
    s'.rx = { s.rx with published := s'.rx.published } := by
  cases hs with
  | memory | tx => rfl
  | rx h =>
    cases h with
    | publish => rfl
    | _ => exact absurd trivial hother

theorem given_back {s₁ s₂ s₃ s₄ : State} {mid : List (Move State Event)}
    (hnext : Step s₁ (.rx .next) s₂) (run : Run Step s₂ mid s₃)
    (hothers : ∀ move ∈ mid, ¬ move.label.ofRx) (htimeout : Step s₃ (.rx .timeout) s₄) :
    GivenBack s₁ s₂ s₃ s₄ := by
  have hkept : s₃.rx = { s₂.rx with published := s₃.rx.published } := by
    have hguarded : Run (guarded Step fun _ e => ¬ e.ofRx) s₂ mid s₃ := run.guarded hothers
    refine hguarded.invariant (I := fun s => s.rx = { s₂.rx with published := s.rx.published })
      rfl ?_
    rintro s e s' hs ⟨hother, hstep⟩
    rw [others_keep_rx hstep hother, hs]
  cases hnext with
  | rx hrx =>
    cases hrx with
    | @next taken q hidle hn =>
      cases htimeout with
      | rx hrx' =>
        cases hrx' with
        | timeout htaken =>
          refine ⟨rfl, rfl, ?_⟩
          have hposition := htaken.symm.trans (congrArg Side.position hkept)
          cases taken with
          | none => contradiction
          | some head =>
            obtain ⟨-, rfl, -⟩ := Queue.next_takes hn
            -- what `next()` added to the counter `pop_back()` takes off again
            have hback : Queue.popBack { s₁.rx.queue with
                lastAvail := s₁.rx.queue.lastAvail + 1 } = s₁.rx.queue := by
              unfold Queue.popBack
              dsimp only
              rw [UInt32.add_sub_cancel]
            dsimp only
            rw [hkept]
            dsimp only
            rw [hback, hidle]

section Claim

variable {start s : State} {moves : List (Move State Event)}

/-- However the polls, the tap and the driver behave and the threads interleave, both used
rings list what was published in this order, the threads go on, and a call that times out
gives back what it took. -/
theorem net_exact (h : Start start) (run : Run Step start moves s) :
    (s.rx.Exact s.guest ∧ s.tx.Exact s.guest) ∧
    ((∃ act s', act.ofDevice ∧ Step s (.rx act) s') ∧
      ∃ act s', act.ofDevice ∧ Step s (.tx act) s') ∧
    ∀ {s₁ s₂ s₃ s₄ : State} {mid : List (Move State Event)}, Step s₁ (.rx .next) s₂ →
      Run Step s₂ mid s₃ → (∀ move ∈ mid, ¬ move.label.ofRx) → Step s₃ (.rx .timeout) s₄ →
      GivenBack s₁ s₂ s₃ s₄ := by
  have hinv := inv_run h run
  obtain ⟨rxAct, rx, g, hrxAct, -, hrx⟩ := hinv.rx.rx_goes_on hinv.rx_position
  obtain ⟨txAct, tx, g', htxAct, -, htx⟩ := hinv.tx.tx_goes_on hinv.tx_position
  refine ⟨⟨hinv.rx.exact, hinv.tx.exact⟩, ⟨?_, ?_⟩, given_back⟩
  · exact ⟨rxAct, _, hrxAct, Step.rx hrx⟩
  · exact ⟨txAct, _, htxAct, Step.tx htx⟩

end Claim

/-! Two queues of four, and one chain for the receive queue: it is taken, given back, taken
again and filled with a packet of one byte. -/

def twoQueues : State where
  guest := ⟨image [(0x1000, bytesOfNat 8 0x8000), (0x1008, [4])], 0x10000⟩
  rx := { queue := sampleQueue, buffer := List.replicate bufferLen 0 }
  tx := {
    queue := { sampleQueue with descAddr := 0x4000, availAddr := 0x5000, usedAddr := 0x6000 }
    buffer := List.replicate bufferLen 0 }

theorem twoQueues_apart : twoQueues.rings.Pairwise Span.Apart := by
  have hpair : twoQueues.rings.Pairwise fun left right =>
      left.addr.toNat + left.len ≤ right.addr.toNat ∧ right.addr.toNat + right.len ≤ 2 ^ 64 := by
    decide
  exact hpair.imp fun h => Span.apart_of_le h.1 h.2

theorem twoQueues_start : Start twoQueues where
  rx := {
    placed := sampleQueue_placed (by decide)
    ready := rfl
    counter := rfl
    availIdx := by decide
    usedIdx := by decide
    buffer := List.length_replicate
    idle := rfl
    published := rfl
    used := rfl }
  tx := {
    placed := {
      size_pos := by decide
      size_le := by decide
      table := by decide
      avail := by decide
      used := by decide
      avail_used := Span.apart_of_le (by decide) (by decide)
      table_used := Span.apart_of_le (by decide) (by decide) }
    ready := rfl
    counter := rfl
    availIdx := by decide
    usedIdx := by decide
    buffer := List.length_replicate
    idle := rfl
    published := rfl
    used := rfl }
  apart := twoQueues_apart

def onePublished : State :=
  { twoQueues with
    guest := twoQueues.rx.publishIdx twoQueues.guest, rx := twoQueues.rx.afterPublish 0 }

theorem onePublished_chain : sampleQueue.Chain onePublished.guest.bytes 0 [⟨0x8000, 4, 0, 0⟩] :=
  ⟨by decide, by decide, by decide⟩

theorem onePublished_run : Run Step twoQueues
    [⟨twoQueues, .rx (.publish 0), onePublished⟩] onePublished := by
  refine Run.one (Step.rx (RxStep.publish ?_))
  constructor
  case room => decide
  case few => decide
  case slot => decide
  case offered =>
    refine ⟨[⟨0x8000, 4, 0, 0⟩], ⟨by decide, by decide, by decide⟩, by decide, ?_, by decide⟩
    intro d hd ring hring
    obtain rfl := List.mem_singleton.mp hd
    have hlow : ∀ ring ∈ twoQueues.rings, ring.addr.toNat + ring.len ≤ 0x8000 := by decide
    exact Span.apart_of_le (hlow ring hring) (by decide)

theorem one_packet_exact : ∃ moves s, Run Step twoQueues moves s ∧ s.rx.published = [0] ∧
    s.rx.used = [0] ∧ s.rx.Exact s.guest ∧ s.tx.Exact s.guest := by
  have hnext : sampleQueue.next onePublished.guest =
      .ok (some 0, { sampleQueue with lastAvail := 1 }) := rfl
  have htimeout : updateRx 0 sampleQueue { number := 6 } onePublished.rx.buffer
      onePublished.guest false none = .ok ⟨sampleQueue, { number := 6 }, onePublished.rx.buffer,
        onePublished.guest, none⟩ := rfl
  have hapart : ∀ d ∈ [(⟨0x8000, 4, 0, 0⟩ : Descriptor)], sampleQueue.tableSpan.Apart d.span := by
    intro d hd
    obtain rfl := List.mem_singleton.mp hd
    exact Span.apart_of_le (by decide) (by decide)
  have hpacket := updateRx_packet (sampleQueue_placed (by decide)) hnext onePublished_chain
    (by decide) hapart (show [7].length ≤ bufferLen by decide) 1 { number := 6 }
    onePublished.rx.buffer
  rw [if_pos (by decide)] at hpacket
  obtain ⟨moves, htimedOut⟩ := updateRx_run (s := onePublished) rfl (by decide) htimeout
  have hback : Run Step onePublished moves onePublished := htimedOut.of_guarded.1
  obtain ⟨moves', hfilled⟩ := updateRx_run (s := onePublished) rfl (by decide) hpacket
  have run := (onePublished_run.append hback).append hfilled.of_guarded.1
  obtain ⟨⟨hrx, htx⟩, -, -⟩ := net_exact twoQueues_start run
  exact ⟨_, _, run, rfl, rfl, hrx, htx⟩

end Net

end Kthxvm.Virtio
