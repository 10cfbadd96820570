import Kthxvm.Virtio.NetExact

/-! The buffers that the driver has lent to the two threads of `net`: who may write them, and
what a move of either thread leaves of them. -/
namespace Kthxvm.Virtio

open Lib.ByteMemory Lib.Disk Lib.ScatterGather Lib.Transition

namespace Queue

variable {q : Queue} {m : Memory} {i j : UInt16} {ds left : List Descriptor}

theorem Chain.map_entry (h : q.Chain m i ds) : (chainIndices i ds).map (q.entry m) = ds := by
  induction ds generalizing i with
  | nil => rfl
  | cons d ds ih =>
    rw [chainIndices, List.map_cons, h.2.1]
    cases ds with
    | nil => rfl
    | cons e ds => rw [ih h.2.2.2]

theorem Chain.subset_of_suffix (h : q.Chain m i ds) (hleft : q.Chain m j left)
    (hsuffix : chainIndices j left <:+ chainIndices i ds) : left ⊆ ds := by
  rw [← h.map_entry, ← hleft.map_entry]
  exact List.map_subset _ hsuffix.subset

end Queue

namespace Net

/-! What one pass through a loop has done. -/

section Iterate

variable {q : Queue} {buffer buffer' : List UInt8} {size : Int} {g g' : Guest} {next : UInt16}
  {len len' : UInt32} {next' : Option UInt16}

theorem rxIterate_eq_ok (h : rxIterate q buffer size g next len = .ok (g', len', next')) :
    g' = { g with
      bytes := store g.bytes (q.entry g.bytes next).addr
        (slice buffer len.toNat (writeLen size len (q.entry g.bytes next)).toNat) } ∧
    len' = len + writeLen size len (q.entry g.bytes next) ∧
    next' = if (len'.toNat : Int) = size then none
      else if (q.entry g'.bytes next).hasNext then some (q.entry g'.bytes next).next else none := by
  obtain ⟨d, hd, h⟩ := bind_eq_ok.mp h
  obtain rfl := Queue.descriptor_eq_ok hd
  obtain ⟨bytes, hread, h⟩ := bind_eq_ok.mp h
  have hbytes : bytes =
      slice buffer len.toNat (writeLen size len (q.entry g.bytes next)).toNat := by
    change hostRead buffer len.toNat (writeLen size len (q.entry g.bytes next)).toNat = _ at hread
    unfold hostRead at hread
    split at hread
    · exact (Except.ok.inj hread).symm
    · contradiction
  obtain ⟨g₁, hwrite, h⟩ := bind_eq_ok.mp h
  obtain rfl := Guest.write_eq_ok hwrite
  rw [hbytes] at h
  dsimp only at h
  change (if ((len + writeLen size len _).toNat : Int) = size then _ else _) = _ at h
  split at h
  · rename_i hdone
    cases h
    exact ⟨rfl, rfl, (if_pos hdone).symm⟩
  · rename_i hmore
    obtain ⟨d, hd, h⟩ := bind_eq_ok.mp h
    obtain rfl := Queue.descriptor_eq_ok hd
    split at h
    · rename_i hnext
      obtain ⟨j, hj, h⟩ := bind_eq_ok.mp h
      obtain rfl := Queue.descriptorIndex_eq_ok hj
      cases h
      exact ⟨rfl, rfl, ((if_neg hmore).trans (if_pos hnext)).symm⟩
    · rename_i hnext
      cases h
      exact ⟨rfl, rfl, ((if_neg hmore).trans (if_neg hnext)).symm⟩

theorem txIterate_eq_ok (h : txIterate q buffer g next len = .ok (buffer', len', next')) :
    buffer' = splice buffer len.toNat
      (load g.bytes (q.entry g.bytes next).addr (q.entry g.bytes next).len.toNat) ∧
    len' = len + (q.entry g.bytes next).len ∧
    next' = if (q.entry g.bytes next).hasNext then some (q.entry g.bytes next).next else none := by
  obtain ⟨d, hd, h⟩ := bind_eq_ok.mp h
  obtain rfl := Queue.descriptor_eq_ok hd
  obtain ⟨_, -, h⟩ := bind_eq_ok.mp h
  obtain ⟨bytes, hread, h⟩ := bind_eq_ok.mp h
  obtain rfl := Guest.read_eq_ok hread
  dsimp only at h
  split at h
  · rename_i hnext
    obtain ⟨j, hj, h⟩ := bind_eq_ok.mp h
    obtain rfl := Queue.descriptorIndex_eq_ok hj
    cases h
    exact ⟨rfl, rfl, (if_pos hnext).symm⟩
  · rename_i hnext
    cases h
    exact ⟨rfl, rfl, (if_neg hnext).symm⟩

end Iterate

theorem same_table {q q' : Queue} (h : rings q' = rings q) :
    q'.size = q.size ∧ q'.descAddr = q.descAddr := by
  have htable : q'.tableSpan = q.tableSpan := (List.cons.inj h).1
  have hlen : 16 * q'.size.toNat = 16 * q.size.toNat := congrArg Span.len htable
  exact ⟨UInt32.toNat_inj.mp (Nat.eq_of_mul_eq_mul_left (by decide) hlen),
    congrArg Span.addr htable⟩

namespace Side

variable {α β : Type} {taboo : List Span} {s s' : Side α} {g g' : Guest} {k : Nat}
  {head : UInt16} {d : Descriptor} {ds : List Descriptor} {span : Span}

/-- A buffer of a chain that the driver has not got back. -/
def Lent (s : Side α) (g : Guest) (d : Descriptor) : Prop :=
  ∃ k head ds, s.Outstanding k head ∧ s.queue.Chain g.bytes head ds ∧ d ∈ ds

def Clear (s : Side α) (g : Guest) (span : Span) : Prop :=
  ∀ d, s.Lent g d → span.Apart d.span

theorem Inv.offered_of_chain (h : s.Inv taboo g) (hout : s.Outstanding k head)
    (hds : s.queue.Chain g.bytes head ds) : Offered taboo s.queue g head ds := by
  obtain ⟨es, hes⟩ := h.offered k head hout
  rwa [hds.unique hes.chain]

theorem Inv.lent_off (h : s.Inv taboo g) (hlent : s.Lent g d) :
    ∀ ring ∈ taboo, ring.Apart d.span := by
  obtain ⟨k, head, ds, hout, hds, hd⟩ := hlent
  exact (h.offered_of_chain hout hds).apart d hd

structure Relends (s : Side α) (g : Guest) (s' : Side α) (g' : Guest) (new : Option UInt16) :
    Prop where
  same : rings s'.queue = rings s.queue
  published : s'.published = s.published ++ new.toList
  used : s.used.length ≤ s'.used.length
  chain : ∀ k head ds, s'.Outstanding k head →
    (s'.queue.Chain g'.bytes head ds ↔ s.queue.Chain g.bytes head ds)
  entries : ∀ k head ds, s'.Outstanding k head → s.queue.Chain g.bytes head ds →
    ∀ i ∈ Queue.chainIndices head ds, s.queue.entry g'.bytes i = s.queue.entry g.bytes i

theorem Relends.outstanding {new : Option UInt16} (h : s.Relends g s' g' new)
    (hout : s'.Outstanding k head) :
    s.Outstanding k head ∨ k = s.published.length ∧ new = some head := by
  obtain ⟨hk, hhead⟩ := hout
  rw [h.published] at hhead
  rcases Nat.lt_or_ge k s.published.length with hold | hnew
  · rw [List.getElem?_append_left hold] at hhead
    exact Or.inl ⟨h.used.trans hk, hhead⟩
  · rw [List.getElem?_append_right hnew] at hhead
    refine Or.inr ?_
    cases new with
    | none => contradiction
    | some x =>
      have hzero : k - s.published.length = 0 := by
        have hlt := (List.getElem?_eq_some_iff.mp hhead).1
        simp only [Option.toList_some, List.length_singleton] at hlt
        omega
      rw [hzero] at hhead
      exact ⟨by omega, hhead⟩

theorem Relends.lent {new : Option UInt16} (h : s.Relends g s' g' new) (hlent : s'.Lent g' d) :
    s.Lent g d ∨ ∃ head ds, new = some head ∧ s.queue.Chain g.bytes head ds ∧ d ∈ ds := by
  obtain ⟨k, head, ds, hout, hds, hd⟩ := hlent
  have hchain := (h.chain k head ds hout).mp hds
  rcases h.outstanding hout with hold | ⟨-, hnew⟩
  · exact Or.inl ⟨k, head, ds, hold, hchain, hd⟩
  · exact Or.inr ⟨head, ds, hnew, hchain, hd⟩

theorem Relends.rest {new : Option UInt16} {next : UInt16} {left : List Descriptor}
    (h : s.Relends g s' g' new) (hout : s'.Outstanding k head)
    (hds : s.queue.Chain g.bytes head ds) (hleft : s.queue.Chain g.bytes next left)
    (hsuffix : Queue.chainIndices next left <:+ Queue.chainIndices head ds) :
    s'.queue.Chain g'.bytes next left := by
  obtain ⟨hsize, hdesc⟩ := same_table h.same
  have hentries := h.entries k head ds hout hds
  exact (hleft.of_entries fun i hi => hentries i (hsuffix.subset hi)).queue hsize hdesc

theorem Follows.relends {new : Option UInt16} (hfollows : s.Follows taboo g s' g')
    (h : s.Inv taboo g) (hpublished : s'.published = s.published ++ new.toList)
    (hused : s.used.length ≤ s'.used.length) : s.Relends g s' g' new := by
  have hagree := hfollows.frame _ (h.mine _ List.mem_cons_self) h.table_avail h.placed.table_used
  obtain ⟨hsize, hdesc⟩ := same_table hfollows.same
  refine ⟨hfollows.same, hpublished, hused, ?_, ?_⟩
  · intro k head ds _
    constructor
    · exact fun hds => (hds.queue hsize.symm hdesc.symm).congr hagree.symm
    · exact fun hds => (hds.congr hagree).queue hsize hdesc
  · exact fun k head ds _ hds i hi => (Queue.entry_congr (hds.index_lt i hi) hagree).symm

theorem Inv.relends_keep (h : s.Inv taboo g) (hkeep : s.Keeps g.bytes g'.bytes) :
    s.Relends g s g' none where
  same := rfl
  published := (List.append_nil _).symm
  used := le_rfl
  chain := by
    intro k head ds hout
    obtain ⟨es, hes⟩ := h.offered k head hout
    have hkept := hes.chain.of_entries (hkeep.entries k head es hout hes.chain)
    constructor
    · intro hds
      rw [hds.unique hkept]
      exact hes.chain
    · exact fun hds => hds.of_entries (hkeep.entries k head ds hout hds)
  entries := fun k head ds hout hds => hkeep.entries k head ds hout hds

end Side

def Act.offers : Act → Option UInt16
  | .publish head => some head
  | _ => none

section Sides

variable {taboo : List Span} {g g' : Guest} {act : Act} {span : Span}

theorem RxStep.relends {s s' : Side Int} (hs : RxStep taboo s g act s' g') (h : s.Inv taboo g) :
    s.Relends g s' g' act.offers := by
  apply (hs.follows h).relends h
  · cases hs with
    | publish => rfl
    | _ => exact (List.append_nil _).symm
  · cases hs with
    | addUsed => exact (List.prefix_append _ _).length_le
    | _ => exact le_rfl

theorem TxStep.relends {s s' : Side Unit} (hs : TxStep taboo s g act s' g') (h : s.Inv taboo g) :
    s.Relends g s' g' act.offers := by
  apply (hs.follows h).relends h
  · cases hs with
    | publish => rfl
    | _ => exact (List.append_nil _).symm
  · cases hs with
    | addUsed => exact (List.prefix_append _ _).length_le
    | _ => exact le_rfl

/-- The receive thread writes its rings and what is lent to it, and the transmit thread
nothing but its rings. -/
theorem RxStep.leaves {s s' : Side Int} (hs : RxStep taboo s g act s' g') (h : s.Inv taboo g)
    (havail : span.Apart s.queue.availSpan) (hused : span.Apart s.queue.usedSpan)
    (hclear : act = .copy → s.Clear g span) : AgreeOn span g.bytes g'.bytes := by
  have hstands := h.stands
  cases hs with
  | publish =>
    exact (AgreeOn.refl _ _).store16
      (havail.mono (Span.Within.refl _) (Queue.availIdx_within h.placed.size_pos))
  | copy hcopying hiterate =>
    rw [hcopying] at hstands
    obtain ⟨head, ds, left, hhold, -, hds, hleft, hsuffix, -⟩ := hstands
    obtain ⟨rfl, -, -⟩ := rxIterate_eq_ok hiterate
    cases left with
    | nil => exact hleft.chain.elim
    | cons d left =>
      have hmem : d ∈ ds := hds.subset_of_suffix hleft.chain hsuffix List.mem_cons_self
      have hlent : s.Lent g d := ⟨_, head, ds, ⟨le_rfl, hhold.first⟩, hds, hmem⟩
      rw [hleft.chain.2.1]
      refine (AgreeOn.refl _ _).store ((hclear rfl d hlent).mono (Span.Within.refl _) ?_)
      exact Span.within_of_le ((List.length_take_le _ _).trans (min_toNat_le _ _))
  | addUsed _ hadd =>
    rw [Queue.addUsed_ok h.placed] at hadd
    cases hadd
    exact Queue.afterAddUsed_agree h.placed.size_pos h.size_le hused _ _ _
  | _ => exact AgreeOn.refl _ _

theorem TxStep.leaves {s s' : Side Unit} (hs : TxStep taboo s g act s' g') (h : s.Inv taboo g)
    (havail : span.Apart s.queue.availSpan) (hused : span.Apart s.queue.usedSpan) :
    AgreeOn span g.bytes g'.bytes := by
  cases hs with
  | publish =>
    exact (AgreeOn.refl _ _).store16
      (havail.mono (Span.Within.refl _) (Queue.availIdx_within h.placed.size_pos))
  | addUsed _ hadd =>
    rw [Queue.addUsed_ok h.placed] at hadd
    cases hadd
    exact Queue.afterAddUsed_agree h.placed.size_pos h.size_le hused _ _ _
  | _ => exact AgreeOn.refl _ _

/-- To one side the moves of the other are a driver that keeps the rules. -/
theorem Side.Follows.keeps {α β : Type} {s s' : Side α} {t : Side β}
    (hfollows : s.Follows taboo g s' g') (h : t.Inv taboo g)
    (hapart : ∀ ring ∈ rings t.queue, ∀ mine ∈ rings s.queue, ring.Apart mine) :
    t.Keeps g.bytes g'.bytes :=
  h.keeps_of_agree fun ring hring => hfollows.frame ring (h.mine ring hring)
    (hapart ring hring _ (by simp [rings])) (hapart ring hring _ (by simp [rings]))

end Sides

/-- What a driver does about the buffers that it has lent: it leaves them alone, and lends none
of them twice. -/
def Lends (s : State) : Event → Prop
  | .memory bytes => (∀ d, s.rx.Lent s.guest d → AgreeOn d.span s.guest.bytes bytes) ∧
      ∀ d, s.tx.Lent s.guest d → AgreeOn d.span s.guest.bytes bytes
  | .rx (.publish head) => ∀ ds, s.rx.queue.Chain s.guest.bytes head ds →
      (spans ds).Pairwise Span.Apart ∧ ∀ d ∈ ds, s.tx.Clear s.guest d.span
  | .tx (.publish head) => ∀ ds, s.tx.queue.Chain s.guest.bytes head ds →
      ∀ d ∈ ds, s.rx.Clear s.guest d.span
  | _ => True

theorem lends_rx {s s' : State} {act : Act} (hs : Step s (.rx act) s') (hact : act.ofDevice) :
    guarded Step Lends s (.rx act) s' := by
  refine ⟨?_, hs⟩
  cases act with
  | publish => exact hact.elim
  | _ => trivial

theorem lends_tx {s s' : State} {act : Act} (hs : Step s (.tx act) s') (hact : act.ofDevice) :
    guarded Step Lends s (.tx act) s' := by
  refine ⟨?_, hs⟩
  cases act with
  | publish => exact hact.elim
  | _ => trivial

def Event.rxOffers : Event → Option UInt16
  | .rx act => act.offers
  | _ => none

def Event.txOffers : Event → Option UInt16
  | .tx act => act.offers
  | _ => none

theorem rx_of_offers {e : Event} {head : UInt16} (h : e.rxOffers = some head) :
    e = .rx (.publish head) := by
  unfold Event.rxOffers Act.offers at h
  split at h
  · split at h
    · exact congrArg _ (congrArg _ (Option.some.inj h))
    · contradiction
  · contradiction

theorem tx_of_offers {e : Event} {head : UInt16} (h : e.txOffers = some head) :
    e = .tx (.publish head) := by
  unfold Event.txOffers Act.offers at h
  split at h
  · split at h
    · exact congrArg _ (congrArg _ (Option.some.inj h))
    · contradiction
  · contradiction

/-- No buffer of the receive queue lies over one of the transmit queue or over another one of
its chain. -/
structure Separate (s : State) : Prop where
  apart : ∀ d, s.rx.Lent s.guest d → s.tx.Clear s.guest d.span
  pairwise : ∀ k head ds, s.rx.Outstanding k head → s.rx.queue.Chain s.guest.bytes head ds →
    (spans ds).Pairwise Span.Apart

theorem Side.Start.none_lent {α : Type} {s : Side α} {g : Guest} (h : s.Start g) (k : Nat)
    (head : UInt16) : ¬ s.Outstanding k head := by
  rintro ⟨-, hk⟩
  rw [h.published] at hk
  contradiction

theorem separate_start {s : State} (h : Start s) : Separate s where
  apart := fun _ ⟨k, head, _, hout, _⟩ => absurd hout (h.rx.none_lent k head)
  pairwise := fun k head _ hout _ => absurd hout (h.rx.none_lent k head)

section Step

variable {s s' : State} {e : Event} (h : Inv s) (hs : Step s e s')

include h hs

theorem relends : s.rx.Relends s.guest s'.rx s'.guest e.rxOffers ∧
    s.tx.Relends s.guest s'.tx s'.guest e.txOffers := by
  obtain ⟨-, -, hcross⟩ := List.pairwise_append.mp h.apart
  cases hs with
  | memory hrx htx => exact ⟨h.rx.relends_keep hrx, h.tx.relends_keep htx⟩
  | rx hrx =>
    refine ⟨hrx.relends h.rx, h.tx.relends_keep ((hrx.follows h.rx).keeps h.tx ?_)⟩
    exact fun ring hring mine hmine => (hcross mine hmine ring hring).symm
  | tx htx => exact ⟨h.rx.relends_keep ((htx.follows h.tx).keeps h.rx hcross), htx.relends h.tx⟩

theorem separate_step (hseparate : Separate s) (hlends : Lends s e) : Separate s' := by
  obtain ⟨hrx, htx⟩ := relends h hs
  constructor
  case apart =>
    intro d hd x hx
    rcases hrx.lent hd with hrxOld | ⟨head, ds, hnew, hds, hmem⟩
    · rcases htx.lent hx with htxOld | ⟨head, ds, hnew, hds, hmem⟩
      · exact hseparate.apart d hrxOld x htxOld
      · obtain rfl := tx_of_offers hnew
        exact (hlends ds hds x hmem d hrxOld).symm
    · obtain rfl := rx_of_offers hnew
      rcases htx.lent hx with htxOld | ⟨_, _, hnone, -⟩
      · exact (hlends ds hds).2 d hmem x htxOld
      · contradiction
  case pairwise =>
    intro k head ds hout hds
    have hchain := (hrx.chain k head ds hout).mp hds
    rcases hrx.outstanding hout with hold | ⟨-, hnew⟩
    · exact hseparate.pairwise k head ds hold hchain
    · obtain rfl := rx_of_offers hnew
      exact (hlends ds hchain).1

theorem tx_kept (hseparate : Separate s) (hlends : Lends s e) {d : Descriptor}
    (hlent : s.tx.Lent s.guest d) : AgreeOn d.span s.guest.bytes s'.guest.bytes := by
  have hoff := h.tx.lent_off hlent
  cases hs with
  | memory => exact hlends.2 d hlent
  | rx hrx =>
    refine hrx.leaves h.rx (hoff _ (List.mem_append_left _ ?_)).symm
      (hoff _ (List.mem_append_left _ ?_)).symm fun _ x hx => (hseparate.apart x hx d hlent).symm
    · simp [rings]
    · simp [rings]
  | tx htx =>
    refine htx.leaves h.tx (hoff _ (List.mem_append_right _ ?_)).symm
      (hoff _ (List.mem_append_right _ ?_)).symm
    · simp [rings]
    · simp [rings]

theorem rx_kept (hlends : Lends s e) (hcopy : e ≠ .rx .copy) {d : Descriptor}
    (hlent : s.rx.Lent s.guest d) : AgreeOn d.span s.guest.bytes s'.guest.bytes := by
  have hoff := h.rx.lent_off hlent
  cases hs with
  | memory => exact hlends.1 d hlent
  | rx hrx =>
    refine hrx.leaves h.rx (hoff _ (List.mem_append_left _ ?_)).symm
      (hoff _ (List.mem_append_left _ ?_)).symm fun hact => absurd (congrArg Event.rx hact) hcopy
    · simp [rings]
    · simp [rings]
  | tx htx =>
    refine htx.leaves h.tx (hoff _ (List.mem_append_right _ ?_)).symm
      (hoff _ (List.mem_append_right _ ?_)).symm
    · simp [rings]
    · simp [rings]

end Step

end Net

end Kthxvm.Virtio
