import Kthxvm.Virtio.BlkOrders
import Kthxvm.Virtio.NetBuffers
import Kthxvm.Virtio.RngRace

/-! The three devices in the memory that they share: the thread of `blk`, the two threads of
`net`, the calls of `rng` on the processors, and a driver that goes on publishing for all of
them. -/
namespace Kthxvm.Virtio

open Lib.ByteMemory Lib.Disk Lib.Transition

namespace Net

variable {α : Type} {taboo taboo' : List Span} {s : Side α} {q : Queue} {g : Guest}
  {head : UInt16} {ds : List Descriptor}

theorem Offered.retaboo (h : Offered taboo q g head ds)
    (hnew : ∀ ring ∈ taboo', ring ∈ taboo ∨ ∀ d ∈ ds, ring.Apart d.span) :
    Offered taboo' q g head ds where
  chain := h.chain
  held := h.held
  apart := fun d hd ring hring =>
    (hnew ring hring).elim (h.apart d hd ring) fun hclear => hclear d hd
  fits := h.fits

theorem Side.Inv.retaboo (h : s.Inv taboo g) (hmine : ∀ ring ∈ rings s.queue, ring ∈ taboo')
    (hnew : ∀ ring ∈ taboo', ring ∈ taboo ∨ s.Clear g ring) : s.Inv taboo' g where
  placed := h.placed
  table_avail := h.table_avail
  mine := hmine
  ready := h.ready
  few := h.few
  window := h.window
  idx := h.idx
  slots := h.slots
  offered := by
    intro k head hout
    obtain ⟨ds, hds⟩ := h.offered k head hout
    exact ⟨ds, hds.retaboo fun ring hring =>
      (hnew ring hring).imp_right fun hclear d hd =>
        hclear d ⟨k, head, ds, hout, hds.chain, hd⟩⟩
  order := h.order
  usedIdx := h.usedIdx
  usedIds := h.usedIds
  buffer := h.buffer
  stands := by
    have hstands := h.stands
    revert hstands
    generalize s.position = position
    cases position with
    | idle | taken | filled | gathered | copied => exact id
    | copying =>
      rintro ⟨head, ds, left, hhold, hstart, hds, hleft, hsuffix, hroom⟩
      have hsubset := hds.subset_of_suffix hleft.chain hsuffix
      exact ⟨head, ds, left, hhold, hstart, hds, hleft.retaboo fun ring hring =>
        (hnew ring hring).imp_right fun hclear d hd =>
          hclear d ⟨_, head, ds, ⟨le_rfl, hhold.first⟩, hds, hsubset hd⟩, hsuffix, hroom⟩

end Net

namespace SharedMemory

structure Entropy where
  queue : Queue
  calls : List Rng.Position := []
  taken : List UInt16 := []
  fills : List (UInt32 × UInt32) := []
  used : List (UInt32 × UInt32) := []

def Entropy.over (e : Entropy) (g : Guest) : RngRace.State where
  queue := e.queue
  guest := g
  calls := e.calls
  taken := e.taken
  fills := e.fills
  used := e.used

def Entropy.of (s : RngRace.State) : Entropy where
  queue := s.queue
  calls := s.calls
  taken := s.taken
  fills := s.fills
  used := s.used

structure State where
  guest : Guest
  rx : Net.Side Int
  tx : Net.Side Unit
  blk : Blk.Side
  rng : Entropy

namespace State

def rings (s : State) : List Span :=
  Net.rings s.rx.queue ++ (Net.rings s.tx.queue ++
    (Net.rings s.blk.queue ++ Net.rings s.rng.queue))

/-- What no buffer for `net` or `rng` may cover. -/
def taboo (s : State) : List Span := s.rings ++ s.blk.pending

end State

inductive Event where
  /-- the driver writes memory, to lay out chains and data or for its own ends -/
  | memory (bytes : Memory)
  | rx (act : Net.Act)
  | tx (act : Net.Act)
  | blk (act : Blk.Side.Act)
  | rng (action : RngRace.Action)

/-- A request of the driver lies off the buffers that `net` still has. -/
def State.Clears (s : State) : Blk.Side.Act → Prop
  | .publish order => ∀ span ∈ order.request.buffers,
      s.rx.Clear s.guest span ∧ s.tx.Clear s.guest span
  | _ => True

/-- Where the driver lets `rng` write. -/
def State.Fills (s : State) : RngRace.Action → Prop
  | .memory _ => False
  | .fill i random => ∀ next descStart, s.rng.calls[i]? = some (.named next descStart) →
      ∀ span ∈ s.taboo, span.Apart
        ⟨(s.rng.queue.entry s.guest.bytes next).addr,
          (random (s.rng.queue.entry s.guest.bytes next).len.toNat).length⟩
  | _ => True

inductive Step (fuel size : Nat) : State → Event → State → Prop where
  | memory {s : State} {bytes : Memory} (hrx : s.rx.Keeps s.guest.bytes bytes)
      (htx : s.tx.Keeps s.guest.bytes bytes) (hblk : s.blk.Keeps s.guest.bytes bytes)
      (hrng : RngRace.Driver (s.rng.over s.guest) (.memory bytes)) :
      Step fuel size s (.memory bytes) { s with guest := ⟨bytes, s.guest.size⟩ }
  | rx {s : State} {act : Net.Act} {side : Net.Side Int} {g : Guest}
      (h : Net.RxStep s.taboo s.rx s.guest act side g) :
      Step fuel size s (.rx act) { s with rx := side, guest := g }
  | tx {s : State} {act : Net.Act} {side : Net.Side Unit} {g : Guest}
      (h : Net.TxStep s.taboo s.tx s.guest act side g) :
      Step fuel size s (.tx act) { s with tx := side, guest := g }
  | blk {s : State} {act : Blk.Side.Act} {side : Blk.Side} {g : Guest}
      (h : Blk.Side.Step fuel size s.rings s.blk s.guest act side g) (hclears : s.Clears act) :
      Step fuel size s (.blk act) { s with blk := side, guest := g }
  | rng {s : State} {action : RngRace.Action} {t : RngRace.State}
      (h : RngRace.Step (s.rng.over s.guest) action t)
      (hdriver : RngRace.Driver (s.rng.over s.guest) action) (hfills : s.Fills action) :
      Step fuel size s (.rng action) { s with rng := .of t, guest := t.guest }

structure Follows (taboo : List Span) (s t : RngRace.State) : Prop where
  placed : t.queue.Placed t.guest
  same : Net.rings t.queue = Net.rings s.queue
  size : t.guest.size = s.guest.size
  frame : ∀ span ∈ taboo, span.Apart s.queue.usedSpan → AgreeOn span s.guest.bytes t.guest.bytes

theorem rng_follows {s : State} {action : RngRace.Action} {t : RngRace.State}
    (h : RngRace.Step (s.rng.over s.guest) action t) (hp : s.rng.queue.Placed s.guest)
    (hdriver : RngRace.Driver (s.rng.over s.guest) action) (hfills : s.Fills action) :
    Follows s.taboo (s.rng.over s.guest) t := by
  have hquiet : ∀ span ∈ s.taboo, span.Apart s.rng.queue.usedSpan →
      AgreeOn span s.guest.bytes s.guest.bytes := fun _ _ _ => AgreeOn.refl _ _
  cases h with
  | memory => exact hfills.elim
  | call => exact ⟨hp, rfl, rfl, hquiet⟩
  | next hi hnext =>
    rcases RngRace.stepNext_cases hnext with ⟨-, rfl⟩ | ⟨head, -, htakes⟩
    · exact ⟨hp, rfl, rfl, hquiet⟩
    · obtain ⟨-, rfl, -⟩ := Queue.next_takes htakes
      exact ⟨hp.congr rfl rfl rfl rfl rfl, rfl, rfl, hquiet⟩
  | availId => exact ⟨hp, rfl, rfl, hquiet⟩
  | fill hi hfill =>
    obtain ⟨htable, -⟩ := hdriver _ _ hi
    obtain ⟨-, rfl⟩ := RngRace.stepFill_ok hfill htable
    exact ⟨hp.congr rfl rfl rfl rfl rfl, rfl, rfl, fun span hspan _ =>
      (AgreeOn.refl _ _).store (hfills _ _ hi span hspan)⟩
  | @addUsed i descStart len guest hi hadd =>
    have hguest := (RngRace.stepAddUsed_ok hp descStart len).symm.trans hadd
    cases hguest
    exact ⟨hp.congr rfl rfl rfl rfl rfl, rfl, rfl, fun span _ hused =>
      Queue.afterAddUsed_agree hp.size_pos hp.size_le hused _ _ _⟩

structure Inv (size : Nat) (image : List UInt8) (s : State) : Prop where
  rx : s.rx.Inv s.taboo s.guest
  tx : s.tx.Inv s.taboo s.guest
  blk : s.blk.Inv size image s.rings s.guest
  rng : s.rng.queue.Placed s.guest
  apart : s.rings.Pairwise Span.Apart

theorem mem_rings (q : Queue) : q.tableSpan ∈ Net.rings q ∧ q.availSpan ∈ Net.rings q ∧
    q.usedSpan ∈ Net.rings q := by
  simp [Net.rings]

section Rings

variable {s : State} (ring : Span)

theorem mem_rx (h : ring ∈ Net.rings s.rx.queue) : ring ∈ s.rings := List.mem_append_left _ h

theorem mem_tx (h : ring ∈ Net.rings s.tx.queue) : ring ∈ s.rings :=
  List.mem_append_right _ (List.mem_append_left _ h)

theorem mem_blk (h : ring ∈ Net.rings s.blk.queue) : ring ∈ s.rings :=
  List.mem_append_right _ (List.mem_append_right _ (List.mem_append_left _ h))

theorem mem_rng (h : ring ∈ Net.rings s.rng.queue) : ring ∈ s.rings :=
  List.mem_append_right _ (List.mem_append_right _ (List.mem_append_right _ h))

end Rings

structure Crossed (s : State) : Prop where
  rx_tx : ∀ left ∈ Net.rings s.rx.queue, ∀ right ∈ Net.rings s.tx.queue, left.Apart right
  rx_blk : ∀ left ∈ Net.rings s.rx.queue, ∀ right ∈ Net.rings s.blk.queue, left.Apart right
  rx_rng : ∀ left ∈ Net.rings s.rx.queue, ∀ right ∈ Net.rings s.rng.queue, left.Apart right
  tx_blk : ∀ left ∈ Net.rings s.tx.queue, ∀ right ∈ Net.rings s.blk.queue, left.Apart right
  tx_rng : ∀ left ∈ Net.rings s.tx.queue, ∀ right ∈ Net.rings s.rng.queue, left.Apart right
  blk_rng : ∀ left ∈ Net.rings s.blk.queue, ∀ right ∈ Net.rings s.rng.queue, left.Apart right

theorem crossed {s : State} (h : s.rings.Pairwise Span.Apart) : Crossed s := by
  obtain ⟨-, hrest, hrx⟩ := List.pairwise_append.mp h
  obtain ⟨-, hrest, htx⟩ := List.pairwise_append.mp hrest
  obtain ⟨-, -, hblk⟩ := List.pairwise_append.mp hrest
  constructor
  case rx_tx => exact fun l hl r hr => hrx l hl r (List.mem_append_left _ hr)
  case rx_blk =>
    exact fun l hl r hr => hrx l hl r (List.mem_append_right _ (List.mem_append_left _ hr))
  case rx_rng =>
    exact fun l hl r hr => hrx l hl r (List.mem_append_right _ (List.mem_append_right _ hr))
  case tx_blk => exact fun l hl r hr => htx l hl r (List.mem_append_left _ hr)
  case tx_rng => exact fun l hl r hr => htx l hl r (List.mem_append_right _ hr)
  case blk_rng => exact hblk

section Others

variable {fuel size : Nat} {image : List UInt8} {s : State} {g : Guest}

theorem side_keep {α : Type} {taboo : List Span} {side : Net.Side α}
    (h : side.Inv taboo s.guest) (hsize : g.size = s.guest.size)
    (hagree : ∀ ring ∈ Net.rings side.queue, AgreeOn ring s.guest.bytes g.bytes) :
    side.Inv taboo g := by
  have hkeep := h.keep (h.keeps_of_agree hagree)
  rwa [← hsize] at hkeep

theorem blk_keep (h : s.blk.Inv size image s.rings s.guest) (hsize : g.size = s.guest.size)
    (hagree : ∀ ring ∈ Net.rings s.blk.queue, AgreeOn ring s.guest.bytes g.bytes)
    (hpending : ∀ span ∈ s.blk.pending, AgreeOn span s.guest.bytes g.bytes) :
    s.blk.Inv size image s.rings g := by
  have hkeep := h.keep (h.keeps_of_agree (hagree _ List.mem_cons_self)
    (hagree _ (List.mem_cons_of_mem _ List.mem_cons_self))
    (hagree _ (List.mem_cons_of_mem _ (List.mem_cons_of_mem _ List.mem_cons_self))) hpending)
  rwa [← hsize] at hkeep

end Others

structure Unseen (s : State) (g : Guest) : Prop where
  size : g.size = s.guest.size
  avail : AgreeOn s.rng.queue.availSpan s.guest.bytes g.bytes

section Moves

variable {fuel size : Nat} {image : List UInt8} {s : State} (h : Inv size image s)

include h

theorem Inv.rx_move {act : Net.Act} {side : Net.Side Int} {g : Guest}
    (hs : Net.RxStep s.taboo s.rx s.guest act side g) :
    Inv size image { s with rx := side, guest := g } ∧ Unseen s g := by
  have hfollows := hs.follows h.rx
  have hcrossed := crossed h.apart
  have hrings : State.rings { s with rx := side, guest := g } = s.rings := by
    unfold State.rings
    rw [hfollows.same]
  have htaboo : State.taboo { s with rx := side, guest := g } = s.taboo := by
    unfold State.taboo
    rw [hrings]
  obtain ⟨-, havail, hused⟩ := mem_rings s.rx.queue
  have hframe : ∀ ring ∈ s.rings, (∀ mine ∈ Net.rings s.rx.queue, mine.Apart ring) →
      AgreeOn ring s.guest.bytes g.bytes := fun ring hring happart =>
    hfollows.frame ring (List.mem_append_left _ hring)
      (happart _ havail).symm (happart _ hused).symm
  refine ⟨?_, hfollows.size, hframe _ (mem_rng _ (mem_rings s.rng.queue).2.1)
    fun mine hmine => hcrossed.rx_rng mine hmine _ (mem_rings s.rng.queue).2.1⟩
  constructor
  case rx => rw [htaboo]; exact hfollows.inv
  case tx =>
    rw [htaboo]
    exact side_keep h.tx hfollows.size fun ring hring =>
      hframe ring (mem_tx ring hring)
        fun mine hmine => hcrossed.rx_tx mine hmine ring hring
  case blk =>
    rw [hrings]
    refine blk_keep h.blk hfollows.size (fun ring hring => hframe ring (mem_blk ring hring)
      fun mine hmine => hcrossed.rx_blk mine hmine ring hring) ?_
    intro span hspan
    have hoff := h.blk.off_rings span hspan
    exact hfollows.frame span (List.mem_append_right _ hspan)
      (hoff _ (mem_rx _ havail)).symm (hoff _ (mem_rx _ hused)).symm
  case rng => exact h.rng.congr rfl rfl rfl rfl hfollows.size
  case apart => rw [hrings]; exact h.apart

theorem Inv.tx_move {act : Net.Act} {side : Net.Side Unit} {g : Guest}
    (hs : Net.TxStep s.taboo s.tx s.guest act side g) :
    Inv size image { s with tx := side, guest := g } ∧ Unseen s g := by
  have hfollows := hs.follows h.tx
  have hcrossed := crossed h.apart
  have hrings : State.rings { s with tx := side, guest := g } = s.rings := by
    unfold State.rings
    rw [hfollows.same]
  have htaboo : State.taboo { s with tx := side, guest := g } = s.taboo := by
    unfold State.taboo
    rw [hrings]
  obtain ⟨-, havail, hused⟩ := mem_rings s.tx.queue
  have hframe : ∀ ring ∈ s.rings, (∀ mine ∈ Net.rings s.tx.queue, ring.Apart mine) →
      AgreeOn ring s.guest.bytes g.bytes := fun ring hring happart =>
    hfollows.frame ring (List.mem_append_left _ hring) (happart _ havail) (happart _ hused)
  refine ⟨?_, hfollows.size, hframe _ (mem_rng _ (mem_rings s.rng.queue).2.1)
    fun mine hmine => (hcrossed.tx_rng mine hmine _ (mem_rings s.rng.queue).2.1).symm⟩
  constructor
  case rx =>
    rw [htaboo]
    exact side_keep h.rx hfollows.size fun ring hring =>
      hframe ring (mem_rx ring hring) (hcrossed.rx_tx ring hring)
  case tx => rw [htaboo]; exact hfollows.inv
  case blk =>
    rw [hrings]
    refine blk_keep h.blk hfollows.size (fun ring hring => hframe ring (mem_blk ring hring)
      fun mine hmine => (hcrossed.tx_blk mine hmine ring hring).symm) ?_
    intro span hspan
    have hoff := h.blk.off_rings span hspan
    exact hfollows.frame span (List.mem_append_right _ hspan)
      (hoff _ (mem_tx _ havail)).symm (hoff _ (mem_tx _ hused)).symm
  case rng => exact h.rng.congr rfl rfl rfl rfl hfollows.size
  case apart => rw [hrings]; exact h.apart

/-- A new request is no more in the way of `net` than an answered one. -/
theorem taboo_blk {act : Blk.Side.Act} {side : Blk.Side} {g : Guest}
    (hs : Blk.Side.Step fuel size s.rings s.blk s.guest act side g) (hclears : s.Clears act) :
    ∀ span ∈ side.pending, span ∈ s.taboo ∨ s.rx.Clear s.guest span ∧ s.tx.Clear s.guest span := by
  intro span hspan
  by_cases hact : ∃ order, act = .publish order
  · obtain ⟨order, rfl⟩ := hact
    cases hs with
    | publish =>
      rw [Blk.Side.pending_afterPublish _ h.blk.behind] at hspan
      rcases List.mem_append.mp hspan with hold | hnew
      · exact Or.inl (List.mem_append_right _ hold)
      · exact Or.inr (hclears span hnew)
  · have hold := hs.pending_subset (fun order horder => hact ⟨order, horder⟩) hspan
    exact Or.inl (List.mem_append_right _ hold)

theorem Inv.blk_move {act : Blk.Side.Act} {side : Blk.Side} {g : Guest}
    (hfuel : queueSizeMax.toNat ≤ fuel) (hsize : size < 2 ^ 63)
    (hs : Blk.Side.Step fuel size s.rings s.blk s.guest act side g) (hclears : s.Clears act) :
    Inv size image { s with blk := side, guest := g } ∧ Unseen s g := by
  have hfollows := hs.follows h.blk hfuel hsize
  have hcrossed := crossed h.apart
  have hsame : Net.rings side.queue = Net.rings s.blk.queue := by
    unfold Net.rings
    rw [hfollows.table, hfollows.avail, hfollows.used]
  have hrings : State.rings { s with blk := side, guest := g } = s.rings := by
    unfold State.rings
    rw [hsame]
  obtain ⟨-, havail, hused⟩ := mem_rings s.blk.queue
  have hframe : ∀ ring ∈ s.rings, (∀ mine ∈ Net.rings s.blk.queue, ring.Apart mine) →
      AgreeOn ring s.guest.bytes g.bytes := fun ring hring happart =>
    hfollows.frame ring (happart _ havail) (happart _ hused)
      fun buffer hbuffer => h.blk.off_rings buffer hbuffer ring hring
  have htaboo : State.taboo { s with blk := side, guest := g } = s.rings ++ side.pending := by
    unfold State.taboo
    rw [hrings]
  have hnew := taboo_blk h hs hclears
  refine ⟨?_, hfollows.size, hframe _ (mem_rng _ (mem_rings s.rng.queue).2.1)
    fun mine hmine => (hcrossed.blk_rng mine hmine _ (mem_rings s.rng.queue).2.1).symm⟩
  constructor
  case rx =>
    rw [htaboo]
    have hinv : s.rx.Inv (s.rings ++ side.pending) s.guest := by
      refine h.rx.retaboo (fun ring hring => List.mem_append_left _ (mem_rx ring hring)) ?_
      intro ring hring
      rcases List.mem_append.mp hring with hring | hring
      · exact Or.inl (List.mem_append_left _ hring)
      · exact (hnew ring hring).imp_right And.left
    exact side_keep hinv hfollows.size fun ring hring =>
      hframe ring (mem_rx ring hring) (hcrossed.rx_blk ring hring)
  case tx =>
    rw [htaboo]
    have hinv : s.tx.Inv (s.rings ++ side.pending) s.guest := by
      refine h.tx.retaboo (fun ring hring => List.mem_append_left _ (mem_tx ring hring)) ?_
      intro ring hring
      rcases List.mem_append.mp hring with hring | hring
      · exact Or.inl (List.mem_append_left _ hring)
      · exact (hnew ring hring).imp_right And.right
    exact side_keep hinv hfollows.size fun ring hring =>
      hframe ring (mem_tx ring hring) (hcrossed.tx_blk ring hring)
  case blk => rw [hrings]; exact hfollows.inv
  case rng => exact h.rng.congr rfl rfl rfl rfl hfollows.size
  case apart => rw [hrings]; exact h.apart

theorem Inv.rng_move {action : RngRace.Action} {t : RngRace.State}
    (hs : RngRace.Step (s.rng.over s.guest) action t)
    (hdriver : RngRace.Driver (s.rng.over s.guest) action) (hfills : s.Fills action) :
    Inv size image { s with rng := .of t, guest := t.guest } := by
  have hfollows := rng_follows hs h.rng hdriver hfills
  have hcrossed := crossed h.apart
  have hrings : State.rings { s with rng := .of t, guest := t.guest } = s.rings := by
    unfold State.rings
    exact congrArg (fun last => Net.rings s.rx.queue ++ (Net.rings s.tx.queue ++
      (Net.rings s.blk.queue ++ last))) hfollows.same
  have htaboo : State.taboo { s with rng := .of t, guest := t.guest } = s.taboo := by
    unfold State.taboo
    rw [hrings]
  obtain ⟨-, -, hused⟩ := mem_rings s.rng.queue
  have hframe : ∀ ring ∈ s.rings, (∀ mine ∈ Net.rings s.rng.queue, ring.Apart mine) →
      AgreeOn ring s.guest.bytes t.guest.bytes := fun ring hring happart =>
    hfollows.frame ring (List.mem_append_left _ hring) (happart _ hused)
  constructor
  case rx =>
    rw [htaboo]
    exact side_keep h.rx hfollows.size fun ring hring =>
      hframe ring (mem_rx ring hring) (hcrossed.rx_rng ring hring)
  case tx =>
    rw [htaboo]
    exact side_keep h.tx hfollows.size fun ring hring =>
      hframe ring (mem_tx ring hring) (hcrossed.tx_rng ring hring)
  case blk =>
    rw [hrings]
    refine blk_keep h.blk hfollows.size (fun ring hring =>
      hframe ring (mem_blk ring hring) (hcrossed.blk_rng ring hring)) ?_
    intro span hspan
    exact hfollows.frame span (List.mem_append_right _ hspan)
      (h.blk.off_rings span hspan _ (mem_rng _ hused)).symm
  case rng => exact hfollows.placed
  case apart => rw [hrings]; exact h.apart

end Moves

structure Start (s : State) : Prop where
  rx : s.rx.Start s.guest
  tx : s.tx.Start s.guest
  blk : s.blk.Start s.guest
  rng : s.rng.queue.Placed s.guest
  idle : s.rng = { queue := s.rng.queue }
  apart : s.rings.Pairwise Span.Apart

/-- No call of `rng` takes a chain while another one has one without its id. -/
def State.Alone (s : State) : Event → Prop
  | .rng action => RngRace.Alone (s.rng.over s.guest) action
  | _ => True

section Run

variable {fuel size : Nat} {image : List UInt8}

theorem inv_start {s : State} (h : Start s) :
    Inv s.blk.blk.file.contents.length s.blk.blk.file.contents s := by
  obtain ⟨hrx, hrest, -⟩ := List.pairwise_append.mp h.apart
  obtain ⟨htx, -, -⟩ := List.pairwise_append.mp hrest
  obtain ⟨htable, havail, hused⟩ := mem_rings s.blk.queue
  constructor
  case rx =>
    exact Net.Side.inv_start h.rx
      (fun ring hring => List.mem_append_left _ (mem_rx ring hring)) hrx
  case tx =>
    exact Net.Side.inv_start h.tx
      (fun ring hring => List.mem_append_left _ (mem_tx ring hring)) htx
  case blk => exact Blk.Side.inv_start h.blk ⟨mem_blk _ htable, mem_blk _ havail, mem_blk _ hused⟩
  case rng => exact h.rng
  case apart => exact h.apart

/-- For `rng` the others are a driver that keeps the rules. -/
theorem rng_unseen {s : State} {g : Guest} (hrng : RngRace.Inv (s.rng.over s.guest))
    (h : Unseen s g) : RngRace.Inv (s.rng.over g) := by
  have hkept : RngRace.Inv (s.rng.over ⟨g.bytes, s.guest.size⟩) :=
    RngRace.inv_memory hrng fun next _ => RngRace.currentHead_congr hrng.placed h.avail
  have hguest : (⟨g.bytes, s.guest.size⟩ : Guest) = g := by rw [← h.size]
  rw [← hguest]
  exact hkept

variable (hfuel : queueSizeMax.toNat ≤ fuel) (hsize : size < 2 ^ 63)

include hfuel hsize

theorem inv_step {s s' : State} {e : Event} (h : Inv size image s) (hs : Step fuel size s e s') :
    Inv size image s' := by
  cases hs with
  | memory hrx htx hblk hrng =>
    exact ⟨h.rx.keep hrx, h.tx.keep htx, h.blk.keep hblk, h.rng.congr rfl rfl rfl rfl rfl, h.apart⟩
  | rx hs => exact (h.rx_move hs).1
  | tx hs => exact (h.tx_move hs).1
  | blk hs hclears => exact (h.blk_move hfuel hsize hs hclears).1
  | rng hs hdriver hfills => exact h.rng_move hs hdriver hfills

theorem rng_step {s s' : State} {e : Event} (h : Inv size image s)
    (hrng : RngRace.Inv (s.rng.over s.guest)) (hs : Step fuel size s e s') (halone : s.Alone e) :
    RngRace.Inv (s'.rng.over s'.guest) := by
  cases hs with
  | memory _ _ _ hdriver => exact RngRace.inv_memory hrng hdriver
  | rx hs => exact rng_unseen (s := s) hrng (h.rx_move hs).2
  | tx hs => exact rng_unseen (s := s) hrng (h.tx_move hs).2
  | blk hs hclears => exact rng_unseen (s := s) hrng (h.blk_move hfuel hsize hs hclears).2
  | rng hs hdriver => exact RngRace.inv_step hrng hs hdriver halone

end Run

/-- Whatever the others do, both queues of `net` complete what was published in this order, the
disk has had what the answered requests asked for when they were published, the next round does
what the next one asked for, and if no two calls of `rng` are in each other's way every buffer
of theirs comes back once. -/
theorem shared_exact {fuel : Nat} {start s : State} {moves : List (Move State Event)}
    (hfuel : queueSizeMax.toNat ≤ fuel) (hsize : start.blk.blk.file.contents.length < 2 ^ 63)
    (h : Start start) (run : Run (Step fuel start.blk.blk.file.contents.length) start moves s) :
    (s.rx.Exact s.guest ∧ s.tx.Exact s.guest) ∧
    s.blk.Exact fuel start.blk.blk.file.contents s.guest ∧
    ((∀ move ∈ moves, move.source.Alone move.label) → RngRace.Exact (s.rng.over s.guest)) := by
  have hinv := run.invariant (inv_start h) fun _ _ _ hs hstep => inv_step hfuel hsize hs hstep
  refine ⟨⟨hinv.rx.exact, hinv.tx.exact⟩, hinv.blk.exact hfuel hsize, fun halone => ?_⟩
  have hfirst : RngRace.Inv (start.rng.over start.guest) := by
    rw [h.idle]
    exact RngRace.inv_initial h.rng
  have hboth := (run.guarded halone).invariant
    (I := fun s => Inv start.blk.blk.file.contents.length start.blk.blk.file.contents s ∧
      RngRace.Inv (s.rng.over s.guest)) ⟨inv_start h, hfirst⟩
    fun s e s' hs hstep => ⟨inv_step hfuel hsize hs.1 hstep.2,
      rng_step hfuel hsize hs.1 hs.2 hstep.2 hstep.1⟩
  exact hboth.2.exact

/-! A request for the disk and a buffer for a packet are published, and the request is answered
before the buffer is taken. -/

def sampleState : State where
  guest := ⟨image [(0x1000, BlkMachine.Descriptor.bytes ⟨0x4000, 16, 1, 1⟩ ++
      BlkMachine.Descriptor.bytes ⟨0x5000, 4, 3, 2⟩ ++
      BlkMachine.Descriptor.bytes ⟨0x6000, 1, 2, 0⟩),
    (0x11000, BlkMachine.Descriptor.bytes ⟨0x18000, 4, 0, 0⟩),
    (0x14000, BlkMachine.Descriptor.bytes ⟨0x19000, 2, 0, 0⟩)], 0x30000⟩
  rx := {
    queue := { sampleQueue with descAddr := 0x11000, availAddr := 0x12000, usedAddr := 0x13000 }
    buffer := List.replicate Net.bufferLen 0 }
  tx := {
    queue := { sampleQueue with descAddr := 0x14000, availAddr := 0x15000, usedAddr := 0x16000 }
    buffer := List.replicate Net.bufferLen 0 }
  blk := { blk := (BlkMachine.sampleMachine 0 0).blk, queue := sampleQueue, selected := rfl }
  rng := {
    queue := { sampleQueue with descAddr := 0x21000, availAddr := 0x22000, usedAddr := 0x23000 } }

theorem sampleState_apart : sampleState.rings.Pairwise Span.Apart := by
  have hpair : sampleState.rings.Pairwise fun left right =>
      (left.addr.toNat + left.len ≤ right.addr.toNat ∧ right.addr.toNat + right.len ≤ 2 ^ 64) ∨
        right.addr.toNat + right.len ≤ left.addr.toNat ∧ left.addr.toNat + left.len ≤ 2 ^ 64 := by
    decide
  exact hpair.imp fun h => h.elim (fun h => Span.apart_of_le h.1 h.2)
    fun h => (Span.apart_of_le h.1 h.2).symm

theorem sampleState_start : Start sampleState where
  rx := {
    placed := {
      size_pos := by decide
      size_le := by decide
      table := by decide
      avail := by decide
      used := by decide
      avail_used := Span.apart_of_le (by decide) (by decide)
      table_used := Span.apart_of_le (by decide) (by decide) }
    ready := rfl
    counter := rfl
    availIdx := by decide
    usedIdx := by decide
    buffer := List.length_replicate
    idle := rfl
    published := rfl
    used := rfl }
  tx := {
    placed := {
      size_pos := by decide
      size_le := by decide
      table := by decide
      avail := by decide
      used := by decide
      avail_used := Span.apart_of_le (by decide) (by decide)
      table_used := Span.apart_of_le (by decide) (by decide) }
    ready := rfl
    counter := rfl
    availIdx := by decide
    usedIdx := by decide
    buffer := List.length_replicate
    idle := rfl
    published := rfl
    used := rfl }
  blk := {
    placed := sampleQueue_placed (by decide)
    ready := rfl
    table_avail := Span.apart_of_le (by decide) (by decide)
    counter := rfl
    availIdx := by decide
    usedIdx := by decide
    orders := rfl
    taken := rfl
    stream := rfl }
  rng := {
    size_pos := by decide
    size_le := by decide
    table := by decide
    avail := by decide
    used := by decide
    avail_used := Span.apart_of_le (by decide) (by decide)
    table_used := Span.apart_of_le (by decide) (by decide) }
  idle := rfl
  apart := sampleState_apart

def sampleOrder : Blk.Order := ⟨BlkMachine.sampleRequest, .read 0 4⟩

theorem sampleOrder_buffers : ∀ span ∈ sampleOrder.request.buffers,
    0x4000 ≤ span.addr.toNat ∧ span.addr.toNat + span.len ≤ 0x7000 := by
  decide

theorem sampleOrder_off : ∀ span ∈ sampleOrder.request.buffers, ∀ ring ∈ sampleState.rings,
    ring.Apart span := by
  have hrings : ∀ ring ∈ sampleState.rings, ring.addr.toNat + ring.len ≤ 0x4000 ∨
      0x7000 ≤ ring.addr.toNat ∧ ring.addr.toNat + ring.len ≤ 2 ^ 64 := by decide
  intro span hspan ring hring
  obtain ⟨hlow, hhigh⟩ := sampleOrder_buffers span hspan
  rcases hrings ring hring with hbelow | ⟨habove, hend⟩
  · exact Span.apart_of_le (hbelow.trans hlow) (hhigh.trans (by decide))
  · exact (Span.apart_of_le (hhigh.trans habove) hend).symm

theorem sampleOrder_chain : sampleQueue.Chain sampleState.guest.bytes sampleOrder.request.head
    sampleOrder.request.chain :=
  ⟨by decide, by decide, by decide, by decide, by decide, by decide, by decide, by decide,
    by decide⟩

theorem sampleOrder_wellFormed :
    sampleOrder.request.WellFormed sampleQueue sampleState.guest 4 where
  placed := sampleQueue_placed (by decide)
  event := by decide
  laid := {
    chain := sampleOrder_chain
    hdr_held := by decide
    data_held := by decide
    data_entries := by
      intro _ d hd i hi
      obtain rfl := List.mem_singleton.mp hd
      have hindex := sampleOrder_chain.index_lt i hi
      have htable : sampleQueue.tableSpan.Apart ⟨0x5000, 4⟩ :=
        Span.apart_of_le (by decide) (by decide)
      exact htable.mono (Queue.descEntry_within hindex) (Span.Within.refl _)
    st_held := by decide }
  kind := Or.inl (by decide)
  data_apart := List.pairwise_singleton _ _
  data_used := by
    intro span hspan
    obtain rfl := List.mem_singleton.mp hspan
    exact (Span.apart_of_le (by decide) (by decide)).symm
  data_st := by
    intro span hspan
    obtain rfl := List.mem_singleton.mp hspan
    exact Span.apart_of_le (by decide) (by decide)
  st_used := (Span.apart_of_le (by decide) (by decide)).symm
  range := by
    change _ ≤ 4
    decide

def sampleOrdered : State :=
  { sampleState with
    blk := sampleState.blk.afterPublish sampleOrder
    guest := sampleState.blk.publishIdx sampleState.guest }

theorem sampleOrdered_step :
    Step 512 4 sampleState (.blk (.publish sampleOrder)) sampleOrdered := by
  refine Step.blk (Blk.Side.Step.publish ?_) fun span _ => ⟨?_, ?_⟩
  · constructor
    case room => decide
    case few => decide
    case slot => decide
    case request => exact sampleOrder_wellFormed
    case access =>
      have htype : sampleOrder.request.type sampleState.guest.bytes = blkTIn := by decide
      have hsector : sampleOrder.request.sector sampleState.guest.bytes = 0 := by decide
      unfold Blk.Request.access
      rw [if_pos htype, hsector]
      rfl
    case off_rings => exact sampleOrder_off
    case off_others => exact fun _ _ other hother => absurd hother List.not_mem_nil
  · exact fun d ⟨k, head, ds, hout, _⟩ => nomatch hout.2
  · exact fun d ⟨k, head, ds, hout, _⟩ => nomatch hout.2

def sampleOffered : State :=
  { sampleOrdered with
    rx := sampleOrdered.rx.afterPublish 0
    guest := sampleOrdered.rx.publishIdx sampleOrdered.guest }

theorem sampleOffered_step : Step 512 4 sampleOrdered (.rx (.publish 0)) sampleOffered := by
  refine Step.rx (Net.RxStep.publish ?_)
  constructor
  case room => decide
  case few => decide
  case slot => decide
  case offered =>
    refine ⟨[⟨0x18000, 4, 0, 0⟩], ⟨by decide, by decide, by decide⟩, by decide, ?_, by decide⟩
    intro d hd ring hring
    obtain rfl := List.mem_singleton.mp hd
    have hplaces : ∀ ring ∈ sampleOrdered.taboo, ring.addr.toNat + ring.len ≤ 0x18000 ∨
        (Descriptor.span ⟨0x18000, 4, 0, 0⟩).addr.toNat + 4 ≤ ring.addr.toNat ∧
          ring.addr.toNat + ring.len ≤ 2 ^ 64 := by decide
    rcases hplaces ring hring with hbelow | ⟨habove, hend⟩
    · exact Span.apart_of_le hbelow (by decide)
    · exact (Span.apart_of_le habove hend).symm

/-- The disk answers, and the buffer for a packet is still there to be taken. -/
theorem answered_beside_net : ∃ moves s, Run (Step 512 4) sampleState moves s ∧
    s.blk.taken = 1 ∧ s.rx.published = [0] ∧ s.rx.position = .taken 0 ∧
    s.rx.Exact s.guest ∧ s.blk.Exact 512 [1, 2, 3, 4] s.guest := by
  have hstart : Inv 4 [1, 2, 3, 4] sampleState := inv_start sampleState_start
  have hordered := inv_step (by decide) (by decide) hstart sampleOrdered_step
  have hoffered := inv_step (by decide) (by decide) hordered sampleOffered_step
  have hpend : sampleOffered.blk.Pending 0 sampleOrder := ⟨le_rfl, rfl⟩
  obtain ⟨len, idx, raised, hround⟩ := Blk.runOnce_eq (show queueSizeMax.toNat ≤ 512 by decide)
    (hoffered.blk.takes hpend.2) ((hoffered.blk.requests _ _ hpend).counter _).toProper
  have hanswered : Step 512 4 sampleOffered _ _ :=
    Step.blk (Blk.Side.Step.round hround
      (Blk.selected_answer sampleOffered.blk.selected _ _ _)) trivial
  have hinv := inv_step (by decide) (by decide) hoffered hanswered
  have hnext : Step 512 4 _ (.rx .next) _ := Step.rx (Net.RxStep.next rfl (hinv.rx.next_eq rfl))
  have run := (((Run.one sampleOrdered_step).snoc sampleOffered_step).snoc hanswered).snoc hnext
  obtain ⟨⟨hrx, -⟩, hblk, -⟩ := shared_exact (by decide) (by decide) sampleState_start run
  exact ⟨_, _, run, rfl, rfl, rfl, hrx, hblk⟩

end SharedMemory

end Kthxvm.Virtio
