import Kthxvm.Lib.Ring
import Kthxvm.Lib.Transition
import Kthxvm.Virtio.Queue

/-! The available ring as a channel from the driver to the device. The driver
numbers its publications without bound and stores only sixteen bits of that
number; the device counts in 32 bits and compares the two. -/
namespace Kthxvm.Virtio.AvailRing

open Lib.ByteMemory Lib.Ring Lib.Transition

/-- The driver publishes its `k`-th chain: slot first, then the 16-bit index. -/
def publish (q : Queue) (m : Memory) (k : Nat) (head : UInt16) : Memory :=
  store16 (store16 m (q.availSlot (UInt32.ofNat (k % q.size.toNat))) head)
    q.availIdxAddr (UInt16.ofNat (k + 1))

/-- Ghost fields record what went through the ring: `taken` lists the chains of
the calls of `next()` that were not undone. -/
structure State where
  queue : Queue
  guest : Guest
  published : List UInt16 := []
  taken : List UInt16 := []
  returned : Nat := 0
  /-- a chain was taken and neither given back nor completed yet -/
  holding : Bool := false

namespace State

def afterPublish (s : State) (head : UInt16) : State :=
  { s with
    guest := ⟨AvailRing.publish s.queue s.guest.bytes s.published.length head, s.guest.size⟩
    published := s.published ++ [head] }

def afterNext (s : State) (result : Option UInt16) (q : Queue) : State :=
  { s with queue := q, taken := s.taken ++ result.toList, holding := result.isSome }

def afterPopBack (s : State) : State :=
  { s with queue := s.queue.popBack, taken := s.taken.dropLast, holding := false }

def afterAddUsed (s : State) (g : Guest) : State :=
  { s with guest := g, returned := s.returned + 1, holding := false }

@[simp] theorem length_afterPublish (s : State) (head : UInt16) :
    (s.afterPublish head).published.length = s.published.length + 1 := by
  simp [afterPublish]

end State

inductive Event where
  | publish (head : UInt16)
  | next
  | popBack
  | addUsed (start len : UInt32)
deriving DecidableEq

inductive Step : State → Event → State → Prop where
  | publish {s : State} (head : UInt16)
      (hhead : head.toNat < queueSizeMax.toNat)
      (hroom : s.published.length < s.returned + s.queue.size.toNat) :
      Step s (.publish head) (s.afterPublish head)
  | next {s : State} {result : Option UInt16} {q : Queue} (hidle : s.holding = false)
      (h : s.queue.next s.guest = .ok (result, q)) :
      Step s .next (s.afterNext result q)
  | popBack {s : State} (hholding : s.holding = true) : Step s .popBack s.afterPopBack
  | addUsed {s : State} {idx : UInt16} {g : Guest} (start len : UInt32)
      (hholding : s.holding = true)
      (h : s.queue.addUsed s.guest start len = .ok (idx, g)) :
      Step s (.addUsed start len) (s.afterAddUsed g)

structure Start (s : State) : Prop where
  placed : s.queue.Placed s.guest
  ready : s.queue.ready = true
  counter : s.queue.lastAvail = 0
  idx : load16 s.guest.bytes s.queue.availIdxAddr = 0
  ghost : s.published = [] ∧ s.taken = [] ∧ s.returned = 0 ∧ s.holding = false

/-- The ring is the channel: what was taken is what was published first, and
`next()` would deliver the first chain not yet taken, `nullptr` only if there
is none; `avail_id()` after it is the head of that chain. -/
def Exact (s : State) : Prop :=
  s.taken <+: s.published ∧
  ∃ q, s.queue.next s.guest = .ok (s.published[s.taken.length]?, q) ∧
    ∀ head, s.published[s.taken.length]? = some head → q.availId s.guest = .ok head

structure Inv (s : State) : Prop where
  placed : s.queue.Placed s.guest
  ready : s.queue.ready = true
  counter : s.queue.lastAvail.toNat = s.taken.length
  idx : load16 s.guest.bytes s.queue.availIdxAddr = UInt16.ofNat s.published.length
  order : s.taken <+: s.published
  taken_lt : s.taken.length < 2 ^ 16
  returned : s.returned + s.holding.toNat = s.taken.length
  window : s.published.length ≤ s.returned + s.queue.size.toNat
  /-- slots of chains not yet returned are not overwritten -/
  slots : ∀ k head, s.published[k]? = some head → s.returned ≤ k →
    load16 s.guest.bytes (s.queue.availSlot (UInt32.ofNat (k % s.queue.size.toNat))) = head
  heads : ∀ head ∈ s.published, head.toNat < 512

theorem inv_start {s : State} (h : Start s) : Inv s := by
  obtain ⟨hplaced, hready, hcounter, hidx, hpub, htaken, hret, hhold⟩ := h
  constructor <;> simp_all

theorem slot_toNat {size k : Nat} (hpos : 0 < size) (hle : size ≤ 512) :
    (UInt32.ofNat (k % size)).toNat = k % size := by
  have := Nat.mod_lt k hpos
  rw [UInt32.toNat_ofNat', Nat.mod_eq_of_lt (by omega)]

theorem counter_slot {q : Queue} {n : Nat} (hpos : 0 < q.size.toNat)
    (hle : q.size.toNat ≤ 512) (hn : q.lastAvail.toNat = n) :
    q.lastAvail % q.size = UInt32.ofNat (n % q.size.toNat) := by
  apply UInt32.toNat_inj.mp
  rw [UInt32.toNat_mod, slot_toNat hpos hle, hn]

theorem next_eq {s : State} (h : Inv s) :
    s.queue.next s.guest =
      if s.taken.length < s.published.length % 2 ^ 16 then
        .ok (s.published[s.taken.length]?,
          { s.queue with lastAvail := s.queue.lastAvail + 1 })
      else .ok (none, s.queue) := by
  have hpos := h.placed.size_pos
  have hle : s.queue.size.toNat ≤ 512 := h.placed.size_le
  have hidx : (load16 s.guest.bytes s.queue.availIdxAddr).toNat =
      s.published.length % 2 ^ 16 := by
    rw [h.idx, UInt16.toNat_ofNat']
  split
  · rename_i hlt
    have hmod : s.published.length % 2 ^ 16 ≤ s.published.length := Nat.mod_le _ _
    have hk : s.taken.length < s.published.length := by omega
    have hret : s.returned ≤ s.taken.length := by
      have := h.returned
      omega
    have hslot := h.slots s.taken.length _ (List.getElem?_eq_getElem hk) hret
    rw [← counter_slot hpos hle h.counter] at hslot
    have hhead : s.published[s.taken.length].toNat < 512 :=
      h.heads _ (List.getElem_mem hk)
    rw [Queue.next_some h.placed h.ready (by rw [h.counter, hidx]; exact hlt)
      (by rw [hslot]; exact hhead), hslot, List.getElem?_eq_getElem hk]
  · rename_i hge
    apply Queue.next_none h.placed
    rw [h.counter, hidx]
    omega

theorem availId_eq {s : State} (h : Inv s) (hk : s.taken.length < s.published.length) :
    Queue.availId { s.queue with lastAvail := s.queue.lastAvail + 1 } s.guest =
      .ok s.published[s.taken.length] := by
  have hret : s.returned ≤ s.taken.length := by
    have := h.returned
    omega
  have hplaced : Queue.Placed { s.queue with lastAvail := s.queue.lastAvail + 1 } s.guest :=
    h.placed.congr rfl rfl rfl rfl rfl
  have hcancel : s.queue.lastAvail + 1 - 1 = s.queue.lastAvail := UInt32.add_sub_cancel _ _
  rw [Queue.availId_ok hplaced]
  dsimp only
  rw [hcancel, counter_slot h.placed.size_pos h.placed.size_le h.counter]
  exact congrArg Except.ok (h.slots s.taken.length _ (List.getElem?_eq_getElem hk) hret)

theorem inv_publish {s : State} (h : Inv s) {head : UInt16} (hhead : head.toNat < 512)
    (hroom : s.published.length < s.returned + s.queue.size.toNat) :
    Inv (s.afterPublish head) := by
  have hpos := h.placed.size_pos
  have hle : s.queue.size.toNat ≤ 512 := h.placed.size_le
  have hi : ∀ k, (UInt32.ofNat (k % s.queue.size.toNat)).toNat < 512 := by
    intro k
    rw [slot_toNat hpos hle]
    exact Nat.lt_of_lt_of_le (Nat.mod_lt k hpos) hle
  constructor
  case placed => exact h.placed.congr rfl rfl rfl rfl rfl
  case ready => exact h.ready
  case counter => exact h.counter
  case idx => simp [State.afterPublish, publish]
  case order => exact h.order.trans (List.prefix_append _ _)
  case taken_lt => exact h.taken_lt
  case returned => exact h.returned
  case window =>
    rw [State.length_afterPublish]
    exact hroom
  case slots =>
    intro k x hx hret
    change (s.published ++ [head])[k]? = some x at hx
    change s.returned ≤ k at hret
    change load16 (publish s.queue s.guest.bytes s.published.length head)
      (s.queue.availSlot (UInt32.ofNat (k % s.queue.size.toNat))) = x
    have hidx : AgreeOn ⟨s.queue.availSlot (UInt32.ofNat (k % s.queue.size.toNat)), 2⟩
        (store16 s.guest.bytes (s.queue.availSlot
          (UInt32.ofNat (s.published.length % s.queue.size.toNat))) head)
        (publish s.queue s.guest.bytes s.published.length head) :=
      (AgreeOn.refl _ _).store16 (Queue.availIdx_apart_slot (hi k)).symm
    rw [← hidx.load16_eq]
    rcases Nat.lt_trichotomy k s.published.length with hold | hnew | hbeyond
    · -- an older chain sits in another slot of the window
      have hne : k % s.queue.size.toNat ≠ s.published.length % s.queue.size.toNat :=
        mod_ne_of_window hold (by omega)
      have hne' : UInt32.ofNat (k % s.queue.size.toNat) ≠
          UInt32.ofNat (s.published.length % s.queue.size.toNat) := by
        intro heq
        apply hne
        rw [← slot_toNat hpos hle, heq, slot_toNat hpos hle]
      have hagree := (AgreeOn.refl _ s.guest.bytes).store16 (v := head)
        (Queue.availSlot_apart (q := s.queue) (hi k) (hi s.published.length) hne')
      rw [List.getElem?_append_left hold] at hx
      rw [← hagree.load16_eq]
      exact h.slots k x hx hret
    · subst hnew
      rw [List.getElem?_concat_length, Option.some.injEq] at hx
      rw [load16_store16, hx]
    · rw [List.getElem?_eq_none (by simp; omega)] at hx
      contradiction
  case heads =>
    intro x hx
    rcases List.mem_append.mp hx with hold | hnew
    · exact h.heads x hold
    · rw [List.mem_singleton] at hnew
      subst hnew
      exact hhead

theorem inv_next {s : State} (h : Inv s) {result : Option UInt16} {q : Queue}
    (hidle : s.holding = false) (hn : s.queue.next s.guest = .ok (result, q)) :
    Inv (s.afterNext result q) := by
  have hret := h.returned
  rw [hidle, Bool.toNat_false] at hret
  rw [next_eq h] at hn
  split at hn
  · rename_i hlt
    have hmod : s.published.length % 2 ^ 16 ≤ s.published.length := Nat.mod_le _ _
    have hbound : s.published.length % 2 ^ 16 < 2 ^ 16 := Nat.mod_lt _ (by norm_num)
    have hk : s.taken.length < s.published.length := by omega
    have hlen : ∀ head : UInt16, (s.taken ++ [head]).length = s.taken.length + 1 := by simp
    rw [List.getElem?_eq_getElem hk] at hn
    cases hn
    constructor
    case placed => exact h.placed.congr rfl rfl rfl rfl rfl
    case ready => exact h.ready
    case counter =>
      change (s.queue.lastAvail + 1).toNat = (s.taken ++ [s.published[s.taken.length]]).length
      rw [hlen, UInt32.toNat_add, h.counter]
      simp only [UInt32.reduceToNat]
      omega
    case idx => exact h.idx
    case order => exact List.concat_get_prefix h.order hk
    case taken_lt =>
      change (s.taken ++ [s.published[s.taken.length]]).length < 2 ^ 16
      rw [hlen]
      omega
    case returned =>
      change s.returned + 1 = (s.taken ++ [s.published[s.taken.length]]).length
      rw [hlen]
      omega
    case window => exact h.window
    case slots => exact h.slots
    case heads => exact h.heads
  · cases hn
    have hsame : s.afterNext none s.queue = s := by
      cases s
      simp_all [State.afterNext]
    rw [hsame]
    exact h

theorem inv_popBack {s : State} (h : Inv s) (hholding : s.holding = true) :
    Inv s.afterPopBack := by
  have hret := h.returned
  rw [hholding, Bool.toNat_true] at hret
  have hlt := h.taken_lt
  have hone : (1 : UInt32) ≤ s.queue.lastAvail := by
    rw [UInt32.le_iff_toNat_le, h.counter]
    simp only [UInt32.reduceToNat]
    omega
  constructor
  case placed => exact h.placed.congr rfl rfl rfl rfl rfl
  case ready => exact h.ready
  case counter =>
    change (s.queue.lastAvail - 1).toNat = s.taken.dropLast.length
    rw [UInt32.toNat_sub_of_le _ _ hone, h.counter, List.length_dropLast]
    rfl
  case idx => exact h.idx
  case order => exact (List.dropLast_prefix _).trans h.order
  case taken_lt =>
    change s.taken.dropLast.length < 2 ^ 16
    rw [List.length_dropLast]
    omega
  case returned =>
    change s.returned + 0 = s.taken.dropLast.length
    rw [List.length_dropLast]
    omega
  case window => exact h.window
  case slots => exact h.slots
  case heads => exact h.heads

theorem inv_addUsed {s : State} (h : Inv s) {start len : UInt32} {idx : UInt16} {g : Guest}
    (hholding : s.holding = true)
    (hu : s.queue.addUsed s.guest start len = .ok (idx, g)) : Inv (s.afterAddUsed g) := by
  have hpos := h.placed.size_pos
  have hle : s.queue.size.toNat ≤ 512 := h.placed.size_le
  have hret := h.returned
  rw [hholding, Bool.toNat_true] at hret
  have hwindow := h.window
  rw [Queue.addUsed_ok h.placed] at hu
  cases hu
  -- the device writes the used ring only
  have hagree := Queue.afterAddUsed_agree hpos hle h.placed.avail_used s.guest.bytes start len
  constructor
  case placed => exact h.placed.congr rfl rfl rfl rfl rfl
  case ready => exact h.ready
  case counter => exact h.counter
  case idx => exact (hagree.mono (Queue.availIdx_within hpos)).load16_eq.symm.trans h.idx
  case order => exact h.order
  case taken_lt => exact h.taken_lt
  case returned => exact hret
  case window =>
    change s.published.length ≤ s.returned + 1 + s.queue.size.toNat
    omega
  case slots =>
    intro k x hx hk
    have hslot : (UInt32.ofNat (k % s.queue.size.toNat)).toNat < s.queue.size.toNat := by
      rw [slot_toNat hpos hle]
      exact Nat.mod_lt k hpos
    have hkept := (hagree.mono (Queue.availSlot_within hle hslot)).load16_eq
    exact hkept.symm.trans (h.slots k x hx (Nat.le_of_succ_le hk))
  case heads => exact h.heads

theorem inv_step (s : State) (e : Event) (s' : State) (h : Inv s) (hstep : Step s e s') :
    Inv s' := by
  cases hstep with
  | publish head hhead hroom => exact inv_publish h hhead hroom
  | next hidle hn => exact inv_next h hidle hn
  | popBack hholding => exact inv_popBack h hholding
  | addUsed start len hholding hu => exact inv_addUsed h hholding hu

theorem inv_run {start s : State} {moves : List (Move State Event)} (h0 : Start start)
    (run : Run Step start moves s) : Inv s :=
  run.invariant (inv_start h0) inv_step

/-- Under the invariant the 16-bit comparison is right exactly before the wrap. -/
theorem exact_iff_of_inv {s : State} (h : Inv s) (hidle : s.holding = false) :
    Exact s ↔ s.published.length < 2 ^ 16 := by
  have hret := h.returned
  rw [hidle, Bool.toNat_false] at hret
  have hwindow := h.window
  have hsize : s.queue.size.toNat ≤ 512 := h.placed.size_le
  have htaken := h.taken_lt
  have horder := h.order.length_le
  have hnext := next_eq h
  constructor
  · -- past the wrap `next()` finds nothing although a chain is waiting
    rintro ⟨-, q, hq, -⟩
    by_contra hge
    have hk : s.taken.length < s.published.length := by omega
    rw [hnext, if_neg (by omega), List.getElem?_eq_getElem hk] at hq
    cases hq
  · intro hlt
    refine ⟨h.order, ?_⟩
    rw [Nat.mod_eq_of_lt hlt] at hnext
    by_cases hk : s.taken.length < s.published.length
    · rw [if_pos hk] at hnext
      refine ⟨_, hnext, ?_⟩
      intro head hhead
      rw [List.getElem?_eq_getElem hk] at hhead
      cases hhead
      exact availId_eq h hk
    · rw [if_neg hk] at hnext
      have hnone : s.published[s.taken.length]? = none := List.getElem?_eq_none (by omega)
      refine ⟨s.queue, ?_, ?_⟩
      · rw [hnext, hnone]
      · intro head hhead
        rw [hnone] at hhead
        cases hhead

/-- In every run, at every point where the device may call `next()`, the ring is
the channel if and only if the driver has published fewer than 2^16 chains. -/
theorem next_exact_iff {start s : State} {moves : List (Move State Event)}
    (h0 : Start start) (run : Run Step start moves s) (hidle : s.holding = false) :
    Exact s ↔ s.published.length < 2 ^ 16 :=
  exact_iff_of_inv (inv_run h0 run) hidle

/-! A queue of one slot, on which each chain is completed before the next one is
published. -/

def oneSlot : State where
  queue := { size := 1, descAddr := 0x1000, availAddr := 0x2000, usedAddr := 0x3000, ready := true }
  guest := { bytes := fun _ => 0, size := 0x4000 }

theorem oneSlot_start : Start oneSlot where
  placed := {
    size_pos := by decide
    size_le := by decide
    table := by decide
    avail := by decide
    used := by decide
    avail_used := Span.apart_of_offset (a := 0) (j := 0x2000) (k := 0x3000)
      (by decide) (by decide)
    table_used := Span.apart_of_offset (a := 0) (j := 0x1000) (k := 0x3000)
      (by decide) (by decide) }
  ready := rfl
  counter := rfl
  idx := rfl
  ghost := ⟨rfl, rfl, rfl, rfl⟩

def round : List Event := [.publish 0, .next, .addUsed 0 0]

theorem round_run {s : State} (h : Inv s) (hidle : s.holding = false)
    (hdrained : s.returned = s.published.length) (hlt : s.published.length + 1 < 2 ^ 16) :
    ∃ moves s', Run Step s moves s' ∧ moves.map Move.label = round ∧
      s'.holding = false ∧ s'.returned = s'.published.length ∧
      s'.published.length = s.published.length + 1 := by
  have hpos := h.placed.size_pos
  have hret := h.returned
  rw [hidle, Bool.toNat_false] at hret
  have hpub : Step s (.publish 0) (s.afterPublish 0) :=
    Step.publish 0 (by decide) (by omega)
  have h1 := inv_step _ _ _ h hpub
  have hk : (s.afterPublish 0).taken.length < (s.afterPublish 0).published.length := by
    rw [State.length_afterPublish]
    change s.taken.length < _
    omega
  have hn := next_eq h1
  rw [if_pos (by rw [State.length_afterPublish] at hk ⊢; rwa [Nat.mod_eq_of_lt hlt]),
    List.getElem?_eq_getElem hk] at hn
  have hnext := Step.next (s := s.afterPublish 0) hidle hn
  have h2 := inv_step _ _ _ h1 hnext
  have hadd := Step.addUsed 0 0 rfl (Queue.addUsed_ok h2.placed 0 0)
  refine ⟨_, _, ((Run.one hpub).snoc hnext).snoc hadd, rfl, rfl, ?_, ?_⟩
  · change s.returned + 1 = (s.afterPublish 0).published.length
    rw [State.length_afterPublish, hdrained]
  · exact State.length_afterPublish s 0

theorem rounds_run (n : Nat) (hn : n < 2 ^ 16) :
    ∃ moves s, Run Step oneSlot moves s ∧
      moves.map Move.label = (List.replicate n round).flatten ∧
      s.holding = false ∧ s.returned = s.published.length ∧ s.published.length = n := by
  induction n with
  | zero => exact ⟨[], oneSlot, Run.nil, rfl, rfl, rfl, rfl⟩
  | succ n ih =>
    obtain ⟨moves, s, run, hlabels, hidle, hdrained, hlen⟩ := ih (by omega)
    obtain ⟨moves', s', run', hlabels', hidle', hdrained', hlen'⟩ :=
      round_run (inv_run oneSlot_start run) hidle hdrained (by omega)
    refine ⟨moves ++ moves', s', run.append run', ?_, hidle', hdrained', by omega⟩
    rw [List.map_append, hlabels, hlabels', List.replicate_succ', List.flatten_append]
    simp

/-- Two chains through the ring, and a third one that is taken and given back: it waits. -/
theorem oneSlot_exact : ∃ moves s, Run Step oneSlot moves s ∧
    moves.map Move.label = (List.replicate 2 round).flatten ++ [.publish 0, .next, .popBack] ∧
    s.published.length = 3 ∧ s.taken.length = 2 ∧ Exact s := by
  obtain ⟨moves, s, run, hlabels, hidle, hdrained, hlen⟩ := rounds_run 2 (by norm_num)
  have h := inv_run oneSlot_start run
  have hret := h.returned
  rw [hidle, Bool.toNat_false] at hret
  have hpub : Step s (.publish 0) (s.afterPublish 0) :=
    Step.publish 0 (by decide) (by have := h.placed.size_pos; omega)
  have h1 := inv_step _ _ _ h hpub
  have htaken : (s.afterPublish 0).taken.length = 2 := by
    change s.taken.length = 2
    omega
  have hpublished : (s.afterPublish 0).published.length = 3 := by
    rw [State.length_afterPublish, hlen]
  have hn := next_eq h1
  rw [htaken, hpublished, if_pos (by norm_num), List.getElem?_eq_getElem (by omega)] at hn
  have hrun := ((run.snoc hpub).snoc (Step.next (s := s.afterPublish 0) hidle hn)).snoc
    (Step.popBack rfl)
  refine ⟨_, _, hrun, ?_, hpublished, ?_, ?_⟩
  · rw [List.map_append, List.map_append, List.map_append, hlabels]
    rfl
  · change (s.taken ++ [_]).dropLast.length = 2
    rw [List.dropLast_concat]
    exact htaken
  · rw [next_exact_iff oneSlot_start hrun rfl]
    change (s.afterPublish 0).published.length < 2 ^ 16
    rw [hpublished]
    norm_num

/-- After 65535 completed chains the next one wraps the index to 0 and stays
in the ring: `next()` returns `nullptr` although it was never taken. -/
theorem wrap_strands_chain : ∃ moves s, Run Step oneSlot moves s ∧
    moves.map Move.label = (List.replicate 65535 round).flatten ++ [.publish 0] ∧
    s.holding = false ∧ s.published.length = 65536 ∧ s.taken.length = 65535 ∧
    s.queue.next s.guest = .ok (none, s.queue) ∧ ¬ Exact s := by
  obtain ⟨moves, s, run, hlabels, hidle, hdrained, hlen⟩ := rounds_run 65535 (by norm_num)
  have h := inv_run oneSlot_start run
  have hret := h.returned
  rw [hidle, Bool.toNat_false] at hret
  have hpub : Step s (.publish 0) (s.afterPublish 0) :=
    Step.publish 0 (by decide) (by have := h.placed.size_pos; omega)
  have h' := inv_step _ _ _ h hpub
  have hlen' : (s.afterPublish 0).published.length = 65536 := by
    rw [State.length_afterPublish, hlen]
  have hn := next_eq h'
  rw [if_neg (by rw [hlen']; norm_num)] at hn
  refine ⟨_, _, run.snoc hpub, ?_, hidle, hlen', ?_, hn, ?_⟩
  · rw [List.map_append, hlabels]
    rfl
  · change s.taken.length = 65535
    omega
  · rw [exact_iff_of_inv h' hidle, hlen']
    norm_num

end Kthxvm.Virtio.AvailRing
