import Kthxvm.Virtio.NetBuffers

/-! The frames on their way from the driver to the tap, while both threads and the driver go
on: what is published is what is written and what still waits in guest memory. -/
namespace Kthxvm.Virtio.Net

open Lib.ByteMemory Lib.Disk Lib.ScatterGather Lib.Transition

namespace Side

variable {α : Type} {taboo taboo' : List Span} {s s' : Side α} {g g' : Guest} {head next : UInt16}
  {len : UInt32} {ds left : List Descriptor} {new : Option UInt16}

def frame (s : Side α) (g : Guest) (head : UInt16) : List UInt8 :=
  gather g.bytes (spans (s.queue.walk g.bytes queueSizeMax.toNat head))

theorem Inv.frame_eq (h : s.Inv taboo g) (hds : s.queue.Chain g.bytes head ds) :
    s.frame g head = gather g.bytes (spans ds) := by
  unfold frame
  rw [hds.walk_eq (hds.length_le.trans h.placed.size_le)]

theorem Relends.gather_eq {k : Nat} (hdata : ∀ d, s.Lent g d → AgreeOn d.span g.bytes g'.bytes)
    (hout : s.Outstanding k head) (hds : s.queue.Chain g.bytes head ds) (hsub : left ⊆ ds) :
    gather g'.bytes (spans left) = gather g.bytes (spans left) := by
  refine (gather_congr (spans_len_le left) ?_).symm
  intro span hspan
  obtain ⟨d, hd, rfl⟩ := List.mem_map.mp hspan
  exact hdata d ⟨k, head, ds, hout, hds, hsub hd⟩

theorem Relends.frame_eq {k k' : Nat} (hrelends : s.Relends g s' g' new) (h : s.Inv taboo g)
    (h' : s'.Inv taboo' g') (hdata : ∀ d, s.Lent g d → AgreeOn d.span g.bytes g'.bytes)
    (hout : s.Outstanding k head) (hout' : s'.Outstanding k' head) :
    s'.frame g' head = s.frame g head := by
  obtain ⟨ds, hds⟩ := h.offered k head hout
  have hds' := (hrelends.chain k' head ds hout').mpr hds.chain
  rw [h'.frame_eq hds', h.frame_eq hds.chain]
  exact gather_eq hdata hout hds.chain (List.Subset.refl ds)

theorem Relends.frames_eq {n : Nat} (hrelends : s.Relends g s' g' new) (h : s.Inv taboo g)
    (h' : s'.Inv taboo' g') (hdata : ∀ d, s.Lent g d → AgreeOn d.span g.bytes g'.bytes)
    (hn : s'.used.length ≤ n) :
    (s.published.drop n).map (s'.frame g') = (s.published.drop n).map (s.frame g) := by
  apply List.map_congr_left
  intro head hmem
  obtain ⟨k, hk⟩ := List.mem_iff_getElem?.mp hmem
  rw [List.getElem?_drop] at hk
  have hk' : s'.published[n + k]? = some head := by
    rw [hrelends.published, List.getElem?_append_left (List.getElem?_eq_some_iff.mp hk).1, hk]
  exact hrelends.frame_eq h h' hdata ⟨hrelends.used.trans (hn.trans (Nat.le_add_right n k)), hk⟩
    ⟨hn.trans (Nat.le_add_right n k), hk'⟩

end Side

namespace Side

variable {taboo taboo' : List Span} {s s' : Side Unit} {g g' : Guest} {head next : UInt16}
  {len : UInt32} {new : Option UInt16}

def Gathering (s : Side Unit) (g : Guest) (next : UInt16) (len : UInt32) : Prop :=
  ∃ head ds left, s.Holding head ∧ s.queue.Chain g.bytes head ds ∧
    s.queue.Chain g.bytes next left ∧
    Queue.chainIndices next left <:+ Queue.chainIndices head ds ∧
    len.toNat + totalLen (spans left) ≤ bufferLen ∧
    s.buffer.take len.toNat ++ gather g.bytes (spans left) = gather g.bytes (spans ds)

def Gathered (s : Side Unit) (g : Guest) (written : UInt32) : Prop :=
  ∃ head, s.Holding head ∧ s.buffer.take written.toNat = s.frame g head

def Staged (s : Side Unit) (g : Guest) : Position Unit → Prop
  | .copying _ _ next len => s.Gathering g next len
  | .gathered _ written => s.Gathered g written
  | _ => True

theorem Gathering.keep (hgathering : s.Gathering g next len) (hrelends : s.Relends g s' g' new)
    (hdata : ∀ d, s.Lent g d → AgreeOn d.span g.bytes g'.bytes)
    (hholding : ∀ head, s.Holding head → s'.Holding head) (hbuffer : s'.buffer = s.buffer) :
    s'.Gathering g' next len := by
  obtain ⟨head, ds, left, hhold, hds, hleft, hsuffix, hroom, hbytes⟩ := hgathering
  have hout : s.Outstanding _ head := ⟨le_rfl, hhold.first⟩
  have hout' : s'.Outstanding _ head := ⟨le_rfl, (hholding head hhold).first⟩
  refine ⟨head, ds, left, hholding head hhold, (hrelends.chain _ _ _ hout').mpr hds,
    hrelends.rest hout' hds hleft hsuffix, hsuffix, hroom, ?_⟩
  rw [hbuffer, Relends.gather_eq hdata hout hds (hds.subset_of_suffix hleft hsuffix),
    Relends.gather_eq hdata hout hds (List.Subset.refl ds)]
  exact hbytes

theorem Staged.keep {position : Position Unit} (hstaged : s.Staged g position)
    (hrelends : s.Relends g s' g' new) (h : s.Inv taboo g) (h' : s'.Inv taboo' g')
    (hdata : ∀ d, s.Lent g d → AgreeOn d.span g.bytes g'.bytes)
    (hholding : ∀ head, s.Holding head → s'.Holding head) (hbuffer : s'.buffer = s.buffer) :
    s'.Staged g' position := by
  cases position with
  | copying => exact Gathering.keep hstaged hrelends hdata hholding hbuffer
  | gathered =>
    obtain ⟨head, hhold, hbytes⟩ := hstaged
    have hhold' := hholding head hhold
    refine ⟨head, hhold', ?_⟩
    rw [hbuffer, hbytes]
    exact (hrelends.frame_eq h h' hdata ⟨le_rfl, hhold.first⟩ ⟨le_rfl, hhold'.first⟩).symm
  | _ => trivial

theorem Gathering.iterate {buffer : List UInt8} {len' : UInt32} {next' : Option UInt16}
    {descStart : UInt32} {position : Position Unit} (h : s.Inv taboo g)
    (hgathering : s.Gathering g next len)
    (hiterate : txIterate s.queue s.buffer g next len = .ok (buffer, len', next')) :
    Staged { s with buffer := buffer, position := position } g
      (next'.elim (.gathered descStart len') fun next => .copying () descStart next len') := by
  obtain ⟨head, ds, left, hhold, hds, hleft, hsuffix, hroom, hbytes⟩ := hgathering
  obtain ⟨rfl, rfl, rfl⟩ := txIterate_eq_ok hiterate
  have hlt : bufferLen < 2 ^ 32 := by decide
  cases left with
  | nil => exact hleft.elim
  | cons d left =>
    have hd : s.queue.entry g.bytes next = d := hleft.2.1
    rw [spans_cons, totalLen_cons] at hroom
    change len.toNat + (d.len.toNat + totalLen (spans left)) ≤ bufferLen at hroom
    have hsum : (len + d.len).toNat = len.toNat + d.len.toNat := by
      rw [UInt32.toNat_add, Nat.mod_eq_of_lt (by omega)]
    have htake : (s.buffer.take len.toNat).length = len.toNat :=
      List.length_take_of_le (by rw [h.buffer]; omega)
    have hload : (load g.bytes d.addr d.len.toNat).length = d.len.toNat := length_load _ _ _
    have hnew : (splice s.buffer len.toNat (load g.bytes d.addr d.len.toNat)).take
        (len + d.len).toNat = s.buffer.take len.toNat ++ load g.bytes d.addr d.len.toNat := by
      rw [splice_of_le _ _ (by rw [h.buffer]; omega), hsum]
      exact List.take_left' (by rw [List.length_append, htake, hload])
    rw [hd]
    rw [spans_cons, gather_cons, ← List.append_assoc] at hbytes
    change s.buffer.take len.toNat ++ load g.bytes d.addr d.len.toNat ++
      gather g.bytes (spans left) = _ at hbytes
    rw [← hnew] at hbytes
    cases left with
    | nil =>
      have hlast : d.hasNext = false := hleft.2.2
      rw [hlast]
      refine ⟨head, ⟨hhold.counter, hhold.first⟩, ?_⟩
      rw [spans_nil, gather_nil, List.append_nil] at hbytes
      exact hbytes.trans (h.frame_eq hds).symm
    | cons e left =>
      have hmore : d.hasNext = true := hleft.2.2.1
      rw [hmore]
      refine ⟨head, ds, e :: left, ⟨hhold.counter, hhold.first⟩, hds, hleft.2.2.2,
        (List.suffix_cons _ _).trans hsuffix, ?_, hbytes⟩
      rw [hsum]
      omega

end Side

def Side.written (s : Side Unit) : Nat :=
  match s.position with
  | .copied _ _ => s.used.length + 1
  | _ => s.used.length

theorem Side.used_le_written (s : Side Unit) : s.used.length ≤ s.written := by
  unfold written
  split
  · exact Nat.le_succ _
  · exact le_rfl

theorem Side.Inv.written_le {taboo : List Span} {s : Side Unit} {g : Guest}
    (h : s.Inv taboo g) : s.written ≤ s.published.length := by
  have hle := h.used_le
  have hstands := h.stands
  unfold Side.written
  split
  · rename_i hat
    rw [hat] at hstands
    obtain ⟨head, hhold, -⟩ := hstands
    exact (List.getElem?_eq_some_iff.mp hhold.first).1
  · exact hle

def State.waiting (s : State) : List (List UInt8) :=
  (s.tx.published.drop s.tx.written).map (s.tx.frame s.guest)

def offered (move : Move State Event) : List (List UInt8) :=
  match move.label with
  | .tx (.publish head) => [move.target.tx.frame move.target.guest head]
  | _ => []

/-- What `::write` is given. -/
def sent (move : Move State Event) : List (List UInt8) :=
  match move.label, move.source.tx.position with
  | .tx (.write _), .gathered _ written => [move.source.tx.buffer.take written.toNat]
  | _, _ => []

section Step

variable {s s' : State} {e : Event}

theorem staged_step (h : Inv s) (hs : Step s e s') (hseparate : Separate s) (hlends : Lends s e)
    (hstaged : s.tx.Staged s.guest s.tx.position) : s'.tx.Staged s'.guest s'.tx.position := by
  have h' := inv_step _ _ _ h hs
  have hrelends := (relends h hs).2
  have hdata : ∀ d, s.tx.Lent s.guest d → AgreeOn d.span s.guest.bytes s'.guest.bytes :=
    fun _ hlent => tx_kept h hs hseparate hlends hlent
  have hstands := h.tx.stands
  cases hs with
  | memory => exact hstaged.keep hrelends h.tx h'.tx hdata (fun _ hhold => hhold) rfl
  | rx => exact hstaged.keep hrelends h.tx h'.tx hdata (fun _ hhold => hhold) rfl
  | tx htx =>
    cases htx with
    | publish =>
      refine hstaged.keep hrelends h.tx h'.tx hdata (fun head hhold => ⟨hhold.counter, ?_⟩) rfl
      have hlt := (List.getElem?_eq_some_iff.mp hhold.first).1
      exact (List.getElem?_append_left hlt).trans hhold.first
    | @next taken => cases taken <;> trivial
    | @availId next id hfilled =>
      rw [hfilled] at hstands
      obtain ⟨ds, hds⟩ := h.tx.offered _ _ ⟨le_rfl, hstands.first⟩
      refine ⟨next, ds, ds, ⟨hstands.counter, hstands.first⟩, hds.chain, hds.chain,
        List.suffix_rfl, ?_, rfl⟩
      rw [UInt32.toNat_zero, Nat.zero_add]
      exact hds.fits
    | copy hcopying hiterate =>
      rw [hcopying] at hstaged
      exact hstaged.iterate h.tx hiterate
    | write | addUsed => trivial

theorem waiting_step (h : Inv s) (hs : Step s e s') (hseparate : Separate s)
    (hlends : Lends s e) (hstaged : s.tx.Staged s.guest s.tx.position) :
    s.waiting ++ offered ⟨s, e, s'⟩ = sent ⟨s, e, s'⟩ ++ s'.waiting := by
  have h' := inv_step _ _ _ h hs
  have hdata : ∀ d, s.tx.Lent s.guest d → AgreeOn d.span s.guest.bytes s'.guest.bytes :=
    fun _ hlent => tx_kept h hs hseparate hlends hlent
  have hframes : ∀ n, s'.tx.used.length ≤ n →
      (s.tx.published.drop n).map (s'.tx.frame s'.guest) =
        (s.tx.published.drop n).map (s.tx.frame s.guest) :=
    fun n hn => (relends h hs).2.frames_eq h.tx h'.tx hdata hn
  have hsame : s'.tx.published = s.tx.published → s'.tx.written = s.tx.written →
      s.waiting ++ [] = [] ++ s'.waiting := by
    intro hpublished hwritten
    rw [List.append_nil, List.nil_append]
    unfold State.waiting
    rw [hpublished, hframes _ s'.tx.used_le_written, hwritten]
  have hstands := h.tx.stands
  cases hs with
  | memory | rx => exact hsame rfl rfl
  | tx htx =>
    cases htx with
    | @publish head =>
      change s.waiting ++ [_] = ((s.tx.published ++ [head]).drop s.tx.written).map _
      rw [List.drop_append_of_le_length h.tx.written_le, List.map_append]
      exact congrArg (· ++ _) (hframes _ s.tx.used_le_written).symm
    | @next taken _ hidle =>
      refine hsame rfl ?_
      unfold Side.written
      rw [hidle]
      cases taken <;> rfl
    | availId hfilled =>
      refine hsame rfl ?_
      unfold Side.written
      rw [hfilled]
    | @copy _ _ _ _ next' _ hcopying =>
      refine hsame rfl ?_
      unfold Side.written
      rw [hcopying]
      cases next' <;> rfl
    | @write descStart written hgathered ret =>
      rw [hgathered] at hstaged
      obtain ⟨head, hhold, hbytes⟩ := hstaged
      obtain ⟨hlt, hhead⟩ := List.getElem?_eq_some_iff.mp hhold.first
      have hwritten : s.tx.written = s.tx.used.length := by
        unfold Side.written
        rw [hgathered]
      unfold sent State.waiting
      rw [hgathered, hwritten, List.drop_eq_getElem_cons hlt, hhead, List.map_cons, ← hbytes]
      change _ ++ [] = [_] ++ (s.tx.published.drop (s.tx.used.length + 1)).map _
      rw [List.append_nil, List.singleton_append]
      exact congrArg _ (hframes _ (Nat.le_succ _)).symm
    | addUsed hcopied =>
      refine hsame rfl ?_
      unfold Side.written
      rw [hcopied]
      exact List.length_append

end Step

section Run

variable {start s : State} {moves : List (Move State Event)}

/-- Both threads are in order, no buffer is lent twice, and the staging buffer has what the
transmit thread has gathered. -/
structure Transmits (s : State) : Prop where
  inv : Inv s
  separate : Separate s
  staged : s.tx.Staged s.guest s.tx.position

theorem transmits_start (h : Start start) : Transmits start where
  inv := inv_start h
  separate := separate_start h
  staged := by
    rw [h.tx.idle]
    trivial

theorem transmits_step {s s' : State} {e : Event} (h : Transmits s)
    (hs : guarded Step Lends s e s') : Transmits s' where
  inv := inv_step _ _ _ h.inv hs.2
  separate := separate_step h.inv hs.2 h.separate hs.1
  staged := staged_step h.inv hs.2 h.separate hs.1 h.staged

theorem length_offered (run : Run Step start moves s) :
    s.tx.published.length = start.tx.published.length + (moves.flatMap offered).length := by
  induction run with
  | nil => rfl
  | @snoc moves s s' e _ hs ih =>
    rw [List.flatMap_append, List.flatMap_singleton, List.length_append, ← Nat.add_assoc, ← ih]
    cases hs with
    | memory | rx => rfl
    | tx htx =>
      cases htx with
      | publish => exact List.length_append
      | _ => rfl

/-- The frames that the driver publishes are those that the tap is given, byte for byte and in
this order, and behind them those that wait in guest memory; and a chain only comes back when
its frame was given. -/
theorem frames_exact (h : Start start) (run : Run Step start moves s)
    (hlends : ∀ move ∈ moves, Lends move.source move.label) :
    moves.flatMap offered = moves.flatMap sent ++ s.waiting ∧
      s.tx.used.length ≤ (moves.flatMap sent).length := by
  have hguarded : Run (guarded Step Lends) start moves s := run.guarded hlends
  have hall := hguarded.invariant_source (transmits_start h) fun _ _ _ => transmits_step
  have hlast := hguarded.invariant (transmits_start h) fun _ _ _ => transmits_step
  have hconserved := run.conserved State.waiting offered sent fun move hmove =>
    waiting_step (hall move hmove).inv (run.step_of_mem move hmove) (hall move hmove).separate
      (hlends move hmove) (hall move hmove).staged
  have hnone : start.waiting = [] := by
    unfold State.waiting
    rw [h.tx.published, List.drop_nil]
    rfl
  rw [hnone, List.nil_append] at hconserved
  refine ⟨hconserved, s.tx.used_le_written.trans ?_⟩
  have hlength := length_offered run
  have hle := hlast.inv.tx.written_le
  rw [h.tx.published, hconserved, List.length_append] at hlength
  unfold State.waiting at hlength
  rw [List.length_map, List.length_drop, List.length_nil] at hlength
  omega

end Run

/-! A frame of three bytes in one buffer. -/

def oneFrame : State where
  guest := ⟨image [(0x4000, bytesOfNat 8 0x8000), (0x4008, [3]), (0x8000, [1, 2, 3])], 0x10000⟩
  rx := twoQueues.rx
  tx := twoQueues.tx

theorem oneFrame_start : Start oneFrame where
  rx := {
    placed := sampleQueue_placed (by decide)
    ready := rfl
    counter := rfl
    availIdx := by decide
    usedIdx := by decide
    buffer := List.length_replicate
    idle := rfl
    published := rfl
    used := rfl }
  tx := {
    placed := twoQueues_start.tx.placed.congr rfl rfl rfl rfl rfl
    ready := rfl
    counter := rfl
    availIdx := by decide
    usedIdx := by decide
    buffer := List.length_replicate
    idle := rfl
    published := rfl
    used := rfl }
  apart := twoQueues_apart

def oneOffered : State :=
  { oneFrame with
    guest := oneFrame.tx.publishIdx oneFrame.guest, tx := oneFrame.tx.afterPublish 0 }

theorem oneOffered_step : Step oneFrame (.tx (.publish 0)) oneOffered := by
  refine Step.tx (TxStep.publish ?_)
  constructor
  case room => decide
  case few => decide
  case slot => decide
  case offered =>
    refine ⟨[⟨0x8000, 3, 0, 0⟩], ⟨by decide, by decide, by decide⟩, by decide, ?_, by decide⟩
    intro d hd ring hring
    obtain rfl := List.mem_singleton.mp hd
    have hlow : ∀ ring ∈ oneFrame.rings, ring.addr.toNat + ring.len ≤ 0x8000 := by decide
    exact Span.apart_of_le (hlow ring hring) (by decide)

theorem one_frame_sent : ∃ moves s, Run Step oneFrame moves s ∧
    moves.flatMap offered = [[1, 2, 3]] ∧ moves.flatMap sent = [[1, 2, 3]] := by
  have hinv := inv_step _ _ _ (inv_start oneFrame_start) oneOffered_step
  have hnext : Step oneOffered (.tx .next) _ := Step.tx (TxStep.next rfl (hinv.tx.next_eq rfl))
  have hinv := inv_step _ _ _ hinv hnext
  have hid : Step _ (.tx .availId) _ :=
    Step.tx (TxStep.availId rfl (hinv.tx.availId_eq hinv.tx.stands))
  have hinv := inv_step _ _ _ hinv hid
  obtain ⟨buffer, len, next, hok, -, -⟩ := hinv.tx.txIterate_ok hinv.tx.stands
  obtain ⟨-, -, hrest⟩ := txIterate_eq_ok hok
  obtain rfl : next = none := hrest.trans (if_neg (by decide))
  have hcopy : Step _ (.tx .copy) _ := Step.tx (TxStep.copy rfl hok)
  have hlends : Lends oneFrame (.tx (.publish 0)) :=
    fun _ _ _ _ _ ⟨k, head, _, hout, _⟩ => absurd hout (oneFrame_start.rx.none_lent k head)
  have hfirst : guarded Step Lends oneFrame (.tx (.publish 0)) oneOffered :=
    ⟨hlends, oneOffered_step⟩
  have hcopied := (((Run.one hfirst).snoc (lends_tx hnext trivial)).snoc
    (lends_tx hid trivial)).snoc (lends_tx hcopy trivial)
  have run := hcopied.snoc (lends_tx (Step.tx (TxStep.write rfl 3)) trivial)
  have hexact := (frames_exact oneFrame_start run.of_guarded.1 run.of_guarded.2).1
  have hframe : oneOffered.tx.frame oneOffered.guest 0 = [1, 2, 3] := by decide
  have hall := congrArg (fun frame => [frame]) hframe
  exact ⟨_, _, run.of_guarded.1, hall, (List.append_nil _).symm.trans (hexact.symm.trans hall)⟩

end Kthxvm.Virtio.Net
