import Kthxvm.Virtio.NetFrames

/-! The packets on their way from the tap to the driver, while both threads and the driver go
on: what the tap has told is what the used ring hands out, as far as the buffers go, and what
the receive thread has in hand. -/
namespace Kthxvm.Virtio.Net

open Lib.ByteMemory Lib.Disk Lib.ScatterGather Lib.Transition

/-- What the receive thread passes on; behind a failed read it is what the staging buffer
has held before. -/
def told (buffer : List UInt8) (size : Int) : List UInt8 :=
  if size = -1 then buffer else buffer.take size.toNat

def Read (size : Int) : Prop := size = -1 ∨ ∃ n : Nat, n ≤ bufferLen ∧ size = n

section Told

variable {buffer : List UInt8} {size : Int} {len : UInt32} {d : Descriptor}

theorem read_sizeOf {packet : Option (List UInt8)} (h : (packet.getD []).length ≤ bufferLen) :
    Read (sizeOf packet) := by
  cases packet with
  | none => exact Or.inl rfl
  | some bytes => exact Or.inr ⟨bytes.length, h, rfl⟩

theorem told_staging (buffer : List UInt8) (packet : Option (List UInt8)) :
    told (staging buffer packet) (sizeOf packet) = packet.getD buffer := by
  cases packet with
  | none => exact if_pos rfl
  | some bytes =>
    have hread : ¬ (bytes.length : Int) = -1 := by omega
    exact (if_neg hread).trans List.take_left

theorem told_take {n : Nat} (h : n ≤ (told buffer size).length) :
    (told buffer size).take n = buffer.take n := by
  unfold told at h ⊢
  split at h
  · rename_i hfailed
    rw [if_pos hfailed]
  · rename_i hread
    rw [if_neg hread, List.take_take, min_eq_left (h.trans (List.length_take_le _ _))]

theorem length_told (hread : Read size) (hbuffer : buffer.length = bufferLen) :
    (told buffer size).length ≤ bufferLen ∧
      (size = -1 ∧ (told buffer size).length = bufferLen ∨ size = (told buffer size).length) := by
  unfold told
  rcases hread with rfl | ⟨n, hn, rfl⟩
  · rw [if_pos rfl]
    exact ⟨hbuffer.le, Or.inl ⟨rfl, hbuffer⟩⟩
  · rw [if_neg (by omega), Int.toNat_natCast, List.length_take_of_le (by omega)]
    exact ⟨hn, Or.inr rfl⟩

theorem writeLen_told (hread : Read size) (hbuffer : buffer.length = bufferLen)
    (hlen : len.toNat ≤ (told buffer size).length)
    (hroom : len.toNat + d.len.toNat ≤ bufferLen) :
    (writeLen size len d).toNat = min ((told buffer size).length - len.toNat) d.len.toNat := by
  obtain ⟨hle, ⟨rfl, hfull⟩ | hsize⟩ := length_told hread hbuffer
  · have hlt : bufferLen < 2 ^ 32 - 1 := by decide
    have hself : UInt32.ofInt len.toNat = len := UInt32.toNat_inj.mp (ofInt_toNat len.toNat_lt)
    have hsub : UInt32.ofInt (-1 - len.toNat) = 0xffffffff - len := by
      rw [Int.sub_eq_add_neg, UInt32.ofInt_add, UInt32.ofInt_neg (len.toNat : Int), hself,
        UInt32.sub_eq_add_neg]
      rfl
    have hone : len ≤ 0xffffffff := by
      rw [UInt32.le_iff_toNat_le]
      simp only [UInt32.reduceToNat]
      omega
    unfold writeLen
    rw [min_toNat, hsub, UInt32.toNat_sub_of_le _ _ hone, hfull]
    simp only [UInt32.reduceToNat]
    omega
  · rw [← writeLen_toNat hle hlen, ← hsize]

theorem slice_told (hread : Read size) (hbuffer : buffer.length = bufferLen)
    (hlen : len.toNat ≤ (told buffer size).length)
    (hroom : len.toNat + d.len.toNat ≤ bufferLen) :
    slice buffer len.toNat (writeLen size len d).toNat =
      ((told buffer size).drop len.toNat).take d.len.toNat := by
  have hwhole : told buffer size = buffer.take (told buffer size).length :=
    (List.take_length).symm.trans (told_take le_rfl)
  rw [writeLen_told hread hbuffer hlen hroom]
  generalize (told buffer size).length = n at hwhole hlen
  rw [hwhole]
  unfold slice
  rw [List.drop_take, List.take_take, min_comm]

theorem length_told_part (hread : Read size) (hbuffer : buffer.length = bufferLen)
    (hlen : len.toNat ≤ (told buffer size).length)
    (hroom : len.toNat + d.len.toNat ≤ bufferLen) :
    (len + writeLen size len d).toNat =
      min (told buffer size).length (len.toNat + d.len.toNat) := by
  have hlt : bufferLen < 2 ^ 32 := by decide
  rw [UInt32.toNat_add, writeLen_told hread hbuffer hlen hroom, Nat.mod_eq_of_lt (by omega)]
  omega

end Told

namespace Side

variable {taboo taboo' : List Span} {s s' : Side Int} {g g' : Guest} {head next : UInt16}
  {len : UInt32} {size : Int} {ds : List Descriptor} {new : Option UInt16}

def room (s : Side Int) (g : Guest) (head : UInt16) : Nat := (s.frame g head).length

theorem Inv.room_eq (h : s.Inv taboo g) (hds : s.queue.Chain g.bytes head ds) :
    s.room g head = totalLen (spans ds) := by
  unfold room
  rw [h.frame_eq hds, length_gather]

theorem Relends.room_eq {k k' : Nat} (hrelends : s.Relends g s' g' new) (h : s.Inv taboo g)
    (h' : s'.Inv taboo' g') (hout : s.Outstanding k head) (hout' : s'.Outstanding k' head) :
    s'.room g' head = s.room g head := by
  obtain ⟨ds, hds⟩ := h.offered k head hout
  rw [h.room_eq hds.chain, h'.room_eq ((hrelends.chain k' head ds hout').mpr hds.chain)]

def Scattering (s : Side Int) (g : Guest) (size : Int) (next : UInt16) (len : UInt32) : Prop :=
  Read size ∧ ∃ head done left, s.Holding head ∧ s.queue.Chain g.bytes head (done ++ left) ∧
    s.queue.Chain g.bytes next left ∧
    Queue.chainIndices next left <:+ Queue.chainIndices head (done ++ left) ∧
    totalLen (spans done) = len.toNat ∧ len.toNat ≤ (told s.buffer size).length ∧
    gather g.bytes (spans done) = (told s.buffer size).take len.toNat

def Landed (s : Side Int) (g : Guest) (len : UInt32) : Prop :=
  ∃ head, s.Holding head ∧ (s.frame g head).take len.toNat = s.buffer.take len.toNat

def Laid (s : Side Int) (g : Guest) : Position Int → Prop
  | .filled _ size => Read size
  | .copying size _ next len => s.Scattering g size next len
  | .copied _ len => s.Landed g len
  | _ => True

theorem Laid.keep {position : Position Int} (hlaid : s.Laid g position)
    (hrelends : s.Relends g s' g' new) (h : s.Inv taboo g) (h' : s'.Inv taboo' g')
    (hdata : ∀ d, s.Lent g d → AgreeOn d.span g.bytes g'.bytes)
    (hholding : ∀ head, s.Holding head → s'.Holding head) (hbuffer : s'.buffer = s.buffer) :
    s'.Laid g' position := by
  cases position with
  | copying =>
    obtain ⟨hread, head, done, left, hhold, hds, hleft, hsuffix, hdone, hlen, hbytes⟩ := hlaid
    have hout : s.Outstanding _ head := ⟨le_rfl, hhold.first⟩
    have hout' : s'.Outstanding _ head := ⟨le_rfl, (hholding head hhold).first⟩
    refine ⟨hread, head, done, left, hholding head hhold, (hrelends.chain _ _ _ hout').mpr hds,
      hrelends.rest hout' hds hleft hsuffix, hsuffix, hdone, ?_⟩
    rw [hbuffer, Relends.gather_eq hdata hout hds (List.subset_append_left done left)]
    exact ⟨hlen, hbytes⟩
  | copied =>
    obtain ⟨head, hhold, hbytes⟩ := hlaid
    have hhold' := hholding head hhold
    refine ⟨head, hhold', ?_⟩
    rw [hbuffer, ← hbytes, hrelends.frame_eq h h' hdata ⟨le_rfl, hhold.first⟩
      ⟨le_rfl, hhold'.first⟩]
  | filled => exact hlaid
  | _ => trivial

theorem Scattering.iterate {len' descStart : UInt32} {next' : Option UInt16}
    (position : Position Int) (h : s.Inv taboo g) (hcopying : s.Copying taboo g descStart next len)
    (hpairwise : ∀ k head ds, s.Outstanding k head → s.queue.Chain g.bytes head ds →
      (spans ds).Pairwise Span.Apart) (hscattering : s.Scattering g size next len)
    (hiterate : rxIterate s.queue s.buffer size g next len = .ok (g', len', next')) :
    Laid { s with position := position } g'
        (next'.elim (.copied descStart len') fun next => .copying size descStart next len') ∧
      (next' = none → ∀ head, s.Holding head →
        (told s.buffer size).take (s.room g head) = s.buffer.take len'.toNat) := by
  obtain ⟨hread, head, done, left, hhold, hds, hleft, hsuffix, hdone, hlen, hbytes⟩ := hscattering
  obtain ⟨hi, -, hapart, hroom⟩ := hcopying.first
  obtain ⟨rfl, rfl, hrest⟩ := rxIterate_eq_ok hiterate
  cases left with
  | nil => exact hleft.elim
  | cons d left =>
    have hd : s.queue.entry g.bytes next = d := hleft.2.1
    rw [hd] at hapart hroom hrest ⊢
    have hsum := length_told_part hread h.buffer hlen hroom
    have hpart := slice_told hread h.buffer hlen hroom
    generalize hbuffer : slice s.buffer len.toNat (writeLen size len d).toNat = part at *
    generalize hcount : len + writeLen size len d = len' at *
    have hshort : part.length ≤ d.len.toNat := by
      rw [hpart]
      exact List.length_take_le _ _
    have hwithin : Span.Within ⟨d.addr, part.length⟩ d.span := Span.within_of_le hshort
    have htable : AgreeOn s.queue.tableSpan g.bytes (store g.bytes d.addr part) :=
      (AgreeOn.refl _ _).store
        ((hapart _ (h.mine _ List.mem_cons_self)).mono (Span.Within.refl _) hwithin)
    have hchain : s.queue.Chain (store g.bytes d.addr part) head (done ++ d :: left) :=
      hds.congr htable
    have hspans : spans (done ++ d :: left) = spans done ++ d.span :: spans left :=
      List.map_append
    -- the buffers before are not touched
    have hcross : ∀ span ∈ spans done, span.Apart d.span := by
      have hpair := hpairwise _ _ _ ⟨le_rfl, hhold.first⟩ hds
      rw [hspans] at hpair
      exact fun span hspan =>
        (List.pairwise_append.mp hpair).2.2 span hspan d.span List.mem_cons_self
    have hkept : gather (store g.bytes d.addr part) (spans done) = gather g.bytes (spans done) := by
      refine (gather_congr (spans_len_le done) fun span hspan => (AgreeOn.refl _ _).store ?_).symm
      exact (hcross span hspan).mono (Span.Within.refl _) hwithin
    have hload := load_store_front g.bytes d.addr hshort
      (show d.len.toNat ≤ 2 ^ 64 from (d.len.toNat_lt.trans (by decide)).le)
    have hnew : gather g.bytes (spans done) ++ part = (told s.buffer size).take len'.toNat := by
      rw [hbytes, hpart, ← List.take_add, hsum, min_comm]
      exact List.take_eq_take_min
    have hgathered : (gather g.bytes (spans done) ++ part).length = len'.toNat := by
      rw [hnew, List.length_take_of_le (by omega)]
    have hall : gather (store g.bytes d.addr part) (spans (done ++ d :: left)) =
        gather g.bytes (spans done) ++ part ++
          ((load g.bytes d.addr d.len.toNat).drop part.length ++
            gather (store g.bytes d.addr part) (spans left)) := by
      rw [hspans, gather_append, hkept, gather_cons]
      change _ ++ (load (store g.bytes d.addr part) d.addr d.len.toNat ++ _) = _
      rw [hload]
      simp only [List.append_assoc]
    have hle : len'.toNat ≤ (told s.buffer size).length := by omega
    have hlanded : Landed { s with position := position } ⟨store g.bytes d.addr part, g.size⟩
        len' := by
      refine ⟨head, ⟨hhold.counter, hhold.first⟩, ?_⟩
      unfold frame
      dsimp only
      rw [hchain.walk_eq (hchain.length_le.trans h.placed.size_le), hall,
        List.take_left' hgathered, hnew, told_take hle]
    have hrooms : ∀ head', s.Holding head' →
        s.room g head' = len.toNat + d.len.toNat + totalLen (spans left) := by
      intro head' hhold'
      obtain rfl := Option.some.inj (hhold'.first.symm.trans hhold.first)
      rw [h.room_eq hds, hspans, totalLen_append, totalLen_cons, hdone, Nat.add_assoc]
      rfl
    have hd' : s.queue.entry (store g.bytes d.addr part) next = d :=
      (Queue.entry_congr hi htable).symm.trans hd
    dsimp only at hrest
    rw [hd'] at hrest
    by_cases hdone' : (len'.toNat : Int) = size
    · rw [if_pos hdone'] at hrest
      subst hrest
      refine ⟨hlanded, fun _ head' hhold' => ?_⟩
      have hlength : (told s.buffer size).length = len'.toNat := by
        obtain ⟨-, ⟨hfailed, -⟩ | hsize⟩ := length_told hread h.buffer <;> omega
      rw [hrooms head' hhold', ← told_take hle, List.take_of_length_le (by omega),
        List.take_of_length_le hlength.le]
    · rw [if_neg hdone'] at hrest
      cases left with
      | nil =>
        have hlast : d.hasNext = false := hleft.2.2
        rw [hlast] at hrest
        obtain rfl : next' = none := hrest
        refine ⟨hlanded, fun _ head' hhold' => ?_⟩
        rw [hrooms head' hhold', ← told_take hle, spans_nil, totalLen_nil, Nat.add_zero, hsum,
          min_comm]
        exact List.take_eq_take_min
      | cons e left =>
        have hmore : d.hasNext = true := hleft.2.2.1
        rw [hmore] at hrest
        obtain rfl : next' = some d.next := hrest
        -- a packet that goes on fills the buffer
        have hfull : len'.toNat = len.toNat + d.len.toNat := by
          obtain ⟨-, ⟨hfailed, hlength⟩ | hsize⟩ := length_told hread h.buffer <;> omega
        have happend : done ++ d :: e :: left = done ++ [d] ++ e :: left := by
          rw [List.append_assoc]
          rfl
        have hsplit : spans (done ++ [d]) = spans done ++ [d.span] := List.map_append
        refine ⟨⟨hread, head, done ++ [d], e :: left, ⟨hhold.counter, hhold.first⟩,
          happend ▸ hchain, hleft.2.2.2.congr htable, ?_, ?_, hle, ?_⟩,
          fun hnone => absurd hnone (Option.some_ne_none _)⟩
        · rw [← happend]
          exact (List.suffix_cons _ _).trans hsuffix
        · rw [hsplit, totalLen_append, totalLen_cons, totalLen_nil, hdone, hfull]
          rfl
        · have hwhole : part.length = d.len.toNat := by
            have hbefore : (gather g.bytes (spans done)).length = len.toNat := by
              rw [length_gather, hdone]
            rw [List.length_append, hbefore] at hgathered
            omega
          rw [hsplit, gather_append, hkept, gather_cons, gather_nil, List.append_nil, ← hnew]
          change _ ++ load (store g.bytes d.addr part) d.addr d.len.toNat = _
          rw [hload, hwhole, List.drop_eq_nil_of_le (length_load _ _ _).le, List.append_nil]

end Side

/-- The packet that the receive thread has in hand, as far as its chain goes. -/
def State.inHand (s : State) : List (List UInt8) :=
  match s.rx.position with
  | .filled next size => [(told s.rx.buffer size).take (s.rx.room s.guest next)]
  | .copying size descStart _ _ =>
    [(told s.rx.buffer size).take (s.rx.room s.guest descStart.toUInt16)]
  | .copied _ len => [s.rx.buffer.take len.toNat]
  | _ => []

/-- What the tap tells; a read that fails tells the bytes that were told before. -/
def arrived (move : Move State Event) : List (List UInt8) :=
  match move.label, move.source.rx.position with
  | .rx (.receive packet), .taken next =>
    [(packet.getD move.source.rx.buffer).take (move.source.rx.room move.source.guest next)]
  | _, _ => []

/-- What the driver finds: the bytes of the chain that the new element of the used ring names,
as many as the element says. -/
def collected (move : Move State Event) : List (List UInt8) :=
  match move.label with
  | .rx .addUsed =>
    let q := move.source.rx.queue
    let elem := q.usedElem move.target.guest.bytes
      (q.usedSlot (load16 move.source.guest.bytes q.usedIdxAddr))
    [(move.target.rx.frame move.target.guest elem.1.toUInt16).take elem.2.toNat]
  | _ => []

section Step

variable {s s' : State} {e : Event}

theorem laid_step (h : Inv s) (hs : Step s e s') (hseparate : Separate s) (hlends : Lends s e)
    (hlaid : s.rx.Laid s.guest s.rx.position) : s'.rx.Laid s'.guest s'.rx.position := by
  have h' := inv_step _ _ _ h hs
  have hrelends := (relends h hs).1
  have hdata : e ≠ .rx .copy → ∀ d, s.rx.Lent s.guest d →
      AgreeOn d.span s.guest.bytes s'.guest.bytes :=
    fun hcopy _ hlent => rx_kept h hs hlends hcopy hlent
  have hstands := h.rx.stands
  cases hs with
  | memory =>
    exact hlaid.keep hrelends h.rx h'.rx (hdata Event.noConfusion) (fun _ hhold => hhold) rfl
  | tx =>
    exact hlaid.keep hrelends h.rx h'.rx (hdata Event.noConfusion) (fun _ hhold => hhold) rfl
  | rx hrx =>
    cases hrx with
    | publish =>
      refine hlaid.keep hrelends h.rx h'.rx (hdata ?_) (fun head hhold => ⟨hhold.counter, ?_⟩) rfl
      · exact fun heq => Act.noConfusion (Event.rx.inj heq)
      · have hlt := (List.getElem?_eq_some_iff.mp hhold.first).1
        exact (List.getElem?_append_left hlt).trans hhold.first
    | @next taken => cases taken <;> trivial
    | timeout => trivial
    | receive _ _ hpacket => exact read_sizeOf hpacket
    | @availId next id size hfilled =>
      rw [hfilled] at hstands hlaid
      obtain ⟨ds, hds⟩ := h.rx.offered _ _ ⟨le_rfl, hstands.first⟩
      exact ⟨hlaid, next, [], ds, ⟨hstands.counter, hstands.first⟩, hds.chain, hds.chain,
        List.suffix_rfl, rfl, Nat.zero_le _, rfl⟩
    | copy hcopying hiterate =>
      rw [hcopying] at hlaid hstands
      exact (hlaid.iterate _ h.rx hstands hseparate.pairwise hiterate).1
    | addUsed => trivial

theorem inHand_step (h : Inv s) (hs : Step s e s') (hseparate : Separate s)
    (hlends : Lends s e) (hlaid : s.rx.Laid s.guest s.rx.position) :
    s.inHand ++ arrived ⟨s, e, s'⟩ = collected ⟨s, e, s'⟩ ++ s'.inHand := by
  have h' := inv_step _ _ _ h hs
  have hstands := h.rx.stands
  have hroom : ∀ {k head}, s.rx.Holding head → s'.rx.Outstanding k head →
      s'.rx.room s'.guest head = s.rx.room s.guest head :=
    fun hhold hout' => (relends h hs).1.room_eq h.rx h'.rx ⟨le_rfl, hhold.first⟩ hout'
  have hsame : s'.rx.position = s.rx.position → s'.rx.buffer = s.rx.buffer →
      (∀ head, s.rx.Holding head → ∃ k, s'.rx.Outstanding k head) →
      s.inHand ++ [] = [] ++ s'.inHand := by
    intro hposition hbuffer hheld
    rw [List.append_nil, List.nil_append]
    unfold State.inHand
    rw [hposition, hbuffer]
    generalize s.rx.position = position at hstands
    cases position with
    | filled next size =>
      obtain ⟨k, hout'⟩ := hheld next hstands
      exact congrArg (fun room => [List.take room _]) (hroom hstands hout').symm
    | copying size descStart next len =>
      obtain ⟨head, -, -, hhold, rfl, -⟩ := hstands
      obtain ⟨k, hout'⟩ := hheld head hhold
      dsimp only
      rw [UInt16.toUInt16_toUInt32, hroom hhold hout']
    | _ => rfl
  cases hs with
  | memory | tx => exact hsame rfl rfl fun head hhold => ⟨_, le_rfl, hhold.first⟩
  | rx hrx =>
    cases hrx with
    | publish =>
      refine hsame rfl rfl fun head hhold => ⟨_, le_rfl, ?_⟩
      have hlt := (List.getElem?_eq_some_iff.mp hhold.first).1
      exact (List.getElem?_append_left hlt).trans hhold.first
    | @next taken _ hidle =>
      unfold State.inHand arrived
      rw [hidle]
      cases taken <;> rfl
    | timeout htaken =>
      unfold State.inHand arrived
      rw [htaken]
      rfl
    | @receive next htaken packet =>
      unfold State.inHand arrived
      rw [htaken] at hstands ⊢
      dsimp only
      rw [told_staging]
      exact congrArg (fun room => [List.take room _])
        (hroom hstands ⟨le_rfl, hstands.first⟩).symm
    | @availId next id size hfilled hid =>
      rw [hfilled] at hstands
      rw [h.rx.availId_eq hstands] at hid
      cases hid
      unfold State.inHand arrived
      rw [hfilled]
      dsimp only
      rw [UInt16.toUInt16_toUInt32]
      exact congrArg (fun room => [List.take room _])
        (hroom hstands ⟨le_rfl, hstands.first⟩).symm
    | @copy size descStart len len' next next' _ hcopying hiterate =>
      rw [hcopying] at hlaid hstands
      have hlast := (hlaid.iterate s.rx.position h.rx hstands hseparate.pairwise hiterate).2
      obtain ⟨head, -, -, hhold, rfl, -⟩ := hstands
      unfold State.inHand arrived
      rw [hcopying]
      cases next' with
      | none =>
        change [(told s.rx.buffer size).take (s.rx.room s.guest head.toUInt32.toUInt16)] ++ [] =
          [] ++ [s.rx.buffer.take len'.toNat]
        rw [UInt16.toUInt16_toUInt32, hlast rfl head hhold]
        rfl
      | some next' =>
        change [(told s.rx.buffer size).take (s.rx.room s.guest head.toUInt32.toUInt16)] ++ [] =
          [] ++ [(told s.rx.buffer size).take (Side.room _ _ head.toUInt32.toUInt16)]
        rw [UInt16.toUInt16_toUInt32]
        exact congrArg (fun room => [List.take room _]) (hroom hhold ⟨le_rfl, hhold.first⟩).symm
    | @addUsed descStart len _ _ hcopied hadd =>
      rw [hcopied] at hlaid hstands
      obtain ⟨head, hhold, rfl⟩ := hstands
      obtain ⟨head', hhold', hbytes⟩ := hlaid
      obtain rfl := Option.some.inj (hhold'.first.symm.trans hhold.first)
      rw [Queue.addUsed_ok h.rx.placed] at hadd
      cases hadd
      have hpos := h.rx.placed.size_pos
      have hout : s.rx.Outstanding _ head' := ⟨le_rfl, hhold.first⟩
      obtain ⟨ds, hds⟩ := h.rx.offered _ _ hout
      have hframe : s.rx.frame
          ⟨s.rx.queue.afterAddUsed s.guest.bytes head'.toUInt32 len, s.guest.size⟩ head' =
            s.rx.frame s.guest head' := by
        have htable := Queue.afterAddUsed_agree hpos h.rx.size_le h.rx.placed.table_used
          s.guest.bytes head'.toUInt32 len
        have hle := hds.chain.length_le.trans h.rx.placed.size_le
        unfold Side.frame
        rw [hds.chain.walk_eq hle, (hds.chain.congr htable).walk_eq hle]
        refine Side.Relends.gather_eq (fun d hlent => ?_) hout hds.chain (List.Subset.refl ds)
        have hoff := h.rx.lent_off hlent _ (h.rx.mine s.rx.queue.usedSpan (by simp [rings]))
        exact Queue.afterAddUsed_agree hpos h.rx.size_le hoff.symm _ _ _
      unfold State.inHand arrived collected
      rw [hcopied]
      dsimp only
      rw [Queue.usedElem_added hpos h.rx.size_le, UInt16.toUInt16_toUInt32, ← hbytes, ← hframe]
      rfl

end Step

section Run

variable {start s : State} {moves : List (Move State Event)}

/-- Both threads are in order, no buffer is lent twice, and guest memory has what the receive
thread has laid over it. -/
structure Receives (s : State) : Prop where
  inv : Inv s
  separate : Separate s
  laid : s.rx.Laid s.guest s.rx.position

theorem receives_start (h : Start start) : Receives start where
  inv := inv_start h
  separate := separate_start h
  laid := by
    rw [h.rx.idle]
    trivial

theorem receives_step {s s' : State} {e : Event} (h : Receives s)
    (hs : guarded Step Lends s e s') : Receives s' where
  inv := inv_step _ _ _ h.inv hs.2
  separate := separate_step h.inv hs.2 h.separate hs.1
  laid := laid_step h.inv hs.2 h.separate hs.1 h.laid

theorem length_collected (run : Run Step start moves s) :
    s.rx.used.length = start.rx.used.length + (moves.flatMap collected).length := by
  induction run with
  | nil => rfl
  | @snoc moves s s' e _ hs ih =>
    rw [List.flatMap_append, List.flatMap_singleton, List.length_append, ← Nat.add_assoc, ← ih]
    cases hs with
    | memory | tx => rfl
    | rx hrx =>
      cases hrx with
      | addUsed => exact List.length_append
      | _ => rfl

/-- What the driver finds in the chains that come back is what the tap has told, byte for byte
and in this order, as far as each chain goes; behind it there is at most the packet in hand. -/
theorem packets_exact (h : Start start) (run : Run Step start moves s)
    (hlends : ∀ move ∈ moves, Lends move.source move.label) :
    moves.flatMap arrived = moves.flatMap collected ++ s.inHand ∧
      (moves.flatMap collected).length = s.rx.used.length := by
  have hguarded : Run (guarded Step Lends) start moves s := run.guarded hlends
  have hall := hguarded.invariant_source (receives_start h) fun _ _ _ => receives_step
  have hconserved := run.conserved State.inHand arrived collected fun move hmove =>
    inHand_step (hall move hmove).inv (run.step_of_mem move hmove) (hall move hmove).separate
      (hlends move hmove) (hall move hmove).laid
  have hnone : start.inHand = [] := by
    unfold State.inHand
    rw [h.rx.idle]
  have hlength := length_collected run
  rw [h.rx.used, List.length_nil, Nat.zero_add] at hlength
  rw [hnone, List.nil_append] at hconserved
  exact ⟨hconserved, hlength.symm⟩

end Run

/-! The chain of `onePublished` has room for four bytes of a packet of five. -/

theorem onePublished_lends : guarded Step Lends twoQueues (.rx (.publish 0)) onePublished := by
  refine ⟨fun ds hds => ?_, onePublished_run.step_of_mem _ (List.mem_singleton_self _)⟩
  have hchain : sampleQueue.Chain twoQueues.guest.bytes 0 [⟨0x8000, 4, 0, 0⟩] :=
    ⟨by decide, by decide, by decide⟩
  obtain rfl := hds.unique hchain
  exact ⟨List.pairwise_singleton _ _, fun _ _ _ ⟨k, head, _, hout, _⟩ =>
    absurd hout (twoQueues_start.tx.none_lent k head)⟩

def oneTaken : State :=
  { onePublished with
    rx := {
      onePublished.rx with queue := { sampleQueue with lastAvail := 1 }, position := .taken 0 } }

theorem oneTaken_step : Step onePublished (.rx .next) oneTaken := by
  have hnext : sampleQueue.next onePublished.guest =
      .ok (some 0, { sampleQueue with lastAvail := 1 }) := rfl
  exact Step.rx (@RxStep.next _ onePublished.rx _ (some 0) _ rfl hnext)

theorem one_packet_cut : ∃ moves s, Run Step twoQueues moves s ∧
    moves.flatMap arrived = [[5, 6, 7, 8]] ∧ moves.flatMap collected = [[5, 6, 7, 8]] := by
  have run := ((Run.one onePublished_lends).snoc (lends_rx oneTaken_step trivial)).snoc
    (lends_rx (Step.rx (RxStep.receive rfl (some [5, 6, 7, 8, 9]) (by decide))) trivial)
  have hinv := inv_run twoQueues_start run.of_guarded.1
  have hid : Step _ (.rx .availId) _ :=
    Step.rx (RxStep.availId rfl (hinv.rx.availId_eq hinv.rx.stands))
  have hinv := inv_step _ _ _ hinv hid
  obtain ⟨m, len, next, hok, hagree, -⟩ := hinv.rx.rxIterate_ok hinv.rx.stands 5
  have hdone : next = none := by
    obtain ⟨-, -, hrest⟩ := rxIterate_eq_ok hok
    have htable := hagree _ (hinv.rx.mine _ List.mem_cons_self)
    rw [← Queue.entry_congr (by decide) htable] at hrest
    split at hrest
    · exact hrest
    · exact hrest.trans (if_neg (by decide))
  subst hdone
  have hcopy : Step _ (.rx .copy) _ := Step.rx (RxStep.copy rfl hok)
  have run := (run.snoc (lends_rx hid trivial)).snoc (lends_rx hcopy trivial)
  have hinv := inv_run twoQueues_start run.of_guarded.1
  have run := run.snoc
    (lends_rx (Step.rx (RxStep.addUsed rfl (Queue.addUsed_ok hinv.rx.placed _ _))) trivial)
  have hexact := (packets_exact twoQueues_start run.of_guarded.1 run.of_guarded.2).1
  have hroom : oneTaken.rx.room oneTaken.guest 0 = 4 := by decide
  have hall := congrArg (fun n => [[(5 : UInt8), 6, 7, 8, 9].take n]) hroom
  exact ⟨_, _, run.of_guarded.1, hall, (List.append_nil _).symm.trans (hexact.symm.trans hall)⟩

end Kthxvm.Virtio.Net
