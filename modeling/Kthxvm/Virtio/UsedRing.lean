import Kthxvm.Lib.Ring
import Kthxvm.Lib.Transition
import Kthxvm.Virtio.Queue

/-! The used ring between `add_used` and a driver that keeps an index of its own. Both
indices have 16 bits and are never reset, so that the slots of the ring are reached
through what is left of the number of completions. -/
namespace Kthxvm.Virtio

open Lib.ByteMemory Lib.Ring Lib.Transition

namespace Queue

def usedSlot (q : Queue) (index : UInt16) : UInt32 := index.toUInt32 % q.size

def usedElem (q : Queue) (m : Memory) (i : UInt32) : UInt32 × UInt32 :=
  (load32 m (q.usedIdField i), load32 m (q.usedLenField i))

section Elem

variable {q : Queue} {m m' : Memory} {i j : UInt32}

theorem usedIdField_in_elem : Span.Within ⟨q.usedIdField i, 4⟩ ⟨q.usedIdField i, 8⟩ :=
  Span.within_of_le (by decide)

theorem usedLenField_in_elem :
    Span.Within ⟨q.usedLenField i, 4⟩ ⟨q.usedIdField i, 8⟩ := by
  have hfield : q.usedLenField i = q.usedIdField i + 4 := by
    unfold usedLenField usedIdField
    grind
  rw [hfield]
  exact Span.within_of_offset (by decide)

theorem usedLenField_apart_idField (hi : i.toNat < 512) :
    Span.Apart ⟨q.usedIdField i, 4⟩ ⟨q.usedLenField i, 4⟩ := by
  apply Span.apart_of_offset
  · rw [usedIdField_offset hi, usedLenField_offset hi]
    omega
  · rw [usedLenField_offset hi]
    omega

theorem usedElem_apart (hi : i.toNat < 512) (hj : j.toNat < 512) (hne : i ≠ j) :
    Span.Apart ⟨q.usedIdField i, 8⟩ ⟨q.usedIdField j, 8⟩ := by
  have hne' : i.toNat ≠ j.toNat := fun h => hne (UInt32.toNat_inj.mp h)
  rcases Nat.lt_or_gt_of_ne hne' with hlt | hgt
  · apply Span.apart_of_offset
    · rw [usedIdField_offset hi, usedIdField_offset hj]
      omega
    · rw [usedIdField_offset hj]
      omega
  · apply Span.Apart.symm
    apply Span.apart_of_offset
    · rw [usedIdField_offset hi, usedIdField_offset hj]
      omega
    · rw [usedIdField_offset hi]
      omega

theorem usedIdx_apart_elem (hi : i.toNat < 512) :
    Span.Apart ⟨q.usedIdxAddr, 2⟩ ⟨q.usedIdField i, 8⟩ := by
  apply Span.apart_of_offset
  · rw [usedIdField_offset hi]
    simp only [UInt64.reduceToNat]
    omega
  · rw [usedIdField_offset hi]
    omega

theorem usedElem_within (hle : q.size.toNat ≤ 512) (hi : i.toNat < q.size.toNat) :
    Span.Within ⟨q.usedIdField i, 8⟩ q.usedSpan := by
  apply Span.within_of_offset
  rw [usedIdField_offset (by omega)]
  omega

theorem usedElem_congr (h : AgreeOn ⟨q.usedIdField i, 8⟩ m m') :
    q.usedElem m i = q.usedElem m' i := by
  unfold usedElem
  rw [(h.mono usedIdField_in_elem).load32_eq, (h.mono (usedLenField_in_elem)).load32_eq]

variable (hpos : 0 < q.size.toNat) (hle : q.size.toNat ≤ 512) (m : Memory) (id len : UInt32)

theorem afterAddUsed_of_notMem {x : UInt64}
    (helem : x ∉ (⟨q.usedIdField (q.usedSlot (load16 m q.usedIdxAddr)), 8⟩ : Span))
    (hidx : x ∉ (⟨q.usedIdxAddr, 2⟩ : Span)) : q.afterAddUsed m id len x = m x := by
  have hstore16 := store_of_notMem (store32 (store32 m (q.usedLenField
    (q.usedSlot (load16 m q.usedIdxAddr))) len) (q.usedIdField
    (q.usedSlot (load16 m q.usedIdxAddr))) id) q.usedIdxAddr
    (bytesOfNat 2 (load16 m q.usedIdxAddr + 1).toNat) (x := x) (by rwa [length_bytesOfNat])
  refine hstore16.trans ?_
  unfold store32
  rw [store_of_notMem, store_of_notMem]
  · rw [length_bytesOfNat]
    exact fun hx => helem (usedLenField_in_elem x hx)
  · rw [length_bytesOfNat]
    exact fun hx => helem (usedIdField_in_elem x hx)

include hpos in
theorem usedSlot_lt (index : UInt16) : (q.usedSlot index).toNat < q.size.toNat :=
  mod_size_lt hpos index.toUInt32

include hpos hle

theorem usedElem_added :
    q.usedElem (q.afterAddUsed m id len) (q.usedSlot (load16 m q.usedIdxAddr)) = (id, len) := by
  have hi := (usedSlot_lt hpos (load16 m q.usedIdxAddr)).trans_le hle
  generalize hslot : q.usedSlot (load16 m q.usedIdxAddr) = i at hi
  have hafter : q.afterAddUsed m id len =
      store16 (store32 (store32 m (q.usedLenField i) len) (q.usedIdField i) id)
        q.usedIdxAddr (load16 m q.usedIdxAddr + 1) := by
    rw [← hslot]
    rfl
  rw [hafter]
  have hkept := (AgreeOn.refl ⟨q.usedIdField i, 8⟩
    (store32 (store32 m (q.usedLenField i) len) (q.usedIdField i) id)).store16
    (v := load16 m q.usedIdxAddr + 1) (usedIdx_apart_elem hi).symm
  rw [← usedElem_congr hkept]
  have hlen := (AgreeOn.refl ⟨q.usedLenField i, 4⟩
    (store32 m (q.usedLenField i) len)).store32 (v := id) (usedLenField_apart_idField hi).symm
  unfold usedElem
  rw [load32_store32, ← hlen.load32_eq, load32_store32]

theorem usedElem_kept (hi : i.toNat < 512) (hne : i ≠ q.usedSlot (load16 m q.usedIdxAddr)) :
    q.usedElem (q.afterAddUsed m id len) i = q.usedElem m i := by
  have hj := (usedSlot_lt hpos (load16 m q.usedIdxAddr)).trans_le hle
  have hapart := usedElem_apart (q := q) hi hj hne
  symm
  apply usedElem_congr
  apply AgreeOn.store16
  · apply AgreeOn.store32
    · apply AgreeOn.store32 (AgreeOn.refl _ _)
      exact hapart.mono (Span.Within.refl _) (usedLenField_in_elem)
    · exact hapart.mono (Span.Within.refl _) usedIdField_in_elem
  · exact (usedIdx_apart_elem hi).symm

end Elem

end Queue

namespace UsedRing

structure State where
  queue : Queue
  guest : Guest
  /-- the index that the driver keeps -/
  lastUsed : UInt16

namespace State

def index (s : State) : UInt16 := load16 s.guest.bytes s.queue.usedIdxAddr

/-- `used.ring[last_used % size]` -/
def front (s : State) : UInt32 × UInt32 :=
  s.queue.usedElem s.guest.bytes (s.queue.usedSlot s.lastUsed)

def cells (s : State) (i : Nat) : UInt32 × UInt32 :=
  s.queue.usedElem s.guest.bytes (UInt32.ofNat i)

def pending (s : State) : Nat := (s.index - s.lastUsed).toNat

def unread (s : State) : List (UInt32 × UInt32) :=
  window s.cells s.queue.size.toNat s.lastUsed.toNat s.pending

end State

inductive Event where
  /-- `add_used(id, len)` and what it returns -/
  | addUsed (id len : UInt32) (idx : UInt16)
  | read (id len : UInt32)
  | other
deriving DecidableEq

/-- The device adds while there is room, the driver reads while its index differs. Whatever
else happens leaves the used ring alone. -/
inductive Step : State → Event → State → Prop where
  | addUsed {s : State} {idx : UInt16} {g : Guest} (id len : UInt32)
      (hroom : s.unread.length < s.queue.size.toNat)
      (h : s.queue.addUsed s.guest id len = .ok (idx, g)) :
      Step s (.addUsed id len idx) { s with guest := g }
  | read {s : State} (hnew : s.lastUsed ≠ s.index) :
      Step s (.read s.front.1 s.front.2) { s with lastUsed := s.lastUsed + 1 }
  | other {s : State} {q : Queue} {m : Memory} (hsize : q.size = s.queue.size)
      (hused : q.usedAddr = s.queue.usedAddr) (hm : AgreeOn s.queue.usedSpan s.guest.bytes m) :
      Step s .other { s with queue := q, guest := { s.guest with bytes := m } }

structure Held (s : State) : Prop where
  size_le : s.queue.size.toNat ≤ queueSizeMax.toNat
  size_pow : ∃ k, s.queue.size.toNat = 2 ^ k
  used : s.guest.Holds s.queue.usedAddr (4 + 8 * s.queue.size.toNat)

structure Start (s : State) : Prop where
  held : Held s
  drained : s.lastUsed = s.index

structure Inv (s : State) : Prop where
  held : Held s
  window : s.unread.length ≤ s.queue.size.toNat

def added (move : Move State Event) : List (UInt32 × UInt32) :=
  match move.label with
  | .addUsed id len _ => [(id, len)]
  | _ => []

def received (move : Move State Event) : List (UInt32 × UInt32) :=
  match move.label with
  | .read id len => [(id, len)]
  | _ => []

section Held

variable {s : State} (h : Held s)

include h

theorem Held.size_pos : 0 < s.queue.size.toNat := by
  obtain ⟨k, hk⟩ := h.size_pow
  rw [hk]
  positivity

/-- The size of the ring divides the number of values of an index. -/
theorem Held.size_dvd : s.queue.size.toNat ∣ 2 ^ 16 := by
  obtain ⟨k, hk⟩ := h.size_pow
  have hle := h.size_le
  rw [hk, Queue.queueSizeMax_toNat] at hle
  rw [hk]
  apply pow_dvd_pow
  by_contra hgt
  have hpow : 2 ^ 17 ≤ 2 ^ k := Nat.pow_le_pow_right (by decide) (by omega)
  omega

theorem Held.mod_size (n : Nat) : n % 2 ^ 16 % s.queue.size.toNat = n % s.queue.size.toNat :=
  Nat.mod_mod_of_dvd n h.size_dvd

theorem Held.usedSlot_eq (index : UInt16) :
    s.queue.usedSlot index = UInt32.ofNat (index.toNat % s.queue.size.toNat) := by
  have hlt := Nat.mod_lt index.toNat h.size_pos
  have hle := h.size_le
  rw [Queue.queueSizeMax_toNat] at hle
  unfold Queue.usedSlot
  rw [← UInt32.toNat_inj, UInt32.toNat_mod, UInt16.toNat_toUInt32, UInt32.toNat_ofNat',
    Nat.mod_eq_of_lt (a := index.toNat % _) (by omega)]

theorem Held.slot_index : s.queue.usedSlot s.index =
    UInt32.ofNat ((s.lastUsed.toNat + s.pending) % s.queue.size.toNat) := by
  have hsum : s.index.toNat = (s.lastUsed.toNat + s.pending) % 2 ^ 16 := by
    unfold State.pending
    rw [← UInt16.toNat_add]
    congr 1
    grind
  rw [h.usedSlot_eq, hsum, h.mod_size]

theorem Held.front_eq : s.front = s.cells (s.lastUsed.toNat % s.queue.size.toNat) := by
  unfold State.front State.cells
  rw [h.usedSlot_eq]

end Held

theorem pending_eq_zero {s : State} : s.pending = 0 ↔ s.lastUsed = s.index := by
  unfold State.pending
  rw [← UInt16.toNat_zero, UInt16.toNat_inj, sub_eq_zero, eq_comm]

theorem unread_length {s : State} : s.unread.length = s.pending := length_window

theorem one_toNat : (1 : UInt16).toNat = 1 := rfl

theorem unread_read {s : State} (h : Held s) (hnew : s.lastUsed ≠ s.index) :
    s.unread = s.front :: State.unread { s with lastUsed := s.lastUsed + 1 } := by
  obtain ⟨n, hn⟩ := Nat.exists_eq_succ_of_ne_zero (mt pending_eq_zero.mp hnew)
  have hrest : State.pending { s with lastUsed := s.lastUsed + 1 } = n := by
    change (s.index - (s.lastUsed + 1)).toNat = n
    have hlast := s.lastUsed.toNat_lt
    unfold State.pending at hn
    rw [UInt16.toNat_sub] at hn ⊢
    rw [UInt16.toNat_add, one_toNat]
    omega
  unfold State.unread
  rw [hn, window_succ, hrest, ← h.front_eq]
  refine congrArg (List.cons s.front) ?_
  apply window_mod
  change (s.lastUsed.toNat + 1) % s.queue.size.toNat = (s.lastUsed + 1).toNat % s.queue.size.toNat
  rw [UInt16.toNat_add, h.mod_size]
  rfl

theorem unread_addUsed {s : State} (h : Held s) (hroom : s.unread.length < s.queue.size.toNat)
    (id len : UInt32) :
    State.unread { s with
      guest := { s.guest with bytes := s.queue.afterAddUsed s.guest.bytes id len } } =
        s.unread ++ [(id, len)] := by
  have hpos := h.size_pos
  have hle := h.size_le
  rw [Queue.queueSizeMax_toNat] at hle
  rw [unread_length] at hroom
  generalize hs' : ({ s with
    guest := { s.guest with bytes := s.queue.afterAddUsed s.guest.bytes id len } } : State) = s'
  have hindex : s'.index = s.index + 1 := by
    subst hs'
    exact Queue.afterAddUsed_idx s.queue s.guest.bytes id len
  have hpending : s'.pending = s.pending + 1 := by
    have hlast : s'.lastUsed = s.lastUsed := by rw [← hs']
    unfold State.pending at hroom ⊢
    rw [hindex, hlast]
    have hidx := s.index.toNat_lt
    have hpast := s.lastUsed.toNat_lt
    simp only [UInt16.toNat_sub, UInt16.toNat_add, one_toNat] at hroom ⊢
    omega
  have hback : s'.cells ((s.lastUsed.toNat + s.pending) % s.queue.size.toNat) = (id, len) := by
    have hadded := Queue.usedElem_added hpos hle s.guest.bytes id len
    rw [← hs']
    unfold State.cells
    rw [← h.slot_index]
    exact hadded
  have hkept : ∀ i < s.queue.size.toNat,
      i ≠ (s.lastUsed.toNat + s.pending) % s.queue.size.toNat → s'.cells i = s.cells i := by
    intro i hi hne
    have hslot : (UInt32.ofNat i).toNat = i := by
      rw [UInt32.toNat_ofNat', Nat.mod_eq_of_lt (by omega)]
    rw [← hs']
    apply Queue.usedElem_kept hpos hle
    · omega
    · intro heq
      apply hne
      have hmod := Nat.mod_lt (s.lastUsed.toNat + s.pending) hpos
      have hsame := congrArg UInt32.toNat (heq.trans h.slot_index)
      rw [hslot, UInt32.toNat_ofNat', Nat.mod_eq_of_lt (by omega)] at hsame
      exact hsame
  have hpush := window_push s.lastUsed.toNat hroom hkept
  rw [hback, ← hpending] at hpush
  subst hs'
  exact hpush

theorem unread_other {s : State} (h : Held s) {q : Queue} {m : Memory}
    (hsize : q.size = s.queue.size) (hused : q.usedAddr = s.queue.usedAddr)
    (hm : AgreeOn s.queue.usedSpan s.guest.bytes m) :
    State.index { s with queue := q, guest := { s.guest with bytes := m } } = s.index ∧
      State.unread { s with queue := q, guest := { s.guest with bytes := m } } = s.unread := by
  have hpos := h.size_pos
  have hle := h.size_le
  rw [Queue.queueSizeMax_toNat] at hle
  have hidxAddr : q.usedIdxAddr = s.queue.usedIdxAddr := by
    unfold Queue.usedIdxAddr
    rw [hused]
  have hindex : State.index { s with queue := q, guest := { s.guest with bytes := m } } =
      s.index := by
    change load16 m q.usedIdxAddr = load16 s.guest.bytes s.queue.usedIdxAddr
    rw [hidxAddr]
    exact (hm.mono (Queue.usedIdx_within hpos)).load16_eq.symm
  refine ⟨hindex, ?_⟩
  unfold State.unread State.pending
  rw [hindex]
  dsimp only
  rw [hsize]
  apply window_congr
  intro i _
  have hlt := Nat.mod_lt (s.lastUsed.toNat + i) hpos
  generalize (s.lastUsed.toNat + i) % s.queue.size.toNat = k at hlt
  have hslot : (UInt32.ofNat k).toNat < s.queue.size.toNat := by
    rw [UInt32.toNat_ofNat', Nat.mod_eq_of_lt (by omega)]
    exact hlt
  have helem := Queue.usedElem_congr (hm.mono (Queue.usedElem_within hle hslot))
  change q.usedElem m (UInt32.ofNat k) = s.queue.usedElem s.guest.bytes (UInt32.ofNat k)
  rw [helem]
  unfold Queue.usedElem Queue.usedIdField Queue.usedLenField
  rw [hused]

structure Advances (s : State) (e : Event) (s' : State) : Prop where
  held : Held s'
  window : s'.unread.length ≤ s.queue.size.toNat
  order : s.unread ++ added ⟨s, e, s'⟩ = received ⟨s, e, s'⟩ ++ s'.unread
  /-- `add_used` moves the index on and returns it. -/
  index : s'.index = s.index + UInt16.ofNat (added ⟨s, e, s'⟩).length
  reply : ∀ id len idx, e = .addUsed id len idx → idx = s'.index

theorem step_advances {s s' : State} {e : Event} (h : Inv s) (hs : Step s e s') :
    Advances s e s' := by
  have hheld := h.held
  have hwindow := h.window
  have hle := hheld.size_le
  rw [Queue.queueSizeMax_toNat] at hle
  cases hs with
  | addUsed id len hroom hadd =>
    have hunread := unread_addUsed hheld hroom id len
    rw [Queue.addUsed_of_held hheld.size_pos hle hheld.used] at hadd
    cases hadd
    have hindex := Queue.afterAddUsed_idx s.queue s.guest.bytes id len
    constructor
    case held => exact ⟨hheld.size_le, hheld.size_pow, hheld.used⟩
    case window =>
      rw [hunread, List.length_append, List.length_singleton]
      exact hroom
    case order =>
      rw [hunread]
      exact (List.nil_append _).symm
    case index => exact hindex
    case reply =>
      rintro _ _ _ ⟨⟩
      exact hindex.symm
  | read hnew =>
    have hunread := unread_read hheld hnew
    constructor
    case held => exact ⟨hheld.size_le, hheld.size_pow, hheld.used⟩
    case window =>
      rw [hunread, List.length_cons] at hwindow
      omega
    case order =>
      refine (List.append_nil _).trans ?_
      exact hunread
    case index => exact (add_zero _).symm
    case reply =>
      intro _ _ _ h
      contradiction
  | other hsize hused hm =>
    obtain ⟨hindex, hunread⟩ := unread_other hheld hsize hused hm
    constructor
    case held =>
      refine ⟨?_, ?_, ?_⟩
      · dsimp only
        rw [hsize]
        exact hheld.size_le
      · dsimp only
        rw [hsize]
        exact hheld.size_pow
      · dsimp only
        rw [hsize, hused]
        exact hheld.used
    case window => rwa [hunread]
    case order =>
      refine (List.append_nil _).trans ?_
      exact hunread.symm
    case index => exact hindex.trans (add_zero _).symm
    case reply =>
      intro _ _ _ h
      contradiction

section Runs

variable {start s : State} {moves : List (Move State Event)}

theorem inv_start (h : Start start) : Inv start := by
  refine ⟨h.held, ?_⟩
  rw [unread_length, pending_eq_zero.mpr h.drained]
  exact Nat.zero_le _

theorem inv_step (s : State) (e : Event) (s' : State) (h : Inv s) (hs : Step s e s') :
    Inv s' := by
  have hadvances := step_advances h hs
  refine ⟨hadvances.held, hadvances.window.trans_eq ?_⟩
  cases hs with
  | addUsed | read => rfl
  | other hsize => exact congrArg UInt32.toNat hsize.symm

theorem inv_run (h : Start start) (run : Run Step start moves s) : Inv s :=
  run.invariant (inv_start h) inv_step

theorem advances_run (h : Start start) (run : Run Step start moves s) :
    ∀ move ∈ moves, Advances move.source move.label move.target := fun move hmem =>
  step_advances (run.invariant_source (inv_start h) inv_step move hmem) (run.step_of_mem move hmem)

theorem index_run (h : Start start) (run : Run Step start moves s) :
    s.index = start.index + UInt16.ofNat (moves.flatMap added).length := by
  induction run with
  | nil => exact (add_zero _).symm
  | @snoc moves s s' e run hs ih =>
    have hindex := (step_advances (inv_run h run) hs).index
    rw [hindex, ih, List.flatMap_append, List.flatMap_singleton, List.length_append,
      UInt16.ofNat_add, add_assoc]

/-- The used ring as a channel from the device to the driver. -/
structure Exact (start : State) (moves : List (Move State Event)) (s : State) : Prop where
  /-- What was added was read or waits to be read, in this order. -/
  order : moves.flatMap added = moves.flatMap received ++ s.unread
  /-- The driver stops reading when nothing waits. -/
  caught_up : s.lastUsed = s.index ↔ s.unread = []
  /-- What it would read next is the first element that waits. -/
  front : s.lastUsed ≠ s.index → s.unread.head? = some s.front
  index : s.index = start.index + UInt16.ofNat (moves.flatMap added).length
  /-- `add_used` returns the index that it has stored. -/
  replies : ∀ move ∈ moves, ∀ id len idx, move.label = .addUsed id len idx →
    idx = move.source.index + 1 ∧ move.target.index = idx
  /-- It never fails. -/
  total : ∀ id len, ∃ idx g, s.queue.addUsed s.guest id len = .ok (idx, g)

theorem used_exact (h : Start start) (run : Run Step start moves s) : Exact start moves s := by
  have hinv := inv_run h run
  have hle := hinv.held.size_le
  rw [Queue.queueSizeMax_toNat] at hle
  constructor
  case order =>
    have hlaw := run.conserved State.unread added received fun move hmem =>
      (advances_run h run move hmem).order
    have hempty : start.unread = [] :=
      List.eq_nil_of_length_eq_zero (unread_length.trans (pending_eq_zero.mpr h.drained))
    rwa [hempty, List.nil_append] at hlaw
  case caught_up => rw [← pending_eq_zero, ← unread_length, List.length_eq_zero_iff]
  case front =>
    intro hnew
    rw [unread_read hinv.held hnew]
    rfl
  case index => exact index_run h run
  case replies =>
    intro move hmem id len idx hlabel
    have hadvances := advances_run h run move hmem
    have hreply := hadvances.reply id len idx hlabel
    have hindex := hadvances.index
    unfold added at hindex
    rw [hlabel] at hindex
    exact ⟨hreply.trans hindex, hreply.symm⟩
  case total =>
    intro id len
    exact ⟨_, _, Queue.addUsed_of_held hinv.held.size_pos hle hinv.held.used id len⟩

end Runs

/-! A ring whose index is about to wrap. -/

def lastIndex : State where
  queue := sampleQueue
  guest := { bytes := store16 (fun _ => 0) 0x3002 0xffff, size := 0x8000 }
  lastUsed := 0xffff

theorem lastIndex_start : Start lastIndex where
  held := ⟨by decide, ⟨2, rfl⟩, by decide⟩
  drained := by decide

def wrappedBytes : Memory := sampleQueue.afterAddUsed lastIndex.guest.bytes 7 64

def wrapMoves : List (Move State Event) :=
  [⟨lastIndex, .addUsed 7 64 0, { lastIndex with guest := ⟨wrappedBytes, 0x8000⟩ }⟩,
    ⟨{ lastIndex with guest := ⟨wrappedBytes, 0x8000⟩ }, .read 7 64,
      { lastIndex with guest := ⟨wrappedBytes, 0x8000⟩, lastUsed := 0 }⟩]

theorem wrap_run : Run Step lastIndex wrapMoves
    { lastIndex with guest := ⟨wrappedBytes, 0x8000⟩, lastUsed := 0 } := by
  refine (Run.one (Step.addUsed 7 64 (by decide) ?_)).snoc (Step.read (by decide))
  exact Queue.addUsed_of_held (by decide) (by decide) (by decide) 7 64

theorem wrap_exact : Exact lastIndex wrapMoves
    { lastIndex with guest := ⟨wrappedBytes, 0x8000⟩, lastUsed := 0 } :=
  used_exact lastIndex_start wrap_run

end UsedRing

end Kthxvm.Virtio
