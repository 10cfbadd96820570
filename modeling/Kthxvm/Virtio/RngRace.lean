import Kthxvm.Lib.Transition
import Kthxvm.Virtio.Chain
import Kthxvm.Virtio.Rng

/-! `rng::update` on several vCPU threads. Every MMIO exit of every vCPU makes a
call, and the calls interleave between their atomic steps. -/
namespace Kthxvm.Virtio.RngRace

open Lib.ByteMemory Lib.Transition Rng

structure State where
  queue : Queue
  guest : Guest
  /-- the calls made so far, each with its position -/
  calls : List Position
  /-- heads taken from the available ring -/
  taken : List UInt16
  /-- head and length of every buffer filled -/
  fills : List (UInt32 × UInt32)
  /-- id and length of every element put on the used ring -/
  used : List (UInt32 × UInt32)

inductive Action where
  | memory (bytes : Memory)
  | call
  | next (i : Nat)
  | availId (i : Nat)
  | fill (i : Nat) (random : Nat → List UInt8)
  | addUsed (i : Nat)

def headOf : Position → Option UInt16
  | .taken next => some next
  | _ => none

namespace State

def afterNext (s : State) (i : Nat) (position : Position) (queue : Queue) : State :=
  { s with
    queue := queue
    calls := s.calls.set i position
    taken := s.taken ++ (headOf position).toList }

def afterAvailId (s : State) (i : Nat) (position : Position) : State :=
  { s with calls := s.calls.set i position }

def afterFill (s : State) (i : Nat) (position : Position) (guest : Guest) (next : UInt16) :
    State :=
  { s with
    guest := guest
    calls := s.calls.set i position
    fills := s.fills ++ [(next.toUInt32, (s.queue.entry s.guest.bytes next).len)] }

def afterAddUsed (s : State) (i : Nat) (guest : Guest) (descStart len : UInt32) : State :=
  { s with
    guest := guest
    calls := s.calls.set i .finished
    used := s.used ++ [(descStart, len)] }

end State

inductive Step : State → Action → State → Prop where
  | memory (s : State) (bytes : Memory) :
      Step s (.memory bytes) { s with guest := ⟨bytes, s.guest.size⟩ }
  | call (s : State) : Step s .call { s with calls := s.calls ++ [.start] }
  | next {s : State} {i : Nat} {position : Position} {queue : Queue}
      (hi : s.calls[i]? = some .start)
      (h : stepNext s.queue s.guest = .ok (position, queue)) :
      Step s (.next i) (s.afterNext i position queue)
  | availId {s : State} {i : Nat} {next : UInt16} {position : Position}
      (hi : s.calls[i]? = some (.taken next))
      (h : stepAvailId s.queue s.guest next = .ok position) :
      Step s (.availId i) (s.afterAvailId i position)
  | fill {s : State} {i : Nat} {random : Nat → List UInt8} {next : UInt16}
      {descStart : UInt32} {position : Position} {guest : Guest}
      (hi : s.calls[i]? = some (.named next descStart))
      (h : stepFill s.queue s.guest random next descStart = .ok (position, guest)) :
      Step s (.fill i random) (s.afterFill i position guest next)
  | addUsed {s : State} {i : Nat} {descStart len : UInt32} {guest : Guest}
      (hi : s.calls[i]? = some (.filled descStart len))
      (h : stepAddUsed s.queue s.guest descStart len = .ok guest) :
      Step s (.addUsed i) (s.afterAddUsed i guest descStart len)

abbrev Moves := List (Move State Action)

def initial (queue : Queue) (guest : Guest) : State where
  queue := queue
  guest := guest
  calls := []
  taken := []
  fills := []
  used := []

def currentHead (q : Queue) (m : Memory) : UInt16 :=
  load16 m (q.availSlot ((q.lastAvail - 1) % q.size))

/-- What the driver owes: it does not reuse the slot of a chain that is still
being taken, and a buffer lies neither over its own entry of the table nor over the
available ring. -/
def Driver (s : State) : Action → Prop
  | .memory bytes => ∀ next, Position.taken next ∈ s.calls →
      currentHead s.queue bytes = currentHead s.queue s.guest.bytes
  | .fill i random => ∀ next descStart, s.calls[i]? = some (.named next descStart) →
      let d := s.queue.entry s.guest.bytes next
      Span.Apart ⟨s.queue.descEntry next, 16⟩ ⟨d.addr, (random d.len.toNat).length⟩ ∧
        s.queue.availSpan.Apart ⟨d.addr, (random d.len.toNat).length⟩
  | _ => True

/-- No call takes a chain while another one is between its `next()` and its `avail_id()`. -/
def Alone (s : State) : Action → Prop
  | .next _ => (∃ head queue, s.queue.next s.guest = .ok (some head, queue)) →
      ∀ next, Position.taken next ∉ s.calls
  | _ => True

def openId : Position → Option UInt32
  | .taken next => some next.toUInt32
  | .named _ descStart => some descStart
  | .filled descStart _ => some descStart
  | _ => none

def openFill : Position → Option (UInt32 × UInt32)
  | .filled descStart len => some (descStart, len)
  | _ => none

/-- Every taken head is on the used ring once or with one call that will put it
there, and likewise every filled buffer with its length. -/
def Exact (s : State) : Prop :=
  (s.taken.map UInt16.toUInt32).Perm (s.used.map Prod.fst ++ s.calls.filterMap openId) ∧
    s.fills.Perm (s.used ++ s.calls.filterMap openFill)

theorem filterMap_set {α β : Type} {f : α → Option β} {xs : List α} {i : Nat} {old : α}
    (h : xs[i]? = some old) (new : α) :
    ((f old).toList ++ (xs.set i new).filterMap f).Perm
      ((f new).toList ++ xs.filterMap f) := by
  have hcons : ∀ y ys, (y :: ys).filterMap f = (f y).toList ++ ys.filterMap f := by
    intro y ys
    cases hy : f y <;> simp [hy]
  induction xs generalizing i with
  | nil => contradiction
  | cons x xs ih =>
    cases i with
    | zero =>
      cases h
      rw [List.set_cons_zero, hcons, hcons]
      exact List.perm_append_comm_assoc _ _ _
    | succ i =>
      rw [List.set_cons_succ, hcons, hcons]
      have hleft := List.perm_append_comm_assoc (f old).toList (f x).toList
        ((xs.set i new).filterMap f)
      have hright := List.perm_append_comm_assoc (f x).toList (f new).toList (xs.filterMap f)
      exact hleft.trans (((ih h).append_left _).trans hright)

/-- In a run without overlap: the one call that has taken a chain finds its head
in the current slot, and every later call carries the id of its own chain. -/
structure Inv (s : State) : Prop where
  placed : s.queue.Placed s.guest
  single : ∀ (i j : Nat) (next next' : UInt16), s.calls[i]? = some (.taken next) →
    s.calls[j]? = some (.taken next') → i = j
  current : ∀ next, Position.taken next ∈ s.calls → currentHead s.queue s.guest.bytes = next
  named : ∀ next descStart, Position.named next descStart ∈ s.calls → descStart = next.toUInt32
  exact : Exact s

theorem inv_initial {queue : Queue} {guest : Guest} (h : queue.Placed guest) :
    Inv (initial queue guest) where
  placed := h
  single := fun i j next next' hi => by simp [initial] at hi
  current := fun next hmem => absurd hmem List.not_mem_nil
  named := fun next descStart hmem => absurd hmem List.not_mem_nil
  exact := ⟨List.Perm.refl _, List.Perm.refl _⟩

theorem mem_of_mem_set {xs : List Position} {i : Nat} {new x : Position}
    (h : x ∈ xs.set i new) (hne : x ≠ new) : x ∈ xs :=
  (List.mem_or_eq_of_mem_set h).resolve_right hne

theorem getElem?_of_set {xs : List Position} {i j : Nat} {new x : Position}
    (h : (xs.set i new)[j]? = some x) (hne : x ≠ new) : xs[j]? = some x := by
  rw [List.getElem?_set] at h
  split at h
  · split at h
    · cases h
      contradiction
    · contradiction
  · exact h

section Steps

variable {s : State}

theorem stepNext_cases {position : Position} {queue : Queue}
    (h : stepNext s.queue s.guest = .ok (position, queue)) :
    (position = .finished ∧ queue = s.queue) ∨
      ∃ head, position = .taken head ∧ s.queue.next s.guest = .ok (some head, queue) := by
  obtain ⟨⟨taken, queue'⟩, hnext, h⟩ := bind_eq_ok.mp h
  cases taken with
  | none =>
    cases h
    exact Or.inl ⟨rfl, Queue.next_idle hnext⟩
  | some head =>
    cases h
    exact Or.inr ⟨head, rfl, hnext⟩

theorem stepFill_ok {random : Nat → List UInt8} {next : UInt16} {descStart : UInt32}
    {position : Position} {guest : Guest}
    (h : stepFill s.queue s.guest random next descStart = .ok (position, guest))
    (hapart : Span.Apart ⟨s.queue.descEntry next, 16⟩
      ⟨(s.queue.entry s.guest.bytes next).addr,
        (random (s.queue.entry s.guest.bytes next).len.toNat).length⟩) :
    position = .filled descStart (s.queue.entry s.guest.bytes next).len ∧
      guest = ⟨store s.guest.bytes (s.queue.entry s.guest.bytes next).addr
        (random (s.queue.entry s.guest.bytes next).len.toNat), s.guest.size⟩ := by
  obtain ⟨d, hd, h⟩ := bind_eq_ok.mp h
  obtain ⟨guest', hwrite, h⟩ := bind_eq_ok.mp h
  obtain ⟨d', hd', h⟩ := bind_eq_ok.mp h
  obtain ⟨rfl, rfl⟩ := Prod.mk.inj (Except.ok.inj h)
  have hd := Queue.descriptor_eq_ok hd
  have hd' := Queue.descriptor_eq_ok hd'
  have hwrite := Guest.write_eq_ok hwrite
  subst hd hwrite hd'
  refine ⟨?_, rfl⟩
  -- the buffer leaves the length of its own descriptor as it was
  have hkeep : AgreeOn ⟨s.queue.descEntry next, 16⟩ s.guest.bytes
      (store s.guest.bytes (s.queue.entry s.guest.bytes next).addr
        (random (s.queue.entry s.guest.bytes next).len.toNat)) :=
    (AgreeOn.refl _ _).store hapart
  have hentry := Queue.entry_of_agree hkeep
  rw [← hentry]

theorem currentHead_congr {q : Queue} {g : Guest} {m : Memory} (hp : q.Placed g)
    (h : AgreeOn q.availSpan g.bytes m) : currentHead q m = currentHead q g.bytes := by
  have hi := Queue.mod_size_lt hp.size_pos (q.lastAvail - 1)
  exact (h.mono (Queue.availSlot_within hp.size_le hi)).load16_eq.symm

theorem exact_move {i : Nat} {old new : Position} {taken' : List UInt16}
    {fills' used' : List (UInt32 × UInt32)} {t : State} (hs : Exact s)
    (hi : s.calls[i]? = some old) (hcalls : t.calls = s.calls.set i new)
    (htaken : t.taken = s.taken ++ taken') (hfills : t.fills = s.fills ++ fills')
    (hused : t.used = s.used ++ used')
    (hids : (taken'.map UInt16.toUInt32 ++ (openId old).toList).Perm
      (used'.map Prod.fst ++ (openId new).toList))
    (hopen : (fills' ++ (openFill old).toList).Perm (used' ++ (openFill new).toList)) :
    Exact t := by
  have hset := filterMap_set (f := openId) hi new
  have hset' := filterMap_set (f := openFill) hi new
  obtain ⟨htk, hfl⟩ := hs
  unfold Exact
  rw [hcalls, htaken, hfills, hused]
  rw [List.perm_iff_count] at hset hset' htk hfl hids hopen
  rw [List.perm_iff_count, List.perm_iff_count]
  constructor
  · intro b
    have h1 := htk b
    have h2 := hset b
    have h3 := hids b
    simp only [List.map_append, List.count_append] at h1 h2 h3 ⊢
    omega
  · intro b
    have h1 := hfl b
    have h2 := hset' b
    have h3 := hopen b
    simp only [List.count_append] at h1 h2 h3 ⊢
    omega

theorem inv_memory (hs : Inv s) {bytes : Memory} (hdriver : Driver s (.memory bytes)) :
    Inv { s with guest := ⟨bytes, s.guest.size⟩ } where
  placed := hs.placed.congr rfl rfl rfl rfl rfl
  single := hs.single
  current := fun next hmem => (hdriver next hmem).trans (hs.current next hmem)
  named := hs.named
  exact := hs.exact

theorem inv_call (hs : Inv s) : Inv { s with calls := s.calls ++ [.start] } where
  placed := hs.placed
  single := by
    intro i j next next' hi hj
    have hold : ∀ (k : Nat) (n : UInt16), (s.calls ++ [Position.start])[k]? = some (.taken n) →
        s.calls[k]? = some (.taken n) := by
      intro k n hk
      rw [List.getElem?_append] at hk
      split at hk
      · exact hk
      · have hmem := List.mem_of_getElem? hk
        simp at hmem
    exact hs.single i j next next' (hold i next hi) (hold j next' hj)
  current := fun next hmem => hs.current next (by simpa using hmem)
  named := fun next descStart hmem => hs.named next descStart (by simpa using hmem)
  exact := by
    obtain ⟨hids, hfills⟩ := hs.exact
    unfold Exact
    simp only [List.filterMap_append, List.filterMap_cons, List.filterMap_nil, openId, openFill,
      List.append_nil]
    exact ⟨hids, hfills⟩

theorem inv_next (hs : Inv s) {i : Nat} {position : Position} {queue : Queue}
    (hi : s.calls[i]? = some .start)
    (h : stepNext s.queue s.guest = .ok (position, queue)) (halone : Alone s (.next i)) :
    Inv (s.afterNext i position queue) := by
  rcases stepNext_cases h with ⟨rfl, rfl⟩ | ⟨head, rfl, hnext⟩
  · exact {
      placed := hs.placed
      single := fun j k next next' hj hk => hs.single j k next next'
        (getElem?_of_set hj (by simp)) (getElem?_of_set hk (by simp))
      current := fun next hmem => hs.current next (mem_of_mem_set hmem (by simp))
      named := fun next descStart hmem =>
        hs.named next descStart (mem_of_mem_set hmem (by simp))
      exact := exact_move hs.exact hi rfl rfl (List.append_nil _).symm (List.append_nil _).symm
        (List.Perm.refl _) (List.Perm.refl _) }
  · obtain ⟨-, rfl, hhead⟩ := Queue.next_takes hnext
    have hnone := halone ⟨head, _, hnext⟩
    have hp : Queue.Placed { s.queue with lastAvail := s.queue.lastAvail + 1 } s.guest :=
      hs.placed.congr rfl rfl rfl rfl rfl
    -- only this call has a chain without an id
    have hthis : ∀ (j : Nat) (n : UInt16),
        (s.calls.set i (.taken head))[j]? = some (.taken n) → i = j := by
      intro j n hj
      by_contra hne
      rw [List.getElem?_set_ne hne] at hj
      exact hnone n (List.mem_of_getElem? hj)
    exact {
      placed := hp
      single := fun j k next next' hj hk =>
        (hthis j next hj).symm.trans (hthis k next' hk)
      current := by
        intro next hmem
        have hnew : Position.taken next = .taken head :=
          (List.mem_or_eq_of_mem_set hmem).resolve_left (hnone next)
        cases hnew
        rw [Queue.availId_ok hp] at hhead
        exact Except.ok.inj hhead
      named := fun next descStart hmem =>
        hs.named next descStart (mem_of_mem_set hmem (by simp))
      exact := exact_move hs.exact hi rfl rfl (List.append_nil _).symm (List.append_nil _).symm
        (List.Perm.refl _) (List.Perm.refl _) }

theorem inv_availId (hs : Inv s) {i : Nat} {next : UInt16} {position : Position}
    (hi : s.calls[i]? = some (.taken next))
    (h : stepAvailId s.queue s.guest next = .ok position) : Inv (s.afterAvailId i position) := by
  obtain ⟨id, hid, h⟩ := bind_eq_ok.mp h
  cases h
  -- the slot still holds the head that this call has taken
  have hhead : id = next := by
    rw [Queue.availId_ok hs.placed] at hid
    rw [← Except.ok.inj hid]
    exact hs.current next (List.mem_of_getElem? hi)
  subst hhead
  exact {
    placed := hs.placed
    single := fun j k next next' hj hk => hs.single j k next next'
      (getElem?_of_set hj (by simp)) (getElem?_of_set hk (by simp))
    current := fun next hmem => hs.current next (mem_of_mem_set hmem (by simp))
    named := by
      intro next descStart hmem
      rcases List.mem_or_eq_of_mem_set hmem with hold | hnew
      · exact hs.named next descStart hold
      · cases hnew
        rfl
    exact := exact_move hs.exact hi rfl (List.append_nil _).symm (List.append_nil _).symm
      (List.append_nil _).symm (List.Perm.refl _) (List.Perm.refl _) }

theorem inv_fill (hs : Inv s) {i : Nat} {random : Nat → List UInt8} {next : UInt16}
    {descStart : UInt32} {position : Position} {guest : Guest}
    (hi : s.calls[i]? = some (.named next descStart))
    (h : stepFill s.queue s.guest random next descStart = .ok (position, guest))
    (hdriver : Driver s (.fill i random)) : Inv (s.afterFill i position guest next) := by
  obtain ⟨htable, havail⟩ := hdriver next descStart hi
  obtain ⟨rfl, rfl⟩ := stepFill_ok h htable
  have hname := hs.named next descStart (List.mem_of_getElem? hi)
  subst hname
  have hslot := currentHead_congr hs.placed ((AgreeOn.refl s.queue.availSpan _).store havail)
  exact {
    placed := hs.placed.congr rfl rfl rfl rfl rfl
    single := fun j k next next' hj hk => hs.single j k next next'
      (getElem?_of_set hj (by simp)) (getElem?_of_set hk (by simp))
    current := fun next hmem =>
      hslot.trans (hs.current next (mem_of_mem_set hmem (by simp)))
    named := fun next descStart hmem =>
      hs.named next descStart (mem_of_mem_set hmem (by simp))
    exact := exact_move hs.exact hi rfl (List.append_nil _).symm rfl
      (List.append_nil _).symm (List.Perm.refl _) (List.Perm.refl _) }

theorem stepAddUsed_ok {q : Queue} {g : Guest} (hp : q.Placed g) (descStart len : UInt32) :
    stepAddUsed q g descStart len = .ok ⟨q.afterAddUsed g.bytes descStart len, g.size⟩ := by
  unfold stepAddUsed
  rw [Queue.addUsed_ok hp]
  rfl

theorem inv_addUsed (hs : Inv s) {i : Nat} {descStart len : UInt32} {guest : Guest}
    (hi : s.calls[i]? = some (.filled descStart len))
    (h : stepAddUsed s.queue s.guest descStart len = .ok guest) :
    Inv (s.afterAddUsed i guest descStart len) := by
  rw [stepAddUsed_ok hs.placed] at h
  cases h
  have hslot := currentHead_congr hs.placed (Queue.afterAddUsed_agree hs.placed.size_pos
    hs.placed.size_le hs.placed.avail_used s.guest.bytes descStart len)
  exact {
    placed := hs.placed.congr rfl rfl rfl rfl rfl
    single := fun j k next next' hj hk => hs.single j k next next'
      (getElem?_of_set hj (by simp)) (getElem?_of_set hk (by simp))
    current := fun next hmem =>
      hslot.trans (hs.current next (mem_of_mem_set hmem (by simp)))
    named := fun next descStart hmem =>
      hs.named next descStart (mem_of_mem_set hmem (by simp))
    exact := exact_move hs.exact hi rfl (List.append_nil _).symm (List.append_nil _).symm rfl
      (List.Perm.refl _) (List.Perm.refl _) }

end Steps

theorem inv_step {s s' : State} {l : Action} (hs : Inv s) (hstep : Step s l s')
    (hdriver : Driver s l) (halone : Alone s l) : Inv s' := by
  cases hstep with
  | memory => exact inv_memory hs hdriver
  | call => exact inv_call hs
  | next hi h => exact inv_next hs hi h halone
  | availId hi h => exact inv_availId hs hi h
  | fill hi h => exact inv_fill hs hi h hdriver
  | addUsed hi h => exact inv_addUsed hs hi h

def sampleGuest : Guest where
  bytes := image [(0x1000, bytesOfNat 8 0x4000 ++ bytesOfNat 4 4 ++ bytesOfNat 4 0),
    (0x1010, bytesOfNat 8 0x5000 ++ bytesOfNat 4 2 ++ bytesOfNat 4 0),
    (0x2002, [2]), (0x2006, [1])]
  size := 0x8000

def takenQueue (n : UInt32) : Queue := { sampleQueue with lastAvail := n }

theorem takenQueue_placed (n : UInt32) {g : Guest} (h : 0x8000 ≤ g.size) :
    (takenQueue n).Placed g :=
  (sampleQueue_placed h).congr rfl rfl rfl rfl rfl

def noise (n : Nat) : List UInt8 := List.replicate n 0xa5

def filledOne : Guest := ⟨store sampleGuest.bytes 0x4000 (noise 4), 0x8000⟩
def filledTwo : Guest := ⟨store filledOne.bytes 0x5000 (noise 2), 0x8000⟩

def returned (g : Guest) (descStart len : UInt32) : Guest :=
  ⟨sampleQueue.afterAddUsed g.bytes descStart len, 0x8000⟩

theorem sample_apart {n : UInt32} {i : UInt16} (hi : i.toNat < 4) {addr : UInt64} {len : Nat}
    (ha : 0x4000 ≤ addr.toNat) (hlen : addr.toNat + len ≤ 2 ^ 64) :
    Span.Apart ⟨(takenQueue n).descEntry i, 16⟩ ⟨addr, len⟩ ∧
      (takenQueue n).availSpan.Apart ⟨addr, len⟩ := by
  have htable : sampleQueue.tableSpan.Apart ⟨addr, len⟩ :=
    Span.apart_of_le (le_trans (by decide) ha) hlen
  have hentry : Span.Within ⟨sampleQueue.descEntry i, 16⟩ sampleQueue.tableSpan :=
    Queue.descEntry_within hi
  have havail : sampleQueue.availSpan.Apart ⟨addr, len⟩ :=
    Span.apart_of_le (le_trans (by decide) ha) hlen
  exact ⟨htable.mono hentry (Span.Within.refl _), havail⟩

/-- As long as no call takes a chain between the `next()` and the `avail_id()`
of another, every chain is completed once with the length that was filled. -/
theorem exact_of_alone {queue : Queue} {guest : Guest} {s : State} {moves : Moves}
    (hp : queue.Placed guest) (run : Run Step (initial queue guest) moves s)
    (hdriver : ∀ move ∈ moves, Driver move.source move.label)
    (halone : ∀ move ∈ moves, Alone move.source move.label) : Exact s := by
  have hs : Inv s := ((run.guarded hdriver).guarded halone).invariant (inv_initial hp)
    fun _ _ _ hs hmove => inv_step hs hmove.2.2 hmove.2.1 hmove.1
  exact hs.exact

/-- Two calls of which the second begins when the first has its id, and then overtakes it. -/
theorem overlapping_calls_exact : ∃ s moves,
    Run Step (initial sampleQueue sampleGuest) moves s ∧
    s.calls = [.finished, .finished] ∧ s.used = [(1, 2), (0, 4)] ∧ Exact s := by
  have h1 : guarded (guarded Step Driver) Alone (initial sampleQueue sampleGuest) .call
      ⟨sampleQueue, sampleGuest, [.start], [], [], []⟩ := ⟨trivial, trivial, Step.call _⟩
  have h2 : guarded (guarded Step Driver) Alone
      ⟨sampleQueue, sampleGuest, [.start], [], [], []⟩ .call
      ⟨sampleQueue, sampleGuest, [.start, .start], [], [], []⟩ := ⟨trivial, trivial, Step.call _⟩
  have h3 : guarded (guarded Step Driver) Alone
      ⟨sampleQueue, sampleGuest, [.start, .start], [], [], []⟩ (.next 0)
      ⟨takenQueue 1, sampleGuest, [.taken 0, .start], [0], [], []⟩ :=
    ⟨fun _ next h => by simp at h, trivial, Step.next rfl (by decide)⟩
  have h4 : guarded (guarded Step Driver) Alone
      ⟨takenQueue 1, sampleGuest, [.taken 0, .start], [0], [], []⟩ (.availId 0)
      ⟨takenQueue 1, sampleGuest, [.named 0 0, .start], [0], [], []⟩ :=
    ⟨trivial, trivial, Step.availId rfl (by decide)⟩
  have h5 : guarded (guarded Step Driver) Alone
      ⟨takenQueue 1, sampleGuest, [.named 0 0, .start], [0], [], []⟩ (.next 1)
      ⟨takenQueue 2, sampleGuest, [.named 0 0, .taken 1], [0, 1], [], []⟩ :=
    ⟨fun _ next h => by simp at h, trivial, Step.next rfl (by decide)⟩
  have h6 : guarded (guarded Step Driver) Alone
      ⟨takenQueue 2, sampleGuest, [.named 0 0, .taken 1], [0, 1], [], []⟩ (.availId 1)
      ⟨takenQueue 2, sampleGuest, [.named 0 0, .named 1 1], [0, 1], [], []⟩ :=
    ⟨trivial, trivial, Step.availId rfl (by decide)⟩
  have h7 : guarded (guarded Step Driver) Alone
      ⟨takenQueue 2, sampleGuest, [.named 0 0, .named 1 1], [0, 1], [], []⟩ (.fill 0 noise)
      ⟨takenQueue 2, filledOne, [.filled 0 4, .named 1 1], [0, 1], [(0, 4)], []⟩ := by
    refine ⟨trivial, ?_, @Step.fill _ 0 noise 0 0 _ _ rfl rfl⟩
    intro next descStart h
    cases h
    exact sample_apart (by decide) (by decide) (by decide)
  have h8 : guarded (guarded Step Driver) Alone
      ⟨takenQueue 2, filledOne, [.filled 0 4, .named 1 1], [0, 1], [(0, 4)], []⟩ (.fill 1 noise)
      ⟨takenQueue 2, filledTwo, [.filled 0 4, .filled 1 2], [0, 1], [(0, 4), (1, 2)], []⟩ := by
    refine ⟨trivial, ?_, @Step.fill _ 1 noise 1 1 _ _ rfl rfl⟩
    intro next descStart h
    cases h
    exact sample_apart (by decide) (by decide) (by decide)
  have h9 : guarded (guarded Step Driver) Alone
      ⟨takenQueue 2, filledTwo, [.filled 0 4, .filled 1 2], [0, 1], [(0, 4), (1, 2)], []⟩
      (.addUsed 1)
      ⟨takenQueue 2, returned filledTwo 1 2, [.filled 0 4, .finished], [0, 1],
        [(0, 4), (1, 2)], [(1, 2)]⟩ :=
    ⟨trivial, trivial, Step.addUsed rfl (stepAddUsed_ok (takenQueue_placed 2 le_rfl) 1 2)⟩
  have h10 : guarded (guarded Step Driver) Alone
      ⟨takenQueue 2, returned filledTwo 1 2, [.filled 0 4, .finished], [0, 1],
        [(0, 4), (1, 2)], [(1, 2)]⟩ (.addUsed 0)
      ⟨takenQueue 2, returned (returned filledTwo 1 2) 0 4, [.finished, .finished], [0, 1],
        [(0, 4), (1, 2)], [(1, 2), (0, 4)]⟩ :=
    ⟨trivial, trivial, Step.addUsed rfl (stepAddUsed_ok (takenQueue_placed 2 le_rfl) 0 4)⟩
  have hrun := (((((((((Run.one h1).snoc h2).snoc h3).snoc h4).snoc h5).snoc h6).snoc h7).snoc
    h8).snoc h9).snoc h10
  obtain ⟨hrun, halone⟩ := hrun.of_guarded
  obtain ⟨hrun, hdriver⟩ := hrun.of_guarded
  exact ⟨_, _, hrun, rfl, rfl, exact_of_alone (sampleQueue_placed le_rfl) hrun hdriver halone⟩

/-- Two calls that both take their chain before either asks for its id. -/
theorem two_calls_return_one_head : ∃ s moves,
    Run (guarded Step Driver) (initial sampleQueue sampleGuest) moves s ∧
    s.calls = [.finished, .finished] ∧ s.taken = [0, 1] ∧ s.used = [(1, 4), (1, 2)] ∧
    ¬ Exact s := by
  have h1 : guarded Step Driver (initial sampleQueue sampleGuest) .call
      ⟨sampleQueue, sampleGuest, [.start], [], [], []⟩ := ⟨trivial, Step.call _⟩
  have h2 : guarded Step Driver ⟨sampleQueue, sampleGuest, [.start], [], [], []⟩ .call
      ⟨sampleQueue, sampleGuest, [.start, .start], [], [], []⟩ := ⟨trivial, Step.call _⟩
  have h3 : guarded Step Driver
      ⟨sampleQueue, sampleGuest, [.start, .start], [], [], []⟩ (.next 0)
      ⟨takenQueue 1, sampleGuest, [.taken 0, .start], [0], [], []⟩ :=
    ⟨trivial, Step.next rfl (by decide)⟩
  have h4 : guarded Step Driver
      ⟨takenQueue 1, sampleGuest, [.taken 0, .start], [0], [], []⟩ (.next 1)
      ⟨takenQueue 2, sampleGuest, [.taken 0, .taken 1], [0, 1], [], []⟩ :=
    ⟨trivial, Step.next rfl (by decide)⟩
  have h5 : guarded Step Driver
      ⟨takenQueue 2, sampleGuest, [.taken 0, .taken 1], [0, 1], [], []⟩ (.availId 0)
      ⟨takenQueue 2, sampleGuest, [.named 0 1, .taken 1], [0, 1], [], []⟩ :=
    ⟨trivial, Step.availId rfl (by decide)⟩
  have h6 : guarded Step Driver
      ⟨takenQueue 2, sampleGuest, [.named 0 1, .taken 1], [0, 1], [], []⟩ (.availId 1)
      ⟨takenQueue 2, sampleGuest, [.named 0 1, .named 1 1], [0, 1], [], []⟩ :=
    ⟨trivial, Step.availId rfl (by decide)⟩
  have h7 : guarded Step Driver
      ⟨takenQueue 2, sampleGuest, [.named 0 1, .named 1 1], [0, 1], [], []⟩ (.fill 0 noise)
      ⟨takenQueue 2, filledOne, [.filled 1 4, .named 1 1], [0, 1], [(0, 4)], []⟩ := by
    refine ⟨?_, @Step.fill _ 0 noise 0 1 _ _ rfl rfl⟩
    intro next descStart h
    cases h
    exact sample_apart (by decide) (by decide) (by decide)
  have h8 : guarded Step Driver
      ⟨takenQueue 2, filledOne, [.filled 1 4, .named 1 1], [0, 1], [(0, 4)], []⟩ (.fill 1 noise)
      ⟨takenQueue 2, filledTwo, [.filled 1 4, .filled 1 2], [0, 1], [(0, 4), (1, 2)], []⟩ := by
    refine ⟨?_, @Step.fill _ 1 noise 1 1 _ _ rfl rfl⟩
    intro next descStart h
    cases h
    exact sample_apart (by decide) (by decide) (by decide)
  have h9 : guarded Step Driver
      ⟨takenQueue 2, filledTwo, [.filled 1 4, .filled 1 2], [0, 1], [(0, 4), (1, 2)], []⟩
      (.addUsed 0)
      ⟨takenQueue 2, returned filledTwo 1 4, [.finished, .filled 1 2], [0, 1],
        [(0, 4), (1, 2)], [(1, 4)]⟩ :=
    ⟨trivial, Step.addUsed rfl (stepAddUsed_ok (takenQueue_placed 2 le_rfl) 1 4)⟩
  have h10 : guarded Step Driver
      ⟨takenQueue 2, returned filledTwo 1 4, [.finished, .filled 1 2], [0, 1],
        [(0, 4), (1, 2)], [(1, 4)]⟩ (.addUsed 1)
      ⟨takenQueue 2, returned (returned filledTwo 1 4) 1 2, [.finished, .finished], [0, 1],
        [(0, 4), (1, 2)], [(1, 4), (1, 2)]⟩ :=
    ⟨trivial, Step.addUsed rfl (stepAddUsed_ok (takenQueue_placed 2 le_rfl) 1 2)⟩
  have hrun := (((((((((Run.one h1).snoc h2).snoc h3).snoc h4).snoc h5).snoc h6).snoc h7).snoc
    h8).snoc h9).snoc h10
  refine ⟨_, _, hrun, rfl, rfl, rfl, ?_⟩
  rintro ⟨hids, -⟩
  revert hids
  decide

end Kthxvm.Virtio.RngRace
