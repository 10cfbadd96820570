import Kthxvm.Virtio.Rng
import Kthxvm.Virtio.Staging

/-! What keeps the devices inside guest memory. The source checks no address,
length or index, so that everything rests on the descriptors the driver writes. -/
namespace Kthxvm.Virtio

open Lib.ByteMemory Lib.Triple

/-- The faults that do not touch anything outside guest memory and the arrays
declared in it. -/
def Harmless (fault : Fault) : Prop := fault = .hostBuffer ∨ fault = .unfinished

abbrev Contained {α : Type} (x : Except Fault α) (P : α → Prop) : Prop := Meets Harmless x P

theorem harmless_hostBuffer : Harmless .hostBuffer := Or.inl rfl

theorem harmless_unfinished : Harmless .unfinished := Or.inr rfl

namespace Queue

/-- The three structures that the ring addresses point to lie in guest memory. -/
structure InRam (q : Queue) (g : Guest) : Prop where
  size_pos : 0 < q.size.toNat
  size_le : q.size.toNat ≤ queueSizeMax.toNat
  table : g.Holds q.descAddr (16 * queueSizeMax.toNat)
  avail : g.Holds q.availAddr (6 + 2 * queueSizeMax.toNat)
  used : g.Holds q.usedAddr (6 + 8 * queueSizeMax.toNat)

def wholeTable (q : Queue) : Span := ⟨q.descAddr, 16 * queueSizeMax.toNat⟩

def offered (q : Queue) (m : Memory) : UInt16 := load16 m (q.availSlot (q.lastAvail % q.size))

def Finds (q : Queue) (g : Guest) : Prop :=
  q.ready = true ∧ q.lastAvail < (load16 g.bytes q.availIdxAddr).toUInt32

/-- How a loop uses the table. Behind a descriptor it goes on with `after`, or not at all. -/
structure Walk (σ : Type) where
  after : Descriptor → σ → Option σ
  /-- the bytes of the buffer that may be read or written -/
  need : Descriptor → Nat
  /-- the table is read again after the buffer was written -/
  fills : Descriptor → σ → Prop

/-- From one table entry to those that the loop gets to over NEXT flags. -/
inductive Linked {σ : Type} (q : Queue) (m : Memory) (w : Walk σ) :
    UInt16 → σ → UInt16 → σ → Prop where
  | refl (i : UInt16) (s : σ) : Linked q m w i s i s
  | head {i j : UInt16} {s s' t : σ} (hnext : (q.entry m i).hasNext = true)
      (hafter : w.after (q.entry m i) s = some s')
      (h : Linked q m w (q.entry m i).next s' j t) : Linked q m w i s j t

/-- Every descriptor that the loop gets to has an index of the table and its bytes in guest
memory; and what is filled while the table is still needed lies off the table. -/
def Followable {σ : Type} (q : Queue) (g : Guest) (w : Walk σ) (i : UInt16) (s : σ) : Prop :=
  ∀ j t, Linked q g.bytes w i s j t → j.toNat < queueSizeMax.toNat ∧
    g.Holds (q.entry g.bytes j).addr (w.need (q.entry g.bytes j)) ∧
    (w.fills (q.entry g.bytes j) t → q.wholeTable.Apart (q.entry g.bytes j).span)

section

variable {σ : Type} {q : Queue} {g : Guest} {w : Walk σ} {i : UInt16} {s s' : σ}

theorem InRam.bytes (h : q.InRam g) (m : Memory) : q.InRam ⟨m, g.size⟩ :=
  ⟨h.size_pos, h.size_le, h.table, h.avail, h.used⟩

theorem InRam.descriptor_eq (h : q.InRam g) (hi : i.toNat < queueSizeMax.toNat) :
    q.descriptor g i = .ok (q.entry g.bytes i) :=
  descriptor_of_held h.table hi

theorem InRam.passed (h : q.InRam g) : InRam { q with lastAvail := q.lastAvail + 1 } g :=
  ⟨h.size_pos, h.size_le, h.table, h.avail, h.used⟩

theorem InRam.congr {g' : Guest} (h : q.InRam g) (hsize : g'.size = g.size) : q.InRam g' := by
  have h' := h.bytes g'.bytes
  rw [← hsize] at h'
  exact h'

theorem Followable.self (h : q.Followable g w i s) :
    i.toNat < queueSizeMax.toNat ∧
      g.Holds (q.entry g.bytes i).addr (w.need (q.entry g.bytes i)) ∧
      (w.fills (q.entry g.bytes i) s → q.wholeTable.Apart (q.entry g.bytes i).span) :=
  h i s (Linked.refl i s)

theorem Followable.next (h : q.Followable g w i s) (hnext : (q.entry g.bytes i).hasNext = true)
    (hafter : w.after (q.entry g.bytes i) s = some s') :
    q.Followable g w (q.entry g.bytes i).next s' :=
  fun j t hj => h j t (Linked.head hnext hafter hj)

theorem followable_iff : q.Followable g w i s ↔
    (i.toNat < queueSizeMax.toNat ∧
      g.Holds (q.entry g.bytes i).addr (w.need (q.entry g.bytes i)) ∧
      (w.fills (q.entry g.bytes i) s → q.wholeTable.Apart (q.entry g.bytes i).span)) ∧
    ((q.entry g.bytes i).hasNext = true → ∀ s', w.after (q.entry g.bytes i) s = some s' →
      q.Followable g w (q.entry g.bytes i).next s') := by
  constructor
  · exact fun h => ⟨h.self, fun hnext _ hafter => h.next hnext hafter⟩
  · rintro ⟨hself, hrest⟩ j t hj
    cases hj with
    | refl => exact hself
    | head hnext hafter hj => exact hrest hnext _ hafter j t hj

theorem Followable.passed (h : q.Followable g w i s) :
    Followable { q with lastAvail := q.lastAvail + 1 } g w i s := by
  intro j t hj
  apply h j t
  induction hj with
  | refl i s => exact Linked.refl i s
  | head hnext hafter _ ih => exact Linked.head hnext hafter (ih (h.next hnext hafter))

theorem entry_of_wholeTable {m m' : Memory} (hi : i.toNat < queueSizeMax.toNat)
    (h : AgreeOn q.wholeTable m m') : q.entry m i = q.entry m' i := by
  apply entry_of_agree
  apply h.mono
  apply Span.within_of_offset
  rw [descEntry_offset]
  omega

theorem Followable.congr (h : q.Followable g w i s) {m : Memory}
    (hagree : AgreeOn q.wholeTable g.bytes m) : q.Followable ⟨m, g.size⟩ w i s := by
  intro j t hj
  change Linked q m w i s j t at hj
  have hold : Linked q g.bytes w i s j t := by
    induction hj with
    | refl i s => exact Linked.refl i s
    | @head i j s s' t hnext hafter _ ih =>
      have hentry := entry_of_wholeTable h.self.1 hagree
      rw [← hentry] at hnext hafter ih
      exact Linked.head hnext hafter (ih (h.next hnext hafter))
  obtain ⟨hlt, hheld, hoff⟩ := h j t hold
  have hentry := entry_of_wholeTable hlt hagree
  rw [hentry] at hheld hoff
  exact ⟨hlt, hheld, hoff⟩

theorem availId_passed (h : q.InRam g) :
    availId { q with lastAvail := q.lastAvail + 1 } g = .ok (q.offered g.bytes) := by
  have hle : q.size.toNat ≤ 512 := h.size_le
  have hring : 4 + 2 * q.size.toNat ≤ 6 + 2 * queueSizeMax.toNat := by
    rw [queueSizeMax_toNat]
    omega
  have hid := availId_of_held (q := { q with lastAvail := q.lastAvail + 1 }) h.size_pos
    hle (h.avail.mono hring)
  have hcancel : q.lastAvail + 1 - 1 = q.lastAvail := UInt32.add_sub_cancel _ _
  dsimp only at hid
  rw [hcancel] at hid
  exact hid

theorem contained_next (h : q.InRam g)
    (hhead : q.Finds g → (q.offered g.bytes).toNat < queueSizeMax.toNat) :
    Contained (q.next g) fun result => (result.1 = none ∧ result.2 = q) ∨
      (q.Finds g ∧ result.1 = some (q.offered g.bytes) ∧
        result.2 = { q with lastAvail := q.lastAvail + 1 }) := by
  unfold next
  split
  · exact Or.inl ⟨rfl, rfl⟩
  · rename_i hready
    have hidx : g.Holds q.availIdxAddr 2 := by
      apply h.avail.field
      decide
    apply Meets.step (Guest.read16_ok hidx)
    split
    · exact Or.inl ⟨rfl, rfl⟩
    · rename_i hlt
      have hfinds : q.Finds g := ⟨by simpa using hready, UInt32.not_le.mp hlt⟩
      apply Meets.step (availId_passed h)
      apply Meets.step (descriptorIndex_of_lt (hhead hfinds))
      exact Or.inr ⟨hfinds, rfl, rfl⟩

theorem contained_addUsed (h : q.InRam g) (start len : UInt32) :
    Contained (q.addUsed g start len) fun result => result.2.size = g.size := by
  have hidx : ∀ m, (⟨m, g.size⟩ : Guest).Holds q.usedIdxAddr 2 := by
    intro m
    apply h.used.field
    decide
  have hslot : ∀ i, (i % q.size).toNat < 512 := fun i =>
    Nat.lt_of_lt_of_le (mod_size_lt h.size_pos i) h.size_le
  have hlen : ∀ m i, (⟨m, g.size⟩ : Guest).Holds (q.usedLenField (i % q.size)) 4 := by
    intro m i
    have hi := hslot i
    apply h.used.field
    rw [usedLenField_offset hi, queueSizeMax_toNat]
    omega
  have hid : ∀ m i, (⟨m, g.size⟩ : Guest).Holds (q.usedIdField (i % q.size)) 4 := by
    intro m i
    have hi := hslot i
    apply h.used.field
    rw [usedIdField_offset hi, queueSizeMax_toNat]
    omega
  unfold addUsed
  apply Meets.step (Guest.read16_ok (hidx g.bytes))
  apply Meets.step (slot_ok h.size_pos h.size_le _)
  apply Meets.step (Guest.write32_ok (hlen g.bytes _))
  apply Meets.step (Guest.read16_ok (hidx _))
  apply Meets.step (slot_ok h.size_pos h.size_le _)
  apply Meets.step (Guest.write32_ok (hid _ _))
  apply Meets.step (Guest.read16_ok (hidx _))
  apply Meets.step (Guest.write16_ok (hidx _))
  apply Meets.step (Guest.read16_ok (hidx _))
  exact rfl

end

end Queue

namespace Net

variable {q : Queue} {g : Guest}

def receiveWalk (size : Int) : Queue.Walk UInt32 where
  after := fun d len =>
    if ((len + writeLen size len d).toNat : Int) = size then none
    else some (len + writeLen size len d)
  need := fun d => d.len.toNat
  fills := fun d len => ((len + writeLen size len d).toNat : Int) ≠ size

def transmitWalk : Queue.Walk Unit where
  after := fun _ _ => some ()
  need := fun d => d.len.toNat
  fills := fun _ _ => False

theorem contained_rxLoop (h : q.InRam g) {size : Int} {i : UInt16} {len : UInt32}
    (hf : q.Followable g (receiveWalk size) i len) (buffer : List UInt8) (fuel : Nat) :
    Contained (rxLoop q buffer size fuel g i len) fun result => result.1.size = g.size := by
  induction fuel generalizing g i len with
  | zero => exact harmless_unfinished
  | succ fuel ih =>
    obtain ⟨hi, hheld, hoff⟩ := hf.self
    rw [rxLoop_succ]
    apply Meets.step (h.descriptor_eq hi)
    apply Meets.bind (hostRead_meets harmless_hostBuffer _ _ _)
    intro bytes hbytes
    have hshort : bytes.length ≤ (q.entry g.bytes i).len.toNat :=
      hbytes.trans (min_toNat_le _ _)
    apply Meets.step (Guest.write_ok (hheld.mono hshort))
    unfold rxNext
    split
    · exact rfl
    · rename_i hmore
      have hagree : AgreeOn q.wholeTable g.bytes
          (store g.bytes (q.entry g.bytes i).addr bytes) :=
        (AgreeOn.refl _ _).store ((hoff hmore).mono (Span.Within.refl _)
          (Span.within_of_le hshort))
      have hafter : (receiveWalk size).after (q.entry g.bytes i) len =
          some (len + writeLen size len (q.entry g.bytes i)) := if_neg hmore
      have h' := h.bytes (store g.bytes (q.entry g.bytes i).addr bytes)
      have hentry := Queue.entry_of_wholeTable hi hagree
      apply Meets.step (h'.descriptor_eq hi)
      dsimp only
      rw [← hentry]
      split
      · rename_i hnext
        have hrest := (hf.next hnext hafter).congr hagree
        apply Meets.step (Queue.descriptorIndex_of_lt hrest.self.1)
        exact ih h' hrest
      · exact rfl

theorem contained_txLoop (h : q.InRam g) {i : UInt16} (hf : q.Followable g transmitWalk i ())
    (fuel : Nat) (buffer : List UInt8) (written : UInt32) :
    Contained (txLoop q g fuel buffer i written) fun _ => True := by
  induction fuel generalizing i buffer written with
  | zero => exact harmless_unfinished
  | succ fuel ih =>
    obtain ⟨hi, hheld, -⟩ := hf.self
    rw [txLoop_step (h.descriptor_eq hi)]
    refine (hostRoom_meets harmless_hostBuffer _ _ _).bind fun _ _ => ?_
    apply Meets.step (Guest.read_ok hheld)
    split
    · rename_i hnext
      have hf' := hf.next hnext rfl
      apply Meets.step (Queue.descriptorIndex_of_lt hf'.self.1)
      exact ih hf' _ _
    · exact trivial

theorem contained_updateRx (h : q.InRam g) {polled : Bool} {packet : Option (List UInt8)}
    (hf : q.Finds g → (q.offered g.bytes).toNat < queueSizeMax.toNat ∧
      (polled = true → q.Followable g (receiveWalk (sizeOf packet)) (q.offered g.bytes) 0))
    (fuel : Nat) (irq : Interrupt) (buffer : List UInt8) :
    Contained (updateRx fuel q irq buffer g polled packet) fun _ => True := by
  unfold updateRx
  apply Meets.bind (Queue.contained_next h fun hfinds => (hf hfinds).1)
  rintro ⟨taken, q'⟩ (⟨rfl, -⟩ | ⟨hfinds, rfl, rfl⟩)
  · exact trivial
  · have h' := h.passed
    dsimp only
    split
    · exact trivial
    · rename_i hpolled
      have hf' := ((hf hfinds).2 (by simpa using hpolled)).passed
      apply Meets.step (Queue.availId_passed h)
      apply Meets.bind (contained_rxLoop h' hf' _ _)
      rintro ⟨g', len⟩ hsize
      have hram : Queue.InRam { q with lastAvail := q.lastAvail + 1 } g' :=
        h'.congr hsize
      exact Meets.bind (Queue.contained_addUsed hram _ _) fun _ _ => trivial

theorem contained_updateTx (h : q.InRam g)
    (hf : q.Finds g → q.Followable g transmitWalk (q.offered g.bytes) ()) (fuel : Nat)
    (irq : Interrupt) (buffer : List UInt8) (tapWrite : List UInt8 → Int) :
    Contained (updateTx fuel q irq buffer g tapWrite) fun _ => True := by
  unfold updateTx
  apply Meets.bind (Queue.contained_next h fun hfinds => (hf hfinds).self.1)
  rintro ⟨taken, q'⟩ (⟨rfl, -⟩ | ⟨hfinds, rfl, rfl⟩)
  · exact trivial
  · have h' := h.passed
    apply Meets.step (Queue.availId_passed h)
    apply Meets.bind (contained_txLoop h' (hf hfinds).passed _ _ _)
    rintro ⟨buffer', written⟩ -
    exact Meets.bind (Queue.contained_addUsed h' _ _) fun _ _ => trivial

end Net

namespace Rng

variable {q : Queue} {g : Guest}

theorem contained_update (h : q.InRam g)
    (hf : q.Finds g → (q.offered g.bytes).toNat < queueSizeMax.toNat ∧
      g.Holds (q.entry g.bytes (q.offered g.bytes)).addr
        (q.entry g.bytes (q.offered g.bytes)).len.toNat)
    (irq : Interrupt) {random : Nat → List UInt8} (hrandom : ∀ n, (random n).length ≤ n) :
    Contained (update q irq g random) fun _ => True := by
  unfold update
  apply Meets.bind (Queue.contained_next h fun hfinds => (hf hfinds).1)
  rintro ⟨taken, q'⟩ (⟨rfl, -⟩ | ⟨hfinds, rfl, rfl⟩)
  · exact trivial
  · obtain ⟨hhead, hheld⟩ := hf hfinds
    have h' := h.passed
    apply Meets.step (Queue.availId_passed h)
    apply Meets.step (h'.descriptor_eq hhead)
    apply Meets.step (Guest.write_ok (hheld.mono (hrandom _)))
    apply Meets.step ((h'.bytes _).descriptor_eq hhead)
    exact Meets.bind (Queue.contained_addUsed (h'.bytes _) _ _) fun _ _ => trivial

end Rng

/-! The block device follows the first link of a request without looking at the
flag, and stores one byte at the end of the chain. -/
namespace Blk

variable {q : Queue} {g : Guest}

def need (d : Descriptor) : Nat := if d.hasNext then d.len.toNat else 1

def readWalk : Queue.Walk Unit where
  after := fun _ _ => some ()
  need := need
  fills := fun d _ => d.hasNext = true

def writeWalk : Queue.Walk Unit where
  after := fun _ _ => some ()
  need := need
  fills := fun _ _ => False

structure Inside (q : Queue) (g : Guest) (head : UInt16) : Prop where
  index : head.toNat < queueSizeMax.toNat
  header : g.Holds (q.entry g.bytes head).addr 16
  read : load32 g.bytes (q.entry g.bytes head).addr = blkTIn →
    q.Followable g readWalk (q.entry g.bytes head).next ()
  write : load32 g.bytes (q.entry g.bytes head).addr = blkTOut →
    q.Followable g writeWalk (q.entry g.bytes head).next ()
  /-- the identifier goes to the second descriptor, the status to the third -/
  getId : load32 g.bytes (q.entry g.bytes head).addr = blkTGetId →
    let data := (q.entry g.bytes head).next
    let st := (q.entry g.bytes data).next
    data.toNat < queueSizeMax.toNat ∧ st.toNat < queueSizeMax.toNat ∧
      g.Holds (q.entry g.bytes data).addr (q.entry g.bytes data).len.toNat ∧
      q.wholeTable.Apart (q.entry g.bytes data).span ∧
      g.Holds (q.entry g.bytes st).addr 1

theorem contained_inLoop (h : q.InRam g) {i : UInt16}
    (hf : q.Followable g readWalk i ()) (fuel : Nat) (file : FStream) (len : UInt32) :
    Contained (inLoop q fuel file g i len) fun result => result.2.1.size = g.size ∧
      result.2.2.1.toNat < queueSizeMax.toNat ∧
      result.2.1.Holds (q.entry result.2.1.bytes result.2.2.1).addr 1 := by
  induction fuel generalizing g i file len with
  | zero => exact harmless_unfinished
  | succ fuel ih =>
    obtain ⟨hi, hheld, hoff⟩ := hf.self
    unfold inLoop
    apply Meets.step (h.descriptor_eq hi)
    split
    · rename_i hnext
      change g.Holds _ (need _) at hheld
      rw [need, if_pos hnext] at hheld
      have hshort := FStream.length_read_le file (q.entry g.bytes i).len.toNat
      have hagree : AgreeOn q.wholeTable g.bytes (store g.bytes (q.entry g.bytes i).addr
          (file.read (q.entry g.bytes i).len.toNat).1) :=
        (AgreeOn.refl _ _).store ((hoff hnext).mono (Span.Within.refl _)
          (Span.within_of_le hshort))
      have hentry := Queue.entry_of_wholeTable hi hagree
      have hrest := (hf.next hnext rfl).congr hagree
      dsimp only
      apply Meets.step (Guest.write_ok (hheld.mono hshort))
      apply Meets.step ((h.bytes _).descriptor_eq hi)
      rw [← hentry]
      apply Meets.step (Queue.descriptorIndex_of_lt hrest.self.1)
      exact ih (h.bytes _) hrest _ _
    · rename_i hlast
      change g.Holds _ (need _) at hheld
      rw [need, if_neg hlast] at hheld
      exact ⟨rfl, hi, hheld⟩

theorem contained_outLoop (h : q.InRam g) {i : UInt16}
    (hf : q.Followable g writeWalk i ()) (fuel : Nat) (file : FStream) (len : UInt32) :
    Contained (outLoop q g fuel file i len) fun result =>
      result.2.1.toNat < queueSizeMax.toNat ∧
        g.Holds (q.entry g.bytes result.2.1).addr 1 := by
  induction fuel generalizing i file len with
  | zero => exact harmless_unfinished
  | succ fuel ih =>
    obtain ⟨hi, hheld, -⟩ := hf.self
    unfold outLoop
    apply Meets.step (h.descriptor_eq hi)
    split
    · rename_i hnext
      change g.Holds _ (need _) at hheld
      rw [need, if_pos hnext] at hheld
      have hrest := hf.next hnext rfl
      have hgo : ∀ bytes, Contained (do
          let next ← descriptorIndex (q.entry g.bytes i).next
          outLoop q g fuel (file.write bytes) next (len + (q.entry g.bytes i).len))
          fun result => result.2.1.toNat < queueSizeMax.toNat ∧
            g.Holds (q.entry g.bytes result.2.1).addr 1 := by
        intro bytes
        apply Meets.step (Queue.descriptorIndex_of_lt hrest.self.1)
        exact ih hrest _ _
      dsimp only
      split
      · exact hgo []
      · apply Meets.step (Guest.read_ok hheld)
        exact hgo _
    · rename_i hlast
      change g.Holds _ (need _) at hheld
      rw [need, if_neg hlast] at hheld
      exact ⟨hi, hheld⟩

theorem contained_putStatus (h : q.InRam g) {i : UInt16}
    (hi : i.toNat < queueSizeMax.toNat) (hheld : g.Holds (q.entry g.bytes i).addr 1) :
    Contained (putStatus q g i) fun g' => g'.size = g.size := by
  unfold putStatus
  apply Meets.step (h.descriptor_eq hi)
  exact Meets.of_eq (Guest.write_ok hheld) rfl

theorem follow_eq (h : q.InRam g) {i : UInt16} (hi : i.toNat < queueSizeMax.toNat)
    (hnext : (q.entry g.bytes i).next.toNat < queueSizeMax.toNat) :
    follow q g i = .ok (q.entry g.bytes i).next := by
  unfold follow
  rw [h.descriptor_eq hi]
  exact Queue.descriptorIndex_of_lt hnext

theorem contained_close (h : q.InRam g) {i : UInt16} (hi : i.toNat < queueSizeMax.toNat)
    (hst : (q.entry g.bytes i).next.toNat < queueSizeMax.toNat)
    (hstheld : g.Holds (q.entry g.bytes (q.entry g.bytes i).next).addr 1) (file : FStream) :
    Contained (do
      let len := (← q.descriptor g i).len
      let next ← follow q g i
      let g ← putStatus q g next
      return some (file, g, len + 1)) fun result =>
        ∀ file' g' len, result = some (file', g', len) → g'.size = g.size := by
  apply Meets.step (h.descriptor_eq hi)
  apply Meets.step (follow_eq h hi hst)
  apply Meets.bind (contained_putStatus h hst hstheld)
  rintro g' hsize _ _ _ ⟨⟩
  exact hsize

theorem contained_identify (h : q.InRam g) {i : UInt16} (hi : i.toNat < queueSizeMax.toNat)
    (hheld : g.Holds (q.entry g.bytes i).addr (q.entry g.bytes i).len.toNat)
    (hoff : q.wholeTable.Apart (q.entry g.bytes i).span)
    (hst : (q.entry g.bytes i).next.toNat < queueSizeMax.toNat)
    (hstheld : g.Holds (q.entry g.bytes (q.entry g.bytes i).next).addr 1) (file : FStream) :
    Contained (do
      let d ← q.descriptor g i
      let g ← if d.len.toNat ≤ diskId.length then g.write d.addr (diskId.take d.len.toNat)
        else .error .hostBuffer
      let len := (← q.descriptor g i).len
      let next ← follow q g i
      let g ← putStatus q g next
      return some (file, g, len + 1)) fun result =>
        ∀ file' g' len, result = some (file', g', len) → g'.size = g.size := by
  apply Meets.step (h.descriptor_eq hi)
  split
  · have hshort := List.length_take_le (q.entry g.bytes i).len.toNat diskId
    apply Meets.step (Guest.write_ok (hheld.mono hshort))
    -- the identifier leaves the table as it was
    have hagree : AgreeOn q.wholeTable g.bytes (store g.bytes (q.entry g.bytes i).addr
        (diskId.take (q.entry g.bytes i).len.toNat)) :=
      (AgreeOn.refl _ _).store (hoff.mono (Span.Within.refl _) (Span.within_of_le hshort))
    have hentry := Queue.entry_of_wholeTable hi hagree
    have hentryst := Queue.entry_of_wholeTable hst hagree
    generalize store g.bytes (q.entry g.bytes i).addr
      (diskId.take (q.entry g.bytes i).len.toNat) = m at hentry hentryst ⊢
    rw [hentry] at hst
    rw [hentryst, hentry] at hstheld
    exact contained_close (h.bytes m) hi hst hstheld file
  · exact harmless_hostBuffer

theorem contained_handle (h : q.InRam g) {head : UInt16} (hin : Inside q g head) (fuel : Nat)
    (file : FStream) :
    Contained (handle fuel q file g head) fun result =>
      ∀ file' g' len, result = some (file', g', len) → g'.size = g.size := by
  have hsector : g.Holds ((q.entry g.bytes head).addr + 8) 8 :=
    hin.header.field (by simp only [UInt64.reduceToNat]; norm_num)
  unfold handle
  apply Meets.step (h.descriptor_eq hin.index)
  dsimp only
  apply Meets.step (Guest.read32_ok (hin.header.mono (by norm_num)))
  split
  · rename_i htype
    have hf := hin.read htype
    apply Meets.step (follow_eq h hin.index hf.self.1)
    apply Meets.step (Guest.read64_ok hsector)
    apply Meets.bind (contained_inLoop h hf _ _ _)
    rintro ⟨file', g', next, len⟩ ⟨hsize, hnext, hheld⟩
    apply Meets.bind (contained_putStatus (h.congr hsize) hnext hheld)
    rintro g'' hsize'
    rintro _ _ _ ⟨⟩
    exact hsize'.trans hsize
  · split
    · rename_i htype
      have hf := hin.write htype
      apply Meets.step (follow_eq h hin.index hf.self.1)
      apply Meets.step (Guest.read64_ok hsector)
      apply Meets.bind (contained_outLoop h hf _ _ _)
      rintro ⟨file', next, len⟩ ⟨hnext, hheld⟩
      apply Meets.bind (contained_putStatus h hnext hheld)
      rintro g'' hsize'
      rintro _ _ _ ⟨⟩
      exact hsize'
    · split
      · rename_i htype
        obtain ⟨hdata, hst, hheld, hoff, hstheld⟩ := hin.getId htype
        apply Meets.step (follow_eq h hin.index hdata)
        exact contained_identify h hdata hheld hoff hst hstheld file
      · rintro _ _ _ h
        contradiction

theorem Inside.passed {head : UInt16} (h : Inside q g head) :
    Inside { q with lastAvail := q.lastAvail + 1 } g head where
  index := h.index
  header := h.header
  read := fun htype => (h.read htype).passed
  write := fun htype => (h.write htype).passed
  getId := h.getId

theorem contained_runOnce {b : Blk} (hsel : b.dev.selected = .ok q) (h : q.InRam g)
    (hin : q.Finds g → Inside q g (q.offered g.bytes)) (fuel : Nat) :
    Contained (runOnce fuel b g) fun _ => True := by
  unfold runOnce
  apply Meets.step hsel
  apply Meets.bind (Queue.contained_next h fun hfinds => (hin hfinds).index)
  rintro ⟨taken, q'⟩ (⟨rfl, -⟩ | ⟨hfinds, rfl, rfl⟩)
  · exact trivial
  · have h' := h.passed
    apply Meets.step (Queue.availId_passed h)
    apply Meets.bind (contained_handle h' (hin hfinds).passed fuel b.file)
    rintro (_ | ⟨file, g', len⟩) hsize
    · exact trivial
    · have hram : Queue.InRam { q with lastAvail := q.lastAvail + 1 } g' :=
        h'.congr (hsize file g' len rfl)
      apply Meets.bind (Queue.contained_addUsed hram _ _)
      rintro ⟨idx, g''⟩ hsize'
      have hevent : g''.Holds (Queue.usedEventAddr { q with lastAvail := q.lastAvail + 1 }) 2 := by
        apply (hram.congr hsize').avail.field
        decide
      apply Meets.step (Guest.read16_ok hevent)
      exact trivial

end Blk

/-- With rings in guest memory, and the head that is found, the links that are followed from it
and the bytes of the buffers in bounds, what is filled before the table is read again off the
table, none of the devices leaves guest memory. -/
theorem devices_stay_inside {q : Queue} {g : Guest} (h : q.InRam g) :
    (∀ b : Blk, b.dev.selected = .ok q →
      (q.Finds g → Blk.Inside q g (q.offered g.bytes)) →
      ∀ fuel, Contained (Blk.runOnce fuel b g) fun _ => True) ∧
    (∀ polled packet,
      (q.Finds g → (q.offered g.bytes).toNat < queueSizeMax.toNat ∧ (polled = true →
        q.Followable g (Net.receiveWalk (Net.sizeOf packet)) (q.offered g.bytes) 0)) →
      ∀ fuel irq buffer,
        Contained (Net.updateRx fuel q irq buffer g polled packet) fun _ => True) ∧
    ((q.Finds g → q.Followable g Net.transmitWalk (q.offered g.bytes) ()) →
      ∀ fuel irq buffer tapWrite,
        Contained (Net.updateTx fuel q irq buffer g tapWrite) fun _ => True) ∧
    ((q.Finds g → (q.offered g.bytes).toNat < queueSizeMax.toNat ∧
        g.Holds (q.entry g.bytes (q.offered g.bytes)).addr
          (q.entry g.bytes (q.offered g.bytes)).len.toNat) →
      ∀ irq (random : Nat → List UInt8), (∀ n, (random n).length ≤ n) →
        Contained (Rng.update q irq g random) fun _ => True) :=
  ⟨fun _ hsel hin fuel => Blk.contained_runOnce hsel h hin fuel,
    fun _ _ hf => Net.contained_updateRx h hf,
    fun hf => Net.contained_updateTx h hf,
    fun hf irq _ hrandom => Rng.contained_update h hf irq hrandom⟩

/-- A published read of the disk: a header, four bytes of data at `addr` and a status. -/
def readGuest (addr : UInt64) : Guest where
  bytes := image [(0x1000, bytesOfNat 8 0x4000), (0x1008, bytesOfNat 4 16), (0x100c, [1, 0, 1, 0]),
    (0x1010, bytesOfNat 8 addr.toNat), (0x1018, bytesOfNat 4 4), (0x101c, [3, 0, 2, 0]),
    (0x1020, bytesOfNat 8 0x4200), (0x1028, bytesOfNat 4 1), (0x102c, [2, 0]), (0x2002, [1])]
  size := 0x8000

theorem sampleQueue_inRam {g : Guest} (h : 0x8000 ≤ g.size) : sampleQueue.InRam g where
  size_pos := by decide
  size_le := by decide
  table := Or.inr (le_trans (by decide) h)
  avail := Or.inr (le_trans (by decide) h)
  used := Or.inr (le_trans (by decide) h)

def sampleDisk : Blk :=
  ⟨{ irq := { number := 12 }, queues := Vector.replicate _ sampleQueue, config := [] },
    ⟨[1, 2, 3, 4], 0, false⟩⟩

/-- Every part on the request: the read goes through the whole chain, the packet of 18 bytes
ends in the second buffer. -/
theorem sample_stays_inside :
    Contained (Blk.runOnce 512 sampleDisk (readGuest 0x5000)) (fun _ => True) ∧
    Contained (Net.updateRx 512 sampleQueue { number := 14 } (List.replicate 100 0)
      (readGuest 0x5000) true (some (List.replicate 18 7))) (fun _ => True) ∧
    Contained (Net.updateTx 512 sampleQueue { number := 14 } (List.replicate 100 0)
      (readGuest 0x5000) fun frame => frame.length) (fun _ => True) ∧
    Contained (Rng.update sampleQueue { number := 13 } (readGuest 0x5000)
      fun n => List.replicate n 0xa5) fun _ => True := by
  obtain ⟨hblk, hrx, htx, hrng⟩ := devices_stay_inside
    (sampleQueue_inRam (show 0x8000 ≤ (readGuest 0x5000).size from le_rfl))
  have hoff : sampleQueue.wholeTable.Apart ⟨0x5000, 4⟩ :=
    Span.apart_of_le (by decide) (by decide)
  have hhead : sampleQueue.wholeTable.Apart ⟨0x4000, 16⟩ :=
    Span.apart_of_le (by decide) (by decide)
  have hlast : ¬ (sampleQueue.entry (readGuest 0x5000).bytes 2).hasNext = true := by decide
  have hended : (Net.receiveWalk 18).after (sampleQueue.entry (readGuest 0x5000).bytes 1) 16 =
      none := by decide
  refine ⟨hblk _ rfl (fun _ => ?_) 512, hrx _ _ (fun _ => ⟨by decide, fun _ => ?_⟩) _ _ _,
    htx (fun _ => ?_) _ _ _ _, hrng (fun _ => by decide) _ _ fun n => List.length_replicate.le⟩
  · refine ⟨by decide, by decide, fun _ => ?_, fun htype => ?_, fun htype => ?_⟩
    · apply Queue.followable_iff.mpr
      refine ⟨⟨by decide, by decide, fun _ => hoff⟩, fun _ _ _ => ?_⟩
      apply Queue.followable_iff.mpr
      exact ⟨⟨by decide, by decide, fun hnext => absurd hnext hlast⟩,
        fun hnext => absurd hnext hlast⟩
    · exact absurd htype (by decide)
    · exact absurd htype (by decide)
  · apply Queue.followable_iff.mpr
    refine ⟨⟨by decide, by decide, fun _ => hhead⟩, fun _ len hlen => ?_⟩
    cases hlen
    apply Queue.followable_iff.mpr
    refine ⟨⟨by decide, by decide, fun hmore => absurd (by decide) hmore⟩,
      fun _ _ hafter => nomatch hended.symm.trans hafter⟩
  · apply Queue.followable_iff.mpr
    refine ⟨⟨by decide, by decide, nofun⟩, fun _ _ _ => ?_⟩
    apply Queue.followable_iff.mpr
    refine ⟨⟨by decide, by decide, nofun⟩, fun _ _ _ => ?_⟩
    apply Queue.followable_iff.mpr
    exact ⟨⟨by decide, by decide, nofun⟩, fun hnext => absurd hnext hlast⟩

/-- A buffer behind the end of guest memory is written all the same. -/
theorem stray_buffer_escapes : sampleQueue.InRam (readGuest 0x9000) ∧
    (Blk.runOnce 512 sampleDisk (readGuest 0x9000)).map (fun _ => ()) =
      .error (.outside 0x9000 4) :=
  ⟨sampleQueue_inRam le_rfl, by decide⟩

end Kthxvm.Virtio
