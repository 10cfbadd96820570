import Kthxvm.Guest

/-! The split virtqueue of `queue.h`. The three rings live in guest memory at
addresses the driver programs; the device keeps only `lastAvail`. -/
namespace Kthxvm.Virtio

open Lib.ByteMemory Lib.Triple

/-- `QUEUE_SIZE_MAX`, also the length of every ring array. -/
def queueSizeMax : UInt32 := 0x200

/-- `VRING_DESC_F_NEXT`: this buffer continues in the descriptor `next`. -/
def descFNext : UInt16 := 1

structure Descriptor where
  addr : UInt64
  len : UInt32
  flags : UInt16
  next : UInt16
deriving DecidableEq

def Descriptor.hasNext (d : Descriptor) : Bool := d.flags &&& descFNext ≠ 0

structure Queue where
  size : UInt32 := 0
  descAddr : UInt64 := 0
  availAddr : UInt64 := 0
  usedAddr : UInt64 := 0
  notify : UInt64 := 0
  lastAvail : UInt32 := 0
  ready : Bool := false
deriving DecidableEq

/-- `&desc()->ring[i]`: a descriptor pointer is its index in the table. -/
def descriptorIndex (i : UInt16) : Except Fault UInt16 :=
  if i.toUInt32 < queueSizeMax then .ok i else .error (.descriptor i.toNat)

namespace Queue

/-! Field addresses of `descriptor_elem_t`, `avail_t` and `used_t`. -/

def descEntry (q : Queue) (i : UInt16) : UInt64 := q.descAddr + 16 * i.toUInt64
def availFlagsAddr (q : Queue) : UInt64 := q.availAddr
def availIdxAddr (q : Queue) : UInt64 := q.availAddr + 2
def availSlot (q : Queue) (i : UInt32) : UInt64 := q.availAddr + (4 + 2 * i.toUInt64)
/-- `used_event` follows the array of the declared length, whatever the queue size is. -/
def usedEventAddr (q : Queue) : UInt64 := q.availAddr + (4 + 2 * queueSizeMax.toUInt64)
def usedIdxAddr (q : Queue) : UInt64 := q.usedAddr + 2
def usedIdField (q : Queue) (i : UInt32) : UInt64 := q.usedAddr + (4 + 8 * i.toUInt64)
def usedLenField (q : Queue) (i : UInt32) : UInt64 := q.usedAddr + (8 + 8 * i.toUInt64)

def entry (q : Queue) (m : Memory) (i : UInt16) : Descriptor where
  addr := load64 m (q.descEntry i)
  len := load32 m (q.descEntry i + 8)
  flags := load16 m (q.descEntry i + 12)
  next := load16 m (q.descEntry i + 14)

def descriptor (q : Queue) (g : Guest) (i : UInt16) : Except Fault Descriptor := do
  g.check (q.descEntry i) 16
  return q.entry g.bytes i

/-- `index % size`, used as an index of the available or the used ring. -/
def slot (q : Queue) (index : UInt32) : Except Fault UInt32 :=
  if q.size = 0 then .error .divideByZero
  else if index % q.size < queueSizeMax then .ok (index % q.size)
  else .error (.slot (index % q.size).toNat)

def availId (q : Queue) (g : Guest) : Except Fault UInt16 := do
  let i ← q.slot (q.lastAvail - 1)
  g.read16 (q.availSlot i)

/-- The result is the descriptor that was taken, `none` for `nullptr`. -/
def next (q : Queue) (g : Guest) : Except Fault (Option UInt16 × Queue) :=
  if q.ready = false then .ok (none, q)
  else do
    let idx ← g.read16 q.availIdxAddr
    -- the 16-bit index is promoted and compared with the 32-bit counter
    if idx.toUInt32 ≤ q.lastAvail then .ok (none, q)
    else do
      let q' := { q with lastAvail := q.lastAvail + 1 }
      let id ← q'.availId g
      let i ← descriptorIndex id
      .ok (some i, q')

def popBack (q : Queue) : Queue := { q with lastAvail := q.lastAvail - 1 }

def addUsed (q : Queue) (g : Guest) (start len : UInt32) :
    Except Fault (UInt16 × Guest) := do
  let i ← q.slot (← g.read16 q.usedIdxAddr).toUInt32
  let g ← g.write32 (q.usedLenField i) len
  let i ← q.slot (← g.read16 q.usedIdxAddr).toUInt32
  let g ← g.write32 (q.usedIdField i) start
  let g ← g.write16 q.usedIdxAddr ((← g.read16 q.usedIdxAddr) + 1)
  return (← g.read16 q.usedIdxAddr, g)

def setNotify (q : Queue) : Queue := { q with notify := q.notify + 1 }

def setReady (q : Queue) : Queue := { q with ready := true }

def isReady (q : Queue) : Bool := q.ready

/-! What a driver promises of the rings it programs: they lie in guest memory
and the device-written ring shares no byte with the driver-written ones. -/

def tableSpan (q : Queue) : Span := ⟨q.descAddr, 16 * q.size.toNat⟩
def availSpan (q : Queue) : Span := ⟨q.availAddr, 4 + 2 * q.size.toNat⟩
def usedSpan (q : Queue) : Span := ⟨q.usedAddr, 4 + 8 * q.size.toNat⟩

structure Placed (q : Queue) (g : Guest) : Prop where
  size_pos : 0 < q.size.toNat
  size_le : q.size.toNat ≤ queueSizeMax.toNat
  table : g.Holds q.descAddr (16 * q.size.toNat)
  avail : g.Holds q.availAddr (4 + 2 * q.size.toNat)
  used : g.Holds q.usedAddr (4 + 8 * q.size.toNat)
  avail_used : q.availSpan.Apart q.usedSpan
  table_used : q.tableSpan.Apart q.usedSpan

theorem queueSizeMax_toNat : queueSizeMax.toNat = 512 := rfl

theorem Placed.congr {q q' : Queue} {g g' : Guest} (h : q.Placed g)
    (hsize : q'.size = q.size) (hdesc : q'.descAddr = q.descAddr)
    (havail : q'.availAddr = q.availAddr) (hused : q'.usedAddr = q.usedAddr)
    (hg : g'.size = g.size) : q'.Placed g' := by
  obtain ⟨h1, h2, h3, h4, h5, h6, h7⟩ := h
  unfold Guest.Holds at h3 h4 h5
  unfold availSpan usedSpan at h6
  unfold tableSpan usedSpan at h7
  constructor <;>
    simpa only [Guest.Holds, tableSpan, availSpan, usedSpan, hsize, hdesc, havail, hused, hg]

section Fields

variable {q : Queue} {i : UInt32}

theorem availSlot_offset (hi : i.toNat < 512) :
    (4 + 2 * i.toUInt64 : UInt64).toNat = 4 + 2 * i.toNat := by
  simp only [UInt64.toNat_add, UInt64.toNat_mul, UInt32.toNat_toUInt64,
    UInt64.reduceToNat]
  omega

theorem usedIdField_offset (hi : i.toNat < 512) :
    (4 + 8 * i.toUInt64 : UInt64).toNat = 4 + 8 * i.toNat := by
  simp only [UInt64.toNat_add, UInt64.toNat_mul, UInt32.toNat_toUInt64,
    UInt64.reduceToNat]
  omega

theorem usedLenField_offset (hi : i.toNat < 512) :
    (8 + 8 * i.toUInt64 : UInt64).toNat = 8 + 8 * i.toNat := by
  simp only [UInt64.toNat_add, UInt64.toNat_mul, UInt32.toNat_toUInt64,
    UInt64.reduceToNat]
  omega

theorem descEntry_offset (d : UInt16) :
    (16 * d.toUInt64 : UInt64).toNat = 16 * d.toNat := by
  have hd := d.toNat_lt
  simp only [UInt64.toNat_mul, UInt16.toNat_toUInt64, UInt64.reduceToNat]
  omega

theorem availSlot_within (hs : q.size.toNat ≤ 512) (hi : i.toNat < q.size.toNat) :
    Span.Within ⟨q.availSlot i, 2⟩ q.availSpan := by
  apply Span.within_of_offset
  rw [availSlot_offset (by omega)]
  omega

theorem availIdx_within (hs : 0 < q.size.toNat) :
    Span.Within ⟨q.availIdxAddr, 2⟩ q.availSpan := by
  apply Span.within_of_offset
  simp only [UInt64.reduceToNat]
  omega

theorem usedIdField_within (hs : q.size.toNat ≤ 512) (hi : i.toNat < q.size.toNat) :
    Span.Within ⟨q.usedIdField i, 4⟩ q.usedSpan := by
  apply Span.within_of_offset
  rw [usedIdField_offset (by omega)]
  omega

theorem usedLenField_within (hs : q.size.toNat ≤ 512) (hi : i.toNat < q.size.toNat) :
    Span.Within ⟨q.usedLenField i, 4⟩ q.usedSpan := by
  apply Span.within_of_offset
  rw [usedLenField_offset (by omega)]
  omega

theorem usedIdx_within (hs : 0 < q.size.toNat) :
    Span.Within ⟨q.usedIdxAddr, 2⟩ q.usedSpan := by
  apply Span.within_of_offset
  simp only [UInt64.reduceToNat]
  omega

theorem usedIdx_apart_idField (hi : i.toNat < 512) :
    Span.Apart ⟨q.usedIdxAddr, 2⟩ ⟨q.usedIdField i, 4⟩ := by
  apply Span.apart_of_offset
  · rw [usedIdField_offset hi]
    simp only [UInt64.reduceToNat]
    omega
  · rw [usedIdField_offset hi]
    omega

theorem usedIdx_apart_lenField (hi : i.toNat < 512) :
    Span.Apart ⟨q.usedIdxAddr, 2⟩ ⟨q.usedLenField i, 4⟩ := by
  apply Span.apart_of_offset
  · rw [usedLenField_offset hi]
    simp only [UInt64.reduceToNat]
    omega
  · rw [usedLenField_offset hi]
    omega

theorem availSlot_apart {i j : UInt32} (hi : i.toNat < 512) (hj : j.toNat < 512)
    (hne : i ≠ j) : Span.Apart ⟨q.availSlot i, 2⟩ ⟨q.availSlot j, 2⟩ := by
  have hne' : i.toNat ≠ j.toNat := fun h => hne (UInt32.toNat_inj.mp h)
  rcases Nat.lt_or_gt_of_ne hne' with hlt | hgt
  · apply Span.apart_of_offset
    · rw [availSlot_offset hi, availSlot_offset hj]
      omega
    · rw [availSlot_offset hj]
      omega
  · apply Span.Apart.symm
    apply Span.apart_of_offset
    · rw [availSlot_offset hi, availSlot_offset hj]
      omega
    · rw [availSlot_offset hi]
      omega

theorem availIdx_apart_slot (hi : i.toNat < 512) :
    Span.Apart ⟨q.availIdxAddr, 2⟩ ⟨q.availSlot i, 2⟩ := by
  apply Span.apart_of_offset
  · rw [availSlot_offset hi]
    simp only [UInt64.reduceToNat]
    omega
  · rw [availSlot_offset hi]
    omega

theorem descEntry_within {d : UInt16} (hd : d.toNat < q.size.toNat) :
    Span.Within ⟨q.descEntry d, 16⟩ q.tableSpan := by
  apply Span.within_of_offset
  rw [descEntry_offset]
  omega

end Fields

section Meets

variable {allowed : Fault → Prop}

theorem descriptor_meets (hout : ∀ addr n, allowed (.outside addr n)) {q : Queue} {g : Guest}
    (i : UInt16) : Meets allowed (q.descriptor g i) fun d => d = q.entry g.bytes i :=
  (Guest.check_meets hout 16).bind fun _ _ => Meets.ok rfl

theorem descriptorIndex_meets (hdesc : ∀ n, allowed (.descriptor n)) (i : UInt16) :
    Meets allowed (descriptorIndex i) fun j => j = i := by
  unfold descriptorIndex
  split
  · exact Meets.ok rfl
  · exact hdesc _

end Meets

theorem mod_size_lt {q : Queue} (h : 0 < q.size.toNat) (i : UInt32) :
    (i % q.size).toNat < q.size.toNat := by
  rw [UInt32.toNat_mod]
  exact Nat.mod_lt _ h

theorem slot_ok {q : Queue} (hpos : 0 < q.size.toNat) (hle : q.size.toNat ≤ 512)
    (i : UInt32) : q.slot i = .ok (i % q.size) := by
  have hne : q.size ≠ 0 := by
    intro h
    simp [h] at hpos
  have hlt : i % q.size < queueSizeMax := by
    rw [UInt32.lt_iff_toNat_lt, queueSizeMax_toNat]
    exact Nat.lt_of_lt_of_le (mod_size_lt hpos i) hle
  rw [slot, if_neg hne, if_pos hlt]

section Ok

variable {q : Queue} {g : Guest}

theorem descriptor_eq_ok {i : UInt16} {d : Descriptor} (h : q.descriptor g i = .ok d) :
    d = q.entry g.bytes i := by
  obtain ⟨_, -, h⟩ := bind_eq_ok.mp h
  exact (Except.ok.inj h).symm

theorem availId_of_held (hpos : 0 < q.size.toNat) (hle : q.size.toNat ≤ 512)
    (havail : g.Holds q.availAddr (4 + 2 * q.size.toNat)) :
    q.availId g =
      .ok (load16 g.bytes (q.availSlot ((q.lastAvail - 1) % q.size))) := by
  have hi := mod_size_lt hpos (q.lastAvail - 1)
  have hheld : g.Holds (q.availSlot ((q.lastAvail - 1) % q.size)) 2 := by
    apply havail.field
    rw [availSlot_offset (by omega)]
    omega
  rw [availId, slot_ok hpos hle]
  exact Guest.read16_ok hheld

theorem availId_ok (hp : q.Placed g) :
    q.availId g =
      .ok (load16 g.bytes (q.availSlot ((q.lastAvail - 1) % q.size))) :=
  availId_of_held hp.size_pos hp.size_le hp.avail

theorem descriptorIndex_of_lt {i : UInt16} (h : i.toNat < queueSizeMax.toNat) :
    descriptorIndex i = .ok i := by
  apply if_pos
  rw [UInt32.lt_iff_toNat_lt, UInt16.toNat_toUInt32]
  exact h

theorem descriptorIndex_eq_ok {i j : UInt16} (h : descriptorIndex i = .ok j) : j = i := by
  unfold descriptorIndex at h
  split at h
  · exact (Except.ok.inj h).symm
  · contradiction

theorem availIdx_ok (hp : q.Placed g) :
    g.read16 q.availIdxAddr = .ok (load16 g.bytes q.availIdxAddr) := by
  apply Guest.read16_ok
  apply hp.avail.field
  simp only [UInt64.reduceToNat]
  omega

theorem next_none (hp : q.Placed g)
    (hidx : (load16 g.bytes q.availIdxAddr).toNat ≤ q.lastAvail.toNat) :
    q.next g = .ok (none, q) := by
  have hle : (load16 g.bytes q.availIdxAddr).toUInt32 ≤ q.lastAvail := by
    rw [UInt32.le_iff_toNat_le, UInt16.toNat_toUInt32]
    exact hidx
  unfold next
  split
  · rfl
  · rw [availIdx_ok hp]
    exact if_pos hle

theorem next_some (hp : q.Placed g) (hready : q.ready = true)
    (hidx : q.lastAvail.toNat < (load16 g.bytes q.availIdxAddr).toNat)
    (hid : (load16 g.bytes (q.availSlot (q.lastAvail % q.size))).toNat < 512) :
    q.next g = .ok (some (load16 g.bytes (q.availSlot (q.lastAvail % q.size))),
      { q with lastAvail := q.lastAvail + 1 }) := by
  have hnle : ¬ (load16 g.bytes q.availIdxAddr).toUInt32 ≤ q.lastAvail := by
    rw [UInt32.le_iff_toNat_le, UInt16.toNat_toUInt32]
    omega
  have hp' : Placed { q with lastAvail := q.lastAvail + 1 } g :=
    hp.congr rfl rfl rfl rfl rfl
  have hid' := availId_ok hp'
  have hcancel : q.lastAvail + 1 - 1 = q.lastAvail := UInt32.add_sub_cancel _ _
  dsimp only at hid'
  rw [hcancel] at hid'
  have hindex := descriptorIndex_of_lt hid
  rw [next, if_neg (by simp [hready]), availIdx_ok hp]
  change (if _ then _ else _) = _
  rw [if_neg hnle]
  simp only [hid']
  change (descriptorIndex (load16 g.bytes (q.availSlot (q.lastAvail % q.size))) >>= _) = _
  rw [hindex]
  rfl

/-- Whenever `next()` takes a chain, `avail_id()` right after it is that chain. -/
theorem next_takes {q' : Queue} {head : UInt16} (h : q.next g = .ok (some head, q')) :
    q.ready = true ∧ q' = { q with lastAvail := q.lastAvail + 1 } ∧
      q'.availId g = .ok head := by
  unfold next at h
  split at h
  · cases h
  · rename_i hready
    obtain ⟨idx, -, h⟩ := bind_eq_ok.mp h
    split at h
    · cases h
    · obtain ⟨id, hid, h⟩ := bind_eq_ok.mp h
      obtain ⟨i, hi, h⟩ := bind_eq_ok.mp h
      cases h
      unfold descriptorIndex at hi
      split at hi
      · cases hi
        exact ⟨by simpa using hready, rfl, hid⟩
      · cases hi

theorem Placed.of_next {q' : Queue} {head : UInt16} (hp : q.Placed g)
    (h : q.next g = .ok (some head, q')) : q'.Placed g := by
  rw [(next_takes h).2.1]
  exact hp.congr rfl rfl rfl rfl rfl

theorem next_idle {q' : Queue} (h : q.next g = .ok (none, q')) : q' = q := by
  unfold next at h
  split at h
  · cases h
    rfl
  · obtain ⟨idx, -, h⟩ := bind_eq_ok.mp h
    split at h
    · cases h
      rfl
    · obtain ⟨id, -, h⟩ := bind_eq_ok.mp h
      obtain ⟨i, -, h⟩ := bind_eq_ok.mp h
      cases h

def afterAddUsed (q : Queue) (m : Memory) (start len : UInt32) : Memory :=
  let idx := load16 m q.usedIdxAddr
  let i := idx.toUInt32 % q.size
  store16 (store32 (store32 m (q.usedLenField i) len) (q.usedIdField i) start)
    q.usedIdxAddr (idx + 1)

theorem addUsed_of_held (hpos : 0 < q.size.toNat) (hle : q.size.toNat ≤ 512)
    (hused : g.Holds q.usedAddr (4 + 8 * q.size.toNat)) (start len : UInt32) :
    q.addUsed g start len = .ok (load16 g.bytes q.usedIdxAddr + 1,
      { g with bytes := q.afterAddUsed g.bytes start len }) := by
  have hi := mod_size_lt hpos (load16 g.bytes q.usedIdxAddr).toUInt32
  have hlt : ((load16 g.bytes q.usedIdxAddr).toUInt32 % q.size).toNat < 512 := by omega
  have hheld : ∀ m : Memory, (⟨m, g.size⟩ : Guest).Holds q.usedIdxAddr 2 := by
    intro m
    apply hused.field
    simp only [UInt64.reduceToNat]
    omega
  have hlen : g.Holds (q.usedLenField ((load16 g.bytes q.usedIdxAddr).toUInt32 % q.size)) 4 := by
    apply hused.field
    rw [usedLenField_offset hlt]
    omega
  have hidf : ∀ m : Memory, (⟨m, g.size⟩ : Guest).Holds
      (q.usedIdField ((load16 g.bytes q.usedIdxAddr).toUInt32 % q.size)) 4 := by
    intro m
    apply hused.field
    rw [usedIdField_offset hlt]
    omega
  -- neither element store touches the index that the source reads again
  have hread1 : load16 (store32 g.bytes
      (q.usedLenField ((load16 g.bytes q.usedIdxAddr).toUInt32 % q.size)) len)
      q.usedIdxAddr = load16 g.bytes q.usedIdxAddr :=
    ((AgreeOn.refl _ _).store32 (usedIdx_apart_lenField hlt)).load16_eq.symm
  have hread2 : load16 (store32 (store32 g.bytes
      (q.usedLenField ((load16 g.bytes q.usedIdxAddr).toUInt32 % q.size)) len)
      (q.usedIdField ((load16 g.bytes q.usedIdxAddr).toUInt32 % q.size)) start)
      q.usedIdxAddr = load16 g.bytes q.usedIdxAddr :=
    (((AgreeOn.refl _ _).store32 (usedIdx_apart_lenField hlt)).store32
      (usedIdx_apart_idField hlt)).load16_eq.symm
  unfold addUsed
  rw [Guest.read16_ok (hheld g.bytes)]
  simp only [bind, Except.bind, pure, Except.pure]
  rw [slot_ok hpos hle]
  simp only
  rw [Guest.write32_ok hlen]
  simp only
  rw [Guest.read16_ok (hheld _)]
  simp only [hread1]
  rw [slot_ok hpos hle]
  simp only
  rw [Guest.write32_ok (hidf _)]
  simp only
  rw [Guest.read16_ok (hheld _)]
  simp only [hread2]
  rw [Guest.write16_ok (hheld _)]
  simp only
  rw [Guest.read16_ok (hheld _)]
  simp only [load16_store16]
  rfl

theorem addUsed_ok (hp : q.Placed g) (start len : UInt32) :
    q.addUsed g start len = .ok (load16 g.bytes q.usedIdxAddr + 1,
      { g with bytes := q.afterAddUsed g.bytes start len }) :=
  addUsed_of_held hp.size_pos hp.size_le hp.used start len

theorem afterAddUsed_agree {span : Span} (hpos : 0 < q.size.toNat)
    (hle : q.size.toNat ≤ 512) (hspan : span.Apart q.usedSpan) (m : Memory)
    (start len : UInt32) : AgreeOn span m (q.afterAddUsed m start len) := by
  have hi := mod_size_lt hpos (load16 m q.usedIdxAddr).toUInt32
  unfold afterAddUsed
  apply AgreeOn.store16
  · apply AgreeOn.store32
    · apply AgreeOn.store32 (AgreeOn.refl _ _)
      exact hspan.mono (Span.Within.refl _) (usedLenField_within hle hi)
    · exact hspan.mono (Span.Within.refl _) (usedIdField_within hle hi)
  · exact hspan.mono (Span.Within.refl _) (usedIdx_within hpos)

@[simp] theorem afterAddUsed_idx (q : Queue) (m : Memory) (start len : UInt32) :
    load16 (q.afterAddUsed m start len) q.usedIdxAddr = load16 m q.usedIdxAddr + 1 := by
  unfold afterAddUsed
  exact load16_store16 _ _ _

end Ok

end Queue

def sampleQueue : Queue where
  size := 4
  descAddr := 0x1000
  availAddr := 0x2000
  usedAddr := 0x3000
  ready := true

theorem sampleQueue_placed {g : Guest} (h : 0x8000 ≤ g.size) : sampleQueue.Placed g where
  size_pos := by decide
  size_le := by decide
  table := Or.inr (le_trans (by decide) h)
  avail := Or.inr (le_trans (by decide) h)
  used := Or.inr (le_trans (by decide) h)
  avail_used := Span.apart_of_le (by decide) (by decide)
  table_used := Span.apart_of_le (by decide) (by decide)

end Kthxvm.Virtio
