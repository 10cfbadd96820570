import Kthxvm.Lib.Halves
import Kthxvm.Virtio.Reset

/-! What a driver has programmed after any sequence of register writes. The size
of a queue is assigned; the halves of its addresses are ORed together, and a
write of any value makes it ready. -/
namespace Kthxvm.Virtio

open Lib.ByteMemory Lib.Halves

/-- Four-byte writes, each to an offset of the register file. -/
abbrev Writes := List (UInt64 × UInt32)

namespace Device

variable {t : DeviceType}

def storeWord (d : Device t) (offset : UInt64) (value : UInt32) : Except Fault (Device t) :=
  d.mmioWrite (bytesOfNat 4 value.toNat) offset 4

def storeWords (d : Device t) : Writes → Except Fault (Device t)
  | [] => .ok d
  | (offset, value) :: writes => do
    let d ← d.storeWord offset value
    d.storeWords writes

theorem storeWord_eq (d : Device t) (offset : UInt64) (value : UInt32) :
    d.storeWord offset value =
      d.writeRegister (Register.ofOffset offset) value (bytesOfNat 4 value.toNat) 4 := by
  unfold storeWord mmioWrite
  rw [getWord_store]
  rfl

theorem storeWord_queueIndex {d d' : Device t} {offset : UInt64} {value : UInt32}
    (h : d.storeWord offset value = .ok d') :
    d'.queueIndex = if Register.ofOffset offset = .queueSel then value else d.queueIndex := by
  rw [storeWord_eq] at h
  cases hp : (Register.ofOffset offset).program value with
  | some f =>
    rw [writeRegister_program hp] at h
    obtain ⟨queue, -, rfl⟩ := updateSelected_ok h
    rw [setQ_queueIndex]
    have hne : Register.ofOffset offset ≠ .queueSel := by
      intro heq
      rw [heq] at hp
      contradiction
    rw [if_neg hne]
  | none =>
    by_cases hn : Register.ofOffset offset = .queueNotify
    · rw [hn] at h ⊢
      obtain ⟨queue, -, h⟩ := bind_eq_ok.mp h
      cases h
      rw [setQ_queueIndex, if_neg (by simp)]
    · have hmeets := writeRegister_other hp hn d (bytesOfNat 4 value.toNat) 4
      rw [h] at hmeets
      exact hmeets.2

end Device

/-- The registers written, and the values, while queue `i` is selected; `sel` is
the selection before the first write. -/
def whileSelected (i : UInt32) : UInt32 → Writes → List (Register × UInt32)
  | _, [] => []
  | sel, (offset, value) :: writes =>
    if Register.ofOffset offset = .queueSel then whileSelected i value writes
    else if sel = i then (Register.ofOffset offset, value) :: whileSelected i sel writes
    else whileSelected i sel writes

theorem whileSelected_cons (i sel : UInt32) (offset : UInt64) (value : UInt32)
    (writes : Writes) :
    whileSelected i sel ((offset, value) :: writes) =
      if Register.ofOffset offset = .queueSel then whileSelected i value writes
      else if sel = i then (Register.ofOffset offset, value) :: whileSelected i sel writes
      else whileSelected i sel writes := rfl

def valuesOf (register : Register) (writes : List (Register × UInt32)) : List UInt32 :=
  writes.filterMap fun w => if w.1 = register then some w.2 else none

@[simp] theorem valuesOf_nil (register : Register) : valuesOf register [] = [] := rfl

theorem valuesOf_cons (register : Register) (w : Register × UInt32)
    (writes : List (Register × UInt32)) :
    valuesOf register (w :: writes) =
      if w.1 = register then w.2 :: valuesOf register writes else valuesOf register writes := by
  unfold valuesOf
  rw [List.filterMap_cons]
  split <;> simp_all

def Queue.program (q : Queue) (writes : List (Register × UInt32)) : Queue :=
  writes.foldl (fun q w => (w.1.program w.2).elim q fun f => f q) q

@[simp] theorem Queue.program_nil (q : Queue) : q.program [] = q := rfl

theorem Queue.program_cons (q : Queue) (w : Register × UInt32)
    (writes : List (Register × UInt32)) :
    q.program (w :: writes) = ((w.1.program w.2).elim q fun f => f q).program writes := rfl

inductive Area where
  | desc | avail | used

namespace Area

def low : Area → Register
  | desc => .queueDescLow
  | avail => .queueAvailLow
  | used => .queueUsedLow

def high : Area → Register
  | desc => .queueDescHigh
  | avail => .queueAvailHigh
  | used => .queueUsedHigh

def addr (area : Area) (q : Queue) : UInt64 :=
  match area with
  | desc => q.descAddr
  | avail => q.availAddr
  | used => q.usedAddr

theorem addr_program (area : Area) (q : Queue) (w : Register × UInt32) :
    area.addr ((w.1.program w.2).elim q fun f => f q) =
      if w.1 = area.low then area.addr q ||| (w.2.toUInt64 <<< 0)
      else if w.1 = area.high then area.addr q ||| (w.2.toUInt64 <<< 32)
      else area.addr q := by
  obtain ⟨register, value⟩ := w
  cases register <;> cases area <;> rfl

end Area

namespace Queue

theorem addr_program (area : Area) (q : Queue) (writes : List (Register × UInt32))
    (low high : UInt32) (h : area.addr q = join low high) :
    area.addr (q.program writes) =
      join (low ||| orAll (valuesOf area.low writes))
        (high ||| orAll (valuesOf area.high writes)) := by
  induction writes generalizing q low high with
  | nil => simp [h]
  | cons w writes ih =>
    have hstep := area.addr_program q w
    have hne : area.low ≠ area.high := by cases area <;> simp [Area.low, Area.high]
    rw [program_cons, valuesOf_cons, valuesOf_cons]
    by_cases hlow : w.1 = area.low
    · have hhigh : w.1 ≠ area.high := by
        rw [hlow]
        exact hne
      rw [if_pos hlow, h, join_or_low] at hstep
      rw [ih _ _ _ hstep, if_pos hlow, if_neg hhigh, orAll_cons, UInt32.or_assoc]
    · by_cases hhigh : w.1 = area.high
      · rw [if_neg hlow, if_pos hhigh, h, join_or_high] at hstep
        rw [ih _ _ _ hstep, if_neg hlow, if_pos hhigh, orAll_cons, UInt32.or_assoc]
      · rw [if_neg hlow, if_neg hhigh, h] at hstep
        rw [ih _ _ _ hstep, if_neg hlow, if_neg hhigh]

theorem size_program (q : Queue) (writes : List (Register × UInt32)) :
    (q.program writes).size = (valuesOf .queueNum writes).getLastD q.size := by
  induction writes generalizing q with
  | nil => rfl
  | cons w writes ih =>
    have hstep : ((w.1.program w.2).elim q fun f => f q).size =
        if w.1 = .queueNum then w.2 else q.size := by
      obtain ⟨register, value⟩ := w
      cases register <;> rfl
    rw [program_cons, ih, hstep, valuesOf_cons]
    split
    · rw [List.getLastD_cons]
    · rfl

theorem ready_program (q : Queue) (writes : List (Register × UInt32)) :
    (q.program writes).ready = (q.ready || !(valuesOf .queueReady writes).isEmpty) := by
  induction writes generalizing q with
  | nil => simp
  | cons w writes ih =>
    have hstep : ((w.1.program w.2).elim q fun f => f q).ready =
        if w.1 = .queueReady then true else q.ready := by
      obtain ⟨register, value⟩ := w
      cases register <;> rfl
    rw [program_cons, ih, hstep, valuesOf_cons]
    split
    · simp
    · rfl

end Queue

open DeviceMachine (SameQueue)

theorem sameQueue_trans {q q' q'' : Queue} (h : SameQueue q q') (h' : SameQueue q' q'') :
    SameQueue q q'' := by
  unfold SameQueue at h h' ⊢
  rw [h', h]

theorem sameQueue_program {q q' : Queue} (h : SameQueue q q')
    (writes : List (Register × UInt32)) : SameQueue (q.program writes) (q'.program writes) := by
  induction writes generalizing q q' with
  | nil => exact h
  | cons w writes ih =>
    rw [Queue.program_cons, Queue.program_cons]
    apply ih
    cases hp : w.1.program w.2 with
    | none => exact h
    | some f => exact h.program hp

namespace Device

variable {t : DeviceType}

theorem storeWord_q {d d' : Device t} {offset : UInt64} {value i : UInt32} {old : Queue}
    (h : d.storeWord offset value = .ok d') (hold : d.q i = .ok old) :
    ∃ new, d'.q i = .ok new ∧
      SameQueue (if d.queueIndex = i then
        ((Register.ofOffset offset).program value).elim old fun f => f old else old) new := by
  rw [storeWord_eq] at h
  cases hp : (Register.ofOffset offset).program value with
  | some f =>
    rw [writeRegister_program hp] at h
    obtain ⟨queue, hq, rfl⟩ := updateSelected_ok h
    rw [q_setQ hq]
    by_cases hi : d.queueIndex = i
    · rw [if_pos hi, if_pos hi]
      rw [selected, hi, hold] at hq
      cases hq
      exact ⟨_, rfl, SameQueue.refl _⟩
    · rw [if_neg hi, if_neg hi]
      exact ⟨old, hold, SameQueue.refl _⟩
  | none =>
    have hsame : (if d.queueIndex = i then Option.elim none old fun f : Queue → Queue => f old
        else old) = old := by split <;> rfl
    rw [hsame]
    by_cases hn : Register.ofOffset offset = .queueNotify
    · rw [hn] at h
      obtain ⟨queue, hq, h⟩ := bind_eq_ok.mp h
      cases h
      rw [q_setQ hq]
      split
      · rename_i hi
        subst hi
        rw [hold] at hq
        cases hq
        exact ⟨_, rfl, rfl⟩
      · exact ⟨old, hold, SameQueue.refl _⟩
    · have hmeets := writeRegister_other hp hn d (bytesOfNat 4 value.toNat) 4
      rw [h] at hmeets
      rw [q_congr hmeets.1]
      exact ⟨old, hold, SameQueue.refl _⟩

/-- Run lemma: a queue is programmed by the writes made while it is selected. -/
theorem storeWords_q {d d' : Device t} {writes : Writes} {i : UInt32} {old : Queue}
    (h : d.storeWords writes = .ok d') (hold : d.q i = .ok old) :
    ∃ new, d'.q i = .ok new ∧
      SameQueue (old.program (whileSelected i d.queueIndex writes)) new := by
  induction writes generalizing d old with
  | nil =>
    cases h
    exact ⟨old, hold, SameQueue.refl _⟩
  | cons w writes ih =>
    obtain ⟨offset, value⟩ := w
    obtain ⟨d₁, hd₁, h⟩ := bind_eq_ok.mp h
    obtain ⟨mid, hmid, hstep⟩ := storeWord_q hd₁ hold
    obtain ⟨new, hnew, hrest⟩ := ih h hmid
    refine ⟨new, hnew, ?_⟩
    rw [storeWord_queueIndex hd₁] at hrest
    refine sameQueue_trans ?_ hrest
    rw [whileSelected_cons]
    by_cases hsel : Register.ofOffset offset = .queueSel
    · have hnone : (Register.ofOffset offset).program value = none := by rw [hsel]; rfl
      have hold' : (if d.queueIndex = i then
          ((Register.ofOffset offset).program value).elim old fun f => f old else old) = old := by
        rw [hnone]
        split <;> rfl
      rw [hold'] at hstep
      rw [if_pos hsel, if_pos hsel]
      exact sameQueue_program hstep _
    · rw [if_neg hsel, if_neg hsel]
      by_cases hi : d.queueIndex = i
      · rw [if_pos hi] at hstep ⊢
        exact sameQueue_program hstep _
      · rw [if_neg hi] at hstep ⊢
        exact sameQueue_program hstep _

end Device

/-- The ideal register file: for the writes that were made while a queue was
selected, each address is the last high half and the last low half, the size is
the last size, and the queue reads ready exactly if the last write of
`QUEUE_READY` asked for it. -/
structure LastWriteWins (writes : List (Register × UInt32)) (q : Queue) (reads : UInt32) :
    Prop where
  addr : ∀ area : Area, (area.addr q).toNat =
    (last (valuesOf area.high writes)).toNat * 2 ^ 32 + (last (valuesOf area.low writes)).toNat
  size : q.size = last (valuesOf .queueNum writes)
  ready : reads = 1 ↔ last (valuesOf .queueReady writes) ≠ 0

/-- Every value written to the register has only bits of the last one. -/
def Growing (vs : List UInt32) : Prop := ∀ v ∈ vs, v ||| last vs = last vs

/-- The driver never takes back a bit of an address or the readiness. -/
structure NeverTakenBack (writes : List (Register × UInt32)) : Prop where
  low : ∀ area : Area, Growing (valuesOf area.low writes)
  high : ∀ area : Area, Growing (valuesOf area.high writes)
  ready : valuesOf .queueReady writes ≠ [] → last (valuesOf .queueReady writes) ≠ 0

theorem orAll_eq_last_iff (vs : List UInt32) : orAll vs = last vs ↔ Growing vs :=
  orAll_eq_iff (last_eq_zero_or_mem vs)

theorem program_fresh_iff (writes : List (Register × UInt32)) :
    LastWriteWins writes (Queue.program {} writes)
      (Device.ofBool (Queue.program {} writes).isReady) ↔ NeverTakenBack writes := by
  have haddr : ∀ area : Area, area.addr (Queue.program {} writes) =
      join (orAll (valuesOf area.low writes)) (orAll (valuesOf area.high writes)) := by
    intro area
    have hzero : area.addr {} = join 0 0 := by cases area <;> rfl
    rw [Queue.addr_program area {} writes 0 0 hzero, UInt32.zero_or, UInt32.zero_or]
  have hready : Device.ofBool (Queue.program {} writes).isReady = 1 ↔
      valuesOf .queueReady writes ≠ [] := by
    unfold Queue.isReady
    rw [Queue.ready_program]
    cases valuesOf .queueReady writes <;> simp [Device.ofBool]
  have hlast : last (valuesOf .queueReady writes) ≠ 0 → valuesOf .queueReady writes ≠ [] := by
    intro hne hnil
    rw [hnil] at hne
    exact hne rfl
  constructor
  · intro h
    have hhalves : ∀ area : Area,
        orAll (valuesOf area.low writes) = last (valuesOf area.low writes) ∧
          orAll (valuesOf area.high writes) = last (valuesOf area.high writes) := by
      intro area
      have heq := h.addr area
      rw [haddr, ← join_toNat, UInt64.toNat_inj, join_inj] at heq
      exact heq
    exact {
      low := fun area => (orAll_eq_last_iff _).mp (hhalves area).1
      high := fun area => (orAll_eq_last_iff _).mp (hhalves area).2
      ready := fun hne => h.ready.mp (hready.mpr hne) }
  · intro h
    refine ⟨fun area => ?_, ?_, ?_⟩
    · rw [haddr, join_toNat, (orAll_eq_last_iff _).mpr (h.low area),
        (orAll_eq_last_iff _).mpr (h.high area)]
    · exact Queue.size_program {} writes
    · rw [hready]
      exact ⟨h.ready, hlast⟩

theorem LastWriteWins.congr {writes : List (Register × UInt32)} {q q' : Queue} {reads : UInt32}
    (h : LastWriteWins writes q reads) (hsame : SameQueue q q') :
    LastWriteWins writes q' reads := by
  have haddr : ∀ area : Area, area.addr q' = area.addr q := by
    intro area
    rw [hsame]
    cases area <;> rfl
  have hsize : q'.size = q.size := by rw [hsame]
  exact ⟨fun area => (haddr area).symm ▸ h.addr area, hsize.trans h.size, h.ready⟩

theorem sameQueue_symm {q q' : Queue} (h : SameQueue q q') : SameQueue q' q := by
  unfold SameQueue at h ⊢
  rw [h]

namespace Device

variable {t : DeviceType}

def readsReady (d : Device t) (i : UInt32) : Except Fault UInt32 := do
  let d ← d.storeWord 0x030 i
  let data ← d.mmioRead 0x044 4
  getWord data

theorem readsReady_eq {d : Device t} {i : UInt32} {queue : Queue} (hq : d.q i = .ok queue) :
    d.readsReady i = .ok (ofBool queue.isReady) := by
  have hread : ∀ b, (putWord 4 (ofBool b) >>= getWord) = .ok (ofBool b) := by decide
  have hsel : d.readsReady i =
      (d.q i >>= fun queue => putWord 4 (ofBool queue.isReady)) >>= getWord := by
    unfold readsReady
    rw [storeWord_eq]
    rfl
  rw [hsel, hq]
  exact hread _

/-- After any sequence of register writes, a queue is programmed as the last
writes ask for exactly when none of them took anything back. -/
theorem last_write_wins_iff {irq : Interrupt} {config : List UInt8} {writes : Writes}
    {d : Device t} (hrun : (fresh t irq config).storeWords writes = .ok d) {i : UInt32}
    {queue : Queue} (hq : d.q i = .ok queue) :
    ∃ reads, d.readsReady i = .ok reads ∧
      (LastWriteWins (whileSelected i 0 writes) queue reads ↔
        NeverTakenBack (whileSelected i 0 writes)) := by
  obtain ⟨hi, -⟩ := q_eq_ok hq
  obtain ⟨new, hnew, hsame⟩ := storeWords_q hrun (fresh_q irq config hi)
  rw [hq] at hnew
  cases hnew
  have hready : (Queue.program {} (whileSelected i 0 writes)).isReady = queue.isReady := by
    rw [hsame]
    rfl
  refine ⟨_, readsReady_eq hq, ?_⟩
  rw [← program_fresh_iff, hready]
  exact ⟨fun h => h.congr (sameQueue_symm hsame), fun h => h.congr hsame⟩

/-- A write that names no queue outside the device and stays in its window. -/
def InRange (t : DeviceType) (w : UInt64 × UInt32) : Prop :=
  w.1 < 0x1000 ∧ (Register.ofOffset w.1 = .queueSel ∨ Register.ofOffset w.1 = .queueNotify →
    w.2.toNat < t.queueCount)

theorem writeConfig_ok (d : Device t) (value : UInt32) {offset : UInt64}
    (hoffset : offset.toNat < 0x1000) :
    ∃ d', d.writeConfig (bytesOfNat 4 value.toNat) offset 4 = .ok d' := by
  have hsum : (offset + (4 : UInt32).toUInt64).toNat = offset.toNat + 4 := by
    rw [UInt64.toNat_add]
    change (offset.toNat + 4) % 2 ^ 64 = _
    omega
  have hlen : (bytesOfNat 4 value.toNat).length = 4 := length_bytesOfNat 4 _
  unfold writeConfig configRejects
  rw [hsum]
  split
  · exact ⟨_, rfl⟩
  · rename_i hfits
    rw [if_pos]
    · exact ⟨_, rfl⟩
    · change offset.toNat + 4 ≤ d.config.length ∧ 4 ≤ _
      simp only [Bool.or_eq_true, decide_eq_true_eq, not_or, Nat.not_lt] at hfits
      exact ⟨hfits.2, hlen.ge⟩

theorem storeWords_returns {d : Device t} (hsel : d.queueIndex.toNat < t.queueCount)
    {writes : Writes} (hw : ∀ w ∈ writes, InRange t w) :
    ∃ d', d.storeWords writes = .ok d' := by
  induction writes generalizing d with
  | nil => exact ⟨d, rfl⟩
  | cons w writes ih =>
    obtain ⟨offset, value⟩ := w
    obtain ⟨hwindow, hqueue⟩ := hw _ List.mem_cons_self
    have hstep : ∃ d', d.storeWord offset value = .ok d' := by
      rw [storeWord_eq]
      cases hp : (Register.ofOffset offset).program value with
      | some f =>
        rw [writeRegister_program hp]
        unfold updateSelected selected
        rw [q_of_lt d hsel]
        exact ⟨_, rfl⟩
      | none =>
        by_cases hn : Register.ofOffset offset = .queueNotify
        · rw [hn]
          change ∃ d', (d.q value >>= fun queue => .ok (d.setQ value queue.setNotify)) = .ok d'
          rw [q_of_lt d (hqueue (Or.inr hn))]
          exact ⟨_, rfl⟩
        · cases hr : Register.ofOffset offset
          case queueNotify => contradiction
          case queueNum | queueReady | queueDescLow | queueDescHigh | queueAvailLow
              | queueAvailHigh | queueUsedLow | queueUsedHigh =>
            rw [hr] at hp
            contradiction
          case config o =>
            obtain ⟨rfl, hle⟩ := Register.ofOffset_config hr
            apply writeConfig_ok
            rw [UInt64.toNat_sub_of_le _ _ hle]
            exact (Nat.sub_le _ _).trans_lt (UInt64.lt_iff_toNat_lt.mp hwindow)
          case interruptAck =>
            unfold writeRegister
            dsimp only
            split <;> exact ⟨_, rfl⟩
          all_goals exact ⟨_, rfl⟩
    obtain ⟨d₁, hd₁⟩ := hstep
    have hsel₁ : d₁.queueIndex.toNat < t.queueCount := by
      rw [storeWord_queueIndex hd₁]
      split
      · rename_i hr
        exact hqueue (Or.inl hr)
      · exact hsel
    obtain ⟨d', hd'⟩ := ih hsel₁ fun w hmem => hw w (List.mem_cons_of_mem _ hmem)
    refine ⟨d', ?_⟩
    unfold storeWords
    rw [hd₁]
    exact hd'

def bringUp : Writes :=
  [(0x030, 0), (0x038, 4), (0x080, 0x1000), (0x084, 0), (0x090, 0x2000), (0x0a0, 0x3000),
    (0x044, 1)]

/-- Programming once is never taken back. -/
theorem bringUp_last_write_wins : ∃ d queue reads,
    (fresh blkType { number := 5 } []).storeWords bringUp = .ok d ∧ d.q 0 = .ok queue ∧
      d.readsReady 0 = .ok reads ∧ LastWriteWins (whileSelected 0 0 bringUp) queue reads := by
  have hrange : ∀ w ∈ bringUp, InRange blkType w := by
    simp only [bringUp, List.forall_mem_cons]
    refine ⟨⟨by decide, fun _ => by decide⟩, ⟨by decide, ?_⟩, ⟨by decide, ?_⟩, ⟨by decide, ?_⟩,
      ⟨by decide, ?_⟩, ⟨by decide, ?_⟩, ⟨by decide, ?_⟩, List.forall_mem_nil _⟩
    all_goals
      rintro (h | h) <;> contradiction
  obtain ⟨d, hrun⟩ := storeWords_returns
    (d := fresh blkType { number := 5 } []) (by decide) hrange
  obtain ⟨queue, hq, -⟩ := storeWords_q (i := 0) hrun (fresh_q _ _ (by decide))
  obtain ⟨reads, hreads, hiff⟩ := last_write_wins_iff hrun hq
  refine ⟨d, queue, reads, hrun, hq, hreads, hiff.mpr ?_⟩
  have hwrites : whileSelected 0 0 bringUp =
      [(.queueNum, 4), (.queueDescLow, 0x1000), (.queueDescHigh, 0), (.queueAvailLow, 0x2000),
        (.queueUsedLow, 0x3000), (.queueReady, 1)] := rfl
  rw [hwrites]
  refine ⟨fun area => ?_, fun area => ?_, by decide⟩
  · cases area <;> simp [Growing, valuesOf, last, Area.low]
  · cases area <;> simp [Growing, valuesOf, last, Area.high]

/-- A low half that is programmed twice keeps the bits of both values. -/
theorem reprogrammed_address_ors : ∃ d queue reads,
    (fresh blkType { number := 5 } []).storeWords [(0x080, 0x1000), (0x080, 0x2000)] = .ok d ∧
      d.q 0 = .ok queue ∧ d.readsReady 0 = .ok reads ∧ queue.descAddr = 0x3000 ∧
      ¬ LastWriteWins (whileSelected 0 0 [(0x080, 0x1000), (0x080, 0x2000)]) queue reads := by
  refine ⟨_, { descAddr := 0x3000 }, _, rfl, rfl, rfl, rfl, fun h => ?_⟩
  have haddr := h.addr .desc
  revert haddr
  decide

end Device

end Kthxvm.Virtio
