import Kthxvm.Virtio.BlkMachine

/-! When a completion of the block device reaches the driver. `EVENT_IDX` is bit
29 of the features, and a read of `DEVICE_FEATURES` shows 24 bits. -/
namespace Kthxvm.Virtio.BlkMachine

open Lib.ByteMemory Lib.Transition Blk

def ringFEventIdx : UInt64 := (1 : UInt64) <<< 29

theorem shift_high_and (v : UInt32) : (v.toUInt64 <<< 32) &&& ringFEventIdx = 0 := by
  apply UInt64.toNat_inj.mp
  apply Nat.eq_of_testBit_eq
  intro i
  have hbit : ringFEventIdx.toNat = 2 ^ 29 := rfl
  simp only [UInt64.toNat_and, UInt64.toNat_shiftLeft, Nat.testBit_and, hbit, Nat.testBit_two_pow]
  by_cases h : 29 = i
  · subst h
    have hlow : (v.toNat <<< 32 % 2 ^ 64).testBit 29 = false := by
      simp [Nat.testBit_mod_two_pow, Nat.testBit_shiftLeft, -Nat.reducePow]
    simpa using hlow
  · simp [h]

theorem and_low {v : UInt32} (h : v &&& ringFEventIdx.toUInt32 = 0) :
    (v.toUInt64 <<< 0) &&& ringFEventIdx = 0 := by
  have hb : ringFEventIdx = ringFEventIdx.toUInt32.toUInt64 := rfl
  rw [UInt64.shiftLeft_zero, hb, ← UInt32.toUInt64_and, h]
  rfl

theorem or_and (a b c : UInt64) : (a ||| b) &&& c = (a &&& c) ||| (b &&& c) := by
  apply UInt64.toBitVec_inj.mp
  ext i hi
  simp [Bool.and_or_distrib_right]

theorem and_of_subset {v w b : UInt32} (h : v &&& w = v) (hb : w &&& b = 0) : v &&& b = 0 := by
  rw [← h, UInt32.and_assoc, hb, UInt32.and_zero]

def availFNoInterrupt : UInt16 := 1

/-- The driver accepts features from what `DEVICE_FEATURES` offers in the window
that it has selected for itself. -/
def AcceptsOffered (s : State) : Action → Prop
  | .register data offset _ => Register.ofOffset offset = .driverFeatures →
      ∀ value, Device.getWord data = .ok value →
        value &&& { s.blk.dev with deviceFeatureSel := s.blk.dev.driverFeatureSel }.offeredWord =
          value
  | _ => True

/-- `used_event` where a driver keeps it, behind a ring of the negotiated size. -/
def driverEventAddr (q : Queue) : UInt64 := q.availAddr + (4 + 2 * q.size.toUInt64)

def Owed (d : Device blkType) (q : Queue) (m : Memory) : Prop :=
  if d.driverFeatures &&& ringFEventIdx = 0 then
    load16 m q.availFlagsAddr &&& availFNoInterrupt = 0
  else load16 m (driverEventAddr q) = load16 m q.usedIdxAddr - 1

def Completes (move : Move State Action) (q : Queue) : Prop :=
  ∃ head id len idx raised, move.label = .round (.answered head id len idx raised) ∧
    Takes move.source.blk move.source.guest head q

def Raises (move : Move State Action) : Prop :=
  ∃ head id len idx, move.label = .round (.answered head id len idx true)

/-- The word that the device takes for `used_event` is one behind a used index
that has not wrapped to zero, or the driver asked for silence. -/
def Covered (q : Queue) (m : Memory) : Prop :=
  load16 m q.availFlagsAddr &&& availFNoInterrupt ≠ 0 ∨
    (load16 m q.usedIdxAddr ≠ 0 ∧ load16 m q.usedEventAddr = load16 m q.usedIdxAddr - 1)

theorem offeredWord_eventIdx (d : Device blkType) :
    d.offeredWord &&& ringFEventIdx.toUInt32 = 0 := by
  unfold Device.offeredWord
  cases d.deviceFeatureSel <;> decide

/-- The difference is taken in `int`, where it may be -1. -/
theorem notifies_iff {idx event : UInt16} :
    notifies idx event = true ↔ idx ≠ 0 ∧ event = idx - 1 := by
  unfold notifies
  rw [decide_eq_true_iff, Ne, ← UInt16.toNat_inj, ← UInt16.toNat_inj, UInt16.toNat_sub]
  have hidx := idx.toNat_lt
  have hevent := event.toNat_lt
  simp only [UInt16.toNat_zero, UInt16.toNat_one]
  omega

theorem round_driverFeatures {fuel : Nat} {b b' : Blk} {g g' : Guest} {o : Outcome}
    (h : runOnce fuel b g = .ok (o, b', g')) :
    b'.dev.driverFeatures = b.dev.driverFeatures := by
  rcases runOnce_cases h with ⟨-, -, q₀, q, -, -, rfl⟩ | ⟨head, q, -, -, -, -, rfl⟩ |
    ⟨head, q, id, file, g₁, len, idx, event, -, -, -, -, -, -, rfl⟩
  · exact Device.setQ_driverFeatures _ _ _
  · exact Device.setQ_driverFeatures _ _ _
  · exact Device.setQ_driverFeatures _ _ _

def EventIdxOff (s : State) : Prop := s.blk.dev.driverFeatures &&& ringFEventIdx = 0

/-- A driver that keeps to the offer never accepts `EVENT_IDX`. -/
theorem step_eventIdxOff {fuel : Nat} {s s' : State} {l : Action}
    (hstep : Step fuel s l s') (haccept : AcceptsOffered s l) (h : EventIdxOff s) :
    EventIdxOff s' := by
  unfold EventIdxOff at h ⊢
  cases hstep with
  | memory => exact h
  | round hround => rw [round_driverFeatures hround, h]
  | @register data offset size dev hwrite =>
    obtain ⟨value, hvalue, hwrite⟩ := bind_eq_ok.mp hwrite
    rw [Device.writeRegister_driverFeatures hwrite]
    split
    · rename_i hregister
      have hlow := and_of_subset (haccept hregister value hvalue) (offeredWord_eventIdx _)
      rw [or_and, h, UInt64.zero_or]
      cases s.blk.dev.driverFeatureSel
      · exact and_low hlow
      · exact shift_high_and value
    · exact h

theorem run_eventIdxOff {fuel : Nat} {start s : State} {moves : Moves}
    (run : Run (Step fuel) start moves s) (hstart : start.blk.dev.driverFeatures = 0)
    (haccept : ∀ move ∈ moves, AcceptsOffered move.source move.label) :
    ∀ move ∈ moves, EventIdxOff move.target := by
  have hoff : EventIdxOff start := by
    unfold EventIdxOff
    rw [hstart, UInt64.zero_and]
  intro move hmem
  have hsource := (run.guarded haccept).invariant_source hoff
    (fun s l s' hs hmove => step_eventIdxOff hmove.2 hmove.1 hs) move hmem
  exact step_eventIdxOff (run.step_of_mem move hmem) (haccept move hmem) hsource

theorem owed_of_eventIdxOff {s : State} (h : EventIdxOff s) (q : Queue) :
    Owed s.blk.dev q s.guest.bytes ↔
      load16 s.guest.bytes q.availFlagsAddr &&& availFNoInterrupt = 0 := by
  unfold EventIdxOff at h
  rw [Owed, if_pos h]

theorem addUsed_idx {q : Queue} {g g' : Guest} {start len : UInt32} {idx : UInt16}
    (h : q.addUsed g start len = .ok (idx, g')) : idx = load16 g'.bytes q.usedIdxAddr := by
  unfold Queue.addUsed at h
  obtain ⟨_, -, h⟩ := bind_eq_ok.mp h
  obtain ⟨_, -, h⟩ := bind_eq_ok.mp h
  obtain ⟨_, -, h⟩ := bind_eq_ok.mp h
  obtain ⟨_, -, h⟩ := bind_eq_ok.mp h
  obtain ⟨_, -, h⟩ := bind_eq_ok.mp h
  obtain ⟨_, -, h⟩ := bind_eq_ok.mp h
  obtain ⟨_, -, h⟩ := bind_eq_ok.mp h
  obtain ⟨_, -, h⟩ := bind_eq_ok.mp h
  obtain ⟨idx', hread, h⟩ := bind_eq_ok.mp h
  cases h
  exact (bind_eq_ok.mp hread).elim fun _ hr => (Except.ok.inj hr.2).symm

theorem raises_iff {fuel : Nat} {move : Move State Action} {q : Queue}
    (hstep : Step fuel move.source move.label move.target) (hcompletes : Completes move q) :
    Raises move ↔ load16 move.target.guest.bytes q.usedIdxAddr ≠ 0 ∧
      load16 move.target.guest.bytes q.usedEventAddr =
        load16 move.target.guest.bytes q.usedIdxAddr - 1 := by
  obtain ⟨source, label, target⟩ := move
  obtain ⟨head, id, len, idx, raised, hl, htakes⟩ := hcompletes
  change label = _ at hl
  subst hl
  change Step fuel source _ target at hstep
  cases hstep with
  | round hround =>
    rcases runOnce_cases hround with ⟨h, -⟩ | ⟨_, _, -, -, h, -⟩ |
      ⟨head', q', id', file, g₁, len', idx', event, htakes', -, -, hused, hevent, ho, -⟩
    · contradiction
    · contradiction
    · cases ho
      obtain ⟨-, rfl⟩ := Takes.unique htakes htakes'
      obtain ⟨-, -, hevent⟩ := bind_eq_ok.mp hevent
      have hword := (Except.ok.inj hevent).symm
      have hidx := addUsed_idx hused
      rw [← hidx, ← hword, ← notifies_iff]
      constructor
      · rintro ⟨_, _, _, _, h⟩
        injection h with h
        injection h
      · intro h
        exact ⟨head, _, _, _, by rw [h]⟩

/-- Among drivers that accept only what is offered, exactly those whose memory
holds a matching word at the fixed position after every completion, or that
asked for silence, are notified of everything they are owed. -/
theorem notified_iff_covered {fuel : Nat} {start s : State} {moves : Moves}
    (run : Run (Step fuel) start moves s) (hstart : start.blk.dev.driverFeatures = 0)
    (haccept : ∀ move ∈ moves, AcceptsOffered move.source move.label) :
    (∀ move ∈ moves, ∀ q, Completes move q →
        Owed move.target.blk.dev q move.target.guest.bytes → Raises move) ↔
      ∀ move ∈ moves, ∀ q, Completes move q → Covered q move.target.guest.bytes := by
  have howed := fun move hmem q =>
    owed_of_eventIdxOff (run_eventIdxOff run hstart haccept move hmem) q
  constructor
  · intro hnotified move hmem q hcompletes
    by_cases hsilent : load16 move.target.guest.bytes q.availFlagsAddr &&& availFNoInterrupt = 0
    · right
      have hraises := hnotified move hmem q hcompletes ((howed move hmem q).mpr hsilent)
      exact (raises_iff (run.step_of_mem move hmem) hcompletes).mp hraises
    · exact Or.inl hsilent
  · intro hcovered move hmem q hcompletes ho
    rcases hcovered move hmem q hcompletes with hsilent | hmatch
    · exact absurd ((howed move hmem q).mp ho) hsilent
    · exact (raises_iff (run.step_of_mem move hmem) hcompletes).mpr hmatch

theorem sampleIn_notified : ∃ s moves, Run (Step 512) (sampleMachine 0 0) moves s ∧
    ∀ move ∈ moves, ∀ q, Completes move q →
      Owed move.target.blk.dev q move.target.guest.bytes → Raises move := by
  obtain ⟨s, hstep⟩ := sample_round 0 0 512 (o := .answered 0 0 5 1 true) (by decide)
  refine ⟨s, _, Run.one hstep, ?_⟩
  refine (notified_iff_covered (Run.one hstep) rfl ?_).mpr ?_
  · intro move hmem
    rw [List.mem_singleton.mp hmem]
    exact trivial
  · intro move hmem q hcompletes
    rw [List.mem_singleton.mp hmem] at hcompletes ⊢
    exact Or.inr ((raises_iff hstep hcompletes).mp ⟨_, _, _, _, rfl⟩)

def straySample : State where
  blk := (sampleMachine 0 0).blk
  guest := ⟨store16 (sampleMemory 0 0) 0x2404 7, 0x8000⟩

theorem stray_word_silences : ∃ s moves, Run (Step 512) (sampleMachine 0 0) moves s ∧
    (∀ move ∈ moves, AcceptsOffered move.source move.label) ∧
    ∃ move ∈ moves, ∃ q, Completes move q ∧
      Owed move.target.blk.dev q move.target.guest.bytes ∧ ¬ Raises move := by
  have hmemory : Step 512 (sampleMachine 0 0) (.memory (store16 (sampleMemory 0 0) 0x2404 7))
      straySample := Step.memory _ _
  have htakes : Takes straySample.blk straySample.guest 0 sampleTaken :=
    ⟨sampleQueue, rfl, by decide⟩
  have hlabel : (runOnce 512 straySample.blk straySample.guest).map (fun result =>
      (result.1, result.2.1.dev.driverFeatures, load16 result.2.2.bytes 0x2000)) =
        .ok (.answered 0 0 5 1 false, 0, 0) := by decide
  cases hround : runOnce 512 straySample.blk straySample.guest with
  | error e =>
    rw [hround] at hlabel
    contradiction
  | ok result =>
    obtain ⟨o, b, g⟩ := result
    rw [hround] at hlabel
    simp only [Except.map, Except.ok.injEq, Prod.mk.injEq] at hlabel
    obtain ⟨rfl, hfeatures, hflags⟩ := hlabel
    refine ⟨_, _, (Run.one hmemory).snoc (Step.round hround), ?_, _,
      List.mem_append_right _ (List.mem_singleton_self _), sampleTaken,
      ⟨_, _, _, _, _, rfl, htakes⟩, ?_, ?_⟩
    · intro move hmem
      rcases List.mem_append.mp hmem with h | h
      · rw [List.mem_singleton.mp h]
        exact trivial
      · rw [List.mem_singleton.mp h]
        exact trivial
    · apply (owed_of_eventIdxOff (s := ⟨b, g⟩) (by simp [EventIdxOff, hfeatures]) sampleTaken).mpr
      change load16 g.bytes 0x2000 &&& availFNoInterrupt = 0
      rw [hflags]
      decide
    · rintro ⟨_, _, _, _, h⟩
      injection h with h
      injection h
      contradiction
end Kthxvm.Virtio.BlkMachine
