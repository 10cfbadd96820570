import Kthxvm.Virtio.BlkMachine

/-! Which requests the block device answers. -/
namespace Kthxvm.Virtio.BlkMachine

open Lib.ByteMemory Lib.Transition Blk

def KnownType (type : UInt32) : Prop := type = blkTIn ∨ type = blkTOut ∨ type = blkTGetId

/-- The chain at `head` has a readable header and, if its type is known, the
layout of a request: data buffers between the header and a status descriptor of
one byte. -/
structure Shaped (q : Queue) (g : Guest) (head : UInt16) : Prop where
  placed : q.Placed g
  event : g.Holds q.usedEventAddr 2
  head_lt : head.toNat < q.size.toNat
  header : g.Holds (q.entry g.bytes head).addr 16
  layout : KnownType (load32 g.bytes (q.entry g.bytes head).addr) →
    ∃ r : Request, r.head = head ∧ r.Laid q g ∧ r.st.len = 1

/-- The requests that the switch carries out: `GET_ID` looks at exactly one data
descriptor and copies no more than the identifier. -/
def Supported (q : Queue) (m : Memory) (head : UInt16) : Prop :=
  KnownType (load32 m (q.entry m head).addr) ∧
    (load32 m (q.entry m head).addr = blkTGetId →
      ∃ hdr d st, q.Chain m head [hdr, d, st] ∧ d.len.toNat ≤ diskId.length)

def statusAddr (ds : List Descriptor) (h : ds ≠ []) : UInt64 :=
  (ds.getLast h).addr + ((ds.getLast h).len.toUInt64 - 1)

/-- The round put the chain on the used ring under its own id, with the status
byte already written. -/
def Answered (fuel : Nat) (move : Move State Action) (head : UInt16) (q : Queue) : Prop :=
  ∃ ds h file g₁ len idx raised,
    q.Chain move.source.guest.bytes head ds ∧
    handle fuel q move.source.blk.file move.source.guest head = .ok (some (file, g₁, len)) ∧
    g₁.bytes (statusAddr ds h) = blkSOk ∧
    q.addUsed g₁ head.toUInt32 len = .ok (idx, move.target.guest) ∧
    move.label = .round (.answered head head.toUInt32 len idx raised)

section Round

variable {fuel : Nat} {s : State} {head : UInt16} {q : Queue}

theorem handled_of_supported {r : Request} (hlaid : r.Laid q s.guest)
    (h : Supported q s.guest.bytes r.head) : r.Handled s.guest.bytes := by
  have hentry := (Queue.chain_append.mp hlaid.chain).2.1
  obtain ⟨hknown, hid⟩ := h
  rw [hentry] at hknown hid
  rcases hknown with h | h | h
  · exact Or.inl h
  · exact Or.inr (Or.inl h)
  · obtain ⟨hdr, d, st, hchain, hlen⟩ := hid h
    have hds := hlaid.chain.unique hchain
    have hdata : r.data ++ [r.st] = [d] ++ [st] := (List.cons.inj hds).2
    exact Or.inr (Or.inr ⟨h, d, (List.append_inj' hdata rfl).1, hlen⟩)

theorem round_of_supported (hfuel : queueSizeMax.toNat ≤ fuel)
    (htakes : Takes s.blk s.guest head q) (hshape : Shaped q s.guest head)
    (hsup : Supported q s.guest.bytes head) :
    ∃ o b g, runOnce fuel s.blk s.guest = .ok (o, b, g) ∧
      Answered fuel ⟨s, .round o, ⟨b, g⟩⟩ head q := by
  obtain ⟨r, hhead, hlaid, hst⟩ := hshape.layout hsup.1
  subst hhead
  have hhandle := handle_ok hshape.placed hlaid (handled_of_supported hlaid hsup) hfuel
    s.blk.file
  have hplaced : q.Placed ⟨store (r.effect s.blk.file s.guest.bytes).2 r.st.addr [blkSOk],
      s.guest.size⟩ := hshape.placed.congr rfl rfl rfl rfl rfl
  obtain ⟨raised, hround, -⟩ := runOnce_answered htakes (Takes.availId htakes) hhandle hplaced
    hshape.event
  refine ⟨_, _, _, hround, r.hdr :: (r.data ++ [r.st]), List.cons_ne_nil _ _, _, _, _, _, raised,
    hlaid.chain, hhandle, ?_, Queue.addUsed_ok hplaced _ _, rfl⟩
  -- a one-byte descriptor ends where it begins
  have haddr : statusAddr (r.hdr :: (r.data ++ [r.st])) (List.cons_ne_nil _ _) =
      r.st.addr := by
    unfold statusAddr
    simp [hst]
  rw [haddr]
  simp [store]

theorem round_of_unknown (fuel : Nat) (htakes : Takes s.blk s.guest head q)
    (hshape : Shaped q s.guest head)
    (hunknown : ¬ KnownType (load32 s.guest.bytes (q.entry s.guest.bytes head).addr)) :
    ∃ b, runOnce fuel s.blk s.guest = .ok (.dropped head, b, s.guest) := by
  unfold KnownType at hunknown
  push Not at hunknown
  exact ⟨_, runOnce_dropped htakes (Takes.availId htakes)
    (handle_default hshape.placed hshape.head_lt rfl (hshape.header.mono (by norm_num))
      hunknown fuel s.blk.file)⟩

end Round

theorem usedIds_eq_of_answered {fuel : Nat} {start s : State} {moves : Moves}
    (run : Run (Step fuel) start moves s)
    (h : ∀ move ∈ moves, ∀ head q, Serves move head q → Answered fuel move head q) :
    usedIds moves = (takenHeads moves).map UInt16.toUInt32 := by
  have hlabel : ∀ move ∈ moves,
      usedId move.label = (takenHead move.label).map UInt16.toUInt32 := by
    intro move hmem
    by_cases hserves : ∃ head q, Serves move head q
    · obtain ⟨head, q, hserves⟩ := hserves
      obtain ⟨_, _, _, _, _, _, _, _, _, _, _, hl⟩ := h move hmem head q hserves
      rw [hl]
      rfl
    · push Not at hserves
      obtain ⟨htaken, hused, -⟩ := idle_of_not_serves (run.step_of_mem move hmem) hserves
      rw [htaken, hused]
      rfl
  unfold usedIds takenHeads
  rw [List.map_filterMap]
  exact List.filterMap_congr hlabel

theorem sample_shaped (type : UInt32) (sector : UInt64) :
    Shaped sampleTaken (sampleMachine type sector).guest 0 where
  placed := sampleTaken_placed type sector
  event := sample_holds type sector (by decide)
  head_lt := by decide
  header := by
    have hentry : sampleTaken.entry (sampleMachine type sector).guest.bytes 0 =
        sampleRequest.hdr := (Queue.chain_append.mp (sample_laid type sector).chain).2.1
    rw [hentry]
    exact (sample_laid type sector).hdr_held
  layout := fun _ => ⟨sampleRequest, rfl, sample_laid type sector, rfl⟩

/-- On well-shaped traffic the device returns every chain it takes, once, in
order and with its status written, as long as every request is supported; a
single request of an unknown type breaks this, and no round goes wrong. -/
theorem answered_of_supported {fuel : Nat} (hfuel : queueSizeMax.toNat ≤ fuel)
    {start s : State} {moves : Moves} (run : Run (Step fuel) start moves s)
    (hshape : ∀ move ∈ moves, ∀ head q, Serves move head q →
      Shaped q move.source.guest head) :
    ((∀ move ∈ moves, ∀ head q, Serves move head q →
        Supported q move.source.guest.bytes head) →
      usedIds moves = (takenHeads moves).map UInt16.toUInt32 ∧
        ∀ move ∈ moves, ∀ head q, Serves move head q → Answered fuel move head q) ∧
    ((∃ move ∈ moves, ∃ head q, Serves move head q ∧
        ¬ KnownType (load32 move.source.guest.bytes
          (q.entry move.source.guest.bytes head).addr)) →
      ¬ ∀ move ∈ moves, ∀ head q, Serves move head q → Answered fuel move head q) ∧
    ∀ head q, Takes s.blk s.guest head q → Shaped q s.guest head →
      Supported q s.guest.bytes head →
      ∃ result, runOnce fuel s.blk s.guest = .ok result := by
  refine ⟨?_, ?_, ?_⟩
  · intro hsup
    have hanswered : ∀ move ∈ moves, ∀ head q, Serves move head q →
        Answered fuel move head q := by
      intro move hmem head q hserves
      obtain ⟨⟨o, hl⟩, htakes⟩ := hserves
      obtain ⟨o', b, g, hround, hans⟩ := round_of_supported hfuel htakes
        (hshape move hmem head q ⟨⟨o, hl⟩, htakes⟩)
        (hsup move hmem head q ⟨⟨o, hl⟩, htakes⟩)
      have hstep := run.step_of_mem move hmem
      rw [hl] at hstep
      obtain ⟨rfl, htarget⟩ := round_unique hstep hround
      obtain ⟨source, label, target⟩ := move
      cases hl
      cases htarget
      exact hans
    exact ⟨usedIds_eq_of_answered run hanswered, hanswered⟩
  · rintro ⟨move, hmem, head, q, ⟨⟨o, hl⟩, htakes⟩, hunknown⟩ hanswered
    obtain ⟨b, hround⟩ := round_of_unknown fuel htakes
      (hshape move hmem head q ⟨⟨o, hl⟩, htakes⟩) hunknown
    obtain ⟨_, _, _, _, _, _, _, _, _, _, _, hlabel⟩ :=
      hanswered move hmem head q ⟨⟨o, hl⟩, htakes⟩
    have hstep := run.step_of_mem move hmem
    rw [hlabel] at hstep
    have hclash := (round_unique hstep hround).1
    contradiction
  · intro head q htakes hs hsup
    obtain ⟨o, b, g, hround, -⟩ := round_of_supported hfuel htakes hs hsup
    exact ⟨_, hround⟩

theorem sampleIn_answered : ∃ s moves, Run (Step 512) (sampleMachine 0 0) moves s ∧
    takenHeads moves = [0] ∧ usedIds moves = [0] := by
  obtain ⟨s, hstep⟩ := sample_round 0 0 512
    (o := .answered 0 0 5 1 true) (by decide)
  refine ⟨s, _, Run.one hstep, rfl, ?_⟩
  have hserved : ∀ move ∈ [(⟨sampleMachine 0 0, .round (.answered 0 0 5 1 true), s⟩ :
      Move State Action)], ∀ head q, Serves move head q →
      move.source = sampleMachine 0 0 ∧ head = 0 ∧ q = sampleTaken := by
    intro move hmem head q hserves
    rw [List.mem_singleton.mp hmem] at hserves ⊢
    exact ⟨rfl, Takes.unique hserves.2 (sample_takes 0 0)⟩
  refine ((answered_of_supported (by decide) (Run.one hstep) ?_).1 ?_).1
  · intro move hmem head q hserves
    obtain ⟨hsource, hhead, hq⟩ := hserved move hmem head q hserves
    rw [hsource, hhead, hq]
    exact sample_shaped 0 0
  · intro move hmem head q hserves
    obtain ⟨hsource, hhead, hq⟩ := hserved move hmem head q hserves
    rw [hsource, hhead, hq]
    exact ⟨Or.inl (by decide), fun h => absurd h (by decide)⟩

/-- `VIRTIO_BLK_T_FLUSH` is taken and never returned. -/
theorem flush_dropped : ∃ s moves, Run (Step 512) (sampleMachine 4 0) moves s ∧
    Shaped sampleTaken (sampleMachine 4 0).guest 0 ∧
    takenHeads moves = [0] ∧ usedIds moves = [] := by
  obtain ⟨s, hstep⟩ := sample_round 4 0 512
    (o := .dropped 0) (by decide)
  exact ⟨s, _, Run.one hstep, sample_shaped 4 0, rfl, rfl⟩

end Kthxvm.Virtio.BlkMachine
