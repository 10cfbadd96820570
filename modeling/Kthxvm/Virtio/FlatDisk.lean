import Kthxvm.Virtio.BlkMachine

/-! On valid traffic the block device is a flat disk: every answered request is
one access to the array that the image starts as. -/
namespace Kthxvm.Virtio

open Lib.ByteMemory Lib.Transition Lib.Disk Lib.ScatterGather

namespace Blk

theorem ioIn_eq {ds : List Descriptor} {f : FStream} (m : Memory) (hfail : f.fail = false)
    (hfit : f.pos + totalLen (spans ds) ≤ f.contents.length) :
    ioIn f m ds = ({ f with pos := f.pos + totalLen (spans ds) },
      scatter m (spans ds) (slice f.contents f.pos (totalLen (spans ds)))) := by
  induction ds generalizing f m with
  | nil => rfl
  | cons d ds ih =>
    rw [spans_cons, totalLen_cons] at hfit ⊢
    have hspan : d.span.len = d.len.toNat := rfl
    rw [hspan] at hfit ⊢
    have hlen := length_slice f.contents (show f.pos + d.len.toNat ≤ f.contents.length by omega)
    have hread : f.read d.len.toNat = (slice f.contents f.pos d.len.toNat,
        { f with pos := f.pos + d.len.toNat }) := by
      simp [FStream.read, hfail, hlen]
    rw [ioIn, hread]
    have hrest := ih (f := { f with pos := f.pos + d.len.toNat })
      (store m d.addr (slice f.contents f.pos d.len.toNat)) hfail (by dsimp only; omega)
    rw [hrest, scatter, hspan, take_slice, drop_slice]
    simp only [Nat.add_assoc]
    rfl

theorem ioOut_eq {ds : List Descriptor} {f : FStream} (m : Memory) (hfail : f.fail = false)
    (hfit : f.pos + totalLen (spans ds) ≤ f.contents.length) :
    ioOut m f ds = { f with
      contents := splice f.contents f.pos (gather m (spans ds))
      pos := f.pos + totalLen (spans ds) } := by
  induction ds generalizing f with
  | nil => simp [ioOut]
  | cons d ds ih =>
    rw [spans_cons, totalLen_cons] at hfit ⊢
    have hspan : d.span.len = d.len.toNat := rfl
    have haddr : d.span.addr = d.addr := rfl
    rw [hspan] at hfit ⊢
    have hload : (load m d.addr d.len.toNat).length = d.len.toNat := length_load _ _ _
    have hwrite : f.write (load m d.addr d.len.toNat) =
        { f with
          contents := splice f.contents f.pos (load m d.addr d.len.toNat)
          pos := f.pos + d.len.toNat } := by
      simp [FStream.write, hfail]
    have hsame := length_splice f.contents (load m d.addr d.len.toNat)
      (show f.pos + (load m d.addr d.len.toNat).length ≤ f.contents.length by omega)
    have hfits : f.pos + (load m d.addr d.len.toNat ++ gather m (spans ds)).length ≤
        f.contents.length := by
      rw [List.length_append, hload, length_gather]
      omega
    have hjoin := splice_append hfits
    rw [hload] at hjoin
    have hrest := ih (f := { f with
      contents := splice f.contents f.pos (load m d.addr d.len.toNat)
      pos := f.pos + d.len.toNat }) hfail (by rw [hsame]; dsimp only; omega)
    rw [ioOut, hwrite, hrest, gather_cons, hspan, haddr, ← hjoin]
    simp only [Nat.add_assoc]

theorem seek_ok {f : FStream} {sector : UInt64} (hfail : f.fail = false)
    (h : sector.toNat * 512 < 2 ^ 63) :
    f.seek (sector * 512) = { f with pos := sector.toNat * 512 } := by
  have hmul : (sector * 512).toNat = sector.toNat * 512 := by
    rw [UInt64.toNat_mul]
    exact Nat.mod_eq_of_lt (by simp only [UInt64.reduceToNat]; omega)
  unfold FStream.seek
  rw [hmul, if_neg (by simp [hfail]), if_pos h]

namespace Request

/-- The access that the header asks for, with the driver's data for an OUT. -/
def access (r : Request) (m : Memory) : Access UInt8 :=
  if r.type m = blkTIn then
    .read ((r.sector m).toNat * 512) (totalLen (spans r.data))
  else .write ((r.sector m).toNat * 512) (gather m (spans r.data))

structure Proper (r : Request) (q : Queue) (g : Guest) : Prop where
  placed : q.Placed g
  event : g.Holds q.usedEventAddr 2
  laid : r.Laid q g
  kind : r.type g.bytes = blkTIn ∨ r.type g.bytes = blkTOut
  data_apart : (spans r.data).Pairwise Span.Apart
  data_used : ∀ span ∈ spans r.data, span.Apart q.usedSpan
  data_st : ∀ span ∈ spans r.data, span.Apart ⟨r.st.addr, 1⟩
  st_used : Span.Apart ⟨r.st.addr, 1⟩ q.usedSpan

def InRange (r : Request) (m : Memory) (size : Nat) : Prop :=
  (r.sector m).toNat * 512 + totalLen (spans r.data) ≤ size

structure WellFormed (r : Request) (q : Queue) (g : Guest) (size : Nat) : Prop
    extends r.Proper q g where
  range : r.InRange g.bytes size

section

variable {r : Request} {q : Queue} {g : Guest} {size : Nat} {file : FStream}

theorem WellFormed.fits (h : r.WellFormed q g size) : (r.access g.bytes).Fits size := by
  unfold access
  split
  · exact h.range
  · change _ + (gather g.bytes (spans r.data)).length ≤ size
    rw [length_gather]
    exact h.range

/-- The loops carry out the access. -/
theorem WellFormed.effect_eq (h : r.WellFormed q g size) (hfail : file.fail = false)
    (hlen : file.contents.length = size) (hsize : size < 2 ^ 63) :
    (r.effect file g.bytes).1.contents = (r.access g.bytes).apply file.contents ∧
      (r.effect file g.bytes).1.fail = false ∧
      gather (r.effect file g.bytes).2 (spans r.data) =
        (r.access g.bytes).result file.contents := by
  have hrange := h.range
  unfold InRange at hrange
  have hfit : (r.sector g.bytes).toNat * 512 + totalLen (spans r.data) ≤
      file.contents.length := by omega
  have hlow : (r.sector g.bytes).toNat * 512 < 2 ^ 63 := by omega
  have hseek := seek_ok hfail hlow
  rcases h.kind with hin | hout
  · have hloop := ioIn_eq (f := { file with pos := (r.sector g.bytes).toNat * 512 })
      g.bytes hfail hfit
    rw [effect, access, if_pos hin, if_pos hin, hseek, hloop]
    refine ⟨rfl, hfail, ?_⟩
    exact gather_scatter _ _ _ (spans_len_le _) h.data_apart (length_slice _ hfit)
  · have hnot : ¬ r.type g.bytes = blkTIn := by
      rw [hout]
      decide
    have hloop := ioOut_eq (f := { file with pos := (r.sector g.bytes).toNat * 512 })
      g.bytes hfail hfit
    rw [effect, access, if_neg hnot, if_neg hnot, if_pos hout, hseek, hloop]
    exact ⟨rfl, hfail, rfl⟩

end

end Request

theorem runOnce_proper {fuel : Nat} {b : Blk} {g : Guest} {r : Request} {q : Queue}
    (hfuel : queueSizeMax.toNat ≤ fuel) (htakes : Takes b g r.head q) (h : r.Proper q g) :
    ∃ len idx raised b' g', runOnce fuel b g =
        .ok (.answered r.head r.head.toUInt32 len idx raised, b', g') ∧
      b'.file = (r.effect b.file g.bytes).1 ∧
      gather g'.bytes (spans r.data) =
        gather (r.effect b.file g.bytes).2 (spans r.data) ∧
      g'.bytes r.st.addr = blkSOk := by
  have hpos := h.placed.size_pos
  have hle := h.placed.size_le
  have hhandled : r.Handled g.bytes := h.kind.imp_right Or.inl
  have hhandle := handle_ok h.placed h.laid hhandled hfuel b.file
  have hplaced : q.Placed ⟨store (r.effect b.file g.bytes).2 r.st.addr [blkSOk], g.size⟩ :=
    h.placed.congr rfl rfl rfl rfl rfl
  obtain ⟨raised, hround, -⟩ := runOnce_answered htakes htakes.availId hhandle hplaced h.event
  refine ⟨_, _, raised, _, _, hround, rfl, ?_, ?_⟩
  · symm
    apply gather_congr (spans_len_le _)
    intro span hspan
    have hstatus : AgreeOn span (r.effect b.file g.bytes).2
        (store (r.effect b.file g.bytes).2 r.st.addr [blkSOk]) :=
      (AgreeOn.refl _ _).store (h.data_st span hspan)
    exact hstatus.trans (Queue.afterAddUsed_agree hpos hle (h.data_used span hspan) _ _ _)
  · have hkeep := Queue.afterAddUsed_agree hpos hle h.st_used
      (store (r.effect b.file g.bytes).2 r.st.addr [blkSOk]) r.head.toUInt32
      (len32 r.data + 1)
    refine (hkeep r.st.addr (by simp [Span.mem_iff])).symm.trans ?_
    simp [store]

theorem runOnce_access {fuel : Nat} {b : Blk} {g : Guest} {r : Request} {q : Queue} {size : Nat}
    (hfuel : queueSizeMax.toNat ≤ fuel) (htakes : Takes b g r.head q)
    (h : r.WellFormed q g size) (hfail : b.file.fail = false)
    (hlen : b.file.contents.length = size) (hsize : size < 2 ^ 63) :
    ∃ len idx raised b' g', runOnce fuel b g =
        .ok (.answered r.head r.head.toUInt32 len idx raised, b', g') ∧
      b'.file.contents = (r.access g.bytes).apply b.file.contents ∧
      b'.file.fail = false ∧
      gather g'.bytes (spans r.data) = (r.access g.bytes).result b.file.contents ∧
      g'.bytes r.st.addr = blkSOk := by
  obtain ⟨len, idx, raised, b', g', hround, hfile, hgather, hst⟩ :=
    runOnce_proper hfuel htakes h.toProper
  obtain ⟨hcontents, hok, heffect⟩ := h.effect_eq hfail hlen hsize
  rw [← hfile] at hcontents hok
  exact ⟨len, idx, raised, b', g', hround, hcontents, hok, hgather.trans heffect, hst⟩

end Blk

namespace BlkMachine

open Blk

def requestAt (q : Queue) (m : Memory) (head : UInt16) : Option Request :=
  match q.walk m queueSizeMax.toNat head with
  | [] => none
  | hdr :: rest => rest.getLast?.map fun st => ⟨head, hdr, rest.dropLast, st⟩

def accessOf (move : Move State Action) : Option (Access UInt8) :=
  match move.label, move.source.blk.dev.selected with
  | .round (.answered head _ _ _ _), .ok q =>
    (requestAt q move.source.guest.bytes head).map fun r => r.access move.source.guest.bytes
  | _, _ => none

def accesses (moves : Moves) : List (Access UInt8) := moves.filterMap accessOf

theorem requestAt_of_laid {q : Queue} {g : Guest} {r : Request} (hp : q.Placed g)
    (h : r.Laid q g) : requestAt q g.bytes r.head = some r := by
  have hwalk := h.chain.walk_eq (h.chain.length_le.trans hp.size_le)
  unfold requestAt
  rw [hwalk]
  simp

def ValidTraffic (size : Nat) (moves : Moves) : Prop :=
  ∀ move ∈ moves, ∀ head q, Serves move head q →
    ∃ r : Request, r.head = head ∧ r.WellFormed q move.source.guest size

section Disk

variable {fuel size : Nat} {start s : State} {moves : Moves}

def Sound (size : Nat) (s : State) : Prop :=
  s.blk.file.fail = false ∧ s.blk.file.contents.length = size

theorem move_access (move : Move State Action) (hfuel : queueSizeMax.toNat ≤ fuel)
    (hsize : size < 2 ^ 63) {r : Request} {q : Queue}
    (hstep : Step fuel move.source move.label move.target)
    (hserves : Serves move r.head q) (hwf : r.WellFormed q move.source.guest size)
    (hsound : Sound size move.source) :
    Sound size move.target ∧
      accessOf move = some (r.access move.source.guest.bytes) ∧
      move.target.blk.file.contents =
        (r.access move.source.guest.bytes).apply move.source.blk.file.contents ∧
      gather move.target.guest.bytes (spans r.data) =
        (r.access move.source.guest.bytes).result move.source.blk.file.contents ∧
      move.target.guest.bytes r.st.addr = blkSOk := by
  obtain ⟨⟨o, hl⟩, htakes⟩ := hserves
  obtain ⟨len, idx, raised, b', g', hround, hcontents, hok, hgather, hst⟩ :=
    runOnce_access hfuel htakes hwf hsound.1 hsound.2 hsize
  rw [hl] at hstep
  obtain ⟨rfl, htarget⟩ := round_unique hstep hround
  have hfits : (r.access move.source.guest.bytes).Fits move.source.blk.file.contents.length := by
    rw [hsound.2]
    exact hwf.fits
  rw [htarget]
  refine ⟨⟨hok, ?_⟩, ?_, hcontents, hgather, hst⟩
  · change b'.file.contents.length = size
    rw [hcontents, Access.length_apply hfits, hsound.2]
  · obtain ⟨q₀, hsel, hnext⟩ := htakes
    have hq : q = { q₀ with lastAvail := q₀.lastAvail + 1 } := (Queue.next_takes hnext).2.1
    have hrequest := requestAt_of_laid hwf.placed hwf.laid
    have hwalk : requestAt q₀ move.source.guest.bytes r.head = some r := by
      rw [← hrequest]
      unfold requestAt
      rw [Queue.walk_congr (show q.descAddr = q₀.descAddr by rw [hq])]
    unfold accessOf
    rw [hl, hsel]
    simp only [hwalk, Option.map_some]

theorem move_other (move : Move State Action)
    (hstep : Step fuel move.source move.label move.target)
    (h : ∀ head q, ¬ Serves move head q) :
    move.target.blk.file = move.source.blk.file ∧ accessOf move = none := by
  obtain ⟨-, hused, hfile⟩ := idle_of_not_serves hstep h
  refine ⟨hfile, ?_⟩
  unfold accessOf
  split
  next hl _ =>
    rw [hl] at hused
    contradiction
  next => rfl

theorem run_disk (hfuel : queueSizeMax.toNat ≤ fuel) (hsize : size < 2 ^ 63)
    (run : Run (Step fuel) start moves s) (hstart : Sound size start)
    (hvalid : ValidTraffic size moves) :
    Sound size s ∧
      s.blk.file.contents = replay start.blk.file.contents (accesses moves) := by
  induction run with
  | nil => exact ⟨hstart, rfl⟩
  | @snoc moves s s' l _ hmove ih =>
    obtain ⟨hsound, hdisk⟩ := ih fun move hmem => hvalid move (List.mem_append_left _ hmem)
    have happend : accesses (moves ++ [⟨s, l, s'⟩]) =
        accesses moves ++ (accessOf ⟨s, l, s'⟩).toList := by
      unfold accesses
      rw [List.filterMap_append]
      congr 1
    rw [happend, replay_append, ← hdisk]
    by_cases hserves : ∃ head q, Serves ⟨s, l, s'⟩ head q
    · obtain ⟨head, q, hserves⟩ := hserves
      obtain ⟨r, rfl, hwf⟩ := hvalid _ (List.mem_append_right _ (List.mem_singleton_self _))
        head q hserves
      obtain ⟨hsound', haccess, hcontents, -⟩ :=
        move_access ⟨s, l, s'⟩ hfuel hsize hmove hserves hwf hsound
      rw [haccess]
      exact ⟨hsound', hcontents⟩
    · push Not at hserves
      obtain ⟨hfile, haccess⟩ := move_other ⟨s, l, s'⟩ hmove hserves
      change s'.blk.file = s.blk.file at hfile
      rw [haccess]
      unfold Sound
      rw [hfile]
      exact ⟨hsound, rfl⟩

end Disk

section Counter

variable {fuel : Nat} {start s : State} {moves : Moves}

theorem queueIndex_of_selected {d : Device blkType} {q : Queue} (h : d.selected = .ok q) :
    d.queueIndex = 0 := by
  obtain ⟨hi, -⟩ := Device.q_eq_ok h
  have hone : blkType.queueCount = 1 := rfl
  rw [← UInt32.toNat_inj, UInt32.toNat_zero]
  omega

def Counts (n : Nat) (s : State) : Prop :=
  ∀ q, s.blk.dev.q 0 = .ok q → q.lastAvail = UInt32.ofNat n

theorem run_counts (run : Run (Step fuel) start moves s) (hstart : Counts 0 start) :
    Counts (takenHeads moves).length s := by
  induction run with
  | nil => exact hstart
  | @snoc moves s s' l _ hmove ih =>
    have hlength : (takenHeads (moves ++ [⟨s, l, s'⟩])).length =
        (takenHeads moves).length + (takenHead l).toList.length := by
      unfold takenHeads
      rw [List.filterMap_append, List.length_append]
      rfl
    rw [hlength]
    cases hmove with
    | memory => exact ih
    | register hwrite =>
      intro q hq
      obtain ⟨value, -, hwrite⟩ := bind_eq_ok.mp hwrite
      obtain ⟨old, hold, hlast⟩ := Device.writeRegister_lastAvail hwrite hq
      exact hlast.trans (ih old hold)
    | round hround =>
      rcases runOnce_cases hround with ⟨rfl, -, q₀, q, hsel, hnext, rfl⟩ |
        ⟨head, q, ⟨q₀, hsel, hnext⟩, -, rfl, -, rfl⟩ |
        ⟨head, q, _, _, _, _, _, _, ⟨q₀, hsel, hnext⟩, -, -, -, -, rfl, rfl⟩
      · intro q' hq'
        have hzero := queueIndex_of_selected hsel
        unfold Device.selected at hsel
        rw [Device.q_setQ hsel, hzero, if_pos rfl, Queue.next_idle hnext] at hq'
        cases hq'
        rw [hzero] at hsel
        exact ih _ hsel
      all_goals
        intro q' hq'
        have hzero := queueIndex_of_selected hsel
        unfold Device.selected at hsel
        change (s.blk.dev.setQ s.blk.dev.queueIndex q).q 0 = .ok q' at hq'
        rw [Device.q_setQ hsel, hzero, if_pos rfl, (Queue.next_takes hnext).2.1] at hq'
        cases hq'
        rw [hzero] at hsel
        change q₀.lastAvail + 1 = UInt32.ofNat ((takenHeads moves).length + 1)
        rw [ih _ hsel, UInt32.ofNat_add]
        rfl

theorem takes_published {q : Queue} {head : UInt16} {n : Nat} (hcounts : Counts n s)
    (hsel : s.blk.dev.selected = .ok q) (hp : q.Placed s.guest) (hready : q.ready = true)
    (hidx : n < (load16 s.guest.bytes q.availIdxAddr).toNat)
    (hslot : load16 s.guest.bytes (q.availSlot (UInt32.ofNat n % q.size)) = head)
    (hhead : head.toNat < q.size.toNat) :
    Takes s.blk s.guest head { q with lastAvail := q.lastAvail + 1 } := by
  have hle := hp.size_le
  rw [Queue.queueSizeMax_toNat] at hle
  have hlast : q.lastAvail = UInt32.ofNat n := by
    apply hcounts
    have h := hsel
    unfold Device.selected at h
    rwa [queueIndex_of_selected hsel] at h
  have hsmall := (load16 s.guest.bytes q.availIdxAddr).toNat_lt
  have hn : q.lastAvail.toNat = n := by
    rw [hlast, UInt32.toNat_ofNat', Nat.mod_eq_of_lt (by omega)]
  rw [← hlast] at hslot
  have hnext := Queue.next_some hp hready (by omega) (by rw [hslot]; omega)
  rw [hslot] at hnext
  exact ⟨q, hsel, hnext⟩

end Counter

theorem sample_proper {type : UInt32} {sector : UInt64}
    (hkind : sampleRequest.type (sampleMemory type sector) = blkTIn ∨
      sampleRequest.type (sampleMemory type sector) = blkTOut) :
    sampleRequest.Proper sampleTaken (sampleMachine type sector).guest where
  placed := sampleTaken_placed type sector
  event := sample_holds type sector (by decide)
  laid := sample_laid type sector
  kind := hkind
  data_apart := List.pairwise_singleton _ _
  data_used := by
    intro span hspan
    rw [List.mem_singleton.mp hspan]
    exact (Span.apart_of_le (by decide) (by decide)).symm
  data_st := by
    intro span hspan
    rw [List.mem_singleton.mp hspan]
    exact Span.apart_of_le (by decide) (by decide)
  st_used := (Span.apart_of_le (by decide) (by decide)).symm

/-- After every request of a run the image is the flat disk after the accesses
so far, the buffers hold what the flat disk returns and the status is `OK`; and
the next published request is served. -/
theorem refines_flat_disk {fuel : Nat} {start s : State} {moves : Moves}
    (hfuel : queueSizeMax.toNat ≤ fuel) (run : Run (Step fuel) start moves s)
    (hfail : start.blk.file.fail = false)
    (hsize : start.blk.file.contents.length < 2 ^ 63) (hcounts : Counts 0 start)
    (hvalid : ValidTraffic start.blk.file.contents.length moves) :
    s.blk.file.contents = replay start.blk.file.contents (accesses moves) ∧
    (∀ pre move post, moves = pre ++ move :: post → ∀ (r : Request) q,
      Serves move r.head q → r.Laid q move.source.guest →
      let disk := replay start.blk.file.contents (accesses pre)
      let access := r.access move.source.guest.bytes
      move.target.blk.file.contents = access.apply disk ∧
        gather move.target.guest.bytes (spans r.data) = access.result disk ∧
        move.target.guest.bytes r.st.addr = blkSOk) ∧
    ∀ (q : Queue) (r : Request), s.blk.dev.selected = .ok q → q.ready = true →
      r.WellFormed { q with lastAvail := q.lastAvail + 1 } s.guest
        start.blk.file.contents.length →
      (takenHeads moves).length < (load16 s.guest.bytes q.availIdxAddr).toNat →
      load16 s.guest.bytes
        (q.availSlot (UInt32.ofNat (takenHeads moves).length % q.size)) = r.head →
      ∃ o b g, runOnce fuel s.blk s.guest = .ok (o, b, g) ∧
        takenHead (.round o) = some r.head := by
  obtain ⟨hsound, hdisk⟩ := run_disk hfuel hsize run ⟨hfail, rfl⟩ hvalid
  refine ⟨hdisk, ?_, ?_⟩
  · intro pre move post hmoves r q hserves hlaid
    have hmem : move ∈ moves := by simp [hmoves]
    have hpre : ValidTraffic start.blk.file.contents.length pre := by
      intro m hm
      exact hvalid m (by simp [hmoves, hm])
    obtain ⟨hsound', hdisk'⟩ := run_disk hfuel hsize (run.before hmoves) ⟨hfail, rfl⟩ hpre
    obtain ⟨r', hhead, hwf⟩ := hvalid move hmem r.head q hserves
    have hrequest := requestAt_of_laid hwf.placed hwf.laid
    rw [hhead, requestAt_of_laid hwf.placed hlaid] at hrequest
    cases hrequest
    obtain ⟨-, -, hcontents, hgather, hst⟩ :=
      move_access move hfuel hsize (run.step_of_mem move hmem) hserves hwf hsound'
    rw [hdisk'] at hcontents hgather
    exact ⟨hcontents, hgather, hst⟩
  · intro q r hsel hready hwf hidx hslot
    have hp : q.Placed s.guest := hwf.placed.congr rfl rfl rfl rfl rfl
    have htakes := takes_published (run_counts run hcounts) hsel hp hready hidx hslot
      hwf.laid.chain.head_lt
    obtain ⟨len, idx, raised, b, g, hround, -⟩ :=
      runOnce_access hfuel htakes hwf hsound.1 hsound.2 hsize
    exact ⟨_, b, g, hround, rfl⟩

theorem sampleIn_reads : ∃ s moves, Run (Step 512) (sampleMachine 0 0) moves s ∧
    s.blk.file.contents = [1, 2, 3, 4] ∧ load s.guest.bytes 0x5000 4 = [1, 2, 3, 4] := by
  obtain ⟨s, hstep⟩ := sample_round 0 0 512 (o := .answered 0 0 5 1 true) (by decide)
  have hserves : Serves ⟨sampleMachine 0 0, .round (.answered 0 0 5 1 true), s⟩ 0 sampleTaken :=
    ⟨⟨_, rfl⟩, sample_takes 0 0⟩
  have hwf : sampleRequest.WellFormed sampleTaken (sampleMachine 0 0).guest 4 :=
    ⟨sample_proper (by decide), by unfold Request.InRange; decide⟩
  have hvalid : ValidTraffic 4 [⟨sampleMachine 0 0, .round (.answered 0 0 5 1 true), s⟩] := by
    intro move hmem head q h
    rw [List.mem_singleton.mp hmem] at h ⊢
    obtain ⟨rfl, rfl⟩ := h.2.unique hserves.2
    exact ⟨sampleRequest, rfl, hwf⟩
  have hcounts : Counts 0 (sampleMachine 0 0) := by
    intro q hq
    cases hq
    rfl
  obtain ⟨-, hmoves, -⟩ := refines_flat_disk (by decide) (Run.one hstep) rfl (by decide) hcounts
    hvalid
  obtain ⟨hcontents, hgather, -⟩ := hmoves [] _ [] rfl sampleRequest sampleTaken hserves
    (sample_laid 0 0)
  have haccess : sampleRequest.access (sampleMachine 0 0).guest.bytes = .read 0 4 :=
    if_pos (by decide)
  rw [haccess] at hcontents hgather
  refine ⟨s, _, Run.one hstep, hcontents, ?_⟩
  change load s.guest.bytes 0x5000 4 ++ [] = [1, 2, 3, 4] at hgather
  rwa [List.append_nil] at hgather

end BlkMachine

end Kthxvm.Virtio
