import Kthxvm.Virtio.FlatDisk

/-! Requests beyond the capacity. `run` never looks at the state of the stream
and reports `OK` for every read and write. -/
namespace Kthxvm.Virtio.BlkMachine

open Lib.ByteMemory Lib.Transition Lib.Disk Lib.ScatterGather Blk

/-- `config.capacity`, computed once from the size of the file. -/
def capacity (image : List UInt8) : Nat := image.length / 512

/-- The stream after the chain of an answered round was handled with `file`
instead of the stream that the device had. -/
def serveWith (fuel : Nat) (file : FStream) (move : Move State Action) :
    Except Fault FStream :=
  match move.label, move.source.blk.dev.selected with
  | .round (.answered head _ _ _ _), .ok q => do
    match ← handle fuel q file move.source.guest head with
    | some (file, _, _) => return file
    | none => return file
  | _, _ => .ok file

/-- The request of `later` has the effect on disk, data buffers and status that
it has when `file` takes the place of the stream. -/
def SameEffect (fuel : Nat) (file : FStream) (later : Move State Action) (r : Request)
    (q : Queue) : Prop :=
  ∃ file' g' len,
    handle fuel q file later.source.guest r.head = .ok (some (file', g', len)) ∧
    later.target.blk.file.contents = file'.contents ∧
    gather later.target.guest.bytes (spans r.data) = gather g'.bytes (spans r.data) ∧
    later.target.guest.bytes r.st.addr = g'.bytes r.st.addr

/-- Every request beyond the capacity fails, leaves the disk alone, and goes
unnoticed by all later requests. -/
def Isolated (fuel : Nat) (image : List UInt8) (moves : Moves) : Prop :=
  ∀ pre move post, moves = pre ++ move :: post → ∀ (r : Request) q, Serves move r.head q →
    r.Proper q move.source.guest →
    ¬ r.InRange move.source.guest.bytes (capacity image * 512) →
    move.target.guest.bytes r.st.addr ≠ blkSOk ∧
    move.target.blk.file.contents = move.source.blk.file.contents ∧
    ∀ mid later rest, post = mid ++ later :: rest → ∀ (r' : Request) q',
      Serves later r'.head q' → r'.Proper q' later.source.guest →
      ∃ file, mid.foldlM (serveWith fuel) move.source.blk.file = .ok file ∧
        SameEffect fuel file later r' q'

def AllInRange (image : List UInt8) (moves : Moves) : Prop :=
  ∀ move ∈ moves, ∀ (r : Request) q, Serves move r.head q → r.Proper q move.source.guest →
    r.InRange move.source.guest.bytes (capacity image * 512)

theorem status_of_serves {fuel : Nat} (hfuel : queueSizeMax.toNat ≤ fuel)
    (move : Move State Action) {r : Request} {q : Queue}
    (hstep : Step fuel move.source move.label move.target)
    (hserves : Serves move r.head q) (hproper : r.Proper q move.source.guest) :
    move.target.guest.bytes r.st.addr = blkSOk := by
  obtain ⟨⟨o, hl⟩, htakes⟩ := hserves
  obtain ⟨len, idx, raised, b', g', hround, -, -, hst⟩ := runOnce_proper hfuel htakes hproper
  rw [hl] at hstep
  rw [(round_unique hstep hround).2]
  exact hst

/-- Errors are isolated exactly in the runs in which none occurs. -/
theorem isolated_iff_in_range {fuel : Nat} {start s : State} {moves : Moves}
    (hfuel : queueSizeMax.toNat ≤ fuel) (run : Run (Step fuel) start moves s) :
    Isolated fuel start.blk.file.contents moves ↔
      AllInRange start.blk.file.contents moves := by
  constructor
  · intro hisolated move hmem r q hserves hproper
    by_contra hrange
    obtain ⟨pre, post, hmoves⟩ := List.append_of_mem hmem
    obtain ⟨hstatus, -⟩ := hisolated pre move post hmoves r q hserves hproper hrange
    exact hstatus (status_of_serves hfuel move (run.step_of_mem move hmem) hserves hproper)
  · intro hrange pre move post hmoves r q hserves hproper hbeyond
    exact absurd (hrange move (by simp [hmoves]) r q hserves hproper) hbeyond

def oneSector : State where
  blk := { dev := (sampleMachine 0 0).blk.dev, file := { contents := List.replicate 512 7 } }
  guest := (sampleMachine 0 0).guest

theorem oneSector_isolated : ∃ s moves, Run (Step 512) oneSector moves s ∧
    takenHeads moves = [0] ∧ Isolated 512 oneSector.blk.file.contents moves := by
  have htakes : Takes oneSector.blk oneSector.guest 0 sampleTaken := sample_takes 0 0
  obtain ⟨len, idx, raised, b, g, hround, -⟩ :=
    runOnce_proper (r := sampleRequest) (le_refl 512) htakes (sample_proper (by decide))
  have hrun := Run.one (Step.round hround)
  refine ⟨_, _, hrun, rfl, (isolated_iff_in_range (le_refl 512) hrun).mpr ?_⟩
  intro move hmem r q hserves hproper
  rw [List.mem_singleton.mp hmem] at hserves hproper ⊢
  obtain ⟨hhead, rfl⟩ := hserves.2.unique htakes
  have hrequest := requestAt_of_laid hproper.placed hproper.laid
  have hsample : requestAt sampleTaken oneSector.guest.bytes 0 = some sampleRequest :=
    requestAt_of_laid (sampleTaken_placed 0 0) (sample_laid 0 0)
  rw [hhead, hsample] at hrequest
  cases hrequest
  have hcapacity : capacity oneSector.blk.file.contents = 1 := by
    unfold capacity oneSector
    rw [List.length_replicate]
  have hrange : sampleRequest.InRange oneSector.guest.bytes 512 := by
    unfold Request.InRange
    decide
  rw [hcapacity]
  exact hrange

/-- A write at sector `2 ^ 55` is reported as done and lands on sector 0. -/
theorem wrapped_write_lands : ∃ s moves, Run (Step 512) (sampleMachine 1 (2 ^ 55)) moves s ∧
    s.blk.file.contents ≠ (sampleMachine 1 (2 ^ 55)).blk.file.contents ∧
    ¬ Isolated 512 (sampleMachine 1 (2 ^ 55)).blk.file.contents moves := by
  have htakes := sample_takes 1 (2 ^ 55)
  have hproper : sampleRequest.Proper sampleTaken (sampleMachine 1 (2 ^ 55)).guest :=
    sample_proper (by decide)
  obtain ⟨len, idx, raised, b, g, hround, hfile, -, hstatus⟩ :=
    runOnce_proper (r := sampleRequest) (le_refl 512) htakes hproper
  refine ⟨_, _, Run.one (Step.round hround), ?_, ?_⟩
  · change b.file.contents ≠ _
    rw [hfile]
    decide +kernel
  · intro hisolated
    have hserves : Serves ⟨sampleMachine 1 (2 ^ 55), .round (.answered sampleRequest.head
        sampleRequest.head.toUInt32 len idx raised), ⟨b, g⟩⟩ sampleRequest.head sampleTaken :=
      ⟨⟨_, rfl⟩, htakes⟩
    have hbeyond : ¬ sampleRequest.InRange (sampleMachine 1 (2 ^ 55)).guest.bytes
        (capacity (sampleMachine 1 (2 ^ 55)).blk.file.contents * 512) := by
      unfold Request.InRange
      decide
    exact (hisolated [] _ [] rfl sampleRequest sampleTaken hserves hproper hbeyond).1 hstatus

end Kthxvm.Virtio.BlkMachine
