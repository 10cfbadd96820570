import Kthxvm.Lib.Transition
import Kthxvm.Virtio.BlkRequest
import Kthxvm.Virtio.Mmio

/-! The block device with its guest. Between two rounds of the device thread
the driver may write any guest memory and any register. -/
namespace Kthxvm.Virtio.BlkMachine

open Lib.ByteMemory Lib.Transition Blk

structure State where
  blk : Blk
  guest : Guest

inductive Action where
  | memory (bytes : Memory)
  | register (data : List UInt8) (offset : UInt64) (size : UInt32)
  | round (outcome : Blk.Outcome)

inductive Step (fuel : Nat) : State → Action → State → Prop where
  | memory (s : State) (bytes : Memory) :
      Step fuel s (.memory bytes) ⟨s.blk, bytes, s.guest.size⟩
  | register {s : State} {data : List UInt8} {offset : UInt64} {size : UInt32}
      {dev : Device blkType} (h : s.blk.dev.mmioWrite data offset size = .ok dev) :
      Step fuel s (.register data offset size) ⟨⟨dev, s.blk.file⟩, s.guest⟩
  | round {s : State} {o : Blk.Outcome} {b : Blk} {g : Guest}
      (h : Blk.runOnce fuel s.blk s.guest = .ok (o, b, g)) : Step fuel s (.round o) ⟨b, g⟩

abbrev Moves := List (Move State Action)

def takenHead : Action → Option UInt16
  | .round (.dropped head) => some head
  | .round (.answered head _ _ _ _) => some head
  | _ => none

def takenHeads (moves : Moves) : List UInt16 := moves.filterMap fun move => takenHead move.label

def usedId : Action → Option UInt32
  | .round (.answered _ id _ _ _) => some id
  | _ => none

def usedIds (moves : Moves) : List UInt32 := moves.filterMap fun move => usedId move.label

def Serves (move : Move State Action) (head : UInt16) (q : Queue) : Prop :=
  (∃ o, move.label = .round o) ∧ Blk.Takes move.source.blk move.source.guest head q

theorem round_unique {fuel : Nat} {s s' : State} {o o' : Blk.Outcome} {b : Blk} {g : Guest}
    (hstep : Step fuel s (.round o) s')
    (h : Blk.runOnce fuel s.blk s.guest = .ok (o', b, g)) : o = o' ∧ s' = ⟨b, g⟩ := by
  cases hstep with
  | round h' =>
    rw [h'] at h
    cases h
    exact ⟨rfl, rfl⟩

theorem idle_of_not_serves {fuel : Nat} {move : Move State Action}
    (hstep : Step fuel move.source move.label move.target)
    (h : ∀ head q, ¬ Serves move head q) :
    takenHead move.label = none ∧ usedId move.label = none ∧
      move.target.blk.file = move.source.blk.file := by
  obtain ⟨s, l, s'⟩ := move
  change Step fuel s l s' at hstep
  cases hstep with
  | memory => exact ⟨rfl, rfl, rfl⟩
  | register => exact ⟨rfl, rfl, rfl⟩
  | round hround =>
    rcases runOnce_cases hround with ⟨rfl, -, q₀, q, -, -, rfl⟩ | ⟨head, q, htakes, -⟩ |
      ⟨head, q, _, _, _, _, _, _, htakes, -⟩
    · exact ⟨rfl, rfl, rfl⟩
    · exact absurd ⟨⟨_, rfl⟩, htakes⟩ (h head q)
    · exact absurd ⟨⟨_, rfl⟩, htakes⟩ (h head q)

/-! A small machine with one published request: header, four data bytes and a
status byte, on a disk of four bytes. -/

def Descriptor.bytes (d : Descriptor) : List UInt8 :=
  bytesOfNat 8 d.addr.toNat ++ bytesOfNat 4 d.len.toNat ++ bytesOfNat 2 d.flags.toNat ++
    bytesOfNat 2 d.next.toNat

def sampleMemory (type : UInt32) (sector : UInt64) : Memory :=
  image [(0x1000, Descriptor.bytes ⟨0x4000, 16, 1, 1⟩ ++ Descriptor.bytes ⟨0x5000, 4, 3, 2⟩ ++
      Descriptor.bytes ⟨0x6000, 1, 2, 0⟩),
    (0x2002, [1]), (0x4000, bytesOfNat 4 type.toNat), (0x4008, bytesOfNat 8 sector.toNat),
    (0x6000, [0xff])]

def sampleMachine (type : UInt32) (sector : UInt64) : State where
  blk :=
    { dev := { irq := { number := 12 }, queues := #v[sampleQueue], config := [] }
      file := { contents := [1, 2, 3, 4] } }
  guest := ⟨sampleMemory type sector, 0x8000⟩

def sampleTaken : Queue := { sampleQueue with lastAvail := 1 }

def sampleRequest : Request where
  head := 0
  hdr := ⟨0x4000, 16, 1, 1⟩
  data := [⟨0x5000, 4, 3, 2⟩]
  st := ⟨0x6000, 1, 2, 0⟩

section Sample

variable (type : UInt32) (sector : UInt64)

theorem sampleMemory_agree :
    AgreeOn ⟨0x1000, 0x3000⟩ (sampleMemory 0 0) (sampleMemory type sector) := by
  have hrings : ∀ type sector, AgreeOn ⟨0x1000, 0x3000⟩
      (image [(0x1000, Descriptor.bytes ⟨0x4000, 16, 1, 1⟩ ++
        Descriptor.bytes ⟨0x5000, 4, 3, 2⟩ ++ Descriptor.bytes ⟨0x6000, 1, 2, 0⟩),
        (0x2002, [1])]) (sampleMemory type sector) := by
    intro type sector
    apply AgreeOn.store
    · apply AgreeOn.store
      · apply AgreeOn.store (AgreeOn.refl _ _)
        apply Span.apart_of_le <;> simp
      · apply Span.apart_of_le <;> simp
    · apply Span.apart_of_le <;> simp
  exact (hrings 0 0).symm.trans (hrings type sector)

theorem sample_holds {addr : UInt64} {n : Nat} (h : addr.toNat + n ≤ 0x8000) :
    (sampleMachine type sector).guest.Holds addr n :=
  Or.inr h

theorem sampleTaken_placed : sampleTaken.Placed (sampleMachine type sector).guest :=
  (sampleQueue_placed (le_refl 0x8000)).congr rfl rfl rfl rfl rfl

theorem sample_takes :
    Takes (sampleMachine type sector).blk (sampleMachine type sector).guest 0 sampleTaken := by
  have hp : sampleQueue.Placed (sampleMachine type sector).guest :=
    sampleQueue_placed (le_refl 0x8000)
  have hagree := sampleMemory_agree type sector
  have hidx : load16 (sampleMachine type sector).guest.bytes sampleQueue.availIdxAddr = 1 :=
    (hagree.mono (Span.within_of_offset (k := 0x1002) (by simp))).load16_eq.symm
  have hslot : load16 (sampleMachine type sector).guest.bytes
      (sampleQueue.availSlot (sampleQueue.lastAvail % sampleQueue.size)) = 0 :=
    (hagree.mono (Span.within_of_offset (k := 0x1004) (by simp))).load16_eq.symm
  have hnext := Queue.next_some hp rfl (by rw [hidx]; decide) (by rw [hslot]; decide)
  rw [hslot] at hnext
  exact ⟨sampleQueue, rfl, hnext⟩

theorem sample_entry {i : UInt16} (hi : i.toNat < 4) :
    sampleTaken.entry (sampleMachine type sector).guest.bytes i =
      sampleTaken.entry (sampleMemory 0 0) i := by
  have htable : Span.Within sampleTaken.tableSpan ⟨0x1000, 0x3000⟩ :=
    Span.within_of_le (by decide)
  exact (Queue.entry_congr hi ((sampleMemory_agree type sector).mono htable)).symm

theorem sample_chain : sampleTaken.Chain (sampleMachine type sector).guest.bytes
    sampleRequest.head sampleRequest.chain := by
  have h0 := sample_entry type sector (i := 0) (by decide)
  have h1 := sample_entry type sector (i := 1) (by decide)
  have h2 := sample_entry type sector (i := 2) (by decide)
  refine ⟨by decide, h0.trans (by decide), rfl, by decide, h1.trans (by decide), rfl,
    by decide, h2.trans (by decide), rfl⟩

theorem sample_laid : sampleRequest.Laid sampleTaken (sampleMachine type sector).guest where
  chain := sample_chain type sector
  hdr_held := sample_holds type sector (by decide)
  data_held := by
    intro d hd
    rw [List.mem_singleton.mp hd]
    exact sample_holds type sector (by decide)
  data_entries := by
    intro _ d hd i hi
    rw [List.mem_singleton.mp hd]
    have hindex := (sample_chain type sector).index_lt i hi
    have htable : sampleTaken.tableSpan.Apart ⟨0x5000, 4⟩ :=
      Span.apart_of_le (by decide) (by decide)
    exact htable.mono (Queue.descEntry_within hindex) (Span.Within.refl _)
  st_held := sample_holds type sector (by decide)

theorem sample_runOnce (fuel : Nat) {o : Outcome}
    (h : (runOnce fuel (sampleMachine type sector).blk (sampleMachine type sector).guest).map
      (fun result => result.1) = .ok o) :
    ∃ b g, runOnce fuel (sampleMachine type sector).blk (sampleMachine type sector).guest =
      .ok (o, b, g) := by
  obtain ⟨⟨_, b, g⟩, hround, rfl⟩ := map_eq_ok.mp h
  exact ⟨b, g, hround⟩

theorem sample_round (fuel : Nat) {o : Outcome}
    (h : (runOnce fuel (sampleMachine type sector).blk (sampleMachine type sector).guest).map
      (fun result => result.1) = .ok o) :
    ∃ s, Step fuel (sampleMachine type sector) (.round o) s := by
  obtain ⟨b, g, hround⟩ := sample_runOnce type sector fuel h
  exact ⟨⟨b, g⟩, Step.round hround⟩

end Sample

end Kthxvm.Virtio.BlkMachine
