import Kthxvm.Lib.Disk
import Kthxvm.Lib.Transition
import Kthxvm.Virtio.Mmio

/-! The configuration space of a device: bytes behind `VIRTIO_MMIO_CONFIG` that accesses of
any width read and write, and a counter of the writes. -/
namespace Kthxvm.Virtio

open Lib.Disk Lib.Transition

namespace Device

variable {t : DeviceType} (d : Device t)

def configPos (offset : UInt64) : Nat := (offset - 0x100).toNat

structure InConfig (offset : UInt64) (size : UInt32) : Prop where
  config : 0x100 ≤ offset
  window : offset < 0x1000
  wide : 0 < size.toNat
  narrow : size.toNat ≤ 8

def Fits (offset : UInt64) (size : UInt32) : Prop :=
  configPos offset + size.toNat ≤ d.config.length

instance (offset : UInt64) (size : UInt32) : Decidable (d.Fits offset size) :=
  inferInstanceAs (Decidable (_ ≤ _))

def stored (offset : UInt64) (bytes : List UInt8) : Device t :=
  { d with config := splice d.config (configPos offset) bytes, generation := d.generation + 1 }

section Access

variable {d} {offset : UInt64} {size : UInt32} (ht : t.hasConfig) (h : InConfig offset size)

include h

theorem InConfig.pos_lt : configPos offset + size.toNat < 2 ^ 64 := by
  have hoffset := offset.toNat_lt
  have hlow : 0x100 ≤ offset.toNat := UInt64.le_iff_toNat_le.mp h.config
  have hsub : configPos offset = offset.toNat - 0x100 := UInt64.toNat_sub_of_le _ _ h.config
  have hnarrow := h.narrow
  omega

include ht

theorem mmioRead_inConfig : d.mmioRead offset size = .ok
    (if d.Fits offset size then slice d.config (configPos offset) size.toNat
      else List.replicate size.toNat 0) := by
  unfold mmioRead
  rw [Register.ofOffset_of_config h.config]
  refine (d.readConfig_eq h.pos_lt).trans ?_
  simp only [ht, true_and]
  rfl

theorem mmioWrite_inConfig {data : List UInt8} (hdata : data.length = 8) :
    d.mmioWrite data offset size = .ok
      (if d.Fits offset size then d.stored offset (data.take size.toNat) else d) := by
  have hnarrow := h.narrow
  have hlen : (data.take size.toNat).length = size.toNat := List.length_take_of_le (by omega)
  have hsum : (offset - 0x100 + size.toUInt64).toNat = configPos offset + size.toNat := by
    rw [UInt64.toNat_add, UInt32.toNat_toUInt64]
    exact Nat.mod_eq_of_lt h.pos_lt
  unfold mmioWrite getWord
  rw [if_neg (by omega), ok_bind, Register.ofOffset_of_config h.config]
  unfold writeRegister writeConfig configRejects
  dsimp only
  rw [hsum]
  by_cases hfits : d.Fits offset size
  · have hle : configPos offset + size.toNat ≤ d.config.length := hfits
    have hsplice := splice_of_le d.config (data.take size.toNat)
      (show configPos offset ≤ d.config.length by omega)
    rw [hlen] at hsplice
    rw [if_neg (by simp [ht, hle]), if_pos hfits]
    unfold stored
    rw [hsplice]
    exact if_pos ⟨hle, by omega⟩
  · have hlt : d.config.length < configPos offset + size.toNat := Nat.lt_of_not_le hfits
    rw [if_pos (by simp [hlt]), if_neg hfits]

end Access

theorem writeRegister_keeps_config {d d' : Device t} {register : Register} {value : UInt32}
    {data : List UInt8} {size : UInt32} (hother : ∀ offset, register ≠ .config offset)
    (h : d.writeRegister register value data size = .ok d') :
    d'.config = d.config ∧ d'.generation = d.generation := by
  have hset : ∀ (index : UInt32) (queue : Queue),
      (d.setQ index queue).config = d.config ∧
        (d.setQ index queue).generation = d.generation :=
    fun index queue => ⟨d.setQ_config index queue, d.setQ_generation index queue⟩
  cases register
  case config offset => exact absurd rfl (hother offset)
  case queueNotify =>
    obtain ⟨queue, -, h⟩ := bind_eq_ok.mp h
    cases h
    exact hset value _
  case queueNum | queueReady | queueDescLow | queueDescHigh | queueAvailLow | queueAvailHigh
      | queueUsedLow | queueUsedHigh =>
    obtain ⟨queue, -, rfl⟩ := updateSelected_ok h
    exact hset d.queueIndex _
  case interruptAck =>
    unfold writeRegister at h
    dsimp only at h
    split at h
    all_goals
      cases h
      exact ⟨rfl, rfl⟩
  all_goals
    cases h
    exact ⟨rfl, rfl⟩

theorem mmioWrite_keeps_config {d d' : Device t} {offset : UInt64} {size : UInt32}
    {data : List UInt8} (hlow : ¬ 0x100 ≤ offset) (h : d.mmioWrite data offset size = .ok d') :
    d'.config = d.config ∧ d'.generation = d.generation := by
  obtain ⟨value, -, h⟩ := bind_eq_ok.mp h
  exact writeRegister_keeps_config (fun o ho => hlow (Register.ofOffset_config ho).2) h

end Device

namespace ConfigSpace

open Device

inductive Event where
  | read (offset : UInt64) (size : UInt32) (buf : List UInt8)
  /-- the eight bytes of `kvm_run->mmio.data`, of which `size` are sent -/
  | write (offset : UInt64) (size : UInt32) (data : Vector UInt8 8)
  | other
deriving DecidableEq

variable {t : DeviceType}

/-- Accesses to the configuration space, writes of the registers below it, and whatever does
not touch it, such as the thread of the device. -/
inductive Step : Device t → Event → Device t → Prop where
  | read {d : Device t} {offset : UInt64} {size : UInt32} {buf : List UInt8}
      (h : InConfig offset size) (hread : d.mmioRead offset size = .ok buf) :
      Step d (.read offset size buf) d
  | write {d d' : Device t} {offset : UInt64} {size : UInt32} {data : Vector UInt8 8}
      (h : InConfig offset size) (hwrite : d.mmioWrite data.toList offset size = .ok d') :
      Step d (.write offset size data) d'
  | register {d d' : Device t} {offset : UInt64} {size : UInt32} {data : List UInt8}
      (h : ¬ 0x100 ≤ offset) (hwrite : d.mmioWrite data offset size = .ok d') : Step d .other d'
  | other {d d' : Device t} (hconfig : d'.config = d.config)
      (hgeneration : d'.generation = d.generation) : Step d .other d'

def writtenAt (i : Nat) (move : Move (Device t) Event) : Option UInt8 :=
  match move.label with
  | .write offset size data =>
    if move.source.Fits offset size ∧ configPos offset ≤ i ∧ i < configPos offset + size.toNat then
      data.toList[i - configPos offset]?
    else none
  | _ => none

def latest (start : Device t) (moves : List (Move (Device t) Event)) (i : Nat) : UInt8 :=
  (moves.filterMap (writtenAt i)).getLast?.getD (start.config.getD i 0)

def isWrite (move : Move (Device t) Event) : Bool :=
  match move.label with
  | .write _ _ _ => true
  | _ => false

def accepted (move : Move (Device t) Event) : Nat :=
  match move.label with
  | .write offset size _ => if move.source.Fits offset size then 1 else 0
  | _ => 0

structure Advances (d : Device t) (e : Event) (d' : Device t) : Prop where
  length : d'.config.length = d.config.length
  byte : ∀ i, d'.config.getD i 0 = (writtenAt i ⟨d, e, d'⟩).getD (d.config.getD i 0)
  generation : d'.generation = d.generation + UInt32.ofNat (accepted ⟨d, e, d'⟩)
  changed : d'.config ≠ d.config → accepted ⟨d, e, d'⟩ = 1

theorem advances_of_same {d d' : Device t} {e : Event} (hconfig : d'.config = d.config)
    (hgeneration : d'.generation = d.generation) (hwritten : ∀ i, writtenAt i ⟨d, e, d'⟩ = none)
    (haccepted : accepted ⟨d, e, d'⟩ = 0) : Advances d e d' where
  length := congrArg List.length hconfig
  byte := by
    intro i
    rw [hwritten, hconfig]
    rfl
  generation := by
    rw [haccepted, hgeneration]
    exact (add_zero _).symm
  changed := fun hne => absurd hconfig hne

theorem stored_advances {d : Device t} {offset : UInt64} {size : UInt32} {data : Vector UInt8 8}
    (hnarrow : size.toNat ≤ 8) (hfits : d.Fits offset size) :
    Advances d (.write offset size data) (d.stored offset (data.toList.take size.toNat)) := by
  have hlen : (data.toList.take size.toNat).length = size.toNat :=
    List.length_take_of_le (by rw [Vector.length_toList]; exact hnarrow)
  have hle : configPos offset + (data.toList.take size.toNat).length ≤ d.config.length := by
    rw [hlen]
    exact hfits
  constructor
  case length => exact length_splice d.config _ hle
  case byte =>
    intro i
    have hbyte := getElem?_splice hle i
    rw [hlen] at hbyte
    unfold writtenAt stored
    dsimp only
    rw [List.getD_eq_getElem?_getD, hbyte]
    by_cases hin : configPos offset ≤ i ∧ i < configPos offset + size.toNat
    · have htake : (data.toList.take size.toNat)[i - configPos offset]? =
          data.toList[i - configPos offset]? := List.getElem?_take_of_lt (by omega)
      have hsome : i - configPos offset < data.toList.length := by
        rw [Vector.length_toList]
        omega
      rw [if_pos hin, if_pos ⟨hfits, hin⟩, htake, List.getElem?_eq_getElem hsome]
      rfl
    · rw [if_neg hin, if_neg fun h => hin h.2, ← List.getD_eq_getElem?_getD]
      rfl
  case generation =>
    unfold accepted
    dsimp only
    rw [if_pos hfits]
    rfl
  case changed =>
    intro _
    exact if_pos hfits

theorem step_advances (ht : t.hasConfig) {d d' : Device t} {e : Event} (hs : Step d e d') :
    Advances d e d' := by
  cases hs with
  | read => exact advances_of_same rfl rfl (fun _ => rfl) rfl
  | register h hwrite =>
    obtain ⟨hconfig, hgeneration⟩ := mmioWrite_keeps_config h hwrite
    exact advances_of_same hconfig hgeneration (fun _ => rfl) rfl
  | other hconfig hgeneration =>
    exact advances_of_same hconfig hgeneration (fun _ => rfl) rfl
  | @write _ offset size data h hwrite =>
    rw [mmioWrite_inConfig ht h data.length_toList] at hwrite
    cases hwrite
    split
    next hfits => exact stored_advances h.narrow hfits
    next hfits =>
      apply advances_of_same rfl rfl
      · intro i
        exact if_neg fun hin => hfits hin.1
      · exact if_neg hfits

section Runs

variable {start d mid : Device t} {moves after : List (Move (Device t) Event)}

theorem length_run (ht : t.hasConfig) (run : Run Step start moves d) :
    d.config.length = start.config.length :=
  run.invariant (I := fun d => d.config.length = start.config.length) rfl
    fun _ _ _ hlen hs => (step_advances ht hs).length.trans hlen

theorem latest_run (ht : t.hasConfig) (run : Run Step start moves d) (i : Nat) :
    d.config.getD i 0 = latest start moves i :=
  run.latest (fun d => d.config.getD i 0) (writtenAt i) fun move hmem =>
    (step_advances ht (run.step_of_mem move hmem)).byte i

theorem generation_run (ht : t.hasConfig) (run : Run Step start moves d) :
    d.generation = start.generation + UInt32.ofNat (moves.map accepted).sum := by
  induction run with
  | nil => exact (add_zero _).symm
  | @snoc moves s s' e run hs ih =>
    rw [(step_advances ht hs).generation, ih, List.map_append, List.sum_append, add_assoc,
      ← UInt32.ofNat_add]
    rfl

theorem accepted_le (moves : List (Move (Device t) Event)) :
    (moves.map accepted).sum ≤ (moves.filter isWrite).length := by
  induction moves with
  | nil => exact Nat.le_refl 0
  | cons move moves ih =>
    rw [List.map_cons, List.sum_cons]
    cases hlabel : move.label with
    | write offset size data =>
      have hwrite : isWrite move = true := by rw [isWrite, hlabel]
      have hone : accepted move ≤ 1 := by
        rw [accepted, hlabel]
        dsimp only
        split <;> decide
      rw [List.filter_cons_of_pos hwrite, List.length_cons]
      omega
    | read | other =>
      have hread : ¬ isWrite move = true := by
        rw [isWrite, hlabel]
        exact Bool.false_ne_true
      have hnone : accepted move = 0 := by rw [accepted, hlabel]
      rw [List.filter_cons_of_neg hread, hnone, Nat.zero_add]
      exact ih

/-- Fewer than 2^32 writes do not bring the generation back once a byte has changed. -/
theorem generation_ne (ht : t.hasConfig) (run : Run Step mid after d)
    (hchanged : ∃ move ∈ after, move.target.config ≠ move.source.config)
    (hfew : (after.filter isWrite).length < 2 ^ 32) : mid.generation ≠ d.generation := by
  obtain ⟨move, hmem, hne⟩ := hchanged
  have hone := (step_advances ht (run.step_of_mem move hmem)).changed hne
  have hpos : 1 ≤ (after.map accepted).sum := by
    rw [← hone]
    exact List.single_le_sum (fun x _ => Nat.zero_le x) _ (List.mem_map_of_mem hmem)
  have hle := accepted_le after
  intro heq
  have hsum := generation_run ht run
  rw [← heq, left_eq_add] at hsum
  have hzero := congrArg UInt32.toNat hsum
  rw [UInt32.toNat_ofNat', Nat.mod_eq_of_lt (by omega)] at hzero
  have hnil : (0 : UInt32).toNat = 0 := rfl
  omega

/-- The structure as a memory of `start.config.length` bytes. -/
structure Bounded (start : Device t) (moves : List (Move (Device t) Event)) (d : Device t) :
    Prop where
  /-- A read inside returns what was written last, byte by byte. -/
  read_inside : ∀ offset size, InConfig offset size →
    configPos offset + size.toNat ≤ start.config.length →
    ∃ buf, d.mmioRead offset size = .ok buf ∧ buf.length = size.toNat ∧
      ∀ k < size.toNat, buf[k]? = some (latest start moves (configPos offset + k))
  read_past : ∀ offset size, InConfig offset size →
    start.config.length < configPos offset + size.toNat →
    d.mmioRead offset size = .ok (List.replicate size.toNat 0)
  /-- No write leaves the structure, and one that would changes nothing. -/
  write_inside : ∀ offset size (data : Vector UInt8 8), InConfig offset size →
    configPos offset + size.toNat ≤ start.config.length →
    ∃ d', d.mmioWrite data.toList offset size = .ok d' ∧
      d'.config.length = start.config.length
  write_past : ∀ offset size (data : Vector UInt8 8), InConfig offset size →
    start.config.length < configPos offset + size.toNat →
    d.mmioWrite data.toList offset size = .ok d
  /-- Where a byte has changed, even if it has changed back, the generation differs. -/
  generation : ∀ mid before after, moves = before ++ after → Run Step start before mid →
    Run Step mid after d → (∃ move ∈ after, move.target.config ≠ move.source.config) →
    (after.filter isWrite).length < 2 ^ 32 → mid.configGeneration ≠ d.configGeneration

theorem config_bounded (ht : t.hasConfig) (run : Run Step start moves d) :
    Bounded start moves d := by
  have hlength := length_run ht run
  constructor
  case read_inside =>
    intro offset size h hin
    rw [← hlength] at hin
    have hfits : d.Fits offset size := hin
    refine ⟨slice d.config (configPos offset) size.toNat, ?_, length_slice _ hin, ?_⟩
    · rw [mmioRead_inConfig ht h, if_pos hfits]
    · intro k hk
      have hlt : configPos offset + k < d.config.length := by omega
      rw [getElem?_slice _ hk, ← latest_run ht run, List.getD_eq_getElem _ _ hlt]
      exact List.getElem?_eq_getElem hlt
  case read_past =>
    intro offset size h hpast
    have hout : ¬ d.Fits offset size := Nat.not_le_of_lt (hlength.trans_lt hpast)
    rw [mmioRead_inConfig ht h, if_neg hout]
  case write_inside =>
    intro offset size data h hin
    have hwrite := mmioWrite_inConfig (d := d) ht h data.length_toList
    exact ⟨_, hwrite, length_run ht (run.snoc (Step.write h hwrite))⟩
  case write_past =>
    intro offset size data h hpast
    have hout : ¬ d.Fits offset size := Nat.not_le_of_lt (hlength.trans_lt hpast)
    rw [mmioWrite_inConfig ht h data.length_toList, if_neg hout]
  case generation =>
    intro mid before after _ _ hrun hchanged hfew
    exact generation_ne ht hrun hchanged hfew

end Runs

/-! A disk of 96 blocks whose driver writes and reads overlapping parts of the structure. -/

def smallDisk : Device blkType := Device.fresh blkType { number := 12 } (96 :: List.replicate 59 0)

def overlapping : List Event :=
  [.write 0x102 4 #v[1, 2, 3, 4, 0, 0, 0, 0], .write 0x100 4 #v[5, 6, 7, 8, 0, 0, 0, 0],
    .read 0x100 8 [5, 6, 7, 8, 3, 4, 0, 0]]

theorem overlapping_run :
    ∃ moves d, Run Step smallDisk moves d ∧ moves.map Move.label = overlapping :=
  ⟨_, _, ((Run.one (Step.write ⟨by decide, by decide, by decide, by decide⟩ rfl)).snoc
    (Step.write ⟨by decide, by decide, by decide, by decide⟩ rfl)).snoc
    (Step.read ⟨by decide, by decide, by decide, by decide⟩ rfl), rfl⟩

theorem overlapping_bounded : ∃ moves d, moves.map Move.label = overlapping ∧
    Bounded smallDisk moves d := by
  obtain ⟨moves, d, run, hlabels⟩ := overlapping_run
  exact ⟨moves, d, hlabels, config_bounded rfl run⟩

end ConfigSpace

end Kthxvm.Virtio
