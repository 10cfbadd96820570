import Kthxvm.Device.I8042String
import Kthxvm.Lib.Flags
import Kthxvm.Lib.Transition

/-! Runs of the keyboard controller: reads and writes of the guest, at any offset and in
any order. Every byte that the controller buffers is the only one, and to clear one flag
of the status register it clears them all. -/
namespace Kthxvm.I8042

open IoDevice Lib.Flags Lib.Transition

inductive Access where
  | read (offset : UInt64) (size : UInt32)
  | write (offset : UInt64) (data : List UInt8)
deriving DecidableEq

structure Wired where
  controller : I8042
  irq : Interrupt
deriving DecidableEq

def Wired.serve (s : Wired) (access : Access) : Except Fault (List UInt8 × Wired) :=
  match access with
  | .read offset size => do
    let (buf, k, irq) ← s.controller.read s.irq offset size
    return (buf, ⟨k, irq⟩)
  | .write offset data => do
    let (k, irq) ← s.controller.write s.irq data offset
    return ([], ⟨k, irq⟩)

structure Served where
  access : Access
  reply : List UInt8
deriving DecidableEq

def Step (s : Wired) (l : Served) (s' : Wired) : Prop := s.serve l.access = .ok (l.reply, s')

/-- A controller as its constructor leaves it; the array is not initialised. -/
def fresh (buffer : Vector UInt8 bufSize) : I8042 := { buffer := buffer }

def Start (s : Wired) : Prop := ∃ buffer, s.controller = fresh buffer

/-! What an access does to the controller. -/

def parameter (k : I8042) (b : UInt8) : I8042 :=
  { k with
    control := if k.command = cmdWriteCtr then b else k.control
    outp := if k.command = cmdWriteOutp then b else k.outp
    status := 0 }

def next (k : I8042) (access : Access) : I8042 :=
  match access with
  | .read offset _ => if offset = dataReg then k.pop.2 else k
  | .write offset data =>
    if offset = commandReg then k.writeCommand (data.headD 0)
    else if offset = dataReg then
      if k.status &&& sbI8042CmdData ≠ 0 then k.parameter (data.headD 0) else k.flush.push 0xFA
    else k

theorem firstByte_eq_ok {data : List UInt8} {b : UInt8} (h : firstByte data = .ok b) :
    data.headD 0 = b := by
  cases data with
  | nil => contradiction
  | cons b' data =>
    cases h
    rfl

theorem and_logicalNot (x : UInt8) {bit : UInt8} (h : bit ≠ 0) : x &&& logicalNot bit = 0 := by
  unfold logicalNot
  rw [if_neg h, UInt8.and_zero]

theorem writeParameter_eq_ok {k k' : I8042} {data : List UInt8}
    (h : k.writeParameter data = .ok k') : k' = k.parameter (data.headD 0) := by
  obtain ⟨stored, hstore, h⟩ := bind_eq_ok.mp h
  cases h
  rw [and_logicalNot _ (by decide)]
  unfold storeParameter at hstore
  unfold parameter
  split at hstore
  next hctr =>
    obtain ⟨b, hb, hstore⟩ := bind_eq_ok.mp hstore
    cases hstore
    rw [if_pos hctr, if_neg (by rw [hctr]; decide), firstByte_eq_ok hb]
  next hctr =>
    split at hstore
    next houtp =>
      obtain ⟨b, hb, hstore⟩ := bind_eq_ok.mp hstore
      cases hstore
      rw [if_neg hctr, if_pos houtp, firstByte_eq_ok hb]
    next houtp =>
      cases hstore
      rw [if_neg hctr, if_neg houtp]

theorem step_next {s s' : Wired} {l : Served} (hs : Step s l s') :
    s'.controller = s.controller.next l.access := by
  obtain ⟨access, reply⟩ := l
  cases access with
  | read offset size =>
    obtain ⟨⟨_, _, _⟩, hread, hs⟩ := bind_eq_ok.mp hs
    cases hs
    unfold read at hread
    unfold next
    dsimp only
    split at hread
    next hcommand =>
      obtain ⟨_, -, hread⟩ := bind_eq_ok.mp hread
      cases hread
      rw [if_neg (by rw [hcommand]; decide)]
    next =>
      split at hread
      next hdata =>
        rw [if_pos hdata]
        generalize s.controller.pop = popped at hread ⊢
        obtain ⟨_, -, hread⟩ := bind_eq_ok.mp hread
        cases hread
        rfl
      next hdata =>
        cases hread
        rw [if_neg hdata]
  | write offset data =>
    obtain ⟨⟨_, _⟩, hwrite, hs⟩ := bind_eq_ok.mp hs
    cases hs
    unfold write at hwrite
    unfold next
    dsimp only
    split at hwrite
    next hcommand =>
      obtain ⟨_, hcmd, hwrite⟩ := bind_eq_ok.mp hwrite
      cases hwrite
      rw [if_pos hcommand, firstByte_eq_ok hcmd]
    next hcommand =>
      rw [if_neg hcommand]
      split at hwrite
      next hdata =>
        rw [if_pos hdata]
        split at hwrite
        next hpending =>
          obtain ⟨_, hparameter, hwrite⟩ := bind_eq_ok.mp hwrite
          cases hwrite
          rw [if_pos hpending, writeParameter_eq_ok hparameter]
        next hpending =>
          cases hwrite
          rw [if_neg hpending]
      next hdata =>
        cases hwrite
        rw [if_neg hdata]

/-! The buffer. -/

/-- What holds of the buffer between two accesses: it is empty or holds the byte of its
first slot. -/
structure Sound (k : I8042) : Prop where
  head_le : k.bufferHead.toNat ≤ k.bufferTail.toNat
  tail_le : k.bufferTail.toNat ≤ 1

variable {k : I8042}

theorem Sound.length_bufferLen (h : Sound k) :
    k.bufferLen.toNat = k.bufferTail.toNat - k.bufferHead.toNat := by
  unfold bufferLen
  exact UInt32.toNat_sub_of_le _ _ (UInt32.le_iff_toNat_le.mpr h.head_le)

theorem Sound.length_le (h : Sound k) : k.bufferLen.toNat ≤ 1 := by
  have htail := h.tail_le
  rw [h.length_bufferLen]
  omega

theorem Sound.ends (h : Sound k) (hlen : k.bufferLen ≠ 0) :
    k.bufferHead = 0 ∧ k.bufferTail = 1 := by
  have hpos : k.bufferLen.toNat ≠ 0 := fun heq => hlen (UInt32.toNat_inj.mp heq)
  have htail := h.tail_le
  rw [h.length_bufferLen] at hpos
  constructor
  · exact UInt32.toNat_inj.mp (show k.bufferHead.toNat = 0 by omega)
  · exact UInt32.toNat_inj.mp (show k.bufferTail.toNat = 1 by omega)

theorem sound_of_empty (hhead : k.bufferHead = 0) (htail : k.bufferTail = 0) : Sound k := by
  constructor
  · rw [hhead, htail]
  · rw [htail]
    exact Nat.zero_le 1

theorem flush_eq (k : I8042) :
    k.flush = { k with bufferHead := 0, bufferTail := 0, status := 0 } := by
  unfold flush
  rw [and_logicalNot _ (by decide)]

theorem flush_push (k : I8042) (val : UInt8) : k.flush.push val = { k with
    status := sbOutDataAvail
    buffer := k.buffer.set 0 val
    bufferHead := 0
    bufferTail := 1 } := by
  have hempty : ¬ k.flush.bufferLen.toNat = bufSize := by
    change ¬ ((0 : UInt32) - 0).toNat = bufSize
    decide
  unfold push
  rw [if_neg hempty, flush_eq]
  dsimp only
  rw [UInt8.zero_or, UInt32.zero_add]
  rfl

theorem writeCommand_read {cmd : UInt8} (h : cmd = cmdReadCtr ∨ cmd = cmdReadOutp) :
    ∃ val, k.writeCommand cmd = k.flush.push val := by
  rcases h with rfl | rfl
  · exact ⟨k.control, rfl⟩
  · exact ⟨k.outp, rfl⟩

theorem writeCommand_writeCtr (k : I8042) : k.writeCommand cmdWriteCtr = { k with
    bufferHead := 0
    bufferTail := 0
    status := sbI8042CmdData
    command := cmdWriteCtr } := by
  unfold writeCommand
  rw [if_neg (by decide), if_pos rfl, flush_eq]
  dsimp only
  rw [UInt8.zero_or]

theorem writeCommand_writeOutp (k : I8042) : k.writeCommand cmdWriteOutp =
    { k with status := k.status ||| sbI8042CmdData, command := cmdWriteOutp } := rfl

theorem writeCommand_other {cmd : UInt8} (hread : ¬ (cmd = cmdReadCtr ∨ cmd = cmdReadOutp))
    (hctr : cmd ≠ cmdWriteCtr) (houtp : cmd ≠ cmdWriteOutp) (hreset : cmd ≠ cmdResetKbd) :
    k.writeCommand cmd = k := by
  unfold writeCommand
  rw [if_neg fun h => hread (Or.inl h), if_neg hctr, if_neg fun h => hread (Or.inr h),
    if_neg houtp, if_neg hreset]
  exact ite_id _

/-- The read that empties the buffer clears the whole status. -/
theorem Sound.pop (h : Sound k) (hlen : k.bufferLen ≠ 0) :
    k.pop = (k.buffer[0], { k with bufferHead := 1, status := 0 }) := by
  obtain ⟨hhead, htail⟩ := h.ends hlen
  have hlast : k.bufferLen = 1 := by
    unfold bufferLen
    rw [hhead, htail]
    decide
  have hvalue : k.pop.1 = k.buffer[slot k.bufferHead] := by
    unfold I8042.pop
    rw [if_neg hlen]
    dsimp only
    split <;> rfl
  apply Prod.ext
  · rw [hvalue]
    simp only [hhead]
    rfl
  · rw [pop_of_some hlen, if_pos hlast, and_logicalNot _ (by decide), hhead]
    rfl

theorem Sound.bufferLen_pop (h : Sound k) : k.pop.2.bufferLen = 0 := by
  by_cases hlen : k.bufferLen = 0
  · rw [pop_of_empty hlen]
    exact hlen
  · obtain ⟨-, htail⟩ := h.ends hlen
    rw [h.pop hlen]
    unfold bufferLen
    dsimp only
    rw [htail]
    decide

theorem Sound.next (h : Sound k) (access : Access) : Sound (k.next access) := by
  have hpush : ∀ val, Sound (k.flush.push val) := by
    intro val
    rw [flush_push]
    exact ⟨Nat.zero_le _, le_refl _⟩
  unfold I8042.next
  cases access with
  | read offset size =>
    dsimp only
    split
    · by_cases hlen : k.bufferLen = 0
      · rw [pop_of_empty hlen]
        exact h
      · obtain ⟨-, htail⟩ := h.ends hlen
        rw [h.pop hlen]
        exact ⟨by rw [htail], h.tail_le⟩
    · exact h
  | write offset data =>
    dsimp only
    split
    · unfold writeCommand
      split
      · exact hpush _
      split
      · rw [flush_eq]
        exact sound_of_empty rfl rfl
      split
      · exact hpush _
      split
      · exact ⟨h.head_le, h.tail_le⟩
      split
      · exact h
      split
      · exact ⟨h.head_le, h.tail_le⟩
      · exact h
    · split
      · split
        · exact ⟨h.head_le, h.tail_le⟩
        · exact hpush _
      · exact h

variable {start s : Wired} {moves : List (Move Wired Served)}

theorem sound_start (h : Start s) : Sound s.controller := by
  obtain ⟨buffer, hk⟩ := h
  rw [hk]
  exact sound_of_empty rfl rfl

theorem sound_run (h : Start start) (run : Run Step start moves s) : Sound s.controller :=
  run.invariant (I := fun s => Sound s.controller) (sound_start h) fun _ _ _ hsound hstep => by
    rw [step_next hstep]
    exact hsound.next _

def newKeyboard : I8042 := fresh (Vector.replicate 16 0)

def kbdLine : Interrupt := { number := 1 }

theorem start_newKeyboard : Start ⟨newKeyboard, kbdLine⟩ := ⟨_, rfl⟩

end Kthxvm.I8042
