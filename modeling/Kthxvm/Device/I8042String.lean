import Kthxvm.Device.I8042
import Kthxvm.Lib.InSequence

/-! One access of several bytes to the keyboard controller against as many of one byte.
The controller looks at the first byte of what it is sent and fills the first byte of what
it returns, so that the two agree exactly where accesses after the first do nothing. -/
namespace Kthxvm

open IoDevice Lib.InSequence

namespace I8042

def readOnce (offset : UInt64) (_ : UInt8) (s : I8042 × Interrupt) :
    Except Fault (List UInt8 × I8042 × Interrupt) :=
  s.1.read s.2 offset 1

def writeOnce (offset : UInt64) (b : UInt8) (s : I8042 × Interrupt) :
    Except Fault (List UInt8 × I8042 × Interrupt) :=
  (s.1.write s.2 [b] offset).map fun s => ([], s)

/-- Reads after the first return zero and change nothing. -/
def IdleRead (k : I8042) (offset : UInt64) : Prop :=
  if offset = commandReg then k.status = 0
  else if offset = dataReg then
    k.bufferLen.toNat ≤ 1 ∧
      (k.bufferLen = 0 → k.status &&& sbOutDataAvail = 0 ∨ k.control &&& cbKbdInt = 0)
  else True

/-- Writes after the first change nothing, whatever their bytes are. -/
def IdleWrite (k : I8042) (offset : UInt64) : Prop :=
  if offset = commandReg then False
  else if offset = dataReg then k.status &&& sbI8042CmdData = 0 ∧ k.control &&& cbKbdInt = 0
  else True

def afterRead (k : I8042) (irq : Interrupt) : I8042 × Interrupt :=
  (k.pop.2, if k.pop.2.status &&& sbOutDataAvail ≠ 0 then k.pop.2.triggerIrq irq else irq)

theorem read_command (k : I8042) (irq : Interrupt) {size : UInt32} (hsize : size ≠ 0) :
    k.read irq commandReg size =
      .ok ([k.status] ++ List.replicate (size.toNat - 1) 0, k, irq) := by
  unfold read
  rw [if_pos rfl, putByte_pad hsize]
  rfl

theorem read_data (k : I8042) (irq : Interrupt) {size : UInt32} (hsize : size ≠ 0) :
    k.read irq dataReg size =
      .ok ([k.pop.1] ++ List.replicate (size.toNat - 1) 0, k.afterRead irq) := by
  unfold read
  rw [if_neg (by decide), if_pos rfl]
  dsimp only
  rw [putByte_pad hsize]
  rfl

theorem read_other (k : I8042) (irq : Interrupt) {offset : UInt64} (hcommand : offset ≠ commandReg)
    (hdata : offset ≠ dataReg) (size : UInt32) :
    k.read irq offset size = .ok (zeros size, k, irq) := by
  unfold read
  rw [if_neg hcommand, if_neg hdata]

theorem pop_of_empty {k : I8042} (h : k.bufferLen = 0) : k.pop = (0, k) := if_pos h

theorem pop_of_some {k : I8042} (h : k.bufferLen ≠ 0) :
    k.pop.2 = { k with
      bufferHead := k.bufferHead + 1
      status := if k.bufferLen = 1 then k.status &&& logicalNot sbOutDataAvail else k.status } := by
  have hlast : k.bufferTail - (k.bufferHead + 1) = 0 ↔ k.bufferLen = 1 := by
    unfold bufferLen
    grind
  unfold pop
  rw [if_neg h]
  dsimp only
  unfold bufferLen at hlast ⊢
  dsimp only
  simp only [hlast]
  split <;> rfl

theorem bufferLen_pop {k : I8042} (h : k.bufferLen ≠ 0) :
    k.pop.2.bufferLen.toNat = k.bufferLen.toNat - 1 := by
  have hone : (1 : UInt32) ≤ k.bufferLen := by
    have hpos : k.bufferLen.toNat ≠ 0 := fun heq => h (UInt32.toNat_inj.mp heq)
    exact UInt32.le_iff_toNat_le.mpr (Nat.one_le_iff_ne_zero.mpr hpos)
  have hlen : k.pop.2.bufferLen = k.bufferLen - 1 := by
    rw [pop_of_some h]
    unfold bufferLen
    grind
  rw [hlen, UInt32.toNat_sub_of_le _ _ hone]
  rfl

theorem bufferLen_pop_le (k : I8042) : k.pop.2.bufferLen.toNat ≤ k.bufferLen.toNat := by
  by_cases h : k.bufferLen = 0
  · rw [pop_of_empty h]
  · rw [bufferLen_pop h]
    omega

theorem triggerIrq_fd (k : I8042) (irq : Interrupt) :
    (k.triggerIrq irq).fd = if k.control &&& cbKbdInt ≠ 0 ∧ irq.state = false then irq.fd + 1
      else irq.fd := by
  unfold triggerIrq
  by_cases hcontrol : k.control &&& cbKbdInt = 0
  · rw [if_neg (not_not.mpr hcontrol), if_neg fun h => h.1 hcontrol]
  · rw [if_pos hcontrol, Interrupt.setLevel_low_fd]
    cases hstate : irq.state
    · rw [if_pos ⟨hcontrol, rfl⟩, Interrupt.setLevel_high_fd_of_low hstate]
    · rw [if_neg fun h => absurd h.2 Bool.true_eq_false.mp, Interrupt.setLevel_high_of_high hstate]

theorem triggerIrq_masked {k : I8042} (h : k.control &&& cbKbdInt = 0) (irq : Interrupt) :
    k.triggerIrq irq = irq :=
  if_neg (not_not.mpr h)

theorem triggerIrq_low {k : I8042} (h : k.control &&& cbKbdInt ≠ 0) (irq : Interrupt) :
    (k.triggerIrq irq).state = false := by
  unfold triggerIrq
  rw [if_pos h]
  exact Interrupt.setLevel_state _ _

section

variable {k : I8042} {irq : Interrupt} {offset : UInt64} {size : UInt32} {bs : List UInt8}

/-- Once the first byte is read, reads of `DATA_REG` are idle if no byte is left and the
flag raises no more interrupts. -/
theorem idle_after_read (h : k.bufferLen.toNat ≤ 1)
    (hirq : k.bufferLen = 0 → k.status &&& sbOutDataAvail = 0 ∨ k.control &&& cbKbdInt = 0)
    (b : UInt8) : readOnce dataReg b (k.afterRead irq) = .ok ([0], k.afterRead irq) := by
  have hempty : k.pop.2.bufferLen = 0 := by
    by_cases hlen : k.bufferLen = 0
    · rw [pop_of_empty hlen, hlen]
    · apply UInt32.toNat_inj.mp
      rw [bufferLen_pop hlen]
      exact Nat.sub_eq_zero_of_le h
  have hline : (if k.pop.2.status &&& sbOutDataAvail ≠ 0 then
      k.pop.2.triggerIrq (k.afterRead irq).2 else (k.afterRead irq).2) = (k.afterRead irq).2 := by
    by_cases hlen : k.bufferLen = 0
    · rw [pop_of_empty hlen]
      rcases hirq hlen with hflag | hmask
      · exact if_neg (not_not.mpr hflag)
      · rw [triggerIrq_masked hmask]
        exact ite_id _
    · have hone : k.bufferLen = 1 := by
        apply UInt32.toNat_inj.mp
        have hpos : k.bufferLen.toNat ≠ 0 := fun heq => hlen (UInt32.toNat_inj.mp heq)
        have hunit : (1 : UInt32).toNat = 1 := rfl
        omega
      have hstatus : k.pop.2.status &&& sbOutDataAvail = 0 := by
        rw [pop_of_some hlen]
        dsimp only
        rw [if_pos hone, UInt8.and_assoc]
        have hnone : logicalNot sbOutDataAvail &&& sbOutDataAvail = 0 := by decide
        rw [hnone, UInt8.and_zero]
      exact if_neg (not_not.mpr hstatus)
  have hread := read_data (k.afterRead irq).1 (k.afterRead irq).2 (show (1 : UInt32) ≠ 0 by decide)
  have hpop : (k.afterRead irq).1.pop = (0, k.pop.2) := pop_of_empty hempty
  unfold readOnce
  rw [hread]
  have hafter : (k.afterRead irq).1.afterRead (k.afterRead irq).2 = k.afterRead irq := by
    unfold afterRead at hpop hline ⊢
    dsimp only at hpop hline ⊢
    rw [hpop]
    exact Prod.ext rfl hline
  rw [hafter, hpop]
  rfl

theorem readOnce_data_monotone {b : UInt8} {s s' : I8042 × Interrupt} {r : List UInt8}
    (h : readOnce dataReg b s = .ok (r, s')) :
    s'.1.bufferLen.toNat ≤ s.1.bufferLen.toNat ∧ s.2.fd ≤ s'.2.fd := by
  unfold readOnce at h
  rw [read_data s.1 s.2 (by decide)] at h
  cases h
  refine ⟨bufferLen_pop_le s.1, ?_⟩
  unfold afterRead
  dsimp only
  split
  · rw [triggerIrq_fd]
    split <;> omega
  · exact le_refl _

theorem idle_of_reads (hbs : bs ≠ [])
    (h : inSequence (readOnce dataReg) bs (k.afterRead irq) =
      .ok (List.replicate bs.length 0, k.afterRead irq)) :
    k.bufferLen.toNat ≤ 1 ∧
      (k.bufferLen = 0 → k.status &&& sbOutDataAvail = 0 ∨ k.control &&& cbKbdInt = 0) := by
  obtain ⟨b, bs, rfl⟩ := List.exists_cons_of_ne_nil hbs
  obtain ⟨r, s, rs, hfirst, hrest, -⟩ := inSequence_cons_eq_ok h
  have hback := (inSequence_rel (I := fun _ => True)
    (R := fun s s' => s'.1.bufferLen.toNat ≤ s.1.bufferLen.toNat ∧ s.2.fd ≤ s'.2.fd)
    (fun s => ⟨le_refl _, le_refl _⟩)
    (fun _ _ _ h h' => ⟨h'.1.trans h.1, h.2.trans h'.2⟩)
    (fun _ _ _ _ _ _ h => ⟨trivial, readOnce_data_monotone h⟩) trivial hrest).2
  have hread := read_data (k.afterRead irq).1 (k.afterRead irq).2 (show (1 : UInt32) ≠ 0 by decide)
  unfold readOnce at hfirst
  rw [hread] at hfirst
  cases hfirst
  have hempty : k.pop.2.bufferLen = 0 := by
    by_contra hlen
    have hless := bufferLen_pop hlen
    have hpos : k.pop.2.bufferLen.toNat ≠ 0 := fun heq => hlen (UInt32.toNat_inj.mp heq)
    have hkept : k.pop.2.bufferLen.toNat ≤ k.pop.2.pop.2.bufferLen.toNat := hback.1
    omega
  refine ⟨?_, ?_⟩
  · by_cases hlen : k.bufferLen = 0
    · rw [hlen]
      exact Nat.zero_le 1
    · have hless := bufferLen_pop hlen
      rw [hempty] at hless
      have hzero : (0 : UInt32).toNat = 0 := rfl
      omega
  · intro hlen
    by_contra hnoisy
    obtain ⟨hflag, hmask⟩ := not_or.mp hnoisy
    have hafter : k.afterRead irq = (k, k.triggerIrq irq) := by
      unfold afterRead
      rw [pop_of_empty hlen]
      exact Prod.ext rfl (if_pos hflag)
    have hagain : k.afterRead (k.triggerIrq irq) = (k, k.triggerIrq (k.triggerIrq irq)) := by
      unfold afterRead
      rw [pop_of_empty hlen]
      exact Prod.ext rfl (if_pos hflag)
    have hfd := hback.2
    rw [hafter] at hfd
    dsimp only at hfd
    rw [hagain] at hfd
    dsimp only at hfd
    rw [triggerIrq_fd, if_pos ⟨hmask, triggerIrq_low hmask irq⟩] at hfd
    omega

theorem read_repeats_iff (hsize : size ≠ 0) (hlen : bs.length = size.toNat) :
    k.read irq offset size = inSequence (readOnce offset) bs (k, irq) ↔
      size = 1 ∨ k.IdleRead offset := by
  obtain ⟨b, bs, rfl, hrest, hnil⟩ := cons_of_size hsize hlen
  unfold IdleRead
  by_cases hcommand : offset = commandReg
  · subst hcommand
    have hread : ∀ b ∈ bs, readOnce commandReg b (k, irq) = .ok ([k.status], k, irq) :=
      fun b _ => k.read_command irq (by decide)
    have hfirst : readOnce commandReg b (k, irq) = .ok ([k.status], k, irq) :=
      k.read_command irq (by decide)
    rw [if_pos rfl, read_command k irq hsize, hrest, first_eq_inSequence_iff hfirst _,
      inSequence_const_iff hread, hnil]
  · rw [if_neg hcommand]
    by_cases hdata : offset = dataReg
    · subst hdata
      have hfirst : readOnce dataReg b (k, irq) = .ok ([k.pop.1], k.afterRead irq) :=
        k.read_data irq (by decide)
      rw [if_pos rfl, read_data k irq hsize, hrest, first_eq_inSequence_iff hfirst _]
      constructor
      · intro h
        by_cases hbs : bs = []
        · exact Or.inl (hnil.mp hbs)
        · exact Or.inr (idle_of_reads hbs h)
      · rintro (hone | ⟨hfew, hirq⟩)
        · rw [hnil.mpr hone]
          rfl
        · exact (inSequence_const_iff fun b _ => idle_after_read hfew hirq b).mpr (Or.inr rfl)
    · have hread : ∀ b ∈ bs, readOnce offset b (k, irq) = .ok ([0], k, irq) :=
        fun b _ => k.read_other irq hcommand hdata 1
      have hfirst : readOnce offset b (k, irq) = .ok (zeros 1, k, irq) :=
        k.read_other irq hcommand hdata 1
      rw [if_neg hdata, read_other k irq hcommand hdata, zeros_pad hsize, hrest,
        first_eq_inSequence_iff hfirst _, inSequence_const_iff hread]
      simp

/-! Writes. -/

theorem push_flush (k : I8042) (val : UInt8) :
    k.flush.push val = { k with
      status := sbOutDataAvail
      buffer := k.buffer.set 0 val
      bufferHead := 0
      bufferTail := 1 } := by
  have hzero : logicalNot sbOutDataAvail = 0 := by decide
  have hstatus : (k.status &&& logicalNot sbOutDataAvail) ||| sbOutDataAvail = sbOutDataAvail := by
    rw [hzero, UInt8.and_zero, UInt8.zero_or]
  have hroom : ¬ k.flush.bufferLen.toNat = bufSize := by
    have hlen : k.flush.bufferLen = 0 := by simp [flush, bufferLen]
    rw [hlen]
    decide
  unfold push
  rw [if_neg hroom]
  unfold flush
  dsimp only
  rw [hstatus]
  rfl

theorem writeOnce_direct {k : I8042} (h : k.status &&& sbI8042CmdData = 0) (irq : Interrupt)
    (b : UInt8) :
    writeOnce dataReg b (k, irq) = .ok ([], k.flush.push 0xFA, k.triggerIrq irq) := by
  have hirq : (k.flush.push 0xFA).triggerIrq irq = k.triggerIrq irq := by
    rw [push_flush]
    rfl
  unfold writeOnce write
  rw [if_neg (by decide), if_pos rfl, if_neg (not_not.mpr h)]
  dsimp only
  rw [hirq]
  rfl

theorem status_direct (k : I8042) : (k.flush.push 0xFA).status &&& sbI8042CmdData = 0 := by
  have hbits : sbOutDataAvail &&& sbI8042CmdData = 0 := by decide
  rw [push_flush]
  exact hbits

theorem writeOnce_parameter {k : I8042} (h : k.status &&& sbI8042CmdData ≠ 0) (irq : Interrupt)
    (b : UInt8) : ∃ k', writeOnce dataReg b (k, irq) = .ok ([], k', irq) ∧ k'.status = 0 := by
  have hzero : logicalNot sbI8042CmdData = 0 := by decide
  obtain ⟨stored, hstored⟩ : ∃ k', k.storeParameter [b] = .ok k' := by
    unfold storeParameter
    split
    · exact ⟨_, rfl⟩
    · split
      · exact ⟨_, rfl⟩
      · exact ⟨_, rfl⟩
  have hwrite : k.writeParameter [b] =
      .ok { stored with status := stored.status &&& logicalNot sbI8042CmdData } := by
    unfold writeParameter
    rw [hstored]
    rfl
  refine ⟨{ stored with status := stored.status &&& logicalNot sbI8042CmdData }, ?_, ?_⟩
  · unfold writeOnce write
    rw [if_neg (by decide), if_pos rfl, if_pos h]
    dsimp only
    rw [hwrite]
    rfl
  · dsimp only
    rw [hzero, UInt8.and_zero]

theorem writeOnce_command (k : I8042) (irq : Interrupt) (b : UInt8) :
    writeOnce commandReg b (k, irq) = .ok ([], k.writeCommand b, irq) := by
  unfold writeOnce write
  rw [if_pos rfl]
  rfl

theorem writeOnce_other (k : I8042) (irq : Interrupt) (hcommand : offset ≠ commandReg)
    (hdata : offset ≠ dataReg) (b : UInt8) : writeOnce offset b (k, irq) = .ok ([], k, irq) := by
  unfold writeOnce write
  rw [if_neg hcommand, if_neg hdata]
  rfl

theorem write_cons (k : I8042) (irq : Interrupt) (offset : UInt64) (b : UInt8) (bs : List UInt8) :
    (k.write irq (b :: bs) offset).map (fun s => (([] : List UInt8), s)) =
      writeOnce offset b (k, irq) := by
  have hfirst : k.write irq (b :: bs) offset = k.write irq [b] offset :=
    write_congr rfl k irq offset
  rw [hfirst]
  rfl

theorem commands_differ (k : I8042) (irq : Interrupt) {n : Nat} (hn : n ≠ 0) :
    ¬ ∀ c, inSequence (writeOnce commandReg) (List.replicate n c) (k, irq) = .ok ([], k, irq) := by
  intro h
  have hset : ∀ c x, (∀ k : I8042, (k.writeCommand c).status = x) → k.status = x := by
    intro c x hc
    refine inSequence_settles (I := fun _ => True) (v := fun s => s.1.status)
      (by simpa using hn) ?_ trivial (h c)
    intro b hb s r s' _ hs
    rw [List.eq_of_mem_replicate hb, writeOnce_command] at hs
    cases hs
    exact ⟨trivial, hc _⟩
  have hreset := hset cmdResetKbd 0 fun k => rfl
  have hwrite := hset cmdWriteCtr sbI8042CmdData fun k => by
    have hzero : logicalNot sbOutDataAvail = 0 := by decide
    have hcmd : k.writeCommand cmdWriteCtr = { k.flush with
        status := k.flush.status ||| sbI8042CmdData, command := cmdWriteCtr } := rfl
    rw [hcmd, flush]
    dsimp only
    rw [hzero, UInt8.and_zero, UInt8.zero_or]
  rw [hreset] at hwrite
  exact absurd hwrite (by decide)

theorem idle_of_writes {n : Nat} (hn : n ≠ 0) {b : UInt8} {r : List UInt8} {s : I8042 × Interrupt}
    (hfirst : writeOnce dataReg b (k, irq) = .ok (r, s))
    (h : inSequence (writeOnce dataReg) (List.replicate n 0) s = .ok ([], s)) :
    k.status &&& sbI8042CmdData = 0 ∧ k.control &&& cbKbdInt = 0 := by
  have hbs : List.replicate n (0 : UInt8) ≠ [] := by simpa using hn
  have hdirect : k.status &&& sbI8042CmdData = 0 := by
    by_contra hwaits
    obtain ⟨k', hwrite, hstatus⟩ := writeOnce_parameter hwaits irq b
    rw [hwrite] at hfirst
    cases hfirst
    have hset := inSequence_settles (I := fun s => s.1.status &&& sbI8042CmdData = 0)
      (v := fun s => s.1.status) (x := sbOutDataAvail) hbs (fun b _ s r s' hs hf => by
        rw [writeOnce_direct hs] at hf
        cases hf
        refine ⟨status_direct s.1, ?_⟩
        rw [push_flush]) (by rw [hstatus]; decide) h
    rw [hstatus] at hset
    exact absurd hset (by decide)
  refine ⟨hdirect, ?_⟩
  by_contra hmask
  rw [writeOnce_direct hdirect] at hfirst
  cases hfirst
  have hcontrol : ∀ k : I8042, (k.flush.push 0xFA).control = k.control := by
    intro k
    rw [push_flush]
  -- every further byte is a further interrupt
  have hstep : ∀ (b : UInt8) (s : I8042 × Interrupt) (r : List UInt8) (s' : I8042 × Interrupt),
      s.1.status &&& sbI8042CmdData = 0 ∧ s.1.control &&& cbKbdInt ≠ 0 ∧ s.2.state = false →
      writeOnce dataReg b s = .ok (r, s') →
      (s'.1.status &&& sbI8042CmdData = 0 ∧ s'.1.control &&& cbKbdInt ≠ 0 ∧
        s'.2.state = false) ∧ s'.2.fd = s.2.fd + 1 := by
    rintro b s r s' ⟨hs, hc, hlow⟩ hf
    rw [writeOnce_direct hs] at hf
    cases hf
    refine ⟨⟨status_direct s.1, ?_, triggerIrq_low hc s.2⟩, ?_⟩
    · rw [hcontrol]
      exact hc
    · rw [triggerIrq_fd, if_pos ⟨hc, hlow⟩]
  obtain ⟨n, rfl⟩ := Nat.exists_eq_succ_of_ne_zero hn
  rw [List.replicate_succ] at h
  obtain ⟨r, s₁, rs, hnext, hrest, -⟩ := inSequence_cons_eq_ok h
  have hnext' := hstep 0 _ _ _ ⟨status_direct k, by rw [hcontrol]; exact hmask,
    triggerIrq_low hmask irq⟩ hnext
  have hmono := (inSequence_rel (R := fun s s' : I8042 × Interrupt => s.2.fd ≤ s'.2.fd)
    (fun _ => le_refl _) (fun _ _ _ => le_trans)
    (fun b _ s r s' hs hf => (hstep b s r s' hs hf).imp id fun heq => by omega)
    hnext'.1 hrest).2
  have hfd := hnext'.2
  omega

theorem write_repeats_iff {n : Nat} (hn : n ≠ 0) :
    (∀ bs : List UInt8, bs.length = n →
      (k.write irq bs offset).map (fun s => (([] : List UInt8), s)) =
        inSequence (writeOnce offset) bs (k, irq)) ↔ n = 1 ∨ k.IdleWrite offset := by
  obtain ⟨n, rfl⟩ := Nat.exists_eq_succ_of_ne_zero hn
  have hcons : ∀ {b bs r s}, writeOnce offset b (k, irq) = .ok (r, s) →
      ((k.write irq (b :: bs) offset).map (fun s => (([] : List UInt8), s)) =
        inSequence (writeOnce offset) (b :: bs) (k, irq) ↔
        inSequence (writeOnce offset) bs s = .ok ([], s)) := by
    intro b bs r s hfirst
    rw [write_cons, hfirst]
    have hiff : Except.ok (r ++ [], s) = inSequence (writeOnce offset) (b :: bs) (k, irq) ↔
        inSequence (writeOnce offset) bs s = .ok ([], s) := first_eq_inSequence_iff hfirst []
    rwa [List.append_nil] at hiff
  have hidle : ∀ {s bs}, (∀ b ∈ bs, writeOnce offset b s = .ok ([], s)) →
      inSequence (writeOnce offset) bs s = .ok ([], s) := by
    intro s bs h
    rw [inSequence_idle h, List.flatten_replicate_nil]
  unfold IdleWrite
  rw [Nat.succ_eq_add_one, Nat.add_eq_right]
  constructor
  · intro h
    by_cases hn : n = 0
    · exact Or.inl hn
    right
    by_cases hcommand : offset = commandReg
    · subst hcommand
      -- a first command that does nothing lets the next ones show
      have hnop : writeOnce commandReg 0 (k, irq) = .ok ([], k, irq) := k.writeOnce_command irq 0
      refine absurd (fun c => ?_) (k.commands_differ irq hn)
      exact (hcons hnop).mp (h (0 :: List.replicate n c) (by simp))
    · rw [if_neg hcommand]
      by_cases hdata : offset = dataReg
      · subst hdata
        rw [if_pos rfl]
        obtain ⟨s, hfirst⟩ : ∃ s, writeOnce dataReg 0 (k, irq) = .ok ([], s) := by
          by_cases hdirect : k.status &&& sbI8042CmdData = 0
          · exact ⟨_, writeOnce_direct hdirect irq 0⟩
          · obtain ⟨k', hwrite, -⟩ := writeOnce_parameter hdirect irq 0
            exact ⟨_, hwrite⟩
        exact idle_of_writes hn hfirst
          ((hcons hfirst).mp (h (0 :: List.replicate n 0) (by simp)))
      · rw [if_neg hdata]
        trivial
  · intro h bs hlen
    obtain ⟨b, bs, rfl⟩ :=
      List.exists_cons_of_ne_nil (List.ne_nil_of_length_pos (l := bs) (by omega))
    rw [List.length_cons, Nat.add_right_cancel_iff] at hlen
    rcases h with hone | h
    · have hnil : bs = [] := List.length_eq_zero_iff.mp (hlen.trans hone)
      subst hnil
      rw [write_cons]
      cases hwrite : writeOnce offset b (k, irq) with
      | error e => rw [inSequence_cons_error hwrite]
      | ok p =>
        rw [inSequence_cons (show writeOnce offset b (k, irq) = .ok (p.1, p.2) from hwrite)]
        simp [inSequence, Except.map]
    · split at h
      · exact absurd h id
      · next hcommand =>
        split at h
        · next hdata =>
          subst hdata
          rw [hcons (writeOnce_direct h.1 irq b)]
          apply hidle
          intro b' _
          rw [writeOnce_direct (status_direct k)]
          have hmask : (k.flush.push 0xFA).control &&& cbKbdInt = 0 := by
            rw [push_flush]
            exact h.2
          have hagain : (k.flush.push 0xFA).flush.push 0xFA = k.flush.push 0xFA := by
            rw [push_flush, push_flush]
            simp only [Vector.set_set]
          rw [triggerIrq_masked hmask, hagain]
        · next hdata =>
          rw [hcons (k.writeOnce_other irq hcommand hdata b)]
          exact hidle fun b' _ => k.writeOnce_other irq hcommand hdata b'

end

end I8042

end Kthxvm
