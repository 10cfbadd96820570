import Kthxvm.Device.UartDivisor
import Kthxvm.Lib.InSequence

/-! One access of several bytes to a serial port against as many of one byte. -/
namespace Kthxvm.Uart

open IoDevice Lib.Flags Lib.InSequence Lib.Transition

def readOnce (offset : UInt64) (indeterminate : UInt8) (_ : UInt8) (s : Wired) :
    Except Fault (List UInt8 × Wired) :=
  s.serve (.read offset 1) indeterminate

def writeOnce (offset : UInt64) (indeterminate : UInt8) (b : UInt8) (s : Wired) :
    Except Fault (List UInt8 × Wired) :=
  s.serve (.write offset [b]) indeterminate

def registerByte (u : Uart) : Register → UInt8
  | .ier => u.ier
  | .iir => u.iir ||| iirFifoBits
  | .lcr => u.lcr
  | .mcr => u.mcr
  | .lsr => u.lsr
  | .msr => u.msr
  | .scr => u.scr
  | .data | .unhandled => 0

def Silent (u : Uart) (indeterminate : UInt8) : Prop :=
  indeterminate = 0 ∧ (u.ier &&& ierRecvBit = 0 ∨ u.dataReady = false) ∧ u.ier &&& ierThrBit = 0

def IdleRead (u : Uart) (offset : UInt64) (indeterminate : UInt8) : Prop :=
  match u.readDivisor (.ofOffset offset) with
  | some value => value = 0
  | none =>
    match Register.ofOffset offset with
    | .data => u.waiting.length ≤ 1 ∧ indeterminate = 0 ∧ u.ier &&& ierThrBit = 0
    | register => u.registerByte register = 0 ∧ u.Silent indeterminate

def IdleWrite (u : Uart) (offset : UInt64) (indeterminate : UInt8) : Prop :=
  match Register.ofOffset offset with
  | .data => u.isDlabSet = false ∧ u.isLoop ∧ fifoLen ≤ u.rxCnt.toNat + 1 ∧ u.Silent indeterminate
  | .lsr | .msr | .unhandled => u.Silent indeterminate
  | _ => False

/-! A port after an access of one byte. -/

def updated (u : Uart) (irq : Interrupt) (indeterminate : UInt8) : Wired :=
  ⟨u.identified (u.pending indeterminate), signal irq (u.pending indeterminate)⟩

theorem updated_sound {u : Uart} (h : Sound u) (irq : Interrupt) (indeterminate : UInt8) :
    Sound (u.updated irq indeterminate).uart :=
  ⟨h.done_le, h.cnt_le, h.ready, h.drained, h.unbroken, h.flushed, h.idle⟩

theorem updated_updated {u : Uart} {irq : Interrupt} {indeterminate : UInt8}
    (h : u.pending indeterminate = 0) :
    (u.updated irq indeterminate).uart.updated (u.updated irq indeterminate).irq indeterminate =
      u.updated irq indeterminate := by
  have hpending : (u.updated irq indeterminate).uart.pending indeterminate = 0 := h
  have hline : (u.updated irq indeterminate).irq.state = false := signal_low _ _
  have hsignal : signal (u.updated irq indeterminate).irq 0 = (u.updated irq indeterminate).irq :=
    (signal_eq_self_iff _ _).mpr ⟨rfl, hline⟩
  have hiir : (u.updated irq indeterminate).uart.identified 0 =
      (u.updated irq indeterminate).uart := by
    unfold updated
    rw [h]
    rfl
  generalize u.updated irq indeterminate = w at hpending hsignal hiir ⊢
  unfold updated
  rw [hpending, hsignal, hiir]

theorem silent_iff {u : Uart} (h : Sound u) (indeterminate : UInt8) :
    u.pending indeterminate = 0 ↔ u.Silent indeterminate :=
  pending_eq_zero_iff h indeterminate

theorem step_fd {s s' : Wired} {l : Served} (h : Sound s.uart) (hs : Step s l s') :
    s.irq.fd ≤ s'.irq.fd := by
  have hirq : ∀ {u u' : Uart} {irq irq' : Interrupt} {indeterminate : UInt8}, Sound u →
      u.updateIrq irq indeterminate = .ok (u', irq') → irq.fd ≤ irq'.fd := by
    intro u u' irq irq' indeterminate hu hupdate
    rw [updateIrq_ok hu] at hupdate
    cases hupdate
    rw [signal_fd]
    split <;> omega
  rcases step_cases hs with ⟨_, _, _, -, -, rfl⟩ | ⟨_, -, -, rfl⟩ | ⟨u, hprepares, hupdate⟩
  · exact le_refl _
  · exact le_refl _
  · exact hirq (hprepares.sound h) hupdate

/-- A sequence that ends where it started, of steps of which the first would signal: the
signal would have to be taken back. -/
theorem silent_of_sequence {f : UInt8 → Wired → Except Fault (List UInt8 × Wired)} {u : Uart}
    {irq : Interrupt} {indeterminate : UInt8} {bs rs : List UInt8} (hbs : bs ≠ [])
    (hu : Sound u)
    (hmono : ∀ b s r s', Sound s.uart → f b s = .ok (r, s') →
      Sound s'.uart ∧ s.irq.fd ≤ s'.irq.fd)
    (hfirst : ∀ b r s', f b (u.updated irq indeterminate) = .ok (r, s') →
      s' = (u.updated irq indeterminate).uart.updated (u.updated irq indeterminate).irq
        indeterminate)
    (h : inSequence f bs (u.updated irq indeterminate) = .ok (rs, u.updated irq indeterminate)) :
    u.pending indeterminate = 0 := by
  by_contra hp
  have hp' : (u.updated irq indeterminate).uart.pending indeterminate ≠ 0 := hp
  have hlow : (u.updated irq indeterminate).irq.state = false := signal_low _ _
  obtain ⟨b, bs, rfl⟩ := List.exists_cons_of_ne_nil hbs
  obtain ⟨r, s, rs, hnext, hrest, -⟩ := inSequence_cons_eq_ok h
  obtain ⟨hs, -⟩ := hmono _ _ _ _ (updated_sound hu irq indeterminate) hnext
  have hback := (inSequence_rel (I := fun s => Sound s.uart)
    (R := fun s s' : Wired => s.irq.fd ≤ s'.irq.fd) (fun _ => le_refl _) (fun _ _ _ => le_trans)
    (fun b _ s r s' hs hf => hmono b s r s' hs hf) hs hrest).2
  rw [hfirst b r s hnext] at hback
  have hfd : ((u.updated irq indeterminate).uart.updated (u.updated irq indeterminate).irq
      indeterminate).irq.fd = (u.updated irq indeterminate).irq.fd + 1 := by
    unfold updated at hp' hlow ⊢
    dsimp only at hp' hlow ⊢
    rw [signal_fd, if_pos ⟨hp', hlow⟩]
  omega

/-! Reads. -/

section Read

variable {s : Wired} {offset : UInt64} {indeterminate : UInt8}

theorem serve_read_divisor {value : UInt8} (h : s.uart.readDivisor (.ofOffset offset) = some value)
    {size : UInt32} (hsize : size ≠ 0) (indeterminate : UInt8) :
    s.serve (.read offset size) indeterminate =
      .ok ([value] ++ List.replicate (size.toNat - 1) 0, s) := by
  apply bind_eq_ok.mpr
  refine ⟨(_, s.uart, s.irq), ?_, rfl⟩
  unfold read
  rw [h]
  dsimp only
  rw [putByte_pad hsize]
  rfl

theorem serve_read_register (h : Sound s.uart)
    (hnone : s.uart.readDivisor (.ofOffset offset) = none) {size : UInt32} {buf : List UInt8}
    {u : Uart}
    (hread : s.uart.readRegister (.ofOffset offset) size = .ok (buf, u)) (indeterminate : UInt8) :
    s.serve (.read offset size) indeterminate = .ok (buf, u.updated s.irq indeterminate) := by
  have hsound := (readRegister_advances h hread).sound
  apply bind_eq_ok.mpr
  refine ⟨(buf, u.identified (u.pending indeterminate), signal s.irq (u.pending indeterminate)),
    ?_, rfl⟩
  unfold read
  rw [hnone]
  dsimp only
  rw [hread, ok_bind]
  dsimp only
  rw [updateIrq_ok hsound]
  rfl

theorem readRegister_pad {u u' : Uart} {register : Register} {buf : List UInt8}
    (h : u.readRegister register 1 = .ok (buf, u')) {size : UInt32} (hsize : size ≠ 0) :
    u.readRegister register size = .ok (buf ++ List.replicate (size.toNat - 1) 0, u') := by
  have hone : (1 : UInt32) ≠ 0 := by decide
  have hput : ∀ {value}, (putByte 1 value).map (·, u) = .ok (buf, u') →
      (putByte size value).map (·, u) = .ok (buf ++ List.replicate (size.toNat - 1) 0, u') := by
    intro value h
    rw [putByte_pad hone] at h
    rw [putByte_pad hsize]
    cases h
    rfl
  cases register
  case data =>
    change u.receive 1 = .ok (buf, u') at h
    change u.receive size = _
    unfold receive at h ⊢
    split at h
    next heq =>
      cases h
      rw [if_pos heq, zeros_pad hsize]
    next hne =>
      rw [if_neg hne]
      split at h
      next hbreak =>
        rw [if_pos hbreak]
        rw [putByte_pad hone] at h
        rw [putByte_pad hsize]
        cases h
        rfl
      next hbreak =>
        rw [if_neg hbreak]
        split at h
        next hlt =>
          rw [dif_pos hlt]
          rw [putByte_pad hone, ok_bind] at h
          rw [putByte_pad hsize, ok_bind]
          dsimp only at h ⊢
          split at h
          next hlast =>
            cases h
            exact if_pos hlast
          next hmore =>
            cases h
            exact if_neg hmore
        next => contradiction
  case unhandled =>
    cases h
    change Except.ok (zeros size, u) = _
    rw [zeros_pad hsize]
  all_goals exact hput h

theorem readRegister_byte (u : Uart) {register : Register} (h : register ≠ .data) :
    u.readRegister register 1 = .ok ([u.registerByte register], u) := by
  cases register
  case data => exact absurd rfl h
  all_goals rfl

theorem receive_empty {u : Uart} (h : Sound u) (hready : u.dataReady = false) :
    u.receive 1 = .ok ([0], u) := by
  have hnot : ¬ u.rxDone.toNat < u.rxCnt.toNat := by
    rw [← h.ready, hready]
    exact Bool.false_ne_true
  have hdone := h.done_le
  have heq : u.rxCnt = u.rxDone := UInt8.toNat_inj.mp (by omega)
  exact if_pos heq

theorem receive_registers {u u' : Uart} {size : UInt32} {buf : List UInt8}
    (h : u.receive size = .ok (buf, u')) : u'.ier = u.ier ∧ u'.lcr = u.lcr := by
  unfold receive at h
  split at h
  · cases h
    exact ⟨rfl, rfl⟩
  · split at h
    · obtain ⟨_, -, h⟩ := bind_eq_ok.mp h
      cases h
      exact ⟨rfl, rfl⟩
    · split at h
      · obtain ⟨_, -, h⟩ := bind_eq_ok.mp h
        dsimp only at h
        split at h
        · cases h
          exact ⟨rfl, rfl⟩
        · cases h
          exact ⟨rfl, rfl⟩
      · contradiction

theorem readOnce_mono (b : UInt8) (s : Wired) (r : List UInt8) (s' : Wired) (h : Sound s.uart)
    (hf : readOnce offset indeterminate b s = .ok (r, s')) :
    Sound s'.uart ∧ s.irq.fd ≤ s'.irq.fd := by
  have hstep : Step s ⟨.read offset 1, indeterminate, r⟩ s' := hf
  exact ⟨(step_advances h hstep).sound, step_fd h hstep⟩

theorem not_ready_of_reads {u : Uart} {irq : Interrupt} {bs rs : List UInt8} (hbs : bs ≠ [])
    (hu : Sound u) (hnone : u.readDivisor .data = none) (hdata : Register.ofOffset offset = .data)
    (h : inSequence (readOnce offset indeterminate) bs ⟨u, irq⟩ = .ok (rs, ⟨u, irq⟩)) :
    u.dataReady = false := by
  obtain ⟨b, bs, rfl⟩ := List.exists_cons_of_ne_nil hbs
  obtain ⟨r, s, rs, hnext, hrest, -⟩ := inSequence_cons_eq_ok h
  have hstep : Step ⟨u, irq⟩ ⟨.read offset 1, indeterminate, r⟩ s := hnext
  have hadv := step_advances hu hstep
  have hfew : ∀ (s : Wired) (r : List UInt8) (s' : Wired), Sound s.uart →
      Step s ⟨.read offset 1, indeterminate, r⟩ s' →
      s'.uart.waiting.length ≤ s.uart.waiting.length := by
    intro s r s' hs hstep
    have hlen := congrArg List.length (step_advances hs hstep).buffer
    rw [List.length_append, List.length_append] at hlen
    change s.uart.waiting.length + 0 = _ at hlen
    omega
  have hback := (inSequence_rel (I := fun s => Sound s.uart)
    (R := fun s s' : Wired => s'.uart.waiting.length ≤ s.uart.waiting.length)
    (fun _ => le_refl _) (fun _ _ _ h h' => h'.trans h)
    (fun b _ s r s' hs hf => ⟨(readOnce_mono b s r s' hs hf).1, hfew s r s' hs hf⟩)
    hadv.sound hrest).2
  by_contra hready
  have hready' : u.dataReady = true := Bool.not_eq_false _ ▸ hready
  have hbuf : r.length = 1 := by
    obtain ⟨⟨_, _, _⟩, hread, hr⟩ := bind_eq_ok.mp hnext
    cases hr
    exact length_read hread
  have hlen := congrArg List.length hadv.buffer
  have hgot : returned ⟨⟨u, irq⟩, ⟨.read offset 1, indeterminate, r⟩, s⟩ = r.take 1 :=
    if_pos ⟨hdata, readDivisor_data_none hnone, hready'⟩
  rw [hgot, List.length_append, List.length_append, List.length_take, hbuf] at hlen
  change u.waiting.length + 0 = _ at hlen
  have hkept : u.waiting.length ≤ s.uart.waiting.length := hback
  omega

theorem readOnce_empty (h : Sound s.uart) (hdata : Register.ofOffset offset = .data)
    (hnone : s.uart.readDivisor .data = none) (hready : s.uart.dataReady = false) (b : UInt8) :
    readOnce offset indeterminate b s = .ok ([0], s.uart.updated s.irq indeterminate) := by
  rw [← hdata] at hnone
  apply serve_read_register h hnone
  rw [hdata]
  exact receive_empty h hready

theorem readOnce_byte (h : Sound s.uart) (hdata : Register.ofOffset offset ≠ .data)
    (hnone : s.uart.readDivisor (.ofOffset offset) = none) (b : UInt8) :
    readOnce offset indeterminate b s =
      .ok ([s.uart.registerByte (.ofOffset offset)], s.uart.updated s.irq indeterminate) :=
  serve_read_register h hnone (readRegister_byte s.uart hdata) _

theorem registerByte_identified (u : Uart) (p : UInt8) (register : Register) :
    (u.identified p).registerByte register = 0 ↔ u.registerByte register = 0 := by
  have hbits : iirFifoBits ≠ 0 := by decide
  cases register
  case iir =>
    unfold registerByte
    simp only [UInt8.or_eq_zero_iff, hbits, and_false]
  all_goals rfl

theorem receive_leaves {u u' : Uart} {buf : List UInt8} (h : Sound u)
    (hread : u.receive 1 = .ok (buf, u')) : u'.dataReady = false ↔ u.waiting.length ≤ 1 := by
  have hadv := receive_advances h hread
  have hlen := congrArg List.length hadv.buffer
  have hbuf : buf.length = 1 := length_receive hread
  rw [List.append_nil, List.length_append] at hlen
  constructor
  · intro hready
    rw [waiting_nil hadv.sound hready] at hlen
    split at hlen
    · rw [List.length_take, hbuf] at hlen
      exact hlen.le
    · exact hlen.le.trans (Nat.zero_le 1)
  · intro hfew
    by_contra hmore
    have hready' : u'.dataReady = true := Bool.not_eq_false _ ▸ hmore
    have hsome : u'.waiting.length ≠ 0 := by
      have hlt := hadv.sound.ready.mp hready'
      have hcnt := hadv.sound.cnt_le
      have hfull : u'.rxBuf.toList.length = fifoLen := by simp
      unfold waiting
      rw [List.length_drop, List.length_take]
      omega
    by_cases hready : u.dataReady = true
    · rw [if_pos hready, List.length_take, hbuf] at hlen
      change u.waiting.length = 1 + u'.waiting.length at hlen
      omega
    · rw [if_neg hready, waiting_nil h (Bool.not_eq_true _ ▸ hready)] at hlen
      change 0 = 0 + u'.waiting.length at hlen
      omega

theorem data_repeats_iff {bs : List UInt8} {buf : List UInt8} {u : Uart} (h : Sound s.uart)
    (hdata : Register.ofOffset offset = .data) (hnone : s.uart.readDivisor .data = none)
    (hread : s.uart.receive 1 = .ok (buf, u)) (hbs : bs ≠ []) :
    inSequence (readOnce offset indeterminate) bs (u.updated s.irq indeterminate) =
        .ok (List.replicate bs.length 0, u.updated s.irq indeterminate) ↔
      s.uart.waiting.length ≤ 1 ∧ indeterminate = 0 ∧ s.uart.ier &&& ierThrBit = 0 := by
  have hsound := (receive_advances h hread).sound
  have hsound' := updated_sound hsound s.irq indeterminate
  obtain ⟨hier, hlcr⟩ := receive_registers hread
  have hnone' : (u.updated s.irq indeterminate).uart.readDivisor .data = none := by
    have hdlab : ¬ u.isDlabSet = true := by
      have hclosed := readDivisor_data_none hnone
      unfold isDlabSet at hclosed ⊢
      rwa [hlcr]
    exact if_neg hdlab
  rw [← receive_leaves h hread, ← hier]
  constructor
  · intro hseq
    have hready := not_ready_of_reads hbs hsound' hnone' hdata hseq
    have hsilent := silent_of_sequence hbs hsound readOnce_mono (fun b r s' hf => by
      rw [readOnce_empty hsound' hdata hnone' hready] at hf
      cases hf
      rfl) hseq
    obtain ⟨hv, -, hthr⟩ := (silent_iff hsound _).mp hsilent
    exact ⟨hready, hv, hthr⟩
  · rintro ⟨hready, hv, hthr⟩
    have hsilent := (silent_iff hsound _).mpr ⟨hv, Or.inr hready, hthr⟩
    refine (inSequence_const_iff fun b _ => ?_).mpr (Or.inr rfl)
    rw [readOnce_empty hsound' hdata hnone' hready, updated_updated hsilent]

theorem register_repeats_iff {bs : List UInt8} (h : Sound s.uart)
    (hdata : Register.ofOffset offset ≠ .data)
    (hnone : s.uart.readDivisor (.ofOffset offset) = none) (hbs : bs ≠ []) :
    inSequence (readOnce offset indeterminate) bs (s.uart.updated s.irq indeterminate) =
        .ok (List.replicate bs.length 0, s.uart.updated s.irq indeterminate) ↔
      s.uart.registerByte (.ofOffset offset) = 0 ∧ s.uart.Silent indeterminate := by
  have hsound := updated_sound h s.irq indeterminate
  have hnone' : (s.uart.updated s.irq indeterminate).uart.readDivisor (.ofOffset offset) = none :=
    hnone
  have hbyte := registerByte_identified s.uart (s.uart.pending indeterminate) (.ofOffset offset)
  -- without a signal all reads are the same
  have hiff : s.uart.pending indeterminate = 0 →
      (inSequence (readOnce offset indeterminate) bs (s.uart.updated s.irq indeterminate) =
        .ok (List.replicate bs.length 0, s.uart.updated s.irq indeterminate) ↔
      s.uart.registerByte (.ofOffset offset) = 0) := by
    intro hsilent
    rw [← hbyte, inSequence_const_iff (x := (s.uart.updated s.irq indeterminate).uart.registerByte
      (.ofOffset offset))]
    · exact or_iff_right hbs
    · intro b _
      rw [readOnce_byte hsound hdata hnone', updated_updated hsilent]
  constructor
  · intro hseq
    have hsilent := silent_of_sequence hbs h readOnce_mono (fun b r s' hf => by
      rw [readOnce_byte hsound hdata hnone'] at hf
      cases hf
      rfl) hseq
    exact ⟨(hiff hsilent).mp hseq, (silent_iff h _).mp hsilent⟩
  · rintro ⟨hzero, hsilent⟩
    exact (hiff ((silent_iff h _).mpr hsilent)).mpr hzero

theorem read_repeats_iff {size : UInt32} {bs : List UInt8} (h : Sound s.uart) (hsize : size ≠ 0)
    (hlen : bs.length = size.toNat) :
    s.serve (.read offset size) indeterminate = inSequence (readOnce offset indeterminate) bs s ↔
      size = 1 ∨ s.uart.IdleRead offset indeterminate := by
  obtain ⟨b, bs, rfl, hrest, hnil⟩ := cons_of_size hsize hlen
  -- one byte, and the zeros after it
  have hfirst : ∀ {r s'}, readOnce offset indeterminate b s = .ok (r, s') →
      s.serve (.read offset size) indeterminate = .ok (r ++ List.replicate bs.length 0, s') →
      (s.serve (.read offset size) indeterminate = inSequence (readOnce offset indeterminate)
        (b :: bs) s ↔ size = 1 ∨ bs ≠ [] ∧ inSequence (readOnce offset indeterminate) bs s' =
        .ok (List.replicate bs.length 0, s')) := by
    intro r s' hone hall
    rw [hall, first_eq_inSequence_iff hone _, ← hnil]
    by_cases hbs : bs = []
    · subst hbs
      exact ⟨fun _ => Or.inl rfl, fun _ => rfl⟩
    · exact ⟨fun h => Or.inr ⟨hbs, h⟩, fun h => (h.resolve_left hbs).2⟩
  have hor : ∀ {p q : Prop}, (bs ≠ [] → (p ↔ q)) → (size = 1 ∨ bs ≠ [] ∧ p ↔ size = 1 ∨ q) := by
    intro p q hpq
    rw [← hnil]
    by_cases hbs : bs = []
    · simp [hbs]
    · simp [hbs, hpq hbs]
  unfold IdleRead
  cases hdivisor : s.uart.readDivisor (.ofOffset offset) with
  | some value =>
    have hone : ∀ b, readOnce offset indeterminate b s = .ok ([value], s) :=
      fun b => serve_read_divisor hdivisor (by decide) _
    have hall := serve_read_divisor hdivisor hsize indeterminate
    rw [hrest] at hall
    rw [hfirst (hone b) hall]
    apply hor
    intro hbs
    rw [inSequence_const_iff fun b _ => hone b, or_iff_right hbs]
  | none =>
    dsimp only
    obtain ⟨⟨buf, u⟩, hread⟩ :=
      readRegister_ok h (show (1 : UInt32) ≠ 0 by decide) (.ofOffset offset)
    have hone : readOnce offset indeterminate b s = .ok (buf, u.updated s.irq indeterminate) :=
      serve_read_register h hdivisor hread _
    have hall := serve_read_register h hdivisor (readRegister_pad hread hsize) indeterminate
    rw [hrest] at hall
    rw [hfirst hone hall]
    apply hor
    intro hbs
    by_cases hdata : Register.ofOffset offset = .data
    · rw [hdata] at hdivisor hread ⊢
      exact data_repeats_iff h hdata hdivisor hread hbs
    · rw [readRegister_byte s.uart hdata] at hread
      cases hread
      rw [register_repeats_iff h hdata hdivisor hbs]
      cases hr : Register.ofOffset offset
      case data => exact absurd hr hdata
      all_goals rfl

end Read

/-! Writes. -/

section Write

variable {s : Wired} {offset : UInt64} {indeterminate : UInt8}

theorem writeOnce_ok (h : Sound s.uart) (offset : UInt64) (indeterminate b : UInt8) :
    ∃ u, Uart.writeRegister { s.uart with baudDivisor := s.uart.divided (.ofOffset offset) [b] }
        (.ofOffset offset) [b] = .ok u ∧ Sound u ∧
      writeOnce offset indeterminate b s = .ok ([], u.updated s.irq indeterminate) := by
  have hb : [b] ≠ [] := List.cons_ne_nil b []
  obtain ⟨u₁, hdivisor⟩ := writeDivisor_ok (u := s.uart) hb (.ofOffset offset)
  have hu₁ := writeDivisor_divided hdivisor
  have hframe : Sound u₁ := by
    rw [hu₁]
    exact h.divisor _
  obtain ⟨u, hregister⟩ := writeRegister_ok hframe hb (.ofOffset offset)
  have hsound := (writeRegister_advances hframe hregister).sound
  have hirq := updateIrq_ok hsound s.irq indeterminate
  refine ⟨u, ?_, hsound, ?_⟩
  · rw [← hu₁]
    exact hregister
  · apply bind_eq_ok.mpr
    exact ⟨_, bind_eq_ok.mpr ⟨_, hdivisor, bind_eq_ok.mpr ⟨_, hregister, hirq⟩⟩, rfl⟩

theorem writeOnce_mono (b : UInt8) (s : Wired) (r : List UInt8) (s' : Wired) (h : Sound s.uart)
    (hf : writeOnce offset indeterminate b s = .ok (r, s')) :
    Sound s'.uart ∧ s.irq.fd ≤ s'.irq.fd := by
  have hstep : Step s ⟨.write offset [b], indeterminate, r⟩ s' := hf
  exact ⟨(step_advances h hstep).sound, step_fd h hstep⟩

/-- Something that every byte overwrites: a string leaves its first byte there, and as many
writes leave the last. -/
theorem not_idle_of_overwritten {γ : Type} {I : Wired → Prop} {v : Wired → γ} {g : UInt8 → γ}
    (hne : g 0 ≠ g 1) (hs : I s)
    (hstep : ∀ b s r s', I s → writeOnce offset indeterminate b s = .ok (r, s') →
      I s' ∧ v s' = g b)
    {n : Nat} (hn : n ≠ 0) {r : List UInt8} {s₁ : Wired}
    (hfirst : writeOnce offset indeterminate 0 s = .ok (r, s₁))
    (h : inSequence (writeOnce offset indeterminate) (List.replicate n 1) s₁ = .ok ([], s₁)) :
    False := by
  obtain ⟨hs₁, hzero⟩ := hstep 0 s r s₁ hs hfirst
  have hone := inSequence_settles (I := I) (v := v) (x := g 1) (by simpa using hn)
    (fun b hb s r s' hs hf => by
      rw [List.eq_of_mem_replicate hb] at hf
      exact hstep 1 s r s' hs hf) hs₁ h
  exact hne (hzero.symm.trans hone)

theorem divided_self (u : Uart) {register : Register} (hdata : register ≠ .data)
    (hier : register ≠ .ier) (bs : List UInt8) : u.divided register bs = u.baudDivisor := by
  unfold divided
  split
  · cases register
    case data => exact absurd rfl hdata
    case ier => exact absurd rfl hier
    all_goals rfl
  · rfl

theorem writeOnce_ignored (h : Sound s.uart) (hregister : Register.ofOffset offset = .lsr ∨
      Register.ofOffset offset = .msr ∨ Register.ofOffset offset = .unhandled) (b : UInt8) :
    writeOnce offset indeterminate b s = .ok ([], s.uart.updated s.irq indeterminate) := by
  obtain ⟨u, hwrite, -, hone⟩ := writeOnce_ok h offset indeterminate b
  have hdata : Register.ofOffset offset ≠ .data := by
    rcases hregister with hr | hr | hr <;> rw [hr] <;> nofun
  have hier : Register.ofOffset offset ≠ .ier := by
    rcases hregister with hr | hr | hr <;> rw [hr] <;> nofun
  rw [divided_self _ hdata hier] at hwrite
  rw [hone]
  rcases hregister with hr | hr | hr
  all_goals
    rw [hr] at hwrite
    cases hwrite
    rfl

theorem transmit_registers {u u' : Uart} {data : List UInt8} (h : Sound u)
    (ht : u.transmit data = .ok u') :
    u'.ier = u.ier ∧ u'.lcr = u.lcr ∧ u'.mcr = u.mcr ∧ u'.baudDivisor = u.baudDivisor := by
  by_cases hloop : u.isLoop = true
  · unfold transmit at ht
    rw [if_pos hloop] at ht
    split at ht
    · obtain ⟨_, -, ht⟩ := bind_eq_ok.mp ht
      cases ht
      exact ⟨rfl, rfl, rfl, rfl⟩
    · cases ht
      exact ⟨rfl, rfl, rfl, rfl⟩
  · rw [transmit_out h (Bool.eq_false_iff.mpr hloop)] at ht
    obtain ⟨_, -, ht⟩ := bind_eq_ok.mp ((map_eq_pure_bind _ _).symm.trans ht)
    cases ht
    exact ⟨rfl, rfl, rfl, rfl⟩

theorem latch_overwritten (h : Sound s.uart) (hdata : Register.ofOffset offset = .data)
    (hdlab : s.uart.isDlabSet = true) {n : Nat} (hn : n ≠ 0) {r : List UInt8} {s₁ : Wired}
    (hfirst : writeOnce offset indeterminate 0 s = .ok (r, s₁))
    (hseq : inSequence (writeOnce offset indeterminate) (List.replicate n 1) s₁ = .ok ([], s₁)) :
    False := by
  refine not_idle_of_overwritten (I := fun s => Sound s.uart ∧ s.uart.isDlabSet = true)
    (v := fun s => half s.uart.baudDivisor .data) (g := id) (by decide) ⟨h, hdlab⟩ ?_ hn hfirst hseq
  rintro b s r s' ⟨hs, hopen⟩ hf
  have hstep : Step s ⟨.write offset [b], indeterminate, r⟩ s' := hf
  have hlatch := step_latch hstep (Or.inl rfl)
  have hbyte : latchByte .data ⟨s, ⟨.write offset [b], indeterminate, r⟩, s'⟩ = some b :=
    if_pos ⟨hopen, hdata⟩
  rw [hbyte] at hlatch
  obtain ⟨u, hwrite, hu, hone⟩ := writeOnce_ok hs offset indeterminate b
  rw [hone] at hf
  cases hf
  rw [hdata] at hwrite
  have hlcr := (transmit_registers (hs.divisor _) hwrite).2.1
  refine ⟨⟨updated_sound hu s.irq indeterminate, ?_⟩, hlatch⟩
  change isDlabSet u = true
  unfold isDlabSet at hopen ⊢
  rwa [hlcr]

theorem buffer_overwritten (h : Sound s.uart) (hdata : Register.ofOffset offset = .data)
    (hloop : s.uart.isLoop = false) {n : Nat} (hn : n ≠ 0) {r : List UInt8} {s₁ : Wired}
    (hfirst : writeOnce offset indeterminate 0 s = .ok (r, s₁))
    (hseq : inSequence (writeOnce offset indeterminate) (List.replicate n 1) s₁ = .ok ([], s₁)) :
    False := by
  refine not_idle_of_overwritten (I := fun s => Sound s.uart ∧ s.uart.isLoop = false)
    (v := fun s => s.uart.txBuf.toList.head?) (g := some) (by decide) ⟨h, hloop⟩ ?_ hn hfirst hseq
  rintro b s r s' ⟨hs, hout⟩ hf
  obtain ⟨u, hwrite, hu, hone⟩ := writeOnce_ok hs offset indeterminate b
  rw [hone] at hf
  cases hf
  rw [hdata] at hwrite
  change Uart.transmit _ _ = _ at hwrite
  rw [transmit_out (hs.divisor (s.uart.divided .data [b])) hout] at hwrite
  cases hwrite
  refine ⟨⟨updated_sound hu s.irq indeterminate, hout⟩, ?_⟩
  change (s.uart.txBuf.set 0 b).toList.head? = some b
  rw [Vector.toList_set, List.head?_eq_getElem?, List.getElem?_set_self]
  rw [Vector.length_toList]
  decide

theorem writeOnce_loop (h : Sound s.uart) (hdata : Register.ofOffset offset = .data)
    (hdlab : s.uart.isDlabSet = false) (hloop : s.uart.isLoop = true) (indeterminate b : UInt8) :
    ∃ u, writeOnce offset indeterminate b s = .ok ([], u.updated s.irq indeterminate) ∧
      Sound u ∧ u.ier = s.uart.ier ∧ u.isLoop = true ∧ u.isDlabSet = false ∧
      (fifoLen ≤ s.uart.rxCnt.toNat → u = s.uart) ∧
      (s.uart.rxCnt.toNat < fifoLen →
        u.rxCnt.toNat = s.uart.rxCnt.toNat + 1 ∧ u.dataReady = true) := by
  obtain ⟨u, hwrite, hu, hone⟩ := writeOnce_ok h offset indeterminate b
  have hsame : s.uart.divided .data [b] = s.uart.baudDivisor := if_neg (by rw [hdlab]; decide)
  rw [hdata, hsame] at hwrite
  change s.uart.transmit [b] = .ok u at hwrite
  obtain ⟨hier, hlcr, hmcr, -⟩ := transmit_registers h hwrite
  unfold transmit at hwrite
  rw [if_pos hloop] at hwrite
  refine ⟨u, hone, hu, hier, ?_, ?_, ?_, ?_⟩
  · unfold isLoop at hloop ⊢
    rwa [hmcr]
  · unfold isDlabSet at hdlab ⊢
    rwa [hlcr]
  · intro hfull
    rw [dif_neg (not_lt.mpr hfull)] at hwrite
    exact (Except.ok.inj hwrite).symm
  · intro hlt
    rw [dif_pos hlt] at hwrite
    cases hwrite
    have hbit : (s.uart.lsr ||| lsrDataBit) &&& lsrDataBit ≠ 0 := by
      rw [or_and_self]
      decide
    exact ⟨rxCnt_succ hlt, dataReady_iff.mpr hbit⟩

theorem full_of_loop (h : Sound s.uart) (hdata : Register.ofOffset offset = .data)
    (hdlab : s.uart.isDlabSet = false) (hloop : s.uart.isLoop = true) {bs rs : List UInt8}
    (hbs : bs ≠ []) (hseq : inSequence (writeOnce offset indeterminate) bs s = .ok (rs, s)) :
    fifoLen ≤ s.uart.rxCnt.toNat := by
  by_contra hroom
  have hgrows : ∀ b s r s', (Sound s.uart ∧ s.uart.isDlabSet = false ∧ s.uart.isLoop = true) →
      writeOnce offset indeterminate b s = .ok (r, s') →
      (Sound s'.uart ∧ s'.uart.isDlabSet = false ∧ s'.uart.isLoop = true) ∧
        s.uart.rxCnt.toNat ≤ s'.uart.rxCnt.toNat ∧
        (s.uart.rxCnt.toNat < fifoLen → s.uart.rxCnt.toNat < s'.uart.rxCnt.toNat) := by
    rintro b s r s' ⟨hs, hd, hl⟩ hf
    obtain ⟨u, hone, hu, -, hl', hd', hfull, hmore⟩ :=
      writeOnce_loop hs hdata hd hl indeterminate b
    rw [hone] at hf
    cases hf
    refine ⟨⟨updated_sound hu s.irq indeterminate, hd', hl'⟩, ?_, ?_⟩
    · change s.uart.rxCnt.toNat ≤ u.rxCnt.toNat
      rcases Nat.lt_or_ge s.uart.rxCnt.toNat fifoLen with hlt | hge
      · rw [(hmore hlt).1]
        exact Nat.le_succ _
      · rw [hfull hge]
    · intro hlt
      change s.uart.rxCnt.toNat < u.rxCnt.toNat
      rw [(hmore hlt).1]
      exact Nat.lt_succ_self _
  obtain ⟨b, bs, rfl⟩ := List.exists_cons_of_ne_nil hbs
  obtain ⟨r, s₁, rs, hnext, hrest, -⟩ := inSequence_cons_eq_ok hseq
  obtain ⟨hs₁, -, hlt⟩ := hgrows b s r s₁ ⟨h, hdlab, hloop⟩ hnext
  have hback := (inSequence_rel (R := fun s s' : Wired => s.uart.rxCnt.toNat ≤ s'.uart.rxCnt.toNat)
    (fun _ => le_refl _) (fun _ _ _ => le_trans)
    (fun b _ s r s' hs hf => (hgrows b s r s' hs hf).imp id And.left) hs₁ hrest).2
  have hmore := hlt (not_le.mp hroom)
  omega

theorem register_overwritten (h : Sound s.uart)
    (hkept : Register.ofOffset offset = .ier ∨ Register.ofOffset offset = .iir ∨
      Register.ofOffset offset = .lcr ∨ Register.ofOffset offset = .mcr ∨
      Register.ofOffset offset = .scr)
    {n : Nat} (hn : n ≠ 0) {r : List UInt8} {s₁ : Wired}
    (hfirst : writeOnce offset indeterminate 0 s = .ok (r, s₁))
    (hseq : inSequence (writeOnce offset indeterminate) (List.replicate n 1) s₁ = .ok ([], s₁)) :
    False := by
  have hstep : ∀ (field : Uart → UInt8) (g : UInt8 → UInt8),
      (∀ u b u', Uart.writeRegister u (.ofOffset offset) [b] = .ok u' → field u' = g b) →
      (∀ u p, field (identified u p) = field u) →
      ∀ b (s : Wired) r s', Sound s.uart → writeOnce offset indeterminate b s = .ok (r, s') →
        Sound s'.uart ∧ field s'.uart = g b := by
    intro field g hfield hiir b s r s' hs hf
    obtain ⟨u, hwrite, hu, hone⟩ := writeOnce_ok hs offset indeterminate b
    rw [hone] at hf
    cases hf
    refine ⟨updated_sound hu s.irq indeterminate, ?_⟩
    exact (hiir u (u.pending indeterminate)).trans (hfield _ b u hwrite)
  have hend : ∀ (field : Uart → UInt8) (g : UInt8 → UInt8), g 0 ≠ g 1 →
      (∀ u b u', Uart.writeRegister u (.ofOffset offset) [b] = .ok u' → field u' = g b) →
      (∀ u p, field (identified u p) = field u) → False := fun field g hne hfield hiir =>
    not_idle_of_overwritten (I := fun s => Sound s.uart) (v := fun s => field s.uart) hne h
      (hstep field g hfield hiir) hn hfirst hseq
  rcases hkept with hr | hr | hr | hr | hr
  · refine hend Uart.ier (· &&& ierFifoBits) (by decide) ?_ fun _ _ => rfl
    rw [hr]
    rintro u b u' hw
    cases hw
    rfl
  · refine hend Uart.fcr id (by decide) ?_ fun _ _ => rfl
    rw [hr]
    rintro u b u' hw
    cases hw
    rfl
  · refine hend Uart.lcr id (by decide) ?_ fun _ _ => rfl
    rw [hr]
    rintro u b u' hw
    cases hw
    rfl
  · refine hend Uart.mcr id (by decide) ?_ fun _ _ => rfl
    rw [hr]
    rintro u b u' hw
    cases hw
    rfl
  · refine hend Uart.scr id (by decide) ?_ fun _ _ => rfl
    rw [hr]
    rintro u b u' hw
    cases hw
    rfl

theorem loop_repeats (h : Sound s.uart) (hdata : Register.ofOffset offset = .data)
    (hdlab : s.uart.isDlabSet = false) (hloop : s.uart.isLoop = true)
    (hfull : fifoLen ≤ s.uart.rxCnt.toNat + 1) (hsilent : s.uart.Silent indeterminate) (b : UInt8) :
    ∃ s', writeOnce offset indeterminate b s = .ok ([], s') ∧
      ∀ b', writeOnce offset indeterminate b' s' = .ok ([], s') := by
  obtain ⟨u, hone, hu, hier, hloop', hdlab', hkept, hmore⟩ :=
    writeOnce_loop h hdata hdlab hloop indeterminate b
  have hready : s.uart.dataReady = true := by
    by_contra hnone
    have hnot : ¬ s.uart.rxDone.toNat < s.uart.rxCnt.toNat := by rwa [← h.ready]
    have heq : s.uart.rxDone = s.uart.rxCnt := by
      have hdone := h.done_le
      exact UInt8.toNat_inj.mp (by omega)
    rw [h.drained heq] at hfull
    exact absurd hfull (by decide)
  have hfull' : fifoLen ≤ u.rxCnt.toNat ∧ u.dataReady = true := by
    rcases Nat.lt_or_ge s.uart.rxCnt.toNat fifoLen with hlt | hge
    · obtain ⟨hcnt, hready'⟩ := hmore hlt
      exact ⟨by omega, hready'⟩
    · rw [hkept hge]
      exact ⟨hge, hready⟩
  have hquiet : u.pending indeterminate = 0 := by
    obtain ⟨hv, hrecv, hthr⟩ := hsilent
    rw [silent_iff hu, Silent, hier, hfull'.2]
    refine ⟨hv, Or.inl (hrecv.resolve_right ?_), hthr⟩
    rw [hready]
    decide
  refine ⟨_, hone, fun b' => ?_⟩
  obtain ⟨u', hone', -, -, -, -, hkept', -⟩ :=
    writeOnce_loop (updated_sound hu s.irq indeterminate) hdata hdlab' hloop' indeterminate b'
  have hsame : u' = (u.updated s.irq indeterminate).uart := hkept' hfull'.1
  rw [hone', hsame, updated_updated hquiet]

theorem idle_of_loop (h : Sound s.uart) (hdata : Register.ofOffset offset = .data)
    (hdlab : s.uart.isDlabSet = false) (hloop : s.uart.isLoop = true) {b : UInt8}
    {bs r rs : List UInt8} {s₁ : Wired} (hbs : bs ≠ [])
    (hfirst : writeOnce offset indeterminate b s = .ok (r, s₁))
    (hseq : inSequence (writeOnce offset indeterminate) bs s₁ = .ok (rs, s₁)) :
    fifoLen ≤ s.uart.rxCnt.toNat + 1 ∧ s.uart.Silent indeterminate := by
  obtain ⟨u, hone, hu, hier, hloop', hdlab', hkept, hmore⟩ :=
    writeOnce_loop h hdata hdlab hloop indeterminate b
  rw [hone] at hfirst
  cases hfirst
  have hsound := updated_sound hu s.irq indeterminate
  have hfull : fifoLen ≤ u.rxCnt.toNat := full_of_loop hsound hdata hdlab' hloop' hbs hseq
  have hquiet := silent_of_sequence hbs hu writeOnce_mono (fun b r s' hf => by
    obtain ⟨u', hone', -, -, -, -, hkept', -⟩ :=
      writeOnce_loop hsound hdata hdlab' hloop' indeterminate b
    rw [hone'] at hf
    cases hf
    rw [hkept' hfull]) hseq
  obtain ⟨hv, hrecv, hthr⟩ := (silent_iff hu _).mp hquiet
  rw [hier] at hrecv hthr
  rcases Nat.lt_or_ge s.uart.rxCnt.toNat fifoLen with hlt | hge
  · obtain ⟨hcnt, hready⟩ := hmore hlt
    refine ⟨by omega, hv, Or.inl (hrecv.resolve_right ?_), hthr⟩
    rw [hready]
    decide
  · rw [hkept hge] at hrecv
    exact ⟨hge.trans (Nat.le_succ _), hv, hrecv, hthr⟩

theorem serve_write_cons (s : Wired) (offset : UInt64) (indeterminate b : UInt8)
    (bs : List UInt8) :
    s.serve (.write offset (b :: bs)) indeterminate = writeOnce offset indeterminate b s := by
  have hfirst : s.uart.write s.irq indeterminate (b :: bs) offset =
      s.uart.write s.irq indeterminate [b] offset :=
    write_congr rfl s.uart s.irq indeterminate offset
  unfold writeOnce Wired.serve
  dsimp only
  rw [hfirst]

theorem write_repeats_iff {n : Nat} (h : Sound s.uart) (hn : n ≠ 0) :
    (∀ bs : List UInt8, bs.length = n → s.serve (.write offset bs) indeterminate =
        inSequence (writeOnce offset indeterminate) bs s) ↔
      n = 1 ∨ s.uart.IdleWrite offset indeterminate := by
  obtain ⟨n, rfl⟩ := Nat.exists_eq_succ_of_ne_zero hn
  have hcons : ∀ {b bs s'}, writeOnce offset indeterminate b s = .ok ([], s') →
      (s.serve (.write offset (b :: bs)) indeterminate =
        inSequence (writeOnce offset indeterminate) (b :: bs) s ↔
        inSequence (writeOnce offset indeterminate) bs s' = .ok ([], s')) := by
    intro b bs s' hfirst
    rw [serve_write_cons, hfirst]
    exact first_eq_inSequence_iff hfirst []
  have hidle : ∀ {s bs}, (∀ b ∈ bs, writeOnce offset indeterminate b s = .ok ([], s)) →
      inSequence (writeOnce offset indeterminate) bs s = .ok ([], s) := by
    intro s bs h
    rw [inSequence_idle h, List.flatten_replicate_nil]
  rw [Nat.succ_eq_add_one, Nat.add_eq_right]
  constructor
  · intro hall
    by_cases hn : n = 0
    · exact Or.inl hn
    right
    obtain ⟨u, -, hu, hfirst⟩ := writeOnce_ok h offset indeterminate 0
    have hseq := (hcons hfirst).mp (hall (0 :: List.replicate n 1) (by simp))
    have hbs : List.replicate n (1 : UInt8) ≠ [] := by simpa using hn
    unfold IdleWrite
    cases hr : Register.ofOffset offset
    case data =>
      have hdlab : s.uart.isDlabSet = false := by
        by_contra hopen
        exact latch_overwritten h hr (Bool.not_eq_false _ ▸ hopen) hn hfirst hseq
      have hloop : s.uart.isLoop = true := by
        by_contra hout
        exact buffer_overwritten h hr (Bool.not_eq_true _ ▸ hout) hn hfirst hseq
      exact ⟨hdlab, hloop, idle_of_loop h hr hdlab hloop hbs hfirst hseq⟩
    case lsr | msr | unhandled =>
      have hignored : ∀ {s : Wired}, Sound s.uart → ∀ b, writeOnce offset indeterminate b s =
          .ok ([], s.uart.updated s.irq indeterminate) := fun hs b =>
        writeOnce_ignored hs (by simp [hr]) b
      have heq : u.updated s.irq indeterminate = s.uart.updated s.irq indeterminate :=
        (Prod.mk.inj (Except.ok.inj (hfirst.symm.trans (hignored h 0)))).2
      rw [heq] at hseq
      refine (silent_iff h _).mp
        (silent_of_sequence hbs h writeOnce_mono (fun b r s' hf => ?_) hseq)
      rw [hignored (updated_sound h s.irq indeterminate)] at hf
      cases hf
      rfl
    all_goals exact register_overwritten h (by simp [hr]) hn hfirst hseq
  · intro hcond bs hlen
    obtain ⟨b, bs, rfl⟩ :=
      List.exists_cons_of_ne_nil (List.ne_nil_of_length_pos (l := bs) (by omega))
    rw [List.length_cons, Nat.add_right_cancel_iff] at hlen
    obtain ⟨u, -, hu, hfirst⟩ := writeOnce_ok h offset indeterminate b
    rcases hcond with hone | hcond
    · rw [List.length_eq_zero_iff.mp (hlen.trans hone), hcons hfirst]
      rfl
    · unfold IdleWrite at hcond
      cases hr : Register.ofOffset offset
      case data =>
        rw [hr] at hcond
        obtain ⟨hdlab, hloop, hfull, hsilent⟩ := hcond
        obtain ⟨s', hfirst, hnext⟩ := loop_repeats h hr hdlab hloop hfull hsilent b
        exact (hcons hfirst).mpr (hidle fun b' _ => hnext b')
      case lsr | msr | unhandled =>
        rw [hr] at hcond
        have hignored : ∀ {s : Wired}, Sound s.uart → ∀ b, writeOnce offset indeterminate b s =
            .ok ([], s.uart.updated s.irq indeterminate) := fun hs b =>
          writeOnce_ignored hs (by simp [hr]) b
        refine (hcons (hignored h b)).mpr (hidle fun b' _ => ?_)
        rw [hignored (updated_sound h s.irq indeterminate),
          updated_updated ((silent_iff h _).mpr hcond)]
      all_goals
        rw [hr] at hcond
        exact absurd hcond id

end Write

end Kthxvm.Uart
