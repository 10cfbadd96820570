import Kthxvm.Machine

/-! What a guest exit depends on: the fields of the shared page that the exit
defines, or also the bytes that earlier exits have left there. -/
namespace Kthxvm

open IoDevice Virtio Lib.ByteMemory

def Io.length (io : Io) : Nat := (io.count * io.size.toUInt32).toNat

/-- The fields that an exit defines, with the data that the guest sends. -/
inductive Exit where
  | io (transfer : Io) (data : List UInt8)
  | mmio (physAddr : UInt64) (len : UInt32) (isWrite : UInt8) (data : List UInt8)
  | other (reason : UInt32)
deriving DecidableEq

namespace KvmRun

def sent (run : KvmRun) : Exit :=
  if run.exitReason = kvmExitIo then
    .io run.io (if run.io.direction = kvmExitIoOut then run.ioData.take run.io.length else [])
  else if run.exitReason = kvmExitMmio then
    .mmio run.mmio.physAddr run.mmio.len run.mmio.isWrite
      (if run.mmio.isWrite = 0 then [] else run.mmio.data.toList.take run.mmio.len.toNat)
  else .other run.exitReason

def handed (run : KvmRun) : List UInt8 :=
  if run.exitReason = kvmExitIo then
    if run.io.direction = kvmExitIoIn then run.ioData.take run.io.length else []
  else if run.exitReason = kvmExitMmio then
    if run.mmio.isWrite = 0 then run.mmio.data.toList.take run.mmio.len.toNat else []
  else []

end KvmRun

def Machine.outcome (m : Machine) (world : World) (run : KvmRun) :
    Except Fault (Option UInt32 × Machine × List UInt8) := do
  let (code, m, run) ← m.runCpu world run
  return (code, m, run.handed)

namespace Exit

/-- Pages that carry the same exit are served alike. -/
def SentOnly (x : Exit) : Prop :=
  ∀ (m : Machine) (world : World) (run run' : KvmRun), run.sent = x → run'.sent = x →
    m.outcome world run = m.outcome world run'

/-- What KVM promises of an exit: an access has one of four widths, and a port
transfer has at least one byte. -/
def Proper : Exit → Prop
  | .io transfer data =>
    0 < transfer.length ∧
      data.length = if transfer.direction = kvmExitIoOut then transfer.length else 0
  | .mmio _ len isWrite data =>
    len ∈ [1, 2, 4, 8] ∧ data.length = if isWrite = 0 then 0 else len.toNat
  | .other _ => True

end Exit

/-- A register for which four bytes that start with `value` are as good as any
others that do. -/
def Virtio.Register.IgnoresRest (value : Nat) : Register → Prop
  | .deviceFeaturesSel | .driverFeaturesSel | .interruptAck => value ≠ 1
  | .driverFeatures | .queueSel | .queueNum | .queueNotify | .queueDescLow | .queueDescHigh
  | .queueAvailLow | .queueAvailHigh | .queueUsedLow | .queueUsedHigh => False
  | _ => True

/-- A read needs a device to claim it, and a narrow write to a device a register
that makes nothing of the bytes past it. -/
def Exit.Settled : Exit → Prop
  | .io transfer _ =>
    transfer.direction = kvmExitIoIn → (PortDevice.claimant transfer.port.toUInt64).isSome
  | .mmio addr len isWrite data =>
    match MmioDevice.claimant addr with
    | none => isWrite ≠ 0
    | some k => isWrite = 0 ∨ 4 ≤ len.toNat ∨
        (Register.ofOffset (k.window.offset addr)).IgnoresRest (natOfBytes data)
  | .other _ => True

/-! What the devices return is as long as what they were asked for. -/

theorem Machine.length_portRead {m m' : Machine} {world : World} {p : PortDevice} {offset : UInt64}
    {size : UInt32} {buf : List UInt8} (h : m.portRead world p offset size = .ok (buf, m')) :
    buf.length = size.toNat := by
  cases p with
  | i8042 =>
    obtain ⟨⟨_, _, _⟩, hread, h⟩ := bind_eq_ok.mp h
    cases h
    exact I8042.length_read hread
  | ttyS n =>
    obtain ⟨⟨_, _, _⟩, hread, h⟩ := bind_eq_ok.mp h
    cases h
    exact Uart.length_read hread

/-! Of what a device is sent it uses what was sent. -/

section Sent

variable {data data' : List UInt8}

theorem Machine.portWrite_congr (h : firstByte data = firstByte data') (m : Machine)
    (world : World) (p : PortDevice) (offset : UInt64) :
    m.portWrite world p data offset = m.portWrite world p data' offset := by
  unfold Machine.portWrite
  cases p with
  | i8042 =>
    dsimp only
    rw [I8042.write_congr h]
  | ttyS n =>
    dsimp only
    rw [Uart.write_congr h]

end Sent

theorem Virtio.Device.getWord_sent {data sent : List UInt8} {n : Nat} (hlen : 4 ≤ data.length)
    (hn : n ≤ 4) (hsent : data.take n = sent) : ∃ (value : UInt32) (rest : Nat),
      getWord data = .ok value ∧ value.toNat = natOfBytes sent + 256 ^ n * rest := by
  have hword : (data.take 4).length = 4 := List.length_take_of_le hlen
  have hfirst : (data.take 4).take n = sent := by
    rw [List.take_take, min_eq_left hn, hsent]
  have hsplit : natOfBytes (data.take 4) =
      natOfBytes sent + 256 ^ n * natOfBytes ((data.take 4).drop n) := by
    conv_lhs => rw [← List.take_append_drop n (data.take 4)]
    rw [natOfBytes_append, hfirst, ← hfirst, List.length_take_of_le (by omega)]
  have hlt := natOfBytes_lt (data.take 4)
  rw [hword] at hlt
  refine ⟨UInt32.ofNat (natOfBytes (data.take 4)), natOfBytes ((data.take 4).drop n), ?_, ?_⟩
  · unfold getWord
    rw [if_neg (by omega)]
  · rw [UInt32.toNat_ofNat']
    exact (Nat.mod_eq_of_lt hlt).trans hsplit

namespace Virtio.Device

variable {t : DeviceType} (d : Device t) {size : UInt32} {data data' : List UInt8}

theorem writeRegister_data (register : Register) (value : UInt32)
    (hlen : size.toNat ≤ data.length) (hlen' : size.toNat ≤ data'.length)
    (hsent : data.take size.toNat = data'.take size.toNat) :
    d.writeRegister register value data size = d.writeRegister register value data' size := by
  cases register
  case config offset =>
    unfold writeRegister writeConfig
    dsimp only
    split
    · rfl
    · simp only [hlen, hlen', and_true, hsent]
  all_goals rfl

/-- Two words that start with the same bytes, in a register that makes nothing of
the others. -/
theorem writeRegister_value {register : Register} {value value' : UInt32} {low n rest rest' : Nat}
    (hn : 0 < n) (hvalue : value.toNat = low + 256 ^ n * rest)
    (hvalue' : value'.toNat = low + 256 ^ n * rest') (h : register.IgnoresRest low) :
    d.writeRegister register value data size = d.writeRegister register value' data size := by
  obtain ⟨n, rfl⟩ := Nat.exists_eq_succ_of_ne_zero hn.ne'
  rw [Nat.pow_succ', mul_assoc] at hvalue hvalue'
  have hone : ∀ {v : UInt32} {r : Nat}, low ≠ 1 → v.toNat = low + 256 * r → v ≠ 1 := by
    rintro v r hlow hv rfl
    have hunit : (1 : UInt32).toNat = 1 := rfl
    omega
  cases register
  case status =>
    have hbyte : value.toUInt8 = value'.toUInt8 := by
      rw [← UInt8.toNat_inj, UInt32.toNat_toUInt8, UInt32.toNat_toUInt8]
      omega
    unfold writeRegister writeStatus
    rw [hbyte]
  case deviceFeaturesSel | driverFeaturesSel | interruptAck =>
    unfold writeRegister
    simp only [hone h hvalue, hone h hvalue', decide_false, if_false]
  case driverFeatures | queueSel | queueNum | queueNotify | queueDescLow | queueDescHigh
      | queueAvailLow | queueAvailHigh | queueUsedLow | queueUsedHigh => exact absurd h id
  all_goals rfl

theorem mmioWrite_congr {offset : UInt64} (hpos : 0 < size.toNat) (hfour : 4 ≤ data.length)
    (hfour' : 4 ≤ data'.length) (hlen : size.toNat ≤ data.length)
    (hlen' : size.toNat ≤ data'.length)
    (hsent : data.take size.toNat = data'.take size.toNat)
    (h : 4 ≤ size.toNat ∨
      (Register.ofOffset offset).IgnoresRest (natOfBytes (data.take size.toNat))) :
    d.mmioWrite data offset size = d.mmioWrite data' offset size := by
  unfold mmioWrite
  rcases Nat.lt_or_ge size.toNat 4 with hnarrow | hwide
  · obtain ⟨value, rest, hget, hvalue⟩ := getWord_sent hfour hnarrow.le rfl
    obtain ⟨value', rest', hget', hvalue'⟩ := getWord_sent hfour' hnarrow.le hsent.symm
    rw [hget, hget']
    have hignores := h.resolve_left (by omega)
    refine (d.writeRegister_value hpos hvalue hvalue' hignores).trans ?_
    exact d.writeRegister_data _ value' hlen hlen' hsent
  · have hword : data.take 4 = data'.take 4 := by
      rw [← min_eq_left hwide, ← List.take_take, hsent, List.take_take]
    have hget : getWord data = getWord data' := by
      unfold getWord
      rw [if_neg (by omega), if_neg (by omega), hword]
    rw [hget]
    cases getWord data' with
    | error e => rfl
    | ok value => exact d.writeRegister_data _ value hlen hlen' hsent

end Virtio.Device

/-! One iteration for each kind of exit, by what it depends on. -/

section Outcome

variable {m : Machine} {world : World} {run : KvmRun}

theorem take_overwrite {buf : List UInt8} {n : Nat} (h : buf.length = n) (data : List UInt8) :
    (buf ++ data.drop buf.length).take n = buf := by
  rw [← h]
  exact List.take_left

theorem outcome_portIn (hio : run.exitReason = kvmExitIo) (hin : run.io.direction = kvmExitIoIn)
    {p : PortDevice} (hp : PortDevice.claimant run.io.port.toUInt64 = some p) :
    m.outcome world run =
      (m.portRead world p (p.window.offset run.io.port.toUInt64)
        (run.io.count * run.io.size.toUInt32)).map fun (buf, m) => (none, m, buf) := by
  unfold Machine.outcome Machine.runCpu
  rw [if_pos hio, hp]
  dsimp only
  unfold Machine.handleIoDevice
  rw [if_pos hin]
  cases hread : m.portRead world p (p.window.offset run.io.port.toUInt64)
      (run.io.count * run.io.size.toUInt32) with
  | error e => rfl
  | ok result =>
    obtain ⟨buf, m'⟩ := result
    have hbuf := take_overwrite (Machine.length_portRead hread) run.ioData
    refine congrArg (fun bytes => Except.ok (none, m', bytes)) ?_
    unfold KvmRun.handed
    rw [if_pos hio, if_pos hin]
    exact hbuf

theorem outcome_portOut (hio : run.exitReason = kvmExitIo)
    (hout : run.io.direction = kvmExitIoOut) {p : PortDevice}
    (hp : PortDevice.claimant run.io.port.toUInt64 = some p) :
    m.outcome world run =
      (m.portWrite world p run.ioData (p.window.offset run.io.port.toUInt64)).map
        fun m => (none, m, []) := by
  have hin : run.io.direction ≠ kvmExitIoIn := by
    rw [hout]
    decide
  unfold Machine.outcome Machine.runCpu
  rw [if_pos hio, hp]
  dsimp only
  unfold Machine.handleIoDevice
  rw [if_neg hin, if_pos hout]
  cases m.portWrite world p run.ioData (p.window.offset run.io.port.toUInt64) with
  | error e => rfl
  | ok m' =>
    refine congrArg (fun bytes => Except.ok (none, m', bytes)) ?_
    unfold KvmRun.handed
    rw [if_pos hio, if_neg hin]

theorem outcome_port_idle (hio : run.exitReason = kvmExitIo)
    (h : PortDevice.claimant run.io.port.toUInt64 = none ∨
      run.io.direction ≠ kvmExitIoIn ∧ run.io.direction ≠ kvmExitIoOut) :
    m.outcome world run = .ok (none, m, run.handed) := by
  unfold Machine.outcome Machine.runCpu
  rw [if_pos hio]
  split
  next p hp =>
    rw [hp] at h
    obtain ⟨hin, hout⟩ := h.resolve_left (by simp)
    unfold Machine.handleIoDevice
    rw [if_neg hin, if_neg hout]
    rfl
  next => rfl

theorem mmio_ne_io : kvmExitMmio ≠ kvmExitIo := by decide

theorem copyIn_ok (data : Vector UInt8 8) {buf : List UInt8} (h : buf.length ≤ 8) :
    ∃ data', Machine.copyIn data buf = .ok data' ∧ data'.toList.take buf.length = buf := by
  refine ⟨_, if_pos h, ?_⟩
  apply List.ext_getElem
  · rw [List.length_take, Vector.length_toList]
    omega
  · intro i hi hi'
    rw [List.getElem_take, Vector.getElem_toList, Vector.getElem_ofFn]
    exact List.getD_eq_getElem _ _ hi'

theorem copyIn_nil (data : Vector UInt8 8) : Machine.copyIn data [] = .ok data := by
  refine (if_pos (Nat.zero_le 8)).trans (congrArg Except.ok ?_)
  ext i hi
  rw [Vector.getElem_ofFn]
  rfl

theorem outcome_mmioRead (hmmio : run.exitReason = kvmExitMmio) (hread : run.mmio.isWrite = 0)
    (hlen : run.mmio.len.toNat ≤ 8) {k : MmioDevice}
    (hk : MmioDevice.claimant run.mmio.physAddr = some k) :
    m.outcome world run = do
      let buf ← (m.virtio k).mmioRead (k.window.offset run.mmio.physAddr) run.mmio.len
      let m ← m.update world
      return (none, m, buf) := by
  have hio : run.exitReason ≠ kvmExitIo := hmmio ▸ mmio_ne_io
  unfold Machine.outcome Machine.runCpu Machine.mmioRead
  rw [if_neg hio, if_pos hmmio, if_pos hread, hk]
  dsimp only
  cases hbuf : (m.virtio k).mmioRead (k.window.offset run.mmio.physAddr) run.mmio.len with
  | error e => rfl
  | ok buf =>
    have hlength := Device.length_mmioRead hbuf
    obtain ⟨data, hdata, htake⟩ := copyIn_ok run.mmio.data (hlength.trans_le hlen)
    rw [hlength] at htake
    simp only [ok_bind, bind_assoc, hdata]
    cases m.update world with
    | error e => rfl
    | ok m' =>
      refine congrArg (fun bytes => Except.ok (none, m', bytes)) ?_
      unfold KvmRun.handed
      rw [if_neg hio, if_pos hmmio, if_pos hread]
      exact htake

theorem outcome_mmioRead_unclaimed (hmmio : run.exitReason = kvmExitMmio)
    (hread : run.mmio.isWrite = 0) (hk : MmioDevice.claimant run.mmio.physAddr = none) :
    m.outcome world run = (m.update world).map fun m => (none, m, run.handed) := by
  have hio : run.exitReason ≠ kvmExitIo := hmmio ▸ mmio_ne_io
  unfold Machine.outcome Machine.runCpu Machine.mmioRead
  rw [if_neg hio, if_pos hmmio, if_pos hread, hk]
  simp only [ok_bind, bind_assoc, copyIn_nil]
  cases m.update world with
  | error e => rfl
  | ok m' => rfl

theorem outcome_mmioWrite (hmmio : run.exitReason = kvmExitMmio) (hwrite : run.mmio.isWrite ≠ 0) :
    m.outcome world run = do
      let m ← m.mmioWrite run.mmio.data.toList run.mmio.physAddr run.mmio.len
      let m ← m.update world
      return (none, m, []) := by
  have hio : run.exitReason ≠ kvmExitIo := hmmio ▸ mmio_ne_io
  have hhanded : run.handed = [] := by
    unfold KvmRun.handed
    rw [if_neg hio, if_pos hmmio, if_neg hwrite]
  unfold Machine.outcome Machine.runCpu
  rw [if_neg hio, if_pos hmmio, if_neg hwrite]
  simp only [bind_assoc, pure_bind, hhanded]

theorem outcome_other (hio : run.exitReason ≠ kvmExitIo) (hmmio : run.exitReason ≠ kvmExitMmio) :
    m.outcome world run =
      if run.exitReason = kvmExitDebug ∨ run.exitReason = kvmExitIntr then .ok (none, m, [])
      else if run.exitReason = kvmExitShutdown ∨ run.exitReason = kvmExitHlt then
        .ok (some 0, m, [])
      else .ok (some run.exitReason, m, []) := by
  have hhanded : run.handed = [] := by
    unfold KvmRun.handed
    rw [if_neg hio, if_neg hmmio]
  unfold Machine.outcome Machine.runCpu
  rw [if_neg hio, if_neg hmmio, ← hhanded]
  split
  · rfl
  · split <;> rfl

end Outcome

section Sent

variable {run : KvmRun}

theorem sent_io {io : Io} {data : List UInt8} (h : run.sent = .io io data) :
    run.exitReason = kvmExitIo ∧ run.io = io ∧
      data = if io.direction = kvmExitIoOut then run.ioData.take io.length else [] := by
  unfold KvmRun.sent at h
  split at h
  next hio =>
    cases h
    exact ⟨hio, rfl, rfl⟩
  · split at h <;> contradiction

theorem sent_mmio {addr : UInt64} {len : UInt32} {isWrite : UInt8} {data : List UInt8}
    (h : run.sent = .mmio addr len isWrite data) :
    run.exitReason = kvmExitMmio ∧ run.mmio.physAddr = addr ∧ run.mmio.len = len ∧
      run.mmio.isWrite = isWrite ∧
      data = if isWrite = 0 then [] else run.mmio.data.toList.take len.toNat := by
  unfold KvmRun.sent at h
  split at h
  · contradiction
  · split at h
    next hmmio =>
      cases h
      exact ⟨hmmio, rfl, rfl, rfl, rfl⟩
    · contradiction

theorem sent_other {reason : UInt32} (h : run.sent = .other reason) :
    run.exitReason = reason ∧ reason ≠ kvmExitIo ∧ reason ≠ kvmExitMmio := by
  unfold KvmRun.sent at h
  split at h
  · contradiction
  next hio =>
    split at h
    · contradiction
    next hmmio =>
      cases h
      exact ⟨rfl, hio, hmmio⟩

end Sent

section Settled

variable {addr : UInt64} {len : UInt32} {isWrite : UInt8} {data : List UInt8}

theorem settled_unclaimed (hk : MmioDevice.claimant addr = none) :
    (Exit.mmio addr len isWrite data).Settled ↔ isWrite ≠ 0 := by
  simp only [Exit.Settled, hk]

theorem settled_claimed {k : MmioDevice} (hk : MmioDevice.claimant addr = some k) :
    (Exit.mmio addr len isWrite data).Settled ↔ isWrite = 0 ∨ 4 ≤ len.toNat ∨
      (Register.ofOffset (k.window.offset addr)).IgnoresRest (natOfBytes data) := by
  simp only [Exit.Settled, hk]

end Settled

theorem sentOnly_io {io : Io} {data : List UInt8} (hlen : 0 < io.length)
    (h : (Exit.io io data).Settled) : (Exit.io io data).SentOnly := by
  intro m world run run' hsent hsent'
  obtain ⟨hio, rfl, hdata⟩ := sent_io hsent
  obtain ⟨hio', heq, hdata'⟩ := sent_io hsent'
  have hhanded : run.io.direction ≠ kvmExitIoIn → run.handed = run'.handed := by
    intro hin
    unfold KvmRun.handed
    rw [if_pos hio, if_pos hio', heq, if_neg hin, if_neg hin]
  cases hp : PortDevice.claimant run.io.port.toUInt64 with
  | none =>
    have hin : run.io.direction ≠ kvmExitIoIn := by
      intro hin
      have hclaimed := h hin
      rw [hp] at hclaimed
      contradiction
    rw [outcome_port_idle hio (Or.inl hp), outcome_port_idle hio' (Or.inl (heq ▸ hp)),
      hhanded hin]
  | some p =>
    by_cases hin : run.io.direction = kvmExitIoIn
    · rw [outcome_portIn hio hin hp, outcome_portIn hio' (heq ▸ hin) (heq ▸ hp), heq]
    · by_cases hout : run.io.direction = kvmExitIoOut
      · rw [if_pos hout] at hdata hdata'
        have hfirst := firstByte_congr hlen (hdata.symm.trans hdata')
        rw [outcome_portOut hio hout hp, outcome_portOut hio' (heq ▸ hout) (heq ▸ hp), heq,
          Machine.portWrite_congr hfirst]
      · rw [outcome_port_idle hio (Or.inr ⟨hin, hout⟩),
          outcome_port_idle hio' (Or.inr (heq ▸ ⟨hin, hout⟩)), hhanded hin]

theorem sentOnly_other (reason : UInt32) : (Exit.other reason).SentOnly := by
  intro m world run run' hsent hsent'
  obtain ⟨rfl, hio, hmmio⟩ := sent_other hsent
  obtain ⟨heq, -, -⟩ := sent_other hsent'
  rw [outcome_other hio hmmio, outcome_other (heq ▸ hio) (heq ▸ hmmio), heq]

theorem sentOnly_mmioRead {addr : UInt64} {len : UInt32} {data : List UInt8}
    (hlen : len.toNat ≤ 8) (h : (Exit.mmio addr len 0 data).Settled) :
    (Exit.mmio addr len 0 data).SentOnly := by
  intro m world run run' hsent hsent'
  obtain ⟨hmmio, rfl, rfl, hread, -⟩ := sent_mmio hsent
  obtain ⟨hmmio', haddr, hlen', hread', -⟩ := sent_mmio hsent'
  cases hk : MmioDevice.claimant run.mmio.physAddr with
  | none =>
    exact absurd rfl ((settled_unclaimed hk).mp h)
  | some k =>
    rw [outcome_mmioRead hmmio hread hlen hk,
      outcome_mmioRead hmmio' hread' (hlen' ▸ hlen) (haddr ▸ hk), haddr, hlen']

theorem sentOnly_mmioWrite {addr : UInt64} {len : UInt32} {isWrite : UInt8} {data : List UInt8}
    (hwrite : isWrite ≠ 0) (hlen : len.toNat ≤ 8) (hpos : 0 < len.toNat)
    (h : (Exit.mmio addr len isWrite data).Settled) :
    (Exit.mmio addr len isWrite data).SentOnly := by
  intro m world run run' hsent hsent'
  obtain ⟨hmmio, rfl, rfl, rfl, hdata⟩ := sent_mmio hsent
  obtain ⟨hmmio', haddr, hlen', hwrite', hdata'⟩ := sent_mmio hsent'
  rw [if_neg hwrite] at hdata hdata'
  rw [outcome_mmioWrite hmmio hwrite, outcome_mmioWrite hmmio' (hwrite' ▸ hwrite), haddr, hlen']
  suffices heq : m.mmioWrite run.mmio.data.toList run.mmio.physAddr run.mmio.len =
      m.mmioWrite run'.mmio.data.toList run.mmio.physAddr run.mmio.len by rw [heq]
  unfold Machine.mmioWrite
  cases hk : MmioDevice.claimant run.mmio.physAddr with
  | none => rfl
  | some k =>
    dsimp only
    suffices heq : (m.virtio k).mmioWrite run.mmio.data.toList (k.window.offset run.mmio.physAddr)
        run.mmio.len = (m.virtio k).mmioWrite run'.mmio.data.toList
        (k.window.offset run.mmio.physAddr) run.mmio.len by rw [heq]
    have hbytes : run.mmio.data.toList.length = 8 := Vector.length_toList
    have hbytes' : run'.mmio.data.toList.length = 8 := Vector.length_toList
    have hsettled := ((settled_claimed hk).mp h).resolve_left hwrite
    rw [hdata] at hsettled
    exact Device.mmioWrite_congr _ hpos (by omega) (by omega) (by omega) (by omega)
      (hdata.symm.trans hdata') hsettled

end Kthxvm
