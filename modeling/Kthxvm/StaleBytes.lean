import Kthxvm.Exits

/-! Which exits leave the bytes of earlier exits a way to the devices or to the guest:
for each exit that is not settled, two pages that carry it and are served differently. -/
namespace Kthxvm

open IoDevice Virtio Lib.ByteMemory

/-- A machine that nobody has touched, but whose virtio devices hold their lines high. -/
def untouched : Machine where
  keyboard := { buffer := Vector.replicate I8042.bufSize 0 }
  serial := fun _ =>
    { term := none
      rxBuf := Vector.replicate Uart.fifoLen 0
      txBuf := Vector.replicate Uart.fifoLen 0 }
  lines := fun n => { number := UInt32.ofNat n }
  virtio := fun k => Device.fresh k.type { number := 12, state := true } []
  guest := ⟨fun _ => 0, 0⟩

def someWorld : World := ⟨fun _ => [], 1⟩

/-- Pages that carry a port transfer or an access to memory, with `stale` in every byte
that the guest has not sent. -/
def portPage (transfer : Io) (data : List UInt8) (stale : UInt8) : KvmRun where
  exitReason := kvmExitIo
  io := transfer
  ioData := data ++ List.replicate transfer.length stale
  mmio := ⟨0, Vector.replicate 8 stale, 0, 0⟩

def mmioPage (addr : UInt64) (len : UInt32) (isWrite : UInt8) (data : List UInt8)
    (stale : UInt8) : KvmRun where
  exitReason := kvmExitMmio
  io := ⟨0, 0, 0, 0⟩
  ioData := []
  mmio := ⟨addr, Vector.ofFn fun i => data.getD i stale, len, isWrite⟩

theorem sent_portPage {transfer : Io} {data : List UInt8} (h : (Exit.io transfer data).Proper)
    (stale : UInt8) : (portPage transfer data stale).sent = .io transfer data := by
  obtain ⟨-, hlen⟩ := h
  unfold KvmRun.sent portPage
  rw [if_pos rfl]
  dsimp only
  split
  next hout =>
    rw [if_pos hout] at hlen
    rw [← hlen, List.take_left]
  next hout =>
    rw [if_neg hout] at hlen
    rw [List.eq_nil_of_length_eq_zero hlen]

theorem toList_padded (data : List UInt8) (stale : UInt8) (hlen : data.length ≤ 8) :
    (Vector.ofFn fun i : Fin 8 => data.getD i stale).toList =
      data ++ List.replicate (8 - data.length) stale := by
  apply List.ext_getElem
  · rw [Vector.length_toList, List.length_append, List.length_replicate]
    omega
  · intro i hi hi'
    rw [Vector.getElem_toList, Vector.getElem_ofFn, List.getElem_append]
    split
    next h => exact List.getD_eq_getElem _ _ h
    next h =>
      rw [List.getElem_replicate]
      exact List.getD_eq_default _ _ (not_lt.mp h)

theorem sent_mmioPage (addr : UInt64) {len : UInt32} {isWrite : UInt8} {data : List UInt8}
    (hlen : len.toNat ≤ 8) (hdata : data.length = if isWrite = 0 then 0 else len.toNat)
    (stale : UInt8) :
    (mmioPage addr len isWrite data stale).sent = .mmio addr len isWrite data := by
  unfold KvmRun.sent mmioPage
  rw [if_neg mmio_ne_io, if_pos rfl]
  dsimp only
  split
  next hread =>
    rw [if_pos hread] at hdata
    rw [List.eq_nil_of_length_eq_zero hdata]
  next hwrite =>
    rw [if_neg hwrite] at hdata
    rw [toList_padded data stale (hdata.trans_le hlen), ← hdata, List.take_left]

/-! Reads that nobody claims. -/

theorem replicate_ne {n : Nat} (hn : 0 < n) :
    List.replicate n (0 : UInt8) ≠ List.replicate n 1 := by
  obtain ⟨n, rfl⟩ := Nat.exists_eq_succ_of_ne_zero hn.ne'
  intro h
  rw [List.replicate_succ, List.replicate_succ, List.cons.injEq] at h
  exact absurd h.1 (by decide)

theorem not_sentOnly_portIn {transfer : Io} {data : List UInt8}
    (hproper : (Exit.io transfer data).Proper) (hin : transfer.direction = kvmExitIoIn)
    (hp : PortDevice.claimant transfer.port.toUInt64 = none) :
    ¬ (Exit.io transfer data).SentOnly := by
  intro h
  have hsame := h untouched someWorld (portPage transfer data 0) (portPage transfer data 1)
    (sent_portPage hproper 0) (sent_portPage hproper 1)
  have hdata : data = [] := by
    have hout : transfer.direction ≠ kvmExitIoOut := by
      rw [hin]
      decide
    have hlen := hproper.2
    rw [if_neg hout] at hlen
    exact List.eq_nil_of_length_eq_zero hlen
  have hhanded : ∀ stale, (portPage transfer data stale).handed =
      List.replicate transfer.length stale := by
    intro stale
    unfold KvmRun.handed portPage
    rw [if_pos rfl, if_pos hin, hdata]
    exact List.take_of_length_le (List.length_replicate).le
  rw [outcome_port_idle rfl (Or.inl hp), outcome_port_idle rfl (Or.inl hp), hhanded,
    hhanded] at hsame
  have hbytes := congrArg (Prod.snd ∘ Prod.snd) (Except.ok.inj hsame)
  exact replicate_ne hproper.1 hbytes

theorem update_idle {m : Machine} (queue : Queue) (h : (m.virtio .rng).selected = .ok queue)
    (hready : queue.ready = false) (world : World) : m.update world = .ok m := by
  have hnext : queue.next m.guest = .ok (none, queue) := if_pos hready
  have hupdate : Rng.update queue (m.virtio .rng).irq m.guest world.random =
      .ok (queue, (m.virtio .rng).irq, m.guest, none) := by
    unfold Rng.update
    rw [hnext]
    rfl
  refine bind_eq_ok.mpr ⟨queue, h, bind_eq_ok.mpr ⟨_, hupdate, congrArg Except.ok ?_⟩⟩
  have hsame : (m.virtio .rng).setQ (m.virtio .rng).queueIndex queue = m.virtio .rng :=
    Device.setQ_self h
  dsimp only
  rw [hsame]
  exact congrArg (fun virtio => { m with virtio := virtio }) (Function.update_eq_self .rng m.virtio)

theorem update_error {m : Machine} {world : World} {e : Fault}
    (h : (m.virtio .rng).selected = .error e) : m.update world = .error e := by
  unfold Machine.update
  dsimp only
  rw [h]
  rfl

theorem untouched_idle (world : World) : untouched.update world = .ok untouched := by
  have hqueue : (untouched.virtio .rng).selected = .ok {} :=
    Device.fresh_q (t := rngType) _ _ (by decide)
  exact update_idle _ hqueue rfl world

theorem not_sentOnly_mmioRead {addr : UInt64} {len : UInt32} {data : List UInt8}
    (hproper : (Exit.mmio addr len 0 data).Proper) (hlen : len.toNat ≤ 8) (hpos : 0 < len.toNat)
    (hk : MmioDevice.claimant addr = none) : ¬ (Exit.mmio addr len 0 data).SentOnly := by
  intro h
  have hsent := sent_mmioPage addr hlen hproper.2
  have hsame := h untouched someWorld (mmioPage addr len 0 data 0) (mmioPage addr len 0 data 1)
    (hsent 0) (hsent 1)
  have hdata : data = [] := List.eq_nil_of_length_eq_zero hproper.2
  have hhanded : ∀ stale, (mmioPage addr len 0 data stale).handed =
      List.replicate len.toNat stale := by
    intro stale
    unfold KvmRun.handed mmioPage
    rw [if_neg mmio_ne_io, if_pos rfl, if_pos rfl]
    dsimp only
    rw [toList_padded data stale (by rw [hdata]; exact Nat.zero_le 8), hdata, List.nil_append,
      List.take_replicate]
    congr 1
    exact min_eq_left hlen
  rw [outcome_mmioRead_unclaimed rfl rfl hk, outcome_mmioRead_unclaimed rfl rfl hk, hhanded,
    hhanded, untouched_idle] at hsame
  have hbytes := congrArg (Prod.snd ∘ Prod.snd) (Except.ok.inj hsame)
  exact replicate_ne hpos hbytes

/-! Narrow writes to registers that load a word. -/

theorem getWord_page (addr : UInt64) (len : UInt32) (isWrite : UInt8) {data : List UInt8}
    (hdata : data.length ≤ 4) (stale : UInt8) :
    Device.getWord (mmioPage addr len isWrite data stale).mmio.data.toList =
      .ok (UInt32.ofNat (natOfBytes (data ++ List.replicate (4 - data.length) stale))) := by
  have htake : (data ++ List.replicate (8 - data.length) stale).take 4 =
      data ++ List.replicate (4 - data.length) stale := by
    rw [List.take_append, List.take_of_length_le hdata, List.take_replicate]
    congr 2
    omega
  unfold mmioPage Device.getWord
  dsimp only
  rw [toList_padded data stale (by omega), htake, if_neg]
  rw [List.length_append, List.length_replicate]
  omega

theorem loaded_words {n : Nat} (hn : n = 1 ∨ n = 2) {data : List UInt8} (hdata : data.length = n) :
    (UInt32.ofNat (natOfBytes (data ++ List.replicate (4 - data.length) 0))).toNat =
        natOfBytes data ∧ natOfBytes data < 0x10000 ∧
      0xffff0000 ≤
        (UInt32.ofNat (natOfBytes (data ++ List.replicate (4 - data.length) 0xff))).toNat := by
  rcases hn with rfl | rfl
  · obtain ⟨b, rfl⟩ := List.length_eq_one_iff.mp hdata
    have hb := b.toNat_lt
    simp only [List.length_singleton, Nat.reduceSub, List.replicate, List.cons_append,
      List.nil_append, natOfBytes, UInt32.toNat_ofNat', UInt8.reduceToNat]
    omega
  · obtain ⟨b, c, rfl⟩ := List.length_eq_two.mp hdata
    have hb := b.toNat_lt
    have hc := c.toNat_lt
    simp only [List.length_cons, List.length_nil, Nat.reduceAdd, Nat.reduceSub, List.replicate,
      List.cons_append, List.nil_append, natOfBytes, UInt32.toNat_ofNat', UInt8.reduceToNat]
    omega

section Differ

variable {k : MmioDevice} {addr : UInt64} {len : UInt32} {isWrite : UInt8} {data : List UInt8}

theorem outcome_of_write (hwrite : isWrite ≠ 0) (hk : MmioDevice.claimant addr = some k)
    {stale : UInt8} {d : Device k.type}
    (hd : (untouched.virtio k).mmioWrite (mmioPage addr len isWrite data stale).mmio.data.toList
      (k.window.offset addr) len = .ok d)
    (hidle : k = .rng → ∃ queue, d.selected = .ok queue ∧ queue.ready = false) :
    untouched.outcome someWorld (mmioPage addr len isWrite data stale) =
      .ok (none, { untouched with virtio := Function.update untouched.virtio k d }, []) := by
  rw [outcome_mmioWrite rfl hwrite]
  refine bind_eq_ok.mpr ⟨{ untouched with virtio := Function.update untouched.virtio k d }, ?_,
    bind_eq_ok.mpr ⟨_, ?_, rfl⟩⟩
  · have hclaimed : MmioDevice.claimant (mmioPage addr len isWrite data stale).mmio.physAddr =
        some k := hk
    unfold Machine.mmioWrite
    rw [hclaimed]
    exact bind_eq_ok.mpr ⟨d, hd, rfl⟩
  · by_cases hrng : k = .rng
    · subst hrng
      obtain ⟨queue, hqueue, hready⟩ := hidle rfl
      refine update_idle queue ?_ hready someWorld
      dsimp only
      rw [Function.update_self]
      exact hqueue
    · refine update_idle {} ?_ rfl someWorld
      dsimp only
      rw [Function.update_of_ne (Ne.symm hrng)]
      exact Device.fresh_q (t := rngType) _ _ (by decide)

theorem outcome_of_write_error (hwrite : isWrite ≠ 0) (hk : MmioDevice.claimant addr = some k)
    {stale : UInt8} {e : Fault}
    (hd : (untouched.virtio k).mmioWrite (mmioPage addr len isWrite data stale).mmio.data.toList
      (k.window.offset addr) len = .error e) :
    untouched.outcome someWorld (mmioPage addr len isWrite data stale) = .error e := by
  have hmachine : untouched.mmioWrite (mmioPage addr len isWrite data stale).mmio.data.toList
      addr len = .error e := by
    unfold Machine.mmioWrite
    rw [hk]
    dsimp only
    rw [hd]
    rfl
  rw [outcome_mmioWrite rfl hwrite]
  exact (congrArg (· >>= _) hmachine).trans rfl

def Idle {t : DeviceType} (d : Device t) : Prop :=
  ∃ queue, d.selected = .ok queue ∧ queue.ready = false

theorem same_device (hwrite : isWrite ≠ 0) (hk : MmioDevice.claimant addr = some k)
    (hlen : len.toNat ≤ 8) (hdata : data.length = len.toNat)
    (h : (Exit.mmio addr len isWrite data).SentOnly) {d d' : Device k.type}
    (hd : (untouched.virtio k).mmioWrite (mmioPage addr len isWrite data 0).mmio.data.toList
      (k.window.offset addr) len = .ok d) (hidle : k = .rng → Idle d)
    (hd' : (untouched.virtio k).mmioWrite (mmioPage addr len isWrite data 0xff).mmio.data.toList
      (k.window.offset addr) len = .ok d') (hidle' : k = .rng → Idle d') : d = d' := by
  have hsent := sent_mmioPage addr hlen (hdata.trans (if_neg hwrite).symm)
  have hsame := h untouched someWorld _ _ (hsent 0) (hsent 0xff)
  rw [outcome_of_write hwrite hk hd hidle, outcome_of_write hwrite hk hd' hidle'] at hsame
  have hmachine := congrArg (fun result => Machine.virtio result.2.1 k) (Except.ok.inj hsame)
  simpa only [Function.update_self] using hmachine

end Differ

/-! A device that was just constructed, written to at one register. -/

section Fresh

variable (k : MmioDevice)

theorem untouched_q {i : UInt32} (hi : i.toNat < k.type.queueCount) :
    (untouched.virtio k).q i = .ok {} :=
  Device.fresh_q _ _ hi

theorem queueCount_pos : 0 < k.type.queueCount := by cases k <;> decide

theorem untouched_selected : (untouched.virtio k).selected = .ok {} :=
  untouched_q k (queueCount_pos k)

theorem untouched_device_idle : Idle (untouched.virtio k) :=
  ⟨{}, untouched_selected k, rfl⟩

theorem write_program {register : Register} {value : UInt32} {f : Queue → Queue}
    (h : register.program value = some f) (hready : register ≠ .queueReady) (data : List UInt8)
    (size : UInt32) : ∃ d, (untouched.virtio k).writeRegister register value data size = .ok d ∧
      Idle d ∧ d.q 0 = .ok (f {}) := by
  have hselected := untouched_selected k
  have hq : ((untouched.virtio k).setQ 0 (f {})).q 0 = .ok (f {}) := by
    rw [Device.q_setQ (untouched_q k (i := 0) (queueCount_pos k)), if_pos rfl]
  refine ⟨(untouched.virtio k).setQ 0 (f {}), ?_, ⟨f {}, ?_, ?_⟩, hq⟩
  · rw [Device.writeRegister_program h]
    exact bind_eq_ok.mpr ⟨_, hselected, rfl⟩
  · obtain ⟨queues, hqueues⟩ := (untouched.virtio k).setQ_eq_queues 0 (f {})
    rw [hqueues] at hq ⊢
    exact hq
  · rw [Register.program_ready h, if_neg hready]

variable {k}

def Distinguishes (k : MmioDevice) (register : Register) (low high : UInt32) : Prop :=
  ∀ data data' size, ∃ d d',
    (untouched.virtio k).writeRegister register low data size = .ok d ∧ Idle d ∧
      (untouched.virtio k).writeRegister register high data' size = .ok d' ∧ Idle d' ∧ d ≠ d'

variable {register : Register} {low high : UInt32}

theorem distinguishes_program {f f' : Queue → Queue} (hf : register.program low = some f)
    (hf' : register.program high = some f') (hready : register ≠ .queueReady)
    (hdiffer : f {} ≠ f' {}) : Distinguishes k register low high := by
  intro data data' size
  obtain ⟨d, hd, hidle, hq⟩ := write_program k hf hready data size
  obtain ⟨d', hd', hidle', hq'⟩ := write_program k hf' hready data' size
  refine ⟨d, d', hd, hidle, hd', hidle', ?_⟩
  rintro rfl
  exact hdiffer (Except.ok.inj (hq.symm.trans hq'))

theorem distinguishes_one (hlow : low = 1) (hhigh : high ≠ 1)
    (h : register = .deviceFeaturesSel ∨ register = .driverFeaturesSel ∨ register = .interruptAck) :
    Distinguishes k register low high := by
  have hidle := untouched_device_idle k
  intro data data' size
  rcases h with rfl | rfl | rfl
  · refine ⟨{ untouched.virtio k with deviceFeatureSel := low = 1 },
      { untouched.virtio k with deviceFeatureSel := high = 1 }, rfl, hidle, rfl, hidle,
      fun heq => ?_⟩
    have hfield := congrArg Device.deviceFeatureSel heq
    rw [decide_eq_true hlow, decide_eq_false hhigh] at hfield
    contradiction
  · refine ⟨{ untouched.virtio k with driverFeatureSel := low = 1 },
      { untouched.virtio k with driverFeatureSel := high = 1 }, rfl, hidle, rfl, hidle,
      fun heq => ?_⟩
    have hfield := congrArg Device.driverFeatureSel heq
    rw [decide_eq_true hlow, decide_eq_false hhigh] at hfield
    contradiction
  · refine ⟨(untouched.virtio k).irqAck, untouched.virtio k, if_pos hlow, hidle, if_neg hhigh,
      hidle, fun heq => ?_⟩
    have hfield : false = true := congrArg (fun d : Device k.type => d.irq.state) heq
    contradiction

theorem toUInt64_ne (hne : low ≠ high) : low.toUInt64 ≠ high.toUInt64 := by
  intro heq
  have hnat := congrArg UInt64.toNat heq
  rw [UInt32.toNat_toUInt64, UInt32.toNat_toUInt64] at hnat
  exact hne (UInt32.toNat_inj.mp hnat)

theorem shifted_ne (hne : low ≠ high) : low.toUInt64 <<< 32 ≠ high.toUInt64 <<< 32 := by
  intro heq
  have hlow := low.toNat_lt
  have hhigh := high.toNat_lt
  have hnat := congrArg UInt64.toNat heq
  rw [UInt64.toNat_shiftLeft, UInt64.toNat_shiftLeft, UInt32.toNat_toUInt64,
    UInt32.toNat_toUInt64, Nat.shiftLeft_eq, Nat.shiftLeft_eq] at hnat
  simp only [UInt64.reduceToNat, Nat.reduceMod, Nat.reducePow] at hnat
  exact hne (UInt32.toNat_inj.mp (by omega))

theorem merged_ne (hne : low ≠ high) :
    (0 : UInt64) ||| (low.toUInt64 <<< 0) ≠ (0 : UInt64) ||| (high.toUInt64 <<< 0) ∧
      (0 : UInt64) ||| (low.toUInt64 <<< 32) ≠ (0 : UInt64) ||| (high.toUInt64 <<< 32) := by
  simp only [UInt64.zero_or, UInt64.shiftLeft_zero]
  exact ⟨toUInt64_ne hne, shifted_ne hne⟩

theorem distinguishes_driverFeatures (hne : low ≠ high) :
    Distinguishes k .driverFeatures low high := by
  have hidle := untouched_device_idle k
  intro data data' size
  refine ⟨{ untouched.virtio k with driverFeatures := (0 : UInt64) ||| (low.toUInt64 <<< 0) },
    { untouched.virtio k with driverFeatures := (0 : UInt64) ||| (high.toUInt64 <<< 0) },
    rfl, hidle, rfl, hidle, fun heq => ?_⟩
  exact (merged_ne hne).1 (congrArg Device.driverFeatures heq)

theorem distinguishes_of_sensitive {value : Nat} (hlow : low.toNat = value)
    (hvalue : value < 0x10000) (hhigh : 0xffff0000 ≤ high.toNat)
    (h : ¬ register.IgnoresRest value) (hsel : register ≠ .queueSel)
    (hnotify : register ≠ .queueNotify) : Distinguishes k register low high := by
  have hne : low ≠ high := by
    rintro rfl
    omega
  have hhigh' : high ≠ 1 := by
    rintro rfl
    have hunit : (1 : UInt32).toNat = 1 := rfl
    omega
  have hone : value = 1 → low = 1 := fun hv => UInt32.toNat_inj.mp (hlow.trans hv)
  have hmerged := merged_ne hne
  cases register
  case queueSel | queueNotify => contradiction
  case deviceFeaturesSel => exact distinguishes_one (hone (not_not.mp h)) hhigh' (Or.inl rfl)
  case driverFeaturesSel =>
    exact distinguishes_one (hone (not_not.mp h)) hhigh' (Or.inr (Or.inl rfl))
  case interruptAck =>
    exact distinguishes_one (hone (not_not.mp h)) hhigh' (Or.inr (Or.inr rfl))
  case driverFeatures => exact distinguishes_driverFeatures hne
  case queueNum =>
    exact distinguishes_program rfl rfl (by decide) fun heq => hne (congrArg Queue.size heq)
  case queueDescLow =>
    exact distinguishes_program rfl rfl (by decide) fun heq =>
      hmerged.1 (congrArg Queue.descAddr heq)
  case queueDescHigh =>
    exact distinguishes_program rfl rfl (by decide) fun heq =>
      hmerged.2 (congrArg Queue.descAddr heq)
  case queueAvailLow =>
    exact distinguishes_program rfl rfl (by decide) fun heq =>
      hmerged.1 (congrArg Queue.availAddr heq)
  case queueAvailHigh =>
    exact distinguishes_program rfl rfl (by decide) fun heq =>
      hmerged.2 (congrArg Queue.availAddr heq)
  case queueUsedLow =>
    exact distinguishes_program rfl rfl (by decide) fun heq =>
      hmerged.1 (congrArg Queue.usedAddr heq)
  case queueUsedHigh =>
    exact distinguishes_program rfl rfl (by decide) fun heq =>
      hmerged.2 (congrArg Queue.usedAddr heq)
  all_goals exact absurd trivial h

end Fresh

theorem q_out_of_range (k : MmioDevice) {i : UInt32} (hi : ¬ i.toNat < k.type.queueCount) :
    (untouched.virtio k).q i = .error (.queue i.toNat) :=
  dif_neg hi

section Narrow

variable {k : MmioDevice} {addr : UInt64} {len : UInt32} {isWrite : UInt8} {data : List UInt8}
  (hwrite : isWrite ≠ 0) (hk : MmioDevice.claimant addr = some k)
  (hn : len.toNat = 1 ∨ len.toNat = 2) (hdata : data.length = len.toNat)

def loaded (data : List UInt8) (stale : UInt8) : UInt32 :=
  UInt32.ofNat (natOfBytes (data ++ List.replicate (4 - data.length) stale))

include hn hdata

theorem mmioWrite_page {t : DeviceType} (d : Device t) (offset : UInt64) (stale : UInt8) :
    d.mmioWrite (mmioPage addr len isWrite data stale).mmio.data.toList offset len =
      d.writeRegister (Register.ofOffset offset) (loaded data stale)
        (mmioPage addr len isWrite data stale).mmio.data.toList len := by
  unfold Device.mmioWrite
  rw [getWord_page addr len isWrite (by omega) stale]
  rfl

theorem loaded_lt : (loaded data 0).toNat = natOfBytes data ∧ natOfBytes data < 0x10000 ∧
    0xffff0000 ≤ (loaded data 0xff).toNat :=
  loaded_words hn hdata

theorem loaded_ne : loaded data 0 ≠ loaded data 0xff := by
  have hloaded := loaded_lt hn hdata
  intro heq
  rw [← heq] at hloaded
  omega

include hwrite hk

theorem not_sentOnly_of_distinguishes
    (h : Distinguishes k (Register.ofOffset (k.window.offset addr)) (loaded data 0)
      (loaded data 0xff)) : ¬ (Exit.mmio addr len isWrite data).SentOnly := by
  intro hsent
  obtain ⟨d, d', hd, hidle, hd', hidle', hne⟩ := h
    (mmioPage addr len isWrite data 0).mmio.data.toList
    (mmioPage addr len isWrite data 0xff).mmio.data.toList len
  rw [← mmioWrite_page hn hdata] at hd hd'
  exact hne (same_device hwrite hk (by omega) hdata hsent hd (fun _ => hidle) hd' fun _ => hidle')

omit hk in
theorem served_alike (h : (Exit.mmio addr len isWrite data).SentOnly) :
    untouched.outcome someWorld (mmioPage addr len isWrite data 0) =
      untouched.outcome someWorld (mmioPage addr len isWrite data 0xff) := by
  have hsent := sent_mmioPage addr (by omega) (hdata.trans (if_neg hwrite).symm)
  exact h untouched someWorld _ _ (hsent 0) (hsent 0xff)

/-- A subscript past the array, which only the stale bytes made so large. -/
theorem not_sentOnly_of_queueNotify
    (h : Register.ofOffset (k.window.offset addr) = .queueNotify) :
    ¬ (Exit.mmio addr len isWrite data).SentOnly := by
  intro hsent
  have halike := served_alike hwrite hn hdata hsent
  have hloaded := loaded_lt hn hdata
  have hcount : k.type.queueCount ≤ 3 := by cases k <;> decide
  have herror : ∀ stale, ¬ (loaded data stale).toNat < k.type.queueCount →
      untouched.outcome someWorld (mmioPage addr len isWrite data stale) =
        .error (.queue (loaded data stale).toNat) := by
    intro stale hlarge
    apply outcome_of_write_error hwrite hk
    rw [mmioWrite_page hn hdata, h]
    exact (congrArg (· >>= _) (q_out_of_range k hlarge)).trans rfl
  rw [herror 0xff (by omega)] at halike
  by_cases hsmall : (loaded data 0).toNat < k.type.queueCount
  · have hq := untouched_q k hsmall
    have hidle : Idle ((untouched.virtio k).setQ (loaded data 0) (Queue.setNotify {})) := by
      obtain ⟨queues, hqueues⟩ := (untouched.virtio k).setQ_eq_queues (loaded data 0)
        (Queue.setNotify {})
      have hselected := Device.q_setQ (j := 0) hq (Queue.setNotify {})
      rw [untouched_q k (i := 0) (queueCount_pos k)] at hselected
      rw [hqueues] at hselected ⊢
      split at hselected
      · exact ⟨_, hselected, rfl⟩
      · exact ⟨_, hselected, rfl⟩
    have hok : (untouched.virtio k).mmioWrite
        (mmioPage addr len isWrite data 0).mmio.data.toList (k.window.offset addr) len =
          .ok ((untouched.virtio k).setQ (loaded data 0) (Queue.setNotify {})) := by
      rw [mmioWrite_page hn hdata, h]
      exact bind_eq_ok.mpr ⟨_, hq, rfl⟩
    rw [outcome_of_write hwrite hk hok fun _ => hidle] at halike
    contradiction
  · rw [herror 0 hsmall] at halike
    have heq := Fault.queue.inj (Except.error.inj halike)
    omega

/-- The entropy device looks for the selected queue in the same iteration. -/
theorem outcome_of_select_rng (hrng : k = .rng)
    (h : Register.ofOffset (k.window.offset addr) = .queueSel)
    (stale : UInt8) (hlarge : (loaded data stale).toNat ≠ 0) :
    untouched.outcome someWorld (mmioPage addr len isWrite data stale) =
      .error (.queue (loaded data stale).toNat) := by
  subst hrng
  obtain ⟨d, hd⟩ : ∃ d : Device MmioDevice.rng.type,
      d = { untouched.virtio .rng with queueIndex := loaded data stale } := ⟨_, rfl⟩
  have hwritten : (untouched.virtio .rng).mmioWrite
      (mmioPage addr len isWrite data stale).mmio.data.toList
        (MmioDevice.rng.window.offset addr) len = .ok d := by
    rw [mmioWrite_page hn hdata, h, hd]
    rfl
  have hselected : d.selected = .error (.queue (loaded data stale).toNat) := by
    have hcount : ¬ (loaded data stale).toNat < rngType.queueCount := by
      have hone : rngType.queueCount = 1 := rfl
      omega
    rw [hd]
    exact dif_neg hcount
  have hmachine : untouched.mmioWrite (mmioPage addr len isWrite data stale).mmio.data.toList
      addr len = .ok { untouched with virtio := Function.update untouched.virtio .rng d } := by
    unfold Machine.mmioWrite
    rw [hk]
    exact bind_eq_ok.mpr ⟨d, hwritten, rfl⟩
  have hupdate : Machine.update { untouched with virtio := Function.update untouched.virtio .rng d }
      someWorld = .error (.queue (loaded data stale).toNat) := by
    apply update_error
    dsimp only
    rw [Function.update_self]
    exact hselected
  rw [outcome_mmioWrite rfl hwrite]
  refine (congrArg (· >>= _) hmachine).trans ?_
  rw [ok_bind, hupdate]
  rfl

theorem not_sentOnly_of_queueSel
    (h : Register.ofOffset (k.window.offset addr) = .queueSel) :
    ¬ (Exit.mmio addr len isWrite data).SentOnly := by
  intro hsent
  have halike := served_alike hwrite hn hdata hsent
  have hloaded := loaded_lt hn hdata
  have hwritten : ∀ stale, (untouched.virtio k).mmioWrite
      (mmioPage addr len isWrite data stale).mmio.data.toList (k.window.offset addr) len =
        .ok { untouched.virtio k with queueIndex := loaded data stale } := by
    intro stale
    rw [mmioWrite_page hn hdata, h]
    rfl
  by_cases hrng : k = .rng
  · rw [outcome_of_select_rng hwrite hk hn hdata hrng h 0xff (by omega)] at halike
    by_cases hzero : (loaded data 0).toNat = 0
    · have hidle : Idle { untouched.virtio k with queueIndex := loaded data 0 } := by
        have hword : loaded data 0 = 0 := UInt32.toNat_inj.mp hzero
        rw [hword]
        exact untouched_device_idle k
      rw [outcome_of_write hwrite hk (hwritten 0) fun _ => hidle] at halike
      contradiction
    · rw [outcome_of_select_rng hwrite hk hn hdata hrng h 0 hzero] at halike
      have heq := Fault.queue.inj (Except.error.inj halike)
      omega
  · have hsame := same_device hwrite hk (by omega) hdata hsent (hwritten 0)
      (fun hk => absurd hk hrng) (hwritten 0xff) fun hk => absurd hk hrng
    exact loaded_ne hn hdata (congrArg Device.queueIndex hsame)

end Narrow

/-- An exit is served from nothing but what the guest sent exactly when a device claims
the read, or takes no word from a write that is narrower than a word. -/
theorem sent_only_iff (x : Exit) (hproper : x.Proper) : x.SentOnly ↔ x.Settled := by
  constructor
  · intro h
    by_contra hunsettled
    cases x with
    | io transfer data =>
      unfold Exit.Settled at hunsettled
      rw [Classical.not_imp, Option.not_isSome_iff_eq_none] at hunsettled
      exact not_sentOnly_portIn hproper hunsettled.1 hunsettled.2 h
    | mmio addr len isWrite data =>
      have hlen : len.toNat = 1 ∨ len.toNat = 2 ∨ len.toNat = 4 ∨ len.toNat = 8 := by
        have hmem := hproper.1
        simp only [List.mem_cons, List.not_mem_nil, or_false] at hmem
        rcases hmem with rfl | rfl | rfl | rfl <;> decide
      cases hk : MmioDevice.claimant addr with
      | none =>
        rw [settled_unclaimed hk, not_not] at hunsettled
        subst hunsettled
        exact not_sentOnly_mmioRead hproper (by omega) (by omega) hk h
      | some k =>
        rw [settled_claimed hk, not_or, not_or, not_le] at hunsettled
        obtain ⟨hwrite, hnarrow, hignores⟩ := hunsettled
        have hn : len.toNat = 1 ∨ len.toNat = 2 := by omega
        have hdata : data.length = len.toNat := hproper.2.trans (if_neg hwrite)
        have hloaded := loaded_lt hn hdata
        by_cases hsel : Register.ofOffset (k.window.offset addr) = .queueSel
        · exact not_sentOnly_of_queueSel hwrite hk hn hdata hsel h
        · by_cases hnotify : Register.ofOffset (k.window.offset addr) = .queueNotify
          · exact not_sentOnly_of_queueNotify hwrite hk hn hdata hnotify h
          · exact not_sentOnly_of_distinguishes hwrite hk hn hdata
              (distinguishes_of_sensitive hloaded.1 hloaded.2.1 hloaded.2.2 hignores hsel hnotify) h
    | other reason => exact hunsettled trivial
  · intro h
    cases x with
    | io transfer data => exact sentOnly_io hproper.1 h
    | mmio addr len isWrite data =>
      have hlen : 0 < len.toNat ∧ len.toNat ≤ 8 := by
        have hmem := hproper.1
        simp only [List.mem_cons, List.not_mem_nil, or_false] at hmem
        rcases hmem with rfl | rfl | rfl | rfl <;> decide
      by_cases hwrite : isWrite = 0
      · subst hwrite
        exact sentOnly_mmioRead hlen.2 h
      · exact sentOnly_mmioWrite hwrite hlen.2 hlen.1 h
    | other reason => exact sentOnly_other reason

/-- A word stored to `QUEUE_NUM` of the disk. -/
theorem queueNum_word_settled :
    (Exit.mmio 0xd0000038 4 1 [0x80, 0, 0, 0]).SentOnly :=
  (sent_only_iff (.mmio 0xd0000038 4 1 [0x80, 0, 0, 0])
    ⟨by decide, by decide⟩).mpr (Or.inr (Or.inl (by decide)))

/-- A single byte stored there brings three bytes of an earlier exit with it. -/
theorem queueNum_byte_leaks : (Exit.mmio 0xd0000038 1 1 [0x80]).Proper ∧
    ¬ (Exit.mmio 0xd0000038 1 1 [0x80]).SentOnly := by
  refine ⟨⟨by decide, by decide⟩, ?_⟩
  have hk : MmioDevice.claimant 0xd0000038 = some .blk := by decide
  refine not_sentOnly_of_distinguishes (by decide) hk (Or.inl rfl) rfl ?_
  exact distinguishes_program rfl rfl (by decide) (by decide)

end Kthxvm
