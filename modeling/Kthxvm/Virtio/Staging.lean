import Kthxvm.Virtio.Walks

/-! The host-side buffers behind the copies: the staging buffers of `net` and the
`DISK_ID` of `blk`. A copy past the end of one is `Fault.hostBuffer`. -/
namespace Kthxvm.Virtio

open Lib.ByteMemory Lib.Disk Lib.ScatterGather Lib.Triple

def Queue.TableHeld (q : Queue) (g : Guest) : Prop :=
  g.Holds q.descAddr (16 * queueSizeMax.toNat)

section Table

variable {q : Queue} {g : Guest} {i : UInt16} {d : Descriptor} {ds : List Descriptor}

theorem declared_descriptor (htable : q.TableHeld g) (h : q.declared.Chain g.bytes i (d :: ds)) :
    q.descriptor g i = .ok d := by
  rw [Queue.descriptor_of_held htable h.head_lt, h.entry_eq]

theorem descriptorIndex_of_chain (h : q.declared.Chain g.bytes i ds) :
    descriptorIndex i = .ok i :=
  Queue.descriptorIndex_of_lt h.head_lt

end Table

namespace Net

section Transmit

variable {q : Queue} {g : Guest} {i : UInt16} {ds : List Descriptor} {fuel : Nat}

theorem txLoop_step {d : Descriptor} (hdesc : q.descriptor g i = .ok d) (buffer : List UInt8)
    (written : UInt32) :
    txLoop q g (fuel + 1) buffer i written = (do
      hostRoom buffer written.toNat d.len.toNat
      let bytes ← g.read d.addr d.len.toNat
      if d.hasNext then
        let next ← descriptorIndex d.next
        txLoop q g fuel (splice buffer written.toNat bytes) next (written + d.len)
      else .ok (splice buffer written.toNat bytes, written + d.len)) := by
  conv_lhs => unfold txLoop
  rw [hdesc]
  rfl

/-- A chain that fits stays in the staging buffer, wherever its buffers lie. -/
theorem txLoop_fits (htable : q.TableHeld g) (h : q.declared.Chain g.bytes i ds)
    {buffer : List UInt8} (hbuffer : buffer.length = bufferLen) {written : UInt32}
    (hroom : written.toNat + totalLen (spans ds) ≤ bufferLen) :
    Meets (fun f => f ≠ .hostBuffer) (txLoop q g fuel buffer i written) fun _ => True := by
  induction ds generalizing fuel buffer i written with
  | nil => exact h.elim
  | cons d ds ih =>
    cases fuel with
    | zero => exact Meets.error nofun
    | succ fuel =>
      have htotal : totalLen (spans (d :: ds)) = d.len.toNat + totalLen (spans ds) :=
        totalLen_cons d.span (spans ds)
      rw [htotal] at hroom
      have hcopy : hostRoom buffer written.toNat d.len.toNat = .ok () :=
        if_pos (Or.inr (by omega))
      have hsum : (written + d.len).toNat = written.toNat + d.len.toNat := by
        have hlt : bufferLen < 2 ^ 32 := by decide
        rw [UInt32.toNat_add, Nat.mod_eq_of_lt (by omega)]
      rw [txLoop_step (declared_descriptor htable h), hcopy, ok_bind]
      by_cases hheld : g.Holds d.addr d.len.toNat
      · have hlen : (load g.bytes d.addr d.len.toNat).length = d.len.toNat := length_load _ _ _
        have hnew : (splice buffer written.toNat (load g.bytes d.addr d.len.toNat)).length =
            bufferLen := by
          rw [length_splice _ _ (by omega), hbuffer]
        rw [Guest.read_ok hheld, ok_bind]
        split
        · rename_i hnext
          have hrest := h.rest hnext
          rw [descriptorIndex_of_chain hrest, ok_bind]
          exact ih hrest hnew (by omega)
        · trivial
      · have hread : g.read d.addr d.len.toNat = .error (.outside d.addr d.len.toNat) := by
          unfold Guest.read
          rw [Guest.check_error hheld]
          rfl
        rw [hread]
        exact Meets.error nofun

/-- A chain that does not fit leaves the staging buffer, once its buffers can be read. -/
theorem txLoop_overruns (htable : q.TableHeld g) (h : q.declared.Chain g.bytes i ds)
    (hheld : ∀ d ∈ ds, g.Holds d.addr d.len.toNat) (hfuel : ds.length ≤ fuel)
    {buffer : List UInt8} (hbuffer : buffer.length = bufferLen) {written : UInt32}
    (hwritten : written.toNat ≤ bufferLen)
    (hroom : bufferLen < written.toNat + totalLen (spans ds)) :
    txLoop q g fuel buffer i written = .error .hostBuffer := by
  induction ds generalizing fuel buffer i written with
  | nil => exact h.elim
  | cons d ds ih =>
    cases fuel with
    | zero => contradiction
    | succ fuel =>
      have htotal : totalLen (spans (d :: ds)) = d.len.toNat + totalLen (spans ds) :=
        totalLen_cons d.span (spans ds)
      rw [htotal] at hroom
      rw [txLoop_step (declared_descriptor htable h)]
      by_cases hcopy : d.len.toNat = 0 ∨ written.toNat + d.len.toNat ≤ buffer.length
      · have hok : hostRoom buffer written.toNat d.len.toNat = .ok () := if_pos hcopy
        have hfits : written.toNat + d.len.toNat ≤ bufferLen := by omega
        have hsum : (written + d.len).toNat = written.toNat + d.len.toNat := by
          rw [UInt32.toNat_add, Nat.mod_eq_of_lt]
          exact hfits.trans_lt (by decide)
        have hlen : (load g.bytes d.addr d.len.toNat).length = d.len.toNat := length_load _ _ _
        have hnew : (splice buffer written.toNat (load g.bytes d.addr d.len.toNat)).length =
            bufferLen := by
          rw [length_splice _ _ (by omega), hbuffer]
        rw [hok, ok_bind, Guest.read_ok (hheld d List.mem_cons_self), ok_bind]
        by_cases hnext : d.hasNext = true
        · have hrest := h.rest hnext
          rw [if_pos hnext, descriptorIndex_of_chain hrest, ok_bind]
          exact ih hrest (fun e he => hheld e (List.mem_cons_of_mem _ he))
            (Nat.le_of_succ_le_succ hfuel) hnew (by omega) (by omega)
        · rw [h.last hnext, spans_nil, totalLen_nil] at hroom
          omega
      · have herror : hostRoom buffer written.toNat d.len.toNat = .error .hostBuffer :=
          if_neg hcopy
        rw [herror]
        rfl

/-- The gather loop does not leave its staging buffer, however far behind guest memory its
reads come through. -/
def StaysStaged (q : Queue) (g : Guest) (head : UInt16) (buffer : List UInt8) : Prop :=
  ∀ size, g.size ≤ size →
    txLoop q { g with size := size } queueSizeMax.toNat buffer head 0 ≠ .error .hostBuffer

theorem staysStaged_iff (htable : q.TableHeld g) (h : q.declared.Chain g.bytes i ds)
    {buffer : List UInt8} (hbuffer : buffer.length = bufferLen) :
    StaysStaged q g i buffer ↔ totalLen (spans ds) ≤ bufferLen := by
  have hmore : ∀ size, g.size ≤ size → q.TableHeld { g with size := size } := fun size hsize =>
    htable.imp_right fun hin => hin.trans hsize
  have hzero : (0 : UInt32).toNat = 0 := rfl
  constructor
  · intro hstays
    by_contra hover
    have hall : ∀ d ∈ ds, Guest.Holds { g with size := g.size + 2 ^ 65 } d.addr d.len.toNat := by
      intro d _
      have haddr := d.addr.toNat_lt
      have hlen := d.len.toNat_lt
      right
      change d.addr.toNat + d.len.toNat ≤ g.size + 2 ^ 65
      omega
    exact hstays _ (Nat.le_add_right _ _) (txLoop_overruns (hmore _ (Nat.le_add_right _ _)) h
      hall h.length_le hbuffer (Nat.zero_le _) (by omega))
  · intro hfits size hsize herror
    have hmeets : Meets (fun f => f ≠ .hostBuffer)
        (txLoop q { g with size := size } queueSizeMax.toNat buffer i 0) fun _ => True :=
      txLoop_fits (hmore size hsize) h hbuffer (by omega)
    exact hmeets.allowed_of_error herror rfl

end Transmit

def sizeOf (packet : Option (List UInt8)) : Int :=
  match packet with
  | none => -1
  | some bytes => bytes.length

def staging (buffer : List UInt8) (packet : Option (List UInt8)) : List UInt8 :=
  packet.getD [] ++ buffer.drop (packet.getD []).length

/-- The scatter loop does not leave the bytes that `::read` returned: it runs
without a fault of a host buffer when the staging buffer is cut to them. -/
def CopiesOnlyPacket (q : Queue) (g : Guest) (head : UInt16) (packet : Option (List UInt8)) :
    Prop :=
  rxLoop q (packet.getD []) (sizeOf packet) queueSizeMax.toNat g head 0 ≠ .error .hostBuffer

section Receive

variable {q : Queue} {g : Guest} {i : UInt16} {ds : List Descriptor} {fuel : Nat}

theorem hostRead_append {bytes : List UInt8} {pos n : Nat}
    (h : hostRead bytes pos n ≠ .error .hostBuffer) (rest : List UInt8) :
    hostRead (bytes ++ rest) pos n = hostRead bytes pos n := by
  unfold hostRead at h ⊢
  split at h
  · rename_i hin
    have hin' : n = 0 ∨ pos + n ≤ (bytes ++ rest).length := by
      rw [List.length_append]
      omega
    rw [if_pos hin, if_pos hin']
    congr 1
    unfold slice
    rcases hin with rfl | hin
    · simp
    · rw [List.drop_append_of_le_length (by omega), List.take_append_of_le_length]
      rw [List.length_drop]
      omega
  · contradiction

def writeLen (size : Int) (len : UInt32) (d : Descriptor) : UInt32 :=
  min (UInt32.ofInt (size - len.toNat)) d.len

def rxNext (q : Queue) (buffer : List UInt8) (size : Int) (fuel : Nat) (i : UInt16)
    (len : UInt32) (g : Guest) : Except Fault (Guest × UInt32) :=
  if (len.toNat : Int) = size then .ok (g, len)
  else do
    let d ← q.descriptor g i
    if d.hasNext then
      let next ← descriptorIndex d.next
      rxLoop q buffer size fuel g next len
    else .ok (g, len)

theorem rxLoop_succ (q : Queue) (buffer : List UInt8) (size : Int) (fuel : Nat) (g : Guest)
    (i : UInt16) (len : UInt32) :
    rxLoop q buffer size (fuel + 1) g i len = (do
      let d ← q.descriptor g i
      let bytes ← hostRead buffer len.toNat (writeLen size len d).toNat
      let g ← g.write d.addr bytes
      rxNext q buffer size fuel i (len + writeLen size len d) g) := rfl

theorem rxLoop_append {bytes : List UInt8} {size : Int} {len : UInt32}
    (h : rxLoop q bytes size fuel g i len ≠ .error .hostBuffer) (rest : List UInt8) :
    rxLoop q (bytes ++ rest) size fuel g i len = rxLoop q bytes size fuel g i len := by
  induction fuel generalizing g i len with
  | zero => rfl
  | succ fuel ih =>
    have hnext : ∀ len g, rxNext q bytes size fuel i len g ≠ .error .hostBuffer →
        rxNext q (bytes ++ rest) size fuel i len g = rxNext q bytes size fuel i len g := by
      intro len g hne
      unfold rxNext at hne ⊢
      split at hne
      · rename_i hlen
        rw [if_pos hlen, if_pos hlen]
      · rename_i hlen
        rw [if_neg hlen, if_neg hlen]
        refine bind_eq_of_ne_error hne fun d hd => ?_
        by_cases hd' : d.hasNext = true
        · rw [if_pos hd'] at hd ⊢
          rw [if_pos hd']
          exact bind_eq_of_ne_error hd fun next hloop => ih hloop
        · rw [if_neg hd', if_neg hd']
    rw [rxLoop_succ] at h ⊢
    rw [rxLoop_succ]
    refine bind_eq_of_ne_error h fun d hd => ?_
    have hread : hostRead bytes len.toNat (writeLen size len d).toNat ≠ .error .hostBuffer := by
      intro herror
      rw [herror] at hd
      exact hd rfl
    rw [hostRead_append hread]
    refine bind_eq_of_ne_error hd fun data hdata => ?_
    exact bind_eq_of_ne_error hdata fun g' hrest => hnext _ g' hrest

theorem outside_ne_hostBuffer (addr : UInt64) (n : Nat) :
    Fault.outside addr n ≠ .hostBuffer := nofun

theorem writeLen_toNat {n : Nat} {len : UInt32} (hn : n ≤ bufferLen) (hlen : len.toNat ≤ n)
    (d : Descriptor) : (writeLen n len d).toNat = min (n - len.toNat) d.len.toNat := by
  have hsub : ((n : Int) - len.toNat) = ((n - len.toNat : Nat) : Int) := by omega
  have hlt : n - len.toNat < 2 ^ 32 :=
    (Nat.sub_le _ _).trans_lt (hn.trans_lt (by decide))
  unfold writeLen
  rw [min_toNat, hsub, ofInt_toNat hlt]

/-- At the start the length of the buffer is the smaller one. -/
theorem writeLen_failed (d : Descriptor) : writeLen (-1) 0 d = d.len := by
  have hlt := d.len.toNat_lt
  rw [← UInt32.toNat_inj]
  unfold writeLen
  rw [min_toNat]
  change min 4294967295 d.len.toNat = _
  omega

theorem rxLoop_packet {bytes : List UInt8} (hbytes : bytes.length ≤ bufferLen) {len : UInt32}
    (hlen : len.toNat ≤ bytes.length) :
    Meets (fun f => f ≠ .hostBuffer) (rxLoop q bytes bytes.length fuel g i len)
      fun _ => True := by
  induction fuel generalizing g i len with
  | zero => exact Meets.error nofun
  | succ fuel ih =>
    rw [rxLoop_succ]
    refine (Queue.descriptor_meets outside_ne_hostBuffer i).bind fun d _ => ?_
    have hroom := (writeLen_toNat hbytes hlen d).trans_le (min_le_left _ _)
    have hread : hostRead bytes len.toNat (writeLen bytes.length len d).toNat =
        .ok (slice bytes len.toNat (writeLen bytes.length len d).toNat) := if_pos (by omega)
    have hsum : (len + writeLen bytes.length len d).toNat ≤ bytes.length := by
      rw [UInt32.toNat_add]
      exact (Nat.mod_le _ _).trans (by omega)
    refine Meets.step hread ?_
    refine (Guest.write_meets outside_ne_hostBuffer _).bind fun g' _ => ?_
    unfold rxNext
    split
    · trivial
    · refine (Queue.descriptor_meets outside_ne_hostBuffer i).bind fun d' _ => ?_
      split
      · exact (Queue.descriptorIndex_meets (fun _ => nofun) _).bind fun next _ => ih hsum
      · trivial

/-- After a failed read the loop copies whatever the first buffer with a length
asks for. -/
theorem rxLoop_failed_iff (htable : q.TableHeld g) (h : q.declared.Chain g.bytes i ds)
    (hfuel : ds.length ≤ fuel) :
    rxLoop q [] (-1) fuel g i 0 = .error .hostBuffer ↔ ∃ d ∈ ds, d.len ≠ 0 := by
  induction ds generalizing fuel i with
  | nil => exact h.elim
  | cons d ds ih =>
    cases fuel with
    | zero => contradiction
    | succ fuel =>
      have hwrite := writeLen_failed d
      rw [rxLoop_succ, declared_descriptor htable h]
      change (hostRead [] 0 (writeLen (-1) 0 d).toNat >>= fun bytes => g.write d.addr bytes >>=
        rxNext q [] (-1) fuel i (0 + writeLen (-1) 0 d)) = .error .hostBuffer ↔ _
      rw [hwrite, List.exists_mem_cons_iff]
      by_cases hlen : d.len = 0
      · have hzero : 0 + d.len = 0 := by rw [hlen, UInt32.zero_add]
        have hread : hostRead [] 0 d.len.toNat = .ok [] := by
          rw [hlen]
          rfl
        have hstore : g.write d.addr [] = .ok g := by
          rw [Guest.write_ok (Or.inl rfl), store_nil]
        have hsize : ¬ (((0 : UInt32).toNat : Int) = -1) := by decide
        have hne : ¬ d.len ≠ 0 := not_not.mpr hlen
        rw [hread, hzero]
        change (g.write d.addr [] >>= rxNext q [] (-1) fuel i 0) = .error .hostBuffer ↔ _
        rw [hstore]
        change rxNext q [] (-1) fuel i 0 g = .error .hostBuffer ↔ _
        unfold rxNext
        rw [if_neg hsize, declared_descriptor htable h, or_iff_right hne]
        change (if d.hasNext = true then descriptorIndex d.next >>= fun next =>
          rxLoop q [] (-1) fuel g next 0 else .ok (g, 0)) = .error .hostBuffer ↔ _
        by_cases hnext : d.hasNext = true
        · have hrest := h.rest hnext
          rw [if_pos hnext, descriptorIndex_of_chain hrest]
          exact ih hrest (Nat.le_of_succ_le_succ hfuel)
        · rw [if_neg hnext, h.last hnext]
          exact iff_of_false nofun (by simp)
      · have hread : hostRead [] 0 d.len.toNat = .error .hostBuffer := by
          rw [← UInt32.toNat_inj] at hlen
          exact if_neg (by simpa using hlen)
        rw [hread]
        exact iff_of_true rfl (Or.inl hlen)

end Receive

end Net

namespace Blk

def getIdRest (q : Queue) (file : FStream) (next : UInt16) (g : Guest) :
    Except Fault (Option (FStream × Guest × UInt32)) := do
  let len := (← q.descriptor g next).len
  let next ← follow q g next
  let g ← putStatus q g next
  return some (file, g, len + 1)

theorem getIdRest_meets (q : Queue) (file : FStream) (next : UInt16) (g : Guest) :
    Meets (fun f => f ≠ .hostBuffer) (getIdRest q file next g) fun _ => True := by
  have hdesc (i : UInt16) (g : Guest) : Meets (fun f => f ≠ .hostBuffer) (q.descriptor g i)
      fun d => d = q.entry g.bytes i := Queue.descriptor_meets Net.outside_ne_hostBuffer i
  have hfollow : Meets (fun f => f ≠ .hostBuffer) (follow q g next) fun _ => True := by
    refine (hdesc next g).bind fun d _ => ?_
    exact (Queue.descriptorIndex_meets (fun _ => nofun) _).mono (fun _ h => h) fun _ _ => trivial
  refine (hdesc next g).bind fun d _ => hfollow.bind fun st _ => ?_
  refine Meets.bind ((hdesc st g).bind fun d _ =>
    (Guest.write_meets Net.outside_ne_hostBuffer [blkSOk]).mono (fun _ h => h)
      fun _ _ => trivial) fun g' (_ : True) => ?_
  trivial

theorem handle_getId_eq {q : Queue} {g : Guest} {head : UInt16} {hdr d : Descriptor}
    (hdesc : q.descriptor g head = .ok hdr) (htype : g.read32 hdr.addr = .ok blkTGetId)
    (hfollow : follow q g head = .ok hdr.next) (hd : q.descriptor g hdr.next = .ok d)
    (fuel : Nat) (file : FStream) :
    handle fuel q file g head =
      (if d.len.toNat ≤ diskId.length then g.write d.addr (diskId.take d.len.toNat)
        else .error .hostBuffer) >>= getIdRest q file hdr.next := by
  unfold handle
  rw [hdesc]
  change (g.read32 hdr.addr >>= fun type => _) = _
  rw [htype]
  change (follow q g head >>= fun next => _) = _
  rw [hfollow]
  change (q.descriptor g hdr.next >>= fun d => _) = _
  rw [hd]
  change (if d.len.toNat ≤ diskId.length then _ else _) = _
  split <;> rfl

theorem getId_hostBuffer_iff {q : Queue} {g : Guest} {head : UInt16} {hdr d : Descriptor}
    (hdesc : q.descriptor g head = .ok hdr) (htype : g.read32 hdr.addr = .ok blkTGetId)
    (hnext : descriptorIndex hdr.next = .ok hdr.next) (hd : q.descriptor g hdr.next = .ok d)
    (fuel : Nat) (file : FStream) :
    handle fuel q file g head = .error .hostBuffer ↔ diskId.length < d.len.toNat := by
  have hfollow : follow q g head = .ok hdr.next := by
    unfold follow
    rw [hdesc]
    exact hnext
  rw [handle_getId_eq hdesc htype hfollow hd]
  by_cases hlen : d.len.toNat ≤ diskId.length
  · rw [if_pos hlen]
    refine iff_of_false (fun herror => ?_) (Nat.not_lt.mpr hlen)
    have hmeets : Meets (fun f => f ≠ .hostBuffer)
        (g.write d.addr (diskId.take d.len.toNat) >>= getIdRest q file hdr.next) fun _ => True :=
      (Guest.write_meets Net.outside_ne_hostBuffer _).bind fun g' _ =>
        getIdRest_meets q file hdr.next g'
    exact hmeets.allowed_of_error herror rfl
  · rw [if_neg hlen]
    exact iff_of_true rfl (Nat.not_le.mp hlen)

end Blk

/-- When the three handlers keep their copies inside the host-side buffers: the
transmit path on chains that fit its staging buffer, the receive path, whatever
its buffer held before, after every read that did not fail, and `GET_ID` up to the
length of `DISK_ID`. -/
theorem copies_in_bounds_iff {q : Queue} {g : Guest} {head : UInt16} {hdr : Descriptor}
    {rest : List Descriptor} (htable : q.TableHeld g)
    (hchain : q.declared.Chain g.bytes head (hdr :: rest)) :
    (∀ buffer, buffer.length = Net.bufferLen →
      (Net.StaysStaged q g head buffer ↔ totalLen (spans (hdr :: rest)) ≤ Net.bufferLen)) ∧
    (∀ packet, (packet.getD []).length ≤ Net.bufferLen →
      (Net.CopiesOnlyPacket q g head packet ↔
        packet ≠ none ∨ ∀ d ∈ hdr :: rest, d.len = 0)) ∧
    (∀ packet, Net.CopiesOnlyPacket q g head packet → ∀ held,
      Net.rxLoop q (packet.getD [] ++ held) (Net.sizeOf packet) queueSizeMax.toNat g head 0 =
        Net.rxLoop q (packet.getD []) (Net.sizeOf packet) queueSizeMax.toNat g head 0) ∧
    (hdr.next < queueSizeMax.toUInt16 → g.read32 hdr.addr = .ok blkTGetId → ∀ file,
      (Blk.handle queueSizeMax.toNat q file g head ≠ .error .hostBuffer ↔
        (q.entry g.bytes hdr.next).len.toNat ≤ diskId.length)) := by
  have hlen : (hdr :: rest).length ≤ queueSizeMax.toNat := hchain.length_le
  refine ⟨fun buffer hbuffer => ?_, fun packet hpacket => ?_,
    fun _ honly held => Net.rxLoop_append honly held, fun hnext htype file => ?_⟩
  · exact Net.staysStaged_iff htable hchain hbuffer
  · cases packet with
    | none =>
      have hfailed := not_congr (Net.rxLoop_failed_iff htable hchain hlen)
      rw [or_iff_right (not_not.mpr rfl)]
      refine hfailed.trans ⟨fun h d hd => ?_, fun h => ?_⟩
      · by_contra hne
        exact h ⟨d, hd, hne⟩
      · rintro ⟨d, hd, hne⟩
        exact hne (h d hd)
    | some bytes =>
      refine iff_of_true (fun herror => ?_) (Or.inl nofun)
      exact (Net.rxLoop_packet hpacket (Nat.zero_le _)).allowed_of_error herror rfl
  · have hlt : hdr.next.toNat < queueSizeMax.toNat := UInt16.lt_iff_toNat_lt.mp hnext
    have hidentify := Blk.getId_hostBuffer_iff (declared_descriptor htable hchain) htype
      (Queue.descriptorIndex_of_lt hlt) (Queue.descriptor_of_held htable hlt)
      queueSizeMax.toNat file
    exact (not_congr hidentify).trans Nat.not_lt

def identifyGuest : Guest :=
  ⟨image [(0x1000, bytesOfNat 8 0x3000), (0x1008, bytesOfNat 4 16), (0x100c, [1, 0, 1, 0]),
    (0x1010, bytesOfNat 8 0x3100), (0x1018, bytesOfNat 4 20), (0x101c, [3, 0, 2, 0]),
    (0x1020, bytesOfNat 8 0x3200), (0x1028, bytesOfNat 4 1), (0x102c, [2, 0]),
    (0x3000, bytesOfNat 4 blkTGetId.toNat)], 0x4000⟩

/-- The three handlers on one short chain, the receive path with a packet of three bytes. -/
theorem identify_copies_in_bounds :
    Net.StaysStaged tableQueue identifyGuest 0 (List.replicate Net.bufferLen 0) ∧
    Net.CopiesOnlyPacket tableQueue identifyGuest 0 (some [1, 2, 3]) ∧
    Net.rxLoop tableQueue [1, 2, 3, 9, 9] 3 512 identifyGuest 0 0 =
      Net.rxLoop tableQueue [1, 2, 3] 3 512 identifyGuest 0 0 ∧
    Blk.handle 512 tableQueue ⟨[], 0, false⟩ identifyGuest 0 ≠ .error .hostBuffer := by
  have htable : tableQueue.TableHeld identifyGuest := Or.inr (by decide)
  have hchain : tableQueue.declared.Chain identifyGuest.bytes 0
      [⟨0x3000, 16, 1, 1⟩, ⟨0x3100, 20, 3, 2⟩, ⟨0x3200, 1, 2, 0⟩] :=
    ⟨by decide, rfl, rfl, by decide, rfl, rfl, by decide, rfl, rfl⟩
  obtain ⟨htx, hrx, hheld, hid⟩ := copies_in_bounds_iff htable hchain
  have honly := (hrx (some [1, 2, 3]) (by decide)).mpr (Or.inl nofun)
  exact ⟨(htx _ (List.length_replicate ..)).mpr (by decide), honly, hheld _ honly [9, 9],
    (hid (by decide) rfl _).mpr (by decide)⟩

def oversized : Guest :=
  ⟨image [(0x1000, bytesOfNat 8 0x4000), (0x1008, bytesOfNat 4 65563)], 0x20000⟩

/-- The guest overruns the staging buffer of the transmit path, and a read of the
tap that fails makes the receive path copy what the buffer held before. -/
theorem oversized_overruns : ∃ q g head d buffer, q.TableHeld g ∧
    q.declared.Chain g.bytes head [d] ∧ buffer.length = Net.bufferLen ∧
    Net.txLoop q g queueSizeMax.toNat buffer head 0 = .error .hostBuffer ∧
    ¬ Net.CopiesOnlyPacket q g head none := by
  have htable : tableQueue.TableHeld oversized := Or.inr (by decide)
  have hchain : tableQueue.declared.Chain oversized.bytes 0 [⟨0x4000, 65563, 0, 0⟩] :=
    ⟨by decide, rfl, rfl⟩
  have hbuffer : (List.replicate Net.bufferLen (0 : UInt8)).length = Net.bufferLen :=
    List.length_replicate ..
  refine ⟨tableQueue, oversized, 0, _, _, htable, hchain, hbuffer, ?_, fun h => h ?_⟩
  · exact Net.txLoop_overruns htable hchain (by decide) (by decide) hbuffer (Nat.zero_le _)
      (by decide)
  · exact (Net.rxLoop_failed_iff htable hchain (by decide)).mpr ⟨_, List.mem_cons_self, by decide⟩

end Kthxvm.Virtio
