import Kthxvm.Device.I8042String
import Kthxvm.Device.UartString
import Kthxvm.Exits

/-! A transfer of several bytes to a port, as `rep outsb` and `rep insb` make it, against
as many transfers of one byte. -/
namespace Kthxvm

open IoDevice Lib.InSequence Lib.Transition

/-- The page of the exit that carries one byte of a longer transfer. -/
def KvmRun.single (run : KvmRun) (b : UInt8) : KvmRun :=
  { run with io := { run.io with count := 1 }, ioData := b :: run.ioData.tail }

namespace Machine

def served (m : Machine) (world : World) (p : PortDevice) (run : KvmRun) :
    Except Fault (List UInt8 × Machine) := do
  let (m, run) ← m.handleIoDevice world run p
  return (run.handed, m)

/-- A transfer does what its bytes do one by one, whatever the bytes are. -/
def Repeats (m : Machine) (world : World) (p : PortDevice) (io : Io) : Prop :=
  ∀ run : KvmRun, run.exitReason = kvmExitIo → run.io = io → io.count.toNat ≤ run.ioData.length →
    m.served world p run =
      inSequence (fun b m => m.served world p (run.single b)) (run.ioData.take io.count.toNat) m

/-- The accesses after the first return zeros and change nothing. -/
def Idle (m : Machine) (world : World) (p : PortDevice) (io : Io) : Prop :=
  let offset := p.window.offset io.port.toUInt64
  match p with
  | .i8042 =>
    (io.direction = kvmExitIoIn → m.keyboard.IdleRead offset) ∧
      (io.direction = kvmExitIoOut → m.keyboard.IdleWrite offset)
  | .ttyS n =>
    (io.direction = kvmExitIoIn → (m.serial n).IdleRead offset world.indeterminate) ∧
      (io.direction = kvmExitIoOut → (m.serial n).IdleWrite offset world.indeterminate)

def SerialReached (m : Machine) : Prop :=
  ∀ n, ∃ start moves irq, Uart.Start start ∧ Run Uart.Step start moves ⟨m.serial n, irq⟩

/-! A machine with another state of one device and of its line. -/

def withKeyboard (m : Machine) (s : I8042 × Interrupt) : Machine :=
  { m with keyboard := s.1, lines := Function.update m.lines PortDevice.i8042.line s.2 }

def withSerial (m : Machine) (n : Fin 4) (s : Uart.Wired) : Machine :=
  { m with
    serial := Function.update m.serial n s.uart
    lines := Function.update m.lines (PortDevice.ttyS n).line s.irq }

theorem withKeyboard_self (m : Machine) :
    m.withKeyboard (m.keyboard, m.lines PortDevice.i8042.line) = m := by
  unfold withKeyboard
  rw [Function.update_eq_self]

theorem withSerial_self (m : Machine) (n : Fin 4) :
    m.withSerial n ⟨m.serial n, m.lines (PortDevice.ttyS n).line⟩ = m := by
  unfold withSerial
  rw [Function.update_eq_self, Function.update_eq_self]

theorem withKeyboard_injective (m : Machine) : Function.Injective m.withKeyboard := by
  intro s s' h
  have hkeyboard := congrArg Machine.keyboard h
  have hline := congrFun (congrArg Machine.lines h) PortDevice.i8042.line
  simp only [withKeyboard, Function.update_self] at hkeyboard hline
  exact Prod.ext hkeyboard hline

theorem withSerial_injective (m : Machine) (n : Fin 4) :
    Function.Injective (m.withSerial n) := by
  intro s s' h
  have hserial := congrFun (congrArg Machine.serial h) n
  have hline := congrFun (congrArg Machine.lines h) (PortDevice.ttyS n).line
  simp only [withSerial, Function.update_self] at hserial hline
  cases s
  cases s'
  congr

section Served

variable {world : World} (m : Machine)

theorem served_in (p : PortDevice) (run : KvmRun) (hio : run.exitReason = kvmExitIo)
    (hin : run.io.direction = kvmExitIoIn) :
    m.served world p run = m.portRead world p (p.window.offset run.io.port.toUInt64)
      (run.io.count * run.io.size.toUInt32) := by
  unfold served handleIoDevice
  rw [if_pos hin]
  cases hread : m.portRead world p (p.window.offset run.io.port.toUInt64)
      (run.io.count * run.io.size.toUInt32) with
  | error e => rfl
  | ok result =>
    obtain ⟨buf, m'⟩ := result
    have hbuf := take_overwrite (length_portRead hread) run.ioData
    refine congrArg (fun bytes => Except.ok (bytes, m')) ?_
    unfold KvmRun.handed
    rw [if_pos hio, if_pos hin]
    exact hbuf

theorem served_out (p : PortDevice) (run : KvmRun) (hio : run.exitReason = kvmExitIo)
    (hout : run.io.direction = kvmExitIoOut) :
    m.served world p run =
      (m.portWrite world p run.ioData (p.window.offset run.io.port.toUInt64)).map
        fun m => ([], m) := by
  have hin : run.io.direction ≠ kvmExitIoIn := by
    rw [hout]
    decide
  unfold served handleIoDevice
  rw [if_neg hin, if_pos hout]
  cases m.portWrite world p run.ioData (p.window.offset run.io.port.toUInt64) with
  | error e => rfl
  | ok m' =>
    refine congrArg (fun bytes => Except.ok (bytes, m')) ?_
    unfold KvmRun.handed
    rw [if_pos hio, if_neg hin]

theorem served_none (p : PortDevice) (run : KvmRun) (hio : run.exitReason = kvmExitIo)
    (hin : run.io.direction ≠ kvmExitIoIn) (hout : run.io.direction ≠ kvmExitIoOut) :
    m.served world p run = .ok ([], m) := by
  unfold served handleIoDevice
  rw [if_neg hin, if_neg hout]
  refine congrArg (fun bytes => Except.ok (bytes, m)) ?_
  unfold KvmRun.handed
  rw [if_pos hio, if_neg hin]

/-! The devices that a transfer reaches. -/

theorem portRead_keyboard (s : I8042 × Interrupt) (offset : UInt64) (size : UInt32) :
    (m.withKeyboard s).portRead world .i8042 offset size =
      (s.1.read s.2 offset size).map fun p => (p.1, m.withKeyboard p.2) := by
  unfold portRead withKeyboard
  dsimp only
  rw [Function.update_self]
  cases s.1.read s.2 offset size with
  | error e => rfl
  | ok result =>
    obtain ⟨buf, k, irq⟩ := result
    simp only [ok_bind, Function.update_idem]
    rfl

theorem portWrite_keyboard (s : I8042 × Interrupt) (data : List UInt8) (offset : UInt64) :
    ((m.withKeyboard s).portWrite world .i8042 data offset).map (fun m => ([], m)) =
      ((s.1.write s.2 data offset).map fun s => (([] : List UInt8), s)).map
        fun p => (p.1, m.withKeyboard p.2) := by
  unfold portWrite withKeyboard
  dsimp only
  rw [Function.update_self]
  cases s.1.write s.2 data offset with
  | error e => rfl
  | ok result =>
    obtain ⟨k, irq⟩ := result
    simp only [ok_bind, Function.update_idem]
    rfl

theorem portRead_serial (n : Fin 4) (s : Uart.Wired) (offset : UInt64) (size : UInt32) :
    (m.withSerial n s).portRead world (.ttyS n) offset size =
      (s.serve (.read offset size) world.indeterminate).map
        fun p => (p.1, m.withSerial n p.2) := by
  unfold portRead withSerial Uart.Wired.serve
  dsimp only
  rw [Function.update_self, Function.update_self]
  cases s.uart.read s.irq world.indeterminate offset size with
  | error e => rfl
  | ok result =>
    obtain ⟨buf, u, irq⟩ := result
    simp only [ok_bind, Function.update_idem]
    rfl

theorem portWrite_serial (n : Fin 4) (s : Uart.Wired) (data : List UInt8) (offset : UInt64) :
    ((m.withSerial n s).portWrite world (.ttyS n) data offset).map (fun m => ([], m)) =
      (s.serve (.write offset data) world.indeterminate).map
        fun p => (p.1, m.withSerial n p.2) := by
  unfold portWrite withSerial Uart.Wired.serve
  dsimp only
  rw [Function.update_self, Function.update_self]
  cases s.uart.write s.irq world.indeterminate data offset with
  | error e => rfl
  | ok result =>
    obtain ⟨u, irq⟩ := result
    simp only [ok_bind, Function.update_idem]
    rfl

end Served

/-! A transfer of one byte out of a longer one. -/

section Single

variable {world : World} {run : KvmRun}

theorem single_size (hsize : run.io.size = 1) (b : UInt8) :
    (run.single b).io.count * (run.single b).io.size.toUInt32 = 1 := by
  unfold KvmRun.single
  dsimp only
  rw [hsize]
  rfl

theorem size_of_bytes {io : Io} (hsize : io.size = 1) :
    io.count * io.size.toUInt32 = io.count := by
  rw [hsize]
  exact UInt32.mul_one io.count

theorem portWrite_take {n : Nat} (hn : 0 < n) (m : Machine) (p : PortDevice)
    (data : List UInt8) (offset : UInt64) :
    m.portWrite world p data offset = m.portWrite world p (data.take n) offset := by
  apply portWrite_congr
  apply firstByte_congr hn
  rw [List.take_take, min_self]

theorem portWrite_single (m : Machine) (p : PortDevice) (b : UInt8) (rest : List UInt8)
    (offset : UInt64) :
    m.portWrite world p (b :: rest) offset = m.portWrite world p [b] offset :=
  portWrite_congr rfl m world p offset

end Single

section Repeats

variable {m : Machine} {world : World} {p : PortDevice} {io : Io}

theorem exists_run (io : Io) (bs : List UInt8) :
    ∃ run : KvmRun, run.exitReason = kvmExitIo ∧ run.io = io ∧ run.ioData = bs :=
  ⟨⟨kvmExitIo, io, bs, ⟨0, Vector.replicate 8 0, 0, 0⟩⟩, rfl, rfl, rfl⟩

theorem repeats_iff_bytes {P : List UInt8 → Prop}
    (h : ∀ run : KvmRun, run.exitReason = kvmExitIo → run.io = io →
      io.count.toNat ≤ run.ioData.length →
      (m.served world p run =
          inSequence (fun b m => m.served world p (run.single b))
            (run.ioData.take io.count.toNat) m ↔
        P (run.ioData.take io.count.toNat))) :
    m.Repeats world p io ↔ ∀ bs : List UInt8, bs.length = io.count.toNat → P bs := by
  constructor
  · intro hrepeats bs hbs
    obtain ⟨run, hreason, hio, hdata⟩ := exists_run io bs
    have hlen : io.count.toNat ≤ run.ioData.length := by rw [hdata, hbs]
    have hp := (h run hreason hio hlen).mp (hrepeats run hreason hio hlen)
    rwa [hdata, List.take_of_length_le hbs.le] at hp
  · intro hall run hreason hio hlen
    exact (h run hreason hio hlen).mpr (hall _ (List.length_take_of_le hlen))

theorem repeats_iff_part {δ : Type} {g : δ → Machine} (hg : Function.Injective g) {d : δ}
    (hd : g d = m) (first : List UInt8 → Except Fault (List UInt8 × δ))
    (once : UInt8 → δ → Except Fault (List UInt8 × δ))
    (hfirst : ∀ run : KvmRun, run.exitReason = kvmExitIo → run.io = io →
      io.count.toNat ≤ run.ioData.length →
      (g d).served world p run =
        (first (run.ioData.take io.count.toNat)).map fun q => (q.1, g q.2))
    (honce : ∀ run : KvmRun, run.exitReason = kvmExitIo → run.io = io → ∀ b d,
      (g d).served world p (run.single b) = (once b d).map fun q => (q.1, g q.2)) :
    m.Repeats world p io ↔
      ∀ bs : List UInt8, bs.length = io.count.toNat → first bs = inSequence once bs d := by
  subst hd
  apply repeats_iff_bytes
  intro run hreason hio hlen
  rw [hfirst run hreason hio hlen]
  exact map_eq_inSequence_iff hg (honce run hreason hio) _ d _

theorem forall_bytes_iff {n : Nat} {P : Prop} {Q : List UInt8 → Prop}
    (h : ∀ bs : List UInt8, bs.length = n → (Q bs ↔ P)) :
    (∀ bs : List UInt8, bs.length = n → Q bs) ↔ P := by
  constructor
  · intro hall
    have hbs : (List.replicate n (0 : UInt8)).length = n := List.length_replicate
    exact (h _ hbs).mp (hall _ hbs)
  · intro hp bs hbs
    exact (h bs hbs).mpr hp

theorem repeats_keyboard_in (hin : io.direction = kvmExitIoIn) (hsize : io.size = 1)
    (hcount : io.count ≠ 0) :
    m.Repeats world .i8042 io ↔
      io.count = 1 ∨ m.keyboard.IdleRead (PortDevice.i8042.window.offset io.port.toUInt64) := by
  rw [repeats_iff_part m.withKeyboard_injective m.withKeyboard_self
    (fun _ => m.keyboard.read (m.lines PortDevice.i8042.line)
      (PortDevice.i8042.window.offset io.port.toUInt64) io.count)
    (I8042.readOnce (PortDevice.i8042.window.offset io.port.toUInt64))]
  · exact forall_bytes_iff fun bs hbs => I8042.read_repeats_iff hcount hbs
  · rintro run hreason rfl -
    rw [served_in _ .i8042 run hreason hin, size_of_bytes hsize]
    exact portRead_keyboard m _ _ _
  · rintro run hreason rfl b s
    rw [served_in _ .i8042 (run.single b) hreason hin, single_size hsize]
    exact portRead_keyboard m s _ 1

theorem count_toNat_eq_one (io : Io) : io.count.toNat = 1 ↔ io.count = 1 := by
  rw [← UInt32.toNat_inj]
  rfl

theorem repeats_keyboard_out (hout : io.direction = kvmExitIoOut) (hcount : io.count ≠ 0) :
    m.Repeats world .i8042 io ↔
      io.count = 1 ∨ m.keyboard.IdleWrite (PortDevice.i8042.window.offset io.port.toUInt64) := by
  have hpos : io.count.toNat ≠ 0 := fun h => hcount (UInt32.toNat_inj.mp h)
  have hone := count_toNat_eq_one io
  rw [repeats_iff_part m.withKeyboard_injective m.withKeyboard_self
    (fun bs => (m.keyboard.write (m.lines PortDevice.i8042.line) bs
      (PortDevice.i8042.window.offset io.port.toUInt64)).map fun s => ([], s))
    (I8042.writeOnce (PortDevice.i8042.window.offset io.port.toUInt64)), ← hone]
  · exact I8042.write_repeats_iff hpos
  · rintro run hreason rfl -
    rw [served_out _ .i8042 run hreason hout, portWrite_take (Nat.pos_of_ne_zero hpos)]
    exact portWrite_keyboard m _ _ _
  · rintro run hreason rfl b s
    rw [served_out _ .i8042 (run.single b) hreason hout]
    exact (congrArg _ (portWrite_single _ _ b _ _)).trans (portWrite_keyboard m s [b] _)

theorem repeats_serial_in {n : Fin 4} (hsound : Uart.Sound (m.serial n))
    (hin : io.direction = kvmExitIoIn) (hsize : io.size = 1) (hcount : io.count ≠ 0) :
    m.Repeats world (.ttyS n) io ↔ io.count = 1 ∨ (m.serial n).IdleRead
      ((PortDevice.ttyS n).window.offset io.port.toUInt64) world.indeterminate := by
  rw [repeats_iff_part (m.withSerial_injective n) (m.withSerial_self n)
    (fun _ => Uart.Wired.serve ⟨m.serial n, m.lines (PortDevice.ttyS n).line⟩
      (.read ((PortDevice.ttyS n).window.offset io.port.toUInt64) io.count) world.indeterminate)
    (Uart.readOnce ((PortDevice.ttyS n).window.offset io.port.toUInt64) world.indeterminate)]
  · exact forall_bytes_iff fun bs hbs => Uart.read_repeats_iff hsound hcount hbs
  · rintro run hreason rfl -
    rw [served_in _ (.ttyS n) run hreason hin, size_of_bytes hsize]
    exact portRead_serial m n _ _ _
  · rintro run hreason rfl b s
    rw [served_in _ (.ttyS n) (run.single b) hreason hin, single_size hsize]
    exact portRead_serial m n s _ 1

theorem repeats_serial_out {n : Fin 4} (hsound : Uart.Sound (m.serial n))
    (hout : io.direction = kvmExitIoOut) (hcount : io.count ≠ 0) :
    m.Repeats world (.ttyS n) io ↔ io.count = 1 ∨ (m.serial n).IdleWrite
      ((PortDevice.ttyS n).window.offset io.port.toUInt64) world.indeterminate := by
  have hpos : io.count.toNat ≠ 0 := fun h => hcount (UInt32.toNat_inj.mp h)
  have hone := count_toNat_eq_one io
  rw [repeats_iff_part (m.withSerial_injective n) (m.withSerial_self n)
    (fun bs => Uart.Wired.serve ⟨m.serial n, m.lines (PortDevice.ttyS n).line⟩
      (.write ((PortDevice.ttyS n).window.offset io.port.toUInt64) bs) world.indeterminate)
    (Uart.writeOnce ((PortDevice.ttyS n).window.offset io.port.toUInt64) world.indeterminate),
    ← hone]
  · exact Uart.write_repeats_iff (s := ⟨m.serial n, m.lines (PortDevice.ttyS n).line⟩) hsound hpos
  · rintro run hreason rfl -
    rw [served_out _ (.ttyS n) run hreason hout, portWrite_take (Nat.pos_of_ne_zero hpos)]
    exact portWrite_serial m n _ _ _
  · rintro run hreason rfl b s
    rw [served_out _ (.ttyS n) (run.single b) hreason hout]
    exact (congrArg _ (portWrite_single _ _ b _ _)).trans (portWrite_serial m n s [b] _)

theorem repeats_none (hin : io.direction ≠ kvmExitIoIn) (hout : io.direction ≠ kvmExitIoOut) :
    m.Repeats world p io := by
  rintro run hreason rfl -
  rw [served_none m p run hreason hin hout,
    inSequence_idle fun b _ => served_none m p (run.single b) hreason hin hout,
    List.flatten_replicate_nil]

/-- The transfers of a number of bytes are what the bytes are one by one, all of them, exactly
when the number is one, or when the accesses after the first are of no effect: the devices
look at `data[0]`, fill `buf[0]` and are called once. A single string may come out right
without that. -/
theorem repeats_iff (hreached : m.SerialReached) (hsize : io.size = 1) (hcount : io.count ≠ 0) :
    m.Repeats world p io ↔ io.count = 1 ∨ m.Idle world p io := by
  have hsound : ∀ n, Uart.Sound (m.serial n) := by
    intro n
    obtain ⟨start, moves, irq, hstart, hrun⟩ := hreached n
    exact Uart.sound_run hstart hrun
  have hne : kvmExitIoIn ≠ kvmExitIoOut := by decide
  by_cases hin : io.direction = kvmExitIoIn
  · have hout : io.direction ≠ kvmExitIoOut := hin ▸ hne
    unfold Idle
    cases p with
    | i8042 => simp only [repeats_keyboard_in hin hsize hcount, hin, hne, true_implies,
        false_implies, and_true]
    | ttyS n => simp only [repeats_serial_in (hsound n) hin hsize hcount, hin, hne, true_implies,
        false_implies, and_true]
  · by_cases hout : io.direction = kvmExitIoOut
    · unfold Idle
      cases p with
      | i8042 => simp only [repeats_keyboard_out hout hcount, hout, hne.symm, true_implies,
          false_implies, true_and]
      | ttyS n => simp only [repeats_serial_out (hsound n) hout hcount, hout, hne.symm,
          true_implies, false_implies, true_and]
    · refine iff_of_true (repeats_none hin hout) (Or.inr ?_)
      unfold Idle
      cases p with
      | i8042 => exact ⟨fun h => absurd h hin, fun h => absurd h hout⟩
      | ttyS n => exact ⟨fun h => absurd h hin, fun h => absurd h hout⟩

end Repeats

def console : Machine where
  keyboard := { buffer := Vector.replicate I8042.bufSize 0 }
  serial := fun n => Uart.fresh (if n.val = 0 then some [] else none)
    (Vector.replicate Uart.fifoLen 0) (Vector.replicate Uart.fifoLen 0)
  lines := fun n => { number := UInt32.ofNat n }
  virtio := fun k => Virtio.Device.fresh k.type { number := 12 } []
  guest := ⟨fun _ => 0, 0⟩

theorem console_reached : console.SerialReached := by
  intro n
  refine ⟨⟨console.serial n, Uart.line⟩, [], Uart.line, ⟨_, _, _, ?_, rfl⟩, Run.nil⟩
  by_cases hn : n.val = 0
  · exact Or.inr (if_pos hn)
  · exact Or.inl (if_neg hn)

def calmWorld : World := ⟨fun _ => [], 0⟩

/-- Four bytes from the scratch register. -/
theorem scratch_repeats : console.Repeats calmWorld (.ttyS 0) ⟨kvmExitIoIn, 1, 0x3ff, 4⟩ := by
  apply (repeats_iff console_reached rfl (by decide)).mpr
  refine Or.inr ⟨fun _ => ?_, fun h => absurd h (by decide)⟩
  exact ⟨rfl, rfl, Or.inl (by decide), by decide⟩

/-- Of two bytes that are sent to the terminal in one exit the second is lost. -/
theorem second_byte_lost :
    ¬ console.Repeats calmWorld (.ttyS 0) ⟨kvmExitIoOut, 1, 0x3f8, 2⟩ := by
  intro h
  have hpage := h ⟨kvmExitIo, ⟨kvmExitIoOut, 1, 0x3f8, 2⟩, [0x68, 0x69], ⟨0, 0, 0, 0⟩⟩ rfl rfl
    (by decide)
  have hterm := congrArg (Except.map fun p => (p.2.serial 0).term) hpage
  revert hterm
  decide

end Machine

end Kthxvm
