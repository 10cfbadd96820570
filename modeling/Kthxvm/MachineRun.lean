import Kthxvm.Device.LinePulses
import Kthxvm.Lib.Product
import Kthxvm.StringIo

/-! Runs of the whole machine: exits of any processors, the thread that reads the terminal,
and whatever the guest and the device threads do to memory between exits, in any order. -/
namespace Kthxvm

open IoDevice Virtio

structure Backend where
  devices : (k : MmioDevice) → Device k.type
  guest : Guest

inductive Event where
  /-- one iteration of `run_cpu` -/
  | exit (world : World) (run : KvmRun)
  /-- `ttyS0->write_stdio()` -/
  | terminal (input : List Int) (indeterminate : UInt8)
  /-- stores of the guest and moves of the threads of `blk` and `net` -/
  | meanwhile (next : Backend)

structure Served where
  event : Event
  code : Option UInt32
  reply : List UInt8

namespace Machine

def backend (m : Machine) : Backend := ⟨m.virtio, m.guest⟩

def withBackend (m : Machine) (x : Backend) : Machine :=
  { m with virtio := x.devices, guest := x.guest }

@[simp] theorem withBackend_backend (m : Machine) (x : Backend) :
    (m.withBackend x).backend = x := rfl

@[simp] theorem withBackend_self (m : Machine) : m.withBackend m.backend = m := rfl

@[simp] theorem withBackend_withBackend (m : Machine) (x y : Backend) :
    (m.withBackend x).withBackend y = m.withBackend y := rfl

def serve (m : Machine) : Event → Except Fault (Option UInt32 × Machine × List UInt8)
  | .exit world run => m.outcome world run
  | .terminal input indeterminate => do
    let (_, u, irq) ← (m.serial PortDevice.ttyS0).writeStdio
      (m.lines (PortDevice.ttyS PortDevice.ttyS0).line) indeterminate input
    return (none, m.withSerial PortDevice.ttyS0 ⟨u, irq⟩, [])
  | .meanwhile next => .ok (none, m.withBackend next, [])

def Step (m : Machine) (l : Served) (m' : Machine) : Prop :=
  m.serve l.event = .ok (l.code, m', l.reply)

inductive Part where
  | port (p : PortDevice)
  | backend
deriving DecidableEq

end Machine

namespace Event

open Machine

def owner : Event → Option Part
  | .exit _ run =>
    if run.exitReason = kvmExitIo then (PortDevice.claimant run.io.port.toUInt64).map .port
    else if run.exitReason = kvmExitMmio then some .backend
    else none
  | .terminal _ _ => some (.port (.ttyS PortDevice.ttyS0))
  | .meanwhile _ => some .backend

def serialAccess (n : Fin 4) : Event → Option (Uart.Access × UInt8)
  | .exit world run =>
    let offset := (PortDevice.ttyS n).window.offset run.io.port.toUInt64
    if run.io.direction = kvmExitIoIn then
      some (.read offset (run.io.count * run.io.size.toUInt32), world.indeterminate)
    else if run.io.direction = kvmExitIoOut then
      some (.write offset run.ioData, world.indeterminate)
    else none
  | .terminal input indeterminate => some (.stdio input, indeterminate)
  | .meanwhile _ => none

def keyboardAccess : Event → Option I8042.Access
  | .exit _ run =>
    let offset := PortDevice.i8042.window.offset run.io.port.toUInt64
    if run.io.direction = kvmExitIoIn then
      some (.read offset (run.io.count * run.io.size.toUInt32))
    else if run.io.direction = kvmExitIoOut then some (.write offset run.ioData)
    else none
  | _ => none

theorem owner_exit_port {world : World} {run : KvmRun} {p : PortDevice}
    (h : (exit world run).owner = some (.port p)) :
    run.exitReason = kvmExitIo ∧ PortDevice.claimant run.io.port.toUInt64 = some p := by
  dsimp only [owner] at h
  split_ifs at h with hio hmmio
  · obtain ⟨p', hp', heq⟩ := Option.map_eq_some_iff.mp h
    cases heq
    exact ⟨hio, hp'⟩
  · cases h

theorem owner_exit_backend {world : World} {run : KvmRun}
    (h : (exit world run).owner = some .backend) : run.exitReason = kvmExitMmio := by
  dsimp only [owner] at h
  split_ifs at h with hio hmmio
  · obtain ⟨p', -, heq⟩ := Option.map_eq_some_iff.mp h
    cases heq
  · exact hmmio

end Event

namespace Machine

section Port

variable {m m' : Machine} {l : Served}

theorem outcome_neither {world : World} {run : KvmRun} (hio : run.exitReason = kvmExitIo)
    (hin : run.io.direction ≠ kvmExitIoIn) (hout : run.io.direction ≠ kvmExitIoOut) :
    m.outcome world run = .ok (none, m, []) := by
  have hhanded : run.handed = [] := by
    unfold KvmRun.handed
    rw [if_pos hio, if_neg hin]
  rw [outcome_port_idle hio (Or.inr ⟨hin, hout⟩), hhanded]

def SerialStep (m : Machine) (n : Fin 4) (l : Served) (m' : Machine) : Prop :=
  l.code = none ∧ match l.event.serialAccess n with
  | some (access, indeterminate) => ∃ s, Uart.Step ⟨m.serial n, m.lines (PortDevice.ttyS n).line⟩
      ⟨access, indeterminate, l.reply⟩ s ∧ m' = m.withSerial n s
  | none => l.reply = [] ∧ m' = m

def KeyboardStep (m : Machine) (l : Served) (m' : Machine) : Prop :=
  l.code = none ∧ match l.event.keyboardAccess with
  | some access => ∃ s, I8042.Step ⟨m.keyboard, m.lines PortDevice.i8042.line⟩
      ⟨access, l.reply⟩ s ∧ m' = m.withKeyboard (s.controller, s.irq)
  | none => l.reply = [] ∧ m' = m

theorem served_iff {α : Type} {x : Except Fault (List UInt8 × α)} {g : α → Machine}
    {code : Option UInt32} {reply : List UInt8} :
    (x.map fun p => ((none : Option UInt32), g p.2, p.1)) = .ok (code, m', reply) ↔
      code = none ∧ ∃ a, x = .ok (reply, a) ∧ m' = g a := by
  cases x with
  | error e => simp [Except.map]
  | ok p =>
    obtain ⟨buf, a⟩ := p
    simp only [Except.map, Except.ok.injEq, Prod.mk.injEq]
    constructor
    · rintro ⟨rfl, rfl, rfl⟩
      exact ⟨rfl, a, ⟨rfl, rfl⟩, rfl⟩
    · rintro ⟨rfl, _, ⟨rfl, rfl⟩, rfl⟩
      exact ⟨rfl, rfl, rfl⟩

theorem idle_iff {code : Option UInt32} {reply : List UInt8} :
    Except.ok (ε := Fault) ((none : Option UInt32), m, ([] : List UInt8)) = .ok (code, m', reply) ↔
      code = none ∧ reply = [] ∧ m' = m := by
  simp only [Except.ok.injEq, Prod.mk.injEq]
  constructor
  · rintro ⟨rfl, rfl, rfl⟩
    exact ⟨rfl, rfl, rfl⟩
  · rintro ⟨rfl, rfl, rfl⟩
    exact ⟨rfl, rfl, rfl⟩

theorem map_nothing {α : Type} (x : Except Fault α) :
    (x.map fun a => ((none : Option UInt32), a, ([] : List UInt8))) =
      (x.map fun a => (([] : List UInt8), a)).map fun p => (none, p.2, p.1) := by
  cases x <;> rfl

theorem serve_serial {n : Fin 4} {e : Event} (howner : e.owner = some (.port (.ttyS n))) :
    m.serve e = match e.serialAccess n with
      | some (access, indeterminate) =>
        (Uart.Wired.serve ⟨m.serial n, m.lines (PortDevice.ttyS n).line⟩ access indeterminate).map
          fun p => (none, m.withSerial n p.2, p.1)
      | none => .ok (none, m, []) := by
  cases e with
  | exit world run =>
    obtain ⟨hio, hp⟩ := Event.owner_exit_port howner
    unfold Event.serialAccess serve
    dsimp only
    by_cases hin : run.io.direction = kvmExitIoIn
    · have hread := @portRead_serial world m n
        ⟨m.serial n, m.lines (PortDevice.ttyS n).line⟩
        ((PortDevice.ttyS n).window.offset run.io.port.toUInt64)
        (run.io.count * run.io.size.toUInt32)
      rw [withSerial_self] at hread
      rw [outcome_portIn hio hin hp, hread, if_pos hin]
      dsimp only
      cases Uart.Wired.serve ⟨m.serial n, m.lines (PortDevice.ttyS n).line⟩ _ _ <;> rfl
    by_cases hout : run.io.direction = kvmExitIoOut
    · have hwrite := @portWrite_serial world m n
        ⟨m.serial n, m.lines (PortDevice.ttyS n).line⟩ run.ioData
        ((PortDevice.ttyS n).window.offset run.io.port.toUInt64)
      rw [withSerial_self] at hwrite
      rw [outcome_portOut hio hout hp, if_neg hin, if_pos hout, map_nothing, hwrite]
      dsimp only
      cases Uart.Wired.serve ⟨m.serial n, m.lines (PortDevice.ttyS n).line⟩ _ _ <;> rfl
    · rw [outcome_neither hio hin hout, if_neg hin, if_neg hout]
  | terminal input indeterminate =>
    cases howner
    unfold Event.serialAccess serve Uart.Wired.serve
    dsimp only
    cases (m.serial 0).writeStdio (m.lines (PortDevice.ttyS 0).line) indeterminate input <;> rfl
  | meanwhile next => cases howner

theorem serve_keyboard {e : Event} (howner : e.owner = some (.port .i8042)) :
    m.serve e = match e.keyboardAccess with
      | some access =>
        (I8042.Wired.serve ⟨m.keyboard, m.lines PortDevice.i8042.line⟩ access).map
          fun p => (none, m.withKeyboard (p.2.controller, p.2.irq), p.1)
      | none => .ok (none, m, []) := by
  cases e with
  | exit world run =>
    obtain ⟨hio, hp⟩ := Event.owner_exit_port howner
    unfold Event.keyboardAccess serve I8042.Wired.serve
    dsimp only
    by_cases hin : run.io.direction = kvmExitIoIn
    · have hread := @portRead_keyboard world m
        (m.keyboard, m.lines PortDevice.i8042.line)
        (PortDevice.i8042.window.offset run.io.port.toUInt64)
        (run.io.count * run.io.size.toUInt32)
      rw [withKeyboard_self] at hread
      rw [outcome_portIn hio hin hp, hread, if_pos hin]
      dsimp only
      cases m.keyboard.read (m.lines PortDevice.i8042.line) _ _ <;> rfl
    by_cases hout : run.io.direction = kvmExitIoOut
    · have hwrite := @portWrite_keyboard world m
        (m.keyboard, m.lines PortDevice.i8042.line) run.ioData
        (PortDevice.i8042.window.offset run.io.port.toUInt64)
      rw [withKeyboard_self] at hwrite
      rw [outcome_portOut hio hout hp, if_neg hin, if_pos hout, map_nothing, hwrite]
      dsimp only
      cases m.keyboard.write (m.lines PortDevice.i8042.line) _ _ <;> rfl
    · rw [outcome_neither hio hin hout, if_neg hin, if_neg hout]
  | terminal input indeterminate => cases howner
  | meanwhile next => cases howner

theorem step_serial {n : Fin 4} (howner : l.event.owner = some (.port (.ttyS n))) :
    Step m l m' ↔ m.SerialStep n l m' := by
  unfold Step SerialStep
  rw [serve_serial howner]
  cases l.event.serialAccess n with
  | none => exact idle_iff
  | some access => exact served_iff (g := m.withSerial n)

theorem step_keyboard (howner : l.event.owner = some (.port .i8042)) :
    Step m l m' ↔ m.KeyboardStep l m' := by
  unfold Step KeyboardStep
  rw [serve_keyboard howner]
  cases l.event.keyboardAccess with
  | none => exact idle_iff
  | some access =>
    exact served_iff (g := fun s : I8042.Wired => m.withKeyboard (s.controller, s.irq))

end Port

/-! What happens to the backend is the same on every machine that has it. -/

section Backend

variable (m m₂ : Machine) {world : World} {run : KvmRun}

theorem mmioWrite_backend (data : List UInt8) (addr : UInt64) (size : UInt32) :
    (m.withBackend m₂.backend).mmioWrite data addr size =
      (m₂.mmioWrite data addr size).map fun m' => m.withBackend m'.backend := by
  unfold mmioWrite withBackend backend
  cases MmioDevice.claimant addr with
  | none => rfl
  | some k =>
    dsimp only
    cases (m₂.virtio k).mmioWrite data (k.window.offset addr) size <;> rfl

theorem update_backend : (m.withBackend m₂.backend).update world =
    (m₂.update world).map fun m' => m.withBackend m'.backend := by
  unfold update withBackend backend
  dsimp only
  cases (m₂.virtio .rng).selected with
  | error e => rfl
  | ok queue =>
    dsimp only [ok_bind]
    cases Rng.update queue (m₂.virtio .rng).irq m₂.guest world.random <;> rfl

theorem outcome_backend (hmmio : run.exitReason = kvmExitMmio) :
    (m.withBackend m₂.backend).outcome world run =
      (m₂.outcome world run).map fun r => (r.1, m.withBackend r.2.1.backend, r.2.2) := by
  have hio : run.exitReason ≠ kvmExitIo := hmmio ▸ mmio_ne_io
  unfold outcome runCpu
  rw [if_neg hio, if_neg hio, if_pos hmmio, if_pos hmmio]
  split
  · have hread : (m.withBackend m₂.backend).mmioRead run.mmio.physAddr run.mmio.len =
        m₂.mmioRead run.mmio.physAddr run.mmio.len := rfl
    rw [hread]
    cases m₂.mmioRead run.mmio.physAddr run.mmio.len with
    | error e => rfl
    | ok buf =>
      dsimp only [ok_bind]
      cases copyIn run.mmio.data buf with
      | error e => rfl
      | ok data =>
        dsimp only [ok_bind]
        rw [update_backend]
        cases m₂.update world <;> rfl
  · rw [mmioWrite_backend]
    cases m₂.mmioWrite run.mmio.data.toList run.mmio.physAddr run.mmio.len with
    | error e => rfl
    | ok m' =>
      dsimp only [Except.map, ok_bind]
      rw [update_backend]
      cases m'.update world <;> rfl

theorem step_backend {m m' : Machine} {l : Served} (howner : l.event.owner = some .backend)
    (h : Step m l m') : m' = m.withBackend m'.backend ∧
      ∀ m₂ : Machine, Step (m₂.withBackend m.backend) l (m₂.withBackend m'.backend) := by
  obtain ⟨event, code, reply⟩ := l
  unfold Step at h ⊢
  dsimp only at howner h ⊢
  cases event with
  | exit world run =>
    have hmmio := Event.owner_exit_backend howner
    have hall : ∀ m₂ : Machine, (m₂.withBackend m.backend).serve (.exit world run) =
        .ok (code, m₂.withBackend m'.backend, reply) := by
      intro m₂
      have hserve := @outcome_backend m₂ m world run hmmio
      change m.outcome world run = _ at h
      rw [h] at hserve
      exact hserve
    refine ⟨?_, hall⟩
    have hself := hall m
    rw [withBackend_self, h] at hself
    exact congrArg (fun r => r.2.1) (Except.ok.inj hself)
  | terminal input indeterminate => cases howner
  | meanwhile next =>
    cases h
    exact ⟨rfl, fun m₂ => rfl⟩

end Backend

def Unclaimed (l : Served) : Prop := ∀ m : Machine, Step m l m

section Unclaimed

variable {m m' : Machine} {l : Served}

theorem step_unclaimed (howner : l.event.owner = none) (h : Step m l m') :
    Unclaimed l ∧ m' = m := by
  obtain ⟨event, code, reply⟩ := l
  unfold Unclaimed Step at *
  dsimp only at howner h ⊢
  cases event with
  | terminal input indeterminate => cases howner
  | meanwhile next => cases howner
  | exit world run =>
    dsimp only [Event.owner] at howner
    unfold serve at h ⊢
    dsimp only at h ⊢
    split_ifs at howner with hio hmmio
    · have hport := Option.map_eq_none_iff.mp howner
      rw [outcome_port_idle hio (Or.inl hport)] at h
      cases h
      exact ⟨fun m => outcome_port_idle hio (Or.inl hport), rfl⟩
    · rw [outcome_other hio hmmio] at h
      have hother : ∀ m : Machine, m.outcome world run = _ := fun m =>
        outcome_other hio hmmio
      split_ifs at h hother
      all_goals
        cases h
        exact ⟨hother, rfl⟩

end Unclaimed

end Machine

end Kthxvm
