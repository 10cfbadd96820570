import Kthxvm.MachineRun

/-! The machine as its devices on ports and the rest, each with an interrupt line of its own.
A shared line of the machine has been signalled as often as the lines of its ports together. -/
namespace Kthxvm.Machine

open IoDevice Virtio Lib.Transition Lib.Product

/-! The parts. -/

def Part.State : Part → Type
  | .port .i8042 => I8042.Wired
  | .port (.ttyS _) => Uart.Wired
  | .backend => Backend

abbrev Parts := (c : Part) → c.State

def ownLine (m : Machine) (p : PortDevice) : Interrupt := { number := (m.lines p.line).number }

def parts (m : Machine) : Parts
  | .port .i8042 => (⟨m.keyboard, m.ownLine .i8042⟩ : I8042.Wired)
  | .port (.ttyS n) => (⟨m.serial n, m.ownLine (.ttyS n)⟩ : Uart.Wired)
  | .backend => m.backend

namespace Parts

def keyboard (parts : Parts) : I8042.Wired := parts (.port .i8042)

def serial (parts : Parts) (n : Fin 4) : Uart.Wired := parts (.port (.ttyS n))

def backend (parts : Parts) : Backend := parts .backend

def irq (parts : Parts) : PortDevice → Interrupt
  | .i8042 => parts.keyboard.irq
  | .ttyS n => (parts.serial n).irq

def signals (parts : Parts) (i : Fin 32) : Nat :=
  ((PortDevice.all.filter (·.line = i)).map fun p => (parts.irq p).fd).sum

def setKeyboard (parts : Parts) (s : I8042.Wired) : Parts :=
  Function.update parts (.port .i8042) s

def setSerial (parts : Parts) (n : Fin 4) (s : Uart.Wired) : Parts :=
  Function.update parts (.port (.ttyS n)) s

def setBackend (parts : Parts) (x : Backend) : Parts := Function.update parts .backend x

section Set

variable (parts : Parts)

@[simp] theorem keyboard_setKeyboard (s : I8042.Wired) : (parts.setKeyboard s).keyboard = s :=
  Function.update_self (Part.port .i8042) (show Part.State (.port .i8042) from s) parts

theorem set_other (c c' : Part) (h : c' ≠ c) (s : c.State) :
    Function.update parts c s c' = parts c' :=
  Function.update_of_ne h s parts

@[simp] theorem serial_setKeyboard (s : I8042.Wired) :
    (parts.setKeyboard s).serial = parts.serial :=
  funext fun n => parts.set_other (.port .i8042) (.port (.ttyS n)) (by decide +revert) s

@[simp] theorem backend_setKeyboard (s : I8042.Wired) :
    (parts.setKeyboard s).backend = parts.backend :=
  parts.set_other (.port .i8042) .backend (by decide) s

@[simp] theorem keyboard_setSerial (n : Fin 4) (s : Uart.Wired) :
    (parts.setSerial n s).keyboard = parts.keyboard :=
  parts.set_other (.port (.ttyS n)) (.port .i8042) (by decide +revert) s

@[simp] theorem serial_setSerial (n : Fin 4) (s : Uart.Wired) :
    (parts.setSerial n s).serial = Function.update parts.serial n s := by
  funext n'
  by_cases hn : n' = n
  · subst hn
    rw [Function.update_self]
    exact Function.update_self (Part.port (.ttyS n'))
      (show Part.State (.port (.ttyS n')) from s) parts
  · rw [Function.update_of_ne hn]
    refine parts.set_other (.port (.ttyS n)) (.port (.ttyS n')) ?_ s
    simpa using hn

@[simp] theorem backend_setSerial (n : Fin 4) (s : Uart.Wired) :
    (parts.setSerial n s).backend = parts.backend :=
  parts.set_other (.port (.ttyS n)) .backend (by decide +revert) s

@[simp] theorem keyboard_setBackend (x : Backend) :
    (parts.setBackend x).keyboard = parts.keyboard :=
  parts.set_other .backend (.port .i8042) (by decide) x

@[simp] theorem serial_setBackend (x : Backend) : (parts.setBackend x).serial = parts.serial :=
  funext fun n => parts.set_other .backend (.port (.ttyS n)) (by decide +revert) x

@[simp] theorem backend_setBackend (x : Backend) : (parts.setBackend x).backend = x :=
  Function.update_self Part.backend (show Part.State .backend from x) parts

theorem irq_setKeyboard (s : I8042.Wired) :
    (parts.setKeyboard s).irq = Function.update parts.irq .i8042 s.irq := by
  funext p
  cases p with
  | i8042 => simp [irq]
  | ttyS n => simp [irq]

theorem irq_setSerial (n : Fin 4) (s : Uart.Wired) :
    (parts.setSerial n s).irq = Function.update parts.irq (.ttyS n) s.irq := by
  funext p
  cases p with
  | i8042 => simp [irq]
  | ttyS n' =>
    by_cases hn : n' = n
    · subst hn
      simp [irq]
    · simp [irq, hn]

theorem irq_setBackend (x : Backend) : (parts.setBackend x).irq = parts.irq := by
  funext p
  cases p <;> simp [irq]

end Set

end Parts

/-- A machine with these parts, where `lines` is what the lines were before. -/
def assemble (lines : Fin 32 → Interrupt) (parts : Parts) : Machine where
  keyboard := parts.keyboard.controller
  serial := fun n => (parts.serial n).uart
  lines := fun i => (lines i).raised (parts.signals i)
  virtio := parts.backend.devices
  guest := parts.backend.guest

def act : (c : Part) → c.State → Served → c.State → Prop
  | .port .i8042, (s : I8042.Wired), l, (s' : I8042.Wired) =>
    l.code = none ∧ match l.event.keyboardAccess with
    | some access => I8042.Step s ⟨access, l.reply⟩ s'
    | none => l.reply = [] ∧ s' = s
  | .port (.ttyS n), (s : Uart.Wired), l, (s' : Uart.Wired) =>
    l.code = none ∧ match l.event.serialAccess n with
    | some (access, indeterminate) => Uart.Step s ⟨access, indeterminate, l.reply⟩ s'
    | none => l.reply = [] ∧ s' = s
  | .backend, (x : Backend), l, (x' : Backend) =>
    ∀ m : Machine, Step (m.withBackend x) l (m.withBackend x')

section Signals

variable {before after : Parts} {p : PortDevice} {n : Nat}

theorem sum_single (ps : List PortDevice) (p : PortDevice) (n : Nat) :
    (ps.map fun q => if q = p then n else 0).sum = ps.count p * n := by
  induction ps with
  | nil => simp
  | cons q ps ih =>
    rw [List.map_cons, List.sum_cons, ih, List.count_cons]
    by_cases hq : q = p
    · rw [if_pos hq, if_pos (beq_iff_eq.mpr hq), Nat.add_mul, Nat.one_mul, Nat.add_comm]
    · rw [if_neg hq, if_neg fun h => hq (beq_iff_eq.mp h), Nat.zero_add, Nat.add_zero]

theorem count_all (p : PortDevice) : PortDevice.all.count p = 1 := by
  cases p with
  | i8042 => rfl
  | ttyS n => fin_cases n <;> rfl

theorem Parts.signals_of (h : after.irq = Function.update before.irq p ((before.irq p).raised n))
    (i : Fin 32) : after.signals i = before.signals i + if p.line = i then n else 0 := by
  have hfd : ∀ q, (after.irq q).fd = (before.irq q).fd + if q = p then n else 0 := by
    intro q
    rw [h]
    by_cases hq : q = p
    · subst hq
      rw [Function.update_self, if_pos rfl]
      rfl
    · rw [Function.update_of_ne hq, if_neg hq, Nat.add_zero]
  unfold Parts.signals
  simp only [hfd]
  rw [List.sum_map_add, sum_single]
  congr 1
  by_cases hi : p.line = i
  · rw [if_pos hi,
      List.count_filter (p := fun q : PortDevice => decide (q.line = i)) (decide_eq_true hi),
      count_all, Nat.one_mul]
  · rw [if_neg hi, List.count_eq_zero_of_not_mem, Nat.zero_mul]
    intro hmem
    exact hi (of_decide_eq_true (List.mem_filter.mp hmem).2)

theorem lines_of (lines : Fin 32 → Interrupt)
    (h : after.irq = Function.update before.irq p ((before.irq p).raised n)) :
    Function.update (assemble lines before).lines p.line
        (((assemble lines before).lines p.line).raised n) = (assemble lines after).lines := by
  funext i
  have hsignals := Parts.signals_of h i
  change _ = (lines i).raised (after.signals i)
  by_cases hi : i = p.line
  · subst hi
    rw [Function.update_self, hsignals, if_pos rfl]
    exact (Interrupt.raised_add _ _ _).symm
  · rw [Function.update_of_ne hi, hsignals, if_neg fun h => hi h.symm, Nat.add_zero]
    rfl

end Signals

section Assemble

variable (lines : Fin 32 → Interrupt) (before : Parts)

theorem assemble_setSerial (n : Fin 4) (u : Uart) (k : Nat) :
    assemble lines (before.setSerial n ⟨u, (before.serial n).irq.raised k⟩) =
      (assemble lines before).withSerial n
        ⟨u, ((assemble lines before).lines (PortDevice.ttyS n).line).raised k⟩ := by
  unfold withSerial
  dsimp only
  rw [lines_of lines (before.irq_setSerial n ⟨u, (before.serial n).irq.raised k⟩)]
  have hserial : (fun n' => ((before.setSerial n
      ⟨u, (before.serial n).irq.raised k⟩).serial n').uart) =
        Function.update (fun n' => (before.serial n').uart) n u := by
    funext n'
    rw [Parts.serial_setSerial]
    by_cases hn : n' = n
    · subst hn
      rw [Function.update_self, Function.update_self]
    · rw [Function.update_of_ne hn, Function.update_of_ne hn]
  unfold assemble
  dsimp only
  rw [hserial, Parts.keyboard_setSerial, Parts.backend_setSerial]

theorem assemble_setKeyboard (c : I8042) (k : Nat) :
    assemble lines (before.setKeyboard ⟨c, before.keyboard.irq.raised k⟩) =
      (assemble lines before).withKeyboard
        (c, ((assemble lines before).lines PortDevice.i8042.line).raised k) := by
  unfold withKeyboard
  dsimp only
  rw [lines_of lines (before.irq_setKeyboard ⟨c, before.keyboard.irq.raised k⟩)]
  unfold assemble
  rw [Parts.keyboard_setKeyboard, Parts.serial_setKeyboard, Parts.backend_setKeyboard]

theorem assemble_setBackend (x : Backend) :
    assemble lines (before.setBackend x) = (assemble lines before).withBackend x := by
  unfold withBackend assemble Parts.signals
  rw [Parts.irq_setBackend, Parts.keyboard_setBackend, Parts.serial_setBackend,
    Parts.backend_setBackend]

end Assemble

/-! Machine and parts go together, step by step. -/

structure Shows (lines : Fin 32 → Interrupt) (m : Machine) (parts : Parts) : Prop where
  whole : m = assemble lines parts
  low : ∀ p : PortDevice, (lines p.line).state = false
  own : ∀ p, (parts.irq p).state = false

abbrev PartsStep : Parts → Served → Parts → Prop :=
  Lib.Product.Step act (fun l : Served => l.event.owner) Unclaimed

section Shows

variable {lines : Fin 32 → Interrupt} {m m' : Machine} {parts parts' : Parts} {l : Served}

theorem Shows.line_low (h : Shows lines m parts) (p : PortDevice) :
    (m.lines p.line).state = false := by
  rw [h.whole]
  exact h.low p

theorem own_update {p : PortDevice} {irq : Interrupt} (h : ∀ p, (parts.irq p).state = false)
    (hirq : irq.state = false) (q : PortDevice) :
    (Function.update parts.irq p irq q).state = false := by
  by_cases hq : q = p
  · subst hq
    rwa [Function.update_self]
  · rw [Function.update_of_ne hq]
    exact h q

theorem Shows.serial {n : Fin 4} {u : Uart} {k : Nat} (h : Shows lines m parts) :
    Shows lines (m.withSerial n ⟨u, (m.lines (PortDevice.ttyS n).line).raised k⟩)
      (parts.setSerial n ⟨u, (parts.serial n).irq.raised k⟩) where
  whole := by
    rw [assemble_setSerial, h.whole]
  low := h.low
  own := by
    rw [Parts.irq_setSerial]
    exact own_update h.own (h.own (.ttyS n))

theorem Shows.keyboard {c : I8042} {k : Nat} (h : Shows lines m parts) :
    Shows lines (m.withKeyboard (c, (m.lines PortDevice.i8042.line).raised k))
      (parts.setKeyboard ⟨c, parts.keyboard.irq.raised k⟩) where
  whole := by
    rw [assemble_setKeyboard, h.whole]
  low := h.low
  own := by
    rw [Parts.irq_setKeyboard]
    exact own_update h.own (h.own .i8042)

theorem Shows.backend (h : Shows lines m parts) (x : Backend) :
    Shows lines (m.withBackend x) (parts.setBackend x) where
  whole := by
    rw [assemble_setBackend, h.whole]
  low := h.low
  own := by
    rw [Parts.irq_setBackend]
    exact h.own

theorem Shows.serial_eq (h : Shows lines m parts) (n : Fin 4) :
    m.serial n = (parts.serial n).uart := by
  rw [h.whole]
  rfl

theorem Shows.keyboard_eq (h : Shows lines m parts) : m.keyboard = parts.keyboard.controller := by
  rw [h.whole]
  rfl

theorem Shows.backend_eq (h : Shows lines m parts) : m.backend = parts.backend := by
  rw [h.whole]
  rfl

theorem partsStep_iff {c : Part} (howner : l.event.owner = some c) :
    PartsStep parts l parts' ↔ ∃ x, act c (parts c) l x ∧ parts' = Function.update parts c x := by
  have hl : (fun l : Served => l.event.owner) l = some c := howner
  exact step_owned hl

theorem partsStep_unclaimed (howner : l.event.owner = none) :
    PartsStep parts l parts' ↔ Unclaimed l ∧ parts' = parts := by
  have hl : (fun l : Served => l.event.owner) l = none := howner
  exact step_unowned hl

theorem partsStep_self {c : Part} (howner : l.event.owner = some c)
    (hact : act c (parts c) l (parts c)) : PartsStep parts l parts :=
  (partsStep_iff howner).mpr ⟨parts c, hact, (Function.update_eq_self c parts).symm⟩

theorem Shows.step (h : Shows lines m parts) (hstep : Step m l m') :
    ∃ parts', PartsStep parts l parts' ∧ Shows lines m' parts' := by
  cases howner : l.event.owner with
  | none =>
    obtain ⟨hunclaimed, rfl⟩ := step_unclaimed howner hstep
    exact ⟨parts, (partsStep_unclaimed howner).mpr ⟨hunclaimed, rfl⟩, h⟩
  | some c =>
    cases c with
    | backend =>
      obtain ⟨hm', hall⟩ := step_backend howner hstep
      refine ⟨parts.setBackend m'.backend, ?_, hm' ▸ h.backend m'.backend⟩
      refine (partsStep_iff howner).mpr ⟨m'.backend, fun m₂ => ?_, rfl⟩
      have hsame := hall m₂
      rwa [h.backend_eq] at hsame
    | port p =>
      cases p with
      | i8042 =>
        obtain ⟨hcode, hstep⟩ := (step_keyboard howner).mp hstep
        cases haccess : l.event.keyboardAccess with
        | none =>
          rw [haccess] at hstep
          obtain ⟨hreply, rfl⟩ := hstep
          refine ⟨parts, partsStep_self howner ⟨hcode, ?_⟩, h⟩
          rw [haccess]
          exact ⟨hreply, rfl⟩
        | some access =>
          rw [haccess] at hstep
          obtain ⟨s, hserve, rfl⟩ := hstep
          obtain ⟨n, hline, hall⟩ := I8042.step_line (h.line_low .i8042) hserve
          dsimp only at hline hall
          rw [hline]
          refine ⟨_, ?_, h.keyboard (c := s.controller) (k := n)⟩
          refine (partsStep_iff howner).mpr ⟨_, ⟨hcode, ?_⟩, rfl⟩
          rw [haccess]
          have hown := hall parts.keyboard.irq (h.own .i8042)
          rw [h.keyboard_eq] at hown
          exact hown
      | ttyS n =>
        obtain ⟨hcode, hstep⟩ := (step_serial howner).mp hstep
        cases haccess : l.event.serialAccess n with
        | none =>
          rw [haccess] at hstep
          obtain ⟨hreply, rfl⟩ := hstep
          refine ⟨parts, partsStep_self howner ⟨hcode, ?_⟩, h⟩
          rw [haccess]
          exact ⟨hreply, rfl⟩
        | some access =>
          rw [haccess] at hstep
          obtain ⟨s, hserve, rfl⟩ := hstep
          obtain ⟨k, hline, hall⟩ := Uart.step_line (h.line_low (.ttyS n)) hserve
          dsimp only at hline hall
          obtain ⟨u, irq⟩ := s
          dsimp only at hline
          rw [hline]
          refine ⟨_, ?_, h.serial (n := n) (u := u) (k := k)⟩
          refine (partsStep_iff howner).mpr ⟨_, ⟨hcode, ?_⟩, rfl⟩
          rw [haccess]
          have hown := hall (parts.serial n).irq (h.own (.ttyS n))
          rw [h.serial_eq] at hown
          exact hown

theorem Shows.step_back (h : Shows lines m parts) (hstep : PartsStep parts l parts') :
    ∃ m', Step m l m' ∧ Shows lines m' parts' := by
  cases howner : l.event.owner with
  | none =>
    obtain ⟨hunclaimed, rfl⟩ := (partsStep_unclaimed howner).mp hstep
    exact ⟨m, hunclaimed m, h⟩
  | some c =>
    obtain ⟨x, hact, rfl⟩ := (partsStep_iff howner).mp hstep
    cases c with
    | backend =>
      have hm := hact m
      change Step (m.withBackend parts.backend) l (m.withBackend x) at hm
      rw [← h.backend_eq, withBackend_self] at hm
      exact ⟨_, hm, h.backend x⟩
    | port p =>
      cases p with
      | i8042 =>
        obtain ⟨hcode, hstep⟩ := hact
        cases haccess : l.event.keyboardAccess with
        | none =>
          rw [haccess] at hstep
          obtain ⟨hreply, rfl⟩ := hstep
          rw [Function.update_eq_self]
          refine ⟨m, (step_keyboard howner).mpr ⟨hcode, ?_⟩, h⟩
          rw [haccess]
          exact ⟨hreply, rfl⟩
        | some access =>
          rw [haccess] at hstep
          obtain ⟨n, hline, hall⟩ := I8042.step_line (h.own .i8042) hstep
          obtain ⟨c, irq⟩ := x
          cases hline
          have hm := hall (m.lines PortDevice.i8042.line) (h.line_low .i8042)
          refine ⟨_, (step_keyboard howner).mpr ⟨hcode, ?_⟩, h.keyboard (c := c) (k := n)⟩
          rw [haccess, h.keyboard_eq]
          exact ⟨_, hm, rfl⟩
      | ttyS n =>
        obtain ⟨hcode, hstep⟩ := hact
        cases haccess : l.event.serialAccess n with
        | none =>
          rw [haccess] at hstep
          obtain ⟨hreply, rfl⟩ := hstep
          rw [Function.update_eq_self]
          refine ⟨m, (step_serial howner).mpr ⟨hcode, ?_⟩, h⟩
          rw [haccess]
          exact ⟨hreply, rfl⟩
        | some access =>
          rw [haccess] at hstep
          obtain ⟨k, hline, hall⟩ := Uart.step_line (h.own (.ttyS n)) hstep
          obtain ⟨u, irq⟩ := x
          cases hline
          have hm := hall (m.lines (PortDevice.ttyS n).line) (h.line_low (.ttyS n))
          refine ⟨_, (step_serial howner).mpr ⟨hcode, ?_⟩, h.serial (n := n) (u := u) (k := k)⟩
          rw [haccess, h.serial_eq]
          exact ⟨_, hm, rfl⟩

theorem shows_parts (h : ∀ p : PortDevice, (m.lines p.line).state = false) :
    Shows m.lines m m.parts where
  whole := by
    have hsignals : ∀ i, m.parts.signals i = 0 := by
      intro i
      refine List.sum_eq_zero fun n hn => ?_
      obtain ⟨p, -, rfl⟩ := List.mem_map.mp hn
      cases p <;> rfl
    unfold assemble
    simp only [hsignals, Interrupt.raised_zero]
    rfl
  low := h
  own := fun p => by cases p <;> rfl

end Shows

/-- Between two events no port holds its line up. -/
def Quiet (m : Machine) : Prop := ∀ p : PortDevice, (m.lines p.line).state = false

section Schedules

variable {m m' : Machine} {ls ls' : List Served}

theorem path_parts (h : m.Quiet) : Path Step m ls m' ↔
    ∃ parts', Path PartsStep m.parts ls parts' ∧ m' = assemble m.lines parts' := by
  have hshows := shows_parts h
  constructor
  · intro hpath
    obtain ⟨parts', hpath', hshows'⟩ :=
      hpath.simulate (fun _ _ _ _ h hstep => h.step hstep) hshows
    exact ⟨parts', hpath', hshows'.whole⟩
  · rintro ⟨parts', hpath, rfl⟩
    have hback : ∀ (parts : Parts) (m₁ : Machine) l parts', Shows m.lines m₁ parts →
        PartsStep parts l parts' → ∃ m₂, Step m₁ l m₂ ∧ Shows m.lines m₂ parts' :=
      fun _ _ _ _ h hstep => h.step_back hstep
    obtain ⟨m'', hpath', hshows'⟩ :=
      hpath.simulate (R := fun parts m₁ => Shows m.lines m₁ parts) hback hshows
    rwa [← hshows'.whole]

abbrev ownEvents (c : Part) (ls : List Served) : List Served := own (fun l => l.event.owner) c ls

/-- Every run of the machine is a run of each port on a line of its own, and one of the
backend, side by side; the machine ends with what they end with, and each of its lines with
the signals of all its ports. And any such runs, interleaved in any way, are one of the
machine. -/
theorem path_iff_parts (h : m.Quiet) : Path Step m ls m' ↔
    ∃ parts', (∀ c, Path (act c) (m.parts c) (ownEvents c ls) (parts' c)) ∧
      (∀ l ∈ ls, l.event.owner = none → Unclaimed l) ∧ m' = assemble m.lines parts' := by
  rw [path_parts h]
  constructor
  · rintro ⟨parts', hpath, hwhole⟩
    obtain ⟨hparts, hunclaimed⟩ := path_iff.mp hpath
    exact ⟨parts', hparts, hunclaimed, hwhole⟩
  · rintro ⟨parts', hparts, hunclaimed, hwhole⟩
    exact ⟨parts', path_iff.mpr ⟨hparts, hunclaimed⟩, hwhole⟩

/-- Whatever processors the events come from: only the order at each part counts. -/
theorem schedule_irrelevant (h : m.Quiet) (hpath : Path Step m ls m')
    (hown : ∀ c, ownEvents c ls' = ownEvents c ls)
    (hunclaimed : ∀ l ∈ ls', l.event.owner = none → l ∈ ls) : Path Step m ls' m' := by
  obtain ⟨parts', hparts, hwhole⟩ := (path_parts h).mp hpath
  exact (path_parts h).mpr ⟨parts', path_of_same_order hparts hown hunclaimed, hwhole⟩

end Schedules

/-! A key is typed while the guest polls the keyboard controller. -/

theorem quiet_console : console.Quiet := fun _ => rfl

def typed : Served := ⟨.terminal [0x61] 0, none, []⟩

def polled : Served :=
  ⟨.exit calmWorld ⟨kvmExitIo, ⟨kvmExitIoIn, 1, 0x64, 1⟩, [0], ⟨0, 0, 0, 0⟩⟩, none, [0x10]⟩

theorem room_for_key : 0 < Uart.fifoLen := by decide

def typedPort : Uart :=
  { console.serial PortDevice.ttyS0 with
    rxBuf := (Vector.replicate Uart.fifoLen 0).set 0 0x61 room_for_key
    rxCnt := 1
    lsr := 0x61 }

theorem typed_step : Step console typed
    (console.withSerial 0 ⟨typedPort, console.lines (PortDevice.ttyS 0).line⟩) := by
  refine (step_serial rfl).mpr ⟨rfl, _, ?_, rfl⟩
  exact rfl

theorem polled_step {m : Machine} (h : m.keyboard = console.keyboard) : Step m polled m := by
  refine (step_keyboard rfl).mpr ⟨rfl, ⟨m.keyboard, m.lines PortDevice.i8042.line⟩, ?_, ?_⟩
  · rw [h]
    exact rfl
  · exact m.withKeyboard_self.symm

theorem typed_then_polled : Path Step console [typed, polled]
    (console.withSerial 0 ⟨typedPort, console.lines (PortDevice.ttyS 0).line⟩) :=
  Path.cons typed_step (Path.cons (polled_step rfl) (Path.nil _))

theorem typed_by_parts : ∃ parts',
    (∀ c, Path (act c) (console.parts c) (ownEvents c [typed, polled]) (parts' c)) ∧
      (∀ l ∈ [typed, polled], l.event.owner = none → Unclaimed l) ∧
      console.withSerial 0 ⟨typedPort, console.lines (PortDevice.ttyS 0).line⟩ =
        assemble console.lines parts' :=
  (path_iff_parts quiet_console).mp typed_then_polled

theorem polled_then_typed : Path Step console [polled, typed]
    (console.withSerial 0 ⟨typedPort, console.lines (PortDevice.ttyS 0).line⟩) := by
  refine schedule_irrelevant quiet_console typed_then_polled (fun c => ?_) (fun l hmem _ => ?_)
  · cases c with
    | backend => rfl
    | port p =>
      cases p with
      | i8042 => rfl
      | ttyS n => fin_cases n <;> rfl
  · rw [List.mem_cons, List.mem_singleton] at hmem
    rcases hmem with rfl | rfl
    · exact List.mem_cons_of_mem _ List.mem_cons_self
    · exact List.mem_cons_self

end Kthxvm.Machine
