import Kthxvm.Lib.Threads
import Kthxvm.MachineRun

/-! `vmm::start` from where it makes its threads, and the end of the `vmm` up to the `munmap`
of guest memory. -/
namespace Kthxvm.Vmm

open IoDevice Lib.Product Lib.Threads Lib.Transition Machine

inductive Thread (n : Nat) where
  /-- `vm::run_cpu` -/
  | cpu (i : Fin (n + 1))
  /-- `read_terminal` -/
  | terminal
  /-- `blk::run` -/
  | blk
  /-- `net::run_tx` -/
  | netTx
  /-- `net::run_rx` -/
  | netRx
deriving DecidableEq

inductive Flag where
  /-- `vm::should_run` -/
  | shouldRun
  /-- `run_terminal` -/
  | runTerminal
  /-- `blk::should_run` -/
  | blkShouldRun
  /-- `net::should_run` -/
  | netShouldRun
deriving DecidableEq

def Thread.flag {n : Nat} : Thread n → Flag
  | .cpu _ => .shouldRun
  | .terminal => .runTerminal
  | .blk => .blkShouldRun
  | .netTx | .netRx => .netShouldRun

/-- A piece of the body of a loop; `none` stands for a poll of the terminal that finds nothing
to read. A processor may store to memory before it exits. -/
def work {n : Nat} : Thread n → Machine → Option Served → Machine → Phase → Prop
  | .cpu _, m, some l, m', next => Machine.Step m l m' ∧
      match l.event with
      | .exit _ _ => next = if l.code.isSome then .ended else .head
      | .meanwhile _ => next = .body
      | .terminal _ _ => False
  | .terminal, m, some l, m', next => Machine.Step m l m' ∧
      match l.event with
      | .terminal _ _ => next = .head
      | _ => False
  | .terminal, m, none, m', next => m' = m ∧ next = .ended
  | .blk, m, some l, m', next | .netTx, m, some l, m', next | .netRx, m, some l, m', next =>
    Machine.Step m l m' ∧
      match l.event with
      | .meanwhile _ => next = .head ∨ next = .body
      | _ => False
  | _, _, none, _, _ => False

def start (n : Nat) : List (Stmt (Thread n) Flag) :=
  .join (.cpu 0) :: .clear .shouldRun ::
    ((List.finRange n).map (fun i => .join (.cpu i.succ)) ++ [.clear .runTerminal, .join .terminal])

/-- `~vm` up to the `munmap`, with the destructors of the devices in it. -/
def destroy (n : Nat) : List (Stmt (Thread n) Flag) :=
  [.clear .shouldRun, .clear .blkShouldRun, .join .blk, .clear .netShouldRun, .join .netTx,
    .join .netRx]

abbrev State (n : Nat) := Lib.Threads.State (Thread n) Flag Machine
abbrev Event (n : Nat) := Lib.Threads.Event (Thread n) (Option Served)
abbrev Step (n : Nat) : State n → Event n → State n → Prop := Lib.Threads.Step Thread.flag work

def served {n : Nat} (moves : List (Move (State n) (Event n))) : List Served :=
  moves.filterMap fun move => move.label.work?.bind Prod.snd

section Run

variable {n : Nat} {m : Machine} {s : State n} {moves : List (Move (State n) (Event n))}

theorem join_cpu_mem (i : Fin (n + 1)) : .join (.cpu i) ∈ start n := by
  cases i using Fin.cases with
  | zero => exact List.mem_cons_self
  | succ i =>
    refine List.mem_cons_of_mem _ (List.mem_cons_of_mem _ (List.mem_append_left _ ?_))
    exact List.mem_map.mpr ⟨i, List.mem_finRange i, rfl⟩

theorem join_terminal_mem : .join .terminal ∈ start n :=
  List.mem_cons_of_mem _ (List.mem_cons_of_mem _ (List.mem_append_right _ (by simp)))

theorem join_mem (t : Thread n) : .join t ∈ start n ++ destroy n := by
  cases t with
  | cpu i => exact List.mem_append_left _ (join_cpu_mem i)
  | terminal => exact List.mem_append_left _ join_terminal_mem
  | blk | netTx | netRx => exact List.mem_append_right _ (by simp [destroy])

/-- Every join but that of the first processor comes after the flag of the thread is down. -/
theorem guarded (n : Nat) :
    Guarded Thread.flag (· = .cpu 0) [] (start n ++ destroy n) := by
  have hcpus : ∀ t ∈ (List.finRange n).map fun i => (Thread.cpu i.succ : Thread n),
      t.flag ∈ [Flag.shouldRun] := by
    intro t ht
    obtain ⟨i, -, rfl⟩ := List.mem_map.mp ht
    exact List.mem_cons_self
  have hrest : Guarded Thread.flag (· = Thread.cpu 0) [Flag.shouldRun]
      ([.clear .runTerminal, .join .terminal] ++ destroy n) := by
    simp [Guarded, destroy, Thread.flag]
  have hjoins := guarded_joins hcpus hrest
  rw [List.map_map] at hjoins
  unfold start
  rw [List.cons_append, List.cons_append, List.append_assoc]
  exact ⟨Or.inl rfl, hjoins⟩

theorem work_step {t : Thread n} {l : Option Served} {m' : Machine} {next : Phase}
    (h : work t m l m' next) : Path Machine.Step m l.toList m' := by
  cases l with
  | none =>
    cases t with
    | terminal =>
      obtain ⟨rfl, -⟩ := h
      exact Path.nil _
    | cpu | blk | netTx | netRx => exact h.elim
  | some l =>
    have hstep : Machine.Step m l m' := by
      cases t with
      | cpu | terminal | blk | netTx | netRx => exact h.1
    exact Path.cons hstep (Path.nil _)

theorem path_served {s₀ : State n} (run : Run (Step n) s₀ moves s) :
    Path Machine.Step s₀.data (served moves) s.data := by
  have hall : ∀ {m m' : Machine} {ls : List (Thread n × Option Served)},
      Path (fun m x m' => ∃ next, work x.1 m x.2 m' next) m ls m' →
        Path Machine.Step m (ls.filterMap Prod.snd) m' := by
    intro m m' ls hpath
    induction hpath with
    | nil => exact Path.nil _
    | @cons _ _ _ l _ hfirst _ ih =>
      obtain ⟨t, l⟩ := l
      obtain ⟨next, hwork⟩ := hfirst
      have hsplit : ∀ ls : List (Thread n × Option Served),
          ((t, l) :: ls).filterMap Prod.snd = l.toList ++ ls.filterMap Prod.snd := by
        cases l <;> exact fun _ => rfl
      rw [hsplit]
      exact (work_step hwork).append ih
  have hpath := hall (path_work run)
  rwa [List.filterMap_filterMap] at hpath

def Returned (s : State n) : Prop := s.left.length ≤ (destroy n).length

structure Orderly (s : State n) : Prop where
  /-- The machine goes on as long as the first processor does. -/
  boot : s.cleared .shouldRun = true → s.phase (.cpu 0) = .ended
  /-- `start` leaves no processor and no reader behind. -/
  returned : Returned s → (∀ i, s.phase (.cpu i) = .ended) ∧ s.phase .terminal = .ended
  /-- Guest memory goes when nobody is left. -/
  unmapped : s.left = [] → ∀ e s', ¬ Step n s e s'
  /-- Nobody waits for a thread that was not told to stop, but for the first processor. -/
  waits : ∀ {t rest}, s.left = .join t :: rest → t = .cpu 0 ∨ s.cleared t.flag = true
  /-- There is nothing to wait for but an exit of a processor, a key or a device thread. -/
  moves : s.left ≠ [] → (∃ e s', Step n s e s' ∧ ∀ t l, e ≠ .work t l) ∨
    ∃ t rest, s.left = .join t :: rest ∧ s.phase t = .body

theorem Orderly.of_inv {done : List (Stmt (Thread n) Flag)}
    (h : Inv (start n ++ destroy n) done s) : Orderly s := by
  constructor
  case boot =>
    intro hcleared
    have hdone := (h.cleared _).mp hcleared
    have hsplit := h.split
    apply h.joined
    cases done with
    | nil => exact absurd hdone List.not_mem_nil
    | cons stmt done =>
      have hfirst : stmt = .join (.cpu 0) := (List.cons.inj hsplit).1.symm
      rw [hfirst]
      exact List.mem_cons_self
  case returned =>
    intro hreturned
    unfold Returned at hreturned
    have hlength := congrArg List.length h.split
    rw [List.length_append, List.length_append] at hlength
    have hdone : start n <+: done := by
      apply List.prefix_of_prefix_length_le (List.prefix_append _ (destroy n))
      · rw [h.split]
        exact List.prefix_append _ _
      · omega
    exact ⟨fun i => h.joined _ (hdone.subset (join_cpu_mem i)),
      h.joined _ (hdone.subset join_terminal_mem)⟩
  case unmapped => exact fun hleft e s' => h.quiet join_mem hleft
  case waits => exact h.waits (guarded n)
  case moves => exact progress

/-- However the threads interleave, the exits and keys are a run of the machine in the order in
which they are served; the machine is stopped when the first processor has ended and `start`
returns when all have, with the reader; guest memory is unmapped when nothing can move any
more; whoever is waited for, except the first processor, was told to stop before, and from
then on ends at most one body of its loop and ends when it tests its flag. -/
theorem ends_in_order (run : Run (Step n) (launch (start n ++ destroy n) m) moves s) :
    Path Machine.Step m (served moves) s.data ∧ Orderly s ∧
    ∀ {mid : State n} {after : List (Move (State n) (Event n))} (t : Thread n),
      Run (Step n) mid after s → mid.cleared t.flag = true →
        (after.filter (Finishes t)).length ≤ 1 ∧
        ((∃ move ∈ after, move.label = .test t) → s.phase t = .ended) := by
  obtain ⟨done, hinv⟩ := inv_run run
  refine ⟨path_served run, Orderly.of_inv hinv, ?_⟩
  intro mid after t hafter hcleared
  exact ⟨finishes_le hafter hcleared, ended_of_test hafter hcleared⟩

end Run

/-! Two processors: the first halts, and the second finds that it has to stop. -/

def halted : Served :=
  ⟨.exit calmWorld ⟨kvmExitHlt, ⟨kvmExitIoOut, 1, 0, 0⟩, [], ⟨0, 0, 0, 0⟩⟩, some 0, []⟩

theorem halted_work {n : Nat} (i : Fin (n + 1)) (m : Machine) :
    work (.cpu i) m (some halted) m .ended :=
  ⟨rfl, rfl⟩

theorem first_halts : ∃ moves, ∃ s : State 1,
    Run (Step 1) (launch (start 1 ++ destroy 1) console) moves s ∧ served moves = [halted] ∧
    s.left = [] ∧ Path Machine.Step console [halted] s.data ∧ Orderly s := by
  have entered : Step 1 (launch (start 1 ++ destroy 1) console) (.test (.cpu 0)) _ :=
    Lib.Threads.Step.enter rfl rfl
  have run := Run.one entered
  have run := run.snoc (Lib.Threads.Step.work rfl (halted_work 0 console))
  have run := run.snoc (Lib.Threads.Step.join rfl rfl)
  have run := run.snoc (Lib.Threads.Step.clear rfl)
  have run := run.snoc (Lib.Threads.Step.leave (t := .cpu 1) rfl rfl)
  have run := run.snoc (Lib.Threads.Step.join rfl rfl)
  -- the reader finds its flag down, and then the devices one after the other
  have run := run.snoc (Lib.Threads.Step.clear rfl)
  have run := run.snoc (Lib.Threads.Step.leave (t := .terminal) rfl rfl)
  have run := run.snoc (Lib.Threads.Step.join rfl rfl)
  have run := run.snoc (Lib.Threads.Step.clear rfl)
  have run := run.snoc (Lib.Threads.Step.clear rfl)
  have run := run.snoc (Lib.Threads.Step.leave (t := .blk) rfl rfl)
  have run := run.snoc (Lib.Threads.Step.join rfl rfl)
  have run := run.snoc (Lib.Threads.Step.clear rfl)
  have run := run.snoc (Lib.Threads.Step.leave (t := .netTx) rfl rfl)
  have run := run.snoc (Lib.Threads.Step.join rfl rfl)
  have run := run.snoc (Lib.Threads.Step.leave (t := .netRx) rfl rfl)
  have run := run.snoc (Lib.Threads.Step.join rfl rfl)
  obtain ⟨hpath, horderly, -⟩ := ends_in_order run
  exact ⟨_, _, run, rfl, rfl, hpath, horderly⟩

end Kthxvm.Vmm
