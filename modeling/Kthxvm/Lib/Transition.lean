import Mathlib

/-! Finite runs of a labelled transition relation. A run keeps every move with
the states around it, so that a property of single moves can be stated of a
whole run and proved from an invariant. -/
namespace Kthxvm.Lib.Transition

variable {State Label : Type*}

structure Move (State Label : Type*) where
  source : State
  label : Label
  target : State

/-- The moves stand in the order in which they were made. -/
inductive Run (step : State → Label → State → Prop) (start : State) :
    List (Move State Label) → State → Prop where
  | nil : Run step start [] start
  | snoc {moves : List (Move State Label)} {s s' : State} {l : Label} :
      Run step start moves s → step s l s' →
        Run step start (moves ++ [⟨s, l, s'⟩]) s'

variable {step : State → Label → State → Prop} {start s : State}
  {moves : List (Move State Label)}

theorem Run.one {l : Label} {s' : State} (h : step start l s') :
    Run step start [⟨start, l, s'⟩] s' :=
  Run.snoc Run.nil h

theorem Run.append {moves' : List (Move State Label)} {s' : State}
    (h : Run step start moves s) (h' : Run step s moves' s') :
    Run step start (moves ++ moves') s' := by
  induction h' with
  | nil => simpa using h
  | snoc _ hstep ih =>
    rw [← List.append_assoc]
    exact Run.snoc ih hstep

theorem Run.before {pre post : List (Move State Label)} {move : Move State Label}
    (run : Run step start moves s) (h : moves = pre ++ move :: post) :
    Run step start pre move.source := by
  induction run generalizing post with
  | nil =>
    have hlen := congrArg List.length h
    simp at hlen
  | snoc hrun hmove ih =>
    rcases List.eq_nil_or_concat post with rfl | ⟨post, last, rfl⟩
    · obtain ⟨hpre, hlast⟩ := List.append_inj' h rfl
      cases hlast
      rwa [← hpre]
    · rw [List.concat_eq_append, ← List.cons_append, ← List.append_assoc] at h
      exact ih (List.append_inj' h rfl).1

theorem Run.invariant {I : State → Prop} (run : Run step start moves s)
    (hstart : I start)
    (hstep : ∀ s l s', I s → step s l s' → I s') : I s := by
  induction run with
  | nil => exact hstart
  | snoc _ hmove ih => exact hstep _ _ _ ih hmove

theorem Run.step_of_mem (run : Run step start moves s) :
    ∀ move ∈ moves, step move.source move.label move.target := by
  induction run with
  | nil => simp
  | snoc _ hmove ih =>
    intro move hmem
    rcases List.mem_append.mp hmem with hold | hnew
    · exact ih move hold
    · rw [List.mem_singleton] at hnew
      subst hnew
      exact hmove

theorem Run.invariant_source {I : State → Prop} (run : Run step start moves s)
    (hstart : I start)
    (hstep : ∀ s l s', I s → step s l s' → I s') :
    ∀ move ∈ moves, I move.source := by
  induction run with
  | nil => simp
  | snoc hrun _ ih =>
    intro move hmem
    rcases List.mem_append.mp hmem with hold | hnew
    · exact ih move hold
    · rw [List.mem_singleton] at hnew
      subst hnew
      exact hrun.invariant hstart hstep

section Channel

variable {α : Type*}

/-- Where every move takes from the front of a store and adds to its back, what was
put in is what was taken out and what is still there, in this order. -/
theorem Run.conserved (contents : State → List α) (put got : Move State Label → List α)
    (run : Run step start moves s)
    (hstep : ∀ move ∈ moves,
      contents move.source ++ put move = got move ++ contents move.target) :
    contents start ++ moves.flatMap put = moves.flatMap got ++ contents s := by
  induction run with
  | nil => simp
  | snoc hrun _ ih =>
    have hlast := hstep _ (List.mem_append_right _ (List.mem_singleton_self _))
    have hpast := ih fun move hmem => hstep move (List.mem_append_left _ hmem)
    simp only [List.flatMap_append, List.flatMap_singleton]
    rw [← List.append_assoc, hpast, List.append_assoc, hlast, List.append_assoc]

end Channel

section Cell

variable {α : Type*}

theorem latest_snoc (written : Move State Label → Option α) (moves : List (Move State Label))
    (move : Move State Label) (x : α) :
    ((moves ++ [move]).filterMap written).getLast?.getD x =
      (written move).getD ((moves.filterMap written).getLast?.getD x) := by
  rw [List.filterMap_append]
  cases hw : written move with
  | none =>
    have hnone : [move].filterMap written = [] := List.filterMap_cons_none hw
    rw [hnone, List.append_nil]
    rfl
  | some y =>
    have hsome : [move].filterMap written = [y] := List.filterMap_cons_some hw
    rw [hsome, List.getLast?_concat]
    rfl

theorem Run.latest (value : State → α) (written : Move State Label → Option α)
    (run : Run step start moves s)
    (hstep : ∀ move ∈ moves, value move.target = (written move).getD (value move.source)) :
    value s = (moves.filterMap written).getLast?.getD (value start) := by
  induction run with
  | nil => rfl
  | @snoc moves s s' l hrun _ ih =>
    have hlast := hstep ⟨s, l, s'⟩ (List.mem_append_right _ (List.mem_singleton_self _))
    have hpast := ih fun move hmem => hstep move (List.mem_append_left _ hmem)
    rw [latest_snoc, ← hpast]
    exact hlast

end Cell

def guarded (step : State → Label → State → Prop) (guard : State → Label → Prop)
    (s : State) (l : Label) (s' : State) : Prop :=
  guard s l ∧ step s l s'

theorem Run.guarded {guard : State → Label → Prop} (run : Run step start moves s)
    (hguard : ∀ move ∈ moves, guard move.source move.label) :
    Run (guarded step guard) start moves s := by
  induction run with
  | nil => exact Run.nil
  | snoc _ hmove ih =>
    refine Run.snoc (ih fun move hmem => hguard move (List.mem_append_left _ hmem)) ⟨?_, hmove⟩
    exact hguard ⟨_, _, _⟩ (List.mem_append_right _ (List.mem_singleton_self _))

theorem Run.of_guarded {guard : State → Label → Prop}
    (run : Run (Transition.guarded step guard) start moves s) :
    Run step start moves s ∧ ∀ move ∈ moves, guard move.source move.label := by
  induction run with
  | nil => exact ⟨Run.nil, by simp⟩
  | snoc _ hmove ih =>
    refine ⟨Run.snoc ih.1 hmove.2, ?_⟩
    intro move hmem
    rcases List.mem_append.mp hmem with hold | hnew
    · exact ih.2 move hold
    · rw [List.mem_singleton] at hnew
      subst hnew
      exact hmove.1

end Kthxvm.Lib.Transition
