import Kthxvm.Lib.Transition

/-! Runs that cannot put something off for ever. `Behind n` says that at most `n` turns are
missing; a move may take some turns, and lose some that were taken. -/
namespace Kthxvm.Lib.Transition

variable {State Label : Type*} {step : State → Label → State → Prop} {start s : State}
  {moves : List (Move State Label)}

def total (worth : Label → Nat) (moves : List (Move State Label)) : Nat :=
  (moves.map fun move => worth move.label).sum

@[simp] theorem total_nil (worth : Label → Nat) :
    total worth ([] : List (Move State Label)) = 0 := rfl

theorem total_append (worth : Label → Nat) (moves moves' : List (Move State Label)) :
    total worth (moves ++ moves') = total worth moves + total worth moves' := by
  unfold total
  rw [List.map_append, List.sum_append]

theorem total_snoc (worth : Label → Nat) (moves : List (Move State Label))
    (move : Move State Label) :
    total worth (moves ++ [move]) = total worth moves + worth move.label := by
  rw [total_append]
  unfold total
  rw [List.map_singleton, List.sum_singleton]

theorem total_eq_zero {worth : Label → Nat} (h : ∀ move ∈ moves, worth move.label = 0) :
    total worth moves = 0 := by
  unfold total
  rw [List.map_congr_left h, List.map_const', List.sum_replicate, smul_zero]

@[simp] theorem total_zero (moves : List (Move State Label)) : total (fun _ => 0) moves = 0 :=
  total_eq_zero fun _ _ => rfl

section Reaches

variable (Goal : State → Prop) (Behind : State → Nat → Prop) (turn lost : Label → Nat)

/-- The turns that are taken, less those that are lost, count against what is missing. -/
theorem Run.behind (run : Run step start moves s) {n : Nat} (hstart : Goal start ∨ Behind start n)
    (hgoal : ∀ move ∈ moves, Goal move.source → Goal move.target)
    (hstep : ∀ move ∈ moves, ∀ k, Behind move.source k → Goal move.target ∨
      ∃ k', Behind move.target k' ∧ k' + turn move.label ≤ k + lost move.label) :
    Goal s ∨ ∃ k, Behind s k ∧ k + total turn moves ≤ n + total lost moves := by
  induction run with
  | nil => exact hstart.imp_right fun hbehind => ⟨n, hbehind, le_refl _⟩
  | @snoc moves s s' l hrun hmove ih =>
    have hlast : (⟨s, l, s'⟩ : Move State Label) ∈ moves ++ [⟨s, l, s'⟩] :=
      List.mem_append_right _ (List.mem_singleton_self _)
    have hpast := ih (fun move hmem => hgoal move (List.mem_append_left _ hmem))
      fun move hmem => hstep move (List.mem_append_left _ hmem)
    rcases hpast with hdone | ⟨k, hbehind, hle⟩
    · exact Or.inl (hgoal _ hlast hdone)
    · refine (hstep _ hlast k hbehind).imp_right ?_
      rintro ⟨k', hbehind', hle'⟩
      refine ⟨k', hbehind', ?_⟩
      rw [total_snoc, total_snoc]
      dsimp only at hle' ⊢
      omega

theorem Run.reaches (run : Run step start moves s) {n : Nat}
    (hstart : Goal start ∨ Behind start n)
    (hgoal : ∀ move ∈ moves, Goal move.source → Goal move.target)
    (hstep : ∀ move ∈ moves, ∀ k, Behind move.source k → Goal move.target ∨
      ∃ k', Behind move.target k' ∧ k' + turn move.label ≤ k + lost move.label)
    (hpos : ∀ s k, Behind s k → 0 < k) (hturns : n + total lost moves ≤ total turn moves) :
    Goal s := by
  rcases run.behind Goal Behind turn lost hstart hgoal hstep with hdone | ⟨k, hbehind, hle⟩
  · exact hdone
  · have hmissing := hpos s k hbehind
    omega

end Reaches

end Kthxvm.Lib.Transition
