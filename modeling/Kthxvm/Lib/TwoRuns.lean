import Mathlib

/-! Two computations side by side. `Related R x y` says that both end in values
that stand in `R`, or both in one and the same error. -/
namespace Kthxvm.Lib.TwoRuns

universe u v w

section Rules

variable {ε : Type w} {α β : Type u} {α' β' : Type u}

def Related (R : α → β → Prop) (x : Except ε α) (y : Except ε β) : Prop :=
  match x, y with
  | .ok a, .ok b => R a b
  | .error e, .error e' => e = e'
  | _, _ => False

theorem Related.mono {R R' : α → β → Prop} {x : Except ε α} {y : Except ε β}
    (h : Related R x y) (hR : ∀ a b, R a b → R' a b) : Related R' x y := by
  cases x <;> cases y <;> first | exact hR _ _ h | exact h

theorem Related.of_eq {R : α → α → Prop} (hR : ∀ a, R a a) {x y : Except ε α} (h : x = y) :
    Related R x y := by
  subst h
  cases x with
  | ok a => exact hR a
  | error e => exact rfl

theorem Related.bind {R : α → β → Prop} {R' : α' → β' → Prop} {x : Except ε α}
    {y : Except ε β} {f : α → Except ε α'} {f' : β → Except ε β'} (h : Related R x y)
    (hf : ∀ a b, x = .ok a → y = .ok b → R a b → Related R' (f a) (f' b)) :
    Related R' (x >>= f) (y >>= f') := by
  cases x with
  | ok a =>
    cases y with
    | ok b => exact hf a b rfl rfl h
    | error e => exact h.elim
  | error e =>
    cases y with
    | ok b => exact h.elim
    | error e' => exact h

theorem Related.bind_same {R' : α' → β' → Prop} (x : Except ε α) {f : α → Except ε α'}
    {f' : α → Except ε β'} (hf : ∀ a, Related R' (f a) (f' a)) :
    Related R' (x >>= f) (x >>= f') := by
  cases x with
  | ok a => exact hf a
  | error e => exact rfl

end Rules

section Machines

variable {S S' E O : Type u} {ε : Type w}

/-- The outputs of a machine that is fed a list of events, up to its first error. -/
def observe (step : S → E → Except ε (O × S)) (s : S) : List E → List (Except ε O)
  | [] => []
  | e :: es =>
    match step s e with
    | .error f => [.error f]
    | .ok (o, s') => .ok o :: observe step s' es

theorem observe_singleton (step : S → E → Except ε (O × S)) (s : S) (e : E) :
    observe step s [e] = [(step s e).map Prod.fst] := by
  unfold observe
  cases step s e <;> rfl

theorem observe_eq_of_related {R : S → S' → Prop} {step : S → E → Except ε (O × S)}
    {step' : S' → E → Except ε (O × S')}
    (hstep : ∀ s s' e, R s s' → Related (fun a b => a.1 = b.1 ∧ R a.2 b.2) (step s e) (step' s' e))
    {s : S} {s' : S'} (h : R s s') (es : List E) : observe step s es = observe step' s' es := by
  induction es generalizing s s' with
  | nil => rfl
  | cons e es ih =>
    have hrelated := hstep s s' e h
    unfold observe
    cases hx : step s e with
    | error f =>
      cases hy : step' s' e with
      | error f' =>
        rw [hx, hy] at hrelated
        have hf : f = f' := hrelated
        rw [hf]
      | ok b =>
        rw [hx, hy] at hrelated
        exact hrelated.elim
    | ok a =>
      cases hy : step' s' e with
      | error f' =>
        rw [hx, hy] at hrelated
        exact hrelated.elim
      | ok b =>
        rw [hx, hy] at hrelated
        obtain ⟨hout, hnext⟩ := hrelated
        dsimp only
        rw [hout, ih hnext]

end Machines

end Kthxvm.Lib.TwoRuns
