import Kthxvm.Lib.Transition

/-! Systems that are put together from parts. A label belongs to one part at most, and
moves that part alone; what the whole does is what its parts do, each with its own labels. -/
namespace Kthxvm.Lib.Product

open Lib.Transition

inductive Path {State Label : Type*} (step : State → Label → State → Prop) :
    State → List Label → State → Prop where
  | nil (s : State) : Path step s [] s
  | cons {s t u : State} {l : Label} {ls : List Label} (h : step s l t)
      (rest : Path step t ls u) : Path step s (l :: ls) u

section Path

variable {State Other Label : Type*} {step : State → Label → State → Prop}
  {step' : Other → Label → Other → Prop} {s t u : State} {l : Label} {ls ls' : List Label}

theorem path_nil : Path step s [] t ↔ t = s := by
  constructor
  · rintro ⟨⟩
    rfl
  · rintro rfl
    exact Path.nil _

theorem path_cons : Path step s (l :: ls) u ↔ ∃ t, step s l t ∧ Path step t ls u := by
  constructor
  · rintro (_ | ⟨h, rest⟩)
    exact ⟨_, h, rest⟩
  · rintro ⟨t, h, rest⟩
    exact Path.cons h rest

theorem Path.append (h : Path step s ls t) (h' : Path step t ls' u) :
    Path step s (ls ++ ls') u := by
  induction h with
  | nil s => exact h'
  | cons hstep _ ih => exact Path.cons hstep (ih h')

theorem Path.simulate {R : State → Other → Prop}
    (hstep : ∀ s s' l t, R s s' → step s l t → ∃ t', step' s' l t' ∧ R t t')
    (h : Path step s ls t) {s' : Other} (hs : R s s') : ∃ t', Path step' s' ls t' ∧ R t t' := by
  induction h generalizing s' with
  | nil s => exact ⟨s', Path.nil s', hs⟩
  | cons hfirst _ ih =>
    obtain ⟨t', hfirst', ht⟩ := hstep _ _ _ _ hs hfirst
    obtain ⟨u', hrest', hu⟩ := ih ht
    exact ⟨u', Path.cons hfirst' hrest', hu⟩

end Path

variable {ι Label : Type*} [DecidableEq ι] {Part : ι → Type*}
  (act : (i : ι) → Part i → Label → Part i → Prop) (owner : Label → Option ι)
  (idle : Label → Prop)

/-- A label without an owner moves nothing, and may be refused. -/
def Step (s : (i : ι) → Part i) (l : Label) (t : (i : ι) → Part i) : Prop :=
  match owner l with
  | some i => ∃ x, act i (s i) l x ∧ t = Function.update s i x
  | none => idle l ∧ t = s

def own (i : ι) (ls : List Label) : List Label := ls.filter (owner · = some i)

variable {act owner idle} {s t : (i : ι) → Part i} {l : Label} {ls ls' : List Label}

theorem step_owned {i : ι} (hl : owner l = some i) :
    Step act owner idle s l t ↔ ∃ x, act i (s i) l x ∧ t = Function.update s i x := by
  unfold Step
  rw [hl]

theorem step_unowned (hl : owner l = none) : Step act owner idle s l t ↔ idle l ∧ t = s := by
  unfold Step
  rw [hl]

theorem own_cons_self {i : ι} (hl : owner l = some i) (ls : List Label) :
    own owner i (l :: ls) = l :: own owner i ls :=
  List.filter_cons_of_pos (decide_eq_true hl)

theorem own_cons_other {i : ι} (hl : owner l ≠ some i) (ls : List Label) :
    own owner i (l :: ls) = own owner i ls :=
  List.filter_cons_of_neg fun h => hl (of_decide_eq_true h)

/-- The whole goes from `s` to `t` exactly when every part does, on its own. -/
theorem path_iff : Path (Step act owner idle) s ls t ↔
    (∀ i, Path (act i) (s i) (own owner i ls) (t i)) ∧ ∀ l ∈ ls, owner l = none → idle l := by
  induction ls generalizing s with
  | nil =>
    rw [path_nil]
    constructor
    · rintro rfl
      exact ⟨fun i => Path.nil _, fun l hmem => absurd hmem List.not_mem_nil⟩
    · rintro ⟨hparts, -⟩
      exact funext fun i => path_nil.mp (hparts i)
  | cons l ls ih =>
    rw [path_cons]
    cases howner : owner l with
    | none =>
      have hown : ∀ i, own owner i (l :: ls) = own owner i ls := fun i =>
        own_cons_other (by rw [howner]; exact Option.some_ne_none i ∘ Eq.symm) ls
      simp only [step_unowned howner, ih, hown, List.forall_mem_cons]
      constructor
      · rintro ⟨_, ⟨hidle, rfl⟩, hparts, hrest⟩
        exact ⟨hparts, fun _ => hidle, hrest⟩
      · rintro ⟨hparts, hidle, hrest⟩
        exact ⟨s, ⟨hidle howner, rfl⟩, hparts, hrest⟩
    | some i =>
      have hother : ∀ j, j ≠ i → own owner j (l :: ls) = own owner j ls := fun j hj =>
        own_cons_other (by rw [howner]; exact fun h => hj (Option.some.inj h).symm) ls
      simp only [step_owned howner, ih, List.forall_mem_cons]
      constructor
      · rintro ⟨_, ⟨x, hx, rfl⟩, hparts, hrest⟩
        refine ⟨fun j => ?_, fun h => ?_, hrest⟩
        · have hpart := hparts j
          by_cases hj : j = i
          · subst hj
            rw [Function.update_self] at hpart
            rw [own_cons_self howner]
            exact Path.cons hx hpart
          · rw [Function.update_of_ne hj] at hpart
            rwa [hother j hj]
        · rw [howner] at h
          contradiction
      · rintro ⟨hparts, -, hrest⟩
        have hpart := hparts i
        rw [own_cons_self howner, path_cons] at hpart
        obtain ⟨x, hx, hpart⟩ := hpart
        refine ⟨Function.update s i x, ⟨x, hx, rfl⟩, fun j => ?_, hrest⟩
        by_cases hj : j = i
        · subst hj
          rwa [Function.update_self]
        · rw [Function.update_of_ne hj, ← hother j hj]
          exact hparts j

theorem path_of_same_order (h : Path (Step act owner idle) s ls t)
    (hown : ∀ i, own owner i ls' = own owner i ls)
    (hidle : ∀ l ∈ ls', owner l = none → l ∈ ls) : Path (Step act owner idle) s ls' t := by
  obtain ⟨hparts, hrest⟩ := path_iff.mp h
  refine path_iff.mpr ⟨fun i => ?_, fun l hmem hl => hrest l (hidle l hmem hl) hl⟩
  rw [hown]
  exact hparts i

end Kthxvm.Lib.Product
