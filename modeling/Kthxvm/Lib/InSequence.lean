import Mathlib

/-! Fallible steps one after another. Each of them takes an input, leaves a state and
returns data, and the data of all of them are put together. -/
namespace Kthxvm.Lib.InSequence

variable {ε α β σ δ : Type}

def inSequence (f : β → σ → Except ε (List α × σ)) : List β → σ → Except ε (List α × σ)
  | [], s => .ok ([], s)
  | b :: bs, s => do
    let (r, s) ← f b s
    let (rs, s) ← inSequence f bs s
    return (r ++ rs, s)

variable {f : β → σ → Except ε (List α × σ)} {b : β} {bs : List β} {s s' : σ} {r rs : List α}

theorem inSequence_cons (h : f b s = .ok (r, s')) :
    inSequence f (b :: bs) s = (inSequence f bs s').map fun p => (r ++ p.1, p.2) := by
  rw [inSequence, h]
  cases hrest : inSequence f bs s' with
  | error e => simp only [bind, Except.bind, Except.map, hrest]
  | ok p => simp only [bind, Except.bind, pure, Except.pure, Except.map, hrest]

theorem inSequence_cons_error {e : ε} (h : f b s = .error e) :
    inSequence f (b :: bs) s = .error e := by
  rw [inSequence, h]
  rfl

theorem inSequence_cons_eq_ok (h : inSequence f (b :: bs) s = .ok (rs, s')) :
    ∃ r s₁ rs', f b s = .ok (r, s₁) ∧ inSequence f bs s₁ = .ok (rs', s') ∧ rs = r ++ rs' := by
  cases hfirst : f b s with
  | error e =>
    rw [inSequence_cons_error hfirst] at h
    contradiction
  | ok p =>
    obtain ⟨r, s₁⟩ := p
    rw [inSequence_cons hfirst] at h
    cases hrest : inSequence f bs s₁ with
    | error e =>
      rw [hrest] at h
      contradiction
    | ok p =>
      rw [hrest] at h
      cases h
      exact ⟨r, s₁, p.1, rfl, hrest, rfl⟩

theorem inSequence_idle (h : ∀ b ∈ bs, f b s = .ok (r, s)) :
    inSequence f bs s = .ok ((List.replicate bs.length r).flatten, s) := by
  induction bs with
  | nil => rfl
  | cons b bs ih =>
    rw [inSequence_cons (h b List.mem_cons_self),
      ih fun b' hb' => h b' (List.mem_cons_of_mem _ hb')]
    rfl

theorem inSequence_const_iff {x y : α} (h : ∀ b ∈ bs, f b s = .ok ([x], s)) :
    inSequence f bs s = .ok (List.replicate bs.length y, s) ↔ bs = [] ∨ x = y := by
  rw [inSequence_idle h, List.flatten_replicate_singleton, ← List.length_eq_zero_iff]
  constructor
  · intro heq
    exact (List.replicate_right_inj' ).mp (Prod.mk.inj (Except.ok.inj heq)).1
  · rintro (hnil | rfl)
    · rw [hnil]
      rfl
    · rfl

theorem inSequence_rel {I : σ → Prop} {R : σ → σ → Prop} (hrefl : ∀ s, R s s)
    (htrans : ∀ s₁ s₂ s₃, R s₁ s₂ → R s₂ s₃ → R s₁ s₃)
    (hstep : ∀ b ∈ bs, ∀ s r s', I s → f b s = .ok (r, s') → I s' ∧ R s s') (hs : I s)
    (h : inSequence f bs s = .ok (rs, s')) : I s' ∧ R s s' := by
  induction bs generalizing s rs with
  | nil =>
    cases h
    exact ⟨hs, hrefl _⟩
  | cons b bs ih =>
    obtain ⟨r, s₁, rs', hfirst, hrest, -⟩ := inSequence_cons_eq_ok h
    obtain ⟨hs₁, hr₁⟩ := hstep b List.mem_cons_self s r s₁ hs hfirst
    obtain ⟨hs', hr'⟩ := ih (fun b' hb' => hstep b' (List.mem_cons_of_mem _ hb')) hs₁ hrest
    exact ⟨hs', htrans _ _ _ hr₁ hr'⟩

theorem inSequence_settles {I : σ → Prop} {γ : Type} {v : σ → γ} {x : γ} (hbs : bs ≠ [])
    (hstep : ∀ b ∈ bs, ∀ s r s', I s → f b s = .ok (r, s') → I s' ∧ v s' = x) (hs : I s)
    (h : inSequence f bs s = .ok (rs, s')) : v s' = x := by
  obtain ⟨b, bs, rfl⟩ := List.exists_cons_of_ne_nil hbs
  obtain ⟨r, s₁, rs', hfirst, hrest, -⟩ := inSequence_cons_eq_ok h
  obtain ⟨hs₁, hx⟩ := hstep b List.mem_cons_self s r s₁ hs hfirst
  have hkept := inSequence_rel (I := I) (R := fun s s' => v s = x → v s' = x)
    (fun _ => id) (fun _ _ _ h h' => h' ∘ h) (fun b' hb' s r s' hs hf => by
      obtain ⟨hs', hx'⟩ := hstep b' (List.mem_cons_of_mem _ hb') s r s' hs hf
      exact ⟨hs', fun _ => hx'⟩) hs₁ hrest
  exact hkept.2 hx

theorem inSequence_map {k : β → δ → Except ε (List α × δ)} {g : δ → σ}
    (h : ∀ b d, f b (g d) = (k b d).map fun p => (p.1, g p.2)) (bs : List β) (d : δ) :
    inSequence f bs (g d) = (inSequence k bs d).map fun p => (p.1, g p.2) := by
  induction bs generalizing d with
  | nil => rfl
  | cons b bs ih =>
    cases hfirst : k b d with
    | error e =>
      have herror : f b (g d) = .error e := by rw [h, hfirst]; rfl
      rw [inSequence_cons_error hfirst, inSequence_cons_error herror]
      rfl
    | ok p =>
      have hok : f b (g d) = .ok (p.1, g p.2) := by rw [h, hfirst]; rfl
      rw [inSequence_cons hfirst, inSequence_cons hok, ih]
      cases inSequence k bs p.2 <;> rfl

theorem map_eq_inSequence_iff {k : β → δ → Except ε (List α × δ)} {g : δ → σ}
    (hg : Function.Injective g) (h : ∀ b d, f b (g d) = (k b d).map fun p => (p.1, g p.2))
    (bs : List β) (d : δ) (x : Except ε (List α × δ)) :
    x.map (fun p => (p.1, g p.2)) = inSequence f bs (g d) ↔ x = inSequence k bs d := by
  rw [inSequence_map h]
  refine ⟨fun heq => ?_, congrArg _⟩
  cases x with
  | error e =>
    cases hseq : inSequence k bs d with
    | error e' =>
      rw [hseq] at heq
      cases heq
      rfl
    | ok p =>
      rw [hseq] at heq
      contradiction
  | ok p =>
    cases hseq : inSequence k bs d with
    | error e =>
      rw [hseq] at heq
      contradiction
    | ok p' =>
      rw [hseq] at heq
      obtain ⟨hdata, hstate⟩ := Prod.mk.inj (Except.ok.inj heq)
      exact congrArg Except.ok (Prod.ext hdata (hg hstate))

/-- A step that answers for those after it is the whole sequence if and only if the others
would change nothing and return what it has added. -/
theorem first_eq_inSequence_iff (h : f b s = .ok (r, s')) (pad : List α) :
    Except.ok (r ++ pad, s') = inSequence f (b :: bs) s ↔ inSequence f bs s' = .ok (pad, s') := by
  rw [inSequence_cons h]
  cases inSequence f bs s' with
  | error e =>
    constructor
    · intro heq
      contradiction
    · intro heq
      contradiction
  | ok p =>
    constructor
    · intro heq
      obtain ⟨hr, hs⟩ := Prod.mk.inj (Except.ok.inj heq)
      have hpad := List.append_cancel_left hr
      rw [hpad]
      exact congrArg Except.ok (Prod.ext rfl hs.symm)
    · intro heq
      cases heq
      rfl

end Kthxvm.Lib.InSequence
