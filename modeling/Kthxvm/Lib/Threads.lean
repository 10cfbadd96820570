import Kthxvm.Lib.Product

/-! Threads that loop as long as a flag is up, and the one that made them: it runs a list of
statements that take flags down and wait for threads to end. -/
namespace Kthxvm.Lib.Threads

open Lib.Transition Lib.Product

inductive Phase where
  /-- about to test the flag -/
  | head
  | body
  | ended
deriving DecidableEq

inductive Stmt (Thread Flag : Type) where
  | clear (flag : Flag)
  | join (thread : Thread)

structure State (Thread Flag Data : Type) where
  data : Data
  cleared : Flag → Bool
  phase : Thread → Phase
  /-- what the main thread has still to do -/
  left : List (Stmt Thread Flag)

inductive Event (Thread Label : Type) where
  | main
  | test (thread : Thread)
  | work (thread : Thread) (label : Label)

variable {Thread Flag Data Label : Type}

section Step

variable [DecidableEq Thread] [DecidableEq Flag]

/-- The body of a loop is done in one piece of work or in several. -/
inductive Step (flag : Thread → Flag) (work : Thread → Data → Label → Data → Phase → Prop) :
    State Thread Flag Data → Event Thread Label → State Thread Flag Data → Prop where
  | clear {s : State Thread Flag Data} {f : Flag} {rest : List (Stmt Thread Flag)}
      (h : s.left = .clear f :: rest) :
      Step flag work s .main { s with cleared := Function.update s.cleared f true, left := rest }
  | join {s : State Thread Flag Data} {t : Thread} {rest : List (Stmt Thread Flag)}
      (h : s.left = .join t :: rest) (hended : s.phase t = .ended) :
      Step flag work s .main { s with left := rest }
  | enter {s : State Thread Flag Data} {t : Thread} (h : s.phase t = .head)
      (hflag : s.cleared (flag t) = false) :
      Step flag work s (.test t) { s with phase := Function.update s.phase t .body }
  | leave {s : State Thread Flag Data} {t : Thread} (h : s.phase t = .head)
      (hflag : s.cleared (flag t) = true) :
      Step flag work s (.test t) { s with phase := Function.update s.phase t .ended }
  | work {s : State Thread Flag Data} {t : Thread} {l : Label} {data : Data} {next : Phase}
      (h : s.phase t = .body) (hwork : work t s.data l data next) :
      Step flag work s (.work t l)
        { s with data := data, phase := Function.update s.phase t next }

end Step

def launch (program : List (Stmt Thread Flag)) (data : Data) : State Thread Flag Data where
  data := data
  cleared := fun _ => false
  phase := fun _ => .head
  left := program

/-- What the main thread has done so far has had its effect. -/
structure Inv (program done : List (Stmt Thread Flag)) (s : State Thread Flag Data) : Prop where
  split : program = done ++ s.left
  cleared : ∀ f, s.cleared f = true ↔ .clear f ∈ done
  joined : ∀ t, .join t ∈ done → s.phase t = .ended

theorem inv_launch (program : List (Stmt Thread Flag)) (data : Data) :
    Inv program [] (launch program data) where
  split := rfl
  cleared := fun _ => iff_of_false Bool.false_ne_true List.not_mem_nil
  joined := fun _ h => absurd h List.not_mem_nil

/-- A program takes the flag of a thread down before it waits for it, unless the thread is
free to end on its own. -/
def Guarded (flag : Thread → Flag) (free : Thread → Prop) :
    List Flag → List (Stmt Thread Flag) → Prop
  | _, [] => True
  | down, .clear f :: rest => Guarded flag free (f :: down) rest
  | down, .join t :: rest => (free t ∨ flag t ∈ down) ∧ Guarded flag free down rest

section Guarded

variable {flag : Thread → Flag} {free : Thread → Prop} {down : List Flag}
  {rest : List (Stmt Thread Flag)}

theorem guarded_joins {ts : List Thread} (hts : ∀ t ∈ ts, flag t ∈ down)
    (h : Guarded flag free down rest) :
    Guarded flag free down (ts.map .join ++ rest) := by
  induction ts with
  | nil => exact h
  | cons t ts ih =>
    exact ⟨Or.inr (hts t List.mem_cons_self), ih fun t' ht' => hts t' (List.mem_cons_of_mem t ht')⟩

theorem Guarded.join {t : Thread} {before : List (Stmt Thread Flag)}
    (h : Guarded flag free down (before ++ .join t :: rest)) :
    free t ∨ flag t ∈ down ∨ .clear (flag t) ∈ before := by
  induction before generalizing down with
  | nil => exact h.1.imp_right Or.inl
  | cons stmt before ih =>
    cases stmt with
    | clear f =>
      rcases ih h with hfree | hdown | hbefore
      · exact Or.inl hfree
      · rcases List.mem_cons.mp hdown with rfl | hdown
        · exact Or.inr (Or.inr List.mem_cons_self)
        · exact Or.inr (Or.inl hdown)
      · exact Or.inr (Or.inr (List.mem_cons_of_mem _ hbefore))
    | join t' =>
      exact (ih h.2).imp_right fun h => h.imp_right (List.mem_cons_of_mem _)

/-- Whenever the main thread waits for a thread that is not free, its flag is down. -/
theorem Inv.waits {program done : List (Stmt Thread Flag)} {s : State Thread Flag Data}
    (h : Inv program done s) (hguard : Guarded flag free [] program) {t : Thread}
    (hleft : s.left = .join t :: rest) : free t ∨ s.cleared (flag t) = true := by
  rw [h.split, hleft] at hguard
  rcases hguard.join with hfree | hdown | hdone
  · exact Or.inl hfree
  · exact absurd hdown List.not_mem_nil
  · exact Or.inr ((h.cleared _).mpr hdone)

end Guarded

variable [DecidableEq Thread] [DecidableEq Flag]

variable {flag : Thread → Flag} {work : Thread → Data → Label → Data → Phase → Prop}
  {program done : List (Stmt Thread Flag)} {data : Data} {s s' : State Thread Flag Data}
  {e : Event Thread Label}

theorem Step.ended {t : Thread} (hs : Step flag work s e s') (h : s.phase t = .ended) :
    s'.phase t = .ended := by
  have hother : ∀ {t' : Thread} {next : Phase}, s.phase t' ≠ .ended →
      Function.update s.phase t' next t = .ended := by
    intro t' next hne
    have htt' : t ≠ t' := by
      rintro rfl
      exact hne h
    rw [Function.update_of_ne htt']
    exact h
  cases hs with
  | clear | join => exact h
  | enter hhead | leave hhead => exact hother (by rw [hhead]; exact nofun)
  | work hbody => exact hother (by rw [hbody]; exact nofun)

theorem Inv.step (h : Inv program done s) (hs : Step flag work s e s') :
    ∃ done', Inv program done' s' := by
  have hjoined : ∀ t, .join t ∈ done → s'.phase t = .ended := fun t ht =>
    hs.ended (h.joined t ht)
  cases hs with
  | @clear f rest hleft =>
    refine ⟨done ++ [.clear f], ?_, ?_, ?_⟩
    · rw [h.split, hleft, List.append_assoc]
      rfl
    · intro f'
      by_cases hf : f' = f
      · subst hf
        simp
      · have hsame : Function.update s.cleared f true f' = s.cleared f' :=
            Function.update_of_ne hf _ _
        dsimp only
        rw [hsame, h.cleared]
        simp [hf]
    · intro t ht
      exact hjoined t (by simpa using ht)
  | @join t rest hleft hended =>
    refine ⟨done ++ [.join t], ?_, ?_, ?_⟩
    · rw [h.split, hleft, List.append_assoc]
      rfl
    · intro f
      rw [h.cleared]
      simp
    · intro t' ht'
      rcases List.mem_append.mp ht' with hold | hnew
      · exact hjoined t' hold
      · cases List.mem_singleton.mp hnew
        exact hended
  | enter | leave | work => exact ⟨done, h.split, h.cleared, hjoined⟩

theorem inv_run {moves : List (Move (State Thread Flag Data) (Event Thread Label))}
    (run : Run (Step flag work) (launch program data) moves s) : ∃ done, Inv program done s :=
  run.invariant (I := fun s => ∃ done, Inv program done s) ⟨[], inv_launch program data⟩
    fun _ _ _ ⟨_, h⟩ hs => h.step hs

theorem Inv.quiet (h : Inv program done s) (hall : ∀ t, .join t ∈ program) (hleft : s.left = []) :
    ¬ Step flag work s e s' := by
  have hended : ∀ t, s.phase t = .ended := by
    intro t
    have hdone := hall t
    rw [h.split, hleft, List.append_nil] at hdone
    exact h.joined t hdone
  intro hs
  cases hs with
  | clear hstmt | join hstmt =>
    rw [hleft] at hstmt
    exact nomatch hstmt
  | @enter t hhead | @leave t hhead =>
    rw [hended t] at hhead
    exact nomatch hhead
  | @work t _ _ _ hbody =>
    rw [hended t] at hbody
    exact nomatch hbody

/-- Before the end the main thread waits for the body of some loop, or there is a move that is
no work. -/
theorem progress (hleft : s.left ≠ []) :
    (∃ e s', Step flag work s e s' ∧ ∀ t l, e ≠ .work t l) ∨
      ∃ t rest, s.left = .join t :: rest ∧ s.phase t = .body := by
  cases hstmt : s.left with
  | nil => exact absurd hstmt hleft
  | cons stmt rest =>
    cases stmt with
    | clear f => exact Or.inl ⟨_, _, Step.clear hstmt, fun _ _ => nofun⟩
    | join t =>
      cases hphase : s.phase t with
      | head =>
        left
        cases hflag : s.cleared (flag t) with
        | false => exact ⟨_, _, Step.enter hphase hflag, fun _ _ => nofun⟩
        | true => exact ⟨_, _, Step.leave hphase hflag, fun _ _ => nofun⟩
      | body => exact Or.inr ⟨t, rest, rfl, hphase⟩
      | ended => exact Or.inl ⟨_, _, Step.join hstmt hphase, fun _ _ => nofun⟩

section Body

variable {moves : List (Move (State Thread Flag Data) (Event Thread Label))} {t : Thread}

def Finishes (t : Thread) (move : Move (State Thread Flag Data) (Event Thread Label)) : Bool :=
  move.source.phase t = .body && !(move.target.phase t = .body)

def inBody (t : Thread) (s : State Thread Flag Data) : Nat := if s.phase t = .body then 1 else 0

theorem Step.cleared {f : Flag} (hs : Step flag work s e s') (h : s.cleared f = true) :
    s'.cleared f = true := by
  cases hs with
  | @clear f' _ _ =>
    by_cases hf : f = f'
    · subst hf
      exact Function.update_self f true s.cleared
    · exact (Function.update_of_ne hf true s.cleared).trans h
  | join | enter | leave | work => exact h

theorem Step.inBody_le (hs : Step flag work s e s') (h : s.cleared (flag t) = true) :
    (if Finishes t ⟨s, e, s'⟩ then 1 else 0) + inBody t s' ≤ inBody t s := by
  have hbegins : s'.phase t = .body → s.phase t = .body := by
    intro hbody
    cases hs with
    | clear | join => exact hbody
    | @enter t' hhead hflag =>
      by_cases htt' : t = t'
      · subst htt'
        rw [h] at hflag
        exact nomatch hflag
      · exact (Function.update_of_ne htt' Phase.body s.phase).symm.trans hbody
    | @leave t' hhead hflag =>
      by_cases htt' : t = t'
      · subst htt'
        exact nomatch (Function.update_self t Phase.ended s.phase).symm.trans hbody
      · exact (Function.update_of_ne htt' Phase.ended s.phase).symm.trans hbody
    | @work t' _ _ next hphase =>
      by_cases htt' : t = t'
      · subst htt'
        exact hphase
      · exact (Function.update_of_ne htt' next s.phase).symm.trans hbody
  unfold Finishes inBody
  by_cases hbody : s'.phase t = .body
  · simp [hbody, hbegins hbody]
  · by_cases hbefore : s.phase t = .body <;> simp [hbody, hbefore]

theorem cleared_run {f : Flag} (run : Run (Step flag work) s moves s')
    (h : s.cleared f = true) : s'.cleared f = true :=
  run.invariant (I := fun s => s.cleared f = true) h fun _ _ _ h hs => hs.cleared h

theorem ended_of_test (run : Run (Step flag work) s moves s') (h : s.cleared (flag t) = true)
    (htest : ∃ move ∈ moves, move.label = .test t) : s'.phase t = .ended := by
  induction run with
  | nil =>
    obtain ⟨move, hmove, -⟩ := htest
    exact absurd hmove List.not_mem_nil
  | @snoc moves s₁ s₂ e run hs ih =>
    obtain ⟨move, hmove, hlabel⟩ := htest
    rcases List.mem_append.mp hmove with hmove | hmove
    · exact hs.ended (ih ⟨move, hmove, hlabel⟩)
    · rw [List.mem_singleton.mp hmove] at hlabel
      dsimp only at hlabel
      subst hlabel
      cases hs with
      | enter hhead hflag =>
        rw [cleared_run run h] at hflag
        exact nomatch hflag
      | leave => exact Function.update_self t Phase.ended s₁.phase

/-- From the moment the flag is down a thread ends at most one more body. -/
theorem finishes_le (run : Run (Step flag work) s moves s') (h : s.cleared (flag t) = true) :
    (moves.filter (Finishes t)).length ≤ 1 := by
  have hcount : (moves.filter (Finishes t)).length + inBody t s' ≤ inBody t s := by
    induction run with
    | nil => simp
    | @snoc moves s₁ s₂ e run hs hle =>
      have hlast := hs.inBody_le (cleared_run run h)
      rw [List.filter_append, List.length_append]
      by_cases hfin : Finishes t ⟨s₁, e, s₂⟩
      · rw [List.filter_cons_of_pos hfin, List.filter_nil, List.length_singleton]
        rw [if_pos hfin] at hlast
        omega
      · rw [List.filter_cons_of_neg hfin, List.filter_nil, List.length_nil]
        rw [if_neg hfin] at hlast
        omega
  have hone : inBody t s ≤ 1 := by
    unfold inBody
    split
    · exact le_rfl
    · exact Nat.zero_le 1
  omega

end Body

def Event.work? : Event Thread Label → Option (Thread × Label)
  | .work t l => some (t, l)
  | _ => none

theorem path_work {moves : List (Move (State Thread Flag Data) (Event Thread Label))}
    (run : Run (Step flag work) s moves s') :
    Path (fun d (x : Thread × Label) d' => ∃ next, work x.1 d x.2 d' next) s.data
      (moves.filterMap fun move => move.label.work?) s'.data := by
  induction run with
  | nil => exact Path.nil _
  | @snoc moves s₁ s₂ e _ hs ih =>
    rw [List.filterMap_append]
    refine ih.append ?_
    cases hs with
    | clear | join | enter | leave => exact Path.nil _
    | @work t l data next _ hwork =>
      have hlast : List.filterMap (fun move : Move (State Thread Flag Data) (Event Thread Label) =>
          move.label.work?) [⟨s₁, .work t l, { s₁ with
            data := data, phase := Function.update s₁.phase t next }⟩] = [(t, l)] := rfl
      rw [hlast]
      exact Path.cons ⟨next, hwork⟩ (Path.nil _)

end Kthxvm.Lib.Threads
