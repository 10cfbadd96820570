import Mathlib

/-! A loop over the first elements of a list that rewrites each of them in its place. -/
namespace Kthxvm.Lib.InPlace

variable {α : Type}

def updateEach (f : α → α) (n : Nat) (xs : List α) : List α :=
  (List.range n).foldl (fun xs i => xs.modify i f) xs

@[simp] theorem updateEach_zero (f : α → α) (xs : List α) : updateEach f 0 xs = xs := rfl

theorem updateEach_succ (f : α → α) (n : Nat) (xs : List α) :
    updateEach f (n + 1) xs = (updateEach f n xs).modify n f := by
  rw [updateEach, List.range_succ, List.foldl_append]
  rfl

@[simp] theorem length_updateEach (f : α → α) (n : Nat) (xs : List α) :
    (updateEach f n xs).length = xs.length := by
  induction n with
  | zero => rfl
  | succ n ih => rw [updateEach_succ, List.length_modify, ih]

theorem getElem?_updateEach (f : α → α) (n : Nat) (xs : List α) (i : Nat) :
    (updateEach f n xs)[i]? = if i < n then xs[i]?.map f else xs[i]? := by
  induction n with
  | zero => rfl
  | succ n ih =>
    rw [updateEach_succ, List.getElem?_modify, ih]
    by_cases hself : n = i
    · subst hself
      simp only [Nat.lt_irrefl, Nat.lt_succ_self, if_true, if_false]
      rfl
    · simp only [hself, if_false]
      by_cases hi : i < n
      · rw [if_pos hi, if_pos (Nat.lt_succ_of_lt hi)]
        exact Option.map_id_apply
      · have hbehind : ¬ i < n + 1 := by omega
        rw [if_neg hi, if_neg hbehind]
        exact Option.map_id_apply

theorem updateEach_updateEach {f : α → α} (hf : ∀ x, f (f x) = f x) (n : Nat) (xs : List α) :
    updateEach f n (updateEach f n xs) = updateEach f n xs := by
  have hff : f ∘ f = f := funext hf
  apply List.ext_getElem?
  intro i
  rw [getElem?_updateEach, getElem?_updateEach]
  by_cases hi : i < n
  · rw [if_pos hi, if_pos hi, Option.map_map, hff]
  · rw [if_neg hi]

end Kthxvm.Lib.InPlace
