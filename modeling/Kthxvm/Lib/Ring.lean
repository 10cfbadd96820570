import Mathlib

/-! A ring of cells seen as a queue: the entries between two counters that only grow, each
of them in the cell that is left when its number is divided by the size. -/
namespace Kthxvm.Lib.Ring

variable {α : Type*} {cells cells' : Nat → α} {size start start' count j k : Nat}

theorem mod_ne_of_window (hjk : j < k) (hk : k < j + size) : j % size ≠ k % size := by
  intro h
  have hd : (k - j) % size = 0 := Nat.sub_mod_eq_zero_of_mod_eq h.symm
  rw [Nat.mod_eq_of_lt (by omega)] at hd
  omega

def window (cells : Nat → α) (size start count : Nat) : List α :=
  (List.range count).map fun i => cells ((start + i) % size)

@[simp] theorem length_window : (window cells size start count).length = count := by
  simp [window]

@[simp] theorem window_zero : window cells size start 0 = [] := rfl

theorem window_succ : window cells size start (count + 1) =
    cells (start % size) :: window cells size (start + 1) count := by
  unfold window
  rw [List.range_succ_eq_map, List.map_cons, List.map_map, Nat.add_zero]
  congr 2
  ext i
  simp only [Function.comp_apply, Nat.succ_eq_add_one]
  rw [Nat.add_right_comm, ← Nat.add_assoc]

theorem window_concat : window cells size start (count + 1) =
    window cells size start count ++ [cells ((start + count) % size)] := by
  unfold window
  rw [List.range_succ, List.map_append, List.map_singleton]

theorem window_congr (h : ∀ i < count, cells ((start + i) % size) = cells' ((start + i) % size)) :
    window cells size start count = window cells' size start count :=
  List.map_congr_left fun i hi => h i (List.mem_range.mp hi)

theorem window_mod (h : start % size = start' % size) :
    window cells size start count = window cells size start' count := by
  unfold window
  congr 1
  ext i
  rw [Nat.add_mod, h, ← Nat.add_mod]

theorem window_push (start : Nat) (hroom : count < size)
    (hold : ∀ i < size, i ≠ (start + count) % size → cells' i = cells i) :
    window cells' size start (count + 1) =
      window cells size start count ++ [cells' ((start + count) % size)] := by
  rw [window_concat]
  congr 1
  apply window_congr
  intro i hi
  apply hold _ (Nat.mod_lt _ (by omega))
  exact mod_ne_of_window (by omega) (by omega)

end Kthxvm.Lib.Ring
