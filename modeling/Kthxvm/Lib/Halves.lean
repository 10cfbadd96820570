import Mathlib

/-! Words that are written half by half, and halves that only ever gain bits. A
register that ORs what is written into it holds the last value exactly when that
value has all bits written before. -/
namespace Kthxvm.Lib.Halves

def join (low high : UInt32) : UInt64 := low.toUInt64 ||| (high.toUInt64 <<< 32)

theorem join_toNat (low high : UInt32) :
    (join low high).toNat = high.toNat * 2 ^ 32 + low.toNat := by
  have hlow := low.toNat_lt
  have hhigh := high.toNat_lt
  have hfits : high.toNat * 2 ^ 32 < 2 ^ 64 := by omega
  unfold join
  rw [UInt64.toNat_or, UInt64.toNat_shiftLeft, UInt32.toNat_toUInt64, UInt32.toNat_toUInt64]
  change low.toNat ||| high.toNat <<< 32 % 2 ^ 64 = _
  rw [Nat.shiftLeft_eq, Nat.mod_eq_of_lt hfits, Nat.lor_comm, ← Nat.shiftLeft_eq,
    ← Nat.shiftLeft_add_eq_or_of_lt hlow]

theorem join_toNat_mod (low high : UInt32) : (join low high).toNat % 2 ^ 32 = low.toNat := by
  have hlow := low.toNat_lt
  rw [join_toNat]
  omega

theorem join_toNat_div (low high : UInt32) : (join low high).toNat / 2 ^ 32 = high.toNat := by
  have hlow := low.toNat_lt
  rw [join_toNat]
  omega

theorem join_inj {low high low' high' : UInt32} :
    join low high = join low' high' ↔ low = low' ∧ high = high' := by
  have hlow := low.toNat_lt
  have hlow' := low'.toNat_lt
  rw [← UInt64.toNat_inj, join_toNat, join_toNat, ← UInt32.toNat_inj, ← UInt32.toNat_inj]
  omega

@[simp] theorem join_zero : join 0 0 = 0 := rfl

theorem join_or_low (low high v : UInt32) :
    join low high ||| (v.toUInt64 <<< 0) = join (low ||| v) high := by
  unfold join
  rw [UInt64.shiftLeft_zero, UInt32.toUInt64_or, UInt64.or_assoc, UInt64.or_assoc,
    UInt64.or_comm v.toUInt64]

theorem join_or_high (low high v : UInt32) :
    join low high ||| (v.toUInt64 <<< 32) = join low (high ||| v) := by
  unfold join
  rw [UInt32.toUInt64_or, UInt64.shiftLeft_or, UInt64.or_assoc]

/-- Everything ever written, as a register that ORs its writes holds it. -/
def orAll (vs : List UInt32) : UInt32 := vs.foldr (· ||| ·) 0

@[simp] theorem orAll_nil : orAll [] = 0 := rfl

@[simp] theorem orAll_cons (v : UInt32) (vs : List UInt32) : orAll (v :: vs) = v ||| orAll vs := rfl

theorem or_orAll_of_mem {v : UInt32} {vs : List UInt32} (h : v ∈ vs) :
    v ||| orAll vs = orAll vs := by
  induction vs with
  | nil => cases h
  | cons w vs ih =>
    rw [orAll_cons]
    rcases List.mem_cons.mp h with rfl | h
    · rw [← UInt32.or_assoc, UInt32.or_self]
    · rw [← UInt32.or_assoc, UInt32.or_comm v w, UInt32.or_assoc, ih h]

theorem orAll_or_of_forall {w : UInt32} {vs : List UInt32} (h : ∀ v ∈ vs, v ||| w = w) :
    orAll vs ||| w = w := by
  induction vs with
  | nil => exact UInt32.zero_or
  | cons v vs ih =>
    rw [orAll_cons, UInt32.or_assoc, ih fun v' hv' => h v' (List.mem_cons_of_mem _ hv')]
    exact h v List.mem_cons_self

/-- All bits written are in `w`, one of the values written or 0, exactly when
`w` is what the register holds. -/
theorem orAll_eq_iff {w : UInt32} {vs : List UInt32} (hw : w = 0 ∨ w ∈ vs) :
    orAll vs = w ↔ ∀ v ∈ vs, v ||| w = w := by
  constructor
  · rintro rfl v hv
    exact or_orAll_of_mem hv
  · intro h
    have hle := orAll_or_of_forall h
    have hge : w ||| orAll vs = orAll vs := by
      rcases hw with rfl | hw
      · exact UInt32.zero_or
      · exact or_orAll_of_mem hw
    rw [UInt32.or_comm, hge] at hle
    exact hle

def last (vs : List UInt32) : UInt32 := vs.getLastD 0

theorem last_eq_zero_or_mem (vs : List UInt32) : last vs = 0 ∨ last vs ∈ vs := by
  rcases List.eq_nil_or_concat vs with rfl | ⟨init, v, rfl⟩
  · exact Or.inl rfl
  · right
    simp [last]

end Kthxvm.Lib.Halves
