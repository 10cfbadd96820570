import Kthxvm.Lib.ScatterGather
import Kthxvm.Virtio.Queue

/-! Descriptor chains as a driver lays them out: every entry but the last
carries the NEXT flag and names its successor. -/
namespace Kthxvm.Virtio

open Lib.ByteMemory Lib.ScatterGather

def Descriptor.span (d : Descriptor) : Span := ⟨d.addr, d.len.toNat⟩

def spans (ds : List Descriptor) : List Span := ds.map Descriptor.span

/-- The running length of a chain, in the 32 bits of the source. -/
def len32 (ds : List Descriptor) : UInt32 := (ds.map Descriptor.len).sum

@[simp] theorem spans_nil : spans [] = [] := rfl

@[simp] theorem spans_cons (d : Descriptor) (ds : List Descriptor) :
    spans (d :: ds) = d.span :: spans ds := rfl

@[simp] theorem len32_nil : len32 [] = 0 := rfl

@[simp] theorem len32_cons (d : Descriptor) (ds : List Descriptor) :
    len32 (d :: ds) = d.len + len32 ds := rfl

theorem spans_len_le (ds : List Descriptor) : ∀ span ∈ spans ds, span.len ≤ 2 ^ 64 := by
  intro span hspan
  obtain ⟨d, -, rfl⟩ := List.mem_map.mp hspan
  have := d.len.toNat_lt
  change d.len.toNat ≤ 2 ^ 64
  omega

namespace Queue

/-- `ds` are the descriptors of the chain that starts at table entry `i`. -/
def Chain (q : Queue) (m : Memory) : UInt16 → List Descriptor → Prop
  | _, [] => False
  | i, d :: ds => i.toNat < q.size.toNat ∧ q.entry m i = d ∧
      match ds with
      | [] => d.hasNext = false
      | _ :: _ => d.hasNext = true ∧ Chain q m d.next ds

section

variable {q : Queue} {m m' : Memory} {i : UInt16} {d e : Descriptor} {ds : List Descriptor}

@[simp] theorem chain_last : q.Chain m i [d] ↔
    i.toNat < q.size.toNat ∧ q.entry m i = d ∧ d.hasNext = false := Iff.rfl

theorem chain_append : q.Chain m i (d :: (ds ++ [e])) ↔
    i.toNat < q.size.toNat ∧ q.entry m i = d ∧ d.hasNext = true ∧
      q.Chain m d.next (ds ++ [e]) := by
  cases ds <;> exact Iff.rfl

theorem Chain.head_lt (h : q.Chain m i ds) : i.toNat < q.size.toNat := by
  cases ds with
  | nil => exact h.elim
  | cons d ds => exact h.1

theorem entry_of_agree (hentry : AgreeOn ⟨q.descEntry i, 16⟩ m m') :
    q.entry m i = q.entry m' i := by
  have haddr : Span.Within ⟨q.descEntry i, 8⟩ ⟨q.descEntry i, 16⟩ :=
    Span.within_of_le (by norm_num)
  have hlen : Span.Within ⟨q.descEntry i + 8, 4⟩ ⟨q.descEntry i, 16⟩ :=
    Span.within_of_offset (by simp only [UInt64.reduceToNat]; norm_num)
  have hflags : Span.Within ⟨q.descEntry i + 12, 2⟩ ⟨q.descEntry i, 16⟩ :=
    Span.within_of_offset (by simp only [UInt64.reduceToNat]; norm_num)
  have hnext : Span.Within ⟨q.descEntry i + 14, 2⟩ ⟨q.descEntry i, 16⟩ :=
    Span.within_of_offset (by simp only [UInt64.reduceToNat]; norm_num)
  unfold entry
  rw [(hentry.mono haddr).load64_eq, (hentry.mono hlen).load32_eq,
    (hentry.mono hflags).load16_eq, (hentry.mono hnext).load16_eq]

theorem entry_congr (hi : i.toNat < q.size.toNat) (h : AgreeOn q.tableSpan m m') :
    q.entry m i = q.entry m' i :=
  entry_of_agree (h.mono (descEntry_within hi))

theorem Chain.queue {q' : Queue} (h : q.Chain m i ds) (hsize : q'.size = q.size)
    (hdesc : q'.descAddr = q.descAddr) : q'.Chain m i ds := by
  have hentry : ∀ j, q'.entry m j = q.entry m j := by
    intro j
    unfold entry descEntry
    rw [hdesc]
  induction ds generalizing i with
  | nil => exact h.elim
  | cons d ds ih =>
    obtain ⟨hi, hd, hrest⟩ := h
    refine ⟨hsize ▸ hi, (hentry i).trans hd, ?_⟩
    cases ds with
    | nil => exact hrest
    | cons e ds => exact ⟨hrest.1, ih hrest.2⟩

theorem Chain.of_next {q' : Queue} {g : Guest} {head : UInt16} (h : q.Chain m i ds)
    (hnext : q.next g = .ok (some head, q')) : q'.Chain m i ds := by
  rw [(next_takes hnext).2.1]
  exact h.queue rfl rfl

theorem Chain.unique {es : List Descriptor} (h : q.Chain m i ds) (h' : q.Chain m i es) :
    ds = es := by
  induction ds generalizing i es with
  | nil => exact h.elim
  | cons d ds ih =>
    cases es with
    | nil => exact h'.elim
    | cons e es =>
      have hde : d = e := h.2.1.symm.trans h'.2.1
      subst hde
      congr 1
      cases ds with
      | nil =>
        cases es with
        | nil => rfl
        | cons e es =>
          have hlast : d.hasNext = false := h.2.2
          rw [h'.2.2.1] at hlast
          contradiction
      | cons d' ds =>
        cases es with
        | nil =>
          have hlast : d.hasNext = false := h'.2.2
          rw [h.2.2.1] at hlast
          contradiction
        | cons e es => exact ih h.2.2.2 h'.2.2.2

def walk (q : Queue) (m : Memory) : Nat → UInt16 → List Descriptor
  | 0, _ => []
  | n + 1, i =>
    if (q.entry m i).hasNext then q.entry m i :: walk q m n (q.entry m i).next
    else [q.entry m i]

theorem Chain.walk_eq (h : q.Chain m i ds) {n : Nat} (hn : ds.length ≤ n) :
    q.walk m n i = ds := by
  induction ds generalizing i n with
  | nil => exact h.elim
  | cons d ds ih =>
    obtain ⟨n, rfl⟩ : ∃ k, n = k + 1 := ⟨n - 1, by simp only [List.length_cons] at hn; omega⟩
    rw [walk, h.2.1]
    cases ds with
    | nil => rw [if_neg (by simp [h.2.2])]
    | cons e ds => rw [if_pos h.2.2.1, ih h.2.2.2 (Nat.le_of_succ_le_succ hn)]

theorem walk_congr {q' : Queue} (h : q'.descAddr = q.descAddr) (m : Memory) (n : Nat)
    (i : UInt16) : q'.walk m n i = q.walk m n i := by
  have hentry : ∀ i, q'.entry m i = q.entry m i := by
    intro i
    unfold entry descEntry
    rw [h]
  induction n generalizing i with
  | zero => rfl
  | succ n ih => simp only [walk, hentry, ih]

def chainIndices : UInt16 → List Descriptor → List UInt16
  | _, [] => []
  | i, d :: ds => i :: chainIndices d.next ds

theorem length_chainIndices (i : UInt16) (ds : List Descriptor) :
    (chainIndices i ds).length = ds.length := by
  induction ds generalizing i with
  | nil => rfl
  | cons d ds ih => rw [chainIndices, List.length_cons, List.length_cons, ih]

theorem Chain.suffix (h : q.Chain m i ds) : ∀ j ∈ chainIndices i ds,
    ∃ es, q.Chain m j es ∧ es.length ≤ ds.length := by
  induction ds generalizing i with
  | nil => exact h.elim
  | cons d ds ih =>
    intro j hj
    rcases List.mem_cons.mp hj with rfl | hj
    · exact ⟨_, h, le_rfl⟩
    · cases ds with
      | nil => cases hj
      | cons e ds =>
        obtain ⟨es, hes, hle⟩ := ih h.2.2.2 j hj
        exact ⟨es, hes, hle.trans (Nat.le_succ _)⟩

/-- A chain that ends visits no entry twice: from a second visit on it would
have to be as long as from the first. -/
theorem Chain.nodup (h : q.Chain m i ds) : (chainIndices i ds).Nodup := by
  induction ds generalizing i with
  | nil => exact h.elim
  | cons d ds ih =>
    rw [chainIndices, List.nodup_cons]
    cases ds with
    | nil => exact ⟨List.not_mem_nil, List.nodup_nil⟩
    | cons e ds =>
      refine ⟨?_, ih h.2.2.2⟩
      intro hmem
      obtain ⟨es, hes, hle⟩ := h.2.2.2.suffix i hmem
      rw [← h.unique hes, List.length_cons] at hle
      omega

theorem Chain.index_lt (h : q.Chain m i ds) :
    ∀ j ∈ chainIndices i ds, j.toNat < q.size.toNat := by
  intro j hj
  obtain ⟨es, hes, -⟩ := h.suffix j hj
  exact hes.head_lt

theorem Chain.of_entries (h : q.Chain m i ds)
    (hsame : ∀ j ∈ chainIndices i ds, q.entry m' j = q.entry m j) : q.Chain m' i ds := by
  induction ds generalizing i with
  | nil => exact h.elim
  | cons d ds ih =>
    obtain ⟨hi, hd, hrest⟩ := h
    have hentry := (hsame i List.mem_cons_self).trans hd
    refine ⟨hi, hentry, ?_⟩
    cases ds with
    | nil => exact hrest
    | cons e ds =>
      exact ⟨hrest.1, ih hrest.2 fun j hj => hsame j (List.mem_cons_of_mem _ hj)⟩

theorem Chain.congr (h : q.Chain m i ds) (hagree : AgreeOn q.tableSpan m m') :
    q.Chain m' i ds :=
  h.of_entries fun j hj => (entry_congr (h.index_lt j hj) hagree).symm

theorem Chain.length_le (h : q.Chain m i ds) : ds.length ≤ q.size.toNat := by
  have hnodup : ((chainIndices i ds).map UInt16.toNat).Nodup :=
    h.nodup.map fun _ _ hab => UInt16.toNat_inj.mp hab
  have hsub : (chainIndices i ds).map UInt16.toNat ⊆ List.range q.size.toNat := by
    intro n hn
    obtain ⟨j, hj, rfl⟩ := List.mem_map.mp hn
    exact List.mem_range.mpr (h.index_lt j hj)
  have hle := (hnodup.subperm hsub).length_le
  rw [List.length_map, length_chainIndices, List.length_range] at hle
  exact hle

end

section Access

variable {q : Queue} {g : Guest} {i : UInt16}

theorem descriptor_of_held {n : Nat} (h : g.Holds q.descAddr (16 * n)) (hi : i.toNat < n) :
    q.descriptor g i = .ok (q.entry g.bytes i) := by
  have hheld : g.Holds (q.descEntry i) 16 := by
    apply h.field
    rw [descEntry_offset]
    omega
  rw [descriptor, Guest.check_ok hheld]
  rfl

theorem descriptor_ok (hp : q.Placed g) (hi : i.toNat < q.size.toNat) :
    q.descriptor g i = .ok (q.entry g.bytes i) :=
  descriptor_of_held hp.table hi

theorem descriptorIndex_ok (hle : q.size.toNat ≤ queueSizeMax.toNat)
    (hi : i.toNat < q.size.toNat) : descriptorIndex i = .ok i :=
  descriptorIndex_of_lt (Nat.lt_of_lt_of_le hi hle)

end Access

end Queue

end Kthxvm.Virtio
