import Kthxvm.Lib.ByteMemory

/-! Lists of buffers in a byte memory. A byte string is laid out over the
buffers in order, each filled before the next. -/
namespace Kthxvm.Lib.ScatterGather

open ByteMemory

def totalLen (spans : List Span) : Nat := (spans.map Span.len).sum

def gather (m : Memory) (spans : List Span) : List UInt8 :=
  spans.flatMap fun span => load m span.addr span.len

def scatter (m : Memory) : List Span → List UInt8 → Memory
  | [], _ => m
  | span :: spans, bytes =>
    scatter (store m span.addr (bytes.take span.len)) spans (bytes.drop span.len)

@[simp] theorem totalLen_nil : totalLen [] = 0 := rfl

@[simp] theorem totalLen_cons (span : Span) (spans : List Span) :
    totalLen (span :: spans) = span.len + totalLen spans := by
  simp [totalLen]

@[simp] theorem gather_nil (m : Memory) : gather m [] = [] := rfl

@[simp] theorem gather_cons (m : Memory) (span : Span) (spans : List Span) :
    gather m (span :: spans) = load m span.addr span.len ++ gather m spans := rfl

@[simp] theorem length_gather (m : Memory) (spans : List Span) :
    (gather m spans).length = totalLen spans := by
  induction spans with
  | nil => rfl
  | cons span spans ih => rw [gather_cons, List.length_append, length_load, ih, totalLen_cons]

theorem gather_append (m : Memory) (spans spans' : List Span) :
    gather m (spans ++ spans') = gather m spans ++ gather m spans' :=
  List.flatMap_append

theorem totalLen_append (spans spans' : List Span) :
    totalLen (spans ++ spans') = totalLen spans + totalLen spans' := by
  simp [totalLen]

theorem gather_congr {m m' : Memory} {spans : List Span}
    (hlen : ∀ span ∈ spans, span.len ≤ 2 ^ 64)
    (h : ∀ span ∈ spans, AgreeOn span m m') : gather m spans = gather m' spans := by
  induction spans with
  | nil => rfl
  | cons span spans ih =>
    rw [gather_cons, gather_cons,
      ih (fun s hs => hlen s (List.mem_cons_of_mem _ hs))
        (fun s hs => h s (List.mem_cons_of_mem _ hs)),
      (h span List.mem_cons_self).load_eq (hlen span List.mem_cons_self)]

theorem scatter_agree {span : Span} (m : Memory) (spans : List Span) (bytes : List UInt8)
    (h : ∀ s ∈ spans, span.Apart s) : AgreeOn span m (scatter m spans bytes) := by
  induction spans generalizing m bytes with
  | nil => exact AgreeOn.refl _ _
  | cons s spans ih =>
    have hs : span.Apart ⟨s.addr, (bytes.take s.len).length⟩ :=
      (h s List.mem_cons_self).mono (Span.Within.refl _)
        (Span.within_of_le (List.length_take_le _ _))
    exact ((AgreeOn.refl _ _).store hs).trans
      (ih _ _ fun s' hs' => h s' (List.mem_cons_of_mem _ hs'))

theorem scatter_of_notMem (m : Memory) {spans : List Span} (bytes : List UInt8) {x : UInt64}
    (h : ∀ span ∈ spans, x ∉ span) : scatter m spans bytes x = m x := by
  induction spans generalizing m bytes with
  | nil => rfl
  | cons span spans ih =>
    rw [scatter, ih _ _ fun s hs => h s (List.mem_cons_of_mem _ hs)]
    apply store_of_notMem
    intro hx
    exact h span List.mem_cons_self (Span.within_of_le (List.length_take_le _ _) x hx)

theorem scatter_done (m : Memory) (spans : List Span) : scatter m spans [] = m := by
  induction spans generalizing m with
  | nil => rfl
  | cons span spans ih =>
    rw [scatter, List.take_nil, List.drop_nil, store_nil]
    exact ih m

theorem gather_scatter_front (m : Memory) (spans : List Span) (bytes : List UInt8)
    (hlen : ∀ span ∈ spans, span.len ≤ 2 ^ 64) (hpair : spans.Pairwise Span.Apart) :
    gather (scatter m spans bytes) spans =
      bytes.take (totalLen spans) ++ (gather m spans).drop bytes.length := by
  induction spans generalizing m bytes with
  | nil => simp
  | cons span spans ih =>
    rw [List.pairwise_cons] at hpair
    -- the later buffers do not touch the first one
    have hkeep : AgreeOn span (store m span.addr (bytes.take span.len))
        (scatter m (span :: spans) bytes) :=
      scatter_agree _ spans _ hpair.1
    have hhead : load (scatter m (span :: spans) bytes) span.addr span.len =
        bytes.take span.len ++ (load m span.addr span.len).drop (bytes.take span.len).length := by
      have hfront := load_store_front m span.addr (List.length_take_le span.len bytes)
        (hlen span List.mem_cons_self)
      exact (hkeep.symm.load_eq (hlen span List.mem_cons_self)).trans hfront
    -- nor does the first one touch them
    have hrest : gather (store m span.addr (bytes.take span.len)) spans = gather m spans := by
      apply gather_congr fun s hs => hlen s (List.mem_cons_of_mem _ hs)
      intro s hs
      refine ((AgreeOn.refl s m).store ?_).symm
      exact ((hpair.1 s hs).symm).mono (Span.Within.refl _)
        (Span.within_of_le (List.length_take_le _ _))
    have htail := ih (store m span.addr (bytes.take span.len)) (bytes.drop span.len)
      (fun s hs => hlen s (List.mem_cons_of_mem _ hs)) hpair.2
    rw [hrest] at htail
    rw [gather_cons, hhead, scatter, htail, gather_cons, totalLen_cons]
    rcases Nat.lt_or_ge bytes.length span.len with hshort | hlong
    · rw [List.take_of_length_le hshort.le, List.drop_eq_nil_of_le hshort.le, List.take_nil,
        List.nil_append, List.length_nil, List.drop_zero, List.take_of_length_le (by omega),
        List.drop_append_of_le_length (by rw [length_load]; exact hshort.le), List.append_assoc]
    · have htake : (bytes.take span.len).length = span.len := List.length_take_of_le hlong
      have hload : (load m span.addr span.len).length = span.len := length_load _ _ _
      rw [htake, List.drop_eq_nil_of_le hload.le, List.append_nil, ← List.append_assoc,
        ← List.take_add, List.length_drop]
      have hpast : (load m span.addr span.len).drop bytes.length = [] :=
        List.drop_eq_nil_of_le (by omega)
      rw [List.drop_append, hpast, hload, List.nil_append]

/-- Scattering over disjoint buffers and gathering again is the identity. -/
theorem gather_scatter (m : Memory) (spans : List Span) (bytes : List UInt8)
    (hlen : ∀ span ∈ spans, span.len ≤ 2 ^ 64) (hpair : spans.Pairwise Span.Apart)
    (hbytes : bytes.length = totalLen spans) :
    gather (scatter m spans bytes) spans = bytes := by
  rw [gather_scatter_front m spans bytes hlen hpair, hbytes, ← length_gather m spans,
    List.drop_length, List.append_nil, length_gather, ← hbytes, List.take_length]

end Kthxvm.Lib.ScatterGather
