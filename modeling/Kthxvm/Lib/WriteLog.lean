import Kthxvm.Lib.ByteMemory

/-! Lists of stores into a byte memory, as a computation performs them one after
another. -/
namespace Kthxvm.Lib.WriteLog

open ByteMemory

abbrev Log := List (UInt64 × List UInt8)

def storeAll (m : Memory) (log : Log) : Memory :=
  log.foldl (fun m w => store m w.1 w.2) m

/-- The number of bytes stored, each as often as it is stored. -/
def stored (log : Log) : Nat := (log.map fun w => w.2.length).sum

@[simp] theorem storeAll_nil (m : Memory) : storeAll m [] = m := rfl

@[simp] theorem storeAll_cons (m : Memory) (w : UInt64 × List UInt8) (log : Log) :
    storeAll m (w :: log) = storeAll (store m w.1 w.2) log := rfl

theorem storeAll_append (m : Memory) (log log' : Log) :
    storeAll m (log ++ log') = storeAll (storeAll m log) log' :=
  List.foldl_append

def Covers (log : Log) (x : UInt64) : Prop :=
  ∃ w ∈ log, x ∈ (⟨w.1, w.2.length⟩ : Span)

def Log.Apart (log log' : Log) : Prop := ∀ x, Covers log x → ¬ Covers log' x

theorem Log.Apart.symm {log log' : Log} (h : log.Apart log') : log'.Apart log :=
  fun x hx' hx => h x hx hx'

theorem covers_cons {w : UInt64 × List UInt8} {log : Log} {x : UInt64} :
    Covers (w :: log) x ↔ x ∈ (⟨w.1, w.2.length⟩ : Span) ∨ Covers log x := by
  unfold Covers
  simp only [List.mem_cons, exists_eq_or_imp]

theorem covers_flatten {logs : List Log} {x : UInt64} :
    Covers logs.flatten x ↔ ∃ log ∈ logs, Covers log x := by
  unfold Covers
  simp only [List.mem_flatten]
  constructor
  · rintro ⟨w, ⟨log, hlog, hw⟩, hx⟩
    exact ⟨log, hlog, w, hw, hx⟩
  · rintro ⟨log, hlog, w, hw, hx⟩
    exact ⟨w, ⟨log, hlog, hw⟩, hx⟩

theorem storeAll_of_not_covers (m : Memory) {log : Log} {x : UInt64} (h : ¬ Covers log x) :
    storeAll m log x = m x := by
  induction log generalizing m with
  | nil => rfl
  | cons w log ih =>
    have hw : x ∉ (⟨w.1, w.2.length⟩ : Span) := fun hx => h ⟨w, List.mem_cons_self, hx⟩
    have hlog : ¬ Covers log x := by
      rintro ⟨w', hw', hx⟩
      exact h ⟨w', List.mem_cons_of_mem _ hw', hx⟩
    rw [storeAll_cons, ih _ hlog, store_of_notMem m _ _ hw]

theorem storeAll_apply (m : Memory) (log : Log) (x : UInt64) : storeAll m log x =
    (log.filterMap fun w => w.2[(x - w.1).toNat]?).getLast?.getD (m x) := by
  induction log generalizing m with
  | nil => rfl
  | cons w log ih =>
    rw [storeAll_cons, ih, store, List.filterMap_cons, List.getD_eq_getElem?_getD]
    cases w.2[(x - w.1).toNat]? with
    | none => rfl
    | some b =>
      rw [List.getLast?_cons]
      rfl

theorem storeAll_congr {m m' : Memory} (log : Log) {x : UInt64} (h : m x = m' x) :
    storeAll m log x = storeAll m' log x := by
  induction log generalizing m m' with
  | nil => exact h
  | cons w log ih =>
    rw [storeAll_cons, storeAll_cons]
    apply ih
    unfold store
    rw [h]

theorem storeAll_of_covers (m m' : Memory) {log : Log} {x : UInt64} (h : Covers log x) :
    storeAll m log x = storeAll m' log x := by
  induction log generalizing m m' with
  | nil =>
    obtain ⟨w, hw, -⟩ := h
    contradiction
  | cons w log ih =>
    rw [storeAll_cons, storeAll_cons]
    by_cases hlog : Covers log x
    · exact ih _ _ hlog
    · rw [storeAll_of_not_covers _ hlog, storeAll_of_not_covers _ hlog]
      obtain ⟨w', hw', hx⟩ := h
      rcases List.mem_cons.mp hw' with rfl | hw'
      · rw [Span.mem_iff] at hx
        unfold store
        rw [List.getD_eq_getElem _ _ hx, List.getD_eq_getElem _ _ hx]
      · exact absurd ⟨w', hw', hx⟩ hlog

theorem storeAll_comm (m : Memory) {log log' : Log} (h : log.Apart log') :
    storeAll (storeAll m log) log' = storeAll (storeAll m log') log := by
  funext x
  by_cases hx : Covers log x
  · rw [storeAll_of_not_covers _ (h x hx)]
    exact storeAll_of_covers _ _ hx
  · rw [storeAll_of_not_covers (storeAll m log') hx]
    exact storeAll_congr log' (storeAll_of_not_covers m hx)

theorem storeAll_perm {logs logs' : List Log} (hperm : logs.Perm logs')
    (h : logs.Pairwise Log.Apart) (m : Memory) :
    storeAll m logs.flatten = storeAll m logs'.flatten := by
  induction hperm generalizing m with
  | nil => rfl
  | cons log hperm ih =>
    rw [List.flatten_cons, List.flatten_cons, storeAll_append, storeAll_append]
    exact ih (List.pairwise_cons.mp h).2 _
  | swap log log' logs =>
    have hapart : log'.Apart log := (List.pairwise_cons.mp h).1 log List.mem_cons_self
    simp only [List.flatten_cons, storeAll_append]
    rw [storeAll_comm m hapart]
  | trans hperm hperm' ih ih' =>
    rw [ih h m]
    exact ih' (hperm.pairwise h fun hapart => hapart.symm) m

theorem storeAll_flatten_of_mem {logs : List Log} (h : logs.Pairwise Log.Apart) {log : Log}
    (hlog : log ∈ logs) {x : UInt64} (hx : Covers log x) (m m' : Memory) :
    storeAll m logs.flatten x = storeAll m' log x := by
  obtain ⟨rest, hperm⟩ : ∃ rest, logs.Perm (log :: rest) :=
    ⟨logs.erase log, List.perm_cons_erase hlog⟩
  have hpair := hperm.pairwise h fun hapart => hapart.symm
  have hrest : ¬ Covers rest.flatten x := by
    rw [covers_flatten]
    rintro ⟨log', hlog', hx'⟩
    exact (List.pairwise_cons.mp hpair).1 log' hlog' x hx hx'
  rw [storeAll_perm hperm h, List.flatten_cons, storeAll_append,
    storeAll_of_not_covers _ hrest]
  exact storeAll_of_covers _ _ hx

def Aside (w w' : UInt64 × List UInt8) : Prop :=
  w.1.toNat + w.2.length ≤ w'.1.toNat ∧ w'.1.toNat + w'.2.length ≤ 2 ^ 64 ∨
    w'.1.toNat + w'.2.length ≤ w.1.toNat ∧ w.1.toNat + w.2.length ≤ 2 ^ 64

theorem Aside.apart {w w' : UInt64 × List UInt8} (h : Aside w w') :
    Span.Apart ⟨w.1, w.2.length⟩ ⟨w'.1, w'.2.length⟩ := by
  rcases h with ⟨h, hr⟩ | ⟨h, hr⟩
  · exact Span.apart_of_le h hr
  · exact (Span.apart_of_le h hr).symm

theorem load_storeAll (m : Memory) (before after : Log) (w : UInt64 × List UInt8)
    (hlen : w.2.length ≤ 2 ^ 64) (h : ∀ w' ∈ after, Aside w w') :
    load (storeAll m (before ++ w :: after)) w.1 w.2.length = w.2 := by
  rw [storeAll_append, storeAll_cons]
  have hframe : AgreeOn ⟨w.1, w.2.length⟩
      (storeAll (store (storeAll m before) w.1 w.2) after) (store (storeAll m before) w.1 w.2) := by
    intro x hx
    apply storeAll_of_not_covers
    rintro ⟨w', hw', hx'⟩
    exact (h w' hw').apart x hx hx'
  rw [hframe.load_eq hlen]
  exact load_store _ _ _ hlen

theorem load_storeAll_of_mem (m : Memory) {log : Log} (h : log.Pairwise Aside)
    {w : UInt64 × List UInt8} (hw : w ∈ log) (hlen : w.2.length ≤ 2 ^ 64) :
    load (storeAll m log) w.1 w.2.length = w.2 := by
  obtain ⟨before, after, rfl⟩ := List.append_of_mem hw
  have hafter := (List.pairwise_append.mp h).2.1
  exact load_storeAll m before after w hlen (List.pairwise_cons.mp hafter).1

def Log.Within (log : Log) (lo hi : Nat) : Prop :=
  ∀ w ∈ log, lo ≤ w.1.toNat ∧ w.1.toNat + w.2.length ≤ hi

theorem Log.within_append {log log' : Log} {lo hi : Nat} :
    Log.Within (log ++ log') lo hi ↔ log.Within lo hi ∧ log'.Within lo hi :=
  List.forall_mem_append

theorem Log.Within.of_covers {log : Log} {lo hi : Nat} (h : log.Within lo hi) (hhi : hi ≤ 2 ^ 64)
    {x : UInt64} (hx : Covers log x) : lo ≤ x.toNat ∧ x.toNat < hi := by
  obtain ⟨w, hw, hx⟩ := hx
  have hw := h w hw
  rw [Span.mem_iff_toNat (by omega)] at hx
  omega

end Kthxvm.Lib.WriteLog
