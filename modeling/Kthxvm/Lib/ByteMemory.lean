import Mathlib

/-! Byte memories over a 64-bit address space. Addresses wrap, so a span is the
set of addresses at a bounded offset from its base; separation of spans is all
that the frame lemmas need. -/
namespace Kthxvm.Lib.ByteMemory

abbrev Memory := UInt64 → UInt8

structure Span where
  addr : UInt64
  len : Nat
deriving DecidableEq

/-- The offset is taken modulo `2 ^ 64`, as the address computation does. -/
def Span.Has (span : Span) (x : UInt64) : Prop :=
  (x - span.addr).toNat < span.len

instance : Membership UInt64 Span := ⟨Span.Has⟩

instance (span : Span) (x : UInt64) : Decidable (x ∈ span) :=
  inferInstanceAs (Decidable ((x - span.addr).toNat < span.len))

theorem Span.mem_iff {span : Span} {x : UInt64} :
    x ∈ span ↔ (x - span.addr).toNat < span.len := Iff.rfl

def Span.Apart (left right : Span) : Prop :=
  ∀ x, x ∈ left → x ∉ right

def Span.Within (inner outer : Span) : Prop :=
  ∀ x, x ∈ inner → x ∈ outer

theorem Span.Apart.symm {left right : Span} (h : left.Apart right) :
    right.Apart left :=
  fun x hr hl => h x hl hr

theorem Span.Apart.mono {left right left' right' : Span} (h : left.Apart right)
    (hl : left'.Within left) (hr : right'.Within right) : left'.Apart right' :=
  fun x hx hy => h x (hl x hx) (hr x hy)

theorem Span.Within.refl (span : Span) : span.Within span := fun _ h => h

theorem Span.apart_of_empty (left : Span) (addr : UInt64) :
    left.Apart ⟨addr, 0⟩ :=
  fun _ _ h => absurd h (Nat.not_lt_zero _)

theorem offset_add_toNat (x a k : UInt64) :
    (x - a).toNat = ((x - (a + k)).toNat + k.toNat) % 2 ^ 64 := by
  rw [← UInt64.toNat_add]
  congr 1
  grind

theorem Span.within_of_offset {a k : UInt64} {n m : Nat}
    (h : k.toNat + n ≤ m) : Span.Within ⟨a + k, n⟩ ⟨a, m⟩ := by
  intro x hx
  rw [Span.mem_iff] at hx ⊢
  have hle : (x - a).toNat ≤ (x - (a + k)).toNat + k.toNat := by
    rw [offset_add_toNat x a k]
    exact Nat.mod_le _ _
  dsimp only at hx ⊢
  omega

theorem Span.within_of_le {a : UInt64} {n m : Nat} (h : n ≤ m) :
    Span.Within ⟨a, n⟩ ⟨a, m⟩ :=
  fun _ hx => Nat.lt_of_lt_of_le hx h

theorem Span.apart_of_offset {a j k : UInt64} {n m : Nat}
    (hjk : j.toNat + n ≤ k.toNat) (hk : k.toNat + m ≤ 2 ^ 64) :
    Span.Apart ⟨a + j, n⟩ ⟨a + k, m⟩ := by
  intro x hj hx
  rw [Span.mem_iff] at hj hx
  dsimp only at hj hx
  have h1 := offset_add_toNat x a j
  have h2 := offset_add_toNat x a k
  rw [Nat.mod_eq_of_lt (by omega)] at h1 h2
  omega

theorem Span.apart_of_le {left right : Span} (h : left.addr.toNat + left.len ≤ right.addr.toNat)
    (hr : right.addr.toNat + right.len ≤ 2 ^ 64) : left.Apart right := by
  have hapart := Span.apart_of_offset (a := 0) h hr
  rwa [UInt64.zero_add, UInt64.zero_add] at hapart

theorem Span.mem_iff_toNat {a : UInt64} {n : Nat} (h : a.toNat + n ≤ 2 ^ 64) {x : UInt64} :
    x ∈ (⟨a, n⟩ : Span) ↔ a.toNat ≤ x.toNat ∧ x.toNat < a.toNat + n := by
  rw [Span.mem_iff]
  dsimp only
  rw [UInt64.toNat_sub]
  have ha := a.toNat_lt
  have hx := x.toNat_lt
  omega

theorem Span.mem_offset {a : UInt64} {n i : Nat} (hi : i < n) (hn : n ≤ 2 ^ 64) :
    a + UInt64.ofNat i ∈ (⟨a, n⟩ : Span) := by
  rw [Span.mem_iff]
  have h : a + UInt64.ofNat i - a = UInt64.ofNat i := by grind
  dsimp only
  rw [h, UInt64.toNat_ofNat', Nat.mod_eq_of_lt (by omega)]
  exact hi

def load (m : Memory) (a : UInt64) (n : Nat) : List UInt8 :=
  (List.range n).map fun i => m (a + UInt64.ofNat i)

def store (m : Memory) (a : UInt64) (bytes : List UInt8) : Memory :=
  fun x => bytes.getD (x - a).toNat (m x)

@[simp] theorem load_zero (m : Memory) (a : UInt64) : load m a 0 = [] := rfl

@[simp] theorem load_one (m : Memory) (a : UInt64) : load m a 1 = [m a] := by
  simp [load]

@[simp] theorem length_load (m : Memory) (a : UInt64) (n : Nat) :
    (load m a n).length = n := by
  simp [load]

@[simp] theorem store_nil (m : Memory) (a : UInt64) : store m a [] = m := rfl

theorem store_one (m : Memory) (a : UInt64) (b : UInt8) : store m a [b] a = b := by
  unfold store
  rw [UInt64.sub_self]
  rfl

theorem store_of_notMem (m : Memory) (a : UInt64) (bytes : List UInt8) {x : UInt64}
    (h : x ∉ (⟨a, bytes.length⟩ : Span)) : store m a bytes x = m x := by
  rw [Span.mem_iff, Nat.not_lt] at h
  unfold store
  rw [List.getD_eq_default _ _ h]

def image (writes : List (UInt64 × List UInt8)) : Memory :=
  writes.foldl (fun m piece => store m piece.1 piece.2) fun _ => 0

theorem load_congr {m m' : Memory} {a : UInt64} {n : Nat} (hn : n ≤ 2 ^ 64)
    (h : ∀ x ∈ (⟨a, n⟩ : Span), m x = m' x) : load m a n = load m' a n := by
  unfold load
  refine List.map_congr_left fun i hi => h _ ?_
  exact Span.mem_offset (List.mem_range.mp hi) hn

theorem load_store_front (m : Memory) (a : UInt64) {bytes : List UInt8} {n : Nat}
    (hbytes : bytes.length ≤ n) (hn : n ≤ 2 ^ 64) :
    load (store m a bytes) a n = bytes ++ (load m a n).drop bytes.length := by
  apply List.ext_getElem
  · simp only [length_load, List.length_append, List.length_drop]
    omega
  · intro i hi hi'
    rw [length_load] at hi
    have h : a + UInt64.ofNat i - a = UInt64.ofNat i := by grind
    have hoffset : (a + UInt64.ofNat i - a).toNat = i := by
      rw [h, UInt64.toNat_ofNat', Nat.mod_eq_of_lt (by omega)]
    simp only [load, List.getElem_map, List.getElem_range, store, hoffset]
    rcases Nat.lt_or_ge i bytes.length with hin | hout
    · rw [List.getElem_append_left hin]
      exact List.getD_eq_getElem _ _ hin
    · rw [List.getElem_append_right hout, List.getD_eq_default _ _ hout]
      simp only [List.getElem_drop, List.getElem_map, List.getElem_range]
      rw [Nat.add_sub_cancel' hout]

theorem load_store (m : Memory) (a : UInt64) (bytes : List UInt8)
    (hn : bytes.length ≤ 2 ^ 64) : load (store m a bytes) a bytes.length = bytes := by
  have hfront := load_store_front m a (le_refl bytes.length) hn
  rwa [List.drop_eq_nil_of_le (length_load m a _).le, List.append_nil] at hfront

theorem store_load (m : Memory) (a : UInt64) (n : Nat) : store m a (load m a n) = m := by
  funext x
  unfold store load
  by_cases hx : (x - a).toNat < n
  · have haddr : a + UInt64.ofNat (x - a).toNat = x := by
      rw [UInt64.ofNat_toNat]
      grind
    rw [List.getD_eq_getElem _ _ (by simpa using hx), List.getElem_map, List.getElem_range, haddr]
  · exact List.getD_eq_default _ _ (by simpa using hx)

theorem load_store_part (m : Memory) (a : UInt64) (bytes : List UInt8) {k n : Nat}
    (h : k + n ≤ bytes.length) (hn : bytes.length ≤ 2 ^ 64) :
    load (store m a bytes) (a + UInt64.ofNat k) n = (bytes.drop k).take n := by
  apply List.ext_getElem
  · rw [length_load, List.length_take, List.length_drop]
    omega
  · intro i hi hi'
    rw [length_load] at hi
    have hsub : a + UInt64.ofNat k + UInt64.ofNat i - a = UInt64.ofNat (k + i) := by
      rw [UInt64.ofNat_add]
      grind
    have hoffset : (a + UInt64.ofNat k + UInt64.ofNat i - a).toNat = k + i := by
      rw [hsub, UInt64.toNat_ofNat', Nat.mod_eq_of_lt (by omega)]
    simp only [load, List.getElem_map, List.getElem_range, store, hoffset]
    rw [List.getD_eq_getElem _ _ (by omega), List.getElem_take, List.getElem_drop]

/-! Fixed-width integers are stored least significant byte first. -/

def natOfBytes : List UInt8 → Nat
  | [] => 0
  | b :: bs => b.toNat + 256 * natOfBytes bs

def bytesOfNat : Nat → Nat → List UInt8
  | 0, _ => []
  | n + 1, v => UInt8.ofNat v :: bytesOfNat n (v / 256)

@[simp] theorem length_bytesOfNat (n v : Nat) : (bytesOfNat n v).length = n := by
  induction n generalizing v with
  | zero => rfl
  | succ n ih => simp [bytesOfNat, ih]

theorem natOfBytes_bytesOfNat (n v : Nat) :
    natOfBytes (bytesOfNat n v) = v % 256 ^ n := by
  induction n generalizing v with
  | zero => simp [bytesOfNat, natOfBytes, Nat.mod_one]
  | succ n ih =>
    have hpow : 256 ^ (n + 1) = 256 * 256 ^ n := Nat.pow_succ'
    rw [bytesOfNat, natOfBytes, ih, UInt8.toNat_ofNat', hpow, Nat.mod_mul]

theorem bytesOfNat_extend {n v : Nat} (h : v < 256 ^ n) (m : Nat) :
    bytesOfNat (n + m) v = bytesOfNat n v ++ List.replicate m 0 := by
  induction n generalizing v with
  | zero =>
    have hv : v = 0 := by simpa using h
    subst hv
    induction m with
    | zero => rfl
    | succ m ih =>
      have hfirst : bytesOfNat (0 + (m + 1)) 0 = 0 :: bytesOfNat (0 + m) 0 := rfl
      rw [hfirst, ih]
      rfl
  | succ n ih =>
    rw [Nat.pow_succ'] at h
    rw [Nat.add_right_comm, bytesOfNat, bytesOfNat, List.cons_append,
      ih (Nat.div_lt_of_lt_mul h)]

theorem natOfBytes_append (bs bs' : List UInt8) :
    natOfBytes (bs ++ bs') = natOfBytes bs + 256 ^ bs.length * natOfBytes bs' := by
  induction bs with
  | nil => simp [natOfBytes]
  | cons b bs ih =>
    have hpow : 256 ^ (b :: bs).length = 256 * 256 ^ bs.length := Nat.pow_succ'
    rw [List.cons_append, natOfBytes, natOfBytes, ih, hpow]
    ring

theorem natOfBytes_lt (bs : List UInt8) : natOfBytes bs < 256 ^ bs.length := by
  induction bs with
  | nil => simp [natOfBytes]
  | cons b bs ih =>
    have hb := b.toNat_lt
    have hpow : 256 ^ (b :: bs).length = 256 * 256 ^ bs.length := Nat.pow_succ'
    rw [natOfBytes, hpow]
    omega

def load16 (m : Memory) (a : UInt64) : UInt16 := UInt16.ofNat (natOfBytes (load m a 2))
def load32 (m : Memory) (a : UInt64) : UInt32 := UInt32.ofNat (natOfBytes (load m a 4))
def load64 (m : Memory) (a : UInt64) : UInt64 := UInt64.ofNat (natOfBytes (load m a 8))

def store16 (m : Memory) (a : UInt64) (v : UInt16) : Memory :=
  store m a (bytesOfNat 2 v.toNat)

def store32 (m : Memory) (a : UInt64) (v : UInt32) : Memory :=
  store m a (bytesOfNat 4 v.toNat)

@[simp] theorem load16_store16 (m : Memory) (a : UInt64) (v : UInt16) :
    load16 (store16 m a v) a = v := by
  have h := load_store m a (bytesOfNat 2 v.toNat) (by simp)
  rw [length_bytesOfNat] at h
  rw [load16, store16, h, natOfBytes_bytesOfNat]
  simp

@[simp] theorem load32_store32 (m : Memory) (a : UInt64) (v : UInt32) :
    load32 (store32 m a v) a = v := by
  have h := load_store m a (bytesOfNat 4 v.toNat) (by simp)
  rw [length_bytesOfNat] at h
  rw [load32, store32, h, natOfBytes_bytesOfNat]
  simp

theorem load16_of_load {m : Memory} {a : UInt64} {v : Nat} (h : load m a 2 = bytesOfNat 2 v) :
    load16 m a = UInt16.ofNat v := by
  rw [load16, h, natOfBytes_bytesOfNat, ← UInt16.toNat_inj, UInt16.toNat_ofNat',
    UInt16.toNat_ofNat']
  exact Nat.mod_mod v (2 ^ 16)

theorem load32_of_load {m : Memory} {a : UInt64} {v : Nat} (h : load m a 4 = bytesOfNat 4 v) :
    load32 m a = UInt32.ofNat v := by
  rw [load32, h, natOfBytes_bytesOfNat, ← UInt32.toNat_inj, UInt32.toNat_ofNat',
    UInt32.toNat_ofNat']
  exact Nat.mod_mod v (2 ^ 32)

theorem load64_of_load {m : Memory} {a : UInt64} {v : Nat} (h : load m a 8 = bytesOfNat 8 v) :
    load64 m a = UInt64.ofNat v := by
  rw [load64, h, natOfBytes_bytesOfNat, ← UInt64.toNat_inj, UInt64.toNat_ofNat',
    UInt64.toNat_ofNat']
  exact Nat.mod_mod v (2 ^ 64)

theorem load64_zeros (a : UInt64) : load64 (fun _ => 0) a = 0 := by
  have hload : load (fun _ => 0) a 8 = bytesOfNat 8 0 := by
    unfold load
    rw [List.map_const']
    rfl
  exact load64_of_load hload

def AgreeOn (span : Span) (m m' : Memory) : Prop :=
  ∀ x ∈ span, m x = m' x

theorem AgreeOn.refl (span : Span) (m : Memory) : AgreeOn span m m := fun _ _ => rfl

theorem AgreeOn.symm {span : Span} {m m' : Memory} (h : AgreeOn span m m') :
    AgreeOn span m' m :=
  fun x hx => (h x hx).symm

theorem AgreeOn.trans {span : Span} {m m' m'' : Memory} (h : AgreeOn span m m')
    (h' : AgreeOn span m' m'') : AgreeOn span m m'' :=
  fun x hx => (h x hx).trans (h' x hx)

theorem AgreeOn.mono {inner outer : Span} {m m' : Memory} (h : AgreeOn outer m m')
    (hw : inner.Within outer) : AgreeOn inner m m' :=
  fun x hx => h x (hw x hx)

theorem AgreeOn.store {span : Span} {m m' : Memory} (h : AgreeOn span m m')
    {b : UInt64} {bytes : List UInt8} (hb : span.Apart ⟨b, bytes.length⟩) :
    AgreeOn span m (store m' b bytes) :=
  fun x hx => (h x hx).trans (store_of_notMem m' b bytes (hb x hx)).symm

theorem AgreeOn.store16 {span : Span} {m m' : Memory} (h : AgreeOn span m m')
    {b : UInt64} {v : UInt16} (hb : span.Apart ⟨b, 2⟩) :
    AgreeOn span m (store16 m' b v) :=
  h.store (by simpa using hb)

theorem AgreeOn.store32 {span : Span} {m m' : Memory} (h : AgreeOn span m m')
    {b : UInt64} {v : UInt32} (hb : span.Apart ⟨b, 4⟩) :
    AgreeOn span m (store32 m' b v) :=
  h.store (by simpa using hb)

theorem AgreeOn.load_eq {a : UInt64} {n : Nat} {m m' : Memory} (hn : n ≤ 2 ^ 64)
    (h : AgreeOn ⟨a, n⟩ m m') : load m a n = load m' a n :=
  load_congr hn h

theorem AgreeOn.load16_eq {a : UInt64} {m m' : Memory} (h : AgreeOn ⟨a, 2⟩ m m') :
    load16 m a = load16 m' a := by
  rw [load16, load16, h.load_eq (by norm_num)]

theorem AgreeOn.load32_eq {a : UInt64} {m m' : Memory} (h : AgreeOn ⟨a, 4⟩ m m') :
    load32 m a = load32 m' a := by
  rw [load32, load32, h.load_eq (by norm_num)]

theorem AgreeOn.load64_eq {a : UInt64} {m m' : Memory} (h : AgreeOn ⟨a, 8⟩ m m') :
    load64 m a = load64 m' a := by
  rw [load64, load64, h.load_eq (by norm_num)]

end Kthxvm.Lib.ByteMemory
