import Mathlib

/-! The output loop of `terminal.h`. Bytes stand for themselves by their positions in the
buffer of the caller, so that a byte that is written twice is seen to be. -/
namespace Kthxvm.Terminal

structure Request where
  offset : UInt64
  size : UInt64
deriving DecidableEq

structure Output where
  requests : List Request
  /-- the positions of the bytes that `write` took, in this order -/
  written : List Nat
  /-- the result of `put`, unless the last `write` did not return yet -/
  result : Option UInt64
deriving DecidableEq

/-- The loop of `put`, where `rets` is what `write` returns from here on. -/
def putLoop (size offset : UInt64) (rets : List Int64) : Output :=
  if offset < size then
    match rets with
    | [] => ⟨[⟨offset, size⟩], [], none⟩
    | written :: rets =>
      let taken := List.range' offset.toNat written.toInt.toNat
      -- `int ret` keeps the low half of what `write` returned
      let ret := written.toInt32
      if ret < 0 then ⟨[⟨offset, size⟩], taken, some (size - offset)⟩
      else
        let rest := putLoop size (offset + UInt64.ofInt ret.toInt) rets
        { rest with
          requests := ⟨offset, size⟩ :: rest.requests
          written := taken ++ rest.written }
  else ⟨[], [], some size⟩

def put (size : UInt64) (rets : List Int64) : Output := putLoop size 0 rets

/-- A `write` fails or takes at least one of the bytes that it is asked to write. -/
def Answers (requests : List Request) (rets : List Int64) : Prop :=
  ∀ answer ∈ requests.zip rets,
    answer.2 = -1 ∨ 1 ≤ answer.2.toInt ∧ answer.2.toInt ≤ answer.1.size.toNat

/-- `put` writes its buffer, and nothing else. -/
structure PutExact (size : UInt64) (rets : List Int64) : Prop where
  inside : ∀ request ∈ (put size rets).requests,
    request.offset.toNat + request.size.toNat ≤ size.toNat
  ordered : (put size rets).written <+: List.range size.toNat
  complete : (put size rets).result.isSome → -1 ∉ rets.take (put size rets).requests.length →
    (put size rets).written = List.range size.toNat

/-- One `write` decides: it fails; or it takes every byte, and either an `int` can tell so
or the `int` is negative and ends the loop; or the `int` is zero, in which case the same
bytes are asked for again, and this second `write` takes none. -/
def AtOnce (size : UInt64) (rets : List Int64) : Prop :=
  size = 0 ∨ match rets with
  | [] => True
  | written :: rets => written = -1 ∨
    written.toInt = size.toNat ∧ (size.toNat < 2 ^ 31 ∨ 2 ^ 31 ≤ size.toNat % 2 ^ 32) ∨
    written.toInt % 2 ^ 32 = 0 ∧ ∀ ret ∈ rets.head?, ret = -1

section Narrow

variable {written : Int64}

theorem narrow_neg (hlow : 2 ^ 31 ≤ written.toInt % 2 ^ 32) : written.toInt32 < 0 := by
  have hzero : (0 : Int32).toInt = 0 := rfl
  rw [Int32.lt_iff_toInt_lt, Int64.toInt_toInt32, hzero, Int.bmod_def]
  split <;> omega

theorem narrow_low (hlow : written.toInt % 2 ^ 32 < 2 ^ 31) :
    written.toInt32.toInt = written.toInt % 2 ^ 32 := by
  rw [Int64.toInt_toInt32, Int.bmod_def, if_pos (by omega)]
  rfl

theorem narrow_nonneg (hlow : written.toInt % 2 ^ 32 < 2 ^ 31) : ¬ written.toInt32 < 0 := by
  have hzero : (0 : Int32).toInt = 0 := rfl
  rw [Int32.lt_iff_toInt_lt, narrow_low hlow, hzero]
  omega

end Narrow

section Loop

variable {size offset : UInt64} {rets : List Int64} {written : Int64}

theorem putLoop_end (h : ¬ offset < size) : putLoop size offset rets = ⟨[], [], some size⟩ := by
  unfold putLoop
  rw [if_neg h]

theorem mem_requests (h : offset < size) :
    ⟨offset, size⟩ ∈ (putLoop size offset rets).requests := by
  unfold putLoop
  rw [if_pos h]
  cases rets with
  | nil => exact List.mem_singleton_self _
  | cons written rets =>
    dsimp only
    split
    · exact List.mem_singleton_self _
    · exact List.mem_cons_self

theorem putLoop_fail (h : offset < size) (hret : written.toInt32 < 0) :
    putLoop size offset (written :: rets) =
      ⟨[⟨offset, size⟩], List.range' offset.toNat written.toInt.toNat, some (size - offset)⟩ := by
  rw [putLoop, if_pos h]
  dsimp only
  rw [if_pos hret]

theorem putLoop_more (rets : List Int64) (h : offset < size) (hret : ¬ written.toInt32 < 0) :
    putLoop size offset (written :: rets) =
      { putLoop size (offset + UInt64.ofInt written.toInt32.toInt) rets with
        requests := ⟨offset, size⟩ ::
          (putLoop size (offset + UInt64.ofInt written.toInt32.toInt) rets).requests
        written := List.range' offset.toNat written.toInt.toNat ++
          (putLoop size (offset + UInt64.ofInt written.toInt32.toInt) rets).written } := by
  rw [putLoop, if_pos h]
  dsimp only
  rw [if_neg hret]

theorem putLoop_first (written : Int64) (rets : List Int64) (h : offset < size) : ∃ requests more,
    (putLoop size offset (written :: rets)).requests = ⟨offset, size⟩ :: requests ∧
      (putLoop size offset (written :: rets)).written =
        List.range' offset.toNat written.toInt.toNat ++ more := by
  by_cases hret : written.toInt32 < 0
  · rw [putLoop_fail h hret]
    exact ⟨[], [], rfl, (List.append_nil _).symm⟩
  · rw [putLoop_more rets h hret]
    exact ⟨_, _, rfl, rfl⟩

theorem putLoop_wait (h : offset < size) :
    putLoop size offset [] = ⟨[⟨offset, size⟩], [], none⟩ := by
  rw [putLoop, if_pos h]

theorem range_prefix {m n : Nat} (h : m ≤ n) : List.range m <+: List.range n := by
  have htake : (List.range n).take m = List.range m := by rw [List.take_range, min_eq_left h]
  rw [← htake]
  exact List.take_prefix _ _

end Loop

section First

variable {size : UInt64} {written : Int64} {rets : List Int64}

theorem first_answer (hsize : 0 < size)
    (hanswers : Answers (put size (written :: rets)).requests (written :: rets))
    (hfail : written ≠ -1) : 1 ≤ written.toInt ∧ written.toInt ≤ size.toNat := by
  obtain ⟨requests, more, hrequests, -⟩ := putLoop_first written rets hsize
  have hfirst := hanswers (⟨0, size⟩, written) (by
    rw [put, hrequests]
    exact List.mem_cons_self)
  exact hfirst.resolve_left hfail

theorem exact_of_empty (rets : List Int64) : PutExact 0 rets := by
  have hput : put 0 rets = ⟨[], [], some 0⟩ := putLoop_end (by decide)
  constructor
  all_goals rw [hput]
  case inside => exact nofun
  case ordered => exact List.nil_prefix
  case complete => exact fun _ _ => rfl

theorem exact_of_waiting (hsize : 0 < size) : PutExact size [] := by
  have hput : put size [] = ⟨[⟨0, size⟩], [], none⟩ := putLoop_wait hsize
  constructor
  all_goals rw [hput]
  case inside =>
    intro request hmem
    rw [List.mem_singleton.mp hmem]
    exact (Nat.zero_add _).le
  case ordered => exact List.nil_prefix
  case complete => exact nofun

theorem exact_of_failed (hsize : 0 < size) : PutExact size (-1 :: rets) := by
  have hput : put size (-1 :: rets) = ⟨[⟨0, size⟩], [], some (size - 0)⟩ :=
    putLoop_fail hsize (by decide)
  constructor
  all_goals rw [hput]
  case inside =>
    intro request hmem
    rw [List.mem_singleton.mp hmem]
    exact (Nat.zero_add _).le
  case ordered => exact List.nil_prefix
  case complete => exact fun _ hfail => absurd List.mem_cons_self hfail

theorem exact_iff_of_neg (hsize : 0 < size) (hpos : 1 ≤ written.toInt)
    (hle : written.toInt ≤ size.toNat) (hlow : 2 ^ 31 ≤ written.toInt % 2 ^ 32) :
    PutExact size (written :: rets) ↔ written.toInt = size.toNat := by
  have hput : put size (written :: rets) =
      ⟨[⟨0, size⟩], List.range' 0 written.toInt.toNat, some (size - 0)⟩ :=
    putLoop_fail hsize (narrow_neg hlow)
  have hne : written ≠ -1 := by
    rintro rfl
    exact absurd hpos (by decide)
  rw [← List.range_eq_range'] at hput
  constructor
  · intro hexact
    have hall := hexact.complete (by rw [hput]; rfl) (by
      rw [hput]
      simpa using hne.symm)
    rw [hput] at hall
    have hlen := congrArg List.length hall
    simp only [List.length_range] at hlen
    omega
  · intro heq
    have hall : written.toInt.toNat = size.toNat := by omega
    constructor
    all_goals rw [hput]
    case inside =>
      intro request hmem
      rw [List.mem_singleton.mp hmem]
      exact (Nat.zero_add _).le
    case ordered =>
      rw [hall]
    case complete =>
      intro _ _
      rw [hall]

/-- Where the `int` is zero the bytes that were written are asked for again. -/
theorem exact_iff_of_zero (hsize : 0 < size) (hpos : 1 ≤ written.toInt)
    (hle : written.toInt ≤ size.toNat) (hlow : written.toInt % 2 ^ 32 = 0)
    (hanswers : Answers (put size (written :: rets)).requests (written :: rets)) :
    PutExact size (written :: rets) ↔ ∀ ret ∈ rets.head?, ret = -1 := by
  have hret := narrow_low (by omega : written.toInt % 2 ^ 32 < 2 ^ 31)
  have hnonneg : ¬ written.toInt32 < 0 := narrow_nonneg (by omega)
  have hput := putLoop_more rets hsize hnonneg
  have hsame : (0 : UInt64) + UInt64.ofInt 0 = 0 := by decide
  rw [hret, hlow, hsame, UInt64.toNat_zero, ← List.range_eq_range'] at hput
  change put size (written :: rets) = _ at hput
  have hprefix : List.range written.toInt.toNat <+: List.range size.toNat :=
    range_prefix (by omega)
  have hinside : ∀ request ∈ [⟨0, size⟩, (⟨0, size⟩ : Request)],
      request.offset.toNat + request.size.toNat ≤ size.toNat := by
    intro request hmem
    have hfirst : request = ⟨0, size⟩ := by simpa using hmem
    rw [hfirst]
    exact (Nat.zero_add _).le
  cases rets with
  | nil =>
    rw [putLoop_wait hsize] at hput
    dsimp only at hput
    rw [List.append_nil] at hput
    refine ⟨fun _ => nofun, fun _ => ?_⟩
    constructor
    all_goals rw [hput]
    case inside => exact hinside
    case ordered => exact hprefix
    case complete => exact nofun
  | cons ret rets =>
    by_cases hfail : ret = -1
    · subst hfail
      rw [putLoop_fail hsize (by decide)] at hput
      have hnone : List.range' (0 : UInt64).toNat (-1 : Int64).toInt.toNat = [] := rfl
      dsimp only at hput
      rw [hnone, List.append_nil] at hput
      refine ⟨fun _ ret hmem => (Option.mem_some.mp hmem).symm, fun _ => ?_⟩
      constructor
      all_goals rw [hput]
      case inside => exact hinside
      case ordered => exact hprefix
      case complete =>
        exact fun _ hnone => absurd (List.mem_cons_of_mem _ List.mem_cons_self) hnone
    · obtain ⟨requests, more, hrequests, hwritten⟩ := putLoop_first ret rets hsize
      rw [hrequests, hwritten] at hput
      rw [hput] at hanswers
      have hret : 1 ≤ ret.toInt := ((hanswers (⟨0, size⟩, ret)
        (List.mem_cons_of_mem _ List.mem_cons_self)).resolve_left hfail).1
      constructor
      · intro hexact
        -- the first byte is written a second time
        have honce := hexact.ordered.sublist.nodup List.nodup_range
        rw [hput] at honce
        have hfirst : 0 ∈ List.range written.toInt.toNat := List.mem_range.mpr (by omega)
        have hagain : 0 ∈ List.range' (0 : UInt64).toNat ret.toInt.toNat ++ more := by
          apply List.mem_append_left
          rw [UInt64.toNat_zero, ← List.range_eq_range', List.mem_range]
          omega
        exact absurd rfl ((List.nodup_append.mp honce).2.2 0 hfirst 0 hagain)
      · intro hnone
        exact absurd (hnone ret rfl) hfail

theorem exact_iff_of_pos (hsize : 0 < size) (hpos : 1 ≤ written.toInt)
    (hle : written.toInt ≤ size.toNat) (hlow : 1 ≤ written.toInt % 2 ^ 32)
    (hhigh : written.toInt % 2 ^ 32 < 2 ^ 31) :
    PutExact size (written :: rets) ↔ written.toInt = size.toNat ∧ size.toNat < 2 ^ 31 := by
  have hput := putLoop_more rets hsize (narrow_nonneg hhigh)
  rw [narrow_low hhigh, UInt64.zero_add] at hput
  have hoffset : (UInt64.ofInt (written.toInt % 2 ^ 32)).toNat =
      (written.toInt % 2 ^ 32).toNat := by
    rw [UInt64.ofInt, UInt64.toNat_ofNat']
    omega
  change put size (written :: rets) = _ at hput
  constructor
  · intro hexact
    by_contra hcond
    have hmore : UInt64.ofInt (written.toInt % 2 ^ 32) < size := by
      rw [UInt64.lt_iff_toNat_lt, hoffset]
      omega
    have hinside := hexact.inside ⟨UInt64.ofInt (written.toInt % 2 ^ 32), size⟩ (by
      rw [hput]
      exact List.mem_cons_of_mem _ (mem_requests hmore))
    dsimp only at hinside
    omega
  · rintro ⟨heq, hsmall⟩
    have hend : ¬ UInt64.ofInt (written.toInt % 2 ^ 32) < size := by
      rw [UInt64.lt_iff_toNat_lt, hoffset]
      omega
    have hall : written.toInt.toNat = size.toNat := by omega
    rw [putLoop_end hend] at hput
    dsimp only at hput
    rw [hall, UInt64.toNat_zero, ← List.range_eq_range', List.append_nil] at hput
    constructor
    all_goals rw [hput]
    case inside =>
      intro request hmem
      rw [List.mem_singleton.mp hmem]
      exact (Nat.zero_add _).le
    case complete => exact fun _ _ => rfl

end First

/-- A single byte is either written or lost. The serial port sends no more at a time. -/
theorem exact_of_one (rets : List Int64) (hanswers : Answers (put 1 rets).requests rets) :
    PutExact 1 rets := by
  have hsize : (0 : UInt64) < 1 := by decide
  cases rets with
  | nil => exact exact_of_waiting hsize
  | cons written rets =>
    by_cases hfail : written = -1
    · subst hfail
      exact exact_of_failed hsize
    obtain ⟨hpos, hle⟩ := first_answer hsize hanswers hfail
    rw [UInt64.toNat_one] at hle
    exact (exact_iff_of_pos hsize hpos (by rw [UInt64.toNat_one]; exact hle) (by omega)
      (by omega)).mpr ⟨by rw [UInt64.toNat_one]; omega, by decide⟩

/-- Whatever `write` does, the buffer is written once and in order, and nothing outside is
asked for, exactly when the first `write` decides. -/
theorem put_exact_iff (size : UInt64) (rets : List Int64)
    (hanswers : Answers (put size rets).requests rets) :
    PutExact size rets ↔ AtOnce size rets := by
  by_cases hempty : size = 0
  · subst hempty
    exact ⟨fun _ => Or.inl rfl, fun _ => exact_of_empty rets⟩
  have hsize : 0 < size := by
    rw [UInt64.lt_iff_toNat_lt]
    exact Nat.pos_of_ne_zero fun h => hempty (UInt64.toNat_inj.mp h)
  unfold AtOnce
  rw [or_iff_right hempty]
  cases rets with
  | nil => exact ⟨fun _ => trivial, fun _ => exact_of_waiting hsize⟩
  | cons written rets =>
    dsimp only
    by_cases hfail : written = -1
    · subst hfail
      exact ⟨fun _ => Or.inl rfl, fun _ => exact_of_failed hsize⟩
    obtain ⟨hpos, hle⟩ := first_answer hsize hanswers hfail
    rw [or_iff_right hfail]
    by_cases hzero : written.toInt % 2 ^ 32 = 0
    · rw [exact_iff_of_zero hsize hpos hle hzero hanswers]
      constructor
      · exact fun hnext => Or.inr ⟨hzero, hnext⟩
      · rintro (⟨heq, hcount⟩ | hnext)
        · omega
        · exact hnext.2
    · by_cases hneg : 2 ^ 31 ≤ written.toInt % 2 ^ 32
      · rw [exact_iff_of_neg hsize hpos hle hneg]
        omega
      · rw [exact_iff_of_pos hsize hpos hle (by omega) (by omega)]
        omega

theorem two_at_once : PutExact 2 [2] :=
  (put_exact_iff 2 [2] (by unfold Answers; decide)).mpr
    (Or.inr (Or.inr (Or.inl ⟨rfl, Or.inl (by decide)⟩)))

/-- After one of two bytes the second `write` is asked for the byte behind the buffer. -/
theorem short_write_overruns : ¬ ∀ (size : UInt64) (rets : List Int64),
    Answers (put size rets).requests rets → PutExact size rets := by
  intro h
  have hexact := h 2 [1, 1] (by unfold Answers; decide)
  exact absurd (hexact.inside ⟨1, 2⟩ (by decide)) (by decide)

end Kthxvm.Terminal
