import Kthxvm.Boot.MpTable

/-! A reader of the multiprocessor table, as an operating system looks for it, and how many
processors the table has room for. -/
namespace Kthxvm.MpTable

open Layout Lib.ByteMemory

def baseEnd : UInt64 := 0xA0000

def byteSum (bytes : List UInt8) : Nat := (bytes.map UInt8.toNat).sum

def boundary (i : Nat) : UInt64 := mptableStart + UInt64.ofNat (16 * i)

def IsFloating (m : Memory) (a : UInt64) : Prop :=
  load m a 4 = chars "_MP_" ∧ m (a + 8) = 1 ∧ byteSum (load m a 16) % 256 = 0

instance (m : Memory) (a : UInt64) : Decidable (IsFloating m a) := by
  unfold IsFloating
  infer_instance

def scan (m : Memory) : Option UInt64 :=
  ((List.range ((baseEnd - mptableStart).toNat / 16)).find? fun i =>
    IsFloating m (boundary i)).map boundary

def entrySize (type : UInt8) : Nat := if type = mpProcessor then 20 else 8

def walk : Nat → List UInt8 → Option (List (List UInt8) × List UInt8)
  | 0, bytes => some ([], bytes)
  | n + 1, bytes =>
    let size := entrySize (bytes.headD 0)
    if bytes.length < size then none
    else (walk n (bytes.drop size)).map fun r => (bytes.take size :: r.1, r.2)

/-- The entries of a table whose sum is right and that ends where it says. -/
def decodeTable (m : Memory) (p : UInt64) : Option (List (List UInt8)) :=
  let table := load m p (load16 m (p + 4)).toNat
  if load m p 4 = chars "PCMP" ∧ byteSum table % 256 = 0 then
    match walk (load16 m (p + 34)).toNat (table.drop 44) with
    | some (entries, []) => some entries
    | _ => none
  else none

def decode (m : Memory) : Option (List (List UInt8)) :=
  (scan m).bind fun mpf => decodeTable m (load32 m (mpf + 4)).toUInt64

def ofType (type : UInt8) (entries : List (List UInt8)) : List (List UInt8) :=
  entries.filter fun e => e.headD 0 = type

def apicid (e : List UInt8) : Nat := (e.getD 1 0).toNat

def cpuflag (e : List UInt8) : UInt8 := e.getD 3 0

/-- The entries are those of a machine of `ncpus` processors. -/
structure Describes (entries : List (List UInt8)) (ncpus : Nat) : Prop where
  processors : (ofType mpProcessor entries).map apicid = List.range ncpus
  boot : ∀ e ∈ ofType mpProcessor entries,
    cpuflag e &&& cpuBootprocessor.toUInt8 ≠ 0 ↔ apicid e = 0
  bus : (ofType mpBus entries).length = 1
  ioapic : ∃ e, ofType mpIoapic entries = [e] ∧
    ∀ p ∈ ofType mpProcessor entries, apicid p ≠ apicid e
  lintsrc : (ofType mpLintsrc entries).length = 2

/-! Sums. -/

@[simp] theorem byteSum_append (bs bs' : List UInt8) :
    byteSum (bs ++ bs') = byteSum bs + byteSum bs' := by
  unfold byteSum
  rw [List.map_append, List.sum_append]

theorem toNat_mpfChecksum (mp : List UInt8) : (mpfChecksum mp).toNat = byteSum mp % 256 := by
  have hfold : ∀ sum : UInt32, (mp.foldl (fun sum b => sum + b.toUInt32) sum).toNat =
      (sum.toNat + byteSum mp) % 2 ^ 32 := by
    induction mp with
    | nil =>
      intro sum
      exact (Nat.mod_eq_of_lt sum.toNat_lt).symm
    | cons b mp ih =>
      intro sum
      have hcons : byteSum (b :: mp) = b.toNat + byteSum mp := rfl
      rw [List.foldl_cons, ih, UInt32.toNat_add, hcons, UInt8.toNat_toUInt32]
      omega
  have hmask : (0xFF : UInt32).toNat = 2 ^ 8 - 1 := rfl
  unfold mpfChecksum
  rw [UInt32.toNat_and, hfold, hmask, Nat.and_two_pow_sub_one_eq_mod, UInt32.toNat_zero]
  omega

theorem checksum_cancels (mp : List UInt8) : (byteSum mp + (checksum mp).toNat) % 256 = 0 := by
  have hsum := toNat_mpfChecksum mp
  unfold checksum
  rw [UInt32.toNat_toUInt8, UInt32.toNat_sub, hsum, UInt32.toNat_zero]
  omega

/-! The walk. -/

def Sized (e : List UInt8) : Prop := e.length = entrySize (e.headD 0) ∧ e ≠ []

theorem walk_flatten (entries : List (List UInt8)) (h : ∀ e ∈ entries, Sized e)
    (rest : List UInt8) : walk entries.length (entries.flatten ++ rest) = some (entries, rest) := by
  induction entries with
  | nil => rfl
  | cons e entries ih =>
    obtain ⟨hsize, hne⟩ := h e List.mem_cons_self
    have hrest := ih fun e' he' => h e' (List.mem_cons_of_mem _ he')
    have hhead : (e ++ (entries.flatten ++ rest)).headD 0 = e.headD 0 := by
      obtain ⟨b, bs, rfl⟩ := List.exists_cons_of_ne_nil hne
      rfl
    rw [List.length_cons, List.flatten_cons, List.append_assoc, walk, hhead, ← hsize,
      if_neg (by rw [List.length_append]; omega), List.drop_left, List.take_left, hrest]
    rfl

/-! The entries that are written. -/

def cpus (ncpus : UInt32) : List (List UInt8) :=
  (List.range ncpus.toNat).map fun i => mpcCpu (UInt32.ofNat i) ncpus

def others (ncpus : UInt32) : List (List UInt8) :=
  [mpcBus, mpcIoapic ncpus, mpcIntsrc mpInt 0, mpcIntsrc mpNmi 1]

theorem entries_eq (ncpus : UInt32) :
    entries ncpus = (cpus ncpus ++ others ncpus).flatten := by
  have hothers : (others ncpus).flatten =
      mpcBus ++ mpcIoapic ncpus ++ mpcIntsrc mpInt 0 ++ mpcIntsrc mpNmi 1 := by
    simp [others]
  unfold entries cpus
  rw [List.flatten_append, hothers, ← List.flatMap_def]
  simp only [List.append_assoc]

theorem length_mpcCpu (i ncpus : UInt32) : (mpcCpu i ncpus).length = 20 := by simp [mpcCpu]

theorem sized_mpcCpu (i ncpus : UInt32) : Sized (mpcCpu i ncpus) :=
  ⟨length_mpcCpu i ncpus, List.cons_ne_nil _ _⟩

theorem sized_others {ncpus : UInt32} : ∀ e ∈ others ncpus, Sized e := by
  intro e he
  unfold others at he
  simp only [List.mem_cons, List.not_mem_nil, or_false] at he
  rcases he with rfl | rfl | rfl | rfl
  all_goals
    refine ⟨?_, List.cons_ne_nil _ _⟩
    simp [mpcBus, mpcIoapic, mpcIntsrc, chars, entrySize]
    decide

theorem sized_entries {ncpus : UInt32} : ∀ e ∈ cpus ncpus ++ others ncpus, Sized e := by
  intro e he
  rcases List.mem_append.mp he with hcpu | hother
  · obtain ⟨i, -, rfl⟩ := List.mem_map.mp hcpu
    exact sized_mpcCpu _ _
  · exact sized_others e hother

theorem ofType_cpus {type : UInt8} (ncpus : UInt32) :
    ofType type (cpus ncpus) = if type = mpProcessor then cpus ncpus else [] := by
  have hhead : ∀ e ∈ cpus ncpus, e.headD 0 = mpProcessor := by
    intro e he
    obtain ⟨i, -, rfl⟩ := List.mem_map.mp he
    rfl
  unfold ofType
  split
  next htype =>
    rw [List.filter_eq_self]
    intro e he
    rw [decide_eq_true_eq, hhead e he, htype]
  next htype =>
    rw [List.filter_eq_nil_iff]
    intro e he
    rw [decide_eq_true_eq, hhead e he]
    exact fun h => htype h.symm

theorem ofType_append (type : UInt8) (es es' : List (List UInt8)) :
    ofType type (es ++ es') = ofType type es ++ ofType type es' :=
  List.filter_append _ _

theorem ofType_others_processor (ncpus : UInt32) : ofType mpProcessor (others ncpus) = [] := rfl

theorem apicid_cpus (ncpus : UInt32) (i : Nat) :
    apicid (mpcCpu (UInt32.ofNat i) ncpus) = i % 256 := by
  have hid : apicid (mpcCpu (UInt32.ofNat i) ncpus) = (UInt32.ofNat i).toUInt8.toNat := rfl
  rw [hid, UInt32.toNat_toUInt8, UInt32.toNat_ofNat']
  omega

theorem boot_cpus {ncpus : UInt32} {i : Nat} (hi : i < ncpus.toNat) :
    cpuflag (mpcCpu (UInt32.ofNat i) ncpus) &&& cpuBootprocessor.toUInt8 ≠ 0 ↔ i = 0 := by
  have hn := ncpus.toNat_lt
  have hflag : cpuflag (mpcCpu (UInt32.ofNat i) ncpus) =
      (genCpuFlag (UInt32.ofNat i) ncpus).toUInt8 := rfl
  have hzero : UInt32.ofNat i = 0 ↔ i = 0 := by
    rw [← UInt32.toNat_inj, UInt32.toNat_ofNat', Nat.mod_eq_of_lt (by omega)]
    rfl
  have hlt : UInt32.ofNat i < ncpus := by
    rw [UInt32.lt_iff_toNat_lt, UInt32.toNat_ofNat', Nat.mod_eq_of_lt (by omega)]
    exact hi
  rw [hflag, genCpuFlag, if_pos hlt, ← hzero]
  by_cases hboot : UInt32.ofNat i = 0
  · rw [if_pos hboot]
    exact ⟨fun _ => hboot, fun _ => by decide⟩
  · rw [if_neg hboot]
    exact ⟨fun h => absurd h (by decide), fun h => absurd h hboot⟩

theorem describes_entries {ncpus : UInt32} (hlt : ncpus.toNat + 1 < 256) :
    Describes (cpus ncpus ++ others ncpus) ncpus.toNat := by
  have hprocessors : ofType mpProcessor (cpus ncpus ++ others ncpus) = cpus ncpus := by
    rw [ofType_append, ofType_cpus, if_pos rfl, ofType_others_processor, List.append_nil]
  have hother : ∀ {type}, type ≠ mpProcessor →
      ofType type (cpus ncpus ++ others ncpus) = ofType type (others ncpus) := by
    intro type htype
    rw [ofType_append, ofType_cpus, if_neg htype, List.nil_append]
  constructor
  case processors =>
    have hids : ∀ i ∈ List.range ncpus.toNat,
        (apicid ∘ fun i => mpcCpu (UInt32.ofNat i) ncpus) i = id i := by
      intro i hi
      have hi := List.mem_range.mp hi
      exact (apicid_cpus ncpus i).trans (Nat.mod_eq_of_lt (by omega))
    rw [hprocessors, cpus, List.map_map, List.map_congr_left hids, List.map_id]
  case boot =>
    rw [hprocessors]
    intro e he
    obtain ⟨i, hi, rfl⟩ := List.mem_map.mp he
    have hi := List.mem_range.mp hi
    rw [boot_cpus hi, apicid_cpus, Nat.mod_eq_of_lt (by omega)]
  case bus =>
    rw [hother (by decide)]
    rfl
  case ioapic =>
    refine ⟨mpcIoapic ncpus, ?_, ?_⟩
    · rw [hother (by decide)]
      rfl
    · have hid : apicid (mpcIoapic ncpus) = ncpus.toNat + 1 := by
        have hbyte : apicid (mpcIoapic ncpus) = (ncpus + 1).toUInt8.toNat := rfl
        rw [hbyte, UInt32.toNat_toUInt8, UInt32.toNat_add, UInt32.toNat_one]
        omega
      rw [hprocessors]
      intro p hp
      obtain ⟨i, hi, rfl⟩ := List.mem_map.mp hp
      have hi := List.mem_range.mp hi
      rw [apicid_cpus, hid]
      omega
  case lintsrc =>
    rw [hother (by decide)]
    rfl

/-! Nothing before the floating pointer looks like one: no paragraph begins with the first
character of its signature. -/

/-- In words of four bytes none begins with an underscore. -/
def Plain (bytes : List UInt8) : Prop :=
  4 ∣ bytes.length ∧ ∀ k, bytes[4 * k]? ≠ some 0x5F

theorem Plain.append {bs bs' : List UInt8} (h : Plain bs) (h' : Plain bs') : Plain (bs ++ bs') := by
  obtain ⟨⟨q, hq⟩, hplain⟩ := h
  refine ⟨by rw [List.length_append]; exact Nat.dvd_add ⟨q, hq⟩ h'.1, fun k => ?_⟩
  by_cases hk : 4 * k < bs.length
  · rw [List.getElem?_append_left hk]
    exact hplain k
  · rw [List.getElem?_append_right (by omega)]
    have hoffset : 4 * k - bs.length = 4 * (k - q) := by omega
    rw [hoffset]
    exact h'.2 _

theorem plain_flatten {bss : List (List UInt8)} (h : ∀ bs ∈ bss, Plain bs) : Plain bss.flatten := by
  induction bss with
  | nil => exact ⟨Nat.dvd_zero 4, fun k => by simp⟩
  | cons bs bss ih =>
    rw [List.flatten_cons]
    exact (h bs List.mem_cons_self).append (ih fun bs' hmem => h bs' (List.mem_cons_of_mem _ hmem))

theorem plain_mpcCpu (i ncpus : UInt32) : Plain (mpcCpu i ncpus) := by
  have hlen := length_mpcCpu i ncpus
  refine ⟨by rw [hlen]; decide, fun k => ?_⟩
  by_cases hk : k < 5
  · interval_cases k
    · exact (by decide : some mpProcessor ≠ some 0x5F)
    · exact (by decide : some (UInt8.ofNat 0x600) ≠ some 0x5F)
    · exact (by decide : some (UInt8.ofNat 0x201) ≠ some 0x5F)
    · exact (by decide : some (0 : UInt8) ≠ some 0x5F)
    · exact (by decide : some (0 : UInt8) ≠ some 0x5F)
  · rw [List.getElem?_eq_none (by omega)]
    exact nofun

theorem plain_others (ncpus : UInt32) : ∀ bs ∈ others ncpus, Plain bs := by
  have hwords : ∀ bs : List UInt8, bs.length = 8 → bs[0]? ≠ some 0x5F → bs[4]? ≠ some 0x5F →
      Plain bs := by
    intro bs hlen hfirst hsecond
    refine ⟨by rw [hlen]; decide, fun k => ?_⟩
    by_cases hk : k < 2
    · interval_cases k
      · exact hfirst
      · exact hsecond
    · rw [List.getElem?_eq_none (by omega)]
      exact nofun
  intro bs hbs
  unfold others at hbs
  simp only [List.mem_cons, List.not_mem_nil, or_false] at hbs
  rcases hbs with rfl | rfl | rfl | rfl
  · exact hwords _ (by decide) (by decide) (by decide)
  · exact hwords _ (by simp [mpcIoapic]) (by decide : some mpIoapic ≠ some 0x5F)
      (by decide : some (UInt8.ofNat ioapicAddr.toNat) ≠ some 0x5F)
  · exact hwords _ (by decide) (by decide) (by decide)
  · exact hwords _ (by decide) (by decide) (by decide)

theorem plain_entries (ncpus : UInt32) : Plain (entries ncpus) := by
  rw [entries_eq]
  apply plain_flatten
  intro bs hbs
  rcases List.mem_append.mp hbs with hcpu | hother
  · obtain ⟨i, -, rfl⟩ := List.mem_map.mp hcpu
    exact plain_mpcCpu _ _
  · exact plain_others ncpus bs hother

theorem length_mpcTable (length : UInt16) (sum : UInt8) (oemcount : UInt16) :
    (mpcTable length sum oemcount).length = 44 := by
  simp [mpcTable, chars]

theorem tableLength_eq (ncpus : UInt32) : tableLength ncpus = 20 * ncpus.toNat + 76 := by
  rw [tableLength, length_entries]
  omega

theorem paragraph_mpcTable (length : UInt16) (sum : UInt8) (oemcount : UInt16) {i : Nat}
    (hi : 16 * i < 44) : (mpcTable length sum oemcount)[16 * i]? ≠ some 0x5F := by
  have hlt : i < 3 := by omega
  interval_cases i
  · exact (by decide : some (UInt8.ofNat 0x50) ≠ some 0x5F)
  · exact (by decide : some (UInt8.ofNat 0x30) ≠ some 0x5F)
  · exact (by decide : some (0 : UInt8) ≠ some 0x5F)

theorem paragraph_buffer (ncpus : UInt32) (sum : UInt8) {i : Nat}
    (hi : 16 * i < alignKernel (tableLength ncpus)) :
    (buffer ncpus sum)[16 * i]? ≠ some 0x5F := by
  have hlen := tableLength_eq ncpus
  have hentries := length_entries ncpus
  have hin : 16 * i < tableLength ncpus := by
    unfold alignKernel at hi
    omega
  unfold buffer
  rw [List.append_assoc, List.append_assoc]
  by_cases hheader : 16 * i < 44
  · rw [List.getElem?_append_left (by rw [length_mpcTable]; exact hheader)]
    exact paragraph_mpcTable _ _ _ hheader
  · rw [List.getElem?_append_right (by rw [length_mpcTable]; omega), length_mpcTable,
      List.getElem?_append_left (by omega)]
    have hoffset : 16 * i - 44 = 4 * (4 * i - 11) := by omega
    rw [hoffset]
    exact (plain_entries ncpus).2 _

/-! The memory that the table was copied to. -/

def tableSum (ncpus : UInt32) : UInt8 :=
  checksum ((buffer ncpus 0).take (UInt16.ofNat (tableLength ncpus)).toNat)

/-- The part of the buffer that the checksum covers, as long as its length is a word. -/
def tableOf (ncpus : UInt32) (sum : UInt8) : List UInt8 :=
  mpcTable (UInt16.ofNat (tableLength ncpus)) sum (ncpus + 4).toUInt16 ++ entries ncpus

theorem buffer_eq (ncpus : UInt32) (sum : UInt8) : buffer ncpus sum = tableOf ncpus sum ++
    (List.replicate (alignKernel (tableLength ncpus) - tableLength ncpus) 0 ++
      mpfIntel (checksum (mpfIntel 0))) := by
  unfold buffer tableOf
  rw [List.append_assoc]

theorem length_tableOf (ncpus : UInt32) (sum : UInt8) :
    (tableOf ncpus sum).length = tableLength ncpus := by
  unfold tableOf tableLength
  rw [List.length_append, length_mpcTable]

theorem drop_buffer (ncpus : UInt32) (sum : UInt8) :
    (buffer ncpus sum).drop (alignKernel (tableLength ncpus)) =
      mpfIntel (checksum (mpfIntel 0)) := by
  rw [buffer_eq, ← List.append_assoc]
  apply List.drop_left'
  rw [List.length_append, length_tableOf, List.length_replicate]
  unfold alignKernel
  omega

section Stored

variable {m : Memory} {ncpus : UInt32}

def copied (m : Memory) (ncpus : UInt32) : Memory := store m mptableStart (image ncpus)

variable (hsize : (image ncpus).length ≤ 2 ^ 64)

include hsize

theorem load_copied {k n : Nat} (h : k + n ≤ (image ncpus).length) :
    load (copied m ncpus) (mptableStart + UInt64.ofNat k) n = ((image ncpus).drop k).take n :=
  load_store_part m mptableStart (image ncpus) h hsize

theorem not_floating {i : Nat} (hi : 16 * i < alignKernel (tableLength ncpus)) :
    ¬ IsFloating (copied m ncpus) (boundary i) := by
  intro hfloating
  have hlen := length_image ncpus
  have htable := tableLength_eq ncpus
  have hfirst := congrArg (fun l => l[0]?) hfloating.1
  have hload := load_copied (m := m) hsize (k := 16 * i) (n := 4) (by
    rw [hlen, ← htable]
    unfold alignKernel at hi ⊢
    omega)
  change (load (copied m ncpus) (mptableStart + UInt64.ofNat (16 * i)) 4)[0]? = some 0x5F at hfirst
  rw [hload, List.getElem?_take_of_lt (by decide), List.getElem?_drop, Nat.add_zero] at hfirst
  exact paragraph_buffer ncpus _ hi hfirst

theorem floating_mpf : IsFloating (copied m ncpus)
    (boundary (alignKernel (tableLength ncpus) / 16)) := by
  have hlen := length_image ncpus
  have htable := tableLength_eq ncpus
  have hexact : 16 * (alignKernel (tableLength ncpus) / 16) = alignKernel (tableLength ncpus) := by
    unfold alignKernel
    omega
  have hdrop : (image ncpus).drop (alignKernel (tableLength ncpus)) =
      mpfIntel (checksum (mpfIntel 0)) := drop_buffer ncpus _
  have hload : ∀ n ≤ 16, load (copied m ncpus)
      (boundary (alignKernel (tableLength ncpus) / 16)) n =
        (mpfIntel (checksum (mpfIntel 0))).take n := by
    intro n hn
    unfold boundary
    rw [hexact, load_copied hsize (by rw [hlen, htable]; omega), hdrop]
  refine ⟨hload 4 (by decide), ?_, ?_⟩
  · have hbyte := congrArg (fun l => l[8]?) (hload 16 (le_refl _))
    exact Option.some.inj hbyte
  · rw [hload 16 (le_refl _)]
    decide

theorem physptr_mpf : load32 (copied m ncpus)
    (boundary (alignKernel (tableLength ncpus) / 16) + 4) = mptableStart.toUInt32 := by
  have hlen := length_image ncpus
  have htable := tableLength_eq ncpus
  have haddr : boundary (alignKernel (tableLength ncpus) / 16) + 4 =
      mptableStart + UInt64.ofNat (alignKernel (tableLength ncpus) + 4) := by
    have hexact : 16 * (alignKernel (tableLength ncpus) / 16) =
        alignKernel (tableLength ncpus) := by
      unfold alignKernel
      omega
    unfold boundary
    rw [hexact, UInt64.ofNat_add, UInt64.add_assoc]
    rfl
  have hload : load (copied m ncpus) (mptableStart + UInt64.ofNat
      (alignKernel (tableLength ncpus) + 4)) 4 = bytesOfNat 4 mptableStart.toNat := by
    rw [load_copied hsize (by rw [hlen, htable]; omega), ← List.drop_drop]
    have hdrop : (image ncpus).drop (alignKernel (tableLength ncpus)) =
        mpfIntel (checksum (mpfIntel 0)) := drop_buffer ncpus _
    rw [hdrop]
    decide
  rw [haddr, load32_of_load hload]
  rfl

/-- The table is found where it was put, if the floating pointer is below `0xA0000`. -/
theorem scan_copied : scan (copied m ncpus) = if alignKernel (tableLength ncpus) < 1024 then
    some (boundary (alignKernel (tableLength ncpus) / 16)) else none := by
  have hcount : (baseEnd - mptableStart).toNat / 16 = 64 := by decide
  unfold scan
  rw [hcount]
  split
  next hlt =>
    have hfind : (List.range 64).find? (fun i => IsFloating (copied m ncpus) (boundary i)) =
        some (alignKernel (tableLength ncpus) / 16) := by
      rw [List.find?_range_eq_some]
      refine ⟨decide_eq_true (floating_mpf hsize), List.mem_range.mpr (by omega), fun i hi => ?_⟩
      have hnot := not_floating (m := m) hsize (i := i) (by omega)
      simpa using hnot
    rw [hfind]
    rfl
  next hge =>
    have hfind : (List.range 64).find? (fun i => IsFloating (copied m ncpus) (boundary i)) =
        none := by
      rw [List.find?_range_eq_none]
      intro i hi
      have hnot := not_floating (m := m) hsize (i := i) (by omega)
      simpa using hnot
    rw [hfind]
    rfl

theorem load_front {n : Nat} (h : n ≤ (image ncpus).length) :
    load (copied m ncpus) mptableStart n = (image ncpus).take n := by
  have hload := load_copied (m := m) hsize (k := 0) (n := n) (by omega)
  rwa [List.drop_zero] at hload

theorem fields_copied : load (copied m ncpus) mptableStart 4 = chars "PCMP" ∧
    load16 (copied m ncpus) (mptableStart + 4) = UInt16.ofNat (tableLength ncpus) ∧
    load16 (copied m ncpus) (mptableStart + 34) = (ncpus + 4).toUInt16 := by
  have hlen := length_image ncpus
  have hword : ∀ {a : UInt64} {v : UInt16}, load (copied m ncpus) a 2 = bytesOfNat 2 v.toNat →
      load16 (copied m ncpus) a = v := by
    intro a v h
    rw [load16_of_load h, UInt16.ofNat_toNat]
  have hroom : 44 ≤ (image ncpus).length := by
    rw [hlen]
    unfold alignKernel
    omega
  refine ⟨?_, hword ?_, hword ?_⟩
  · rw [load_front hsize (by omega)]
    rfl
  · exact (load_copied (m := m) hsize (k := 4) (by omega)).trans rfl
  · exact (load_copied (m := m) hsize (k := 34) (by omega)).trans rfl

end Stored

theorem byteSum_tableOf (ncpus : UInt32) (sum : UInt8) :
    byteSum (tableOf ncpus sum) = byteSum (tableOf ncpus 0) + sum.toNat := by
  have hpair : byteSum [4, sum] = byteSum [4, 0] + sum.toNat := by
    simp [byteSum]
  unfold tableOf mpcTable
  simp only [byteSum_append, hpair]
  omega

section Decode

variable {m : Memory} {ncpus : UInt32}

theorem decodeTable_copied (hword : tableLength ncpus < 2 ^ 16) :
    decodeTable (copied m ncpus) mptableStart = some (cpus ncpus ++ others ncpus) := by
  have hlen := length_image ncpus
  have htable := tableLength_eq ncpus
  have hsize : (image ncpus).length ≤ 2 ^ 64 := by
    rw [hlen]
    unfold alignKernel
    omega
  obtain ⟨hsignature, hlength, hcount⟩ := fields_copied (m := m) hsize
  have hlength' : (UInt16.ofNat (tableLength ncpus)).toNat = tableLength ncpus :=
    (UInt16.toNat_ofNat' ..).trans (Nat.mod_eq_of_lt hword)
  have hfront : ∀ sum, (buffer ncpus sum).take (tableLength ncpus) = tableOf ncpus sum := by
    intro sum
    rw [buffer_eq]
    exact List.take_left' (length_tableOf ncpus sum)
  have hload : load (copied m ncpus) mptableStart (tableLength ncpus) =
      tableOf ncpus (tableSum ncpus) := by
    rw [load_front hsize (by rw [hlen, htable]; unfold alignKernel; omega)]
    exact hfront _
  have hsum : byteSum (tableOf ncpus (tableSum ncpus)) % 256 = 0 := by
    rw [byteSum_tableOf]
    unfold tableSum
    rw [hlength', hfront]
    exact checksum_cancels _
  have hentries : (cpus ncpus ++ others ncpus).length = (ncpus + 4).toUInt16.toNat := by
    have hfour : (4 : UInt32).toNat = 4 := rfl
    have hothers : (others ncpus).length = 4 := rfl
    rw [List.length_append, cpus, List.length_map, List.length_range, hothers,
      UInt32.toNat_toUInt16, UInt32.toNat_add, hfour]
    omega
  have hwalk := walk_flatten (cpus ncpus ++ others ncpus) sized_entries []
  rw [List.append_nil, ← entries_eq, hentries] at hwalk
  have hdrop : (tableOf ncpus (tableSum ncpus)).drop 44 = entries ncpus :=
    List.drop_left' (length_mpcTable _ _ _)
  unfold decodeTable
  rw [hlength, hcount, hlength', hload]
  dsimp only
  rw [if_pos ⟨hsignature, hsum⟩, hdrop, hwalk]

theorem decode_copied (m : Memory) (hfew : ncpus.toNat ≤ 46) :
    ∃ entries, decode (copied m ncpus) = some entries ∧ Describes entries ncpus.toNat := by
  have hlen := length_image ncpus
  have htable := tableLength_eq ncpus
  have hsize : (image ncpus).length ≤ 2 ^ 64 := by
    rw [hlen]
    unfold alignKernel
    omega
  have hscan := scan_copied (m := m) hsize
  rw [if_pos (by unfold alignKernel; omega)] at hscan
  have hptr := physptr_mpf (m := m) hsize
  have hwide : mptableStart.toUInt32.toUInt64 = mptableStart := rfl
  refine ⟨_, ?_, describes_entries (by omega)⟩
  rw [decode, hscan, Option.bind_some, hptr, hwide]
  exact decodeTable_copied (by omega)

end Decode

/-- With more processors the floating pointer is above base memory. -/
theorem decode_none {g g' : Guest} {ncpus : UInt32} (hmany : 46 < ncpus.toNat)
    (hsetup : setupMptable g ncpus = .ok g') : decode g'.bytes = none := by
  have hlen := length_image ncpus
  have htable := tableLength_eq ncpus
  have hmax : mptableMaxSize = 33554432 := rfl
  unfold setupMptable at hsetup
  split at hsetup
  next hfits =>
    have hbytes : g'.bytes = copied g.bytes ncpus := by rw [Guest.write_eq_ok hsetup, copied]
    have hsize : (image ncpus).length ≤ 2 ^ 64 := by omega
    have hnone := scan_copied (m := g.bytes) hsize
    rw [if_neg (by unfold alignKernel; omega)] at hnone
    rw [hbytes, decode, hnone]
    rfl
  next => exact nomatch hsetup

/-- A reader finds a table that describes the machine exactly up to 46 processors: behind
that many the floating pointer is above base memory. -/
theorem table_read_iff (g : Guest) (ncpus : UInt32) (hpos : 1 ≤ ncpus.toNat)
    (hbase : baseEnd.toNat ≤ g.size) :
    (∃ g' entries, setupMptable g ncpus = .ok g' ∧ decode g'.bytes = some entries ∧
      Describes entries ncpus.toNat) ↔ ncpus.toNat ≤ 46 := by
  have hlen := length_image ncpus
  have htable := tableLength_eq ncpus
  have hmax : mptableMaxSize = 33554432 := rfl
  constructor
  · rintro ⟨g', entries, hsetup, hdecode, -⟩
    by_contra hmany
    rw [decode_none (by omega) hsetup] at hdecode
    exact nomatch hdecode
  · intro hfew
    have hstart : mptableStart.toNat = 0x9fc00 := rfl
    have hbase' : baseEnd.toNat = 0xA0000 := rfl
    have hshort : (image ncpus).length ≤ 1024 := by
      rw [hlen]
      unfold alignKernel
      omega
    have hsetup : setupMptable g ncpus = .ok { g with bytes := copied g.bytes ncpus } :=
      setupMptable_ok (by omega) (by omega)
    obtain ⟨entries, hdecode, hdescribes⟩ := decode_copied g.bytes hfew
    exact ⟨_, entries, hsetup, hdecode, hdescribes⟩

/-- The machine that `main` builds has two processors. -/
theorem two_processors_read : ∃ g' entries,
    setupMptable ⟨fun _ => 0, 0x100000⟩ 2 = .ok g' ∧ decode g'.bytes = some entries ∧
      Describes entries 2 :=
  (table_read_iff ⟨fun _ => 0, 0x100000⟩ 2 (by decide) (by decide)).mpr (by decide)

/-- With one processor more than there is room for the table is not found. -/
theorem table_not_found : ¬ ∀ (g : Guest) (ncpus : UInt32), 1 ≤ ncpus.toNat →
    (image ncpus).length ≤ mptableMaxSize → mptableStart.toNat + (image ncpus).length ≤ g.size →
    ∃ g' entries, setupMptable g ncpus = .ok g' ∧ decode g'.bytes = some entries ∧
      Describes entries ncpus.toNat := by
  intro h
  have hlen := length_image 47
  have hcount : (47 : UInt32).toNat = 47 := rfl
  have halign : alignKernel (20 * 47 + 76) = 1024 := by decide
  rw [hcount, halign] at hlen
  have hmax : mptableMaxSize = 33554432 := rfl
  have hstart : mptableStart.toNat = 0x9fc00 := rfl
  have hroom : mptableStart.toNat + (image 47).length ≤ 0x100000 := by omega
  obtain ⟨g', entries, hsetup, hdecode, -⟩ := h ⟨fun _ => 0, 0x100000⟩ 47 (by decide)
    (by omega) hroom
  have hmany : 46 < (47 : UInt32).toNat := by omega
  rw [decode_none hmany hsetup] at hdecode
  exact nomatch hdecode

end Kthxvm.MpTable
