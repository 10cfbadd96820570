import Kthxvm.Lib.Progress
import Kthxvm.Virtio.NetBuffers

/-! How many moves the threads of `net` need for the chains that they were given. -/
namespace Kthxvm.Virtio

open Lib.ByteMemory Lib.ScatterGather Lib.Transition

namespace Queue

variable {q : Queue} {m : Memory} {i : UInt16} {ds : List Descriptor}

theorem Chain.pos (h : q.Chain m i ds) : 0 < ds.length := by
  cases ds with
  | nil => exact h.elim
  | cons d ds => exact Nat.succ_pos _

theorem Chain.tail (h : q.Chain m i ds) (hnext : (q.entry m i).hasNext = true) :
    ∃ es, q.Chain m (q.entry m i).next es ∧ ds.length = es.length + 1 := by
  cases ds with
  | nil => exact h.elim
  | cons d ds =>
    obtain ⟨-, hd, hrest⟩ := h
    rw [hd] at hnext ⊢
    cases ds with
    | nil =>
      change d.hasNext = false at hrest
      rw [hnext] at hrest
      contradiction
    | cons e ds => exact ⟨e :: ds, hrest.2, rfl⟩

end Queue

namespace Net

def Act.turn : Act → Nat
  | .publish _ | .timeout => 0
  | _ => 1

/-- A poll that finds nothing to read undoes the call of `next` before it. -/
def Act.lost : Act → Nat
  | .timeout => 1
  | _ => 0

theorem Act.turn_of_device {act : Act} (h : act.ofDevice) (hne : act ≠ .timeout) :
    act.turn = 1 ∧ act.lost = 0 := by
  cases act with
  | publish => exact h.elim
  | timeout => exact absurd rfl hne
  | next | receive | availId | copy | write | addUsed => exact ⟨rfl, rfl⟩

namespace Side

variable {α : Type} {taboo : List Span} {s s' : Side α} {g g' : Guest} {m : Memory}
  {goal n : Nat}

def callLength (s : Side α) : Nat := s.queue.size.toNat + 5

def Left (s : Side α) (g : Guest) : Position α → Nat → Prop
  | .idle, r => r = s.callLength
  | .taken _, r => r = s.queue.size.toNat + 4
  | .filled _ _, r => r = s.queue.size.toNat + 3
  | .copying _ _ next _, r => ∃ left, s.queue.Chain g.bytes next left ∧ r = left.length + 2
  | .gathered _ _, r => r = 2
  | .copied _ _, r => r = 1

/-- At most `n` moves are missing until `goal` chains are completed. -/
structure Behind (s : Side α) (g : Guest) (goal n : Nat) : Prop where
  wanted : goal ≤ s.published.length
  missing : s.used.length < goal
  left : ∃ r, s.Left g s.position r ∧ n = (goal - (s.used.length + 1)) * s.callLength + r

theorem Left.pos {position : Position α} {r : Nat} (h : s.Left g position r) : 0 < r := by
  cases position with
  | idle => exact (show r = s.queue.size.toNat + 5 from h) ▸ Nat.succ_pos _
  | taken | filled | gathered | copied => exact h ▸ Nat.succ_pos _
  | copying =>
    obtain ⟨left, -, rfl⟩ := h
    exact Nat.succ_pos _

theorem Behind.pos (h : s.Behind g goal n) : 0 < n := by
  obtain ⟨r, hleft, rfl⟩ := h.left
  exact Nat.lt_of_lt_of_le hleft.pos (Nat.le_add_left _ _)

theorem Behind.moved (h : s.Behind g goal n) (hsize : s'.queue.size = s.queue.size)
    (hused : s'.used = s.used) (hpublished : s.published.length ≤ s'.published.length)
    {turn lost : Nat} (hleft : ∀ r, s.Left g s.position r →
      ∃ r', s'.Left g' s'.position r' ∧ r' + turn ≤ r + lost) :
    ∃ n', s'.Behind g' goal n' ∧ n' + turn ≤ n + lost := by
  obtain ⟨r, hr, rfl⟩ := h.left
  obtain ⟨r', hr', hle⟩ := hleft r hr
  refine ⟨_, ⟨h.wanted.trans hpublished, hused ▸ h.missing, r', hr', rfl⟩, ?_⟩
  rw [hused]
  unfold callLength
  rw [hsize]
  omega

theorem Behind.ended (h : s.Behind g goal n) (hsize : s'.queue.size = s.queue.size)
    (hused : s'.used.length = s.used.length + 1)
    (hpublished : s.published.length ≤ s'.published.length) (hidle : s'.position = .idle) :
    goal ≤ s'.used.length ∨ ∃ n', s'.Behind g' goal n' ∧ n' + 1 ≤ n := by
  by_cases hdone : goal ≤ s'.used.length
  · exact Or.inl hdone
  · right
    have hlength : s'.callLength = s.callLength := congrArg (·.toNat + 5) hsize
    obtain ⟨r, hr, rfl⟩ := h.left
    have hpos := hr.pos
    refine ⟨_, ⟨h.wanted.trans hpublished, by omega, s'.callLength, ?_, rfl⟩, ?_⟩
    · rw [hidle]
      rfl
    · rw [hlength, hused]
      have hone : goal - (s.used.length + 1) = goal - (s.used.length + 1 + 1) + 1 := by omega
      rw [hone, Nat.add_mul, Nat.one_mul]
      omega

section Inv

variable (h : s.Inv taboo g)

include h

theorem Inv.left_keep (hkeep : s.Keeps g.bytes m) {r : Nat} (hleft : s.Left g s.position r) :
    s.Left ⟨m, g.size⟩ s.position r := by
  have hstands := h.stands
  revert hstands hleft
  generalize s.position = position
  cases position with
  | idle | taken | filled | gathered | copied => exact fun hleft _ => hleft
  | copying =>
    rintro ⟨left, hchain, hr⟩ ⟨head, ds, rest, hhold, -, hds, hrest, hsuffix, -⟩
    have hentries := hkeep.entries _ _ _ ⟨le_rfl, hhold.first⟩ hds
    rw [hchain.unique hrest.chain] at hr
    exact ⟨rest, hrest.chain.of_entries fun j hj => hentries j (hsuffix.subset hj), hr⟩

theorem Inv.behind_keep (hkeep : s.Keeps g.bytes m) (hbehind : s.Behind g goal n) :
    s.Behind ⟨m, g.size⟩ goal n where
  wanted := hbehind.wanted
  missing := hbehind.missing
  left := by
    obtain ⟨r, hr, hn⟩ := hbehind.left
    exact ⟨r, h.left_keep hkeep hr, hn⟩

theorem Inv.left_le : ∃ r, s.Left g s.position r ∧ r ≤ s.callLength := by
  have hstands := h.stands
  revert hstands
  unfold callLength
  generalize s.position = position
  cases position with
  | idle | taken | filled | gathered | copied => exact fun _ => ⟨_, rfl, by
      first
        | exact le_refl _
        | omega⟩
  | copying =>
    rintro ⟨-, -, left, -, -, -, hleft, -, -⟩
    have hshort := hleft.chain.length_le
    exact ⟨_, ⟨left, hleft.chain, rfl⟩, by omega⟩

theorem Inv.behind (hgoal : goal ≤ s.published.length) (hmissing : s.used.length < goal) :
    ∃ n, s.Behind g goal n ∧ n ≤ (goal - s.used.length) * s.callLength := by
  obtain ⟨r, hr, hle⟩ := h.left_le
  refine ⟨_, ⟨hgoal, hmissing, r, hr, rfl⟩, ?_⟩
  have hone : goal - s.used.length = goal - (s.used.length + 1) + 1 := by omega
  rw [hone, Nat.add_mul, Nat.one_mul]
  omega

theorem Inv.next_some (hidle : s.position = .idle) (hbehind : s.Behind g goal n)
    {taken : Option UInt16} {q : Queue} (hn : s.queue.next g = .ok (taken, q)) :
    q.size = s.queue.size ∧ ∃ next, taken = some next := by
  have hlt := hbehind.missing.trans_le hbehind.wanted
  rw [h.next_eq hidle, List.getElem?_eq_getElem hlt] at hn
  cases hn
  exact ⟨rfl, _, rfl⟩

theorem Inv.chain_of_holding {head : UInt16} (hhold : s.Holding head) :
    ∃ ds, s.queue.Chain g.bytes head ds ∧ ds.length ≤ s.queue.size.toNat := by
  obtain ⟨ds, hds⟩ := h.offered _ _ ⟨le_rfl, hhold.first⟩
  exact ⟨ds, hds.chain, hds.chain.length_le⟩

theorem Inv.table_publish : AgreeOn s.queue.tableSpan g.bytes (s.publishIdx g).bytes :=
  (AgreeOn.refl _ _).store16 (h.table_avail.mono (Span.Within.refl _)
    (Queue.availIdx_within h.placed.size_pos))

theorem Inv.left_publish {r : Nat} (hleft : s.Left g s.position r) (head : UInt16) :
    (s.afterPublish head).Left (s.publishIdx g) s.position r := by
  revert hleft
  generalize s.position = position
  cases position with
  | idle | taken | filled | gathered | copied => exact id
  | copying =>
    rintro ⟨left, hchain, hr⟩
    exact ⟨left, hchain.congr h.table_publish, hr⟩

theorem Inv.behind_publish (hbehind : s.Behind g goal n) (head : UInt16) :
    (s.afterPublish head).Behind (s.publishIdx g) goal n where
  wanted := hbehind.wanted.trans (List.prefix_append _ _).length_le
  missing := hbehind.missing
  left := by
    obtain ⟨r, hr, hn⟩ := hbehind.left
    exact ⟨r, h.left_publish hr head, hn⟩

theorem Inv.behind_availId (hbehind : s.Behind g goal n) {next : UInt16} {told : α}
    (hfilled : s.position = .filled next told) (descStart : UInt32) :
    ∃ n', Behind { s with position := .copying told descStart next 0 } g goal n' ∧ n' + 1 ≤ n := by
  have hstands := h.stands
  rw [hfilled] at hstands
  obtain ⟨ds, hchain, hshort⟩ := h.chain_of_holding hstands
  obtain ⟨r, hr, rfl⟩ := hbehind.left
  rw [hfilled] at hr
  change r = s.queue.size.toNat + 3 at hr
  refine ⟨_, ⟨hbehind.wanted, hbehind.missing, ds.length + 2, ⟨ds, hchain, rfl⟩, rfl⟩, ?_⟩
  change (goal - (s.used.length + 1)) * s.callLength + (ds.length + 2) + 1 ≤ _
  omega

end Inv

end Side

section Steps

variable {taboo : List Span} {g g' : Guest} {act : Act} {goal n : Nat}

open Side

theorem TxStep.behind {s s' : Side Unit} (hs : TxStep taboo s g act s' g') (h : s.Inv taboo g)
    (hbehind : s.Behind g goal n) :
    goal ≤ s'.used.length ∨ ∃ n', s'.Behind g' goal n' ∧ n' + act.turn ≤ n + act.lost := by
  cases hs with
  | @publish head => exact Or.inr ⟨n, h.behind_publish hbehind head, le_refl n⟩
  | @next taken q hidle hn =>
    obtain ⟨hsize, next, rfl⟩ := h.next_some hidle hbehind hn
    right
    apply hbehind.moved
    case hsize => exact hsize
    case hused => rfl
    case hpublished => exact le_refl _
    case hleft =>
      intro r hr
      rw [hidle] at hr
      change r = s.queue.size.toNat + 5 at hr
      refine ⟨_, rfl, ?_⟩
      change q.size.toNat + 3 + 1 ≤ r
      rw [hsize]
      omega
  | availId hfilled => exact Or.inr (h.behind_availId hbehind hfilled _)
  | @copy descStart written written' next next' buffer hcopying hiterate =>
    obtain ⟨-, -, hnext⟩ := txIterate_eq_ok hiterate
    right
    apply hbehind.moved
    case hsize | hused => rfl
    case hpublished => exact le_refl _
    case hleft =>
      intro r hr
      rw [hcopying] at hr
      obtain ⟨left, hchain, rfl⟩ := hr
      have hpos := hchain.pos
      by_cases hmore : (s.queue.entry g.bytes next).hasNext = true
      · obtain ⟨rest, hrest, hlen⟩ := hchain.tail hmore
        rw [hnext, if_pos hmore]
        exact ⟨_, ⟨rest, hrest, rfl⟩, show rest.length + 2 + 1 ≤ left.length + 2 by omega⟩
      · rw [hnext, if_neg hmore]
        exact ⟨2, rfl, show 2 + 1 ≤ left.length + 2 by omega⟩
  | write hgathered =>
    right
    apply hbehind.moved
    case hsize | hused => rfl
    case hpublished => exact le_refl _
    case hleft =>
      intro r hr
      rw [hgathered] at hr
      change r = 2 at hr
      exact ⟨1, rfl, show 1 + 1 ≤ r by omega⟩
  | addUsed => exact hbehind.ended rfl List.length_append (le_refl _) rfl

/-- Every move of the receive thread counts but a poll that finds nothing. -/
theorem RxStep.behind {s s' : Side Int} (hs : RxStep taboo s g act s' g') (h : s.Inv taboo g)
    (hbehind : s.Behind g goal n) :
    goal ≤ s'.used.length ∨ ∃ n', s'.Behind g' goal n' ∧ n' + act.turn ≤ n + act.lost := by
  have hstands := h.stands
  cases hs with
  | @publish head => exact Or.inr ⟨n, h.behind_publish hbehind head, le_refl n⟩
  | @next taken q hidle hn =>
    obtain ⟨hsize, next, rfl⟩ := h.next_some hidle hbehind hn
    right
    apply hbehind.moved
    case hsize => exact hsize
    case hused => rfl
    case hpublished => exact le_refl _
    case hleft =>
      intro r hr
      rw [hidle] at hr
      change r = s.queue.size.toNat + 5 at hr
      refine ⟨_, rfl, ?_⟩
      change q.size.toNat + 4 + 1 ≤ r
      rw [hsize]
      omega
  | timeout htaken =>
    right
    apply hbehind.moved
    case hsize | hused => rfl
    case hpublished => exact le_refl _
    case hleft =>
      intro r hr
      rw [htaken] at hr
      change r = s.queue.size.toNat + 4 at hr
      exact ⟨_, rfl, show s.queue.size.toNat + 5 ≤ r + 1 by omega⟩
  | receive htaken =>
    right
    apply hbehind.moved
    case hsize | hused => rfl
    case hpublished => exact le_refl _
    case hleft =>
      intro r hr
      rw [htaken] at hr
      change r = s.queue.size.toNat + 4 at hr
      exact ⟨_, rfl, show s.queue.size.toNat + 3 + 1 ≤ r by omega⟩
  | availId hfilled => exact Or.inr (h.behind_availId hbehind hfilled _)
  | @copy size descStart len len' next next' _ hcopying hiterate =>
    rw [hcopying] at hstands
    obtain ⟨m, _, _, hok, hagree, -⟩ := h.rxIterate_ok hstands size
    rw [hok] at hiterate
    cases hiterate
    obtain ⟨-, -, hnext⟩ := rxIterate_eq_ok hok
    have htable := hagree _ (h.mine _ List.mem_cons_self)
    right
    apply hbehind.moved
    case hsize | hused => rfl
    case hpublished => exact le_refl _
    case hleft =>
      intro r hr
      rw [hcopying] at hr
      obtain ⟨left, hchain, rfl⟩ := hr
      have hpos := hchain.pos
      have hkept := hchain.congr htable
      by_cases hfull : (len'.toNat : Int) = size
      · rw [hnext, if_pos hfull]
        exact ⟨1, rfl, show 1 + 1 ≤ left.length + 2 by omega⟩
      · rw [hnext, if_neg hfull]
        by_cases hmore : (s.queue.entry m next).hasNext = true
        · obtain ⟨rest, hrest, hlen⟩ := hkept.tail hmore
          rw [if_pos hmore]
          exact ⟨_, ⟨rest, hrest, rfl⟩, show rest.length + 2 + 1 ≤ left.length + 2 by omega⟩
        · rw [if_neg hmore]
          exact ⟨1, rfl, show 1 + 1 ≤ left.length + 2 by omega⟩
  | addUsed => exact hbehind.ended rfl List.length_append (le_refl _) rfl

end Steps

end Net

end Kthxvm.Virtio
