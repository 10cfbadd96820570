import Kthxvm.Boot.ElfExact

/-! What the loader makes of a kernel file that is not all there. Before it looks at the
program headers it throws; a header that it rejects it answers with a number, and bytes
that it cannot read it goes without. -/
namespace Kthxvm.Elf

open Lib.ByteMemory Lib.Disk Lib.WriteLog

def Outcome.Thrown : Outcome → Prop
  | returned _ => False
  | couldNotOpen | notElf | badLength => True

/-- The caller can tell an entry point from a failure. -/
structure Reports (contents : List UInt8) (g : Guest) : Prop where
  throws : ¬ Complete contents →
    ∃ outcome, load g (some { contents := contents }) = .ok (outcome, g) ∧ outcome.Thrown
  returns : ∀ value g', load g (some { contents := contents }) = .ok (.returned value, g') →
    value = UInt64.ofNat (entry contents) ∧ Complete contents ∧
      g.writeAll ((loads contents).map (copy contents)) = .ok g'

variable {contents : List UInt8}

theorem load_not_thrown (hsize : contents.length < 2 ^ 63) {g g' : Guest} {outcome : Outcome}
    (hmagic : contents.take 4 = elfMagic) (hsmall : tableSize contents < 2 ^ 31)
    (h : load g (some { contents := contents }) = .ok (outcome, g')) : ¬ outcome.Thrown := by
  rw [load_eq hsize g hmagic hsmall] at h
  obtain ⟨r, -, h⟩ := bind_eq_ok.mp h
  cases h
  exact id

theorem reports_of_thrown {g : Guest} {outcome : Outcome}
    (h : load g (some { contents := contents }) = .ok (outcome, g)) (hthrown : outcome.Thrown) :
    Reports contents g where
  throws _ := ⟨outcome, h, hthrown⟩
  returns value g' hreturned := by
    rw [h] at hreturned
    cases hreturned
    exact hthrown.elim

/-- A failure is reported exactly when it shows in the file header: for every other file
that is not all there the loader returns, or goes astray. -/
theorem load_reports_iff (hsize : contents.length < 2 ^ 63) (g : Guest) :
    Reports contents g ↔ contents.take 4 ≠ elfMagic ∨ 2 ^ 31 ≤ tableSize contents ∨
      Complete contents := by
  by_cases hmagic : contents.take 4 = elfMagic
  · by_cases hsmall : tableSize contents < 2 ^ 31
    · rw [or_iff_right (not_not.mpr hmagic), or_iff_right (not_le.mpr hsmall)]
      constructor
      · intro hreports
        by_contra hcomplete
        obtain ⟨outcome, hload, hthrown⟩ := hreports.throws hcomplete
        exact load_not_thrown hsize hmagic hsmall hload hthrown
      · intro hcomplete
        refine ⟨fun hnot => absurd hcomplete hnot, fun value g' hreturned => ?_⟩
        rw [load_complete hsize g hmagic hsmall hcomplete] at hreturned
        obtain ⟨g₁, hwrite, hreturned⟩ := bind_eq_ok.mp hreturned
        cases hreturned
        exact ⟨rfl, hcomplete, hwrite⟩
    · have hlarge := not_lt.mp hsmall
      exact ⟨fun _ => Or.inr (Or.inl hlarge), fun _ =>
        reports_of_thrown (load_badLength g hmagic hlarge) trivial⟩
  · exact ⟨fun _ => Or.inl hmagic, fun _ => reports_of_thrown (load_notElf g hmagic) trivial⟩

theorem haltFile_reports : Reports haltFile zeroGuest :=
  (load_reports_iff (by decide) zeroGuest).mpr (Or.inr (Or.inr wellFormed_haltFile.complete))

def overfullFile : List UInt8 :=
  oneSegment 0x100000 phdrSize ⟨ptLoad, 120, 0x100000, 2, 1⟩ [0xf4, 0xf4]

set_option maxRecDepth 4000 in
theorem header_overfullFile :
    header overfullFile 0 = ⟨ptLoad, 120, 0x100000, 2, 1⟩ := by decide

/-- The loader answers a segment that it rejects with an entry point. -/
theorem rejection_is_an_entry : ¬ ∀ (contents : List UInt8) (g : Guest),
    contents.length < 2 ^ 63 → Reports contents g := by
  intro h
  have hcomplete : ¬ Complete overfullFile := by
    intro hcomplete
    have hintact := (hcomplete.headers 0 (by decide)).2 (by rw [header_overfullFile])
    rw [header_overfullFile] at hintact
    exact hintact.2.1 (Or.inl (by decide))
  obtain ⟨outcome, hload, hthrown⟩ := (h overfullFile zeroGuest (by decide)).throws hcomplete
  exact load_not_thrown (by decide) (by decide) (by decide) hload hthrown

end Kthxvm.Elf
