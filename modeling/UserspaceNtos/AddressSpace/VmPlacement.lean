import UserspaceNtos.AddressSpace.VmInvariant

/-!
# Where an allocation is placed

`find_free_between` goes from candidate to candidate past the extents in the way.  No base that
it skips is admissible (`FreeAt.candidateBehind`, `FreeAt.lowestConflict`), so what it finds is
the lowest, or from the top the highest, admissible base, and it finds one if there is one.
-/

namespace UserspaceNtos.AddressSpace

open List

namespace VmRegionMap

variable {N size lowerBound upperBound candidate base stop value next : ℕ} {m : VmRegionMap N}

/-- At a base on the granularity `size` free bytes lie between the bounds. -/
structure FreeAt (m : VmRegionMap N) (size lowerBound upperBound base : ℕ) : Prop where
  window : lowerBound < upperBound
  granular : allocationGranularity ∣ base
  lower_le : lowerBound ≤ base
  le_upper : base + size ≤ upperBound
  fits : base + size < 2 ^ 64
  free : m.overlaps base (base + size) = false

/-- The search has found the best of the admissible bases, or in a 64-bit window there is none. -/
def Selects (m : VmRegionMap N) (size lowerBound upperBound : ℕ) (best : Set ℕ → ℕ → Prop) :
    Option ℕ → Prop
  | some base => best {base | m.FreeAt size lowerBound upperBound base} base
  | none => upperBound < 2 ^ 64 → ∀ base, ¬ m.FreeAt size lowerBound upperBound base

theorem overlaps_eq_false_iff :
    m.overlaps base stop = false ↔ ∀ e ∈ m.extents.occupied, stop ≤ e.base ∨ e.stop ≤ base := by
  simp only [overlaps, any_eq_false, meets, Bool.and_eq_true, decide_eq_true_eq, not_and_or, not_lt,
    or_comm]

/-- A nonempty range overlaps no extent if all its addresses are free. -/
theorem overlaps_eq_false_iff_free (h : ExtentMap.Separated m.extents.occupied)
    (hlt : base < stop) :
    m.overlaps base stop = false ↔ ∀ a, base ≤ a ∧ a < stop → m.tagAt a = none := by
  simp only [overlaps_eq_false_iff, tagAt, ExtentMap.tagAt_eq_none_iff, Extent.Holds]
  refine ⟨fun hfree a ha e he => ?_, fun hfree e he => ?_⟩
  · have := hfree e he
    omega
  · have hpos := h.nonempty e he
    have := fun ha => hfree (max base e.base) ha e he
    rw [Extent.stop] at *
    omega

theorem dvd_of_alignUp (h : alignUp value allocationGranularity = some next) :
    allocationGranularity ∣ next := by
  obtain ⟨sum, -, rfl⟩ := Option.map_eq_some_iff.mp h
  exact Nat.dvd_mul_left _ _

namespace FreeAt

variable (h : m.FreeAt size lowerBound upperBound base)
include h

/-- Aligning up does not skip an admissible base. -/
theorem alignUp_le (hle : value ≤ base) :
    ∃ next, alignUp value allocationGranularity = some next ∧ next ≤ base := by
  have hfits := h.fits
  obtain ⟨k, rfl⟩ := h.granular
  have hsum : value + (allocationGranularity - 1) < 2 ^ 64 := by
    simp only [allocationGranularity] at *
    omega
  rw [alignUp, checkedAdd, if_pos hsum]
  refine ⟨_, rfl, ?_⟩
  simp only [alignDown, allocationGranularity] at *
  omega

theorem le_alignDown (hle : base ≤ value) : base ≤ alignDown value allocationGranularity := by
  obtain ⟨k, rfl⟩ := h.granular
  simp only [alignDown, allocationGranularity] at *
  omega

/-- From the bottom: an admissible base is not before the next candidate. -/
theorem candidateBehind {behind : Option ℕ} (hle : candidate ≤ base)
    (hbehind : m.candidateBehind candidate (candidate + size) = some behind) :
    ∃ next, behind = some next ∧ next ≤ base := by
  obtain ⟨e, hfind, rfl⟩ := Option.map_eq_some_iff.mp hbehind
  have hfree := overlaps_eq_false_iff.mp h.free e (mem_of_find?_eq_some hfind)
  have hmeets := find?_some hfind
  simp only [meets, Bool.and_eq_true, decide_eq_true_eq] at hmeets
  exact h.alignUp_le (by omega)

/-- From the top: an admissible range ends before every extent in the way. -/
theorem lowestConflict {conflict : ℕ} (hle : base ≤ candidate)
    (hconflict : m.lowestConflict candidate (candidate + size) = some conflict) :
    base + size ≤ conflict := by
  obtain ⟨e, he, rfl⟩ := mem_map.mp (min?_mem hconflict)
  obtain ⟨he, hmeets⟩ := mem_filter.mp he
  have hfree := overlaps_eq_false_iff.mp h.free e he
  simp only [meets, Bool.and_eq_true, decide_eq_true_eq] at hmeets
  omega

end FreeAt

theorem findBottomUp_spec (hwindow : lowerBound < upperBound)
    (haligned : allocationGranularity ∣ candidate) (hlower : lowerBound ≤ candidate)
    (hskip : ∀ base, m.FreeAt size lowerBound upperBound base → candidate ≤ base) :
    m.Selects size lowerBound upperBound IsLeast (m.findBottomUp size upperBound candidate) := by
  fun_induction findBottomUp m size upperBound candidate with
  | case1 candidate hfits hpast =>
    intro hbound base hbase
    have := hskip base hbase
    have := hbase.le_upper
    omega
  | case2 candidate hfits hroom hfree =>
    rw [candidateBehind, Option.map_eq_none_iff, find?_eq_none] at hfree
    exact ⟨⟨hwindow, haligned, hlower, not_lt.mp hroom, hfits, any_eq_false.mpr hfree⟩, hskip⟩
  | case3 candidate hfits hroom hbehind =>
    intro hbound base hbase
    obtain ⟨next, hnext, -⟩ := hbase.candidateBehind (hskip base hbase) hbehind
    cases hnext
  | case4 candidate hfits hroom next hbehind hlt ih =>
    obtain ⟨e, -, hnext⟩ := Option.map_eq_some_iff.mp hbehind
    refine ih (dvd_of_alignUp hnext) (hlower.trans hlt.le) fun base hbase => ?_
    obtain ⟨next', hnext', hle⟩ := hbase.candidateBehind (hskip base hbase) hbehind
    cases hnext'
    exact hle
  | case5 candidate hover =>
    intro hbound base hbase
    have := hskip base hbase
    have := hbase.fits
    omega

theorem findTopDown_spec (hwindow : lowerBound < upperBound)
    (haligned : allocationGranularity ∣ candidate) (hupper : candidate + size ≤ upperBound)
    (hskip : ∀ base, m.FreeAt size lowerBound upperBound base → base ≤ candidate) :
    m.Selects size lowerBound upperBound IsGreatest (m.findTopDown size lowerBound candidate) := by
  fun_induction findTopDown m size lowerBound candidate with
  | case1 candidate hbelow =>
    intro hbound base hbase
    have := hskip base hbase
    have := hbase.lower_le
    omega
  | case2 candidate hlower hfits hfree =>
    rw [lowestConflict, min?_eq_none_iff, map_eq_nil_iff, filter_eq_nil_iff] at hfree
    exact ⟨⟨hwindow, haligned, not_lt.mp hlower, hupper, hfits, any_eq_false.mpr hfree⟩, hskip⟩
  | case3 candidate hlower hfits conflict hconflict hbefore hdown hroom ih =>
    refine ih (Nat.dvd_mul_left _ _) (by omega) fun base hbase => hbase.le_alignDown ?_
    have := hbase.lowestConflict (hskip base hbase) hconflict
    omega
  | case4 candidate hlower hfits conflict hconflict _ _ hroom =>
    intro hbound base hbase
    have := hbase.lowestConflict (hskip base hbase) hconflict
    omega
  | case5 candidate hlower hover =>
    intro hbound
    omega

theorem findFreeBetween_spec (m : VmRegionMap N) (size lowerBound upperBound : ℕ) (topDown : Bool) :
    m.Selects size (max lowerBound m.lowerBound) (min upperBound m.upperBound)
      (if topDown then IsGreatest else IsLeast)
      (m.findFreeBetween size lowerBound upperBound topDown) := by
  simp only [findFreeBetween]
  generalize max lowerBound m.lowerBound = lower, min upperBound m.upperBound = upper
  rcases lt_or_ge lower upper with hwindow | hempty
  · rw [if_neg hwindow.not_ge]
    cases topDown with
    | true =>
      simp only [checkedSub]
      by_cases hroom : size ≤ upper
      · rw [if_pos hroom]
        have := alignDown_le (upper - size) allocationGranularity
        refine findTopDown_spec hwindow (Nat.dvd_mul_left _ _) (by omega)
          fun base hbase => hbase.le_alignDown ?_
        have := hbase.le_upper
        omega
      · rw [if_neg hroom]
        intro hbound base hbase
        have := hbase.le_upper
        omega
    | false =>
      cases hbottom : alignUp lower allocationGranularity with
      | none =>
        intro hbound base hbase
        obtain ⟨next, hnext, -⟩ := hbase.alignUp_le hbase.lower_le
        cases hbottom.symm.trans hnext
      | some bottom =>
        refine findBottomUp_spec hwindow (dvd_of_alignUp hbottom)
          (le_of_alignUp allocationGranularity_pos hbottom) fun base hbase => ?_
        obtain ⟨next, hnext, hle⟩ := hbase.alignUp_le hbase.lower_le
        cases hbottom.symm.trans hnext
        exact hle
  · rw [if_pos hempty]
    exact fun hbound base hbase => hempty.not_gt hbase.window

theorem findFreeBetween_dvd {topDown : Bool}
    (h : m.findFreeBetween size lowerBound upperBound topDown = some base) :
    allocationGranularity ∣ base := by
  have hspec := m.findFreeBetween_spec size lowerBound upperBound topDown
  rw [h] at hspec
  cases topDown <;> exact hspec.1.granular

end VmRegionMap

end UserspaceNtos.AddressSpace
