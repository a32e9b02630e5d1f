import UserspaceNtos.AddressSpace.VmRegionMap

/-!
# Invariants of the region map

The extents are looked at in two ways.  As a list they are nonempty, in order, on page
boundaries and within the bounds of the map (`Shaped`).  As a map from addresses to tags
(`tagAt`) they say which allocation an address belongs to, and the addresses of an
allocation form one range that starts at its base (`Rooted`).  Splitting and joining
extents is a matter of the list only, so each operation is described by what it does
to the map, and `Rooted` is followed through these descriptions.

The overrides are looked up by page (`overrideAt`); each page has at most one, and only
committed pages have one.
-/

namespace UserspaceNtos.AddressSpace

open ExtentMap List Option

theorem pageSize_pos : 0 < pageSize := by norm_num [pageSize]

theorem pageSize_dvd_alignDown (value : ℕ) : pageSize ∣ alignDown value pageSize :=
  Nat.dvd_mul_left _ _

theorem pageSize_dvd_granularity : pageSize ∣ allocationGranularity := by
  norm_num [pageSize, allocationGranularity]

/-- A range of whole pages holds an address if it holds the start of its page. -/
theorem alignDown_mem_iff {base stop a : ℕ} (hbase : pageSize ∣ base) (hstop : pageSize ∣ stop) :
    base ≤ alignDown a pageSize ∧ alignDown a pageSize < stop ↔ base ≤ a ∧ a < stop := by
  rw [alignDown]
  simp only [pageSize] at *
  omega

variable {page : ℕ} {os : List VmProtectionOverride}

theorem alignDown_eq_self (h : pageSize ∣ page) : alignDown page pageSize = page :=
  Nat.div_mul_cancel h

/-! ## The list of extents -/

/-- Nonempty extents in order, on page boundaries and within the bounds. -/
structure Shaped (lower upper : ℕ) (xs : List VmExtent) : Prop where
  separated : Separated xs
  aligned : ∀ e ∈ xs, pageSize ∣ e.base ∧ pageSize ∣ e.stop
  bounded : ∀ e ∈ xs, lower ≤ e.base ∧ e.stop ≤ upper

namespace Shaped

variable {lower upper : ℕ} {xs ys : List VmExtent}

section

variable (h : Shaped lower upper xs)
include h

theorem recut (hrecut : Recut xs ys) : Shaped lower upper ys where
  separated := hrecut.separated h.separated
  aligned y hy := by
    obtain ⟨x, hx, hbase⟩ := hrecut.base_mem y hy
    obtain ⟨x', hx', hstop⟩ := hrecut.stop_mem y hy
    rw [← hbase, ← hstop]
    exact ⟨(h.aligned x hx).1, (h.aligned x' hx').2⟩
  bounded y hy := by
    obtain ⟨x, hx, hbase⟩ := hrecut.base_mem y hy
    obtain ⟨x', hx', hstop⟩ := hrecut.stop_mem y hy
    rw [← hbase, ← hstop]
    exact ⟨(h.bounded x hx).1, (h.bounded x' hx').2⟩

theorem cutAll {lo hi : ℕ} {f : VmTag → Option VmTag} (hlo : pageSize ∣ lo) (hhi : pageSize ∣ hi)
    (hlohi : lo < hi) : Shaped lower upper (cutAll lo hi f xs) where
  separated := h.separated.cutAll hlohi
  aligned p hp := by
    obtain ⟨e, he, hp⟩ := mem_flatMap.mp hp
    obtain ⟨-, -, -, hbase, hstop⟩ := cut_bounds hlohi (h.separated.nonempty e he) hp
    obtain ⟨hebase, hestop⟩ := h.aligned e he
    constructor
    · rcases hbase with heq | heq | heq <;> rw [heq] <;> assumption
    · rcases hstop with heq | heq | heq <;> rw [heq] <;> assumption
  bounded p hp := by
    obtain ⟨e, he, hp⟩ := mem_flatMap.mp hp
    obtain ⟨-, hbase, hstop, -, -⟩ := cut_bounds hlohi (h.separated.nonempty e he) hp
    obtain ⟨hlower, hupper⟩ := h.bounded e he
    omega

/-- The order of the list follows from the ranges not overlapping once it is sorted. -/
theorem of_perm_cons {e : VmExtent} (hperm : ys.Perm (e :: xs))
    (hsorted : ys.Pairwise fun e f => e.base ≤ f.base) (hpos : 0 < e.size)
    (haligned : pageSize ∣ e.base ∧ pageSize ∣ e.stop)
    (hbounded : lower ≤ e.base ∧ e.stop ≤ upper)
    (hfree : ∀ f ∈ xs, e.stop ≤ f.base ∨ f.stop ≤ e.base) : Shaped lower upper ys := by
  have hmem : ∀ f, f ∈ ys → f = e ∨ f ∈ xs := fun f hf => mem_cons.mp (hperm.mem_iff.mp hf)
  refine ⟨separated_of_sorted ?_ hsorted ?_, ?_, ?_⟩
  · rw [hperm.pairwise_iff fun {x y} hxy => Or.symm hxy, pairwise_cons]
    exact ⟨hfree, h.separated.ascending.imp fun hle => Or.inl hle⟩
  · intro f hf
    rcases hmem f hf with rfl | hf
    · exact hpos
    · exact h.separated.nonempty f hf
  · intro f hf
    rcases hmem f hf with rfl | hf
    · exact haligned
    · exact h.aligned f hf
  · intro f hf
    rcases hmem f hf with rfl | hf
    · exact hbounded
    · exact h.bounded f hf

theorem tagAt_alignDown (a : ℕ) : tagAt xs (alignDown a pageSize) = tagAt xs a := by
  have hholds : ∀ e ∈ xs, (e.Holds (alignDown a pageSize) ↔ e.Holds a) := fun e he =>
    alignDown_mem_iff (h.aligned e he).1 (h.aligned e he).2
  apply Option.ext
  intro t
  rw [tagAt_eq_some_iff h.separated, tagAt_eq_some_iff h.separated]
  constructor
  · rintro ⟨e, he, hea, rfl⟩
    exact ⟨e, he, (hholds e he).mp hea, rfl⟩
  · rintro ⟨e, he, hea, rfl⟩
    exact ⟨e, he, (hholds e he).mpr hea, rfl⟩

end

end Shaped

/-! ## Allocations -/

/-- The allocation that an address belongs to. -/
def allocationOf (v : ℕ → Option VmTag) (a : ℕ) : Option ℕ := (v a).map (·.allocationBase)

/-- The addresses of an allocation form one range that starts at its base. -/
def Rooted (v : ℕ → Option VmTag) : Prop :=
  ∀ a b, allocationOf v a = some b →
    b ≤ a ∧ ∀ a', b ≤ a' → a' ≤ a → allocationOf v a' = some b

namespace Rooted

variable {v v' : ℕ → Option VmTag}

theorem of_allocationOf_eq (h : Rooted v) (heq : ∀ a, allocationOf v' a = allocationOf v a) :
    Rooted v' := by
  intro a b hab
  rw [heq] at hab
  simp only [heq]
  exact h a b hab

/-- A new allocation in a free range. -/
theorem insert (h : Rooted v) {base stop : ℕ} {t : VmTag} (ht : t.allocationBase = base)
    (hv' : ∀ a, v' a = if base ≤ a ∧ a < stop then some t else v a)
    (hfree : ∀ a, base ≤ a → a < stop → v a = none) : Rooted v' := by
  have hin : ∀ a, base ≤ a ∧ a < stop → allocationOf v' a = some base := by
    intro a ha
    rw [allocationOf, hv', if_pos ha, map_some, ht]
  have hout : ∀ a, ¬ (base ≤ a ∧ a < stop) → allocationOf v' a = allocationOf v a := by
    intro a ha
    rw [allocationOf, hv', if_neg ha, allocationOf]
  intro a b hab
  by_cases ha : base ≤ a ∧ a < stop
  · rw [hin a ha] at hab
    cases hab
    exact ⟨ha.1, fun a' hle hle' => hin a' ⟨hle, by omega⟩⟩
  · rw [hout a ha] at hab
    obtain ⟨hle, hrange⟩ := h a b hab
    refine ⟨hle, fun a' hba' ha'a => ?_⟩
    have ha' := hrange a' hba' ha'a
    rw [hout a' ?_]
    · exact ha'
    · rintro ⟨hlo, hhi⟩
      rw [allocationOf, hfree a' hlo hhi] at ha'
      cases ha'

/-- Part of an allocation is released; what lies behind it becomes an allocation of its
own, if there is anything. -/
theorem release (h : Rooted v) {base stop allocation : ℕ} (hlt : base < stop)
    (hrange : ∀ a, base ≤ a → a < stop → allocationOf v a = some allocation)
    (hin : ∀ a, base ≤ a ∧ a < stop → v' a = none)
    (hbehind : ∀ a, stop ≤ a → allocationOf v a = some allocation → allocationOf v' a = some stop)
    (hrest : ∀ a, ¬ (base ≤ a ∧ a < stop) → (a < stop ∨ allocationOf v a ≠ some allocation) →
      allocationOf v' a = allocationOf v a) : Rooted v' := by
  have hbase := (h base allocation (hrange base le_rfl hlt)).1
  intro a b hab
  have ha : ¬ (base ≤ a ∧ a < stop) := by
    intro ha
    rw [allocationOf, hin a ha] at hab
    cases hab
  by_cases hsame : stop ≤ a ∧ allocationOf v a = some allocation
  · obtain ⟨hle, hval⟩ := hsame
    rw [hbehind a hle hval] at hab
    cases hab
    refine ⟨hle, fun a' hle' ha'a => hbehind a' hle' ?_⟩
    exact (h a allocation hval).2 a' (by omega) ha'a
  · have hkeep : a < stop ∨ allocationOf v a ≠ some allocation := by
      by_cases hlt' : a < stop
      · exact .inl hlt'
      · exact .inr fun hval => hsame ⟨by omega, hval⟩
    rw [hrest a ha hkeep] at hab
    obtain ⟨hle, hall⟩ := h a b hab
    refine ⟨hle, fun a' hba' ha'a => ?_⟩
    have ha' := hall a' hba' ha'a
    rw [hrest a' ?_ ?_, ha']
    · rintro ⟨hlo, hhi⟩
      -- an address of the released range in the allocation of `a`: the same allocation
      have hb : b = allocation := Option.some.inj (ha'.symm.trans (hrange a' hlo hhi))
      rcases hkeep with hlt' | hne
      · exact ha ⟨by omega, hlt'⟩
      · exact hne (hab.trans (congrArg some hb))
    · rcases hkeep with hlt' | hne
      · exact .inl (by omega)
      · refine .inr fun hval => hne ?_
        rw [hab, ← Option.some.inj (ha'.symm.trans hval)]

end Rooted

/-! ## Overrides -/

/-- The override of a page. -/
def overrideAt (os : List VmProtectionOverride) (page : ℕ) : Option Flags :=
  (os.find? (VmProtectionOverride.isFor page)).map (·.protection)

@[simp] theorem isFor_iff {o : VmProtectionOverride} :
    o.isFor page = true ↔ o.page = page := beq_iff_eq

/-- No page has two overrides. -/
def UniquePages (os : List VmProtectionOverride) : Prop := os.Pairwise fun o o' => o.page ≠ o'.page

theorem overrideAt_eq_some_iff (h : UniquePages os)
    {protection : Flags} : overrideAt os page = some protection ↔ ⟨page, protection⟩ ∈ os := by
  induction os with
  | nil => simp [overrideAt]
  | cons o os ih =>
    obtain ⟨ho, hos⟩ := pairwise_cons.mp h
    have hih := ih hos
    rw [overrideAt] at hih ⊢
    rw [List.find?_cons]
    cases hpage : o.isFor page with
    | true =>
      have hpage := isFor_iff.mp hpage
      simp only [map_some, Option.some.injEq, mem_cons]
      constructor
      · rintro rfl
        subst hpage
        exact .inl rfl
      · rintro (heq | hmem)
        · rw [← heq]
        · exact absurd hpage (ho _ hmem)
    | false =>
      have hpage : o.page ≠ page := beq_eq_false_iff_ne.mp hpage
      simp only [hih, mem_cons]
      constructor
      · exact .inr
      · rintro (heq | hmem)
        · rw [← heq] at hpage
          exact absurd rfl hpage
        · exact hmem

theorem overrideAt_congr {os' : List VmProtectionOverride} (h : UniquePages os)
    (h' : UniquePages os')
    (hmem : ∀ protection, ⟨page, protection⟩ ∈ os' ↔ ⟨page, protection⟩ ∈ os) :
    overrideAt os' page = overrideAt os page := by
  apply Option.ext
  intro protection
  rw [overrideAt_eq_some_iff h', overrideAt_eq_some_iff h, hmem]

theorem overrideAt_eq_none (h : ∀ o ∈ os, o.page ≠ page) : overrideAt os page = none := by
  rw [overrideAt, map_eq_none_iff, List.find?_eq_none]
  intro o ho
  rw [isFor_iff]
  exact h o ho

namespace VmRegionMap

variable {N b stop : ℕ} {m m' : VmRegionMap N}

/-- The tag of an address. -/
def tagAt (m : VmRegionMap N) (a : ℕ) : Option VmTag := ExtentMap.tagAt m.extents.occupied a

/-- What holds of the map between calls. -/
structure Invariant (lower upper : ℕ) (m : VmRegionMap N) : Prop where
  lowerBound_eq : m.lowerBound = lower
  upperBound_eq : m.upperBound = upper
  shaped : Shaped lower upper m.extents.occupied
  rooted : Rooted m.tagAt
  unique : UniquePages m.protectionOverrides.occupied
  committed : ∀ o ∈ m.protectionOverrides.occupied,
    pageSize ∣ o.page ∧ ∃ t, m.tagAt o.page = some t ∧ t.state = .committed

variable {lower upper : ℕ}

theorem invariant_new (N lower upper : ℕ) : Invariant lower upper (new N lower upper) where
  lowerBound_eq := rfl
  upperBound_eq := rfl
  shaped := by
    simp only [new, Slots.occupied_empty]
    exact ⟨⟨List.Pairwise.nil, by simp⟩, by simp, by simp⟩
  rooted := by
    intro a b hab
    simp [allocationOf, tagAt, new, ExtentMap.tagAt, find] at hab
  unique := by
    exact List.Pairwise.nil
  committed := by simp [new]

theorem tagAt_eq_map (m : VmRegionMap N) (a : ℕ) : m.tagAt a = (m.extentAt a).map (·.tag) := rfl

/-- An extent found at an address gives the address its tag. -/
theorem tagAt_of_extentAt {a : ℕ} {e : VmExtent} (h : m.extentAt a = some e) :
    m.tagAt a = some e.tag := by
  rw [tagAt_eq_map, h, map_some]

/-- Every page of an allocation has its base on a page boundary. -/
theorem Invariant.aligned_allocation (h : Invariant lower upper m) {a : ℕ}
    (hab : allocationOf m.tagAt a = some b) : pageSize ∣ b := by
  have hb := (h.rooted a b hab).2 b le_rfl (h.rooted a b hab).1
  obtain ⟨t, ht, htb⟩ := map_eq_some_iff.mp hb
  obtain ⟨e, he, hholds, rfl⟩ := (tagAt_eq_some_iff h.shaped.separated).mp ht
  -- the extent that holds the base starts there: its own first address is not before it
  have hpos := h.shaped.separated.nonempty e he
  have hebase : allocationOf m.tagAt e.base = some b := by
    rw [allocationOf, map_eq_some_iff]
    refine ⟨e.tag, (tagAt_eq_some_iff h.shaped.separated).mpr ⟨e, he, ⟨le_rfl, ?_⟩, rfl⟩, htb⟩
    rw [Extent.stop]
    omega
  have hle := (h.rooted _ _ hebase).1
  have heq : e.base = b := le_antisymm hholds.1 hle
  rw [← heq]
  exact (h.shaped.aligned e he).1

/-- The range between the base of an allocation and its end is the allocation. -/
theorem Invariant.allocationEnd_spec (h : Invariant lower upper m)
    (hend : m.allocationEnd b = some stop) : b < stop ∧ pageSize ∣ b ∧ pageSize ∣ stop ∧
      ∀ a, b ≤ a ∧ a < stop ↔ allocationOf m.tagAt a = some b := by
  have hsep := h.shaped.separated
  have hmax := List.max?_eq_some_iff.mp hend
  obtain ⟨e, he, hstop⟩ := mem_map.mp hmax.1
  obtain ⟨he, heb⟩ := mem_filter.mp he
  have heb := beq_iff_eq.mp heb
  have hpos := hsep.nonempty e he
  have hholds : ∀ a, e.Holds a → allocationOf m.tagAt a = some b := fun a ha => by
    rw [allocationOf, map_eq_some_iff]
    exact ⟨e.tag, (tagAt_eq_some_iff hsep).mpr ⟨e, he, ha, rfl⟩, heb⟩
  have hlast : allocationOf m.tagAt (stop - 1) = some b := by
    apply hholds
    rw [Extent.Holds, ← hstop, Extent.stop]
    omega
  have hstoppos : e.base < stop := by
    rw [← hstop, Extent.stop]
    omega
  obtain ⟨hble, hall⟩ := h.rooted _ _ hlast
  refine ⟨by omega, h.aligned_allocation hlast, ?_, fun a => ⟨fun ha => ?_, fun ha => ?_⟩⟩
  · rw [← hstop]
    exact (h.shaped.aligned e he).2
  · exact hall a ha.1 (by omega)
  · refine ⟨(h.rooted a b ha).1, ?_⟩
    obtain ⟨t, ht, htb⟩ := map_eq_some_iff.mp ha
    obtain ⟨f, hf, hfa, rfl⟩ := (tagAt_eq_some_iff hsep).mp ht
    have hle := hmax.2 f.stop (mem_map.mpr ⟨f, mem_filter.mpr ⟨hf, beq_iff_eq.mpr htb⟩, rfl⟩)
    exact hfa.2.trans_le hle

/-- A walk that succeeds has found an extent that passes the check at every position. -/
theorem walk_ok (hsep : Separated m.extents.occupied) {missing : NtStatus}
    {check : VmExtent → Option NtStatus} {position : ℕ}
    (h : m.walk missing check position stop = .ok ()) :
    ∀ a, position ≤ a → a < stop → ∃ e, m.extentAt a = some e ∧ check e = none := by
  fun_induction walk m missing check position stop with
  | case1 => cases h
  | case2 => cases h
  | case3 position hlt e hfind _ hcheck ih =>
    intro a hle hlt'
    by_cases ha : a < e.stop
    · obtain ⟨hmem, hholds⟩ := holds_of_find hfind
      exact ⟨e, (find_eq_some_iff hsep).mpr ⟨hmem, hholds.1.trans hle, ha⟩, hcheck⟩
    · exact ih h a (by omega) hlt'
  | case4 position hle =>
    intro a hle' hlt
    omega

/-- All addresses of the range belong to the allocation. -/
theorem allocationForRange_ok (hsep : Separated m.extents.occupied) {base : ℕ}
    (h : m.allocationForRange base stop = .ok b) :
    ∀ a, base ≤ a → a < stop → allocationOf m.tagAt a = some b := by
  rw [allocationForRange] at h
  split at h
  case h_1 => cases h
  case h_2 first hfirst =>
    obtain ⟨⟨⟩, hwalk, hpure⟩ := Result.bind_eq_ok h
    cases hpure
    intro a hle hlt
    obtain ⟨e, he, hcheck⟩ := walk_ok hsep hwalk a hle hlt
    rw [allocationOf, tagAt_of_extentAt he]
    by_contra hne
    rw [if_pos fun heq => hne (congrArg some heq)] at hcheck
    cases hcheck

end VmRegionMap

end UserspaceNtos.AddressSpace
