import UserspaceNtos.AddressSpace.VmOperations

/-!
# The region map as a map of pages

The purpose of `VmRegionMap` is to know, for every page, whether it is free, reserved or
committed, and with which protection.  Here that purpose is the abstract model: a
function from page numbers to `PageState`s, which a successful call changes on the pages
of its plan and nowhere else (`VmCall.update`).  The abstraction function `pages` reads
it off the extents and the overrides, and `calls_refine_pages` says that it commutes
with every call in every reachable state, next to the shape of the map itself.
-/

namespace UserspaceNtos.AddressSpace

open ExtentMap Procedure List

/-! ## Protecting pages -/

theorem mem_eraseP_page {os : List VmProtectionOverride} (h : UniquePages os) (page : ℕ)
    {o : VmProtectionOverride} :
    o ∈ os.eraseP (VmProtectionOverride.isFor page) ↔ o ∈ os ∧ o.page ≠ page := by
  by_cases ho : o.page = page
  · refine iff_of_false (fun hmem => ?_) fun hand => hand.2 ho
    obtain ⟨x, l₁, l₂, hl₁, hx, rfl, heq⟩ :=
      exists_of_eraseP (mem_of_mem_eraseP hmem) (isFor_iff.mpr ho)
    rcases mem_append.mp (heq ▸ hmem) with hmem | hmem
    · exact hl₁ o hmem (isFor_iff.mpr ho)
    · have hrest := (pairwise_append.mp h).2.1
      exact rel_of_pairwise_cons hrest hmem ((isFor_iff.mp hx).trans ho.symm)
  · rw [mem_eraseP_of_neg (by rwa [isFor_iff]), and_iff_left ho]

namespace VmRegionMap

variable {N page : ℕ} {m m' : VmRegionMap N} {lower upper : ℕ} {newProtection : Flags}

/-- The page gets the new protection, by an override only if it is not the default. -/
theorem setPageProtectionOverride_ok {defaultProtection : Flags}
    (hunique : UniquePages m.protectionOverrides.occupied)
    (h : m.setPageProtectionOverride page defaultProtection newProtection = .ok m') :
    m' = { m with protectionOverrides := m'.protectionOverrides } ∧
      UniquePages m'.protectionOverrides.occupied ∧ ∀ o, o ∈ m'.protectionOverrides.occupied ↔
        if o.page = page then o.protection = newProtection ∧ newProtection ≠ defaultProtection
        else o ∈ m.protectionOverrides.occupied := by
  -- in every branch the entry of the page, if there is one, makes way for the new one
  obtain ⟨heq, hperm⟩ : m' = { m with protectionOverrides := m'.protectionOverrides } ∧
      m'.protectionOverrides.occupied.Perm
        ((if newProtection ≠ defaultProtection then some ⟨page, newProtection⟩ else none).toList ++
          m.protectionOverrides.occupied.eraseP (VmProtectionOverride.isFor page)) := by
    rw [setPageProtectionOverride] at h
    split at h
    case isTrue hany =>
      cases h
      exact ⟨rfl, Slots.perm_occupied_replaceFirst (any_eq_true.mp hany)⟩
    case isFalse hany =>
      rw [eraseP_of_forall_not fun o ho hpage => hany (any_eq_true.mpr ⟨o, ho, hpage⟩)]
      split at h
      case isTrue hnew =>
        cases h
        rw [if_neg (not_not.mpr hnew)]
        exact ⟨rfl, .rfl⟩
      case isFalse hnew =>
        split at h
        · cases h
        case h_2 overrides hfill =>
          cases h
          rw [if_pos hnew]
          exact ⟨rfl, Slots.perm_occupied_fill hfill⟩
  have hrest := fun o => mem_eraseP_page (o := o) hunique page
  have herased := hunique.sublist (eraseP_sublist (p := VmProtectionOverride.isFor page))
  rw [UniquePages, hperm.pairwise_iff fun {x y} hxy => Ne.symm hxy]
  by_cases hnew : newProtection = defaultProtection
  · rw [if_neg (not_not.mpr hnew), Option.toList_none, nil_append] at hperm ⊢
    refine ⟨heq, herased, fun o => ?_⟩
    rw [hperm.mem_iff, hrest]
    by_cases ho : o.page = page <;> simp [ho, hnew]
  · rw [if_pos hnew, Option.toList_some, singleton_append] at hperm ⊢
    refine ⟨heq, pairwise_cons.mpr ⟨fun x hx => ((hrest x).mp hx).2.symm, herased⟩, fun o => ?_⟩
    rw [hperm.mem_iff, mem_cons, hrest]
    obtain ⟨opage, oprotection⟩ := o
    by_cases ho : opage = page <;> simp [ho, hnew]

/-- The pages from `page` to `stop` get the new protection. -/
theorem overridePages_ok {stop : ℕ} {next next' : VmRegionMap N} (hpage : pageSize ∣ page)
    (hunique : UniquePages next.protectionOverrides.occupied)
    (h : m.overridePages newProtection page stop next = .ok next') :
    next' = { next with protectionOverrides := next'.protectionOverrides } ∧
      UniquePages next'.protectionOverrides.occupied ∧ ∀ o, o ∈ next'.protectionOverrides.occupied ↔
        if (page ≤ o.page ∧ o.page < stop) ∧ pageSize ∣ o.page then
          o.protection = newProtection ∧ ∃ e, m.extentAt o.page = some e ∧
            newProtection ≠ e.tag.protection
        else o ∈ next.protectionOverrides.occupied := by
  fun_induction overridePages m newProtection page stop next with
  | case1 => cases h
  | case2 => cases h
  | case3 page next hlt e hfind mid hmid ih =>
    obtain ⟨heq, humid, hmem⟩ := setPageProtectionOverride_ok hunique hmid
    obtain ⟨heq', hunique', hmem'⟩ := ih (Nat.dvd_add hpage (Nat.dvd_refl _)) humid h
    refine ⟨by rw [heq', heq], hunique', fun o => ?_⟩
    rw [hmem' o]
    -- a multiple of the page size behind `page` is at least the next page
    have hnext : (page ≤ o.page ∧ o.page < stop) ∧ pageSize ∣ o.page ↔
        o.page = page ∨ (page + pageSize ≤ o.page ∧ o.page < stop) ∧ pageSize ∣ o.page := by
      obtain ⟨p, rfl⟩ := hpage
      simp only [pageSize] at hlt ⊢
      omega
    by_cases hin : (page + pageSize ≤ o.page ∧ o.page < stop) ∧ pageSize ∣ o.page
    · rw [if_pos hin, if_pos (hnext.mpr (.inr hin))]
    · rw [if_neg hin, hmem]
      by_cases hself : o.page = page
      · rw [if_pos (hnext.mpr (.inl hself)), hself, hfind]
        simp
      · rw [if_neg hself, if_neg fun hall => (hnext.mp hall).elim hself hin]
  | case4 page next hle =>
    cases h
    refine ⟨rfl, hunique, fun o => ?_⟩
    rw [if_neg (by omega)]

theorem overridePages_not_panicked {stop : ℕ} {next : VmRegionMap N}
    (hfound : ∀ a, page ≤ a → a < stop → ∃ e, m.extentAt a = some e) :
    m.overridePages newProtection page stop next ≠ .error .panicked := by
  fun_induction overridePages m newProtection page stop next with
  | case1 page next hlt hnone =>
    obtain ⟨e, he⟩ := hfound page le_rfl hlt
    rw [hnone] at he
    cases he
  | case2 page next hlt e hfind fault hfault =>
    intro hpanic
    cases hpanic
    rw [setPageProtectionOverride] at hfault
    split at hfault
    · cases hfault
    · split_ifs at hfault
      split at hfault <;> cases hfault
  | case3 page next hlt e hfind mid hmid ih =>
    exact ih fun a hle hlt' => hfound a (by omega) hlt'
  | case4 => exact fun h => nomatch h

section Override

variable (hm : Invariant lower upper m) {stop : ℕ} {next : VmRegionMap N} (hpage : pageSize ∣ page)
  (hcommitted : ∀ a, page ≤ a ∧ a < stop →
    ∃ e, m.extentAt a = some e ∧ e.tag.state = .committed)
  (h : m.overridePages newProtection page stop m = .ok next)
include hm hpage hcommitted h

theorem overridePages_invariant : Invariant lower upper next := by
  obtain ⟨heq, hunique, hmem⟩ := overridePages_ok hpage hm.unique h
  rw [heq]
  refine { hm with unique := hunique, committed := fun o ho => ?_ }
  rw [hmem] at ho
  split at ho
  case isTrue hin =>
    obtain ⟨e, he, hstate⟩ := hcommitted o.page hin.1
    exact ⟨hin.2, e.tag, tagAt_of_extentAt he, hstate⟩
  case isFalse => exact hm.committed o ho

theorem overridePages_stateAt (hstop : pageSize ∣ stop) (a : ℕ) : next.stateAt a =
    if page ≤ a ∧ a < stop then .committed newProtection else m.stateAt a := by
  obtain ⟨heq, hunique, hmem⟩ := overridePages_ok hpage hm.unique h
  have hin_iff := alignDown_mem_iff (a := a) hpage hstop
  rw [stateAt_eq, show next.tagAt a = m.tagAt a by rw [heq]; rfl]
  split
  case isTrue hin =>
    -- the page of `a` has an override exactly if its extent has another protection
    obtain ⟨e, he, hstate⟩ := hcommitted _ (hin_iff.mpr hin)
    have htage : m.tagAt a = some e.tag := by
      rw [tagAt, ← hm.shaped.tagAt_alignDown]
      exact tagAt_of_extentAt he
    have hiff := fun protection => hmem ⟨alignDown a pageSize, protection⟩
    simp only [hin_iff.mpr hin, pageSize_dvd_alignDown, he, Option.some.injEq,
      exists_eq_left'] at hiff
    simp only [htage, pageStateOf, hstate]
    by_cases hdefault : newProtection = e.tag.protection
    · rw [overrideAt_eq_none, Option.getD_none, hdefault]
      intro o ho heqpage
      obtain ⟨opage, oprotection⟩ := o
      cases heqpage
      exact ((hiff oprotection).mp ho).2 hdefault
    · rw [(overrideAt_eq_some_iff hunique).mpr ((hiff _).mpr ⟨rfl, hdefault⟩), Option.getD_some]
  case isFalse hout =>
    rw [stateAt_eq]
    congr 1
    apply overrideAt_congr hm.unique hunique
    intro protection
    rw [hmem, if_neg fun hin => hout (hin_iff.mp hin.1)]

end Override

/-- The checks that `protect` makes before it touches anything. -/
theorem protect_ok (hm : Invariant lower upper m) {requestedBase requestedSize : ℕ}
    {plan : VmProtectPlan}
    (h : protect requestedBase requestedSize newProtection m = (.ok plan, m')) :
    plan.base = alignDown requestedBase pageSize ∧
      plan.base + plan.size = roundUp (requestedBase + requestedSize) ∧
      (∀ a, plan.base ≤ a ∧ a < plan.base + plan.size →
        ∃ protection, m.stateAt a = .committed protection) ∧
      m.stateAt plan.base = .committed plan.oldProtection ∧ Invariant lower upper m' ∧
      ∀ a, m'.stateAt a = if plan.base ≤ a ∧ a < plan.base + plan.size then
        .committed newProtection else m.stateAt a := by
  simp only [protect, read_bind, require_bind_ok, failIf_bind_ok, status_bind_ok, lift_bind_ok]
    at h
  obtain ⟨-, -, -, -, stop, hstop, hle, first, hfirst, ⟨⟩, hwalk, next, hnext, rfl, rfl⟩ := h
  have hstop := eq_of_pageEnd hstop
  have hbase := pageSize_dvd_alignDown requestedBase
  have hdvd : pageSize ∣ stop := hstop ▸ pageSize_dvd_roundUp _
  have hsum : alignDown requestedBase pageSize + (stop - alignDown requestedBase pageSize) =
      stop := by omega
  rw [hsum]
  have hcommitted : ∀ a, alignDown requestedBase pageSize ≤ a ∧ a < stop →
      ∃ e, m.extentAt a = some e ∧ e.tag.state = .committed := by
    intro a ha
    obtain ⟨e, he, hcheck⟩ := walk_ok hm.shaped.separated hwalk a ha.1 ha.2
    refine ⟨e, he, ?_⟩
    by_contra hstate
    split at hcheck
    · cases hcheck
    · cases hcheck
  have hprotection : ∀ a, alignDown requestedBase pageSize ≤ a ∧ a < stop →
      ∃ e, m.extentAt a = some e ∧ m.protectionAt a =
        some ((m.overrideProtectionAt a).getD e.tag.protection) := by
    intro a ha
    obtain ⟨e, he, hstate⟩ := hcommitted a ha
    exact ⟨e, he, by rw [protectionAt, he, Option.bind_some, if_pos hstate]⟩
  refine ⟨rfl, hstop, fun a ha => ?_, ?_, overridePages_invariant hm hbase hcommitted hnext,
    overridePages_stateAt hm hbase hcommitted hnext hdvd⟩
  · obtain ⟨e, he, hp⟩ := hprotection a ha
    exact ⟨_, by rw [stateAt, he, hp]⟩
  · obtain ⟨e, he, hp⟩ := hprotection _ ⟨le_rfl, by omega⟩
    rw [stateAt, he, hp]
    rfl

end VmRegionMap

/-! ## The abstract model -/

/-- The per-page model: the state of every page, by page number. -/
abbrev PageMap := ℕ → PageState

/-- The pages of the map. -/
def VmRegionMap.pages {N : ℕ} (m : VmRegionMap N) : PageMap := fun page =>
  m.stateAt (page * pageSize)

/-- The address is in the range of the plan. -/
def VmPlan.Holds (plan : VmPlan) (a : ℕ) : Prop := plan.base ≤ a ∧ a < plan.base + plan.size

instance (plan : VmPlan) (a : ℕ) : Decidable (plan.Holds a) := inferInstanceAs (Decidable (_ ∧ _))

/-- What an allocation call is about. -/
inductive AllocationKind
  | reset
  | reserve
  | commit
  deriving DecidableEq

/-- Without an address memory is always reserved; at an address the flags decide. -/
def allocationKind (requestedBase : Option UInt64) (allocationType : Flags) : AllocationKind :=
  if requestedBase.isNone then .reserve
  else if allocationType = memReset then .reset
  else if allocationType &&& memReserve ≠ 0 then .reserve
  else .commit

namespace VmCall

/-- What becomes of a page in the range of the plan. -/
def target : VmCall → PageState → PageState
  | allocate _ base _ type protection, state =>
    match allocationKind base type with
    | .reset => state
    | .reserve => if type &&& memCommit ≠ 0 then .committed protection else .reserved
    | .commit => .committed protection
  | free _ _ type, _ => if type = memDecommit then .reserved else .free
  | unmapMapped _, _ => .free
  | protect _ _ protection, _ => .committed protection

/-- Which pages the range of a plan may consist of. -/
def Admits : VmCall → PageState → Prop
  | allocate _ base _ type _, state =>
    match allocationKind base type with
    | .reset => True
    | .reserve => state = .free
    | .commit => state ≠ .free
  | free _ _ _, state => state ≠ .free
  | unmapMapped _, state => state ≠ .free
  | protect _ _ _, state => ∃ protection, state = .committed protection

/-- The range of the plan is the one that was asked for: the pages of the given bytes, from
a multiple of the granularity on where memory is reserved; some place for as many pages
as are needed if no address is given; and a whole allocation if it is unmapped or freed
without a size. -/
def Requests {N : ℕ} (m : VmRegionMap N) : VmCall → VmPlan → Prop
  | allocate _ none size _ _, plan =>
    allocationGranularity ∣ plan.base ∧ plan.size = roundUp size.toNat
  | allocate _ (some address) size type _, plan =>
    plan.base = alignDown address.toNat
      (if allocationKind (some address) type = .reserve then allocationGranularity
        else pageSize) ∧
    plan.base + plan.size = roundUp (address.toNat + size.toNat)
  | free base size _, plan =>
    plan.base = alignDown base.toNat pageSize ∧
    if size.toNat = 0 then ∀ a, plan.Holds a ↔ allocationOf m.tagAt a = some plan.base
    else plan.base + plan.size = roundUp (base.toNat + size.toNat)
  | unmapMapped address, plan =>
    ∃ b, allocationOf m.tagAt address.toNat = some b ∧
      ∀ a, plan.Holds a ↔ allocationOf m.tagAt a = some b
  | protect base size _, plan =>
    plan.base = alignDown base.toNat pageSize ∧
    plan.base + plan.size = roundUp (base.toNat + size.toNat)

/-- The call on the per-page model: a successful one changes the pages of its plan, a
failed one nothing. -/
def update (c : VmCall) (result : Except Fault VmPlan) (pages : PageMap) : PageMap :=
  match result with
  | .error _ => pages
  | .ok plan => fun page =>
    if plan.Holds (page * pageSize) then c.target (pages page) else pages page

/-- What a successful call does. -/
structure Succeeds {N : ℕ} (lower upper : ℕ) (c : VmCall) (m : VmRegionMap N) (plan : VmPlan)
    (m' : VmRegionMap N) : Prop where
  invariant : VmRegionMap.Invariant lower upper m'
  requested : c.Requests m plan
  admits : ∀ a, plan.Holds a → c.Admits (m.stateAt a)
  stateAt_eq : ∀ a, m'.stateAt a = if plan.Holds a then c.target (m.stateAt a) else m.stateAt a

end VmCall

section Success

variable {N : ℕ} {m m' : VmRegionMap N} {lower upper : ℕ} {allocationType protection : Flags}
  {placement : Placement} {plan : VmAllocatePlan} {requestedSize address : UInt64} {reserved : Bool}

open VmRegionMap

theorem stateAt_eq_free_iff {a : ℕ} : m.stateAt a = .free ↔ m.tagAt a = none := by
  rw [stateAt_eq]
  cases m.tagAt a with
  | none => simp [pageStateOf]
  | some t =>
    rw [pageStateOf]
    split <;> simp

/-- A rewrite of a range, seen from the pages. -/
theorem VmRegionMap.Rewrites.stateAt_target {base stop : ℕ} {new : Option VmTag → Option VmTag}
    (h : Rewrites lower upper base stop new m m') (hm : Invariant lower upper m)
    {target : PageState → PageState} (htarget : ∀ a, base ≤ a ∧ a < stop →
      pageStateOf (new (m.tagAt a)) none = target (m.stateAt a)) (a : ℕ) :
    m'.stateAt a = if base ≤ a ∧ a < stop then target (m.stateAt a) else m.stateAt a := by
  rw [h.stateAt hm]
  split
  case isTrue hin => exact htarget a hin
  case isFalse => rfl

theorem reserve_succeeds (hm : Invariant lower upper m) {requestedBase : Option UInt64}
    {type_ : Flags} {lowerBound upperBound : ℕ} (hupper : upperBound ≤ upper)
    (hkind : allocationKind requestedBase allocationType = .reserve)
    (h : reserve (requestedBase.map UInt64.toNat) requestedSize.toNat allocationType protection
      lowerBound upperBound type_ m = (.ok plan, m')) :
    (VmCall.allocate placement requestedBase requestedSize allocationType protection).Succeeds
      lower upper m (.allocated plan) m' := by
  obtain ⟨hrange, hfree, hrewrites⟩ := reserve_ok hm hupper h
  refine ⟨hrewrites.invariant hm, ?_, fun a ha => ?_, fun a => ?_⟩
  · cases requestedBase with
    | none =>
      obtain ⟨hdvd, hstop⟩ := hrange
      exact ⟨hdvd, Nat.add_left_cancel hstop⟩
    | some address =>
      obtain ⟨hbase, hstop⟩ := hrange
      refine ⟨?_, hstop⟩
      rw [if_pos hkind]
      exact hbase
  · simp only [VmCall.Admits, hkind]
    exact stateAt_eq_free_iff.mpr (hfree a ha)
  · refine hrewrites.stateAt_target hm (fun a _ => ?_) a
    simp only [VmCall.target, hkind, pageStateOf]
    by_cases hcommit : allocationType &&& memCommit ≠ 0
    · simp only [if_pos hcommit, Option.getD_none]
    · simp only [if_neg hcommit]

/-- Every entry point is the general one with some bounds and type. -/
theorem placement_allocate_eq (placement : Placement) (reserved : Bool)
    (requestedBase : Option ℕ) (requestedSize : ℕ) (allocationType protection : Flags)
    (m : VmRegionMap N) : ∃ lowerBound upperBound type_,
      placement.allocate reserved requestedBase requestedSize allocationType protection m =
        allocateBetweenType reserved requestedBase requestedSize allocationType protection
          lowerBound upperBound type_ m := by
  cases placement <;> exact ⟨_, _, _, rfl⟩

section

variable (hm : Invariant lower upper m)
include hm

theorem allocate_succeeds {requestedBase : Option UInt64}
    (h : placement.allocate reserved (requestedBase.map UInt64.toNat) requestedSize.toNat
      allocationType protection m = (.ok plan, m')) :
    (VmCall.allocate placement requestedBase requestedSize allocationType protection).Succeeds
      lower upper m (.allocated plan) m' := by
  obtain ⟨lowerBound, upperBound, type_, heq⟩ := placement_allocate_eq placement reserved
    (requestedBase.map UInt64.toNat) requestedSize.toNat allocationType protection m
  rw [heq] at h
  simp only [allocateBetweenType, status_bind_ok, read_bind, failIf_bind_ok] at h
  obtain ⟨-, -, -, hsize, hbranch⟩ := h
  have hupper : min upperBound m.upperBound ≤ upper := hm.upperBound_eq ▸ min_le_right _ _
  cases requestedBase with
  | none => exact reserve_succeeds hm hupper rfl hbranch
  | some address =>
    dsimp only [Option.map_some] at hbranch
    split at hbranch
    case isTrue hreset =>
      have hkind : allocationKind (some address) allocationType = .reset := by
        simp [allocationKind, hreset]
      obtain ⟨rfl, hbase, hstop⟩ :=
        reset_ok (Nat.pos_of_ne_zero fun hzero => hsize (.inr hzero)) hbranch
      refine ⟨hm, ⟨?_, hstop⟩, fun a _ => ?_, fun a => ?_⟩
      · rw [if_neg (by simp [hkind])]
        exact hbase
      · simp only [VmCall.Admits, hkind]
      · simp only [VmCall.target, hkind, ite_self]
    case isFalse hreset =>
      split at hbranch
      case isTrue hreserve =>
        refine reserve_succeeds hm hupper ?_ hbranch
        simp only [allocationKind, Option.isNone_some, Bool.false_eq_true, if_false, hreset,
          if_pos hreserve]
      case isFalse hreserve =>
        have hkind : allocationKind (some address) allocationType = .commit := by
          simp only [allocationKind, Option.isNone_some, Bool.false_eq_true, if_false, hreset,
            if_neg hreserve]
        obtain ⟨hbase, hstop, hused, hrewrites⟩ := commit_ok hm hbranch
        refine ⟨hrewrites.invariant hm, ⟨?_, hstop⟩, fun a ha => ?_,
          hrewrites.stateAt_target hm fun a ha => ?_⟩
        · rw [if_neg (by simp [hkind])]
          exact hbase
        · simp only [VmCall.Admits, hkind]
          exact mt stateAt_eq_free_iff.mp (hused a ha)
        · obtain ⟨t, ht⟩ := Option.ne_none_iff_exists'.mp (hused a ha)
          simp only [VmCall.target, hkind, ht, Option.map_some, pageStateOf, Option.getD_none]

/-- A call that returns a plan. -/
theorem exec_succeeds {c : VmCall} {plan : VmPlan}
    (h : c.exec reserved m = (.ok plan, m')) : c.Succeeds lower upper m plan m' := by
  cases c
  all_goals
    obtain ⟨p, m₁, hp, hpure⟩ := bind_ok_iff.mp h
    cases hpure
  case allocate => exact allocate_succeeds hm hp
  case free =>
    obtain ⟨hrange, hused, hrewrites⟩ := free_ok hm hp
    refine ⟨hrewrites.invariant hm, hrange, fun a ha => mt stateAt_eq_free_iff.mp (hused a ha),
      hrewrites.stateAt_target hm fun a ha => ?_⟩
    obtain ⟨t, ht⟩ := Option.ne_none_iff_exists'.mp (hused a ha)
    rw [VmCall.target, ht]
    split <;> rfl
  case unmapMapped =>
    obtain ⟨hrange, hrewrites⟩ := unmapMapped_ok hm hp
    refine ⟨hrewrites.invariant hm, hrange, fun a ha => ?_,
      hrewrites.stateAt_target hm fun a _ => rfl⟩
    obtain ⟨b, -, hall⟩ := hrange
    exact mt stateAt_eq_free_iff.mp (ne_none_of_allocationOf ((hall a).mp ha))
  case protect =>
    obtain ⟨hbase, hstop, hcommitted, -, hinv, hstate⟩ := protect_ok hm hp
    exact ⟨hinv, ⟨hbase, hstop⟩, hcommitted, hstate⟩

/-- A call that fails. -/
theorem exec_fails {c : VmCall} {fault : Fault}
    (h : c.exec reserved m = (.error fault, m')) : m' = m ∧ fault ≠ .panicked := by
  cases c
  all_goals obtain h | ⟨_, _, -, ⟨⟩⟩ := bind_error_iff.mp h
  case allocate placement base size type protection _ =>
    obtain ⟨lowerBound, upperBound, type_, heq⟩ := placement_allocate_eq placement reserved
      (base.map UInt64.toNat) size.toNat type protection m
    rw [heq] at h
    exact allocateBetweenType_clean.fails h
  case free => exact free_clean.fails h
  case unmapMapped => exact unmapMapped_clean.fails h
  case protect base size newProtection _ =>
    have hatomic : Atomic (protect base.toNat size.toNat newProtection : Op N VmProtectPlan) := by
      refine (readOnly_status _).bind fun _ => .failIf ?_
      refine .failIf <| readOnly_read.bind fun _ => ?_
      refine (readOnly_require _ _).bind fun _ => .failIf ?_
      refine (readOnly_require _ _).bind fun _ => (readOnly_status _).bind fun _ => ?_
      refine (readOnly_lift _).bind fun _ => ?_
      exact ((infallible_update _).bind fun _ => infallible_pure _).atomic
    refine ⟨hatomic m fault m' h, ?_⟩
    rintro rfl
    simp only [protect, status_bind_panicked, failIf_bind_error, read_bind,
      require_bind_error, lift_bind_error, update_bind, pure_apply,
      Prod.mk.injEq, reduceCtorEq, false_and, and_false, exists_false, or_false, false_or] at h
    obtain ⟨-, -, -, -, stop, -, -, first, -, ⟨⟩, hwalk, hpanic, -⟩ := h
    refine overridePages_not_panicked (fun a hle hlt => ?_) hpanic
    obtain ⟨e, he, -⟩ := walk_ok hm.shaped.separated hwalk a hle hlt
    exact ⟨e, he⟩

theorem exec_invariant (reserved : Bool) (c : VmCall) :
    Invariant lower upper (c.exec reserved m).2 := by
  rcases h : c.exec reserved m with ⟨result, m'⟩
  cases result with
  | error fault =>
    rw [(exec_fails hm h).1]
    exact hm
  | ok plan => exact (exec_succeeds hm h).invariant

theorem run_invariant (calls : List (Bool × VmCall)) : Invariant lower upper (m.run calls) := by
  induction calls generalizing m with
  | nil => exact hm
  | cons call calls ih => exact ih (exec_invariant hm call.1 call.2)

end

end Success

/-! ## The shape of the map and the refinement -/

/-- The extents lie one behind the other, the first one at `b`. -/
def TilesFrom : ℕ → List VmExtent → Prop
  | _, [] => True
  | b, e :: es => e.base = b ∧ TilesFrom e.stop es

/-- The first extent that reaches past the start of a covered range starts it. -/
theorem tilesFrom_of_covered {xs : List VmExtent} {b : ℕ} (hsep : Separated xs)
    (hstart : ∀ e ∈ xs, b ≤ e.base)
    (hcover : ∀ e ∈ xs, ∀ a, b ≤ a → a < e.stop → ∃ f ∈ xs, f.Holds a) : TilesFrom b xs := by
  induction xs generalizing b with
  | nil => trivial
  | cons e es ih =>
    obtain ⟨hasc, hne⟩ := hsep
    obtain ⟨he, hes⟩ := pairwise_cons.mp hasc
    have hpos := hne e mem_cons_self
    have hlt : e.base < e.stop := by
      rw [Extent.stop]
      omega
    have hbase : e.base = b := by
      by_contra hne'
      have hle := hstart e mem_cons_self
      obtain ⟨f, hf, hfb⟩ := hcover e mem_cons_self b le_rfl (by omega)
      rcases mem_cons.mp hf with rfl | hf
      · exact hne' (le_antisymm hfb.1 hle)
      · have := he f hf
        have := hfb.1
        omega
    refine ⟨hbase, ih ⟨hes, fun f hf => hne f (mem_cons_of_mem _ hf)⟩ he ?_⟩
    intro f hf a hle hlt'
    obtain ⟨g, hg, hga⟩ := hcover f (mem_cons_of_mem _ hf) a (by omega) hlt'
    rcases mem_cons.mp hg with rfl | hg
    · exact absurd hga.2 (by omega)
    · exact ⟨g, hg, hga⟩

/-- The shape of the map: extents in order, disjoint, on page boundaries, inside the bounds,
those of an allocation one behind the other from its base on; and at most one override
for a page, on committed pages only. -/
structure WellFormed {N : ℕ} (lower upper : ℕ) (m : VmRegionMap N) : Prop where
  bounds_eq : m.lowerBound = lower ∧ m.upperBound = upper
  ascending : m.extents.occupied.Pairwise fun e f => e.stop ≤ f.base
  nonempty : ∀ e ∈ m.extents.occupied, 0 < e.size
  aligned : ∀ e ∈ m.extents.occupied, pageSize ∣ e.base ∧ pageSize ∣ e.stop
  bounded : ∀ e ∈ m.extents.occupied, lower ≤ e.base ∧ e.stop ≤ upper
  contiguous : ∀ b, TilesFrom b (m.extents.occupied.filter fun e => e.tag.allocationBase = b)
  overrides_unique : m.protectionOverrides.occupied.Pairwise fun o o' => o.page ≠ o'.page
  overrides_committed : ∀ o ∈ m.protectionOverrides.occupied,
    pageSize ∣ o.page ∧ ∃ e, m.extentAt o.page = some e ∧ e.tag.state = .committed

theorem VmRegionMap.Invariant.wellFormed {N : ℕ} {m : VmRegionMap N} {lower upper : ℕ}
    (h : Invariant lower upper m) : WellFormed lower upper m where
  bounds_eq := ⟨h.lowerBound_eq, h.upperBound_eq⟩
  ascending := h.shaped.separated.ascending
  nonempty := h.shaped.separated.nonempty
  aligned := h.shaped.aligned
  bounded := h.shaped.bounded
  contiguous b := by
    have hsep := h.shaped.separated
    have hmem : ∀ e ∈ m.extents.occupied.filter fun e => e.tag.allocationBase = b,
        e ∈ m.extents.occupied ∧ e.tag.allocationBase = b := fun e he => by
      obtain ⟨he, heb⟩ := mem_filter.mp he
      exact ⟨he, of_decide_eq_true heb⟩
    have hholds : ∀ e ∈ m.extents.occupied.filter fun e => e.tag.allocationBase = b,
        ∀ a, e.Holds a → allocationOf m.tagAt a = some b := fun e he a ha => by
      rw [allocationOf, tagAt, (tagAt_eq_some_iff hsep).mpr ⟨e, (hmem e he).1, ha, rfl⟩,
        Option.map_some,
        (hmem e he).2]
    have hfilter : Separated (m.extents.occupied.filter fun e => e.tag.allocationBase = b) :=
      ⟨hsep.ascending.filter _, fun e he => hsep.nonempty e (hmem e he).1⟩
    apply tilesFrom_of_covered hfilter
    · intro e he
      have hpos := hfilter.nonempty e he
      exact (h.rooted _ _ (hholds e he e.base ⟨le_rfl, by rw [Extent.stop]; omega⟩)).1
    · intro e he a hle hlt
      have hpos := hfilter.nonempty e he
      have hlast : allocationOf m.tagAt (e.stop - 1) = some b := by
        apply hholds e he
        rw [Extent.Holds, Extent.stop]
        omega
      have hval := (h.rooted _ _ hlast).2 a hle (by omega)
      obtain ⟨t, ht, htb⟩ := Option.map_eq_some_iff.mp hval
      obtain ⟨f, hf, hfa, rfl⟩ := (tagAt_eq_some_iff hsep).mp ht
      exact ⟨f, mem_filter.mpr ⟨hf, decide_eq_true htb⟩, hfa⟩
  overrides_unique := h.unique
  overrides_committed o ho := by
    obtain ⟨hpage, t, ht, hstate⟩ := h.committed o ho
    refine ⟨hpage, ?_⟩
    obtain ⟨e, he, rfl⟩ := Option.map_eq_some_iff.mp ht
    exact ⟨e, he, hstate⟩

/-- A call and the per-page model agree. -/
structure VmCall.StepRefines {N : ℕ} (c : VmCall) (m : VmRegionMap N)
    (result : Except Fault VmPlan) (m' : VmRegionMap N) : Prop where
  /-- all addresses of a page look the same -/
  page_uniform : ∀ a, m'.stateAt a = m'.pages (a / pageSize)
  pages_eq : m'.pages = c.update result m.pages
  /-- a plan is for the requested range, and its pages may be changed that way -/
  planned : ∀ plan, result = .ok plan →
    c.Requests m plan ∧ ∀ page, plan.Holds (page * pageSize) → c.Admits (m.pages page)
  /-- an error leaves the map as it was, and is never a panic -/
  failed : ∀ fault, result = .error fault → m' = m ∧ fault ≠ .panicked

/-- After any sequence of calls with any arguments, whatever the allocator answers, the
map has its shape, and the next call does to the pages what the per-page model says. -/
theorem calls_refine_pages (N : ℕ) (lower upper : UInt64) (calls : List (Bool × VmCall))
    (reserved : Bool) (c : VmCall) :
    let m : VmRegionMap N := (VmRegionMap.new N lower.toNat upper.toNat).run calls
    let m' := (c.exec reserved m).2
    (VmRegionMap.new N lower.toNat upper.toNat).pages = (fun _ => .free) ∧
      WellFormed lower.toNat upper.toNat m ∧ WellFormed lower.toNat upper.toNat m' ∧
      c.StepRefines m (c.exec reserved m).1 m' := by
  intro m m'
  have hm : m.Invariant lower.toNat upper.toNat :=
    run_invariant (VmRegionMap.invariant_new N lower.toNat upper.toNat) calls
  have hm' : m'.Invariant lower.toNat upper.toNat := exec_invariant hm reserved c
  refine ⟨?_, hm.wellFormed, hm'.wellFormed, fun a => ?_, ?_, ?_, ?_⟩
  · funext page
    refine stateAt_eq_free_iff.mpr ?_
    rw [VmRegionMap.tagAt, tagAt_eq_none_iff]
    intro e he
    rw [VmRegionMap.new, Slots.occupied_empty] at he
    cases he
  · symm
    change m'.stateAt (alignDown a pageSize) = _
    rw [VmRegionMap.stateAt_eq, VmRegionMap.stateAt_eq, VmRegionMap.tagAt,
      hm'.shaped.tagAt_alignDown, alignDown_eq_self (pageSize_dvd_alignDown a), VmRegionMap.tagAt]
  · rcases h : c.exec reserved m with ⟨result, m₁⟩
    have hm₁ : m' = m₁ := congrArg Prod.snd h
    rw [hm₁]
    cases result with
    | error fault =>
      rw [(exec_fails hm h).1]
      rfl
    | ok plan =>
      funext page
      exact (exec_succeeds hm h).stateAt_eq _
  · intro plan hresult
    have h : c.exec reserved m = (.ok plan, m') := Prod.ext hresult rfl
    have hok := exec_succeeds hm h
    exact ⟨hok.requested, fun page hpage => hok.admits _ hpage⟩
  · intro fault hresult
    have h : c.exec reserved m = (.error fault, m') := Prod.ext hresult rfl
    exact exec_fails hm h

/-- After any calls and for any 64-bit arguments the search for a free range finds the lowest, or
from the top the highest, admissible base, and nothing only if there is none.  A nonempty range
overlaps no extent exactly if all its addresses are free; the ends of the extents, which the
search forms without a check, fit 64 bits. -/
theorem placement_optimal (N : ℕ) (lower upper : UInt64) (calls : List (Bool × VmCall))
    (size lowerBound upperBound : UInt64) (topDown : Bool) :
    let m : VmRegionMap N := (VmRegionMap.new N lower.toNat upper.toNat).run calls
    let found := m.findFreeBetween size.toNat lowerBound.toNat upperBound.toNat topDown
    let admissible := m.FreeAt size.toNat (max lowerBound.toNat lower.toNat)
      (min upperBound.toNat upper.toNat)
    (∀ base, found = some base →
      (if topDown then IsGreatest else IsLeast) {base | admissible base} base) ∧
      (found = none ↔ ∀ base, ¬ admissible base) ∧
      (∀ base stop, base < stop → (m.overlaps base stop = false ↔
        ∀ a, base ≤ a ∧ a < stop → m.stateAt a = .free)) ∧
      ∀ e ∈ m.extents.occupied, e.stop < 2 ^ 64 := by
  intro m found admissible
  have hm : m.Invariant lower.toNat upper.toNat :=
    run_invariant (VmRegionMap.invariant_new N lower.toNat upper.toNat) calls
  have hspec := m.findFreeBetween_spec size.toNat lowerBound.toNat upperBound.toNat topDown
  rw [hm.lowerBound_eq, hm.upperBound_eq] at hspec
  change m.Selects _ _ _ _ found at hspec
  have hlt := upper.toNat_lt
  refine ⟨fun base hfound => ?_, ⟨fun hnone => ?_, fun hnone => ?_⟩, fun base stop hlt => ?_,
    fun e he => (hm.shaped.bounded e he).2.trans_lt hlt⟩
  · rw [hfound] at hspec
    exact hspec
  · rw [hnone] at hspec
    exact hspec (by omega)
  · cases hfound : found with
    | none => rfl
    | some base =>
      rw [hfound] at hspec
      cases topDown <;> exact absurd hspec.1 (hnone base)
  · simp only [VmRegionMap.overlaps_eq_false_iff_free hm.shaped.separated hlt, stateAt_eq_free_iff]

end UserspaceNtos.AddressSpace
