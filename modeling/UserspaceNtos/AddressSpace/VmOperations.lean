import UserspaceNtos.AddressSpace.VmPlacement

/-!
# The operations on pages

What an address looks like to a caller is free, reserved, or committed with a protection
(`stateAt`).  Every operation that changes the extents does so for one range of whole
pages and clears the overrides of that range; `Rewrites` describes such a change, and
`Rewrites.invariant` and `Rewrites.stateAt` say once for all of them that the invariant
is kept and that only the range changes.  `protect` leaves the extents alone and sets
overrides instead.

For each operation there is one lemma about its successful runs.  That failed runs
change nothing is read off the order of the steps: everything before the step that
writes only reads, and nothing after it can fail.
-/

namespace UserspaceNtos.AddressSpace

open ExtentMap Procedure Slots

/-- What a page looks like to a caller. -/
inductive PageState
  | free
  | reserved
  | committed (protection : Flags)
  deriving DecidableEq, Repr

/-- The state of a page from its tag and its override. -/
def pageStateOf : Option VmTag → Option Flags → PageState
  | none, _ => .free
  | some t, o =>
    match t.state with
    | .reserved => .reserved
    | .committed => .committed (o.getD t.protection)

/-- The fields of a tag that the state of a page depends on. -/
def VmTag.content (t : VmTag) : VmExtentState × Flags := (t.state, t.protection)

theorem pageStateOf_congr {t t' : Option VmTag} (h : t.map VmTag.content = t'.map VmTag.content)
    (o : Option Flags) : pageStateOf t o = pageStateOf t' o := by
  cases t with
  | none =>
    cases t' with
    | none => rfl
    | some t' => cases h
  | some t =>
    cases t' with
    | none => cases h
    | some t' =>
      simp only [Option.map_some, Option.some.injEq, VmTag.content, Prod.mk.injEq] at h
      rw [pageStateOf, pageStateOf, h.1, h.2]

/-- The number of bytes rounded up to whole pages. -/
def roundUp (n : ℕ) : ℕ := alignDown (n + (pageSize - 1)) pageSize

theorem pageSize_dvd_roundUp (n : ℕ) : pageSize ∣ roundUp n := pageSize_dvd_alignDown _

theorem le_roundUp (n : ℕ) : n ≤ roundUp n := by
  have hdiv := Nat.div_add_mod (n + (pageSize - 1)) pageSize
  have hmod := Nat.mod_lt (n + (pageSize - 1)) pageSize_pos
  rw [roundUp, alignDown, Nat.mul_comm]
  omega

variable {a : ℕ}

theorem eq_of_checkedAdd {b c : ℕ} (h : checkedAdd a b = some c) : c = a + b := by
  rw [checkedAdd] at h
  split at h
  · exact (Option.some.inj h).symm
  · cases h

theorem eq_of_alignUp {b : ℕ} (h : alignUp a pageSize = some b) : b = roundUp a := by
  obtain ⟨c, hc, rfl⟩ := Option.map_eq_some_iff.mp h
  rw [eq_of_checkedAdd hc, roundUp]

theorem eq_of_pageEnd {n stop : ℕ} (h : pageEnd a n = some stop) : stop = roundUp (a + n) := by
  obtain ⟨c, hc, hstop⟩ := Option.bind_eq_some_iff.mp h
  rw [eq_of_alignUp hstop, eq_of_checkedAdd hc]

theorem alignDown_lt_roundUp {n : ℕ} (hn : 0 < n) : alignDown a pageSize < roundUp (a + n) := by
  have hle := VmRegionMap.alignDown_le a pageSize
  have hle' := le_roundUp (a + n)
  omega

namespace VmRegionMap

variable {N b base stop lowerBound size upperBound requestedSize address : ℕ} {m m' : VmRegionMap N}
  {lower upper : ℕ} {α : Type} {reserved : Bool} {u : Unit} {requestedBase : Option ℕ}
  {allocationType protection type_ : Flags} {plan : VmAllocatePlan}

/-- What an address looks like to a caller. -/
def stateAt (m : VmRegionMap N) (a : ℕ) : PageState :=
  match m.extentAt a with
  | none => .free
  | some _ =>
    match m.protectionAt a with
    | none => .reserved
    | some protection => .committed protection

theorem stateAt_eq (m : VmRegionMap N) (a : ℕ) : m.stateAt a = pageStateOf (m.tagAt a)
      (overrideAt m.protectionOverrides.occupied (alignDown a pageSize)) := by
  rw [stateAt, tagAt_eq_map]
  cases he : m.extentAt a with
  | none => rfl
  | some e =>
    simp only [protectionAt, he, Option.bind_some, Option.map_some, pageStateOf]
    cases hs : e.tag.state with
    | reserved | committed => rfl

theorem ne_none_of_allocationOf {a : ℕ} (h : allocationOf m.tagAt a = some b) :
    m.tagAt a ≠ none := by
  intro hnone
  rw [allocationOf, hnone] at h
  cases h

/-! ## Changes of a range of pages -/

/-- The tags in a range become `new`, what the others say about their pages stays, and
the overrides of the range are cleared. -/
structure Rewrites (lower upper base stop : ℕ) (new : Option VmTag → Option VmTag)
    (m m' : VmRegionMap N) : Prop where
  lowerBound_eq : m'.lowerBound = m.lowerBound
  upperBound_eq : m'.upperBound = m.upperBound
  aligned : pageSize ∣ base ∧ pageSize ∣ stop
  shaped : Shaped lower upper m'.extents.occupied
  rooted : Rooted m'.tagAt
  inside : ∀ a, base ≤ a ∧ a < stop → m'.tagAt a = new (m.tagAt a)
  outside : ∀ a, ¬ (base ≤ a ∧ a < stop) →
    (m'.tagAt a).map VmTag.content = (m.tagAt a).map VmTag.content
  overrides : m'.protectionOverrides =
    m.protectionOverrides.discard fun o => base ≤ o.page && o.page < stop

namespace Rewrites

variable {base stop : ℕ} {new : Option VmTag → Option VmTag}

section

variable (h : Rewrites lower upper base stop new m m')
include h

theorem mem_overrides {o : VmProtectionOverride} : o ∈ m'.protectionOverrides.occupied ↔
      o ∈ m.protectionOverrides.occupied ∧ ¬ (base ≤ o.page ∧ o.page < stop) := by
  rw [h.overrides, mem_occupied_discard, ← Bool.not_eq_true, Bool.and_eq_true,
    decide_eq_true_eq, decide_eq_true_eq]

theorem unique (hunique : UniquePages m.protectionOverrides.occupied) :
    UniquePages m'.protectionOverrides.occupied := by
  rw [h.overrides]
  exact hunique.sublist (occupied_discard_sublist _ _)

theorem invariant (hm : Invariant lower upper m) : Invariant lower upper m' where
  lowerBound_eq := h.lowerBound_eq.trans hm.lowerBound_eq
  upperBound_eq := h.upperBound_eq.trans hm.upperBound_eq
  shaped := h.shaped
  rooted := h.rooted
  unique := h.unique hm.unique
  committed o ho := by
    obtain ⟨hmem, hout⟩ := h.mem_overrides.mp ho
    obtain ⟨hpage, t, ht, hstate⟩ := hm.committed o hmem
    refine ⟨hpage, ?_⟩
    have hcontent := h.outside o.page hout
    rw [ht, Option.map_some] at hcontent
    obtain ⟨t', ht', hsame⟩ := Option.map_eq_some_iff.mp hcontent
    exact ⟨t', ht', (congrArg Prod.fst hsame).trans hstate⟩

theorem stateAt (hm : Invariant lower upper m) (a : ℕ) : m'.stateAt a =
      if base ≤ a ∧ a < stop then pageStateOf (new (m.tagAt a)) none else m.stateAt a := by
  have hpage := alignDown_mem_iff (a := a) h.aligned.1 h.aligned.2
  rw [stateAt_eq]
  split
  case isTrue hin =>
    rw [h.inside a hin, overrideAt_eq_none]
    intro o ho heq
    have hout := (h.mem_overrides.mp ho).2
    rw [heq] at hout
    exact hout (hpage.mpr hin)
  case isFalse hout =>
    rw [stateAt_eq, pageStateOf_congr (h.outside a hout)]
    congr 1
    apply overrideAt_congr hm.unique (h.unique hm.unique)
    intro protection
    rw [h.mem_overrides, and_iff_left]
    exact fun hin => hout (hpage.mp hin)

end

end Rewrites

/-! ## The writing steps -/

variable {r : Except NtStatus α}

@[simp] theorem status_bind_ok {β : Type} {f : α → Op N β} {b : β} :
    (status r >>= f) m = (.ok b, m') ↔ ∃ a, r = .ok a ∧ f a m = (.ok b, m') := by
  cases r <;> simp [status, Except.mapError]

@[simp] theorem status_bind_panicked {β : Type} {f : α → Op N β} :
    (status r >>= f) m = (.error .panicked, m') ↔
      ∃ a, r = .ok a ∧ f a m = (.error .panicked, m') := by
  cases r <;> simp [status, Except.mapError]

theorem readOnly_status (r : Except NtStatus α) : ReadOnly (status r : Op N α) := readOnly_lift _

theorem clean_status_bind {β : Type} {f : α → Op N β}
    (hf : ∀ a, Clean .panicked (f a)) : Clean .panicked (status r >>= f) := by
  refine clean_lift_bind ?_ hf
  cases r <;> exact nofun

theorem rewriteRange_ok (hm : Shaped lower upper m.extents.occupied)
    {replacement : Option (VmExtentState × Option Flags)} (hbase : pageSize ∣ base)
    (hstop : pageSize ∣ stop) (hlt : base < stop)
    (h : rewriteRange reserved base stop replacement m = (.ok u, m')) :
    m' = { m with extents := m'.extents } ∧ Shaped lower upper m'.extents.occupied ∧
      ∀ a, m'.tagAt a =
        if base ≤ a ∧ a < stop then (m.tagAt a).bind (replaceTag replacement) else m.tagAt a := by
  simp only [rewriteRange, failIf_bind_ok, read_bind, require_bind_ok,
    update_apply, Prod.mk.injEq, true_and] at h
  obtain ⟨-, next, hnext, rfl⟩ := h
  have hcut := hm.cutAll (f := replaceTag replacement) hbase hstop hlt
  have hrecut := recut_foldlM_push hnext
  rw [List.nil_append] at hrecut
  have hocc := occupied_ofList (length_foldlM_push (Nat.zero_le N) hnext)
  refine ⟨rfl, ?_, fun a => ?_⟩
  · rw [hocc]
    exact hcut.recut hrecut
  · rw [tagAt, hocc, hrecut.tagAt hcut.separated, tagAt_cutAll hm.separated hlt, tagAt]

theorem rewriteRange_clean {replacement : Option (VmExtentState × Option Flags)} :
    Clean .panicked (rewriteRange reserved base stop replacement : Op N Unit) := by
  refine clean_failIf_bind nofun fun _ => clean_read_bind fun _ => ?_
  exact clean_require_bind nofun fun _ => (infallible_update _).clean

/-- The extents after `normalize`: the old ones in order, with neighbours joined. -/
theorem normalized_spec (extents : Slots VmExtent N) :
    ∃ sorted : List VmExtent, sorted.Perm extents.occupied ∧
      (sorted.Pairwise fun e f => e.base ≤ f.base) ∧
        Recut sorted (normalized extents).occupied := by
  refine ⟨(extents.sortBy (·.base)).occupied, perm_occupied_sortBy _ _,
    pairwise_occupied_sortBy _ _, ?_⟩
  rw [normalized, leading_sortBy, occupied_ofList]
  · exact recut_coalesce _
  · exact (length_coalesce_le _).trans (length_occupied_le _)

/-- Extents that are in order already only get joined. -/
theorem normalized_of_shaped {extents : Slots VmExtent N}
    (h : Shaped lower upper extents.occupied) : Shaped lower upper (normalized extents).occupied ∧
      ∀ a, ExtentMap.tagAt (normalized extents).occupied a =
        ExtentMap.tagAt extents.occupied a := by
  obtain ⟨sorted, hperm, hsorted, hrecut⟩ := normalized_spec extents
  have hshaped : Shaped lower upper sorted := by
    refine ⟨separated_of_sorted ?_ hsorted ?_, ?_, ?_⟩
    · rw [hperm.pairwise_iff fun {x y} hxy => Or.symm hxy]
      exact h.separated.ascending.imp fun hle => Or.inl hle
    · exact fun e he => h.separated.nonempty e (hperm.mem_iff.mp he)
    · exact fun e he => h.aligned e (hperm.mem_iff.mp he)
    · exact fun e he => h.bounded e (hperm.mem_iff.mp he)
  refine ⟨hshaped.recut hrecut, fun a => ?_⟩
  rw [hrecut.tagAt hshaped.separated]
  refine tagAt_congr h.separated hshaped.separated fun t => ?_
  simp only [Tagged, hperm.mem_iff]

theorem normalize_infallible : Infallible (normalize : Op N Unit) := infallible_update _

theorem insert_clean {e : VmExtent} : Clean .panicked (insert e : Op N Unit) :=
  clean_read_bind fun _ =>
    clean_require_bind nofun fun _ => (infallible_update _).clean

/-! ## Allocation -/

/-- The range of an allocation: the pages of the requested bytes, from the preceding
multiple of the granularity on, or whole pages at some multiple of it. -/
def AllocationRange (requestedBase : Option ℕ) (requestedSize base stop : ℕ) : Prop :=
  match requestedBase with
  | some address =>
    base = alignDown address allocationGranularity ∧ stop = roundUp (address + requestedSize)
  | none => allocationGranularity ∣ base ∧ stop = base + roundUp requestedSize

theorem AllocationRange.aligned (h : AllocationRange requestedBase requestedSize base stop) :
    pageSize ∣ base ∧ pageSize ∣ stop := by
  cases requestedBase with
  | some address =>
    obtain ⟨rfl, rfl⟩ := h
    exact ⟨pageSize_dvd_granularity.trans (Nat.dvd_mul_left _ _), pageSize_dvd_roundUp _⟩
  | none =>
    obtain ⟨hdvd, rfl⟩ := h
    have hbase := pageSize_dvd_granularity.trans hdvd
    exact ⟨hbase, Nat.dvd_add hbase (pageSize_dvd_roundUp _)⟩

theorem reserveRange_ok
    (h : m.reserveRange requestedBase requestedSize allocationType lowerBound upperBound =
      .ok (base, stop)) : AllocationRange requestedBase requestedSize base stop := by
  cases requestedBase with
  | some address =>
    obtain ⟨stop', hstop, hpure⟩ := Result.bind_eq_ok h
    cases hpure
    exact ⟨rfl, eq_of_pageEnd (Result.orError_eq_ok_iff.mp hstop)⟩
  | none =>
    obtain ⟨size, hsize, hrest⟩ := Result.bind_eq_ok h
    obtain ⟨base', hbase, hpure⟩ := Result.bind_eq_ok hrest
    cases hpure
    refine ⟨findFreeBetween_dvd (Result.orError_eq_ok_iff.mp hbase), ?_⟩
    rw [eq_of_alignUp (Result.orError_eq_ok_iff.mp hsize)]

theorem reserve_ok (hm : Invariant lower upper m) (hupper : upperBound ≤ upper)
    (h : reserve requestedBase requestedSize allocationType protection lowerBound upperBound type_
      m = (.ok plan, m')) :
    AllocationRange requestedBase requestedSize plan.base (plan.base + plan.size) ∧
      (∀ a, plan.base ≤ a ∧ a < plan.base + plan.size → m.tagAt a = none) ∧
      Rewrites lower upper plan.base (plan.base + plan.size) (fun _ => some ⟨plan.base, protection,
          if allocationType &&& memCommit ≠ 0 then .committed else .reserved, type_⟩) m m' := by
  simp only [reserve, failIf_bind_ok, read_bind, status_bind_ok, normalize,
    clearProtectionOverrides, bind_ok_iff (x := insert _), update_bind,
    pure_apply, Prod.mk.injEq, Except.ok.injEq, Prod.exists] at h
  obtain ⟨base, stop, hrange, hbounds, hclear, u, m₁, hinsert, rfl, rfl⟩ := h
  simp only [insert, read_bind, require_bind_ok, update_apply, Prod.mk.injEq, true_and] at hinsert
  obtain ⟨extents, hfill, rfl⟩ := hinsert
  have hrange := reserveRange_ok hrange
  have hlt : base < stop := by omega
  have hstop : base + (stop - base) = stop := by omega
  dsimp only at *
  rw [hstop]
  have hlower : m.lowerBound = lower := hm.lowerBound_eq
  have hclear : m.overlaps base stop = false := Bool.eq_false_iff.mpr fun h => hclear (.inr h)
  have hnone := (overlaps_eq_false_iff_free hm.shaped.separated hlt).mp hclear
  -- an extent is added where none is in the way
  obtain ⟨sorted, hperm, hsorted, hrecut⟩ := normalized_spec extents
  have hperm := hperm.trans (perm_occupied_fill hfill)
  have hshaped : Shaped lower upper sorted := by
    apply hm.shaped.of_perm_cons hperm hsorted
    · dsimp only
      omega
    · rw [Extent.stop, hstop]
      exact hrange.aligned
    · rw [Extent.stop, hstop]
      dsimp only
      omega
    · rw [Extent.stop, hstop]
      exact overlaps_eq_false_iff.mp hclear
  have htag : ∀ a, _ = _ := fun a => (hrecut.tagAt (a := a) hshaped.separated).trans
    (tagAt_of_perm_cons hm.shaped.separated hshaped.separated hperm)
  simp only [Extent.Holds, Extent.stop, hstop] at htag
  refine ⟨hrange, hnone, rfl, rfl, hrange.aligned, hshaped.recut hrecut, ?_, ?_, ?_, rfl⟩
  · refine hm.rooted.insert ?_ htag fun a hle hlt' => hnone a ⟨hle, hlt'⟩
    rfl
  · intro a ha
    exact (htag a).trans (if_pos ha)
  · intro a ha
    exact congrArg _ ((htag a).trans (if_neg ha))

theorem reserve_clean :
    Clean .panicked (reserve requestedBase requestedSize allocationType protection lowerBound
      upperBound type_ : Op N VmAllocatePlan) := by
  refine clean_read_bind fun _ => clean_status_bind fun _ => ?_
  refine clean_failIf_bind nofun fun _ => clean_failIf_bind nofun fun _ => ?_
  refine insert_clean.bind fun _ => normalize_infallible.bind fun _ => ?_
  exact (infallible_update _).bind fun _ => infallible_pure _

/-- Rewriting state and protection of a range, and clearing its overrides. -/
theorem retag_rewrites (hm : Invariant lower upper m) {state : VmExtentState}
    {protection : Option Flags} (hbase : pageSize ∣ base) (hstop : pageSize ∣ stop)
    (hlt : base < stop)
    (h : rewriteRange reserved base stop (some (state, protection)) m = (.ok u, m')) :
    Rewrites lower upper base stop
      (fun t => t.map fun t => { t with state, protection := protection.getD t.protection }) m
      { m' with protectionOverrides :=
          m'.protectionOverrides.discard fun o => base ≤ o.page && o.page < stop } := by
  obtain ⟨hm', hshaped, htag⟩ := rewriteRange_ok hm.shaped hbase hstop hlt h
  have hin : ∀ a, base ≤ a ∧ a < stop → m'.tagAt a =
      (m.tagAt a).map fun t => { t with state, protection := protection.getD t.protection } := by
    intro a ha
    rw [htag, if_pos ha]
    cases m.tagAt a <;> rfl
  rw [hm']
  refine ⟨rfl, rfl, ⟨hbase, hstop⟩, hshaped, ?_, hin, fun a ha => ?_, rfl⟩
  · refine hm.rooted.of_allocationOf_eq fun a => ?_
    change allocationOf m'.tagAt a = _
    by_cases ha : base ≤ a ∧ a < stop
    · rw [allocationOf, hin a ha, Option.map_map, allocationOf]
      rfl
    · rw [allocationOf, htag, if_neg ha, allocationOf]
  · change Option.map _ (m'.tagAt a) = _
    rw [htag, if_neg ha]

theorem commit_ok (hm : Invariant lower upper m)
    (h : commit reserved address requestedSize protection upperBound type_ m = (.ok plan, m')) :
    plan.base = alignDown address pageSize ∧
      plan.base + plan.size = roundUp (address + requestedSize) ∧
      (∀ a, plan.base ≤ a ∧ a < plan.base + plan.size → m.tagAt a ≠ none) ∧
      Rewrites lower upper plan.base (plan.base + plan.size)
        (fun t => t.map fun t => { t with state := .committed, protection := protection })
        m m' := by
  simp only [commit, read_bind, require_bind_ok, failIf_bind_ok,
    clearProtectionOverrides, bind_ok_iff (x := rewriteRange _ _ _ _), update_bind,
    pure_apply, Prod.mk.injEq, Except.ok.injEq] at h
  obtain ⟨stop, hstop, hbounds, hallocation, -, u, m₁, hrewrite, rfl, rfl⟩ := h
  obtain ⟨b, hb⟩ : ∃ b, m.allocationForRange (alignDown address pageSize) stop = .ok b := by
    cases hr : m.allocationForRange (alignDown address pageSize) stop with
    | error e =>
      rw [hr] at hallocation
      exact absurd rfl hallocation
    | ok b => exact ⟨b, rfl⟩
  have hrange := allocationForRange_ok hm.shaped.separated hb
  have hstop := eq_of_pageEnd hstop
  have hdvd : pageSize ∣ stop := hstop ▸ pageSize_dvd_roundUp _
  have hsum : alignDown address pageSize + (stop - alignDown address pageSize) = stop := by omega
  dsimp only
  rw [hsum]
  refine ⟨rfl, hstop, fun a ha => ne_none_of_allocationOf (hrange a ha.1 ha.2), ?_⟩
  exact retag_rewrites hm (pageSize_dvd_alignDown address) hdvd (by omega) hrewrite

theorem commit_clean :
    Clean .panicked (commit reserved address requestedSize protection upperBound type_ :
      Op N VmAllocatePlan) := by
  refine clean_read_bind fun _ => clean_require_bind nofun fun _ => ?_
  refine clean_failIf_bind nofun fun _ => clean_failIf_bind nofun fun _ => ?_
  refine clean_failIf_bind nofun fun _ => rewriteRange_clean.bind fun _ => ?_
  exact (infallible_update _).bind fun _ => infallible_pure _

/-- `MEM_RESET` changes nothing. -/
theorem reset_ok (hsize : 0 < requestedSize)
    (h : (reset address requestedSize : Op N VmAllocatePlan) m = (.ok plan, m')) :
    m' = m ∧ plan.base = alignDown address pageSize ∧
      plan.base + plan.size = roundUp (address + requestedSize) := by
  simp only [reset, read_bind, require_bind_ok, failIf_bind_ok,
    pure_apply, Prod.mk.injEq, Except.ok.injEq] at h
  obtain ⟨stop, hstop, -, rfl, rfl⟩ := h
  have hstop := eq_of_pageEnd hstop
  have hlt := alignDown_lt_roundUp (a := address) hsize
  refine ⟨rfl, rfl, ?_⟩
  dsimp only
  omega

theorem reset_clean : Clean .panicked (reset address requestedSize : Op N VmAllocatePlan) := by
  refine clean_read_bind fun _ => clean_require_bind nofun fun _ => ?_
  exact clean_failIf_bind nofun fun _ => (infallible_pure _).clean

theorem allocateBetweenType_clean :
    Clean .panicked (allocateBetweenType reserved requestedBase requestedSize allocationType
      protection lowerBound upperBound type_ : Op N VmAllocatePlan) := by
  refine clean_status_bind fun _ => clean_read_bind fun _ => ?_
  refine clean_failIf_bind nofun fun _ => clean_failIf_bind nofun fun _ => ?_
  cases requestedBase with
  | none => exact reserve_clean
  | some address =>
    exact reset_clean.ite (reserve_clean.ite commit_clean)

/-! ## Freeing and unmapping -/

theorem shaped_rebase {xs : List VmExtent} (h : Shaped lower upper xs) (b stop : ℕ) :
    Shaped lower upper (xs.map (rebase b stop)) := by
  have hbase : ∀ e : VmExtent, (rebase b stop e).base = e.base := by
    intro e
    rw [rebase]
    split <;> rfl
  have hsize : ∀ e : VmExtent, (rebase b stop e).size = e.size := by
    intro e
    rw [rebase]
    split <;> rfl
  have hstop : ∀ e : VmExtent, (rebase b stop e).stop = e.stop := by
    intro e
    rw [Extent.stop, hbase, hsize, Extent.stop]
  refine ⟨⟨?_, ?_⟩, ?_, ?_⟩
  · rw [List.pairwise_map]
    simp only [hbase, hstop]
    exact h.separated.ascending
  · simp only [List.forall_mem_map, hsize]
    exact h.separated.nonempty
  · simp only [List.forall_mem_map, hbase, hstop]
    exact h.aligned
  · simp only [List.forall_mem_map, hbase, hstop]
    exact h.bounded

/-- Where the last address before `stop` is free, no extent reaches across `stop`, so the
extents to be rebased are those of the addresses from `stop` on. -/
theorem tagAt_rebase {xs : List VmExtent} (hpos : 0 < stop)
    (hfree : ExtentMap.tagAt xs (stop - 1) = none) (a : ℕ) :
    ExtentMap.tagAt (xs.map (rebase b stop)) a = (ExtentMap.tagAt xs a).map fun t =>
      if t.allocationBase = b ∧ stop ≤ a then { t with allocationBase := stop } else t := by
  have hholds : ∀ e : VmExtent, (rebase b stop e).Holds a ↔ e.Holds a := by
    intro e
    rw [rebase]
    split <;> rfl
  rw [ExtentMap.tagAt, find, List.find?_map, ExtentMap.tagAt, find, Option.map_map, Option.map_map]
  simp only [Function.comp_def, hholds]
  cases hfind : xs.find? fun e => decide (e.Holds a) with
  | none => rfl
  | some e =>
    obtain ⟨hmem, hbase, hstop⟩ := holds_of_find hfind
    have hcross : stop ≤ e.base ↔ stop ≤ a := by
      refine ⟨fun hle => hle.trans hbase, fun hle => ?_⟩
      by_contra hlt
      refine tagAt_eq_none_iff.mp hfree e hmem ⟨?_, ?_⟩ <;> omega
    simp only [Option.map_some, rebase, hcross]
    split <;> rfl

/-- Releasing part of an allocation. -/
theorem release_rewrites (hm : Invariant lower upper m) (hbase : pageSize ∣ base)
    (hstop : pageSize ∣ stop) (hlt : base < stop)
    (hrange : ∀ a, base ≤ a → a < stop → allocationOf m.tagAt a = some b)
    (h : rewriteRange reserved base stop none m = (.ok u, m')) :
    Rewrites lower upper base stop (fun _ => none) m { m' with
        extents := normalized (m'.extents.map (rebase b stop))
        protectionOverrides :=
          m'.protectionOverrides.discard fun o => base ≤ o.page && o.page < stop } := by
  obtain ⟨hm', hshaped, htag⟩ := rewriteRange_ok hm.shaped hbase hstop hlt h
  have hnone : ∀ a, base ≤ a ∧ a < stop → m'.tagAt a = none := by
    intro a ha
    rw [htag, if_pos ha]
    cases m.tagAt a <;> rfl
  have hkeep : ∀ a, ¬ (base ≤ a ∧ a < stop) → m'.tagAt a = m.tagAt a := fun a ha => by
    rw [htag, if_neg ha]
  have hrebased := shaped_rebase hshaped b stop
  rw [← occupied_map] at hrebased
  obtain ⟨hfinal, hsame⟩ := normalized_of_shaped hrebased
  -- what lies behind the range becomes an allocation of its own
  have hall : ∀ a, ExtentMap.tagAt (normalized (m'.extents.map (rebase b stop))).occupied a =
      (m'.tagAt a).map fun t =>
        if t.allocationBase = b ∧ stop ≤ a then { t with allocationBase := stop } else t := by
    intro a
    rw [hsame, occupied_map]
    exact tagAt_rebase (by omega) (hnone _ (by omega)) a
  rw [hm']
  refine ⟨rfl, rfl, ⟨hbase, hstop⟩, hfinal, ?_, ?_, ?_, rfl⟩
  · refine hm.rooted.release hlt hrange ?_ ?_ ?_
    · intro a ha
      exact (hall a).trans (by rw [hnone a ha, Option.map_none])
    · intro a hle hval
      obtain ⟨t, ht, htb⟩ := Option.map_eq_some_iff.mp hval
      refine (congrArg _ (hall a)).trans ?_
      rw [hkeep a (by omega), ht, Option.map_some, if_pos ⟨htb, hle⟩, Option.map_some]
    · intro a ha hother
      refine (congrArg _ (hall a)).trans ?_
      rw [hkeep a ha, allocationOf, Option.map_map]
      cases ht : m.tagAt a with
      | none => rfl
      | some t =>
        have hneg : ¬ (t.allocationBase = b ∧ stop ≤ a) := by
          rintro ⟨htb, hle⟩
          rcases hother with hlt' | hne
          · omega
          · exact hne (by rw [allocationOf, ht, Option.map_some, htb])
        simp only [Option.map_some, Function.comp_apply, if_neg hneg]
  · intro a ha
    exact (hall a).trans (by rw [hnone a ha, Option.map_none])
  · intro a ha
    refine (congrArg _ (hall a)).trans ?_
    rw [hkeep a ha, Option.map_map]
    congr 1
    funext t
    rw [Function.comp_apply]
    split <;> rfl

/-- Removing a whole allocation. -/
theorem unmap_rewrites (hm : Invariant lower upper m) (hend : m.allocationEnd b = some stop)
    (h : rewriteRange reserved b stop none m = (.ok u, m')) :
    Rewrites lower upper b stop (fun _ => none) m
      { m' with protectionOverrides :=
          m'.protectionOverrides.discard fun o => b ≤ o.page && o.page < stop } := by
  obtain ⟨hlt, hbase, hstop, hrange⟩ := hm.allocationEnd_spec hend
  obtain ⟨hm', hshaped, htag⟩ := rewriteRange_ok hm.shaped hbase hstop hlt h
  have hnone : ∀ a, b ≤ a ∧ a < stop → m'.tagAt a = none := by
    intro a ha
    rw [htag, if_pos ha]
    cases m.tagAt a <;> rfl
  have hkeep : ∀ a, ¬ (b ≤ a ∧ a < stop) → m'.tagAt a = m.tagAt a := fun a ha => by
    rw [htag, if_neg ha]
  rw [hm']
  refine ⟨rfl, rfl, ⟨hbase, hstop⟩, hshaped, ?_, hnone, fun a ha => ?_, rfl⟩
  · refine hm.rooted.release hlt (fun a hle hlt' => (hrange a).mp ⟨hle, hlt'⟩) hnone ?_ ?_
    · intro a hle hval
      have := (hrange a).mpr hval
      omega
    · intro a ha _
      change allocationOf m'.tagAt a = _
      rw [allocationOf, hkeep a ha, allocationOf]
  · change Option.map _ (m'.tagAt a) = _
    rw [hkeep a ha]

/-- The range that `free` is asked for. -/
def FreeRange (m : VmRegionMap N) (requestedBase requestedSize base stop : ℕ) : Prop :=
  base = alignDown requestedBase pageSize ∧
    if requestedSize = 0 then ∀ a, base ≤ a ∧ a < stop ↔ allocationOf m.tagAt a = some base
    else stop = roundUp (requestedBase + requestedSize)

variable {requestedBase : ℕ}

theorem freeEnd_ok (hm : Invariant lower upper m) {first : VmExtent}
    (h : m.freeEnd first (alignDown requestedBase pageSize) requestedBase requestedSize =
      .ok stop) :
    FreeRange m requestedBase requestedSize (alignDown requestedBase pageSize) stop ∧
      alignDown requestedBase pageSize < stop ∧ pageSize ∣ stop := by
  rw [freeEnd] at h
  split at h
  case isTrue hzero =>
    split at h
    case isTrue => cases h
    case isFalse hbase =>
      obtain ⟨hfirst, hroot⟩ := not_or.mp hbase
      rw [not_not] at hfirst hroot
      rw [Result.orError_eq_ok_iff, ← hroot, ← hfirst] at h
      obtain ⟨hlt, -, hdvd, hrange⟩ := hm.allocationEnd_spec h
      refine ⟨⟨rfl, ?_⟩, hlt, hdvd⟩
      rw [if_pos hzero]
      exact hrange
  case isFalse hpos =>
    have hstop := eq_of_pageEnd (Result.orError_eq_ok_iff.mp h)
    refine ⟨⟨rfl, ?_⟩, ?_, ?_⟩
    · rw [if_neg hpos]
      exact hstop
    · rw [hstop]
      exact alignDown_lt_roundUp (Nat.pos_of_ne_zero hpos)
    · rw [hstop]
      exact pageSize_dvd_roundUp _

theorem free_ok (hm : Invariant lower upper m) {freeType : Flags}
    {plan : VmFreePlan}
    (h : free reserved requestedBase requestedSize freeType m = (.ok plan, m')) :
    FreeRange m requestedBase requestedSize plan.base (plan.base + plan.size) ∧
      (∀ a, plan.base ≤ a ∧ a < plan.base + plan.size → m.tagAt a ≠ none) ∧
      Rewrites lower upper plan.base (plan.base + plan.size)
        (fun t => if freeType = memDecommit then t.map fun t => { t with state := .reserved }
          else none) m m' := by
  simp only [free, read_bind, require_bind_ok, failIf_bind_ok, status_bind_ok,
    clearProtectionOverrides, normalize, bind_ok_iff (x := rewriteRange _ _ _ _),
    update_bind] at h
  obtain ⟨htype, first, hfirst, -, stop, hstop, b, hb, u, m₁, hrewrite, hrest⟩ := h
  obtain ⟨hrange, hlt, hdvd⟩ := freeEnd_ok hm hstop
  have hbase := pageSize_dvd_alignDown requestedBase
  have hall := allocationForRange_ok hm.shaped.separated hb
  -- the walk starts at `first`, so its allocation is the one of the range
  have hfirstb : first.tag.allocationBase = b := by
    have hval := hall _ le_rfl hlt
    rw [allocationOf, tagAt_of_extentAt hfirst, Option.map_some] at hval
    exact Option.some.inj hval
  have hsum : alignDown requestedBase pageSize + (stop - alignDown requestedBase pageSize) =
      stop := by omega
  have hplan : plan = ⟨alignDown requestedBase pageSize,
      stop - alignDown requestedBase pageSize, freeType⟩ := by
    split at hrest <;> exact (Except.ok.inj (congrArg Prod.fst hrest)).symm
  subst hplan
  dsimp only at hrest ⊢
  rw [hsum]
  refine ⟨hrange, fun a ha => ne_none_of_allocationOf (hall a ha.1 ha.2), ?_⟩
  by_cases hrelease : freeType = memRelease
  · rw [if_pos hrelease] at hrest
    have hdecommit : freeType ≠ memDecommit := by
      rw [hrelease]
      decide
    rw [if_neg hdecommit] at hrewrite
    simp only [if_neg hdecommit]
    rw [← (Prod.mk.inj hrest).2, hfirstb]
    exact release_rewrites hm hbase hdvd hlt hall hrewrite
  · have hdecommit : freeType = memDecommit := by
      by_contra hne
      exact htype ⟨hrelease, hne⟩
    rw [if_neg hrelease] at hrest
    rw [if_pos hdecommit] at hrewrite
    simp only [if_pos hdecommit]
    rw [← (Prod.mk.inj hrest).2]
    exact retag_rewrites hm hbase hdvd hlt hrewrite

theorem free_clean {freeType : Flags} :
    Clean .panicked (free reserved requestedBase requestedSize freeType : Op N VmFreePlan) := by
  refine clean_failIf_bind nofun fun _ => clean_read_bind fun _ => ?_
  refine clean_require_bind nofun fun _ => clean_failIf_bind nofun fun _ => ?_
  refine clean_status_bind fun _ => clean_status_bind fun _ => ?_
  refine rewriteRange_clean.bind fun _ => (infallible_update _).bind fun _ => ?_
  refine Infallible.ite ?_ (infallible_pure _)
  exact (infallible_update _).bind fun _ => normalize_infallible.bind fun _ =>
    infallible_pure _

theorem unmapMapped_ok (hm : Invariant lower upper m) {plan : VmFreePlan}
    (h : unmapMapped reserved address m = (.ok plan, m')) :
    (∃ b, allocationOf m.tagAt address = some b ∧
      ∀ a, plan.base ≤ a ∧ a < plan.base + plan.size ↔ allocationOf m.tagAt a = some b) ∧
      Rewrites lower upper plan.base (plan.base + plan.size) (fun _ => none) m m' := by
  simp only [unmapMapped, read_bind, require_bind_ok, failIf_bind_ok,
    clearProtectionOverrides, bind_ok_iff (x := rewriteRange _ _ _ _), update_bind,
    pure_apply, Prod.mk.injEq, Except.ok.injEq] at h
  obtain ⟨first, hfirst, -, stop, hend, u, m₁, hrewrite, rfl, rfl⟩ := h
  obtain ⟨hlt, -, -, hrange⟩ := hm.allocationEnd_spec hend
  have hsum : first.tag.allocationBase + (stop - first.tag.allocationBase) = stop := by omega
  dsimp only
  rw [hsum]
  refine ⟨⟨first.tag.allocationBase, ?_, hrange⟩, unmap_rewrites hm hend hrewrite⟩
  rw [allocationOf, tagAt, ← hm.shaped.tagAt_alignDown]
  exact congrArg _ (tagAt_of_extentAt hfirst)

theorem unmapMapped_clean : Clean .panicked (unmapMapped reserved address : Op N VmFreePlan) := by
  refine clean_read_bind fun _ => clean_require_bind nofun fun _ => ?_
  refine clean_failIf_bind nofun fun _ => clean_require_bind nofun fun _ => ?_
  refine rewriteRange_clean.bind fun _ => ?_
  exact (infallible_update _).bind fun _ => infallible_pure _

end VmRegionMap

end UserspaceNtos.AddressSpace
