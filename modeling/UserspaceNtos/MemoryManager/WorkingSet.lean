import UserspaceNtos.Lib.Result
import Mathlib.Algebra.Group.Nat.Defs
import Mathlib.Data.List.Nodup

/-!
# Working-set limits

An adjustment or an admission plans to evict the oldest pages that may go.  Both search for them
with `select_victims`, an admission with a target that leaves room for its page.
-/

namespace UserspaceNtos.MemoryManager

open List Result

/-- `WORKING_SET_PAGE_SIZE` -/
def workingSetPageSize : ℕ := 0x1000
/-- `FLUID_WORKING_SET_PAGES` -/
def fluidWorkingSetPages : ℕ := 8
/-- `DEFAULT_WORKING_SET_MINIMUM_PAGES` -/
def defaultWorkingSetMinimumPages : ℕ := 20

/-- The statuses the calls return. -/
inductive Status
  | invalidParameter | invalidHandle | insufficientResources | privilegeNotHeld | badWorkingSetLimit

/-- `WorkingSetLimits` -/
structure WorkingSetLimits where
  minimumPages : ℕ
  maximumPages : ℕ
  hardLimit : Bool

/-- `WorkingSetPage` -/
structure WorkingSetPage where
  page : ℕ
  age : ℕ
  locked : Bool
  evictable : Bool

/-- `WorkingSetAdjustmentPlan` -/
structure WorkingSetAdjustmentPlan where
  owner : ℕ
  generation : ℕ
  limits : WorkingSetLimits
  victims : List ℕ

/-- `WorkingSetEntry` -/
structure WorkingSetEntry where
  owner : ℕ
  limits : WorkingSetLimits
  generation : ℕ

/-- `WorkingSetTable` -/
structure WorkingSetTable where
  entries : List WorkingSetEntry
  nextGeneration : ℕ

/-- The page cannot be a victim. -/
def WorkingSetPage.fixed (p : WorkingSetPage) : Bool := p.locked || !p.evictable

/-- The order of the key `(age, page)`. -/
def WorkingSetPage.older (p q : WorkingSetPage) : Bool :=
  p.age < q.age ∨ p.age = q.age ∧ p.page ≤ q.page

/-- The loop of `select_victims`: the number of fixed pages and the candidates. -/
def scan (excludedPage : Option ℕ) (seen : List WorkingSetPage) :
    List WorkingSetPage → ℕ → List WorkingSetPage → Except Status (ℕ × List WorkingSetPage)
  | [], fixedPages, candidates => .ok (fixedPages, candidates)
  | p :: pages, fixedPages, candidates =>
    if p.page % workingSetPageSize ≠ 0 ∨ seen.any (·.page = p.page) then .error .invalidParameter
    else if p.fixed then scan excludedPage (seen ++ [p]) pages (fixedPages + 1) candidates
    else if some p.page ≠ excludedPage then
      scan excludedPage (seen ++ [p]) pages fixedPages (candidates ++ [p])
    else scan excludedPage (seen ++ [p]) pages fixedPages candidates

/-- `select_victims`; `reserved` says whether there is room for the candidates. -/
def selectVictims (pages : List WorkingSetPage) (targetPages : ℕ) (excludedPage : Option ℕ)
    (reserved : Bool) : Except Status (List ℕ) :=
  if ¬ reserved then .error .insufficientResources
  else do
    let scanned ← scan excludedPage [] pages 0 []
    let needed := pages.length - targetPages
    if targetPages ≤ scanned.1 + fluidWorkingSetPages then .error .badWorkingSetLimit
    else if scanned.2.length < needed then .error .badWorkingSetLimit
    else
      -- the keys are distinct, so it does not matter that the source's sort is not stable
      .ok (((scanned.2.mergeSort WorkingSetPage.older).take needed).map (·.page))

namespace WorkingSetTable

variable (table : WorkingSetTable)

/-- `index_for` -/
def indexFor (owner : ℕ) : Option ℕ := table.entries.findIdx? (·.owner = owner)

/-- The entry of an owner. -/
def entryFor (owner : ℕ) : Option WorkingSetEntry :=
  (table.indexFor owner).bind (table.entries[·]?)

/-- `prepare_adjustment` -/
def prepareAdjustment (owner minimumBytes maximumBytes : ℕ) (increaseOk hardLimit : Bool)
    (pages : List WorkingSetPage) (reserved : Bool) : Except Status WorkingSetAdjustmentPlan := do
  let current ← orError (table.entryFor owner) .invalidHandle
  let minimumPages := if minimumBytes = 0 then current.limits.minimumPages
    else max (minimumBytes / workingSetPageSize) defaultWorkingSetMinimumPages
  let maximumPages := if maximumBytes = 0 then current.limits.maximumPages
    else maximumBytes / workingSetPageSize
  if minimumPages > current.limits.minimumPages ∧ ¬ increaseOk then .error .privilegeNotHeld
  else
    -- every failure of the search is reported as a bad limit
    let victims ← (selectVictims pages maximumPages none reserved).mapError
      fun _ => .badWorkingSetLimit
    if ¬ minimumPages ≤ maximumPages then .error .badWorkingSetLimit
    else .ok ⟨owner, current.generation, ⟨minimumPages, maximumPages, hardLimit⟩, victims⟩

/-- `prepare_admission` -/
def prepareAdmission (owner page : ℕ) (pages : List WorkingSetPage) (reserved : Bool) :
    Except Status WorkingSetAdjustmentPlan := do
  let current ← orError (table.entryFor owner) .invalidHandle
  let victims ← (
    if ¬ current.limits.hardLimit ∨ pages.any (·.page = page) then .ok []
    else if current.limits.maximumPages = 0 then .error .badWorkingSetLimit
    else selectVictims pages (current.limits.maximumPages - 1) (some page) reserved)
  return ⟨owner, current.generation, current.limits, victims⟩

/-- `commit_adjustment` -/
def commitAdjustment (plan : WorkingSetAdjustmentPlan) : Except Status WorkingSetTable := do
  let index ← orError (table.indexFor plan.owner) .invalidHandle
  let entry ← orError table.entries[index]? .invalidHandle
  if entry.generation ≠ plan.generation then .error .invalidParameter
  else if 2 ^ 64 ≤ table.nextGeneration + 1 then .error .insufficientResources
  else
    return ⟨table.entries.set index ⟨entry.owner, plan.limits, table.nextGeneration⟩,
      table.nextGeneration + 1⟩

end WorkingSetTable

/-- The resident pages of an owner. -/
structure PageList where
  pages : List WorkingSetPage
  aligned : ∀ p ∈ pages, p.page % workingSetPageSize = 0
  distinct : (pages.map (·.page)).Nodup

namespace PageList

variable (resident : PageList)

/-- How many pages cannot be victims. -/
def fixedPages : ℕ := resident.pages.countP WorkingSetPage.fixed

/-- The page is not resident. -/
def New (page : ℕ) : Prop := ∀ p ∈ resident.pages, some p.page ≠ some page

/-- The number of pages that stay. -/
def remaining (victims : List ℕ) : ℕ := (resident.pages.filter (·.page ∉ victims)).length

/-- The victims are among the pages that may go, and no older one of these stays. -/
structure Oldest (victims : List ℕ) : Prop where
  distinct : victims.Nodup
  evictable : ∀ v ∈ victims, ∃ p ∈ resident.pages, p.page = v ∧ p.evictable ∧ ¬ p.locked
  oldest : ∀ p ∈ resident.pages, p.page ∈ victims → ∀ q ∈ resident.pages, q.page ∉ victims →
    q.evictable → ¬ q.locked → p.older q

end PageList

/-! ## The search -/

variable {resident : PageList} {table table' : WorkingSetTable} {plan : WorkingSetAdjustmentPlan}
  {target owner : ℕ} {excluded : Option ℕ} {victims : List ℕ} {reserved : Bool}

open WorkingSetPage

theorem scan_eq {pages : List WorkingSetPage} (seen : List WorkingSetPage) {fixedPages : ℕ}
    {candidates : List WorkingSetPage} (haligned : ∀ p ∈ pages, p.page % workingSetPageSize = 0)
    (hdistinct : ((seen ++ pages).map (·.page)).Nodup)
    (hnew : ∀ p ∈ pages, some p.page ≠ excluded) :
    scan excluded seen pages fixedPages candidates = .ok
      (fixedPages + pages.countP fixed, candidates ++ pages.filter (! ·.fixed)) := by
  induction pages generalizing seen fixedPages candidates with
  | nil => simp [scan]
  | cons p pages ih =>
    rw [forall_mem_cons] at haligned hnew
    have hseen : ¬ seen.any (·.page = p.page) := by
      simp only [map_append, map_cons, nodup_append, mem_map, mem_cons] at hdistinct
      simp only [any_eq_true, decide_eq_true_eq, not_exists, not_and]
      exact fun q hq heq => hdistinct.2.2 _ ⟨q, hq, rfl⟩ _ (.inl rfl) heq
    rw [append_cons] at hdistinct
    rw [scan, if_neg (by simp [haligned.1, hseen]), ih _ haligned.2 hdistinct hnew.2,
      ih _ haligned.2 hdistinct hnew.2, if_pos hnew.1]
    by_cases hfixed : p.fixed
    · simp [hfixed, Nat.add_comm, Nat.add_left_comm]
    · simp [hfixed]

theorem length_pages (resident : PageList) : resident.pages.length =
    resident.fixedPages + (resident.pages.filter (! ·.fixed)).length := by
  rw [PageList.fixedPages, countP_eq_length_filter]
  exact length_eq_length_filter_add _

/-- There are enough candidates whenever the target leaves room for the fixed pages. -/
theorem selectVictims_eq (hnew : ∀ p ∈ resident.pages, some p.page ≠ excluded) :
    selectVictims resident.pages target excluded reserved =
      if ¬ reserved then .error .insufficientResources
      else if target ≤ resident.fixedPages + fluidWorkingSetPages then .error .badWorkingSetLimit
      else .ok ((((resident.pages.filter (! ·.fixed)).mergeSort older).take
        (resident.pages.length - target)).map (·.page)) := by
  have hlength := length_pages resident
  have hfixed : resident.pages.countP fixed = resident.fixedPages := rfl
  rw [selectVictims, scan_eq [] resident.aligned resident.distinct hnew, hfixed]
  simp only [Nat.zero_add, nil_append, bind, Except.bind]
  split_ifs
  · rfl
  · omega
  · rfl
  · rfl

theorem remaining_add_length (h : resident.Oldest victims) :
    resident.remaining victims + victims.length = resident.pages.length := by
  have hperm : ((resident.pages.filter (·.page ∈ victims)).map (·.page)) ~ victims := by
    refine (perm_ext_iff_of_nodup (resident.distinct.sublist (filter_sublist.map _)) h.distinct).mpr
      fun v => ?_
    simp only [mem_map, mem_filter, decide_eq_true_eq]
    refine ⟨?_, fun hv => ?_⟩
    · rintro ⟨p, ⟨-, hp⟩, rfl⟩
      exact hp
    · obtain ⟨p, hp, rfl, -⟩ := h.evictable v hv
      exact ⟨p, ⟨hp, hv⟩, rfl⟩
  have hlength := length_eq_length_filter_add (l := resident.pages) (·.page ∈ victims)
  rw [← hperm.length_eq, length_map, hlength, Nat.add_comm]
  simp [PageList.remaining]

theorem selectVictims_spec (hnew : ∀ p ∈ resident.pages, some p.page ≠ excluded)
    (h : selectVictims resident.pages target excluded reserved = .ok victims) :
    resident.Oldest victims ∧ resident.remaining victims ≤ target := by
  rw [selectVictims_eq hnew] at h
  obtain ⟨-, h⟩ := guard_eq_ok h
  obtain ⟨htarget, ⟨⟩⟩ := guard_eq_ok h
  generalize hsorted : (resident.pages.filter (! ·.fixed)).mergeSort older = sorted
  generalize hneeded : resident.pages.length - target = needed
  have hperm : sorted ~ resident.pages.filter (! ·.fixed) := hsorted ▸ mergeSort_perm ..
  have hpairwise : sorted.Pairwise (older · ·) := by
    rw [← hsorted]
    refine pairwise_mergeSort (fun p q r => ?_) (fun p q => ?_) _
    · simp only [older, decide_eq_true_eq]
      omega
    · simp only [older, Bool.or_eq_true, decide_eq_true_eq]
      omega
  have hdistinct : (sorted.map (·.page)).Nodup :=
    (hperm.map _).nodup_iff.mpr (resident.distinct.sublist (filter_sublist.map _))
  have hmem : ∀ p ∈ sorted, p ∈ resident.pages ∧ p.evictable ∧ ¬ p.locked := by
    intro p hp
    have := mem_filter.mp (hperm.mem_iff.mp hp)
    simpa [fixed, and_comm] using this
  have hvictims : ((sorted.take needed).map (·.page)).Nodup :=
    hdistinct.sublist ((take_sublist ..).map _)
  have hevictable : ∀ v ∈ (sorted.take needed).map (·.page),
      ∃ p ∈ resident.pages, p.page = v ∧ p.evictable ∧ ¬ p.locked := by
    intro v hv
    obtain ⟨p, hp, rfl⟩ := mem_map.mp hv
    obtain ⟨hresident, hp⟩ := hmem p (mem_of_mem_take hp)
    exact ⟨p, hresident, rfl, hp⟩
  have holdest : resident.Oldest ((sorted.take needed).map (·.page)) := by
    refine ⟨hvictims, hevictable, fun p hp hvictim q hq hstays hev hlocked => ?_⟩
    obtain ⟨p', hp', heq⟩ := mem_map.mp hvictim
    obtain rfl := inj_on_of_nodup_map resident.distinct (hmem p' (mem_of_mem_take hp')).1 hp heq
    -- the page that stays is behind the cut
    have hqsorted : q ∈ sorted :=
      hperm.mem_iff.mpr (mem_filter.mpr ⟨hq, by simp [fixed, hev, hlocked]⟩)
    rw [← take_append_drop needed sorted] at hpairwise hqsorted
    refine (pairwise_append.mp hpairwise).2.2 p' hp' q ((mem_append.mp hqsorted).resolve_left ?_)
    exact fun hq => hstays (mem_map_of_mem hq)
  refine ⟨holdest, ?_⟩
  have hsplit := remaining_add_length holdest
  have hlength := hperm.length_eq ▸ length_pages resident
  rw [length_map, length_take] at hsplit
  omega

/-! ## The plans -/

theorem prepareAdjustment_ok {minimumBytes maximumBytes : ℕ} {increaseOk hardLimit : Bool}
    {pages : List WorkingSetPage} (h : table.prepareAdjustment owner minimumBytes maximumBytes
      increaseOk hardLimit pages reserved = .ok plan) :
    selectVictims pages plan.limits.maximumPages none reserved = .ok plan.victims ∧
      plan.owner = owner ∧ plan.limits.hardLimit = hardLimit := by
  obtain ⟨current, -, h⟩ := bind_eq_ok h
  obtain ⟨-, h⟩ := guard_eq_ok h
  obtain ⟨victims, hvictims, h⟩ := bind_eq_ok h
  obtain ⟨-, ⟨⟩⟩ := guard_eq_ok h
  refine ⟨?_, rfl, rfl⟩
  cases hselect : selectVictims pages _ none reserved with
  | error e =>
    rw [hselect] at hvictims
    cases hvictims
  | ok selected =>
    rw [hselect] at hvictims
    exact hvictims

theorem commitAdjustment_ok (h : table.commitAdjustment plan = .ok table') :
    ∃ entry, table'.entryFor plan.owner = some entry ∧ entry.limits = plan.limits := by
  obtain ⟨index, hindex, h⟩ := bind_eq_ok h
  obtain ⟨entry, hentry, h⟩ := bind_eq_ok h
  obtain ⟨-, h⟩ := guard_eq_ok h
  obtain ⟨-, ⟨⟩⟩ := guard_eq_ok h
  obtain ⟨hlt, howner, hbefore⟩ :=
    findIdx?_eq_some_iff_getElem.mp (orError_eq_ok_iff.mp hindex)
  obtain ⟨-, rfl⟩ := List.getElem?_eq_some_iff.mp (orError_eq_ok_iff.mp hentry)
  refine ⟨⟨table.entries[index].owner, plan.limits, table.nextGeneration⟩,
    Option.bind_eq_some_iff.mpr ⟨index, ?_, ?_⟩, rfl⟩
  · refine findIdx?_eq_some_iff_getElem.mpr ⟨by simpa using hlt, by simpa using howner, ?_⟩
    intro j hj
    simpa [getElem_set_ne (Nat.ne_of_gt hj)] using hbefore j hj
  · exact getElem?_set_self hlt

/-- A new page under a hard limit needs a search, with a target that leaves room for it. -/
theorem exists_prepareAdmission_iff {entry : WorkingSetEntry} {page : ℕ}
    (hentry : table.entryFor owner = some entry) (hhard : entry.limits.hardLimit = true)
    (hnew : resident.New page) :
    (∃ admission, table.prepareAdmission owner page resident.pages reserved = .ok admission) ↔
      reserved ∧ ¬ entry.limits.maximumPages - 1 ≤
        resident.fixedPages + fluidWorkingSetPages := by
  have habsent : ¬ resident.pages.any (·.page = page) := by
    simpa [PageList.New] using hnew
  rw [WorkingSetTable.prepareAdmission, hentry]
  simp only [orError, bind, Except.bind, hhard, habsent, not_true, or_self, if_false,
    Bool.false_eq_true, selectVictims_eq hnew]
  split_ifs with hzero hreserved hfull
  · refine iff_of_false (by simp) fun hroom => hroom.2 ?_
    omega
  · exact iff_of_false (by simp) fun hroom => hroom.2 hfull
  · exact iff_of_true ⟨_, rfl⟩ ⟨hreserved, hfull⟩
  · exact iff_of_false (by simp) fun hroom => hreserved hroom.1

/-- A committed limit leaves room for a page unless it is the least that would be accepted. -/
theorem hard_limit_enforced (table : WorkingSetTable) (owner : ℕ) (resident : PageList) :
    (∀ page reserved plan, table.prepareAdmission owner page resident.pages reserved = .ok plan →
      resident.Oldest plan.victims ∧ (plan.limits.hardLimit → resident.New page →
        resident.remaining plan.victims + 1 ≤ plan.limits.maximumPages)) ∧
    ∀ minimumBytes maximumBytes increaseOk hardLimit reserved plan,
      table.prepareAdjustment owner minimumBytes maximumBytes increaseOk hardLimit resident.pages
        reserved = .ok plan →
      resident.Oldest plan.victims ∧ resident.remaining plan.victims ≤ plan.limits.maximumPages ∧
      ∀ before after : WorkingSetTable, hardLimit → before.commitAdjustment plan = .ok after →
        ∀ (later : PageList) page reserved, later.fixedPages ≤ resident.fixedPages →
          later.New page →
          ((∃ admission, after.prepareAdmission owner page later.pages reserved = .ok admission) ↔
            reserved ∧
              plan.limits.maximumPages ≠ later.fixedPages + fluidWorkingSetPages + 1) := by
  refine ⟨fun page reserved plan h => ?_, fun _ _ _ hardLimit _ plan h => ?_⟩
  · obtain ⟨current, -, h⟩ := bind_eq_ok h
    obtain ⟨victims, hvictims, ⟨⟩⟩ := bind_eq_ok h
    split_ifs at hvictims with hsoft hzero
    · cases hvictims
      refine ⟨⟨nodup_nil, nofun, nofun⟩, fun hhard hnew => absurd hsoft ?_⟩
      have hhard : current.limits.hardLimit = true := hhard
      simpa [hhard, PageList.New] using hnew
    · have hnew : resident.New page := by
        simpa [PageList.New] using (not_or.mp hsoft).2
      obtain ⟨holdest, hremaining⟩ := selectVictims_spec hnew hvictims
      refine ⟨holdest, fun _ _ => ?_⟩
      dsimp only
      omega
  · obtain ⟨hselect, rfl, rfl⟩ := prepareAdjustment_ok h
    obtain ⟨holdest, hremaining⟩ := selectVictims_spec (fun _ _ => Option.some_ne_none _) hselect
    refine ⟨holdest, hremaining, fun before after hhard hcommit later page _ hfixed hnew => ?_⟩
    obtain ⟨entry, hentry, hlimits⟩ := commitAdjustment_ok hcommit
    rw [selectVictims_eq fun _ _ => Option.some_ne_none _] at hselect
    have hroom := (guard_eq_ok (guard_eq_ok hselect).2).1
    rw [exists_prepareAdmission_iff hentry (hlimits ▸ hhard) hnew, hlimits]
    refine and_congr_right fun _ => ?_
    omega

/-- A limit of nine pages is accepted when none is resident, and no page may be brought in. -/
theorem hard_limit_without_room :
    (do
      let table : WorkingSetTable := ⟨[⟨1, ⟨1, 45, false⟩, 1⟩], 2⟩
      let plan ← table.prepareAdjustment 1 0 0x9000 true true [] true
      let table ← table.commitAdjustment plan
      return table.prepareAdmission 1 0x1000 [] true) = .ok (.error .badWorkingSetLimit) :=
  rfl

end UserspaceNtos.MemoryManager
