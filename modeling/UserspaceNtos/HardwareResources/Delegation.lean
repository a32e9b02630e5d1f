import UserspaceNtos.HardwareResources.Exclusivity

/-!
# Delegated resources have a parent

A delegated range names the range of another owner that it was taken from.  When a range goes
out of use, the ranges below it go with it, in passes over the store until nothing changes.

A replacement looks its parents up before it revokes what its owner had.  If a parent is itself
below a range of that owner, the cascade takes it away, and the new range is left without it.
`delegations_grounded_iff` says that nothing else goes wrong: delegated ranges have their
parents, and delegations do not go round, exactly if no replacement names a parent below the
ranges of its own owner.  The invariant behind it is that no chain of delegations comes back to
the owner it starts from.
-/

namespace UserspaceNtos.HardwareResources

open Exclusion List

/-! ## The cascade -/

namespace RangeResource

variable {α : Type} {s s' : List (RangeResource α)} {r p : RangeResource α}
  {D : RangeResource α → Prop} {earlier : List ℕ} {state : List (RangeResource α) × List ℕ}

theorem isNamed_iff {owner : ResourceOwner} {id : ℕ} :
    isNamed owner id r = true ↔ r.isLive = true ∧ r.owner = owner ∧ r.resourceId = id := by
  simp [isNamed, and_assoc]

variable {parentOwner : ResourceOwner}

theorem isOrphan_iff {parentId : ℕ}
    (hfrom : r.delegatedFrom = some (parentOwner, parentId)) (hlive : r.isLive = true) :
    isOrphan s r = true ↔ ∀ p ∈ s, isNamed parentOwner parentId p = false := by
  simp [isOrphan, hfrom, hlive]

/-- A property that passes from the parents to a range. -/
def PassesDown (D : RangeResource α → Prop) (s : List (RangeResource α)) : Prop :=
  ∀ r ∈ s, r.isLive = true → ∀ parentOwner parentId,
    r.delegatedFrom = some (parentOwner, parentId) →
    (∀ p ∈ s, isNamed parentOwner parentId p = true → D p) → D r

/-- Where the cascade is: what it has taken out of use has the property and is listed, and what
is listed was in use. -/
structure Cascade (D : RangeResource α → Prop) (s : List (RangeResource α)) (earlier : List ℕ)
    (state : List (RangeResource α) × List ℕ) : Prop where
  shrinks : Shrinks resourceId isLive s state.1
  accounted : ∀ r ∈ s, r.isLive = true →
    r ∈ state.1 ∨ (D r ∧ r.resourceId ∈ earlier ++ state.2)
  listed : ∀ id ∈ earlier ++ state.2, ∃ r ∈ s, r.isLive = true ∧ r.resourceId = id

theorem Cascade.revokeOrphanAt (hD : PassesDown D s) (h : Cascade D s earlier state) (index : ℕ) :
    Cascade D s earlier (revokeOrphanAt state index) := by
  have hshrinks := h.shrinks.trans (shrinks_revokeOrphanAt state index)
  revert hshrinks
  unfold RangeResource.revokeOrphanAt
  split
  · exact fun _ => h
  case h_2 r hr =>
    split
    case isFalse => exact fun _ => h
    case isTrue horphan =>
      intro hshrinks
      have hlive := isLive_of_isOrphan horphan
      have hrs := h.shrinks.live r (mem_of_getElem? hr) hlive
      -- the parents of an orphan are gone, so they have the property
      have hdoomed : D r := by
        cases hfrom : r.delegatedFrom with
        | none => simp [isOrphan, hfrom] at horphan
        | some parent =>
          refine hD r hrs hlive parent.1 parent.2 hfrom fun p hp hnamed => ?_
          refine ((h.accounted p hp (isNamed_iff.mp hnamed).1).resolve_left fun hmem => ?_).1
          rw [(isOrphan_iff hfrom hlive).mp horphan p hmem] at hnamed
          cases hnamed
      refine ⟨hshrinks, fun x hx hxlive => ?_, fun id hid => ?_⟩
      · rcases h.accounted x hx hxlive with hmem | ⟨hxD, hid⟩
        · obtain ⟨i, hi⟩ := mem_iff_getElem?.mp hmem
          by_cases hix : i = index
          · subst hix
            cases hi.symm.trans hr
            exact .inr ⟨hdoomed, by simp⟩
          · refine .inl (mem_iff_getElem?.mpr ⟨i, ?_⟩)
            rw [List.getElem?_set_ne fun heq => hix heq.symm]
            exact hi
        · exact .inr ⟨hxD, by simp only [← append_assoc, mem_append, hid, true_or]⟩
      · rw [← append_assoc, mem_append] at hid
        rcases hid with hid | hid
        · exact h.listed id hid
        · exact ⟨r, hrs, hlive, (mem_singleton.mp hid).symm⟩

theorem Cascade.foldl (hD : PassesDown D s) (h : Cascade D s earlier state) (indices : List ℕ) :
    Cascade D s earlier (indices.foldl RangeResource.revokeOrphanAt state) := by
  induction indices generalizing state with
  | nil => exact h
  | cons index indices ih => exact ih (h.revokeOrphanAt hD index)

theorem Cascade.loop (hD : PassesDown D s) (fuel : ℕ) (h : Cascade D s earlier (s', [])) :
    Cascade D s earlier (revokeOrphansLoop fuel s') := by
  induction fuel generalizing s' earlier with
  | zero => exact h
  | succ fuel ih =>
    have hpass : Cascade D s earlier (orphanPass s') := h.foldl hD _
    rw [revokeOrphansLoop]
    split
    · exact hpass
    · -- the next pass starts an empty list behind what is listed so far
      have hnext : Cascade D s (earlier ++ (orphanPass s').2) ((orphanPass s').1, []) :=
        ⟨hpass.shrinks, by simpa using hpass.accounted, by simpa using hpass.listed⟩
      obtain ⟨hshrinks, haccounted, hlisted⟩ := ih hnext
      exact ⟨hshrinks, by simpa using haccounted, by simpa using hlisted⟩

/-- What the cascade takes out of use has every property that passes down. -/
theorem cascade_revokeOrphanedDelegations (hD : PassesDown D s) :
    Cascade D s [] (revokeOrphanedDelegations s) := by
  refine Cascade.loop hD _ ⟨.refl _, fun r hr _ => .inl hr, fun id hid => ?_⟩
  cases hid

end RangeResource

/-! ## What a replacement installs -/

namespace RangeResource

variable {α : Type}

/-- The raw and the translated range of a resource lie in those of another. -/
structure Within (p r : RangeResource α) : Prop where
  rawStart : p.rawStart ≤ r.rawStart
  rawEnd : r.rawStart + r.length ≤ p.rawStart + p.length
  translatedStart : p.translatedStart ≤ r.translatedStart
  translatedEnd : r.translatedStart + r.length ≤ p.translatedStart + p.length

/-- The parent that a list of delegations records for an identifier. -/
def recordedParent (delegations : List ResourceDelegation) (id : ℕ) :
    Option (ResourceOwner × ℕ) :=
  (delegations.find? fun d => decide (d.resourceId = id)).map fun d =>
    (d.parentOwner, d.parentResourceId)

/-- What the checks of a replacement establish for a new range. -/
structure Admitted (allows : α → α → Prop) (owner : ResourceOwner)
    (delegations : List ResourceDelegation) (s : List (RangeResource α)) (c : RangeResource α) :
    Prop where
  owned : c.owner = owner
  live : c.isLive = true
  fresh : ∀ x ∈ s, x.isLive = true → x.resourceId = c.resourceId → x.owner = owner
  recorded : c.delegatedFrom = recordedParent delegations c.resourceId
  parent : ∀ parentOwner parentId, c.delegatedFrom = some (parentOwner, parentId) →
    ∃ p ∈ s, p.isNamed parentOwner parentId = true ∧ Within p c ∧ allows p.access c.access

theorem rangeContainsRange_iff {outerStart outerLen innerStart innerLen : ℕ}
    (h : rangeContainsRange outerStart outerLen innerStart innerLen = true) :
    outerStart ≤ innerStart ∧ innerStart + innerLen ≤ outerStart + outerLen := by
  rw [rangeContainsRange, decide_eq_true_eq] at h
  exact h.2.2.2

/-- The parent that the lookup finds is in use and allows the range. -/
theorem delegatedParent_eq_ok {s : List (RangeResource α)} {delegations : List ResourceDelegation}
    {d : HalResourceDescriptor} {accessAllowed : RangeResource α → Bool}
    {found : Option (ResourceOwner × ℕ)}
    (h : delegatedParent s delegations d accessAllowed = .ok found) :
    found = recordedParent delegations d.resourceId ∧
      ∀ parentOwner parentId, found = some (parentOwner, parentId) →
        ∃ p ∈ s, p.isNamed parentOwner parentId = true ∧
          (p.rawStart ≤ d.rawStart ∧ d.rawStart + d.length ≤ p.rawStart + p.length) ∧
          (p.translatedStart ≤ d.translatedStart ∧
            d.translatedStart + d.length ≤ p.translatedStart + p.length) ∧
          accessAllowed p = true := by
  unfold delegatedParent at h
  cases hfind : delegations.find? fun x => decide (x.resourceId = d.resourceId) with
  | none =>
    rw [hfind] at h
    cases h
    refine ⟨by simp [recordedParent, hfind], fun _ _ h => ?_⟩
    cases h
  | some delegation =>
    simp only [hfind] at h
    cases hparent : s.find? (isNamed delegation.parentOwner delegation.parentResourceId) with
    | none =>
      rw [hparent] at h
      cases h
    | some parent =>
      simp only [hparent] at h
      split at h
      · cases h
      case isFalse hrange =>
        split_ifs at h with hallowed
        cases h
        have hnamed := List.find?_some hparent
        obtain ⟨-, howner, hid⟩ := isNamed_iff.mp hnamed
        simp only [not_or, Bool.not_eq_true, Bool.not_eq_false'] at hrange
        refine ⟨by simp [recordedParent, hfind, howner, hid], fun _ _ h => ?_⟩
        cases h
        exact ⟨parent, mem_of_find?_eq_some hparent, howner ▸ hid ▸ hnamed,
          rangeContainsRange_iff hrange.1, rangeContainsRange_iff hrange.2,
          by simpa using hallowed⟩

end RangeResource

/-- The rights and the cache type of a memory range allow those of a range inside it. -/
def MemoryAccess.Allows (parent child : MemoryAccess) : Prop :=
  child.cache = parent.cache ∧ child.rights &&& parent.rights = child.rights

namespace ResourceManager

open RangeResource

variable {rm : ResourceManager} {owner : ResourceOwner}
  {memoryDelegations portDelegations : List ResourceDelegation} {batch batch' : Batch}
  {d : HalResourceDescriptor} {prior assignments : List HalResourceDescriptor}

/-- The identifiers of the descriptors of a kind. -/
def idsOf (kind : ℕ) (descriptors : List HalResourceDescriptor) : List ℕ :=
  (descriptors.filter fun d => decide (d.kind = kind)).map HalResourceDescriptor.resourceId

/-- The batch holds one checked record for each of the descriptors. -/
structure BatchOf (rm : ResourceManager) (owner : ResourceOwner)
    (memoryDelegations portDelegations : List ResourceDelegation)
    (descriptors : List HalResourceDescriptor) (batch : Batch) : Prop where
  ids : (descriptors.map HalResourceDescriptor.resourceId).Nodup
  memory : ∀ c ∈ batch.memory, Admitted MemoryAccess.Allows owner memoryDelegations rm.memory c
  ports : ∀ c ∈ batch.ports, Admitted (fun _ _ => True) owner portDelegations rm.ports c
  interrupts : ∀ c ∈ batch.interrupts, c.owner = owner ∧
    ∀ x ∈ rm.interruptsRes, x.isLive = true → x.resourceId = c.resourceId → x.owner = owner
  memoryIds : batch.memory.map RangeResource.resourceId = idsOf resKindMemory descriptors
  portIds : batch.ports.map RangeResource.resourceId = idsOf resKindPort descriptors
  interruptIds : batch.interrupts.map InterruptResource.resourceId =
    idsOf resKindInterrupt descriptors

theorem BatchOf.nodup {kind : ℕ}
    (h : BatchOf rm owner memoryDelegations portDelegations prior batch) :
    (idsOf kind prior).Nodup :=
  List.Nodup.sublist (List.Sublist.map _ filter_sublist) h.ids

/-- The record of a range that passed the checks. -/
theorem admitted_of_delegatedParent {α : Type} {allows : α → α → Prop} {access : α}
    {s : List (RangeResource α)} {delegations : List ResourceDelegation}
    {accessAllowed : RangeResource α → Bool} {found : Option (ResourceOwner × ℕ)}
    (hfresh : ∀ x ∈ s, x.isLive = true → x.resourceId = d.resourceId → x.owner = owner)
    (hallowed : ∀ p, accessAllowed p = true → allows p.access access)
    (h : delegatedParent s delegations d accessAllowed = .ok found) :
    Admitted allows owner delegations s (candidateOf owner d access found) := by
  obtain ⟨hrecorded, hparent⟩ := delegatedParent_eq_ok h
  refine ⟨rfl, rfl, hfresh, hrecorded, fun parentOwner parentId hsome => ?_⟩
  obtain ⟨p, hp, hnamed, hraw, htranslated, hp'⟩ := hparent parentOwner parentId hsome
  exact ⟨p, hp, hnamed, ⟨hraw.1, hraw.2, htranslated.1, htranslated.2⟩, hallowed p hp'⟩

theorem BatchOf.extend (h : BatchOf rm owner memoryDelegations portDelegations prior batch)
    (hunused : Unused rm owner prior d)
    (hadmission : Admission rm owner memoryDelegations portDelegations batch d batch') :
    BatchOf rm owner memoryDelegations portDelegations (prior ++ [d]) batch' := by
  have hids : ((prior ++ [d]).map HalResourceDescriptor.resourceId).Nodup := by
    rw [map_append, map_cons, map_nil, ← concat_eq_append, nodup_concat]
    refine ⟨fun hmem => ?_, h.ids⟩
    obtain ⟨x, hx, hid⟩ := mem_map.mp hmem
    exact hunused.prior x hx hid
  -- a descriptor adds to the identifiers of its own kind only
  have hother : ∀ kind, d.kind ≠ kind → idsOf kind (prior ++ [d]) = idsOf kind prior :=
    fun kind hne => by simp [idsOf, hne]
  have hself : ∀ kind, d.kind = kind →
      idsOf kind (prior ++ [d]) = idsOf kind prior ++ [d.resourceId] :=
    fun kind heq => by simp [idsOf, heq]
  cases hadmission with
  | memory hkind hparent hfree =>
    rw [hkind] at hother
    refine ⟨hids, forall_mem_append.mpr ⟨h.memory, forall_mem_singleton.mpr ?_⟩, h.ports,
      h.interrupts, ?_, ?_, ?_⟩
    · refine admitted_of_delegatedParent hunused.memory (fun p hp => ?_) hparent
      simpa [MemoryAccess.Allows] using hp
    · rw [map_append, h.memoryIds, hself _ hkind]
      rfl
    · rw [hother _ (by decide), h.portIds]
    · rw [hother _ (by decide), h.interruptIds]
  | port hkind hparent hfree =>
    rw [hkind] at hother
    refine ⟨hids, h.memory, forall_mem_append.mpr ⟨h.ports, forall_mem_singleton.mpr ?_⟩,
      h.interrupts, ?_, ?_, ?_⟩
    · exact admitted_of_delegatedParent hunused.ports (fun _ _ => trivial) hparent
    · rw [hother _ (by decide), h.memoryIds]
    · rw [map_append, h.portIds, hself _ hkind]
      rfl
    · rw [hother _ (by decide), h.interruptIds]
  | interrupt hkind howner hid hshare hothers hbatch =>
    rw [hkind] at hother
    refine ⟨hids, h.memory, h.ports, forall_mem_append.mpr ⟨h.interrupts,
      forall_mem_singleton.mpr ⟨howner, hid ▸ hunused.interrupts⟩⟩, ?_, ?_, ?_⟩
    · rw [hother _ (by decide), h.memoryIds]
    · rw [hother _ (by decide), h.portIds]
    · rw [map_append, h.interruptIds, hself _ hkind, map_singleton, hid]

theorem BatchOf.admitAll (h : BatchOf rm owner memoryDelegations portDelegations prior batch)
    (hok : rm.admitAll owner memoryDelegations portDelegations prior batch assignments =
      .ok batch') :
    BatchOf rm owner memoryDelegations portDelegations (prior ++ assignments) batch' := by
  induction assignments generalizing prior batch with
  | nil =>
    cases hok
    rwa [append_nil]
  | cons d rest ih =>
    obtain ⟨next, hnext, hok⟩ := Result.bind_eq_ok hok
    obtain ⟨hunused, hadmission⟩ := admission_of_ok hnext
    have hrest := ih (h.extend hunused hadmission) hok
    rwa [append_assoc] at hrest

/-- The batch that a replacement collects. -/
theorem batchOf_admitAll
    (hok : rm.admitAll owner memoryDelegations portDelegations [] {} assignments = .ok batch) :
    BatchOf rm owner memoryDelegations portDelegations assignments batch := by
  have hempty : BatchOf rm owner memoryDelegations portDelegations [] {} :=
    ⟨nodup_nil, forall_mem_nil _, forall_mem_nil _, forall_mem_nil _, rfl, rfl, rfl⟩
  exact hempty.admitAll hok

end ResourceManager

/-! ## Chains of delegations -/

namespace RangeResource

variable {α : Type} {allows : α → α → Prop} {s s' : List (RangeResource α)}
  {a b c p r x : RangeResource α} {owner : ResourceOwner}

/-- A range in use was delegated from another one in use. -/
def ChildOf (s : List (RangeResource α)) (a b : RangeResource α) : Prop :=
  a ∈ s ∧ b ∈ s ∧ a.isLive = true ∧ b.isLive = true ∧ DelegatedFrom a b

/-- The parent that a range records is in use, contains it and allows its access. -/
def HasParent (allows : α → α → Prop) (s : List (RangeResource α)) (r : RangeResource α) : Prop :=
  ∀ parentOwner parentId, r.delegatedFrom = some (parentOwner, parentId) →
    ∃ p ∈ s, p.isNamed parentOwner parentId = true ∧ Within p r ∧ allows p.access r.access

/-- Delegated ranges in use have their parents, and delegations do not go round. -/
structure Grounded (allows : α → α → Prop) (s : List (RangeResource α)) : Prop where
  parent : ∀ r ∈ s, r.isLive = true → HasParent allows s r
  acyclic : ∀ r, ¬ Relation.TransGen (ChildOf s) r r

/-- No chain of delegations comes back to the owner it starts from. -/
structure Lineage (allows : α → α → Prop) (s : List (RangeResource α)) : Prop where
  keys : (s.map resourceId).Nodup
  parent : ∀ r ∈ s, r.isLive = true → HasParent allows s r
  alien : ∀ a b, Relation.TransGen (ChildOf s) a b → a.owner ≠ b.owner

theorem Lineage.grounded (h : Lineage allows s) : Grounded allows s :=
  ⟨h.parent, fun r hr => h.alien r r hr rfl⟩

theorem Lineage.empty : Lineage allows ([] : List (RangeResource α)) := by
  refine ⟨nodup_nil, fun r hr => absurd hr not_mem_nil, fun a b hab => ?_⟩
  obtain ⟨c, ⟨ha, -⟩, -⟩ := Relation.TransGen.head'_iff.mp hab
  exact absurd ha not_mem_nil

/-- The parent of a range in use, as a record. -/
theorem HasParent.exists_childOf (h : HasParent allows s r) (hr : r ∈ s) (hlive : r.isLive = true)
    {parentOwner : ResourceOwner} {parentId : ℕ}
    (hfrom : r.delegatedFrom = some (parentOwner, parentId)) :
    ∃ p, ChildOf s r p ∧ p.isNamed parentOwner parentId = true ∧ Within p r ∧
      allows p.access r.access := by
  obtain ⟨p, hp, hnamed, hwithin, hallows⟩ := h parentOwner parentId hfrom
  obtain ⟨hplive, howner, hid⟩ := isNamed_iff.mp hnamed
  refine ⟨p, ⟨hr, hp, hlive, hplive, ?_⟩, hnamed, hwithin, hallows⟩
  rw [DelegatedFrom, howner, hid, hfrom]

section

variable (hkeys : (s.map resourceId).Nodup) (hshrinks : Shrinks resourceId isLive s s')
  (hsettled : ∀ r ∈ s', isOrphan s' r = false)
include hkeys hshrinks hsettled

/-- In a store that has shrunk, what is not an orphan has its old parent. -/
theorem ChildOf.settle (h : ChildOf s a b) (ha : a ∈ s') : b ∈ s' := by
  obtain ⟨-, hb, halive, hblive, hfrom⟩ := h
  have hnot := hsettled a ha
  rw [← Bool.not_eq_true, isOrphan_iff hfrom halive] at hnot
  push Not at hnot
  obtain ⟨q, hq, hnamed⟩ := hnot
  obtain ⟨hqlive, -, hid⟩ := isNamed_iff.mp (by simpa using hnamed)
  rwa [inj_on_of_nodup_map hkeys hb (hshrinks.live q hq hqlive) hid.symm]

theorem reflTransGen_settle (h : Relation.ReflTransGen (ChildOf s) a b) (ha : a ∈ s') : b ∈ s' := by
  induction h with
  | refl => exact ha
  | tail _ hstep ih => exact hstep.settle hkeys hshrinks hsettled ih

end

theorem ChildOf.mono (hsub : ∀ x ∈ s', x.isLive = true → x ∈ s) (h : ChildOf s' a b) :
    ChildOf s a b :=
  ⟨hsub a h.1 h.2.2.1, hsub b h.2.1 h.2.2.2.1, h.2.2⟩

/-- Ranges that go out of use with everything below them leave the lineage intact. -/
theorem Lineage.settle (h : Lineage allows s) (hshrinks : Shrinks resourceId isLive s s')
    (hsettled : ∀ r ∈ s', isOrphan s' r = false) : Lineage allows s' := by
  refine ⟨hshrinks.nodup h.keys, fun r hr hlive parentOwner parentId hfrom => ?_, fun a b hab => ?_⟩
  · have hrs := hshrinks.live r hr hlive
    obtain ⟨p, hchild, hnamed, hwithin, hallows⟩ :=
      (h.parent r hrs hlive).exists_childOf hrs hlive hfrom
    exact ⟨p, hchild.settle h.keys hshrinks hsettled hr, hnamed, hwithin, hallows⟩
  · have hold : ∀ x y, ChildOf s' x y → ChildOf s x y := fun x y hxy => hxy.mono hshrinks.live
    exact h.alien a b (Relation.TransGen.mono hold a b hab)

/-- A range that was not delegated takes a free identifier. -/
theorem Lineage.put (h : Lineage allows s) (hroot : c.delegatedFrom = none)
    (hfree : ∀ x ∈ s, x.isLive = true → x.resourceId ≠ c.resourceId) :
    Lineage allows (put resourceId c s) := by
  have hmem : ∀ x ∈ s, x.isLive = true → x ∈ Exclusion.put resourceId c s := fun x hx hlive =>
    (mem_put h.keys).mpr (.inr ⟨hx, hfree x hx hlive⟩)
  -- nothing in use names the identifier, so no chain leads to the new range
  have hold : ∀ a b, ChildOf (Exclusion.put resourceId c s) a b → ChildOf s a b := by
    rintro a b ⟨ha, hb, halive, hblive, hfrom⟩
    have has : a ∈ s := by
      rcases (mem_put h.keys).mp ha with rfl | ⟨has, -⟩
      · rw [DelegatedFrom, hroot] at hfrom
        cases hfrom
      · exact has
    refine ⟨has, ?_, halive, hblive, hfrom⟩
    rcases (mem_put h.keys).mp hb with rfl | ⟨hbs, -⟩
    · obtain ⟨p, hp, hnamed, -, -⟩ := h.parent a has halive _ _ hfrom
      obtain ⟨hplive, -, hid⟩ := isNamed_iff.mp hnamed
      exact absurd hid (hfree p hp hplive)
    · exact hbs
  refine ⟨nodup_put h.keys, fun r hr hlive parentOwner parentId hfrom => ?_, fun a b hab => ?_⟩
  · rcases (mem_put h.keys).mp hr with rfl | ⟨hrs, -⟩
    · rw [hroot] at hfrom
      cases hfrom
    · obtain ⟨p, hp, hnamed, hfits⟩ := h.parent r hrs hlive parentOwner parentId hfrom
      exact ⟨p, hmem p hp (isNamed_iff.mp hnamed).1, hnamed, hfits⟩
  · exact h.alien a b (Relation.TransGen.mono hold a b hab)

/-! ## Replacements and chains -/

/-- What is left when everything of an owner goes out of use. -/
abbrev withoutOwner (owner : ResourceOwner) (s : List (RangeResource α)) :
    List (RangeResource α) :=
  (revokeOrphanedDelegations (revokeOwned owner s)).1

theorem shrinks_withoutOwner (owner : ResourceOwner) (s : List (RangeResource α)) :
    Shrinks resourceId isLive s (withoutOwner owner s) :=
  (shrinks_revokeOwned owner s).trans (shrinks_revokeOrphanedDelegations _)

theorem owner_ne_of_mem_withoutOwner (hr : r ∈ withoutOwner owner s) (hlive : r.isLive = true) :
    r.owner ≠ owner :=
  owner_ne_of_mem_revokeOwned
    ((shrinks_revokeOrphanedDelegations (revokeOwned owner s)).live r hr hlive) hlive

/-- The range is, or is below, a range of the owner. -/
def Below (s : List (RangeResource α)) (owner : ResourceOwner) (p : RangeResource α) : Prop :=
  ∃ x ∈ s, x.isLive = true ∧ x.owner = owner ∧ Relation.ReflTransGen (ChildOf s) p x

/-- What is in use stays in use exactly if it is not below the owner. -/
theorem mem_withoutOwner_iff (h : Lineage allows s) (hp : p ∈ s) (hlive : p.isLive = true) :
    p ∈ withoutOwner owner s ↔ ¬ Below s owner p := by
  constructor
  · rintro hmem ⟨x, -, hxlive, howner, hchain⟩
    have hx := reflTransGen_settle h.keys (shrinks_withoutOwner owner s)
      (revokeOrphanedDelegations_settled _) hchain hmem
    exact owner_ne_of_mem_withoutOwner hx hxlive howner
  · intro hnot
    have hkept : ∀ q ∈ s, q.isLive = true → q.owner ≠ owner → q ∈ revokeOwned owner s := by
      intro q hq _ hne
      refine mem_map.mpr ⟨q, hq, if_neg fun hboth => hne hboth.1⟩
    have hne : p.owner ≠ owner := fun howner => hnot ⟨p, hp, hlive, howner, .refl⟩
    -- being below the owner passes from the parent that was revoked to its children
    have hpasses : PassesDown (Below s owner) (revokeOwned owner s) := by
      intro r hr hrlive parentOwner parentId hfrom hall
      have hrs := (shrinks_revokeOwned owner s).live r hr hrlive
      obtain ⟨q, hchild, hnamed, -, -⟩ := (h.parent r hrs hrlive).exists_childOf hrs hrlive hfrom
      have hqs := hchild.2.1
      have hqlive := hchild.2.2.2.1
      by_cases howner : q.owner = owner
      · exact ⟨q, hqs, hqlive, howner, .single hchild⟩
      · obtain ⟨x, hx, hxlive, hxowner, hchain⟩ := hall q (hkept q hqs hqlive howner) hnamed
        exact ⟨x, hx, hxlive, hxowner, hchain.head hchild⟩
    rcases (cascade_revokeOrphanedDelegations hpasses).accounted p (hkept p hp hlive hne) hlive with
      hmem | ⟨hbelow, -⟩
    · exact hmem
    · exact absurd hbelow hnot

/-- None of the parents that the delegations name is below the owner. -/
def NoReturn (s : List (RangeResource α)) (owner : ResourceOwner)
    (delegations : List ResourceDelegation) : Prop :=
  ∀ d ∈ delegations, ∀ p ∈ s, p.isNamed d.parentOwner d.parentResourceId = true →
    ¬ Below s owner p

section Install

variable {delegations : List ResourceDelegation} {batch : List (RangeResource α)}

variable (hbatch : ∀ c ∈ batch, Admitted allows owner delegations s c)
  (hids : (batch.map resourceId).Nodup)
include hbatch hids

/-- What stays in use keeps its identifier when the batch is put in. -/
theorem mem_putAll_of_mem_withoutOwner (hkeys : (s.map resourceId).Nodup)
    (hx : x ∈ withoutOwner owner s) (hlive : x.isLive = true) :
    x ∈ putAll resourceId batch (withoutOwner owner s) := by
  have hshrinks := shrinks_withoutOwner owner s
  have hnot : x.resourceId ∉ batch.map resourceId := by
    intro hmem
    obtain ⟨c, hc, hid⟩ := mem_map.mp hmem
    exact owner_ne_of_mem_withoutOwner hx hlive
      ((hbatch c hc).fresh x (hshrinks.live x hx hlive) hlive hid.symm)
  exact (mem_putAll (hshrinks.nodup hkeys) hids).mpr (.inr ⟨hx, hnot⟩)

/-- The parents of a batch stay in use, and the batch comes below them. -/
theorem Lineage.install (h : Lineage allows s) (hreturn : NoReturn s owner delegations) :
    Lineage allows (putAll resourceId batch (withoutOwner owner s)) := by
  have hshrinks := shrinks_withoutOwner owner s
  have hrest : Lineage allows (withoutOwner owner s) :=
    h.settle hshrinks (revokeOrphanedDelegations_settled _)
  have hkeys : ((putAll resourceId batch (withoutOwner owner s)).map resourceId).Nodup :=
    nodup_putAll hrest.keys
  have hparents : ∀ r ∈ putAll resourceId batch (withoutOwner owner s), r.isLive = true →
      ∀ parentOwner parentId, r.delegatedFrom = some (parentOwner, parentId) →
      ∃ p ∈ withoutOwner owner s, p.isNamed parentOwner parentId = true ∧ Within p r ∧
        allows p.access r.access := by
    intro r hr hlive parentOwner parentId hfrom
    rcases (mem_putAll hrest.keys hids).mp hr with hc | ⟨hrest', -⟩
    · obtain ⟨p, hp, hnamed, hfits⟩ := (hbatch r hc).parent parentOwner parentId hfrom
      have hrecorded := (hbatch r hc).recorded
      rw [hfrom] at hrecorded
      obtain ⟨d, hfind, ⟨⟩⟩ := Option.map_eq_some_iff.mp hrecorded.symm
      have hd := mem_of_find?_eq_some hfind
      have hstays := (mem_withoutOwner_iff h hp (isNamed_iff.mp hnamed).1).mpr
        (hreturn d hd p hp hnamed)
      exact ⟨p, hstays, hnamed, hfits⟩
    · exact hrest.parent r hrest' hlive parentOwner parentId hfrom
  -- every step of a chain ends in a range that was there before, and such a range keeps its chain
  have hstep : ∀ a b, ChildOf (putAll resourceId batch (withoutOwner owner s)) a b →
      b ∈ withoutOwner owner s ∧ b.isLive = true ∧
        (a ∈ withoutOwner owner s → ChildOf (withoutOwner owner s) a b) := by
    rintro a b ⟨ha, hb, halive, hblive, hfrom⟩
    obtain ⟨p, hp, hnamed, -, -⟩ := hparents a ha halive _ _ hfrom
    obtain ⟨hplive, -, hid⟩ := isNamed_iff.mp hnamed
    have hpb := inj_on_of_nodup_map hkeys
      (mem_putAll_of_mem_withoutOwner hbatch hids h.keys hp hplive) hb hid
    rw [hpb] at hp
    exact ⟨hp, hblive, fun haold => ⟨haold, hp, halive, hblive, hfrom⟩⟩
  have hchain : ∀ a b, Relation.TransGen (ChildOf (putAll resourceId batch (withoutOwner owner s)))
      a b → b ∈ withoutOwner owner s ∧ b.isLive = true ∧
        (a ∈ withoutOwner owner s → Relation.TransGen (ChildOf (withoutOwner owner s)) a b) := by
    intro a b hab
    induction hab with
    | single hab =>
      obtain ⟨hb, hlive, hold⟩ := hstep _ _ hab
      exact ⟨hb, hlive, fun ha => .single (hold ha)⟩
    | tail _ hbc ih =>
      obtain ⟨hc, hlive, hold⟩ := hstep _ _ hbc
      exact ⟨hc, hlive, fun ha => (ih.2.2 ha).tail (hold ih.1)⟩
  refine ⟨hkeys, fun r hr hlive parentOwner parentId hfrom => ?_, fun a b hab => ?_⟩
  · obtain ⟨p, hp, hnamed, hfits⟩ := hparents r hr hlive parentOwner parentId hfrom
    exact ⟨p, mem_putAll_of_mem_withoutOwner hbatch hids h.keys hp (isNamed_iff.mp hnamed).1,
      hnamed, hfits⟩
  · obtain ⟨hb, hblive, hold⟩ := hchain a b hab
    obtain ⟨q, ⟨ha, -⟩, -⟩ := Relation.TransGen.head'_iff.mp hab
    rcases (mem_putAll hrest.keys hids).mp ha with hc | ⟨hrest', -⟩
    · rw [(hbatch a hc).owned]
      exact (owner_ne_of_mem_withoutOwner hb hblive).symm
    · exact hrest.alien a b (hold hrest')

/-- If a parent is below the owner, the range that names it is left without it. -/
theorem noReturn_of_install (h : Lineage allows s)
    (hused : ∀ d ∈ delegations, d.parentOwner ≠ owner ∧
      ∃ c ∈ batch, c.delegatedFrom = some (d.parentOwner, d.parentResourceId))
    (hgrounded : Grounded allows (putAll resourceId batch (withoutOwner owner s))) :
    NoReturn s owner delegations := by
  intro d hd p hp hnamed
  have hshrinks := shrinks_withoutOwner owner s
  obtain ⟨hne, c, hc, hfrom⟩ := hused d hd
  obtain ⟨hplive, hpowner, hpid⟩ := isNamed_iff.mp hnamed
  have hmem := mem_putAll (a := c) (hshrinks.nodup h.keys) hids
  obtain ⟨q, hq, hqnamed, -, -⟩ :=
    hgrounded.parent c (hmem.mpr (.inl hc)) (hbatch c hc).live _ _ hfrom
  obtain ⟨hqlive, hqowner, hqid⟩ := isNamed_iff.mp hqnamed
  rcases (mem_putAll (hshrinks.nodup h.keys) hids).mp hq with hq | ⟨hq, -⟩
  · exact absurd (hqowner.symm.trans (hbatch q hq).owned) hne
  · have hqp := inj_on_of_nodup_map h.keys (hshrinks.live q hq hqlive) hp (hqid.trans hpid.symm)
    rw [hqp] at hq
    exact (mem_withoutOwner_iff h hp hplive).mp hq

end Install

end RangeResource

/-! ## Lists of delegations -/

namespace ResourceManager

open RangeResource

variable {rm : ResourceManager} {owner : ResourceOwner} {delegations : List ResourceDelegation}
  {assignments : List HalResourceDescriptor} {extra : ResourceDelegation → Bool}
  {d : ResourceDelegation}

/-- What a list of delegations that is not rejected satisfies. -/
structure WellFormed (owner : ResourceOwner) (extra : ResourceDelegation → Bool)
    (delegations : List ResourceDelegation) : Prop where
  ids : (delegations.map ResourceDelegation.resourceId).Nodup
  foreign : ∀ d ∈ delegations, d.parentOwner ≠ owner
  checked : ∀ d ∈ delegations, extra d = false

theorem wellFormed_of_not_rejected_from {prior : List ResourceDelegation}
    (h : someDelegationRejected owner extra prior delegations = false) :
    WellFormed owner extra delegations ∧
      ∀ d ∈ delegations, ∀ p ∈ prior, p.resourceId ≠ d.resourceId := by
  induction delegations generalizing prior with
  | nil =>
    exact ⟨⟨nodup_nil, forall_mem_nil _, forall_mem_nil _⟩, forall_mem_nil _⟩
  | cons first rest ih =>
    rw [someDelegationRejected] at h
    simp only [Bool.or_eq_false_iff, decide_eq_false_iff_not, any_eq_false,
      decide_eq_true_eq] at h
    obtain ⟨⟨⟨⟨⟨howner, -⟩, -⟩, hprior⟩, hextra⟩, hrest⟩ := h
    obtain ⟨hwell, hnew⟩ := ih hrest
    refine ⟨⟨?_, forall_mem_cons.mpr ⟨howner, hwell.foreign⟩,
      forall_mem_cons.mpr ⟨hextra, hwell.checked⟩⟩, forall_mem_cons.mpr ⟨hprior, ?_⟩⟩
    · rw [map_cons, nodup_cons]
      refine ⟨fun hmem => ?_, hwell.ids⟩
      obtain ⟨x, hx, hid⟩ := mem_map.mp hmem
      exact hnew x hx first (mem_append.mpr (.inr (mem_singleton_self _))) hid.symm
    · exact fun d hd p hp => hnew d hd p (mem_append.mpr (.inl hp))

theorem wellFormed_of_not_rejected
    (h : someDelegationRejected owner extra [] delegations = false) :
    WellFormed owner extra delegations :=
  (wellFormed_of_not_rejected_from h).1

/-- Every delegation of the list is the one recorded for its identifier. -/
theorem WellFormed.recordedParent (h : WellFormed owner extra delegations) (hd : d ∈ delegations) :
    recordedParent delegations d.resourceId = some (d.parentOwner, d.parentResourceId) := by
  unfold RangeResource.recordedParent
  cases hfind : delegations.find? fun x => decide (x.resourceId = d.resourceId) with
  | none => exact absurd (List.find?_eq_none.mp hfind d hd) (by simp)
  | some found =>
    have hid := List.find?_some hfind
    rw [decide_eq_true_eq] at hid
    rw [inj_on_of_nodup_map h.ids (mem_of_find?_eq_some hfind) hd hid]
    rfl

section

variable {α : Type} {allows : α → α → Prop} {kind : ℕ} {s : List (RangeResource α)}

/-- Every delegation of a replacement belongs to a range of the batch. -/
theorem exists_batch_of_delegation {batch : List (RangeResource α)}
    (h : WellFormed owner (delegatesUnassigned kind assignments) delegations)
    (hbatch : ∀ c ∈ batch, Admitted allows owner delegations s c)
    (hids : batch.map RangeResource.resourceId = idsOf kind assignments) :
    ∀ d ∈ delegations, d.parentOwner ≠ owner ∧
      ∃ c ∈ batch, c.delegatedFrom = some (d.parentOwner, d.parentResourceId) := by
  intro d hd
  have hassigned := h.checked d hd
  simp only [delegatesUnassigned, Bool.not_eq_false', any_eq_true, Bool.and_eq_true,
    decide_eq_true_eq] at hassigned
  obtain ⟨assignment, hassignment, hkind, hid⟩ := hassigned
  have hmem : d.resourceId ∈ batch.map RangeResource.resourceId := by
    rw [hids, idsOf, mem_map]
    exact ⟨assignment, mem_filter.mpr ⟨hassignment, by simpa using hkind⟩, hid⟩
  obtain ⟨c, hc, hcid⟩ := mem_map.mp hmem
  refine ⟨h.foreign d hd, c, hc, ?_⟩
  rw [(hbatch c hc).recorded, hcid, h.recordedParent hd]

/-- Delegations that are in force name no parent below their owner. -/
theorem noReturn_of_delegationsMatch (hs : Lineage allows s)
    (h : WellFormed owner extra delegations)
    (hmatch : delegationsMatch s kind owner assignments delegations = true) :
    NoReturn s owner delegations := by
  rintro d hd p hp hnamed ⟨x, hx, hxlive, hxowner, hchain⟩
  simp only [delegationsMatch, Bool.and_eq_true, all_eq_true, any_eq_true,
    decide_eq_true_eq, mem_filter] at hmatch
  obtain ⟨hassigned, hlisted⟩ := hmatch
  obtain ⟨assignment, hassignment, hkind, hid⟩ := hlisted d hd
  obtain ⟨r, hr, hrnamed, hfrom⟩ := hassigned assignment ⟨hassignment, hkind⟩
  have hrecorded := h.recordedParent hd
  rw [← hid, RangeResource.recordedParent, ← hfrom] at hrecorded
  obtain ⟨hrlive, hrowner, -⟩ := isNamed_iff.mp hrnamed
  obtain ⟨hplive, hpowner, hpid⟩ := isNamed_iff.mp hnamed
  -- the range in force is a child of the parent, so its chain would come back to its owner
  have hchild : ChildOf s r p := by
    refine ⟨hr, hp, hrlive, hplive, ?_⟩
    rw [DelegatedFrom, hrecorded, hpowner, hpid]
  exact hs.alien r x (Relation.TransGen.head' hchild hchain) (hrowner.trans hxowner.symm)

end

/-! ## Runs -/

/-- The lineages of both stores. -/
structure DelegationsSound (rm : ResourceManager) : Prop where
  memory : Lineage MemoryAccess.Allows rm.memory
  ports : Lineage (fun _ _ => True) rm.ports

/-- Delegated ranges in use have their parents, and delegations do not go round. -/
structure DelegationsGrounded (rm : ResourceManager) : Prop where
  memory : Grounded MemoryAccess.Allows rm.memory
  ports : Grounded (fun _ _ => True) rm.ports

end ResourceManager

open ResourceManager RangeResource

/-- A replacement that succeeds names no parent below the ranges of its owner. -/
def NamesForeignParents (rm : ResourceManager) (op : ResourceOp) : Prop :=
  match op with
  | .replaceOwnerAssignmentsWithDelegations owner _ memory ports _ _ =>
    (op.call rm).1 = .ok () →
      NoReturn rm.memory owner memory ∧ NoReturn rm.ports owner ports
  | _ => True

variable {rm rm' : ResourceManager} {α : Type} {allows : α → α → Prop} {s : List (RangeResource α)}

theorem liveById_eq_none {id : ℕ} (h : liveById s id = none) :
    ∀ x ∈ s, x.isLive = true → x.resourceId ≠ id := by
  intro x hx hlive hid
  have hnot := List.find?_eq_none.mp h x hx
  simp [hid, hlive] at hnot

/-- A range that goes out of use takes those below it along. -/
theorem RangeResource.Lineage.release (h : Lineage allows s) (id : ℕ) :
    Lineage allows (revokeOrphanedDelegations (revokeFirst id s)).1 :=
  h.settle (shrinks_release id s) (revokeOrphanedDelegations_settled _)

theorem RangeResource.Lineage.revokeOwner (h : Lineage allows s) (owner : ResourceOwner) :
    Lineage allows (withoutOwner owner s) :=
  h.settle (shrinks_withoutOwner owner s) (revokeOrphanedDelegations_settled _)

theorem ResourceManager.DelegationsSound.call {op : ResourceOp} (h : rm.DelegationsSound)
    (hforeign : NamesForeignParents rm op) : DelegationsSound (op.call rm).2 := by
  have hstep := step_call rm op
  rcases hcall : op.call rm with ⟨answer, rm'⟩
  rw [hcall] at hstep
  cases hstep with
  | failed | kept => exact h
  | replaced _ _ hbatch =>
    have hof := batchOf_admitAll hbatch
    obtain ⟨hmemory, hports⟩ := hforeign (congrArg Prod.fst hcall)
    exact ⟨h.memory.install hof.memory (hof.memoryIds ▸ hof.nodup) hmemory,
      h.ports.install hof.ports (hof.portIds ▸ hof.nodup) hports⟩
  | memoryClaimedAgain | portClaimedAgain => exact h
  | memoryClaimed hnone => exact ⟨h.memory.put rfl (liveById_eq_none hnone), h.ports⟩
  | memoryReleased => exact ⟨h.memory.release _, h.ports⟩
  | portClaimed hnone => exact ⟨h.memory, h.ports.put rfl (liveById_eq_none hnone)⟩
  | portReleased => exact ⟨h.memory, h.ports.release _⟩
  | ownerRevoked => exact ⟨h.memory.revokeOwner _, h.ports.revokeOwner _⟩
  | mapped | unmapped | connected | disconnected => exact ⟨h.memory, h.ports⟩

/-- If the ranges are grounded after a call, it named only foreign parents. -/
theorem namesForeignParents_of_grounded {op : ResourceOp} (h : rm.DelegationsSound)
    (hgrounded : DelegationsGrounded (op.call rm).2) : NamesForeignParents rm op := by
  unfold NamesForeignParents
  split
  case h_2 => trivial
  case h_1 owner assignments memory ports batchReserved storeReserved =>
    intro hok
    have hstep := step_call rm (.replaceOwnerAssignmentsWithDelegations owner assignments memory
      ports batchReserved storeReserved)
    rw [hok] at hstep
    generalize hnext : (ResourceOp.call _ rm).2 = rm' at hstep hgrounded
    cases hstep with
    | kept hmemory hports =>
      simp only [memoryDelegationsMatch, portDelegationsMatch, Bool.and_eq_true,
        Bool.not_eq_true'] at hmemory hports
      exact ⟨noReturn_of_delegationsMatch h.memory (wellFormed_of_not_rejected hmemory.1)
          hmemory.2,
        noReturn_of_delegationsMatch h.ports (wellFormed_of_not_rejected hports.1) hports.2⟩
    | replaced hmemory hports hbatch =>
      have hof := batchOf_admitAll hbatch
      refine ⟨noReturn_of_install hof.memory (hof.memoryIds ▸ hof.nodup) h.memory ?_
        hgrounded.memory, noReturn_of_install hof.ports (hof.portIds ▸ hof.nodup) h.ports ?_
        hgrounded.ports⟩
      · exact exists_batch_of_delegation (wellFormed_of_not_rejected hmemory) hof.memory
          hof.memoryIds
      · exact exists_batch_of_delegation (wellFormed_of_not_rejected hports) hof.ports hof.portIds

/-- The platform has a page, a bus gets it from the platform, and the platform asks for it back
from the bus. -/
def circularDelegation : List ResourceOp :=
  [.claimMemory ⟨1, 1, 1⟩ 10 0x1000 0x1000 0x1000 0 3 true,
    .replaceOwnerAssignmentsWithDelegations ⟨2, 2, 2⟩
      [{ kind := resKindMemory, flags := 0, share := shareExclusive, resourceId := 20
         rawStart := 0x1000, translatedStart := 0x1000, length := 0x1000, arg0 := 0, arg1 := 3 }]
      [⟨⟨1, 1, 1⟩, 10, 20⟩] [] true true,
    .replaceOwnerAssignmentsWithDelegations ⟨1, 1, 1⟩
      [{ kind := resKindMemory, flags := 0, share := shareExclusive, resourceId := 10
         rawStart := 0x1000, translatedStart := 0x1000, length := 0x1000, arg0 := 0, arg1 := 3 }]
      [⟨⟨2, 2, 2⟩, 20, 10⟩] [] true true]

/-- The replacement takes away the parent that it has found, and leaves a delegated range in use
whose parent is not. -/
theorem replacement_revokes_its_parent :
    (ResourceOp.run {} circularDelegation).memory =
      [⟨10, ⟨1, 1, 1⟩, 0x1000, 0x1000, 0x1000, ⟨0, 3⟩, 0, 0, false, some (⟨2, 2, 2⟩, 20)⟩,
        ⟨20, ⟨2, 2, 2⟩, 0x1000, 0x1000, 0x1000, ⟨0, 3⟩, 0, 0, true, some (⟨1, 1, 1⟩, 10)⟩] ∧
    ¬ DelegationsGrounded (ResourceOp.run {} circularDelegation) := by
  refine ⟨by decide, fun h => ?_⟩
  have hgrounded := h.memory
  obtain ⟨p, hp, hnamed, -, -⟩ := hgrounded.parent _ mem_cons_self rfl _ _ rfl
  rcases mem_cons.mp hp with rfl | hp
  · exact absurd hnamed (by decide)
  · rw [mem_singleton.mp hp] at hnamed
    exact absurd hnamed (by decide)

/-- After every call of a run delegated ranges in use have their parents, and delegations do not
go round, exactly if every replacement named only parents that are not below its own owner. -/
theorem delegations_grounded_iff (ops : List ResourceOp) :
    (∀ n, DelegationsGrounded (ResourceOp.run {} (ops.take n))) ↔
      EveryCall NamesForeignParents {} ops := by
  have hempty : DelegationsSound {} := ⟨.empty, .empty⟩
  refine always_iff_everyCall (fun rm h => ?_) (fun rm op h => h.call)
    (fun rm op h => namesForeignParents_of_grounded h) ops hempty
  exact ⟨h.memory.grounded, h.ports.grounded⟩

end UserspaceNtos.HardwareResources
