import UserspaceNtos.HardwareResources.Delegation

/-!
# Grants and the resources behind them

A mapping of device memory and a connection to an interrupt line are granted for a resource of
their owner, and are kept in tables of their own.  When a resource goes out of use with its owner
or with its parent, its grants are ended with it.  The release of a memory range is the
exception: it ends the mappings of the ranges below, and not those of the range itself.

`grants_confined_iff` says that this is the only way in which a grant outlives its resource.
-/

namespace UserspaceNtos.HardwareResources

open Exclusion ResourceManager RangeResource List

/-- A memory range in use of the mapping's owner that the mapping lies inside. -/
def MappedIn (memory : List MemoryResource) (m : Mapping) : Prop :=
  ∃ r ∈ memory, r.isLive = true ∧ r.resourceId = m.resourceId ∧ r.owner = m.owner ∧
    r.translatedStart ≤ m.translatedStart ∧
    m.translatedStart + m.length ≤ r.translatedStart + r.length

/-- An interrupt in use of the connection's owner. -/
def ConnectedTo (interrupts : List InterruptResource) (c : Interrupt) : Prop :=
  ∃ i ∈ interrupts, i.isLive = true ∧ i.resourceId = c.resourceId ∧ i.owner = c.owner

/-- Every grant has its resource. -/
structure GrantsConfined (rm : ResourceManager) : Prop where
  mappings : ∀ m ∈ rm.mappings, m.valid = true → MappedIn rm.memory m
  connected : ∀ c ∈ rm.connected, c.connected = true → ConnectedTo rm.interruptsRes c

/-- A release that succeeds finds no valid mapping of the range. -/
def ReleasesUnmapped (rm : ResourceManager) (op : ResourceOp) : Prop :=
  match op with
  | .releaseMemory _ id =>
    (op.call rm).1 = .ok () → ∀ m ∈ rm.mappings, m.valid = true → m.resourceId ≠ id
  | _ => True

/-! ## Ending mappings -/

section Mappings

variable {mappings : List Mapping} {m : Mapping} {id : ℕ} {ids : List ℕ}

theorem mem_revokeMemoryResourceUsage : m ∈ revokeMemoryResourceUsage id mappings ∧ m.valid = true ↔
      m ∈ mappings ∧ m.valid = true ∧ m.resourceId ≠ id := by
  constructor
  · rintro ⟨hmem, hvalid⟩
    obtain ⟨x, hx, rfl⟩ := mem_map.mp hmem
    split_ifs at hvalid with hnot
    rw [if_neg hnot]
    exact ⟨hx, hvalid, fun hid => hnot ⟨hid, hvalid⟩⟩
  · rintro ⟨hmem, hvalid, hne⟩
    exact ⟨mem_map.mpr ⟨m, hmem, if_neg fun hboth => hne hboth.1⟩, hvalid⟩

/-- The mappings that are valid after the ranges with the identifiers have gone. -/
theorem mem_foldl_revokeMemoryResourceUsage :
    m ∈ ids.foldl (fun ms id => revokeMemoryResourceUsage id ms) mappings ∧ m.valid = true ↔
      m ∈ mappings ∧ m.valid = true ∧ m.resourceId ∉ ids := by
  induction ids generalizing mappings with
  | nil => simp
  | cons id ids ih =>
    rw [foldl_cons, ih, mem_cons, not_or, ← and_assoc, mem_revokeMemoryResourceUsage,
      and_assoc, and_assoc]

theorem MappedIn.mono {memory memory' : List MemoryResource}
    (hsub : ∀ r ∈ memory, r.isLive = true → r.resourceId = m.resourceId → r.owner = m.owner →
      r ∈ memory') (h : MappedIn memory m) : MappedIn memory' m := by
  obtain ⟨r, hr, hlive, hid, howner, hrange⟩ := h
  exact ⟨r, hsub r hr hlive hid howner, hlive, hid, howner, hrange⟩

end Mappings

/-- A range that the cascade leaves unlisted stays in use. -/
theorem mem_of_not_listed {α : Type} {s : List (RangeResource α)} {r : RangeResource α}
    (hr : r ∈ s) (hlive : r.isLive = true) (hnot : r.resourceId ∉ (revokeOrphanedDelegations s).2) :
    r ∈ (revokeOrphanedDelegations s).1 := by
  have hcascade : Cascade (fun _ => True) s [] (revokeOrphanedDelegations s) :=
    cascade_revokeOrphanedDelegations fun _ _ _ _ _ _ _ => trivial
  exact (hcascade.accounted r hr hlive).resolve_right fun hlisted => hnot hlisted.2

/-- With distinct identifiers a release leaves no range in use under its identifier. -/
theorem resourceId_ne_of_mem_revokeFirst {α : Type} {s : List (RangeResource α)}
    {x : RangeResource α} {id : ℕ} (hkeys : (s.map RangeResource.resourceId).Nodup)
    (hx : x ∈ revokeFirst id s) (hlive : x.isLive = true) : x.resourceId ≠ id := by
  unfold revokeFirst at hx
  induction s with
  | nil => exact absurd hx not_mem_nil
  | cons a s ih =>
    rw [map_cons, nodup_cons] at hkeys
    rw [modifyFirst] at hx
    split at hx
    case isTrue hfound =>
      simp only [Bool.and_eq_true, decide_eq_true_eq] at hfound
      rcases mem_cons.mp hx with rfl | hx
      · cases hlive
      · intro hid
        exact hkeys.1 (mem_map.mpr ⟨x, hx, hid.trans hfound.1.symm⟩)
    case isFalse hnot =>
      rcases mem_cons.mp hx with rfl | hx
      · intro hid
        exact hnot (by simp [hid, hlive])
      · exact ih hkeys.2 hx

/-! ## Steps -/

variable {rm : ResourceManager} {owner : ResourceOwner}

theorem GrantsConfined.release {id : ℕ} (h : GrantsConfined rm)
    (hunmapped : ∀ m ∈ rm.mappings, m.valid = true → m.resourceId ≠ id) : GrantsConfined
      (revokeOrphanedMemoryDelegations { rm with memory := revokeFirst id rm.memory }).2 := by
  refine ⟨fun m hm hvalid => ?_, h.connected⟩
  obtain ⟨hm, -, hnot⟩ := mem_foldl_revokeMemoryResourceUsage.mp ⟨hm, hvalid⟩
  refine (h.mappings m hm hvalid).mono fun r hr hlive hid _ => ?_
  rw [← hid] at hnot
  refine mem_of_not_listed (mem_modifyFirst_of_not hr ?_) hlive hnot
  have hne : r.resourceId ≠ id := hid ▸ hunmapped m hm hvalid
  simp [hne]

theorem GrantsConfined.revokeOwner (h : GrantsConfined rm) :
    GrantsConfined (rm.revokeOwner owner).2 := by
  refine ⟨fun m hm hvalid => ?_, fun c hc hconnected => ?_⟩
  · obtain ⟨x, hx, rfl⟩ := mem_map.mp hm
    split_ifs at hvalid with hnot
    rw [if_neg hnot]
    have howner : x.owner ≠ owner := fun heq => hnot ⟨heq, hvalid⟩
    obtain ⟨hx, -, hlisted⟩ := mem_foldl_revokeMemoryResourceUsage.mp ⟨hx, hvalid⟩
    refine (h.mappings x hx hvalid).mono fun r hr hlive hid hrowner => ?_
    rw [← hid] at hlisted
    refine mem_of_not_listed (mem_map.mpr ⟨r, hr, if_neg fun hboth => ?_⟩) hlive hlisted
    exact howner (hrowner.symm.trans hboth.1)
  · obtain ⟨x, hx, rfl⟩ := mem_map.mp hc
    split_ifs at hconnected with hnot
    rw [if_neg hnot]
    have howner : x.owner ≠ owner := fun heq => hnot ⟨heq, hconnected⟩
    obtain ⟨i, hi, hlive, hid, hiowner⟩ := h.connected x hx hconnected
    refine ⟨i, mem_map.mpr ⟨i, hi, if_neg fun hboth => ?_⟩, hlive, hid, hiowner⟩
    exact howner (hiowner.symm.trans hboth.1)

section

variable (hs : rm.ResourcesSound fun _ _ => True)
include hs

/-- The batch takes identifiers that nothing of another owner has in use. -/
theorem GrantsConfined.install {memoryDelegations portDelegations : List ResourceDelegation}
    {assignments : List HalResourceDescriptor} {batch : Batch} (h : GrantsConfined rm)
    (hof : BatchOf rm owner memoryDelegations portDelegations assignments batch) :
    GrantsConfined (install batch (rm.revokeOwner owner).2) := by
  have hrest : GrantsConfined (rm.revokeOwner owner).2 := h.revokeOwner
  obtain ⟨-, -, hshrinks⟩ := revokeOwner_shrinks rm owner
  obtain ⟨-, -, hforeign⟩ := revokeOwner_owner rm owner
  refine ⟨fun m hm hvalid => ?_, fun c hc hconnected => ?_⟩
  · refine (hrest.mappings m hm hvalid).mono fun r hr hlive _ _ => ?_
    exact mem_putAll_of_mem_withoutOwner hof.memory (hof.memoryIds ▸ hof.nodup) hs.memory.keys hr
      hlive
  · obtain ⟨i, hi, hlive, hid, hiowner⟩ := hrest.connected c hc hconnected
    have hids : (batch.interrupts.map InterruptResource.resourceId).Nodup :=
      hof.interruptIds ▸ hof.nodup
    refine ⟨i, (mem_putAll (hshrinks.nodup hs.interrupts.keys) hids).mpr
      (.inr ⟨hi, fun hmem => ?_⟩), hlive, hid, hiowner⟩
    obtain ⟨b, hb, hbid⟩ := mem_map.mp hmem
    exact hforeign i hi hlive ((hof.interrupts b hb).2 i (hshrinks.live i hi hlive) hlive hbid.symm)

variable {op : ResourceOp}

theorem GrantsConfined.call (h : GrantsConfined rm)
    (hunmapped : ReleasesUnmapped rm op) : GrantsConfined (op.call rm).2 := by
  have hstep := step_call rm op
  rcases hcall : op.call rm with ⟨answer, rm'⟩
  rw [hcall] at hstep
  cases hstep with
  | failed | kept | memoryClaimedAgain => exact h
  | replaced _ _ hbatch => exact h.install hs (batchOf_admitAll hbatch)
  | memoryClaimed hnone =>
    refine ⟨fun m hm hvalid => ?_, h.connected⟩
    refine (h.mappings m hm hvalid).mono fun r hr hlive _ _ => ?_
    exact (mem_put hs.memory.keys).mpr (.inr ⟨hr, liveById_eq_none hnone r hr hlive⟩)
  | memoryReleased => exact h.release (hunmapped (congrArg Prod.fst hcall))
  | portClaimedAgain => exact h
  | portClaimed | portReleased => exact ⟨h.mappings, h.connected⟩
  | ownerRevoked => exact h.revokeOwner
  | @mapped _ phys length _ r hr hlive howner hstart hlength hoffset =>
    refine ⟨fun m hm hvalid => ?_, h.connected⟩
    rcases mem_append.mp hm with hm | hm
    · exact h.mappings m hm hvalid
    · rw [mem_singleton.mp hm]
      refine ⟨r, hr, hlive, rfl, howner, Nat.le_add_right _ _, ?_⟩
      simp only [mappingOf]
      omega
  | unmapped =>
    refine ⟨fun m hm hvalid => ?_, h.connected⟩
    refine h.mappings m (Shrinks.live (?_ : Shrinks Mapping.mappingId _ _ _) m hm hvalid) hvalid
    exact shrinks_modifyFirst (fun _ => rfl) fun _ => rfl
  | @connected _ id request _ i hi hlive hid howner =>
    refine ⟨h.mappings, fun c hc hconnected => ?_⟩
    rcases mem_append.mp hc with hc | hc
    · exact h.connected c hc hconnected
    · rw [mem_singleton.mp hc]
      exact ⟨i, hi, hlive, hid, howner⟩
  | disconnected =>
    refine ⟨h.mappings, fun c hc hconnected => ?_⟩
    refine h.connected c (Shrinks.live (?_ : Shrinks Interrupt.interruptId _ _ _) c hc hconnected)
      hconnected
    exact shrinks_modifyFirst (fun _ => rfl) fun _ => rfl

/-- If every grant is confined after a call, the call has released no range under a mapping. -/
theorem releasesUnmapped_of_confined
    (hconfined : GrantsConfined (op.call rm).2) : ReleasesUnmapped rm op := by
  unfold ReleasesUnmapped
  split
  case h_2 => trivial
  case h_1 owner id =>
    intro hok m hm hvalid hid
    have hstep := step_call rm (.releaseMemory owner id)
    rw [hok] at hstep
    generalize hnext : (ResourceOp.call _ rm).2 = rm' at hstep hconfined
    cases hstep with
    | memoryReleased =>
      have hkeys := hs.memory.keys
      -- the range itself is not among those that the cascade lists
      have hnot : m.resourceId ∉ (revokeOrphanedDelegations (revokeFirst id rm.memory)).2 := by
        intro hlisted
        have hcascade : Cascade (fun _ => True) (revokeFirst id rm.memory) []
            (revokeOrphanedDelegations (revokeFirst id rm.memory)) :=
          cascade_revokeOrphanedDelegations fun _ _ _ _ _ _ _ => trivial
        obtain ⟨r, hr, hlive, hrid⟩ := hcascade.listed _ hlisted
        exact resourceId_ne_of_mem_revokeFirst hkeys hr hlive (hrid.trans hid)
      obtain ⟨hmem, -⟩ := mem_foldl_revokeMemoryResourceUsage.mpr ⟨hm, hvalid, hnot⟩
      obtain ⟨r, hr, hlive, hrid, -⟩ := hconfined.mappings m hmem hvalid
      have hr' := (shrinks_revokeOrphanedDelegations (revokeFirst id rm.memory)).live r hr hlive
      exact resourceId_ne_of_mem_revokeFirst hkeys hr' hlive (hrid.trans hid)

end

/-! ## Runs -/

/-- Confined grants over stores with distinct identifiers. -/
structure GrantsSound (rm : ResourceManager) : Prop where
  resources : rm.ResourcesSound fun _ _ => True
  grants : GrantsConfined rm

theorem GrantsSound.call {op : ResourceOp} (h : GrantsSound rm)
    (hunmapped : ReleasesUnmapped rm op) : GrantsSound (op.call rm).2 :=
  ⟨h.resources.call (fun _ _ _ => trivial) (fun _ _ _ => trivial) (.inl fun _ _ => trivial),
    h.grants.call h.resources hunmapped⟩

/-- A page is claimed, mapped and released. -/
def mappedRelease : List ResourceOp :=
  [.claimMemory ⟨1, 1, 1⟩ 10 0x1000 0x1000 0x1000 0 3 true, .mapIoSpace ⟨1, 1, 1⟩ 0x1000 16 true,
    .releaseMemory ⟨1, 1, 1⟩ 10]

/-- The mapping is still valid after the release, and no memory is in use. -/
theorem release_keeps_mapping :
    (ResourceOp.run {} mappedRelease).mappings.map Mapping.valid = [true] ∧
      (ResourceOp.run {} mappedRelease).memory.map RangeResource.isLive = [false] ∧
      ¬ GrantsConfined (ResourceOp.run {} mappedRelease) := by
  have hmemory : (ResourceOp.run {} mappedRelease).memory.map RangeResource.isLive = [false] := by
    decide
  refine ⟨by decide, hmemory, fun h => ?_⟩
  have hmem : (⟨1, 10, ⟨1, 1, 1⟩, 0x1000, 16, true⟩ : Mapping) ∈
      (ResourceOp.run {} mappedRelease).mappings := by
    decide
  obtain ⟨r, hr, hlive, -⟩ := h.mappings _ hmem rfl
  have hdead := mem_map_of_mem (f := RangeResource.isLive) hr
  rw [hlive] at hdead
  exact absurd hdead (by decide)

/-- After every call of a run each valid mapping lies in a memory range in use of its owner, and
each connection has its interrupt, exactly if no range was released under a valid mapping. -/
theorem grants_confined_iff (ops : List ResourceOp) :
    (∀ n, GrantsConfined (ResourceOp.run {} (ops.take n))) ↔ EveryCall ReleasesUnmapped {} ops := by
  have hempty : GrantsSound {} := ⟨resourcesSound_empty, ⟨fun m hm => absurd hm not_mem_nil,
      fun c hc => absurd hc not_mem_nil⟩⟩
  exact always_iff_everyCall (fun rm (h : GrantsSound rm) => h.grants)
    (fun rm op h hunmapped => h.call hunmapped)
    (fun rm op h => releasesUnmapped_of_confined h.resources) ops hempty

end UserspaceNtos.HardwareResources
