import UserspaceNtos.HardwareResources.CallSteps
import UserspaceNtos.Lib.Result
import Mathlib.Logic.Relation

/-!
# Hardware resources exclude each other

Two ranges in use that meet are both shared, or one of them was delegated from the other; two
interrupts in use on one line are both shared.  Each of the three stores is `Exclusion.Sound`
for such a relation: revocations only shrink a store, and what is put in was compared with
everything in use first.

The claim of a port is the exception: it compares with the raw ranges of the ports in use.
Ports are exclusive exactly as long as no claim that is granted meets a translated range without
meeting the raw range of the same port (`SeesTranslated`).
-/

namespace UserspaceNtos.HardwareResources

open Exclusion List

/-! ## Compatible ranges -/

namespace RangeResource

variable {α : Type} {a b r : RangeResource α} {s : List (RangeResource α)} {owner : ResourceOwner}

/-- The translated addresses of a range. -/
def Covers (r : RangeResource α) (address : ℕ) : Prop :=
  r.translatedStart ≤ address ∧ address < r.translatedStart + r.length

/-- The ranges have an address in common. -/
def Meets (a b : RangeResource α) : Prop := ∃ address, a.Covers address ∧ b.Covers address

/-- The recorded parent. -/
def DelegatedFrom (a b : RangeResource α) : Prop := a.delegatedFrom = some (b.owner, b.resourceId)

/-- Ranges that meet are both shared, or one is delegated from the other. -/
def Compatible (a b : RangeResource α) : Prop :=
  Meets a b → (a.share = shareShared ∧ b.share = shareShared) ∨ DelegatedFrom a b ∨
    DelegatedFrom b a

/-- The share is one of the two the code knows. -/
def Valid (r : RangeResource α) : Prop := r.share = shareExclusive ∨ r.share = shareShared

/-- A store of ranges as every operation leaves it. -/
abbrev StoreSound (s : List (RangeResource α)) : Prop :=
  Sound resourceId isLive Compatible Valid s

theorem Compatible.symm (h : Compatible a b) : Compatible b a := by
  rintro ⟨address, hb, ha⟩
  rcases h ⟨address, ha, hb⟩ with ⟨hsa, hsb⟩ | hab | hba
  · exact .inl ⟨hsb, hsa⟩
  · exact .inr (.inr hab)
  · exact .inr (.inl hba)

theorem rangesOverlap_of_common {s₁ n₁ s₂ n₂ address : ℕ}
    (h₁ : s₁ ≤ address ∧ address < s₁ + n₁) (h₂ : s₂ ≤ address ∧ address < s₂ + n₂) :
    rangesOverlap s₁ n₁ s₂ n₂ = true := by
  unfold rangesOverlap
  split
  · rfl
  split
  · rfl
  simp only [Bool.and_eq_true, decide_eq_true_eq]
  omega

theorem Meets.overlaps (h : Meets a b) : overlaps a b = true := by
  obtain ⟨address, ha, hb⟩ := h
  exact rangesOverlap_of_common ha hb

/-- Ranges that meet, of which none wants the addresses for itself, are shared. -/
theorem shared_of_not_wantsExclusive (ha : a.Valid) (hb : b.Valid)
    (h : wantsExclusive a b = false) : a.share = shareShared ∧ b.share = shareShared := by
  simp only [wantsExclusive, Bool.or_eq_false_iff, decide_eq_false_iff_not] at h
  exact ⟨ha.resolve_left h.1, hb.resolve_left h.2⟩

/-! ## What shrinks a store -/

theorem shrinks_revokeOrphanAt (state : List (RangeResource α) × List ℕ) (index : ℕ) :
    Shrinks resourceId isLive state.1 (revokeOrphanAt state index).1 := by
  unfold revokeOrphanAt
  split
  · exact .refl _
  case h_2 r hr =>
    split
    · exact shrinks_set hr rfl rfl
    · exact .refl _

theorem shrinks_foldl_revokeOrphanAt (indices : List ℕ) (state : List (RangeResource α) × List ℕ) :
    Shrinks resourceId isLive state.1 (indices.foldl revokeOrphanAt state).1 := by
  induction indices generalizing state with
  | nil => exact .refl _
  | cons index indices ih => exact (shrinks_revokeOrphanAt state index).trans (ih _)

theorem shrinks_orphanPass (s : List (RangeResource α)) :
    Shrinks resourceId isLive s (orphanPass s).1 :=
  shrinks_foldl_revokeOrphanAt _ (s, [])

theorem shrinks_revokeOrphansLoop (fuel : ℕ) (s : List (RangeResource α)) :
    Shrinks resourceId isLive s (revokeOrphansLoop fuel s).1 := by
  induction fuel generalizing s with
  | zero => exact .refl _
  | succ fuel ih =>
    rw [revokeOrphansLoop]
    split
    · exact shrinks_orphanPass s
    · exact (shrinks_orphanPass s).trans (ih _)

theorem shrinks_revokeOrphanedDelegations (s : List (RangeResource α)) :
    Shrinks resourceId isLive s (revokeOrphanedDelegations s).1 :=
  shrinks_revokeOrphansLoop _ s

theorem shrinks_revokeOwned (owner : ResourceOwner) (s : List (RangeResource α)) :
    Shrinks resourceId isLive s (revokeOwned owner s) := by
  refine shrinks_map (fun r => ?_) fun r hlive => ?_
  · split <;> rfl
  · split at hlive
    · cases hlive
    case isFalse h => rw [if_neg h]

/-- Afterwards the owner has nothing in use. -/
theorem owner_ne_of_mem_revokeOwned (hr : r ∈ revokeOwned owner s) (hlive : r.isLive = true) :
    r.owner ≠ owner := by
  obtain ⟨x, -, rfl⟩ := mem_map.mp hr
  split at hlive
  · cases hlive
  case isFalse h =>
    rw [if_neg h]
    intro howner
    exact h ⟨howner, by simpa [isLive] using hlive⟩

end RangeResource

/-! ## The loop over orphans ends -/

namespace RangeResource

variable {α : Type} {s : List (RangeResource α)}

/-- The number of records in use. -/
def liveCount (s : List (RangeResource α)) : ℕ := s.countP isLive

theorem liveCount_set {i : ℕ} {r : RangeResource α} (hr : s[i]? = some r)
    (hlive : r.isLive = true) : liveCount (s.set i r.revoke) + 1 = liveCount s := by
  induction s generalizing i with
  | nil => cases hr
  | cons a s ih =>
    cases i with
    | zero =>
      cases hr
      have hdead : r.revoke.isLive = false := rfl
      simp [liveCount, hlive, hdead]
    | succ i =>
      have := ih hr
      simp only [liveCount, set_cons_succ, countP_cons] at this ⊢
      omega

theorem isLive_of_isOrphan {r : RangeResource α} (h : isOrphan s r = true) : r.isLive = true := by
  unfold isOrphan at h
  split at h
  · cases h
  · simp only [Bool.and_eq_true] at h
    exact h.1

/-- A pass revokes as many records as it reports; if it reports none it changes nothing and
saw no orphan. -/
theorem foldl_revokeOrphanAt (indices : List ℕ) (state : List (RangeResource α) × List ℕ) :
    liveCount (indices.foldl revokeOrphanAt state).1 +
        (indices.foldl revokeOrphanAt state).2.length =
      liveCount state.1 + state.2.length ∧
    ((indices.foldl revokeOrphanAt state).2.length = state.2.length →
      (indices.foldl revokeOrphanAt state).1 = state.1 ∧
        ∀ i ∈ indices, ∀ r, state.1[i]? = some r → isOrphan state.1 r = false) ∧
    state.2.length ≤ (indices.foldl revokeOrphanAt state).2.length := by
  induction indices generalizing state with
  | nil => simp
  | cons i indices ih =>
    rw [foldl_cons]
    by_cases horphan : ∃ r, state.1[i]? = some r ∧ isOrphan state.1 r = true
    · obtain ⟨r, hr, ho⟩ := horphan
      have hstep : revokeOrphanAt state i =
          (state.1.set i r.revoke, state.2 ++ [r.resourceId]) := by
        simp [revokeOrphanAt, hr, ho]
      have hcount := liveCount_set hr (isLive_of_isOrphan ho)
      obtain ⟨hsum, -, hle⟩ := ih (revokeOrphanAt state i)
      rw [hstep] at hsum hle
      simp only [length_append, length_singleton] at hsum hle
      rw [hstep]
      refine ⟨by omega, fun hlen => ?_, by omega⟩
      omega
    · have hno : ∀ r, state.1[i]? = some r → isOrphan state.1 r = false := fun r hr =>
        Bool.eq_false_iff.mpr fun ho => horphan ⟨r, hr, ho⟩
      have hstep : revokeOrphanAt state i = state := by
        unfold revokeOrphanAt
        split
        · rfl
        case h_2 r hr => simp [hno r hr]
      rw [hstep]
      obtain ⟨hsum, hnone, hle⟩ := ih state
      exact ⟨hsum, fun hlen => ⟨(hnone hlen).1, forall_mem_cons.mpr ⟨hno, (hnone hlen).2⟩⟩, hle⟩

theorem orphanPass_of_nil (h : (orphanPass s).2 = []) :
    (orphanPass s).1 = s ∧ ∀ r ∈ s, isOrphan s r = false := by
  obtain ⟨-, hnone, -⟩ := foldl_revokeOrphanAt (List.range s.length) (s, [])
  obtain ⟨hsame, hall⟩ := hnone (by rw [← orphanPass, h])
  refine ⟨hsame, fun r hr => ?_⟩
  obtain ⟨i, hi, rfl⟩ := getElem_of_mem hr
  exact hall i (mem_range.mpr hi) _ (List.getElem?_eq_getElem hi)

theorem revokeOrphansLoop_settled {fuel : ℕ} (hfuel : liveCount s < fuel) :
    ∀ r ∈ (revokeOrphansLoop fuel s).1, isOrphan (revokeOrphansLoop fuel s).1 r = false := by
  induction fuel generalizing s with
  | zero => omega
  | succ fuel ih =>
    rw [revokeOrphansLoop]
    split
    case isTrue hnil =>
      obtain ⟨hsame, hall⟩ := orphanPass_of_nil hnil
      rw [hsame]
      exact hall
    case isFalse hsome =>
      have hcount : liveCount (orphanPass s).1 + (orphanPass s).2.length = liveCount s :=
        (foldl_revokeOrphanAt (List.range s.length) (s, [])).1
      have hpos := length_pos_iff.mpr hsome
      exact ih (by omega)

/-- No delegation without its parent is left in use. -/
theorem revokeOrphanedDelegations_settled (s : List (RangeResource α)) :
    ∀ r ∈ (revokeOrphanedDelegations s).1, isOrphan (revokeOrphanedDelegations s).1 r = false :=
  revokeOrphansLoop_settled (Nat.lt_succ_of_le countP_le_length)

end RangeResource

/-! ## Compatible interrupts -/

namespace InterruptResource

/-- Interrupts of one line are both shared. -/
def Compatible (a b : InterruptResource) : Prop :=
  a.line = b.line → a.share = shareShared ∧ b.share = shareShared

/-- The share is one of the two the code knows. -/
def Valid (i : InterruptResource) : Prop := i.share = shareExclusive ∨ i.share = shareShared

/-- The live grants are compatible and have identifiers of their own. -/
abbrev StoreSound (s : List InterruptResource) : Prop :=
  Sound resourceId isLive Compatible Valid s

theorem Compatible.symm {a b : InterruptResource} (h : Compatible a b) : Compatible b a :=
  fun hline => (h hline.symm).symm

theorem compatible_of_sameLineConflict {a b : InterruptResource} (ha : a.Valid) (hb : b.Valid)
    (h : ResourceManager.sameLineConflict a b = false) : Compatible a b := by
  intro hline
  simp only [ResourceManager.sameLineConflict, hline, decide_true, Bool.true_and,
    Bool.or_eq_false_iff, decide_eq_false_iff_not] at h
  exact ⟨ha.resolve_left h.1, hb.resolve_left h.2⟩

end InterruptResource

/-! ## The batch of a replacement -/

/-- The collected records are valid, compatible with each other and with what other owners
have in use. -/
structure Fits {ρ : Type} (isLive : ρ → Bool) (ownerOf : ρ → ResourceOwner) (R : ρ → ρ → Prop)
    (V : ρ → Prop) (owner : ResourceOwner) (store batch : List ρ) : Prop where
  valid : ∀ c ∈ batch, V c
  pairwise : batch.Pairwise R
  others : ∀ c ∈ batch, ∀ x ∈ store, isLive x = true → ownerOf x ≠ owner → R c x

section Fits

variable {ρ : Type} {isLive : ρ → Bool} {ownerOf : ρ → ResourceOwner} {R : ρ → ρ → Prop}
  {V : ρ → Prop} {owner : ResourceOwner} {store batch : List ρ} {c : ρ}

theorem Fits.empty : Fits isLive ownerOf R V owner store [] :=
  ⟨forall_mem_nil _, List.Pairwise.nil, forall_mem_nil _⟩

theorem Fits.concat (h : Fits isLive ownerOf R V owner store batch) (hvalid : V c)
    (hbatch : ∀ x ∈ batch, R x c)
    (hothers : ∀ x ∈ store, isLive x = true → ownerOf x ≠ owner → R c x) :
    Fits isLive ownerOf R V owner store (batch ++ [c]) := by
  refine ⟨?_, ?_, ?_⟩
  · exact forall_mem_append.mpr ⟨h.valid, forall_mem_singleton.mpr hvalid⟩
  · refine pairwise_append.mpr ⟨h.pairwise, pairwise_singleton _ _, fun x hx => ?_⟩
    exact forall_mem_singleton.mpr (hbatch x hx)
  · exact forall_mem_append.mpr ⟨h.others, forall_mem_singleton.mpr hothers⟩

/-- A batch that fits is put in once the owner has nothing in use. -/
theorem Fits.sound {κ : Type} [DecidableEq κ] {key : ρ → κ} {store' : List ρ}
    (h : Fits isLive ownerOf R V owner store batch) (hs : Sound key isLive R V store)
    (hsymm : ∀ x y, R x y → R y x) (hshrinks : Shrinks key isLive store store')
    (howner : ∀ x ∈ store', isLive x = true → ownerOf x ≠ owner) :
    Sound key isLive R V (putAll key batch store') := by
  refine (hs.shrink hshrinks).putAll hsymm h.valid h.pairwise fun c hc x hx hlive => ?_
  exact h.others c hc x (hshrinks.live x hx hlive) hlive (howner x hx hlive)

end Fits

namespace ResourceManager

open RangeResource

variable {rm : ResourceManager} {owner : ResourceOwner}

/-- The batch can be added to the ranges of the store. -/
abbrev RangeFits {α : Type} (owner : ResourceOwner) (store batch : List (RangeResource α)) : Prop :=
  Fits RangeResource.isLive RangeResource.owner RangeResource.Compatible RangeResource.Valid owner
    store batch

/-- The batch can be added to all three stores. -/
structure BatchFits (rm : ResourceManager) (owner : ResourceOwner) (batch : Batch) : Prop where
  memory : RangeFits owner rm.memory batch.memory
  ports : RangeFits owner rm.ports batch.ports
  interrupts : Fits InterruptResource.isLive InterruptResource.owner InterruptResource.Compatible
    InterruptResource.Valid owner rm.interruptsRes batch.interrupts

/-- A candidate that does not conflict joins the batch. -/
theorem rangeFits_concat {α : Type} {store batch : List (RangeResource α)}
    {c : RangeResource α} (h : RangeFits owner store batch) (hc : c.owner = owner)
    (hstore : ∀ x ∈ store, x.isLive = true → x.Valid) (hvalid : c.Valid)
    (hconflicts : ¬ conflicts store batch c = true) : RangeFits owner store (batch ++ [c]) := by
  simp only [conflicts, Bool.or_eq_true, not_or, any_eq_true, not_exists, not_and] at hconflicts
  obtain ⟨hothers, hbatch⟩ := hconflicts
  refine h.concat hvalid (fun x hx => Compatible.symm fun hmeets => ?_)
    fun x hx hlive howner hmeets => ?_
  · have hx' := hbatch x hx
    simp only [hmeets.overlaps, Bool.not_eq_true] at hx'
    exact .inl (shared_of_not_wantsExclusive hvalid (h.valid x hx) hx')
  · by_cases hwants : wantsExclusive c x = true
    · have hparent : c.delegatedFrom = some (x.owner, x.resourceId) := by
        by_contra hne
        exact hothers x hx (by simp [hc, howner, hlive, hmeets.overlaps, hwants, hne])
      exact .inr (.inl hparent)
    · exact .inl (shared_of_not_wantsExclusive hvalid (hstore x hx hlive) (by simpa using hwants))

/-- The stores in a sound state.  What ports in use have to satisfy in pairs is left open: it is
more than nothing only for some runs. -/
structure ResourcesSound (P : PortResource → PortResource → Prop) (rm : ResourceManager) :
    Prop where
  memory : RangeResource.StoreSound rm.memory
  ports : Sound RangeResource.resourceId RangeResource.isLive P RangeResource.Valid rm.ports
  interrupts : InterruptResource.StoreSound rm.interruptsRes

section Replace

variable {P : PortResource → PortResource → Prop}
  {memoryDelegations portDelegations : List ResourceDelegation} {batch batch' : Batch}
  {d : HalResourceDescriptor} {prior assignments : List HalResourceDescriptor}

/-- The batch after a descriptor that passed the checks of its kind. -/
inductive Admission (rm : ResourceManager) (owner : ResourceOwner)
    (memoryDelegations portDelegations : List ResourceDelegation) (batch : Batch)
    (d : HalResourceDescriptor) : Batch → Prop
  | memory {delegatedFrom : Option (ResourceOwner × ℕ)} (hkind : d.kind = resKindMemory)
      (hparent : delegatedParent rm.memory memoryDelegations d (fun parent =>
        decide (d.arg0 % 2 ^ 32 = parent.access.cache) &&
          decide (d.arg1 &&& parent.access.rights = d.arg1)) = .ok delegatedFrom)
      (hfree : ¬ conflicts rm.memory batch.memory
        (candidateOf owner d ⟨d.arg0 % 2 ^ 32, d.arg1⟩ delegatedFrom) = true) :
      Admission rm owner memoryDelegations portDelegations batch d { batch with
        memory := batch.memory ++ [candidateOf owner d ⟨d.arg0 % 2 ^ 32, d.arg1⟩ delegatedFrom] }
  | port {delegatedFrom : Option (ResourceOwner × ℕ)} (hkind : d.kind = resKindPort)
      (hparent : delegatedParent rm.ports portDelegations d (fun _ => true) = .ok delegatedFrom)
      (hfree : ¬ conflicts rm.ports batch.ports (candidateOf owner d () delegatedFrom) = true) :
      Admission rm owner memoryDelegations portDelegations batch d
        { batch with ports := batch.ports ++ [candidateOf owner d () delegatedFrom] }
  | interrupt {c : InterruptResource} (hkind : d.kind = resKindInterrupt) (howner : c.owner = owner)
      (hid : c.resourceId = d.resourceId) (hshare : c.share = d.share)
      (hothers : ∀ x ∈ rm.interruptsRes, x.isLive = true → x.owner ≠ owner →
        sameLineConflict c x = false)
      (hbatch : ∀ x ∈ batch.interrupts, sameLineConflict c x = false) :
      Admission rm owner memoryDelegations portDelegations batch d
        { batch with interrupts := batch.interrupts ++ [c] }

/-- What the checks establish for a descriptor of any kind. -/
structure Unused (rm : ResourceManager) (owner : ResourceOwner)
    (prior : List HalResourceDescriptor) (d : HalResourceDescriptor) : Prop where
  share : d.share = shareExclusive ∨ d.share = shareShared
  prior : ∀ x ∈ prior, x.resourceId ≠ d.resourceId
  memory : ∀ x ∈ rm.memory, x.isLive = true → x.resourceId = d.resourceId → x.owner = owner
  ports : ∀ x ∈ rm.ports, x.isLive = true → x.resourceId = d.resourceId → x.owner = owner
  interrupts : ∀ x ∈ rm.interruptsRes, x.isLive = true → x.resourceId = d.resourceId →
    x.owner = owner

theorem admission_of_ok (hok : rm.admitDescriptor owner memoryDelegations portDelegations prior
      batch d = .ok batch') :
    Unused rm owner prior d ∧
      Admission rm owner memoryDelegations portDelegations batch d batch' := by
  unfold admitDescriptor at hok
  split_ifs at hok with hguard hmemory hport hinterrupt
  all_goals
    constructor
    · simp only [not_or, any_eq_true, not_exists, not_and, decide_eq_true_eq] at hguard
      obtain ⟨-, hprior, hother, hshare⟩ := hguard
      simp only [liveResourceIdOwnedByOther, Bool.or_eq_true, any_eq_true, not_or, not_exists,
        not_and, Bool.and_eq_true, decide_eq_true_eq, and_imp, not_not] at hother
      obtain ⟨⟨hfreeMemory, hfreePorts⟩, hinterrupts⟩ := hother
      exact ⟨by tauto, hprior, hfreeMemory, hfreePorts, hinterrupts⟩
  -- memory and ports are checked in the same way
  iterate 2
    · obtain ⟨rawEnd, -, hok⟩ := Result.bind_eq_ok hok
      obtain ⟨translatedEnd, -, hok⟩ := Result.bind_eq_ok hok
      split_ifs at hok
      obtain ⟨delegatedFrom, hparent, hok⟩ := Result.bind_eq_ok hok
      dsimp only at hok
      split_ifs at hok with hconflicts
      cases hok
      first
        | exact .memory hmemory hparent hconflicts
        | exact .port hport hparent hconflicts
  · unfold admitInterrupt at hok
    dsimp only at hok
    split_ifs at hok with hinvalid hconflicts
    cases hok
    simp only [Bool.or_eq_true, not_or, any_eq_true, not_exists, not_and, Bool.and_eq_true,
      decide_eq_true_eq, and_imp, Bool.not_eq_true] at hconflicts
    exact .interrupt hinterrupt rfl rfl rfl (fun x hx hlive hne => hconflicts.1 x hx hne hlive)
      hconflicts.2

theorem BatchFits.extend (hs : rm.ResourcesSound P) (h : BatchFits rm owner batch)
    (hunused : Unused rm owner prior d)
    (hadmission : Admission rm owner memoryDelegations portDelegations batch d batch') :
    BatchFits rm owner batch' := by
  have hshare := hunused.share
  cases hadmission with
  | memory hkind hparent hfree =>
    exact ⟨rangeFits_concat h.memory rfl hs.memory.valid hshare hfree, h.ports, h.interrupts⟩
  | port hkind hparent hfree =>
    exact ⟨h.memory, rangeFits_concat h.ports rfl hs.ports.valid hshare hfree, h.interrupts⟩
  | interrupt hkind howner hid hcshare hothers hbatch =>
    rw [← hcshare] at hshare
    refine ⟨h.memory, h.ports,
      h.interrupts.concat hshare (fun x hx => ?_) fun x hx hlive hown => ?_⟩
    · exact (InterruptResource.compatible_of_sameLineConflict hshare (h.interrupts.valid x hx)
        (hbatch x hx)).symm
    · exact InterruptResource.compatible_of_sameLineConflict hshare
        (hs.interrupts.valid x hx hlive) (hothers x hx hlive hown)

theorem batchFits_admitAll (hs : rm.ResourcesSound P) (h : BatchFits rm owner batch)
    (hok : rm.admitAll owner memoryDelegations portDelegations prior batch assignments =
      .ok batch') : BatchFits rm owner batch' := by
  induction assignments generalizing prior batch with
  | nil =>
    cases hok
    exact h
  | cons d rest ih =>
    obtain ⟨next, hnext, hok⟩ := Result.bind_eq_ok hok
    obtain ⟨hunused, hadmission⟩ := admission_of_ok hnext
    exact ih (h.extend hs hunused hadmission) hok

/-- What a revocation of an owner does to the three stores. -/
theorem revokeOwner_shrinks (rm : ResourceManager) (owner : ResourceOwner) :
    Shrinks RangeResource.resourceId RangeResource.isLive rm.memory
      (rm.revokeOwner owner).2.memory ∧
    Shrinks RangeResource.resourceId RangeResource.isLive rm.ports (rm.revokeOwner owner).2.ports ∧
    Shrinks InterruptResource.resourceId InterruptResource.isLive rm.interruptsRes
      (rm.revokeOwner owner).2.interruptsRes := by
  refine ⟨?_, ?_, ?_⟩
  · exact (shrinks_revokeOwned owner rm.memory).trans (shrinks_revokeOrphanedDelegations _)
  · exact (shrinks_revokeOwned owner rm.ports).trans (shrinks_revokeOrphanedDelegations _)
  · refine shrinks_map (fun i => ?_) fun i hlive => ?_
    · split <;> rfl
    · split at hlive
      · cases hlive
      case isFalse h => rw [if_neg h]

/-- The owner has nothing in use afterwards. -/
theorem revokeOwner_owner (rm : ResourceManager) (owner : ResourceOwner) :
    (∀ x ∈ (rm.revokeOwner owner).2.memory, x.isLive = true → x.owner ≠ owner) ∧
    (∀ x ∈ (rm.revokeOwner owner).2.ports, x.isLive = true → x.owner ≠ owner) ∧
    (∀ x ∈ (rm.revokeOwner owner).2.interruptsRes, x.isLive = true → x.owner ≠ owner) := by
  refine ⟨fun x hx hlive => ?_, fun x hx hlive => ?_, fun x hx hlive => ?_⟩
  · exact owner_ne_of_mem_revokeOwned
      ((shrinks_revokeOrphanedDelegations (revokeOwned owner rm.memory)).live x hx hlive) hlive
  · exact owner_ne_of_mem_revokeOwned
      ((shrinks_revokeOrphanedDelegations (revokeOwned owner rm.ports)).live x hx hlive) hlive
  · obtain ⟨i, -, rfl⟩ := mem_map.mp hx
    split at hlive
    · cases hlive
    case isFalse h =>
      rw [if_neg h]
      intro howner
      exact h ⟨howner, by simpa [InterruptResource.isLive] using hlive⟩

theorem ResourcesSound.revokeOwner (hs : rm.ResourcesSound P) (owner : ResourceOwner) :
    ResourcesSound P (rm.revokeOwner owner).2 := by
  obtain ⟨hmemory, hports, hinterrupts⟩ := revokeOwner_shrinks rm owner
  exact ⟨hs.memory.shrink hmemory, hs.ports.shrink hports, hs.interrupts.shrink hinterrupts⟩

/-- A batch that fits takes the place of what its owner had. -/
theorem ResourcesSound.install (hs : rm.ResourcesSound P) (hsymm : ∀ x y, P x y → P y x)
    (hP : ∀ x y, RangeResource.Compatible x y → P x y) (h : BatchFits rm owner batch) :
    ResourcesSound P (ResourceManager.install batch (rm.revokeOwner owner).2) := by
  obtain ⟨hmemory, hports, hinterrupts⟩ := revokeOwner_shrinks rm owner
  obtain ⟨hnomemory, hnoports, hnointerrupts⟩ := revokeOwner_owner rm owner
  have hportsFit : Fits RangeResource.isLive RangeResource.owner P RangeResource.Valid owner
      rm.ports batch.ports :=
    ⟨h.ports.valid, h.ports.pairwise.imp fun hc => hP _ _ hc,
      fun c hc x hx hlive hown => hP _ _ (h.ports.others c hc x hx hlive hown)⟩
  exact ⟨h.memory.sound hs.memory (fun _ _ hc => hc.symm) hmemory hnomemory,
    hportsFit.sound hs.ports hsymm hports hnoports,
    h.interrupts.sound hs.interrupts (fun _ _ hc => hc.symm) hinterrupts hnointerrupts⟩

end Replace

end ResourceManager

/-! ## Runs -/

open ResourceManager

variable {rm rm' : ResourceManager} {P : PortResource → PortResource → Prop} {α : Type}

/-- Where a claim that is granted a new port meets a translated range in use, it meets the raw
range of that port as well, or the port was delegated from the one that is claimed. -/
def SeesTranslated (rm : ResourceManager) : ResourceOp → Prop
  | .claimPort owner id start length reserved => liveById rm.ports id = none →
      ((ResourceOp.claimPort owner id start length reserved).call rm).1 = .ok () →
      ∀ x ∈ rm.ports, x.isLive = true →
      (∃ address, (start ≤ address ∧ address < start + length) ∧ x.Covers address) →
      rangesOverlap start length x.rawStart x.length = true ∨ x.delegatedFrom = some (owner, id)
  | _ => True

theorem shrinks_release (id : ℕ) (s : List (RangeResource α)) :
    Shrinks RangeResource.resourceId RangeResource.isLive s
      (RangeResource.revokeOrphanedDelegations (revokeFirst id s)).1 := by
  have hfirst : Shrinks RangeResource.resourceId RangeResource.isLive s (revokeFirst id s) :=
    shrinks_modifyFirst (fun _ => rfl) fun _ => rfl
  exact hfirst.trans (RangeResource.shrinks_revokeOrphanedDelegations _)

section

variable (hs : rm.ResourcesSound P) (hsymm : ∀ x y, P x y → P y x)
  (hP : ∀ x y, RangeResource.Compatible x y → P x y)
include hs hsymm hP

/-- One call, whether it succeeds or fails. -/
theorem ResourceManager.ResourcesSound.call {op : ResourceOp}
    (hsees : (∀ x y, P x y) ∨ SeesTranslated rm op) : ResourcesSound P (op.call rm).2 := by
  have hstep := step_call rm op
  generalize hanswer : (op.call rm).1 = answer, (op.call rm).2 = rm' at hstep ⊢
  cases hstep with
  | failed | kept | memoryClaimedAgain | portClaimedAgain => exact hs
  | replaced _ _ hbatch =>
    exact hs.install hsymm hP (batchFits_admitAll hs ⟨.empty, .empty, .empty⟩ hbatch)
  | memoryClaimed hnone hfree =>
    refine ⟨hs.memory.put (fun _ _ h => h.symm) (.inl rfl) fun x hx hlive hmeets => ?_, hs.ports,
      hs.interrupts⟩
    exact absurd ((hfree x hx hlive).symm.trans hmeets.overlaps) Bool.false_ne_true
  | memoryReleased => exact ⟨hs.memory.shrink (shrinks_release _ _), hs.ports, hs.interrupts⟩
  | portClaimed hnone hfree =>
    refine ⟨hs.memory, hs.ports.put hsymm (.inl rfl) fun x hx hlive => ?_, hs.interrupts⟩
    rcases hsees with hall | hsees
    · exact hall _ _
    · refine hP _ _ fun ⟨address, hclaim, hcovers⟩ => ?_
      rcases hsees hnone hanswer x hx hlive ⟨address, hclaim, hcovers⟩ with hraw | hfrom
      · -- the raw ranges do not meet, so the translated ones do not either
        exact absurd ((hfree x hx hlive).symm.trans hraw) Bool.false_ne_true
      · exact .inr (.inr hfrom)
  | portReleased => exact ⟨hs.memory, hs.ports.shrink (shrinks_release _ _), hs.interrupts⟩
  | ownerRevoked => exact hs.revokeOwner _
  | mapped | unmapped | connected | disconnected => exact ⟨hs.memory, hs.ports, hs.interrupts⟩

theorem ResourceManager.ResourcesSound.run {ops : List ResourceOp}
    (hsees : (∀ x y, P x y) ∨ EveryCall SeesTranslated rm ops) :
    ResourcesSound P (ResourceOp.run rm ops) := by
  induction ops generalizing rm with
  | nil => exact hs
  | cons op ops ih =>
    refine ih (hs.call hsymm hP (hsees.imp_right And.left)) (hsees.imp_right And.right)

end

/-- If the ports are compatible after the call, a claim has seen the translated ranges. -/
theorem seesTranslated_of_exclusive {op : ResourceOp}
    (hkeys : (rm.ports.map RangeResource.resourceId).Nodup)
    (h : Exclusive RangeResource.resourceId RangeResource.isLive RangeResource.Compatible
      (op.call rm).2.ports) : SeesTranslated rm op := by
  cases op with
  | claimPort owner id start length reserved =>
    intro hnone hok x hx hlive ⟨address, hclaim, hcovers⟩
    have hstep := step_call rm (.claimPort owner id start length reserved)
    rw [hok] at hstep
    generalize ((ResourceOp.claimPort owner id start length reserved).call rm).2 = rm' at hstep h
    cases hstep with
    | portClaimedAgain hexisting =>
      rw [hnone] at hexisting
      cases hexisting
    | portClaimed _ hfree =>
      have hid : x.resourceId ≠ (claimOf owner id start start length ()).resourceId := by
        rintro rfl
        exact absurd (List.find?_eq_none.mp hnone x hx) (by simp [hlive])
      have hold := (mem_put hkeys).mpr (.inr ⟨hx, hid⟩)
      rcases h x hold _ ((mem_put hkeys).mpr (.inl rfl)) hlive rfl hid
        ⟨address, hcovers, hclaim⟩ with ⟨-, hshared⟩ | hfrom | hfrom
      · exact absurd hshared (show shareExclusive ≠ shareShared by decide)
      · exact .inr hfrom
      · cases hfrom
  | _ => trivial

theorem resourcesSound_empty : ResourcesSound P {} := ⟨.empty, .empty, .empty⟩

/-! ## Exclusivity -/

/-- A chain of recorded delegations inside a store. -/
def Reaches {α : Type} (s : List (RangeResource α)) : RangeResource α → RangeResource α → Prop :=
  Relation.TransGen fun a b => a ∈ s ∧ b ∈ s ∧ RangeResource.DelegatedFrom a b

/-- Two ranges in use with a common translated address are both shared, or one is reached from
the other by delegations. -/
def RangesExclusive {α : Type} (s : List (RangeResource α)) : Prop :=
  s.Pairwise fun a b => a.isLive = true → b.isLive = true → RangeResource.Meets a b →
    (a.share = shareShared ∧ b.share = shareShared) ∨ Reaches s a b ∨ Reaches s b a

/-- Two interrupts in use on one line are both shared. -/
def LinesExclusive (s : List InterruptResource) : Prop :=
  s.Pairwise fun a b => a.isLive = true → b.isLive = true → a.line = b.line →
    a.share = shareShared ∧ b.share = shareShared

theorem RangeResource.StoreSound.rangesExclusive {s : List (RangeResource α)}
    (hs : RangeResource.StoreSound s) : RangesExclusive s := by
  refine (hs.exclusive.pairwise hs.keys).imp_of_mem fun ha hb hcompat hla hlb hmeets => ?_
  rcases hcompat hla hlb hmeets with hshared | hab | hba
  · exact .inl hshared
  · exact .inr (.inl (.single ⟨ha, hb, hab⟩))
  · exact .inr (.inr (.single ⟨hb, ha, hba⟩))

theorem not_reaches_of_none {s : List (RangeResource α)} {a b : RangeResource α}
    (ha : a.delegatedFrom = none) : ¬ Reaches s a b := by
  intro h
  obtain ⟨c, ⟨-, -, hac⟩, -⟩ := Relation.TransGen.head'_iff.mp h
  rw [RangeResource.DelegatedFrom, ha] at hac
  cases hac

/-- A device has the ports from `0x200`, which it knows as `0x100`; then the platform claims
`0x200`. -/
def translatedPortClaim : List ResourceOp :=
  [.replaceOwnerAssignmentsWithDelegations ⟨1, 1, 1⟩
      [{ kind := resKindPort, flags := 0, share := shareExclusive, resourceId := 1
         rawStart := 0x100, translatedStart := 0x200, length := 16, arg0 := 3 }] [] [] true true,
    .claimPort ⟨2, 2, 2⟩ 2 0x200 16 true]

/-- The claim is granted, although the device has these ports for itself. -/
theorem claimPort_over_translated_range :
    (ResourceOp.claimPort ⟨2, 2, 2⟩ 2 0x200 16 true).call
        (ResourceOp.run {} (translatedPortClaim.take 1)) =
      (.ok (), ResourceOp.run {} translatedPortClaim) ∧
    ¬ RangesExclusive (ResourceOp.run {} translatedPortClaim).ports := by
  refine ⟨by decide, fun h => ?_⟩
  have hports : (ResourceOp.run {} translatedPortClaim).ports =
      [⟨1, ⟨1, 1, 1⟩, 0x100, 0x200, 16, (), 0, 0, false, none⟩,
        ⟨2, ⟨2, 2, 2⟩, 0x200, 0x200, 16, (), 0, 0, false, none⟩] := by decide
  have hpair := (pairwise_cons.mp h).1 _ mem_cons_self rfl rfl
    ⟨0x200, ⟨by decide, by decide⟩, ⟨by decide, by decide⟩⟩
  rcases hpair with ⟨hshared, -⟩ | hreach | hreach
  · exact absurd hshared (by decide)
  · exact not_reaches_of_none rfl hreach
  · exact not_reaches_of_none rfl hreach

/-- After any calls, memory and interrupt lines exclude each other, and ports do if every claim
that was granted saw the translated ranges; exactly then two ports in use that meet were at
every moment both shared or one of them delegated from the other.  A call that fails, in any
state, changes nothing. -/
theorem resources_exclusive (ops : List ResourceOp) :
    RangesExclusive (ResourceOp.run {} ops).memory ∧
      LinesExclusive (ResourceOp.run {} ops).interruptsRes ∧
      (EveryCall SeesTranslated {} ops → RangesExclusive (ResourceOp.run {} ops).ports) ∧
      ((∀ n, Exclusive RangeResource.resourceId RangeResource.isLive RangeResource.Compatible
        (ResourceOp.run {} (ops.take n)).ports) ↔ EveryCall SeesTranslated {} ops) ∧
      ∀ (rm : ResourceManager) (op : ResourceOp) (e : HalError) (rm' : ResourceManager),
        op.call rm = (.error e, rm') → rm' = rm := by
  have hany : ResourcesSound (fun _ _ => True) (ResourceOp.run {} ops) :=
    resourcesSound_empty.run (fun _ _ _ => trivial) (fun _ _ _ => trivial) (.inl fun _ _ => trivial)
  refine ⟨hany.memory.rangesExclusive, ?_, fun hsees => ?_, ?_,
    fun rm op e rm' => atomic_call op rm e rm'⟩
  · exact hany.interrupts.exclusive.pairwise hany.interrupts.keys
  · have hports : ResourcesSound RangeResource.Compatible (ResourceOp.run {} ops) :=
      resourcesSound_empty.run (fun _ _ h => h.symm) (fun _ _ h => h) (.inr hsees)
    exact RangeResource.StoreSound.rangesExclusive hports.ports
  · refine always_iff_everyCall (fun rm hs => hs.ports.exclusive) (fun rm op hs hsees => ?_)
      (fun rm op hs h => seesTranslated_of_exclusive hs.ports.keys h) ops
      (resourcesSound_empty : ResourcesSound RangeResource.Compatible {})
    exact hs.call (fun _ _ h => h.symm) (fun _ _ h => h) (.inr hsees)

/-- The platform claims ports and memory, and a device gets a part of both. -/
def delegatedRun : List ResourceOp :=
  [.claimPort ⟨1, 1, 1⟩ 10 0x200 32 true, .claimMemory ⟨1, 1, 1⟩ 11 0x1000 0x1000 0x1000 0 3 true,
    .replaceOwnerAssignmentsWithDelegations ⟨2, 2, 2⟩
      [{ kind := resKindPort, flags := 0, share := shareExclusive, resourceId := 20
         rawStart := 0x208, translatedStart := 0x208, length := 8, arg0 := 3 },
       { kind := resKindMemory, flags := 0, share := shareExclusive, resourceId := 21
         rawStart := 0x1800, translatedStart := 0x1800, length := 0x100, arg0 := 0, arg1 := 1 }]
      [⟨⟨1, 1, 1⟩, 11, 21⟩] [⟨⟨1, 1, 1⟩, 10, 20⟩] true true,
    .claimPort ⟨3, 3, 3⟩ 30 0x300 8 true]

theorem delegatedRun_exclusive :
    (ResourceOp.run {} delegatedRun).ports.map (·.isLive) = [true, true, true] ∧
      (ResourceOp.run {} delegatedRun).memory.map (·.isLive) = [true, true] ∧
      RangesExclusive (ResourceOp.run {} delegatedRun).ports := by
  refine ⟨by decide, by decide, (resources_exclusive delegatedRun).2.2.1 ?_⟩
  -- every port that is in use at one of the two claims has equal raw and translated ranges
  have hports : (ResourceOp.run {} (delegatedRun.take 3)).ports.all
      (fun p => decide (p.rawStart = p.translatedStart)) = true := by decide
  refine ⟨fun _ _ x hx => absurd hx not_mem_nil, trivial, trivial, fun _ _ x hx _ => ?_, trivial⟩
  rintro ⟨address, hclaim, hcovers⟩
  have heq : x.rawStart = x.translatedStart := by simpa using all_eq_true.mp hports x hx
  rw [heq]
  exact .inl (RangeResource.rangesOverlap_of_common hclaim hcovers)

end UserspaceNtos.HardwareResources
