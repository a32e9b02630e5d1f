import UserspaceNtos.Fs.RolloverEffects
import UserspaceNtos.Fs.WalSession
import UserspaceNtos.Fs.SnapshotSession

/-!
# Rollovers across power failures

A session is the device and the owner of the rollover on it.  A run starts with an
owner that `admit` returned; a step is `publish_resetting` or `finish`, returning or
stopped inside, a power failure, or a reboot in which `resume` takes over.  By
`sessionStaged_of_reachable` every image of every run is at some stage, whatever
number of reboots and calls of `resume` and `finish` it contains, and
`rollover_is_resumable` reads off what a stage means.
-/

namespace UserspaceNtos.Fs

open CachedStorage EpochRollover

/-- The operations of the owner. -/
inductive RolloverOp where
  | publishResetting
  | finish
  deriving DecidableEq, Repr

/-- What an operation does. -/
def RolloverOp.run {size : ℕ} (op : RolloverOp) (rollover : EpochRollover) :
    DiskM (Sector size) Empty (Except SnapshotBlockStoreError Unit × EpochRollover) :=
  match op with
  | .publishResetting => rollover.publishResetting
  | .finish => rollover.finish

/-- A device and the owner of the rollover on it, if there is one. -/
structure RolloverSession (R : RolloverStart) where
  store : Store (Sector R.site.size)
  owner : Option EpochRollover

namespace RolloverSession

variable {R : RolloverStart}

/-- One step of a run on a device of the kind `env`. -/
inductive Step (env : Env) : RolloverSession R → RolloverSession R → Prop
  | returns {s : RolloverSession R} {rollover rollover' : EpochRollover} (op : RolloverOp)
      {before after : Machine (Sector R.site.size)} {r : Except SnapshotBlockStoreError Unit}
      (howner : s.owner = some rollover) (hstore : before.store = s.store) (henv : before.Meets env)
      (hrun : op.run rollover before = (.ok (r, rollover'), after)) :
      Step env s ⟨after.store, some rollover'⟩
  | stops {s : RolloverSession R} {rollover : EpochRollover} (op : RolloverOp)
      {before after : Machine (Sector R.site.size)} (howner : s.owner = some rollover)
      (hstore : before.store = s.store) (henv : before.Meets env)
      (hrun : op.run rollover before = (.stopped, after)) : Step env s ⟨after.store, none⟩
  | crash {s : RolloverSession R} (kept : ℕ × Sector R.site.size → Bool) :
      Step env s ⟨s.store.cut kept, none⟩
  | reboot {s : RolloverSession R} {rollover : EpochRollover}
      (kept : ℕ × Sector R.site.size → Bool)
      (hresume : resume R.site.store R.site.device R.walStart R.walSectors
        (readAll (s.store.cut kept).durable) = .ok rollover) :
      Step env s ⟨s.store.cut kept, some rollover⟩

/-- The sessions of all runs that start with `admit`. -/
inductive Reachable (R : RolloverStart) (env : Env) : RolloverSession R → Prop
  | start {rollover : EpochRollover}
      (hadmission : admitRollover R.site.store R.site.device R.old R.walStart R.walSectors R.next
        (readAll R.start) = .ok rollover) : Reachable R env ⟨⟨R.start, []⟩, some rollover⟩
  | step {s s' : RolloverSession R} : Reachable R env s → Step env s s' → Reachable R env s'

end RolloverSession

variable {R : RolloverStart} {m : R.site.Contents} {st : ℕ → HeaderState} {env : Env}
  {s s' : RolloverSession R} {d : Store (Sector R.site.size)} {phase : RolloverPhase}

/-! ## The invariant -/

/-- What the contents are for a live owner in each phase. -/
def OwnerInv (R : RolloverStart) (d : Store (Sector R.site.size)) : RolloverPhase → Prop
  | .admitted => ∃ m, d = ⟨m, []⟩ ∧ Stage R m fun _ => .old
  | .resetting => ∃ m st, d = ⟨m, []⟩ ∧ Stage R m st ∧ HasReset st
  | _ => True

/-- Every image is at a stage, and the owner knows which. -/
structure SessionStaged (s : RolloverSession R) : Prop where
  staged : Staged R s.store
  owner : ∀ rollover, s.owner = some rollover →
    ∃ phase, rollover = R.owner phase ∧ OwnerInv R s.store phase

theorem stage_start (R : RolloverStart) : Stage R R.start fun _ => .old :=
  ⟨⟨fun _ _ => rfl, fun _ _ _ _ => rfl, fun _ _ h => absurd rfl h⟩, fun _ _ => rfl⟩

/-- A rollover like this one is admitted. -/
theorem RolloverStart.admit_eq (R : RolloverStart) :
    admitRollover R.site.store R.site.device R.old R.walStart R.walSectors R.next (readAll R.start)
      = .ok (R.owner .admitted) := by
  have hserial := R.serial_ne_zero
  have hzero := R.next_ne_zero
  have hnext := R.next_ne
  have hdisjoint := R.disjoint
  have hsectors := R.walSectors_ne_zero
  have hfolded : ∀ slot ≤ 1, isFolded R.old (R.headerPlan slot .old) = true := by
    intro slot hslot
    show (!(R.plan slot).resetting && (R.plan slot).wal.any _) = true
    rw [R.ready slot hslot, R.manifest slot hslot]
    simp [WalSnapshotManifest.anchor]
  rw [admitRollover, R.rangeEnds_eq]
  show (if _ then _ else _) = _
  rw [if_neg (by omega), (stage_start R).1.paired_eq]
  show (if _ then _ else _) = _
  rw [if_neg (by rw [hfolded 0 (by omega), hfolded 1 (by omega)]; simp)]
  rfl

/-- An operation of a live owner keeps the invariant, whether it returns or is stopped. -/
def KeepsStage (env : Env) (R : RolloverStart) (d : Store (Sector R.site.size))
    (phase : RolloverPhase) (op : RolloverOp) : Prop :=
  Runs env d (op.run (R.owner phase))
    (fun r d' => SessionStaged (R := R) ⟨d', some r.2⟩)
    (fun _ _ => False) (fun d' => Staged R d')

section

variable (hstaged : Staged R d) (howner : OwnerInv R d phase)
include hstaged howner

/-- An operation that is refused changes nothing. -/
theorem keepsStage_of_refused {op : RolloverOp} {e : SnapshotBlockStoreError}
    (hrun : (op.run (R.owner phase) : DiskM (Sector R.site.size) Empty _)
      = pure (.error e, R.owner phase)) : KeepsStage env R d phase op := by
  rw [KeepsStage, hrun]
  refine runs_pure ⟨hstaged, ?_⟩
  rintro _ ⟨⟩
  exact ⟨phase, rfl, howner⟩

theorem keepsStage_publishResetting : KeepsStage env R d phase .publishResetting := by
  cases phase with
  | admitted =>
    obtain ⟨m, rfl, hstage⟩ := howner
    refine runs_attempt_bind ((runs_publishEffects hstage .admitted).weaken ?_ ?_ fun _ h => h)
    · rintro _ _ ⟨m', st', rfl, hstage', hreset⟩
      refine runs_pure ⟨hstage'.staged, ?_⟩
      rintro _ ⟨⟩
      exact ⟨.resetting, rfl, m', st', rfl, hstage', hreset⟩
    · intro e d' hd'
      refine runs_pure ⟨hd', ?_⟩
      rintro _ ⟨⟩
      exact ⟨.uncertain, rfl, trivial⟩
  | resetting | complete | uncertain => exact keepsStage_of_refused hstaged howner rfl

theorem keepsStage_finish : KeepsStage env R d phase .finish := by
  cases phase with
  | resetting =>
    obtain ⟨m, st, rfl, hstage, hreset⟩ := howner
    refine runs_attempt_bind ((runs_finishEffects hstage hreset .resetting).weaken ?_ ?_
      fun _ h => h.2)
    · rintro _ _ ⟨m', rfl, hstage'⟩
      refine runs_pure ⟨hstage'.staged, ?_⟩
      rintro _ ⟨⟩
      exact ⟨.complete, rfl, trivial⟩
    · rintro e d' ⟨-, hd'⟩
      refine runs_pure ⟨hd', ?_⟩
      rintro _ ⟨⟩
      exact ⟨.uncertain, rfl, trivial⟩
  | admitted | complete | uncertain => exact keepsStage_of_refused hstaged howner rfl

theorem keepsStage (op : RolloverOp) : KeepsStage env R d phase op := by
  cases op with
  | publishResetting => exact keepsStage_publishResetting hstaged howner
  | finish => exact keepsStage_finish hstaged howner

end

/-- `resume` succeeds only at a stage with a RESETTING header. -/
theorem Stage.hasReset_of_resume (h : Stage R m st) {rollover : EpochRollover}
    (hresume : resume R.site.store R.site.device R.walStart R.walSectors (readAll m)
      = .ok rollover) : HasReset st := by
  by_contra hnone
  have hmarks : ∀ slot ≤ 1, st slot ≠ .resetting →
      (R.headerPlan slot (st slot)).resetting = false :=
    fun slot hslot hne => Bool.eq_false_iff.mpr fun hmark =>
      hne ((RolloverStart.headerPlan_resetting_iff hslot).mp hmark)
  rw [HasReset, not_or] at hnone
  rw [resume, R.rangeEnds_eq] at hresume
  change (if _ then _ else _) = _ at hresume
  split_ifs at hresume
  rw [h.1.paired_eq] at hresume
  change (orCorrupt (if (R.headerPlan 0 (st 0)).resetting = true then _ else
    if (R.headerPlan 1 (st 1)).resetting = true then _ else _) >>= _) = _ at hresume
  rw [hmarks 0 (by omega) hnone.1, hmarks 1 (by omega) hnone.2] at hresume
  cases hresume

theorem SessionStaged.step (h : SessionStaged s) (hstep : s.Step env s') : SessionStaged s' := by
  cases hstep with
  | returns op howner hstore henv hrun =>
    obtain ⟨phase, rfl, hinv⟩ := h.owner _ howner
    obtain ⟨-, hres⟩ := keepsStage h.staged hinv op _ hstore henv
    rw [hrun] at hres
    exact hres
  | stops op howner hstore henv hrun =>
    obtain ⟨phase, rfl, hinv⟩ := h.owner _ howner
    obtain ⟨-, hres⟩ := keepsStage h.staged hinv op _ hstore henv
    rw [hrun] at hres
    exact ⟨hres, nofun⟩
  | crash kept => exact ⟨fun m hm => h.staged m (s.store.within_cut kept m hm), nofun⟩
  | reboot kept hresume =>
    have hstaged : Staged R (s.store.cut kept) := fun m hm =>
      h.staged m (s.store.within_cut kept m hm)
    obtain ⟨st, hstage⟩ : ∃ st, Stage R (s.store.cut kept).durable st :=
      hstaged _ (Store.isImage_mk_nil.mpr rfl)
    have hreset := hstage.hasReset_of_resume hresume
    refine ⟨hstaged, ?_⟩
    rintro _ ⟨⟩
    rw [hstage.resume_eq hreset] at hresume
    exact ⟨.resetting, (Except.ok.inj hresume).symm, _, st, rfl, hstage, hreset⟩

theorem sessionStaged_of_reachable (h : s.Reachable R env) : SessionStaged s := by
  induction h with
  | start hadmission =>
    refine ⟨(stage_start R).staged, ?_⟩
    rintro _ ⟨⟩
    rw [R.admit_eq] at hadmission
    exact ⟨.admitted, (Except.ok.inj hadmission).symm, R.start, rfl, stage_start R⟩
  | step _ hstep ih => exact ih.step hstep

/-! ## What a stage means -/

/-- Both headers and the old log are as they were. -/
def Untouched (R : RolloverStart) (m : R.site.Contents) : Prop :=
  (∀ slot ≤ 1, R.site.sector m (R.site.slotBase slot)
    = R.site.sector R.start (R.site.slotBase slot)) ∧ WalIntact R m

/-- Both headers are READY for the new incarnation, without records, and the log range is
zero. -/
def Retired (R : RolloverStart) (m : R.site.Contents) : Prop :=
  (∀ slot ≤ 1, ∃ plan, R.site.store.readValidSlotPlan R.site.device (readAll m) slot
      = .ok (some plan) ∧ plan.resetting = false ∧ plan.wal = some (emptyManifest R.next))
    ∧ WalZero R m

/-- The state is reported as RESETTING, and `resume` followed by `finish` completes the
rollover when nothing goes wrong. -/
def ResumesTo (R : RolloverStart) (m : R.site.Contents) : Prop :=
  R.site.store.bootRecoveryState R.site.device (readAll m) = .ok .resetting
    ∧ ∃ rollover rollover' d,
      resume R.site.store R.site.device R.walStart R.walSectors (readAll m) = .ok rollover
        ∧ rollover.finish ⟨⟨m, []⟩, [], []⟩ = (.ok (.ok (), rollover'), d)
        ∧ rollover'.phase = .complete ∧ d.store.pending = [] ∧ Retired R d.store.durable

theorem Stage.retired (h : Stage R m fun _ => .ready) : Retired R m := by
  refine ⟨fun slot hslot => ⟨_, h.1.readValidSlotPlan hslot, ?_, ?_⟩, h.2⟩
  · rfl
  · rfl

theorem Stage.resumesTo (h : Stage R m st) (hreset : HasReset st) : ResumesTo R m := by
  refine ⟨h.1.bootRecoveryState_eq hreset, R.owner .resetting, R.owner .complete, ?_⟩
  have hfinish : Runs Env.quiet ⟨m, []⟩ ((R.owner .resetting).finish : DiskM _ Empty _)
      (fun r d => r = (.ok (), R.owner .complete) ∧ d.pending = [] ∧ Retired R d.durable)
      (fun _ _ => False) (fun _ => False) := by
    refine runs_attempt_bind ((runs_finishEffects h hreset .resetting).weaken ?_ ?_ ?_)
    · rintro _ _ ⟨m', rfl, hstage⟩
      exact runs_pure ⟨rfl, rfl, hstage.retired⟩
    · rintro _ _ ⟨hfaults, -⟩
      cases hfaults
    · rintro _ ⟨hstops, -⟩
      cases hstops
  obtain ⟨-, hres⟩ := hfinish ⟨⟨m, []⟩, [], []⟩ rfl (Machine.meets_nil _ _)
  rcases hrun : (R.owner .resetting).finish ⟨⟨m, []⟩, [], []⟩ with ⟨r | e | _, after⟩
  · rw [hrun] at hres
    obtain ⟨rfl, hpending, hretired⟩ := hres
    exact ⟨after, h.resume_eq hreset, rfl, rfl, hpending, hretired⟩
  · rw [hrun] at hres
    exact hres.elim
  · rw [hrun] at hres
    exact hres.elim

/-- Without a RESETTING header the rollover has not started or is complete. -/
theorem WalOk.all_of_not_hasReset (hok : WalOk R m (st 0) (st 1)) (hreset : ¬ HasReset st) :
    (∀ slot ≤ 1, st slot = .old) ∨ ∀ slot ≤ 1, st slot = .ready := by
  have hboth : ∀ state, st 0 = state → st 1 = state → ∀ slot ≤ 1, st slot = state := by
    intro state h₀ h₁ slot hslot
    rcases Nat.le_one_iff_eq_zero_or_eq_one.mp hslot with rfl | rfl
    · exact h₀
    · exact h₁
  cases h₀ : st 0 with
  | old =>
    cases h₁ : st 1 with
    | old => exact Or.inl (hboth _ h₀ h₁)
    | resetting => exact absurd (Or.inr h₁) hreset
    | ready =>
      rw [h₀, h₁] at hok
      exact hok.elim
  | resetting => exact absurd (Or.inl h₀) hreset
  | ready =>
    cases h₁ : st 1 with
    | old =>
      rw [h₀, h₁] at hok
      exact hok.elim
    | resetting => exact absurd (Or.inr h₁) hreset
    | ready => exact Or.inr (hboth _ h₀ h₁)

/-- After any run, in every image of the device the rollover has not started, can be
resumed and finished, or is complete; and `read_latest` selects the same snapshot. -/
theorem rollover_is_resumable (h : s.Reachable R env) (hm : s.store.IsImage m) :
    (Untouched R m ∨ ResumesTo R m ∨ Retired R m)
      ∧ R.site.store.readLatest R.site.device (readAll m)
        = R.site.store.readLatest R.site.device (readAll R.start) := by
  obtain ⟨st, hstage⟩ := (sessionStaged_of_reachable h).staged m hm
  refine ⟨?_, hstage.1.readLatest_eq⟩
  by_cases hreset : HasReset st
  · exact Or.inr (Or.inl (hstage.resumesTo hreset))
  have hok := hstage.2
  rcases hok.all_of_not_hasReset hreset with hold | hready
  · left
    rw [hold 0 (by omega), hold 1 (by omega)] at hok
    refine ⟨fun slot hslot => ?_, hok⟩
    rw [hstage.1.header slot hslot, hold slot hslot]
    rfl
  · right
    right
    rw [hready 0 (by omega), hready 1 (by omega)] at hok
    have hall : Stage R m fun _ => .ready :=
      ⟨hstage.1.congr fun slot hslot => (hready slot hslot).symm, hok⟩
    exact hall.retired

/-! Two snapshots of one byte in sixteen sectors, and a log of eight sectors behind them
whose only record both have folded. -/

/-- The log range. -/
def foldedLog : WalSite where
  size := 512
  device := ⟨16, 8⟩
  incarnation := 77
  headerBytes_le := smallSite.headerBytes_le
  three_le_sectors := by decide
  incarnation_ne_zero := smallSite.incarnation_ne_zero
  incarnation_lt := smallSite.incarnation_lt
  addressable := by
    unfold BlockRange.Addressable
    decide
  batch_lt := smallSite.batch_lt

/-- The snapshot range. -/
def foldedStore : SnapshotSite where
  size := 512
  device := ⟨0, 24⟩
  store := ⟨0, 16⟩
  headerLen_le := smallStore.headerLen_le
  four_le := smallStore.four_le
  even := smallStore.even
  inside := by decide
  addressable := by
    unfold BlockRange.Addressable
    decide
  bytes_lt := smallStore.bytes_lt

/-- The snapshot of a slot. -/
def foldedPayload (slot : ℕ) : List UInt8 := [UInt8.ofNat (slot + 1)]

/-- The header of a slot. -/
def foldedPlan (slot : ℕ) : SlotReadPlan :=
  { slot := slot
    generation := slot + 1
    payloadLen := 1
    payloadCrc := ConfigStore.crc32c (foldedPayload slot)
    payloadSectors := 1
    wal := some ⟨77, 1, 1, 3⟩
    resetting := false }

/-- The slots, without a log. -/
def foldedSlots : ℕ → Sector 512 := fun lba =>
  if lba = 0 then (foldedPlan 0).encodeHeader 512
  else if lba = 1 then Sector.pad 512 (foldedPayload 0)
  else if lba = 8 then (foldedPlan 1).encodeHeader 512
  else if lba = 9 then Sector.pad 512 (foldedPayload 1)
  else Sector.zero 512

/-- The slots and the log. -/
def foldedContents : ℕ → Sector 512 :=
  overwrite (overwrite foldedSlots (foldedLog.device.addressed (prepareBatch foldedLog [] [1])))
    (foldedLog.device.addressed (commitBatch foldedLog [] [1]))

theorem settled_foldedContents : Settled foldedLog foldedContents [[1]] := by
  have hblank : ZeroFrom foldedLog foldedSlots 0 := by
    intro lba _ hlt
    have haddress : foldedLog.sector foldedSlots lba = foldedSlots (16 + lba) := rfl
    rw [haddress, foldedSlots, if_neg (by omega), if_neg (by omega), if_neg (by omega),
      if_neg (by omega)]
    rfl
  have hprepared := prepared_of_prepareBatch (q := [1]) (settled_nil_of_zeroFrom hblank)
    ⟨by decide, by decide⟩
  exact settled_of_commit hprepared (partlyWritten_of_isImage (Store.mk _ _).isImage_visible)
    (sector_overwrite_of_mem List.mem_cons_self fun w hw _ =>
      congrArg Prod.snd (List.mem_singleton.mp hw))

theorem holds_foldedContents {slot : ℕ} (hslot : slot ≤ 1) :
    Holds foldedStore foldedContents (foldedPlan slot) (foldedPayload slot) := by
  rcases Nat.le_one_iff_eq_zero_or_eq_one.mp hslot with rfl | rfl
  · exact ⟨by decide, by decide +kernel, by decide +kernel, rfl⟩
  · exact ⟨by decide, by decide +kernel, by decide +kernel, rfl⟩

/-- The rollover to the incarnation 78. -/
def foldedStart : RolloverStart where
  site := foldedStore
  start := foldedContents
  walStart := 16
  walSectors := 8
  next := 78
  old := ⟨77, 1, 3⟩
  plan := foldedPlan
  wal := recovered foldedLog [[1]] .ready
  slot_eq := fun _ _ => rfl
  holds := by
    intro slot hslot
    have hholds := holds_foldedContents hslot
    have hstored := hholds.stored
    rwa [← hstored] at hholds
  ready := fun _ _ => rfl
  generation_ne := by decide
  manifest := fun _ _ => rfl
  serial_ne_zero := by decide
  next_ne_zero := by decide
  next_ne := by decide
  next_lt := by decide
  walSectors_ne_zero := by decide
  disjoint := Or.inl (by decide)
  inside := by decide
  batch_lt := by decide
  recovers := recover_of_settled settled_foldedContents
  settled := rfl

/-- The power fails at the flush of the first RESETTING header, and the header is kept. -/
def publishing : Machine (Sector foldedStart.site.size) :=
  ⟨⟨foldedContents, []⟩, [.done, .stop], []⟩

/-- What the boot finds. -/
def publishedStore : Store (Sector foldedStart.site.size) :=
  (RolloverOp.publishResetting.run (foldedStart.owner .admitted) publishing).2.store.cut
    fun _ => true

/-- The power fails again when the payload of the only record has been erased and its header
has not. -/
def finishing : Machine (Sector foldedStart.site.size) :=
  ⟨publishedStore, [.done, .done, .done, .stop], []⟩

/-- What the next boot finds. -/
def resumedStore : Store (Sector foldedStart.site.size) :=
  (RolloverOp.finish.run (foldedStart.owner .resetting) finishing).2.store.cut fun _ => true

/-- A power failure in an operation, and a boot that resumes. -/
theorem RolloverSession.Reachable.interrupted {rollover : EpochRollover}
    {d d' : Store (Sector R.site.size)} (h : RolloverSession.Reachable R env ⟨d, some rollover⟩)
    (op : RolloverOp) {before : Machine (Sector R.site.size)} (hstore : before.store = d)
    (henv : before.Meets env) {kept : ℕ × Sector R.site.size → Bool}
    (hcut : d' = (op.run rollover before).2.store.cut kept) :
    RolloverSession.Reachable R env ⟨d', none⟩ ∧ ∀ rollover',
      resume R.site.store R.site.device R.walStart R.walSectors (readAll d'.durable)
          = .ok rollover' → RolloverSession.Reachable R env ⟨d', some rollover'⟩ := by
  subst hcut
  rcases hrun : op.run rollover before with ⟨⟨r, owner⟩ | e | _, after⟩
  · have hreturned := h.step (.returns op rfl hstore henv hrun)
    exact ⟨.step hreturned (.crash kept), fun _ hresume => .step hreturned (.reboot kept hresume)⟩
  · exact e.elim
  · have hstopped := h.step (.stops op rfl hstore henv hrun)
    exact ⟨.step hstopped (.crash kept), fun _ hresume => .step hstopped (.reboot kept hresume)⟩

theorem rollover_is_resumable_published :
    resume foldedStore.store foldedStore.device 16 8 (readAll publishedStore.durable)
        = .ok (foldedStart.owner .resetting)
      ∧ (Untouched foldedStart resumedStore.durable ∨ ResumesTo foldedStart resumedStore.durable
        ∨ Retired foldedStart resumedStore.durable)
      ∧ foldedStore.store.readLatest foldedStore.device (readAll resumedStore.durable)
        = .ok (some ⟨2, foldedPayload 1⟩) := by
  have hstart : RolloverSession.Reachable foldedStart .faultless
      ⟨⟨foldedContents, []⟩, some (foldedStart.owner .admitted)⟩ := .start foldedStart.admit_eq
  have hpublishing : publishing.Meets .faultless :=
    ⟨by simp [publishing], by simp [publishing, Fate.isFault], fun _ _ _ => rfl⟩
  have hfinishing : finishing.Meets .faultless :=
    ⟨by simp [finishing], by simp [finishing, Fate.isFault], fun _ _ _ => rfl⟩
  have hresume : resume foldedStore.store foldedStore.device 16 8 (readAll publishedStore.durable)
      = .ok (foldedStart.owner .resetting) := by decide +kernel
  have hpublished := (hstart.interrupted .publishResetting rfl hpublishing publishedStore.eq_1).2 _
    hresume
  have hresumed := (hpublished.interrupted .finish (by rw [finishing]) hfinishing
    resumedStore.eq_1).1
  have h := rollover_is_resumable hresumed resumedStore.isImage_durable
  exact ⟨hresume, h.1, h.2.trans (by decide +kernel)⟩

end UserspaceNtos.Fs
