import UserspaceNtos.Fs.SnapshotImage

/-!
# Admission of a commit

What `commit_next_streaming_inner` decides before it writes.  Its reads can fail; a
failed read ends the commit, so a decision is always the one that the contents of
the device call for (`latestCommitSlot_ioOr`, `checkManifestSlot_ioOr`).
`runs_admitCommit` collects what is known when a commit starts to write: the device
is flushed, the plan targets the slot that is not the newest, and a WAL manifest
follows the manifest of the newest slot.
-/

namespace UserspaceNtos.Fs

open CachedStorage SnapshotBlockStore

/-! ## Readers on a device with read errors -/

section Faults

variable {size : ℕ} {store : SnapshotBlockStore} {device : BlockRange} {m : ℕ → Sector size}
  {read : ReadSector size}

section

variable (h : FaultyRead m read)
include h

theorem readSlotPlan_ioOr (slot : ℕ) :
    IoOr (store.readSlotPlan device read slot) (store.readSlotPlan device (readAll m) slot) :=
  (IoOr.refl _).bind fun _ => (IoOr.refl _).bind fun _ =>
    (device.readSector_ioOr h _).bind fun _ => IoOr.refl _

theorem payloadCrcLoop_ioOr (start count index remaining : ℕ) (crc : BitVec 32) :
    IoOr (payloadCrcLoop device read start count index remaining crc)
      (payloadCrcLoop device (readAll m) start count index remaining crc) := by
  induction hleft : count - index using Nat.strong_induction_on
    generalizing index remaining crc with
  | _ left ih =>
    rw [payloadCrcLoop, payloadCrcLoop]
    by_cases hlt : index < count
    · rw [dif_pos hlt, dif_pos hlt]
      simp only
      rcases device.readSectors_ioOr h (start + index)
        (min (count - index) readBatchSectors) with heq | hio
      · rw [heq]
        cases device.readSectors (readAll m) (start + index)
          (min (count - index) readBatchSectors) with
        | error e => exact IoOr.refl _
        | ok batch =>
          refine ih _ ?_ _ _ _ rfl
          unfold readBatchSectors
          omega
      · rw [hio]
        exact Or.inr rfl
    · rw [dif_neg hlt, dif_neg hlt]
      exact IoOr.refl _

theorem validateSlotPayloadCrc_ioOr (plan : SlotReadPlan) :
    IoOr (store.validateSlotPayloadCrc device read plan)
      (store.validateSlotPayloadCrc device (readAll m) plan) := by
  refine (IoOr.refl _).bind fun slotSectors => ?_
  split_ifs
  · exact IoOr.refl _
  · refine (IoOr.refl _).bind fun slotBase => ?_
    cases checkedMul size readBatchSectors with
    | none => exact IoOr.refl _
    | some batch => exact (payloadCrcLoop_ioOr h _ _ _ _ _).bind fun _ => IoOr.refl _

theorem readValidSlotPlan_ioOr (slot : ℕ) : IoOr (store.readValidSlotPlan device read slot)
      (store.readValidSlotPlan device (readAll m) slot) := by
  refine (readSlotPlan_ioOr h slot).bind fun found => ?_
  cases found with
  | none => exact IoOr.refl _
  | some plan => exact (validateSlotPayloadCrc_ioOr h plan).bind fun _ => IoOr.refl _

theorem commitCandidate_ioOr (slot : ℕ) : IoOr (store.commitCandidate device read slot)
      (store.commitCandidate device (readAll m) slot) := by
  have hread : IoOr (store.readSlotPlan device read slot) _ := readSlotPlan_ioOr h slot
  rcases hread with heq | hio
  · rw [commitCandidate, heq]
    exact IoOr.refl _
  · rw [commitCandidate, hio]
    exact Or.inr rfl

theorem firstValid_ioOr (corrupt : Bool) (plans : List SlotReadPlan) :
    IoOr (store.firstValid device read corrupt plans)
      (store.firstValid device (readAll m) corrupt plans) := by
  induction plans generalizing corrupt with
  | nil => exact IoOr.refl _
  | cons plan rest ih =>
    rw [firstValid, firstValid]
    have hread : IoOr (store.validateSlotPayloadCrc device read plan) _ :=
      validateSlotPayloadCrc_ioOr h plan
    rcases hread with heq | hio
    · rw [heq]
      rcases store.validateSlotPayloadCrc device (readAll m) plan with e | u
      · cases e with
        | corrupt => exact ih true
        | _ => exact IoOr.refl _
      · exact IoOr.refl _
    · rw [hio]
      exact Or.inr rfl

/-- The slot selected by the writer is the one the contents call for. -/
theorem latestCommitSlot_ioOr :
    IoOr (store.latestCommitSlot device read) (store.latestCommitSlot device (readAll m)) :=
  (commitCandidate_ioOr h 0).bind fun _ => (commitCandidate_ioOr h 1).bind fun _ =>
    firstValid_ioOr h _ _

/-- So are the checks of a WAL manifest. -/
theorem checkManifestSlot_ioOr (current : WalSnapshotManifest) (repair : Bool)
    (latest : Option SlotReadPlan) (target slot : ℕ) :
    IoOr (store.checkManifestSlot device read current repair latest target slot)
      (store.checkManifestSlot device (readAll m) current repair latest target slot) := by
  unfold checkManifestSlot
  have hread : IoOr (store.readValidSlotPlan device read slot) _ := readValidSlotPlan_ioOr h slot
  rcases hread with heq | hio
  · rw [heq]
    rcases store.readValidSlotPlan device (readAll m) slot with e | found
    · cases e with
      | corrupt =>
        split_ifs
        · exact IoOr.refl _
        · exact IoOr.refl _
        · exact (IoOr.refl _).bind fun _ => (IoOr.refl _).bind fun _ =>
            (readSlotPlan_ioOr h slot).bind fun _ => IoOr.refl _
      | _ => exact IoOr.refl _
    · exact IoOr.refl _
  · rw [hio]
    exact Or.inr rfl

end

end Faults

/-! ## The decision -/

variable {T : SnapshotSite} {env : Env} {latest : Option SlotReadPlan}

/-- What an admitted plan is, `latest` being the newest slot. -/
structure CommitPlan.Follows (T : SnapshotSite) (plan : CommitPlan) (latest : Option SlotReadPlan)
    (payloadLen : ℕ) (wal : Option WalSnapshotManifest) : Prop where
  first : latest = none → plan.slot = 0 ∧ plan.generation = 1
  next : ∀ newest, latest = some newest →
    plan.slot = 1 - newest.slot ∧ plan.generation = newest.generation + 1
  generation_lt : plan.generation < 2 ^ 64
  slotBase : plan.slotBase = T.slotBase plan.slot
  payloadSectors : plan.payloadSectors = divCeil payloadLen T.size
  payloadSectors_lt : plan.payloadSectors < 2 ^ 32
  payloadSectors_le : plan.payloadSectors ≤ T.slotSectors - 1
  wal : ∀ newest, latest = some newest → (wal.isSome = true → newest.wal.isSome = true) →
    Precedes newest.wal wal

theorem CommitPlan.Follows.slot_le {plan : CommitPlan} {payloadLen : ℕ}
    {wal : Option WalSnapshotManifest} (h : plan.Follows T latest payloadLen wal) :
    plan.slot ≤ 1 := by
  cases latest with
  | none =>
    have := (h.first rfl).1
    omega
  | some newest =>
    have := (h.next newest rfl).1
    omega

/-- The manifest follows the manifests of all valid slots. -/
def FollowsHeld (T : SnapshotSite) (v : T.Contents) (wal : Option WalSnapshotManifest) : Prop :=
  ∀ current, wal = some current → ∀ held payload, Holds T v held payload →
    held.wal.isSome = true → Precedes held.wal wal

private theorem runs_checkManifests {d : Store (Sector T.size)}
    (hholds : ∀ newest, latest = some newest → ∃ payload, Holds T d.visible newest payload)
    (wal : Option WalSnapshotManifest) (repair : Bool) (target : ℕ) :
    Runs env d (T.store.checkManifests T.device wal repair latest target)
      (fun _ d' => d' = d ∧ FollowsHeld T d.visible wal ∧ ∀ newest, latest = some newest →
        (wal.isSome = true → newest.wal.isSome = true) → Precedes newest.wal wal)
      (fun _ d' => d' = d) (fun _ => False) := by
  cases wal with
  | none =>
    rw [checkManifests]
    split_ifs with hbad
    · exact runs_fail rfl
    · refine runs_pure ⟨rfl, nofun, fun newest hnewest _ => ?_⟩
      cases hwal : newest.wal with
      | none => trivial
      | some manifest => simp [hnewest, hwal] at hbad
  | some current =>
    refine Runs.bind ((runs_query fun read hread => checkManifestSlot_ioOr hread _ _ _ _ _).weaken
      (fun _ _ h => h) (fun _ _ h => h.1) fun _ h => h) ?_
    rintro _ d' ⟨rfl, hzero⟩
    refine (runs_query fun read hread => checkManifestSlot_ioOr hread _ _ _ _ _).weaken
      ?_ (fun _ _ h => h.1) fun _ h => h
    rintro _ d'' ⟨rfl, hone⟩
    have hheld : FollowsHeld T d''.visible (some current) := by
      rintro _ ⟨⟩ held payload hpayload hwal
      have hslot : T.store.checkManifestSlot T.device (readAll d''.visible) current repair latest
          target held.slot = .ok () := by
        rcases Nat.le_one_iff_eq_zero_or_eq_one.mp hpayload.slot_le with h | h
        · rw [h]
          exact hzero
        · rw [h]
          exact hone
      obtain ⟨manifest, hmanifest⟩ := Option.isSome_iff_exists.mp hwal
      rw [checkManifestSlot, hpayload.readValidSlotPlan] at hslot
      simp only [Option.bind_some, hmanifest] at hslot
      split_ifs at hslot with hreset hbad
      rw [not_or, not_not, Nat.not_lt] at hbad
      rw [hmanifest]
      exact hbad
    refine ⟨rfl, hheld, fun newest hnewest hwal => ?_⟩
    obtain ⟨payload, hpayload⟩ := hholds newest hnewest
    exact hheld current rfl newest payload hpayload (hwal rfl)

private theorem nextTarget_eq_ok {target generation : ℕ}
    (h : nextTarget latest = .ok (target, generation)) :
    target ≤ 1 ∧ generation < 2 ^ 64 ∧ (latest = none → target = 0 ∧ generation = 1)
      ∧ ∀ newest, latest = some newest →
        target = 1 - newest.slot ∧ generation = newest.generation + 1 := by
  cases latest with
  | none =>
    cases h
    exact ⟨by omega, by omega, fun _ => ⟨rfl, rfl⟩, nofun⟩
  | some newest =>
    rw [nextTarget] at h
    rcases hnext : checkedAdd newest.generation 1 with _ | next
    · rw [hnext] at h
      cases h
    · rw [hnext] at h
      cases h
      obtain ⟨hval, hlt⟩ := checkedAdd_eq_some hnext
      refine ⟨Nat.sub_le _ _, by omega, nofun, ?_⟩
      rintro _ ⟨⟩
      exact ⟨rfl, hval⟩

/-- Nothing was written: the store has lost possibilities at most, and without faults and
without accepted writes it is the same. -/
structure Unwritten (env : Env) (d d' : Store (Sector T.size)) : Prop where
  within : d.Within d'
  eq : env.faults = false → d.pending = [] → d' = d

theorem Unwritten.refl (d : Store (Sector T.size)) : Unwritten env d d :=
  ⟨Store.Within.refl d, fun _ _ => rfl⟩

/-- A commit that is admitted has flushed the device and follows its newest slot; one
that is not has written nothing. -/
theorem runs_admitCommit {d : Store (Sector T.size)}
    (hlatest : T.store.latestCommitSlot T.device (readAll d.visible) = .ok latest)
    (hholds : ∀ newest, latest = some newest → ∃ payload, Holds T d.visible newest payload)
    (payloadLen : ℕ) (wal : Option WalSnapshotManifest) (repair : Bool) :
    Runs env d (T.store.admitCommit T.device payloadLen wal repair)
      (fun plan d' => d' = d.flush ∧ FollowsHeld T d.visible wal
        ∧ plan.Follows T latest payloadLen wal)
      (fun _ d' => Unwritten env d d') (fun d' => Unwritten env d d') := by
  rw [admitCommit, T.geometry_eq]
  refine runs_lift_bind ?_ nofun
  rintro _ ⟨⟩
  refine runs_lift_bind (fun _ _ => ?_) fun _ _ => Unwritten.refl d
  refine Runs.bind ((runs_flush _).weaken (fun _ _ h => h) ?_ ?_) ?_
  · intro e d' h
    exact ⟨h.2.2, fun hfaultless => absurd (hfaultless.symm.trans h.1) Bool.false_ne_true⟩
  · intro d' h
    rw [h.2]
    exact Unwritten.refl d
  rintro _ _ rfl
  -- from here on only reads and checks
  have hwithin : Unwritten env d d.flush :=
    ⟨Store.within_flush d, fun _ hpending => Store.flush_of_pending_nil hpending⟩
  refine runs_query_bind (fun read hread => latestCommitSlot_ioOr hread) ?_ fun _ _ => hwithin
  intro found hfound
  obtain rfl : found = latest := by
    change T.store.latestCommitSlot T.device (readAll d.visible) = .ok found at hfound
    rw [hlatest] at hfound
    exact (Except.ok.inj hfound).symm
  split_ifs with hresetting
  · exact runs_fail hwithin
  refine runs_lift_bind ?_ fun _ _ => hwithin
  rintro ⟨target, generation⟩ htarget
  refine Runs.bind ((runs_checkManifests (d := d.flush) hholds wal repair target).weaken
    (fun _ _ h => h) ?_ fun _ h => h.elim) ?_
  · rintro _ _ rfl
    exact hwithin
  rintro _ _ ⟨rfl, hheld, hwal⟩
  simp only
  split_ifs with hspace
  · exact runs_fail hwithin
  rw [not_or, Nat.not_le, Nat.not_lt] at hspace
  have hfacts := nextTarget_eq_ok htarget
  rw [T.slotLba_eq hfacts.1]
  refine runs_pure ⟨rfl, hheld, ?_⟩
  exact
    { first := hfacts.2.2.1
      next := hfacts.2.2.2
      generation_lt := hfacts.2.1
      slotBase := rfl
      payloadSectors := rfl
      payloadSectors_lt := hspace.1
      payloadSectors_le := hspace.2
      wal := hwal }

end UserspaceNtos.Fs
