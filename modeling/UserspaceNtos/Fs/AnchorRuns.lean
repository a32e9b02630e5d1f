import UserspaceNtos.Fs.AnchorSession
import UserspaceNtos.Fs.RolloverSession

/-!
# The acknowledged end of the log never regresses

Every step of a session keeps `AnchorInv`, so every image of every run has anchors from
the last update on.  `anchor_never_regresses` states this for the boot:
`read_latest_metadata` reports an end of a record that is on the disk, not before the
last update that returned `Ok`, and the log that the boot assembles from it holds exactly
the records behind the selected snapshot.
-/

namespace UserspaceNtos.Fs

open CachedStorage SnapshotBlockStore

variable {A : AnchorSite} {m : A.snapshots.Contents} {s s' : AnchorSession A}

/-! ## One step keeps the invariant -/

theorem AnchorInv.checkpoint (h : AnchorInv s) {attempt : CommitAttempt}
    {before after : Machine (Sector A.snapshots.size)} {r : Outcome SnapshotBlockStoreError ℕ}
    (hrunning : s.running = true) (hstore : before.store = s.store)
    (henv : before.Meets .faultless) (hrun : attempt.run A.snapshots before = (r, after))
    (hreturns : r ≠ .stopped) : AnchorInv { s with store := after.store } := by
  obtain ⟨hdurable, hanchored, hlog⟩ := h.contents hrunning
  obtain ⟨himages, hpending⟩ := hanchored.checkpoint (hstore.trans hdurable) henv hrun
  have hafter : after.store = ⟨after.store.durable, []⟩ := by rw [← hpending hreturns]
  obtain ⟨hkeeps, hagrees⟩ := himages after.store.durable
    (by rw [hafter]; exact Store.isImage_mk_nil.mpr rfl)
  refine anchorInv_of_durable hafter hkeeps (hagrees.survivor hlog) fun wal hwal => ?_
  obtain ⟨-, hinFlight, phase, records, hrecords, hphase⟩ := h.owner wal hwal
  exact ⟨hrunning, hinFlight, phase, records, hrecords, hagrees.phaseInv hphase⟩

theorem AnchorInv.step (h : AnchorInv s) (hstep : s.Step s') : AnchorInv s' := by
  cases hstep with
  | logReturns op howner hstore henv hrun => exact h.logReturns op howner hstore henv hrun
  | logStops op howner hstore henv hrun => exact h.logStops op howner hstore henv hrun
  | advances howner hverified hadmission hstore henv hrun hcontinuation hresume =>
    obtain ⟨hrunning, hinFlight, rfl, hsettled, hruns⟩ := h.runs_advance howner hverified hadmission
    obtain ⟨-, hpost⟩ := hruns _ hstore henv
    rw [hrun] at hpost
    obtain ⟨-, hsame, n, hn, hanchored, hlog⟩ := hpost
    have hready := hlog.settled hsettled
    refine anchorInv_of_durable hn hanchored (.settled hready) fun wal' hwal' => ?_
    obtain ⟨anchor, hresumed⟩ := hresume wal' hwal'
    obtain rfl := Option.some.inj (hcontinuation.symm.trans hsame)
    -- the owner resumes from the log it was handed
    unfold RegistryWal.resumeFromContinuation at hresumed
    simp only at hresumed
    split_ifs at hresumed
    cases hresumed
    exact ⟨hrunning, hinFlight, .ready, [], rfl, hready⟩
  | advanceFails howner hverified hadmission hstore henv hrun =>
    obtain ⟨-, -, -, -, hruns⟩ := h.runs_advance howner hverified hadmission
    obtain ⟨-, hpost⟩ := hruns _ hstore henv
    rw [hrun] at hpost
    cases hpost.1
  | advanceStops howner hverified hadmission hstore henv hrun =>
    obtain ⟨-, -, -, hsettled, hruns⟩ := h.runs_advance howner hverified hadmission
    obtain ⟨-, hpost⟩ := hruns _ hstore henv
    rw [hrun] at hpost
    refine anchorInv_of_stopped rfl rfl fun n hn => ?_
    obtain ⟨hanchored, hlog⟩ := hpost n hn
    exact ⟨hanchored, .settled (hlog.settled hsettled)⟩
  | checkpoint attempt hrunning hstore henv hrun hreturns =>
    exact h.checkpoint hrunning hstore henv hrun hreturns
  | checkpointStops attempt hrunning hstore henv hrun =>
    obtain ⟨hdurable, hanchored, hlog⟩ := h.contents hrunning
    obtain ⟨himages, -⟩ := hanchored.checkpoint (hstore.trans hdurable) henv hrun
    refine anchorInv_of_stopped rfl rfl fun n hn => ?_
    obtain ⟨hkeeps, hagrees⟩ := himages n hn
    exact ⟨hkeeps, hagrees.survivor hlog⟩
  | crash kept =>
    exact ⟨fun n hn => h.image n (s.store.within_cut kept n hn), fun _ => rfl, nofun⟩
  | release => exact ⟨h.image, h.durable, nofun⟩
  | recover hrunning hrecover =>
    obtain ⟨hstore, hanchored, hlog⟩ := h.contents hrunning
    rw [hstore] at hrecover
    obtain ⟨ps, phase, rfl, hphase, hps⟩ := hlog.recover hrecover
    rw [recovered_records, numbered_payloads]
    refine anchorInv_of_durable hstore ?_ hphase.survivor ?_
    · rcases hps with rfl | ⟨q, -, rfl⟩
      · exact hanchored
      · exact hanchored.append q
    · rintro _ ⟨⟩
      exact ⟨hrunning, rfl, phase, _, rfl, hphase⟩

/-- The invariant holds in every session of every run. -/
theorem anchorInv_of_reachable (h : s.Reachable A) : AnchorInv s := by
  induction h with
  | @start m ps phase manifest hpaired hlog hverified =>
    obtain ⟨newest, older, hchosen, -, -, -, hwal⟩ := chosen_of_paired hpaired
    cases hend : (recovered A.log ps phase).verifiedPrefix with
    | none =>
      rw [verifyRecoveredWalAnchor, hend] at hverified
      cases hverified
    | some anchor =>
      obtain ⟨hnames, -⟩ := (verifyRecoveredWalAnchor_eq_ok_iff hend).mp hverified
      exact anchorInv_of_durable rfl (.chosen hchosen hwal hnames le_rfl) hlog.survivor (by simp)
  | step _ hstep ih => exact ih.step hstep

/-! ## What the boot finds -/

/-- After any run, in every image of the device, `read_latest_metadata` reports an anchor
that is the end of a record in the committed prefix of the log, at or behind the last
update that returned `Ok`, and a base at or before it.  A `recover` that succeeds finds the
records of that prefix, and the boot appends those behind the base to the log of the
snapshot. -/
theorem anchor_never_regresses (h : s.Reachable A) (hm : s.store.IsImage m) :
    ∃ generation payloadLen base anchor ps,
      A.snapshots.store.readLatestMetadata A.snapshots.device (readAll m)
        = .ok (some ⟨generation, payloadLen, .wal base anchor⟩)
      ∧ (ps = s.acked ∨ ∃ q, s.inFlight = some q ∧ ps = s.acked ++ [q])
      ∧ CommittedPrefix A.log m ps
      ∧ s.anchored ≤ anchor.serial ∧ anchor.serial ≤ ps.length
      ∧ anchor.incarnation = A.incarnation
      ∧ anchor.endLba = A.log.framesEnd 0 (ps.take anchor.serial)
      ∧ base ≤ anchor.serial
      ∧ ∀ wal, A.log.recover m = .ok wal → wal.records = numbered 1 ps
        ∧ ∀ log : List UInt8, log.length
            + ((wal.records.drop base).flatMap RegistryWalRecord.payload).length < 2 ^ 64 →
          StoredSnapshotMetadata.verifiedBootSystemLog ⟨generation, payloadLen, .wal base anchor⟩
              log wal
            = .ok (log ++ (wal.records.drop base).flatMap RegistryWalRecord.payload) := by
  obtain ⟨hanchored, hlog⟩ := (anchorInv_of_reachable h).image m hm
  obtain ⟨ps, hps, hcommitted, hrecover⟩ := hlog.boot
  -- the anchors stay ends of records when a record in flight has landed
  have hanchored' : Anchored A m ps s.anchored := by
    rcases hps with rfl | ⟨q, -, rfl⟩
    · exact hanchored
    · exact hanchored.append q
  obtain ⟨generation, payloadLen, base, anchor, hmetadata, hnames, hfloor, hbase⟩ :=
    hanchored'.readLatestMetadata
  refine ⟨generation, payloadLen, base, anchor, ps, hmetadata, hps, hcommitted, hfloor,
    hnames.serial_le, hnames.incarnation, hnames.endLba, hbase, fun wal hwal => ?_⟩
  obtain ⟨phase, rfl, hverified⟩ := hrecover wal hwal
  refine ⟨recovered_records .., fun log hlen => ?_⟩
  -- with an anchor of the log the boot appends the records behind the base
  have hle : base ≤ ps.length := hbase.trans hnames.serial_le
  have hcheck := (verifyRecoveredWalAnchor_eq_ok_iff hverified).mpr ⟨hnames, hle⟩
  have hrecords : (numbered 1 ps).length = ps.length := by
    rw [← List.length_map, numbered_payloads]
  show verifiedBootSystemLogSuffix base anchor log (recovered A.log ps phase) = _
  rw [verifiedBootSystemLogSuffix, hcheck]
  show (if _ then _ else _) = _
  rw [recovered_records] at hlen ⊢
  rw [if_neg (by omega), totalLength_eq hlen]
  rfl

/-! The snapshots and the log of `foldedContents`. -/

/-- Both ranges on one device. -/
def foldedSite : AnchorSite where
  snapshots := foldedStore
  walStart := 16
  walSectors := 8
  incarnation := 77
  three_le := by decide
  incarnation_ne_zero := smallSite.incarnation_ne_zero
  incarnation_lt := smallSite.incarnation_lt
  inside := foldedStart.inside
  disjoint := Or.inr (by decide)
  batch_lt := by decide

theorem paired_foldedContents :
    foldedSite.snapshots.store.currentPairedWalJournalManifest foldedSite.snapshots.device
      (readAll foldedContents) = .ok ⟨77, 1, 1, 3⟩ := by
  have hread : ∀ slot ≤ 1, foldedStore.store.readValidSlotPlan foldedStore.device
      (readAll foldedContents) slot = .ok (some (foldedPlan slot)) :=
    fun slot hslot => (holds_foldedContents hslot).readValidSlotPlan
  show foldedStore.store.currentPairedWalJournalManifest foldedStore.device
    (readAll foldedContents) = _
  rw [currentPairedWalJournalManifest, hread 0 (Nat.zero_le _), hread 1 le_rfl]
  rfl

/-- A log operation during which nothing goes wrong. -/
theorem AnchorSession.Step.completes {wal : RegistryWal A.log.size} (op : WalOp)
    {d : Store (Sector A.log.size)} {r : Except RegistryWalError Unit × RegistryWal A.log.size}
    (howner : s.owner = some wal) (hrun : op.run wal ⟨s.store, [], []⟩ = (.ok r, ⟨d, [], []⟩))
    (hs' : { s with toSession := s.toSession.returned op wal r d } = s') : s.Step s' :=
  hs' ▸ .logReturns op howner rfl (Machine.meets_nil _ _) hrun

/-- A power failure in a checkpoint. -/
theorem AnchorSession.Reachable.checkpointCrash (h : s.Reachable A) (attempt : CommitAttempt)
    {before : Machine (Sector A.snapshots.size)} (hrunning : s.running = true)
    (hstore : before.store = s.store) (henv : before.Meets .faultless)
    (hstopped : (attempt.run A.snapshots before).1 = .stopped)
    {kept : ℕ × Sector A.snapshots.size → Bool} {d : Store (Sector A.snapshots.size)}
    (hd : d = (attempt.run A.snapshots before).2.store.cut kept) :
    AnchorSession.Reachable A ⟨⟨d, none, s.acked, s.inFlight⟩, true, s.anchored⟩ := by
  subst hd
  exact .step (.step h (.checkpointStops attempt hrunning hstore henv
    (Prod.fst_eq_iff.mp hstopped))) (.crash kept)

/-- A live owner of the log of `foldedSite`. -/
def foldedSession (m : foldedSite.snapshots.Contents) (ps : List (List UInt8)) (phase : WalPhase) :
    AnchorSession foldedSite :=
  ⟨liveSession foldedSite.log m ps phase, true, 1⟩

/-- The contents when the PREPARE of a second record is durable. -/
def preparedContents : ℕ → Sector 512 :=
  overwrite foldedContents (foldedLog.device.addressed (prepareBatch foldedLog [[1]] [2]))

/-- The contents when the second record is committed. -/
def committedContents : ℕ → Sector 512 :=
  overwrite preparedContents (foldedLog.device.addressed (commitBatch foldedLog [[1]] [2]))

theorem reachable_committedContents :
    (foldedSession committedContents [[1], [2]] .ready).Reachable foldedSite := by
  have hlog : PhaseInv foldedSite.log foldedContents [[1]] .ready := settled_foldedContents
  have hstart : AnchorSession.Reachable foldedSite
      ⟨⟨⟨foldedContents, []⟩, none, [[1]], none⟩, true, 1⟩ :=
    .start paired_foldedContents hlog rfl
  have hready : (foldedSession foldedContents [[1]] .ready).Reachable foldedSite :=
    hstart.step (.recover rfl (recover_of_settled settled_foldedContents))
  have hbegun : (foldedSession foldedContents [[1]]
      (.pendingPrepare (reservation foldedSite.log [[1]] [2]))).Reachable foldedSite :=
    hready.step (.completes (.begin [2]) rfl rfl rfl)
  have hprepared : (foldedSession preparedContents [[1]]
      (.prepared (reservation foldedSite.log [[1]] [2]))).Reachable foldedSite :=
    hbegun.step (.completes .prepare rfl rfl rfl)
  exact hprepared.step (.completes .commit rfl rfl rfl)

/-- The update of the anchor to the end of the second record. -/
def foldedUpdate : WalSnapshotAnchorUpdate where
  device := foldedStore.device
  store := foldedStore.store
  headers := (anchoredHeader ⟨77, 2, 6⟩ (foldedPlan 0), anchoredHeader ⟨77, 2, 6⟩ (foldedPlan 1))
  tornCompanionSource := none
  continuation := ⟨⟨77, 2, 6⟩, [3, 6]⟩
  phase := .pending

/-- Nothing goes wrong in the update. -/
def advancing : Machine (Sector foldedSite.snapshots.size) := ⟨⟨committedContents, []⟩, [], []⟩

/-- What the update leaves. -/
def advancedStore : Store (Sector foldedSite.snapshots.size) :=
  (foldedUpdate.advance advancing).2.store

/-- A snapshot with both records folded. -/
def bothFolded : CommitAttempt where
  payload := [3]
  wal := some ⟨77, 2, 2, 6⟩
  fits := by
    rintro _ ⟨⟩
    exact ⟨by decide, by decide, by decide, by decide⟩

/-- Its checkpoint is stopped at the flush of the header. -/
def checkpointing : Machine (Sector foldedSite.snapshots.size) :=
  ⟨advancedStore, [.done, .done, .done, .done, .stop], []⟩

/-- What a power failure leaves then if it keeps the header. -/
def checkpointedStore : Store (Sector foldedSite.snapshots.size) :=
  (bothFolded.run foldedSite.snapshots checkpointing).2.store.cut fun _ => true

theorem anchor_never_regresses_after_crash :
    ∃ metadata base anchor,
      foldedStore.store.readLatestMetadata foldedStore.device (readAll checkpointedStore.durable)
        = .ok (some metadata)
      ∧ metadata.format = .wal base anchor ∧ 2 ≤ anchor.serial ∧ base ≤ anchor.serial := by
  have hverified : (recovered foldedSite.log [[1], [2]] .ready).intoVerifiedDevice
      = some ⟨⟨77, 2, 6⟩, [3, 6]⟩ := rfl
  have hadmission : WalSnapshotAnchorUpdate.admitVerifiedWal foldedSite.snapshots.store
      foldedSite.snapshots.device ⟨⟨77, 2, 6⟩, [3, 6]⟩
      (readAll (foldedSession committedContents [[1], [2]] .ready).store.visible)
        = .ok foldedUpdate := by decide +kernel
  have hadvance : foldedUpdate.advance advancing
      = (.ok (.ok (), { foldedUpdate with phase := .complete }), (foldedUpdate.advance advancing).2)
    := Prod.fst_eq_iff.mp (by decide +kernel)
  have hadvanced : AnchorSession.Reachable foldedSite
      ⟨⟨advancedStore, none, [[1], [2]], none⟩, true, 2⟩ :=
    reachable_committedContents.step
      (.advances rfl hverified hadmission rfl (Machine.meets_nil _ _) hadvance rfl nofun)
  have hmeets : checkpointing.Meets .faultless :=
    ⟨nofun, by simp [checkpointing, Fate.isFault], fun _ _ _ => rfl⟩
  have hcrash := hadvanced.checkpointCrash bothFolded rfl (by rw [checkpointing]) hmeets
    (by decide +kernel) checkpointedStore.eq_1
  obtain ⟨generation, payloadLen, base, anchor, ps, hmetadata, -, -, hserial, -, -, -, hbase, -⟩ :=
    anchor_never_regresses hcrash checkpointedStore.isImage_durable
  exact ⟨_, base, anchor, hmetadata, rfl, hserial, hbase⟩

end UserspaceNtos.Fs
