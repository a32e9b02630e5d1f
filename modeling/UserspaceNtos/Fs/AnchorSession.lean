import UserspaceNtos.Fs.AnchorEffects
import UserspaceNtos.Fs.SnapshotSession
import UserspaceNtos.Fs.WalSession

/-!
# Log, checkpoints and anchors across power failures

A session is a device with a snapshot store and a log, the owner of the log, what its
callers know, and the serial of the last anchor update that returned `Ok`.  A step is an
operation of the log, an anchor update, a checkpoint, a power failure or a recovery, in
any order.  The invariant says that in every image the headers name ends of records of
the log, from that serial on (`anchorInv_of_reachable`).

Log and slots do not overlap, so each program keeps what is known about the other part;
`Confined` provides this.
-/

namespace UserspaceNtos.Fs

open CachedStorage WalSnapshotAnchorUpdate

/-! ## Owners that have resumed -/

section Resumed

variable {size : ℕ}

/-- The owner with other records in memory. -/
def RegistryWal.withRecords (wal : RegistryWal size) (records : List RegistryWalRecord) :
    RegistryWal size :=
  { wal with records := records }

private theorem begin_withRecords (wal : RegistryWal size) (records : List RegistryWalRecord)
    (payload : List UInt8) : (wal.withRecords records).begin payload
      = ((wal.begin payload).1, (wal.begin payload).2.withRecords records) := by
  rcases wal with ⟨device, incarnation, cursor, nextSerial, kept, ends, phase⟩
  cases phase with
  | ready =>
    simp only [RegistryWal.begin, RegistryWal.withRecords]
    split_ifs
    · rfl
    · rfl
    · cases payloadSectors payload.length size with
      | error e => rfl
      | ok count =>
        simp only
        cases (checkedAdd cursor count).bind (checkedAdd · 2) with
        | none => rfl
        | some stop =>
          by_cases hroom : device.sectors < stop
          · simp only [if_pos hroom]
            exact if_pos hroom
          · cases checkedAdd nextSerial 1 with
            | none | some =>
              simp only [if_neg hroom]
              exact if_neg hroom
  | _ => rfl

/-- The records in memory do not matter to an operation; `commit` appends to them. -/
theorem WalOp.run_withRecords (op : WalOp) (wal : RegistryWal size)
    (records : List RegistryWalRecord) : ∃ keep : RegistryWal size → List RegistryWalRecord,
      op.run (wal.withRecords records)
        = op.run wal >>= fun r => pure (r.1, r.2.withRecords (keep r.2)) := by
  rcases wal with ⟨device, incarnation, cursor, nextSerial, kept, ends, phase⟩
  cases op with
  | begin payload =>
    exact ⟨fun _ => records, congrArg pure (begin_withRecords _ records payload)⟩
  | cancelPending =>
    refine ⟨fun _ => records, ?_⟩
    cases phase <;> rfl
  | commit =>
    refine ⟨fun wal => records ++ wal.records.drop kept.length, ?_⟩
    cases phase with
    | prepared pending =>
      simp only [WalOp.run, RegistryWal.commit, RegistryWal.withRecords, bind_assoc]
      congr 1
      funext result
      cases result with
      | ok u => simp [RegistryWal.published]
      | error e => simp
    | _ => simp [WalOp.run, RegistryWal.commit, RegistryWal.withRecords]
  | prepare | abortPrepared | clearRecoveredTail =>
    refine ⟨fun _ => records, ?_⟩
    cases phase <;> try rfl
    -- the one phase in which the operation writes
    all_goals
      simp only [WalOp.run, RegistryWal.prepare, RegistryWal.abortPrepared,
        RegistryWal.clearRecoveredTail, RegistryWal.clearAt, RegistryWal.withRecords, bind_assoc]
      congr 1
      funext result
      cases result <;> rfl

end Resumed

/-! ## Recovery -/

section Boot

variable {S : WalSite} {m : S.Contents} {ps : List (List UInt8)} {inFlight : Option (List UInt8)}

/-- The records on the disk, and what `recover` makes of them. -/
theorem Survivor.boot (h : Survivor S m ps inFlight) :
    ∃ found, (found = ps ∨ ∃ q, inFlight = some q ∧ found = ps ++ [q]) ∧ CommittedPrefix S m found
      ∧ ∀ wal, S.recover m = .ok wal → ∃ phase, wal = recovered S found phase
        ∧ (recovered S found phase).verifiedPrefix = some (logEnd S found) := by
  cases h with
  | settled h =>
    refine ⟨ps, Or.inl rfl, h.toCommittedPrefix, fun wal hwal => ?_⟩
    rw [recover_of_settled h] at hwal
    exact ⟨_, (Except.ok.inj hwal).symm, rfl⟩
  | unmarked q h =>
    refine ⟨ps, Or.inl rfl, h.toCommittedPrefix, fun wal hwal => ?_⟩
    rw [recover_of_unmarked h] at hwal
    exact ⟨_, (Except.ok.inj hwal).symm, rfl⟩
  | torn h =>
    refine ⟨ps, Or.inl rfl, h.toCommittedPrefix, fun wal hwal => ?_⟩
    rw [recover_of_torn h] at hwal
    cases hwal
  | landed q hq h =>
    refine ⟨ps ++ [q], Or.inr ⟨q, hq, rfl⟩, h.toCommittedPrefix, fun wal hwal => ?_⟩
    rw [recover_of_settled h] at hwal
    exact ⟨_, (Except.ok.inj hwal).symm, rfl⟩

end Boot

/-! ## Sessions -/

/-- A device, the owner of its log and what the callers know about the log, whether the
machine runs, and the serial of the last anchor update that returned `Ok`. -/
structure AnchorSession (A : AnchorSite) extends Session A.log where
  running : Bool
  anchored : ℕ

namespace AnchorSession

variable {A : AnchorSite}

/-- One step of a run on a device that can lose power but has no other faults. -/
inductive Step : AnchorSession A → AnchorSession A → Prop
  | logReturns {s : AnchorSession A} {wal : RegistryWal A.log.size} (op : WalOp)
      {before after : Machine (Sector A.log.size)}
      {r : Except RegistryWalError Unit × RegistryWal A.log.size} (howner : s.owner = some wal)
      (hstore : before.store = s.store) (henv : before.Meets .faultless)
      (hrun : op.run wal before = (.ok r, after)) :
      Step s { s with toSession := s.toSession.returned op wal r after.store }
  | logStops {s : AnchorSession A} {wal : RegistryWal A.log.size} (op : WalOp)
      {before after : Machine (Sector A.log.size)} (howner : s.owner = some wal)
      (hstore : before.store = s.store) (henv : before.Meets .faultless)
      (hrun : op.run wal before = (.stopped, after)) :
      Step s { s with toSession := s.toSession.stopped op wal after.store, running := false }
  | advances {s : AnchorSession A} {wal : RegistryWal A.log.size}
      {verified continuation : VerifiedLog}
      {update update' : WalSnapshotAnchorUpdate} {before after : Machine (Sector A.snapshots.size)}
      {resumed : Option (RegistryWal A.log.size)} (howner : s.owner = some wal)
      (hverified : wal.intoVerifiedDevice = some verified)
      (hadmission : admitVerifiedWal A.snapshots.store A.snapshots.device verified
        (readAll s.store.visible) = .ok update)
      (hstore : before.store = s.store) (henv : before.Meets .faultless)
      (hrun : update.advance before = (.ok (.ok (), update'), after))
      (hcontinuation : update'.intoContinuation = some continuation)
      (hresume : ∀ wal', resumed = some wal' → ∃ anchor,
        RegistryWal.resumeFromContinuation A.log.size A.log.device continuation anchor = .ok wal') :
      Step s { s with store := after.store, owner := resumed, anchored := verified.anchor.serial }
  | advanceFails {s : AnchorSession A} {wal : RegistryWal A.log.size} {verified : VerifiedLog}
      {update update' : WalSnapshotAnchorUpdate} {before after : Machine (Sector A.snapshots.size)}
      {e : SnapshotBlockStoreError} (howner : s.owner = some wal)
      (hverified : wal.intoVerifiedDevice = some verified)
      (hadmission : admitVerifiedWal A.snapshots.store A.snapshots.device verified
        (readAll s.store.visible) = .ok update)
      (hstore : before.store = s.store) (henv : before.Meets .faultless)
      (hrun : update.advance before = (.ok (.error e, update'), after)) :
      Step s { s with store := after.store, owner := none }
  | advanceStops {s : AnchorSession A} {wal : RegistryWal A.log.size} {verified : VerifiedLog}
      {update : WalSnapshotAnchorUpdate} {before after : Machine (Sector A.snapshots.size)}
      (howner : s.owner = some wal) (hverified : wal.intoVerifiedDevice = some verified)
      (hadmission : admitVerifiedWal A.snapshots.store A.snapshots.device verified
        (readAll s.store.visible) = .ok update)
      (hstore : before.store = s.store) (henv : before.Meets .faultless)
      (hrun : update.advance before = (.stopped, after)) :
      Step s { s with store := after.store, owner := none, running := false }
  | checkpoint {s : AnchorSession A} (attempt : CommitAttempt)
      {before after : Machine (Sector A.snapshots.size)}
      {r : Outcome SnapshotBlockStoreError ℕ} (hrunning : s.running = true)
      (hstore : before.store = s.store) (henv : before.Meets .faultless)
      (hrun : attempt.run A.snapshots before = (r, after)) (hreturns : r ≠ .stopped) :
      Step s { s with store := after.store }
  | checkpointStops {s : AnchorSession A} (attempt : CommitAttempt)
      {before after : Machine (Sector A.snapshots.size)} (hrunning : s.running = true)
      (hstore : before.store = s.store) (henv : before.Meets .faultless)
      (hrun : attempt.run A.snapshots before = (.stopped, after)) :
      Step s { s with store := after.store, owner := none, running := false }
  | crash {s : AnchorSession A} (kept : ℕ × Sector A.snapshots.size → Bool) :
      Step s { s with store := s.store.cut kept, owner := none, running := true }
  | release {s : AnchorSession A} : Step s { s with owner := none }
  | recover {s : AnchorSession A} {wal : RegistryWal A.log.size} (hrunning : s.running = true)
      (hrecover : A.log.recover s.store.visible = .ok wal) :
      Step s { s with
        owner := some wal
        acked := wal.records.map RegistryWalRecord.payload
        inFlight := none }

/-- The sessions of all runs from a pair of WAL slots whose anchor the log confirms. -/
inductive Reachable (A : AnchorSite) : AnchorSession A → Prop
  | start {m : A.snapshots.Contents} {ps : List (List UInt8)} {phase : WalPhase}
      {manifest : WalSnapshotManifest}
      (hpaired : A.snapshots.store.currentPairedWalJournalManifest A.snapshots.device (readAll m)
        = .ok manifest)
      (hlog : PhaseInv A.log m ps phase)
      (hverified : verifyRecoveredWalAnchor manifest.baseSerial manifest.anchor
        (recovered A.log ps phase) = .ok ()) :
      Reachable A ⟨⟨⟨m, []⟩, none, ps, none⟩, true, manifest.highWaterSerial⟩
  | step {s s' : AnchorSession A} : Reachable A s → Step s s' → Reachable A s'

end AnchorSession

variable {A : AnchorSite} {m m' : A.snapshots.Contents} {ps : List (List UInt8)} {floor : ℕ}
  {s : AnchorSession A} {after before : Machine (Sector A.log.size)}
  {wal : RegistryWal A.log.size} {attempt : CommitAttempt} {r : Outcome SnapshotBlockStoreError ℕ}

/-! ## The two parts of the device -/

/-- The addresses of the log range. -/
def InLog (A : AnchorSite) (address : ℕ) : Prop :=
  ∃ lba < A.walSectors, address = A.log.device.start + lba

theorem AnchorSite.not_inLog_of_inSlots {address : ℕ} (h : InSlots A.snapshots address) :
    ¬ InLog A address := by
  rintro ⟨lba, hlba, hlog⟩
  obtain ⟨slot, hslot, offset, hoffset, hslots⟩ := h
  have hhalf : A.snapshots.slotSectors * 2 ≤ A.snapshots.store.sectorCount :=
    Nat.div_mul_le_self _ _
  have hdisjoint := A.disjoint
  have hsame : A.snapshots.slotBase slot + offset = A.walStart + lba := by
    have hstart : A.log.device.start = A.snapshots.device.start + A.walStart := rfl
    omega
  unfold SnapshotSite.slotBase at hsame
  rcases Nat.le_one_iff_eq_zero_or_eq_one.mp hslot with rfl | rfl <;> omega

/-- A program that stays in the slots keeps the log. -/
theorem logAgrees_of_off_slots
    (h : ∀ address, ¬ InSlots A.snapshots address → m' address = m address) :
    LogAgrees A.log m m' :=
  fun lba hlba => h _ fun hslots => AnchorSite.not_inLog_of_inSlots hslots ⟨lba, hlba, rfl⟩

/-! ## The invariant -/

/-- Every image has headers that name ends of records of the log, from the last update
on, and a log with the acknowledged records.  While the machine runs everything is
durable, and the owner of the log knows its contents. -/
structure AnchorInv (s : AnchorSession A) : Prop where
  image : ∀ m, s.store.IsImage m →
    Anchored A m s.acked s.anchored ∧ Survivor A.log m s.acked s.inFlight
  durable : s.running = true → s.store.pending = []
  owner : ∀ wal, s.owner = some wal → s.running = true ∧ s.inFlight = none ∧ ∃ phase records,
    wal = (recovered A.log s.acked phase).withRecords records
      ∧ PhaseInv A.log s.store.durable s.acked phase

theorem AnchorInv.contents (h : AnchorInv s) (hrunning : s.running = true) :
    s.store = ⟨s.store.durable, []⟩ ∧ Anchored A s.store.durable s.acked s.anchored
      ∧ Survivor A.log s.store.durable s.acked s.inFlight := by
  have hstore : s.store = ⟨s.store.durable, []⟩ := by rw [← h.durable hrunning]
  exact ⟨hstore, h.image _ (by rw [hstore]; exact Store.isImage_mk_nil.mpr rfl)⟩

/-- A session whose device has one content. -/
theorem anchorInv_of_durable (hstore : s.store = ⟨m, []⟩)
    (hanchored : Anchored A m s.acked s.anchored) (hlog : Survivor A.log m s.acked s.inFlight)
    (howner : ∀ wal, s.owner = some wal → s.running = true ∧ s.inFlight = none ∧ ∃ phase records,
      wal = (recovered A.log s.acked phase).withRecords records ∧ PhaseInv A.log m s.acked phase) :
    AnchorInv s := by
  refine ⟨fun n hn => ?_, fun _ => by rw [hstore], ?_⟩
  · rw [hstore] at hn
    rw [Store.isImage_mk_nil.mp hn]
    exact ⟨hanchored, hlog⟩
  · rw [hstore]
    exact howner

/-- A session without an owner on a machine that is down. -/
theorem anchorInv_of_stopped (howner : s.owner = none) (hrunning : s.running = false)
    (h : ∀ m, s.store.IsImage m →
      Anchored A m s.acked s.anchored ∧ Survivor A.log m s.acked s.inFlight) : AnchorInv s := by
  refine ⟨h, fun hrun => ?_, fun wal hwal => ?_⟩
  · rw [hrunning] at hrun
    cases hrun
  · rw [howner] at hwal
    cases hwal

/-! ## Operations of the log -/

/-- Without faults a session with an owner is live. -/
theorem SessionInv.live_of_owner {S : WalSite} {env : Env} {s : Session S}
    (h : SessionInv env s) (henv : env.faults = false) {wal : RegistryWal S.size}
    (howner : s.owner = some wal) :
    ∃ m phase, s.store = ⟨m, []⟩ ∧ wal = recovered S s.acked phase ∧ s.inFlight = none
      ∧ PhaseInv S m s.acked phase := by
  cases h with
  | @live m ps phase h => exact ⟨m, phase, rfl, (Option.some.inj howner).symm, rfl, h⟩
  | halted hbarrier hgone hwithin hexact =>
    rw [(hgone wal howner).2] at henv
    cases henv

section

variable {op : WalOp} {r : Outcome Empty (Except RegistryWalError Unit × RegistryWal A.log.size)}

/-- What an operation of the log is for an owner with other records in memory. -/
private theorem run_recovered {records : List RegistryWalRecord}
    (hrun : op.run (wal.withRecords records) before = (r, after)) :
    (r = .stopped ∧ op.run wal before = (.stopped, after))
      ∨ ∃ r₀ kept, r = .ok (r₀.1, r₀.2.withRecords kept) ∧ op.run wal before = (.ok r₀, after) := by
  obtain ⟨keep, heq⟩ := op.run_withRecords wal records
  rw [heq] at hrun
  rcases hwal : op.run wal before with ⟨r₀ | e | _, mid⟩
  · rw [DiskM.bind_of_ok hwal] at hrun
    cases hrun
    exact Or.inr ⟨r₀, _, rfl, rfl⟩
  · exact e.elim
  · rw [DiskM.bind_of_stopped hwal] at hrun
    cases hrun
    exact Or.inl ⟨rfl, rfl⟩

/-- An operation of the log leaves the slots alone. -/
private theorem anchored_of_run (h : Anchored A m ps floor) (hrun : op.run wal before = (r, after))
    (hdevice : wal.device = A.log.device) (hstore : before.store = ⟨m, []⟩)
    (henv : before.Meets .faultless) (hm : after.store.IsImage m') : Anchored A m' ps floor := by
  have hconfined : Confined (InLog A) (op.run wal) := by
    refine WalOp.confined_run (fun lba hlba => ?_) op
    rw [hdevice] at hlba ⊢
    exact ⟨lba, hlba, rfl⟩
  obtain ⟨-, hoff⟩ := hconfined .faultless ⟨m, []⟩ before hstore henv
  refine h.congr fun slot hslot lba hlba => ?_
  have haddress := AnchorSite.not_inLog_of_inSlots (A := A) ⟨slot, hslot, lba, hlba, rfl⟩
  rw [hrun] at hoff
  rcases r with r | e | _
  · exact Store.WithinOff.eq hoff hm haddress
  · exact e.elim
  · exact Store.WithinOff.eq hoff hm haddress

end

section

variable (h : AnchorInv s) (op : WalOp) (howner : s.owner = some wal)
  (hstore : before.store = s.store) (henv : before.Meets .faultless)
include h howner hstore henv

theorem AnchorInv.logReturns {r : Except RegistryWalError Unit × RegistryWal A.log.size}
    (hrun : op.run wal before = (.ok r, after)) :
    AnchorInv { s with toSession := s.toSession.returned op wal r after.store } := by
  obtain ⟨hrunning, hinFlight, phase, records, rfl, hphase⟩ := h.owner wal howner
  obtain ⟨hdurable, hanchored, -⟩ := h.contents hrunning
  have hslots : ∀ n, after.store.IsImage n → Anchored A n s.acked s.anchored := fun n hn =>
    anchored_of_run hanchored hrun rfl (hstore.trans hdurable) henv hn
  rcases run_recovered hrun with ⟨hstopped, -⟩ | ⟨r₀, kept, hr, hrun₀⟩
  · cases hstopped
  cases hr
  have hpost := (preserves_op hphase op before (hstore.trans hdurable) henv).2
  rw [hrun₀] at hpost
  -- the callers know the same as those of an owner with all records in memory
  cases hresult : r₀.1 with
  | ok u =>
    simp only [Session.returned, hresult] at hpost ⊢
    obtain ⟨n, phase', hn, hwal, hnone, hphase'⟩ := SessionInv.live_of_owner hpost rfl rfl
    simp only at hn hwal hnone hphase'
    refine anchorInv_of_durable hn ?_ hphase'.survivor ?_
    · have hold := hslots n (by rw [hn]; exact Store.isImage_mk_nil.mpr rfl)
      show Anchored A n
        (s.acked ++ (op.committing (recovered A.log s.acked phase)).toList) s.anchored
      cases op.committing (recovered A.log s.acked phase) with
      | none => simpa using hold
      | some q => exact hold.append q
    · rintro _ ⟨⟩
      refine ⟨hrunning, hinFlight, phase', kept, ?_, hphase'⟩
      rw [hwal]
      rfl
  | error e =>
    simp only [Session.returned, hresult] at hpost ⊢
    obtain ⟨n, phase', hn, hwal, hnone, hphase'⟩ := SessionInv.live_of_owner hpost rfl rfl
    simp only [liveSession] at hn hwal hnone hphase'
    refine anchorInv_of_durable hn ?_ hphase'.survivor ?_
    · exact hslots n (by rw [hn]; exact Store.isImage_mk_nil.mpr rfl)
    · rintro _ ⟨⟩
      refine ⟨hrunning, ?_, phase', kept, ?_, hphase'⟩
      · rw [hinFlight]
        exact hnone
      · rw [hwal]

theorem AnchorInv.logStops (hrun : op.run wal before = (.stopped, after)) :
    AnchorInv { s with toSession := s.toSession.stopped op wal after.store, running := false } := by
  obtain ⟨hrunning, hinFlight, phase, records, rfl, hphase⟩ := h.owner wal howner
  obtain ⟨hdurable, hanchored, -⟩ := h.contents hrunning
  refine anchorInv_of_stopped rfl rfl fun n hn => ⟨?_, ?_⟩
  · exact anchored_of_run hanchored hrun rfl (hstore.trans hdurable) henv hn
  · rcases run_recovered hrun with ⟨-, hrun₀⟩ | ⟨r₀, kept, hr, -⟩
    · have hpost := (preserves_op hphase op before (hstore.trans hdurable) henv).2
      rw [hrun₀] at hpost
      have hsurvivor := SessionInv.survivor hpost hn
      simp only [Session.stopped, liveSession] at hsurvivor
      show Survivor A.log n s.acked ((op.committing _).or s.inFlight)
      rw [hinFlight]
      exact hsurvivor
    · cases hr

end

/-! ## Anchor updates -/

/-- An update of a settled owner keeps the log.  It moves the anchors to its end, or is
stopped and leaves anchors from the last update on. -/
theorem AnchorInv.runs_advance (h : AnchorInv s)
    {verified : VerifiedLog} {update : WalSnapshotAnchorUpdate} (howner : s.owner = some wal)
    (hverified : wal.intoVerifiedDevice = some verified)
    (hadmission : admitVerifiedWal A.snapshots.store A.snapshots.device verified
      (readAll s.store.visible) = .ok update) :
    s.running = true ∧ s.inFlight = none
      ∧ verified = ⟨logEnd A.log s.acked, A.log.frameEnds 0 s.acked⟩
      ∧ Settled A.log s.store.durable s.acked ∧ Runs .faultless s.store update.advance
        (fun r d => r.1 = .ok () ∧ r.2.intoContinuation = some verified ∧ ∃ n, d = ⟨n, []⟩
          ∧ Anchored A n s.acked s.acked.length ∧ LogAgrees A.log s.store.durable n)
        (fun _ _ => False) (fun d => ∀ n, d.IsImage n →
          Anchored A n s.acked s.anchored ∧ LogAgrees A.log s.store.durable n) := by
  obtain ⟨hrunning, hinFlight, phase, records, rfl, hphase⟩ := h.owner wal howner
  obtain ⟨hstore, hanchored, -⟩ := h.contents hrunning
  -- only a settled owner hands over the end of its log
  obtain rfl : phase = .ready := by
    cases phase with
    | ready => rfl
    | _ => cases hverified
  obtain rfl := Option.some.inj hverified
  have hsettled : Settled A.log s.store.durable s.acked := hphase
  rw [hstore] at hadmission
  obtain ⟨plan, source, hadvances, rfl⟩ := hanchored.admitVerifiedWal hadmission
  refine ⟨hrunning, hinFlight, rfl, hsettled, ?_⟩
  have hadvance : Runs .faultless ⟨s.store.durable, []⟩ (A.update
      ⟨logEnd A.log s.acked, A.log.frameEnds 0 s.acked⟩ plan source).advance _ _ _ :=
    Fs.runs_advance hadvances rfl hsettled.room
  have hruns := hadvance.and (confined_advance hadvances .faultless ⟨s.store.durable, []⟩)
  rw [← hstore] at hruns
  have hlog : ∀ d n, Store.WithinOff (InSlots A.snapshots) s.store d → d.IsImage n →
      LogAgrees A.log s.store.durable n := by
    intro d n hoff hn
    rw [hstore] at hoff
    exact logAgrees_of_off_slots fun _ => hoff.eq hn
  refine hruns.weaken ?_ (fun _ _ h => h.1) fun d hd n hn => ⟨hd.1 n hn, hlog d n hd.2 hn⟩
  rintro ⟨r, update'⟩ d ⟨⟨hok, hcontinuation, n, rfl, hend⟩ | ⟨hfault, -⟩, hoff⟩
  · exact ⟨hok, hcontinuation, n, rfl, hend, hlog _ n hoff (Store.isImage_mk_nil.mpr rfl)⟩
  · cases hfault

/-! ## Checkpoints -/

section

variable {before after : Machine (Sector A.snapshots.size)} (hstore : before.store = ⟨m, []⟩)
  (henv : before.Meets .faultless) (hrun : attempt.run A.snapshots before = (r, after))
include hstore henv hrun

/-- A commit on a chosen slot leaves a chosen slot with the same anchor. -/
private theorem checkpoint_of_chosen {newest : SlotReadPlan} {payload : List UInt8}
    {current : WalSnapshotManifest} (hchosen : Chosen A.snapshots m newest payload)
    (hwal : newest.wal = some current) (hnames : Names A.log ps current.anchor)
    (hfloor : floor ≤ current.highWaterSerial) :
    (∀ n, after.store.IsImage n → Anchored A n ps floor ∧ LogAgrees A.log m n)
      ∧ (r ≠ .stopped → after.store.pending = []) := by
  have hshows : Shows A.snapshots before.store.visible (some (newest, payload)) := by
    rw [hstore]
    exact hchosen
  have hin : InFormat .wal (some (newest, payload)) := ⟨_, rfl, by rw [hwal]; rfl⟩
  rcases run_spec hshows hin nofun henv with ⟨r', after', hrun', -, -, hunwritten⟩ |
    ⟨plan, mid, r', after', -, hrun', hready, himages, hok, herr⟩ <;>
    obtain ⟨rfl, rfl⟩ := Prod.mk.injEq .. ▸ hrun.symm.trans hrun'
  · -- refused: the device is as it was
    have hsame : after.store = ⟨m, []⟩ := (hunwritten.eq rfl (by rw [hstore])).trans hstore
    rw [hsame]
    refine ⟨fun n hn => ?_, fun _ => rfl⟩
    rw [Store.isImage_mk_nil.mp hn]
    exact ⟨.chosen hchosen hwal hnames hfloor, fun _ _ => rfl⟩
  · have hprecedes := hready.follows.wal newest rfl fun _ => by rw [hwal]; rfl
    rw [hwal] at hprecedes
    refine ⟨fun n hn => ⟨?_, ?_⟩, fun hreturns => ?_⟩
    · rcases (himages n hn).2 with hold | hnew
      · exact .chosen (show Chosen A.snapshots n newest payload from hold) hwal hnames hfloor
      · cases hnext : attempt.wal with
        | none =>
          rw [hnext] at hprecedes
          exact hprecedes.elim
        | some manifest =>
          rw [hnext] at hprecedes
          have hanchor : manifest.anchor = current.anchor := hprecedes.1
          have hserial : manifest.highWaterSerial = current.highWaterSerial :=
            congrArg WalSnapshotAnchor.serial hanchor
          exact .chosen (show Chosen A.snapshots n _ _ from hnew) hnext (hanchor ▸ hnames)
            (hserial ▸ hfloor)
    · refine logAgrees_of_off_slots fun address haddress => ?_
      rw [(himages n hn).1 address fun hslot => haddress ⟨_, hready.follows.slot_le, hslot⟩, hstore]
      rfl
    · rcases r with generation | e | _
      · exact (hok generation rfl).2.1
      · have := herr e rfl
        cases this
      · exact absurd rfl hreturns

/-- No commit is admitted while the anchors differ. -/
private theorem checkpoint_of_paired {plan : ℕ → SlotReadPlan} {manifest : ℕ → WalSnapshotManifest}
    (h : Paired A m ps floor plan manifest)
    (hdiffer : (manifest 0).anchor ≠ (manifest 1).anchor) : after.store = ⟨m, []⟩ := by
  obtain ⟨slot, hslot, hlt⟩ := h.exists_newer
  obtain ⟨payload, hholds⟩ := h.holds slot hslot
  have hnewest : Newest A.snapshots m (plan slot) payload :=
    ⟨hholds, some _, h.other_header hslot, by rintro _ ⟨⟩; exact hlt⟩
  have hvisible : before.store.visible = m := by rw [hstore]; rfl
  have hlatest : A.snapshots.store.latestCommitSlot A.snapshots.device
      (readAll before.store.visible) = .ok (some (plan slot)) := by
    rw [hvisible]
    exact hnewest.latestCommitSlot
  have hlatestHolds : ∀ newest, some (plan slot) = some newest →
      ∃ payload, Holds A.snapshots before.store.visible newest payload := by
    rintro _ ⟨⟩
    rw [hvisible]
    exact ⟨payload, hholds⟩
  obtain ⟨-, hadmission⟩ := runs_admission attempt hlatest hlatestHolds before rfl henv
  have hunwritten : ∀ d, Unwritten .faultless before.store d → d = ⟨m, []⟩ := fun d hd =>
    (hd.eq rfl (by rw [hstore])).trans hstore
  rcases ha : attempt.admission A.snapshots before with ⟨commit | e | _, mid⟩ <;>
    rw [ha] at hadmission
  · -- the manifest would have to follow both slots
    exfalso
    obtain ⟨-, hheld, hfollows, -⟩ := hadmission
    rw [hvisible] at hheld
    cases hwal : attempt.wal with
    | none =>
      have hprecedes := hfollows.wal _ rfl fun _ => by rw [h.wal slot hslot]; rfl
      rw [h.wal slot hslot, hwal] at hprecedes
      exact hprecedes
    | some wal =>
      rw [hwal] at hheld
      have hanchor : ∀ slot ≤ 1, wal.anchor = (manifest slot).anchor := by
        intro slot hslot
        obtain ⟨payload, hholds⟩ := h.holds slot hslot
        have hprecedes := hheld wal rfl _ payload hholds (by rw [h.wal slot hslot]; rfl)
        rw [h.wal slot hslot] at hprecedes
        exact hprecedes.1
      exact hdiffer ((hanchor 0 (Nat.zero_le _)).symm.trans (hanchor 1 le_rfl))
  · rw [CommitAttempt.run_eq, DiskM.bind_of_err ha] at hrun
    cases hrun
    exact hunwritten _ hadmission
  · rw [CommitAttempt.run_eq, DiskM.bind_of_stopped ha] at hrun
    cases hrun
    exact hunwritten _ hadmission

/-- A checkpoint keeps the anchors and the log. -/
theorem Anchored.checkpoint (h : Anchored A m ps floor) :
    (∀ n, after.store.IsImage n → Anchored A n ps floor ∧ LogAgrees A.log m n)
      ∧ (r ≠ .stopped → after.store.pending = []) := by
  cases h with
  | chosen hchosen hwal hnames hfloor =>
    exact checkpoint_of_chosen hstore henv hrun hchosen hwal hnames hfloor
  | @paired plan manifest h =>
    by_cases hanchor : (manifest 0).anchor = (manifest 1).anchor
    · obtain ⟨slot, hslot, payload, hchosen⟩ := h.chosen hanchor
      exact checkpoint_of_chosen hstore henv hrun hchosen (h.wal slot hslot) (h.names slot hslot)
        (h.floor_le slot hslot)
    · rw [checkpoint_of_paired hstore henv hrun h hanchor]
      refine ⟨fun n hn => ?_, fun _ => rfl⟩
      rw [Store.isImage_mk_nil.mp hn]
      exact ⟨.paired h, fun _ _ => rfl⟩

end

end UserspaceNtos.Fs
