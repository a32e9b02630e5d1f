import UserspaceNtos.Fs.WalCrash

/-!
# Runs of the log across power failures

A session is a device, the owner that lives on it, and what the callers of the
owner know: the payloads whose `commit` returned `Ok`, and the payload whose
`commit` has started and did not return `Ok`.  A step is one operation that
returns, one operation that is stopped inside, or a power failure followed by a
successful `recover`.  `sessionInv_of_reachable` is the invariant of all runs.

What a `recover` after any further power failure finds is said at the end: if it
succeeds, its records are the committed ones.  When it fails is the subject of
`Fs.WalTear`.
-/

namespace UserspaceNtos.Fs

open CachedStorage RegistryWal List

/-- The operations of the owner. -/
inductive WalOp where
  | begin (payload : List UInt8)
  | cancelPending
  | prepare
  | commit
  | abortPrepared
  | clearRecoveredTail
  deriving DecidableEq, Repr

/-- What an operation does. -/
def WalOp.run {size : ℕ} (op : WalOp) (wal : RegistryWal size) : Action size :=
  match op with
  | .begin payload => pure (wal.begin payload)
  | .cancelPending => pure wal.cancelPending
  | .prepare => wal.prepare
  | .commit => wal.commit
  | .abortPrepared => wal.abortPrepared
  | .clearRecoveredTail => wal.clearRecoveredTail

/-- The payload whose marker the operation writes. -/
def WalOp.committing {size : ℕ} (op : WalOp) (wal : RegistryWal size) : Option (List UInt8) :=
  match op, wal.phase with
  | .commit, .prepared pending => some pending.payload
  | _, _ => none

/-- A device with its owner, the payloads whose `commit` returned `Ok` and the payload
whose `commit` has started and did not return `Ok`. -/
structure Session (S : WalSite) where
  store : Store (Sector S.size)
  owner : Option (RegistryWal S.size)
  acked : List (List UInt8)
  inFlight : Option (List UInt8)

namespace Session

variable {S : WalSite}

/-- The operation `op` of the owner `wal` returned `r` and left the device `d`. -/
def returned (s : Session S) (op : WalOp) (wal : RegistryWal S.size)
    (r : Except RegistryWalError Unit × RegistryWal S.size) (d : Store (Sector S.size)) :
    Session S :=
  match r.1 with
  | .ok () => ⟨d, some r.2, s.acked ++ (op.committing wal).toList, s.inFlight⟩
  | .error _ => ⟨d, some r.2, s.acked, (op.committing wal).or s.inFlight⟩

/-- The operation `op` of the owner `wal` was stopped inside and left the device `d`. -/
def stopped (s : Session S) (op : WalOp) (wal : RegistryWal S.size)
    (d : Store (Sector S.size)) : Session S :=
  ⟨d, none, s.acked, (op.committing wal).or s.inFlight⟩

/-- The contents after a power failure that keeps the accepted writes picked by `kept`. -/
def image (s : Session S) (kept : ℕ × Sector S.size → Bool) : S.Contents :=
  (s.store.cut kept).durable

theorem isImage_image (s : Session S) (kept : ℕ × Sector S.size → Bool) :
    s.store.IsImage (s.image kept) :=
  Store.within_cut kept s.store _ (Store.isImage_mk_nil.mpr rfl)

/-- One step of a run on a device of the kind `env`. -/
inductive Step (env : Env) : Session S → Session S → Prop
  | returns {s : Session S} {wal : RegistryWal S.size} (op : WalOp)
      {before after : Machine (Sector S.size)}
      {r : Except RegistryWalError Unit × RegistryWal S.size} (howner : s.owner = some wal)
      (hstore : before.store = s.store) (henv : before.Meets env)
      (hrun : op.run wal before = (.ok r, after)) : Step env s (s.returned op wal r after.store)
  | stops {s : Session S} {wal : RegistryWal S.size} (op : WalOp)
      {before after : Machine (Sector S.size)} (howner : s.owner = some wal)
      (hstore : before.store = s.store) (henv : before.Meets env)
      (hrun : op.run wal before = (.stopped, after)) : Step env s (s.stopped op wal after.store)
  | reboot {s : Session S} {wal : RegistryWal S.size} (kept : ℕ × Sector S.size → Bool)
      (hrecover : S.recover (s.image kept) = .ok wal) :
      Step env s ⟨s.store.cut kept, some wal, wal.records.map RegistryWalRecord.payload, none⟩

/-- An operation during which nothing goes wrong. -/
theorem Step.completes {env : Env} {s s' : Session S} {wal : RegistryWal S.size} (op : WalOp)
    {d : Store (Sector S.size)} {r : Except RegistryWalError Unit × RegistryWal S.size}
    (howner : s.owner = some wal) (hrun : op.run wal ⟨s.store, [], []⟩ = (.ok r, ⟨d, [], []⟩))
    (hs' : s.returned op wal r d = s') : Step env s s' :=
  hs' ▸ .returns op howner rfl (Machine.meets_nil _ _) hrun

/-- The sessions of all runs that start with `recover` on a blank range. -/
inductive Reachable (S : WalSite) (env : Env) : Session S → Prop
  | start {m : S.Contents} {wal : RegistryWal S.size} (hblank : ZeroFrom S m 0)
      (hrecover : S.recover m = .ok wal) : Reachable S env ⟨⟨m, []⟩, some wal, [], none⟩
  | step {s s' : Session S} : Reachable S env s → Step env s s' → Reachable S env s'

end Session

variable {S : WalSite} {env : Env} {wal : RegistryWal S.size} {s : Session S}

/-! ## The invariant -/

/-- What the contents are in each phase of a live owner of the records `ps`. -/
def PhaseInv (S : WalSite) (m : S.Contents) (ps : List (List UInt8)) : WalPhase → Prop
  | .ready => Settled S m ps
  | .recoveredUncommitted sectors => ∃ q, sectors = S.chunks q ∧ Unmarked S m ps q
  | .pendingPrepare pending =>
    pending = reservation S ps pending.payload ∧ Settled S m ps ∧ Admitted S ps pending.payload
  | .prepared pending =>
    pending = reservation S ps pending.payload ∧ Prepared S m ps pending.payload
  | .uncertain => False

/-- A session is live, with everything durable and an owner that knows the contents,
or halted in a barrier, with an owner that is gone or, after a fault, refuses every
operation. -/
inductive SessionInv (env : Env) : Session S → Prop
  | live {m : S.Contents} {ps : List (List UInt8)} {phase : WalPhase}
      (h : PhaseInv S m ps phase) :
      SessionInv env ⟨⟨m, []⟩, some (recovered S ps phase), ps, none⟩
  | halted {s : Session S} {m : S.Contents} {ws : List (ℕ × Sector S.size)}
      (hbarrier : Barrier S m s.acked s.inFlight ws)
      (howner : ∀ wal, s.owner = some wal → wal.phase = .uncertain ∧ env.faults = true)
      (hwithin : (Store.mk m (S.device.addressed ws)).Within s.store)
      (hexact : env.faults = false → ∃ vs, vs <+: S.device.addressed ws ∧ s.store = ⟨m, vs⟩) :
      SessionInv env s

variable {m : S.Contents} {ps : List (List UInt8)} {q : List UInt8} {phase : WalPhase}
  {inFlight : Option (List UInt8)} {ws : List (ℕ × Sector S.size)} {d : Store (Sector S.size)}

/-- A barrier returns with its batch durable; otherwise the session is halted in it. -/
theorem Barrier.runs (hbarrier : Barrier S m ps inFlight ws)
    (hlt : ∀ w ∈ ws, w.1 < S.device.sectors) : Runs env ⟨m, []⟩ (writeBarrier S.device ws)
      (fun _ d => d = ⟨overwrite m (S.device.addressed ws), []⟩)
      (fun _ d => ∀ wal, wal.phase = .uncertain → SessionInv env ⟨d, some wal, ps, inFlight⟩)
      (fun d => SessionInv env ⟨d, none, ps, inFlight⟩) := by
  rw [writeBarrier, BlockRange.writeLoop_eq_writeEach S.addressable hlt]
  refine Runs.mapErr ((runs_barrier _ _).weaken (fun _ _ h => h) ?_ ?_)
  · rintro e d ⟨hfault, -, hwithin⟩ wal hphase
    refine .halted hbarrier ?_ hwithin fun hfaultless => ?_
    · rintro wal' ⟨⟩
      exact ⟨hphase, hfault⟩
    · rw [hfault] at hfaultless
      cases hfaultless
  · rintro d ⟨-, vs, hvs, rfl⟩
    refine .halted hbarrier ?_ ?_ fun _ => ⟨vs, hvs, rfl⟩
    · rintro wal ⟨⟩
    · exact (Store.mk m []).within_writeAll_of_isPrefix hvs

/-! ## One operation keeps the invariant -/

/-- The session of a live owner. -/
def liveSession (S : WalSite) (m : S.Contents) (ps : List (List UInt8)) (phase : WalPhase) :
    Session S :=
  ⟨⟨m, []⟩, some (recovered S ps phase), ps, none⟩

/-- The operation keeps the invariant, whether it returns or is stopped. -/
def Preserves (env : Env) (m : S.Contents) (ps : List (List UInt8)) (phase : WalPhase)
    (op : WalOp) : Prop :=
  Runs env ⟨m, []⟩ (op.run (recovered S ps phase))
    (fun r d => SessionInv env ((liveSession S m ps phase).returned op (recovered S ps phase) r d))
    (fun _ _ => False)
    (fun d => SessionInv env ((liveSession S m ps phase).stopped op (recovered S ps phase) d))

/-- An operation that is refused changes nothing. -/
theorem preserves_of_refused (h : PhaseInv S m ps phase) {op : WalOp} {e : RegistryWalError}
    (hrun : op.run (recovered S ps phase) = pure (.error e, recovered S ps phase))
    (hcommitting : op.committing (recovered S ps phase) = none) : Preserves env m ps phase op := by
  rw [Preserves, hrun]
  refine runs_pure ?_
  rw [Session.returned, hcommitting]
  exact .live h

/-- An owner that is ready accepts exactly the payloads that have room. -/
theorem begin_recovered (hsettled : Settled S m ps) (payload : List UInt8) :
    (∃ e, (recovered S ps .ready).begin payload = (.error e, recovered S ps .ready))
      ∨ Admitted S ps payload ∧ (recovered S ps .ready).begin payload
          = (.ok (), recovered S ps (.pendingPrepare (reservation S ps payload))) := by
  unfold begin
  simp only [recovered_cursor, recovered_nextSerial]
  by_cases hlong : 2 ^ 32 ≤ payload.length
  · exact Or.inl ⟨_, if_pos hlong⟩
  rw [if_neg hlong]
  by_cases hempty : payload.length = 0
  · exact Or.inl ⟨_, if_pos hempty⟩
  rw [if_neg hempty]
  have hvalid : ValidPayload payload := ⟨fun h => hempty (h ▸ rfl), Nat.lt_of_not_le hlong⟩
  rw [payloadSectors_eq hvalid]
  simp only
  rcases hstop : (checkedAdd (S.framesEnd 0 ps) (S.chunks payload)).bind (checkedAdd · 2) with
    _ | stop
  · exact Or.inl ⟨_, rfl⟩
  · have hval : stop = S.framesEnd 0 ps + S.chunks payload + 2 := by
      obtain ⟨sum, hsum, hstop⟩ := Option.bind_eq_some_iff.mp hstop
      rw [(checkedAdd_eq_some hstop).1, (checkedAdd_eq_some hsum).1]
    by_cases hroom : S.device.sectors < stop
    · exact Or.inl ⟨_, if_pos hroom⟩
    · have hlen := hsettled.length_lt
      have haddr := S.addressable
      have hends := add_length_le_framesEnd (S := S) 0 ps
      unfold BlockRange.Addressable at haddr
      refine Or.inr ⟨⟨hvalid, by omega⟩, (if_neg hroom).trans ?_⟩
      rw [checkedAdd_of_lt (by omega)]
      rfl

theorem SessionInv.live_nil (h : PhaseInv S m ps phase) :
    SessionInv env ⟨⟨m, []⟩, some (recovered S ps phase), ps ++ [], none⟩ := by
  rw [append_nil]
  exact .live h

theorem preserves_begin (h : PhaseInv S m ps phase) (payload : List UInt8) :
    Preserves env m ps phase (.begin payload) := by
  cases phase with
  | ready =>
    rcases begin_recovered h payload with ⟨e, hrun⟩ | ⟨hadmitted, hrun⟩
    · exact preserves_of_refused h (congrArg pure hrun) rfl
    · rw [Preserves, WalOp.run, hrun]
      exact runs_pure (.live_nil ⟨rfl, h, hadmitted⟩)
  | recoveredUncommitted | pendingPrepare | prepared => exact preserves_of_refused h rfl rfl
  | uncertain => exact h.elim

theorem preserves_cancelPending (h : PhaseInv S m ps phase) :
    Preserves env m ps phase .cancelPending := by
  cases phase with
  | pendingPrepare pending =>
    have hready : PhaseInv S m ps .ready := h.2.1
    exact runs_pure (.live_nil hready)
  | ready | recoveredUncommitted | prepared => exact preserves_of_refused h rfl rfl
  | uncertain => exact h.elim

theorem preserves_prepare (h : PhaseInv S m ps phase) : Preserves env m ps phase .prepare := by
  cases phase with
  | pendingPrepare pending =>
    obtain ⟨hpending, hsettled, hadmitted⟩ := h
    have hbarrier := Barrier.prepare _ hsettled hadmitted
    have hlt : ∀ w ∈ prepareBatch S ps pending.payload, w.1 < S.device.sectors := by
      intro w hw
      have hroom := hadmitted.room
      rcases mem_prepareBatch.mp hw with ⟨heq, -⟩ | ⟨i, hi, heq, -⟩ <;> omega
    have hwrites : (recovered S ps (.pendingPrepare pending)).prepareWrites pending
        = prepareBatch S ps pending.payload := by
      rw [hpending]
      rfl
    rw [Preserves, WalOp.run, prepare]
    simp only [recovered_phase, hwrites]
    refine runs_attempt_bind ((hbarrier.runs hlt).weaken ?_ (fun _ _ h => runs_pure (h _ rfl))
      fun _ h => h)
    rintro _ d rfl
    exact runs_pure (.live_nil ⟨hpending, prepared_of_prepareBatch hsettled hadmitted⟩)
  | ready | recoveredUncommitted | prepared => exact preserves_of_refused h rfl rfl
  | uncertain => exact h.elim

theorem preserves_commit (h : PhaseInv S m ps phase) : Preserves env m ps phase .commit := by
  cases phase with
  | prepared pending =>
    obtain ⟨hpending, hprepared⟩ := h
    have hbarrier := Barrier.commit _ hprepared
    have hlt : ∀ w ∈ commitBatch S ps pending.payload, w.1 < S.device.sectors := by
      intro w hw
      have hroom := hprepared.admitted.room
      rw [mem_singleton.mp hw]
      show S.framesEnd 0 ps + 1 + S.chunks pending.payload < S.device.sectors
      omega
    have hwrites : (recovered S ps (.prepared pending)).commitWrites pending
        = commitBatch S ps pending.payload := by
      rw [hpending]
      rfl
    have hpublished : (recovered S ps (.prepared pending)).published pending
        = recovered S (ps ++ [pending.payload]) .ready := by
      rw [hpending, recovered, recovered, framesEnd_append, frameEnds_append, numbered_append,
        length_append, Nat.add_comm 1]
      rfl
    rw [Preserves, WalOp.run, commit]
    simp only [recovered_phase, hwrites, hpublished]
    refine runs_attempt_bind ((hbarrier.runs hlt).weaken ?_ (fun _ _ h => runs_pure (h _ rfl))
      fun _ h => h)
    rintro _ d rfl
    refine runs_pure ?_
    refine .live (settled_of_commit hprepared ?_ ?_)
    · exact partlyWritten_of_isImage (Store.mk m _).isImage_visible
    · exact sector_overwrite_of_mem mem_cons_self fun w hw _ =>
        congrArg Prod.snd (mem_singleton.mp hw)
  | ready | recoveredUncommitted | pendingPrepare => exact preserves_of_refused h rfl rfl
  | uncertain => exact h.elim

/-- Clearing an unmarked frame, as `abort_prepared` and `clear_recovered_tail` do. -/
private theorem preserves_of_clearAt (hunmarked : Unmarked S m ps q) {op : WalOp}
    (hrun : op.run (recovered S ps phase) = (recovered S ps phase).clearAt (S.chunks q))
    (hcommitting : op.committing (recovered S ps phase) = none) : Preserves env m ps phase op := by
  have hroom := hunmarked.admitted.room
  have hbarrier := Barrier.clear _ hunmarked
  have hclear : ∀ w ∈ clearBatch S ps (S.chunks q), w.1 < S.device.sectors := by
    intro w hw
    have := (mem_clearBatch.mp hw).2.1
    omega
  have hheader : ∀ w ∈ clearHeaderBatch S ps, w.1 < S.device.sectors := by
    intro w hw
    rw [mem_singleton.mp hw]
    show S.framesEnd 0 ps < S.device.sectors
    omega
  have hcleared : Unmarked S
      (overwrite m (S.device.addressed (clearBatch S ps (S.chunks q)))) ps q :=
    unmarked_of_clearBatch hunmarked (partlyWritten_of_isImage (Store.mk m _).isImage_visible)
  have hzero := zeroFrom_of_clearBatch hunmarked
  have hbarrier' := Barrier.clearHeader _ hcleared hzero
  rw [Preserves, hrun]
  unfold Session.returned Session.stopped
  simp only [hcommitting]
  refine runs_attempt_bind (Runs.bind ((hbarrier.runs hclear).weaken (fun _ _ h => h)
    (fun _ _ h => runs_pure (h _ rfl)) fun _ h => h) ?_)
  rintro _ d rfl
  refine (hbarrier'.runs hheader).weaken ?_ (fun _ _ h => runs_pure (h _ rfl)) fun _ h => h
  rintro _ d rfl
  refine runs_pure (.live_nil (settled_of_clearHeader hcleared hzero ?_ ?_))
  · exact partlyWritten_of_isImage (Store.mk _ _).isImage_visible
  · exact sector_overwrite_of_mem mem_cons_self fun w hw _ =>
      congrArg Prod.snd (mem_singleton.mp hw)

section

variable (h : PhaseInv S m ps phase)
include h

theorem preserves_abortPrepared : Preserves env m ps phase .abortPrepared := by
  cases phase with
  | prepared pending =>
    obtain ⟨hpending, hprepared⟩ := h
    refine preserves_of_clearAt hprepared.toUnmarked ?_ rfl
    rw [hpending]
    rfl
  | ready | recoveredUncommitted | pendingPrepare => exact preserves_of_refused h rfl rfl
  | uncertain => exact h.elim

theorem preserves_clearRecoveredTail : Preserves env m ps phase .clearRecoveredTail := by
  cases phase with
  | recoveredUncommitted sectors =>
    obtain ⟨q, rfl, hunmarked⟩ := h
    exact preserves_of_clearAt hunmarked rfl rfl
  | ready | pendingPrepare | prepared => exact preserves_of_refused h rfl rfl
  | uncertain => exact h.elim

theorem preserves_op (op : WalOp) : Preserves env m ps phase op := by
  cases op with
  | begin payload => exact preserves_begin h payload
  | cancelPending => exact preserves_cancelPending h
  | prepare => exact preserves_prepare h
  | commit => exact preserves_commit h
  | abortPrepared => exact preserves_abortPrepared h
  | clearRecoveredTail => exact preserves_clearRecoveredTail h

/-! ## Recovery of a survivor -/

theorem PhaseInv.survivor : Survivor S m ps inFlight := by
  cases phase with
  | ready => exact .settled h
  | recoveredUncommitted sectors =>
    obtain ⟨q, -, hunmarked⟩ := h
    exact .unmarked q hunmarked
  | pendingPrepare pending => exact .settled h.2.1
  | prepared pending => exact .unmarked _ h.2.toUnmarked
  | uncertain => exact h.elim

end

/-- Every image of a session's device is a survivor of its acknowledged records. -/
theorem SessionInv.survivor (h : SessionInv env s) {m' : S.Contents}
    (himage : s.store.IsImage m') : Survivor S m' s.acked s.inFlight := by
  cases h with
  | live h =>
    rw [Store.isImage_mk_nil] at himage
    subst himage
    exact h.survivor
  | halted hbarrier _ hwithin _ =>
    exact hbarrier.image (partlyWritten_of_isImage (hwithin m' himage))

/-- A successful recovery finds the acknowledged records, or those and the one in
flight, and an owner that knows the contents. -/
theorem Survivor.recover (h : Survivor S m ps inFlight) (hrecover : S.recover m = .ok wal) :
    ∃ ps' phase, wal = recovered S ps' phase ∧ PhaseInv S m ps' phase
      ∧ (ps' = ps ∨ ∃ q, inFlight = some q ∧ ps' = ps ++ [q]) := by
  cases h with
  | settled h =>
    rw [recover_of_settled h] at hrecover
    exact ⟨ps, .ready, (Except.ok.inj hrecover).symm, h, Or.inl rfl⟩
  | unmarked q h =>
    rw [recover_of_unmarked h] at hrecover
    exact ⟨ps, _, (Except.ok.inj hrecover).symm, ⟨q, rfl, h⟩, Or.inl rfl⟩
  | torn h =>
    rw [recover_of_torn h] at hrecover
    cases hrecover
  | landed q hq h =>
    rw [recover_of_settled h] at hrecover
    exact ⟨ps ++ [q], .ready, (Except.ok.inj hrecover).symm, h, Or.inr ⟨q, hq, rfl⟩⟩

/-! ## The log range -/

section Range

variable {size : ℕ} {P : ℕ → Prop} {wal : RegistryWal size}

private theorem confined_writeBarrier
    (h : ∀ lba < wal.device.sectors, P (wal.device.start + lba)) (ws : List (ℕ × Sector size)) :
    Confined P (writeBarrier wal.device ws) :=
  ((BlockRange.confined_writeLoop h ws).bind fun _ => confined_flush _).mapErr _

/-- An operation is a barrier, or two, and the owner it leaves. -/
private theorem confined_settle {m : DiskM (Sector size) RegistryWalError Unit}
    (hm : Confined P m) (done : Except RegistryWalError Unit × RegistryWal size)
    (failed : RegistryWalError → Except RegistryWalError Unit × RegistryWal size) : Confined P (do
      let result ← DiskM.attempt m
      match result with
      | .ok () => pure done
      | .error e => pure (failed e) : Action size) := by
  refine hm.attempt.bind fun result => ?_
  cases result with
  | ok | error => exact confined_pure _

/-- The operations write to the range of the log only. -/
theorem WalOp.confined_run (h : ∀ lba < wal.device.sectors, P (wal.device.start + lba))
    (op : WalOp) : Confined P (op.run wal) := by
  have hclear : ∀ sectors, Confined P (wal.clearAt sectors) := fun sectors =>
    confined_settle ((confined_writeBarrier h _).bind fun _ => confined_writeBarrier h _) _ _
  cases op with
  | begin | cancelPending => exact confined_pure _
  | prepare | commit =>
    rw [WalOp.run]
    first | rw [RegistryWal.prepare] | rw [RegistryWal.commit]
    split
    · exact confined_pure _
    · exact confined_settle (confined_writeBarrier h _) _ _
    · exact confined_pure _
  | abortPrepared | clearRecoveredTail =>
    rw [WalOp.run]
    first | rw [RegistryWal.abortPrepared] | rw [RegistryWal.clearRecoveredTail]
    split
    · exact confined_pure _
    · exact hclear _
    · exact confined_pure _

end Range

/-- The two contents have the same log range. -/
def LogAgrees (S : WalSite) (m m' : S.Contents) : Prop :=
  ∀ lba < S.device.sectors, S.sector m' lba = S.sector m lba

namespace LogAgrees

variable {m' : S.Contents} (hagrees : LogAgrees S m m')

include hagrees

theorem zeroFrom_iff {lba : ℕ} : ZeroFrom S m' lba ↔ ZeroFrom S m lba := by
  constructor
  · intro h i hi hlt
    rw [← hagrees i hlt]
    exact h i hi hlt
  · intro h i hi hlt
    rw [hagrees i hlt]
    exact h i hi hlt

theorem committedPrefix (h : CommittedPrefix S m ps) : CommittedPrefix S m' ps :=
  h.congr fun i hi => hagrees i (hi.trans_le h.room)

theorem settled (h : Settled S m ps) : Settled S m' ps :=
  ⟨hagrees.committedPrefix h.toCommittedPrefix, hagrees.zeroFrom_iff.mpr h.blank⟩

theorem unmarked (h : Unmarked S m ps q) : Unmarked S m' ps q where
  toCommittedPrefix := hagrees.committedPrefix h.toCommittedPrefix
  admitted := h.admitted
  header := by
    have hroom := h.admitted.room
    rw [hagrees _ (by omega), h.header]
  blank := hagrees.zeroFrom_iff.mpr h.blank

theorem prepared (h : Prepared S m ps q) : Prepared S m' ps q where
  toUnmarked := hagrees.unmarked h.toUnmarked
  chunk := by
    intro i hi
    have hroom := h.admitted.room
    rw [hagrees _ (by omega), h.chunk i hi]

theorem torn (h : Torn S m ps) : Torn S m' ps where
  toCommittedPrefix := hagrees.committedPrefix h.toCommittedPrefix
  lt := h.lt
  hole := by rw [hagrees _ h.lt, h.hole]
  remains := fun hzero => h.remains (hagrees.zeroFrom_iff.mp hzero)

theorem phaseInv (h : PhaseInv S m ps phase) : PhaseInv S m' ps phase := by
  cases phase with
  | ready => exact hagrees.settled h
  | recoveredUncommitted sectors =>
    obtain ⟨q, hsectors, hunmarked⟩ := h
    exact ⟨q, hsectors, hagrees.unmarked hunmarked⟩
  | pendingPrepare pending => exact ⟨h.1, hagrees.settled h.2.1, h.2.2⟩
  | prepared pending => exact ⟨h.1, hagrees.prepared h.2⟩
  | uncertain => exact h

theorem survivor (h : Survivor S m ps inFlight) : Survivor S m' ps inFlight := by
  cases h with
  | settled h => exact .settled (hagrees.settled h)
  | unmarked q h => exact .unmarked q (hagrees.unmarked h)
  | torn h => exact .torn (hagrees.torn h)
  | landed q hq h => exact .landed q hq (hagrees.settled h)

end LogAgrees

/-! ## Whole runs -/

/-- An owner in doubt refuses every operation. -/
theorem run_of_uncertain (h : wal.phase = .uncertain) (op : WalOp) :
    (∃ e, op.run wal = pure (.error e, wal)) ∧ op.committing wal = none := by
  cases op <;>
    simp only [WalOp.run, WalOp.committing, begin, cancelPending,
      prepare, commit, abortPrepared,
      clearRecoveredTail, h] <;>
    exact ⟨⟨_, rfl⟩, trivial⟩

theorem SessionInv.step {s' : Session S} (h : SessionInv env s) (hstep : Session.Step env s s') :
    SessionInv env s' := by
  cases hstep with
  | @returns wal op before after r howner hstore henv hrun =>
    cases h with
    | live hphase =>
      cases howner
      have hpost := (preserves_op hphase op before hstore henv).2
      rw [hrun] at hpost
      exact hpost
    | halted hbarrier hgone hwithin hexact =>
      obtain ⟨⟨e, hpure⟩, hcommitting⟩ := run_of_uncertain (hgone wal howner).1 op
      rw [hpure] at hrun
      cases hrun
      rw [Session.returned, hcommitting, hstore]
      exact .halted hbarrier (fun w hw => hgone w (howner.trans hw)) hwithin hexact
  | @stops wal op before after howner hstore henv hrun =>
    cases h with
    | live hphase =>
      cases howner
      have hpost := (preserves_op hphase op before hstore henv).2
      rw [hrun] at hpost
      exact hpost
    | halted hbarrier hgone hwithin hexact =>
      obtain ⟨⟨e, hpure⟩, -⟩ := run_of_uncertain (hgone wal howner).1 op
      rw [hpure] at hrun
      cases hrun
  | @reboot wal kept hrecover =>
    obtain ⟨ps', phase, rfl, hphase, -⟩ := (h.survivor (s.isImage_image kept)).recover hrecover
    rw [recovered_records, numbered_payloads]
    exact .live hphase

theorem settled_nil_of_zeroFrom (h : ZeroFrom S m 0) : Settled S m [] :=
  ⟨⟨trivial, Nat.zero_le _, fun _ hp => absurd hp not_mem_nil⟩, h⟩

/-- The invariant holds in every session of every run. -/
theorem sessionInv_of_reachable (h : Session.Reachable S env s) : SessionInv env s := by
  induction h with
  | start hblank hrecover =>
    have hsettled := settled_nil_of_zeroFrom hblank
    rw [recover_of_settled hsettled] at hrecover
    cases hrecover
    exact .live hsettled
  | step _ hstep ih => exact ih.step hstep

/-- Whatever a run did and wherever the power fails, a `recover` that succeeds finds
the payloads whose `commit` returned `Ok`, in order and with the serials from one
on, and at most the one payload more whose `commit` was under way. -/
theorem recovered_records_are_committed {s : Session S} (h : Session.Reachable S env s)
    (kept : ℕ × Sector S.size → Bool) {wal : RegistryWal S.size}
    (hrecover : S.recover (s.image kept) = .ok wal) :
    wal.records = numbered 1 s.acked
      ∨ ∃ q, s.inFlight = some q ∧ wal.records = numbered 1 (s.acked ++ [q]) := by
  have hsurvivor := (sessionInv_of_reachable h).survivor (s.isImage_image kept)
  obtain ⟨ps', phase, rfl, -, hps⟩ := hsurvivor.recover hrecover
  rcases hps with rfl | ⟨q, hq, rfl⟩
  · exact Or.inl rfl
  · exact Or.inr ⟨q, hq, rfl⟩

/-! A log range of eight sectors. -/

/-- The first eight sectors of a device with sectors of 512 bytes. -/
def smallSite : WalSite where
  size := 512
  device := ⟨0, 8⟩
  incarnation := 77
  headerBytes_le := by decide
  three_le_sectors := by decide
  incarnation_ne_zero := by decide
  incarnation_lt := by decide
  addressable := by
    unfold BlockRange.Addressable
    decide
  batch_lt := by decide

/-- A device that was never written. -/
def blankContents (S : WalSite) : S.Contents := fun _ => Sector.zero S.size

theorem zeroFrom_blankContents (S : WalSite) (lba : ℕ) : ZeroFrom S (blankContents S) lba :=
  fun _ _ _ => rfl

/-- A record of one byte is reserved. -/
theorem reachable_begun (env : Env) :
    Session.Reachable smallSite env (liveSession smallSite (blankContents smallSite) []
      (.pendingPrepare (reservation smallSite [] [1]))) := by
  have hblank := zeroFrom_blankContents smallSite 0
  exact .step (.start hblank (recover_of_settled (settled_nil_of_zeroFrom hblank)))
    (.completes (.begin [1]) rfl rfl rfl)

theorem recovered_records_are_committed_after_one_commit :
    ∃ (s : Session smallSite) (wal : RegistryWal smallSite.size),
      Session.Reachable smallSite .faultless s ∧ s.acked = [[1]]
        ∧ smallSite.recover (s.image fun _ => true) = .ok wal ∧ wal.records = [⟨1, [1]⟩] := by
  have hprepared : Session.Reachable smallSite .faultless (liveSession smallSite
      (overwrite (blankContents smallSite) (smallSite.device.addressed
        (prepareBatch smallSite [] [1]))) [] (.prepared (reservation smallSite [] [1]))) :=
    .step (reachable_begun _) (.completes .prepare rfl rfl rfl)
  have hcommitted : Session.Reachable smallSite .faultless (liveSession smallSite
      (overwrite (overwrite (blankContents smallSite) (smallSite.device.addressed
        (prepareBatch smallSite [] [1]))) (smallSite.device.addressed
        (commitBatch smallSite [] [1]))) [[1]] .ready) :=
    .step hprepared (.completes .commit rfl rfl rfl)
  have hsettled := prepared_of_prepareBatch (q := [1])
    (settled_nil_of_zeroFrom (zeroFrom_blankContents smallSite 0)) ⟨by decide, by decide⟩
  have hrecover := recover_of_settled (settled_of_commit hsettled
    (partlyWritten_of_isImage (Store.mk _ _).isImage_visible)
    (sector_overwrite_of_mem mem_cons_self fun w hw _ =>
      congrArg Prod.snd (mem_singleton.mp hw)))
  refine ⟨_, _, hcommitted, rfl, hrecover, ?_⟩
  rcases recovered_records_are_committed hcommitted (fun _ => true) hrecover with h | ⟨q, hq, -⟩
  · exact h
  · cases hq

end UserspaceNtos.Fs
