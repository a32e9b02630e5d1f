import UserspaceNtos.Fs.SnapshotPublish

/-!
# Runs of the snapshot store across failures

A session is a device and what the callers of the store know about it: the snapshot
of the last commit that went through, and the snapshot of a commit that failed or was
stopped after it had started to write.  A step is one commit, with whatever the device
does to it, or a power failure.

`SessionShows` is the invariant: every image of the device shows one of these two
snapshots.  `readLatest_finds_committed` states it for the readers, together with
the fact that makes it work: a commit writes only to the slot that `read_latest` does
not select.
-/

namespace UserspaceNtos.Fs

open CachedStorage ConfigStore SnapshotBlockStore Option

/-- A snapshot as its caller knows it. -/
structure Version where
  generation : ℕ
  payload : List UInt8
  wal : Option WalSnapshotManifest
  deriving DecidableEq, Repr

/-- What `read_latest` returns for it. -/
def Version.snapshot (version : Version) : StoredSnapshot := ⟨version.generation, version.payload⟩

/-- What `read_latest_wal` returns for it. -/
def Version.walSnapshot (version : Version) : Option StoredWalSnapshot :=
  version.wal.map fun manifest => ⟨version.snapshot, manifest.baseSerial, manifest.anchor⟩

/-- The two ways to use a store: `commit_next` from a blank range, or
`commit_next_with_wal_manifest` from a pair of WAL slots. -/
inductive StoreFormat where
  | legacy
  | wal
  deriving DecidableEq, Repr

/-- One call of `commit_next`, or of `commit_next_with_wal_manifest`. -/
structure CommitAttempt where
  payload : List UInt8
  wal : Option WalSnapshotManifest
  fits : ∀ manifest, wal = some manifest → manifest.Fits

namespace CommitAttempt

variable (T : SnapshotSite) (attempt : CommitAttempt)

/-- The call. -/
def run : DiskM (Sector T.size) SnapshotBlockStoreError ℕ :=
  match attempt.wal with
  | none => T.store.commitNext T.device attempt.payload
  | some manifest => T.store.commitNextWithWalManifest T.device attempt.payload manifest

/-- The call up to its first write. -/
def admission : DiskM (Sector T.size) SnapshotBlockStoreError CommitPlan :=
  match attempt.wal with
  | none => T.store.admitCommit T.device attempt.payload.length none false
  | some manifest =>
    if ¬ manifest.valid then DiskM.fail .corrupt
    else if T.size < walHeaderLen then DiskM.fail .invalidGeometry
    else T.store.admitCommit T.device attempt.payload.length (some manifest) false

/-- The call from its first write on. -/
def publish (plan : CommitPlan) : DiskM (Sector T.size) SnapshotBlockStoreError ℕ :=
  publishCommit T.device plan attempt.payload.length (crc32c attempt.payload) attempt.wal
    attempt.payload

/-- The snapshot that a plan publishes. -/
def version (plan : CommitPlan) : Version := ⟨plan.generation, attempt.payload, attempt.wal⟩

theorem run_eq : attempt.run T = attempt.admission T >>= attempt.publish T := by
  unfold run admission publish
  cases attempt.wal with
  | none => rfl
  | some manifest =>
    simp only
    rw [commitNextWithWalManifest]
    split_ifs
    · rfl
    · rfl
    · rfl

end CommitAttempt

/-- A device, the snapshot of the last commit that went through, and the snapshot of a
commit that has started to write since and did not return `Ok`. -/
structure SnapshotSession (T : SnapshotSite) where
  store : Store (Sector T.size)
  current : Option Version
  inFlight : Option Version

namespace SnapshotSession

variable {T : SnapshotSite}

/-- The snapshot a commit builds on: the one whose commit failed, if its header became
visible, or else the last that went through. -/
def seen (s : SnapshotSession T) : Option Version :=
  match T.store.readLatest T.device (readAll s.store.visible) with
  | .ok (some snapshot) =>
    if s.inFlight.map Version.snapshot = some snapshot then s.inFlight else s.current
  | _ => s.current

/-- The session after a commit on the machine `before`. -/
def attempted (s : SnapshotSession T) (attempt : CommitAttempt)
    (before : Machine (Sector T.size)) : SnapshotSession T :=
  match attempt.run T before with
  | (.ok generation, after) =>
    ⟨after.store, some ⟨generation, attempt.payload, attempt.wal⟩, none⟩
  | (_, after) =>
    match attempt.admission T before with
    | (.ok plan, _) => ⟨after.store, s.seen, some (attempt.version plan)⟩
    | _ => { s with store := after.store }

/-- One step of a run on a device of the kind `env`. -/
inductive Step (format : StoreFormat) (env : Env) : SnapshotSession T → SnapshotSession T → Prop
  | commit {s : SnapshotSession T} (attempt : CommitAttempt) (before : Machine (Sector T.size))
      (hformat : format = .legacy → attempt.wal = none) (hstore : before.store = s.store)
      (henv : before.Meets env) : Step format env s (s.attempted attempt before)
  | crash {s : SnapshotSession T} (kept : ℕ × Sector T.size → Bool) :
      Step format env s { s with store := s.store.cut kept }

/-- The sessions of all runs from a blank range, or from a pair of WAL slots with equal
anchors. -/
inductive Reachable (T : SnapshotSite) : StoreFormat → Env → SnapshotSession T → Prop
  | blank {env : Env} {m : T.Contents}
      (hzero : ∀ lba < T.store.sectorCount,
        T.sector m (T.store.startLba + lba) = Sector.zero T.size) :
      Reachable T .legacy env ⟨⟨m, []⟩, none, none⟩
  | paired {env : Env} {m : T.Contents} {manifest : WalSnapshotManifest} {latest : StoredSnapshot}
      (hpaired : T.store.currentPairedWalJournalManifest T.device (readAll m) = .ok manifest)
      (hlatest : T.store.readLatest T.device (readAll m) = .ok (some latest)) :
      Reachable T .wal env
        ⟨⟨m, []⟩, some ⟨latest.generation, latest.payload, some manifest⟩, none⟩
  | step {format : StoreFormat} {env : Env} {s s' : SnapshotSession T} :
      Reachable T format env s → Step format env s s' → Reachable T format env s'

end SnapshotSession

variable {T : SnapshotSite} {m v : T.Contents} {env : Env} {format : StoreFormat}
  {shown : Option (SlotReadPlan × List UInt8)} {attempt : CommitAttempt}

/-! ## The invariant -/

/-- The version of a shown snapshot. -/
def shownVersion (shown : SlotReadPlan × List UInt8) : Version :=
  ⟨shown.1.generation, shown.2, shown.1.wal⟩

/-- A snapshot of the format the store is used with; only a legacy store can be blank. -/
def InFormat : StoreFormat → Option (SlotReadPlan × List UInt8) → Prop
  | .legacy, shown => ∀ s, shown = some s → s.1.wal = none
  | .wal, shown => ∃ s, shown = some s ∧ s.1.wal.isSome = true

/-- The contents show the version, or are blank if there is none. -/
def ShowsVersion (T : SnapshotSite) (format : StoreFormat) (m : T.Contents)
    (version : Option Version) : Prop :=
  ∃ shown, Shows T m shown ∧ InFormat format shown ∧ shown.map shownVersion = version

/-- Every image shows the last snapshot or the one in flight, and the latter is newer. -/
structure SessionShows (format : StoreFormat) (s : SnapshotSession T) : Prop where
  image : ∀ m, s.store.IsImage m → ShowsVersion T format m s.current
    ∨ s.inFlight.isSome = true ∧ ShowsVersion T format m s.inFlight
  newer : ∀ c f, s.current = some c → s.inFlight = some f → c.generation < f.generation

theorem Shows.latestCommitSlot (h : Shows T m shown) :
    T.store.latestCommitSlot T.device (readAll m) = .ok (shown.map Prod.fst) := by
  rcases shown with _ | ⟨plan, payload⟩
  · exact Blank.latestCommitSlot h
  · exact (Chosen.newest h).latestCommitSlot

theorem Shows.readLatest (h : Shows T m shown) : T.store.readLatest T.device (readAll m)
      = .ok ((shown.map shownVersion).map Version.snapshot) := by
  rcases shown with _ | ⟨plan, payload⟩
  · exact Blank.readLatest h
  · exact (Chosen.newest h).readLatest

theorem Shows.holds (h : Shows T m shown) :
    ∀ newest, shown.map Prod.fst = some newest → ∃ payload, Holds T m newest payload := by
  rcases shown with _ | ⟨plan, payload⟩
  · exact nofun
  · rintro _ ⟨⟩
    exact ⟨payload, Chosen.toHolds h⟩

/-! ## One commit -/

/-- What is known about a commit that was admitted. -/
theorem runs_admission (attempt : CommitAttempt) {d : Store (Sector T.size)}
    {latest : Option SlotReadPlan}
    (hlatest : T.store.latestCommitSlot T.device (readAll d.visible) = .ok latest)
    (hholds : ∀ newest, latest = some newest → ∃ payload, Holds T d.visible newest payload) :
    Runs env d (attempt.admission T)
      (fun plan d' => d' = d.flush ∧ FollowsHeld T d.visible attempt.wal
        ∧ plan.Follows T latest attempt.payload.length attempt.wal
        ∧ ∀ manifest, attempt.wal = some manifest →
          manifest.Fits ∧ manifest.valid = true ∧ walHeaderLen ≤ T.size)
      (fun _ d' => Unwritten env d d') (fun d' => Unwritten env d d') := by
  unfold CommitAttempt.admission
  cases hwal : attempt.wal with
  | none =>
    exact (runs_admitCommit hlatest hholds _ none false).weaken
      (fun _ _ h => ⟨h.1, h.2.1, h.2.2, nofun⟩) (fun _ _ h => h) fun _ h => h
  | some manifest =>
    simp only
    by_cases hvalid : manifest.valid = true
    · rw [if_neg (not_not.mpr hvalid)]
      split_ifs with hsize
      · exact runs_fail (Unwritten.refl d)
      · refine (runs_admitCommit hlatest hholds _ (some manifest) false).weaken ?_
          (fun _ _ h => h) fun _ h => h
        intro plan d' h
        refine ⟨h.1, h.2.1, h.2.2, ?_⟩
        rintro _ ⟨⟩
        exact ⟨attempt.fits manifest hwal, hvalid, Nat.not_lt.mp hsize⟩
    · rw [if_pos hvalid]
      exact runs_fail (Unwritten.refl d)

/-- A commit is refused before it writes anything, or it is admitted: then every image
shows the old or the new snapshot, only the slot of the new one is written, and a
commit that returns leaves the new one. -/
theorem run_spec {before : Machine (Sector T.size)} (hshows : Shows T before.store.visible shown)
    (hin : InFormat format shown) (hformat : format = .legacy → attempt.wal = none)
    (henv : before.Meets env) :
    (∃ r after, attempt.run T before = (r, after) ∧ (∀ generation, r ≠ .ok generation)
        ∧ (∀ plan mid, attempt.admission T before ≠ (.ok plan, mid))
        ∧ Unwritten env before.store after.store)
      ∨ ∃ plan mid r after, attempt.admission T before = (.ok plan, mid)
        ∧ attempt.run T before = (r, after)
        ∧ Publishable T before.store.visible shown plan attempt.payload attempt.wal
        ∧ (∀ m, after.store.IsImage m →
          (∀ address, ¬ InSlot T plan.slot address → m address = before.store.visible address)
          ∧ (Shows T m shown
            ∨ Shows T m (some (newHeader plan attempt.payload attempt.wal, attempt.payload))))
        ∧ (∀ generation, r = .ok generation → generation = plan.generation
          ∧ after.store.pending = [] ∧ ∀ m, after.store.IsImage m →
            Shows T m (some (newHeader plan attempt.payload attempt.wal, attempt.payload)))
        ∧ ∀ e, r = .err e → env.faults = true := by
  obtain ⟨hmeets, hadmission⟩ :=
    runs_admission attempt hshows.latestCommitSlot hshows.holds before rfl henv
  rcases ha : attempt.admission T before with ⟨plan | e | _, mid⟩
  · rw [ha] at hmeets hadmission
    obtain ⟨hmid, -, hfollows, hmanifest⟩ := hadmission
    -- only the second format has manifests, and there the shown slot has one
    have hready : Publishable T before.store.visible shown plan attempt.payload attempt.wal := by
      refine ⟨hshows, hfollows, hmanifest, ?_⟩
      rintro newest stored rfl hwal
      cases format with
      | legacy =>
        rw [hformat rfl] at hwal
        cases hwal
      | wal =>
        obtain ⟨_, ⟨⟩, hsome⟩ := hin
        exact hsome
    obtain ⟨-, hpublish⟩ := runs_publishCommit hready mid hmid hmeets
    obtain ⟨-, hconfined⟩ := confined_publishCommit hready.follows env _ mid hmid hmeets
    rcases hr : publishCommit T.device plan attempt.payload.length (crc32c attempt.payload)
      attempt.wal attempt.payload mid with ⟨r, after⟩
    rw [hr] at hpublish hconfined
    have hrun : attempt.run T before = (r, after) := by
      rw [CommitAttempt.run_eq, DiskM.bind_of_ok ha]
      exact hr
    refine Or.inr ⟨plan, mid, r, after, rfl, hrun, hready, ?_⟩
    rcases r with generation | e | _
    · obtain ⟨hgeneration, m, hafter, hnew⟩ := hpublish
      have himage : ∀ n, after.store.IsImage n → n = m := by
        intro n hn
        rw [hafter] at hn
        exact Store.isImage_mk_nil.mp hn
      refine ⟨fun n hn => ⟨fun _ => hconfined.eq hn, himage n hn ▸ Or.inr hnew⟩, ?_, nofun⟩
      rintro _ ⟨⟩
      exact ⟨hgeneration, congrArg Store.pending hafter, fun n hn => himage n hn ▸ hnew⟩
    · exact ⟨fun n hn => ⟨fun _ => hconfined.eq hn, hpublish.2 n hn⟩, nofun, fun _ _ => hpublish.1⟩
    · exact ⟨fun n hn => ⟨fun _ => hconfined.eq hn, hpublish n hn⟩, nofun, nofun⟩
  · rw [ha] at hadmission
    refine Or.inl ⟨.err e, mid, ?_, nofun, nofun, hadmission⟩
    rw [CommitAttempt.run_eq, DiskM.bind_of_err ha]
  · rw [ha] at hadmission
    refine Or.inl ⟨.stopped, mid, ?_, nofun, nofun, hadmission⟩
    rw [CommitAttempt.run_eq, DiskM.bind_of_stopped ha]

/-! ## One step keeps the invariant -/

variable {s s' : SnapshotSession T}

/-- What a commit builds on is what the device shows. -/
theorem SessionShows.exists_shown (h : SessionShows format s) :
    ∃ shown, Shows T s.store.visible shown ∧ InFormat format shown
      ∧ shown.map shownVersion = s.seen := by
  rcases h.image _ s.store.isImage_visible with ⟨shown, hshows, hin, hversion⟩ |
    ⟨hsome, shown, hshows, hin, hversion⟩
  · refine ⟨shown, hshows, hin, ?_⟩
    have hread := hshows.readLatest
    rw [hversion] at hread
    rw [hversion, SnapshotSession.seen, hread]
    cases hcurrent : s.current with
    | none => rfl
    | some c =>
      simp only [map_some]
      -- a snapshot in flight is newer, so it is not the one that was read
      rw [if_neg]
      intro heq
      obtain ⟨f, hf, hfc⟩ := map_eq_some_iff.mp heq
      have hlt := h.newer c f hcurrent hf
      have hsame : f.generation = c.generation := congrArg StoredSnapshot.generation hfc
      omega
  · refine ⟨shown, hshows, hin, ?_⟩
    obtain ⟨f, hf⟩ := isSome_iff_exists.mp hsome
    have hread := hshows.readLatest
    rw [hversion] at hread
    rw [hversion, SnapshotSession.seen, hread, hf]
    simp only [map_some, if_true]

/-- The format of the shown snapshot is the format of the next one. -/
theorem Publishable.inFormat {plan : CommitPlan}
    (h : Publishable T v shown plan attempt.payload attempt.wal) (hin : InFormat format shown)
    (hformat : format = .legacy → attempt.wal = none) :
    InFormat format (some (newHeader plan attempt.payload attempt.wal, attempt.payload)) := by
  cases format with
  | legacy =>
    rintro _ ⟨⟩
    exact hformat rfl
  | wal =>
    obtain ⟨⟨newest, stored⟩, rfl, hsome⟩ := hin
    refine ⟨_, rfl, ?_⟩
    have hprecedes := h.follows.wal newest rfl fun _ => hsome
    obtain ⟨older, holder⟩ := isSome_iff_exists.mp hsome
    change newest.wal = some older at holder
    rw [holder] at hprecedes
    cases hwal : attempt.wal with
    | none =>
      rw [hwal] at hprecedes
      exact hprecedes.elim
    | some manifest => rfl

theorem SessionShows.attempted (h : SessionShows format s) {before : Machine (Sector T.size)}
    (hformat : format = .legacy → attempt.wal = none) (hstore : before.store = s.store)
    (henv : before.Meets env) : SessionShows format (s.attempted attempt before) := by
  obtain ⟨shown, hshows, hin, hseen⟩ := h.exists_shown
  rw [← hstore] at hshows
  rcases run_spec hshows hin hformat henv with ⟨r, after, hrun, hnot, hadmission, hwithin⟩ |
    ⟨plan, mid, r, after, hadmission, hrun, hready, himages, hok, -⟩
  · have hattempted : s.attempted attempt before = { s with store := after.store } := by
      rw [SnapshotSession.attempted, hrun]
      rcases r with generation | e | _
      · exact absurd rfl (hnot generation)
      all_goals
        rcases ha : attempt.admission T before with ⟨plan | e | _, mid⟩
        · exact absurd ha (hadmission plan mid)
        · rfl
        · rfl
    rw [hattempted]
    exact ⟨fun m hm => h.image m (hstore ▸ hwithin.within m hm), h.newer⟩
  · have hnew := hready.inFormat hin hformat
    by_cases hreturned : ∃ generation, r = .ok generation
    · obtain ⟨generation, rfl⟩ := hreturned
      obtain ⟨rfl, -, hshown⟩ := hok generation rfl
      rw [SnapshotSession.attempted, hrun]
      exact ⟨fun m hm => Or.inl ⟨_, hshown m hm, hnew, rfl⟩, nofun⟩
    · have hattempted : s.attempted attempt before
          = ⟨after.store, s.seen, some (attempt.version plan)⟩ := by
        rw [SnapshotSession.attempted, hrun, hadmission]
        rcases r with generation | e | _
        · exact absurd ⟨generation, rfl⟩ hreturned
        · rfl
        · rfl
      rw [hattempted]
      refine ⟨fun m hm => ?_, ?_⟩
      · rcases (himages m hm).2 with hold | hnext
        · exact Or.inl ⟨shown, hold, hin, hseen⟩
        · exact Or.inr ⟨rfl, _, hnext, hnew, rfl⟩
      · rintro c _ hc ⟨⟩
        rw [← hseen] at hc
        obtain ⟨newest, hnewest, rfl⟩ := map_eq_some_iff.mp hc
        subst hnewest
        have hnext := (hready.follows.next newest.1 rfl).2
        show newest.1.generation < plan.generation
        omega

theorem SessionShows.step (h : SessionShows format s) (hstep : s.Step format env s') :
    SessionShows format s' := by
  cases hstep with
  | commit attempt before hformat hstore henv => exact h.attempted hformat hstore henv
  | crash kept => exact ⟨fun m hm => h.image m (s.store.within_cut kept m hm), h.newer⟩

/-! ## The start of a run -/

/-- A range of zeros has no snapshot. -/
theorem blank_of_zero
    (h : ∀ lba < T.store.sectorCount, T.sector m (T.store.startLba + lba) = Sector.zero T.size) :
    Blank T m := by
  intro slot hslot
  have hlba : T.slotSectors * slot < T.store.sectorCount := by
    have hfour := T.four_le
    unfold SnapshotSite.slotSectors
    rcases Nat.le_one_iff_eq_zero_or_eq_one.mp hslot with rfl | rfl <;> omega
  have hzero : decodeHeader (Sector.zero T.size).1 = .ok none := by
    have hlen : (Sector.zero T.size).1.length = T.size := List.length_replicate
    rw [decodeHeader, if_neg (by have := T.headerLen_le; omega), if_pos]
    rw [List.all_eq_true]
    intro byte hbyte
    have := List.eq_of_mem_replicate (List.mem_of_mem_take hbyte)
    simpa using this
  unfold SnapshotSite.slotBase SnapshotSite.slotPlan
  rw [h _ hlba, hzero]
  rfl

theorem sessionShows_of_reachable (h : s.Reachable T format env) : SessionShows format s := by
  induction h with
  | blank hzero =>
    refine ⟨fun m hm => Or.inl ⟨none, ?_, nofun, rfl⟩, nofun⟩
    rw [Store.isImage_mk_nil.mp hm]
    exact blank_of_zero hzero
  | @paired _ start manifest latest hpaired hlatest =>
    obtain ⟨newest, -, hchosen, -, -, -, hwal⟩ := chosen_of_paired hpaired
    have hstart : ShowsVersion T .wal start
        (some ⟨latest.generation, latest.payload, some manifest⟩) := by
      refine ⟨some (newest, T.slotPayload start newest), hchosen, ⟨_, rfl, ?_⟩, ?_⟩
      · rw [hwal]
        rfl
      · rw [hchosen.newest.readLatest] at hlatest
        cases hlatest
        rw [map_some, shownVersion, hwal]
    exact ⟨fun m hm => Or.inl (Store.isImage_mk_nil.mp hm ▸ hstart), nofun⟩
  | step _ hstep ih => exact ih.step hstep

/-! ## What the readers find -/

/-- `read_latest` finds the version, and so does `read_latest_wal` on a WAL store. -/
def Finds (T : SnapshotSite) (format : StoreFormat) (m : T.Contents) (version : Option Version) :
    Prop :=
  T.store.readLatest T.device (readAll m) = .ok (version.map Version.snapshot)
    ∧ (format = .wal →
      T.store.readLatestWal T.device (readAll m) = .ok (version.bind Version.walSnapshot))

theorem ShowsVersion.finds {version : Option Version} (h : ShowsVersion T format m version) :
    Finds T format m version := by
  obtain ⟨shown, hshows, hin, rfl⟩ := h
  refine ⟨hshows.readLatest, ?_⟩
  rintro rfl
  obtain ⟨⟨newest, payload⟩, rfl, hsome⟩ := hin
  obtain ⟨manifest, hwal⟩ := isSome_iff_exists.mp hsome
  change newest.wal = some manifest at hwal
  rw [Chosen.readLatestWal hshows hwal, map_some, bind_some, shownVersion, hwal]
  rfl

/-- The slot that `read_latest` takes its snapshot from. -/
def Selects (T : SnapshotSite) (m : T.Contents) (slot : ℕ) : Prop :=
  slot ≤ 1 ∧ ∃ found, T.store.readSlot T.device (readAll m) slot = .ok (some found)
    ∧ T.store.readLatest T.device (readAll m) = .ok (some ⟨found.generation, found.payload⟩)

/-- A shown snapshot is read from its own slot. -/
theorem Shows.slot_of_selects {slot : ℕ} (h : Shows T m shown) (hselects : Selects T m slot) :
    ∃ newest payload, shown = some (newest, payload) ∧ newest.slot = slot := by
  obtain ⟨hslot, found, hfound, hlatest⟩ := hselects
  rw [h.readLatest] at hlatest
  rcases shown with _ | ⟨newest, payload⟩
  · cases hlatest
  · have hchosen : Chosen T m newest payload := h
    refine ⟨newest, payload, rfl, ?_⟩
    by_contra hne
    -- the other slot is older, so its snapshot is not the one that was read
    obtain rfl : slot = 1 - newest.slot := by
      have := hchosen.slot_le
      omega
    rw [readSlot_readAll hslot] at hfound
    obtain ⟨plan, hplan, hfound⟩ := Result.bind_eq_ok hfound
    cases plan with
    | none => cases hfound
    | some other =>
      simp only at hfound
      split_ifs at hfound
      cases hfound
      have hlt := (hchosen.older hplan).1
      have hgeneration : newest.generation = other.generation :=
        congrArg StoredSnapshot.generation (Option.some.inj (Except.ok.inj hlatest))
      omega

/-- After any run, every image of the device (the visible contents included) shows the
snapshot of the last commit that went through or the one in flight.  A further commit
that gets past its checks leaves the slot that `read_latest` selects as it is; one
that does not writes nothing. -/
theorem readLatest_finds_committed (h : s.Reachable T format env) :
    (∀ m, s.store.IsImage m → Finds T format m s.current
      ∨ s.inFlight.isSome = true ∧ Finds T format m s.inFlight)
    ∧ ∀ (attempt : CommitAttempt) (before : Machine (Sector T.size)),
      (format = .legacy → attempt.wal = none) → before.store = s.store → before.Meets env →
      (∀ plan mid, attempt.admission T before = (.ok plan, mid) →
        ∀ slot, Selects T s.store.visible slot →
          slot ≠ plan.slot ∧ ∀ m, (attempt.run T before).2.store.IsImage m →
            SlotAgrees T s.store.visible m slot)
      ∧ ((∀ plan mid, attempt.admission T before ≠ (.ok plan, mid)) →
        s.store.Within (attempt.run T before).2.store) := by
  have hinv := sessionShows_of_reachable h
  refine ⟨fun m hm => ?_, fun attempt before hformat hstore henv => ?_⟩
  · exact (hinv.image m hm).imp ShowsVersion.finds (And.imp_right ShowsVersion.finds)
  obtain ⟨shown, hshows, hin, -⟩ := hinv.exists_shown
  rw [← hstore] at hshows ⊢
  rcases run_spec hshows hin hformat henv with ⟨r, after, hrun, -, hadmission, hwithin⟩ |
    ⟨plan, mid, r, after, hadmission, hrun, hready, himages, -⟩
  · refine ⟨fun plan mid hadmitted => absurd hadmitted (hadmission plan mid), fun _ => ?_⟩
    rw [hrun]
    exact hwithin.within
  · refine ⟨fun plan' mid' hadmitted slot hslot => ?_,
      fun hrefused => absurd hadmission (hrefused _ _)⟩
    rw [hadmission] at hadmitted
    cases hadmitted
    obtain ⟨newest, payload, rfl, rfl⟩ := hshows.slot_of_selects hslot
    have hspared := hready.spares newest payload rfl
    have htarget := hready.follows.slot_le
    refine ⟨by omega, fun m hm => ?_⟩
    rw [hrun] at hm
    rw [hspared]
    intro lba hlba
    refine (himages m hm).1 _ ?_
    rintro ⟨other, hother, heq⟩
    have hsame := (T.slotBase_add_inj (Nat.sub_le 1 plan.slot) htarget hlba hother (by omega)).1
    omega

/-! A store of two slots of eight sectors. -/

/-- The first sixteen sectors of a device with sectors of 512 bytes. -/
def smallStore : SnapshotSite where
  size := 512
  device := ⟨0, 16⟩
  store := ⟨0, 16⟩
  headerLen_le := by decide
  four_le := by decide
  even := by decide
  inside := by decide
  addressable := by
    unfold BlockRange.Addressable
    decide
  bytes_lt := by decide

/-- A blank store in which one byte was committed. -/
def committedStore : SnapshotSession smallStore :=
  SnapshotSession.attempted ⟨⟨fun _ => Sector.zero 512, []⟩, none, none⟩ ⟨[1], none, nofun⟩
    ⟨⟨fun _ => Sector.zero 512, []⟩, [], []⟩

/-- The next commit was stopped at the flush of its header. -/
def interruptedStore : SnapshotSession smallStore :=
  committedStore.attempted ⟨[2], none, nofun⟩
    ⟨committedStore.store, [.done, .done, .done, .done, .stop], []⟩

/-- A power failure leaves the first snapshot or, if it keeps the header, the second. -/
theorem readLatest_finds_committed_interrupted :
    interruptedStore.current = some ⟨1, [1], none⟩
      ∧ interruptedStore.inFlight = some ⟨2, [2], none⟩
      ∧ interruptedStore.store.pending.length = 1
      ∧ ∀ m, interruptedStore.store.IsImage m →
        Finds smallStore .legacy m (some ⟨1, [1], none⟩)
          ∨ Finds smallStore .legacy m (some ⟨2, [2], none⟩) := by
  have hmeets : Machine.Meets ⟨committedStore.store, [.done, .done, .done, .done, .stop], []⟩
      Env.faultless := ⟨nofun, by simp [Fate.isFault], fun _ _ _ => rfl⟩
  have hcommitted : committedStore.Reachable smallStore .legacy .faultless :=
    .step (.blank fun _ _ => rfl) (.commit _ _ (fun _ => rfl) rfl (Machine.meets_nil _ _))
  have hreach : interruptedStore.Reachable smallStore .legacy .faultless :=
    .step hcommitted (.commit _ _ (fun _ => rfl) (by with_reducible rfl) hmeets)
  have hcurrent : interruptedStore.current = some ⟨1, [1], none⟩ := by decide +kernel
  have hflight : interruptedStore.inFlight = some ⟨2, [2], none⟩ := by decide +kernel
  refine ⟨hcurrent, hflight, by decide +kernel, fun m hm => ?_⟩
  rw [← hcurrent, ← hflight]
  exact ((readLatest_finds_committed hreach).1 m hm).imp id And.right

end UserspaceNtos.Fs
