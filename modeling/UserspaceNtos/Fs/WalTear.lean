import UserspaceNtos.Fs.WalSession

/-!
# When recovery finds a corrupt log

`prepare` writes the PREPARE header and the payload under one barrier.  A power
failure inside that barrier may keep a payload sector and lose the header in front
of it.  Then a zero sector is followed by a nonzero one, which the scan takes for
corruption.  `clear_frame` avoids the same situation with a barrier of its own for
the header.

`recover_corrupt_iff_tearsPrepare` shows that this is the only way: `recover` after a
power failure reports corruption exactly in this case, and in all others the log is
settled or ends in one unmarked frame.  A write or flush that failed before may have
lost the header and stored the payload already; `LosesPrepare` therefore speaks of
all writes since the last successful flush, and on a device without I/O errors it is
`TearsPrepare`, which speaks of the unflushed ones.
-/

namespace UserspaceNtos.Fs

open CachedStorage RegistryWal List

variable {S : WalSite} {env : Env} {m : S.Contents} {ps : List (List UInt8)} {q : List UInt8}
  {kept : ℕ × Sector S.size → Bool} {s : Session S}

/-- The power failure loses the unflushed write of the sector at the end of the log and
keeps an unflushed nonzero sector behind it. -/
def TearsPrepare (s : Session S) (kept : ℕ × Sector S.size → Bool) : Prop :=
  (∃ w ∈ s.store.pending, w.1 = S.device.start + S.framesEnd 0 s.acked ∧ kept w = false)
    ∧ ∃ w ∈ s.store.pending, w.1 ≠ S.device.start + S.framesEnd 0 s.acked ∧ kept w = true
        ∧ w.2 ≠ Sector.zero S.size

theorem not_tearsPrepare_of_forall_ne
    (h : ∀ w ∈ s.store.pending, w.1 ≠ S.device.start + S.framesEnd 0 s.acked) :
    ¬ TearsPrepare s kept := by
  rintro ⟨⟨w, hw, heq, -⟩, -⟩
  exact h w hw heq

/-- The image holds what a kept write puts at a sector that no other write touches
differently. -/
private theorem durable_cut_of_mem {d : Store (Sector S.size)} {w : ℕ × Sector S.size}
    (hw : w ∈ d.pending) (hkept : kept w = true)
    (hsame : ∀ v ∈ d.pending, v.1 = w.1 → v = w) : (d.cut kept).durable w.1 = w.2 :=
  overwrite_of_forall_eq ⟨w, mem_filter.mpr ⟨hw, hkept⟩, rfl⟩ fun v hv heq =>
    congrArg Prod.snd (hsame v (mem_of_mem_filter hv) heq)

section Batch

variable {vs : List (ℕ × Sector S.size)} (hsettled : Settled S m s.acked)
  (hvs : vs <+: S.device.addressed (prepareBatch S s.acked q)) (hstore : s.store = ⟨m, vs⟩)

include hvs in
/-- A sector is written once by the PREPARE batch. -/
private theorem accepted_functional : ∀ v ∈ vs, ∀ w ∈ vs, v.1 = w.1 → v = w := by
  intro _ hv _ hw heq
  obtain ⟨v, hvmem, rfl⟩ := mem_map.mp (hvs.subset hv)
  obtain ⟨w, hwmem, rfl⟩ := mem_map.mp (hvs.subset hw)
  have hlba : v.1 = w.1 := Nat.add_left_cancel heq
  rcases mem_prepareBatch.mp hvmem with ⟨hv, hv'⟩ | ⟨i, -, hv, hv'⟩ <;>
    rcases mem_prepareBatch.mp hwmem with ⟨hw, hw'⟩ | ⟨j, -, hw, hw'⟩
  · rw [hlba, hv', hw']
  · omega
  · omega
  · rw [hlba, hv', hw', show i = j by omega]

include hstore in
private theorem image_eq_overwrite : s.image kept = overwrite m (vs.filter kept) := by
  rw [Session.image, hstore]
  rfl

include hsettled hvs hstore

theorem Torn.tearsPrepare (htorn : Torn S (s.image kept) s.acked) : TearsPrepare s kept := by
  have himage : s.image kept = _ := image_eq_overwrite hstore
  -- a nonzero sector behind the hole was put there by a kept write
  obtain ⟨i, hi, hlt, hne⟩ : ∃ i, S.framesEnd 0 s.acked + 1 ≤ i ∧ i < S.device.sectors
      ∧ S.sector (s.image kept) i ≠ Sector.zero S.size := by
    by_contra hnone
    exact htorn.remains fun i hi hlt => by_contra fun hne => hnone ⟨i, hi, hlt, hne⟩
  have hwrite : (S.device.start + i, S.sector (s.image kept) i) ∈ vs.filter kept := by
    rcases overwrite_eq_or_mem m (vs.filter kept) (S.device.start + i) with hold | hmem
    · rw [← himage] at hold
      exact absurd (hold.trans (hsettled.blank i (by omega) hlt)) hne
    · rwa [← himage] at hmem
  obtain ⟨hin, hkept⟩ := mem_filter.mp hwrite
  -- the batch starts with its header, so the header was accepted as well
  have hheader : (S.device.start + S.framesEnd 0 s.acked,
      S.prepareSector (s.acked.length + 1) q) ∈ vs := by
    cases vs with
    | nil => exact absurd hin not_mem_nil
    | cons v vs =>
      obtain ⟨rest, hrest⟩ := hvs
      exact (List.cons.inj hrest).1 ▸ mem_cons_self
  rw [TearsPrepare, hstore]
  refine ⟨⟨_, hheader, rfl, ?_⟩, ⟨_, hin, ?_, hkept, hne⟩⟩
  · by_contra hkept
    have hval := durable_cut_of_mem (d := ⟨m, vs⟩) hheader (by simpa using hkept)
      fun v hv => accepted_functional hvs v hv _ hheader
    have hhole := htorn.hole
    rw [WalSite.sector, Session.image, hstore, hval] at hhole
    exact prepareSector_ne_zero _ _ hhole
  · show S.device.start + i ≠ _
    omega

theorem TearsPrepare.torn (hq : Admitted S s.acked q) (htears : TearsPrepare s kept) :
    Torn S (s.image kept) s.acked := by
  have himage : s.image kept = _ := image_eq_overwrite hstore
  have hsame := accepted_functional hvs
  have hroom := hq.room
  have hwritten : PartlyWritten S m (prepareBatch S s.acked q) (s.image kept) := by
    refine partlyWritten_of_isImage fun i => ?_
    rw [himage]
    exact (overwrite_eq_or_mem m (vs.filter kept) i).imp id
      fun h => hvs.subset (mem_of_mem_filter h)
  obtain ⟨⟨x, hx, hxlba, hxkept⟩, ⟨y, hy, hylba, hykept, hyne⟩⟩ := htears
  rw [hstore] at hx hy
  have hhole : S.sector (s.image kept) (S.framesEnd 0 s.acked) = Sector.zero S.size := by
    rw [WalSite.sector, himage, overwrite_of_forall_ne]
    · exact hsettled.blank _ le_rfl (by omega)
    · intro w hw hlba
      obtain ⟨hw, hkept⟩ := mem_filter.mp hw
      rw [hsame w hw x hx (hlba.trans hxlba.symm), hxkept] at hkept
      cases hkept
  rcases settled_or_torn_of_prepareBatch hsettled hq hwritten hhole with hold | htorn
  · -- the kept payload sector is not blank
    obtain ⟨v, hv, rfl⟩ := mem_map.mp (hvs.subset hy)
    have hval := durable_cut_of_mem (d := ⟨m, vs⟩) hy hykept fun w hw => hsame w hw _ hy
    rcases mem_prepareBatch.mp hv with ⟨hlba, -⟩ | ⟨i, hi, hlba, -⟩
    · exact absurd (congrArg (S.device.start + ·) hlba) hylba
    · have hzero := hold.blank v.1 (by omega) (by omega)
      rw [WalSite.sector, Session.image, hstore, hval] at hzero
      exact absurd hzero hyne
  · exact htorn

end Batch

/-- A part of the PREPARE batch is torn exactly if its header is lost and a nonzero
payload sector is kept. -/
theorem torn_iff_tearsPrepare (hsettled : Settled S m s.acked) (hq : Admitted S s.acked q)
    {vs : List (ℕ × Sector S.size)} (hvs : vs <+: S.device.addressed (prepareBatch S s.acked q))
    (hstore : s.store = ⟨m, vs⟩) : Torn S (s.image kept) s.acked ↔ TearsPrepare s kept :=
  ⟨Torn.tearsPrepare hsettled hvs hstore, TearsPrepare.torn hsettled hvs hstore hq⟩

/-- A log that recovery accepts. -/
def Clean (S : WalSite) (m : S.Contents) : Prop :=
  ∃ ps, Settled S m ps ∨ ∃ q, Unmarked S m ps q

theorem Clean.recover_ne_corrupt (h : Clean S m) : S.recover m ≠ .error .corrupt := by
  obtain ⟨ps, h | ⟨q, h⟩⟩ := h
  · rw [recover_of_settled h]
    exact nofun
  · rw [recover_of_unmarked h]
    exact nofun

theorem PhaseInv.clean {phase : WalPhase} (h : PhaseInv S m ps phase) : Clean S m := by
  cases phase with
  | ready => exact ⟨ps, Or.inl h⟩
  | recoveredUncommitted sectors =>
    obtain ⟨q, -, hunmarked⟩ := h
    exact ⟨ps, Or.inr ⟨q, hunmarked⟩⟩
  | pendingPrepare pending => exact ⟨ps, Or.inl h.2.1⟩
  | prepared pending => exact ⟨ps, Or.inr ⟨_, h.2.toUnmarked⟩⟩
  | uncertain => exact h.elim

/-- The device holds contents settled with the acknowledged records and, in whichever
way writes and flushes failed since, nothing else than a part of the PREPARE of `q`. -/
def InPrepare (s : Session S) (q : List UInt8) : Prop :=
  Admitted S s.acked q ∧ ∃ m, Settled S m s.acked
    ∧ (Store.mk m (S.device.addressed (prepareBatch S s.acked q))).Within s.store

/-- Of a PREPARE written since the last successful flush, the power failure leaves a
nonzero payload sector and not the header. -/
def LosesPrepare (s : Session S) (kept : ℕ × Sector S.size → Bool) : Prop :=
  ∃ q, InPrepare s q
    ∧ S.sector (s.image kept) (S.framesEnd 0 s.acked) ≠ S.prepareSector (s.acked.length + 1) q
    ∧ ∃ i < S.chunks q,
        S.sector (s.image kept) (S.framesEnd 0 s.acked + 1 + i) = payloadSector S.size q i
          ∧ payloadSector S.size q i ≠ Sector.zero S.size

theorem LosesPrepare.torn (h : LosesPrepare s kept) : Torn S (s.image kept) s.acked := by
  obtain ⟨q, ⟨hq, m, hsettled, hwithin⟩, hlost, i, hi, hchunk, hne⟩ := h
  have hwritten := partlyWritten_of_isImage (hwithin _ (s.isImage_image kept))
  have hroom := hq.room
  rcases header_of_prepareBatch hsettled hq hwritten with hzero | hheader
  · rcases settled_or_torn_of_prepareBatch hsettled hq hwritten hzero with hold | htorn
    · have hblank := hold.blank (S.framesEnd 0 s.acked + 1 + i) (by omega) (by omega)
      exact absurd (hchunk.symm.trans hblank) hne
    · exact htorn
  · exact absurd hheader hlost

/-- Where a PREPARE is torn, a payload sector of it is what stands behind the hole. -/
theorem Torn.losesPrepare (hq : Admitted S s.acked q) (hsettled : Settled S m s.acked)
    (hwithin : (Store.mk m (S.device.addressed (prepareBatch S s.acked q))).Within s.store)
    (htorn : Torn S (s.image kept) s.acked) : LosesPrepare s kept := by
  have hwritten := partlyWritten_of_isImage (hwithin _ (s.isImage_image kept))
  refine ⟨q, ⟨hq, m, hsettled, hwithin⟩, ?_, ?_⟩
  · rw [htorn.hole]
    exact (prepareSector_ne_zero _ _).symm
  · by_contra hnone
    refine htorn.remains fun lba hlba hlt => by_contra fun hne => hnone ?_
    rcases hwritten lba with hold | hmem
    · exact absurd (hold.trans (hsettled.blank lba (by omega) hlt)) hne
    · rcases mem_prepareBatch.mp hmem with ⟨heq, -⟩ | ⟨i, hi, heq, hval⟩
      · omega
      · rw [heq] at hval hne
        exact ⟨i, hi, hval, hval ▸ hne⟩

/-- A barrier leaves a clean log, unless it is that of a PREPARE. -/
theorem Barrier.clean_or_prepare {m' : S.Contents} {inFlight : Option (List UInt8)}
    {ws : List (ℕ × Sector S.size)} (h : Barrier S m ps inFlight ws)
    (hwritten : PartlyWritten S m ws m') :
    Clean S m' ∨ ∃ q, ws = prepareBatch S ps q ∧ Settled S m ps ∧ Admitted S ps q := by
  cases h with
  | prepare q hsettled hq => exact Or.inr ⟨q, rfl, hsettled, hq⟩
  | commit q hprepared =>
    rcases unmarked_or_settled_of_commit hprepared hwritten with h | h
    · exact Or.inl ⟨_, Or.inr ⟨q, h⟩⟩
    · exact Or.inl ⟨_, Or.inl h⟩
  | clear q hunmarked =>
    exact Or.inl ⟨_, Or.inr ⟨q, unmarked_of_clearBatch hunmarked hwritten⟩⟩
  | clearHeader q hunmarked hzero =>
    rcases unmarked_or_settled_of_clearHeader hunmarked hzero hwritten with h | h
    · exact Or.inl ⟨_, Or.inr ⟨q, h⟩⟩
    · exact Or.inl ⟨_, Or.inl h⟩

/-- Every power failure leaves a clean log, except one that loses the header of a
PREPARE. -/
theorem clean_or_losesPrepare (h : SessionInv env s) (kept : ℕ × Sector S.size → Bool) :
    Clean S (s.image kept) ∨ LosesPrepare s kept := by
  cases h with
  | live h => exact Or.inl h.clean
  | halted hbarrier _ hwithin _ =>
    have hwritten := partlyWritten_of_isImage (hwithin _ (s.isImage_image kept))
    rcases hbarrier.clean_or_prepare hwritten with hclean | ⟨q, rfl, hsettled, hq⟩
    · exact Or.inl hclean
    · rcases header_of_prepareBatch hsettled hq hwritten with hzero | hheader
      · rcases settled_or_torn_of_prepareBatch hsettled hq hwritten hzero with h | h
        · exact Or.inl ⟨_, Or.inl h⟩
        · exact Or.inr (h.losesPrepare hq hsettled hwithin)
      · exact Or.inl ⟨_, Or.inr ⟨q, unmarked_of_prepareBatch hsettled hq hwritten hheader⟩⟩

/-- Without I/O errors the PREPARE that lost its header is among the unflushed writes. -/
theorem losesPrepare_iff_tearsPrepare (h : SessionInv env s) (hfaults : env.faults = false) :
    LosesPrepare s kept ↔ TearsPrepare s kept := by
  cases h with
  | live h =>
    refine ⟨fun hloses => absurd (recover_of_torn hloses.torn) h.clean.recover_ne_corrupt,
      fun htears => absurd htears ?_⟩
    exact not_tearsPrepare_of_forall_ne fun w hw => absurd hw not_mem_nil
  | @halted _ m ws hbarrier _ hwithin hexact =>
    obtain ⟨vs, hvs, hstore⟩ := hexact hfaults
    constructor
    · intro hloses
      have hwritten := partlyWritten_of_isImage (hwithin _ (s.isImage_image kept))
      rcases hbarrier.clean_or_prepare hwritten with hclean | ⟨q, rfl, hsettled, hq⟩
      · exact absurd (recover_of_torn hloses.torn) hclean.recover_ne_corrupt
      · exact (torn_iff_tearsPrepare hsettled hq hvs hstore).mp hloses.torn
    · intro htears
      have hmem : ∀ w ∈ s.store.pending, w ∈ S.device.addressed ws := by
        rw [hstore]
        exact fun w hw => hvs.subset hw
      generalize hflight : s.inFlight = inFlight at hbarrier
      cases hbarrier with
      | prepare q hsettled hq =>
        exact ((torn_iff_tearsPrepare hsettled hq hvs hstore).mpr htears).losesPrepare hq hsettled
          hwithin
      | commit q hprepared =>
        refine absurd htears (not_tearsPrepare_of_forall_ne fun w hw => ?_)
        obtain ⟨v, hv, rfl⟩ := mem_map.mp (hmem w hw)
        rw [mem_singleton.mp hv]
        show S.device.start + (_ + 1 + _) ≠ _
        omega
      | clear q hunmarked =>
        refine absurd htears (not_tearsPrepare_of_forall_ne fun w hw => ?_)
        obtain ⟨v, hv, rfl⟩ := mem_map.mp (hmem w hw)
        have := (mem_clearBatch.mp hv).1
        show S.device.start + v.1 ≠ _
        omega
      | clearHeader q hunmarked hzero =>
        -- the only write of this barrier is a zero sector
        obtain ⟨-, w, hw, -, -, hne⟩ := htears
        obtain ⟨v, hv, rfl⟩ := mem_map.mp (hmem w hw)
        rw [mem_singleton.mp hv] at hne
        exact absurd rfl hne

/-- `recover` after a power failure reports corruption exactly if a PREPARE since the
last successful flush lost its header and not its payload; otherwise the log is settled
or ends in one unmarked frame.  Without I/O errors it is the power failure that tears
the PREPARE. -/
theorem recover_corrupt_iff_tearsPrepare {s : Session S} (h : Session.Reachable S env s)
    (kept : ℕ × Sector S.size → Bool) :
    (S.recover (s.image kept) = .error .corrupt ↔ LosesPrepare s kept)
      ∧ (¬ LosesPrepare s kept → Clean S (s.image kept))
      ∧ (env.faults = false → (LosesPrepare s kept ↔ TearsPrepare s kept)) := by
  have hinv := sessionInv_of_reachable h
  have hcases := clean_or_losesPrepare hinv kept
  refine ⟨⟨fun hcorrupt => ?_, fun hloses => recover_of_torn hloses.torn⟩, hcases.resolve_right,
    losesPrepare_iff_tearsPrepare hinv⟩
  exact hcases.resolve_left fun hclean => hclean.recover_ne_corrupt hcorrupt

/-- The session in which `prepare` of a one-byte record stopped before its flush. -/
def stoppedPrepare : Session smallSite :=
  ⟨⟨blankContents smallSite, smallSite.device.addressed (prepareBatch smallSite [] [1])⟩, none, [],
    none⟩

theorem reachable_stoppedPrepare : Session.Reachable smallSite .faultless stoppedPrepare := by
  have hrun : WalOp.prepare.run
      (recovered smallSite [] (.pendingPrepare (reservation smallSite [] [1])))
      ⟨⟨blankContents smallSite, []⟩, [.done, .done, .stop], []⟩
        = (.stopped, ⟨stoppedPrepare.store, [], []⟩) := rfl
  exact .step (reachable_begun .faultless)
    (.stops .prepare rfl rfl ⟨by simp, by simp [Fate.isFault], fun _ _ _ => rfl⟩ hrun)

/-- The payload sector of the one-byte record. -/
theorem payloadSector_one_ne_zero : payloadSector 512 [1] 0 ≠ Sector.zero 512 :=
  Sector.pad_ne_zero (by decide) ⟨1, by decide, by decide⟩

theorem tearsPrepare_stoppedPrepare : TearsPrepare stoppedPrepare fun w => w.1 ≠ 0 :=
  ⟨⟨_, mem_cons_self, rfl, rfl⟩, ⟨(1, payloadSector 512 [1] 0), mem_cons_of_mem _ mem_cons_self,
    by decide, rfl, payloadSector_one_ne_zero⟩⟩

/-- The session in which the flush of the same `prepare` failed, after the device stored
the payload sector and lost the header. -/
def failedPrepare : Session smallSite :=
  ⟨stoppedPrepare.store.resolve (fun w => w.1 ≠ 0) fun _ => false,
    some (recovered smallSite [] .uncertain), [], none⟩

theorem reachable_failedPrepare : Session.Reachable smallSite ⟨true, true⟩ failedPrepare := by
  have hrun : WalOp.prepare.run
      (recovered smallSite [] (.pendingPrepare (reservation smallSite [] [1])))
      ⟨⟨blankContents smallSite, []⟩,
        [.done, .done, .fault false (fun w => w.1 ≠ 0) fun _ => false], []⟩
        = (.ok (.error (.storage .io), recovered smallSite [] .uncertain),
          ⟨failedPrepare.store, [], []⟩) := rfl
  exact .step (reachable_begun _)
    (.returns .prepare rfl rfl ⟨fun _ _ _ _ => rfl, fun _ _ _ => rfl, fun _ _ _ => rfl⟩ hrun)

theorem losesPrepare_failedPrepare (kept : ℕ × Sector smallSite.size → Bool) :
    LosesPrepare failedPrepare kept := by
  refine ⟨[1], ⟨⟨by decide, by decide⟩, _, settled_nil_of_zeroFrom (zeroFrom_blankContents _ 0),
    Store.within_resolve _ _ stoppedPrepare.store⟩, ?_, 0, by decide, rfl,
    payloadSector_one_ne_zero⟩
  exact (prepareSector_ne_zero _ _).symm

theorem recover_corrupt_iff_tearsPrepare_stopped :
    smallSite.recover (stoppedPrepare.image fun w => w.1 ≠ 0) = .error .corrupt
      ∧ smallSite.recover (failedPrepare.image fun _ => true) = .error .corrupt := by
  constructor
  · have h := recover_corrupt_iff_tearsPrepare reachable_stoppedPrepare fun w => w.1 ≠ 0
    exact h.1.mpr ((h.2.2 rfl).mpr tearsPrepare_stoppedPrepare)
  · exact (recover_corrupt_iff_tearsPrepare reachable_failedPrepare _).1.mpr
      (losesPrepare_failedPrepare _)

/-- A run and a power failure after which `recover` reports corruption: the header of
the one-byte record is lost and its payload sector is kept. -/
theorem prepare_can_leave_corruption :
    ∃ (S : WalSite) (s : Session S) (kept : ℕ × Sector S.size → Bool),
      Session.Reachable S .faultless s ∧ S.recover (s.image kept) = .error .corrupt := by
  refine ⟨smallSite, stoppedPrepare, fun w => w.1 ≠ 0, reachable_stoppedPrepare, ?_⟩
  have hblank := settled_nil_of_zeroFrom (zeroFrom_blankContents smallSite 0)
  exact recover_of_torn ((torn_iff_tearsPrepare hblank ⟨by decide, by decide⟩ prefix_rfl rfl).mpr
    tearsPrepare_stoppedPrepare)

end UserspaceNtos.Fs
