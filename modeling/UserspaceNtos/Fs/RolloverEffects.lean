import UserspaceNtos.Fs.RolloverStages

/-!
# The effects of a rollover

The effects of `publish_resetting` and `finish` are header barriers and the erasure of
the log range.  Each moves the rollover to its next stage, and what a failure leaves
behind is the stage before or the stage after (`runs_writeHeader`, `runs_eraseOldWal`).
`runs_publishEffects` and `runs_finishEffects` put them together: `finish` completes
from every stage with a RESETTING header, and whatever interrupts it leaves a stage.
-/

namespace UserspaceNtos.Fs

open CachedStorage EpochRollover List RolloverStart
open Function (update update_of_ne update_self)

variable {R : RolloverStart} {m m' : R.site.Contents} {st : ℕ → HeaderState} {env : Env} {slot : ℕ}

/-! ## Header barriers -/

/-- The log range of `m'` is that of `m`. -/
def WalSame (R : RolloverStart) (m m' : R.site.Contents) : Prop :=
  ∀ lba < R.walSectors, R.walSector m' lba = R.walSector m lba

/-- The headers of `m'` are in one of two states, and its log range is that of `m`. -/
def HeaderLeft (R : RolloverStart) (m : R.site.Contents) (st st' : ℕ → HeaderState)
    (m' : R.site.Contents) : Prop :=
  (Rolled R m' st ∨ Rolled R m' st') ∧ WalSame R m m'

/-- The state of a header that was rewritten with this mark. -/
def markState (resetting : Bool) : HeaderState := if resetting then .resetting else .ready

/-- The slots and the log range have no sector in common. -/
theorem RolloverStart.slotBase_add_ne (hslot : slot ≤ 1) {offset lba : ℕ}
    (hoffset : offset < R.site.slotSectors) (hlba : lba < R.walSectors) :
    R.site.slotBase slot + offset ≠ R.walStart + lba := by
  have hhalf : R.site.slotSectors * 2 ≤ R.site.store.sectorCount := Nat.div_mul_le_self _ _
  have hdisjoint := R.disjoint
  unfold SnapshotSite.slotBase
  rcases Nat.le_one_iff_eq_zero_or_eq_one.mp hslot with rfl | rfl <;> omega

section

variable {resetting : Bool} (h : Rolled R m st) (hslot : slot ≤ 1)
  (hsize : walResetHeaderLen ≤ R.site.size)
  (hm : Store.IsImage ⟨m, [(R.site.device.start + R.site.slotBase slot,
    R.headerSector slot (markState resetting))]⟩ m')
include h hslot hsize hm

/-- What a header barrier leaves, by the header that is found. -/
theorem Rolled.of_header :
    (R.site.sector m' (R.site.slotBase slot) = R.site.sector m (R.site.slotBase slot) →
        Rolled R m' st)
      ∧ (R.site.sector m' (R.site.slotBase slot) = R.headerSector slot (markState resetting) →
        Rolled R m' (update st slot (markState resetting)))
      ∧ WalSame R m m' := by
  have htwo := R.site.two_le_slotSectors
  obtain ⟨hagrees, hpayload, -⟩ := isImage_header hslot hm
  have hother : ∀ s ≤ 1, s ≠ slot →
      R.site.sector m' (R.site.slotBase s) = R.site.sector m (R.site.slotBase s) := by
    intro s hs hne
    obtain rfl : s = 1 - slot := by omega
    exact hagrees.header
  have hstored : ∀ s ≤ 1, ∀ i < R.site.slotSectors - 1, R.site.sector m' (R.site.slotBase s + 1 + i)
        = R.site.sector R.start (R.site.slotBase s + 1 + i) := by
    intro s hs i hi
    rw [← h.stored s hs i hi]
    by_cases heq : s = slot
    · exact heq ▸ hpayload i hi
    · obtain rfl : s = 1 - slot := by omega
      rw [Nat.add_assoc]
      exact hagrees (1 + i) (by omega)
  refine ⟨fun hold => ?_, fun hnew => ?_, fun lba hlba => ?_⟩
  · refine ⟨fun s hs => ?_, hstored, h.fits⟩
    by_cases heq : s = slot
    · rw [heq, hold, h.header slot hslot]
    · rw [hother s hs heq, h.header s hs]
  · refine ⟨fun s hs => ?_, hstored, fun _ _ _ => hsize⟩
    by_cases heq : s = slot
    · rw [heq, hnew, update_self]
    · rw [hother s hs heq, h.header s hs, update_of_ne heq]
  · refine hm.eq_durable fun w hw heq => ?_
    rw [mem_singleton.mp hw] at heq
    have hne := R.slotBase_add_ne hslot (show 0 < R.site.slotSectors by omega) hlba
    omega

/-- A header barrier leaves the header as it was or the new one. -/
theorem Rolled.of_header_image : HeaderLeft R m st (update st slot (markState resetting)) m' := by
  obtain ⟨hold, hnew, hsame⟩ := h.of_header hslot hsize hm
  exact ⟨(isImage_header hslot hm).2.2.imp hold hnew, hsame⟩

end

/-- `write_header` moves one header to the state of its mark. -/
theorem runs_writeHeader (h : Rolled R m st) (hslot : slot ≤ 1) (resetting : Bool) :
    Runs env ⟨m, []⟩ (writeHeader R.site.store R.site.device (R.headerPlan slot (st slot)) R.next
        resetting)
      (fun _ d => ∃ m', d = ⟨m', []⟩ ∧ Rolled R m' (update st slot (markState resetting))
        ∧ WalSame R m m')
      (fun _ d => (env.faults = true ∨ R.site.size < walResetHeaderLen) ∧ ∀ m', d.IsImage m' →
        HeaderLeft R m st (update st slot (markState resetting)) m')
      (fun d => env.stops = true ∧ ∀ m', d.IsImage m' →
        HeaderLeft R m st (update st slot (markState resetting)) m') := by
  have htwo := R.site.two_le_slotSectors
  have hbase : R.site.slotBase slot + 1 ≤ R.site.device.sectors :=
    R.site.slotBase_add_le hslot (by omega)
  rw [writeHeader, R.site.geometry_eq]
  refine runs_lift_bind ?_ nofun
  rintro _ ⟨⟩
  split_ifs with hsmall
  · refine runs_fail ⟨Or.inr hsmall, fun m' hm' => ?_⟩
    rw [Store.isImage_mk_nil.mp hm']
    exact ⟨Or.inl h, fun _ _ => rfl⟩
  rw [headerPlan_slot hslot, R.site.slotLba_eq hslot]
  refine runs_lift_bind ?_ nofun
  rintro _ ⟨⟩
  -- a rewritten header replaces the manifest and the mark only
  have hheader : (rolloverHeader (R.headerPlan slot (st slot)) R.next resetting).encodeHeader
      R.site.size = R.headerSector slot (markState resetting) := by
    cases st slot <;> cases resetting <;> rfl
  rw [hheader]
  refine (BlockRange.runs_writeSector_flush R.site.addressable hbase _).images ?_ Or.inl
    fun m' hm' => h.of_header_image hslot (Nat.not_lt.mp hsmall) hm'
  rintro _ _ rfl
  refine ⟨_, rfl, ?_⟩
  have himage := (Store.mk m [(R.site.device.start + R.site.slotBase slot,
    R.headerSector slot (markState resetting))]).isImage_visible
  obtain ⟨-, hnew, hsame⟩ := h.of_header hslot (Nat.not_lt.mp hsmall) himage
  exact ⟨hnew (update_self _ _ _), hsame⟩

/-! ## Erasing the log range -/

/-- The writes clear sectors of the log range. -/
def ClearsWal (R : RolloverStart) (ws : List (ℕ × Sector R.site.size)) : Prop :=
  ∀ w ∈ ws, w.2 = Sector.zero R.site.size
    ∧ ∃ lba < R.walSectors, w.1 = R.site.device.start + (R.walStart + lba)

/-- Clearing sectors of the log range does not touch the slots. -/
theorem Rolled.of_clearsWal (h : Rolled R m st) {ws : List (ℕ × Sector R.site.size)}
    (hws : ClearsWal R ws) (hm : Store.IsImage ⟨m, ws⟩ m') :
    Rolled R m' st ∧ (WalZero R m → WalZero R m') := by
  have htwo := R.site.two_le_slotSectors
  have hkeeps : ∀ s ≤ 1, ∀ offset < R.site.slotSectors,
      R.site.sector m' (R.site.slotBase s + offset) =
        R.site.sector m (R.site.slotBase s + offset) := by
    intro s hs offset hoffset
    refine hm.eq_durable fun w hw heq => ?_
    obtain ⟨-, lba, hlba, hw⟩ := hws w hw
    have := R.slotBase_add_ne hs hoffset hlba
    omega
  refine ⟨⟨fun s hs => ?_, fun s hs i hi => ?_, h.fits⟩, fun hzero lba hlba => ?_⟩
  · rw [← h.header s hs]
    exact hkeeps s hs 0 (by omega)
  · rw [← h.stored s hs i hi, Nat.add_assoc]
    exact hkeeps s hs (1 + i) (by omega)
  · rcases hm (R.site.device.start + (R.walStart + lba)) with hold | hmem
    · exact hold.trans (hzero lba hlba)
    · exact (hws _ hmem).1

/-- The batches are single writes of zeros that cover the range from sector one on. -/
theorem eraseLoop_eq (R : RolloverStart) {remaining : ℕ} (hle : remaining ≤ R.walSectors) :
    ∃ ws, (eraseLoop R.site.device R.walStart remaining :
        DiskM (Sector R.site.size) SnapshotBlockStoreError Unit) = DiskM.writeEach .io ws
      ∧ ClearsWal R ws ∧ ∀ lba, 1 ≤ lba → lba < remaining →
        ∃ w ∈ ws, w.1 = R.site.device.start + (R.walStart + lba) := by
  induction remaining using Nat.strong_induction_on with
  | _ remaining ih =>
    rw [eraseLoop]
    by_cases hmore : 1 < remaining
    · rw [dif_pos hmore]
      have hbatch : min (remaining - 1) eraseBatchSectors ≠ 0 := by
        unfold eraseBatchSectors
        omega
      have hbytes : min (remaining - 1) eraseBatchSectors * R.site.size < 2 ^ 64 :=
        (Nat.mul_le_mul_right _ (Nat.min_le_right _ _)).trans_lt (Nat.mul_comm _ _ ▸ R.batch_lt)
      rw [checkedMul_of_lt hbytes]
      generalize hcount : min (remaining - 1) eraseBatchSectors = count at hbatch
      obtain ⟨ws, hloop, hclears, hcovers⟩ := ih (remaining - count) (by omega) (by omega)
      have hinside := R.inside
      have hdata : List.replicate count (Sector.zero R.site.size) ≠ [] := by
        intro hnil
        exact hbatch (by simpa using hnil)
      rw [hloop, BlockRange.writeSectors_eq_writeEach R.site.addressable hdata
        (by rw [length_replicate]; omega), ← DiskM.writeEach_append]
      refine ⟨_, rfl, ?_, ?_⟩
      · intro w hw
        rcases mem_append.mp hw with hw | hw
        · obtain ⟨i, hi, rfl⟩ := BlockRange.mem_enumerate.mp hw
          rw [length_replicate] at hi
          refine ⟨getElem_replicate _, remaining - count + i, by omega, ?_⟩
          omega
        · exact hclears w hw
      · intro lba hpos hlt
        by_cases hlow : lba < remaining - count
        · obtain ⟨w, hw, heq⟩ := hcovers lba hpos hlow
          exact ⟨w, mem_append_right _ hw, heq⟩
        · refine ⟨_, mem_append_left _ (BlockRange.mem_enumerate.mpr
            ⟨lba - (remaining - count), by rw [length_replicate]; omega, rfl⟩), ?_⟩
          omega
    · rw [dif_neg hmore]
      exact ⟨[], rfl, nofun, fun lba hpos hlt => by omega⟩

/-- `erase_old_wal` clears the log range and touches nothing else. -/
theorem runs_eraseOldWal (h : Rolled R m st) :
    Runs env ⟨m, []⟩ (eraseOldWal R.site.device R.walStart R.walSectors)
      (fun _ d => ∃ m', d = ⟨m', []⟩ ∧ Rolled R m' st ∧ WalZero R m')
      (fun _ d => env.faults = true ∧ ∀ m', d.IsImage m' →
        Rolled R m' st ∧ (WalZero R m → WalZero R m'))
      (fun d => env.stops = true ∧ ∀ m', d.IsImage m' →
        Rolled R m' st ∧ (WalZero R m → WalZero R m')) := by
  have hsectors := R.walSectors_ne_zero
  have hinside := R.inside
  obtain ⟨ws, hloop, hclears, hcovers⟩ := eraseLoop_eq R (Nat.le_refl _)
  rw [eraseOldWal, checkedMul_of_lt R.batch_lt]
  rw [hloop, ← bind_assoc]
  refine Runs.bind ((runs_barrier _ ws).weaken (fun _ _ h => h) ?_ ?_) ?_
  · rintro _ d ⟨hfaults, -, hwithin⟩
    exact ⟨hfaults, fun m' hm' => h.of_clearsWal hclears (hwithin m' hm')⟩
  · rintro d ⟨hstops, vs, hvs, rfl⟩
    exact ⟨hstops, fun m' hm' => h.of_clearsWal hclears
      ((Store.mk m []).within_writeAll_of_isPrefix hvs m' hm')⟩
  rintro _ _ rfl
  obtain ⟨hrolled, hzero⟩ := h.of_clearsWal hclears (Store.mk m ws).isImage_visible
  have hfirst : ClearsWal R [(R.site.device.start + R.walStart, Sector.zero R.site.size)] := by
    intro w hw
    rw [mem_singleton.mp hw]
    exact ⟨rfl, 0, by omega, rfl⟩
  refine (BlockRange.runs_writeSector_flush R.site.addressable (by omega) _).images ?_ id ?_
  · rintro _ _ rfl
    refine ⟨_, rfl, (hrolled.of_clearsWal hfirst (Store.mk _ _).isImage_visible).1, ?_⟩
    intro lba hlba
    rcases Nat.eq_zero_or_pos lba with rfl | hpos
    · exact update_self _ _ _
    · have hcleared : R.walSector (overwrite m ws) lba = Sector.zero R.site.size :=
        overwrite_of_forall_eq (hcovers lba hpos hlba) fun w hw _ => (hclears w hw).1
      refine Eq.trans ?_ hcleared
      refine overwrite_of_forall_ne fun w hw => ?_
      rw [mem_singleton.mp hw]
      omega
  · intro m' hm'
    obtain ⟨hrolled', hzero'⟩ := hrolled.of_clearsWal hfirst hm'
    exact ⟨hrolled', fun hz => hzero' (hzero hz)⟩

/-! ## The two operations -/

/-- Every image is at some stage. -/
def Staged (R : RolloverStart) (d : Store (Sector R.site.size)) : Prop :=
  ∀ m, d.IsImage m → ∃ st, Stage R m st

theorem Stage.staged (h : Stage R m st) : Staged R ⟨m, []⟩ := by
  intro m' hm'
  rw [Store.isImage_mk_nil.mp hm']
  exact ⟨st, h⟩

theorem WalSame.walZero (h : WalSame R m m') (hzero : WalZero R m) : WalZero R m' :=
  fun lba hlba => (h lba hlba).trans (hzero lba hlba)

theorem WalSame.walOk (h : WalSame R m m') {a b : HeaderState} (hok : WalOk R m a b) :
    WalOk R m' a b := by
  have hintact : WalIntact R m → WalIntact R m' := fun hi lba hlba =>
    (h lba hlba).trans (hi lba hlba)
  cases a <;> cases b <;> first | exact hintact hok | exact h.walZero hok | exact hok

/-- An old header may become RESETTING at any stage. -/
theorem WalOk.reset (hok : WalOk R m (st 0) (st 1)) (hslot : slot ≤ 1) (hold : st slot = .old) :
    WalOk R m (update st slot .resetting 0) (update st slot .resetting 1) := by
  rcases Nat.le_one_iff_eq_zero_or_eq_one.mp hslot with rfl | rfl
  · rw [hold] at hok
    rw [update_self, update_of_ne (by omega)]
    cases hst : st 1 <;> rw [hst] at hok <;> first | exact hok | trivial
  · rw [hold] at hok
    rw [update_of_ne (by omega)]
    cases hst : st 0 <;> rw [hst] at hok <;> first | exact hok | trivial

/-- A header barrier that makes an old header RESETTING. -/
theorem runs_writeHeader_resetting (h : Stage R m st) (hslot : slot ≤ 1) (hold : st slot = .old) :
    Runs env ⟨m, []⟩ (writeHeader R.site.store R.site.device (R.headerPlan slot (st slot)) R.next
        true)
      (fun _ d => ∃ m', d = ⟨m', []⟩ ∧ Stage R m' (update st slot .resetting))
      (fun _ d => (env.faults = true ∨ R.site.size < walResetHeaderLen) ∧ Staged R d)
      (fun d => env.stops = true ∧ Staged R d) := by
  obtain ⟨hrolled, hok⟩ := h
  refine (runs_writeHeader hrolled hslot true).images ?_ id ?_
  · rintro _ d ⟨m', rfl, hrolled', hsame⟩
    exact ⟨m', rfl, hrolled', hsame.walOk (hok.reset hslot hold)⟩
  · rintro m' ⟨hfound | hfound, hsame⟩
    · exact ⟨st, hfound, hsame.walOk hok⟩
    · exact ⟨_, hfound, hsame.walOk (hok.reset hslot hold)⟩

/-- The reads of `paired` at a stage find the headers of the stage. -/
theorem runs_paired_bind {α : Type}
    {E : SnapshotBlockStoreError → Store (Sector R.site.size) → Prop}
    {C : Store (Sector R.site.size) → Prop} {Q : α → Store (Sector R.site.size) → Prop}
    {f : SlotReadPlan × SlotReadPlan → DiskM (Sector R.site.size) SnapshotBlockStoreError α}
    (h : Rolled R m st)
    (hok : Runs env ⟨m, []⟩ (f (R.headerPlan 0 (st 0), R.headerPlan 1 (st 1))) Q E C)
    (herr : env.faults = true → ∀ e, E e ⟨m, []⟩) :
    Runs env ⟨m, []⟩ (query (paired R.site.store R.site.device) >>= f) Q E C := by
  refine runs_query_bind (fun read hread => ?_) ?_ ?_
  · exact (readValidSlotPlan_ioOr hread 0).bind fun _ => (IoOr.refl _).bind fun _ =>
      (readValidSlotPlan_ioOr hread 1).bind fun _ => (IoOr.refl _).bind fun _ => IoOr.refl _
  · intro plans hplans
    change paired R.site.store R.site.device (readAll m) = .ok plans at hplans
    rw [h.paired_eq] at hplans
    cases hplans
    exact hok
  · rintro e (hfaults | hfound)
    · exact herr hfaults e
    · change paired R.site.store R.site.device (readAll m) = .error e at hfound
      rw [h.paired_eq] at hfound
      cases hfound

/-- `publish_resetting` makes one header RESETTING. -/
theorem runs_publishEffects (h : Stage R m fun _ => .old) (phase : RolloverPhase) :
    Runs env ⟨m, []⟩ (R.owner phase).publishEffects
      (fun _ d => ∃ m' st', d = ⟨m', []⟩ ∧ Stage R m' st' ∧ HasReset st')
      (fun _ d => Staged R d) (fun d => Staged R d) := by
  refine runs_paired_bind h.1 ?_ fun _ _ => h.staged
  obtain ⟨slot, hslot, holder⟩ : ∃ slot ≤ 1,
      (if (R.headerPlan 0 .old).generation < (R.headerPlan 1 .old).generation
        then R.headerPlan 0 .old else R.headerPlan 1 .old) = R.headerPlan slot .old := by
    split_ifs
    · exact ⟨0, by omega, rfl⟩
    · exact ⟨1, by omega, rfl⟩
  rw [holder]
  refine (runs_writeHeader_resetting h hslot rfl).weaken ?_ (fun _ _ h => h.2) fun _ h => h.2
  rintro _ d ⟨m', rfl, hstage⟩
  refine ⟨m', _, rfl, hstage, ?_⟩
  rcases Nat.le_one_iff_eq_zero_or_eq_one.mp hslot with rfl | rfl
  · exact Or.inl (update_self _ _ _)
  · exact Or.inr (update_self _ _ _)

/-- A round of the first loop of `finish`. -/
theorem runs_resetOld (h : Stage R m st) (hreset : HasReset st) (hslot : slot ≤ 1)
    (phase : RolloverPhase) :
    Runs env ⟨m, []⟩ ((R.owner phase).resetOld (R.headerPlan slot (st slot)))
      (fun _ d => ∃ m' st', d = ⟨m', []⟩ ∧ Stage R m' st' ∧ HasReset st' ∧ st' slot ≠ .old
        ∧ ∀ s, s ≠ slot → st' s = st s)
      (fun _ d => env.faults = true ∧ Staged R d) (fun d => env.stops = true ∧ Staged R d) := by
  have hfits : walResetHeaderLen ≤ R.site.size := by
    rcases hreset with h₀ | h₁
    · exact h.1.fits 0 (by omega) (by rw [h₀]; nofun)
    · exact h.1.fits 1 (by omega) (by rw [h₁]; nofun)
  have hkept : st slot ≠ .old → ∃ m' st', Store.mk m [] = ⟨m', []⟩ ∧ Stage R m' st' ∧ HasReset st'
      ∧ st' slot ≠ .old ∧ ∀ s, s ≠ slot → st' s = st s := fun hne =>
    ⟨m, st, rfl, h, hreset, hne, fun _ _ => rfl⟩
  rw [resetOld]
  by_cases hmark : st slot = .resetting
  · rw [if_pos ((headerPlan_resetting_iff hslot).mpr hmark)]
    exact runs_pure (hkept (by rw [hmark]; nofun))
  rw [if_neg fun h => hmark ((headerPlan_resetting_iff hslot).mp h)]
  by_cases hold : st slot = .old
  · -- the only header that is rewritten
    have hwal : (R.headerPlan slot (st slot)).wal
        = some ⟨R.old.incarnation, R.old.serial, R.old.serial, R.old.endLba⟩ := by
      rw [hold]
      exact R.manifest slot hslot
    rw [hwal]
    refine runs_lift_bind ?_ nofun
    rintro _ ⟨⟩
    rw [if_pos fun h => R.next_ne h.symm]
    refine (runs_writeHeader_resetting h hslot hold).weaken ?_ ?_ fun _ h => h
    · rintro _ d ⟨m', rfl, hstage⟩
      refine ⟨m', _, rfl, hstage, ?_, by rw [update_self]; nofun, fun s hs => update_of_ne hs _ _⟩
      rcases Nat.le_one_iff_eq_zero_or_eq_one.mp hslot with rfl | rfl
      · exact Or.inl (update_self _ _ _)
      · exact Or.inr (update_self _ _ _)
    · rintro _ d ⟨hcause, hstaged⟩
      exact ⟨hcause.resolve_right (Nat.not_lt.mpr hfits), hstaged⟩
  · rw [headerPlan_wal_of_ne hold]
    refine runs_lift_bind ?_ nofun
    rintro _ ⟨⟩
    have hsame : (emptyManifest R.next).incarnation = (R.owner phase).nextIncarnation := rfl
    rw [if_neg (not_not.mpr hsame)]
    exact runs_pure (hkept hold)

/-- A round of the last loop of `finish`. -/
theorem runs_readyReset (h : Rolled R m st) (hzero : WalZero R m) (hslot : slot ≤ 1)
    (hne : st slot ≠ .old) (phase : RolloverPhase) :
    Runs env ⟨m, []⟩ ((R.owner phase).readyReset (R.headerPlan slot (st slot)))
      (fun _ d => ∃ m', d = ⟨m', []⟩ ∧ Rolled R m' (update st slot .ready) ∧ WalZero R m')
      (fun _ d => env.faults = true ∧ ∀ m', d.IsImage m' →
        (Rolled R m' st ∨ Rolled R m' (update st slot .ready)) ∧ WalZero R m')
      (fun d => env.stops = true ∧ ∀ m', d.IsImage m' →
        (Rolled R m' st ∨ Rolled R m' (update st slot .ready)) ∧ WalZero R m') := by
  rw [readyReset]
  by_cases hmark : st slot = .resetting
  · rw [if_pos ((headerPlan_resetting_iff hslot).mpr hmark)]
    refine (runs_writeHeader h hslot false).images ?_ (fun hcause => ?_)
      fun m' hm' => ⟨hm'.1, hm'.2.walZero hzero⟩
    · rintro _ d ⟨m', rfl, hrolled, hsame⟩
      exact ⟨m', rfl, hrolled, hsame.walZero hzero⟩
    · exact hcause.resolve_right (Nat.not_lt.mpr (h.fits slot hslot hne))
  · rw [if_neg fun h => hmark ((headerPlan_resetting_iff hslot).mp h)]
    have hready : st slot = .ready := by
      cases hst : st slot with
      | old => exact absurd hst hne
      | resetting => exact absurd hst hmark
      | ready => rfl
    refine runs_pure ⟨m, rfl, h.congr fun s hs => ?_, hzero⟩
    by_cases heq : s = slot
    · rw [heq, update_self, hready]
    · rw [update_of_ne heq]

/-- Both headers have left their old state, slot 0 first. -/
structure LeftOld (st : ℕ → HeaderState) : Prop where
  first : st 0 ≠ .old
  second : st 1 ≠ .old
  order : st 1 = .ready → st 0 = .ready

theorem LeftOld.setReady (h : LeftOld st) : LeftOld (update st 0 .ready) :=
  ⟨by simp, by simpa using h.second, by simp⟩

/-- Then only an erased log range is needed once a header is READY. -/
theorem LeftOld.walOk (h : LeftOld st) (hzero : st 0 = .ready → WalZero R m) :
    WalOk R m (st 0) (st 1) := by
  cases h₀ : st 0 with
  | old => exact absurd h₀ h.first
  | resetting =>
    cases h₁ : st 1 with
    | old => exact absurd h₁ h.second
    | resetting => trivial
    | ready =>
      rw [h.order h₁] at h₀
      cases h₀
  | ready =>
    cases h₁ : st 1 with
    | old => exact absurd h₁ h.second
    | resetting | ready => exact hzero h₀

theorem Stage.walZero (h : Stage R m st) (hleft : LeftOld st) (hready : st 0 = .ready) :
    WalZero R m := by
  have hok := h.2
  rw [hready] at hok
  cases h₁ : st 1 with
  | old => exact absurd h₁ hleft.second
  | resetting | ready => rwa [h₁] at hok

theorem Stage.leftOld (h : Stage R m st) (hfirst : st 0 ≠ .old) (hsecond : st 1 ≠ .old) :
    LeftOld st := by
  refine ⟨hfirst, hsecond, fun h₁ => ?_⟩
  have hok := h.2
  rw [h₁] at hok
  cases h₀ : st 0 with
  | old => exact absurd h₀ hfirst
  | resetting =>
    rw [h₀] at hok
    exact hok.elim
  | ready => rfl

/-- The last loop of `finish`: slot 0 becomes READY before slot 1. -/
theorem runs_readyBoth (h : Rolled R m st) (hzero : WalZero R m) (hleft : LeftOld st)
    (phase : RolloverPhase) :
    Runs env ⟨m, []⟩ ((R.owner phase).readyReset (R.headerPlan 0 (st 0)) >>= fun _ =>
        (R.owner phase).readyReset (R.headerPlan 1 (st 1)))
      (fun _ d => ∃ m', d = ⟨m', []⟩ ∧ Stage R m' fun _ => .ready)
      (fun _ d => env.faults = true ∧ Staged R d) (fun d => env.stops = true ∧ Staged R d) := by
  refine Runs.bind ((runs_readyReset h hzero (Nat.zero_le 1) hleft.first phase).images
    (fun _ _ h => h) id ?_) ?_
  · rintro m' ⟨hrolled | hrolled, hz⟩
    · exact ⟨_, hrolled, hleft.walOk fun _ => hz⟩
    · exact ⟨_, hrolled, hleft.setReady.walOk fun _ => hz⟩
  rintro _ _ ⟨m₁, rfl, hrolled₁, hzero₁⟩
  have hready : ∀ m', Rolled R m' (update (update st 0 .ready) 1 .ready) →
      WalZero R m' → Stage R m' fun _ => .ready := by
    intro m' hrolled hz
    refine ⟨hrolled.congr fun s hs => ?_, hz⟩
    rcases Nat.le_one_iff_eq_zero_or_eq_one.mp hs with rfl | rfl
    · simp
    · simp
  have hother : st 1 = update st 0 .ready 1 := (update_of_ne (by omega) _ _).symm
  refine (runs_readyReset hrolled₁ hzero₁ (Nat.le_refl 1) hleft.setReady.second phase).images
    ?_ id ?_
  · rintro _ d ⟨m₂, rfl, hrolled₂, hzero₂⟩
    exact ⟨m₂, rfl, hready m₂ hrolled₂ hzero₂⟩
  · rintro m' ⟨hrolled | hrolled, hz⟩
    · exact ⟨_, hrolled, hleft.setReady.walOk fun _ => hz⟩
    · exact ⟨_, hready m' hrolled hz⟩

/-- `finish` completes the rollover from every stage with a RESETTING header. -/
theorem runs_finishEffects (h : Stage R m st) (hreset : HasReset st) (phase : RolloverPhase) :
    Runs env ⟨m, []⟩ (R.owner phase).finishEffects
      (fun _ d => ∃ m', d = ⟨m', []⟩ ∧ Stage R m' fun _ => .ready)
      (fun _ d => env.faults = true ∧ Staged R d) (fun d => env.stops = true ∧ Staged R d) := by
  refine runs_paired_bind h.1 ?_ fun hfaults _ => ⟨hfaults, h.staged⟩
  -- the first loop
  refine (runs_resetOld h hreset (Nat.zero_le 1) phase).bind ?_
  rintro _ _ ⟨m₀, st₀, rfl, hstage₀, hreset₀, hfirst, hothers₀⟩
  rw [← hothers₀ 1 (by omega)]
  refine (runs_resetOld hstage₀ hreset₀ (Nat.le_refl 1) phase).bind ?_
  rintro _ _ ⟨m₁, st₁, rfl, hstage₁, -, hsecond, hothers₁⟩
  rw [← hothers₁ 0 (by omega)] at hfirst
  have hleft := hstage₁.leftOld hfirst hsecond
  refine runs_paired_bind hstage₁.1 ?_ fun hfaults _ => ⟨hfaults, hstage₁.staged⟩
  have hempty :
      ¬ ((R.headerPlan 0 (st₁ 0)).wal ≠ some (emptyManifest (R.owner phase).nextIncarnation)
      ∨ (R.headerPlan 1 (st₁ 1)).wal ≠ some (emptyManifest (R.owner phase).nextIncarnation)) := by
    rw [headerPlan_wal_of_ne hleft.first,
      headerPlan_wal_of_ne hleft.second, not_or, not_not]
    exact ⟨rfl, rfl⟩
  rw [if_neg hempty]
  -- a log range that is already zero stays zero while it is erased again
  refine Runs.bind ((runs_eraseOldWal hstage₁.1).images (fun _ _ h => h) id fun m' hm' =>
    ⟨st₁, hm'.1, hleft.walOk fun hready => hm'.2 (hstage₁.walZero hleft hready)⟩) ?_
  rintro _ _ ⟨m₂, rfl, hrolled₂, hzero₂⟩
  exact runs_readyBoth hrolled₂ hzero₂ hleft phase

end UserspaceNtos.Fs
