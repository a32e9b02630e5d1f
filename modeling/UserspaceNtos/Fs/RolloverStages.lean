import UserspaceNtos.Fs.WalAnchorUpdate
import UserspaceNtos.Fs.SnapshotPublish

/-!
# The stages of a rollover

During a rollover each of the two headers is in one of three states: as it was,
RESETTING, or READY in the new incarnation.  `Rolled R m st` says that the contents `m`
are those at the start except for headers in the states `st` and the log range.
`WalOk` says what the log range holds in each combination: it is intact while an old
header is left, and zero once a READY header is there.  A `Stage` is a combination that
occurs; `Stage.resume_eq` says that `resume` accepts every stage with a RESETTING
header, and `Stage.readLatest_eq` that the selected snapshot is always the same.
-/

namespace UserspaceNtos.Fs

open CachedStorage SnapshotBlockStore

/-!
## Retiring an incarnation of the log

`snapshot_epoch_rollover.rs`.  Once every record of the log is folded into both
snapshots, the log is erased and both headers move to a new incarnation.  The headers
pass through a RESETTING form: `publish_resetting` writes the first of them, `finish`
the second, then erases the log and writes both READY headers.  `resume` takes over
after a reboot from the headers alone.

The owner of the source holds the device; here it is the view of the device.
-/

/-- `Phase` of the rollover. -/
inductive RolloverPhase where
  | admitted
  | resetting
  | complete
  | uncertain
  deriving DecidableEq, Repr

/-- `WalSnapshotEpochRollover` -/
structure EpochRollover where
  device : BlockRange
  store : SnapshotBlockStore
  walStart : ℕ
  walSectors : ℕ
  nextIncarnation : ℕ
  phase : RolloverPhase
  deriving DecidableEq, Repr

/-- `BoundedBlockRange::new` on a view of a device. -/
def BlockRange.bounded (device : BlockRange) (start sectors : ℕ) : Option BlockRange :=
  match checkedAdd start sectors with
  | none => none
  | some stop =>
    if sectors ≠ 0 ∧ stop ≤ device.sectors then some ⟨device.start + start, sectors⟩ else none

/-- The manifest of an incarnation without records. -/
def emptyManifest (incarnation : ℕ) : WalSnapshotManifest := ⟨incarnation, 0, 0, 0⟩

/-- The header that `write_header` gives a slot. -/
def rolloverHeader (plan : SlotReadPlan) (nextIncarnation : ℕ) (resetting : Bool) : SlotHeader :=
  { plan with wal := some (emptyManifest nextIncarnation), resetting := resetting }

/-- `BATCH_SECTORS` of `erase_old_wal` -/
def eraseBatchSectors : ℕ := 64

namespace EpochRollover

variable {size : ℕ}

/-- `paired` -/
def paired (store : SnapshotBlockStore) (device : BlockRange) (read : ReadSector size) :
    Except SnapshotBlockStoreError (SlotReadPlan × SlotReadPlan) := do
  let a ← orCorrupt (← store.readValidSlotPlan device read 0)
  let b ← orCorrupt (← store.readValidSlotPlan device read 1)
  if a.generation = b.generation then .error .corrupt else .ok (a, b)

/-- `write_header` -/
def writeHeader (store : SnapshotBlockStore) (device : BlockRange) (plan : SlotReadPlan)
    (nextIncarnation : ℕ) (resetting : Bool) :
    DiskM (Sector size) SnapshotBlockStoreError Unit := do
  let slotSectors ← DiskM.lift (store.geometry device size)
  if size < walResetHeaderLen then DiskM.fail .invalidGeometry
  else do
    let lba ← DiskM.lift (store.slotLba slotSectors plan.slot)
    device.writeSector lba ((rolloverHeader plan nextIncarnation resetting).encodeHeader size)
    DiskM.flush .io

/-- The loop of `erase_old_wal`: batches from the end down to sector one. -/
def eraseLoop (device : BlockRange) (start remaining : ℕ) :
    DiskM (Sector size) SnapshotBlockStoreError Unit :=
  if _h : 1 < remaining then
    match checkedMul (min (remaining - 1) eraseBatchSectors) size with
    | none => DiskM.fail .invalidGeometry
    | some _ => do
        device.writeSectors (start + (remaining - min (remaining - 1) eraseBatchSectors))
          (List.replicate (min (remaining - 1) eraseBatchSectors) (Sector.zero size))
        eraseLoop device start (remaining - min (remaining - 1) eraseBatchSectors)
  else pure ()
termination_by remaining
decreasing_by
  unfold eraseBatchSectors
  omega

/-- `erase_old_wal` -/
def eraseOldWal (device : BlockRange) (start sectors : ℕ) :
    DiskM (Sector size) SnapshotBlockStoreError Unit :=
  match checkedMul size eraseBatchSectors with
  | none => DiskM.fail .invalidGeometry
  | some _ => do
      eraseLoop device start sectors
      DiskM.flush .io
      device.writeSector start (Sector.zero size)
      DiskM.flush .io

/-- The two ranges as `admit` and `resume` check them: both ends, unless they overflow. -/
def rangeEnds (store : SnapshotBlockStore) (walStart walSectors : ℕ) :
    Except SnapshotBlockStoreError (ℕ × ℕ) :=
  match checkedAdd store.startLba store.sectorCount, checkedAdd walStart walSectors with
  | some snapshotEnd, some walEnd => .ok (snapshotEnd, walEnd)
  | _, _ => .error .invalidGeometry

/-- The snapshot has folded every record up to `old`. -/
def isFolded (old : WalSnapshotAnchor) (plan : SlotReadPlan) : Bool :=
  !plan.resetting && plan.wal.any fun wal => wal.anchor = old && wal.baseSerial = old.serial

/-- `admit`, for a log range whose settled end is `old`. -/
def admitRollover (store : SnapshotBlockStore) (device : BlockRange) (old : WalSnapshotAnchor)
    (walStart walSectors nextIncarnation : ℕ) (read : ReadSector size) :
    Except SnapshotBlockStoreError EpochRollover := do
  let (snapshotEnd, walEnd) ← rangeEnds store walStart walSectors
  if nextIncarnation = 0 ∨ nextIncarnation = old.incarnation ∨ old.serial = 0 ∨ walSectors = 0
      ∨ walStart < snapshotEnd ∧ walEnd > store.startLba then
    .error .corrupt
  else do
    let plans ← paired store device read
    if ¬ isFolded old plans.1 ∨ ¬ isFolded old plans.2 then .error .corrupt
    else .ok ⟨device, store, walStart, walSectors, nextIncarnation, .admitted⟩

/-- The effects of `publish_resetting`. -/
def publishEffects (rollover : EpochRollover) :
    DiskM (Sector size) SnapshotBlockStoreError Unit := do
  let plans ← query (paired rollover.store rollover.device)
  let older := if plans.1.generation < plans.2.generation then plans.1 else plans.2
  writeHeader rollover.store rollover.device older rollover.nextIncarnation true

/-- `publish_resetting` -/
def publishResetting (rollover : EpochRollover) :
    DiskM (Sector size) Empty (Except SnapshotBlockStoreError Unit × EpochRollover) :=
  if rollover.phase ≠ .admitted then pure (.error .corrupt, rollover)
  else do
    let result ← DiskM.attempt rollover.publishEffects
    match result with
    | .ok () => pure (.ok (), { rollover with phase := .resetting })
    | .error e => pure (.error e, { rollover with phase := .uncertain })

/-- The check of `resume` on one slot; `next` is the manifest of a RESETTING slot. -/
def checkResumed (device : BlockRange) (walStart walSectors : ℕ) (read : ReadSector size)
    (next : WalSnapshotManifest) (plan : SlotReadPlan) : Except SnapshotBlockStoreError Unit := do
  let wal ← orCorrupt plan.wal
  if plan.resetting then
    if wal ≠ next then .error .corrupt else .ok ()
  else if wal.incarnation ≠ next.incarnation then
    if wal.baseSerial ≠ wal.highWaterSerial ∨ wal.highWaterSerial = 0 then .error .corrupt
    else
      match device.bounded walStart walSectors with
      | none => .error .invalidGeometry
      | some range =>
        match RegistryWal.recover range read wal.incarnation with
        | .error _ => .error .corrupt
        | .ok recovered =>
          if recovered.phase ≠ .ready ∨ recovered.settledAnchor ≠ some wal.anchor then
            .error .corrupt
          else .ok ()
  else if wal ≠ next then .error .corrupt
  else .ok ()

/-- `resume` -/
def resume (store : SnapshotBlockStore) (device : BlockRange) (walStart walSectors : ℕ)
    (read : ReadSector size) : Except SnapshotBlockStoreError EpochRollover := do
  let (snapshotEnd, walEnd) ← rangeEnds store walStart walSectors
  if walSectors = 0 ∨ walStart < snapshotEnd ∧ walEnd > store.startLba then .error .corrupt
  else do
    let plans ← paired store device read
    let resetting ← orCorrupt
      (if plans.1.resetting then some plans.1 else if plans.2.resetting then some plans.2 else none)
    let next ← orCorrupt resetting.wal
    if next.baseSerial ≠ 0 ∨ next.highWaterSerial ≠ 0 ∨ next.highWaterEndLba ≠ 0
        ∨ device.sectors < walEnd then
      .error .corrupt
    else do
      checkResumed device walStart walSectors read next plans.1
      checkResumed device walStart walSectors read next plans.2
      .ok ⟨device, store, walStart, walSectors, next.incarnation, .resetting⟩

/-- A round of the first loop of `finish`: an old header becomes RESETTING. -/
def resetOld (rollover : EpochRollover) (plan : SlotReadPlan) :
    DiskM (Sector size) SnapshotBlockStoreError Unit :=
  if plan.resetting then pure ()
  else do
    let wal ← DiskM.lift (orCorrupt plan.wal)
    if wal.incarnation ≠ rollover.nextIncarnation then
      writeHeader rollover.store rollover.device plan rollover.nextIncarnation true
    else pure ()

/-- A round of the last loop of `finish`: a RESETTING header becomes READY. -/
def readyReset (rollover : EpochRollover) (plan : SlotReadPlan) :
    DiskM (Sector size) SnapshotBlockStoreError Unit :=
  if plan.resetting then
    writeHeader rollover.store rollover.device plan rollover.nextIncarnation false
  else pure ()

/-- The effects of `finish`. -/
def finishEffects (rollover : EpochRollover) :
    DiskM (Sector size) SnapshotBlockStoreError Unit := do
  let plans ← query (paired rollover.store rollover.device)
  rollover.resetOld plans.1
  rollover.resetOld plans.2
  let plans ← query (paired rollover.store rollover.device)
  let empty := emptyManifest rollover.nextIncarnation
  if plans.1.wal ≠ some empty ∨ plans.2.wal ≠ some empty then DiskM.fail .corrupt
  else do
    eraseOldWal rollover.device rollover.walStart rollover.walSectors
    rollover.readyReset plans.1
    rollover.readyReset plans.2

/-- `finish` -/
def finish (rollover : EpochRollover) :
    DiskM (Sector size) Empty (Except SnapshotBlockStoreError Unit × EpochRollover) :=
  if rollover.phase ≠ .resetting then pure (.error .corrupt, rollover)
  else do
    let result ← DiskM.attempt rollover.finishEffects
    match result with
    | .ok () => pure (.ok (), { rollover with phase := .complete })
    | .error e => pure (.error e, { rollover with phase := .uncertain })

end EpochRollover

open EpochRollover

/-- A rollover that was admitted: the contents at its start, with two valid snapshots that
have folded the settled log up to `old`, and a new incarnation. -/
structure RolloverStart where
  site : SnapshotSite
  start : site.Contents
  walStart : ℕ
  walSectors : ℕ
  next : ℕ
  old : WalSnapshotAnchor
  plan : ℕ → SlotReadPlan
  wal : RegistryWal site.size
  slot_eq : ∀ slot ≤ 1, (plan slot).slot = slot
  holds : ∀ slot ≤ 1, Holds site start (plan slot) (site.slotPayload start (plan slot))
  ready : ∀ slot ≤ 1, (plan slot).resetting = false
  generation_ne : (plan 0).generation ≠ (plan 1).generation
  manifest : ∀ slot ≤ 1,
    (plan slot).wal = some ⟨old.incarnation, old.serial, old.serial, old.endLba⟩
  serial_ne_zero : old.serial ≠ 0
  next_ne_zero : next ≠ 0
  next_ne : next ≠ old.incarnation
  next_lt : next < 2 ^ 64
  walSectors_ne_zero : walSectors ≠ 0
  disjoint : site.store.startLba + site.store.sectorCount ≤ walStart
    ∨ walStart + walSectors ≤ site.store.startLba
  inside : walStart + walSectors ≤ site.device.sectors
  batch_lt : site.size * eraseBatchSectors < 2 ^ 64
  recovers : RegistryWal.recover ⟨site.device.start + walStart, walSectors⟩ (readAll start)
    old.incarnation = .ok wal
  settled : wal.settledAnchor = some old

/-- The states of a header. -/
inductive HeaderState where
  | old
  | resetting
  | ready
  deriving DecidableEq, Repr

variable {R : RolloverStart} {m m' : R.site.Contents} {st st' : ℕ → HeaderState} {slot : ℕ}

namespace RolloverStart

variable (R)

/-- The payload of a slot. -/
def payload (slot : ℕ) : List UInt8 := R.site.slotPayload R.start (R.plan slot)

/-- The header of a slot in a state. -/
def headerPlan (slot : ℕ) : HeaderState → SlotReadPlan
  | .old => R.plan slot
  | .resetting => rolloverHeader (R.plan slot) R.next true
  | .ready => rolloverHeader (R.plan slot) R.next false

/-- The header sector of a slot in a state. -/
def headerSector (slot : ℕ) : HeaderState → Sector R.site.size
  | .old => R.site.sector R.start (R.site.slotBase slot)
  | state => (R.headerPlan slot state).encodeHeader R.site.size

/-- A sector of the log range. -/
def walSector (m : R.site.Contents) (lba : ℕ) : Sector R.site.size :=
  R.site.sector m (R.walStart + lba)

/-- The owner of the rollover in a phase. -/
def owner (phase : RolloverPhase) : EpochRollover :=
  ⟨R.site.device, R.site.store, R.walStart, R.walSectors, R.next, phase⟩

variable {R}

theorem headerPlan_slot {slot : ℕ} (hslot : slot ≤ 1) (state : HeaderState) :
    (R.headerPlan slot state).slot = slot := by
  cases state with
  | old | resetting | ready => exact R.slot_eq slot hslot

theorem headerPlan_generation (slot : ℕ) (state : HeaderState) :
    (R.headerPlan slot state).generation = (R.plan slot).generation := by
  cases state with
  | old | resetting | ready => rfl

variable {state : HeaderState}

theorem headerPlan_resetting_iff {slot : ℕ} (hslot : slot ≤ 1) :
    (R.headerPlan slot state).resetting = true ↔ state = .resetting := by
  cases state with
  | old => simp [headerPlan, R.ready slot hslot]
  | resetting | ready => simp [headerPlan, rolloverHeader]

theorem headerPlan_wal_of_ne (hstate : state ≠ .old) (slot : ℕ) :
    (R.headerPlan slot state).wal = some (emptyManifest R.next) := by
  cases state with
  | old => exact absurd rfl hstate
  | resetting | ready => rfl

end RolloverStart

/-! ## Contents -/

/-- The contents are those at the start except for headers in the states `st` and the
log range. -/
structure Rolled (R : RolloverStart) (m : R.site.Contents) (st : ℕ → HeaderState) : Prop where
  header : ∀ slot ≤ 1, R.site.sector m (R.site.slotBase slot) = R.headerSector slot (st slot)
  stored : ∀ slot ≤ 1, ∀ i < R.site.slotSectors - 1,
    R.site.sector m (R.site.slotBase slot + 1 + i)
      = R.site.sector R.start (R.site.slotBase slot + 1 + i)
  fits : ∀ slot ≤ 1, st slot ≠ .old → walResetHeaderLen ≤ R.site.size

/-- The log range is as it was. -/
def WalIntact (R : RolloverStart) (m : R.site.Contents) : Prop :=
  ∀ lba < R.walSectors, R.walSector m lba = R.walSector R.start lba

/-- The log range is erased. -/
def WalZero (R : RolloverStart) (m : R.site.Contents) : Prop :=
  ∀ lba < R.walSectors, R.walSector m lba = Sector.zero R.site.size

/-- What the log range holds for the states of the two headers; the other combinations
do not occur. -/
def WalOk (R : RolloverStart) (m : R.site.Contents) : HeaderState → HeaderState → Prop
  | .old, .old | .old, .resetting | .resetting, .old => WalIntact R m
  | .resetting, .resetting => True
  | .ready, .resetting | .ready, .ready => WalZero R m
  | _, _ => False

/-- A stage of the rollover. -/
def Stage (R : RolloverStart) (m : R.site.Contents) (st : ℕ → HeaderState) : Prop :=
  Rolled R m st ∧ WalOk R m (st 0) (st 1)

theorem Rolled.congr (h : Rolled R m st) (heq : ∀ slot ≤ 1, st' slot = st slot) :
    Rolled R m st' where
  header := fun slot hslot => by rw [h.header slot hslot, heq slot hslot]
  stored := h.stored
  fits := fun slot hslot => by rw [heq slot hslot]; exact h.fits slot hslot

/-- A header of the new incarnation is valid. -/
theorem RolloverStart.encodable_rolloverHeader (hslot : slot ≤ 1)
    (hsize : walResetHeaderLen ≤ R.site.size) (resetting : Bool) :
    (rolloverHeader (R.plan slot) R.next resetting).Encodable R.site.size := by
  have henc := encodable_of_slotPlan (R.holds slot hslot).header
  have hne := R.next_ne_zero
  refine ⟨?_, henc.slot, henc.generation, henc.payloadLen, henc.payloadSectors, ?_, fun _ => rfl⟩
  · cases resetting with
    | false =>
      have hle : walHeaderLen ≤ walResetHeaderLen := by decide
      exact hle.trans hsize
    | true => exact hsize
  · rintro _ ⟨⟩
    have hzero : 0 < 2 ^ 64 := by decide
    exact ⟨⟨R.next_lt, hzero, hzero, hzero⟩,
      by simp [WalSnapshotManifest.valid, emptyManifest, hne]⟩

section

variable (h : Rolled R m st)
include h

theorem Rolled.slotPlan (hslot : slot ≤ 1) :
    R.site.slotPlan slot (R.site.sector m (R.site.slotBase slot))
      = .ok (some (R.headerPlan slot (st slot))) := by
  have hold := R.holds slot hslot
  have hbounded := hold.bounded
  have hrewritten : ∀ resetting : Bool, st slot ≠ .old → R.site.slotPlan slot
        ((rolloverHeader (R.plan slot) R.next resetting).encodeHeader R.site.size)
        = .ok (some (rolloverHeader (R.plan slot) R.next resetting)) := by
    intro resetting hne
    have henc := R.encodable_rolloverHeader hslot (h.fits slot hslot hne) resetting
    have hplan := slotPlan_encodeHeader henc
      ⟨hbounded.slot_le, hbounded.payloadSectors_le, hbounded.payloadLen_le⟩
    have hslot' : (rolloverHeader (R.plan slot) R.next resetting).slot = slot :=
      R.slot_eq slot hslot
    rwa [hslot'] at hplan
  rw [h.header slot hslot]
  cases hstate : st slot with
  | old =>
    have hslotPlan := hold.header
    rw [R.slot_eq slot hslot] at hslotPlan
    exact hslotPlan
  | resetting => exact hrewritten true (by rw [hstate]; nofun)
  | ready => exact hrewritten false (by rw [hstate]; nofun)

open RolloverStart

/-- Both slots hold their payloads all the time. -/
theorem Rolled.holds (hslot : slot ≤ 1) :
    Holds R.site m (R.headerPlan slot (st slot)) (R.payload slot) := by
  have hold := R.holds slot hslot
  have hpayload : R.site.slotPayload m (R.plan slot) = R.payload slot := by
    have hle := hold.bounded.payloadSectors_le
    unfold payload SnapshotSite.slotPayload SnapshotSite.slotBytes
    rw [R.slot_eq slot hslot]
    congr 1
    refine List.flatMap_congr fun i hi => ?_
    have hi := List.mem_range.mp hi
    rw [h.stored slot hslot i (by omega)]
  refine ⟨?_, ?_, ?_, ?_⟩
  · rw [headerPlan_slot hslot]
    exact hslot
  · rw [headerPlan_slot hslot]
    exact h.slotPlan hslot
  · cases st slot with
    | old | resetting | ready => exact hpayload
  · cases st slot with
    | old | resetting | ready => exact hold.crc

theorem Rolled.readValidSlotPlan (hslot : slot ≤ 1) :
    R.site.store.readValidSlotPlan R.site.device (readAll m) slot
      = .ok (some (R.headerPlan slot (st slot))) := by
  have hread := (h.holds hslot).readValidSlotPlan
  rwa [headerPlan_slot hslot] at hread

theorem Rolled.readSlotPlan (hslot : slot ≤ 1) :
    R.site.store.readSlotPlan R.site.device (readAll m) slot
      = .ok (some (R.headerPlan slot (st slot))) := by
  rw [readSlotPlan_readAll hslot, h.slotPlan hslot]

theorem Rolled.paired_eq : paired R.site.store R.site.device (readAll m)
      = .ok (R.headerPlan 0 (st 0), R.headerPlan 1 (st 1)) := by
  have hne : (R.headerPlan 0 (st 0)).generation ≠ (R.headerPlan 1 (st 1)).generation := by
    rw [headerPlan_generation, headerPlan_generation]
    exact R.generation_ne
  rw [paired, h.readValidSlotPlan (by omega)]
  show (R.site.store.readValidSlotPlan R.site.device (readAll m) 1 >>= _) = _
  rw [h.readValidSlotPlan (by omega)]
  exact if_neg hne

/-- The snapshot that is selected is the one at the start. -/
theorem Rolled.readLatest_eq : R.site.store.readLatest R.site.device (readAll m)
      = R.site.store.readLatest R.site.device (readAll R.start) := by
  have hread : ∀ {n : R.site.Contents} {sts : ℕ → HeaderState}, Rolled R n sts →
      R.site.store.readLatest R.site.device (readAll n)
        = .ok (some (if (R.plan 0).generation < (R.plan 1).generation
            then ⟨(R.plan 1).generation, R.payload 1⟩
            else ⟨(R.plan 0).generation, R.payload 0⟩)) := by
    intro n sts hn
    have h₀ := (hn.holds (Nat.zero_le 1)).readSlot
    have h₁ := (hn.holds (Nat.le_refl 1)).readSlot
    rw [headerPlan_slot (by omega), headerPlan_generation] at h₀ h₁
    rw [SnapshotBlockStore.readLatest, h₀, h₁]
    show Except.ok (Option.map _ (some (if _ then _ else _))) = _
    split_ifs
    · rfl
    · rfl
  have hstart : Rolled R R.start fun _ => .old :=
    ⟨fun _ _ => rfl, fun _ _ _ _ => rfl, fun _ _ h => absurd rfl h⟩
  rw [hread h, hread hstart]

end

/-! ## Resuming -/

/-- One of the headers is RESETTING. -/
def HasReset (st : ℕ → HeaderState) : Prop := st 0 = .resetting ∨ st 1 = .resetting

theorem Rolled.bootRecoveryState_eq (h : Rolled R m st) (hreset : HasReset st) :
    R.site.store.bootRecoveryState R.site.device (readAll m) = .ok .resetting := by
  have hmark : (R.headerPlan 0 (st 0)).resetting = true
      ∨ (R.headerPlan 1 (st 1)).resetting = true := by
    rw [RolloverStart.headerPlan_resetting_iff (by omega),
      RolloverStart.headerPlan_resetting_iff (by omega)]
    exact hreset
  rw [bootRecoveryState, h.readSlotPlan (by omega), h.readSlotPlan (by omega)]
  exact if_pos hmark

theorem RolloverStart.rangeEnds_eq (R : RolloverStart) :
    rangeEnds R.site.store R.walStart R.walSectors
      = .ok (R.site.store.startLba + R.site.store.sectorCount, R.walStart + R.walSectors) := by
  have hdevice := R.site.device_sectors_lt
  have hsnapshot := R.site.inside
  have hwal := R.inside
  rw [rangeEnds, checkedAdd_of_lt (by omega), checkedAdd_of_lt (by omega)]

theorem RolloverStart.bounded_eq (R : RolloverStart) : R.site.device.bounded R.walStart R.walSectors
      = some ⟨R.site.device.start + R.walStart, R.walSectors⟩ := by
  have hdevice := R.site.device_sectors_lt
  have hwal := R.inside
  rw [BlockRange.bounded, checkedAdd_of_lt (by omega)]
  exact if_pos ⟨R.walSectors_ne_zero, hwal⟩

/-- The log of the old incarnation is still there while the log range is intact. -/
theorem WalIntact.recover_eq (h : WalIntact R m) :
    RegistryWal.recover ⟨R.site.device.start + R.walStart, R.walSectors⟩ (readAll m)
      R.old.incarnation = .ok R.wal := by
  rw [← R.recovers]
  refine RegistryWal.recover_congr (fun lba hlba => ?_) _
  have hsector := h lba hlba
  unfold RolloverStart.walSector SnapshotSite.sector at hsector
  rw [readAll, readAll, Nat.add_assoc, hsector]

/-- Each header passes the check of `resume`; an old one needs the old log. -/
theorem RolloverStart.checkResumed_eq (hslot : slot ≤ 1) {state : HeaderState}
    (hwal : state = .old → WalIntact R m) :
    checkResumed R.site.device R.walStart R.walSectors (readAll m) (emptyManifest R.next)
      (R.headerPlan slot state) = .ok () := by
  have hserial := R.serial_ne_zero
  have hincarnation := R.next_ne
  cases state with
  | old =>
    have hready : R.wal.phase = .ready := by
      have hsettled := R.settled
      unfold RegistryWal.settledAnchor at hsettled
      split at hsettled
      · assumption
      · cases hsettled
    show (orCorrupt (R.plan slot).wal >>= _) = _
    rw [R.manifest slot hslot]
    show (if (R.plan slot).resetting = true then _ else _) = _
    rw [if_neg (by rw [R.ready slot hslot]; exact Bool.false_ne_true),
      if_pos fun h => hincarnation h.symm]
    show (if _ then _ else _) = _
    rw [if_neg (by simp [hserial]), R.bounded_eq]
    simp only
    rw [(hwal rfl).recover_eq]
    simp only [hready, R.settled, WalSnapshotManifest.anchor]
    exact if_neg (by simp)
  | resetting =>
    show (if _ then _ else _) = _
    simp
  | ready =>
    show (if _ then _ else _) = _
    simp

/-- `resume` takes over from every stage with a RESETTING header. -/
theorem Stage.resume_eq (h : Stage R m st) (hreset : HasReset st) :
    resume R.site.store R.site.device R.walStart R.walSectors (readAll m)
      = .ok (R.owner .resetting) := by
  obtain ⟨hrolled, hwal⟩ := h
  have hintact : st 0 = .old ∨ st 1 = .old → WalIntact R m := by
    cases h₀ : st 0 <;> cases h₁ : st 1 <;> simp_all [WalOk]
  have hzero := R.checkResumed_eq (Nat.zero_le 1) fun h₀ => hintact (Or.inl h₀)
  have hone := R.checkResumed_eq (Nat.le_refl 1) fun h₁ => hintact (Or.inr h₁)
  have hdisjoint := R.disjoint
  have hsectors := R.walSectors_ne_zero
  have hinside := R.inside
  rw [resume, R.rangeEnds_eq]
  show (if _ then _ else _) = _
  rw [if_neg (by omega), hrolled.paired_eq]
  -- the manifest of a RESETTING header is the empty one
  obtain ⟨plan, hplan, hempty⟩ : ∃ plan, (if (R.headerPlan 0 (st 0)).resetting = true then
      some (R.headerPlan 0 (st 0)) else if (R.headerPlan 1 (st 1)).resetting = true then
      some (R.headerPlan 1 (st 1)) else none) = some plan
        ∧ plan.wal = some (emptyManifest R.next) := by
    have hmark₀ : (R.headerPlan 0 (st 0)).resetting = true ↔ st 0 = .resetting :=
      RolloverStart.headerPlan_resetting_iff (by omega)
    have hmark₁ : (R.headerPlan 1 (st 1)).resetting = true ↔ st 1 = .resetting :=
      RolloverStart.headerPlan_resetting_iff (by omega)
    by_cases h₀ : st 0 = .resetting
    · exact ⟨_, if_pos (hmark₀.mpr h₀), RolloverStart.headerPlan_wal_of_ne (by rw [h₀]; nofun) _⟩
    · have h₁ : st 1 = .resetting := hreset.resolve_left h₀
      refine ⟨_, (if_neg fun h => h₀ (hmark₀.mp h)).trans (if_pos (hmark₁.mpr h₁)), ?_⟩
      exact RolloverStart.headerPlan_wal_of_ne (by rw [h₁]; nofun) _
  show (orCorrupt _ >>= _) = _
  rw [hplan]
  show (orCorrupt plan.wal >>= _) = _
  rw [hempty]
  show (if _ then _ else _) = _
  rw [if_neg (by simp only [emptyManifest]; omega)]
  show (checkResumed _ _ _ (readAll m) (emptyManifest R.next) (R.headerPlan 0 (st 0)) >>= _) = _
  rw [hzero]
  show (checkResumed _ _ _ (readAll m) (emptyManifest R.next) (R.headerPlan 1 (st 1)) >>= _) = _
  rw [hone]
  rfl

end UserspaceNtos.Fs
