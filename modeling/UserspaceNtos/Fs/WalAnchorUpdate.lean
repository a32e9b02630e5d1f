import UserspaceNtos.Fs.WalRecover
import UserspaceNtos.Fs.SnapshotStore

/-!
# Advancing the anchors of the snapshot headers

`snapshot_wal_anchor.rs`.  Both snapshot headers name the end of the log that has been
acknowledged.  An update takes the verified end of a settled log, checks that the
anchors of both headers are ends of records of this log, and rewrites the headers one
after the other.  A companion slot whose payload is torn is first replaced by a copy of
the selected one.

The two ends of the round are here as well: the continuation with which the owner of the
log resumes afterwards, and the boot, which checks the anchor against the log it
recovers and appends the records behind the selected snapshot.
-/

namespace UserspaceNtos.Fs

open CachedStorage

/-- `RegistryWalVerifiedPrefix` with the ends of its records: the contents of a
`RegistryWalVerifiedDevice` and of a `RegistryWalContinuation`. -/
structure VerifiedLog where
  anchor : WalSnapshotAnchor
  recordEndLbas : List ℕ
  deriving DecidableEq, Repr

namespace RegistryWal

variable {size : ℕ}

/-- `verified_prefix` -/
def verifiedPrefix (wal : RegistryWal size) : Option WalSnapshotAnchor :=
  match wal.phase with
  | .ready | .recoveredUncommitted _ =>
    if wal.nextSerial = 0 then none else some ⟨wal.incarnation, wal.nextSerial - 1, wal.cursor⟩
  | _ => none

/-- `settled_anchor` -/
def settledAnchor (wal : RegistryWal size) : Option WalSnapshotAnchor :=
  match wal.phase with
  | .ready => wal.verifiedPrefix
  | _ => none

/-- `verified_record_end_lba` -/
def verifiedRecordEndLba (wal : RegistryWal size) (serial : ℕ) : Option ℕ :=
  wal.verifiedPrefix.bind fun _ =>
    if serial = 0 then some 0 else wal.recordEndLbas[serial - 1]?

/-- `into_verified_device` -/
def intoVerifiedDevice (wal : RegistryWal size) : Option VerifiedLog :=
  match wal.phase with
  | .ready => wal.verifiedPrefix.map fun anchor => ⟨anchor, wal.recordEndLbas⟩
  | _ => none

/-- The boundary check of `resume_from_continuation`: the last of the ends, if each leaves
room for a frame behind the one before. -/
def lastBoundary (count : ℕ) : ℕ → List ℕ → Option ℕ
  | previous, [] => some previous
  | previous, stop :: rest =>
    if min (previous + 3) (2 ^ 64 - 1) ≤ stop ∧ stop ≤ count then lastBoundary count stop rest
    else none

/-- `resume_from_continuation` -/
def resumeFromContinuation (size : ℕ) (device : BlockRange) (continuation : VerifiedLog)
    (anchored : WalSnapshotAnchor) : Except RegistryWalError (RegistryWal size) :=
  let anchor := continuation.anchor
  if headerBytes ≤ size ∧ 3 ≤ device.sectors ∧ anchor.incarnation ≠ 0 ∧ anchor = anchored
      ∧ anchor.serial = continuation.recordEndLbas.length
      ∧ lastBoundary device.sectors 0 continuation.recordEndLbas = some anchor.endLba
      ∧ (checkedAdd anchor.serial 1).isSome then
    .ok
      { device := device
        incarnation := anchor.incarnation
        cursor := anchor.endLba
        nextSerial := anchor.serial + 1
        records := []
        recordEndLbas := continuation.recordEndLbas
        phase := .ready }
  else .error .corrupt

end RegistryWal

/-! ## The boot -/

/-- `verify_recovered_wal_anchor` -/
def verifyRecoveredWalAnchor {size : ℕ} (selectedBaseSerial : ℕ) (anchor : WalSnapshotAnchor)
    (wal : RegistryWal size) : Except SnapshotBlockStoreError Unit :=
  match wal.verifiedPrefix with
  | none => .error .corrupt
  | some recovered =>
    if recovered.incarnation ≠ anchor.incarnation ∨ recovered.serial < anchor.serial
        ∨ wal.verifiedRecordEndLba anchor.serial ≠ some anchor.endLba
        ∨ recovered.serial < selectedBaseSerial then
      .error .corrupt
    else .ok ()

/-- The length of the assembled log, unless it overflows. -/
def totalLength : ℕ → List RegistryWalRecord → Option ℕ
  | length, [] => some length
  | length, record :: rest =>
    match checkedAdd length record.payload.length with
    | none => none
    | some next => totalLength next rest

/-- `verified_boot_system_log_suffix` -/
def verifiedBootSystemLogSuffix {size : ℕ} (selectedBaseSerial : ℕ) (anchor : WalSnapshotAnchor)
    (snapshotLog : List UInt8) (wal : RegistryWal size) :
    Except SnapshotBlockStoreError (List UInt8) := do
  verifyRecoveredWalAnchor selectedBaseSerial anchor wal
  if wal.records.length < selectedBaseSerial then .error .corrupt
  else do
    let suffix := wal.records.drop selectedBaseSerial
    let _total ← orCorrupt (totalLength snapshotLog.length suffix)
    .ok (snapshotLog ++ suffix.flatMap RegistryWalRecord.payload)

/-- `verified_boot_system_log` of the metadata. -/
def StoredSnapshotMetadata.verifiedBootSystemLog {size : ℕ} (metadata : StoredSnapshotMetadata)
    (snapshotLog : List UInt8) (wal : RegistryWal size) :
    Except SnapshotBlockStoreError (List UInt8) :=
  match metadata.format with
  | .legacy => .error .corrupt
  | .wal selectedBaseSerial anchor =>
    verifiedBootSystemLogSuffix selectedBaseSerial anchor snapshotLog wal

/-! ## The update -/

/-- `Phase` of the update. -/
inductive AnchorPhase where
  | pending
  | complete
  | uncertain
  deriving DecidableEq, Repr

/-- `WalSnapshotAnchorUpdate` -/
structure WalSnapshotAnchorUpdate where
  device : BlockRange
  store : SnapshotBlockStore
  headers : SlotHeader × SlotHeader
  tornCompanionSource : Option SlotReadPlan
  continuation : VerifiedLog
  phase : AnchorPhase
  deriving DecidableEq, Repr

/-- The header that moves the high water of a slot to `next`. -/
def anchoredHeader (next : WalSnapshotAnchor) (plan : SlotReadPlan) : SlotHeader :=
  { plan with
    wal := plan.wal.map fun wal =>
      { wal with highWaterSerial := next.serial, highWaterEndLba := next.endLba }
    resetting := false }

/-- The copy of the selected snapshot that replaces its torn companion. -/
def repairedPlan (selected : SlotReadPlan) (generation : ℕ) : SlotReadPlan :=
  { selected with slot := 1 - selected.slot, generation := generation, resetting := false }

namespace WalSnapshotAnchorUpdate

variable {size : ℕ}

/-- The plans of `admit_checked` when the payload of one slot is torn: those of both slots
and the one that is copied. -/
def tornPlans (store : SnapshotBlockStore) (device : BlockRange) (read : ReadSector size)
    (selected : SlotReadPlan) :
    Except SnapshotBlockStoreError ((SlotReadPlan × SlotReadPlan) × Option SlotReadPlan) := do
  let companion ← orCorrupt (← store.readSlotPlan device read (1 - selected.slot))
  let selectedWal ← orCorrupt selected.wal
  let companionWal ← orCorrupt companion.wal
  sameAnchorWalCompanion selected.generation selectedWal companion.generation companionWal
  match checkedAdd (max selected.generation companion.generation) 1 with
  | none => .error .outOfSpace
  | some generation =>
    let repaired := repairedPlan selected generation
    .ok (if selected.slot = 0 then (selected, repaired) else (repaired, selected), some selected)

/-- The plans of `admit_checked`. -/
def admittedPlans (store : SnapshotBlockStore) (device : BlockRange) (allowTornCompanion : Bool)
    (read : ReadSector size) :
    Except SnapshotBlockStoreError ((SlotReadPlan × SlotReadPlan) × Option SlotReadPlan) :=
  match store.readValidSlotPlan device read 0, store.readValidSlotPlan device read 1 with
  | .ok (some a), .ok (some b) => .ok ((a, b), none)
  | .ok (some selected), .error .corrupt =>
    if allowTornCompanion then tornPlans store device read selected else .error .corrupt
  | .error .corrupt, .ok (some selected) =>
    if allowTornCompanion then tornPlans store device read selected else .error .corrupt
  | .error e, _ => .error e
  | _, .error e => .error e
  | _, _ => .error .corrupt

/-- `admit_checked` -/
def admitChecked (store : SnapshotBlockStore) (device : BlockRange) (continuation : VerifiedLog)
    (allowTornCompanion : Bool)
    (check : WalSnapshotAnchor → Except SnapshotBlockStoreError Unit) (read : ReadSector size) :
    Except SnapshotBlockStoreError WalSnapshotAnchorUpdate := do
  let (plans, tornCompanionSource) ← admittedPlans store device allowTornCompanion read
  if plans.1.resetting ∨ plans.2.resetting then .error .corrupt
  else do
    let first ← orCorrupt plans.1.wal
    let second ← orCorrupt plans.2.wal
    check first.anchor
    check second.anchor
    let next := continuation.anchor
    .ok
      { device := device
        store := store
        headers := (anchoredHeader next plans.1, anchoredHeader next plans.2)
        tornCompanionSource := tornCompanionSource
        continuation := continuation
        phase := .pending }

/-- The check of `admit_verified_wal` on the anchor of a header: it is the end of a record
of the log. -/
def checkAnchor (verified : VerifiedLog) (anchor : WalSnapshotAnchor) :
    Except SnapshotBlockStoreError Unit :=
  let exactEnd := if anchor.serial = 0 then some 0 else verified.recordEndLbas[anchor.serial - 1]?
  if anchor.incarnation ≠ verified.anchor.incarnation ∨ verified.anchor.serial < anchor.serial
      ∨ exactEnd ≠ some anchor.endLba then
    .error .corrupt
  else .ok ()

/-- `admit_verified_wal` -/
def admitVerifiedWal (store : SnapshotBlockStore) (device : BlockRange) (verified : VerifiedLog)
    (read : ReadSector size) : Except SnapshotBlockStoreError WalSnapshotAnchorUpdate :=
  admitChecked store device verified true (checkAnchor verified) read

/-- The copy loop of `advance`. -/
def copySectors (device : BlockRange) (source target : ℕ) :
    List ℕ → DiskM (Sector size) SnapshotBlockStoreError Unit
  | [] => pure ()
  | index :: rest => do
      let sector ← query fun read => device.readSector read (source + index)
      device.writeSector (target + index) sector
      copySectors device source target rest

/-- The header of a slot. -/
def header (update : WalSnapshotAnchorUpdate) (slot : ℕ) : SlotHeader :=
  if slot = 0 then update.headers.1 else update.headers.2

/-- A header sector and its flush. -/
def writeHeader (update : WalSnapshotAnchorUpdate) (slotSectors : ℕ) (header : SlotHeader) :
    DiskM (Sector size) SnapshotBlockStoreError Unit := do
  let lba ← DiskM.lift (update.store.slotLba slotSectors header.slot)
  update.device.writeSector lba (header.encodeHeader size)
  DiskM.flush .io

/-- The repair of `advance`: the payload under one barrier, then the header with the old
anchor. -/
def repairCompanion (update : WalSnapshotAnchorUpdate) (slotSectors : ℕ) :
    DiskM (Sector size) SnapshotBlockStoreError Unit :=
  match update.tornCompanionSource with
  | none => pure ()
  | some source => do
      let target := 1 - source.slot
      let sourceLba ← DiskM.lift (update.store.slotLba slotSectors source.slot)
      let targetLba ← DiskM.lift (update.store.slotLba slotSectors target)
      copySectors update.device (sourceLba + 1) (targetLba + 1) (List.range source.payloadSectors)
      DiskM.flush .io
      update.device.writeSector targetLba
        (SlotHeader.encodeHeader size { update.header target with wal := source.wal })
      DiskM.flush .io

/-- The effects of `advance`. -/
def advanceEffects (update : WalSnapshotAnchorUpdate) :
    DiskM (Sector size) SnapshotBlockStoreError Unit := do
  let slotSectors ← DiskM.lift (update.store.geometry update.device size)
  if size < walHeaderLen then DiskM.fail .invalidGeometry
  else do
    update.repairCompanion slotSectors
    update.writeHeader slotSectors update.headers.1
    update.writeHeader slotSectors update.headers.2

/-- `advance` -/
def advance (update : WalSnapshotAnchorUpdate) :
    DiskM (Sector size) Empty (Except SnapshotBlockStoreError Unit × WalSnapshotAnchorUpdate) :=
  if update.phase ≠ .pending then pure (.error .corrupt, update)
  else do
    let result ← DiskM.attempt update.advanceEffects
    match result with
    | .ok () => pure (.ok (), { update with phase := .complete })
    | .error e => pure (.error e, { update with phase := .uncertain })

/-- `into_continuation` -/
def intoContinuation (update : WalSnapshotAnchorUpdate) : Option VerifiedLog :=
  match update.phase with
  | .complete => some update.continuation
  | _ => none

end WalSnapshotAnchorUpdate

end UserspaceNtos.Fs
