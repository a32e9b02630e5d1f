import UserspaceNtos.Fs.SnapshotHeader

/-!
# Reading the two-slot snapshot store

The read side of `SnapshotBlockStore`: slot headers, payload validation, and the
choice between the two slots that `read_latest`, the streaming readers and the
writer make.  A slot is a header sector and payload sectors behind it.

`SlotReadPlan` and `SlotSummary` of the source repeat fields of a checked
`SlotHeader`; here they are that header.
-/

namespace UserspaceNtos.Fs

open ConfigStore

/-- `SnapshotBlockStore`: a two-slot commit area over a fixed block range. -/
structure SnapshotBlockStore where
  startLba : ℕ
  sectorCount : ℕ
  deriving DecidableEq, Repr

/-- `SlotReadPlan`: a header that passed the checks of `read_slot_plan`. -/
abbrev SlotReadPlan : Type := SlotHeader

/-- `StoredSnapshot` -/
structure StoredSnapshot where
  generation : ℕ
  payload : List UInt8
  deriving DecidableEq, Repr

/-- `SlotSnapshot` -/
structure SlotSnapshot where
  generation : ℕ
  payload : List UInt8
  wal : Option WalSnapshotManifest
  resetting : Bool
  deriving DecidableEq, Repr

/-- `StoredWalSnapshot` -/
structure StoredWalSnapshot where
  snapshot : StoredSnapshot
  selectedBaseSerial : ℕ
  anchor : WalSnapshotAnchor
  deriving DecidableEq, Repr

/-- `SnapshotReadFormat` -/
inductive SnapshotReadFormat where
  | legacy
  | wal (selectedBaseSerial : ℕ) (anchor : WalSnapshotAnchor)
  deriving DecidableEq, Repr

/-- `BootSnapshotRecovery` -/
inductive BootSnapshotRecovery where
  | ready
  | interruptedEmptyBaseline (incarnation : ℕ)
  | resetting
  deriving DecidableEq, Repr

/-- `StoredSnapshotMetadata` -/
structure StoredSnapshotMetadata where
  generation : ℕ
  payloadLen : ℕ
  format : SnapshotReadFormat
  deriving DecidableEq, Repr

/-- `wal_recovery_floor` -/
def walRecoveryFloor (selected : WalSnapshotManifest) (other : Option WalSnapshotManifest) :
    Except SnapshotBlockStoreError WalSnapshotAnchor := do
  let anchor ←
    match other with
    | none => .ok selected.anchor
    | some other =>
      let anchor := selected.anchor
      let candidate := other.anchor
      if selected.baseSerial < other.baseSerial
          ∨ candidate.incarnation ≠ anchor.incarnation
          ∨ candidate.serial = anchor.serial ∧ candidate.endLba ≠ anchor.endLba
          ∨ candidate.serial > anchor.serial ∧ candidate.endLba < anchor.endLba
          ∨ candidate.serial < anchor.serial ∧ candidate.endLba > anchor.endLba then
        .error .corrupt
      else if candidate.serial > anchor.serial then .ok candidate
      else .ok anchor
  if selected.baseSerial > anchor.serial then .error .corrupt else .ok anchor

/-- `same_anchor_wal_companion` -/
def sameAnchorWalCompanion (selectedGeneration : ℕ) (selected : WalSnapshotManifest)
    (companionGeneration : ℕ) (companion : WalSnapshotManifest) :
    Except SnapshotBlockStoreError Unit :=
  if selectedGeneration = companionGeneration
      ∨ selected.anchor ≠ companion.anchor
      ∨ selected.baseSerial < companion.baseSerial then
    .error .corrupt
  else .ok ()

/-- `ok_or(SnapshotBlockStoreError::Corrupt)` -/
def orCorrupt {α : Type} : Option α → Except SnapshotBlockStoreError α
  | none => .error .corrupt
  | some a => .ok a

theorem orCorrupt_eq_ok {α : Type} {found : Option α} {a : α} (h : orCorrupt found = .ok a) :
    found = some a := by
  cases found with
  | none => cases h
  | some b => exact congrArg some (Except.ok.inj h)

namespace SnapshotBlockStore

variable {size : ℕ} (store : SnapshotBlockStore) (device : BlockRange) (read : ReadSector size)

/-- `geometry`: the sectors of one slot, on a device with sectors of `size` bytes. -/
def geometry (size : ℕ) : Except SnapshotBlockStoreError ℕ :=
  if size < headerLen ∨ store.sectorCount < 4 ∨ store.sectorCount % 2 ≠ 0 then
    .error .invalidGeometry
  else
    match checkedAdd store.startLba store.sectorCount with
    | none => .error .invalidGeometry
    | some stop =>
      if device.sectors < stop then .error .invalidGeometry else .ok (store.sectorCount / 2)

/-- `slot_lba` -/
def slotLba (slotSectors slot : ℕ) : Except SnapshotBlockStoreError ℕ :=
  if 1 < slot then .error .corrupt
  else
    match checkedAdd store.startLba (min (slotSectors * slot) (2 ^ 64 - 1)) with
    | none => .error .invalidGeometry
    | some lba => .ok lba

/-- `read_slot_plan` -/
def readSlotPlan (slot : ℕ) : Except SnapshotBlockStoreError (Option SlotReadPlan) := do
  let slotSectors ← store.geometry device size
  let slotBase ← store.slotLba slotSectors slot
  let sector ← device.readSector read slotBase
  match ← decodeHeader sector.1 with
  | none => .ok none
  | some header =>
    if header.slot ≠ slot ∨ slotSectors - 1 < header.payloadSectors then .error .corrupt
    else
      match checkedMul header.payloadSectors size with
      | none => .error .corrupt
      | some capacity =>
        if capacity < header.payloadLen then .error .corrupt else .ok (some header)

/-- The payload loop of `read_slot`: `remaining` bytes from the sectors at
`start + index`. -/
def readPayloadSectors (start : ℕ) : ℕ → List ℕ → Except SnapshotBlockStoreError (List UInt8)
  | _, [] => .ok []
  | remaining, index :: rest => do
      let sector ← device.readSector read (start + index)
      let copy := min remaining size
      let tail ← readPayloadSectors start (remaining - copy) rest
      .ok (sector.1.take copy ++ tail)

/-- `read_slot` -/
def readSlot (slot : ℕ) : Except SnapshotBlockStoreError (Option SlotSnapshot) := do
  match ← store.readSlotPlan device read slot with
  | none => .ok none
  | some header =>
    let slotSectors ← store.geometry device size
    let slotBase ← store.slotLba slotSectors slot
    let payload ← readPayloadSectors device read (slotBase + 1) header.payloadLen
      (List.range header.payloadSectors)
    if crc32c payload ≠ header.payloadCrc then .error .corrupt
    else .ok (some ⟨header.generation, payload, header.wal, header.resetting⟩)

/-- `READ_BATCH_SECTORS` -/
def readBatchSectors : ℕ := 4

/-- The loop of `validate_slot_payload_crc`: the bytes still expected and the checksum of
those read, sector `index` of `count` on. -/
def payloadCrcLoop (start count index remaining : ℕ) (crc : BitVec 32) :
    Except SnapshotBlockStoreError (ℕ × BitVec 32) :=
  if _h : index < count then
    let sectors := min (count - index) readBatchSectors
    match device.readSectors read (start + index) sectors with
    | .error e => .error e
    | .ok batch =>
      let copy := min remaining (sectors * size)
      payloadCrcLoop start count (index + sectors) (remaining - copy)
        (Crc32c.update crc ((batch.flatMap fun sector => sector.1).take copy))
  else .ok (remaining, crc)
termination_by count - index
decreasing_by unfold readBatchSectors; omega

/-- `validate_slot_payload_crc` -/
def validateSlotPayloadCrc (plan : SlotReadPlan) : Except SnapshotBlockStoreError Unit := do
  let slotSectors ← store.geometry device size
  if slotSectors - 1 < plan.payloadSectors then .error .corrupt
  else
    let slotBase ← store.slotLba slotSectors plan.slot
    match checkedMul size readBatchSectors with
    | none => .error .invalidGeometry
    | some _ =>
      let result ← payloadCrcLoop device read (slotBase + 1) plan.payloadSectors 0
        plan.payloadLen Crc32c.new
      if result.1 ≠ 0 ∨ Crc32c.finish result.2 ≠ plan.payloadCrc then .error .corrupt
      else .ok ()

/-- `read_valid_slot_plan` -/
def readValidSlotPlan (slot : ℕ) : Except SnapshotBlockStoreError (Option SlotReadPlan) := do
  match ← store.readSlotPlan device read slot with
  | none => .ok none
  | some plan =>
    store.validateSlotPayloadCrc device read plan
    .ok (some plan)

/-- The choice of `read_latest` and `latest_valid_slot` between the two slots. -/
def selectLatest {α : Type} (generation : α → ℕ)
    (slot0 slot1 : Except SnapshotBlockStoreError (Option α)) :
    Except SnapshotBlockStoreError (Option α) :=
  match slot0, slot1 with
  | .ok (some a), .ok (some b) => .ok (some (if generation a < generation b then b else a))
  | .ok (some a), _ => .ok (some a)
  | _, .ok (some b) => .ok (some b)
  | .ok none, .ok none => .ok none
  | .error e, .ok none => .error e
  | .ok none, .error e => .error e
  | .error _, .error _ => .error .corrupt

/-- `read_latest` -/
def readLatest : Except SnapshotBlockStoreError (Option StoredSnapshot) := do
  let latest ← selectLatest SlotSnapshot.generation (store.readSlot device read 0)
    (store.readSlot device read 1)
  .ok (latest.map fun slot => ⟨slot.generation, slot.payload⟩)

/-- `latest_valid_slot` -/
def latestValidSlot : Except SnapshotBlockStoreError (Option SlotReadPlan) :=
  selectLatest SlotHeader.generation (store.readValidSlotPlan device read 0)
    (store.readValidSlotPlan device read 1)

/-- One round of the first loop of `latest_commit_slot`: a corrupt header is noted and
skipped. -/
def commitCandidate (slot : ℕ) : Except SnapshotBlockStoreError (Option SlotReadPlan × Bool) :=
  match store.readSlotPlan device read slot with
  | .ok plan => .ok (plan, false)
  | .error .corrupt => .ok (none, true)
  | .error e => .error e

/-- The second loop of `latest_commit_slot`: the first candidate with a valid payload. -/
def firstValid : Bool → List SlotReadPlan → Except SnapshotBlockStoreError (Option SlotReadPlan)
  | corrupt, [] => if corrupt then .error .corrupt else .ok none
  | _, plan :: rest =>
    match store.validateSlotPayloadCrc device read plan with
    | .ok () => .ok (some plan)
    | .error .corrupt => firstValid true rest
    | .error e => .error e

/-- The candidates by descending generation; equal generations keep their order. -/
def sortCandidates (a b : Option SlotReadPlan) : List SlotReadPlan :=
  match a, b with
  | some a, some b => if a.generation < b.generation then [b, a] else [a, b]
  | some a, none => [a]
  | none, some b => [b]
  | none, none => []

/-- `latest_commit_slot` -/
def latestCommitSlot : Except SnapshotBlockStoreError (Option SlotReadPlan) := do
  let first ← store.commitCandidate device read 0
  let second ← store.commitCandidate device read 1
  store.firstValid device read (first.2 || second.2) (sortCandidates first.1 second.1)

/-- The manifest of the companion slot in `metadata_for_selected`. -/
def companionManifest (selected : SlotReadPlan) (manifest : WalSnapshotManifest) :
    Option SlotReadPlan → Except SnapshotBlockStoreError (Option WalSnapshotManifest)
  | none => .ok none
  | some other => do
      let companion ← orCorrupt other.wal
      match store.validateSlotPayloadCrc device read other with
      | .ok () => .ok (some companion)
      | .error .corrupt => do
          sameAnchorWalCompanion selected.generation manifest other.generation companion
          .ok (some companion)
      | .error e => .error e

/-- `metadata_for_selected` -/
def metadataForSelected (selected : SlotReadPlan) :
    Except SnapshotBlockStoreError StoredSnapshotMetadata := do
  let other ← store.readSlotPlan device read (1 - selected.slot)
  if selected.resetting ∨ other.any SlotHeader.resetting then .error .corrupt
  else
    let format ←
      match selected.wal with
      | none => if other.any (·.wal.isSome) then .error .corrupt else .ok .legacy
      | some manifest => do
          let companion ← store.companionManifest device read selected manifest other
          let anchor ← walRecoveryFloor manifest companion
          .ok (.wal manifest.baseSerial anchor)
    .ok ⟨selected.generation, selected.payloadLen, format⟩

/-- `read_latest_metadata` -/
def readLatestMetadata : Except SnapshotBlockStoreError (Option StoredSnapshotMetadata) := do
  match ← store.latestValidSlot device read with
  | none => .ok none
  | some plan => do
      let metadata ← store.metadataForSelected device read plan
      .ok (some metadata)

/-- `PayloadSectorReader::read_exact` of the whole payload, from sector `index` on. -/
def readExact (start : ℕ) (index remaining : ℕ) : Except SnapshotBlockStoreError (List UInt8) :=
  if _h : remaining = 0 ∨ size = 0 then .ok []
  else
    match device.readSector read (start + index) with
    | .error e => .error e
    | .ok sector => do
        let copy := min remaining size
        let tail ← readExact start (index + 1) (remaining - copy)
        .ok (sector.1.take copy ++ tail)
termination_by remaining
decreasing_by omega

/-- `read_selected_streaming` with a reader that takes the whole payload. -/
def readSelectedPayload (plan : SlotReadPlan) : Except SnapshotBlockStoreError (List UInt8) := do
  let slotSectors ← store.geometry device size
  let slotBase ← store.slotLba slotSectors plan.slot
  let payload ← readExact device read (slotBase + 1) 0 plan.payloadLen
  if crc32c payload ≠ plan.payloadCrc then .error .corrupt else .ok payload

/-- `read_latest_wal` -/
def readLatestWal : Except SnapshotBlockStoreError (Option StoredWalSnapshot) := do
  match ← store.latestValidSlot device read with
  | none => .ok none
  | some plan => do
      let metadata ← store.metadataForSelected device read plan
      let payload ← store.readSelectedPayload device read plan
      match metadata.format with
      | .legacy => .error .corrupt
      | .wal base anchor => .ok (some ⟨⟨metadata.generation, payload⟩, base, anchor⟩)

/-- `current_paired_wal_journal_manifest` -/
def currentPairedWalJournalManifest : Except SnapshotBlockStoreError WalSnapshotManifest := do
  let first ← orCorrupt (← store.readValidSlotPlan device read 0)
  let second ← orCorrupt (← store.readValidSlotPlan device read 1)
  if first.resetting ∨ second.resetting then .error .corrupt
  else
    let (selected, companion) :=
      if second.generation < first.generation then (first, second) else (second, first)
    let manifest ← orCorrupt selected.wal
    let other ← orCorrupt companion.wal
    if ¬ manifest.valid ∨ ¬ other.valid then .error .corrupt
    else do
      sameAnchorWalCompanion selected.generation manifest companion.generation other
      .ok manifest

/-- The empty manifest that `boot_recovery_state` expects of an interrupted baseline. -/
def isEmptyManifest (wal : WalSnapshotManifest) : Bool :=
  wal.incarnation ≠ 0 && wal.baseSerial = 0 && wal.highWaterSerial = 0 && wal.highWaterEndLba = 0

/-- The part of `boot_recovery_state` behind the test for a reset. -/
def bootBaselineState (first second : Except SnapshotBlockStoreError (Option SlotReadPlan)) :
    Except SnapshotBlockStoreError BootSnapshotRecovery :=
  let single : Option SlotReadPlan :=
    match first, second with
    | .ok (some v2), .ok none => some v2
    | .ok none, .ok (some v2) => some v2
    | _, _ => none
  match single.bind fun v2 => v2.wal.map fun wal => (v2, wal) with
  | some (v2, wal) =>
    if ¬ isEmptyManifest wal then .error .corrupt
    else do
      store.validateSlotPayloadCrc device read v2
      .ok (.interruptedEmptyBaseline wal.incarnation)
  | none =>
    match first, second with
    | .ok (some a), .ok (some b) =>
      let mixed : Option (SlotReadPlan × WalSnapshotManifest × SlotReadPlan) :=
        match a.wal, b.wal with
        | some wal, none => some (a, wal, b)
        | none, some wal => some (b, wal, a)
        | _, _ => none
      match mixed with
      | none => .ok .ready
      | some (v2, wal, legacy) =>
        if v2.generation ≤ legacy.generation ∨ ¬ isEmptyManifest wal then .error .corrupt
        else do
          store.validateSlotPayloadCrc device read v2
          store.validateSlotPayloadCrc device read legacy
          .ok (.interruptedEmptyBaseline wal.incarnation)
    | _, _ => .ok .ready

/-- The header of a slot, unless it could not be read. -/
def slotFound : Except SnapshotBlockStoreError (Option SlotReadPlan) → Option SlotReadPlan
  | .ok plan => plan
  | .error _ => none

/-- An error other than corruption. -/
def hardError : Except SnapshotBlockStoreError (Option SlotReadPlan) →
    Option SnapshotBlockStoreError
  | .ok _ => none
  | .error .corrupt => none
  | .error e => some e

/-- `boot_recovery_state` -/
def bootRecoveryState : Except SnapshotBlockStoreError BootSnapshotRecovery :=
  let first := store.readSlotPlan device read 0
  let second := store.readSlotPlan device read 1
  match (hardError first).or (hardError second) with
  | some e => .error e
  | none =>
    if (slotFound first).any SlotHeader.resetting ∨ (slotFound second).any SlotHeader.resetting
    then .ok .resetting
    else store.bootBaselineState device read first second

end SnapshotBlockStore

/-!
## Committing a snapshot

The write side of `SnapshotBlockStore`: `commit_next_streaming_inner` with a payload
that is written by one `write_all`, as `commit_next` and
`commit_next_with_wal_manifest` do it, and the batched `PayloadSectorWriter`.

The function is cut in two.  `admitCommit` stabilizes the device, selects the slot to
overwrite and checks the WAL manifest.  `publishCommit` writes the payload under one
barrier and the header under another.
-/

open CachedStorage

/-- What `commit_next_streaming_inner` has decided when it starts to write. -/
structure CommitPlan where
  slot : ℕ
  generation : ℕ
  slotBase : ℕ
  payloadSectors : ℕ
  deriving DecidableEq, Repr

/-- `div_ceil` -/
def divCeil (a b : ℕ) : ℕ := (a + (b - 1)) / b

namespace SnapshotBlockStore

variable {size : ℕ} (store : SnapshotBlockStore) (device : BlockRange)

/-- The checks of a WAL commit on one slot, `latest` being the slot it keeps and `target`
the one it overwrites. -/
def checkManifestSlot (read : ReadSector size) (current : WalSnapshotManifest) (repair : Bool)
    (latest : Option SlotReadPlan) (target slot : ℕ) : Except SnapshotBlockStoreError Unit :=
  match store.readValidSlotPlan device read slot with
  | .ok plan =>
    if plan.any SlotHeader.resetting then .error .corrupt
    else
      match plan.bind SlotHeader.wal with
      | none => .ok ()
      | some previous =>
        if current.anchor ≠ previous.anchor ∨ current.baseSerial < previous.baseSerial then
          .error .corrupt
        else .ok ()
  | .error .corrupt =>
    if slot ≠ target then .error .corrupt
    else if repair then .ok ()
    else do
      let selected ← orCorrupt latest
      let manifest ← orCorrupt selected.wal
      let companion ← orCorrupt (← store.readSlotPlan device read slot)
      let companionManifest ← orCorrupt companion.wal
      sameAnchorWalCompanion selected.generation manifest companion.generation companionManifest
      if current.anchor ≠ manifest.anchor ∨ current.baseSerial < manifest.baseSerial then
        .error .corrupt
      else .ok ()
  | .error e => .error e

/-- The target slot and the generation of the next commit. -/
def nextTarget : Option SlotReadPlan → Except SnapshotBlockStoreError (ℕ × ℕ)
  | none => .ok (0, 1)
  | some latest =>
    match checkedAdd latest.generation 1 with
    | none => .error .outOfSpace
    | some generation => .ok (1 - latest.slot, generation)

/-- The size check of `commit_next_streaming_inner` against the payload capacity. -/
def checkCapacity (size payloadLen slotSectors : ℕ) : Except SnapshotBlockStoreError Unit :=
  match checkedMul size readBatchSectors, checkedMul (slotSectors - 1) size with
  | some _, some maxPayloadLen =>
    if maxPayloadLen < payloadLen then .error .outOfSpace else .ok ()
  | _, _ => .error .invalidGeometry

/-- The WAL rules of `commit_next_streaming_inner`. -/
def checkManifests (wal : Option WalSnapshotManifest) (repair : Bool)
    (latest : Option SlotReadPlan) (target : ℕ) :
    DiskM (Sector size) SnapshotBlockStoreError Unit :=
  match wal with
  | some current => do
      query fun read => store.checkManifestSlot device read current repair latest target 0
      query fun read => store.checkManifestSlot device read current repair latest target 1
  | none =>
    if latest.any (·.wal.isSome) then DiskM.fail .corrupt else pure ()

/-- `commit_next_streaming_inner` up to its first write. -/
def admitCommit (payloadLen : ℕ) (wal : Option WalSnapshotManifest) (repair : Bool) :
    DiskM (Sector size) SnapshotBlockStoreError CommitPlan := do
  let slotSectors ← DiskM.lift (store.geometry device size)
  DiskM.lift (checkCapacity size payloadLen slotSectors)
  DiskM.flush .io
  let latest ← query (store.latestCommitSlot device)
  if latest.any SlotHeader.resetting then DiskM.fail .corrupt
  else do
    let (target, generation) ← DiskM.lift (nextTarget latest)
    store.checkManifests device wal repair latest target
    let payloadSectors := divCeil payloadLen size
    if 2 ^ 32 ≤ payloadSectors ∨ slotSectors - 1 < payloadSectors then DiskM.fail .outOfSpace
    else do
      let slotBase ← DiskM.lift (store.slotLba slotSectors target)
      pure ⟨target, generation, slotBase, payloadSectors⟩

/-- The sectors of `bytes`, the last filled with zeros. -/
def sectorsOf (size : ℕ) (bytes : List UInt8) : List (Sector size) :=
  (List.range (divCeil bytes.length size)).map fun index =>
    Sector.pad size ((bytes.drop (index * size)).take size)

/-- `flush_staged`: the staged bytes go to the sectors from `sectorIndex` of the payload
area on. -/
def flushStaged (slotBase sectorIndex : ℕ) (staged : List UInt8) :
    DiskM (Sector size) SnapshotBlockStoreError Unit :=
  match checkedAdd sectorIndex (divCeil staged.length size),
      (checkedAdd slotBase 1).bind (checkedAdd · sectorIndex) with
  | some _, some lba => device.writeSectors lba (sectorsOf size staged)
  | _, _ => DiskM.fail .corrupt

/-- `WRITE_BATCH_SECTORS` -/
def writeBatchSectors : ℕ := 4

/-- `PayloadSectorWriter::write_all` of the whole payload and `finish`: full batches are
written as they fill, the rest by `finish`. -/
def writeBatches (slotBase sectorIndex : ℕ) (bytes : List UInt8) :
    DiskM (Sector size) SnapshotBlockStoreError Unit :=
  if _h : bytes = [] ∨ size = 0 then pure ()
  else do
    let staged := bytes.take (writeBatchSectors * size)
    flushStaged device slotBase sectorIndex staged
    writeBatches slotBase (sectorIndex + divCeil staged.length size)
      (bytes.drop (writeBatchSectors * size))
termination_by bytes.length
decreasing_by
  rw [not_or] at _h
  have hpos := List.length_pos_iff.mpr _h.1
  rw [List.length_drop, writeBatchSectors]
  omega

/-- The header of the commit of a plan. -/
def commitHeader (plan : CommitPlan) (payloadLen : ℕ) (payloadCrc : BitVec 32)
    (wal : Option WalSnapshotManifest) : SlotHeader :=
  { slot := plan.slot
    generation := plan.generation
    payloadLen := payloadLen
    payloadCrc := payloadCrc
    payloadSectors := plan.payloadSectors
    wal := wal
    resetting := false }

/-- `commit_next_streaming_inner` from its first write on, for a caller that writes
`payload` and promises `payloadLen` and `payloadCrc`. -/
def publishCommit (plan : CommitPlan) (payloadLen : ℕ) (payloadCrc : BitVec 32)
    (wal : Option WalSnapshotManifest) (payload : List UInt8) :
    DiskM (Sector size) SnapshotBlockStoreError ℕ :=
  if payloadLen < payload.length then DiskM.fail .corrupt
  else do
    writeBatches device plan.slotBase 0 payload
    if payload.length ≠ payloadLen ∨ crc32c payload ≠ payloadCrc then DiskM.fail .corrupt
    else do
      DiskM.flush .io
      device.writeSector plan.slotBase
        ((commitHeader plan payloadLen payloadCrc wal).encodeHeader size)
      DiskM.flush .io
      pure plan.generation

/-- `commit_next_streaming_inner` -/
def commitNextStreamingInner (payloadLen : ℕ) (payloadCrc : BitVec 32)
    (wal : Option WalSnapshotManifest) (repair : Bool) (payload : List UInt8) :
    DiskM (Sector size) SnapshotBlockStoreError ℕ := do
  let plan ← store.admitCommit device payloadLen wal repair
  publishCommit device plan payloadLen payloadCrc wal payload

/-- `commit_next` -/
def commitNext (payload : List UInt8) : DiskM (Sector size) SnapshotBlockStoreError ℕ :=
  store.commitNextStreamingInner device payload.length (crc32c payload) none false payload

/-- `commit_next_with_wal_manifest` -/
def commitNextWithWalManifest (payload : List UInt8) (manifest : WalSnapshotManifest) :
    DiskM (Sector size) SnapshotBlockStoreError ℕ :=
  if ¬ manifest.valid then DiskM.fail .corrupt
  else if size < walHeaderLen then DiskM.fail .invalidGeometry
  else
    store.commitNextStreamingInner device payload.length (crc32c payload) (some manifest) false
      payload

end SnapshotBlockStore

end UserspaceNtos.Fs
