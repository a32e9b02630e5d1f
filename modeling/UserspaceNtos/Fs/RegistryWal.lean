import UserspaceNtos.Fs.BlockDevice
import UserspaceNtos.Lib.LittleEndian
import UserspaceNtos.ConfigStore.Crc32c

/-!
# The sector write-ahead log

`registry_wal_store.rs`.  A record occupies one frame: a PREPARE header sector, the
payload sectors and a COMMIT marker sector.  Frames stand back to back from sector
zero of the range, and everything behind the last frame is zero.  `recover` scans
that format; `prepare`, `commit` and `clear_frame` write it under flush barriers.

The fields `state`, `pending` and `recovered_tail_sectors` of the source are one
`WalPhase` here.  The source unwraps `pending` in the states `PendingPrepare` and
`Prepared` and `recovered_tail_sectors` in `RecoveredUncommitted`, and they are set
exactly there, so a phase carries what its state unwraps.  The device is the
sector size, a parameter of the owner, and the `BlockRange` it holds.
-/

namespace UserspaceNtos.Fs

open CachedStorage LittleEndian ConfigStore

/-- `RegistryWalError` -/
inductive RegistryWalError where
  | invalidGeometry
  | wrongIncarnation
  | corrupt
  | outOfSpace
  | outOfMemory
  | generationExhausted
  | invalidState
  | uncertain
  | storage (error : SnapshotBlockStoreError)
  deriving DecidableEq, Repr

/-- `RegistryWalRecord` -/
structure RegistryWalRecord where
  serial : ℕ
  payload : List UInt8
  deriving DecidableEq, Repr

/-- `Pending` -/
structure Pending where
  serial : ℕ
  sectors : ℕ
  payload : List UInt8
  deriving DecidableEq, Repr

/-- `RegistryWalState` with the data the source keeps for each state. -/
inductive WalPhase where
  | ready
  | recoveredUncommitted (tailSectors : ℕ)
  | pendingPrepare (pending : Pending)
  | prepared (pending : Pending)
  | uncertain
  deriving DecidableEq, Repr

/-- `RegistryWal` over a device with sectors of `size` bytes. -/
structure RegistryWal (size : ℕ) where
  device : BlockRange
  incarnation : ℕ
  cursor : ℕ
  nextSerial : ℕ
  records : List RegistryWalRecord
  recordEndLbas : List ℕ
  phase : WalPhase
  deriving DecidableEq, Repr

/-- `PREPARE_MAGIC`, the bytes of `USRWALP1`. -/
def prepareMagic : List UInt8 := [0x55, 0x53, 0x52, 0x57, 0x41, 0x4C, 0x50, 0x31]

/-- `COMMIT_MAGIC`, the bytes of `USRWALC1`. -/
def commitMagic : List UInt8 := [0x55, 0x53, 0x52, 0x57, 0x41, 0x4C, 0x43, 0x31]

/-- `HEADER_BYTES` -/
def headerBytes : ℕ := 36

/-- The first 32 bytes of a framed sector. -/
def framedBytes (magic : List UInt8) (incarnation serial payloadLen : ℕ) (payloadCrc : BitVec 32) :
    List UInt8 :=
  magic ++ leBytes 8 incarnation ++ leBytes 8 serial ++ leBytes 4 payloadLen
    ++ leBytes 4 payloadCrc.toNat

/-- `framed_sector` -/
def framedSector (size : ℕ) (magic : List UInt8) (incarnation serial payloadLen : ℕ)
    (payloadCrc : BitVec 32) : Sector size :=
  let body := framedBytes magic incarnation serial payloadLen payloadCrc
  Sector.pad size (body ++ leBytes 4 (crc32c body).toNat)

/-- `payload_sectors` -/
def payloadSectors (len size : ℕ) : Except RegistryWalError ℕ :=
  match checkedAdd len (size - 1) with
  | none => .error .outOfSpace
  | some rounded => .ok (rounded / size)

/-- `map_err(RegistryWalError::Storage)` on a read. -/
def storage {α : Type} : Except SnapshotBlockStoreError α → Except RegistryWalError α :=
  Except.mapError .storage

variable {size : ℕ}

/-! ## Recovery -/

/-- `BATCH_SECTORS` of `zero_suffix` -/
def batchSectors : ℕ := 64

/-- The loop of `zero_suffix` from sector `lba`. -/
def zeroSuffixLoop (device : BlockRange) (read : ReadSector size) (lba : ℕ) :
    Except RegistryWalError Bool :=
  if _h : lba < device.sectors then
    match device.readSectors read lba (min (device.sectors - lba) batchSectors) with
    | .error e => .error (.storage e)
    | .ok batch =>
      if batch.all Sector.isZero then
        zeroSuffixLoop device read (lba + min (device.sectors - lba) batchSectors)
      else .ok false
  else .ok true
termination_by device.sectors - lba
decreasing_by unfold batchSectors; omega

/-- `zero_suffix` -/
def zeroSuffix (device : BlockRange) (read : ReadSector size) (start : ℕ) :
    Except RegistryWalError Bool :=
  match checkedMul size batchSectors with
  | none => .error .invalidGeometry
  | some _ => zeroSuffixLoop device read (start + 1)

/-- The payload loop of `recover`: the sectors at `start + index`, the last of them
zero behind the payload. -/
def readPayload (device : BlockRange) (read : ReadSector size) (start len : ℕ) :
    List UInt8 → List ℕ → Except RegistryWalError (List UInt8)
  | payload, [] => .ok payload
  | payload, index :: rest => do
      let sector ← storage (device.readSector read (start + index))
      let take := min (len - payload.length) size
      if take < size ∧ ¬ (sector.1.drop take).all (fun byte => byte = 0) then
        .error .corrupt
      else readPayload device read start len (payload ++ sector.1.take take) rest

/-- What the scan finds at its cursor. -/
inductive Frame where
  /-- Nothing but zeros from here on. -/
  | blank
  /-- A PREPARE header without a marker, and nothing but zeros from its marker on. -/
  | unmarked (payloadCount : ℕ)
  /-- A complete frame. -/
  | committed (payloadCount : ℕ) (payload : List UInt8)
  deriving DecidableEq, Repr

/-- The part of the scan loop behind the header checks: the marker and the payload
of a frame with a payload of `len` bytes. -/
def readFrameBody (device : BlockRange) (read : ReadSector size) (incarnation cursor serial len : ℕ)
    (payloadCrc : BitVec 32) : Except RegistryWalError Frame := do
  let payloadCount ← payloadSectors len size
  match (checkedAdd cursor 1).bind (checkedAdd · payloadCount) with
  | none => .error .corrupt
  | some markerLba =>
    if device.sectors ≤ markerLba then .error .corrupt
    else
      let marker ← storage (device.readSector read markerLba)
      if marker.isZero then
        if ← zeroSuffix device read markerLba then .ok (.unmarked payloadCount)
        else .error .corrupt
      else if marker ≠ framedSector size commitMagic incarnation serial len payloadCrc then
        .error .corrupt
      else
        let payload ← readPayload device read (cursor + 1) len [] (List.range payloadCount)
        if crc32c payload ≠ payloadCrc then .error .corrupt
        else .ok (.committed payloadCount payload)

/-- One round of the scan loop of `recover`. -/
def readFrame (device : BlockRange) (read : ReadSector size) (incarnation cursor serial : ℕ) :
    Except RegistryWalError Frame := do
  let sector ← storage (device.readSector read cursor)
  if sector.isZero then
    if ← zeroSuffix device read cursor then .ok .blank else .error .corrupt
  else if sector.1.take 8 ≠ prepareMagic
      ∨ sliceNat sector.1 32 4 ≠ (crc32c (sector.1.take 32)).toNat
      ∨ ¬ (sector.1.drop headerBytes).all (fun byte => byte = 0) then
    .error .corrupt
  else if sliceNat sector.1 8 8 ≠ incarnation then .error .wrongIncarnation
  else if sliceNat sector.1 16 8 ≠ serial then .error .corrupt
  else if sliceNat sector.1 24 4 = 0 then .error .corrupt
  else
    readFrameBody device read incarnation cursor serial (sliceNat sector.1 24 4)
      (BitVec.ofNat 32 (sliceNat sector.1 28 4))

/-- The scan loop of `recover`. -/
def scan (device : BlockRange) (read : ReadSector size) (incarnation cursor serial : ℕ)
    (records : List RegistryWalRecord) (recordEndLbas : List ℕ) :
    Except RegistryWalError (RegistryWal size) :=
  if _h : cursor < device.sectors then
    match readFrame device read incarnation cursor serial with
    | .error e => .error e
    | .ok .blank => .ok ⟨device, incarnation, cursor, serial, records, recordEndLbas, .ready⟩
    | .ok (.unmarked tail) =>
      .ok ⟨device, incarnation, cursor, serial, records, recordEndLbas,
        .recoveredUncommitted tail⟩
    | .ok (.committed payloadCount payload) =>
      match checkedAdd serial 1 with
      | none => .error .generationExhausted
      | some next =>
        scan device read incarnation (cursor + 1 + payloadCount + 1) next
          (records ++ [⟨serial, payload⟩]) (recordEndLbas ++ [cursor + 1 + payloadCount + 1])
  else .ok ⟨device, incarnation, cursor, serial, records, recordEndLbas, .ready⟩
termination_by device.sectors - cursor

namespace RegistryWal

/-- `RegistryWal::recover` -/
def recover (device : BlockRange) (read : ReadSector size) (incarnation : ℕ) :
    Except RegistryWalError (RegistryWal size) :=
  if incarnation = 0 ∨ size < headerBytes ∨ device.sectors < 3 then .error .invalidGeometry
  else scan device read incarnation 0 1 [] []

/-! ## Operations -/

/-- What an operation of the owner does: its result and the owner afterwards, unless
the program is stopped inside it. -/
abbrev Action (size : ℕ) : Type :=
  DiskM (Sector size) Empty (Except RegistryWalError Unit × RegistryWal size)

/-- A write loop and a flush, with the errors of the WAL. -/
def writeBarrier (device : BlockRange) (writes : List (ℕ × Sector size)) :
    DiskM (Sector size) RegistryWalError Unit :=
  DiskM.mapErr .storage do
    device.writeLoop writes
    DiskM.flush .io

/-- `begin` -/
def begin (wal : RegistryWal size) (payload : List UInt8) :
    Except RegistryWalError Unit × RegistryWal size :=
  match wal.phase with
  | .uncertain => (.error .uncertain, wal)
  | .ready =>
    if 2 ^ 32 ≤ payload.length then (.error .outOfSpace, wal)
    else if payload.length = 0 then (.error .invalidGeometry, wal)
    else
      match payloadSectors payload.length size with
      | .error e => (.error e, wal)
      | .ok count =>
        match (checkedAdd wal.cursor count).bind (checkedAdd · 2) with
        | none => (.error .outOfSpace, wal)
        | some stop =>
          if wal.device.sectors < stop then (.error .outOfSpace, wal)
          else
            match checkedAdd wal.nextSerial 1 with
            | none => (.error .generationExhausted, wal)
            | some _ =>
              (.ok (), { wal with
                phase := .pendingPrepare ⟨wal.nextSerial, count, payload⟩ })
  | _ => (.error .invalidState, wal)

/-- `cancel_pending` -/
def cancelPending (wal : RegistryWal size) : Except RegistryWalError Unit × RegistryWal size :=
  match wal.phase with
  | .pendingPrepare _ => (.ok (), { wal with phase := .ready })
  | _ => (.error .invalidState, wal)

/-- The frame sector the owner writes for its pending record. -/
def pendingSector (wal : RegistryWal size) (magic : List UInt8) (pending : Pending) :
    Sector size :=
  framedSector size magic wal.incarnation pending.serial pending.payload.length
    (crc32c pending.payload)

/-- Chunk `index` of `payload.chunks(size)`, zero-filled to a sector. -/
def payloadSector (size : ℕ) (payload : List UInt8) (index : ℕ) : Sector size :=
  Sector.pad size ((payload.drop (index * size)).take size)

/-- The number of chunks of `payload.chunks(size)`. -/
def chunkCount (size : ℕ) (payload : List UInt8) : ℕ := (payload.length + (size - 1)) / size

/-- The writes of `prepare`: the header, then the payload chunk by chunk. -/
def prepareWrites (wal : RegistryWal size) (pending : Pending) : List (ℕ × Sector size) :=
  (wal.cursor, wal.pendingSector prepareMagic pending)
    :: (List.range (chunkCount size pending.payload)).map fun index =>
        (wal.cursor + 1 + index, payloadSector size pending.payload index)

/-- `prepare` -/
def prepare (wal : RegistryWal size) : Action size :=
  match wal.phase with
  | .uncertain => pure (.error .uncertain, wal)
  | .pendingPrepare pending => do
      let result ← DiskM.attempt (writeBarrier wal.device (wal.prepareWrites pending))
      match result with
      | .ok () => pure (.ok (), { wal with phase := .prepared pending })
      | .error e => pure (.error e, { wal with phase := .uncertain })
  | _ => pure (.error .invalidState, wal)

/-- The last lines of `commit`: the owner once the marker of its pending record is
durable. -/
def published (wal : RegistryWal size) (pending : Pending) : RegistryWal size :=
  let markerLba := wal.cursor + 1 + pending.sectors
  { wal with
    records := wal.records ++ [⟨pending.serial, pending.payload⟩]
    recordEndLbas := wal.recordEndLbas ++ [markerLba + 1]
    nextSerial := wal.nextSerial + 1
    cursor := markerLba + 1
    phase := .ready }

/-- The write of `commit`: the marker. -/
def commitWrites (wal : RegistryWal size) (pending : Pending) : List (ℕ × Sector size) :=
  [(wal.cursor + 1 + pending.sectors, wal.pendingSector commitMagic pending)]

/-- `commit` -/
def commit (wal : RegistryWal size) : Action size :=
  match wal.phase with
  | .uncertain => pure (.error .uncertain, wal)
  | .prepared pending => do
      let result ← DiskM.attempt (writeBarrier wal.device (wal.commitWrites pending))
      match result with
      | .ok () => pure (.ok (), wal.published pending)
      | .error e => pure (.error e, { wal with phase := .uncertain })
  | _ => pure (.error .invalidState, wal)

/-- `clear_frame`: the suffix of the frame under one barrier, then its header. -/
def clearFrame (device : BlockRange) (start payloadSectors : ℕ) :
    DiskM (Sector size) RegistryWalError Unit := do
  writeBarrier device ((List.range (payloadSectors + 1)).map fun index =>
    (start + 1 + index, Sector.zero size))
  writeBarrier device [(start, Sector.zero size)]

/-- `clear_frame` as `clear_recovered_tail` and `abort_prepared` use it. -/
def clearAt (wal : RegistryWal size) (sectors : ℕ) : Action size := do
  let result ← DiskM.attempt (clearFrame wal.device wal.cursor sectors)
  match result with
  | .ok () => pure (.ok (), { wal with phase := .ready })
  | .error e => pure (.error e, { wal with phase := .uncertain })

/-- `abort_prepared` -/
def abortPrepared (wal : RegistryWal size) : Action size :=
  match wal.phase with
  | .uncertain => pure (.error .uncertain, wal)
  | .prepared pending => wal.clearAt pending.sectors
  | _ => pure (.error .invalidState, wal)

/-- `clear_recovered_tail` -/
def clearRecoveredTail (wal : RegistryWal size) : Action size :=
  match wal.phase with
  | .uncertain => pure (.error .uncertain, wal)
  | .recoveredUncommitted sectors => wal.clearAt sectors
  | _ => pure (.error .invalidState, wal)

end RegistryWal

end UserspaceNtos.Fs
