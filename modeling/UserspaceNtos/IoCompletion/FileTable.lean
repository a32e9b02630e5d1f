import UserspaceNtos.Lib.KeyedTable
import Mathlib.Algebra.Group.Nat.Defs

/-!
# The table of open files of the I/O completion component

A FILE_OBJECT that was opened synchronously lets one operation at a time through: its Busy
lock is `FileIoSerialization`.  `FileCompletionTable` is the fixed table of open files; an
entry counts the references to a file (all of them, and those that are handles), knows how
far the close of the file has come, and holds the file's Busy lock.

Every function of the table returns `none` where the source panics: the assertion of
`finishRelease`, and a reference count that would fall below zero.  Thread ids are `u64`
and reference counts `u32` in the source; the counts are natural numbers here and their
checked additions fail at `2 ^ 32`.

The event state of a file (`signaled`, `notification_modes`) is left out: no function below
reads or writes it.
-/

namespace UserspaceNtos.IoCompletion

/-- The statuses that the functions below fail with. -/
inductive FileStatus
  | invalidHandle
  | invalidParameter
  | insufficientResources
  deriving DecidableEq, Repr

/-- `FileIoMode` -/
inductive FileIoMode
  | asynchronous
  | synchronousAlertable
  | synchronousNonAlertable
  deriving DecidableEq, Repr

namespace FileIoMode

/-- `is_synchronous` -/
def isSynchronous : FileIoMode → Bool
  | asynchronous => false
  | _ => true

/-- `is_alertable` -/
def isAlertable : FileIoMode → Bool
  | synchronousAlertable => true
  | _ => false

end FileIoMode

/-- `FileIoAcquireResult` -/
inductive FileIoAcquireResult
  | bypassed
  | acquired
  | contended (alertable : Bool)
  deriving DecidableEq, Repr

/-- `FileIoRelease` -/
structure FileIoRelease where
  waiters : ℕ
  deriving DecidableEq, Repr

/-- `checked_add(1)` on a `u32`. -/
def checkedSucc (n : ℕ) : Except FileStatus ℕ :=
  if n + 1 < 2 ^ 32 then .ok (n + 1) else .error .insufficientResources

/-! ## The Busy lock of one file -/

/-- `FileIoSerialization`, the lock of a synchronous file. -/
structure FileIoSerialization where
  ownerTid : ℕ := 0
  grantTid : ℕ := 0
  waiters : ℕ := 0
  cleanupWaiting : Bool := false
  deriving DecidableEq, Repr

namespace FileIoSerialization

/-- The owner that stands for the cleanup of the file, `u64::MAX`. -/
def cleanupLockOwner : ℕ := 18446744073709551615

/-- The two numbers that are no thread: the free lock and the cleanup. -/
def isReserved (tid : ℕ) : Bool := decide (tid = 0) || decide (tid = cleanupLockOwner)

variable (s : FileIoSerialization)

/-- `is_cleanup_owner` -/
def isCleanupOwner : Bool := decide (s.ownerTid = cleanupLockOwner)

/-- `has_live_io` -/
def hasLiveIo : Bool := decide (s.ownerTid ≠ 0) || decide (s.grantTid ≠ 0) || decide (s.waiters ≠ 0)

/-- `io_lock_owner` -/
def ioLockOwner : Option ℕ := if s.ownerTid = 0 then none else some s.ownerTid

/-- `io_grant_owner` -/
def ioGrantOwner : Option ℕ := if s.grantTid = 0 then none else some s.grantTid

/-- `begin_io` -/
def beginIo (mode : FileIoMode) (tid : ℕ) (cleanupReferenceHeld : Bool) :
    Except FileStatus (FileIoAcquireResult × FileIoSerialization) :=
  if isReserved tid then .error .invalidParameter
  else if !mode.isSynchronous then
    if cleanupReferenceHeld then .error .invalidHandle else .ok (.bypassed, s)
  else if cleanupReferenceHeld ∧ ¬ (s.ownerTid = tid ∧ s.grantTid = tid) then
    .error .invalidHandle
  -- A free lock with counted waiters is not taken: it waits for the promotion.
  else if s.ownerTid = 0 ∧ s.waiters = 0 ∧ !s.cleanupWaiting then
    .ok (.acquired, { s with ownerTid := tid })
  else if s.ownerTid = tid ∧ s.grantTid = tid then .ok (.acquired, { s with grantTid := 0 })
  else match checkedSucc s.waiters with
    | .error status => .error status
    | .ok waiters => .ok (.contended mode.isAlertable, { s with waiters })

/-- `begin_cleanup` -/
def beginCleanup (mode : FileIoMode) :
    Except FileStatus (FileIoAcquireResult × FileIoSerialization) :=
  if s.cleanupWaiting || s.isCleanupOwner then .error .invalidParameter
  else if !mode.isSynchronous then .ok (.bypassed, s)
  else if s.ownerTid = 0 ∧ s.waiters = 0 then
    .ok (.acquired, { s with ownerTid := cleanupLockOwner })
  else .ok (.contended false, { s with cleanupWaiting := true })

/-- `adopt_io_grant` -/
def adoptIoGrant (mode : FileIoMode) (tid : ℕ) : Except FileStatus (Unit × FileIoSerialization) :=
  if isReserved tid ∨ !mode.isSynchronous ∨ s.ownerTid ≠ tid ∨ s.grantTid ≠ tid then
    .error .invalidParameter
  else .ok ((), { s with grantTid := 0 })

/-- `cancel_io_waiter` -/
def cancelIoWaiter : Except FileStatus (ℕ × FileIoSerialization) :=
  if s.waiters = 0 then .error .invalidParameter
  else .ok (s.waiters - 1, { s with waiters := s.waiters - 1 })

/-- `promote_io_waiter` -/
def promoteIoWaiter (mode : FileIoMode) (tid : ℕ) : Except FileStatus (ℕ × FileIoSerialization) :=
  if isReserved tid ∨ !mode.isSynchronous ∨ s.ownerTid ≠ 0 ∨ s.grantTid ≠ 0 ∨ s.waiters = 0 then
    .error .invalidParameter
  else .ok (s.waiters - 1,
    { s with waiters := s.waiters - 1, ownerTid := tid, grantTid := tid })

/-- `promote_cleanup_if_ready` -/
def promoteCleanupIfReady (mode : FileIoMode) (cleanupReferenceHeld : Bool) :
    Except FileStatus (Bool × FileIoSerialization) :=
  if !s.cleanupWaiting then .ok (false, s)
  else if !cleanupReferenceHeld || !mode.isSynchronous then .error .invalidParameter
  else if s.hasLiveIo then .ok (false, s)
  else .ok (true, { s with cleanupWaiting := false, ownerTid := cleanupLockOwner })

/-- `release_io` -/
def releaseIo (mode : FileIoMode) (tid : ℕ) :
    Except FileStatus (FileIoRelease × FileIoSerialization) :=
  if isReserved tid ∨ !mode.isSynchronous ∨ s.ownerTid ≠ tid ∨ s.grantTid ≠ 0 then
    .error .invalidParameter
  else .ok (⟨s.waiters⟩, { s with ownerTid := 0 })

/-- `release_cleanup_io` -/
def releaseCleanupIo : Except FileStatus (FileIoRelease × FileIoSerialization) :=
  if !s.isCleanupOwner ∨ s.grantTid ≠ 0 then .error .invalidParameter
  else .ok (⟨s.waiters⟩, { s with ownerTid := 0 })

/-- `cancel_promoted_io` -/
def cancelPromotedIo (tid : ℕ) : Except FileStatus (FileIoRelease × FileIoSerialization) :=
  if isReserved tid ∨ s.ownerTid ≠ tid ∨ s.grantTid ≠ tid then .error .invalidParameter
  else .ok (⟨s.waiters⟩, { s with ownerTid := 0, grantTid := 0 })

end FileIoSerialization

/-! ## Entries -/

/-- `FileCompletionBinding` -/
structure FileCompletionBinding where
  portId : ℕ
  keyContext : ℕ
  deriving DecidableEq, Repr

/-- `FileReferenceRelease` -/
structure FileReferenceRelease where
  cleanupRequired : Bool
  closeRequired : Bool
  deviceId : ℕ
  portId : Option ℕ
  deriving DecidableEq, Repr

/-- `FileCompletionEntry` -/
structure FileCompletionEntry where
  fileId : ℕ := 0
  deviceId : ℕ := 0
  references : ℕ := 0
  handleReferences : ℕ := 0
  handlePublicationReserved : Bool := false
  ioMode : FileIoMode := .asynchronous
  serialization : FileIoSerialization := {}
  cleanupSent : Bool := false
  /-- The last handle's reference has become the reference of the cleanup. -/
  cleanupReferenceHeld : Bool := false
  cleanupLifecycleStarted : Bool := false
  binding : Option FileCompletionBinding := none
  deriving DecidableEq, Repr

/-- What a function does to the entry it found: it answers, and leaves an entry behind also
where it fails; `none` is a panic. -/
abbrev EntryStep (α : Type) :=
  FileCompletionEntry → Option (Except FileStatus α × FileCompletionEntry)

namespace FileCompletionEntry

variable (entry : FileCompletionEntry)

/-- The slot is in use. -/
def isLive : Bool := decide (entry.references ≠ 0)

/-- A function that only works on the Busy lock of the entry. -/
def onSerialization {α : Type}
    (f : FileIoSerialization → Except FileStatus (α × FileIoSerialization)) : EntryStep α :=
  fun entry => match f entry.serialization with
    | .error status => some (.error status, entry)
    | .ok (answer, serialization) => some (.ok answer, { entry with serialization })

/-- One more reference that is also a handle.  The total is stored before the number of
handles is tried, as in the source. -/
def addHandle : EntryStep Unit := fun entry =>
  match checkedSucc entry.references with
  | .error status => some (.error status, entry)
  | .ok references =>
    let entry := { entry with references }
    match checkedSucc entry.handleReferences with
    | .error status => some (.error status, entry)
    | .ok handleReferences => some (.ok (), { entry with handleReferences })

/-- The last reference frees the entry.  It must not be the last one while an operation
still has the Busy lock or waits for it. -/
def finishRelease (cleanupRequired : Bool) : EntryStep FileReferenceRelease := fun entry =>
  let closeRequired := decide (entry.references = 0)
  if closeRequired && entry.serialization.hasLiveIo then none
  else
    let release : FileReferenceRelease :=
      { cleanupRequired, closeRequired, deviceId := entry.deviceId
        portId := if closeRequired then entry.binding.map (·.portId) else none }
    some (.ok release, if closeRequired then {} else entry)

/-- `references -= 1`, which panics at zero. -/
def dropReference (cleanupRequired : Bool) : EntryStep FileReferenceRelease := fun entry =>
  if entry.references = 0 then none
  else finishRelease cleanupRequired { entry with references := entry.references - 1 }

end FileCompletionEntry

/-! ## The table -/

/-- `FileCompletionTable` -/
abbrev FileCompletionTable := List FileCompletionEntry

/-- The answer of a function of the table and the table it leaves; `none` is a panic. -/
abbrev TableOutcome (α : Type) := Option (Except FileStatus α × FileCompletionTable)

namespace FileCompletionTable

open FileCompletionEntry FileIoSerialization

/-- `new` -/
def new (files : ℕ) : FileCompletionTable := List.replicate files {}

variable (t : FileCompletionTable) (fileId tid : ℕ)

/-- `entry` and `entry_mut`: the entry in use for a file. -/
def entry : Option FileCompletionEntry :=
  KeyedTable.lookup isLive FileCompletionEntry.fileId t fileId

/-- An error that changes nothing. -/
def refuse {α : Type} (status : FileStatus) : TableOutcome α := some (.error status, t)

/-- A step on the entry of the file. -/
def onEntry {α : Type} (f : EntryStep α) : TableOutcome α :=
  match t.entry fileId with
  | none => t.refuse .invalidHandle
  | some entry => (f entry).map fun (answer, entry) =>
    (answer, KeyedTable.replace isLive FileCompletionEntry.fileId fileId entry t)

/-- A new file takes the first free entry. -/
def claimEntry (entry : FileCompletionEntry) : TableOutcome Unit :=
  match KeyedTable.insertFree isLive entry t with
  | none => t.refuse .insufficientResources
  | some t => some (.ok (), t)

/-- `insert_file_with_mode` -/
def insertFileWithMode (deviceId : ℕ) (ioMode : FileIoMode) : TableOutcome Unit :=
  if fileId = 0 ∨ deviceId = 0 then t.refuse .invalidHandle
  else if (t.entry fileId).isSome then
    t.onEntry fileId fun entry =>
      if entry.deviceId ≠ deviceId ∨ entry.ioMode ≠ ioMode ∨ entry.cleanupSent ∨
          entry.handlePublicationReserved then
        some (.error .invalidParameter, entry)
      else addHandle entry
  else t.claimEntry { fileId, deviceId, references := 1, handleReferences := 1, ioMode }

/-- `reserve_file_handle_publication_with_mode` -/
def reserveFileHandlePublicationWithMode (deviceId : ℕ) (ioMode : FileIoMode) :
    TableOutcome Unit :=
  if fileId = 0 ∨ deviceId = 0 then t.refuse .invalidHandle
  else if (t.entry fileId).isSome then t.refuse .invalidParameter
  else t.claimEntry
    { fileId, deviceId, references := 1, handlePublicationReserved := true, ioMode }

/-- `commit_reserved_file_handle` -/
def commitReservedFileHandle : TableOutcome Unit :=
  t.onEntry fileId fun entry =>
    if !entry.handlePublicationReserved ∨ entry.handleReferences ≠ 0 ∨ entry.references ≠ 1 then
      some (.error .invalidParameter, entry)
    else some (.ok (), { entry with handlePublicationReserved := false, handleReferences := 1 })

/-- `cancel_reserved_file_handle` -/
def cancelReservedFileHandle : TableOutcome Unit :=
  t.onEntry fileId fun entry =>
    if !entry.handlePublicationReserved ∨ entry.handleReferences ≠ 0 ∨ entry.references ≠ 1 then
      some (.error .invalidParameter, entry)
    else some (.ok (), {})

/-- `retain_handle` -/
def retainHandle : TableOutcome Unit :=
  t.onEntry fileId fun entry =>
    if entry.cleanupSent || entry.handlePublicationReserved then
      some (.error .invalidParameter, entry)
    else addHandle entry

/-- `retain_file` -/
def retainFile : TableOutcome Unit :=
  t.onEntry fileId fun entry =>
    if entry.handlePublicationReserved then some (.error .invalidParameter, entry)
    else match checkedSucc entry.references with
      | .error status => some (.error status, entry)
      | .ok references => some (.ok (), { entry with references })

/-- `release_file` -/
def releaseFile : TableOutcome FileReferenceRelease :=
  t.onEntry fileId fun entry =>
    if entry.handlePublicationReserved then some (.error .invalidParameter, entry)
    else dropReference false entry

/-- `release_handle` -/
def releaseHandle : TableOutcome FileReferenceRelease :=
  t.onEntry fileId fun entry =>
    if entry.handleReferences = 0 then some (.error .invalidHandle, entry)
    else
      let entry := { entry with handleReferences := entry.handleReferences - 1 }
      -- The last handle hands its reference over to the cleanup.
      if entry.handleReferences = 0 ∧ !entry.cleanupSent then
        finishRelease true { entry with cleanupSent := true, cleanupReferenceHeld := true }
      else dropReference false entry

/-- `release_cleanup_reference` -/
def releaseCleanupReference : TableOutcome FileReferenceRelease :=
  t.onEntry fileId fun entry =>
    if !entry.cleanupReferenceHeld ∨ entry.handleReferences ≠ 0 ∨
        entry.serialization.cleanupWaiting ∨ entry.serialization.isCleanupOwner ∨
        !entry.cleanupLifecycleStarted then
      some (.error .invalidParameter, entry)
    else dropReference false
      { entry with cleanupReferenceHeld := false, cleanupLifecycleStarted := false }

/-- `associate` -/
def associate (binding : FileCompletionBinding) : TableOutcome Unit :=
  t.onEntry fileId fun entry =>
    if entry.ioMode.isSynchronous ∨ entry.binding.isSome ∨ entry.handlePublicationReserved then
      some (.error .invalidParameter, entry)
    else some (.ok (), { entry with binding := some binding })

/-- The source checks the thread before it looks the file up. -/
def onThread {α : Type} (f : EntryStep α) : TableOutcome α :=
  if isReserved tid then t.refuse .invalidParameter else t.onEntry fileId f

/-- `begin_io` of the table. -/
def beginIo : TableOutcome FileIoAcquireResult :=
  t.onThread fileId tid fun entry =>
    onSerialization (·.beginIo entry.ioMode tid entry.cleanupReferenceHeld) entry

/-- `acquire_file_io_with_mode` -/
def acquireFileIoWithMode (capturedMode : FileIoMode) : TableOutcome FileIoAcquireResult :=
  t.onThread fileId tid fun entry =>
    if entry.ioMode.isSynchronous ≠ capturedMode.isSynchronous ∨
        entry.handlePublicationReserved ∨ entry.serialization.ioGrantOwner = some tid then
      some (.error .invalidParameter, entry)
    else if entry.cleanupSent then some (.error .invalidHandle, entry)
    else match checkedSucc entry.references with
      | .error status => some (.error status, entry)
      | .ok references =>
        match entry.serialization.beginIo capturedMode tid entry.cleanupReferenceHeld with
        | .error status => some (.error status, entry)
        | .ok (result, serialization) =>
          some (.ok result, { entry with references, serialization })

/-- With the mode that the file has now. -/
def acquireFileIo : TableOutcome FileIoAcquireResult :=
  if isReserved tid then t.refuse .invalidParameter
  else match t.entry fileId with
    | none => t.refuse .invalidHandle
    | some entry => t.acquireFileIoWithMode fileId tid entry.ioMode

/-- `adopt_io_grant` -/
def adoptIoGrant : TableOutcome Unit :=
  t.onThread fileId tid fun entry =>
    if entry.handlePublicationReserved then some (.error .invalidParameter, entry)
    else onSerialization (·.adoptIoGrant entry.ioMode tid) entry

/-- `begin_cleanup` of the table. -/
def beginCleanup : TableOutcome FileIoAcquireResult :=
  t.onEntry fileId fun entry =>
    if !entry.cleanupReferenceHeld ∨ entry.handleReferences ≠ 0 then
      some (.error .invalidParameter, entry)
    else onSerialization (·.beginCleanup entry.ioMode) entry

/-- `cancel_io_waiter` -/
def cancelIoWaiter : TableOutcome ℕ := t.onEntry fileId (onSerialization (·.cancelIoWaiter))

/-- `promote_io_waiter` -/
def promoteIoWaiter : TableOutcome ℕ :=
  t.onThread fileId tid fun entry => onSerialization (·.promoteIoWaiter entry.ioMode tid) entry

/-- `promote_cleanup_if_ready` -/
def promoteCleanupIfReady : TableOutcome Bool :=
  t.onEntry fileId fun entry =>
    onSerialization (·.promoteCleanupIfReady entry.ioMode entry.cleanupReferenceHeld) entry

/-- `mark_cleanup_lifecycle_started` -/
def markCleanupLifecycleStarted : TableOutcome Bool :=
  t.onEntry fileId fun entry =>
    if !entry.cleanupReferenceHeld ∨ entry.handleReferences ≠ 0 ∨
        entry.serialization.cleanupWaiting then
      some (.error .invalidParameter, entry)
    else if entry.ioMode.isSynchronous ∧ !entry.serialization.isCleanupOwner then
      some (.error .invalidParameter, entry)
    else if entry.cleanupLifecycleStarted then some (.ok false, entry)
    else some (.ok true, { entry with cleanupLifecycleStarted := true })

/-- `release_io` -/
def releaseIo : TableOutcome FileIoRelease :=
  t.onEntry fileId fun entry => onSerialization (·.releaseIo entry.ioMode tid) entry

/-- `release_cleanup_io` -/
def releaseCleanupIo : TableOutcome FileIoRelease :=
  t.onEntry fileId (onSerialization (·.releaseCleanupIo))

/-- `cancel_promoted_io` -/
def cancelPromotedIo : TableOutcome FileIoRelease :=
  t.onEntry fileId (onSerialization (·.cancelPromotedIo tid))

/-- The caller's own update of the file (`commitBody`) runs last and may still fail. -/
def updateIoModeWith (expectedDevice : ℕ) (expectedLiveMode nextMode : FileIoMode)
    (commitBody : Except FileStatus Unit) : TableOutcome Unit :=
  t.onThread fileId tid fun entry =>
    if expectedDevice = 0 ∨ entry.deviceId ≠ expectedDevice then
      some (.error .invalidHandle, entry)
    else if entry.handlePublicationReserved ∨ entry.ioMode ≠ expectedLiveMode ∨
        entry.ioMode.isSynchronous ≠ nextMode.isSynchronous ∨
        (entry.ioMode.isSynchronous ∧ (entry.serialization.ioLockOwner ≠ some tid ∨
          entry.serialization.ioGrantOwner.isSome)) then
      some (.error .invalidParameter, entry)
    else match commitBody with
      | .error status => some (.error status, entry)
      | .ok () => some (.ok (), { entry with ioMode := nextMode })

/-! Observers. -/

/-- `io_lock_owner` -/
def ioLockOwner : Except FileStatus (Option ℕ) :=
  ((t.entry fileId).map (·.serialization.ioLockOwner)).elim (.error .invalidHandle) .ok

/-- `io_grant_owner` -/
def ioGrantOwner : Except FileStatus (Option ℕ) :=
  ((t.entry fileId).map (·.serialization.ioGrantOwner)).elim (.error .invalidHandle) .ok

/-- `io_waiter_count` -/
def ioWaiterCount : Except FileStatus ℕ :=
  ((t.entry fileId).map (·.serialization.waiters)).elim (.error .invalidHandle) .ok

end FileCompletionTable

/-! ## Calls -/

/-- A call of a function of the table.  The first argument is the file. -/
inductive FileOp
  | insertFileWithMode (fileId deviceId : ℕ) (ioMode : FileIoMode)
  | reserveFileHandlePublicationWithMode (fileId deviceId : ℕ) (ioMode : FileIoMode)
  | commitReservedFileHandle (fileId : ℕ)
  | cancelReservedFileHandle (fileId : ℕ)
  | retainHandle (fileId : ℕ)
  | retainFile (fileId : ℕ)
  | releaseFile (fileId : ℕ)
  | releaseHandle (fileId : ℕ)
  | releaseCleanupReference (fileId : ℕ)
  | associate (fileId : ℕ) (binding : FileCompletionBinding)
  | beginIo (fileId tid : ℕ)
  | acquireFileIo (fileId tid : ℕ)
  | acquireFileIoWithMode (fileId tid : ℕ) (capturedMode : FileIoMode)
  | adoptIoGrant (fileId tid : ℕ)
  | beginCleanup (fileId : ℕ)
  | cancelIoWaiter (fileId : ℕ)
  | promoteIoWaiter (fileId tid : ℕ)
  | promoteCleanupIfReady (fileId : ℕ)
  | markCleanupLifecycleStarted (fileId : ℕ)
  | releaseIo (fileId tid : ℕ)
  | releaseCleanupIo (fileId : ℕ)
  | cancelPromotedIo (fileId tid : ℕ)
  | updateIoModeWith (fileId tid expectedDevice : ℕ) (expectedLiveMode nextMode : FileIoMode)
      (commitBody : Except FileStatus Unit)

/-- What a call answers when it succeeds. -/
inductive FileReply
  | done
  | admission (result : FileIoAcquireResult)
  | waiters (count : ℕ)
  | flag (value : Bool)
  | released (release : FileReferenceRelease)
  | busyReleased (release : FileIoRelease)
  deriving DecidableEq, Repr

/-- The answer of a call as a reply. -/
def TableOutcome.reply {α : Type} (wrap : α → FileReply) (outcome : TableOutcome α) :
    TableOutcome FileReply :=
  outcome.map fun (answer, t) => (answer.map wrap, t)

namespace FileOp

/-- The file of a call. -/
@[simp] def fileId : FileOp → ℕ
  | insertFileWithMode f _ _ | reserveFileHandlePublicationWithMode f _ _
  | commitReservedFileHandle f | cancelReservedFileHandle f | retainHandle f | retainFile f
  | releaseFile f | releaseHandle f | releaseCleanupReference f | associate f _ | beginIo f _
  | acquireFileIo f _ | acquireFileIoWithMode f _ _ | adoptIoGrant f _ | beginCleanup f
  | cancelIoWaiter f | promoteIoWaiter f _ | promoteCleanupIfReady f
  | markCleanupLifecycleStarted f | releaseIo f _ | releaseCleanupIo f | cancelPromotedIo f _
  | updateIoModeWith f _ _ _ _ _ => f

open TableOutcome in
/-- The call on the table. -/
def call (t : FileCompletionTable) : FileOp → TableOutcome FileReply
  | insertFileWithMode f device mode => reply (fun _ => .done) (t.insertFileWithMode f device mode)
  | reserveFileHandlePublicationWithMode f device mode =>
    reply (fun _ => .done) (t.reserveFileHandlePublicationWithMode f device mode)
  | commitReservedFileHandle f => reply (fun _ => .done) (t.commitReservedFileHandle f)
  | cancelReservedFileHandle f => reply (fun _ => .done) (t.cancelReservedFileHandle f)
  | retainHandle f => reply (fun _ => .done) (t.retainHandle f)
  | retainFile f => reply (fun _ => .done) (t.retainFile f)
  | releaseFile f => reply .released (t.releaseFile f)
  | releaseHandle f => reply .released (t.releaseHandle f)
  | releaseCleanupReference f => reply .released (t.releaseCleanupReference f)
  | associate f binding => reply (fun _ => .done) (t.associate f binding)
  | beginIo f tid => reply .admission (t.beginIo f tid)
  | acquireFileIo f tid => reply .admission (t.acquireFileIo f tid)
  | acquireFileIoWithMode f tid mode => reply .admission (t.acquireFileIoWithMode f tid mode)
  | adoptIoGrant f tid => reply (fun _ => .done) (t.adoptIoGrant f tid)
  | beginCleanup f => reply .admission (t.beginCleanup f)
  | cancelIoWaiter f => reply .waiters (t.cancelIoWaiter f)
  | promoteIoWaiter f tid => reply .waiters (t.promoteIoWaiter f tid)
  | promoteCleanupIfReady f => reply .flag (t.promoteCleanupIfReady f)
  | markCleanupLifecycleStarted f => reply .flag (t.markCleanupLifecycleStarted f)
  | releaseIo f tid => reply .busyReleased (t.releaseIo f tid)
  | releaseCleanupIo f => reply .busyReleased (t.releaseCleanupIo f)
  | cancelPromotedIo f tid => reply .busyReleased (t.cancelPromotedIo f tid)
  | updateIoModeWith f tid device expected next body =>
    reply (fun _ => .done) (t.updateIoModeWith f tid device expected next body)

end FileOp

end UserspaceNtos.IoCompletion
