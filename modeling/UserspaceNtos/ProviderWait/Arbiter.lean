import UserspaceNtos.NtTime.Deadline
import Mathlib.Data.List.MinMax

/-!
# The arbiter of provider waits

The arbiter parks the waits of isolated providers and completes them.  The dispatcher objects
themselves live behind a backend that hands out leases; the backend is a parameter here, as it
is in the source.  A state is the list of parked waits together with the backend's own state.

`publish` is the caller's function that takes a continuation or a completion over; it may
refuse.  `capacity` tells whether the storage of a new waiter could be had.
-/

namespace UserspaceNtos.ProviderWait

open List NtTime

/-!
## Wait requests of isolated providers

A provider asks to wait for dispatcher objects by a request of fixed layout.  `validate` is
everything that is checked about a request before the wait itself: an accepted request has
between one and 64 distinct objects.
-/

/-- `LaneHandle` -/
structure LaneHandle where
  index : ℕ
  generation : ℕ
  deriving DecidableEq, Repr

/-- `SuspensionHostedClient` -/
structure SuspensionHostedClient where
  clientPi : ℕ
  clientGeneration : ℕ
  clientTid : ℕ
  clientBadge : ℕ
  deriving DecidableEq, Repr

/-- `SuspensionCaller` -/
inductive SuspensionCaller
  | hosted (client : SuspensionHostedClient)
  | kernel (lane : LaneHandle)
  deriving DecidableEq, Repr

/-- The source's `SuspensionOwner`. -/
structure ProviderWaitOwner where
  providerDomain : ℕ
  providerGeneration : ℕ
  dispatchId : ℕ
  caller : SuspensionCaller
  deriving DecidableEq, Repr

namespace ProviderWaitOwner

/-- `is_valid` -/
def isValid (owner : ProviderWaitOwner) : Bool :=
  decide (owner.providerDomain ≠ 0) && decide (owner.providerGeneration ≠ 0) &&
    decide (owner.dispatchId ≠ 0) &&
    match owner.caller with
    | .hosted client => decide (client.clientGeneration ≠ 0) && decide (client.clientTid ≠ 0) &&
        decide (client.clientBadge ≠ 0)
    | .kernel lane => decide (lane.generation ≠ 0)

/-- Two owners stand for one dispatch. -/
def sameDispatch (a b : ProviderWaitOwner) : Bool :=
  decide (a.providerDomain = b.providerDomain) &&
    decide (a.providerGeneration = b.providerGeneration) &&
    decide (a.dispatchId = b.dispatchId) &&
    match a.caller, b.caller with
    | .hosted _, .hosted _ => true
    | .kernel lane, .kernel other => decide (lane = other)
    | _, _ => false

end ProviderWaitOwner

/-- `ProviderWaitType` -/
inductive ProviderWaitType
  | all
  | any
  deriving DecidableEq, Repr

/-- `ProviderWaitMode` -/
inductive ProviderWaitMode
  | kernel
  | user
  deriving DecidableEq, Repr

/-- `ProviderWaitTimeoutKind` -/
inductive ProviderWaitTimeoutKind
  | infinite
  | poll
  | relative
  | absolute
  deriving DecidableEq, Repr

/-- `ProviderWaitObjectType` -/
inductive ProviderWaitObjectType
  | event
  | semaphore
  | timer
  | process
  | thread
  | file
  deriving DecidableEq, Repr

/-- `ProviderWaitObject` -/
structure ProviderWaitObject where
  objectType : ℕ
  flags : ℕ
  objectId : ℕ
  objectGeneration : ℕ
  deriving DecidableEq, Repr

namespace ProviderWaitObject

/-- `EMPTY` -/
def empty : ProviderWaitObject := ⟨0, 0, 0, 0⟩

/-- `typed` -/
def typed (object : ProviderWaitObject) : Option ProviderWaitObjectType :=
  match object.objectType with
  | 1 => some .event
  | 2 => some .semaphore
  | 3 => some .timer
  | 4 => some .process
  | 5 => some .thread
  | 6 => some .file
  | _ => none

/-- What must hold of an object by itself. -/
def isValid (object : ProviderWaitObject) : Bool :=
  (match object.typed with
    | some .file => decide (object.objectId / 2 ^ 40 ≠ 0)
    | some _ => decide (object.objectId ≤ 2 ^ 40)
    | none => false) &&
    decide (object.flags = 0) && decide (object.objectId ≠ 0) &&
    decide (object.objectGeneration ≠ 0) && decide (object.objectGeneration ≤ 2 ^ 24 - 1)

/-- Two entries name one object; the flags do not count. -/
def sameObject (a b : ProviderWaitObject) : Bool :=
  decide (a.objectType = b.objectType) && decide (a.objectId = b.objectId) &&
    decide (a.objectGeneration = b.objectGeneration)

end ProviderWaitObject

/-- `ProviderWaitHeader` -/
structure ProviderWaitHeader where
  magic : ℕ
  version : ℕ
  headerSize : ℕ
  requestSize : ℕ
  objectCount : ℕ
  waitType : ℕ
  waitMode : ℕ
  alertable : ℕ
  timeoutKind : ℕ
  reserved : ℕ
  timeout100ns : ℤ
  waitId : ℕ
  providerDomain : ℕ
  providerGeneration : ℕ
  callerKind : ℕ
  kernelLaneIndex : ℕ
  kernelLaneGeneration : ℕ
  clientPi : ℕ
  ownerReserved : ℕ
  clientGeneration : ℕ
  clientTid : ℕ
  clientBadge : ℕ
  dispatchId : ℕ
  deriving DecidableEq, Repr

/-- `owner` -/
def ProviderWaitHeader.owner (h : ProviderWaitHeader) : Option ProviderWaitOwner :=
  if h.ownerReserved ≠ 0 then none
  else
    let caller : Option SuspensionCaller :=
      match h.callerKind with
      | 1 =>
        if h.kernelLaneIndex ≠ 0 ∨ h.kernelLaneGeneration ≠ 0 then none
        else some (.hosted ⟨h.clientPi, h.clientGeneration, h.clientTid, h.clientBadge⟩)
      | 2 =>
        if h.clientPi ≠ 0 ∨ h.clientGeneration ≠ 0 ∨ h.clientTid ≠ 0 ∨ h.clientBadge ≠ 0 then
          none
        else some (.kernel ⟨h.kernelLaneIndex, h.kernelLaneGeneration⟩)
      | _ => none
    caller.bind fun caller =>
      let owner : ProviderWaitOwner :=
        ⟨h.providerDomain, h.providerGeneration, h.dispatchId, caller⟩
      if owner.isValid then some owner else none

/-- A request has room for 64 objects, of which the header counts the used ones. -/
structure ProviderWaitRequest where
  header : ProviderWaitHeader
  objects : List ProviderWaitObject
  deriving DecidableEq, Repr

/-- `ProviderWaitAbiError` -/
inductive ProviderWaitAbiError
  | invalidHeader
  | invalidIdentity
  | invalidObjectCount
  | invalidWaitType
  | invalidWaitMode
  | invalidAlertable
  | invalidTimeout
  | invalidObject
  | duplicateObject
  | dirtyTail
  deriving DecidableEq, Repr

/-- `ValidatedProviderWait` -/
structure ValidatedProviderWait where
  waitId : ℕ
  owner : ProviderWaitOwner
  waitType : ProviderWaitType
  waitMode : ProviderWaitMode
  alertable : Bool
  timeoutKind : ProviderWaitTimeoutKind
  timeout100ns : ℤ
  objects : List ProviderWaitObject
  deriving DecidableEq, Repr

/-- `PROVIDER_WAIT_ABI_MAGIC`, the letters `PWT1`. -/
def providerWaitAbiMagic : ℕ := 0x31545750

/-- `PROVIDER_WAIT_ABI_VERSION` -/
def providerWaitAbiVersion : ℕ := 3

/-- The sizes of the header and of one object. -/
def headerSize : ℕ := 128

/-- `size_of::<ProviderWaitObject>()` -/
def objectSize : ℕ := 24

/-- `PROVIDER_WAIT_MAX_OBJECTS` -/
def providerWaitMaxObjects : ℕ := 64

/-- `accepts` -/
def ProviderWaitTimeoutKind.accepts (timeout : ℤ) : ProviderWaitTimeoutKind → Bool
  | infinite | poll => decide (timeout = 0)
  | relative => decide (timeout < 0)
  | absolute => decide (0 < timeout)

/-- `ProviderWaitType::from_wire` -/
def waitTypeFromWire : ℕ → Option ProviderWaitType
  | 0 => some .all
  | 1 => some .any
  | _ => none

/-- `ProviderWaitMode::from_wire` -/
def waitModeFromWire : ℕ → Option ProviderWaitMode
  | 0 => some .kernel
  | 1 => some .user
  | _ => none

/-- The alertable flag of a wire value. -/
def alertableFromWire : ℕ → Option Bool
  | 0 => some false
  | 1 => some true
  | _ => none

/-- `ProviderWaitTimeoutKind::from_wire` -/
def timeoutKindFromWire : ℕ → Option ProviderWaitTimeoutKind
  | 0 => some .infinite
  | 1 => some .poll
  | 2 => some .relative
  | 3 => some .absolute
  | _ => none

/-- Each object is valid and was not listed before. -/
def checkObjects : List ProviderWaitObject → List ProviderWaitObject →
    Except ProviderWaitAbiError Unit
  | _, [] => .ok ()
  | prior, object :: rest =>
    if !object.isValid then .error .invalidObject
    else if prior.any (·.sameObject object) then .error .duplicateObject
    else checkObjects (prior ++ [object]) rest

namespace ProviderWaitRequest

/-- `validate` -/
def validate (request : ProviderWaitRequest) :
    Except ProviderWaitAbiError ValidatedProviderWait :=
  let h := request.header
  if h.magic ≠ providerWaitAbiMagic ∨ h.version ≠ providerWaitAbiVersion ∨
      h.headerSize ≠ headerSize ∨ h.reserved ≠ 0 ∨ h.ownerReserved ≠ 0 then
    .error .invalidHeader
  else if h.objectCount = 0 ∨ h.objectCount > providerWaitMaxObjects then
    .error .invalidObjectCount
  else if h.requestSize ≠ headerSize + h.objectCount * objectSize then .error .invalidHeader
  else if h.waitId = 0 then .error .invalidIdentity
  else match h.owner with
  | none => .error .invalidIdentity
  | some owner => match waitTypeFromWire h.waitType with
  | none => .error .invalidWaitType
  | some waitType => match waitModeFromWire h.waitMode with
  | none => .error .invalidWaitMode
  | some waitMode => match alertableFromWire h.alertable with
  | none => .error .invalidAlertable
  | some alertable => match timeoutKindFromWire h.timeoutKind with
  | none => .error .invalidTimeout
  | some timeoutKind =>
    if !timeoutKind.accepts h.timeout100ns then .error .invalidTimeout
    else
      let objects := request.objects.take h.objectCount
      match checkObjects [] objects with
      | .error error => .error error
      | .ok () =>
        if (request.objects.drop h.objectCount).any fun o => decide (o ≠ .empty) then
          .error .dirtyTail
        else .ok { waitId := h.waitId, owner, waitType, waitMode, alertable, timeoutKind
                   timeout100ns := h.timeout100ns, objects }

end ProviderWaitRequest

theorem checkObjects_eq_ok {prior objects : List ProviderWaitObject}
    (h : checkObjects prior objects = .ok ()) : objects.Nodup ∧ ∀ o ∈ objects, o ∉ prior := by
  induction objects generalizing prior with
  | nil => exact ⟨nodup_nil, fun _ ho => absurd ho not_mem_nil⟩
  | cons object rest ih =>
    rw [checkObjects] at h
    split at h
    · cases h
    split_ifs at h with hfresh
    obtain ⟨hnodup, hrest⟩ := ih h
    have hnotprior : object ∉ prior := fun hmem =>
      hfresh (any_eq_true.mpr ⟨object, hmem, by simp [ProviderWaitObject.sameObject]⟩)
    refine ⟨nodup_cons.mpr ⟨fun hmem => ?_, hnodup⟩, fun o ho => ?_⟩
    · exact hrest object hmem (mem_append_right _ (mem_singleton_self object))
    · rcases mem_cons.mp ho with rfl | ho
      · exact hnotprior
      · exact fun hmem => hrest o ho (mem_append_left _ hmem)

/-- The objects of an accepted request are distinct. -/
theorem ProviderWaitRequest.validate_objects {request : ProviderWaitRequest}
    {wait : ValidatedProviderWait} (h : request.validate = .ok wait) : wait.objects.Nodup := by
  unfold validate at h
  simp only at h
  repeat' split at h
  all_goals cases h
  case _ hobjects _ => exact (checkObjects_eq_ok hobjects).1

/-- `STATUS_WAIT_0` -/
def statusWait0 : ℤ := 0

/-- `STATUS_TIMEOUT` -/
def statusTimeout : ℤ := 0x102

/-- `STATUS_ALERTED` -/
def statusAlerted : ℤ := 0x101

/-- `STATUS_USER_APC` -/
def statusUserApc : ℤ := 0xC0

/-- `ProviderWaitInterrupt` -/
inductive ProviderWaitInterrupt
  | alerted
  | userApc
  deriving DecidableEq, Repr

/-- `status` -/
def ProviderWaitInterrupt.status : ProviderWaitInterrupt → ℤ
  | alerted => statusAlerted
  | userApc => statusUserApc

/-- `ProviderDispatcherWaitBackend`: the operations on dispatcher objects, with leases `L`,
errors `E` and states `β`. -/
structure WaitBackend (β L E : Type) where
  acquire : ProviderWaitOwner → ProviderWaitObject → β → Except E L × β
  isReady : β → L → Bool
  consume : L → β → β
  release : L → β → β

/-- `ProviderDispatcherWaitError` -/
inductive ProviderDispatcherWaitError (E : Type)
  | invalidRequest (error : ProviderWaitAbiError)
  | ownerMismatch
  | unsupportedObjectType
  | invalidAdmissionSequence
  | duplicateWait
  | notPoll
  | noCapacity
  | backend (error : E)
  deriving DecidableEq, Repr

/-- `ProviderDispatcherWaitPublicationError` -/
inductive ProviderDispatcherWaitPublicationError (E P : Type)
  | wait (error : ProviderDispatcherWaitError E)
  | publication (error : P)
  deriving DecidableEq, Repr

/-- `ProviderDispatcherWaitAdmission` -/
inductive ProviderDispatcherWaitAdmission
  | satisfied (waitId : ℕ) (status : ℤ)
  | timedOut (waitId : ℕ)
  | parked (waitId : ℕ)
  deriving DecidableEq, Repr

/-- `ProviderDispatcherWaitCompletion` -/
structure ProviderDispatcherWaitCompletion where
  waitId : ℕ
  owner : ProviderWaitOwner
  admissionSequence : ℕ
  status : ℤ
  cancelled : Bool
  deriving DecidableEq, Repr

/-- `ProviderDispatcherWaitRecord`, a waiter with its leases. -/
structure ProviderDispatcherWaitRecord (L : Type) where
  waitId : ℕ
  owner : ProviderWaitOwner
  admissionSequence : ℕ
  waitType : ProviderWaitType
  waitMode : ProviderWaitMode
  alertable : Bool
  objects : List ProviderWaitObject
  leases : List L
  deadline : Deadline
  deriving DecidableEq, Repr

/-- The arbiter and the backend. -/
structure WaitState (β L : Type) where
  waiters : List (ProviderDispatcherWaitRecord L)
  backend : β

section Arbiter

variable {β L E C O P : Type} (B : WaitBackend β L E)

/-! ## Leases -/

/-- In the order opposite to their acquisition. -/
def releaseLeases (leases : List L) (backend : β) : β :=
  leases.reverse.foldl (fun backend lease => B.release lease backend) backend

/-- One lease for each object, or none. -/
def acquireLeases (owner : ProviderWaitOwner) :
    List ProviderWaitObject → List L → β → Except E (List L) × β
  | [], leases, backend => (.ok leases, backend)
  | object :: rest, leases, backend =>
    match B.acquire owner object backend with
    | (.ok lease, backend) => acquireLeases owner rest (leases ++ [lease]) backend
    | (.error error, backend) => (.error error, releaseLeases B leases backend)

/-- `ready_selection` -/
def readySelection (backend : β) (waitType : ProviderWaitType) (leases : List L) : Option ℕ :=
  match waitType with
  | .all => if leases.all (B.isReady backend) then some 0 else none
  | .any => leases.findIdx? (B.isReady backend)

/-- `consume_selection` -/
def consumeSelection (waitType : ProviderWaitType) (leases : List L) (index : ℕ) (backend : β) :
    β :=
  match waitType with
  | .all => leases.foldl (fun backend lease => B.consume lease backend) backend
  | .any => match leases[index]? with
      | some lease => B.consume lease backend
      | none => backend

/-! ## Requests -/

/-- The object types that the arbiter waits for. -/
def isSupported (object : ProviderWaitObject) : Bool :=
  match object.typed with
  | some .event | some .timer | some .file => true
  | _ => false

/-- `validate_request` -/
def validateRequest (request : ProviderWaitRequest) (expectedOwner : ProviderWaitOwner) :
    Except (ProviderDispatcherWaitError E) ValidatedProviderWait :=
  match request.validate with
  | .error error => .error (.invalidRequest error)
  | .ok wait =>
    if wait.owner ≠ expectedOwner then .error .ownerMismatch
    else if wait.objects.any fun o => !isSupported o then .error .unsupportedObjectType
    else .ok wait

/-- Neither the wait nor its dispatch is parked already. -/
def isDuplicate (waiters : List (ProviderDispatcherWaitRecord L)) (wait : ValidatedProviderWait) :
    Bool :=
  waiters.any fun waiter =>
    decide (waiter.waitId = wait.waitId) || waiter.owner.sameDispatch wait.owner

/-- `poll` -/
def poll (request : ProviderWaitRequest) (expectedOwner : ProviderWaitOwner)
    (s : WaitState β L) : Except (ProviderDispatcherWaitError E) ℤ × WaitState β L :=
  match validateRequest request expectedOwner with
  | .error error => (.error error, s)
  | .ok wait =>
    if wait.timeoutKind ≠ .poll then (.error .notPoll, s)
    else if isDuplicate s.waiters wait then (.error .duplicateWait, s)
    else match acquireLeases B wait.owner wait.objects [] s.backend with
    | (.error error, backend) => (.error (.backend error), { s with backend })
    | (.ok leases, backend) =>
      match readySelection B backend wait.waitType leases with
      | some index =>
        (.ok (statusWait0 + index), { s with
          backend := releaseLeases B leases
            (consumeSelection B wait.waitType leases index backend) })
      | none => (.ok statusTimeout, { s with backend := releaseLeases B leases backend })

/-! ## Admission -/

/-- The deadline of a validated wait. -/
def deadlineOf (wait : ValidatedProviderWait) (origin : TimeSnapshot) : Deadline :=
  match wait.timeoutKind with
  | .infinite | .poll => .infinite
  | .relative | .absolute => .fromNtTimeout (some wait.timeout100ns) origin

/-- The record of a wait and whether it is a poll. -/
def prepareAdmission (request : ProviderWaitRequest) (expectedOwner : ProviderWaitOwner)
    (admissionSequence : ℕ) (origin : TimeSnapshot) (capacity : Bool) (s : WaitState β L) :
    Except (ProviderDispatcherWaitError E) (ProviderDispatcherWaitRecord L × Bool) ×
      WaitState β L :=
  match validateRequest request expectedOwner with
  | .error error => (.error error, s)
  | .ok wait =>
    if admissionSequence = 0 then (.error .invalidAdmissionSequence, s)
    else if isDuplicate s.waiters wait then (.error .duplicateWait, s)
    else if !capacity then (.error .noCapacity, s)
    else match acquireLeases B wait.owner wait.objects [] s.backend with
    | (.error error, backend) => (.error (.backend error), { s with backend })
    | (.ok leases, backend) =>
      (.ok ({ waitId := wait.waitId, owner := wait.owner, admissionSequence
              waitType := wait.waitType, waitMode := wait.waitMode
              alertable := wait.alertable, objects := wait.objects, leases
              deadline := deadlineOf wait origin },
            decide (wait.timeoutKind = .poll)), { s with backend })

/-- What becomes of a wait whose continuation is published. -/
def settleAdmission (waiter : ProviderDispatcherWaitRecord L) (isPoll : Bool)
    (now : TimeSnapshot) (s : WaitState β L) :
    ProviderDispatcherWaitAdmission × WaitState β L :=
  match readySelection B s.backend waiter.waitType waiter.leases with
  | some index =>
    (.satisfied waiter.waitId (statusWait0 + index), { s with
      backend := releaseLeases B waiter.leases
        (consumeSelection B waiter.waitType waiter.leases index s.backend) })
  | none =>
    if isPoll || waiter.deadline.isDue now then
      (.timedOut waiter.waitId, { s with backend := releaseLeases B waiter.leases s.backend })
    else (.parked waiter.waitId, { s with waiters := s.waiters ++ [waiter] })

/-- `admit_owned_at`, of which the other admissions are cases. -/
def admitOwnedAt (request : ProviderWaitRequest) (expectedOwner : ProviderWaitOwner)
    (admissionSequence : ℕ) (origin now : TimeSnapshot) (capacity : Bool) (continuation : C)
    (publish : C → Except (P × C) O) (s : WaitState β L) :
    Except (ProviderDispatcherWaitPublicationError E P × C)
      (ProviderDispatcherWaitAdmission × O) × WaitState β L :=
  match prepareAdmission B request expectedOwner admissionSequence origin capacity s with
  | (.error error, s) => (.error (.wait error, continuation), s)
  | (.ok (waiter, isPoll), s) =>
    match publish continuation with
    | .error (error, continuation) =>
      (.error (.publication error, continuation),
        { s with backend := releaseLeases B waiter.leases s.backend })
    | .ok published =>
      let (admission, s) := settleAdmission B waiter isPoll now s
      (.ok (admission, published), s)

/-! ## Completion -/

/-- The completion of a waiter. -/
def completion (waiter : ProviderDispatcherWaitRecord L) (status : ℤ) (cancelled : Bool) :
    ProviderDispatcherWaitCompletion :=
  { waitId := waiter.waitId, owner := waiter.owner
    admissionSequence := waiter.admissionSequence, status, cancelled }

/-- A parked wait with its place. -/
abbrev Slot (L : Type) := ProviderDispatcherWaitRecord L × ℕ

/-- The waits that are ready, with their selections; `consumes` restricts them further. -/
def readySlots (s : WaitState β L)
    (consumes : ProviderDispatcherWaitRecord L → ℕ → Bool) : List (Slot L × ℕ) :=
  s.waiters.zipIdx.filterMap fun slot =>
    (readySelection B s.backend slot.1.waitType slot.1.leases).bind fun selected =>
      if consumes slot.1 selected then some (slot, selected) else none

/-- The one with the smallest admission sequence, the first of them. -/
def oldestReady (s : WaitState β L) (consumes : ProviderDispatcherWaitRecord L → ℕ → Bool) :
    Option (Slot L × ℕ) :=
  (readySlots B s consumes).argmin fun candidate => candidate.1.1.admissionSequence

/-- The completion of a wait consumes the object for it. -/
def consumesObject (object : ProviderWaitObject) (waiter : ProviderDispatcherWaitRecord L)
    (selected : ℕ) : Bool :=
  match waiter.waitType with
  | .all => waiter.objects.contains object
  | .any => decide (waiter.objects[selected]? = some object)

/-- A parked wait is removed and its leases go back. -/
def remove (slot : Slot L) (s : WaitState β L) : WaitState β L :=
  { waiters := s.waiters.eraseIdx slot.2
    backend := releaseLeases B slot.1.leases s.backend }

/-- `complete_ready` -/
def completeReady (slot : Slot L) (selected : ℕ) (s : WaitState β L) : WaitState β L :=
  { waiters := s.waiters.eraseIdx slot.2
    backend := releaseLeases B slot.1.leases
      (consumeSelection B slot.1.waitType slot.1.leases selected s.backend) }

/-- Publication before anything is changed. -/
def publishReady (publish : ProviderDispatcherWaitCompletion → Except P O) (slot : Slot L)
    (selected : ℕ) (s : WaitState β L) :
    Except P (Option (ProviderDispatcherWaitCompletion × O)) × WaitState β L :=
  let done := completion slot.1 (statusWait0 + selected) false
  match publish done with
  | .error error => (.error error, s)
  | .ok output => (.ok (some (done, output)), completeReady B slot selected s)

/-- `pop_ready_with` -/
def popReadyWith (publish : ProviderDispatcherWaitCompletion → Except P O) (s : WaitState β L) :
    Except P (Option (ProviderDispatcherWaitCompletion × O)) × WaitState β L :=
  match oldestReady B s fun _ _ => true with
  | none => (.ok none, s)
  | some (slot, selected) => publishReady B publish slot selected s

/-- `pop_event_ready_with` -/
def popEventReadyWith (object : ProviderWaitObject) (expectedSequence : ℕ)
    (publish : ProviderDispatcherWaitCompletion → Except P O) (s : WaitState β L) :
    Except P (Option (ProviderDispatcherWaitCompletion × O)) × WaitState β L :=
  match oldestReady B s (consumesObject object) with
  | none => (.ok none, s)
  | some (slot, selected) =>
    if slot.1.admissionSequence ≠ expectedSequence then (.ok none, s)
    else publishReady B publish slot selected s

/-- A later candidate has to be strictly better: an earlier deadline, or the same deadline and
a smaller sequence. -/
def earlierDue (now : TimeSnapshot) (best candidate : Slot L) : Slot L :=
  if candidate.1.deadline.orderingKey now < best.1.deadline.orderingKey now ∨
      candidate.1.deadline.orderingKey now = best.1.deadline.orderingKey now ∧
        candidate.1.admissionSequence < best.1.admissionSequence then candidate
  else best

/-- The waiter that `pop_due_with` takes. -/
def oldestDue (now : TimeSnapshot) (s : WaitState β L) : Option (Slot L) :=
  match s.waiters.zipIdx.filter fun slot => slot.1.deadline.isDue now with
  | [] => none
  | first :: rest => some (rest.foldl (earlierDue now) first)

/-- `pop_due_with` -/
def popDueWith (now : TimeSnapshot) (publish : ProviderDispatcherWaitCompletion → Except P O)
    (s : WaitState β L) :
    Except P (Option (ProviderDispatcherWaitCompletion × O)) × WaitState β L :=
  match oldestDue now s with
  | none => (.ok none, s)
  | some slot =>
    let done := completion slot.1 statusTimeout false
    match publish done with
    | .error error => (.error error, s)
    | .ok output => (.ok (some (done, output)), remove B slot s)

/-- The first parked wait that a predicate finds is removed. -/
def removeFirst (p : ProviderDispatcherWaitRecord L → Bool) (status : ℤ) (cancelled : Bool)
    (s : WaitState β L) : Option ProviderDispatcherWaitCompletion × WaitState β L :=
  match s.waiters.zipIdx.find? fun slot => p slot.1 with
  | none => (none, s)
  | some slot => (some (completion slot.1 status cancelled), remove B slot s)

/-- `cancel` -/
def cancel (waitId : ℕ) (status : ℤ) (s : WaitState β L) :
    Option ProviderDispatcherWaitCompletion × WaitState β L :=
  removeFirst B (fun waiter => decide (waiter.waitId = waitId)) status true s

/-- An alert interrupts every alertable wait, a user APC only those in user mode. -/
def isInterruptible (waitId : ℕ) (owner : ProviderWaitOwner) (interrupt : ProviderWaitInterrupt)
    (waiter : ProviderDispatcherWaitRecord L) : Bool :=
  decide (waiter.waitId = waitId) && decide (waiter.owner = owner) && waiter.alertable &&
    (decide (interrupt ≠ .userApc) || decide (waiter.waitMode = .user))

/-- `interrupt_alertable` -/
def interruptAlertable (waitId : ℕ) (owner : ProviderWaitOwner)
    (interrupt : ProviderWaitInterrupt) (s : WaitState β L) :
    Option ProviderDispatcherWaitCompletion × WaitState β L :=
  removeFirst B (isInterruptible waitId owner interrupt) interrupt.status false s

end Arbiter

/-! ## Calls -/

/-- A call of the arbiter, with continuations `C` and with outputs `O` and errors `P` of its
publications. -/
inductive WaitCall (C O P : Type)
  | admitOwned (request : ProviderWaitRequest) (expectedOwner : ProviderWaitOwner)
      (admissionSequence : ℕ) (origin now : TimeSnapshot) (capacity : Bool) (continuation : C)
      (publish : C → Except (P × C) O)
  | poll (request : ProviderWaitRequest) (expectedOwner : ProviderWaitOwner)
  | ready (publish : ProviderDispatcherWaitCompletion → Except P O)
  | eventReady (object : ProviderWaitObject) (expectedSequence : ℕ)
      (publish : ProviderDispatcherWaitCompletion → Except P O)
  | due (now : TimeSnapshot) (publish : ProviderDispatcherWaitCompletion → Except P O)
  | cancel (waitId : ℕ) (status : ℤ)
  | interrupt (waitId : ℕ) (owner : ProviderWaitOwner) (interrupt : ProviderWaitInterrupt)

/-- What a call returns. -/
inductive WaitReply (E C O P : Type)
  | admission (result : Except (ProviderDispatcherWaitPublicationError E P × C)
      (ProviderDispatcherWaitAdmission × O))
  | polled (result : Except (ProviderDispatcherWaitError E) ℤ)
  | popped (result : Except P (Option (ProviderDispatcherWaitCompletion × O)))
  | removed (result : Option ProviderDispatcherWaitCompletion)

/-- The call on the state. -/
def WaitCall.perform {β L E C O P : Type} (B : WaitBackend β L E) (s : WaitState β L) :
    WaitCall C O P → WaitReply E C O P × WaitState β L
  | admitOwned request owner sequence origin now capacity continuation publish =>
    (admitOwnedAt B request owner sequence origin now capacity continuation publish s).map
      .admission id
  | poll request owner => (ProviderWait.poll B request owner s).map .polled id
  | ready publish => (popReadyWith B publish s).map .popped id
  | eventReady object expectedSequence publish =>
    (popEventReadyWith B object expectedSequence publish s).map .popped id
  | due now publish => (popDueWith B now publish s).map .popped id
  | cancel waitId status => (ProviderWait.cancel B waitId status s).map .removed id
  | interrupt waitId owner kind =>
    (interruptAlertable B waitId owner kind s).map .removed id

end UserspaceNtos.ProviderWait
