import UserspaceNtos.Lib.Exclusion
import UserspaceNtos.Lib.Procedure
import Mathlib.Algebra.Group.Nat.Defs

/-!
# The hardware resource manager

The resource manager assigns memory ranges, port ranges and interrupt lines to the devices of
driver hosts.  Memory and ports are one kind of record with different access data
(`RangeResource`), and the functions on them that the source writes twice are written once
here, with the two instances under their own names.

Addresses, lengths and identifiers are `u64` in the source; a checked addition fails at
`2 ^ 64`.  A failed allocation is a parameter of the functions that allocate: `reserved` tells
whether the store could grow.  The functions are procedures: they leave a state behind also
where they fail.
-/

namespace UserspaceNtos.HardwareResources

/-- `ResourceOwner` -/
structure ResourceOwner where
  driverHostId : ℕ
  driverHostCookie : ℕ
  deviceObjectId : ℕ
  deriving DecidableEq, Repr

/-- `MemoryResourceDelegation` and `PortResourceDelegation`: the resource of a device may lie
inside the named resource of another owner. -/
structure ResourceDelegation where
  parentOwner : ResourceOwner
  parentResourceId : ℕ
  resourceId : ℕ
  deriving DecidableEq, Repr

/-- `HalError`, as far as the modelled calls return it. -/
inductive HalError
  | notAssigned
  | outOfRange
  | wrongOwner
  | revoked
  | staleId
  | alreadyConnected
  | accessDenied
  | invalidRange
  | conflictingAddress
  | insufficientResources
  deriving DecidableEq, Repr

/-! ## Resources -/

/-- The share dispositions `SHARE_EXCLUSIVE` and `SHARE_SHARED`. -/
def shareExclusive : ℕ := 0

/-- `SHARE_SHARED` -/
def shareShared : ℕ := 1

/-- A range of addresses, as the device sees it (raw) and as the platform does (translated). -/
structure RangeResource (α : Type) where
  resourceId : ℕ
  owner : ResourceOwner
  rawStart : ℕ
  translatedStart : ℕ
  length : ℕ
  access : α
  flags : ℕ
  share : ℕ
  revoked : Bool
  delegatedFrom : Option (ResourceOwner × ℕ)
  deriving DecidableEq, Repr

/-- What a memory grant has besides its range. -/
structure MemoryAccess where
  cache : ℕ
  rights : ℕ
  deriving DecidableEq, Repr

/-- `MemoryResource` -/
abbrev MemoryResource := RangeResource MemoryAccess

/-- `PortResource` -/
abbrev PortResource := RangeResource Unit

/-- `InterruptResource` -/
structure InterruptResource where
  resourceId : ℕ
  owner : ResourceOwner
  line : ℕ
  translatedVector : ℕ
  vector : ℕ
  irql : ℕ
  affinity : ℕ
  mode : ℕ
  flags : ℕ
  share : ℕ
  revoked : Bool
  deriving DecidableEq, Repr

/-- `Mapping`, a mapped part of a memory grant. -/
structure Mapping where
  mappingId : ℕ
  resourceId : ℕ
  owner : ResourceOwner
  translatedStart : ℕ
  length : ℕ
  valid : Bool
  deriving DecidableEq, Repr

/-- `InterruptConnectionRequest` -/
structure InterruptConnectionRequest where
  serviceRoutineToken : ℕ
  serviceContextToken : ℕ
  actualLockToken : ℕ
  vector : ℕ
  irql : ℕ
  synchronizeIrql : ℕ
  mode : ℕ
  share : ℕ
  affinity : ℕ
  floatingSave : Bool
  deriving DecidableEq, Repr

/-- A connection: the request that was granted, and what it was granted for. -/
structure Interrupt where
  interruptId : ℕ
  grantGeneration : ℕ
  resourceId : ℕ
  owner : ResourceOwner
  request : InterruptConnectionRequest
  connected : Bool
  deriving DecidableEq, Repr

/-- `HalResourceDescriptor`, one entry of an assignment. -/
structure HalResourceDescriptor where
  kind : ℕ
  flags : ℕ
  share : ℕ
  reserved0 : ℕ := 0
  resourceId : ℕ
  rawStart : ℕ
  translatedStart : ℕ
  length : ℕ
  arg0 : ℕ := 0
  arg1 : ℕ := 0
  deriving DecidableEq, Repr

/-- `RES_KIND_MEMORY` -/
def resKindMemory : ℕ := 1

/-- `RES_KIND_PORT` -/
def resKindPort : ℕ := 2

/-- `RES_KIND_INTERRUPT` -/
def resKindInterrupt : ℕ := 3

/-- The cache types `MM_NON_CACHED`, `MM_CACHED` and `MM_WRITE_COMBINED`. -/
def isCacheType (cache : ℕ) : Bool := decide (cache = 0 ∨ cache = 1 ∨ cache = 2)

/-- `RIGHT_READ` is there and nothing but `RIGHT_READ` and `RIGHT_WRITE`. -/
def rightsAllowed (rights : ℕ) : Bool := decide (rights = 1 ∨ rights = 3)

/-- Two numbers as the bits below and above the 32nd: `interrupt_args`. -/
def packArgs (low high : ℕ) : ℕ := low + high * 2 ^ 32

/-- The low 32 bits and the eight bits above them: `interrupt_fields`. -/
def unpackArgs (arg : ℕ) : ℕ × ℕ := (arg % 2 ^ 32, arg / 2 ^ 32 % 2 ^ 8)

/-- `ResourceManager`, with the tables the modelled calls read. -/
structure ResourceManager where
  memory : List MemoryResource := []
  ports : List PortResource := []
  interruptsRes : List InterruptResource := []
  mappings : List Mapping := []
  connected : List Interrupt := []
  nextMappingId : ℕ := 1
  nextInterruptId : ℕ := 1
  nextInterruptGeneration : ℕ := 1
  deriving DecidableEq, Repr

/-! ## Ranges -/

/-- The last address of a range. -/
def validateRange (start length : ℕ) : Except HalError ℕ :=
  if length = 0 then .error .invalidRange
  else if start + (length - 1) < 2 ^ 64 then .ok (start + (length - 1))
  else .error .invalidRange

/-- `ranges_overlap` -/
def rangesOverlap (firstStart firstLen secondStart secondLen : ℕ) : Bool :=
  if ¬ firstStart + (firstLen - 1) < 2 ^ 64 then true
  else if ¬ secondStart + (secondLen - 1) < 2 ^ 64 then true
  else decide (firstStart ≤ secondStart + (secondLen - 1)) &&
    decide (secondStart ≤ firstStart + (firstLen - 1))

/-- `range_contains_address` -/
def rangeContainsAddress (start length address : ℕ) : Bool :=
  decide (length ≠ 0 ∧ start ≤ address ∧ address - start < length)

/-- `range_contains_range` -/
def rangeContainsRange (outerStart outerLen innerStart innerLen : ℕ) : Bool :=
  decide (outerStart + outerLen < 2 ^ 64 ∧ innerStart + innerLen < 2 ^ 64 ∧ innerLen ≠ 0 ∧
    outerStart ≤ innerStart ∧ innerStart + innerLen ≤ outerStart + outerLen)

/-! ## Stores of ranges -/

namespace RangeResource

variable {α : Type}

/-- The grant has not been revoked. -/
def isLive (r : RangeResource α) : Bool := !r.revoked

/-- `revoke` on a grant. -/
def revoke (r : RangeResource α) : RangeResource α := { r with revoked := true }

/-- The record in use of an owner under an identifier. -/
def isNamed (owner : ResourceOwner) (resourceId : ℕ) (r : RangeResource α) : Bool :=
  r.isLive && decide (r.owner = owner) && decide (r.resourceId = resourceId)

/-- A record in use whose parent is not in use. -/
def isOrphan (store : List (RangeResource α)) (r : RangeResource α) : Bool :=
  match r.delegatedFrom with
  | none => false
  | some (parentOwner, parentResourceId) =>
    r.isLive && !store.any (isNamed parentOwner parentResourceId)

/-- One index of the loop that looks for orphans; the identifiers that were revoked are
collected. -/
def revokeOrphanAt (state : List (RangeResource α) × List ℕ) (index : ℕ) :
    List (RangeResource α) × List ℕ :=
  match state.1[index]? with
  | none => state
  | some r =>
    if isOrphan state.1 r then (state.1.set index r.revoke, state.2 ++ [r.resourceId])
    else state

/-- The loop over all indices. -/
def orphanPass (store : List (RangeResource α)) : List (RangeResource α) × List ℕ :=
  (List.range store.length).foldl revokeOrphanAt (store, [])

/-- The outer loop: passes until one changes nothing. -/
def revokeOrphansLoop : ℕ → List (RangeResource α) → List (RangeResource α) × List ℕ
  | 0, store => (store, [])
  | fuel + 1, store =>
    let pass := orphanPass store
    if pass.2 = [] then pass
    else
      let rest := revokeOrphansLoop fuel pass.1
      (rest.1, pass.2 ++ rest.2)

/-- Every pass but the last revokes a record, so there are no more passes than records and
one. -/
def revokeOrphanedDelegations (store : List (RangeResource α)) :
    List (RangeResource α) × List ℕ :=
  revokeOrphansLoop (store.length + 1) store

/-- The records of an owner go out of use. -/
def revokeOwned (owner : ResourceOwner) (store : List (RangeResource α)) :
    List (RangeResource α) :=
  store.map fun r => if r.owner = owner ∧ r.revoked = false then r.revoke else r

/-- The translated ranges overlap. -/
def overlaps (a b : RangeResource α) : Bool :=
  rangesOverlap a.translatedStart a.length b.translatedStart b.length

/-- One of two records wants the range for itself. -/
def wantsExclusive (a b : RangeResource α) : Bool :=
  decide (a.share = shareExclusive) || decide (b.share = shareExclusive)

/-- A candidate collides with a record in use of another owner that is not its parent, or
with an earlier candidate. -/
def conflicts (store batch : List (RangeResource α)) (candidate : RangeResource α) : Bool :=
  store.any (fun existing =>
    decide (existing.owner ≠ candidate.owner) && existing.isLive &&
      overlaps candidate existing && wantsExclusive candidate existing &&
      !decide (candidate.delegatedFrom = some (existing.owner, existing.resourceId))) ||
    batch.any fun existing => overlaps candidate existing && wantsExclusive candidate existing

/-- The parent that a delegation names for a descriptor; the descriptor's ranges must lie
inside the parent's. -/
def delegatedParent (store : List (RangeResource α)) (delegations : List ResourceDelegation)
    (d : HalResourceDescriptor) (accessAllowed : RangeResource α → Bool) :
    Except HalError (Option (ResourceOwner × ℕ)) :=
  match delegations.find? (fun delegation => decide (delegation.resourceId = d.resourceId)) with
  | none => .ok none
  | some delegation =>
    match store.find? (isNamed delegation.parentOwner delegation.parentResourceId) with
    | none => .error .notAssigned
    | some parent =>
      if !rangeContainsRange parent.rawStart parent.length d.rawStart d.length ∨
          !rangeContainsRange parent.translatedStart parent.length d.translatedStart
            d.length then .error .outOfRange
      else if !accessAllowed parent then .error .accessDenied
      else .ok (some (parent.owner, parent.resourceId))

/-- `memory_delegations_match` and `port_delegations_match`: what is assigned has exactly the
listed parents. -/
def delegationsMatch (store : List (RangeResource α)) (kind : ℕ) (owner : ResourceOwner)
    (assignments : List HalResourceDescriptor) (delegations : List ResourceDelegation) : Bool :=
  (assignments.filter fun a => decide (a.kind = kind)).all (fun assignment =>
      let expected := (delegations.find? fun d =>
        decide (d.resourceId = assignment.resourceId)).map fun d =>
          (d.parentOwner, d.parentResourceId)
      store.any fun r => isNamed owner assignment.resourceId r &&
        decide (r.delegatedFrom = expected)) &&
    delegations.all fun delegation => assignments.any fun assignment =>
      decide (assignment.kind = kind) && decide (assignment.resourceId = delegation.resourceId)

end RangeResource

/-- The delegations that are no delegations: to oneself, of nothing, or twice. -/
def someDelegationRejected (owner : ResourceOwner) (extra : ResourceDelegation → Bool) :
    List ResourceDelegation → List ResourceDelegation → Bool
  | _, [] => false
  | prior, d :: rest =>
    decide (d.parentOwner = owner) || decide (d.parentResourceId = 0) ||
      decide (d.resourceId = 0) || prior.any (fun p => decide (p.resourceId = d.resourceId)) ||
      extra d || someDelegationRejected owner extra (prior ++ [d]) rest

/-- The delegation names no resource of this kind in the assignment. -/
def delegatesUnassigned (kind : ℕ) (assignments : List HalResourceDescriptor)
    (d : ResourceDelegation) : Bool :=
  !assignments.any fun a => decide (a.kind = kind) && decide (a.resourceId = d.resourceId)

namespace ResourceManager

open RangeResource Procedure

/-! ## Revocation -/

/-- `revoke_memory_resource_usage` -/
def revokeMemoryResourceUsage (resourceId : ℕ) (mappings : List Mapping) : List Mapping :=
  mappings.map fun m => if m.resourceId = resourceId ∧ m.valid then { m with valid := false } else m

/-- `revoke_orphaned_memory_delegations` -/
def revokeOrphanedMemoryDelegations (rm : ResourceManager) : ℕ × ResourceManager :=
  let (memory, ids) := revokeOrphanedDelegations rm.memory
  (ids.length, { rm with
    memory, mappings := ids.foldl (fun ms id => revokeMemoryResourceUsage id ms) rm.mappings })

/-- `revoke_orphaned_port_delegations` -/
def revokeOrphanedPortDelegations (rm : ResourceManager) : ℕ × ResourceManager :=
  let (ports, ids) := revokeOrphanedDelegations rm.ports
  (ids.length, { rm with ports })

/-- How many of each kind `revokeOwner` took away. -/
structure RevokedCounts where
  memoryResources : ℕ
  portResources : ℕ
  interruptResources : ℕ
  mappings : ℕ
  interrupts : ℕ
  deriving DecidableEq, Repr

/-- `revoke_owner` -/
def revokeOwner (owner : ResourceOwner) (rm : ResourceManager) :
    RevokedCounts × ResourceManager :=
  let ownedMemory := rm.memory.countP fun m => decide (m.owner = owner) && m.isLive
  let (orphanedMemory, rm) :=
    revokeOrphanedMemoryDelegations { rm with memory := revokeOwned owner rm.memory }
  let ownedPorts := rm.ports.countP fun p => decide (p.owner = owner) && p.isLive
  let (orphanedPorts, rm) :=
    revokeOrphanedPortDelegations { rm with ports := revokeOwned owner rm.ports }
  ({ memoryResources := ownedMemory + orphanedMemory
     portResources := ownedPorts + orphanedPorts
     interruptResources := rm.interruptsRes.countP fun i =>
       decide (i.owner = owner) && !i.revoked
     mappings := rm.mappings.countP fun m => decide (m.owner = owner) && m.valid
     interrupts := rm.connected.countP fun c => decide (c.owner = owner) && c.connected },
   { rm with
     interruptsRes := rm.interruptsRes.map fun i =>
       if i.owner = owner ∧ i.revoked = false then { i with revoked := true } else i
     mappings := rm.mappings.map fun m =>
       if m.owner = owner ∧ m.valid then { m with valid := false } else m
     connected := rm.connected.map fun c =>
       if c.owner = owner ∧ c.connected then { c with connected := false } else c })

/-! ## Replacing the assignments of a device -/

/-- A live memory range as a descriptor. -/
def describeMemory (m : MemoryResource) : HalResourceDescriptor :=
  { kind := resKindMemory, flags := m.flags, share := m.share, resourceId := m.resourceId
    rawStart := m.rawStart, translatedStart := m.translatedStart, length := m.length
    arg0 := m.access.cache, arg1 := m.access.rights }

/-- The descriptor of a port grant in `query_resources`. -/
def describePort (p : PortResource) : HalResourceDescriptor :=
  { kind := resKindPort, flags := p.flags, share := p.share, resourceId := p.resourceId
    rawStart := p.rawStart, translatedStart := p.translatedStart, length := p.length, arg0 := 3 }

/-- The descriptor of an interrupt grant in `query_resources`. -/
def describeInterrupt (i : InterruptResource) : HalResourceDescriptor :=
  { kind := resKindInterrupt, flags := i.flags, share := i.share, resourceId := i.resourceId
    rawStart := i.line, translatedStart := i.translatedVector, length := 1
    arg0 := packArgs i.vector i.irql, arg1 := packArgs i.affinity i.mode }

/-- `query_resources` -/
def queryResources (rm : ResourceManager) (owner : ResourceOwner) : List HalResourceDescriptor :=
  (rm.memory.filter fun m => decide (m.owner = owner) && m.isLive).map describeMemory ++
    (rm.ports.filter fun p => decide (p.owner = owner) && p.isLive).map describePort ++
    (rm.interruptsRes.filter fun i => decide (i.owner = owner) && !i.revoked).map describeInterrupt

/-- `memory_delegations_match` -/
def memoryDelegationsMatch (rm : ResourceManager) (owner : ResourceOwner)
    (assignments : List HalResourceDescriptor) (delegations : List ResourceDelegation) : Bool :=
  !someDelegationRejected owner (fun _ => false) [] delegations &&
    delegationsMatch rm.memory resKindMemory owner assignments delegations

/-- `port_delegations_match` -/
def portDelegationsMatch (rm : ResourceManager) (owner : ResourceOwner)
    (assignments : List HalResourceDescriptor) (delegations : List ResourceDelegation) : Bool :=
  !someDelegationRejected owner (fun _ => false) [] delegations &&
    delegationsMatch rm.ports resKindPort owner assignments delegations

/-- `live_resource_id_owned_by_other` -/
def liveResourceIdOwnedByOther (rm : ResourceManager) (owner : ResourceOwner)
    (resourceId : ℕ) : Bool :=
  (rm.memory.any fun r => r.isLive && decide (r.resourceId = resourceId) &&
      decide (r.owner ≠ owner)) ||
    (rm.ports.any fun r => r.isLive && decide (r.resourceId = resourceId) &&
      decide (r.owner ≠ owner)) ||
    rm.interruptsRes.any fun r => !r.revoked && decide (r.resourceId = resourceId) &&
      decide (r.owner ≠ owner)

/-- The new assignments, collected before anything is changed. -/
structure Batch where
  memory : List MemoryResource := []
  ports : List PortResource := []
  interrupts : List InterruptResource := []

/-- The record that a descriptor asks for. -/
def candidateOf {α : Type} (owner : ResourceOwner) (d : HalResourceDescriptor) (access : α)
    (delegatedFrom : Option (ResourceOwner × ℕ)) : RangeResource α :=
  { resourceId := d.resourceId, owner, rawStart := d.rawStart
    translatedStart := d.translatedStart, length := d.length, access, flags := d.flags
    share := d.share, revoked := false, delegatedFrom }

/-- A memory descriptor of the new assignments. -/
def admitMemory (rm : ResourceManager) (owner : ResourceOwner)
    (delegations : List ResourceDelegation) (batch : Batch) (d : HalResourceDescriptor) :
    Except HalError Batch := do
  let _ ← validateRange d.rawStart d.length
  let _ ← validateRange d.translatedStart d.length
  if !isCacheType (d.arg0 % 2 ^ 32) ∨ !rightsAllowed d.arg1 then .error .accessDenied
  else
    let delegatedFrom ← delegatedParent rm.memory delegations d fun parent =>
      decide (d.arg0 % 2 ^ 32 = parent.access.cache) &&
        decide (d.arg1 &&& parent.access.rights = d.arg1)
    let candidate := candidateOf owner d ⟨d.arg0 % 2 ^ 32, d.arg1⟩ delegatedFrom
    if conflicts rm.memory batch.memory candidate then .error .conflictingAddress
    else .ok { batch with memory := batch.memory ++ [candidate] }

/-- A port descriptor of the new assignments. -/
def admitPort (rm : ResourceManager) (owner : ResourceOwner)
    (delegations : List ResourceDelegation) (batch : Batch) (d : HalResourceDescriptor) :
    Except HalError Batch := do
  let rawEnd ← validateRange d.rawStart d.length
  let translatedEnd ← validateRange d.translatedStart d.length
  if rawEnd > 0xFFFF ∨ translatedEnd > 0xFFFF then .error .invalidRange
  else
    let delegatedFrom ← delegatedParent rm.ports delegations d fun _ => true
    let candidate := candidateOf owner d () delegatedFrom
    if conflicts rm.ports batch.ports candidate then .error .conflictingAddress
    else .ok { batch with ports := batch.ports ++ [candidate] }

/-- Two interrupt records claim one line and one of them wants it for itself. -/
def sameLineConflict (candidate existing : InterruptResource) : Bool :=
  decide (existing.line = candidate.line) &&
    (decide (candidate.share = shareExclusive) || decide (existing.share = shareExclusive))

/-- An interrupt descriptor of the new assignments. -/
def admitInterrupt (rm : ResourceManager) (owner : ResourceOwner) (batch : Batch)
    (d : HalResourceDescriptor) : Except HalError Batch :=
  let (vector, irql) := unpackArgs d.arg0
  let (affinity, mode) := unpackArgs d.arg1
  if vector = 0 ∨ d.rawStart ≥ 2 ^ 32 ∨ d.translatedStart ≥ 2 ^ 32 ∨ d.translatedStart = 0 ∨
      d.translatedStart ≠ vector ∨ d.length ≠ 1 ∨ affinity = 0 ∨ ¬ (mode = 0 ∨ mode = 1) then
    .error .invalidRange
  else
    let candidate : InterruptResource :=
      { resourceId := d.resourceId, owner, line := d.rawStart
        translatedVector := d.translatedStart, vector, irql, affinity, mode, flags := d.flags
        share := d.share, revoked := false }
    if (rm.interruptsRes.any fun existing => decide (existing.owner ≠ owner) &&
        !existing.revoked && sameLineConflict candidate existing) ||
        batch.interrupts.any (sameLineConflict candidate) then .error .conflictingAddress
    else .ok { batch with interrupts := batch.interrupts ++ [candidate] }

/-- One round of the loop over the new assignments. -/
def admitDescriptor (rm : ResourceManager) (owner : ResourceOwner)
    (memoryDelegations portDelegations : List ResourceDelegation)
    (prior : List HalResourceDescriptor) (batch : Batch) (d : HalResourceDescriptor) :
    Except HalError Batch :=
  if d.resourceId = 0 ∨ prior.any (fun p => decide (p.resourceId = d.resourceId)) ∨
      rm.liveResourceIdOwnedByOther owner d.resourceId ∨
      ¬ (d.share = shareExclusive ∨ d.share = shareShared) then .error .conflictingAddress
  else if d.kind = resKindMemory then rm.admitMemory owner memoryDelegations batch d
  else if d.kind = resKindPort then rm.admitPort owner portDelegations batch d
  else if d.kind = resKindInterrupt then rm.admitInterrupt owner batch d
  else .error .invalidRange

/-- The loop over the new assignments; `prior` are those before the current one. -/
def admitAll (rm : ResourceManager) (owner : ResourceOwner)
    (memoryDelegations portDelegations : List ResourceDelegation) :
    List HalResourceDescriptor → Batch → List HalResourceDescriptor → Except HalError Batch
  | _, batch, [] => .ok batch
  | prior, batch, d :: rest => do
      let batch ← rm.admitDescriptor owner memoryDelegations portDelegations prior batch d
      rm.admitAll owner memoryDelegations portDelegations (prior ++ [d]) batch rest

/-- The new assignments take the places of the old ones with their identifiers. -/
def install (batch : Batch) (rm : ResourceManager) : ResourceManager :=
  { rm with
    memory := Exclusion.putAll RangeResource.resourceId batch.memory rm.memory
    ports := Exclusion.putAll RangeResource.resourceId batch.ports rm.ports
    interruptsRes :=
      Exclusion.putAll InterruptResource.resourceId batch.interrupts rm.interruptsRes }

/-- `replace_owner_assignments_with_delegations`.  The flags tell whether the room for the new
records, and for the store that takes them, could be had. -/
def replaceOwnerAssignmentsWithDelegations (owner : ResourceOwner)
    (assignments : List HalResourceDescriptor)
    (memoryDelegations portDelegations : List ResourceDelegation)
    (batchReserved storeReserved : Bool) : Procedure ResourceManager HalError Unit := do
  let rm ← read
  if rm.queryResources owner = assignments ∧
      rm.memoryDelegationsMatch owner assignments memoryDelegations ∧
      rm.portDelegationsMatch owner assignments portDelegations then pure ()
  else do
    failIf (someDelegationRejected owner (delegatesUnassigned resKindMemory assignments) []
      memoryDelegations) .conflictingAddress
    failIf (someDelegationRejected owner (delegatesUnassigned resKindPort assignments) []
      portDelegations) .conflictingAddress
    failIf (!batchReserved) .insufficientResources
    let batch ← lift (rm.admitAll owner memoryDelegations portDelegations [] {} assignments)
    failIf (!storeReserved) .insufficientResources
    update fun rm => (rm.revokeOwner owner).2
    update (install batch)

/-! ## Claims -/

/-- A platform owner's record: exclusive, and nobody's child. -/
def claimOf {α : Type} (owner : ResourceOwner) (resourceId rawStart translatedStart length : ℕ)
    (access : α) : RangeResource α :=
  { resourceId, owner, rawStart, translatedStart, length, access, flags := 0
    share := shareExclusive, revoked := false, delegatedFrom := none }

/-- The record goes to the place of an old one with its identifier; only a new place needs
room. -/
def store {α : Type} (resource : RangeResource α) (resources : List (RangeResource α))
    (reserved : Bool) : Except HalError (List (RangeResource α)) :=
  if !resources.any (fun r => decide (r.resourceId = resource.resourceId)) && !reserved then
    .error .insufficientResources
  else .ok (Exclusion.put RangeResource.resourceId resource resources)

/-- The record in use under an identifier, whosever it is. -/
def liveById {α : Type} (resources : List (RangeResource α)) (resourceId : ℕ) :
    Option (RangeResource α) :=
  resources.find? fun r => decide (r.resourceId = resourceId) && r.isLive

/-- That record goes out of use. -/
def revokeFirst {α : Type} (resourceId : ℕ) (resources : List (RangeResource α)) :
    List (RangeResource α) :=
  Exclusion.modifyFirst (fun r => decide (r.resourceId = resourceId) && r.isLive)
    RangeResource.revoke resources

/-- `claim_memory` -/
def claimMemory (owner : ResourceOwner)
    (resourceId physStart translatedStart length cache rights : ℕ) (reserved : Bool) :
    Procedure ResourceManager HalError Unit := do
  let _ ← lift (validateRange physStart length)
  let _ ← lift (validateRange translatedStart length)
  failIf (!isCacheType cache ∨ !rightsAllowed rights) .accessDenied
  let rm ← read
  match liveById rm.memory resourceId with
  | some existing =>
    if existing.owner = owner ∧ existing.rawStart = physStart ∧
        existing.translatedStart = translatedStart ∧ existing.length = length ∧
        existing.access.cache = cache ∧ existing.access.rights = rights ∧
        existing.delegatedFrom = none then pure ()
    else fail (if existing.owner ≠ owner then .wrongOwner else .conflictingAddress)
  | none => do
      failIf (rm.memory.any fun m => m.isLive &&
        rangesOverlap translatedStart length m.translatedStart m.length) .conflictingAddress
      let memory ← lift (store
        (claimOf owner resourceId physStart translatedStart length ⟨cache, rights⟩) rm.memory
        reserved)
      update fun rm => { rm with memory }

/-- `release_memory` -/
def releaseMemory (owner : ResourceOwner) (resourceId : ℕ) :
    Procedure ResourceManager HalError Unit := do
  let rm ← read
  let memory ← require (liveById rm.memory resourceId) .staleId
  failIf (memory.owner ≠ owner) .wrongOwner
  update fun rm => (revokeOrphanedMemoryDelegations
    { rm with memory := revokeFirst resourceId rm.memory }).2

/-- Unlike the claim of memory this compares the raw ranges of the ports in use. -/
def claimPort (owner : ResourceOwner) (resourceId start length : ℕ) (reserved : Bool) :
    Procedure ResourceManager HalError Unit := do
  let stop ← lift (validateRange start length)
  failIf (stop > 0xFFFF) .invalidRange
  let rm ← read
  match liveById rm.ports resourceId with
  | some existing =>
    if existing.owner = owner ∧ existing.rawStart = start ∧ existing.translatedStart = start ∧
        existing.length = length then pure ()
    else fail (if existing.owner ≠ owner then .wrongOwner else .conflictingAddress)
  | none => do
      failIf (rm.ports.any fun p => p.isLive &&
        (decide (¬ p.rawStart + (p.length - 1) < 2 ^ 64) ||
          (decide (start ≤ p.rawStart + (p.length - 1)) && decide (p.rawStart ≤ stop))))
        .conflictingAddress
      let ports ← lift (store (claimOf owner resourceId start start length ()) rm.ports reserved)
      update fun rm => { rm with ports }

/-- `release_port` -/
def releasePort (owner : ResourceOwner) (resourceId : ℕ) :
    Procedure ResourceManager HalError Unit := do
  let rm ← read
  let port ← require (liveById rm.ports resourceId) .staleId
  failIf (port.owner ≠ owner) .wrongOwner
  update fun rm => (revokeOrphanedPortDelegations
    { rm with ports := revokeFirst resourceId rm.ports }).2

/-! ## Mappings and interrupt connections -/

/-- What `map_io_space` returns. -/
structure Granted where
  mappingId : ℕ
  resourceId : ℕ
  translatedStart : ℕ
  length : ℕ
  rights : ℕ
  deriving DecidableEq, Repr

/-- `map_io_space` -/
def mapIoSpace (owner : ResourceOwner) (phys length : ℕ) (reserved : Bool) :
    Procedure ResourceManager HalError Granted := do
  let rm ← read
  let covers := fun m : MemoryResource => rangeContainsAddress m.translatedStart m.length phys
  let found := (rm.memory.find? fun m => m.isLive && decide (m.owner = owner) && covers m).or
    (rm.memory.find? fun m => m.isLive && covers m)
  let m ← require found (if rm.memory.any fun m => m.revoked && decide (m.owner = owner) &&
    covers m then .revoked else .notAssigned)
  failIf (m.owner ≠ owner) .wrongOwner
  let offset := phys - m.translatedStart
  failIf (length = 0 ∨ offset > m.length ∨ length > m.length - offset) .outOfRange
  failIf (m.access.rights &&& 1 = 0) .accessDenied
  failIf (!reserved) .insufficientResources
  failIf (¬ rm.nextMappingId + 1 < 2 ^ 64) .insufficientResources
  let granted : Granted :=
    { mappingId := rm.nextMappingId, resourceId := m.resourceId
      translatedStart := m.translatedStart + offset, length, rights := m.access.rights }
  update fun rm => { rm with
    nextMappingId := rm.nextMappingId + 1
    mappings := rm.mappings ++ [{ mappingId := granted.mappingId, resourceId := m.resourceId
                                  owner, translatedStart := granted.translatedStart, length
                                  valid := true }] }
  pure granted

/-- `unmap_io_space` -/
def unmapIoSpace (owner : ResourceOwner) (mappingId : ℕ) :
    Procedure ResourceManager HalError Unit := do
  let rm ← read
  let wanted := fun m : Mapping => decide (m.mappingId = mappingId) && m.valid
  let m ← require (rm.mappings.find? wanted) .staleId
  failIf (m.owner ≠ owner) .wrongOwner
  update fun rm => { rm with
    mappings := Exclusion.modifyFirst wanted (fun m => { m with valid := false }) rm.mappings }

/-- `connect_interrupt_exact` -/
def connectInterruptExact (owner : ResourceOwner) (resourceId : ℕ)
    (request : InterruptConnectionRequest) (reserved : Bool) :
    Procedure ResourceManager HalError Interrupt := do
  let rm ← read
  let res ← require
    (rm.interruptsRes.find? fun i => decide (i.resourceId = resourceId)) .notAssigned
  failIf res.revoked .revoked
  failIf (res.owner ≠ owner) .wrongOwner
  failIf (request.vector ≠ res.vector ∨ request.irql ≠ res.irql ∨
    request.synchronizeIrql < request.irql ∨ request.mode ≠ res.mode ∨
    request.share ≠ res.share ∨ request.affinity = 0 ∨
    request.affinity &&& res.affinity = 0) .invalidRange
  failIf (rm.connected.any fun c => decide (c.resourceId = resourceId) && c.connected)
    .alreadyConnected
  failIf (¬ rm.nextInterruptId + 1 < 2 ^ 64) .insufficientResources
  failIf (¬ rm.nextInterruptGeneration + 1 < 2 ^ 64) .insufficientResources
  failIf (!reserved) .insufficientResources
  let connection : Interrupt :=
    { interruptId := rm.nextInterruptId, grantGeneration := rm.nextInterruptGeneration, resourceId
      owner, request, connected := true }
  update fun rm => { rm with
    nextInterruptId := rm.nextInterruptId + 1
    nextInterruptGeneration := rm.nextInterruptGeneration + 1
    connected := rm.connected ++ [connection] }
  pure connection

/-- `disconnect_interrupt` -/
def disconnectInterrupt (owner : ResourceOwner) (interruptId grantGeneration : ℕ) :
    Procedure ResourceManager HalError Unit := do
  let rm ← read
  let wanted := fun c : Interrupt => decide (c.interruptId = interruptId) && c.connected
  let c ← require (rm.connected.find? wanted) .staleId
  failIf (c.owner ≠ owner) .wrongOwner
  failIf (c.grantGeneration ≠ grantGeneration) .staleId
  update fun rm => { rm with
    connected :=
      Exclusion.modifyFirst wanted (fun c => { c with connected := false }) rm.connected }

end ResourceManager

/-! ## Calls -/

/-- A call of the resource manager, with the outcome of its allocations. -/
inductive ResourceOp
  | replaceOwnerAssignmentsWithDelegations (owner : ResourceOwner)
      (assignments : List HalResourceDescriptor)
      (memoryDelegations portDelegations : List ResourceDelegation)
      (batchReserved storeReserved : Bool)
  | claimMemory (owner : ResourceOwner)
      (resourceId physStart translatedStart length cache rights : ℕ) (reserved : Bool)
  | releaseMemory (owner : ResourceOwner) (resourceId : ℕ)
  | claimPort (owner : ResourceOwner) (resourceId start length : ℕ) (reserved : Bool)
  | releasePort (owner : ResourceOwner) (resourceId : ℕ)
  | revokeOwner (owner : ResourceOwner)
  | mapIoSpace (owner : ResourceOwner) (phys length : ℕ) (reserved : Bool)
  | unmapIoSpace (owner : ResourceOwner) (mappingId : ℕ)
  | connectInterruptExact (owner : ResourceOwner) (resourceId : ℕ)
      (request : InterruptConnectionRequest) (reserved : Bool)
  | disconnectInterrupt (owner : ResourceOwner) (interruptId grantGeneration : ℕ)

namespace ResourceOp

open Procedure

/-- The call, without the value it returns. -/
def call : ResourceOp → Procedure ResourceManager HalError Unit
  | replaceOwnerAssignmentsWithDelegations owner assignments memory ports batch store =>
    ResourceManager.replaceOwnerAssignmentsWithDelegations owner assignments memory ports batch
      store
  | claimMemory owner id phys translated length cache rights reserved =>
    ResourceManager.claimMemory owner id phys translated length cache rights reserved
  | releaseMemory owner id => ResourceManager.releaseMemory owner id
  | claimPort owner id start length reserved =>
    ResourceManager.claimPort owner id start length reserved
  | releasePort owner id => ResourceManager.releasePort owner id
  | revokeOwner owner => update fun rm => (rm.revokeOwner owner).2
  | mapIoSpace owner phys length reserved => do
      let _ ← ResourceManager.mapIoSpace owner phys length reserved
      pure ()
  | unmapIoSpace owner id => ResourceManager.unmapIoSpace owner id
  | connectInterruptExact owner id request reserved => do
      let _ ← ResourceManager.connectInterruptExact owner id request reserved
      pure ()
  | disconnectInterrupt owner id generation =>
    ResourceManager.disconnectInterrupt owner id generation

/-- The state after a sequence of calls, whether they succeed or fail. -/
def run (rm : ResourceManager) (ops : List ResourceOp) : ResourceManager :=
  ops.foldl (fun rm op => (op.call rm).2) rm

end ResourceOp

end UserspaceNtos.HardwareResources
