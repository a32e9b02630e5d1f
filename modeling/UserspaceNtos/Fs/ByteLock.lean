import Mathlib.Data.List.Pairwise
import Mathlib.Data.List.Perm.Basic
import Mathlib.Data.Set.Basic
import Mathlib.Algebra.Group.Nat.Defs

/-!
# Byte-range locks

The lock table of one filesystem (`nt-fs`, `byte_lock.rs`): the active locks, the
queue of waiting requests in arrival order, and the completions that the I/O manager
has not taken yet.  Machine words are `UInt64`, whose arithmetic wraps as the
release build's does.  The result of the allocator enters each operation as the
flag `reserved`: it says whether the `try_reserve` calls of that operation succeed.

The table keeps two promises, both proved over arbitrary histories.

* **Exclusion.**  `Sound` says that no two active locks of one file that share a
  byte contradict each other.  A grant checks the newcomer against every active
  lock (`Sound.grant`), and `rangesOverlap` computes the intersection of two admitted
  ranges exactly, although the expression for the last byte wraps on the way
  (`rangesOverlap_iff`).
* **Exactly once.**  `History` adds to the table what its client has seen: the
  requests answered `Pending` and the completions taken.  No step loses or invents
  an entry, so the former are a rearrangement of the queue, the completions still in
  the table and the latter (`Settled`).
-/

namespace UserspaceNtos.Fs.ByteLock

open List

/-! ## Requests and their ranges -/

/-- The status codes of `status.rs` that the table answers with. -/
inductive Status
  | success
  | invalidParameter
  | fileLockConflict
  | lockNotGranted
  | rangeNotLocked
  | insufficientResources
  | cancelled
  deriving DecidableEq, Repr

/-- `ByteRangeLockOwner` -/
structure ByteRangeLockOwner where
  fileObject : UInt64
  processId : UInt64
  key : UInt32
  deriving DecidableEq, Repr

/-- `ByteRangeLockOwner::is_valid` -/
def ByteRangeLockOwner.isValid (owner : ByteRangeLockOwner) : Bool :=
  owner.fileObject != 0 && owner.processId != 0

/-- `ByteRangeLockRequest` -/
structure ByteRangeLockRequest where
  fileId : UInt64
  owner : ByteRangeLockOwner
  byteOffset : UInt64
  length : UInt64
  exclusive : Bool
  deriving DecidableEq, Repr

variable {left right request : ByteRangeLockRequest} {x : ℕ}

namespace ByteRangeLockRequest

/-- `ByteRangeLockRequest::is_valid`: the last byte of the range has an offset. -/
def isValid (request : ByteRangeLockRequest) : Bool :=
  request.fileId != 0 && request.owner.isValid &&
    (request.length == 0 ||
      decide (request.byteOffset.toNat + (request.length - 1).toNat < 2 ^ 64))

/-- The byte offsets a request is about. -/
def offsets (request : ByteRangeLockRequest) : Set ℕ :=
  { x | request.byteOffset.toNat ≤ x ∧ x < request.byteOffset.toNat + request.length.toNat }

/-- Two requests for one file have a byte in common. -/
def Intersects (left right : ByteRangeLockRequest) : Prop :=
  left.fileId = right.fileId ∧ (left.offsets ∩ right.offsets).Nonempty

/-- Two locks that may be held on a common byte: both shared, or of one owner and not
both exclusive. -/
def Compatible (left right : ByteRangeLockRequest) : Prop :=
  (left.exclusive = false ∧ right.exclusive = false) ∨
    (left.owner = right.owner ∧ ¬ (left.exclusive = true ∧ right.exclusive = true))

theorem Intersects.symm (h : left.Intersects right) : right.Intersects left :=
  ⟨h.1.symm, Set.inter_comm left.offsets right.offsets ▸ h.2⟩

theorem Compatible.symm (h : left.Compatible right) : right.Compatible left := by
  rcases h with ⟨hl, hr⟩ | ⟨howner, hex⟩
  · exact Or.inl ⟨hr, hl⟩
  · exact Or.inr ⟨howner.symm, fun hboth => hex ⟨hboth.2, hboth.1⟩⟩

end ByteRangeLockRequest

open ByteRangeLockRequest

/-- `ranges_overlap`; the ends are computed modulo `2 ^ 64`. -/
def rangesOverlap (left right : ByteRangeLockRequest) : Bool :=
  if left.fileId ≠ right.fileId ∨ left.length = 0 ∨ right.length = 0 then false
  else
    let leftEnd := left.byteOffset + left.length - 1
    let rightEnd := right.byteOffset + right.length - 1
    decide (left.byteOffset ≤ rightEnd) && decide (right.byteOffset ≤ leftEnd)

/-- `blocks`: an exclusive candidate is blocked by anything in its range, a shared one by
the exclusive requests of others. -/
def blocks (existing candidate : ByteRangeLockRequest) : Bool :=
  rangesOverlap existing candidate &&
    if candidate.exclusive then true
    else existing.exclusive && decide (existing.owner ≠ candidate.owner)

theorem offsets_eq_empty (h : request.length = 0) : request.offsets = ∅ := by
  ext x
  simp only [offsets, Set.mem_ofPred_eq, Set.mem_empty_iff_false, iff_false, not_and, not_lt, h]
  intro hx
  exact hx

theorem length_ne_zero_of_mem (hx : x ∈ request.offsets) : request.length ≠ 0 := by
  intro hzero
  rw [offsets_eq_empty hzero] at hx
  exact hx

theorem toNat_length_sub_one {length : UInt64} (h : length ≠ 0) :
    (length - 1).toNat = length.toNat - 1 := by
  have hpos : length.toNat ≠ 0 := fun hzero => h (UInt64.toNat_inj.mp hzero)
  have hone : (1 : UInt64).toNat = 1 := rfl
  rw [UInt64.toNat_sub_of_le _ _ (UInt64.le_iff_toNat_le.mpr (by omega)), hone]

/-- The end of an admitted range is its last offset: when `byteOffset + length` wraps to
zero, the subtraction wraps back. -/
theorem toNat_end (hvalid : request.isValid = true) (hlength : request.length ≠ 0) :
    (request.byteOffset + request.length - 1).toNat =
      request.byteOffset.toNat + request.length.toNat - 1 := by
  have hpos : request.length.toNat ≠ 0 := fun hzero => hlength (UInt64.toNat_inj.mp hzero)
  have hbound : request.byteOffset.toNat + (request.length - 1).toNat < 2 ^ 64 := by
    simpa [hlength] using (Bool.and_eq_true_iff.mp hvalid).2
  have hone : (1 : UInt64).toNat = 1 := rfl
  rw [toNat_length_sub_one hlength] at hbound
  rw [UInt64.toNat_sub, UInt64.toNat_add]
  omega

theorem lt_of_mem_offsets (hvalid : request.isValid = true)
    (hx : x ∈ request.offsets) : x < 2 ^ 64 := by
  have hlength : request.length ≠ 0 := length_ne_zero_of_mem hx
  have hend := (request.byteOffset + request.length - 1).toNat_lt
  rw [toNat_end hvalid hlength] at hend
  simp only [offsets, Set.mem_ofPred_eq] at hx
  omega

/-- On admitted requests the overlap test computes intersection. -/
theorem rangesOverlap_iff (hleft : left.isValid = true) (hright : right.isValid = true) :
    rangesOverlap left right = true ↔ left.Intersects right := by
  unfold rangesOverlap Intersects
  by_cases hl : left.length = 0
  · simp [hl, offsets_eq_empty hl]
  by_cases hr : right.length = 0
  · simp [hr, offsets_eq_empty hr]
  by_cases hfile : left.fileId = right.fileId
  · have hlpos : left.length.toNat ≠ 0 := fun hzero => hl (UInt64.toNat_inj.mp hzero)
    have hrpos : right.length.toNat ≠ 0 := fun hzero => hr (UInt64.toNat_inj.mp hzero)
    simp only [hfile, hl, hr, ne_eq, not_true_eq_false, or_self, if_false, Bool.and_eq_true,
      decide_eq_true_eq, UInt64.le_iff_toNat_le, toNat_end hleft hl, toNat_end hright hr,
      true_and]
    constructor
    · intro hends
      refine ⟨max left.byteOffset.toNat right.byteOffset.toNat, ?_, ?_⟩ <;>
        simp only [offsets, Set.mem_ofPred_eq] <;> omega
    · rintro ⟨x, hxl, hxr⟩
      simp only [offsets, Set.mem_ofPred_eq] at hxl hxr
      omega
  · simp [hfile]

/-- A candidate that an admitted request does not block can be held together with it. -/
theorem compatible_of_not_blocks {existing candidate : ByteRangeLockRequest}
    (hexisting : existing.isValid = true) (hcandidate : candidate.isValid = true)
    (hfree : blocks existing candidate = false) (hmeet : existing.Intersects candidate) :
    existing.Compatible candidate := by
  have hoverlap := (rangesOverlap_iff hexisting hcandidate).mpr hmeet
  rw [blocks, hoverlap] at hfree
  cases hce : candidate.exclusive with
  | true => simp [hce] at hfree
  | false =>
    cases hee : existing.exclusive with
    | false => exact Or.inl ⟨hee, hce⟩
    | true =>
      refine Or.inr ⟨?_, fun hboth => Bool.noConfusion (hce.symm.trans hboth.2)⟩
      simpa [hce, hee] using hfree

/-! ## The table -/

/-- `WaitingLock`; a `ByteRangeWaitId` is its raw number. -/
structure WaitingLock (C : Type) where
  id : UInt64
  request : ByteRangeLockRequest
  context : C
  deriving DecidableEq, Repr

/-- `ByteRangeLockCompletion` -/
structure ByteRangeLockCompletion (C : Type) where
  waitId : UInt64
  context : C
  status : Status
  deriving DecidableEq, Repr

/-- `ByteRangeLockResult` -/
inductive ByteRangeLockResult
  | granted
  | pending (id : UInt64)
  | failed (status : Status)
  deriving DecidableEq, Repr

/-- `ByteRangeLockTable` -/
structure ByteRangeLockTable (C : Type) where
  active : List ByteRangeLockRequest
  waiting : List (WaitingLock C)
  completed : List (ByteRangeLockCompletion C)
  nextWaitId : UInt64
  deriving DecidableEq, Repr

variable {C : Type}

/-- The completion of a waiting request. -/
def WaitingLock.complete (waiter : WaitingLock C) (status : Status) : ByteRangeLockCompletion C :=
  ⟨waiter.id, waiter.context, status⟩

namespace ByteRangeLockTable

/-- `ByteRangeLockTable::new` -/
def new : ByteRangeLockTable C := ⟨[], [], [], 1⟩

/-- `blocked_by_active` -/
def blockedByActive (table : ByteRangeLockTable C) (request : ByteRangeLockRequest) : Bool :=
  table.active.any fun active => blocks active request

/-- `blocked_by_waiter` -/
def blockedByWaiter (table : ByteRangeLockTable C) (request : ByteRangeLockRequest) : Bool :=
  table.waiting.any fun waiter => blocks waiter.request request

/-- `lock` -/
def lock (table : ByteRangeLockTable C) (request : ByteRangeLockRequest) (failImmediately : Bool)
    (context : C) (reserved : Bool) : ByteRangeLockTable C × ByteRangeLockResult :=
  if !request.isValid then (table, .failed .invalidParameter)
  else if !table.blockedByActive request && !table.blockedByWaiter request then
    if !reserved then (table, .failed .insufficientResources)
    else ({ table with active := table.active ++ [request] }, .granted)
  else if failImmediately then (table, .failed .lockNotGranted)
  else if !reserved then (table, .failed .insufficientResources)
  else
    -- `allocate_wait_id`
    let id := max table.nextWaitId 1
    ({ table with
        waiting := table.waiting ++ [⟨id, request, context⟩]
        nextWaitId := max (table.nextWaitId + 1) 1 }, .pending id)

/-- The loop of `reconsider_waiters`: `kept` is the part of the queue before the index, the
last argument the part from the index on. -/
def reconsiderLoop (kept : List (WaitingLock C)) (active : List ByteRangeLockRequest)
    (completed : List (ByteRangeLockCompletion C)) :
    List (WaitingLock C) →
      List (WaitingLock C) × List ByteRangeLockRequest × List (ByteRangeLockCompletion C)
  | [] => (kept, active, completed)
  | waiter :: rest =>
    if (active.any fun lock => blocks lock waiter.request) ||
        kept.any fun earlier => blocks earlier.request waiter.request then
      reconsiderLoop (kept ++ [waiter]) active completed rest
    else
      reconsiderLoop kept (active ++ [waiter.request])
        (completed ++ [waiter.complete .success]) rest

/-- `reconsider_waiters` -/
def reconsiderWaiters (table : ByteRangeLockTable C) : ByteRangeLockTable C :=
  let (waiting, active, completed) :=
    reconsiderLoop [] table.active table.completed table.waiting
  { table with waiting, active, completed }

/-- The comparison of `unlock_single`, which does not look at `exclusive`. -/
def isLock (request active : ByteRangeLockRequest) : Bool :=
  decide (active.fileId = request.fileId) && decide (active.owner = request.owner) &&
    decide (active.byteOffset = request.byteOffset) && decide (active.length = request.length)

/-- `unlock_single`; the first matching lock is removed. -/
def unlockSingle (table : ByteRangeLockTable C) (request : ByteRangeLockRequest)
    (reserved : Bool) : ByteRangeLockTable C × Status :=
  if !request.isValid then (table, .invalidParameter)
  else if !table.active.any (isLock request) then (table, .rangeNotLocked)
  else if !reserved then (table, .insufficientResources)
  else
    (reconsiderWaiters { table with active := table.active.eraseP (isLock request) }, .success)

/-- The comparison of `cancel_wait`. -/
def isWaiter (waitId : UInt64) (waiter : WaitingLock C) : Bool := decide (waiter.id = waitId)

/-- `cancel_wait`; the first waiter with the identifier is removed, and the queue is not
reconsidered. -/
def cancelWait (table : ByteRangeLockTable C) (waitId : UInt64) (reserved : Bool) :
    ByteRangeLockTable C × Bool :=
  match table.waiting.find? (isWaiter waitId) with
  | none => (table, false)
  | some waiter =>
    if !reserved then (table, false)
    else
      ({ table with
          waiting := table.waiting.eraseP (isWaiter waitId)
          completed := table.completed ++ [waiter.complete .cancelled] }, true)

/-- The cancelling loop of `cancel_waits_for` and `cleanup_file_object_all`: the waiters of
the given owners leave the queue for the completions, in order. -/
def cancelOwners (table : ByteRangeLockTable C) (owned : ByteRangeLockOwner → Bool) :
    ByteRangeLockTable C :=
  { table with
    waiting := table.waiting.filter fun waiter => !owned waiter.request.owner
    completed := table.completed ++
      (table.waiting.filter fun waiter => owned waiter.request.owner).map
        fun waiter => waiter.complete .cancelled }

/-- The owners that a file object and a process stand for. -/
def ofProcess (fileObject processId : UInt64) (owner : ByteRangeLockOwner) : Bool :=
  decide (owner.fileObject = fileObject) && decide (owner.processId = processId)

/-- The owners that a file object stands for. -/
def ofFileObject (fileObject : UInt64) (owner : ByteRangeLockOwner) : Bool :=
  decide (owner.fileObject = fileObject)

/-- `cancel_waits_for`, which does not reconsider the queue either. -/
def cancelWaitsFor (table : ByteRangeLockTable C) (fileObject processId : UInt64)
    (reserved : Bool) : ByteRangeLockTable C × Status :=
  if !reserved then (table, .insufficientResources)
  else (table.cancelOwners (ofProcess fileObject processId), .success)

/-- The end of both cleanups: the waiters and locks of the given owners go, and the queue
is reconsidered. -/
def dropOwners (table : ByteRangeLockTable C) (owned : ByteRangeLockOwner → Bool) :
    ByteRangeLockTable C :=
  let table := table.cancelOwners owned
  reconsiderWaiters { table with active := table.active.filter fun lock => !owned lock.owner }

/-- `cleanup_file_object`; after its reservation the inner `cancel_waits_for` cannot fail. -/
def cleanupFileObject (table : ByteRangeLockTable C) (fileObject processId : UInt64)
    (reserved : Bool) : ByteRangeLockTable C × Status :=
  if fileObject = 0 ∨ processId = 0 then (table, .invalidParameter)
  else if !reserved then (table, .insufficientResources)
  else (table.dropOwners (ofProcess fileObject processId), .success)

/-- `cleanup_file_object_all` -/
def cleanupFileObjectAll (table : ByteRangeLockTable C) (fileObject : UInt64) (reserved : Bool) :
    ByteRangeLockTable C × Status :=
  if fileObject = 0 then (table, .invalidParameter)
  else if !reserved then (table, .insufficientResources)
  else (table.dropOwners (ofFileObject fileObject), .success)

/-- `pop_completion` -/
def popCompletion (table : ByteRangeLockTable C) :
    ByteRangeLockTable C × Option (ByteRangeLockCompletion C) :=
  ({ table with completed := table.completed.dropLast }, table.completed.getLast?)

/-- `access_allowed` -/
def accessAllowed (table : ByteRangeLockTable C) (fileId : UInt64) (owner : ByteRangeLockOwner)
    (byteOffset length : UInt64) (write : Bool) : Bool :=
  let access : ByteRangeLockRequest := ⟨fileId, owner, byteOffset, length, write⟩
  if !access.isValid || decide (length = 0) then access.isValid
  else if !write then
    table.active.all fun lock =>
      !rangesOverlap lock access || !lock.exclusive || decide (lock.owner = owner)
  else
    let accessEnd := byteOffset + length - 1
    if table.active.any fun lock =>
        decide (lock.fileId = fileId) && lock.exclusive && decide (lock.owner = owner) &&
          decide (lock.length ≠ 0) && decide (lock.byteOffset ≤ byteOffset) &&
          decide (lock.byteOffset + lock.length - 1 ≥ accessEnd) then true
    else table.active.all fun lock => !rangesOverlap lock access

/-- `check_read` -/
def checkRead (table : ByteRangeLockTable C) (fileId : UInt64) (owner : ByteRangeLockOwner)
    (byteOffset length : UInt64) : Status :=
  if table.accessAllowed fileId owner byteOffset length false then .success else .fileLockConflict

/-- `check_write` -/
def checkWrite (table : ByteRangeLockTable C) (fileId : UInt64) (owner : ByteRangeLockOwner)
    (byteOffset length : UInt64) : Status :=
  if table.accessAllowed fileId owner byteOffset length true then .success else .fileLockConflict

end ByteRangeLockTable

open ByteRangeLockTable

variable {table table' : ByteRangeLockTable C}

/-! ## Histories -/

/-- A call on the table.  The last flag is what the allocator answers. -/
inductive LockOp (C : Type)
  | lock (request : ByteRangeLockRequest) (failImmediately : Bool) (context : C) (reserved : Bool)
  | unlockSingle (request : ByteRangeLockRequest) (reserved : Bool)
  | cancelWait (waitId : UInt64) (reserved : Bool)
  | cancelWaitsFor (fileObject processId : UInt64) (reserved : Bool)
  | cleanupFileObject (fileObject processId : UInt64) (reserved : Bool)
  | cleanupFileObjectAll (fileObject : UInt64) (reserved : Bool)
  | popCompletion

/-- The table together with what its client has been told: the waits announced by
`Pending`, in order, and the completions taken. -/
structure History (C : Type) where
  table : ByteRangeLockTable C
  announced : List (UInt64 × C)
  delivered : List (ByteRangeLockCompletion C)

namespace History

/-- Nothing has happened. -/
def start : History C := ⟨.new, [], []⟩

/-- One call. -/
def step (s : History C) : LockOp C → History C
  | .lock request failImmediately context reserved =>
    let (table, result) := s.table.lock request failImmediately context reserved
    match result with
    | .pending id => ⟨table, s.announced ++ [(id, context)], s.delivered⟩
    | _ => ⟨table, s.announced, s.delivered⟩
  | .unlockSingle request reserved =>
    { s with table := (s.table.unlockSingle request reserved).1 }
  | .cancelWait waitId reserved => { s with table := (s.table.cancelWait waitId reserved).1 }
  | .cancelWaitsFor fileObject processId reserved =>
    { s with table := (s.table.cancelWaitsFor fileObject processId reserved).1 }
  | .cleanupFileObject fileObject processId reserved =>
    { s with table := (s.table.cleanupFileObject fileObject processId reserved).1 }
  | .cleanupFileObjectAll fileObject reserved =>
    { s with table := (s.table.cleanupFileObjectAll fileObject reserved).1 }
  | .popCompletion =>
    let (table, completion) := s.table.popCompletion
    { s with table, delivered := s.delivered ++ completion.toList }

/-- A sequence of calls. -/
def run (s : History C) (ops : List (LockOp C)) : History C := ops.foldl step s

end History

/-! ## What a call can do

Every call is a sequence of the following moves, and each of the two promises is
checked against the moves once. -/

/-- The smallest changes of a history. -/
inductive Move : History C → History C → Prop
  /-- An unblocked newcomer becomes active. -/
  | grant (s : History C) (request : ByteRangeLockRequest) (hvalid : request.isValid = true)
      (hfree : ∀ active ∈ s.table.active, blocks active request = false) :
      Move s { s with table := { s.table with active := s.table.active ++ [request] } }
  /-- A newcomer is queued and its client told so. -/
  | announce (s : History C) (id next : UInt64) (request : ByteRangeLockRequest) (context : C)
      (hvalid : request.isValid = true) :
      Move s ⟨{ s.table with
                  waiting := s.table.waiting ++ [⟨id, request, context⟩]
                  nextWaitId := next }, s.announced ++ [(id, context)], s.delivered⟩
  /-- Locks are given up. -/
  | release (s : History C) (active : List ByteRangeLockRequest)
      (hsub : active.Sublist s.table.active) :
      Move s { s with table := { s.table with active } }
  /-- A waiter leaves the queue without the lock. -/
  | cancel (s : History C) (before after : List (WaitingLock C)) (waiter : WaitingLock C)
      (hqueue : s.table.waiting = before ++ waiter :: after) :
      Move s { s with table := { s.table with
                                  waiting := before ++ after
                                  completed := s.table.completed ++
                                    [waiter.complete .cancelled] } }
  /-- An unblocked waiter leaves the queue with the lock. -/
  | serve (s : History C) (before after : List (WaitingLock C)) (waiter : WaitingLock C)
      (hqueue : s.table.waiting = before ++ waiter :: after)
      (hfree : ∀ active ∈ s.table.active, blocks active waiter.request = false) :
      Move s { s with table := { s.table with
                                  waiting := before ++ after
                                  active := s.table.active ++ [waiter.request]
                                  completed := s.table.completed ++
                                    [waiter.complete .success] } }
  /-- The client takes a completion. -/
  | deliver (s : History C) (rest : List (ByteRangeLockCompletion C))
      (completion : ByteRangeLockCompletion C) (hlast : s.table.completed = rest ++ [completion]) :
      Move s ⟨{ s.table with completed := rest }, s.announced, s.delivered ++ [completion]⟩

/-- Any number of moves. -/
abbrev Moves : History C → History C → Prop := Relation.ReflTransGen Move

section

variable (s : History C)

theorem moves_reconsiderLoop (kept rest : List (WaitingLock C))
    (hqueue : s.table.waiting = kept ++ rest) : Moves s { s with table := { s.table with
      waiting := (reconsiderLoop kept s.table.active s.table.completed rest).1
      active := (reconsiderLoop kept s.table.active s.table.completed rest).2.1
      completed := (reconsiderLoop kept s.table.active s.table.completed rest).2.2 } } := by
  induction rest generalizing s kept with
  | nil =>
    rw [append_nil] at hqueue
    simp only [← hqueue]
    exact .refl
  | cons waiter rest ih =>
    rw [reconsiderLoop]
    split
    case isTrue hblocked =>
      exact ih s (kept ++ [waiter]) (by rw [hqueue, append_assoc, singleton_append])
    case isFalse hfree =>
      have hactive : ∀ active ∈ s.table.active, blocks active waiter.request = false := by
        intro active hmem
        have hnone := (Bool.or_eq_false_iff.mp (Bool.eq_false_iff.mpr hfree)).1
        exact Bool.eq_false_iff.mpr (any_eq_false.mp hnone active hmem)
      exact (ih _ kept rfl).head (Move.serve s kept rest waiter hqueue hactive)

theorem moves_reconsiderWaiters : Moves s { s with table := reconsiderWaiters s.table } :=
  moves_reconsiderLoop s [] s.table.waiting rfl

theorem moves_cancelFilter (owned : ByteRangeLockOwner → Bool) (kept rest : List (WaitingLock C))
    (hqueue : s.table.waiting = kept ++ rest) : Moves s { s with table := { s.table with
      waiting := kept ++ rest.filter fun waiter => !owned waiter.request.owner
      completed := s.table.completed ++ (rest.filter fun waiter => owned waiter.request.owner).map
          fun waiter => waiter.complete .cancelled } } := by
  induction rest generalizing s kept with
  | nil =>
    simp only [filter_nil, map_nil, append_nil, ← hqueue]
    exact .refl
  | cons waiter rest ih =>
    cases howned : owned waiter.request.owner with
    | true =>
      have hrest := ih { s with table := { s.table with
        waiting := kept ++ rest
        completed := s.table.completed ++ [waiter.complete .cancelled] } } kept rfl
      refine .head (Move.cancel s kept rest waiter hqueue) ?_
      simpa [howned] using hrest
    | false =>
      have hrest := ih s (kept ++ [waiter]) (by simpa using hqueue)
      simpa [howned] using hrest

theorem moves_cancelOwners (owned : ByteRangeLockOwner → Bool) :
    Moves s { s with table := s.table.cancelOwners owned } :=
  moves_cancelFilter s owned [] s.table.waiting rfl

theorem moves_dropOwners (owned : ByteRangeLockOwner → Bool) :
    Moves s { s with table := s.table.dropOwners owned } := by
  have hrelease := Move.release { s with table := s.table.cancelOwners owned }
    ((s.table.cancelOwners owned).active.filter fun lock => !owned lock.owner)
    filter_sublist
  exact ((moves_cancelOwners s owned).tail hrelease).trans (moves_reconsiderWaiters _)

open History

theorem moves_lock (request : ByteRangeLockRequest) (failImmediately : Bool) (context : C)
    (reserved : Bool) : Moves s (s.step (.lock request failImmediately context reserved)) := by
  simp only [step, lock]
  split_ifs with hinvalid hfree
  · exact .refl
  · exact .refl
  · have hnone := (Bool.and_eq_true_iff.mp hfree).1
    exact .single (Move.grant s request (by simpa using hinvalid)
      (by simpa [blockedByActive] using hnone))
  · exact .refl
  · exact .refl
  · exact .single (Move.announce s _ _ request context (by simpa using hinvalid))

theorem moves_cancelWait (waitId : UInt64) (reserved : Bool) :
    Moves s { s with table := (s.table.cancelWait waitId reserved).1 } := by
  rw [cancelWait]
  split
  case h_1 => exact .refl
  case h_2 waiter hfind =>
    split
    case isTrue => exact .refl
    case isFalse =>
      obtain ⟨hid, before, after, hqueue, hbefore⟩ := List.find?_eq_some_iff_append.mp hfind
      have herase : s.table.waiting.eraseP (isWaiter waitId) = before ++ after := by
        rw [hqueue, eraseP_append_right _ (by simpa using hbefore), eraseP_cons_of_pos hid]
      rw [herase]
      exact .single (Move.cancel s before after waiter hqueue)

/-- Every call consists of moves. -/
theorem History.moves_step (op : LockOp C) : Moves s (s.step op) := by
  cases op with
  | lock request failImmediately context reserved =>
    exact moves_lock s request failImmediately context reserved
  | unlockSingle request reserved =>
    simp only [step, unlockSingle]
    split_ifs
    · exact .refl
    · exact .refl
    · exact .refl
    · exact (moves_reconsiderWaiters _).head (Move.release s _ eraseP_sublist)
  | cancelWait waitId reserved => exact moves_cancelWait s waitId reserved
  | cancelWaitsFor fileObject processId reserved =>
    simp only [step, cancelWaitsFor]
    split_ifs
    · exact .refl
    · exact moves_cancelOwners s _
  | cleanupFileObject | cleanupFileObjectAll =>
    simp only [step, cleanupFileObject, cleanupFileObjectAll]
    split_ifs
    · exact .refl
    · exact .refl
    · exact moves_dropOwners s _
  | popCompletion =>
    obtain ⟨⟨active, waiting, completed, next⟩, announced, delivered⟩ := s
    rcases eq_nil_or_concat completed with rfl | ⟨rest, completion, rfl⟩
    · simp only [step, popCompletion, List.getLast?_nil, Option.toList_none, append_nil]
      exact .refl
    · simp only [step, popCompletion, concat_eq_append, dropLast_concat,
        List.getLast?_concat]
      exact .single (Move.deliver _ rest completion rfl)

end

/-- What holds at the start and survives every move holds after every sequence of calls. -/
theorem History.run_induction {P : History C → Prop} (hstart : P .start)
    (hmove : ∀ s t, Move s t → P s → P t) (ops : List (LockOp C)) : P (start.run ops) := by
  have hmoves : ∀ s t, Moves s t → P s → P t := by
    intro s t hst hs
    induction hst with
    | refl => exact hs
    | tail _ hlast ih => exact hmove _ _ hlast ih
  have hrun : ∀ s : History C, P s → P (s.run ops) := by
    induction ops with
    | nil => exact fun s hs => hs
    | cons op ops ih => exact fun s hs => ih (s.step op) (hmoves _ _ (s.moves_step op) hs)
  exact hrun _ hstart

/-! ## Exclusion -/

/-- Every request in the table was admitted, and no two active locks contradict each
other on a common byte. -/
structure Sound (table : ByteRangeLockTable C) : Prop where
  active_valid : ∀ lock ∈ table.active, lock.isValid = true
  waiting_valid : ∀ waiter ∈ table.waiting, waiter.request.isValid = true
  compatible : table.active.Pairwise fun left right =>
    left.Intersects right → left.Compatible right

/-- An unblocked lock may join the active ones. -/
theorem pairwise_compatible_concat {active : List ByteRangeLockRequest}
    (hactive : ∀ lock ∈ active, lock.isValid = true)
    (hcompatible : active.Pairwise fun left right =>
      left.Intersects right → left.Compatible right) (hvalid : request.isValid = true)
    (hfree : ∀ lock ∈ active, blocks lock request = false) :
    (active ++ [request]).Pairwise fun left right =>
      left.Intersects right → left.Compatible right := by
  refine pairwise_append.mpr ⟨hcompatible, pairwise_singleton _ _, ?_⟩
  intro lock hlock new hnew hmeet
  rw [mem_singleton] at hnew
  subst hnew
  exact compatible_of_not_blocks (hactive lock hlock) hvalid (hfree lock hlock) hmeet

theorem Sound.move {s t : History C} (hst : Move s t) (h : Sound s.table) : Sound t.table := by
  cases hst with
  | grant request hvalid hfree =>
    refine ⟨?_, h.waiting_valid,
      pairwise_compatible_concat h.active_valid h.compatible hvalid hfree⟩
    simpa [or_imp, forall_and] using ⟨h.active_valid, hvalid⟩
  | announce id next request context hvalid =>
    refine ⟨h.active_valid, ?_, h.compatible⟩
    simpa [or_imp, forall_and] using ⟨h.waiting_valid, hvalid⟩
  | release active hsub =>
    exact ⟨fun lock hlock => h.active_valid lock (hsub.subset hlock), h.waiting_valid,
      h.compatible.sublist hsub⟩
  | cancel before after waiter hqueue =>
    refine ⟨h.active_valid, fun other hother => h.waiting_valid other ?_, h.compatible⟩
    rw [hqueue]
    exact (sublist_cons_self waiter after).append_left before |>.subset hother
  | serve before after waiter hqueue hfree =>
    have hvalid : waiter.request.isValid = true := h.waiting_valid waiter (by simp [hqueue])
    refine ⟨?_, fun other hother => h.waiting_valid other ?_,
      pairwise_compatible_concat h.active_valid h.compatible hvalid hfree⟩
    · simpa [or_imp, forall_and] using ⟨h.active_valid, hvalid⟩
    · rw [hqueue]
      exact (sublist_cons_self waiter after).append_left before |>.subset hother
  | deliver rest completion hlast => exact ⟨h.active_valid, h.waiting_valid, h.compatible⟩

theorem Sound.run (ops : List (LockOp C)) : Sound (History.start.run ops).table := by
  refine History.run_induction ⟨?_, ?_, List.Pairwise.nil⟩ (fun _ _ => Sound.move) ops
  · exact fun lock hlock => absurd hlock not_mem_nil
  · exact fun waiter hwaiter => absurd hwaiter not_mem_nil

/-! ## Access under a lock -/

/-- A lock that meets an exclusive one belongs to the same owner. -/
theorem Sound.owner_eq_of_exclusive (h : Sound table) {lock other : ByteRangeLockRequest}
    (hlock : lock ∈ table.active) (hother : other ∈ table.active)
    (hexclusive : lock.exclusive = true)
    (hmeet : lock.Intersects other) : other.owner = lock.owner := by
  by_cases hne : lock = other
  · rw [hne]
  · have : Std.Symm fun left right : ByteRangeLockRequest =>
        left.Intersects right → left.Compatible right :=
      ⟨fun _ _ hab hba => (hab hba.symm).symm⟩
    rcases h.compatible.forall hlock hother hne hmeet with ⟨hshared, -⟩ | ⟨howner, -⟩
    · rw [hexclusive] at hshared
      cases hshared
    · exact howner.symm

theorem intersects_of_common (hfile : left.fileId = right.fileId) (hleft : x ∈ left.offsets)
    (hright : x ∈ right.offsets) : left.Intersects right :=
  ⟨hfile, x, hleft, hright⟩

/-- The test of `access_allowed` for an exclusive lock around a write. -/
theorem offsets_subset_of_ends {lock access : ByteRangeLockRequest}
    (hlock : lock.isValid = true) (haccess : access.isValid = true) (hlength : lock.length ≠ 0)
    (hlength' : access.length ≠ 0) : (lock.byteOffset ≤ access.byteOffset ∧
        lock.byteOffset + lock.length - 1 ≥ access.byteOffset + access.length - 1) ↔
      access.offsets ⊆ lock.offsets := by
  have hpos : access.length.toNat ≠ 0 := fun hzero => hlength' (UInt64.toNat_inj.mp hzero)
  have hpos' : lock.length.toNat ≠ 0 := fun hzero => hlength (UInt64.toNat_inj.mp hzero)
  rw [ge_iff_le, UInt64.le_iff_toNat_le, UInt64.le_iff_toNat_le, toNat_end hlock hlength,
    toNat_end haccess hlength']
  constructor
  · intro hends x hx
    simp only [offsets, Set.mem_ofPred_eq] at hx ⊢
    omega
  · intro hsub
    have hfirst : access.byteOffset.toNat ∈ lock.offsets := by
      apply hsub
      simp only [offsets, Set.mem_ofPred_eq]
      omega
    have hlast : access.byteOffset.toNat + access.length.toNat - 1 ∈ lock.offsets := by
      apply hsub
      simp only [offsets, Set.mem_ofPred_eq]
      omega
    simp only [offsets, Set.mem_ofPred_eq] at hfirst hlast
    omega

section

variable {lock : ByteRangeLockRequest} {byteOffset length : UInt64} {write : Bool} (h : Sound table)
  (hlock : lock ∈ table.active) (hexclusive : lock.exclusive = true)
include h hlock hexclusive

/-- Nobody else gets at a byte of an exclusive lock. -/
theorem Sound.accessAllowed_other {owner : ByteRangeLockOwner} (howner : owner ≠ lock.owner)
    {fileId : UInt64} (hmeet : lock.Intersects ⟨fileId, owner, byteOffset, length, write⟩) :
    table.accessAllowed fileId owner byteOffset length write = false := by
  obtain ⟨hfile, x, hxlock, hx⟩ := hmeet
  have hlength : length ≠ 0 := length_ne_zero_of_mem hx
  by_cases hvalid : isValid ⟨fileId, owner, byteOffset, length, write⟩ = true
  · have hoverlap : rangesOverlap lock ⟨fileId, owner, byteOffset, length, write⟩ = true :=
      (rangesOverlap_iff (h.active_valid lock hlock) hvalid).mpr ⟨hfile, x, hxlock, hx⟩
    cases write with
    | false =>
      simp only [accessAllowed, hvalid, hlength, Bool.not_true, decide_false, Bool.or_self,
        Bool.false_eq_true, if_false, Bool.not_false, if_true, all_eq_false]
      refine ⟨lock, hlock, ?_⟩
      simp [hoverlap, hexclusive, Ne.symm howner]
    | true =>
      -- A lock of the writer around the range would meet the exclusive one.
      have hnone : ∀ other ∈ table.active, other.fileId = fileId → other.exclusive = true →
          other.owner = owner → other.length ≠ 0 → other.byteOffset ≤ byteOffset →
          ¬ other.byteOffset + other.length - 1 ≥ byteOffset + length - 1 := by
        intro other hother hfile' _ howner' hother0 hstart hend
        have hsub := (offsets_subset_of_ends (h.active_valid other hother) hvalid hother0
          hlength).mp ⟨hstart, hend⟩
        have hmeet := intersects_of_common (hfile.trans hfile'.symm) hxlock (hsub hx)
        exact howner (howner'.symm.trans (h.owner_eq_of_exclusive hlock hother hexclusive hmeet))
      simp only [accessAllowed, hvalid, hlength, Bool.not_true, decide_false, Bool.or_self,
        Bool.false_eq_true, if_false]
      rw [if_neg, all_eq_false]
      · exact ⟨lock, hlock, by simp [hoverlap]⟩
      · simp only [any_eq_true, Bool.and_eq_true, decide_eq_true_eq, not_exists, not_and, and_imp]
        exact fun other hother a b c d e => hnone other hother a b c d e
  · simp [accessAllowed, hvalid]

/-- The holder of an exclusive lock may read and write inside it. -/
theorem Sound.accessAllowed_holder
    (hsub : offsets ⟨lock.fileId, lock.owner, byteOffset, length, write⟩ ⊆ lock.offsets) :
    table.accessAllowed lock.fileId lock.owner byteOffset length write = true := by
  have hlockValid := h.active_valid lock hlock
  have hids : (lock.fileId != 0 && lock.owner.isValid) = true :=
    (Bool.and_eq_true_iff.mp hlockValid).1
  by_cases hlength : length = 0
  · simp [accessAllowed, isValid, hlength, hids]
  · have hpos : length.toNat ≠ 0 := fun hzero => hlength (UInt64.toNat_inj.mp hzero)
    have hx : byteOffset.toNat ∈ offsets ⟨lock.fileId, lock.owner, byteOffset, length, write⟩ := by
      simp only [offsets, Set.mem_ofPred_eq]
      omega
    have hlength' : lock.length ≠ 0 := length_ne_zero_of_mem (hsub hx)
    have hlast : byteOffset.toNat + length.toNat - 1 < 2 ^ 64 := by
      refine lt_of_mem_offsets hlockValid (hsub ?_)
      simp only [offsets, Set.mem_ofPred_eq]
      omega
    have hvalid : isValid ⟨lock.fileId, lock.owner, byteOffset, length, write⟩ = true := by
      simp only [isValid, hids, Bool.true_and, Bool.or_eq_true, decide_eq_true_eq,
        toNat_length_sub_one hlength]
      omega
    cases write with
    | false =>
      simp only [accessAllowed, hvalid, hlength, Bool.not_true, decide_false, Bool.or_self,
        Bool.false_eq_true, if_false, Bool.not_false, if_true, all_eq_true]
      intro other hother
      by_cases hoverlap :
          rangesOverlap other ⟨lock.fileId, lock.owner, byteOffset, length, false⟩ = true
      · obtain ⟨hfile, y, hy, hy'⟩ :=
          (rangesOverlap_iff (h.active_valid other hother) hvalid).mp hoverlap
        have hmeet : lock.Intersects other := intersects_of_common hfile.symm (hsub hy') hy
        simp [h.owner_eq_of_exclusive hlock hother hexclusive hmeet]
      · simp [hoverlap]
    | true =>
      obtain ⟨hstart, hend⟩ := (offsets_subset_of_ends hlockValid hvalid hlength' hlength).mpr hsub
      simp only [accessAllowed, hvalid, hlength, Bool.not_true, decide_false, Bool.or_self,
        Bool.false_eq_true, if_false]
      rw [if_pos]
      refine any_eq_true.mpr ⟨lock, hlock, ?_⟩
      simp [hexclusive, hlength', hstart, hend]

end

/-! ## Exactly once -/

/-- How a client recognizes a wait. -/
def WaitingLock.tag (waiter : WaitingLock C) : UInt64 × C := (waiter.id, waiter.context)

/-- How a client recognizes the end of a wait. -/
def ByteRangeLockCompletion.tag (completion : ByteRangeLockCompletion C) : UInt64 × C :=
  (completion.waitId, completion.context)

/-- The waits announced so far are those still queued and those ended, each once. -/
structure Accounted (s : History C) : Prop where
  announced_perm : s.announced.Perm
    (s.table.waiting.map WaitingLock.tag ++
      (s.table.completed ++ s.delivered).map ByteRangeLockCompletion.tag)
  status_eq : ∀ completion ∈ s.table.completed ++ s.delivered,
    completion.status = .success ∨ completion.status = .cancelled

/-- A waiter moves from the queue to the completions. -/
theorem Accounted.complete {s : History C} (h : Accounted s)
    {before after : List (WaitingLock C)} {waiter : WaitingLock C}
    (hqueue : s.table.waiting = before ++ waiter :: after) {status : Status}
    (hstatus : status = .success ∨ status = .cancelled) {active : List ByteRangeLockRequest} :
    Accounted { s with table := { s.table with
      waiting := before ++ after
      active
      completed := s.table.completed ++ [waiter.complete status] } } where
  announced_perm := by
    refine h.announced_perm.trans ?_
    rw [hqueue]
    simp only [map_append, map_cons, append_assoc, cons_append]
    refine perm_middle.trans ?_
    rw [← append_assoc, ← append_assoc, ← append_assoc, ← append_assoc]
    exact perm_middle.symm
  status_eq := by
    intro completion hmem
    simp only [mem_append, mem_singleton] at hmem
    rcases hmem with (hmem | rfl) | hmem
    · exact h.status_eq completion (mem_append_left _ hmem)
    · exact hstatus
    · exact h.status_eq completion (mem_append_right _ hmem)

theorem Accounted.move {s t : History C} (hst : Move s t) (h : Accounted s) : Accounted t := by
  cases hst with
  | grant request hvalid hfree => exact ⟨h.announced_perm, h.status_eq⟩
  | announce id next request context hvalid =>
    refine ⟨?_, h.status_eq⟩
    refine (h.announced_perm.append_right [(id, context)]).trans ?_
    simp only [map_append, append_assoc]
    refine List.Perm.append_left _ ?_
    rw [← append_assoc]
    exact perm_append_comm
  | release active hsub => exact ⟨h.announced_perm, h.status_eq⟩
  | cancel before after waiter hqueue => exact h.complete hqueue (Or.inr rfl)
  | serve before after waiter hqueue hfree => exact h.complete hqueue (Or.inl rfl)
  | deliver rest completion hlast =>
    have hmoved : (rest ++ (s.delivered ++ [completion])).Perm
        (s.table.completed ++ s.delivered) := by
      rw [hlast, append_assoc]
      exact List.Perm.append_left rest perm_append_comm
    refine ⟨h.announced_perm.trans (List.Perm.append_left _ (hmoved.symm.map _)), ?_⟩
    exact fun other hother => h.status_eq other (hmoved.mem_iff.mp hother)

theorem Accounted.run (ops : List (LockOp C)) : Accounted (History.start.run ops) := by
  refine History.run_induction ⟨List.Perm.refl _, ?_⟩ (fun _ _ => Accounted.move) ops
  exact fun completion hmem => absurd hmem not_mem_nil

/-- The waiters served by a pass over the queue: their locks join the active ones and
their completions say so. -/
theorem reconsiderLoop_served (kept : List (WaitingLock C)) (active : List ByteRangeLockRequest)
    (completed : List (ByteRangeLockCompletion C)) (rest : List (WaitingLock C)) :
    ∃ served : List (WaitingLock C), served ⊆ rest ∧
      (reconsiderLoop kept active completed rest).2.1 = active ++ served.map WaitingLock.request ∧
      (reconsiderLoop kept active completed rest).2.2 =
        completed ++ served.map fun waiter => waiter.complete .success := by
  induction rest generalizing kept active completed with
  | nil => exact ⟨[], List.Subset.refl _, by simp [reconsiderLoop], by simp [reconsiderLoop]⟩
  | cons waiter rest ih =>
    rw [reconsiderLoop]
    split
    case isTrue =>
      obtain ⟨served, hsub, hactive, hcompleted⟩ := ih (kept ++ [waiter]) active completed
      exact ⟨served, subset_cons_of_subset waiter hsub, hactive, hcompleted⟩
    case isFalse =>
      obtain ⟨served, hsub, hactive, hcompleted⟩ := ih kept (active ++ [waiter.request])
        (completed ++ [waiter.complete .success])
      refine ⟨waiter :: served, cons_subset_cons waiter hsub, ?_, ?_⟩
      · rw [hactive, append_assoc, singleton_append, map_cons]
      · rw [hcompleted, append_assoc, singleton_append, map_cons]

/-- A completion of a call that reports success is about a waiter whose lock has become
active. -/
def ServedBy (table table' : ByteRangeLockTable C) : Prop :=
  ∀ completion ∈ table'.completed, completion.status = .success →
    completion ∈ table.completed ∨ ∃ waiter ∈ table.waiting,
      completion = waiter.complete .success ∧ waiter.request ∈ table'.active

theorem ServedBy.of_completed_subset
    (h : table'.completed ⊆ table.completed) : ServedBy table table' :=
  fun _ hmem _ => Or.inl (h hmem)

theorem servedBy_reconsiderWaiters (table : ByteRangeLockTable C) :
    ServedBy table (reconsiderWaiters table) := by
  obtain ⟨served, hsub, hactive, hcompleted⟩ :=
    reconsiderLoop_served [] table.active table.completed table.waiting
  intro completion hmem _
  simp only [reconsiderWaiters] at hmem ⊢
  rw [hcompleted, mem_append] at hmem
  rcases hmem with hold | hnew
  · exact Or.inl hold
  · obtain ⟨waiter, hwaiter, rfl⟩ := mem_map.mp hnew
    refine Or.inr ⟨waiter, hsub hwaiter, rfl, ?_⟩
    rw [hactive]
    exact mem_append_right _ (mem_map_of_mem hwaiter)

/-- Cancellations report no success. -/
theorem success_mem_cancelOwners {owned : ByteRangeLockOwner → Bool}
    {completion : ByteRangeLockCompletion C}
    (hmem : completion ∈ (table.cancelOwners owned).completed)
    (hsuccess : completion.status = .success) : completion ∈ table.completed := by
  rcases mem_append.mp hmem with hold | hnew
  · exact hold
  · obtain ⟨waiter, -, rfl⟩ := mem_map.mp hnew
    cases hsuccess

theorem servedBy_dropOwners (table : ByteRangeLockTable C) (owned : ByteRangeLockOwner → Bool) :
    ServedBy table (table.dropOwners owned) := by
  intro completion hmem hsuccess
  rcases servedBy_reconsiderWaiters _ completion hmem hsuccess with hold | hserved
  · exact Or.inl (success_mem_cancelOwners hold hsuccess)
  · obtain ⟨waiter, hwaiter, heq, hactive⟩ := hserved
    exact Or.inr ⟨waiter, mem_of_mem_filter hwaiter, heq, hactive⟩

theorem History.servedBy_step (s : History C) (op : LockOp C) :
    ServedBy s.table (s.step op).table := by
  have hsame : ServedBy s.table s.table := ServedBy.of_completed_subset (List.Subset.refl _)
  cases op with
  | lock request failImmediately context reserved =>
    apply ServedBy.of_completed_subset
    have hcompleted : (s.step (.lock request failImmediately context reserved)).table.completed =
        s.table.completed := by
      simp only [step, lock]
      split_ifs <;> rfl
    rw [hcompleted]
    exact List.Subset.refl _
  | unlockSingle request reserved =>
    simp only [step, unlockSingle]
    split_ifs
    · exact hsame
    · exact hsame
    · exact hsame
    · exact servedBy_reconsiderWaiters { s.table with
        active := s.table.active.eraseP (isLock request) }
  | cancelWait waitId reserved =>
    simp only [step, cancelWait]
    split
    · exact hsame
    · split_ifs
      · exact hsame
      · intro completion hmem hsuccess
        rcases mem_append.mp hmem with hold | hnew
        · exact Or.inl hold
        · rw [mem_singleton.mp hnew] at hsuccess
          cases hsuccess
  | cancelWaitsFor fileObject processId reserved =>
    simp only [step, cancelWaitsFor]
    split_ifs
    · exact hsame
    · exact fun completion hmem hsuccess =>
        Or.inl (success_mem_cancelOwners hmem hsuccess)
  | cleanupFileObject | cleanupFileObjectAll =>
    simp only [step, cleanupFileObject, cleanupFileObjectAll]
    split_ifs
    · exact hsame
    · exact hsame
    · exact servedBy_dropOwners s.table _
  | popCompletion =>
    apply ServedBy.of_completed_subset
    exact dropLast_subset _

/-- **Byte-range locks.**  After any calls: active locks that share a byte are compatible;
every announced wait is queued or was ended once, as a grant or a cancellation, and a
grant means that the lock became active; under an exclusive lock every other owner is
refused the bytes of the lock and its holder is not. -/
theorem locks_exclude_and_waits_end_once (ops : List (LockOp C)) :
    let s := History.start.run ops
    (s.table.active.Pairwise fun left right =>
      left.Intersects right → left.Compatible right) ∧
    (s.announced.Perm (s.table.waiting.map WaitingLock.tag ++
      (s.table.completed ++ s.delivered).map ByteRangeLockCompletion.tag)) ∧
    (∀ completion ∈ s.table.completed ++ s.delivered,
      completion.status = .success ∨ completion.status = .cancelled) ∧
    (∀ op, ServedBy s.table (s.step op).table) ∧
    ∀ lock ∈ s.table.active, lock.exclusive = true → ∀ access : ByteRangeLockRequest,
      (access.owner ≠ lock.owner → lock.Intersects access →
        s.table.checkRead access.fileId access.owner access.byteOffset access.length =
            .fileLockConflict ∧
          s.table.checkWrite access.fileId access.owner access.byteOffset access.length =
            .fileLockConflict) ∧
      (access.fileId = lock.fileId → access.owner = lock.owner →
        access.offsets ⊆ lock.offsets →
        s.table.checkRead access.fileId access.owner access.byteOffset access.length = .success ∧
          s.table.checkWrite access.fileId access.owner access.byteOffset access.length =
            .success) := by
  intro s
  have hsound : Sound s.table := Sound.run ops
  have haccounted : Accounted s := Accounted.run ops
  refine ⟨hsound.compatible, haccounted.announced_perm, haccounted.status_eq,
    fun op => s.servedBy_step op, ?_⟩
  intro lock hlock hexclusive access
  constructor
  · intro howner hmeet
    have hdenied : ∀ write, s.table.accessAllowed access.fileId access.owner access.byteOffset
        access.length write = false :=
      fun write => hsound.accessAllowed_other hlock hexclusive howner hmeet
    simp [checkRead, checkWrite, hdenied]
  · intro hfile howner hsub
    have hallowed : ∀ write, s.table.accessAllowed lock.fileId lock.owner access.byteOffset
        access.length write = true :=
      fun write => hsound.accessAllowed_holder hlock hexclusive hsub
    simp [checkRead, checkWrite, hfile, howner, hallowed]

end UserspaceNtos.Fs.ByteLock
