import UserspaceNtos.Lib.Result
import Mathlib.Tactic.Common
import Mathlib.Algebra.Group.Nat.Defs

/-!
# The push-lock word

The lock is one 64-bit word.  Without waiters its upper bits count the shared holders; with
waiters they are the address of the newest wait block, whose low four bits are free because
blocks are aligned.  The functions here plan a transition from a word that was read; nothing
happens until the plan is published by compare-and-swap.

`WordView` takes a word apart into its flags and its upper bits, and each plan has a lemma that
says in these terms what it leads to.
-/

namespace UserspaceNtos.PushLock

/-- A word of the lock or an address. -/
abbrev U64 := BitVec 64

/-- `LOCKED` -/
def locked : U64 := 1

/-- `WAITING` -/
def waiting : U64 := 2

/-- `WAKING` -/
def waking : U64 := 4

/-- `MULTIPLE_SHARED` -/
def multipleShared : U64 := 8

/-- `PTR_BITS` -/
def ptrBits : U64 := 15

/-- `SHARE_INC` -/
def shareInc : U64 := 16

/-- `WAITER_EXCLUSIVE` -/
def waiterExclusive : BitVec 32 := 1

/-- `WAITER_WAIT` -/
def waiterWait : BitVec 32 := 2

/-- `PushLockError` -/
inductive PushLockError
  | invalidWord
  | waitBlockAlignment
  | sharedCountOverflow
  | notExclusive
  | notShared
  | invalidSharedCount
  | wakeNotOwned
  deriving DecidableEq, Repr

/-- `QueuePlan` -/
structure QueuePlan where
  new : U64
  next : U64
  last : U64
  savedShared : ℤ
  flags : BitVec 32
  needsOptimize : Bool
  deriving DecidableEq, Repr

/-- `AcquireDecision` -/
inductive AcquireDecision
  | acquire (new : U64)
  | queue (plan : QueuePlan)
  deriving DecidableEq, Repr

/-- `ReleasePlan` -/
structure ReleasePlan where
  new : U64
  wake : Bool
  deriving DecidableEq, Repr

/-- `WakeDecision` -/
inductive WakeDecision
  /-- The lock was taken again; its owner will wake. -/
  | relocked (new : U64)
  /-- The oldest block is detached by its links, and `waking` is cleared afterwards. -/
  | detachOldest (new : U64)
  /-- The whole queue is detached by the compare-and-swap itself. -/
  | detachAll (new : U64)
  deriving DecidableEq, Repr

/-! ## Plans -/

/-- `validate` -/
def validate (old : U64) : Except PushLockError Unit :=
  if old &&& waiting ≠ 0 then
    if old &&& ~~~ptrBits = 0 ∨ (old &&& multipleShared ≠ 0 ∧ old &&& locked = 0) then
      .error .invalidWord
    else .ok ()
  else if old &&& (waking ||| multipleShared) ≠ 0 ∨ (old &&& locked = 0 ∧ old ≠ 0) then
    .error .invalidWord
  else .ok ()

/-- The flags of a new wait block. -/
def waiterFlags (exclusive : Bool) : BitVec 32 :=
  waiterWait ||| (if exclusive then waiterExclusive else 0)

/-- The count that the first waiter saves, an `i32`. -/
def savedShares (shared : ℕ) (exclusive : Bool) : Except PushLockError ℤ :=
  if exclusive && decide (shared > 1) then
    if shared < 2 ^ 31 then .ok shared else .error .sharedCountOverflow
  else .ok 0

/-- `queue` -/
def queue (old node : U64) (exclusive : Bool) : Except PushLockError QueuePlan :=
  if node = 0 ∨ node &&& ptrBits ≠ 0 then .error .waitBlockAlignment
  else
    if old &&& waiting ≠ 0 then
      .ok { new := node ||| (old &&& (locked ||| multipleShared)) ||| waiting ||| waking
            next := old &&& ~~~ptrBits, last := 0, savedShared := 0
            flags := waiterFlags exclusive, needsOptimize := decide (old &&& waking = 0) }
    else
      match savedShares (old >>> 4).toNat exclusive with
      | .error error => .error error
      | .ok savedShared =>
        .ok { new := node ||| locked ||| waiting |||
                (if savedShared > 0 then multipleShared else 0)
              next := 0, last := node, savedShared, flags := waiterFlags exclusive
              needsOptimize := false }

/-- `acquire_exclusive` -/
def acquireExclusive (old node : U64) : Except PushLockError AcquireDecision := do
  validate old
  if old &&& locked = 0 then .ok (.acquire (old ||| locked))
  else (queue old node true).map .queue

/-- `acquire_shared` -/
def acquireShared (old node : U64) : Except PushLockError AcquireDecision := do
  validate old
  if old &&& locked = 0 ∨ (old &&& waiting = 0 ∧ old >>> 4 ≠ 0) then
    if old &&& waiting = 0 then
      if (old ||| locked).toNat + shareInc.toNat < 2 ^ 64 then
        .ok (.acquire ((old ||| locked) + shareInc))
      else .error .sharedCountOverflow
    else .ok (.acquire (old ||| locked))
  else (queue old node false).map .queue

/-- `release_waiting` -/
def releaseWaiting (old : U64) : ReleasePlan :=
  { new := (old &&& ~~~(locked ||| multipleShared)) ||| waking
    wake := decide (old &&& waking = 0) }

/-- `release_exclusive` -/
def releaseExclusive (old : U64) : Except PushLockError ReleasePlan := do
  validate old
  if old &&& locked = 0 ∨ old &&& multipleShared ≠ 0 ∨
      (old &&& waiting = 0 ∧ old >>> 4 ≠ 0) then .error .notExclusive
  else if old &&& waiting ≠ 0 then .ok (releaseWaiting old)
  else .ok { new := 0, wake := false }

/-- `release_shared_no_waiters` -/
def releaseSharedNoWaiters (old : U64) : Except PushLockError ReleasePlan := do
  validate old
  if old &&& waiting ≠ 0 ∨ old >>> 4 = 0 then .error .notShared
  else .ok { new := if old >>> 4 = 1 then 0 else old - shareInc, wake := false }

/-- `remainingShareCount` is what one decrement of the oldest block's count left, if
`multipleShared` is set. -/
def releaseSharedWaiting (old : U64) (remainingShareCount : ℤ) :
    Except PushLockError (Option ReleasePlan) := do
  validate old
  if old &&& (locked ||| waiting) ≠ (locked ||| waiting) then .error .notShared
  else if remainingShareCount < 0 ∨
      (old &&& multipleShared = 0 ∧ remainingShareCount ≠ 0) then .error .invalidSharedCount
  else .ok (if remainingShareCount > 0 then none else some (releaseWaiting old))

/-- `try_wake` -/
def tryWake (old : U64) : Except PushLockError (Option U64) := do
  validate old
  .ok (if old &&& waiting ≠ 0 ∧ old &&& (locked ||| waking) = 0 then some (old ||| waking)
    else none)

/-- `wake_action` -/
def wakeAction (old : U64) (oldestExclusive hasPrevious : Bool) :
    Except PushLockError WakeDecision := do
  validate old
  if old &&& (waiting ||| waking) ≠ (waiting ||| waking) then .error .wakeNotOwned
  else .ok (
    if old &&& locked ≠ 0 then .relocked (old &&& ~~~waking)
    else if oldestExclusive && hasPrevious then .detachOldest (old &&& ~~~waking)
    else .detachAll 0)

/-! ## A word taken apart -/

/-- The lock bit. -/
def isLocked (w : U64) : Bool := w.getLsbD 0

/-- The waiting bit. -/
def isWaiting (w : U64) : Bool := w.getLsbD 1

/-- The waking bit. -/
def isWaking (w : U64) : Bool := w.getLsbD 2

/-- The bit for several shared holders. -/
def isMultiple (w : U64) : Bool := w.getLsbD 3

/-- The upper bits, a count or an address. -/
def high (w : U64) : BitVec 60 := w.extractLsb' 4 60

variable {w : U64}

theorem word_ext_iff {v : U64} : v = w ↔ isLocked v = isLocked w ∧ isWaiting v = isWaiting w ∧
    isWaking v = isWaking w ∧ isMultiple v = isMultiple w ∧ high v = high w := by
  refine ⟨fun h => by simp [h], fun ⟨hlocked, hwaiting, hwaking, hmultiple, hhigh⟩ => ?_⟩
  refine BitVec.eq_of_getLsbD_eq fun i hi => ?_
  match i, hi with
  | 0, _ => exact hlocked
  | 1, _ => exact hwaiting
  | 2, _ => exact hwaking
  | 3, _ => exact hmultiple
  | i + 4, hi =>
    have := congrArg (fun x => BitVec.getLsbD x i) hhigh
    simp only [high, BitVec.getLsbD_extractLsb'] at this
    rw [Nat.add_comm i 4]
    simpa [show i < 60 by omega] using this

section Flags

variable (v w : U64)

@[simp] theorem parts_or : isLocked (v ||| w) = (isLocked v || isLocked w) ∧
    isWaiting (v ||| w) = (isWaiting v || isWaiting w) ∧
    isWaking (v ||| w) = (isWaking v || isWaking w) ∧
    isMultiple (v ||| w) = (isMultiple v || isMultiple w) ∧ high (v ||| w) = high v ||| high w := by
  simp [isLocked, isWaiting, isWaking, isMultiple, high, BitVec.extractLsb'_or]

@[simp] theorem parts_and : isLocked (v &&& w) = (isLocked v && isLocked w) ∧
    isWaiting (v &&& w) = (isWaiting v && isWaiting w) ∧
    isWaking (v &&& w) = (isWaking v && isWaking w) ∧
    isMultiple (v &&& w) = (isMultiple v && isMultiple w) ∧ high (v &&& w) = high v &&& high w := by
  simp [isLocked, isWaiting, isWaking, isMultiple, high, BitVec.extractLsb'_and]

@[simp] theorem parts_not : isLocked (~~~w) = !isLocked w ∧ isWaiting (~~~w) = !isWaiting w ∧
    isWaking (~~~w) = !isWaking w ∧ isMultiple (~~~w) = !isMultiple w ∧
    high (~~~w) = ~~~high w := by
  refine ⟨?_, ?_, ?_, ?_, ?_⟩
  case refine_5 =>
    ext i hi
    simp [high, show 4 + i < 64 by omega]
  all_goals simp [isLocked, isWaiting, isWaking, isMultiple]

theorem toNat_high : (high w).toNat = w.toNat / 16 := by
  have := w.isLt
  simp only [high, BitVec.extractLsb'_toNat, Nat.shiftRight_eq_div_pow]
  omega

theorem toNat_shiftRight_four : (w >>> 4).toNat = (high w).toNat := by
  simp [toNat_high, Nat.shiftRight_eq_div_pow]

theorem add_shareInc : isLocked (w + shareInc) = isLocked w ∧
    isWaiting (w + shareInc) = isWaiting w ∧ isWaking (w + shareInc) = isWaking w ∧
    isMultiple (w + shareInc) = isMultiple w ∧ high (w + shareInc) = high w + 1 := by
  have := w.isLt
  have hinc : shareInc.toNat = 16 := rfl
  have hone : (1 : BitVec 60).toNat = 1 := rfl
  simp only [isLocked, isWaiting, isWaking, isMultiple, BitVec.getLsbD, BitVec.toNat_add, hinc,
    Nat.testBit_eq_decide_div_mod_eq, decide_eq_decide, BitVec.toNat_eq, toNat_high, hone]
  omega

end Flags

@[simp] theorem parts_zero : isLocked 0#64 = false ∧ isWaiting 0#64 = false ∧
    isWaking 0#64 = false ∧ isMultiple 0#64 = false ∧ high 0#64 = 0#60 := by decide

@[simp] theorem parts_locked : isLocked locked = true ∧ isWaiting locked = false ∧
    isWaking locked = false ∧ isMultiple locked = false ∧ high locked = 0#60 := by decide

@[simp] theorem parts_waiting : isLocked waiting = false ∧ isWaiting waiting = true ∧
    isWaking waiting = false ∧ isMultiple waiting = false ∧ high waiting = 0#60 := by decide

@[simp] theorem parts_waking : isLocked waking = false ∧ isWaiting waking = false ∧
    isWaking waking = true ∧ isMultiple waking = false ∧ high waking = 0#60 := by decide

@[simp] theorem parts_multipleShared : isLocked multipleShared = false ∧
    isWaiting multipleShared = false ∧ isWaking multipleShared = false ∧
    isMultiple multipleShared = true ∧ high multipleShared = 0#60 := by decide

@[simp] theorem parts_ptrBits : isLocked ptrBits = true ∧ isWaiting ptrBits = true ∧
    isWaking ptrBits = true ∧ isMultiple ptrBits = true ∧ high ptrBits = 0#60 := by decide

section Tests

variable (w : U64)

@[simp] theorem and_locked_eq_zero : w &&& locked = 0#64 ↔ isLocked w = false := by
  simp [word_ext_iff]

@[simp] theorem and_waiting_eq_zero : w &&& waiting = 0#64 ↔ isWaiting w = false := by
  simp [word_ext_iff]

@[simp] theorem and_waking_eq_zero : w &&& waking = 0#64 ↔ isWaking w = false := by
  simp [word_ext_iff]

@[simp] theorem and_multipleShared_eq_zero :
    w &&& multipleShared = 0#64 ↔ isMultiple w = false := by
  simp [word_ext_iff]

@[simp] theorem and_allOnes_sixty (x : BitVec 60) : x &&& 1152921504606846975#60 = x :=
  BitVec.and_allOnes

@[simp] theorem and_not_ptrBits_eq_zero : w &&& ~~~ptrBits = 0#64 ↔ high w = 0#60 := by
  simp [word_ext_iff]

@[simp] theorem shiftRight_four_eq_zero : w >>> 4 = 0#64 ↔ high w = 0#60 := by
  rw [BitVec.toNat_eq, BitVec.toNat_eq, toNat_shiftRight_four]
  rfl

@[simp] theorem shiftRight_four_eq_one : w >>> 4 = 1#64 ↔ high w = 1#60 := by
  rw [BitVec.toNat_eq, BitVec.toNat_eq, toNat_shiftRight_four]
  rfl

end Tests

/-- The parts of a word. -/
structure Parts (w : U64) (locked waiting waking multiple : Bool) (h : BitVec 60) : Prop where
  locked : isLocked w = locked
  waiting : isWaiting w = waiting
  waking : isWaking w = waking
  multiple : isMultiple w = multiple
  high : high w = h

/-- An address that the word can hold. -/
def IsAddress (node : U64) : Prop := node ≠ 0 ∧ node &&& ptrBits = 0

theorem isAddress_iff {node : U64} :
    IsAddress node ↔ Parts node false false false false (high node) ∧ high node ≠ 0#60 := by
  constructor
  · rintro ⟨hne, hlow⟩
    simp only [ne_eq, word_ext_iff] at hne hlow
    simp at hne hlow
    obtain ⟨hlocked, hwaiting, hwaking, hmultiple⟩ := hlow
    exact ⟨⟨hlocked, hwaiting, hwaking, hmultiple, rfl⟩, hne hlocked hwaiting hwaking hmultiple⟩
  · rintro ⟨⟨hlocked, hwaiting, hwaking, hmultiple, -⟩, hhigh⟩
    simp [IsAddress, word_ext_iff, *]

/-- The address in a word with waiters. -/
def pointer (w : U64) : U64 := w &&& ~~~ptrBits

theorem pointer_eq {node : U64} (hnode : IsAddress node) (h : high w = high node) :
    pointer w = node := by
  obtain ⟨hlow, -⟩ := isAddress_iff.mp hnode
  simp [pointer, word_ext_iff, hlow.locked, hlow.waiting, hlow.waking, hlow.multiple, h]

/-! ## What the plans lead to -/

/-- The words that `validate` accepts. -/
def Valid (w : U64) : Prop :=
  if isWaiting w then high w ≠ 0#60 ∧ (isMultiple w = true → isLocked w = true)
  else isWaking w = false ∧ isMultiple w = false ∧ (isLocked w = false → w = 0#64)

theorem validate_eq_ok : validate w = .ok () ↔ Valid w := by
  have hflags : w &&& (waking ||| multipleShared) = 0#64 ↔
      isWaking w = false ∧ isMultiple w = false := by
    simp [word_ext_iff]
  unfold validate Valid
  cases hwaiting : isWaiting w
  · simp [hwaiting, hflags, and_assoc]
  · simp [hwaiting]

theorem validate_bind_eq_ok {α : Type} {k : Except PushLockError α} {a : α}
    (h : (validate w >>= fun _ => k) = .ok a) : Valid w ∧ k = .ok a := by
  obtain ⟨_, hvalid, h⟩ := Result.bind_eq_ok h
  exact ⟨validate_eq_ok.mp hvalid, h⟩

section Plans

variable {old node new : U64} {plan : QueuePlan}

/-- Behind other waiters a block takes `waking` along; the first waiter keeps the count of the
shared holders in its block if it cannot stay in the word. -/
structure QueueSpec (old node : U64) (exclusive : Bool) (plan : QueuePlan) : Prop where
  address : IsAddress node
  wait : plan.flags &&& waiterWait ≠ 0
  behind : isWaiting old = true →
    Parts plan.new (isLocked old) true true (isMultiple old) (high node) ∧
      plan.next = pointer old ∧ plan.last = 0 ∧ plan.needsOptimize = !isWaking old
  first : isWaiting old = false →
    Parts plan.new true true false (exclusive && decide (1 < (high old).toNat)) (high node) ∧
      plan.last = node ∧ plan.needsOptimize = false ∧
      plan.savedShared =
        if exclusive && decide (1 < (high old).toNat) then ((high old).toNat : ℤ) else 0

theorem savedShares_eq_ok {shared : ℕ} {exclusive : Bool} {saved : ℤ}
    (h : savedShares shared exclusive = .ok saved) :
    saved = if exclusive && decide (1 < shared) then (shared : ℤ) else 0 := by
  unfold savedShares at h
  split at h
  case isTrue hmany =>
    split at h
    · cases h
      exact (if_pos hmany).symm
    · cases h
  case isFalse hfew =>
    cases h
    exact (if_neg hfew).symm

theorem queue_spec {exclusive : Bool}
    (h : queue old node exclusive = .ok plan) : QueueSpec old node exclusive plan := by
  obtain ⟨hnode, h⟩ := Result.guard_eq_ok h
  simp only [not_or, not_not] at hnode
  have haddress : IsAddress node := hnode
  obtain ⟨hlow, -⟩ := isAddress_iff.mp haddress
  have hwait : waiterFlags exclusive &&& waiterWait ≠ 0 := by cases exclusive <;> decide
  split at h
  case isTrue hwaiting =>
    cases h
    refine ⟨haddress, hwait, fun _ => ⟨⟨?_, ?_, ?_, ?_, ?_⟩, rfl, rfl, ?_⟩,
      fun hfirst => absurd hfirst (by simpa using hwaiting)⟩
    all_goals simp [hlow.locked, hlow.multiple]
  case isFalse hwaiting =>
    have hwaiting : isWaiting old = false := by simpa using hwaiting
    cases hsaved : savedShares (old >>> 4).toNat exclusive with
    | error error =>
      simp only [hsaved] at h
      cases h
    | ok saved =>
      simp only [hsaved, Except.ok.injEq] at h
      subst h
      have hcount := savedShares_eq_ok hsaved
      rw [toNat_shiftRight_four] at hcount
      refine ⟨haddress, hwait, fun hbehind => ?_, fun _ => ⟨?_, rfl, rfl, hcount⟩⟩
      · rw [hwaiting] at hbehind
        cases hbehind
      · subst hcount
        split
        case isTrue hmany =>
          have hpos : ((high old).toNat : ℤ) > 0 := by
            simp only [Bool.and_eq_true, decide_eq_true_eq] at hmany
            omega
          rw [if_pos hpos, hmany]
          constructor <;> simp [hlow.locked, hlow.waking, hlow.waiting, hlow.multiple]
        case isFalse hfew =>
          rw [if_neg (by omega), Bool.eq_false_iff.mpr hfew]
          constructor <;> simp [hlow.locked, hlow.waking, hlow.waiting, hlow.multiple]

theorem releaseWaiting_spec (old : U64) :
    Parts (releaseWaiting old).new false (isWaiting old) true false (high old) ∧
      (releaseWaiting old).wake = !isWaking old := by
  refine ⟨⟨?_, ?_, ?_, ?_, ?_⟩, ?_⟩ <;> simp [releaseWaiting]

/-- Without waiters and unlocked, a word is zero. -/
theorem Valid.eq_zero {w : U64} (h : Valid w) (hwaiting : isWaiting w = false)
    (hlocked : isLocked w = false) : w = 0 := by
  simp only [Valid, hwaiting, Bool.false_eq_true, if_false] at h
  exact h.2.2 hlocked

theorem acquireExclusive_acquire (h : acquireExclusive old node = .ok (.acquire new)) :
    Valid old ∧ isLocked old = false ∧
      Parts new true (isWaiting old) (isWaking old) (isMultiple old) (high old) := by
  obtain ⟨hvalid, h⟩ := validate_bind_eq_ok h
  split at h
  case isTrue hlocked =>
    cases h
    refine ⟨hvalid, by simpa using hlocked, ⟨?_, ?_, ?_, ?_, ?_⟩⟩ <;> simp
  case isFalse hlocked => cases hq : queue old node true <;> simp [hq, Except.map] at h

theorem acquireExclusive_queue (h : acquireExclusive old node = .ok (.queue plan)) :
    Valid old ∧ isLocked old = true ∧ QueueSpec old node true plan := by
  obtain ⟨hvalid, h⟩ := validate_bind_eq_ok h
  split at h
  · cases h
  case isFalse hlocked =>
    cases hq : queue old node true with
    | error error => simp [hq, Except.map] at h
    | ok plan' =>
      rw [hq] at h
      cases h
      exact ⟨hvalid, by simpa using hlocked, queue_spec hq⟩

theorem acquireShared_acquire (h : acquireShared old node = .ok (.acquire new)) : Valid old ∧
      (isWaiting old = true ∧ isLocked old = false ∧
        Parts new true true (isWaking old) (isMultiple old) (high old) ∨
      isWaiting old = false ∧ (isLocked old = true → high old ≠ 0#60) ∧
        Parts new true false false false (high old + 1) ∧
        (high new).toNat = (high old).toNat + 1) := by
  obtain ⟨hvalid, h⟩ := validate_bind_eq_ok h
  refine ⟨hvalid, ?_⟩
  split at h
  case isTrue hfree =>
    split at h
    case isTrue hwaiting =>
      have hwaiting : isWaiting old = false := by simpa using hwaiting
      split at h
      case isTrue hroom =>
        cases h
        simp only [Valid, hwaiting, Bool.false_eq_true, if_false] at hvalid
        obtain ⟨hlocked', hwaiting', hwaking', hmultiple', hhigh'⟩ := add_shareInc (old ||| locked)
        refine .inr ⟨hwaiting, ?_, ⟨?_, ?_, ?_, ?_, ?_⟩, ?_⟩
        · intro hlocked
          simpa [hlocked, hwaiting] using hfree
        · simp [hlocked']
        · simp [hwaiting', hwaiting]
        · simp [hwaking', hvalid.1]
        · simp [hmultiple', hvalid.2.1]
        · simp [hhigh']
        · have hinc : shareInc.toNat = 16 := rfl
          have hsame : (high (old ||| locked)).toNat = (high old).toNat := by simp
          rw [toNat_high] at hsame
          rw [toNat_high, BitVec.toNat_add, hinc]
          omega
      · cases h
    case isFalse hwaiting =>
      cases h
      have hwaiting : isWaiting old = true := by simpa using hwaiting
      have hlocked : isLocked old = false := by simpa [hwaiting] using hfree
      refine .inl ⟨hwaiting, hlocked, ⟨?_, ?_, ?_, ?_, ?_⟩⟩ <;> simp [hwaiting]
  · cases hq : queue old node false <;> simp [hq, Except.map] at h

theorem acquireShared_queue (h : acquireShared old node = .ok (.queue plan)) :
    Valid old ∧ isLocked old = true ∧ (isWaiting old = false → high old = 0#60) ∧
      QueueSpec old node false plan := by
  obtain ⟨hvalid, h⟩ := validate_bind_eq_ok h
  split at h
  · split at h
    · split at h <;> cases h
    · cases h
  case isFalse hbusy =>
    cases hq : queue old node false with
    | error error => simp [hq, Except.map] at h
    | ok plan' =>
      rw [hq] at h
      cases h
      simp at hbusy
      exact ⟨hvalid, hbusy.1, hbusy.2, queue_spec hq⟩

theorem releaseExclusive_eq_ok {plan : ReleasePlan} (h : releaseExclusive old = .ok plan) :
    isLocked old = true ∧ isMultiple old = false ∧ (isWaiting old = false → high old = 0#60) ∧
      plan = if isWaiting old then releaseWaiting old else { new := 0, wake := false } := by
  obtain ⟨-, h⟩ := validate_bind_eq_ok h
  obtain ⟨hheld, h⟩ := Result.guard_eq_ok h
  simp at hheld
  refine ⟨hheld.1, hheld.2.1, hheld.2.2, ?_⟩
  split at h
  case isTrue hwaiting =>
    cases h
    rw [if_pos (by simpa using hwaiting)]
  case isFalse hwaiting =>
    cases h
    rw [if_neg (by simpa using hwaiting)]

theorem releaseSharedNoWaiters_eq_ok {plan : ReleasePlan}
    (h : releaseSharedNoWaiters old = .ok plan) :
    isWaiting old = false ∧ high old ≠ 0#60 ∧ plan.wake = false ∧
      (if high old = 1#60 then plan.new = 0#64
        else Parts plan.new true false false false (high old - 1) ∧
          (high plan.new).toNat + 1 = (high old).toNat) := by
  obtain ⟨hvalid, h⟩ := validate_bind_eq_ok h
  obtain ⟨hshared, h⟩ := Result.guard_eq_ok h
  simp at hshared
  obtain ⟨hwaiting, hhigh⟩ := hshared
  cases h
  refine ⟨hwaiting, hhigh, rfl, ?_⟩
  split
  case isTrue hone => simp [hone]
  case isFalse hmany =>
    have hne : ¬ old >>> 4 = 1#64 := by simpa using hmany
    simp only [BitVec.ofNat_eq_ofNat, if_neg hne]
    simp only [Valid, hwaiting, Bool.false_eq_true, if_false] at hvalid
    have hlocked : isLocked old = true := by
      refine Bool.eq_false_or_eq_true _ |>.resolve_right fun hfree => hhigh ?_
      simp [hvalid.2.2 hfree]
    obtain ⟨hlocked', hwaiting', hwaking', hmultiple', hhigh'⟩ := add_shareInc (old - shareInc)
    rw [BitVec.sub_add_cancel] at hlocked' hwaiting' hwaking' hmultiple' hhigh'
    refine ⟨⟨?_, ?_, ?_, ?_, ?_⟩, ?_⟩
    · rw [← hlocked', hlocked]
    · rw [← hwaiting', hwaiting]
    · rw [← hwaking', hvalid.1]
    · rw [← hmultiple', hvalid.2.1]
    · rw [hhigh']
      exact (BitVec.add_sub_cancel _ _).symm
    · have hpos : 0 < (high old).toNat := by
        rw [Nat.pos_iff_ne_zero]
        exact fun hzero => hhigh (BitVec.eq_of_toNat_eq hzero)
      rw [toNat_high] at hpos ⊢
      have hinc : shareInc.toNat = 16 := rfl
      rw [toNat_high, BitVec.toNat_sub, hinc]
      have := old.isLt
      omega

theorem releaseSharedWaiting_eq_ok {remaining : ℤ} {plan : Option ReleasePlan}
    (h : releaseSharedWaiting old remaining = .ok plan) :
    isLocked old = true ∧ isWaiting old = true ∧
      plan = if remaining > 0 then none else some (releaseWaiting old) := by
  obtain ⟨-, h⟩ := validate_bind_eq_ok h
  obtain ⟨hheld, h⟩ := Result.guard_eq_ok h
  split at h
  · cases h
  · cases h
    simp [word_ext_iff] at hheld
    exact ⟨hheld.1, hheld.2, rfl⟩

theorem tryWake_eq_ok (h : tryWake old = .ok (some new)) :
    isLocked old = false ∧ isWaiting old = true ∧ isWaking old = false ∧
      Parts new false true true (isMultiple old) (high old) := by
  obtain ⟨-, h⟩ := validate_bind_eq_ok h
  simp only [Except.ok.injEq, Option.ite_none_right_eq_some, Option.some.injEq] at h
  obtain ⟨⟨hwaiting, hfree⟩, rfl⟩ := h
  simp [word_ext_iff] at hwaiting hfree
  refine ⟨hfree.1, hwaiting, hfree.2, ⟨?_, ?_, ?_, ?_, ?_⟩⟩ <;> simp [*]

theorem wakeAction_eq_ok {oldestExclusive hasPrevious : Bool} {decision : WakeDecision} :
    wakeAction old oldestExclusive hasPrevious = .ok decision →
    match decision with
    | .relocked new => isLocked old = true ∧ new = old &&& ~~~waking
    | .detachOldest _ => isLocked old = false ∧ hasPrevious = true
    | .detachAll new => isLocked old = false ∧ new = 0 := by
  intro h
  obtain ⟨-, h⟩ := validate_bind_eq_ok h
  split at h
  · cases h
  · obtain rfl := Except.ok.inj h
    cases hlocked : isLocked old <;> cases oldestExclusive <;> cases hasPrevious <;> simp [hlocked]

theorem parts_clear_waking (w : U64) :
    Parts (w &&& ~~~waking) (isLocked w) (isWaiting w) false (isMultiple w) (high w) := by
  constructor <;> simp

end Plans

end UserspaceNtos.PushLock
