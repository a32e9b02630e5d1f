import UserspaceNtos.IoCompletion.FileTable
import UserspaceNtos.Lib.Result

/-!
# The life of an open file

What the callers of the table see of one file is the sequence of their calls and of the
replies.  `Lifecycle` is what that sequence says about the file so far: how far its close
has come, who has the Busy lock, who waits.  It is read off the calls and the replies alone
(`Lifecycle.after`), never off the table.

`Discipline` says what a reply may be, given the life of the file up to it: Busy goes to one
thread at a time and in order, a grant is used once, the cleanup and the close are each
reported once and at the right moment.

The proof is a simulation.  `EntryAgrees` says that an entry of the table and the life of its
file are the same thing in two forms; every function of the table keeps it, and with it the
reply of the function obeys the discipline.  The table as a whole follows, since a function
changes the entry of one file only.
-/

namespace UserspaceNtos.IoCompletion

open FileIoSerialization

/-! ## The life of a file as its callers see it -/

/-- Where a file is in its life. -/
inductive Phase
  | absent
  | reserved
  | opened
  /-- The last handle is closed and the cleanup holds its reference. -/
  | closing
  /-- The cleanup is over, operations may still hold references. -/
  | finished
  deriving DecidableEq, Repr

/-- The Busy lock: free, a thread's, promised to a thread, or the cleanup's. -/
inductive Busy
  | free
  | owned (tid : ℕ)
  | granted (tid : ℕ)
  | cleanup
  deriving DecidableEq, Repr

/-- What the table is for: the life of one file. -/
structure Lifecycle where
  phase : Phase := .absent
  synchronous : Bool := false
  handles : ℕ := 0
  /-- References that are not handles, nor the cleanup's. -/
  operations : ℕ := 0
  busy : Busy := .free
  waiters : ℕ := 0
  cleanupWaiting : Bool := false
  cleanupStarted : Bool := false
  deriving DecidableEq, Repr

namespace Lifecycle

/-- An operation was admitted: past the lock, into the lock, or to the waiters. -/
@[simp] def admitted (s : Lifecycle) (tid : ℕ) : FileIoAcquireResult → Lifecycle
  | .bypassed => s
  | .acquired => { s with busy := .owned tid }
  | .contended _ => { s with waiters := s.waiters + 1 }

/-- The file after the lock was requested for its cleanup. -/
@[simp] def cleanupAdmitted (s : Lifecycle) : FileIoAcquireResult → Lifecycle
  | .bypassed => s
  | .acquired => { s with busy := .cleanup }
  | .contended _ => { s with cleanupWaiting := true }

/-- The life of a file after a call that succeeded. -/
@[simp] def after (s : Lifecycle) : FileOp → FileReply → Lifecycle
  | .insertFileWithMode _ _ mode, _ =>
    if s.phase = .absent then
      { phase := .opened, synchronous := mode.isSynchronous, handles := 1 }
    else { s with handles := s.handles + 1 }
  | .reserveFileHandlePublicationWithMode _ _ mode, _ =>
    { phase := .reserved, synchronous := mode.isSynchronous }
  | .commitReservedFileHandle _, _ => { s with phase := .opened, handles := 1 }
  | .cancelReservedFileHandle _, _ => {}
  | .retainHandle _, _ => { s with handles := s.handles + 1 }
  | .retainFile _, _ => { s with operations := s.operations + 1 }
  | .releaseFile _, .released release =>
    if release.closeRequired then {} else { s with operations := s.operations - 1 }
  | .releaseHandle _, .released release =>
    if release.closeRequired then {}
    else if release.cleanupRequired then
      { s with handles := s.handles - 1, phase := .closing }
    else { s with handles := s.handles - 1 }
  | .releaseCleanupReference _, .released release =>
    if release.closeRequired then {} else { s with phase := .finished, cleanupStarted := false }
  | .beginIo _ tid, .admission result => s.admitted tid result
  | .acquireFileIo _ tid, .admission result
  | .acquireFileIoWithMode _ tid _, .admission result =>
    { s.admitted tid result with operations := s.operations + 1 }
  | .adoptIoGrant _ tid, _ => { s with busy := .owned tid }
  | .beginCleanup _, .admission result => s.cleanupAdmitted result
  | .cancelIoWaiter _, _ => { s with waiters := s.waiters - 1 }
  | .promoteIoWaiter _ tid, _ => { s with waiters := s.waiters - 1, busy := .granted tid }
  | .promoteCleanupIfReady _, .flag true => { s with cleanupWaiting := false, busy := .cleanup }
  | .markCleanupLifecycleStarted _, _ => { s with cleanupStarted := true }
  | .releaseIo _ _, _ | .releaseCleanupIo _, _ | .cancelPromotedIo _ _, _ =>
    { s with busy := .free }
  | _, _ => s

/-- A call that failed says nothing. -/
def observe (s : Lifecycle) (op : FileOp) : Except FileStatus FileReply → Lifecycle
  | .error _ => s
  | .ok reply => s.after op reply

end Lifecycle

/-! ## The discipline -/

/-- The thread that comes to own the Busy lock. -/
@[simp] def takesBusy : FileOp → FileReply → Option ℕ
  | .beginIo _ tid, .admission .acquired | .acquireFileIo _ tid, .admission .acquired
  | .acquireFileIoWithMode _ tid _, .admission .acquired | .adoptIoGrant _ tid, _ => some tid
  | _, _ => none

/-- The thread that is promised the Busy lock. -/
@[simp] def promotes : FileOp → Option ℕ
  | .promoteIoWaiter _ tid => some tid
  | _ => none

/-- The thread whose grant is adopted. -/
@[simp] def adopts : FileOp → Option ℕ
  | .adoptIoGrant _ tid => some tid
  | _ => none

/-- The thread whose grant is cancelled. -/
@[simp] def cancelsGrant : FileOp → Option ℕ
  | .cancelPromotedIo _ tid => some tid
  | _ => none

/-- The thread that gives the Busy lock back. -/
@[simp] def releasesBusy : FileOp → Option ℕ
  | .releaseIo _ tid => some tid
  | _ => none

/-- An ordinary operation is let in, or goes on with its grant. -/
@[simp] def admits : FileOp → Bool
  | .beginIo _ _ | .acquireFileIo _ _ | .acquireFileIoWithMode _ _ _ => true
  | _ => false

/-- The cleanup comes to own the Busy lock. -/
@[simp] def takesCleanupBusy : FileOp → FileReply → Bool
  | .beginCleanup _, .admission .acquired | .promoteCleanupIfReady _, .flag true => true
  | _, _ => false

/-- A handle of the file is made. -/
@[simp] def addsHandle : FileOp → Bool
  | .insertFileWithMode _ _ _ | .retainHandle _ | .commitReservedFileHandle _ => true
  | _ => false

/-- The reply asks for a cleanup. -/
@[simp] def requestsCleanup : FileReply → Bool
  | .released release => release.cleanupRequired
  | _ => false

/-- The reply reports the close. -/
@[simp] def reportsClose : FileReply → Bool
  | .released release => release.closeRequired
  | _ => false

/-- What a call may have answered, given the life of the file before the call. -/
structure Discipline (s : Lifecycle) (op : FileOp) (reply : FileReply) : Prop where
  /-- Busy goes to a thread when it is free, or when it was promised to this thread. -/
  one_owner : ∀ tid, takesBusy op reply = some tid → s.busy = .free ∨ s.busy = .granted tid
  /-- A free lock is not taken while somebody waits for it. -/
  no_overtaking : ∀ tid, takesBusy op reply = some tid → s.busy = .free →
    s.waiters = 0 ∧ s.cleanupWaiting = false
  /-- It is promised to a waiter, once it is free. -/
  promoted : ∀ tid, promotes op = some tid → s.busy = .free ∧ 0 < s.waiters
  /-- Only an existing grant is adopted, and only its thread adopts it. -/
  grant_adopted : ∀ tid, adopts op = some tid → s.busy = .granted tid
  grant_cancelled : ∀ tid, cancelsGrant op = some tid → s.busy = .granted tid
  /-- A grant stays until it is used or cancelled. -/
  grant_kept : ∀ tid, s.busy = .granted tid → (s.after op reply).busy = .granted tid ∨
    takesBusy op reply = some tid ∨ cancelsGrant op = some tid
  busy_released : ∀ tid, releasesBusy op = some tid → s.busy = .owned tid
  /-- The cleanup is requested by the close of the last handle, and by nothing else. -/
  cleanup_requested : requestsCleanup reply = true ↔
    op = .releaseHandle op.fileId ∧ s.phase = .opened ∧ s.handles = 1
  /-- No handle is made once the last one is closed. -/
  handle_added : addsHandle op = true →
    s.phase = .absent ∨ s.phase = .reserved ∨ s.phase = .opened
  /-- The cleanup gets Busy when every operation before it is out. -/
  cleanup_drained : takesCleanupBusy op reply = true →
    s.phase = .closing ∧ s.busy = .free ∧ s.waiters = 0
  /-- From then on no ordinary operation comes in; one that was promoted may go on. -/
  admitted_in_time : admits op = true → s.phase = .reserved ∨ s.phase = .opened ∨
    ∃ tid, takesBusy op reply = some tid ∧ s.busy = .granted tid
  /-- The cleanup's reference goes when the cleanup has run and gave Busy back. -/
  cleanup_over : op = .releaseCleanupReference op.fileId →
    s.phase = .closing ∧ s.cleanupStarted = true ∧ s.busy = .free ∧ s.waiters = 0
  /-- The close is reported with the last reference, after the cleanup. -/
  close_reported : reportsClose reply = true ↔
    (op = .releaseFile op.fileId ∧ s.phase = .finished ∧ s.operations = 1) ∨
    (op = .releaseCleanupReference op.fileId ∧ s.operations = 0)
  close_idle : reportsClose reply = true → s.busy = .free ∧ s.waiters = 0

/-! ## Runs -/

/-- What the callers know of all files. -/
abbrev FileWorld := ℕ → Lifecycle

/-- A call and its answer change the file they are about. -/
def FileWorld.observe (w : FileWorld) (op : FileOp) (answer : Except FileStatus FileReply) :
    FileWorld :=
  Function.update w op.fileId ((w op.fileId).observe op answer)

namespace Busy

/-- The number the lock has as its owner. -/
def owner : Busy → ℕ
  | free => 0
  | owned tid | granted tid => tid
  | cleanup => cleanupLockOwner

/-- The thread the lock is promised to. -/
def grant : Busy → ℕ
  | granted tid => tid
  | _ => 0

end Busy

/-- The lock fields of the entry. -/
def Lifecycle.serialization (s : Lifecycle) : FileIoSerialization where
  ownerTid := s.busy.owner
  grantTid := s.busy.grant
  waiters := s.waiters
  cleanupWaiting := s.cleanupWaiting

/-- The table's observers report the files as the calls and replies left them. -/
def Reported (t : FileCompletionTable) (w : FileWorld) : Prop :=
  ∀ f, if (w f).phase = .absent then t.entry f = none else
    t.ioLockOwner f = .ok (w f).serialization.ioLockOwner ∧
    t.ioGrantOwner f = .ok (w f).serialization.ioGrantOwner ∧
    t.ioWaiterCount f = .ok (w f).waiters

/-- Every call of a run meets a condition on its file's life and the call itself. -/
def EveryCall (condition : Lifecycle → FileOp → Prop) :
    FileCompletionTable → FileWorld → List FileOp → Prop
  | _, _, [] => True
  | t, w, op :: ops => condition (w op.fileId) op ∧
      ∀ answer t', op.call t = some (answer, t') → EveryCall condition t' (w.observe op answer) ops

/-- A run that never panics, whose replies obey the discipline, and after whose every call the
table reports what the callers know. -/
def Orderly : FileCompletionTable → FileWorld → List FileOp → Prop
  | t, w, [] => Reported t w
  | t, w, op :: ops => Reported t w ∧ ∃ answer t', op.call t = some (answer, t') ∧
      (∀ reply, answer = .ok reply → Discipline (w op.fileId) op reply) ∧
      Orderly t' (w.observe op answer) ops

/-- The table and the callers' knowledge after a run; `none` is a panic. -/
def runCalls : FileCompletionTable → FileWorld → List FileOp →
    Option (FileCompletionTable × FileWorld)
  | t, w, [] => some (t, w)
  | t, w, op :: ops => (op.call t).bind fun (answer, t') => runCalls t' (w.observe op answer) ops

theorem Orderly.append {ops more : List FileOp} {t : FileCompletionTable} {w : FileWorld}
    (h : Orderly t w (ops ++ more)) :
    ∃ t' w', runCalls t w ops = some (t', w') ∧ Orderly t' w' more := by
  induction ops generalizing t w with
  | nil => exact ⟨t, w, rfl, h⟩
  | cons op ops ih =>
    obtain ⟨-, answer, t', hcall, -, hrest⟩ := h
    obtain ⟨t'', w'', hrun, horderly⟩ := ih hrest
    refine ⟨t'', w'', ?_, horderly⟩
    rw [runCalls, hcall]
    exact hrun

instance EveryCall.decidable {condition : Lifecycle → FileOp → Prop}
    [∀ s op, Decidable (condition s op)] :
    ∀ t w ops, Decidable (EveryCall condition t w ops)
  | _, _, [] => isTrue trivial
  | t, w, op :: ops =>
    match h : op.call t with
    | none => decidable_of_iff (condition (w op.fileId) op) (by simp [EveryCall, h])
    | some (answer, t') =>
      have : Decidable (EveryCall condition t' (w.observe op answer) ops) :=
        EveryCall.decidable t' (w.observe op answer) ops
      decidable_of_iff
        (condition (w op.fileId) op ∧ EveryCall condition t' (w.observe op answer) ops)
        (by simp [EveryCall, h])

/-- A reference that is dropped was taken before. -/
def OwnsReference (s : Lifecycle) : FileOp → Prop
  | .releaseFile _ => 0 < s.operations
  | _ => True

/-- The calls that the table admits although it should refuse them: ordinary I/O on a file
whose cleanup is over, and the cancellation of a reservation that has I/O of its own. -/
def InTime (s : Lifecycle) : FileOp → Prop
  | .beginIo _ _ => s.phase ≠ .finished
  | .cancelReservedFileHandle _ => s.busy = .free ∧ s.waiters = 0
  | _ => True

instance (s : Lifecycle) (op : FileOp) : Decidable (OwnsReference s op) :=
  match op with
  | .releaseFile _ => inferInstanceAs (Decidable (0 < s.operations))
  | .insertFileWithMode .. | .reserveFileHandlePublicationWithMode ..
  | .commitReservedFileHandle .. | .cancelReservedFileHandle .. | .retainHandle ..
  | .retainFile .. | .releaseHandle .. | .releaseCleanupReference .. | .associate ..
  | .beginIo .. | .acquireFileIo .. | .acquireFileIoWithMode .. | .adoptIoGrant ..
  | .beginCleanup .. | .cancelIoWaiter .. | .promoteIoWaiter .. | .promoteCleanupIfReady ..
  | .markCleanupLifecycleStarted .. | .releaseIo .. | .releaseCleanupIo ..
  | .cancelPromotedIo .. | .updateIoModeWith .. => isTrue trivial

instance (s : Lifecycle) (op : FileOp) : Decidable (InTime s op) :=
  match op with
  | .beginIo _ _ => inferInstanceAs (Decidable (s.phase ≠ .finished))
  | .cancelReservedFileHandle _ => inferInstanceAs (Decidable (s.busy = .free ∧ s.waiters = 0))
  | .insertFileWithMode .. | .reserveFileHandlePublicationWithMode ..
  | .commitReservedFileHandle .. | .retainHandle .. | .retainFile .. | .releaseFile ..
  | .releaseHandle .. | .releaseCleanupReference .. | .associate .. | .acquireFileIo ..
  | .acquireFileIoWithMode .. | .adoptIoGrant .. | .beginCleanup .. | .cancelIoWaiter ..
  | .promoteIoWaiter .. | .promoteCleanupIfReady .. | .markCleanupLifecycleStarted ..
  | .releaseIo .. | .releaseCleanupIo .. | .cancelPromotedIo .. | .updateIoModeWith .. =>
    isTrue trivial

/-! ## The simulation of one entry -/

/-- Facts about the life of a file that every run keeps. -/
structure Lifecycle.WellFormed (s : Lifecycle) : Prop where
  thread : ∀ tid, s.busy = .owned tid ∨ s.busy = .granted tid → tid ≠ 0 ∧ tid ≠ cleanupLockOwner
  handles : s.phase = .opened ↔ 0 < s.handles
  asynchronous : s.synchronous = false →
    s.busy = .free ∧ s.waiters = 0 ∧ s.cleanupWaiting = false
  cleanup : s.busy = .cleanup → s.phase = .closing ∧ s.waiters = 0 ∧ s.cleanupWaiting = false
  waiting : s.cleanupWaiting = true → s.phase = .closing
  started : s.cleanupStarted = true → s.phase = .closing ∧
    (s.busy = .free ∨ s.busy = .cleanup) ∧ s.waiters = 0 ∧ s.cleanupWaiting = false
  finished : s.phase = .finished → s.busy = .free ∧ s.waiters = 0 ∧ 0 < s.operations
  present : s.phase ≠ .absent
  reserved : s.phase = .reserved → s.operations = 0

/-- The references that are not operations': the handles', the cleanup's or the
reservation's. -/
def Lifecycle.anchors (s : Lifecycle) : ℕ :=
  match s.phase with
  | .closing | .reserved => 1
  | _ => s.handles

/-- An entry of the table and the life of its file agree. -/
structure EntryAgrees (s : Lifecycle) (e : FileCompletionEntry) : Prop where
  wellFormed : s.WellFormed
  synchronous : e.ioMode.isSynchronous = s.synchronous
  handles : e.handleReferences = s.handles
  references : e.references = s.operations + s.anchors
  bound : e.references < 2 ^ 32
  reserved : e.handlePublicationReserved = decide (s.phase = .reserved)
  sent : e.cleanupSent = decide (s.phase = .closing ∨ s.phase = .finished)
  held : e.cleanupReferenceHeld = decide (s.phase = .closing)
  started : e.cleanupLifecycleStarted = s.cleanupStarted
  serialization : e.serialization = s.serialization

theorem EntryAgrees.references_pos {s : Lifecycle} {e : FileCompletionEntry}
    (h : EntryAgrees s e) : 0 < e.references := by
  have hwf := h.wellFormed
  have hrefs := h.references
  cases hphase : s.phase with
  | absent => exact absurd hphase hwf.present
  | reserved => simp only [Lifecycle.anchors, hphase] at hrefs; omega
  | opened =>
    have := hwf.handles.mp hphase
    simp only [Lifecycle.anchors, hphase] at hrefs
    omega
  | closing => simp only [Lifecycle.anchors, hphase] at hrefs; omega
  | finished =>
    have := (hwf.finished hphase).2.2
    omega

/-- An entry after a call: it agrees with the life of the file, or it is free and the file is
gone. -/
def Tracks (fileId : ℕ) (s : Lifecycle) (e : FileCompletionEntry) : Prop :=
  (e.references = 0 ∧ s = {}) ∨ (EntryAgrees s e ∧ e.fileId = fileId)

/-- A function of the table did to an entry what its reply says, and the reply obeys the
discipline. -/
def StepAgrees {α : Type} (s : Lifecycle) (op : FileOp) (wrap : α → FileReply)
    (outcome : Option (Except FileStatus α × FileCompletionEntry)) : Prop :=
  ∃ answer e, outcome = some (answer, e) ∧
    Tracks op.fileId (s.observe op (answer.map wrap)) e ∧
    ∀ value, answer = .ok value → Discipline s op (wrap value)

section Steps

variable {α : Type} {s : Lifecycle} {e e' : FileCompletionEntry} {op : FileOp}
  {wrap : α → FileReply} {status : FileStatus} {value : α}

theorem StepAgrees.refused (h : EntryAgrees s e) (hid : e.fileId = op.fileId) :
    StepAgrees s op wrap (some (.error status, e)) :=
  ⟨_, e, rfl, .inr ⟨h, hid⟩, fun _ hok => nomatch hok⟩

theorem StepAgrees.accepted (hdiscipline : Discipline s op (wrap value))
    (h : EntryAgrees (s.after op (wrap value)) e') (hid : e'.fileId = op.fileId) :
    StepAgrees s op wrap (some (.ok value, e')) := by
  refine ⟨_, e', rfl, .inr ⟨h, hid⟩, fun other hok => ?_⟩
  cases hok
  exact hdiscipline

/-- Most functions start with a check that refuses the call. -/
theorem StepAgrees.unless {c : Prop} [Decidable c]
    {outcome : Option (Except FileStatus α × FileCompletionEntry)} (h : EntryAgrees s e)
    (hid : e.fileId = op.fileId) (hrest : ¬ c → StepAgrees s op wrap outcome) :
    StepAgrees s op wrap (if c then some (.error status, e) else outcome) := by
  by_cases hc : c
  · rw [if_pos hc]
    exact .refused h hid
  · rw [if_neg hc]
    exact hrest hc

/-- A function that only works on the Busy lock. -/
theorem StepAgrees.onSerialization
    {f : FileIoSerialization → Except FileStatus (α × FileIoSerialization)}
    (h : EntryAgrees s e) (hid : e.fileId = op.fileId)
    (hf : ∀ value z, f s.serialization = .ok (value, z) → Discipline s op (wrap value) ∧
        EntryAgrees (s.after op (wrap value)) { e with serialization := z }) :
    StepAgrees s op wrap (FileCompletionEntry.onSerialization f e) := by
  unfold FileCompletionEntry.onSerialization
  rw [h.serialization]
  cases hresult : f s.serialization with
  | error status => exact .refused h hid
  | ok result =>
    obtain ⟨value, z⟩ := result
    obtain ⟨hdiscipline, hagrees⟩ := hf value z hresult
    exact .accepted hdiscipline hagrees hid

end Steps

/-! ## The Busy lock -/

section Lock

variable {s s' : Lifecycle} {e : FileCompletionEntry} {z : FileIoSerialization} {tid : ℕ}
  {mode : FileIoMode} {held : Bool} {result : FileIoAcquireResult}

theorem isReserved_eq_false : isReserved tid = false ↔ tid ≠ 0 ∧ tid ≠ cleanupLockOwner := by
  simp [isReserved]

namespace Lifecycle

theorem WellFormed.owner_eq_zero (hwf : s.WellFormed) :
    s.serialization.ownerTid = 0 ↔ s.busy = .free := by
  have hthread := hwf.thread
  cases hbusy : s.busy <;> grind [serialization, Busy.owner, cleanupLockOwner]

theorem granted_iff (htid : isReserved tid = false) :
    (s.serialization.ownerTid = tid ∧ s.serialization.grantTid = tid) ↔ s.busy = .granted tid := by
  rw [isReserved_eq_false] at htid
  cases hbusy : s.busy <;> grind [serialization, Busy.owner, Busy.grant]

theorem WellFormed.isCleanupOwner (hwf : s.WellFormed) :
    s.serialization.isCleanupOwner = true ↔ s.busy = .cleanup := by
  have hthread := hwf.thread
  cases hbusy : s.busy <;>
    grind [serialization, Busy.owner, cleanupLockOwner, FileIoSerialization.isCleanupOwner]

theorem WellFormed.hasLiveIo (hwf : s.WellFormed) :
    s.serialization.hasLiveIo = false ↔ s.busy = .free ∧ s.waiters = 0 := by
  have hthread := hwf.thread
  cases hbusy : s.busy <;> grind [serialization, Busy.owner, Busy.grant, cleanupLockOwner,
    FileIoSerialization.hasLiveIo]

/-- The four ways into a file; `held` tells that the cleanup holds its reference. -/
inductive Admission (s : Lifecycle) (tid : ℕ) (held : Bool) : FileIoAcquireResult → Prop
  | past (hsync : s.synchronous = false) (hheld : held = false) : Admission s tid held .bypassed
  | free (hsync : s.synchronous = true) (hheld : held = false) (hbusy : s.busy = .free)
      (hwaiters : s.waiters = 0) (hcleanup : s.cleanupWaiting = false) :
      Admission s tid held .acquired
  | grant (hsync : s.synchronous = true) (hbusy : s.busy = .granted tid) :
      Admission s tid held .acquired
  | queue (alertable : Bool) (hsync : s.synchronous = true) (hheld : held = false) :
      Admission s tid held (.contended alertable)

theorem WellFormed.beginIo_eq_ok (hwf : s.WellFormed) (hmode : mode.isSynchronous = s.synchronous)
    (h : s.serialization.beginIo mode tid held = .ok (result, z)) :
    (tid ≠ 0 ∧ tid ≠ cleanupLockOwner) ∧ z = (s.admitted tid result).serialization ∧
      Admission s tid held result := by
  obtain ⟨htid, h⟩ := Result.guard_eq_ok h
  rw [Bool.not_eq_true] at htid
  refine ⟨isReserved_eq_false.mp htid, ?_⟩
  simp only [hmode, granted_iff htid, hwf.owner_eq_zero] at h
  split at h
  case isTrue hsync =>
    obtain ⟨hheld, ⟨⟩⟩ := Result.guard_eq_ok h
    exact ⟨rfl, .past (by simpa using hsync) (by simpa using hheld)⟩
  case isFalse hsync =>
    have hsync : s.synchronous = true := by simpa using hsync
    obtain ⟨hheld, h⟩ := Result.guard_eq_ok h
    split at h
    case isTrue hfree =>
      obtain ⟨hbusy, hwaiters, hcleanup⟩ := hfree
      cases h
      have hheld : held = false := by simpa [hbusy] using hheld
      refine ⟨?_, .free hsync hheld hbusy hwaiters (by simpa [serialization] using hcleanup)⟩
      simp [serialization, Busy.owner, Busy.grant, hbusy]
    case isFalse hfree =>
      split at h
      case isTrue hgrant =>
        cases h
        refine ⟨?_, .grant hsync hgrant⟩
        simp [serialization, Busy.owner, Busy.grant, hgrant]
      case isFalse hgrant =>
        have hheld : held = false := by simpa [hgrant] using hheld
        unfold checkedSucc at h
        split at h
        case h_1 => cases h
        case h_2 waiters hsucc =>
          split at hsucc
          · cases hsucc
            cases h
            exact ⟨rfl, .queue _ hsync hheld⟩
          · cases hsucc

theorem WellFormed.admitted (hwf : s.WellFormed) (htid : tid ≠ 0 ∧ tid ≠ cleanupLockOwner)
    (hphase : s.phase ≠ .finished) (hheld : held = decide (s.phase = .closing))
    (hadmission : Admission s tid held result) : (s.admitted tid result).WellFormed := by
  obtain ⟨hthread, hhandles, hasync, hcleanup, hwaiting, hstarted, hfinished, hpresent,
    hreserved⟩ :=
    hwf
  cases hadmission <;> constructor <;> grind [Lifecycle.admitted]

end Lifecycle

/-- A step that only changes who has the Busy lock and who waits for it. -/
theorem EntryAgrees.withSerialization (h : EntryAgrees s e) {busy : Busy} {waiters : ℕ}
    {cleanupWaiting : Bool} (hwf : { s with busy, waiters, cleanupWaiting }.WellFormed)
    (hz : z = { s with busy, waiters, cleanupWaiting }.serialization) :
    EntryAgrees { s with busy, waiters, cleanupWaiting } { e with serialization := z } :=
  { h with wellFormed := hwf, serialization := hz }

end Lock

end UserspaceNtos.IoCompletion
