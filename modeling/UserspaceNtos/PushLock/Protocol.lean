import UserspaceNtos.PushLock.Policy
import UserspaceNtos.Lib.IntrusiveQueue

/-!
# The push-lock protocol

What the native adapter does with the plans, one atomic access at a time.  A thread's local
state is the place in its code together with what it has read; the shared memory is the lock
word and the wait blocks.  `Step` is one access by one thread, and a run is any interleaving.

Histories that the program itself does not keep are `queue`, the published blocks that are not
detached, the newest first; `pending`, the blocks that a thread has detached and not yet
signalled; and the lists of everything that was ever published and detached.
-/

namespace UserspaceNtos.PushLock

open IntrusiveQueue (Links)

/-! ## Threads -/

/-- Where a thread goes on after it has woken others. -/
inductive After
  | idle
  | holding (shared : Bool)
  | park (shared : Bool) (node : U64)
  deriving DecidableEq, Repr

/-- What the oldest block is looked for. -/
inductive Purpose
  | wake (after : After)
  | optimize (after : After)
  | release (shared generic : Bool)
  deriving DecidableEq, Repr

/-- Places in the code of the adapter; the name tells the access that comes next. -/
inductive Local
  | idle
  | holding (shared : Bool)
  /-- `acquire`: read the word. -/
  | acquire (shared : Bool) (node : Option U64)
  | acquiring (shared : Bool) (node : Option U64) (old : U64)
  /-- The block is filled in; publish it. -/
  | queueing (shared : Bool) (node old : U64) (plan : QueuePlan)
  | park (shared : Bool) (node : U64)
  /-- Blocked until the block's event is set. -/
  | waiting (shared : Bool) (node : U64)
  /-- `oldest`: read `last`, then `next`, then set the pointer back. -/
  | walk (purpose : Purpose) (old cur : U64)
  | walkNext (purpose : Purpose) (old cur : U64)
  | walkLink (purpose : Purpose) (old cur next : U64)
  /-- `wake`: read the pointer back and the flags of the oldest block, then act. -/
  | wakePrevious (after : After) (old tail : U64)
  | wakeFlags (after : After) (old tail previous : U64)
  | wakeAct (after : After) (old tail previous : U64) (decision : WakeDecision)
  | detachTail (after : After) (tail : U64)
  | detachClear (after : After) (tail : U64)
  | signal (after : After) (node : U64)
  | signalClear (after : After) (node previous : U64)
  | signalSet (after : After) (node previous : U64)
  /-- `optimize`: the head remembers the oldest block, then `waking` is cleared. -/
  | optimizeStore (after : After) (old tail : U64)
  | optimizeSwap (after : After) (old : U64)
  /-- `release`: read the word; `remaining` is what a decrement of the share count left. -/
  | release (shared generic : Bool)
  | releasing (shared generic : Bool) (old : U64) (remaining : Option ℤ)
  | releaseShare (shared generic : Bool) (old tail : U64)
  /-- `try_wake`. -/
  | tryWake (after : After)
  | tryWaking (after : After) (old : U64)
  deriving DecidableEq, Repr

/-- Where a thread goes on. -/
def After.resume : After → Local
  | idle => .idle
  | holding shared => .holding shared
  | park shared node => .park shared node

/-- The start of a wake. -/
def wake (after : After) (old : U64) : Local := .walk (.wake after) old (pointer old)

/-- The start of an optimization of the list. -/
def optimize (after : After) (old : U64) : Local :=
  if old &&& locked = 0 then wake after old else .walk (.optimize after) old (pointer old)

/-- The oldest block is found. -/
def Purpose.found (old tail : U64) : Purpose → Local
  | wake after => .wakePrevious after old tail
  | optimize after => .optimizeStore after old tail
  | release shared generic => .releaseShare shared generic old tail

/-- The next detached block, if there is one. -/
def signalNext (after : After) (previous : U64) : Local :=
  if previous = 0 then after.resume else .signal after previous

/-- The decision on an acquire of this kind. -/
def acquirePlan (shared : Bool) (old node : U64) : Except PushLockError AcquireDecision :=
  if shared then acquireShared old node else acquireExclusive old node

/-- The share count has to be decremented before the plan can be made. -/
def needsCount (shared generic : Bool) (old : U64) (remaining : Option ℤ) : Bool :=
  (shared || generic) && decide (old &&& waiting ≠ 0) && decide (old &&& multipleShared ≠ 0) &&
    remaining.isNone

/-- The generic release does not know how the lock is held; `shared` is the caller's knowledge
if it is not generic. -/
def releasePlan (shared generic : Bool) (old : U64) (remaining : Option ℤ) :
    Except PushLockError (Option ReleasePlan) :=
  if (shared || generic) && decide (old &&& waiting ≠ 0) then
    releaseSharedWaiting old (if old &&& multipleShared ≠ 0 then remaining.getD 0 else 0)
  else if (shared && !generic) || (generic && decide (old &&& ~~~ptrBits ≠ 0)) then
    (releaseSharedNoWaiters old).map some
  else (releaseExclusive old).map some

/-! ## Shared memory -/

/-- The lock word, the wait blocks and the places of the threads. -/
structure State (T : Type) where
  word : U64
  links : Links U64
  shares : U64 → ℤ
  flags : U64 → BitVec 32
  event : U64 → Bool
  thread : T → Local
  queue : List U64
  pending : T → List U64
  published : List U64
  detached : List U64

namespace State

variable {T : Type} [DecidableEq T]

/-- An unlocked lock that no thread is at. -/
def initial (links : Links U64) (shares : U64 → ℤ) (flags : U64 → BitVec 32)
    (event : U64 → Bool) : State T :=
  { word := 0, links, shares, flags, event, thread := fun _ => .idle, queue := []
    pending := fun _ => [], published := [], detached := [] }

/-- The thread moves on. -/
def goto (s : State T) (t : T) (place : Local) : State T :=
  { s with thread := Function.update s.thread t place }

/-- A write of a next field. -/
def setNext (s : State T) (node value : U64) : State T :=
  { s with links := { s.links with next := Function.update s.links.next node value } }

/-- A write of a last field. -/
def setLast (s : State T) (node value : U64) : State T :=
  { s with links := { s.links with last := Function.update s.links.last node value } }

/-- A write of a previous field. -/
def setPrevious (s : State T) (node value : U64) : State T :=
  { s with links := { s.links with previous := Function.update s.links.previous node value } }

/-- A write of a share count. -/
def setShares (s : State T) (node : U64) (value : ℤ) : State T :=
  { s with shares := Function.update s.shares node value }

/-- A write of the flags of a block. -/
def setFlags (s : State T) (node : U64) (value : BitVec 32) : State T :=
  { s with flags := Function.update s.flags node value }

/-- A write of the event of a block. -/
def setEvent (s : State T) (node : U64) (value : Bool) : State T :=
  { s with event := Function.update s.event node value }

/-- The blocks a thread has taken off the list. -/
def setPending (s : State T) (t : T) (nodes : List U64) : State T :=
  { s with pending := Function.update s.pending t nodes }

/-- The stores of a plan into a block that is not published. -/
def fill (s : State T) (node : U64) (plan : QueuePlan) : State T :=
  ((((s.setNext node plan.next).setLast node plan.last).setPrevious node 0).setShares node
    plan.savedShared).setFlags node plan.flags

end State

/-- The block that a thread has for itself in an acquisition. -/
@[simp] def After.node : After → Option U64
  | park _ node => some node
  | _ => none

/-- The wait block of the thread during a walk. -/
@[simp] def Purpose.node : Purpose → Option U64
  | wake after | optimize after => after.node
  | release _ _ => none

/-- The wait block of the thread. -/
@[simp] def Local.node : Local → Option U64
  | acquire _ node | acquiring _ node _ => node
  | queueing _ node _ _ | park _ node | waiting _ node => some node
  | walk purpose _ _ | walkNext purpose _ _ | walkLink purpose _ _ _ => purpose.node
  | wakePrevious after _ _ | wakeFlags after _ _ _ | wakeAct after _ _ _ _ | detachTail after _
  | detachClear after _ | signal after _ | signalClear after _ _ | signalSet after _ _
  | optimizeStore after _ _ | optimizeSwap after _ | tryWake after | tryWaking after _ =>
    after.node
  | idle | holding _ | release _ _ | releasing _ _ _ _ | releaseShare _ _ _ _ => none

/-! ## Steps -/

section Steps

variable {T : Type} [DecidableEq T]

/-- One access of thread `t`. -/
inductive Step (t : T) (s : State T) : State T → Prop
  /- Acquisition. -/
  | beginAcquire {shared} (hat : s.thread t = .idle) : Step t s (s.goto t (.acquire shared none))
  | loadAcquire {shared node} (hat : s.thread t = .acquire shared node) :
      Step t s (s.goto t (.acquiring shared node s.word))
  | acquired {shared node old new} (hat : s.thread t = .acquiring shared node old)
      (hplan : acquirePlan shared old (node.getD 16) = .ok (.acquire new)) (hswap : s.word = old) :
      Step t s ({ s with word := new }.goto t (.holding shared))
  | acquireAgain {shared node old new} (hat : s.thread t = .acquiring shared node old)
      (hplan : acquirePlan shared old (node.getD 16) = .ok (.acquire new)) (hswap : s.word ≠ old) :
      Step t s (s.goto t (.acquiring shared node s.word))
  | allocate {shared old plan node} (hat : s.thread t = .acquiring shared none old)
      (hplan : acquirePlan shared old 16 = .ok (.queue plan)) (haddress : IsAddress node)
      (hfree : ∀ t, (s.thread t).node ≠ some node) :
      Step t s ((s.setEvent node false).goto t (.acquire shared (some node)))
  | fill {shared node old plan} (hat : s.thread t = .acquiring shared (some node) old)
      (hplan : acquirePlan shared old node = .ok (.queue plan)) :
      Step t s ((s.fill node plan).goto t (.queueing shared node old plan))
  | publish {shared node old plan} (hat : s.thread t = .queueing shared node old plan)
      (hswap : s.word = old) :
      Step t s ({ s with
        word := plan.new, queue := node :: s.queue, published := node :: s.published }.goto t
          (if plan.needsOptimize then optimize (.park shared node) plan.new
            else .park shared node))
  | publishAgain {shared node old plan} (hat : s.thread t = .queueing shared node old plan)
      (hswap : s.word ≠ old) : Step t s (s.goto t (.acquiring shared (some node) s.word))
  | park {shared node} (hat : s.thread t = .park shared node) :
      Step t s ((s.setFlags node (s.flags node &&& ~~~waiterWait)).goto t
        (if s.flags node &&& waiterWait ≠ 0 then .waiting shared node
          else .acquire shared (some node)))
  | resume {shared node} (hat : s.thread t = .waiting shared node)
      (hevent : s.event node = true) :
      Step t s ((s.setEvent node false).goto t (.acquire shared (some node)))
  /- The search for the oldest block. -/
  | walkEnd {purpose old cur} (hat : s.thread t = .walk purpose old cur)
      (hlast : s.links.last cur ≠ 0) :
      Step t s (s.goto t (purpose.found old (s.links.last cur)))
  | walkOn {purpose old cur} (hat : s.thread t = .walk purpose old cur)
      (hlast : s.links.last cur = 0) : Step t s (s.goto t (.walkNext purpose old cur))
  | walkNext {purpose old cur} (hat : s.thread t = .walkNext purpose old cur)
      (hnext : s.links.next cur ≠ 0) :
      Step t s (s.goto t (.walkLink purpose old cur (s.links.next cur)))
  | walkLink {purpose old cur next} (hat : s.thread t = .walkLink purpose old cur next) :
      Step t s ((s.setPrevious next cur).goto t (.walk purpose old next))
  /- Wakes. -/
  | wakePrevious {after old tail} (hat : s.thread t = .wakePrevious after old tail) :
      Step t s (s.goto t (.wakeFlags after old tail (s.links.previous tail)))
  | wakeFlags {after old tail previous decision}
      (hat : s.thread t = .wakeFlags after old tail previous)
      (hplan : wakeAction old (decide (s.flags tail &&& waiterExclusive ≠ 0))
        (decide (previous ≠ 0)) = .ok decision) :
      Step t s (s.goto t (.wakeAct after old tail previous decision))
  | relocked {after old tail previous new}
      (hat : s.thread t = .wakeAct after old tail previous (.relocked new))
      (hswap : s.word = old) : Step t s ({ s with word := new }.goto t after.resume)
  | detachAll {after old tail previous new}
      (hat : s.thread t = .wakeAct after old tail previous (.detachAll new))
      (hswap : s.word = old) :
      Step t s (({ s with
        word := new, queue := [], detached := s.queue ++ s.detached }.setPending t
          s.queue.reverse).goto t (.signal after tail))
  | wakeAgain {after old tail previous decision}
      (hat : s.thread t = .wakeAct after old tail previous decision)
      (hdecision : ∀ new, decision ≠ .detachOldest new) (hswap : s.word ≠ old) :
      Step t s (s.goto t (wake after s.word))
  | detachOldest {after old tail previous new}
      (hat : s.thread t = .wakeAct after old tail previous (.detachOldest new)) :
      Step t s ((({ s with
        queue := s.queue.dropLast, detached := tail :: s.detached }.setLast (pointer old)
          previous).setPending t [tail]).goto t (.detachTail after tail))
  | detachTail {after tail} (hat : s.thread t = .detachTail after tail) :
      Step t s ((s.setPrevious tail 0).goto t (.detachClear after tail))
  | detachClear {after tail} (hat : s.thread t = .detachClear after tail) :
      Step t s ({ s with word := s.word &&& ~~~waking }.goto t (.signal after tail))
  | signal {after node} (hat : s.thread t = .signal after node) :
      Step t s (s.goto t (.signalClear after node (s.links.previous node)))
  | signalClear {after node previous} (hat : s.thread t = .signalClear after node previous)
      (hwait : s.flags node &&& waiterWait ≠ 0) :
      Step t s (((s.setFlags node (s.flags node &&& ~~~waiterWait)).setPending t
        (s.pending t).tail).goto t (signalNext after previous))
  | signalWaiting {after node previous} (hat : s.thread t = .signalClear after node previous)
      (hwait : s.flags node &&& waiterWait = 0) :
      Step t s ((s.setFlags node (s.flags node &&& ~~~waiterWait)).goto t
        (.signalSet after node previous))
  | signalSet {after node previous} (hat : s.thread t = .signalSet after node previous) :
      Step t s (((s.setEvent node true).setPending t (s.pending t).tail).goto t
        (signalNext after previous))
  /- Optimization. -/
  | optimizeStore {after old tail} (hat : s.thread t = .optimizeStore after old tail) :
      Step t s ((s.setLast (pointer old) tail).goto t (.optimizeSwap after old))
  | optimized {after old} (hat : s.thread t = .optimizeSwap after old) (hswap : s.word = old) :
      Step t s ({ s with word := old &&& ~~~waking }.goto t after.resume)
  | optimizeAgain {after old} (hat : s.thread t = .optimizeSwap after old)
      (hswap : s.word ≠ old) : Step t s (s.goto t (optimize after s.word))
  /- Release. -/
  | beginRelease {shared generic} (hat : s.thread t = .holding shared) :
      Step t s (s.goto t (.release shared generic))
  | loadRelease {shared generic} (hat : s.thread t = .release shared generic) :
      Step t s (s.goto t (.releasing shared generic s.word none))
  | releaseWalk {shared generic old remaining}
      (hat : s.thread t = .releasing shared generic old remaining)
      (hcount : needsCount shared generic old remaining = true) :
      Step t s (s.goto t (.walk (.release shared generic) old (pointer old)))
  | releaseShare {shared generic old tail}
      (hat : s.thread t = .releaseShare shared generic old tail) (hshares : 0 < s.shares tail) :
      Step t s ((s.setShares tail (s.shares tail - 1)).goto t
        (.releasing shared generic old (some (s.shares tail - 1))))
  | releasedOne {shared generic old remaining}
      (hat : s.thread t = .releasing shared generic old remaining)
      (hcount : needsCount shared generic old remaining = false)
      (hplan : releasePlan shared generic old remaining = .ok none) : Step t s (s.goto t .idle)
  | released {shared generic old remaining plan}
      (hat : s.thread t = .releasing shared generic old remaining)
      (hcount : needsCount shared generic old remaining = false)
      (hplan : releasePlan shared generic old remaining = .ok (some plan)) (hswap : s.word = old) :
      Step t s ({ s with word := plan.new }.goto t
        (if plan.wake then wake .idle plan.new else .idle))
  | releaseAgain {shared generic old remaining plan}
      (hat : s.thread t = .releasing shared generic old remaining)
      (hcount : needsCount shared generic old remaining = false)
      (hplan : releasePlan shared generic old remaining = .ok (some plan)) (hswap : s.word ≠ old) :
      Step t s (s.goto t (.releasing shared generic s.word remaining))
  /- The wake by a thread that has nothing to release. -/
  | beginTryWake {after} (hat : s.thread t = After.resume after)
      (hafter : ∀ shared node, after ≠ .park shared node) : Step t s (s.goto t (.tryWake after))
  | loadTryWake {after} (hat : s.thread t = .tryWake after) :
      Step t s (s.goto t (.tryWaking after s.word))
  | tryWakeNothing {after old} (hat : s.thread t = .tryWaking after old)
      (hplan : tryWake old = .ok none) : Step t s (s.goto t after.resume)
  | tryWakeClaim {after old new} (hat : s.thread t = .tryWaking after old)
      (hplan : tryWake old = .ok (some new)) (hswap : s.word = old) :
      Step t s ({ s with word := new }.goto t (wake after new))
  | tryWakeLost {after old new} (hat : s.thread t = .tryWaking after old)
      (hplan : tryWake old = .ok (some new)) (hswap : s.word ≠ old) :
      Step t s (s.goto t after.resume)

/-- States that interleavings of the threads reach. -/
inductive Reachable : State T → Prop
  | initial (links : Links U64) (shares : U64 → ℤ) (flags : U64 → BitVec 32)
      (event : U64 → Bool) : Reachable (.initial links shares flags event)
  | step {s s' : State T} (t : T) (hreachable : Reachable s) (hstep : Step t s s') : Reachable s'

end Steps

end UserspaceNtos.PushLock
