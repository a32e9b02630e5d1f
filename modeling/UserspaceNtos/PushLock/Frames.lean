import UserspaceNtos.PushLock.Protocol
import UserspaceNtos.Lib.Count

/-!
# Frames of the push-lock invariant

Most accesses change only the place of their thread, or a field of one block that no other
thread relies on.  The lemmas here say for each part of the invariant what it does not depend
on.
-/

namespace UserspaceNtos.PushLock

open IntrusiveQueue Count

/-!
## What holds in every state of a push lock

The invariant has four parts.  `Roles`: the word and the saved share count tell how many threads
hold the lock, and `waking` tells that one thread owns the right to wake.  `Queued`: the word
points to the queue, whose links are in order.  `Blocks`: which block belongs to which thread,
and whether its owner still has to be signalled.  `PlaceOk`: what a thread may rely on at its
place in the code.
-/

/-! ### What a place in the code says about its thread -/

/-- The thread holds the lock in this kind afterwards. -/
@[simp] def After.holds (kind : Bool) : After → Bool
  | holding shared => shared == kind
  | _ => false

/-- The thread holds the lock in this kind during the walk. -/
@[simp] def Purpose.holds (kind : Bool) : Purpose → Bool
  | wake after | optimize after => after.holds kind
  | release shared _ => shared == kind

/-- The thread holds the lock, shared or exclusively.  A shared holder has released its share
when it has decremented the saved count. -/
@[simp] def Local.holds (kind : Bool) : Local → Bool
  | holding shared | release shared _ | releaseShare shared _ _ _ => shared == kind
  | releasing shared _ _ remaining => remaining.isNone && shared == kind
  | walk purpose _ _ | walkNext purpose _ _ | walkLink purpose _ _ _ => purpose.holds kind
  | wakePrevious after _ _ | wakeFlags after _ _ _ | wakeAct after _ _ _ _ | detachTail after _
  | detachClear after _ | signal after _ | signalClear after _ _ | signalSet after _ _
  | optimizeStore after _ _ | optimizeSwap after _ | tryWake after | tryWaking after _ =>
    after.holds kind
  | idle | acquire _ _ | acquiring _ _ _ | queueing _ _ _ _ | park _ _ | waiting _ _ => false

/-- The last shared holder has decremented the count to zero and must unlock the word. -/
@[simp] def Local.finishing : Local → Bool
  | releasing _ _ _ remaining => decide (remaining = some 0)
  | _ => false

/-- The walk needs the waking bit. -/
@[simp] def Purpose.owns : Purpose → Bool
  | wake _ | optimize _ => true
  | release _ _ => false

/-- The thread owns the `waking` bit. -/
@[simp] def Local.owns : Local → Bool
  | walk purpose _ _ | walkNext purpose _ _ | walkLink purpose _ _ _ => purpose.owns
  | wakePrevious _ _ _ | wakeFlags _ _ _ _ | wakeAct _ _ _ _ _ | detachTail _ _ | detachClear _ _
  | optimizeStore _ _ _ | optimizeSwap _ _ => true
  | _ => false

/-- The walk is for a wake. -/
@[simp] def Purpose.wakes : Purpose → Bool
  | wake _ => true
  | _ => false

/-- The thread owns `waking` in order to wake. -/
@[simp] def Local.wakes : Local → Bool
  | walk purpose _ _ | walkNext purpose _ _ | walkLink purpose _ _ _ => purpose.wakes
  | wakePrevious _ _ _ | wakeFlags _ _ _ _ | wakeAct _ _ _ _ _ | detachTail _ _
  | detachClear _ _ => true
  | _ => false

/-- The thread signals blocks that it has detached. -/
@[simp] def Local.signals : Local → Bool
  | detachTail _ _ | detachClear _ _ | signal _ _ | signalClear _ _ _ | signalSet _ _ _ => true
  | _ => false

/-- The thread's block was published and the thread has not yet come back from it. -/
@[simp] def Local.enqueued (place : Local) : Option U64 :=
  match place with
  | acquire _ _ | acquiring _ _ _ | queueing _ _ _ _ => none
  | _ => place.node

/-- The thread is in an acquisition and will look at the word again. -/
@[simp] def Local.acquires : Local → Bool
  | acquire _ _ | acquiring _ _ _ | queueing _ _ _ _ => true
  | _ => false

/-- The thread waits for its event. -/
@[simp] def Local.parked : Local → Bool
  | waiting _ _ => true
  | _ => false

/-! ### The invariant -/

section Invariant

variable {T : Type}

/-- A block is in the queue or detached and not yet signalled. -/
def Listed (s : State T) (node : U64) : Prop :=
  node ∈ s.queue ∨ ∃ t, node ∈ s.pending t

/-- How many threads hold the lock, by a word and the share count that the oldest waiter saves. -/
def Encodes (w : U64) (saved : ℤ) (exclusive shared finishing : ℕ) : Prop :=
  if isWaiting w then
    if isLocked w then
      if isMultiple w then
        exclusive = 0 ∧ (shared : ℤ) = saved ∧ finishing = if saved = 0 then 1 else 0
      else exclusive + shared = 1 ∧ finishing = 0
    else exclusive = 0 ∧ shared = 0 ∧ finishing = 0
  else finishing = 0 ∧
    if isLocked w then
      if high w = 0#60 then exclusive = 1 ∧ shared = 0
      else exclusive = 0 ∧ shared = (high w).toNat
    else exclusive = 0 ∧ shared = 0

/-- The share count that the oldest waiter saves. -/
def State.saved (s : State T) : ℤ :=
  (s.queue.getLast?.map s.shares).getD 0

/-- The word agrees with what the threads hold. -/
structure Roles [Fintype T] (s : State T) : Prop where
  valid : Valid s.word
  encodes : Encodes s.word s.saved (count (Local.holds false) s.thread)
    (count (Local.holds true) s.thread) (count Local.finishing s.thread)
  owner : count Local.owns s.thread = (isWaking s.word).toNat
  waker : ∀ t, (s.thread t).wakes = true → isMultiple s.word = false

/-- The word points to the newest block. -/
def Heads (w : U64) : List U64 → Prop
  | [] => isWaiting w = false
  | node :: _ => isWaiting w = true ∧ high w = high node

/-- The word points to the wait list, which is linked. -/
structure Queued (s : State T) : Prop where
  heads : Heads s.word s.queue
  linked : Linked 0 s.links s.queue
  /-- While several threads share the lock, no block has been detached. -/
  many : isMultiple s.word = true → ∀ tail ∈ s.queue.getLast?,
    s.links.last tail = tail ∧ ∀ node ∈ s.queue, s.links.last node = 0 ∨ s.links.last node = tail

/-- No block is listed twice. -/
structure Lists (s : State T) : Prop where
  nodup : s.queue.Nodup
  pendingNodup : ∀ t, (s.pending t).Nodup
  apart : ∀ t, ∀ node ∈ s.pending t, node ∉ s.queue
  distinct : ∀ t u node, node ∈ s.pending t → node ∈ s.pending u → t = u

/-- Every wait block has one owner, and an event is set once its block has left the list. -/
structure Blocks (s : State T) : Prop extends Lists s where
  address : ∀ t node, (s.thread t).node = some node → IsAddress node
  unique : ∀ t u node, (s.thread t).node = some node → (s.thread u).node = some node → t = u
  quiet : ∀ t, (s.thread t).signals = false → s.pending t = []
  owned : ∀ node, Listed s node → ∃ t, (s.thread t).enqueued = some node
  event : ∀ t node, (s.thread t).node = some node →
    (s.event node = true ↔ (s.thread t).parked = true ∧ ¬ Listed s node)
  wait : ∀ t node, (s.thread t).enqueued = some node →
    (s.flags node &&& waiterWait ≠ 0 ↔ Listed s node ∧ (s.thread t).parked = false)

/-- What a thread relies on while it looks for the oldest block. -/
def Purpose.Ok (s : State T) (old : U64) : Purpose → Prop
  | wake _ => s.links.previous (pointer old) = 0
  | optimize _ => isLocked old = true
  | release shared _ => shared = true ∧ isWaiting old = true ∧ isMultiple old = true ∧
      isMultiple s.word = true

/-- Where a walk can stand. -/
def Purpose.At (s : State T) (old cur : U64) : Purpose → Prop
  | wake _ | optimize _ => ∃ post, Reached 0 s.links s.queue (pointer old) cur post
  | release _ _ => cur ∈ s.queue

/-- Where it can stand before it reads a next field. -/
def Purpose.AtNext (s : State T) (old cur : U64) : Purpose → Prop
  | wake _ | optimize _ =>
    (∃ post, Reached 0 s.links s.queue (pointer old) cur post) ∧ s.links.last cur = 0
  | release _ _ => ∃ next, Adjacent s.queue cur next

/-- Where it can stand before it writes a link. -/
def Purpose.AtLink (s : State T) (old cur next : U64) : Purpose → Prop
  | wake _ | optimize _ =>
    (∃ post, Reached 0 s.links s.queue (pointer old) cur (next :: post)) ∧
      s.links.last cur = 0
  | release _ _ => Adjacent s.queue cur next

/-- A waker has found the oldest block. -/
def Woken (s : State T) (old tail : U64) : Prop :=
  Walked 0 s.links s.queue (pointer old) tail ∧ s.links.previous (pointer old) = 0

/-- What a thread relies on at its place. -/
def PlaceOk (s : State T) (t : T) : Local → Prop
  | .queueing shared node old plan => acquirePlan shared old node = .ok (.queue plan) ∧
      s.links.next node = plan.next ∧ s.links.last node = plan.last ∧
      s.links.previous node = 0 ∧ s.shares node = plan.savedShared ∧ s.flags node = plan.flags
  | .walk purpose old cur => purpose.Ok s old ∧ purpose.At s old cur
  | .walkNext purpose old cur => purpose.Ok s old ∧ purpose.AtNext s old cur
  | .walkLink purpose old cur next => purpose.Ok s old ∧ purpose.AtLink s old cur next
  | .wakePrevious _ old tail => Woken s old tail
  | .wakeFlags _ old tail previous => Woken s old tail ∧ s.links.previous tail = previous
  | .wakeAct _ old tail previous decision => Woken s old tail ∧
      s.links.previous tail = previous ∧
      ∃ exclusive, wakeAction old exclusive (decide (previous ≠ 0)) = .ok decision
  | .detachTail _ tail => s.pending t = [tail]
  | .detachClear _ tail => s.pending t = [tail] ∧ s.links.previous tail = 0
  | .signal _ node => ∃ rest, s.pending t = node :: rest ∧ BackChain 0 s.links (node :: rest)
  | .signalClear _ node previous => ∃ rest, s.pending t = node :: rest ∧
      BackChain 0 s.links rest ∧ previous = rest.headD 0
  | .signalSet _ node previous => ∃ rest, s.pending t = node :: rest ∧
      BackChain 0 s.links rest ∧ previous = rest.headD 0 ∧ s.flags node &&& waiterWait = 0
  | .optimizeStore _ old tail => Walked 0 s.links s.queue (pointer old) tail ∧ isLocked old = true
  | .optimizeSwap _ old => isLocked old = true
  | .releasing shared _ old none =>
    (shared = false → isMultiple old = false) ∧
      (isMultiple old = true → isMultiple s.word = true ∧ pointer old ∈ s.queue)
  | .releasing shared _ old (some remaining) => shared = true ∧ 0 ≤ remaining ∧
      isWaiting old = true ∧ isMultiple old = true
  | .releaseShare shared _ old tail => shared = true ∧ isWaiting old = true ∧
      isMultiple old = true ∧ isMultiple s.word = true ∧ s.queue.getLast? = some tail
  | _ => True

/-- A thread will look at an unlocked word again. -/
def Retries (s : State T) (t : T) : Prop :=
  (s.thread t).acquires = true ∨ ∃ node, (s.thread t).enqueued = some node ∧ node ∉ s.queue

/-- The invariant of all runs. -/
structure Inv [Fintype T] (s : State T) : Prop where
  roles : Roles s
  queued : Queued s
  blocks : Blocks s
  places : ∀ t, PlaceOk s t (s.thread t)
  /-- An unlocked word with waiters is left to a thread that comes back. -/
  retried : isLocked s.word = false → isWaiting s.word = true → isWaking s.word = false →
    ∃ t, Retries s t
  /-- What was published is detached once or still queued. -/
  ledger : s.published.Perm (s.detached ++ s.queue)

theorem Inv.placeOk [Fintype T] {s : State T} {t : T} {place : Local} (h : Inv s)
    (hat : s.thread t = place) : PlaceOk s t place := hat ▸ h.places t

end Invariant

variable {T : Type}

open State

namespace State

variable [DecidableEq T] (s : State T) (t : T) (place : Local)

@[simp] theorem goto_self : (s.goto t place).thread t = place := by
  simp [goto]

@[simp] theorem goto_of_ne {u : T} (h : u ≠ t) : (s.goto t place).thread u = s.thread u := by
  simp [goto, h]

/-- A step of `t` is seen at its place, and the others are where they were. -/
@[elab_as_elim] theorem goto_cases {s s' : State T} {t : T} {place : Local}
    {motive : T → Local → Prop} (hthread : s'.thread = s.thread) (u : T) (self : motive t place)
    (other : ∀ u, u ≠ t → motive u (s.thread u)) : motive u ((s'.goto t place).thread u) :=
  (Function.forall_update_iff _ motive).mpr ⟨self, hthread ▸ other⟩ u

/-- An observation of places that the new place shares with the old one. -/
theorem observe_goto {α : Type} {f : Local → α} (h : f place = f (s.thread t)) (u : T) :
    f ((s.goto t place).thread u) = f (s.thread u) :=
  goto_cases rfl u h fun _ _ => rfl

end State

section Counts

variable [DecidableEq T] [Fintype T] {s : State T} {t : T} {place : Local}

theorem count_goto (p : Local → Bool) (s : State T) (t : T) (place : Local) :
    count p (s.goto t place).thread + (p (s.thread t)).toNat = count p s.thread + (p place).toNat :=
  count_update p s.thread t place

theorem count_goto_of_eq {p : Local → Bool} (h : p place = p (s.thread t)) :
    count p (s.goto t place).thread = count p s.thread := by
  have := count_goto p s t place
  rw [h] at this
  omega

/-- A thread that goes from one role to no other keeps the counts. -/
theorem Roles.goto (h : Roles s) (hholds : ∀ kind, place.holds kind = (s.thread t).holds kind)
    (hfinishing : place.finishing = (s.thread t).finishing) (howns : place.owns = (s.thread t).owns)
    (hwakes : place.wakes = true → isMultiple s.word = false) : Roles (s.goto t place) := by
  refine ⟨h.valid, ?_, ?_, fun u => goto_cases rfl u hwakes fun u _ => h.waker u⟩
  · rw [count_goto_of_eq (hholds false), count_goto_of_eq (hholds true),
      count_goto_of_eq hfinishing]
    exact h.encodes
  · rw [count_goto_of_eq howns]
    exact h.owner

end Counts

section Frames

variable {s s' : State T} {t u : T} {place : Local} {node w : U64}

theorem node_of_enqueued (h : place.enqueued = some node) : place.node = some node := by
  cases place <;> first | exact h | cases h

/-- The owner of a listed block has no other business with it. -/
theorem Blocks.not_listed (h : Blocks s) (hnode : (s.thread t).node = some node)
    (henqueued : (s.thread t).enqueued = none) : ¬ Listed s node := by
  intro hlisted
  obtain ⟨u, hu⟩ := h.owned node hlisted
  obtain rfl := h.unique t u node hnode (node_of_enqueued hu)
  rw [henqueued] at hu
  cases hu

/-- The pending blocks of a thread, and a block that it has filled in, are left alone. -/
structure Spared (s s' : State T) (u : T) (place : Local) : Prop where
  pending : s'.pending u = s.pending u
  back : ∀ x ∈ s.pending u, s'.links.previous x = s.links.previous x
  flags : ∀ x ∈ s.pending u, s.flags x &&& waiterWait = 0 → s'.flags x &&& waiterWait = 0
  own : ∀ x, place.node = some x → place.enqueued = none →
    s'.links.next x = s.links.next x ∧ s'.links.last x = s.links.last x ∧
      s'.links.previous x = s.links.previous x ∧ s'.shares x = s.shares x ∧ s'.flags x = s.flags x

theorem Spared.front {word : U64} {queue published : List U64} :
    Spared s { s with word, queue, published } u place :=
  ⟨rfl, fun _ _ => rfl, fun _ _ hclear => hclear, fun _ _ _ => ⟨rfl, rfl, rfl, rfl, rfl⟩⟩

section

variable (h : PlaceOk s u place)
include h

/-- A thread that does not own `waking` relies on the queue only while the lock is shared, and
then only new blocks are put in front of it. -/
theorem PlaceOk.frame (howns : place.owns = false)
    (hshared : place.holds true = true → isMultiple s.word = true →
      isMultiple s'.word = true ∧ s.queue <:+ s'.queue)
    (hspared : Spared s s' u place) : PlaceOk s' u place := by
  obtain ⟨hpending, hback, hflags, hown⟩ := hspared
  cases place with
  | queueing shared node old plan =>
    obtain ⟨hplan, hnext, hlast', hprevious', hshares, hflags'⟩ := h
    obtain ⟨h₁, h₂, h₃, h₄, h₅⟩ := hown node rfl rfl
    exact ⟨hplan, h₁.trans hnext, h₂.trans hlast', h₃.trans hprevious', h₄.trans hshares,
      h₅.trans hflags'⟩
  | walk purpose old cur =>
    cases purpose with
    | wake | optimize => cases howns
    | release shared generic =>
      obtain ⟨⟨rfl, hwaiting, hmultiple, hword⟩, hmem⟩ := h
      obtain ⟨hword', hsuffix⟩ := hshared rfl hword
      exact ⟨⟨rfl, hwaiting, hmultiple, hword'⟩, hsuffix.subset hmem⟩
  | walkNext purpose old cur =>
    cases purpose with
    | wake | optimize => cases howns
    | release shared generic =>
      obtain ⟨⟨rfl, hwaiting, hmultiple, hword⟩, next, hadjacent⟩ := h
      obtain ⟨hword', hsuffix⟩ := hshared rfl hword
      exact ⟨⟨rfl, hwaiting, hmultiple, hword'⟩, next, hadjacent.of_suffix hsuffix⟩
  | walkLink purpose old cur next =>
    cases purpose with
    | wake | optimize => cases howns
    | release shared generic =>
      obtain ⟨⟨rfl, hwaiting, hmultiple, hword⟩, hadjacent⟩ := h
      obtain ⟨hword', hsuffix⟩ := hshared rfl hword
      exact ⟨⟨rfl, hwaiting, hmultiple, hword'⟩, hadjacent.of_suffix hsuffix⟩
  | signal after node =>
    obtain ⟨rest, hpend, hchain⟩ := h
    exact ⟨rest, hpending.trans hpend, hchain.congr fun x hx => hback x (hpend ▸ hx)⟩
  | signalClear after node previous =>
    obtain ⟨rest, hpend, hchain, hprev⟩ := h
    exact ⟨rest, hpending.trans hpend,
      hchain.congr fun x hx => hback x (hpend ▸ List.mem_cons_of_mem _ hx), hprev⟩
  | signalSet after node previous =>
    obtain ⟨rest, hpend, hchain, hprev, hwait⟩ := h
    exact ⟨rest, hpending.trans hpend,
      hchain.congr fun x hx => hback x (hpend ▸ List.mem_cons_of_mem _ hx), hprev,
      hflags node (by simp [hpend]) hwait⟩
  | releasing shared generic old remaining =>
    cases remaining with
    | some remaining => exact h
    | none =>
      refine ⟨h.1, fun hmultiple => ?_⟩
      -- an exclusive holder has not read a word with a shared count
      have hkind : shared = true := by
        by_contra hexclusive
        rw [h.1 (Bool.eq_false_iff.mpr hexclusive)] at hmultiple
        cases hmultiple
      obtain ⟨hword, hmem⟩ := h.2 hmultiple
      obtain ⟨hword', hsuffix⟩ := hshared (by simp [hkind]) hword
      exact ⟨hword', hsuffix.subset hmem⟩
  | releaseShare shared generic old tail =>
    obtain ⟨rfl, hwaiting, hmultiple, hword, htail⟩ := h
    obtain ⟨hword', front, hfront⟩ := hshared rfl hword
    -- the oldest block stays last when others are put in front
    refine ⟨rfl, hwaiting, hmultiple, hword', ?_⟩
    have hne := List.ne_nil_of_mem (List.mem_of_getLast? htail)
    rw [← hfront, List.getLast?_append_of_ne_nil _ hne, htail]
  | wakePrevious | wakeFlags | wakeAct | detachTail | detachClear | optimizeStore
  | optimizeSwap => cases howns
  | _ => exact h

/-- The owner of `waking` relies on the blocks that it reaches, and not on the word. -/
theorem PlaceOk.owner (howns : place.owns = true)
    (hreached : ∀ {old cur post}, Reached 0 s.links s.queue (pointer old) cur post →
      Reached 0 s'.links s'.queue (pointer old) cur post)
    (hwalked : ∀ {old tail}, Walked 0 s.links s.queue (pointer old) tail →
      Walked 0 s'.links s'.queue (pointer old) tail)
    (hlast : ∀ x ∈ s.queue, s'.links.last x = s.links.last x)
    (hprevious : place.wakes = true → ∀ x ∈ s.queue, s'.links.previous x = s.links.previous x)
    (hpending : s'.pending u = s.pending u)
    (hback : place.wakes = true → ∀ x ∈ s.pending u, s'.links.previous x = s.links.previous x) :
    PlaceOk s' u place := by
  have hwoken : place.wakes = true → ∀ {old tail}, Woken s old tail → Woken s' old tail :=
    fun hwakes _ _ hwoken => ⟨hwalked hwoken.1, by
      rw [hprevious hwakes _ hwoken.1.head_mem]
      exact hwoken.2⟩
  cases place with
  | walk purpose old cur =>
    cases purpose with
    | wake after =>
      obtain ⟨hok, post, hat⟩ := h
      exact ⟨(hprevious rfl _ hat.head_mem).trans hok, post, hreached hat⟩
    | optimize after => exact ⟨h.1, h.2.imp fun _ => hreached⟩
    | release shared generic => cases howns
  | walkNext purpose old cur | walkLink purpose old cur next =>
    cases purpose with
    | wake after =>
      obtain ⟨hok, ⟨post, hat⟩, hnull⟩ := h
      exact ⟨(hprevious rfl _ hat.head_mem).trans hok, ⟨post, hreached hat⟩,
        (hlast _ hat.cur_mem).trans hnull⟩
    | optimize after =>
      obtain ⟨hok, ⟨post, hat⟩, hnull⟩ := h
      exact ⟨hok, ⟨post, hreached hat⟩, (hlast _ hat.cur_mem).trans hnull⟩
    | release shared generic => cases howns
  | wakePrevious after old tail => exact hwoken rfl h
  | wakeFlags after old tail previous =>
    exact ⟨hwoken rfl h.1, (hprevious rfl _ h.1.1.tail_mem).trans h.2⟩
  | wakeAct after old tail previous decision =>
    exact ⟨hwoken rfl h.1, (hprevious rfl _ h.1.1.tail_mem).trans h.2.1, h.2.2⟩
  | detachTail after tail => exact hpending.trans h
  | detachClear after tail =>
    obtain ⟨hpend, hnull⟩ := h
    exact ⟨hpending.trans hpend, (hback rfl tail (by simp [hpend])).trans hnull⟩
  | optimizeStore after old tail => exact ⟨hwalked h.1, h.2⟩
  | optimizeSwap after old => exact h
  | _ => cases howns

/-- What a thread relies on are the queue, its own pending blocks and a block that it has filled
in. -/
theorem PlaceOk.congr (hqueue : s'.queue = s.queue)
    (hmultiple : isMultiple s'.word = isMultiple s.word)
    (hlast : ∀ x ∈ s.queue, s'.links.last x = s.links.last x)
    (hprevious : ∀ x ∈ s.queue, s'.links.previous x = s.links.previous x)
    (hspared : Spared s s' u place) : PlaceOk s' u place := by
  cases howns : place.owns with
  | false =>
    exact h.frame howns (fun _ hword => ⟨hmultiple.trans hword, hqueue ▸ List.suffix_rfl⟩) hspared
  | true =>
    exact h.owner howns (fun hreached => hqueue ▸ hreached.congr hlast hprevious)
      (fun hwalked => hqueue ▸ hwalked.congr hlast hprevious) hlast (fun _ => hprevious)
      hspared.pending fun _ => hspared.back

/-- A new head does not disturb the owner of `waking`. -/
theorem PlaceOk.push (howns : place.owns = true) (hqueue : s'.queue = node :: s.queue)
    (hlinks : s'.links = s.links) (hlast : s.links.last node = 0)
    (hpending : s'.pending u = s.pending u) : PlaceOk s' u place := by
  refine h.owner howns (fun hreached => ?_) (fun hwalked => ?_) (fun _ _ => by rw [hlinks])
    (fun _ _ _ => by rw [hlinks]) hpending fun _ _ _ => by rw [hlinks]
  · rw [hqueue, hlinks]
    exact hreached.push hlast
  · rw [hqueue, hlinks]
    exact hwalked.push hlast

theorem PlaceOk.word (howns : place.owns = true) (new : U64) :
    PlaceOk { s with word := new } u place :=
  h.owner howns (fun hreached => hreached) (fun hwalked => hwalked) (fun _ _ => rfl)
    (fun _ _ _ => rfl) rfl fun _ _ _ => rfl

/-- A sharer that sets a pointer back does not disturb an owner of `waking` that optimizes. -/
theorem PlaceOk.link (howns : place.owns = true) (hwakes : place.wakes = false) {newer older : U64}
    (hnodup : s.queue.Nodup) (hadjacent : Adjacent s.queue newer older) :
    PlaceOk (s.setPrevious older newer) u place := by
  have hnot : ¬ place.wakes = true := Bool.eq_false_iff.mp hwakes
  exact h.owner howns (fun hreached => hreached.link hnodup hadjacent)
    (fun hwalked => hwalked.link hnodup hadjacent) (fun _ _ => rfl) (absurd · hnot) rfl
    (absurd · hnot)

end

theorem Blocks.congr (h : Blocks s) {word : U64} {links : Links U64} {shares : U64 → ℤ} :
    Blocks { s with word, links, shares } :=
  ⟨⟨h.nodup, h.pendingNodup, h.apart, h.distinct⟩, h.address, h.unique, h.quiet, h.owned,
    h.event, h.wait⟩

theorem State.fill_of_ne (s : State T) {x : U64} (plan : QueuePlan) (h : x ≠ node) :
    (s.fill node plan).links.next x = s.links.next x ∧
      (s.fill node plan).links.last x = s.links.last x ∧
      (s.fill node plan).links.previous x = s.links.previous x ∧
      (s.fill node plan).shares x = s.shares x ∧ (s.fill node plan).flags x = s.flags x := by
  simp [State.fill, State.setNext, State.setLast, State.setPrevious, State.setShares,
    State.setFlags, h]

theorem State.saved_congr (hqueue : s'.queue = s.queue)
    (hshares : ∀ x ∈ s.queue, s'.shares x = s.shares x) : s'.saved = s.saved := by
  rw [State.saved, State.saved, hqueue]
  cases htail : s.queue.getLast? with
  | none => rfl
  | some tail => exact hshares tail (List.mem_of_getLast? htail)

theorem Roles.congr [Fintype T] (h : Roles s) (hword : s'.word = s.word)
    (hthread : s'.thread = s.thread) (hsaved : s'.saved = s.saved) : Roles s' := by
  refine ⟨hword ▸ h.valid, ?_, ?_, ?_⟩
  · rw [hword, hthread, hsaved]
    exact h.encodes
  · rw [hword, hthread]
    exact h.owner
  · rw [hword, hthread]
    exact h.waker

theorem Retries.congr (h : Retries s u)
    (hacquires : (s.thread u).acquires = true → (s'.thread u).acquires = true)
    (henqueued : (s'.thread u).enqueued = (s.thread u).enqueued ∨ (s'.thread u).acquires = true)
    (hqueue : ∀ node ∈ s'.queue, node ∈ s.queue) : Retries s' u := by
  rcases h with h | ⟨node, hnode, hnot⟩
  · exact .inl (hacquires h)
  · rcases henqueued with henqueued | hnew
    · exact .inr ⟨node, henqueued.trans hnode, fun hmem => hnot (hqueue node hmem)⟩
    · exact .inl hnew

theorem Blocks.isAddress (h : Blocks s) (hlisted : Listed s node) : IsAddress node := by
  obtain ⟨u, hu⟩ := h.owned node hlisted
  exact h.address u node (node_of_enqueued hu)

theorem Blocks.null_not_mem (h : Blocks s) : (0 : U64) ∉ s.queue := fun hmem =>
  (h.isAddress (.inl hmem)).1 rfl

/-- With waiters the word points to the head of the queue. -/
theorem Queued.exists_head (h : Queued s) (hblocks : Blocks s)
    (hwaiting : isWaiting s.word = true) : s.queue.head? = some (pointer s.word) := by
  have hheads := h.heads
  cases hqueue : s.queue with
  | nil =>
    rw [hqueue, Heads, hwaiting] at hheads
    cases hheads
  | cons node rest =>
    rw [hqueue] at hheads
    have haddress := hblocks.isAddress (.inl (by simp [hqueue]) : Listed s node)
    rw [pointer_eq haddress hheads.2]
    rfl

theorem isWaiting_of_isWaking (h : Valid w) (hwaking : isWaking w = true) : isWaiting w = true := by
  by_contra hwaiting
  rw [Valid, if_neg hwaiting] at h
  rw [hwaking] at h
  cases h.1

theorem isWaiting_of_isMultiple (h : Valid w) (hmultiple : isMultiple w = true) :
    isWaiting w = true := by
  by_contra hwaiting
  rw [Valid, if_neg hwaiting] at h
  rw [hmultiple] at h
  cases h.2.1

theorem isMultiple_of_unlocked (h : Valid w) (hlocked : isLocked w = false) :
    isMultiple w = false := by
  by_contra hmultiple
  have hmultiple := Bool.eq_true_of_not_eq_false hmultiple
  rw [Valid, if_pos (isWaiting_of_isMultiple h hmultiple), hlocked] at h
  cases h.2 hmultiple

end Frames

section Goto

variable [DecidableEq T] {s s' : State T} {t u : T} {place : Local}

/-- A thread goes to a place with another block or another state of its block. -/
theorem Blocks.replace (h : Blocks s) (hlists : Lists s') (hthread : s'.thread = s.thread)
    (hnode : ∀ x, place.node = some x →
      (s.thread t).node = some x ∨ IsAddress x ∧ ∀ u, u ≠ t → (s.thread u).node ≠ some x)
    (hquiet : place.signals = false → s'.pending t = [])
    (hpending : ∀ u, u ≠ t → s'.pending u = s.pending u) (howned : ∀ x, Listed s' x →
      place.enqueued = some x ∨ Listed s x ∧ (s.thread t).enqueued ≠ some x)
    (hevent : ∀ x, place.node = some x → (s'.event x = true ↔ place.parked = true ∧ ¬ Listed s' x))
    (hwait : ∀ x, place.enqueued = some x →
      (s'.flags x &&& waiterWait ≠ 0 ↔ Listed s' x ∧ place.parked = false))
    (hevents : ∀ u, u ≠ t → ∀ x, (s.thread u).node = some x →
      (s'.event x = true ↔ (s.thread u).parked = true ∧ ¬ Listed s' x))
    (hwaits : ∀ u, u ≠ t → ∀ x, (s.thread u).enqueued = some x →
      (s'.flags x &&& waiterWait ≠ 0 ↔ Listed s' x ∧ (s.thread u).parked = false)) :
    Blocks (s'.goto t place) := by
  have haddress : ∀ x, place.node = some x → IsAddress x := fun x hx =>
    (hnode x hx).elim (h.address t x) And.left
  have hunique : ∀ x, place.node = some x → ∀ u, u ≠ t → (s.thread u).node ≠ some x := by
    intro x hx u hu hux
    rcases hnode x hx with hown | ⟨-, hfree⟩
    · exact hu (h.unique u t x hux hown)
    · exact hfree u hu hux
  refine ⟨⟨hlists.nodup, hlists.pendingNodup, hlists.apart, hlists.distinct⟩,
    fun u => goto_cases hthread u haddress fun u _ => h.address u, fun u v x => ?_,
    fun u => goto_cases hthread u hquiet fun u hu hs => (hpending u hu).trans (h.quiet u hs),
    fun x hx => ?_, fun u => goto_cases hthread u hevent hevents,
    fun u => goto_cases hthread u hwait hwaits⟩
  · refine goto_cases hthread u (fun hself => ?_) fun u hu hother => ?_
    · exact goto_cases hthread v (fun _ => rfl) fun v hv => (absurd · (hunique x hself v hv))
    · exact goto_cases hthread v (fun hself => absurd hother (hunique x hself u hu))
        fun v _ => h.unique u v x hother
  · rcases howned x hx with hx | ⟨hlisted, hne⟩
    · exact ⟨t, by rw [goto_self]; exact hx⟩
    · obtain ⟨u, hu⟩ := h.owned x hlisted
      have hut : u ≠ t := by
        rintro rfl
        exact hne hu
      exact ⟨u, by rw [goto_of_ne _ _ _ hut, hthread]; exact hu⟩

/-- A thread goes to a place with the same block in the same state. -/
theorem Blocks.keep (h : Blocks s) (hlists : Lists s') (hthread : s'.thread = s.thread)
    (hnode : place.node = (s.thread t).node) (henqueued : place.enqueued = (s.thread t).enqueued)
    (hparked : place.parked = (s.thread t).parked)
    (hquiet : place.signals = false → s'.pending t = [])
    (hpending : ∀ u, u ≠ t → s'.pending u = s.pending u) (hlisted : ∀ x, Listed s' x → Listed s x)
    (hevents : ∀ u x, (s.thread u).node = some x →
      (s'.event x = true ↔ (s.thread u).parked = true ∧ ¬ Listed s' x))
    (hwaits : ∀ u x, (s.thread u).enqueued = some x →
      (s'.flags x &&& waiterWait ≠ 0 ↔ Listed s' x ∧ (s.thread u).parked = false)) :
    Blocks (s'.goto t place) := by
  refine h.replace hlists hthread (fun x hx => .inl (hnode ▸ hx)) hquiet hpending (fun x hx => ?_)
    (fun x hx => ?_) (fun x hx => ?_) (fun u _ => hevents u) fun u _ => hwaits u
  · by_cases heq : (s.thread t).enqueued = some x
    · exact .inl (henqueued.trans heq)
    · exact .inr ⟨hlisted x hx, heq⟩
  · rw [hparked]
    exact hevents t x (hnode ▸ hx)
  · rw [hparked]
    exact hwaits t x (henqueued ▸ hx)

/-- The blocks of the threads, and who has to be signalled, do not change. -/
theorem Blocks.goto (h : Blocks s) (hnode : place.node = (s.thread t).node)
    (henqueued : place.enqueued = (s.thread t).enqueued)
    (hparked : place.parked = (s.thread t).parked)
    (hsignals : place.signals = false → s.pending t = []) : Blocks (s.goto t place) :=
  h.keep h.toLists rfl hnode henqueued hparked hsignals (fun _ _ => rfl) (fun _ hx => hx) h.event
    h.wait

/-- The places of all threads after a step of `t`. -/
theorem places_goto (hothers : ∀ u, u ≠ t → PlaceOk s' u (s.thread u))
    (hthread : s'.thread = s.thread) (hplace : PlaceOk s' t place) (u : T) :
    PlaceOk (s'.goto t place) u ((s'.goto t place).thread u) :=
  goto_cases hthread u hplace hothers

/-- A thread goes to a place with the same role. -/
structure Silent (s : State T) (t : T) (place : Local) : Prop where
  holds : ∀ kind, place.holds kind = (s.thread t).holds kind
  finishing : place.finishing = (s.thread t).finishing
  owns : place.owns = (s.thread t).owns
  wakes : place.wakes = true → isMultiple s.word = false
  node : place.node = (s.thread t).node
  enqueued : place.enqueued = (s.thread t).enqueued
  parked : place.parked = (s.thread t).parked
  signals : place.signals = (s.thread t).signals
  acquires : (s.thread t).acquires = true → place.acquires = true

theorem Inv.goto [Fintype T] (h : Inv s) (hsilent : Silent s t place) (hplace : PlaceOk s t place) :
    Inv (s.goto t place) := by
  refine ⟨h.roles.goto hsilent.holds hsilent.finishing hsilent.owns hsilent.wakes,
    ⟨h.queued.heads, h.queued.linked, h.queued.many⟩,
    h.blocks.goto hsilent.node hsilent.enqueued hsilent.parked fun hsignals =>
      h.blocks.quiet t (hsilent.signals.symm.trans hsignals),
    places_goto (fun u _ => h.places u) rfl hplace, fun hlocked hwaiting hwaking => ?_, h.ledger⟩
  obtain ⟨u, hu⟩ := h.retried hlocked hwaiting hwaking
  exact ⟨u, hu.congr (goto_cases rfl u hsilent.acquires fun _ _ hacquires => hacquires)
    (.inl (observe_goto s t place (f := Local.enqueued) hsilent.enqueued u)) fun _ hmem => hmem⟩

end Goto

end UserspaceNtos.PushLock
