import UserspaceNtos.PushLock.ReleaseSteps

/-!
# Safety of the push lock

Every access keeps the invariant, so it holds in every state that an interleaving reaches.  From
it follow exclusion, that the word and the saved count tell the number of holders, that every
block stays reachable until it is detached, and that no waiter is forgotten.
-/

namespace UserspaceNtos.PushLock

open IntrusiveQueue Count Reachable

variable {T : Type} [Fintype T] {s s' : State T} {t : T}

/-! ## Runs -/

theorem Inv.initial (links : Links U64) (shares : U64 → ℤ) (flags : U64 → BitVec 32)
    (event : U64 → Bool) : Inv (State.initial links shares flags event : State T) := by
  have hcount : ∀ p : Local → Bool, p .idle = false →
      count p (State.initial links shares flags event : State T).thread = 0 := fun p hp => by
    simp [count, State.initial, hp]
  refine ⟨⟨by simp [State.initial, Valid], ?_, ?_, fun t ht => ?_⟩,
    ⟨parts_zero.2.1, linked_nil, fun hmany => ?_⟩,
    ⟨⟨List.nodup_nil, fun _ => List.nodup_nil, fun _ _ hx => ?_, fun _ _ _ hx => ?_⟩,
      fun _ _ hx => ?_, fun _ _ _ hx => ?_, fun _ _ => rfl, fun _ hx => ?_, fun _ _ hx => ?_,
      fun _ _ hx => ?_⟩,
    fun _ => trivial, fun _ hwaiting => ?_, List.Perm.refl _⟩
  · rw [hcount _ rfl, hcount _ rfl, hcount _ rfl]
    exact encodes_zero
  · rw [hcount _ rfl]
    simp [State.initial]
  · cases ht
  · simp [State.initial] at hmany
  · cases hx
  · cases hx
  · cases hx
  · cases hx
  · rcases hx with hx | ⟨_, hx⟩ <;> cases hx
  · cases hx
  · cases hx
  · simp [State.initial] at hwaiting

theorem Inv.step [DecidableEq T] (h : Inv s) (hstep : Step t s s') : Inv s' := by
  cases hstep with
  | beginAcquire hat => exact h.goto (by constructor <;> simp [hat]) trivial
  | loadAcquire hat => exact h.goto (by constructor <;> simp [hat]) trivial
  | acquired hat hplan hswap => exact h.acquired hat hplan hswap
  | acquireAgain hat _ _ => exact h.goto (by constructor <;> simp [hat]) trivial
  | allocate hat hplan haddress hfree => exact h.allocate hat haddress hfree
  | fill hat hplan => exact h.fill hat hplan
  | publish hat hswap => exact h.publish hat hswap
  | publishAgain hat _ => exact h.goto (by constructor <;> simp [hat]) trivial
  | park hat => exact h.park hat
  | resume hat hevent => exact h.resume hat hevent
  | walkEnd hat hlast => exact h.walkEnd hat hlast
  | walkOn hat hlast => exact h.walkOn hat hlast
  | walkNext hat _ => exact h.walkNext hat
  | walkLink hat => exact h.walkLink hat
  | wakePrevious hat => exact h.wakePrevious hat
  | wakeFlags hat hplan => exact h.wakeFlags hat hplan
  | relocked hat hswap => exact h.relocked hat hswap
  | detachAll hat hswap => exact h.detachAll hat hswap
  | wakeAgain hat _ _ => exact h.wakeAgain hat
  | detachOldest hat => exact h.detachOldest hat
  | detachTail hat => exact h.detachTail hat
  | detachClear hat => exact h.detachClear hat
  | signal hat => exact h.signal hat
  | signalClear hat hwait => exact h.signalClear hat hwait
  | signalWaiting hat hwait => exact h.signalWaiting hat hwait
  | signalSet hat => exact h.signalSet hat
  | optimizeStore hat => exact h.optimizeStore hat
  | optimized hat hswap => exact h.optimized hat hswap
  | optimizeAgain hat _ => exact h.optimizeAgain hat
  | beginRelease hat => exact h.goto (by constructor <;> simp [hat]) trivial
  | loadRelease hat =>
    exact h.goto (by constructor <;> simp [hat]) (h.releasing_placeOk (by simp [hat]))
  | releaseWalk hat hcount => exact h.releaseWalk hat hcount
  | releaseShare hat _ => exact h.releaseShare hat
  | releasedOne hat _ hplan => exact h.releasedOne hat hplan
  | released hat hcount hplan hswap => exact h.released hat hplan hswap hcount
  | releaseAgain hat _ hplan _ =>
    exact h.goto (by constructor <;> simp [hat]) (h.releaseAgain_placeOk hat hplan)
  | beginTryWake hat hafter => exact h.beginTryWake hat hafter
  | loadTryWake hat => exact h.goto (by constructor <;> simp [hat]) trivial
  | tryWakeNothing hat _ => exact h.endTryWake hat
  | tryWakeClaim hat hplan hswap => exact h.tryWakeClaim hat hplan hswap
  | tryWakeLost hat _ _ => exact h.endTryWake hat

theorem Reachable.inv [DecidableEq T] (h : Reachable s) : Inv s := by
  induction h with
  | initial links shares flags event => exact Inv.initial links shares flags event
  | step t _ hstep ih => exact ih.step hstep

/-! ## What the invariant says -/

theorem Encodes.exclusive {w : U64} {saved : ℤ} {exclusive shared finishing : ℕ}
    (h : Encodes w saved exclusive shared finishing) (hone : 1 ≤ exclusive) :
    exclusive = 1 ∧ shared = 0 := by
  unfold Encodes at h
  split_ifs at h <;> omega

/-- An exclusive holder is the only holder. -/
theorem Inv.exclusion (h : Inv s) {u : T} {kind : Bool}
    (hexclusive : (s.thread t).holds false = true) (hholds : (s.thread u).holds kind = true) :
    u = t := by
  obtain ⟨hone, hnone⟩ := h.roles.encodes.exclusive (one_le_count hexclusive)
  cases kind with
  | false => exact eq_of_count_le_one (hone.le) hholds hexclusive
  | true =>
    have := one_le_count hholds
    omega

/-- Along a chain every member is reached from the first. -/
theorem reflTransGen_of_mem {α : Type} {r : α → α → Prop} {a : α} {l : List α}
    (hchain : (a :: l).IsChain r) {x : α} (hx : x ∈ a :: l) : Relation.ReflTransGen r a x := by
  induction l generalizing a with
  | nil => rw [List.mem_singleton.mp hx]
  | cons b l ih =>
    rcases List.mem_cons.mp hx with rfl | hx
    · exact .refl
    · obtain ⟨hab, hrest⟩ := List.isChain_cons_cons.mp hchain
      exact .head hab (ih hrest hx)

/-- A queued block is found from the word by the pointers to the next older block. -/
theorem Inv.queued_reachable (h : Inv s) {node : U64} (hnode : node ∈ s.queue) :
    isWaiting s.word = true ∧
      Relation.ReflTransGen (fun a b => s.links.next a = b) (pointer s.word) node := by
  have hheads := h.queued.heads
  have hchain := h.queued.linked.next
  cases hqueue : s.queue with
  | nil =>
    rw [hqueue] at hnode
    cases hnode
  | cons a rest =>
    rw [hqueue] at hheads hnode hchain
    have haddress := h.blocks.isAddress (.inl (by simp [hqueue]) : Listed s a)
    rw [pointer_eq haddress hheads.2]
    exact ⟨hheads.1, reflTransGen_of_mem hchain hnode⟩

/-- No thread is between the accesses of an operation. -/
def State.Quiet (s : State T) : Prop :=
  ∀ t, s.thread t = .idle ∨ (∃ shared, s.thread t = .holding shared) ∨
    ∃ shared node, s.thread t = .waiting shared node

/-- The block of a waiter is off all lists exactly if the waiter was signalled. -/
theorem Inv.signalled_iff (h : Inv s) {shared : Bool} {node : U64}
    (hat : s.thread t = .waiting shared node) : s.event node = true ↔ ¬ Listed s node := by
  have hevent := h.blocks.event t node (by simp [hat])
  simpa [hat] using hevent

/-- Nobody keeps detached blocks in a quiet state. -/
theorem Inv.listed_of_quiet (h : Inv s) (hquiet : s.Quiet) (node : U64) :
    Listed s node ↔ node ∈ s.queue := by
  refine ⟨fun hlisted => hlisted.resolve_right ?_, .inl⟩
  rintro ⟨t, hmem⟩
  have hsignals : (s.thread t).signals = false := by
    rcases hquiet t with hat | ⟨_, hat⟩ | ⟨_, _, hat⟩ <;> simp [hat]
  rw [h.blocks.quiet t hsignals] at hmem
  cases hmem

/-- A free lock with waiters is never forgotten: a thread owns the right to wake, or a thread
that is acquiring or whose block was detached will look at the word again. -/
theorem Inv.wake_due (h : Inv s) (hlocked : isLocked s.word = false)
    (hwaiting : isWaiting s.word = true) : (∃ t, (s.thread t).owns = true) ∨ ∃ t, Retries s t := by
  cases hwaking : isWaking s.word with
  | false => exact .inr (h.retried hlocked hwaiting hwaking)
  | true =>
    refine .inl (exists_of_count_pos ?_)
    rw [h.roles.owner, hwaking]
    decide

/-- In a quiet state the thread that will look at the word again is a waiter that was
signalled. -/
theorem Inv.waiter_signalled (h : Inv s) (hlocked : isLocked s.word = false)
    (hwaiting : isWaiting s.word = true) (hquiet : s.Quiet) :
    ∃ t shared node, s.thread t = .waiting shared node ∧ s.event node = true := by
  rcases h.wake_due hlocked hwaiting with ⟨t, howns⟩ | ⟨t, hretries⟩
  · rcases hquiet t with hat | ⟨_, hat⟩ | ⟨_, _, hat⟩ <;> simp [hat] at howns
  · rcases hquiet t with hat | ⟨_, hat⟩ | ⟨shared, node, hat⟩
    · simp [Retries, hat] at hretries
    · simp [Retries, hat] at hretries
    · refine ⟨t, shared, node, hat, (h.signalled_iff hat).mpr ?_⟩
      rw [h.listed_of_quiet hquiet]
      simpa [Retries, hat] using hretries

/-- In every state of every interleaving: an exclusive holder is alone; the word and the count
that the oldest waiter saves tell how many threads hold the lock; a block that was published and
not detached is found from the word, and each publication is followed by at most one detaching;
and a free lock with waiters is left to a thread that wakes or looks at the word again.  While no
thread is inside an operation that thread is a waiter that has been signalled, and a waiter that
has not been signalled is still found from the word. -/
theorem reachable_safe [DecidableEq T] (h : Reachable s) :
    (∀ t u kind, (s.thread t).holds false = true → (s.thread u).holds kind = true → u = t) ∧
      Encodes s.word s.saved (count (Local.holds false) s.thread)
        (count (Local.holds true) s.thread) (count Local.finishing s.thread) ∧
      (∀ node ∈ s.queue, isWaiting s.word = true ∧
        Relation.ReflTransGen (fun a b => s.links.next a = b) (pointer s.word) node) ∧
      s.published.Perm (s.detached ++ s.queue) ∧
      (isLocked s.word = false → isWaiting s.word = true →
        ((∃ t, (s.thread t).owns = true) ∨ ∃ t, Retries s t) ∧
          (s.Quiet →
            (∃ t shared node, s.thread t = .waiting shared node ∧ s.event node = true) ∧
              ∀ t shared node, s.thread t = .waiting shared node →
                s.event node = true ∨ node ∈ s.queue)) := by
  have hinv := h.inv
  refine ⟨fun t u kind => hinv.exclusion, hinv.roles.encodes, fun node => hinv.queued_reachable,
    hinv.ledger, fun hlocked hwaiting => ⟨hinv.wake_due hlocked hwaiting, fun hquiet =>
      ⟨hinv.waiter_signalled hlocked hwaiting hquiet, fun t shared node hat => ?_⟩⟩⟩
  rw [hinv.signalled_iff hat, hinv.listed_of_quiet hquiet]
  exact (em (node ∈ s.queue)).symm

/-- Thread 0 holds the lock exclusively while the others queue, and its release detaches and
signals the oldest waiter only. -/
theorem exists_contended_run : ∃ s : State (Fin 3), Reachable s ∧ s.queue = [48] ∧
    isLocked s.word = false ∧ isWaiting s.word = true ∧ isWaking s.word = false ∧ s.Quiet ∧
    s.thread 2 = .waiting false 48 ∧ s.event 48 = false := by
  have h := initial (T := Fin 3) ⟨fun _ => 0, fun _ => 0, fun _ => 0⟩ (fun _ => 0)
    (fun _ => 0) fun _ => false
  have h := step 0 h (@Step.beginAcquire _ _ _ _ false rfl)
  have h := step 0 h (Step.loadAcquire rfl)
  have h := step 0 h (@Step.acquired _ _ _ _ false none 0 1 rfl rfl rfl)
  -- thread 1 is the first waiter
  have h := step 1 h (@Step.beginAcquire _ _ _ _ false rfl)
  have h := step 1 h (Step.loadAcquire rfl)
  have h := step 1 h
    (@Step.allocate _ _ _ _ false 1 _ 32 rfl rfl ⟨by decide, by decide⟩ (by decide))
  have h := step 1 h (Step.loadAcquire rfl)
  have h := step 1 h (@Step.fill _ _ _ _ false 32 1 _ rfl rfl)
  have h := step 1 h (Step.publish rfl rfl)
  have h := step 1 h (Step.park rfl)
  -- thread 2 queues behind it and optimizes
  have h := step 2 h (@Step.beginAcquire _ _ _ _ false rfl)
  have h := step 2 h (Step.loadAcquire rfl)
  have h := step 2 h
    (@Step.allocate _ _ _ _ false 35 _ 48 rfl rfl ⟨by decide, by decide⟩ (by decide))
  have h := step 2 h (Step.loadAcquire rfl)
  have h := step 2 h (@Step.fill _ _ _ _ false 48 35 _ rfl rfl)
  have h := step 2 h (Step.publish rfl rfl)
  have h := step 2 h (@Step.walkOn _ _ _ _ (.optimize (.park false 48)) 55 48 rfl rfl)
  have h := step 2 h (@Step.walkNext _ _ _ _ (.optimize (.park false 48)) 55 48 rfl (by decide))
  have h := step 2 h (@Step.walkLink _ _ _ _ (.optimize (.park false 48)) 55 48 32 rfl)
  have h := step 2 h (@Step.walkEnd _ _ _ _ (.optimize (.park false 48)) 55 32 rfl (by decide))
  have h := step 2 h (@Step.optimizeStore _ _ _ _ (.park false 48) 55 32 rfl)
  have h := step 2 h (@Step.optimized _ _ _ _ (.park false 48) 55 rfl rfl)
  have h := step 2 h (@Step.park _ _ _ _ false 48 rfl)
  -- thread 0 releases
  have h := step 0 h (@Step.beginRelease _ _ _ _ false false rfl)
  have h := step 0 h (Step.loadRelease rfl)
  have h := step 0 h (@Step.released _ _ _ _ false false 51 none _ rfl rfl rfl rfl)
  have h := step 0 h (@Step.walkEnd _ _ _ _ (.wake .idle) 54 48 rfl (by decide))
  have h := step 0 h (@Step.wakePrevious _ _ _ _ .idle 54 32 rfl)
  have h := step 0 h (@Step.wakeFlags _ _ _ _ .idle 54 32 48 (.detachOldest 50) rfl rfl)
  have h := step 0 h (Step.detachOldest rfl)
  have h := step 0 h (Step.detachTail rfl)
  have h := step 0 h (Step.detachClear rfl)
  have h := step 0 h (@Step.signal _ _ _ _ .idle 32 rfl)
  have h := step 0 h (@Step.signalWaiting _ _ _ _ .idle 32 0 rfl (by decide))
  have h := step 0 h (@Step.signalSet _ _ _ _ .idle 32 0 rfl)
  refine ⟨_, h, rfl, by decide, by decide, by decide, ?_, rfl, rfl⟩
  exact fun
    | 0 => .inl rfl
    | 1 => .inr (.inr ⟨false, 32, rfl⟩)
    | 2 => .inr (.inr ⟨false, 48, rfl⟩)

theorem contended_run_safe : ∃ s : State (Fin 3), Reachable s ∧ s.queue = [48] ∧
    isLocked s.word = false ∧ isWaiting s.word = true ∧ s.Quiet ∧
    (∃ t shared node, s.thread t = .waiting shared node ∧ s.event node = true) ∧
    Relation.ReflTransGen (fun a b => s.links.next a = b) (pointer s.word) 48 := by
  obtain ⟨s, h, hqueue, hlocked, hwaiting, -, hquiet, -, -⟩ := exists_contended_run
  obtain ⟨-, -, hreached, -, hwake⟩ := reachable_safe h
  exact ⟨s, h, hqueue, hlocked, hwaiting, hquiet, ((hwake hlocked hwaiting).2 hquiet).1,
    (hreached 48 (by rw [hqueue]; exact List.mem_singleton_self _)).2⟩

/-- The lock is free, nobody owns the right to wake and no thread is inside an operation, and yet
a waiter has no wake: it is queued behind the one that was signalled. -/
theorem waiter_left_queued : ∃ s : State (Fin 3), Reachable s ∧ isLocked s.word = false ∧
    isWaiting s.word = true ∧ isWaking s.word = false ∧ s.Quiet ∧
    s.thread 2 = .waiting false 48 ∧ s.event 48 = false ∧ 48 ∈ s.queue := by
  obtain ⟨s, h, hqueue, hlocked, hwaiting, hwaking, hquiet, hat, hevent⟩ := exists_contended_run
  refine ⟨s, h, hlocked, hwaiting, hwaking, hquiet, hat, hevent, ?_⟩
  rw [hqueue]
  exact List.mem_singleton_self _

end UserspaceNtos.PushLock
