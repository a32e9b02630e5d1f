import UserspaceNtos.Fs.ByteLock
import UserspaceNtos.Lib.IntrusiveQueue
import UserspaceNtos.Lib.Runs

/-!
# The queue of byte-range waiters

A waiter is *obstructed* if an active lock or an earlier waiter blocks it, which is the
test of `reconsider_waiters`; a table in which some waiter is not obstructed has left
that waiter stranded, and a pass over the queue would serve it
(`noneStranded_iff_reconsiderWaiters_eq`).

One pass is enough: a served waiter blocks as an active lock whatever it blocked in the
queue, so obstructions never go away during the pass (`reconsiderLoop_obstructed`).
Every operation that removes a lock ends with a pass.  The two cancellations do not,
although the waiter they remove may have been all that held a later one back:
`cancel_strands_waiter` shows a reader left behind after the writer before it has given
up.  `noneStranded_iff_harmless` is exact about when this happens.
-/

namespace UserspaceNtos.Fs.ByteLock

open ByteRangeLockTable List

variable {C : Type} {active : List ByteRangeLockRequest} {waiter : WaitingLock C}

/-- An active lock or one of the `earlier` waiters blocks the waiter. -/
def Obstructed (active : List ByteRangeLockRequest) (earlier : List (WaitingLock C))
    (waiter : WaitingLock C) : Prop :=
  (∃ lock ∈ active, blocks lock waiter.request = true) ∨
    ∃ other ∈ earlier, blocks other.request waiter.request = true

/-- Every waiter is obstructed by a lock or by a waiter before it. -/
def AllObstructed (active : List ByteRangeLockRequest) (waiting : List (WaitingLock C)) : Prop :=
  ∀ earlier waiter later, waiting = earlier ++ waiter :: later →
    Obstructed active earlier waiter

/-- No waiter of the table is stranded. -/
def NoneStranded (table : ByteRangeLockTable C) : Prop :=
  AllObstructed table.active table.waiting

theorem Obstructed.mono {active' : List ByteRangeLockRequest}
    {earlier earlier' : List (WaitingLock C)} (h : Obstructed active earlier waiter)
    (hactive : active ⊆ active')
    (hearlier : earlier ⊆ earlier') : Obstructed active' earlier' waiter := by
  rcases h with ⟨lock, hlock, hblocks⟩ | ⟨other, hother, hblocks⟩
  · exact Or.inl ⟨lock, hactive hlock, hblocks⟩
  · exact Or.inr ⟨other, hearlier hother, hblocks⟩

theorem AllObstructed.mono {active' : List ByteRangeLockRequest} {waiting : List (WaitingLock C)}
    (h : AllObstructed active waiting)
    (hactive : active ⊆ active') : AllObstructed active' waiting :=
  fun earlier waiter later hqueue =>
    (h earlier waiter later hqueue).mono hactive (List.Subset.refl _)

theorem allObstructed_nil (active : List ByteRangeLockRequest) :
    AllObstructed active ([] : List (WaitingLock C)) := by
  intro earlier waiter later hqueue
  simp at hqueue

/-- A newcomer at the end of the queue. -/
theorem AllObstructed.concat {waiting : List (WaitingLock C)} (h : AllObstructed active waiting)
    (hwaiter : Obstructed active waiting waiter) : AllObstructed active (waiting ++ [waiter]) := by
  intro earlier other later hqueue
  rcases eq_nil_or_concat later with rfl | ⟨later, last, rfl⟩
  · obtain ⟨rfl, hlast⟩ := append_inj' hqueue rfl
    rw [← singleton_inj.mp hlast]
    exact hwaiter
  · rw [concat_eq_append, ← cons_append, ← append_assoc] at hqueue
    exact h earlier other later (append_inj' hqueue rfl).1

/-! ## A pass over the queue -/

/-- The test of the pass. -/
theorem obstructed_iff {earlier : List (WaitingLock C)} :
    ((active.any fun lock => blocks lock waiter.request) ||
        earlier.any fun other => blocks other.request waiter.request) = true ↔
      Obstructed active earlier waiter := by
  simp [Obstructed]

/-- After the pass every waiter that is left is obstructed. -/
theorem reconsiderLoop_obstructed {kept : List (WaitingLock C)}
    (completed : List (ByteRangeLockCompletion C)) (rest : List (WaitingLock C))
    (hkept : AllObstructed active kept) :
    AllObstructed (reconsiderLoop kept active completed rest).2.1
      (reconsiderLoop kept active completed rest).1 := by
  induction rest generalizing kept active completed with
  | nil => exact hkept
  | cons waiter rest ih =>
    rw [reconsiderLoop]
    split
    case isTrue hobstructed => exact ih completed (hkept.concat (obstructed_iff.mp hobstructed))
    case isFalse =>
      -- The lock served now can only obstruct the waiters already passed over.
      exact ih _ (hkept.mono (subset_append_left _ _))

theorem noneStranded_reconsiderWaiters (table : ByteRangeLockTable C) :
    NoneStranded (reconsiderWaiters table) :=
  reconsiderLoop_obstructed table.completed table.waiting (allObstructed_nil table.active)

/-- A pass over obstructed waiters changes nothing. -/
theorem reconsiderLoop_eq_of_obstructed {kept : List (WaitingLock C)}
    (completed : List (ByteRangeLockCompletion C)) (rest : List (WaitingLock C))
    (h : AllObstructed active (kept ++ rest)) :
    reconsiderLoop kept active completed rest = (kept ++ rest, active, completed) := by
  induction rest generalizing kept with
  | nil => rw [reconsiderLoop, append_nil]
  | cons waiter rest ih =>
    rw [reconsiderLoop, if_pos (obstructed_iff.mpr (h kept waiter rest rfl))]
    have hmoved : kept ++ [waiter] ++ rest = kept ++ waiter :: rest := by
      rw [append_assoc, singleton_append]
    rw [ih (hmoved ▸ h), hmoved]

/-- Nobody is stranded if and only if a pass over the queue would serve nobody. -/
theorem noneStranded_iff_reconsiderWaiters_eq (table : ByteRangeLockTable C) :
    NoneStranded table ↔ reconsiderWaiters table = table := by
  constructor
  · intro h
    have hloop : reconsiderLoop [] table.active table.completed table.waiting =
        ([] ++ table.waiting, table.active, table.completed) :=
      reconsiderLoop_eq_of_obstructed table.completed table.waiting h
    simp only [reconsiderWaiters]
    rw [hloop, nil_append]
  · intro h
    rw [← h]
    exact noneStranded_reconsiderWaiters table

/-! ## The cancellations -/

/-- Removing the waiter between the two parts of the queue leaves nobody after it
unobstructed who was held back by it. -/
def HarmlessCancelWait (table : ByteRangeLockTable C) (waitId : UInt64) : Prop :=
  ∀ before cancelled after, table.waiting = before ++ cancelled :: after →
    cancelled.id = waitId → (∀ waiter ∈ before, waiter.id ≠ waitId) →
    ∀ between waiter later, after = between ++ waiter :: later →
      blocks cancelled.request waiter.request = true →
      Obstructed table.active (before ++ between) waiter

/-- Whoever stays and is held back by a waiter of the given owners is held back by
somebody else too. -/
def HarmlessCancelOwners (table : ByteRangeLockTable C) (owned : ByteRangeLockOwner → Bool) :
    Prop :=
  ∀ earlier waiter later, table.waiting = earlier ++ waiter :: later →
    owned waiter.request.owner = false →
    (∃ cancelled ∈ earlier, owned cancelled.request.owner = true ∧
      blocks cancelled.request waiter.request = true) →
    Obstructed table.active (earlier.filter fun other => !owned other.request.owner) waiter

/-- The call is not a cancellation, or it is refused by the allocator, or it is harmless. -/
def Harmless (table : ByteRangeLockTable C) : LockOp C → Prop
  | .cancelWait waitId reserved => reserved = true → HarmlessCancelWait table waitId
  | .cancelWaitsFor fileObject processId reserved =>
    reserved = true → HarmlessCancelOwners table (ofProcess fileObject processId)
  | _ => True

/-- Taking one waiter out of the queue. -/
theorem allObstructed_remove_iff {before after : List (WaitingLock C)} {cancelled : WaitingLock C}
    (h : AllObstructed active (before ++ cancelled :: after)) :
    AllObstructed active (before ++ after) ↔
      ∀ between waiter later, after = between ++ waiter :: later →
        blocks cancelled.request waiter.request = true →
        Obstructed active (before ++ between) waiter := by
  constructor
  · intro hafter between waiter later hsplit _
    refine hafter (before ++ between) waiter later ?_
    rw [hsplit, append_assoc]
  · intro hharmless earlier waiter later hqueue
    rcases append_eq_append_iff.mp hqueue with ⟨between, rfl, hsplit⟩ | ⟨rest, hsplit, hrest⟩
    · -- The waiter stood behind the cancelled one.
      have hwas := h (before ++ cancelled :: between) waiter later (by rw [hsplit]; simp)
      rcases hwas with hlock | ⟨other, hother, hblocks⟩
      · exact Or.inl hlock
      · rcases mem_append.mp hother with hmem | hmem
        · exact Or.inr ⟨other, mem_append_left _ hmem, hblocks⟩
        · rcases mem_cons.mp hmem with rfl | hmem
          · exact hharmless between waiter later hsplit hblocks
          · exact Or.inr ⟨other, mem_append_right _ hmem, hblocks⟩
    · cases rest with
      | nil =>
        -- The waiter stood directly behind the cancelled one.
        rw [append_nil] at hsplit
        rw [nil_append] at hrest
        subst hsplit
        have hwas := h (before ++ [cancelled]) waiter later (by rw [← hrest]; simp)
        rcases hwas with hlock | ⟨other, hother, hblocks⟩
        · exact Or.inl hlock
        · rcases mem_append.mp hother with hmem | hmem
          · exact Or.inr ⟨other, hmem, hblocks⟩
          · rw [mem_singleton.mp hmem] at hblocks
            simpa using hharmless [] waiter later hrest.symm hblocks
      | cons first rest =>
        obtain ⟨rfl, -⟩ := cons_eq_cons.mp hrest
        refine h earlier waiter (rest ++ cancelled :: after) ?_
        rw [hsplit, append_assoc, cons_append]

theorem noneStranded_cancelWait_iff {table : ByteRangeLockTable C} (h : NoneStranded table)
    (waitId : UInt64) (reserved : Bool) : NoneStranded (table.cancelWait waitId reserved).1 ↔
      (reserved = true → HarmlessCancelWait table waitId) := by
  cases hfind : table.waiting.find? (isWaiter waitId) with
  | none =>
    have habsent : ∀ waiter ∈ table.waiting, waiter.id ≠ waitId := by
      simpa [isWaiter] using hfind
    simp only [cancelWait, hfind]
    refine iff_of_true h fun _ before cancelled after hqueue hid _ => ?_
    exact absurd hid (habsent cancelled (by simp [hqueue]))
  | some cancelled =>
    cases reserved with
    | false => simpa [cancelWait, hfind] using h
    | true =>
      obtain ⟨hid, before, after, hqueue, hbefore⟩ := List.find?_eq_some_iff_append.mp hfind
      have hbefore : ∀ waiter ∈ before, waiter.id ≠ waitId := by simpa [isWaiter] using hbefore
      have hid : cancelled.id = waitId := by simpa [isWaiter] using hid
      have herase : table.waiting.eraseP (isWaiter waitId) = before ++ after := by
        rw [hqueue, eraseP_append_right _ (by simpa [isWaiter] using hbefore),
          eraseP_cons_of_pos (by simpa [isWaiter] using hid)]
      have hremove := allObstructed_remove_iff (hqueue ▸ h :
        AllObstructed table.active (before ++ cancelled :: after))
      simp only [cancelWait, hfind, Bool.not_true, Bool.false_eq_true, if_false, forall_const,
        NoneStranded, herase]
      rw [hremove]
      constructor
      · intro hharmless before' cancelled' after' hqueue' hid' hbefore'
        -- The first waiter with the identifier is the one that was found.
        obtain ⟨rfl, rfl, rfl⟩ := IntrusiveQueue.split_unique (hqueue'.symm.trans hqueue) hbefore'
          hbefore hid' hid
        exact hharmless
      · intro hharmless
        exact hharmless before cancelled after hqueue hid hbefore

theorem noneStranded_cancelOwners_iff {table : ByteRangeLockTable C} (h : NoneStranded table)
    (owned : ByteRangeLockOwner → Bool) :
    NoneStranded (table.cancelOwners owned) ↔ HarmlessCancelOwners table owned := by
  constructor
  · intro hafter earlier waiter later hqueue howned _
    refine hafter _ waiter (later.filter fun other => !owned other.request.owner) ?_
    simp only [cancelOwners, hqueue, filter_append]
    rw [filter_cons_of_pos (by simp [howned])]
  · intro hharmless earlier waiter later hqueue
    obtain ⟨front, back, hsplit, hfront, hback⟩ := filter_eq_append_iff.mp hqueue
    obtain ⟨skipped, rest, hskip, hnone, howned, hrest⟩ := filter_eq_cons_iff.mp hback
    have hwas := h (front ++ skipped) waiter rest (by rw [hsplit, hskip, append_assoc])
    have hkept : (front ++ skipped).filter (fun other => !owned other.request.owner) = earlier := by
      rw [filter_append, hfront, filter_eq_nil_iff.mpr hnone, append_nil]
    rcases hwas with hlock | ⟨other, hother, hblocks⟩
    · exact Or.inl hlock
    · cases ho : owned other.request.owner with
      | false =>
        refine Or.inr ⟨other, ?_, hblocks⟩
        rw [← hkept]
        exact mem_filter.mpr ⟨hother, by simp [ho]⟩
      | true =>
        rw [← hkept]
        exact hharmless (front ++ skipped) waiter rest
          (by rw [hsplit, hskip, append_assoc]) (by simpa using howned)
          ⟨other, hother, ho, hblocks⟩

/-! ## Runs -/

theorem noneStranded_lock {s : History C} (h : NoneStranded s.table)
    (request : ByteRangeLockRequest) (failImmediately : Bool) (context : C) (reserved : Bool) :
    NoneStranded (s.step (.lock request failImmediately context reserved)).table := by
  simp only [History.step, lock]
  split_ifs with hvalid hfree _ _ _
  · exact h
  · exact h
  · exact h.mono (subset_append_left _ _)
  · exact h
  · exact h
  · refine h.concat (obstructed_iff.mp ?_)
    rw [Bool.and_eq_true, Bool.not_eq_true', Bool.not_eq_true', ← Bool.or_eq_false_iff] at hfree
    exact Bool.eq_true_of_not_eq_false hfree

/-- From a table in which nobody is stranded, a call leaves somebody stranded exactly if it
is a harmful cancellation. -/
theorem noneStranded_step_iff {s : History C} (h : NoneStranded s.table) (op : LockOp C) :
    NoneStranded (s.step op).table ↔ Harmless s.table op := by
  cases op with
  | lock request failImmediately context reserved =>
    exact iff_of_true (noneStranded_lock h request failImmediately context reserved) trivial
  | unlockSingle request reserved =>
    refine iff_of_true ?_ trivial
    simp only [History.step, unlockSingle]
    split_ifs
    · exact h
    · exact h
    · exact h
    · exact noneStranded_reconsiderWaiters _
  | cancelWait waitId reserved => exact noneStranded_cancelWait_iff h waitId reserved
  | cancelWaitsFor fileObject processId reserved =>
    cases reserved with
    | false => simpa [History.step, cancelWaitsFor, Harmless] using h
    | true =>
      simpa [History.step, cancelWaitsFor, Harmless] using
        noneStranded_cancelOwners_iff h (ofProcess fileObject processId)
  | cleanupFileObject | cleanupFileObjectAll =>
    refine iff_of_true ?_ trivial
    simp only [History.step, cleanupFileObject, cleanupFileObjectAll]
    split_ifs
    · exact h
    · exact h
    · exact noneStranded_reconsiderWaiters _
  | popCompletion => exact iff_of_true h trivial

theorem noneStranded_start : NoneStranded (History.start : History C).table := allObstructed_nil _

/-- A reader holds a range, a writer waits for it and another reader waits behind the writer;
then the writer gives up. -/
def writerGivesUp : List (LockOp Unit) :=
  [.lock ⟨1, ⟨1, 1, 0⟩, 0, 10, false⟩ false () true,
    .lock ⟨1, ⟨2, 1, 0⟩, 0, 10, true⟩ false () true,
    .lock ⟨1, ⟨3, 1, 0⟩, 0, 10, false⟩ false () true,
    .cancelWait 1 true]

/-- The second reader is stranded: the next pass over the queue would serve it. -/
theorem cancel_strands_waiter :
    ¬ NoneStranded (History.start.run writerGivesUp).table ∧
      reconsiderWaiters (History.start.run writerGivesUp).table ≠
        (History.start.run writerGivesUp).table := by
  have hserved : reconsiderWaiters (History.start.run writerGivesUp).table ≠
      (History.start.run writerGivesUp).table := by decide
  exact ⟨fun h => hserved ((noneStranded_iff_reconsiderWaiters_eq _).mp h), hserved⟩

/-- **Stranded waiters.**  In a run nobody is ever stranded, that is no pass over the queue
would ever serve anybody, if and only if every cancellation in it is harmless. -/
theorem noneStranded_iff_harmless (ops : List (LockOp C)) :
    ((∀ before after, ops = before ++ after → NoneStranded (History.start.run before).table) ↔
      ∀ before op after, ops = before ++ op :: after →
        Harmless (History.start.run before).table op) ∧
    ∀ before after, ops = before ++ after →
      (NoneStranded (History.start.run before).table ↔
        reconsiderWaiters (History.start.run before).table =
          (History.start.run before).table) := by
  refine ⟨?_, fun before _ _ => noneStranded_iff_reconsiderWaiters_eq _⟩
  exact Runs.holds_iff_harmless (P := fun s : History C => NoneStranded s.table)
    noneStranded_start (fun _ op h => noneStranded_step_iff h op) ops

end UserspaceNtos.Fs.ByteLock
