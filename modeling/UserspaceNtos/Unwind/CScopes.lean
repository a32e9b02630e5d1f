import Mathlib.Tactic.Common

/-!
# The scope table of a C function

In the unwind pass a language handler calls `next_c_scope` until the answer is `ContinueSearch`, and
runs the finally handler of every other answer.  Between two calls it keeps the scope index only, so
a walk that another unwind interrupts goes on from there.
-/

namespace UserspaceNtos.Unwind

open List

/-- `EXCEPTION_UNWINDING` -/
def exceptionUnwinding : UInt32 := 0x2
/-- `EXCEPTION_EXIT_UNWIND` -/
def exceptionExitUnwind : UInt32 := 0x4
/-- `EXCEPTION_TARGET_UNWIND` -/
def exceptionTargetUnwind : UInt32 := 0x20
/-- `EXCEPTION_COLLIDED_UNWIND` -/
def exceptionCollidedUnwind : UInt32 := 0x40
/-- `EXCEPTION_UNWIND` -/
def exceptionUnwind : UInt32 :=
  exceptionUnwinding ||| exceptionExitUnwind ||| exceptionTargetUnwind |||
    exceptionCollidedUnwind
/-- `SCOPE_HANDLER_EXECUTE` -/
def scopeHandlerExecute : ℕ := 1

/-- A guarded range; a `target` of zero is that of a finally block. -/
structure ScopeRecord where
  begin : ℕ
  stop : ℕ
  handler : ℕ
  target : ℕ

/-- `CScopeAction` -/
inductive CScopeAction
  | continueSearch
  | filter (handlerRva targetRva scopeIndex : ℕ)
  | finally (handlerRva endRva : ℕ)
  | executeHandler (targetRva scopeIndex : ℕ)
  deriving DecidableEq

/-- The action and the next scope index, from the records at `scopeIndex` and behind it. -/
def nextCScope (pcRva targetRva : ℕ) (flags : UInt32) (scopeIndex : ℕ) :
    List ScopeRecord → CScopeAction × ℕ
  | [] => (.continueSearch, scopeIndex)
  | scope :: scopes =>
    if pcRva < scope.begin ∨ scope.stop ≤ pcRva then
      nextCScope pcRva targetRva flags (scopeIndex + 1) scopes
    else if flags &&& exceptionUnwind ≠ 0 then
      if scope.begin ≤ targetRva ∧ targetRva ≤ scope.stop then (.continueSearch, scopeIndex + 1)
      else if scope.target = 0 then (.finally scope.handler scope.stop, scopeIndex + 1)
      else if targetRva = scope.target then (.continueSearch, scopeIndex + 1)
      else nextCScope pcRva targetRva flags (scopeIndex + 1) scopes
    else if scope.target ≠ 0 then
      (if scope.handler = scopeHandlerExecute then .executeHandler scope.target scopeIndex
        else .filter scope.handler scope.target scopeIndex, scopeIndex + 1)
    else nextCScope pcRva targetRva flags (scopeIndex + 1) scopes

/-- A frame that is unwound. -/
structure Frame where
  scopes : List ScopeRecord
  pcRva : ℕ
  targetRva : ℕ
  flags : UInt32
  unwinding : flags &&& exceptionUnwind ≠ 0

namespace Frame

variable (f : Frame) (s : ScopeRecord)

/-- The scope covers the program counter. -/
def Covers : Prop := s.begin ≤ f.pcRva ∧ f.pcRva < s.stop

/-- The target is in the scope, its end included, or is the body of its `__except`. -/
def Stops : Prop :=
  s.begin ≤ f.targetRva ∧ f.targetRva ≤ s.stop ∨ s.target ≠ 0 ∧ f.targetRva = s.target

instance : DecidablePred f.Covers := fun _ => inferInstanceAs (Decidable (_ ∧ _))
instance : DecidablePred f.Stops := fun _ => inferInstanceAs (Decidable (_ ∨ _))

/-- The handlers and ends of the finally scopes. -/
def finallies (scopes : List ScopeRecord) : List (ℕ × ℕ) :=
  (scopes.filter (·.target = 0)).map fun s => (s.handler, s.stop)

/-- The finally handlers in front of the first scope around the control PC that has the target. -/
def inFront (scopes : List ScopeRecord) : List (ℕ × ℕ) :=
  finallies ((scopes.filter (f.Covers ·)).takeWhile (¬ f.Stops ·))

/-- The frame is the target of the unwind. -/
def IsTarget : Prop := f.flags &&& exceptionTargetUnwind ≠ 0

instance : Decidable f.IsTarget := inferInstanceAs (Decidable (_ ≠ _))

/-- The finally handlers that the unwind leaves. -/
def left : List (ℕ × ℕ) :=
  if f.IsTarget then f.inFront f.scopes else finallies (f.scopes.filter (f.Covers ·))

/-- The scopes around the control PC from the first one that has the target on. -/
def behind : List ScopeRecord := (f.scopes.filter (f.Covers ·)).dropWhile (¬ f.Stops ·)

/-- `next_c_scope` on this frame. -/
def next : ℕ → List ScopeRecord → CScopeAction × ℕ := nextCScope f.pcRva f.targetRva f.flags

/-- The handlers that are run in a number of calls, and the scope index that is then saved. -/
def walk : (calls scopeIndex : ℕ) → List (ℕ × ℕ) × ℕ
  | 0, scopeIndex => ([], scopeIndex)
  | calls + 1, scopeIndex =>
    match f.next scopeIndex (f.scopes.drop scopeIndex) with
    | (.finally handler last, next) =>
      ((handler, last) :: (walk calls next).1, (walk calls next).2)
    | (_, next) => ([], next)

variable {f s}

theorem inFront_cons (scopes : List ScopeRecord) : f.inFront (s :: scopes) =
    if f.Covers s then
      if f.Stops s then []
      else if s.target = 0 then (s.handler, s.stop) :: f.inFront scopes else f.inFront scopes
    else f.inFront scopes := by
  unfold inFront finallies
  by_cases hcovers : f.Covers s <;> by_cases hstops : f.Stops s <;>
    by_cases htarget : s.target = 0 <;> simp [hcovers, hstops, htarget]

theorem next_cons (index : ℕ) (scopes : List ScopeRecord) : f.next index (s :: scopes) =
    if f.Covers s then
      if f.Stops s then (.continueSearch, index + 1)
      else if s.target = 0 then (.finally s.handler s.stop, index + 1)
      else f.next (index + 1) scopes
    else f.next (index + 1) scopes := by
  rw [next, nextCScope, if_pos f.unwinding]
  by_cases hcovers : f.Covers s
  · rw [if_pos hcovers, if_neg (by unfold Covers at hcovers; omega)]
    grind [Stops]
  · rw [if_neg hcovers, if_pos (by unfold Covers at hcovers; omega)]

/-- A call finds the first handler in front of the target and leaves the others to the next. -/
theorem next_cases (index : ℕ) (scopes : List ScopeRecord) :
    (f.inFront scopes = [] ∧ ∃ saved, f.next index scopes = (.continueSearch, saved)) ∨
    ∃ handler last n, f.inFront scopes = (handler, last) :: f.inFront (scopes.drop n) ∧
      f.next index scopes = (.finally handler last, index + n) := by
  induction scopes generalizing index with
  | nil => exact .inl ⟨rfl, index, rfl⟩
  | cons s scopes ih =>
    rw [inFront_cons, next_cons]
    split_ifs
    · exact .inl ⟨rfl, _, rfl⟩
    · exact .inr ⟨_, _, 1, rfl, rfl⟩
    all_goals
      refine (ih (index + 1)).imp_right ?_
      rintro ⟨handler, last, n, hfront, hnext⟩
      exact ⟨handler, last, n + 1, hfront, by rw [hnext, Nat.add_right_comm, Nat.add_assoc]⟩

theorem walk_spec (calls index : ℕ) :
    (f.walk calls index).1 = (f.inFront (f.scopes.drop index)).take calls ∧
      (calls ≤ (f.inFront (f.scopes.drop index)).length →
        f.inFront (f.scopes.drop (f.walk calls index).2) =
          (f.inFront (f.scopes.drop index)).drop calls) := by
  induction calls generalizing index with
  | zero => exact ⟨rfl, fun _ => rfl⟩
  | succ calls ih =>
    rw [walk]
    rcases f.next_cases index (f.scopes.drop index) with
      ⟨hnil, saved, hnext⟩ | ⟨handler, last, n, hfront, hnext⟩
    · rw [hnil, hnext]
      exact ⟨rfl, fun hle => absurd hle (Nat.not_succ_le_zero _)⟩
    · obtain ⟨hrun, hleft⟩ := ih (index + n)
      rw [drop_drop] at hfront
      rw [hfront, hnext]
      exact ⟨congrArg _ hrun, fun hle => hleft (Nat.le_of_succ_le_succ hle)⟩

theorem inFront_eq_left_iff :
    f.inFront f.scopes = f.left ↔ f.IsTarget ∨ ∀ s ∈ f.behind, s.target ≠ 0 := by
  have hsplit : finallies (f.scopes.filter (f.Covers ·)) =
      f.inFront f.scopes ++ finallies f.behind := by
    rw [inFront, finallies, finallies, finallies, ← map_append, ← filter_append, behind,
      takeWhile_append_dropWhile]
  unfold left
  split_ifs with htarget
  · simp [htarget]
  · rw [hsplit, self_eq_append_right]
    simp [finallies, htarget, filter_eq_nil_iff]

/-- The handlers that the unwind leaves are run in their order and once, also if the walk goes on
from a saved index, unless the frame is not the target and one of its scopes that has the target is
in front of a finally block. -/
theorem walk_leaves_iff (f : Frame) :
    (∀ calls more flags (unwinding : flags &&& exceptionUnwind ≠ 0), calls ≤ f.left.length →
      (f.walk calls 0).1 ++ ({ f with flags, unwinding }.walk more (f.walk calls 0).2).1 =
        f.left.take (calls + more)) ↔
    f.IsTarget ∨ ∀ s ∈ f.behind, s.target ≠ 0 := by
  rw [← inFront_eq_left_iff]
  constructor
  · intro h
    -- enough calls for both lists
    have hwalk := h 0 (f.left.length + (f.inFront f.scopes).length) f.flags f.unwinding
      (Nat.zero_le _)
    have hrun := (f.walk_spec (f.left.length + (f.inFront f.scopes).length) 0).1
    rw [take_of_length_le (by omega)] at hwalk
    rw [take_of_length_le (by simp)] at hrun
    exact hrun.symm.trans hwalk
  · intro h calls more flags unwinding hle
    rw [← h] at hle ⊢
    obtain ⟨hrun, hleft⟩ := f.walk_spec calls 0
    have hmore := ({ f with flags, unwinding } : Frame).walk_spec more (f.walk calls 0).2
    rw [hmore.1, hrun]
    exact (congrArg (_ ++ take more ·) (hleft hle)).trans take_add.symm

theorem finally_of_recursive_call_skipped :
    let f : Frame := ⟨[⟨0x100, 0x200, 0x300, 0⟩], 0x150, 0x1f0, exceptionUnwinding, by decide⟩
    f.left = [(0x300, 0x200)] ∧ ∀ calls, (f.walk calls 0).1 = [] := by
  intro f
  refine ⟨by decide, fun calls => ?_⟩
  rw [(f.walk_spec calls 0).1]
  exact take_nil

end Frame

end UserspaceNtos.Unwind
