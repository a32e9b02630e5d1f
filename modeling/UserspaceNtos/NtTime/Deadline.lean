import Mathlib.Algebra.Group.Int.Defs
import Mathlib.Algebra.Group.Nat.Defs

/-!
# Deadlines

Times are 64-bit counts of 100 ns.  A relative deadline is kept in monotonic time, an absolute
one in system time; the system time may be set, so an absolute deadline is projected onto the
monotonic clock anew at every sample of the clocks.
-/

namespace UserspaceNtos.NtTime

/-- `TimeSnapshot` -/
structure TimeSnapshot where
  monotonic100ns : ℕ
  systemTime100ns : ℕ
  clockGeneration : ℕ
  deriving DecidableEq, Repr

/-- Both clocks later, if nobody sets the system time. -/
def TimeSnapshot.advance (now : TimeSnapshot) (d : ℕ) : TimeSnapshot :=
  { now with monotonic100ns := now.monotonic100ns + d, systemTime100ns := now.systemTime100ns + d }

/-- `Deadline` -/
inductive Deadline
  | infinite
  | relative (monotonic100ns : ℕ)
  | absolute (systemTime100ns : ℕ)
  deriving DecidableEq, Repr

namespace Deadline

/-- `from_nt_timeout` -/
def fromNtTimeout (interval : Option ℤ) (now : TimeSnapshot) : Deadline :=
  match interval with
  | none => infinite
  | some interval =>
    if interval < 0 then relative (min (now.monotonic100ns + interval.natAbs) (2 ^ 64 - 1))
    else absolute interval.toNat

/-- `is_due` -/
def isDue (now : TimeSnapshot) : Deadline → Bool
  | infinite => false
  | relative monotonic => decide (monotonic ≤ now.monotonic100ns)
  | absolute systemTime => decide (systemTime ≤ now.systemTime100ns)

/-- `monotonic_target` -/
def monotonicTarget (now : TimeSnapshot) : Deadline → Option ℕ
  | infinite => none
  | relative monotonic => some monotonic
  | absolute systemTime =>
    some (if systemTime ≤ now.systemTime100ns then now.monotonic100ns
      else min (now.monotonic100ns + (systemTime - now.systemTime100ns)) (2 ^ 64 - 1))

/-- The deadline in monotonic time, also when it has passed. -/
def orderingKey (now : TimeSnapshot) : Deadline → ℤ
  | infinite => 2 ^ 127 - 1
  | relative monotonic => monotonic
  | absolute systemTime => now.monotonic100ns + systemTime - now.systemTime100ns

/-- The projection onto the monotonic clock is not cut off at the end of that clock. -/
def Unsaturated (now : TimeSnapshot) (deadline : Deadline) : Prop :=
  ∀ s, deadline = absolute s → now.monotonic100ns + (s - now.systemTime100ns) < 2 ^ 64

/-- A deadline is due from the moment on that is its target. -/
theorem isDue_advance_iff {now : TimeSnapshot} {deadline : Deadline}
    (h : deadline.Unsaturated now) (d : ℕ) :
    deadline.isDue (now.advance d) = true ↔
      ∃ target ∈ deadline.monotonicTarget now, target ≤ now.monotonic100ns + d := by
  cases deadline with
  | infinite => simp [isDue, monotonicTarget]
  | relative monotonic => simp [isDue, monotonicTarget]; rfl
  | absolute s =>
    have hfits := h s rfl
    simp only [isDue, monotonicTarget, decide_eq_true_eq, Option.mem_some_iff, exists_eq_left']
    dsimp only [TimeSnapshot.advance]
    split <;> omega

end Deadline

end UserspaceNtos.NtTime
