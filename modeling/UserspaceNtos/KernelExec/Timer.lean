import UserspaceNtos.NtTime.Deadline
import Mathlib.Logic.Function.Iterate

/-!
# The timer queue and its one-shots

`next_deadline_at` is the moment for which the interval timer is armed, and
`run_due_expirations_at` is what happens then.  The counter of the interval timer runs at
`pitInputHz` and is at most `pitMaxTicks` long, so that a long wait takes several shots.
-/

namespace UserspaceNtos.KernelExec

open List NtTime

/-- `Timer` -/
structure Timer where
  ptr : ℕ
  deadline : Deadline
  period100ns : ℕ
  dpcPtr : Option ℕ
  active : Bool
  signaled : Bool

/-- `TimerExpiry` -/
structure TimerExpiry where
  timerPtr : ℕ
  dpcPtr : Option ℕ

/-- The test of the loop of `run_due_expirations_at`. -/
def Timer.isDue (now : TimeSnapshot) (t : Timer) : Bool := t.active && t.deadline.isDue now

/-- A timer expires.  A periodic one is set again, relative to the sampled clock. -/
def Timer.expire (now : TimeSnapshot) (t : Timer) : Timer :=
  if 0 < t.period100ns then
    { t with
      signaled := true
      deadline := .relative (min (now.monotonic100ns + t.period100ns) (2 ^ 64 - 1)) }
  else { t with signaled := true, active := false }

/-- The timers of a queue. -/
abbrev TimerQueue := List Timer

namespace TimerQueue

/-- `next_deadline_at` -/
def nextDeadlineAt (q : TimerQueue) (now : TimeSnapshot) : Option ℕ :=
  ((q.filter (·.active)).filterMap (·.deadline.monotonicTarget now)).min?

/-- `run_due_expirations_at` -/
def runDueExpirationsAt (q : TimerQueue) (now : TimeSnapshot) : List TimerExpiry × TimerQueue :=
  ((q.filter (·.isDue now)).map fun t => ⟨t.ptr, t.dpcPtr⟩,
    q.map fun t => if t.isDue now then t.expire now else t)

/-- No target is cut off at the end of the clock. -/
def Unsaturated (q : TimerQueue) (now : TimeSnapshot) : Prop :=
  ∀ t ∈ q, t.deadline.Unsaturated now

/-- Something expires as soon as the target is reached, and not before. -/
theorem expirations_eq_nil_iff {q : TimerQueue} {now : TimeSnapshot} (h : q.Unsaturated now)
    (d : ℕ) :
    (q.runDueExpirationsAt (now.advance d)).1 = [] ↔
      ∀ next ∈ q.nextDeadlineAt now, now.monotonic100ns + d < next := by
  have hdue : (q.runDueExpirationsAt (now.advance d)).1 = [] ↔
      ∀ target ∈ (q.filter (·.active)).filterMap (·.deadline.monotonicTarget now),
        now.monotonic100ns + d < target := by
    simp only [runDueExpirationsAt, map_eq_nil_iff, filter_eq_nil_iff, Timer.isDue,
      Bool.and_eq_true, not_and, mem_filterMap, mem_filter]
    constructor
    · rintro hnone target ⟨t, ⟨ht, hactive⟩, htarget⟩
      by_contra hle
      exact hnone t ht hactive
        ((Deadline.isDue_advance_iff (h t ht) d).mpr ⟨target, htarget, by omega⟩)
    · intro hlt t ht hactive hdue
      obtain ⟨target, htarget, hle⟩ := (Deadline.isDue_advance_iff (h t ht) d).mp hdue
      have := hlt target ⟨t, ⟨ht, hactive⟩, htarget⟩
      omega
  rw [hdue]
  cases hmin : q.nextDeadlineAt now with
  | none =>
    rw [min?_eq_none_iff.mp hmin]
    simp
  | some next =>
    simp only [Option.mem_some_iff, forall_eq']
    exact (le_min?_iff hmin).symm

end TimerQueue

/-! ## One-shots of the interval timer -/

/-- `PIT_INPUT_HZ` -/
def pitInputHz : ℕ := 1193182

/-- `HUNDRED_NS_PER_SECOND` -/
def hundredNsPerSecond : ℕ := 10000000

/-- `PIT_MAX_TICKS` -/
def pitMaxTicks : ℕ := 65536

/-- `PitOneShot` -/
structure PitOneShot where
  reload : ℕ
  ticks : ℕ
  wakeDeadline100ns : ℕ
  chunked : Bool

/-- `div_ceil_u128` -/
def divCeil (numerator denominator : ℕ) : ℕ :=
  numerator / denominator + if numerator % denominator ≠ 0 then 1 else 0

/-- `pit_oneshot_for_deadline`.  The products stay below 2¹²⁸. -/
def pitOneshotForDeadline (now deadline minimumDelay : ℕ) : PitOneShot :=
  let requested := max (max (deadline - now) minimumDelay) 1
  let ticks := min (max (divCeil (requested * pitInputHz) hundredNsPerSecond) 1) pitMaxTicks
  let represented := divCeil (ticks * hundredNsPerSecond) pitInputHz
  let wakeDeadline := min (now + represented) (2 ^ 64 - 1)
  ⟨if ticks = pitMaxTicks then 0 else ticks, ticks, wakeDeadline, wakeDeadline < deadline⟩

/-- The counter does not run out before the deadline. -/
def PitOneShot.NotEarly (shot : PitOneShot) (now deadline : ℕ) : Prop :=
  deadline * pitInputHz ≤ now * pitInputHz + shot.ticks * hundredNsPerSecond

/-- The clock after a number of shots, each armed when the one before it is due. -/
def rearmed (now deadline minimumDelay shots : ℕ) : ℕ :=
  (fun now => (pitOneshotForDeadline now deadline minimumDelay).wakeDeadline100ns)^[shots] now

theorem divCeil_spec (n : ℕ) {k : ℕ} (hk : 0 < k) :
    n ≤ divCeil n k * k ∧ divCeil n k * k < n + k := by
  have hdiv := Nat.div_add_mod' n k
  have hmod := Nat.mod_lt n hk
  rw [divCeil, Nat.add_mul]
  split <;> omega

section OneShot

variable (now deadline minimumDelay : ℕ)

/-- A shot lasts as long as is asked for, or as long as it can, and what it is taken to last is
rounded up. -/
theorem oneshot_spec : ∃ ticks represented, 1 ≤ ticks ∧ ticks ≤ 65536 ∧
    ((deadline - now) * 1193182 ≤ ticks * 10000000 ∨ ticks = 65536) ∧
    ticks * 10000000 ≤ represented * 1193182 ∧
    represented * 1193182 < ticks * 10000000 + 1193182 ∧
    pitOneshotForDeadline now deadline minimumDelay =
      ⟨if ticks = pitMaxTicks then 0 else ticks, ticks, min (now + represented) (2 ^ 64 - 1),
        min (now + represented) (2 ^ 64 - 1) < deadline⟩ := by
  have hticks := divCeil_spec (max (max (deadline - now) minimumDelay) 1 * pitInputHz)
    (k := hundredNsPerSecond) (by decide)
  refine ⟨_, _, ?_, ?_, ?_, (divCeil_spec _ (by decide)).1, (divCeil_spec _ (by decide)).2, rfl⟩
  all_goals
    rw [pitInputHz, hundredNsPerSecond] at *
    rw [pitMaxTicks]
    omega

variable {now deadline} (hdeadline : deadline < 2 ^ 64)
include hdeadline

/-- Every shot brings the clock closer to the deadline. -/
theorem rearmed_lt_succ {shots : ℕ} (hlt : rearmed now deadline minimumDelay shots < deadline) :
    rearmed now deadline minimumDelay shots < rearmed now deadline minimumDelay (shots + 1) := by
  obtain ⟨ticks, represented, hspec⟩ :=
    oneshot_spec (rearmed now deadline minimumDelay shots) deadline minimumDelay
  have hnext : rearmed now deadline minimumDelay (shots + 1) =
      min (rearmed now deadline minimumDelay shots + represented) (2 ^ 64 - 1) := by
    rw [rearmed, Function.iterate_succ_apply']
    exact congrArg PitOneShot.wakeDeadline100ns hspec.2.2.2.2.2
  omega

theorem exists_deadline_le_rearmed :
    ∃ shots, deadline ≤ rearmed now deadline minimumDelay shots := by
  by_contra hnone
  have hlt : ∀ shots, rearmed now deadline minimumDelay shots < deadline := by simpa using hnone
  have hle : ∀ shots, shots ≤ rearmed now deadline minimumDelay shots := by
    intro shots
    induction shots with
    | zero => exact Nat.zero_le _
    | succ shots ih =>
      exact Nat.lt_of_le_of_lt ih (rearmed_lt_succ minimumDelay hdeadline (hlt shots))
  exact absurd (hle deadline) (Nat.not_le.mpr (hlt deadline))

end OneShot

/-- A queue is armed for the first moment at which a timer expires, and a deadline is reached in
finitely many shots.  A shot that is not marked as a part runs out before its deadline in one
case: the deadline is what the longest shot lasts, rounded up. -/
theorem timer_arming (q : TimerQueue) (snapshot : TimeSnapshot) (h : q.Unsaturated snapshot)
    (now deadline minimumDelay : ℕ) (hdeadline : deadline < 2 ^ 64) :
    let shot := pitOneshotForDeadline now deadline minimumDelay
    let clock := rearmed now deadline minimumDelay
    (∀ d, (q.runDueExpirationsAt (snapshot.advance d)).1 = [] ↔
      ∀ next ∈ q.nextDeadlineAt snapshot, snapshot.monotonic100ns + d < next) ∧
    1 ≤ shot.ticks ∧ shot.ticks ≤ pitMaxTicks ∧
    ((shot.chunked = false → shot.NotEarly now deadline) ↔ deadline ≠ now + 549255) ∧
    (∃ shots, deadline ≤ clock shots) ∧
    ∀ shots, clock shots < deadline → clock shots < clock (shots + 1) := by
  intro shot clock
  obtain ⟨ticks, represented, hpos, hle, hlasts, hfloor, hceil, hshot⟩ :=
    oneshot_spec now deadline minimumDelay
  refine ⟨TimerQueue.expirations_eq_nil_iff h, ?_, ?_, ?_,
    exists_deadline_le_rearmed minimumDelay hdeadline,
    fun _ => rearmed_lt_succ minimumDelay hdeadline⟩
  all_goals simp only [shot, hshot, PitOneShot.NotEarly, decide_eq_false_iff_not, pitInputHz,
    hundredNsPerSecond, pitMaxTicks]
  all_goals omega

theorem timer_arming_mixed :
    let now : TimeSnapshot := ⟨5, 100, 0⟩
    let q : TimerQueue := [⟨1, .absolute 130, 0, none, true, false⟩,
      ⟨2, .relative 60, 10, some 7, true, false⟩, ⟨3, .relative 0, 0, none, false, true⟩]
    q.Unsaturated now ∧ q.nextDeadlineAt now = some 35 ∧
      (q.runDueExpirationsAt (now.advance 29)).1 = [] ∧
      ∃ shots, 1200000 ≤ rearmed 5 1200000 0 shots := by
  intro now q
  have h : q.Unsaturated now := by simp [TimerQueue.Unsaturated, Deadline.Unsaturated, q, now]
  obtain ⟨hfirst, -, -, -, hreached, -⟩ := timer_arming q now h 5 1200000 0 (by decide)
  exact ⟨h, rfl, (hfirst 29).mpr (by decide), hreached⟩

/-- A shot for 54.9255 ms ends 98.8 ns before its deadline. -/
theorem oneshot_early :
    let shot := pitOneshotForDeadline 0 549255 0
    shot.ticks = 65536 ∧ shot.chunked = false ∧ ¬ shot.NotEarly 0 549255 := by
  unfold PitOneShot.NotEarly
  decide

end UserspaceNtos.KernelExec
