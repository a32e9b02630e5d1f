import UserspaceNtos.PushLock.Frames

/-!
# Steps keep the invariant of the push lock

The accesses that leave the memory as it is: a thread goes on to a place with the same role, and
what it has read is what the new place relies on.
-/

namespace UserspaceNtos.PushLock

open IntrusiveQueue Count

variable {T : Type} [Fintype T] {s : State T} {t : T} {cur old : U64} {purpose : Purpose}
  {generic shared : Bool}

/-! ## Counts -/

section Counts

variable {w : U64} {saved : ℤ} {exclusive shared finishing : ℕ}

theorem Encodes.not_multiple (h : Encodes w saved exclusive shared finishing)
    (hvalid : Valid w) (hexclusive : 1 ≤ exclusive) : isMultiple w = false := by
  by_contra hmultiple
  have hmultiple := Bool.eq_true_of_not_eq_false hmultiple
  have hwaiting := isWaiting_of_isMultiple hvalid hmultiple
  by_cases hlocked : isLocked w = true
  · simp [Encodes, hwaiting, hlocked, hmultiple] at h
    omega
  · simp [Encodes, hwaiting, hlocked] at h
    omega

/-- The last sharer is still unlocking. -/
theorem Encodes.of_finishing (h : Encodes w saved exclusive shared finishing)
    (hfinishing : 1 ≤ finishing) : isWaiting w = true ∧ isLocked w = true ∧ isMultiple w = true ∧
      exclusive = 0 ∧ shared = 0 ∧ finishing = 1 ∧ saved = 0 := by
  unfold Encodes at h
  split_ifs at h <;> grind

end Counts

section

variable (h : Inv s)
include h

theorem Inv.isWaking_of_owns (howns : (s.thread t).owns = true) : isWaking s.word = true := by
  have hone := one_le_count howns
  rw [h.roles.owner] at hone
  cases hwaking : isWaking s.word with
  | true => rfl
  | false =>
    rw [hwaking] at hone
    simp at hone

theorem Inv.eq_of_owns {u : T} (ht : (s.thread t).owns = true)
    (hu : (s.thread u).owns = true) : t = u := by
  refine eq_of_count_le_one ?_ ht hu
  rw [h.roles.owner]
  cases isWaking s.word <;> simp

/-- The owner of `waking` starts at the head. -/
theorem Inv.wake_placeOk (hwaiting : isWaiting s.word = true) (after : After) :
    PlaceOk s t (wake after s.word) := by
  have hhead := h.queued.exists_head h.blocks hwaiting
  exact ⟨h.queued.linked.head _ hhead, reached_head hhead⟩

theorem Inv.optimize_placeOk (hwaiting : isWaiting s.word = true) (after : After) :
    PlaceOk s t (optimize after s.word) := by
  unfold optimize
  split
  · exact h.wake_placeOk hwaiting after
  case isFalse hlocked =>
    have hlocked : isLocked s.word = true := by simpa using hlocked
    exact ⟨hlocked, reached_head (h.queued.exists_head h.blocks hwaiting)⟩

/-! ## Accesses that leave the memory as it is -/

theorem Inv.walkEnd_placeOk (hok : PlaceOk s t (.walk purpose old cur))
    (hlast : s.links.last cur ≠ 0) : PlaceOk s t (purpose.found old (s.links.last cur)) := by
  have hnull := h.blocks.null_not_mem
  cases purpose with
  | wake | optimize =>
    obtain ⟨hstart, post, hat⟩ := hok
    exact ⟨hat.walked h.queued.linked hnull hlast, hstart⟩
  | release shared generic =>
    obtain ⟨⟨hshared, hwaiting, hmultiple, hword⟩, hmem⟩ := hok
    refine ⟨hshared, hwaiting, hmultiple, hword, ?_⟩
    obtain ⟨tail, htail⟩ : ∃ tail, s.queue.getLast? = some tail :=
      Option.isSome_iff_exists.mp (List.getLast?_isSome.mpr (List.ne_nil_of_mem hmem))
    obtain ⟨-, hlasts⟩ := h.queued.many hword tail htail
    rw [(hlasts cur hmem).resolve_left hlast, htail]

theorem Inv.walkOn_placeOk (hok : PlaceOk s t (.walk purpose old cur))
    (hlast : s.links.last cur = 0) : PlaceOk s t (.walkNext purpose old cur) := by
  cases purpose with
  | wake | optimize => exact ⟨hok.1, hok.2, hlast⟩
  | release shared generic =>
    obtain ⟨⟨hshared, hwaiting, hmultiple, hword⟩, hmem⟩ := hok
    refine ⟨⟨hshared, hwaiting, hmultiple, hword⟩, ?_⟩
    obtain ⟨tail, htail⟩ : ∃ tail, s.queue.getLast? = some tail :=
      Option.isSome_iff_exists.mp (List.getLast?_isSome.mpr (List.ne_nil_of_mem hmem))
    obtain ⟨hself, -⟩ := h.queued.many hword tail htail
    refine exists_adjacent htail hmem fun heq => ?_
    -- the oldest block knows itself, so its `last` is not null
    rw [heq, hself] at hlast
    exact h.blocks.null_not_mem (hlast ▸ List.mem_of_getLast? htail)

theorem Inv.walkNext_placeOk (hok : PlaceOk s t (.walkNext purpose old cur)) :
    PlaceOk s t (.walkLink purpose old cur (s.links.next cur)) := by
  have howner : (∃ post, Reached 0 s.links s.queue (pointer old) cur post) → s.links.last cur = 0 →
      ∃ post, Reached 0 s.links s.queue (pointer old) cur (s.links.next cur :: post) := by
    rintro ⟨post, hat⟩ hlast
    obtain ⟨rest, rfl⟩ := hat.exists_next h.queued.linked h.blocks.null_not_mem hlast
    exact ⟨rest, hat⟩
  cases purpose with
  | wake | optimize => exact ⟨hok.1, howner hok.2.1 hok.2.2, hok.2.2⟩
  | release shared generic =>
    obtain ⟨hok, next, hadjacent⟩ := hok
    refine ⟨hok, ?_⟩
    rw [h.queued.linked.next_eq hadjacent]
    exact hadjacent

/-- A holder reads the word. -/
theorem Inv.releasing_placeOk (hholds : (s.thread t).holds shared = true) :
    PlaceOk s t (.releasing shared generic s.word none) := by
  refine ⟨fun hshared => ?_, fun hmultiple => ⟨hmultiple, ?_⟩⟩
  · subst hshared
    exact h.roles.encodes.not_multiple h.roles.valid (one_le_count hholds)
  · have hwaiting := isWaiting_of_isMultiple h.roles.valid hmultiple
    exact List.mem_of_mem_head? (h.queued.exists_head h.blocks hwaiting)

end

theorem releasePlan_none {remaining : Option ℤ}
    (hplan : releasePlan shared generic old remaining = .ok none) :
    ∃ count, remaining = some count ∧ 0 < count := by
  unfold releasePlan at hplan
  split at hplan
  · obtain ⟨-, -, hnone⟩ := releaseSharedWaiting_eq_ok hplan
    by_cases hpos : (if old &&& multipleShared ≠ 0 then remaining.getD 0 else 0) > 0
    · cases remaining with
      | none => simp at hpos
      | some count =>
        split at hpos
        · exact ⟨count, rfl, hpos⟩
        · omega
    · rw [if_neg hpos] at hnone
      cases hnone
  · split at hplan
    · cases hrelease : releaseSharedNoWaiters old <;> simp [hrelease, Except.map] at hplan
    · cases hrelease : releaseExclusive old <;> simp [hrelease, Except.map] at hplan

/-- After the last share is gone, the word is unlocked by a swap that may have to be repeated. -/
theorem releasePlan_some {count : ℤ} {plan : ReleasePlan} (hshared : shared = true)
    (hwaiting : isWaiting old = true) (hmultiple : isMultiple old = true)
    (hplan : releasePlan shared generic old (some count) = .ok (some plan)) :
    count ≤ 0 ∧ plan = releaseWaiting old := by
  simp only [releasePlan, hshared] at hplan
  rw [if_pos (by simp [hwaiting]), if_pos (by simp [hmultiple])] at hplan
  obtain ⟨-, -, hsome⟩ := releaseSharedWaiting_eq_ok hplan
  split_ifs at hsome with hle
  cases hsome
  exact ⟨not_lt.mp hle, rfl⟩

theorem Inv.releaseAgain_placeOk (h : Inv s) {remaining : Option ℤ} {plan : ReleasePlan}
    (hat : s.thread t = .releasing shared generic old remaining)
    (hplan : releasePlan shared generic old remaining = .ok (some plan)) :
    PlaceOk s t (.releasing shared generic s.word remaining) := by
  cases remaining with
  | none => exact h.releasing_placeOk (by simp [hat])
  | some count =>
    obtain ⟨hshared, hnonneg, hwaiting, hmultiple⟩ := h.placeOk hat
    obtain ⟨hle, -⟩ := releasePlan_some hshared hwaiting hmultiple hplan
    have hfinishing : (s.thread t).finishing = true := by
      simp [hat, le_antisymm hle hnonneg]
    obtain ⟨hwaiting', -, hmultiple', -⟩ := h.roles.encodes.of_finishing (one_le_count hfinishing)
    exact ⟨hshared, hnonneg, hwaiting', hmultiple'⟩

section Silent

variable [DecidableEq T]

variable {cur old tail : U64} {purpose : Purpose} {after : After}

section

variable (h : Inv s)
include h

theorem Inv.walkEnd (hat : s.thread t = .walk purpose old cur)
    (hlast : s.links.last cur ≠ 0) : Inv (s.goto t (purpose.found old (s.links.last cur))) := by
  have hwakes := h.roles.waker t
  refine h.goto ?_ (h.walkEnd_placeOk (h.placeOk hat) hlast)
  cases purpose <;> constructor <;> simp_all [Purpose.found]

theorem Inv.walkOn (hat : s.thread t = .walk purpose old cur)
    (hlast : s.links.last cur = 0) : Inv (s.goto t (.walkNext purpose old cur)) := by
  have hwakes := h.roles.waker t
  refine h.goto ?_ (h.walkOn_placeOk (h.placeOk hat) hlast)
  constructor <;> simp_all

theorem Inv.walkNext (hat : s.thread t = .walkNext purpose old cur) :
    Inv (s.goto t (.walkLink purpose old cur (s.links.next cur))) := by
  have hwakes := h.roles.waker t
  refine h.goto ?_ (h.walkNext_placeOk (h.placeOk hat))
  constructor <;> simp_all

theorem Inv.wakePrevious (hat : s.thread t = .wakePrevious after old tail) :
    Inv (s.goto t (.wakeFlags after old tail (s.links.previous tail))) := by
  have hok := h.placeOk hat
  have hwakes := h.roles.waker t
  exact h.goto (by constructor <;> simp_all) ⟨hok, rfl⟩

theorem Inv.wakeFlags {previous : U64} {decision : WakeDecision} {exclusive : Bool}
    (hat : s.thread t = .wakeFlags after old tail previous)
    (hplan : wakeAction old exclusive (decide (previous ≠ 0)) = .ok decision) :
    Inv (s.goto t (.wakeAct after old tail previous decision)) := by
  have hok := h.placeOk hat
  have hwakes := h.roles.waker t
  exact h.goto (by constructor <;> simp_all) ⟨hok.1, hok.2, _, hplan⟩

theorem Inv.wakeAgain {previous : U64} {decision : WakeDecision}
    (hat : s.thread t = .wakeAct after old tail previous decision) :
    Inv (s.goto t (wake after s.word)) := by
  have hwaking := h.isWaking_of_owns (t := t) (by simp [hat])
  have hwaiting := isWaiting_of_isWaking h.roles.valid hwaking
  have hwakes := h.roles.waker t
  exact h.goto (by constructor <;> simp_all [wake]) (h.wake_placeOk hwaiting after)

theorem Inv.signal {node : U64} (hat : s.thread t = .signal after node) :
    Inv (s.goto t (.signalClear after node (s.links.previous node))) := by
  obtain ⟨rest, hpending, hchain⟩ := h.placeOk hat
  exact h.goto (by constructor <;> simp [hat]) ⟨rest, hpending, hchain.of_cons, hchain.previous_eq⟩

theorem Inv.optimizeAgain
    (hat : s.thread t = .optimizeSwap after old) : Inv (s.goto t (optimize after s.word)) := by
  have hwaking := h.isWaking_of_owns (t := t) (by simp [hat])
  have hwaiting := isWaiting_of_isWaking h.roles.valid hwaking
  refine h.goto ?_ (h.optimize_placeOk hwaiting after)
  unfold optimize
  split
  case isTrue hlocked =>
    have hmultiple := isMultiple_of_unlocked h.roles.valid (by simpa using hlocked)
    constructor <;> simp_all [wake]
  · constructor <;> simp [hat]

section

variable {shared generic : Bool} {remaining : Option ℤ}
  (hat : s.thread t = .releasing shared generic old remaining)
include hat

theorem Inv.releaseWalk (hcount : needsCount shared generic old remaining = true) :
    Inv (s.goto t (.walk (.release shared generic) old (pointer old))) := by
  have hok := h.placeOk hat
  simp only [needsCount, Bool.and_eq_true, Option.isNone_iff_eq_none] at hcount
  obtain ⟨⟨⟨-, hwaiting⟩, hmultiple⟩, rfl⟩ := hcount
  have hwaiting : isWaiting old = true := by simpa using hwaiting
  have hmultiple : isMultiple old = true := by simpa using hmultiple
  obtain ⟨hshared, hword⟩ := hok
  have hshared : shared = true := by
    by_contra hexclusive
    rw [hshared (Bool.eq_false_iff.mpr hexclusive)] at hmultiple
    cases hmultiple
  refine h.goto ?_ ⟨⟨hshared, hwaiting, hmultiple, (hword hmultiple).1⟩, (hword hmultiple).2⟩
  constructor <;> simp [hat]

theorem Inv.releasedOne
    (hplan : releasePlan shared generic old remaining = .ok none) : Inv (s.goto t .idle) := by
  obtain ⟨count, rfl, hpos⟩ := releasePlan_none hplan
  exact h.goto (by constructor <;> simp [hat, hpos.ne']) trivial

end

/-- A thread with nothing to release may try to wake and go back to where it was. -/
theorem Inv.beginTryWake (hat : s.thread t = after.resume)
    (hafter : ∀ shared node, after ≠ .park shared node) : Inv (s.goto t (.tryWake after)) := by
  refine h.goto ?_ trivial
  cases after <;> constructor <;> simp_all [After.resume]

theorem Inv.endTryWake (hat : s.thread t = .tryWaking after old) : Inv (s.goto t after.resume) := by
  refine h.goto ?_ (by cases after <;> trivial)
  cases after <;> constructor <;> simp [hat, After.resume]

end

end Silent

end UserspaceNtos.PushLock
