import UserspaceNtos.PushLock.BlockSteps

/-!
# Swaps of the lock word

What the compare-and-swaps, and the one fetch-and that clears `waking`, do to the counts, the
queue and the right to wake.
-/

namespace UserspaceNtos.PushLock

open IntrusiveQueue Count

/-! ## Counts -/

section Counts

variable {old new : U64} {saved saved' : ℤ} {exclusive shared finishing : ℕ}

section

variable (h : Encodes old saved exclusive shared finishing)
include h

/-- The counts do not depend on `waking`. -/
theorem Encodes.waking {waking : Bool}
    (hparts : Parts new (isLocked old) (isWaiting old) waking (isMultiple old) (high old)) :
    Encodes new saved exclusive shared finishing := by
  simpa only [Encodes, hparts.locked, hparts.waiting, hparts.multiple, hparts.high] using h

/-- The saved count matters only while several threads share the lock. -/
theorem Encodes.of_saved
    (hmultiple : isMultiple old = false) : Encodes old saved' exclusive shared finishing := by
  simpa only [Encodes, hmultiple, Bool.false_eq_true, if_false] using h

theorem Encodes.acquireExclusive (hvalid : Valid old) (hlocked : isLocked old = false)
    (hparts : Parts new true (isWaiting old) (isWaking old) (isMultiple old) (high old)) :
    Encodes new saved (exclusive + 1) shared finishing := by
  have hmultiple := isMultiple_of_unlocked hvalid hlocked
  cases hwaiting : isWaiting old with
  | true =>
    simp only [Encodes, hwaiting, hlocked, Bool.false_eq_true, if_true, if_false] at h
    simp only [Encodes, hparts.locked, hparts.waiting, hparts.multiple, hwaiting, hmultiple,
      Bool.false_eq_true, if_true, if_false]
    omega
  | false =>
    simp only [Encodes, hwaiting, hlocked, Bool.false_eq_true, if_false] at h
    have hhigh : high old = 0#60 := by
      rw [hvalid.eq_zero hwaiting hlocked]
      exact parts_zero.2.2.2.2
    simp only [Encodes, hparts.locked, hparts.waiting, hparts.high, hwaiting, hhigh,
      Bool.false_eq_true, if_true, if_false]
    omega

theorem Encodes.acquireShared (hvalid : Valid old)
    (hnew : isWaiting old = true ∧ isLocked old = false ∧
        Parts new true true (isWaking old) (isMultiple old) (high old) ∨
      isWaiting old = false ∧ (isLocked old = true → high old ≠ 0#60) ∧
        Parts new true false false false (high old + 1) ∧ (high new).toNat = (high old).toNat + 1) :
    Encodes new saved exclusive (shared + 1) finishing := by
  rcases hnew with ⟨hwaiting, hlocked, hparts⟩ | ⟨hwaiting, hshared, hparts, hcount⟩
  · have hmultiple := isMultiple_of_unlocked hvalid hlocked
    simp only [Encodes, hwaiting, hlocked, Bool.false_eq_true, if_true, if_false] at h
    simp only [Encodes, hparts.locked, hparts.waiting, hparts.multiple, hmultiple,
      Bool.false_eq_true, if_true, if_false]
    omega
  · have hne : high new ≠ 0#60 := fun hzero => by
      rw [hzero] at hcount
      simp at hcount
    simp only [Encodes, hwaiting, Bool.false_eq_true, if_false] at h
    simp only [Encodes, hparts.locked, hparts.waiting, Bool.false_eq_true, if_true, if_false,
      if_neg hne]
    cases hlocked : isLocked old with
    | true =>
      simp only [hlocked, if_true, if_neg (hshared hlocked)] at h
      omega
    | false =>
      simp only [hlocked, Bool.false_eq_true, if_false] at h
      have hhigh : (high old).toNat = 0 := by
        rw [hvalid.eq_zero hwaiting hlocked]
        simp
      omega

/-- The first waiter saves the count of the sharers if there are several. -/
theorem Encodes.publish
    (hwaiting : isWaiting old = false) (hlocked : isLocked old = true) {kind : Bool}
    {node : BitVec 60} (hshared : kind = false → high old = 0#60)
    (hparts : Parts new true true false (kind && decide (1 < (high old).toNat)) node)
    (hsaved : saved' =
      if kind && decide (1 < (high old).toNat) then ((high old).toNat : ℤ) else 0) :
    Encodes new saved' exclusive shared finishing := by
  simp only [Encodes, hwaiting, hlocked, Bool.false_eq_true, if_false, if_true] at h
  simp only [Encodes, hparts.locked, hparts.waiting, hparts.multiple, if_true]
  by_cases hzero : high old = 0#60
  · rw [if_pos hzero] at h
    simp [hzero]
    omega
  · rw [if_neg hzero] at h
    have hpos : 0 < (high old).toNat := by
      rw [Nat.pos_iff_ne_zero]
      exact fun hnat => hzero (BitVec.eq_of_toNat_eq hnat)
    have hkind : kind = true := by
      by_contra hkind
      exact hzero (hshared (Bool.eq_false_iff.mpr hkind))
    by_cases hmany : 1 < (high old).toNat
    · simp only [hkind, hmany, decide_true, Bool.and_self, if_true] at hsaved ⊢
      subst hsaved
      rw [if_neg (by omega)]
      omega
    · simp only [hmany, decide_false, Bool.and_false, Bool.false_eq_true, if_false]
      omega

end

/-- A sharer takes its share off the saved count. -/
theorem Encodes.decrement (h : Encodes old saved exclusive (shared + 1) finishing)
    (hmultiple : isMultiple old = true) (hvalid : Valid old) : 0 < saved ∧ finishing = 0 ∧
      Encodes old (saved - 1) exclusive shared (if saved - 1 = 0 then 1 else 0) := by
  have hwaiting := isWaiting_of_isMultiple hvalid hmultiple
  by_cases hlocked : isLocked old = true
  · simp only [Encodes, hwaiting, hlocked, hmultiple] at h ⊢
    obtain ⟨hexclusive, hshared, hfinishing⟩ := h
    rw [if_neg (by omega)] at hfinishing
    refine ⟨by omega, hfinishing, hexclusive, by omega, trivial⟩
  · rw [isMultiple_of_unlocked hvalid (Bool.eq_false_iff.mpr hlocked)] at hmultiple
    cases hmultiple

theorem encodes_zero : Encodes 0 saved 0 0 0 := by
  simp [Encodes]

end Counts

section Steps

variable {T : Type} [DecidableEq T] [Fintype T] {s : State T} {t : T} {new w old : U64}
  {after : After}

/-- The word is swapped and the blocks stay. -/
theorem Inv.swap (h : Inv s) {place : Local} (hvalid : Valid new)
    (hencodes : Encodes new s.saved (count (Local.holds false) (s.goto t place).thread)
      (count (Local.holds true) (s.goto t place).thread)
      (count Local.finishing (s.goto t place).thread))
    (howner : (isWaking s.word).toNat + place.owns.toNat =
      (isWaking new).toNat + (s.thread t).owns.toNat)
    (hwaker : (place.wakes = true ∨ isMultiple s.word = false) → isMultiple new = false)
    (hmany : isMultiple new = true → isMultiple s.word = true) (hheads : Heads new s.queue)
    (hblocks : Blocks (s.goto t place))
    (hothers : ∀ u, u ≠ t → PlaceOk { s with word := new } u (s.thread u))
    (hplace : PlaceOk { s with word := new } t place)
    (hretried : isLocked new = false → isWaiting new = true → isWaking new = false →
      ∃ u, Retries (s.goto t place) u) :
    Inv ({ s with word := new }.goto t place) := by
  refine ⟨⟨hvalid, hencodes, ?_, fun u => ?_⟩,
    ⟨hheads, h.queued.linked, fun hmultiple => h.queued.many (hmany hmultiple)⟩,
    hblocks.congr, places_goto hothers rfl hplace, hretried, h.ledger⟩
  · have hcount := count_goto Local.owns s t place
    have howners := h.roles.owner
    change count Local.owns (s.goto t place).thread = (isWaking new).toNat
    omega
  · exact State.goto_cases rfl u (fun hself => hwaker (.inl hself)) fun v _ hv =>
      hwaker (.inr (h.roles.waker v hv))

theorem Heads.waking {q : List U64} {l b m : Bool} (h : Heads w q)
    (hparts : Parts new l (isWaiting w) b m (high w)) : Heads new q := by
  cases q with
  | nil => exact hparts.waiting.trans h
  | cons node q => exact ⟨hparts.waiting.trans h.1, hparts.high.trans h.2⟩

theorem Valid.waking (h : Valid w) {waking : Bool}
    (hparts : Parts new (isLocked w) (isWaiting w) waking (isMultiple w) (high w))
    (hwaiting : isWaiting w = true) : Valid new := by
  rw [Valid, if_pos hwaiting] at h
  rw [Valid, hparts.waiting, if_pos hwaiting, hparts.high, hparts.multiple, hparts.locked]
  exact h

/-- Only the right to wake changes hands. -/
theorem Inv.swapWaking (h : Inv s) {place : Local} {waking : Bool}
    (hparts : Parts new (isLocked s.word) (isWaiting s.word) waking (isMultiple s.word)
      (high s.word))
    (hwaiting : isWaiting s.word = true)
    (hholds : ∀ kind, place.holds kind = (s.thread t).holds kind)
    (hfinishing : place.finishing = (s.thread t).finishing)
    (howner : (isWaking s.word).toNat + place.owns.toNat = waking.toNat + (s.thread t).owns.toNat)
    (hwakes : place.wakes = true → isMultiple s.word = false)
    (hblocks : Blocks (s.goto t place)) (hplace : PlaceOk { s with word := new } t place)
    (hretried : isLocked s.word = false → waking = false → ∃ u, Retries (s.goto t place) u) :
    Inv ({ s with word := new }.goto t place) := by
  refine h.swap (h.roles.valid.waking hparts hwaiting) ?_ ?_ ?_ ?_ (h.queued.heads.waking hparts)
    hblocks (fun u _ => ?_) hplace fun hlocked _ hwaking => ?_
  · rw [count_goto_of_eq (hholds false), count_goto_of_eq (hholds true),
      count_goto_of_eq hfinishing]
    exact h.roles.encodes.waking hparts
  · rw [hparts.waking]
    exact howner
  · rw [hparts.multiple]
    exact fun hcase => hcase.elim hwakes id
  · rw [hparts.multiple]
    exact id
  · exact (h.places u).congr rfl hparts.multiple (fun _ _ => rfl) (fun _ _ => rfl) .front
  · exact hretried (hparts.locked.symm.trans hlocked) (hparts.waking.symm.trans hwaking)

/-- The right to wake is given up under a locked word. -/
theorem Inv.giveUp (h : Inv s) (hat : Carries after (s.thread t))
    (howns : (s.thread t).owns = true) (hsignals : (s.thread t).signals = false)
    (hlocked : isLocked s.word = true) :
    Inv ({ s with word := s.word &&& ~~~waking }.goto t after.resume) := by
  have hwaking := h.isWaking_of_owns howns
  obtain ⟨hnext, hfree, hwakes⟩ := carries_resume after
  refine h.swapWaking (parts_clear_waking _) (isWaiting_of_isWaking h.roles.valid hwaking)
    (fun kind => (hnext.holds kind).trans (hat.holds kind).symm)
    (hnext.finishing.trans hat.finishing.symm) ?_
    (fun htrue => absurd (hwakes.symm.trans htrue) (by decide)) ?_ (by cases after <;> trivial)
    fun hunlocked => absurd hlocked (by simp [hunlocked])
  · rw [hwaking, hfree, howns]
    rfl
  · exact h.blocks.goto (hnext.node.trans hat.node.symm) (hnext.enqueued.trans hat.enqueued.symm)
      (hnext.parked.trans hat.parked.symm) fun _ => h.blocks.quiet t hsignals

theorem Inv.relocked (h : Inv s) {tail previous : U64}
    (hat : s.thread t = .wakeAct after old tail previous (.relocked new)) (hswap : s.word = old) :
    Inv ({ s with word := new }.goto t after.resume) := by
  obtain ⟨-, -, exclusive, hplan⟩ := h.placeOk hat
  obtain ⟨hlocked, rfl⟩ := wakeAction_eq_ok hplan
  subst hswap
  exact h.giveUp (by rw [hat]; constructor <;> simp) (by simp [hat]) (by simp [hat]) hlocked

theorem Inv.optimized (h : Inv s) (hat : s.thread t = .optimizeSwap after old)
    (hswap : s.word = old) : Inv ({ s with word := old &&& ~~~waking }.goto t after.resume) := by
  have hlocked := h.placeOk hat
  subst hswap
  exact h.giveUp (by rw [hat]; constructor <;> simp) (by simp [hat]) (by simp [hat]) hlocked

/-- After the oldest block is detached its owner comes back, so the right to wake can be given
up even if the word is unlocked. -/
theorem Inv.detachClear (h : Inv s) {tail : U64} (hat : s.thread t = .detachClear after tail) :
    Inv ({ s with word := s.word &&& ~~~waking }.goto t (.signal after tail)) := by
  obtain ⟨hpending, hprevious⟩ := h.placeOk hat
  have hmem : tail ∈ s.pending t := by simp [hpending]
  have hwaking := h.isWaking_of_owns (t := t) (by simp [hat])
  have hwaiting := isWaiting_of_isWaking h.roles.valid hwaking
  refine h.swapWaking (parts_clear_waking _) hwaiting (by simp [hat]) (by simp [hat])
    (by simp [hat, hwaking]) (by simp)
    (h.blocks.goto (by simp [hat]) (by simp [hat]) (by simp [hat]) (by simp))
    ⟨[], hpending, List.IsChain.singleton _, ?_⟩ fun _ _ => ?_
  · rintro x ⟨⟩
    exact hprevious
  · obtain ⟨u, hu⟩ := h.blocks.owned tail (.inr ⟨t, hmem⟩)
    refine ⟨u, .inr ⟨tail, ?_, h.blocks.apart t tail hmem⟩⟩
    rw [State.observe_goto s t (.signal after tail) (f := Local.enqueued) (by simp [hat])]
    exact hu

theorem pointer_congr (h : high new = high w) : pointer new = pointer w := by
  simp [pointer, word_ext_iff, h]

omit [DecidableEq T] in
/-- A waker starts at the head also when it has just swapped the word. -/
theorem Inv.wake_swap_placeOk (h : Inv s) (hwaiting : isWaiting s.word = true) (after : After)
    (hhigh : high new = high s.word) : PlaceOk { s with word := new } t (wake after new) := by
  have hhead := h.queued.exists_head h.blocks hwaiting
  rw [← pointer_congr hhigh] at hhead
  exact ⟨h.queued.linked.head _ hhead, reached_head hhead⟩

theorem Inv.tryWakeClaim (h : Inv s) (hat : s.thread t = .tryWaking after old)
    (hplan : tryWake old = .ok (some new))
    (hswap : s.word = old) : Inv ({ s with word := new }.goto t (wake after new)) := by
  obtain ⟨hlocked, hwaiting, hwaking, hparts⟩ := tryWake_eq_ok hplan
  subst hswap
  have hmultiple := isMultiple_of_unlocked h.roles.valid hlocked
  refine h.swapWaking ⟨hparts.locked.trans hlocked.symm, hparts.waiting.trans hwaiting.symm,
    hparts.waking, hparts.multiple, hparts.high⟩ hwaiting (by simp [hat, wake])
    (by simp [hat, wake]) (by simp [hat, wake, hwaking]) (fun _ => hmultiple)
    (h.blocks.goto (by simp [hat, wake]) (by simp [hat, wake]) (by simp [hat, wake])
      fun _ => h.blocks.quiet t (by simp [hat]))
    (h.wake_swap_placeOk hwaiting after hparts.high) fun _ hfalse => ?_
  cases hfalse

/-! ## Acquisition -/

theorem valid_of_locked (hlocked : isLocked w = true)
    (hwaiting : isWaiting w = true → high w ≠ 0#60)
    (hfree : isWaiting w = false → isWaking w = false ∧ isMultiple w = false) : Valid w := by
  unfold Valid
  split
  case isTrue hw => exact ⟨hwaiting hw, fun _ => hlocked⟩
  case isFalse hw =>
    obtain ⟨hwaking, hmultiple⟩ := hfree (Bool.eq_false_iff.mpr hw)
    exact ⟨hwaking, hmultiple, fun hfalse => absurd hfalse (by simp [hlocked])⟩

theorem Valid.high_ne_zero (h : Valid w) (hwaiting : isWaiting w = true) : high w ≠ 0#60 := by
  rw [Valid, if_pos hwaiting] at h
  exact h.1

theorem Valid.of_not_waiting (h : Valid w) (hwaiting : isWaiting w = false) :
    isWaking w = false ∧ isMultiple w = false := by
  rw [Valid, if_neg (Bool.eq_false_iff.mp hwaiting)] at h
  exact ⟨h.1, h.2.1⟩

/-- A word that was acquired counts one more holder. -/
structure Acquired (shared : Bool) (old new : U64) : Prop where
  valid : Valid new
  locked : isLocked new = true
  waiting : isWaiting new = isWaiting old
  waking : isWaking new = isWaking old
  multiple : isMultiple new = isMultiple old
  high : isWaiting old = true → high new = high old
  encodes : ∀ {saved exclusive sharers finishing}, Encodes old saved exclusive sharers finishing →
    Encodes new saved (exclusive + (shared == false).toNat) (sharers + (shared == true).toNat)
      finishing

theorem acquirePlan_acquire {shared : Bool} {node : U64}
    (h : acquirePlan shared old node = .ok (.acquire new)) : Acquired shared old new := by
  cases shared with
  | false =>
    obtain ⟨hvalid, hlocked, hparts⟩ := acquireExclusive_acquire h
    refine ⟨valid_of_locked hparts.locked (fun hwaiting => ?_) (fun hwaiting => ?_),
      hparts.locked, hparts.waiting, hparts.waking, hparts.multiple, fun _ => hparts.high,
      fun hencodes => hencodes.acquireExclusive hvalid hlocked hparts⟩
    · rw [hparts.high]
      exact hvalid.high_ne_zero (hparts.waiting.symm.trans hwaiting)
    · rw [hparts.waking, hparts.multiple]
      exact hvalid.of_not_waiting (hparts.waiting.symm.trans hwaiting)
  | true =>
    obtain ⟨hvalid, hnew⟩ := acquireShared_acquire h
    have hencodes := fun {saved exclusive sharers finishing}
      (hencodes : Encodes old saved exclusive sharers finishing) =>
        hencodes.acquireShared hvalid hnew
    rcases hnew with ⟨hwaiting, hlocked, hparts⟩ | ⟨hwaiting, -, hparts, -⟩
    · refine ⟨valid_of_locked hparts.locked (fun _ => ?_) (fun hfree => ?_), hparts.locked,
        hparts.waiting.trans hwaiting.symm, hparts.waking, hparts.multiple,
        fun _ => hparts.high, hencodes⟩
      · rw [hparts.high]
        exact hvalid.high_ne_zero hwaiting
      · exact absurd hfree (by simp [hparts.waiting])
    · obtain ⟨hwaking, hmultiple⟩ := hvalid.of_not_waiting hwaiting
      refine ⟨valid_of_locked hparts.locked (fun hbusy => ?_)
        (fun _ => ⟨hparts.waking, hparts.multiple⟩), hparts.locked,
        hparts.waiting.trans hwaiting.symm, hparts.waking.trans hwaking.symm,
        hparts.multiple.trans hmultiple.symm, fun hbusy => ?_, hencodes⟩
      · exact absurd hbusy (by simp [hparts.waiting])
      · exact absurd hbusy (by simp [hwaiting])

theorem Heads.congr {q : List U64} (h : Heads w q) (hwaiting : isWaiting new = isWaiting w)
    (hhigh : isWaiting w = true → high new = high w) : Heads new q := by
  cases q with
  | nil => exact hwaiting.trans h
  | cons node q => exact ⟨hwaiting.trans h.1, (hhigh h.1).trans h.2⟩

/-- An acquisition by a swap; a block that was used before is given back. -/
theorem Inv.acquired (h : Inv s) {shared : Bool} {node : Option U64}
    (hat : s.thread t = .acquiring shared node old)
    (hplan : acquirePlan shared old (node.getD 16) = .ok (.acquire new)) (hswap : s.word = old) :
    Inv ({ s with word := new }.goto t (.holding shared)) := by
  subst hswap
  have hnew := acquirePlan_acquire hplan
  have hexclusive := count_goto (Local.holds false) s t (.holding shared)
  have hshared := count_goto (Local.holds true) s t (.holding shared)
  have hfinishing := count_goto_of_eq (s := s) (t := t)
    (show (Local.holding shared).finishing = _ by simp [hat])
  simp only [hat, Local.holds, Bool.toNat_false, Nat.add_zero] at hexclusive hshared
  refine h.swap hnew.valid ?_ (by simp [hat, hnew.waking]) (by simp [hnew.multiple])
    (by simp [hnew.multiple]) (h.queued.heads.congr hnew.waiting hnew.high) ?_ (fun u _ => ?_)
    trivial (by simp [hnew.locked])
  · rw [hexclusive, hshared, hfinishing]
    exact hnew.encodes h.roles.encodes
  · refine h.blocks.replace h.blocks.toLists rfl (fun x hx => by cases hx)
      (fun _ => h.blocks.quiet t (by simp [hat])) (fun _ _ => rfl)
      (fun x hx => .inr ⟨hx, by simp [hat]⟩) (fun x hx => by cases hx) (fun x hx => by cases hx)
      (fun u _ => h.blocks.event u) fun u _ => h.blocks.wait u
  · exact (h.places u).congr rfl hnew.multiple (fun _ _ => rfl) (fun _ _ => rfl) .front

end Steps

end UserspaceNtos.PushLock
