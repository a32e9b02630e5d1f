import UserspaceNtos.ProviderWait.Arbitration

/-!
# Runs of the wait arbiter

Every call keeps `Parked` and does what `CallSpec` says.  A run interleaves calls with changes
of the object states by others; its ledger lists the waits that were parked and those that were
completed, and the two differ by the waits that are parked now.
-/

namespace UserspaceNtos.ProviderWait

open List Option NtTime

variable {β L E C O P S : Type} {B : WaitBackend β L E} {K : Contract B S} {s s' : WaitState β L}
  {waiter : ProviderDispatcherWaitRecord L} {call : WaitCall C O P} {reply : WaitReply E C O P}
  {now : TimeSnapshot}

/-! ## Leases of a wait that is not parked -/

/-- Beyond the leases of the parked waits, the backend holds one for each of some objects. -/
structure Borrowed (K : Contract B S) (s : WaitState β L) (objects : List ProviderWaitObject)
    (leases : List L) (b : β) : Prop where
  held : K.held b = leases + K.held s.backend
  others : ∀ l ∈ K.held s.backend, K.object b l = K.object s.backend l
  objects : leases.map (K.object b) = objects

section Borrowing

variable {s : WaitState β L} {objects : List ProviderWaitObject} {leases : List L} {b : β}
  {owner : ProviderWaitOwner}

theorem Borrowed.mem_held (hb : Borrowed K s objects leases b) : ∀ l ∈ leases, l ∈ K.held b := by
  intro l hl
  rw [hb.held]
  exact Multiset.mem_add.mpr (.inl hl)

theorem Borrowed.release (h : Parked K s) (hb : Borrowed K s objects leases b) :
    Parked K { s with backend := releaseLeases B leases b } ∧
      K.held (releaseLeases B leases b) = K.held s.backend ∧
      K.Shows (releaseLeases B leases b) (K.state b) := by
  obtain ⟨hheld, hobject, hstate⟩ := releaseLeases_spec hb.held
  refine ⟨h.keeps ⟨hheld, fun l hl => ?_⟩, hheld, hstate⟩
  rw [hobject l hl, hb.others l hl]

theorem Borrowed.consume (hb : Borrowed K s objects leases b) (hnodup : objects.Nodup)
    {waitType : ProviderWaitType} {index : ℕ}
    (hselect : readySelection B b waitType leases = some index) :
    ∃ consumed, K.selection (K.state b) waitType objects = some (index, consumed) ∧
      Borrowed K s objects leases (consumeSelection B waitType leases index b) ∧
      K.state (consumeSelection B waitType leases index b) =
        K.consumeObjects consumed (K.state b) := by
  obtain ⟨consumed, hselection, hkeeps, hstate⟩ :=
    consumeSelection_spec hb.mem_held hb.objects hnodup hselect
  refine ⟨consumed, hselection, ⟨hkeeps.held.trans hb.held, fun l hl => ?_, ?_⟩, hstate⟩
  · rw [hkeeps.object l (by rw [hb.held]; exact Multiset.mem_add.mpr (.inr hl)), hb.others l hl]
  · rw [← hb.objects]
    exact map_congr_left fun l hl => hkeeps.object l (hb.mem_held l hl)

theorem borrowed_of_acquire
    (hacquire : acquireLeases B owner objects [] s.backend = (.ok leases, b)) :
    Borrowed K s objects leases b ∧ K.state b = K.state s.backend := by
  obtain ⟨hothers, hheld, hobjects, hstate⟩ :=
    acquireLeases_spec hacquire (Multiset.zero_add _).symm rfl
  exact ⟨⟨hheld, hothers, by simpa using hobjects⟩, hstate⟩

theorem unchanged_of_acquire (h : Parked K s) {error : E}
    (hacquire : acquireLeases B owner objects [] s.backend = (.error error, b)) :
    Parked K { s with backend := b } ∧ Unchanged K s { s with backend := b } := by
  obtain ⟨hothers, hheld, hstate⟩ := acquireLeases_spec hacquire (Multiset.zero_add _).symm rfl
  exact ⟨h.keeps ⟨hheld, hothers⟩, rfl, hheld, hstate⟩

end Borrowing

/-! ## Polls and admissions -/

section Admissions

variable {s s' : WaitState β L} {b : β} {leases : List L} {wait : ValidatedProviderWait}
  {request : ProviderWaitRequest} {owner : ProviderWaitOwner} {capacity : Bool}
  {origin : TimeSnapshot} {sequence : ℕ}

theorem unchanged_refl : Unchanged K s s := ⟨rfl, rfl, fun _ _ => rfl⟩

theorem validateRequest_eq_ok (h : validateRequest (E := E) request owner = .ok wait) :
    request.validate = .ok wait ∧ wait.owner = owner := by
  unfold validateRequest at h
  split at h
  · cases h
  · split at h
    · cases h
    split_ifs at h
    cases h
    exact ⟨‹_›, not_ne_iff.mp ‹_›⟩

/-- A ready wait is satisfied without being parked. -/
theorem Borrowed.satisfy (h : Parked K s) (hb : Borrowed K s wait.objects leases b)
    (hstate : K.state b = K.state s.backend) (hnodup : wait.objects.Nodup) {index : ℕ}
    (hselect : readySelection B b wait.waitType leases = some index) : Parked K { s with
      backend := releaseLeases B leases (consumeSelection B wait.waitType leases index b) } ∧
    SatisfiedAtOnce K s wait (statusWait0 + index) { s with
      backend := releaseLeases B leases (consumeSelection B wait.waitType leases index b) } := by
  obtain ⟨consumed, hselection, hb', hconsumed⟩ := hb.consume hnodup hselect
  obtain ⟨hparked, hheld, hstate'⟩ := hb'.release h
  rw [hstate] at hselection hconsumed
  exact ⟨hparked, index, consumed, hselection, rfl, rfl, hheld, hconsumed ▸ hstate'⟩

/-- A wait that is not ready and not parked gives its leases back. -/
theorem Borrowed.giveUp (h : Parked K s) {objects : List ProviderWaitObject}
    (hb : Borrowed K s objects leases b) (hstate : K.state b = K.state s.backend) :
    Parked K { s with backend := releaseLeases B leases b } ∧
      Unchanged K s { s with backend := releaseLeases B leases b } := by
  obtain ⟨hparked, hheld, hstate'⟩ := hb.release h
  exact ⟨hparked, rfl, hheld, hstate ▸ hstate'⟩

theorem Borrowed.notReady (hb : Borrowed K s wait.objects leases b)
    (hstate : K.state b = K.state s.backend)
    (hselect : readySelection B b wait.waitType leases = none) : NotReady K s wait := by
  rw [readySelection_eq hb.mem_held hb.objects, map_eq_none_iff, hstate] at hselect
  exact hselect

theorem poll_spec (h : Parked K s) {result : Except (ProviderDispatcherWaitError E) ℤ}
    (hpoll : poll B request owner s = (result, s')) :
    Parked K s' ∧ CallSpec (C := C) (O := O) (P := P) K s (.poll request owner)
      (.polled result) s' := by
  unfold poll at hpoll
  cases hvalid : validateRequest (E := E) request owner with
  | error error =>
    simp only [hvalid] at hpoll
    cases hpoll
    exact ⟨h, unchanged_refl⟩
  | ok wait =>
    obtain ⟨hrequest, howner⟩ := validateRequest_eq_ok hvalid
    simp only [hvalid] at hpoll
    split at hpoll
    · cases hpoll
      exact ⟨h, unchanged_refl⟩
    split at hpoll
    · cases hpoll
      exact ⟨h, unchanged_refl⟩
    split at hpoll
    · cases hpoll
      exact unchanged_of_acquire h ‹_›
    case h_2 leases b hacquire =>
      obtain ⟨hb, hstate⟩ := borrowed_of_acquire (K := K) hacquire
      split at hpoll
      case h_1 index hselect =>
        cases hpoll
        obtain ⟨hparked, hspec⟩ :=
          hb.satisfy h hstate (ProviderWaitRequest.validate_objects hrequest) hselect
        exact ⟨hparked, wait, hrequest, howner, .inl hspec⟩
      case h_2 hselect =>
        cases hpoll
        obtain ⟨hparked, hspec⟩ := hb.giveUp h hstate
        exact ⟨hparked, wait, hrequest, howner, .inr ⟨hb.notReady hstate hselect, rfl, hspec⟩⟩

theorem prepareAdmission_error (h : Parked K s) {error : ProviderDispatcherWaitError E}
    (hprepare : prepareAdmission B request owner sequence origin capacity s = (.error error, s')) :
    Parked K s' ∧ Unchanged K s s' := by
  unfold prepareAdmission at hprepare
  split at hprepare
  · cases hprepare
    exact ⟨h, unchanged_refl⟩
  iterate 3
    split at hprepare
    · cases hprepare
      exact ⟨h, unchanged_refl⟩
  split at hprepare
  · cases hprepare
    exact unchanged_of_acquire h ‹_›
  · cases hprepare

theorem prepareAdmission_ok {isPoll : Bool}
    (hprepare : prepareAdmission B request owner sequence origin capacity s =
      (.ok (waiter, isPoll), s')) :
    ∃ wait leases b, request.validate = .ok wait ∧ wait.owner = owner ∧
      isDuplicate s.waiters wait = false ∧ waiter = recordOf wait sequence origin leases ∧
      isPoll = decide (wait.timeoutKind = .poll) ∧ s' = { s with backend := b } ∧
      Borrowed K s wait.objects leases b ∧ K.state b = K.state s.backend := by
  unfold prepareAdmission at hprepare
  split at hprepare
  · cases hprepare
  case h_2 wait hvalid =>
    obtain ⟨hrequest, howner⟩ := validateRequest_eq_ok hvalid
    split at hprepare
    · cases hprepare
    split at hprepare
    · cases hprepare
    case isFalse hfresh =>
      split at hprepare
      · cases hprepare
      split at hprepare
      · cases hprepare
      case h_2 leases b hacquire =>
        cases hprepare
        obtain ⟨hb, hstate⟩ := borrowed_of_acquire hacquire
        exact ⟨wait, leases, b, hrequest, howner, Bool.eq_false_iff.mpr hfresh, rfl, rfl, rfl,
          hb, hstate⟩

/-- A wait that is not a duplicate is parked behind the others. -/
theorem Borrowed.park (h : Parked K s) (hb : Borrowed K s wait.objects leases b)
    (hnodup : wait.objects.Nodup) (hfresh : isDuplicate s.waiters wait = false)
    (sequence : ℕ) (origin : TimeSnapshot) :
    Parked K ⟨s.waiters ++ [recordOf wait sequence origin leases], b⟩ := by
  refine ⟨?_, fun waiter hmem => ?_, ?_⟩
  · rw [hb.held, h.held, leasesOf, leasesOf, Multiset.add_comm, flatMap_append,
      flatMap_singleton]
    rfl
  · rcases mem_append.mp hmem with hmem | hmem
    · obtain ⟨hobjects, hnodup⟩ := h.leased waiter hmem
      refine ⟨?_, hnodup⟩
      rw [← hobjects]
      exact map_congr_left fun l hl => hb.others l (mem_held_of_mem h hmem l hl)
    · rw [mem_singleton.mp hmem]
      exact ⟨hb.objects, hnodup⟩
  · refine pairwise_append.mpr ⟨h.distinct, pairwise_singleton _ _, fun a ha c hc => ?_⟩
    rw [mem_singleton.mp hc]
    have := any_eq_false.mp hfresh a ha
    simpa [recordOf] using this

theorem settleAdmission_spec (h : Parked K s) (hb : Borrowed K s wait.objects leases b)
    (hstate : K.state b = K.state s.backend) (hnodup : wait.objects.Nodup)
    (hfresh : isDuplicate s.waiters wait = false) {admission : ProviderDispatcherWaitAdmission}
    (hsettle : settleAdmission B (recordOf wait sequence origin leases)
      (decide (wait.timeoutKind = .poll)) now { s with backend := b } = (admission, s')) :
    Parked K s' ∧ AdmissionSpec K s wait sequence origin now admission s' := by
  unfold settleAdmission at hsettle
  split at hsettle
  case h_1 index hselect =>
    cases hsettle
    obtain ⟨hparked, hspec⟩ := hb.satisfy h hstate hnodup hselect
    exact ⟨hparked, rfl, hspec⟩
  case h_2 hselect =>
    have hnotReady := hb.notReady hstate hselect
    split at hsettle
    case isTrue hover =>
      cases hsettle
      obtain ⟨hparked, hspec⟩ := hb.giveUp h hstate
      refine ⟨hparked, rfl, hnotReady, ?_, hspec⟩
      simpa [recordOf] using hover
    case isFalse hover =>
      cases hsettle
      simp only [Bool.or_eq_true, not_or, Bool.not_eq_true] at hover
      exact ⟨hb.park h hnodup hfresh sequence origin, rfl, hnotReady, hover.2, leases, rfl,
        hb.held, hstate⟩

theorem admitOwnedAt_spec (h : Parked K s) {continuation : C} {publish : C → Except (P × C) O}
    {result : Except (ProviderDispatcherWaitPublicationError E P × C)
      (ProviderDispatcherWaitAdmission × O)}
    (hadmission : admitOwnedAt B request owner sequence origin now capacity continuation publish s =
      (result, s')) :
    Parked K s' ∧ CallSpec K s
      (.admitOwned request owner sequence origin now capacity continuation publish)
      (.admission result) s' := by
  unfold admitOwnedAt at hadmission
  split at hadmission
  case h_1 error s₁ hprepare =>
    cases hadmission
    exact prepareAdmission_error h hprepare
  case h_2 waiter isPoll s₁ hprepare =>
    obtain ⟨wait, leases, b, hrequest, howner, hfresh, rfl, rfl, rfl, hb, hstate⟩ :=
      prepareAdmission_ok (K := K) hprepare
    split at hadmission
    · cases hadmission
      exact hb.giveUp h hstate
    · cases hadmission
      obtain ⟨hparked, hspec⟩ := settleAdmission_spec h hb hstate
        (ProviderWaitRequest.validate_objects hrequest) hfresh rfl
      exact ⟨hparked, wait, hrequest, howner, hspec⟩

end Admissions

/-! ## Completions -/

section Completions

variable {s s' : WaitState β L} {consumes : ProviderDispatcherWaitRecord L → ℕ → Bool}
  {selected : ℕ} {slot : Slot L} {eligible : List ProviderWaitObject → Prop}
  {publish : ProviderDispatcherWaitCompletion → Except P O}
  {result : Except P (Option (ProviderDispatcherWaitCompletion × O))}

theorem mem_readySlots :
    (slot, selected) ∈ readySlots B s consumes ↔ s.waiters[slot.2]? = some slot.1 ∧
      readySelection B s.backend slot.1.waitType slot.1.leases = some selected ∧
      consumes slot.1 selected = true := by
  simp only [readySlots, mem_filterMap, bind_eq_some_iff, ite_none_right_eq_some,
    Option.some.injEq, Prod.mk.injEq, mem_zipIdx_iff_getElem?]
  constructor
  · rintro ⟨_, hslot, _, hselect, hconsumes, rfl, rfl⟩
    exact ⟨hslot, hselect, hconsumes⟩
  · rintro ⟨hslot, hselect, hconsumes⟩
    exact ⟨slot, hslot, selected, hselect, hconsumes, rfl, rfl⟩

/-- The restriction of the candidates is one of the objects that they consume. -/
def Restricts (K : Contract B S) (s : WaitState β L)
    (consumes : ProviderDispatcherWaitRecord L → ℕ → Bool)
    (eligible : List ProviderWaitObject → Prop) : Prop :=
  ∀ waiter index consumed, ReadyWait K s waiter index consumed →
    (consumes waiter index = true ↔ eligible consumed)

theorem restricts_consumesObject (object : ProviderWaitObject) :
    Restricts K s (consumesObject object) fun consumed => object ∈ consumed := by
  rintro waiter index consumed ⟨-, hselection⟩
  unfold consumesObject
  cases htype : waiter.waitType with
  | all =>
    simp only [htype, Contract.selection, ite_none_right_eq_some] at hselection
    cases hselection.2
    simp
  | any =>
    simp only [htype, Contract.selection, map_eq_some_iff] at hselection
    obtain ⟨i, -, hpair⟩ := hselection
    cases hpair
    simp

section

variable (h : Parked K s) (hrestricts : Restricts K s consumes eligible)
include h hrestricts

/-- A wait that is ready and eligible is a candidate. -/
theorem Parked.exists_mem_readySlots {i : ℕ} {c : List ProviderWaitObject}
    (hready : ReadyWait K s waiter i c) (heligible : eligible c) :
    ∃ place, ((waiter, place), i) ∈ readySlots B s consumes := by
  obtain ⟨place, hplace⟩ := mem_iff_getElem?.mp hready.1
  refine ⟨place, mem_readySlots.mpr ⟨hplace, ?_, (hrestricts waiter i c hready).mpr heligible⟩⟩
  rw [readySelection_eq (mem_held_of_mem h hready.1) (h.leased waiter hready.1).objects,
    map_eq_some_iff]
  exact ⟨_, hready.2, rfl⟩

/-- A publication that is refused changes nothing; otherwise the oldest candidate completes. -/
theorem publishReady_spec (hsome : oldestReady B s consumes = some (slot, selected))
    (hpublish : publishReady B publish slot selected s = (result, s')) :
    Parked K s' ∧ match result with
      | .error _ => s' = s
      | .ok none => False
      | .ok (some (done, _)) => done.admissionSequence = slot.1.admissionSequence ∧
          CompletesOldest K eligible s done s' := by
  -- the candidate that is chosen is parked and has the smallest sequence of all candidates
  obtain ⟨hslot, hselect, hconsumes⟩ := mem_readySlots.mp (argmin_mem hsome)
  have holdest : ∀ waiter i c, ReadyWait K s waiter i c → eligible c →
      slot.1.admissionSequence ≤ waiter.admissionSequence := by
    intro waiter i c hready heligible
    obtain ⟨place, hmem⟩ := h.exists_mem_readySlots hrestricts hready heligible
    have hle := le_of_mem_argmin hmem hsome
    exact hle
  unfold publishReady at hpublish
  simp only at hpublish
  split at hpublish
  · cases hpublish
    exact ⟨h, rfl⟩
  · cases hpublish
    obtain ⟨consumed, hready, hparked, hremoves⟩ := h.completeReady hslot hselect
    exact ⟨hparked, rfl, slot, selected, consumed, hready,
      (hrestricts _ _ _ hready).mp hconsumes, rfl, holdest, hremoves⟩

end

theorem popReadyWith_spec (h : Parked K s) (hpop : popReadyWith B publish s = (result, s')) :
    Parked K s' ∧ CallSpec (E := E) (C := C) K s (.ready publish) (.popped result) s' := by
  have hrestricts : Restricts K s (fun _ _ => true) fun _ => True := by
    intro waiter index consumed _
    simp
  unfold popReadyWith at hpop
  split at hpop
  case h_1 hnone =>
    cases hpop
    refine ⟨h, rfl, fun waiter i c hready => ?_⟩
    rw [oldestReady, argmin_eq_none] at hnone
    obtain ⟨place, hmem⟩ := h.exists_mem_readySlots hrestricts hready trivial
    simp [hnone] at hmem
  case h_2 slot selected hsome =>
    obtain ⟨hparked, hspec⟩ := publishReady_spec h hrestricts hsome hpop
    refine ⟨hparked, ?_⟩
    match result with
    | .error _ => exact hspec
    | .ok none => exact hspec.elim
    | .ok (some _) => exact hspec.2

theorem popEventReadyWith_spec (h : Parked K s) {object : ProviderWaitObject} {sequence : ℕ}
    (hpop : popEventReadyWith B object sequence publish s = (result, s')) :
    Parked K s' ∧ CallSpec (E := E) (C := C) K s (.eventReady object sequence publish)
      (.popped result) s' := by
  unfold popEventReadyWith at hpop
  split at hpop
  · cases hpop
    exact ⟨h, rfl⟩
  case h_2 slot selected hsome =>
    split at hpop
    · cases hpop
      exact ⟨h, rfl⟩
    case isFalse hsequence =>
      obtain ⟨hparked, hspec⟩ := publishReady_spec h (restricts_consumesObject object) hsome hpop
      refine ⟨hparked, ?_⟩
      match result with
      | .error _ => exact hspec
      | .ok none => exact hspec.elim
      | .ok (some _) => exact ⟨hspec.1.trans (not_ne_iff.mp hsequence), hspec.2⟩

theorem foldl_earlierDue (now : TimeSnapshot) (rest : List (Slot L)) (first : Slot L) :
    (rest.foldl (earlierDue now) first = first ∨ rest.foldl (earlierDue now) first ∈ rest) ∧
      ∀ candidate ∈ first :: rest, (rest.foldl (earlierDue now) first).1.deadline.orderingKey now ≤
          candidate.1.deadline.orderingKey now := by
  induction rest generalizing first with
  | nil => simp
  | cons next rest ih =>
    obtain ⟨hmem, hall⟩ := ih (earlierDue now first next)
    have hbest := hall _ mem_cons_self
    have hcases : earlierDue now first next = first ∨ earlierDue now first next = next := by
      unfold earlierDue
      split <;> simp
    have hle : (earlierDue now first next).1.deadline.orderingKey now ≤
          first.1.deadline.orderingKey now ∧
        (earlierDue now first next).1.deadline.orderingKey now ≤
          next.1.deadline.orderingKey now := by
      unfold earlierDue
      split <;> omega
    rw [foldl_cons, forall_mem_cons, forall_mem_cons]
    refine ⟨?_, hbest.trans hle.1, hbest.trans hle.2, fun candidate hcandidate =>
      hall candidate (mem_cons_of_mem _ hcandidate)⟩
    rcases hmem with heq | hmem
    · rw [heq]
      rcases hcases with h | h <;> simp [h]
    · exact .inr (mem_cons_of_mem _ hmem)

theorem mem_dueSlots : slot ∈ (s.waiters.zipIdx.filter fun slot => slot.1.deadline.isDue now) ↔
      s.waiters[slot.2]? = some slot.1 ∧ slot.1.deadline.isDue now = true := by
  rw [mem_filter, mem_zipIdx_iff_getElem?]

/-- The wait that is chosen is due and has the earliest deadline of those that are. -/
theorem oldestDue_spec (now : TimeSnapshot) (s : WaitState β L) :
    match oldestDue now s with
    | none => ∀ waiter ∈ s.waiters, waiter.deadline.isDue now = false
    | some slot => s.waiters[slot.2]? = some slot.1 ∧ slot.1.deadline.isDue now = true ∧
        ∀ waiter ∈ s.waiters, waiter.deadline.isDue now = true →
          slot.1.deadline.orderingKey now ≤ waiter.deadline.orderingKey now := by
  have hcandidate : ∀ waiter ∈ s.waiters, waiter.deadline.isDue now = true →
      ∃ place, (waiter, place) ∈ s.waiters.zipIdx.filter fun slot => slot.1.deadline.isDue now := by
    intro waiter hmem hdue
    obtain ⟨place, hplace⟩ := mem_iff_getElem?.mp hmem
    exact ⟨place, mem_dueSlots.mpr ⟨hplace, hdue⟩⟩
  unfold oldestDue
  cases hdue : s.waiters.zipIdx.filter fun slot => slot.1.deadline.isDue now with
  | nil =>
    intro waiter hmem
    refine Bool.eq_false_iff.mpr fun hwaiter => ?_
    obtain ⟨place, hplace⟩ := hcandidate waiter hmem hwaiter
    simp [hdue] at hplace
  | cons first rest =>
    obtain ⟨hmem, hall⟩ := foldl_earlierDue now rest first
    have hchosen : rest.foldl (earlierDue now) first ∈
        s.waiters.zipIdx.filter fun slot => slot.1.deadline.isDue now := by
      rw [hdue]
      rcases hmem with heq | hmem
      · rw [heq]
        exact mem_cons_self
      · exact mem_cons_of_mem _ hmem
    obtain ⟨hslot, hisDue⟩ := mem_dueSlots.mp hchosen
    refine ⟨hslot, hisDue, fun waiter hwaiter hwaiterDue => ?_⟩
    obtain ⟨place, hplace⟩ := hcandidate waiter hwaiter hwaiterDue
    rw [hdue] at hplace
    exact hall _ hplace

theorem popDueWith_spec (h : Parked K s) (hpop : popDueWith B now publish s = (result, s')) :
    Parked K s' ∧ CallSpec (E := E) (C := C) K s (.due now publish) (.popped result) s' := by
  have hspec := oldestDue_spec now s
  unfold popDueWith at hpop
  cases hdue : oldestDue now s with
  | none =>
    simp only [hdue] at hpop hspec
    cases hpop
    exact ⟨h, rfl, hspec⟩
  | some slot =>
    simp only [hdue] at hpop hspec
    obtain ⟨hslot, hisDue, hearliest⟩ := hspec
    obtain ⟨hparked, hremoves⟩ := h.remove hslot
    split at hpop
    · cases hpop
      exact ⟨h, rfl⟩
    · cases hpop
      exact ⟨hparked, slot, hisDue, rfl, hearliest, hremoves⟩

section

variable {result : Option ProviderDispatcherWaitCompletion} (h : Parked K s)
include h

theorem removeFirst_spec {p : ProviderDispatcherWaitRecord L → Bool} {status : ℤ} {cancelled : Bool}
    (hremove : removeFirst B p status cancelled s = (result, s')) : Parked K s' ∧ match result with
      | none => s' = s ∧ ∀ waiter ∈ s.waiters, p waiter = false
      | some done => ∃ slot : Slot L, p slot.1 = true ∧ done = completion slot.1 status cancelled ∧
          Removes K s slot [] s' := by
  unfold removeFirst at hremove
  split at hremove
  case h_1 hnone =>
    cases hremove
    refine ⟨h, rfl, fun waiter hmem => ?_⟩
    obtain ⟨place, hplace⟩ := mem_iff_getElem?.mp hmem
    simpa using List.find?_eq_none.mp hnone (waiter, place) (mem_zipIdx_iff_getElem?.mpr hplace)
  case h_2 slot hsome =>
    cases hremove
    have hslot := mem_zipIdx_iff_getElem?.mp (mem_of_find?_eq_some hsome)
    obtain ⟨hparked, hremoves⟩ := h.remove hslot
    exact ⟨hparked, slot, by simpa using List.find?_some hsome, rfl, hremoves⟩

theorem cancel_spec {waitId : ℕ} {status : ℤ} (hcancel : cancel B waitId status s = (result, s')) :
    Parked K s' ∧ CallSpec (C := C) (O := O) (P := P) K s (.cancel waitId status)
      (.removed result) s' := by
  obtain ⟨hparked, hspec⟩ := removeFirst_spec h hcancel
  refine ⟨hparked, ?_⟩
  cases result with
  | none => exact ⟨hspec.1, fun waiter hmem => of_decide_eq_false (hspec.2 waiter hmem)⟩
  | some done =>
    obtain ⟨slot, hid, hdone, hremoves⟩ := hspec
    exact ⟨slot, of_decide_eq_true hid, hdone, hremoves⟩

theorem interruptAlertable_spec {waitId : ℕ} {owner : ProviderWaitOwner}
    {kind : ProviderWaitInterrupt}
    (hinterrupt : interruptAlertable B waitId owner kind s = (result, s')) :
    Parked K s' ∧ CallSpec (C := C) (O := O) (P := P) K s (.interrupt waitId owner kind)
      (.removed result) s' := by
  obtain ⟨hparked, hspec⟩ := removeFirst_spec h hinterrupt
  refine ⟨hparked, ?_⟩
  cases result <;> exact hspec

end

end Completions

/-- Every call does what it should and keeps the leases with the parked waits. -/
theorem perform_spec (h : Parked K s)
    (hperform : call.perform B s = (reply, s')) : Parked K s' ∧ CallSpec K s call reply s' := by
  cases call <;> cases hperform
  case admitOwned => exact admitOwnedAt_spec h rfl
  case poll => exact poll_spec h rfl
  case ready => exact popReadyWith_spec h rfl
  case eventReady => exact popEventReadyWith_spec h rfl
  case due => exact popDueWith_spec h rfl
  case cancel => exact cancel_spec h rfl
  case interrupt => exact interruptAlertable_spec h rfl

/-! ## Runs -/

/-- What identifies one admission of a wait. -/
structure WaitKey where
  waitId : ℕ
  owner : ProviderWaitOwner
  admissionSequence : ℕ
  deriving DecidableEq, Repr

/-- The key of a waiter. -/
def ProviderDispatcherWaitRecord.key (waiter : ProviderDispatcherWaitRecord L) : WaitKey :=
  ⟨waiter.waitId, waiter.owner, waiter.admissionSequence⟩

/-- The key of the waiter a completion is for. -/
def ProviderDispatcherWaitCompletion.key (done : ProviderDispatcherWaitCompletion) : WaitKey :=
  ⟨done.waitId, done.owner, done.admissionSequence⟩

/-- The keys of the parked waiters. -/
def WaitState.keys (s : WaitState β L) : List WaitKey :=
  s.waiters.map fun waiter => waiter.key

/-- The wait that a call parked. -/
def parkedBy : WaitCall C O P → WaitReply E C O P → List WaitKey
  | .admitOwned _ owner seq _ _ _ _ _, .admission (.ok (.parked waitId, _)) =>
    [⟨waitId, owner, seq⟩]
  | _, _ => []

/-- The parked wait that a call completed. -/
def completedBy : WaitReply E C O P → List WaitKey
  | .popped (.ok (some (done, _))) => [done.key]
  | .removed (some done) => [done.key]
  | _ => []

/-- States that runs reach, with the waits that were parked and those that were completed. -/
inductive WaitRun (K : Contract B S) : List WaitKey → List WaitKey → WaitState β L → Prop
  | start {b : β} (hheld : K.held b = 0) : WaitRun K [] [] ⟨[], b⟩
  /-- Signals and resets, which the arbiter does not see. -/
  | environment {parked completed : List WaitKey} {s : WaitState β L} {b : β}
      (run : WaitRun K parked completed s) (hkeeps : K.Keeps s.backend b) :
      WaitRun K parked completed { s with backend := b }
  | call {parked completed : List WaitKey} {s s' : WaitState β L} {C O P : Type}
      (run : WaitRun K parked completed s) (call : WaitCall C O P) {reply : WaitReply E C O P}
      (hperform : call.perform B s = (reply, s')) :
      WaitRun K (parked ++ parkedBy call reply) (completed ++ completedBy reply) s'

theorem WaitRun.parked {parked completed : List WaitKey}
    (run : WaitRun K parked completed s) : Parked K s := by
  induction run with
  | start hheld =>
    exact ⟨hheld, fun _ hmem => absurd hmem not_mem_nil, List.Pairwise.nil⟩
  | environment _ hkeeps ih => exact ih.keeps hkeeps
  | call _ call hperform ih => exact (perform_spec ih hperform).1

theorem keys_of_unchanged (h : s'.waiters = s.waiters) : (s.keys ++ []).Perm ([] ++ s'.keys) := by
  rw [WaitState.keys, WaitState.keys, h, append_nil, nil_append]

theorem Removes.keys {slot : Slot L} {consumed : List ProviderWaitObject}
    (h : Removes K s slot consumed s') : (s.keys ++ []).Perm ([slot.1.key] ++ s'.keys) := by
  obtain ⟨hlt, heq⟩ := List.getElem?_eq_some_iff.mp h.parked
  have hperm : (slot.1 :: s'.waiters).Perm s.waiters := by
    rw [h.waiters, ← heq]
    exact getElem_cons_eraseIdx_perm hlt
  rw [append_nil]
  exact hperm.symm.map _

/-- A call moves one wait at most into the list of the parked ones or out of it. -/
theorem CallSpec.keys (h : CallSpec K s call reply s') :
    (s.keys ++ parkedBy call reply).Perm (completedBy reply ++ s'.keys) := by
  cases call <;> cases reply <;> try exact False.elim h
  case admitOwned.admission result =>
    match result, h with
    | .error _, h => exact keys_of_unchanged h.waiters
    | .ok (.satisfied _ _, _), ⟨_, _, _, _, _, _, _, _, hwaiters, _⟩ =>
      exact keys_of_unchanged hwaiters
    | .ok (.timedOut _, _), ⟨_, _, _, _, _, _, h⟩ => exact keys_of_unchanged h.waiters
    | .ok (.parked _, _), ⟨wait, _, howner, hid, _, _, leases, hwaiters, _⟩ =>
      rw [WaitState.keys, WaitState.keys, hwaiters, map_append, hid, ← howner]
      exact List.Perm.refl _
  case poll.polled result =>
    match result, h with
    | .error _, h => exact keys_of_unchanged h.waiters
    | .ok _, ⟨_, _, _, .inl ⟨_, _, _, _, hwaiters, _⟩⟩ => exact keys_of_unchanged hwaiters
    | .ok _, ⟨_, _, _, .inr ⟨_, _, h⟩⟩ => exact keys_of_unchanged h.waiters
  case ready.popped result =>
    match result, h with
    | .error _, h => exact keys_of_unchanged (congrArg _ h)
    | .ok none, h => exact keys_of_unchanged (congrArg _ h.1)
    | .ok (some (_, _)), ⟨_, _, _, _, _, hdone, _, hremoves⟩ =>
      subst hdone
      exact hremoves.keys
  case eventReady.popped result =>
    match result, h with
    | .error _, h => exact keys_of_unchanged (congrArg _ h)
    | .ok none, h => exact keys_of_unchanged (congrArg _ h)
    | .ok (some (_, _)), ⟨_, _, _, _, _, _, hdone, _, hremoves⟩ =>
      subst hdone
      exact hremoves.keys
  case due.popped result =>
    match result, h with
    | .error _, h => exact keys_of_unchanged (congrArg _ h)
    | .ok none, h => exact keys_of_unchanged (congrArg _ h.1)
    | .ok (some (_, _)), ⟨_, _, hdone, _, hremoves⟩ =>
      subst hdone
      exact hremoves.keys
  case cancel.removed result | interrupt.removed result =>
    match result, h with
    | none, h => exact keys_of_unchanged (congrArg _ h.1)
    | some _, ⟨_, _, hdone, hremoves⟩ =>
      subst hdone
      exact hremoves.keys

/-- Every wait that was parked was completed once or is parked. -/
theorem WaitRun.ledger {parked completed : List WaitKey} (run : WaitRun K parked completed s) :
    parked.Perm (completed ++ s.keys) := by
  induction run with
  | start hheld => exact List.Perm.nil
  | environment _ _ ih => exact ih
  | @call parked completed s s' C O P run call reply hperform ih =>
    have hkeys := (perform_spec run.parked hperform).2.keys
    calc (parked ++ parkedBy call reply).Perm
          (completed ++ s.keys ++ parkedBy call reply) := ih.append_right _
      List.Perm _ (completed ++ (completedBy reply ++ s'.keys)) := by
          rw [append_assoc]
          exact hkeys.append_left _
      _ = completed ++ completedBy reply ++ s'.keys := (append_assoc _ _ _).symm

/-- In every state that a run reaches, the held leases are those of the parked waits, no two of
these have one identifier or one dispatch, the waits that were parked are those that were
completed and those that still are parked, and every call does what its specification says. -/
theorem waits_arbitrated {s : WaitState β L} {parked completed : List WaitKey}
    (run : WaitRun K parked completed s) :
    K.held s.backend = leasesOf s.waiters ∧
      (s.waiters.Pairwise fun a b =>
        a.waitId ≠ b.waitId ∧ a.owner.sameDispatch b.owner = false) ∧
      parked.Perm (completed ++ s.keys) ∧
      ∀ (C O P : Type) (call : WaitCall C O P) (reply : WaitReply E C O P) (s' : WaitState β L),
        call.perform B s = (reply, s') → CallSpec K s call reply s' :=
  ⟨run.parked.held, run.parked.distinct, run.ledger,
    fun _ _ _ _ _ _ hperform => (perform_spec run.parked hperform).2⟩

/-! ## A backend of synchronization events -/

/-- The events that are set and the leases, each the event that it is for. -/
structure EventBoard where
  signalled : List ProviderWaitObject
  held : List ProviderWaitObject

/-- Consumption resets an event, and with its last lease an event is gone. -/
def eventBoard : WaitBackend EventBoard ProviderWaitObject Empty where
  acquire _ object board := (.ok object, { board with held := object :: board.held })
  isReady board lease := decide (lease ∈ board.signalled)
  consume lease board :=
    { board with signalled := board.signalled.filter fun object => object ≠ lease }
  release lease board :=
    let held := board.held.erase lease
    { held, signalled := board.signalled.filter fun object => object ≠ lease ∨ lease ∈ held }

/-- Its contract: an object's state is whether it is set. -/
def eventBoardContract : Contract eventBoard Bool where
  held board := board.held
  object _ lease := lease
  state board object := decide (object ∈ board.signalled)
  transient _ := True
  ready := id
  consumed _ := false
  acquire_ok h := by cases h; simp
  acquire_error h := by cases h
  isReady_eq _ := rfl
  consume_eq {board lease} _ _ := by
    refine ⟨rfl, fun _ _ => rfl, funext fun object => ?_⟩
    by_cases heq : object = lease <;> simp [eventBoard, heq]
  release_eq {board lease} h := by
    refine ⟨Multiset.coe_eq_coe.mpr (perm_cons_erase h), fun _ _ => rfl, fun object hleased => ?_⟩
    obtain ⟨left, hmem, rfl⟩ := hleased trivial
    have hkept : left ≠ lease ∨ lease ∈ board.held.erase lease := by
      rw [or_iff_not_imp_left, not_ne_iff]
      rintro rfl
      exact Multiset.mem_coe.mp hmem
    simp [eventBoard, hkept]

namespace EventBoard

/-- An event. -/
def event (objectId : ℕ) : ProviderWaitObject := ⟨1, 0, objectId, 1⟩

/-- A caller in the kernel. -/
def owner (dispatchId : ℕ) : ProviderWaitOwner := ⟨1, 1, dispatchId, .kernel ⟨0, 1⟩⟩

/-- An infinite wait for any of some events, in an array of the full length. -/
def request (waitId : ℕ) (objectIds : List ℕ) : ProviderWaitRequest where
  header :=
    { magic := providerWaitAbiMagic, version := providerWaitAbiVersion, headerSize := headerSize
      requestSize := headerSize + objectIds.length * objectSize
      objectCount := objectIds.length, waitType := 1, waitMode := 0
      alertable := 0, timeoutKind := 0, reserved := 0, timeout100ns := 0, waitId
      providerDomain := 1, providerGeneration := 1, callerKind := 2, kernelLaneIndex := 0
      kernelLaneGeneration := 1, clientPi := 0, ownerReserved := 0, clientGeneration := 0
      clientTid := 0, clientBadge := 0, dispatchId := waitId }
  objects := objectIds.map event ++
    replicate (providerWaitMaxObjects - objectIds.length) ProviderWaitObject.empty

/-- Its admission with a publication that succeeds. -/
def admission (waitId : ℕ) (objectIds : List ℕ) : WaitCall Unit Unit Unit :=
  .admitOwned (request waitId objectIds) (owner waitId) waitId ⟨0, 0, 0⟩ ⟨0, 0, 0⟩ true () .ok

/-- The waiter of a request. -/
def parkedWait (waitId : ℕ) (objectIds : List ℕ) :
    ProviderDispatcherWaitRecord ProviderWaitObject :=
  { waitId, owner := owner waitId, admissionSequence := waitId, waitType := .any
    waitMode := .kernel, alertable := false, objects := objectIds.map event
    leases := objectIds.map event, deadline := .infinite }

/-- Its key. -/
def keyOf (waitId : ℕ) : WaitKey := ⟨waitId, owner waitId, waitId⟩

/-- Two waits are parked, the older one for events 1 and 3, the younger one for events 2 and
3. -/
theorem run_parked : WaitRun eventBoardContract [keyOf 1, keyOf 2] []
      ⟨[parkedWait 1 [1, 3], parkedWait 2 [2, 3]], [], [event 3, event 2, event 3, event 1]⟩ :=
  .call (.call (.start (b := EventBoard.mk [] []) rfl) (admission 1 [1, 3]) rfl)
    (admission 2 [2, 3]) rfl

/-- Events 1 and 2 are set. -/
theorem run_ready : WaitRun eventBoardContract [keyOf 1, keyOf 2] []
      ⟨[parkedWait 1 [1, 3], parkedWait 2 [2, 3]], [event 1, event 2],
        [event 3, event 2, event 3, event 1]⟩ :=
  .environment run_parked ⟨rfl, fun _ _ => rfl⟩

/-- A publisher that never fails. -/
def publish : ProviderDispatcherWaitCompletion → Except Unit Unit := fun _ => .ok ()

end EventBoard

open EventBoard in
/-- A completion for an event may be that of a wait that is not the oldest ready one. -/
theorem event_completion_not_of_oldest :
    ∃ s done s', WaitRun eventBoardContract [keyOf 1, keyOf 2] [] s ∧
      (WaitCall.eventReady (C := Unit) (event 2) 2 publish).perform eventBoard s =
        (.popped (.ok (some (done, ()))), s') ∧
      ∃ waiter index consumed, ReadyWait eventBoardContract s waiter index consumed ∧
        waiter.admissionSequence < done.admissionSequence := by
  refine ⟨_, completion (parkedWait 2 [2, 3]) 0 false, _, run_ready, rfl, parkedWait 1 [1, 3], 0,
    [event 1], ⟨mem_cons_self, by decide⟩, by decide⟩

open EventBoard in
/-- After both waits completed, no lease is held and each is in the ledger once. -/
theorem eventBoard_waits_arbitrated :
    ∃ s, WaitRun eventBoardContract [keyOf 1, keyOf 2] [keyOf 1, keyOf 2] s ∧
      eventBoardContract.held s.backend = leasesOf s.waiters ∧
      [keyOf 1, keyOf 2].Perm ([keyOf 1, keyOf 2] ++ s.keys) := by
  have run := WaitRun.call (.call run_ready (.ready (C := Unit) publish) rfl)
    (.ready (C := Unit) publish) rfl
  obtain ⟨hheld, -, hledger, -⟩ := waits_arbitrated run
  exact ⟨_, run, hheld, hledger⟩

end UserspaceNtos.ProviderWait
