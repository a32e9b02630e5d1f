import UserspaceNtos.ProviderWait.Arbiter
import Mathlib.Data.Multiset.AddSub

/-!
# Arbitration of provider waits

What the arbiter may assume of a backend is `Contract`: a lease that was acquired is held and
stands for its object until it is released, readiness is a property of the object's state, and
only consumption changes that state, except that an object may go away with its last lease.  The
object states change between calls as well, by signals that the arbiter does not see.

`CallSpec` says what each call does in these terms, and `Parked` is what holds in every state
that runs reach: the held leases are those of the parked waits.
-/

namespace UserspaceNtos.ProviderWait

open List NtTime

variable {β L E C O P S : Type}

/-! ## The backend's contract -/

/-- A view of the backend's state in which its operations do what they are for. -/
structure Contract (B : WaitBackend β L E) (S : Type) where
  held : β → Multiset L
  /-- The object that a held lease is for. -/
  object : β → L → ProviderWaitObject
  state : β → ProviderWaitObject → S
  /-- The objects that go away with their last lease. -/
  transient : ProviderWaitObject → Prop
  ready : S → Bool
  consumed : S → S
  acquire_ok : ∀ {owner target b lease b'}, B.acquire owner target b = (.ok lease, b') →
    held b' = lease ::ₘ held b ∧ object b' lease = target ∧
      (∀ l ∈ held b, object b' l = object b l) ∧ state b' = state b
  acquire_error : ∀ {owner target b error b'}, B.acquire owner target b = (.error error, b') →
    held b' = held b ∧ (∀ l ∈ held b, object b' l = object b l) ∧ state b' = state b
  isReady_eq : ∀ {b lease}, lease ∈ held b →
    B.isReady b lease = ready (state b (object b lease))
  consume_eq : ∀ {b lease}, lease ∈ held b → B.isReady b lease = true →
    held (B.consume lease b) = held b ∧
      (∀ l ∈ held b, object (B.consume lease b) l = object b l) ∧
      state (B.consume lease b) =
        Function.update (state b) (object b lease) (consumed (state b (object b lease)))
  release_eq : ∀ {b lease}, lease ∈ held b →
    held b = lease ::ₘ held (B.release lease b) ∧
      (∀ l ∈ held (B.release lease b), object (B.release lease b) l = object b l) ∧
      ∀ o, (transient o → ∃ l ∈ held (B.release lease b), object (B.release lease b) l = o) →
        state (B.release lease b) o = state b o

variable {B : WaitBackend β L E} (K : Contract B S)

namespace Contract

/-- The backend holds the same leases for the same objects. -/
structure Keeps (b b' : β) : Prop where
  held : K.held b' = K.held b
  object : ∀ l ∈ K.held b, K.object b' l = K.object b l

/-- The object has a lease or does not need one. -/
def Present (b : β) (object : ProviderWaitObject) : Prop :=
  K.transient object → ∃ l ∈ K.held b, K.object b l = object

/-- The objects that have not gone away are in the given states. -/
def Shows (b : β) (states : ProviderWaitObject → S) : Prop :=
  ∀ object, K.Present b object → K.state b object = states object

/-- The objects' states after some of them were consumed. -/
def consumeObjects (objects : List ProviderWaitObject) (states : ProviderWaitObject → S) :
    ProviderWaitObject → S :=
  fun object => if object ∈ objects then K.consumed (states object) else states object

/-- What a wait for objects selects: its index and the objects it consumes. -/
def selection (states : ProviderWaitObject → S) (waitType : ProviderWaitType)
    (objects : List ProviderWaitObject) : Option (ℕ × List ProviderWaitObject) :=
  match waitType with
  | .all => if objects.all fun o => K.ready (states o) then some (0, objects) else none
  | .any => (objects.findIdx? fun o => K.ready (states o)).map fun index =>
    (index, objects[index]?.toList)

end Contract

/-- The leases of a list of waits. -/
def leasesOf (waiters : List (ProviderDispatcherWaitRecord L)) : Multiset L :=
  (waiters.flatMap (·.leases) : List L)

/-- A wait that holds one lease for each of its distinct objects. -/
structure Leased (b : β) (waiter : ProviderDispatcherWaitRecord L) : Prop where
  objects : waiter.leases.map (K.object b) = waiter.objects
  nodup : waiter.objects.Nodup

/-- What holds between calls. -/
structure Parked (s : WaitState β L) : Prop where
  /-- The held leases are exactly those of the parked waits. -/
  held : K.held s.backend = leasesOf s.waiters
  leased : ∀ waiter ∈ s.waiters, Leased K s.backend waiter
  /-- No two parked waits have one identifier or one dispatch. -/
  distinct : s.waiters.Pairwise fun a b =>
    a.waitId ≠ b.waitId ∧ a.owner.sameDispatch b.owner = false

/-! ## Leases -/

section Leases

variable {K} {b b' : β} {leases : List L}

theorem releaseLeases_spec {held : Multiset L} (h : K.held b = leases + held) :
    K.held (releaseLeases B leases b) = held ∧
      (∀ l ∈ held, K.object (releaseLeases B leases b) l = K.object b l) ∧
      K.Shows (releaseLeases B leases b) (K.state b) := by
  induction leases using List.reverseRecOn generalizing b with
  | nil => exact ⟨by simpa [releaseLeases] using h, fun _ _ => rfl, fun _ _ => rfl⟩
  | append_singleton leases lease ih =>
    have hfold : releaseLeases B (leases ++ [lease]) b =
        releaseLeases B leases (B.release lease b) := by
      simp [releaseLeases]
    have hcons : K.held b = lease ::ₘ ((leases : Multiset L) + held) := by
      rw [h, ← Multiset.cons_add]
      exact congrArg (· + held) (Multiset.coe_eq_coe.mpr (perm_append_singleton lease leases))
    obtain ⟨hheld, hobject, hstate⟩ := K.release_eq (by rw [hcons]; simp : lease ∈ K.held b)
    have hrest : K.held (B.release lease b) = (leases : Multiset L) + held :=
      (Multiset.cons_inj_right lease).mp (hheld.symm.trans hcons)
    obtain ⟨hheld', hobject', hstate'⟩ := ih hrest
    have hmem : ∀ l ∈ held, l ∈ K.held (B.release lease b) := by
      intro l hl
      rw [hrest]
      exact Multiset.mem_add.mpr (.inr hl)
    rw [hfold]
    refine ⟨hheld', fun l hl => (hobject' l hl).trans (hobject l (hmem l hl)), fun o ho => ?_⟩
    refine (hstate' o ho).trans (hstate o fun htransient => ?_)
    -- what is leased in the end was leased before
    obtain ⟨l, hl, hobj⟩ := ho htransient
    rw [hheld'] at hl
    exact ⟨l, hmem l hl, (hobject' l hl).symm.trans hobj⟩

/-- Either every object gets a lease, or all is as before. -/
theorem acquireLeases_spec {owner : ProviderWaitOwner} {objects done : List ProviderWaitObject}
    {held : Multiset L} {result : Except E (List L)}
    (h : acquireLeases B owner objects leases b = (result, b')) (hheld : K.held b = leases + held)
    (hdone : leases.map (K.object b) = done) :
    (∀ l ∈ held, K.object b' l = K.object b l) ∧
      match result with
      | .error _ => K.held b' = held ∧ K.Shows b' (K.state b)
      | .ok all => K.held b' = all + held ∧ all.map (K.object b') = done ++ objects ∧
          K.state b' = K.state b := by
  induction objects generalizing leases b done with
  | nil =>
    cases h
    exact ⟨fun _ _ => rfl, hheld, by rw [hdone, append_nil], rfl⟩
  | cons object rest ih =>
    rw [acquireLeases] at h
    rcases hacquire : B.acquire owner object b with ⟨answer, b₁⟩
    rw [hacquire] at h
    cases answer with
    | error error =>
      -- the leases taken so far are given back
      obtain ⟨hheld₁, hobject₁, hstate₁⟩ := K.acquire_error hacquire
      cases h
      obtain ⟨hheld₂, hobject₂, hstate₂⟩ := releaseLeases_spec (hheld₁.trans hheld)
      refine ⟨fun l hl => ?_, hheld₂, hstate₁ ▸ hstate₂⟩
      rw [hobject₂ l hl]
      exact hobject₁ l (by rw [hheld]; exact Multiset.mem_add.mpr (.inr hl))
    | ok lease =>
      obtain ⟨hheld₁, hnew, hobject₁, hstate₁⟩ := K.acquire_ok hacquire
      have hheld₁' : K.held b₁ = ((leases ++ [lease] : List L) : Multiset L) + held := by
        rw [hheld₁, hheld, ← Multiset.cons_add]
        exact congrArg (· + held)
          (Multiset.coe_eq_coe.mpr (perm_append_singleton lease leases).symm)
      have hdone₁ : (leases ++ [lease]).map (K.object b₁) = done ++ [object] := by
        rw [map_append, map_singleton, hnew, ← hdone]
        refine congrArg (· ++ [object]) (map_congr_left fun l hl => ?_)
        exact hobject₁ l (by rw [hheld]; exact Multiset.mem_add.mpr (.inl hl))
      obtain ⟨hobject₂, hresult⟩ := ih h hheld₁' hdone₁
      rw [hstate₁] at hresult
      refine ⟨fun l hl => ?_, ?_⟩
      · rw [hobject₂ l hl]
        exact hobject₁ l (by rw [hheld]; exact Multiset.mem_add.mpr (.inr hl))
      · cases result with
        | error error => exact hresult
        | ok all =>
          obtain ⟨hheld₂, hobjects₂, hstate₂⟩ := hresult
          exact ⟨hheld₂, by rw [hobjects₂, append_assoc]; rfl, hstate₂⟩

theorem findIdx?_congr_mem {α : Type} {p q : α → Bool} {l : List α} (h : ∀ a ∈ l, p a = q a) :
    l.findIdx? p = l.findIdx? q := by
  induction l with
  | nil => rfl
  | cons a l ih =>
    rw [List.findIdx?_cons, List.findIdx?_cons, h a mem_cons_self,
      ih fun b hb => h b (mem_cons_of_mem _ hb)]

section

variable (hheld : ∀ l ∈ leases, l ∈ K.held b)
include hheld

theorem readySelection_eq {waitType : ProviderWaitType} {objects : List ProviderWaitObject}
    (hobjects : leases.map (K.object b) = objects) : readySelection B b waitType leases =
      (K.selection (K.state b) waitType objects).map Prod.fst := by
  have hready : ∀ l ∈ leases, B.isReady b l = K.ready (K.state b (K.object b l)) :=
    fun l hl => K.isReady_eq (hheld l hl)
  cases waitType with
  | all =>
    have hall : leases.all (B.isReady b) = objects.all fun o => K.ready (K.state b o) := by
      rw [← hobjects, all_map, Bool.eq_iff_iff, all_eq_true, all_eq_true]
      exact forall₂_congr fun l hl => by rw [hready l hl, Function.comp_apply]
    simp only [readySelection, Contract.selection, hall]
    split <;> rfl
  | any =>
    have hany : leases.findIdx? (B.isReady b) =
        objects.findIdx? fun o => K.ready (K.state b o) := by
      rw [← hobjects, List.findIdx?_map]
      exact findIdx?_congr_mem hready
    simp only [readySelection, Contract.selection, hany]
    cases objects.findIdx? fun o => K.ready (K.state b o) <;> rfl

theorem consumeLeases_spec (hready : ∀ l ∈ leases, B.isReady b l = true)
    (hnodup : (leases.map (K.object b)).Nodup) :
    K.Keeps b (leases.foldl (fun b l => B.consume l b) b) ∧
      K.state (leases.foldl (fun b l => B.consume l b) b) =
        K.consumeObjects (leases.map (K.object b)) (K.state b) := by
  induction leases generalizing b with
  | nil => exact ⟨⟨rfl, fun _ _ => rfl⟩, by funext object; simp [Contract.consumeObjects]⟩
  | cons lease rest ih =>
    have hlease := hheld lease mem_cons_self
    obtain ⟨hheld₁, hobject₁, hstate₁⟩ := K.consume_eq hlease (hready lease mem_cons_self)
    have hrest : ∀ l ∈ rest, l ∈ K.held b := fun l hl => hheld l (mem_cons_of_mem _ hl)
    have hmap : rest.map (K.object (B.consume lease b)) = rest.map (K.object b) :=
      map_congr_left fun l hl => hobject₁ l (hrest l hl)
    rw [map_cons, nodup_cons] at hnodup
    -- the other objects of the wait are different ones, and so still ready
    have hready₁ : ∀ l ∈ rest, B.isReady (B.consume lease b) l = true := by
      intro l hl
      have hne : K.object b l ≠ K.object b lease := fun heq =>
        hnodup.1 (mem_map.mpr ⟨l, hl, heq⟩)
      rw [K.isReady_eq (by rw [hheld₁]; exact hrest l hl), hobject₁ l (hrest l hl), hstate₁,
        Function.update_of_ne hne, ← K.isReady_eq (hrest l hl)]
      exact hready l (mem_cons_of_mem _ hl)
    obtain ⟨hkeeps, hstate⟩ := ih (fun l hl => by rw [hheld₁]; exact hrest l hl) hready₁
      (by rw [hmap]; exact hnodup.2)
    refine ⟨⟨hkeeps.held.trans hheld₁, fun l hl => ?_⟩, ?_⟩
    · rw [foldl_cons, hkeeps.object l (by rw [hheld₁]; exact hl), hobject₁ l hl]
    · rw [foldl_cons, hstate, hmap, hstate₁]
      funext object
      simp only [Contract.consumeObjects]
      by_cases heq : object = K.object b lease
      · subst heq
        simp [hnodup.1]
      · simp [heq]

/-- A wait that is ready consumes what it selects. -/
theorem consumeSelection_spec {waitType : ProviderWaitType} {objects : List ProviderWaitObject}
    {index : ℕ} (hobjects : leases.map (K.object b) = objects) (hnodup : objects.Nodup)
    (hselect : readySelection B b waitType leases = some index) :
    ∃ consumed, K.selection (K.state b) waitType objects = some (index, consumed) ∧
      K.Keeps b (consumeSelection B waitType leases index b) ∧
      K.state (consumeSelection B waitType leases index b) =
        K.consumeObjects consumed (K.state b) := by
  rw [readySelection_eq hheld hobjects] at hselect
  obtain ⟨⟨i, consumed⟩, hselection, rfl⟩ := Option.map_eq_some_iff.mp hselect
  refine ⟨consumed, hselection, ?_⟩
  cases waitType with
  | all =>
    simp only [Contract.selection] at hselection
    split at hselection
    case isTrue hall =>
      cases hselection
      subst hobjects
      refine consumeLeases_spec hheld (fun l hl => ?_) hnodup
      rw [K.isReady_eq (hheld l hl)]
      exact all_eq_true.mp hall _ (mem_map_of_mem hl)
    · cases hselection
  | any =>
    obtain ⟨j, hj, hpair⟩ := Option.map_eq_some_iff.mp hselection
    cases hpair
    subst hobjects
    obtain ⟨hlt, hready, -⟩ := List.findIdx?_eq_some_iff_getElem.mp hj
    rw [length_map] at hlt
    have hmem : leases[i] ∈ leases := getElem_mem hlt
    have hheld' : ∀ l ∈ [leases[i]], l ∈ K.held b := forall_mem_singleton.mpr (hheld _ hmem)
    have hready' : ∀ l ∈ [leases[i]], B.isReady b l = true := by
      intro l hl
      rw [mem_singleton.mp hl, K.isReady_eq (hheld _ hmem)]
      simpa using hready
    have hsingle := consumeLeases_spec hheld' hready' (by simp)
    simpa [consumeSelection, List.getElem?_eq_getElem hlt] using hsingle

end

end Leases

/-! ## What each call does -/

/-- Waits, leases and the states of the objects that are left are as they were. -/
structure Unchanged (s s' : WaitState β L) : Prop where
  waiters : s'.waiters = s.waiters
  held : K.held s'.backend = K.held s.backend
  state : K.Shows s'.backend (K.state s.backend)

/-- A parked wait is ready, and would complete so. -/
def ReadyWait (s : WaitState β L) (waiter : ProviderDispatcherWaitRecord L) (index : ℕ)
    (consumed : List ProviderWaitObject) : Prop :=
  waiter ∈ s.waiters ∧
    K.selection (K.state s.backend) waiter.waitType waiter.objects = some (index, consumed)

/-- A parked wait is gone with its leases, and some objects were consumed. -/
structure Removes (s : WaitState β L) (slot : Slot L) (consumed : List ProviderWaitObject)
    (s' : WaitState β L) : Prop where
  parked : s.waiters[slot.2]? = some slot.1
  waiters : s'.waiters = s.waiters.eraseIdx slot.2
  held : K.held s.backend = slot.1.leases + K.held s'.backend
  state : K.Shows s'.backend (K.consumeObjects consumed (K.state s.backend))

/-- The oldest of the ready waits that are eligible completes with its own selection. -/
def CompletesOldest (eligible : List ProviderWaitObject → Prop) (s : WaitState β L)
    (done : ProviderDispatcherWaitCompletion) (s' : WaitState β L) : Prop :=
  ∃ slot index consumed, ReadyWait K s slot.1 index consumed ∧ eligible consumed ∧
    done = completion slot.1 (statusWait0 + index) false ∧
    (∀ waiter i c, ReadyWait K s waiter i c → eligible c →
      slot.1.admissionSequence ≤ waiter.admissionSequence) ∧
    Removes K s slot consumed s'

/-- A wait that was asked for is satisfied at once: it consumes its selection. -/
def SatisfiedAtOnce (s : WaitState β L) (wait : ValidatedProviderWait) (status : ℤ)
    (s' : WaitState β L) : Prop :=
  ∃ index consumed,
    K.selection (K.state s.backend) wait.waitType wait.objects = some (index, consumed) ∧
    status = statusWait0 + index ∧ s'.waiters = s.waiters ∧
    K.held s'.backend = K.held s.backend ∧
    K.Shows s'.backend (K.consumeObjects consumed (K.state s.backend))

/-- The states of its objects do not satisfy the wait. -/
def NotReady (s : WaitState β L) (wait : ValidatedProviderWait) : Prop :=
  K.selection (K.state s.backend) wait.waitType wait.objects = none

/-- The record of an admitted wait. -/
def recordOf (wait : ValidatedProviderWait) (sequence : ℕ) (origin : TimeSnapshot)
    (leases : List L) : ProviderDispatcherWaitRecord L :=
  { waitId := wait.waitId, owner := wait.owner, admissionSequence := sequence
    waitType := wait.waitType, waitMode := wait.waitMode, alertable := wait.alertable
    objects := wait.objects, leases, deadline := deadlineOf wait origin }

/-- What becomes of the wait is for its objects' states and its deadline to say. -/
def AdmissionSpec (s : WaitState β L) (wait : ValidatedProviderWait)
    (sequence : ℕ) (origin now : TimeSnapshot) :
    ProviderDispatcherWaitAdmission → WaitState β L → Prop
  | .satisfied waitId status, s' => waitId = wait.waitId ∧ SatisfiedAtOnce K s wait status s'
  | .timedOut waitId, s' => waitId = wait.waitId ∧ NotReady K s wait ∧
      (wait.timeoutKind = .poll ∨ (deadlineOf wait origin).isDue now = true) ∧ Unchanged K s s'
  | .parked waitId, s' => waitId = wait.waitId ∧ NotReady K s wait ∧
      (deadlineOf wait origin).isDue now = false ∧ ∃ leases : List L,
        s'.waiters = s.waiters ++ [recordOf wait sequence origin leases] ∧
        K.held s'.backend = leases + K.held s.backend ∧ K.state s'.backend = K.state s.backend

/-- What a call answers and leaves behind. -/
def CallSpec (s : WaitState β L) :
    WaitCall C O P → WaitReply E C O P → WaitState β L → Prop
  -- A rejected admission gives everything back.
  | .admitOwned _ _ _ _ _ _ _ _, .admission (.error _), s' => Unchanged K s s'
  | .admitOwned request owner sequence origin now _ _ _, .admission (.ok (admission, _)), s' =>
    ∃ wait, request.validate = .ok wait ∧ wait.owner = owner ∧
      AdmissionSpec K s wait sequence origin now admission s'
  | .poll _ _, .polled (.error _), s' => Unchanged K s s'
  | .poll request owner, .polled (.ok status), s' =>
    ∃ wait, request.validate = .ok wait ∧ wait.owner = owner ∧
      (SatisfiedAtOnce K s wait status s' ∨
        (NotReady K s wait ∧ status = statusTimeout ∧ Unchanged K s s'))
  -- A rejected publication changes nothing at all.
  | .ready _, .popped (.error _), s' => s' = s
  | .ready _, .popped (.ok none), s' => s' = s ∧ ∀ waiter i c, ¬ ReadyWait K s waiter i c
  | .ready _, .popped (.ok (some (done, _))), s' => CompletesOldest K (fun _ => True) s done s'
  | .eventReady _ _ _, .popped (.error _), s' => s' = s
  | .eventReady _ _ _, .popped (.ok none), s' => s' = s
  | .eventReady object sequence _, .popped (.ok (some (done, _))), s' =>
    done.admissionSequence = sequence ∧ CompletesOldest K (fun c => object ∈ c) s done s'
  | .due _ _, .popped (.error _), s' => s' = s
  | .due now _, .popped (.ok none), s' =>
    s' = s ∧ ∀ waiter ∈ s.waiters, waiter.deadline.isDue now = false
  | .due now _, .popped (.ok (some (done, _))), s' =>
    ∃ slot, slot.1.deadline.isDue now = true ∧ done = completion slot.1 statusTimeout false ∧
      (∀ waiter ∈ s.waiters, waiter.deadline.isDue now = true →
        slot.1.deadline.orderingKey now ≤ waiter.deadline.orderingKey now) ∧
      Removes K s slot [] s'
  | .cancel waitId _, .removed none, s' => s' = s ∧ ∀ waiter ∈ s.waiters, waiter.waitId ≠ waitId
  | .cancel waitId status, .removed (some done), s' =>
    ∃ slot, slot.1.waitId = waitId ∧ done = completion slot.1 status true ∧
      Removes K s slot [] s'
  | .interrupt waitId owner kind, .removed none, s' =>
    s' = s ∧ ∀ waiter ∈ s.waiters, isInterruptible waitId owner kind waiter = false
  | .interrupt waitId owner kind, .removed (some done), s' =>
    ∃ slot, isInterruptible waitId owner kind slot.1 = true ∧
      done = completion slot.1 kind.status false ∧ Removes K s slot [] s'
  | _, _, _ => False

/-! ## Removing a wait -/

section Removing

variable {K} {s : WaitState β L} {slot : Slot L} {b : β}

theorem mem_held_of_mem (h : Parked K s) {waiter : ProviderDispatcherWaitRecord L}
    (hmem : waiter ∈ s.waiters) : ∀ l ∈ waiter.leases, l ∈ K.held s.backend := by
  intro l hl
  rw [h.held]
  exact mem_flatMap.mpr ⟨waiter, hmem, hl⟩

theorem Parked.keeps (h : Parked K s) (hkeeps : K.Keeps s.backend b) :
    Parked K { s with backend := b } := by
  refine ⟨hkeeps.held.trans h.held, fun waiter hmem => ?_, h.distinct⟩
  obtain ⟨hobjects, hnodup⟩ := h.leased waiter hmem
  refine ⟨?_, hnodup⟩
  rw [← hobjects]
  exact map_congr_left fun l hl => hkeeps.object l (mem_held_of_mem h hmem l hl)

/-- A parked wait is removed and its leases are released. -/
theorem Parked.remove (h : Parked K s) (hslot : s.waiters[slot.2]? = some slot.1) :
    Parked K (remove B slot s) ∧ Removes K s slot [] (remove B slot s) := by
  have hheld : K.held s.backend = slot.1.leases + leasesOf (s.waiters.eraseIdx slot.2) := by
    obtain ⟨hlt, heq⟩ := List.getElem?_eq_some_iff.mp hslot
    have hperm : (slot.1 :: s.waiters.eraseIdx slot.2).Perm s.waiters := by
      rw [← heq]
      exact getElem_cons_eraseIdx_perm hlt
    rw [h.held, leasesOf, leasesOf, Multiset.coe_add, Multiset.coe_eq_coe]
    exact (hperm.flatMap_right _).symm
  obtain ⟨hheld', hobject, hstate⟩ := releaseLeases_spec hheld
  refine ⟨⟨hheld', fun waiter hmem => ?_, h.distinct.sublist (eraseIdx_sublist _ _)⟩,
    hslot, rfl, ?_, ?_⟩
  · obtain ⟨hobjects, hnodup⟩ := h.leased waiter (mem_of_mem_eraseIdx hmem)
    refine ⟨?_, hnodup⟩
    rw [← hobjects]
    refine map_congr_left fun l hl => hobject l ?_
    exact mem_flatMap.mpr ⟨waiter, hmem, hl⟩
  · rw [hheld]
    exact congrArg _ hheld'.symm
  · intro object hpresent
    simp [Contract.consumeObjects, ProviderWait.remove, hstate object hpresent]

/-- A ready wait consumes its selection, is removed and its leases are released. -/
theorem Parked.completeReady (h : Parked K s) (hslot : s.waiters[slot.2]? = some slot.1) {index : ℕ}
    (hselect : readySelection B s.backend slot.1.waitType slot.1.leases = some index) :
    ∃ consumed, ReadyWait K s slot.1 index consumed ∧ Parked K (completeReady B slot index s) ∧
      Removes K s slot consumed (completeReady B slot index s) := by
  have hmem : slot.1 ∈ s.waiters := mem_of_getElem? hslot
  obtain ⟨hobjects, hnodup⟩ := h.leased slot.1 hmem
  obtain ⟨consumed, hselection, hkeeps, hstate⟩ :=
    consumeSelection_spec (mem_held_of_mem h hmem) hobjects hnodup hselect
  obtain ⟨hparked, hremoves⟩ := (h.keeps hkeeps).remove hslot
  refine ⟨consumed, ⟨hmem, hselection⟩, hparked, hslot, rfl, ?_, ?_⟩
  · rw [← hkeeps.held]
    exact hremoves.held
  · rw [← hstate]
    exact fun object hpresent =>
      (hremoves.state object hpresent).trans (by simp [Contract.consumeObjects])

end Removing

end UserspaceNtos.ProviderWait
