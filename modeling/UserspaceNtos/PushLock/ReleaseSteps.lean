import UserspaceNtos.PushLock.WordSteps

/-!
# Releases

A holder takes itself off the count that the word encodes.  Only the last holder unlocks the
word, and if there are waiters it leaves `waking` set, its own or that of a thread that was
already walking the queue.
-/

namespace UserspaceNtos.PushLock

open IntrusiveQueue Count List

/-!
## Publishing and detaching

A block enters the queue by the swap that makes it the head.  It leaves the queue when a waker
takes the whole queue by a swap to zero, or takes the oldest block by remembering the one before
it.
-/

section Blocks

variable {T : Type} [DecidableEq T] {s s' : State T} {t : T} {place : Local}

/-- A new block is put in front of the queue. -/
theorem Blocks.publish (h : Blocks s) {node : U64} (hnode : (s.thread t).node = some node)
    (henqueued : (s.thread t).enqueued = none) (hparked : (s.thread t).parked = false)
    (hsignals : (s.thread t).signals = false) (hwait : s.flags node &&& waiterWait ≠ 0)
    (hplace : place.enqueued = some node) (hplaceParked : place.parked = false) {word : U64}
    {published : List U64} :
    Blocks ({ s with word, queue := node :: s.queue, published }.goto t place) := by
  have hnot := h.not_listed hnode henqueued
  have hlisted : ∀ x, Listed { s with word, queue := node :: s.queue, published } x ↔
      x = node ∨ Listed s x := fun x => by simp only [Listed, mem_cons, or_assoc]
  have hplaceNode := node_of_enqueued hplace
  refine h.replace ⟨?_, h.pendingNodup, fun u x hx => ?_, h.distinct⟩ rfl
    (fun x hx => .inl (hnode.trans (hplaceNode.symm.trans hx))) (fun _ => h.quiet t hsignals)
    (fun _ _ => rfl) (fun x hx => ?_) (fun x hx => ?_) (fun x hx => ?_) (fun u hu x hx => ?_)
    (fun u hu x hx => ?_)
  · exact nodup_cons.mpr ⟨fun hmem => hnot (.inl hmem), h.nodup⟩
  · rw [mem_cons, not_or]
    exact ⟨fun heq => hnot (.inr ⟨u, heq ▸ hx⟩), h.apart u x hx⟩
  · rcases (hlisted x).mp hx with rfl | hx
    · exact .inl hplace
    · exact .inr ⟨hx, by rw [henqueued]; exact fun hnone => by cases hnone⟩
  · obtain rfl : node = x := Option.some.inj (hplaceNode.symm.trans hx)
    have hboth := h.event t node hnode
    rw [hparked] at hboth
    rw [hplaceParked, hboth]
    exact iff_of_false (fun hfalse => by cases hfalse.1) fun hfalse => by cases hfalse.1
  · obtain rfl : node = x := Option.some.inj (hplace.symm.trans hx)
    exact iff_of_true hwait ⟨(hlisted node).mpr (.inl rfl), hplaceParked⟩
  · have hne : x ≠ node := fun heq => hu (h.unique u t x hx (heq ▸ hnode))
    rw [hlisted, or_iff_right hne]
    exact h.event u x hx
  · have hne : x ≠ node := fun heq => hu (h.unique u t x (node_of_enqueued hx) (heq ▸ hnode))
    rw [hlisted, or_iff_right hne]
    exact h.wait u x hx

end Blocks

/-! ### Publication -/

section Publication

variable {T : Type} [DecidableEq T] [Fintype T] {s : State T} {t : T} {node old : U64}
  {plan : QueuePlan} {shared : Bool}

theorem owns_of_wakes {place : Local} (h : place.wakes = true) : place.owns = true := by
  cases place with
  | walk purpose | walkNext purpose | walkLink purpose =>
    cases purpose <;> first | rfl | cases h
  | wakePrevious | wakeFlags | wakeAct | detachTail | detachClear => rfl
  | _ => cases h

omit [DecidableEq T] in
/-- Without waiters nobody owns `waking`. -/
theorem Inv.not_owns (h : Inv s) (hwaiting : isWaiting s.word = false) (u : T) :
    (s.thread u).owns = false := by
  refine Bool.eq_false_iff.mpr fun howns => ?_
  have hwaking := h.isWaking_of_owns howns
  rw [(h.roles.valid.of_not_waiting hwaiting).1] at hwaking
  cases hwaking

omit [DecidableEq T] in
theorem Inv.queue_eq_nil (h : Inv s) (hwaiting : isWaiting s.word = false) : s.queue = [] := by
  have hheads := h.queued.heads
  cases hqueue : s.queue with
  | nil => rfl
  | cons node rest =>
    rw [hqueue] at hheads
    exact absurd hheads.1 (by simp [hwaiting])

theorem acquirePlan_queue (h : acquirePlan shared old node = .ok (.queue plan)) :
    isLocked old = true ∧ (isWaiting old = false → (!shared) = false → high old = 0#60) ∧
      QueueSpec old node (!shared) plan := by
  cases shared with
  | false =>
    obtain ⟨-, hlocked, hspec⟩ := acquireExclusive_queue h
    exact ⟨hlocked, fun _ hfalse => absurd hfalse (by decide), hspec⟩
  | true =>
    obtain ⟨-, hlocked, hhigh, hspec⟩ := acquireShared_queue h
    exact ⟨hlocked, fun hwaiting _ => hhigh hwaiting, hspec⟩

/-- Where a thread goes after it has published its block. -/
theorem publish_observe (shared : Bool) (node : U64) (hlocked : isLocked plan.new = true) :
    let place := if plan.needsOptimize then optimize (.park shared node) plan.new
      else Local.park shared node
    (∀ kind, place.holds kind = false) ∧ place.finishing = false ∧
      place.owns = plan.needsOptimize ∧ place.wakes = false ∧ place.enqueued = some node ∧
      place.parked = false := by
  have hne : ¬ plan.new &&& locked = 0 := by simp [hlocked]
  cases plan.needsOptimize with
  | false => simp
  | true =>
    simp only [optimize, if_neg hne]
    simp

/-- Thread `t` has put its block in front of the queue. -/
abbrev State.enqueue (s : State T) (t : T) (shared : Bool) (node : U64) (plan : QueuePlan) :
    State T :=
  { s with word := plan.new, queue := node :: s.queue, published := node :: s.published }.goto t
    (if plan.needsOptimize then optimize (.park shared node) plan.new else .park shared node)

section

variable (h : Inv s) (hat : s.thread t = .queueing shared node old plan) (hswap : s.word = old)
include h hat hswap

theorem Inv.publish_behind (hwaiting : isWaiting s.word = true) :
    Inv (s.enqueue t shared node plan) := by
  obtain ⟨hplan, hnext, hlast, hprevious, hshares, hflags⟩ := h.placeOk hat
  subst hswap
  obtain ⟨hlocked, -, hspec⟩ := acquirePlan_queue hplan
  obtain ⟨hparts, hplanNext, hplanLast, hneeds⟩ := hspec.behind hwaiting
  rw [hplanNext] at hnext
  rw [hplanLast] at hlast
  have hhead := h.queued.exists_head h.blocks hwaiting
  have hqueue : s.queue ≠ [] := by
    rintro hnil
    rw [hnil] at hhead
    cases hhead
  have hlocked' := hparts.locked.trans hlocked
  have hpointer : pointer plan.new = node := pointer_eq hspec.address hparts.high
  have hobserve := publish_observe shared node hlocked'
  unfold State.enqueue
  generalize hplace : (if plan.needsOptimize then optimize (.park shared node) plan.new
    else Local.park shared node) = place at hobserve ⊢
  obtain ⟨hholds, hfinishing, howns, hwakes, henqueued, hparked⟩ := hobserve
  refine ⟨⟨?_, ?_, ?_, fun u => ?_⟩, ⟨⟨hparts.waiting, hparts.high⟩, ?_, ?_⟩, ?_,
    places_goto (fun u hu => ?_) rfl ?_, ?_, ?_⟩
  · refine valid_of_locked hlocked' (fun _ => ?_) fun hfalse => ?_
    · exact hparts.high.symm ▸ (isAddress_iff.mp hspec.address).2
    · exact absurd (hparts.waiting.symm.trans hfalse) (by decide)
  · have hsame : ∀ kind, place.holds kind = (s.thread t).holds kind := fun kind => by
      rw [hholds]
      simp [hat]
    have hfinished : place.finishing = (s.thread t).finishing := by
      rw [hfinishing]
      simp [hat]
    -- with waiters the counts do not depend on the address in the word
    have hword : Encodes s.word = Encodes plan.new := by
      funext
      simp only [Encodes, hparts.locked, hwaiting, hparts.waiting, hparts.multiple, if_true]
    have hcounts := h.roles.encodes
    rw [hword, ← count_goto_of_eq (hsame false), ← count_goto_of_eq (hsame true),
      ← count_goto_of_eq hfinished] at hcounts
    have hsaved : State.saved { s with
        word := plan.new, queue := node :: s.queue, published := node :: s.published }
        = s.saved := by
      rw [State.saved, State.saved, ← singleton_append, List.getLast?_append_of_ne_nil _ hqueue]
    rw [← hsaved] at hcounts
    exact hcounts
  · have hcount := count_goto Local.owns s t place
    have howner := h.roles.owner
    change count Local.owns (s.goto t place).thread = (isWaking plan.new).toNat
    rw [hparts.waking]
    rw [hat, howns, hneeds, howner] at hcount
    cases hwaking : isWaking s.word <;> simpa [hwaking] using hcount
  · refine State.goto_cases rfl u (fun hself => ?_) fun v _ hv =>
      hparts.multiple.trans (h.roles.waker v hv)
    rw [hwakes] at hself
    cases hself
  · exact h.queued.linked.push hhead hnext hlast hprevious
  · intro hmultiple tail htail
    have htail : s.queue.getLast? = some tail := by
      have : (node :: s.queue).getLast? = some tail := htail
      rwa [← singleton_append, List.getLast?_append_of_ne_nil _ hqueue] at this
    obtain ⟨hself, hlasts⟩ := h.queued.many (hparts.multiple.symm.trans hmultiple) tail htail
    exact ⟨hself, forall_mem_cons.mpr ⟨.inl hlast, hlasts⟩⟩
  · exact h.blocks.publish (by simp [hat]) (by simp [hat]) (by simp [hat]) (by simp [hat])
      (hflags ▸ hspec.wait) henqueued hparked
  · by_cases howner : (s.thread u).owns = true
    · exact (h.places u).push howner rfl rfl hlast rfl
    · exact (h.places u).frame (Bool.eq_false_iff.mpr howner)
        (fun _ hmultiple => ⟨hparts.multiple.trans hmultiple, suffix_cons _ _⟩) .front
  · subst hplace
    cases plan.needsOptimize with
    | false => trivial
    | true =>
      have hne : ¬ plan.new &&& locked = 0 := by simp [hlocked']
      simp only [optimize, if_neg hne]
      exact ⟨hlocked', reached_head (by rw [hpointer]; rfl)⟩
  · exact fun hfree => absurd (hlocked'.symm.trans hfree) (by decide)
  · exact (h.ledger.cons node).trans perm_middle.symm

theorem Inv.publish_first (hwaiting : isWaiting s.word = false) :
    Inv (s.enqueue t shared node plan) := by
  obtain ⟨hplan, hnext, hlast, hprevious, hshares, hflags⟩ := h.placeOk hat
  subst hswap
  obtain ⟨hlocked, hfree, hspec⟩ := acquirePlan_queue hplan
  obtain ⟨hparts, hplanLast, hneeds, hsaved⟩ := hspec.first hwaiting
  rw [hplanLast] at hlast
  rw [hsaved] at hshares
  have hqueue := h.queue_eq_nil hwaiting
  have hroles : Roles (s.goto t (.park shared node)) :=
    h.roles.goto (by simp [hat]) (by simp [hat]) (by simp [hat]) (by simp)
  unfold State.enqueue
  rw [hneeds]
  refine ⟨⟨?_, ?_, ?_, fun u => ?_⟩, ⟨⟨hparts.waiting, hparts.high⟩, ?_, ?_⟩, ?_,
    places_goto (fun u hu => ?_) rfl trivial, ?_, ?_⟩
  · refine valid_of_locked hparts.locked (fun _ => ?_) fun hfalse => ?_
    · exact hparts.high.symm ▸ (isAddress_iff.mp hspec.address).2
    · exact absurd (hparts.waiting.symm.trans hfalse) (by decide)
  · refine hroles.encodes.publish hwaiting hlocked (hfree hwaiting) hparts ?_
    refine Eq.trans ?_ hshares
    simp [State.saved, hqueue, State.goto]
  · refine hroles.owner.trans (congrArg Bool.toNat ?_)
    exact (h.roles.valid.of_not_waiting hwaiting).1.trans hparts.waking.symm
  · refine State.goto_cases rfl u (fun hself => ?_) fun v _ hv => ?_
    · cases hself
    · exact absurd ((h.not_owns hwaiting v).symm.trans (owns_of_wakes hv)) (by decide)
  · change Linked 0 s.links (node :: s.queue)
    rw [hqueue]
    exact linked_singleton hlast hprevious
  · intro _ tail htail
    change tail ∈ (node :: s.queue).getLast? at htail
    change s.links.last tail = tail ∧ ∀ x ∈ node :: s.queue, _
    rw [hqueue] at htail ⊢
    cases htail
    exact ⟨hlast, fun x hx => .inr (mem_singleton.mp hx ▸ hlast)⟩
  · exact h.blocks.publish (by simp [hat]) (by simp [hat]) (by simp [hat]) (by simp [hat])
      (hflags ▸ hspec.wait) (by simp) (by simp)
  · exact (h.places u).frame (h.not_owns hwaiting u)
      (fun _ hmultiple => absurd ((h.roles.valid.of_not_waiting hwaiting).2.symm.trans hmultiple)
        (by decide)) .front
  · exact fun hunlocked => absurd (hparts.locked.symm.trans hunlocked) (by decide)
  · exact (h.ledger.cons node).trans perm_middle.symm

theorem Inv.publish : Inv (s.enqueue t shared node plan) := by
  cases hwaiting : isWaiting s.word with
  | true => exact h.publish_behind hat hswap hwaiting
  | false => exact h.publish_first hat hswap hwaiting

end

end Publication

/-! ### Detaching -/

section Detaching

variable {T : Type} [DecidableEq T] [Fintype T] {s : State T} {t : T}

omit [Fintype T] in
/-- A thread that begins to detach has no pending blocks, so what it takes off the queue stays
listed. -/
theorem Blocks.detach (h : Blocks s) (hpending : s.pending t = []) {s' : State T} {place : Local}
    {nodes : List U64} (hsplit : s.queue.Perm (s'.queue ++ nodes))
    (hpending' : s'.pending = Function.update s.pending t nodes) (hthread : s'.thread = s.thread)
    (hevent : s'.event = s.event) (hflags : s'.flags = s.flags)
    (hnode : place.node = (s.thread t).node) (henqueued : place.enqueued = (s.thread t).enqueued)
    (hparked : place.parked = (s.thread t).parked) (hsignals : place.signals = true) :
    Blocks (s'.goto t place) := by
  have hnodup := hsplit.nodup_iff.mp h.nodup
  obtain ⟨hrest, hnodes, hdisjoint⟩ := nodup_append.mp hnodup
  have hmem : ∀ x, x ∈ s.queue ↔ x ∈ s'.queue ∨ x ∈ nodes := fun x => by
    rw [hsplit.mem_iff, mem_append]
  have hself : s'.pending t = nodes := by rw [hpending', Function.update_self]
  have hother : ∀ u, u ≠ t → s'.pending u = s.pending u := fun u hu => by
    rw [hpending', Function.update_of_ne hu]
  -- a block moves from the queue to the pending blocks of `t`, and stays on one list
  have hlisted : ∀ x, Listed s' x ↔ Listed s x := by
    intro x
    unfold Listed
    rw [hmem]
    constructor
    · rintro (hx | ⟨u, hx⟩)
      · exact .inl (.inl hx)
      · by_cases hut : u = t
        · rw [hut, hself] at hx
          exact .inl (.inr hx)
        · rw [hother u hut] at hx
          exact .inr ⟨u, hx⟩
    · rintro ((hx | hx) | ⟨u, hx⟩)
      · exact .inl hx
      · exact .inr ⟨t, hself ▸ hx⟩
      · refine .inr ⟨u, ?_⟩
        have hut : u ≠ t := by
          rintro rfl
          rw [hpending] at hx
          cases hx
        rwa [hother u hut]
  refine h.keep ⟨hrest, fun u => ?_, fun u x hx => ?_, fun u v x hu hv => ?_⟩ hthread hnode
    henqueued hparked (fun hfalse => absurd (hsignals.symm.trans hfalse) (by decide)) hother
    (fun x => (hlisted x).mp) (fun u x hx => ?_) fun u x hx => ?_
  · by_cases hut : u = t
    · rw [hut, hself]
      exact hnodes
    · rw [hother u hut]
      exact h.pendingNodup u
  · by_cases hut : u = t
    · rw [hut, hself] at hx
      exact fun hin => hdisjoint x hin x hx rfl
    · rw [hother u hut] at hx
      exact fun hin => h.apart u x hx ((hmem x).mpr (.inl hin))
  · by_cases hut : u = t <;> by_cases hvt : v = t
    · rw [hut, hvt]
    · rw [hut, hself] at hu
      rw [hother v hvt] at hv
      exact absurd ((hmem x).mpr (.inr hu)) (h.apart v x hv)
    · rw [hother u hut] at hu
      rw [hvt, hself] at hv
      exact absurd ((hmem x).mpr (.inr hv)) (h.apart u x hu)
    · rw [hother u hut] at hu
      rw [hother v hvt] at hv
      exact h.distinct u v x hu hv
  · rw [hevent, hlisted]
    exact h.event u x hx
  · rw [hflags, hlisted]
    exact h.wait u x hx

/-- The whole queue is taken by a swap to zero. -/
theorem Inv.detachAll (h : Inv s) {after : After} {old tail previous new : U64}
    (hat : s.thread t = .wakeAct after old tail previous (.detachAll new)) (hswap : s.word = old) :
    Inv (({ s with
      word := new, queue := [], detached := s.queue ++ s.detached }.setPending t
        s.queue.reverse).goto t (.signal after tail)) := by
  obtain ⟨⟨hwalked, hprevious⟩, -, exclusive, hplan⟩ := h.placeOk hat
  have howns : (s.thread t).owns = true := by simp [hat]
  have hwaiting := isWaiting_of_isWaking h.roles.valid (h.isWaking_of_owns howns)
  have hmultiple := h.roles.waker t (by simp [hat])
  have hpending := h.blocks.quiet t (by simp [hat])
  subst hswap
  obtain ⟨hlocked, rfl⟩ := wakeAction_eq_ok hplan
  -- the swap succeeded, so the walk had started at the head of the queue
  have hchain := hwalked.prevLinked (h.queued.exists_head h.blocks hwaiting) h.blocks.nodup
  obtain ⟨rest, hreverse⟩ := hwalked.exists_reverse
  have hcounts := h.roles.encodes
  simp only [Encodes, hwaiting, hlocked, if_true, Bool.false_eq_true, if_false] at hcounts
  obtain ⟨hexclusive, hshared, hfinishing⟩ := hcounts
  have hholds : ∀ kind, (Local.signal after tail).holds kind = (s.thread t).holds kind :=
    fun kind => by simp [hat]
  have hfinish : (Local.signal after tail).finishing = (s.thread t).finishing := by simp [hat]
  refine ⟨⟨by simp [Valid, State.goto, State.setPending], ?_, ?_, fun _ _ => parts_zero.2.2.2.1⟩,
    ⟨parts_zero.2.1, linked_nil, fun hmany => absurd (parts_zero.2.2.2.1.symm.trans hmany)
      (by decide)⟩, ?_, places_goto (fun u hu => ?_) rfl ⟨rest, ?_, ?_⟩,
    fun _ hwait => absurd (parts_zero.2.1.symm.trans hwait) (by decide), ?_⟩
  · rw [← count_goto_of_eq (hholds false)] at hexclusive
    rw [← count_goto_of_eq (hholds true)] at hshared
    rw [← count_goto_of_eq hfinish] at hfinishing
    change Encodes 0 _ (count (Local.holds false) (s.goto t (.signal after tail)).thread)
      (count (Local.holds true) (s.goto t (.signal after tail)).thread)
      (count Local.finishing (s.goto t (.signal after tail)).thread)
    rw [hexclusive, hshared, hfinishing]
    exact encodes_zero
  · have hcount := count_goto Local.owns s t (.signal after tail)
    rw [h.roles.owner, h.isWaking_of_owns howns, hat] at hcount
    change count Local.owns (s.goto t (.signal after tail)).thread = _
    simpa [State.goto, State.setPending] using hcount
  · exact h.blocks.detach hpending s.queue.reverse_perm.symm rfl rfl rfl rfl (by simp [hat])
      (by simp [hat]) (by simp [hat]) rfl
  · have hother : (s.thread u).owns = false :=
      Bool.eq_false_iff.mpr fun huowns => hu (h.eq_of_owns huowns howns)
    exact (h.places u).frame hother (fun _ hmany => absurd hmany (by simp [hmultiple]))
      ⟨by simp [State.setPending, hu], fun _ _ => rfl, fun _ _ hclear => hclear,
        fun _ _ _ => ⟨rfl, rfl, rfl, rfl, rfl⟩⟩
  · simpa [State.setPending] using hreverse
  · rw [← hreverse]
    refine hchain.backChain fun x hx => ?_
    rw [h.queued.exists_head h.blocks hwaiting] at hx
    cases hx
    exact hprevious
  · change s.published.Perm ((s.queue ++ s.detached) ++ [])
    rw [append_nil]
    exact h.ledger.trans perm_append_comm

theorem Heads.of_head {w : U64} {q rest : List U64} (h : Heads w q) (hne : rest ≠ [])
    (hhead : rest.head? = q.head?) : Heads w rest := by
  cases rest with
  | nil => exact absurd rfl hne
  | cons a rest =>
    cases q with
    | nil => cases hhead
    | cons b q =>
      cases hhead
      exact h

/-- The oldest block is taken; the head of the walk remembers the one before it. -/
theorem Inv.detachOldest (h : Inv s) {after : After} {old tail previous new : U64}
    (hat : s.thread t = .wakeAct after old tail previous (.detachOldest new)) : Inv ((({ s with
      queue := s.queue.dropLast, detached := tail :: s.detached }.setLast (pointer old)
        previous).setPending t [tail]).goto t (.detachTail after tail)) := by
  obtain ⟨⟨hwalked, hfirst⟩, htail, exclusive, hplan⟩ := h.placeOk hat
  have howns : (s.thread t).owns = true := by simp [hat]
  have hwaking := h.isWaking_of_owns howns
  have hmultiple := h.roles.waker t (by simp [hat])
  have hpending := h.blocks.quiet t (by simp [hat])
  have hprevious : previous ≠ 0 := of_decide_eq_true (wakeAction_eq_ok hplan).2
  subst htail
  obtain ⟨rest, hsplit, hne, hhead, hlinked⟩ :=
    hwalked.detach h.queued.linked h.blocks.nodup hfirst hprevious
  have hdrop : s.queue.dropLast = rest := by
    rw [hsplit]
    exact dropLast_concat
  rw [hdrop]
  have hroles : Roles (s.goto t (.detachTail after tail)) :=
    h.roles.goto (by simp [hat]) (by simp [hat]) (by simp [hat]) fun _ => hmultiple
  refine ⟨⟨hroles.valid, hroles.encodes.of_saved hmultiple, hroles.owner, hroles.waker⟩,
    ⟨h.queued.heads.of_head hne hhead, hlinked, fun hmany => absurd (hmultiple.symm.trans hmany)
      (by decide)⟩, ?_, places_goto (fun u hu => ?_) rfl ?_,
    fun _ _ hfree => absurd (hwaking.symm.trans hfree) (by decide), ?_⟩
  · exact h.blocks.detach hpending (by rw [hsplit]; rfl) rfl rfl rfl rfl (by simp [hat])
      (by simp [hat]) (by simp [hat]) rfl
  · have hother : (s.thread u).owns = false :=
      Bool.eq_false_iff.mpr fun huowns => hu (h.eq_of_owns huowns howns)
    refine (h.places u).frame hother
      (fun _ hmany => absurd hmany (by simp [hmultiple]))
      ⟨by simp [State.setPending, State.setLast, hu], fun _ _ => rfl,
        fun _ _ hclear => hclear, fun x hnode henqueued => ⟨rfl, ?_, rfl, rfl, rfl⟩⟩
    have hne : x ≠ pointer old := fun heq =>
      h.blocks.not_listed hnode henqueued (heq ▸ .inl hwalked.head_mem)
    simp [State.setPending, State.setLast, hne]
  · simp [PlaceOk, State.setPending]
  · change s.published.Perm ((tail :: s.detached) ++ rest)
    refine h.ledger.trans ?_
    rw [hsplit, ← append_assoc]
    exact perm_append_singleton _ _

end Detaching

/-! ## Plans -/

section Plans

variable {shared generic : Bool} {old : U64} {remaining : Option ℤ} {plan : ReleasePlan}

theorem releasePlan_waiting (hwaiting : isWaiting old = true)
    (h : releasePlan shared generic old remaining = .ok (some plan)) :
    plan = releaseWaiting old := by
  unfold releasePlan at h
  by_cases hkind : (shared || generic) = true
  · rw [if_pos (by simp [hkind, hwaiting])] at h
    obtain ⟨-, -, hsome⟩ := releaseSharedWaiting_eq_ok h
    exact (Option.some.inj (Option.ite_none_left_eq_some.mp hsome.symm).2).symm
  · simp only [Bool.or_eq_true, not_or, Bool.not_eq_true] at hkind
    obtain ⟨rfl, rfl⟩ := hkind
    cases hplan : releaseExclusive old with
    | error error => simp [hplan, Except.map] at h
    | ok plan' =>
      simp only [Bool.or_self, Bool.false_and, Bool.false_eq_true, if_false, hplan, Except.map,
        Except.ok.injEq, Option.some.injEq] at h
      obtain ⟨-, -, -, heq⟩ := releaseExclusive_eq_ok hplan
      rw [← h, heq, if_pos hwaiting]

/-- Without waiters the last holder leaves a zero word and another sharer takes one off the
count. -/
theorem releasePlan_free (hvalid : Valid old) (hwaiting : isWaiting old = false)
    (h : releasePlan shared generic old remaining = .ok (some plan)) :
    isLocked old = true ∧ plan.wake = false ∧ (plan.new = 0 ∧ (high old = 0#60 ∨ high old = 1#60) ∨
        high old ≠ 0#60 ∧ Parts plan.new true false false false (high old - 1) ∧
          high plan.new ≠ 0#60 ∧ (high plan.new).toNat + 1 = (high old).toNat) := by
  unfold releasePlan at h
  rw [if_neg (by simp [hwaiting])] at h
  split at h
  · cases hplan : releaseSharedNoWaiters old with
    | error error => simp [hplan, Except.map] at h
    | ok plan' =>
      rw [hplan] at h
      cases h
      obtain ⟨-, hhigh, hwake, hnew⟩ := releaseSharedNoWaiters_eq_ok hplan
      have hlocked : isLocked old = true := by
        by_contra hfree
        rw [hvalid.eq_zero hwaiting (Bool.eq_false_iff.mpr hfree)] at hhigh
        exact hhigh parts_zero.2.2.2.2
      refine ⟨hlocked, hwake, ?_⟩
      split at hnew
      case isTrue hone => exact .inl ⟨hnew, .inr hone⟩
      case isFalse hmany =>
        refine .inr ⟨hhigh, hnew.1, fun hzero => hmany ?_, hnew.2⟩
        have hcount := hnew.2
        rw [hzero] at hcount
        exact BitVec.eq_of_toNat_eq hcount.symm
  · cases hplan : releaseExclusive old with
    | error error => simp [hplan, Except.map] at h
    | ok plan' =>
      rw [hplan] at h
      cases h
      obtain ⟨hlocked, -, hhigh, heq⟩ := releaseExclusive_eq_ok hplan
      rw [if_neg (by simp [hwaiting])] at heq
      subst heq
      exact ⟨hlocked, rfl, .inl ⟨rfl, .inl (hhigh hwaiting)⟩⟩

end Plans

section Counts

variable {w : U64} {saved : ℤ} {exclusive shared finishing : ℕ}

theorem Encodes.single (h : Encodes w saved exclusive shared finishing)
    (hwaiting : isWaiting w = true) (hmultiple : isMultiple w = false) :
    exclusive + shared ≤ 1 ∧ finishing = 0 := by
  simp only [Encodes, hwaiting, hmultiple, if_true, Bool.false_eq_true, if_false] at h
  split at h <;> omega

theorem Encodes.free (h : Encodes w saved exclusive shared finishing)
    (hwaiting : isWaiting w = false) (hlocked : isLocked w = true) :
    finishing = 0 ∧ (high w = 0#60 → exclusive = 1 ∧ shared = 0) ∧
      (high w ≠ 0#60 → exclusive = 0 ∧ shared = (high w).toNat) := by
  simp only [Encodes, hwaiting, hlocked] at h
  obtain ⟨hfinishing, h⟩ := h
  refine ⟨hfinishing, fun hzero => ?_, fun hne => ?_⟩
  · rwa [if_pos hzero] at h
  · rwa [if_neg hne] at h

end Counts

section Releases

variable {T : Type} [DecidableEq T] [Fintype T] {s : State T} {t : T} {generic shared : Bool}
  {old : U64} {remaining : Option ℤ} {plan : ReleasePlan}

/-- A sharer takes its share off the count in the oldest block. -/
theorem Inv.releaseShare (h : Inv s) {tail : U64}
    (hat : s.thread t = .releaseShare shared generic old tail) :
    Inv ((s.setShares tail (s.shares tail - 1)).goto t
      (.releasing shared generic old (some (s.shares tail - 1)))) := by
  obtain ⟨rfl, hwaiting, hmultiple, hword, htail⟩ := h.placeOk hat
  have hsaved : s.saved = s.shares tail := by simp [State.saved, htail]
  have hsaved' : State.saved (s.setShares tail (s.shares tail - 1)) = s.shares tail - 1 := by
    simp [State.saved, State.setShares, htail]
  have hlisted : Listed s tail := .inl (List.mem_of_getLast? htail)
  have hlocked : isLocked s.word = true := by
    by_contra hfree
    rw [isMultiple_of_unlocked h.roles.valid (Bool.eq_false_iff.mpr hfree)] at hword
    cases hword
  have hexclusive := count_goto_of_eq (s := s) (t := t)
    (show (Local.releasing true generic old (some (s.shares tail - 1))).holds false = _ by
      simp [hat])
  have hshared := count_goto (Local.holds true) s t
    (.releasing true generic old (some (s.shares tail - 1)))
  have hfinishing := count_goto Local.finishing s t
    (.releasing true generic old (some (s.shares tail - 1)))
  simp only [hat, Local.holds, Local.finishing, Option.isNone_some, Bool.false_and,
    Bool.toNat_false, Nat.add_zero] at hshared hfinishing
  -- one sharer less, and the thread finishes the release if the count is zero now
  have hencodes := h.roles.encodes
  rw [← hexclusive, ← hshared, hsaved] at hencodes
  obtain ⟨hpos, hnone, hencodes⟩ := hencodes.decrement hword h.roles.valid
  refine ⟨⟨h.roles.valid, ?_, ?_, fun u => ?_⟩, ⟨h.queued.heads, h.queued.linked, h.queued.many⟩,
    h.blocks.congr.goto (by simp [hat]) (by simp [hat]) (by simp [hat])
      fun _ => h.blocks.quiet t (by simp [hat]),
    places_goto (fun u hu => ?_) rfl ⟨rfl, by omega, hwaiting, hmultiple⟩,
    fun hfree => absurd (hlocked.symm.trans hfree) (by decide), h.ledger⟩
  · have hlast : count Local.finishing
        (s.goto t (.releasing true generic old (some (s.shares tail - 1)))).thread =
          if s.shares tail - 1 = 0 then 1 else 0 := by
      rw [hfinishing]
      split <;> simp [*]
    rw [← hlast] at hencodes
    exact hsaved'.symm ▸ hencodes
  · exact (count_goto_of_eq (s := s)
      (show (Local.releasing true generic old (some (s.shares tail - 1))).owns = _ by
        simp [hat])).trans h.roles.owner
  · refine State.goto_cases rfl u (fun hself => ?_) fun v _ => h.roles.waker v
    cases hself
  · refine (h.places u).congr rfl rfl (fun _ _ => rfl) (fun _ _ => rfl) ⟨rfl, fun _ _ => rfl,
      fun _ _ hclear => hclear, fun x hnode henqueued => ⟨rfl, rfl, rfl, ?_, rfl⟩⟩
    have hne : x ≠ tail := fun heq => h.blocks.not_listed hnode henqueued (heq ▸ hlisted)
    simp [State.setShares, hne]

/-- The last holder unlocks a word with waiters. -/
theorem Inv.unlock (h : Inv s) (hat : s.thread t = .releasing shared generic old remaining)
    (hwaiting : isWaiting s.word = true) {place : Local}
    (hplace : place = if (releaseWaiting s.word).wake then wake .idle (releaseWaiting s.word).new
      else .idle)
    (hexclusive : count (Local.holds false) (s.goto t place).thread = 0)
    (hshared : count (Local.holds true) (s.goto t place).thread = 0)
    (hfinishing : count Local.finishing (s.goto t place).thread = 0) :
    Inv ({ s with word := (releaseWaiting s.word).new }.goto t place) := by
  obtain ⟨hparts, hwake⟩ := releaseWaiting_spec s.word
  rw [hwake] at hplace
  have howns : place.owns = !isWaking s.word := by
    rw [hplace]
    cases isWaking s.word <;> simp [wake]
  have hnode : place.node = none ∧ place.enqueued = none ∧ place.parked = false := by
    rw [hplace]
    cases isWaking s.word <;> simp [wake]
  refine h.swap ?_ ?_ ?_ (fun _ => hparts.multiple)
    (fun hmany => absurd hmany (by simp [hparts.multiple]))
    (h.queued.heads.waking hparts)
    (h.blocks.goto (hnode.1.trans (by simp [hat])) (hnode.2.1.trans (by simp [hat]))
      (hnode.2.2.trans (by simp [hat])) fun _ => h.blocks.quiet t (by simp [hat]))
    (fun u hu => ?_) ?_
    (fun _ _ hfree => absurd hfree (by simp [hparts.waking]))
  · rw [Valid, hparts.waiting, if_pos hwaiting, hparts.high]
    exact ⟨h.roles.valid.high_ne_zero hwaiting,
      fun hmany => absurd hmany (by simp [hparts.multiple])⟩
  · rw [hexclusive, hshared, hfinishing]
    simp [Encodes, hparts.locked, hparts.waiting, hwaiting]
  · rw [howns, hparts.waking, hat]
    cases isWaking s.word <;> rfl
  · by_cases howner : (s.thread u).owns = true
    · exact (h.places u).word howner _
    · refine (h.places u).frame (Bool.eq_false_iff.mpr howner) (fun hholds _ => ?_) .front
      -- no sharer is left
      have hsame : (s.goto t place).thread u = s.thread u := State.goto_of_ne _ _ _ hu
      have hone := one_le_count (hsame ▸ hholds)
      omega
  · rw [hplace]
    split
    · exact h.wake_swap_placeOk hwaiting .idle hparts.high
    · trivial

/-- A holder leaves a word without waiters. -/
theorem Inv.leave (h : Inv s) {new : U64}
    (hat : s.thread t = .releasing shared generic old remaining)
    (hwaiting : isWaiting s.word = false) (hvalid : Valid new) (hwaiting' : isWaiting new = false)
    (hencodes : Encodes new s.saved (count (Local.holds false) (s.goto t .idle).thread)
      (count (Local.holds true) (s.goto t .idle).thread)
      (count Local.finishing (s.goto t .idle).thread)) :
    Inv ({ s with word := new }.goto t .idle) := by
  obtain ⟨hwaking, hmultiple⟩ := h.roles.valid.of_not_waiting hwaiting
  obtain ⟨hwaking', hmultiple'⟩ := hvalid.of_not_waiting hwaiting'
  refine h.swap hvalid hencodes (by simp [hwaking, hwaking', hat]) (fun _ => hmultiple')
    (fun hmany => absurd hmany (by simp [hmultiple']))
    (h.queued.heads.congr (hwaiting'.trans hwaiting.symm) fun hbusy =>
      absurd hbusy (by simp [hwaiting]))
    (h.blocks.goto (by simp [hat]) (by simp [hat]) (by simp [hat])
      fun _ => h.blocks.quiet t (by simp [hat])) (fun u _ => ?_) trivial
    fun _ hbusy => absurd hbusy (by simp [hwaiting'])
  exact (h.places u).congr rfl (hmultiple'.trans hmultiple.symm) (fun _ _ => rfl) (fun _ _ => rfl)
    .front

section

variable (h : Inv s) (hat : s.thread t = .releasing shared generic old remaining)
  (hplan : releasePlan shared generic old remaining = .ok (some plan)) (hswap : s.word = old)
include h hat hplan hswap

theorem Inv.released_waiting (hcount : needsCount shared generic old remaining = false)
    (hwaiting : isWaiting s.word = true) : Inv ({ s with word := plan.new }.goto t
      (if plan.wake then wake .idle plan.new else .idle)) := by
  have hok := h.placeOk hat
  subst hswap
  obtain rfl := releasePlan_waiting hwaiting hplan
  generalize hplace : (if (releaseWaiting s.word).wake = true then
    wake .idle (releaseWaiting s.word).new else .idle) = place
  have hobserve : (∀ kind, place.holds kind = false) ∧ place.finishing = false := by
    rw [← hplace]
    split <;> simp [wake]
  have hexclusive := count_goto (Local.holds false) s t place
  have hshared := count_goto (Local.holds true) s t place
  have hfinishing := count_goto Local.finishing s t place
  rw [hobserve.1, hat] at hexclusive hshared
  rw [hobserve.2, hat] at hfinishing
  cases remaining with
  | some count =>
    obtain ⟨hkind, hnonneg, -, hmultiple⟩ := hok
    obtain ⟨hle, -⟩ := releasePlan_some hkind hwaiting hmultiple hplan
    obtain rfl : count = 0 := le_antisymm hle hnonneg
    have hlast : (s.thread t).finishing = true := by simp [hat]
    obtain ⟨-, -, -, hX, hS, hF, -⟩ := h.roles.encodes.of_finishing (one_le_count hlast)
    simp at hexclusive hshared hfinishing
    exact h.unlock hat hwaiting hplace.symm (by omega) (by omega) (by omega)
  | none =>
    have hmultiple : isMultiple s.word = false := by
      refine Bool.eq_false_iff.mpr fun hmany => ?_
      have hkind : shared = true := by
        by_contra hexclusive
        rw [hok.1 (Bool.eq_false_iff.mpr hexclusive)] at hmany
        cases hmany
      simp [needsCount, hkind, hwaiting, hmany] at hcount
    obtain ⟨hone, hnone⟩ := h.roles.encodes.single hwaiting hmultiple
    refine h.unlock hat hwaiting hplace.symm ?_ ?_ ?_
    all_goals cases shared <;> simp at hexclusive hshared hfinishing <;> omega

theorem Inv.released_free (hwaiting : isWaiting s.word = false) :
    Inv ({ s with word := plan.new }.goto t
      (if plan.wake then wake .idle plan.new else .idle)) := by
  have hok := h.placeOk hat
  subst hswap
  obtain ⟨hlocked, hwake, hnew⟩ := releasePlan_free h.roles.valid hwaiting hplan
  obtain ⟨hnone, hzero, hsharers⟩ := h.roles.encodes.free hwaiting hlocked
  rw [hwake]
  obtain rfl : remaining = none := by
    cases remaining with
    | none => rfl
    | some count => exact absurd hok.2.2.1 (by simp [hwaiting])
  have hexclusive := count_goto (Local.holds false) s t .idle
  have hshared := count_goto (Local.holds true) s t .idle
  have hfinishing := count_goto_of_eq (s := s) (t := t)
    (show Local.idle.finishing = _ by simp [hat])
  simp only [hat] at hexclusive hshared
  rcases hnew with ⟨hnew, hhigh⟩ | ⟨hhigh, hparts, hne, hless⟩
  · rw [hnew]
    refine h.leave hat hwaiting (by simp [Valid]) parts_zero.2.1 ?_
    have hone : count (Local.holds false) s.thread + count (Local.holds true) s.thread = 1 := by
      rcases hhigh with hhigh | hhigh
      · obtain ⟨hX, hS⟩ := hzero hhigh
        omega
      · obtain ⟨hX, hS⟩ := hsharers (by rw [hhigh]; decide)
        rw [hX, hS, hhigh]
        rfl
    have hX : count (Local.holds false) (s.goto t .idle).thread = 0 := by
      cases shared <;> simp at hexclusive hshared <;> omega
    have hS : count (Local.holds true) (s.goto t .idle).thread = 0 := by
      cases shared <;> simp at hexclusive hshared <;> omega
    rw [hX, hS, hfinishing, hnone]
    exact encodes_zero
  · obtain ⟨hX, hS⟩ := hsharers hhigh
    refine h.leave hat hwaiting (valid_of_locked hparts.locked ?_ fun _ =>
      ⟨hparts.waking, hparts.multiple⟩) hparts.waiting ?_
    · exact fun hbusy => absurd hbusy (by simp [hparts.waiting])
    · simp only [Encodes, hparts.waiting, hparts.locked, Bool.false_eq_true, if_false, if_true,
        if_neg hne]
      cases shared <;> simp at hexclusive hshared <;> omega

/-- The swap of a release. -/
theorem Inv.released (hcount : needsCount shared generic old remaining = false) :
    Inv ({ s with word := plan.new }.goto t
      (if plan.wake then wake .idle plan.new else .idle)) := by
  cases hwaiting : isWaiting s.word with
  | true => exact h.released_waiting hat hplan hswap hcount hwaiting
  | false => exact h.released_free hat hplan hswap hwaiting

end

end Releases

end UserspaceNtos.PushLock
