import UserspaceNtos.PushLock.Preservation

/-!
# Accesses to wait blocks

The walkers set pointers, the owners of blocks and their wakers agree by the wait flag and the
event, and sharers count down the saved shares.  The word stays as it is.
-/

namespace UserspaceNtos.PushLock

open IntrusiveQueue List Function

variable {T : Type} [DecidableEq T] [Fintype T] {s s' : State T} {t : T} {place : Local}
  {old node previous : U64} {after : After} {shared : Bool} {rest : List U64}

section Changes

variable {links : Links U64} {shares : U64 → ℤ} {flags : U64 → BitVec 32} {event : U64 → Bool}
  {pending : T → List U64}

/-- A change of blocks by a thread that keeps its part in the counts. -/
theorem Inv.change (h : Inv s)
    (hsaved : { s with links, shares, flags, event, pending }.saved = s.saved)
    (hqueued : Queued { s with links, shares, flags, event, pending })
    (hroles : Roles (s.goto t place)) (hretries : Retries s t →
      Retries ({ s with links, shares, flags, event, pending }.goto t place) t)
    (hblocks : Blocks ({ s with links, shares, flags, event, pending }.goto t place))
    (hothers : ∀ u, u ≠ t → PlaceOk { s with links, shares, flags, event, pending } u (s.thread u))
    (hplace : PlaceOk { s with links, shares, flags, event, pending } t place) :
    Inv ({ s with links, shares, flags, event, pending }.goto t place) := by
  refine ⟨hroles.congr rfl rfl hsaved,
    ⟨hqueued.heads, hqueued.linked, hqueued.many⟩, hblocks, places_goto hothers rfl hplace,
    fun hlocked hwaiting hwaking => ?_, h.ledger⟩
  -- an unlocked word stays with a thread that comes back
  obtain ⟨u, hu⟩ := h.retried hlocked hwaiting hwaking
  refine ⟨u, ?_⟩
  by_cases hut : u = t
  · exact hut ▸ hretries (hut ▸ hu)
  · have hsame := State.goto_of_ne { s with links, shares, flags, event, pending } t place hut
    exact hu.congr (fun h => by rwa [hsame]) (.inl (by rw [hsame])) fun _ hmem => hmem

/-- A write into a block by a thread that keeps its role. -/
theorem Inv.write (h : Inv s) (hsaved : { s with links, shares, flags, event }.saved = s.saved)
    (hqueued : Queued { s with links, shares, flags, event })
    (hblocks : Blocks { s with links, shares, flags, event })
    (hothers : ∀ u, u ≠ t → PlaceOk { s with links, shares, flags, event } u (s.thread u))
    (hsilent : Silent s t place) (hplace : PlaceOk { s with links, shares, flags, event } t place) :
    Inv ({ s with links, shares, flags, event }.goto t place) := by
  refine h.change hsaved hqueued
    (h.roles.goto hsilent.holds hsilent.finishing hsilent.owns hsilent.wakes) (fun hretries => ?_)
    (hblocks.goto hsilent.node hsilent.enqueued hsilent.parked
      fun hsignals => h.blocks.quiet t (hsilent.signals.symm.trans hsignals)) hothers hplace
  refine hretries.congr (fun hacquires => ?_) (.inl ?_) fun _ hmem => hmem
  · rw [State.goto_self]
    exact hsilent.acquires hacquires
  · rw [State.goto_self]
    exact hsilent.enqueued

/-! ## Pointers -/

theorem Inv.walkLink (h : Inv s) {purpose : Purpose} {cur next : U64}
    (hat : s.thread t = .walkLink purpose old cur next) :
    Inv ((s.setPrevious next cur).goto t (.walk purpose old next)) := by
  have hok := h.placeOk hat
  have hnodup := h.blocks.nodup
  have hadjacent : Adjacent s.queue cur next := by
    cases purpose with
    | wake | optimize => exact hok.2.1.elim fun _ hat => hat.adjacent
    | release shared generic => exact hok.2
  have hlisted : Listed s next := .inl hadjacent.mem_right
  refine h.write rfl ⟨h.queued.heads, h.queued.linked.link hnodup hadjacent, h.queued.many⟩
    h.blocks.congr (fun u hu => ?_) ?_ ?_
  · by_cases howns : (s.thread u).owns = true
    · -- the owner only optimizes while others share the lock
      have hrelease : purpose.owns = false := by
        by_contra howner
        exact hu (h.eq_of_owns howns (by simpa [hat] using howner))
      have hmultiple : isMultiple s.word = true := by
        cases purpose with
        | wake after => cases hrelease
        | optimize after => cases hrelease
        | release shared generic => exact hok.1.2.2.2
      refine (h.places u).link howns ?_ hnodup hadjacent
      refine Bool.eq_false_iff.mpr fun hwakes => ?_
      rw [h.roles.waker u hwakes] at hmultiple
      cases hmultiple
    · refine (h.places u).frame (Bool.eq_false_iff.mpr howns)
        (fun _ hmultiple => ⟨hmultiple, suffix_refl _⟩) ⟨rfl, fun x hx => ?_,
          fun _ _ hflags => hflags, fun x hnode henqueued => ⟨rfl, rfl, ?_, rfl, rfl⟩⟩
      · have hne : x ≠ next := fun heq => h.blocks.apart u x hx (heq ▸ hadjacent.mem_right)
        simp [hne]
      · have hne : x ≠ next := fun heq =>
          h.blocks.not_listed hnode henqueued (heq ▸ hlisted)
        simp [hne]
  · have hwakes := h.roles.waker t
    constructor <;> simp_all
  · cases purpose with
    | wake after =>
      obtain ⟨hhead, ⟨post, hreached⟩, hlast⟩ := hok
      refine ⟨?_, post, hreached.step hnodup hlast⟩
      have hne : pointer old ≠ next := hreached.head_ne_next hnodup
      simpa [Purpose.Ok, hne] using hhead
    | optimize after =>
      obtain ⟨hlocked, ⟨post, hreached⟩, hlast⟩ := hok
      exact ⟨hlocked, post, hreached.step hnodup hlast⟩
    | release shared generic => exact ⟨hok.1, hadjacent.mem_right⟩

theorem Inv.optimizeStore (h : Inv s) {tail : U64}
    (hat : s.thread t = .optimizeStore after old tail) :
    Inv ((s.setLast (pointer old) tail).goto t (.optimizeSwap after old)) := by
  obtain ⟨hwalked, hlocked⟩ := h.placeOk hat
  have hlisted : Listed s (pointer old) := .inl hwalked.head_mem
  refine h.write rfl ⟨h.queued.heads, hwalked.remember h.queued.linked h.blocks.nodup,
    fun hmultiple last hlast => ?_⟩ h.blocks.congr (fun u hu => ?_)
    (by constructor <;> simp [hat]) hlocked
  · obtain rfl : tail = last := Option.some.inj (hwalked.tail_eq.symm.trans hlast)
    obtain ⟨hself, hlasts⟩ := h.queued.many hmultiple tail hlast
    refine ⟨?_, fun node hnode => ?_⟩
    · by_cases heq : tail = pointer old
      · simp [heq]
      · simpa [heq] using hself
    · by_cases heq : node = pointer old
      · simp [heq]
      · simpa [heq] using hlasts node hnode
  · have howns : (s.thread u).owns = false :=
      Bool.eq_false_iff.mpr fun howns => hu (h.eq_of_owns howns (by simp [hat]))
    refine (h.places u).frame howns (fun _ hmultiple => ⟨hmultiple, suffix_refl _⟩)
      ⟨rfl, fun _ _ => rfl, fun _ _ hflags => hflags, fun x hnode henqueued =>
        ⟨rfl, ?_, rfl, rfl, rfl⟩⟩
    have hne : x ≠ pointer old := fun heq => h.blocks.not_listed hnode henqueued (heq ▸ hlisted)
    simp [hne]

theorem Inv.detachTail (h : Inv s) {tail : U64} (hat : s.thread t = .detachTail after tail) :
    Inv ((s.setPrevious tail 0).goto t (.detachClear after tail)) := by
  have hok := h.placeOk hat
  have hmem : tail ∈ s.pending t := by
    rw [show s.pending t = [tail] from hok]
    exact mem_singleton_self tail
  have hqueue : ∀ x ∈ s.queue, (s.setPrevious tail 0).links.previous x = s.links.previous x := by
    intro x hx
    have hne : x ≠ tail := fun heq => h.blocks.apart t tail hmem (heq ▸ hx)
    simp [State.setPrevious, hne]
  refine h.write rfl ⟨h.queued.heads, h.queued.linked.congr (fun _ _ => rfl) (fun _ _ => rfl)
    hqueue, h.queued.many⟩ h.blocks.congr (fun u hu => ?_) ?_ ⟨hok, by simp⟩
  · refine (h.places u).congr rfl rfl (fun _ _ => rfl) hqueue ⟨rfl, fun x hx => ?_,
      fun _ _ hflags => hflags, fun x hnode henqueued => ⟨rfl, rfl, ?_, rfl, rfl⟩⟩
    · have hne : x ≠ tail := fun heq => hu (h.blocks.distinct u t tail (heq ▸ hx) hmem)
      simp [hne]
    · have hne : x ≠ tail := fun heq =>
        h.blocks.not_listed hnode henqueued (heq ▸ .inr ⟨t, hmem⟩)
      simp [hne]
  · have hwakes := h.roles.waker t
    constructor <;> simp_all

theorem clear_wait_of_clear {flags : BitVec 32} (h : flags &&& waiterWait = 0) :
    flags &&& ~~~waiterWait = flags := by
  have hor : (flags &&& waiterWait) ||| (flags &&& ~~~waiterWait) = flags := by
    rw [← BitVec.and_or_distrib_left,
      show waiterWait ||| ~~~waiterWait = BitVec.allOnes 32 by decide,
      BitVec.and_allOnes]
  rw [h] at hor
  simpa using hor

theorem wait_clear (flags : BitVec 32) : (flags &&& ~~~waiterWait) &&& waiterWait = 0 := by
  rw [BitVec.and_assoc]
  simp [BitVec.and_comm]

/-- The owner waits already, so it has cleared the flag. -/
theorem Inv.signalWaiting (h : Inv s) (hat : s.thread t = .signalClear after node previous)
    (hwait : s.flags node &&& waiterWait = 0) :
    Inv ((s.setFlags node (s.flags node &&& ~~~waiterWait)).goto t
      (.signalSet after node previous)) := by
  obtain ⟨rest, hpending, hchain, hprevious⟩ := h.placeOk hat
  have hsame : s.setFlags node (s.flags node &&& ~~~waiterWait) = s := by
    rw [clear_wait_of_clear hwait, State.setFlags, update_eq_self]
  rw [hsame]
  exact h.goto (by constructor <;> simp [hat]) ⟨rest, hpending, hchain, hprevious, hwait⟩

/-- A plan is written into a block that is not published. -/
theorem Inv.fill (h : Inv s) {plan : QueuePlan}
    (hat : s.thread t = .acquiring shared (some node) old)
    (hplan : acquirePlan shared old node = .ok (.queue plan)) :
    Inv ((s.fill node plan).goto t (.queueing shared node old plan)) := by
  have hnode : (s.thread t).node = some node := by simp [hat]
  have hnot : ¬ Listed s node := h.blocks.not_listed hnode (by simp [hat])
  have hqueue : ∀ x ∈ s.queue, x ≠ node := fun x hx heq => hnot (heq ▸ .inl hx)
  have hpending : ∀ u, ∀ x ∈ s.pending u, x ≠ node := fun u x hx heq => hnot (heq ▸ .inr ⟨u, hx⟩)
  have hothers : ∀ u x, (s.thread u).node = some x → u ≠ t → x ≠ node := fun u x hx hu heq =>
    hu (h.blocks.unique u t node (heq ▸ hx) hnode)
  have hlast : ∀ x ∈ s.queue, (s.fill node plan).links.last x = s.links.last x :=
    fun x hx => (s.fill_of_ne plan (hqueue x hx)).2.1
  have hprevious : ∀ x ∈ s.queue, (s.fill node plan).links.previous x = s.links.previous x :=
    fun x hx => (s.fill_of_ne plan (hqueue x hx)).2.2.1
  have hblocks : Blocks (s.fill node plan) := by
    refine ⟨⟨h.blocks.nodup, h.blocks.pendingNodup, h.blocks.apart, h.blocks.distinct⟩,
      h.blocks.address, h.blocks.unique, h.blocks.quiet, h.blocks.owned, h.blocks.event,
      fun u x hx => ?_⟩
    have hu : u ≠ t := by
      rintro rfl
      have hx : (s.thread u).enqueued = some x := hx
      simp [hat] at hx
    rw [(s.fill_of_ne plan (hothers u x (node_of_enqueued hx) hu)).2.2.2.2]
    exact h.blocks.wait u x hx
  refine h.write (State.saved_congr rfl fun x hx => (s.fill_of_ne plan (hqueue x hx)).2.2.2.1)
    ⟨h.queued.heads, h.queued.linked.congr (fun x hx => (s.fill_of_ne plan (hqueue x hx)).1) hlast
      hprevious, fun hmultiple tail htail => ?_⟩ hblocks (fun u hu => ?_)
    (by constructor <;> simp [hat]) ⟨hplan, by simp [State.setNext, State.setLast,
      State.setPrevious, State.setShares]⟩
  · obtain ⟨hself, hlasts⟩ := h.queued.many hmultiple tail htail
    refine ⟨(hlast tail (mem_of_getLast? htail)).trans hself, fun x hx => ?_⟩
    show (s.fill node plan).links.last x = 0 ∨ (s.fill node plan).links.last x = tail
    rw [hlast x hx]
    exact hlasts x hx
  · refine (h.places u).congr rfl rfl hlast hprevious ⟨rfl,
      fun x hx => (s.fill_of_ne plan (hpending u x hx)).2.2.1, fun x hx hflags => ?_,
      fun x hx _ => s.fill_of_ne plan (hothers u x hx hu)⟩
    show (s.fill node plan).flags x &&& waiterWait = 0
    rw [(s.fill_of_ne plan (hpending u x hx)).2.2.2.2]
    exact hflags

/-! ## Events and wait flags -/

/-- The links and the counts are not touched. -/
theorem Inv.signalling (h : Inv s) (hroles : Roles (s.goto t place))
    (hretries : Retries s t → Retries ({ s with flags, event, pending }.goto t place) t)
    (hblocks : Blocks ({ s with flags, event, pending }.goto t place))
    (hpending : ∀ u, u ≠ t → pending u = s.pending u)
    (hflags : ∀ u, u ≠ t → ∀ x ∈ s.pending u, s.flags x &&& waiterWait = 0 →
      flags x &&& waiterWait = 0)
    (hown : ∀ u, u ≠ t → ∀ x, (s.thread u).node = some x → (s.thread u).enqueued = none →
      flags x = s.flags x)
    (hplace : PlaceOk { s with flags, event, pending } t place) :
    Inv ({ s with flags, event, pending }.goto t place) := by
  refine h.change (State.saved_congr rfl fun _ _ => rfl)
    ⟨h.queued.heads, h.queued.linked, h.queued.many⟩ hroles hretries hblocks
    (fun u hu => ?_) hplace
  exact (h.places u).congr rfl rfl (fun _ _ => rfl) (fun _ _ => rfl) ⟨hpending u hu,
    fun _ _ => rfl, hflags u hu, fun x hnode henqueued =>
      ⟨rfl, rfl, rfl, rfl, hown u hu x hnode henqueued⟩⟩

end Changes

/-- A thread without a block in the queue begins again with a block that no other thread has. -/
theorem Inv.beginAgain (h : Inv s)
    (hplace : (∀ kind, (s.thread t).holds kind = false) ∧ (s.thread t).finishing = false ∧
      (s.thread t).owns = false ∧ (s.thread t).signals = false)
    (haddress : IsAddress node) (hfree : ∀ u, u ≠ t → (s.thread u).node ≠ some node)
    (hlisted : ∀ x, Listed s x → (s.thread t).enqueued ≠ some x) :
    Inv ((s.setEvent node false).goto t (.acquire shared (some node))) := by
  obtain ⟨hholds, hfinishing, howns, hsignals⟩ := hplace
  refine h.signalling
    (h.roles.goto (fun kind => (hholds kind).symm) hfinishing.symm howns.symm (by simp))
    (fun _ => .inl (by simp)) ?_ (fun _ _ => rfl) (fun _ _ _ _ h => h)
    (fun _ _ _ _ _ => rfl) trivial
  refine h.blocks.replace ⟨h.blocks.nodup, h.blocks.pendingNodup, h.blocks.apart,
    h.blocks.distinct⟩ rfl ?_ (fun _ => h.blocks.quiet t hsignals) (fun _ _ => rfl)
    (fun x hx => .inr ⟨hx, hlisted x hx⟩) ?_ (by simp) (fun u hu x hx => ?_)
    fun u _ => h.blocks.wait u
  · rintro x ⟨⟩
    exact .inr ⟨haddress, hfree⟩
  · rintro x ⟨⟩
    simp
  · have hne : x ≠ node := by
      rintro rfl
      exact hfree u hu hx
    have hsame : (s.setEvent node false).event x = s.event x := by simp [State.setEvent, hne]
    exact (Eq.congr_left hsame).trans (h.blocks.event u x hx)

theorem Inv.allocate (h : Inv s) (hat : s.thread t = .acquiring shared none old)
    (haddress : IsAddress node) (hfree : ∀ u, (s.thread u).node ≠ some node) :
    Inv ((s.setEvent node false).goto t (.acquire shared (some node))) :=
  h.beginAgain (by simp [hat]) haddress (fun u _ => hfree u) (by simp [hat])

theorem Inv.resume (h : Inv s) (hat : s.thread t = .waiting shared node)
    (hevent : s.event node = true) :
    Inv ((s.setEvent node false).goto t (.acquire shared (some node))) := by
  have hnode : (s.thread t).node = some node := by simp [hat]
  refine h.beginAgain (by simp [hat]) (h.blocks.address t node hnode)
    (fun u hu hx => hu (h.blocks.unique u t node hx hnode)) fun x hx heq => ?_
  obtain rfl : node = x := by simpa [hat] using heq
  exact ((h.blocks.event t node hnode).mp hevent).2 hx

/-- A thread that finds its flag set goes to wait; otherwise it was signalled already. -/
theorem Inv.park (h : Inv s) (hat : s.thread t = .park shared node) :
    Inv ((s.setFlags node (s.flags node &&& ~~~waiterWait)).goto t
      (if s.flags node &&& waiterWait ≠ 0 then .waiting shared node
        else .acquire shared (some node))) := by
  set s' := s.setFlags node (s.flags node &&& ~~~waiterWait) with hs'
  have hnode : (s.thread t).node = some node := by simp [hat]
  have hne : ∀ u, u ≠ t → ∀ x, (s.thread u).node = some x → x ≠ node := fun u hu x hx heq =>
    hu (h.blocks.unique u t node (heq ▸ hx) hnode)
  -- the flag is set exactly while the block is on a list
  have hwait : s.flags node &&& waiterWait ≠ 0 ↔ Listed s node := by
    have := h.blocks.wait t node (by simp [hat])
    simpa [hat] using this
  have hevent : ¬ s.event node = true := by
    have := h.blocks.event t node hnode
    simpa [hat] using this
  have hself : s'.flags node &&& waiterWait = 0 := by
    simp [hs', State.setFlags, wait_clear]
  have hflags : ∀ x, s.flags x &&& waiterWait = 0 → s'.flags x &&& waiterWait = 0 := by
    intro x hx
    by_cases heq : x = node
    · rw [heq]
      exact hself
    · simpa [hs', State.setFlags, heq] using hx
  have hown : ∀ u, u ≠ t → ∀ x, (s.thread u).node = some x → s'.flags x = s.flags x := by
    intro u hu x hx
    simp [hs', State.setFlags, hne u hu x hx]
  have hwaits : ∀ u, u ≠ t → ∀ x, (s.thread u).enqueued = some x →
      (s'.flags x &&& waiterWait ≠ 0 ↔ Listed s x ∧ (s.thread u).parked = false) := by
    intro u hu x hx
    rw [hown u hu x (node_of_enqueued hx)]
    exact h.blocks.wait u x hx
  have hlists : Lists s' :=
    ⟨h.blocks.nodup, h.blocks.pendingNodup, h.blocks.apart, h.blocks.distinct⟩
  split
  case isTrue hset =>
    have hlisted := hwait.mp hset
    refine h.signalling (h.roles.goto (by simp [hat]) (by simp [hat]) (by simp [hat]) (by simp))
      (fun hretries => ?_) ?_ (fun _ _ => rfl) (fun _ _ x _ => hflags x)
      (fun u hu x hx _ => hown u hu x hx) trivial
    · exact hretries.congr (by simp [hat]) (.inl (by simp [hat])) fun _ hmem => hmem
    · refine h.blocks.replace hlists rfl (fun _ hx => .inl (hnode.trans hx))
        (fun _ => h.blocks.quiet t (by simp [hat])) (fun _ _ => rfl) (fun x hx => ?_) ?_ ?_
        (fun u _ => h.blocks.event u) hwaits
      · by_cases heq : x = node
        · exact .inl (by simp [heq])
        · exact .inr ⟨hx, by simpa [hat] using Ne.symm heq⟩
      · rintro x ⟨⟩
        exact iff_of_false hevent fun hparked => hparked.2 hlisted
      · rintro x ⟨⟩
        exact iff_of_false (not_not.mpr hself) (by simp)
  case isFalse hclear =>
    have hnot : ¬ Listed s node := fun hlisted => hclear (hwait.mpr hlisted)
    refine h.signalling (h.roles.goto (by simp [hat]) (by simp [hat]) (by simp [hat]) (by simp))
      (fun _ => .inl (by simp)) ?_ (fun _ _ => rfl)
      (fun _ _ x _ => hflags x) (fun u hu x hx _ => hown u hu x hx) trivial
    refine h.blocks.replace hlists rfl (fun _ hx => .inl (hnode.trans hx))
      (fun _ => h.blocks.quiet t (by simp [hat])) (fun _ _ => rfl) (fun x hx => .inr ⟨hx, ?_⟩) ?_
      (by simp) (fun u _ => h.blocks.event u) hwaits
    · rintro heq
      obtain rfl : node = x := by simpa [hat] using heq
      exact hnot hx
    · rintro x ⟨⟩
      exact iff_of_false hevent (by simp)

section

variable (h : Blocks s) (hpending : s.pending t = node :: rest) (hqueue : s'.queue = s.queue)
  (hpending' : s'.pending = Function.update s.pending t rest)
include h hpending hqueue hpending'
omit [Fintype T]

/-- The first pending block of a thread is off the list. -/
theorem Blocks.listed_tail (x : U64) : Listed s' x ↔ Listed s x ∧ x ≠ node := by
  have hmem : node ∈ s.pending t := by simp [hpending]
  unfold Listed
  rw [hqueue, hpending']
  constructor
  · rintro (hx | ⟨u, hx⟩)
    · exact ⟨.inl hx, fun heq => h.apart t node hmem (heq ▸ hx)⟩
    · by_cases hut : u = t
      · subst hut
        rw [update_self] at hx
        have hnodup := h.pendingNodup u
        rw [hpending, nodup_cons] at hnodup
        exact ⟨.inr ⟨u, by simp [hpending, hx]⟩, fun heq => hnodup.1 (heq ▸ hx)⟩
      · rw [update_of_ne hut] at hx
        exact ⟨.inr ⟨u, hx⟩, fun heq => hut (h.distinct u t node (heq ▸ hx) hmem)⟩
  · rintro ⟨hx | ⟨u, hx⟩, hne⟩
    · exact .inl hx
    · refine .inr ⟨u, ?_⟩
      by_cases hut : u = t
      · subst hut
        rw [hpending] at hx
        rw [update_self]
        exact (mem_cons.mp hx).resolve_left hne
      · rwa [update_of_ne hut]

theorem Blocks.lists_tail : Lists s' := by
  have hsub : ∀ u, (s'.pending u).Sublist (s.pending u) := by
    intro u
    rw [hpending']
    by_cases hut : u = t
    · subst hut
      rw [update_self, hpending]
      exact sublist_cons_self node rest
    · rw [update_of_ne hut]
  refine ⟨hqueue ▸ h.nodup, fun u => (h.pendingNodup u).sublist (hsub u), fun u x hx => ?_,
    fun u v x hu hv => h.distinct u v x ((hsub u).subset hu) ((hsub v).subset hv)⟩
  rw [hqueue]
  exact h.apart u x ((hsub u).subset hx)

end

omit [DecidableEq T] in
/-- The waker goes on with the block before, or is done. -/
theorem Inv.signalNext_placeOk (h : Inv s) (after : After) (hpending : s.pending t = node :: rest)
    (hchain : BackChain 0 s.links rest) (hprevious : previous = rest.headD 0)
    (hlinks : s'.links = s.links) (hpending' : s'.pending t = rest) :
    PlaceOk s' t (signalNext after previous) ∧
      ((signalNext after previous).signals = false → s'.pending t = []) := by
  have haddress : ∀ x ∈ rest, x ≠ 0 := fun x hx =>
    (h.blocks.isAddress (.inr ⟨t, by simp [hpending, hx]⟩)).1
  unfold signalNext
  cases rest with
  | nil =>
    rw [if_pos (by simpa using hprevious)]
    exact ⟨by cases after <;> trivial, fun _ => hpending'⟩
  | cons x rest =>
    obtain rfl : previous = x := by simpa using hprevious
    rw [if_neg (haddress previous mem_cons_self)]
    exact ⟨⟨rest, hpending', hlinks ▸ hchain⟩, fun hsignals => by simp at hsignals⟩

/-- A thread at work for others has what it goes on with. -/
structure Carries (after : After) (place : Local) : Prop where
  holds : ∀ kind, place.holds kind = after.holds kind
  finishing : place.finishing = false
  node : place.node = after.node
  enqueued : place.enqueued = after.node
  parked : place.parked = false

theorem carries_resume (after : After) :
    Carries after after.resume ∧ after.resume.owns = false ∧ after.resume.wakes = false := by
  cases after <;> exact ⟨by constructor <;> simp [After.resume], rfl, rfl⟩

theorem carries_signalNext (after : After) (previous : U64) :
    Carries after (signalNext after previous) ∧ (signalNext after previous).owns = false ∧
      (signalNext after previous).wakes = false := by
  unfold signalNext
  split
  · exact carries_resume after
  · exact ⟨by constructor <;> simp, rfl, rfl⟩

/-- The owner of the first pending block learns that it is detached, by its flag or, if it
waits, by its event. -/
theorem Inv.signalled (h : Inv s) (hat : Carries after (s.thread t))
    (howns : (s.thread t).owns = false) (hacquires : (s.thread t).acquires = false)
    (hpending : s.pending t = node :: rest) (hchain : BackChain 0 s.links rest)
    (hprevious : previous = rest.headD 0) {flags : U64 → BitVec 32} {event : U64 → Bool}
    (hflag : flags node &&& waiterWait = 0) (hflags : ∀ x, x ≠ node → flags x = s.flags x)
    (hevents : ∀ x, x ≠ node → event x = s.event x)
    (hevent : Listed s node → ∀ u, (s.thread u).enqueued = some node →
      (event node = true ↔ (s.thread u).parked = true)) :
    Inv ({ s with flags, event, pending := Function.update s.pending t rest }.goto t
      (signalNext after previous)) := by
  obtain ⟨hnext, hfree, hwakes⟩ := carries_signalNext after previous
  set s' : State T := { s with flags, event, pending := Function.update s.pending t rest }
  have hother : ∀ u, u ≠ t → s'.pending u = s.pending u := fun u hu => update_of_ne hu _ _
  have hlisted : Listed s node := .inr ⟨t, by simp [hpending]⟩
  have htail : ∀ x, Listed s' x ↔ Listed s x ∧ x ≠ node := h.blocks.listed_tail hpending rfl rfl
  obtain ⟨owner, howner⟩ := h.blocks.owned node hlisted
  -- who has the block is who enqueued it
  have henq : ∀ u, (s.thread u).node = some node → (s.thread u).enqueued = some node :=
    fun u hu => h.blocks.unique owner u node (node_of_enqueued howner) hu ▸ howner
  have hnode : (signalNext after previous).node = (s.thread t).node :=
    hnext.node.trans hat.node.symm
  have henqueued : (signalNext after previous).enqueued = (s.thread t).enqueued :=
    hnext.enqueued.trans hat.enqueued.symm
  have hparked : (signalNext after previous).parked = (s.thread t).parked :=
    hnext.parked.trans hat.parked.symm
  have heventAll : ∀ u x, (s.thread u).node = some x →
      (event x = true ↔ (s.thread u).parked = true ∧ ¬ Listed s' x) := by
    intro u x hx
    rw [htail x]
    by_cases heq : x = node
    · subst heq
      simpa using hevent hlisted u (henq u hx)
    · rw [hevents x heq]
      simpa [heq] using h.blocks.event u x hx
  have hwaitAll : ∀ u x, (s.thread u).enqueued = some x →
      (flags x &&& waiterWait ≠ 0 ↔ Listed s' x ∧ (s.thread u).parked = false) := by
    intro u x hx
    rw [htail x]
    by_cases heq : x = node
    · subst heq
      exact iff_of_false (not_not.mpr hflag) fun hboth => hboth.1.2 rfl
    · rw [hflags x heq]
      simpa [heq] using h.blocks.wait u x hx
  obtain ⟨hplace, hquiet⟩ := h.signalNext_placeOk after hpending hchain hprevious
    (rfl : s'.links = s.links) (update_self ..)
  refine h.signalling (h.roles.goto (fun kind => (hnext.holds kind).trans (hat.holds kind).symm)
    (hnext.finishing.trans hat.finishing.symm) (hfree.trans howns.symm)
    fun htrue => absurd (hwakes.symm.trans htrue) (by decide)) (fun hretries => ?_) ?_ hother
    (fun u hu x hx hclear => ?_) (fun u hu x hx hnone => ?_) hplace
  · refine hretries.congr (fun htrue => absurd (hacquires.symm.trans htrue) (by decide)) (.inl ?_)
      fun _ hmem => hmem
    rw [State.goto_self, henqueued]
  · exact h.blocks.keep (h.blocks.lists_tail hpending rfl rfl) rfl hnode henqueued hparked hquiet
      hother (fun x hx => ((htail x).mp hx).1) heventAll hwaitAll
  · by_cases heq : x = node
    · rw [heq]
      exact hflag
    · rw [hflags x heq]
      exact hclear
  · refine hflags x fun heq => ?_
    rw [heq] at hx
    rw [henq u hx] at hnone
    cases hnone

/-- A thread that has not gone to wait is signalled by its flag alone. -/
theorem Inv.signalClear (h : Inv s) (hat : s.thread t = .signalClear after node previous)
    (hset : s.flags node &&& waiterWait ≠ 0) :
    Inv (((s.setFlags node (s.flags node &&& ~~~waiterWait)).setPending t
      (s.pending t).tail).goto t (signalNext after previous)) := by
  obtain ⟨rest, hpending, hchain, hprevious⟩ := h.placeOk hat
  rw [hpending]
  refine h.signalled (by rw [hat]; constructor <;> simp) (by simp [hat]) (by simp [hat]) hpending
    hchain hprevious ?_ (fun x hx => ?_) (fun _ _ => rfl) fun hlisted u hu => ?_
  · simp [State.setFlags, wait_clear]
  · simp [State.setFlags, hx]
  · have hparked := ((h.blocks.wait u node hu).mp hset).2
    have hevent := h.blocks.event u node (node_of_enqueued hu)
    exact iff_of_false (fun htrue => (hevent.mp htrue).2 hlisted) (by rw [hparked]; decide)

/-- A thread that waits is signalled by its event. -/
theorem Inv.signalSet (h : Inv s) (hat : s.thread t = .signalSet after node previous) :
    Inv (((s.setEvent node true).setPending t (s.pending t).tail).goto t
      (signalNext after previous)) := by
  obtain ⟨rest, hpending, hchain, hprevious, hclear⟩ := h.placeOk hat
  rw [hpending]
  refine h.signalled (by rw [hat]; constructor <;> simp) (by simp [hat]) (by simp [hat]) hpending
    hchain hprevious hclear (fun _ _ => rfl) (fun x hx => ?_) fun hlisted u hu => ?_
  · simp [State.setEvent, hx]
  · have hwait := h.blocks.wait u node hu
    have hparked : (s.thread u).parked = true := by
      by_contra hparked
      exact hwait.mpr ⟨hlisted, Bool.eq_false_iff.mpr hparked⟩ hclear
    exact iff_of_true (by simp [State.setEvent]) hparked

end UserspaceNtos.PushLock
