import Mathlib.Data.List.Chain

/-!
# Intrusive queues that grow at the head

A queue is a list of nodes, the newest first.  Every node points to the next older one.  The
oldest node is found by walking from the head until a node knows it (`last` is not null); on the
way the walker sets the pointers back, which later removals from the old end use.

`Linked` is what the pointers of a queue satisfy at any time, also while it is walked.
-/

namespace IntrusiveQueue

open List Function

variable {α : Type}

/-- The pointers of all nodes. -/
structure Links (α : Type) where
  next : α → α
  last : α → α
  previous : α → α

/-- Every node but the first points back to the one before it. -/
def PrevLinked (links : Links α) (l : List α) : Prop :=
  l.IsChain fun newer older => links.previous older = newer

/-- The nodes from an old one back to the newest, by the pointers back. -/
structure BackChain (null : α) (links : Links α) (l : List α) : Prop where
  chain : l.IsChain fun older newer => links.previous older = newer
  last : ∀ x ∈ l.getLast?, links.previous x = null

/-- Two neighbours of a queue, the newer one first. -/
def Adjacent (q : List α) (newer older : α) : Prop :=
  ∃ l r, q = l ++ newer :: older :: r

/-- From some node on the oldest one is known and the pointers back are set; before it `last` is
null. -/
structure Linked (null : α) (links : Links α) (q : List α) : Prop where
  next : q.IsChain fun newer older => links.next newer = older
  known : q ≠ [] → ∃ a f b, q = a ++ f :: b ∧ (∀ x ∈ a, links.last x = null) ∧
    (f :: b).getLast? = some (links.last f) ∧ PrevLinked links (f :: b)
  head : ∀ x ∈ q.head?, links.previous x = null

/-- A walk from `head` has come to `cur`. -/
structure Reached (null : α) (links : Links α) (q : List α) (head cur : α) (post : List α) :
    Prop where
  split : ∃ newer pre, q = newer ++ (pre ++ cur :: post) ∧ (pre ++ [cur]).head? = some head ∧
    (∀ x ∈ newer ++ pre, links.last x = null) ∧ PrevLinked links (pre ++ [cur])

/-- A walk from `head` has found the oldest node. -/
structure Walked (null : α) (links : Links α) (q : List α) (head tail : α) : Prop where
  split : ∃ newer rest, q = newer ++ head :: rest ∧ (∀ x ∈ newer, links.last x = null) ∧
    PrevLinked links (head :: rest) ∧ (head :: rest).getLast? = some tail

section

variable {null newer older a : α} {links links' : Links α} {q l post : List α} {head cur tail : α}

theorem linked_nil : Linked null links [] :=
  ⟨List.IsChain.nil, fun h => absurd rfl h, fun _ h => nomatch h⟩

theorem Adjacent.mem_right (h : Adjacent q newer older) : older ∈ q := by
  obtain ⟨l, r, rfl⟩ := h
  simp

theorem Adjacent.of_suffix {p : List α} (h : Adjacent p newer older)
    (hsuffix : p <:+ q) : Adjacent q newer older := by
  obtain ⟨l, r, rfl⟩ := h
  obtain ⟨m, rfl⟩ := hsuffix
  exact ⟨m ++ l, r, (append_assoc _ _ _).symm⟩

/-- A list splits in one way at its first element with a property. -/
theorem split_unique {p : α → Prop} {a b a' b' : List α} {f f' : α}
    (heq : a ++ f :: b = a' ++ f' :: b') (ha : ∀ x ∈ a, ¬ p x) (ha' : ∀ x ∈ a', ¬ p x) (hf : p f)
    (hf' : p f') : a = a' ∧ f = f' ∧ b = b' := by
  induction a generalizing a' with
  | nil =>
    cases a' with
    | nil => simpa using heq
    | cons x a' =>
      obtain ⟨rfl, -⟩ := List.cons.inj heq
      exact absurd hf (ha' f mem_cons_self)
  | cons x a ih =>
    cases a' with
    | nil =>
      obtain ⟨rfl, -⟩ := List.cons.inj heq
      exact absurd hf' (ha x mem_cons_self)
    | cons y a' =>
      obtain ⟨rfl, htail⟩ := List.cons.inj heq
      obtain ⟨rfl, rfl, rfl⟩ := ih htail (fun z hz => ha z (mem_cons_of_mem _ hz))
        fun z hz => ha' z (mem_cons_of_mem _ hz)
      exact ⟨rfl, rfl, rfl⟩

theorem split_unique_of_nodup {a b a' b' : List α} {x : α} (hnodup : (a ++ x :: b).Nodup)
    (heq : a ++ x :: b = a' ++ x :: b') : a = a' ∧ b = b' := by
  have hmem : ∀ {c d : List α}, (c ++ x :: d).Nodup → ∀ y ∈ c, ¬ y = x := by
    intro c d h y hy hyx
    exact (nodup_append.mp h).2.2 y hy x mem_cons_self hyx
  obtain ⟨ha, -, hb⟩ := split_unique heq (hmem hnodup) (hmem (heq ▸ hnodup)) rfl rfl
  exact ⟨ha, hb⟩

/-- In a queue without duplicates a node has one neighbour on its newer side. -/
theorem Adjacent.unique (hnodup : q.Nodup) {x y : α} (hx : Adjacent q x older)
    (hy : Adjacent q y older) : x = y := by
  obtain ⟨l, r, rfl⟩ := hx
  obtain ⟨l', r', heq⟩ := hy
  rw [append_cons l, append_cons l'] at heq
  rw [append_cons l] at hnodup
  obtain ⟨hinit, -⟩ := split_unique_of_nodup hnodup heq
  exact (append_inj' hinit rfl).2 |> List.cons.inj |>.1

/-- The head of a queue has no newer neighbour. -/
theorem Adjacent.ne_head (hnodup : q.Nodup) (h : Adjacent q newer older) : older ∉ q.head? := by
  obtain ⟨l, r, rfl⟩ := h
  intro hhead
  cases l with
  | nil =>
    cases hhead
    simp at hnodup
  | cons x l =>
    cases hhead
    simp at hnodup

/-- Every node but the oldest has an older neighbour. -/
theorem exists_adjacent (htail : q.getLast? = some tail) (hmem : cur ∈ q) (hne : cur ≠ tail) :
    ∃ older, Adjacent q cur older := by
  obtain ⟨l, r, rfl⟩ := append_of_mem hmem
  cases r with
  | nil =>
    rw [List.getLast?_append_of_ne_nil _ (cons_ne_nil _ _)] at htail
    exact absurd (Option.some.inj htail) hne
  | cons older r => exact ⟨older, l, r, rfl⟩

theorem Linked.next_eq (h : Linked null links q)
    (hadjacent : Adjacent q newer older) : links.next newer = older := by
  obtain ⟨l, r, rfl⟩ := hadjacent
  exact (isChain_append_cons_cons.mp h.next).2.1

/-! ## Operations -/

theorem PrevLinked.congr (h : PrevLinked links l)
    (hprevious : ∀ x ∈ l, links'.previous x = links.previous x) : PrevLinked links' l := by
  refine List.IsChain.imp_of_mem_imp (fun x y _ hy hxy => ?_) h
  rw [hprevious y hy]
  exact hxy

/-- Setting a pointer back to the neighbour keeps those that are set. -/
theorem PrevLinked.link [DecidableEq α] (hnodup : q.Nodup)
    (hadjacent : Adjacent q newer older) {l : List α} (hpart : l <:+: q) (h : PrevLinked links l) :
    PrevLinked { links with previous := Function.update links.previous older newer } l := by
  rw [PrevLinked, isChain_iff_forall_rel_of_append_cons_cons] at h ⊢
  intro x y l₁ l₂ heq
  obtain ⟨l₀, l₃, hq⟩ := hpart
  have hxy : Adjacent q x y := ⟨l₀ ++ l₁, l₂ ++ l₃, by rw [← hq, heq]; simp⟩
  by_cases hy : y = older
  · subst hy
    simp [hadjacent.unique hnodup hxy]
  · simp [update_of_ne hy, h heq]

/-- A queue's pointers count only on its own nodes. -/
theorem Linked.congr (h : Linked null links q)
    (hnext : ∀ x ∈ q, links'.next x = links.next x) (hlast : ∀ x ∈ q, links'.last x = links.last x)
    (hprevious : ∀ x ∈ q, links'.previous x = links.previous x) : Linked null links' q := by
  refine ⟨List.IsChain.imp_of_mem_imp (fun x y hx _ hxy => ?_) h.next, fun hne => ?_,
    fun x hx => ?_⟩
  · rw [hnext x hx]
    exact hxy
  · obtain ⟨a, f, b, rfl, ha, hf, hb⟩ := h.known hne
    refine ⟨a, f, b, rfl, fun x hx => ?_, ?_, hb.congr fun x hx => ?_⟩
    · rw [hlast x (by simp [hx])]
      exact ha x hx
    · rw [hlast f (by simp)]
      exact hf
    · exact hprevious x (mem_append_right _ hx)
  · rw [hprevious x (mem_of_mem_head? hx)]
    exact h.head x hx

/-- The first node of an empty queue. -/
theorem linked_singleton (hlast : links.last a = a) (hprevious : links.previous a = null) :
    Linked null links [a] :=
  ⟨List.IsChain.singleton _, fun _ => ⟨[], a, [], rfl, fun _ h => (nomatch h), by simp [hlast],
    List.IsChain.singleton _⟩, fun x hx => by cases hx; exact hprevious⟩

/-- A new head. -/
theorem Linked.push (h : Linked null links q) {b : α} (hhead : q.head? = some b)
    (hnext : links.next a = b) (hlast : links.last a = null)
    (hprevious : links.previous a = null) : Linked null links (a :: q) := by
  have hne : q ≠ [] := by
    rintro rfl
    cases hhead
  refine ⟨List.IsChain.cons h.next fun y hy => ?_, fun _ => ?_, fun x hx => ?_⟩
  · rw [hhead] at hy
    cases hy
    exact hnext
  · obtain ⟨l, f, r, rfl, hl, hf, hr⟩ := h.known hne
    exact ⟨a :: l, f, r, rfl, forall_mem_cons.mpr ⟨hlast, hl⟩, hf, hr⟩
  · cases hx
    exact hprevious

/-- A walker sets a pointer back. -/
theorem Linked.link [DecidableEq α] (h : Linked null links q) (hnodup : q.Nodup)
    (hadjacent : Adjacent q newer older) :
    Linked null { links with previous := Function.update links.previous older newer } q := by
  refine ⟨h.next, fun hne => ?_, fun x hx => ?_⟩
  · obtain ⟨a, f, b, hq, ha, hf, hb⟩ := h.known hne
    exact ⟨a, f, b, hq, ha, hf, hb.link hnodup hadjacent ⟨a, [], by simp [hq]⟩⟩
  · have hxo : x ≠ older := fun heq => hadjacent.ne_head hnodup (heq ▸ hx)
    simpa [update_of_ne hxo] using h.head x hx

/-! ## Walks -/

theorem reached_head (hhead : q.head? = some head) :
    ∃ post, Reached null links q head head post := by
  cases q with
  | nil => cases hhead
  | cons a post =>
    cases hhead
    exact ⟨post, [], [], rfl, rfl, by simp, List.IsChain.singleton _⟩

section

variable (hreached : Reached null links q head cur post)
include hreached

theorem Reached.cur_mem : cur ∈ q := by
  obtain ⟨newer, pre, rfl, -⟩ := hreached.split
  simp

theorem Reached.head_mem : head ∈ q := by
  obtain ⟨newer, pre, rfl, hhead, -⟩ := hreached.split
  have hmem := mem_of_mem_head? hhead
  simp only [mem_append, mem_cons] at hmem ⊢
  tauto

/-- The node where the oldest one is known is the first whose `last` is not null. -/
theorem Reached.walked (h : Linked null links q) (hnull : null ∉ q)
    (hlast : links.last cur ≠ null) : Walked null links q head (links.last cur) := by
  obtain ⟨newer, pre, hq, hhead, hbefore, hprev⟩ := hreached.split
  have hne : q ≠ [] := by simp [hq]
  obtain ⟨a, f, b, hq', ha, hf, hb⟩ := h.known hne
  have hfnull : links.last f ≠ null := by
    intro hfnull
    rw [hfnull] at hf
    exact hnull (hq' ▸ mem_append_right _ (mem_of_getLast? hf))
  have heq : (newer ++ pre) ++ cur :: post = a ++ f :: b := by
    rw [append_assoc, ← hq, hq']
  obtain ⟨rfl, rfl, rfl⟩ := split_unique heq
    (fun x hx => not_not.mpr (hbefore x hx)) (fun x hx => not_not.mpr (ha x hx)) hlast hfnull
  have hchain : PrevLinked links (pre ++ cur :: post) := isChain_split.mpr ⟨hprev, hb⟩
  cases pre with
  | nil =>
    cases hhead
    exact ⟨newer, post, hq, fun x hx => hbefore x (mem_append_left _ hx), hchain, hf⟩
  | cons y pre =>
    cases hhead
    refine ⟨newer, pre ++ cur :: post, hq, fun x hx => hbefore x (mem_append_left _ hx), hchain, ?_⟩
    rw [← cons_append, List.getLast?_append_of_ne_nil _ (by simp)]
    exact hf

/-- Where the oldest node is not known there is an older one. -/
theorem Reached.exists_next (h : Linked null links q) (hnull : null ∉ q)
    (hlast : links.last cur = null) : ∃ rest, post = links.next cur :: rest := by
  obtain ⟨newer, pre, hq, hhead, hbefore, hprev⟩ := hreached.split
  cases post with
  | nil =>
    obtain ⟨a, f, b, hq', ha, hf, hb⟩ := h.known (by simp [hq])
    have hfnull : links.last f = null := by
      have hmem : f ∈ newer ++ (pre ++ [cur]) := by
        rw [← hq, hq']
        simp
      rw [← append_assoc, mem_append, mem_singleton] at hmem
      rcases hmem with hmem | rfl
      · exact hbefore f hmem
      · exact hlast
    rw [hfnull] at hf
    exact absurd (hq' ▸ mem_append_right _ (mem_of_getLast? hf)) hnull
  | cons y rest =>
    have hchain := h.next
    rw [hq, ← append_assoc, isChain_append_cons_cons] at hchain
    exact ⟨rest, by rw [hchain.2.1]⟩

/-- What others do while a walker is on its way: they set pointers back and push new heads. -/
theorem Reached.link [DecidableEq α] (hnodup : q.Nodup) (hadjacent : Adjacent q newer older) :
    Reached null { links with previous := Function.update links.previous older newer } q head cur
      post := by
  obtain ⟨before, pre, hq, hhead, hbefore, hprev⟩ := hreached.split
  exact ⟨before, pre, hq, hhead, hbefore, hprev.link hnodup hadjacent ⟨before, post, by simp [hq]⟩⟩

theorem Reached.push (hlast : links.last a = null) : Reached null links (a :: q) head cur post := by
  obtain ⟨newer, pre, hq, hhead, hbefore, hprev⟩ := hreached.split
  exact ⟨a :: newer, pre, by rw [hq]; rfl, hhead, forall_mem_cons.mpr ⟨hlast, hbefore⟩, hprev⟩

theorem Reached.congr (hlast : ∀ x ∈ q, links'.last x = links.last x)
    (hprevious : ∀ x ∈ q, links'.previous x = links.previous x) :
    Reached null links' q head cur post := by
  obtain ⟨newer, pre, hq, hhead, hbefore, hprev⟩ := hreached.split
  refine ⟨newer, pre, hq, hhead, fun x hx => ?_, hprev.congr fun x hx => ?_⟩
  · rw [hlast x (by rw [hq, ← append_assoc]; exact mem_append_left _ hx)]
    exact hbefore x hx
  · refine hprevious x ?_
    simp only [hq, mem_append, mem_cons] at hx ⊢
    tauto

end

section

variable {next : α} (hreached : Reached null links q head cur (next :: post))
include hreached

theorem Reached.adjacent : Adjacent q cur next := by
  obtain ⟨newer, pre, hq, -⟩ := hreached.split
  exact ⟨newer ++ pre, post, by rw [hq, append_assoc]⟩

/-- A walker does not come back to where it started. -/
theorem Reached.head_ne_next (hnodup : q.Nodup) : head ≠ next := by
  obtain ⟨newer, pre, rfl, hhead, -⟩ := hreached.split
  rintro rfl
  have hmem := mem_of_mem_head? hhead
  rw [append_cons pre cur, nodup_append, nodup_append] at hnodup
  exact hnodup.2.1.2.2 head hmem head mem_cons_self rfl

/-- A walker goes on after it has set the pointer back. -/
theorem Reached.step [DecidableEq α] (hnodup : q.Nodup) (hlast : links.last cur = null) :
    Reached null { links with previous := Function.update links.previous next cur } q head next
      post := by
  have hadjacent := hreached.adjacent
  obtain ⟨newer, pre, hq, hhead, hbefore, hprev⟩ := hreached.split
  refine ⟨newer, pre ++ [cur], by simp [hq], ?_, ?_, ?_⟩
  · cases pre <;> simpa using hhead
  · intro x hx
    rw [← append_assoc, mem_append, mem_singleton] at hx
    rcases hx with hx | rfl
    · exact hbefore x hx
    · exact hlast
  · have hprev' := hprev.link hnodup hadjacent ⟨newer, next :: post, by simp [hq]⟩
    rw [PrevLinked, append_assoc, singleton_append, isChain_append_cons_cons]
    exact ⟨hprev', by simp, List.IsChain.singleton _⟩

end

section

variable (hwalked : Walked null links q head tail)
include hwalked

theorem Walked.tail_mem : tail ∈ q := by
  obtain ⟨newer, rest, rfl, -, -, htail⟩ := hwalked.split
  exact mem_append_right _ (mem_of_getLast? htail)

theorem Walked.head_mem : head ∈ q := by
  obtain ⟨newer, rest, rfl, -⟩ := hwalked.split
  simp

theorem Walked.tail_eq : q.getLast? = some tail := by
  obtain ⟨newer, rest, rfl, -, -, htail⟩ := hwalked.split
  rw [List.getLast?_append_of_ne_nil _ (by simp), htail]

/-- A walk that began at the head of the queue saw all of it. -/
theorem Walked.prevLinked (hhead : q.head? = some head) (hnodup : q.Nodup) :
    PrevLinked links q := by
  obtain ⟨newer, rest, rfl, -, hprev, -⟩ := hwalked.split
  cases newer with
  | nil => exact hprev
  | cons x newer =>
    obtain rfl : x = head := Option.some.inj hhead
    simp at hnodup

theorem Walked.exists_reverse : ∃ rest, q.reverse = tail :: rest := by
  have hhead : q.reverse.head? = some tail := by
    rw [head?_reverse]
    exact hwalked.tail_eq
  exact ⟨_, eq_cons_of_mem_head? hhead⟩

theorem Walked.link [DecidableEq α] (hnodup : q.Nodup) (hadjacent : Adjacent q newer older) :
    Walked null { links with previous := Function.update links.previous older newer } q head
      tail := by
  obtain ⟨before, rest, hq, hbefore, hprev, htail⟩ := hwalked.split
  exact ⟨before, rest, hq, hbefore, hprev.link hnodup hadjacent ⟨before, [], by simp [hq]⟩, htail⟩

theorem Walked.push (hlast : links.last a = null) : Walked null links (a :: q) head tail := by
  obtain ⟨newer, rest, hq, hbefore, hprev, htail⟩ := hwalked.split
  exact ⟨a :: newer, rest, by rw [hq]; rfl, forall_mem_cons.mpr ⟨hlast, hbefore⟩, hprev, htail⟩

theorem Walked.congr (hlast : ∀ x ∈ q, links'.last x = links.last x)
    (hprevious : ∀ x ∈ q, links'.previous x = links.previous x) :
    Walked null links' q head tail := by
  obtain ⟨newer, rest, hq, hbefore, hprev, htail⟩ := hwalked.split
  refine ⟨newer, rest, hq, fun x hx => ?_, hprev.congr fun x hx => ?_, htail⟩
  · rw [hlast x (by rw [hq]; exact mem_append_left _ hx)]
    exact hbefore x hx
  · exact hprevious x (by rw [hq]; exact mem_append_right _ hx)

/-- After a walk the head may remember the oldest node. -/
theorem Walked.remember [DecidableEq α] (h : Linked null links q) (hnodup : q.Nodup) :
    Linked null { links with last := Function.update links.last head tail } q := by
  obtain ⟨newer, rest, hq, hbefore, hprev, htail⟩ := hwalked.split
  refine ⟨h.next, fun _ => ⟨newer, head, rest, hq, fun x hx => ?_, by simpa using htail, hprev⟩,
    h.head⟩
  have hne : x ≠ head := fun heq =>
    (nodup_append.mp (hq ▸ hnodup)).2.2 x hx head mem_cons_self heq
  simpa [update_of_ne hne] using hbefore x hx

/-- The node before the oldest one, if the walk did not start there. -/
theorem Walked.previous_tail (hhead : links.previous head = null)
    (hprevious : links.previous tail ≠ null) :
    ∃ newer mid, q = newer ++ (mid ++ [links.previous tail, tail]) ∧
      (mid ++ [links.previous tail]).head? = some head ∧ (∀ x ∈ newer, links.last x = null) ∧
      PrevLinked links (mid ++ [links.previous tail, tail]) := by
  obtain ⟨newer, rest, hq, hbefore, hprev, htail⟩ := hwalked.split
  rcases eq_nil_or_concat' rest with rfl | ⟨init, last, rfl⟩
  · cases htail
    exact absurd hhead hprevious
  · rw [← cons_append, List.getLast?_append_of_ne_nil _ (cons_ne_nil _ _)] at htail
    obtain rfl : last = tail := Option.some.inj htail
    rw [← cons_append] at hprev hq
    rcases eq_nil_or_concat' (head :: init) with hnil | ⟨mid, before, hmid⟩
    · cases hnil
    · rw [hmid, append_assoc] at hprev hq
      have hbefore' : links.previous last = before := by
        have hpair := hprev.right_of_append
        simpa [isChain_pair] using hpair
      subst hbefore'
      exact ⟨newer, mid, hq, by rw [← hmid]; rfl, hbefore, hprev⟩

/-- Removing the oldest node: the head of the walk remembers the one before it. -/
theorem Walked.detach [DecidableEq α] (h : Linked null links q) (hnodup : q.Nodup)
    (hhead : links.previous head = null) (hprevious : links.previous tail ≠ null) :
    ∃ rest, q = rest ++ [tail] ∧ rest ≠ [] ∧ rest.head? = q.head? ∧
      Linked null { links with last := Function.update links.last head (links.previous tail) }
        rest := by
  obtain ⟨newer, mid, hq, hmid, hbefore, hprev⟩ := hwalked.previous_tail hhead hprevious
  have hsplit : q = (newer ++ (mid ++ [links.previous tail])) ++ [tail] := by simp [hq]
  have hne : newer ++ (mid ++ [links.previous tail]) ≠ [] :=
    append_ne_nil_of_right_ne_nil _ (concat_ne_nil _ _)
  refine ⟨newer ++ (mid ++ [links.previous tail]), hsplit, hne, ?_, ?_, fun _ => ?_, ?_⟩
  · rw [hsplit, List.head?_append_of_ne_nil _ hne]
  · exact (hsplit ▸ h.next).left_of_append
  · obtain ⟨b, hb⟩ : ∃ b, mid ++ [links.previous tail] = head :: b := by
      cases hcase : mid ++ [links.previous tail] with
      | nil => simp at hcase
      | cons x b =>
        rw [hcase] at hmid
        cases hmid
        exact ⟨b, rfl⟩
    have hchain : PrevLinked links (mid ++ [links.previous tail]) := by
      have := hprev
      rw [show mid ++ [links.previous tail, tail] =
        (mid ++ [links.previous tail]) ++ [tail] by simp] at this
      exact this.left_of_append
    refine ⟨newer, head, b, by rw [hb], fun x hx => ?_, ?_, hb ▸ hchain⟩
    · have hne : x ≠ head := by
        rintro rfl
        have hdisjoint := (nodup_append.mp (hq ▸ hnodup)).2.2 x hx x
        refine hdisjoint ?_ rfl
        rw [show mid ++ [links.previous tail, tail] = (mid ++ [links.previous tail]) ++ [tail] by
          simp, hb]
        simp
      simpa [update_of_ne hne] using hbefore x hx
    · rw [← hb]
      simp
  · intro x hx
    refine h.head x ?_
    rw [hsplit, List.head?_append_of_ne_nil _ hne]
    exact hx

end

/-- The whole queue from its old end. -/
theorem PrevLinked.backChain (h : PrevLinked links l)
    (hhead : ∀ x ∈ l.head?, links.previous x = null) : BackChain null links l.reverse :=
  ⟨isChain_reverse.mpr h, fun x hx => hhead x (by simpa using hx)⟩

theorem BackChain.previous_eq {rest : List α} (h : BackChain null links (a :: rest)) :
    links.previous a = rest.headD null := by
  cases rest with
  | nil => exact h.last a rfl
  | cons b rest => exact (isChain_cons_cons.mp h.chain).1

theorem BackChain.of_cons {rest : List α} (h : BackChain null links (a :: rest)) :
    BackChain null links rest := by
  refine ⟨h.chain.tail, fun x hx => h.last x ?_⟩
  cases rest with
  | nil => cases hx
  | cons b rest => simpa using hx

theorem BackChain.congr (h : BackChain null links l)
    (hprevious : ∀ x ∈ l, links'.previous x = links.previous x) : BackChain null links' l := by
  refine ⟨List.IsChain.imp_of_mem_imp (fun x y hx _ hxy => ?_) h.chain, fun x hx => ?_⟩
  · rw [hprevious x hx]
    exact hxy
  · rw [hprevious x (mem_of_getLast? hx)]
    exact h.last x hx

end

end IntrusiveQueue
