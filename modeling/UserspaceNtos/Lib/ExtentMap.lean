import Mathlib.Data.List.Basic
import Mathlib.Data.Nat.Basic

/-!
# Tagged address ranges

A list of extents, each a range of addresses with a tag, describes a partial map from
addresses to tags (`tagAt`).  If the extents are nonempty and in ascending order
(`Separated`) the map is read off the members of the list (`tagAt_eq_some_iff`), and two
such lists with the same members' addresses describe the same map (`tagAt_congr`).

Joining neighbours with equal tags changes the list but not the map; `Recut` collects
what such a change keeps, and both ways of joining, one neighbour at a time as extents
are pushed (`push`) and over a whole list (`coalesce`), are sequences of it.  Rewriting
the tags inside a window splits the extents at its two ends (`cut`).
-/

/-- A range of addresses with a tag. -/
structure Extent (α : Type) where
  base : ℕ
  size : ℕ
  tag : α
deriving DecidableEq, Repr

namespace Extent

variable {α : Type}

/-- The first address behind the range. -/
def stop (e : Extent α) : ℕ := e.base + e.size

/-- The address is in the range. -/
def Holds (e : Extent α) (a : ℕ) : Prop := e.base ≤ a ∧ a < e.stop

instance (e : Extent α) (a : ℕ) : Decidable (e.Holds a) := inferInstanceAs (Decidable (_ ∧ _))

/-- The range `f` continues `e` with the same tag. -/
def Joins (e f : Extent α) : Prop := e.stop = f.base ∧ e.tag = f.tag

instance [DecidableEq α] (e f : Extent α) : Decidable (e.Joins f) :=
  inferInstanceAs (Decidable (_ ∧ _))

/-- The range grows at its end. -/
def grow (e : Extent α) (n : ℕ) : Extent α := { e with size := e.size + n }

end Extent

namespace ExtentMap

open List

variable {α : Type} {xs ys zs : List (Extent α)} {a : ℕ} {t : α} {e f : Extent α}

/-- The first extent that holds the address. -/
def find (xs : List (Extent α)) (a : ℕ) : Option (Extent α) := xs.find? fun e => decide (e.Holds a)

/-- The tag of an address. -/
def tagAt (xs : List (Extent α)) (a : ℕ) : Option α := (find xs a).map Extent.tag

/-- Some extent gives the address the tag. -/
def Tagged (xs : List (Extent α)) (a : ℕ) (t : α) : Prop := ∃ e ∈ xs, e.Holds a ∧ e.tag = t

/-- Nonempty ranges in ascending order, none reaching into the next. -/
structure Separated (xs : List (Extent α)) : Prop where
  ascending : xs.Pairwise fun e f => e.stop ≤ f.base
  nonempty : ∀ e ∈ xs, 0 < e.size

theorem holds_of_find (h : find xs a = some e) : e ∈ xs ∧ e.Holds a := by
  have hdec := find?_some h
  exact ⟨mem_of_find?_eq_some h, of_decide_eq_true hdec⟩

theorem Separated.eq_of_holds (h : Separated xs) (he : e ∈ xs) (hf : f ∈ xs) (hea : e.Holds a)
    (hfa : f.Holds a) : e = f := by
  obtain ⟨hasc, -⟩ := h
  have hlt : e.base ≤ a ∧ a < e.stop ∧ f.base ≤ a ∧ a < f.stop := ⟨hea.1, hea.2, hfa.1, hfa.2⟩
  induction xs with
  | nil => cases he
  | cons x xs ih =>
    obtain ⟨hx, hxs⟩ := pairwise_cons.mp hasc
    rcases mem_cons.mp he with hex | he' <;> rcases mem_cons.mp hf with hfx | hf'
    · rw [hex, hfx]
    · have hle := hx f hf'
      rw [← hex] at hle
      omega
    · have hle := hx e he'
      rw [← hfx] at hle
      omega
    · exact ih he' hf' hxs

theorem find_eq_some_iff (h : Separated xs) : find xs a = some e ↔ e ∈ xs ∧ e.Holds a := by
  refine ⟨holds_of_find, fun ⟨he, hea⟩ => ?_⟩
  have hsome : (find xs a).isSome := find?_isSome.mpr ⟨e, he, decide_eq_true hea⟩
  obtain ⟨f, hf⟩ := Option.isSome_iff_exists.mp hsome
  obtain ⟨hmem, hholds⟩ := holds_of_find hf
  rw [h.eq_of_holds he hmem hea hholds]
  exact hf

theorem tagAt_eq_some_iff (h : Separated xs) : tagAt xs a = some t ↔ Tagged xs a t := by
  rw [tagAt, Option.map_eq_some_iff]
  simp only [find_eq_some_iff h]
  constructor
  · rintro ⟨e, ⟨he, hea⟩, rfl⟩
    exact ⟨e, he, hea, rfl⟩
  · rintro ⟨e, he, hea, rfl⟩
    exact ⟨e, ⟨he, hea⟩, rfl⟩

theorem tagAt_eq_none_iff : tagAt xs a = none ↔ ∀ e ∈ xs, ¬ e.Holds a := by
  rw [tagAt, Option.map_eq_none_iff, find, find?_eq_none]
  simp only [decide_eq_true_eq]

theorem tagAt_congr (hxs : Separated xs) (hys : Separated ys)
    (h : ∀ t, Tagged ys a t ↔ Tagged xs a t) : tagAt ys a = tagAt xs a := by
  apply Option.ext
  intro t
  rw [tagAt_eq_some_iff hys, tagAt_eq_some_iff hxs, h]

/-- Ranges that do not overlap are separated once they are in order. -/
theorem separated_of_sorted (hdisjoint : xs.Pairwise fun e f => e.stop ≤ f.base ∨ f.stop ≤ e.base)
    (hsorted : xs.Pairwise fun e f => e.base ≤ f.base) (hnonempty : ∀ e ∈ xs, 0 < e.size) :
    Separated xs := by
  refine ⟨?_, hnonempty⟩
  refine (hdisjoint.and hsorted).imp_of_mem fun {e f} _ hf ⟨hdis, hle⟩ => ?_
  have hpos := hnonempty f hf
  rcases hdis with hdis | hdis
  · exact hdis
  · simp only [Extent.stop] at hdis
    omega

/-! ## Joining neighbours -/

/-- The lists describe the same map, and the second one has no ends of its own. -/
structure Recut (xs ys : List (Extent α)) : Prop where
  separated : Separated xs → Separated ys
  tagged : ∀ a t, Tagged ys a t ↔ Tagged xs a t
  base_mem : ∀ y ∈ ys, ∃ x ∈ xs, x.base = y.base
  stop_mem : ∀ y ∈ ys, ∃ x ∈ xs, x.stop = y.stop

namespace Recut

theorem refl (xs : List (Extent α)) : Recut xs xs :=
  ⟨id, fun _ _ => Iff.rfl, fun y hy => ⟨y, hy, rfl⟩, fun y hy => ⟨y, hy, rfl⟩⟩

theorem trans (h : Recut xs ys) (h' : Recut ys zs) : Recut xs zs where
  separated hxs := h'.separated (h.separated hxs)
  tagged a t := (h'.tagged a t).trans (h.tagged a t)
  base_mem z hz := by
    obtain ⟨y, hy, hyz⟩ := h'.base_mem z hz
    obtain ⟨x, hx, hxy⟩ := h.base_mem y hy
    exact ⟨x, hx, hxy.trans hyz⟩
  stop_mem z hz := by
    obtain ⟨y, hy, hyz⟩ := h'.stop_mem z hz
    obtain ⟨x, hx, hxy⟩ := h.stop_mem y hy
    exact ⟨x, hx, hxy.trans hyz⟩

theorem tagAt (h : Recut xs ys) (hxs : Separated xs) : tagAt ys a = tagAt xs a :=
  tagAt_congr hxs (h.separated hxs) fun t => h.tagged a t

end Recut

theorem stop_grow (h : e.Joins f) : (e.grow f.size).stop = f.stop := by
  obtain ⟨hjoin, -⟩ := h
  simp only [Extent.stop, Extent.grow] at hjoin ⊢
  omega

theorem holds_grow_iff (h : e.Joins f) : (e.grow f.size).Holds a ↔ e.Holds a ∨ f.Holds a := by
  obtain ⟨hjoin, -⟩ := h
  simp only [Extent.Holds, Extent.stop, Extent.grow] at hjoin ⊢
  omega

/-- Two neighbours with the same tag become one extent. -/
theorem recut_join (h : e.Joins f) : Recut (xs ++ e :: f :: ys) (xs ++ e.grow f.size :: ys) where
  separated hsep := by
    obtain ⟨hasc, hne⟩ := hsep
    simp only [pairwise_append, pairwise_cons, mem_cons] at hasc
    obtain ⟨hxs, ⟨he, hf, hys⟩, hcross⟩ := hasc
    refine ⟨?_, ?_⟩
    · simp only [pairwise_append, pairwise_cons, mem_cons]
      refine ⟨hxs, ⟨fun y hy => ?_, hys⟩, fun x hx y hy => ?_⟩
      · rw [stop_grow h]
        exact hf y hy
      · rcases hy with rfl | hy
        · exact hcross x hx e (.inl rfl)
        · exact hcross x hx y (.inr (.inr hy))
    · intro y hy
      rcases mem_append.mp hy with hy | hy
      · exact hne y (mem_append_left _ hy)
      · rcases mem_cons.mp hy with rfl | hy
        · have hpos := hne e (mem_append_right _ mem_cons_self)
          simp only [Extent.grow]
          omega
        · exact hne y (mem_append_right _ (mem_cons_of_mem _ (mem_cons_of_mem _ hy)))
  tagged a t := by
    have htag : (e.grow f.size).tag = t ↔ e.tag = t := Iff.rfl
    simp only [Tagged, mem_append, mem_cons, or_and_right, exists_or, exists_eq_left,
      holds_grow_iff h, htag, ← h.2, or_assoc]
  base_mem y hy := by
    rcases mem_append.mp hy with hy | hy
    · exact ⟨y, mem_append_left _ hy, rfl⟩
    · rcases mem_cons.mp hy with rfl | hy
      · exact ⟨e, mem_append_right _ mem_cons_self, rfl⟩
      · exact ⟨y, mem_append_right _ (mem_cons_of_mem _ (mem_cons_of_mem _ hy)), rfl⟩
  stop_mem y hy := by
    rcases mem_append.mp hy with hy | hy
    · exact ⟨y, mem_append_left _ hy, rfl⟩
    · rcases mem_cons.mp hy with rfl | hy
      · exact ⟨f, mem_append_right _ (mem_cons_of_mem _ mem_cons_self), (stop_grow h).symm⟩
      · exact ⟨y, mem_append_right _ (mem_cons_of_mem _ (mem_cons_of_mem _ hy)), rfl⟩

section Joining

variable [DecidableEq α]

/-- An extent is appended to a list of at most `capacity` extents, or joined to the last
one if it continues it. -/
def push (capacity : ℕ) (xs : List (Extent α)) (e : Extent α) : Option (List (Extent α)) :=
  match xs.getLast? with
  | some last =>
    if last.Joins e then some (xs.dropLast ++ [last.grow e.size])
    else if xs.length = capacity then none else some (xs ++ [e])
  | none => if xs.length = capacity then none else some (xs ++ [e])

variable {capacity : ℕ}

theorem recut_push {e : Extent α} (h : push capacity xs e = some ys)
    (rest : List (Extent α)) : Recut (xs ++ e :: rest) (ys ++ rest) := by
  have happend : Recut (xs ++ e :: rest) (xs ++ [e] ++ rest) := by
    rw [append_assoc]
    exact Recut.refl _
  rw [push] at h
  split at h
  case h_1 last hlast =>
    split_ifs at h with hjoin hfull
    · have hxs : xs = xs.dropLast ++ [last] := by
        rw [dropLast_append_getLast? last hlast]
      cases h
      rw [append_assoc]
      nth_rewrite 1 [hxs]
      rw [append_assoc]
      exact recut_join hjoin
    · cases h
      exact happend
  case h_2 =>
    split_ifs at h with hfull
    cases h
    exact happend

theorem length_push {e : Extent α} (hlen : xs.length ≤ capacity)
    (h : push capacity xs e = some ys) : ys.length ≤ capacity := by
  rw [push] at h
  split at h
  case h_1 last hlast =>
    have hpos : xs ≠ [] := by
      rintro rfl
      cases hlast
    have := length_pos_iff.mpr hpos
    split_ifs at h <;> cases h <;>
      simp only [length_append, length_dropLast, length_singleton] <;> omega
  case h_2 =>
    split_ifs at h
    cases h
    simp only [length_append, length_singleton]
    omega

theorem recut_foldlM_push {es : List (Extent α)}
    (h : es.foldlM (push capacity) xs = some ys) : Recut (xs ++ es) ys := by
  induction es generalizing xs with
  | nil =>
    cases h
    rw [append_nil]
    exact Recut.refl _
  | cons e es ih =>
    obtain ⟨mid, hmid, hrest⟩ := Option.bind_eq_some_iff.mp h
    exact (recut_push hmid es).trans (ih hrest)

theorem length_foldlM_push {es : List (Extent α)} (hlen : xs.length ≤ capacity)
    (h : es.foldlM (push capacity) xs = some ys) : ys.length ≤ capacity := by
  induction es generalizing xs with
  | nil =>
    cases h
    exact hlen
  | cons e es ih =>
    obtain ⟨mid, hmid, hrest⟩ := Option.bind_eq_some_iff.mp h
    exact ih (length_push hlen hmid) hrest

/-- The extents that continue `current` are joined to it, then the next ones. -/
def coalesceFrom : Extent α → List (Extent α) → List (Extent α)
  | current, [] => [current]
  | current, e :: es =>
    if current.Joins e then coalesceFrom (current.grow e.size) es
    else current :: coalesceFrom e es

/-- Neighbours with the same tag are joined. -/
def coalesce : List (Extent α) → List (Extent α)
  | [] => []
  | e :: es => coalesceFrom e es

theorem recut_coalesceFrom (xs : List (Extent α)) (e : Extent α) (es : List (Extent α)) :
    Recut (xs ++ e :: es) (xs ++ coalesceFrom e es) := by
  induction es generalizing xs e with
  | nil => exact Recut.refl _
  | cons f es ih =>
    rw [coalesceFrom]
    split
    case isTrue hjoin => exact (recut_join hjoin).trans (ih xs _)
    case isFalse =>
      have hstep := ih (xs ++ [e]) f
      rw [append_assoc, append_assoc] at hstep
      exact hstep

theorem recut_coalesce (xs : List (Extent α)) : Recut xs (coalesce xs) := by
  cases xs with
  | nil => exact Recut.refl []
  | cons e es => exact recut_coalesceFrom [] e es

theorem length_coalesceFrom_le (e : Extent α) (es : List (Extent α)) :
    (coalesceFrom e es).length ≤ es.length + 1 := by
  induction es generalizing e with
  | nil => exact le_rfl
  | cons f es ih =>
    rw [coalesceFrom]
    split
    · exact Nat.le_succ_of_le (ih _)
    · exact Nat.succ_le_succ (ih f)

theorem length_coalesce_le (xs : List (Extent α)) : (coalesce xs).length ≤ xs.length := by
  cases xs with
  | nil => exact le_rfl
  | cons e es => exact length_coalesceFrom_le e es

end Joining

/-! ## Rewriting a window -/

/-- What becomes of an extent when the tags between `lo` and `hi` are rewritten by `f`, or
removed where `f` gives none: the part before the window, the part inside it and the
part behind it. -/
def cut (lo hi : ℕ) (f : α → Option α) (e : Extent α) : List (Extent α) :=
  if e.stop ≤ lo ∨ hi ≤ e.base then [e]
  else
    (if e.base < lo then [⟨e.base, lo - e.base, e.tag⟩] else []) ++
    ((f e.tag).toList.map fun t => ⟨max e.base lo, min e.stop hi - max e.base lo, t⟩) ++
    (if hi < e.stop then [⟨hi, e.stop - hi, e.tag⟩] else [])

section Cut

variable {lo hi : ℕ} {f : α → Option α} {e p : Extent α}

/-- The parts of an extent: itself if it misses the window, and otherwise up to three. -/
theorem mem_cut_iff : p ∈ cut lo hi f e ↔ (e.stop ≤ lo ∨ hi ≤ e.base) ∧ p = e ∨
    (lo < e.stop ∧ e.base < hi) ∧ (e.base < lo ∧ p = ⟨e.base, lo - e.base, e.tag⟩ ∨
        (∃ t, f e.tag = some t ∧ p = ⟨max e.base lo, min e.stop hi - max e.base lo, t⟩) ∨
        hi < e.stop ∧ p = ⟨hi, e.stop - hi, e.tag⟩) := by
  rw [cut]
  split
  case isTrue hout =>
    have hnot : ¬ (lo < e.stop ∧ e.base < hi) := by omega
    simp [hout, hnot]
  case isFalse hin =>
    have hmeet : lo < e.stop ∧ e.base < hi := by omega
    simp only [hin, hmeet, false_and, true_and, false_or, mem_append, or_assoc,
      mem_ite_nil_right, mem_singleton, mem_map, Option.mem_toList, eq_comm]

/-- The tags inside the window are rewritten and all others are kept. -/
theorem tagged_cut_iff : (∃ p ∈ cut lo hi f e, p.Holds a ∧ p.tag = t) ↔
      e.Holds a ∧ if lo ≤ a ∧ a < hi then f e.tag = some t else e.tag = t := by
  simp only [mem_cut_iff, Extent.Holds, Extent.stop]
  constructor
  · rintro ⟨p, ⟨hmiss, rfl⟩ | ⟨hmeet, ⟨hlt, rfl⟩ | ⟨u, hu, rfl⟩ | ⟨hlt, rfl⟩⟩, hholds, rfl⟩
    · refine ⟨hholds, ?_⟩
      rw [if_neg (by omega)]
    · dsimp only at hholds
      refine ⟨by omega, ?_⟩
      rw [if_neg (by omega)]
    · dsimp only at hholds
      refine ⟨by omega, ?_⟩
      rw [if_pos (by omega), hu]
    · dsimp only at hholds
      refine ⟨by omega, ?_⟩
      rw [if_neg (by omega)]
  · rintro ⟨hholds, htag⟩
    by_cases hmiss : e.base + e.size ≤ lo ∨ hi ≤ e.base
    · rw [if_neg (by omega)] at htag
      exact ⟨e, .inl ⟨hmiss, rfl⟩, hholds, htag⟩
    · by_cases hin : lo ≤ a ∧ a < hi
      · rw [if_pos hin] at htag
        exact ⟨_, .inr ⟨by omega, .inr (.inl ⟨t, htag, rfl⟩)⟩, by dsimp only; omega, rfl⟩
      · rw [if_neg hin] at htag
        by_cases ha : a < lo
        · exact ⟨_, .inr ⟨by omega, .inl ⟨by omega, rfl⟩⟩, by dsimp only; omega, htag⟩
        · exact ⟨_, .inr ⟨by omega, .inr (.inr ⟨by omega, rfl⟩)⟩, by dsimp only; omega, htag⟩

/-- Every part lies in the extent, and its ends are those of the extent or the window. -/
theorem cut_bounds (hlohi : lo < hi) (hpos : 0 < e.size) (h : p ∈ cut lo hi f e) :
    0 < p.size ∧ e.base ≤ p.base ∧ p.stop ≤ e.stop ∧ (p.base = e.base ∨ p.base = lo ∨ p.base = hi) ∧
      (p.stop = e.stop ∨ p.stop = lo ∨ p.stop = hi) := by
  simp only [mem_cut_iff, Extent.stop] at h ⊢
  rcases h with ⟨-, rfl⟩ | ⟨hmeet, ⟨hlt, rfl⟩ | ⟨u, -, rfl⟩ | ⟨hlt, rfl⟩⟩
  · omega
  · dsimp only
    omega
  · dsimp only
    omega
  · dsimp only
    omega

theorem pairwise_cut (hlohi : lo < hi) : (cut lo hi f e).Pairwise fun p q => p.stop ≤ q.base := by
  rw [cut]
  split
  case isTrue => exact pairwise_singleton _ _
  case isFalse hmeet =>
    cases f e.tag <;> split <;> split <;>
      simp only [Option.toList, map_nil, map_cons, nil_append,
        cons_append, pairwise_cons, mem_cons, not_mem_nil,
        forall_eq_or_imp, Extent.stop, IsEmpty.forall_iff, implies_true, and_true,
        List.Pairwise.nil] <;>
      simp only [Extent.stop] at hmeet <;> omega

end Cut

/-- The tags between `lo` and `hi` are rewritten throughout. -/
def cutAll (lo hi : ℕ) (f : α → Option α) (xs : List (Extent α)) : List (Extent α) :=
  xs.flatMap (cut lo hi f)

section CutAll

variable {lo hi : ℕ} {f : α → Option α}

theorem Separated.cutAll (h : Separated xs) (hlohi : lo < hi) : Separated (cutAll lo hi f xs) := by
  refine ⟨?_, ?_⟩
  · rw [ExtentMap.cutAll, pairwise_flatMap]
    refine ⟨fun e _ => pairwise_cut hlohi,
      h.ascending.imp_of_mem fun {e e'} he he' hle p hp q hq => ?_⟩
    have hbounds := cut_bounds hlohi (h.nonempty e he) hp
    have hbounds' := cut_bounds hlohi (h.nonempty e' he') hq
    omega
  · intro p hp
    obtain ⟨e, he, hp⟩ := mem_flatMap.mp hp
    exact (cut_bounds hlohi (h.nonempty e he) hp).1

theorem tagAt_cutAll (h : Separated xs) (hlohi : lo < hi) : tagAt (cutAll lo hi f xs) a =
      if lo ≤ a ∧ a < hi then (tagAt xs a).bind f else tagAt xs a := by
  apply Option.ext
  intro t
  have hcut : Tagged (cutAll lo hi f xs) a t ↔
      ∃ e ∈ xs, e.Holds a ∧ if lo ≤ a ∧ a < hi then f e.tag = some t else e.tag = t := by
    simp only [Tagged, cutAll, mem_flatMap]
    constructor
    · rintro ⟨p, ⟨e, he, hp⟩, hholds, htag⟩
      exact ⟨e, he, tagged_cut_iff.mp ⟨p, hp, hholds, htag⟩⟩
    · rintro ⟨e, he, htag⟩
      obtain ⟨p, hp, hholds⟩ := tagged_cut_iff.mpr htag
      exact ⟨p, ⟨e, he, hp⟩, hholds⟩
  rw [tagAt_eq_some_iff (h.cutAll hlohi), hcut]
  split
  · simp only [Option.bind_eq_some_iff, tagAt_eq_some_iff h]
    constructor
    · rintro ⟨e, he, hholds, hf⟩
      exact ⟨e.tag, ⟨e, he, hholds, rfl⟩, hf⟩
    · rintro ⟨u, ⟨e, he, hholds, rfl⟩, hf⟩
      exact ⟨e, he, hholds, hf⟩
  · rw [tagAt_eq_some_iff h, Tagged]

end CutAll

/-! ## Adding an extent -/

/-- An extent that overlaps no other is added and the list is put in order. -/
theorem tagAt_of_perm_cons (hxs : Separated xs) (hys : Separated ys) (hperm : ys.Perm (e :: xs)) :
    tagAt ys a = if e.Holds a then some e.tag else tagAt xs a := by
  have hmem : ∀ f, f ∈ ys ↔ f = e ∨ f ∈ xs := fun f => hperm.mem_iff.trans mem_cons
  apply Option.ext
  intro t
  rw [tagAt_eq_some_iff hys]
  split
  case isTrue hholds =>
    constructor
    · rintro ⟨f, hf, hfa, rfl⟩
      rw [hys.eq_of_holds hf ((hmem e).mpr (.inl rfl)) hfa hholds]
    · intro ht
      exact ⟨e, (hmem e).mpr (.inl rfl), hholds, Option.some.inj ht⟩
  case isFalse hout =>
    rw [tagAt_eq_some_iff hxs]
    constructor
    · rintro ⟨f, hf, hfa, rfl⟩
      rcases (hmem f).mp hf with rfl | hf
      · exact absurd hfa hout
      · exact ⟨f, hf, hfa, rfl⟩
    · rintro ⟨f, hf, hfa, rfl⟩
      exact ⟨f, (hmem f).mpr (.inr hf), hfa, rfl⟩

end ExtentMap
