import Mathlib.Data.List.Basic

/-!
# Tables of records found by key

A table is a list of records of which some are in use (`live`) and the others are free.  A
record in use is found by its key, it is changed or freed where it stands (`replace`), and
a new one takes the first free place (`insertFree`).

As long as the keys of the records in use are distinct (`Distinct`), a table is a finite
map: the lemmas say what each operation does to `lookup`.
-/

namespace KeyedTable

open List

variable {α κ : Type} [DecidableEq κ] (live : α → Bool) (key : α → κ)

/-- The record in use under a key. -/
def lookup (t : List α) (k : κ) : Option α := t.find? fun a => live a && decide (key a = k)

/-- The record in use under a key is replaced. -/
def replace (k : κ) (b : α) : List α → List α
  | [] => []
  | a :: t => if live a && decide (key a = k) then b :: t else a :: replace k b t

/-- A record takes the first free place, if there is one. -/
def insertFree (b : α) : List α → Option (List α)
  | [] => none
  | a :: t => if live a then (insertFree b t).map (a :: ·) else some (b :: t)

/-- No two records in use have the same key. -/
def Distinct (t : List α) : Prop :=
  t.Pairwise fun a b => live a = true → live b = true → key a ≠ key b

variable {live key} {t t' : List α} {k k' : κ} {a b : α}

theorem lookup_eq_some (h : lookup live key t k = some a) : a ∈ t ∧ live a = true ∧ key a = k := by
  have hmatch := List.find?_some h
  simp only [Bool.and_eq_true, decide_eq_true_eq] at hmatch
  exact ⟨mem_of_find?_eq_some h, hmatch⟩

theorem lookup_eq_none : lookup live key t k = none ↔ ∀ a ∈ t, live a = true → key a ≠ k := by
  rw [lookup]
  simp

theorem lookup_cons : lookup live key (a :: t) k =
    if live a = true ∧ key a = k then some a else lookup live key t k := by
  rw [lookup, List.find?_cons]
  by_cases h : live a = true ∧ key a = k
  · rw [if_pos h]
    simp [h]
  · rw [if_neg h]
    have hfalse : (live a && decide (key a = k)) = false := by simpa using h
    rw [hfalse]
    rfl

/-- In a table of records that are not in use nothing is found. -/
theorem lookup_of_free (h : ∀ a ∈ t, live a = false) (k : κ) : lookup live key t k = none :=
  lookup_eq_none.mpr fun a ha hlive => absurd hlive (by rw [h a ha]; decide)

omit [DecidableEq κ] in
theorem distinct_of_free (h : ∀ a ∈ t, live a = false) : Distinct live key t := by
  induction t with
  | nil => exact List.Pairwise.nil
  | cons a t ih =>
    have hrest : ∀ b ∈ t, live b = false := fun b hb => h b (mem_cons_of_mem _ hb)
    refine pairwise_cons.mpr ⟨fun b _ ha => ?_, ih hrest⟩
    rw [h a mem_cons_self] at ha
    cases ha

/-! ## Replacing a record -/

theorem mem_replace {c : α} (h : c ∈ replace live key k b t) :
    c = b ∨ (c ∈ t ∧ (Distinct live key t → live c = true → key c ≠ k)) := by
  induction t with
  | nil => cases h
  | cons a t ih =>
    rw [replace] at h
    split at h
    case isTrue hmatch =>
      simp only [Bool.and_eq_true, decide_eq_true_eq] at hmatch
      rcases mem_cons.mp h with rfl | h
      · exact .inl rfl
      · refine .inr ⟨mem_cons_of_mem _ h, fun hdistinct hlive => ?_⟩
        have := (pairwise_cons.mp hdistinct).1 c h hmatch.1 hlive
        rw [hmatch.2] at this
        exact this.symm
    case isFalse hmatch =>
      simp only [Bool.and_eq_true, decide_eq_true_eq, not_and] at hmatch
      rcases mem_cons.mp h with rfl | h
      · exact .inr ⟨mem_cons_self, fun _ hlive => hmatch hlive⟩
      · rcases ih h with rfl | ⟨hc, hne⟩
        · exact .inl rfl
        · exact .inr ⟨mem_cons_of_mem _ hc, fun hdistinct =>
            hne (pairwise_cons.mp hdistinct).2⟩

/-- Other keys are not affected by a record that keeps its key. -/
theorem lookup_replace_of_ne (hk : k' ≠ k) (hb : live b = true → key b = k) :
    lookup live key (replace live key k b t) k' = lookup live key t k' := by
  have hnot : ¬ (live b = true ∧ key b = k') := fun h => hk (h.2.symm.trans (hb h.1))
  induction t with
  | nil => rfl
  | cons a t ih =>
    rw [replace]
    split
    case isTrue hmatch =>
      simp only [Bool.and_eq_true, decide_eq_true_eq] at hmatch
      rw [lookup_cons, lookup_cons, if_neg hnot, if_neg fun h => hk (h.2.symm.trans hmatch.2)]
    case isFalse => rw [lookup_cons, lookup_cons, ih]

theorem lookup_replace_live (h : lookup live key t k = some a) (hlive : live b = true)
    (hkey : key b = k) : lookup live key (replace live key k b t) k = some b := by
  induction t with
  | nil => cases h
  | cons c t ih =>
    rw [lookup_cons] at h
    rw [replace]
    by_cases hmatch : live c = true ∧ key c = k
    · rw [if_pos (by simpa using hmatch), lookup_cons, if_pos ⟨hlive, hkey⟩]
    · rw [if_neg hmatch] at h
      rw [if_neg (by simpa using hmatch), lookup_cons, if_neg hmatch, ih h]

theorem lookup_replace_free (hdistinct : Distinct live key t) (hfree : live b = false) :
    lookup live key (replace live key k b t) k = none := by
  rw [lookup_eq_none]
  intro c hc hlive
  rcases mem_replace hc with rfl | ⟨-, hne⟩
  · rw [hfree] at hlive
    cases hlive
  · exact hne hdistinct hlive

theorem Distinct.replace (hdistinct : Distinct live key t) (hb : live b = true → key b = k) :
    Distinct live key (replace live key k b t) := by
  induction t with
  | nil => exact List.Pairwise.nil
  | cons a t ih =>
    obtain ⟨hfirst, hrest⟩ := pairwise_cons.mp hdistinct
    rw [KeyedTable.replace]
    split
    case isTrue hmatch =>
      simp only [Bool.and_eq_true, decide_eq_true_eq] at hmatch
      refine pairwise_cons.mpr ⟨fun c hc hlive hlivec => ?_, hrest⟩
      rw [hb hlive, ← hmatch.2]
      exact hfirst c hc hmatch.1 hlivec
    case isFalse hmatch =>
      simp only [Bool.and_eq_true, decide_eq_true_eq, not_and] at hmatch
      refine pairwise_cons.mpr ⟨fun c hc hlive hlivec => ?_, ih hrest⟩
      rcases mem_replace hc with rfl | ⟨hct, -⟩
      · rw [hb hlivec]
        exact hmatch hlive
      · exact hfirst c hct hlive hlivec

/-! ## Inserting a record -/

theorem mem_insertFree {c : α} (h : insertFree live b t = some t') (hc : c ∈ t') :
    c = b ∨ c ∈ t := by
  induction t generalizing t' with
  | nil => cases h
  | cons a t ih =>
    rw [insertFree] at h
    split at h
    · obtain ⟨s, hs, rfl⟩ := Option.map_eq_some_iff.mp h
      rcases mem_cons.mp hc with rfl | hc
      · exact .inr mem_cons_self
      · exact (ih hs hc).imp_right (mem_cons_of_mem _)
    · cases h
      rcases mem_cons.mp hc with rfl | hc
      · exact .inl rfl
      · exact .inr (mem_cons_of_mem _ hc)

theorem lookup_insertFree (h : insertFree live b t = some t') (hlive : live b = true)
    (hnew : lookup live key t (key b) = none) (k : κ) :
    lookup live key t' k = if k = key b then some b else lookup live key t k := by
  induction t generalizing t' with
  | nil => cases h
  | cons a t ih =>
    rw [insertFree] at h
    split at h
    case isTrue ha =>
      obtain ⟨s, hs, rfl⟩ := Option.map_eq_some_iff.mp h
      rw [lookup_cons] at hnew
      by_cases hmatch : live a = true ∧ key a = key b
      · rw [if_pos hmatch] at hnew
        cases hnew
      · rw [if_neg hmatch] at hnew
        by_cases hk : k = key b
        · rw [if_pos hk, lookup_cons, if_neg (by rw [hk]; exact hmatch), ih hs hnew, if_pos hk]
        · rw [if_neg hk, lookup_cons, lookup_cons, ih hs hnew, if_neg hk]
    case isFalse ha =>
      cases h
      by_cases hk : k = key b
      · rw [if_pos hk, lookup_cons, if_pos ⟨hlive, hk.symm⟩]
      · rw [if_neg hk, lookup_cons, if_neg fun hmatch => hk hmatch.2.symm, lookup_cons,
          if_neg fun hmatch => ha hmatch.1]

theorem Distinct.insertFree (hdistinct : Distinct live key t)
    (h : insertFree live b t = some t') (hnew : lookup live key t (key b) = none) :
    Distinct live key t' := by
  rw [lookup_eq_none] at hnew
  induction t generalizing t' with
  | nil => cases h
  | cons a t ih =>
    obtain ⟨hfirst, hrest⟩ := pairwise_cons.mp hdistinct
    have hothers : ∀ c ∈ t, live c = true → key c ≠ key b :=
      fun c hc => hnew c (mem_cons_of_mem _ hc)
    rw [KeyedTable.insertFree] at h
    split at h
    · obtain ⟨s, hs, rfl⟩ := Option.map_eq_some_iff.mp h
      refine pairwise_cons.mpr ⟨fun c hc hlive hlivec => ?_, ih hrest hs hothers⟩
      rcases mem_insertFree hs hc with rfl | hc
      · exact hnew a mem_cons_self hlive
      · exact hfirst c hc hlive hlivec
    · cases h
      exact pairwise_cons.mpr ⟨fun c hc _ hlivec => (hothers c hc hlivec).symm, hrest⟩

end KeyedTable
