import Mathlib.Data.List.Nodup

/-!
# Stores of records that exclude each other

A store is a list of records with distinct keys.  A record can be taken out of use without
leaving its place, and a record can be put in, over the one that has its key.  Records in use
must be compatible in pairs, for a relation that is the user's own (`Exclusive`).

The lemmas say what keeps a store exclusive: taking records out of use (`Shrinks`), and
putting in records that are compatible with what is in use and with each other (`putAll`).
-/

namespace Exclusion

open List

variable {α κ : Type} [DecidableEq κ] (key : α → κ) (live : α → Bool) (R : α → α → Prop)
  {bs : List α} {f : α → α}

/-- A record takes the place of the one with its key, or the place after the last. -/
def put (b : α) : List α → List α
  | [] => [b]
  | a :: t => if key a = key b then b :: t else a :: put b t

/-- Records are put in one after another. -/
def putAll (bs : List α) (t : List α) : List α := bs.foldl (fun t b => put key b t) t

/-- The first record that a predicate finds is changed. -/
def modifyFirst (p : α → Bool) (f : α → α) : List α → List α
  | [] => []
  | a :: t => if p a then f a :: t else a :: modifyFirst p f t

/-- The records in use are compatible in pairs. -/
def Exclusive (t : List α) : Prop :=
  ∀ a ∈ t, ∀ b ∈ t, live a = true → live b = true → key a ≠ key b → R a b

/-- Records were only taken out of use. -/
structure Shrinks (t t' : List α) : Prop where
  keys : t'.map key = t.map key
  live : ∀ a ∈ t', live a = true → a ∈ t

/-- A store: distinct keys, and records in use that are valid and compatible in pairs. -/
structure Sound (V : α → Prop) (t : List α) : Prop where
  keys : (t.map key).Nodup
  valid : ∀ a ∈ t, live a = true → V a
  exclusive : Exclusive key live R t

variable {key live R} {V : α → Prop} {t t' t'' : List α} {a b : α}

section

variable (hkeys : (t.map key).Nodup)
include hkeys

theorem mem_put : a ∈ put key b t ↔ a = b ∨ (a ∈ t ∧ key a ≠ key b) := by
  induction t with
  | nil => simp [put]
  | cons c t ih =>
    rw [map_cons, nodup_cons] at hkeys
    rw [put]
    by_cases hc : key c = key b
    · -- the keys are distinct, so no other record of the tail has this key
      have htail : ∀ x ∈ t, key x ≠ key b := fun x hx hxb =>
        hkeys.1 (mem_map.mpr ⟨x, hx, hxb.trans hc.symm⟩)
      rw [if_pos hc, mem_cons]
      constructor
      · rintro (rfl | hat)
        · exact .inl rfl
        · exact .inr ⟨mem_cons_of_mem _ hat, htail a hat⟩
      · rintro (rfl | ⟨hact, hne⟩)
        · exact .inl rfl
        · rcases mem_cons.mp hact with rfl | hat
          · exact absurd hc hne
          · exact .inr hat
    · rw [if_neg hc, mem_cons, ih hkeys.2]
      constructor
      · rintro (rfl | rfl | ⟨hat, hne⟩)
        · exact .inr ⟨mem_cons_self, hc⟩
        · exact .inl rfl
        · exact .inr ⟨mem_cons_of_mem _ hat, hne⟩
      · rintro (rfl | ⟨hact, hne⟩)
        · exact .inr (.inl rfl)
        · rcases mem_cons.mp hact with rfl | hat
          · exact .inl rfl
          · exact .inr (.inr ⟨hat, hne⟩)

theorem nodup_put : ((put key b t).map key).Nodup := by
  induction t with
  | nil => simp [put]
  | cons c t ih =>
    rw [map_cons, nodup_cons] at hkeys
    rw [put]
    by_cases hc : key c = key b
    · rw [if_pos hc, map_cons, nodup_cons, ← hc]
      exact hkeys
    · rw [if_neg hc, map_cons, nodup_cons]
      refine ⟨fun hmem => ?_, ih hkeys.2⟩
      obtain ⟨x, hx, hxc⟩ := mem_map.mp hmem
      rcases (mem_put hkeys.2).mp hx with rfl | ⟨hxt, -⟩
      · exact hc hxc.symm
      · exact hkeys.1 (mem_map.mpr ⟨x, hxt, hxc⟩)

/-- What is put in under distinct keys is there, with the records of other keys. -/
theorem mem_putAll (hbs : (bs.map key).Nodup) :
    a ∈ putAll key bs t ↔ a ∈ bs ∨ (a ∈ t ∧ key a ∉ bs.map key) := by
  induction bs generalizing t with
  | nil => simp [putAll]
  | cons b bs ih =>
    rw [map_cons, nodup_cons] at hbs
    have hput : a ∈ putAll key (b :: bs) t ↔ a ∈ putAll key bs (put key b t) := Iff.rfl
    rw [hput, ih (nodup_put hkeys) hbs.2, mem_put hkeys, map_cons, mem_cons, mem_cons, not_or]
    constructor
    · rintro (habs | ⟨rfl | ⟨hat, hne⟩, hnot⟩)
      · exact .inl (.inr habs)
      · exact .inl (.inl rfl)
      · exact .inr ⟨hat, hne, hnot⟩
    · rintro ((rfl | habs) | ⟨hat, hne, hnot⟩)
      · exact .inr ⟨.inl rfl, hbs.1⟩
      · exact .inl habs
      · exact .inr ⟨.inr ⟨hat, hne⟩, hnot⟩

theorem nodup_putAll : ((putAll key bs t).map key).Nodup := by
  induction bs generalizing t with
  | nil => exact hkeys
  | cons b bs ih => exact ih (nodup_put hkeys)

end

/-- A record that is compatible with the others in use is put in. -/
theorem Exclusive.put (h : Exclusive key live R t) (hkeys : (t.map key).Nodup)
    (hsymm : ∀ x y, R x y → R y x)
    (hb : ∀ a ∈ t, live a = true → R b a) : Exclusive key live R (put key b t) := by
  intro x hx y hy hlx hly hne
  rcases (mem_put hkeys).mp hx with rfl | ⟨hxt, hxb⟩
  · rcases (mem_put hkeys).mp hy with rfl | ⟨hyt, -⟩
    · exact absurd rfl hne
    · exact hb y hyt hly
  · rcases (mem_put hkeys).mp hy with rfl | ⟨hyt, hyb⟩
    · exact hsymm _ _ (hb x hxt hlx)
    · exact h x hxt y hyt hlx hly hne

/-- What holds of the records in use, and of those that are put in, holds of all in use. -/
theorem forall_putAll {P : α → Prop} (hkeys : (t.map key).Nodup) (ht : ∀ a ∈ t, live a = true → P a)
    (hbs : ∀ b ∈ bs, P b) :
    ((putAll key bs t).map key).Nodup ∧ ∀ a ∈ putAll key bs t, live a = true → P a := by
  induction bs generalizing t with
  | nil => exact ⟨hkeys, ht⟩
  | cons b bs ih =>
    refine ih (nodup_put hkeys) (fun a ha hlive => ?_) fun c hc => hbs c (mem_cons_of_mem _ hc)
    rcases (mem_put hkeys).mp ha with rfl | ⟨hat, -⟩
    · exact hbs _ mem_cons_self
    · exact ht a hat hlive

/-- Several records, compatible with each other, are put in. -/
theorem Exclusive.putAll (h : Exclusive key live R t) (hkeys : (t.map key).Nodup)
    (hsymm : ∀ x y, R x y → R y x) (hbs : bs.Pairwise R)
    (hb : ∀ b ∈ bs, ∀ a ∈ t, live a = true → R b a) : Exclusive key live R (putAll key bs t) := by
  induction bs generalizing t with
  | nil => exact h
  | cons b bs ih =>
    obtain ⟨hfirst, hrest⟩ := pairwise_cons.mp hbs
    refine ih (h.put hkeys hsymm (hb b mem_cons_self)) (nodup_put hkeys) hrest ?_
    intro c hc a ha hlive
    rcases (mem_put hkeys).mp ha with rfl | ⟨hat, -⟩
    · exact hsymm _ _ (hfirst c hc)
    · exact hb c (mem_cons_of_mem _ hc) a hat hlive

omit [DecidableEq κ] in
theorem Shrinks.refl (t : List α) : Shrinks key live t t := ⟨rfl, fun _ ha _ => ha⟩

omit [DecidableEq κ] in
theorem Shrinks.trans (h : Shrinks key live t t') (h' : Shrinks key live t' t'') :
    Shrinks key live t t'' :=
  ⟨h'.keys.trans h.keys, fun a ha hlive => h.live a (h'.live a ha hlive) hlive⟩

omit [DecidableEq κ] in
theorem Shrinks.nodup (h : Shrinks key live t t') (hkeys : (t.map key).Nodup) :
    (t'.map key).Nodup := by
  rw [h.keys]
  exact hkeys

omit [DecidableEq κ] in
theorem Exclusive.shrink (h : Exclusive key live R t) (hs : Shrinks key live t t') :
    Exclusive key live R t' :=
  fun a ha b hb hla hlb => h a (hs.live a ha hla) b (hs.live b hb hlb) hla hlb

omit [DecidableEq κ] in
/-- Records are taken out of use by a function that keeps the keys. -/
theorem shrinks_map (hkey : ∀ a, key (f a) = key a)
    (hlive : ∀ a, live (f a) = true → f a = a) : Shrinks key live t (t.map f) := by
  refine ⟨?_, fun a ha hla => ?_⟩
  · rw [map_map]
    exact map_congr_left fun a _ => hkey a
  · obtain ⟨x, hx, rfl⟩ := mem_map.mp ha
    rw [hlive x hla]
    exact hx

omit [DecidableEq κ] in
/-- One record is taken out of use. -/
theorem shrinks_set {i : ℕ} (ha : t[i]? = some a) (hkey : key b = key a) (hdead : live b = false) :
    Shrinks key live t (t.set i b) := by
  refine ⟨?_, fun x hx hlx => ?_⟩
  · rw [map_set, hkey]
    obtain ⟨hi, rfl⟩ := List.getElem?_eq_some_iff.mp ha
    rw [← getElem_map key (h := by rw [length_map]; exact hi), set_getElem_self]
  · rcases mem_or_eq_of_mem_set hx with hx | rfl
    · exact hx
    · rw [hdead] at hlx
      cases hlx

omit [DecidableEq κ] in
theorem shrinks_modifyFirst {p : α → Bool} (hkey : ∀ a, key (f a) = key a)
    (hdead : ∀ a, live (f a) = false) : Shrinks key live t (modifyFirst p f t) := by
  induction t with
  | nil => exact .refl _
  | cons c t ih =>
    rw [modifyFirst]
    split
    · refine ⟨by rw [map_cons, map_cons, hkey], fun a ha hlive => ?_⟩
      rcases mem_cons.mp ha with rfl | hat
      · rw [hdead] at hlive
        cases hlive
      · exact mem_cons_of_mem _ hat
    · refine ⟨by rw [map_cons, map_cons, ih.keys], fun a ha hlive => ?_⟩
      rcases mem_cons.mp ha with rfl | hat
      · exact mem_cons_self
      · exact mem_cons_of_mem _ (ih.live a hat hlive)

omit [DecidableEq κ] in
/-- The records that the predicate does not find stay. -/
theorem mem_modifyFirst_of_not {p : α → Bool} (ha : a ∈ t) (hp : p a = false) :
    a ∈ modifyFirst p f t := by
  induction t with
  | nil => exact absurd ha not_mem_nil
  | cons c t ih =>
    rw [modifyFirst]
    rcases mem_cons.mp ha with rfl | hat
    · simp [hp]
    · split
      · exact mem_cons_of_mem _ hat
      · exact mem_cons_of_mem _ (ih hat)

/-! ## Stores -/

omit [DecidableEq κ] in
theorem Sound.empty : Sound key live R V [] :=
  ⟨nodup_nil, fun _ ha => absurd ha not_mem_nil, fun _ ha => absurd ha not_mem_nil⟩

omit [DecidableEq κ] in
theorem Sound.shrink (h : Sound key live R V t) (hs : Shrinks key live t t') :
    Sound key live R V t' :=
  ⟨hs.nodup h.keys, fun a ha hlive => h.valid a (hs.live a ha hlive) hlive, h.exclusive.shrink hs⟩

theorem Sound.putAll (h : Sound key live R V t) (hsymm : ∀ x y, R x y → R y x)
    (hvalid : ∀ b ∈ bs, V b) (hbs : bs.Pairwise R)
    (hb : ∀ b ∈ bs, ∀ a ∈ t, live a = true → R b a) : Sound key live R V (putAll key bs t) := by
  obtain ⟨hkeys, hall⟩ := forall_putAll h.keys h.valid hvalid
  exact ⟨hkeys, hall, h.exclusive.putAll h.keys hsymm hbs hb⟩

theorem Sound.put (h : Sound key live R V t) (hsymm : ∀ x y, R x y → R y x) (hvalid : V b)
    (hb : ∀ a ∈ t, live a = true → R b a) : Sound key live R V (put key b t) := by
  have hbs : ∀ c ∈ [b], V c := by simpa using hvalid
  refine h.putAll hsymm hbs (pairwise_singleton R b) ?_
  simpa using hb

omit [DecidableEq κ] in
/-- The records at two places of an exclusive store. -/
theorem Exclusive.pairwise (h : Exclusive key live R t) (hkeys : (t.map key).Nodup) :
    t.Pairwise fun a b => live a = true → live b = true → R a b := by
  have hne : t.Pairwise fun a b => key a ≠ key b := by
    rwa [List.Nodup, pairwise_map] at hkeys
  exact hne.imp_of_mem fun ha hb hkey hla hlb => h _ ha _ hb hla hlb hkey

end Exclusion
