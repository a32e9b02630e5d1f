import Mathlib.Data.List.Basic

/-!
# A store behind a volatile write cache

A store keeps a durable value for every address and a list of accepted writes
that are not durable yet.  Reads see the accepted writes (`Store.visible`).  A
flush makes all of them durable.  When the power fails an arbitrary subset of
them is durable and the rest is gone.

What a power failure can leave behind is described address by address:
`Store.IsImage d m` says that every address of `m` holds its durable value or
the value of some accepted write to it; whatever subset of the writes is kept
(`Store.cut`) leaves such contents.  All crash reasoning is about the set of
images: a write enlarges it (`Store.within_writeAll`), every other event of the
store shrinks it (`Store.within_cut`).
-/

namespace CachedStorage

open List

variable {V : Type*}

/-! ## Applying writes -/

/-- The contents `m` after the writes `ws`, oldest first. -/
def overwrite (m : ℕ → V) (ws : List (ℕ × V)) : ℕ → V :=
  ws.foldl (fun m w => Function.update m w.1 w.2) m

@[simp] theorem overwrite_cons (m : ℕ → V) (w : ℕ × V) (ws : List (ℕ × V)) :
    overwrite m (w :: ws) = overwrite (Function.update m w.1 w.2) ws := rfl

/-- An address no write touches keeps its value. -/
theorem overwrite_of_forall_ne {m : ℕ → V} {ws : List (ℕ × V)} {i : ℕ}
    (h : ∀ w ∈ ws, w.1 ≠ i) : overwrite m ws i = m i := by
  induction ws generalizing m with
  | nil => rfl
  | cons w ws ih =>
    rw [overwrite_cons, ih fun v hv => h v (mem_cons_of_mem _ hv)]
    exact Function.update_of_ne (h w mem_cons_self).symm _ _

/-- An address holds its old value or the value of some write to it. -/
theorem overwrite_eq_or_mem (m : ℕ → V) (ws : List (ℕ × V)) (i : ℕ) :
    overwrite m ws i = m i ∨ (i, overwrite m ws i) ∈ ws := by
  induction ws generalizing m with
  | nil => exact Or.inl rfl
  | cons w ws ih =>
    rw [overwrite_cons]
    rcases ih (Function.update m w.1 w.2) with hold | hmem
    · rw [hold]
      by_cases hi : i = w.1
      · subst hi
        right
        rw [Function.update_self]
        exact mem_cons_self
      · left
        exact Function.update_of_ne hi _ _
    · exact Or.inr (mem_cons_of_mem _ hmem)

/-- If all writes to `i` carry the value `v` and there is one, then `i` holds `v`. -/
theorem overwrite_of_forall_eq {m : ℕ → V} {ws : List (ℕ × V)} {i : ℕ} {v : V}
    (hmem : ∃ w ∈ ws, w.1 = i) (heq : ∀ w ∈ ws, w.1 = i → w.2 = v) : overwrite m ws i = v := by
  induction ws generalizing m with
  | nil => simp at hmem
  | cons w ws ih =>
    rw [overwrite_cons]
    by_cases htail : ∃ u ∈ ws, u.1 = i
    · exact ih htail fun u hu => heq u (mem_cons_of_mem _ hu)
    · rw [overwrite_of_forall_ne fun u hu hui => htail ⟨u, hu, hui⟩]
      obtain ⟨u, hu, hui⟩ := hmem
      rcases mem_cons.mp hu with rfl | hu
      · subst hui
        rw [Function.update_self]
        exact heq u mem_cons_self rfl
      · exact absurd ⟨u, hu, hui⟩ htail

/-! ## The store -/

/-- Durable contents, and the accepted writes that are not durable yet, oldest
first. -/
structure Store (V : Type*) where
  durable : ℕ → V
  pending : List (ℕ × V)

namespace Store

/-- What a read sees: the durable contents under the accepted writes. -/
def visible (d : Store V) : ℕ → V := overwrite d.durable d.pending

/-- Accept the writes `ws`. -/
def writeAll (d : Store V) (ws : List (ℕ × V)) : Store V :=
  { d with pending := d.pending ++ ws }

/-- Make every accepted write durable. -/
def flush (d : Store V) : Store V := ⟨d.visible, []⟩

/-- A failed command leaves the accepted writes picked by `stored` durable and
those picked by `held` in the cache; the others are lost. -/
def resolve (stored held : ℕ × V → Bool) (d : Store V) : Store V :=
  ⟨overwrite d.durable (d.pending.filter stored), d.pending.filter held⟩

/-- Power failure: of the accepted writes exactly those picked by `kept` are
durable afterwards. -/
def cut (kept : ℕ × V → Bool) (d : Store V) : Store V :=
  ⟨overwrite d.durable (d.pending.filter kept), []⟩

theorem flush_of_pending_nil {d : Store V} (h : d.pending = []) : d.flush = d := by
  cases d with
  | mk durable pending =>
    cases h
    rfl

@[simp] theorem writeAll_nil (d : Store V) : d.writeAll [] = d := by
  simp [writeAll]

theorem writeAll_append (d : Store V) (ws vs : List (ℕ × V)) :
    d.writeAll (ws ++ vs) = (d.writeAll ws).writeAll vs := by
  simp [writeAll]

theorem visible_writeAll (d : Store V) (ws : List (ℕ × V)) :
    (d.writeAll ws).visible = overwrite d.visible ws :=
  foldl_append

/-! ## Images -/

/-- `m` is a possible content after a power failure: every address holds its
durable value or the value of an accepted write to it. -/
def IsImage (d : Store V) (m : ℕ → V) : Prop :=
  ∀ i, m i = d.durable i ∨ (i, m i) ∈ d.pending

/-- Every image of `d'` is an image of `d`: from `d` the store has only lost
possibilities. -/
def Within (d d' : Store V) : Prop := ∀ m, d'.IsImage m → d.IsImage m

theorem isImage_durable (d : Store V) : d.IsImage d.durable := fun _ => Or.inl rfl

theorem isImage_visible (d : Store V) : d.IsImage d.visible := fun i =>
  overwrite_eq_or_mem d.durable d.pending i

@[simp] theorem isImage_mk_nil {m n : ℕ → V} : IsImage ⟨m, []⟩ n ↔ n = m := by
  simp [IsImage, funext_iff]

/-- An address without accepted writes keeps its durable value in every image. -/
theorem IsImage.eq_durable {d : Store V} {m : ℕ → V} (h : d.IsImage m) {i : ℕ}
    (hi : ∀ w ∈ d.pending, w.1 ≠ i) : m i = d.durable i :=
  (h i).resolve_right fun hmem => hi _ hmem rfl

theorem Within.refl (d : Store V) : Within d d := fun _ h => h

theorem Within.trans {d₁ d₂ d₃ : Store V} (h : Within d₁ d₂) (h' : Within d₂ d₃) :
    Within d₁ d₃ := fun m hm => h m (h' m hm)

theorem within_writeAll (d : Store V) (ws : List (ℕ × V)) : Within (d.writeAll ws) d := by
  intro m hm i
  rcases hm i with hdur | hmem
  · exact Or.inl hdur
  · exact Or.inr (mem_append_left _ hmem)

theorem within_flush (d : Store V) : Within d d.flush := by
  intro m hm
  rw [flush, isImage_mk_nil] at hm
  rw [hm]
  exact d.isImage_visible

theorem within_resolve (stored held : ℕ × V → Bool) (d : Store V) :
    Within d (d.resolve stored held) := by
  intro m hm i
  rcases hm i with hdur | hmem
  · simp only [resolve] at hdur
    rcases overwrite_eq_or_mem d.durable (d.pending.filter stored) i with hold | hmem
    · exact Or.inl (hdur.trans hold)
    · rw [← hdur] at hmem
      exact Or.inr (mem_of_mem_filter hmem)
  · exact Or.inr (mem_of_mem_filter hmem)

theorem within_cut (kept : ℕ × V → Bool) (d : Store V) : Within d (d.cut kept) :=
  within_resolve kept (fun _ => false) d |>.trans fun m hm i => by
    simpa [resolve, cut] using hm i

end Store

end CachedStorage
