import Mathlib.Data.List.Basic
import Mathlib.Data.Set.Basic

/-!
# Slot arenas and undo logs

An arena is a list of slots addressed by position; a free slot holds nothing and
reading past the end finds nothing either (`Arena.get`).  Entries are published
with `put`, which grows the arena up to the slot, and overwritten in place with
`List.set`.

The second part is an undo log over such an arena.  It consists of the length the
arena had at the start and of copies of slots, each taken by `save` before the slot
is first written; `restore` cuts the arena back to the old length and writes the
copies over it.  `Covers` is what the log has to know to succeed: every old slot
that is not saved still has its old content.  It holds at the start (`Covers.refl`),
saving keeps it (`Covers.save`), and so does any change confined to saved and new
slots (`Covers.change`).
-/

namespace Arena

open List

variable {α : Type*} {cells cells' : List (Option α)} {i : ℕ}

/-- The entry in slot `i`. -/
def get (cells : List (Option α)) (i : ℕ) : Option α := (cells[i]?).join

/-- Free slots are added until there are at least `n`. -/
def grow (cells : List (Option α)) (n : ℕ) : List (Option α) :=
  cells ++ List.replicate (n - cells.length) none

/-- An entry is put into slot `i`, past the end if need be. -/
def put (cells : List (Option α)) (i : ℕ) (a : α) : List (Option α) :=
  (grow cells (i + 1)).set i (some a)

theorem lt_length_of_get {a : α} (h : get cells i = some a) : i < cells.length := by
  by_contra hlt
  rw [get, List.getElem?_eq_none (not_lt.mp hlt)] at h
  cases h

@[simp] theorem get_nil (i : ℕ) : get ([] : List (Option α)) i = none := rfl

theorem get_of_length_le (h : cells.length ≤ i) : get cells i = none := by
  rw [get, List.getElem?_eq_none h, Option.join_none]

theorem length_grow (cells : List (Option α)) (n : ℕ) :
    (grow cells n).length = max cells.length n := by
  simp only [grow, length_append, length_replicate]
  omega

@[simp] theorem get_grow (cells : List (Option α)) (n i : ℕ) :
    get (grow cells n) i = get cells i := by
  by_cases h : i < cells.length
  · rw [get, grow, List.getElem?_append_left h, get]
  · rw [get_of_length_le (not_lt.mp h), get, grow, List.getElem?_append_right (not_lt.mp h),
      List.getElem?_replicate]
    split <;> rfl

theorem get_set (h : i < cells.length) (c : Option α) (j : ℕ) :
    get (cells.set i c) j = if j = i then c else get cells j := by
  rw [get, List.getElem?_set]
  by_cases hj : j = i
  · subst hj
    simp [h]
  · rw [if_neg (Ne.symm hj), if_neg hj, get]

@[simp] theorem length_put (cells : List (Option α)) (i : ℕ) (a : α) :
    (put cells i a).length = max cells.length (i + 1) := by
  rw [put, length_set, length_grow]

@[simp] theorem get_put (cells : List (Option α)) (i : ℕ) (a : α) (j : ℕ) :
    get (put cells i a) j = if j = i then some a else get cells j := by
  rw [put, get_set (by rw [length_grow]; omega), get_grow]

/-! ## Changes confined to some slots -/

/-- Outside `slots`, every slot of the first arena is unchanged in the second. -/
structure ChangedIn (slots : Set ℕ) (cells cells' : List (Option α)) : Prop where
  length_le : cells.length ≤ cells'.length
  same : ∀ i < cells.length, i ∉ slots → cells'[i]? = cells[i]?

namespace ChangedIn

variable {slots : Set ℕ} {cells cells' cells'' : List (Option α)}

theorem refl (slots : Set ℕ) (cells : List (Option α)) : ChangedIn slots cells cells :=
  ⟨le_rfl, fun _ _ _ => rfl⟩

theorem trans (h : ChangedIn slots cells cells') (h' : ChangedIn slots cells' cells'') :
    ChangedIn slots cells cells'' where
  length_le := h.length_le.trans h'.length_le
  same i hi hn := by
    rw [h'.same i (hi.trans_le h.length_le) hn, h.same i hi hn]

/-- Overwriting one of the slots. -/
theorem set {i : ℕ} (hi : i ∈ slots) (c : Option α) : ChangedIn slots cells (cells.set i c) where
  length_le := by rw [length_set]
  same j _ hn := by
    have hne : i ≠ j := fun hij => hn (hij ▸ hi)
    rw [List.getElem?_set_ne hne]

/-- Publishing past the end touches no old slot. -/
theorem put {i : ℕ} (hi : cells.length ≤ i) (a : α) : ChangedIn slots cells (put cells i a) where
  length_le := by rw [length_put]; omega
  same j hj _ := by
    rw [Arena.put, List.getElem?_set_ne (by omega), grow, List.getElem?_append_left hj]

end ChangedIn

/-! ## The undo log -/

/-- A copy of slot `i` is taken, unless it is new or has been copied already.  An old
slot that no longer exists cannot be copied. -/
def save (length : ℕ) (saved : List (ℕ × Option α)) (cells : List (Option α)) (i : ℕ) :
    Option (List (ℕ × Option α)) :=
  if length ≤ i ∨ saved.any fun s => s.1 == i then some saved
  else (cells[i]?).map fun c => saved ++ [(i, c)]

/-- A copy is written back into its slot, which has to exist. -/
def writeBack (cells : List (Option α)) (s : ℕ × Option α) : Option (List (Option α)) :=
  if s.1 < cells.length then some (cells.set s.1 s.2) else none

/-- The arena is cut to the old length and the copies are written back. -/
def restore (length : ℕ) (saved : List (ℕ × Option α)) (cells : List (Option α)) :
    Option (List (Option α)) :=
  saved.foldlM writeBack (cells.take length)

theorem length_writeBack {s : ℕ × Option α}
    (h : writeBack cells s = some cells') : cells'.length = cells.length := by
  rw [writeBack] at h
  split at h
  · rw [← Option.some.inj h, length_set]
  · cases h

theorem length_foldlM_writeBack {saved : List (ℕ × Option α)}
    (h : saved.foldlM writeBack cells = some cells') : cells'.length = cells.length := by
  induction saved generalizing cells with
  | nil => rw [← Option.some.inj h]
  | cons s saved ih =>
    obtain ⟨mid, hmid, hrest⟩ := Option.bind_eq_some_iff.mp h
    rw [ih hrest, length_writeBack hmid]

/-- Whatever was saved, the restored arena is no longer than the old one. -/
theorem length_restore_le {length : ℕ} {saved : List (ℕ × Option α)}
    (h : restore length saved cells = some cells') : cells'.length ≤ length := by
  rw [length_foldlM_writeBack h]
  exact length_take_le _ _

/-- The log `saved` suffices to get from `cells` back to `original`. -/
structure Covers (original : List (Option α)) (saved : List (ℕ × Option α))
    (cells : List (Option α)) : Prop where
  length_le : original.length ≤ cells.length
  saved_eq : ∀ s ∈ saved, original[s.1]? = some s.2
  unsaved_eq : ∀ i < original.length, (∀ s ∈ saved, s.1 ≠ i) → cells[i]? = original[i]?

namespace Covers

variable {original cells cells' : List (Option α)} {saved : List (ℕ × Option α)}

theorem refl (original : List (Option α)) : Covers original [] original :=
  ⟨le_rfl, fun _ hs => absurd hs not_mem_nil, fun _ _ _ => rfl⟩

/-- Saving a slot succeeds, and the slot may be written afterwards. -/
theorem save (h : Covers original saved cells) (i : ℕ) :
    ∃ saved', save original.length saved cells i = some saved' ∧ Covers original saved' cells ∧
      saved ⊆ saved' ∧ (i < original.length → ∃ s ∈ saved', s.1 = i) := by
  rw [Arena.save]
  split
  case isTrue hskip =>
    refine ⟨saved, rfl, h, fun _ hs => hs, fun hi => ?_⟩
    rcases hskip with hnew | hany
    · exact absurd hi (not_lt.mpr hnew)
    · obtain ⟨s, hs, hsi⟩ := any_eq_true.mp hany
      exact ⟨s, hs, beq_iff_eq.mp hsi⟩
  case isFalse hsave =>
    obtain ⟨hlt, hany⟩ := not_or.mp hsave
    have hunsaved : ∀ s ∈ saved, s.1 ≠ i := fun s hs hsi =>
      hany (any_eq_true.mpr ⟨s, hs, beq_iff_eq.mpr hsi⟩)
    have horig := h.unsaved_eq i (not_le.mp hlt) hunsaved
    rw [horig, List.getElem?_eq_getElem (not_le.mp hlt)]
    refine ⟨_, rfl, ⟨h.length_le, ?_, ?_⟩, fun _ hs => mem_append_left _ hs, fun _ =>
      ⟨_, mem_append_right _ (mem_singleton_self _), rfl⟩⟩
    · intro s hs
      rcases mem_append.mp hs with hs | hs
      · exact h.saved_eq s hs
      · rw [mem_singleton.mp hs]
        exact List.getElem?_eq_getElem (not_le.mp hlt)
    · intro j hj hn
      exact h.unsaved_eq j hj fun s hs => hn s (mem_append_left _ hs)

/-- Saved slots and slots past the old end may change freely. -/
theorem change (h : Covers original saved cells) {slots : Set ℕ}
    (hchange : ChangedIn slots cells cells')
    (hslots : ∀ i ∈ slots, i < original.length → ∃ s ∈ saved, s.1 = i) :
    Covers original saved cells' where
  length_le := h.length_le.trans hchange.length_le
  saved_eq := h.saved_eq
  unsaved_eq i hi hn := by
    have hout : i ∉ slots := by
      intro hmem
      obtain ⟨s, hs, hsi⟩ := hslots i hmem hi
      exact hn s hs hsi
    rw [hchange.same i (hi.trans_le h.length_le) hout, h.unsaved_eq i hi hn]

/-- Writing copies over an arena that agrees with the original outside of them. -/
theorem foldlM_writeBack (hlen : cells.length = original.length)
    (hsaved : ∀ s ∈ saved, original[s.1]? = some s.2)
    (hrest : ∀ i < original.length, (∀ s ∈ saved, s.1 ≠ i) → cells[i]? = original[i]?) :
    saved.foldlM writeBack cells = some original := by
  induction saved generalizing cells with
  | nil =>
    have heq : cells = original := by
      apply ext_getElem?
      intro i
      by_cases hi : i < original.length
      · exact hrest i hi fun _ hs => absurd hs not_mem_nil
      · rw [List.getElem?_eq_none (by omega), List.getElem?_eq_none (by omega)]
    rw [heq]
    rfl
  | cons s saved ih =>
    have hs := hsaved s mem_cons_self
    have hlt : s.1 < cells.length := by
      rw [hlen]
      exact (List.getElem?_eq_some_iff.mp hs).1
    rw [foldlM_cons, writeBack, if_pos hlt]
    refine ih (by rw [length_set, hlen]) (fun t ht => hsaved t (mem_cons_of_mem _ ht))
      fun i hi hn => ?_
    by_cases hsi : s.1 = i
    · rw [← hsi, List.getElem?_set_self hlt, hs]
    · rw [List.getElem?_set_ne hsi]
      refine hrest i hi fun t ht => ?_
      rcases mem_cons.mp ht with rfl | ht
      · exact hsi
      · exact hn t ht

/-- A log that covers the changes restores the arena. -/
theorem restore (h : Covers original saved cells) :
    restore original.length saved cells = some original := by
  apply foldlM_writeBack
  · rw [length_take, min_eq_left h.length_le]
  · exact h.saved_eq
  · intro i hi hn
    rw [List.getElem?_take_of_lt hi, h.unsaved_eq i hi hn]

end Covers

end Arena
