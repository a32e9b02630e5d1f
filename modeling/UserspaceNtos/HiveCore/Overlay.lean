import UserspaceNtos.HiveCore.Hive

/-!
# The write overlay of a hive

`RegistryOverlay` keeps created keys in a flat list of slots under their canonical paths.  Which
keys lie below a path is read off the texts of the paths.  For the children of a key the text
of the root is treated apart (`immediateChild_eq_some_iff`); for unloading it is not, and a
subtree is detached as a whole unless it is that of the root (`detachSubtree_exact_iff`).
-/

namespace UserspaceNtos.HiveCore

open List

/-- A path as `canon_path` leaves it: its components, none empty or with a backslash. -/
structure CanonPath where
  parts : List Str
  valid : ∀ part ∈ parts, part ≠ [] ∧ '\\' ∉ part
  deriving DecidableEq

/-- The text of the path; that of the root is a backslash. -/
def CanonPath.text (path : CanonPath) : Str :=
  if path.parts = [] then ['\\'] else joined path.parts

variable {V : Type}

/-- `OverlayKey` -/
structure OverlayKey (V : Type) where
  path : CanonPath
  values : List V
  detached : Bool

/-- `RegistryOverlay` -/
structure RegistryOverlay (V : Type) where
  keys : List (OverlayKey V)

/-- The test of `detach_subtree` on the texts of two paths. -/
def under (path canon : Str) : Bool :=
  path == canon ||
    (canon.length < path.length && canon.isPrefixOf path && path[canon.length]? == some '\\')

/-- `detach_subtree`, with the number of keys that it has detached. -/
def RegistryOverlay.detachSubtree (o : RegistryOverlay V) (canon : CanonPath) :
    RegistryOverlay V × ℕ :=
  let live := fun key : OverlayKey V => !key.detached && under key.path.text canon.text
  (⟨o.keys.map fun key => if live key then { key with detached := true } else key⟩,
    o.keys.countP live)

/-- `immediate_child` -/
def immediateChild (path parent : Str) : Option Str :=
  let rest := if parent = ['\\'] then path.dropPrefix? ['\\']
    else (path.dropPrefix? parent).bind (·.dropPrefix? ['\\'])
  rest.filter fun rest => !(rest.isEmpty || rest.contains '\\')

/-! ## Components and texts -/

theorem splitOn_inj {a b : Str} : a.splitOn '\\' = b.splitOn '\\' ↔ a = b := by
  refine ⟨fun h => ?_, fun h => h ▸ rfl⟩
  rw [← @intercalate_splitOn _ a _ _ '\\', h, intercalate_splitOn]

theorem under_iff (path canon : Str) :
    under path canon ↔ path = canon ∨ ∃ rest, path = canon ++ '\\' :: rest := by
  simp only [under, Bool.or_eq_true, Bool.and_eq_true, beq_iff_eq,
    isPrefixOf_iff_prefix]
  refine or_congr_right ⟨?_, ?_⟩
  · rintro ⟨⟨-, rest, rfl⟩, hnext⟩
    cases rest with
    | nil => simp at hnext
    | cons c rest =>
      obtain rfl : c = '\\' := by simpa using hnext
      exact ⟨rest, rfl⟩
  · rintro ⟨rest, rfl⟩
    simp

namespace CanonPath

variable (path canon : CanonPath)

/-- The components that the text shows: the root shows an empty one. -/
def shown : List Str := if path.parts = [] then [[]] else path.parts

theorem not_mem_shown : ∀ part ∈ path.shown, '\\' ∉ part := by
  unfold shown
  split
  · simp
  · exact fun part hpart => (path.valid part hpart).2

theorem nil_not_mem : [] ∉ path.parts := fun h => (path.valid [] h).1 rfl

theorem splitOn_text : path.text.splitOn '\\' = [] :: path.shown := by
  have hfree : ∀ p ∈ [] :: path.shown, '\\' ∉ p := forall_mem_cons.mpr ⟨by simp, path.not_mem_shown⟩
  have htext : path.text = [] ++ joined path.shown := by
    unfold text shown
    split <;> rfl
  rw [htext, splitOn_joined hfree]

theorem under_text_iff : under path.text canon.text ↔ canon.shown <+: path.shown := by
  simp only [under_iff, ← splitOn_inj, splitOn_append_cons_self, splitOn_text, cons_append,
    cons.injEq, true_and]
  constructor
  · rintro (h | ⟨rest, h⟩)
    · exact h ▸ prefix_rfl
    · exact h ▸ prefix_append _ _
  · rintro ⟨rest, h⟩
    by_cases hrest : rest = []
    · exact .inl (by simpa [hrest] using h.symm)
    · refine .inr ⟨['\\'].intercalate rest, ?_⟩
      rw [splitOn_intercalate _ _ hrest, h]
      exact fun part hpart => path.not_mem_shown part (h ▸ mem_append_right _ hpart)

/-- The subtree of a key other than the root is found from the texts. -/
theorem shown_prefix_iff (hcanon : canon.parts ≠ []) :
    canon.shown <+: path.shown ↔ canon.parts <+: path.parts := by
  rw [shown, if_neg hcanon, shown]
  split
  next hroot =>
    rw [hroot, prefix_cons_iff]
    simpa [hcanon] using fun h : canon.parts = [[]] => canon.nil_not_mem (by simp [h])
  next => rfl

/-- From the text of the root only the root itself is found. -/
theorem root_shown_prefix_iff (hcanon : canon.parts = []) :
    canon.shown <+: path.shown ↔ path.parts = [] := by
  rw [shown, if_pos hcanon, shown]
  split
  next hroot => simp [hroot]
  next hroot =>
    simp only [hroot, iff_false]
    exact fun h => path.nil_not_mem (h.subset mem_cons_self)

theorem text_eq_root_iff : path.text = ['\\'] ↔ path.parts = [] := by
  rw [← splitOn_inj, splitOn_text, shown]
  split
  next h => simp [h, splitOn_cons_eq_if_modifyHead]
  next h =>
    simpa [h, splitOn_cons_eq_if_modifyHead] using
      fun heq : path.parts = [[]] => path.nil_not_mem (by simp [heq])

/-- A child has one component more than its parent, the root included. -/
theorem immediateChild_eq_some_iff (leaf : Str) :
    immediateChild path.text canon.text = some leaf ↔ path.parts = canon.parts ++ [leaf] := by
  have hdrop : ∀ {l p r : Str}, l.dropPrefix? p = some r ↔ l = p ++ r := by
    simp [dropPrefix?_eq_some_iff]
  have hrest : (if canon.text = ['\\'] then path.text.dropPrefix? ['\\']
      else (path.text.dropPrefix? canon.text).bind (·.dropPrefix? ['\\'])) = some leaf ↔
      path.shown = canon.parts ++ leaf.splitOn '\\' := by
    by_cases hroot : canon.parts = []
    · rw [if_pos (canon.text_eq_root_iff.mpr hroot), hdrop, hroot]
      simp [← splitOn_inj, splitOn_text, splitOn_cons_eq_if_modifyHead]
    · rw [if_neg (mt canon.text_eq_root_iff.mp hroot)]
      simp only [Option.bind_eq_some_iff, hdrop, exists_eq_right, cons_append, nil_append]
      rw [← splitOn_inj, splitOn_append_cons_self, splitOn_text, splitOn_text,
        show canon.shown = _ from if_neg hroot, cons_append, cons_inj_right]
  simp only [immediateChild, Option.filter_eq_some_iff, hrest, Bool.not_eq_true',
    Bool.or_eq_false_iff, isEmpty_eq_false_iff, contains_eq_mem, decide_eq_false_iff_not]
  have hshown : leaf ≠ [] →
      (path.shown = canon.parts ++ [leaf] ↔ path.parts = canon.parts ++ [leaf]) := by
    intro hne
    unfold shown
    split
    next hroot => simp [hroot, singleton_eq_append_iff, hne]
    next => rfl
  constructor
  · rintro ⟨htext, hne, hnot⟩
    rwa [splitOn_eq_singleton hnot, hshown hne] at htext
  · intro h
    obtain ⟨hne, hnot⟩ := path.valid leaf (by simp [h])
    exact ⟨by rwa [splitOn_eq_singleton hnot, hshown hne], hne, hnot⟩

end CanonPath

/-- Exactly a key and the keys below it are detached, unless it is the root. -/
theorem detachSubtree_exact_iff (o : RegistryOverlay V) (canon : CanonPath) :
    (∀ (path : CanonPath) (leaf : Str),
      immediateChild path.text canon.text = some leaf ↔ path.parts = canon.parts ++ [leaf]) ∧
    ((o.detachSubtree canon).1 = ⟨o.keys.map fun key =>
        if key.detached = false ∧ canon.parts <+: key.path.parts then { key with detached := true }
        else key⟩ ↔
      canon.parts ≠ [] ∨ ∀ key ∈ o.keys, key.detached = false → key.path.parts = []) := by
  refine ⟨fun path => path.immediateChild_eq_some_iff canon, ?_⟩
  simp only [RegistryOverlay.detachSubtree, RegistryOverlay.mk.injEq, map_inj_left]
  by_cases hcanon : canon.parts = []
  · simp only [Bool.and_eq_true, Bool.not_eq_true', CanonPath.under_text_iff,
      CanonPath.root_shown_prefix_iff _ canon hcanon, hcanon, nil_prefix, and_true]
    constructor
    · intro h
      refine .inr fun key hkey hlive => by_contra fun hpath => ?_
      have := congrArg OverlayKey.detached (h key hkey)
      simp [hlive, hpath] at this
    · rintro (h | h) key hkey
      · exact absurd rfl h
      · by_cases hlive : key.detached = false
        · rw [if_pos ⟨hlive, h key hkey hlive⟩, if_pos hlive]
        · rw [if_neg fun hand => hlive hand.1, if_neg hlive]
  · simp [CanonPath.under_text_iff, CanonPath.shown_prefix_iff _ canon hcanon, hcanon]

/-- A key below the root outlives the unloading of the root. -/
theorem detachSubtree_root_keeps_child :
    let child : CanonPath := ⟨[['a']], by simp⟩
    let o : RegistryOverlay Unit := ⟨[⟨child, [], false⟩]⟩
    immediateChild child.text ['\\'] = some ['a'] ∧ o.detachSubtree ⟨[], by simp⟩ = (o, 0) :=
  ⟨rfl, rfl⟩

end UserspaceNtos.HiveCore
