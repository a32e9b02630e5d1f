import UserspaceNtos.HiveCore.Transaction

/-!
# What an operation does to the cells

The operations of a hive are built from small writes and mark cells dirty along the way.
What remains of them is one of a few edits: a key or value cell is rewritten in place, a
key or a value is linked under an existing key, or one is unlinked.  `Edit h h'` lists
them with everything a later proof needs, in terms of the function `Hive.cell` from ids
to cells; the lemmas of the last section show that each operation that changes the hive
at all performs such edits.
-/

namespace UserspaceNtos.HiveCore

open List Option

open Function (update update_apply update_eq_self update_idem update_of_ne update_self)

/-- A hive without its cells. -/
structure Header where
  pendingValueJournal : Option PendingHiveValueJournal
  valueBlobs : List Bytes
  root : CellId
  nextId : ℕ
  kind : HiveKind
  generation : ℕ
  sequence : ℕ
  cleanSequence : ℕ

namespace Hive

/-- Everything of a hive but its cells. -/
def header (h : Hive) : Header where
  pendingValueJournal := h.pendingValueJournal
  valueBlobs := h.valueBlobs
  root := h.root
  nextId := h.nextId
  kind := h.kind
  generation := h.generation
  sequence := h.sequence
  cleanSequence := h.cleanSequence

/-- The cell with a given id. -/
def cell (h : Hive) (id : CellId) : Option Cell := Arena.get h.cells id

variable {h h' : Hive} {id : CellId} {k : KeyCell} {v : ValueCell}

theorem key_eq_some_iff : h.key id = some k ↔ h.cell id = some (.key k) := by
  rw [key, cell]
  split
  · rename_i k' hk'
    rw [hk', Option.some.injEq, Option.some.injEq, Cell.key.injEq]
  · rename_i hne
    refine ⟨fun hk => ?_, fun hk => absurd hk (hne k)⟩
    cases hk

theorem value_eq_some_iff : h.value id = some v ↔ h.cell id = some (.value v) := by
  rw [value, cell]
  split
  · rename_i v' hv'
    rw [hv', Option.some.injEq, Option.some.injEq, Cell.value.injEq]
  · rename_i hne
    refine ⟨fun hv => ?_, fun hv => absurd hv (hne v)⟩
    cases hv

theorem cell_congr (hcells : h'.cells = h.cells) : h'.cell = h.cell := by
  funext id
  rw [cell, cell, hcells]

theorem lt_length_of_cell {c : Cell} (hc : h.cell id = some c) : id < h.cells.length :=
  Arena.lt_length_of_get hc

/-- Live cells have been allocated. -/
theorem lt_nextId_of_cell {c : Cell} (hc : h.cell id = some c) : id < h.nextId :=
  (lt_length_of_cell hc).trans_le h.length_cells_le

@[simp] theorem header_setCell (c : Option Cell) : (h.setCell id c).header = h.header := rfl

theorem cell_setCell (hid : id < h.cells.length) (c : Option Cell) :
    (h.setCell id c).cell = update h.cell id c := by
  funext j
  rw [cell, setCell, Arena.get_set hid, update_apply]
  rfl

theorem keyMut_eq_some {f : KeyCell → KeyCell} (e : h.keyMut id f = some h') :
    ∃ k, h.key id = some k ∧ h'.header = h.header ∧
      h'.cell = update h.cell id (some (.key (f k))) := by
  obtain ⟨k, hk, rfl⟩ := map_eq_some_iff.mp e
  exact ⟨k, hk, rfl, cell_setCell (lt_length_of_cell (key_eq_some_iff.mp hk)) _⟩

end Hive

/-- A key of the durable image carries the sequence of its last change. -/
def KeyCell.stamp (k : KeyCell) (sequence : ℕ) : KeyCell :=
  if k.volatile then k else { k with lastWriteSequence := sequence }

namespace Hive

variable {h h' : Hive} {id : CellId} {k : KeyCell}

@[simp] theorem header_markDirty (h : Hive) (id : CellId) : (h.markDirty id).header = h.header := by
  rw [markDirty]
  split
  · rfl
  · split <;> rfl

theorem cell_markDirty_key (hk : h.cell id = some (.key k)) :
    (h.markDirty id).cell = update h.cell id (some (.key (k.stamp h.sequence))) := by
  have hkey : h.key id = some k := key_eq_some_iff.mpr hk
  have hvalue : h.value id = none := by
    rw [value, show Arena.get h.cells id = some (.key k) from hk]
  rw [markDirty, isVolatile, hkey, hvalue, any_some, any_none, Bool.or_false, KeyCell.stamp]
  split
  · rw [← hk, update_eq_self]
  · rw [show Arena.get h.cells id = some (.key k) from hk]
    exact cell_setCell (lt_length_of_cell hk) _

theorem markDirty_of_none (hc : h.cell id = none) : h.markDirty id = h := by
  rw [markDirty, show Arena.get h.cells id = none from hc]
  exact ite_self _

/-- The sequence after one more change. -/
structure Advances (h : Hive) (sequence : ℕ) : Prop where
  le : h.sequence ≤ sequence
  le_succ : sequence ≤ h.sequence + 1
  lt : sequence < 2 ^ 64 ∨ sequence = h.sequence

theorem advance_eq_some {volatile : Bool} (e : h.advance volatile = some h') :
    ∃ sequence, h.Advances sequence ∧ h'.header = { h.header with sequence := sequence } ∧
      h'.cells = h.cells := by
  rw [advance] at e
  split at e
  · obtain rfl := Option.some.inj e
    exact ⟨h.sequence, ⟨le_rfl, Nat.le_succ _, .inr rfl⟩, rfl, rfl⟩
  · obtain ⟨sequence, hs, rfl⟩ := map_eq_some_iff.mp e
    rw [checkedAdd] at hs
    split at hs
    · obtain rfl := Option.some.inj hs
      exact ⟨h.sequence + 1, ⟨Nat.le_succ _, le_rfl, .inl ‹_›⟩, rfl, rfl⟩
    · cases hs

theorem allocCell_cases {cell : CellId → Cell} (e : h.allocCell cell = some (id, h')) :
    id = h.nextId ∧ h'.header = { h.header with nextId := h.nextId + 1 } ∧
      h'.cell = update h.cell h.nextId (some (cell h.nextId)) ∧ h.nextId + 1 < 2 ^ 64 := by
  rw [allocCell] at e
  split at e
  · cases e
    refine ⟨rfl, rfl, ?_, ‹_›⟩
    funext j
    rw [update_apply]
    exact Arena.get_put _ _ _ _
  · cases e

end Hive

/-! ## Keys and values after a change of cells -/

/-- The key in a cell. -/
def Cell.asKey : Option Cell → Option KeyCell
  | some (.key k) => some k
  | _ => none

/-- The value in a cell. -/
def Cell.asValue : Option Cell → Option ValueCell
  | some (.value v) => some v
  | _ => none

namespace Hive

variable {h h' : Hive} {id key : CellId} {k k' child : KeyCell} {v v' : ValueCell}

theorem key_eq_asKey (h : Hive) (i : CellId) : h.key i = Cell.asKey (h.cell i) := rfl

theorem value_eq_asValue (h : Hive) (i : CellId) : h.value i = Cell.asValue (h.cell i) := rfl

theorem asKey_update (g : CellId → Option Cell) (c : Option Cell) (j : CellId) :
    Cell.asKey (update g id c j) = if j = id then Cell.asKey c else Cell.asKey (g j) := by
  rw [update_apply]
  split <;> rfl

theorem asValue_update (g : CellId → Option Cell) (c : Option Cell) (j : CellId) :
    Cell.asValue (update g id c j) = if j = id then Cell.asValue c else Cell.asValue (g j) := by
  rw [update_apply]
  split <;> rfl

@[grind →] theorem key_lt_nextId (hk : h.key id = some k) : id < h.nextId :=
  lt_nextId_of_cell (key_eq_some_iff.mp hk)

@[grind →] theorem value_lt_nextId (hv : h.value id = some v) : id < h.nextId :=
  lt_nextId_of_cell (value_eq_some_iff.mp hv)

@[grind →] theorem value_of_key (hk : h.key id = some k) : h.value id = none := by
  rw [value_eq_asValue, key_eq_some_iff.mp hk]
  rfl

@[grind →] theorem key_of_value (hv : h.value id = some v) : h.key id = none := by
  rw [key_eq_asKey, value_eq_some_iff.mp hv]
  rfl

theorem key_nextId (h : Hive) : h.key h.nextId = none := by
  rw [eq_none_iff_forall_ne_some]
  exact fun k hk => (key_lt_nextId hk).ne rfl

theorem value_nextId (h : Hive) : h.value h.nextId = none := by
  rw [eq_none_iff_forall_ne_some]
  exact fun v hv => (value_lt_nextId hv).ne rfl

/-- A key cell is overwritten by another one. -/
theorem key_of_update_key (hcell : h'.cell = update h.cell id (some (.key k'))) (j : CellId) :
    h'.key j = if j = id then some k' else h.key j := by
  rw [key_eq_asKey, hcell, asKey_update]
  rfl

theorem value_of_update_key (hk : h.value id = none)
    (hcell : h'.cell = update h.cell id (some (.key k'))) (j : CellId) :
    h'.value j = h.value j := by
  rw [value_eq_asValue, hcell, asValue_update]
  split_ifs with hj
  · rw [hj, hk]
    rfl
  · rfl

/-- A value cell is overwritten by another one. -/
theorem key_of_update_value (hv : h.key id = none)
    (hcell : h'.cell = update h.cell id (some (.value v'))) (j : CellId) : h'.key j = h.key j := by
  rw [key_eq_asKey, hcell, asKey_update]
  split_ifs with hj
  · rw [hj, hv]
    rfl
  · rfl

theorem value_of_update_value (hcell : h'.cell = update h.cell id (some (.value v')))
    (j : CellId) : h'.value j = if j = id then some v' else h.value j := by
  rw [value_eq_asValue, hcell, asValue_update]
  rfl

/-- A new key is written, and the key `key` changed. -/
theorem key_of_link_key
    (hcell : h'.cell = update (update h.cell h.nextId (some (.key child))) key (some (.key k')))
    (j : CellId) :
    h'.key j = if j = key then some k' else if j = h.nextId then some child else h.key j := by
  rw [key_eq_asKey, hcell, asKey_update, asKey_update]
  rfl

theorem value_of_link_key (hk : h.key key = some k)
    (hcell : h'.cell = update (update h.cell h.nextId (some (.key child))) key (some (.key k')))
    (j : CellId) : h'.value j = h.value j := by
  rw [value_eq_asValue, hcell, asValue_update, asValue_update]
  split_ifs with hj hnew
  · rw [hj, value_of_key hk]
    rfl
  · rw [hnew, value_nextId]
    rfl
  · rfl

/-- A new value is written, and the key `key` changed. -/
theorem key_of_link_value
    (hcell : h'.cell = update (update h.cell h.nextId (some (.value v))) key (some (.key k')))
    (j : CellId) : h'.key j = if j = key then some k' else h.key j := by
  rw [key_eq_asKey, hcell, asKey_update, asKey_update]
  split_ifs with hj hnew
  · rfl
  · rw [hnew, key_nextId]
    rfl
  · rfl

theorem value_of_link_value (hk : h.key key = some k)
    (hcell : h'.cell = update (update h.cell h.nextId (some (.value v))) key (some (.key k')))
    (j : CellId) : h'.value j = if j = h.nextId then some v else h.value j := by
  rw [value_eq_asValue, hcell, asValue_update, asValue_update]
  split_ifs with hj hnew
  · exact absurd (hj.symm.trans hnew) (key_lt_nextId hk).ne
  · rw [hj, value_of_key hk]
    rfl
  · rfl
  · rfl

end Hive

/-! ## The edits -/

/-- The two cells stand at the same place in the tree. -/
structure KeyCell.SameLinks (k' k : KeyCell) : Prop where
  id : k'.id = k.id
  parent : k'.parent = k.parent
  name : k'.name = k.name
  subkeys : k'.subkeys = k.subkeys
  values : k'.values = k.values
  volatile : k'.volatile = k.volatile

/-- One change of the cells, at a sequence that `h'` carries. -/
inductive Edit (h h' : Hive) : Prop
  /-- Nothing but the sequence changes. -/
  | touch (header : h'.header = { h.header with sequence := h'.sequence })
      (sequence : h.Advances h'.sequence) (keys : ∀ j, h'.key j = h.key j)
      (values : ∀ j, h'.value j = h.value j)
  | rewriteKey {id : CellId} {k k' : KeyCell}
      (header : h'.header = { h.header with sequence := h'.sequence })
      (sequence : h.Advances h'.sequence)
      (live : h.key id = some k) (links : k'.SameLinks k)
      (written : k'.lastWriteSequence = h'.sequence)
      (keys : ∀ j, h'.key j = if j = id then some k' else h.key j)
      (values : ∀ j, h'.value j = h.value j)
  | linkKey {parent : CellId} {p child : KeyCell} {written : ℕ}
      (header : h'.header = { h.header with nextId := h.nextId + 1, sequence := h'.sequence })
      (sequence : h.Advances h'.sequence) (nextId : h.nextId + 1 < 2 ^ 64)
      (live : h.key parent = some p) (free : h.openSubkey parent child.name = none)
      (childId : child.id = h.nextId) (childParent : child.parent = some parent)
      (childSubkeys : child.subkeys = []) (childValues : child.values = [])
      (childWritten : child.lastWriteSequence = h'.sequence)
      (childVolatile : p.volatile → child.volatile)
      (parentWritten : written = p.lastWriteSequence ∨ written = h'.sequence)
      (keys : ∀ j, h'.key j =
        if j = parent then some
          { p with subkeys := p.subkeys ++ [h.nextId], lastWriteSequence := written }
        else if j = h.nextId then some child else h.key j)
      (values : ∀ j, h'.value j = h.value j)
  | rewriteValue {id : CellId} {v v' : ValueCell} {blobs : List Bytes}
      (header : h'.header = { h.header with valueBlobs := blobs, sequence := h'.sequence })
      (sequence : h.Advances h'.sequence) (blobs_le : h.valueBlobs <+: blobs)
      (value : h.value id = some v) (sameId : v'.id = v.id)
      (sameParent : v'.parentKey = v.parentKey)
      (sameName : v'.name = v.name) (blob : v'.dataBlob < blobs.length)
      (written : v'.lastWriteSequence = h'.sequence)
      (keys : ∀ j, h'.key j = h.key j)
      (values : ∀ j, h'.value j = if j = id then some v' else h.value j)
  | linkValue {key : CellId} {k : KeyCell} {v : ValueCell} {blobs : List Bytes} {written : ℕ}
      (header : h'.header = { h.header with
        valueBlobs := blobs, nextId := h.nextId + 1, sequence := h'.sequence })
      (sequence : h.Advances h'.sequence) (nextId : h.nextId + 1 < 2 ^ 64)
      (blobs_le : h.valueBlobs <+: blobs) (live : h.key key = some k)
      (free : h.valueIdByName key v.name = none)
      (valueId : v.id = h.nextId) (valueParent : v.parentKey = key)
      (blob : v.dataBlob < blobs.length) (valueWritten : v.lastWriteSequence = h'.sequence)
      (keyWritten : written = k.lastWriteSequence ∨ written = h'.sequence)
      (keys : ∀ j, h'.key j =
        if j = key then some
          { k with values := k.values ++ [h.nextId], lastWriteSequence := written }
        else h.key j)
      (values : ∀ j, h'.value j = if j = h.nextId then some v else h.value j)
  | unlinkValue {key id : CellId} {k : KeyCell} {v : ValueCell}
      (header : h'.header = { h.header with sequence := h'.sequence })
      (sequence : h.Advances h'.sequence)
      (live : h.key key = some k) (mem : id ∈ k.values) (value : h.value id = some v)
      (keys : ∀ j, h'.key j =
        if j = key then some
          { k with values := k.values.erase id, lastWriteSequence := h'.sequence }
        else h.key j)
      (values : ∀ j, h'.value j = if j = id then none else h.value j)
  | unlinkKey {parent id : CellId} {p k : KeyCell} {written : ℕ}
      (header : h'.header = { h.header with sequence := h'.sequence })
      (sequence : h.Advances h'.sequence) (notRoot : id ≠ h.root)
      (live : h.key id = some k) (leaf : k.subkeys = []) (keyParent : k.parent = some parent)
      (parentKey : h.key parent = some p)
      (parentWritten : written = p.lastWriteSequence ∨ written = h'.sequence)
      (keys : ∀ j, h'.key j =
        if j = id ∨ j ∈ k.values then none
        else if j = parent then some
          { p with subkeys := p.subkeys.filter (· != id), lastWriteSequence := written }
        else h.key j)
      (values : ∀ j, h'.value j = if j ∈ k.values then none else h.value j)

/-- A key linked under the id it is about to get: the outcome of creating a subkey of the
cell that is allocated next. -/
structure SelfLink (h h' : Hive) (child : KeyCell) : Prop where
  header : h'.header = { h.header with nextId := h.nextId + 1, sequence := h'.sequence }
  sequence : h.Advances h'.sequence
  nextId : h.nextId + 1 < 2 ^ 64
  childId : child.id = h.nextId
  childParent : child.parent = some h.nextId
  childSubkeys : child.subkeys = [h.nextId]
  childValues : child.values = []
  childWritten : child.lastWriteSequence = h'.sequence
  childVolatile : child.volatile = false
  keys : ∀ j, h'.key j = if j = h.nextId then some child else h.key j
  values : ∀ j, h'.value j = h.value j

/-! ## Each operation performs edits -/

namespace Hive

variable {h h' : Hive} {id key parent : CellId} {name : Str} {className : Option Str}
  {descriptor : Bytes} {valueType : RegistryValueType} {volatile done : Bool} {k : KeyCell}
  {f : KeyCell → KeyCell}

theorem sequence_of_header {g : Header} (e : h.header = g) : h.sequence = g.sequence :=
  congrArg Header.sequence e

theorem nextId_of_header {g : Header} (e : h.header = g) : h.nextId = g.nextId :=
  congrArg Header.nextId e

theorem isVolatile_of_key (hk : h.key id = some k) : h.isVolatile id = k.volatile := by
  rw [isVolatile, hk, any_some]

/-- A key cell is changed under the current sequence and marked dirty. -/
theorem keyMut_markDirty (hk : h.key id = some k) (hf : (f k).lastWriteSequence = h.sequence)
    (e : h.keyMut id f = some h') : (h'.markDirty id).header = h.header ∧
      (h'.markDirty id).cell = update h.cell id (some (.key (f k))) := by
  obtain ⟨k', hk', hheader, hcell⟩ := keyMut_eq_some e
  obtain rfl := Option.some.inj (hk.symm.trans hk')
  have hseq : h'.sequence = h.sequence := congrArg Header.sequence hheader
  refine ⟨(header_markDirty _ _).trans hheader, ?_⟩
  rw [cell_markDirty_key (by rw [hcell, update_self]), hcell, update_idem, hseq, ← hf]
  unfold KeyCell.stamp
  split <;> rfl

/-- A key cell is changed under the next sequence, which it carries from then on. -/
theorem rewriteKey_edit {h₁ h₂ : Hive} (hk : h.key key = some k) (e₁ : h.advance volatile = some h₁)
    (e₂ : h₁.keyMut key f = some h₂) (hlinks : (f k).SameLinks k)
    (hwritten : (f k).lastWriteSequence = h₁.sequence) : Edit h (h₂.markDirty key) := by
  obtain ⟨s, hs, hheader, hcells⟩ := advance_eq_some e₁
  obtain ⟨hheader₂, hcell₂⟩ := keyMut_markDirty (by rw [key_congr hcells]; exact hk) hwritten e₂
  rw [hheader] at hheader₂
  rw [cell_congr hcells] at hcell₂
  obtain rfl : (h₂.markDirty key).sequence = s := sequence_of_header hheader₂
  exact .rewriteKey hheader₂ hs hk hlinks (hwritten.trans (sequence_of_header hheader))
    (key_of_update_key hcell₂) (value_of_update_key (value_of_key hk) hcell₂)

theorem key_of_guard (hguard : ¬ (h.pendingValueJournal.isSome || (h.key key).isNone) = true) :
    ∃ k, h.key key = some k := by
  cases hk : h.key key with
  | none => simp [hk] at hguard
  | some k => exact ⟨k, rfl⟩

/-- The call is refused, or makes one edit. -/
def Edits (h : Hive) (done : Bool) (h' : Hive) : Prop :=
  (done = false ∧ h' = h) ∨ (done = true ∧ Edit h h')

theorem editKey_cases {edit : KeyCell → KeyCell} (hedit : ∀ k, (edit k).SameLinks k)
    (e : h.editKey key edit = some (done, h')) : Edits h done h' := by
  unfold editKey at e
  split at e
  · cases e
    exact .inl ⟨rfl, rfl⟩
  · rename_i hguard
    obtain ⟨k, hk⟩ := key_of_guard hguard
    obtain ⟨h₁, e₁, e⟩ := bind_eq_some_iff.mp e
    split at e
    · rename_i h₂ e₂
      cases e
      have hlinks := hedit k
      exact .inr ⟨rfl, rewriteKey_edit hk e₁ e₂ ⟨hlinks.id, hlinks.parent, hlinks.name,
        hlinks.subkeys, hlinks.values, hlinks.volatile⟩ rfl⟩
    · rename_i enone
      obtain ⟨s, -, -, hcells⟩ := advance_eq_some e₁
      rw [keyMut, key_congr hcells, hk] at enone
      cases enone

theorem setKeyKind_cases {kind : KeyKind}
    (e : h.setKeyKind key kind = some (done, h')) : h' = h ∨ (done = true ∧ Edit h h') := by
  unfold setKeyKind at e
  split at e
  · cases e
    exact .inl rfl
  split at e
  · cases e
    exact .inl rfl
  rename_i k hk
  split at e
  · cases e
    exact .inl rfl
  obtain ⟨h₁, e₁, e⟩ := bind_eq_some_iff.mp e
  obtain ⟨h₂, e₂, e⟩ := bind_eq_some_iff.mp e
  cases e
  exact .inr ⟨rfl, rewriteKey_edit hk e₁ e₂ ⟨rfl, rfl, rfl, rfl, rfl, rfl⟩ rfl⟩

/-- A cell that carries the current sequence stays as it is. -/
theorem markDirty_of_written {c : Cell} (hc : h.cell id = some c) (hw : match c with
      | .key k => k.lastWriteSequence = h.sequence
      | .value v => v.lastWriteSequence = h.sequence) : h.markDirty id = h := by
  have hset : h.setCell id (some c) = h := by
    obtain ⟨hlt, heq⟩ := List.getElem?_eq_some_iff.mp (join_eq_some_iff.mp hc)
    simp only [setCell, ← heq, List.set_getElem_self]
  rw [markDirty, show Arena.get h.cells id = some c from hc]
  refine ite_eq_left_iff.mpr fun _ => ?_
  cases c with
  | key k =>
    dsimp only
    rw [← hw, hset]
  | value v =>
    dsimp only
    rw [← hw, hset]

/-- Changing a key right after its allocation is allocating the changed key. -/
theorem allocCell_keyMut {mid : Hive} {new : CellId} {g : CellId → KeyCell}
    (e : h.allocCell (fun id => .key (g id)) = some (new, mid)) (e' : mid.keyMut new f = some h') :
    new = h.nextId ∧ h.nextId + 1 < 2 ^ 64 ∧ h'.header = { h.header with nextId := h.nextId + 1 } ∧
      h'.cell = update h.cell h.nextId (some (.key (f (g h.nextId)))) := by
  obtain ⟨rfl, hheader, hcell, hnext⟩ := allocCell_cases e
  obtain ⟨k, hk, hheader', hcell'⟩ := keyMut_eq_some e'
  rw [key_eq_some_iff, hcell, update_self, Option.some.injEq, Cell.key.injEq] at hk
  subst hk
  refine ⟨rfl, hnext, hheader'.trans hheader, ?_⟩
  rw [hcell', hcell, update_idem]

/-- Linking a new cell to an existing key. -/
theorem keyMut_link {mid : Hive} {c : Cell} (hk : h.key key = some k)
    (hcell : mid.cell = update h.cell h.nextId (some c)) (e : mid.keyMut key f = some h') :
    h'.header = mid.header ∧
      h'.cell = update (update h.cell h.nextId (some c)) key (some (.key (f k))) := by
  have hne : key ≠ h.nextId := (lt_nextId_of_cell (key_eq_some_iff.mp hk)).ne
  obtain ⟨k', hk', hheader', hcell'⟩ := keyMut_eq_some e
  rw [key_eq_some_iff, hcell, update_of_ne hne, ← key_eq_some_iff, hk] at hk'
  obtain rfl := Option.some.inj hk'
  exact ⟨hheader', hcell ▸ hcell'⟩

/-- What creating a key of this name under a live parent leads to. -/
theorem createSubkeyInStorage_cases {p : KeyCell} (hparent : h.key parent = some p)
    (hvolatile : p.volatile → volatile)
    (e : h.createSubkeyInStorage parent name volatile = some (id, h')) :
    (h.openSubkey parent name = some id ∧ h' = h) ∨
      (id = h.nextId ∧ Edit h h' ∧ ∃ k, h'.key id = some k) := by
  unfold createSubkeyInStorage at e
  split at e
  · rename_i found hfound
    cases e
    exact .inl ⟨hfound, rfl⟩
  rename_i hfree
  obtain ⟨h₁, e₁, e⟩ := bind_eq_some_iff.mp e
  obtain ⟨⟨new, h₂⟩, e₂, e⟩ := bind_eq_some_iff.mp e
  obtain ⟨h₃, e₃, e⟩ := bind_eq_some_iff.mp e
  obtain ⟨h₄, e₄, e⟩ := bind_eq_some_iff.mp e
  cases e
  obtain ⟨s, hs, hheader₁, hcells₁⟩ := advance_eq_some e₁
  obtain ⟨rfl, hnext, hheader₃, hcell₃⟩ := allocCell_keyMut e₂ e₃
  obtain ⟨hheader₄, hcell₄⟩ := keyMut_link (by rw [key_congr hcells₁]; exact hparent) hcell₃ e₄
  have hnext₁ : h₁.nextId = h.nextId := nextId_of_header hheader₁
  have hs₁ : h₁.sequence = s := sequence_of_header hheader₁
  rw [hheader₃, hheader₁, hnext₁] at hheader₄
  rw [cell_congr hcells₁, hnext₁, hs₁] at hcell₄
  rw [hnext₁] at hnext
  have hne : h.nextId ≠ parent := (lt_nextId_of_cell (key_eq_some_iff.mp hparent)).ne'
  -- the parent is stamped unless the child is volatile, the child carries the sequence already
  have hmark : (if volatile then h₄ else h₄.markDirty parent).header = h₄.header ∧
      (if volatile then h₄ else h₄.markDirty parent).cell = update h₄.cell parent (some (.key
          { p with
            subkeys := p.subkeys ++ [h.nextId]
            lastWriteSequence := if volatile then p.lastWriteSequence else s })) := by
    cases volatile with
    | true =>
      refine ⟨rfl, ?_⟩
      rw [if_pos rfl, if_pos rfl, hcell₄, update_idem]
    | false =>
      have hp : ¬ p.volatile := fun hp => Bool.false_ne_true (hvolatile hp)
      refine ⟨header_markDirty _ _, ?_⟩
      rw [if_neg Bool.false_ne_true, if_neg Bool.false_ne_true,
        cell_markDirty_key (by rw [hcell₄, update_self]), KeyCell.stamp, if_neg hp,
        sequence_of_header hheader₄]
  obtain ⟨hheader₅, hcell₅⟩ := hmark
  generalize (if volatile then h₄ else h₄.markDirty parent) = h₅ at hheader₅ hcell₅ ⊢
  rw [hheader₄] at hheader₅
  rw [hcell₄, update_idem] at hcell₅
  obtain rfl : h₅.sequence = s := sequence_of_header hheader₅
  have hchild := congrFun hcell₅ h.nextId
  rw [update_of_ne hne, update_self] at hchild
  rw [hnext₁, markDirty_of_written hchild rfl]
  have hkeys := key_of_link_key hcell₅
  have hlive := (hkeys h.nextId).trans ((if_neg hne).trans (if_pos rfl))
  refine .inr ⟨rfl, .linkKey hheader₅ hs hnext hparent hfree rfl rfl rfl rfl rfl hvolatile ?_
    hkeys (value_of_link_key hparent hcell₅), _, hlive⟩
  cases volatile with
  | true => exact .inl rfl
  | false => exact .inr rfl

theorem openSubkey_of_none (hparent : h.key parent = none) (name : Str) :
    h.openSubkey parent name = none := by
  rw [openSubkey, hparent]
  rfl

/-- Under a parent that does not exist a key can only be created if the parent is the key
itself. -/
theorem createSubkeyInStorage_selfLink (hparent : h.key parent = none)
    (e : h.createSubkeyInStorage parent name false = some (id, h')) :
    id = h.nextId ∧ ∃ child, SelfLink h h' child := by
  unfold createSubkeyInStorage at e
  rw [openSubkey_of_none hparent] at e
  obtain ⟨h₁, e₁, e⟩ := bind_eq_some_iff.mp e
  obtain ⟨⟨new, h₂⟩, e₂, e⟩ := bind_eq_some_iff.mp e
  obtain ⟨h₃, e₃, e⟩ := bind_eq_some_iff.mp e
  obtain ⟨h₄, e₄, e⟩ := bind_eq_some_iff.mp e
  cases e
  obtain ⟨s, hs, hheader₁, hcells₁⟩ := advance_eq_some e₁
  obtain ⟨rfl, hnext, hheader₃, hcell₃⟩ := allocCell_keyMut e₂ e₃
  obtain ⟨p, hp, hheader₄, hcell₄⟩ := keyMut_eq_some e₄
  have hnext₁ : h₁.nextId = h.nextId := nextId_of_header hheader₁
  have hs₁ : h₁.sequence = s := sequence_of_header hheader₁
  rw [hheader₃, hheader₁, hnext₁] at hheader₄
  rw [hcell₃] at hcell₄
  rw [cell_congr hcells₁, hnext₁] at hcell₄
  rw [hnext₁] at hnext ⊢
  -- the parent is found only if it is the cell just allocated
  have hself : parent = h.nextId := by
    by_contra hne
    rw [← hnext₁] at hne
    rw [key_eq_some_iff, hcell₃, update_of_ne hne, cell_congr hcells₁,
      ← key_eq_some_iff, hparent] at hp
    cases hp
  subst hself
  rw [key_eq_some_iff, hcell₃, hnext₁, update_self, Option.some.injEq, Cell.key.injEq] at hp
  subst hp
  rw [update_idem] at hcell₄
  obtain rfl : h₄.sequence = s := sequence_of_header hheader₄
  have hchild := congrFun hcell₄ h.nextId
  rw [update_self] at hchild
  have hsame := markDirty_of_written hchild hs₁
  rw [if_neg Bool.false_ne_true, hsame, hsame]
  exact ⟨rfl, _, hheader₄, hs, hnext, rfl, rfl, rfl, rfl, hs₁, rfl, key_of_update_key hcell₄,
    value_of_update_key (value_nextId h) hcell₄⟩

theorem createSubkey_cases (e : h.createSubkey parent name = some (id, h')) :
    (h.openSubkey parent name = some id ∧ h' = h) ∨
      (id = h.nextId ∧ Edit h h' ∧ ∃ k, h'.key id = some k) ∨
      (id = h.nextId ∧ h.key parent = none ∧ ∃ child, SelfLink h h' child) := by
  unfold createSubkey at e
  split_ifs at e
  cases hparent : h.key parent with
  | none =>
    rw [isVolatile, hparent, any_none] at e
    obtain ⟨hid, hself⟩ := createSubkeyInStorage_selfLink hparent e
    exact .inr (.inr ⟨hid, rfl, hself⟩)
  | some p =>
    rw [isVolatile_of_key hparent] at e
    rcases createSubkeyInStorage_cases hparent (fun hv => hv) e with hopen | hedit
    · exact .inl hopen
    · exact .inr (.inl hedit)

/-! ### Values -/

/-- A payload that is interned is found where the hive says. -/
theorem internValueData_cases (data : Bytes) :
    ∃ blobs, (h.internValueData data).2.header = { h.header with valueBlobs := blobs } ∧
      (h.internValueData data).2.cells = h.cells ∧ h.valueBlobs <+: blobs ∧
      blobs[(h.internValueData data).1]? = some data := by
  rw [internValueData]
  split
  · rename_i i hi
    refine ⟨h.valueBlobs, rfl, rfl, prefix_rfl, ?_⟩
    obtain ⟨hlt, hp, -⟩ := List.findIdx?_eq_some_iff_getElem.mp hi
    rw [List.getElem?_eq_getElem hlt, beq_iff_eq.mp hp]
  · exact ⟨h.valueBlobs ++ [data], rfl, rfl, prefix_append _ _, List.getElem?_concat_length⟩

theorem addValue_cases {blob : ℕ} (hk : h.key key = some k)
    (e : h.addValue key name valueType blob = some h') :
    h.nextId + 1 < 2 ^ 64 ∧ h'.header = { h.header with nextId := h.nextId + 1 } ∧
      h'.cell = update (update h.cell h.nextId (some (.value
        { id := h.nextId, parentKey := key, name := name, valueType := valueType,
          dataBlob := blob, lastWriteSequence := h.sequence }))) key (some (.key
        (KeyCell.stamp { k with values := k.values ++ [h.nextId] } h.sequence))) := by
  obtain ⟨⟨new, h₁⟩, e₁, e⟩ := bind_eq_some_iff.mp e
  obtain ⟨h₂, e₂, e⟩ := bind_eq_some_iff.mp e
  obtain rfl := Option.some.inj e
  obtain ⟨rfl, hheader₁, hcell₁, hnext⟩ := allocCell_cases e₁
  obtain ⟨hheader₂, hcell₂⟩ := keyMut_link hk hcell₁ e₂
  rw [hheader₁] at hheader₂
  have hne : h.nextId ≠ key := (lt_nextId_of_cell (key_eq_some_iff.mp hk)).ne'
  have hs₂ : h₂.sequence = h.sequence := sequence_of_header hheader₂
  have hcell₃ := cell_markDirty_key (by rw [hcell₂, update_self])
  rw [hcell₂, update_idem, hs₂] at hcell₃
  have hheader₃ := (header_markDirty h₂ key).trans hheader₂
  have hs₃ : (h₂.markDirty key).sequence = h.sequence := sequence_of_header hheader₃
  have hvalue := congrFun hcell₃ h.nextId
  rw [update_of_ne hne, update_self] at hvalue
  rw [markDirty_of_written hvalue hs₃.symm]
  exact ⟨hnext, hheader₃, hcell₃⟩

theorem valueIdByName_eq_some (hfind : h.valueIdByName key name = some id) :
    ∃ k v, h.key key = some k ∧ id ∈ k.values ∧ h.value id = some v ∧
      k.values.find? (h.hasName name) = some id := by
  obtain ⟨k, hk, hid⟩ := bind_eq_some_iff.mp hfind
  have hname := List.find?_some hid
  obtain ⟨v, hv, -⟩ := (any_eq_true _ _).mp hname
  exact ⟨k, v, hk, mem_of_find?_eq_some hid, hv, hid⟩

/-- A value that exists takes a new type and payload and is marked dirty. -/
theorem replaceValue_markDirty {v : ValueCell} {blob : ℕ} (hv : h.value id = some v)
    (e : h.replaceValue id valueType blob = some h') : (h'.markDirty id).header = h.header ∧
      (h'.markDirty id).cell = update h.cell id (some (.value
        { v with valueType := valueType, dataBlob := blob, lastWriteSequence := h.sequence })) := by
  obtain ⟨v', hv', rfl⟩ := map_eq_some_iff.mp e
  obtain rfl := Option.some.inj (hv.symm.trans hv')
  have hcell := cell_setCell (lt_length_of_cell (value_eq_some_iff.mp hv)) (some (.value
    { v with valueType := valueType, dataBlob := blob, lastWriteSequence := h.sequence }))
  have hid := congrFun hcell id
  rw [update_self] at hid
  rw [markDirty_of_written hid rfl]
  exact ⟨rfl, hcell⟩

section Store

-- a hive that differs from `h` by new payloads and the next sequence stores a value
variable {mid : Hive} {blob : ℕ} {blobs : List Bytes} {s : ℕ} (hcells : mid.cells = h.cells)
  (hs : h.Advances s) (hheader : mid.header = { h.header with valueBlobs := blobs, sequence := s })
  (hblobs : h.valueBlobs <+: blobs) (hblob : blob < blobs.length)
include hcells hs hheader hblobs hblob

theorem replaceValue_edit (e : mid.replaceValue id valueType blob = some h') :
    Edit h (h'.markDirty id) := by
  obtain ⟨v, hv, -⟩ := map_eq_some_iff.mp e
  obtain ⟨hheader', hcell'⟩ := replaceValue_markDirty hv e
  rw [hheader] at hheader'
  rw [cell_congr hcells, sequence_of_header hheader] at hcell'
  rw [value_congr hcells] at hv
  obtain rfl : (h'.markDirty id).sequence = s := sequence_of_header hheader'
  refine .rewriteValue hheader' hs hblobs hv ?_ ?_ ?_ hblob ?_
    (key_of_update_value (key_of_value hv) hcell') (value_of_update_value hcell')
  all_goals rfl

theorem addValue_edit (hk : h.key key = some k) (hfind : mid.valueIdByName key name = none)
    (e : mid.addValue key name valueType blob = some h') : Edit h h' := by
  rw [valueIdByName_congr hcells] at hfind
  have hnext_mid : mid.nextId = h.nextId := nextId_of_header hheader
  obtain ⟨hnext, hheader', hcell'⟩ := addValue_cases (by rw [key_congr hcells]; exact hk) e
  rw [hheader, hnext_mid] at hheader'
  rw [cell_congr hcells, hnext_mid, sequence_of_header hheader] at hcell'
  rw [hnext_mid] at hnext
  obtain rfl : h'.sequence = s := sequence_of_header hheader'
  rw [KeyCell.stamp] at hcell'
  split at hcell' <;> refine .linkValue hheader' hs hnext hblobs hk hfind rfl rfl hblob rfl ?_
    (key_of_link_value hcell') (value_of_link_value hk hcell')
  · exact .inl rfl
  · exact .inr rfl

end Store

theorem setValue_cases {data : Bytes} (e : h.setValue key name valueType data = some (done, h')) :
    Edits h done h' := by
  unfold setValue at e
  split at e
  · cases e
    exact .inl ⟨rfl, rfl⟩
  rename_i hguard
  obtain ⟨k, hk⟩ := key_of_guard hguard
  obtain ⟨blobs, hheader₀, hcells₀, hblobs, hblob⟩ := internValueData_cases data
  generalize h.internValueData data = interned at hheader₀ hcells₀ hblob e
  obtain ⟨blob, h₀⟩ := interned
  obtain ⟨h₁, e₁, e⟩ := bind_eq_some_iff.mp e
  obtain ⟨s, ⟨hle, hsucc, hlt⟩, hheader₁, hcells₁⟩ := advance_eq_some e₁
  have hs : h.Advances s := by
    have hseq₀ : h₀.sequence = h.sequence := sequence_of_header hheader₀
    rw [hseq₀] at hle hsucc hlt
    exact ⟨hle, hsucc, hlt⟩
  have hcells : h₁.cells = h.cells := hcells₁.trans hcells₀
  have hblob := (List.getElem?_eq_some_iff.mp hblob).1
  rw [hheader₀] at hheader₁
  split at e
  · rename_i id hfind
    cases e
    obtain ⟨-, v, -, -, hv, -⟩ := valueIdByName_eq_some hfind
    have hrep := show h₁.replaceValue id valueType blob = some _ by
      rw [replaceValue, hv, map_some]
    rw [hrep]
    exact .inr ⟨rfl, replaceValue_edit hcells hs hheader₁ hblobs hblob hrep⟩
  · rename_i hfind
    obtain ⟨h₂, e₂, e⟩ := bind_eq_some_iff.mp e
    cases e
    exact .inr ⟨rfl, addValue_edit hcells hs hheader₁ hblobs hblob hk hfind e₂⟩

/-- The shared payload has to be in the directory, as it is for every value of a linked
hive. -/
theorem setValueFromExistingValue_cases {source : CellId}
    (hsource : ∀ v, h.value source = some v → v.dataBlob < h.valueBlobs.length)
    (e : h.setValueFromExistingValue key name valueType source = some (done, h')) :
    Edits h done h' := by
  unfold setValueFromExistingValue at e
  split at e
  · cases e
    exact .inl ⟨rfl, rfl⟩
  rename_i hguard
  obtain ⟨k, hk⟩ := key_of_guard hguard
  split at e
  · cases e
    exact .inl ⟨rfl, rfl⟩
  rename_i shared hshared
  have hblob := hsource shared hshared
  obtain ⟨h₁, e₁, e⟩ := bind_eq_some_iff.mp e
  obtain ⟨s, hs, hheader₁, hcells⟩ := advance_eq_some e₁
  split at e
  · rename_i id hfind
    obtain ⟨-, v, -, -, hv, -⟩ := valueIdByName_eq_some hfind
    split at e
    · rename_i h₂ e₂
      cases e
      exact .inr ⟨rfl, replaceValue_edit hcells hs hheader₁ prefix_rfl hblob e₂⟩
    · rename_i enone
      rw [replaceValue, hv] at enone
      cases enone
  · rename_i hfind
    obtain ⟨h₂, e₂, e⟩ := bind_eq_some_iff.mp e
    cases e
    exact .inr ⟨rfl, addValue_edit hcells hs hheader₁ prefix_rfl hblob hk hfind e₂⟩

theorem eraseP_eq_erase_of_find {p : CellId → Bool} {l : List CellId} {a : CellId}
    (hfind : l.find? p = some a) : l.eraseP p = l.erase a := by
  induction l with
  | nil => cases hfind
  | cons b l ih =>
    rw [List.find?_cons] at hfind
    split at hfind
    · rename_i hb
      obtain rfl := Option.some.inj hfind
      rw [eraseP_cons_of_pos hb, erase_cons_head]
    · rename_i hb
      have hne : b ≠ a := by
        rintro rfl
        rw [List.find?_some hfind] at hb
        cases hb
      rw [eraseP_cons_of_neg (by rw [hb]; exact Bool.false_ne_true),
        erase_cons_tail (by simpa using hne), ih hfind]

theorem deleteValue_cases (e : h.deleteValue key name = some (done, h')) : Edits h done h' := by
  unfold deleteValue at e
  split at e
  · cases e
    exact .inl ⟨rfl, rfl⟩
  split at e
  · cases e
    exact .inl ⟨rfl, rfl⟩
  rename_i id hfind
  obtain ⟨k, v, hk, hmem, hv, hfirst⟩ := valueIdByName_eq_some hfind
  obtain ⟨h₁, e₁, e⟩ := bind_eq_some_iff.mp e
  obtain ⟨s, hs, hheader₁, hcells₁⟩ := advance_eq_some e₁
  have hk₁ : h₁.key key = some k := by rw [key_congr hcells₁, hk]
  split at e
  · rename_i enone
    rw [keyMut, hk₁] at enone
    cases enone
  rename_i h₂ e₂
  cases e
  obtain ⟨k', hk', hheader₂, hcell₂⟩ := keyMut_eq_some e₂
  obtain rfl := Option.some.inj (hk₁.symm.trans hk')
  rw [cell_congr hcells₁, eraseP_eq_erase_of_find hfirst] at hcell₂
  have hne : key ≠ id := by
    rintro rfl
    rw [value_eq_some_iff, key_eq_some_iff.mp hk] at hv
    cases hv
  have hid : id < h₂.cells.length := by
    refine lt_length_of_cell (c := .value v) ?_
    rw [hcell₂, update_of_ne hne.symm, value_eq_some_iff.mp hv]
  have hcell₃ := cell_setCell hid none
  rw [hcell₂] at hcell₃
  have hheader₃ : (h₂.setCell id none).header = { h.header with sequence := s } :=
    hheader₂.trans hheader₁
  obtain rfl : (h₂.setCell id none).sequence = s := sequence_of_header hheader₃
  rw [sequence_of_header hheader₁] at hcell₃
  have hkey₃ := congrFun hcell₃ key
  rw [update_of_ne hne, update_self] at hkey₃
  have hdead : (h₂.setCell id none).cell id = none := by
    rw [hcell₃, update_self]
  rw [markDirty_of_written hkey₃ rfl, markDirty_of_none hdead]
  refine .inr ⟨rfl, .unlinkValue hheader₃ hs hk hmem hv (fun j => ?_) fun j => ?_⟩
  · rw [key_eq_asKey, hcell₃, asKey_update, asKey_update]
    by_cases hj : j = id
    · rw [if_pos hj, hj, if_neg hne.symm, key_of_value hv]
      rfl
    · rw [if_neg hj]
      rfl
  · rw [value_eq_asValue, hcell₃, asValue_update, asValue_update]
    by_cases hj : j = key
    · rw [hj, if_neg hne, if_pos rfl, if_neg hne, value_of_key hk]
      rfl
    · rw [if_neg hj]
      rfl

/-! ### Deleting keys -/

@[simp] theorem header_clearCell (h : Hive) (id : CellId) : (h.clearCell id).header = h.header := by
  rw [clearCell]
  split
  · rw [header_markDirty, header_setCell]
  · rfl

theorem cell_clearCell (h : Hive) (id : CellId) :
    (h.clearCell id).cell = update h.cell id none := by
  rw [clearCell]
  split
  · rename_i hid
    have hcell := cell_setCell hid none
    rw [markDirty_of_none (by rw [hcell, update_self]), hcell]
  · rename_i hid
    have hnone : h.cell id = none := Arena.get_of_length_le (not_lt.mp hid)
    rw [← hnone, update_eq_self]

theorem foldl_clearCell (h : Hive) (ids : List CellId) : (ids.foldl clearCell h).header = h.header ∧
      (ids.foldl clearCell h).cell = fun j => if j ∈ ids then none else h.cell j := by
  induction ids generalizing h with
  | nil => exact ⟨rfl, rfl⟩
  | cons id ids ih =>
    obtain ⟨hheader, hcell⟩ := ih (h.clearCell id)
    refine ⟨hheader.trans (header_clearCell h id), ?_⟩
    rw [foldl_cons, hcell, cell_clearCell]
    funext j
    by_cases hj : j = id
    · simp [hj]
    · simp [hj]

theorem unlinkSubkey_cases (e : h.unlinkSubkey parent key volatile = some h') :
    ∃ p written, h.key parent = some p ∧ h'.header = h.header ∧
      (written = p.lastWriteSequence ∨ written = h.sequence) ∧
      h'.cell = update h.cell parent (some (.key
        { p with subkeys := p.subkeys.filter (· != key), lastWriteSequence := written })) := by
  obtain ⟨h₁, e₁, e⟩ := bind_eq_some_iff.mp e
  obtain rfl := Option.some.inj e
  obtain ⟨p, hp, hheader, hcell⟩ := keyMut_eq_some e₁
  cases volatile with
  | true => exact ⟨p, p.lastWriteSequence, hp, hheader, .inl rfl, hcell⟩
  | false =>
    obtain ⟨hheader', hcell'⟩ := keyMut_markDirty hp rfl e₁
    exact ⟨p, h.sequence, hp, hheader', .inr rfl, hcell'⟩

theorem deleteKey_cases {result : Except DeleteKeyError Unit}
    (e : h.deleteKey key = some (result, h')) : h' = h ∨ Edit h h' := by
  unfold deleteKey at e
  split at e
  · cases e
    exact .inl rfl
  split at e
  · cases e
    exact .inl rfl
  rename_i hroot
  split at e
  · cases e
    exact .inl rfl
  rename_i k hk
  split at e
  · rename_i parent hleaf hparent
    obtain ⟨h₁, e₁, e⟩ := bind_eq_some_iff.mp e
    obtain ⟨s, hs, hheader₁, hcells₁⟩ := advance_eq_some e₁
    split at e
    · cases e
      obtain rfl : h'.sequence = s := sequence_of_header hheader₁
      exact .inr (.touch hheader₁ hs (fun j => congrFun (key_congr hcells₁) j) fun j =>
        congrFun (value_congr hcells₁) j)
    · rename_i h₂ e₂
      obtain ⟨p, written, hp, hheader₂, hwritten, hcell₂⟩ := unlinkSubkey_cases e₂
      rw [key_congr hcells₁] at hp
      rw [cell_congr hcells₁] at hcell₂
      obtain ⟨hheader₃, hcell₃⟩ := foldl_clearCell h₂ k.values
      have hheader : ((k.values.foldl clearCell h₂).clearCell key).header =
          { h.header with sequence := s } :=
        (header_clearCell _ _).trans (hheader₃.trans (hheader₂.trans hheader₁))
      -- the key and its values are cleared, and the parent lists the key no more
      have hcell : ((k.values.foldl clearCell h₂).clearCell key).cell = fun j =>
          if j = key ∨ j ∈ k.values then none
          else if j = parent then some (.key
            { p with subkeys := p.subkeys.filter (· != key), lastWriteSequence := written })
          else h.cell j := by
        rw [cell_clearCell, hcell₃, hcell₂]
        funext j
        grind
      have hh' : h' = (k.values.foldl clearCell h₂).clearCell key := by
        dsimp only at e
        split at e
        · exact (Prod.mk.inj (Option.some.inj e)).2.symm
        · rw [clearCell, if_neg ‹_›]
          exact (Prod.mk.inj (Option.some.inj e)).2.symm
      rw [← hh'] at hheader hcell
      rw [sequence_of_header hheader₁] at hwritten
      obtain rfl : h'.sequence = s := sequence_of_header hheader
      refine .inr (.unlinkKey hheader hs hroot hk (isEmpty_iff.mp hleaf) hparent hp hwritten
        (fun j => ?_) fun j => ?_)
      · rw [key_eq_asKey, hcell]
        dsimp only
        split
        · rfl
        · split <;> rfl
      · rw [value_eq_asValue, hcell]
        -- the key and its parent are no values, so none is lost but those it lists
        have hvk := value_of_key hk
        have hvp := value_of_key hp
        dsimp only
        by_cases hv : j ∈ k.values
        · rw [if_pos (.inr hv), if_pos hv]
          rfl
        · by_cases hj : j = key
          · rw [if_pos (.inl hj), if_neg hv, hj, hvk]
            rfl
          · rw [if_neg (not_or.mpr ⟨hj, hv⟩)]
            split
            · rename_i hjp
              rw [hjp, hvp]
              rfl
            · rfl
  · cases e
    exact .inl rfl

/-! ### Creating a child with its metadata -/

/-- What the checks before the creation of a child establish. -/
theorem checkChild_eq_ok {reserved : Bool} {s : ℕ}
    (e : h.checkChild parent name descriptor volatile reserved = .ok s) :
    ∃ p, h.key parent = some p ∧ h.openSubkey parent name = none ∧ (p.volatile → volatile) ∧
      h.Advances s := by
  unfold checkChild at e
  split at e
  · cases e
  split at e
  · cases e
  split at e
  · cases e
  rename_i p hp
  split at e
  · cases e
  rename_i hopen
  split at e
  · cases e
  rename_i hvolatile
  split at e
  · cases e
  split at e
  · rename_i hnext hsequence
    split_ifs at e
    obtain rfl := Except.ok.inj e
    rw [checkedAdd] at hsequence
    split at hsequence
    · obtain rfl := Option.some.inj hsequence
      refine ⟨p, hp, not_isSome_iff_eq_none.mp hopen, ?_, Nat.le_add_right _ _,
        Nat.add_le_add_left (Bool.toNat_le _) _, .inl ‹_›⟩
      intro hpv
      simpa [hpv] using hvolatile
    · cases hsequence
  · cases e

theorem publishChild_cases {s : ℕ} {p : KeyCell} (hp : h.key parent = some p)
    (hopen : h.openSubkey parent name = none) (hvolatile : p.volatile → volatile)
    (hs : h.Advances s)
    (e : h.publishChild parent name className descriptor volatile s = some (id, h')) :
    id = h.nextId ∧ Edit h h' := by
  obtain ⟨⟨new, h₁⟩, e₁, e⟩ := bind_eq_some_iff.mp e
  obtain ⟨h₂, e₂, e⟩ := bind_eq_some_iff.mp e
  cases e
  obtain ⟨rfl, hheader₁, hcell₁, hnext⟩ := allocCell_cases e₁
  obtain ⟨hheader₂, hcell₂⟩ := keyMut_link hp hcell₁ e₂
  rw [hheader₁] at hheader₂
  have hheader : ({ h₂ with sequence := s } : Hive).header =
      { h.header with nextId := h.nextId + 1, sequence := s } :=
    congrArg (fun g : Header => { g with sequence := s }) hheader₂
  refine ⟨rfl, .linkKey hheader hs hnext hp hopen rfl rfl rfl rfl rfl hvolatile ?_
    (key_of_link_key hcell₂) (value_of_link_key hp hcell₂)⟩
  cases volatile with
  | true => exact .inl rfl
  | false => exact .inr rfl

theorem tryCreateChildWithOptions_eq (h : Hive) (parent : CellId) (name : Str)
    (className : Option Str) (descriptor : Bytes) (volatile reserved : Bool) :
    h.tryCreateChildWithOptions parent name className descriptor volatile reserved =
      match h.checkChild parent name descriptor volatile reserved with
      | .error e => some (.error e, h)
      | .ok s => (h.publishChild parent name className descriptor volatile s).bind fun r =>
        some (.ok r.1, r.2) :=
  (HiveTransaction.tryCreateChildWithOptions_perform (HiveTransaction.undoes_begin h) parent name
    className descriptor volatile reserved).result

theorem tryCreateChildWithOptions_cases {reserved : Bool} {result : Except CreateChildError CellId}
    (e : h.tryCreateChildWithOptions parent name className descriptor volatile reserved =
      some (result, h')) :
    ((∃ error, result = .error error) ∧ h' = h) ∨ (result = .ok h.nextId ∧ Edit h h') := by
  rw [tryCreateChildWithOptions_eq] at e
  split at e
  · cases e
    exact .inl ⟨⟨_, rfl⟩, rfl⟩
  · rename_i s hcheck
    obtain ⟨p, hp, hopen, hvolatile, hs⟩ := checkChild_eq_ok hcheck
    obtain ⟨⟨id, h₁⟩, e₁, e⟩ := bind_eq_some_iff.mp e
    cases e
    obtain ⟨rfl, hedit⟩ := publishChild_cases hp hopen hvolatile hs e₁
    exact .inr ⟨rfl, hedit⟩

end Hive

end UserspaceNtos.HiveCore
