import UserspaceNtos.HiveCore.Hive

/-!
# Hive transactions

A transaction edits the hive in place and keeps what it needs to undo the edits: the
lengths of the two arenas, the counters, and a copy of every old cell taken before the
cell is first written.  A cell that is not saved is restored only if nobody wrote it, so
each operation of a transaction has to save all old cells that the hive operation behind
it can touch.

`Hive.Frame slots h h'` says what a hive operation leaves alone; there is one frame
lemma for each operation, and `HiveTransaction.Undoes` is the invariant of the undo log
that follows from them.
-/

namespace UserspaceNtos.HiveCore

open List
open Option (bind_eq_some_iff bind_some map_eq_some_iff)

/-- `CreateChildError` -/
inductive CreateChildError
  | invalidName | parentNotFound | nameCollision | emptySecurityDescriptor
  | insufficientResources | childMustBeVolatile | retainedPublication
  deriving DecidableEq, Repr

/-- A hive being edited, with what is needed to undo the edits. -/
structure HiveTransaction where
  hive : Hive
  originalCellsLen : ℕ
  originalValueBlobsLen : ℕ
  originalNextId : ℕ
  originalGeneration : ℕ
  originalSequence : ℕ
  originalCleanSequence : ℕ
  originalCells : List (ℕ × Option Cell)
  originalCellsLen_le : originalCellsLen ≤ originalNextId

/-- `begin_transaction` -/
def Hive.beginTransaction (h : Hive) : HiveTransaction where
  hive := h
  originalCellsLen := h.cells.length
  originalValueBlobsLen := h.valueBlobs.length
  originalNextId := h.nextId
  originalGeneration := h.generation
  originalSequence := h.sequence
  originalCleanSequence := h.cleanSequence
  originalCells := []
  originalCellsLen_le := h.length_cells_le

namespace HiveTransaction

/-- `snapshot_cell` -/
def snapshotCell (tx : HiveTransaction) (id : CellId) : Option HiveTransaction :=
  (Arena.save tx.originalCellsLen tx.originalCells tx.hive.cells id).map fun saved =>
    { tx with originalCells := saved }

/-- A hive operation is performed on the hive of the transaction. -/
def perform {α : Type} (tx : HiveTransaction) (op : Hive → Option (α × Hive)) :
    Option (α × HiveTransaction) :=
  (op tx.hive).map fun (a, h) => (a, { tx with hive := h })

/-- `create_subkey` -/
def createSubkey (tx : HiveTransaction) (current : CellId) (component : Str) :
    Option (CellId × HiveTransaction) :=
  match tx.hive.openSubkey current component with
  | some child => some (child, tx)
  | none => do
      let tx ← tx.snapshotCell current
      tx.perform (·.createSubkey current component)

/-- `create_key` -/
def createKey (tx : HiveTransaction) (path : Str) : Option (CellId × HiveTransaction) :=
  if tx.hive.pendingValueJournal.isSome then none
  else (components path).foldlM (fun (cur, tx) name => tx.createSubkey cur name)
    (tx.hive.root, tx)

/-- `set_key_class` -/
def setKeyClass (tx : HiveTransaction) (key : CellId) (className : Option Str) :
    Option (Bool × HiveTransaction) :=
  if tx.hive.pendingValueJournal.isSome then some (false, tx)
  else do
    let tx ← tx.snapshotCell key
    tx.perform (·.setKeyClass key className)

/-- `set_key_security_descriptor` -/
def setKeySecurityDescriptor (tx : HiveTransaction) (key : CellId) (descriptor : Bytes) :
    Option (Bool × HiveTransaction) :=
  if tx.hive.pendingValueJournal.isSome then some (false, tx)
  else do
    let tx ← tx.snapshotCell key
    tx.perform (·.setKeySecurityDescriptor key descriptor)

/-- The key and the value of the given name, if there is one, are saved. -/
def snapshotValue (tx : HiveTransaction) (key : CellId) (name : Str) : Option HiveTransaction := do
  let tx ← tx.snapshotCell key
  match tx.hive.valueIdByName key name with
  | some value => tx.snapshotCell value
  | none => some tx

/-- `set_value` -/
def setValue (tx : HiveTransaction) (key : CellId) (name : Str) (valueType : RegistryValueType)
    (data : Bytes) : Option (Bool × HiveTransaction) :=
  if tx.hive.pendingValueJournal.isSome then some (false, tx)
  else do
    let tx ← tx.snapshotValue key name
    tx.perform (·.setValue key name valueType data)

/-- `delete_value` -/
def deleteValue (tx : HiveTransaction) (key : CellId) (name : Str) :
    Option (Bool × HiveTransaction) :=
  if tx.hive.pendingValueJournal.isSome then some (false, tx)
  else do
    let tx ← tx.snapshotValue key name
    tx.perform (·.deleteValue key name)

/-- A key, its parent and its values are saved. -/
def snapshotKey (tx : HiveTransaction) (key : CellId) : Option HiveTransaction :=
  match tx.hive.key key with
  | none => some tx
  | some cell => (cell.parent.toList ++ key :: cell.values).foldlM snapshotCell tx

/-- `delete_key` -/
def deleteKey (tx : HiveTransaction) (key : CellId) :
    Option (Except DeleteKeyError Unit × HiveTransaction) :=
  if tx.hive.pendingValueJournal.isSome then some (.error .retainedPublication, tx)
  else do
    let tx ← tx.snapshotKey key
    tx.perform (·.deleteKey key)

end HiveTransaction

/-! ## Creating one child -/

/-- The checks made before a child is created; they yield the sequence it is created
under.  The allocator may refuse the memory that is `reserved` in advance. -/
def Hive.checkChild (h : Hive) (parent : CellId) (name : Str) (securityDescriptor : Bytes)
    (volatile reserved : Bool) : Except CreateChildError ℕ :=
  if h.pendingValueJournal.isSome then .error .retainedPublication
  else if name.isEmpty || name.contains '\\' || name.contains '\x00' then .error .invalidName
  else
    match h.key parent with
    | none => .error .parentNotFound
    | some p =>
      if (h.openSubkey parent name).isSome then .error .nameCollision
      else if p.volatile && !volatile then .error .childMustBeVolatile
      else if securityDescriptor.isEmpty then .error .emptySecurityDescriptor
      else
        match checkedAdd h.nextId 1, checkedAdd h.sequence (!volatile).toNat with
        | some _, some sequence =>
          if h.nextId < h.cells.length || !reserved then .error .insufficientResources
          else .ok sequence
        | _, _ => .error .insufficientResources

/-- The child is initialised in full before it is linked. -/
def Hive.publishChild (h : Hive) (parent : CellId) (name : Str) (className : Option Str)
    (securityDescriptor : Bytes) (volatile : Bool) (sequence : ℕ) : Option (CellId × Hive) := do
  let (id, h) ← h.allocCell fun id => .key
    { kind := .ordinary, id := id, parent := some parent, name := name, subkeys := [],
      values := [], className := className, securityDescriptor := some securityDescriptor,
      lastWriteSequence := sequence, volatile := volatile }
  let h ← h.keyMut parent fun p =>
    { p with
      subkeys := p.subkeys ++ [id]
      lastWriteSequence := if volatile then p.lastWriteSequence else sequence }
  return (id, { h with sequence := sequence })

namespace HiveTransaction

/-- `try_create_child_with_options` -/
def tryCreateChildWithOptions (tx : HiveTransaction) (parent : CellId) (name : Str)
    (className : Option Str) (securityDescriptor : Bytes) (volatile reserved : Bool) :
    Option (Except CreateChildError CellId × HiveTransaction) :=
  match tx.hive.checkChild parent name securityDescriptor volatile reserved with
  | .error e => some (.error e, tx)
  | .ok sequence => do
      let tx ← tx.snapshotCell parent
      tx.perform fun h => do
        let (id, h) ← h.publishChild parent name className securityDescriptor volatile sequence
        return (.ok id, h)

/-! ## The end of a transaction -/

/-- `commit` -/
def commit (tx : HiveTransaction) : Hive := tx.hive

/-- What dropping an uncommitted transaction does. -/
def rollback (tx : HiveTransaction) : Option Hive :=
  match hcells : Arena.restore tx.originalCellsLen tx.originalCells tx.hive.cells with
  | none => none
  | some cells => some
      { tx.hive with
        cells := cells
        valueBlobs := tx.hive.valueBlobs.take tx.originalValueBlobsLen
        nextId := tx.originalNextId
        generation := tx.originalGeneration
        sequence := tx.originalSequence
        cleanSequence := tx.originalCleanSequence
        length_cells_le := (Arena.length_restore_le hcells).trans tx.originalCellsLen_le }

end HiveTransaction

/-! ## What an operation leaves alone -/

namespace Hive

/-- From `h` to `h'` only cells in `slots` changed, payloads were only added, and what no
transaction restores is the same. -/
structure Frame (slots : Set CellId) (h h' : Hive) : Prop where
  cells : Arena.ChangedIn slots h.cells h'.cells
  valueBlobs : h.valueBlobs <+: h'.valueBlobs
  pendingValueJournal : h'.pendingValueJournal = h.pendingValueJournal
  root : h'.root = h.root
  kind : h'.kind = h.kind

namespace Frame

variable {slots : Set CellId} {h h' h'' : Hive} {id : CellId}

theorem refl (slots : Set CellId) (h : Hive) : Frame slots h h :=
  ⟨.refl _ _, prefix_rfl, rfl, rfl, rfl⟩

theorem trans (a : Frame slots h h') (b : Frame slots h' h'') : Frame slots h h'' where
  cells := a.cells.trans b.cells
  valueBlobs := a.valueBlobs.trans b.valueBlobs
  pendingValueJournal := b.pendingValueJournal.trans a.pendingValueJournal
  root := b.root.trans a.root
  kind := b.kind.trans a.kind

theorem setCell (hid : id ∈ slots) (c : Option Cell) : Frame slots h (h.setCell id c) :=
  ⟨.set hid c, prefix_rfl, rfl, rfl, rfl⟩

theorem keyMut (hid : id ∈ slots) {f : KeyCell → KeyCell}
    (e : h.keyMut id f = some h') : Frame slots h h' := by
  obtain ⟨k, -, rfl⟩ := map_eq_some_iff.mp e
  exact setCell hid _

theorem markDirty (hid : id ∈ slots) : Frame slots h (h.markDirty id) := by
  rw [Hive.markDirty]
  split
  · exact refl _ _
  · split
    · exact setCell hid _
    · exact setCell hid _
    · exact refl _ _

theorem advance {volatile : Bool} (e : h.advance volatile = some h') : Frame slots h h' := by
  rw [Hive.advance] at e
  split at e
  · rw [← Option.some.inj e]
    exact refl _ _
  · obtain ⟨sequence, -, rfl⟩ := map_eq_some_iff.mp e
    exact ⟨.refl _ _, prefix_rfl, rfl, rfl, rfl⟩

/-- A new cell lies past the end of the arena. -/
theorem allocCell {cell : CellId → Cell} (e : h.allocCell cell = some (id, h')) :
    Frame slots h h' := by
  obtain ⟨rfl, rfl⟩ := allocCell_eq_some e
  exact ⟨.put h.length_cells_le _, prefix_rfl, rfl, rfl, rfl⟩

theorem clearCell (hid : id ∈ slots) : Frame slots h (h.clearCell id) := by
  rw [Hive.clearCell]
  split
  · exact (setCell hid none).trans (markDirty hid)
  · exact refl _ _

theorem foldl_clearCell (ids : List CellId) (hids : ∀ id ∈ ids, id ∈ slots) :
    Frame slots h (ids.foldl Hive.clearCell h) := by
  induction ids generalizing h with
  | nil => exact refl _ _
  | cons id ids ih =>
    exact (clearCell (hids id mem_cons_self)).trans (ih fun i hi => hids i (mem_cons_of_mem _ hi))

theorem internValueData (data : Bytes) : Frame slots h (h.internValueData data).2 := by
  rw [Hive.internValueData]
  split
  · exact refl _ _
  · exact ⟨.refl _ _, prefix_append _ _, rfl, rfl, rfl⟩

end Frame

/-- The given cells and those past the end of the arena. -/
def touching (h : Hive) (ids : List CellId) : Set CellId := {i | i ∈ ids ∨ h.cells.length ≤ i}

variable {id parent key : CellId} {ids : List CellId} {name : Str} {volatile done : Bool}
  {valueType : RegistryValueType}

theorem mem_touching {h : Hive} (hid : id ∈ ids) : id ∈ h.touching ids := .inl hid

/-- Cells allocated along the way are past the end of the arena. -/
theorem Frame.new_mem_touching {h mid h' : Hive} {cell : CellId → Cell}
    (a : Frame (h.touching ids) h mid)
    (e : mid.allocCell cell = some (id, h')) : id ∈ h.touching ids := by
  rw [(allocCell_eq_some e).1]
  exact .inr (a.cells.length_le.trans mid.length_cells_le)

variable {h h' : Hive}

theorem createSubkeyInStorage_frame
    (e : h.createSubkeyInStorage parent name volatile = some (id, h')) :
    Frame (h.touching [parent]) h h' := by
  have hparent : parent ∈ h.touching [parent] := mem_touching (mem_singleton_self _)
  unfold createSubkeyInStorage at e
  split at e
  · cases e
    exact .refl _ _
  · obtain ⟨h₁, e₁, e⟩ := bind_eq_some_iff.mp e
    obtain ⟨⟨new, h₂⟩, e₂, e⟩ := bind_eq_some_iff.mp e
    obtain ⟨h₃, e₃, e⟩ := bind_eq_some_iff.mp e
    obtain ⟨h₄, e₄, e⟩ := bind_eq_some_iff.mp e
    cases e
    have a₁ : Frame (h.touching [parent]) h h₁ := .advance e₁
    have hnew := a₁.new_mem_touching e₂
    have a₄ := ((a₁.trans (.allocCell e₂)).trans (.keyMut hnew e₃)).trans (.keyMut hparent e₄)
    refine Frame.trans ?_ (.markDirty hnew)
    split
    · exact a₄
    · exact a₄.trans (.markDirty hparent)

theorem editKey_frame {edit : KeyCell → KeyCell}
    (e : h.editKey key edit = some (done, h')) : Frame (h.touching [key]) h h' := by
  have hkey : key ∈ h.touching [key] := mem_touching (mem_singleton_self _)
  unfold editKey at e
  split at e
  · cases e
    exact .refl _ _
  · obtain ⟨h₁, e₁, e⟩ := bind_eq_some_iff.mp e
    split at e
    · rename_i h₂ e₂
      cases e
      exact ((Frame.advance e₁).trans (.keyMut hkey e₂)).trans (.markDirty hkey)
    · cases e
      exact .advance e₁

/-- The cells that storing or deleting a value writes: its key and, if it exists, its own. -/
def valueCells (h : Hive) (key : CellId) (name : Str) : List CellId :=
  key :: (h.valueIdByName key name).toList

theorem setValue_frame {data : Bytes} (e : h.setValue key name valueType data = some (done, h')) :
    Frame (h.touching (h.valueCells key name)) h h' := by
  unfold setValue at e
  split at e
  · cases e
    exact .refl _ _
  · have a₀ : Frame (h.touching (h.valueCells key name)) h (h.internValueData data).2 :=
      .internValueData data
    have hcells := cells_internValueData (h := h) data
    generalize h.internValueData data = interned at a₀ hcells e
    obtain ⟨blob, h₀⟩ := interned
    obtain ⟨h₁, e₁, e⟩ := bind_eq_some_iff.mp e
    have a := a₀.trans (.advance e₁)
    have hfind : h₁.valueIdByName key name = h.valueIdByName key name := by
      rw [valueIdByName_congr (cells_of_advance e₁), valueIdByName_congr hcells]
    split at e
    · rename_i id hid
      cases e
      have hmem : id ∈ h.touching (h.valueCells key name) := by
        refine mem_touching (mem_cons_of_mem _ ?_)
        rw [← hfind, hid]
        exact mem_singleton_self _
      refine Frame.trans ?_ (.markDirty hmem)
      cases hrep : h₁.replaceValue id valueType blob with
      | none => exact a
      | some h₂ =>
        obtain ⟨v, -, rfl⟩ := map_eq_some_iff.mp hrep
        exact a.trans (.setCell hmem _)
    · obtain ⟨h₂, e₂, e⟩ := bind_eq_some_iff.mp e
      cases e
      obtain ⟨⟨new, h₃⟩, e₃, e₂⟩ := bind_eq_some_iff.mp e₂
      obtain ⟨h₄, e₄, e₂⟩ := bind_eq_some_iff.mp e₂
      obtain rfl := Option.some.inj e₂
      have hkey : key ∈ h.touching (h.valueCells key name) := mem_touching mem_cons_self
      have hnew := a.new_mem_touching e₃
      exact (((a.trans (.allocCell e₃)).trans (.keyMut hkey e₄)).trans (.markDirty hkey)).trans
        (.markDirty hnew)

theorem deleteValue_frame (e : h.deleteValue key name = some (done, h')) :
    Frame (h.touching (h.valueCells key name)) h h' := by
  have hkey : key ∈ h.touching (h.valueCells key name) := mem_touching mem_cons_self
  unfold deleteValue at e
  split at e
  · cases e
    exact .refl _ _
  · split at e
    · cases e
      exact .refl _ _
    · rename_i id hid
      have hmem : id ∈ h.touching (h.valueCells key name) := by
        refine mem_touching (mem_cons_of_mem _ ?_)
        rw [hid]
        exact mem_singleton_self _
      obtain ⟨h₁, e₁, e⟩ := bind_eq_some_iff.mp e
      split at e
      · cases e
        exact .advance e₁
      · rename_i h₂ e₂
        cases e
        exact (((Frame.advance e₁).trans (.keyMut hkey e₂)).trans (.setCell hmem _)).trans
          ((Frame.markDirty hkey).trans (.markDirty hmem))

/-- The cells that deleting a key writes: its parent, its own and those of its values. -/
def keyCells (h : Hive) (key : CellId) : List CellId :=
  match h.key key with
  | none => []
  | some cell => cell.parent.toList ++ key :: cell.values

theorem unlinkSubkey_frame {slots : Set CellId} (hparent : parent ∈ slots)
    (e : h.unlinkSubkey parent key volatile = some h') : Frame slots h h' := by
  obtain ⟨h₁, e₁, e⟩ := bind_eq_some_iff.mp e
  obtain rfl := Option.some.inj e
  split
  · exact .keyMut hparent e₁
  · exact (Frame.keyMut hparent e₁).trans (.markDirty hparent)

theorem deleteKey_frame {result : Except DeleteKeyError Unit}
    (e : h.deleteKey key = some (result, h')) : Frame (h.touching (h.keyCells key)) h h' := by
  unfold deleteKey at e
  split at e
  · cases e
    exact .refl _ _
  split at e
  · cases e
    exact .refl _ _
  split at e
  · cases e
    exact .refl _ _
  rename_i cell hcell
  split at e
  · rename_i parent hempty hparent
    have hids : h.keyCells key = parent :: key :: cell.values := by
      simp only [keyCells, hcell, hparent, Option.toList_some, cons_append, nil_append]
    rw [hids]
    have hmem : ∀ id ∈ parent :: key :: cell.values,
        id ∈ h.touching (parent :: key :: cell.values) := fun _ => mem_touching
    have hpmem := hmem parent (by simp)
    have hkmem := hmem key (by simp)
    obtain ⟨h₁, e₁, e⟩ := bind_eq_some_iff.mp e
    split at e
    · cases e
      exact .advance e₁
    · rename_i h₂ e₂
      have a₂ := (Frame.advance e₁).trans (unlinkSubkey_frame hpmem e₂)
      have a₃ := a₂.trans (Frame.foldl_clearCell cell.values fun id hid =>
        hmem id (mem_cons_of_mem _ (mem_cons_of_mem _ hid)))
      dsimp only at e
      split at e
      · cases e
        exact a₃.trans (.clearCell hkmem)
      · cases e
        exact a₃
  · cases e
    exact .refl _ _

end Hive

/-! ## The undo log -/

namespace HiveTransaction

/-- The transaction began on `original` and can get back to it. -/
structure Undoes (original : Hive) (tx : HiveTransaction) : Prop where
  originalCellsLen : tx.originalCellsLen = original.cells.length
  originalValueBlobsLen : tx.originalValueBlobsLen = original.valueBlobs.length
  originalNextId : tx.originalNextId = original.nextId
  originalGeneration : tx.originalGeneration = original.generation
  originalSequence : tx.originalSequence = original.sequence
  originalCleanSequence : tx.originalCleanSequence = original.cleanSequence
  cells : Arena.Covers original.cells tx.originalCells tx.hive.cells
  valueBlobs : original.valueBlobs <+: tx.hive.valueBlobs
  pendingValueJournal : tx.hive.pendingValueJournal = original.pendingValueJournal
  root : tx.hive.root = original.root
  kind : tx.hive.kind = original.kind

/-- If the cell is an old one, its original content is saved. -/
def Saves (tx : HiveTransaction) (id : CellId) : Prop :=
  id < tx.originalCellsLen → ∃ s ∈ tx.originalCells, s.1 = id

theorem undoes_begin (h : Hive) : Undoes h h.beginTransaction where
  originalCellsLen := rfl
  originalValueBlobsLen := rfl
  originalNextId := rfl
  originalGeneration := rfl
  originalSequence := rfl
  originalCleanSequence := rfl
  cells := .refl _
  valueBlobs := prefix_rfl
  pendingValueJournal := rfl
  root := rfl
  kind := rfl

namespace Undoes

variable {original : Hive} {tx : HiveTransaction}

section

variable (hu : Undoes original tx)
include hu

theorem rollback : tx.rollback = some original := by
  have hcells := hu.cells.restore
  rw [← hu.originalCellsLen] at hcells
  have hblobs : tx.hive.valueBlobs.take tx.originalValueBlobsLen = original.valueBlobs := by
    rw [hu.originalValueBlobsLen]
    exact (prefix_iff_eq_take.mp hu.valueBlobs).symm
  unfold HiveTransaction.rollback
  split
  · rename_i hnone
    rw [hcells] at hnone
    cases hnone
  · rename_i cells hsome
    obtain rfl := Option.some.inj (hcells.symm.trans hsome)
    congr 1
    simp only [hblobs, hu.originalNextId, hu.originalGeneration, hu.originalSequence,
      hu.originalCleanSequence, hu.pendingValueJournal, hu.root, hu.kind]

/-- Saving a cell succeeds and keeps what is saved already. -/
theorem snapshotCell (id : CellId) :
    ∃ tx', tx.snapshotCell id = some tx' ∧ tx'.hive = tx.hive ∧ Undoes original tx' ∧
      tx'.Saves id ∧ ∀ j, tx.Saves j → tx'.Saves j := by
  obtain ⟨saved, hsave, hcovers, hsub, hid⟩ := hu.cells.save id
  rw [← hu.originalCellsLen] at hsave hid
  refine ⟨{ tx with originalCells := saved }, ?_, rfl, { hu with cells := hcovers }, hid, ?_⟩
  · rw [HiveTransaction.snapshotCell, hsave, Option.map_some]
  · intro j hj hlt
    obtain ⟨s, hs, hsj⟩ := hj hlt
    exact ⟨s, hsub hs, hsj⟩

theorem snapshotCells (ids : List CellId) :
    ∃ tx', ids.foldlM HiveTransaction.snapshotCell tx = some tx' ∧ tx'.hive = tx.hive ∧
      Undoes original tx' ∧ (∀ id ∈ ids, tx'.Saves id) ∧ ∀ j, tx.Saves j → tx'.Saves j := by
  induction ids generalizing tx with
  | nil => exact ⟨tx, rfl, rfl, hu, fun _ h => absurd h not_mem_nil, fun _ h => h⟩
  | cons id ids ih =>
    obtain ⟨tx₁, e₁, hhive₁, hu₁, hid, hkeep₁⟩ := hu.snapshotCell id
    obtain ⟨tx₂, e₂, hhive₂, hu₂, hids, hkeep₂⟩ := ih hu₁
    refine ⟨tx₂, ?_, hhive₂.trans hhive₁, hu₂, ?_, fun j hj => hkeep₂ j (hkeep₁ j hj)⟩
    · rw [foldlM_cons, e₁]
      exact e₂
    · intro j hj
      rcases mem_cons.mp hj with rfl | hj
      · exact hkeep₂ j hid
      · exact hids j hj

/-- A hive operation may write saved and new cells. -/
theorem change {ids : List CellId} (hids : ∀ id ∈ ids, tx.Saves id) {h' : Hive}
    (a : Hive.Frame (tx.hive.touching ids) tx.hive h') : Undoes original { tx with hive := h' } :=
  { hu with
    cells := by
      refine hu.cells.change a.cells fun i hi hlt => ?_
      rcases hi with hmem | hnew
      · exact hids i hmem (by rw [hu.originalCellsLen]; exact hlt)
      · exact absurd (hlt.trans_le hu.cells.length_le) (not_lt.mpr hnew)
    valueBlobs := hu.valueBlobs.trans a.valueBlobs
    pendingValueJournal := a.pendingValueJournal.trans hu.pendingValueJournal
    root := a.root.trans hu.root
    kind := a.kind.trans hu.kind }

end

end Undoes

/-! ## Operations of a transaction are operations of the hive -/

/-- An operation of the transaction does to the hive what `q` says, and can be undone. -/
structure Implements {α : Type} (original : Hive) (p : Option (α × HiveTransaction))
    (q : Option (α × Hive)) : Prop where
  result : p.map (fun r => (r.1, r.2.hive)) = q
  undoes : ∀ r ∈ p, Undoes original r.2

variable {original : Hive} {tx : HiveTransaction} {α : Type}

theorem Implements.pure (hu : Undoes original tx) (a : α) :
    Implements original (some (a, tx)) (some (a, tx.hive)) where
  result := rfl
  undoes r hr := by
    obtain rfl := Option.some.inj hr
    exact hu

theorem Implements.none : Implements original (none : Option (α × HiveTransaction)) none where
  result := rfl
  undoes _ hr := nomatch hr

section

variable {β : Type} {p : Option (α × HiveTransaction)} {q : Option (α × Hive)}
  (hp : Implements original p q)
include hp

theorem Implements.map (f : α → β) :
    Implements original (p.map (Prod.map f id)) (q.map (Prod.map f id)) where
  result := by
    rw [← hp.result, Option.map_map, Option.map_map]
    rfl
  undoes r hr := by
    obtain ⟨r', hr', rfl⟩ := map_eq_some_iff.mp hr
    exact hp.undoes r' hr'

theorem Implements.bind {f : α × HiveTransaction → Option (β × HiveTransaction)}
    {g : α × Hive → Option (β × Hive)}
    (hf : ∀ a tx, Undoes original tx → Implements original (f (a, tx)) (g (a, tx.hive))) :
    Implements original (p.bind f) (q.bind g) := by
  obtain ⟨rfl, hundoes⟩ := hp
  cases p with
  | none => exact .none
  | some r => exact hf r.1 r.2 (hundoes r rfl)

end

/-- The cells an operation can write are saved, and then it is performed. -/
theorem implements_of_snapshot (hu : Undoes original tx) (ids : List CellId)
    {op : Hive → Option (α × Hive)}
    (hframe : ∀ a h', op tx.hive = some (a, h') → Hive.Frame (tx.hive.touching ids) tx.hive h') :
    Implements original ((ids.foldlM snapshotCell tx).bind (·.perform op)) (op tx.hive) := by
  obtain ⟨tx', e, hhive, hu', hids, -⟩ := hu.snapshotCells ids
  rw [e, bind_some, perform, hhive]
  constructor
  · rw [Option.map_map]
    exact Option.map_id'
  · intro r hr
    obtain ⟨⟨a, h'⟩, ha, rfl⟩ := map_eq_some_iff.mp hr
    have a' := hframe a h' ha
    rw [← hhive] at a'
    exact hu'.change hids a'

theorem snapshotCell_eq_foldlM (tx : HiveTransaction) (id : CellId) :
    tx.snapshotCell id = [id].foldlM snapshotCell tx := by
  exact (Option.bind_fun_some _).symm

theorem snapshotValue_eq_foldlM (hu : Undoes original tx) (key : CellId) (name : Str) :
    tx.snapshotValue key name = (tx.hive.valueCells key name).foldlM snapshotCell tx := by
  obtain ⟨tx', e, hhive, -⟩ := hu.snapshotCell key
  rw [snapshotValue, Hive.valueCells, foldlM_cons, e]
  simp only [Option.bind_eq_bind, bind_some, hhive]
  cases tx.hive.valueIdByName key name with
  | none => rfl
  | some value => exact snapshotCell_eq_foldlM tx' value

theorem snapshotKey_eq_foldlM (tx : HiveTransaction) (key : CellId) :
    tx.snapshotKey key = (tx.hive.keyCells key).foldlM snapshotCell tx := by
  rw [snapshotKey, Hive.keyCells]
  split <;> rfl

theorem createSubkey_implements (hu : Undoes original tx) (current : CellId) (component : Str)
    (hpending : tx.hive.pendingValueJournal = none) :
    Implements original (tx.createSubkey current component)
      (tx.hive.createSubkey current component) := by
  rw [createSubkey]
  split
  · rename_i child hchild
    have heq : tx.hive.createSubkey current component = some (child, tx.hive) := by
      simp only [Hive.createSubkey, hpending, Option.isSome_none, Bool.false_eq_true, if_false,
        Hive.createSubkeyInStorage, hchild]
    rw [heq]
    exact .pure hu child
  · rw [snapshotCell_eq_foldlM]
    refine implements_of_snapshot hu [current] fun _ _ e => ?_
    unfold Hive.createSubkey at e
    split_ifs at e
    exact Hive.createSubkeyInStorage_frame e

theorem foldlM_createSubkey_implements (hpending : original.pendingValueJournal = none)
    (names : List Str) (hu : Undoes original tx) (current : CellId) : Implements original
      (names.foldlM (fun (cur, tx) name => HiveTransaction.createSubkey tx cur name) (current, tx))
      (names.foldlM (fun (cur, h) name => Hive.createSubkey h cur name) (current, tx.hive)) := by
  induction names generalizing current tx with
  | nil => exact .pure hu current
  | cons name names ih =>
    have hstep := createSubkey_implements hu current name (hu.pendingValueJournal.trans hpending)
    exact hstep.bind fun child tx' hu' => ih hu' child

section

variable (hu : Undoes original tx)
include hu

theorem createKey_implements (path : Str) :
    Implements original (tx.createKey path) (tx.hive.createKey path) := by
  rw [createKey, Hive.createKey]
  split
  · exact .none
  · rename_i hpending
    refine foldlM_createSubkey_implements ?_ _ hu _
    rw [← hu.pendingValueJournal]
    exact Option.not_isSome_iff_eq_none.mp hpending

end

end HiveTransaction

/-- Outside of a transaction a child is created by one of its own. -/
def Hive.tryCreateChildWithOptions (h : Hive) (parent : CellId) (name : Str)
    (className : Option Str) (securityDescriptor : Bytes) (volatile reserved : Bool) :
    Option (Except CreateChildError CellId × Hive) :=
  (h.beginTransaction.tryCreateChildWithOptions parent name className securityDescriptor volatile
    reserved).map fun r => (r.1, r.2.commit)

namespace HiveTransaction

variable {original : Hive} {tx : HiveTransaction}

section

variable (hu : Undoes original tx) (parent : CellId) (name : Str) (className : Option Str)
  (securityDescriptor : Bytes) (volatile reserved : Bool)
include hu

theorem tryCreateChildWithOptions_perform : Implements original
      (tx.tryCreateChildWithOptions parent name className securityDescriptor volatile reserved)
      (match tx.hive.checkChild parent name securityDescriptor volatile reserved with
        | .error e => some (.error e, tx.hive)
        | .ok sequence => do
            let (id, h) ← tx.hive.publishChild parent name className securityDescriptor volatile
              sequence
            return (.ok id, h)) := by
  rw [tryCreateChildWithOptions]
  split
  · exact .pure hu _
  · rename_i sequence hcheck
    rw [snapshotCell_eq_foldlM]
    refine implements_of_snapshot hu [parent] fun a h' e => ?_
    obtain ⟨⟨id, h₁⟩, e₁, e⟩ := bind_eq_some_iff.mp e
    cases e
    obtain ⟨⟨new, h₂⟩, e₂, e₁⟩ := bind_eq_some_iff.mp e₁
    obtain ⟨h₃, e₃, e₁⟩ := bind_eq_some_iff.mp e₁
    cases e₁
    have a : Hive.Frame (tx.hive.touching [parent]) tx.hive h₃ :=
      (Hive.Frame.allocCell e₂).trans (.keyMut (Hive.mem_touching (mem_singleton_self _)) e₃)
    exact ⟨a.cells, a.valueBlobs, a.pendingValueJournal, a.root, a.kind⟩

/-- A child is created alike in every transaction on the same hive. -/
theorem tryCreateChildWithOptions_implements : Implements original
      (tx.tryCreateChildWithOptions parent name className securityDescriptor volatile reserved)
      (tx.hive.tryCreateChildWithOptions parent name className securityDescriptor volatile
        reserved) := by
  have hown := (tryCreateChildWithOptions_perform (undoes_begin tx.hive) parent name className
    securityDescriptor volatile reserved).result
  have hthis := tryCreateChildWithOptions_perform hu parent name className securityDescriptor
    volatile reserved
  constructor
  · exact hthis.result.trans hown.symm
  · exact hthis.undoes

end

end HiveTransaction

/-! ## Whole transactions -/

/-- The operations offered by a transaction; `reserved` says whether the allocator serves
the creation of a child. -/
inductive TransactionOp
  | createKey (path : Str)
  | setKeyClass (key : CellId) (className : Option Str)
  | setKeySecurityDescriptor (key : CellId) (descriptor : Bytes)
  | setValue (key : CellId) (name : Str) (valueType : RegistryValueType) (data : Bytes)
  | deleteValue (key : CellId) (name : Str)
  | deleteKey (key : CellId)
  | tryCreateChild (parent : CellId) (name : Str) (className : Option Str)
      (securityDescriptor : Bytes) (volatile reserved : Bool)

/-- What an operation returns. -/
inductive OpResult
  | cell (id : CellId)
  | done (changed : Bool)
  | deleted (result : Except DeleteKeyError Unit)
  | created (result : Except CreateChildError CellId)

namespace TransactionOp

/-- The operation in a transaction. -/
def inTransaction (tx : HiveTransaction) : TransactionOp → Option (OpResult × HiveTransaction)
  | createKey path => (tx.createKey path).map (Prod.map .cell id)
  | setKeyClass key c => (tx.setKeyClass key c).map (Prod.map .done id)
  | setKeySecurityDescriptor key d => (tx.setKeySecurityDescriptor key d).map (Prod.map .done id)
  | setValue key name ty data => (tx.setValue key name ty data).map (Prod.map .done id)
  | deleteValue key name => (tx.deleteValue key name).map (Prod.map .done id)
  | deleteKey key => (tx.deleteKey key).map (Prod.map .deleted id)
  | tryCreateChild parent name c d volatile reserved =>
    (tx.tryCreateChildWithOptions parent name c d volatile reserved).map (Prod.map .created id)

/-- The same operation on the hive itself. -/
def onHive (h : Hive) : TransactionOp → Option (OpResult × Hive)
  | createKey path => (h.createKey path).map (Prod.map .cell id)
  | setKeyClass key c => (h.setKeyClass key c).map (Prod.map .done id)
  | setKeySecurityDescriptor key d => (h.setKeySecurityDescriptor key d).map (Prod.map .done id)
  | setValue key name ty data => (h.setValue key name ty data).map (Prod.map .done id)
  | deleteValue key name => (h.deleteValue key name).map (Prod.map .done id)
  | deleteKey key => (h.deleteKey key).map (Prod.map .deleted id)
  | tryCreateChild parent name c d volatile reserved =>
    (h.tryCreateChildWithOptions parent name c d volatile reserved).map (Prod.map .created id)

open HiveTransaction in
theorem inTransaction_implements {original : Hive} {tx : HiveTransaction}
    (hu : tx.Undoes original) (op : TransactionOp) :
    Implements original (op.inTransaction tx) (op.onHive tx.hive) := by
  -- both refuse while a value journal is pending; otherwise the cells an operation can touch
  -- are saved before it runs
  cases op with
  | createKey path => exact (createKey_implements hu path).map _
  | setKeyClass key c =>
    refine Implements.map ?_ _
    rw [HiveTransaction.setKeyClass]
    split
    · rename_i hpending
      rw [Hive.setKeyClass, Hive.editKey, hpending, Bool.true_or]
      exact .pure hu false
    · rw [snapshotCell_eq_foldlM]
      exact implements_of_snapshot hu [key] fun _ _ => Hive.editKey_frame
  | setKeySecurityDescriptor key d =>
    refine Implements.map ?_ _
    rw [HiveTransaction.setKeySecurityDescriptor]
    split
    · rename_i hpending
      rw [Hive.setKeySecurityDescriptor, Hive.editKey, hpending, Bool.true_or]
      exact .pure hu false
    · rw [snapshotCell_eq_foldlM]
      exact implements_of_snapshot hu [key] fun _ _ => Hive.editKey_frame
  | setValue key name ty data =>
    refine Implements.map ?_ _
    rw [HiveTransaction.setValue]
    split
    · rename_i hpending
      rw [Hive.setValue, hpending, Bool.true_or]
      exact .pure hu false
    · rw [snapshotValue_eq_foldlM hu]
      exact implements_of_snapshot hu _ fun _ _ => Hive.setValue_frame
  | deleteValue key name =>
    refine Implements.map ?_ _
    rw [HiveTransaction.deleteValue]
    split
    · rename_i hpending
      rw [Hive.deleteValue, hpending]
      exact .pure hu false
    · rw [snapshotValue_eq_foldlM hu]
      exact implements_of_snapshot hu _ fun _ _ => Hive.deleteValue_frame
  | deleteKey key =>
    refine Implements.map ?_ _
    rw [HiveTransaction.deleteKey]
    split
    · rename_i hpending
      rw [Hive.deleteKey, hpending]
      exact .pure hu _
    · rw [snapshotKey_eq_foldlM]
      exact implements_of_snapshot hu _ fun _ _ => Hive.deleteKey_frame
  | tryCreateChild parent name c d volatile reserved =>
    exact (tryCreateChildWithOptions_implements hu parent name c d volatile reserved).map _

/-- A sequence of operations in one transaction, with what each returns. -/
def runInTransaction (tx : HiveTransaction) :
    List TransactionOp → Option (List OpResult × HiveTransaction)
  | [] => some ([], tx)
  | op :: ops =>
    (op.inTransaction tx).bind fun r =>
      (runInTransaction r.2 ops).map (Prod.map (r.1 :: ·) id)

/-- The same operations performed on the hive one by one. -/
def runOnHive (h : Hive) : List TransactionOp → Option (List OpResult × Hive)
  | [] => some ([], h)
  | op :: ops =>
    (op.onHive h).bind fun r => (runOnHive r.2 ops).map (Prod.map (r.1 :: ·) id)

theorem runInTransaction_implements {original : Hive} {tx : HiveTransaction}
    (hu : tx.Undoes original) (ops : List TransactionOp) :
    HiveTransaction.Implements original (runInTransaction tx ops) (runOnHive tx.hive ops) := by
  induction ops generalizing tx with
  | nil => exact .pure hu []
  | cons op ops ih =>
    exact (inTransaction_implements hu op).bind fun result tx' hu' => (ih hu').map _

/-- Any sequence of operations in a transaction on `h`, whatever they return, is undone
exactly by dropping the transaction: the hive is `h` again in every field.  Committing it
leaves the hive that the operations yield when performed directly, with the same results;
in particular one panics if and only if the other does. -/
theorem transaction_rolls_back_or_commits (h : Hive) (ops : List TransactionOp) :
    match runInTransaction h.beginTransaction ops with
    | none => runOnHive h ops = none
    | some (results, tx) => tx.rollback = some h ∧ runOnHive h ops = some (results, tx.commit) := by
  have himpl := runInTransaction_implements (HiveTransaction.undoes_begin h) ops
  have hresult := himpl.result
  split
  · rename_i hnone
    rw [hnone] at hresult
    exact hresult.symm
  · rename_i results tx hsome
    rw [hsome] at hresult
    exact ⟨(himpl.undoes _ hsome).rollback, hresult.symm⟩

end TransactionOp

end UserspaceNtos.HiveCore
