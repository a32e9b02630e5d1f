import UserspaceNtos.Lib.Arena
import Mathlib.Algebra.Group.Nat.Defs

/-!
# The registry hive

A hive is an arena of key and value cells addressed by cell id, together with a
directory of value payloads that value cells refer to by position.  Every operation
works on the arena: it looks cells up, writes them in place and appends new ones
under the next id.

An operation returns nothing where the code panics: on a failed assertion, an
`unwrap` of a missing cell or an overflow of a 64-bit counter.  Strings are lists of
Unicode scalar values, and names are compared up to the case of ASCII letters.
-/

namespace UserspaceNtos.HiveCore

/-- A cell handle; it is the position of the cell in the arena. -/
abbrev CellId := ℕ

/-- A Rust string. -/
abbrev Str := List Char

/-- Byte strings. -/
abbrev Bytes := List UInt8

/-- `HiveKind` -/
inductive HiveKind
  | system | software | default | sam | security
  deriving DecidableEq, Repr

/-- `KeyKind` -/
inductive KeyKind
  | ordinary | symbolicLink
  deriving DecidableEq, Repr

/-- `RegistryValueType` -/
inductive RegistryValueType
  | none | sz | expandSz | binary | dword | dwordBigEndian | link | multiSz | resourceList
  | fullResourceDescriptor | resourceRequirementsList | qword
  deriving DecidableEq, Repr

/-- `KeyCell` -/
structure KeyCell where
  kind : KeyKind
  id : CellId
  parent : Option CellId
  name : Str
  subkeys : List CellId
  values : List CellId
  className : Option Str
  securityDescriptor : Option Bytes
  lastWriteSequence : ℕ
  volatile : Bool
  deriving DecidableEq, Repr

/-- `ValueCell` -/
structure ValueCell where
  id : CellId
  parentKey : CellId
  name : Str
  valueType : RegistryValueType
  dataBlob : ℕ
  lastWriteSequence : ℕ
  deriving DecidableEq, Repr

/-- `Cell` -/
inductive Cell
  | key (k : KeyCell)
  | value (v : ValueCell)
  deriving DecidableEq, Repr

/-- `DeleteKeyError` -/
inductive DeleteKeyError
  | notFound | cannotDelete | retainedPublication
  deriving DecidableEq, Repr

/-- `HiveValueJournalPhase` -/
inductive HiveValueJournalPhase
  | appendEntered | flushEntered
  deriving DecidableEq, Repr

/-- A value record handed to the provider whose effect is not known yet. -/
structure PendingHiveValueJournal where
  sequence : ℕ
  phase : HiveValueJournalPhase
  record : Bytes
  deriving DecidableEq, Repr

/-- A mounted registry subtree.  Cells are only ever allocated at `nextId`, so the arena
never reaches beyond it. -/
structure Hive where
  pendingValueJournal : Option PendingHiveValueJournal
  cells : List (Option Cell)
  valueBlobs : List Bytes
  root : CellId
  nextId : ℕ
  kind : HiveKind
  generation : ℕ
  sequence : ℕ
  cleanSequence : ℕ
  length_cells_le : cells.length ≤ nextId
  deriving DecidableEq

/-- The addition of 64-bit counters, nothing on overflow. -/
def checkedAdd (a b : ℕ) : Option ℕ := if a + b < 2 ^ 64 then some (a + b) else none

/-- Equality up to the case of ASCII letters. -/
def eqIgnoreAsciiCase (a b : Str) : Bool := a.map Char.toLower == b.map Char.toLower

/-- The non-empty parts of a path between backslashes. -/
def components (path : Str) : List Str := (path.splitOn '\\').filter fun c => !c.isEmpty

/-- Each component behind a backslash. -/
def joined (parts : List Str) : Str := parts.flatMap ('\\' :: ·)

section Components

open List

theorem splitOn_joined {part : Str} {parts : List Str} (hfree : ∀ p ∈ part :: parts, '\\' ∉ p) :
    (part ++ joined parts).splitOn '\\' = part :: parts := by
  induction parts generalizing part with
  | nil => simpa [joined] using splitOn_eq_singleton (hfree part mem_cons_self)
  | cons next parts ih =>
    obtain ⟨hpart, hrest⟩ := forall_mem_cons.mp hfree
    exact (splitOn_append_cons_self_of_not_mem hpart _).trans (congrArg _ (ih hrest))

/-- The last piece of the front and the first piece of the rest are one piece of the whole. -/
theorem splitOn_append (front back : Str) :
    ∃ before first second after, front.splitOn '\\' = before ++ [first] ∧
      back.splitOn '\\' = second :: after ∧
      (front ++ back).splitOn '\\' = before ++ (first ++ second) :: after := by
  unfold splitOn
  induction front with
  | nil =>
    obtain ⟨second, after, hback⟩ := exists_cons_of_ne_nil (splitOnP_ne_nil (· == '\\') back)
    exact ⟨[], [], second, after, rfl, hback, hback⟩
  | cons c front ih =>
    obtain ⟨before, first, second, after, hfront, hback, hwhole⟩ := ih
    simp only [cons_append, splitOnP_cons_eq_if_modifyHead, hfront, hwhole]
    split
    · exact ⟨[] :: before, first, second, after, rfl, hback, rfl⟩
    · cases before with
      | nil => exact ⟨[], c :: first, second, after, rfl, hback, rfl⟩
      | cons part before => exact ⟨(c :: part) :: before, first, second, after, rfl, hback, rfl⟩

/-- A cut either leaves the components whole or divides one of them. -/
theorem components_append (front back : Str) :
    components (front ++ back) = components front ++ components back ∨
      ∃ before first second after, first ≠ [] ∧ components front = before ++ [first] ∧
        components back = second :: after ∧
        components (front ++ back) = before ++ (first ++ second) :: after := by
  obtain ⟨before, first, second, after, hfront, hback, hwhole⟩ := splitOn_append front back
  unfold components
  rw [hfront, hback, hwhole]
  by_cases hfirst : first = []
  · simp [hfirst, filter_append]
  by_cases hsecond : second = []
  · refine .inl ?_
    simp [hfirst, hsecond, filter_append]
  · refine .inr ⟨before.filter fun c => !c.isEmpty, first, second,
      after.filter fun c => !c.isEmpty, hfirst, ?_, ?_, ?_⟩
    all_goals simp [hfirst, hsecond, filter_append]

theorem not_mem_of_mem_splitOn {path part : Str} (hpart : part ∈ path.splitOn '\\') :
    '\\' ∉ part := by
  unfold splitOn at hpart
  induction path generalizing part with
  | nil =>
    rw [splitOnP_nil, mem_singleton] at hpart
    simp [hpart]
  | cons c path ih =>
    rw [splitOnP_cons_eq_if_modifyHead] at hpart
    split at hpart
    · rcases mem_cons.mp hpart with rfl | hpart
      · exact not_mem_nil
      · exact ih hpart
    · rename_i hc
      obtain ⟨first, after, hpath⟩ := exists_cons_of_ne_nil (splitOnP_ne_nil (· == '\\') path)
      rw [hpath] at hpart ih
      rcases mem_cons.mp hpart with rfl | hpart
      · rw [mem_cons, not_or]
        exact ⟨fun h => hc (by simp [h.symm]), ih mem_cons_self⟩
      · exact ih (mem_cons_of_mem _ hpart)

theorem mem_components {path part : Str} (hpart : part ∈ components path) :
    part ≠ [] ∧ '\\' ∉ part := by
  obtain ⟨hmem, hne⟩ := mem_filter.mp hpart
  exact ⟨by simpa using hne, not_mem_of_mem_splitOn hmem⟩

theorem components_joined {parts : List Str} (hvalid : ∀ part ∈ parts, part ≠ [] ∧ '\\' ∉ part) :
    components (joined parts) = parts := by
  have hsplit := @splitOn_joined [] parts
    (forall_mem_cons.mpr ⟨not_mem_nil, fun part hpart => (hvalid part hpart).2⟩)
  rw [nil_append] at hsplit
  rw [components, hsplit, filter_cons_of_neg (by simp), filter_eq_self]
  exact fun part hpart => by simpa using (hvalid part hpart).1

end Components

namespace Hive

/-! ## Looking cells up -/

/-- `key`: the key cell with this id. -/
def key (h : Hive) (id : CellId) : Option KeyCell :=
  match Arena.get h.cells id with
  | some (.key k) => some k
  | _ => none

/-- `value`: the value cell with this id. -/
def value (h : Hive) (id : CellId) : Option ValueCell :=
  match Arena.get h.cells id with
  | some (.value v) => some v
  | _ => none

/-- `is_volatile` -/
def isVolatile (h : Hive) (id : CellId) : Bool := (h.key id).any (·.volatile)

/-- The payload of a value, if its position in the directory is taken. -/
def valueData (h : Hive) (v : ValueCell) : Option Bytes := h.valueBlobs[v.dataBlob]?

/-- `open_subkey` -/
def openSubkey (h : Hive) (parent : CellId) (name : Str) : Option CellId := do
  let p ← h.key parent
  p.subkeys.find? fun id => (h.key id).any fun child => eqIgnoreAsciiCase child.name name

/-- `open_key` -/
def openKey (h : Hive) (path : Str) : Option CellId :=
  (components path).foldlM h.openSubkey h.root

/-- The cell is a value of this name. -/
def hasName (h : Hive) (name : Str) (id : CellId) : Bool :=
  (h.value id).any fun v => eqIgnoreAsciiCase v.name name

/-- `value_id_by_name` -/
def valueIdByName (h : Hive) (key : CellId) (name : Str) : Option CellId := do
  let k ← h.key key
  k.values.find? (h.hasName name)

/-- `query_value` -/
def queryValue (h : Hive) (key : CellId) (name : Str) : Option (RegistryValueType × Bytes) := do
  let k ← h.key key
  let v ← (k.values.filterMap h.value).find? fun v => eqIgnoreAsciiCase v.name name
  let data ← h.valueData v
  return (v.valueType, data)

/-- A cell of the durable image that was written after the last checkpoint. -/
def isDirty (h : Hive) : Option Cell → Bool
  | some (.key k) => !k.volatile && h.cleanSequence < k.lastWriteSequence
  | some (.value v) => !h.isVolatile v.parentKey && h.cleanSequence < v.lastWriteSequence
  | none => false

/-- `dirty_count` -/
def dirtyCount (h : Hive) : ℕ := h.cells.countP h.isDirty

/-! ## Writing cells -/

/-- An existing cell is overwritten. -/
def setCell (h : Hive) (id : CellId) (c : Option Cell) : Hive :=
  { h with
    cells := h.cells.set id c
    length_cells_le := by rw [List.length_set]; exact h.length_cells_le }

/-- A key cell that has to exist is changed. -/
def keyMut (h : Hive) (id : CellId) (f : KeyCell → KeyCell) : Option Hive :=
  (h.key id).map fun k => h.setCell id (some (.key (f k)))

/-- The cell carries the current sequence, unless it is not part of the durable image. -/
def markDirty (h : Hive) (id : CellId) : Hive :=
  if h.isVolatile id || (h.value id).any (fun v => h.isVolatile v.parentKey) then h
  else
    match Arena.get h.cells id with
    | some (.key k) => h.setCell id (some (.key { k with lastWriteSequence := h.sequence }))
    | some (.value v) => h.setCell id (some (.value { v with lastWriteSequence := h.sequence }))
    | none => h

/-- The sequence counts the changes of the durable image. -/
def advance (h : Hive) (volatile : Bool) : Option Hive :=
  if volatile then some h
  else (checkedAdd h.sequence 1).map fun sequence => { h with sequence := sequence }

/-- A cell id is allocated and a new cell pushed under it. -/
def allocCell (h : Hive) (cell : CellId → Cell) : Option (CellId × Hive) :=
  if h.nextId + 1 < 2 ^ 64 then
    some (h.nextId,
      { h with
        cells := Arena.put h.cells h.nextId (cell h.nextId)
        nextId := h.nextId + 1
        length_cells_le := by
          rw [Arena.length_put]
          have := h.length_cells_le
          omega })
  else none

/-- `alloc_key` -/
def allocKey (h : Hive) (parent : Option CellId) (name : Str) : Option (CellId × Hive) :=
  h.allocCell fun id => .key
    { kind := .ordinary, id := id, parent := parent, name := name, subkeys := [], values := [],
      className := none, securityDescriptor := none, lastWriteSequence := h.sequence,
      volatile := parent.any h.isVolatile }

/-- The position of a payload in the directory, which it joins if it is not there yet. -/
def internValueData (h : Hive) (data : Bytes) : ℕ × Hive :=
  match h.valueBlobs.findIdx? (· == data) with
  | some index => (index, h)
  | none => (h.valueBlobs.length, { h with valueBlobs := h.valueBlobs ++ [data] })

/-! ## Keys -/

/-- A hive with a root key, which is the first cell to be allocated. -/
def new (kind : HiveKind) : Hive where
  pendingValueJournal := none
  cells := Arena.put [] 1 (.key
    { kind := .ordinary, id := 1, parent := none, name := [], subkeys := [], values := [],
      className := none, securityDescriptor := none, lastWriteSequence := 0, volatile := false })
  valueBlobs := []
  root := 1
  nextId := 2
  kind := kind
  generation := 0
  sequence := 0
  cleanSequence := 0
  length_cells_le := by rw [Arena.length_put]; decide

/-- `create_subkey_in_storage` -/
def createSubkeyInStorage (h : Hive) (parent : CellId) (name : Str) (volatile : Bool) :
    Option (CellId × Hive) :=
  match h.openSubkey parent name with
  | some id => some (id, h)
  | none => do
      let h ← h.advance volatile
      let (id, h) ← h.allocKey (some parent) name
      let h ← h.keyMut id fun k => { k with volatile := volatile }
      let h ← h.keyMut parent fun k => { k with subkeys := k.subkeys ++ [id] }
      let h := if volatile then h else h.markDirty parent
      return (id, h.markDirty id)

/-- `create_subkey` -/
def createSubkey (h : Hive) (parent : CellId) (name : Str) : Option (CellId × Hive) :=
  if h.pendingValueJournal.isSome then none
  else h.createSubkeyInStorage parent name (h.isVolatile parent)

/-- `create_key` -/
def createKey (h : Hive) (path : Str) : Option (CellId × Hive) :=
  if h.pendingValueJournal.isSome then none
  else (components path).foldlM (fun (cur, h) name => h.createSubkey cur name) (h.root, h)

/-- A field of an existing key is changed under the next sequence. -/
def editKey (h : Hive) (key : CellId) (edit : KeyCell → KeyCell) : Option (Bool × Hive) :=
  if h.pendingValueJournal.isSome || (h.key key).isNone then some (false, h)
  else do
    let h ← h.advance (h.isVolatile key)
    match h.keyMut key fun k => { edit k with lastWriteSequence := h.sequence } with
    | some h => return (true, h.markDirty key)
    | none => return (false, h)

/-- `set_key_class` -/
def setKeyClass (h : Hive) (key : CellId) (className : Option Str) : Option (Bool × Hive) :=
  h.editKey key fun k => { k with className := className }

/-- `set_key_security_descriptor` -/
def setKeySecurityDescriptor (h : Hive) (key : CellId) (descriptor : Bytes) :
    Option (Bool × Hive) :=
  h.editKey key fun k => { k with securityDescriptor := some descriptor }

/-- Unlike the other edits, setting the kind a key already has is no change. -/
def setKeyKind (h : Hive) (key : CellId) (kind : KeyKind) : Option (Bool × Hive) :=
  if h.pendingValueJournal.isSome then some (false, h)
  else
    match h.key key with
    | none => some (false, h)
    | some current =>
      if current.kind = kind then some (true, h)
      else do
        let h ← h.advance current.volatile
        let h ← h.keyMut key fun k => { k with kind := kind, lastWriteSequence := h.sequence }
        return (true, h.markDirty key)

/-- A cell that exists is freed. -/
def clearCell (h : Hive) (id : CellId) : Hive :=
  if id < h.cells.length then (h.setCell id none).markDirty id else h

/-- A key is taken off the list of its parent. -/
def unlinkSubkey (h : Hive) (parent key : CellId) (volatile : Bool) : Option Hive := do
  let h ← h.keyMut parent fun p =>
    { p with
      subkeys := p.subkeys.filter (· != key)
      lastWriteSequence := if volatile then p.lastWriteSequence else h.sequence }
  return if volatile then h else h.markDirty parent

/-- `delete_key` -/
def deleteKey (h : Hive) (key : CellId) : Option (Except DeleteKeyError Unit × Hive) :=
  if h.pendingValueJournal.isSome then some (.error .retainedPublication, h)
  else if key = h.root then some (.error .cannotDelete, h)
  else
    match h.key key with
    | none => some (.error .notFound, h)
    | some cell =>
      match cell.subkeys.isEmpty, cell.parent with
      | true, some parent => do
          let volatile := h.isVolatile key
          let h ← h.advance volatile
          match h.unlinkSubkey parent key volatile with
          | none => return (.error .notFound, h)
          | some h =>
            let h := cell.values.foldl clearCell h
            if key < h.cells.length then return (.ok (), h.clearCell key)
            else return (.error .notFound, h)
      | _, _ => some (.error .cannotDelete, h)

/-! ## Values -/

/-- A value cell that has to exist takes a new type and payload. -/
def replaceValue (h : Hive) (id : CellId) (valueType : RegistryValueType) (blob : ℕ) :
    Option Hive :=
  (h.value id).map fun v => h.setCell id (some (.value
    { v with valueType := valueType, dataBlob := blob, lastWriteSequence := h.sequence }))

/-- A new value cell is pushed and linked to its key. -/
def addValue (h : Hive) (key : CellId) (name : Str) (valueType : RegistryValueType) (blob : ℕ) :
    Option Hive := do
  let (id, h) ← h.allocCell fun id => .value
    { id := id, parentKey := key, name := name, valueType := valueType, dataBlob := blob,
      lastWriteSequence := h.sequence }
  let h ← h.keyMut key fun k => { k with values := k.values ++ [id] }
  return (h.markDirty key).markDirty id

/-- `set_value` -/
def setValue (h : Hive) (key : CellId) (name : Str) (valueType : RegistryValueType)
    (data : Bytes) : Option (Bool × Hive) :=
  if h.pendingValueJournal.isSome || (h.key key).isNone then some (false, h)
  else do
    let (blob, h) := h.internValueData data
    let h ← h.advance (h.isVolatile key)
    match h.valueIdByName key name with
    | some id => return (true, ((h.replaceValue id valueType blob).getD h).markDirty id)
    | none => return (true, ← h.addValue key name valueType blob)

/-- The value shares the payload of another one, which is in the directory already. -/
def setValueFromExistingValue (h : Hive) (key : CellId) (name : Str)
    (valueType : RegistryValueType) (source : CellId) : Option (Bool × Hive) :=
  if h.pendingValueJournal.isSome || (h.key key).isNone then some (false, h)
  else
    match h.value source with
    | none => some (false, h)
    | some shared => do
        let h ← h.advance (h.isVolatile key)
        match h.valueIdByName key name with
        | some id =>
          match h.replaceValue id valueType shared.dataBlob with
          | some h => return (true, h.markDirty id)
          | none => return (false, h)
        | none => return (true, ← h.addValue key name valueType shared.dataBlob)

/-- `delete_value` -/
def deleteValue (h : Hive) (key : CellId) (name : Str) : Option (Bool × Hive) :=
  if h.pendingValueJournal.isSome then some (false, h)
  else
    match h.valueIdByName key name with
    | none => some (false, h)
    | some id => do
        let found := h.hasName name
        let h ← h.advance (h.isVolatile key)
        match h.keyMut key fun k =>
          { k with values := k.values.eraseP found, lastWriteSequence := h.sequence } with
        | none => return (false, h)
        | some h => return (true, ((h.setCell id none).markDirty key).markDirty id)

/-! ## Lookups depend on the arena only -/

section

variable {h h' : Hive}

section

variable (hcells : h'.cells = h.cells)
include hcells

theorem key_congr : h'.key = h.key := by
  funext id
  rw [key, key, hcells]

theorem value_congr : h'.value = h.value := by
  funext id
  rw [value, value, hcells]

theorem hasName_congr : h'.hasName = h.hasName := by
  funext name id
  rw [hasName, hasName, value_congr hcells]

theorem valueIdByName_congr : h'.valueIdByName = h.valueIdByName := by
  funext key name
  rw [valueIdByName, valueIdByName, key_congr hcells, hasName_congr hcells]

end

theorem allocCell_eq_some {cell : CellId → Cell} {id : CellId}
    (e : h.allocCell cell = some (id, h')) : id = h.nextId ∧ h' =
      { h with
        cells := Arena.put h.cells h.nextId (cell h.nextId)
        nextId := h.nextId + 1
        length_cells_le := by
          rw [Arena.length_put]
          have := h.length_cells_le
          omega } := by
  rw [allocCell] at e
  split at e
  · cases e
    exact ⟨rfl, rfl⟩
  · cases e

theorem cells_of_advance {volatile : Bool} (e : h.advance volatile = some h') :
    h'.cells = h.cells := by
  rw [advance] at e
  split at e
  · rw [Option.some.inj e]
  · obtain ⟨sequence, -, rfl⟩ := Option.map_eq_some_iff.mp e
    rfl

@[simp] theorem cells_internValueData (data : Bytes) :
    (h.internValueData data).2.cells = h.cells := by
  rw [internValueData]
  split <;> rfl

end

end Hive

end UserspaceNtos.HiveCore
