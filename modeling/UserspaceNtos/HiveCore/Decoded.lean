import UserspaceNtos.HiveCore.Image
import Mathlib.Data.List.Nodup

/-!
# What the decoder builds

The decoder accepts any list of records, whatever the ids in it.  `keyAt` and `valueAt`
say what becomes of one id when records are read: a later record of the same id replaces
an earlier one, and a key loses the values listed so far when its record is repeated.
`Decoded` relates the hive built from some records to these, by induction over the
records.
-/

namespace UserspaceNtos.HiveCore

open List Function

/-! ## Numbering ids -/

section Numbering

variable {ids ids' : List CellId} {raw r : CellId}

/-- The ids after `raw` has been met. -/
def addId (ids : List CellId) (raw : CellId) : List CellId :=
  if raw ∈ ids then ids else ids ++ [raw]

theorem mapDecodedCellId_eq (ids : List CellId) (raw : CellId) :
    mapDecodedCellId ids raw = ((addId ids raw).idxOf raw, addId ids raw) := by
  rw [mapDecodedCellId, compactCellId, addId]
  by_cases h : raw ∈ ids
  · simp only [if_pos h]
  · simp only [if_neg h]
    rw [idxOf_append_of_notMem h, idxOf_cons_self, Nat.add_zero]

theorem prefix_addId (ids : List CellId) (raw : CellId) : ids <+: addId ids raw := by
  rw [addId]
  split
  · exact prefix_rfl
  · exact prefix_append _ _

theorem mem_addId (ids : List CellId) (raw : CellId) : raw ∈ addId ids raw := by
  rw [addId]
  split
  · assumption
  · exact mem_append_right _ (mem_singleton_self _)

theorem nodup_addId (h : ids.Nodup) (raw : CellId) : (addId ids raw).Nodup := by
  rw [addId]
  split
  · exact h
  · rename_i hraw
    rw [nodup_append]
    refine ⟨h, nodup_singleton _, ?_⟩
    intro a ha b hb
    rw [mem_singleton.mp hb]
    rintro rfl
    exact hraw ha

/-- Ids met keep their number. -/
theorem idxOf_extend (h : ids <+: ids') (hr : r ∈ ids) : ids'.idxOf r = ids.idxOf r := by
  obtain ⟨rest, rfl⟩ := h
  exact idxOf_append_of_mem hr

/-- Ids met later have later numbers. -/
theorem length_le_idxOf (h : ids <+: ids') (hr : r ∉ ids) : ids.length ≤ ids'.idxOf r := by
  obtain ⟨rest, rfl⟩ := h
  rw [idxOf_append_of_notMem hr]
  omega

theorem idxOf_inj_of_mem {a b : CellId} (ha : a ∈ ids) (h : ids.idxOf a = ids.idxOf b) : a = b :=
  (idxOf_inj ha).mp h

end Numbering

/-! ## One id -/

/-- The key with raw id `r` and the values it lists, after one more record. -/
def keyStep (r : CellId) (st : Option (KeyRecord × List CellId)) :
    Record → Option (KeyRecord × List CellId)
  | .key k => if k.id = r then some (k, []) else st
  | .value v =>
    if v.id = r then none
    else if v.parentKey = r then st.map fun s => (s.1, s.2 ++ [v.id])
    else st

/-- The value with raw id `r` after one more record. -/
def valueStep (r : CellId) (st : Option ValueRecord) : Record → Option ValueRecord
  | .key k => if k.id = r then none else st
  | .value v => if v.id = r then some v else st

/-- The key that the records leave under the raw id `r`, and the values it lists. -/
def keyAt (recs : List Record) (r : CellId) : Option (KeyRecord × List CellId) :=
  recs.foldl (keyStep r) none

/-- The value that the records leave under the raw id `r`. -/
def valueAt (recs : List Record) (r : CellId) : Option ValueRecord :=
  recs.foldl (valueStep r) none

theorem keyAt_concat (recs : List Record) (rec : Record) (r : CellId) :
    keyAt (recs ++ [rec]) r = keyStep r (keyAt recs r) rec := by
  rw [keyAt, foldl_append]
  rfl

theorem valueAt_concat (recs : List Record) (rec : Record) (r : CellId) :
    valueAt (recs ++ [rec]) r = valueStep r (valueAt recs r) rec := by
  rw [valueAt, foldl_append]
  rfl

/-! ## The hive built from records -/

/-- The key cell for a key record under the id `r` that lists the values `l`. -/
def decodedKey (root : CellId) (ids : List CellId) (r : CellId) (k : KeyRecord)
    (l : List CellId) : KeyCell where
  kind := k.kind
  id := ids.idxOf r
  parent := if r = root then none else some (ids.idxOf k.parent)
  name := k.name
  subkeys := []
  values := l.map ids.idxOf
  className := k.className
  securityDescriptor := k.securityDescriptor
  lastWriteSequence := k.sequence
  volatile := false

/-- A value cell is the one for a value record under the id `r`. -/
structure DecodedValue (ids : List CellId) (blobs : List Bytes) (r : CellId) (v : ValueRecord)
    (cell : ValueCell) : Prop where
  id : cell.id = ids.idxOf r
  parentKey : cell.parentKey = ids.idxOf v.parentKey
  name : cell.name = v.name
  valueType : RegistryValueType.fromU32 v.valueType = some cell.valueType
  data : blobs[cell.dataBlob]? = some v.data
  lastWriteSequence : cell.lastWriteSequence = v.sequence

/-- The decoder has built the hive that the records describe, starting from `start`. -/
structure Decoded (root : CellId) (start : Hive) (recs : List Record) (d : Decoder) : Prop where
  nodup : d.idMap.Nodup
  root_first : [root] <+: d.idMap
  key_mem : ∀ {r k l}, keyAt recs r = some (k, l) →
    r ∈ d.idMap ∧ (r ≠ root → k.parent ∈ d.idMap) ∧ ∀ x ∈ l, x ∈ d.idMap
  value_mem : ∀ {r v}, valueAt recs r = some v → r ∈ d.idMap ∧ v.parentKey ∈ d.idMap
  key : ∀ r ∈ d.idMap, d.hive.key (d.idMap.idxOf r) =
    (keyAt recs r).map fun s => decodedKey root d.idMap r s.1 s.2
  value : ∀ {r v}, valueAt recs r = some v → ∃ cell, d.hive.value (d.idMap.idxOf r) = some cell ∧
    DecodedValue d.idMap d.hive.valueBlobs r v cell
  value_none : ∀ r ∈ d.idMap, valueAt recs r = none → d.hive.value (d.idMap.idxOf r) = none
  outside : ∀ j, d.idMap.length ≤ j → d.hive.cell j = none
  header : ∃ blobs nextId, nextId ≤ d.idMap.length ∧ d.hive.header =
    { start.header with valueBlobs := blobs, nextId := nextId }

theorem Hive.cell_insertCell (h : Hive) (id : CellId) (c : Cell) :
    (h.insertCell id c).cell = Function.update h.cell id (some c) := by
  funext j
  rw [update_apply]
  exact Arena.get_put _ _ _ _

variable {ids : List CellId} {r : ValueRecord} {d' : Decoder} {h : Hive}

/-- Under a longer list of ids the cells are the same. -/
theorem decodedKey_extend {root r : CellId} {ids' : List CellId} {k : KeyRecord} {l : List CellId}
    (h : ids <+: ids') (hr : r ∈ ids) (hp : r ≠ root → k.parent ∈ ids)
    (hl : ∀ x ∈ l, x ∈ ids) : decodedKey root ids' r k l = decodedKey root ids r k l := by
  have hvalues : l.map ids'.idxOf = l.map ids.idxOf :=
    map_congr_left fun x hx => idxOf_extend h (hl x hx)
  have hparent : (if r = root then none else some (ids'.idxOf k.parent)) =
      if r = root then none else some (ids.idxOf k.parent) := by
    split
    · rfl
    · rw [idxOf_extend h (hp ‹_›)]
  rw [decodedKey, decodedKey, hvalues, hparent, idxOf_extend h hr]

theorem DecodedValue.extend {r : CellId} {ids' : List CellId} {blobs blobs' : List Bytes}
    {v : ValueRecord} {cell : ValueCell} (hv : DecodedValue ids blobs r v cell) (h : ids <+: ids')
    (hb : blobs <+: blobs') (hr : r ∈ ids) (hp : v.parentKey ∈ ids) :
    DecodedValue ids' blobs' r v cell where
  id := by rw [hv.id, idxOf_extend h hr]
  parentKey := by rw [hv.parentKey, idxOf_extend h hp]
  name := hv.name
  valueType := hv.valueType
  data := by
    obtain ⟨rest, rfl⟩ := hb
    rw [List.getElem?_append_left (List.getElem?_eq_some_iff.mp hv.data).1, hv.data]
  lastWriteSequence := hv.lastWriteSequence

/-- The ids met once a key record has been read. -/
def keyIds (root : CellId) (ids : List CellId) (k : KeyRecord) : List CellId :=
  if k.id = root then addId ids k.id else addId (addId ids k.id) k.parent

theorem prefix_keyIds (root : CellId) (ids : List CellId) (k : KeyRecord) :
    addId ids k.id <+: keyIds root ids k := by
  rw [keyIds]
  split
  · exact prefix_rfl
  · exact prefix_addId _ _

theorem addKey_eq (d : Decoder) (root : CellId) (k : KeyRecord) : d.addKey root k =
      { d with
        hive := d.hive.insertKey (decodedKey root (keyIds root d.idMap k) k.id k [])
        idMap := keyIds root d.idMap k } := by
  have hid := idxOf_extend (prefix_keyIds root d.idMap k) (mem_addId d.idMap k.id)
  rw [Decoder.addKey, decodedKey, hid, keyIds]
  simp only [mapDecodedCellId_eq]
  split <;> rfl

variable {root : CellId} {start : Hive} {recs : List Record} {d : Decoder}

open Hive

/-- More ids can be met without a record. -/
theorem Decoded.extend (hd : Decoded root start recs d) (hpre : d.idMap <+: ids)
    (hnodup : ids.Nodup) : Decoded root start recs { d with idMap := ids } where
  nodup := hnodup
  root_first := hd.root_first.trans hpre
  key_mem hk :=
    have ⟨hr, hp, hl⟩ := hd.key_mem hk
    ⟨hpre.subset hr, fun hne => hpre.subset (hp hne), fun x hx => hpre.subset (hl x hx)⟩
  value_mem hv :=
    have ⟨hr, hp⟩ := hd.value_mem hv
    ⟨hpre.subset hr, hpre.subset hp⟩
  key r hr := by
    by_cases hmem : r ∈ d.idMap
    · rw [idxOf_extend hpre hmem, hd.key r hmem]
      cases hk : keyAt recs r with
      | none => rfl
      | some s =>
        obtain ⟨-, hp, hl⟩ := hd.key_mem hk
        exact congrArg some (decodedKey_extend hpre hmem hp hl).symm
    · have hnone : keyAt recs r = none :=
        Option.eq_none_iff_forall_ne_some.mpr fun s hk => hmem (hd.key_mem hk).1
      rw [hnone, key_eq_asKey, hd.outside _ (length_le_idxOf hpre hmem)]
      rfl
  value hv := by
    obtain ⟨hr, hp⟩ := hd.value_mem hv
    obtain ⟨cell, hcell, hdec⟩ := hd.value hv
    exact ⟨cell, idxOf_extend hpre hr ▸ hcell, hdec.extend hpre prefix_rfl hr hp⟩
  value_none r hr hv := by
    by_cases hmem : r ∈ d.idMap
    · rw [idxOf_extend hpre hmem]
      exact hd.value_none r hmem hv
    · rw [value_eq_asValue, hd.outside _ (length_le_idxOf hpre hmem)]
      rfl
  outside j hj := hd.outside j (hpre.length_le.trans hj)
  header :=
    have ⟨blobs, nextId, hle, hheader⟩ := hd.header
    ⟨blobs, nextId, hle.trans hpre.length_le, hheader⟩

/-- A key record whose ids have been met. -/
theorem Decoded.insertKey (hd : Decoded root start recs d) {k : KeyRecord}
    (hid : k.id ∈ d.idMap) (hparent : k.id ≠ root → k.parent ∈ d.idMap) :
    Decoded root start (recs ++ [.key k])
      { d with hive := d.hive.insertKey (decodedKey root d.idMap k.id k []) } := by
  have hcell := cell_insertCell d.hive (d.idMap.idxOf k.id)
    (.key (decodedKey root d.idMap k.id k []))
  have hkey : ∀ j, (d.hive.insertKey (decodedKey root d.idMap k.id k [])).key j =
      if j = d.idMap.idxOf k.id then some (decodedKey root d.idMap k.id k [])
      else d.hive.key j := key_of_update_key hcell
  have hvalue : ∀ j, (d.hive.insertKey (decodedKey root d.idMap k.id k [])).value j =
      if j = d.idMap.idxOf k.id then none else d.hive.value j := by
    intro j
    exact (congrArg Cell.asValue (congrFun hcell j)).trans (asValue_update _ _ _)
  refine ⟨hd.nodup, hd.root_first, ?_, ?_, ?_, ?_, ?_, ?_, ?_⟩
  · intro r k' l hk
    rw [keyAt_concat, keyStep] at hk
    split at hk
    · rename_i heq
      obtain ⟨rfl, rfl⟩ := Prod.mk.inj (Option.some.inj hk)
      exact ⟨heq ▸ hid, heq ▸ hparent, fun x hx => (nomatch hx)⟩
    · exact hd.key_mem hk
  · intro r v hv
    rw [valueAt_concat, valueStep] at hv
    split_ifs at hv
    exact hd.value_mem hv
  -- two ids that were met have different cells, so the other keys stay
  · intro r hr
    rw [keyAt_concat, keyStep, hkey]
    by_cases heq : k.id = r
    · rw [if_pos heq, heq, if_pos rfl]
      rfl
    · rw [if_neg heq, if_neg fun h => heq (idxOf_inj_of_mem hid h.symm)]
      exact hd.key r hr
  · intro r v hv
    rw [valueAt_concat, valueStep] at hv
    split_ifs at hv with hne
    obtain ⟨cell, hcell', hdec⟩ := hd.value hv
    refine ⟨cell, ?_, hdec⟩
    rw [hvalue, if_neg fun h => hne (idxOf_inj_of_mem hid h.symm)]
    exact hcell'
  · intro r hr hv
    rw [valueAt_concat, valueStep] at hv
    rw [hvalue]
    split at hv
    · rename_i heq
      rw [heq, if_pos rfl]
    · rename_i hne
      rw [if_neg fun h => hne (idxOf_inj_of_mem hid h.symm)]
      exact hd.value_none r hr hv
  · intro j hj
    have hne : j ≠ d.idMap.idxOf k.id := ((idxOf_lt_length_of_mem hid).trans_le hj).ne'
    exact (congrFun hcell j).trans ((update_of_ne hne _ _).trans (hd.outside j hj))
  · obtain ⟨blobs, nextId, hle, hheader⟩ := hd.header
    refine ⟨blobs, max nextId (d.idMap.idxOf k.id + 1), ?_, ?_⟩
    · exact max_le hle (idxOf_lt_length_of_mem hid)
    · rw [Header.mk.injEq] at hheader ⊢
      obtain ⟨h1, h2, h3, h4, h5⟩ := hheader
      exact ⟨h1, h2, h3, congrArg (max · _) h4, h5⟩

theorem Decoded.addKey (hd : Decoded root start recs d) (k : KeyRecord) :
    Decoded root start (recs ++ [.key k]) (d.addKey root k) := by
  have hpre := prefix_keyIds root d.idMap k
  have hnodup : (keyIds root d.idMap k).Nodup := by
    rw [keyIds]
    split
    · exact nodup_addId hd.nodup _
    · exact nodup_addId (nodup_addId hd.nodup _) _
  rw [addKey_eq]
  refine (hd.extend ((prefix_addId _ _).trans hpre) hnodup).insertKey ?_ ?_
  · exact hpre.subset (mem_addId _ _)
  · intro hne
    simp only [keyIds, if_neg hne]
    exact mem_addId _ _

/-- The key lists one more value. -/
def KeyCell.listValue (k : KeyCell) (id : CellId) : KeyCell :=
  { k with values := k.values ++ [id] }

theorem Hive.header_insertValue (h : Hive) (v : ValueCell) :
    (h.insertValue v).header = { h.header with nextId := max h.nextId (v.id + 1) } := by
  rw [insertValue]
  cases hk : ((h.insertCell v.id (.value v)).keyMut v.parentKey
      fun k => { k with values := k.values ++ [v.id] }) with
  | none => rfl
  | some h' =>
    obtain ⟨k, -, hheader, -⟩ := keyMut_eq_some hk
    exact hheader

/-- The cell of the value, and that of its key if the value has not taken its place. -/
theorem Hive.cell_insertValue (h : Hive) (v : ValueCell) (j : CellId) : (h.insertValue v).cell j =
      if j = v.id then some (.value v)
      else if j = v.parentKey then
        ((h.key j).map fun k => .key (k.listValue v.id)).or (h.cell j)
      else h.cell j := by
  have hcell := h.cell_insertCell v.id (.value v)
  have hkey : (h.insertCell v.id (.value v)).key v.parentKey =
      if v.parentKey = v.id then none else h.key v.parentKey :=
    (congrArg Cell.asKey (congrFun hcell _)).trans (asKey_update _ _ _)
  rw [insertValue]
  cases hk : ((h.insertCell v.id (.value v)).keyMut v.parentKey
      fun k => { k with values := k.values ++ [v.id] }) with
  | none =>
    have hnone := Option.map_eq_none_iff.mp hk
    rw [Option.getD_none, hcell, update_apply]
    by_cases hj : j = v.id
    · rw [if_pos hj, if_pos hj]
    · rw [if_neg hj, if_neg hj]
      by_cases hp : j = v.parentKey
      · rw [hkey, if_neg (hp ▸ hj)] at hnone
        rw [if_pos hp, hp, hnone]
        rfl
      · rw [if_neg hp]
  | some h' =>
    obtain ⟨k, hk', -, hcell'⟩ := keyMut_eq_some hk
    rw [hkey] at hk'
    have hne : v.parentKey ≠ v.id := fun heq => by
      rw [if_pos heq] at hk'
      cases hk'
    rw [if_neg hne] at hk'
    rw [Option.getD_some, hcell', update_apply, hcell, update_apply]
    by_cases hp : j = v.parentKey
    · rw [if_pos hp, hp, if_neg hne, if_pos rfl, hk']
      rfl
    · rw [if_neg hp]
      by_cases hj : j = v.id
      · rw [if_pos hj, if_pos hj]
      · rw [if_neg hj, if_neg hj, if_neg hp]

theorem Hive.key_insertValue (h : Hive) (v : ValueCell) (j : CellId) : (h.insertValue v).key j =
      if j = v.id then none
      else if j = v.parentKey then (h.key j).map fun k => k.listValue v.id
      else h.key j := by
  rw [key_eq_asKey, cell_insertValue]
  split
  · rfl
  · split
    · rw [key_eq_asKey]
      rcases h.cell j with _ | ⟨k | v⟩ <;> rfl
    · rfl

theorem Hive.value_insertValue (h : Hive) (v : ValueCell) (j : CellId) :
    (h.insertValue v).value j = if j = v.id then some v else h.value j := by
  rw [value_eq_asValue, cell_insertValue]
  split
  · rfl
  · split
    · rw [key_eq_asKey, value_eq_asValue]
      rcases h.cell j with _ | ⟨k | v⟩ <;> rfl
    · rfl

/-- Payloads can be added without a record. -/
theorem Decoded.withBlobs (hd : Decoded root start recs d) {blobs : List Bytes}
    (hblobs : d.hive.valueBlobs <+: blobs) (blobIndex : List ((ℕ × ℕ) × ℕ)) :
    Decoded root start recs
      { d with hive := { d.hive with valueBlobs := blobs }, blobIndex := blobIndex } :=
  { hd with
    value := by
      intro r v hv
      obtain ⟨hr, hp⟩ := hd.value_mem hv
      obtain ⟨cell, hcell, hdec⟩ := hd.value hv
      exact ⟨cell, hcell, hdec.extend prefix_rfl hblobs hr hp⟩
    header := by
      obtain ⟨blobs', nextId, hle, hheader⟩ := hd.header
      refine ⟨blobs, nextId, hle, ?_⟩
      rw [Header.mk.injEq] at hheader ⊢
      obtain ⟨h1, -, h3⟩ := hheader
      exact ⟨h1, rfl, h3⟩ }

/-- A value record whose ids have been met. -/
theorem Decoded.insertValue (hd : Decoded root start recs d) {v : ValueCell} (hid : r.id ∈ d.idMap)
    (hparent : r.parentKey ∈ d.idMap) (hv : DecodedValue d.idMap d.hive.valueBlobs r.id r v) :
    Decoded root start (recs ++ [.value r]) { d with hive := d.hive.insertValue v } := by
  have hheader := d.hive.header_insertValue v
  have hnew : (d.hive.insertValue v).valueBlobs = d.hive.valueBlobs :=
    congrArg Header.valueBlobs hheader
  have hinj : ∀ {x y : CellId}, x ∈ d.idMap → (d.idMap.idxOf x = d.idMap.idxOf y ↔ x = y) :=
    fun hx => idxOf_inj hx
  refine ⟨hd.nodup, hd.root_first, ?_, ?_, ?_, ?_, ?_, ?_, ?_⟩
  · intro s k l hk
    rw [keyAt_concat, keyStep] at hk
    split at hk
    · cases hk
    · split at hk
      · obtain ⟨⟨k', l'⟩, hk', heq⟩ := Option.map_eq_some_iff.mp hk
        obtain ⟨rfl, rfl⟩ := Prod.mk.inj heq
        obtain ⟨hs, hp, hl⟩ := hd.key_mem hk'
        refine ⟨hs, hp, fun x hx => ?_⟩
        rcases mem_append.mp hx with hx | hx
        · exact hl x hx
        · rw [mem_singleton.mp hx]
          exact hid
      · exact hd.key_mem hk
  · intro s w hw
    rw [valueAt_concat, valueStep] at hw
    split at hw
    · rename_i heq
      obtain rfl := Option.some.inj hw
      exact ⟨heq ▸ hid, hparent⟩
    · exact hd.value_mem hw
  -- a key with the id of the value is gone, and the parent lists one value more
  · intro s hs
    rw [keyAt_concat, keyStep]
    refine (key_insertValue _ _ _).trans ?_
    rw [hv.id, hv.parentKey]
    simp only [hinj hs, eq_comm]
    split
    · rfl
    · split
      · rw [hd.key s hs, Option.map_map, Option.map_map]
        congr 1
        funext st
        simp only [comp_apply, decodedKey, KeyCell.listValue, map_append, map_cons, map_nil]
      · exact hd.key s hs
  · intro s w hw
    rw [valueAt_concat, valueStep] at hw
    show ∃ cell, (d.hive.insertValue v).value _ = _ ∧
      DecodedValue _ (d.hive.insertValue v).valueBlobs _ _ _
    rw [hnew]
    simp only [value_insertValue, hv.id]
    split at hw
    · rename_i heq
      obtain rfl := Option.some.inj hw
      exact ⟨v, by rw [heq, if_pos rfl], heq ▸ hv⟩
    · rename_i hne
      obtain ⟨cell, hcell, hdec⟩ := hd.value hw
      refine ⟨cell, ?_, hdec⟩
      rw [if_neg fun h => hne (idxOf_inj_of_mem hid h.symm)]
      exact hcell
  · intro s hs hw
    rw [valueAt_concat, valueStep] at hw
    refine (value_insertValue _ _ _).trans ?_
    rw [hv.id]
    split_ifs at hw with hne
    rw [if_neg fun h => hne (idxOf_inj_of_mem hid h.symm)]
    exact hd.value_none s hs hw
  -- behind the ids that were met no cell is in use
  · intro j hj
    have hlt : ∀ {x : CellId}, x ∈ d.idMap → j ≠ d.idMap.idxOf x := fun hx =>
      ((idxOf_lt_length_of_mem hx).trans_le hj).ne'
    refine (cell_insertValue _ _ _).trans ?_
    rw [hv.id, hv.parentKey, if_neg (hlt hid), if_neg (hlt hparent)]
    exact hd.outside j hj
  · obtain ⟨blobs, nextId, hle, hh⟩ := hd.header
    refine ⟨blobs, max nextId (v.id + 1), max_le hle ?_, hheader.trans ?_⟩
    · exact hv.id ▸ idxOf_lt_length_of_mem hid
    · rw [hh, show d.hive.nextId = nextId from congrArg Header.nextId hh]

theorem internDecodedValueData_cases (d : Decoder) (data : Bytes) :
    ∃ blob blobs blobIndex, d.internDecodedValueData data =
        (blob, { d with hive := { d.hive with valueBlobs := blobs }, blobIndex := blobIndex }) ∧
      d.hive.valueBlobs <+: blobs ∧ blobs[blob]? = some data := by
  rw [Decoder.internDecodedValueData]
  cases hfind : List.find? _ _ with
  | some i =>
    have hdata := List.find?_some hfind
    exact ⟨i, d.hive.valueBlobs, d.blobIndex, rfl, prefix_rfl, of_decide_eq_true hdata⟩
  | none => exact ⟨_, _, _, rfl, prefix_append _ _, List.getElem?_concat_length⟩

/-- A value record is accepted if its parent has been met and its type is known. -/
theorem addValue_eq_ok (e : d.addValue r = .ok d') :
    r.parentKey ∈ d.idMap ∧ ∃ ty, RegistryValueType.fromU32 r.valueType = some ty := by
  rw [Decoder.addValue, compactCellId] at e
  by_cases hp : r.parentKey ∈ d.idMap
  · refine ⟨hp, ?_⟩
    cases hty : RegistryValueType.fromU32 r.valueType with
    | some ty => exact ⟨ty, rfl⟩
    | none =>
      simp only [hty] at e
      split at e <;> cases e
  · rw [if_neg hp] at e
    cases e

theorem Decoded.addValue (hd : Decoded root start recs d) {ty : RegistryValueType}
    (hp : r.parentKey ∈ d.idMap) (hty : RegistryValueType.fromU32 r.valueType = some ty) :
    ∃ d', d.addValue r = .ok d' ∧ Decoded root start (recs ++ [.value r]) d' := by
  obtain ⟨blob, blobs, blobIndex, hintern, hblobs, hdata⟩ := internDecodedValueData_cases d r.data
  have hpre := prefix_addId d.idMap r.id
  have e : d.addValue r = .ok
      { idMap := addId d.idMap r.id
        blobIndex := blobIndex
        hive := ({ d.hive with valueBlobs := blobs }).insertValue
          { id := (addId d.idMap r.id).idxOf r.id, parentKey := d.idMap.idxOf r.parentKey,
            name := r.name, valueType := ty, dataBlob := blob,
            lastWriteSequence := r.sequence } } := by
    rw [Decoder.addValue, compactCellId, if_pos hp, hty, hintern, mapDecodedCellId_eq]
  refine ⟨_, e, ?_⟩
  refine ((hd.withBlobs hblobs blobIndex).extend hpre (nodup_addId hd.nodup _)).insertValue
    (mem_addId _ _) (hpre.subset hp) ?_
  exact ⟨rfl, (idxOf_extend hpre hp).symm, rfl, hty, hdata, rfl⟩

/-- Nothing has been read. -/
theorem decoded_nil (root : CellId) (start : Hive) (hcells : start.cells = [])
    (hnext : start.nextId ≤ 1) :
    Decoded root start [] { hive := start, idMap := [root], blobIndex := [] } := by
  have hcell : ∀ j, start.cell j = none := fun j => by rw [cell, hcells, Arena.get_nil]
  refine ⟨nodup_cons.mpr ⟨not_mem_nil, nodup_nil⟩, prefix_rfl, fun hk => ?_, fun hv => ?_, ?_,
    fun hv => ?_, ?_, fun j _ => hcell j, _, _, hnext, rfl⟩
  · cases hk
  · cases hv
  · intro r _
    rw [key_eq_asKey, hcell]
    rfl
  · cases hv
  · intro r _ _
    rw [value_eq_asValue, hcell]
    rfl

theorem Decoded.addRecord (hd : Decoded root start recs d) {rec : Record}
    (e : d.addRecord root rec = .ok d') : Decoded root start (recs ++ [rec]) d' := by
  cases rec with
  | key k => exact Except.ok.inj e ▸ hd.addKey k
  | value v =>
    obtain ⟨hp, ty, hty⟩ := addValue_eq_ok e
    obtain ⟨d₁, e₁, hd₁⟩ := hd.addValue hp hty
    exact Except.ok.inj (e₁.symm.trans e) ▸ hd₁

/-- Every list of records that is accepted builds the hive that the records describe. -/
theorem Decoded.foldlM (hd : Decoded root start recs d) {more : List Record}
    (e : more.foldlM (Decoder.addRecord root) d = .ok d') :
    Decoded root start (recs ++ more) d' := by
  induction more generalizing recs d with
  | nil => exact Except.ok.inj e ▸ (append_nil recs).symm ▸ hd
  | cons rec more ih =>
    obtain ⟨d₁, h₁, e⟩ := Result.bind_eq_ok e
    have := ih (hd.addRecord h₁) e
    rwa [append_assoc] at this

/-! ## The records of a payload -/

/-- The records of a payload, one after the other. -/
def readRecords (schema : ℕ) (payload : Bytes) : Except HiveDecodeError (List Record) :=
  if payload = [] then .ok []
  else
    match hr : readRecord schema payload with
    | .error e => .error e
    | .ok (r, rest) =>
      have := readRecord_length_lt hr
      (readRecords schema rest).map (r :: ·)
termination_by payload.length

theorem readRecords_nil (schema : ℕ) : readRecords schema [] = .ok [] := by
  rw [readRecords, if_pos rfl]

theorem readRecords_of_ok {schema : ℕ} {payload rest : Bytes} {rec : Record}
    (hr : readRecord schema payload = .ok (rec, rest)) :
    readRecords schema payload = (readRecords schema rest).map (rec :: ·) := by
  have hne : payload ≠ [] := by
    rintro rfl
    exact absurd (readRecord_length_lt hr) (Nat.not_lt_zero _)
  rw [readRecords, if_neg hne]
  split
  · rename_i e he
    rw [hr] at he
    cases he
  · rename_i r rest' he
    rw [hr] at he
    obtain ⟨rfl, rfl⟩ := Prod.mk.inj (Except.ok.inj he)
    rfl

theorem readRecords_eq_ok {schema : ℕ} {payload : Bytes} {recs : List Record}
    (e : readRecords schema payload = .ok recs) : (payload = [] ∧ recs = []) ∨
      ∃ rec rest more, readRecord schema payload = .ok (rec, rest) ∧
        readRecords schema rest = .ok more ∧ recs = rec :: more := by
  rw [readRecords] at e
  split at e
  · exact .inl ⟨‹_›, (Except.ok.inj e).symm⟩
  · split at e
    · cases e
    · rename_i rec rest hr
      cases hrest : readRecords schema rest with
      | error err =>
        rw [hrest] at e
        cases e
      | ok more =>
        rw [hrest] at e
        exact .inr ⟨rec, rest, more, hr, hrest, (Except.ok.inj e).symm⟩

/-- A record takes at least one byte. -/
theorem length_readRecords_le {schema : ℕ} {payload : Bytes} {recs : List Record}
    (e : readRecords schema payload = .ok recs) : recs.length ≤ payload.length := by
  induction hn : payload.length using Nat.strong_induction_on generalizing payload recs with
  | _ n ih =>
    obtain ⟨-, rfl⟩ | ⟨rec, rest, more, hr, hrest, rfl⟩ := readRecords_eq_ok e
    · exact Nat.zero_le _
    · have hlt := hn ▸ readRecord_length_lt hr
      have := ih _ hlt hrest rfl
      rw [length_cons]
      omega

/-- Decoding is reading the records and inserting them. -/
theorem decodeRecords_eq_ok_iff {schema : ℕ} {payload : Bytes} :
    decodeRecords schema root d payload = .ok d' ↔ ∃ recs, readRecords schema payload = .ok recs ∧
        recs.foldlM (Decoder.addRecord root) d = .ok d' := by
  -- a record takes at least a byte, so the rest of the payload is shorter
  induction hn : payload.length using Nat.strong_induction_on generalizing payload d with
  | _ n ih =>
    rw [decodeRecords]
    split
    · rename_i hnil
      subst hnil
      rw [readRecords_nil]
      constructor
      · intro e
        exact ⟨[], rfl, e⟩
      · rintro ⟨recs, hrecs, e⟩
        obtain rfl := Except.ok.inj hrecs
        exact e
    · rename_i hne
      split
      · rename_i err hr
        refine iff_of_false (by simp) ?_
        rintro ⟨recs, hrecs, -⟩
        obtain ⟨hnil, -⟩ | ⟨_, _, _, hr', -⟩ := readRecords_eq_ok hrecs
        · exact hne hnil
        · rw [hr] at hr'
          cases hr'
      · rename_i rec rest hr
        rw [readRecords_of_ok hr]
        have hlt := hn ▸ readRecord_length_lt hr
        have hcons : ∀ {recs}, (readRecords schema rest).map (rec :: ·) = .ok recs →
            ∃ more, readRecords schema rest = .ok more ∧ recs = rec :: more := by
          intro recs hrecs
          rw [← readRecords_of_ok hr] at hrecs
          obtain ⟨hnil, -⟩ | ⟨_, _, more, hr', hmore, rfl⟩ := readRecords_eq_ok hrecs
          · exact absurd hnil hne
          · obtain ⟨rfl, rfl⟩ := Prod.mk.inj (Except.ok.inj (hr.symm.trans hr'))
            exact ⟨more, hmore, rfl⟩
        cases ha : d.addRecord root rec with
        | error err =>
          refine iff_of_false (by simp) ?_
          rintro ⟨recs, hrecs, e⟩
          obtain ⟨more, -, rfl⟩ := hcons hrecs
          rw [foldlM_cons, ha] at e
          cases e
        | ok d₁ =>
          refine (ih _ hlt rfl).trans ⟨?_, ?_⟩
          · rintro ⟨more, hmore, e⟩
            refine ⟨rec :: more, by rw [hmore]; rfl, ?_⟩
            rw [foldlM_cons, ha]
            exact e
          · rintro ⟨recs, hrecs, e⟩
            obtain ⟨more, hmore, rfl⟩ := hcons hrecs
            rw [foldlM_cons, ha] at e
            exact ⟨more, hmore, e⟩

/-! ## Linking subkeys -/

/-- The keys that name `j` as their parent, in the order of the arena. -/
def Hive.children (h : Hive) (j : CellId) : List CellId :=
  (h.links.filter fun link => link.1 = j).map Prod.snd

theorem Hive.foldl_relink (links : List (CellId × CellId)) (h : Hive) :
    let h' := links.foldl (fun h link =>
      (h.keyMut link.1 fun k => { k with subkeys := k.subkeys ++ [link.2] }).getD h) h
    h'.header = h.header ∧ (∀ j, h'.value j = h.value j) ∧ ∀ j, h'.key j = (h.key j).map fun k =>
        { k with subkeys := k.subkeys ++ (links.filter fun link => link.1 = j).map Prod.snd } := by
  induction links generalizing h with
  | nil =>
    refine ⟨rfl, fun _ => rfl, fun j => ?_⟩
    simp only [foldl_nil, filter_nil, map_nil, append_nil, Option.map_id']
  | cons link links ih =>
    obtain ⟨hheader, hvalue, hkey⟩ := ih
      ((h.keyMut link.1 fun k => { k with subkeys := k.subkeys ++ [link.2] }).getD h)
    rw [foldl_cons]
    cases hm : h.keyMut link.1 fun k => { k with subkeys := k.subkeys ++ [link.2] } with
    | none =>
      rw [hm, Option.getD_none] at hheader hvalue hkey
      refine ⟨hheader, hvalue, fun j => (hkey j).trans ?_⟩
      by_cases hj : link.1 = j
      · rw [← hj, Option.map_eq_none_iff.mp hm]
        rfl
      · simp only [filter_cons, hj, decide_false, Bool.false_eq_true, if_false]
    | some h₁ =>
      rw [hm, Option.getD_some] at hheader hvalue hkey
      obtain ⟨k, hk, hheader₁, hcell₁⟩ := keyMut_eq_some hm
      refine ⟨hheader.trans hheader₁, fun j => (hvalue j).trans ?_, fun j => (hkey j).trans ?_⟩
      · exact value_of_update_key (value_of_key hk) hcell₁ j
      · rw [key_of_update_key hcell₁]
        by_cases hj : j = link.1
        · rw [if_pos hj, hj, hk, filter_cons, if_pos (decide_eq_true rfl)]
          simp only [Option.map_some, map_cons, append_assoc, cons_append, nil_append]
        · rw [if_neg hj, filter_cons, if_neg (by simpa using Ne.symm hj)]

theorem Hive.header_relinkSubkeys (h : Hive) : h.relinkSubkeys.header = h.header :=
  (foldl_relink h.links h).1

theorem Hive.value_relinkSubkeys (h : Hive) (j : CellId) : h.relinkSubkeys.value j = h.value j :=
  (foldl_relink h.links h).2.1 j

theorem Hive.key_relinkSubkeys (h : Hive) (j : CellId) : h.relinkSubkeys.key j =
      (h.key j).map fun k => { k with subkeys := k.subkeys ++ h.children j } :=
  (foldl_relink h.links h).2.2 j

/-- Whatever is selected from the cells comes in the order of the ids. -/
theorem Hive.pairwise_filterMap_cells {α : Type} {f : Option Cell → Option α} {id : α → CellId}
    (hf : ∀ {i c a}, h.cell i = some c → f (some c) = some a → id a = i)
    (hnone : f none = none) : ((h.cells.filterMap f).map id).Pairwise (· < ·) := by
  rw [pairwise_map, pairwise_filterMap, pairwise_iff_getElem]
  intro i j hi hj hij a ha b hb
  have hid : ∀ {n : ℕ} (hn : n < h.cells.length) {a : α}, f h.cells[n] = some a → id a = n := by
    intro n hn a ha
    cases hc : h.cells[n] with
    | none =>
      rw [hc, hnone] at ha
      cases ha
    | some c =>
      rw [hc] at ha
      refine hf ?_ ha
      rw [cell, Arena.get, List.getElem?_eq_getElem hn, hc]
      rfl
  rw [hid hi ha, hid hj hb]
  exact hij

theorem Hive.mem_filterMap_cells {α : Type} {f : Option Cell → Option α} {a : α}
    (hnone : f none = none) :
    a ∈ h.cells.filterMap f ↔ ∃ i c, h.cell i = some c ∧ f (some c) = some a := by
  rw [mem_filterMap]
  constructor
  · rintro ⟨o, ho, hfo⟩
    obtain ⟨i, hi, rfl⟩ := mem_iff_getElem.mp ho
    cases hc : h.cells[i] with
    | none =>
      rw [hc, hnone] at hfo
      cases hfo
    | some c =>
      refine ⟨i, c, ?_, hc ▸ hfo⟩
      rw [cell, Arena.get, List.getElem?_eq_getElem hi, hc]
      rfl
  · rintro ⟨i, c, hc, hfc⟩
    refine ⟨some c, mem_of_getElem? (i := i) ?_, hfc⟩
    exact Option.join_eq_some_iff.mp hc

theorem Hive.mem_children {j c : CellId} :
    c ∈ h.children j ↔ ∃ i k, h.key i = some k ∧ k.parent = some j ∧ k.id = c := by
  have hlinks : (j, c) ∈ h.links ↔ ∃ i k, h.key i = some k ∧ k.parent = some j ∧ k.id = c := by
    rw [links, mem_filterMap_cells rfl]
    constructor
    · rintro ⟨i, k | v, hc, hf⟩
      · obtain ⟨p, hp, heq⟩ := Option.map_eq_some_iff.mp hf
        obtain ⟨rfl, rfl⟩ := Prod.mk.inj heq
        exact ⟨i, k, key_eq_some_iff.mpr hc, hp, rfl⟩
      · cases hf
    · rintro ⟨i, k, hk, hp, rfl⟩
      refine ⟨i, .key k, key_eq_some_iff.mp hk, ?_⟩
      simp only [hp, Option.map_some]
  rw [← hlinks, children, mem_map]
  constructor
  · rintro ⟨⟨p, i⟩, hmem, rfl⟩
    obtain ⟨hmem, hp⟩ := mem_filter.mp hmem
    exact of_decide_eq_true hp ▸ hmem
  · intro hmem
    exact ⟨(j, c), mem_filter.mpr ⟨hmem, decide_eq_true rfl⟩, rfl⟩

theorem Hive.pairwise_children (hid : ∀ {i : CellId} {k}, h.key i = some k → k.id = i)
    (j : CellId) : (h.children j).Pairwise (· < ·) := by
  have hlinks : (h.links.map Prod.snd).Pairwise (· < ·) := by
    refine pairwise_filterMap_cells ?_ rfl
    rintro i (k | v) ⟨p, c⟩ hc hf
    · obtain ⟨p', -, heq⟩ := Option.map_eq_some_iff.mp hf
      exact (Prod.mk.inj heq).2 ▸ hid (key_eq_some_iff.mpr hc)
    · cases hf
  exact hlinks.sublist (List.Sublist.map _ filter_sublist)

/-!
## Decoded hives

The hive that comes out of the decoder, described by the records it was built from:
`Rebuilt root recs ids h` says which cell each id has become, that a key lists its values
in the order of their records and its subkeys in the order of their new numbers, and that
there are no other cells.  Both the round trip of images and the question which images
decode to well-formed hives start from here.
-/

/-- The hive `h` has exactly the cells that the records describe. -/
structure Rebuilt (root : CellId) (recs : List Record) (ids : List CellId) (h : Hive) : Prop where
  nodup : ids.Nodup
  root_first : [root] <+: ids
  key_mem : ∀ {r k l}, keyAt recs r = some (k, l) →
    r ∈ ids ∧ (r ≠ root → k.parent ∈ ids) ∧ ∀ x ∈ l, x ∈ ids
  value_mem : ∀ {r v}, valueAt recs r = some v → r ∈ ids ∧ v.parentKey ∈ ids
  key : ∀ {r k l}, keyAt recs r = some (k, l) → ∃ subkeys,
    h.key (ids.idxOf r) = some { decodedKey root ids r k l with subkeys := subkeys } ∧
    subkeys.Pairwise (· < ·) ∧
    ∀ c, c ∈ subkeys ↔ ∃ r' k' l', keyAt recs r' = some (k', l') ∧ r' ≠ root ∧ k'.parent = r ∧
      c = ids.idxOf r'
  value : ∀ {r v}, valueAt recs r = some v → ∃ cell, h.value (ids.idxOf r) = some cell ∧
    DecodedValue ids h.valueBlobs r v cell
  key_raw : ∀ {j k}, h.key j = some k → ∃ r s, keyAt recs r = some s ∧ j = ids.idxOf r
  value_raw : ∀ {j v}, h.value j = some v → ∃ r w, valueAt recs r = some w ∧ j = ids.idxOf r

variable {root : CellId} {start : Hive} {recs : List Record} {d : Decoder}

section

variable (hd : Decoded root start recs d)
include hd

/-- A number that a cell has is the number of an id. -/
theorem Decoded.exists_raw {j : CellId} {c : Cell}
    (hc : d.hive.cell j = some c) : ∃ r ∈ d.idMap, j = d.idMap.idxOf r := by
  have hj : j < d.idMap.length := by
    by_contra hge
    rw [hd.outside j (not_lt.mp hge)] at hc
    cases hc
  exact ⟨d.idMap[j], List.getElem_mem hj, (hd.nodup.idxOf_getElem j hj).symm⟩

theorem Decoded.key_raw {j : CellId} {k : KeyCell}
    (hk : d.hive.key j = some k) : ∃ r s, r ∈ d.idMap ∧ keyAt recs r = some s ∧
      j = d.idMap.idxOf r ∧ k = decodedKey root d.idMap r s.1 s.2 := by
  obtain ⟨r, hr, rfl⟩ := hd.exists_raw (key_eq_some_iff.mp hk)
  rw [hd.key r hr] at hk
  obtain ⟨s, hs, rfl⟩ := Option.map_eq_some_iff.mp hk
  exact ⟨r, s, hr, hs, rfl, rfl⟩

theorem Decoded.mem_children {r c : CellId} (hr : r ∈ d.idMap) :
    c ∈ d.hive.children (d.idMap.idxOf r) ↔ ∃ r' k' l', keyAt recs r' = some (k', l') ∧
      r' ≠ root ∧ k'.parent = r ∧ c = d.idMap.idxOf r' := by
  rw [Hive.mem_children]
  constructor
  · rintro ⟨i, k, hk, hp, rfl⟩
    obtain ⟨r', ⟨k', l'⟩, -, hs, -, rfl⟩ := hd.key_raw hk
    rw [decodedKey] at hp
    by_cases hroot : r' = root
    · rw [if_pos hroot] at hp
      cases hp
    · rw [if_neg hroot] at hp
      exact ⟨r', k', l', hs, hroot, (idxOf_inj_of_mem hr (Option.some.inj hp).symm).symm, rfl⟩
  · rintro ⟨r', k', l', hs, hroot, rfl, rfl⟩
    have hmem := (hd.key_mem hs).1
    exact ⟨_, _, (hd.key r' hmem).trans (by rw [hs]; rfl), if_neg hroot, rfl⟩

theorem Decoded.rebuilt : Rebuilt root recs d.idMap d.hive.relinkSubkeys where
  nodup := hd.nodup
  root_first := hd.root_first
  key_mem := hd.key_mem
  value_mem := hd.value_mem
  key {r k l} hs := by
    have hmem := (hd.key_mem hs).1
    refine ⟨d.hive.children (d.idMap.idxOf r), ?_, ?_, fun c => hd.mem_children hmem⟩
    · rw [key_relinkSubkeys, hd.key r hmem, hs]
      rfl
    · refine pairwise_children ?_ _
      intro i k hk
      obtain ⟨r, s, -, -, rfl, rfl⟩ := hd.key_raw hk
      rfl
  value hv := by
    obtain ⟨cell, hcell, hdec⟩ := hd.value hv
    have hblobs : d.hive.relinkSubkeys.valueBlobs = d.hive.valueBlobs :=
      congrArg Header.valueBlobs (header_relinkSubkeys _)
    exact ⟨cell, (value_relinkSubkeys _ _).trans hcell, hblobs ▸ hdec⟩
  key_raw hk := by
    rw [key_relinkSubkeys] at hk
    obtain ⟨k₀, hk₀, -⟩ := Option.map_eq_some_iff.mp hk
    obtain ⟨r, s, -, hs, hj, -⟩ := hd.key_raw hk₀
    exact ⟨r, s, hs, hj⟩
  value_raw hv := by
    rw [value_relinkSubkeys] at hv
    obtain ⟨r, hr, rfl⟩ := hd.exists_raw (value_eq_some_iff.mp hv)
    cases hw : valueAt recs r with
    | none =>
      rw [hd.value_none r hr hw] at hv
      cases hv
    | some w => exact ⟨r, w, hw, rfl⟩

end

/-! ### The numbers of ids -/

/-- The ids met after one more record. -/
def stepIds (root : CellId) (ids : List CellId) : Record → List CellId
  | .key k => keyIds root ids k
  | .value v => addId ids v.id

theorem idMap_addRecord {rec : Record} {d' : Decoder} (e : d.addRecord root rec = .ok d') :
    d'.idMap = stepIds root d.idMap rec := by
  cases rec with
  | key k =>
    rw [← Except.ok.inj e, addKey_eq]
    rfl
  | value v =>
    obtain ⟨hp, ty, hty⟩ := addValue_eq_ok e
    obtain ⟨blob, blobs, blobIndex, hintern, -⟩ := internDecodedValueData_cases d v.data
    rw [Decoder.addRecord, Decoder.addValue, compactCellId, if_pos hp, hty,
      mapDecodedCellId_eq] at e
    rw [← Except.ok.inj e]
    rfl

theorem idMap_foldlM {d' : Decoder} (e : recs.foldlM (Decoder.addRecord root) d = .ok d') :
    d'.idMap = recs.foldl (stepIds root) d.idMap := by
  induction recs generalizing d with
  | nil => exact congrArg Decoder.idMap (Except.ok.inj e).symm
  | cons rec recs ih =>
    obtain ⟨d₁, h₁, e⟩ := Result.bind_eq_ok e
    rw [ih e, idMap_addRecord h₁, List.foldl_cons]

theorem length_addId_le (ids : List CellId) (raw : CellId) :
    (addId ids raw).length ≤ ids.length + 1 := by
  rw [addId]
  split
  · exact Nat.le_succ _
  · exact (length_append).le

/-- A record brings at most two ids that were not met before. -/
theorem length_foldl_stepIds_le (ids : List CellId) :
    (recs.foldl (stepIds root) ids).length ≤ ids.length + 2 * recs.length := by
  induction recs generalizing ids with
  | nil => exact le_rfl
  | cons rec recs ih =>
    have hstep : (stepIds root ids rec).length ≤ ids.length + 2 := by
      cases rec with
      | key k =>
        have hown := length_addId_le ids k.id
        have hparent := length_addId_le (addId ids k.id) k.parent
        simp only [stepIds, keyIds]
        split <;> omega
      | value v =>
        have hown := length_addId_le ids v.id
        exact hown.trans (Nat.le_succ _)
    have hrest := ih (stepIds root ids rec)
    rw [foldl_cons, length_cons]
    omega

/-- What decoding a payload yields. -/
theorem decodePayload_eq_ok {schema generation sequence : ℕ} {kind : HiveKind} {payload : Bytes}
    {h : Hive} (e : decodePayload schema kind generation sequence root payload = .ok h) :
    ∃ recs blobs nextId, readRecords schema payload = .ok recs ∧
      Rebuilt root recs (recs.foldl (stepIds root) [root]) h ∧
      nextId ≤ (recs.foldl (stepIds root) [root]).length ∧
      h.header = { (empty kind 0 generation sequence).header with
        valueBlobs := blobs, nextId := nextId } := by
  obtain ⟨d, hd, hh⟩ := Result.bind_eq_ok e
  obtain rfl := Except.ok.inj hh
  obtain ⟨recs, hrecs, hfold⟩ := decodeRecords_eq_ok_iff.mp hd
  have hdec := (decoded_nil root (empty kind 0 generation sequence) rfl le_rfl).foldlM hfold
  obtain ⟨blobs, nextId, hle, hheader⟩ := hdec.header
  have hids := idMap_foldlM hfold
  refine ⟨recs, blobs, nextId, hrecs, ?_, ?_, (header_relinkSubkeys _).trans hheader⟩
  · exact hids ▸ hdec.rebuilt
  · exact hids ▸ hle

end UserspaceNtos.HiveCore
