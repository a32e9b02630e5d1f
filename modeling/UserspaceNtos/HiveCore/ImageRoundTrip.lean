import UserspaceNtos.HiveCore.ImageCodec
import UserspaceNtos.HiveCore.Linked
import Mathlib.Data.List.Sort

/-!
# The round trip of hive images

The image of a linked hive decodes to a hive isomorphic to its durable part.  In a linked
hive the parent of a key has no larger id than the key, and the root has the least id of
all.  So when the keys are written in the order of their ids, the decoder meets the
parent of each key before the key itself, and it numbers the keys and then the values in
the order of their old ids (`ids_records`).  Renumbering therefore keeps the order of
every list that is sorted by ids, and all lists of a linked hive are.
-/

namespace UserspaceNtos.HiveCore

open List

variable {h : Hive} {i r : CellId} {k : KeyCell} {v : ValueCell} {ks : List KeyCell}

/-! ## The cells that are written -/

theorem Hive.mem_keyCellList :
    k ∈ h.keyCellList ↔ (∃ i, h.key i = some k) ∧ k.volatile = false := by
  rw [keyCellList, mem_filterMap_cells rfl]
  constructor
  · rintro ⟨i, k' | v, hc, hf⟩
    · dsimp only at hf
      split_ifs at hf with hv
      obtain rfl := Option.some.inj hf
      exact ⟨⟨i, key_eq_some_iff.mpr hc⟩, Bool.eq_false_of_not_eq_true hv⟩
    · cases hf
  · rintro ⟨⟨i, hk⟩, hv⟩
    exact ⟨i, .key k, key_eq_some_iff.mp hk, if_neg (Bool.eq_false_iff.mp hv)⟩

theorem Hive.mem_valueCellList :
    v ∈ h.valueCellList ↔ (∃ i, h.value i = some v) ∧ h.isVolatile v.parentKey = false := by
  rw [valueCellList, mem_filterMap_cells rfl]
  constructor
  · rintro ⟨i, k' | v', hc, hf⟩
    · cases hf
    · dsimp only at hf
      split_ifs at hf with hv
      obtain rfl := Option.some.inj hf
      exact ⟨⟨i, value_eq_some_iff.mpr hc⟩, Bool.eq_false_of_not_eq_true hv⟩
  · rintro ⟨⟨i, hv⟩, hvol⟩
    exact ⟨i, .value v, value_eq_some_iff.mp hv, if_neg (Bool.eq_false_iff.mp hvol)⟩

section

variable (hl : Linked h)
include hl

theorem Linked.pairwise_keyCellList : (h.keyCellList.map KeyCell.id).Pairwise (· < ·) := by
  refine Hive.pairwise_filterMap_cells ?_ rfl
  rintro i (k | v) k' hc hf
  · dsimp only at hf
    split_ifs at hf
    obtain rfl := Option.some.inj hf
    exact hl.keyId (Hive.key_eq_some_iff.mpr hc)
  · cases hf

theorem Linked.pairwise_valueCellList : (h.valueCellList.map ValueCell.id).Pairwise (· < ·) := by
  refine Hive.pairwise_filterMap_cells ?_ rfl
  rintro i (k | v) v' hc hf
  · cases hf
  · dsimp only at hf
    split_ifs at hf
    obtain rfl := Option.some.inj hf
    exact hl.valueId (Hive.value_eq_some_iff.mpr hc)

theorem Linked.key_id (hk : k ∈ h.keyCellList) : h.key k.id = some k := by
  obtain ⟨⟨i, hi⟩, -⟩ := Hive.mem_keyCellList.mp hk
  rwa [hl.keyId hi]

theorem Linked.value_id (hv : v ∈ h.valueCellList) : h.value v.id = some v := by
  obtain ⟨⟨i, hi⟩, -⟩ := Hive.mem_valueCellList.mp hv
  rwa [hl.valueId hi]

/-- The parent of a key that is written is written. -/
theorem Linked.parent_mem (hk : k ∈ h.keyCellList) (hne : k.id ≠ h.root) :
    ∃ p ∈ h.keyCellList, k.parent = some p.id ∧ p.id ≤ k.id := by
  have hkey := hl.key_id hk
  obtain ⟨p, pk, hparent, hp, -⟩ := hl.parent hkey hne
  have hid := hl.keyId hp
  refine ⟨pk, Hive.mem_keyCellList.mpr ⟨⟨p, hp⟩, ?_⟩, hid ▸ hparent, ?_⟩
  · by_contra hv
    have := hl.volatile hkey hparent hp (Bool.eq_true_of_not_eq_false hv)
    rw [(Hive.mem_keyCellList.mp hk).2] at this
    cases this
  · exact hid ▸ hl.parent_le hkey hparent

/-- The key of a value that is written is written. -/
theorem Linked.parentKey_mem (hv : v ∈ h.valueCellList) :
    ∃ p ∈ h.keyCellList, v.parentKey = p.id := by
  obtain ⟨⟨i, hi⟩, hvol⟩ := Hive.mem_valueCellList.mp hv
  obtain ⟨pk, hp, -⟩ := hl.valueParent hi
  refine ⟨pk, Hive.mem_keyCellList.mpr ⟨⟨_, hp⟩, ?_⟩, (hl.keyId hp).symm⟩
  rwa [Hive.isVolatile, hp] at hvol

/-- The values of a key that is written, in their order. -/
theorem Linked.values_eq (hk : k ∈ h.keyCellList) :
    (h.valueCellList.filter fun v => v.parentKey = k.id).map ValueCell.id = k.values := by
  have hkey := hl.key_id hk
  have hpair : ((h.valueCellList.filter fun v => v.parentKey = k.id).map ValueCell.id).Pairwise
      (· < ·) :=
    hl.pairwise_valueCellList.sublist (filter_sublist.map _)
  refine hpair.eq_of_mem_iff (hl.values_sorted hkey) fun c => ?_
  rw [mem_map]
  constructor
  · rintro ⟨v, hv, rfl⟩
    obtain ⟨hv, hp⟩ := mem_filter.mp hv
    obtain ⟨k', hk', hmem⟩ := hl.valueParent (hl.value_id hv)
    rw [of_decide_eq_true hp, hkey] at hk'
    exact Option.some.inj hk' ▸ hmem
  · intro hc
    obtain ⟨v, hv, hp⟩ := hl.value hkey hc
    refine ⟨v, mem_filter.mpr ⟨Hive.mem_valueCellList.mpr ⟨⟨c, hv⟩, ?_⟩, by simpa using hp⟩,
      hl.valueId hv⟩
    rw [hp, Hive.isVolatile, hkey]
    exact (Hive.mem_keyCellList.mp hk).2

end

/-! ## What the records say -/

theorem foldl_keyStep_keys {st : Option (KeyRecord × List CellId)} (hr : ∀ k ∈ ks, k.id ≠ r) :
    (ks.map fun k => Record.key k.record).foldl (keyStep r) st = st := by
  induction ks generalizing st with
  | nil => rfl
  | cons k ks ih =>
    obtain ⟨hk, hks⟩ := forall_mem_cons.mp hr
    rw [map_cons, foldl_cons, keyStep, KeyCell.id_record, if_neg hk]
    exact ih hks

theorem foldl_keyStep_values {vs : List ValueCell} {st : Option (KeyRecord × List CellId)}
    (hr : ∀ v ∈ vs, v.id ≠ r) : (vs.map fun v => Record.value (v.record h)).foldl (keyStep r) st =
      st.map fun s => (s.1, s.2 ++ (vs.filter fun v => v.parentKey = r).map ValueCell.id) := by
  induction vs generalizing st with
  | nil => cases st <;> simp
  | cons v vs ih =>
    obtain ⟨hv, hvs⟩ := forall_mem_cons.mp hr
    rw [map_cons, foldl_cons, ih hvs, keyStep, ValueCell.id_record, if_neg hv,
      ValueCell.parentKey_record, filter_cons]
    by_cases hp : v.parentKey = r
    · rw [if_pos hp, if_pos (decide_eq_true hp)]
      cases st <;> simp
    · rw [if_neg hp, if_neg (by simpa using hp)]

theorem foldl_valueStep_values {vs : List ValueCell} {st : Option ValueRecord}
    (hr : ∀ v ∈ vs, v.id ≠ r) :
    (vs.map fun v => Record.value (v.record h)).foldl (valueStep r) st = st := by
  induction vs generalizing st with
  | nil => rfl
  | cons v vs ih =>
    obtain ⟨hv, hvs⟩ := forall_mem_cons.mp hr
    rw [map_cons, foldl_cons, valueStep, ValueCell.id_record, if_neg hv]
    exact ih hvs

theorem foldl_valueStep_keys :
    (ks.map fun k => Record.key k.record).foldl (valueStep r) none = none := by
  induction ks with
  | nil => rfl
  | cons k ks ih =>
    rw [map_cons, foldl_cons, valueStep, ite_self]
    exact ih

/-- Keys and values have different ids. -/
theorem Linked.id_ne (hl : Linked h) (hk : k ∈ h.keyCellList) (hv : v ∈ h.valueCellList) :
    v.id ≠ k.id := by
  intro heq
  have := Hive.key_of_value (hl.value_id hv)
  rw [heq, hl.key_id hk] at this
  cases this

/-- Around an element of a list with increasing ids, all other ids are different. -/
theorem exists_split {α : Type} {id : α → CellId} {l : List α} {a : α}
    (hl : (l.map id).Pairwise (· < ·)) (ha : a ∈ l) :
    ∃ l₁ l₂, l = l₁ ++ a :: l₂ ∧ (∀ b ∈ l₁, id b < id a) ∧ ∀ b ∈ l₂, id a < id b := by
  obtain ⟨l₁, l₂, rfl⟩ := append_of_mem ha
  rw [pairwise_map, pairwise_append] at hl
  obtain ⟨-, h₂, h₁₂⟩ := hl
  exact ⟨l₁, l₂, rfl, fun b hb => h₁₂ b hb a mem_cons_self,
    fun b hb => (pairwise_cons.mp h₂).1 b hb⟩

theorem Linked.keyAt_keys (hl : Linked h) (hk : k ∈ h.keyCellList) :
    keyAt (h.keyCellList.map fun k => Record.key k.record) k.id = some (k.record, []) := by
  obtain ⟨ks₁, ks₂, hsplit, -, h₂⟩ := exists_split hl.pairwise_keyCellList hk
  rw [keyAt, hsplit, map_append, map_cons, foldl_append, foldl_cons, keyStep,
    KeyCell.id_record, if_pos rfl]
  exact foldl_keyStep_keys fun b hb => (h₂ b hb).ne'

theorem Linked.keyAt_records (hl : Linked h) (hk : k ∈ h.keyCellList) :
    keyAt h.records k.id = some (k.record, k.values) := by
  have hkeys := hl.keyAt_keys hk
  rw [keyAt] at hkeys
  rw [keyAt, Hive.records, foldl_append, hkeys,
    foldl_keyStep_values fun v hv => hl.id_ne hk hv, Option.map_some, nil_append,
    hl.values_eq hk]

theorem Linked.valueAt_records (hl : Linked h) (hv : v ∈ h.valueCellList) :
    valueAt h.records v.id = some (v.record h) := by
  obtain ⟨vs₁, vs₂, hsplit, h₁, h₂⟩ := exists_split hl.pairwise_valueCellList hv
  rw [valueAt, Hive.records, foldl_append, hsplit, map_append,
    map_cons, foldl_append, foldl_cons, valueStep, ValueCell.id_record, if_pos rfl]
  exact foldl_valueStep_values fun b hb => (h₂ b hb).ne'

theorem exists_key_of_keyAt {s : KeyRecord × List CellId} (hs : keyAt h.records r = some s) :
    ∃ k ∈ h.keyCellList, k.id = r := by
  by_contra hnone
  push Not at hnone
  rw [keyAt, Hive.records, foldl_append, foldl_keyStep_keys hnone] at hs
  have : ∀ vs : List ValueCell,
      (vs.map fun v => Record.value (v.record h)).foldl (keyStep r) none = none := by
    intro vs
    induction vs with
    | nil => rfl
    | cons v vs ih =>
      rw [map_cons, foldl_cons, keyStep, Option.map_none, ite_self, ite_self]
      exact ih
  rw [this] at hs
  cases hs

theorem exists_value_of_valueAt {w : ValueRecord} (hw : valueAt h.records r = some w) :
    ∃ v ∈ h.valueCellList, v.id = r := by
  by_contra hnone
  push Not at hnone
  rw [valueAt, Hive.records, foldl_append, foldl_valueStep_keys, foldl_valueStep_values hnone] at hw
  cases hw

/-! ## The new numbers -/

/-- The numbers of the cells that are written: keys first, in the order of their ids. -/
def Hive.imageIds (h : Hive) : List CellId :=
  h.keyCellList.map KeyCell.id ++ h.valueCellList.map ValueCell.id

theorem Linked.nodup_imageIds (hl : Linked h) : h.imageIds.Nodup := by
  rw [Hive.imageIds, nodup_append]
  refine ⟨hl.pairwise_keyCellList.imp fun hlt => hlt.ne,
    hl.pairwise_valueCellList.imp fun hlt => hlt.ne, ?_⟩
  intro a ha b hb
  obtain ⟨k, hk, rfl⟩ := mem_map.mp ha
  obtain ⟨v, hv, rfl⟩ := mem_map.mp hb
  exact (hl.id_ne hk hv).symm

/-- Keys are met after their parents. -/
theorem Linked.foldl_stepIds_keys (hl : Linked h) {rest : List KeyCell} (hks : ks ≠ [])
    (hroot : ∃ k ∈ ks, k.id = h.root) (hsplit : h.keyCellList = ks ++ rest) :
    (rest.map fun k => Record.key k.record).foldl (stepIds h.root) (ks.map KeyCell.id) =
      h.keyCellList.map KeyCell.id := by
  induction rest generalizing ks with
  | nil => rw [hsplit, append_nil]; rfl
  | cons k rest ih =>
    have hmem : k ∈ h.keyCellList := hsplit ▸ mem_append_right _ mem_cons_self
    have hpair := hl.pairwise_keyCellList
    rw [hsplit, pairwise_map, pairwise_append] at hpair
    obtain ⟨-, hrest, hlt⟩ := hpair
    have hnew : k.id ∉ ks.map KeyCell.id := by
      intro hin
      obtain ⟨b, hb, heq⟩ := mem_map.mp hin
      exact (hlt b hb k mem_cons_self).ne heq
    have hne : k.id ≠ h.root := by
      obtain ⟨b, hb, heq⟩ := hroot
      exact heq ▸ (hlt b hb k mem_cons_self).ne'
    have hadd : addId (ks.map KeyCell.id) k.id = (ks ++ [k]).map KeyCell.id := by
      rw [addId, if_neg hnew, map_append]
      rfl
    have hstep : stepIds h.root (ks.map KeyCell.id) (.key k.record) =
        (ks ++ [k]).map KeyCell.id := by
      obtain ⟨p, hp, hparent, hle⟩ := hl.parent_mem hmem hne
      have hin : p.id ∈ (ks ++ [k]).map KeyCell.id := by
        rw [hsplit, append_cons, mem_append] at hp
        rcases hp with hp | hp
        · exact mem_map_of_mem hp
        · exact absurd hle (not_le.mpr ((pairwise_cons.mp hrest).1 p hp))
      rw [stepIds, keyIds, KeyCell.id_record, if_neg hne, hadd, KeyCell.record, hparent,
        Option.getD_some, addId, if_pos hin]
    rw [map_cons, foldl_cons, hstep]
    obtain ⟨b, hb, heq⟩ := hroot
    exact ih (by simp) ⟨b, mem_append_left _ hb, heq⟩ (by rw [hsplit, append_cons])

theorem Linked.foldl_stepIds_values (hl : Linked h) (vs : List ValueCell) {rest : List ValueCell}
    (hsplit : h.valueCellList = vs ++ rest) :
    (rest.map fun v => Record.value (v.record h)).foldl (stepIds h.root)
      (h.keyCellList.map KeyCell.id ++ vs.map ValueCell.id) = h.imageIds := by
  induction rest generalizing vs with
  | nil => rw [Hive.imageIds, hsplit, append_nil]; rfl
  | cons v rest ih =>
    have hnew : v.id ∉ h.keyCellList.map KeyCell.id ++ vs.map ValueCell.id := by
      have hnodup := hl.nodup_imageIds
      rw [Hive.imageIds, hsplit, map_append, ← append_assoc] at hnodup
      intro hin
      exact (nodup_append.mp hnodup).2.2 _ hin _ mem_cons_self rfl
    rw [map_cons, foldl_cons, stepIds, ValueCell.id_record, addId, if_neg hnew, append_assoc]
    exact (congrArg (List.foldl _ · _) (by rw [map_append]; rfl)).trans
      (ih (vs ++ [v]) (by rw [hsplit, append_cons]))

/-- The decoder numbers the cells in the order in which they are written. -/
theorem Linked.ids_records (hl : Linked h) :
    h.records.foldl (stepIds h.root) [h.root] = h.imageIds := by
  -- the root comes first
  obtain ⟨rk, hrk, -, hvol⟩ := hl.root
  have hid := hl.keyId hrk
  have hmem : rk ∈ h.keyCellList := Hive.mem_keyCellList.mpr ⟨⟨_, hrk⟩, hvol⟩
  obtain ⟨ks₁, ks₂, hsplit, h₁, -⟩ := exists_split hl.pairwise_keyCellList hmem
  obtain rfl : ks₁ = [] := by
    refine eq_nil_iff_forall_not_mem.mpr fun b hb => ?_
    have hb' : b ∈ h.keyCellList := hsplit ▸ mem_append_left _ hb
    exact absurd (hid ▸ h₁ b hb) (not_lt.mpr (hl.root_le (hl.key_id hb')))
  rw [nil_append] at hsplit
  have hfirst : stepIds h.root [h.root] (.key rk.record) = [rk].map KeyCell.id := by
    rw [stepIds, keyIds, KeyCell.id_record, if_pos hid, addId, hid,
      if_pos (mem_singleton_self _), map_singleton, hid]
  have hkeys : (h.keyCellList.map fun k => Record.key k.record).foldl (stepIds h.root) [h.root] =
      h.keyCellList.map KeyCell.id := by
    conv_lhs => rw [hsplit, map_cons, foldl_cons, hfirst]
    exact hl.foldl_stepIds_keys (by simp) ⟨rk, mem_singleton_self _, hid⟩ hsplit
  rw [Hive.records, foldl_append, hkeys]
  have := hl.foldl_stepIds_values [] rfl
  rwa [map_nil, append_nil] at this

/-- In an increasing list, positions increase with the elements. -/
theorem idxOf_lt_idxOf {l : List CellId} {a b : CellId} (hl : l.Pairwise (· < ·)) (ha : a ∈ l)
    (hb : b ∈ l) (hab : a < b) : l.idxOf a < l.idxOf b := by
  by_contra hle
  rcases (not_lt.mp hle).lt_or_eq with hlt | heq
  · have := pairwise_iff_getElem.mp hl _ _ (idxOf_lt_length_of_mem hb)
      (idxOf_lt_length_of_mem ha) hlt
    rw [getElem_idxOf, getElem_idxOf] at this
    exact absurd hab (not_lt.mpr this.le)
  · exact hab.ne' (idxOf_inj_of_mem hb heq)

/-! ## The records are accepted -/

theorem foldlM_addRecord_keys (root : CellId) (ks : List KeyCell) (d : Decoder) :
    ∃ d', (ks.map fun k => Record.key k.record).foldlM (Decoder.addRecord root) d = .ok d' := by
  induction ks generalizing d with
  | nil => exact ⟨d, rfl⟩
  | cons k ks ih => exact ih (d.addKey root k.record)

theorem foldlM_addRecord_values {root : CellId} {start : Hive} {recs : List Record} {d : Decoder}
    (hd : Decoded root start recs d) (vs : List ValueCell) (hvs : ∀ v ∈ vs, v.parentKey ∈ d.idMap) :
    ∃ d', (vs.map fun v => Record.value (v.record h)).foldlM (Decoder.addRecord root) d =
      .ok d' := by
  induction vs generalizing recs d with
  | nil => exact ⟨d, rfl⟩
  | cons v vs ih =>
    obtain ⟨hv, hvs⟩ := forall_mem_cons.mp hvs
    obtain ⟨d₁, e₁, hd₁⟩ := hd.addValue (r := v.record h) hv (fromU32_toU32_valueType v.valueType)
    have hids : d₁.idMap = stepIds root d.idMap (.value (v.record h)) := idMap_addRecord e₁
    obtain ⟨d', e'⟩ := ih hd₁ fun w hw => hids ▸ (prefix_addId _ _).subset (hvs w hw)
    refine ⟨d', ?_⟩
    exact (congrArg (· >>= _) e₁).trans e'

theorem Linked.foldlM_records (hl : Linked h) (start : Hive) (hcells : start.cells = [])
    (hnext : start.nextId ≤ 1) :
    ∃ d, h.records.foldlM (Decoder.addRecord h.root)
      { hive := start, idMap := [h.root], blobIndex := [] } = .ok d := by
  obtain ⟨d₁, e₁⟩ := foldlM_addRecord_keys h.root h.keyCellList
    { hive := start, idMap := [h.root], blobIndex := [] }
  have hd₁ := (decoded_nil h.root start hcells hnext).foldlM e₁
  obtain ⟨d, e⟩ := foldlM_addRecord_values hd₁ h.valueCellList fun v hv => by
    obtain ⟨p, hp, heq⟩ := hl.parentKey_mem hv
    exact heq ▸ (hd₁.key_mem (hl.keyAt_keys hp)).1
  refine ⟨d, ?_⟩
  rw [Hive.records, foldlM_append]
  exact (congrArg (· >>= _) e₁).trans e

/-! ## The round trip -/

/-- The subkeys that are written, under their new numbers. -/
theorem Linked.subkeys_eq (hl : Linked h) (hk : k ∈ h.keyCellList) {subkeys : List CellId}
    (hsorted : subkeys.Pairwise (· < ·))
    (hmem : ∀ c, c ∈ subkeys ↔ ∃ r' k' l', keyAt h.records r' = some (k', l') ∧ r' ≠ h.root ∧
      k'.parent = k.id ∧ c = h.imageIds.idxOf r') :
    subkeys = (k.subkeys.filter fun c => !h.isVolatile c).map h.imageIds.idxOf := by
  have hkey := hl.key_id hk
  have hwritten : ∀ c ∈ k.subkeys.filter fun c => !h.isVolatile c,
      ∃ ck ∈ h.keyCellList, ck.id = c ∧ ck.parent = some k.id := by
    intro c hc
    obtain ⟨hc, hvol⟩ := mem_filter.mp hc
    obtain ⟨ck, hck, hparent⟩ := hl.subkey hkey hc
    rw [Hive.isVolatile_of_key hck, Bool.not_eq_true'] at hvol
    exact ⟨ck, Hive.mem_keyCellList.mpr ⟨⟨c, hck⟩, hvol⟩, hl.keyId hck, hparent⟩
  -- both lists are sorted: keys are numbered in the order of their ids
  refine hsorted.eq_of_mem_iff ?_ fun c => ?_
  · rw [pairwise_map]
    refine ((hl.subkeys_sorted hkey).sublist filter_sublist).imp_of_mem ?_
    intro a b ha hb hab
    obtain ⟨ka, hka, rfl, -⟩ := hwritten a ha
    obtain ⟨kb, hkb, rfl, -⟩ := hwritten b hb
    have hmem : ∀ {k}, k ∈ h.keyCellList → k.id ∈ h.keyCellList.map KeyCell.id :=
      fun hk => mem_map_of_mem hk
    rw [Hive.imageIds, idxOf_append_of_mem (hmem hka), idxOf_append_of_mem (hmem hkb)]
    exact idxOf_lt_idxOf hl.pairwise_keyCellList (hmem hka) (hmem hkb) hab
  · rw [hmem, mem_map]
    constructor
    · rintro ⟨r', k', l', hr', hne, hp, rfl⟩
      obtain ⟨ck, hck, rfl⟩ := exists_key_of_keyAt hr'
      rw [hl.keyAt_records hck] at hr'
      obtain ⟨rfl, rfl⟩ := Prod.mk.inj (Option.some.inj hr')
      obtain ⟨p, pk, hparent, hpk, hin⟩ := hl.parent (hl.key_id hck) hne
      rw [KeyCell.parent_record, hparent, Option.getD_some] at hp
      rw [hp, hkey] at hpk
      refine ⟨ck.id, mem_filter.mpr ⟨Option.some.inj hpk ▸ hin, ?_⟩, rfl⟩
      rw [Hive.isVolatile_of_key (hl.key_id hck), (Hive.mem_keyCellList.mp hck).2]
      rfl
    · rintro ⟨a, ha, rfl⟩
      obtain ⟨ck, hck, rfl, hparent⟩ := hwritten a ha
      refine ⟨ck.id, ck.record, ck.values, hl.keyAt_records hck, ?_, ?_, rfl⟩
      · intro hroot
        obtain ⟨rk, hrk, hnone, -⟩ := hl.root
        rw [← hroot, hl.key_id hck] at hrk
        rw [Option.some.inj hrk, hnone] at hparent
        cases hparent
      · rw [KeyCell.parent_record, hparent, Option.getD_some]

/-- What is decoded from the records of a linked hive is its durable part. -/
theorem Linked.isomorphic (hl : Linked h) {h' : Hive}
    (hb : Rebuilt h.root h.records h.imageIds h') (hroot : h'.root = 0)
    (hkind : h'.kind = h.kind) (hgeneration : h'.generation = h.generation)
    (hsequence : h'.sequence = h.sequence) : Isomorphic h.imageIds.idxOf h.persistent h' := by
  -- what is durable is written, so its id has a number in the image
  have hlive : ∀ {i}, (h.persistent.cell i).isSome → i ∈ h.imageIds := by
    intro i hi
    obtain ⟨c, hc⟩ := Option.isSome_iff_exists.mp hi
    cases c with
    | key k' =>
      obtain ⟨k, hk, hvol, -⟩ := Hive.key_persistent_eq_some_iff.mp (Hive.key_eq_some_iff.mpr hc)
      have hmem := Hive.mem_keyCellList.mpr ⟨⟨i, hk⟩, hvol⟩
      exact hl.keyId hk ▸ mem_append_left _ (mem_map_of_mem hmem)
    | value v =>
      obtain ⟨hv, hvol⟩ := Hive.value_persistent_eq_some_iff.mp (Hive.value_eq_some_iff.mpr hc)
      have hmem := Hive.mem_valueCellList.mpr ⟨⟨i, hv⟩, hvol⟩
      exact hl.valueId hv ▸ mem_append_right _ (mem_map_of_mem hmem)
  refine ⟨hkind, hgeneration, hsequence, ?_, ?_, ?_, ?_, ?_,
    fun hi _ => idxOf_inj_of_mem (hlive hi)⟩
  · obtain ⟨rest, hrest⟩ := hb.root_first
    rw [hroot]
    change _ = List.idxOf h.root _
    rw [← hrest, singleton_append, idxOf_cons_self]
  · intro i k' hk'
    obtain ⟨k, hk, hvol, rfl⟩ := Hive.key_persistent_eq_some_iff.mp hk'
    have hmem : k ∈ h.keyCellList := Hive.mem_keyCellList.mpr ⟨⟨i, hk⟩, hvol⟩
    obtain rfl := hl.keyId hk
    obtain ⟨subkeys, hdec, hsorted, hchildren⟩ := hb.key (hl.keyAt_records hmem)
    rw [hdec, hl.subkeys_eq hmem hsorted hchildren]
    have hparent : (if k.id = h.root then none else some (h.imageIds.idxOf k.record.parent)) =
        k.parent.map h.imageIds.idxOf := by
      split
      · rename_i heq
        obtain ⟨rk, hrk, hnone, -⟩ := hl.root
        rw [← heq, hk] at hrk
        rw [Option.some.inj hrk, hnone]
        rfl
      · rename_i hne
        obtain ⟨p, -, hp, -⟩ := hl.parent_mem hmem hne
        rw [KeyCell.parent_record, hp]
        rfl
    rw [decodedKey, hparent, hvol]
    rfl
  · intro i v hv
    obtain ⟨hv, hvol⟩ := Hive.value_persistent_eq_some_iff.mp hv
    have hmem : v ∈ h.valueCellList := Hive.mem_valueCellList.mpr ⟨⟨i, hv⟩, hvol⟩
    obtain rfl := hl.valueId hv
    obtain ⟨cell, hcell, hdec⟩ := hb.value (hl.valueAt_records hmem)
    refine ⟨cell, hcell, hdec.id, hdec.parentKey, hdec.name, ?_, ?_, hdec.lastWriteSequence⟩
    · have := hdec.valueType
      rw [ValueCell.record, fromU32_toU32_valueType] at this
      exact (Option.some.inj this).symm
    · obtain ⟨data, hdata⟩ : ∃ data, h.valueData v = some data :=
        ⟨_, List.getElem?_eq_getElem (hl.blob hv)⟩
      rw [Hive.valueData, hdec.data, ValueCell.record, hdata]
      exact hdata.symm
  -- and nothing is decoded that was not written
  · intro j k' hk'
    obtain ⟨r, s, hs, rfl⟩ := hb.key_raw hk'
    obtain ⟨k, hk, rfl⟩ := exists_key_of_keyAt hs
    exact ⟨k.id, _, Hive.key_persistent_eq_some_iff.mpr
      ⟨k, hl.key_id hk, (Hive.mem_keyCellList.mp hk).2, rfl⟩, rfl⟩
  · intro j v' hv'
    obtain ⟨r, w, hw, rfl⟩ := hb.value_raw hv'
    obtain ⟨v, hv, rfl⟩ := exists_value_of_valueAt hw
    exact ⟨v.id, v, Hive.value_persistent_eq_some_iff.mpr
      ⟨hl.value_id hv, (Hive.mem_valueCellList.mp hv).2⟩, rfl⟩

/-- No cell was written after the last checkpoint. -/
theorem Hive.dirtyCount_eq_zero
    (hkey : ∀ {i : CellId} {k}, h.key i = some k → k.lastWriteSequence ≤ h.cleanSequence)
    (hvalue : ∀ {i : CellId} {v}, h.value i = some v → v.lastWriteSequence ≤ h.cleanSequence) :
    h.dirtyCount = 0 := by
  rw [dirtyCount, countP_eq_zero]
  intro c hc
  obtain ⟨i, hi, rfl⟩ := mem_iff_getElem.mp hc
  have hcell : h.cell i = h.cells[i] := by
    rw [cell, Arena.get, List.getElem?_eq_getElem hi]
    rfl
  cases hci : h.cells[i] with
  | none => simp [isDirty]
  | some c =>
    cases c with
    | key k =>
      have := hkey (key_eq_some_iff.mpr (hcell.trans hci))
      simp [isDirty, not_lt.mpr this]
    | value v =>
      have := hvalue (value_eq_some_iff.mpr (hcell.trans hci))
      simp [isDirty, not_lt.mpr this]

theorem Isomorphic.dirtyCount_eq_zero {f : CellId → CellId} {h' : Hive} (hl : Linked h)
    (hiso : Isomorphic f h.persistent h') (hclean : h'.cleanSequence = h.sequence) :
    h'.dirtyCount = 0 := by
  refine Hive.dirtyCount_eq_zero (fun {j k'} hk' => ?_) fun {j v'} hv' => ?_
  · obtain ⟨i, k, hk, rfl⟩ := hiso.key_onto hk'
    rw [hiso.key hk] at hk'
    obtain ⟨k₀, hk₀, -, rfl⟩ := Hive.key_persistent_eq_some_iff.mp hk
    rw [hclean, ← Option.some.inj hk']
    exact hl.keyWritten (k := k₀) hk₀
  · obtain ⟨i, v, hv, rfl⟩ := hiso.value_onto hv'
    obtain ⟨w, hw, hren⟩ := hiso.value hv
    rw [hw] at hv'
    rw [hclean, ← Option.some.inj hv', hren.lastWriteSequence]
    exact hl.valueWritten (Hive.value_persistent_eq_some_iff.mp hv).1

/-- The image of a linked hive decodes to its durable part. -/
theorem Linked.decodeImage (hl : Linked h) (hgeneration : h.generation < 2 ^ 64) {n : ℕ}
    (hlen : encodedImageLen h = .ok n) :
    ∃ bytes h' f, tryEncodeImage h = .ok bytes ∧ bytes.length = n ∧
      HiveCore.decodeImage bytes = .ok h' ∧ Isomorphic f h.persistent h' ∧
      h'.cleanSequence = h.sequence := by
  obtain ⟨hn, hfits⟩ := encodedImageLen_eq_ok hlen
  have hlt : ∀ {i}, i < h.nextId → i < 2 ^ 64 := fun hi => hi.trans hl.nextId_lt
  have hrecords := readRecords_imagePayload hfits (fun k hk => by
    have hkey := hl.key_id hk
    refine ⟨hlt (Hive.key_lt_nextId hkey), ?_, (hl.keyWritten hkey).trans_lt hl.sequence_lt⟩
    cases hp : k.parent with
    | none => exact Nat.two_pow_pos 64
    | some p => exact (hl.parent_le hkey hp).trans_lt (hlt (Hive.key_lt_nextId hkey)))
      fun v hv => by
    have hvalue := hl.value_id hv
    obtain ⟨p, hp, heq⟩ := hl.parentKey_mem hv
    exact ⟨hlt (Hive.value_lt_nextId hvalue), heq ▸ hlt (Hive.key_lt_nextId (hl.key_id hp)),
      (hl.valueWritten hvalue).trans_lt hl.sequence_lt⟩
  obtain ⟨rk, hrk, -⟩ := hl.root
  have hseal : HiveCore.decodeImage (sealImage h.kind h.generation h.sequence h.root
      (h.keyCellList.length + h.valueCellList.length) (imagePayload h)) = _ :=
    decodeImage_sealImage _ _ hgeneration hl.sequence_lt (hlt (Hive.key_lt_nextId hrk))
      (by have := hfits.payload; omega)
  obtain ⟨d, hd⟩ := hl.foldlM_records (Hive.empty h.kind 0 h.generation h.sequence) rfl
    le_rfl
  have hpayload : decodePayload schemaVersion h.kind h.generation h.sequence h.root
      (imagePayload h) = .ok d.hive.relinkSubkeys := by
    rw [decodePayload, decodeRecords_eq_ok_iff.mpr ⟨_, hrecords, hd⟩]
    rfl
  obtain ⟨recs, blobs, nextId, hrecs, hrebuilt, -, hheader⟩ := decodePayload_eq_ok hpayload
  obtain rfl := Except.ok.inj (hrecs.symm.trans hrecords)
  rw [hl.ids_records] at hrebuilt
  refine ⟨_, d.hive.relinkSubkeys, h.imageIds.idxOf, ?_, ?_, hseal.trans hpayload, ?_, ?_⟩
  · rw [tryEncodeImage, hlen]
    rfl
  · rw [length_sealImage, hn]
  · exact hl.isomorphic hrebuilt (congrArg Header.root hheader) (congrArg Header.kind hheader)
      (congrArg Header.generation hheader) (congrArg Header.sequence hheader)
  · exact congrArg Header.cleanSequence hheader

/-- The image of a hive built by operations is as long as announced and decodes to a hive
that is isomorphic to the durable part and has no dirty cells. -/
theorem decodeImage_encodeImage (kind : HiveKind) (ops : List HiveOp) (h : Hive) (n : ℕ)
    (hrun : ops.foldlM HiveOp.run (Hive.new kind) = some h) (hlen : encodedImageLen h = .ok n) :
    ∃ bytes h' f, encodeImage h = some bytes ∧ bytes.length = n ∧ decodeImage bytes = .ok h' ∧
      Isomorphic f h.persistent h' ∧ h'.dirtyCount = 0 := by
  have hchanges := HiveOp.run_changes (linked_new kind) hrun
  have hl := (linked_new kind).changes hchanges
  have hgeneration : h.generation < 2 ^ 64 := by
    rw [generation_of_changes hchanges]
    exact Nat.two_pow_pos 64
  obtain ⟨bytes, h', f, hbytes, hn, hdecode, hiso, hclean⟩ := hl.decodeImage hgeneration hlen
  refine ⟨bytes, h', f, ?_, hn, hdecode, hiso, hiso.dirtyCount_eq_zero hl hclean⟩
  rw [encodeImage, hbytes]
  rfl

/-- A key with a value and a volatile subkey. -/
def sampleHive : Hive :=
  let ops : List HiveOp := [.createSubkey 1 ['K'], .setValue 2 ['v'] .dword [7, 0, 0, 0],
    .tryCreateChild 2 ['T'] none [1] true true]
  (ops.foldlM HiveOp.run (Hive.new .system)).getD (Hive.new .system)

theorem decodeImage_encodeImage_sampleHive :
    ∃ bytes h' f, encodeImage sampleHive = some bytes ∧ bytes.length = 186 ∧
      decodeImage bytes = .ok h' ∧ Isomorphic f sampleHive.persistent h' ∧ h'.dirtyCount = 0 :=
  decodeImage_encodeImage .system [.createSubkey 1 ['K'], .setValue 2 ['v'] .dword [7, 0, 0, 0],
    .tryCreateChild 2 ['T'] none [1] true true] sampleHive 186 rfl rfl

/-- A payload of 4 GiB can be set as a value, but the image of the hive cannot be encoded. -/
theorem encodeImage_fails : ∃ (ops : List HiveOp) (h : Hive),
    ops.foldlM HiveOp.run (Hive.new .system) = some h ∧ encodeImage h = none := by
  have hset : ∀ data : Bytes, ∃ h,
      [HiveOp.setValue 1 [] .binary data].foldlM HiveOp.run (Hive.new .system) = some h ∧
        ∃ v ∈ h.valueCellList, h.valueData v = some data :=
    fun data => ⟨_, rfl, _, mem_singleton_self _, rfl⟩
  obtain ⟨h, hrun, v, hv, hdata⟩ := hset (List.replicate (2 ^ 32) 0)
  refine ⟨_, h, hrun, ?_⟩
  rw [encodeImage, tryEncodeImage]
  cases e : encodedImageLen h with
  | error err => rfl
  | ok n =>
    have hlt := (encodedImageLen_eq_ok e).2.valueData v hv
    rw [hdata, Option.getD_some, length_replicate] at hlt
    exact absurd hlt (lt_irrefl _)

end UserspaceNtos.HiveCore
