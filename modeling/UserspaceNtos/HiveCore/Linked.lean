import UserspaceNtos.HiveCore.Edit

/-!
# Linked hives

In a hive built by its own operations parents and children agree, lists of children are
in the order of their ids, and a key below a volatile one is volatile.  `Linked` collects
these facts; every edit keeps them.

A key can be its own parent: creating a subkey of the cell that is allocated next yields
such a key.  `Linked` allows for it.
-/

namespace UserspaceNtos.HiveCore

open Option

/-- The cells of a hive form a tree: keys and values know their ids and parents, the lists of a
key hold exactly its children, in order, and nothing is newer than the hive. -/
structure Linked (h : Hive) : Prop where
  keyId : ∀ {i : CellId} {k}, h.key i = some k → k.id = i
  valueId : ∀ {i : CellId} {v}, h.value i = some v → v.id = i
  root : ∃ k, h.key h.root = some k ∧ k.parent = none ∧ k.volatile = false
  root_le : ∀ {i : CellId} {k}, h.key i = some k → h.root ≤ i
  parent : ∀ {i : CellId} {k}, h.key i = some k → i ≠ h.root →
    ∃ p pk, k.parent = some p ∧ h.key p = some pk ∧ i ∈ pk.subkeys
  parent_le : ∀ {i p : CellId} {k}, h.key i = some k → k.parent = some p → p ≤ i
  subkey : ∀ {i c : CellId} {k}, h.key i = some k → c ∈ k.subkeys →
    ∃ ck, h.key c = some ck ∧ ck.parent = some i
  subkeys_sorted : ∀ {i : CellId} {k}, h.key i = some k → k.subkeys.Pairwise (· < ·)
  valueParent : ∀ {i : CellId} {v}, h.value i = some v →
    ∃ k, h.key v.parentKey = some k ∧ i ∈ k.values
  value : ∀ {i c : CellId} {k}, h.key i = some k → c ∈ k.values →
    ∃ v, h.value c = some v ∧ v.parentKey = i
  values_sorted : ∀ {i : CellId} {k}, h.key i = some k → k.values.Pairwise (· < ·)
  volatile : ∀ {i p : CellId} {k pk}, h.key i = some k → k.parent = some p →
    h.key p = some pk → pk.volatile → k.volatile
  blob : ∀ {i : CellId} {v}, h.value i = some v → v.dataBlob < h.valueBlobs.length
  keyWritten : ∀ {i : CellId} {k}, h.key i = some k → k.lastWriteSequence ≤ h.sequence
  valueWritten : ∀ {i : CellId} {v}, h.value i = some v → v.lastWriteSequence ≤ h.sequence
  sequence_lt : h.sequence < 2 ^ 64
  nextId_lt : h.nextId < 2 ^ 64

variable {h h' : Hive} {k : KeyCell} {parent id : CellId} {written : ℕ}

/-- Keys and values stand where they stood; only what is written in their cells changed. -/
structure SameShape (h h' : Hive) : Prop where
  root : h'.root = h.root
  nextId : h'.nextId = h.nextId
  valueBlobs : h.valueBlobs.length ≤ h'.valueBlobs.length
  sequence : h.Advances h'.sequence
  key : ∀ {j : CellId} {k'}, h'.key j = some k' → ∃ k, h.key j = some k ∧ k'.SameLinks k ∧
    (k'.lastWriteSequence = k.lastWriteSequence ∨ k'.lastWriteSequence = h'.sequence)
  key_live : ∀ {j : CellId} {k}, h.key j = some k → ∃ k', h'.key j = some k' ∧ k'.SameLinks k
  value : ∀ {j : CellId} {v'}, h'.value j = some v' → ∃ v, h.value j = some v ∧ v'.id = v.id ∧
    v'.parentKey = v.parentKey ∧ (v'.dataBlob = v.dataBlob ∨ v'.dataBlob < h'.valueBlobs.length) ∧
    (v'.lastWriteSequence = v.lastWriteSequence ∨ v'.lastWriteSequence = h'.sequence)
  value_live : ∀ {j : CellId} {v}, h.value j = some v → ∃ v', h'.value j = some v' ∧
    v'.parentKey = v.parentKey

section

variable (hl : Linked h)
include hl

theorem Linked.sameShape (hs : SameShape h h') : Linked h' where
  keyId hk := by
    obtain ⟨k, hk', hlinks, -⟩ := hs.key hk
    exact hlinks.id.trans (hl.keyId hk')
  valueId hv := by
    obtain ⟨v, hv', hid, -⟩ := hs.value hv
    exact hid.trans (hl.valueId hv')
  root := by
    obtain ⟨k, hk, hparent, hvolatile⟩ := hl.root
    obtain ⟨k', hk', hlinks⟩ := hs.key_live hk
    exact ⟨k', hs.root ▸ hk', hlinks.parent.trans hparent, hlinks.volatile.trans hvolatile⟩
  root_le hk := by
    obtain ⟨k, hk', -⟩ := hs.key hk
    exact hs.root ▸ hl.root_le hk'
  parent hk hne := by
    obtain ⟨k, hk', hlinks, -⟩ := hs.key hk
    obtain ⟨p, pk, hparent, hp, hmem⟩ := hl.parent hk' (hs.root ▸ hne)
    obtain ⟨pk', hp', hplinks⟩ := hs.key_live hp
    exact ⟨p, pk', hlinks.parent.trans hparent, hp', hplinks.subkeys ▸ hmem⟩
  parent_le hk hp := by
    obtain ⟨k, hk', hlinks, -⟩ := hs.key hk
    exact hl.parent_le hk' (hlinks.parent ▸ hp)
  subkey hk hc := by
    obtain ⟨k, hk', hlinks, -⟩ := hs.key hk
    obtain ⟨ck, hck, hparent⟩ := hl.subkey hk' (hlinks.subkeys ▸ hc)
    obtain ⟨ck', hck', hclinks⟩ := hs.key_live hck
    exact ⟨ck', hck', hclinks.parent.trans hparent⟩
  subkeys_sorted hk := by
    obtain ⟨k, hk', hlinks, -⟩ := hs.key hk
    exact hlinks.subkeys ▸ hl.subkeys_sorted hk'
  valueParent hv := by
    obtain ⟨v, hv', -, hparent, -⟩ := hs.value hv
    obtain ⟨k, hk, hmem⟩ := hl.valueParent hv'
    obtain ⟨k', hk', hlinks⟩ := hs.key_live hk
    exact ⟨k', hparent ▸ hk', hlinks.values ▸ hmem⟩
  value hk hc := by
    obtain ⟨k, hk', hlinks, -⟩ := hs.key hk
    obtain ⟨v, hv, hparent⟩ := hl.value hk' (hlinks.values ▸ hc)
    obtain ⟨v', hv', hparent'⟩ := hs.value_live hv
    exact ⟨v', hv', hparent'.trans hparent⟩
  values_sorted hk := by
    obtain ⟨k, hk', hlinks, -⟩ := hs.key hk
    exact hlinks.values ▸ hl.values_sorted hk'
  volatile hk hparent hp hvolatile := by
    obtain ⟨k, hk', hlinks, -⟩ := hs.key hk
    obtain ⟨pk, hp', hplinks, -⟩ := hs.key hp
    exact hlinks.volatile ▸ hl.volatile hk' (hlinks.parent ▸ hparent) hp'
      (hplinks.volatile ▸ hvolatile)
  blob hv := by
    obtain ⟨v, hv', -, -, hblob | hblob, -⟩ := hs.value hv
    · exact hblob ▸ (hl.blob hv').trans_le hs.valueBlobs
    · exact hblob
  keyWritten hk := by
    obtain ⟨k, hk', -, hwritten | hwritten⟩ := hs.key hk
    · exact hwritten ▸ (hl.keyWritten hk').trans hs.sequence.le
    · exact hwritten.le
  valueWritten hv := by
    obtain ⟨v, hv', -, -, -, hwritten | hwritten⟩ := hs.value hv
    · exact hwritten ▸ (hl.valueWritten hv').trans hs.sequence.le
    · exact hwritten.le
  sequence_lt := by
    rcases hs.sequence.lt with hlt | heq
    · exact hlt
    · exact heq ▸ hl.sequence_lt
  nextId_lt := hs.nextId ▸ hl.nextId_lt

/-- The parent of a key is a key. -/
theorem Linked.parent_live {i p : CellId} (hk : h.key i = some k)
    (hp : k.parent = some p) : ∃ pk, h.key p = some pk ∧ i ∈ pk.subkeys := by
  by_cases hi : i = h.root
  · obtain ⟨r, hr, hnone, -⟩ := hl.root
    rw [hi, hr] at hk
    obtain rfl := Option.some.inj hk
    rw [hnone] at hp
    cases hp
  · obtain ⟨q, qk, hq, hqk, hmem⟩ := hl.parent hk hi
    obtain rfl := Option.some.inj (hp.symm.trans hq)
    exact ⟨qk, hqk, hmem⟩

end

section

variable (header : h'.header = { h.header with sequence := h'.sequence })
  (sequence : h.Advances h'.sequence)
include header sequence

/-- Nothing but the sequence and the payloads changes. -/
theorem SameShape.touch (keys : ∀ j, h'.key j = h.key j)
    (values : ∀ j, h'.value j = h.value j) : SameShape h h' where
  root := congrArg Header.root header
  nextId := congrArg Header.nextId header
  valueBlobs := (congrArg (List.length ∘ Header.valueBlobs) header).ge
  sequence := sequence
  key {j k'} hk := ⟨k', keys j ▸ hk, ⟨rfl, rfl, rfl, rfl, rfl, rfl⟩, .inl rfl⟩
  key_live {j k} hk := ⟨k, keys j ▸ hk, ⟨rfl, rfl, rfl, rfl, rfl, rfl⟩⟩
  value {j v'} hv := ⟨v', values j ▸ hv, rfl, rfl, .inl rfl, .inl rfl⟩
  value_live {j v} hv := ⟨v, values j ▸ hv, rfl⟩

theorem SameShape.rewriteKey {k' : KeyCell} (live : h.key id = some k) (links : k'.SameLinks k)
    (written : k'.lastWriteSequence = h'.sequence)
    (keys : ∀ j, h'.key j = if j = id then some k' else h.key j)
    (values : ∀ j, h'.value j = h.value j) : SameShape h h' where
  root := congrArg Header.root header
  nextId := congrArg Header.nextId header
  valueBlobs := (congrArg (List.length ∘ Header.valueBlobs) header).ge
  sequence := sequence
  key {j kj} hk := by
    rw [keys] at hk
    split at hk
    · rename_i hj
      obtain rfl := Option.some.inj hk
      exact ⟨k, hj ▸ live, links, .inr written⟩
    · exact ⟨kj, hk, ⟨rfl, rfl, rfl, rfl, rfl, rfl⟩, .inl rfl⟩
  key_live {j kj} hk := by
    rw [keys]
    split
    · rename_i hj
      rw [hj, live] at hk
      obtain rfl := Option.some.inj hk
      exact ⟨k', rfl, links⟩
    · exact ⟨kj, hk, ⟨rfl, rfl, rfl, rfl, rfl, rfl⟩⟩
  value {j v'} hv := ⟨v', values j ▸ hv, rfl, rfl, .inl rfl, .inl rfl⟩
  value_live {j v} hv := ⟨v, values j ▸ hv, rfl⟩

end

theorem SameShape.rewriteValue {v v' : ValueCell} {blobs : List Bytes}
    (header : h'.header = { h.header with valueBlobs := blobs, sequence := h'.sequence })
    (sequence : h.Advances h'.sequence) (blobs_le : h.valueBlobs <+: blobs)
    (live : h.value id = some v) (sameId : v'.id = v.id) (sameParent : v'.parentKey = v.parentKey)
    (blob : v'.dataBlob < blobs.length) (written : v'.lastWriteSequence = h'.sequence)
    (keys : ∀ j, h'.key j = h.key j)
    (values : ∀ j, h'.value j = if j = id then some v' else h.value j) : SameShape h h' := by
  have hblobs : h'.valueBlobs = blobs := congrArg Header.valueBlobs header
  exact {
    root := congrArg Header.root header
    nextId := congrArg Header.nextId header
    valueBlobs := hblobs ▸ blobs_le.length_le
    sequence := sequence
    key := fun {j k'} hk => ⟨k', keys j ▸ hk, ⟨rfl, rfl, rfl, rfl, rfl, rfl⟩, .inl rfl⟩
    key_live := fun {j k} hk => ⟨k, keys j ▸ hk, ⟨rfl, rfl, rfl, rfl, rfl, rfl⟩⟩
    value := by
      intro j vj hv
      rw [values] at hv
      split at hv
      · rename_i hj
        obtain rfl := Option.some.inj hv
        exact ⟨v, hj ▸ live, sameId, sameParent, .inr (hblobs ▸ blob), .inr written⟩
      · exact ⟨vj, hv, rfl, rfl, .inl rfl, .inl rfl⟩
    value_live := by
      intro j vj hv
      rw [values]
      split
      · rename_i hj
        rw [hj, live] at hv
        obtain rfl := Option.some.inj hv
        exact ⟨v', rfl, sameParent⟩
      · exact ⟨vj, hv, rfl⟩ }

/-- One change of the cells. -/
def Change (h h' : Hive) : Prop := Edit h h' ∨ ∃ child, SelfLink h h' child

theorem Linked.change (hl : Linked h) (hc : Change h h') : Linked h' := by
  rcases hc with he | ⟨child, hs⟩
  on_goal 1 => cases he
  on_goal 8 => cases hs
  case touch header sequence keys values => exact hl.sameShape (.touch header sequence keys values)
  case rewriteKey header sequence live links written keys values =>
    exact hl.sameShape (.rewriteKey header sequence live links written keys values)
  case rewriteValue header sequence blobs_le live sameId sameParent sameName blob written keys
      values =>
    exact hl.sameShape (.rewriteValue header sequence blobs_le live sameId sameParent blob written
      keys values)
  -- the lists of one key change; each clause follows from the clauses about what it links
  all_goals
    have hheader := ‹h'.header = _›
    have hroot : h'.root = h.root := congrArg Header.root hheader
    have hnextId : h'.nextId = _ := congrArg Header.nextId hheader
    have hblobs : h'.valueBlobs = _ := congrArg Header.valueBlobs hheader
    have hle := Hive.Advances.le ‹_›
    have hlt := Hive.Advances.lt ‹_›
    simp only [Hive.header] at hnextId hblobs
    have hvalues : ∀ {i c : CellId} {k}, h.key i = some k → c ∈ k.values → h.key c = none := by
      grind -linarith [hl.value]
    exact {
      keyId := by grind -linarith [hl.keyId]
      valueId := by grind -linarith [hl.valueId]
      root := by grind -linarith [hl.root]
      root_le := by
        have := @hl.root_le
        have := hl.root
        grind -linarith
      parent := by
        intro i k hk hi
        have hparent := fun k => @hl.parent i k
        grind -linarith
      parent_le := by
        have := @hl.parent_le
        grind -linarith
      subkey := by grind -linarith [hl.subkey]
      subkeys_sorted := by grind -linarith [hl.subkeys_sorted, hl.subkey]
      valueParent := by grind -linarith [hl.valueParent, hl.value]
      value := by
        have := @hl.value
        have hgone : ∀ {i c : CellId} {k}, h.key i = some k → c ∉ k.values.erase c := fun hk =>
          List.Nodup.not_mem_erase ((hl.values_sorted hk).imp fun hlt => hlt.ne)
        grind -linarith
      values_sorted := by grind -linarith [hl.values_sorted, hl.value]
      volatile := by grind -linarith [hl.volatile, hl.parent_live]
      blob := by
        have := @hl.blob
        grind -linarith
      keyWritten := by
        have := @hl.keyWritten
        grind -linarith
      valueWritten := by
        have := @hl.valueWritten
        grind -linarith
      sequence_lt := by
        have := hl.sequence_lt
        omega
      nextId_lt := by
        have := hl.nextId_lt
        omega }

/-! ## Hives built by operations -/

theorem linked_new (kind : HiveKind) : Linked (Hive.new kind) := by
  have hkey : ∀ j, (Hive.new kind).key j = if j = 1 then some
      { kind := .ordinary, id := 1, parent := none, name := [], subkeys := [], values := [],
        className := none, securityDescriptor := none, lastWriteSequence := 0,
        volatile := false } else none := by
    intro j
    rw [Hive.key, Hive.new, Arena.get_put]
    split <;> simp_all
  have hvalue : ∀ j, (Hive.new kind).value j = none := by
    intro j
    rw [Hive.value, Hive.new, Arena.get_put]
    split <;> simp_all
  have hroot : (Hive.new kind).root = 1 := rfl
  have hseq : (Hive.new kind).sequence = 0 := rfl
  have hnext : (Hive.new kind).nextId = 2 := rfl
  constructor
  case root => exact ⟨_, (hkey 1).trans (if_pos rfl), rfl, rfl⟩
  all_goals grind

/-- The operations that change a hive, with their arguments. -/
inductive HiveOp
  | createKey (path : Str)
  | createSubkey (parent : CellId) (name : Str)
  | tryCreateChild (parent : CellId) (name : Str) (className : Option Str)
      (securityDescriptor : Bytes) (volatile reserved : Bool)
  | setKeyClass (key : CellId) (className : Option Str)
  | setKeySecurityDescriptor (key : CellId) (descriptor : Bytes)
  | setKeyKind (key : CellId) (kind : KeyKind)
  | setValue (key : CellId) (name : Str) (valueType : RegistryValueType) (data : Bytes)
  | setValueFromExistingValue (key : CellId) (name : Str) (valueType : RegistryValueType)
      (source : CellId)
  | deleteValue (key : CellId) (name : Str)
  | deleteKey (key : CellId)

/-- The hive after an operation, nothing if it panics. -/
def HiveOp.run (h : Hive) : HiveOp → Option Hive
  | createKey path => (h.createKey path).map Prod.snd
  | createSubkey parent name => (h.createSubkey parent name).map Prod.snd
  | tryCreateChild parent name c d volatile reserved =>
    (h.tryCreateChildWithOptions parent name c d volatile reserved).map Prod.snd
  | setKeyClass key c => (h.setKeyClass key c).map Prod.snd
  | setKeySecurityDescriptor key d => (h.setKeySecurityDescriptor key d).map Prod.snd
  | setKeyKind key kind => (h.setKeyKind key kind).map Prod.snd
  | setValue key name ty data => (h.setValue key name ty data).map Prod.snd
  | setValueFromExistingValue key name ty source =>
    (h.setValueFromExistingValue key name ty source).map Prod.snd
  | deleteValue key name => (h.deleteValue key name).map Prod.snd
  | deleteKey key => (h.deleteKey key).map Prod.snd

/-- What no change touches. -/
theorem Change.header (hc : Change h h') : ∃ blobs nextId sequence, h'.header =
    { h.header with valueBlobs := blobs, nextId := nextId, sequence := sequence } := by
  rcases hc with (⟨header⟩ | ⟨header⟩ | ⟨header⟩ | ⟨header⟩ | ⟨header⟩ | ⟨header⟩ | ⟨header⟩) |
    ⟨child, ⟨header⟩⟩
  all_goals exact ⟨_, _, _, header⟩

theorem Hive.createSubkey_changes {name : Str}
    (e : h.createSubkey parent name = some (id, h')) : Relation.ReflTransGen Change h h' := by
  rcases Hive.createSubkey_cases e with ⟨-, rfl⟩ | ⟨-, hedit, -⟩ | ⟨-, -, child, hself⟩
  · exact .refl
  · exact .single (.inl hedit)
  · exact .single (.inr ⟨child, hself⟩)

theorem Hive.foldlM_createSubkey_changes {names : List Str} {current : CellId}
    (e : names.foldlM (fun (cur, h) name => Hive.createSubkey h cur name) (current, h) =
      some (id, h')) : Relation.ReflTransGen Change h h' := by
  induction names generalizing current h with
  | nil =>
    cases e
    exact .refl
  | cons name names ih =>
    obtain ⟨⟨next, h₁⟩, e₁, e⟩ := bind_eq_some_iff.mp e
    exact (Hive.createSubkey_changes e₁).trans (ih e)

theorem exists_result {α : Type} {o : Option (α × Hive)} (e : o.map Prod.snd = some h') :
    ∃ r, o = some (r, h') := by
  obtain ⟨⟨r, _⟩, e₁, rfl⟩ := map_eq_some_iff.mp e
  exact ⟨r, e₁⟩

/-- The operation may create keys under a parent it does not check. -/
def HiveOp.Creates : HiveOp → Prop
  | createKey _ | createSubkey _ _ => True
  | _ => False

/-- Every other operation is one edit, or none. -/
theorem HiveOp.edit (hblob : ∀ {i : CellId} {v}, h.value i = some v →
    v.dataBlob < h.valueBlobs.length) {op : HiveOp} (hop : ¬ op.Creates)
    (e : op.run h = some h') : h' = h ∨ Edit h h' := by
  cases op with
  | createKey | createSubkey => exact absurd trivial hop
  | tryCreateChild parent name c d volatile reserved =>
    obtain ⟨r, e₁⟩ := exists_result e
    exact (Hive.tryCreateChildWithOptions_cases e₁).imp And.right And.right
  | setKeyClass | setKeySecurityDescriptor =>
    obtain ⟨r, e₁⟩ := exists_result e
    refine (Hive.editKey_cases (fun k => ?_) e₁).imp And.right And.right
    exact ⟨rfl, rfl, rfl, rfl, rfl, rfl⟩
  | setKeyKind key kind =>
    obtain ⟨r, e₁⟩ := exists_result e
    exact (Hive.setKeyKind_cases e₁).imp id And.right
  | setValue key name ty data =>
    obtain ⟨r, e₁⟩ := exists_result e
    exact (Hive.setValue_cases e₁).imp And.right And.right
  | setValueFromExistingValue key name ty source =>
    obtain ⟨r, e₁⟩ := exists_result e
    exact (Hive.setValueFromExistingValue_cases (fun _ => hblob) e₁).imp And.right And.right
  | deleteValue key name =>
    obtain ⟨r, e₁⟩ := exists_result e
    exact (Hive.deleteValue_cases e₁).imp And.right And.right
  | deleteKey key =>
    obtain ⟨r, e₁⟩ := exists_result e
    exact Hive.deleteKey_cases e₁

/-- Every operation is a sequence of changes. -/
theorem HiveOp.changes (hl : Linked h) {op : HiveOp} (e : op.run h = some h') :
    Relation.ReflTransGen Change h h' := by
  by_cases hop : op.Creates
  · cases op with
    | createKey path =>
      obtain ⟨id, e₁⟩ := exists_result e
      unfold Hive.createKey at e₁
      split_ifs at e₁
      exact Hive.foldlM_createSubkey_changes e₁
    | createSubkey parent name =>
      obtain ⟨id, e₁⟩ := exists_result e
      exact Hive.createSubkey_changes e₁
    | _ => exact hop.elim
  · rcases HiveOp.edit hl.blob hop e with rfl | hedit
    · exact .refl
    · exact .single (.inl hedit)

theorem Linked.changes (hl : Linked h) (hc : Relation.ReflTransGen Change h h') : Linked h' := by
  induction hc with
  | refl => exact hl
  | tail _ hstep ih => exact ih.change hstep

theorem generation_of_changes (hc : Relation.ReflTransGen Change h h') :
    h'.generation = h.generation := by
  induction hc with
  | refl => rfl
  | tail _ hstep ih =>
    obtain ⟨blobs, nextId, sequence, hheader⟩ := hstep.header
    exact (congrArg Header.generation hheader).trans ih

theorem HiveOp.run_changes (hl : Linked h) {ops : List HiveOp}
    (e : ops.foldlM HiveOp.run h = some h') : Relation.ReflTransGen Change h h' := by
  induction ops generalizing h with
  | nil =>
    obtain rfl := Option.some.inj e
    exact .refl
  | cons op ops ih =>
    obtain ⟨h₁, e₁, e⟩ := bind_eq_some_iff.mp e
    have hchanges := HiveOp.changes hl e₁
    exact hchanges.trans (ih (hl.changes hchanges) e)

/-!
## Hives up to the numbering of their cells

`Isomorphic f h h'` says that `h'` is `h` with every cell id `i` replaced by `f i`: the same
tree with the same order of subkeys and values, the same names, kinds, classes, security
descriptors, types, payloads and write sequences.  Payloads are compared by content, since
their positions in the directory mean nothing.

`Hive.persistent` is the part of a hive that is written to its image.
-/

/-- A key with all ids in it renamed. -/
def KeyCell.rename (f : CellId → CellId) (k : KeyCell) : KeyCell :=
  { k with
    id := f k.id
    parent := k.parent.map f
    subkeys := k.subkeys.map f
    values := k.values.map f }

/-- The value `v'` of `h'` is the value `v` of `h` with ids renamed. -/
structure RenamedValue (f : CellId → CellId) (h h' : Hive) (v v' : ValueCell) : Prop where
  id : v'.id = f v.id
  parentKey : v'.parentKey = f v.parentKey
  name : v'.name = v.name
  valueType : v'.valueType = v.valueType
  data : h'.valueData v' = h.valueData v
  lastWriteSequence : v'.lastWriteSequence = v.lastWriteSequence

/-- The hive `h'` is the hive `h` with ids renamed. -/
structure Isomorphic (f : CellId → CellId) (h h' : Hive) : Prop where
  kind : h'.kind = h.kind
  generation : h'.generation = h.generation
  sequence : h'.sequence = h.sequence
  root : h'.root = f h.root
  key : ∀ {i : CellId} {k}, h.key i = some k → h'.key (f i) = some (k.rename f)
  value : ∀ {i : CellId} {v}, h.value i = some v →
    ∃ v', h'.value (f i) = some v' ∧ RenamedValue f h h' v v'
  key_onto : ∀ {j : CellId} {k'}, h'.key j = some k' → ∃ i k, h.key i = some k ∧ j = f i
  value_onto : ∀ {j : CellId} {v'}, h'.value j = some v' → ∃ i v, h.value i = some v ∧ j = f i
  injective : ∀ {i j : CellId}, (h.cell i).isSome → (h.cell j).isSome → f i = f j → i = j

namespace Hive

variable {h : Hive} {i : CellId} {k' : KeyCell} {v : ValueCell}

/-- A cell as it is in the durable part: volatile keys are left out, with their values and
with their entries in the lists of other keys. -/
def persistentCell (h : Hive) : Cell → Option Cell
  | .key k =>
    if k.volatile then none
    else some (.key { k with subkeys := k.subkeys.filter fun c => !h.isVolatile c })
  | .value v => if h.isVolatile v.parentKey then none else some (.value v)

/-- The part of the hive that is not volatile. -/
def persistent (h : Hive) : Hive :=
  { h with
    cells := h.cells.map fun c => c.bind h.persistentCell
    length_cells_le := by rw [List.length_map]; exact h.length_cells_le }

theorem cell_persistent (h : Hive) (i : CellId) :
    h.persistent.cell i = (h.cell i).bind h.persistentCell := by
  rw [cell, cell, persistent, Arena.get, Arena.get, List.getElem?_map]
  rcases h.cells[i]? with _ | _ | _ <;> rfl

theorem key_persistent_eq_some_iff : h.persistent.key i = some k' ↔
    ∃ k, h.key i = some k ∧ k.volatile = false ∧
      k' = { k with subkeys := k.subkeys.filter fun c => !h.isVolatile c } := by
  simp only [key_eq_some_iff, cell_persistent, Option.bind_eq_some_iff]
  constructor
  · rintro ⟨k | v, hc, hp⟩
    · rw [persistentCell] at hp
      split_ifs at hp with hv
      exact ⟨k, hc, Bool.eq_false_of_not_eq_true hv, (Cell.key.inj (Option.some.inj hp)).symm⟩
    · rw [persistentCell] at hp
      split at hp <;> cases hp
  · rintro ⟨k, hc, hv, rfl⟩
    exact ⟨.key k, hc, by rw [persistentCell, if_neg (Bool.eq_false_iff.mp hv)]⟩

theorem value_persistent_eq_some_iff : h.persistent.value i = some v ↔
    h.value i = some v ∧ h.isVolatile v.parentKey = false := by
  simp only [value_eq_some_iff, cell_persistent, Option.bind_eq_some_iff]
  constructor
  · rintro ⟨k | w, hc, hp⟩
    · rw [persistentCell] at hp
      split at hp <;> cases hp
    · rw [persistentCell] at hp
      split_ifs at hp with hv
      obtain rfl := Cell.value.inj (Option.some.inj hp)
      exact ⟨hc, Bool.eq_false_of_not_eq_true hv⟩
  · rintro ⟨hc, hv⟩
    exact ⟨.value v, hc, by rw [persistentCell, if_neg (Bool.eq_false_iff.mp hv)]⟩

end Hive

end UserspaceNtos.HiveCore
