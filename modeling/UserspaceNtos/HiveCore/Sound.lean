import UserspaceNtos.HiveCore.Linked
import UserspaceNtos.HiveCore.ImageCodec

/-!
# Hives on which no operation panics

`Sound` is what the operations rely on without checking it: the root is live, lists of
subkeys name live keys that point back, lists of values name no keys, and the levels of
the tree are bounded.  Every edit keeps it.  On a sound hive an operation whose parent
key is live returns as long as the 64-bit counters have room, and so does the recursion
that saves a subtree.
-/

namespace UserspaceNtos.HiveCore

open List Option

/-- What the operations take for granted. -/
structure Sound (h : Hive) : Prop where
  idle : h.pendingValueJournal = none
  root : ∃ k, h.key h.root = some k
  subkey : ∀ {i c : CellId} {k}, h.key i = some k → c ∈ k.subkeys →
    ∃ ck, h.key c = some ck ∧ ck.parent = some i
  value : ∀ {i c : CellId} {k}, h.key i = some k → c ∈ k.values → h.key c = none ∧ c < h.nextId
  blob : ∀ {i : CellId} {v}, h.value i = some v → v.dataBlob < h.valueBlobs.length
  depth : ∃ (depth : CellId → ℕ) (bound : ℕ), ∀ {i : CellId} {k}, h.key i = some k →
    depth i ≤ bound ∧ ∀ c ∈ k.subkeys, depth i < depth c

variable {h h' : Hive} {p k : KeyCell} {parent id : CellId} {written : ℕ}

/-! ## Edits -/

section Edits

variable (hs : Sound h) (hidle : h'.pendingValueJournal = h.pendingValueJournal)
include hs hidle

theorem Sound.sameShape (hsame : SameShape h h') : Sound h' where
  idle := hidle.trans hs.idle
  root := by
    obtain ⟨k, hk⟩ := hs.root
    obtain ⟨k', hk', -⟩ := hsame.key_live hk
    exact ⟨k', hsame.root ▸ hk'⟩
  subkey hk hc := by
    obtain ⟨k, hk', hlinks, -⟩ := hsame.key hk
    obtain ⟨ck, hck, hparent⟩ := hs.subkey hk' (hlinks.subkeys ▸ hc)
    obtain ⟨ck', hck', hclinks⟩ := hsame.key_live hck
    exact ⟨ck', hck', hclinks.parent.trans hparent⟩
  value {i c k'} hk hc := by
    obtain ⟨k, hk', hlinks, -⟩ := hsame.key hk
    obtain ⟨hnone, hlt⟩ := hs.value hk' (hlinks.values ▸ hc)
    refine ⟨eq_none_iff_forall_ne_some.mpr fun ck hck => ?_, hsame.nextId ▸ hlt⟩
    obtain ⟨ck', hck', -⟩ := hsame.key hck
    rw [hnone] at hck'
    cases hck'
  blob hv := by
    obtain ⟨v, hv', -, -, hblob | hblob, -⟩ := hsame.value hv
    · exact hblob ▸ (hs.blob hv').trans_le hsame.valueBlobs
    · exact hblob
  depth := by
    obtain ⟨depth, bound, hdepth⟩ := hs.depth
    refine ⟨depth, bound, fun {i k'} hk => ?_⟩
    obtain ⟨k, hk', hlinks, -⟩ := hsame.key hk
    exact hlinks.subkeys ▸ hdepth hk'

end Edits

/-- The levels below an edit: a new key is one level below its parent. -/
theorem Sound.depth_edit (hs : Sound h) (he : Edit h h') :
    ∃ (depth : CellId → ℕ) (bound : ℕ), ∀ {i : CellId} {k}, h'.key i = some k →
      depth i ≤ bound ∧ ∀ c ∈ k.subkeys, depth i < depth c := by
  obtain ⟨depth, bound, hdepth⟩ := hs.depth
  cases he
  case linkKey parent p child written header sequence nextId live free childId childParent
      childSubkeys childValues childWritten childVolatile parentWritten keys values =>
    have hfree := h.key_nextId
    have hlisted : ∀ {i : CellId} {k}, h.key i = some k → h.nextId ∉ k.subkeys := by
      intro i k hk hmem
      obtain ⟨ck, hck, -⟩ := hs.subkey hk hmem
      rw [hfree] at hck
      cases hck
    refine ⟨Function.update depth h.nextId (depth parent + 1), bound + 1, ?_⟩
    grind
  case rewriteKey links _ _ _ =>
    have := links.subkeys
    exact ⟨depth, bound, by grind⟩
  all_goals exact ⟨depth, bound, by grind⟩

theorem Sound.edit (hs : Sound h) (he : Edit h h') : Sound h' := by
  have hdepth := hs.depth_edit he
  cases he
  case touch header sequence keys values =>
    exact hs.sameShape (congrArg Header.pendingValueJournal header)
      (.touch header sequence keys values)
  case rewriteKey header sequence live links written keys values =>
    exact hs.sameShape (congrArg Header.pendingValueJournal header)
      (.rewriteKey header sequence live links written keys values)
  case rewriteValue header sequence blobs_le live sameId sameParent sameName blob written keys
      values =>
    exact hs.sameShape (congrArg Header.pendingValueJournal header)
      (.rewriteValue header sequence blobs_le live sameId sameParent blob written keys values)
  all_goals
    have hheader := ‹h'.header = _›
    have hroot : h'.root = h.root := congrArg Header.root hheader
    have hnextId : h'.nextId = _ := congrArg Header.nextId hheader
    have hblobs : h'.valueBlobs = _ := congrArg Header.valueBlobs hheader
    simp only [Hive.header] at hnextId hblobs
    have hvalue := @hs.value
    exact {
      idle := (congrArg Header.pendingValueJournal hheader).trans hs.idle
      root := by grind [hs.root]
      subkey := by grind [hs.subkey]
      value := by grind [mem_of_mem_erase]
      blob := by
        have := @hs.blob
        grind
      depth := hdepth }

/-! ## Operations return -/

namespace Hive

variable {parent key : CellId} {name : Str} {p k : KeyCell}

/-- `n` more changes can be counted and `n` more cells allocated. -/
structure Room (h : Hive) (n : ℕ) : Prop where
  sequence : h.sequence + n < 2 ^ 64
  nextId : h.nextId + n < 2 ^ 64

theorem Room.mono {m n : ℕ} (hroom : h.Room n) (hmn : m ≤ n) : h.Room m :=
  ⟨by have := hroom.sequence; omega, by have := hroom.nextId; omega⟩

/-- The counters of `h'` are at most `n` above those of `h`. -/
structure GrowsBy (h h' : Hive) (n : ℕ) : Prop where
  sequence : h'.sequence ≤ h.sequence + n
  nextId : h'.nextId ≤ h.nextId + n

theorem GrowsBy.refl (h : Hive) (n : ℕ) : h.GrowsBy h n :=
  ⟨Nat.le_add_right _ _, Nat.le_add_right _ _⟩

theorem GrowsBy.trans {h₁ : Hive} {m n : ℕ} (hm : h.GrowsBy h₁ m) (hn : h₁.GrowsBy h' n) :
    h.GrowsBy h' (m + n) :=
  ⟨by have := hm.sequence; have := hn.sequence; omega,
    by have := hm.nextId; have := hn.nextId; omega⟩

theorem GrowsBy.room {m n : ℕ} (hg : h.GrowsBy h' m) (hroom : h.Room (m + n)) : h'.Room n :=
  ⟨by have := hg.sequence; have := hroom.sequence; omega,
    by have := hg.nextId; have := hroom.nextId; omega⟩

theorem advance_of_room (hroom : h.sequence + 1 < 2 ^ 64) (volatile : Bool) :
    ∃ h₁, h.advance volatile = some h₁ ∧ h₁.cells = h.cells ∧ h₁.nextId = h.nextId := by
  rw [advance, checkedAdd, if_pos hroom]
  cases volatile with
  | true => exact ⟨h, rfl, rfl, rfl⟩
  | false => exact ⟨_, rfl, rfl, rfl⟩

theorem allocCell_of_room (hroom : h.nextId + 1 < 2 ^ 64) (cell : CellId → Cell) :
    ∃ h₁, h.allocCell cell = some (h.nextId, h₁) ∧
      h₁.cell = Function.update h.cell h.nextId (some (cell h.nextId)) ∧
      h₁.header = { h.header with nextId := h.nextId + 1 } := by
  obtain ⟨⟨id, h₁⟩, e⟩ : ∃ r, h.allocCell cell = some r := by
    rw [allocCell, if_pos hroom]
    exact ⟨_, rfl⟩
  obtain ⟨rfl, hheader, hcell, -⟩ := allocCell_cases e
  exact ⟨h₁, e, hcell, hheader⟩

theorem keyMut_of_key (hk : h.key key = some k) (f : KeyCell → KeyCell) :
    ∃ h₁, h.keyMut key f = some h₁ ∧ h₁.header = h.header ∧
      h₁.cell = Function.update h.cell key (some (.key (f k))) := by
  have e : h.keyMut key f = some (h.setCell key (some (.key (f k)))) := by
    rw [keyMut, hk]
    rfl
  obtain ⟨k', hk', hheader, hcell⟩ := keyMut_eq_some e
  rw [hk] at hk'
  obtain rfl := Option.some.inj hk'
  exact ⟨_, e, hheader, hcell⟩

/-- The subkey that is opened or created is live. -/
theorem createSubkey_live {id : CellId} (e : h.createSubkey parent name = some (id, h')) :
    ∃ k, h'.key id = some k := by
  rcases createSubkey_cases e with ⟨hopen, rfl⟩ | ⟨-, -, hlive⟩ | ⟨rfl, -, child, hself⟩
  · obtain ⟨p, -, e⟩ := bind_eq_some_iff.mp hopen
    have hfound := List.find?_some e
    cases hk : h'.key id with
    | none =>
      rw [hk] at hfound
      cases hfound
    | some k => exact ⟨k, rfl⟩
  · exact hlive
  · exact ⟨child, (hself.keys _).trans (if_pos rfl)⟩

/-- Under a live parent a subkey is opened or created. -/
theorem createSubkey_of_room (hidle : h.pendingValueJournal = none) (hp : h.key parent = some p)
    (hroom : h.Room 1) (name : Str) : ∃ id h', h.createSubkey parent name = some (id, h') := by
  have e : h.createSubkey parent name =
      h.createSubkeyInStorage parent name (h.isVolatile parent) := by
    rw [createSubkey, hidle]
    rfl
  rw [e, createSubkeyInStorage]
  cases hopen : h.openSubkey parent name with
  | some id => exact ⟨id, h, rfl⟩
  | none =>
    obtain ⟨h₁, e₁, hcells₁, hnext₁⟩ := advance_of_room hroom.sequence
      (h.isVolatile parent)
    have hp₁ : h₁.key parent = some p := by rw [key_congr hcells₁, hp]
    have hne : parent ≠ h₁.nextId := (key_lt_nextId hp₁).ne
    obtain ⟨h₂, e₂, hcell₂, -⟩ := allocCell_of_room (hnext₁ ▸ hroom.nextId) fun id => .key
      { kind := .ordinary, id := id, parent := some parent, name := name, subkeys := [],
        values := [], className := none, securityDescriptor := none,
        lastWriteSequence := h₁.sequence, volatile := (some parent).any h₁.isVolatile }
    have hk₂ := key_of_update_key hcell₂
    obtain ⟨h₃, e₃, -, hcell₃⟩ := keyMut_of_key ((hk₂ h₁.nextId).trans (if_pos rfl))
      fun k => { k with volatile := h.isVolatile parent }
    have hk₃ := key_of_update_key hcell₃
    obtain ⟨h₄, e₄, -⟩ := keyMut_of_key
      (((hk₃ parent).trans (if_neg hne)).trans (((hk₂ parent).trans (if_neg hne)).trans hp₁))
      fun k => { k with subkeys := k.subkeys ++ [h₁.nextId] }
    refine ⟨h₁.nextId, (if h.isVolatile parent then h₄ else h₄.markDirty parent).markDirty
      h₁.nextId, ?_⟩
    rw [e₁]
    simp only [bind_eq_bind, bind_some, allocKey, e₂, e₃, e₄]
    rfl

end Hive

theorem Edit.growsBy (he : Edit h h') : h.GrowsBy h' 1 := by
  cases he
  all_goals
    have hheader := ‹h'.header = _›
    have hsequence := ‹h.Advances _›
    refine ⟨hsequence.le_succ, (congrArg Header.nextId hheader).trans_le ?_⟩
    simp [Hive.header]

/-- A subkey of a live key keeps the hive sound and is one change. -/
theorem Sound.createSubkey (hs : Sound h) {name : Str} (hp : h.key parent = some p)
    (e : h.createSubkey parent name = some (id, h')) : Sound h' ∧ h.GrowsBy h' 1 := by
  rcases Hive.createSubkey_cases e with ⟨-, rfl⟩ | ⟨-, hedit, -⟩ | ⟨-, hnone, -⟩
  · exact ⟨hs, .refl _ _⟩
  · exact ⟨hs.edit hedit, hedit.growsBy⟩
  · rw [hp] at hnone
    cases hnone

section

variable {current : CellId} {names : List Str} (hs : Sound h) (hk : h.key current = some k)
include hs hk

theorem Sound.foldlM_createSubkey
    (e : names.foldlM (fun (cur, h) name => Hive.createSubkey h cur name) (current, h) =
      some (id, h')) : Sound h' ∧ h.GrowsBy h' names.length := by
  induction names generalizing h current k with
  | nil =>
    cases e
    exact ⟨hs, .refl _ _⟩
  | cons name names ih =>
    obtain ⟨⟨next, h₁⟩, e₁, e⟩ := bind_eq_some_iff.mp e
    obtain ⟨k₁, hk₁⟩ := Hive.createSubkey_live e₁
    obtain ⟨hs₁, hgrows₁⟩ := hs.createSubkey hk e₁
    obtain ⟨hs', hgrows⟩ := ih hs₁ hk₁ e
    rw [length_cons, Nat.add_comm]
    exact ⟨hs', hgrows₁.trans hgrows⟩

theorem Sound.foldlM_createSubkey_of_room (hroom : h.Room names.length) :
    ∃ r, names.foldlM (fun (cur, h) name => Hive.createSubkey h cur name) (current, h) =
      some r := by
  induction names generalizing h current k with
  | nil => exact ⟨_, rfl⟩
  | cons name names ih =>
    obtain ⟨id, h₁, e₁⟩ := Hive.createSubkey_of_room hs.idle hk (hroom.mono (by simp)) name
    obtain ⟨k₁, hk₁⟩ := Hive.createSubkey_live e₁
    obtain ⟨hs₁, hgrows⟩ := hs.createSubkey hk e₁
    obtain ⟨r, e'⟩ := ih hs₁ hk₁ (hgrows.room (hroom.mono (by simp [Nat.add_comm])))
    refine ⟨r, ?_⟩
    exact (congrArg (· >>= _) e₁).trans e'

end

/-- The parent key that the operation takes for granted. -/
def HiveOp.Addressed (h : Hive) : HiveOp → Prop
  | createSubkey parent _ => ∃ k, h.key parent = some k
  | _ => True

/-- How many changes the operation can make. -/
def HiveOp.cost : HiveOp → ℕ
  | createKey path => (components path).length
  | _ => 1

namespace Hive

variable {key : CellId} {k : KeyCell}

theorem editKey_of_room (hroom : h.sequence + 1 < 2 ^ 64) (edit : KeyCell → KeyCell) :
    ∃ r, h.editKey key edit = some r := by
  rw [editKey]
  split
  · exact ⟨_, rfl⟩
  · obtain ⟨h₁, e₁, -⟩ := advance_of_room hroom (h.isVolatile key)
    rw [e₁]
    simp only [bind_eq_bind, bind_some]
    split <;> exact ⟨_, rfl⟩

theorem setKeyKind_of_room (hroom : h.sequence + 1 < 2 ^ 64) (kind : KeyKind) :
    ∃ r, h.setKeyKind key kind = some r := by
  rw [setKeyKind]
  split
  · exact ⟨_, rfl⟩
  · split
    · exact ⟨_, rfl⟩
    · rename_i k hk
      split
      · exact ⟨_, rfl⟩
      · obtain ⟨h₁, e₁, hcells, -⟩ := advance_of_room hroom k.volatile
        have hk₁ : h₁.key key = some k := by rw [key_congr hcells, hk]
        obtain ⟨h₂, e₂, -⟩ := keyMut_of_key hk₁ fun k =>
          { k with kind := kind, lastWriteSequence := h₁.sequence }
        rw [e₁]
        simp only [bind_eq_bind, bind_some, e₂]
        exact ⟨_, rfl⟩

theorem addValue_of_room (hk : h.key key = some k) (hroom : h.nextId + 1 < 2 ^ 64) (name : Str)
    (valueType : RegistryValueType) (blob : ℕ) :
    ∃ h₁, h.addValue key name valueType blob = some h₁ := by
  obtain ⟨h₁, e₁, hcell₁, -⟩ := allocCell_of_room hroom fun id => .value
    { id := id, parentKey := key, name := name, valueType := valueType, dataBlob := blob,
      lastWriteSequence := h.sequence }
  have hk₁ : h₁.key key = some k := (key_of_update_value h.key_nextId hcell₁ key).trans hk
  obtain ⟨h₂, e₂, -⟩ := keyMut_of_key hk₁ fun k => { k with values := k.values ++ [h.nextId] }
  rw [addValue, e₁]
  simp only [bind_eq_bind, bind_some, e₂]
  exact ⟨_, rfl⟩

theorem setValue_of_room (hroom : h.Room 1) (name : Str) (valueType : RegistryValueType)
    (data : Bytes) : ∃ r, h.setValue key name valueType data = some r := by
  rw [setValue]
  split
  · exact ⟨_, rfl⟩
  · rename_i hguard
    obtain ⟨k, hk⟩ := key_of_guard hguard
    obtain ⟨blobs, hheader₀, hcells₀, -⟩ := internValueData_cases data
    generalize h.internValueData data = interned at hheader₀ hcells₀ ⊢
    obtain ⟨blob, h₀⟩ := interned
    have hseq₀ : h₀.sequence = h.sequence := congrArg Header.sequence hheader₀
    have hnext₀ : h₀.nextId = h.nextId := congrArg Header.nextId hheader₀
    obtain ⟨h₁, e₁, hcells₁, hnext₁⟩ := advance_of_room (hseq₀ ▸ hroom.sequence)
      (h₀.isVolatile key)
    have hk₁ : h₁.key key = some k := by rw [key_congr (hcells₁.trans hcells₀), hk]
    simp only [bind_eq_bind, e₁, bind_some]
    split
    · exact ⟨_, rfl⟩
    · obtain ⟨h₂, e₂⟩ := addValue_of_room hk₁ ((hnext₁.trans hnext₀) ▸ hroom.nextId) name
        valueType blob
      rw [e₂]
      exact ⟨_, rfl⟩

theorem setValueFromExistingValue_of_room (hroom : h.Room 1) (name : Str)
    (valueType : RegistryValueType) (source : CellId) :
    ∃ r, h.setValueFromExistingValue key name valueType source = some r := by
  rw [setValueFromExistingValue]
  split
  · exact ⟨_, rfl⟩
  · rename_i hguard
    obtain ⟨k, hk⟩ := key_of_guard hguard
    split
    · exact ⟨_, rfl⟩
    · rename_i shared _
      obtain ⟨h₁, e₁, hcells₁, hnext₁⟩ := advance_of_room hroom.sequence (h.isVolatile key)
      have hk₁ : h₁.key key = some k := by rw [key_congr hcells₁, hk]
      simp only [bind_eq_bind, e₁, bind_some]
      split
      · split <;> exact ⟨_, rfl⟩
      · obtain ⟨h₂, e₂⟩ := addValue_of_room hk₁ (hnext₁ ▸ hroom.nextId) name valueType
          shared.dataBlob
        rw [e₂]
        exact ⟨_, rfl⟩

theorem deleteValue_of_room (hroom : h.sequence + 1 < 2 ^ 64) (name : Str) :
    ∃ r, h.deleteValue key name = some r := by
  rw [deleteValue]
  split
  · exact ⟨_, rfl⟩
  · split
    · exact ⟨_, rfl⟩
    · obtain ⟨h₁, e₁, -⟩ := advance_of_room hroom (h.isVolatile key)
      simp only [bind_eq_bind, e₁, bind_some]
      split <;> exact ⟨_, rfl⟩

theorem deleteKey_of_room (hroom : h.sequence + 1 < 2 ^ 64) : ∃ r, h.deleteKey key = some r := by
  rw [deleteKey]
  split
  · exact ⟨_, rfl⟩
  · split
    · exact ⟨_, rfl⟩
    · split
      · exact ⟨_, rfl⟩
      · split
        · obtain ⟨h₁, e₁, -⟩ := advance_of_room hroom (h.isVolatile key)
          simp only [bind_eq_bind, e₁, bind_some]
          split
          · exact ⟨_, rfl⟩
          · split <;> exact ⟨_, rfl⟩
        · exact ⟨_, rfl⟩

theorem tryCreateChildWithOptions_of_room (hroom : h.nextId + 1 < 2 ^ 64) (parent : CellId)
    (name : Str) (className : Option Str) (descriptor : Bytes) (volatile reserved : Bool) :
    ∃ r, h.tryCreateChildWithOptions parent name className descriptor volatile reserved =
      some r := by
  rw [tryCreateChildWithOptions_eq]
  split
  · exact ⟨_, rfl⟩
  · rename_i s hcheck
    obtain ⟨p, hp, -⟩ := checkChild_eq_ok hcheck
    obtain ⟨h₁, e₁, hcell₁, -⟩ := allocCell_of_room hroom fun id => .key
      { kind := .ordinary, id := id, parent := some parent, name := name, subkeys := [],
        values := [], className := className, securityDescriptor := some descriptor,
        lastWriteSequence := s, volatile := volatile }
    have hp₁ : h₁.key parent = some p :=
      ((key_of_update_key hcell₁ parent).trans (if_neg (key_lt_nextId hp).ne)).trans hp
    obtain ⟨h₂, e₂, -⟩ := keyMut_of_key hp₁ fun p =>
      { p with
        subkeys := p.subkeys ++ [h.nextId]
        lastWriteSequence := if volatile then p.lastWriteSequence else s }
    rw [publishChild, e₁]
    simp only [bind_eq_bind, bind_some, e₂]
    exact ⟨_, rfl⟩

end Hive

/-- An operation on a sound hive returns while the counters have room. -/
theorem Sound.returns (hs : Sound h) {op : HiveOp} (hop : op.Addressed h)
    (hroom : h.Room op.cost) : ∃ h', op.run h = some h' := by
  have hmap : ∀ {α : Type} {o : Option (α × Hive)}, (∃ r, o = some r) →
      ∃ h', o.map Prod.snd = some h' := by
    rintro α o ⟨r, rfl⟩
    exact ⟨r.2, rfl⟩
  cases op with
  | createKey path =>
    obtain ⟨k, hk⟩ := hs.root
    refine hmap ?_
    rw [Hive.createKey, hs.idle]
    exact hs.foldlM_createSubkey_of_room hk hroom
  | createSubkey parent name =>
    obtain ⟨k, hk⟩ := hop
    obtain ⟨id, h₁, e⟩ := Hive.createSubkey_of_room hs.idle hk hroom name
    exact hmap ⟨_, e⟩
  | tryCreateChild parent name c d volatile reserved =>
    exact hmap (Hive.tryCreateChildWithOptions_of_room hroom.nextId _ _ _ _ _ _)
  | setKeyClass | setKeySecurityDescriptor => exact hmap (Hive.editKey_of_room hroom.sequence _)
  | setKeyKind key kind => exact hmap (Hive.setKeyKind_of_room hroom.sequence _)
  | setValue key name ty data => exact hmap (Hive.setValue_of_room hroom _ _ _)
  | setValueFromExistingValue key name ty source =>
    exact hmap (Hive.setValueFromExistingValue_of_room hroom _ _ _)
  | deleteValue key name => exact hmap (Hive.deleteValue_of_room hroom.sequence _)
  | deleteKey key => exact hmap (Hive.deleteKey_of_room hroom.sequence)

/-- An operation keeps a sound hive sound and makes at most as many changes as it costs. -/
theorem Sound.op (hs : Sound h) {op : HiveOp} (hop : op.Addressed h) (e : op.run h = some h') :
    Sound h' ∧ h.GrowsBy h' op.cost := by
  by_cases hcreates : op.Creates
  · cases op with
    | createKey path =>
      obtain ⟨id, e₁⟩ := exists_result e
      rw [Hive.createKey, hs.idle] at e₁
      obtain ⟨k, hk⟩ := hs.root
      exact hs.foldlM_createSubkey hk e₁
    | createSubkey parent name =>
      obtain ⟨id, e₁⟩ := exists_result e
      obtain ⟨k, hk⟩ := hop
      exact hs.createSubkey hk e₁
    | _ => exact hcreates.elim
  · have hcost : op.cost = 1 := by
      cases op with
      | createKey | createSubkey => exact absurd trivial hcreates
      | _ => rfl
    rw [hcost]
    rcases HiveOp.edit hs.blob hcreates e with rfl | hedit
    · exact ⟨hs, .refl _ _⟩
    · exact ⟨hs.edit hedit, hedit.growsBy⟩

/-! ## Saving a subtree -/

/-- The length of the records of a key's values is added to that of its own. -/
def subtreeValuesLen (h : Hive) (values : List CellId) (start : ℕ × ℕ) :
    Except HiveEncodeError (ℕ × ℕ) :=
  (values.filterMap h.value).foldlM (fun acc v => do
    let len ← checkedLen acc.1 (← valueRecordLen h v)
    return (len, acc.2 + 1)) start

/-- The length of the records of a subtree and their number.  The recursion has no bound
of its own, so it is given some fuel here. -/
def subtreePayloadLen (h : Hive) : ℕ → CellId → Option (Except HiveEncodeError (ℕ × ℕ))
  | 0, _ => none
  | fuel + 1, root =>
    if h.isVolatile root then some (.ok (0, 0))
    else
      match h.key root with
      | none => some (.ok (0, 0))
      | some key =>
        let start := do
          let len ← keyRecordLen key
          subtreeValuesLen h key.values (len, 1)
        key.subkeys.foldlM (fun acc child =>
          (subtreePayloadLen h fuel child).map fun below => do
            let (len, records) ← acc
            let (childLen, childRecords) ← below
            return (← checkedLen len childLen, ← checkedLen records childRecords)) start

/-- The records of a subtree; its root is written as a root. -/
def writeSubtreeRecords (h : Hive) (subtreeRoot : CellId) : ℕ → CellId → Option Bytes
  | 0, _ => none
  | fuel + 1, root =>
    if h.isVolatile root then some []
    else
      match h.key root with
      | none => some []
      | some key =>
        let own := keyRecord
          { key with parent := if root = subtreeRoot then none else key.parent }
        let values := (key.values.filterMap h.value).flatMap (valueRecord h)
        key.subkeys.foldlM (fun acc child =>
          (writeSubtreeRecords h subtreeRoot fuel child).map fun below => acc ++ below)
          (own ++ values)

/-- `HiveSubtreeEncodeError` -/
inductive HiveSubtreeEncodeError
  | invalidRoot
  | encode (e : HiveEncodeError)
  deriving DecidableEq, Repr

/-- An image of the keys below `subtreeRoot`. -/
def tryEncodeSubtreeImage (h : Hive) (fuel : ℕ) (subtreeRoot : CellId) :
    Option (Except HiveSubtreeEncodeError Bytes) :=
  if (h.key subtreeRoot).isNone || h.isVolatile subtreeRoot then some (.error .invalidRoot)
  else
    (subtreePayloadLen h fuel subtreeRoot).bind fun lengths =>
      match lengths with
      | .error e => some (.error (.encode e))
      | .ok (len, count) =>
        match checkedLen imageHeaderLen len with
        | .error e => some (.error (.encode e))
        | .ok _ => (writeSubtreeRecords h subtreeRoot fuel subtreeRoot).map fun payload =>
          .ok (sealImage h.kind h.generation h.sequence subtreeRoot count payload)

theorem foldlM_isSome {α β : Type} {f : β → α → Option β} {l : List α}
    (hf : ∀ a ∈ l, ∀ b, (f b a).isSome) (b : β) : (l.foldlM f b).isSome := by
  induction l generalizing b with
  | nil => rfl
  | cons a l ih =>
    obtain ⟨b', hb'⟩ := isSome_iff_exists.mp (hf a mem_cons_self b)
    rw [foldlM_cons, hb']
    exact ih (fun a' ha' => hf a' (mem_cons_of_mem _ ha')) b'

/-- A recursion that visits a key and then its subkeys ends at the deepest level. -/
theorem Sound.exists_fuel (hs : Sound h) : ∃ fuel, ∀ {α : Type} (visit : ℕ → CellId → Option α),
    (∀ fuel i, (∀ k, h.key i = some k → ∀ c ∈ k.subkeys, (visit fuel c).isSome) →
      (visit (fuel + 1) i).isSome) → ∀ i, (visit fuel i).isSome := by
  obtain ⟨depth, bound, hdepth⟩ := hs.depth
  refine ⟨bound + 1 + 1, fun visit hvisit i => ?_⟩
  have hlevel : ∀ fuel i, (∀ k, h.key i = some k → bound < depth i + fuel) →
      (visit (fuel + 1) i).isSome := by
    intro fuel
    induction fuel with
    | zero =>
      intro i hi
      refine hvisit 0 i fun k hk => ?_
      have := (hdepth hk).1
      have := hi k hk
      omega
    | succ fuel ih =>
      intro i hi
      refine hvisit _ i fun k hk c hc => ih c fun _ _ => ?_
      have := (hdepth hk).2 c hc
      have := hi k hk
      omega
  exact hlevel _ i fun _ _ => by omega

/-- Saving a subtree of a sound hive comes to an end. -/
theorem Sound.tryEncodeSubtreeImage_isSome (hs : Sound h) :
    ∃ fuel, ∀ subtreeRoot, (tryEncodeSubtreeImage h fuel subtreeRoot).isSome := by
  obtain ⟨fuel, hfuel⟩ := hs.exists_fuel
  refine ⟨fuel, fun subtreeRoot => ?_⟩
  obtain ⟨hlen, hwrite⟩ : (∀ i, (subtreePayloadLen h fuel i).isSome) ∧
      ∀ i, (writeSubtreeRecords h subtreeRoot fuel i).isSome := by
    refine ⟨hfuel _ fun fuel i hsub => ?_, hfuel _ fun fuel i hsub => ?_⟩
    on_goal 1 => rw [subtreePayloadLen]
    on_goal 2 => rw [writeSubtreeRecords]
    -- both go down the tree in the same way
    all_goals
      split
      · rfl
      · split
        · rfl
        · rename_i k hk
          refine foldlM_isSome (fun c hc acc => ?_) _
          rw [isSome_map]
          exact hsub k hk c hc
  rw [tryEncodeSubtreeImage]
  split
  · rfl
  · obtain ⟨lengths, hlengths⟩ := isSome_iff_exists.mp (hlen subtreeRoot)
    rw [hlengths, bind_some]
    split
    · rfl
    · split
      · rfl
      · rw [isSome_map]
        exact hwrite subtreeRoot

end UserspaceNtos.HiveCore
