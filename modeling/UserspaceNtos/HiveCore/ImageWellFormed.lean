import UserspaceNtos.HiveCore.Sound
import Mathlib.Data.Finset.Lattice.Fold

/-!
# Which images decode to well-formed hives

The decoder checks the checksums and the form of single records, and that the parent of a
value has been met.  It does not check that there is a root, that parents exist or that
they lead to the root, nor that names differ.  `TreeRecords` says when the records of an
image form a tree; it holds exactly if the decoded hive is well formed
(`Rebuilt.wellFormed_iff`).  On a well-formed hive every later operation returns as long as
the 64-bit counters last: `Serves budget` allows for so many changes, and the sequence that
the header starts with decides whether there is room for them.
-/

namespace UserspaceNtos.HiveCore

open List Option

/-- The key `i` has the parent `p`. -/
def Hive.HasParent (h : Hive) (i p : CellId) : Prop := ∃ k, h.key i = some k ∧ k.parent = some p

/-- Live keys form a tree below the root, and lists agree with it. -/
structure WellFormed (h : Hive) : Prop where
  root : ∃ k, h.key h.root = some k
  parent : ∀ {i : CellId} {k}, h.key i = some k → i ≠ h.root →
    ∃ p pk, k.parent = some p ∧ h.key p = some pk ∧ pk.subkeys.count i = 1
  reaches : ∀ {i : CellId} {k}, h.key i = some k → Relation.ReflTransGen h.HasParent i h.root
  subkey : ∀ {i c : CellId} {k ck}, h.key i = some k → c ∈ k.subkeys → h.key c = some ck →
    ck.parent = some i
  notValue : ∀ {i c : CellId} {k}, h.key i = some k → c ∈ k.values → h.key c = none
  value : ∀ {c : CellId} {v}, h.value c = some v → ∃! i, ∃ k, h.key i = some k ∧ c ∈ k.values
  keyName : ∀ {i j p : CellId} {k k'}, h.key i = some k → h.key j = some k' →
    k.parent = some p → k'.parent = some p → eqIgnoreAsciiCase k.name k'.name → i = j
  valueName : ∀ {i c c' : CellId} {k v v'}, h.key i = some k → c ∈ k.values → c' ∈ k.values →
    h.value c = some v → h.value c' = some v' → eqIgnoreAsciiCase v.name v'.name → c = c'

/-- The record under the id `r` names `p` as the parent. -/
def ParentRecord (root : CellId) (recs : List Record) (r p : CellId) : Prop :=
  r ≠ root ∧ ∃ k l, keyAt recs r = some (k, l) ∧ k.parent = p

/-- The records form a tree below the root. -/
structure TreeRecords (root : CellId) (recs : List Record) : Prop where
  rootLive : ∃ s, keyAt recs root = some s
  parent : ∀ {r k l}, keyAt recs r = some (k, l) → r ≠ root → ∃ s, keyAt recs k.parent = some s
  reaches : ∀ {r s}, keyAt recs r = some s → Relation.ReflTransGen (ParentRecord root recs) r root
  notValue : ∀ {r k l x}, keyAt recs r = some (k, l) → x ∈ l → keyAt recs x = none
  value : ∀ {r v}, valueAt recs r = some v → ∃! i, ∃ k l, keyAt recs i = some (k, l) ∧ r ∈ l
  keyName : ∀ {r r' k k' l l'}, keyAt recs r = some (k, l) → keyAt recs r' = some (k', l') →
    r ≠ root → r' ≠ root → k.parent = k'.parent → eqIgnoreAsciiCase k.name k'.name → r = r'
  valueName : ∀ {r k l x y v w}, keyAt recs r = some (k, l) → x ∈ l → y ∈ l →
    valueAt recs x = some v → valueAt recs y = some w → eqIgnoreAsciiCase v.name w.name → x = y

/-! ## From records to cells and back -/

namespace Rebuilt

/-- The cell that is built for a key record. -/
def Describes (root : CellId) (recs : List Record) (ids : List CellId) (r : CellId) (k : KeyRecord)
    (l : List CellId) (kc : KeyCell) : Prop :=
  kc.name = k.name ∧ kc.values = l.map ids.idxOf ∧
    kc.parent = (if r = root then none else some (ids.idxOf k.parent)) ∧
    kc.subkeys.Pairwise (· < ·) ∧
    ∀ c, c ∈ kc.subkeys ↔ ∃ r' k' l', keyAt recs r' = some (k', l') ∧ r' ≠ root ∧
      k'.parent = r ∧ c = ids.idxOf r'

variable {root : CellId} {recs : List Record} {ids : List CellId} {h : Hive}

section

variable (hb : Rebuilt root recs ids h)
include hb

variable {kc : KeyCell}

/-- The cell of a key and where it comes from. -/
theorem key_cases {j : CellId}
    (hk : h.key j = some kc) : ∃ r k l, keyAt recs r = some (k, l) ∧ j = ids.idxOf r ∧
      Describes root recs ids r k l kc := by
  obtain ⟨r, ⟨k, l⟩, hs, rfl⟩ := hb.key_raw hk
  obtain ⟨subkeys, hdec, hsorted, hmem⟩ := hb.key hs
  rw [hdec] at hk
  obtain rfl := Option.some.inj hk
  exact ⟨r, k, l, hs, rfl, rfl, rfl, rfl, hsorted, hmem⟩

theorem exists_key {r : CellId} {k : KeyRecord} {l : List CellId}
    (hs : keyAt recs r = some (k, l)) : ∃ kc, h.key (ids.idxOf r) = some kc ∧
      Describes root recs ids r k l kc := by
  obtain ⟨subkeys, hdec, hsorted, hmem⟩ := hb.key hs
  exact ⟨_, hdec, rfl, rfl, rfl, hsorted, hmem⟩

/-- A number that is the number of an id has a key exactly if the records leave one. -/
theorem keyAt_of_key {r : CellId} (hr : r ∈ ids)
    (hk : h.key (ids.idxOf r) = some kc) : ∃ s, keyAt recs r = some s := by
  obtain ⟨r', s, hs, heq⟩ := hb.key_raw hk
  exact ⟨s, idxOf_inj_of_mem hr heq ▸ hs⟩

theorem root_mem : root ∈ ids := hb.root_first.subset (mem_singleton_self _)

theorem idxOf_root : ids.idxOf root = 0 := by
  obtain ⟨rest, rfl⟩ := hb.root_first
  rw [singleton_append, idxOf_cons_self]

/-- A key with a parent comes from a record that is not the root's. -/
theorem parent_cases {j p : CellId} (hk : h.key j = some kc)
    (hp : kc.parent = some p) : ∃ r k l, keyAt recs r = some (k, l) ∧ j = ids.idxOf r ∧
      kc.name = k.name ∧ r ≠ root ∧ p = ids.idxOf k.parent := by
  obtain ⟨r, k, l, hs, rfl, hname, -, hparent, -⟩ := hb.key_cases hk
  have hne : r ≠ root := by
    rintro rfl
    rw [if_pos rfl, hp] at hparent
    cases hparent
  rw [if_neg hne, hp, Option.some.injEq] at hparent
  exact ⟨r, k, l, hs, rfl, hname, hne, hparent⟩

/-- The subkeys of a key are live keys below it. -/
theorem subkey_live {j c : CellId} (hk : h.key j = some kc) (hc : c ∈ kc.subkeys) :
    ∃ ck, h.key c = some ck ∧ ck.parent = some j ∧ c ≠ ids.idxOf root := by
  obtain ⟨r, k, l, hs, rfl, -, -, -, -, hmem⟩ := hb.key_cases hk
  obtain ⟨r', k', l', hs', hne, rfl, rfl⟩ := (hmem c).mp hc
  obtain ⟨ck, hck, -, -, hparent, -⟩ := hb.exists_key hs'
  refine ⟨ck, hck, hparent.trans (if_neg hne), fun heq => hne ?_⟩
  exact idxOf_inj_of_mem (hb.key_mem hs').1 heq

/-- A cell in the list of a key comes from an id in the list of a record. -/
theorem listed_cases {j c : CellId} (hk : h.key j = some kc) (hc : c ∈ kc.values) :
    ∃ r k l x, keyAt recs r = some (k, l) ∧ j = ids.idxOf r ∧ x ∈ l ∧ x ∈ ids ∧
      ids.idxOf x = c := by
  obtain ⟨r, k, l, hs, rfl, -, hvalues, -⟩ := hb.key_cases hk
  rw [hvalues] at hc
  obtain ⟨x, hx, heq⟩ := mem_map.mp hc
  exact ⟨r, k, l, x, hs, rfl, hx, (hb.key_mem hs).2.2 x hx, heq⟩

section Root

variable (hroot : h.root = ids.idxOf root)
include hroot

variable {i : CellId}

/-- Every number on the way to the root is the number of an id. -/
theorem reaches_records (hi : Relation.ReflTransGen h.HasParent i h.root) :
    ∀ r ∈ ids, i = ids.idxOf r → Relation.ReflTransGen (ParentRecord root recs) r root := by
  induction hi using Relation.ReflTransGen.head_induction_on with
  | refl =>
    intro r hr heq
    rw [idxOf_inj_of_mem hr (heq.symm.trans hroot)]
  | head hstep _ ih =>
    intro r hr heq
    obtain ⟨kc, hk, hp⟩ := hstep
    obtain ⟨r', k, l, hs, hr', -, hne, hparent⟩ := hb.parent_cases hk hp
    obtain rfl := idxOf_inj_of_mem hr (heq.symm.trans hr')
    exact .head ⟨hne, k, l, hs, rfl⟩ (ih k.parent ((hb.key_mem hs).2.1 hne) hparent)

theorem treeRecords_of_wellFormed (hw : WellFormed h) : TreeRecords root recs where
  rootLive := by
    obtain ⟨k, hk⟩ := hw.root
    exact hb.keyAt_of_key hb.root_mem (hroot ▸ hk)
  parent {r k l} hs hne := by
    obtain ⟨hr, hp, -⟩ := hb.key_mem hs
    obtain ⟨kc, hk, -, -, hparent, -⟩ := hb.exists_key hs
    obtain ⟨p, pk, hp', hpk, -⟩ := hw.parent hk (hroot ▸ fun heq => hne (idxOf_inj_of_mem hr heq))
    rw [if_neg hne, hp', Option.some.injEq] at hparent
    exact hb.keyAt_of_key (hp hne) (hparent ▸ hpk)
  reaches {r s} hs := by
    obtain ⟨kc, hk, -⟩ := hb.exists_key hs
    exact hb.reaches_records hroot (hw.reaches hk) r (hb.key_mem hs).1 rfl
  notValue {r k l x} hs hx := by
    obtain ⟨kc, hk, -, hvalues, -⟩ := hb.exists_key hs
    have hnone := hw.notValue hk (hvalues ▸ mem_map_of_mem hx)
    refine eq_none_iff_forall_ne_some.mpr fun s hs' => ?_
    obtain ⟨kc', hk', -⟩ := hb.exists_key hs'
    rw [hnone] at hk'
    cases hk'
  value {r v} hv := by
    obtain ⟨cell, hcell, -⟩ := hb.value hv
    obtain ⟨i, ⟨kc, hk, hmem⟩, huniq⟩ := hw.value hcell
    obtain ⟨r', k, l, x, hs, rfl, hx, hids, heq⟩ := hb.listed_cases hk hmem
    obtain rfl := idxOf_inj_of_mem hids heq
    refine ⟨r', ⟨k, l, hs, hx⟩, ?_⟩
    rintro r'' ⟨k', l', hs', hx'⟩
    obtain ⟨kc', hk', -, hvalues', -⟩ := hb.exists_key hs'
    exact idxOf_inj_of_mem (hb.key_mem hs').1 (huniq _ ⟨kc', hk', hvalues' ▸ mem_map_of_mem hx'⟩)
  keyName {r r' k k' l l'} hs hs' hne hne' hparent hname := by
    obtain ⟨kc, hk, hn, -, hp, -⟩ := hb.exists_key hs
    obtain ⟨kc', hk', hn', -, hp', -⟩ := hb.exists_key hs'
    rw [if_neg hne] at hp
    rw [if_neg hne', ← hparent] at hp'
    exact idxOf_inj_of_mem (hb.key_mem hs).1
      (hw.keyName hk hk' hp hp' (by rw [hn, hn']; exact hname))
  valueName {r k l x y v w} hs hx hy hv hv' hname := by
    obtain ⟨kc, hk, -, hvalues, -⟩ := hb.exists_key hs
    obtain ⟨c, hc, hdec⟩ := hb.value hv
    obtain ⟨c', hc', hdec'⟩ := hb.value hv'
    exact idxOf_inj_of_mem (hb.value_mem hv).1 (hw.valueName hk (hvalues ▸ mem_map_of_mem hx)
      (hvalues ▸ mem_map_of_mem hy) hc hc' (by rw [hdec.name, hdec'.name]; exact hname))

theorem wellFormed_of_treeRecords (ht : TreeRecords root recs) : WellFormed h where
  root := by
    obtain ⟨s, hs⟩ := ht.rootLive
    obtain ⟨kc, hk, -⟩ := hb.exists_key hs
    exact ⟨kc, hroot ▸ hk⟩
  parent {i kc} hk hne := by
    obtain ⟨r, k, l, hs, rfl, -, -, hparent, -⟩ := hb.key_cases hk
    have hne' : r ≠ root := fun heq => hne (by rw [heq, hroot])
    obtain ⟨⟨pk, pl⟩, hps⟩ := ht.parent hs hne'
    obtain ⟨pc, hpc, -, -, -, hsorted, hmem⟩ := hb.exists_key hps
    rw [if_neg hne'] at hparent
    refine ⟨_, pc, hparent, hpc, count_eq_one_of_mem (hsorted.imp fun hlt => hlt.ne) ?_⟩
    exact (hmem _).mpr ⟨r, k, l, hs, hne', rfl, rfl⟩
  reaches {i kc} hk := by
    obtain ⟨r, k, l, hs, rfl, -⟩ := hb.key_cases hk
    rw [hroot]
    refine (ht.reaches hs).lift ids.idxOf fun a b hab => ?_
    obtain ⟨hne, k, l, hs, rfl⟩ := hab
    obtain ⟨kc, hk, -, -, hparent, -⟩ := hb.exists_key hs
    exact ⟨kc, hk, hparent.trans (if_neg hne)⟩
  subkey {i c kc ck} hk hc hck := by
    obtain ⟨ck', hck', hparent, -⟩ := hb.subkey_live hk hc
    rw [hck] at hck'
    rw [Option.some.inj hck', hparent]
  notValue {i c kc} hk hc := by
    obtain ⟨r, k, l, x, hs, rfl, hx, hids, rfl⟩ := hb.listed_cases hk hc
    refine eq_none_iff_forall_ne_some.mpr fun ck hck => ?_
    obtain ⟨s, hs'⟩ := hb.keyAt_of_key hids hck
    rw [ht.notValue hs hx] at hs'
    cases hs'
  value {c v} hv := by
    obtain ⟨r, w, hw, rfl⟩ := hb.value_raw hv
    obtain ⟨i, ⟨k, l, hs, hmem⟩, huniq⟩ := ht.value hw
    obtain ⟨kc, hk, -, hvalues, -⟩ := hb.exists_key hs
    refine ⟨ids.idxOf i, ⟨kc, hk, hvalues ▸ mem_map_of_mem hmem⟩, ?_⟩
    rintro j ⟨kc', hk', hmem'⟩
    obtain ⟨r', k', l', x, hs', rfl, hx, hids, heq⟩ := hb.listed_cases hk' hmem'
    obtain rfl := idxOf_inj_of_mem hids heq
    rw [huniq r' ⟨k', l', hs', hx⟩]
  keyName {i j p kc kc'} hk hk' hp hp' hname := by
    obtain ⟨r, k, l, hs, rfl, hn, hne, rfl⟩ := hb.parent_cases hk hp
    obtain ⟨r', k', l', hs', rfl, hn', hne', hparent⟩ := hb.parent_cases hk' hp'
    rw [hn, hn'] at hname
    rw [ht.keyName hs hs' hne hne' (idxOf_inj_of_mem ((hb.key_mem hs).2.1 hne) hparent) hname]
  valueName {i c c' kc v v'} hk hc hc' hv hv' hname := by
    obtain ⟨r, k, l, hs, rfl, -, hvalues, -⟩ := hb.key_cases hk
    rw [hvalues] at hc hc'
    obtain ⟨x, hx, rfl⟩ := mem_map.mp hc
    obtain ⟨y, hy, rfl⟩ := mem_map.mp hc'
    have hl := (hb.key_mem hs).2.2
    obtain ⟨x', w, hw, heq⟩ := hb.value_raw hv
    obtain ⟨y', w', hw', heq'⟩ := hb.value_raw hv'
    obtain rfl := idxOf_inj_of_mem (hl x hx) heq
    obtain rfl := idxOf_inj_of_mem (hl y hy) heq'
    obtain ⟨cell, hcell, hdec⟩ := hb.value hw
    obtain ⟨cell', hcell', hdec'⟩ := hb.value hw'
    rw [hv, Option.some.injEq] at hcell
    rw [hv', Option.some.injEq] at hcell'
    rw [hcell, hcell', hdec.name, hdec'.name] at hname
    rw [ht.valueName hs hx hy hw hw' hname]

end Root

theorem wellFormed_iff (hroot : h.root = 0) : WellFormed h ↔ TreeRecords root recs :=
  have hroot' : h.root = ids.idxOf root := hroot.trans hb.idxOf_root.symm
  ⟨hb.treeRecords_of_wellFormed hroot', hb.wellFormed_of_treeRecords hroot'⟩

end

end Rebuilt

/-! ## Well-formed hives are sound -/

section Level

variable {h : Hive} {i : CellId}

/-- The key is `n` steps away from the root. -/
inductive Hive.Level (h : Hive) : ℕ → CellId → Prop
  | root : Hive.Level h 0 h.root
  | child {n : ℕ} {i p : CellId} (hne : i ≠ h.root) (hp : h.HasParent i p)
      (hl : Hive.Level h n p) : Hive.Level h (n + 1) i

theorem Hive.Level.unique {m n : ℕ} (hm : h.Level m i) (hn : h.Level n i) : m = n := by
  induction hm generalizing n with
  | root =>
    cases hn with
    | root => rfl
    | child hne _ _ => exact absurd rfl hne
  | child hne hp _ ih =>
    cases hn with
    | root => exact absurd rfl hne
    | child _ hp' hl' =>
      obtain ⟨k, hk, hparent⟩ := hp
      obtain ⟨k', hk', hparent'⟩ := hp'
      rw [hk, Option.some.injEq] at hk'
      rw [← hk', hparent, Option.some.injEq] at hparent'
      rw [ih (hparent' ▸ hl')]

theorem WellFormed.exists_level (hw : WellFormed h) {k : KeyCell}
    (hk : h.key i = some k) : ∃ n, h.Level n i := by
  have hchain := hw.reaches hk
  clear hk
  induction hchain using Relation.ReflTransGen.head_induction_on with
  | refl => exact ⟨0, .root⟩
  | @head i p hstep _ ih =>
    by_cases hne : i = h.root
    · exact ⟨0, hne ▸ .root⟩
    · obtain ⟨n, hn⟩ := ih
      exact ⟨n + 1, .child hne hstep hn⟩

open Classical in
/-- The level of a key. -/
noncomputable def Hive.level (h : Hive) (i : CellId) : ℕ :=
  if hi : ∃ n, h.Level n i then hi.choose else 0

theorem Hive.Level.eq_level {n : ℕ} (hn : h.Level n i) : h.level i = n := by
  have hi : ∃ n, h.Level n i := ⟨n, hn⟩
  rw [Hive.level, dif_pos hi]
  exact hi.choose_spec.unique hn

end Level

/-- An id that a key lists is that of a value or a key. -/
theorem live_of_listed {recs : List Record} {r x : CellId} {k : KeyRecord} {l : List CellId}
    (hs : keyAt recs r = some (k, l)) (hx : x ∈ l) :
    (∃ s, keyAt recs x = some s) ∨ ∃ v, valueAt recs x = some v := by
  induction recs using List.reverseRecOn generalizing r k l with
  | nil => cases hs
  | append_singleton recs rec ih =>
    rw [keyAt_concat] at hs
    rw [keyAt_concat, valueAt_concat]
    cases rec with
    | key k₁ =>
      rw [keyStep] at hs ⊢
      rw [valueStep]
      by_cases hid : k₁.id = x
      · rw [if_pos hid]
        exact .inl ⟨_, rfl⟩
      · rw [if_neg hid, if_neg hid]
        split at hs
        · obtain ⟨-, rfl⟩ := Prod.mk.inj (Option.some.inj hs)
          cases hx
        · exact ih hs hx
    | value v₁ =>
      rw [valueStep]
      by_cases hid : v₁.id = x
      · rw [if_pos hid]
        exact .inr ⟨_, rfl⟩
      · rw [keyStep, if_neg hid, if_neg hid]
        -- the value record adds no id but its own to a list
        have hold : ∃ k l, keyAt recs r = some (k, l) ∧ x ∈ l := by
          rw [keyStep] at hs
          split at hs
          · cases hs
          · split at hs
            · obtain ⟨⟨k', l'⟩, hs', heq⟩ := map_eq_some_iff.mp hs
              obtain ⟨rfl, rfl⟩ := Prod.mk.inj heq
              rcases mem_append.mp hx with hx | hx
              · exact ⟨k', l', hs', hx⟩
              · exact absurd (mem_singleton.mp hx).symm hid
            · exact ⟨k, l, hs, hx⟩
        obtain ⟨k', l', hs', hx'⟩ := hold
        rcases ih hs' hx' with ⟨s, hks⟩ | hvalue
        · rw [hks]
          split
          · exact .inl ⟨_, rfl⟩
          · exact .inl ⟨_, rfl⟩
        · exact .inr hvalue

theorem Rebuilt.sound {root : CellId} {recs : List Record} {ids : List CellId} {h : Hive}
    (hb : Rebuilt root recs ids h) (hroot : h.root = 0) (hidle : h.pendingValueJournal = none)
    (hw : WellFormed h) : Sound h where
  idle := hidle
  root := hw.root
  subkey hk hc := by
    obtain ⟨ck, hck, hparent, -⟩ := hb.subkey_live hk hc
    exact ⟨ck, hck, hparent⟩
  value {i c kc} hk hc := by
    refine ⟨hw.notValue hk hc, ?_⟩
    obtain ⟨r, k, l, hs, rfl, -, hvalues, -⟩ := hb.key_cases hk
    rw [hvalues] at hc
    obtain ⟨x, hx, rfl⟩ := mem_map.mp hc
    rcases live_of_listed hs hx with ⟨s, hx'⟩ | ⟨v, hx'⟩
    · obtain ⟨kc', hk', -⟩ := hb.exists_key hx'
      exact Hive.key_lt_nextId hk'
    · obtain ⟨cell, hcell, -⟩ := hb.value hx'
      exact Hive.value_lt_nextId hcell
  blob hv := by
    obtain ⟨r, w, hw', rfl⟩ := hb.value_raw hv
    obtain ⟨cell, hcell, hdec⟩ := hb.value hw'
    rw [hv, Option.some.injEq] at hcell
    exact hcell ▸ (List.getElem?_eq_some_iff.mp hdec.data).1
  depth := by
    refine ⟨h.level, (Finset.range h.nextId).sup h.level, fun {i kc} hk => ⟨?_, fun c hc => ?_⟩⟩
    · exact Finset.le_sup (Finset.mem_range.mpr (Hive.key_lt_nextId hk))
    · obtain ⟨n, hn⟩ := hw.exists_level hk
      obtain ⟨ck, hck, hparent, hne⟩ := hb.subkey_live hk hc
      rw [hb.idxOf_root, ← hroot] at hne
      have hlevel : h.Level (n + 1) c := .child hne ⟨ck, hck, hparent⟩ hn
      rw [hn.eq_level, hlevel.eq_level]
      exact Nat.lt_succ_self n

/-! ## Images -/

/-- The header of an image and the records of its payload. -/
def imageContents (bytes : Bytes) : Except HiveDecodeError (ImageHeader × List Record) := do
  let (header, _) ← readImageHeader bytes
  let recs ← readRecords header.schema ((bytes.drop imageHeaderLen).take header.payloadLen)
  return (header, recs)

theorem imageContents_of_read {bytes rest : Bytes} {header : ImageHeader} {recs : List Record}
    (hheader : readImageHeader bytes = .ok (header, rest))
    (hrecs : readRecords header.schema
      ((bytes.drop imageHeaderLen).take header.payloadLen) = .ok recs) :
    imageContents bytes = .ok (header, recs) := by
  rw [imageContents, hheader]
  exact congrArg (· >>= fun recs => pure (header, recs)) hrecs

open Parser in
theorem readImageHeader_sequence_lt {bytes rest : Bytes} {header : ImageHeader}
    (e : readImageHeader bytes = .ok (header, rest)) : header.sequence < 2 ^ 64 := by
  obtain ⟨magic, _, -, e⟩ := bind_eq_ok_iff.mp e
  split at e
  · cases e
  obtain ⟨_, _, -, e⟩ := bind_eq_ok_iff.mp e
  obtain ⟨schema, _, -, e⟩ := bind_eq_ok_iff.mp e
  split at e
  · cases e
  obtain ⟨_, _, -, e⟩ := bind_eq_ok_iff.mp e
  obtain ⟨_, _, -, e⟩ := bind_eq_ok_iff.mp e
  obtain ⟨kind, _, -, e⟩ := bind_eq_ok_iff.mp e
  obtain ⟨generation, _, -, e⟩ := bind_eq_ok_iff.mp e
  obtain ⟨sequence, _, hsequence, e⟩ := bind_eq_ok_iff.mp e
  obtain ⟨root, _, -, e⟩ := bind_eq_ok_iff.mp e
  obtain ⟨_, _, -, e⟩ := bind_eq_ok_iff.mp e
  obtain ⟨payloadLen, _, -, e⟩ := bind_eq_ok_iff.mp e
  obtain ⟨payloadCrc, _, -, e⟩ := bind_eq_ok_iff.mp e
  obtain ⟨headerCrc, _, -, e⟩ := bind_eq_ok_iff.mp e
  obtain ⟨rfl, -⟩ := Prod.mk.inj (Except.ok.inj e)
  exact ConfigStore.Reader.word_lt hsequence

/-- What is known of the hive in an image that is accepted. -/
structure FromImage (bytes : Bytes) (header : ImageHeader) (recs : List Record) (h : Hive) :
    Prop where
  contents : imageContents bytes = .ok (header, recs)
  rebuilt : ∃ ids, Rebuilt header.rootCell recs ids h
  root : h.root = 0
  idle : h.pendingValueJournal = none
  sequence : h.sequence = header.sequence
  sequence_lt : header.sequence < 2 ^ 64
  nextId_le : h.nextId ≤ 1 + 2 * bytes.length

theorem decodeImage_eq_ok {bytes : Bytes} {h : Hive} (e : decodeImage bytes = .ok h) :
    ∃ header recs, FromImage bytes header recs h := by
  obtain ⟨⟨header, rest⟩, hheader, e⟩ := Result.bind_eq_ok e
  dsimp only at e
  obtain ⟨-, e⟩ := Result.guard_eq_ok e
  obtain ⟨-, e⟩ := Result.guard_eq_ok e
  obtain ⟨-, e⟩ := Result.guard_eq_ok e
  obtain ⟨recs, blobs, nextId, hrecs, hrebuilt, hnext, hfields⟩ := decodePayload_eq_ok e
  refine ⟨header, recs, imageContents_of_read hheader hrecs, ⟨_, hrebuilt⟩,
    congrArg Header.root hfields, congrArg Header.pendingValueJournal hfields,
    congrArg Header.sequence hfields, readImageHeader_sequence_lt hheader, ?_⟩
  have hids := @length_foldl_stepIds_le header.rootCell recs [header.rootCell]
  have hpayload := length_readRecords_le hrecs
  have hnext' : h.nextId = nextId := congrArg Header.nextId hfields
  rw [length_singleton] at hids
  rw [length_take, length_drop] at hpayload
  omega

/-! ## Later operations -/

/-- The hive can become `h'` by operations on live keys. -/
def Later : Hive → Hive → Prop :=
  Relation.ReflTransGen fun h h' => ∃ op : HiveOp, op.Addressed h ∧ op.run h = some h'

/-- No operation panics or loops: changes return while the counters have room, a subtree is
saved in bounded time, and the image is encoded if the fields fit. -/
structure Usable (h : Hive) : Prop where
  returns : ∀ op : HiveOp, op.Addressed h → h.Room op.cost → ∃ h', op.run h = some h'
  subtree : ∃ fuel, ∀ i, (tryEncodeSubtreeImage h fuel i).isSome
  image : (encodeImage h).isSome ↔ h.Fits

theorem Sound.usable {h : Hive} (hs : Sound h) : Usable h where
  returns _ := hs.returns
  subtree := hs.tryEncodeSubtreeImage_isSome
  image := encodeImage_isSome_iff

theorem Sound.later {h h' : Hive} (hs : Sound h) (hl : Later h h') : Sound h' := by
  induction hl with
  | refl => exact hs
  | tail _ hstep ih =>
    obtain ⟨op, hop, e⟩ := hstep
    exact (ih.op hop e).1

/-- The hive becomes `h'` by operations on live keys that cost `spent` changes together. -/
inductive LaterBy (h : Hive) : ℕ → Hive → Prop
  | refl : LaterBy h 0 h
  | step {spent : ℕ} {h₁ h₂ : Hive} {op : HiveOp} (hl : LaterBy h spent h₁)
      (hop : op.Addressed h₁) (e : op.run h₁ = some h₂) : LaterBy h (spent + op.cost) h₂

/-- After any operations, an operation with which the changes stay within the budget returns,
a subtree is saved in bounded time, and a hive whose fields fit is encoded. -/
structure Serves (budget : ℕ) (h : Hive) : Prop where
  returns : ∀ {spent h'}, LaterBy h spent h' → ∀ op : HiveOp, op.Addressed h' →
    spent + op.cost ≤ budget → ∃ h'', op.run h' = some h''
  subtree : ∀ {spent h'}, LaterBy h spent h' →
    ∃ fuel, ∀ i, (tryEncodeSubtreeImage h' fuel i).isSome
  image : ∀ {spent h'}, LaterBy h spent h' → h'.Fits → (encodeImage h').isSome

section Serves

variable {h h' : Hive} {spent budget : ℕ}

theorem Sound.laterBy (hs : Sound h) (hl : LaterBy h spent h') :
    Sound h' ∧ h.GrowsBy h' spent := by
  induction hl with
  | refl => exact ⟨hs, .refl _ _⟩
  | step _ hop e ih =>
    obtain ⟨hs₂, hgrows⟩ := ih.1.op hop e
    exact ⟨hs₂, ih.2.trans hgrows⟩

theorem Sound.serves (hs : Sound h) (hroom : h.Room budget) : Serves budget h where
  returns hl op hop hcost := by
    obtain ⟨hs', hgrows⟩ := hs.laterBy hl
    exact hs'.returns hop (hgrows.room (hroom.mono hcost))
  subtree hl := (hs.laterBy hl).1.tryEncodeSubtreeImage_isSome
  image _ hfits := encodeImage_isSome_iff.mpr hfits

/-- Changes of the root are counted. -/
structure Hive.RootCounts (h : Hive) : Prop where
  idle : h.pendingValueJournal = none
  root : ∃ k, h.key h.root = some k ∧ k.volatile = false

/-- The class of the root can be set exactly as long as the sequence has room. -/
theorem Hive.RootCounts.setKeyClass (hr : h.RootCounts)
    (e : (HiveOp.setKeyClass h.root none).run h = some h') :
    h.sequence + 1 < 2 ^ 64 ∧ h'.sequence = h.sequence + 1 ∧ h'.RootCounts := by
  obtain ⟨hidle, k, hk, hdurable⟩ := hr
  obtain ⟨done, e⟩ := exists_result e
  rw [Hive.setKeyClass, Hive.editKey, hidle, hk, Hive.isVolatile_of_key hk, hdurable] at e
  obtain ⟨h₁, e₁, e⟩ := bind_eq_some_iff.mp e
  obtain ⟨s, hs, rfl⟩ := map_eq_some_iff.mp e₁
  rw [checkedAdd] at hs
  split at hs
  case isFalse => cases hs
  case isTrue hroom =>
    obtain rfl := Option.some.inj hs
    have hk₁ : Hive.key { h with sequence := h.sequence + 1 } h.root = some k := hk
    split at e
    case h_2 enone =>
      rw [Hive.keyMut, hk₁] at enone
      cases enone
    case h_1 h₂ e₂ =>
      obtain ⟨hheader, hcell⟩ := Hive.keyMut_markDirty hk₁ rfl e₂
      obtain ⟨-, rfl⟩ := Prod.mk.inj (Option.some.inj e)
      have hroot : (h₂.markDirty h.root).root = h.root := congrArg Header.root hheader
      refine ⟨hroom, congrArg Header.sequence hheader,
        (congrArg Header.pendingValueJournal hheader).trans hidle, ?_⟩
      have hkey := (Hive.key_of_update_key hcell h.root).trans (if_pos rfl)
      exact ⟨_, (congrArg _ hroot).trans hkey, hdurable⟩

/-- A hive that serves for `budget` changes has room for them in its sequence. -/
theorem Serves.sequence_lt (hserves : Serves budget h) (hr : h.RootCounts)
    (hlt : h.sequence < 2 ^ 64) : h.sequence + budget < 2 ^ 64 := by
  have hrun : ∀ n ≤ budget, ∃ h', LaterBy h n h' ∧ h'.sequence = h.sequence + n ∧
      h'.sequence < 2 ^ 64 ∧ h'.RootCounts := by
    intro n
    induction n with
    | zero => exact fun _ => ⟨h, .refl, rfl, hlt, hr⟩
    | succ n ih =>
      intro hn
      obtain ⟨h₁, hl, hseq, -, hr₁⟩ := ih (by omega)
      have hop : HiveOp.Addressed h₁ (.setKeyClass h₁.root none) := trivial
      obtain ⟨h₂, e⟩ := hserves.returns hl _ hop hn
      obtain ⟨hroom, hseq₂, hr₂⟩ := hr₁.setKeyClass e
      exact ⟨h₂, hl.step hop e, by omega, by omega, hr₂⟩
  obtain ⟨h', -, hseq, hlt', -⟩ := hrun budget le_rfl
  omega

end Serves

theorem sound_new (kind : HiveKind) : Sound (Hive.new kind) := by
  have hl := linked_new kind
  have hleaf : ∀ {i k}, (Hive.new kind).key i = some k → k.subkeys = [] ∧ k.values = [] := by
    intro i k hk
    rw [Hive.key_eq_some_iff, Hive.cell, Hive.new, Arena.get_put] at hk
    split at hk <;> cases hk
    exact ⟨rfl, rfl⟩
  refine ⟨rfl, ⟨_, rfl⟩, hl.subkey, ?_, hl.blob, fun _ => 0, 0, ?_⟩
  · intro i c k hk hc
    rw [(hleaf hk).2] at hc
    cases hc
  · intro i k hk
    simp [(hleaf hk).1]

/-- A hive that operations have made of a new one is linked, and none of them panics or loops
on it. -/
theorem new_linked_and_usable (kind : HiveKind) (h : Hive) (hlater : Later (Hive.new kind) h) :
    Linked h ∧ Usable h := by
  refine ⟨?_, ((sound_new kind).later hlater).usable⟩
  induction hlater with
  | refl => exact linked_new kind
  | tail _ hstep ih =>
    obtain ⟨op, -, e⟩ := hstep
    exact ih.changes (HiveOp.changes ih e)

theorem new_linked_and_usable_createKey : ∃ h, (HiveOp.createKey ['A']).run (Hive.new .system) =
    some h ∧ Linked h ∧ Usable h :=
  ⟨_, rfl, new_linked_and_usable .system _ (.single ⟨.createKey ['A'], trivial, rfl⟩)⟩

/-- The root that the decoder builds is durable. -/
theorem FromImage.rootCounts {bytes : Bytes} {header : ImageHeader} {recs : List Record} {h : Hive}
    (hf : FromImage bytes header recs h) (hw : WellFormed h) : h.RootCounts := by
  obtain ⟨ids, hb⟩ := hf.rebuilt
  obtain ⟨k, hk⟩ := hw.root
  obtain ⟨r, ⟨rec, l⟩, hs, hj⟩ := hb.key_raw hk
  obtain ⟨subkeys, hkey, -⟩ := hb.key hs
  exact ⟨hf.idle, _, hj ▸ hkey, rfl⟩

/-- An image that is accepted decodes to a well-formed hive exactly if its records form a
tree.  No later operation within a budget of changes panics or loops exactly if moreover the
sequence in the header leaves room for the budget. -/
theorem decodeImage_wellFormed_iff (bytes : Bytes) (h : Hive) (budget : ℕ)
    (e : decodeImage bytes = .ok h) (hlen : bytes.length ≤ 2 ^ 62) (hbudget : budget ≤ 2 ^ 62) :
    ∃ header recs, imageContents bytes = .ok (header, recs) ∧
      (WellFormed h ↔ TreeRecords header.rootCell recs) ∧
      (WellFormed h ∧ Serves budget h ↔
        TreeRecords header.rootCell recs ∧ header.sequence + budget < 2 ^ 64) := by
  obtain ⟨header, recs, hf⟩ := decodeImage_eq_ok e
  obtain ⟨ids, hb⟩ := hf.rebuilt
  have hiff := hb.wellFormed_iff hf.root
  refine ⟨header, recs, hf.contents, hiff, ?_⟩
  rw [← hiff, ← hf.sequence]
  refine and_congr_right fun hw => ⟨fun hserves => ?_, fun hroom => ?_⟩
  · exact hserves.sequence_lt (hf.rootCounts hw) (hf.sequence ▸ hf.sequence_lt)
  · have hnext := hf.nextId_le
    exact (hb.sound hf.root hf.idle hw).serves ⟨hroom, by omega⟩

/-- The key record with nothing but a name. -/
def plainKey (id parent : CellId) (name : Str) (sequence : ℕ) : KeyRecord where
  id := id
  parent := parent
  name := name
  kind := .ordinary
  className := none
  securityDescriptor := none
  sequence := sequence

/-- The value record of the family. -/
def familyValue : ValueRecord where
  id := 4
  parentKey := 2
  name := ['v']
  valueType := 4
  data := [7, 0, 0, 0]
  sequence := 3

/-- A root, two keys below it and a value of the first. -/
def familyRecords : List Record :=
  [.key (plainKey 1 0 [] 2), .key (plainKey 2 1 ['A'] 3), .key (plainKey 3 1 ['B'] 2),
    .value familyValue]

theorem keyAt_family : ∀ r, keyAt familyRecords r =
    if r = 1 then some (plainKey 1 0 [] 2, []) else if r = 2 then some (plainKey 2 1 ['A'] 3, [4])
    else if r = 3 then some (plainKey 3 1 ['B'] 2, []) else none
  | 0 | 1 | 2 | 3 | 4 | _ + 5 => rfl

theorem valueAt_family : ∀ r,
    valueAt familyRecords r = if r = 4 then some familyValue else none
  | 0 | 1 | 2 | 3 | 4 | _ + 5 => rfl

theorem treeRecords_family : TreeRecords 1 familyRecords := by
  have hnames : eqIgnoreAsciiCase ['A'] ['B'] = false ∧ eqIgnoreAsciiCase ['B'] ['A'] = false := by
    decide
  have hkey := keyAt_family
  have hvalue := valueAt_family
  refine ⟨⟨_, rfl⟩, ?_, ?_, ?_, ?_, ?_, ?_⟩
  · grind [plainKey]
  · intro r s hs
    have hchild : r = 1 ∨ ParentRecord 1 familyRecords r 1 := by
      rw [ParentRecord]
      grind [plainKey]
    rcases hchild with rfl | hchild
    · rfl
    · exact .single hchild
  · grind [plainKey]
  · intro r v hv
    obtain rfl : r = 4 := by grind
    exact ⟨2, ⟨_, _, rfl, mem_singleton_self _⟩, by grind⟩
  · grind [plainKey]
  · grind [plainKey]

/-- A hive with a root, two keys below it and a value of the first. -/
def familyHive : Hive :=
  let ops : List HiveOp :=
    [.createSubkey 1 ['A'], .createSubkey 1 ['B'], .setValue 2 ['v'] .dword [7, 0, 0, 0]]
  (ops.foldlM HiveOp.run (Hive.new .system)).getD (Hive.new .system)

/-- The image of `familyHive`. -/
def familyImage : Bytes := sealImage .system 0 3 1 4 (imagePayload familyHive)

theorem encodedImageLen_familyHive : encodedImageLen familyHive = .ok 224 := rfl

theorem readRecords_familyImage :
    readRecords schemaVersion (imagePayload familyHive) = .ok familyRecords :=
  readRecords_imagePayload (encodedImageLen_eq_ok encodedImageLen_familyHive).2 (by decide)
    (by decide)

/-- The hive in `familyImage`. -/
def decodedFamily : Hive :=
  match familyRecords.foldlM (Decoder.addRecord 1)
    { hive := Hive.empty .system 0 0 3, idMap := [1], blobIndex := [] } with
  | .ok d => d.hive.relinkSubkeys
  | .error _ => Hive.new .system

theorem length_imagePayload_familyHive : (imagePayload familyHive).length < 2 ^ 64 := by
  have := (encodedImageLen_eq_ok encodedImageLen_familyHive).2.payload
  omega

theorem decodeImage_familyImage : decodeImage familyImage = .ok decodedFamily := by
  rw [familyImage, decodeImage_sealImage _ _ (by decide) (by decide) (by decide)
      length_imagePayload_familyHive,
    decodePayload, decodeRecords_eq_ok_iff.mpr ⟨_, readRecords_familyImage, rfl⟩]
  rfl

theorem imageContents_familyImage : ∃ header, imageContents familyImage =
    .ok (header, familyRecords) ∧ header.rootCell = 1 ∧ header.sequence = 3 := by
  have hheader : readImageHeader familyImage = _ := readImageHeader_sealImage _ _ (by decide)
    (by decide) (by decide) length_imagePayload_familyHive
  refine ⟨_, imageContents_of_read hheader ?_, rfl, rfl⟩
  rw [familyImage, drop_sealImage, take_length]
  exact readRecords_familyImage

theorem serves_decodedFamily : decodeImage familyImage = .ok decodedFamily ∧
    WellFormed decodedFamily ∧ Serves (2 ^ 62) decodedFamily := by
  have hlen : familyImage.length = 224 := by
    rw [familyImage, length_sealImage]
    exact (encodedImageLen_eq_ok encodedImageLen_familyHive).1
  obtain ⟨header, recs, hcontents, -, hiff⟩ := decodeImage_wellFormed_iff familyImage decodedFamily
    (2 ^ 62) decodeImage_familyImage (by omega) le_rfl
  obtain ⟨header', hcontents', hroot, hsequence⟩ := imageContents_familyImage
  obtain ⟨rfl, rfl⟩ := Prod.mk.inj (Except.ok.inj (hcontents.symm.trans hcontents'))
  refine ⟨decodeImage_familyImage, hiff.mpr ⟨hroot ▸ treeRecords_family, ?_⟩⟩
  rw [hsequence]
  decide

/-- An image without records is accepted.  The hive has no root, and creating a key in it
panics. -/
theorem decodeImage_without_root :
    ∃ h, decodeImage (sealImage .system 0 0 1 0 []) = .ok h ∧ ¬ WellFormed h ∧
      (HiveOp.createKey ['A']).run h = none := by
  refine ⟨Hive.empty .system 0 0 0, ?_, fun hw => ?_, rfl⟩
  · rw [decodeImage_sealImage _ _ (by decide) (by decide) (by decide) (by decide), decodePayload,
      decodeRecords]
    rfl
  · obtain ⟨k, hk⟩ := hw.root
    cases hk

end UserspaceNtos.HiveCore
