import Mathlib.Data.List.AList
import Mathlib.Data.List.MinMax
import UserspaceNtos.HiveCore.Hive
import UserspaceNtos.Lib.LittleEndian
import UserspaceNtos.Lib.Result
import UserspaceNtos.Lib.Runs

/-!
# The mounted hives

`MutableHiveSet` owns the hives and the table of the roots at which they are mounted.  Mounts are
found by root and hives by id, so that a call can change one without the other: a root that is
mounted again leaves its old hive behind, and a hive that is mounted twice is gone for both roots
once one of them is unmounted (`mounts_out_of_step`).

A call keeps the two in step if and only if it does neither (`inStep_iff_harmless`).

A path is compared with the roots component by component, but cut behind as many bytes as the
longest of the roots has; `resolve_answers_iff` says for which spellings that is right.
-/

namespace UserspaceNtos.HiveCore

open List Option

/-! ## The selected control set -/

/-- `CurrentControlSetError` -/
inductive CurrentControlSetError
  | wrongHiveKind | selectKeyMissing | currentValueMissing | currentValueInvalid | targetKeyMissing
  | retainedPublication
  deriving DecidableEq, Repr

/-- The name of a control set: its number with at least three digits. -/
def controlSetName (number : ℕ) : Str :=
  "ControlSet".toList ++ (Nat.toDigits 10 number).leftpad 3 '0'

/-- `CurrentControlSet`; it is built only by `Hive::current_control_set`. -/
structure CurrentControlSet where
  number : ℕ
  name : Str
  name_eq : name = controlSetName number
  deriving DecidableEq, Repr

/-- `current_control_set` -/
def Hive.currentControlSet (h : Hive) : Except CurrentControlSetError CurrentControlSet :=
  if h.kind ≠ .system then .error .wrongHiveKind
  else
    match h.openKey "Select".toList with
    | none => .error .selectKeyMissing
    | some select =>
      match h.queryValue select "Current".toList with
      | none => .error .currentValueMissing
      | some (valueType, data) =>
        let number := LittleEndian.leNat data
        if valueType ≠ .dword ∨ data.length ≠ 4 ∨ number = 0 then .error .currentValueInvalid
        else if (h.openKey (controlSetName number)).isNone then .error .targetKeyMissing
        else .ok ⟨number, controlSetName number, rfl⟩

theorem controlSetName_eq (number : ℕ) : controlSetName number = "ControlSet".toList ++
    (replicate (3 - (Nat.toDigits 10 number).length) '0' ++ Nat.toDigits 10 number) := rfl

/-- The name of a control set is one component. -/
theorem not_mem_controlSetName (number : ℕ) : '\\' ∉ controlSetName number := by
  rw [controlSetName_eq, mem_append, mem_append]
  rintro (h | h | h)
  · exact absurd h (by decide)
  · exact absurd (eq_of_mem_replicate h) (by decide)
  · exact absurd (Nat.isDigit_of_mem_toDigits (by decide) (by decide) h) (by decide)

/-- The alias ends with a letter and the name of a control set with a digit. -/
theorem alias_ne_controlSetName {part : Str} {number : ℕ}
    (halias : eqIgnoreAsciiCase part "CurrentControlSet".toList = true) :
    part.getLast? ≠ (controlSetName number).getLast? := by
  have hpart : part.getLast?.map Char.toLower = some 't' := by
    rw [← getLast?_map, beq_iff_eq.mp halias]
    decide
  obtain ⟨digits, c, hsplit⟩ := (eq_nil_or_concat' (Nat.toDigits 10 number)).resolve_left
    Nat.toDigits_ne_nil
  have hdigit : c.isDigit = true :=
    Nat.isDigit_of_mem_toDigits (b := 10) (n := number) (by decide) (by decide) (by simp [hsplit])
  rw [controlSetName_eq, hsplit, ← append_assoc, ← append_assoc, getLast?_concat]
  intro hlast
  rw [hlast, Option.map_some, Option.some.injEq] at hpart
  have hupper : ¬ (c.val ≥ 'A'.val ∧ c.val ≤ 'Z'.val) := by
    simp only [Char.isDigit, Bool.and_eq_true, decide_eq_true_eq, UInt32.le_iff_toNat_le]
      at hdigit ⊢
    simp at hdigit ⊢
    omega
  have hlower : c.toLower = c := dif_neg hupper
  rw [hlower] at hpart
  subst hpart
  exact absurd hdigit (by decide)

/-! ## Mounts -/

/-- `HiveId` -/
abbrev HiveId := ℕ

/-- `SYSTEM_HIVE_PATH` -/
def systemHivePath : Str := "\\Registry\\Machine\\System".toList

/-- `HiveMountEntry` -/
structure HiveMountEntry where
  root : Str
  hive : HiveId
  currentControlSet : Option CurrentControlSet
  deriving DecidableEq, Repr

/-- The entry is mounted at this root. -/
def HiveMountEntry.isAt (root : Str) (entry : HiveMountEntry) : Bool :=
  eqIgnoreAsciiCase entry.root root

namespace HiveMountTable

/-- An entry takes the place of those at its root. -/
def mountEntry (mounts : List HiveMountEntry) (entry : HiveMountEntry) : List HiveMountEntry :=
  mounts.filter (fun e => !e.isAt entry.root) ++ [entry]

/-- `HiveMountTable::mount` -/
def mount (mounts : List HiveMountEntry) (root : Str) (hive : HiveId) : List HiveMountEntry :=
  mountEntry mounts ⟨root, hive, none⟩

/-- `mount_with_current_control_set` -/
def mountWithCurrentControlSet (mounts : List HiveMountEntry) (root : Str) (hive : HiveId)
    (current : CurrentControlSet) : List HiveMountEntry :=
  mountEntry mounts ⟨root, hive, some current⟩

/-- `HiveMountTable::unmount` -/
def unmount (mounts : List HiveMountEntry) (root : Str) : Option (HiveId × List HiveMountEntry) :=
  (mounts.find? (·.isAt root)).map fun e => (e.hive, mounts.eraseP (·.isAt root))

end HiveMountTable

/-- The hives are found by id; their order does not matter. -/
structure MutableHiveSet where
  mounts : List HiveMountEntry
  hives : AList fun _ : HiveId => Hive

namespace MutableHiveSet

variable {t t' : MutableHiveSet} {root : Str} {id : HiveId} {h : Hive}

/-- `MutableHiveSet::new` -/
def new : MutableHiveSet := ⟨[], ∅⟩

/-- `hive` -/
def hive (t : MutableHiveSet) (id : HiveId) : Option Hive := t.hives.lookup id

/-- The hive has a record at its provider. -/
def retained (t : MutableHiveSet) (id : HiveId) : Bool :=
  (t.hive id).any (·.pendingValueJournal.isSome)

/-- `MutableHiveSet::mount` -/
def mount (t : MutableHiveSet) (root : Str) (id : HiveId) (h : Hive) :
    Except CurrentControlSetError MutableHiveSet :=
  if t.retained id || (t.mounts.filter (·.isAt root)).any (fun e => t.retained e.hive) then
    .error .retainedPublication
  else if eqIgnoreAsciiCase root systemHivePath then
    h.currentControlSet.map fun current =>
      ⟨HiveMountTable.mountWithCurrentControlSet t.mounts root id current, t.hives.insert id h⟩
  else .ok ⟨HiveMountTable.mount t.mounts root id, t.hives.insert id h⟩

/-- `MutableHiveSet::unmount` -/
def unmount (t : MutableHiveSet) (root : Str) : Option (Hive × MutableHiveSet) := do
  let entry ← t.mounts.find? (·.isAt root)
  let h ← t.hive entry.hive
  if h.pendingValueJournal.isSome then none
  else
    let (_, mounts) ← HiveMountTable.unmount t.mounts root
    return (h, ⟨mounts, t.hives.erase entry.hive⟩)

/-- A call that changes the set. -/
inductive Call
  | mount (root : Str) (id : HiveId) (h : Hive)
  | unmount (root : Str)

/-- A call that fails changes nothing. -/
def step (t : MutableHiveSet) : Call → MutableHiveSet
  | .mount root id h => (t.mount root id h).toOption.getD t
  | .unmount root => ((t.unmount root).map Prod.snd).getD t

/-- The set after a row of calls. -/
def run (calls : List Call) : MutableHiveSet := calls.foldl step new

/-! ## Mounts and hives in step -/

/-- Every entry leads to a hive that is owned, and every owned hive has an entry. -/
structure InStep (t : MutableHiveSet) : Prop where
  owned : ∀ e ∈ t.mounts, e.hive ∈ t.hives
  reachable : ∀ id ∈ t.hives, ∃ e ∈ t.mounts, e.hive = id

/-- A mount that succeeds does not leave the hive at its root without an entry, and an unmount
that succeeds takes the last entry of its hive. -/
def Harmless (t : MutableHiveSet) : Call → Prop
  | .mount root id h => ∀ t', t.mount root id h = .ok t' → ∀ e ∈ t.mounts, e.isAt root →
      e.hive = id ∨ ∃ e' ∈ t.mounts, ¬ e'.isAt root ∧ e'.hive = e.hive
  | .unmount root => ∀ h t', t.unmount root = some (h, t') →
      ∀ e ∈ t.mounts.find? (·.isAt root), ∀ e' ∈ t.mounts.eraseP (·.isAt root), e'.hive ≠ e.hive

theorem inStep_mount_iff (hin : InStep t) (current : Option CurrentControlSet) :
    InStep ⟨HiveMountTable.mountEntry t.mounts ⟨root, id, current⟩, t.hives.insert id h⟩ ↔
      ∀ e ∈ t.mounts, e.isAt root →
        e.hive = id ∨ ∃ e' ∈ t.mounts, ¬ e'.isAt root ∧ e'.hive = e.hive := by
  have hmem : ∀ e, e ∈ HiveMountTable.mountEntry t.mounts ⟨root, id, current⟩ ↔
      (e ∈ t.mounts ∧ ¬ e.isAt root) ∨ e = ⟨root, id, current⟩ := by
    intro e
    simp [HiveMountTable.mountEntry]
  constructor
  · intro hafter e he _
    obtain ⟨e', he', hsame⟩ := hafter.reachable e.hive
      ((AList.mem_insert _).mpr (.inr (hin.owned e he)))
    rcases (hmem e').mp he' with ⟨hold, hother⟩ | rfl
    · exact .inr ⟨e', hold, hother, hsame⟩
    · exact .inl hsame.symm
  · intro hharmless
    refine ⟨fun e he => ?_, fun id' hid' => ?_⟩
    · rw [AList.mem_insert]
      rcases (hmem e).mp he with ⟨hold, -⟩ | rfl
      · exact .inr (hin.owned e hold)
      · exact .inl rfl
    · by_cases hid : id' = id
      · exact ⟨_, (hmem _).mpr (.inr rfl), hid.symm⟩
      · obtain ⟨e, he, rfl⟩ := hin.reachable id' (((AList.mem_insert _).mp hid').resolve_left hid)
        by_cases hat : e.isAt root
        · obtain ⟨e', he', hother, hsame⟩ := (hharmless e he hat).resolve_left hid
          exact ⟨e', (hmem e').mpr (.inl ⟨he', hother⟩), hsame⟩
        · exact ⟨e, (hmem e).mpr (.inl ⟨he, hat⟩), rfl⟩

theorem inStep_unmount_iff (hin : InStep t) {e : HiveMountEntry}
    (he : t.mounts.find? (·.isAt root) = some e) :
    InStep ⟨t.mounts.eraseP (·.isAt root), t.hives.erase e.hive⟩ ↔
      ∀ e' ∈ t.mounts.eraseP (·.isAt root), e'.hive ≠ e.hive := by
  constructor
  · intro hafter e' he'
    exact (AList.mem_erase.mp (hafter.owned e' he')).1
  · intro hharmless
    refine ⟨fun e' he' => ?_, fun id hid => ?_⟩
    · exact AList.mem_erase.mpr ⟨hharmless e' he', hin.owned e' (mem_of_mem_eraseP he')⟩
    · obtain ⟨hne, hid⟩ := AList.mem_erase.mp hid
      obtain ⟨e', he', rfl⟩ := hin.reachable id hid
      -- the entry that is erased leads to another hive
      refine ⟨e', ?_, rfl⟩
      obtain ⟨hat, front, back, hmounts, hfront⟩ := find?_eq_some_iff_append.mp he
      rw [hmounts, eraseP_append_right _ fun a ha => by simpa using hfront a ha,
        eraseP_cons_of_pos hat, mem_append]
      rw [hmounts, mem_append, mem_cons] at he'
      exact he'.imp_right fun hback => hback.resolve_left fun heq => hne (heq ▸ rfl)

theorem inStep_step_iff (hin : InStep t) (c : Call) : InStep (t.step c) ↔ Harmless t c := by
  cases c with
  | mount root id h =>
    rw [step, Harmless]
    cases hmount : t.mount root id h with
    | error e => exact iff_of_true hin nofun
    | ok t' =>
      rw [mount] at hmount
      split_ifs at hmount
      on_goal 1 => obtain ⟨current, -, ⟨⟩⟩ := Result.bind_eq_ok hmount
      on_goal 2 => cases hmount
      all_goals
        exact (inStep_mount_iff hin _).trans ⟨fun hall _ _ => hall, fun hall => hall _ rfl⟩
  | unmount root =>
    rw [step, Harmless]
    cases hunmount : t.unmount root with
    | none => exact iff_of_true hin nofun
    | some r =>
      obtain ⟨h, t'⟩ := r
      obtain ⟨e, he, hok⟩ := bind_eq_some_iff.mp hunmount
      obtain ⟨h, -, hok⟩ := bind_eq_some_iff.mp hok
      split_ifs at hok
      obtain ⟨⟨id, mounts⟩, hmounts, hok⟩ := bind_eq_some_iff.mp hok
      rw [HiveMountTable.unmount, he] at hmounts
      cases hmounts
      cases hok
      rw [he]
      refine (inStep_unmount_iff hin he).trans ⟨fun hall _ _ _ e' heq => ?_, fun hall => ?_⟩
      · cases heq
        exact hall
      · exact hall _ _ rfl e rfl

/-- Mounts and hives are in step at every moment of a run if and only if every call in it is
harmless. -/
theorem inStep_iff_harmless (calls : List Call) :
    (∀ before after, calls = before ++ after → InStep (run before)) ↔
      ∀ before c after, calls = before ++ c :: after → Harmless (run before) c :=
  Runs.holds_iff_harmless (P := InStep) (s := new) ⟨nofun, nofun⟩
    (fun _ c hin => inStep_step_iff hin c) calls

/-- One hive at two roots, of which one is unmounted. -/
def sharedId : List Call :=
  [.mount ['A'] 1 (.new .software), .mount ['B'] 1 (.new .software), .unmount ['A']]

/-- Two hives at one root. -/
def sharedRoot : List Call := [.mount ['A'] 1 (.new .software), .mount ['A'] 2 (.new .software)]

/-- A hive that is mounted twice is lost to the other root, and one whose root is mounted again is
out of reach. -/
theorem mounts_out_of_step :
    (∃ e ∈ (run sharedId).mounts, (run sharedId).hive e.hive = none) ∧
      ((run sharedRoot).hive 1).isSome ∧ ∀ e ∈ (run sharedRoot).mounts, e.hive ≠ 1 := by
  decide +kernel

end MutableHiveSet

/-! ## Finding the hive of a path -/

/-- The length of a string in bytes. -/
def byteLen (s : Str) : ℕ := (s.map Char.utf8Size).sum

/-- `&path[n..]`; `none` is the panic of an index beyond the end or inside a character. -/
def sliceFrom (path : Str) (n : ℕ) : Option Str :=
  if n = 0 then some path
  else
    match path with
    | [] => none
    | c :: path => if c.utf8Size ≤ n then sliceFrom path (n - c.utf8Size) else none

theorem sliceFrom_eq_some_iff {path relative : Str} {n : ℕ} :
    sliceFrom path n = some relative ↔ ∃ front, path = front ++ relative ∧ byteLen front = n := by
  induction path generalizing n with
  | nil => cases n <;> simp [sliceFrom, byteLen]
  | cons c path ih =>
    have hpos := c.utf8Size_pos
    rw [sliceFrom]
    simp only [cons_eq_append_iff]
    grind [byteLen]

/-- The loop of `path_starts_with`. -/
def startsWith : List Str → List Str → Bool
  | _, [] => true
  | [], _ :: _ => false
  | part :: path, first :: root => eqIgnoreAsciiCase first part && startsWith path root

/-- `path_starts_with` -/
def pathStartsWith (path root : Str) : Bool := startsWith (components path) (components root)

/-- The components with the selected control set in the place of its alias. -/
def aliased (current : Option CurrentControlSet) : List Str → Option (List Str)
  | [] => some []
  | part :: rest =>
    (if eqIgnoreAsciiCase part "CurrentControlSet".toList then current.map (·.name)
      else some part).map (· :: rest)

/-- `apply_mount_current_control_set_alias` -/
def applyMountCurrentControlSetAlias (relative : Str) (current : Option CurrentControlSet) :
    Option Str :=
  (aliased current (components relative)).map fun parts => parts.flatMap ('\\' :: ·)

namespace HiveMountTable

/-- The loop of `resolve` over the entries. -/
def best (mounts : List HiveMountEntry) (path : Str) : Option HiveMountEntry :=
  mounts.foldl (fun best entry =>
    if pathStartsWith path entry.root &&
        best.all (fun current => decide (byteLen entry.root > byteLen current.root)) then some entry
    else best) none

/-- `none` is a panic. -/
def resolve (mounts : List HiveMountEntry) (path : Str) : Option (Option (HiveId × Str)) :=
  match best mounts path with
  | none => some none
  | some entry =>
    (sliceFrom path (byteLen entry.root)).map fun relative =>
      (applyMountCurrentControlSetAlias relative entry.currentControlSet).map (entry.hive, ·)

/-- What the components of the path call for: the hive of a root that matches with the most
components, and the components after them. -/
def Answers (mounts : List HiveMountEntry) (path : Str) : Option (HiveId × Str) → Prop
  | none => ∀ entry ∈ mounts, pathStartsWith path entry.root = false
  | some (hive, relative) => ∃ entry ∈ mounts, entry.hive = hive ∧
      pathStartsWith path entry.root = true ∧
      (∀ other ∈ mounts, pathStartsWith path other.root = true →
        (components other.root).length ≤ (components entry.root).length) ∧
      aliased entry.currentControlSet ((components path).drop (components entry.root).length) =
        some (components relative)

/-- The entries whose roots the path starts with. -/
def matching (mounts : List HiveMountEntry) (path : Str) : List HiveMountEntry :=
  mounts.filter fun entry => pathStartsWith path entry.root

/-- As many bytes as the longest root has are a front part of the path that divides no component
and has as many components as a root of the same hive with the most components.  An alias behind
it stands for one control set with both roots. -/
def CutsRight (mounts : List HiveMountEntry) (path : Str) (longest : HiveMountEntry) : Prop :=
  ∃ front back, path = front ++ back ∧ byteLen front = byteLen longest.root ∧
    components path = components front ++ components back ∧
    ∃ entry ∈ matching mounts path, entry.hive = longest.hive ∧
      (∀ other ∈ matching mounts path,
        (components other.root).length ≤ (components entry.root).length) ∧
      (components front).length = (components entry.root).length ∧
      ∀ part ∈ (components back).head?, eqIgnoreAsciiCase part "CurrentControlSet".toList = true →
        ∃ name, longest.currentControlSet.map (·.name) = some name ∧
          entry.currentControlSet.map (·.name) = some name

/-- The loop chooses the first of the longest roots. -/
theorem best_eq_argmax (mounts : List HiveMountEntry) (path : Str) :
    best mounts path = (matching mounts path).argmax fun entry => byteLen entry.root := by
  induction mounts using List.reverseRecOn with
  | nil => rfl
  | append_singleton mounts entry ih =>
    have hsplit : matching (mounts ++ [entry]) path =
        matching mounts path ++ matching [entry] path := filter_append ..
    rw [best, foldl_append, foldl_cons, foldl_nil, ← best, ih, hsplit]
    cases hmatch : pathStartsWith path entry.root with
    | false => simp [hmatch, matching]
    | true =>
      rw [show matching [entry] path = [entry] from filter_cons_of_pos hmatch, argmax_concat]
      cases (matching mounts path).argmax fun entry => byteLen entry.root <;> simp

section Cut

variable {current current' : Option CurrentControlSet} {path front back : Str} {n : ℕ}
  {parts : List Str}

theorem length_aliased {rest : List Str} (h : aliased current rest = some parts) :
    parts.length = rest.length := by
  cases rest with
  | nil =>
    cases h
    rfl
  | cons part rest =>
    obtain ⟨name, -, rfl⟩ := map_eq_some_iff.mp h
    rfl

theorem length_le_of_startsWith {path root : List Str} (h : startsWith path root = true) :
    root.length ≤ path.length := by
  fun_induction startsWith path root with
  | case1 => exact Nat.zero_le _
  | case2 => cases h
  | case3 part path first root ih =>
    exact Nat.succ_le_succ (ih (Bool.and_eq_true_iff.mp h).2)

/-- A component and a proper end of it never stand for one name. -/
theorem aliased_cons_ne {first second : Str} {after : List Str} (hfirst : first ≠ [])
    (hsecond : second ≠ []) (hwhole : aliased current ((first ++ second) :: after) = some parts) :
    aliased current' (second :: after) ≠ some parts := by
  intro hend
  obtain ⟨name, hname, rfl⟩ := map_eq_some_iff.mp hwhole
  obtain ⟨name', hname', hparts⟩ := map_eq_some_iff.mp hend
  obtain rfl : name' = name := (cons.inj hparts).1
  have hlast : (first ++ second).getLast? = second.getLast? := by
    rw [getLast?_append_of_ne_nil _ hsecond]
  have hselected : ∀ {current : Option CurrentControlSet}, current.map (·.name) = some name' →
      ∃ number, name' = controlSetName number := by
    intro current hcurrent
    obtain ⟨c, -, rfl⟩ := map_eq_some_iff.mp hcurrent
    exact ⟨c.number, c.name_eq⟩
  split_ifs at hname hname' with hone htwo htwo
  · have hlength := congrArg List.length ((beq_iff_eq.mp hone).trans (beq_iff_eq.mp htwo).symm)
    simp [hfirst] at hlength
  · obtain ⟨number, hnumber⟩ := hselected hname
    cases hname'
    exact alias_ne_controlSetName hone (hlast.trans (congrArg getLast? hnumber))
  · obtain ⟨number, hnumber⟩ := hselected hname'
    cases hname
    exact alias_ne_controlSetName htwo (hlast.symm.trans (congrArg getLast? hnumber))
  · cases hname'
    exact hfirst (append_left_eq_self.mp (Option.some.inj hname))

/-- The components behind the cut are those behind the first `n` exactly if the cut is there. -/
theorem aliased_cut_iff (hn : n ≤ (components (front ++ back)).length) :
    (∃ parts, aliased current (components back) = some parts ∧
      aliased current' ((components (front ++ back)).drop n) = some parts) ↔
    components (front ++ back) = components front ++ components back ∧
      (components front).length = n ∧
      ∀ part ∈ (components back).head?, eqIgnoreAsciiCase part "CurrentControlSet".toList = true →
        ∃ name, current.map (·.name) = some name ∧ current'.map (·.name) = some name := by
  constructor
  · rintro ⟨parts, hback, hrest⟩
    have hlength := (length_aliased hback).symm.trans (length_aliased hrest)
    rcases components_append front back with hwhole | ⟨before, first, second, after, hfirst,
      hfront, hsecond, hwhole⟩
    · rw [hwhole, length_drop, length_append] at hlength
      rw [hwhole, length_append] at hn
      have hcount : (components front).length = n := by omega
      refine ⟨hwhole, hcount, ?_⟩
      rw [hwhole, drop_left' hcount] at hrest
      cases hparts : components back with
      | nil => simp
      | cons part rest =>
        rintro _ ⟨⟩ halias
        rw [hparts, aliased, if_pos halias] at hback hrest
        obtain ⟨name, hname, rfl⟩ := map_eq_some_iff.mp hback
        obtain ⟨name', hname', hsame⟩ := map_eq_some_iff.mp hrest
        rw [(cons.inj hsame).1] at hname'
        exact ⟨name, hname, hname'⟩
    · -- a component that is cut in two would have to stand for the same name as its end
      rw [hwhole, hsecond, length_drop, length_append, length_cons, length_cons] at hlength
      rw [hwhole, length_append, length_cons] at hn
      rw [hwhole, drop_left' (by omega)] at hrest
      rw [hsecond] at hback
      have hne : second ≠ [] := (mem_components (hsecond ▸ mem_cons_self)).1
      exact absurd hback (aliased_cons_ne hfirst hne hrest)
  · rintro ⟨hwhole, hcount, halias⟩
    rw [hwhole, drop_left' hcount]
    cases hparts : components back with
    | nil => exact ⟨[], rfl, rfl⟩
    | cons part rest =>
      rw [hparts, head?_cons] at halias
      simp only [aliased]
      split_ifs with hyes
      · obtain ⟨name, hname, hname'⟩ := halias part rfl hyes
        exact ⟨name :: rest, by rw [hname]; rfl, by rw [hname']; rfl⟩
      · exact ⟨part :: rest, rfl, rfl⟩

/-- The text of the answer shows its components. -/
theorem components_of_aliased {rest : Str} (h : aliased current (components rest) = some parts) :
    components (parts.flatMap ('\\' :: ·)) = parts := by
  refine components_joined fun part hpart => ?_
  cases hrest : components rest with
  | nil =>
    rw [hrest] at h
    cases h
    cases hpart
  | cons first after =>
    have hvalid : ∀ part ∈ first :: after, part ≠ [] ∧ '\\' ∉ part :=
      fun part hmem => mem_components (hrest ▸ hmem)
    rw [hrest] at h
    obtain ⟨name, hname, rfl⟩ := map_eq_some_iff.mp h
    rcases mem_cons.mp hpart with rfl | hpart
    · split_ifs at hname
      · obtain ⟨c, -, rfl⟩ := map_eq_some_iff.mp hname
        rw [c.name_eq]
        exact ⟨append_ne_nil_of_left_ne_nil (by decide) _, not_mem_controlSetName _⟩
      · cases hname
        exact hvalid _ mem_cons_self
    · exact hvalid part (mem_cons_of_mem _ hpart)

end Cut

/-- A path is resolved as its components call for if and only if the bytes of the longest root cut
it behind the components of a root with the most components. -/
theorem resolve_answers_iff (mounts : List HiveMountEntry) (path : Str) :
    (∃ answer, resolve mounts path = some answer ∧ Answers mounts path answer) ↔
      ∀ longest ∈ (matching mounts path).argmax fun entry => byteLen entry.root,
        CutsRight mounts path longest := by
  rw [resolve, best_eq_argmax]
  cases hlongest : (matching mounts path).argmax fun entry => byteLen entry.root with
  | none =>
    refine iff_of_true ⟨none, rfl, fun entry hentry => ?_⟩ (by simp)
    simpa using filter_eq_nil_iff.mp (argmax_eq_none.mp hlongest) entry hentry
  | some longest =>
    have hmatch := mem_filter.mp (argmax_mem hlongest)
    simp only [map_eq_some_iff, sliceFrom_eq_some_iff, Option.mem_some_iff, forall_eq']
    constructor
    · rintro ⟨_, ⟨back, ⟨front, rfl, hlen⟩, rfl⟩, hanswer⟩
      rw [applyMountCurrentControlSetAlias] at hanswer
      cases hback : aliased longest.currentControlSet (components back) with
      | none =>
        rw [hback] at hanswer
        exact absurd hmatch.2 (Bool.eq_false_iff.mp (hanswer longest hmatch.1))
      | some parts =>
        rw [hback] at hanswer
        obtain ⟨entry, hmem, hhive, hstarts, hmost, hrest⟩ := hanswer
        rw [components_of_aliased hback] at hrest
        obtain ⟨hwhole, hcount, halias⟩ :=
          (aliased_cut_iff (length_le_of_startsWith hstarts)).mp ⟨parts, hback, hrest⟩
        exact ⟨front, back, rfl, hlen, hwhole, entry, mem_filter.mpr ⟨hmem, hstarts⟩, hhive,
          fun other hother => hmost other (mem_filter.mp hother).1 (mem_filter.mp hother).2,
          hcount, halias⟩
    · rintro ⟨front, back, rfl, hlen, hwhole, entry, hentry, hhive, hmost, hcount, halias⟩
      obtain ⟨hmem, hstarts⟩ := mem_filter.mp hentry
      obtain ⟨parts, hback, hrest⟩ :=
        (aliased_cut_iff (length_le_of_startsWith hstarts)).mpr ⟨hwhole, hcount, halias⟩
      refine ⟨_, ⟨back, ⟨front, rfl, hlen⟩, rfl⟩, ?_⟩
      rw [applyMountCurrentControlSetAlias, hback]
      refine ⟨entry, hmem, hhive, hstarts,
        fun other hother hyes => hmost other (mem_filter.mpr ⟨hother, hyes⟩), ?_⟩
      rw [components_of_aliased hback]
      exact hrest

/-- A hive mounted at `\A` owns the path `A`, which panics; `\\A\B` leads to its key `A\B`. -/
theorem resolve_cuts_bytes :
    let mounts : List HiveMountEntry := [⟨['\\', 'A'], 1, none⟩]
    (pathStartsWith ['A'] ['\\', 'A'] = true ∧ resolve mounts ['A'] = none) ∧
      resolve mounts ['\\', '\\', 'A', '\\', 'B'] = some (some (1, ['\\', 'A', '\\', 'B'])) := by
  decide

end HiveMountTable

end UserspaceNtos.HiveCore
