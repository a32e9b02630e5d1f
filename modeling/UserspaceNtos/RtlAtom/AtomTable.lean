import Mathlib.Algebra.Group.Nat.Defs
import Mathlib.Tactic.Common

/-!
# Atom tables

The string atoms of `rtl_atom`: a name takes a free slot of the table and the next value of a
counter.  Deleting an atom gives the slot back, but no value.
-/

namespace UserspaceNtos.RtlAtom

open List

/-- The statuses the calls return. -/
inductive AtomStatus
  | success | wasLocked | invalidHandle | invalidParameter | noMemory | objectNameInvalid

/-- `FIRST_DYNAMIC_ATOM` -/
def firstDynamicAtom : ℕ := 0xC000

/-- `NAME_CAP` -/
def nameCap : ℕ := 255

/-- A slot with the atom 0 is free. -/
structure AtomEntry where
  atom : ℕ := 0
  ref : ℕ := 0
  pinned : Bool := false
  name : List UInt16 := []

/-- `AtomTable` -/
structure AtomTable where
  entries : List AtomEntry
  count : ℕ
  nextAtom : ℕ

/-- A pointer with a zero high part, or the units of a string before its terminator. -/
inductive AtomName
  | integer (raw : Fin (2 ^ 16))
  | string (units : List UInt16)

/-- The characters of a name. -/
def AtomName.units : AtomName → List UInt16
  | integer _ => []
  | string units => units

/-- The upper case of an ASCII letter. -/
def up (c : UInt16) : UInt16 := if 0x61 ≤ c ∧ c ≤ 0x7A then c - 0x20 else c

/-- A string of `#` and decimal digits is an integer atom too. -/
def checkIntegerAtom : AtomName → Option ℕ
  | .integer raw => some (if raw = 0 then firstDynamicAtom else raw)
  | .string [] => none
  | .string (c :: digits) =>
    if c ≠ 0x23 ∨ digits = [] ∨ digits.any (fun d => d < 0x30 || 0x39 < d) then none
    else some (digits.foldl (fun val d => (val * 10 + (d - 0x30).toNat) % 2 ^ 32) 0 % 2 ^ 16)

/-- Another reference; a count that would wrap pins the atom. -/
def AtomEntry.retain (e : AtomEntry) : AtomEntry :=
  if e.pinned then e
  else if (e.ref + 1) % 2 ^ 16 = 0 then { e with pinned := true }
  else { e with ref := (e.ref + 1) % 2 ^ 16 }

namespace AtomTable

variable (t : AtomTable)

/-- `create` -/
def create (capacity : ℕ) : AtomTable := ⟨replicate capacity {}, 0, firstDynamicAtom⟩

/-- The entry in a slot. -/
def entry (i : ℕ) : AtomEntry := t.entries.getD i {}

/-- `find_by_name` -/
def findByName (units : List UInt16) : Option ℕ :=
  t.entries.findIdx? fun e => e.atom != 0 && e.name.map up == units.map up

/-- `find_by_atom` -/
def findByAtom (atom : ℕ) : Option ℕ := t.entries.findIdx? (·.atom == atom)

/-- The end of `add`, for a name that is not in the table. -/
def addNew (units : List UInt16) : Except AtomStatus ℕ × AtomTable :=
  match t.findByAtom 0 with
  | none => (.error .noMemory, t)
  | some i =>
    let atom := t.nextAtom % 2 ^ 16
    if atom < firstDynamicAtom then (.error .noMemory, t)
    else (.ok atom, ⟨t.entries.set i ⟨atom, 1, false, units⟩, t.count + 1, atom + 1⟩)

/-- `add` -/
def add (name : AtomName) : Except AtomStatus ℕ × AtomTable :=
  match checkIntegerAtom name with
  | some a => (if firstDynamicAtom ≤ a then .error .invalidParameter else .ok a, t)
  | none =>
    -- `wstr_len` stops behind the longest name
    let len := min name.units.length (nameCap + 1)
    if len = 0 then (.error .objectNameInvalid, t)
    else if nameCap < len then (.error .invalidParameter, t)
    else match t.findByName name.units with
      | some i =>
        (.ok (t.entry i).atom, { t with entries := t.entries.set i (t.entry i).retain })
      | none => t.addNew name.units

/-- `delete` -/
def delete (atom : ℕ) : AtomStatus × AtomTable :=
  if atom < firstDynamicAtom then (.success, t)
  else match t.findByAtom atom with
    | none => (.invalidHandle, t)
    | some i =>
      let e := t.entry i
      let ref := (e.ref + (2 ^ 16 - 1)) % 2 ^ 16
      if e.pinned then (.wasLocked, t)
      else if ref = 0 then
        (.success, ⟨t.entries.set i { e with atom := 0, name := [] }, t.count - 1, t.nextAtom⟩)
      else (.success, { t with entries := t.entries.set i { e with ref } })

/-- `pin` -/
def pin (atom : ℕ) : AtomStatus × AtomTable :=
  if atom < firstDynamicAtom then (.success, t)
  else match t.findByAtom atom with
    | none => (.invalidHandle, t)
    | some i => (.success, { t with entries := t.entries.set i { t.entry i with pinned := true } })

/-- `empty` -/
def empty (deletePinned : Bool) : AtomStatus × AtomTable :=
  let kept (e : AtomEntry) : Bool := !deletePinned && e.pinned
  (.success, ⟨t.entries.map fun e => if e.atom = 0 ∨ kept e then e else {},
    t.entries.countP fun e => e.atom != 0 && kept e, t.nextAtom⟩)

/-- The number of string atoms in the table. -/
def live : ℕ := t.entries.countP (·.atom != 0)

end AtomTable

open AtomTable

/-- The calls that change a table. -/
inductive AtomOp
  | add (name : AtomName)
  | delete (atom : ℕ)
  | pin (atom : ℕ)
  | empty (deletePinned : Bool)

/-- The table after a call. -/
def AtomOp.run (t : AtomTable) : AtomOp → AtomTable
  | add name => (t.add name).2
  | delete atom => (t.delete atom).2
  | pin atom => (t.pin atom).2
  | empty deletePinned => (t.empty deletePinned).2

/-- The call hands out a new value. -/
def AtomOp.mints (t : AtomTable) : AtomOp → Bool
  | add name => (checkIntegerAtom name).isNone && (t.findByName name.units).isNone &&
      (t.add name).1.isOk
  | _ => false

/-- How many atoms the calls hand out. -/
def minted (t : AtomTable) : List AtomOp → ℕ
  | [] => 0
  | op :: ops => (op.mints t).toNat + minted (op.run t) ops

/-- A string that is valid as a name and not in the table. -/
structure NewName (t : AtomTable) (units : List UInt16) : Prop where
  string : checkIntegerAtom (.string units) = none
  nonempty : units ≠ []
  length_le : units.length ≤ nameCap
  absent : t.findByName units = none

variable {t : AtomTable} {units : List UInt16} {capacity n : ℕ}

theorem add_of_newName (h : NewName t units) : t.add (.string units) = t.addNew units := by
  have hlength := h.length_le
  have hpos := length_pos_iff.mpr h.nonempty
  simp only [add, AtomName.units, h.string, h.absent]
  rw [if_neg (by omega), if_neg (by omega)]

/-- The table has its slots, and `n` values have been handed out. -/
structure HandedOut (capacity n : ℕ) (t : AtomTable) : Prop where
  length : t.entries.length = capacity
  next : t.nextAtom = firstDynamicAtom + n
  le : n ≤ 0x4000

theorem exists_free_iff : (∃ i, t.findByAtom 0 = some i) ↔ t.live < t.entries.length := by
  rw [← Option.isSome_iff_exists, findByAtom, findIdx?_isSome, any_eq_true, live,
    Nat.lt_iff_le_and_ne, ne_eq, countP_eq_length]
  simp [countP_le_length]

/-- A new name needs a slot and a value. -/
theorem HandedOut.addNew (h : HandedOut capacity n t) (units : List UInt16) :
    ((∃ atom, (t.addNew units).1 = .ok atom) ↔ t.live < capacity ∧ n < 0x4000) ∧
      HandedOut capacity (n + (t.addNew units).1.isOk.toNat) (t.addNew units).2 := by
  have hnext := h.next
  have hle := h.le
  rw [← h.length, ← exists_free_iff, AtomTable.addNew, h.length]
  rw [firstDynamicAtom] at *
  cases t.findByAtom 0 with
  | none => simpa [Except.isOk, Except.toBool] using h
  | some i =>
    dsimp only
    split
    · have : ¬ n < 0x4000 := by omega
      simpa [Except.isOk, Except.toBool, this] using h
    · have hlt : n < 0x4000 := by omega
      refine ⟨by simp [hlt], by simpa using h.length, ?_, hlt⟩
      simp only [Except.isOk, Except.toBool, Bool.toNat_true, firstDynamicAtom]
      omega

/-- A call that changes slots only. -/
theorem HandedOut.keep {t' : AtomTable} (h : HandedOut capacity n t)
    (hlength : t'.entries.length = t.entries.length) (hnext : t'.nextAtom = t.nextAtom) :
    HandedOut capacity n t' :=
  ⟨hlength.trans h.length, hnext.trans h.next, h.le⟩

theorem HandedOut.step (h : HandedOut capacity n t) (op : AtomOp) :
    HandedOut capacity (n + (op.mints t).toNat) (op.run t) := by
  cases op with
  | add name =>
    simp only [AtomOp.run, AtomOp.mints, AtomTable.add]
    cases hinteger : checkIntegerAtom name with
    | some a => exact h
    | none =>
      dsimp only
      split
      · simpa [Except.isOk, Except.toBool] using h
      split
      · simpa [Except.isOk, Except.toBool] using h
      cases hfind : t.findByName name.units with
      | some i => exact h.keep (length_set ..) rfl
      | none => simpa using (h.addNew name.units).2
  | delete atom =>
    refine h.keep ?_ ?_ <;> simp only [AtomOp.run, AtomTable.delete] <;> split <;> try rfl
    all_goals
      split
      · rfl
      · split <;> [rfl; split] <;> simp
  | pin atom =>
    refine h.keep ?_ ?_ <;> simp only [AtomOp.run, AtomTable.pin] <;> split <;> try rfl
    all_goals split <;> simp
  | empty deletePinned => exact h.keep (length_map ..) rfl

theorem HandedOut.run (h : HandedOut capacity n t) (ops : List AtomOp) :
    HandedOut capacity (n + minted t ops) (ops.foldl AtomOp.run t) := by
  induction ops generalizing n t with
  | nil => exact h
  | cons op ops ih =>
    rw [minted, ← Nat.add_assoc]
    exact ih (h.step op)

/-- A new name is refused for want of a slot, or when 0x4000 atoms have been handed out. -/
theorem add_succeeds_iff (capacity : ℕ) (ops : List AtomOp) (units : List UInt16)
    (h : NewName (ops.foldl AtomOp.run (create capacity)) units) :
    (∃ atom, ((ops.foldl AtomOp.run (create capacity)).add (.string units)).1 = .ok atom) ↔
      (ops.foldl AtomOp.run (create capacity)).live < capacity ∧
        minted (create capacity) ops < 0x4000 := by
  have hcreate : HandedOut capacity 0 (create capacity) := ⟨length_replicate, rfl, Nat.zero_le _⟩
  have hrun := hcreate.run ops
  rw [Nat.zero_add] at hrun
  rw [add_of_newName h]
  exact (hrun.addNew units).1

/-- Two names are added and the first is deleted again. -/
def reusedSlot : List AtomOp :=
  [.add (.string [0x41]), .add (.string [0x42]), .delete firstDynamicAtom]

theorem add_succeeds_iff_create : minted (create 2) reusedSlot = 2 ∧
    ∃ atom, ((reusedSlot.foldl AtomOp.run (create 2)).add (.string [0x43])).1 = .ok atom := by
  have h : NewName (reusedSlot.foldl AtomOp.run (create 2)) [0x43] :=
    ⟨by decide, by decide, by decide, by decide⟩
  exact ⟨by decide, (add_succeeds_iff 2 reusedSlot [0x43] h).mpr ⟨by decide, by decide⟩⟩

/-- A name is added and deleted again. -/
def cycle (k : ℕ) : List AtomOp := [.add (.string [0x41]), .delete (firstDynamicAtom + k)]

theorem run_cycles (hn : n ≤ 0x4000) : ∃ e : AtomEntry, e.atom = 0 ∧
    ((range n).flatMap cycle).foldl AtomOp.run (create 1) = ⟨[e], 0, firstDynamicAtom + n⟩ := by
  induction n with
  | zero => exact ⟨{}, rfl, rfl⟩
  | succ n ih =>
    obtain ⟨⟨_, ref, pinned, name⟩, rfl, hrun⟩ := ih (by omega)
    have hmod : (firstDynamicAtom + n) % 65536 = firstDynamicAtom + n := by
      rw [firstDynamicAtom]
      omega
    have hle := Nat.not_lt.mpr (Nat.le_add_right firstDynamicAtom n)
    refine ⟨⟨0, 1, false, []⟩, rfl, ?_⟩
    rw [range_succ, flatMap_append, foldl_append, hrun]
    simp [cycle, AtomOp.run, AtomTable.add, checkIntegerAtom, AtomName.units, nameCap, findByName,
      AtomTable.addNew, findByAtom, hmod, hle, AtomTable.delete, AtomTable.entry, Nat.add_assoc]

/-- When every value has been handed out, an empty table takes no name. -/
theorem empty_table_without_values :
    let t := ((range 0x4000).flatMap cycle).foldl AtomOp.run (create 1)
    NewName t [0x41] ∧ t.live < min 1 0x4000 ∧ (t.add (.string [0x41])).1 = .error .noMemory := by
  obtain ⟨⟨_, ref, pinned, name⟩, rfl, hrun⟩ := run_cycles (Nat.le_refl 0x4000)
  rw [hrun]
  have hname : NewName ⟨[⟨0, ref, pinned, name⟩], 0, firstDynamicAtom + 0x4000⟩ [0x41] :=
    ⟨by decide, by decide, by decide, rfl⟩
  refine ⟨hname, Nat.one_pos, ?_⟩
  rw [add_of_newName hname]
  simp [AtomTable.addNew, findByAtom, firstDynamicAtom]

end UserspaceNtos.RtlAtom
