import Mathlib.Data.List.ReduceOption
import Mathlib.Order.Basic

/-!
# Slot tables of a fixed size

A table has a fixed number of slots, each free or occupied (`Slots`).  Entries go into
the first free slot (`fill`), are changed or removed where they are, and can be sorted
to the front by exchanging slots pairwise (`sortBy`).  Each operation comes with what
it does to the list of entries (`occupied`); where only the order of the entries
changes, this is said up to permutation.
-/

/-- A table of `n` slots. -/
structure Slots (α : Type) (n : ℕ) where
  cells : List (Option α)
  length_cells : cells.length = n

namespace Slots

open List Option

variable {α : Type} {n : ℕ} {a : α} {cells : List (Option α)} {s : Slots α n} {p : α → Bool}

/-- The entries, in the order of their slots. -/
def occupied (s : Slots α n) : List α := s.cells.reduceOption

theorem length_occupied_le (s : Slots α n) : s.occupied.length ≤ n :=
  (reduceOption_length_le _).trans_eq s.length_cells

/-- The table without entries. -/
def empty (α : Type) (n : ℕ) : Slots α n := ⟨List.replicate n none, length_replicate⟩

@[simp] theorem occupied_empty : (empty α n).occupied = [] := reduceOption_replicate_none

/-- The table that holds `l` in its first slots, as far as they go. -/
def ofList (n : ℕ) (l : List α) : Slots α n where
  cells := (l.map some ++ List.replicate n none).take n
  length_cells := by
    rw [length_take, length_append, length_replicate]
    omega

theorem occupied_ofList {l : List α} (h : l.length ≤ n) : (ofList n l).occupied = l := by
  have htake : (l.map some ++ List.replicate n none).take n =
      l.map some ++ (List.replicate n (none : Option α)).take (n - l.length) := by
    rw [take_append, length_map, take_of_length_le]
    rw [length_map]
    exact h
  change ((l.map some ++ List.replicate n none).take n).reduceOption = l
  rw [htake, reduceOption_append, take_replicate, reduceOption_replicate_none, append_nil]
  exact filterMap_map.trans filterMap_some

/-! ## Adding an entry -/

/-- The entry goes into the first free cell. -/
def fillCells : List (Option α) → α → Option (List (Option α))
  | [], _ => none
  | none :: cells, a => some (some a :: cells)
  | some b :: cells, a => (fillCells cells a).map (some b :: ·)

theorem length_fillCells {cells' : List (Option α)}
    (h : fillCells cells a = some cells') : cells'.length = cells.length := by
  induction cells generalizing cells' with
  | nil => cases h
  | cons c cells ih =>
    cases c with
    | none =>
      cases h
      rfl
    | some b =>
      obtain ⟨rest, hrest, rfl⟩ := map_eq_some_iff.mp h
      rw [length_cons, length_cons, ih hrest]

theorem perm_reduceOption_fillCells {cells' : List (Option α)}
    (h : fillCells cells a = some cells') : cells'.reduceOption.Perm (a :: cells.reduceOption) := by
  induction cells generalizing cells' with
  | nil => cases h
  | cons c cells ih =>
    cases c with
    | none =>
      cases h
      exact List.Perm.refl _
    | some b =>
      obtain ⟨rest, hrest, rfl⟩ := map_eq_some_iff.mp h
      exact ((ih hrest).cons b).trans (List.Perm.swap a b _)

/-- An entry is put into the first free slot, if there is one. -/
def fill (s : Slots α n) (a : α) : Option (Slots α n) :=
  match h : fillCells s.cells a with
  | none => none
  | some cells => some ⟨cells, (length_fillCells h).trans s.length_cells⟩

theorem perm_occupied_fill {s' : Slots α n} (h : s.fill a = some s') :
    s'.occupied.Perm (a :: s.occupied) := by
  rw [fill] at h
  split at h
  case h_1 => cases h
  case h_2 cells hcells =>
    cases h
    exact perm_reduceOption_fillCells hcells

/-! ## Changing entries -/

/-- Every entry is changed in place. -/
def map (f : α → α) (s : Slots α n) : Slots α n :=
  ⟨s.cells.map (Option.map f), by rw [length_map, s.length_cells]⟩

@[simp] theorem occupied_map (f : α → α) (s : Slots α n) : (s.map f).occupied = s.occupied.map f :=
  reduceOption_map

/-- The slots of the entries with `p` become free. -/
def discard (p : α → Bool) (s : Slots α n) : Slots α n :=
  ⟨s.cells.map (Option.filter fun a => !p a), by rw [length_map, s.length_cells]⟩

@[simp] theorem mem_occupied_discard :
    a ∈ (s.discard p).occupied ↔ a ∈ s.occupied ∧ p a = false := by
  simp only [occupied, discard, reduceOption_mem_iff, List.mem_map, filter_eq_some_iff,
    Bool.not_eq_true']
  constructor
  · rintro ⟨c, hc, rfl, hp⟩
    exact ⟨hc, hp⟩
  · rintro ⟨ha, hp⟩
    exact ⟨some a, ha, rfl, hp⟩

theorem occupied_discard_sublist (p : α → Bool) (s : Slots α n) :
    (s.discard p).occupied.Sublist s.occupied := by
  obtain ⟨cells, hcells⟩ := s
  simp only [occupied, discard]
  clear hcells
  induction cells with
  | nil => exact List.Sublist.slnil
  | cons c cells ih =>
    cases c with
    | none => exact ih
    | some a =>
      rw [map_cons]
      cases hp : p a with
      | true =>
        rw [filter_some, hp]
        exact ih.cons a
      | false =>
        rw [filter_some, hp]
        exact ih.cons_cons a

/-- The content of the first slot whose entry has `p` is replaced. -/
def replaceCells (p : α → Bool) (v : Option α) : List (Option α) → List (Option α)
  | [] => []
  | none :: cells => none :: replaceCells p v cells
  | some b :: cells => if p b then v :: cells else some b :: replaceCells p v cells

theorem length_replaceCells (p : α → Bool) (v : Option α) (cells : List (Option α)) :
    (replaceCells p v cells).length = cells.length := by
  induction cells with
  | nil => rfl
  | cons c cells ih =>
    cases c with
    | none => rw [replaceCells, length_cons, length_cons, ih]
    | some b =>
      rw [replaceCells]
      split
      · rfl
      · rw [length_cons, length_cons, ih]

theorem perm_reduceOption_replaceCells {v : Option α} (h : ∃ a ∈ cells.reduceOption, p a = true) :
    (replaceCells p v cells).reduceOption.Perm (v.toList ++ cells.reduceOption.eraseP p) := by
  induction cells with
  | nil =>
    obtain ⟨a, ha, -⟩ := h
    cases ha
  | cons c cells ih =>
    cases c with
    | none => exact ih h
    | some b =>
      rw [replaceCells, reduceOption_cons_of_some]
      cases hb : p b with
      | true =>
        rw [eraseP_cons_of_pos hb]
        cases v <;> exact List.Perm.refl _
      | false =>
        have hrest : ∃ a ∈ cells.reduceOption, p a = true := by
          obtain ⟨a, ha, hpa⟩ := h
          rcases mem_cons.mp ha with rfl | ha
          · rw [hpa] at hb
            cases hb
          · exact ⟨a, ha, hpa⟩
        have hneg : ¬ p b = true := by
          rw [hb]
          exact Bool.false_ne_true
        rw [if_neg Bool.false_ne_true, eraseP_cons_of_neg hneg]
        exact ((ih hrest).cons b).trans perm_middle.symm

/-- The content of the first slot whose entry has `p` is replaced. -/
def replaceFirst (p : α → Bool) (v : Option α) (s : Slots α n) : Slots α n :=
  ⟨replaceCells p v s.cells, (length_replaceCells _ _ _).trans s.length_cells⟩

theorem perm_occupied_replaceFirst {v : Option α} (h : ∃ a ∈ s.occupied, p a = true) :
    (s.replaceFirst p v).occupied.Perm (v.toList ++ s.occupied.eraseP p) :=
  perm_reduceOption_replaceCells h

/-! ## Exchange sort -/

section ExchangeSort

variable {β : Type}

/-- One pass: `a` is compared with every later entry and exchanged with it where `swap`
says so.  The first component is the entry that ends up in front. -/
def sink (swap : β → β → Bool) : β → List β → β × List β
  | a, [] => (a, [])
  | a, b :: l =>
    if swap a b then ((sink swap b l).1, a :: (sink swap b l).2)
    else ((sink swap a l).1, b :: (sink swap a l).2)

theorem perm_sink (swap : β → β → Bool) (a : β) (l : List β) :
    ((sink swap a l).1 :: (sink swap a l).2).Perm (a :: l) := by
  induction l generalizing a with
  | nil => exact List.Perm.refl _
  | cons b l ih =>
    rw [sink]
    split
    · exact (List.Perm.swap _ _ _).trans ((ih b).cons a)
    · exact (List.Perm.swap _ _ _).trans (((ih a).cons b).trans (List.Perm.swap _ _ _))

theorem length_sink (swap : β → β → Bool) (a : β) (l : List β) :
    (sink swap a l).2.length = l.length :=
  Nat.succ.inj (perm_sink swap a l).length_eq

/-- Passes for the first, the second, … entry. -/
def exchangeSort (swap : β → β → Bool) : List β → List β
  | [] => []
  | a :: l => (sink swap a l).1 :: exchangeSort swap (sink swap a l).2
termination_by l => l.length
decreasing_by
  rw [length_sink, length_cons]
  exact Nat.lt_succ_self _

theorem perm_exchangeSort (swap : β → β → Bool) (l : List β) : (exchangeSort swap l).Perm l := by
  induction l using exchangeSort.induct swap with
  | case1 => rw [exchangeSort]
  | case2 a l ih =>
    rw [exchangeSort]
    exact (ih.cons _).trans (perm_sink swap a l)

variable {le : β → β → Prop} {swap : β → β → Bool} (hrefl : ∀ a, le a a)
  (htrans : ∀ a b c, le a b → le b c → le a c) (hswap : ∀ a b, swap a b = true → le b a)
  (hkeep : ∀ a b, swap a b = false → le a b)
include hrefl htrans hswap hkeep

theorem sink_le (a : β) (l : List β) : ∀ b ∈ a :: l, le (sink swap a l).1 b := by
  induction l generalizing a with
  | nil =>
    intro b hb
    rw [mem_singleton.mp hb]
    exact hrefl a
  | cons c l ih =>
    intro b hb
    rw [sink]
    split
    case isTrue h =>
      have hc := ih c c mem_cons_self
      rcases mem_cons.mp hb with rfl | hb
      · exact htrans _ _ _ hc (hswap _ _ h)
      · exact ih c b hb
    case isFalse h =>
      have ha := ih a a mem_cons_self
      rcases mem_cons.mp hb with rfl | hb
      · exact ha
      · rcases mem_cons.mp hb with rfl | hb
        · exact htrans _ _ _ ha (hkeep _ _ (Bool.eq_false_iff.mpr h))
        · exact ih a b (mem_cons_of_mem _ hb)

theorem pairwise_exchangeSort (l : List β) : (exchangeSort swap l).Pairwise le := by
  induction l using exchangeSort.induct swap with
  | case1 =>
    rw [exchangeSort]
    exact List.Pairwise.nil
  | case2 a l ih =>
    rw [exchangeSort, pairwise_cons]
    refine ⟨fun b hb => sink_le hrefl htrans hswap hkeep a l b ?_, ih⟩
    have hmem := mem_cons_of_mem (sink swap a l).1 ((perm_exchangeSort _ _).mem_iff.mp hb)
    exact (perm_sink swap a l).mem_iff.mp hmem

end ExchangeSort

/-- Occupied slots come before free ones, and in the order of their keys. -/
def slotLe (key : α → ℕ) : Option α → Option α → Prop
  | some a, some b => key a ≤ key b
  | none, some _ => False
  | _, none => True

/-- Two slots in the wrong order. -/
def outOfOrder (key : α → ℕ) : Option α → Option α → Bool
  | none, some _ => true
  | some a, some b => key b < key a
  | _, none => false

/-- The slots sorted by key, free slots last. -/
def sortBy (key : α → ℕ) (s : Slots α n) : Slots α n :=
  ⟨exchangeSort (outOfOrder key) s.cells, (perm_exchangeSort _ _).length_eq.trans s.length_cells⟩

theorem perm_occupied_sortBy (key : α → ℕ) (s : Slots α n) :
    (s.sortBy key).occupied.Perm s.occupied :=
  (perm_exchangeSort _ _).filterMap _

theorem pairwise_cells_sortBy (key : α → ℕ) (s : Slots α n) :
    (s.sortBy key).cells.Pairwise (slotLe key) := by
  apply pairwise_exchangeSort
  · intro a
    cases a with
    | none => trivial
    | some a => exact Nat.le_refl _
  · intro a b c hab hbc
    cases a <;> cases b <;> cases c <;>
      first | trivial | exact absurd hab id | exact absurd hbc id | exact Nat.le_trans hab hbc
  · intro a b h
    cases a <;> cases b <;> first | trivial | cases h | exact Nat.le_of_lt (of_decide_eq_true h)
  · intro a b h
    cases a <;> cases b <;>
      first | trivial | cases h | exact Nat.le_of_not_lt (of_decide_eq_false h)

/-- The entries before the first free slot. -/
def leadingCells : List (Option α) → List α
  | some a :: cells => a :: leadingCells cells
  | _ => []

/-- The entries before the first free slot. -/
def leading (s : Slots α n) : List α := leadingCells s.cells

theorem reduceOption_of_pairwise {key : α → ℕ} (h : cells.Pairwise (slotLe key)) :
    leadingCells cells = cells.reduceOption ∧
      cells.reduceOption.Pairwise (fun a b => key a ≤ key b) := by
  induction cells with
  | nil => exact ⟨rfl, List.Pairwise.nil⟩
  | cons c cells ih =>
    obtain ⟨hc, hcells⟩ := pairwise_cons.mp h
    cases c with
    | none =>
      -- behind a free slot there are only free slots
      have hnil : cells.reduceOption = [] := by
        apply eq_nil_iff_forall_not_mem.mpr
        intro a ha
        exact hc _ (reduceOption_mem_iff.mp ha)
      rw [leadingCells, reduceOption_cons_of_none, hnil]
      · exact ⟨rfl, List.Pairwise.nil⟩
      · intro a cells h
        cases h
    | some a =>
      rw [leadingCells, reduceOption_cons_of_some, (ih hcells).1, pairwise_cons]
      exact ⟨rfl, fun b hb => hc _ (reduceOption_mem_iff.mp hb), (ih hcells).2⟩

theorem leading_sortBy (key : α → ℕ) (s : Slots α n) :
    (s.sortBy key).leading = (s.sortBy key).occupied :=
  (reduceOption_of_pairwise (pairwise_cells_sortBy key s)).1

theorem pairwise_occupied_sortBy (key : α → ℕ) (s : Slots α n) :
    (s.sortBy key).occupied.Pairwise fun a b => key a ≤ key b :=
  (reduceOption_of_pairwise (pairwise_cells_sortBy key s)).2

end Slots
