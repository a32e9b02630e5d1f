import Mathlib.Data.List.Induction
import Mathlib.Data.List.Nodup
import Mathlib.Data.List.Perm.Basic
import Mathlib.Data.List.Iterate

/-!
# Run searches of a bitmap

The searches of `rtl_bitmap` and `rtl/bitmap` over an initialised `RTL_BITMAP`.  The loops over
the clear runs all draw from one sequence (`clearRunsFrom`), which is the list of the maximal
clear runs in order.
-/

namespace UserspaceNtos.RtlBitmap

open List

/-- The bits of 32-bit words, the lowest one first. -/
structure Bitmap where
  size : ℕ
  words : ℕ → BitVec 32
  size_lt : size < 2 ^ 32 - 31

/-- `BitmapRun` -/
structure BitmapRun where
  startingIndex : ℕ
  numberOfBits : ℕ

/-- The first bit behind the run. -/
def BitmapRun.stop (r : BitmapRun) : ℕ := r.startingIndex + r.numberOfBits

/-- `BITMAP_NONE` -/
def bitmapNone : ℕ := 0xFFFFFFFF

/-- `run_bits`; the array holds the runs that have been written. -/
def runBits (runs : List BitmapRun) (i : ℕ) : ℕ := (runs[i]?.map BitmapRun.numberOfBits).getD 0

/-- `smallest` and `smallest_bits` after the entries up to an index. -/
def smallestUpTo (runs : List BitmapRun) : ℕ → ℕ × ℕ
  | 0 => (0, runBits runs 0)
  | i + 1 =>
    let best := smallestUpTo runs i
    if runBits runs (i + 1) < best.2 then (i + 1, runBits runs (i + 1)) else best

/-- `smallest_run_index` -/
def smallestRunIndex (runs : List BitmapRun) : ℕ := (smallestUpTo runs (runs.length - 1)).1

/-- The second loop of `find_clear_runs`: a longer run takes the place of the smallest. -/
def replaceSmallest (runs : List BitmapRun) (run : BitmapRun) : List BitmapRun :=
  let smallest := smallestRunIndex runs
  if runBits runs smallest < run.numberOfBits then runs.set smallest run else runs

/-- The loop of `find_longest_run_clear`. -/
def longer (best run : BitmapRun) : BitmapRun :=
  if best.numberOfBits < run.numberOfBits then run else best

namespace Bitmap

variable (b : Bitmap) {i count hint : ℕ} {want : Bool}

/-- `get_bit` -/
def getBit (i : ℕ) : Bool := (b.words (i / 32)).getLsbD (i % 32)

/-- A round of `find_bits`.  A sum that passes 32 bits is no end. -/
def runAt (count : ℕ) (wantSet : Bool) (i : ℕ) : Bool :=
  i + count < 2 ^ 32 && i + count ≤ b.size &&
    (range' i count).all fun bit => b.getBit bit == wantSet

/-- `i += 1; if i >= size { i = 0 }` -/
def next (i : ℕ) : ℕ := if b.size ≤ i + 1 then 0 else i + 1

/-- Where a search with a hint starts. -/
def startAt (hint : ℕ) : ℕ := if b.size ≤ hint then 0 else hint

/-- `find_bits` -/
def findBits (count hint : ℕ) (wantSet : Bool) : ℕ :=
  if b.size < count then bitmapNone
  else if count = 0 then b.startAt hint / 8 * 8
  else ((iterate b.next (b.startAt hint) b.size).find? (b.runAt count wantSet)).getD bitmapNone

/-- `find_clear_bits` -/
def findClearBits (count hint : ℕ) : ℕ := b.findBits count hint false

/-- `find_set_bits` -/
def findSetBits (count hint : ℕ) : ℕ := b.findBits count hint true

/-- `while i < size && get_bit(buf, i) == want { i += 1 }` -/
def skip (want : Bool) (i : ℕ) : ℕ :=
  if i < b.size ∧ b.getBit i = want then skip want (i + 1) else i
termination_by b.size - i

/-- `find_next_forward_run` -/
def findNextForwardRun (start : ℕ) (wantSet : Bool) : BitmapRun :=
  if b.size ≤ start then ⟨start, 0⟩
  else
    let first := b.skip (!wantSet) start
    ⟨first, b.skip wantSet first - first⟩

/-- `find_next_forward_run_clear` -/
def findNextForwardRunClear (start : ℕ) : BitmapRun := b.findNextForwardRun start false

/-! ## Searching for a number of bits -/

/-- A run of `count` bits starts at `i`. -/
def IsRun (count : ℕ) (want : Bool) (i : ℕ) : Prop :=
  i + count ≤ b.size ∧ ∀ bit, i ≤ bit → bit < i + count → b.getBit bit = want

/-- The first start of a run in cyclic order, or `BITMAP_NONE` where there is no run. -/
def FirstRun (count : ℕ) (want : Bool) (start r : ℕ) : Prop :=
  (∃ k < b.size, r = (start + k) % b.size ∧ b.IsRun count want r ∧
    ∀ j < k, ¬ b.IsRun count want ((start + j) % b.size)) ∨
  r = bitmapNone ∧ ∀ i, ¬ b.IsRun count want i

variable {b}

theorem runAt_iff : b.runAt count want i = true ↔ b.IsRun count want i := by
  have := b.size_lt
  simp only [runAt, IsRun, Bool.and_eq_true, decide_eq_true_eq, all_eq_true, mem_range'_1,
    beq_iff_eq, and_imp]
  constructor
  · exact fun h => ⟨h.1.2, h.2⟩
  · exact fun h => ⟨⟨by omega, h.1⟩, h.2⟩

theorem iterate_next (hi : i < b.size) (k : ℕ) : b.next^[k] i = (i + k) % b.size := by
  induction k with
  | zero => exact (Nat.mod_eq_of_lt hi).symm
  | succ k ih =>
    have hlt := Nat.mod_lt (i + k) (Nat.zero_lt_of_lt hi)
    rw [Function.iterate_succ_apply', ih, next, ← Nat.add_assoc, ← Nat.mod_add_mod (i + k)]
    split
    · rw [show (i + k) % b.size + 1 = b.size by omega, Nat.mod_self]
    · exact (Nat.mod_eq_of_lt (by omega)).symm

theorem firstRun_findBits :
    b.FirstRun (count + 1) want (b.startAt hint) (b.findBits (count + 1) hint want) := by
  by_cases hcount : b.size < count + 1
  · exact .inr ⟨if_pos hcount, fun i h => by have := h.1; omega⟩
  have hstart : b.startAt hint < b.size := by grind [startAt]
  rw [findBits, if_neg hcount]
  cases hfind : find? _ _ with
  | some r =>
    obtain ⟨hr, k, hk, rfl, hbefore⟩ := find?_eq_some_iff_getElem.mp hfind
    simp only [getElem_iterate, iterate_next hstart, Bool.not_eq_true',
      ← Bool.not_eq_true, runAt_iff] at *
    exact .inl ⟨k, by simpa using hk, rfl, hr, hbefore⟩
  | none =>
    refine .inr ⟨rfl, fun i h => ?_⟩
    have hi : i = b.next^[(i + b.size - b.startAt hint) % b.size] (b.startAt hint) := by
      have := h.1
      rw [iterate_next hstart, Nat.add_mod_mod, Nat.add_sub_cancel' (by omega), Nat.add_mod_right,
        Nat.mod_eq_of_lt (by omega)]
    have hmem := mem_iterate.mpr ⟨_, Nat.mod_lt _ (Nat.zero_lt_of_lt hstart), hi⟩
    exact find?_eq_none.mp hfind i hmem (runAt_iff.mpr h)

/-! ## The clear runs in order -/

theorem skip_spec (hi : i ≤ b.size) : i ≤ b.skip want i ∧ b.skip want i ≤ b.size ∧
    (∀ j, i ≤ j → j < b.skip want i → b.getBit j = want) ∧
    (b.skip want i < b.size → b.getBit (b.skip want i) ≠ want) := by
  fun_induction skip b want i with
  | case1 i h ih => grind
  | case2 i h => grind

/-- The bits of the run are clear, and the next one is not. -/
structure ClearRun (b : Bitmap) (r : BitmapRun) : Prop where
  nonempty : r.numberOfBits ≠ 0
  inside : r.stop ≤ b.size
  clear : ∀ i, r.startingIndex ≤ i → i < r.stop → b.getBit i = false
  right : r.stop < b.size → b.getBit r.stop = true

theorem next_clear (start : ℕ) :
    let r := b.findNextForwardRunClear start
    (r.numberOfBits = 0 → ∀ i, start ≤ i → i < b.size → b.getBit i = true) ∧
    (r.numberOfBits ≠ 0 → b.ClearRun r ∧ start ≤ r.startingIndex ∧
      ∀ i, start ≤ i → i < r.startingIndex → b.getBit i = true) := by
  simp only [findNextForwardRunClear, findNextForwardRun]
  split
  case isTrue hle => grind
  case isFalse hlt =>
    have hfirst := @skip_spec b start (!false) (by omega)
    have hlast := @skip_spec b _ false hfirst.2.1
    grind [ClearRun, BitmapRun.stop]

/-- The runs that the calls return, each from where the one before ends. -/
def clearRunsFrom (b : Bitmap) (start : ℕ) : List BitmapRun :=
  let run := b.findNextForwardRunClear start
  if run.numberOfBits = 0 then [] else run :: b.clearRunsFrom (min run.stop (2 ^ 32 - 1))
termination_by b.size - start
decreasing_by
  have := b.size_lt
  have := (b.next_clear start).2
  grind [ClearRun, BitmapRun.stop]

/-- `find_clear_runs` -/
def findClearRuns (b : Bitmap) (sizeOfRunArray : ℕ) (locateLongest : Bool) : List BitmapRun :=
  if sizeOfRunArray = 0 then []
  else
    let runs := (b.clearRunsFrom 0).take sizeOfRunArray
    if runs.length < sizeOfRunArray ∨ locateLongest = false then runs
    else ((b.clearRunsFrom 0).drop sizeOfRunArray).foldl replaceSmallest runs

/-- The number of bits, and what is in `starting_index`. -/
def findLongestRunClear (b : Bitmap) (startingIndex : ℕ) : ℕ × ℕ :=
  let best := (b.clearRunsFrom 0).foldl longer ⟨0, 0⟩
  (best.numberOfBits, if best.numberOfBits = 0 then startingIndex else best.startingIndex)

/-- A clear run that no clear bit continues. -/
structure Maximal (b : Bitmap) (r : BitmapRun) : Prop extends b.ClearRun r where
  left : ∀ i, i + 1 = r.startingIndex → b.getBit i = true

/-- A maximal run that starts in another one is that one. -/
theorem Maximal.eq_of_overlap {r o : BitmapRun} (hr : b.Maximal r) (ho : b.Maximal o)
    (hle : o.startingIndex ≤ r.startingIndex) (hlt : r.startingIndex < o.stop) : r = o := by
  -- the bits beside either run are not clear, so they are not in the other one
  have hbefore := hr.left (r.startingIndex - 1)
  have hbefore' := ho.clear (r.startingIndex - 1)
  have hafter := hr.clear o.stop
  have hafter' := ho.clear r.stop
  obtain ⟨⟩ := r
  obtain ⟨⟩ := o
  grind [hr.right, ho.right, hr.inside, ho.inside, BitmapRun.stop]

/-- A search starts at the first bit or at the end of a run. -/
theorem clearRunsFrom_spec {start : ℕ}
    (hstart : start ≠ 0 → start < b.size → b.getBit start = true) :
    (b.clearRunsFrom start).Pairwise (·.stop ≤ ·.startingIndex) ∧
      ∀ r, r ∈ b.clearRunsFrom start ↔ b.Maximal r ∧ start ≤ r.startingIndex := by
  fun_induction clearRunsFrom b start with
  | case1 start run hzero =>
    have hset := (b.next_clear start).1 hzero
    refine ⟨.nil, fun r => iff_of_false not_mem_nil ?_⟩
    rintro ⟨h, hle⟩
    grind [h.clear r.startingIndex, h.nonempty, h.inside, BitmapRun.stop]
  | case2 start run hpos ih =>
    obtain ⟨hclear, hle, hset⟩ := (b.next_clear start).2 hpos
    rw [show b.findNextForwardRunClear start = run from rfl] at *
    clear_value run
    have hrun : b.Maximal run := ⟨hclear, by grind [ClearRun, BitmapRun.stop]⟩
    have hmin : min run.stop (2 ^ 32 - 1) = run.stop := by
      have := hclear.inside.trans_lt b.size_lt
      omega
    rw [hmin] at ih ⊢
    obtain ⟨hpairwise, hmem⟩ := ih fun _ => hclear.right
    refine ⟨.cons (fun r hr => ((hmem r).mp hr).2) hpairwise, fun r => ?_⟩
    have hover := fun h : b.Maximal r => h.eq_of_overlap hrun
    grind [Maximal, ClearRun, BitmapRun.stop]

end Bitmap

/-! ## Choosing among the runs -/

section Choose

variable {runs seen kept rest : List BitmapRun} {run : BitmapRun} {n k : ℕ}

theorem smallestUpTo_spec : (smallestUpTo runs k).1 ≤ k ∧
    (smallestUpTo runs k).2 = runBits runs (smallestUpTo runs k).1 ∧
    ∀ j ≤ k, (smallestUpTo runs k).2 ≤ runBits runs j := by
  induction k with
  | zero => simp [smallestUpTo]
  | succ k ih => grind [smallestUpTo]

theorem runBits_of_lt (h : k < runs.length) : runBits runs k = runs[k].numberOfBits := by
  simp [runBits, h]

/-- The runs that are kept of those that have been seen. -/
structure Longest (n : ℕ) (seen kept : List BitmapRun) : Prop where
  nodup : kept.Nodup
  subset : kept ⊆ seen
  length_eq : kept.length = min n seen.length
  omitted : ∀ o ∈ seen, o ∉ kept → ∀ r ∈ kept, o.numberOfBits ≤ r.numberOfBits

theorem longest_zero : Longest 0 seen [] := by
  constructor <;> simp

theorem Longest.replaceSmallest (h : Longest n seen kept) (hn : n ≠ 0) (hlen : n ≤ seen.length)
    (hnew : run ∉ seen) : Longest n (seen ++ [run]) (replaceSmallest kept run) := by
  have hlength := h.length_eq
  obtain ⟨hle, hbits, hmin⟩ := @smallestUpTo_spec kept (kept.length - 1)
  rw [← smallestRunIndex] at hle hbits
  have hlt : smallestRunIndex kept < kept.length := by omega
  -- the smallest run and the other ones
  have hkept := getElem_cons_eraseIdx_perm hlt
  have hset := set_perm_cons_eraseIdx hlt run
  have hsmallest : ∀ r ∈ kept, kept[smallestRunIndex kept].numberOfBits ≤ r.numberOfBits := by
    intro r hr
    obtain ⟨j, hj, rfl⟩ := getElem_of_mem hr
    have := hmin j (by omega)
    rwa [hbits, runBits_of_lt hj, runBits_of_lt hlt] at this
  have homitted := h.omitted
  have hfresh : run ∉ kept := fun hmem => hnew (h.subset hmem)
  rw [RtlBitmap.replaceSmallest, runBits_of_lt hlt]
  split
  case isTrue hlonger =>
    refine ⟨h.nodup.set hfresh, ?_, ?_, ?_⟩
    · grind [h.subset, hset.mem_iff, hkept.mem_iff]
    · simp
      omega
    · simp only [← hkept.mem_iff, hset.mem_iff] at homitted hsmallest ⊢
      grind
  case isFalse hshort =>
    refine ⟨h.nodup, fun r hr => mem_append_left _ (h.subset hr), ?_, ?_⟩
    · simp
      omega
    · grind

theorem Longest.foldl (h : Longest n seen kept) (hn : n ≠ 0) (hlen : n ≤ seen.length)
    (hnodup : (seen ++ rest).Nodup) :
    Longest n (seen ++ rest) (rest.foldl RtlBitmap.replaceSmallest kept) := by
  induction rest generalizing seen kept with
  | nil => simpa using h
  | cons run rest ih =>
    have hnew : run ∉ seen := fun hmem =>
      (nodup_append.mp hnodup).2.2 run hmem run mem_cons_self rfl
    rw [← singleton_append, ← append_assoc] at hnodup ⊢
    exact ih (h.replaceSmallest hn hlen hnew) (by simp; omega) hnodup

/-- The first of the longest runs. -/
theorem foldl_longer (h : runs.Pairwise (·.startingIndex < ·.startingIndex)) :
    let best := runs.foldl longer ⟨0, 0⟩
    (∀ o ∈ runs, o.numberOfBits ≤ best.numberOfBits) ∧
    (best.numberOfBits ≠ 0 → best ∈ runs ∧
      ∀ o ∈ runs, o.numberOfBits = best.numberOfBits → best.startingIndex ≤ o.startingIndex) := by
  induction runs using reverseRecOn with
  | nil => simp
  | append_singleton runs run ih =>
    rw [pairwise_append] at h
    specialize ih h.1
    simp only [foldl_append] at ih ⊢
    grind [longer]

end Choose

theorem run_searches_exact (b : Bitmap) : (∀ count hint,
      b.FirstRun (count + 1) false (b.startAt hint) (b.findClearBits (count + 1) hint) ∧
      b.FirstRun (count + 1) true (b.startAt hint) (b.findSetBits (count + 1) hint)) ∧
    ∃ all : List BitmapRun, all.Pairwise (·.stop ≤ ·.startingIndex) ∧ (∀ r, r ∈ all ↔ b.Maximal r) ∧
      (∀ n, b.findClearRuns n false = all.take n ∧ Longest n all (b.findClearRuns n true)) ∧
      ∀ startingIndex, let found := b.findLongestRunClear startingIndex
        (found.1 = 0 → all = [] ∧ found.2 = startingIndex) ∧
        (found.1 ≠ 0 → ⟨found.2, found.1⟩ ∈ all ∧ ∀ o ∈ all, o.numberOfBits ≤ found.1 ∧
          (o.numberOfBits = found.1 → found.2 ≤ o.startingIndex)) := by
  refine ⟨fun count hint => ⟨Bitmap.firstRun_findBits, Bitmap.firstRun_findBits⟩, ?_⟩
  obtain ⟨hpairwise, hmem⟩ := @Bitmap.clearRunsFrom_spec b 0 (absurd rfl)
  have hmaximal : ∀ r, r ∈ b.clearRunsFrom 0 ↔ b.Maximal r := by simpa using hmem
  have hsorted : (b.clearRunsFrom 0).Pairwise (·.startingIndex < ·.startingIndex) := by
    refine hpairwise.imp_of_mem fun hr _ hle => ?_
    have := ((hmaximal _).mp hr).nonempty
    grind [BitmapRun.stop]
  have hnodup : (b.clearRunsFrom 0).Nodup := hsorted.imp (by grind)
  refine ⟨_, hpairwise, hmaximal, fun n => ⟨?_, ?_⟩, fun startingIndex => ?_⟩
  · unfold Bitmap.findClearRuns
    split
    case isTrue hn => simp [hn]
    case isFalse => simp
  · by_cases hn : n = 0
    · simp [Bitmap.findClearRuns, hn, longest_zero]
    have hall := take_append_drop n (b.clearRunsFrom 0)
    have hfirst : Longest n ((b.clearRunsFrom 0).take n) ((b.clearRunsFrom 0).take n) :=
      ⟨hnodup.sublist (take_sublist ..), Subset.refl _, by simp, fun _ ho hnot => absurd ho hnot⟩
    simp only [Bitmap.findClearRuns, if_neg hn, reduceCtorEq, or_false, length_take]
    split
    case isTrue hfew => rwa [take_of_length_le (by omega)] at hfirst ⊢
    case isFalse hmany =>
      have hlast := hfirst.foldl hn (by simp; omega) (hall.symm ▸ hnodup)
      rwa [hall] at hlast
  · obtain ⟨hbits, hfirst⟩ := foldl_longer hsorted
    rw [Bitmap.findLongestRunClear]
    refine ⟨fun hzero => ⟨?_, if_pos hzero⟩, fun hpos => ?_⟩
    · refine eq_nil_iff_forall_not_mem.mpr fun r hr => ((hmaximal r).mp hr).nonempty ?_
      exact Nat.le_zero.mp (hzero ▸ hbits r hr)
    · rw [if_neg hpos]
      exact ⟨(hfirst hpos).1, fun o ho => ⟨hbits o ho, (hfirst hpos).2 o ho⟩⟩

end UserspaceNtos.RtlBitmap
