import Mathlib.Algebra.Order.BigOperators.Group.Finset

/-!
# Counting the members of a family

How many members of a finite family have a property, and how the number changes when one member
is replaced.
-/

namespace Count

open Finset

variable {T α : Type} [Fintype T] {f : T → α} {p : α → Bool} {t : T}

/-- How many indices have the property. -/
def count (p : α → Bool) (f : T → α) : ℕ := ∑ t, (p (f t)).toNat

theorem count_update [DecidableEq T] (p : α → Bool) (f : T → α) (t : T) (a : α) :
    count p (Function.update f t a) + (p (f t)).toNat = count p f + (p a).toNat := by
  have hrest : ∀ g : T → α, (∀ u ≠ t, g u = f u) →
      count p g = (p (g t)).toNat + ∑ u ∈ Finset.univ.erase t, (p (f u)).toNat := by
    intro g hg
    rw [count, ← add_sum_erase _ _ (mem_univ t)]
    congr 1
    exact sum_congr rfl fun u hu => by rw [hg u (ne_of_mem_erase hu)]
  rw [hrest _ fun u hu => Function.update_of_ne hu a f, hrest f fun _ _ => rfl,
    Function.update_self]
  omega

theorem one_le_count (h : p (f t) = true) : 1 ≤ count p f := by
  calc 1 = (p (f t)).toNat := by rw [h]; rfl
    _ ≤ ∑ u, (p (f u)).toNat :=
        single_le_sum (f := fun u => (p (f u)).toNat) (fun _ _ => Nat.zero_le _) (mem_univ t)

theorem exists_of_count_pos (h : 0 < count p f) : ∃ t, p (f t) = true := by
  by_contra hnone
  push Not at hnone
  refine absurd h (Nat.not_lt.mpr (Nat.le_of_eq ?_))
  exact sum_eq_zero fun t _ => by rw [Bool.eq_false_iff.mpr (hnone t)]; rfl

/-- Two different members with the property. -/
theorem two_le_count {u : T} (hne : t ≠ u) (ht : p (f t) = true)
    (hu : p (f u) = true) : 2 ≤ count p f := by
  classical
  have hpair : ∑ v ∈ {t, u}, (p (f v)).toNat ≤ count p f := sum_le_sum_of_subset (subset_univ _)
  rw [sum_pair hne, ht, hu] at hpair
  exact hpair

/-- Of at most one, one member is the only one. -/
theorem eq_of_count_le_one (hle : count p f ≤ 1) {u : T} (ht : p (f t) = true)
    (hu : p (f u) = true) : t = u := by
  by_contra hne
  have := two_le_count hne ht hu
  omega

end Count
