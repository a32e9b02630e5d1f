import Mathlib.Data.List.Induction

/-!
# A property along a run

A run is a fold of steps over a list of calls.  Where each step keeps a property exactly if the
call is harmless, the property holds at every moment of a run exactly if every call in it is
harmless when it is made.
-/

namespace Runs

open List

variable {σ α : Type} {step : σ → α → σ} {P : σ → Prop} {H : σ → α → Prop} {s : σ}

theorem holds_iff_harmless (hstart : P s) (hstep : ∀ s a, P s → (P (step s a) ↔ H s a))
    (calls : List α) : (∀ before after, calls = before ++ after → P (before.foldl step s)) ↔
      ∀ before a after, calls = before ++ a :: after → H (before.foldl step s) a := by
  have hconcat : ∀ before a, (before ++ [a]).foldl step s = step (before.foldl step s) a :=
    fun before a => by rw [foldl_append, foldl_cons, foldl_nil]
  constructor
  · intro hholds before a after hsplit
    rw [← hstep _ _ (hholds before (a :: after) hsplit), ← hconcat]
    exact hholds (before ++ [a]) after (by rw [hsplit, append_assoc, singleton_append])
  · intro hharmless before
    induction before using List.reverseRecOn with
    | nil => exact fun _ _ => hstart
    | append_singleton before a ih =>
      intro after hsplit
      rw [append_assoc, singleton_append] at hsplit
      rw [hconcat]
      exact (hstep _ _ (ih _ hsplit)).mpr (hharmless before a after hsplit)

end Runs
