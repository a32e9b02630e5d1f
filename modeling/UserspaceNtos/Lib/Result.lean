import Mathlib.Data.Nat.Notation

/-!
# Computations that can fail

Inversion of `Except` computations: a sequence of checks that succeeds has passed
each of them.
-/

namespace Result

variable {ε α β : Type}

theorem bind_eq_ok {x : Except ε α} {f : α → Except ε β} {b : β} (h : (x >>= f) = .ok b) :
    ∃ a, x = .ok a ∧ f a = .ok b := by
  cases x with
  | error e => cases h
  | ok a => exact ⟨a, rfl, h⟩

theorem mapM_congr {f g : α → Except ε β} {l : List α} (h : ∀ a ∈ l, f a = g a) :
    l.mapM f = l.mapM g := by
  induction l with
  | nil => rfl
  | cons a l ih =>
    rw [List.mapM_cons, List.mapM_cons, h a List.mem_cons_self,
      ih fun b hb => h b (List.mem_cons_of_mem _ hb)]

/-- A computation behind a check succeeds only if the check passes. -/
theorem guard_eq_ok {c : Prop} [Decidable c] {e : ε} {x : Except ε α} {a : α}
    (h : (if c then Except.error e else x) = Except.ok a) : ¬ c ∧ x = Except.ok a := by
  by_cases hc : c
  · rw [if_pos hc] at h
    cases h
  · exact ⟨hc, by rwa [if_neg hc] at h⟩

/-- The value of an option, or the error `e` if there is none. -/
def orError (o : Option α) (e : ε) : Except ε α :=
  match o with
  | some a => .ok a
  | none => .error e

@[simp] theorem orError_eq_ok_iff {o : Option α} {e : ε} {a : α} :
    orError o e = .ok a ↔ o = some a := by
  cases o <;> simp [orError]

end Result
