import Mathlib.Logic.Unique

/-!
# Operations on a mutable state that may fail

An operation takes the state it finds to a result and the state it leaves behind.  A
failure does not undo anything: the state a failed operation leaves is the one it had
reached.  That an operation is all or nothing (`Atomic`) is therefore something to be
proved, and the rules below do so along the way such operations are written: checks
that only read the state, then one step that is itself atomic, then steps that cannot
fail.

Successful and failed runs of a sequence are taken apart by `bind_ok_iff` and
`bind_error_iff`, and the single steps by the lemmas next to them.
-/

/-- An operation on states `σ` with results `α` and errors `ε`. -/
def Procedure (σ ε α : Type) : Type := σ → Except ε α × σ

namespace Procedure

variable {σ ε α β : Type}

instance : Monad (Procedure σ ε) where
  pure a := fun s => (.ok a, s)
  bind x f := fun s =>
    match x s with
    | (.ok a, s') => f a s'
    | (.error e, s') => (.error e, s')

/-- The operation fails. -/
def fail (e : ε) : Procedure σ ε α := fun s => (.error e, s)

/-- The current state is read. -/
def read : Procedure σ ε σ := fun s => (.ok s, s)

/-- The state is changed. -/
def update (f : σ → σ) : Procedure σ ε Unit := fun s => (.ok (), f s)

/-- A computation that does not touch the state. -/
def lift (r : Except ε α) : Procedure σ ε α := fun s => (r, s)

/-- The operation fails with `e` if `c` holds. -/
def failIf (c : Prop) [Decidable c] (e : ε) : Procedure σ ε Unit :=
  lift (if c then .error e else .ok ())

/-- The value of an option; the operation fails with `e` if there is none. -/
def require (o : Option α) (e : ε) : Procedure σ ε α :=
  lift (match o with | some a => .ok a | none => .error e)

/-! ## Taking runs apart -/

section Runs

variable {x : Procedure σ ε α} {f : α → Procedure σ ε β} {s s' s'' : σ} {a : α} {b : β}
  {e e' : ε} {r : Except ε α} {c : Prop}

@[simp] theorem pure_apply : (pure a : Procedure σ ε α) s = (.ok a, s) := rfl

@[simp] theorem update_apply {f : σ → σ} : (update f : Procedure σ ε Unit) s = (.ok (), f s) := rfl

@[simp] theorem lift_apply : (lift r : Procedure σ ε α) s = (r, s) := rfl

theorem bind_of_ok (h : x s = (.ok a, s')) : (x >>= f) s = f a s' := by
  change (match x s with | (.ok a, s') => f a s' | (.error e, s') => (.error e, s')) = _
  rw [h]

theorem bind_of_error (h : x s = (.error e, s')) : (x >>= f) s = (.error e, s') := by
  change (match x s with | (.ok a, s') => f a s' | (.error e, s') => (.error e, s')) = _
  rw [h]

theorem bind_ok_iff :
    (x >>= f) s = (.ok b, s'') ↔ ∃ a s', x s = (.ok a, s') ∧ f a s' = (.ok b, s'') := by
  constructor
  · intro h
    rcases hx : x s with ⟨r, s'⟩
    cases r with
    | error e =>
      rw [bind_of_error hx] at h
      cases h
    | ok a =>
      rw [bind_of_ok hx] at h
      exact ⟨a, s', rfl, h⟩
  · rintro ⟨a, s', hx, hf⟩
    rw [bind_of_ok hx, hf]

theorem bind_error_iff : (x >>= f) s = (.error e, s'') ↔
      x s = (.error e, s'') ∨ ∃ a s', x s = (.ok a, s') ∧ f a s' = (.error e, s'') := by
  constructor
  · intro h
    rcases hx : x s with ⟨r, s'⟩
    cases r with
    | error e' =>
      rw [bind_of_error hx] at h
      cases h
      exact .inl rfl
    | ok a =>
      rw [bind_of_ok hx] at h
      exact .inr ⟨a, s', rfl, h⟩
  · rintro (hx | ⟨a, s', hx, hf⟩)
    · rw [bind_of_error hx]
    · rw [bind_of_ok hx, hf]

@[simp] theorem read_bind {f : σ → Procedure σ ε β} : (read >>= f) s = f s s := rfl

@[simp] theorem update_bind {g : σ → σ} {f : Unit → Procedure σ ε β} :
    (update g >>= f) s = f () (g s) := rfl

@[simp] theorem lift_bind_ok :
    (lift r >>= f) s = (.ok b, s') ↔ ∃ a, r = .ok a ∧ f a s = (.ok b, s') := by
  simp only [bind_ok_iff, lift_apply, Prod.mk.injEq, and_assoc, exists_and_left, exists_eq_left']

@[simp] theorem lift_bind_error : (lift r >>= f) s = (.error e, s') ↔
      r = .error e ∧ s = s' ∨ ∃ a, r = .ok a ∧ f a s = (.error e, s') := by
  simp only [bind_error_iff, lift_apply, Prod.mk.injEq, and_assoc, exists_and_left, exists_eq_left']

section

variable [Decidable c] {f : Unit → Procedure σ ε β}

@[simp] theorem failIf_bind_ok :
    (failIf c e >>= f) s = (.ok b, s') ↔ ¬ c ∧ f () s = (.ok b, s') := by
  by_cases hc : c <;> simp [failIf, hc, Unique.exists_iff]

@[simp] theorem failIf_bind_error : (failIf c e >>= f) s = (.error e', s') ↔
      c ∧ e = e' ∧ s = s' ∨ ¬ c ∧ f () s = (.error e', s') := by
  by_cases hc : c <;> simp [failIf, hc, Unique.exists_iff]

end

@[simp] theorem require_bind_ok {o : Option α} :
    (require o e >>= f) s = (.ok b, s') ↔ ∃ a, o = some a ∧ f a s = (.ok b, s') := by
  cases o <;> simp [require]

@[simp] theorem require_bind_error {o : Option α} :
    (require o e >>= f) s = (.error e', s') ↔
      o = none ∧ e = e' ∧ s = s' ∨ ∃ a, o = some a ∧ f a s = (.error e', s') := by
  cases o <;> simp [require]

end Runs

/-! ## All or nothing -/

/-- The operation never changes the state. -/
def ReadOnly (x : Procedure σ ε α) : Prop := ∀ s, (x s).2 = s

/-- The operation never fails. -/
def Infallible (x : Procedure σ ε α) : Prop := ∀ s e s', x s ≠ (.error e, s')

/-- A failed operation has not changed the state. -/
def Atomic (x : Procedure σ ε α) : Prop := ∀ s e s', x s = (.error e, s') → s' = s

section Rules

variable {x y : Procedure σ ε α} {f : α → Procedure σ ε β} {c : Prop}

theorem readOnly_read : ReadOnly (read : Procedure σ ε σ) := fun _ => rfl

theorem readOnly_lift (r : Except ε α) : ReadOnly (lift r : Procedure σ ε α) := fun _ => rfl

theorem readOnly_failIf (c : Prop) [Decidable c] (e : ε) :
    ReadOnly (failIf c e : Procedure σ ε Unit) := fun _ => rfl

theorem readOnly_require (o : Option α) (e : ε) : ReadOnly (require o e : Procedure σ ε α) :=
  fun _ => rfl

theorem infallible_pure (a : α) : Infallible (pure a : Procedure σ ε α) := by
  intro s e s' h
  cases h

theorem infallible_update (f : σ → σ) : Infallible (update f : Procedure σ ε Unit) := by
  intro s e s' h
  cases h

theorem Infallible.bind (hx : Infallible x) (hf : ∀ a, Infallible (f a)) :
    Infallible (x >>= f) := by
  intro s e s' h
  rcases bind_error_iff.mp h with h | ⟨a, t, -, h⟩
  · exact hx s e s' h
  · exact hf a t e s' h

theorem ReadOnly.atomic (hx : ReadOnly x) : Atomic x := by
  intro s e s' h
  rw [← hx s, h]

/-- What follows a step that only reads the state starts in the same state. -/
theorem ReadOnly.bind (hx : ReadOnly x) (hf : ∀ a, Atomic (f a)) : Atomic (x >>= f) := by
  intro s e s' h
  rcases bind_error_iff.mp h with h | ⟨a, t, hxt, h⟩
  · exact hx.atomic s e s' h
  · have hts : t = s := by rw [← hx s, hxt]
    rw [hf a t e s' h, hts]

/-- A check before an operation. -/
theorem Atomic.failIf [Decidable c] {e : ε} (hx : Atomic x) :
    Atomic (Procedure.failIf c e >>= fun _ => x) :=
  (readOnly_failIf c e).bind fun _ => hx

/-- Nothing that follows the one step that may fail can fail itself. -/
theorem Atomic.bind (hx : Atomic x) (hf : ∀ a, Infallible (f a)) : Atomic (x >>= f) := by
  intro s e s' h
  rcases bind_error_iff.mp h with h | ⟨a, t, -, h⟩
  · exact hx s e s' h
  · exact absurd h (hf a t e s')

theorem Infallible.atomic (hx : Infallible x) : Atomic x := fun s e s' h => absurd h (hx s e s')

theorem Atomic.ite [Decidable c] (hx : Atomic x) (hy : Atomic y) : Atomic (if c then x else y) := by
  split
  · exact hx
  · exact hy

theorem Infallible.ite [Decidable c] (hx : Infallible x)
    (hy : Infallible y) : Infallible (if c then x else y) := by
  split
  · exact hx
  · exact hy

/-! ## Errors that do not occur -/

/-- The operation never fails with `e`. -/
def Avoids (e : ε) (x : Procedure σ ε α) : Prop := ∀ s s', x s ≠ (.error e, s')

variable {e e' : ε}

theorem Infallible.avoids (hx : Infallible x) : Avoids e x := fun s s' => hx s e s'

/-- A failed operation has not changed the state, and its error is not `e`. -/
structure Clean (e : ε) (x : Procedure σ ε α) : Prop where
  atomic : Atomic x
  avoids : Avoids e x

theorem Clean.fails (hx : Clean e x) {s s' : σ} (h : x s = (.error e', s')) :
    s' = s ∧ e' ≠ e :=
  ⟨hx.atomic s e' s' h, fun heq => hx.avoids s s' (heq ▸ h)⟩

theorem Infallible.clean (hx : Infallible x) : Clean e x := ⟨hx.atomic, hx.avoids⟩

theorem Clean.bind (hx : Clean e x) (hf : ∀ a, Infallible (f a)) : Clean e (x >>= f) := by
  refine ⟨hx.atomic.bind hf, fun s s' h => ?_⟩
  rcases bind_error_iff.mp h with h | ⟨a, t, -, h⟩
  · exact hx.avoids s s' h
  · exact hf a t e s' h

theorem Clean.ite [Decidable c] (hx : Clean e x) (hy : Clean e y) :
    Clean e (if c then x else y) := by
  split
  · exact hx
  · exact hy

theorem clean_read_bind {f : σ → Procedure σ ε β} (hf : ∀ s, Clean e (f s)) :
    Clean e (read >>= f) :=
  ⟨readOnly_read.bind fun s => (hf s).atomic, fun s => (hf s).avoids s⟩

theorem clean_lift_bind {r : Except ε α} (hr : r ≠ .error e) (hf : ∀ a, Clean e (f a)) :
    Clean e (lift r >>= f) := by
  refine ⟨(readOnly_lift r).bind fun a => (hf a).atomic, fun s s' h => ?_⟩
  rcases bind_error_iff.mp h with h | ⟨a, t, -, h⟩
  · exact hr (congrArg Prod.fst h)
  · exact (hf a).avoids t s' h

theorem clean_failIf_bind [Decidable c] {f : Unit → Procedure σ ε β} (h : e' ≠ e)
    (hf : ∀ u, Clean e (f u)) : Clean e (failIf c e' >>= f) := by
  refine clean_lift_bind ?_ hf
  split
  · exact fun heq => h (Except.error.inj heq)
  · exact nofun

theorem clean_require_bind {o : Option α} (h : e' ≠ e) (hf : ∀ a, Clean e (f a)) :
    Clean e (require o e' >>= f) := by
  refine clean_lift_bind ?_ hf
  cases o with
  | none => exact fun heq => h (Except.error.inj heq)
  | some a => exact nofun

end Rules

end Procedure
