import Mathlib.Data.List.Basic

/-!
# Parsers of byte strings

A parser consumes a front of its input and returns the rest, or fails.  That a parser
reads back what a writer has written is stated as `Reads p bytes a`: in front of any
rest, `p` consumes exactly `bytes` and returns `a`.  The rules for sequencing follow the
way readers and writers are put together, so a round trip is proved field by field.

`Width p n` says that `p` consumes `n` bytes whenever it succeeds, `Shrinks p` that it
never hands back more than it was given.  `Agrees p q` compares parsers that report different
errors: whatever `p` reads `q` reads.
-/

/-- A parser with results `α` and errors `ε`. -/
def Parser (ε α : Type) : Type := List UInt8 → Except ε (α × List UInt8)

namespace Parser

variable {ε α β : Type} {f : α → Parser ε β} {p : Parser ε α} {n : ℕ}

instance : Monad (Parser ε) where
  pure a := fun input => .ok (a, input)
  bind p f := fun input =>
    match p input with
    | .ok (a, rest) => f a rest
    | .error e => .error e

/-- The parser fails. -/
def fail (e : ε) : Parser ε α := fun _ => .error e

/-- A result that does not depend on the input. -/
def lift (r : Except ε α) : Parser ε α := fun input => r.map fun a => (a, input)

/-- The next `n` bytes. -/
def take (e : ε) (n : ℕ) : Parser ε (List UInt8) := fun input =>
  if n ≤ input.length then .ok (input.take n, input.drop n) else .error e

/-- A failure consumes nothing and counts as no result. -/
def optional (p : Parser ε α) : Parser ε (Option α) := fun input =>
  match p input with
  | .ok (a, rest) => .ok (some a, rest)
  | .error _ => .ok (none, input)

theorem bind_eq_ok_iff {input rest : List UInt8} {b : β} : (p >>= f) input = .ok (b, rest) ↔
      ∃ a mid, p input = .ok (a, mid) ∧ f a mid = .ok (b, rest) := by
  change (match p input with
    | .ok (a, rest) => f a rest
    | .error e => .error e) = _ ↔ _
  cases hp : p input with
  | error e => simp
  | ok r =>
    obtain ⟨a, mid⟩ := r
    simp

/-! ## Reading back what was written -/

/-- In front of any rest, `p` consumes exactly `bytes` and returns `a`. -/
def Reads (p : Parser ε α) (bytes : List UInt8) (a : α) : Prop :=
  ∀ rest, p (bytes ++ rest) = .ok (a, rest)

namespace Reads

variable {p : Parser ε α} {f : α → Parser ε β} {bytes bytes' : List UInt8} {a : α} {b : β}

theorem bind_apply (hp : Reads p bytes a) (rest : List UInt8) :
    (p >>= f) (bytes ++ rest) = f a rest := by
  change (match p (bytes ++ rest) with
    | .ok (a, rest) => f a rest
    | .error e => .error e) = _
  rw [hp rest]

theorem bind (hp : Reads p bytes a) (hf : Reads (f a) bytes' b) :
    Reads (p >>= f) (bytes ++ bytes') b := by
  intro rest
  rw [bind_eq_ok_iff]
  exact ⟨a, bytes' ++ rest, by rw [List.append_assoc]; exact hp _, hf rest⟩

/-- The result of the last parser is mapped. -/
theorem map (hp : Reads p bytes a) (g : α → β) : Reads (g <$> p) bytes (g a) := by
  intro rest
  change (p >>= fun a => Pure.pure (g a)) (bytes ++ rest) = _
  exact bind_eq_ok_iff.mpr ⟨a, rest, hp rest, rfl⟩

theorem take (e : ε) (bytes : List UInt8) : Reads (take e bytes.length) bytes bytes := by
  intro rest
  rw [Parser.take, if_pos (by rw [List.length_append]; omega), List.take_left, List.drop_left]

theorem lift {r : Except ε α} (hr : r = .ok a) : Reads (lift r) [] a := by
  intro rest
  rw [Parser.lift, hr]
  rfl

/-- A result that does not depend on the input comes first. -/
theorem lift_bind {r : Except ε α} (hr : r = .ok a) (hf : Reads (f a) bytes b) :
    Reads (Parser.lift r >>= f) bytes b := by
  intro rest
  rw [bind_eq_ok_iff]
  exact ⟨a, bytes ++ rest, lift hr _, hf rest⟩

theorem optional (hp : Reads p bytes a) : Reads (optional p) bytes (some a) := by
  intro rest
  rw [Parser.optional, hp rest]

/-- All of the input is consumed. -/
theorem apply (hp : Reads p bytes a) : p bytes = .ok (a, []) := by
  have := hp []
  rwa [List.append_nil] at this

end Reads

/-! ## How much is consumed -/

/-- Whenever `p` succeeds it consumes `n` bytes. -/
def Width (p : Parser ε α) (n : ℕ) : Prop :=
  ∀ input a rest, p input = .ok (a, rest) → input.length = rest.length + n

/-- The rest is no longer than the input. -/
def Shrinks (p : Parser ε α) : Prop :=
  ∀ input a rest, p input = .ok (a, rest) → rest.length ≤ input.length

theorem Width.pure (a : α) : Width (pure a : Parser ε α) 0 := by
  intro input b rest h
  obtain ⟨-, rfl⟩ := Prod.mk.inj (Except.ok.inj h)
  rfl

theorem Width.bind {m : ℕ} (hp : Width p m)
    (hf : ∀ a, Width (f a) n) : Width (p >>= f) (m + n) := by
  intro input b rest h
  obtain ⟨a, mid, ha, hb⟩ := bind_eq_ok_iff.mp h
  rw [hp _ _ _ ha, hf a _ _ _ hb]
  omega

theorem Width.take (e : ε) (n : ℕ) : Width (take e n) n := by
  intro input a rest h
  rw [Parser.take] at h
  split at h
  · obtain ⟨-, rfl⟩ := Prod.mk.inj (Except.ok.inj h)
    rw [List.length_drop]
    omega
  · cases h

theorem Width.fail (e : ε) (n : ℕ) : Width (fail e : Parser ε α) n := by
  intro input a rest h
  cases h

theorem Width.shrinks (hp : Width p n) : Shrinks p := by
  intro input a rest h
  rw [hp _ _ _ h]
  omega

theorem Shrinks.pure (a : α) : Shrinks (pure a : Parser ε α) := (Width.pure a).shrinks

theorem Shrinks.fail (e : ε) : Shrinks (fail e : Parser ε α) := (Width.fail e 0).shrinks

theorem Shrinks.lift (r : Except ε α) : Shrinks (lift r) := by
  intro input a rest h
  cases r with
  | error e => cases h
  | ok b =>
    obtain ⟨-, rfl⟩ := Prod.mk.inj (Except.ok.inj h)
    exact Nat.le_refl _

theorem Shrinks.bind (hp : Shrinks p) (hf : ∀ a, Shrinks (f a)) : Shrinks (p >>= f) := by
  intro input b rest h
  obtain ⟨a, mid, ha, hb⟩ := bind_eq_ok_iff.mp h
  exact Nat.le_trans (hf a _ _ _ hb) (hp _ _ _ ha)

/-- A step of known width comes first. -/
theorem Width.bind_lt (hp : Width p (n + 1)) (hf : ∀ a, Shrinks (f a)) {input rest : List UInt8}
    {b : β} (h : (p >>= f) input = .ok (b, rest)) : rest.length < input.length := by
  obtain ⟨a, mid, ha, hb⟩ := bind_eq_ok_iff.mp h
  have := hp _ _ _ ha
  have := hf a _ _ _ hb
  omega

/-! ## Parsers with other errors -/

section Agrees

variable {ε' : Type} {q : Parser ε' α} {g : α → Parser ε' β}

/-- Whatever `p` reads `q` reads. -/
def Agrees (p : Parser ε α) (q : Parser ε' α) : Prop :=
  ∀ input a rest, p input = .ok (a, rest) → q input = .ok (a, rest)

theorem Agrees.pure (a : α) : Agrees (pure a : Parser ε α) (pure a : Parser ε' α) := by
  intro input b rest h
  cases h
  rfl

theorem Agrees.of_fail (e : ε) (q : Parser ε' α) : Agrees (fail e) q := by
  intro input a rest h
  cases h

theorem Agrees.take (e : ε) (e' : ε') (n : ℕ) : Agrees (take e n) (take e' n) := by
  intro input a rest h
  rw [Parser.take] at h ⊢
  split at h
  · rename_i hlen
    cases h
    exact if_pos hlen
  · cases h

theorem Agrees.bind (hp : Agrees p q) (hf : ∀ a, Agrees (f a) (g a)) :
    Agrees (p >>= f) (q >>= g) := by
  intro input b rest h
  obtain ⟨a, mid, ha, hb⟩ := bind_eq_ok_iff.mp h
  exact bind_eq_ok_iff.mpr ⟨a, mid, hp _ _ _ ha, hf a _ _ _ hb⟩

end Agrees

end Parser
