import Mathlib.Tactic.Ring

/-!
# UTF-16

`encode` writes a string of Unicode scalar values as 16-bit code units, and `decode`
reads code units back, with `none` for every unit that is not part of a character.
Decoding what was encoded gives every character back (`decode_encode`).
-/

namespace Utf16

open List

/-- The code units of a character. -/
def encodeChar (c : Char) : List ℕ :=
  if c.toNat < 0x10000 then [c.toNat]
  else [0xD800 + (c.toNat - 0x10000) / 0x400, 0xDC00 + (c.toNat - 0x10000) % 0x400]

/-- The code units of a string. -/
def encode (s : List Char) : List ℕ := s.flatMap encodeChar

/-- A unit that is the first half of a pair. -/
def IsLeading (u : ℕ) : Prop := 0xD800 ≤ u ∧ u < 0xDC00
  deriving Decidable

/-- A unit that is the second half of a pair. -/
def IsTrailing (u : ℕ) : Prop := 0xDC00 ≤ u ∧ u < 0xE000
  deriving Decidable

/-- The character a pair of halves stands for. -/
def pair (u v : ℕ) : Char := Char.ofNat (0x10000 + (u - 0xD800) * 0x400 + (v - 0xDC00))

/-- The characters denoted by code units; a half without its other half is no character. -/
def decode : List ℕ → List (Option Char)
  | [] => []
  | u :: rest =>
    if IsTrailing u then none :: decode rest
    else if IsLeading u then
      match rest with
      | [] => [none]
      | v :: rest' =>
        if IsTrailing v then some (pair u v) :: decode rest' else none :: decode (v :: rest')
    else some (Char.ofNat u) :: decode rest

theorem decode_cons_of_char {u : ℕ} (hl : ¬ IsLeading u) (ht : ¬ IsTrailing u)
    (rest : List ℕ) : decode (u :: rest) = some (Char.ofNat u) :: decode rest := by
  cases rest <;> simp [decode, hl, ht]

theorem decode_cons_of_pair {u v : ℕ} (hl : IsLeading u) (hu : ¬ IsTrailing u)
    (hv : IsTrailing v) (rest : List ℕ) :
    decode (u :: v :: rest) = some (pair u v) :: decode rest := by
  simp [decode, hl, hu, hv]

theorem decode_encodeChar (c : Char) (rest : List ℕ) :
    decode (encodeChar c ++ rest) = some c :: decode rest := by
  have hvalid := c.valid
  rw [encodeChar]
  split
  · rename_i hlt
    have hrange : c.toNat < 0xD800 ∨ 0xDFFF < c.toNat := by
      rcases hvalid with h | h
      · exact .inl h
      · exact .inr h.1
    rw [singleton_append, decode_cons_of_char, Char.ofNat_toNat]
    · unfold IsLeading
      omega
    · unfold IsTrailing
      omega
  · rename_i hge
    have hmax : c.toNat < 0x110000 := by
      rcases hvalid with h | h
      · have : c.toNat < 0xD800 := h
        omega
      · exact h.2
    rw [cons_append, cons_append, nil_append, decode_cons_of_pair]
    · have : 0x10000 + (0xD800 + (c.toNat - 0x10000) / 0x400 - 0xD800) * 0x400 +
          (0xDC00 + (c.toNat - 0x10000) % 0x400 - 0xDC00) = c.toNat := by omega
      rw [pair, this, Char.ofNat_toNat]
    · unfold IsLeading
      omega
    · unfold IsTrailing
      omega
    · unfold IsTrailing
      omega

theorem decode_encode (s : List Char) : decode (encode s) = s.map some := by
  induction s with
  | nil => rfl
  | cons c s ih =>
    rw [encode, flatMap_cons, decode_encodeChar, map_cons, ← ih, encode]

/-- Code units fit in 16 bits. -/
theorem encode_lt {s : List Char} {u : ℕ} (hu : u ∈ encode s) : u < 256 ^ 2 := by
  obtain ⟨c, -, hc⟩ := mem_flatMap.mp hu
  have hmax : c.toNat < 0x110000 := by
    rcases c.valid with h | h
    · have : c.toNat < 0xD800 := h
      omega
    · exact h.2
  rw [encodeChar] at hc
  split at hc
  · rw [mem_singleton] at hc
    omega
  · simp only [mem_cons, not_mem_nil, or_false] at hc
    omega

end Utf16
