import Mathlib.Tactic.Ring

/-!
# Fixed-width little-endian numbers

`leBytes w n` is the `w`-byte little-endian form of `n` and `leNat` reads any
byte string back.  The two are inverse on numbers that fit
(`leNat_leBytes`).  `sliceNat` reads a field at an offset of a record.  A record is
a list of widths and numbers, laid out one after the other by `pack`, and
`sliceNat_pack` reads any of its fields back.
-/

namespace LittleEndian

open List

/-- The `w` low bytes of `n`, least significant first. -/
def leBytes : ℕ → ℕ → List UInt8
  | 0, _ => []
  | w + 1, n => UInt8.ofNat n :: leBytes w (n / 256)

/-- The number a byte string denotes, least significant byte first. -/
def leNat : List UInt8 → ℕ
  | [] => 0
  | b :: bs => b.toNat + 256 * leNat bs

/-- The number in the `w` bytes at `offset`. -/
def sliceNat (bytes : List UInt8) (offset w : ℕ) : ℕ := leNat ((bytes.drop offset).take w)

@[simp] theorem length_leBytes (w n : ℕ) : (leBytes w n).length = w := by
  induction w generalizing n with
  | zero => rfl
  | succ w ih => simp [leBytes, ih]

theorem leNat_leBytes_mod (w n : ℕ) : leNat (leBytes w n) = n % 256 ^ w := by
  induction w generalizing n with
  | zero => simp [leBytes, leNat, Nat.mod_one]
  | succ w ih =>
    rw [leBytes, leNat, ih, UInt8.toNat_ofNat', pow_succ' 256 w, Nat.mod_mul]

/-- A number that fits in `w` bytes is read back. -/
theorem leNat_leBytes {w n : ℕ} (h : n < 256 ^ w) : leNat (leBytes w n) = n := by
  rw [leNat_leBytes_mod, Nat.mod_eq_of_lt h]

theorem leNat_lt (bytes : List UInt8) : leNat bytes < 256 ^ bytes.length := by
  induction bytes with
  | nil => simp [leNat]
  | cons b bs ih =>
    rw [leNat, length_cons, pow_succ]
    have := b.toNat_lt
    omega

theorem sliceNat_lt (bytes : List UInt8) (offset w : ℕ) : sliceNat bytes offset w < 256 ^ w :=
  (leNat_lt _).trans_le (Nat.pow_le_pow_right (by norm_num) (by simp [length_take]))

/-! ## Reading a field of a concatenation -/

/-- The first field of a record. -/
theorem sliceNat_zero_append {w n : ℕ} (h : n < 256 ^ w) (rest : List UInt8) :
    sliceNat (leBytes w n ++ rest) 0 w = n := by
  rw [sliceNat, drop_zero, take_left' (length_leBytes w n), leNat_leBytes h]

/-- A field past the first `k` bytes. -/
theorem sliceNat_append {front : List UInt8} {k offset : ℕ} (h : front.length = k)
    (hle : k ≤ offset) (rest : List UInt8) (w : ℕ) :
    sliceNat (front ++ rest) offset w = sliceNat rest (offset - k) w := by
  subst h
  rw [sliceNat, sliceNat, drop_append, drop_eq_nil_of_le hle, nil_append]

/-! ## Records -/

/-- The fields of a record, given by width and value, one after the other. -/
def pack : List (ℕ × ℕ) → List UInt8
  | [] => []
  | field :: fields => leBytes field.1 field.2 ++ pack fields

/-- The bytes a list of fields takes. -/
def width : List (ℕ × ℕ) → ℕ
  | [] => 0
  | field :: fields => field.1 + width fields

@[simp] theorem length_pack (fields : List (ℕ × ℕ)) : (pack fields).length = width fields := by
  induction fields with
  | nil => rfl
  | cons field fields ih => rw [pack, width, length_append, length_leBytes, ih]

theorem pack_append (fields fields' : List (ℕ × ℕ)) :
    pack (fields ++ fields') = pack fields ++ pack fields' := by
  induction fields with
  | nil => rfl
  | cons field fields ih => rw [cons_append, pack, pack, ih, append_assoc]

/-- A field of a record that stands behind `k` other bytes is read back. -/
theorem sliceNat_pack {front : List UInt8} {k : ℕ} (hfront : front.length = k)
    (before : List (ℕ × ℕ)) {w n : ℕ} (h : n < 256 ^ w) (after : List (ℕ × ℕ)) (rest : List UInt8) :
    sliceNat (front ++ (pack (before ++ (w, n) :: after) ++ rest)) (k + width before) w = n := by
  rw [sliceNat_append hfront (Nat.le_add_right _ _), Nat.add_sub_cancel_left, pack_append, pack,
    append_assoc, append_assoc, sliceNat_append (length_pack before) le_rfl,
    Nat.sub_self, sliceNat_zero_append h]

end LittleEndian
