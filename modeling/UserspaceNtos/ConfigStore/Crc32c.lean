import Mathlib.Data.List.Basic
import Mathlib.Logic.Function.Iterate

/-!
# CRC-32C

The checksum of every persistent format of the system (`nt-config-store`,
`codec.rs`).  The source keeps one table for a byte at a time and seven more to
take eight bytes at once; `Crc32c.update` follows it, blocks of eight first and
the remainder byte by byte.

`update_eq_foldl` removes the blocks: both ways of taking the bytes agree.  The
reason is that a byte step is the linear map `shiftByte` applied after mixing the
byte into the low end of the register (`byteStep_eq`), and that mixing a byte
further up and stepping more often comes to the same (`shiftByte_shiftLeft`).
Its consequence `update_append` is what the streaming readers and writers rely
on: a checksum may be taken piecewise.
-/

namespace UserspaceNtos.ConfigStore

open Function

/-! ## The tables -/

/-- One bit of the reflected Castagnoli division. -/
def crcBit (crc : BitVec 32) : BitVec 32 :=
  if crc &&& 1#32 ≠ 0#32 then (crc >>> 1) ^^^ 0x82F63B78#32 else crc >>> 1

/-- `CRC32C_TABLE` -/
def crc32cTable (byte : BitVec 8) : BitVec 32 := crcBit^[8] (byte.setWidth 32)

/-- `CRC32C_SLICING_TABLES`: row `r` carries a byte through `r + 1` further bytes. -/
def crc32cSlicingTable : ℕ → BitVec 8 → BitVec 32
  | 0, byte => carry (crc32cTable byte)
  | row + 1, byte => carry (crc32cSlicingTable row byte)
where
  carry (previous : BitVec 32) : BitVec 32 :=
    (previous >>> 8) ^^^ crc32cTable (previous.setWidth 8)

namespace Crc32c

/-- The remainder loop's step. -/
def byteStep (crc : BitVec 32) (byte : UInt8) : BitVec 32 :=
  (crc >>> 8) ^^^ crc32cTable ((crc ^^^ byte.toBitVec.setWidth 32).setWidth 8)

/-- `u32::from_le_bytes` -/
def fromLeBytes (b0 b1 b2 b3 : UInt8) : BitVec 32 :=
  b0.toBitVec.setWidth 32 ^^^ (b1.toBitVec.setWidth 32 <<< 8) ^^^
    (b2.toBitVec.setWidth 32 <<< 16) ^^^ (b3.toBitVec.setWidth 32 <<< 24)

/-- `Crc32c::update` on the register. -/
def update : BitVec 32 → List UInt8 → BitVec 32
  | crc, b0 :: b1 :: b2 :: b3 :: b4 :: b5 :: b6 :: b7 :: rest =>
    let word := crc ^^^ fromLeBytes b0 b1 b2 b3
    update (crc32cSlicingTable 6 (word.setWidth 8)
      ^^^ crc32cSlicingTable 5 ((word >>> 8).setWidth 8)
      ^^^ crc32cSlicingTable 4 ((word >>> 16).setWidth 8)
      ^^^ crc32cSlicingTable 3 ((word >>> 24).setWidth 8)
      ^^^ crc32cSlicingTable 2 b4.toBitVec
      ^^^ crc32cSlicingTable 1 b5.toBitVec
      ^^^ crc32cSlicingTable 0 b6.toBitVec
      ^^^ crc32cTable b7.toBitVec) rest
  | crc, remainder => remainder.foldl byteStep crc

/-- `Crc32c::new` -/
def new : BitVec 32 := 0xFFFFFFFF#32

/-- `Crc32c::finish` -/
def finish (crc : BitVec 32) : BitVec 32 := ~~~crc

end Crc32c

open Crc32c

/-- `crc32c` -/
def crc32c (data : List UInt8) : BitVec 32 := finish (update new data)

/-! ## Linearity -/

open BitVec

theorem crcBit_xor (x y : BitVec 32) : crcBit (x ^^^ y) = crcBit x ^^^ crcBit y := by
  have hodd : ∀ z : BitVec 32, z &&& 1#32 ≠ 0#32 ↔ z.getLsbD 0 = true := by
    intro z
    rw [BitVec.and_one_eq_setWidth_ofBool_getLsbD]
    cases z.getLsbD 0 <;> decide
  simp only [crcBit, hodd, BitVec.getLsbD_xor, BitVec.ushiftRight_xor_distrib]
  cases x.getLsbD 0 <;> cases y.getLsbD 0 <;> simp
  · ac_rfl
  · ac_rfl
  · rw [show ∀ a b p : BitVec 32, a ^^^ p ^^^ (b ^^^ p) = a ^^^ b ^^^ (p ^^^ p) by
      intro a b p; ac_rfl, BitVec.xor_self, BitVec.xor_zero]

theorem crcBit_iterate_xor (n : ℕ) (x y : BitVec 32) :
    crcBit^[n] (x ^^^ y) = crcBit^[n] x ^^^ crcBit^[n] y := by
  induction n generalizing x y with
  | zero => rfl
  | succ n ih =>
    rw [iterate_succ_apply, crcBit_xor, ih]
    rfl

theorem crc32cTable_xor (a b : BitVec 8) :
    crc32cTable (a ^^^ b) = crc32cTable a ^^^ crc32cTable b := by
  rw [crc32cTable, setWidth_xor, crcBit_iterate_xor]
  rfl

/-- The register moved on by one zero byte. -/
def shiftByte (x : BitVec 32) : BitVec 32 := (x >>> 8) ^^^ crc32cTable (x.setWidth 8)

theorem shiftByte_xor (x y : BitVec 32) : shiftByte (x ^^^ y) = shiftByte x ^^^ shiftByte y := by
  simp only [shiftByte, ushiftRight_xor_distrib, setWidth_xor, crc32cTable_xor]
  ac_rfl

/-- A byte in the low end of the register leaves as its table entry. -/
theorem shiftByte_byte (b : BitVec 8) : shiftByte (b.setWidth 32) = crc32cTable b := by
  have hhigh : b.setWidth 32 >>> 8 = 0#32 := by
    ext i hi
    simp
  simp [shiftByte, hhigh]

/-- A byte further up moves down by one place. -/
theorem shiftByte_shiftLeft (b : BitVec 8) (k : ℕ) (hk : k < 3) :
    shiftByte (b.setWidth 32 <<< (8 * (k + 1))) = b.setWidth 32 <<< (8 * k) := by
  have hlow : (b.setWidth 32 <<< (8 * (k + 1))).setWidth 8 = 0#8 := by
    ext i hi
    simp only [Nat.reduceLeDiff, setWidth_shiftLeft_of_le, setWidth_setWidth_of_le,
      setWidth_eq, getElem_shiftLeft, getElem_zero, Bool.and_eq_false_imp,
      Bool.not_eq_eq_eq_not, Bool.not_true, decide_eq_false_iff_not, Nat.not_lt]
    omega
  have hzero : crc32cTable 0#8 = 0#32 := by decide
  rw [shiftByte, hlow, hzero, xor_zero]
  ext i hi
  simp only [getElem_ushiftRight, getLsbD_shiftLeft, getLsbD_setWidth,
    getElem_shiftLeft, getElem_setWidth]
  by_cases h : 8 + i < 32
  · simp only [h, decide_true, Bool.true_and]
    grind
  · have : 8 ≤ i - 8 * k := by omega
    simp [h, getLsbD_of_ge b _ this]

theorem byteStep_eq (crc : BitVec 32) (byte : UInt8) :
    byteStep crc byte = shiftByte (crc ^^^ byte.toBitVec.setWidth 32) := by
  rw [shiftByte_xor, shiftByte_byte, byteStep, setWidth_xor, crc32cTable_xor, shiftByte]
  simp
  ac_rfl

/-! ## Blocks of eight -/

theorem crc32cSlicingTable_eq (row : ℕ) (b : BitVec 8) :
    crc32cSlicingTable row b = shiftByte^[row + 2] (b.setWidth 32) := by
  induction row with
  | zero =>
    rw [iterate_succ_apply, shiftByte_byte]
    rfl
  | succ row ih =>
    rw [iterate_succ_apply', ← ih]
    rfl

theorem shiftByte_iterate_xor (n : ℕ) (x y : BitVec 32) :
    shiftByte^[n] (x ^^^ y) = shiftByte^[n] x ^^^ shiftByte^[n] y := by
  induction n generalizing x y with
  | zero => rfl
  | succ n ih =>
    rw [iterate_succ_apply, shiftByte_xor, ih]
    rfl

theorem shiftByte_iterate_shiftLeft (b : BitVec 8) (n k : ℕ) (hk : k ≤ 3) :
    shiftByte^[n + k] (b.setWidth 32 <<< (8 * k)) = shiftByte^[n] (b.setWidth 32) := by
  induction k with
  | zero => simp
  | succ k ih =>
    rw [← Nat.add_assoc, iterate_succ_apply, shiftByte_shiftLeft b k (by omega)]
    exact ih (by omega)

theorem shiftByte_iterate_fromLeBytes (n : ℕ) (b0 b1 b2 b3 : UInt8) :
    shiftByte^[n + 3] (fromLeBytes b0 b1 b2 b3) = shiftByte^[n + 3] (b0.toBitVec.setWidth 32) ^^^
        shiftByte^[n + 2] (b1.toBitVec.setWidth 32) ^^^
        shiftByte^[n + 1] (b2.toBitVec.setWidth 32) ^^^
          shiftByte^[n] (b3.toBitVec.setWidth 32) := by
  have h1 := shiftByte_iterate_shiftLeft b1.toBitVec (n + 2) 1 (by omega)
  have h2 := shiftByte_iterate_shiftLeft b2.toBitVec (n + 1) 2 (by omega)
  have h3 := shiftByte_iterate_shiftLeft b3.toBitVec n 3 (by omega)
  rw [fromLeBytes, shiftByte_iterate_xor, shiftByte_iterate_xor, shiftByte_iterate_xor, h1, h2, h3]

/-- Four bytes one by one are four steps of the word they form. -/
theorem foldl_byteStep_four (crc : BitVec 32) (b0 b1 b2 b3 : UInt8) :
    [b0, b1, b2, b3].foldl byteStep crc = shiftByte^[4] (crc ^^^ fromLeBytes b0 b1 b2 b3) := by
  rw [shiftByte_iterate_xor, shiftByte_iterate_fromLeBytes 1]
  simp only [List.foldl_cons, byteStep_eq, shiftByte_xor,
    iterate_succ_apply, iterate_zero, id, Nat.reduceAdd]
  ac_rfl

/-- Every word is formed by its own bytes. -/
theorem fromLeBytes_bytes (w : BitVec 32) :
    fromLeBytes ⟨w.setWidth 8⟩ ⟨(w >>> 8).setWidth 8⟩ ⟨(w >>> 16).setWidth 8⟩
      ⟨(w >>> 24).setWidth 8⟩ = w := by
  ext i hi
  simp [fromLeBytes]
  grind

/-- Taking the bytes in blocks of eight is the same as taking them one by one. -/
theorem update_eq_foldl (crc : BitVec 32) (bytes : List UInt8) :
    update crc bytes = bytes.foldl byteStep crc := by
  fun_induction update crc bytes with
  | case1 crc b0 b1 b2 b3 b4 b5 b6 b7 rest word ih =>
    have hsplit : (b0 :: b1 :: b2 :: b3 :: b4 :: b5 :: b6 :: b7 :: rest).foldl byteStep crc =
        rest.foldl byteStep ([b4, b5, b6, b7].foldl byteStep
          ([b0, b1, b2, b3].foldl byteStep crc)) := rfl
    rw [ih, hsplit, foldl_byteStep_four, foldl_byteStep_four, shiftByte_iterate_xor]
    change _ = List.foldl byteStep (shiftByte^[8] word ^^^ _) rest
    rw [← fromLeBytes_bytes word, shiftByte_iterate_fromLeBytes 5,
      shiftByte_iterate_fromLeBytes 1, fromLeBytes_bytes word]
    simp only [crc32cSlicingTable_eq, ← shiftByte_byte, Nat.reduceAdd, ← xor_assoc]
    rfl
  | case2 => rfl

/-- A checksum may be taken piecewise. -/
theorem update_append (crc : BitVec 32) (front back : List UInt8) :
    update crc (front ++ back) = update (update crc front) back := by
  simp only [update_eq_foldl, List.foldl_append]

/-!
## Combining checksums

`crc32c_combine` joins the checksums of two streams without their bytes.  It keeps the linear map
of a zero byte by its images of the 32 single bits (`Represents`), applies such a map by running
through the bits that are set (`applyCrcOperator_eq`), and squares it once for each bit of the
length (`combineLoop_eq`).
-/

/-! ### The code -/

/-- `u32::trailing_zeros` -/
def trailingZeros (value : BitVec 32) : ℕ := ((List.range 32).find? value.getLsbD).getD 32

/-- The loop of `apply_crc_operator`. -/
def applyCrcOperator (operator : ℕ → BitVec 32) (value result : BitVec 32) : BitVec 32 :=
  if value = 0#32 then result
  else applyCrcOperator operator (value &&& (value - 1#32))
    (result ^^^ operator (trailingZeros value))
termination_by value.toNat
decreasing_by
  have hpos : 0 < value.toNat := by
    bv_omega
  have hand : value.toNat &&& (value - 1#32).toNat ≤ (value - 1#32).toNat := Nat.and_le_right
  rw [BitVec.toNat_and]
  bv_omega

/-- The loop of `crc32c_combine`, which halves the length. -/
def combineLoop (rightCrc : BitVec 32) (operator : ℕ → BitVec 32) (leftCrc : BitVec 32)
    (rightLen : ℕ) : BitVec 32 :=
  let leftCrc := if rightLen % 2 ≠ 0 then applyCrcOperator operator leftCrc 0#32 else leftCrc
  if rightLen / 2 = 0 then leftCrc ^^^ rightCrc
  else combineLoop rightCrc (fun bit => applyCrcOperator operator (operator bit) 0#32) leftCrc
    (rightLen / 2)
termination_by rightLen

/-- `crc32c_combine` -/
def crc32cCombine (leftCrc rightCrc : BitVec 32) (rightLen : ℕ) : BitVec 32 :=
  if rightLen = 0 then leftCrc
  else combineLoop rightCrc (fun bit => shiftByte (1#32 <<< bit)) leftCrc rightLen

/-- The checksum taken bit by bit, with no table. -/
def bitSerial (data : List UInt8) : BitVec 32 :=
  ~~~data.foldl (fun crc byte => crcBit^[8] (crc ^^^ byte.toBitVec.setWidth 32)) 0xFFFFFFFF#32

/-! ### Bit by bit -/

theorem crcBit_iterate_of_low {k : ℕ} {x : BitVec 32} (hx : ∀ i < k, x.getLsbD i = false) :
    crcBit^[k] x = x >>> k := by
  induction k generalizing x with
  | zero => simp
  | succ k ih =>
    have heven : crcBit x = x >>> 1 := by
      rw [crcBit, and_one_eq_setWidth_ofBool_getLsbD, hx 0 k.succ_pos]
      simp
    rw [iterate_succ_apply, heven, ih, ← shiftRight_add, Nat.add_comm]
    intro i hi
    rw [getLsbD_ushiftRight]
    exact hx _ (by omega)

/-- Eight bits at once are a byte. -/
theorem crcBit_iterate_eight (x : BitVec 32) : crcBit^[8] x = shiftByte x := by
  have hsplit : x = (x >>> 8) <<< 8 ^^^ (x.setWidth 8).setWidth 32 := by
    ext i hi
    grind
  have hhigh : crcBit^[8] ((x >>> 8) <<< 8) = x >>> 8 := by
    rw [crcBit_iterate_of_low (by simp; omega)]
    ext i hi
    grind
  conv_lhs => rw [hsplit, crcBit_iterate_xor, hhigh]
  rfl

/-! ### Applying an operator -/

/-- The images of the single bits under a linear map. -/
structure Represents (operator : ℕ → BitVec 32) (f : BitVec 32 → BitVec 32) : Prop where
  xor : ∀ x y, f (x ^^^ y) = f x ^^^ f y
  basis : ∀ bit, operator bit = f (1#32 <<< bit)

/-- `value & (value - 1)` drops the lowest bit that is set. -/
theorem and_sub_one_eq {value : BitVec 32} (hvalue : value ≠ 0#32) :
    value &&& (value - 1#32) = value ^^^ 1#32 <<< trailingZeros value := by
  obtain ⟨bit, hbit⟩ : ∃ bit, (List.range 32).find? value.getLsbD = some bit := by
    rw [← Option.isSome_iff_exists, List.find?_isSome]
    by_contra! hnone
    refine hvalue (eq_of_getLsbD_eq fun i hi => ?_)
    simpa using hnone i (List.mem_range.mpr hi)
  have htz : trailingZeros value = bit := by
    rw [trailingZeros, hbit]
    rfl
  obtain ⟨hset, -, hlow⟩ := List.find?_range_eq_some.mp hbit
  have hsub : value - 1#32 = ~~~(-value) := by
    bv_omega
  rw [htz, hsub]
  ext i hi
  simp only [getElem_and, getElem_not, getElem_neg]
  rcases Nat.lt_trichotomy i bit with h | rfl | h
  · have hclear := hlow i h
    simp_all [getLsbD_eq_getElem]
  · simp_all [getLsbD_eq_getElem]
  · have hbelow : ∃ j < i, value.getLsbD j := ⟨bit, h, hset⟩
    simp [hbelow, Nat.sub_ne_zero_of_lt h]

variable {operator : ℕ → BitVec 32} {f : BitVec 32 → BitVec 32}

theorem applyCrcOperator_eq (h : Represents operator f) (value result : BitVec 32) :
    applyCrcOperator operator value result = result ^^^ f value := by
  fun_induction applyCrcOperator operator value result with
  | case1 result =>
    have hzero : f 0#32 = 0#32 := by
      have := h.xor 0#32 0#32
      rwa [BitVec.xor_self, BitVec.xor_self] at this
    rw [hzero, BitVec.xor_zero]
  | case2 value result hvalue ih =>
    rw [ih, and_sub_one_eq hvalue, h.xor, h.basis, BitVec.xor_assoc]
    congr 1
    rw [BitVec.xor_comm (f value), ← BitVec.xor_assoc, BitVec.xor_self, BitVec.zero_xor]

theorem combineLoop_eq (h : Represents operator f) (rightCrc leftCrc : BitVec 32) {rightLen : ℕ}
    (hlen : rightLen ≠ 0) :
    combineLoop rightCrc operator leftCrc rightLen = f^[rightLen] leftCrc ^^^ rightCrc := by
  induction rightLen using Nat.strongRecOn generalizing operator f leftCrc with
  | _ rightLen ih =>
  have happly : ∀ x, applyCrcOperator operator x 0#32 = f x := by
    intro x
    rw [applyCrcOperator_eq h, zero_xor]
  have hhead : (if rightLen % 2 ≠ 0 then f leftCrc else leftCrc) = f^[rightLen % 2] leftCrc := by
    rcases Nat.mod_two_eq_zero_or_one rightLen with hmod | hmod <;> rw [hmod] <;> rfl
  rw [combineLoop]
  simp only [happly, hhead]
  split
  next hhalf => rw [show rightLen % 2 = rightLen by omega]
  next hhalf =>
    have hsquare : Represents (fun bit => f (operator bit)) f^[2] := by
      refine ⟨fun x y => ?_, fun bit => ?_⟩
      · simp [h.xor]
      · simp [h.basis]
    rw [ih _ (by omega) hsquare _ hhalf, ← iterate_mul, ← iterate_add_apply, Nat.div_add_mod]

/-- The bytes of a stream act on the register apart from what it held. -/
theorem update_xor (crc crc' : BitVec 32) (bytes : List UInt8) :
    update (crc ^^^ crc') bytes = shiftByte^[bytes.length] crc ^^^ update crc' bytes := by
  simp only [update_eq_foldl]
  induction bytes generalizing crc crc' with
  | nil => rfl
  | cons byte bytes ih =>
    rw [List.foldl_cons, byteStep_eq, xor_assoc, shiftByte_xor, ih, ← byteStep_eq]
    rfl

/-- The checksum does not depend on the tables or on the pieces, and checksums of pieces can be
combined. -/
theorem crc32c_eq_bitSerial_and_combine :
    (∀ chunks : List (List UInt8),
      finish (chunks.foldl update new) = bitSerial chunks.flatten) ∧
    (∀ front back : List UInt8,
      crc32cCombine (crc32c front) (crc32c back) back.length = crc32c (front ++ back)) := by
  refine ⟨fun chunks => ?_, fun front back => ?_⟩
  · have hchunks : ∀ crc, chunks.foldl update crc = update crc chunks.flatten := by
      induction chunks with
      | nil => exact fun crc => rfl
      | cons chunk chunks ih =>
        intro crc
        rw [List.foldl_cons, ih, List.flatten_cons, update_append]
    have hstep : byteStep = fun crc byte => crcBit^[8] (crc ^^^ byte.toBitVec.setWidth 32) := by
      funext crc byte
      rw [byteStep_eq, crcBit_iterate_eight]
    rw [hchunks, update_eq_foldl, hstep]
    rfl
  · have hshift : Represents (fun bit => shiftByte (1#32 <<< bit)) shiftByte :=
      ⟨shiftByte_xor, fun _ => rfl⟩
    have hnot : ∀ x, ~~~x = x ^^^ new := fun x => BitVec.xor_allOnes.symm
    have hcombine : crc32cCombine (crc32c front) (crc32c back) back.length =
        shiftByte^[back.length] (crc32c front) ^^^ crc32c back := by
      by_cases hback : back = []
      · subst hback
        simp [crc32cCombine, crc32c, finish, new, Crc32c.update]
      · have hlen : back.length ≠ 0 := by simpa using hback
        rw [crc32cCombine, if_neg hlen, combineLoop_eq hshift _ _ hlen]
    rw [hcombine]
    simp only [crc32c, finish]
    rw [update_append, hnot, hnot (update new back), ← BitVec.xor_assoc, ← hnot, ← update_xor,
      BitVec.xor_assoc, BitVec.xor_self, BitVec.xor_zero]

/-- The check value of CRC-32C: the checksum of the digits one to nine. -/
example : bitSerial [0x31, 0x32, 0x33, 0x34, 0x35, 0x36, 0x37, 0x38, 0x39] = 0xE3069283#32 := by
  decide +kernel

end UserspaceNtos.ConfigStore
