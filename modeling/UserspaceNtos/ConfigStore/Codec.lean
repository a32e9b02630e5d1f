import UserspaceNtos.Lib.LittleEndian
import UserspaceNtos.Lib.Parser
import UserspaceNtos.Lib.Utf16

/-!
# Byte-level encoding primitives

The bounds-checked reader and the writer of the snapshot and journal formats.  Integers
are little-endian; blobs and strings carry their length in bytes, and strings are UTF-16.
A reader that runs out of input fails with the error its caller gives it.
-/

namespace UserspaceNtos.ConfigStore

open LittleEndian List

namespace Reader

variable {ε : Type}

/-- An integer of `w` bytes. -/
def word (e : ε) (w : ℕ) : Parser ε ℕ := leNat <$> Parser.take e w

/-- `u8` of the reader; `e` is the error at the end of the input. -/
def u8 (e : ε) : Parser ε ℕ := word e 1

/-- `u16` -/
def u16 (e : ε) : Parser ε ℕ := word e 2

/-- `u32` -/
def u32 (e : ε) : Parser ε ℕ := word e 4

/-- `u64` -/
def u64 (e : ε) : Parser ε ℕ := word e 8

/-- `blob`: a length and that many bytes. -/
def blob (e : ε) : Parser ε (List UInt8) := do
  let n ← u32 e
  Parser.take e n

/-- The 16-bit units of a byte string; an odd byte at the end is ignored. -/
def units : List UInt8 → List ℕ
  | a :: b :: rest => leNat [a, b] :: units rest
  | _ => []

/-- Units that are no character become the replacement character. -/
def lossy (us : List ℕ) : List Char := (Utf16.decode us).map (·.getD '�')

/-- `str16`: a blob of UTF-16 units, decoded with replacement characters. -/
def str16 (e : ε) : Parser ε (List Char) := do
  let bytes ← blob e
  return lossy (units bytes)

end Reader

namespace Writer

/-- `blob` of the writer. -/
def blob (b : List UInt8) : List UInt8 := leBytes 4 b.length ++ b

/-- `str16` of the writer. -/
def str16 (s : List Char) : List UInt8 :=
  leBytes 4 ((Utf16.encode s).length * 2) ++ (Utf16.encode s).flatMap (leBytes 2)

@[simp] theorem length_blob (b : List UInt8) : (blob b).length = 4 + b.length := by
  rw [blob, length_append, length_leBytes]

theorem length_flatMap_leBytes (us : List ℕ) : (us.flatMap (leBytes 2)).length = us.length * 2 := by
  induction us with
  | nil => rfl
  | cons u us ih =>
    rw [flatMap_cons, length_append, length_leBytes, length_cons]
    omega

@[simp] theorem length_str16 (s : List Char) :
    (str16 s).length = 4 + (Utf16.encode s).length * 2 := by
  rw [str16, length_append, length_leBytes, length_flatMap_leBytes]

end Writer

/-! ## Reading back what was written -/

namespace Reader

open Parser (Reads Width Shrinks)

variable {ε : Type} (e : ε)

theorem word_reads_mod (w n : ℕ) : Reads (word e w) (leBytes w n) (n % 256 ^ w) := by
  have := (Reads.take e (leBytes w n)).map leNat
  rwa [length_leBytes, leNat_leBytes_mod] at this

theorem word_reads {w n : ℕ} (hn : n < 256 ^ w) : Reads (word e w) (leBytes w n) n := by
  have := word_reads_mod e w n
  rwa [Nat.mod_eq_of_lt hn] at this

theorem blob_reads {b : List UInt8} (hb : b.length < 256 ^ 4) : Reads (blob e) (Writer.blob b) b :=
  (word_reads e hb).bind (Reads.take e b)

theorem units_flatMap_leBytes {us : List ℕ} (hus : ∀ u ∈ us, u < 256 ^ 2) :
    units (us.flatMap (leBytes 2)) = us := by
  induction us with
  | nil => rfl
  | cons u us ih =>
    have hu : leNat (leBytes 2 u) = u := leNat_leBytes (hus u mem_cons_self)
    change units (_ :: _ :: _) = _
    exact congrArg₂ List.cons hu (ih fun v hv => hus v (mem_cons_of_mem _ hv))

theorem lossy_encode (s : List Char) : lossy (Utf16.encode s) = s := by
  rw [lossy, Utf16.decode_encode, map_map]
  exact map_id _

theorem str16_reads {s : List Char} (hs : (Utf16.encode s).length * 2 < 256 ^ 4) :
    Reads (str16 e) (Writer.str16 s) s := by
  have hunits := units_flatMap_leBytes fun u => Utf16.encode_lt (s := s)
  have hlen := Writer.length_flatMap_leBytes (Utf16.encode s)
  have hblob : Reads (blob e) (Writer.str16 s) ((Utf16.encode s).flatMap (leBytes 2)) := by
    have := blob_reads e (by rw [hlen]; exact hs)
    rwa [Writer.blob, hlen] at this
  have := hblob.map fun bytes => lossy (units bytes)
  rw [hunits, lossy_encode] at this
  exact this

/-! ## How much is consumed -/

theorem word_width (w : ℕ) : Width (word e w) w := (Width.take e w).bind fun _ => Width.pure _

theorem word_lt {e : ε} {w n : ℕ} {input rest : List UInt8} (h : word e w input = .ok (n, rest)) :
    n < 256 ^ w := by
  obtain ⟨bytes, _, hbytes, hn⟩ := Parser.bind_eq_ok_iff.mp h
  obtain ⟨rfl, -⟩ := Prod.mk.inj (Except.ok.inj hn)
  rw [Parser.take] at hbytes
  split at hbytes
  · rename_i hw
    obtain ⟨rfl, -⟩ := Prod.mk.inj (Except.ok.inj hbytes)
    have hlt := leNat_lt (input.take w)
    rwa [length_take, min_eq_left hw] at hlt
  · cases hbytes

theorem blob_shrinks : Shrinks (blob e) :=
  (word_width e 4).shrinks.bind fun n => (Width.take e n).shrinks

theorem str16_shrinks : Shrinks (str16 e) := (blob_shrinks e).bind fun _ => Shrinks.pure _

end Reader

end UserspaceNtos.ConfigStore
