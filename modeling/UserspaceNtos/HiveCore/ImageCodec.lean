import UserspaceNtos.HiveCore.Decoded

/-!
# Reading an image back

The records and the header of an image are read back field by field.  The encoder
measures everything before it writes: `encodedImageLen` fails where a field does not fit,
and where it succeeds it is the length of the image (`encodedImageLen_eq_ok`).  The
checksums enter only through the equation by which they were written.
-/

namespace UserspaceNtos.HiveCore

open LittleEndian ConfigStore Parser List Result Reader

/-! ## Lengths -/

variable {n : ℕ} {α : Type} {h : Hive}

theorem checkedLen_eq_ok {a b : ℕ} (e : checkedLen a b = .ok n) : a + b = n ∧ n < 2 ^ 64 := by
  rw [checkedLen] at e
  split at e
  · obtain rfl := Except.ok.inj e
    exact ⟨rfl, ‹_›⟩
  · cases e

theorem blobRecordLen_eq_ok {b : Bytes} (e : blobRecordLen b.length = .ok n) :
    (Writer.blob b).length = n ∧ b.length < 2 ^ 32 := by
  rw [blobRecordLen] at e
  split_ifs at e
  rw [Writer.length_blob]
  exact ⟨(checkedLen_eq_ok e).1, not_le.mp ‹_›⟩

theorem str16RecordLen_eq_ok {s : Str} (e : str16RecordLen s = .ok n) :
    (Writer.str16 s).length = n ∧ (Utf16.encode s).length * 2 < 2 ^ 32 := by
  rw [str16RecordLen] at e
  split_ifs at e
  rw [blobRecordLen] at e
  split at e
  · cases e
  · rw [Writer.length_str16]
    exact ⟨(checkedLen_eq_ok e).1, not_le.mp ‹_›⟩

variable {write : α → Bytes}

/-- The length of an optional field includes the byte that announces it. -/
theorem optionalLen_eq_ok {f : α → Except HiveEncodeError ℕ} {fits : α → Prop}
    (hf : ∀ {a n}, f a = .ok n → (write a).length = n ∧ fits a) {len : ℕ} {o : Option α}
    (e : optionalLen f len o = .ok n) :
    len + (writeOptional write o).length = n + 1 ∧ ∀ a ∈ o, fits a := by
  cases o with
  | none =>
    obtain rfl := Except.ok.inj e
    exact ⟨by rw [writeOptional, length_leBytes], fun a ha => (nomatch ha)⟩
  | some a =>
    obtain ⟨m, hm, e⟩ := bind_eq_ok e
    obtain ⟨hlen, hfits⟩ := hf hm
    refine ⟨?_, fun b hb => Option.some.inj hb ▸ hfits⟩
    rw [writeOptional, length_append, length_leBytes, ← (checkedLen_eq_ok e).1]
    omega

/-- The sum of two lengths is the length of both pieces. -/
theorem sumLen_eq_ok {x y : Except HiveEncodeError ℕ} {a b : Bytes} {P Q : Prop}
    (hx : ∀ {n}, x = .ok n → a.length = n ∧ P) (hy : ∀ {n}, y = .ok n → b.length = n ∧ Q)
    (e : (do checkedLen (← x) (← y)) = .ok n) : (a ++ b).length = n ∧ P ∧ Q := by
  obtain ⟨m, hm, e⟩ := bind_eq_ok e
  obtain ⟨k, hk, e⟩ := bind_eq_ok e
  obtain ⟨⟨ha, hP⟩, hb, hQ⟩ := And.intro (hx hm) (hy hk)
  rw [length_append, ha, hb]
  exact ⟨(checkedLen_eq_ok e).1, hP, hQ⟩

/-- Every field of the key is shorter than 4 GiB. -/
structure KeyCell.Fits (k : KeyCell) : Prop where
  name : (Utf16.encode k.name).length * 2 < 2 ^ 32
  className : ∀ c ∈ k.className, (Utf16.encode c).length * 2 < 2 ^ 32
  securityDescriptor : ∀ d ∈ k.securityDescriptor, d.length < 2 ^ 32

theorem keyRecordLen_eq_ok {k : KeyCell} (e : keyRecordLen k = .ok n) :
    (keyRecord k).length = n ∧ k.Fits := by
  obtain ⟨nameLen, hname, e⟩ := bind_eq_ok e
  obtain ⟨len₁, h₁, e⟩ := bind_eq_ok e
  obtain ⟨len₂, h₂, e⟩ := bind_eq_ok e
  obtain ⟨len₃, h₃, e⟩ := bind_eq_ok e
  obtain ⟨len₄, h₄, e⟩ := bind_eq_ok e
  obtain ⟨len₅, h₅, e⟩ := bind_eq_ok e
  obtain ⟨hname, hnameFits⟩ := str16RecordLen_eq_ok hname
  obtain ⟨hclass, hclassFits⟩ := optionalLen_eq_ok (fun {c n} hc => (str16RecordLen_eq_ok hc :
      (Writer.str16 c).length = n ∧ (Utf16.encode c).length * 2 < 2 ^ 32)) h₃
  obtain ⟨hsd, hsdFits⟩ := optionalLen_eq_ok
    (fun {d n} hd => (blobRecordLen_eq_ok hd : (Writer.blob d).length = n ∧ d.length < 2 ^ 32)) h₅
  refine ⟨?_, hnameFits, hclassFits, hsdFits⟩
  have := (checkedLen_eq_ok h₁).1
  have := (checkedLen_eq_ok h₂).1
  have := (checkedLen_eq_ok h₄).1
  have := (checkedLen_eq_ok e).1
  simp only [keyRecord, length_append, length_leBytes]
  omega

theorem valueRecordLen_eq_ok {v : ValueCell} (e : valueRecordLen h v = .ok n) :
    (valueRecord h v).length = n ∧ (Utf16.encode v.name).length * 2 < 2 ^ 32 ∧
      ((h.valueData v).getD []).length < 2 ^ 32 := by
  obtain ⟨nameLen, hname, e⟩ := bind_eq_ok e
  obtain ⟨len₁, h₁, e⟩ := bind_eq_ok e
  obtain ⟨len₂, h₂, e⟩ := bind_eq_ok e
  obtain ⟨dataLen, hdata, e⟩ := bind_eq_ok e
  obtain ⟨len₃, h₃, e⟩ := bind_eq_ok e
  obtain ⟨hname, hnameFits⟩ := str16RecordLen_eq_ok hname
  obtain ⟨hdata, hdataFits⟩ := blobRecordLen_eq_ok hdata
  refine ⟨?_, hnameFits, hdataFits⟩
  have := (checkedLen_eq_ok h₁).1
  have := (checkedLen_eq_ok h₂).1
  have := (checkedLen_eq_ok h₃).1
  have := (checkedLen_eq_ok e).1
  simp only [valueRecord, length_append, length_leBytes]
  omega

/-- The lengths of the records of a list add up, and each record has a length. -/
theorem foldlM_checkedLen_eq_ok {f : α → Except HiveEncodeError ℕ}
    (hf : ∀ {a n}, f a = .ok n → (write a).length = n) {l : List α} {init : ℕ}
    (e : l.foldlM (fun len a => do checkedLen len (← f a)) init = .ok n) :
    init + (l.flatMap write).length = n ∧ ∀ a ∈ l, ∃ m, f a = .ok m := by
  induction l generalizing init with
  | nil => exact ⟨Except.ok.inj e, fun a ha => (nomatch ha)⟩
  | cons a l ih =>
    obtain ⟨len, hlen, e⟩ := bind_eq_ok e
    obtain ⟨m, hm, hlen⟩ := bind_eq_ok hlen
    obtain ⟨hsum, hall⟩ := ih e
    refine ⟨?_, forall_mem_cons.mpr ⟨⟨m, hm⟩, hall⟩⟩
    rw [flatMap_cons, length_append, hf hm, ← hsum, ← (checkedLen_eq_ok hlen).1]
    omega

/-- Every field is shorter than 4 GiB, and the image than 2⁶⁴ bytes. -/
structure Hive.Fits (h : Hive) : Prop where
  key : ∀ k ∈ h.keyCellList, k.Fits
  valueName : ∀ v ∈ h.valueCellList, (Utf16.encode v.name).length * 2 < 2 ^ 32
  valueData : ∀ v ∈ h.valueCellList, ((h.valueData v).getD []).length < 2 ^ 32
  payload : imageHeaderLen + (imagePayload h).length < 2 ^ 64

theorem encodedImageLen_eq_ok (e : encodedImageLen h = .ok n) :
    imageHeaderLen + (imagePayload h).length = n ∧ h.Fits := by
  obtain ⟨len, hlen, e⟩ := bind_eq_ok e
  obtain ⟨keysLen, hkeys, hvalues⟩ := bind_eq_ok hlen
  obtain ⟨hkeys, hkeysFit⟩ := foldlM_checkedLen_eq_ok
    (fun {k n} hk => (keyRecordLen_eq_ok hk).1) hkeys
  obtain ⟨hvalues, hvaluesFit⟩ := foldlM_checkedLen_eq_ok
    (fun {v n} hv => (valueRecordLen_eq_ok hv).1) hvalues
  have hpayload : (imagePayload h).length = len := by
    rw [imagePayload, length_append, ← hvalues, ← hkeys, Nat.zero_add]
  obtain ⟨hn, hlt⟩ := checkedLen_eq_ok e
  refine ⟨hpayload ▸ hn, ?_, ?_, ?_, by omega⟩
  · intro k hk
    obtain ⟨m, hm⟩ := hkeysFit k hk
    exact (keyRecordLen_eq_ok hm).2
  · intro v hv
    obtain ⟨m, hm⟩ := hvaluesFit v hv
    exact (valueRecordLen_eq_ok hm).2.1
  · intro v hv
    obtain ⟨m, hm⟩ := hvaluesFit v hv
    exact (valueRecordLen_eq_ok hm).2.2

/-! ### Hives that fit are measured -/

/-- The length is computed and is at most `n`. -/
def Measures (x : Except HiveEncodeError ℕ) (n : ℕ) : Prop := ∃ m ≤ n, x = .ok m

theorem Measures.bind {x : Except HiveEncodeError ℕ} {f : ℕ → Except HiveEncodeError ℕ} {m : ℕ}
    (hx : Measures x m) (hf : ∀ a ≤ m, Measures (f a) n) : Measures (x >>= f) n := by
  obtain ⟨a, ha, rfl⟩ := hx
  exact hf a ha

theorem measures_checkedLen {a b m : ℕ} (ha : a ≤ m) (hb : b ≤ n) (hlt : m + n < 2 ^ 64) :
    Measures (checkedLen a b) (m + n) :=
  ⟨a + b, Nat.add_le_add ha hb, if_pos (by omega)⟩

theorem measures_blobRecordLen {len : ℕ} (hlt : len < 2 ^ 32) :
    Measures (blobRecordLen len) (4 + 2 ^ 32) := by
  rw [blobRecordLen, if_neg (not_le.mpr hlt)]
  exact measures_checkedLen le_rfl hlt.le (by decide)

theorem measures_str16RecordLen {s : Str} (hlt : (Utf16.encode s).length * 2 < 2 ^ 32) :
    Measures (str16RecordLen s) (4 + 2 ^ 32) := by
  rw [str16RecordLen, if_neg (by omega)]
  exact measures_blobRecordLen hlt

theorem measures_optionalLen {f : α → Except HiveEncodeError ℕ} {len m : ℕ} {o : Option α}
    (hlen : len ≤ m) (hf : ∀ a ∈ o, Measures (f a) n) (hlt : m + n < 2 ^ 64) :
    Measures (optionalLen f len o) (m + n) := by
  cases o with
  | none => exact ⟨len, hlen.trans (Nat.le_add_right _ _), rfl⟩
  | some a => exact (hf a rfl).bind fun b hb => measures_checkedLen hlen hb hlt

theorem KeyCell.Fits.measured {k : KeyCell} (hk : k.Fits) : ∃ n, keyRecordLen k = .ok n := by
  obtain ⟨n, -, hn⟩ : Measures (keyRecordLen k) _ :=
    (measures_str16RecordLen hk.name).bind fun _ h₀ =>
      (measures_checkedLen le_rfl h₀ (by decide)).bind fun _ h₁ =>
        (measures_checkedLen h₁ le_rfl (by decide)).bind fun _ h₂ =>
          (measures_optionalLen h₂ (fun c hc => measures_str16RecordLen (hk.className c hc))
            (by decide)).bind fun _ h₃ =>
            (measures_checkedLen h₃ le_rfl (by decide)).bind fun _ h₄ =>
              (measures_optionalLen h₄ (fun d hd =>
                measures_blobRecordLen (hk.securityDescriptor d hd)) (by decide)).bind fun _ h₅ =>
                measures_checkedLen h₅ le_rfl (by decide)
  exact ⟨n, hn⟩

theorem measured_valueRecordLen {v : ValueCell} (hname : (Utf16.encode v.name).length * 2 < 2 ^ 32)
    (hdata : ((h.valueData v).getD []).length < 2 ^ 32) : ∃ n, valueRecordLen h v = .ok n := by
  obtain ⟨n, -, hn⟩ : Measures (valueRecordLen h v) _ :=
    (measures_str16RecordLen hname).bind fun _ h₀ =>
      (measures_checkedLen le_rfl h₀ (by decide)).bind fun _ h₁ =>
        (measures_checkedLen h₁ le_rfl (by decide)).bind fun _ h₂ =>
          (measures_blobRecordLen hdata).bind fun _ hd =>
            (measures_checkedLen h₂ hd (by decide)).bind fun _ h₃ =>
              measures_checkedLen h₃ le_rfl (by decide)
  exact ⟨n, hn⟩

/-- The lengths of records are added up as long as the sum fits. -/
theorem exists_foldlM_checkedLen {f : α → Except HiveEncodeError ℕ}
    (hwrite : ∀ {a n}, f a = .ok n → (write a).length = n) {l : List α} {init : ℕ}
    (hf : ∀ a ∈ l, ∃ n, f a = .ok n) (hlt : init + (l.flatMap write).length < 2 ^ 64) :
    ∃ n, l.foldlM (fun len a => do checkedLen len (← f a)) init = .ok n := by
  induction l generalizing init with
  | nil => exact ⟨init, rfl⟩
  | cons a l ih =>
    obtain ⟨⟨m, hm⟩, hf⟩ := forall_mem_cons.mp hf
    rw [flatMap_cons, length_append, hwrite hm, ← Nat.add_assoc] at hlt
    obtain ⟨n, hn⟩ := ih hf hlt
    refine ⟨n, ?_⟩
    rw [foldlM_cons, hm]
    exact (congrArg (· >>= _) (if_pos (by omega) : checkedLen init m = _)).trans hn

theorem Hive.Fits.exists_encodedImageLen (hfits : h.Fits) : ∃ n, encodedImageLen h = .ok n := by
  have hlt := hfits.payload
  rw [imagePayload, length_append] at hlt
  obtain ⟨m, hm⟩ := exists_foldlM_checkedLen (fun {k n} hk => (keyRecordLen_eq_ok hk).1)
    (fun k hk => (hfits.key k hk).measured)
    (show 0 + (h.keyCellList.flatMap keyRecord).length < 2 ^ 64 by omega)
  have hkeys : 0 + (h.keyCellList.flatMap keyRecord).length = m :=
    (foldlM_checkedLen_eq_ok (fun {k n} hk => (keyRecordLen_eq_ok hk).1) hm).1
  obtain ⟨n, hn⟩ := exists_foldlM_checkedLen (fun {v n} hv => (valueRecordLen_eq_ok hv).1)
    (fun v hv => measured_valueRecordLen (hfits.valueName v hv) (hfits.valueData v hv))
    (show m + (h.valueCellList.flatMap (valueRecord h)).length < 2 ^ 64 by omega)
  have hvalues : m + (h.valueCellList.flatMap (valueRecord h)).length = n :=
    (foldlM_checkedLen_eq_ok (fun {v n} hv => (valueRecordLen_eq_ok hv).1) hn).1
  have hlen : imagePayloadLen h = .ok n := by
    rw [imagePayloadLen, hm]
    exact hn
  refine ⟨imageHeaderLen + n, ?_⟩
  rw [encodedImageLen, hlen]
  exact if_pos (by omega)

/-- The encoder panics exactly where a field or the image is too long. -/
theorem encodeImage_isSome_iff : (encodeImage h).isSome ↔ h.Fits := by
  constructor
  · intro hsome
    obtain ⟨bytes, hbytes⟩ := Option.isSome_iff_exists.mp hsome
    cases hlen : encodedImageLen h with
    | ok n => exact (encodedImageLen_eq_ok hlen).2
    | error e =>
      rw [encodeImage, tryEncodeImage, hlen] at hbytes
      cases hbytes
  · intro hfits
    obtain ⟨n, hn⟩ := hfits.exists_encodedImageLen
    rw [encodeImage, tryEncodeImage, hn]
    rfl

/-! ## Records -/

/-- The record written for a key. -/
def KeyCell.record (k : KeyCell) : KeyRecord where
  id := k.id
  parent := k.parent.getD 0
  name := k.name
  kind := k.kind
  className := k.className
  securityDescriptor := k.securityDescriptor
  sequence := k.lastWriteSequence

/-- The record written for a value. -/
def ValueCell.record (h : Hive) (v : ValueCell) : ValueRecord where
  id := v.id
  parentKey := v.parentKey
  name := v.name
  valueType := v.valueType.toU32
  data := (h.valueData v).getD []
  sequence := v.lastWriteSequence

@[simp] theorem KeyCell.id_record (k : KeyCell) : k.record.id = k.id := rfl

@[simp] theorem KeyCell.parent_record (k : KeyCell) : k.record.parent = k.parent.getD 0 := rfl

@[simp] theorem ValueCell.id_record (h : Hive) (v : ValueCell) : (v.record h).id = v.id := rfl

@[simp] theorem ValueCell.parentKey_record (h : Hive) (v : ValueCell) :
    (v.record h).parentKey = v.parentKey := rfl

/-- The records of the durable image, in the order in which they are written. -/
def Hive.records (h : Hive) : List Record :=
  h.keyCellList.map (fun k => .key k.record) ++ h.valueCellList.map fun v => .value (v.record h)

theorem readOptional_reads {p : Parser HiveDecodeError α} {o : Option α}
    (hp : ∀ a ∈ o, Reads p (write a) a) : Reads (readOptional p) (writeOptional write o) o := by
  cases o with
  | none =>
    intro rest
    refine bind_eq_ok_iff.mpr ⟨0, rest, ?_, rfl⟩
    exact word_reads HiveDecodeError.truncated (by decide) rest
  | some a =>
    refine (word_reads HiveDecodeError.truncated (by decide)).bind ?_
    exact (hp a rfl).map some

theorem keyKind_keyFlags (kind : KeyKind) : keyKind schemaVersion (keyFlags kind) = .ok kind := by
  cases kind <;> rfl

private theorem field_reads {w n : ℕ} (h : n < 256 ^ w) :
    Reads (Reader.word HiveDecodeError.truncated w) (leBytes w n) n := word_reads _ h

theorem keyRecord_reads {k : KeyCell} (hfits : k.Fits) (hid : k.id < 2 ^ 64)
    (hparent : k.parent.getD 0 < 2 ^ 64) (hwritten : k.lastWriteSequence < 2 ^ 64) :
    Reads (readRecord schemaVersion) (keyRecord k) (.key k.record) := by
  have hflags : keyFlags k.kind < 256 ^ 4 := by
    cases k.kind <;> decide
  refine (field_reads (by decide)).bind ?_
  refine (field_reads (by omega)).bind ((field_reads (by omega)).bind ?_)
  refine (str16_reads _ (by have := hfits.name; omega)).bind ((field_reads hflags).bind ?_)
  refine Reads.lift_bind (keyKind_keyFlags k.kind) ?_
  refine (readOptional_reads fun c hc => ?_).bind ((readOptional_reads fun d hd => ?_).bind ?_)
  · exact str16_reads _ (by have := hfits.className c hc; omega)
  · exact blob_reads _ (by have := hfits.securityDescriptor d hd; omega)
  · exact (field_reads (by omega)).map fun sequence =>
      Record.key { k.record with sequence := sequence }

theorem valueRecord_reads {v : ValueCell} (hname : (Utf16.encode v.name).length * 2 < 2 ^ 32)
    (hdata : ((h.valueData v).getD []).length < 2 ^ 32) (hid : v.id < 2 ^ 64)
    (hparent : v.parentKey < 2 ^ 64) (hwritten : v.lastWriteSequence < 2 ^ 64) :
    Reads (readRecord schemaVersion) (valueRecord h v) (.value (v.record h)) := by
  have htype : v.valueType.toU32 < 256 ^ 4 := by
    cases v.valueType <;> decide
  refine (field_reads (by decide)).bind ?_
  refine (field_reads (by omega)).bind ((field_reads (by omega)).bind ?_)
  refine (str16_reads _ (by omega)).bind ((field_reads htype).bind ?_)
  refine (blob_reads _ (by omega)).bind ?_
  exact (field_reads (by omega)).map fun sequence =>
    Record.value { v.record h with sequence := sequence }

/-- Records that are read back one by one are read back in a row. -/
theorem readRecords_flatMap {schema : ℕ} {record : α → Record} {l : List α}
    (hl : ∀ a ∈ l, Reads (readRecord schema) (write a) (record a)) (rest : Bytes) :
    readRecords schema (l.flatMap write ++ rest) =
      (readRecords schema rest).map (l.map record ++ ·) := by
  induction l with
  | nil =>
    cases h : readRecords schema rest <;> simp [h, Except.map]
  | cons a l ih =>
    rw [flatMap_cons, append_assoc, readRecords_of_ok (hl a mem_cons_self _),
      ih fun b hb => hl b (mem_cons_of_mem _ hb)]
    cases readRecords schema rest <;> rfl

/-- The payload of an image holds the records of the hive. -/
theorem readRecords_imagePayload (hfits : h.Fits)
    (hkey : ∀ k ∈ h.keyCellList, k.id < 2 ^ 64 ∧ k.parent.getD 0 < 2 ^ 64 ∧
      k.lastWriteSequence < 2 ^ 64)
    (hvalue : ∀ v ∈ h.valueCellList, v.id < 2 ^ 64 ∧ v.parentKey < 2 ^ 64 ∧
      v.lastWriteSequence < 2 ^ 64) :
    readRecords schemaVersion (imagePayload h) = .ok h.records := by
  have hkeys : ∀ k ∈ h.keyCellList,
      Reads (readRecord schemaVersion) (keyRecord k) (.key k.record) := fun k hk =>
    have ⟨hid, hparent, hwritten⟩ := hkey k hk
    keyRecord_reads (hfits.key k hk) hid hparent hwritten
  have hvalues : ∀ v ∈ h.valueCellList,
      Reads (readRecord schemaVersion) (valueRecord h v) (.value (v.record h)) := fun v hv =>
    have ⟨hid, hparent, hwritten⟩ := hvalue v hv
    valueRecord_reads (hfits.valueName v hv) (hfits.valueData v hv) hid hparent hwritten
  rw [imagePayload, ← append_nil (h.valueCellList.flatMap _), readRecords_flatMap hkeys,
    readRecords_flatMap hvalues, readRecords_nil]
  simp only [Except.map, append_nil, Hive.records]

/-! ## The header -/

theorem fromU32_toU32_hiveKind (kind : HiveKind) : HiveKind.fromU32 kind.toU32 = some kind := by
  cases kind <;> rfl

theorem fromU32_toU32_valueType (ty : RegistryValueType) :
    RegistryValueType.fromU32 ty.toU32 = some ty := by
  cases ty <;> rfl

section Header

variable (kind : HiveKind) (recordCount : ℕ) {generation sequence root : ℕ} {payload : Bytes}

section

variable (hgeneration : generation < 2 ^ 64) (hsequence : sequence < 2 ^ 64) (hroot : root < 2 ^ 64)
  (hpayload : payload.length < 2 ^ 64)
include hgeneration hsequence hroot hpayload

theorem readImageHeader_reads {crc : ℕ} (hcrc : crc < 2 ^ 32) : Reads readImageHeader
      (imageHeader kind generation sequence root recordCount payload ++ leBytes 4 crc)
      { schema := schemaVersion, kind := kind, generation := generation, sequence := sequence,
        rootCell := root, payloadLen := payload.length,
        payloadCrc := (crc32c payload).toNat, headerCrc := crc } := by
  have hkind : kind.toU32 < 256 ^ 4 := by
    cases kind <;> decide
  rw [imageHeader]
  simp only [append_assoc]
  refine Reads.bind (Reads.take _ imageMagic) ?_
  refine (field_reads (by decide)).bind ((field_reads (by decide)).bind ?_)
  refine (field_reads (by decide)).bind ((field_reads hkind).bind ?_)
  refine Reads.lift_bind (orError_eq_ok_iff.mpr (fromU32_toU32_hiveKind kind)) ?_
  refine (field_reads (by omega)).bind ((field_reads (by omega)).bind
    ((field_reads (by omega)).bind ?_))
  -- the number of records is not looked at
  refine (word_reads_mod _ 8 recordCount).bind ((field_reads (by omega)).bind ?_)
  refine (field_reads (by have := (crc32c payload).isLt; omega)).bind ?_
  exact (field_reads (by omega)).map fun headerCrc => (ImageHeader.mk _ _ _ _ _ _ _ headerCrc)

theorem readImageHeader_sealImage :
    readImageHeader (sealImage kind generation sequence root recordCount payload) =
      .ok ({ schema := schemaVersion, kind := kind, generation := generation,
             sequence := sequence, rootCell := root, payloadLen := payload.length,
             payloadCrc := (crc32c payload).toNat,
             headerCrc := (crc32c (imageHeader kind generation sequence root recordCount
               payload)).toNat }, payload) :=
  readImageHeader_reads kind recordCount hgeneration hsequence hroot hpayload (BitVec.isLt _) _

end

theorem drop_sealImage :
    (sealImage kind generation sequence root recordCount payload).drop imageHeaderLen =
      payload := by
  refine drop_left' ?_
  rfl

theorem length_sealImage : (sealImage kind generation sequence root recordCount payload).length =
      imageHeaderLen + payload.length := by
  rw [sealImage, length_append, length_append]
  rfl

theorem decodeImage_sealImage (hgeneration : generation < 2 ^ 64) (hsequence : sequence < 2 ^ 64)
    (hroot : root < 2 ^ 64) (hpayload : payload.length < 2 ^ 64) :
    decodeImage (sealImage kind generation sequence root recordCount payload) =
      decodePayload schemaVersion kind generation sequence root payload := by
  have htake : (sealImage kind generation sequence root recordCount payload).take
      (imageHeaderLen - 4) = imageHeader kind generation sequence root recordCount payload := by
    rw [sealImage, append_assoc, take_left']
    rfl
  rw [decodeImage, readImageHeader_sealImage _ _ hgeneration hsequence hroot hpayload]
  simp only [Except.bind, htake, drop_sealImage, length_sealImage, take_length, ne_eq,
    not_true_eq_false, lt_self_iff_false, if_false]

end Header

end UserspaceNtos.HiveCore
