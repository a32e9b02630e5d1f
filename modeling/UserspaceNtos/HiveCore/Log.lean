import UserspaceNtos.HiveCore.ImageCodec

/-!
# The hive log

A log is a row of records, each a header of 28 bytes with two checksums and a payload that
names an operation by paths.  `replayLog` applies the records whose sequence advances; it
stops for good at the first record that is torn, damaged or refused.  Every record counts
as one change, whatever it did to the hive, and `alignLoggedSequence` sets the clock of the
hive accordingly.

Each operation is read back from its record (`applyLog_payload`).
-/

namespace UserspaceNtos.HiveCore

open LittleEndian ConfigStore Parser Writer List

/-- A change of a hive by path. -/
inductive HiveLogOp
  | createChild (parent name : Str) (className : Option Str) (descriptor : Bytes)
  | createKey (path : Str)
  | setValue (path name : Str) (valueType : RegistryValueType) (data : Bytes)
  | deleteValue (path name : Str)
  | deleteKey (path : Str)
  | setKeyClass (path : Str) (className : Option Str)
  | setKeySecurityDescriptor (path : Str) (descriptor : Bytes)
  deriving DecidableEq, Repr

/-- `HiveLogReplayError` -/
inductive HiveLogReplayError
  | badMagic | badChecksum | truncated | unsupportedHeader
  | unsupportedOperation (op : ℕ)
  | unsupportedValueType (valueType : ℕ)
  | invalidPayload | nonAdvancingSequence | sequenceGap
  | createChild (e : CreateChildError)
  deriving DecidableEq, Repr

/-! ## Encoding -/

/-- The bytes `HLR1`. -/
def logMagic : Bytes := [0x48, 0x4C, 0x52, 0x31]

/-- `LOG_HEADER_LEN` -/
def logHeaderLen : ℕ := 28
/-- `op_create_key` -/
def opCreateKey : ℕ := 1
/-- `op_set_value` -/
def opSetValue : ℕ := 2
/-- `op_delete_value` -/
def opDeleteValue : ℕ := 3
/-- `OP_DELETE_KEY` -/
def opDeleteKey : ℕ := 4
/-- `OP_SET_KEY_CLASS` -/
def opSetKeyClass : ℕ := 5
/-- `OP_SET_KEY_SECURITY_DESCRIPTOR` -/
def opSetKeySecurityDescriptor : ℕ := 6
/-- `OP_CREATE_CHILD` -/
def opCreateChild : ℕ := 7

namespace HiveLogOp

/-- The number of the operation in a record. -/
def code : HiveLogOp → ℕ
  | createChild .. => opCreateChild
  | createKey .. => opCreateKey
  | setValue .. => opSetValue
  | deleteValue .. => opDeleteValue
  | deleteKey .. => opDeleteKey
  | setKeyClass .. => opSetKeyClass
  | setKeySecurityDescriptor .. => opSetKeySecurityDescriptor

/-- The payload of the record of an operation. -/
def payload : HiveLogOp → Bytes
  | createChild parent name className descriptor =>
    str16 parent ++ (str16 name ++
      (writeOptional str16 className ++ blob descriptor))
  | createKey path => str16 path
  | setValue path name valueType data =>
    str16 path ++ (str16 name ++
      (leBytes 4 valueType.toU32 ++ blob data))
  | deleteValue path name => str16 path ++ str16 name
  | deleteKey path => str16 path
  | setKeyClass path className => str16 path ++ writeOptional str16 className
  | setKeySecurityDescriptor path descriptor => str16 path ++ blob descriptor

end HiveLogOp

/-- The length of an optional class. -/
def classLen (className : Option Str) : Except HiveEncodeError ℕ :=
  optionalLen str16RecordLen 1 className

/-- `log_payload_len` -/
def logPayloadLen : HiveLogOp → Except HiveEncodeError ℕ
  | .createChild parent name className descriptor => do
      let len ← checkedLen (← str16RecordLen parent) (← str16RecordLen name)
      let len ← checkedLen len (← classLen className)
      checkedLen len (← blobRecordLen descriptor.length)
  | .createKey path => str16RecordLen path
  | .setValue path name _ data => do
      let len ← checkedLen (← str16RecordLen path) (← str16RecordLen name)
      checkedLen (← checkedLen len 4) (← blobRecordLen data.length)
  | .deleteValue path name => do checkedLen (← str16RecordLen path) (← str16RecordLen name)
  | .deleteKey path => str16RecordLen path
  | .setKeyClass path className => do checkedLen (← str16RecordLen path) (← classLen className)
  | .setKeySecurityDescriptor path descriptor => do
      checkedLen (← str16RecordLen path) (← blobRecordLen descriptor.length)

/-- The header in front of its own checksum. -/
def logHeader (code sequence : ℕ) (payload : Bytes) : Bytes :=
  logMagic ++ (leBytes 2 logHeaderLen ++ (leBytes 2 code ++ (leBytes 8 sequence ++
    (leBytes 4 payload.length ++ leBytes 4 (crc32c payload).toNat))))

/-- The header, its checksum and the payload. -/
def sealLogRecord (code sequence : ℕ) (payload : Bytes) : Bytes :=
  let header := logHeader code sequence payload
  header ++ leBytes 4 (crc32c header).toNat ++ payload

/-- `try_encode_log_record` -/
def tryEncodeLogRecord (op : HiveLogOp) (sequence : ℕ) : Except HiveEncodeError Bytes := do
  let payloadLen ← logPayloadLen op
  if 2 ^ 32 ≤ payloadLen then .error .sizeOverflow
  else do
    let _ ← checkedLen logHeaderLen payloadLen
    return sealLogRecord op.code sequence op.payload

/-! ## Applying a record -/

/-- A write sequence is cut down to that of the record. -/
def Cell.capSequence (sequence : ℕ) : Cell → Cell
  | .key k => .key { k with lastWriteSequence := min k.lastWriteSequence sequence }
  | .value v => .value { v with lastWriteSequence := min v.lastWriteSequence sequence }

/-- The record owns one sequence, even if applying it counted more changes or none. -/
def Hive.alignLoggedSequence (h : Hive) (sequence : ℕ) : Hive :=
  if sequence < h.sequence then
    { h with
      cells := h.cells.map (Option.map (Cell.capSequence sequence))
      sequence := sequence
      length_cells_le := by rw [length_map]; exact h.length_cells_le }
  else { h with sequence := sequence }

/-- The payload of a create-child record. -/
structure CreatedChild where
  parent : Str
  name : Str
  className : Option Str
  descriptor : Bytes

/-- A string whose units have to be valid. -/
def readStrictString : Parser HiveLogReplayError Str := do
  let bytes ← Reader.blob .invalidPayload
  if bytes.length % 2 ≠ 0 then Parser.fail .invalidPayload
  else Parser.lift (Result.orError ((Utf16.decode (Reader.units bytes)).mapM id) .invalidPayload)

/-- A path without empty components, and a name that is one component. -/
def validChildPath (parent name : Str) : Bool :=
  let components := if parent.head? = some '\\' then parent.tail else parent
  !(parent.contains '\x00' ||
    (!components.isEmpty && (components.splitOn '\\').any List.isEmpty) ||
    name.isEmpty || name.contains '\\' || name.contains '\x00')

/-- A presence byte and the class. -/
def readClass : Parser HiveLogReplayError (Option Str) := do
  let present ← Reader.u8 .invalidPayload
  if present = 0 then return none
  else if present = 1 then return some (← readStrictString)
  else Parser.fail .invalidPayload

/-- The fields of a create-child payload. -/
def readCreatedChild : Parser HiveLogReplayError CreatedChild := do
  let parent ← readStrictString
  let name ← readStrictString
  if ¬ validChildPath parent name then Parser.fail .invalidPayload
  else do
    let className ← readClass
    let descriptor ← Reader.blob .invalidPayload
    return { parent, name, className, descriptor }

/-- A create-child payload with a descriptor and nothing behind it. -/
def decodeCreatedChild (payload : Bytes) : Except HiveLogReplayError CreatedChild :=
  (readCreatedChild payload).bind fun (child, rest) =>
    if child.descriptor.isEmpty || !rest.isEmpty then .error .invalidPayload else .ok child

/-- The child is created in a transaction of its own. -/
def Hive.applyChild (h : Hive) (child : CreatedChild) :
    Option (Except HiveLogReplayError Unit × Hive) :=
  match h.openKey child.parent with
  | none => some (.error (.createChild .parentNotFound), h)
  | some parent =>
    (h.tryCreateChildWithOptions parent child.name child.className child.descriptor false
      true).map fun r =>
        match r with
        | (.ok _, h) => (.ok (), h)
        | (.error e, h) => (.error (.createChild e), h)

/-- `apply_log` on a create-child record. -/
def applyCreatedChild (h : Hive) (payload : Bytes) :
    Option (Except HiveLogReplayError Unit × Hive) :=
  match decodeCreatedChild payload with
  | .error e => some (.error e, h)
  | .ok child => h.applyChild child

/-- The key at `path`, if there is one, is changed. -/
def Hive.atKey (h : Hive) (path : Str) {α : Type} (f : CellId → Option (α × Hive)) : Option Hive :=
  match h.openKey path with
  | none => some h
  | some key => (f key).map Prod.snd

/-- `apply_log` on a set-value record: a value type it does not know is skipped. -/
def Hive.createAndSet (h : Hive) (path name : Str) (valueType : ℕ) (data : Bytes) :
    Option Hive := do
  let (key, h) ← h.createKey path
  match RegistryValueType.fromU32 valueType with
  | none => return h
  | some ty => (h.setValue key name ty data).map Prod.snd

section Fields

open Reader

/-- The payload of a record that names a key. -/
def readPath : Parser Unit Str := str16 ()

/-- The payload of a set-value record. -/
def readValueFields : Parser Unit (Str × Str × ℕ × Bytes) := do
  return (← str16 (), ← str16 (), ← u32 (), ← blob ())

/-- The payload of a delete-value record. -/
def readNameFields : Parser Unit (Str × Str) := do
  return (← str16 (), ← str16 ())

/-- A class that is announced but missing counts as no class. -/
def readClassFields : Parser Unit (Str × Option Str) := do
  let path ← str16 ()
  let hasClass ← u8 ()
  if hasClass = 0 then return (path, none)
  else return (path, ← Parser.optional (str16 ()))

/-- The payload of a set-security record. -/
def readDescriptorFields : Parser Unit (Str × Bytes) := do
  return (← str16 (), ← blob ())

end Fields

/-- A payload that lacks a field changes nothing. -/
def withFields {α : Type} (h : Hive) (read : Parser Unit α) (payload : Bytes)
    (f : α → Option Hive) : Option Hive :=
  match read payload with
  | .ok (fields, _) => f fields
  | .error _ => some h

/-- `apply_log` -/
def applyLog (h : Hive) (op : ℕ) (payload : Bytes) :
    Option (Except HiveLogReplayError Unit × Hive) :=
  if op = opCreateChild then applyCreatedChild h payload
  else
    (if op = opCreateKey then
      withFields h readPath payload fun path => (h.createKey path).map Prod.snd
    else if op = opSetValue then
      withFields h readValueFields payload fun (path, name, ty, data) =>
        h.createAndSet path name ty data
    else if op = opDeleteValue then
      withFields h readNameFields payload fun (path, name) =>
        h.atKey path fun key => h.deleteValue key name
    else if op = opDeleteKey then
      withFields h readPath payload fun path => h.atKey path fun key => h.deleteKey key
    else if op = opSetKeyClass then
      withFields h readClassFields payload fun (path, className) =>
        h.atKey path fun key => h.setKeyClass key className
    else if op = opSetKeySecurityDescriptor then
      withFields h readDescriptorFields payload fun (path, descriptor) =>
        h.atKey path fun key => h.setKeySecurityDescriptor key descriptor
    else some h).map fun h => (.ok (), h)

/-! ## Replaying a log -/

/-- A record of the log as it is read. -/
structure LogRecord where
  op : ℕ
  sequence : ℕ
  payload : Bytes
  deriving DecidableEq, Repr

/-- The fields of a record header. -/
structure LogHeader where
  headerSize : ℕ
  op : ℕ
  sequence : ℕ
  payloadLen : ℕ
  payloadCrc : ℕ
  recordCrc : ℕ

open Reader in
/-- The fields of a header, with the errors for a short one and for a wrong magic. -/
def readLogHeader {ε : Type} (truncated badMagic : ε) : Parser ε LogHeader := do
  let magic ← Parser.take truncated 4
  if magic ≠ logMagic then Parser.fail badMagic
  else do
    let headerSize ← u16 truncated
    let op ← u16 truncated
    let sequence ← u64 truncated
    let payloadLen ← u32 truncated
    let payloadCrc ← u32 truncated
    let recordCrc ← u32 truncated
    return { headerSize, op, sequence, payloadLen, payloadCrc, recordCrc }

/-- The first record of a log and what follows it, if the record is whole. -/
def nextLogRecord (bytes : Bytes) : Option (LogRecord × Bytes) :=
  match readLogHeader () () bytes with
  | .error _ => none
  | .ok (header, rest) =>
    if (crc32c (bytes.take (logHeaderLen - 4))).toNat ≠ header.recordCrc then none
    else if rest.length < header.payloadLen then none
    else
      let payload := rest.take header.payloadLen
      if (crc32c payload).toNat ≠ header.payloadCrc then none
      else some ({ op := header.op, sequence := header.sequence, payload := payload },
        rest.drop header.payloadLen)

variable {ε : Type}

theorem readLogHeader_width (truncated badMagic : ε) :
    Width (readLogHeader truncated badMagic) logHeaderLen := by
  have hword := Reader.word_width truncated
  show Width _ (4 + (2 + (2 + (8 + (4 + (4 + (4 + 0)))))))
  refine (Width.take truncated 4).bind fun magic => ?_
  split
  · exact Width.fail _ _
  · exact (hword 2).bind fun _ => (hword 2).bind fun _ => (hword 8).bind fun _ =>
      (hword 4).bind fun _ => (hword 4).bind fun _ => (hword 4).bind fun _ => Width.pure _

theorem nextLogRecord_length {bytes rest : Bytes} {r : LogRecord}
    (h : nextLogRecord bytes = some (r, rest)) : rest.length < bytes.length := by
  rw [nextLogRecord] at h
  split at h
  · cases h
  · rename_i header rest' hheader
    split at h
    · cases h
    · split_ifs at h
      dsimp only at h
      split at h
      · cases h
      · obtain ⟨-, rfl⟩ := Prod.mk.inj (Option.some.inj h)
        have := readLogHeader_width _ _ _ _ _ hheader
        rw [logHeaderLen] at this
        rw [length_drop]
        omega

/-- The highest sequence applied and the hive, nothing on a panic. -/
def replayLog (h : Hive) (bytes : Bytes) (last : ℕ) : Option (ℕ × Hive) :=
  match hr : nextLogRecord bytes with
  | none => some (last, h)
  | some (r, rest) =>
    have := nextLogRecord_length hr
    if last < r.sequence then
      match applyLog h r.op r.payload with
      | none => none
      | some (.error _, h) => some (last, h)
      | some (.ok _, h) => replayLog (h.alignLoggedSequence r.sequence) rest r.sequence
    else replayLog h rest last
termination_by bytes.length

/-! ## What an operation does -/

/-- A created child is checked before anything else happens. -/
def HiveLogOp.apply (h : Hive) : HiveLogOp → Option (Except HiveLogReplayError Unit × Hive)
  | createChild parent name className descriptor =>
    if validChildPath parent name && !descriptor.isEmpty then
      h.applyChild { parent, name, className, descriptor }
    else some (.error .invalidPayload, h)
  | createKey path => (h.createKey path).map fun r => (.ok (), r.2)
  | setValue path name valueType data => do
      let (key, h) ← h.createKey path
      let (_, h) ← h.setValue key name valueType data
      return (.ok (), h)
  | deleteValue path name =>
    (h.atKey path fun key => h.deleteValue key name).map fun h => (.ok (), h)
  | deleteKey path => (h.atKey path fun key => h.deleteKey key).map fun h => (.ok (), h)
  | setKeyClass path className =>
    (h.atKey path fun key => h.setKeyClass key className).map fun h => (.ok (), h)
  | setKeySecurityDescriptor path descriptor =>
    (h.atKey path fun key => h.setKeySecurityDescriptor key descriptor).map fun h => (.ok (), h)

/-! ## Reading a record back -/

namespace HiveLogOp

/-- The strings of an operation. -/
def strings : HiveLogOp → List Str
  | createChild parent name className _ => parent :: name :: className.toList
  | createKey path | deleteKey path => [path]
  | setValue path name _ _ | deleteValue path name => [path, name]
  | setKeyClass path className => path :: className.toList
  | setKeySecurityDescriptor path _ => [path]

/-- The byte fields of an operation. -/
def blobs : HiveLogOp → List Bytes
  | createChild _ _ _ descriptor | setKeySecurityDescriptor _ descriptor => [descriptor]
  | setValue _ _ _ data => [data]
  | _ => []

theorem code_le (op : HiveLogOp) : op.code ≤ opCreateChild := by
  cases op <;> exact Nat.le_of_ble_eq_true rfl

/-- All lengths can be written. -/
structure Fits (op : HiveLogOp) : Prop where
  string : ∀ s ∈ op.strings, (Utf16.encode s).length * 2 < 2 ^ 32
  blob : ∀ b ∈ op.blobs, b.length < 2 ^ 32

end HiveLogOp

variable {className : Option Str} {op : HiveLogOp}

theorem classLen_eq_ok {n : ℕ} (e : classLen className = .ok n) :
    (writeOptional str16 className).length = n ∧
      ∀ c ∈ className, (Utf16.encode c).length * 2 < 2 ^ 32 := by
  obtain ⟨hlen, hfits⟩ := optionalLen_eq_ok (fun {c n} hc => (str16RecordLen_eq_ok hc :
    (str16 c).length = n ∧ (Utf16.encode c).length * 2 < 2 ^ 32)) e
  exact ⟨by omega, hfits⟩

open HiveLogOp

theorem logPayloadLen_eq_ok {n : ℕ} (e : logPayloadLen op = .ok n) : op.payload.length = n := by
  -- the pieces of a payload are measured one after the other
  cases op with
  | createChild parent name className descriptor =>
    simp only [logPayloadLen, ← bind_assoc] at e
    have hlen := (sumLen_eq_ok (sumLen_eq_ok (sumLen_eq_ok str16RecordLen_eq_ok
      str16RecordLen_eq_ok) classLen_eq_ok) blobRecordLen_eq_ok e).1
    simpa [payload] using hlen
  | createKey | deleteKey => exact (str16RecordLen_eq_ok e).1
  | setValue path name valueType data =>
    simp only [logPayloadLen, ← bind_assoc] at e
    have hlen := (sumLen_eq_ok (sumLen_eq_ok (b := leBytes 4 valueType.toU32)
      (sumLen_eq_ok str16RecordLen_eq_ok str16RecordLen_eq_ok)
      fun h => ⟨Except.ok.inj h ▸ length_leBytes .., trivial⟩) blobRecordLen_eq_ok e).1
    simpa [payload] using hlen
  | deleteValue => exact (sumLen_eq_ok str16RecordLen_eq_ok str16RecordLen_eq_ok e).1
  | setKeyClass => exact (sumLen_eq_ok str16RecordLen_eq_ok classLen_eq_ok e).1
  | setKeySecurityDescriptor =>
    exact (sumLen_eq_ok str16RecordLen_eq_ok blobRecordLen_eq_ok e).1

/-- Every field is a part of the payload. -/
theorem HiveLogOp.fits_of_length_lt (h : op.payload.length < 2 ^ 32) : op.Fits := by
  rcases op with ⟨_, _, _ | _, _⟩ | _ | _ | _ | _ | ⟨_, _ | _⟩ | _ <;>
    simp only [payload, writeOptional, length_append, length_str16, length_blob] at h <;>
    constructor <;> simp [strings, blobs] <;> omega

section Record

variable {code sequence : ℕ} {payload : Bytes}

theorem length_logHeader : (logHeader code sequence payload).length = 24 := by
  rfl

/-- The fields that are read from the header of a sealed record. -/
def sealedHeader (code sequence : ℕ) (payload : Bytes) : LogHeader where
  headerSize := logHeaderLen
  op := code
  sequence := sequence
  payloadLen := payload.length
  payloadCrc := (crc32c payload).toNat
  recordCrc := (crc32c (logHeader code sequence payload)).toNat

theorem readLogHeader_reads (truncated badMagic : ε) (hcode : code < 2 ^ 16)
    (hsequence : sequence < 2 ^ 64) (hpayload : payload.length < 2 ^ 32) :
    Reads (readLogHeader truncated badMagic) (logHeader code sequence payload ++
      leBytes 4 (crc32c (logHeader code sequence payload)).toNat)
      (sealedHeader code sequence payload) := by
  have hcrc : ∀ bytes : Bytes, (crc32c bytes).toNat < 256 ^ 4 := fun bytes => BitVec.isLt _
  have hword : ∀ {w n : ℕ}, n < 256 ^ w → Reads (Reader.word truncated w) (leBytes w n) n :=
    Reader.word_reads truncated
  nth_rewrite 1 [logHeader]
  simp only [append_assoc]
  refine Reads.bind (Reads.take _ logMagic) ?_
  refine (hword (by decide)).bind ((hword (by omega)).bind ((hword (by omega)).bind ?_))
  refine (hword (by omega)).bind ((hword (hcrc _)).bind ?_)
  exact (hword (hcrc _)).map fun recordCrc => LogHeader.mk _ _ _ _ _ recordCrc

theorem take_sealLogRecord (rest : Bytes) :
    (sealLogRecord code sequence payload ++ rest).take (logHeaderLen - 4) =
      logHeader code sequence payload := by
  exact take_left' length_logHeader

theorem readLogHeader_sealLogRecord (truncated badMagic : ε) (hcode : code < 2 ^ 16)
    (hsequence : sequence < 2 ^ 64) (hpayload : payload.length < 2 ^ 32) (rest : Bytes) :
    readLogHeader truncated badMagic (sealLogRecord code sequence payload ++ rest) =
      .ok (sealedHeader code sequence payload, payload ++ rest) := by
  exact readLogHeader_reads truncated badMagic hcode hsequence hpayload (payload ++ rest)

end Record

/-! ### The fields of a payload -/

theorem readStrictString_reads {s : Str} (hs : (Utf16.encode s).length * 2 < 2 ^ 32) :
    Reads readStrictString (str16 s) s := by
  have hunits := Reader.units_flatMap_leBytes fun u => Utf16.encode_lt (s := s) (u := u)
  have hlen := length_flatMap_leBytes (Utf16.encode s)
  have hblob : Reads (Reader.blob HiveLogReplayError.invalidPayload) (str16 s)
      ((Utf16.encode s).flatMap (leBytes 2)) := by
    have := Reader.blob_reads HiveLogReplayError.invalidPayload
      (b := (Utf16.encode s).flatMap (leBytes 2)) (by rw [hlen]; omega)
    rwa [blob, hlen] at this
  have hdecode : (Utf16.decode (Utf16.encode s)).mapM id = some s := by
    rw [Utf16.decode_encode, mapM_map]
    exact mapM_pure.trans (congrArg some (map_id s))
  intro rest
  refine bind_eq_ok_iff.mpr ⟨_, rest, hblob rest, ?_⟩
  rw [if_neg (by rw [hlen]; omega), hunits, hdecode]
  rfl

private theorem flag_reads (error : ε) {n : ℕ} (hn : n < 256) :
    Reads (Reader.word error 1) (leBytes 1 n) n := Reader.word_reads _ hn

theorem readClass_reads (hfits : ∀ c ∈ className, (Utf16.encode c).length * 2 < 2 ^ 32) :
    Reads readClass (writeOptional str16 className) className := by
  cases className with
  | none => exact fun rest => bind_eq_ok_iff.mpr ⟨0, rest, flag_reads _ (by decide) rest, rfl⟩
  | some c =>
    exact (flag_reads _ (by decide)).bind ((readStrictString_reads (hfits c rfl)).map some)

theorem readClassFields_reads {path : Str} (hpath : (Utf16.encode path).length * 2 < 2 ^ 32)
    (hfits : ∀ c ∈ className, (Utf16.encode c).length * 2 < 2 ^ 32) :
    Reads readClassFields (str16 path ++ writeOptional str16 className) (path, className) := by
  refine (Reader.str16_reads () (by omega)).bind ?_
  cases className with
  | none => exact fun rest => bind_eq_ok_iff.mpr ⟨0, rest, flag_reads _ (by decide) rest, rfl⟩
  | some c =>
    have hc : Reads (Reader.str16 ()) (str16 c) c :=
      Reader.str16_reads () (by have := hfits c rfl; omega)
    exact (flag_reads _ (by decide)).bind (hc.optional.map (path, ·))

theorem decodeCreatedChild_payload {parent name : Str} {descriptor : Bytes}
    (hfits : (createChild parent name className descriptor).Fits) :
    decodeCreatedChild (createChild parent name className descriptor).payload =
      if validChildPath parent name && !descriptor.isEmpty then
        .ok { parent, name, className, descriptor }
      else .error .invalidPayload := by
  have hparent : Reads readStrictString (str16 parent) parent :=
    readStrictString_reads (hfits.string parent mem_cons_self)
  have hname : Reads readStrictString (str16 name) name :=
    readStrictString_reads (hfits.string name (mem_cons_of_mem _ mem_cons_self))
  have hclass : Reads readClass (writeOptional str16 className) className :=
    readClass_reads fun c hc => hfits.string c
      (mem_cons_of_mem _ (mem_cons_of_mem _ (Option.mem_toList.mpr hc)))
  have hdescriptor : descriptor.length < 2 ^ 32 := hfits.blob descriptor (mem_singleton_self _)
  have hblob := Reader.blob_reads HiveLogReplayError.invalidPayload (by omega)
  rw [decodeCreatedChild]
  by_cases hvalid : validChildPath parent name
  · have hread : Reads readCreatedChild
        (createChild parent name className descriptor).payload
        { parent, name, className, descriptor } := by
      refine hparent.bind (hname.bind ?_)
      rw [if_neg (not_not.mpr hvalid)]
      exact hclass.bind (hblob.map (CreatedChild.mk parent name className))
    rw [hread.apply]
    cases descriptor <;> simp [Except.bind, hvalid]
  · rw [payload, readCreatedChild, hparent.bind_apply, hname.bind_apply, if_pos hvalid]
    simp [Except.bind, hvalid, Parser.fail]

theorem withFields_payload {α : Type} {h : Hive} {read : Parser Unit α} {payload : Bytes} {a : α}
    {f : α → Option Hive} (hread : Reads read payload a) : withFields h read payload f = f a := by
  rw [withFields, hread.apply]

/-- The operation is read back from its record. -/
theorem applyLog_payload (h : Hive) (hfits : op.Fits) :
    applyLog h op.code op.payload = op.apply h := by
  have hstring : ∀ s ∈ op.strings, Reads (Reader.str16 ()) (str16 s) s :=
    fun s hs => Reader.str16_reads () (by have := hfits.string s hs; omega)
  have hblob : ∀ b ∈ op.blobs, Reads (Reader.blob ()) (blob b) b :=
    fun b hb => Reader.blob_reads () (by have := hfits.blob b hb; omega)
  cases op
  all_goals simp only [code, applyLog, opCreateChild, opCreateKey, opSetValue,
    opDeleteKey, Nat.reduceEqDiff, if_true, if_false]
  case createChild parent name className descriptor =>
    rw [applyCreatedChild, decodeCreatedChild_payload hfits, apply]
    by_cases hvalid : (validChildPath parent name && !descriptor.isEmpty) = true
    · rw [if_pos hvalid, if_pos hvalid]
    · rw [if_neg hvalid, if_neg hvalid]
  case createKey path =>
    have hread : Reads readPath (createKey path).payload path :=
      hstring path mem_cons_self
    rw [withFields_payload hread, Option.map_map]
    rfl
  case setValue path name valueType data =>
    have hread : Reads readValueFields (setValue path name valueType data).payload
        (path, name, valueType.toU32, data) := by
      have hpath := hstring path mem_cons_self
      have hname := hstring name (mem_cons_of_mem _ mem_cons_self)
      refine hpath.bind (hname.bind (Reads.bind (Reader.word_reads () ?_) ?_))
      · cases valueType <;> decide
      · exact (hblob data mem_cons_self).map fun data => (path, name, valueType.toU32, data)
    rw [withFields_payload hread]
    simp only [Hive.createAndSet, fromU32_toU32_valueType, apply]
    cases h.createKey path with
    | none => rfl
    | some r => cases hset : r.2.setValue r.1 name valueType data <;> simp [hset]
  case deleteValue path name =>
    have hread : Reads readNameFields (deleteValue path name).payload (path, name) :=
      (hstring path mem_cons_self).bind
        ((hstring name (mem_cons_of_mem _ mem_cons_self)).map (path, ·))
    rw [withFields_payload hread]
    rfl
  case deleteKey path =>
    have hread : Reads readPath (deleteKey path).payload path :=
      hstring path mem_cons_self
    rw [withFields_payload hread]
    rfl
  case setKeyClass path className =>
    have hread : Reads readClassFields (setKeyClass path className).payload
        (path, className) :=
      readClassFields_reads (hfits.string path mem_cons_self) fun c hc =>
        hfits.string c (mem_cons_of_mem _ (Option.mem_toList.mpr hc))
    rw [withFields_payload hread]
    rfl
  case setKeySecurityDescriptor path descriptor =>
    have hread : Reads readDescriptorFields
        (setKeySecurityDescriptor path descriptor).payload (path, descriptor) :=
      (hstring path mem_cons_self).bind ((hblob descriptor mem_cons_self).map (path, ·))
    rw [withFields_payload hread]
    rfl

theorem replayLog_next {h : Hive} {bytes rest : Bytes} {r : LogRecord} {last : ℕ}
    (hr : nextLogRecord bytes = some (r, rest)) : replayLog h bytes last =
      if last < r.sequence then
        match applyLog h r.op r.payload with
        | none => none
        | some (.error _, h) => some (last, h)
        | some (.ok _, h) => replayLog (h.alignLoggedSequence r.sequence) rest r.sequence
      else replayLog h rest last := by
  rw [replayLog]
  split
  · rename_i hr'
    rw [hr] at hr'
    cases hr'
  · rename_i hr'
    rw [hr] at hr'
    cases hr'
    rfl

theorem replayLog_end {bytes : Bytes} (hr : nextLogRecord bytes = none) (h : Hive) (last : ℕ) :
    replayLog h bytes last = some (last, h) := by
  rw [replayLog]
  split
  · rfl
  · rename_i hr'
    rw [hr] at hr'
    cases hr'

end UserspaceNtos.HiveCore
