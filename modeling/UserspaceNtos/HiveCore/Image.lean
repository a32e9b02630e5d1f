import UserspaceNtos.ConfigStore.Crc32c
import UserspaceNtos.ConfigStore.Codec
import UserspaceNtos.Lib.Result
import UserspaceNtos.HiveCore.Edit

/-!
# Hive images

An image is a header of 68 bytes and a payload of records, one for each key and then one
for each value of the durable part of the hive, in the order of the arena.  Header and
payload carry a checksum each.

The decoder numbers cells anew in the order in which it first meets their ids: the root
named by the header comes first, a key record contributes its own id and then that of its
parent, a value record only its own, and its parent has to be known by then.  Lists of
values are built as value records arrive, lists of subkeys at the end from the parents.
-/

namespace UserspaceNtos.HiveCore

open LittleEndian ConfigStore

/-- `HiveDecodeError` -/
inductive HiveDecodeError
  | badMagic | badChecksum | truncated | unsupportedSchema | unsupportedValueType (ty : ℕ)
  deriving DecidableEq, Repr

/-- `HiveEncodeError` -/
inductive HiveEncodeError
  | sizeOverflow | outOfMemory
  deriving DecidableEq, Repr

/-- `to_u32` -/
def HiveKind.toU32 : HiveKind → ℕ
  | system => 1
  | software => 2
  | default => 3
  | sam => 4
  | security => 5

/-- `from_u32` -/
def HiveKind.fromU32 : ℕ → Option HiveKind
  | 1 => some system
  | 2 => some software
  | 3 => some default
  | 4 => some sam
  | 5 => some security
  | _ => none

/-- `to_u32` -/
def RegistryValueType.toU32 : RegistryValueType → ℕ
  | none => 0
  | sz => 1
  | expandSz => 2
  | binary => 3
  | dword => 4
  | dwordBigEndian => 5
  | link => 6
  | multiSz => 7
  | resourceList => 8
  | fullResourceDescriptor => 9
  | resourceRequirementsList => 10
  | qword => 11

/-- `from_u32` -/
def RegistryValueType.fromU32 : ℕ → Option RegistryValueType
  | 0 => some none
  | 1 => some sz
  | 2 => some expandSz
  | 3 => some binary
  | 4 => some dword
  | 5 => some dwordBigEndian
  | 6 => some link
  | 7 => some multiSz
  | 8 => some resourceList
  | 9 => some fullResourceDescriptor
  | 10 => some resourceRequirementsList
  | 11 => some qword
  | _ => Option.none

/-- The bytes `UNTHIVE1`. -/
def imageMagic : Bytes := [0x55, 0x4E, 0x54, 0x48, 0x49, 0x56, 0x45, 0x31]

/-- `IMAGE_HEADER_LEN` -/
def imageHeaderLen : ℕ := 68
/-- `MIN_SCHEMA_VERSION` -/
def minSchemaVersion : ℕ := 1
/-- `SCHEMA_VERSION` -/
def schemaVersion : ℕ := 3
/-- `REC_KEY_CELL` -/
def recKeyCell : ℕ := 1
/-- `REC_VALUE_CELL` -/
def recValueCell : ℕ := 2

/-- `key_flags` -/
def keyFlags : KeyKind → ℕ
  | .ordinary => 0
  | .symbolicLink => 1

/-- `key_kind` -/
def keyKind (schema flags : ℕ) : Except HiveDecodeError KeyKind :=
  if flags = 0 then .ok .ordinary
  else if schema = 3 ∧ flags = 1 then .ok .symbolicLink
  else .error .unsupportedSchema

/-! ## Lengths -/

/-- `checked_len` -/
def checkedLen (a b : ℕ) : Except HiveEncodeError ℕ :=
  if a + b < 2 ^ 64 then .ok (a + b) else .error .sizeOverflow

/-- `blob_record_len` -/
def blobRecordLen (bytes : ℕ) : Except HiveEncodeError ℕ :=
  if 2 ^ 32 ≤ bytes then .error .sizeOverflow else checkedLen 4 bytes

/-- Twice the number of units, which has to fit in 64 bits, is a length like that of a
blob. -/
def str16RecordLen (s : Str) : Except HiveEncodeError ℕ :=
  if 2 ^ 64 ≤ (Utf16.encode s).length * 2 then .error .sizeOverflow
  else blobRecordLen ((Utf16.encode s).length * 2)

/-- The length of a field that may be absent is added to `len`. -/
def optionalLen {α : Type} (f : α → Except HiveEncodeError ℕ) (len : ℕ) :
    Option α → Except HiveEncodeError ℕ
  | none => .ok len
  | some a => do checkedLen len (← f a)

/-- `key_record_len` -/
def keyRecordLen (k : KeyCell) : Except HiveEncodeError ℕ := do
  let len ← checkedLen (2 + 8 + 8) (← str16RecordLen k.name)
  let len ← checkedLen len (4 + 1)
  let len ← optionalLen str16RecordLen len k.className
  let len ← checkedLen len 1
  let len ← optionalLen (fun d : Bytes => blobRecordLen d.length) len k.securityDescriptor
  checkedLen len 8

namespace Hive

/-- The keys of the durable image, in the order of the arena. -/
def keyCellList (h : Hive) : List KeyCell :=
  h.cells.filterMap fun c =>
    match c with
    | some (.key k) => if k.volatile then none else some k
    | _ => none

/-- The values of the durable image. -/
def valueCellList (h : Hive) : List ValueCell :=
  h.cells.filterMap fun c =>
    match c with
    | some (.value v) => if h.isVolatile v.parentKey then none else some v
    | _ => none

end Hive

/-- `value_record_len` -/
def valueRecordLen (h : Hive) (v : ValueCell) : Except HiveEncodeError ℕ := do
  let len ← checkedLen (2 + 8 + 8) (← str16RecordLen v.name)
  let len ← checkedLen len 4
  let len ← checkedLen len (← blobRecordLen ((h.valueData v).getD []).length)
  checkedLen len 8

/-- `image_payload_len` -/
def imagePayloadLen (h : Hive) : Except HiveEncodeError ℕ := do
  let len ← h.keyCellList.foldlM (fun len k => do checkedLen len (← keyRecordLen k)) 0
  h.valueCellList.foldlM (fun len v => do checkedLen len (← valueRecordLen h v)) len

/-- `encoded_image_len` -/
def encodedImageLen (h : Hive) : Except HiveEncodeError ℕ := do
  checkedLen imageHeaderLen (← imagePayloadLen h)

/-! ## Encoding -/

/-- A field that may be absent is preceded by a byte that says so. -/
def writeOptional {α : Type} (write : α → Bytes) : Option α → Bytes
  | none => leBytes 1 0
  | some a => leBytes 1 1 ++ write a

/-- The record of a key cell. -/
def keyRecord (k : KeyCell) : Bytes :=
  leBytes 2 recKeyCell ++ (leBytes 8 k.id ++ (leBytes 8 (k.parent.getD 0) ++
    (Writer.str16 k.name ++ (leBytes 4 (keyFlags k.kind) ++
      (writeOptional Writer.str16 k.className ++
        (writeOptional Writer.blob k.securityDescriptor ++ leBytes 8 k.lastWriteSequence))))))

/-- The record of a value cell, with its data. -/
def valueRecord (h : Hive) (v : ValueCell) : Bytes :=
  leBytes 2 recValueCell ++ (leBytes 8 v.id ++ (leBytes 8 v.parentKey ++
    (Writer.str16 v.name ++ (leBytes 4 v.valueType.toU32 ++
      (Writer.blob ((h.valueData v).getD []) ++ leBytes 8 v.lastWriteSequence)))))

/-- The records of an image: all keys, then all values. -/
def imagePayload (h : Hive) : Bytes :=
  h.keyCellList.flatMap keyRecord ++ h.valueCellList.flatMap (valueRecord h)

/-- The header in front of its own checksum. -/
def imageHeader (kind : HiveKind) (generation sequence root recordCount : ℕ) (payload : Bytes) :
    Bytes :=
  imageMagic ++ (leBytes 2 imageHeaderLen ++ (leBytes 2 schemaVersion ++ (leBytes 4 0 ++
    (leBytes 4 kind.toU32 ++ (leBytes 8 generation ++ (leBytes 8 sequence ++ (leBytes 8 root ++
      (leBytes 8 recordCount ++ (leBytes 8 payload.length ++
        leBytes 4 (crc32c payload).toNat)))))))))

/-- A payload with its header and their checksums. -/
def sealImage (kind : HiveKind) (generation sequence root recordCount : ℕ) (payload : Bytes) :
    Bytes :=
  let header := imageHeader kind generation sequence root recordCount payload
  header ++ leBytes 4 (crc32c header).toNat ++ payload

/-- `try_encode_image` -/
def tryEncodeImage (h : Hive) : Except HiveEncodeError Bytes := do
  let _ ← encodedImageLen h
  return sealImage h.kind h.generation h.sequence h.root
    (h.keyCellList.length + h.valueCellList.length) (imagePayload h)

/-- The encoder that panics where `tryEncodeImage` fails. -/
def encodeImage (h : Hive) : Option Bytes := (tryEncodeImage h).toOption

/-! ## Decoding -/

/-- A key record as it is read. -/
structure KeyRecord where
  id : CellId
  parent : CellId
  name : Str
  kind : KeyKind
  className : Option Str
  securityDescriptor : Option Bytes
  sequence : ℕ
  deriving DecidableEq

/-- A value record as it is read. -/
structure ValueRecord where
  id : CellId
  parentKey : CellId
  name : Str
  valueType : ℕ
  data : Bytes
  sequence : ℕ
  deriving DecidableEq

/-- A record of an image. -/
inductive Record
  | key (r : KeyRecord)
  | value (r : ValueRecord)
  deriving DecidableEq

open Reader in
/-- A field that may be absent. -/
def readOptional {α : Type} (p : Parser HiveDecodeError α) : Parser HiveDecodeError (Option α) := do
  let present ← u8 .truncated
  if present = 0 then return none
  else return some (← p)

/-- Images before the second schema have no security descriptors. -/
def readSecurityDescriptor (schema : ℕ) : Parser HiveDecodeError (Option Bytes) :=
  if 2 ≤ schema then readOptional (Reader.blob .truncated) else pure none

open Reader in
/-- The fields of a key record, behind its tag. -/
def readKeyRecord (schema : ℕ) : Parser HiveDecodeError Record := do
  let id ← u64 .truncated
  let parent ← u64 .truncated
  let name ← str16 .truncated
  let flags ← u32 .truncated
  let kind ← Parser.lift (keyKind schema flags)
  let className ← readOptional (str16 .truncated)
  let securityDescriptor ← readSecurityDescriptor schema
  let sequence ← u64 .truncated
  return .key { id, parent, name, kind, className, securityDescriptor, sequence }

open Reader in
/-- The fields of a value record, behind its tag. -/
def readValueRecord : Parser HiveDecodeError Record := do
  let id ← u64 .truncated
  let parentKey ← u64 .truncated
  let name ← str16 .truncated
  let valueType ← u32 .truncated
  let data ← blob .truncated
  let sequence ← u64 .truncated
  return .value { id, parentKey, name, valueType, data, sequence }

open Reader in
/-- A record with its tag. -/
def readRecord (schema : ℕ) : Parser HiveDecodeError Record := do
  let tag ← u16 .truncated
  if tag = recKeyCell then readKeyRecord schema
  else if tag = recValueCell then readValueRecord
  else Parser.fail .truncated

/-- The hive being built, the ids met so far in the order of their new numbers, and the
payloads known so far by length and checksum. -/
structure Decoder where
  hive : Hive
  idMap : List CellId
  blobIndex : List ((ℕ × ℕ) × ℕ)

/-- The new number of an id that was met before. -/
def compactCellId (idMap : List CellId) (raw : CellId) : Option CellId :=
  if raw ∈ idMap then some (idMap.idxOf raw) else none

/-- The number of an id, which is new if the id was not met before, and the ids met. -/
def mapDecodedCellId (idMap : List CellId) (raw : CellId) : CellId × List CellId :=
  match compactCellId idMap raw with
  | some id => (id, idMap)
  | none => (idMap.length, idMap ++ [raw])

namespace Hive

/-- The hive `decode_image` starts from. -/
def empty (kind : HiveKind) (root : CellId) (generation sequence : ℕ) : Hive where
  pendingValueJournal := none
  cells := []
  valueBlobs := []
  root := root
  nextId := 1
  kind := kind
  generation := generation
  sequence := sequence
  cleanSequence := sequence
  length_cells_le := Nat.zero_le _

/-- A decoded cell is put under its id. -/
def insertCell (h : Hive) (id : CellId) (cell : Cell) : Hive :=
  { h with
    cells := Arena.put h.cells id cell
    nextId := max h.nextId (id + 1)
    length_cells_le := by
      rw [Arena.length_put]
      exact max_le_max h.length_cells_le le_rfl }

/-- `insert_key` -/
def insertKey (h : Hive) (k : KeyCell) : Hive := h.insertCell k.id (.key k)

/-- The value is listed by its key if that is there already. -/
def insertValue (h : Hive) (v : ValueCell) : Hive :=
  let h := h.insertCell v.id (.value v)
  (h.keyMut v.parentKey fun k => { k with values := k.values ++ [v.id] }).getD h

/-- Every key with a parent, as a pair with the parent first. -/
def links (h : Hive) : List (CellId × CellId) :=
  h.cells.filterMap fun c =>
    match c with
    | some (.key k) => k.parent.map fun p => (p, k.id)
    | _ => none

/-- `relink_subkeys` -/
def relinkSubkeys (h : Hive) : Hive :=
  h.links.foldl (fun h link =>
    (h.keyMut link.1 fun k => { k with subkeys := k.subkeys ++ [link.2] }).getD h) h

end Hive

namespace Decoder

/-- The position of a payload, looked for among those of its length and checksum. -/
def internDecodedValueData (d : Decoder) (data : Bytes) : ℕ × Decoder :=
  let index := (data.length, (crc32c data).toNat)
  let bucket := (d.blobIndex.filter fun entry => entry.1 = index).map Prod.snd
  match bucket.find? fun i => d.hive.valueBlobs[i]? = some data with
  | some i => (i, d)
  | none =>
    let blob := d.hive.valueBlobs.length
    (blob,
      { d with
        hive := { d.hive with valueBlobs := d.hive.valueBlobs ++ [data] }
        blobIndex := d.blobIndex ++ [(index, blob)] })

/-- `decode_image` on a key record. -/
def addKey (d : Decoder) (root : CellId) (r : KeyRecord) : Decoder :=
  let (id, idMap) := mapDecodedCellId d.idMap r.id
  -- the root has no parent, whatever the record says
  let (parent, idMap) :=
    if r.id = root then (none, idMap)
    else
      let (parent, idMap) := mapDecodedCellId idMap r.parent
      (some parent, idMap)
  { d with
    hive := d.hive.insertKey
      { kind := r.kind, id := id, parent := parent, name := r.name, subkeys := [], values := [],
        className := r.className, securityDescriptor := r.securityDescriptor,
        lastWriteSequence := r.sequence, volatile := false }
    idMap := idMap }

/-- `decode_image` on a value record. -/
def addValue (d : Decoder) (r : ValueRecord) : Except HiveDecodeError Decoder :=
  match compactCellId d.idMap r.parentKey with
  | none => .error .truncated
  | some parentKey =>
    let (id, idMap) := mapDecodedCellId d.idMap r.id
    let (blob, d) := d.internDecodedValueData r.data
    match RegistryValueType.fromU32 r.valueType with
    | none => .error (.unsupportedValueType r.valueType)
    | some valueType => .ok
        { d with
          hive := d.hive.insertValue
            { id := id, parentKey := parentKey, name := r.name, valueType := valueType,
              dataBlob := blob, lastWriteSequence := r.sequence }
          idMap := idMap }

/-- One round of the loop of `decode_image`. -/
def addRecord (root : CellId) (d : Decoder) : Record → Except HiveDecodeError Decoder
  | .key r => .ok (d.addKey root r)
  | .value r => d.addValue r

end Decoder

open Reader Parser in
theorem readOptional_shrinks {α : Type} {p : Parser HiveDecodeError α} (hp : Shrinks p) :
    Shrinks (readOptional p) := by
  refine (word_width _ 1).shrinks.bind fun present => ?_
  split
  · exact Shrinks.pure _
  · exact hp.bind fun _ => Shrinks.pure _

open Reader Parser in
theorem readRecord_length_lt {schema : ℕ} {input rest : Bytes} {r : Record}
    (h : readRecord schema input = .ok (r, rest)) : rest.length < input.length := by
  have hword : ∀ w, Shrinks (word HiveDecodeError.truncated w) := fun w =>
    (word_width _ w).shrinks
  have hstr : Shrinks (str16 HiveDecodeError.truncated) := str16_shrinks _
  have hblob : Shrinks (blob HiveDecodeError.truncated) := blob_shrinks _
  have hdescriptor : Shrinks (readSecurityDescriptor schema) := by
    unfold readSecurityDescriptor
    split
    · exact readOptional_shrinks hblob
    · exact Shrinks.pure _
  refine (word_width HiveDecodeError.truncated 2).bind_lt (fun tag => ?_) h
  split
  · exact (hword 8).bind fun _ => (hword 8).bind fun _ => hstr.bind fun _ =>
      (hword 4).bind fun _ => (Shrinks.lift _).bind fun _ => (readOptional_shrinks hstr).bind
        fun _ => hdescriptor.bind fun _ => (hword 8).bind fun _ => Shrinks.pure _
  · split
    · exact (hword 8).bind fun _ => (hword 8).bind fun _ => hstr.bind fun _ =>
        (hword 4).bind fun _ => hblob.bind fun _ => (hword 8).bind fun _ => Shrinks.pure _
    · exact Shrinks.fail _

/-- The records of a payload are read and inserted one after the other. -/
def decodeRecords (schema : ℕ) (root : CellId) (d : Decoder) (payload : Bytes) :
    Except HiveDecodeError Decoder :=
  if payload = [] then .ok d
  else
    match hr : readRecord schema payload with
    | .error e => .error e
    | .ok (r, rest) =>
      have := readRecord_length_lt hr
      match d.addRecord root r with
      | .error e => .error e
      | .ok d => decodeRecords schema root d rest
termination_by payload.length

/-- The header of an image. -/
structure ImageHeader where
  schema : ℕ
  kind : HiveKind
  generation : ℕ
  sequence : ℕ
  rootCell : ℕ
  payloadLen : ℕ
  payloadCrc : ℕ
  headerCrc : ℕ

open Reader in
/-- The header, with the checks `decode_image` makes while it reads it. -/
def readImageHeader : Parser HiveDecodeError ImageHeader := do
  let magic ← Parser.take .truncated 8
  if magic ≠ imageMagic then Parser.fail .badMagic
  else do
    let _ ← u16 .truncated
    let schema ← u16 .truncated
    if ¬ (minSchemaVersion ≤ schema ∧ schema ≤ schemaVersion) then
      Parser.fail .unsupportedSchema
    else do
      let _ ← u32 .truncated
      let kind ← u32 .truncated
      let kind ← Parser.lift (Result.orError (HiveKind.fromU32 kind) .unsupportedSchema)
      let generation ← u64 .truncated
      let sequence ← u64 .truncated
      let rootCell ← u64 .truncated
      let _ ← u64 .truncated
      let payloadLen ← u64 .truncated
      let payloadCrc ← u32 .truncated
      let headerCrc ← u32 .truncated
      return { schema, kind, generation, sequence, rootCell, payloadLen, payloadCrc, headerCrc }

/-- A hive is built from the records of a payload. -/
def decodePayload (schema : ℕ) (kind : HiveKind) (generation sequence root : ℕ) (payload : Bytes) :
    Except HiveDecodeError Hive := do
  let d ← decodeRecords schema root
    { hive := Hive.empty kind 0 generation sequence, idMap := [root], blobIndex := [] } payload
  return d.hive.relinkSubkeys

/-- `decode_image`.  The source adds the lengths of header and payload in a `usize`; where the
sum reaches 2⁶⁴, which panics in a build with overflow checks, the image counts as truncated
here, as no slice is that long. -/
def decodeImage (bytes : Bytes) : Except HiveDecodeError Hive :=
  (readImageHeader bytes).bind fun (header, _) =>
  if (crc32c (bytes.take (imageHeaderLen - 4))).toNat ≠ header.headerCrc then
    .error .badChecksum
  else if bytes.length < imageHeaderLen + header.payloadLen then .error .truncated
  else
    let payload := (bytes.drop imageHeaderLen).take header.payloadLen
    if (crc32c payload).toNat ≠ header.payloadCrc then .error .badChecksum
    else decodePayload header.schema header.kind header.generation header.sequence
      header.rootCell payload

end UserspaceNtos.HiveCore
