import UserspaceNtos.Fs.BlockDevice
import UserspaceNtos.Lib.LittleEndian
import UserspaceNtos.ConfigStore.Crc32c

/-!
# Snapshot slot headers

The header sector of a commit slot of `snapshot_store.rs`: `encode_header`,
`decode_header` and the WAL manifest that versions two and three carry.
`decodeHeader_encodeHeader` is the round trip.
-/

namespace UserspaceNtos.Fs

open LittleEndian ConfigStore List

/-- `WalSnapshotAnchor` -/
structure WalSnapshotAnchor where
  incarnation : ℕ
  serial : ℕ
  endLba : ℕ
  deriving DecidableEq, Repr

/-- `WalSnapshotManifest` -/
structure WalSnapshotManifest where
  incarnation : ℕ
  baseSerial : ℕ
  highWaterSerial : ℕ
  highWaterEndLba : ℕ
  deriving DecidableEq, Repr

namespace WalSnapshotManifest

/-- `anchor` -/
def anchor (manifest : WalSnapshotManifest) : WalSnapshotAnchor :=
  ⟨manifest.incarnation, manifest.highWaterSerial, manifest.highWaterEndLba⟩

/-- `valid` -/
def valid (manifest : WalSnapshotManifest) : Bool :=
  manifest.incarnation ≠ 0
    && manifest.baseSerial ≤ manifest.highWaterSerial
    && ((manifest.highWaterSerial = 0 && manifest.highWaterEndLba = 0)
      || (manifest.highWaterSerial ≠ 0 && manifest.highWaterEndLba ≠ 0))

/-- The fields of the source are `u64`. -/
structure Fits (manifest : WalSnapshotManifest) : Prop where
  incarnation : manifest.incarnation < 2 ^ 64
  baseSerial : manifest.baseSerial < 2 ^ 64
  highWaterSerial : manifest.highWaterSerial < 2 ^ 64
  highWaterEndLba : manifest.highWaterEndLba < 2 ^ 64

/-- The manifest as it stands in a header. -/
def fields (manifest : WalSnapshotManifest) : List (ℕ × ℕ) :=
  [(8, manifest.incarnation), (8, manifest.baseSerial), (8, manifest.highWaterSerial),
    (8, manifest.highWaterEndLba)]

theorem baseSerial_le_of_valid {manifest : WalSnapshotManifest} (h : manifest.valid = true) :
    manifest.baseSerial ≤ manifest.highWaterSerial := by
  simp only [valid, Bool.and_eq_true, decide_eq_true_eq] at h
  exact h.1.2

end WalSnapshotManifest

/-- `SlotHeader` -/
structure SlotHeader where
  slot : ℕ
  generation : ℕ
  payloadLen : ℕ
  payloadCrc : BitVec 32
  payloadSectors : ℕ
  wal : Option WalSnapshotManifest
  resetting : Bool
  deriving DecidableEq, Repr

/-- `STORE_MAGIC`, the bytes of `USNTSNP` and a zero. -/
def storeMagic : List UInt8 := [0x55, 0x53, 0x4E, 0x54, 0x53, 0x4E, 0x50, 0x00]

/-- `HEADER_LEN` -/
def headerLen : ℕ := 48

/-- `WAL_HEADER_LEN` -/
def walHeaderLen : ℕ := 80

/-- `WAL_RESET_HEADER_LEN` -/
def walResetHeaderLen : ℕ := 84

namespace SlotHeader

/-- The length `encode_header` writes. -/
def encodedLen (header : SlotHeader) : ℕ :=
  if header.resetting then walResetHeaderLen
  else if header.wal.isSome then walHeaderLen
  else headerLen

/-- The version `encode_header` writes: `STORE_VERSION`, `WAL_STORE_VERSION` or
`WAL_RESET_VERSION`. -/
def version (header : SlotHeader) : ℕ :=
  if header.resetting then 3 else if header.wal.isSome then 2 else 1

/-- The fields behind the magic that every version has. -/
def commonFields (header : SlotHeader) : List (ℕ × ℕ) :=
  [(2, header.encodedLen), (2, header.version), (4, 0), (8, header.generation),
    (8, header.payloadLen), (4, header.payloadCrc.toNat), (4, header.payloadSectors),
    (4, header.slot)]

/-- The fields behind those: the manifest, and the mark of a reset. -/
def walFields (header : SlotHeader) : List (ℕ × ℕ) :=
  (match header.wal with
    | some manifest => manifest.fields
    | none => if header.resetting then [(8, 0), (8, 0), (8, 0), (8, 0)] else [])
    ++ if header.resetting then [(4, 1)] else []

/-- The bytes in front of the header checksum. -/
def body (header : SlotHeader) : List UInt8 :=
  storeMagic ++ pack (header.commonFields ++ header.walFields)

/-- `encode_header` into a zeroed sector. -/
def encodeHeader (size : ℕ) (header : SlotHeader) : Sector size :=
  Sector.pad size (header.body ++ leBytes 4 (crc32c header.body).toNat)

end SlotHeader

/-- The header length that `decode_header` accepts for a version. -/
def acceptedLen (bytes : List UInt8) (version len : ℕ) : Option ℕ :=
  if version = 1 ∧ len = headerLen then some headerLen
  else if version = 2 ∧ len = walHeaderLen ∧ walHeaderLen ≤ bytes.length then some walHeaderLen
  else if version = 3 ∧ len = walResetHeaderLen ∧ walResetHeaderLen ≤ bytes.length then
    some walResetHeaderLen
  else none

/-- The manifest fields of a header. -/
def readManifest (bytes : List UInt8) : WalSnapshotManifest :=
  ⟨sliceNat bytes 44 8, sliceNat bytes 52 8, sliceNat bytes 60 8, sliceNat bytes 68 8⟩

/-- The fields of a header of the given version. -/
def readHeader (bytes : List UInt8) (version : ℕ) (wal : Option WalSnapshotManifest) : SlotHeader :=
  { slot := sliceNat bytes 40 4
    generation := sliceNat bytes 16 8
    payloadLen := sliceNat bytes 24 8
    payloadCrc := BitVec.ofNat 32 (sliceNat bytes 32 4)
    payloadSectors := sliceNat bytes 36 4
    wal := wal
    resetting := version = 3 }

/-- `decode_header` once the version and the length are accepted. -/
def decodeVersion (bytes : List UInt8) (version len : ℕ) :
    Except SnapshotBlockStoreError (Option SlotHeader) :=
  if (crc32c (bytes.take (len - 4))).toNat ≠ sliceNat bytes (len - 4) 4 then .error .corrupt
  else if version = 3 ∧ sliceNat bytes 76 4 ≠ 1 then .error .corrupt
  else if version = 2 ∨ version = 3 then
    if (readManifest bytes).valid then .ok (some (readHeader bytes version (readManifest bytes)))
    else .error .corrupt
  else .ok (some (readHeader bytes version none))

/-- `decode_header` -/
def decodeHeader (bytes : List UInt8) : Except SnapshotBlockStoreError (Option SlotHeader) :=
  if bytes.length < headerLen then .error .invalidGeometry
  else if (bytes.take headerLen).all (fun byte => byte = 0) then .ok none
  else if bytes.take 8 ≠ storeMagic then .error .corrupt
  else
    match acceptedLen bytes (sliceNat bytes 10 2) (sliceNat bytes 8 2) with
    | none => .error .corrupt
    | some len => decodeVersion bytes (sliceNat bytes 10 2) len

/-! ## The round trip -/

/-- A header that can be written to sectors of `size` bytes and read back. -/
structure SlotHeader.Encodable (size : ℕ) (header : SlotHeader) : Prop where
  fits_sector : header.encodedLen ≤ size
  slot : header.slot < 2 ^ 32
  generation : header.generation < 2 ^ 64
  payloadLen : header.payloadLen < 2 ^ 64
  payloadSectors : header.payloadSectors < 2 ^ 32
  wal : ∀ manifest, header.wal = some manifest → manifest.Fits ∧ manifest.valid = true
  wal_of_resetting : header.resetting = true → header.wal.isSome = true

namespace SlotHeader

variable {size : ℕ} {header : SlotHeader}

/-- The bytes behind the checksummed part of a header sector. -/
private def trailer (size : ℕ) (header : SlotHeader) : List UInt8 :=
  leBytes 4 (crc32c header.body).toNat ++ List.replicate (size - header.encodedLen) 0

private theorem length_body (hwal : header.resetting = true → header.wal.isSome = true) :
    header.body.length = header.encodedLen - 4 := by
  rcases header with ⟨slot, gen, len, crc, sectors, _ | manifest, _ | _⟩
  · rfl
  · exact absurd (hwal rfl) (by simp)
  · rfl
  · rfl

theorem encodedLen_cases (header : SlotHeader) :
    header.encodedLen = 48 ∨ header.encodedLen = 80 ∨ header.encodedLen = 84 := by
  unfold encodedLen walResetHeaderLen walHeaderLen headerLen
  split_ifs <;> simp

private theorem version_lt (header : SlotHeader) : header.version < 256 ^ 2 := by
  unfold version
  split_ifs <;> decide

section

variable (h : header.Encodable size)
include h

private theorem encodeHeader_val : (header.encodeHeader size).1
      = storeMagic ++ (pack (header.commonFields ++ header.walFields) ++ header.trailer size) := by
  have hlen : (header.body ++ leBytes 4 (crc32c header.body).toNat).length = header.encodedLen := by
    have := header.encodedLen_cases
    rw [length_append, length_body h.wal_of_resetting, length_leBytes]
    omega
  rw [encodeHeader, Sector.pad_val_of_le (hlen.trans_le h.fits_sector), hlen, trailer, body]
  simp only [append_assoc]

private theorem take_body :
    (header.encodeHeader size).1.take (header.encodedLen - 4) = header.body := by
  rw [encodeHeader_val h, ← append_assoc]
  exact take_left' (length_body h.wal_of_resetting)

private theorem slice_checksum : sliceNat (header.encodeHeader size).1 (header.encodedLen - 4) 4
      = (crc32c header.body).toNat := by
  rw [encodeHeader_val h, ← append_assoc]
  show sliceNat (header.body ++ _) _ 4 = _
  rw [sliceNat_append (length_body h.wal_of_resetting) le_rfl, Nat.sub_self, trailer,
    sliceNat_zero_append (BitVec.isLt _)]

/-- A field of the header sector, given by the fields in front of it. -/
private theorem slice_field (before : List (ℕ × ℕ)) {w n : ℕ} (hn : n < 256 ^ w)
    (after : List (ℕ × ℕ))
    (heq : header.commonFields ++ header.walFields = before ++ (w, n) :: after) :
    sliceNat (header.encodeHeader size).1 (8 + width before) w = n := by
  rw [encodeHeader_val h, heq]
  exact sliceNat_pack rfl before hn after _

/-- A field behind the common ones. -/
private theorem slice_walField (before : List (ℕ × ℕ)) {w n : ℕ} (hn : n < 256 ^ w)
    (after : List (ℕ × ℕ)) (heq : header.walFields = before ++ (w, n) :: after) :
    sliceNat (header.encodeHeader size).1 (44 + width before) w = n := by
  have hwidth : 8 + width (header.commonFields ++ before) = 44 + width before := by
    simp only [commonFields, cons_append, nil_append, width]
    omega
  rw [← hwidth]
  exact slice_field h _ hn after (by rw [heq, append_assoc])

variable {bytes : List UInt8}

private theorem acceptedLen_eq (hbytes : bytes.length = size) :
    acceptedLen bytes header.version header.encodedLen = some header.encodedLen := by
  have hfits := h.fits_sector
  have hwal := h.wal_of_resetting
  rw [← hbytes] at hfits
  rcases header with ⟨slot, gen, len, crc, sectors, _ | manifest, _ | _⟩
  · rfl
  · exact absurd (hwal rfl) (by simp)
  · have hle : walHeaderLen ≤ bytes.length := hfits
    simp [acceptedLen, version, encodedLen, hle]
  · have hle : walResetHeaderLen ≤ bytes.length := hfits
    simp [acceptedLen, version, encodedLen, hle]

/-- The fields of a header that was written. -/
private theorem readHeader_encodeHeader (wal : Option WalSnapshotManifest) :
    readHeader (header.encodeHeader size).1 header.version wal
      = { header with wal := wal, resetting := header.version = 3 } := by
  have hgeneration : sliceNat (header.encodeHeader size).1 16 8 = header.generation :=
    slice_field h (header.commonFields.take 3) h.generation _ rfl
  have hpayloadLen : sliceNat (header.encodeHeader size).1 24 8 = header.payloadLen :=
    slice_field h (header.commonFields.take 4) h.payloadLen _ rfl
  have hcrc : sliceNat (header.encodeHeader size).1 32 4 = header.payloadCrc.toNat :=
    slice_field h (header.commonFields.take 5) header.payloadCrc.isLt _ rfl
  have hsectors : sliceNat (header.encodeHeader size).1 36 4 = header.payloadSectors :=
    slice_field h (header.commonFields.take 6) h.payloadSectors _ rfl
  have hslot : sliceNat (header.encodeHeader size).1 40 4 = header.slot :=
    slice_field h (header.commonFields.take 7) h.slot _ rfl
  rw [readHeader, hgeneration, hpayloadLen, hcrc, hsectors, hslot, BitVec.ofNat_toNat,
    BitVec.setWidth_eq]

/-- The manifest of a header that was written. -/
private theorem readManifest_encodeHeader {manifest : WalSnapshotManifest}
    (hman : header.wal = some manifest) : readManifest (header.encodeHeader size).1 = manifest := by
  obtain ⟨hfits, -⟩ := h.wal manifest hman
  have hfields : header.walFields
      = manifest.fields ++ if header.resetting then [(4, 1)] else [] := by
    rw [walFields, hman]
  have hincarnation : sliceNat (header.encodeHeader size).1 44 8 = manifest.incarnation :=
    slice_walField h [] hfits.incarnation _ hfields
  have hbase : sliceNat (header.encodeHeader size).1 52 8 = manifest.baseSerial :=
    slice_walField h (manifest.fields.take 1) hfits.baseSerial _ hfields
  have hhigh : sliceNat (header.encodeHeader size).1 60 8 = manifest.highWaterSerial :=
    slice_walField h (manifest.fields.take 2) hfits.highWaterSerial _ hfields
  have hend : sliceNat (header.encodeHeader size).1 68 8 = manifest.highWaterEndLba :=
    slice_walField h (manifest.fields.take 3) hfits.highWaterEndLba _ hfields
  rw [readManifest, hincarnation, hbase, hhigh, hend]

/-- The mark of a reset. -/
private theorem slice_resetMark (hreset : header.resetting = true) :
    sliceNat (header.encodeHeader size).1 76 4 = 1 := by
  obtain ⟨manifest, hman⟩ := Option.isSome_iff_exists.mp (h.wal_of_resetting hreset)
  have hfields : header.walFields = manifest.fields ++ [(4, 1)] := by
    simp only [walFields, hman, hreset, if_true]
  exact slice_walField h manifest.fields (by decide) [] hfields

private theorem decodeVersion_encodeHeader :
    decodeVersion (header.encodeHeader size).1 header.version header.encodedLen
      = .ok (some header) := by
  have heta : ∀ wal resetting, header.wal = wal → header.resetting = resetting →
      { header with wal := wal, resetting := resetting } = header := by
    rintro wal resetting rfl rfl
    rfl
  rw [decodeVersion, take_body h, slice_checksum h, if_neg (by simp), readHeader_encodeHeader h,
    readHeader_encodeHeader h]
  cases hman : header.wal with
  | none =>
    have hreset : header.resetting = false := by
      have := h.wal_of_resetting
      simpa [hman] using this
    have hversion : header.version = 1 := by simp [version, hreset, hman]
    rw [hversion, if_neg (by simp), if_neg (by decide)]
    exact congrArg (Except.ok ∘ some) (heta none false hman hreset)
  | some manifest =>
    rw [readManifest_encodeHeader h hman, if_pos (h.wal manifest hman).2]
    cases hreset : header.resetting with
    | false =>
      have hversion : header.version = 2 := by simp [version, hreset, hman]
      rw [hversion, if_neg (by simp), if_pos (by decide)]
      exact congrArg (Except.ok ∘ some) (heta (some manifest) false hman hreset)
    | true =>
      have hversion : header.version = 3 := by simp [version, hreset]
      rw [hversion, if_neg (by simp [slice_resetMark h hreset]), if_pos (by decide)]
      exact congrArg (Except.ok ∘ some) (heta (some manifest) true hman hreset)

/-- A header that was written is read back. -/
theorem decodeHeader_encodeHeader :
    decodeHeader (header.encodeHeader size).1 = .ok (some header) := by
  have hcases := header.encodedLen_cases
  have hsize : 48 ≤ size := Nat.le_trans (by omega) h.fits_sector
  have hlen : (header.encodeHeader size).1.length = size := (header.encodeHeader size).2
  have hmagic : (header.encodeHeader size).1.take 8 = storeMagic := by
    rw [encodeHeader_val h]
    exact take_left' rfl
  have hnonzero : ¬ ((header.encodeHeader size).1.take headerLen).all (fun byte => byte = 0)
      = true := by
    intro hall
    have htake : ((header.encodeHeader size).1.take headerLen).take 8 = storeMagic := by
      rw [take_take, show min 8 headerLen = 8 by decide, hmagic]
    have hmem : (0x55 : UInt8) ∈ (header.encodeHeader size).1.take headerLen :=
      mem_of_mem_take (htake ▸ (by decide : (0x55 : UInt8) ∈ storeMagic))
    have := all_eq_true.mp hall _ hmem
    simp at this
  have hversion : sliceNat (header.encodeHeader size).1 10 2 = header.version :=
    slice_field h [(2, header.encodedLen)] header.version_lt _ rfl
  have hlenField : sliceNat (header.encodeHeader size).1 8 2 = header.encodedLen :=
    slice_field h [] (by omega) _ rfl
  have haccepted : acceptedLen (header.encodeHeader size).1 header.version header.encodedLen
      = some header.encodedLen := acceptedLen_eq h hlen
  rw [decodeHeader, if_neg (by unfold headerLen; omega), if_neg hnonzero, if_neg (by simp [hmagic]),
    hversion, hlenField, haccepted]
  exact decodeVersion_encodeHeader h

end

end SlotHeader

/-! ## What decoding guarantees -/

variable {bytes : List UInt8}

private theorem acceptedLen_eq_some {version len found : ℕ}
    (h : acceptedLen bytes version len = some found) :
    version = 1 ∨ version = 2 ∧ walHeaderLen ≤ bytes.length
      ∨ version = 3 ∧ walResetHeaderLen ≤ bytes.length := by
  unfold acceptedLen at h
  split_ifs at h with h₁ h₂ h₃
  · exact Or.inl h₁.1
  · exact Or.inr (Or.inl ⟨h₂.1, h₂.2.2⟩)
  · exact Or.inr (Or.inr ⟨h₃.1, h₃.2.2⟩)

private theorem readManifest_fits (bytes : List UInt8) : (readManifest bytes).Fits :=
  ⟨sliceNat_lt bytes 44 8, sliceNat_lt bytes 52 8, sliceNat_lt bytes 60 8, sliceNat_lt bytes 68 8⟩

private theorem encodable_readHeader {version : ℕ}
    {wal : Option WalSnapshotManifest}
    (hlen : (readHeader bytes version wal).encodedLen ≤ bytes.length)
    (hwal : ∀ manifest, wal = some manifest → manifest.Fits ∧ manifest.valid = true)
    (hreset : version = 3 → wal.isSome = true) :
    (readHeader bytes version wal).Encodable bytes.length where
  fits_sector := hlen
  slot := sliceNat_lt bytes 40 4
  generation := sliceNat_lt bytes 16 8
  payloadLen := sliceNat_lt bytes 24 8
  payloadSectors := sliceNat_lt bytes 36 4
  wal := hwal
  wal_of_resetting h := hreset (of_decide_eq_true h)

/-- A header that was read can be written to the sector it was read from. -/
theorem decodeHeader_encodable {header : SlotHeader}
    (h : decodeHeader bytes = .ok (some header)) : header.Encodable bytes.length := by
  rw [decodeHeader] at h
  split_ifs at h with hshort hzero hmagic
  · cases h
  cases haccepted : acceptedLen bytes (sliceNat bytes 10 2) (sliceNat bytes 8 2) with
  | none =>
    rw [haccepted] at h
    cases h
  | some len =>
    rw [haccepted] at h
    have hversions := acceptedLen_eq_some haccepted
    simp only [decodeVersion] at h
    split_ifs at h with hcrc hmark hversion hvalid
    · cases h
      refine encodable_readHeader ?_ ?_ fun _ => rfl
      · unfold SlotHeader.encodedLen readHeader walResetHeaderLen walHeaderLen at *
        split_ifs with hreset
        · have := of_decide_eq_true hreset
          omega
        · have := fun h3 => hreset (decide_eq_true h3)
          omega
        · exact absurd rfl ‹_›
      · rintro manifest ⟨⟩
        exact ⟨readManifest_fits bytes, hvalid⟩
    · cases h
      have hone : sliceNat bytes 10 2 = 1 := by omega
      refine encodable_readHeader ?_ nofun fun hthree => ?_
      · rw [hone]
        exact Nat.le_of_not_lt hshort
      · exact absurd (Or.inr hthree) hversion

end UserspaceNtos.Fs
