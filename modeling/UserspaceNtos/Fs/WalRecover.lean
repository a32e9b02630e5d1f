import UserspaceNtos.Fs.RegistryWal
import UserspaceNtos.Lib.Result

/-!
# Recovery of a described image

The scan of `recover` on the contents described below.  Each stage of the scan has one
lemma: the header fields that were written are read back (`framedSector_*`), the
payload loop collects the payload chunk by chunk (`readPayload_eq`), the batched
tail check decides `ZeroFrom` (`zeroSuffix_eq`), and a complete frame is read as
committed (`readFrame_of_frameAt`).  The scan then walks over the committed prefix
(`scan_of_framesAt`) and stops at the tail.  It reads the range of the log only
(`recover_congr`).
-/

namespace UserspaceNtos.Fs

open LittleEndian ConfigStore RegistryWal List

/-!
## What the log leaves on a disk, and what recovery reads back

The contents of a log range are described by the payloads of its complete frames:
`CommittedPrefix S m ps` says that the frames of `ps` stand back to back from the
start of the range, with the serials from one on.  Behind such a prefix three
tails matter:

* `Settled`: nothing but zeros;
* `Unmarked`: the PREPARE header of one more frame, any payload sectors, and zeros
  from its marker on;
* `Torn`: a zero sector with a nonzero one somewhere behind it.

`recover_of_settled`, `recover_of_unmarked` and `recover_of_torn` say what the scan
makes of each of them.
-/

/-- A log range and an incarnation that `recover` admits, on a device whose sector
numbers and buffers fit the machine. -/
structure WalSite where
  size : ℕ
  device : BlockRange
  incarnation : ℕ
  headerBytes_le : headerBytes ≤ size
  three_le_sectors : 3 ≤ device.sectors
  incarnation_ne_zero : incarnation ≠ 0
  incarnation_lt : incarnation < 2 ^ 64
  addressable : device.Addressable
  batch_lt : size * batchSectors < 2 ^ 64

/-- The contents of a device with the sectors of a site. -/
abbrev WalSite.Contents (S : WalSite) : Type := ℕ → Sector S.size

/-- `recover` on a device with the contents `m`. -/
def WalSite.recover (S : WalSite) (m : S.Contents) : Except RegistryWalError (RegistryWal S.size) :=
  RegistryWal.recover S.device (readAll m) S.incarnation

namespace WalSite

variable (S : WalSite)

/-- Sector `lba` of the log range. -/
def sector (m : S.Contents) (lba : ℕ) : Sector S.size := m (S.device.start + lba)

/-- The PREPARE header of a record. -/
def prepareSector (serial : ℕ) (payload : List UInt8) : Sector S.size :=
  framedSector S.size prepareMagic S.incarnation serial payload.length (crc32c payload)

/-- The COMMIT marker of a record. -/
def commitSector (serial : ℕ) (payload : List UInt8) : Sector S.size :=
  framedSector S.size commitMagic S.incarnation serial payload.length (crc32c payload)

/-- The payload sectors of a frame. -/
def chunks (payload : List UInt8) : ℕ := chunkCount S.size payload

/-- The end of the frames of `ps` when the first starts at `cursor`. -/
def framesEnd : ℕ → List (List UInt8) → ℕ
  | cursor, [] => cursor
  | cursor, p :: ps => framesEnd (cursor + 1 + S.chunks p + 1) ps

/-- The ends of the frames of `ps`, one by one. -/
def frameEnds : ℕ → List (List UInt8) → List ℕ
  | _, [] => []
  | cursor, p :: ps => (cursor + 1 + S.chunks p + 1) :: frameEnds (cursor + 1 + S.chunks p + 1) ps

theorem size_pos : 0 < S.size := Nat.lt_of_lt_of_le (by decide) S.headerBytes_le

end WalSite

/-- The payloads `begin` accepts. -/
def ValidPayload (payload : List UInt8) : Prop := payload ≠ [] ∧ payload.length < 2 ^ 32

instance (payload : List UInt8) : Decidable (ValidPayload payload) :=
  inferInstanceAs (Decidable (_ ∧ _))

/-- The records of `ps` with the serials from `serial` on. -/
def numbered : ℕ → List (List UInt8) → List RegistryWalRecord
  | _, [] => []
  | serial, p :: ps => ⟨serial, p⟩ :: numbered (serial + 1) ps

@[simp] theorem numbered_payloads (serial : ℕ) (ps : List (List UInt8)) :
    (numbered serial ps).map RegistryWalRecord.payload = ps := by
  induction ps generalizing serial with
  | nil => rfl
  | cons p ps ih => rw [numbered, map_cons, ih]

theorem numbered_append (serial : ℕ) (ps : List (List UInt8)) (q : List UInt8) :
    numbered serial (ps ++ [q]) = numbered serial ps ++ [⟨serial + ps.length, q⟩] := by
  induction ps generalizing serial with
  | nil => rfl
  | cons p ps ih =>
    rw [cons_append, numbered, ih, numbered, length_cons]
    congr 4
    omega

variable {S : WalSite} {m : S.Contents}

/-! ### Descriptions of the contents -/

/-- A complete frame at `cursor`. -/
structure FrameAt (S : WalSite) (m : S.Contents) (cursor serial : ℕ) (payload : List UInt8) :
    Prop where
  header : S.sector m cursor = S.prepareSector serial payload
  chunk : ∀ i < S.chunks payload, S.sector m (cursor + 1 + i) = payloadSector S.size payload i
  marker : S.sector m (cursor + 1 + S.chunks payload) = S.commitSector serial payload

/-- The complete frames of `ps`, back to back from `cursor`. -/
def FramesAt (S : WalSite) (m : S.Contents) : ℕ → ℕ → List (List UInt8) → Prop
  | _, _, [] => True
  | cursor, serial, p :: ps =>
    FrameAt S m cursor serial p ∧ FramesAt S m (cursor + 1 + S.chunks p + 1) (serial + 1) ps

/-- Nothing but zeros from `lba` to the end of the range. -/
def ZeroFrom (S : WalSite) (m : S.Contents) (lba : ℕ) : Prop :=
  ∀ i, lba ≤ i → i < S.device.sectors → S.sector m i = Sector.zero S.size

instance (lba : ℕ) : Decidable (ZeroFrom S m lba) :=
  inferInstanceAs (Decidable (∀ i, lba ≤ i → i < S.device.sectors → _))

theorem ZeroFrom.mono {lba lba' : ℕ} (h : ZeroFrom S m lba) (hle : lba ≤ lba') :
    ZeroFrom S m lba' :=
  fun i hi hlt => h i (hle.trans hi) hlt

/-- The range starts with the complete frames of `ps`. -/
structure CommittedPrefix (S : WalSite) (m : S.Contents) (ps : List (List UInt8)) : Prop where
  frames : FramesAt S m 0 1 ps
  room : S.framesEnd 0 ps ≤ S.device.sectors
  valid : ∀ p ∈ ps, ValidPayload p

/-- The frames of `ps`, and zeros behind them. -/
structure Settled (S : WalSite) (m : S.Contents) (ps : List (List UInt8)) : Prop
    extends CommittedPrefix S m ps where
  blank : ZeroFrom S m (S.framesEnd 0 ps)

/-- There is room for the frame of `q` behind the frames of `ps`. -/
structure Admitted (S : WalSite) (ps : List (List UInt8)) (q : List UInt8) : Prop where
  valid : ValidPayload q
  room : S.framesEnd 0 ps + 1 + S.chunks q + 1 ≤ S.device.sectors

/-- The frames of `ps`, then the PREPARE header of `q`, any payload sectors, and zeros
from the marker on. -/
structure Unmarked (S : WalSite) (m : S.Contents) (ps : List (List UInt8)) (q : List UInt8) : Prop
    extends CommittedPrefix S m ps where
  admitted : Admitted S ps q
  header : S.sector m (S.framesEnd 0 ps) = S.prepareSector (ps.length + 1) q
  blank : ZeroFrom S m (S.framesEnd 0 ps + 1 + S.chunks q)

/-- The frames of `ps`, then a zero sector with a nonzero one behind it. -/
structure Torn (S : WalSite) (m : S.Contents) (ps : List (List UInt8)) : Prop
    extends CommittedPrefix S m ps where
  lt : S.framesEnd 0 ps < S.device.sectors
  hole : S.sector m (S.framesEnd 0 ps) = Sector.zero S.size
  remains : ¬ ZeroFrom S m (S.framesEnd 0 ps + 1)

section

variable (cursor : ℕ) (ps : List (List UInt8))

theorem framesEnd_append (q : List UInt8) :
    S.framesEnd cursor (ps ++ [q]) = S.framesEnd cursor ps + 1 + S.chunks q + 1 := by
  induction ps generalizing cursor with
  | nil => rfl
  | cons p ps ih => exact ih _

theorem frameEnds_append (q : List UInt8) : S.frameEnds cursor (ps ++ [q])
      = S.frameEnds cursor ps ++ [S.framesEnd cursor ps + 1 + S.chunks q + 1] := by
  induction ps generalizing cursor with
  | nil => rfl
  | cons p ps ih => exact congrArg _ (ih _)

/-- Every frame takes two sectors at least, so serials never run out. -/
theorem add_length_le_framesEnd : cursor + 2 * ps.length ≤ S.framesEnd cursor ps := by
  induction ps generalizing cursor with
  | nil => exact le_rfl
  | cons p ps ih =>
    have := ih (cursor + 1 + S.chunks p + 1)
    rw [WalSite.framesEnd, length_cons]
    omega

theorem le_framesEnd : cursor ≤ S.framesEnd cursor ps :=
  (Nat.le_add_right _ _).trans (add_length_le_framesEnd cursor ps)

end

variable {ps : List (List UInt8)}

theorem framesAt_append {cursor serial : ℕ} {q : List UInt8} :
    FramesAt S m cursor serial (ps ++ [q]) ↔ FramesAt S m cursor serial ps
        ∧ FrameAt S m (S.framesEnd cursor ps) (serial + ps.length) q := by
  induction ps generalizing cursor serial with
  | nil => simp [FramesAt, WalSite.framesEnd]
  | cons p ps ih =>
    rw [cons_append, FramesAt, ih, FramesAt, WalSite.framesEnd, length_cons, and_assoc,
      Nat.add_right_comm serial 1, ← Nat.add_assoc]

/-- Frames depend on the sectors up to their end only. -/
theorem FramesAt.congr {m' : S.Contents} {cursor serial : ℕ}
    (h : FramesAt S m cursor serial ps)
    (heq : ∀ i < S.framesEnd cursor ps, S.sector m' i = S.sector m i) :
    FramesAt S m' cursor serial ps := by
  induction ps generalizing cursor serial with
  | nil => trivial
  | cons p ps ih =>
    obtain ⟨hframe, hrest⟩ := h
    have hle := le_framesEnd (S := S) (cursor + 1 + S.chunks p + 1) ps
    have hlow : ∀ i < cursor + 1 + S.chunks p + 1, S.sector m' i = S.sector m i :=
      fun i hi => heq i (hi.trans_le hle)
    refine ⟨⟨?_, fun i hi => ?_, ?_⟩, ih hrest heq⟩
    · rw [hlow _ (by omega), hframe.header]
    · rw [hlow _ (by omega), hframe.chunk i hi]
    · rw [hlow _ (by omega), hframe.marker]

theorem CommittedPrefix.congr {m' : S.Contents}
    (h : CommittedPrefix S m ps)
    (heq : ∀ i < S.framesEnd 0 ps, S.sector m' i = S.sector m i) : CommittedPrefix S m' ps :=
  ⟨h.frames.congr heq, h.room, h.valid⟩

/-! ## Reading a framed sector -/

section Header

variable {size : ℕ} {magic : List UInt8} {incarnation serial len : ℕ} {crc : BitVec 32}

section

variable (hmagic : magic.length = 8)
include hmagic

theorem length_framedBytes : (framedBytes magic incarnation serial len crc).length = 32 := by
  simp [framedBytes, hmagic]

section

variable (hsize : headerBytes ≤ size)
include hsize

private theorem framedSector_val : (framedSector size magic incarnation serial len crc).1
      = framedBytes magic incarnation serial len crc
        ++ (leBytes 4 (crc32c (framedBytes magic incarnation serial len crc)).toNat
        ++ List.replicate (size - headerBytes) 0) := by
  have hlen : (framedBytes magic incarnation serial len crc
      ++ leBytes 4 (crc32c (framedBytes magic incarnation serial len crc)).toNat).length
        = headerBytes := by
    rw [length_append, length_framedBytes hmagic]
    rfl
  rw [framedSector, Sector.pad_val_of_le (hlen.trans_le hsize), hlen, append_assoc]

theorem framedSector_take_32 : (framedSector size magic incarnation serial len crc).1.take 32
      = framedBytes magic incarnation serial len crc := by
  rw [framedSector_val hmagic hsize, take_left' (length_framedBytes hmagic)]

theorem framedSector_magic :
    (framedSector size magic incarnation serial len crc).1.take 8 = magic := by
  rw [framedSector_val hmagic hsize, framedBytes]
  simp only [append_assoc]
  exact take_left' hmagic

theorem framedSector_fields (hincarnation : incarnation < 2 ^ 64) (hserial : serial < 2 ^ 64)
    (hlen : len < 2 ^ 32) {bytes : List UInt8}
    (hbytes : bytes = (framedSector size magic incarnation serial len crc).1) :
    sliceNat bytes 8 8 = incarnation ∧ sliceNat bytes 16 8 = serial ∧ sliceNat bytes 24 4 = len ∧
      sliceNat bytes 28 4 = crc.toNat := by
  have hpack : ∃ rest, bytes
      = magic ++ (pack [(8, incarnation), (8, serial), (4, len), (4, crc.toNat)] ++ rest) := by
    rw [hbytes, framedSector_val hmagic hsize, framedBytes]
    simp only [pack, append_assoc, nil_append]
    exact ⟨_, rfl⟩
  obtain ⟨rest, rfl⟩ := hpack
  exact ⟨sliceNat_pack hmagic [] hincarnation _ _,
    sliceNat_pack hmagic [(8, incarnation)] hserial _ _,
    sliceNat_pack hmagic [(8, incarnation), (8, serial)] hlen _ _,
    sliceNat_pack hmagic [(8, incarnation), (8, serial), (4, len)] crc.isLt [] _⟩

theorem framedSector_headerCrc :
    sliceNat (framedSector size magic incarnation serial len crc).1 32 4
      = (crc32c (framedBytes magic incarnation serial len crc)).toNat := by
  rw [framedSector_val hmagic hsize, sliceNat_append (length_framedBytes hmagic) le_rfl,
    Nat.sub_self, sliceNat_zero_append (BitVec.isLt _)]

theorem framedSector_drop : (framedSector size magic incarnation serial len crc).1.drop headerBytes
      = List.replicate (size - headerBytes) 0 := by
  rw [framedSector_val hmagic hsize, ← append_assoc]
  refine drop_left' ?_
  rw [length_append, length_framedBytes hmagic, length_leBytes]
  rfl

theorem framedSector_ne_zero (hne : ∃ b ∈ magic, b ≠ 0) :
    framedSector size magic incarnation serial len crc ≠ Sector.zero size := by
  intro h
  obtain ⟨b, hb, hb0⟩ := hne
  have htake : (framedSector size magic incarnation serial len crc).1.take 8 = magic :=
    framedSector_magic hmagic hsize
  rw [← htake, h] at hb
  exact hb0 (eq_of_mem_replicate (mem_of_mem_take hb))

end

end

end Header

variable {S : WalSite} {m : S.Contents} {payload : List UInt8} {cursor serial : ℕ}
  {ps : List (List UInt8)}

theorem prepareSector_ne_zero (serial : ℕ) (payload : List UInt8) :
    S.prepareSector serial payload ≠ Sector.zero S.size :=
  framedSector_ne_zero rfl S.headerBytes_le ⟨0x55, by decide, by decide⟩

theorem commitSector_ne_zero (serial : ℕ) (payload : List UInt8) :
    S.commitSector serial payload ≠ Sector.zero S.size :=
  framedSector_ne_zero rfl S.headerBytes_le ⟨0x55, by decide, by decide⟩

/-! ## The tail check -/

theorem readSector_readAll {lba : ℕ} (h : lba < S.device.sectors) :
    S.device.readSector (readAll m) lba = .ok (S.sector m lba) :=
  BlockRange.readSector_of_lt S.addressable _ h

private theorem zeroSuffixLoop_eq (lba : ℕ) :
    zeroSuffixLoop S.device (readAll m) lba = .ok (decide (ZeroFrom S m lba)) := by
  induction lba using zeroSuffixLoop.induct S.device (readAll m) with
  | case1 lba hlt e hread =>
    rw [BlockRange.readSectors_readAll S.addressable (by unfold batchSectors; omega)
      (by omega)] at hread
    cases hread
  | case2 lba hlt batch hread hall ih =>
    rw [zeroSuffixLoop, dif_pos hlt, hread]
    simp only
    rw [if_pos hall, ih]
    rw [BlockRange.readSectors_readAll S.addressable (by unfold batchSectors; omega) (by omega),
      Except.ok.injEq] at hread
    subst hread
    congr 2
    refine propext ⟨fun h i hi hlt' => ?_, fun h i hi => h i (by omega)⟩
    by_cases hin : i < lba + min (S.device.sectors - lba) batchSectors
    · rw [all_map, all_eq_true] at hall
      have := hall (i - lba) (mem_range.mpr (by omega))
      rwa [Function.comp_apply, Sector.isZero_iff, Nat.add_sub_cancel' hi] at this
    · exact h i (by omega) hlt'
  | case3 lba hlt batch hread hall =>
    rw [zeroSuffixLoop, dif_pos hlt, hread]
    simp only
    rw [if_neg hall]
    rw [BlockRange.readSectors_readAll S.addressable (by unfold batchSectors; omega) (by omega),
      Except.ok.injEq] at hread
    subst hread
    congr 1
    refine (decide_eq_false fun h => hall ?_).symm
    rw [all_map, all_eq_true]
    intro i hi
    rw [mem_range] at hi
    exact Sector.isZero_iff.mpr (h _ (by omega) (by omega))
  | case4 lba hge =>
    rw [zeroSuffixLoop, dif_neg hge]
    congr 1
    exact (decide_eq_true fun i hi hlt => absurd (hi.trans_lt hlt) hge).symm

/-- The batched tail check decides whether the rest of the range is zero. -/
theorem zeroSuffix_eq (start : ℕ) :
    zeroSuffix S.device (readAll m) start = .ok (decide (ZeroFrom S m (start + 1))) := by
  rw [zeroSuffix, checkedMul_of_lt S.batch_lt]
  exact zeroSuffixLoop_eq _

/-! ## A frame -/

section

variable {start : ℕ} (hroom : start + S.chunks payload ≤ S.device.sectors)
  (hchunk : ∀ i < S.chunks payload, S.sector m (start + i) = payloadSector S.size payload i)
include hroom hchunk

/-- The payload loop, once `k` chunks are collected. -/
private theorem readPayload_range' (k r : ℕ) (hkr : k + r = S.chunks payload) :
    readPayload S.device (readAll m) start payload.length (payload.take (k * S.size))
      (List.range' k r) = .ok payload := by
  have hsize := S.size_pos
  induction r generalizing k with
  | zero =>
    have hall : payload.length ≤ k * S.size := by
      have hlt := Nat.lt_div_mul_add (a := payload.length + (S.size - 1)) hsize
      have hk : k * S.size = (payload.length + (S.size - 1)) / S.size * S.size := by
        rw [show k = S.chunks payload by omega]
        rfl
      omega
    rw [List.range'_zero, readPayload, take_of_length_le hall]
  | succ r ih =>
    have hk : k < S.chunks payload := by omega
    have hchunk_len : ((payload.drop (k * S.size)).take S.size).length
        = min (payload.length - (payload.take (k * S.size)).length) S.size := by
      rw [length_take, length_drop, length_take]
      omega
    have hval : (payloadSector S.size payload k).1 = (payload.drop (k * S.size)).take S.size
        ++ List.replicate (S.size - ((payload.drop (k * S.size)).take S.size).length) 0 :=
      Sector.pad_val_of_le (length_take_le _ _)
    rw [List.range'_succ, readPayload, readSector_readAll (by omega), hchunk k hk]
    show (if _ then _ else _) = _
    rw [if_neg, hval, ← hchunk_len, take_left' rfl, ← take_add, ← Nat.succ_mul]
    · exact ih (k + 1) (by omega)
    · rw [hval, ← hchunk_len, drop_left' rfl]
      rintro ⟨-, hne⟩
      exact hne (all_eq_true.mpr fun b hb => by simpa using eq_of_mem_replicate hb)

/-- The payload loop reads the payload of a frame back. -/
theorem readPayload_eq :
    readPayload S.device (readAll m) start payload.length [] (List.range (S.chunks payload))
      = .ok payload := by
  have h := readPayload_range' hroom hchunk 0 (S.chunks payload) (Nat.zero_add _)
  rwa [Nat.zero_mul, take_zero, ← range_eq_range'] at h

end

theorem payloadSectors_eq (h : ValidPayload payload) :
    payloadSectors payload.length S.size = .ok (S.chunks payload) := by
  have hsize := S.batch_lt
  have hlen := h.2
  unfold batchSectors at hsize
  rw [payloadSectors, checkedAdd_of_lt (by omega)]
  rfl

/-- Behind its header checks a frame that was written is read by its body. -/
private theorem readFrame_of_header (hheader : S.sector m cursor = S.prepareSector serial payload)
    (hvalid : ValidPayload payload) (hcursor : cursor < S.device.sectors)
    (hserial : serial < 2 ^ 64) : readFrame S.device (readAll m) S.incarnation cursor serial
      = readFrameBody S.device (readAll m) S.incarnation cursor serial payload.length
          (crc32c payload) := by
  have hle := S.headerBytes_le
  have hmagic : prepareMagic.length = 8 := rfl
  have hlen : payload.length ≠ 0 := fun h => hvalid.1 (length_eq_zero_iff.mp h)
  obtain ⟨hincarnation', hserial', hlen', hcrc⟩ :=
    framedSector_fields hmagic hle S.incarnation_lt hserial hvalid.2 rfl
  rw [readFrame, readSector_readAll hcursor, hheader]
  show (if _ then _ else _) = _
  rw [if_neg (by rw [Sector.isZero_iff]; exact prepareSector_ne_zero _ _), WalSite.prepareSector,
    framedSector_magic hmagic hle, framedSector_headerCrc hmagic hle,
    framedSector_take_32 hmagic hle, framedSector_drop hmagic hle, hincarnation', hserial', hlen',
    hcrc, if_neg (by simp), if_neg (by simp), if_neg (by simp), if_neg hlen, BitVec.ofNat_toNat,
    BitVec.setWidth_eq]

section

variable (hvalid : ValidPayload payload)
  (hroom : cursor + 1 + S.chunks payload + 1 ≤ S.device.sectors)
include hvalid hroom

/-- The marker of a frame stands behind its payload sectors. -/
private theorem readFrameBody_eq :
    readFrameBody S.device (readAll m) S.incarnation cursor serial payload.length (crc32c payload)
      = if S.sector m (cursor + 1 + S.chunks payload) = Sector.zero S.size then
          if ZeroFrom S m (cursor + 1 + S.chunks payload + 1) then
            .ok (.unmarked (S.chunks payload))
          else .error .corrupt
        else if S.sector m (cursor + 1 + S.chunks payload) ≠ S.commitSector serial payload then
          .error .corrupt
        else
          (readPayload S.device (readAll m) (cursor + 1) payload.length []
            (List.range (S.chunks payload))).bind fun read =>
              if crc32c read ≠ crc32c payload then .error .corrupt
              else .ok (.committed (S.chunks payload) read) := by
  have haddr := S.addressable
  unfold BlockRange.Addressable at haddr
  rw [readFrameBody, payloadSectors_eq hvalid]
  simp only [bind, Except.bind]
  rw [checkedAdd_of_lt (by omega), Option.bind_some, checkedAdd_of_lt (by omega)]
  show (if _ then _ else _) = _
  rw [if_neg (by omega), readSector_readAll (by omega), zeroSuffix_eq]
  show (if _ then (if _ then _ else _) else _) = _
  simp only [Sector.isZero_iff, decide_eq_true_eq]
  rfl

/-- A complete frame is read as committed. -/
theorem readFrame_of_frameAt (h : FrameAt S m cursor serial payload)
    (hserial : serial < 2 ^ 64) :
    readFrame S.device (readAll m) S.incarnation cursor serial
      = .ok (.committed (S.chunks payload) payload) := by
  rw [readFrame_of_header h.header hvalid (by omega) hserial, readFrameBody_eq hvalid hroom,
    h.marker, if_neg (commitSector_ne_zero _ _), if_neg (by simp),
    readPayload_eq (by omega) h.chunk]
  show (if _ then _ else _) = _
  rw [if_neg (by simp)]

end

/-- A zero sector is the end of the log if the rest is zero, and corruption if not. -/
theorem readFrame_of_zero (hcursor : cursor < S.device.sectors)
    (hzero : S.sector m cursor = Sector.zero S.size) :
    readFrame S.device (readAll m) S.incarnation cursor serial
      = if ZeroFrom S m (cursor + 1) then .ok .blank else .error .corrupt := by
  rw [readFrame, readSector_readAll hcursor, hzero, zeroSuffix_eq]
  show (if _ then (if _ then _ else _) else _) = _
  rw [if_pos (Sector.isZero_iff.mpr rfl)]
  simp only [decide_eq_true_eq]

/-! ## The scan -/

/-- The scan walks over complete frames. -/
theorem scan_of_framesAt (h : FramesAt S m cursor serial ps)
    (hroom : S.framesEnd cursor ps ≤ S.device.sectors) (hvalid : ∀ p ∈ ps, ValidPayload p)
    (hserial : serial + ps.length < 2 ^ 64) (records : List RegistryWalRecord) (ends : List ℕ) :
    scan S.device (readAll m) S.incarnation cursor serial records ends
      = scan S.device (readAll m) S.incarnation (S.framesEnd cursor ps) (serial + ps.length)
          (records ++ numbered serial ps) (ends ++ S.frameEnds cursor ps) := by
  induction ps generalizing cursor serial records ends with
  | nil => simp [WalSite.framesEnd, numbered, WalSite.frameEnds]
  | cons p ps ih =>
    obtain ⟨hframe, hrest⟩ := h
    rw [WalSite.framesEnd] at hroom ⊢
    rw [length_cons] at hserial ⊢
    have hle := le_framesEnd (S := S) (cursor + 1 + S.chunks p + 1) ps
    rw [scan, dif_pos (by omega), readFrame_of_frameAt (hvalid p mem_cons_self)
      (by omega) hframe (by omega)]
    rw [checkedAdd_of_lt (by omega)]
    simp only
    rw [ih hrest hroom (fun q hq => hvalid q (mem_cons_of_mem _ hq)) (by omega), numbered,
      WalSite.frameEnds, append_assoc, append_assoc, singleton_append,
      singleton_append, Nat.add_right_comm serial 1, ← Nat.add_assoc serial]

/-- The owner that recovery makes of a committed prefix. -/
def recovered (S : WalSite) (ps : List (List UInt8)) (phase : WalPhase) : RegistryWal S.size :=
  ⟨S.device, S.incarnation, S.framesEnd 0 ps, ps.length + 1, numbered 1 ps, S.frameEnds 0 ps,
    phase⟩

section

variable (S) (ps : List (List UInt8)) (phase : WalPhase)

@[simp] theorem recovered_cursor : (recovered S ps phase).cursor = S.framesEnd 0 ps := rfl

@[simp] theorem recovered_nextSerial : (recovered S ps phase).nextSerial = ps.length + 1 := rfl

@[simp] theorem recovered_records : (recovered S ps phase).records = numbered 1 ps := rfl

@[simp] theorem recovered_phase : (recovered S ps phase).phase = phase := rfl

end

theorem CommittedPrefix.length_lt (h : CommittedPrefix S m ps) : 1 + ps.length < 2 ^ 64 := by
  have hroom := h.room
  have haddr := S.addressable
  have hlen := add_length_le_framesEnd (S := S) 0 ps
  unfold BlockRange.Addressable at haddr
  omega

private theorem recover_of_committedPrefix (h : CommittedPrefix S m ps) :
    S.recover m = scan S.device (readAll m) S.incarnation (S.framesEnd 0 ps) (ps.length + 1)
      (numbered 1 ps) (S.frameEnds 0 ps) := by
  have hadmission : ¬ (S.incarnation = 0 ∨ S.size < headerBytes ∨ S.device.sectors < 3) := by
    have h₁ := S.incarnation_ne_zero
    have h₂ := S.headerBytes_le
    have h₃ := S.three_le_sectors
    omega
  rw [WalSite.recover, RegistryWal.recover, if_neg hadmission,
    scan_of_framesAt h.frames h.room h.valid h.length_lt, nil_append, nil_append,
    Nat.add_comm 1]

/-- A settled log is recovered with all its records, ready for the next. -/
theorem recover_of_settled (h : Settled S m ps) : S.recover m = .ok (recovered S ps .ready) := by
  rw [recover_of_committedPrefix h.toCommittedPrefix, scan]
  split
  · rename_i hlt
    rw [readFrame_of_zero hlt (h.blank _ le_rfl hlt), if_pos (h.blank.mono (Nat.le_succ _))]
    rfl
  · rfl

/-- An unmarked tail is reported and is not one of the records. -/
theorem recover_of_unmarked {q : List UInt8} (h : Unmarked S m ps q) :
    S.recover m = .ok (recovered S ps (.recoveredUncommitted (S.chunks q))) := by
  have hroom := h.admitted.room
  have hlen := h.length_lt
  rw [recover_of_committedPrefix h.toCommittedPrefix, scan, dif_pos (by omega),
    readFrame_of_header h.header h.admitted.valid (by omega) (by omega),
    readFrameBody_eq h.admitted.valid hroom, if_pos (h.blank _ le_rfl (by omega)),
    if_pos (h.blank.mono (Nat.le_succ _))]
  rfl

/-- A torn tail is corruption. -/
theorem recover_of_torn (h : Torn S m ps) : S.recover m = .error .corrupt := by
  rw [recover_of_committedPrefix h.toCommittedPrefix, scan, dif_pos h.lt,
    readFrame_of_zero h.lt h.hole, if_neg h.remains]

/-! ## The scan reads its own range -/

section Congr

variable {size : ℕ} {range : BlockRange} {read read' : ReadSector size}

/-- The two devices have the same sectors in the range. -/
def BlockRange.Agrees (range : BlockRange) (read read' : ReadSector size) : Prop :=
  ∀ lba < range.sectors, read (range.start + lba) = read' (range.start + lba)

section

variable (h : range.Agrees read read')
include h

theorem BlockRange.Agrees.readSector (lba : ℕ) :
    range.readSector read lba = range.readSector read' lba := by
  unfold BlockRange.readSector
  cases haddress : range.absolute lba 1 with
  | error e => rfl
  | ok address =>
    obtain ⟨rfl, hlt⟩ := BlockRange.absolute_eq_ok haddress
    exact h lba hlt

theorem BlockRange.Agrees.readSectors (lba count : ℕ) :
    range.readSectors read lba count = range.readSectors read' lba count := by
  unfold BlockRange.readSectors
  cases haddress : range.absolute lba count with
  | error e => rfl
  | ok address =>
    obtain ⟨rfl, hle⟩ := BlockRange.absolute_eq_ok haddress
    show (List.range count).mapM _ = (List.range count).mapM _
    refine Result.mapM_congr fun index hindex => ?_
    have hindex := List.mem_range.mp hindex
    rw [Nat.add_assoc]
    exact h _ (by omega)

private theorem zeroSuffixLoop_congr (lba : ℕ) :
    zeroSuffixLoop range read lba = zeroSuffixLoop range read' lba := by
  induction hleft : range.sectors - lba using Nat.strong_induction_on generalizing lba with
  | _ left ih =>
    conv_lhs => rw [zeroSuffixLoop, h.readSectors]
    conv_rhs => rw [zeroSuffixLoop]
    by_cases hlt : lba < range.sectors
    · rw [dif_pos hlt, dif_pos hlt, ih _ ?_ _ rfl]
      unfold batchSectors
      omega
    · rw [dif_neg hlt, dif_neg hlt]

private theorem zeroSuffix_congr (start : ℕ) :
    zeroSuffix range read start = zeroSuffix range read' start := by
  unfold zeroSuffix
  rw [zeroSuffixLoop_congr h]

private theorem readPayload_congr (start len : ℕ) (payload : List UInt8) (indices : List ℕ) :
    readPayload range read start len payload indices
      = readPayload range read' start len payload indices := by
  induction indices generalizing payload with
  | nil => rfl
  | cons index rest ih =>
    rw [readPayload, readPayload, h.readSector]
    simp only [ih]

private theorem readFrame_congr (incarnation cursor serial : ℕ) :
    readFrame range read incarnation cursor serial
      = readFrame range read' incarnation cursor serial := by
  unfold readFrame readFrameBody
  simp only [h.readSector, zeroSuffix_congr h, readPayload_congr h]

private theorem scan_congr (incarnation cursor serial : ℕ) (records : List RegistryWalRecord)
    (ends : List ℕ) : scan range read incarnation cursor serial records ends
      = scan range read' incarnation cursor serial records ends := by
  induction hleft : range.sectors - cursor using Nat.strong_induction_on
    generalizing cursor serial records ends with
  | _ left ih =>
    conv_lhs => rw [scan, readFrame_congr h]
    conv_rhs => rw [scan]
    by_cases hlt : cursor < range.sectors
    · rw [dif_pos hlt, dif_pos hlt]
      rcases readFrame range read' incarnation cursor serial with e | _ | _ | ⟨count, payload⟩
      · rfl
      · rfl
      · rfl
      · simp only
        cases checkedAdd serial 1 with
        | none => rfl
        | some next => exact ih _ (by omega) _ _ _ _ rfl
    · rw [dif_neg hlt, dif_neg hlt]

/-- Two devices with the same sectors in the range have the same log. -/
theorem RegistryWal.recover_congr (incarnation : ℕ) :
    RegistryWal.recover range read incarnation = RegistryWal.recover range read' incarnation := by
  unfold RegistryWal.recover
  rw [scan_congr h]

end

end Congr

end UserspaceNtos.Fs
