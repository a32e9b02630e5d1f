import UserspaceNtos.HiveCore.Log

/-!
# Strict readers of the hive log

Replay at boot, the check of a payload before it is journalled and the admission of an append
read a log record by record.  They share the loop (`forRecords`) and differ in what they do with
a record and with a torn tail.

A log that consists of whole records is a list of records (`Scans`), and on such a log each
reader is a fold over the list (`forRecords_of_scans`).
-/

namespace UserspaceNtos.HiveCore

open LittleEndian ConfigStore Parser List

/-- What a call does that returns no value. -/
inductive Stop (ε : Type)
  | panic
  | fail (e : ε)
  deriving DecidableEq, Repr

/-! ## Records -/

/-- The first record of a log and what follows it, nothing if the record is torn. -/
def nextVerifiedLogRecord (bytes : Bytes) :
    Except HiveLogReplayError (Option (LogRecord × Bytes)) :=
  if bytes.length < logHeaderLen then .ok none
  else
    match readLogHeader .truncated .badMagic bytes with
    | .error e => .error e
    | .ok (header, rest) =>
      if header.headerSize ≠ logHeaderLen then .error .unsupportedHeader
      else if (crc32c (bytes.take (logHeaderLen - 4))).toNat ≠ header.recordCrc then
        .error .badChecksum
      else if rest.length < header.payloadLen then .ok none
      else
        let payload := rest.take header.payloadLen
        if (crc32c payload).toNat ≠ header.payloadCrc then .error .badChecksum
        else .ok (some ({ op := header.op, sequence := header.sequence, payload := payload },
          rest.drop header.payloadLen))

theorem readLogHeader_agrees {ε ε' : Type} (truncated badMagic : ε) (truncated' badMagic' : ε') :
    Agrees (readLogHeader truncated badMagic) (readLogHeader truncated' badMagic') := by
  have hword : ∀ w, Agrees (Reader.word truncated w) (Reader.word truncated' w) := fun w =>
    (Agrees.take _ _ w).bind fun _ => Agrees.pure _
  refine (Agrees.take _ _ 4).bind fun magic => ?_
  split
  · exact Agrees.of_fail _ _
  · exact (hword 2).bind fun _ => (hword 2).bind fun _ => (hword 8).bind fun _ =>
      (hword 4).bind fun _ => (hword 4).bind fun _ => (hword 4).bind fun _ => Agrees.pure _

/-- What is not an error is what `nextLogRecord` sees. -/
theorem nextLogRecord_of_verified {bytes : Bytes} {next : Option (LogRecord × Bytes)}
    (h : nextVerifiedLogRecord bytes = .ok next) : nextLogRecord bytes = next := by
  rw [nextVerifiedLogRecord] at h
  split at h
  · rename_i hshort
    cases h
    rw [nextLogRecord]
    split
    · rfl
    · rename_i hheader
      have := readLogHeader_width _ _ _ _ _ hheader
      omega
  · split at h
    · cases h
    · rename_i hheader
      rw [nextLogRecord, readLogHeader_agrees _ _ () () _ _ _ hheader]
      dsimp only at h ⊢
      split_ifs at h ⊢
      · exact Except.ok.inj h
      · exact Except.ok.inj h

theorem nextVerifiedLogRecord_length {bytes rest : Bytes} {r : LogRecord}
    (h : nextVerifiedLogRecord bytes = .ok (some (r, rest))) : rest.length < bytes.length :=
  nextLogRecord_length (nextLogRecord_of_verified h)

section Fields

open Reader

/-- The fields of a payload, except those of a created child. -/
def readLogPayload (op : ℕ) : Parser HiveLogReplayError Unit :=
  let e := HiveLogReplayError.invalidPayload
  if op = opCreateKey ∨ op = opDeleteKey then do
    let _ ← str16 e
  else if op = opSetValue then do
    let _ ← str16 e
    let _ ← str16 e
    let valueType ← u32 e
    match RegistryValueType.fromU32 valueType with
    | none => Parser.fail (.unsupportedValueType valueType)
    | some _ => do let _ ← blob e
  else if op = opDeleteValue then do
    let _ ← str16 e
    let _ ← str16 e
  else if op = opSetKeyClass then do
    let _ ← str16 e
    let present ← u8 e
    if present = 0 then return ()
    else if present = 1 then do let _ ← str16 e
    else Parser.fail e
  else if op = opSetKeySecurityDescriptor then do
    let _ ← str16 e
    let _ ← blob e
  else Parser.fail (.unsupportedOperation op)

end Fields

/-- `validate_log_payload` -/
def validateLogPayload (op : ℕ) (payload : Bytes) : Except HiveLogReplayError Unit :=
  if op = opCreateChild then (decodeCreatedChild payload).map fun _ => ()
  else
    match readLogPayload op payload with
    | .error e => .error e
    | .ok (_, rest) => if rest.isEmpty then .ok () else .error .invalidPayload

/-- The sequence is the one after `last`. -/
def advances (last sequence : ℕ) : Except HiveLogReplayError Unit :=
  if sequence ≤ last then .error .nonAdvancingSequence
  else if checkedAdd last 1 ≠ some sequence then .error .sequenceGap
  else .ok ()

/-! ## The loop -/

/-- A log is read to its end.  `stop` is what an unreadable record leads to, `torn` what a torn
one does, and `body` treats a record. -/
def forRecords {σ ε : Type} (stop : σ → HiveLogReplayError → ε) (torn : σ → Except ε σ)
    (body : σ → LogRecord → Except ε σ) (s : σ) (bytes : Bytes) : Except ε σ :=
  if bytes.isEmpty then .ok s
  else
    match hr : nextVerifiedLogRecord bytes with
    | .error e => .error (stop s e)
    | .ok none => torn s
    | .ok (some (r, rest)) =>
      have := nextVerifiedLogRecord_length hr
      match body s r with
      | .error e => .error e
      | .ok s => forRecords stop torn body s rest
termination_by bytes.length

/-- The log consists of these records. -/
inductive Scans : Bytes → List LogRecord → Prop
  | nil : Scans [] []
  | cons {bytes rest : Bytes} {r : LogRecord} {rs : List LogRecord}
      (hr : nextVerifiedLogRecord bytes = .ok (some (r, rest))) (hrest : Scans rest rs) :
      Scans bytes (r :: rs)

section Loop

variable {σ ε : Type} {stop : σ → HiveLogReplayError → ε} {torn : σ → Except ε σ}
  {body : σ → LogRecord → Except ε σ} {bytes : Bytes} {rs : List LogRecord}

theorem forRecords_of_scans (h : Scans bytes rs) (s : σ) :
    forRecords stop torn body s bytes = rs.foldlM body s := by
  induction h generalizing s with
  | nil =>
    rw [forRecords]
    rfl
  | @cons bytes rest r rs hr hrest ih =>
    have hne : ¬ bytes.isEmpty = true := by
      rintro hempty
      rw [isEmpty_iff.mp hempty] at hr
      cases hr
    rw [forRecords, if_neg hne, foldlM_cons]
    split
    · rename_i hr'
      rw [hr] at hr'
      cases hr'
    · rename_i hr'
      rw [hr] at hr'
      cases hr'
    · rename_i hr'
      rw [hr] at hr'
      cases hr'
      cases hbody : body s r with
      | error e => rfl
      | ok s' => exact ih s'

/-- A reader that refuses torn records has read whole ones. -/
theorem scans_of_forRecords (htorn : ∀ s, ∃ e, torn s = .error e) {s s' : σ}
    (h : forRecords stop torn body s bytes = .ok s') :
    ∃ rs, Scans bytes rs ∧ rs.foldlM body s = .ok s' := by
  have hscans : ∃ rs, Scans bytes rs := by
    fun_induction forRecords stop torn body s bytes with
    | case1 s bytes hempty => exact ⟨[], isEmpty_iff.mp hempty ▸ .nil⟩
    | case2 => cases h
    | case3 s =>
      obtain ⟨e, he⟩ := htorn s
      rw [he] at h
      cases h
    | case4 => cases h
    | case5 s bytes hne r rest hr hlen s₁ hbody ih =>
      obtain ⟨rs, hrs⟩ := ih h
      exact ⟨r :: rs, .cons hr hrs⟩
  obtain ⟨rs, hrs⟩ := hscans
  exact ⟨rs, hrs, (forRecords_of_scans hrs s).symm.trans h⟩

end Loop

/-! ## Writing records -/

/-- The record as it stands in a log. -/
def LogRecord.bytes (r : LogRecord) : Bytes := sealLogRecord r.op r.sequence r.payload

/-- The fields can be written. -/
structure LogRecord.Fits (r : LogRecord) : Prop where
  op : r.op < 2 ^ 16
  sequence : r.sequence < 2 ^ 64
  payload : r.payload.length < 2 ^ 32

theorem nextVerifiedLogRecord_bytes {r : LogRecord} (hr : r.Fits) (rest : Bytes) :
    nextVerifiedLogRecord (r.bytes ++ rest) = .ok (some (r, rest)) := by
  have hlen : ¬ (sealLogRecord r.op r.sequence r.payload ++ rest).length < logHeaderLen := by
    simp only [sealLogRecord, length_append, length_logHeader, length_leBytes, logHeaderLen]
    omega
  have hrest : ¬ (r.payload ++ rest).length < r.payload.length := by
    rw [length_append]
    omega
  have hheader := readLogHeader_sealLogRecord HiveLogReplayError.truncated .badMagic hr.op
    hr.sequence hr.payload rest
  rw [nextVerifiedLogRecord, LogRecord.bytes, if_neg hlen, hheader]
  simp only [take_sealLogRecord, sealedHeader, hrest, take_left, drop_left, ne_eq,
    not_true_eq_false, if_false]

theorem scans_bytes {rs : List LogRecord} (hrs : ∀ r ∈ rs, r.Fits) :
    Scans (rs.flatMap LogRecord.bytes) rs := by
  induction rs with
  | nil => exact .nil
  | cons r rs ih =>
    obtain ⟨hr, hrs⟩ := forall_mem_cons.mp hrs
    exact .cons (nextVerifiedLogRecord_bytes hr _) (ih hrs)

/-- An operation is done if its sequence advances; `next` goes on unless it is refused. -/
def HiveLogOp.replay (op : HiveLogOp) (sequence : ℕ) (next : ℕ → Hive → Option (ℕ × Hive))
    (last : ℕ) (h : Hive) : Option (ℕ × Hive) :=
  if last < sequence then
    match op.apply h with
    | none => none
    | some (.error _, h) => some (last, h)
    | some (.ok _, h) => next sequence (h.alignLoggedSequence sequence)
  else next last h

theorem replayLog_record {op : HiveLogOp} {sequence : ℕ} {record : Bytes}
    (hrecord : tryEncodeLogRecord op sequence = .ok record) (hsequence : sequence < 2 ^ 64)
    (h : Hive) (rest : Bytes) (last : ℕ) : replayLog h (record ++ rest) last =
      op.replay sequence (fun last h => replayLog h rest last) last h := by
  obtain ⟨n, hn, e⟩ := Result.bind_eq_ok hrecord
  split_ifs at e with hlt
  obtain ⟨-, -, ⟨⟩⟩ := Result.bind_eq_ok e
  have hpayload : op.payload.length < 2 ^ 32 := logPayloadLen_eq_ok hn ▸ not_le.mp hlt
  have hfits : LogRecord.Fits ⟨op.code, sequence, op.payload⟩ :=
    ⟨Nat.lt_of_le_of_lt op.code_le (by decide), hsequence, hpayload⟩
  -- a record in front of anything is the first record
  have hnext := nextLogRecord_of_verified (nextVerifiedLogRecord_bytes hfits rest)
  rw [HiveLogOp.replay, ← applyLog_payload h (HiveLogOp.fits_of_length_lt hpayload)]
  exact replayLog_next hnext

/-- A log of records, up to bytes that are no record, is replayed to its operations. -/
theorem replayLog_records {ops : List (HiveLogOp × ℕ)} {records : List Bytes} {rest : Bytes}
    (hrecords : Forall₂ (fun op record => tryEncodeLogRecord op.1 op.2 = .ok record ∧
      op.2 < 2 ^ 64) ops records)
    (hrest : nextLogRecord rest = none) (h : Hive) (last : ℕ) :
    replayLog h (records.flatten ++ rest) last =
      ops.foldr (fun op => op.1.replay op.2) (fun last h => some (last, h)) last h := by
  induction hrecords generalizing h last with
  | nil => exact replayLog_end hrest h last
  | cons hrecord _ ih =>
    rw [flatten_cons, append_assoc, replayLog_record hrecord.1 hrecord.2]
    simp only [ih]
    rfl

/-- A key is created and deleted again. -/
theorem replayLog_records_deleteKey : ∃ created deleted h,
    tryEncodeLogRecord (.createKey ['A']) 1 = .ok created ∧
      tryEncodeLogRecord (.deleteKey ['A']) 2 = .ok deleted ∧
      replayLog (Hive.new .system) ([created, deleted].flatten ++ [0]) 0 = some (2, h) ∧
      h.nextId = 3 :=
  ⟨_, _, _, rfl, rfl, @replayLog_records [(.createKey ['A'], 1), (.deleteKey ['A'], 2)] _ _
    (.cons ⟨rfl, by decide⟩ (.cons ⟨rfl, by decide⟩ .nil)) rfl _ 0, rfl⟩

/-! ## The readers -/

/-- One record of the row that `completeLogSequenceSpan` measures: its first sequence and the
last one so far. -/
def spanRecord (s : Option ℕ × Option ℕ) (r : LogRecord) :
    Except HiveLogReplayError (Option ℕ × Option ℕ) := do
  validateLogPayload r.op r.payload
  s.2.elim (.ok ()) fun previous => advances previous r.sequence
  return (some (s.1.getD r.sequence), some r.sequence)

/-- `complete_log_sequence_span_inner` -/
def completeLogSequenceSpanInner (bytes : Bytes) (previousSequence : Option ℕ) :
    Except HiveLogReplayError (ℕ × ℕ) := do
  match ← forRecords (fun _ e => e) (fun _ => .error .truncated) spanRecord
      (none, previousSequence) bytes with
  | (some first, some last) => .ok (first, last)
  | _ => .error .invalidPayload

/-- `complete_log_sequence_span` -/
def completeLogSequenceSpan (bytes : Bytes) : Except HiveLogReplayError (ℕ × ℕ) :=
  completeLogSequenceSpanInner bytes none

/-- `complete_log_sequence_span_from` -/
def completeLogSequenceSpanFrom (bytes : Bytes) (previousSequence : ℕ) :
    Except HiveLogReplayError (ℕ × ℕ) :=
  completeLogSequenceSpanInner bytes (some previousSequence)

/-- A record of the sidecar may repeat an old sequence; a new one has to be the next. -/
def admitRecord (previous : ℕ) (r : LogRecord) : Except HiveLogReplayError ℕ := do
  validateLogPayload r.op r.payload
  if previous < r.sequence then
    if checkedAdd previous 1 ≠ some r.sequence then .error .sequenceGap else .ok r.sequence
  else .ok previous

/-- `validate_first_hive_wal_append` -/
def validateFirstHiveWalAppend (primarySequence : ℕ) (sidecar candidate : Bytes) :
    Except HiveLogReplayError ℕ := do
  let previous ← forRecords (fun _ e => e) (fun _ => .error .truncated) admitRecord
    primarySequence sidecar
  (completeLogSequenceSpanFrom candidate previous).map Prod.snd

/-- A record changes the hive. -/
def applyRecord (h : Hive) (r : LogRecord) : Except (Stop (HiveLogReplayError × Hive)) Hive :=
  match applyLog h r.op r.payload with
  | none => .error .panic
  | some (.error e, h) => .error (.fail (e, h))
  | some (.ok _, h) => .ok (h.alignLoggedSequence r.sequence)

/-- What is checked before a record is applied; a created child is checked by its application. -/
def checkReplayed (allowTornTail : Bool) (last : ℕ) (r : LogRecord) :
    Except HiveLogReplayError Unit := do
  if allowTornTail then .ok () else advances last r.sequence
  if r.op ≠ opCreateChild ∨ r.sequence ≤ last then validateLogPayload r.op r.payload else .ok ()

/-- One round of `try_replay_log_with_tail_policy`. -/
def replayRecord (allowTornTail : Bool) (s : ℕ × Hive) (r : LogRecord) :
    Except (Stop (HiveLogReplayError × Hive)) (ℕ × Hive) :=
  match checkReplayed allowTornTail s.1 r with
  | .error e => .error (.fail (e, s.2))
  | .ok _ =>
    if s.1 < r.sequence then (applyRecord s.2 r).map (r.sequence, ·) else .ok s

/-- `try_replay_log_with_tail_policy` -/
def tryReplayLogWithTailPolicy (h : Hive) (bytes : Bytes) (base : ℕ) (allowTornTail : Bool) :
    Except (Stop (HiveLogReplayError × Hive)) (ℕ × Hive) :=
  forRecords (fun s e => .fail (e, s.2))
    (fun s => if allowTornTail then .ok s else .error (.fail (.truncated, s.2)))
    (replayRecord allowTornTail) (base, h) bytes

/-- `try_replay_log` -/
def tryReplayLog (h : Hive) (bytes : Bytes) (base : ℕ) :
    Except (Stop (HiveLogReplayError × Hive)) (ℕ × Hive) :=
  tryReplayLogWithTailPolicy h bytes base true

/-- `try_replay_log_complete` -/
def tryReplayLogComplete (h : Hive) (bytes : Bytes) (base : ℕ) :
    Except (Stop (HiveLogReplayError × Hive)) (ℕ × Hive) :=
  if bytes.isEmpty then .error (.fail (.invalidPayload, h))
  else tryReplayLogWithTailPolicy h bytes base false

end UserspaceNtos.HiveCore
