import UserspaceNtos.HiveCore.LogReaders
import UserspaceNtos.HiveCore.ImageWellFormed

/-!
# Booting the SYSTEM hive from its journal

The boot composes the SYSTEM hive from a primary image, a journal and a generated overlay.  The
journal is a sidecar followed by payloads that were admitted one by one
(`validateFirstHiveWalAppend`).  Admission and boot read the journal by different rules; the
main result is that boot replays whatever was admitted (`admitted_append_replayed`).

Of the records that carry one sequence boot applies the first.  The others are admitted, whatever
they say, and skipped (`repeated_sequence_skipped`).
-/

namespace UserspaceNtos.HiveCore

open ConfigStore List Option

/-! ## The boot -/

/-- `BootSystemHiveOrigin` -/
inductive BootSystemHiveOrigin
  | installedRegf | persistedCore | persistedRegf | persistedJournalOnly
  deriving DecidableEq, Repr

/-- `BootSystemHiveComposeError` -/
inductive BootSystemHiveComposeError (I O : Type)
  | installedMissing
  | installedImport (e : I)
  | persistedFormat
  | persistedCore (e : HiveDecodeError)
  | persistedRegfInvalid
  | persistedRegfImport (e : I)
  | persistedLog (e : HiveLogReplayError)
  | generatedOverlay (e : HiveDecodeError)
  | compose (e : O)
  deriving DecidableEq, Repr

/-- `ComposedBootSystemHive` -/
structure ComposedBootSystemHive where
  hive : Hive
  origin : BootSystemHiveOrigin
  replayedSequence : ℕ

/-- `BootSystemWalSuffix` -/
structure BootSystemWalSuffix where
  snapshotLogLen : ℕ
  firstSequence : ℕ
  lastSequence : ℕ
  deriving DecidableEq, Repr

/-- The parts of the boot that do not look at the journal: hives in the format of the installed
media, and the composition with an overlay. -/
structure BootParts (R I O : Type) where
  newRegf : Bytes → Option R
  tryImportRegf : R → HiveKind → Except (Stop I) Hive
  composeSystemHiveOverlaySecured : Hive → Hive → Except (Stop O) Hive

/-- The bytes `regf`. -/
def regfMagic : Bytes := [0x72, 0x65, 0x67, 0x66]

/-- An error becomes one of the caller. -/
def stopWith {ε ε' α : Type} (f : ε → ε') (x : Except (Stop ε) α) : Except (Stop ε') α :=
  x.mapError fun
    | .panic => .panic
    | .fail e => .fail (f e)

section Boot

variable {R I O : Type} (parts : BootParts R I O) (installed : Option R)

/-- The hive that the journal is replayed onto. -/
def bootBase (persistedPrimary : Option Bytes) (persistedLog : Bytes) :
    Except (Stop (BootSystemHiveComposeError I O)) (Hive × BootSystemHiveOrigin) :=
  match persistedPrimary with
  | some bytes =>
    if imageMagic.isPrefixOf bytes then
      match decodeImage bytes with
      | .error e => .error (.fail (.persistedCore e))
      | .ok h => .ok (h, .persistedCore)
    else if regfMagic.isPrefixOf bytes then
      match parts.newRegf bytes with
      | none => .error (.fail .persistedRegfInvalid)
      | some persisted => do
          let h ← stopWith .persistedRegfImport (parts.tryImportRegf persisted .system)
          return (h, .persistedRegf)
    else .error (.fail .persistedFormat)
  | none =>
    match installed with
    | none => .error (.fail .installedMissing)
    | some installed => do
        let h ← stopWith .installedImport (parts.tryImportRegf installed .system)
        return (h, if persistedLog.isEmpty then .installedRegf else .persistedJournalOnly)

/-- A check that may fail. -/
def checked {ε α : Type} : Except ε α → Except (Stop ε) α := Except.mapError .fail

/-- The journal is replayed; what was admitted after the snapshot has to be whole. -/
def replayBoot (base : Hive) (persistedLog : Bytes) :
    Option BootSystemWalSuffix → Except (Stop HiveLogReplayError) (ℕ × Hive)
  | some suffix =>
    if persistedLog.length < suffix.snapshotLogLen then .error (.fail .truncated)
    else do
      let s ← stopWith Prod.fst
        (tryReplayLog base (persistedLog.take suffix.snapshotLogLen) base.sequence)
      checked (advances s.1 suffix.firstSequence)
      let s ← stopWith Prod.fst
        (tryReplayLogComplete s.2 (persistedLog.drop suffix.snapshotLogLen) s.1)
      if s.1 ≠ suffix.lastSequence then .error (.fail .nonAdvancingSequence) else return s
  | none => stopWith Prod.fst (tryReplayLog base persistedLog base.sequence)

/-- `compose_boot_system_hive_inner` -/
def composeBootSystemHiveInner (persistedPrimary : Option Bytes)
    (persistedLog generatedOverlayImage : Bytes) (walSuffix : Option BootSystemWalSuffix) :
    Except (Stop (BootSystemHiveComposeError I O)) ComposedBootSystemHive := do
  let (base, origin) ← bootBase parts installed persistedPrimary persistedLog
  let (replayedSequence, base) ← stopWith .persistedLog (replayBoot base persistedLog walSuffix)
  let generated ← checked ((decodeImage generatedOverlayImage).mapError .generatedOverlay)
  let hive ← stopWith .compose (parts.composeSystemHiveOverlaySecured base generated)
  return { hive, origin, replayedSequence }

/-- `compose_boot_system_hive_with_wal_suffix` -/
def composeBootSystemHiveWithWalSuffix (persistedPrimary : Option Bytes)
    (persistedLog generatedOverlayImage : Bytes) (suffix : BootSystemWalSuffix) :
    Except (Stop (BootSystemHiveComposeError I O)) ComposedBootSystemHive :=
  composeBootSystemHiveInner parts installed persistedPrimary persistedLog generatedOverlayImage
    (some suffix)

end Boot

/-! ## What is applied -/

/-- The records that advance the sequence. -/
def advancing (last : ℕ) : List LogRecord → List LogRecord
  | [] => []
  | r :: rs => if last < r.sequence then r :: advancing r.sequence rs else advancing last rs

/-- The records change the hive one after the other. -/
def Hive.replay (h : Hive) (rs : List LogRecord) :
    Except (Stop (HiveLogReplayError × Hive)) Hive :=
  rs.foldlM applyRecord h

/-- A record whose payload is well formed. -/
def LogRecord.Valid (r : LogRecord) : Prop := validateLogPayload r.op r.payload = .ok ()

/-- The sequences go on from `last` without a gap. -/
def Follows (last : ℕ) : List LogRecord → Prop
  | [] => True
  | r :: rs => advances last r.sequence = .ok () ∧ Follows r.sequence rs

theorem advances_eq_ok {last sequence : ℕ} (h : advances last sequence = .ok ()) :
    sequence = last + 1 := by
  unfold advances at h
  split_ifs at h with hle hgap
  rw [not_not, checkedAdd] at hgap
  split_ifs at hgap
  exact (Option.some.inj hgap).symm

section Records

variable {last p q : ℕ} {r : LogRecord} {rs cs : List LogRecord} {h : Hive}

theorem Follows.sequences (hf : Follows last rs) :
    rs.map LogRecord.sequence = List.range' (last + 1) rs.length := by
  induction rs generalizing last with
  | nil => rfl
  | cons r rs ih =>
    obtain ⟨hr, hrs⟩ := hf
    rw [map_cons, ih hrs, advances_eq_ok hr, length_cons, List.range'_succ]

theorem Follows.append (hrs : Follows last rs) (hcs : Follows (last + rs.length) cs) :
    Follows last (rs ++ cs) := by
  induction rs generalizing last with
  | nil => exact hcs
  | cons r rs ih =>
    refine ⟨hrs.1, ih hrs.2 ?_⟩
    rw [advances_eq_ok hrs.1, Nat.add_right_comm]
    exact hcs

/-! ### Admission -/

theorem admitRecord_eq_ok (hr : admitRecord p r = .ok q) :
    r.Valid ∧ (p < r.sequence ∧ advances p r.sequence = .ok () ∧ q = r.sequence ∨
      r.sequence ≤ p ∧ q = p) := by
  obtain ⟨⟨⟩, hvalid, hr⟩ := Result.bind_eq_ok hr
  refine ⟨hvalid, ?_⟩
  split_ifs at hr with hlt hgap
  · cases hr
    exact .inl ⟨hlt, by rw [advances, if_neg (by omega), if_neg hgap], rfl⟩
  · cases hr
    exact .inr ⟨not_lt.mp hlt, rfl⟩

/-- The sidecar is admitted if the records that advance follow each other; any other record with
a new sequence repeats one of them. -/
theorem admit_eq_ok (hrs : rs.foldlM admitRecord p = .ok q) :
    (∀ r ∈ rs, r.Valid) ∧ Follows p (advancing p rs) ∧ q = p + (advancing p rs).length ∧
      ∀ r ∈ rs, p < r.sequence → ∃ r' ∈ advancing p rs, r'.sequence = r.sequence := by
  induction rs generalizing p with
  | nil =>
    cases hrs
    exact ⟨nofun, trivial, rfl, nofun⟩
  | cons r rs ih =>
    obtain ⟨p', hr, hrs⟩ := Result.bind_eq_ok hrs
    obtain ⟨hvalids, hfollows, hq, hrepeats⟩ := ih hrs
    obtain ⟨hvalid, ⟨hlt, hadvances, rfl⟩ | ⟨hle, rfl⟩⟩ := admitRecord_eq_ok hr
    · rw [advancing, if_pos hlt]
      refine ⟨forall_mem_cons.mpr ⟨hvalid, hvalids⟩, ⟨hadvances, hfollows⟩, ?_,
        forall_mem_cons.mpr ⟨fun _ => ⟨r, mem_cons_self, rfl⟩, fun x hx hpx => ?_⟩⟩
      · rw [hq, advances_eq_ok hadvances, length_cons]
        omega
      · by_cases hxr : r.sequence < x.sequence
        · obtain ⟨r', hr', heq⟩ := hrepeats x hx hxr
          exact ⟨r', mem_cons_of_mem _ hr', heq⟩
        · refine ⟨r, mem_cons_self, ?_⟩
          have := advances_eq_ok hadvances
          omega
    · rw [advancing, if_neg (not_lt.mpr hle)]
      exact ⟨forall_mem_cons.mpr ⟨hvalid, hvalids⟩, hfollows, hq,
        forall_mem_cons.mpr ⟨fun hlt => absurd hlt (not_lt.mpr hle), hrepeats⟩⟩

theorem span_eq_ok {first f l : Option ℕ}
    (hcs : cs.foldlM spanRecord (first, some p) = .ok (f, l)) :
    (∀ r ∈ cs, r.Valid) ∧ Follows p cs ∧ f = first.or (cs.head?.map LogRecord.sequence) ∧
      l = some (p + cs.length) := by
  induction cs generalizing p first with
  | nil =>
    cases hcs
    exact ⟨nofun, trivial, (or_none).symm, rfl⟩
  | cons r cs ih =>
    obtain ⟨s, hr, hcs⟩ := Result.bind_eq_ok hcs
    obtain ⟨⟨⟩, hvalid, hr⟩ := Result.bind_eq_ok hr
    obtain ⟨⟨⟩, hadvances, hr⟩ := Result.bind_eq_ok hr
    cases hr
    obtain ⟨hvalids, hfollows, hf, hl⟩ := ih hcs
    refine ⟨forall_mem_cons.mpr ⟨hvalid, hvalids⟩, ⟨hadvances, hfollows⟩, ?_, ?_⟩
    · rw [hf]
      cases first <;> rfl
    · rw [hl, advances_eq_ok hadvances, length_cons]
      congr 1
      omega

/-- A log whose span is known consists of records that follow each other. -/
theorem span_records {bytes : Bytes} {first : ℕ}
    (hspan : completeLogSequenceSpanFrom bytes p = .ok (first, last)) :
    ∃ cs, Scans bytes cs ∧ cs ≠ [] ∧ (∀ r ∈ cs, r.Valid) ∧ Follows p cs ∧ last = p + cs.length := by
  obtain ⟨⟨f, l⟩, hrecords, hspan⟩ := Result.bind_eq_ok hspan
  obtain ⟨cs, hcs, hfold⟩ := scans_of_forRecords (fun _ => ⟨_, rfl⟩) hrecords
  obtain ⟨hvalids, hfollows, rfl, rfl⟩ := span_eq_ok hfold
  cases cs with
  | nil => cases hspan
  | cons c cs =>
    cases hspan
    exact ⟨c :: cs, hcs, cons_ne_nil _ _, hvalids, hfollows, rfl⟩

/-! ### Replay -/

/-- A record changes the hive and its sequence becomes the last one. -/
def applyNext (s : ℕ × Hive) (r : LogRecord) :
    Except (Stop (HiveLogReplayError × Hive)) (ℕ × Hive) :=
  (applyRecord s.2 r).map (r.sequence, ·)

theorem foldlM_applyNext (hf : Follows last rs) :
    rs.foldlM applyNext (last, h) = (h.replay rs).map (last + rs.length, ·) := by
  induction rs generalizing last h with
  | nil => rfl
  | cons r rs ih =>
    rw [foldlM_cons, Hive.replay, foldlM_cons, applyNext]
    cases applyRecord h r with
    | error e => rfl
    | ok h' =>
      refine (ih hf.2).trans ?_
      rw [advances_eq_ok hf.1, Nat.add_right_comm]
      rfl

theorem replayRecord_eq (allowTornTail : Bool) (hr : r.Valid)
    (hadvances : allowTornTail = false → advances last r.sequence = .ok ()) :
    replayRecord allowTornTail (last, h) r =
      if last < r.sequence then applyNext (last, h) r else .ok (last, h) := by
  have hpayload : (if r.op ≠ opCreateChild ∨ r.sequence ≤ last then
      validateLogPayload r.op r.payload else .ok ()) = .ok () :=
    ite_eq_iff'.mpr ⟨fun _ => hr, fun _ => rfl⟩
  have hcheck : checkReplayed allowTornTail last r = .ok () := by
    cases allowTornTail with
    | true => exact hpayload
    | false =>
      rw [checkReplayed, hadvances rfl]
      exact hpayload
  rw [replayRecord, hcheck]
  rfl

/-- Replay that tolerates a torn tail applies the records that advance. -/
theorem foldlM_replayRecord_true (hvalid : ∀ r ∈ rs, r.Valid) :
    rs.foldlM (replayRecord true) (last, h) = (advancing last rs).foldlM applyNext (last, h) := by
  induction rs generalizing last h with
  | nil => rfl
  | cons r rs ih =>
    obtain ⟨hr, hrs⟩ := forall_mem_cons.mp hvalid
    rw [foldlM_cons, replayRecord_eq true hr nofun, advancing]
    by_cases hlt : last < r.sequence
    · rw [if_pos hlt, if_pos hlt, foldlM_cons, applyNext]
      cases applyRecord h r with
      | error e => rfl
      | ok h' => exact ih hrs
    · rw [if_neg hlt, if_neg hlt]
      exact ih hrs

/-- Strict replay applies every record of a row without gaps. -/
theorem foldlM_replayRecord_false (hvalid : ∀ r ∈ rs, r.Valid) (hf : Follows last rs) :
    rs.foldlM (replayRecord false) (last, h) = rs.foldlM applyNext (last, h) := by
  induction rs generalizing last h with
  | nil => rfl
  | cons r rs ih =>
    obtain ⟨hr, hrs⟩ := forall_mem_cons.mp hvalid
    have hlt : last < r.sequence := by
      rw [advances_eq_ok hf.1]
      exact Nat.lt_succ_self last
    rw [foldlM_cons, foldlM_cons, replayRecord_eq false hr fun _ => hf.1, if_pos hlt, applyNext]
    cases applyRecord h r with
    | error e => rfl
    | ok h' => exact ih hrs hf.2

theorem replay_append : h.replay (rs ++ cs) = h.replay rs >>= fun h => h.replay cs := foldlM_append

/-- A well-formed record is refused only if a child cannot be created. -/
theorem applyRecord_fail {e : HiveLogReplayError} {h' : Hive} (hr : r.Valid)
    (hfail : applyRecord h r = .error (.fail (e, h'))) : ∃ c, e = .createChild c := by
  rw [LogRecord.Valid, validateLogPayload] at hr
  rw [applyRecord, applyLog] at hfail
  by_cases hop : r.op = opCreateChild
  · rw [if_pos hop] at hr hfail
    cases hdecode : decodeCreatedChild r.payload with
    | error e =>
      rw [hdecode] at hr
      cases hr
    | ok child =>
      rw [applyCreatedChild, hdecode] at hfail
      dsimp only [Hive.applyChild] at hfail
      split at hfail
      · cases hfail
      · rename_i hsome
        cases hfail
        split at hsome
        · cases hsome
          exact ⟨_, rfl⟩
        · obtain ⟨⟨res, h₁⟩, -, heq⟩ := map_eq_some_iff.mp hsome
          cases res with
          | ok => cases heq
          | error c =>
            cases heq
            exact ⟨c, rfl⟩
      · cases hfail
  · rw [if_neg hop] at hfail
    split at hfail
    · cases hfail
    · rename_i hsome
      obtain ⟨h₁, -, happlied⟩ := map_eq_some_iff.mp hsome
      cases happlied
    · cases hfail

theorem replay_fail {e : HiveLogReplayError} {h' : Hive} (hvalid : ∀ r ∈ rs, r.Valid)
    (hfail : h.replay rs = .error (.fail (e, h'))) : ∃ c, e = .createChild c := by
  induction rs generalizing h with
  | nil => cases hfail
  | cons r rs ih =>
    obtain ⟨hr, hrs⟩ := forall_mem_cons.mp hvalid
    rw [Hive.replay, foldlM_cons] at hfail
    cases happly : applyRecord h r with
    | error stop =>
      rw [happly] at hfail
      cases hfail
      exact applyRecord_fail hr happly
    | ok h₁ =>
      rw [happly] at hfail
      exact ih hrs hfail

theorem mem_of_mem_advancing (hr : r ∈ advancing p rs) : r ∈ rs := by
  induction rs generalizing p with
  | nil => exact hr
  | cons x rs ih =>
    rw [advancing] at hr
    split at hr
    · rcases mem_cons.mp hr with rfl | hr
      · exact mem_cons_self
      · exact mem_cons_of_mem _ (ih hr)
    · exact mem_cons_of_mem _ (ih hr)

/-! ### Boot -/

theorem foldlM_spanRecord {first : ℕ} (hvalid : ∀ r ∈ cs, r.Valid) (hf : Follows p cs) :
    cs.foldlM spanRecord (some first, some p) = .ok (some first, some (p + cs.length)) := by
  induction cs generalizing p with
  | nil => rfl
  | cons r cs ih =>
    obtain ⟨hr, hcs⟩ := forall_mem_cons.mp hvalid
    have hspan : spanRecord (some first, some p) r = .ok (some first, some r.sequence) := by
      rw [spanRecord, show validateLogPayload r.op r.payload = .ok () from hr]
      show (advances p r.sequence >>= _) = _
      rw [hf.1]
      rfl
    rw [foldlM_cons, hspan]
    refine (ih hcs hf.2).trans ?_
    rw [advances_eq_ok hf.1, length_cons, Nat.add_right_comm, Nat.add_assoc]

theorem completeLogSequenceSpan_eq {candidate : Bytes} (hscans : Scans candidate cs)
    (hne : cs ≠ []) (hvalid : ∀ r ∈ cs, r.Valid) (hf : Follows p cs) :
    completeLogSequenceSpan candidate = .ok (p + 1, p + cs.length) := by
  cases cs with
  | nil => exact absurd rfl hne
  | cons r cs =>
    obtain ⟨hr, hcs⟩ := forall_mem_cons.mp hvalid
    have hspan : spanRecord (none, none) r = .ok (some r.sequence, some r.sequence) := by
      rw [spanRecord, show validateLogPayload r.op r.payload = .ok () from hr]
      rfl
    rw [completeLogSequenceSpan, completeLogSequenceSpanInner, forRecords_of_scans hscans,
      foldlM_cons, hspan]
    show (cs.foldlM spanRecord (some r.sequence, some r.sequence) >>= _) = _
    rw [foldlM_spanRecord hcs hf.2, advances_eq_ok hf.1, Nat.add_right_comm]
    rfl

/-- Strict replay applies the records of a row without gaps. -/
theorem tryReplayLogComplete_eq {bytes : Bytes} (hcs : Scans bytes cs) (hne : cs ≠ [])
    (hvalid : ∀ r ∈ cs, r.Valid) (hf : Follows q cs) :
    tryReplayLogComplete h bytes q = (h.replay cs).map (q + cs.length, ·) := by
  have hbytes : ¬ bytes.isEmpty = true := by
    intro hempty
    rw [isEmpty_iff.mp hempty] at hcs
    cases hcs with
    | nil => exact hne rfl
    | cons hr => cases hr
  rw [tryReplayLogComplete, if_neg hbytes, tryReplayLogWithTailPolicy, forRecords_of_scans hcs,
    foldlM_replayRecord_false hvalid hf, foldlM_applyNext hf]

/-- Boot applies the records that advance. -/
theorem replayBoot_eq {sidecar candidate : Bytes} (hrs : Scans sidecar rs)
    (hcs : Scans candidate cs) (hne : cs ≠ []) (hvalid : ∀ r ∈ rs, r.Valid)
    (hvalid' : ∀ r ∈ cs, r.Valid) (hf : Follows h.sequence (advancing h.sequence rs))
    (hq : h.sequence + (advancing h.sequence rs).length = q) (hf' : Follows q cs) :
    replayBoot h (sidecar ++ candidate) (some ⟨sidecar.length, q + 1, q + cs.length⟩) =
      stopWith Prod.fst ((h.replay (advancing h.sequence rs ++ cs)).map (q + cs.length, ·)) := by
  have hfirst : tryReplayLog h sidecar h.sequence =
      (h.replay (advancing h.sequence rs)).map (q, ·) := by
    rw [tryReplayLog, tryReplayLogWithTailPolicy, forRecords_of_scans hrs,
      foldlM_replayRecord_true hvalid, foldlM_applyNext hf, hq]
  have hadvances : advances q (q + 1) = .ok () := by
    cases cs with
    | nil => exact absurd rfl hne
    | cons c cs => exact advances_eq_ok hf'.1 ▸ hf'.1
  have hlen : ¬ (sidecar ++ candidate).length < sidecar.length := by
    rw [length_append]
    omega
  rw [replayBoot, if_neg hlen, take_left, drop_left, hfirst, replay_append]
  cases h.replay (advancing h.sequence rs) with
  | error stop => cases stop <;> rfl
  | ok h₁ =>
    show (checked (advances q (q + 1)) >>= fun _ =>
      stopWith Prod.fst (tryReplayLogComplete h₁ candidate q) >>= _) = _
    rw [hadvances, tryReplayLogComplete_eq hcs hne hvalid' hf']
    show _ = stopWith Prod.fst ((h₁.replay cs).map _)
    cases h₁.replay cs with
    | error stop => cases stop <;> rfl
    | ok h₂ => exact if_neg (not_not.mpr rfl)

end Records

theorem compose_eq {R I O : Type} {parts : BootParts R I O} {installed : Option R}
    {primary : Option Bytes} {log overlayImage : Bytes} {base generated : Hive}
    {origin : BootSystemHiveOrigin} {suffix : BootSystemWalSuffix}
    (hbase : bootBase parts installed primary log = .ok (base, origin))
    (hoverlay : decodeImage overlayImage = .ok generated) :
    composeBootSystemHiveWithWalSuffix parts installed primary log overlayImage suffix = do
      let s ← stopWith .persistedLog (replayBoot base log (some suffix))
      let hive ← stopWith .compose (parts.composeSystemHiveOverlaySecured s.2 generated)
      return ⟨hive, origin, s.1⟩ := by
  rw [composeBootSystemHiveWithWalSuffix, composeBootSystemHiveInner, hbase, hoverlay]
  rfl

/-- Boot replays what was admitted: it fails only if a child cannot be created, and otherwise has
applied, for each sequence after that of the primary, the first record that carries it. -/
theorem admitted_append_replayed {R I O : Type} {parts : BootParts R I O} {installed : Option R}
    {primary : Option Bytes} {sidecar candidate overlayImage : Bytes} {base generated : Hive}
    {origin : BootSystemHiveOrigin} {p last : ℕ}
    (hadmitted : validateFirstHiveWalAppend p sidecar candidate = .ok last)
    (hbase : bootBase parts installed primary (sidecar ++ candidate) = .ok (base, origin))
    (hsequence : base.sequence = p) (hoverlay : decodeImage overlayImage = .ok generated) :
    ∃ rs cs first, Scans sidecar rs ∧ Scans candidate cs ∧
      completeLogSequenceSpan candidate = .ok (first, last) ∧
      (advancing p rs ++ cs).map LogRecord.sequence = List.range' (p + 1) (last - p) ∧
      (∀ r ∈ rs, p < r.sequence → ∃ r' ∈ advancing p rs, r'.sequence = r.sequence) ∧
      (∀ e, composeBootSystemHiveWithWalSuffix parts installed primary (sidecar ++ candidate)
        overlayImage ⟨sidecar.length, first, last⟩ = .error (.fail (.persistedLog e)) →
        ∃ c, e = .createChild c) ∧
      ∀ c, composeBootSystemHiveWithWalSuffix parts installed primary (sidecar ++ candidate)
        overlayImage ⟨sidecar.length, first, last⟩ = .ok c → c.replayedSequence = last ∧
        ∃ h, base.replay (advancing p rs ++ cs) = .ok h ∧
          parts.composeSystemHiveOverlaySecured h generated = .ok c.hive := by
  subst hsequence
  -- an admitted append is a sidecar and a candidate whose new records follow each other
  obtain ⟨q, hsidecar, hcandidate⟩ := Result.bind_eq_ok hadmitted
  obtain ⟨rs, hrs, hfold⟩ := scans_of_forRecords (fun _ => ⟨_, rfl⟩) hsidecar
  obtain ⟨hvalid, hf, rfl, hrepeats⟩ := admit_eq_ok hfold
  obtain ⟨span, hspan, hok⟩ := Result.bind_eq_ok hcandidate
  obtain ⟨cs, hcs, hne, hvalid', hf', hlast⟩ := span_records hspan
  obtain rfl := (Except.ok.inj hok).symm.trans hlast
  refine ⟨rs, cs, _, hrs, hcs, completeLogSequenceSpan_eq hcs hne hvalid' hf', ?_, hrepeats, ?_⟩
  · rw [(hf.append hf').sequences, length_append]
    congr 1
    omega
  have hall : ∀ r ∈ advancing base.sequence rs ++ cs, r.Valid := by
    intro r hr
    rcases mem_append.mp hr with hr | hr
    · exact hvalid r (mem_of_mem_advancing hr)
    · exact hvalid' r hr
  have hreplayed := replayBoot_eq hrs hcs hne hvalid hvalid' hf rfl hf'
  rw [compose_eq hbase hoverlay, hreplayed]
  cases hreplay : base.replay (advancing base.sequence rs ++ cs) with
  | error stop =>
    cases stop with
    | panic => exact ⟨nofun, nofun⟩
    | fail e =>
      refine ⟨fun e' he => ?_, nofun⟩
      cases he
      exact replay_fail hall hreplay
  | ok h =>
    dsimp only [stopWith, Except.map, Except.mapError, bind, Except.bind]
    cases hcompose : parts.composeSystemHiveOverlaySecured h generated with
    | error stop => cases stop <;> exact ⟨nofun, nofun⟩
    | ok hive =>
      refine ⟨nofun, fun c hc => ?_⟩
      cases hc
      exact ⟨rfl, h, rfl, hcompose⟩

/-! ## A sequence that is used twice -/

/-- The record that creates a key. -/
def createRecord (sequence : ℕ) (name : Char) : LogRecord :=
  ⟨opCreateKey, sequence, Writer.str16 [name]⟩

/-- A sidecar that repeats the first sequence. -/
def repeatedSidecar : Bytes := [createRecord 1 'A', createRecord 1 'B'].flatMap LogRecord.bytes

/-- A candidate with the next sequence. -/
def nextCandidate : Bytes := [createRecord 2 'C'].flatMap LogRecord.bytes

theorem scans_repeatedSidecar : Scans repeatedSidecar [createRecord 1 'A', createRecord 1 'B'] :=
  scans_bytes (forall_mem_cons.mpr ⟨⟨by decide, by decide, by decide⟩,
    forall_mem_singleton.mpr ⟨by decide, by decide, by decide⟩⟩)

theorem scans_nextCandidate : Scans nextCandidate [createRecord 2 'C'] :=
  scans_bytes (forall_mem_singleton.mpr ⟨by decide, by decide, by decide⟩)

theorem admitted_repeatedSidecar :
    validateFirstHiveWalAppend 0 repeatedSidecar nextCandidate = .ok 2 := by
  rw [validateFirstHiveWalAppend, forRecords_of_scans scans_repeatedSidecar]
  show (completeLogSequenceSpanFrom nextCandidate 1).map Prod.snd = _
  rw [completeLogSequenceSpanFrom, completeLogSequenceSpanInner,
    forRecords_of_scans scans_nextCandidate]
  rfl

/-- The image of a new hive. -/
def rootImage : Bytes := sealImage .system 0 0 1 1 (imagePayload (Hive.new .system))

/-- The hive in `rootImage`. -/
def rootHive : Hive :=
  (({ hive := Hive.empty .system 0 0 0, idMap := [1], blobIndex := [] } : Decoder).addKey 1
    (plainKey 1 0 [] 0)).hive.relinkSubkeys

theorem decodeImage_rootImage : decodeImage rootImage = .ok rootHive := by
  have hread : readRecord schemaVersion (imagePayload (Hive.new .system)) =
      .ok (.key (plainKey 1 0 [] 0), []) := rfl
  have hrecs : readRecords schemaVersion (imagePayload (Hive.new .system)) =
      .ok [.key (plainKey 1 0 [] 0)] := by
    rw [readRecords_of_ok hread, readRecords_nil]
    rfl
  rw [rootImage, decodeImage_sealImage _ _ (by decide) (by decide) (by decide) (by decide),
    decodePayload, decodeRecords_eq_ok_iff.mpr ⟨_, hrecs, rfl⟩]
  rfl

theorem bootBase_rootImage {R I O : Type} (parts : BootParts R I O) (installed : Option R)
    (log : Bytes) : bootBase parts installed (some rootImage) log =
      .ok (rootHive, .persistedCore) := by
  have hmagic : imageMagic.isPrefixOf rootImage = true := rfl
  rw [bootBase, if_pos hmagic, decodeImage_rootImage]

theorem exists_replay {h : Hive} {rs : List LogRecord} {f : Hive → Bool}
    (hf : (h.replay rs).toOption.map f = some true) : ∃ h', h.replay rs = .ok h' ∧ f h' = true := by
  cases hreplay : h.replay rs with
  | error e =>
    rw [hreplay] at hf
    cases hf
  | ok h' =>
    rw [hreplay] at hf
    exact ⟨h', rfl, Option.some.inj hf⟩

/-- The second record with sequence 1 is admitted, and boot does not apply it. -/
theorem repeated_sequence_skipped :
    validateFirstHiveWalAppend 0 repeatedSidecar nextCandidate = .ok 2 ∧
      Scans repeatedSidecar [createRecord 1 'A', createRecord 1 'B'] ∧
      Scans nextCandidate [createRecord 2 'C'] ∧
      ∃ every booted : Hive,
        rootHive.replay [createRecord 1 'A', createRecord 1 'B', createRecord 2 'C'] = .ok every ∧
        (every.openKey ['B']).isSome ∧ booted.openKey ['B'] = none ∧
        ∀ (R I O : Type) (parts : BootParts R I O) (installed : Option R) (overlayImage : Bytes)
          (generated : Hive), decodeImage overlayImage = .ok generated →
          composeBootSystemHiveWithWalSuffix parts installed (some rootImage)
            (repeatedSidecar ++ nextCandidate) overlayImage ⟨repeatedSidecar.length, 2, 2⟩ =
            stopWith .compose (parts.composeSystemHiveOverlaySecured booted generated) >>=
              fun hive => .ok ⟨hive, .persistedCore, 2⟩ := by
  refine ⟨admitted_repeatedSidecar, scans_repeatedSidecar, scans_nextCandidate, ?_⟩
  obtain ⟨every, hevery, hkey⟩ : ∃ h, rootHive.replay
      [createRecord 1 'A', createRecord 1 'B', createRecord 2 'C'] = .ok h ∧
      (h.openKey ['B']).isSome = true := exists_replay (by decide +kernel)
  obtain ⟨booted, hbooted, hnokey⟩ : ∃ h, rootHive.replay
      [createRecord 1 'A', createRecord 2 'C'] = .ok h ∧ (h.openKey ['B']).isNone = true :=
    exists_replay (by decide +kernel)
  refine ⟨every, booted, hevery, hkey, isNone_iff_eq_none.mp hnokey, ?_⟩
  intro R I O parts installed overlayImage generated hoverlay
  have hvalid : ∀ r ∈ [createRecord 1 'A', createRecord 1 'B'], r.Valid :=
    forall_mem_cons.mpr ⟨rfl, forall_mem_singleton.mpr rfl⟩
  have hreplay : replayBoot rootHive (repeatedSidecar ++ nextCandidate)
      (some ⟨repeatedSidecar.length, 2, 2⟩) = stopWith Prod.fst
        ((rootHive.replay [createRecord 1 'A', createRecord 2 'C']).map (2, ·)) :=
    replayBoot_eq scans_repeatedSidecar scans_nextCandidate
      (cons_ne_nil _ _) hvalid (forall_mem_singleton.mpr rfl) ⟨rfl, trivial⟩ rfl
      ⟨rfl, trivial⟩
  rw [compose_eq (bootBase_rootImage parts installed _) hoverlay, hreplay, hbooted]
  rfl

/-- A boot without installed media, whose overlay changes nothing. -/
def plainParts : BootParts Unit Unit Unit :=
  ⟨fun _ => none, fun _ _ => .error .panic, fun base _ => .ok base⟩

theorem repeatedSidecar_replayed :
    ∃ rs cs first, Scans repeatedSidecar rs ∧ Scans nextCandidate cs ∧
      completeLogSequenceSpan nextCandidate = .ok (first, 2) ∧
      (advancing 0 rs ++ cs).map LogRecord.sequence = [1, 2] := by
  obtain ⟨rs, cs, first, hrs, hcs, hspan, hsequences, -⟩ :=
    admitted_append_replayed admitted_repeatedSidecar (bootBase_rootImage plainParts none _) rfl
      decodeImage_rootImage
  exact ⟨rs, cs, first, hrs, hcs, hspan, hsequences⟩

end UserspaceNtos.HiveCore
