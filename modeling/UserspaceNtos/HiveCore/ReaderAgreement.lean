import UserspaceNtos.HiveCore.BootSystem

/-!
# The readers of a hive log agree

Three loops read a hive log: lenient replay stops at whatever it cannot use, strict replay reports
it, and the span is measured without a hive.  Where strict replay succeeds, lenient replay does
the same, and a log whose span was measured is refused by strict replay only if a child cannot be
created (`log_readers_agree`).

The span says nothing about the hive.  A hive with a record at its provider may not be changed,
and replaying a measured log onto it is a panic (`measured_log_panics`).
-/

namespace UserspaceNtos.HiveCore

/-- The calls agree unless the first one fails: `y` panics or returns what `x` does. -/
def Echoes {ε α : Type} (x : Except (Stop ε) α) (y : Option α) : Prop :=
  match x with
  | .ok a => y = some a
  | .error .panic => y = none
  | .error (.fail _) => True

/-- A record that strict replay takes or panics at, lenient replay takes or panics at. -/
theorem replayLog_replayRecord {r : LogRecord} {bytes rest : Bytes}
    (hr : nextLogRecord bytes = some (r, rest)) (allowTornTail : Bool) (s : ℕ × Hive) :
    match replayRecord allowTornTail s r with
    | .ok s' => replayLog s.2 bytes s.1 = replayLog s'.2 rest s'.1
    | .error .panic => replayLog s.2 bytes s.1 = none
    | .error (.fail _) => True := by
  rw [replayLog_next hr, replayRecord]
  cases checkReplayed allowTornTail s.1 r with
  | error e => trivial
  | ok =>
    split_ifs
    · rw [applyRecord]
      rcases applyLog s.2 r.op r.payload with _ | ⟨e | _, h⟩
      · rfl
      · trivial
      · rfl
    · rfl

/-- Lenient replay does what replay with errors does, as long as that does not fail. -/
theorem echoes_replayLog (h : Hive) (bytes : Bytes) (last : ℕ) (allowTornTail : Bool) :
    Echoes (tryReplayLogWithTailPolicy h bytes last allowTornTail) (replayLog h bytes last) := by
  rw [tryReplayLogWithTailPolicy]
  generalize hs : (last, h) = s
  rw [show last = s.1 from hs ▸ rfl, show h = s.2 from hs ▸ rfl]
  clear hs
  -- over the records; the two readers see the same ones
  fun_induction forRecords with
  | case1 s bytes hempty =>
    rw [List.isEmpty_iff.mp hempty]
    exact replayLog_end rfl _ _
  | case2 => trivial
  | case3 s bytes hne hr =>
    split
    · exact replayLog_end (nextLogRecord_of_verified hr) _ _
    · trivial
  | case4 s bytes hne r rest hr hlen e hbody =>
    have hrecord := replayLog_replayRecord (nextLogRecord_of_verified hr) allowTornTail s
    rw [hbody] at hrecord
    cases e with
    | panic => exact hrecord
    | fail e => trivial
  | case5 s bytes hne r rest hr hlen s' hbody ih =>
    have hrecord := replayLog_replayRecord (nextLogRecord_of_verified hr) allowTornTail s
    rw [hbody] at hrecord
    rw [hrecord]
    exact ih

/-- A log that was measured from the hive's sequence on is replayed alike by both readers, to the
last sequence that was measured, unless a child cannot be created or the hive panics; and wherever
replay that tolerates a torn tail succeeds, lenient replay does the same. -/
theorem log_readers_agree (h : Hive) (log : Bytes) :
    (∀ first l, completeLogSequenceSpanFrom log h.sequence = .ok (first, l) →
      (∃ c h', tryReplayLogComplete h log h.sequence = .error (.fail (.createChild c, h'))) ∨
      (tryReplayLogComplete h log h.sequence = .error .panic ∧
        replayLog h log h.sequence = none) ∨
      ∃ h', tryReplayLogComplete h log h.sequence = .ok (l, h') ∧
        replayLog h log h.sequence = some (l, h')) ∧
      ∀ base n h', tryReplayLog h log base = .ok (n, h') →
        replayLog h log base = some (n, h') := by
  refine ⟨fun first l hspan => ?_, fun base n h' hreplay => ?_⟩
  · obtain ⟨cs, hcs, hne, hvalid, hf, rfl⟩ := span_records hspan
    have hstrict := tryReplayLogComplete_eq (h := h) hcs hne hvalid hf
    have hechoes := echoes_replayLog h log h.sequence false
    rw [tryReplayLogWithTailPolicy, forRecords_of_scans hcs, foldlM_replayRecord_false hvalid hf,
      foldlM_applyNext hf] at hechoes
    rw [hstrict]
    cases hreplay : h.replay cs with
    | error stop =>
      rw [hreplay] at hechoes
      cases stop with
      | panic => exact .inr (.inl ⟨rfl, hechoes⟩)
      | fail stop =>
        obtain ⟨e, h'⟩ := stop
        obtain ⟨c, rfl⟩ := replay_fail hvalid hreplay
        exact .inl ⟨c, h', rfl⟩
    | ok h' =>
      rw [hreplay] at hechoes
      exact .inr (.inr ⟨h', rfl, hechoes⟩)
  · have hechoes := echoes_replayLog h log base true
    rw [← tryReplayLog, hreplay] at hechoes
    exact hechoes

/-- A log of one record. -/
def firstLog : Bytes := [createRecord 1 'A'].flatMap LogRecord.bytes

theorem scans_firstLog : Scans firstLog [createRecord 1 'A'] :=
  scans_bytes (List.forall_mem_singleton.mpr ⟨by decide, by decide, by decide⟩)

theorem span_firstLog : completeLogSequenceSpanFrom firstLog 0 = .ok (1, 1) := by
  rw [completeLogSequenceSpanFrom, completeLogSequenceSpanInner, forRecords_of_scans scans_firstLog]
  rfl

theorem replay_firstLog (h : Hive) : tryReplayLogComplete h firstLog 0 =
    (h.replay [createRecord 1 'A']).map (1, ·) :=
  tryReplayLogComplete_eq scans_firstLog (List.cons_ne_nil _ _)
    (List.forall_mem_singleton.mpr rfl) ⟨rfl, trivial⟩

theorem firstLog_replayed : completeLogSequenceSpanFrom firstLog 0 = .ok (1, 1) ∧
    ∃ h, tryReplayLogComplete rootHive firstLog 0 = .ok (1, h) ∧
      replayLog rootHive firstLog 0 = some (1, h) := by
  obtain ⟨h, hreplay, -⟩ : ∃ h, rootHive.replay [createRecord 1 'A'] = .ok h ∧
      (h.openKey ['A']).isSome = true := exists_replay (by decide +kernel)
  have hstrict := replay_firstLog rootHive
  obtain ⟨c, h', hfail⟩ | ⟨hpanic, -⟩ | ⟨h', hok, hlenient⟩ :=
    (log_readers_agree rootHive firstLog).1 1 1 span_firstLog
  · cases hfail.symm.trans hstrict
  · cases hpanic.symm.trans hstrict
  · exact ⟨span_firstLog, h', hok, hlenient⟩

/-- A hive with a record at its provider. -/
def busyHive : Hive := { rootHive with pendingValueJournal := some ⟨1, .appendEntered, []⟩ }

/-- The log was measured, and replaying it is a panic. -/
theorem measured_log_panics :
    completeLogSequenceSpanFrom firstLog busyHive.sequence = .ok (1, 1) ∧
      tryReplayLogComplete busyHive firstLog busyHive.sequence = .error .panic :=
  ⟨span_firstLog, replay_firstLog busyHive⟩

end UserspaceNtos.HiveCore
