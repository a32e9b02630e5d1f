import UserspaceNtos.IoCompletion.FileLifecycle

/-!
# The table of open files follows the life of each file

Every function of the table keeps the agreement between the table and what its callers know
(`TableAgrees`), and its replies obey the discipline, as long as the callers drop only
references they took and two kinds of calls do not happen that the table should refuse
(`InTime`).  A run of such calls is orderly from its first call to its last.
-/

namespace UserspaceNtos.IoCompletion

open FileIoSerialization KeyedTable Function

/-! ## From one entry to the table -/

/-- The table and what the callers know of its files agree. -/
structure TableAgrees (t : FileCompletionTable) (w : FileWorld) : Prop where
  distinct : KeyedTable.Distinct FileCompletionEntry.isLive FileCompletionEntry.fileId t
  absent : ∀ f, t.entry f = none → w f = {}
  present : ∀ f e, t.entry f = some e → EntryAgrees (w f) e

/-- A call does not panic, its reply obeys the discipline, and the table it leaves agrees with
what the reply says. -/
def CallAgrees (t : FileCompletionTable) (w : FileWorld) (op : FileOp) : Prop :=
  ∃ answer t', op.call t = some (answer, t') ∧
    (∀ reply, answer = .ok reply → Discipline (w op.fileId) op reply) ∧
    TableAgrees t' (w.observe op answer)

section Table

variable {α : Type} {t t' : FileCompletionTable} {w : FileWorld} {op : FileOp} {f tid : ℕ}
  {wrap : α → FileReply} {status : FileStatus} {step : EntryStep α} {e : FileCompletionEntry}

theorem TableAgrees.refuse (hw : TableAgrees t w)
    (hcall : op.call t = TableOutcome.reply wrap (t.refuse status)) : CallAgrees t w op := by
  refine ⟨.error status, t, hcall, fun _ hok => (nomatch hok), ?_⟩
  rwa [show w.observe op (.error status) = w from update_eq_self _ _]

open FileCompletionEntry

/-- One file changes: the others are as they were. -/
theorem TableAgrees.update {found : Option FileCompletionEntry} {s : Lifecycle}
    (hw : TableAgrees t w)
    (hdistinct : KeyedTable.Distinct isLive fileId t')
    (hlookup : ∀ g, t'.entry g = if g = f then found else t.entry g)
    (hfound : (found = none ∧ s = {}) ∨ ∃ e, found = some e ∧ EntryAgrees s e) :
    TableAgrees t' (Function.update w f s) := by
  refine ⟨hdistinct, fun g hg => ?_, fun g x hx => ?_⟩
  · rw [hlookup] at hg
    split_ifs at hg with hgf
    · rcases hfound with ⟨-, rfl⟩ | ⟨e, rfl, -⟩
      · rw [hgf, update_self]
      · cases hg
    · rw [update_of_ne hgf, hw.absent g hg]
  · rw [hlookup] at hx
    split_ifs at hx with hgf
    · rcases hfound with ⟨rfl, -⟩ | ⟨e, rfl, hagrees⟩
      · cases hx
      · cases hx
        rwa [hgf, update_self]
    · rw [update_of_ne hgf]
      exact hw.present g x hx

theorem EntryAgrees.isLive {e : FileCompletionEntry} {s : Lifecycle} (h : EntryAgrees s e) :
    e.isLive = true := by
  have := h.references_pos
  simp [FileCompletionEntry.isLive]
  omega

theorem TableAgrees.replace {e e' : FileCompletionEntry} {s : Lifecycle} (hw : TableAgrees t w)
    (he : t.entry f = some e) (htracks : Tracks f s e') :
    TableAgrees (KeyedTable.replace isLive fileId f e' t)
      (Function.update w f s) := by
  rcases htracks with ⟨hfree, rfl⟩ | ⟨hagrees, hid⟩
  · have hdead : e'.isLive = false := by simp [isLive, hfree]
    have hid : e'.isLive = true → e'.fileId = f := fun hlive => by simp [hdead] at hlive
    refine hw.update (hw.distinct.replace hid) (fun g => ?_) (.inl ⟨rfl, rfl⟩)
    split_ifs with hg
    · rw [hg]
      exact lookup_replace_free hw.distinct hdead
    · exact lookup_replace_of_ne hg hid
  · refine hw.update (hw.distinct.replace fun _ => hid) (fun g => ?_) (.inr ⟨e', rfl, hagrees⟩)
    split_ifs with hg
    · rw [hg]
      exact lookup_replace_live he hagrees.isLive hid
    · exact lookup_replace_of_ne hg fun _ => hid

/-- A function that works on the entry of its file. -/
theorem TableAgrees.onEntry (hw : TableAgrees t w)
    (hcall : op.call t = TableOutcome.reply wrap (t.onEntry op.fileId step))
    (hstep : ∀ e, EntryAgrees (w op.fileId) e → e.fileId = op.fileId →
      StepAgrees (w op.fileId) op wrap (step e)) : CallAgrees t w op := by
  unfold FileCompletionTable.onEntry at hcall
  cases he : t.entry op.fileId with
  | none =>
    rw [he] at hcall
    exact hw.refuse hcall
  | some e =>
    rw [he] at hcall
    obtain ⟨answer, e', hout, htracks, hdiscipline⟩ :=
      hstep e (hw.present _ e he) (lookup_eq_some he).2.2
    simp only [hout] at hcall
    refine ⟨_, _, hcall, fun reply hok => ?_, hw.replace he htracks⟩
    cases answer with
    | error status => cases hok
    | ok value =>
      cases hok
      exact hdiscipline value rfl

theorem TableAgrees.onThread (hw : TableAgrees t w)
    (hcall : op.call t = TableOutcome.reply wrap (t.onThread op.fileId tid step))
    (hstep : ∀ e, EntryAgrees (w op.fileId) e → e.fileId = op.fileId →
      StepAgrees (w op.fileId) op wrap (step e)) : CallAgrees t w op := by
  unfold FileCompletionTable.onThread at hcall
  split at hcall
  · exact hw.refuse hcall
  · exact hw.onEntry hcall hstep

/-- A file that is not in the table takes a free entry. -/
theorem TableAgrees.claimEntry {wrap : Unit → FileReply} (hw : TableAgrees t w)
    (hid : e.fileId = op.fileId) (hnew : t.entry op.fileId = none)
    (hcall : op.call t = TableOutcome.reply wrap (t.claimEntry e))
    (hdiscipline : Discipline (w op.fileId) op (wrap ()))
    (hagrees : EntryAgrees ((w op.fileId).after op (wrap ())) e) : CallAgrees t w op := by
  unfold FileCompletionTable.claimEntry at hcall
  cases hinsert : KeyedTable.insertFree isLive e t with
  | none =>
    rw [hinsert] at hcall
    exact hw.refuse hcall
  | some t' =>
    rw [hinsert] at hcall
    have hnew' : KeyedTable.lookup isLive fileId t
        e.fileId = none := by
      rw [hid]
      exact hnew
    refine ⟨_, _, hcall, fun reply hok => ?_, hw.update (hw.distinct.insertFree hinsert hnew')
      (fun g => ?_) (.inr ⟨e, rfl, hagrees⟩)⟩
    · cases hok
      exact hdiscipline
    · rw [← hid]
      exact lookup_insertFree hinsert hagrees.isLive hnew' g

end Table

/-! ## The calls that open a file -/

section Calls

variable {t : FileCompletionTable} {w : FileWorld} {s : Lifecycle} {e : FileCompletionEntry}
  {op : FileOp} {f tid : ℕ} {mode : FileIoMode}

open Lifecycle

theorem EntryAgrees.addHandle (h : EntryAgrees s e) (hid : e.fileId = op.fileId)
    (hphase : s.phase = .opened) (hafter : s.after op .done = { s with handles := s.handles + 1 })
    (hdiscipline : Discipline s op .done) :
    StepAgrees s op (fun _ : Unit => .done) (FileCompletionEntry.addHandle e) := by
  have hrefs := h.references
  have hhandles := h.handles
  simp only [anchors, hphase] at hrefs
  unfold FileCompletionEntry.addHandle checkedSucc
  by_cases hroom : e.references + 1 < 2 ^ 32
  · -- there are at least as many references as handles, so the second addition has room too
    have hroom' : e.handleReferences + 1 < 2 ^ 32 := by omega
    simp only [hroom, hroom']
    refine .accepted hdiscipline ?_ hid
    rw [hafter]
    refine { h with
      wellFormed := { h.wellFormed with handles := ?_ }
      handles := ?_
      references := ?_
      bound := hroom }
    · simp [hphase]
    · simp [hhandles]
    · simp only [anchors, hphase]
      omega
  · simp only [hroom]
    exact .refused h hid

section

variable (hw : TableAgrees t w)
include hw

theorem call_insertFileWithMode (device : ℕ) :
    CallAgrees t w (.insertFileWithMode f device mode) := by
  have hcall : (FileOp.insertFileWithMode f device mode).call t =
      TableOutcome.reply (fun _ => .done) (t.insertFileWithMode f device mode) := rfl
  unfold FileCompletionTable.insertFileWithMode at hcall
  split at hcall
  · exact hw.refuse hcall
  split at hcall
  · refine hw.onEntry hcall fun e h hid => .unless h hid fun hguard => ?_
    rw [h.sent, h.reserved] at hguard
    have hphase : (w f).phase = .opened := by
      have := h.wellFormed.present
      cases hp : (w f).phase <;> simp_all
    refine h.addHandle hid hphase (by simp [hphase]) ?_
    constructor <;> simp [hphase]
  case isFalse hnone =>
    have hnone : t.entry f = none := by simpa using hnone
    have habsent := hw.absent f hnone
    refine hw.claimEntry rfl hnone hcall ?_ ?_
    · constructor <;> simp [habsent]
    · constructor <;>
        simp [habsent, anchors, serialization, Busy.owner, Busy.grant]
      constructor <;> simp

theorem call_reserveFileHandlePublicationWithMode (device : ℕ) :
    CallAgrees t w (.reserveFileHandlePublicationWithMode f device mode) := by
  have hcall : (FileOp.reserveFileHandlePublicationWithMode f device mode).call t =
      TableOutcome.reply (fun _ => .done)
        (t.reserveFileHandlePublicationWithMode f device mode) := rfl
  unfold FileCompletionTable.reserveFileHandlePublicationWithMode at hcall
  split at hcall
  · exact hw.refuse hcall
  split at hcall
  · exact hw.refuse hcall
  case isFalse hnone =>
    have hnone : t.entry f = none := by simpa using hnone
    have habsent := hw.absent f hnone
    refine hw.claimEntry rfl hnone hcall ?_ ?_
    · constructor <;> simp [habsent]
    · constructor <;>
      constructor <;> simp

/-- The reservation becomes the first handle. -/
theorem call_commitReservedFileHandle : CallAgrees t w (.commitReservedFileHandle f) := by
  refine hw.onEntry rfl fun e (h : EntryAgrees (w f) e) hid => .unless h hid fun hguard => ?_
  rw [h.reserved] at hguard
  have hphase : (w f).phase = .reserved := by simp_all
  refine .accepted ?_ ?_ hid
  · constructor <;> simp [hphase]
  · obtain ⟨hwf, hsync, hhandles, hrefs, hbound, hreserved, hsent, hheld, hstarted, hser⟩ := h
    refine ⟨?_, hsync, rfl, ?_, hbound, rfl, ?_, ?_, hstarted, hser⟩
    · cases hwf
      constructor <;> simp_all
    · simp_all [anchors]
    · simp_all
    · simp_all

theorem call_retainHandle : CallAgrees t w (.retainHandle f) := by
  refine hw.onEntry rfl fun e h hid => .unless h hid fun hguard => ?_
  rw [h.sent, h.reserved] at hguard
  have hphase : (w f).phase = .opened := by
    have := h.wellFormed.present
    cases hp : (w f).phase <;> simp_all
  refine h.addHandle hid hphase rfl ?_
  constructor <;> simp [hphase]

end

/-! ## References -/

/-- An operation's reference more. -/
theorem EntryAgrees.retained (h : EntryAgrees s e) (hphase : s.phase ≠ .reserved)
    (hroom : e.references + 1 < 2 ^ 32) : EntryAgrees { s with operations := s.operations + 1 }
      { e with references := e.references + 1 } := by
  have hrefs := h.references
  have hwf := h.wellFormed
  refine { h with
    wellFormed := { hwf with
      finished := fun hf => ⟨(hwf.finished hf).1, (hwf.finished hf).2.1, by simp⟩
      reserved := fun hr => absurd hr hphase }
    references := ?_
    bound := hroom }
  simp only [anchors] at hrefs ⊢
  omega

theorem call_retainFile (hw : TableAgrees t w) : CallAgrees t w (.retainFile f) := by
  refine hw.onEntry rfl fun e (h : EntryAgrees (w f) e) hid => .unless h hid fun hguard => ?_
  rw [h.reserved] at hguard
  unfold checkedSucc
  by_cases hroom : e.references + 1 < 2 ^ 32
  · simp only [hroom]
    refine .accepted ?_ (h.retained (by simpa using hguard) hroom) hid
    constructor <;> simp
  · simp only [hroom]
    exact .refused h hid

/-- References are left after the release. -/
theorem StepAgrees.finish_live (cleanup : Bool) (hlive : e.references ≠ 0)
    (hid : e.fileId = op.fileId)
    (hdiscipline : Discipline s op (.released ⟨cleanup, false, e.deviceId, none⟩))
    (h : EntryAgrees (s.after op (.released ⟨cleanup, false, e.deviceId, none⟩)) e) :
    StepAgrees s op .released (FileCompletionEntry.finishRelease cleanup e) := by
  have hfinish : FileCompletionEntry.finishRelease cleanup e =
      some (.ok ⟨cleanup, false, e.deviceId, none⟩, e) := by
    simp [FileCompletionEntry.finishRelease, hlive]
  rw [hfinish]
  exact .accepted hdiscipline h hid

/-- The last reference is released, with nobody in the file and nobody waiting. -/
theorem StepAgrees.finish_last (cleanup : Bool) (hlast : e.references = 0)
    (hidle : e.serialization.hasLiveIo = false) (hdiscipline : Discipline s op
      (.released ⟨cleanup, true, e.deviceId, e.binding.map (·.portId)⟩))
    (hafter : s.after op (.released ⟨cleanup, true, e.deviceId, e.binding.map (·.portId)⟩) = {}) :
    StepAgrees s op .released (FileCompletionEntry.finishRelease cleanup e) := by
  have hfinish : FileCompletionEntry.finishRelease cleanup e =
      some (.ok ⟨cleanup, true, e.deviceId, e.binding.map (·.portId)⟩, {}) := by
    simp [FileCompletionEntry.finishRelease, hlast, hidle]
  rw [hfinish]
  refine ⟨_, _, rfl, .inl ⟨rfl, hafter⟩, fun value hok => ?_⟩
  cases hok
  exact hdiscipline

theorem Lifecycle.WellFormed.anchors_eq_zero (hwf : s.WellFormed) :
    s.anchors = 0 ↔ s.phase = .finished := by
  have hhandles := hwf.handles
  have hpresent := hwf.present
  unfold anchors
  cases hphase : s.phase <;> simp_all
  omega

theorem call_releaseFile (hw : TableAgrees t w) (howns : 0 < (w f).operations) :
    CallAgrees t w (.releaseFile f) := by
  refine hw.onEntry rfl fun e (h : EntryAgrees (w f) e) hid => .unless h hid fun hguard => ?_
  have hwf := h.wellFormed
  have hrefs := h.references
  have hphase : (w f).phase ≠ .reserved := by simpa [h.reserved] using hguard
  rw [FileCompletionEntry.dropReference, if_neg (by omega)]
  by_cases hlast : e.references = 1
  · -- the last reference: no handle and no cleanup is left, so the cleanup is over
    have hfinished : (w f).phase = .finished := hwf.anchors_eq_zero.mp (by omega)
    have hoperations : (w f).operations = 1 := by omega
    obtain ⟨hbusy, hwaiters, -⟩ := hwf.finished hfinished
    have hidle : e.serialization.hasLiveIo = false := by
      rw [h.serialization]
      exact hwf.hasLiveIo.mpr ⟨hbusy, hwaiters⟩
    refine .finish_last false (by simp [hlast]) hidle ?_ rfl
    constructor <;> simp [hfinished, hoperations, hbusy, hwaiters]
  · have hnotlast : ¬ ((w f).phase = .finished ∧ (w f).operations = 1) := by
      rintro ⟨hfinished, hoperations⟩
      have := hwf.anchors_eq_zero.mpr hfinished
      omega
    refine .finish_live false (by simp; omega) hid ?_ ?_
    · constructor <;> simp_all
    · have hbound := h.bound
      refine { h with
        wellFormed := { hwf with
          finished := fun hf => ⟨(hwf.finished hf).1, (hwf.finished hf).2.1, ?_⟩
          reserved := fun hr => absurd hr hphase }
        references := ?_
        bound := ?_ }
      · have hone : (w f).operations ≠ 1 := fun hone => hnotlast ⟨hf, hone⟩
        simp
        omega
      · simp only [anchors] at hrefs
        simp [anchors]
        omega
      · simp
        omega

theorem call_releaseHandle (hw : TableAgrees t w) : CallAgrees t w (.releaseHandle f) := by
  refine hw.onEntry rfl fun e (h : EntryAgrees (w f) e) hid => .unless h hid fun hguard => ?_
  have hwf := h.wellFormed
  have hrefs := h.references
  have hhandles := h.handles
  have hphase : (w f).phase = .opened := hwf.handles.mpr (by omega)
  have hsent : e.cleanupSent = false := by simp [h.sent, hphase]
  simp only [anchors, hphase] at hrefs
  change StepAgrees _ _ _ (if e.handleReferences - 1 = 0 ∧ (!e.cleanupSent) = true then _ else _)
  by_cases hlast : e.handleReferences = 1
  · -- the last handle: its reference becomes the cleanup's, so nothing is dropped
    have hone : (w f).handles = 1 := by omega
    rw [if_pos (by simp [hlast, hsent])]
    refine .finish_live true (by simp; omega) hid ?_ ?_
    · constructor <;> simp [hphase, hone]
    · obtain ⟨-, hsync, -, -, hbound, hreserved, -, hheld, hstarted, hser⟩ := h
      constructor <;> simp_all [anchors, serialization]
      cases hwf
      constructor <;> simp_all
  · rw [if_neg (by omega), FileCompletionEntry.dropReference,
      if_neg (show ¬ e.references = 0 by omega)]
    refine .finish_live false (by simp; omega) hid ?_ ?_
    · have : (w f).handles ≠ 1 := by omega
      constructor <;> simp_all
    · have hbound := h.bound
      refine { h with
        wellFormed := { hwf with handles := ?_ }
        handles := ?_
        references := ?_
        bound := ?_ }
      · simp [hphase]
        omega
      · simp [hhandles]
      · simp [anchors, hphase]
        omega
      · simp
        omega

theorem call_releaseCleanupReference (hw : TableAgrees t w) :
    CallAgrees t w (.releaseCleanupReference f) := by
  refine hw.onEntry rfl fun e (h : EntryAgrees (w f) e) hid => .unless h hid fun hguard => ?_
  have hwf := h.wellFormed
  have hrefs := h.references
  rw [h.held, h.started, h.serialization] at hguard
  have hphase : (w f).phase = .closing := by by_contra hp; simp [hp] at hguard
  have hstarted : (w f).cleanupStarted = true := by by_contra hp; simp [hp] at hguard
  have hnotowner : (w f).busy ≠ .cleanup := by
    intro hbusy
    simp [hwf.isCleanupOwner.mpr hbusy] at hguard
  obtain ⟨-, hbusy, hwaiters, hcleanup⟩ := hwf.started hstarted
  have hbusy : (w f).busy = .free := hbusy.resolve_right hnotowner
  simp only [anchors, hphase] at hrefs
  rw [FileCompletionEntry.dropReference, if_neg (show ¬ e.references = 0 by omega)]
  by_cases hlast : e.references = 1
  · have hidle : e.serialization.hasLiveIo = false := by
      rw [h.serialization]
      exact hwf.hasLiveIo.mpr ⟨hbusy, hwaiters⟩
    have hoperations : (w f).operations = 0 := by omega
    refine .finish_last false (by simp [hlast]) hidle ?_ rfl
    constructor <;> simp [hphase, hstarted, hoperations, hbusy, hwaiters]
  · have hoperations : (w f).operations ≠ 0 := by omega
    refine .finish_live false (by simp; omega) hid ?_ ?_
    · constructor <;> simp [hphase, hstarted, hoperations, hbusy, hwaiters]
    · have hnohandle : (w f).handles = 0 := by
        have := hwf.handles
        simp [hphase] at this
        omega
      obtain ⟨-, hsync, hhandles, -, hbound, hreserved, hsent, hheld, -, hser⟩ := h
      constructor <;> simp_all [anchors, serialization]
      · cases hwf
        constructor <;> simp_all
        omega
      · omega

/-! ## Ordinary I/O -/

theorem call_beginIo (hw : TableAgrees t w) (htime : (w f).phase ≠ .finished) :
    CallAgrees t w (.beginIo f tid) := by
  refine hw.onThread rfl fun e (h : EntryAgrees (w f) e) hid => ?_
  refine .onSerialization h hid fun result z hz => ?_
  obtain ⟨htid, hz, hadmission⟩ := h.wellFormed.beginIo_eq_ok h.synchronous hz
  have hwf := h.wellFormed.admitted htid htime h.held hadmission
  refine ⟨?_, ?_⟩
  · -- a cleanup that does not hold its reference and is not over has not been requested
    have hphase (hheld : decide ((w f).phase = .closing) = false) :
        (w f).phase = .reserved ∨ (w f).phase = .opened := by
      have hpresent := h.wellFormed.present
      cases hp : (w f).phase <;> simp_all
    rw [h.held] at hadmission
    cases hadmission with
    | past hsync hheld => constructor <;> simp; exact (hphase hheld)
    | free hsync hheld hbusy hwaiters hcleanup =>
      constructor <;> simp [hbusy, hwaiters, hcleanup]
      exact hphase hheld
    | grant hsync hbusy => constructor <;> simp [hbusy]
    | queue alertable hsync hheld => constructor <;> simp; exact hphase hheld
  · cases result <;> exact h.withSerialization hwf hz

/-- An operation that is admitted together with its reference. -/
theorem EntryAgrees.acquire (h : EntryAgrees s e) (hid : e.fileId = op.fileId)
    (hop : op = .acquireFileIo f tid ∨ op = .acquireFileIoWithMode f tid mode) :
    StepAgrees s op .admission
      (if e.ioMode.isSynchronous ≠ mode.isSynchronous ∨ e.handlePublicationReserved ∨
          e.serialization.ioGrantOwner = some tid then some (.error .invalidParameter, e)
      else if e.cleanupSent then some (.error .invalidHandle, e)
      else match checkedSucc e.references with
        | .error status => some (.error status, e)
        | .ok references =>
          match e.serialization.beginIo mode tid e.cleanupReferenceHeld with
          | .error status => some (.error status, e)
          | .ok (result, serialization) =>
            some (.ok result, { e with references, serialization })) := by
  refine .unless h hid fun hguard => .unless h hid fun hsent => ?_
  have hwf := h.wellFormed
  simp only [h.reserved, h.synchronous, h.serialization, not_or, not_not] at hguard
  obtain ⟨hmode, hreserved, hgrant⟩ := hguard
  have hphase : s.phase = .opened := by
    have hpresent := hwf.present
    rw [h.sent] at hsent
    cases hp : s.phase <;> simp_all
  unfold checkedSucc
  by_cases hroom : e.references + 1 < 2 ^ 32
  · simp only [hroom]
    rw [h.serialization]
    cases hresult : s.serialization.beginIo mode tid e.cleanupReferenceHeld with
    | error status => exact .refused h hid
    | ok pair =>
      obtain ⟨result, z⟩ := pair
      obtain ⟨htid, hz, hadmission⟩ := hwf.beginIo_eq_ok hmode.symm hresult
      have hwf' := hwf.admitted htid (by simp [hphase]) h.held hadmission
      -- a thread that was granted the file adopts the grant and is refused here
      have hfresh : s.busy ≠ .granted tid := by
        intro hbusy
        simp [Lifecycle.serialization, hbusy, Busy.grant, ioGrantOwner, htid.1] at hgrant
      have hafter : s.after op (.admission result) =
          { s.admitted tid result with operations := (s.admitted tid result).operations + 1 } := by
        rcases hop with rfl | rfl <;> cases result <;> rfl
      refine .accepted ?_ ?_ hid
      · cases hadmission with
        | past hsync hheld => rcases hop with rfl | rfl <;> constructor <;> simp [hphase]
        | free hsync hheld hbusy hwaiters hcleanup =>
          rcases hop with rfl | rfl <;> constructor <;>
            simp [hphase, hbusy, hwaiters, hcleanup]
        | grant hsync hbusy => exact absurd hbusy hfresh
        | queue alertable hsync hheld =>
          rcases hop with rfl | rfl <;> constructor <;> simp [hphase]
      · rw [hafter]
        have hadmitted : EntryAgrees (s.admitted tid result) { e with serialization := z } := by
          cases result <;> exact h.withSerialization hwf' hz
        refine hadmitted.retained ?_ hroom
        cases result <;> simp [hphase]
  · simp only [hroom]
    exact .refused h hid

section

variable (hw : TableAgrees t w)
include hw

theorem call_acquireFileIo : CallAgrees t w (.acquireFileIo f tid) := by
  have hcall : (FileOp.acquireFileIo f tid).call t =
      TableOutcome.reply .admission (t.acquireFileIo f tid) := rfl
  unfold FileCompletionTable.acquireFileIo at hcall
  split at hcall
  · exact hw.refuse hcall
  split at hcall
  · exact hw.refuse hcall
  · exact hw.onThread hcall fun _ h hid => h.acquire hid (.inl rfl)

theorem call_adoptIoGrant : CallAgrees t w (.adoptIoGrant f tid) := by
  refine hw.onThread rfl fun e h hid => .unless h hid fun hguard => ?_
  refine .onSerialization h hid fun value z hz => ?_
  obtain ⟨hcheck, ⟨⟩⟩ := Result.guard_eq_ok hz
  simp only [not_or, not_not, Bool.not_eq_true] at hcheck
  obtain ⟨htid, hsync, howner⟩ := hcheck
  have hbusy : (w f).busy = .granted tid := (granted_iff htid).mp howner
  refine ⟨by constructor <;> simp [hbusy], ?_⟩
  refine h.withSerialization ?_ ?_
  · cases h.wellFormed
    constructor <;> simp_all
  · simp [serialization, hbusy, Busy.owner, Busy.grant]

theorem call_cancelIoWaiter : CallAgrees t w (.cancelIoWaiter f) := by
  refine hw.onEntry rfl fun e h hid => ?_
  refine .onSerialization h hid fun value z hz => ?_
  unfold FileIoSerialization.cancelIoWaiter at hz
  split_ifs at hz
  cases hz
  refine ⟨by constructor <;> simp, ?_⟩
  refine h.withSerialization ?_ rfl
  cases h.wellFormed
  constructor <;> simp_all

theorem call_promoteIoWaiter : CallAgrees t w (.promoteIoWaiter f tid) := by
  refine hw.onThread rfl fun e h hid => ?_
  refine .onSerialization h hid fun value z hz => ?_
  obtain ⟨hcheck, ⟨⟩⟩ := Result.guard_eq_ok hz
  simp only [not_or, not_not, Bool.not_eq_true] at hcheck
  obtain ⟨htid, hsync, howner, -, hwaiters⟩ := hcheck
  have hwf := h.wellFormed
  have htid := isReserved_eq_false.mp htid
  have hbusy : (w f).busy = .free := hwf.owner_eq_zero.mp howner
  have hwaiters : (w f).waiters ≠ 0 := hwaiters
  refine ⟨by constructor <;> simp [hbusy]; omega, ?_⟩
  refine h.withSerialization ?_ rfl
  cases hwf
  constructor <;> simp_all

theorem call_releaseIo : CallAgrees t w (.releaseIo f tid) := by
  refine hw.onEntry rfl fun e h hid => ?_
  refine .onSerialization h hid fun value z hz => ?_
  obtain ⟨hcheck, ⟨⟩⟩ := Result.guard_eq_ok hz
  simp only [not_or, not_not, Bool.not_eq_true] at hcheck
  obtain ⟨htid, hsync, howner⟩ := hcheck
  have hwf := h.wellFormed
  have hbusy : (w f).busy = .owned tid := by
    rw [isReserved_eq_false] at htid
    change (w f).serialization.ownerTid = tid ∧ (w f).serialization.grantTid = 0 at howner
    cases hbusy : (w f).busy <;> grind [serialization, Busy.owner, Busy.grant]
  refine ⟨by constructor <;> simp [hbusy], ?_⟩
  refine h.withSerialization ?_ ?_
  · cases hwf
    constructor <;> simp_all
  · simp [serialization, hbusy, Busy.owner, Busy.grant]

theorem call_cancelPromotedIo : CallAgrees t w (.cancelPromotedIo f tid) := by
  refine hw.onEntry rfl fun e h hid => ?_
  refine .onSerialization h hid fun value z hz => ?_
  obtain ⟨hcheck, ⟨⟩⟩ := Result.guard_eq_ok hz
  simp only [not_or, not_not, Bool.not_eq_true] at hcheck
  obtain ⟨htid, howner⟩ := hcheck
  have hbusy : (w f).busy = .granted tid := (granted_iff htid).mp howner
  refine ⟨by constructor <;> simp [hbusy], ?_⟩
  refine h.withSerialization ?_ rfl
  cases h.wellFormed
  constructor <;> simp_all

theorem call_updateIoModeWith (device : ℕ) (expected next : FileIoMode)
    (body : Except FileStatus Unit) :
    CallAgrees t w (.updateIoModeWith f tid device expected next body) := by
  refine hw.onThread rfl fun e h hid =>
    .unless h hid fun hdevice => .unless h hid fun hguard => ?_
  have hmode : next.isSynchronous = e.ioMode.isSynchronous := by
    by_contra hne
    exact hguard (.inr (.inr (.inl (Ne.symm hne))))
  cases body with
  | error status => exact .refused h hid
  | ok _ =>
    refine .accepted (by constructor <;> simp) ?_ hid
    exact { h with synchronous := hmode.trans h.synchronous }

/-! ## The cleanup -/

theorem call_beginCleanup : CallAgrees t w (.beginCleanup f) := by
  refine hw.onEntry rfl fun e (h : EntryAgrees (w f) e) hid => .unless h hid fun hguard => ?_
  have hwf := h.wellFormed
  have hphase : (w f).phase = .closing := by
    rw [h.held] at hguard
    by_contra hp
    simp [hp] at hguard
  refine .onSerialization h hid fun result z hz => ?_
  unfold FileIoSerialization.beginCleanup at hz
  simp only [FileOp.fileId, h.synchronous, hwf.owner_eq_zero] at hz
  obtain ⟨hthread, hopened, hasync, hcleanup, hwaiting, hbegun, hfinished, hpresent, hempty⟩ := hwf
  obtain ⟨hidle, hz⟩ := Result.guard_eq_ok hz
  split at hz
  · cases hz
    exact ⟨by constructor <;> simp, h.withSerialization h.wellFormed rfl⟩
  case isFalse hsync =>
    split at hz
    case isTrue hfree =>
      have hbusy := hfree.1
      have hwaiters : (w f).waiters = 0 := hfree.2
      have hnotwaiting : (w f).cleanupWaiting = false := by
        simp only [Bool.or_eq_true, not_or, Bool.not_eq_true] at hidle
        exact hidle.1
      cases hz
      refine ⟨by constructor <;> simp [hphase, hbusy, hwaiters], ?_⟩
      refine h.withSerialization ?_ ?_
      · constructor <;> simp_all
      · simp [serialization, hbusy, Busy.owner, Busy.grant]
    case isFalse hfree =>
      cases hz
      refine ⟨by constructor <;> simp, ?_⟩
      refine h.withSerialization ?_ rfl
      have howner : (w f).busy ≠ .cleanup := by
        intro hbusy
        simp [h.wellFormed.isCleanupOwner.mpr hbusy] at hidle
      have hstarted : (w f).cleanupStarted = false := by
        by_contra hs
        obtain ⟨-, hbusy, hwaiters, -⟩ := hbegun (by simpa using hs)
        exact hfree ⟨hbusy.resolve_right howner, hwaiters⟩
      constructor <;> simp_all

theorem call_promoteCleanupIfReady : CallAgrees t w (.promoteCleanupIfReady f) := by
  refine hw.onEntry rfl fun e (h : EntryAgrees (w f) e) hid => ?_
  refine .onSerialization h hid fun ready z hz => ?_
  have hwf := h.wellFormed
  unfold FileIoSerialization.promoteCleanupIfReady at hz
  rw [h.synchronous, h.held] at hz
  split at hz
  · cases hz
    exact ⟨by constructor <;> simp, h.withSerialization hwf rfl⟩
  case isFalse hcleanupWaiting =>
    obtain ⟨hguard, hz⟩ := Result.guard_eq_ok hz
    split at hz
    · cases hz
      exact ⟨by constructor <;> simp, h.withSerialization hwf rfl⟩
    case isFalse hlive =>
      cases hz
      obtain ⟨hbusy, hwaiters⟩ := hwf.hasLiveIo.mp (by simpa using hlive)
      have hphase : (w f).phase = .closing := by
        by_contra hp
        simp [hp] at hguard
      refine ⟨by constructor <;> simp [hphase, hbusy, hwaiters], ?_⟩
      refine h.withSerialization ?_ ?_
      · cases hwf
        constructor <;> simp_all
      · simp [serialization, hbusy, Busy.owner, Busy.grant]

theorem call_markCleanupLifecycleStarted : CallAgrees t w (.markCleanupLifecycleStarted f) := by
  refine hw.onEntry rfl fun e h hid =>
    .unless h hid fun hguard => .unless h hid fun hbusy => ?_
  have hwf := h.wellFormed
  have hphase : (w f).phase = .closing := by
    rw [h.held] at hguard
    by_contra hp
    simp [hp] at hguard
  have hnotwaiting : (w f).cleanupWaiting = false := by
    rw [h.serialization] at hguard
    simp only [not_or, Bool.not_eq_true] at hguard
    exact hguard.2.2
  split
  case isTrue hstarted =>
    rw [h.started] at hstarted
    refine .accepted (by constructor <;> simp) ?_ hid
    have hsame : (w f).after (.markCleanupLifecycleStarted f) (.flag false) = w f := by
      simp [← hstarted]
    exact hsame ▸ h
  case isFalse hstarted =>
    refine .accepted (by constructor <;> simp) ?_ hid
    rw [h.synchronous, h.serialization] at hbusy
    have hlock : ((w f).busy = .free ∨ (w f).busy = .cleanup) ∧ (w f).waiters = 0 := by
      cases hsync : (w f).synchronous with
      | false =>
        obtain ⟨hfree, hwaiters, -⟩ := hwf.asynchronous hsync
        exact ⟨.inl hfree, hwaiters⟩
      | true =>
        have hcleanup : (w f).busy = .cleanup :=
          hwf.isCleanupOwner.mp (by simpa [hsync] using hbusy)
        exact ⟨.inr hcleanup, (hwf.cleanup hcleanup).2.1⟩
    exact { h with
      wellFormed := { hwf with started := fun _ => ⟨hphase, hlock.1, hlock.2, hnotwaiting⟩ }
      started := rfl }

theorem call_releaseCleanupIo : CallAgrees t w (.releaseCleanupIo f) := by
  refine hw.onEntry rfl fun e h hid => ?_
  refine .onSerialization h hid fun value z hz => ?_
  have hwf := h.wellFormed
  obtain ⟨hcheck, ⟨⟩⟩ := Result.guard_eq_ok hz
  simp only [not_or] at hcheck
  have hbusy : (w f).busy = .cleanup := hwf.isCleanupOwner.mp (by simpa using hcheck.1)
  refine ⟨by constructor <;> simp [hbusy], ?_⟩
  refine h.withSerialization ?_ ?_
  · cases hwf
    constructor <;> simp_all
  · simp [serialization, hbusy, Busy.owner, Busy.grant]

end

end Calls

/-! ## Runs -/

variable {t : FileCompletionTable} {w : FileWorld}

theorem TableAgrees.call (hw : TableAgrees t w) (op : FileOp)
    (howns : OwnsReference (w op.fileId) op) (htime : InTime (w op.fileId) op) :
    CallAgrees t w op := by
  cases op with
  | insertFileWithMode f device mode => exact call_insertFileWithMode hw device
  | reserveFileHandlePublicationWithMode f device mode =>
    exact call_reserveFileHandlePublicationWithMode hw device
  | commitReservedFileHandle f => exact call_commitReservedFileHandle hw
  | cancelReservedFileHandle f =>
    have hidle : (w f).busy = .free ∧ (w f).waiters = 0 := htime
    refine hw.onEntry rfl fun e h hid => .unless h hid fun hguard => ?_
    refine ⟨_, _, rfl, .inl ⟨rfl, rfl⟩, fun value hok => ?_⟩
    constructor <;> simp [hidle]
  | retainHandle f => exact call_retainHandle hw
  | retainFile f => exact call_retainFile hw
  | releaseFile f => exact call_releaseFile hw howns
  | releaseHandle f => exact call_releaseHandle hw
  | releaseCleanupReference f => exact call_releaseCleanupReference hw
  | associate f binding =>
    refine hw.onEntry rfl fun e h hid => .unless h hid fun hguard => ?_
    refine .accepted ?_ ?_ hid
    · constructor <;> simp
    · exact { h with }
  | beginIo f tid => exact call_beginIo hw htime
  | acquireFileIo f tid => exact call_acquireFileIo hw
  | acquireFileIoWithMode f tid mode =>
    exact hw.onThread rfl fun _ h hid => h.acquire hid (.inr rfl)
  | adoptIoGrant f tid => exact call_adoptIoGrant hw
  | beginCleanup f => exact call_beginCleanup hw
  | cancelIoWaiter f => exact call_cancelIoWaiter hw
  | promoteIoWaiter f tid => exact call_promoteIoWaiter hw
  | promoteCleanupIfReady f => exact call_promoteCleanupIfReady hw
  | markCleanupLifecycleStarted f => exact call_markCleanupLifecycleStarted hw
  | releaseIo f tid => exact call_releaseIo hw
  | releaseCleanupIo f => exact call_releaseCleanupIo hw
  | cancelPromotedIo f tid => exact call_cancelPromotedIo hw
  | updateIoModeWith f tid device expected next body =>
    exact call_updateIoModeWith hw device expected next body

theorem TableAgrees.reported (hw : TableAgrees t w) : Reported t w := by
  intro f
  cases he : t.entry f with
  | none => rw [if_pos (by rw [hw.absent f he])]
  | some e =>
    have h := hw.present f e he
    rw [if_neg h.wellFormed.present]
    simp only [FileCompletionTable.ioLockOwner, FileCompletionTable.ioGrantOwner,
      FileCompletionTable.ioWaiterCount, he, Option.map_some, Option.elim_some,
      h.serialization]
    exact ⟨trivial, trivial, rfl⟩

theorem tableAgrees_new (files : ℕ) :
    TableAgrees (FileCompletionTable.new files) (fun _ => {}) := by
  have hfree : ∀ e ∈ FileCompletionTable.new files, e.isLive = false := by
    intro e he
    rw [List.eq_of_mem_replicate he]
    rfl
  refine ⟨distinct_of_free hfree, fun _ _ => rfl, fun f e he => ?_⟩
  have hnone : (FileCompletionTable.new files).entry f = none := lookup_of_free hfree f
  rw [hnone] at he
  cases he

theorem TableAgrees.orderly {ops : List FileOp} (hw : TableAgrees t w)
    (hcalls : EveryCall (fun s op => OwnsReference s op ∧ InTime s op) t w ops) :
    Orderly t w ops := by
  induction ops generalizing t w with
  | nil => exact hw.reported
  | cons op ops ih =>
    obtain ⟨⟨howns, htime⟩, hrest⟩ := hcalls
    obtain ⟨answer, t', hcall, hdiscipline, hw'⟩ := hw.call op howns htime
    exact ⟨hw.reported, answer, t', hcall, hdiscipline, ih hw' (hrest answer t' hcall)⟩

/-- A reference is kept over the cleanup, I/O is begun when the cleanup is over, and the
reference is dropped. -/
def lateIo : List FileOp :=
  [.insertFileWithMode 7 1 .synchronousAlertable, .retainFile 7, .releaseHandle 7,
    .beginCleanup 7, .markCleanupLifecycleStarted 7, .releaseCleanupIo 7,
    .releaseCleanupReference 7, .beginIo 7 5, .releaseFile 7]

/-- Two threads do I/O on a file that is only reserved; the second one is promoted. -/
def reservedIo : List FileOp :=
  [.reserveFileHandlePublicationWithMode 7 1 .synchronousAlertable, .beginIo 7 5, .beginIo 7 6,
    .releaseIo 7 5, .promoteIoWaiter 7 6]

/-- The table admits I/O after the cleanup, and then the assertion on the last reference fires;
it also admits I/O to a reservation, whose cancellation takes a promoted grant with it. -/
theorem late_io_is_not_orderly :
    (EveryCall OwnsReference (.new 1) (fun _ => {}) lateIo ∧
      runCalls (.new 1) (fun _ => {}) lateIo = none ∧
      ¬ Orderly (.new 1) (fun _ => {}) lateIo) ∧
    EveryCall OwnsReference (.new 1) (fun _ => {}) (reservedIo ++ [.cancelReservedFileHandle 7]) ∧
      ¬ Orderly (.new 1) (fun _ => {}) (reservedIo ++ [.cancelReservedFileHandle 7]) := by
  have hpanic : runCalls (.new 1) (fun _ => {}) lateIo = none := by
    decide
  refine ⟨⟨by decide, hpanic, fun h => ?_⟩, by decide, fun h => ?_⟩
  · rw [← List.append_nil lateIo] at h
    obtain ⟨t, w, hrun, -⟩ := h.append
    cases hrun
  · obtain ⟨t, w, hrun, -, answer, t', hcall, hdiscipline, -⟩ := h.append
    have hstate : (runCalls (.new 1) (fun _ => {}) reservedIo).map (fun p =>
        ((p.2 7).busy, ((FileOp.cancelReservedFileHandle 7).call p.1).map (·.1.toOption))) =
        some (.granted 6, some (some .done)) := by decide
    rw [hrun] at hstate
    simp only [Option.map_some, Option.some.injEq, Prod.mk.injEq, hcall] at hstate
    cases answer with
    | error status => cases hstate.2
    | ok reply =>
      have := (hdiscipline reply rfl).grant_kept 6 hstate.1
      simp at this

/-- A run of the table from the start, in which the callers drop only references they took, no
I/O is begun on a file whose cleanup is over, and no reservation is cancelled under its own
I/O, is orderly. -/
theorem fileTable_orderly (files : ℕ) (ops : List FileOp)
    (hcalls : EveryCall (fun s op => OwnsReference s op ∧ InTime s op)
      (FileCompletionTable.new files) (fun _ => {}) ops) :
    Orderly (FileCompletionTable.new files) (fun _ => {}) ops :=
  (tableAgrees_new files).orderly hcalls

/-- An operation waits, is promoted and goes on while the file is closed under it; then the
cleanup runs and the last reference closes the file. -/
def closingRun : List FileOp :=
  [.insertFileWithMode 7 1 .synchronousAlertable, .acquireFileIo 7 5, .acquireFileIo 7 6,
    .releaseHandle 7, .beginCleanup 7, .releaseIo 7 5, .releaseFile 7, .promoteIoWaiter 7 6,
    .adoptIoGrant 7 6, .releaseIo 7 6, .promoteCleanupIfReady 7, .markCleanupLifecycleStarted 7,
    .releaseCleanupIo 7, .releaseCleanupReference 7, .releaseFile 7]

theorem fileTable_orderly_closingRun :
    EveryCall (fun s op => OwnsReference s op ∧ InTime s op) (.new 2) (fun _ => {}) closingRun ∧
      (runCalls (.new 2) (fun _ => {}) closingRun).map (fun p => p.2 7) = some {} ∧
      Orderly (.new 2) (fun _ => {}) closingRun :=
  ⟨by decide, by decide, fileTable_orderly 2 closingRun (by decide)⟩

end UserspaceNtos.IoCompletion
