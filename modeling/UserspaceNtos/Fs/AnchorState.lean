import UserspaceNtos.Fs.WalAnchorUpdate
import UserspaceNtos.Fs.SnapshotImage

/-!
# Snapshot headers that name the log

A device with a snapshot store and a log range next to it.  `Names` says that an anchor
is the end of a record of the log.  The slots are `Anchored` if the newest header and its
predecessor carry the same anchor, or if both slots are valid and their anchors differ
because only one of the headers has been advanced.  In both cases `read_latest_metadata`
reports an anchor of the log (`Anchored.readLatestMetadata`), and with it the boot
appends exactly the records behind the selected snapshot.
-/

namespace UserspaceNtos.Fs

open SnapshotBlockStore Nat

/-- A snapshot store and a log range on one device. -/
structure AnchorSite where
  snapshots : SnapshotSite
  walStart : ℕ
  walSectors : ℕ
  incarnation : ℕ
  three_le : 3 ≤ walSectors
  incarnation_ne_zero : incarnation ≠ 0
  incarnation_lt : incarnation < 2 ^ 64
  inside : walStart + walSectors ≤ snapshots.device.sectors
  disjoint : walStart + walSectors ≤ snapshots.store.startLba
    ∨ snapshots.store.startLba + snapshots.store.sectorCount ≤ walStart
  batch_lt : snapshots.size * batchSectors < 2 ^ 64

/-- The log range. -/
abbrev AnchorSite.log (A : AnchorSite) : WalSite where
  size := A.snapshots.size
  device := ⟨A.snapshots.device.start + A.walStart, A.walSectors⟩
  incarnation := A.incarnation
  headerBytes_le := le_trans (by decide) A.snapshots.headerLen_le
  three_le_sectors := A.three_le
  incarnation_ne_zero := A.incarnation_ne_zero
  incarnation_lt := A.incarnation_lt
  addressable := by
    have haddr := A.snapshots.addressable
    have hinside := A.inside
    unfold BlockRange.Addressable at haddr ⊢
    show A.snapshots.device.start + A.walStart + A.walSectors < 2 ^ 64
    omega
  batch_lt := A.batch_lt

/-! ## Ends of records -/

section Ends

variable {S : WalSite}

theorem framesEnd_take_le (cursor : ℕ) (ps : List (List UInt8)) {j k : ℕ} (h : j ≤ k) :
    S.framesEnd cursor (ps.take j) ≤ S.framesEnd cursor (ps.take k) := by
  induction ps generalizing cursor j k with
  | nil => simp
  | cons p ps ih =>
    cases j with
    | zero => exact le_framesEnd _ _
    | succ j =>
      cases k with
      | zero => omega
      | succ k => exact ih _ (le_of_succ_le_succ h)

theorem getElem?_frameEnds (cursor : ℕ) {ps : List (List UInt8)} {k : ℕ} (h : k < ps.length) :
    (S.frameEnds cursor ps)[k]? = some (S.framesEnd cursor (ps.take (k + 1))) := by
  induction ps generalizing cursor k with
  | nil => cases h
  | cons p ps ih =>
    cases k with
    | zero => rfl
    | succ k => exact ih _ (lt_of_succ_lt_succ h)

/-- The anchor is the end of a record of the log with the records `ps`. -/
structure Names (S : WalSite) (ps : List (List UInt8)) (anchor : WalSnapshotAnchor) : Prop where
  incarnation : anchor.incarnation = S.incarnation
  serial_le : anchor.serial ≤ ps.length
  endLba : anchor.endLba = S.framesEnd 0 (ps.take anchor.serial)

variable {ps : List (List UInt8)} {anchor anchor' : WalSnapshotAnchor} {phase : WalPhase}

/-- A longer log has the old ends. -/
theorem Names.append (h : Names S ps anchor) (q : List UInt8) : Names S (ps ++ [q]) anchor where
  incarnation := h.incarnation
  serial_le := by
    have := h.serial_le
    rw [List.length_append]
    omega
  endLba := by rw [List.take_append_of_le_length h.serial_le, h.endLba]

theorem Names.endLba_le (h : Names S ps anchor) (h' : Names S ps anchor')
    (hle : anchor.serial ≤ anchor'.serial) : anchor.endLba ≤ anchor'.endLba := by
  rw [h.endLba, h'.endLba]
  exact framesEnd_take_le 0 ps hle

theorem Names.eq_of_serial_eq (h : Names S ps anchor) (h' : Names S ps anchor')
    (hserial : anchor.serial = anchor'.serial) : anchor = anchor' := by
  have hincarnation := h.incarnation.trans h'.incarnation.symm
  have hend : anchor.endLba = anchor'.endLba := by rw [h.endLba, h'.endLba, hserial]
  cases anchor
  cases anchor'
  simp only at hincarnation hserial hend
  rw [hincarnation, hserial, hend]

/-- The end of the whole log. -/
def logEnd (S : WalSite) (ps : List (List UInt8)) : WalSnapshotAnchor :=
  ⟨S.incarnation, ps.length, S.framesEnd 0 ps⟩

theorem verifiedRecordEndLba_recovered
    (hverified : (recovered S ps phase).verifiedPrefix = some anchor') {serial : ℕ}
    (hserial : serial ≤ ps.length) : (recovered S ps phase).verifiedRecordEndLba serial
      = some (S.framesEnd 0 (ps.take serial)) := by
  rw [RegistryWal.verifiedRecordEndLba, hverified, Option.bind_some]
  cases serial with
  | zero => rfl
  | succ serial => exact (if_neg (succ_ne_zero _)).trans (getElem?_frameEnds 0 hserial)

/-- What an owner knows when it has a verified prefix at all. -/
theorem verifiedPrefix_recovered
    (hverified : (recovered S ps phase).verifiedPrefix = some anchor) : anchor = logEnd S ps := by
  unfold RegistryWal.verifiedPrefix at hverified
  have hnext : (recovered S ps phase).nextSerial = ps.length + 1 := recovered_nextSerial ..
  cases hphase : (recovered S ps phase).phase <;> rw [hphase] at hverified <;>
    simp only [reduceCtorEq] at hverified
  all_goals exact (Option.some.inj hverified).symm

/-- The boot accepts exactly the anchors of the log that it recovers. -/
theorem verifyRecoveredWalAnchor_eq_ok_iff {base : ℕ}
    (hverified : (recovered S ps phase).verifiedPrefix = some anchor') :
    verifyRecoveredWalAnchor base anchor (recovered S ps phase) = .ok ()
      ↔ Names S ps anchor ∧ base ≤ ps.length := by
  have hend := verifiedPrefix_recovered hverified
  rw [verifyRecoveredWalAnchor, hverified]
  simp only [ite_eq_right_iff, reduceCtorEq, imp_false, hend, not_or, not_not, not_lt]
  constructor
  · rintro ⟨hincarnation, hserial, hlba, hbase⟩
    rw [verifiedRecordEndLba_recovered hverified hserial] at hlba
    exact ⟨⟨hincarnation.symm, hserial, (Option.some.inj hlba).symm⟩, hbase⟩
  · rintro ⟨hnames, hbase⟩
    refine ⟨hnames.incarnation.symm, hnames.serial_le, ?_, hbase⟩
    rw [verifiedRecordEndLba_recovered hverified hnames.serial_le, hnames.endLba]

theorem totalLength_eq {length : ℕ} {records : List RegistryWalRecord}
    (h : length + (records.flatMap RegistryWalRecord.payload).length < 2 ^ 64) :
    totalLength length records
      = some (length + (records.flatMap RegistryWalRecord.payload).length) := by
  induction records generalizing length with
  | nil => rfl
  | cons record rest ih =>
    rw [List.flatMap_cons, List.length_append] at h ⊢
    rw [totalLength, checkedAdd_of_lt (by omega)]
    simp only
    rw [ih (by omega), add_assoc]

end Ends

/-! ## The slots -/

variable {A : AnchorSite} {m m' : A.snapshots.Contents} {ps : List (List UInt8)} {floor slot : ℕ}
  {plan : ℕ → SlotReadPlan} {manifest : ℕ → WalSnapshotManifest} {newest : SlotReadPlan}
  {payload : List UInt8}

/-- What holds for a slot and the other one holds for both. -/
theorem forall_slots {P : ℕ → Prop} (hslot : slot ≤ 1) (h : P slot)
    (h' : P (1 - slot)) : ∀ s ≤ 1, P s := by
  intro s hs
  by_cases heq : s = slot
  · exact heq ▸ h
  · obtain rfl : s = 1 - slot := by omega
    exact h'

/-- Both slots are valid, and their anchors are ends of records from `floor` on; the
anchors may differ. -/
structure Paired (A : AnchorSite) (m : A.snapshots.Contents) (ps : List (List UInt8)) (floor : ℕ)
    (plan : ℕ → SlotReadPlan) (manifest : ℕ → WalSnapshotManifest) : Prop where
  slot_eq : ∀ slot ≤ 1, (plan slot).slot = slot
  holds : ∀ slot ≤ 1, ∃ payload, Holds A.snapshots m (plan slot) payload
  ready : ∀ slot ≤ 1, (plan slot).resetting = false
  wal : ∀ slot ≤ 1, (plan slot).wal = some (manifest slot)
  generation_ne : (plan 0).generation ≠ (plan 1).generation
  base_le : ∀ slot ≤ 1, (plan (1 - slot)).generation < (plan slot).generation →
    (manifest (1 - slot)).baseSerial ≤ (manifest slot).baseSerial
  names : ∀ slot ≤ 1, Names A.log ps (manifest slot).anchor
  floor_le : ∀ slot ≤ 1, floor ≤ (manifest slot).highWaterSerial

/-- The headers name ends of records of the log from `floor` on: both the same one, or
each its own while only one of them has been advanced. -/
inductive Anchored (A : AnchorSite) (m : A.snapshots.Contents) (ps : List (List UInt8))
    (floor : ℕ) : Prop
  | chosen {plan : SlotReadPlan} {payload : List UInt8} {manifest : WalSnapshotManifest}
      (hchosen : Chosen A.snapshots m plan payload) (hwal : plan.wal = some manifest)
      (hnames : Names A.log ps manifest.anchor) (hfloor : floor ≤ manifest.highWaterSerial) :
      Anchored A m ps floor
  | paired {plan : ℕ → SlotReadPlan} {manifest : ℕ → WalSnapshotManifest}
      (h : Paired A m ps floor plan manifest) : Anchored A m ps floor

section

variable (h : Paired A m ps floor plan manifest)
include h

/-- The slot with the newer header. -/
theorem Paired.exists_newer :
    ∃ slot ≤ 1, (plan (1 - slot)).generation < (plan slot).generation := by
  have hne := h.generation_ne
  rcases lt_or_gt_of_ne hne with hlt | hlt
  · exact ⟨1, le_rfl, hlt⟩
  · exact ⟨0, zero_le _, hlt⟩

theorem Paired.other_header (hslot : slot ≤ 1) : A.snapshots.slotPlan (1 - (plan slot).slot)
      (A.snapshots.sector m (A.snapshots.slotBase (1 - (plan slot).slot)))
      = .ok (some (plan (1 - slot))) := by
  obtain ⟨payload, hholds⟩ := h.holds (1 - slot) (sub_le _ _)
  have hheader := hholds.header
  rw [h.slot_eq _ (sub_le _ _)] at hheader
  rw [h.slot_eq slot hslot]
  exact hheader

/-- Of two valid slots with equal anchors the newer one is chosen. -/
theorem Paired.chosen (hanchor : (manifest 0).anchor = (manifest 1).anchor) : ∃ slot ≤ 1, ∃ payload,
      Chosen A.snapshots m (plan slot) payload := by
  obtain ⟨slot, hslot, hlt⟩ := h.exists_newer
  obtain ⟨payload, hholds⟩ := h.holds slot hslot
  refine ⟨slot, hslot, payload, hholds, h.ready slot hslot, Or.inr ⟨_, h.other_header hslot, hlt,
    h.ready _ (sub_le _ _), ?_⟩⟩
  rw [h.wal slot hslot, h.wal _ (sub_le _ _)]
  refine ⟨?_, h.base_le slot hslot hlt⟩
  rcases le_one_iff_eq_zero_or_eq_one.mp hslot with rfl | rfl
  · exact hanchor
  · exact hanchor.symm

end

/-- A chosen slot with a valid companion. -/
theorem Chosen.paired {other : SlotReadPlan} {stored : List UInt8} {current : WalSnapshotManifest}
    (h : Chosen A.snapshots m newest payload) (hwal : newest.wal = some current)
    (hnames : Names A.log ps current.anchor) (hfloor : floor ≤ current.highWaterSerial)
    (hother : Holds A.snapshots m other stored) (hslot : other.slot = 1 - newest.slot) :
    ∃ older, other.wal = some older ∧ Paired A m ps floor
      (fun slot => if slot = newest.slot then newest else other)
      (fun slot => if slot = newest.slot then current else older) := by
  have hheader := hother.header
  rw [hslot] at hheader
  obtain ⟨hlt, hready, hprecedes⟩ := h.older hheader
  cases holder : other.wal with
  | none => simp [hwal, holder, Precedes] at hprecedes
  | some older =>
    rw [hwal, holder] at hprecedes
    obtain ⟨hanchor, hbase⟩ := hprecedes
    have hle := h.slot_le
    have hserial : current.highWaterSerial = older.highWaterSerial :=
      congrArg WalSnapshotAnchor.serial hanchor
    have hne : 1 - newest.slot ≠ newest.slot := by omega
    refine ⟨older, rfl, ?_, ?_, ?_, ?_, ?_, ?_, ?_, ?_⟩
    · exact forall_slots hle (by rw [if_pos rfl]) (by rw [if_neg hne, hslot])
    · exact forall_slots hle (by rw [if_pos rfl]; exact ⟨payload, h.toHolds⟩)
        (by rw [if_neg hne]; exact ⟨stored, hother⟩)
    · exact forall_slots hle (by rw [if_pos rfl, h.ready]) (by rw [if_neg hne, hready])
    · exact forall_slots hle (by rw [if_pos rfl, if_pos rfl, hwal])
        (by rw [if_neg hne, if_neg hne, holder])
    · rcases le_one_iff_eq_zero_or_eq_one.mp hle with hzero | hone
      · rw [if_pos hzero.symm, if_neg (by omega)]
        omega
      · rw [if_neg (by omega), if_pos hone.symm]
        omega
    · refine forall_slots hle (fun _ => ?_) fun hnewer => ?_
      · rw [if_neg hne, if_pos rfl]
        exact hbase
      · rw [if_pos (by omega), if_neg hne] at hnewer
        omega
    · exact forall_slots hle (by rw [if_pos rfl]; exact hnames)
        (by rw [if_neg hne, ← hanchor]; exact hnames)
    · exact forall_slots hle (by rw [if_pos rfl]; exact hfloor)
        (by rw [if_neg hne, ← hserial]; exact hfloor)

/-! ## Changes elsewhere -/

theorem Chosen.congr (h : Chosen A.snapshots m newest payload)
    (hagrees : ∀ slot ≤ 1, SlotAgrees A.snapshots m m' slot) :
    Chosen A.snapshots m' newest payload := by
  refine ⟨h.toHolds.congr (hagrees _ h.slot_le), h.ready, ?_⟩
  rw [(hagrees _ (sub_le _ _)).header]
  exact h.companion

theorem Paired.congr (h : Paired A m ps floor plan manifest)
    (hagrees : ∀ slot ≤ 1, SlotAgrees A.snapshots m m' slot) :
    Paired A m' ps floor plan manifest := by
  refine { h with holds := fun slot hslot => ?_ }
  obtain ⟨payload, hholds⟩ := h.holds slot hslot
  exact ⟨payload, hholds.congr (hagrees _ hholds.slot_le)⟩

/-- The headers depend on the sectors of the slots only. -/
theorem Anchored.congr (h : Anchored A m ps floor)
    (hagrees : ∀ slot ≤ 1, SlotAgrees A.snapshots m m' slot) : Anchored A m' ps floor := by
  cases h with
  | chosen hchosen hwal hnames hfloor => exact .chosen (hchosen.congr hagrees) hwal hnames hfloor
  | paired h => exact .paired (h.congr hagrees)

/-- A longer log has the old ends. -/
theorem Anchored.append (h : Anchored A m ps floor) (q : List UInt8) :
    Anchored A m (ps ++ [q]) floor := by
  cases h with
  | chosen hchosen hwal hnames hfloor => exact .chosen hchosen hwal (hnames.append q) hfloor
  | paired h => exact .paired { h with names := fun slot hslot => (h.names slot hslot).append q }

/-! ## What the boot reports -/

/-- The floor of two manifests of one log is one of their anchors, the later one. -/
theorem walRecoveryFloor_of_names {selected other : WalSnapshotManifest}
    (hselected : Names A.log ps selected.anchor) (hother : Names A.log ps other.anchor)
    (hvalid : selected.baseSerial ≤ selected.highWaterSerial)
    (hbase : other.baseSerial ≤ selected.baseSerial) :
    ∃ anchor, walRecoveryFloor selected (some other) = .ok anchor ∧ Names A.log ps anchor
      ∧ selected.highWaterSerial ≤ anchor.serial ∧ selected.baseSerial ≤ anchor.serial := by
  have hincarnation := hother.incarnation.trans hselected.incarnation.symm
  have hserial : ∀ m : WalSnapshotManifest, m.anchor.serial = m.highWaterSerial := fun _ => rfl
  have hequal : other.anchor.serial = selected.anchor.serial →
      other.anchor.endLba = selected.anchor.endLba :=
    fun heq => congrArg WalSnapshotAnchor.endLba (hother.eq_of_serial_eq hselected heq)
  have hconsistent : ¬ (selected.baseSerial < other.baseSerial
      ∨ other.anchor.incarnation ≠ selected.anchor.incarnation
      ∨ other.anchor.serial = selected.anchor.serial ∧ other.anchor.endLba ≠ selected.anchor.endLba
      ∨ other.anchor.serial > selected.anchor.serial ∧ other.anchor.endLba < selected.anchor.endLba
      ∨ other.anchor.serial < selected.anchor.serial
        ∧ other.anchor.endLba > selected.anchor.endLba) := by
    rintro (h | h | ⟨h, hne⟩ | ⟨h, hlt⟩ | ⟨h, hlt⟩)
    · omega
    · exact h hincarnation
    · exact hne (hequal h)
    · have := hselected.endLba_le hother h.le
      omega
    · have := hother.endLba_le hselected h.le
      omega
  rw [walRecoveryFloor]
  rw [if_neg hconsistent]
  by_cases hlater : other.anchor.serial > selected.anchor.serial
  · have hle := hserial selected
    refine ⟨other.anchor, ?_, hother, by omega, by omega⟩
    rw [if_pos hlater]
    exact if_neg (by omega)
  · refine ⟨selected.anchor, ?_, hselected, le_rfl, hvalid⟩
    rw [if_neg hlater]
    exact if_neg (not_lt.mpr hvalid)

theorem Paired.metadataForSelected (h : Paired A m ps floor plan manifest) (hslot : slot ≤ 1)
    (hlt : (plan (1 - slot)).generation < (plan slot).generation) :
    ∃ anchor, A.snapshots.store.metadataForSelected A.snapshots.device (readAll m) (plan slot)
        = .ok ⟨(plan slot).generation, (plan slot).payloadLen,
          .wal (manifest slot).baseSerial anchor⟩
      ∧ Names A.log ps anchor ∧ floor ≤ anchor.serial
      ∧ (manifest slot).baseSerial ≤ anchor.serial := by
  obtain ⟨payload, hholds⟩ := h.holds slot hslot
  obtain ⟨stored, hother⟩ := h.holds (1 - slot) (sub_le _ _)
  have hvalid := WalSnapshotManifest.baseSerial_le_of_valid
    ((encodable_of_slotPlan hholds.header).wal _ (h.wal slot hslot)).2
  have hfloor := h.floor_le slot hslot
  obtain ⟨anchor, hanchor, hnames, hserial, hbase⟩ := walRecoveryFloor_of_names
    (h.names slot hslot) (h.names _ (sub_le _ _)) hvalid (h.base_le slot hslot hlt)
  have hcompanion : A.snapshots.store.companionManifest A.snapshots.device (readAll m) (plan slot)
      (manifest slot) (some (plan (1 - slot))) = .ok (some (manifest (1 - slot))) := by
    rw [companionManifest, h.wal _ (sub_le _ _), hother.validate]
    rfl
  refine ⟨anchor, ?_, hnames, hfloor.trans hserial, hbase⟩
  rw [SnapshotBlockStore.metadataForSelected, readSlotPlan_readAll (sub_le _ _),
    h.other_header hslot]
  show (if _ then _ else _) = _
  rw [if_neg (by simp [h.ready slot hslot, h.ready _ (sub_le 1 slot)]), h.wal slot hslot]
  show (A.snapshots.store.companionManifest A.snapshots.device (readAll m) (plan slot)
    (manifest slot) (some (plan (1 - slot))) >>= _) = _
  rw [hcompanion]
  show (walRecoveryFloor (manifest slot) (some (manifest (1 - slot))) >>= _) = _
  rw [hanchor]
  rfl

theorem readLatestMetadata_of_newest
    {metadata : StoredSnapshotMetadata} (h : Newest A.snapshots m newest payload)
    (hmetadata : A.snapshots.store.metadataForSelected A.snapshots.device (readAll m) newest
      = .ok metadata) :
    A.snapshots.store.readLatestMetadata A.snapshots.device (readAll m) = .ok (some metadata) := by
  rw [readLatestMetadata, h.latestValidSlot]
  show (A.snapshots.store.metadataForSelected A.snapshots.device (readAll m) newest >>= _) = _
  rw [hmetadata]
  rfl

/-- The boot reports an end of a record of the log from the floor on, and a snapshot that
has not folded more than that. -/
theorem Anchored.readLatestMetadata (h : Anchored A m ps floor) :
    ∃ generation payloadLen base anchor,
      A.snapshots.store.readLatestMetadata A.snapshots.device (readAll m)
        = .ok (some ⟨generation, payloadLen, .wal base anchor⟩)
      ∧ Names A.log ps anchor ∧ floor ≤ anchor.serial ∧ base ≤ anchor.serial := by
  cases h with
  | chosen hchosen hwal hnames hfloor =>
    have hbase := WalSnapshotManifest.baseSerial_le_of_valid (hchosen.manifest_valid hwal)
    exact ⟨_, _, _, _, readLatestMetadata_of_newest hchosen.newest
      (hchosen.metadataForSelected hwal), hnames, hfloor, hbase⟩
  | paired h =>
    obtain ⟨slot, hslot, hlt⟩ := h.exists_newer
    obtain ⟨payload, hholds⟩ := h.holds slot hslot
    have hnewest : Newest A.snapshots m _ payload :=
      ⟨hholds, some _, h.other_header hslot, by rintro _ ⟨⟩; exact hlt⟩
    obtain ⟨anchor, hmetadata, hnames, hfloor, hbase⟩ := h.metadataForSelected hslot hlt
    exact ⟨_, _, _, anchor, readLatestMetadata_of_newest hnewest hmetadata, hnames, hfloor, hbase⟩

end UserspaceNtos.Fs
