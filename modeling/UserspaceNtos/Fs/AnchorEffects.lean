import UserspaceNtos.Fs.AnchorState
import UserspaceNtos.Fs.SnapshotPublish

/-!
# What an anchor update writes

An update that is admitted starts from two valid slots, or from a chosen slot with a torn
companion (`Anchored.admitVerifiedWal`).  In the second case its first two barriers
make the companion a copy with a newer generation, and the contents stay `Anchored`
throughout; then both slots are valid.  The last two barriers replace one header each:
between them the anchors differ, at the end both name the end of the log
(`runs_advanceEffects`).
-/

namespace UserspaceNtos.Fs

open CachedStorage WalSnapshotAnchorUpdate Result
open Function (update update_of_ne update_self)

variable {A : AnchorSite} {m m' : A.snapshots.Contents} {ps : List (List UInt8)} {floor slot : ℕ}
  {plan : ℕ → SlotReadPlan} {manifest : ℕ → WalSnapshotManifest} {env : Env}
  {verified : VerifiedLog} {newest : SlotReadPlan} {current : WalSnapshotManifest} {generation : ℕ}

/-- Whatever is found after a power failure is anchored. -/
abbrev Survives (A : AnchorSite) (ps : List (List UInt8)) (floor : ℕ)
    (d : Store (Sector A.snapshots.size)) : Prop :=
  ∀ m', d.IsImage m' → Anchored A m' ps floor

/-! ## Admission -/

/-- An update from the plans of both slots. -/
def AnchorSite.update (A : AnchorSite) (verified : VerifiedLog) (plan : ℕ → SlotReadPlan)
    (source : Option SlotReadPlan) : WalSnapshotAnchorUpdate where
  device := A.snapshots.device
  store := A.snapshots.store
  headers := (anchoredHeader verified.anchor (plan 0), anchoredHeader verified.anchor (plan 1))
  tornCompanionSource := source
  continuation := verified
  phase := .pending

/-- The plans of an update that repairs the companion of `newest`. -/
def repairedPlans (newest : SlotReadPlan) (generation : ℕ) : ℕ → SlotReadPlan := fun slot =>
  if slot = (repairedPlan newest generation).slot then repairedPlan newest generation else newest

/-- A chosen slot from which a newer copy can be made. -/
structure Repairable (A : AnchorSite) (m : A.snapshots.Contents) (ps : List (List UInt8))
    (floor : ℕ) (newest : SlotReadPlan) (generation : ℕ) (current : WalSnapshotManifest) :
    Prop where
  chosen : ∃ payload, Chosen A.snapshots m newest payload
  wal : newest.wal = some current
  names : Names A.log ps current.anchor
  floor_le : floor ≤ current.highWaterSerial
  newer : newest.generation < generation
  generation_lt : generation < 2 ^ 64

/-- What an update starts from: two valid slots, or one from which the other is copied. -/
inductive Advances (A : AnchorSite) (m : A.snapshots.Contents) (ps : List (List UInt8))
    (floor : ℕ) : (ℕ → SlotReadPlan) → Option SlotReadPlan → Prop
  | paired {plan : ℕ → SlotReadPlan} {manifest : ℕ → WalSnapshotManifest}
      (h : Paired A m ps floor plan manifest) : Advances A m ps floor plan none
  | torn {newest : SlotReadPlan} {generation : ℕ} {current : WalSnapshotManifest}
      (h : Repairable A m ps floor newest generation current) :
      Advances A m ps floor (repairedPlans newest generation) (some newest)

section Admission

variable {size : ℕ} {store : SnapshotBlockStore} {device : BlockRange} {read : ReadSector size}
  {plans : SlotReadPlan × SlotReadPlan} {source : Option SlotReadPlan}

theorem tornPlans_eq_ok {selected : SlotReadPlan}
    (h : tornPlans store device read selected = .ok (plans, source)) : ∃ companion generation,
      store.readSlotPlan device read (1 - selected.slot) = .ok (some companion)
      ∧ generation = max selected.generation companion.generation + 1 ∧ generation < 2 ^ 64
      ∧ source = some selected
      ∧ plans = if selected.slot = 0 then (selected, repairedPlan selected generation)
        else (repairedPlan selected generation, selected) := by
  obtain ⟨found, hfound, h⟩ := bind_eq_ok h
  obtain ⟨companion, hcompanion, h⟩ := bind_eq_ok h
  obtain ⟨_, -, h⟩ := bind_eq_ok h
  obtain ⟨_, -, h⟩ := bind_eq_ok h
  obtain ⟨_, -, h⟩ := bind_eq_ok h
  rw [orCorrupt_eq_ok hcompanion] at hfound
  rcases hnext : checkedAdd (max selected.generation companion.generation) 1 with _ | generation
  · rw [hnext] at h
    cases h
  · rw [hnext] at h
    cases h
    obtain ⟨rfl, hlt⟩ := checkedAdd_eq_some hnext
    exact ⟨companion, _, hfound, rfl, hlt, rfl, rfl⟩

end Admission

/-- The plans of an update whose reads found two valid slots. -/
private theorem Anchored.advances_of_valid (h : Anchored A m ps floor)
    {a b : SlotReadPlan}
    (h₀ : A.snapshots.store.readValidSlotPlan A.snapshots.device (readAll m) 0 = .ok (some a))
    (h₁ : A.snapshots.store.readValidSlotPlan A.snapshots.device (readAll m) 1
      = .ok (some b)) :
    ∃ plan, Advances A m ps floor plan none ∧ plan 0 = a ∧ plan 1 = b := by
  have hread : ∀ slot ≤ 1, A.snapshots.store.readValidSlotPlan A.snapshots.device (readAll m) slot
        = .ok (some (if slot = 0 then a else b)) :=
    forall_slots (Nat.zero_le 1) h₀ h₁
  cases h with
  | @chosen newest payload current hchosen hwal hnames hfloor =>
    -- the newest slot is one of the two, and the other one is valid as well
    have hnewest := hread _ hchosen.slot_le
    rw [hchosen.readValidSlotPlan] at hnewest
    obtain ⟨hslot, hother⟩ := holds_of_readValidSlotPlan (Nat.sub_le _ _)
      (hread (1 - newest.slot) (Nat.sub_le _ _))
    obtain ⟨older, -, hpaired⟩ := hchosen.paired hwal hnames hfloor hother hslot
    refine ⟨_, .paired hpaired, ?_, ?_⟩
    · rcases Nat.le_one_iff_eq_zero_or_eq_one.mp hchosen.slot_le with hzero | hone
      · simpa [hzero] using hnewest
      · simp [hone]
    · rcases Nat.le_one_iff_eq_zero_or_eq_one.mp hchosen.slot_le with hzero | hone
      · simp [hzero]
      · simpa [hone] using hnewest
  | @paired plan manifest h =>
    have hplan : ∀ slot ≤ 1, plan slot = if slot = 0 then a else b := by
      intro slot hslot
      obtain ⟨payload, hholds⟩ := h.holds slot hslot
      have hvalid := hholds.readValidSlotPlan
      rw [h.slot_eq slot hslot, hread slot hslot] at hvalid
      exact (Option.some.inj (Except.ok.inj hvalid)).symm
    exact ⟨plan, .paired h, hplan 0 (Nat.zero_le _), hplan 1 le_rfl⟩

/-- The plans of an update whose reads found a torn slot. -/
private theorem Anchored.advances_of_torn (h : Anchored A m ps floor)
    {plans : SlotReadPlan × SlotReadPlan} {source : Option SlotReadPlan}
    (hslot : slot ≤ 1) {selected : SlotReadPlan}
    (hvalid : A.snapshots.store.readValidSlotPlan A.snapshots.device (readAll m) slot
      = .ok (some selected))
    (htorn : A.snapshots.store.readValidSlotPlan A.snapshots.device (readAll m) (1 - slot)
      = .error .corrupt)
    (hplans : tornPlans A.snapshots.store A.snapshots.device (readAll m) selected
      = .ok (plans, source)) :
    ∃ plan, Advances A m ps floor plan source ∧ plan 0 = plans.1 ∧ plan 1 = plans.2 := by
  cases h with
  | @chosen newest payload current hchosen hwal hnames hfloor =>
    -- the torn slot is not the newest one, so the valid one is
    have hsame : slot = newest.slot := by
      by_contra hne
      have hother : 1 - slot = newest.slot := by
        have := hchosen.slot_le
        omega
      rw [hother, hchosen.readValidSlotPlan] at htorn
      cases htorn
    rw [hsame, hchosen.readValidSlotPlan] at hvalid
    cases hvalid
    obtain ⟨companion, generation, hcompanion, hgeneration, hlt, rfl, hpair⟩ :=
      tornPlans_eq_ok hplans
    rw [readSlotPlan_readAll (Nat.sub_le _ _)] at hcompanion
    have hboth :
        plans = (repairedPlans selected generation 0, repairedPlans selected generation 1) := by
      rw [hpair]
      rcases Nat.le_one_iff_eq_zero_or_eq_one.mp hchosen.slot_le with hzero | hone
      · simp [repairedPlans, repairedPlan, hzero]
      · simp [repairedPlans, repairedPlan, hone]
    refine ⟨_, .torn ⟨⟨payload, hchosen⟩, hwal, hnames, hfloor, ?_, hlt⟩, ?_, ?_⟩
    · omega
    · rw [hboth]
    · rw [hboth]
  | @paired plan manifest h =>
    obtain ⟨payload, hholds⟩ := h.holds (1 - slot) (Nat.sub_le _ _)
    have hvalid' := hholds.readValidSlotPlan
    rw [h.slot_eq _ (Nat.sub_le _ _), htorn] at hvalid'
    cases hvalid'

/-- An update that is admitted on anchored slots. -/
theorem Anchored.admitVerifiedWal (h : Anchored A m ps floor) {update : WalSnapshotAnchorUpdate}
    (hadmission : WalSnapshotAnchorUpdate.admitVerifiedWal A.snapshots.store A.snapshots.device
      verified (readAll m) = .ok update) :
    ∃ plan source, Advances A m ps floor plan source ∧ update = A.update verified plan source := by
  unfold WalSnapshotAnchorUpdate.admitVerifiedWal admitChecked at hadmission
  obtain ⟨⟨plans, source⟩, hplans, hrest⟩ := bind_eq_ok hadmission
  simp only at hrest
  split_ifs at hrest
  obtain ⟨_, -, hrest⟩ := bind_eq_ok hrest
  obtain ⟨_, -, hrest⟩ := bind_eq_ok hrest
  obtain ⟨_, -, hrest⟩ := bind_eq_ok hrest
  obtain ⟨_, -, hrest⟩ := bind_eq_ok hrest
  cases hrest
  unfold admittedPlans at hplans
  split at hplans
  · rename_i a b h₀ h₁
    cases hplans
    obtain ⟨plan, hadvances, hzero, hone⟩ := h.advances_of_valid h₀ h₁
    exact ⟨plan, none, hadvances, by rw [AnchorSite.update, hzero, hone]⟩
  · rename_i selected h₀ h₁
    obtain ⟨plan, hadvances, hzero, hone⟩ := h.advances_of_torn (Nat.zero_le _) h₀ h₁ hplans
    exact ⟨plan, source, hadvances, by rw [AnchorSite.update, hzero, hone]⟩
  · rename_i selected h₀ h₁
    obtain ⟨plan, hadvances, hzero, hone⟩ := h.advances_of_torn le_rfl h₁ h₀ hplans
    exact ⟨plan, source, hadvances, by rw [AnchorSite.update, hzero, hone]⟩
  all_goals cases hplans

/-! ## Headers -/

section Headers

variable {T : SnapshotSite} {v v' : T.Contents} {payload : List UInt8}

/-- A slot that gets a header and the payload sectors of another plan. -/
theorem Holds.copy {source header : SlotHeader} (h : Holds T v source payload)
    (hslot : header.slot ≤ 1) (hlen : header.payloadLen = source.payloadLen)
    (hcrc : header.payloadCrc = source.payloadCrc)
    (hsectors : header.payloadSectors = source.payloadSectors)
    (hencodable : header.Encodable T.size)
    (hheader : T.sector v' (T.slotBase header.slot) = header.encodeHeader T.size)
    (hstored : ∀ i < source.payloadSectors, T.sector v' (T.slotBase header.slot + 1 + i)
      = T.sector v (T.slotBase source.slot + 1 + i)) : Holds T v' header payload := by
  have hbounded : T.Bounded header :=
    ⟨hslot, hsectors ▸ h.bounded.payloadSectors_le, hlen ▸ hsectors ▸ h.bounded.payloadLen_le⟩
  refine ⟨hslot, ?_, ?_, h.crc.trans hcrc.symm⟩
  · rw [hheader]
    exact slotPlan_encodeHeader hencodable hbounded
  · rw [← h.stored, SnapshotSite.slotPayload, SnapshotSite.slotPayload, hsectors]
    congr 1
    refine List.flatMap_congr fun i hi => ?_
    rw [hstored i (List.mem_range.mp hi)]

end Headers

/-- The manifest that names the end of the log. -/
def advancedManifest (next : WalSnapshotAnchor) (wal : WalSnapshotManifest) : WalSnapshotManifest :=
  { wal with highWaterSerial := next.serial, highWaterEndLba := next.endLba }

variable {header : SlotHeader}

theorem anchoredHeader_wal {next : WalSnapshotAnchor}
    {wal : WalSnapshotManifest} (h : header.wal = some wal) :
    (anchoredHeader next header).wal = some (advancedManifest next wal) := by
  show header.wal.map _ = _
  rw [h]
  rfl

section Manifest

variable {S : WalSite} {wal : WalSnapshotManifest}

theorem anchor_advancedManifest (h : Names S ps wal.anchor) :
    (advancedManifest (logEnd S ps) wal).anchor = logEnd S ps := by
  have hincarnation : wal.incarnation = S.incarnation := h.incarnation
  rw [advancedManifest, hincarnation]
  rfl

/-- The end of the log is as valid as an earlier end. -/
theorem valid_advancedManifest (hvalid : wal.valid = true) (hnames : Names S ps wal.anchor) :
    (advancedManifest (logEnd S ps) wal).valid = true := by
  have hbase := WalSnapshotManifest.baseSerial_le_of_valid hvalid
  have hserial : wal.highWaterSerial ≤ ps.length := hnames.serial_le
  have hlen := add_length_le_framesEnd (S := S) 0 ps
  have hempty : ps.length = 0 → S.framesEnd 0 ps = 0 := by
    intro hzero
    rw [List.length_eq_zero_iff.mp hzero]
    rfl
  simp only [WalSnapshotManifest.valid, Bool.and_eq_true, Bool.or_eq_true, decide_eq_true_eq]
    at hvalid ⊢
  show (wal.incarnation ≠ 0 ∧ wal.baseSerial ≤ ps.length) ∧ (ps.length = 0 ∧ S.framesEnd 0 ps = 0
    ∨ ps.length ≠ 0 ∧ S.framesEnd 0 ps ≠ 0)
  refine ⟨⟨hvalid.1.1, hbase.trans hserial⟩, ?_⟩
  by_cases hzero : ps.length = 0
  · exact Or.inl ⟨hzero, hempty hzero⟩
  · exact Or.inr ⟨hzero, by omega⟩

theorem fits_advancedManifest (hfits : wal.Fits) (hroom : S.framesEnd 0 ps ≤ S.device.sectors) :
    (advancedManifest (logEnd S ps) wal).Fits := by
  have haddr := S.addressable
  have hlen := add_length_le_framesEnd (S := S) 0 ps
  unfold BlockRange.Addressable at haddr
  refine ⟨hfits.incarnation, hfits.baseSerial, ?_, ?_⟩
  · show ps.length < 2 ^ 64
    omega
  · show S.framesEnd 0 ps < 2 ^ 64
    omega

theorem encodable_anchoredHeader {size : ℕ} (h : header.Encodable size)
    (hready : header.resetting = false) (hwal : header.wal = some wal)
    (hnames : Names S ps wal.anchor) (hroom : S.framesEnd 0 ps ≤ S.device.sectors) :
    (anchoredHeader (logEnd S ps) header).Encodable size where
  fits_sector := by
    have hfits := h.fits_sector
    rw [SlotHeader.encodedLen, hready, hwal] at hfits
    rw [SlotHeader.encodedLen, anchoredHeader_wal hwal]
    exact hfits
  slot := h.slot
  generation := h.generation
  payloadLen := h.payloadLen
  payloadSectors := h.payloadSectors
  wal := by
    intro found hfound
    rw [anchoredHeader_wal hwal] at hfound
    cases hfound
    obtain ⟨hfits, hvalid⟩ := h.wal wal hwal
    exact ⟨fits_advancedManifest hfits hroom, valid_advancedManifest hvalid hnames⟩
  wal_of_resetting := nofun

end Manifest

/-! ## One header -/

section

variable (h : Paired A m ps floor plan manifest)
include h

/-- One of two valid slots gets a header with the same generation and base. -/
theorem Paired.set (hslot : slot ≤ 1) {wal : WalSnapshotManifest}
    (hheader : header.slot = slot) (hholds : ∃ payload, Holds A.snapshots m' header payload)
    (hagrees : SlotAgrees A.snapshots m m' (1 - slot)) (hready : header.resetting = false)
    (hwal : header.wal = some wal) (hgeneration : header.generation = (plan slot).generation)
    (hbase : wal.baseSerial = (manifest slot).baseSerial) (hnames : Names A.log ps wal.anchor)
    (hfloor : floor ≤ wal.highWaterSerial) :
    Paired A m' ps floor (update plan slot header) (update manifest slot wal) := by
  have hother : 1 - slot ≤ 1 := Nat.sub_le _ _
  have hne : 1 - slot ≠ slot := by omega
  have hback : 1 - (1 - slot) = slot := by omega
  have hplan : (update plan slot header) (1 - slot) = plan (1 - slot) := update_of_ne hne _ _
  have hmanifest : (update manifest slot wal) (1 - slot) = manifest (1 - slot) :=
    update_of_ne hne _ _
  refine ⟨forall_slots hslot ?_ ?_, forall_slots hslot ?_ ?_, forall_slots hslot ?_ ?_,
    forall_slots hslot ?_ ?_, ?_, forall_slots hslot ?_ ?_, forall_slots hslot ?_ ?_,
    forall_slots hslot ?_ ?_⟩
  · rw [update_self, hheader]
  · rw [hplan, h.slot_eq _ hother]
  · rw [update_self]
    exact hholds
  · obtain ⟨payload, hstored⟩ := h.holds _ hother
    rw [hplan]
    exact ⟨payload, hstored.congr (by rw [h.slot_eq _ hother]; exact hagrees)⟩
  · rw [update_self, hready]
  · rw [hplan, h.ready _ hother]
  · rw [update_self, update_self, hwal]
  · rw [hplan, hmanifest, h.wal _ hother]
  · have hgenerations : ∀ s ≤ 1, ((update plan slot header) s).generation = (plan s).generation :=
      forall_slots hslot (by rw [update_self, hgeneration]) (by rw [hplan])
    rw [hgenerations 0 (Nat.zero_le _), hgenerations 1 le_rfl]
    exact h.generation_ne
  · intro hnewer
    rw [hplan, update_self, hgeneration] at hnewer
    rw [hmanifest, update_self, hbase]
    exact h.base_le slot hslot hnewer
  · intro hnewer
    rw [hback, hplan, update_self, hgeneration] at hnewer
    rw [hback, hmanifest, update_self, hbase]
    have hle := h.base_le _ hother
    rw [hback] at hle
    exact hle hnewer
  · rw [update_self]
    exact hnames
  · rw [hmanifest]
    exact h.names _ hother
  · rw [update_self]
    exact hfloor
  · rw [hmanifest]
    exact h.floor_le _ hother

section

variable (hslot : slot ≤ 1) (hroom : A.log.framesEnd 0 ps ≤ A.walSectors)
include hslot hroom

/-- A slot whose header was advanced to the end of the log. -/
theorem Paired.advanced (hagrees : SlotAgrees A.snapshots m m' (1 - slot))
    (hstored : ∀ i < A.snapshots.slotSectors - 1,
      A.snapshots.sector m' (A.snapshots.slotBase slot + 1 + i)
      = A.snapshots.sector m (A.snapshots.slotBase slot + 1 + i))
    (hheader : A.snapshots.sector m' (A.snapshots.slotBase slot)
      = (anchoredHeader (logEnd A.log ps) (plan slot)).encodeHeader A.snapshots.size) :
    Paired A m' ps floor (update plan slot (anchoredHeader (logEnd A.log ps) (plan slot)))
      (update manifest slot (advancedManifest (logEnd A.log ps) (manifest slot))) := by
  obtain ⟨payload, hholds⟩ := h.holds slot hslot
  have hplan := h.slot_eq slot hslot
  have hnames := h.names slot hslot
  have hfloor := h.floor_le slot hslot
  have hserial : (manifest slot).highWaterSerial ≤ ps.length := hnames.serial_le
  have hencodable := encodable_anchoredHeader (encodable_of_slotPlan hholds.header)
    (h.ready slot hslot) (h.wal slot hslot) hnames hroom
  have hsource : (anchoredHeader (logEnd A.log ps) (plan slot)).slot = slot := hplan
  have hnew : Holds A.snapshots m' (anchoredHeader (logEnd A.log ps) (plan slot)) payload := by
    refine hholds.copy (hsource.trans_le hslot) rfl rfl rfl hencodable ?_ fun i hi => ?_
    · rw [hsource, hheader]
    · rw [hsource, hplan]
      exact hstored i (hi.trans_le hholds.bounded.payloadSectors_le)
  apply h.set hslot hsource ⟨payload, hnew⟩ hagrees rfl (anchoredHeader_wal (h.wal slot hslot))
  · rfl
  · rfl
  · rw [anchor_advancedManifest hnames]
    exact ⟨rfl, le_rfl, by rw [logEnd, List.take_length]⟩
  · show floor ≤ ps.length
    omega

/-- What the barrier of a header can leave. -/
theorem Paired.anchored_of_header
    (hm : Store.IsImage ⟨m, [(A.snapshots.device.start + A.snapshots.slotBase slot,
      (anchoredHeader (logEnd A.log ps) (plan slot)).encodeHeader A.snapshots.size)]⟩ m') :
    Anchored A m' ps floor := by
  obtain ⟨hagrees, hstored, hold | hnew⟩ := isImage_header hslot hm
  · have hsame := slotAgrees_of_header hold hstored
    exact .paired (h.congr (forall_slots hslot hsame hagrees))
  · exact .paired (h.advanced hslot hroom hagrees hstored hnew)

/-- A header barrier of the update. -/
theorem runs_anchorHeader {update : WalSnapshotAnchorUpdate}
    (hdevice : update.device = A.snapshots.device) (hstore : update.store = A.snapshots.store) :
    Runs env ⟨m, []⟩ (update.writeHeader A.snapshots.slotSectors
        (anchoredHeader (logEnd A.log ps) (plan slot)))
      (fun _ d => ∃ m', d = ⟨m', []⟩ ∧ Paired A m' ps floor
        (Function.update plan slot (anchoredHeader (logEnd A.log ps) (plan slot)))
        (Function.update manifest slot (advancedManifest (logEnd A.log ps) (manifest slot))))
      (fun _ d => env.faults = true ∧ Survives A ps floor d)
      (Survives A ps floor) := by
  have htwo := A.snapshots.two_le_slotSectors
  have hbase : A.snapshots.slotBase slot + 1 ≤ A.snapshots.device.sectors :=
    A.snapshots.slotBase_add_le hslot (by omega)
  have hplan : (anchoredHeader (logEnd A.log ps) (plan slot)).slot = slot := h.slot_eq slot hslot
  rw [writeHeader, hstore, hdevice, hplan, A.snapshots.slotLba_eq hslot]
  refine runs_lift_bind ?_ nofun
  rintro _ ⟨⟩
  refine (BlockRange.runs_writeSector_flush A.snapshots.addressable hbase _).weaken ?_ ?_ ?_
  · rintro _ _ rfl
    have himage := (Store.mk m [(A.snapshots.device.start + A.snapshots.slotBase slot,
      (anchoredHeader (logEnd A.log ps) (plan slot)).encodeHeader
        A.snapshots.size)]).isImage_visible
    obtain ⟨hagrees, hstored, -⟩ := isImage_header hslot himage
    exact ⟨_, rfl, h.advanced hslot hroom hagrees hstored (update_self _ _ _)⟩
  · intro _ d hd
    exact ⟨hd.1, fun m' hm' => h.anchored_of_header hslot hroom (hd.2 m' hm')⟩
  · intro d hd m' hm'
    exact h.anchored_of_header hslot hroom (hd.2 m' hm')

end

end

/-!
## The barriers of `advance`

The repair of a torn companion copies the payload of the chosen slot and then gives the
copy a newer header with the same manifest.  Until that header is there the companion
does not matter; once it is there both slots are valid (`runs_repairCompanion`).
`runs_advance` adds the two header barriers.  Everything `advance` writes lies in the
slots (`confined_advance`).
-/

open List Nat

variable {source : Option SlotReadPlan} {T : SnapshotSite}

/-! ### Copying the payload -/

section Copy

variable {T : SnapshotSite} {v : T.Contents} {slot : ℕ}

/-- The writes that copy payload sectors of a slot to the other one. -/
def copyWrites (T : SnapshotSite) (v : T.Contents) (slot : ℕ) (indices : List ℕ) :
    List (ℕ × Sector T.size) :=
  indices.map fun i => (T.device.start + (T.slotBase (1 - slot) + 1 + i),
    T.sector v (T.slotBase slot + 1 + i))

variable {indices : List ℕ}

theorem inPayload_of_mem_copyWrites
    (hindices : ∀ i ∈ indices, i < T.slotSectors - 1) {w : ℕ × Sector T.size}
    (hw : w ∈ copyWrites T v slot indices) : InPayload T (1 - slot) w.1 := by
  obtain ⟨i, hi, rfl⟩ := mem_map.mp hw
  have hlt := hindices i hi
  exact ⟨1 + i, by omega, by omega, by omega⟩

/-- The copy loop reads the sectors as they were before it. -/
theorem runs_copySectors (hslot : slot ≤ 1)
    (hindices : ∀ i ∈ indices, i < T.slotSectors - 1) {ws : List (ℕ × Sector T.size)}
    (hws : ∀ w ∈ ws, InPayload T (1 - slot) w.1) : Runs env ⟨v, ws⟩
      (copySectors T.device (T.slotBase slot + 1) (T.slotBase (1 - slot) + 1) indices)
      (fun _ d => d = ⟨v, ws ++ copyWrites T v slot indices⟩)
      (fun _ d => env.faults = true ∧ Store.Within ⟨v, ws ++ copyWrites T v slot indices⟩ d)
      (fun d => Store.Within ⟨v, ws ++ copyWrites T v slot indices⟩ d) := by
  induction indices generalizing ws with
  | nil => exact runs_pure (by rw [copyWrites, map_nil, append_nil])
  | cons index rest ih =>
    have hindex : index < T.slotSectors - 1 := hindices index mem_cons_self
    have hin : ∀ s ≤ 1, T.slotBase s + 1 + index < T.device.sectors := by
      intro s hs
      have hinside : T.slotBase s + (1 + index + 1) ≤ T.device.sectors :=
        T.slotBase_add_le hs (by omega)
      omega
    -- the accepted writes went to the other slot, so the source is unchanged
    have hsame : T.sector (Store.mk v ws).visible (T.slotBase slot + 1 + index)
        = T.sector v (T.slotBase slot + 1 + index) := by
      have hagrees := (isImage_of_inPayload (sub_le _ _) hws (Store.mk v ws).isImage_visible).1
      rw [show 1 - (1 - slot) = slot by omega] at hagrees
      have hsector := hagrees (1 + index) (by omega)
      rwa [← add_assoc] at hsector
    have hread : T.device.readSector (readAll (Store.mk v ws).visible)
        (T.slotBase slot + 1 + index) = .ok (T.sector v (T.slotBase slot + 1 + index)) := by
      rw [SnapshotSite.readSector_readAll (hin slot hslot), hsame]
    have hall : ws ++ copyWrites T v slot (index :: rest)
        = ws ++ copyWrites T v slot [index] ++ copyWrites T v slot rest := by
      rw [append_assoc]
      rfl
    have hbefore : ∀ vs : List (ℕ × Sector T.size), vs <+: copyWrites T v slot (index :: rest) →
        Store.Within ⟨v, ws ++ copyWrites T v slot (index :: rest)⟩ ⟨v, ws ++ vs⟩ :=
      fun vs hvs => (Store.mk v ws).within_writeAll_of_isPrefix hvs
    refine runs_query_bind (fun read hfaulty => T.device.readSector_ioOr hfaulty _) ?_ ?_
    · intro sector hsector
      rw [hread] at hsector
      cases hsector
      rw [BlockRange.writeSector_eq_writeEach T.addressable (hin _ (sub_le _ _))]
      refine Runs.bind ((runs_writeEach _ _).weaken (fun _ _ h => h) ?_ ?_) ?_
      · intro _ d hd
        refine ⟨hd.1, Store.Within.trans ?_ hd.2.2⟩
        exact hbefore _ (prefix_append (copyWrites T v slot [index]) _)
      · rintro d ⟨-, vs, hvs, rfl⟩
        exact hbefore vs (hvs.trans (prefix_append (copyWrites T v slot [index]) _))
      · rintro _ d rfl
        rw [hall]
        refine ih (fun i hi => hindices i (mem_cons_of_mem _ hi)) fun w hw => ?_
        rcases mem_append.mp hw with hold | hnew
        · exact hws w hold
        · have hone : ∀ i ∈ [index], i < T.slotSectors - 1 := by
            intro i hi
            rw [mem_singleton.mp hi]
            exact hindex
          exact inPayload_of_mem_copyWrites hone hnew
    · intro e he
      rcases he with hfault | herror
      · exact ⟨hfault, by simpa using hbefore [] nil_prefix⟩
      · rw [hread] at herror
        cases herror

end Copy

/-! ### The repair -/

theorem AnchorSite.header_update (hslot : slot ≤ 1) :
    (A.update verified plan source).header slot = anchoredHeader verified.anchor (plan slot) := by
  rcases le_one_iff_eq_zero_or_eq_one.mp hslot with rfl | rfl
  · rfl
  · rfl

/-- The header that `advance` writes for the copy. -/
theorem AnchorSite.oldAnchor_eq (A : AnchorSite) (verified : VerifiedLog) :
    ({ (A.update verified (repairedPlans newest generation) (some newest)).header
      (1 - newest.slot) with wal := newest.wal } : SlotHeader)
    = repairedPlan newest generation := by
  have hplan : repairedPlans newest generation (1 - newest.slot)
      = repairedPlan newest generation := if_pos rfl
  rw [AnchorSite.header_update (sub_le _ _), hplan]
  rfl

namespace Repairable

variable (h : Repairable A m ps floor newest generation current)

include h

theorem slot_le : newest.slot ≤ 1 := by
  obtain ⟨payload, hchosen⟩ := h.chosen
  exact hchosen.slot_le

theorem index_lt : ∀ i ∈ List.range newest.payloadSectors, i < A.snapshots.slotSectors - 1 := by
  obtain ⟨payload, hchosen⟩ := h.chosen
  exact fun i hi => (mem_range.mp hi).trans_le hchosen.bounded.payloadSectors_le

/-- The repair is two barriers. -/
theorem repairCompanion_eq : ((A.update verified (repairedPlans newest generation)
      (some newest)).repairCompanion A.snapshots.slotSectors :
        DiskM (Sector A.snapshots.size) SnapshotBlockStoreError Unit)
    = (copySectors A.snapshots.device (A.snapshots.slotBase newest.slot + 1)
        (A.snapshots.slotBase (1 - newest.slot) + 1) (List.range newest.payloadSectors) >>= fun _ =>
      DiskM.flush .io >>= fun _ =>
      A.snapshots.device.writeSector (A.snapshots.slotBase (1 - newest.slot))
        ((repairedPlan newest generation).encodeHeader A.snapshots.size) >>= fun _ =>
      DiskM.flush .io) := by
  show (DiskM.lift (A.snapshots.store.slotLba A.snapshots.slotSectors newest.slot) >>= _) = _
  rw [A.snapshots.slotLba_eq h.slot_le]
  show (DiskM.lift (A.snapshots.store.slotLba A.snapshots.slotSectors (1 - newest.slot)) >>= _) = _
  rw [A.snapshots.slotLba_eq (sub_le _ _), ← A.oldAnchor_eq verified]
  rfl

/-- The copy can be written: it has the fields of the chosen header. -/
theorem encodable : (repairedPlan newest generation).Encodable A.snapshots.size := by
  obtain ⟨payload, hchosen⟩ := h.chosen
  have hencodable := encodable_of_slotPlan hchosen.header
  refine ⟨?_, ?_, h.generation_lt, hencodable.payloadLen, hencodable.payloadSectors,
    hencodable.wal, nofun⟩
  · have hfits := hencodable.fits_sector
    rw [SlotHeader.encodedLen, hchosen.ready] at hfits
    exact hfits
  · show 1 - newest.slot < 2 ^ 32
    omega

/-- While the payload is copied the chosen slot stays chosen. -/
theorem copied (hm : Store.IsImage ⟨m, copyWrites A.snapshots m newest.slot
    (List.range newest.payloadSectors)⟩ m') :
    Repairable A m' ps floor newest generation current := by
  obtain ⟨payload, hchosen⟩ := h.chosen
  have hslot := h.slot_le
  obtain ⟨hagrees, hheader⟩ := isImage_of_inPayload (sub_le _ _)
    (fun w hw => inPayload_of_mem_copyWrites h.index_lt hw) hm
  have hshows : Shows A.snapshots m (some (newest, payload)) := hchosen
  refine { h with chosen := ⟨payload, hshows.congr (sub_le _ _) ?_ hagrees hheader⟩ }
  rintro _ _ ⟨⟩
  omega

/-- The header of the copy makes it the chosen slot. -/
theorem chosen_copy (hagrees : SlotAgrees A.snapshots m m' newest.slot)
    (hstored : ∀ i < newest.payloadSectors,
      A.snapshots.sector m' (A.snapshots.slotBase (1 - newest.slot) + 1 + i)
        = A.snapshots.sector m (A.snapshots.slotBase newest.slot + 1 + i))
    (hheader : A.snapshots.sector m' (A.snapshots.slotBase (1 - newest.slot))
      = (repairedPlan newest generation).encodeHeader A.snapshots.size) :
    ∃ payload, Chosen A.snapshots m' (repairedPlan newest generation) payload
      ∧ Holds A.snapshots m' newest payload := by
  obtain ⟨payload, hchosen⟩ := h.chosen
  have hslot := h.slot_le
  have hback : 1 - (repairedPlan newest generation).slot = newest.slot := by
    show 1 - (1 - newest.slot) = newest.slot
    omega
  have hshows : Shows A.snapshots m (some (newest, payload)) := hchosen
  have hcopy : Holds A.snapshots m' (repairedPlan newest generation) payload :=
    hchosen.toHolds.copy (sub_le _ _) rfl rfl rfl h.encodable hheader hstored
  refine ⟨payload, ?_, hchosen.toHolds.congr hagrees⟩
  refine shows_of_header hshows hcopy rfl ?_ (hback ▸ hagrees) ?_
  · rintro _ _ ⟨⟩
    exact hback.symm
  · rintro _ _ ⟨⟩
    refine ⟨h.newer, ?_⟩
    show Precedes newest.wal newest.wal
    rw [h.wal]
    exact ⟨rfl, le_rfl⟩

theorem anchored : Anchored A m ps floor := by
  obtain ⟨payload, hchosen⟩ := h.chosen
  exact .chosen hchosen h.wal h.names h.floor_le

/-- What the barrier of the new header can leave, once the payload is a copy. -/
theorem of_header (hcopy : ∀ i < newest.payloadSectors,
      A.snapshots.sector m (A.snapshots.slotBase (1 - newest.slot) + 1 + i)
        = A.snapshots.sector m (A.snapshots.slotBase newest.slot + 1 + i))
    (hm : Store.IsImage ⟨m, [(A.snapshots.device.start + A.snapshots.slotBase (1 - newest.slot),
      (repairedPlan newest generation).encodeHeader A.snapshots.size)]⟩ m') :
    Anchored A m' ps floor ∧ (A.snapshots.sector m' (A.snapshots.slotBase (1 - newest.slot))
          = (repairedPlan newest generation).encodeHeader A.snapshots.size →
        ∃ manifest, Paired A m' ps floor (repairedPlans newest generation) manifest) := by
  have hslot := h.slot_le
  have hback : 1 - (1 - newest.slot) = newest.slot := by omega
  obtain ⟨hagrees, hstored, hheader⟩ := isImage_header (sub_le 1 newest.slot) hm
  have hnew : A.snapshots.sector m' (A.snapshots.slotBase (1 - newest.slot))
      = (repairedPlan newest generation).encodeHeader A.snapshots.size →
      ∃ manifest, Paired A m' ps floor (repairedPlans newest generation) manifest := by
    intro hnew
    obtain ⟨_, hchosen⟩ := h.chosen
    obtain ⟨payload, hcopied, hholds⟩ := h.chosen_copy (hback ▸ hagrees) (fun i hi => by
      rw [hstored i (hi.trans_le hchosen.bounded.payloadSectors_le), hcopy i hi]) hnew
    obtain ⟨older, -, hpaired⟩ := hcopied.paired h.wal h.names h.floor_le hholds hback.symm
    exact ⟨_, hpaired⟩
  refine ⟨?_, hnew⟩
  rcases hheader with hold | hheader
  · have hsame := slotAgrees_of_header hold hstored
    exact h.anchored.congr (forall_slots (sub_le _ _) hsame hagrees)
  · obtain ⟨manifest, hpaired⟩ := hnew hheader
    exact .paired hpaired

end Repairable

/-- The repair leaves two valid slots. -/
theorem runs_repairCompanion (h : Repairable A m ps floor newest generation current) :
    Runs env ⟨m, []⟩ ((A.update verified (repairedPlans newest generation)
        (some newest)).repairCompanion A.snapshots.slotSectors)
      (fun _ d => ∃ m' manifest, d = ⟨m', []⟩
        ∧ Paired A m' ps floor (repairedPlans newest generation) manifest)
      (fun _ d => env.faults = true ∧ Survives A ps floor d)
      (Survives A ps floor) := by
  obtain ⟨payload, hchosen⟩ := h.chosen
  have hslot := h.slot_le
  have htwo := A.snapshots.two_le_slotSectors
  have hbase : A.snapshots.slotBase (1 - newest.slot) + 1 ≤ A.snapshots.device.sectors :=
    A.snapshots.slotBase_add_le (sub_le _ _) (by omega)
  have hcopying : ∀ d, Store.Within ⟨m, copyWrites A.snapshots m newest.slot
      (List.range newest.payloadSectors)⟩ d → Survives A ps floor d :=
    fun d hd m' hm' => (h.copied (hd m' hm')).anchored
  rw [h.repairCompanion_eq]
  -- the payload barrier
  refine Runs.bind ((runs_copySectors hslot h.index_lt
    (fun w hw => absurd hw not_mem_nil)).weaken (fun _ _ h => h)
    (fun _ d hd => ⟨hd.1, hcopying d hd.2⟩) fun d hd => hcopying d hd) ?_
  rintro _ _ rfl
  refine Runs.bind ((runs_flush _).weaken (fun _ _ h => h)
    (fun _ d hd => ⟨hd.1, hcopying d hd.2.2⟩) ?_) ?_
  · rintro d ⟨-, rfl⟩
    exact hcopying _ (Store.Within.refl _)
  rintro _ _ rfl
  -- the header barrier
  have himage := (Store.mk m ([] ++ copyWrites A.snapshots m newest.slot
    (List.range newest.payloadSectors))).isImage_visible
  have hcopied := h.copied himage
  have hagrees := (isImage_of_inPayload (sub_le _ _)
    (fun w hw => inPayload_of_mem_copyWrites h.index_lt hw) himage).1
  have hcopy : ∀ i < newest.payloadSectors,
      A.snapshots.sector (Store.mk m ([] ++ copyWrites A.snapshots m newest.slot
          (List.range newest.payloadSectors))).visible
          (A.snapshots.slotBase (1 - newest.slot) + 1 + i)
        = A.snapshots.sector (Store.mk m ([] ++ copyWrites A.snapshots m newest.slot
          (List.range newest.payloadSectors))).visible
          (A.snapshots.slotBase newest.slot + 1 + i) := by
    intro i hi
    have hsource := hagrees (1 + i) (by
      have := hchosen.bounded.payloadSectors_le
      omega)
    rw [show 1 - (1 - newest.slot) = newest.slot by omega, ← add_assoc] at hsource
    rw [hsource]
    refine overwrite_of_forall_eq ⟨_, mem_map.mpr ⟨i, mem_range.mpr hi, rfl⟩, rfl⟩ ?_
    intro w hw heq
    obtain ⟨j, -, rfl⟩ := mem_map.mp hw
    obtain rfl : j = i := by
      omega
    rfl
  refine (BlockRange.runs_writeSector_flush A.snapshots.addressable hbase _).weaken ?_ ?_ ?_
  · rintro _ _ rfl
    obtain ⟨manifest, hpaired⟩ := (hcopied.of_header hcopy (Store.isImage_visible ⟨_, _⟩)).2
      (Function.update_self _ _ _)
    exact ⟨_, manifest, rfl, hpaired⟩
  · intro _ d hd
    exact ⟨hd.1, fun m' hm' => (hcopied.of_header hcopy (hd.2 m' hm')).1⟩
  · intro d hd m' hm'
    exact (hcopied.of_header hcopy (hd.2 m' hm')).1

/-! ### The update -/

section

variable (h : Advances A m ps floor plan source)
include h

/-- A header with a manifest fits the sectors of the device. -/
theorem Advances.walHeaderLen_le : walHeaderLen ≤ A.snapshots.size := by
  have hheld : ∃ held payload wal, Holds A.snapshots m held payload ∧ held.wal = some wal
      ∧ held.resetting = false := by
    cases h with
    | paired h =>
      obtain ⟨payload, hholds⟩ := h.holds 0 (zero_le _)
      exact ⟨_, payload, _, hholds, h.wal 0 (zero_le _), h.ready 0 (zero_le _)⟩
    | torn h =>
      obtain ⟨payload, hchosen⟩ := h.chosen
      exact ⟨_, payload, _, hchosen.toHolds, h.wal, hchosen.ready⟩
  obtain ⟨held, payload, wal, hholds, hwal, hready⟩ := hheld
  have hfits := (encodable_of_slotPlan hholds.header).fits_sector
  rw [SlotHeader.encodedLen, hready, hwal] at hfits
  exact hfits

theorem runs_repair : Runs env ⟨m, []⟩
      ((A.update verified plan source).repairCompanion A.snapshots.slotSectors)
      (fun _ d => ∃ m' manifest, d = ⟨m', []⟩ ∧ Paired A m' ps floor plan manifest)
      (fun _ d => env.faults = true ∧ Survives A ps floor d)
      (Survives A ps floor) := by
  cases h with
  | paired h => exact runs_pure ⟨m, _, rfl, h⟩
  | torn h => exact runs_repairCompanion h

section

variable (hverified : verified.anchor = logEnd A.log ps)
  (hroom : A.log.framesEnd 0 ps ≤ A.walSectors)
include hverified hroom

/-- An update moves both anchors to the end of the log; one that stops on the way leaves
anchors from the floor on. -/
theorem runs_advanceEffects : Runs env ⟨m, []⟩ (A.update verified plan source).advanceEffects
      (fun _ d => ∃ m', d = ⟨m', []⟩ ∧ Anchored A m' ps ps.length)
      (fun _ d => env.faults = true ∧ Survives A ps floor d)
      (Survives A ps floor) := by
  have hsize : ¬ A.snapshots.size < walHeaderLen := not_lt.mpr h.walHeaderLen_le
  have hgeometry : (A.update verified plan source).store.geometry
      (A.update verified plan source).device A.snapshots.size = .ok A.snapshots.slotSectors :=
    A.snapshots.geometry_eq
  rw [advanceEffects, hgeometry]
  refine runs_lift_bind ?_ nofun
  rintro _ ⟨⟩
  rw [if_neg hsize]
  refine (runs_repair h).bind ?_
  rintro _ _ ⟨m₀, manifest, rfl, hpaired⟩
  have hheaders : (A.update verified plan source).headers
      = (anchoredHeader (logEnd A.log ps) (plan 0), anchoredHeader (logEnd A.log ps) (plan 1)) := by
    rw [← hverified]
    rfl
  rw [hheaders]
  refine (runs_anchorHeader hpaired (zero_le 1) hroom rfl rfl).bind ?_
  rintro _ _ ⟨m₁, rfl, hfirst⟩
  -- the second header is the one of the original plan
  have hplan : Function.update plan 0 (anchoredHeader (logEnd A.log ps) (plan 0)) 1 = plan 1 :=
    Function.update_of_ne one_ne_zero _ _
  have hsecond : Runs env ⟨m₁, []⟩ ((A.update verified plan source).writeHeader _ _) _ _ _ :=
    runs_anchorHeader hfirst (le_refl 1) hroom rfl rfl
  refine hsecond.weaken ?_ (fun _ _ h => h) fun _ h => h
  rintro _ _ ⟨m₂, rfl, hboth⟩
  refine ⟨m₂, rfl, .paired { hboth with floor_le := forall_slots (zero_le 1) ?_ ?_ }⟩
  · rw [Function.update_of_ne (by omega)]
    exact le_rfl
  · rw [Function.update_self]
    exact le_rfl

/-- `advance` returns `Ok` with both anchors at the end of the log and hands the verified
log on. -/
theorem runs_advance : Runs env ⟨m, []⟩ (A.update verified plan source).advance
      (fun r d => (r.1 = .ok () ∧ r.2.intoContinuation = some verified
          ∧ ∃ m', d = ⟨m', []⟩ ∧ Anchored A m' ps ps.length)
        ∨ env.faults = true ∧ r.2.intoContinuation = none
          ∧ Survives A ps floor d)
      (fun _ _ => False) (Survives A ps floor) := by
  refine runs_attempt_bind ((runs_advanceEffects h hverified hroom).weaken ?_ ?_ fun _ h => h)
  · intro _ d hd
    exact runs_pure (Or.inl ⟨rfl, rfl, hd⟩)
  · intro e d hd
    exact runs_pure (Or.inr ⟨hd.1, rfl, hd.2⟩)

end

end

/-! ### Where an update writes -/

/-- The addresses of both slots. -/
def InSlots (T : SnapshotSite) (address : ℕ) : Prop := ∃ slot ≤ 1, InSlot T slot address

theorem SnapshotSite.slotLba_eq_ok {lba : ℕ}
    (h : T.store.slotLba T.slotSectors slot = .ok lba) : slot ≤ 1 ∧ lba = T.slotBase slot := by
  by_cases hslot : slot ≤ 1
  · rw [T.slotLba_eq hslot] at h
    exact ⟨hslot, (Except.ok.inj h).symm⟩
  · rw [SnapshotBlockStore.slotLba, if_pos (by omega)] at h
    cases h

private theorem confined_anchorHeader {update : WalSnapshotAnchorUpdate}
    (hdevice : update.device = T.device) (hstore : update.store = T.store) (header : SlotHeader) :
    Confined (InSlots T) (update.writeHeader T.slotSectors header :
      DiskM (Sector T.size) SnapshotBlockStoreError Unit) := by
  have htwo := T.two_le_slotSectors
  rw [writeHeader, hdevice, hstore]
  refine confined_lift_bind fun lba hlba => ?_
  obtain ⟨hslot, rfl⟩ := SnapshotSite.slotLba_eq_ok hlba
  refine (BlockRange.confined_writeSector (fun _ => ?_) _).bind fun _ => confined_flush _
  exact ⟨_, hslot, 0, by omega, rfl⟩

private theorem confined_copySectors (hslot : slot ≤ 1) {source : ℕ} {indices : List ℕ}
    (hindices : ∀ i ∈ indices, i < T.slotSectors - 1) :
    Confined (InSlots T) (copySectors T.device source (T.slotBase slot + 1) indices :
      DiskM (Sector T.size) SnapshotBlockStoreError Unit) := by
  induction indices with
  | nil => exact confined_pure ()
  | cons index rest ih =>
    have hindex := hindices index mem_cons_self
    refine (confined_peek.bind fun _ => confined_lift _).bind fun sector =>
      (BlockRange.confined_writeSector (fun _ => ?_) _).bind fun _ =>
        ih fun i hi => hindices i (mem_cons_of_mem _ hi)
    exact ⟨slot, hslot, 1 + index, by omega, by omega⟩

private theorem confined_repair (h : Advances A m ps floor plan source) :
    Confined (InSlots A.snapshots)
      ((A.update verified plan source).repairCompanion A.snapshots.slotSectors :
        DiskM (Sector A.snapshots.size) SnapshotBlockStoreError Unit) := by
  cases h with
  | paired h => exact confined_pure ()
  | torn h =>
    obtain ⟨payload, hchosen⟩ := h.chosen
    have htwo := A.snapshots.two_le_slotSectors
    rw [h.repairCompanion_eq]
    refine (confined_copySectors (sub_le _ _) fun i hi => ?_).bind fun _ =>
      (confined_flush _).bind fun _ =>
        (BlockRange.confined_writeSector (fun _ => ?_) _).bind fun _ => confined_flush _
    · exact (mem_range.mp hi).trans_le hchosen.bounded.payloadSectors_le
    · exact ⟨_, sub_le _ _, 0, by omega, rfl⟩

theorem confined_advance (h : Advances A m ps floor plan source) :
    Confined (InSlots A.snapshots) ((A.update verified plan source).advance :
      DiskM (Sector A.snapshots.size) Empty _) := by
  have heffects : Confined (InSlots A.snapshots) ((A.update verified plan source).advanceEffects :
        DiskM (Sector A.snapshots.size) SnapshotBlockStoreError Unit) := by
    refine confined_lift_bind fun slotSectors hslotSectors => ?_
    have hgeometry : A.snapshots.store.geometry A.snapshots.device A.snapshots.size
        = .ok slotSectors := hslotSectors
    rw [A.snapshots.geometry_eq] at hgeometry
    cases hgeometry
    split_ifs
    · exact confined_fail _
    · exact (confined_repair h).bind fun _ => (confined_anchorHeader rfl rfl _).bind fun _ =>
        confined_anchorHeader rfl rfl _
  rw [advance, if_neg (by simp [AnchorSite.update])]
  refine heffects.attempt.bind fun result => ?_
  cases result with
  | ok | error => exact confined_pure _

end UserspaceNtos.Fs
