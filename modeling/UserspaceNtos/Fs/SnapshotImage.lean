import UserspaceNtos.Fs.SnapshotStore
import UserspaceNtos.Lib.Result

/-!
# Contents of the snapshot store

`Holds` says that a slot carries a header and the payload it describes.  `Chosen` adds
that the header of the other slot is older, or missing; its payload does not matter.
Then every selection of the source agrees on the chosen slot: `read_latest`, the
streaming readers and the writer.  A slot whose payload is being overwritten, or was
left half written, is never taken for the newest one.
-/

namespace UserspaceNtos.Fs

open ConfigStore SnapshotBlockStore List

/-!
## What the snapshot readers make of the sectors of a slot

On a device without read errors every reader of a slot is a function of its header
sector and its payload bytes: `readSlotPlan_readAll`, `validateSlotPayloadCrc_readAll`,
`readSlot_readAll` and `readSelectedPayload_readAll`.  The readers differ in how they
walk over the payload, sector by sector or in batches, and in when they stop; all
of them see `slotPayload`.
-/

/-- A snapshot store with a geometry that the source accepts, on a device whose sector
numbers and buffers fit the machine. -/
structure SnapshotSite where
  size : ℕ
  device : BlockRange
  store : SnapshotBlockStore
  headerLen_le : headerLen ≤ size
  four_le : 4 ≤ store.sectorCount
  even : store.sectorCount % 2 = 0
  inside : store.startLba + store.sectorCount ≤ device.sectors
  addressable : device.Addressable
  bytes_lt : store.sectorCount * size < 2 ^ 64

/-- The contents of a device with the sectors of a site. -/
abbrev SnapshotSite.Contents (T : SnapshotSite) : Type := ℕ → Sector T.size

namespace SnapshotSite

variable (T : SnapshotSite)

/-- The sectors of one slot. -/
def slotSectors : ℕ := T.store.sectorCount / 2

/-- The header sector of a slot. -/
def slotBase (slot : ℕ) : ℕ := T.store.startLba + T.slotSectors * slot

/-- Sector `lba` of the device. -/
def sector (m : T.Contents) (lba : ℕ) : Sector T.size := m (T.device.start + lba)

/-- The checks of `read_slot_plan` on the header sector of a slot. -/
def slotPlan (slot : ℕ) (header : Sector T.size) :
    Except SnapshotBlockStoreError (Option SlotReadPlan) := do
  match ← decodeHeader header.1 with
  | none => .ok none
  | some header =>
    if header.slot ≠ slot ∨ T.slotSectors - 1 < header.payloadSectors then .error .corrupt
    else
      match checkedMul header.payloadSectors T.size with
      | none => .error .corrupt
      | some capacity =>
        if capacity < header.payloadLen then .error .corrupt else .ok (some header)

/-- The bytes of the first `count` payload sectors of a slot. -/
def slotBytes (m : T.Contents) (slot count : ℕ) : List UInt8 :=
  (List.range count).flatMap fun index => (T.sector m (T.slotBase slot + 1 + index)).1

/-- The payload that a header describes. -/
def slotPayload (m : T.Contents) (plan : SlotReadPlan) : List UInt8 :=
  (T.slotBytes m plan.slot plan.payloadSectors).take plan.payloadLen

theorem two_le_slotSectors : 2 ≤ T.slotSectors := by
  have := T.four_le
  unfold slotSectors
  omega

theorem size_pos : 0 < T.size := Nat.lt_of_lt_of_le (by decide) T.headerLen_le

/-- The two slots lie inside the device. -/
theorem slotBase_add_le {slot lba : ℕ} (hslot : slot ≤ 1) (hlba : lba ≤ T.slotSectors) :
    T.slotBase slot + lba ≤ T.device.sectors := by
  have hinside := T.inside
  have hhalf : T.slotSectors * 2 ≤ T.store.sectorCount := Nat.div_mul_le_self _ _
  unfold slotBase
  rcases Nat.le_one_iff_eq_zero_or_eq_one.mp hslot with rfl | rfl <;> omega

theorem device_sectors_lt : T.device.sectors < 2 ^ 64 := by
  have := T.addressable
  unfold BlockRange.Addressable at this
  omega

theorem slotSectors_mul_size_lt : T.slotSectors * T.size < 2 ^ 64 :=
  (Nat.mul_le_mul_right _ (Nat.div_le_self _ _)).trans_lt T.bytes_lt

theorem geometry_eq : T.store.geometry T.device T.size = .ok T.slotSectors := by
  have h₁ := T.headerLen_le
  have h₂ := T.four_le
  have h₃ := T.even
  have h₄ := T.inside
  have h₅ := T.device_sectors_lt
  rw [geometry, if_neg (by omega), checkedAdd_of_lt (by omega)]
  exact if_neg (by omega)

theorem slotLba_eq {slot : ℕ} (hslot : slot ≤ 1) :
    T.store.slotLba T.slotSectors slot = .ok (T.slotBase slot) := by
  have hle := T.slotBase_add_le hslot (Nat.zero_le _)
  have hlt := T.device_sectors_lt
  unfold slotBase at hle ⊢
  rw [slotLba, if_neg (by omega), min_eq_left (by omega), checkedAdd_of_lt (by omega)]

end SnapshotSite

variable {T : SnapshotSite} {m : T.Contents} {slot count : ℕ} {plan : SlotReadPlan}

theorem SnapshotSite.readSector_readAll {lba : ℕ} (h : lba < T.device.sectors) :
    T.device.readSector (readAll m) lba = .ok (T.sector m lba) :=
  BlockRange.readSector_of_lt T.addressable _ h

/-! ### Readers on contents -/

open SnapshotSite

theorem readSlotPlan_readAll (hslot : slot ≤ 1) : T.store.readSlotPlan T.device (readAll m) slot
      = T.slotPlan slot (T.sector m (T.slotBase slot)) := by
  have hbase : T.slotBase slot + 1 ≤ T.device.sectors :=
    T.slotBase_add_le hslot (by have := T.two_le_slotSectors; omega)
  rw [readSlotPlan, T.geometry_eq]
  show (T.store.slotLba T.slotSectors slot >>= _) = _
  rw [T.slotLba_eq hslot]
  show (T.device.readSector (readAll m) (T.slotBase slot) >>= _) = _
  rw [readSector_readAll (by omega)]
  rfl

/-- What the checks guarantee. -/
theorem SnapshotSite.slotPlan_eq_some {header : Sector T.size}
    (h : T.slotPlan slot header = .ok (some plan)) :
    decodeHeader header.1 = .ok (some plan) ∧ plan.slot = slot
      ∧ plan.payloadSectors ≤ T.slotSectors - 1
      ∧ plan.payloadLen ≤ plan.payloadSectors * T.size := by
  unfold slotPlan at h
  rcases hdecode : decodeHeader header.1 with e | _ | found
  · rw [hdecode] at h
    cases h
  · rw [hdecode] at h
    cases h
  · rw [hdecode] at h
    change (if _ then _ else _) = _ at h
    split_ifs at h with hchecks
    rcases hmul : checkedMul found.payloadSectors T.size with _ | capacity
    · rw [hmul] at h
      cases h
    · rw [hmul] at h
      simp only at h
      split_ifs at h with hcapacity
      cases h
      have hval : capacity = plan.payloadSectors * T.size := by
        unfold checkedMul at hmul
        split_ifs at hmul
        exact (Option.some.inj hmul).symm
      rw [not_or, not_not, Nat.not_lt] at hchecks
      exact ⟨rfl, hchecks.1, hchecks.2, by omega⟩

/-- The bytes of `count` consecutive sectors. -/
def SnapshotSite.bytesFrom (T : SnapshotSite) (m : T.Contents) (lba count : ℕ) : List UInt8 :=
  (List.range count).flatMap fun index => (T.sector m (lba + index)).1

theorem SnapshotSite.length_bytesFrom (lba count : ℕ) :
    (T.bytesFrom m lba count).length = count * T.size := by
  unfold bytesFrom
  induction count with
  | zero => simp
  | succ count ih =>
    rw [range_succ, flatMap_append, length_append, ih, flatMap_singleton,
      (T.sector m _).2, Nat.succ_mul]

theorem SnapshotSite.bytesFrom_add (lba count rest : ℕ) : T.bytesFrom m lba (count + rest)
      = T.bytesFrom m lba count ++ T.bytesFrom m (lba + count) rest := by
  unfold bytesFrom
  rw [range_add, flatMap_append, flatMap_map]
  simp only [Nat.add_assoc]

private theorem take_min_of_length {l : List UInt8} {r n : ℕ} (h : l.length = n) :
    l.take (min r n) = l.take r := by
  rw [← take_take, take_of_length_le h.le]

private theorem readPayloadSectors_readAll (start remaining : ℕ) (indices : List ℕ)
    (hlt : ∀ i ∈ indices, start + i < T.device.sectors) :
    readPayloadSectors T.device (readAll m) start remaining indices
      = .ok ((indices.flatMap fun i => (T.sector m (start + i)).1).take remaining) := by
  induction indices generalizing remaining with
  | nil => simp [readPayloadSectors]
  | cons i rest ih =>
    have hlen : (T.sector m (start + i)).1.length = T.size := (T.sector m (start + i)).2
    rw [readPayloadSectors, readSector_readAll (hlt i mem_cons_self)]
    show (readPayloadSectors T.device (readAll m) start (remaining - min remaining T.size) rest
      >>= _) = _
    rw [ih _ fun j hj => hlt j (mem_cons_of_mem _ hj)]
    show Except.ok ((T.sector m (start + i)).1.take (min remaining T.size) ++ _) = _
    rw [flatMap_cons, take_append, hlen, take_min_of_length hlen,
      show remaining - min remaining T.size = remaining - T.size by omega]

/-- The batched checksum is the checksum of the payload. -/
private theorem payloadCrcLoop_readAll {start : ℕ} (h : start + count ≤ T.device.sectors)
    (index remaining : ℕ) (crc : BitVec 32) :
    payloadCrcLoop T.device (readAll m) start count index remaining crc
      = .ok (remaining - (count - index) * T.size, Crc32c.update crc
          ((T.bytesFrom m (start + index) (count - index)).take remaining)) := by
  -- the measure is the number of sectors left; each round reads a batch of them
  induction hleft : count - index using Nat.strong_induction_on
    generalizing index remaining crc with
  | _ left ih =>
    rw [payloadCrcLoop]
    by_cases hlt : index < count
    · have hpos : min (count - index) readBatchSectors ≠ 0 := by
        unfold readBatchSectors
        omega
      have hread := BlockRange.readSectors_readAll T.addressable (m := m) hpos
        (show start + index + min (count - index) readBatchSectors ≤ T.device.sectors by omega)
      rw [dif_pos hlt]
      simp only
      rw [hread]
      simp only [flatMap_map]
      generalize hk : min (count - index) readBatchSectors = k at *
      have hbytes : ((List.range k).flatMap fun i => (m (T.device.start + (start + index + i))).1) =
        T.bytesFrom m (start + index) k := rfl
      have hkle : k ≤ count - index := by omega
      have hsplit : count - index = k + (count - (index + k)) := by omega
      rw [ih (count - (index + k)) (by omega) _ _ _ rfl, hbytes, ← hleft, hsplit,
        bytesFrom_add, Nat.add_assoc, Nat.add_mul]
      have hlen : (T.bytesFrom m (start + index) k).length = k * T.size :=
        length_bytesFrom _ _
      rw [take_min_of_length hlen, ← update_append, take_append, hlen,
        show remaining - min remaining (k * T.size) = remaining - k * T.size by omega]
      congr 2
      omega
    · rw [dif_neg hlt]
      have hzero : left = 0 := by omega
      subst hzero
      simp [bytesFrom, Crc32c.update]

private theorem readExact_readAll (start index remaining : ℕ)
    (hlt : ∀ i, i * T.size < remaining → start + index + i < T.device.sectors)
    (hcount : remaining ≤ count * T.size) : readExact T.device (readAll m) start index remaining
      = .ok ((T.bytesFrom m (start + index) count).take remaining) := by
  have hsize := T.size_pos
  -- one sector a round; `count` is a bound on the rounds
  induction count generalizing index remaining with
  | zero =>
    have hzero : remaining = 0 := by omega
    subst hzero
    rw [readExact, dif_pos (Or.inl rfl), take_zero]
  | succ count ih =>
    rw [readExact]
    by_cases hzero : remaining = 0
    · rw [dif_pos (Or.inl hzero), hzero, take_zero]
    · have hfirst : start + index < T.device.sectors := hlt 0 (by omega)
      have hlen : (T.bytesFrom m (start + index) 1).length = T.size := by
        rw [length_bytesFrom, Nat.one_mul]
      have hbytes : T.bytesFrom m (start + index) 1 = (T.sector m (start + index)).1 := by
        simp [bytesFrom]
      rw [dif_neg (by omega), readSector_readAll hfirst]
      simp only
      rw [show remaining - min remaining T.size = remaining - T.size by omega,
        ih (index + 1) (remaining - T.size) ?_ ?_]
      · show Except.ok _ = _
        rw [take_min_of_length (T.sector m (start + index)).2, Nat.add_comm count,
          bytesFrom_add, take_append, hlen, hbytes, Nat.add_assoc]
      · intro i hi
        have := hlt (i + 1) (by rw [Nat.succ_mul]; omega)
        omega
      · rw [Nat.succ_mul] at hcount
        omega

/-- The bounds that the checks of `read_slot_plan` put on a plan. -/
structure SnapshotSite.Bounded (T : SnapshotSite) (plan : SlotReadPlan) : Prop where
  slot_le : plan.slot ≤ 1
  payloadSectors_le : plan.payloadSectors ≤ T.slotSectors - 1
  payloadLen_le : plan.payloadLen ≤ plan.payloadSectors * T.size

theorem SnapshotSite.bounded_of_slotPlan (hslot : slot ≤ 1) {header : Sector T.size}
    (h : T.slotPlan slot header = .ok (some plan)) : T.Bounded plan := by
  obtain ⟨-, hplan, hsectors, hlen⟩ := slotPlan_eq_some h
  exact ⟨hplan.trans_le hslot, hsectors, hlen⟩

theorem SnapshotSite.Bounded.payload_inside (h : T.Bounded plan) :
    T.slotBase plan.slot + 1 + plan.payloadSectors ≤ T.device.sectors := by
  have hle := h.payloadSectors_le
  have htwo := T.two_le_slotSectors
  have hinside : T.slotBase plan.slot + (1 + plan.payloadSectors) ≤ T.device.sectors :=
    T.slotBase_add_le h.slot_le (by omega)
  omega

theorem validateSlotPayloadCrc_readAll (h : T.Bounded plan) :
    T.store.validateSlotPayloadCrc T.device (readAll m) plan
      = if crc32c (T.slotPayload m plan) = plan.payloadCrc then .ok () else .error .corrupt := by
  have hbatch : T.size * readBatchSectors < 2 ^ 64 := by
    have hmul := T.bytes_lt
    have hfour := Nat.mul_le_mul_right T.size T.four_le
    unfold readBatchSectors
    omega
  rw [validateSlotPayloadCrc, T.geometry_eq]
  show (if _ then _ else _) = _
  rw [if_neg (by have := h.payloadSectors_le; omega), T.slotLba_eq h.slot_le]
  show (match checkedMul T.size readBatchSectors with | none => _ | some _ => _) = _
  rw [checkedMul_of_lt hbatch]
  show (payloadCrcLoop T.device (readAll m) (T.slotBase plan.slot + 1) plan.payloadSectors 0
    plan.payloadLen Crc32c.new >>= _) = _
  rw [payloadCrcLoop_readAll h.payload_inside, Nat.sub_zero, Nat.add_zero]
  show (if _ then _ else _) = _
  rw [Nat.sub_eq_zero_of_le h.payloadLen_le]
  change (if 0 ≠ 0 ∨ crc32c (T.slotPayload m plan) ≠ plan.payloadCrc then _ else _) = _
  simp only [ne_eq, not_true_eq_false, false_or, ite_not]

theorem readSlot_readAll (hslot : slot ≤ 1) : T.store.readSlot T.device (readAll m) slot
      = (T.slotPlan slot (T.sector m (T.slotBase slot))).bind fun
          | none => .ok none
          | some plan =>
            if crc32c (T.slotPayload m plan) = plan.payloadCrc then
              .ok (some ⟨plan.generation, T.slotPayload m plan, plan.wal, plan.resetting⟩)
            else .error .corrupt := by
  rw [readSlot, readSlotPlan_readAll hslot]
  rcases hplan : T.slotPlan slot (T.sector m (T.slotBase slot)) with e | _ | plan
  · rfl
  · rfl
  · have hbounded := bounded_of_slotPlan hslot hplan
    have hinside := hbounded.payload_inside
    obtain ⟨-, rfl, -, -⟩ := slotPlan_eq_some hplan
    show (T.store.geometry T.device T.size >>= _) = _
    rw [T.geometry_eq]
    show (T.store.slotLba T.slotSectors plan.slot >>= _) = _
    rw [T.slotLba_eq hslot]
    show (readPayloadSectors T.device (readAll m) (T.slotBase plan.slot + 1) plan.payloadLen
      (List.range plan.payloadSectors) >>= _) = _
    rw [readPayloadSectors_readAll _ _ _ fun i hi => by
      have := mem_range.mp hi
      omega]
    exact ite_not ..

theorem readSelectedPayload_readAll (h : T.Bounded plan) :
    T.store.readSelectedPayload T.device (readAll m) plan
      = if crc32c (T.slotPayload m plan) = plan.payloadCrc then .ok (T.slotPayload m plan)
        else .error .corrupt := by
  have hsize := T.size_pos
  rw [readSelectedPayload, T.geometry_eq]
  show (T.store.slotLba T.slotSectors plan.slot >>= _) = _
  rw [T.slotLba_eq h.slot_le]
  show (readExact T.device (readAll m) (T.slotBase plan.slot + 1) 0 plan.payloadLen >>= _) = _
  rw [readExact_readAll _ _ _ ?_ h.payloadLen_le]
  · rw [Nat.add_zero]
    exact ite_not ..
  · intro i hi
    have hlt : i < plan.payloadSectors := Nat.lt_of_mul_lt_mul_right (hi.trans_le h.payloadLen_le)
    have := h.payload_inside
    omega

variable {T : SnapshotSite} {m m' : T.Contents} {plan : SlotReadPlan} {payload : List UInt8}
  {slot : ℕ}

/-! ## One slot -/

/-- `m'` agrees with `m` on the sectors of a slot. -/
def SlotAgrees (T : SnapshotSite) (m m' : T.Contents) (slot : ℕ) : Prop :=
  ∀ lba < T.slotSectors, T.sector m' (T.slotBase slot + lba) = T.sector m (T.slotBase slot + lba)

/-- The slot of the plan carries its header and the payload the header describes. -/
structure Holds (T : SnapshotSite) (m : T.Contents) (plan : SlotReadPlan)
    (payload : List UInt8) : Prop where
  slot_le : plan.slot ≤ 1
  header : T.slotPlan plan.slot (T.sector m (T.slotBase plan.slot)) = .ok (some plan)
  stored : T.slotPayload m plan = payload
  crc : crc32c payload = plan.payloadCrc

theorem SlotAgrees.header (h : SlotAgrees T m m' slot) :
    T.sector m' (T.slotBase slot) = T.sector m (T.slotBase slot) :=
  h 0 (by have := T.two_le_slotSectors; omega)

theorem SlotAgrees.slotPayload (h : SlotAgrees T m m' plan.slot) (hplan : T.Bounded plan) :
    T.slotPayload m' plan = T.slotPayload m plan := by
  have hle := hplan.payloadSectors_le
  unfold SnapshotSite.slotPayload SnapshotSite.slotBytes
  congr 1
  refine List.flatMap_congr fun i hi => ?_
  have hi := List.mem_range.mp hi
  rw [Nat.add_assoc, h (1 + i) (by omega)]

namespace Holds

section

variable (h : Holds T m plan payload)
include h

theorem bounded : T.Bounded plan := bounded_of_slotPlan h.slot_le h.header

/-- A slot depends on its own sectors only. -/
theorem congr (hagrees : SlotAgrees T m m' plan.slot) : Holds T m' plan payload where
  slot_le := h.slot_le
  header := by rw [hagrees.header, h.header]
  stored := by rw [hagrees.slotPayload h.bounded, h.stored]
  crc := h.crc

theorem readSlotPlan : T.store.readSlotPlan T.device (readAll m) plan.slot = .ok (some plan) := by
  rw [readSlotPlan_readAll h.slot_le, h.header]

theorem validate : T.store.validateSlotPayloadCrc T.device (readAll m) plan = .ok () := by
  rw [validateSlotPayloadCrc_readAll h.bounded, h.stored, if_pos h.crc]

theorem readValidSlotPlan :
    T.store.readValidSlotPlan T.device (readAll m) plan.slot = .ok (some plan) := by
  rw [SnapshotBlockStore.readValidSlotPlan, h.readSlotPlan]
  show (T.store.validateSlotPayloadCrc T.device (readAll m) plan >>= _) = _
  rw [h.validate]
  rfl

theorem readSlot : T.store.readSlot T.device (readAll m) plan.slot
      = .ok (some ⟨plan.generation, payload, plan.wal, plan.resetting⟩) := by
  rw [readSlot_readAll h.slot_le, h.header]
  show (if _ then _ else _) = _
  rw [h.stored, if_pos h.crc]

theorem readSelectedPayload :
    T.store.readSelectedPayload T.device (readAll m) plan = .ok payload := by
  rw [readSelectedPayload_readAll h.bounded, h.stored, if_pos h.crc]

end

end Holds

/-- A slot whose payload is valid holds it. -/
theorem holds_of_readValidSlotPlan (hslot : slot ≤ 1)
    (h : T.store.readValidSlotPlan T.device (readAll m) slot = .ok (some plan)) :
    plan.slot = slot ∧ Holds T m plan (T.slotPayload m plan) := by
  rw [readValidSlotPlan, readSlotPlan_readAll hslot] at h
  rcases hplan : T.slotPlan slot (T.sector m (T.slotBase slot)) with e | _ | found
  · rw [hplan] at h
    cases h
  · rw [hplan] at h
    cases h
  · have hbounded := bounded_of_slotPlan hslot hplan
    rw [hplan] at h
    change (T.store.validateSlotPayloadCrc T.device (readAll m) found >>= _) = _ at h
    rw [validateSlotPayloadCrc_readAll hbounded] at h
    split_ifs at h with hcrc
    · cases h
      obtain ⟨-, hslot', -, -⟩ := slotPlan_eq_some hplan
      exact ⟨hslot', hbounded.slot_le, hslot' ▸ hplan, rfl, hcrc⟩
    · cases h

/-- A header that was read can be written again. -/
theorem encodable_of_slotPlan {header : Sector T.size}
    (h : T.slotPlan slot header = .ok (some plan)) : plan.Encodable T.size :=
  header.2 ▸ decodeHeader_encodable (slotPlan_eq_some h).1

/-! ## Both slots -/

/-- The manifest of an older slot may precede the manifest of the chosen one: same
anchor, and no more of the log folded in. -/
def Precedes : Option WalSnapshotManifest → Option WalSnapshotManifest → Prop
  | none, none => True
  | some older, some newer =>
    newer.anchor = older.anchor ∧ older.baseSerial ≤ newer.baseSerial
  | _, _ => False

/-- The plan describes the newest header and its payload; the other slot has an older
header or none. -/
structure Newest (T : SnapshotSite) (m : T.Contents) (plan : SlotReadPlan)
    (payload : List UInt8) : Prop extends Holds T m plan payload where
  other : ∃ found, T.slotPlan (1 - plan.slot) (T.sector m (T.slotBase (1 - plan.slot))) = .ok found
    ∧ ∀ other, found = some other → other.generation < plan.generation

/-- The newest slot, and an older header from which it may follow. -/
structure Chosen (T : SnapshotSite) (m : T.Contents) (plan : SlotReadPlan)
    (payload : List UInt8) : Prop extends Holds T m plan payload where
  ready : plan.resetting = false
  companion : T.slotPlan (1 - plan.slot) (T.sector m (T.slotBase (1 - plan.slot))) = .ok none
    ∨ ∃ other, T.slotPlan (1 - plan.slot) (T.sector m (T.slotBase (1 - plan.slot)))
        = .ok (some other)
      ∧ other.generation < plan.generation ∧ other.resetting = false
      ∧ Precedes other.wal plan.wal

/-- Neither slot has a header. -/
def Blank (T : SnapshotSite) (m : T.Contents) : Prop :=
  ∀ slot ≤ 1, T.slotPlan slot (T.sector m (T.slotBase slot)) = .ok none

/-- The checks of `current_paired_wal_journal_manifest` on the two manifests. -/
private theorem precedes_of_pairCheck {selected companion : SlotReadPlan}
    {manifest : WalSnapshotManifest}
    (h : (orCorrupt selected.wal).bind (fun manifest => (orCorrupt companion.wal).bind fun other =>
        if ¬ manifest.valid ∨ ¬ other.valid then .error .corrupt
        else (sameAnchorWalCompanion selected.generation manifest companion.generation other).bind
          fun _ => .ok manifest) = .ok manifest) :
    selected.wal = some manifest ∧ selected.generation ≠ companion.generation
      ∧ Precedes companion.wal selected.wal := by
  obtain ⟨newer, hnewer, h⟩ := Result.bind_eq_ok h
  obtain ⟨older, holder, h⟩ := Result.bind_eq_ok h
  split_ifs at h with hvalid
  obtain ⟨_, hsame, h⟩ := Result.bind_eq_ok h
  cases h
  unfold sameAnchorWalCompanion at hsame
  split_ifs at hsame with hrule
  rw [not_or, not_or, not_not, Nat.not_lt] at hrule
  rw [orCorrupt_eq_ok hnewer, orCorrupt_eq_ok holder]
  exact ⟨rfl, hrule⟩

/-- A pair of valid WAL slots, as `current_paired_wal_journal_manifest` accepts it. -/
theorem chosen_of_paired {manifest : WalSnapshotManifest}
    (h : T.store.currentPairedWalJournalManifest T.device (readAll m) = .ok manifest) :
    ∃ newest older, Chosen T m newest (T.slotPayload m newest)
      ∧ Holds T m older (T.slotPayload m older) ∧ older.slot = 1 - newest.slot
      ∧ older.resetting = false ∧ newest.wal = some manifest := by
  unfold currentPairedWalJournalManifest at h
  obtain ⟨found₀, h₀, h⟩ := Result.bind_eq_ok h
  obtain ⟨first, hfirst, h⟩ := Result.bind_eq_ok h
  obtain ⟨found₁, h₁, h⟩ := Result.bind_eq_ok h
  obtain ⟨second, hsecond, h⟩ := Result.bind_eq_ok h
  rw [orCorrupt_eq_ok hfirst] at h₀
  rw [orCorrupt_eq_ok hsecond] at h₁
  obtain ⟨hslot₀, hholds₀⟩ := holds_of_readValidSlotPlan (by omega) h₀
  obtain ⟨hslot₁, hholds₁⟩ := holds_of_readValidSlotPlan (by omega) h₁
  split_ifs at h with hresetting hlt
  · rw [not_or, Bool.not_eq_true, Bool.not_eq_true] at hresetting
    obtain ⟨hwal, -, hprecedes⟩ := precedes_of_pairCheck h
    have hother : second.slot = 1 - first.slot := by omega
    exact ⟨first, second, ⟨hholds₀, hresetting.1, Or.inr ⟨second, hother ▸ hholds₁.header, hlt,
      hresetting.2, hprecedes⟩⟩, hholds₁, hother, hresetting.2, hwal⟩
  · rw [not_or, Bool.not_eq_true, Bool.not_eq_true] at hresetting
    obtain ⟨hwal, hne, hprecedes⟩ := precedes_of_pairCheck h
    have hother : first.slot = 1 - second.slot := by omega
    have hlt' : first.generation < second.generation := by omega
    exact ⟨second, first, ⟨hholds₁, hresetting.2, Or.inr ⟨first, hother ▸ hholds₀.header, hlt',
      hresetting.1, hprecedes⟩⟩, hholds₀, hother, hresetting.1, hwal⟩

/-- Of two slots the one with the newest valid payload is selected. -/
private theorem selectLatest_eq {α : Type} (generation : α → ℕ)
    {result : ℕ → Except SnapshotBlockStoreError (Option α)} (hslot : slot ≤ 1) {a : α}
    (ha : result slot = .ok (some a))
    (hother : ∀ b, result (1 - slot) = .ok (some b) → generation b < generation a) :
    selectLatest generation (result 0) (result 1) = .ok (some a) := by
  rcases Nat.le_one_iff_eq_zero_or_eq_one.mp hslot with rfl | rfl
  · rw [ha]
    rcases hb : result 1 with e | _ | b
    · rfl
    · rfl
    · have := hother b hb
      simp only [selectLatest]
      rw [if_neg (by omega)]
  · rw [ha]
    rcases hb : result 0 with e | _ | b
    · rfl
    · rfl
    · have := hother b hb
      simp only [selectLatest]
      rw [if_pos this]

namespace Newest

theorem older (h : Newest T m plan payload) {other : SlotReadPlan}
    (hother : T.slotPlan (1 - plan.slot) (T.sector m (T.slotBase (1 - plan.slot)))
      = .ok (some other)) : other.generation < plan.generation := by
  obtain ⟨found, hfound, hlt⟩ := h.other
  rw [hfound] at hother
  exact hlt other (Except.ok.inj hother)

theorem readLatest (h : Newest T m plan payload) :
    T.store.readLatest T.device (readAll m) = .ok (some ⟨plan.generation, payload⟩) := by
  have hselect := selectLatest_eq SlotSnapshot.generation h.slot_le h.readSlot ?_
  · rw [SnapshotBlockStore.readLatest, hselect]
    rfl
  · intro slot hslot
    rw [readSlot_readAll (Nat.sub_le _ _)] at hslot
    obtain ⟨found, hplan, hslot⟩ := Result.bind_eq_ok hslot
    cases found with
    | none => cases hslot
    | some other =>
      simp only at hslot
      split_ifs at hslot
      cases hslot
      exact h.older hplan

theorem latestValidSlot (h : Newest T m plan payload) :
    T.store.latestValidSlot T.device (readAll m) = .ok (some plan) := by
  refine selectLatest_eq _ h.slot_le h.readValidSlotPlan fun other hother => ?_
  obtain ⟨hslot, hholds⟩ := holds_of_readValidSlotPlan (Nat.sub_le _ _) hother
  have hheader := hholds.header
  rw [hslot] at hheader
  exact h.older hheader

private theorem commitCandidate_eq {slot : ℕ} {found : Option SlotReadPlan}
    (h : T.store.readSlotPlan T.device (readAll m) slot = .ok found) :
    T.store.commitCandidate T.device (readAll m) slot = .ok (found, false) := by
  rw [commitCandidate, h]

/-- The writer selects the newest slot as well. -/
theorem latestCommitSlot (h : Newest T m plan payload) :
    T.store.latestCommitSlot T.device (readAll m) = .ok (some plan) := by
  have hfirst : ∀ rest, T.store.firstValid T.device (readAll m) false (plan :: rest)
      = .ok (some plan) := by
    intro rest
    rw [firstValid, h.validate]
  have hown := commitCandidate_eq h.readSlotPlan
  obtain ⟨found, hfound, hsorted⟩ := h.other
  rw [← readSlotPlan_readAll (Nat.sub_le _ _)] at hfound
  have hcompanion := commitCandidate_eq hfound
  have hslot := h.slot_le
  rcases Nat.le_one_iff_eq_zero_or_eq_one.mp hslot with hzero | hone
  · rw [hzero] at hown hcompanion
    rw [SnapshotBlockStore.latestCommitSlot, hown]
    show (T.store.commitCandidate T.device (readAll m) 1 >>= _) = _
    rw [hcompanion]
    show T.store.firstValid T.device (readAll m) false (sortCandidates (some plan) found) = _
    cases found with
    | none => exact hfirst []
    | some other =>
      rw [sortCandidates, if_neg (by have := hsorted other rfl; omega)]
      exact hfirst _
  · rw [hone] at hown hcompanion
    rw [SnapshotBlockStore.latestCommitSlot, hcompanion]
    show (T.store.commitCandidate T.device (readAll m) 1 >>= _) = _
    rw [hown]
    show T.store.firstValid T.device (readAll m) false (sortCandidates found (some plan)) = _
    cases found with
    | none => exact hfirst []
    | some other =>
      rw [sortCandidates, if_pos (hsorted other rfl)]
      exact hfirst _

end Newest

namespace Chosen

/-- The other slot is older whatever its payload is. -/
theorem older (h : Chosen T m plan payload) {other : SlotReadPlan}
    (hother : T.slotPlan (1 - plan.slot) (T.sector m (T.slotBase (1 - plan.slot)))
      = .ok (some other)) :
    other.generation < plan.generation ∧ other.resetting = false ∧ Precedes other.wal plan.wal := by
  rcases h.companion with hnone | ⟨found, hfound, hfacts⟩
  · rw [hnone] at hother
    cases hother
  · rw [hfound] at hother
    cases hother
    exact hfacts

theorem newest (h : Chosen T m plan payload) : Newest T m plan payload := by
  refine ⟨h.toHolds, ?_⟩
  rcases h.companion with hnone | ⟨other, hother, hlt, -⟩
  · exact ⟨none, hnone, nofun⟩
  · exact ⟨some other, hother, by rintro _ ⟨⟩; exact hlt⟩

variable {manifest : WalSnapshotManifest}

theorem manifest_valid (h : Chosen T m plan payload)
    (hwal : plan.wal = some manifest) : manifest.valid = true :=
  ((encodable_of_slotPlan h.header).wal manifest hwal).2

/-- The recovery floor of a chosen slot is its own anchor. -/
private theorem walRecoveryFloor_eq (hvalid : manifest.valid = true)
    {companion : Option WalSnapshotManifest}
    (hcompanion : ∀ older, companion = some older → Precedes (some older) (some manifest)) :
    walRecoveryFloor manifest companion = .ok manifest.anchor := by
  have hbase := WalSnapshotManifest.baseSerial_le_of_valid hvalid
  have hfloor : ¬ manifest.baseSerial > manifest.anchor.serial := Nat.not_lt.mpr hbase
  cases companion with
  | none => exact if_neg hfloor
  | some older =>
    obtain ⟨hanchor, hle⟩ := hcompanion older rfl
    rw [walRecoveryFloor, ← hanchor]
    rw [if_neg (by omega), if_neg (Nat.lt_irrefl _)]
    exact if_neg hfloor

theorem metadataForSelected (h : Chosen T m plan payload) (hwal : plan.wal = some manifest) :
    T.store.metadataForSelected T.device (readAll m) plan
      = .ok ⟨plan.generation, plan.payloadLen, .wal manifest.baseSerial manifest.anchor⟩ := by
  have hvalid := h.manifest_valid hwal
  rw [SnapshotBlockStore.metadataForSelected, readSlotPlan_readAll (Nat.sub_le _ _)]
  rcases h.companion with hnone | ⟨other, hother, hlt, hready, hprecedes⟩
  · rw [hnone]
    show (if _ then _ else _) = _
    rw [if_neg (by simp [h.ready]), hwal]
    show (walRecoveryFloor manifest none >>= _) = _
    rw [walRecoveryFloor_eq hvalid (by rintro _ ⟨⟩)]
    rfl
  · have hbounded := bounded_of_slotPlan (Nat.sub_le _ _) hother
    rw [hother]
    show (if _ then _ else _) = _
    rw [if_neg (by simp [h.ready, hready]), hwal]
    cases holder : other.wal with
    | none => simp [hwal, holder, Precedes] at hprecedes
    | some older =>
      rw [hwal, holder] at hprecedes
      have hsame : sameAnchorWalCompanion plan.generation manifest other.generation older
          = .ok () := by
        rw [sameAnchorWalCompanion, if_neg]
        rintro (heq | hne | hbase)
        · omega
        · exact hne hprecedes.1
        · have := hprecedes.2
          omega
      -- the payload of the other slot may be torn: the header alone is enough
      have hcompanion : T.store.companionManifest T.device (readAll m) plan manifest (some other)
          = .ok (some older) := by
        rw [companionManifest, holder, validateSlotPayloadCrc_readAll hbounded]
        split_ifs
        · rfl
        · show (sameAnchorWalCompanion plan.generation manifest other.generation older >>= _) = _
          rw [hsame]
          rfl
      show (T.store.companionManifest T.device (readAll m) plan manifest (some other) >>= _) = _
      rw [hcompanion]
      show (walRecoveryFloor manifest (some older) >>= _) = _
      rw [walRecoveryFloor_eq hvalid (by rintro _ ⟨⟩; exact hprecedes)]
      rfl

theorem readLatestWal (h : Chosen T m plan payload) (hwal : plan.wal = some manifest) :
    T.store.readLatestWal T.device (readAll m)
      = .ok (some ⟨⟨plan.generation, payload⟩, manifest.baseSerial, manifest.anchor⟩) := by
  rw [SnapshotBlockStore.readLatestWal, h.newest.latestValidSlot]
  show (T.store.metadataForSelected T.device (readAll m) plan >>= _) = _
  rw [h.metadataForSelected hwal]
  show (T.store.readSelectedPayload T.device (readAll m) plan >>= _) = _
  rw [h.readSelectedPayload]
  rfl

end Chosen

namespace Blank

theorem readLatest (h : Blank T m) : T.store.readLatest T.device (readAll m) = .ok none := by
  have hslot : ∀ slot ≤ 1, T.store.readSlot T.device (readAll m) slot = .ok none := by
    intro slot hslot
    rw [readSlot_readAll hslot, h slot hslot]
    rfl
  rw [SnapshotBlockStore.readLatest, hslot 0 (by omega), hslot 1 (by omega)]
  rfl

theorem latestCommitSlot (h : Blank T m) :
    T.store.latestCommitSlot T.device (readAll m) = .ok none := by
  have hslot : ∀ slot ≤ 1, T.store.commitCandidate T.device (readAll m) slot
      = .ok (none, false) := by
    intro slot hslot
    rw [commitCandidate, readSlotPlan_readAll hslot, h slot hslot]
  rw [SnapshotBlockStore.latestCommitSlot, hslot 0 (by omega), hslot 1 (by omega)]
  rfl

end Blank

end UserspaceNtos.Fs
