import UserspaceNtos.Fs.SnapshotAdmission

/-!
# Publication of a commit

What `commit_next_streaming_inner` leaves on the device once it writes.  The batches
of the payload are one run of consecutive writes to the target slot
(`writeBatches_eq_writeEach`), so there are two barriers.  Until the second one no
header has changed, and every image still shows the snapshot the commit started
from (`Shows.congr`).  The second barrier is one sector: an image shows the old
snapshot or the new one (`shows_of_header`).  `runs_publishCommit` puts them together.
-/

namespace UserspaceNtos.Fs

open CachedStorage ConfigStore SnapshotBlockStore List BlockRange

/-! ## Payload sectors -/

section Sectors

variable {size : ℕ}

theorem divCeil_zero (hsize : 0 < size) : divCeil 0 size = 0 := Nat.div_eq_of_lt (by omega)

theorem divCeil_add_mul (hsize : 0 < size) (len count : ℕ) :
    divCeil (count * size + len) size = count + divCeil len size := by
  rw [divCeil, divCeil, Nat.add_assoc, Nat.add_comm (count * size), Nat.add_mul_div_right _ _ hsize,
    Nat.add_comm]

theorem divCeil_of_le (hsize : 0 < size) {len : ℕ} (hpos : 0 < len) (hle : len ≤ size) :
    divCeil len size = 1 := by
  obtain ⟨rest, rfl⟩ : ∃ rest, len = rest + 1 := ⟨len - 1, by omega⟩
  rw [divCeil, show rest + 1 + (size - 1) = rest + 1 * size by omega,
    Nat.add_mul_div_right _ _ hsize, Nat.div_eq_of_lt (by omega)]

theorem le_divCeil_mul (hsize : 0 < size) (len : ℕ) : len ≤ divCeil len size * size := by
  have h := Nat.lt_div_mul_add hsize (a := len + (size - 1))
  rw [divCeil]
  omega

@[simp] theorem length_sectorsOf (bytes : List UInt8) :
    (sectorsOf size bytes).length = divCeil bytes.length size := by
  rw [sectorsOf, length_map, length_range]

/-- The sectors of a list of bytes are those of its first `count * size` bytes and those
of the rest. -/
theorem sectorsOf_eq_append (hsize : 0 < size) (count : ℕ) (bytes : List UInt8) :
    sectorsOf size bytes = sectorsOf size (bytes.take (count * size)) ++
        sectorsOf size (bytes.drop (count * size)) := by
  rcases Nat.le_total bytes.length (count * size) with hle | hle
  · rw [take_of_length_le hle, drop_eq_nil_of_le hle]
    show _ = _ ++ (List.range (divCeil 0 size)).map _
    rw [divCeil_zero hsize]
    exact (append_nil _).symm
  · have hcount : divCeil (bytes.take (count * size)).length size = count := by
      rw [length_take_of_le hle, show count * size = count * size + 0 from rfl,
        divCeil_add_mul hsize, divCeil_zero hsize, Nat.add_zero]
    have hall : divCeil bytes.length size
        = count + divCeil (bytes.drop (count * size)).length size := by
      rw [← divCeil_add_mul hsize, length_drop, Nat.add_sub_cancel' hle]
    rw [sectorsOf, sectorsOf, hcount, hall, range_add, map_append, map_map]
    congr 1
    · refine map_congr_left fun i hi => ?_
      have hi : i + 1 ≤ count := mem_range.mp hi
      have hmul : (i + 1) * size ≤ count * size := Nat.mul_le_mul_right _ hi
      rw [Nat.succ_mul] at hmul
      rw [drop_take, take_take, min_eq_left (by omega)]
    · refine map_congr_left fun i _ => ?_
      simp only [Function.comp_apply, drop_drop, Nat.add_mul]

/-- A sector run holds its bytes. -/
theorem take_flatMap_sectorsOf (hsize : 0 < size) (bytes : List UInt8) :
    ((sectorsOf size bytes).flatMap fun sector => sector.1).take bytes.length = bytes := by
  -- one sector a round
  induction hlen : bytes.length using Nat.strong_induction_on generalizing bytes with
  | _ len ih =>
    rcases Nat.eq_zero_or_pos len with rfl | hpos
    · rw [length_eq_zero_iff.mp hlen, take_zero]
    · have hfirst :
          sectorsOf size (bytes.take (1 * size)) = [Sector.pad size (bytes.take size)] := by
        rw [Nat.one_mul, sectorsOf, divCeil_of_le hsize (by rw [length_take]; omega)
          (length_take_le _ _)]
        simp [take_take]
      rw [sectorsOf_eq_append hsize 1, hfirst, flatMap_append, flatMap_singleton, Nat.one_mul]
      rcases Nat.le_total len size with hle | hle
      · rw [take_of_length_le (hlen.trans_le hle), Sector.pad_val_of_le (hlen.trans_le hle),
          append_assoc, ← hlen, take_left]
      · have hpad : (Sector.pad size (bytes.take size)).1 = bytes.take size := by
          have hlen' : (bytes.take size).length = size := length_take_of_le (by omega)
          rw [Sector.pad_val_of_le hlen'.le, hlen', Nat.sub_self]
          exact append_nil _
        have hrest : (bytes.drop size).length = len - size := by rw [length_drop, hlen]
        rw [hpad, take_append, length_take_of_le (by omega), ih (len - size) (by omega)
          _ hrest, take_take, min_eq_right hle, take_append_drop]

/-- The batches of a payload are one run of consecutive writes. -/
theorem writeBatches_eq_writeEach {device : BlockRange} (haddr : device.Addressable)
    (hsize : 0 < size) (slotBase index : ℕ) (bytes : List UInt8)
    (hroom : slotBase + 1 + index + divCeil bytes.length size ≤ device.sectors) :
    (writeBatches device slotBase index bytes : DiskM (Sector size) SnapshotBlockStoreError Unit)
      = DiskM.writeEach .io (BlockRange.enumerate (device.start + (slotBase + 1 + index))
            (sectorsOf size bytes)) := by
  induction hlen : bytes.length using Nat.strong_induction_on generalizing index bytes with
  | _ len ih =>
    by_cases hnil : bytes = []
    · have hempty : sectorsOf size ([] : List UInt8) = [] :=
        length_eq_zero_iff.mp ((length_sectorsOf _).trans (divCeil_zero hsize))
      rw [writeBatches, hnil, hempty]
      rfl
    have hpos : 0 < bytes.length := length_pos_iff.mpr hnil
    have hsplit := sectorsOf_eq_append hsize writeBatchSectors bytes
    have hcount := congrArg List.length hsplit
    rw [length_append, length_sectorsOf, length_sectorsOf, length_sectorsOf] at hcount
    have hstaged : sectorsOf size (bytes.take (writeBatchSectors * size)) ≠ [] := by
      have hlong : 0 < (bytes.take (writeBatchSectors * size)).length := by
        rw [length_take, writeBatchSectors]
        omega
      have hle := le_divCeil_mul hsize (bytes.take (writeBatchSectors * size)).length
      intro hempty
      rw [← length_sectorsOf, hempty] at hle
      simp only [length_nil, Nat.zero_mul] at hle
      omega
    have haddr' := haddr
    unfold BlockRange.Addressable at haddr'
    rw [writeBatches, dif_neg (not_or.mpr ⟨hnil, hsize.ne'⟩)]
    simp only
    rw [flushStaged, checkedAdd_of_lt (by omega), checkedAdd_of_lt (by omega), Option.bind_some,
      checkedAdd_of_lt (by omega)]
    simp only
    rw [writeSectors_eq_writeEach haddr hstaged (by rw [length_sectorsOf]; omega),
      ih _ ?_ _ _ ?_ rfl, hsplit, enumerate_append, DiskM.writeEach_append,
      length_sectorsOf]
    · simp only [Nat.add_assoc]
    · rw [length_drop, writeBatchSectors]
      omega
    · omega

end Sectors

/-! ## Headers -/

variable {T : SnapshotSite} {m v : T.Contents}

variable {header : SlotHeader}

/-- A header that fits its slot is read back. -/
theorem slotPlan_encodeHeader (h : header.Encodable T.size)
    (hplan : T.Bounded header) :
    T.slotPlan header.slot (header.encodeHeader T.size) = .ok (some header) := by
  have hbytes : header.payloadSectors * T.size < 2 ^ 64 := by
    have hle : header.payloadSectors ≤ T.slotSectors := by
      have := hplan.payloadSectors_le
      omega
    exact (Nat.mul_le_mul_right _ hle).trans_lt T.slotSectors_mul_size_lt
  unfold SnapshotSite.slotPlan
  rw [SlotHeader.decodeHeader_encodeHeader h]
  show (if _ then _ else _) = _
  rw [if_neg (by have := hplan.payloadSectors_le; omega), checkedMul_of_lt hbytes]
  exact if_neg (Nat.not_lt.mpr hplan.payloadLen_le)

/-- The sectors of different slots are different, and so are those of one slot. -/
theorem SnapshotSite.slotBase_add_inj {slot slot' lba lba' : ℕ} (hslot : slot ≤ 1)
    (hslot' : slot' ≤ 1) (hlba : lba < T.slotSectors) (hlba' : lba' < T.slotSectors)
    (h : T.slotBase slot + lba = T.slotBase slot' + lba') : slot = slot' ∧ lba = lba' := by
  unfold slotBase at h
  rcases Nat.le_one_iff_eq_zero_or_eq_one.mp hslot with rfl | rfl <;>
    rcases Nat.le_one_iff_eq_zero_or_eq_one.mp hslot' with rfl | rfl <;> omega

/-! ## What the contents show -/

/-- The contents show a snapshot in the slot of its plan, or none. -/
def Shows (T : SnapshotSite) (m : T.Contents) : Option (SlotReadPlan × List UInt8) → Prop
  | none => Blank T m
  | some (plan, payload) => Chosen T m plan payload

/-- The slot `target` is not the one that shows the snapshot. -/
def Spares (target : ℕ) (shown : Option (SlotReadPlan × List UInt8)) : Prop :=
  ∀ newest payload, shown = some (newest, payload) → newest.slot = 1 - target

variable {target : ℕ} {shown : Option (SlotReadPlan × List UInt8)}

/-- The payload of the slot that is not shown does not matter. -/
theorem Shows.congr (h : Shows T v shown) (htarget : target ≤ 1) (hspares : Spares target shown)
    (hagrees : SlotAgrees T v m (1 - target))
    (hheader : T.sector m (T.slotBase target) = T.sector v (T.slotBase target)) :
    Shows T m shown := by
  rcases shown with _ | ⟨newest, payload⟩
  · intro slot hslot
    -- one of the slots is the target, the other one agrees
    by_cases heq : slot = target
    · rw [heq, hheader]
      exact h target htarget
    · obtain rfl : slot = 1 - target := by omega
      rw [hagrees.header]
      exact h _ hslot
  · have hslot := hspares newest payload rfl
    have hother : 1 - newest.slot = target := by omega
    have hchosen : Chosen T v newest payload := h
    refine ⟨hchosen.toHolds.congr (hslot ▸ hagrees), hchosen.ready, ?_⟩
    have hcompanion := hchosen.companion
    rw [hother] at hcompanion ⊢
    rw [hheader]
    exact hcompanion

/-- A header that is not older than the shown one makes its own slot the shown one. -/
theorem shows_of_header {payload : List UInt8} (h : Shows T v shown)
    (hheld : Holds T m header payload) (hready : header.resetting = false)
    (hspares : Spares header.slot shown) (hagrees : SlotAgrees T v m (1 - header.slot))
    (hnewer : ∀ newest stored, shown = some (newest, stored) →
      newest.generation < header.generation ∧ Precedes newest.wal header.wal) :
    Shows T m (some (header, payload)) := by
  refine ⟨hheld, hready, ?_⟩
  rw [hagrees.header]
  rcases shown with _ | ⟨newest, stored⟩
  · exact Or.inl (h _ (Nat.sub_le _ _))
  · have hchosen : Chosen T v newest stored := h
    obtain ⟨hlt, hprecedes⟩ := hnewer newest stored rfl
    have hheader := hchosen.header
    rw [hspares newest stored rfl] at hheader
    exact Or.inr ⟨newest, hheader, hlt, hchosen.ready, hprecedes⟩

/-! ## The two barriers -/

/-- The writes of a payload to the slot `target`. -/
def payloadWrites (T : SnapshotSite) (target : ℕ) (payload : List UInt8) :
    List (ℕ × Sector T.size) :=
  BlockRange.enumerate (T.device.start + (T.slotBase target + 1)) (sectorsOf T.size payload)

variable {payload : List UInt8}

/-- The addresses of the payload sectors of a slot. -/
def InPayload (T : SnapshotSite) (slot address : ℕ) : Prop :=
  ∃ lba < T.slotSectors, lba ≠ 0 ∧ address = T.device.start + (T.slotBase slot + lba)

/-- Whatever survives of writes to the payload of a slot, the other slot and both headers
are as before. -/
theorem isImage_of_inPayload (htarget : target ≤ 1) {ws : List (ℕ × Sector T.size)}
    (hws : ∀ w ∈ ws, InPayload T target w.1) (hm : Store.IsImage ⟨v, ws⟩ m) :
    SlotAgrees T v m (1 - target)
      ∧ T.sector m (T.slotBase target) = T.sector v (T.slotBase target) := by
  have hkeeps : ∀ slot lba, slot ≤ 1 → lba < T.slotSectors → (slot = target → lba = 0) →
      T.sector m (T.slotBase slot + lba) = T.sector v (T.slotBase slot + lba) := by
    intro slot lba hslot hlba hne
    refine hm.eq_durable fun w hw heq => ?_
    obtain ⟨i, hi, hpos, haddress⟩ := hws w hw
    have hsame : T.slotBase target + i = T.slotBase slot + lba := by
      rw [haddress] at heq
      omega
    obtain ⟨hslot', hlba'⟩ := T.slotBase_add_inj htarget hslot hi hlba hsame
    omega
  have htwo := T.two_le_slotSectors
  exact ⟨fun lba hlba => hkeeps _ lba (Nat.sub_le _ _) hlba (by omega),
    hkeeps target 0 htarget (by omega) fun _ => rfl⟩

theorem isImage_payloadWrites (htarget : target ≤ 1)
    (hroom : divCeil payload.length T.size ≤ T.slotSectors - 1)
    (hm : Store.IsImage ⟨v, payloadWrites T target payload⟩ m) : SlotAgrees T v m (1 - target)
      ∧ T.sector m (T.slotBase target) = T.sector v (T.slotBase target) := by
  refine isImage_of_inPayload htarget (fun w hw => ?_) hm
  obtain ⟨i, hi, rfl⟩ := mem_enumerate.mp hw
  rw [length_sectorsOf] at hi
  exact ⟨1 + i, by omega, by omega, by omega⟩

/-- All payload writes together store the payload. -/
theorem slotPayload_of_payloadWrites (hslot : header.slot = target)
    (hsectors : header.payloadSectors = divCeil payload.length T.size)
    (hlen : header.payloadLen = payload.length)
    (hm : ∀ i < header.payloadSectors, T.sector m (T.slotBase target + 1 + i)
      = T.sector (overwrite v (payloadWrites T target payload)) (T.slotBase target + 1 + i)) :
    T.slotPayload m header = payload := by
  rw [SnapshotSite.slotPayload, SnapshotSite.slotBytes, hlen, hslot]
  have hbytes : ((List.range header.payloadSectors).flatMap fun i =>
      (T.sector m (T.slotBase target + 1 + i)).1)
        = (sectorsOf T.size payload).flatMap fun sector => sector.1 := by
    rw [sectorsOf, ← hsectors, flatMap_map]
    refine flatMap_congr fun i hi => ?_
    have hi := mem_range.mp hi
    have hlt : i < (sectorsOf T.size payload).length := by
      rw [length_sectorsOf, ← hsectors]
      exact hi
    rw [hm i hi, SnapshotSite.sector, ← Nat.add_assoc T.device.start, payloadWrites,
      overwrite_enumerate v _ hlt]
    simp [sectorsOf]
  rw [hbytes, take_flatMap_sectorsOf T.size_pos]

/-- The header sector of a slot is not among the other sectors. -/
theorem isImage_header (htarget : target ≤ 1) {header : Sector T.size}
    (hm : Store.IsImage ⟨v, [(T.device.start + T.slotBase target, header)]⟩ m) :
    SlotAgrees T v m (1 - target) ∧ (∀ i < T.slotSectors - 1, T.sector m (T.slotBase target + 1 + i)
        = T.sector v (T.slotBase target + 1 + i))
      ∧ (T.sector m (T.slotBase target) = T.sector v (T.slotBase target)
        ∨ T.sector m (T.slotBase target) = header) := by
  have hkeeps : ∀ slot lba, slot ≤ 1 → lba < T.slotSectors → (slot = target → lba ≠ 0) →
      T.sector m (T.slotBase slot + lba) = T.sector v (T.slotBase slot + lba) := by
    intro slot lba hslot hlba hne
    refine hm.eq_durable fun w hw heq => ?_
    rw [mem_singleton.mp hw] at heq
    have hsame : T.slotBase target + 0 = T.slotBase slot + lba := by
      omega
    obtain ⟨hslot', hlba'⟩ := T.slotBase_add_inj htarget hslot (by omega) hlba hsame
    exact hne hslot'.symm hlba'.symm
  refine ⟨fun lba hlba => hkeeps _ lba (Nat.sub_le _ _) hlba (by omega), fun i hi => ?_, ?_⟩
  · rw [Nat.add_assoc]
    exact hkeeps target (1 + i) htarget (by omega) (by omega)
  · refine (hm (T.device.start + T.slotBase target)).imp_right fun hmem => ?_
    exact congrArg Prod.snd (mem_singleton.mp hmem)

/-- A slot with the same header and the same payload sectors. -/
theorem slotAgrees_of_header {slot : ℕ}
    (hheader : T.sector m (T.slotBase slot) = T.sector v (T.slotBase slot))
    (hstored : ∀ i < T.slotSectors - 1, T.sector m (T.slotBase slot + 1 + i)
      = T.sector v (T.slotBase slot + 1 + i)) : SlotAgrees T v m slot := by
  intro lba hlba
  cases lba with
  | zero => exact hheader
  | succ lba =>
    have hsame := hstored lba (by omega)
    rwa [Nat.add_assoc, Nat.add_comm 1] at hsame

/-! ## The commit -/

/-- The addresses of a slot. -/
def InSlot (T : SnapshotSite) (slot address : ℕ) : Prop :=
  ∃ lba < T.slotSectors, address = T.device.start + (T.slotBase slot + lba)

variable {plan : CommitPlan} {wal : Option WalSnapshotManifest} {env : Env}

/-- The header of the commit of a plan and a payload. -/
abbrev newHeader (plan : CommitPlan) (payload : List UInt8) (wal : Option WalSnapshotManifest) :
    SlotHeader :=
  commitHeader plan payload.length (crc32c payload) wal

/-- A commit that is ready to write. -/
structure Publishable (T : SnapshotSite) (v : T.Contents)
    (shown : Option (SlotReadPlan × List UInt8)) (plan : CommitPlan) (payload : List UInt8)
    (wal : Option WalSnapshotManifest) : Prop where
  shows : Shows T v shown
  follows : plan.Follows T (shown.map Prod.fst) payload.length wal
  manifest : ∀ manifest, wal = some manifest →
    manifest.Fits ∧ manifest.valid = true ∧ walHeaderLen ≤ T.size
  sameFormat : ∀ newest stored, shown = some (newest, stored) → wal.isSome = true →
    newest.wal.isSome = true

namespace Publishable

variable (h : Publishable T v shown plan payload wal)

include h

theorem bounded : T.Bounded (newHeader plan payload wal) where
  slot_le := h.follows.slot_le
  payloadSectors_le := h.follows.payloadSectors_le
  payloadLen_le := by
    show payload.length ≤ plan.payloadSectors * T.size
    rw [h.follows.payloadSectors]
    exact le_divCeil_mul T.size_pos _

theorem encodable : (newHeader plan payload wal).Encodable T.size where
  fits_sector := by
    cases hwal : wal with
    | none => exact T.headerLen_le
    | some manifest => exact (h.manifest manifest hwal).2.2
  slot := lt_of_le_of_lt h.follows.slot_le (by omega)
  generation := h.follows.generation_lt
  payloadLen := by
    have hbytes := h.bounded.payloadLen_le
    have hle : plan.payloadSectors ≤ T.slotSectors := by
      have := h.follows.payloadSectors_le
      omega
    exact hbytes.trans_lt ((Nat.mul_le_mul_right _ hle).trans_lt T.slotSectors_mul_size_lt)
  payloadSectors := h.follows.payloadSectors_lt
  wal := fun manifest hwal => ⟨(h.manifest manifest hwal).1, (h.manifest manifest hwal).2.1⟩
  wal_of_resetting := nofun

theorem spares : Spares plan.slot shown := by
  rintro newest stored rfl
  have hslot := (h.follows.next newest rfl).1
  have hchosen : Chosen T v newest stored := h.shows
  have := hchosen.slot_le
  omega

theorem room : divCeil payload.length T.size ≤ T.slotSectors - 1 :=
  h.follows.payloadSectors ▸ h.follows.payloadSectors_le

/-- While the payload is written the shown snapshot stays the same. -/
theorem shows_payload (hm : Store.IsImage ⟨v, payloadWrites T plan.slot payload⟩ m) :
    Shows T m shown := by
  obtain ⟨hagrees, hheader⟩ := isImage_payloadWrites h.follows.slot_le h.room hm
  exact h.shows.congr h.follows.slot_le h.spares hagrees hheader

/-- The new header makes the new payload the shown one. -/
theorem shows_new (hagrees : SlotAgrees T v m (1 - plan.slot))
    (hstored : ∀ i < T.slotSectors - 1, T.sector m (T.slotBase plan.slot + 1 + i)
      = T.sector (overwrite v (payloadWrites T plan.slot payload)) (T.slotBase plan.slot + 1 + i))
    (hheader : T.sector m (T.slotBase plan.slot)
      = (newHeader plan payload wal).encodeHeader T.size) :
    Shows T m (some (newHeader plan payload wal, payload)) := by
  refine shows_of_header h.shows ⟨h.follows.slot_le, ?_, ?_, rfl⟩ rfl h.spares hagrees ?_
  · show T.slotPlan plan.slot (T.sector m (T.slotBase plan.slot)) = _
    rw [hheader]
    exact slotPlan_encodeHeader h.encodable h.bounded
  · exact slotPayload_of_payloadWrites rfl h.follows.payloadSectors rfl fun i hi =>
      hstored i (hi.trans_le h.follows.payloadSectors_le)
  · rintro newest stored rfl
    have hgeneration := (h.follows.next newest rfl).2
    refine ⟨?_, h.follows.wal newest rfl (h.sameFormat newest stored rfl)⟩
    show newest.generation < plan.generation
    omega

/-- While the header is written the old or the new snapshot is shown. -/
theorem shows_header (hm : Store.IsImage ⟨overwrite v (payloadWrites T plan.slot payload),
      [(T.device.start + T.slotBase plan.slot, (newHeader plan payload wal).encodeHeader T.size)]⟩
      m) :
    SlotAgrees T v m (1 - plan.slot)
      ∧ (Shows T m shown ∨ Shows T m (some (newHeader plan payload wal, payload))) := by
  have hwritten := isImage_payloadWrites h.follows.slot_le h.room
    (Store.mk v (payloadWrites T plan.slot payload)).isImage_visible
  obtain ⟨hagrees, hstored, hheader⟩ := isImage_header h.follows.slot_le hm
  have hboth : SlotAgrees T v m (1 - plan.slot) := fun lba hlba =>
    (hagrees lba hlba).trans (hwritten.1 lba hlba)
  refine ⟨hboth, hheader.imp (fun hold => ?_) fun hnew => h.shows_new hboth hstored hnew⟩
  exact h.shows.congr h.follows.slot_le h.spares hboth (hold.trans hwritten.2)

end Publishable

/-- The writes of a commit stay inside its slot. -/
theorem confined_publishCommit (hfollows : plan.Follows T (shown.map Prod.fst) payload.length wal) :
    Confined (InSlot T plan.slot)
      (publishCommit T.device plan payload.length (crc32c payload) wal payload :
        DiskM (Sector T.size) SnapshotBlockStoreError ℕ) := by
  have htwo := T.two_le_slotSectors
  have hroom : divCeil payload.length T.size ≤ T.slotSectors - 1 :=
    hfollows.payloadSectors ▸ hfollows.payloadSectors_le
  have hbase : T.slotBase plan.slot + (1 + divCeil payload.length T.size) ≤ T.device.sectors :=
    T.slotBase_add_le hfollows.slot_le (by omega)
  rw [publishCommit, if_neg (Nat.lt_irrefl _), hfollows.slotBase,
    writeBatches_eq_writeEach T.addressable T.size_pos _ _ _ (by omega), if_neg (by simp)]
  refine (confined_writeEach _ fun w hw => ?_).bind fun _ => (confined_flush _).bind fun _ =>
    (confined_writeSector (fun _ => ⟨0, by omega, rfl⟩) _).bind fun _ =>
      (confined_flush _).bind fun _ => confined_pure _
  obtain ⟨i, hi, rfl⟩ := mem_enumerate.mp hw
  rw [length_sectorsOf] at hi
  exact ⟨1 + i, by omega, by omega⟩

/-- A commit leaves the old snapshot or the new one, in every image; one that returns
leaves the new one. -/
theorem runs_publishCommit (h : Publishable T v shown plan payload wal) :
    Runs env ⟨v, []⟩ (publishCommit T.device plan payload.length (crc32c payload) wal payload)
      (fun generation d => generation = plan.generation ∧ ∃ m, d = ⟨m, []⟩
        ∧ Shows T m (some (newHeader plan payload wal, payload)))
      (fun _ d => env.faults = true ∧ ∀ m, d.IsImage m →
        Shows T m shown ∨ Shows T m (some (newHeader plan payload wal, payload)))
      (fun d => ∀ m, d.IsImage m →
        Shows T m shown ∨ Shows T m (some (newHeader plan payload wal, payload))) := by
  have hbase : T.slotBase plan.slot + (1 + divCeil payload.length T.size) ≤ T.device.sectors :=
    T.slotBase_add_le h.follows.slot_le (by
      have hroom := h.room
      have htwo := T.two_le_slotSectors
      omega)
  -- any image of the payload barrier
  have hpayload : ∀ d, Store.Within ⟨v, payloadWrites T plan.slot payload⟩ d →
      ∀ m, d.IsImage m → Shows T m shown ∨ Shows T m (some (newHeader plan payload wal, payload)) :=
    fun d hd m hm => Or.inl (h.shows_payload (hd m hm))
  rw [publishCommit, if_neg (Nat.lt_irrefl _), h.follows.slotBase,
    writeBatches_eq_writeEach T.addressable T.size_pos _ _ _ (by omega)]
  refine Runs.bind ((runs_writeEach _ _).weaken (fun _ _ h => h)
    (fun _ d hd => ⟨hd.1, hpayload d hd.2.2⟩) ?_) ?_
  · rintro d ⟨-, vs, hvs, rfl⟩
    exact hpayload _ ((Store.mk v []).within_writeAll_of_isPrefix hvs)
  rintro _ _ rfl
  rw [if_neg (by simp)]
  refine Runs.bind
    ((runs_flush _).weaken (fun _ _ h => h) (fun _ d hd => ⟨hd.1, hpayload d hd.2.2⟩) ?_) ?_
  · rintro d ⟨-, rfl⟩
    exact hpayload _ (Store.Within.refl _)
  rintro _ _ rfl
  rw [← bind_assoc]
  refine Runs.bind ((runs_writeSector_flush T.addressable (by omega) _).weaken
    (fun _ _ h => h) (fun _ d hd => ⟨hd.1, fun m hm => (h.shows_header (hd.2 m hm)).2⟩)
    fun d hd m hm => (h.shows_header (hd.2 m hm)).2) ?_
  rintro _ _ rfl
  refine runs_pure ⟨rfl, _, rfl, ?_⟩
  -- everything written is an image in which the header is the new one
  have himage := (Store.mk (overwrite v (payloadWrites T plan.slot payload))
    [(T.device.start + T.slotBase plan.slot,
      (newHeader plan payload wal).encodeHeader T.size)]).isImage_visible
  have hagrees := (h.shows_header himage).1
  exact h.shows_new hagrees (isImage_header h.follows.slot_le himage).2.1
    (Function.update_self _ _ _)

end UserspaceNtos.Fs
