import UserspaceNtos.Lib.CrashMonad
import Mathlib.Algebra.Group.Nat.Defs

/-!
# Sector devices

The `SnapshotBlockDevice` trait of `snapshot_store.rs` and the bounded views of
`snapshot_region.rs`.  A device is a `CachedStorage.Store` of sectors.  Code that
only reads is a function of a `ReadSector`; code that writes is a
`CachedStorage.DiskM` program.  Both address the device through a `BlockRange`, the
checked subrange that `BoundedBlockRange` and `OwnedBoundedBlockRange` provide;
the whole device is the range that starts at sector zero.

The buffers of the source are lists, so an allocation never fails here.  Machine
integers are natural numbers with the source's `checked_add` and `checked_mul`
(`checkedAdd`, `checkedMul`); `usize` has 64 bits.
-/

namespace UserspaceNtos.Fs

open CachedStorage List

/-- `SnapshotBlockStoreError` -/
inductive SnapshotBlockStoreError where
  | invalidGeometry
  | outOfSpace
  | io
  | corrupt
  | outOfMemory
  deriving DecidableEq, Repr

/-- `checked_add` on `u64` and `usize`. -/
def checkedAdd (a b : ℕ) : Option ℕ := if a + b < 2 ^ 64 then some (a + b) else none

/-- `checked_mul` on `u64` and `usize`. -/
def checkedMul (a b : ℕ) : Option ℕ := if a * b < 2 ^ 64 then some (a * b) else none

variable {a b size : ℕ} {α : Type} {env : Env} {P : ℕ → Prop}

theorem checkedAdd_of_lt (h : a + b < 2 ^ 64) : checkedAdd a b = some (a + b) := by
  rw [checkedAdd, if_pos h]

theorem checkedMul_of_lt (h : a * b < 2 ^ 64) : checkedMul a b = some (a * b) := by
  rw [checkedMul, if_pos h]

theorem checkedAdd_eq_some {c : ℕ} (h : checkedAdd a b = some c) : c = a + b ∧ a + b < 2 ^ 64 := by
  unfold checkedAdd at h
  split at h
  · rename_i hlt
    exact ⟨(Option.some.inj h).symm, hlt⟩
  · cases h

/-! ## Sectors -/

/-- The contents of one sector of `size` bytes. -/
def Sector (size : ℕ) : Type := { bytes : List UInt8 // bytes.length = size }

instance (size : ℕ) : DecidableEq (Sector size) :=
  inferInstanceAs (DecidableEq { bytes : List UInt8 // bytes.length = size })

namespace Sector

variable {size : ℕ}

/-- A zero-filled buffer with `bytes` copied to its front. -/
def pad (size : ℕ) (bytes : List UInt8) : Sector size :=
  ⟨bytes.take size ++ List.replicate (size - bytes.length) 0, by simp; omega⟩

/-- The sector of zeros. -/
def zero (size : ℕ) : Sector size := ⟨List.replicate size 0, length_replicate⟩

/-- `sector_is_zero` -/
def isZero (sector : Sector size) : Bool := sector.1.all fun byte => byte = 0

theorem pad_val_of_le {bytes : List UInt8} (h : bytes.length ≤ size) :
    (pad size bytes).1 = bytes ++ List.replicate (size - bytes.length) 0 := by
  show bytes.take size ++ _ = _
  rw [take_of_length_le h]

@[simp] theorem isZero_iff {sector : Sector size} : sector.isZero = true ↔ sector = zero size := by
  rw [isZero, all_eq_true]
  constructor
  · intro h
    apply Subtype.ext
    rw [zero, eq_replicate_iff]
    exact ⟨sector.2, fun b hb => by simpa using h b hb⟩
  · rintro rfl b hb
    simpa using eq_of_mem_replicate hb

/-- A padded buffer with a nonzero byte in front is not the zero sector. -/
theorem pad_ne_zero {bytes : List UInt8} (h : bytes.length ≤ size) (hne : ∃ b ∈ bytes, b ≠ 0) :
    pad size bytes ≠ zero size := by
  intro heq
  obtain ⟨b, hb, hb0⟩ := hne
  have hval : (pad size bytes).1 = List.replicate size 0 := by rw [heq, zero]
  rw [pad_val_of_le h] at hval
  exact hb0 (eq_of_mem_replicate (hval ▸ mem_append_left _ hb))

end Sector

/-! ## Views of a device -/

/-- A checked subrange of a device: `sectors` sectors from `start`. -/
structure BlockRange where
  start : ℕ
  sectors : ℕ
  deriving DecidableEq, Repr

/-- `read_sector` of a whole device: the contents of a sector, or an error. -/
abbrev ReadSector (size : ℕ) : Type := ℕ → Except SnapshotBlockStoreError (Sector size)

namespace BlockRange

variable {size lba : ℕ} {range : BlockRange} {data : List (Sector size)}

/-- `absolute`: the device address of `count` sectors of the range from `lba`. -/
def absolute (range : BlockRange) (lba count : ℕ) : Except SnapshotBlockStoreError ℕ :=
  if count = 0 then .error .invalidGeometry
  else
    match checkedAdd lba count with
    | none => .error .invalidGeometry
    | some stop =>
      if range.sectors < stop then .error .invalidGeometry
      else
        match checkedAdd range.start lba with
        | none => .error .invalidGeometry
        | some address => .ok address

/-- `read_sector` of the view. -/
def readSector (range : BlockRange) (read : ReadSector size) (lba : ℕ) :
    Except SnapshotBlockStoreError (Sector size) := do
  let address ← range.absolute lba 1
  read address

/-- `read_sectors` of the view: `count` sectors from `lba`. -/
def readSectors (range : BlockRange) (read : ReadSector size) (lba count : ℕ) :
    Except SnapshotBlockStoreError (List (Sector size)) := do
  let address ← range.absolute lba count
  (List.range count).mapM fun index => read (address + index)

/-- `write_sector` of the view. -/
def writeSector (range : BlockRange) (lba : ℕ) (data : Sector size) :
    DiskM (Sector size) SnapshotBlockStoreError Unit := do
  let address ← DiskM.lift (range.absolute lba 1)
  DiskM.write .io address data

/-- A loop of `write_sector` calls, up to the first that fails. -/
def writeLoop (range : BlockRange) :
    List (ℕ × Sector size) → DiskM (Sector size) SnapshotBlockStoreError Unit
  | [] => pure ()
  | w :: ws => do
      range.writeSector w.1 w.2
      range.writeLoop ws

/-- Consecutive sectors as single writes from `lba`. -/
def enumerate (lba : ℕ) (data : List (Sector size)) : List (ℕ × Sector size) :=
  data.mapIdx fun index sector => (lba + index, sector)

/-- `write_sectors` of the view: the range is checked as a whole, then written sector by
sector. -/
def writeSectors (range : BlockRange) (lba : ℕ) (data : List (Sector size)) :
    DiskM (Sector size) SnapshotBlockStoreError Unit := do
  let address ← DiskM.lift (range.absolute lba data.length)
  DiskM.writeEach .io (enumerate address data)

/-- The device addresses of writes to the view. -/
def addressed (range : BlockRange) (ws : List (ℕ × Sector size)) : List (ℕ × Sector size) :=
  ws.map fun w => (range.start + w.1, w.2)

/-- The view lies on a device with 64-bit sector numbers. -/
def Addressable (range : BlockRange) : Prop := range.start + range.sectors < 2 ^ 64

theorem absolute_of_lt (h : range.Addressable) {count : ℕ} (hcount : count ≠ 0)
    (hlt : lba + count ≤ range.sectors) : range.absolute lba count = .ok (range.start + lba) := by
  unfold Addressable at h
  rw [absolute, if_neg hcount, checkedAdd_of_lt (by omega)]
  simp only
  rw [if_neg (by omega), checkedAdd_of_lt (by omega)]

theorem absolute_eq_ok {count address : ℕ} (h : range.absolute lba count = .ok address) :
    address = range.start + lba ∧ lba + count ≤ range.sectors := by
  unfold absolute at h
  split_ifs at h
  rcases hstop : checkedAdd lba count with _ | stop
  · rw [hstop] at h
    cases h
  · rw [hstop] at h
    simp only at h
    split_ifs at h with hroom
    rcases haddress : checkedAdd range.start lba with _ | found
    · rw [haddress] at h
      cases h
    · rw [haddress] at h
      cases h
      exact ⟨(checkedAdd_eq_some haddress).1, by have := (checkedAdd_eq_some hstop).1; omega⟩

/-- Inside the view a read is a read of the device. -/
theorem readSector_of_lt (h : range.Addressable) (read : ReadSector size)
    (hlt : lba < range.sectors) : range.readSector read lba = read (range.start + lba) := by
  rw [readSector, absolute_of_lt h Nat.one_ne_zero hlt]
  rfl

/-- Inside the view a write is a write of the device. -/
theorem writeSector_eq_writeEach (h : range.Addressable) (hlt : lba < range.sectors)
    (data : Sector size) :
    range.writeSector lba data = DiskM.writeEach .io [(range.start + lba, data)] := by
  rw [writeSector, absolute_of_lt h Nat.one_ne_zero hlt]
  exact (bind_pure (DiskM.write SnapshotBlockStoreError.io (range.start + lba) data)).symm

/-- Inside the view the write loop is a sequence of device writes. -/
theorem writeLoop_eq_writeEach (h : range.Addressable) {ws : List (ℕ × Sector size)}
    (hlt : ∀ w ∈ ws, w.1 < range.sectors) :
    range.writeLoop ws = DiskM.writeEach .io (range.addressed ws) := by
  induction ws with
  | nil => rfl
  | cons w ws ih =>
    rw [writeLoop, ih fun v hv => hlt v (mem_cons_of_mem _ hv),
      writeSector_eq_writeEach h (hlt w mem_cons_self)]
    exact (DiskM.writeEach_append _ [(range.start + w.1, w.2)] _).symm

theorem enumerate_append (lba : ℕ) (xs ys : List (Sector size)) :
    enumerate lba (xs ++ ys) = enumerate lba xs ++ enumerate (lba + xs.length) ys := by
  rw [enumerate, mapIdx_append]
  congr 2
  funext index sector
  rw [Nat.add_assoc, Nat.add_comm index]

theorem mem_enumerate {w : ℕ × Sector size} :
    w ∈ enumerate lba data ↔ ∃ i, ∃ h : i < data.length, w = (lba + i, data[i]) := by
  simp only [enumerate, mem_mapIdx, eq_comm]

/-- Consecutive writes leave each sector with its data. -/
theorem overwrite_enumerate (m : ℕ → Sector size) (lba : ℕ) {i : ℕ}
    (hi : i < data.length) : overwrite m (enumerate lba data) (lba + i) = data[i] := by
  refine overwrite_of_forall_eq ⟨_, mem_enumerate.mpr ⟨i, hi, rfl⟩, rfl⟩ ?_
  intro w hw hwi
  obtain ⟨j, hj, rfl⟩ := mem_enumerate.mp hw
  obtain rfl : j = i := Nat.add_left_cancel hwi
  rfl

/-- Inside the view a write of consecutive sectors is a sequence of device writes. -/
theorem writeSectors_eq_writeEach (h : range.Addressable) (hdata : data ≠ [])
    (hlt : lba + data.length ≤ range.sectors) :
    range.writeSectors lba data = DiskM.writeEach .io (enumerate (range.start + lba) data) := by
  have hlen : data.length ≠ 0 := fun h => hdata (length_eq_zero_iff.mp h)
  rw [writeSectors, absolute_of_lt h hlen hlt]
  rfl

end BlockRange

/-- The reads of a device whose contents are `m`. -/
def readAll {size : ℕ} (m : ℕ → Sector size) : ReadSector size := fun lba => .ok (m lba)

/-- Inside the view a batch of reads returns the sectors. -/
theorem BlockRange.readSectors_readAll {range : BlockRange} (h : range.Addressable)
    {m : ℕ → Sector size} {lba count : ℕ} (hcount : count ≠ 0) (hle : lba + count ≤ range.sectors) :
    range.readSectors (readAll m) lba count =
      .ok ((List.range count).map fun i => m (range.start + (lba + i))) := by
  rw [readSectors, absolute_of_lt h hcount hle]
  show (List.range count).mapM _ = _
  induction List.range count with
  | nil => rfl
  | cons i is ih =>
    rw [mapM_cons, ih, Nat.add_assoc]
    rfl

/-- A function that only reads, called by a program. -/
def query {size : ℕ} {α : Type} (f : ReadSector size → Except SnapshotBlockStoreError α) :
    DiskM (Sector size) SnapshotBlockStoreError α := do
  let view ← DiskM.peek
  DiskM.lift (f fun lba =>
    match view lba with
    | none => .error .io
    | some sector => .ok sector)

/-! ## Reads that can fail -/

/-- The reads of a device with the contents `m`, some of which fail. -/
def FaultyRead {size : ℕ} (m : ℕ → Sector size) (read : ReadSector size) : Prop :=
  ∀ lba, read lba = .ok (m lba) ∨ read lba = .error .io

/-- `x` is `y`, or the error of a failed read. -/
def IoOr {α : Type} (x y : Except SnapshotBlockStoreError α) : Prop := x = y ∨ x = .error .io

theorem IoOr.refl (x : Except SnapshotBlockStoreError α) : IoOr x x := Or.inl rfl

theorem IoOr.bind {β : Type} {x y : Except SnapshotBlockStoreError α}
    {f g : α → Except SnapshotBlockStoreError β} (h : IoOr x y) (hf : ∀ a, IoOr (f a) (g a)) :
    IoOr (x >>= f) (y >>= g) := by
  rcases h with rfl | rfl
  · cases x with
    | error e => exact IoOr.refl _
    | ok a => exact hf a
  · exact Or.inr rfl

theorem IoOr.eq_of_ok {x y : Except SnapshotBlockStoreError α} (h : IoOr x y) {a : α}
    (ha : x = .ok a) : y = .ok a := by
  rcases h with rfl | hio
  · exact ha
  · rw [hio] at ha
    cases ha

theorem BlockRange.readSector_ioOr (range : BlockRange) {m : ℕ → Sector size}
    {read : ReadSector size} (h : FaultyRead m read) (lba : ℕ) :
    IoOr (range.readSector read lba) (range.readSector (readAll m) lba) :=
  (IoOr.refl _).bind fun address => h address

theorem BlockRange.readSectors_ioOr (range : BlockRange) {m : ℕ → Sector size}
    {read : ReadSector size} (h : FaultyRead m read) (lba count : ℕ) :
    IoOr (range.readSectors read lba count) (range.readSectors (readAll m) lba count) := by
  refine (IoOr.refl _).bind fun address => ?_
  induction List.range count with
  | nil => exact IoOr.refl _
  | cons index rest ih =>
    rw [mapM_cons, mapM_cons]
    exact IoOr.bind (h _) fun _ => ih.bind fun _ => IoOr.refl _

variable {d : Store (Sector size)}

/-- A query returns what the contents say, or a read error on a device that has
faults; it changes nothing. -/
theorem runs_query
    {f : ReadSector size → Except SnapshotBlockStoreError α} {C : Store (Sector size) → Prop}
    (hf : ∀ read, FaultyRead d.visible read → IoOr (f read) (f (readAll d.visible))) :
    Runs env d (query f) (fun a d' => d' = d ∧ f (readAll d.visible) = .ok a)
      (fun e d' => d' = d ∧ (env.faults = true ∨ f (readAll d.visible) = .error e)) C := by
  refine Runs.bind (runs_peek fun view hview => ?_) fun view d' h => h
  have hfaulty : FaultyRead d.visible fun lba =>
      match view lba with
      | none => .error .io
      | some sector => .ok sector := by
    intro lba
    rcases hview lba with hok | ⟨-, hnone⟩
    · simp only [hok]
      exact Or.inl trivial
    · simp only [hnone]
      exact Or.inr trivial
  have hquiet : env.faults = false → (fun lba =>
      match view lba with
      | none => .error .io
      | some sector => .ok sector) = readAll d.visible := by
    intro hfaults
    funext lba
    rcases hview lba with hok | ⟨hfault, -⟩
    · simp only [hok, readAll]
    · rw [hfaults] at hfault
      cases hfault
  refine runs_lift (fun a ha => ⟨rfl, (hf _ hfaulty).eq_of_ok ha⟩) fun e he => ⟨rfl, ?_⟩
  cases hfaults : env.faults with
  | true => exact Or.inl rfl
  | false =>
    rw [hquiet hfaults] at he
    exact Or.inr he

/-- A query and the rest of the program. -/
theorem runs_query_bind {β : Type}
    {f : ReadSector size → Except SnapshotBlockStoreError α}
    {g : α → DiskM (Sector size) SnapshotBlockStoreError β} {Q : β → Store (Sector size) → Prop}
    {E : SnapshotBlockStoreError → Store (Sector size) → Prop} {C : Store (Sector size) → Prop}
    (hf : ∀ read, FaultyRead d.visible read → IoOr (f read) (f (readAll d.visible)))
    (hok : ∀ a, f (readAll d.visible) = .ok a → Runs env d (g a) Q E C)
    (herr : ∀ e, env.faults = true ∨ f (readAll d.visible) = .error e → E e d) :
    Runs env d (query f >>= g) Q E C := by
  have hquery : Runs env d (query f) (fun a d' => d' = d ∧ f (readAll d.visible) = .ok a) E C := by
    refine (runs_query hf).weaken (fun _ _ h => h) ?_ fun _ h => h
    rintro e d' ⟨rfl, h⟩
    exact herr e h
  refine hquery.bind ?_
  rintro a d' ⟨rfl, ha⟩
  exact hok a ha

/-! ## Programs on a view -/

variable {range : BlockRange}

/-- A write to a view writes inside it. -/
theorem BlockRange.confined_writeSector {lba : ℕ} (h : lba < range.sectors → P (range.start + lba))
    (data : Sector size) : Confined P (range.writeSector lba data) := by
  refine confined_lift_bind fun address haddress => ?_
  obtain ⟨rfl, hlt⟩ := absolute_eq_ok haddress
  exact confined_write _ (h hlt) data

theorem BlockRange.confined_writeLoop (h : ∀ lba < range.sectors, P (range.start + lba))
    (ws : List (ℕ × Sector size)) : Confined P (range.writeLoop ws) := by
  induction ws with
  | nil => exact confined_pure ()
  | cons w ws ih => exact (confined_writeSector (h w.1) w.2).bind fun _ => ih

/-- A sector made durable by one flush. -/
theorem BlockRange.runs_writeSector_flush (h : range.Addressable)
    {lba : ℕ} (hlt : lba < range.sectors) (data : Sector size) :
    Runs env d (range.writeSector lba data >>= fun _ => DiskM.flush .io)
      (fun _ d' => d' = ⟨overwrite d.visible [(range.start + lba, data)], []⟩)
      (fun _ d' => env.faults = true ∧ (d.writeAll [(range.start + lba, data)]).Within d')
      (fun d' => env.stops = true ∧ (d.writeAll [(range.start + lba, data)]).Within d') := by
  rw [writeSector_eq_writeEach h hlt]
  refine (runs_barrier _ _).weaken (fun _ _ h => h) (fun _ _ h => ⟨h.1, h.2.2⟩) ?_
  rintro d' ⟨hstops, vs, hvs, rfl⟩
  exact ⟨hstops, d.within_writeAll_of_isPrefix hvs⟩

end UserspaceNtos.Fs
