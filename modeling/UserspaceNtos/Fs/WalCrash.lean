import UserspaceNtos.Fs.WalRecover

/-!
# Images of the barriers of the log

Every effect of the log owner is a barrier, a batch of writes and one flush.  There
are four of them: the PREPARE header with its payload, the COMMIT marker, and the
two barriers that clear a frame.  `Barrier` lists them with the contents they start
from, and `Barrier.image` says what any part of such a batch can leave behind: the
records that were there, the records with the one whose marker was being
written, or the torn tail that a part of the first barrier can leave.
-/

namespace UserspaceNtos.Fs

open CachedStorage RegistryWal List

variable {S : WalSite} {m m' : S.Contents} {ps : List (List UInt8)} {q : List UInt8}
  {data : Sector S.size} {lba : ℕ} {ws : List (ℕ × Sector S.size)}

/-- `m'` holds at every sector of the range what `m` holds there or what one of the
writes puts there. -/
def PartlyWritten (S : WalSite) (m : S.Contents) (ws : List (ℕ × Sector S.size))
    (m' : S.Contents) : Prop :=
  ∀ lba, S.sector m' lba = S.sector m lba ∨ (lba, S.sector m' lba) ∈ ws

theorem mem_addressed :
    (S.device.start + lba, data) ∈ S.device.addressed ws ↔ (lba, data) ∈ ws := by
  constructor
  · intro h
    obtain ⟨w, hw, heq⟩ := mem_map.mp h
    obtain ⟨hlba, hdata⟩ := Prod.mk.injEq .. ▸ heq
    rwa [← hdata, ← Nat.add_left_cancel hlba]
  · intro h
    exact mem_map.mpr ⟨_, h, rfl⟩

theorem partlyWritten_of_isImage
    (h : (Store.mk m (S.device.addressed ws)).IsImage m') : PartlyWritten S m ws m' :=
  fun lba => (h (S.device.start + lba)).imp id mem_addressed.mp

/-- A sector that no write touches. -/
theorem PartlyWritten.eq_of_forall_ne (h : PartlyWritten S m ws m') (hne : ∀ w ∈ ws, w.1 ≠ lba) :
    S.sector m' lba = S.sector m lba :=
  (h lba).resolve_right fun hmem => hne _ hmem rfl

theorem sector_overwrite_of_mem (hmem : (lba, data) ∈ ws) (heq : ∀ w ∈ ws, w.1 = lba → w.2 = data) :
    S.sector (overwrite m (S.device.addressed ws)) lba = data := by
  refine overwrite_of_forall_eq ⟨_, mem_addressed.mpr hmem, rfl⟩ fun w hw hlba => ?_
  obtain ⟨v, hv, rfl⟩ := mem_map.mp hw
  exact heq v hv (Nat.add_left_cancel hlba)

/-! ## The batches -/

/-- The reservation of `q` behind the records `ps`. -/
def reservation (S : WalSite) (ps : List (List UInt8)) (q : List UInt8) : Pending :=
  ⟨ps.length + 1, S.chunks q, q⟩

/-- The batch of `prepare`. -/
def prepareBatch (S : WalSite) (ps : List (List UInt8)) (q : List UInt8) :
    List (ℕ × Sector S.size) :=
  (S.framesEnd 0 ps, S.prepareSector (ps.length + 1) q)
    :: (List.range (S.chunks q)).map fun i =>
        (S.framesEnd 0 ps + 1 + i, payloadSector S.size q i)

/-- The batch of `commit`. -/
def commitBatch (S : WalSite) (ps : List (List UInt8)) (q : List UInt8) :
    List (ℕ × Sector S.size) :=
  [(S.framesEnd 0 ps + 1 + S.chunks q, S.commitSector (ps.length + 1) q)]

/-- The first batch of `clear_frame`. -/
def clearBatch (S : WalSite) (ps : List (List UInt8)) (sectors : ℕ) : List (ℕ × Sector S.size) :=
  (List.range (sectors + 1)).map fun i => (S.framesEnd 0 ps + 1 + i, Sector.zero S.size)

/-- The second batch of `clear_frame`. -/
def clearHeaderBatch (S : WalSite) (ps : List (List UInt8)) : List (ℕ × Sector S.size) :=
  [(S.framesEnd 0 ps, Sector.zero S.size)]

/-- An unmarked frame with its payload in place. -/
structure Prepared (S : WalSite) (m : S.Contents) (ps : List (List UInt8)) (q : List UInt8) : Prop
    extends Unmarked S m ps q where
  chunk : ∀ i < S.chunks q, S.sector m (S.framesEnd 0 ps + 1 + i) = payloadSector S.size q i

theorem mem_prepareBatch : (lba, data) ∈ prepareBatch S ps q
      ↔ lba = S.framesEnd 0 ps ∧ data = S.prepareSector (ps.length + 1) q
        ∨ ∃ i < S.chunks q, lba = S.framesEnd 0 ps + 1 + i ∧ data = payloadSector S.size q i := by
  simp only [prepareBatch, mem_cons, Prod.mk.injEq, mem_map, mem_range]
  constructor
  · rintro (h | ⟨i, hi, rfl, rfl⟩)
    · exact Or.inl h
    · exact Or.inr ⟨i, hi, rfl, rfl⟩
  · rintro (h | ⟨i, hi, rfl, rfl⟩)
    · exact Or.inl h
    · exact Or.inr ⟨i, hi, rfl, rfl⟩

theorem mem_clearBatch {sectors : ℕ} : (lba, data) ∈ clearBatch S ps sectors
      ↔ S.framesEnd 0 ps < lba ∧ lba ≤ S.framesEnd 0 ps + 1 + sectors
        ∧ data = Sector.zero S.size := by
  simp only [clearBatch, mem_map, mem_range, Prod.mk.injEq]
  constructor
  · rintro ⟨i, hi, rfl, rfl⟩
    exact ⟨by omega, by omega, rfl⟩
  · rintro ⟨hlt, hle, rfl⟩
    exact ⟨lba - (S.framesEnd 0 ps + 1), by omega, by omega, rfl⟩

/-! ## What a part of a batch leaves -/

/-- The batches leave the committed prefix alone. -/
private theorem CommittedPrefix.of_partlyWritten (h : CommittedPrefix S m ps)
    (hw : PartlyWritten S m ws m')
    (hge : ∀ w ∈ ws, S.framesEnd 0 ps ≤ w.1) : CommittedPrefix S m' ps :=
  h.congr fun i hi => hw.eq_of_forall_ne fun w hmem => by
    have := hge w hmem
    omega

private theorem prepareBatch_ge {w : ℕ × Sector S.size} (hw : w ∈ prepareBatch S ps q) :
    S.framesEnd 0 ps ≤ w.1 := by
  rcases mem_prepareBatch.mp hw with ⟨h, -⟩ | ⟨i, -, h, -⟩ <;> omega

section

variable (h : Settled S m ps) (hq : Admitted S ps q)
  (hw : PartlyWritten S m (prepareBatch S ps q) m')
include h hq hw

/-- A part of the PREPARE batch with its header is an unmarked frame. -/
theorem unmarked_of_prepareBatch
    (hheader : S.sector m' (S.framesEnd 0 ps) = S.prepareSector (ps.length + 1) q) :
    Unmarked S m' ps q := by
  refine ⟨h.toCommittedPrefix.of_partlyWritten hw fun w => prepareBatch_ge, hq, hheader, ?_⟩
  intro i hi hlt
  rw [hw.eq_of_forall_ne, h.blank i (by omega) hlt]
  intro w hmem
  rcases mem_prepareBatch.mp hmem with ⟨heq, -⟩ | ⟨j, hj, heq, -⟩ <;> omega

/-- A part of the PREPARE batch without its header is settled or torn. -/
theorem settled_or_torn_of_prepareBatch
    (hheader : S.sector m' (S.framesEnd 0 ps) = Sector.zero S.size) :
    Settled S m' ps ∨ Torn S m' ps := by
  have hfront := h.toCommittedPrefix.of_partlyWritten hw fun w => prepareBatch_ge
  by_cases hzero : ZeroFrom S m' (S.framesEnd 0 ps + 1)
  · refine Or.inl ⟨hfront, fun i hi hlt => ?_⟩
    rcases Nat.eq_or_lt_of_le hi with rfl | hi
    · exact hheader
    · exact hzero i hi hlt
  · exact Or.inr ⟨hfront, by have := hq.room; omega, hheader, hzero⟩

/-- The header sector of an unfinished PREPARE batch is there or still blank. -/
theorem header_of_prepareBatch : S.sector m' (S.framesEnd 0 ps) = Sector.zero S.size
      ∨ S.sector m' (S.framesEnd 0 ps) = S.prepareSector (ps.length + 1) q := by
  rcases hw (S.framesEnd 0 ps) with hold | hmem
  · exact Or.inl (hold.trans (h.blank _ le_rfl (by have := hq.room; omega)))
  · rcases mem_prepareBatch.mp hmem with ⟨-, hdata⟩ | ⟨i, -, heq, -⟩
    · exact Or.inr hdata
    · omega

end

/-- The whole PREPARE batch. -/
theorem prepared_of_prepareBatch (h : Settled S m ps) (hq : Admitted S ps q) :
    Prepared S (overwrite m (S.device.addressed (prepareBatch S ps q))) ps q := by
  refine ⟨unmarked_of_prepareBatch h hq ?_ ?_, fun i hi => ?_⟩
  · exact partlyWritten_of_isImage (Store.mk m _).isImage_visible
  · refine sector_overwrite_of_mem mem_cons_self fun w hw hlba => ?_
    rcases mem_prepareBatch.mp hw with ⟨-, hdata⟩ | ⟨i, -, heq, -⟩
    · exact hdata
    · omega
  · refine sector_overwrite_of_mem (mem_prepareBatch.mpr (Or.inr ⟨i, hi, rfl, rfl⟩)) ?_
    intro w hw hlba
    rcases mem_prepareBatch.mp hw with ⟨heq, -⟩ | ⟨j, -, heq, hdata⟩
    · omega
    · rw [hdata, show j = i by omega]

/-- The COMMIT marker turns a prepared frame into a record. -/
theorem settled_of_commit (h : Prepared S m ps q) (hw : PartlyWritten S m (commitBatch S ps q) m')
    (hmarker : S.sector m' (S.framesEnd 0 ps + 1 + S.chunks q)
      = S.commitSector (ps.length + 1) q) : Settled S m' (ps ++ [q]) := by
  have hold : ∀ i, i ≠ S.framesEnd 0 ps + 1 + S.chunks q → S.sector m' i = S.sector m i :=
    fun i hi => hw.eq_of_forall_ne fun w hmem => by
      rw [mem_singleton.mp hmem]
      exact hi.symm
  refine ⟨⟨framesAt_append.mpr ⟨?_, ⟨?_, fun i hi => ?_, ?_⟩⟩, ?_, ?_⟩, ?_⟩
  · exact h.frames.congr fun i hi => hold i (by omega)
  · rw [hold _ (by omega), h.header, Nat.add_comm]
  · rw [hold _ (by omega), h.chunk i hi]
  · rw [hmarker, Nat.add_comm]
  · rw [framesEnd_append]
    exact h.admitted.room
  · exact forall_mem_append.mpr ⟨h.valid, forall_mem_singleton.mpr h.admitted.valid⟩
  · intro i hi hlt
    rw [framesEnd_append] at hi
    rw [hold i (by omega)]
    exact h.blank i (by omega) hlt

/-- Without the marker the frame stays unmarked. -/
theorem unmarked_or_settled_of_commit (h : Prepared S m ps q)
    (hw : PartlyWritten S m (commitBatch S ps q) m') :
    Unmarked S m' ps q ∨ Settled S m' (ps ++ [q]) := by
  rcases hw (S.framesEnd 0 ps + 1 + S.chunks q) with hold | hmem
  · refine Or.inl ⟨?_, h.admitted, ?_, fun i hi hlt => ?_⟩
    · refine h.toCommittedPrefix.of_partlyWritten hw fun w hmem => ?_
      rw [mem_singleton.mp hmem]
      omega
    · rw [hw.eq_of_forall_ne, h.header]
      intro w hmem
      rw [mem_singleton.mp hmem]
      omega
    · rcases Nat.eq_or_lt_of_le hi with rfl | hi
      · rw [hold, h.blank _ le_rfl hlt]
      · rw [hw.eq_of_forall_ne, h.blank i (by omega) hlt]
        intro w hmem
        rw [mem_singleton.mp hmem]
        omega
  · have heq := mem_singleton.mp hmem
    exact Or.inr (settled_of_commit h hw (congrArg Prod.snd heq))

/-- Clearing the suffix of an unmarked frame keeps it unmarked. -/
theorem unmarked_of_clearBatch (h : Unmarked S m ps q)
    (hw : PartlyWritten S m (clearBatch S ps (S.chunks q)) m') : Unmarked S m' ps q := by
  refine ⟨?_, h.admitted, ?_, fun i hi hlt => ?_⟩
  · refine h.toCommittedPrefix.of_partlyWritten hw fun w hmem => ?_
    have := (mem_clearBatch.mp hmem).1
    omega
  · rw [hw.eq_of_forall_ne, h.header]
    intro w hmem
    have := (mem_clearBatch.mp hmem).1
    omega
  · rcases hw i with hold | hmem
    · rw [hold, h.blank i hi hlt]
    · exact (mem_clearBatch.mp hmem).2.2

/-- The whole suffix is cleared. -/
theorem zeroFrom_of_clearBatch (h : Unmarked S m ps q) :
    ZeroFrom S (overwrite m (S.device.addressed (clearBatch S ps (S.chunks q))))
      (S.framesEnd 0 ps + 1) := by
  intro i hi hlt
  by_cases hle : i ≤ S.framesEnd 0 ps + 1 + S.chunks q
  · exact sector_overwrite_of_mem (mem_clearBatch.mpr ⟨hi, hle, rfl⟩)
      fun w hw _ => (mem_clearBatch.mp hw).2.2
  · refine (overwrite_of_forall_ne fun w hw heq => ?_).trans (h.blank i (by omega) hlt)
    obtain ⟨v, hv, rfl⟩ := mem_map.mp hw
    have := (mem_clearBatch.mp hv).2.1
    have := Nat.add_left_cancel heq
    omega

section

variable (h : Unmarked S m ps q) (hzero : ZeroFrom S m (S.framesEnd 0 ps + 1))
  (hw : PartlyWritten S m (clearHeaderBatch S ps) m')
include h hzero hw

/-- Clearing the header of a frame whose suffix is clear removes the frame. -/
theorem settled_of_clearHeader
    (hheader : S.sector m' (S.framesEnd 0 ps) = Sector.zero S.size) : Settled S m' ps := by
  refine ⟨?_, fun i hi hlt => ?_⟩
  · refine h.toCommittedPrefix.of_partlyWritten hw fun w hmem => ?_
    rw [mem_singleton.mp hmem]
  · rcases Nat.eq_or_lt_of_le hi with rfl | hi
    · exact hheader
    · rw [hw.eq_of_forall_ne, hzero i hi hlt]
      intro w hmem
      rw [mem_singleton.mp hmem]
      omega

theorem unmarked_or_settled_of_clearHeader : Unmarked S m' ps q ∨ Settled S m' ps := by
  rcases hw (S.framesEnd 0 ps) with hold | hmem
  · refine Or.inl ⟨?_, h.admitted, hold.trans h.header, fun i hi hlt => ?_⟩
    · refine h.toCommittedPrefix.of_partlyWritten hw fun w hmem => ?_
      rw [mem_singleton.mp hmem]
    · rw [hw.eq_of_forall_ne, h.blank i hi hlt]
      intro w hmem
      rw [mem_singleton.mp hmem]
      omega
  · exact Or.inr (settled_of_clearHeader h hzero hw (congrArg Prod.snd (mem_singleton.mp hmem)))

end

/-! ## Barriers -/

/-- A batch the owner can have in flight over the contents `m` with the records `ps`,
and the record whose marker it writes. -/
inductive Barrier (S : WalSite) (m : S.Contents) (ps : List (List UInt8)) :
    Option (List UInt8) → List (ℕ × Sector S.size) → Prop
  | prepare (q : List UInt8) : Settled S m ps → Admitted S ps q →
      Barrier S m ps none (prepareBatch S ps q)
  | commit (q : List UInt8) : Prepared S m ps q → Barrier S m ps (some q) (commitBatch S ps q)
  | clear (q : List UInt8) : Unmarked S m ps q →
      Barrier S m ps none (clearBatch S ps (S.chunks q))
  | clearHeader (q : List UInt8) : Unmarked S m ps q → ZeroFrom S m (S.framesEnd 0 ps + 1) →
      Barrier S m ps none (clearHeaderBatch S ps)

/-- What a power failure can leave when the records `ps` are acknowledged and the
marker of `inFlight` may be on its way. -/
inductive Survivor (S : WalSite) (m : S.Contents) (ps : List (List UInt8))
    (inFlight : Option (List UInt8)) : Prop
  | settled : Settled S m ps → Survivor S m ps inFlight
  | unmarked (q : List UInt8) : Unmarked S m ps q → Survivor S m ps inFlight
  | torn : Torn S m ps → Survivor S m ps inFlight
  | landed (q : List UInt8) : inFlight = some q → Settled S m (ps ++ [q]) →
      Survivor S m ps inFlight

theorem Barrier.image {inFlight : Option (List UInt8)} (h : Barrier S m ps inFlight ws)
    (hw : PartlyWritten S m ws m') : Survivor S m' ps inFlight := by
  cases h with
  | prepare q hsettled hq =>
    rcases header_of_prepareBatch hsettled hq hw with hzero | hheader
    · rcases settled_or_torn_of_prepareBatch hsettled hq hw hzero with h | h
      · exact .settled h
      · exact .torn h
    · exact .unmarked q (unmarked_of_prepareBatch hsettled hq hw hheader)
  | commit q hprepared =>
    rcases unmarked_or_settled_of_commit hprepared hw with h | h
    · exact .unmarked q h
    · exact .landed q rfl h
  | clear q hunmarked => exact .unmarked q (unmarked_of_clearBatch hunmarked hw)
  | clearHeader q hunmarked hzero =>
    rcases unmarked_or_settled_of_clearHeader hunmarked hzero hw with h | h
    · exact .unmarked q h
    · exact .settled h

end UserspaceNtos.Fs
