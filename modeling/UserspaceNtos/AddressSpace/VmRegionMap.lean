import UserspaceNtos.Lib.Procedure
import UserspaceNtos.Lib.Result
import UserspaceNtos.Lib.Slots
import UserspaceNtos.Lib.ExtentMap
import Mathlib.Tactic.NormNum

/-!
# The private region map of an address space

`VmRegionMap` of `nt-address-space`: a fixed number of slots for extents, each a range
of addresses with its allocation, protection, state and type, and a second table of
pages whose protection differs from that of their extent.

Addresses and sizes are natural numbers; `checked_add` fails where the sum does not fit
64 bits (`checkedAdd`).  The sums the code forms without a check are ends of extents
and of placed ranges, which never pass the upper bound of the map.  Flags, protections
and types are 32-bit words.  An operation is an `Procedure`: what it has written before it
fails stays written.  Whether the `Vec` of `rewrite_range` can be reserved is up to the
allocator and enters the operations as the flag `reserved`.
-/

namespace UserspaceNtos.AddressSpace

open Procedure

/-! ## Constants -/

/-- `PAGE_SIZE` -/
def pageSize : ℕ := 4096

/-- `ALLOCATION_GRANULARITY` -/
def allocationGranularity : ℕ := 64 * 1024

/-- `VM_PROTECTION_OVERRIDE_CAPACITY` -/
def vmProtectionOverrideCapacity : ℕ := 128

/-- A word of flags, a protection or a mapping type. -/
abbrev Flags := BitVec 32

/-- `MEM_COMMIT` -/
def memCommit : Flags := 0x1000
/-- `MEM_RESERVE` -/
def memReserve : Flags := 0x2000
/-- `MEM_DECOMMIT` -/
def memDecommit : Flags := 0x4000
/-- `MEM_RELEASE` -/
def memRelease : Flags := 0x8000
/-- `MEM_PRIVATE` -/
def memPrivate : Flags := 0x00020000
/-- `MEM_MAPPED` -/
def memMapped : Flags := 0x00040000
/-- `MEM_RESET` -/
def memReset : Flags := 0x00080000
/-- `MEM_TOP_DOWN` -/
def memTopDown : Flags := 0x00100000
/-- `MEM_WRITE_WATCH` -/
def memWriteWatch : Flags := 0x00200000
/-- `MEM_PHYSICAL` -/
def memPhysical : Flags := 0x00400000
/-- `MEM_LARGE_PAGES` -/
def memLargePages : Flags := 0x20000000

/-- `PAGE_NOACCESS` -/
def pageNoaccess : Flags := 0x01
/-- `PAGE_READONLY` -/
def pageReadonly : Flags := 0x02
/-- `PAGE_READWRITE` -/
def pageReadwrite : Flags := 0x04
/-- `PAGE_WRITECOPY` -/
def pageWritecopy : Flags := 0x08
/-- `PAGE_EXECUTE` -/
def pageExecute : Flags := 0x10
/-- `PAGE_EXECUTE_READ` -/
def pageExecuteRead : Flags := 0x20
/-- `PAGE_EXECUTE_READWRITE` -/
def pageExecuteReadwrite : Flags := 0x40
/-- `PAGE_EXECUTE_WRITECOPY` -/
def pageExecuteWritecopy : Flags := 0x80
/-- `PAGE_GUARD` -/
def pageGuard : Flags := 0x100
/-- `PAGE_NOCACHE` -/
def pageNocache : Flags := 0x200
/-- `PAGE_WRITECOMBINE` -/
def pageWritecombine : Flags := 0x400

/-- The status codes the map answers with. -/
inductive NtStatus
  | conflictingAddresses
  | invalidPageProtection
  | noMemory
  | unableToFreeVm
  | unableToDeleteSection
  | freeVmNotAtBase
  | memoryNotAllocated
  | insufficientResources
  | invalidParameter3
  | invalidParameter4
  | invalidParameter5
  | invalidParameter6
  | notCommitted
  deriving DecidableEq, Repr

/-- How a call ends if not with a plan: with a status, or in a panic. -/
inductive Fault
  | status (s : NtStatus)
  | panicked
  deriving DecidableEq, Repr

/-! ## Address arithmetic -/

/-- `u64::checked_add` -/
def checkedAdd (a b : ℕ) : Option ℕ := if a + b < 2 ^ 64 then some (a + b) else none

/-- `u64::checked_sub` -/
def checkedSub (a b : ℕ) : Option ℕ := if b ≤ a then some (a - b) else none

/-- `value & !(alignment - 1)`, for the powers of two that occur as alignments. -/
def alignDown (value alignment : ℕ) : ℕ := value / alignment * alignment

/-- `align_up` -/
def alignUp (value alignment : ℕ) : Option ℕ :=
  (checkedAdd value (alignment - 1)).map (alignDown · alignment)

/-- The end of the pages that `size` bytes at `address` lie on. -/
def pageEnd (address size : ℕ) : Option ℕ := (checkedAdd address size).bind (alignUp · pageSize)

/-! ## Argument checks -/

/-- The base protections the validators know. -/
def baseProtections : List Flags :=
  [pageNoaccess, pageReadonly, pageReadwrite, pageWritecopy, pageExecute, pageExecuteRead,
    pageExecuteReadwrite, pageExecuteWritecopy]

/-- `valid_allocate_protection` -/
def validAllocateProtection (protection : Flags) : Bool :=
  let baseMask : Flags := 0xff
  let modifierMask := pageGuard ||| pageNocache ||| pageWritecombine
  let base := protection &&& baseMask
  baseProtections.contains base
    && protection &&& ~~~(baseMask ||| modifierMask) == 0
    && !(base == pageNoaccess && protection &&& modifierMask != 0)
    && !(protection &&& pageNocache != 0
      && protection &&& (pageNoaccess ||| pageWritecombine) != 0)
    && !(protection &&& pageWritecombine != 0 && base == pageNoaccess)

/-- `validate_protect_parameters` -/
def validateProtectParameters (protection : Flags) : Except NtStatus Unit :=
  if baseProtections.contains (protection &&& ~~~(pageGuard ||| pageNocache)) then .ok ()
  else .error .invalidPageProtection

/-- `validate_allocate_parameters` -/
def validateAllocateParameters (zeroBits : ℕ) (allocationType protection : Flags) :
    Except NtStatus Unit :=
  let allowed := memCommit ||| memReserve ||| memReset ||| memPhysical ||| memTopDown |||
    memWriteWatch ||| memLargePages
  if 53 < zeroBits then .error .invalidParameter3
  else if allocationType &&& ~~~allowed ≠ 0
      ∨ allocationType &&& (memCommit ||| memReserve ||| memReset) = 0
      ∨ allocationType &&& memReset ≠ 0 ∧ allocationType ≠ memReset then
    .error .invalidParameter5
  else if allocationType &&& memLargePages ≠ 0 ∧ (allocationType &&& memCommit = 0
      ∨ allocationType &&& (memPhysical ||| memReset ||| memWriteWatch) ≠ 0) then
    .error .invalidParameter5
  else if allocationType &&& memWriteWatch ≠ 0 ∧ allocationType &&& memReserve = 0 then
    .error .invalidParameter5
  else if allocationType &&& memPhysical ≠ 0 ∧ (allocationType &&& memReserve = 0
      ∨ allocationType &&& ~~~(memReserve ||| memTopDown ||| memPhysical) ≠ 0) then
    .error .invalidParameter5
  else if allocationType &&& memPhysical ≠ 0 ∧ protection ≠ pageReadwrite then
    .error .invalidParameter6
  else if !validAllocateProtection protection then .error .invalidPageProtection
  else .ok ()

/-! ## The map -/

/-- `VmExtentState` -/
inductive VmExtentState
  | reserved
  | committed
  deriving DecidableEq, Repr

/-- The fields of a `VmExtent` other than its range. -/
structure VmTag where
  allocationBase : ℕ
  protection : Flags
  state : VmExtentState
  type_ : Flags
  deriving DecidableEq, Repr

/-- `VmExtent` -/
abbrev VmExtent := Extent VmTag

/-- `VmProtectionOverride` -/
structure VmProtectionOverride where
  page : ℕ
  protection : Flags
  deriving DecidableEq, Repr

/-- The entry is for the page. -/
def VmProtectionOverride.isFor (page : ℕ) (entry : VmProtectionOverride) : Bool :=
  entry.page == page

/-- `VmRegionMap` -/
structure VmRegionMap (N : ℕ) where
  lowerBound : ℕ
  upperBound : ℕ
  extents : Slots VmExtent N
  protectionOverrides : Slots VmProtectionOverride vmProtectionOverrideCapacity

/-- `VmAllocatePlan` -/
structure VmAllocatePlan where
  base : ℕ
  size : ℕ

/-- `VmFreePlan` -/
structure VmFreePlan where
  base : ℕ
  size : ℕ
  freeType : Flags

/-- `VmProtectPlan` -/
structure VmProtectPlan where
  base : ℕ
  size : ℕ
  oldProtection : Flags
  newProtection : Flags

namespace VmRegionMap

variable {N : ℕ}

/-- `VmRegionMap::new` -/
def new (N : ℕ) (lowerBound upperBound : ℕ) : VmRegionMap N :=
  ⟨lowerBound, upperBound, Slots.empty _ _, Slots.empty _ _⟩

/-- `extent_at` -/
def extentAt (m : VmRegionMap N) (address : ℕ) : Option VmExtent :=
  ExtentMap.find m.extents.occupied address

/-- `override_protection_at` -/
def overrideProtectionAt (m : VmRegionMap N) (address : ℕ) : Option Flags :=
  (m.protectionOverrides.occupied.find?
    (VmProtectionOverride.isFor (alignDown address pageSize))).map (·.protection)

/-- `protection_at` -/
def protectionAt (m : VmRegionMap N) (address : ℕ) : Option Flags :=
  (m.extentAt address).bind fun extent =>
    if extent.tag.state = .committed then
      some ((m.overrideProtectionAt address).getD extent.tag.protection)
    else none

/-- Two ranges meet. -/
def meets (base stop : ℕ) (extent : VmExtent) : Bool := base < extent.stop && extent.base < stop

/-- `overlaps` -/
def overlaps (m : VmRegionMap N) (base stop : ℕ) : Bool :=
  m.extents.occupied.any (meets base stop)

/-- An operation on the map. -/
abbrev Op (N : ℕ) (α : Type) := Procedure (VmRegionMap N) Fault α

/-- The statuses of a computation on copies are those of the call. -/
def status {α : Type} (r : Except NtStatus α) : Op N α := lift (r.mapError .status)

/-- `insert` -/
def insert (extent : VmExtent) : Op N Unit := do
  let m ← read
  let extents ← require (m.extents.fill extent) (.status .insufficientResources)
  update fun m => { m with extents }

/-- The slots after `normalize`: an exchange sort, and neighbours joined. -/
def normalized (extents : Slots VmExtent N) : Slots VmExtent N :=
  Slots.ofList N (ExtentMap.coalesce (extents.sortBy (·.base)).leading)

/-- `normalize` -/
def normalize : Op N Unit := update fun m => { m with extents := normalized m.extents }

/-- `clear_protection_overrides` -/
def clearProtectionOverrides (base stop : ℕ) : Op N Unit :=
  update fun m =>
    { m with protectionOverrides :=
        m.protectionOverrides.discard fun o => base ≤ o.page && o.page < stop }

/-- `set_page_protection_override` -/
def setPageProtectionOverride (m : VmRegionMap N) (page : ℕ)
    (defaultProtection newProtection : Flags) : Except Fault (VmRegionMap N) :=
  if m.protectionOverrides.occupied.any (VmProtectionOverride.isFor page) then
    let entry := if newProtection ≠ defaultProtection then
      some ⟨page, newProtection⟩ else none
    .ok { m with protectionOverrides :=
      m.protectionOverrides.replaceFirst (VmProtectionOverride.isFor page) entry }
  else if newProtection = defaultProtection then .ok m
  else
    match m.protectionOverrides.fill ⟨page, newProtection⟩ with
    | none => .error (.status .insufficientResources)
    | some protectionOverrides => .ok { m with protectionOverrides }

/-! ### Placement -/

/-- The lowest base of an extent in the way of a candidate range. -/
def lowestConflict (m : VmRegionMap N) (base stop : ℕ) : Option ℕ :=
  ((m.extents.occupied.filter (meets base stop)).map (·.base)).min?

theorem lowestConflict_lt {m : VmRegionMap N} {base stop conflict : ℕ}
    (h : m.lowestConflict base stop = some conflict) : conflict < stop := by
  obtain ⟨e, he, rfl⟩ := List.mem_map.mp (List.min?_mem h)
  have hmeets := (List.mem_filter.mp he).2
  simp only [meets, Bool.and_eq_true, decide_eq_true_eq] at hmeets
  exact hmeets.2

theorem alignDown_le (value alignment : ℕ) : alignDown value alignment ≤ value :=
  Nat.div_mul_le_self value alignment

/-- The loop of `find_free_between` from the top. -/
def findTopDown (m : VmRegionMap N) (size lowerBound candidate : ℕ) : Option ℕ :=
  if candidate < lowerBound then none
  else if candidate + size < 2 ^ 64 then
    match h : m.lowestConflict candidate (candidate + size) with
    | none => some candidate
    | some base =>
      -- the conflict starts before the end of the candidate, so the next one is lower
      have := lowestConflict_lt h
      have := alignDown_le (base - size) allocationGranularity
      if size ≤ base then
        findTopDown m size lowerBound (alignDown (base - size) allocationGranularity)
      else none
  else none
termination_by candidate

theorem le_of_alignUp {value alignment aligned : ℕ} (hpos : 0 < alignment)
    (h : alignUp value alignment = some aligned) : value ≤ aligned := by
  obtain ⟨sum, hsum, rfl⟩ := Option.map_eq_some_iff.mp h
  rw [checkedAdd] at hsum
  split at hsum
  case isFalse => cases hsum
  case isTrue =>
    cases hsum
    have hdiv := Nat.div_add_mod (value + (alignment - 1)) alignment
    have hmod := Nat.mod_lt (value + (alignment - 1)) hpos
    rw [alignDown, Nat.mul_comm]
    omega

theorem allocationGranularity_pos : 0 < allocationGranularity := by
  norm_num [allocationGranularity]

/-- The candidate behind the first extent in the way of a candidate range, if there is
such an extent; there may be no room for a candidate behind it. -/
def candidateBehind (m : VmRegionMap N) (base stop : ℕ) : Option (Option ℕ) :=
  (m.extents.occupied.find? (meets base stop)).map fun extent =>
    alignUp extent.stop allocationGranularity

theorem lt_candidateBehind {m : VmRegionMap N} {base stop next : ℕ}
    (h : m.candidateBehind base stop = some (some next)) : base < next := by
  obtain ⟨extent, hfind, hnext⟩ := Option.map_eq_some_iff.mp h
  have hmeets := List.find?_some hfind
  simp only [meets, Bool.and_eq_true, decide_eq_true_eq] at hmeets
  exact hmeets.1.trans_le (le_of_alignUp allocationGranularity_pos hnext)

/-- The loop of `find_free_between` from the bottom. -/
def findBottomUp (m : VmRegionMap N) (size upperBound candidate : ℕ) : Option ℕ :=
  if candidate + size < 2 ^ 64 then
    if upperBound < candidate + size then none
    else
      match h : m.candidateBehind candidate (candidate + size) with
      | none => some candidate
      | some none => none
      | some (some next) =>
        have := lt_candidateBehind h
        findBottomUp m size upperBound next
  else none
termination_by upperBound + 1 - candidate

/-- `find_free_between` -/
def findFreeBetween (m : VmRegionMap N) (size lowerBound upperBound : ℕ) (topDown : Bool) :
    Option ℕ :=
  let lowerBound := max lowerBound m.lowerBound
  let upperBound := min upperBound m.upperBound
  if upperBound ≤ lowerBound then none
  else if topDown then
    (checkedSub upperBound size).bind fun top =>
      m.findTopDown size lowerBound (alignDown top allocationGranularity)
  else
    (alignUp lowerBound allocationGranularity).bind fun bottom =>
      m.findBottomUp size upperBound bottom

/-! ### Ranges of one allocation -/

/-- The loop over the extents of a range: there has to be one at every position
(otherwise `missing`), and each has to pass `check`. -/
def walk (m : VmRegionMap N) (missing : NtStatus) (check : VmExtent → Option NtStatus)
    (position stop : ℕ) : Except NtStatus Unit :=
  if position < stop then
    match h : m.extentAt position with
    | none => .error missing
    | some extent =>
      have := (ExtentMap.holds_of_find h).2.2
      match check extent with
      | some s => .error s
      | none => walk m missing check (min extent.stop stop) stop
  else .ok ()
termination_by stop - position

/-- `allocation_for_range` -/
def allocationForRange (m : VmRegionMap N) (base stop : ℕ) : Except NtStatus ℕ :=
  match m.extentAt base with
  | none => .error .memoryNotAllocated
  | some first => do
      m.walk .unableToFreeVm
        (fun extent => if extent.tag.allocationBase ≠ first.tag.allocationBase then
          some .unableToFreeVm else none) base stop
      pure first.tag.allocationBase

/-- `allocation_end` -/
def allocationEnd (m : VmRegionMap N) (allocationBase : ℕ) : Option ℕ :=
  ((m.extents.occupied.filter (·.tag.allocationBase == allocationBase)).map (·.stop)).max?

/-- What `rewrite_range` makes of the tag of an extent inside the range. -/
def replaceTag (replacement : Option (VmExtentState × Option Flags)) (tag : VmTag) :
    Option VmTag :=
  replacement.map fun (state, protection) =>
    { tag with state, protection := protection.getD tag.protection }

/-- `rewrite_range`: the parts of the extents are pushed one after the other into a new
list, which replaces the extents only when all of them have fit. -/
def rewriteRange (reserved : Bool) (base stop : ℕ)
    (replacement : Option (VmExtentState × Option Flags)) : Op N Unit := do
  failIf (reserved = false) (.status .insufficientResources)
  let m ← read
  let next ← require
    ((ExtentMap.cutAll base stop (replaceTag replacement) m.extents.occupied).foldlM
      (ExtentMap.push N) []) (.status .insufficientResources)
  update fun m => { m with extents := Slots.ofList N next }

/-! ### Allocation -/

/-- The branch of `allocate_between_type` for `MEM_RESET` at an address. -/
def reset (address requestedSize : ℕ) : Op N VmAllocatePlan := do
  let m ← read
  let base := alignDown address pageSize
  let stop ← require (pageEnd address requestedSize) (.status .invalidParameter4)
  failIf (m.overlaps base stop = false) (.status .conflictingAddresses)
  pure ⟨base, stop - base⟩

/-- The range that the reserving branch chooses. -/
def reserveRange (m : VmRegionMap N) (requestedBase : Option ℕ) (requestedSize : ℕ)
    (allocationType : Flags) (lowerBound upperBound : ℕ) : Except NtStatus (ℕ × ℕ) :=
  match requestedBase with
  | some address => do
      let stop ← Result.orError (pageEnd address requestedSize) .invalidParameter4
      pure (alignDown address allocationGranularity, stop)
  | none => do
      let size ← Result.orError (alignUp requestedSize pageSize) .invalidParameter4
      let topDown := allocationType &&& memTopDown != 0
      let base ← Result.orError (m.findFreeBetween size lowerBound upperBound topDown) .noMemory
      pure (base, base + size)

/-- The reserving branch of `allocate_between_type`. -/
def reserve (requestedBase : Option ℕ) (requestedSize : ℕ) (allocationType protection : Flags)
    (lowerBound upperBound : ℕ) (type_ : Flags) : Op N VmAllocatePlan := do
  let m ← read
  let (base, stop) ← status
    (m.reserveRange requestedBase requestedSize allocationType lowerBound upperBound)
  failIf (upperBound < stop ∨ stop ≤ base) (.status .conflictingAddresses)
  failIf (base < m.lowerBound ∨ m.overlaps base stop) (.status .conflictingAddresses)
  insert
    { base, size := stop - base,
      tag := { allocationBase := base, protection,
               state := if allocationType &&& memCommit ≠ 0 then .committed else .reserved,
               type_ } }
  normalize
  clearProtectionOverrides base stop
  pure ⟨base, stop - base⟩

/-- The committing branch of `allocate_between_type`. -/
def commit (reserved : Bool) (address requestedSize : ℕ) (protection : Flags) (upperBound : ℕ)
    (type_ : Flags) : Op N VmAllocatePlan := do
  let m ← read
  let base := alignDown address pageSize
  let stop ← require (pageEnd address requestedSize) (.status .invalidParameter4)
  failIf (upperBound < stop ∨ stop ≤ base) (.status .conflictingAddresses)
  failIf ((m.allocationForRange base stop).isOk = false) (.status .conflictingAddresses)
  failIf ((m.extentAt base).all fun extent => extent.tag.type_ ≠ type_)
    (.status .conflictingAddresses)
  rewriteRange reserved base stop (some (.committed, some protection))
  clearProtectionOverrides base stop
  pure ⟨base, stop - base⟩

/-- `allocate_between_type` -/
def allocateBetweenType (reserved : Bool) (requestedBase : Option ℕ) (requestedSize : ℕ)
    (allocationType protection : Flags) (lowerBound upperBound : ℕ) (type_ : Flags) :
    Op N VmAllocatePlan := do
  status (validateAllocateParameters 0 allocationType protection)
  let m ← read
  let lowerBound := max lowerBound m.lowerBound
  let upperBound := min upperBound m.upperBound
  failIf (requestedBase.any fun address => address < lowerBound ∨ upperBound ≤ address)
    (.status .conflictingAddresses)
  let available := match requestedBase with
    | some address => upperBound - address
    | none => upperBound
  failIf (available < requestedSize ∨ requestedSize = 0) (.status .invalidParameter4)
  match requestedBase with
  | none =>
    reserve none requestedSize allocationType protection lowerBound upperBound type_
  | some address =>
    if allocationType = memReset then reset address requestedSize
    else if allocationType &&& memReserve ≠ 0 then
      reserve (some address) requestedSize allocationType protection lowerBound upperBound type_
    else commit reserved address requestedSize protection upperBound type_

/-- `allocate_between` -/
def allocateBetween (reserved : Bool) (requestedBase : Option ℕ) (requestedSize : ℕ)
    (allocationType protection : Flags) (lowerBound upperBound : ℕ) : Op N VmAllocatePlan :=
  allocateBetweenType reserved requestedBase requestedSize allocationType protection lowerBound
    upperBound memPrivate

/-- `allocate_mapped_between` -/
def allocateMappedBetween (reserved : Bool) (requestedBase : Option ℕ) (requestedSize : ℕ)
    (allocationType protection : Flags) (lowerBound upperBound : ℕ) : Op N VmAllocatePlan :=
  allocateBetweenType reserved requestedBase requestedSize allocationType protection lowerBound
    upperBound memMapped

/-- `allocate_below` -/
def allocateBelow (reserved : Bool) (requestedBase : Option ℕ) (requestedSize : ℕ)
    (allocationType protection : Flags) (upperBound : ℕ) : Op N VmAllocatePlan := do
  let m ← read
  allocateBetween reserved requestedBase requestedSize allocationType protection m.lowerBound
    upperBound

/-- `allocate` -/
def allocate (reserved : Bool) (requestedBase : Option ℕ) (requestedSize : ℕ)
    (allocationType protection : Flags) : Op N VmAllocatePlan := do
  let m ← read
  allocateBelow reserved requestedBase requestedSize allocationType protection m.upperBound

/-! ### Freeing, unmapping and reprotecting -/

/-- The end of the range that `free` is asked for. -/
def freeEnd (m : VmRegionMap N) (first : VmExtent) (base requestedBase requestedSize : ℕ) :
    Except NtStatus ℕ :=
  if requestedSize = 0 then
    if base ≠ first.base ∨ first.base ≠ first.tag.allocationBase then .error .freeVmNotAtBase
    else Result.orError (m.allocationEnd first.tag.allocationBase) .memoryNotAllocated
  else Result.orError (pageEnd requestedBase requestedSize) .unableToFreeVm

/-- What is left of a partly released allocation behind the released range starts an
allocation of its own. -/
def rebase (allocationBase stop : ℕ) (extent : VmExtent) : VmExtent :=
  if extent.tag.allocationBase = allocationBase ∧ stop ≤ extent.base then
    { extent with tag := { extent.tag with allocationBase := stop } }
  else extent

/-- `free` -/
def free (reserved : Bool) (requestedBase requestedSize : ℕ) (freeType : Flags) :
    Op N VmFreePlan := do
  failIf (freeType ≠ memRelease ∧ freeType ≠ memDecommit) (.status .invalidParameter4)
  let m ← read
  let base := alignDown requestedBase pageSize
  let first ← require (m.extentAt base) (.status .memoryNotAllocated)
  failIf (first.tag.type_ ≠ memPrivate) (.status .unableToDeleteSection)
  let stop ← status (m.freeEnd first base requestedBase requestedSize)
  let _ ← status (m.allocationForRange base stop)
  rewriteRange reserved base stop (if freeType = memDecommit then some (.reserved, none) else none)
  clearProtectionOverrides base stop
  if freeType = memRelease then do
    update fun m => { m with extents := m.extents.map (rebase first.tag.allocationBase stop) }
    normalize
    pure ⟨base, stop - base, freeType⟩
  else pure ⟨base, stop - base, freeType⟩

/-- `unmap_mapped` -/
def unmapMapped (reserved : Bool) (address : ℕ) : Op N VmFreePlan := do
  let m ← read
  let base := alignDown address pageSize
  let first ← require (m.extentAt base) (.status .memoryNotAllocated)
  failIf (first.tag.type_ ≠ memMapped) (.status .unableToDeleteSection)
  let allocationBase := first.tag.allocationBase
  let stop ← require (m.allocationEnd allocationBase) (.status .memoryNotAllocated)
  rewriteRange reserved allocationBase stop none
  clearProtectionOverrides allocationBase stop
  pure ⟨allocationBase, stop - allocationBase, memRelease⟩

/-- The loop of `protect` over the pages, on the copy `next` of the map `m`. -/
def overridePages (m : VmRegionMap N) (newProtection : Flags) (page stop : ℕ)
    (next : VmRegionMap N) : Except Fault (VmRegionMap N) :=
  if page < stop then
    match m.extentAt page with
    | none => .error .panicked
    | some extent =>
      match next.setPageProtectionOverride page extent.tag.protection newProtection with
      | .error e => .error e
      | .ok next => overridePages m newProtection (page + pageSize) stop next
  else .ok next
termination_by stop - page
decreasing_by
  have : 0 < pageSize := by decide
  omega

/-- `protect` -/
def protect (requestedBase requestedSize : ℕ) (newProtection : Flags) : Op N VmProtectPlan := do
  status (validateProtectParameters newProtection)
  failIf (newProtection &&& 0xff = pageWritecopy
    ∨ newProtection &&& 0xff = pageExecuteWritecopy) (.status .invalidParameter4)
  failIf (requestedSize = 0) (.status .invalidParameter3)
  let m ← read
  let base := alignDown requestedBase pageSize
  let stop ← require (pageEnd requestedBase requestedSize) (.status .invalidParameter3)
  failIf (stop ≤ base) (.status .invalidParameter3)
  let first ← require (m.extentAt base) (.status .conflictingAddresses)
  let oldProtection := (m.protectionAt base).getD first.tag.protection
  status <| m.walk .conflictingAddresses
    (fun extent =>
      if extent.tag.allocationBase ≠ first.tag.allocationBase then some .conflictingAddresses
      else if extent.tag.state ≠ .committed then some .notCommitted
      else none) base stop
  let next ← lift (m.overridePages newProtection base stop m)
  update fun _ => next
  pure ⟨base, stop - base, oldProtection, newProtection⟩

end VmRegionMap

/-! ## Calls -/

/-- Where an allocation may go, and of what type it is. -/
inductive Placement
  | anywhere
  | below (upperBound : UInt64)
  | between (lowerBound upperBound : UInt64)
  | mapped (lowerBound upperBound : UInt64)

/-- What a caller can ask of the map, with arbitrary 64-bit arguments. -/
inductive VmCall
  | allocate (placement : Placement) (requestedBase : Option UInt64) (requestedSize : UInt64)
      (allocationType protection : Flags)
  | free (requestedBase requestedSize : UInt64) (freeType : Flags)
  | unmapMapped (address : UInt64)
  | protect (requestedBase requestedSize : UInt64) (newProtection : Flags)

/-- The plans that the calls return. -/
inductive VmPlan
  | allocated (plan : VmAllocatePlan)
  | freed (plan : VmFreePlan)
  | reprotected (plan : VmProtectPlan)

/-- The first address of the range of a plan. -/
def VmPlan.base : VmPlan → ℕ
  | allocated plan => plan.base
  | freed plan => plan.base
  | reprotected plan => plan.base

/-- The size of the range of a plan. -/
def VmPlan.size : VmPlan → ℕ
  | allocated plan => plan.size
  | freed plan => plan.size
  | reprotected plan => plan.size

/-- The entry point for an allocation. -/
def Placement.allocate {N : ℕ} (reserved : Bool) (requestedBase : Option ℕ) (requestedSize : ℕ)
    (allocationType protection : Flags) : Placement → VmRegionMap.Op N VmAllocatePlan
  | anywhere =>
    VmRegionMap.allocate reserved requestedBase requestedSize allocationType protection
  | below upperBound =>
    VmRegionMap.allocateBelow reserved requestedBase requestedSize allocationType protection
      upperBound.toNat
  | between lowerBound upperBound =>
    VmRegionMap.allocateBetween reserved requestedBase requestedSize allocationType protection
      lowerBound.toNat upperBound.toNat
  | mapped lowerBound upperBound =>
    VmRegionMap.allocateMappedBetween reserved requestedBase requestedSize allocationType
      protection lowerBound.toNat upperBound.toNat

/-- A call, with the answer of the allocator. -/
def VmCall.exec {N : ℕ} (reserved : Bool) : VmCall → VmRegionMap.Op N VmPlan
  | allocate placement base size type protection => do
      let plan ← placement.allocate reserved (base.map UInt64.toNat) size.toNat type protection
      pure (.allocated plan)
  | free base size type => do
      let plan ← VmRegionMap.free reserved base.toNat size.toNat type
      pure (.freed plan)
  | unmapMapped address => do
      let plan ← VmRegionMap.unmapMapped reserved address.toNat
      pure (.freed plan)
  | protect base size protection => do
      let plan ← VmRegionMap.protect base.toNat size.toNat protection
      pure (.reprotected plan)

/-- The map after a sequence of calls. -/
def VmRegionMap.run {N : ℕ} (m : VmRegionMap N) (calls : List (Bool × VmCall)) : VmRegionMap N :=
  calls.foldl (fun m call => (call.2.exec call.1 m).2) m

end UserspaceNtos.AddressSpace
