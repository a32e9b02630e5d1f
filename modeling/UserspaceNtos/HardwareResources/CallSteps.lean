import UserspaceNtos.HardwareResources.ResourceManager

/-!
# What a call of the resource manager does

`Step` lists the outcomes of a call with the facts that the code has checked on the way; every
call is one of them (`step_call`).  What holds over runs is proved from the list and does not
look into the procedures again.
-/

namespace UserspaceNtos.HardwareResources

open Exclusion Procedure ResourceManager List

/-- The grant has not been revoked. -/
def InterruptResource.isLive (i : InterruptResource) : Bool := !i.revoked

/-- The mapping that `mapIoSpace` enters. -/
def mappingOf (rm : ResourceManager) (m : MemoryResource) (owner : ResourceOwner)
    (phys length : ℕ) : Mapping :=
  { mappingId := rm.nextMappingId, resourceId := m.resourceId, owner
    translatedStart := m.translatedStart + (phys - m.translatedStart), length, valid := true }

/-- The connection that `connectInterruptExact` enters. -/
def connectionOf (rm : ResourceManager) (owner : ResourceOwner) (resourceId : ℕ)
    (request : InterruptConnectionRequest) : Interrupt :=
  { interruptId := rm.nextInterruptId, grantGeneration := rm.nextInterruptGeneration, resourceId
    owner, request, connected := true }

/-- The outcomes of a call: its answer and the state that it leaves behind. -/
inductive Step (rm : ResourceManager) :
    ResourceOp → Except HalError Unit → ResourceManager → Prop
  | failed {op : ResourceOp} {e : HalError} : Step rm op (.error e) rm
  | kept {owner : ResourceOwner} {assignments : List HalResourceDescriptor}
      {memory ports : List ResourceDelegation} {batchReserved storeReserved : Bool}
      (hmemory : rm.memoryDelegationsMatch owner assignments memory = true)
      (hports : rm.portDelegationsMatch owner assignments ports = true) :
      Step rm (.replaceOwnerAssignmentsWithDelegations owner assignments memory ports batchReserved
        storeReserved) (.ok ()) rm
  | replaced {owner : ResourceOwner} {assignments : List HalResourceDescriptor}
      {memory ports : List ResourceDelegation} {batchReserved storeReserved : Bool} {batch : Batch}
      (hmemory : someDelegationRejected owner (delegatesUnassigned resKindMemory assignments) []
        memory = false)
      (hports : someDelegationRejected owner (delegatesUnassigned resKindPort assignments) []
        ports = false)
      (hbatch : rm.admitAll owner memory ports [] {} assignments = .ok batch) :
      Step rm (.replaceOwnerAssignmentsWithDelegations owner assignments memory ports batchReserved
        storeReserved) (.ok ()) (install batch (rm.revokeOwner owner).2)
  | memoryClaimedAgain {owner : ResourceOwner} {id phys translated length cache rights : ℕ}
      {reserved : Bool} :
      Step rm (.claimMemory owner id phys translated length cache rights reserved) (.ok ()) rm
  | memoryClaimed {owner : ResourceOwner} {id phys translated length cache rights : ℕ}
      {reserved : Bool} (hnone : liveById rm.memory id = none)
      (hfree : ∀ x ∈ rm.memory, x.isLive = true →
        rangesOverlap translated length x.translatedStart x.length = false) :
      Step rm (.claimMemory owner id phys translated length cache rights reserved) (.ok ())
        { rm with
          memory := put RangeResource.resourceId
            (claimOf owner id phys translated length ⟨cache, rights⟩) rm.memory }
  | memoryReleased {owner : ResourceOwner} {id : ℕ} {m : MemoryResource}
      (hlive : liveById rm.memory id = some m) (howner : m.owner = owner) :
      Step rm (.releaseMemory owner id) (.ok ())
        (revokeOrphanedMemoryDelegations { rm with memory := revokeFirst id rm.memory }).2
  | portClaimedAgain {owner : ResourceOwner} {id start length : ℕ} {reserved : Bool}
      {existing : PortResource} (hlive : liveById rm.ports id = some existing) :
      Step rm (.claimPort owner id start length reserved) (.ok ()) rm
  | portClaimed {owner : ResourceOwner} {id start length : ℕ} {reserved : Bool}
      (hnone : liveById rm.ports id = none)
      (hfree : ∀ x ∈ rm.ports, x.isLive = true →
        rangesOverlap start length x.rawStart x.length = false) :
      Step rm (.claimPort owner id start length reserved) (.ok ())
        { rm with
          ports := put RangeResource.resourceId (claimOf owner id start start length ()) rm.ports }
  | portReleased {owner : ResourceOwner} {id : ℕ} {p : PortResource}
      (hlive : liveById rm.ports id = some p) (howner : p.owner = owner) :
      Step rm (.releasePort owner id) (.ok ())
        (revokeOrphanedPortDelegations { rm with ports := revokeFirst id rm.ports }).2
  | ownerRevoked {owner : ResourceOwner} :
      Step rm (.revokeOwner owner) (.ok ()) (rm.revokeOwner owner).2
  | mapped {owner : ResourceOwner} {phys length : ℕ} {reserved : Bool} {m : MemoryResource}
      (hm : m ∈ rm.memory) (hlive : m.isLive = true) (howner : m.owner = owner)
      (hstart : m.translatedStart ≤ phys) (hlength : length ≤ m.length - (phys - m.translatedStart))
      (hoffset : phys - m.translatedStart ≤ m.length) :
      Step rm (.mapIoSpace owner phys length reserved) (.ok ())
        { rm with
          nextMappingId := rm.nextMappingId + 1
          mappings := rm.mappings ++ [mappingOf rm m owner phys length] }
  | unmapped {owner : ResourceOwner} {id : ℕ} :
      Step rm (.unmapIoSpace owner id) (.ok ())
        { rm with
          mappings := modifyFirst (fun m => decide (m.mappingId = id) && m.valid)
            (fun m => { m with valid := false }) rm.mappings }
  | connected {owner : ResourceOwner} {id : ℕ} {request : InterruptConnectionRequest}
      {reserved : Bool} {i : InterruptResource} (hi : i ∈ rm.interruptsRes)
      (hlive : i.isLive = true) (hid : i.resourceId = id) (howner : i.owner = owner) :
      Step rm (.connectInterruptExact owner id request reserved) (.ok ())
        { rm with
          nextInterruptId := rm.nextInterruptId + 1
          nextInterruptGeneration := rm.nextInterruptGeneration + 1
          connected := rm.connected ++ [connectionOf rm owner id request] }
  | disconnected {owner : ResourceOwner} {id generation : ℕ} :
      Step rm (.disconnectInterrupt owner id generation) (.ok ())
        { rm with
          connected := modifyFirst (fun c => decide (c.interruptId = id) && c.connected)
            (fun c => { c with connected := false }) rm.connected }

/-! ## Failed calls -/

theorem atomic_call (op : ResourceOp) : Atomic op.call := by
  cases op with
  | replaceOwnerAssignmentsWithDelegations =>
    refine readOnly_read.bind fun rm => .ite (infallible_pure _).atomic ?_
    refine .failIf <| .failIf <| .failIf <| (readOnly_lift _).bind fun batch => .failIf ?_
    exact ((infallible_update _).bind fun _ => infallible_update _).atomic
  | claimMemory =>
    refine (readOnly_lift _).bind fun _ => (readOnly_lift _).bind fun _ =>
      .failIf <| readOnly_read.bind fun rm => ?_
    split
    · exact .ite (infallible_pure _).atomic (readOnly_lift (.error _)).atomic
    · exact .failIf <| (readOnly_lift _).bind fun _ => (infallible_update _).atomic
  | claimPort =>
    refine (readOnly_lift _).bind fun _ => .failIf <| readOnly_read.bind fun rm => ?_
    split
    · exact .ite (infallible_pure _).atomic (readOnly_lift (.error _)).atomic
    · exact .failIf <| (readOnly_lift _).bind fun _ => (infallible_update _).atomic
  | releaseMemory | releasePort | unmapIoSpace =>
    exact readOnly_read.bind fun _ => (readOnly_require _ _).bind fun _ =>
      .failIf <| (infallible_update _).atomic
  | revokeOwner => exact (infallible_update _).atomic
  | mapIoSpace =>
    refine Atomic.bind ?_ fun _ => infallible_pure _
    refine readOnly_read.bind fun rm => (readOnly_require _ _).bind fun m =>
      .failIf <| .failIf <| .failIf <| .failIf <| .failIf ?_
    exact ((infallible_update _).bind fun _ => infallible_pure _).atomic
  | connectInterruptExact =>
    refine Atomic.bind ?_ fun _ => infallible_pure _
    refine readOnly_read.bind fun rm => (readOnly_require _ _).bind fun res =>
      .failIf <| .failIf <| .failIf <| .failIf <| .failIf <| .failIf <| .failIf ?_
    exact ((infallible_update _).bind fun _ => infallible_pure _).atomic
  | disconnectInterrupt =>
    exact readOnly_read.bind fun _ => (readOnly_require _ _).bind fun _ =>
      .failIf <| .failIf <| (infallible_update _).atomic

/-! ## Successful calls -/

variable {rm rm' : ResourceManager} {reserved : Bool} {owner : ResourceOwner} {id length : ℕ}

theorem store_eq_ok {α : Type} {resource : RangeResource α}
    {resources resources' : List (RangeResource α)}
    (hok : store resource resources reserved = .ok resources') :
    resources' = put RangeResource.resourceId resource resources := by
  unfold store at hok
  split_ifs at hok
  cases hok
  rfl

theorem step_replace {assignments : List HalResourceDescriptor}
    {memory ports : List ResourceDelegation} {batchReserved storeReserved : Bool}
    (hok : (ResourceOp.replaceOwnerAssignmentsWithDelegations owner assignments memory ports
      batchReserved storeReserved).call rm = (.ok (), rm')) :
    Step rm (.replaceOwnerAssignmentsWithDelegations owner assignments memory ports batchReserved
      storeReserved) (.ok ()) rm' := by
  change ResourceManager.replaceOwnerAssignmentsWithDelegations _ _ _ _ _ _ rm = _ at hok
  unfold ResourceManager.replaceOwnerAssignmentsWithDelegations at hok
  rw [read_bind] at hok
  split at hok
  case isTrue hmatch =>
    cases hok
    exact .kept hmatch.2.1 hmatch.2.2
  · simp only [failIf_bind_ok, lift_bind_ok] at hok
    obtain ⟨hmemory, hports, -, batch, hbatch, -, hok⟩ := hok
    cases hok
    exact .replaced (Bool.eq_false_iff.mpr hmemory) (Bool.eq_false_iff.mpr hports) hbatch

theorem step_claimMemory {phys translated cache rights : ℕ}
    (hok : (ResourceOp.claimMemory owner id phys translated length cache rights reserved).call rm =
      (.ok (), rm')) :
    Step rm (.claimMemory owner id phys translated length cache rights reserved) (.ok ()) rm' := by
  change ResourceManager.claimMemory _ _ _ _ _ _ _ _ rm = _ at hok
  unfold ResourceManager.claimMemory at hok
  simp only [lift_bind_ok, failIf_bind_ok, read_bind] at hok
  obtain ⟨-, -, -, -, -, hok⟩ := hok
  cases hexisting : liveById rm.memory id with
  | some existing =>
    simp only [hexisting] at hok
    split at hok
    · cases hok
      exact .memoryClaimedAgain
    · cases hok
  | none =>
    simp only [hexisting, failIf_bind_ok, lift_bind_ok] at hok
    obtain ⟨hfree, stored, hstore, hok⟩ := hok
    cases hok
    rw [store_eq_ok hstore]
    refine .memoryClaimed hexisting fun x hx hlive => Bool.eq_false_iff.mpr fun hover => ?_
    exact hfree (any_eq_true.mpr ⟨x, hx, by simp [hlive, hover]⟩)

theorem step_claimPort {start : ℕ}
    (hok : (ResourceOp.claimPort owner id start length reserved).call rm = (.ok (), rm')) :
    Step rm (.claimPort owner id start length reserved) (.ok ()) rm' := by
  change ResourceManager.claimPort _ _ _ _ _ rm = _ at hok
  unfold ResourceManager.claimPort at hok
  simp only [lift_bind_ok, failIf_bind_ok, read_bind] at hok
  obtain ⟨stop, hstop, -, hok⟩ := hok
  cases hexisting : liveById rm.ports id with
  | some existing =>
    simp only [hexisting] at hok
    split at hok
    · cases hok
      exact .portClaimedAgain hexisting
    · cases hok
  | none =>
    simp only [hexisting, failIf_bind_ok, lift_bind_ok] at hok
    obtain ⟨hfree, stored, hstore, hok⟩ := hok
    cases hok
    rw [store_eq_ok hstore]
    refine .portClaimed hexisting fun x hx hlive => ?_
    have hstop : start + (length - 1) < 2 ^ 64 ∧ stop = start + (length - 1) := by
      unfold validateRange at hstop
      split_ifs at hstop with hinvalid hlt
      cases hstop
      exact ⟨hlt, rfl⟩
    simp only [any_eq_true, not_exists, not_and] at hfree
    have hx' := hfree x hx
    simp only [hlive, Bool.true_and, Bool.or_eq_true, Bool.and_eq_true, decide_eq_true_eq] at hx'
    unfold rangesOverlap
    rw [if_neg (by omega), if_neg (by omega)]
    simp only [Bool.and_eq_false_iff, decide_eq_false_iff_not]
    omega

theorem step_mapIoSpace {phys : ℕ}
    (hok : (ResourceOp.mapIoSpace owner phys length reserved).call rm = (.ok (), rm')) :
    Step rm (.mapIoSpace owner phys length reserved) (.ok ()) rm' := by
  obtain ⟨granted, mid, hmap, hpure⟩ := bind_ok_iff.mp hok
  cases hpure
  unfold mapIoSpace at hmap
  simp only [read_bind, require_bind_ok, failIf_bind_ok] at hmap
  obtain ⟨m, hfound, howner, hrange, -, -, -, hmap⟩ := hmap
  cases hmap
  -- whichever of the two searches found the record, it is in use and covers the address
  have hfacts : m ∈ rm.memory ∧ m.isLive = true ∧
      rangeContainsAddress m.translatedStart m.length phys = true := by
    rcases Option.or_eq_some_iff.mp hfound with hfirst | ⟨-, hsecond⟩
    · have htest := List.find?_some hfirst
      simp only [Bool.and_eq_true] at htest
      exact ⟨mem_of_find?_eq_some hfirst, htest.1.1, htest.2⟩
    · have htest := List.find?_some hsecond
      simp only [Bool.and_eq_true] at htest
      exact ⟨mem_of_find?_eq_some hsecond, htest⟩
  obtain ⟨hm, hlive, hcovers⟩ := hfacts
  rw [rangeContainsAddress, decide_eq_true_eq] at hcovers
  exact .mapped hm hlive (not_not.mp howner) hcovers.2.1 (by omega) (by omega)

theorem step_connectInterruptExact {request : InterruptConnectionRequest}
    (hok : (ResourceOp.connectInterruptExact owner id request reserved).call rm = (.ok (), rm')) :
    Step rm (.connectInterruptExact owner id request reserved) (.ok ()) rm' := by
  obtain ⟨connection, mid, hconnect, hpure⟩ := bind_ok_iff.mp hok
  cases hpure
  unfold connectInterruptExact at hconnect
  simp only [read_bind, require_bind_ok, failIf_bind_ok] at hconnect
  obtain ⟨i, hfound, hlive, howner, -, -, -, -, -, hconnect⟩ := hconnect
  cases hconnect
  have hid := List.find?_some hfound
  rw [decide_eq_true_eq] at hid
  have hlive' : i.isLive = true := by simpa [InterruptResource.isLive] using hlive
  exact .connected (mem_of_find?_eq_some hfound) hlive' hid (not_not.mp howner)

theorem step_of_ok {op : ResourceOp} (hok : op.call rm = (.ok (), rm')) :
    Step rm op (.ok ()) rm' := by
  cases op with
  | replaceOwnerAssignmentsWithDelegations => exact step_replace hok
  | claimMemory => exact step_claimMemory hok
  | claimPort => exact step_claimPort hok
  | releaseMemory | releasePort =>
    unfold ResourceOp.call at hok
    simp only [ResourceManager.releaseMemory, ResourceManager.releasePort, read_bind,
      require_bind_ok, failIf_bind_ok] at hok
    obtain ⟨r, hlive, howner, hok⟩ := hok
    cases hok
    first
      | exact .memoryReleased hlive (not_not.mp howner)
      | exact .portReleased hlive (not_not.mp howner)
  | revokeOwner owner =>
    cases hok
    exact .ownerRevoked
  | mapIoSpace => exact step_mapIoSpace hok
  | unmapIoSpace owner id =>
    unfold ResourceOp.call unmapIoSpace at hok
    simp only [read_bind, require_bind_ok, failIf_bind_ok] at hok
    obtain ⟨m, -, -, hok⟩ := hok
    cases hok
    exact .unmapped
  | connectInterruptExact => exact step_connectInterruptExact hok
  | disconnectInterrupt owner id generation =>
    unfold ResourceOp.call disconnectInterrupt at hok
    simp only [read_bind, require_bind_ok, failIf_bind_ok] at hok
    obtain ⟨c, -, -, -, hok⟩ := hok
    cases hok
    exact .disconnected

/-- Every call is a step. -/
theorem step_call (rm : ResourceManager) (op : ResourceOp) :
    Step rm op (op.call rm).1 (op.call rm).2 := by
  rcases hcall : op.call rm with ⟨answer, rm'⟩
  cases answer with
  | error e =>
    rw [atomic_call op rm e rm' hcall]
    exact .failed
  | ok value => exact step_of_ok hcall

/-! ## Conditions on runs -/

/-- Every call of a run meets a condition on the state it is made in. -/
def EveryCall (condition : ResourceManager → ResourceOp → Prop) :
    ResourceManager → List ResourceOp → Prop
  | _, [] => True
  | rm, op :: ops => condition rm op ∧ EveryCall condition (op.call rm).2 ops

section Runs

variable {P Inv : ResourceManager → Prop} {condition : ResourceManager → ResourceOp → Prop}

/-- A property holds after every call of a run exactly if every call meets the condition that
keeps an invariant behind the property and that the property needs. -/
theorem always_iff_everyCall (hP : ∀ rm, Inv rm → P rm)
    (hkeep : ∀ rm op, Inv rm → condition rm op → Inv (op.call rm).2)
    (hneed : ∀ rm op, Inv rm → P (op.call rm).2 → condition rm op) (ops : List ResourceOp)
    (hrm : Inv rm) : (∀ n, P (ResourceOp.run rm (ops.take n))) ↔ EveryCall condition rm ops := by
  induction ops generalizing rm with
  | nil =>
    refine ⟨fun _ => trivial, fun _ n => ?_⟩
    rw [take_nil]
    exact hP rm hrm
  | cons op ops ih =>
    constructor
    · intro hall
      have hcondition := hneed rm op hrm (by simpa [ResourceOp.run] using hall 1)
      refine ⟨hcondition, (ih (hkeep rm op hrm hcondition)).mp fun n => ?_⟩
      have hnext := hall (n + 1)
      rwa [take_succ_cons] at hnext
    · rintro ⟨hcondition, hrest⟩ n
      cases n with
      | zero => exact hP rm hrm
      | succ n =>
        exact (ih (hkeep rm op hrm hcondition)).mpr hrest n

end Runs

end UserspaceNtos.HardwareResources
