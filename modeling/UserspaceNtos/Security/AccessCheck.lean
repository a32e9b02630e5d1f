import Mathlib.Data.BitVec

/-!
# The access check

`SeAccessCheck` as `nt-security` computes it (`access.rs`, with the SID sets of
`token.rs`).  Masks are 32-bit vectors and a right is the number of a bit.

The code walks the ACL once for the ordinary SIDs of the token and, if the token is
restricted, once more for its restricting SIDs.  Each walk accumulates granted bits; a
plain request returns at the first deny ACE that hits a wanted bit and stops once nothing
is missing, a request for `MAXIMUM_ALLOWED` walks to the end and keeps the denied bits
aside.

The meaning is given per right: `decides` finds the first ACE that says anything about the
right, and `allowedFor` asks whether it allows.  `evaluateDacl_first` and
`evaluateDacl_plain` relate the two walks to it.  Both inductions are on the ACEs that
remain, with the accumulators arbitrary; for the plain walk the invariant is that a right
once granted is not asked for again, which is also why the early stop is harmless.
-/

namespace UserspaceNtos.Security

/-! ## Masks -/

/-- `AccessMask` -/
abbrev AccessMask := BitVec 32

/-- `READ_CONTROL` -/
def readControl : AccessMask := 0x00020000#32

/-- `WRITE_DAC` -/
def writeDac : AccessMask := 0x00040000#32

/-- `WRITE_OWNER` -/
def writeOwner : AccessMask := 0x00080000#32

/-- `ACCESS_SYSTEM_SECURITY` -/
def accessSystemSecurity : AccessMask := 0x01000000#32

/-- `MAXIMUM_ALLOWED` -/
def maximumAllowed : AccessMask := 0x02000000#32

/-- `GENERIC_ALL` -/
def genericAll : AccessMask := 0x10000000#32

/-- `GENERIC_EXECUTE` -/
def genericExecute : AccessMask := 0x20000000#32

/-- `GENERIC_WRITE` -/
def genericWrite : AccessMask := 0x40000000#32

/-- `GENERIC_READ` -/
def genericRead : AccessMask := 0x80000000#32

/-- `GENERIC_MASK` -/
def genericMask : AccessMask := genericAll ||| genericExecute ||| genericWrite ||| genericRead

/-- `GenericMapping` -/
structure GenericMapping where
  genericRead : AccessMask
  genericWrite : AccessMask
  genericExecute : AccessMask
  genericAll : AccessMask
  deriving DecidableEq, Repr

/-- `GenericMapping::map`; a mapped right may itself be generic and is then expanded by the
tests after it. -/
def GenericMapping.map (mapping : GenericMapping) (mask : AccessMask) : AccessMask :=
  let mask := if mask &&& Security.genericRead ≠ 0 then mask ||| mapping.genericRead else mask
  let mask := if mask &&& Security.genericWrite ≠ 0 then mask ||| mapping.genericWrite else mask
  let mask :=
    if mask &&& Security.genericExecute ≠ 0 then mask ||| mapping.genericExecute else mask
  let mask := if mask &&& Security.genericAll ≠ 0 then mask ||| mapping.genericAll else mask
  mask &&& ~~~genericMask

/-! ## SIDs, tokens and descriptors -/

/-- `Sid` -/
structure Sid where
  revision : UInt8
  identifierAuthority : Vector UInt8 6
  subAuthorities : List UInt32
  deriving DecidableEq

/-- `Sid::new` -/
def Sid.new (authority : UInt8) (subAuthorities : List UInt32) : Sid :=
  ⟨1, #v[0, 0, 0, 0, 0, authority], subAuthorities⟩

/-- `Sid::is_principal_self` -/
def Sid.isPrincipalSelf (sid : Sid) : Bool :=
  decide (sid.identifierAuthority = #v[0, 0, 0, 0, 0, 5]) && decide (sid.subAuthorities = [10])

/-- `SE_GROUP_ENABLED` -/
def seGroupEnabled : BitVec 32 := 0x00000004#32

/-- `SE_GROUP_USE_FOR_DENY_ONLY` -/
def seGroupUseForDenyOnly : BitVec 32 := 0x00000010#32

/-- `TokenGroup` -/
structure TokenGroup where
  sid : Sid
  attributes : BitVec 32
  deriving DecidableEq

/-- `TokenGroup::is_enabled` -/
def TokenGroup.isEnabled (group : TokenGroup) : Bool :=
  decide (group.attributes &&& seGroupEnabled ≠ 0)

/-- `TokenGroup::is_deny_only` -/
def TokenGroup.isDenyOnly (group : TokenGroup) : Bool :=
  decide (group.attributes &&& seGroupUseForDenyOnly ≠ 0)

/-- `TokenPrivilege`, as far as the check reads it. -/
structure TokenPrivilege where
  name : String
  enabled : Bool
  deriving DecidableEq

/-- `SE_SECURITY` -/
def seSecurity : String := "SeSecurityPrivilege"

/-- `SE_TAKE_OWNERSHIP` -/
def seTakeOwnership : String := "SeTakeOwnershipPrivilege"

/-- `AccessToken`, as far as the check reads it. -/
structure AccessToken where
  user : Sid
  userAttributes : BitVec 32
  groups : List TokenGroup
  restrictedSids : List TokenGroup
  privileges : List TokenPrivilege
  deriving DecidableEq

namespace AccessToken

/-- `has_privilege` -/
def hasPrivilege (token : AccessToken) (name : String) : Bool :=
  token.privileges.any fun privilege => decide (privilege.name = name) && privilege.enabled

/-- `allow_sids` -/
def allowSids (token : AccessToken) : List Sid :=
  (if token.userAttributes &&& seGroupUseForDenyOnly = 0 then [token.user] else []) ++
    (token.groups.filter fun group => group.isEnabled && !group.isDenyOnly).map TokenGroup.sid

/-- `deny_sids` -/
def denySids (token : AccessToken) : List Sid := token.user :: token.groups.map TokenGroup.sid

/-- `restricted_allow_sids` -/
def restrictedAllowSids (token : AccessToken) : List Sid :=
  (token.restrictedSids.filter fun group => group.isEnabled && !group.isDenyOnly).map
    TokenGroup.sid

/-- `restricted_deny_sids` -/
def restrictedDenySids (token : AccessToken) : List Sid :=
  token.restrictedSids.map TokenGroup.sid

/-- `is_restricted` -/
def isRestricted (token : AccessToken) : Bool := !token.restrictedSids.isEmpty

end AccessToken

/-- `AceType` -/
inductive AceType
  | accessAllowed
  | accessDenied
  | systemAudit
  deriving DecidableEq, Repr

/-- `ObjectTypeGuid` -/
abbrev ObjectTypeGuid := Vector UInt8 16

/-- `ObjectTypeEntry` -/
structure ObjectTypeEntry where
  level : UInt16
  objectType : ObjectTypeGuid
  deriving DecidableEq

/-- `Ace` -/
structure Ace where
  aceType : AceType
  mask : AccessMask
  sid : Sid
  inheritOnly : Bool
  objectType : Option ObjectTypeGuid
  deriving DecidableEq

/-- `SecurityDescriptor`, as far as the check reads it; a `dacl` is the list of its ACEs. -/
structure SecurityDescriptor where
  owner : Option Sid
  dacl : Option (List Ace)
  deriving DecidableEq

/-- `ProcessorMode` -/
inductive ProcessorMode
  | kernelMode
  | userMode
  deriving DecidableEq, Repr

/-- The two status codes the check answers with. -/
inductive AccessStatus
  | success
  | accessDenied
  deriving DecidableEq, Repr

/-- `AccessCheckResult` -/
structure AccessCheckResult where
  status : AccessStatus
  grantedAccess : AccessMask
  privilegesUsed : List String
  deriving DecidableEq

/-! ## The walk over the ACL -/

/-- `sid_matches` -/
def sidMatches (candidates : List Sid) (aceSid : Sid) (principalSelf : Option Sid) : Bool :=
  if aceSid.isPrincipalSelf then
    match principalSelf with
    | none => false
    | some self => candidates.any fun candidate => decide (candidate = self)
  else candidates.any fun candidate => decide (candidate = aceSid)

/-- `ace_applies_to_object` -/
def aceAppliesToObject (ace : Ace) (object : Option (List ObjectTypeEntry × ℕ)) : Bool :=
  match ace.objectType, object with
  | none, _ => true
  | some _, none => true
  | some guid, some (entries, candidate) =>
    match entries.findIdx? fun entry => decide (entry.objectType = guid) with
    | none => false
    | some target =>
      if candidate = target then true
      else if candidate < target then false
      else
        match entries[target]? with
        | none => false
        | some targetEntry =>
          ((entries.take (candidate + 1)).drop (target + 1)).all fun entry =>
            decide (entry.level > targetEntry.level)

/-- The arguments of `evaluate_dacl` that do not change during the walk. -/
structure DaclQuery where
  allowSids : List Sid
  denySids : List Sid
  principalSelf : Option Sid
  object : Option (List ObjectTypeEntry × ℕ)
  want : AccessMask
  maximum : Bool
  mapping : GenericMapping

/-- The loop of `evaluate_dacl`; an error carries what had been granted. -/
def evaluateDacl (q : DaclQuery) (granted deniedBits : AccessMask) :
    List Ace → Except AccessMask AccessMask
  | [] => .ok granted
  | ace :: aces =>
    if ace.inheritOnly || !aceAppliesToObject ace q.object then
      evaluateDacl q granted deniedBits aces
    else
      let mask := q.mapping.map ace.mask
      match ace.aceType with
      | .accessDenied =>
        if sidMatches q.denySids ace.sid q.principalSelf then
          if q.maximum then evaluateDacl q granted (deniedBits ||| (mask &&& ~~~granted)) aces
          else if mask &&& q.want &&& ~~~granted ≠ 0 then .error granted
          else if q.want &&& ~~~granted = 0 then .ok granted
          else evaluateDacl q granted deniedBits aces
        else if !q.maximum && decide (q.want &&& ~~~granted = 0) then .ok granted
        else evaluateDacl q granted deniedBits aces
      | .accessAllowed =>
        let granted :=
          if sidMatches q.allowSids ace.sid q.principalSelf then
            let add := mask &&& ~~~deniedBits
            granted ||| (if q.maximum then add else add &&& q.want)
          else granted
        if !q.maximum && decide (q.want &&& ~~~granted = 0) then .ok granted
        else evaluateDacl q granted deniedBits aces
      | .systemAudit =>
        if !q.maximum && decide (q.want &&& ~~~granted = 0) then .ok granted
        else evaluateDacl q granted deniedBits aces

/-! ## The check -/

/-- `kernel_access_grant` -/
def kernelAccessGrant (desiredAccess : AccessMask) (mapping : GenericMapping) :
    AccessCheckResult :=
  { status := .success
    grantedAccess := mapping.map (desiredAccess &&& ~~~maximumAllowed) |||
      (if desiredAccess &&& maximumAllowed ≠ 0 then mapping.genericAll else 0)
    privilegesUsed := [] }

/-- `denied` -/
def denied : AccessCheckResult := ⟨.accessDenied, 0, []⟩

/-- `denied_with_partial` -/
def deniedWithPartial (grantedAccess : AccessMask) (privilegesUsed : List String)
    (preservePartial : Bool) : AccessCheckResult :=
  ⟨.accessDenied, if preservePartial then grantedAccess else 0, privilegesUsed⟩

/-- The owner test: deny-only identities do not own, and a restricted token owns through
its restricting SIDs too. -/
def tokenIsOwner (sd : SecurityDescriptor) (token : AccessToken) : Bool :=
  match sd.owner with
  | none => false
  | some owner =>
    token.allowSids.any (fun sid => decide (sid = owner)) &&
      (!token.isRestricted ||
        token.restrictedAllowSids.any fun sid => decide (sid = owner))

/-- What privileges and ownership grant before the DACL is looked at. -/
def preGranted (sd : SecurityDescriptor) (token : AccessToken) (want : AccessMask)
    (maximum : Bool) : AccessMask :=
  let granted : AccessMask := 0
  let granted :=
    if want &&& writeOwner ≠ 0 ∧ token.hasPrivilege seTakeOwnership = true then
      granted ||| writeOwner
    else granted
  let granted :=
    if want &&& accessSystemSecurity ≠ 0 then granted ||| accessSystemSecurity else granted
  let ownerRights := readControl ||| writeDac
  if tokenIsOwner sd token then granted ||| (if maximum then ownerRights else want &&& ownerRights)
  else granted

/-- The privileges reported as used. -/
def privilegesUsed (token : AccessToken) (want : AccessMask) : List String :=
  (if want &&& accessSystemSecurity ≠ 0 then [seSecurity] else []) ++
    if want &&& writeOwner ≠ 0 ∧ token.hasPrivilege seTakeOwnership = true then [seTakeOwnership]
    else []

/-- The end of the check, once the granted bits are known. -/
def conclude (want granted : AccessMask) (maximum : Bool) (used : List String)
    (preservePartial : Bool) : AccessCheckResult :=
  if maximum then
    if granted ≠ 0 ∧ want &&& ~~~granted = 0 then ⟨.success, granted, used⟩
    else deniedWithPartial granted used preservePartial
  else if want &&& ~~~granted = 0 then
    ⟨.success, if preservePartial then granted else want, used⟩
  else deniedWithPartial granted used preservePartial

/-- `access_check_internal` -/
def accessCheckInternal (sd : SecurityDescriptor) (token : AccessToken)
    (principalSelf : Option Sid) (desiredAccess : AccessMask) (mapping : GenericMapping)
    (mode : ProcessorMode) (object : Option (List ObjectTypeEntry × ℕ))
    (preservePartial : Bool) : AccessCheckResult :=
  let maximum := decide (desiredAccess &&& maximumAllowed ≠ 0)
  let want := mapping.map (desiredAccess &&& ~~~maximumAllowed)
  if mode = .kernelMode then kernelAccessGrant desiredAccess mapping
  else if desiredAccess = 0 then denied
  else if want &&& accessSystemSecurity ≠ 0 ∧ token.hasPrivilege seSecurity = false then denied
  else
    let used := privilegesUsed token want
    let granted := preGranted sd token want maximum
    match sd.dacl with
    | none =>
      conclude want (granted ||| (if maximum then mapping.genericAll ||| want else want)) maximum
        used preservePartial
    | some acl =>
      let query (allowSids denySids : List Sid) : DaclQuery :=
        { allowSids, denySids, principalSelf, object, want, maximum, mapping }
      match evaluateDacl (query token.allowSids token.denySids) granted 0 acl with
      | .error partialGrant => deniedWithPartial partialGrant used preservePartial
      | .ok ordinary =>
        if token.isRestricted then
          match evaluateDacl (query token.restrictedAllowSids token.restrictedDenySids) granted
              0 acl with
          | .error partialGrant => deniedWithPartial partialGrant used preservePartial
          | .ok restricted =>
            conclude want
              (granted ||| ((ordinary &&& ~~~granted) &&& (restricted &&& ~~~granted)))
              maximum used preservePartial
        else conclude want ordinary maximum used preservePartial

/-- `access_check` -/
def accessCheck (sd : SecurityDescriptor) (token : AccessToken) (desiredAccess : AccessMask)
    (mapping : GenericMapping) (mode : ProcessorMode) : AccessCheckResult :=
  accessCheckInternal sd token none desiredAccess mapping mode none false

/-! ## The meaning of an ACL, right by right -/

/-- The mask contains the right. -/
def hasRight (mask : AccessMask) (right : Fin 32) : Bool := mask.getLsbD right

@[simp] theorem hasRight_zero (right : Fin 32) : hasRight 0#32 right = false := by
  simp [hasRight]

@[simp] theorem hasRight_allOnes (right : Fin 32) : hasRight 4294967295#32 right = true := by
  revert right
  decide

@[simp] theorem hasRight_or (x y : AccessMask) (right : Fin 32) :
    hasRight (x ||| y) right = (hasRight x right || hasRight y right) := by
  simp [hasRight]

@[simp] theorem hasRight_and (x y : AccessMask) (right : Fin 32) :
    hasRight (x &&& y) right = (hasRight x right && hasRight y right) := by
  simp [hasRight]

@[simp] theorem hasRight_not (x : AccessMask) (right : Fin 32) :
    hasRight (~~~x) right = !hasRight x right := by
  simp [hasRight]

variable {x : AccessMask}

theorem eq_iff_hasRight {y : AccessMask} :
    x = y ↔ ∀ right : Fin 32, hasRight x right = hasRight y right := by
  constructor
  · intro h right
    rw [h]
  · intro h
    exact BitVec.eq_of_getLsbD_eq fun i hi => h ⟨i, hi⟩

theorem eq_zero_iff_hasRight : x = 0 ↔ ∀ right : Fin 32, hasRight x right = false := by
  simp [eq_iff_hasRight]

/-- Nothing of `x` is missing in `y`. -/
theorem and_not_eq_zero_iff {y : AccessMask} : x &&& ~~~y = 0 ↔
      ∀ right : Fin 32, hasRight x right = true → hasRight y right = true := by
  rw [eq_zero_iff_hasRight]
  simp

/-- The ACE says something about the right: it is an allow or deny ACE in force whose mapped
mask has the bit and whose SID is in the set for its kind. -/
def Ace.decides (allowSids denySids : List Sid) (mapping : GenericMapping) (right : Fin 32)
    (ace : Ace) : Bool :=
  !ace.inheritOnly && hasRight (mapping.map ace.mask) right &&
    match ace.aceType with
    | .accessAllowed => sidMatches allowSids ace.sid none
    | .accessDenied => sidMatches denySids ace.sid none
    | .systemAudit => false

/-- The first ACE that says something about the right allows it. -/
def allowedFor (allowSids denySids : List Sid) (mapping : GenericMapping) (aces : List Ace)
    (right : Fin 32) : Bool :=
  match aces.find? (Ace.decides allowSids denySids mapping right) with
  | some ace => decide (ace.aceType = .accessAllowed)
  | none => false

section Walk

variable {q : DaclQuery} {granted deniedBits : AccessMask} {ace : Ace} {aces : List Ace}
  {right : Fin 32} {outcome : Except AccessMask AccessMask}

/-- The query of a check without an object list, seen as a rule for rights. -/
def DaclQuery.allows (q : DaclQuery) (aces : List Ace) (right : Fin 32) : Bool :=
  allowedFor q.allowSids q.denySids q.mapping aces right

theorem DaclQuery.allows_cons : q.allows (ace :: aces) right =
    if ace.decides q.allowSids q.denySids q.mapping right then decide (ace.aceType = .accessAllowed)
    else q.allows aces right := by
  rw [allows, allowedFor, List.find?_cons]
  cases ace.decides q.allowSids q.denySids q.mapping right <;> rfl

/-- Without an object list every ACE applies. -/
theorem aceAppliesToObject_none (ace : Ace) : aceAppliesToObject ace none = true := by
  unfold aceAppliesToObject
  cases ace.objectType <;> rfl

/-- The same for any query: the ACE must apply to the object in question, and the self SID
stands for its principal. -/
def DaclQuery.decides (q : DaclQuery) (right : Fin 32) (ace : Ace) : Bool :=
  !ace.inheritOnly && aceAppliesToObject ace q.object &&
    hasRight (q.mapping.map ace.mask) right &&
    match ace.aceType with
    | .accessAllowed => sidMatches q.allowSids ace.sid q.principalSelf
    | .accessDenied => sidMatches q.denySids ace.sid q.principalSelf
    | .systemAudit => false

/-- The first ACE that says something about the right in this query allows it. -/
def DaclQuery.firstAllows (q : DaclQuery) (aces : List Ace) (right : Fin 32) : Bool :=
  match aces.find? (q.decides right) with
  | some ace => decide (ace.aceType = .accessAllowed)
  | none => false

/-- Without an object list and a self SID the two readings agree. -/
theorem DaclQuery.firstAllows_eq_allows (hself : q.principalSelf = none)
    (hobject : q.object = none) : q.firstAllows aces right = q.allows aces right := by
  have hdecides : q.decides right = Ace.decides q.allowSids q.denySids q.mapping right := by
    funext ace
    simp [decides, Ace.decides, hself, hobject, aceAppliesToObject_none]
  rw [firstAllows, allows, allowedFor, hdecides]

/-- A right is granted if it was, or if it has not been denied and the remaining ACEs allow it. -/
def MaximumOutcome (allows : Fin 32 → Bool) (granted deniedBits : AccessMask)
    (outcome : Except AccessMask AccessMask) : Prop :=
  ∃ result, outcome = .ok result ∧ ∀ right : Fin 32, hasRight result right =
    (hasRight granted right || (!hasRight deniedBits right && allows right))

open DaclQuery

/-- The walk for `MAXIMUM_ALLOWED`. -/
theorem evaluateDacl_first (hmaximum : q.maximum = true) (granted deniedBits : AccessMask)
    (aces : List Ace) : MaximumOutcome (q.firstAllows aces) granted deniedBits
      (evaluateDacl q granted deniedBits aces) := by
  induction aces generalizing granted deniedBits with
  | nil =>
    refine ⟨granted, rfl, fun right => ?_⟩
    simp [firstAllows]
  | cons ace aces ih =>
    -- the walk goes on with masks that hold what the ACE decides
    have hwalk : ∀ g d outcome, outcome = evaluateDacl q g d aces →
        (∀ right rest, (hasRight g right || (!hasRight d right && rest)) =
          (hasRight granted right || (!hasRight deniedBits right &&
            if q.decides right ace then decide (ace.aceType = .accessAllowed) else rest))) →
        MaximumOutcome (q.firstAllows (ace :: aces)) granted deniedBits outcome := by
      intro g d outcome houtcome hmasks
      obtain ⟨result, hresult, hbits⟩ := ih g d
      refine ⟨result, houtcome.trans hresult, fun right => ?_⟩
      rw [hbits, hmasks, firstAllows, firstAllows, List.find?_cons]
      cases q.decides right ace <;> rfl
    rw [evaluateDacl]
    by_cases hout : (ace.inheritOnly || !aceAppliesToObject ace q.object) = true
    · refine hwalk _ _ _ (if_pos hout) fun right rest => ?_
      rcases Bool.or_eq_true_iff.mp hout with h | h
      · simp [decides, h]
      · simp [decides, (Bool.not_eq_true' _).mp h]
    · rw [if_neg hout]
      obtain ⟨hinherit, happlies⟩ : ace.inheritOnly = false ∧
          aceAppliesToObject ace q.object = true := by simpa using hout
      simp only [hmaximum]
      cases htype : ace.aceType with
      | accessDenied =>
        cases hsid : sidMatches q.denySids ace.sid q.principalSelf with
        | true =>
          refine hwalk _ _ _ rfl fun right rest => ?_
          cases hmask : hasRight (q.mapping.map ace.mask) right <;>
            cases hg : hasRight granted right <;>
            simp [decides, hinherit, happlies, htype, hsid, hmask, hg]
        | false => exact hwalk _ _ _ rfl fun right rest => by simp [decides, htype, hsid]
      | accessAllowed =>
        cases hsid : sidMatches q.allowSids ace.sid q.principalSelf with
        | true =>
          refine hwalk _ _ _ rfl fun right rest => ?_
          cases hmask : hasRight (q.mapping.map ace.mask) right <;>
            cases hd : hasRight deniedBits right <;>
            simp [decides, hinherit, happlies, htype, hsid, hmask, hd]
        | false => exact hwalk _ _ _ rfl fun right rest => by simp [decides, htype, hsid]
      | systemAudit => exact hwalk _ _ _ rfl fun right rest => by simp [decides, htype]

/-- What a plain walk with some rights granted can come to: every wanted right is granted
as the ACEs say, or a wanted right is missing that they do not allow. -/
def PlainOutcome (q : DaclQuery) (granted : AccessMask) (aces : List Ace)
    (outcome : Except AccessMask AccessMask) : Prop :=
  (∃ result, outcome = .ok result ∧ ∀ right : Fin 32, hasRight result right =
    (hasRight granted right || (hasRight q.want right && q.allows aces right))) ∨
  ∃ partialGrant, outcome = .error partialGrant ∧ ∃ right : Fin 32,
    hasRight q.want right = true ∧ hasRight granted right = false ∧
      q.allows aces right = false

/-- Stopping when nothing is missing: the ACEs not looked at could only repeat a grant. -/
theorem PlainOutcome.stop (hdone : q.want &&& ~~~granted = 0) :
    PlainOutcome q granted aces (.ok granted) := by
  refine Or.inl ⟨granted, rfl, fun right => ?_⟩
  have hgranted := and_not_eq_zero_iff.mp hdone right
  cases hwant : hasRight q.want right with
  | false => simp
  | true => simp [hgranted hwant]

/-- An ACE is put before the rest of the walk. -/
theorem PlainOutcome.cons {granted' : AccessMask} (h : PlainOutcome q granted' aces outcome)
    (hwanted : ∀ right : Fin 32, hasRight q.want right = true →
      (hasRight granted' right || q.allows aces right) =
        (hasRight granted right || q.allows (ace :: aces) right))
    (hother : ∀ right : Fin 32, hasRight q.want right = false →
      hasRight granted' right = hasRight granted right) :
    PlainOutcome q granted (ace :: aces) outcome := by
  rcases h with ⟨result, hresult, hbits⟩ | ⟨partialGrant, hsome, right, hwant, hmissing, hnot⟩
  · refine Or.inl ⟨result, hresult, fun right => ?_⟩
    rw [hbits]
    cases hwant : hasRight q.want right with
    | true => simpa using hwanted right hwant
    | false => simpa using hother right hwant
  · have hsame := hwanted right hwant
    rw [hmissing, hnot, Bool.or_self, eq_comm, Bool.or_eq_false_iff] at hsame
    exact Or.inr ⟨partialGrant, hsome, right, hwant, hsame.1, hsame.2⟩

/-- An ACE that decides nothing is passed over. -/
theorem PlainOutcome.skip (h : PlainOutcome q granted aces outcome)
    (hsilent : ∀ right, ace.decides q.allowSids q.denySids q.mapping right = false) :
    PlainOutcome q granted (ace :: aces) outcome := by
  refine h.cons (fun right _ => ?_) fun _ _ => rfl
  rw [allows_cons, hsilent right, if_neg Bool.false_ne_true]

/-- An ACE that denies a right still missing ends the walk. -/
theorem PlainOutcome.denied (h : PlainOutcome q granted aces outcome)
    (hinherit : ace.inheritOnly = false) (htype : ace.aceType = .accessDenied)
    (hsid : sidMatches q.denySids ace.sid none = true) : PlainOutcome q granted (ace :: aces)
      (if q.mapping.map ace.mask &&& q.want &&& ~~~granted ≠ 0 then .error granted
        else outcome) := by
  by_cases hhit : q.mapping.map ace.mask &&& q.want &&& ~~~granted = 0
  · rw [if_neg (not_not.mpr hhit)]
    refine h.cons (fun right hwant => ?_) fun _ _ => rfl
    cases hdecides : ace.decides q.allowSids q.denySids q.mapping right with
    | false => rw [allows_cons, hdecides, if_neg Bool.false_ne_true]
    | true =>
      have hmask : hasRight (q.mapping.map ace.mask) right = true := by
        simpa [Ace.decides, hinherit, htype, hsid] using hdecides
      have hgranted := and_not_eq_zero_iff.mp hhit right (by simp [hmask, hwant])
      simp [hgranted]
  · rw [if_pos hhit]
    obtain ⟨right, hright⟩ : ∃ right, ¬ (hasRight (q.mapping.map ace.mask &&& q.want)
        right = true → hasRight granted right = true) := by
      rw [and_not_eq_zero_iff] at hhit
      exact not_forall.mp hhit
    simp only [hasRight_and, Bool.and_eq_true, Classical.not_imp, Bool.not_eq_true] at hright
    obtain ⟨⟨hmask, hwant⟩, hmissing⟩ := hright
    refine Or.inr ⟨granted, rfl, right, hwant, hmissing, ?_⟩
    simp [allows_cons, Ace.decides, hinherit, htype, hsid, hmask]

/-- The walk for a plain request. -/
theorem evaluateDacl_plain (hself : q.principalSelf = none) (hobject : q.object = none)
    (hmaximum : q.maximum = false) (granted : AccessMask) (aces : List Ace) :
    PlainOutcome q granted aces (evaluateDacl q granted 0 aces) := by
  induction aces generalizing granted with
  | nil =>
    refine Or.inl ⟨granted, rfl, fun right => ?_⟩
    simp [allows, allowedFor]
  | cons ace aces ih =>
    -- After an ACE the walk stops or goes on.
    have hgoOn : ∀ granted : AccessMask, PlainOutcome q granted aces
        (if q.want &&& ~~~granted = 0 then .ok granted else evaluateDacl q granted 0 aces) := by
      intro granted
      split
      · exact PlainOutcome.stop ‹_›
      · exact ih granted
    rw [evaluateDacl, hobject, aceAppliesToObject_none]
    cases hinherit : ace.inheritOnly with
    | true =>
      exact (ih granted).skip fun right => by simp [Ace.decides, hinherit]
    | false =>
      simp only [hself, hmaximum, Bool.not_false, Bool.true_and, decide_eq_true_eq]
      cases htype : ace.aceType with
      | accessDenied =>
        cases hsid : sidMatches q.denySids ace.sid none with
        | true =>
          exact (hgoOn granted).denied hinherit htype hsid
        | false =>
          exact (hgoOn granted).skip fun right => by simp [Ace.decides, htype, hsid]
      | accessAllowed =>
        cases hsid : sidMatches q.allowSids ace.sid none with
        | true =>
          refine (hgoOn _).cons (fun right hwant => ?_) fun right hwant => ?_
          · rw [allows_cons]
            cases hmask : hasRight (q.mapping.map ace.mask) right <;>
              simp [Ace.decides, hinherit, htype, hsid, hmask, hwant]
          · simp [hwant]
        | false =>
          exact (hgoOn granted).skip fun right => by simp [Ace.decides, htype, hsid]
      | systemAudit => exact (hgoOn granted).skip fun right => by simp [Ace.decides, htype]

end Walk

/-! ## The result of the check -/

/-- The privilege and ownership rules: the take-ownership privilege covers a wanted
`WRITE_OWNER`, the security privilege a wanted `ACCESS_SYSTEM_SECURITY`, and ownership
`READ_CONTROL` and `WRITE_DAC` if they are wanted or the maximum is. -/
def PreGranted (sd : SecurityDescriptor) (token : AccessToken) (want : AccessMask)
    (maximum : Bool) (right : Fin 32) : Prop :=
  (hasRight writeOwner right = true ∧ hasRight want right = true ∧
      token.hasPrivilege seTakeOwnership = true) ∨
    (hasRight accessSystemSecurity right = true ∧ hasRight want right = true ∧
      token.hasPrivilege seSecurity = true) ∨
    (hasRight (readControl ||| writeDac) right = true ∧
      (maximum = true ∨ hasRight want right = true) ∧ tokenIsOwner sd token = true)

/-- The DACL allows the right for the ordinary SIDs of the token and, if the token is
restricted, for its restricting SIDs. -/
def DaclAllows (token : AccessToken) (mapping : GenericMapping) (aces : List Ace)
    (right : Fin 32) : Prop :=
  allowedFor token.allowSids token.denySids mapping aces right = true ∧
    (token.isRestricted = true →
      allowedFor token.restrictedAllowSids token.restrictedDenySids mapping aces right = true)

/-- The right is obtained from the rules or from the DACL. -/
def Obtained (sd : SecurityDescriptor) (token : AccessToken) (mapping : GenericMapping)
    (want : AccessMask) (maximum : Bool) (aces : List Ace) (right : Fin 32) : Prop :=
  PreGranted sd token want maximum right ∨ DaclAllows token mapping aces right

/-- A wanted `ACCESS_SYSTEM_SECURITY` needs the security privilege, whatever the DACL says. -/
def SecurityGate (token : AccessToken) (want : AccessMask) : Prop :=
  want &&& accessSystemSecurity ≠ 0 → token.hasPrivilege seSecurity = true

/-- A mask with one bit is hit as a whole. -/
theorem and_ne_zero_iff_of_single {bit : Fin 32} {mask : AccessMask}
    (hmask : ∀ right : Fin 32, hasRight mask right = decide (right = bit)) (want : AccessMask) :
    want &&& mask ≠ 0 ↔ hasRight want bit = true := by
  rw [Ne, eq_zero_iff_hasRight]
  simp [hmask]

theorem hasRight_writeOwner (right : Fin 32) : hasRight writeOwner right = decide (right = 19) := by
  revert right
  decide

theorem hasRight_accessSystemSecurity (right : Fin 32) :
    hasRight accessSystemSecurity right = decide (right = 24) := by
  revert right
  decide

/-- A mask of one right that is granted if it is wanted. -/
theorem hasRight_ite_single {mask want : AccessMask} {bit right : Fin 32} {P : Prop} [Decidable P]
    (hmask : ∀ right, hasRight mask right = decide (right = bit)) :
    hasRight (if want &&& mask ≠ 0 ∧ P then mask else 0) right = true ↔
      hasRight mask right = true ∧ hasRight want right = true ∧ P := by
  simp only [and_ne_zero_iff_of_single hmask, hmask, decide_eq_true_eq]
  split
  case isTrue h => simpa [hmask] using fun hbit => hbit ▸ h
  case isFalse h => simpa using fun hbit => hbit ▸ fun hwant hP => h ⟨hwant, hP⟩

/-- Past the gate the computed mask holds the rights of the rules. -/
theorem hasRight_preGranted {token : AccessToken} {want : AccessMask}
    (hgate : SecurityGate token want) (sd : SecurityDescriptor) (maximum : Bool) (right : Fin 32) :
    hasRight (preGranted sd token want maximum) right = true ↔
      PreGranted sd token want maximum right := by
  have hrights : hasRight (if tokenIsOwner sd token then
        (if maximum then readControl ||| writeDac else want &&& (readControl ||| writeDac)) else 0)
        right = true ↔
      hasRight (readControl ||| writeDac) right = true ∧
        (maximum = true ∨ hasRight want right = true) ∧ tokenIsOwner sd token = true := by
    cases tokenIsOwner sd token with
    | false => simp
    | true => cases maximum <;> simp [and_comm]
  have hparts : preGranted sd token want maximum =
      (if want &&& writeOwner ≠ 0 ∧ token.hasPrivilege seTakeOwnership = true then writeOwner
        else 0) |||
      (if want &&& accessSystemSecurity ≠ 0 ∧ token.hasPrivilege seSecurity = true then
        accessSystemSecurity else 0) |||
      (if tokenIsOwner sd token then
        (if maximum then readControl ||| writeDac else want &&& (readControl ||| writeDac))
        else 0) := by
    rw [if_congr (and_iff_left_of_imp hgate) rfl rfl, preGranted]
    split_ifs <;> simp
  rw [hparts, hasRight_or, hasRight_or, Bool.or_eq_true, Bool.or_eq_true,
    hasRight_ite_single hasRight_writeOwner, hasRight_ite_single hasRight_accessSystemSecurity,
    hrights, or_assoc]
  rfl

/-- The walk in either mode: it grants what was granted before and what the ACEs allow of the
rights in question, or it ends early because a wanted right is missing and not allowed. -/
theorem evaluateDacl_spec (q : DaclQuery) (hself : q.principalSelf = none)
    (hobject : q.object = none) (granted : AccessMask) (aces : List Ace) :
    (∃ result, evaluateDacl q granted 0 aces = .ok result ∧ ∀ right : Fin 32,
      hasRight result right = (hasRight granted right ||
        ((q.maximum || hasRight q.want right) && q.allows aces right))) ∨
    (∃ partialGrant, evaluateDacl q granted 0 aces = .error partialGrant ∧ q.maximum = false ∧
      ∃ right : Fin 32, hasRight q.want right = true ∧ hasRight granted right = false ∧
        q.allows aces right = false) := by
  cases hmaximum : q.maximum with
  | true =>
    obtain ⟨result, hresult, hbits⟩ := evaluateDacl_first hmaximum granted 0 aces
    refine Or.inl ⟨result, hresult, fun right => ?_⟩
    rw [hbits, DaclQuery.firstAllows_eq_allows hself hobject]
    simp
  | false =>
    rcases evaluateDacl_plain hself hobject hmaximum granted aces with
      ⟨result, hresult, hbits⟩ | ⟨partialGrant, hsome, hright⟩
    · exact Or.inl ⟨result, hresult, fun right => by simpa using hbits right⟩
    · exact Or.inr ⟨partialGrant, hsome, rfl, hright⟩

section Result

variable {sd : SecurityDescriptor} {token : AccessToken} {mapping : GenericMapping}
  {desired want granted : AccessMask} {maximum : Bool} {used : List String}

theorem accessCheck_of_not_gate (hdesired : desired ≠ 0)
    (hwant : want = mapping.map (desired &&& ~~~maximumAllowed))
    (hgate : ¬ SecurityGate token want) :
    accessCheck sd token desired mapping .userMode = denied := by
  have hfail : want &&& accessSystemSecurity ≠ 0 ∧ token.hasPrivilege seSecurity = false := by
    simpa [SecurityGate] using hgate
  simp only [accessCheck, accessCheckInternal, ← hwant, reduceCtorEq, if_false, if_neg hdesired,
    if_pos hfail]

/-- The two kinds of requests end alike. -/
theorem conclude_eq : conclude want granted maximum used false =
    if (maximum = true → granted ≠ 0) ∧ want &&& ~~~granted = 0 then
      ⟨.success, if maximum then granted else want, used⟩
    else ⟨.accessDenied, 0, used⟩ := by
  cases maximum <;> simp [conclude, deniedWithPartial]

theorem status_conclude : (conclude want granted maximum used false).status = .success ↔
      (maximum = true → granted ≠ 0) ∧ want &&& ~~~granted = 0 := by
  rw [conclude_eq]
  split
  case isTrue h => exact iff_of_true rfl h
  case isFalse h => exact iff_of_false AccessStatus.noConfusion h

theorem grantedAccess_conclude (h : (conclude want granted maximum used false).status = .success) :
    (conclude want granted maximum used false).grantedAccess =
      if maximum then granted else want := by
  rw [conclude_eq, if_pos (status_conclude.mp h)]

end Result

/-- The right is granted by the rules or by the DACL; without a DACL everything is. -/
def Grants (sd : SecurityDescriptor) (token : AccessToken) (mapping : GenericMapping)
    (want : AccessMask) (maximum : Bool) (right : Fin 32) : Prop :=
  PreGranted sd token want maximum right ∨
    match sd.dacl with
    | none => hasRight (if maximum then mapping.genericAll ||| want else want) right = true
    | some aces => (maximum = true ∨ hasRight want right = true) ∧
        DaclAllows token mapping aces right

section Check

variable {sd : SecurityDescriptor} {token : AccessToken} {mapping : GenericMapping}
  {desired want : AccessMask} {maximum : Bool}

/-- The check past the gate, with or without a DACL. -/
theorem accessCheck_grants (sd : SecurityDescriptor) (hdesired : desired ≠ 0)
    (hwant : want = mapping.map (desired &&& ~~~maximumAllowed))
    (hmaximum : maximum = decide (desired &&& maximumAllowed ≠ 0))
    (hgate : SecurityGate token want) : (∃ granted, accessCheck sd token desired mapping .userMode =
        conclude want granted maximum (privilegesUsed token want) false ∧
      ∀ right : Fin 32, hasRight granted right = true ↔
        Grants sd token mapping want maximum right) ∨
    (∃ partialGrant, accessCheck sd token desired mapping .userMode =
        deniedWithPartial partialGrant (privilegesUsed token want) false ∧ maximum = false ∧
      ∃ right : Fin 32, hasRight want right = true ∧
        ¬ Grants sd token mapping want maximum right) := by
  have hpass : ¬ (want &&& accessSystemSecurity ≠ 0 ∧ token.hasPrivilege seSecurity = false) :=
    fun h => Bool.false_ne_true (h.2.symm.trans (hgate h.1))
  have hpre := hasRight_preGranted hgate sd maximum
  simp only [accessCheck, accessCheckInternal, ← hwant, ← hmaximum, if_neg hdesired, if_neg hpass]
  cases hdacl : sd.dacl with
  | none =>
    refine .inl ⟨_, rfl, fun right => ?_⟩
    rw [hasRight_or, Bool.or_eq_true, hpre]
    simp only [Grants, hdacl]
  | some aces =>
    have hstage : ∀ allowSids denySids : List Sid, _ := fun allowSids denySids =>
      evaluateDacl_spec ⟨allowSids, denySids, none, none, want, maximum, mapping⟩ rfl rfl
        (preGranted sd token want maximum) aces
    -- a right that one of the walks leaves missing is not granted
    have hungranted : ∀ {right}, hasRight (preGranted sd token want maximum) right = false →
        ¬ DaclAllows token mapping aces right → ¬ Grants sd token mapping want maximum right := by
      intro right hmissing hnot hgrants
      simp only [Grants, hdacl, ← hpre, hmissing, Bool.false_eq_true, false_or] at hgrants
      exact hnot hgrants.2
    rcases hstage token.allowSids token.denySids with
      ⟨ordinary, hordinary, hobits⟩ | ⟨partialGrant, hsome, hplain, right, hright, hmissing, hnot⟩
    · simp only [hordinary]
      cases hrestricted : token.isRestricted with
      | false =>
        refine .inl ⟨ordinary, by simp, fun right => ?_⟩
        rw [hobits, Bool.or_eq_true, hpre]
        simp [Grants, hdacl, DaclAllows, hrestricted, DaclQuery.allows]
      | true =>
        rcases hstage token.restrictedAllowSids token.restrictedDenySids with
          ⟨restricted, hrestrictedRun, hrbits⟩ |
          ⟨partialGrant, hsome, hplain, right, hright, hmissing, hnot⟩
        · rw [hrestrictedRun]
          refine .inl ⟨_, rfl, fun right => ?_⟩
          simp only [hasRight_or, hasRight_and, hasRight_not, hobits, hrbits]
          simp only [Grants, hdacl]
          rw [← hpre]
          cases hasRight (preGranted sd token want maximum) right with
          | true => simp
          | false => simp [DaclAllows]; tauto
        · rw [hsome]
          refine .inr ⟨partialGrant, by simp, hplain, right, hright, hungranted hmissing ?_⟩
          exact fun hallowed => Bool.false_ne_true (hnot.symm.trans (hallowed.2 hrestricted))
    · simp only [hsome]
      refine .inr ⟨partialGrant, by simp, hplain, right, hright, hungranted hmissing ?_⟩
      exact fun hallowed => Bool.false_ne_true (hnot.symm.trans hallowed.1)

section

variable (hdesired : desired ≠ 0) (hwant : want = mapping.map (desired &&& ~~~maximumAllowed))
include hdesired hwant

/-- A user-mode check succeeds if every wanted right is granted, and the maximum only if there
is any. -/
theorem accessCheck_success_iff (hmaximum : maximum = decide (desired &&& maximumAllowed ≠ 0)) :
    (accessCheck sd token desired mapping .userMode).status = .success ↔ SecurityGate token want ∧
        (maximum = true → ∃ right, Grants sd token mapping want maximum right) ∧
        ∀ right : Fin 32, hasRight want right = true →
          Grants sd token mapping want maximum right := by
  by_cases hgate : SecurityGate token want
  · rw [and_iff_right hgate]
    rcases accessCheck_grants sd hdesired hwant hmaximum hgate with
      ⟨granted, hresult, hbits⟩ | ⟨partialGrant, hresult, hplain, right, hright, hnot⟩
    · rw [hresult, status_conclude, and_not_eq_zero_iff, Ne, eq_zero_iff_hasRight]
      simp only [hbits, not_forall, Bool.not_eq_false]
    · rw [hresult]
      refine iff_of_false AccessStatus.noConfusion fun hall => hnot (hall.2 right hright)
  · rw [accessCheck_of_not_gate hdesired hwant hgate]
    exact iff_of_false AccessStatus.noConfusion fun hall => hgate hall.1

theorem hasRight_grantedAccess (hmaximum : desired &&& maximumAllowed ≠ 0)
    (hsuccess : (accessCheck sd token desired mapping .userMode).status = .success)
    (right : Fin 32) :
    hasRight (accessCheck sd token desired mapping .userMode).grantedAccess right = true ↔
      Grants sd token mapping want true right := by
  have htrue : true = decide (desired &&& maximumAllowed ≠ 0) := (decide_eq_true hmaximum).symm
  have hgate := ((accessCheck_success_iff hdesired hwant htrue).mp hsuccess).1
  rcases accessCheck_grants sd hdesired hwant htrue hgate with
    ⟨granted, hresult, hbits⟩ | ⟨-, -, hplain, -⟩
  · rw [hresult] at hsuccess ⊢
    rw [grantedAccess_conclude hsuccess, if_pos rfl, hbits]
  · cases hplain

theorem grantedAccess_plain (hplain : desired &&& maximumAllowed = 0)
    (hsuccess : (accessCheck sd token desired mapping .userMode).status = .success) :
    (accessCheck sd token desired mapping .userMode).grantedAccess = want := by
  have hfalse : false = decide (desired &&& maximumAllowed ≠ 0) :=
    (decide_eq_false (not_not.mpr hplain)).symm
  have hgate := ((accessCheck_success_iff hdesired hwant hfalse).mp hsuccess).1
  rcases accessCheck_grants sd hdesired hwant hfalse hgate with
    ⟨granted, hresult, -⟩ | ⟨partialGrant, hresult, -⟩
  · rw [hresult] at hsuccess ⊢
    exact grantedAccess_conclude hsuccess
  · rw [hresult] at hsuccess
    cases hsuccess

end

theorem grantedAccess_of_not_success
    (hdenied : (accessCheck sd token desired mapping .userMode).status ≠ .success) :
    (accessCheck sd token desired mapping .userMode).grantedAccess = 0 := by
  by_cases hdesired : desired = 0
  · simp [accessCheck, accessCheckInternal, hdesired, denied]
  by_cases hgate : SecurityGate token (mapping.map (desired &&& ~~~maximumAllowed))
  · rcases accessCheck_grants sd hdesired rfl rfl hgate with
      ⟨granted, hresult, -⟩ | ⟨partialGrant, hresult, -⟩
    · rw [hresult] at hdenied ⊢
      rw [conclude_eq, if_neg (status_conclude.not.mp hdenied)]
    · rw [hresult]
      rfl
  · rw [accessCheck_of_not_gate hdesired rfl hgate]
    rfl

end Check

/-- The rule that takes only wanted rights as covered by privileges and ownership, and asks
for no privilege beyond it. -/
def WantedAndCovered (sd : SecurityDescriptor) (token : AccessToken) (want : AccessMask)
    (right : Fin 32) : Prop :=
  hasRight want right = true ∧
    ((hasRight writeOwner right = true ∧ token.hasPrivilege seTakeOwnership = true) ∨
      (hasRight accessSystemSecurity right = true ∧ token.hasPrivilege seSecurity = true) ∨
      (hasRight (readControl ||| writeDac) right = true ∧ tokenIsOwner sd token = true))

/-- Everyone, without groups and privileges. -/
def plainToken : AccessToken := ⟨.new 1 [0], 0, [], [], []⟩

/-- No right is generic. -/
def trivialMapping : GenericMapping := ⟨0, 0, 0, 0⟩

/-- A DACL that allows `ACCESS_SYSTEM_SECURITY` to everyone does not grant it, although the
first ACE about every wanted right allows it; and an owner who asks for the maximum under an
empty DACL obtains two rights that were not wanted. -/
theorem system_security_needs_privilege_and_owner_maximum :
    ((∀ right : Fin 32, hasRight accessSystemSecurity right = true →
        allowedFor plainToken.allowSids plainToken.denySids trivialMapping
          [⟨.accessAllowed, accessSystemSecurity, .new 1 [0], false, none⟩] right = true) ∧
      (accessCheck ⟨none, some [⟨.accessAllowed, accessSystemSecurity, .new 1 [0], false, none⟩]⟩
        plainToken accessSystemSecurity trivialMapping .userMode).status = .accessDenied) ∧
    ((∀ right : Fin 32, ¬ WantedAndCovered ⟨some (.new 1 [0]), some []⟩ plainToken 0 right) ∧
      accessCheck ⟨some (.new 1 [0]), some []⟩ plainToken maximumAllowed trivialMapping .userMode =
        ⟨.success, readControl ||| writeDac, []⟩) := by
  refine ⟨⟨by decide, by decide⟩, ⟨?_, by decide⟩⟩
  rintro right ⟨hwant, -⟩
  rw [show hasRight 0 right = false from hasRight_zero right] at hwant
  cases hwant

/-- **The access check.**  For a user-mode request against a DACL: past the gate for
`ACCESS_SYSTEM_SECURITY`, a plain request succeeds exactly if every wanted right is obtained,
and then grants the wanted rights; a request for the maximum grants exactly the rights
obtained and succeeds if there is one and they cover the wanted ones.  A refusal grants
nothing. -/
theorem accessCheck_meaning (sd : SecurityDescriptor) (token : AccessToken)
    (mapping : GenericMapping) (desired : AccessMask) (aces : List Ace)
    (hdacl : sd.dacl = some aces) (hdesired : desired ≠ 0) :
    let want := mapping.map (desired &&& ~~~maximumAllowed)
    let result := accessCheck sd token desired mapping .userMode
    (desired &&& maximumAllowed = 0 →
      (result.status = .success ↔ SecurityGate token want ∧ ∀ right : Fin 32,
        hasRight want right = true → Obtained sd token mapping want false aces right) ∧
      (result.status = .success → result.grantedAccess = want)) ∧
    (desired &&& maximumAllowed ≠ 0 →
      (result.status = .success ↔ SecurityGate token want ∧
        (∃ right, Obtained sd token mapping want true aces right) ∧
        ∀ right : Fin 32, hasRight want right = true →
          Obtained sd token mapping want true aces right) ∧
      (result.status = .success → ∀ right : Fin 32,
        hasRight result.grantedAccess right = true ↔
          Obtained sd token mapping want true aces right)) ∧
    (result.status ≠ .success → result.grantedAccess = 0) := by
  intro want result
  -- a right that is in question is granted if it is obtained
  have hgrants : ∀ {maximum right}, maximum = true ∨ hasRight want right = true →
      (Grants sd token mapping want maximum right ↔
        Obtained sd token mapping want maximum aces right) := by
    intro maximum right hasked
    simp only [Grants, hdacl, Obtained, and_iff_right hasked]
  refine ⟨fun hplain => ⟨?_, grantedAccess_plain hdesired rfl hplain⟩,
    fun hmax => ⟨?_, fun hsuccess right => ?_⟩, grantedAccess_of_not_success⟩
  · rw [accessCheck_success_iff hdesired rfl (decide_eq_false (not_not.mpr hplain)).symm]
    simp only [Bool.false_eq_true, false_implies, true_and]
    exact and_congr_right fun _ =>
      forall_congr' fun right => imp_congr_right fun hright => hgrants (.inr hright)
  · rw [accessCheck_success_iff hdesired rfl (decide_eq_true hmax).symm]
    simp only [forall_const]
    exact and_congr_right fun _ => and_congr (exists_congr fun right => hgrants (.inl rfl))
      (forall_congr' fun right => imp_congr_right fun _ => hgrants (.inl rfl))
  · exact (hasRight_grantedAccess hdesired rfl hmax hsuccess right).trans (hgrants (.inl rfl))

/-- A member of a group that may read, asking for that right and for the maximum. -/
theorem accessCheck_meaning_reader :
    let sd : SecurityDescriptor := ⟨none, some [⟨.accessDenied, 2#32, .new 1 [0], false, none⟩,
        ⟨.accessAllowed, 3#32, .new 1 [0], false, none⟩]⟩
    (accessCheck sd plainToken 1#32 trivialMapping .userMode = ⟨.success, 1#32, []⟩ ∧
      accessCheck sd plainToken maximumAllowed trivialMapping .userMode = ⟨.success, 1#32, []⟩) ∧
    (∀ right : Fin 32, hasRight (trivialMapping.map (1#32 &&& ~~~maximumAllowed)) right = true →
      Obtained sd plainToken trivialMapping (trivialMapping.map (1#32 &&& ~~~maximumAllowed)) false
        [⟨.accessDenied, 2#32, .new 1 [0], false, none⟩,
          ⟨.accessAllowed, 3#32, .new 1 [0], false, none⟩] right) := by
  intro sd
  refine ⟨⟨by decide, by decide⟩, ?_⟩
  have hmeaning := (accessCheck_meaning sd plainToken trivialMapping 1#32 _ rfl (by decide)).1
    (by decide)
  exact (hmeaning.1.mp (by decide)).2

end UserspaceNtos.Security
