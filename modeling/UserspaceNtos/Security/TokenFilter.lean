import UserspaceNtos.Security.AccessCheck

/-!
# Token filtering

`filter_access_token` builds a restricted token: it makes SIDs deny-only, deletes
privileges and adds restricting SIDs.  The question is whether the access check can grant
the filtered token anything that it does not grant the source.

Both checks walk the same ACL, so they are compared through the SIDs that can match an ACE:
`allowedFor_mono` says that fewer allowing and more denying SIDs allow less, whatever the
order of the ACEs.  Everything filtering does is of that kind except one thing.  A token
that is restricted already gets the new restricting SIDs *beside* the old ones, and the
second walk then has more SIDs to allow it.  `filterAccessToken_neverRaises_iff` says
exactly when that does no harm.
-/

namespace UserspaceNtos.Security

open List

/-! ## The filter -/

/-- `SE_GROUP_MANDATORY` -/
def seGroupMandatory : BitVec 32 := 0x00000001#32

/-- `SE_GROUP_ENABLED_BY_DEFAULT` -/
def seGroupEnabledByDefault : BitVec 32 := 0x00000002#32

/-- `SE_CHANGE_NOTIFY` -/
def seChangeNotify : String := "SeChangeNotifyPrivilege"

/-- `DISABLE_MAX_PRIVILEGE` -/
def disableMaxPrivilege : BitVec 32 := 0x00000001#32

/-- `SANDBOX_INERT` -/
def sandboxInertFlag : BitVec 32 := 0x00000002#32

/-- `TOKEN_FILTER_VALID_FLAGS` -/
def tokenFilterValidFlags : BitVec 32 := disableMaxPrivilege ||| sandboxInertFlag

/-- `Luid` -/
structure Luid where
  low : UInt32
  high : Int32
  deriving DecidableEq

/-- `TokenPrivilege` with the identifier that requests name it by. -/
structure LuidPrivilege extends TokenPrivilege where
  luid : Luid
  deriving DecidableEq

/-- `AccessToken`, as far as filtering reads or writes it. -/
structure TokenBody where
  user : Sid
  userAttributes : BitVec 32
  groups : List TokenGroup
  restrictedSids : List TokenGroup
  privileges : List LuidPrivilege
  owner : Sid
  sandboxInert : Bool
  deriving DecidableEq

/-- The token as the access check sees it. -/
def TokenBody.accessToken (t : TokenBody) : AccessToken where
  user := t.user
  userAttributes := t.userAttributes
  groups := t.groups
  restrictedSids := t.restrictedSids
  privileges := t.privileges.map LuidPrivilege.toTokenPrivilege

/-- `TokenFilterRequest` -/
structure TokenFilterRequest where
  flags : BitVec 32
  sidsToDisable : List (Sid × BitVec 32)
  privilegesToDelete : List (Luid × BitVec 32)
  restrictedSids : List (Sid × BitVec 32)

/-- The request names the SID as one to disable. -/
def TokenFilterRequest.disables (request : TokenFilterRequest) (sid : Sid) : Bool :=
  request.sidsToDisable.any fun entry => decide (entry.1 = sid)

/-- The attributes of a deny-only entry. -/
def denyOnlyAttributes (attributes : BitVec 32) : BitVec 32 :=
  attributes &&& ~~~(seGroupEnabled ||| seGroupEnabledByDefault) ||| seGroupUseForDenyOnly

/-- `TokenGroup::make_deny_only` -/
def TokenGroup.makeDenyOnly (group : TokenGroup) : TokenGroup :=
  { group with attributes := denyOnlyAttributes group.attributes }

namespace TokenBody

/-- The user becomes deny-only if the request names it. -/
def disableUser (t : TokenBody) (request : TokenFilterRequest) : TokenBody :=
  if request.disables t.user then
    { t with userAttributes := denyOnlyAttributes t.userAttributes }
  else t

/-- Groups become deny-only, and one that was the default owner is replaced by the user. -/
def disableGroups (t : TokenBody) (request : TokenFilterRequest) : TokenBody :=
  { t with
    owner := t.groups.foldl
      (fun owner group => if request.disables group.sid && owner = group.sid then t.user else owner)
      t.owner
    groups := t.groups.map fun group =>
      if request.disables group.sid then group.makeDenyOnly else group }

/-- The privileges a filtered token keeps. -/
def deletePrivileges (t : TokenBody) (request : TokenFilterRequest) : TokenBody :=
  { t with
    privileges :=
      if request.flags &&& disableMaxPrivilege ≠ 0 then
        t.privileges.filter fun privilege => privilege.name = seChangeNotify
      else
        t.privileges.filter fun privilege =>
          !request.privilegesToDelete.any fun entry => decide (entry.1 = privilege.luid) }

/-- A restricting SID joins the others unless it is there. -/
def restrictTo (t : TokenBody) (sid : Sid) : TokenBody :=
  if t.restrictedSids.any fun existing => decide (existing.sid = sid) then t
  else
    { t with
      restrictedSids := t.restrictedSids ++
        [⟨sid, seGroupMandatory ||| seGroupEnabledByDefault ||| seGroupEnabled⟩] }

/-- The sandbox mark of a filtered token. -/
def markInert (t : TokenBody) (request : TokenFilterRequest) : TokenBody :=
  if request.flags &&& sandboxInertFlag ≠ 0 then { t with sandboxInert := true } else t

end TokenBody

/-- The one status the filter fails with. -/
inductive TokenFilterError
  | invalidParameter
  deriving DecidableEq, Repr

/-- `filter_access_token` -/
def filterAccessToken (source : TokenBody) (request : TokenFilterRequest) :
    Except TokenFilterError TokenBody :=
  if request.flags &&& ~~~tokenFilterValidFlags ≠ 0 ∨
      request.restrictedSids.any (fun entry => decide (entry.2 ≠ 0)) then
    .error .invalidParameter
  else
    let filtered := ((source.disableUser request).disableGroups request).deletePrivileges request
    let filtered := request.restrictedSids.foldl (fun t entry => t.restrictTo entry.1) filtered
    .ok (filtered.markInert request)

/-! ## What a filtered token keeps -/

/-- The SID in an ACE is one of the SIDs. -/
def Matches (sids : List Sid) (sid : Sid) : Prop := sidMatches sids sid none = true

/-- The SIDs that can still allow a token something when the request is carried out. -/
def TokenFilterRequest.keptSids (request : TokenFilterRequest) (t : AccessToken) : List Sid :=
  t.allowSids.filter fun sid => !request.disables sid

/-- The restricting SIDs that the request adds to those of a token. -/
def TokenFilterRequest.addedSids (request : TokenFilterRequest) (t : AccessToken) : List Sid :=
  (request.restrictedSids.map Prod.fst).filter fun sid => decide (sid ∉ t.restrictedDenySids)

/-- What filtering makes of a token, as the access check sees it. -/
structure Filtered (request : TokenFilterRequest) (t f : AccessToken) : Prop where
  allow : ∀ sid, sid ∈ f.allowSids ↔ sid ∈ request.keptSids t
  deny : f.denySids = t.denySids
  privilege : ∀ name, f.hasPrivilege name = true → t.hasPrivilege name = true
  restrictedAllow : ∀ sid, sid ∈ f.restrictedAllowSids ↔
    sid ∈ t.restrictedAllowSids ∨ sid ∈ request.addedSids t
  restrictedDeny : ∀ sid ∈ t.restrictedDenySids, sid ∈ f.restrictedDenySids

section Steps

variable {t f : TokenBody} {request : TokenFilterRequest}

theorem denyOnlyAttributes_denyOnly (attributes : BitVec 32) :
    denyOnlyAttributes attributes &&& seGroupUseForDenyOnly ≠ 0 := by
  have hbit : (denyOnlyAttributes attributes &&& seGroupUseForDenyOnly).getLsbD 4 = true := by
    simp [denyOnlyAttributes, seGroupUseForDenyOnly]
  intro hzero
  rw [hzero] at hbit
  cases hbit

theorem isDenyOnly_makeDenyOnly (group : TokenGroup) : group.makeDenyOnly.isDenyOnly = true :=
  decide_eq_true (denyOnlyAttributes_denyOnly group.attributes)

theorem mem_allowSids {t : AccessToken} {sid : Sid} :
    sid ∈ t.allowSids ↔ (t.userAttributes &&& seGroupUseForDenyOnly = 0 ∧ sid = t.user) ∨
      ∃ group ∈ t.groups, (group.isEnabled && !group.isDenyOnly) = true ∧ group.sid = sid := by
  rw [AccessToken.allowSids, mem_append, mem_map]
  simp only [mem_filter, and_assoc]
  refine or_congr_left ?_
  by_cases huser : t.userAttributes &&& seGroupUseForDenyOnly = 0
  · rw [if_pos huser, mem_singleton, and_iff_right huser]
  · rw [if_neg huser]
    exact iff_of_false not_mem_nil fun h => huser h.1

/-- The user and the groups that the request names can allow nothing any more. -/
theorem mem_allowSids_disabled (t : TokenBody) (request : TokenFilterRequest) (sid : Sid) :
    sid ∈ ((t.disableUser request).disableGroups request).accessToken.allowSids ↔
      sid ∈ request.keptSids t.accessToken := by
  rw [TokenFilterRequest.keptSids, mem_filter, mem_allowSids, mem_allowSids, or_and_right,
    Bool.not_eq_true']
  refine or_congr ?_ ⟨?_, ?_⟩
  · by_cases huser : request.disables t.user = true
    · refine iff_of_false ?_ ?_
      · rw [TokenBody.disableUser, if_pos huser]
        exact fun h => denyOnlyAttributes_denyOnly _ h.1
      · rintro ⟨⟨-, rfl⟩, hkept⟩
        exact absurd huser (Bool.eq_false_iff.mp hkept)
    · rw [TokenBody.disableUser, if_neg huser]
      refine ⟨fun h => ⟨h, ?_⟩, And.left⟩
      rw [h.2]
      exact Bool.eq_false_iff.mpr huser
  · rintro ⟨group', hgroup', henabled, rfl⟩
    obtain ⟨group, hgroup, rfl⟩ := mem_map.mp hgroup'
    split at henabled
    · simp [isDenyOnly_makeDenyOnly] at henabled
    · rename_i hkept
      have hgroup : group ∈ t.groups := by
        rw [TokenBody.disableUser] at hgroup
        split at hgroup <;> exact hgroup
      rw [if_neg hkept]
      exact ⟨⟨group, hgroup, henabled, rfl⟩, Bool.eq_false_iff.mpr hkept⟩
  · rintro ⟨⟨group, hgroup, henabled, rfl⟩, hkept⟩
    refine ⟨group, mem_map.mpr ⟨group, ?_, ?_⟩, henabled, rfl⟩
    · rw [TokenBody.disableUser]
      split <;> exact hgroup
    · rw [if_neg (Bool.eq_false_iff.mp hkept)]

/-- They can deny as before. -/
theorem denySids_disabled (t : TokenBody) (request : TokenFilterRequest) :
    ((t.disableUser request).disableGroups request).accessToken.denySids =
      t.accessToken.denySids := by
  have hgroups : ∀ u : TokenBody,
      (u.disableGroups request).accessToken.denySids = u.accessToken.denySids := by
    intro u
    refine congrArg (List.cons u.user) ?_
    change List.map TokenGroup.sid (List.map _ u.groups) = List.map TokenGroup.sid u.groups
    rw [map_map]
    refine map_congr_left fun group _ => ?_
    rw [Function.comp_apply]
    split <;> rfl
  rw [hgroups, TokenBody.disableUser]
  split <;> rfl

theorem hasPrivilege_eq (t : TokenBody) (name : String) : t.accessToken.hasPrivilege name = true ↔
      ∃ privilege ∈ t.privileges, privilege.name = name ∧ privilege.enabled = true := by
  simp [AccessToken.hasPrivilege, TokenBody.accessToken]

theorem hasPrivilege_deletePrivileges {name : String}
    (hname : (t.deletePrivileges request).accessToken.hasPrivilege name = true) :
    t.accessToken.hasPrivilege name = true := by
  rw [hasPrivilege_eq] at hname ⊢
  obtain ⟨privilege, hmem, hheld⟩ := hname
  refine ⟨privilege, ?_, hheld⟩
  rw [TokenBody.deletePrivileges] at hmem
  split at hmem
  · exact mem_of_mem_filter hmem
  · exact mem_of_mem_filter hmem

/-- What one more restricting SID changes. -/
theorem restrictTo_spec (u : TokenBody) (sid : Sid) :
    { u.restrictTo sid with restrictedSids := u.restrictedSids } = u ∧
      (∀ other, other ∈ (u.restrictTo sid).accessToken.restrictedAllowSids ↔
        other ∈ u.accessToken.restrictedAllowSids ∨
          other = sid ∧ sid ∉ u.accessToken.restrictedDenySids) ∧
      ∀ other, other ∈ (u.restrictTo sid).accessToken.restrictedDenySids ↔
        other ∈ u.accessToken.restrictedDenySids ∨ other = sid := by
  have hany : (u.restrictedSids.any fun existing => decide (existing.sid = sid)) = true ↔
      sid ∈ u.accessToken.restrictedDenySids := by
    simp [AccessToken.restrictedDenySids, TokenBody.accessToken]
  rw [TokenBody.restrictTo]
  by_cases hmem : sid ∈ u.accessToken.restrictedDenySids
  · rw [if_pos (hany.mpr hmem)]
    refine ⟨rfl, fun other => by simp [hmem], fun other => ?_⟩
    exact ⟨.inl, fun h => h.elim id fun hsid => hsid ▸ hmem⟩
  · rw [if_neg fun h => hmem (hany.mp h)]
    refine ⟨rfl, fun other => ?_, fun other => ?_⟩
    · rw [and_iff_left hmem]
      simp [AccessToken.restrictedAllowSids, TokenBody.accessToken, TokenGroup.isEnabled,
        TokenGroup.isDenyOnly, seGroupMandatory, seGroupEnabledByDefault, seGroupEnabled,
        seGroupUseForDenyOnly]
    · simp [AccessToken.restrictedDenySids, TokenBody.accessToken]

/-- The restricting SIDs are added one after the other, and nothing else changes. -/
theorem restrictTo_all (entries : List (Sid × BitVec 32)) (u : TokenBody) :
    let v := entries.foldl (fun t entry => t.restrictTo entry.1) u
    { v with restrictedSids := u.restrictedSids } = u ∧
      (∀ sid, sid ∈ v.accessToken.restrictedAllowSids ↔
        sid ∈ u.accessToken.restrictedAllowSids ∨
          sid ∈ entries.map Prod.fst ∧ sid ∉ u.accessToken.restrictedDenySids) ∧
      ∀ sid ∈ u.accessToken.restrictedDenySids, sid ∈ v.accessToken.restrictedDenySids := by
  induction entries generalizing u with
  | nil => simp
  | cons entry entries ih =>
    obtain ⟨hsame, hallow, hdeny⟩ := restrictTo_spec u entry.1
    obtain ⟨hsameRest, hallowRest, hdenyRest⟩ := ih (u.restrictTo entry.1)
    refine ⟨?_, fun sid => ?_, fun sid hsid => hdenyRest sid ((hdeny sid).mpr (.inl hsid))⟩
    · exact (congrArg (fun v : TokenBody => { v with restrictedSids := u.restrictedSids })
        hsameRest).trans hsame
    · rw [foldl_cons, hallowRest, hallow, hdeny, map_cons, mem_cons]
      by_cases hsid : sid = entry.1
      · subst hsid
        simp
      · simp [hsid]

theorem accessToken_markInert (t : TokenBody) (request : TokenFilterRequest) :
    (t.markInert request).accessToken = t.accessToken := by
  rw [TokenBody.markInert]
  split <;> rfl

theorem filtered_of_filterAccessToken (e : filterAccessToken t request = .ok f) :
    Filtered request t.accessToken f.accessToken := by
  rw [filterAccessToken] at e
  split at e
  · cases e
  obtain rfl := Except.ok.inj e
  rw [accessToken_markInert]
  have hrestricted : ((t.disableUser request).disableGroups request).restrictedSids =
      t.restrictedSids := by
    rw [TokenBody.disableUser]
    split <;> rfl
  obtain ⟨hsame, hallow, hdeny⟩ := restrictTo_all request.restrictedSids
    (((t.disableUser request).disableGroups request).deletePrivileges request)
  have hsids : (((t.disableUser request).disableGroups request).deletePrivileges
      request).accessToken.restrictedSids = t.accessToken.restrictedSids := hrestricted
  simp only [AccessToken.restrictedAllowSids, AccessToken.restrictedDenySids, hsids] at hallow hdeny
  constructor
  case allow =>
    intro sid
    rw [← mem_allowSids_disabled]
    have hsids := congrArg (fun v : TokenBody => sid ∈ v.accessToken.allowSids) hsame
    exact iff_of_eq hsids
  case deny =>
    exact (congrArg (fun v : TokenBody => v.accessToken.denySids) hsame).trans
      (denySids_disabled t request)
  case privilege =>
    intro name hname
    have hbefore := hasPrivilege_deletePrivileges
      ((congrArg (fun v : TokenBody => v.accessToken.hasPrivilege name) hsame).symm.trans hname)
    rw [TokenBody.disableUser] at hbefore
    split at hbefore <;> exact hbefore
  case restrictedAllow =>
    intro sid
    rw [TokenFilterRequest.addedSids, mem_filter, decide_eq_true_eq]
    exact hallow sid
  case restrictedDeny => exact hdeny

end Steps

/-! ## Two walks over one ACL -/

section Walks

variable {allow allow' deny deny' : List Sid} {mapping : GenericMapping} {right : Fin 32}

theorem Ace.decides_iff {ace : Ace} : ace.decides allow deny mapping right = true ↔
      ace.inheritOnly = false ∧ hasRight (mapping.map ace.mask) right = true ∧
        ((ace.aceType = .accessAllowed ∧ Matches allow ace.sid) ∨
          (ace.aceType = .accessDenied ∧ Matches deny ace.sid)) := by
  unfold Ace.decides Matches
  cases ace.aceType <;> simp [and_assoc]

theorem allowedFor_cons (ace : Ace) (aces : List Ace) :
    allowedFor allow deny mapping (ace :: aces) right =
      if ace.decides allow deny mapping right then decide (ace.aceType = .accessAllowed)
      else allowedFor allow deny mapping aces right := by
  unfold allowedFor
  rw [List.find?_cons]
  cases ace.decides allow deny mapping right <;> rfl

variable {aces : List Ace}

/-- An ACE that decides nothing in a walk with more allowing SIDs allows nothing. -/
theorem allowedFor_tail {ace : Ace}
    (hallow : ∀ sid, Matches allow sid → Matches allow' sid)
    (hnew : ¬ ace.decides allow' deny' mapping right = true)
    (h : allowedFor allow deny mapping (ace :: aces) right = true) :
    allowedFor allow deny mapping aces right = true := by
  rw [allowedFor_cons] at h
  by_cases hold : ace.decides allow deny mapping right = true
  · rw [if_pos hold, decide_eq_true_eq] at h
    obtain ⟨hforce, hmask, ⟨-, hmatch⟩ | ⟨hdenied, -⟩⟩ := Ace.decides_iff.mp hold
    · exact absurd (Ace.decides_iff.mpr ⟨hforce, hmask, .inl ⟨h, hallow _ hmatch⟩⟩) hnew
    · rw [h] at hdenied
      cases hdenied
  · rwa [if_neg hold] at h

/-- The first ACE does not deny in a walk that allows the right. -/
theorem not_denied {ace : Ace}
    (h : allowedFor allow deny mapping (ace :: aces) right = true)
    (hforce : ace.inheritOnly = false) (hmask : hasRight (mapping.map ace.mask) right = true)
    (hdenied : ace.aceType = .accessDenied) : ¬ Matches deny ace.sid := by
  intro hmatch
  rw [allowedFor_cons, if_pos (Ace.decides_iff.mpr ⟨hforce, hmask, .inr ⟨hdenied, hmatch⟩⟩),
    hdenied] at h
  cases h

/-- A right that two walks allow is allowed by a walk that has their allowing SIDs, and denying
SIDs only from them. -/
theorem allowedFor_of_both {allow₁ deny₁ allow₂ deny₂ : List Sid} (aces : List Ace)
    (hallow₁ : ∀ sid, Matches allow₁ sid → Matches allow sid)
    (hallow₂ : ∀ sid, Matches allow₂ sid → Matches allow sid)
    (hdeny : ∀ sid, Matches deny sid → Matches deny₁ sid ∨ Matches deny₂ sid)
    (h₁ : allowedFor allow₁ deny₁ mapping aces right = true)
    (h₂ : allowedFor allow₂ deny₂ mapping aces right = true) :
    allowedFor allow deny mapping aces right = true := by
  induction aces with
  | nil => exact h₁
  | cons ace aces ih =>
    rw [allowedFor_cons]
    split
    case isTrue hnew =>
      -- an ACE that denies in this walk would deny in one of the two
      obtain ⟨hforce, hmask, ⟨hallowed, -⟩ | ⟨hdenied, hmatch⟩⟩ := Ace.decides_iff.mp hnew
      · exact decide_eq_true hallowed
      · rcases hdeny _ hmatch with hmatch | hmatch
        · exact absurd hmatch (not_denied h₁ hforce hmask hdenied)
        · exact absurd hmatch (not_denied h₂ hforce hmask hdenied)
    case isFalse hnew =>
      exact ih (allowedFor_tail hallow₁ hnew h₁) (allowedFor_tail hallow₂ hnew h₂)

/-- Fewer allowing and more denying SIDs allow less. -/
theorem allowedFor_mono (aces : List Ace) (hallow : ∀ sid, Matches allow sid → Matches allow' sid)
    (hdeny : ∀ sid, Matches deny' sid → Matches deny sid)
    (h : allowedFor allow deny mapping aces right = true) :
    allowedFor allow' deny' mapping aces right = true :=
  allowedFor_of_both aces hallow hallow (fun sid hsid => .inl (hdeny sid hsid)) h h

theorem allowedFor_of_no_match (aces : List Ace) (hnone : ∀ sid, ¬ Matches allow sid) :
    allowedFor allow deny mapping aces right = false := by
  induction aces with
  | nil => rfl
  | cons ace aces ih =>
    rw [allowedFor_cons, ih]
    split
    · rename_i hdecides
      obtain ⟨-, -, ⟨-, hmatch⟩ | ⟨hdenied, -⟩⟩ := Ace.decides_iff.mp hdecides
      · exact absurd hmatch (hnone _)
      · rw [hdenied]
        rfl
    · rfl

end Walks

/-! ## When filtering never raises authority -/

/-- Whatever the check grants to `f` it grants to `t`. -/
def NeverRaises (t f : AccessToken) : Prop :=
  ∀ (sd : SecurityDescriptor) (desired : AccessMask) (mapping : GenericMapping),
    ((accessCheck sd f desired mapping .userMode).status = .success →
      (accessCheck sd t desired mapping .userMode).status = .success) ∧
    (desired &&& maximumAllowed ≠ 0 →
      (accessCheck sd f desired mapping .userMode).grantedAccess &&&
        ~~~(accessCheck sd t desired mapping .userMode).grantedAccess = 0)

/-- The restricting SIDs that the request adds to those of `t` do no harm: `t` has none, so that
filtering restricts it for the first time; or none of them is a SID that is kept, and either no
ACE can match them, or none can match a SID that is kept, or the SIDs that are kept pass the old
restricting SIDs anyway. -/
def HarmlessRestriction (t : AccessToken) (request : TokenFilterRequest) : Prop :=
  t.isRestricted = false ∨
    ((∀ sid ∈ request.keptSids t, sid ∉ request.addedSids t) ∧
      ((∀ sid, ¬ Matches (request.addedSids t) sid) ∨
        (∀ sid, ¬ Matches (request.keptSids t) sid) ∨
        ((∀ sid, Matches (request.keptSids t) sid → Matches t.restrictedAllowSids sid) ∧
          ∀ sid, Matches t.restrictedDenySids sid → Matches t.denySids sid)))

/-- Rights that are granted to `f` only if they are to `t` make one check imply the other. -/
theorem neverRaises_of_grants {t f : AccessToken}
    (hprivilege : f.hasPrivilege seSecurity = true → t.hasPrivilege seSecurity = true)
    (hgrants : ∀ sd mapping want maximum right, Grants sd f mapping want maximum right →
      Grants sd t mapping want maximum right) : NeverRaises t f := by
  intro sd desired mapping
  by_cases hdesired : desired = 0
  · subst hdesired
    simp [accessCheck, accessCheckInternal]
  have hsuccess : (accessCheck sd f desired mapping .userMode).status = .success →
      (accessCheck sd t desired mapping .userMode).status = .success := by
    rw [accessCheck_success_iff hdesired rfl rfl, accessCheck_success_iff hdesired rfl rfl]
    rintro ⟨hgate, hsome, hwanted⟩
    refine ⟨fun hsecurity => hprivilege (hgate hsecurity), fun hmax => ?_, fun right hright => ?_⟩
    · obtain ⟨right, hright⟩ := hsome hmax
      exact ⟨right, hgrants _ _ _ _ _ hright⟩
    · exact hgrants _ _ _ _ _ (hwanted right hright)
  refine ⟨hsuccess, fun hmax => ?_⟩
  by_cases hf : (accessCheck sd f desired mapping .userMode).status = .success
  · rw [and_not_eq_zero_iff]
    intro right hright
    rw [hasRight_grantedAccess hdesired rfl hmax hf] at hright
    rw [hasRight_grantedAccess hdesired rfl hmax (hsuccess hf)]
    exact hgrants _ _ _ _ _ hright
  · rw [grantedAccess_of_not_success hf]
    exact BitVec.zero_and

/-- The parts of a token that the check reads can be compared one by one. -/
theorem neverRaises_of_parts {t f : AccessToken}
    (hprivilege : ∀ name, f.hasPrivilege name = true → t.hasPrivilege name = true)
    (howner : ∀ sd, tokenIsOwner sd f = true → tokenIsOwner sd t = true)
    (hdacl : ∀ mapping aces right, DaclAllows f mapping aces right →
      DaclAllows t mapping aces right) : NeverRaises t f := by
  refine neverRaises_of_grants (hprivilege seSecurity) fun sd mapping want maximum right h => ?_
  rcases h with hrule | hallows
  · refine .inl ?_
    rcases hrule with ⟨hright, hwant, hheld⟩ | ⟨hright, hwant, hheld⟩ | ⟨hright, hwant, howns⟩
    · exact .inl ⟨hright, hwant, hprivilege _ hheld⟩
    · exact .inr (.inl ⟨hright, hwant, hprivilege _ hheld⟩)
    · exact .inr (.inr ⟨hright, hwant, howner sd howns⟩)
  · refine .inr ?_
    cases hd : sd.dacl with
    | none =>
      rw [hd] at hallows
      exact hallows
    | some aces =>
      rw [hd] at hallows
      exact ⟨hallows.1, hdacl _ _ _ hallows.2⟩

section Compare

variable {t f : AccessToken} {request : TokenFilterRequest} {sid : Sid} {aces : List Ace}
  {mapping : GenericMapping} {right : Fin 32}

theorem isRestricted_iff : t.isRestricted = true ↔ ∃ sid, sid ∈ t.restrictedDenySids := by
  rw [AccessToken.isRestricted, AccessToken.restrictedDenySids]
  cases t.restrictedSids <;> simp

theorem Filtered.isRestricted (hf : Filtered request t f) (ht : t.isRestricted = true) :
    f.isRestricted = true := by
  obtain ⟨sid, hsid⟩ := isRestricted_iff.mp ht
  exact isRestricted_iff.mpr ⟨sid, hf.restrictedDeny sid hsid⟩

theorem matches_iff {sids : List Sid} :
    Matches sids sid ↔ sid.isPrincipalSelf = false ∧ sid ∈ sids := by
  unfold Matches sidMatches
  cases sid.isPrincipalSelf <;> simp

theorem Matches.mono {sids sids' : List Sid} (h : ∀ sid ∈ sids, sid ∈ sids')
    (hsid : Matches sids sid) : Matches sids' sid := by
  rw [matches_iff] at hsid ⊢
  exact ⟨hsid.1, h sid hsid.2⟩

theorem Filtered.allow_subset (hf : Filtered request t f) (hsid : sid ∈ f.allowSids) :
    sid ∈ t.allowSids :=
  (mem_filter.mp ((hf.allow sid).mp hsid)).1

theorem matches_keptSids (hf : Filtered request t f) :
    Matches (request.keptSids t) sid ↔ Matches f.allowSids sid := by
  rw [matches_iff, matches_iff, hf.allow]

theorem Filtered.matches_restrictedAllow (hf : Filtered request t f) :
    Matches f.restrictedAllowSids sid ↔
      Matches t.restrictedAllowSids sid ∨ Matches (request.addedSids t) sid := by
  rw [matches_iff, matches_iff, matches_iff, hf.restrictedAllow, and_or_left]

/-- The ordinary walk allows the filtered token no more than the source. -/
theorem Filtered.allowedFor (hf : Filtered request t f)
    (h : allowedFor f.allowSids f.denySids mapping aces right = true) :
    Security.allowedFor t.allowSids t.denySids mapping aces right = true :=
  allowedFor_mono aces (fun _ => Matches.mono fun _ => hf.allow_subset)
    (fun sid hsid => by rw [hf.deny]; exact hsid) h

section

variable (hf : Filtered request t f) (hh : HarmlessRestriction t request)
include hf hh

theorem Filtered.daclAllows
    (h : DaclAllows f mapping aces right) : DaclAllows t mapping aces right := by
  refine ⟨hf.allowedFor h.1, fun ht => ?_⟩
  rcases hh with hopen | ⟨-, hsame | hnone | ⟨hallow, hdeny⟩⟩
  · rw [ht] at hopen
    cases hopen
  · refine allowedFor_mono aces (fun sid hsid => ?_) (fun _ => Matches.mono hf.restrictedDeny)
      (h.2 (hf.isRestricted ht))
    exact (hf.matches_restrictedAllow.mp hsid).resolve_right (hsame sid)
  · have hno : ∀ sid, ¬ Matches f.allowSids sid :=
      fun sid hsid => hnone sid ((matches_keptSids hf).mpr hsid)
    exact absurd h.1 (by rw [allowedFor_of_no_match aces hno]; decide)
  · refine allowedFor_mono aces (fun sid hsid => hallow sid ((matches_keptSids hf).mpr hsid)) ?_ h.1
    rw [hf.deny]
    exact hdeny

theorem Filtered.tokenIsOwner {sd : SecurityDescriptor} (h : tokenIsOwner sd f = true) :
    Security.tokenIsOwner sd t = true := by
  unfold Security.tokenIsOwner at h ⊢
  cases howner : sd.owner with
  | none => rw [howner] at h; exact h
  | some owner =>
    rw [howner] at h
    simp only [Bool.and_eq_true, any_eq_true, decide_eq_true_eq, exists_eq_right,
      Bool.or_eq_true, Bool.not_eq_true'] at h ⊢
    refine ⟨hf.allow_subset h.1, ?_⟩
    rcases hh with hopen | ⟨howners, -⟩
    · exact .inl hopen
    · cases ht : t.isRestricted with
      | false => exact .inl rfl
      | true =>
        rcases h.2 with hopen | hrestricted
        · rw [hf.isRestricted ht] at hopen
          cases hopen
        · refine .inr (((hf.restrictedAllow owner).mp hrestricted).resolve_right ?_)
          exact howners owner ((hf.allow owner).mp h.1)

theorem Filtered.neverRaises : NeverRaises t f :=
  neverRaises_of_parts hf.privilege (fun _ => hf.tokenIsOwner hh) fun _ _ _ => hf.daclAllows hh

end

/-! ### The other direction: descriptors that tell the tokens apart -/

theorem trivialMapping_map (right : Fin 32) :
    hasRight (trivialMapping.map (1#32 &&& ~~~maximumAllowed)) right = decide (right = 0) := by
  revert right
  decide

/-- A request for the first right under a DACL and no owner. -/
theorem accessCheck_first_right_iff (token : AccessToken) (aces : List Ace) :
    (accessCheck ⟨none, some aces⟩ token 1#32 trivialMapping .userMode).status = .success ↔
      DaclAllows token trivialMapping aces 0 := by
  have hgate : SecurityGate token (trivialMapping.map (1#32 &&& ~~~maximumAllowed)) :=
    fun h => absurd (by decide) h
  have hrule :
      ¬ PreGranted ⟨none, some aces⟩ token (trivialMapping.map (1#32 &&& ~~~maximumAllowed))
      false 0 := by
    rintro (⟨hright, -⟩ | ⟨hright, -⟩ | ⟨hright, -⟩) <;> exact absurd hright (by decide)
  have hplain : false = decide (1#32 &&& maximumAllowed ≠ 0) := by decide
  rw [accessCheck_success_iff (by decide) rfl hplain, and_iff_right hgate]
  simp only [Bool.false_eq_true, false_implies, trivialMapping_map, decide_eq_true_eq, forall_eq]
  simp only [Grants, hrule, false_or, trivialMapping_map, decide_true, or_true, true_and]

/-- An ACE for the first right. -/
def firstRightAce (aceType : AceType) (sid : Sid) : Ace := ⟨aceType, 1#32, sid, false, none⟩

theorem allowedFor_firstRightAce (allow deny : List Sid) (aceType : AceType) (sid : Sid)
    (aces : List Ace) :
    allowedFor allow deny trivialMapping (firstRightAce aceType sid :: aces) 0 = true ↔
      (aceType = .accessAllowed ∧ Matches allow sid) ∨
        (¬ (aceType = .accessDenied ∧ Matches deny sid) ∧
          allowedFor allow deny trivialMapping aces 0 = true) := by
  have hmask : hasRight (trivialMapping.map 1#32) 0 = true := by decide
  have hdecides : (firstRightAce aceType sid).decides allow deny trivialMapping 0 = true ↔
      (aceType = .accessAllowed ∧ Matches allow sid) ∨
        (aceType = .accessDenied ∧ Matches deny sid) := by
    rw [Ace.decides_iff]
    simp [firstRightAce, hmask]
  rw [allowedFor_cons]
  split
  · rename_i h
    rcases hdecides.mp h with ⟨rfl, hmatch⟩ | ⟨rfl, hmatch⟩
    · simp [firstRightAce, hmatch]
    · simp [firstRightAce, hmatch]
  · rename_i h
    rw [hdecides, not_or] at h
    simp only [h.1, h.2, false_or, not_false_eq_true, true_and]

/-- A new owner tells the tokens apart. -/
theorem raises_of_owner (ht : t.isRestricted = true) (hallow : sid ∈ f.allowSids)
    (hnew : sid ∈ f.restrictedAllowSids)
    (hold : sid ∉ t.restrictedAllowSids) : ¬ NeverRaises t f := by
  intro h
  have hraised := (h ⟨some sid, some []⟩ readControl trivialMapping).1
  have hplain : false = decide (readControl &&& maximumAllowed ≠ 0) := by decide
  rw [accessCheck_success_iff (by decide) rfl hplain,
    accessCheck_success_iff (by decide) rfl hplain] at hraised
  have hwant : ∀ right : Fin 32,
      hasRight (trivialMapping.map (readControl &&& ~~~maximumAllowed)) right =
        decide (right = 17) := by decide
  have howner : tokenIsOwner ⟨some sid, some []⟩ f = true := by
    simp [tokenIsOwner, hallow, hnew]
  have hother : tokenIsOwner ⟨some sid, some []⟩ t = false := by
    have hno : t.restrictedAllowSids.any (fun s => decide (s = sid)) = false := by
      rw [any_eq_false]
      intro s hs
      simp only [decide_eq_true_eq]
      rintro rfl
      exact hold hs
    simp [tokenIsOwner, ht, hno]
  obtain ⟨-, -, hgrants⟩ := hraised ⟨fun hsecurity => absurd (by decide) hsecurity,
    fun hfalse => (nomatch hfalse), fun right hright => .inl (.inr (.inr
      ⟨by rw [hwant, decide_eq_true_eq] at hright; subst hright; decide, .inr hright, howner⟩))⟩
  rcases hgrants 17 (by rw [hwant]; rfl) with
    (⟨hright, -⟩ | ⟨hright, -⟩ | ⟨-, -, howns⟩) | ⟨-, hdacl⟩
  · exact absurd hright (by decide)
  · exact absurd hright (by decide)
  · rw [hother] at howns
    cases howns
  · cases hdacl.1

/-- A DACL that allows `f` the first right and not `t` tells the tokens apart. -/
theorem raises_of_dacl (aces : List Ace) (hf : DaclAllows f trivialMapping aces 0)
    (ht : ¬ DaclAllows t trivialMapping aces 0) : ¬ NeverRaises t f := by
  intro h
  have hraised := (h ⟨none, some aces⟩ 1#32 trivialMapping).1
  rw [accessCheck_first_right_iff, accessCheck_first_right_iff] at hraised
  exact ht (hraised hf)

/-- Allowing a new restricting SID first tells the tokens apart, if the rest of the DACL passes
the ordinary walk and not the old restricting SIDs. -/
theorem raises_of_ace (ht : t.isRestricted = true) {new : Sid} (aces : List Ace)
    (hnew : Matches f.restrictedAllowSids new) (hold : ¬ Matches t.restrictedAllowSids new)
    (hpass : allowedFor f.allowSids f.denySids trivialMapping aces 0 = true)
    (hfail : allowedFor t.restrictedAllowSids t.restrictedDenySids trivialMapping aces 0 = false) :
    ¬ NeverRaises t f := by
  refine raises_of_dacl (firstRightAce .accessAllowed new :: aces) ⟨?_, fun _ => ?_⟩ fun h => ?_
  · rw [allowedFor_firstRightAce]
    exact .inr ⟨fun hdenied => (nomatch hdenied.1), hpass⟩
  · rw [allowedFor_firstRightAce]
    exact .inl ⟨rfl, hnew⟩
  · have hrefused := h.2 ht
    rw [allowedFor_firstRightAce, hfail] at hrefused
    rcases hrefused with ⟨-, hmatch⟩ | ⟨-, hallowed⟩
    · exact hold hmatch
    · cases hallowed

/-- A restricting SID that is added is not among the old ones. -/
theorem not_mem_of_mem_addedSids (hsid : sid ∈ request.addedSids t) :
    sid ∉ t.restrictedAllowSids := by
  intro hmem
  obtain ⟨group, hgroup, rfl⟩ := mem_map.mp hmem
  have hnot := (mem_filter.mp hsid).2
  rw [decide_eq_true_eq] at hnot
  exact hnot (mem_map.mpr ⟨group, mem_of_mem_filter hgroup, rfl⟩)

theorem Filtered.harmless_of_neverRaises (hf : Filtered request t f) (h : NeverRaises t f) :
    HarmlessRestriction t request := by
  cases ht : t.isRestricted with
  | false => exact .inl ht
  | true =>
    refine .inr ⟨fun sid hallow hnew => ?_, ?_⟩
    · exact raises_of_owner ht ((hf.allow sid).mpr hallow)
        ((hf.restrictedAllow sid).mpr (.inr hnew)) (not_mem_of_mem_addedSids hnew) h
    · by_contra hharm
      simp only [matches_keptSids hf, ← hf.deny] at hharm
      push Not at hharm
      obtain ⟨⟨new, hadded⟩, ⟨sid, hsid⟩, hthird⟩ := hharm
      have hnew : Matches f.restrictedAllowSids new := hf.matches_restrictedAllow.mpr (.inr hadded)
      have hold : ¬ Matches t.restrictedAllowSids new := fun hmatch =>
        not_mem_of_mem_addedSids (matches_iff.mp hadded).2 (matches_iff.mp hmatch).2
      by_cases hallow : ∀ sid, Matches f.allowSids sid → Matches t.restrictedAllowSids sid
      · obtain ⟨other, hother, hordinary⟩ := hthird hallow
        refine raises_of_ace ht [firstRightAce .accessDenied other,
          firstRightAce .accessAllowed sid] hnew hold ?_ ?_ h
        · rw [allowedFor_firstRightAce, allowedFor_firstRightAce]
          exact .inr ⟨fun hdenied => hordinary hdenied.2, .inl ⟨rfl, hsid⟩⟩
        · rw [Bool.eq_false_iff, Ne, allowedFor_firstRightAce]
          rintro (⟨hallowed, -⟩ | ⟨hnot, -⟩)
          · cases hallowed
          · exact hnot ⟨rfl, hother⟩
      · push Not at hallow
        obtain ⟨sid, hsid, hrefused⟩ := hallow
        refine raises_of_ace ht [firstRightAce .accessAllowed sid] hnew hold ?_ ?_ h
        · rw [allowedFor_firstRightAce]
          exact .inl ⟨rfl, hsid⟩
        · rw [Bool.eq_false_iff, Ne, allowedFor_firstRightAce]
          rintro (⟨-, hmatch⟩ | ⟨-, hallowed⟩)
          · exact hrefused hmatch
          · cases hallowed

end Compare

/-! ## The result -/

/-- Everyone. -/
def worldSid : Sid := .new 1 [0]

/-- The restricting SID of a sandbox. -/
def sandboxSid : Sid := .new 5 [12]

/-- A user. -/
def userSid : Sid := .new 5 [21, 1]

/-- A token without groups and privileges. -/
def userToken (restrictedSids : List TokenGroup) : TokenBody :=
  ⟨userSid, 0, [], restrictedSids, [], userSid, false⟩

/-- The request adds everyone to the restricting SIDs. -/
def restrictToWorld : TokenFilterRequest := ⟨0, [], [], [(worldSid, 0)]⟩

/-- A restricted token is refused what its filtered copy is granted. -/
theorem filtering_raises_authority :
    ∃ f, filterAccessToken (userToken [⟨sandboxSid, seGroupEnabled⟩]) restrictToWorld = .ok f ∧
      let sd : SecurityDescriptor := ⟨none, some [firstRightAce .accessAllowed userSid,
        firstRightAce .accessAllowed worldSid]⟩
      (accessCheck sd f.accessToken 1#32 trivialMapping .userMode).status = .success ∧
      (accessCheck sd (userToken [⟨sandboxSid, seGroupEnabled⟩]).accessToken 1#32 trivialMapping
        .userMode).status = .accessDenied := by
  refine ⟨_, rfl, ?_⟩
  decide

/-- **Token filtering.**  The access check grants a filtered token no more than its source
exactly if the restricting SIDs that the request adds to those of the source do no harm. -/
theorem filterAccessToken_neverRaises_iff (t f : TokenBody) (request : TokenFilterRequest)
    (e : filterAccessToken t request = .ok f) :
    NeverRaises t.accessToken f.accessToken ↔ HarmlessRestriction t.accessToken request := by
  have hf := filtered_of_filterAccessToken e
  exact ⟨hf.harmless_of_neverRaises, hf.neverRaises⟩

/-- A member of a group, restricted to its own SID. -/
def restrictedMember : TokenBody :=
  { userToken [⟨userSid, seGroupEnabled⟩] with groups := [⟨worldSid, seGroupEnabled⟩] }

/-- The request disables the group and adds a restricting SID. -/
def leaveWorld : TokenFilterRequest := ⟨0, [(worldSid, 0)], [], [(sandboxSid, 0)]⟩

/-- A restricted token loses its group and gets a second restricting SID, which does no harm. -/
theorem filterAccessToken_neverRaises_restrictedMember :
    restrictedMember.accessToken.isRestricted = true ∧
      leaveWorld.keptSids restrictedMember.accessToken = [userSid] ∧
      leaveWorld.addedSids restrictedMember.accessToken = [sandboxSid] ∧
      ∃ f, filterAccessToken restrictedMember leaveWorld = .ok f ∧
        NeverRaises restrictedMember.accessToken f.accessToken := by
  have hkept : leaveWorld.keptSids restrictedMember.accessToken = [userSid] := by decide
  have hadded : leaveWorld.addedSids restrictedMember.accessToken = [sandboxSid] := by decide
  refine ⟨by decide, hkept, hadded, _, rfl,
    (filterAccessToken_neverRaises_iff restrictedMember _ leaveWorld rfl).mpr (.inr ⟨?_, ?_⟩)⟩
  · rw [hkept, hadded]
    decide
  · rw [hkept]
    refine .inr (.inr ⟨fun _ => Matches.mono ?_, fun _ => Matches.mono ?_⟩) <;> decide

/-!
## Token duplication

An effective-only duplicate keeps the enabled groups and privileges of a token.  What goes away
allows nothing, but a group can match a denying ACE whether it is enabled or not.  So the
duplicate may be granted what the token is denied, and `duplicate_neverRaises_iff` says when
that cannot happen.
-/

/-- `TokenType` -/
inductive TokenType
  | primary
  | impersonation
  deriving DecidableEq, Repr

/-- `SecurityImpersonationLevel`, in ascending order. -/
inductive SecurityImpersonationLevel
  | anonymous
  | identification
  | impersonation
  | delegation
  deriving DecidableEq, Repr

/-- `AccessToken`, as far as duplication reads or writes it. -/
structure TypedToken extends TokenBody where
  tokenType : TokenType
  impersonationLevel : SecurityImpersonationLevel
  deriving DecidableEq

/-- The one status that duplication fails with. -/
inductive DuplicateError
  | badImpersonationLevel
  deriving DecidableEq, Repr

/-- `AccessToken::duplicate` -/
def TypedToken.duplicate (source : TypedToken) (tokenType : TokenType)
    (impersonationLevel : SecurityImpersonationLevel) (effectiveOnly : Bool) :
    Except DuplicateError TypedToken :=
  if source.tokenType = .impersonation ∧
      (source.impersonationLevel.ctorIdx < impersonationLevel.ctorIdx ∨
        tokenType = .primary ∧ source.impersonationLevel.ctorIdx <
          SecurityImpersonationLevel.impersonation.ctorIdx) then
    .error .badImpersonationLevel
  else
    let duplicate := { source with
      tokenType
      impersonationLevel := if tokenType = .impersonation then impersonationLevel else .anonymous }
    .ok (if effectiveOnly then
        { duplicate with
          groups := duplicate.groups.filter TokenGroup.isEnabled
          privileges := duplicate.privileges.filter fun privilege => privilege.enabled }
      else duplicate)

/-! ### What a duplicate keeps -/

/-- The SIDs that an effective-only duplicate of a token is no longer denied by: those of its
groups that are neither the user nor the SID of an enabled group. -/
def AccessToken.lostSids (t : AccessToken) (effectiveOnly : Bool) : List Sid :=
  if effectiveOnly then
    (t.groups.map TokenGroup.sid).filter fun sid => decide (sid ≠ t.user) &&
      !t.groups.any fun group => group.isEnabled && decide (group.sid = sid)
  else []

/-- What duplication makes of a token, as the access check sees it. -/
structure Trimmed (effectiveOnly : Bool) (t d : AccessToken) : Prop where
  allow : d.allowSids = t.allowSids
  deny : ∀ sid, sid ∈ t.denySids ↔ sid ∈ d.denySids ∨ sid ∈ t.lostSids effectiveOnly
  lost : ∀ sid ∈ t.lostSids effectiveOnly, sid ∉ d.denySids
  privilege : ∀ name, d.hasPrivilege name = t.hasPrivilege name
  restricted : d.restrictedSids = t.restrictedSids

theorem trimmed_of_duplicate {t d : TypedToken} {tokenType : TokenType}
    {level : SecurityImpersonationLevel} {effectiveOnly : Bool}
    (e : t.duplicate tokenType level effectiveOnly = .ok d) :
    Trimmed effectiveOnly t.accessToken d.accessToken := by
  rw [TypedToken.duplicate] at e
  split at e
  · cases e
  obtain rfl := Except.ok.inj e
  cases effectiveOnly with
  | false => exact ⟨rfl, fun sid => by simp [AccessToken.lostSids], by simp [AccessToken.lostSids],
      fun _ => rfl, rfl⟩
  | true =>
    refine ⟨?_, fun sid => ?_, fun sid hsid => ?_, fun name => ?_, rfl⟩
    · simp only [AccessToken.allowSids, TokenBody.accessToken, if_true, List.filter_filter]
      congr 3
      funext group
      cases group.isEnabled <;> simp
    · simp only [AccessToken.denySids, AccessToken.lostSids, TokenBody.accessToken, if_true,
        mem_cons, mem_map, mem_filter, Bool.and_eq_true, Bool.not_eq_true', any_eq_false,
        decide_eq_true_eq]
      by_cases huser : sid = t.user
      · simp [huser]
      by_cases henabled : ∃ group ∈ t.groups, group.isEnabled = true ∧ group.sid = sid
      · obtain ⟨group, hgroup, hyes, rfl⟩ := henabled
        exact ⟨fun _ => .inl (.inr ⟨group, ⟨hgroup, hyes⟩, rfl⟩),
          fun _ => .inr ⟨group, hgroup, rfl⟩⟩
      · grind
    · grind [AccessToken.denySids, AccessToken.lostSids, TokenBody.accessToken]
    · rw [Bool.eq_iff_iff, hasPrivilege_eq, hasPrivilege_eq]
      simp only [if_true, List.mem_filter]
      exact exists_congr fun privilege => by tauto

/-! ### When duplication never raises authority -/

/-- The SIDs that a duplicate of `t` is no longer denied by do no harm: no ACE can match them, or
no ACE allows `t` anything, or else `t` is restricted and the walk for its restricting SIDs allows
nothing or, with no SID that the ordinary walk does not have, is denied by them as well. -/
def HarmlessLoss (t : AccessToken) (effectiveOnly : Bool) : Prop :=
  (∀ sid, ¬ Matches (t.lostSids effectiveOnly) sid) ∨
    (∀ sid, ¬ Matches t.allowSids sid) ∨
    t.isRestricted = true ∧ ((∀ sid, ¬ Matches t.restrictedAllowSids sid) ∨
      (∀ sid, Matches t.restrictedAllowSids sid → Matches t.allowSids sid) ∧
        ∀ sid, Matches (t.lostSids effectiveOnly) sid → Matches t.restrictedDenySids sid)

section Compare

variable {t d : AccessToken} {effectiveOnly : Bool} {mapping : GenericMapping} {right : Fin 32}
  {aces : List Ace}

theorem Trimmed.matches_deny (hd : Trimmed effectiveOnly t d) {sid : Sid} :
    Matches t.denySids sid ↔ Matches d.denySids sid ∨ Matches (t.lostSids effectiveOnly) sid := by
  rw [matches_iff, matches_iff, matches_iff, hd.deny, and_or_left]

/-- Only the denying SIDs of the first walk differ. -/
theorem Trimmed.daclAllows_iff (hd : Trimmed effectiveOnly t d) :
    DaclAllows d mapping aces right ↔ allowedFor t.allowSids d.denySids mapping aces right = true ∧
      (t.isRestricted = true →
        allowedFor t.restrictedAllowSids t.restrictedDenySids mapping aces right = true) := by
  simp only [DaclAllows, hd.allow, AccessToken.isRestricted, AccessToken.restrictedAllowSids,
    AccessToken.restrictedDenySids, hd.restricted]

theorem Trimmed.daclAllows (hd : Trimmed effectiveOnly t d) (hh : HarmlessLoss t effectiveOnly)
    (h : DaclAllows d mapping aces right) : DaclAllows t mapping aces right := by
  obtain ⟨hfirst, hsecond⟩ := hd.daclAllows_iff.mp h
  refine ⟨?_, hsecond⟩
  rcases hh with hdeny | hnone | ⟨ht, hnone | ⟨hallow, hdeny⟩⟩
  · refine allowedFor_mono aces (fun _ hsid => hsid) (fun sid hsid => ?_) hfirst
    exact (hd.matches_deny.mp hsid).resolve_right (hdeny sid)
  · rw [allowedFor_of_no_match aces hnone] at hfirst
    cases hfirst
  · have hpass := hsecond ht
    rw [allowedFor_of_no_match aces hnone] at hpass
    cases hpass
  · refine allowedFor_of_both aces (fun _ hsid => hsid) hallow (fun sid hsid => ?_) hfirst
      (hsecond ht)
    exact (hd.matches_deny.mp hsid).imp_right (hdeny sid)

theorem Trimmed.neverRaises (hd : Trimmed effectiveOnly t d)
    (hh : HarmlessLoss t effectiveOnly) : NeverRaises t d := by
  refine neverRaises_of_parts (fun name h => hd.privilege name ▸ h) (fun sd h => ?_)
    fun _ _ _ => hd.daclAllows hh
  simpa only [tokenIsOwner, hd.allow, AccessToken.isRestricted, AccessToken.restrictedAllowSids,
    hd.restricted] using h

/-- A SID that `d` is no longer denied by, in front of one that both are allowed by, tells the
tokens apart; if they are restricted, one more ACE makes the second walk pass. -/
theorem Trimmed.harmless_of_neverRaises (hd : Trimmed effectiveOnly t d) (h : NeverRaises t d) :
    HarmlessLoss t effectiveOnly := by
  by_contra hharm
  simp only [HarmlessLoss, not_or, not_and, not_forall, not_not] at hharm
  obtain ⟨⟨lost, hidle⟩, ⟨sid, hsid⟩, hrestricted⟩ := hharm
  have hgone : ∀ {lost}, Matches (t.lostSids effectiveOnly) lost →
      Matches t.denySids lost ∧ ¬ Matches d.denySids lost := fun hidle =>
    ⟨hd.matches_deny.mpr (.inr hidle),
      fun hkept => hd.lost _ (matches_iff.mp hidle).2 (matches_iff.mp hkept).2⟩
  obtain ⟨hlost, hkept⟩ := hgone hidle
  cases ht : t.isRestricted with
  | false =>
    refine raises_of_dacl [firstRightAce .accessDenied lost, firstRightAce .accessAllowed sid]
      (hd.daclAllows_iff.mpr ?_) ?_ h <;>
      simp [DaclAllows, allowedFor_firstRightAce, ht, hlost, hkept, hsid]
  | true =>
    obtain ⟨⟨other, hother⟩, hrest⟩ := hrestricted ht
    by_cases hsub : ∀ sid, Matches t.restrictedAllowSids sid → Matches t.allowSids sid
    · obtain ⟨lost, hidle, hpast⟩ := hrest hsub
      obtain ⟨hlost, hkept⟩ := hgone hidle
      refine raises_of_dacl [firstRightAce .accessDenied lost, firstRightAce .accessAllowed sid,
        firstRightAce .accessAllowed other] (hd.daclAllows_iff.mpr ?_) ?_ h <;>
        simp [DaclAllows, allowedFor_firstRightAce, hlost, hkept, hsid, hother, hpast]
    · push Not at hsub
      obtain ⟨other, hother, hnot⟩ := hsub
      refine raises_of_dacl [firstRightAce .accessAllowed other, firstRightAce .accessDenied lost,
        firstRightAce .accessAllowed sid] (hd.daclAllows_iff.mpr ?_) ?_ h <;>
        simp [DaclAllows, allowedFor_firstRightAce, hlost, hkept, hsid, hother, hnot]

end Compare

/-! ### The result -/

/-- A user's primary token. -/
def primaryToken (groups : List TokenGroup) : TypedToken :=
  { userToken [] with groups, tokenType := .primary, impersonationLevel := .anonymous }

/-- A disabled group denies the token what its effective-only duplicate is granted. -/
theorem duplicating_raises_authority :
    ∃ d, (primaryToken [⟨worldSid, 0⟩]).duplicate .primary .anonymous true = .ok d ∧
      let sd : SecurityDescriptor := ⟨none, some [firstRightAce .accessDenied worldSid,
        firstRightAce .accessAllowed userSid]⟩
      (accessCheck sd d.accessToken 1#32 trivialMapping .userMode).status = .success ∧
      (accessCheck sd (primaryToken [⟨worldSid, 0⟩]).accessToken 1#32 trivialMapping
        .userMode).status = .accessDenied := by
  refine ⟨_, rfl, ?_⟩
  decide

/-- **Token duplication.**  The access check grants a duplicate no more than the token exactly
if the SIDs of the groups that it drops do no harm. -/
theorem duplicate_neverRaises_iff (t d : TypedToken) (tokenType : TokenType)
    (level : SecurityImpersonationLevel) (effectiveOnly : Bool)
    (e : t.duplicate tokenType level effectiveOnly = .ok d) :
    NeverRaises t.accessToken d.accessToken ↔ HarmlessLoss t.accessToken effectiveOnly := by
  have hd := trimmed_of_duplicate e
  exact ⟨hd.harmless_of_neverRaises, hd.neverRaises⟩

/-- A member of two groups, one of them disabled, that is restricted to the same two SIDs. -/
def restrictedToGroups : TypedToken :=
  { primaryToken [⟨worldSid, seGroupEnabled⟩, ⟨sandboxSid, 0⟩] with
    restrictedSids := [⟨worldSid, seGroupEnabled⟩, ⟨sandboxSid, 0⟩] }

/-- The effective-only duplicate loses the disabled group, whose SID still denies it as a
restricting one. -/
theorem duplicate_neverRaises_restrictedToGroups :
    restrictedToGroups.accessToken.lostSids true = [sandboxSid] ∧
      ∃ d, restrictedToGroups.duplicate .impersonation .delegation true = .ok d ∧
        NeverRaises restrictedToGroups.accessToken d.accessToken := by
  have hlost : restrictedToGroups.accessToken.lostSids true = [sandboxSid] := by decide
  refine ⟨hlost, _, rfl, (duplicate_neverRaises_iff restrictedToGroups _ _ _ _ rfl).mpr
    (.inr (.inr ⟨by decide, .inr ⟨fun _ => Matches.mono ?_, fun _ => Matches.mono ?_⟩⟩))⟩
  · decide
  · rw [hlost]
    decide

end UserspaceNtos.Security
