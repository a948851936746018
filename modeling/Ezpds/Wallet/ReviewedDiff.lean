import Ezpds.Wallet.Migration
import Ezpds.Wallet.OverrideSound

/-!
# The diff that the user reviews

Both builders return the signed operation with a diff of it. The keys of the diff are always
those of the operation. The services are not: the diff of a migration is one line about the
service of the server, whatever else the identity had, and the diff of an override compares
endpoints only.

* `migrationDiff_iff`, `overrideDiff_iff`: when the diff is the change that was signed.
-/

namespace Ezpds.Wallet

open Library Crypto

/-! ## The difference of two states -/

/-- The change of one service between two states. -/
def serviceDifference (before after : StringMap PlcService) (id : String) :
    Option ServiceChange :=
  match before.get? id, after.get? id with
  | some old, some new =>
    if old = new then none
    else some {
      id, changeType := .modified, oldEndpoint := some old.endpoint
      newEndpoint := some new.endpoint }
  | none, some new =>
    some { id, changeType := .added, oldEndpoint := none, newEndpoint := some new.endpoint }
  | some old, none =>
    some { id, changeType := .removed, oldEndpoint := some old.endpoint, newEndpoint := none }
  | none, none => none

/-- The diff names every key and every service that changes, and no others. -/
structure DiffExact (before : OpState) (after : SignedPlcOp) (diff : OpDiff) : Prop where
  addedKeys : ∀ key, key ∈ diff.addedKeys ↔
    key ∈ after.rotationKeys ∧ key ∉ before.rotationKeys
  removedKeys : ∀ key, key ∈ diff.removedKeys ↔
    key ∈ before.rotationKeys ∧ key ∉ after.rotationKeys
  changedServices : ∀ change, change ∈ diff.changedServices ↔
    ∃ id, serviceDifference before.services after.services id = some change

/-- The map that a field says, an empty one where there is no such field. -/
def SaysMap {V : Type} (Reads : Json → V → Prop) (found : Option Json) (m : StringMap V) : Prop :=
  (∃ j, found = some j ∧ ReadsMap Reads j m) ∨ found = none ∧ m = SortedMap.empty

/-- The keys and services that an operation says. -/
structure SaysState (operation : Json) (state : OpState) : Prop where
  rotationKeys : member operation "rotationKeys" = some (jsonTexts state.rotationKeys) ∨
    member operation "rotationKeys" = none ∧ state.rotationKeys = []
  services : SaysMap ReadsService (member operation "services") state.services

/-- The diff is the difference between the newest entry and the signed operation. -/
def Reviewed (auditLog : List AuditEntry) (diff : OpDiff) (signedOp : Json) : Prop :=
  ∃ tip before op, latestEntry auditLog = some tip ∧ SaysState tip.operation before ∧
    SignedPlcOp.fromJson signedOp = some op ∧ DiffExact before op diff

theorem serviceDifference_id {before after : StringMap PlcService} {id : String}
    {change : ServiceChange} (h : serviceDifference before after id = some change) :
    change.id = id := by
  unfold serviceDifference at h
  split at h
  · split at h
    · cases h
    · cases h
      rfl
  · cases h
    rfl
  · cases h
    rfl
  · cases h

theorem serviceChange_id {before after : StringMap PlcService} {id : String}
    {change : ServiceChange} (h : serviceChange before after id = some change) :
    change.id = id := by
  unfold serviceChange at h
  split at h
  · split at h
    · cases h
    · cases h
      rfl
  · cases h
    rfl
  · cases h
    rfl
  · cases h

/-! ## The diff of an override -/

/-- No service changes its type alone. -/
def TypesFollowEndpoints (before after : StringMap PlcService) : Prop :=
  ∀ id old new, before.get? id = some old → after.get? id = some new →
    old.endpoint = new.endpoint → old = new

theorem serviceChange_eq {before after : StringMap PlcService} {id : String}
    (h : ∀ old new, before.get? id = some old → after.get? id = some new →
      old.endpoint = new.endpoint → old = new) :
    serviceChange before after id = serviceDifference before after id := by
  unfold serviceChange serviceDifference
  cases hOld : before.get? id with
  | none => cases after.get? id <;> rfl
  | some old =>
    cases hNew : after.get? id with
    | none => rfl
    | some new =>
      by_cases hEq : old = new
      · simp [hEq]
      · have hEndpoint : old.endpoint ≠ new.endpoint := fun h' => hEq (h old new hOld hNew h')
        simp [hEq, hEndpoint]

theorem mem_collected {V : Type} {entries : List (String × V)} {m : StringMap V} {key : String}
    (h : key ∈ entries.map Prod.fst ∨ (m.get? key).isSome = true) :
    ((entries.foldl (fun m e => m.insert e.1 e.2) m).get? key).isSome = true := by
  induction entries generalizing m with
  | nil => simpa using h
  | cons e entries ih =>
    have hInsert : (m.insert e.1 e.2).get? key = if e.1 = key then some e.2 else m.get? key :=
      @SortedMap.get?_set _ _ _ m e.1 key (some e.2)
    apply ih
    rw [hInsert]
    by_cases hKey : e.1 = key
    · exact Or.inr (by rw [if_pos hKey]; rfl)
    · rw [if_neg hKey]
      rcases h with h | h
      · rcases List.mem_cons.mp h with rfl | h
        · exact absurd rfl hKey
        · exact Or.inl h
      · exact Or.inr h

/-- Every id of either map is among the ids that are compared. -/
theorem mem_serviceIds {before after : StringMap PlcService} {id : String}
    (h : (before.get? id).isSome = true ∨ (after.get? id).isSome = true) :
    id ∈ serviceIds before after := by
  have hEntry : ∀ {m : StringMap PlcService}, (m.get? id).isSome = true →
      id ∈ m.entries.map Prod.fst := by
    intro m hSome
    obtain ⟨s, hs⟩ := Option.isSome_iff_exists.mp hSome
    exact List.mem_map_of_mem (f := Prod.fst) (mem_of_assocGet hs)
  have hIds : id ∈ ((before.entries ++ after.entries).map fun e => (e.1, ())).map Prod.fst := by
    rw [List.map_map, List.map_append]
    rcases h with h | h
    · exact List.mem_append_left _ (hEntry h)
    · exact List.mem_append_right _ (hEntry h)
  obtain ⟨u, hu⟩ := Option.isSome_iff_exists.mp (mem_collected (m := SortedMap.empty)
    (Or.inl hIds))
  exact List.mem_map_of_mem (f := Prod.fst) (mem_of_assocGet hu)

theorem mem_changedServices {before after : StringMap PlcService} {change : ServiceChange} :
    change ∈ (serviceIds before after).filterMap (serviceChange before after) ↔
      ∃ id, serviceChange before after id = some change := by
  rw [List.mem_filterMap]
  constructor
  · rintro ⟨id, _, hChange⟩
    exact ⟨id, hChange⟩
  · rintro ⟨id, hChange⟩
    refine ⟨id, mem_serviceIds ?_, hChange⟩
    unfold serviceChange at hChange
    cases hOld : before.get? id with
    | some old => exact Or.inl rfl
    | none =>
      cases hNew : after.get? id with
      | some new => exact Or.inr rfl
      | none => simp [hOld, hNew] at hChange

theorem missing_mem {l known : List String} {key : String} :
    key ∈ l.filter (fun k => !known.contains k) ↔ key ∈ l ∧ key ∉ known := by
  simp

theorem buildOpDiff_exact_iff {before : OpState} {after : SignedPlcOp} {state : VerifiedPlcOp}
    {cid : String} (hKeys : after.rotationKeys = state.rotationKeys)
    (hServices : after.services = state.services) :
    DiffExact before after (buildOpDiff before state cid) ↔
      TypesFollowEndpoints before.services after.services := by
  constructor
  · intro h id old new hOld hNew hEndpoint
    by_contra hNe
    have hDifference : serviceDifference before.services after.services id = some {
        id, changeType := .modified, oldEndpoint := some old.endpoint
        newEndpoint := some new.endpoint } := by
      simp [serviceDifference, hOld, hNew, hNe]
    obtain ⟨id', hChange⟩ := mem_changedServices.mp
      ((h.changedServices _).mpr ⟨id, hDifference⟩)
    obtain rfl : id = id' := serviceChange_id hChange
    rw [← hServices] at hChange
    simp [serviceChange, hOld, hNew, hEndpoint] at hChange
  · intro h
    refine ⟨fun key => ?_, fun key => ?_, fun change => ?_⟩
    · rw [hKeys]
      exact missing_mem
    · rw [hKeys]
      exact missing_mem
    · have hSame : ∀ id, serviceChange before.services state.services id =
          serviceDifference before.services after.services id := by
        intro id
        rw [← hServices]
        exact serviceChange_eq (h id)
      exact mem_changedServices.trans (exists_congr fun id => by rw [hSame id])

/-! ## What the override takes for the current state -/

theorem fromJson_of_reads {j : Json} {s : PlcService} (hValue : IsValue j)
    (h : ReadsService j s) : PlcService.fromJson j = some s := by
  cases j with
  | object members =>
    have hType : members.lookup "type" = some (.string s.serviceType) := h.1
    have hEndpoint : members.lookup "endpoint" = some (.string s.endpoint) := h.2
    have hDistinct : distinctMembers ["type", "endpoint"] members = true :=
      decide_eq_true (hValue.object.1.filter _)
    rw [PlcService.fromJson, hDistinct, hType, hEndpoint]
    rfl
  | _ => cases h.1

theorem mapOf_of_reads {j : Json} {m : StringMap PlcService} (hValue : IsValue j)
    (h : ReadsMap ReadsService j m) : mapOf PlcService.fromJson j = some m := by
  obtain ⟨members, entries, rfl, hEntries, rfl⟩ := h
  have hRead : members.mapM (readMember PlcService.fromJson) = some entries := by
    apply mapM_some.mpr
    have hValues := hValue.object.2
    clear hValue
    induction hEntries with
    | nil => exact .nil
    | cons hHead _ ih =>
      rw [List.forall_mem_cons] at hValues
      refine .cons ?_ (ih hValues.2)
      rw [readMember, fromJson_of_reads hValues.1 hHead.2, hHead.1]
      rfl
  rw [mapOf, hRead]
  rfl

theorem filterMap_textOf (l : List String) : (l.map Json.string).filterMap textOf = l := by
  rw [List.filterMap_map]
  exact List.filterMap_some

/-- Where the newest entry says its keys and services, the display has them. -/
theorem currentState_of_saysState {auditLog : List AuditEntry} {tip : AuditEntry} {before : OpState}
    (hTip : latestEntry auditLog = some tip) (hValue : IsValue tip.operation)
    (hSays : SaysState tip.operation before) : currentStateFromAuditLog auditLog = before := by
  have hKeys : ((member tip.operation "rotationKeys" >>= arrayOf).map
      fun items => items.filterMap textOf).getD [] = before.rotationKeys := by
    rcases hSays.rotationKeys with hFound | ⟨hNone, hEmpty⟩
    · rw [hFound]
      exact filterMap_textOf _
    · rw [hNone, hEmpty]
      rfl
  have hServices : (member tip.operation "services" >>= mapOf PlcService.fromJson).getD
      SortedMap.empty = before.services := by
    rcases hSays.services with ⟨j, hFound, hReads⟩ | ⟨hNone, hEmpty⟩
    · rw [hFound, Option.bind_eq_bind, Option.bind_some,
        mapOf_of_reads (hValue.member hFound) hReads]
      rfl
    · rw [hNone, hEmpty]
      rfl
  rw [currentStateFromAuditLog, hTip]
  cases before
  exact congr (congrArg OpState.mk hKeys) hServices

section Override

variable {crates : PlcCrates} {clock : RecoveryClock} {sources : WalletSources} {did target : String}
  {auditLog : List AuditEntry} {deviceKey : DidKeyUri} {built : SignedRecoveryOp}

/-- Between the newest entry and the last one before the target that the device key signed, no
service changes its type alone. -/
def TypesKept (crates : PlcCrates) (auditLog : List AuditEntry) (target : String)
    (deviceKey : DidKeyUri) : Prop :=
  ∃ tip before older fork skipped entry newer forkOp,
    latestEntry auditLog = some tip ∧ SaysState tip.operation before ∧
    Around auditLog target older fork skipped entry newer ∧
    isSignedBy crates deviceKey fork.operation = true ∧
    (∀ e ∈ skipped, isSignedBy crates deviceKey e.operation = false) ∧
    SignedPlcOp.fromJson fork.operation = some forkOp ∧
    TypesFollowEndpoints before.services forkOp.services

theorem overrideDiff_iff (hTexts : TextsReadBack crates auditLog target deviceKey)
    (hLog : ∃ json, sources.fetchAuditLog did = .ok json ∧ parseAuditLog crates json = .ok auditLog)
    (hDevice : sources.getOrCreateDeviceKey did = .ok deviceKey.uri)
    (hBuilt : buildRecoveryOverride crates clock sources did target = .ok built) :
    Reviewed auditLog built.diff built.signedOp ↔ TypesKept crates auditLog target deviceKey := by
  obtain ⟨auditLog', deviceKey', fork, state, run⟩ := buildRecoveryOverride_ok hBuilt
  obtain rfl : auditLog' = auditLog := run.log_unique hLog
  obtain rfl : deviceKey' = deviceKey := run.device_unique hDevice
  obtain ⟨older, skipped, entry, newer, hAround, hSkipped, hVerified⟩ :=
    findForkPoint_ok run.forkPoint
  have hSigned := isSignedBy_of_verified hVerified
  obtain ⟨sig, hOp⟩ := run.counter hTexts
  obtain ⟨forkOp, hForkOp, op, hOp', _, hSame⟩ := run.restores hTexts
  obtain rfl : counterOp fork state sig = op := Option.some.inj (hOp.symm.trans hOp')
  obtain ⟨json, _, hParse⟩ := hLog
  have hExact : ∀ tip before, latestEntry auditLog' = some tip → SaysState tip.operation before →
      (DiffExact before (counterOp fork state sig) built.diff ↔
        TypesFollowEndpoints before.services forkOp.services) := by
    intro tip before hTip hSays
    have hMem : tip ∈ auditLog' := List.mem_reverse.mp (List.mem_of_find?_eq_some hTip)
    rw [run.diff, currentState_of_saysState hTip (isValue_operation hParse tip hMem) hSays,
      ← hSame.services]
    exact buildOpDiff_exact_iff rfl rfl
  constructor
  · rintro ⟨tip, before, op, hTip, hSays, hFound, hDiff⟩
    obtain rfl : counterOp fork state sig = op := Option.some.inj (hOp.symm.trans hFound)
    exact ⟨tip, before, older, fork, skipped, entry, newer, forkOp, hTip, hSays, hAround, hSigned,
      hSkipped, hForkOp, (hExact tip before hTip hSays).mp hDiff⟩
  · rintro ⟨tip, before, older', fork', skipped', entry', newer', forkOp', hTip, hSays, hAround',
      hSigned', hSkipped', hForkOp', hTypes⟩
    obtain ⟨hBefore, rfl, rfl⟩ := hAround.entries hAround'
    obtain ⟨rfl, rfl⟩ := last_unique
      (fun e => isSignedBy crates deviceKey' e.operation = true) hBefore hSigned hSigned'
      (fun e he => Bool.eq_false_iff.mp (hSkipped e he))
      (fun e he => Bool.eq_false_iff.mp (hSkipped' e he))
    obtain rfl : forkOp = forkOp' := Option.some.inj (hForkOp.symm.trans hForkOp')
    exact ⟨tip, before, counterOp fork state sig, hTip, hSays, hOp,
      (hExact tip before hTip hSays).mpr hTypes⟩

end Override

/-! ## The diff of a migration -/

theorem get?_collectMap_of_ne {V : Type} {entries : List (String × V)} {key : String}
    (h : ∀ e ∈ entries, e.1 ≠ key) : (collectMap entries).get? key = none := by
  have hFold : ∀ m : StringMap V,
      (entries.foldl (fun m e => m.insert e.1 e.2) m).get? key = m.get? key := by
    induction entries with
    | nil => exact fun _ => rfl
    | cons e entries ih =>
      intro m
      have hInsert : (m.insert e.1 e.2).get? key = if e.1 = key then some e.2 else m.get? key :=
        @SortedMap.get?_set _ _ _ m e.1 key (some e.2)
      rw [List.foldl_cons, ih fun d hd => h d (List.mem_cons_of_mem e hd), hInsert,
        if_neg (h e List.mem_cons_self)]
  exact hFold SortedMap.empty

/-- What the map has under a key, the object has under it too. -/
theorem lookup_of_readsMap {V : Type} {Reads : Json → V → Prop}
    {members : List (String × Json)} {m : StringMap V} (hValue : IsValue (.object members))
    (h : ReadsMap Reads (.object members) m) {key : String} {v : V}
    (hFound : m.get? key = some v) : ∃ j, members.lookup key = some j ∧ Reads j v := by
  obtain ⟨_, entries, ⟨⟩, hEntries, rfl⟩ := h
  have hNodup : (entries.map Prod.fst).Nodup :=
    keys_eq_of_entryRel hEntries ▸ hValue.object.1
  have hMem : (key, v) ∈ entries := by
    rcases (get?_foldl_insert hNodup).mp hFound with hMem | ⟨_, hEmpty⟩
    · exact hMem
    · cases hEmpty
  obtain ⟨⟨key', j⟩, hMember, rfl, hReads⟩ := exists_mem_of_forall₂ hEntries hMem
  exact ⟨j, lookup_of_nodup hValue.object.1 hMember, hReads⟩

/-- The endpoint of the server that the migration reads is the one that the entry says. -/
theorem endpoint_of_saysState {operation : Json} {before : OpState} (hValue : IsValue operation)
    (hSays : SaysState operation before) {id : String} {old : PlcService}
    (hOld : before.services.get? id = some old) :
    (member operation "services" >>= (member · id) >>= (member · "endpoint") >>= textOf) =
      some old.endpoint := by
  rcases hSays.services with ⟨j, hFound, hReads⟩ | ⟨_, hEmpty⟩
  · have hObject := hReads
    obtain ⟨members, _, rfl, _⟩ := hObject
    obtain ⟨svc, hSvc, hService⟩ := lookup_of_readsMap (hValue.member hFound) hReads hOld
    have hMember : member (.object members) id = some svc := hSvc
    simp only [hFound, Option.bind_eq_bind, Option.bind_some, hMember, hService.2]
    rfl
  · rw [hEmpty] at hOld
    cases hOld

theorem latestOpState_ok {auditLog : List AuditEntry} {current : CurrentState}
    (h : latestOpState auditLog = .ok current) :
    ∃ tip, latestEntry auditLog = some tip ∧
      member tip.operation "rotationKeys" = some (jsonTexts current.rotationKeys) ∧
      member tip.operation "alsoKnownAs" = some (jsonTexts current.alsoKnownAs) ∧
      current.pdsEndpoint = (member tip.operation "services" >>=
        (member · ATPROTO_PDS_SERVICE_ID) >>= (member · "endpoint") >>= textOf) := by
  obtain ⟨tip, hTip, h⟩ := bind_ok.mp h
  obtain ⟨rotationKeys, hKeys, h⟩ := bind_ok.mp h
  obtain ⟨_, _, h⟩ := bind_ok.mp h
  obtain ⟨alsoKnownAs, hAliases, h⟩ := bind_ok.mp h
  cases h
  exact ⟨tip, orError_ok.mp hTip, stringArrayField_ok.mp hKeys, stringArrayField_ok.mp hAliases,
    rfl⟩

/-- The guard leaves one service. -/
theorem guardMigrationOp_ok {debug : String → String} {inputs : MigrationInputs}
    (h : guardMigrationOp debug inputs = .ok ()) :
    inputs.proposedServiceIds = [ATPROTO_PDS_SERVICE_ID] := by
  obtain ⟨_, _, h⟩ := bind_ok.mp h
  obtain ⟨_, _, h⟩ := bind_ok.mp h
  obtain ⟨_, _, h⟩ := bind_ok.mp h
  obtain ⟨_, _, h⟩ := bind_ok.mp h
  obtain ⟨hLength, hFirst⟩ := Bool.and_eq_true_iff.mp (check_ok.mp h)
  obtain ⟨id, hId⟩ := List.length_eq_one_iff.mp (eq_of_beq hLength)
  rw [hId] at hFirst
  rw [hId, ← Option.some.inj (eq_of_beq hFirst)]

/-- The destination sets no other method. -/
theorem recommendedVerificationMethods_ok {recommended : RecommendedCredentials}
    {methods : StringMap String} (h : recommendedVerificationMethods recommended = .ok methods)
    {id : String} (hId : id ≠ ATPROTO_VERIFICATION_METHOD_ID) : methods.get? id = none := by
  obtain ⟨value, _, h⟩ := bind_ok.mp h
  obtain ⟨members, _, h⟩ := bind_ok.mp h
  obtain ⟨found, hFound, h⟩ := bind_ok.mp h
  obtain ⟨_, _, h⟩ := bind_ok.mp h
  cases h
  obtain ⟨entries, hEntries, hMap⟩ := bind_ok.mp hFound
  cases hMap
  apply get?_collectMap_of_ne
  intro e he hKey
  obtain ⟨⟨name, j⟩, _, hRead⟩ := exists_mem_of_forall₂ (mapM_ok.mp hEntries) he
  obtain ⟨key, hMethod, hEntry⟩ := bind_ok.mp hRead
  cases hEntry
  obtain ⟨_, hName, _⟩ := bind_ok.mp hMethod
  exact hId (hKey.symm.trans (eq_of_beq (check_ok.mp hName)))

section Migration

variable {crates : PlcCrates} {debug : String → String} {sources : WalletSources} {did : String}
  {recommended : Except String RecommendedCredentials} {auditLog : List AuditEntry}
  {built : SignedMigrationOp} {plan : MigrationPlan}

/-- The steps of a run. -/
structure MigrationRun (crates : PlcCrates) (sources : WalletSources)
    (recommended : Except String RecommendedCredentials) (did : String)
    (auditLog : List AuditEntry) (plan : MigrationPlan) (built : SignedMigrationOp) : Prop where
  fetched : ∃ json, sources.fetchAuditLog did = .ok json ∧ parseAuditLog crates json = .ok auditLog
  current : latestOpState auditLog = .ok plan.current
  answer : ∃ answer, recommended = .ok answer ∧
    recommendedVerificationMethods answer = .ok plan.methods ∧
    recommendedServices answer = .ok plan.services
  guarded : plan.services.entries.map Prod.fst = [ATPROTO_PDS_SERVICE_ID]
  signed : ∃ signed, signState crates MigrateError.identityNotFound .signingFailed "rotation"
    (sources.perDidSignClosure did) plan.state = .ok (signed, built.signedOp)
  diff : built.diff = buildMigrationDiff plan.current plan.rotationKeys plan.endpoint

theorem planMigration_ok (h : planMigration crates sources recommended did = .ok plan) :
    (∃ auditLog, (∃ json, sources.fetchAuditLog did = .ok json ∧
        parseAuditLog crates json = .ok auditLog) ∧
      latestOpState auditLog = .ok plan.current) ∧
    ∃ answer, recommended = .ok answer ∧
      recommendedVerificationMethods answer = .ok plan.methods ∧
      recommendedServices answer = .ok plan.services := by
  obtain ⟨deviceKeyId, _, h⟩ := bind_ok.mp h
  obtain ⟨json, hFetch, h⟩ := bind_ok.mp h
  obtain ⟨auditLog, hParse, h⟩ := bind_ok.mp h
  obtain ⟨current, hCurrent, h⟩ := bind_ok.mp h
  obtain ⟨answer, hAnswer, h⟩ := bind_ok.mp h
  obtain ⟨keys, _, h⟩ := bind_ok.mp h
  obtain ⟨methods, hMethods, h⟩ := bind_ok.mp h
  obtain ⟨services, hServices, h⟩ := bind_ok.mp h
  cases h
  exact ⟨⟨auditLog, ⟨json, mapError_ok.mp hFetch, mapError_ok.mp hParse⟩,
    mapError_ok.mp hCurrent⟩, answer, mapError_ok.mp hAnswer, mapError_ok.mp hMethods,
    mapError_ok.mp hServices⟩

theorem buildMigrationOp_ok
    (h : buildMigrationOp crates debug sources recommended did = .ok built) :
    ∃ auditLog plan, planMigration crates sources recommended did = .ok plan ∧
      MigrationRun crates sources recommended did auditLog plan built := by
  obtain ⟨plan, hPlan, h⟩ := bind_ok.mp h
  obtain ⟨_, hGuard, h⟩ := bind_ok.mp h
  obtain ⟨signed, hSigned, h⟩ := bind_ok.mp h
  cases h
  obtain ⟨⟨auditLog, hFetched, hCurrent⟩, hAnswer⟩ := planMigration_ok hPlan
  exact ⟨auditLog, plan, hPlan, {
    fetched := hFetched
    current := hCurrent
    answer := hAnswer
    guarded := guardMigrationOp_ok hGuard
    signed := ⟨signed.1, hSigned⟩
    diff := rfl }⟩

/-- The operation sets the aliases of the newest entry, its methods but the one of atproto, and
its services but the one of the server. -/
structure MigrationOnly (operation : Json) (op : SignedPlcOp) : Prop where
  alsoKnownAs : member operation "alsoKnownAs" = some (jsonTexts op.alsoKnownAs)
  verificationMethods : ∃ methods,
    SaysMap (fun j key => j = .string key) (member operation "verificationMethods") methods ∧
    ∀ id, id ≠ ATPROTO_VERIFICATION_METHOD_ID →
      op.verificationMethods.get? id = methods.get? id
  services : ∃ services, SaysMap ReadsService (member operation "services") services ∧
    ∀ id, id ≠ ATPROTO_PDS_SERVICE_ID → op.services.get? id = services.get? id

/-- The diff is the change that the operation makes, and it is a migration only. -/
def MigrationReviewed (auditLog : List AuditEntry) (built : SignedMigrationOp) : Prop :=
  Reviewed auditLog built.diff built.signedOp ∧
    ∃ tip op, latestEntry auditLog = some tip ∧
      SignedPlcOp.fromJson built.signedOp = some op ∧ MigrationOnly tip.operation op

/-- The newest entry has the method of atproto and the service of the server and no others, and
the destination recommends another service. -/
def MovesOneService (auditLog : List AuditEntry)
    (recommended : Except String RecommendedCredentials) : Prop :=
  ∃ tip before methods answer services old new,
    latestEntry auditLog = some tip ∧ SaysState tip.operation before ∧
    SaysMap (fun j key => j = .string key) (member tip.operation "verificationMethods") methods ∧
    (∀ id, id ≠ ATPROTO_VERIFICATION_METHOD_ID → methods.get? id = none) ∧
    (∀ id, id ≠ ATPROTO_PDS_SERVICE_ID → before.services.get? id = none) ∧
    before.services.get? ATPROTO_PDS_SERVICE_ID = some old ∧
    recommended = .ok answer ∧ recommendedServices answer = .ok services ∧
    services.get? ATPROTO_PDS_SERVICE_ID = some new ∧ old ≠ new

/-- The services of the plan are the one of the server. -/
theorem MigrationRun.service
    (run : MigrationRun crates sources recommended did auditLog plan built) :
    ∃ new, plan.services.get? ATPROTO_PDS_SERVICE_ID = some new ∧ plan.endpoint = new.endpoint ∧
      ∀ id, id ≠ ATPROTO_PDS_SERVICE_ID → plan.services.get? id = none := by
  obtain ⟨⟨key, new⟩, hEntries, hKey⟩ := List.map_eq_singleton_iff.mp run.guarded
  have hGet : ∀ id, plan.services.get? id = assocGet id [(key, new)] := by
    intro id
    rw [← hEntries]
    rfl
  have hNew : plan.services.get? ATPROTO_PDS_SERVICE_ID = some new := by
    rw [hGet, assocGet_cons, if_pos hKey]
  refine ⟨new, hNew, ?_, ?_⟩
  · rw [MigrationPlan.endpoint, hNew]
    rfl
  · intro id hId
    rw [hGet, assocGet_cons, if_neg (fun hEq => hId (hEq.symm.trans hKey)), assocGet_nil]

/-- A single line about one service is the difference exactly when that service is the only one
on both sides, and another one. -/
theorem singleChange_iff {before after : StringMap PlcService} {key : String} {new : PlcService}
    {oldEndpoint : Option String} (hNew : after.get? key = some new)
    (hOthers : ∀ id, id ≠ key → after.get? id = none)
    (hOld : ∀ old, before.get? key = some old → oldEndpoint = some old.endpoint) :
    (∀ change, change ∈ [({
        id := key, changeType := .modified, oldEndpoint
        newEndpoint := some new.endpoint } : ServiceChange)] ↔
      ∃ id, serviceDifference before after id = some change) ↔
    (∀ id, id ≠ key → before.get? id = none) ∧ ∃ old, before.get? key = some old ∧ old ≠ new := by
  constructor
  · intro h
    constructor
    · intro id hId
      by_contra hSome
      obtain ⟨old, hFound⟩ := Option.ne_none_iff_exists'.mp hSome
      have hRemoved : serviceDifference before after id = some {
          id, changeType := .removed, oldEndpoint := some old.endpoint, newEndpoint := none } := by
        rw [serviceDifference, hFound, hOthers id hId]
      have hListed := List.mem_singleton.mp ((h _).mpr ⟨id, hRemoved⟩)
      exact hId (congrArg ServiceChange.id hListed)
    · obtain ⟨id, hChange⟩ := (h _).mp (List.mem_singleton_self _)
      obtain rfl := serviceDifference_id hChange
      cases hFound : before.get? key with
      | none => simp [serviceDifference, hFound, hNew] at hChange
      | some old =>
        refine ⟨old, rfl, ?_⟩
        rintro rfl
        simp [serviceDifference, hFound, hNew] at hChange
  · rintro ⟨hBefore, old, hFound, hNe⟩ change
    have hKey : serviceDifference before after key = some {
        id := key, changeType := .modified, oldEndpoint, newEndpoint := some new.endpoint } := by
      rw [serviceDifference, hFound, hNew, hOld old hFound]
      exact if_neg hNe
    rw [List.mem_singleton]
    constructor
    · rintro rfl
      exact ⟨key, hKey⟩
    · rintro ⟨id, hChange⟩
      by_cases hId : id = key
      · rw [hId, hKey] at hChange
        exact (Option.some.inj hChange).symm
      · rw [serviceDifference, hBefore id hId, hOthers id hId] at hChange
        cases hChange

theorem jsonTexts_injective : Function.Injective jsonTexts := by
  intro l l' h
  have hTexts := congrArg textsOf h
  rw [textsOf_jsonTexts, textsOf_jsonTexts] at hTexts
  exact Option.some.inj hTexts

theorem migrationDiff_iff
    (hLog : ∃ json, sources.fetchAuditLog did = .ok json ∧ parseAuditLog crates json = .ok auditLog)
    (hReads : ∀ plan, planMigration crates sources recommended did = .ok plan →
      ReadsBack crates plan.state)
    (hBuilt : buildMigrationOp crates debug sources recommended did = .ok built) :
    MigrationReviewed auditLog built ↔ MovesOneService auditLog recommended := by
  obtain ⟨auditLog', plan, hPlan, run⟩ := buildMigrationOp_ok hBuilt
  obtain rfl : auditLog = auditLog' := by
    obtain ⟨json, hFetch, hParse⟩ := hLog
    obtain ⟨json', hFetch', hParse'⟩ := run.fetched
    obtain rfl : json = json' := Except.ok.inj (hFetch.symm.trans hFetch')
    exact Except.ok.inj (hParse.symm.trans hParse')
  obtain ⟨tip, hTip, hKeys, hAliases, hEndpoint⟩ := latestOpState_ok run.current
  obtain ⟨json, _, hParse⟩ := hLog
  have hValue : IsValue tip.operation :=
    isValue_operation hParse tip (List.mem_reverse.mp (List.mem_of_find?_eq_some hTip))
  obtain ⟨answer, hAnswer, hMethods, hServices⟩ := run.answer
  obtain ⟨new, hNew, hNewEndpoint, hOthers⟩ := run.service
  obtain ⟨signed, hSigned⟩ := run.signed
  obtain ⟨sig, hSignedOp⟩ := signState_value hSigned (hReads plan hPlan)
  have hOp : SignedPlcOp.fromJson built.signedOp = some (stateOp plan.state sig) := by
    rw [hSignedOp]
    exact fromJson_toValue _
  have hExact : ∀ before, SaysState tip.operation before →
      (DiffExact before (stateOp plan.state sig) built.diff ↔
        (∀ id, id ≠ ATPROTO_PDS_SERVICE_ID → before.services.get? id = none) ∧
        ∃ old, before.services.get? ATPROTO_PDS_SERVICE_ID = some old ∧ old ≠ new) := by
    intro before hSays
    have hSameKeys : before.rotationKeys = plan.current.rotationKeys := by
      rcases hSays.rotationKeys with hFound | ⟨hNone, _⟩
      · exact jsonTexts_injective (Option.some.inj (hFound.symm.trans hKeys))
      · rw [hNone] at hKeys
        cases hKeys
    have hOld : ∀ old, before.services.get? ATPROTO_PDS_SERVICE_ID = some old →
        plan.current.pdsEndpoint = some old.endpoint :=
      fun old hFound => hEndpoint.trans (endpoint_of_saysState hValue hSays hFound)
    have hChange := singleChange_iff hNew hOthers hOld
    rw [run.diff, buildMigrationDiff, hNewEndpoint]
    constructor
    · intro h
      exact hChange.mp h.changedServices
    · intro h
      refine ⟨fun key => ?_, fun key => ?_, hChange.mpr h⟩
      · rw [hSameKeys]
        exact missing_mem
      · rw [hSameKeys]
        exact missing_mem
  constructor
  · rintro ⟨⟨tip', before, op, hTip', hSays, hFound, hDiff⟩, tip'', op', hTip'', hFound', hOnly⟩
    obtain rfl := Option.some.inj (hTip.symm.trans hTip')
    obtain rfl := Option.some.inj (hTip.symm.trans hTip'')
    obtain rfl := Option.some.inj (hOp.symm.trans hFound)
    obtain rfl := Option.some.inj (hOp.symm.trans hFound')
    obtain ⟨methods, hSaysMethods, hSame⟩ := hOnly.verificationMethods
    obtain ⟨hNoOthers, old, hOld, hNe⟩ := (hExact before hSays).mp hDiff
    refine ⟨tip, before, methods, answer, plan.services, old, new, hTip, hSays, hSaysMethods, ?_,
      hNoOthers, hOld, hAnswer, hServices, hNew, hNe⟩
    intro id hId
    exact (hSame id hId).symm.trans (recommendedVerificationMethods_ok hMethods hId)
  · rintro ⟨tip', before, methods, answer', services, old, new', hTip', hSays, hSaysMethods,
      hNoMethods, hNoOthers, hOld, hAnswer', hServices', hNew', hNe⟩
    obtain rfl := Option.some.inj (hTip.symm.trans hTip')
    obtain rfl := Except.ok.inj (hAnswer.symm.trans hAnswer')
    obtain rfl := Except.ok.inj (hServices.symm.trans hServices')
    obtain rfl := Option.some.inj (hNew.symm.trans hNew')
    refine ⟨⟨tip, before, _, hTip, hSays, hOp, (hExact before hSays).mpr ⟨hNoOthers, old, hOld,
      hNe⟩⟩, tip, _, hTip, hOp, hAliases, ⟨methods, hSaysMethods, ?_⟩,
      ⟨before.services, hSays.services, ?_⟩⟩
    · intro id hId
      exact (recommendedVerificationMethods_ok hMethods hId).trans (hNoMethods id hId).symm
    · intro id hId
      exact (hOthers id hId).trans (hNoOthers id hId).symm

end Migration

/-- Both builders, for all logs that they are served. -/
theorem reviewed_diff_iff {crates : PlcCrates} {debug : String → String} {clock : RecoveryClock} :
    (∀ sources did recommended auditLog (built : SignedMigrationOp),
      (∃ json, sources.fetchAuditLog did = .ok json ∧ parseAuditLog crates json = .ok auditLog) →
      (∀ plan, planMigration crates sources recommended did = .ok plan →
        ReadsBack crates plan.state) →
      buildMigrationOp crates debug sources recommended did = .ok built →
        (MigrationReviewed auditLog built ↔ MovesOneService auditLog recommended)) ∧
    ∀ sources did target auditLog deviceKey (built : SignedRecoveryOp),
      (∃ json, sources.fetchAuditLog did = .ok json ∧ parseAuditLog crates json = .ok auditLog) →
      sources.getOrCreateDeviceKey did = .ok deviceKey.uri →
      TextsReadBack crates auditLog target deviceKey →
      buildRecoveryOverride crates clock sources did target = .ok built →
        (Reviewed auditLog built.diff built.signedOp ↔
          TypesKept crates auditLog target deviceKey) := by
  constructor
  · intro sources did recommended auditLog built hLog hReads hBuilt
    exact migrationDiff_iff hLog hReads hBuilt
  · intro sources did target auditLog deviceKey built hLog hDevice hTexts hBuilt
    exact overrideDiff_iff hTexts hLog hDevice hBuilt

/-! ## A migration of an identity with a labeler -/

def destinationKey : String := "did:key:zDnaegE6RR3atJtHKwTRTWHsJ3kNHqFwv7n9YjTgmU7TyfU76"

/-- What the new server recommends. -/
def destinationAnswer : RecommendedCredentials where
  rotationKeys := some [destinationKey]
  alsoKnownAs := none
  verificationMethods := some (.object [("atproto", .string destinationKey)])
  services := some (.object [("atproto_pds",
    (PlcService.mk "AtprotoPersonalDataServer" "https://pds.example.org").toJson)])

def labelerLog : List Served :=
  [(phoneCid, "2026-01-10T09:00:00.000Z", { phoneOp with
    services := phoneOp.services.insert "atproto_labeler"
      ⟨"AtprotoLabeler", "https://labeler.example.com"⟩ })]

/-- The plan for the new server, whose operation has one service in either case. -/
def movedPlan : MigrationPlan where
  deviceKeyId := sampleKey.uri
  current := {
    prevCid := phoneCid
    rotationKeys := phoneOp.rotationKeys
    alsoKnownAs := phoneOp.alsoKnownAs
    pdsEndpoint := some "https://pds.example.com" }
  recommendedKeys := [destinationKey]
  methods := methodsOf destinationKey
  services := serviceAt "https://pds.example.org"

def migrationCrates : PlcCrates :=
  overrideCrates [servedLog phoneLog, servedLog labelerLog, (stateOp movedPlan.state
    undoOp.sig).toJson]

theorem movedPlan_reads : ReadsBack migrationCrates movedPlan.state := by
  intro _
  exact @overrideCrates_reads _ [_, _] _ (stateOp movedPlan.state undoOp.sig).toJson rfl
    (by decide +kernel)

theorem movedPlan_planned {log : List Served}
    (hRead : migrationCrates.parseJson (printPlain (servedLog log)) = some (servedLog log))
    (hCurrent : latestOpState (log.map Served.entry) = .ok movedPlan.current) :
    planMigration migrationCrates (overrideSources log) (.ok destinationAnswer) servedDid =
      .ok movedPlan := by
  have hParse : parseAuditLog migrationCrates (printPlain (servedLog log)) =
      .ok (log.map Served.entry) := servedLog_parsed hRead
  refine bind_ok.mpr ⟨_, rfl, bind_ok.mpr ⟨_, rfl, ?_⟩⟩
  refine bind_ok.mpr ⟨_, mapError_ok.mpr hParse, ?_⟩
  exact bind_ok.mpr ⟨_, mapError_ok.mpr hCurrent, rfl⟩

theorem movedPlan_builds {log : List Served}
    (hRead : migrationCrates.parseJson (printPlain (servedLog log)) = some (servedLog log))
    (hCurrent : latestOpState (log.map Served.entry) = .ok movedPlan.current) :
    ∃ built, buildMigrationOp migrationCrates id (overrideSources log) (.ok destinationAnswer)
      servedDid = .ok built := by
  have hLow : LowSSignature migrationCrates undoSig := ⟨rfl, rfl, rfl⟩
  obtain ⟨signed, hSigned⟩ := @exists_signState _ _ MigrateError.identityNotFound .signingFailed
    "rotation" ((overrideSources log).perDidSignClosure servedDid) _ _ rfl hLow movedPlan_reads
  exact ⟨_, bind_ok.mpr ⟨movedPlan, movedPlan_planned hRead hCurrent,
    bind_ok.mpr ⟨(), rfl, bind_ok.mpr ⟨signed, hSigned, rfl⟩⟩⟩⟩

theorem phoneLog_read : migrationCrates.parseJson (printPlain (servedLog phoneLog)) =
    some (servedLog phoneLog) :=
  @overrideCrates_reads _ [] _ _ rfl (by simp)

theorem labelerLog_read : migrationCrates.parseJson (printPlain (servedLog labelerLog)) =
    some (servedLog labelerLog) :=
  @overrideCrates_reads _ [_] _ _ rfl (by decide +kernel)

/-- Read from the value of an operation. -/
theorem saysState_toValue (op : SignedPlcOp) :
    SaysState (toValue op.toJson) ⟨op.rotationKeys, op.services⟩ := by
  rw [toValue_toJson]
  exact {
    rotationKeys := Or.inl (congrArg some (toValue_jsonTexts op.rotationKeys))
    services := Or.inl ⟨_, rfl, readsMap_toValue readsService_toValue _⟩ }

theorem saysMethods_toValue (op : SignedPlcOp) : SaysMap (fun j key => j = .string key)
    (member (toValue op.toJson) "verificationMethods") op.verificationMethods := by
  rw [toValue_toJson]
  exact Or.inl ⟨_, rfl, readsMap_toValue (fun _ => rfl) _⟩

theorem get?_single {V : Type} {key : String} {v : V} {id : String} (h : id ≠ key) :
    (SortedMap.empty.insert key v).get? id = none := by
  have hSet := @SortedMap.get?_set _ _ _ SortedMap.empty key id (some v)
  exact hSet.trans (if_neg h.symm)

theorem reviewed_diff_iff_moved :
    (∃ built, buildMigrationOp migrationCrates id (overrideSources phoneLog)
        (.ok destinationAnswer) servedDid = .ok built ∧
      MigrationReviewed (phoneLog.map Served.entry) built) ∧
    buildRecoveryOverride (overrideCrates (overrideDocs takenLog)) overrideClock (overrideSources takenLog)
        servedDid takeoverCid = .ok (overrideBuilt takenLog) ∧
      Reviewed (takenLog.map Served.entry) (overrideBuilt takenLog).diff
        (overrideBuilt takenLog).signedOp := by
  constructor
  · have hPlan := movedPlan_planned phoneLog_read rfl
    obtain ⟨built, hBuilt⟩ := movedPlan_builds phoneLog_read rfl
    refine ⟨built, hBuilt, ((@reviewed_diff_iff migrationCrates id overrideClock).1 _ _ _ _ built
      ⟨_, rfl, servedLog_parsed phoneLog_read⟩ ?_ hBuilt).mpr ?_⟩
    · intro plan hOther
      cases hPlan.symm.trans hOther
      exact movedPlan_reads
    · exact ⟨phoneEntry, _, _, destinationAnswer, movedPlan.services,
        ⟨"AtprotoPersonalDataServer", "https://pds.example.com"⟩,
        ⟨"AtprotoPersonalDataServer", "https://pds.example.org"⟩, rfl, saysState_toValue phoneOp,
        saysMethods_toValue phoneOp, fun _ => get?_single, fun _ => get?_single, rfl, rfl, rfl, rfl,
        by decide⟩
  · refine ⟨takenLog_run.builds, ((@reviewed_diff_iff (overrideCrates (overrideDocs takenLog)) id
      overrideClock).2 _ _ _ _ sampleKey _ takenLog_run.fetched rfl takenLog_reads
      takenLog_run.builds).mpr ?_⟩
    refine ⟨_, _, _, _, _, _, _, phoneOp, rfl, saysState_toValue takeoverOp, takenLog_around,
      isSignedBy_of_verified (phone_verified _), by simp, fromJson_toValue phoneOp, ?_⟩
    intro id old new hOld hNew hEndpoint
    by_cases hId : id = "atproto_pds"
    · rw [hId] at hOld hNew
      cases hOld
      cases hNew
      exact absurd hEndpoint (by decide)
    · rw [show takeoverOp.services.get? id = none from get?_single hId] at hOld
      cases hOld

/-- The operation drops the labeler, and the diff does not say so. -/
theorem labeler_dropped_unseen : ∃ built,
    buildMigrationOp migrationCrates id (overrideSources labelerLog) (.ok destinationAnswer)
        servedDid = .ok built ∧
      ¬ MigrationReviewed (labelerLog.map Served.entry) built := by
  have hPlan := movedPlan_planned labelerLog_read rfl
  obtain ⟨built, hBuilt⟩ := movedPlan_builds labelerLog_read rfl
  refine ⟨built, hBuilt, ?_⟩
  intro hReviewed
  have hReads : ∀ plan, planMigration migrationCrates (overrideSources labelerLog)
      (.ok destinationAnswer) servedDid = .ok plan → ReadsBack migrationCrates plan.state := by
    intro plan hOther
    cases hPlan.symm.trans hOther
    exact movedPlan_reads
  obtain ⟨tip, before, _, _, _, _, _, hTip, hSays, _, _, hNoOthers, _⟩ :=
    (migrationDiff_iff ⟨_, rfl, servedLog_parsed labelerLog_read⟩ hReads hBuilt).mp hReviewed
  have hOperation : IsValue tip.operation := by
    cases hTip
    exact ⟨_, rfl⟩
  have hBefore := currentState_of_saysState hTip hOperation hSays
  have hNone := hNoOthers "atproto_labeler" (by decide +kernel)
  rw [← hBefore] at hNone
  exact absurd hNone (by decide +kernel)

end Ezpds.Wallet
