import Ezpds.Wallet.SignedOperation

/-!
# The identity leg of a migration

The wallet signs the operation that moves an identity to another server: its own key, the keys,
the method and the service that the destination recommends, and the handles of the newest
operation of the audit log.

* `guardMigrationOp`: what is checked before the signature.
* `buildMigrationOp`: the signed operation, with the diff for the review.
-/

namespace Ezpds.Wallet

open Library Crypto

def ATPROTO_PDS_SERVICE_ID : String := "atproto_pds"

def ATPROTO_VERIFICATION_METHOD_ID : String := "atproto"

inductive MigrateError where
  | walletNotAuthorized
  | guardRejected (reason : String)
  | invalidRecommendedCredentials (message : String)
  | invalidAuditLog (message : String)
  | signingFailed (message : String)
  | networkError (message : String)
  | identityNotFound (message : String)
  deriving DecidableEq, Repr

structure SignedMigrationOp where
  diff : OpDiff
  signedOp : Json
  opCid : String

/-! ## The guard -/

structure MigrationInputs where
  deviceKeyId : String
  currentRotationKeys : List String
  currentAlsoKnownAs : List String
  recommendedRotationKeys : List String
  proposedRotationKeys : List String
  proposedAlsoKnownAs : List String
  proposedServiceIds : List String

/-- `{:?}` of an optional text, with the quoting of a text. -/
def debugOption (debug : String → String) : Option String → String
  | none => "None"
  | some s => "Some(" ++ debug s ++ ")"

/-- `{:?}` of a list of texts. -/
def debugTexts (debug : String → String) (l : List String) : String :=
  "[" ++ ", ".intercalate (l.map debug) ++ "]"

def guardMigrationOp (debug : String → String) (inputs : MigrationInputs) :
    Except MigrateError Unit := do
  check (inputs.currentRotationKeys.contains inputs.deviceKeyId) .walletNotAuthorized
  check (inputs.proposedRotationKeys.head? == some inputs.deviceKeyId) (.guardRejected
    ("device key must be rotationKeys[0]; found " ++
      debugOption debug inputs.proposedRotationKeys.head?))
  (inputs.proposedRotationKeys.drop 1).forM fun key =>
    check (inputs.recommendedRotationKeys.contains key)
      (.guardRejected ("rotation key not recommended by destination: " ++ key))
  check (inputs.proposedAlsoKnownAs == inputs.currentAlsoKnownAs)
    (.guardRejected "alsoKnownAs (handle) must be preserved across migration")
  check (inputs.proposedServiceIds.length == 1 &&
      inputs.proposedServiceIds.head? == some ATPROTO_PDS_SERVICE_ID) (.guardRejected
    ("migration may only set the '" ++ ATPROTO_PDS_SERVICE_ID ++ "' service; found " ++
      debugTexts debug inputs.proposedServiceIds))

/-! ## The current state -/

structure CurrentState where
  prevCid : String
  rotationKeys : List String
  alsoKnownAs : List String
  pdsEndpoint : Option String

def latestOpState (auditLog : List AuditEntry) : Except String CurrentState := do
  let latest ← orError "audit log is empty or fully nullified" (latestEntry auditLog)
  let rotationKeys ← stringArrayField latest.operation "rotationKeys"
  check (!rotationKeys.isEmpty) "operation.rotationKeys is empty"
  let alsoKnownAs ← stringArrayField latest.operation "alsoKnownAs"
  let pdsEndpoint := member latest.operation "services" >>=
    (member · ATPROTO_PDS_SERVICE_ID) >>= (member · "endpoint") >>= textOf
  return { prevCid := latest.cid, rotationKeys, alsoKnownAs, pdsEndpoint }

/-! ## The recommended credentials -/

structure RecommendedCredentials where
  rotationKeys : Option (List String)
  alsoKnownAs : Option (List String)
  verificationMethods : Option Json
  services : Option Json

/-- The only method that a migration sets is the one of atproto. -/
def recommendedMethod (id : String) (key : Json) : Except String String := do
  check (id == ATPROTO_VERIFICATION_METHOD_ID) ("unexpected verificationMethods." ++ id ++
    "; only '" ++ ATPROTO_VERIFICATION_METHOD_ID ++ "' is allowed")
  orError ("verificationMethods." ++ id ++ " is not a string") (textOf key)

def recommendedVerificationMethods (recommended : RecommendedCredentials) :
    Except String (StringMap String) := do
  let value ← orError "destination did not recommend any verificationMethods"
    recommended.verificationMethods
  let obj ← orError "verificationMethods is not a JSON object" (objectOf value)
  let methods ← collectFields recommendedMethod obj
  check (methods.get? ATPROTO_VERIFICATION_METHOD_ID).isSome
    "destination recommended no 'atproto' verification method"
  return methods

def recommendedService (id : String) (svc : Json) : Except String PlcService := do
  let serviceType ← orError ("services." ++ id ++ " is missing a string 'type'")
    (member svc "type" >>= textOf)
  let endpoint ← orError ("services." ++ id ++ " is missing a string 'endpoint'")
    (member svc "endpoint" >>= textOf)
  return { serviceType, endpoint }

def recommendedServices (recommended : RecommendedCredentials) :
    Except String (StringMap PlcService) := do
  let value ← orError "destination did not recommend any services" recommended.services
  let obj ← orError "services is not a JSON object" (objectOf value)
  let services ← collectFields recommendedService obj
  check (services.get? ATPROTO_PDS_SERVICE_ID).isSome
    "destination recommended no 'atproto_pds' service"
  return services

def recommendedKeys (recommended : RecommendedCredentials) : Except String (List String) :=
  match recommended.rotationKeys with
  | some keys =>
    if keys.isEmpty then .error "destination recommended no rotation keys" else .ok keys
  | none => .error "destination recommended no rotation keys"

/-! ## The diff -/

def buildMigrationDiff (current : CurrentState) (proposedRotationKeys : List String)
    (proposedPdsEndpoint : String) : OpDiff where
  addedKeys := proposedRotationKeys.filter fun k => !current.rotationKeys.contains k
  removedKeys := current.rotationKeys.filter fun k => !proposedRotationKeys.contains k
  changedServices := [{
    id := ATPROTO_PDS_SERVICE_ID
    changeType := .modified
    oldEndpoint := current.pdsEndpoint
    newEndpoint := some proposedPdsEndpoint }]
  prevCid := some current.prevCid

/-! ## The operation -/

/-- What the operation is built from. -/
structure MigrationPlan where
  deviceKeyId : String
  current : CurrentState
  recommendedKeys : List String
  methods : StringMap String
  services : StringMap PlcService

namespace MigrationPlan

variable (plan : MigrationPlan)

def rotationKeys : List String :=
  plan.deviceKeyId :: plan.recommendedKeys.filter fun key => key != plan.deviceKeyId

def inputs : MigrationInputs where
  deviceKeyId := plan.deviceKeyId
  currentRotationKeys := plan.current.rotationKeys
  currentAlsoKnownAs := plan.current.alsoKnownAs
  recommendedRotationKeys := plan.recommendedKeys
  proposedRotationKeys := plan.rotationKeys
  proposedAlsoKnownAs := plan.current.alsoKnownAs
  proposedServiceIds := plan.services.entries.map Prod.fst

/-- The state that the operation sets. -/
def state : CurrentHandleState where
  prevCid := plan.current.prevCid
  rotationKeys := plan.rotationKeys
  verificationMethods := plan.methods
  alsoKnownAs := plan.current.alsoKnownAs
  services := plan.services

/-- `recommendedServices` has made sure of the service. -/
def endpoint : String :=
  ((plan.services.get? ATPROTO_PDS_SERVICE_ID).map (·.endpoint)).getD ""

end MigrationPlan

section Build

variable (crates : PlcCrates) (debug : String → String) (sources : WalletSources)

/-- `recommended` is what the destination answers. -/
def planMigration (recommended : Except String RecommendedCredentials) (did : String) :
    Except MigrateError MigrationPlan := do
  let deviceKeyId ← (sources.getOrCreateDeviceKey did).mapError fun e =>
    .identityNotFound ("failed to get device key: " ++ e)
  let logJson ← (sources.fetchAuditLog did).mapError fun e =>
    .networkError ("failed to fetch audit log: " ++ e)
  let auditLog ← (parseAuditLog crates logJson).mapError fun e =>
    .invalidAuditLog ("failed to parse audit log: " ++ e.text)
  let current ← (latestOpState auditLog).mapError .invalidAuditLog
  let recommended ← recommended.mapError fun e =>
    .networkError ("getRecommendedDidCredentials failed: " ++ e)
  let keys ← (recommendedKeys recommended).mapError .invalidRecommendedCredentials
  let methods ← (recommendedVerificationMethods recommended).mapError
    .invalidRecommendedCredentials
  let services ← (recommendedServices recommended).mapError .invalidRecommendedCredentials
  return { deviceKeyId, current, recommendedKeys := keys, methods, services }

def buildMigrationOp (recommended : Except String RecommendedCredentials) (did : String) :
    Except MigrateError SignedMigrationOp := do
  let plan ← planMigration crates sources recommended did
  guardMigrationOp debug plan.inputs
  let signed ← signState crates .identityNotFound .signingFailed "rotation"
    (sources.perDidSignClosure did) plan.state
  return {
    diff := buildMigrationDiff plan.current plan.rotationKeys plan.endpoint
    signedOp := signed.2
    opCid := signed.1.cid }

end Build

end Ezpds.Wallet
