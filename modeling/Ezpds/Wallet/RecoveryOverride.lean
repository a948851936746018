import Ezpds.Wallet.SignedOperation

/-!
# The recovery override

An operation that the device key did not sign can be undone within 72 hours: the wallet signs
the state of the last operation before it that the device key did sign, as the successor of that
operation, and the directory nullifies everything after it.

* `findForkPoint`: the walk back over the audit log.
* `buildRecoveryOverride`: the signed operation, with the diff for the review.
-/

namespace Ezpds.Wallet

open Library Crypto

inductive RecoveryError where
  | recoveryWindowExpired
  | signingFailed (message : String)
  | plcDirectoryError (message : String)
  | networkError (message : String)
  | identityNotFound (message : String)
  | unauthorizedChangeNotFound
  deriving DecidableEq, Repr

structure SignedRecoveryOp where
  diff : OpDiff
  signedOp : Json

/-! ## The fork point -/

section ForkPoint

variable (crates : PlcCrates)

/-- The loop over the entries before the target, the last one first. -/
def walkBack (deviceKey : DidKeyUri) :
    List AuditEntry → Except RecoveryError (AuditEntry × VerifiedPlcOp)
  | [] => .error (.signingFailed
      "No device-key-signed operation found before the unauthorized change")
  | entry :: earlier =>
    match verifyPlcOperation crates (crates.printJson entry.operation) [deviceKey] with
    | .ok verified => .ok (entry, verified)
    | .error _ => walkBack deviceKey earlier

def findForkPoint (auditLog : List AuditEntry) (unauthorizedOpCid : String)
    (deviceKey : DidKeyUri) : Except RecoveryError (AuditEntry × VerifiedPlcOp) :=
  match auditLog.findIdx? fun e => e.cid == unauthorizedOpCid with
  | none => .error .unauthorizedChangeNotFound
  | some 0 => .error (.signingFailed "Cannot recover from the genesis operation")
  | some targetIdx => walkBack crates deviceKey (auditLog.take targetIdx).reverse

end ForkPoint

/-! ## The diff -/

structure OpState where
  rotationKeys : List String
  services : StringMap PlcService

/-- For display only: what is malformed counts as empty. -/
def currentStateFromAuditLog (auditLog : List AuditEntry) : OpState :=
  match latestEntry auditLog with
  | none => { rotationKeys := [], services := SortedMap.empty }
  | some tip => {
      rotationKeys := ((member tip.operation "rotationKeys" >>= arrayOf).map
        fun items => items.filterMap textOf).getD []
      services := (member tip.operation "services" >>= mapOf PlcService.fromJson).getD
        SortedMap.empty }

/-- A `BTreeSet` of the ids of two maps. -/
def serviceIds (current restored : StringMap PlcService) : List String :=
  let ids := (current.entries ++ restored.entries).map fun e => (e.1, ())
  (collectMap ids).entries.map Prod.fst

/-- A service whose endpoint is the same on both sides is not reported. -/
def serviceChange (current restored : StringMap PlcService) (id : String) :
    Option ServiceChange :=
  match (current.get? id).map (·.endpoint), (restored.get? id).map (·.endpoint) with
  | some o, some n =>
    if o = n then none
    else some { id, changeType := .modified, oldEndpoint := some o, newEndpoint := some n }
  | none, some n =>
    some { id, changeType := .added, oldEndpoint := none, newEndpoint := some n }
  | some o, none =>
    some { id, changeType := .removed, oldEndpoint := some o, newEndpoint := none }
  | none, none => none

def buildOpDiff (current : OpState) (forkPointState : VerifiedPlcOp) (forkPointCid : String) :
    OpDiff where
  addedKeys := forkPointState.rotationKeys.filter fun k => !current.rotationKeys.contains k
  removedKeys := current.rotationKeys.filter fun k => !forkPointState.rotationKeys.contains k
  changedServices := (serviceIds current.services forkPointState.services).filterMap
    (serviceChange current.services forkPointState.services)
  prevCid := some forkPointCid

/-! ## The override -/

def RECOVERY_WINDOW_HOURS : Int := 72

/-- The clock, and `parse_from_rfc3339`; an instant is a number of nanoseconds. -/
structure RecoveryClock where
  now : Int
  parseRfc3339 : String → Except String Int

def recoveryDeadline (opTime : Int) : Int :=
  opTime + RECOVERY_WINDOW_HOURS * (3600 * 1000000000)

section Build

variable (crates : PlcCrates) (clock : RecoveryClock) (sources : WalletSources)

def checkRecoveryWindow (unauthorizedOpCreatedAt : String) : Except RecoveryError Unit := do
  let opTime ← (clock.parseRfc3339 unauthorizedOpCreatedAt).mapError fun e =>
    .signingFailed ("Failed to parse operation timestamp: " ++ e)
  check (!decide (clock.now > recoveryDeadline opTime)) .recoveryWindowExpired

def recoverySignError : PerDidSignError → RecoveryError
  | .deviceKeyNotFound message => .identityNotFound message
  | .signingSetupFailed message => .signingFailed message

def signRecoveryOp (did prevCid : String) (forkState : VerifiedPlcOp) :
    Except RecoveryError SignedPlcOperation := do
  let sign ← (sources.perDidSignClosure did).mapError recoverySignError
  (buildDidPlcRotationOp crates prevCid forkState.rotationKeys forkState.verificationMethods
    forkState.alsoKnownAs forkState.services sign).mapError fun e =>
      .signingFailed ("Failed to build rotation op: " ++ e.text)

def buildRecoveryOverride (did unauthorizedOpCid : String) :
    Except RecoveryError SignedRecoveryOp := do
  let auditLogJson ← (sources.fetchAuditLog did).mapError fun e =>
    .networkError ("Failed to fetch audit log: " ++ e)
  let auditLog ← (parseAuditLog crates auditLogJson).mapError fun e =>
    .signingFailed ("Failed to parse audit log: " ++ e.text)
  let unauthorizedEntry ← okOr .unauthorizedChangeNotFound
    (auditLog.find? fun e => e.cid == unauthorizedOpCid)
  checkRecoveryWindow clock unauthorizedEntry.createdAt
  let deviceKeyId ← (sources.getOrCreateDeviceKey did).mapError fun e =>
    .identityNotFound ("Failed to get device key: " ++ e)
  let fork ← findForkPoint crates auditLog unauthorizedOpCid ⟨deviceKeyId⟩
  let signed ← signRecoveryOp crates sources did fork.1.cid fork.2
  let signedOp ← (parseValue crates signed.signedOpJson).mapError fun e =>
    .signingFailed ("Failed to parse signed op JSON: " ++ e)
  return { diff := buildOpDiff (currentStateFromAuditLog auditLog) fork.2 fork.1.cid, signedOp }

end Build

end Ezpds.Wallet
