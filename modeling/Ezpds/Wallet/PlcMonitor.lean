import Ezpds.Crypto.PlcVerify
import Ezpds.Library.Parties
import Ezpds.Library.Run

/-!
# The monitor of the PLC directory

The wallet watches the audit logs of its identities. A check fetches a log, compares it with
the copy that the last check stored, and reports every new operation that the device key did
not sign. A sweep checks the identities one after the other, and sweeps of the unattended timer
and of the app run at the same time: what a check does between two network calls are steps of
its own.

* `examine`: a check up to the store.
* `State.step`: the directory, the stored copies and the sweeps.
-/

namespace Ezpds.Wallet

open Library Crypto

/-! ## Audit logs -/

structure AuditEntry where
  did : String
  cid : String
  createdAt : String
  nullified : Bool
  operation : Json

mutual

/-- A document as `serde_json::Value` keeps it: objects are maps, a later member replaces an
earlier one of the same key. -/
def toValue : Json → Json
  | .null => .null
  | .bool b => .bool b
  | .number n => .number n
  | .string s => .string s
  | .array items => .array (itemsToValues items)
  | .object members => .object (membersToValues SortedMap.empty members).entries

def itemsToValues : List Json → List Json
  | [] => []
  | j :: items => toValue j :: itemsToValues items

def membersToValues (m : StringMap Json) : List (String × Json) → StringMap Json
  | [] => m
  | (key, j) :: members => membersToValues (m.insert key (toValue j)) members

end

def boolOf : Json → Option Bool
  | .bool b => some b
  | _ => none

def readEntry (did cid createdAt nullified operation : Json) : Option AuditEntry := do
  let did ← textOf did
  let cid ← textOf cid
  let createdAt ← textOf createdAt
  let nullified ← boolOf nullified
  return { did, cid, createdAt, nullified, operation := toValue operation }

def AuditEntry.fromJson : Json → Option AuditEntry
  | .object members => do
    guard (distinctMembers ["did", "cid", "createdAt", "nullified", "operation"] members)
    let did ← members.lookup "did"
    let cid ← members.lookup "cid"
    let createdAt ← members.lookup "createdAt"
    let nullified ← members.lookup "nullified"
    let operation ← members.lookup "operation"
    readEntry did cid createdAt nullified operation
  | .array [did, cid, createdAt, nullified, operation] =>
    readEntry did cid createdAt nullified operation
  | _ => none

def entriesOf : Json → Option (List AuditEntry)
  | .array items => items.mapM AuditEntry.fromJson
  | _ => none

def parseAuditLog (crates : PlcCrates) (json : String) : Except CryptoError (List AuditEntry) :=
  match crates.parseJson json >>= entriesOf with
  | some entries => .ok entries
  | none => .error (.plcOperation ("parse audit log: " ++ crates.jsonError json))

/-- The operations of `current` that `cached` has not, by CID. -/
def diffAuditLogs (cached current : List AuditEntry) : List AuditEntry :=
  current.filter fun entry => !(cached.map AuditEntry.cid).contains entry.cid

/-! ## One check -/

structure UnauthorizedChange where
  cid : String
  createdAt : String
  signingKey : Option String
  operation : Json

structure IdentityStatus where
  did : String
  checkFailed : Bool
  unauthorizedChanges : List UnauthorizedChange

inductive MonitorError where
  | networkError (message : String)
  | identityStoreError (message : String)
  | parseError (message : String)
  deriving DecidableEq

section Check

variable (crates : PlcCrates)

/-- What the stored copy says; a copy that does not parse counts as empty. -/
def cachedEntries (cached : Option String) : List AuditEntry :=
  match cached with
  | some json => (parseAuditLog crates json).toOption.getD []
  | none => []

/-- Whether the key signed the operation. -/
def isSignedBy (key : DidKeyUri) (operation : Json) : Bool :=
  (verifyPlcOperation crates (crates.printJson operation) [key]).isOk

/-- The `rotationKeys` of an operation, if they are a list of texts. -/
def rotationKeysOf : Json → List String
  | .object members => ((members.lookup "rotationKeys").bind textsOf).getD []
  | _ => []

/-- The key of the operation before `target` that signed `target`. -/
def identifySigningKey (entries : List AuditEntry) (target : AuditEntry) : Option String := do
  let previous ← (entries.takeWhile fun entry => entry.cid != target.cid).getLast?
  (rotationKeysOf previous.operation).find? fun key => isSignedBy crates ⟨key⟩ target.operation

def unauthorizedChange (entries : List AuditEntry) (entry : AuditEntry) :
    UnauthorizedChange where
  cid := entry.cid
  createdAt := entry.createdAt
  signingKey := identifySigningKey crates entries entry
  operation := entry.operation

/-- The new entries that the device key did not sign. -/
def classify (deviceKey : DidKeyUri) (current new : List AuditEntry) : List UnauthorizedChange :=
  (new.filter fun entry => !isSignedBy crates deviceKey entry.operation).map
    (unauthorizedChange crates current)

/-- `check_for_changes` from the fetched log to the store: the changes to report, or none when
there is nothing to store either. `log` and `device` are the answers of the identity store. -/
def examine (deviceKey : DidKeyUri) (fetched : String) (log : Except String (Option String))
    (device : Except String Unit) : Except MonitorError (Option (List UnauthorizedChange)) := do
  let current ← (parseAuditLog crates fetched).mapError fun e => .parseError e.text
  let cached ← log.mapError .identityStoreError
  let new := diffAuditLogs (cachedEntries crates cached) current
  if new.isEmpty then return none
  else
    device.mapError .identityStoreError
    return some (classify crates deviceKey current new)

end Check

/-! ## Sweeps -/

inductive SweepTrigger where
  | background | foreground
  deriving DecidableEq

/-- Where the check of one identity is. -/
inductive Stage where
  | asking
  | fetched (log : String)
  | classified (log : String) (changes : List UnauthorizedChange)

/-- A sweep with the identities that it has still to check, the one it is at first, or the
statuses that it returned. -/
inductive Phase where
  | sweeping (trigger : SweepTrigger) (todo : List String) (stage : Stage)
      (statuses : List IdentityStatus)
  | returned (trigger : SweepTrigger) (statuses : List IdentityStatus)

/-- `directory` is the audit log that the directory serves for a DID, `cached` the copy in the
identity store. -/
structure State where
  directory : String → Option String
  cached : String → Option String
  phases : List Phase

inductive Action where
  | publish (did log : String)
  | start (trigger : SweepTrigger) (identities : List String)
  | fetch (i : Nat) (answers : Bool)
  | classify (i : Nat) (log : Except String Unit) (device : Except String Unit)
  | store (i : Nat) (succeeds : Bool)
  | finish (i : Nat)

def isMonitorable (did : String) : Bool :=
  "did:plc:".toList.isPrefixOf did.toList

namespace State

def initial : State :=
  { directory := fun _ => none, cached := fun _ => none, phases := [] }

def setPhase (s : State) (i : Nat) (phase : Phase) : State :=
  { s with phases := s.phases.set i phase }

/-- The sweep goes on with the next identity. -/
def next (s : State) (i : Nat) (trigger : SweepTrigger) (did : String) (todo : List String)
    (statuses : List IdentityStatus) (checkFailed : Bool) (changes : List UnauthorizedChange) :
    State :=
  s.setPhase i (.sweeping trigger todo .asking (statuses ++ [⟨did, checkFailed, changes⟩]))

def step (crates : PlcCrates) (deviceKey : String → DidKeyUri) (s : State) :
    Action → Option State
  | .publish did log => some { s with directory := Function.update s.directory did (some log) }
  | .start trigger identities =>
    some { s with
      phases := s.phases ++ [.sweeping trigger (identities.filter isMonitorable) .asking []] }
  | .fetch i answers =>
    match s.phases[i]? with
    | some (.sweeping trigger (did :: todo) .asking statuses) =>
      match answers, s.directory did with
      | true, some log =>
        some (s.setPhase i (.sweeping trigger (did :: todo) (.fetched log) statuses))
      | _, _ => some (s.next i trigger did todo statuses true [])
    | _ => none
  | .classify i log device =>
    match s.phases[i]? with
    | some (.sweeping trigger (did :: todo) (.fetched fetched) statuses) =>
      match examine crates (deviceKey did) fetched (log.map fun _ => s.cached did) device with
      | .error _ => some (s.next i trigger did todo statuses true [])
      | .ok none => some (s.next i trigger did todo statuses false [])
      | .ok (some changes) =>
        some (s.setPhase i
          (.sweeping trigger (did :: todo) (.classified fetched changes) statuses))
    | _ => none
  | .store i succeeds =>
    match s.phases[i]? with
    | some (.sweeping trigger (did :: todo) (.classified fetched changes) statuses) =>
      let stored :=
        if succeeds then { s with cached := Function.update s.cached did (some fetched) } else s
      some (stored.next i trigger did todo statuses false changes)
    | _ => none
  | .finish i =>
    match s.phases[i]? with
    | some (.sweeping trigger [] .asking statuses) =>
      some (s.setPhase i (.returned trigger statuses))
    | _ => none

end State

end Ezpds.Wallet
