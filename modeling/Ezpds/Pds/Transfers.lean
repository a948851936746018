import Ezpds.Library.KeyedRows
import Ezpds.Library.Run
import Ezpds.Pds.RefreshSession

/-!
# Device transfers

A planned device swap: the old device opens a transfer, the new device accepts its code and
gets a credential of its own, and the completion leaves the account to the new device. The
workflows are transactions over the tables `transfers`, `transfer_devices`, `sessions`,
`refresh_tokens` and `transfer_audit_events`; `none` is an error of the database, which rolls
the transaction back. A transfer expires lazily, when some statement looks at it.

Each statement reads the clock on its own. `now i` is the reading of the `i`th statement of a
transaction, and nothing ties one reading to another, so the clock may also step.

* `step`: the machine.
-/

namespace Ezpds.Pds.Transfers

open Library Sessions

/-! ## Tables -/

inductive Status where
  | pending | accepted | completing | complete | expired | cancelled
  deriving DecidableEq

/-- The states that the partial unique indexes cover. -/
def Status.isActive : Status → Bool
  | pending | accepted | completing => true
  | complete | expired | cancelled => false

/-- The states in which the accepted device may hold a credential. -/
def Status.grants : Status → Bool
  | accepted | completing | complete => true
  | pending | expired | cancelled => false

/-- The states that a completion starts from. -/
def Status.isAccepted : Status → Bool
  | accepted | completing => true
  | pending | complete | expired | cancelled => false

structure TransferRow where
  id : String
  did : String
  code : String
  status : Status
  expiresAt : Nat
  acceptedDeviceId : Option String
  deriving DecidableEq

structure DeviceRow where
  id : String
  did : String
  platform : String
  publicKey : String
  tokenHash : String
  revokedAt : Option Nat
  deriving DecidableEq

/-- A session of an account as the transfers look it up, by the hash of its token. -/
structure TokenSession where
  id : String
  did : String
  tokenHash : Option String
  expiresAt : Nat
  deriving DecidableEq

structure AuditRow where
  id : String
  transferId : String
  did : String
  eventType : String
  actorDeviceId : Option String
  deriving DecidableEq

structure Tables where
  transfers : List TransferRow
  devices : List DeviceRow
  sessions : List TokenSession
  refreshTokens : List RefreshTokenRow
  audit : List AuditRow

def TransferRow.withStatus (status : Status) (row : TransferRow) : TransferRow :=
  { row with status }

def TransferRow.acceptedBy (deviceId : String) (row : TransferRow) : TransferRow :=
  { row with status := .accepted, acceptedDeviceId := some deviceId }

def DeviceRow.isLive (device : DeviceRow) : Bool :=
  device.revokedAt.isNone

def DeviceRow.revoked (now : Nat) (device : DeviceRow) : DeviceRow :=
  { device with revokedAt := some now }

/-! ## Statements -/

namespace Tables

def setTransfers (db : Tables) (transfers : List TransferRow) : Tables :=
  { db with transfers }

/-- The index of active codes has a row for `code`. -/
def codeTaken (db : Tables) (code : String) : Bool :=
  db.transfers.any fun row => row.code == code && row.status.isActive

/-- The index of active transfers has a row for `did`. -/
def didTaken (db : Tables) (did : String) : Bool :=
  db.transfers.any fun row => row.did == did && row.status.isActive

/-- The sweep of `insert_transfer`. -/
def sweepExpired (db : Tables) (did : String) (now : Nat) : Tables :=
  db.setTransfers <| updateWhere
    (fun row => row.did == did && row.status.isActive && decide (row.expiresAt ≤ now))
    (TransferRow.withStatus .expired) db.transfers

def expirePendingCode (db : Tables) (code : String) (now : Nat) : Tables :=
  db.setTransfers <| updateWhere
    (fun row => row.code == code && row.status == .pending && decide (row.expiresAt ≤ now))
    (TransferRow.withStatus .expired) db.transfers

def expirePendingTransferIfElapsed (db : Tables) (id : String) (now : Nat) : Tables :=
  db.setTransfers <| updateWhere
    (fun row => row.id == id && row.status == .pending && decide (row.expiresAt ≤ now))
    (TransferRow.withStatus .expired) db.transfers

def activeTransferForCode (db : Tables) (code : String) : Option TransferRow :=
  db.transfers.find? fun row => row.code == code && row.status.isActive

def transferById (db : Tables) (id : String) : Option TransferRow :=
  db.transfers.find? fun row => row.id == id

/-- The primary key and the token hash are unique. -/
def insertTransferDevice (db : Tables) (device : DeviceRow) : Option Tables :=
  if db.devices.any fun old => old.id == device.id || old.tokenHash == device.tokenHash then none
  else some { db with devices := db.devices ++ [device] }

def isAcceptable (id : String) (now : Nat) (row : TransferRow) : Bool :=
  row.id == id && row.status == .pending && decide (now < row.expiresAt)

/-- With the number of rows that were updated, as for the other guarded updates. -/
def markTransferAccepted (db : Tables) (id deviceId : String) (now : Nat) : Nat × Tables :=
  (db.transfers.countP (isAcceptable id now),
    db.setTransfers <| updateWhere (isAcceptable id now) (TransferRow.acceptedBy deviceId)
      db.transfers)

def deleteTransferDevice (db : Tables) (id : String) : Tables :=
  { db with devices := deleteWhere (fun device => device.id == id) db.devices }

def sessionTokenMatchesDid (db : Tables) (did tokenHash : String) (now : Nat) : Bool :=
  db.sessions.any fun row =>
    row.did == did && row.tokenHash == some tokenHash && decide (now < row.expiresAt)

/-- The lookup of the device guard, and of a completion by its target. -/
def transferDeviceTokenMatches (db : Tables) (id tokenHash : String) : Bool :=
  db.devices.any fun device =>
    device.id == id && device.tokenHash == tokenHash && device.isLive

def isCompletable (id : String) (row : TransferRow) : Bool :=
  row.id == id && row.status.isAccepted

def markTransferComplete (db : Tables) (id : String) : Nat × Tables :=
  (db.transfers.countP (isCompletable id),
    db.setTransfers <| updateWhere (isCompletable id) (TransferRow.withStatus .complete)
      db.transfers)

def deleteRefreshTokensForDid (db : Tables) (did : String) : Tables :=
  { db with refreshTokens := deleteWhere (fun row => row.did == did) db.refreshTokens }

def deleteSessionsForDid (db : Tables) (did : String) : Tables :=
  { db with sessions := deleteWhere (fun row => row.did == did) db.sessions }

def revokeOtherTransferDevices (db : Tables) (did keep : String) (now : Nat) : Tables :=
  { db with
    devices := updateWhere (fun device => device.did == did && device.id != keep && device.isLive)
      (DeviceRow.revoked now) db.devices }

def isCancellable (id : String) (row : TransferRow) : Bool :=
  row.id == id && row.status.isActive

def markTransferCancelled (db : Tables) (id : String) : Nat × Tables :=
  (db.transfers.countP (isCancellable id),
    db.setTransfers <| updateWhere (isCancellable id) (TransferRow.withStatus .cancelled)
      db.transfers)

def isRevocable (id : String) (device : DeviceRow) : Bool :=
  device.id == id && device.isLive

def revokeTransferDevice (db : Tables) (id : String) (now : Nat) : Nat × Tables :=
  (db.devices.countP (isRevocable id),
    { db with devices := updateWhere (isRevocable id) (DeviceRow.revoked now) db.devices })

def insertTransferAuditEvent (db : Tables) (event : AuditRow) : Option Tables :=
  if db.audit.any fun old => old.id == event.id then none
  else some { db with audit := db.audit ++ [event] }

end Tables

/-! ## Workflows -/

inductive InitiateOutcome where
  | created (expiresAt : Nat)
  | duplicateActive
  | codeCollision
  deriving DecidableEq

inductive AcceptOutcome where
  | accepted (transferId : String)
  | invalidOrExpired
  | notPending
  deriving DecidableEq

inductive CompleteOutcome where
  | completed (transferId : String)
  | invalid
  | notAccepted
  | unauthorized
  deriving DecidableEq

inductive CancelOutcome where
  | cancelled (revokedDeviceCredential : Bool)
  | alreadyCancelled
  | terminal (status : Status)
  | notFound
  deriving DecidableEq

/-- One attempt of an initiate. A clash with one of the indexes rolls the sweep back. -/
def insertTransfer (db : Tables) (now : Nat → Nat) (id did code : String) (ttlMinutes : Nat) :
    Option (InitiateOutcome × Tables) :=
  let swept := db.sweepExpired did (now 0)
  if swept.codeTaken code then some (.codeCollision, db)
  else if swept.didTaken did then some (.duplicateActive, db)
  else if swept.transfers.any fun row => row.id == id then none
  else
    let expiresAt := now 1 + 60 * ttlMinutes
    let row : TransferRow :=
      { id, did, code, status := .pending, expiresAt, acceptedDeviceId := none }
    some (.created expiresAt, swept.setTransfers (swept.transfers ++ [row]))

def acceptTransfer (db : Tables) (now : Nat → Nat)
    (code deviceId platform publicKey tokenHash : String) : Option (AcceptOutcome × Tables) :=
  let db := db.expirePendingCode code (now 0)
  match db.activeTransferForCode code with
  | none => some (.invalidOrExpired, db)
  | some row =>
    if row.status = .pending then do
      let device : DeviceRow :=
        { id := deviceId, did := row.did, platform, publicKey, tokenHash, revokedAt := none }
      let db ← db.insertTransferDevice device
      let (updated, db) := db.markTransferAccepted row.id deviceId (now 1)
      if updated = 1 then
        return (.accepted row.id, db)
      else
        -- the transfer elapsed between the two looks at it
        let db := db.deleteTransferDevice deviceId
        return (.invalidOrExpired, db.expirePendingTransferIfElapsed row.id (now 2))
    else some (.notPending, db)

/-- The part of a completion that runs on the first successful one. -/
def finishTransfer (db : Tables) (now : Nat → Nat) (row : TransferRow) (acceptedDeviceId : String)
    (auditId : String) : Option (CompleteOutcome × Tables) :=
  let (updated, db) := db.markTransferComplete row.id
  if updated = 1 then do
    let db := db.deleteRefreshTokensForDid row.did
    let db := db.deleteSessionsForDid row.did
    let db := db.revokeOtherTransferDevices row.did acceptedDeviceId (now 1)
    let db ← db.insertTransferAuditEvent
      { id := auditId, transferId := row.id, did := row.did, eventType := "transfer.complete",
        actorDeviceId := some acceptedDeviceId }
    return (.completed row.id, db)
  else some (.invalid, db)

def completeTransfer (db : Tables) (now : Nat → Nat) (transferId tokenHash auditId : String) :
    Option (CompleteOutcome × Tables) :=
  match db.transferById transferId with
  | none => some (.invalid, db)
  | some row =>
    let sourceSession := db.sessionTokenMatchesDid row.did tokenHash (now 0)
    match row.acceptedDeviceId with
    | none =>
      if !sourceSession then some (.unauthorized, db)
      else if row.status = .pending then some (.notAccepted, db)
      else some (.invalid, db)
    | some acceptedDeviceId =>
      let targetDevice := db.transferDeviceTokenMatches acceptedDeviceId tokenHash
      if !sourceSession && !targetDevice then some (.unauthorized, db)
      else
        match row.status with
        | .accepted | .completing => finishTransfer db now row acceptedDeviceId auditId
        | .complete =>
          if targetDevice then some (.completed row.id, db) else some (.unauthorized, db)
        | .pending => some (.notAccepted, db)
        | .expired | .cancelled => some (.invalid, db)

/-- The part of a cancel that runs on an active transfer. -/
def interruptTransfer (db : Tables) (now : Nat → Nat) (row : TransferRow) (auditId : String) :
    Option (CancelOutcome × Tables) :=
  let (updated, db) := db.markTransferCancelled row.id
  if updated = 1 then do
    let (revoked, db) :=
      match row.acceptedDeviceId with
      | some deviceId => db.revokeTransferDevice deviceId (now 1)
      | none => (0, db)
    let db ← db.insertTransferAuditEvent
      { id := auditId, transferId := row.id, did := row.did, eventType := "transfer.cancelled",
        actorDeviceId := none }
    return (.cancelled (decide (0 < revoked)), db)
  else none

def cancelTransfer (db : Tables) (now : Nat → Nat) (transferId auditId : String) :
    Option (CancelOutcome × Tables) :=
  let db := db.expirePendingTransferIfElapsed transferId (now 0)
  match db.transferById transferId with
  | none => some (.notFound, db)
  | some row =>
    match row.status with
    | .cancelled => some (.alreadyCancelled, db)
    | .complete | .expired => some (.terminal row.status, db)
    | .pending | .accepted | .completing => interruptTransfer db now row auditId

/-! ## The machine -/

/-- An initiate stands for each of its attempts, by whichever session was checked for `did`;
`logIn` is a new session of an account, with its refresh token. -/
inductive Action where
  | initiate (now : Nat → Nat) (id did code : String) (ttlMinutes : Nat)
  | accept (now : Nat → Nat) (code deviceId platform publicKey tokenHash : String)
  | complete (now : Nat → Nat) (transferId tokenHash auditId : String)
  | cancel (now : Nat → Nat) (transferId auditId : String)
  | logIn (session : TokenSession) (token : RefreshTokenRow)

def empty : Tables :=
  { transfers := [], devices := [], sessions := [], refreshTokens := [], audit := [] }

/-- The tables after a transaction: an error rolls it back. -/
def settled {α : Type} (db : Tables) (result : Option (α × Tables)) : Tables :=
  (result.map Prod.snd).getD db

def step (db : Tables) : Action → Option Tables
  | .initiate now id did code ttlMinutes =>
    some (settled db (insertTransfer db now id did code ttlMinutes))
  | .accept now code deviceId platform publicKey tokenHash =>
    some (settled db (acceptTransfer db now code deviceId platform publicKey tokenHash))
  | .complete now transferId tokenHash auditId =>
    some (settled db (completeTransfer db now transferId tokenHash auditId))
  | .cancel now transferId auditId => some (settled db (cancelTransfer db now transferId auditId))
  | .logIn session token =>
    some { db with
      sessions := db.sessions ++ [session], refreshTokens := db.refreshTokens ++ [token] }

end Ezpds.Pds.Transfers
