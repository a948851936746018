import Ezpds.Library.Run
import Ezpds.Wallet.ShareRecovery
import Mathlib

/-!
# The rotation epilogue of a recovery

A verified session re-anchors its identity: the recovery key signs an operation that makes the
key of this device the first rotation key. The epilogue then replaces the recovery key by that
of a fresh set of shares. Its record holds the new shares from before the swap until the backup
is confirmed.

What a command does between two calls of the directory, of a server or of the keychain is a
step of its own: an operation that was posted lands at any time, or never, and a command fails
or is killed with the app at any step. One command is at work at a time. The directory takes an
operation that follows the newest one and is signed by a rotation key; the fields that an
operation copies, and its signature, are left out.

* `State.step`: the commands, the directory, and the ends that a command can come to.
-/

namespace Ezpds.Wallet.Ceremony

open Library Crypto

attribute [local instance] three_shares

/-! ## The record -/

structure EpilogueRecord where
  did : String
  oldRecoveryKeyId : String
  newRecoveryKeyId : String
  share1 : String
  share2 : String
  share3 : String
  opSubmitted : Bool
  escrowDeposited : Bool
  escrowSkipped : Bool
  share1Written : Bool
  deriving DecidableEq

/-- The account of the record in the keychain. A record that does not parse or that has another
version is unreadable. -/
inductive EpilogueSlot where
  | absent
  | unreadable
  | held (record : EpilogueRecord)
  deriving DecidableEq

section Model

variable (crates : RecoveryCrates)

/-- The record of a fresh set. `fill` is the randomness of the split. -/
def freshRecord (did oldRecoveryKeyId : String) (fill : Except String Bytes32) (seed : Bytes32)
    (setId : UInt32) : Except ShareRecoveryError EpilogueRecord := do
  let envelopes ← (splitSecretIntoEnvelopes fill seed setId).mapError fun e =>
    ShareRecoveryError.signingFailed e.text
  let newRecovery ← (deriveRecoveryKeypair crates seed).mapError fun e =>
    ShareRecoveryError.signingFailed e.text
  return {
    did, oldRecoveryKeyId, newRecoveryKeyId := newRecovery.uri
    share1 := (envelopes 0).encodeShare crates.share
    share2 := (envelopes 1).encodeShare crates.share
    share3 := (envelopes 2).encodeShare crates.share
    opSubmitted := false, escrowDeposited := false, escrowSkipped := false
    share1Written := false }

/-! ## Rotation keys -/

/-- The device key takes the first place; every other key keeps its own. -/
def anchoredRotationKeys (current : List String) (deviceKey : String) : List String :=
  match current.filter (· != deviceKey) with
  | [] => [deviceKey]
  | _ :: rest => deviceKey :: rest

/-- The new recovery key in the place of the old one. -/
def swappedRotationKeys (current : List String) (oldKey newKey : String) : List String :=
  match current.idxOf? oldKey with
  | some pos => current.set pos newKey
  | none => current.insertIdx (min 1 current.length) newKey

/-! ## The keychain -/

def storeShare1 (keychain : Keychain) (did : String) (share1 : ByteArray) : Keychain :=
  { keychain with
    synced := Function.update keychain.synced (recoveryShare1Account did) (some share1) }

/-- The synchronizable slot, or that of the device if it is empty or cannot be read. -/
def loadShare1 (synced item : Option ByteArray) : Option ByteArray :=
  match synced with
  | some bytes =>
    if bytes.isEmpty then some ((item.filter fun local' => !local'.isEmpty).getD bytes)
    else some bytes
  | none => item

/-! ## The machine -/

structure PostedOp where
  did : String
  prev : String
  rotationKeys : List String
  signer : String
  reanchors : Bool
  deriving DecidableEq

/-- The newest operation of an identity, and its rotation keys. -/
structure Tip where
  cid : String
  rotationKeys : List String
  deriving DecidableEq

/-- Where a command is. `recover_identity` reads the state, waits for the answer to its
operation, refreshes the caches and stages; `run_recovery_epilogue` swaps the recovery key,
escrows Share 2 and writes Share 1, and saves the record after each. -/
inductive Phase where
  | idle
  | anchoring (did key : String)
  | anchorPosted (op : PostedOp) (key : String)
  | anchorCaching (did key : String)
  | staging (did key : String)
  | swapping (record : EpilogueRecord) (skipEscrow : Bool)
  | swapPosted (op : PostedOp) (record : EpilogueRecord) (skipEscrow : Bool)
  | swapped (record : EpilogueRecord) (skipEscrow : Bool)
  | swapCaching (record : EpilogueRecord) (skipEscrow : Bool)
  | escrowing (record : EpilogueRecord) (skipEscrow : Bool)
  | escrowed (record : EpilogueRecord)
  | storing (record : EpilogueRecord)
  | readingBack (record : EpilogueRecord)
  | stored (record : EpilogueRecord)
  deriving DecidableEq

/-- `session` is all that is in memory besides the command at work. `owed` and `staged` say what
happened: the identities whose re-anchoring landed and whose backup was not confirmed since, and
the record that was staged last for an identity. -/
structure State where
  session : Option ShareRecoveryState
  phase : Phase
  epilogue : EpilogueSlot
  keychain : Keychain
  directory : String → Tip
  posted : List PostedOp
  owed : List String
  staged : String → Option EpilogueRecord

/-- The commands that collect and verify the shares. -/
inductive Collecting where
  | start (pds : PdsClient) (identifier : String)
  | addShare (share : String)
  | release (server : EscrowServer) (otp : Option String)
  | verify (pds : PdsClient)

def collect (keychain : Keychain) (slot : Option ShareRecoveryState) :
    Collecting → Option ShareRecoveryState
  | .start pds identifier => settled slot (startImpl crates pds keychain identifier)
  | .addShare share => settled slot (addShareImpl crates slot share)
  | .release server otp => settled slot (releaseImpl crates server slot otp)
  | .verify pds => settled slot (verifyImpl crates pds slot)

/-- `fail` is any error that ends the command at work. -/
inductive Action where
  | collect (command : Collecting)
  | recover
  | readState
  | answered
  | refreshed
  | stage (fill : Except String Bytes32) (seed : Bytes32) (setId : UInt32)
  | epilogue (skipEscrow : Bool)
  | saved
  | escrow (offered : Bool)
  | storeShare1
  | readBack
  | confirm (syncedReads itemReads : Bool)
  | land (op : PostedOp) (cid : String)
  | external (did : String) (tip : Tip)
  | fail
  | kill

namespace State

def enter (s : State) (phase : Phase) : State :=
  { s with phase }

/-- An operation is posted, and its answer awaited. -/
def post (s : State) (op : PostedOp) (phase : Phase) : State :=
  { s with posted := op :: s.posted, phase }

def save (s : State) (record : EpilogueRecord) (phase : Phase) : State :=
  { s with epilogue := .held record, phase }

variable (deviceKey : String → String)

/-- Whether the device key is the first one already. -/
def anchored (s : State) (did : String) : Bool :=
  (s.directory did).rotationKeys.head? == some (deviceKey did)

/-- `recover_identity` once it has the device key. -/
def readAnchor (s : State) (did key : String) : State :=
  let tip := s.directory did
  if s.anchored deviceKey did then s.enter (.anchorCaching did key)
  else if tip.rotationKeys.contains key then
    let op : PostedOp :=
      { did, prev := tip.cid
        rotationKeys := anchoredRotationKeys tip.rotationKeys (deviceKey did)
        signer := key, reanchors := true }
    s.post op (.anchorPosted op key)
  else s.enter .idle

/-- The first step of the epilogue. -/
def readSwap (s : State) (record : EpilogueRecord) (skipEscrow : Bool) : State :=
  let tip := s.directory record.did
  if tip.rotationKeys.contains record.newRecoveryKeyId then
    s.enter (.swapped { record with opSubmitted := true } skipEscrow)
  else
    let op : PostedOp :=
      { did := record.did, prev := tip.cid
        rotationKeys := swappedRotationKeys tip.rotationKeys record.oldRecoveryKeyId
          record.newRecoveryKeyId
        signer := deviceKey record.did, reanchors := false }
    s.post op (.swapPosted op record skipEscrow)

/-- The end of `recover_identity`. The share that was drawn is not one that the device holds. -/
def stageEpilogue (s : State) (did key : String) (fill : Except String Bytes32) (seed : Bytes32)
    (setId : UInt32) : Option State :=
  match s.epilogue with
  | .held _ | .unreadable => some (s.enter .idle)
  | .absent => do
    let record ← (freshRecord crates did key fill seed setId).toOption
    guard (s.keychain.item (recoveryShare1Account did) ≠ some record.share1.toUTF8)
    return { s.save record .idle with
      staged := Function.update s.staged did (some record) }

def startEpilogue (s : State) (skipEscrow : Bool) : Option State :=
  match s.epilogue with
  | .held record =>
    some (s.enter (if record.opSubmitted then .escrowing record skipEscrow
      else .swapping record skipEscrow))
  | .absent | .unreadable => none

/-- The second step of the epilogue. -/
def escrowShare2 (s : State) (record : EpilogueRecord) (skipEscrow offered : Bool) : State :=
  if record.escrowDeposited || record.escrowSkipped then s.enter (.storing record)
  else if skipEscrow || !offered then s.enter (.escrowed { record with escrowSkipped := true })
  else s.enter (.escrowed { record with escrowDeposited := true })

/-- The third step of the epilogue. -/
def writeShare1 (s : State) (record : EpilogueRecord) : State :=
  if record.share1Written then s.enter .idle
  else { s.enter (.readingBack record) with
    keychain := Ceremony.storeShare1 s.keychain record.did record.share1.toUTF8 }

def checkShare1 (s : State) (record : EpilogueRecord) : State :=
  if s.keychain.synced (recoveryShare1Account record.did) = some record.share1.toUTF8 then
    s.enter (.stored { record with share1Written := true })
  else s.enter .idle

/-- The record is destroyed once its first share is in a slot. -/
def confirmBackup (s : State) (syncedReads itemReads : Bool) : State :=
  match s.epilogue with
  | .absent => { s with session := none }
  | .unreadable => s
  | .held record =>
    let account := recoveryShare1Account record.did
    let synced := if syncedReads then s.keychain.synced account else none
    let item := if itemReads then s.keychain.item account else none
    if loadShare1 synced item = some record.share1.toUTF8 then
      { s with
        epilogue := .absent
        session := none
        owed := s.owed.filter (· != record.did) }
    else s

/-- The directory takes an operation. -/
def landOp (s : State) (op : PostedOp) (cid : String) : State :=
  { s with
    directory := Function.update s.directory op.did ⟨cid, op.rotationKeys⟩
    posted := s.posted.filter (· ≠ op)
    owed := if op.reanchors then op.did :: s.owed else s.owed }

def step (s : State) : Action → Option State
  | .collect command => do
    guard (s.phase = .idle)
    return { s with session := Ceremony.collect crates s.keychain s.session command }
  | .recover => do
    guard (s.phase = .idle)
    let session ← s.session
    let verified ← session.verified
    return s.enter (.anchoring session.did verified.recoveryKeyId)
  | .readState =>
    match s.phase with
    | .anchoring did key => some (s.readAnchor deviceKey did key)
    | .swapping record skipEscrow => some (s.readSwap deviceKey record skipEscrow)
    | _ => none
  | .answered =>
    match s.phase with
    | .anchorPosted op key => do
      guard (op ∉ s.posted)
      return s.enter (.anchorCaching op.did key)
    | .swapPosted op record skipEscrow => do
      guard (op ∉ s.posted)
      return s.enter (.swapped { record with opSubmitted := true } skipEscrow)
    | _ => none
  | .refreshed =>
    match s.phase with
    | .anchorCaching did key => some (s.enter (.staging did key))
    | .swapCaching record skipEscrow => some (s.enter (.escrowing record skipEscrow))
    | _ => none
  | .stage fill seed setId =>
    match s.phase with
    | .staging did key => s.stageEpilogue crates did key fill seed setId
    | _ => none
  | .epilogue skipEscrow => do
    guard (s.phase = .idle)
    s.startEpilogue skipEscrow
  | .saved =>
    match s.phase with
    | .swapped record skipEscrow => some (s.save record (.swapCaching record skipEscrow))
    | .escrowed record => some (s.save record (.storing record))
    | .stored record => some (s.save record .idle)
    | _ => none
  | .escrow offered =>
    match s.phase with
    | .escrowing record skipEscrow => some (s.escrowShare2 record skipEscrow offered)
    | _ => none
  | .storeShare1 =>
    match s.phase with
    | .storing record => some (s.writeShare1 record)
    | _ => none
  | .readBack =>
    match s.phase with
    | .readingBack record => some (s.checkShare1 record)
    | _ => none
  | .confirm syncedReads itemReads => do
    guard (s.phase = .idle)
    return s.confirmBackup syncedReads itemReads
  | .land op cid => do
    guard (op ∈ s.posted)
    guard ((s.directory op.did).cid = op.prev)
    guard (op.signer ∈ (s.directory op.did).rotationKeys)
    return s.landOp op cid
  | .external did tip => some { s with directory := Function.update s.directory did tip }
  | .fail => some (s.enter .idle)
  | .kill => some { s.enter .idle with session := none }

end State

end Model

end Ezpds.Wallet.Ceremony
