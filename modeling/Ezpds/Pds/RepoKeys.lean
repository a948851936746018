import Ezpds.Crypto.PlcVerify
import Ezpds.Data.ApiError
import Ezpds.Library.Parties
import Ezpds.Library.Run

/-!
# The repo signing keys of an account, and their rotation

The rows of `signing_keys` of one DID, the state of that DID at plc.directory, and the
requests that use them: begin and complete of a rotation, and record writes. A step is one
database statement or transaction, one call of the directory, or what lies between two of
them. The lock is `repo_write_locks` of the DID. A request may be dropped wherever it is,
which releases the lock, and what it has sent to the directory may still arrive later.

Key identifiers are drawn by the environment, and none is drawn twice. `log` is the memory of
what was reported and of what was signed.

* `Keys.rows`: the tables that a rotation can reach.
* `State.step`: the machine.
-/

namespace Ezpds.Pds.RepoKeys

open Library Crypto

/-! ## The table -/

structure RepoSigningKey where
  keyId : String
  publicKey : String
  privateKeyEncrypted : String
  deriving DecidableEq

inductive KeyStatus where
  | active
  | staged
  deriving DecidableEq

structure SigningKeyRow where
  key : RepoSigningKey
  status : KeyStatus
  deriving DecidableEq

/-- The newest row with a status: rows stand in the order of `created_at`. -/
def newestWith (rows : List SigningKeyRow) (status : KeyStatus) : Option RepoSigningKey :=
  (rows.filter fun row => row.status = status).getLast?.map SigningKeyRow.key

def getSigningKeyByDid (rows : List SigningKeyRow) : Option RepoSigningKey :=
  newestWith rows .active

def getStagedSigningKey (rows : List SigningKeyRow) : Option RepoSigningKey :=
  newestWith rows .staged

def stageRotationKey (rows : List SigningKeyRow) (key : RepoSigningKey) : List SigningKeyRow :=
  rows.filter (fun row => row.status ≠ .staged) ++ [⟨key, .staged⟩]

def isStaged (keyId : String) (row : SigningKeyRow) : Bool :=
  row.key.keyId = keyId ∧ row.status = .staged

/-- `none` when the update does not change exactly one row. -/
def promoteStagedSigningKey (rows : List SigningKeyRow) (stagedKeyId : String) :
    Option (List SigningKeyRow) :=
  if rows.countP (isStaged stagedKeyId) = 1 then
    some ((rows.map fun row =>
        if isStaged stagedKeyId row then { row with status := .active } else row).filter
      fun row => ¬(row.status = .active ∧ row.key.keyId ≠ stagedKeyId))
  else none

/-- The key that signs, and the one that is to replace it. -/
structure Keys where
  active : RepoSigningKey
  staged : Option RepoSigningKey
  distinct : ∀ key ∈ staged, key.keyId ≠ active.keyId

namespace Keys

def rows (keys : Keys) : List SigningKeyRow :=
  ⟨keys.active, .active⟩ :: (keys.staged.map fun key => ⟨key, .staged⟩).toList

def stage (keys : Keys) (key : RepoSigningKey) (h : key.keyId ≠ keys.active.keyId) : Keys where
  active := keys.active
  staged := some key
  distinct := by
    rintro _ ⟨⟩
    exact h

def promoted (key : RepoSigningKey) : Keys where
  active := key
  staged := none
  distinct := by simp

/-- The key that an operation under way installs: the staged one, or the active one when it has
been promoted already. -/
def target (keys : Keys) : RepoSigningKey :=
  keys.staged.getD keys.active

variable (keys : Keys)

theorem getSigningKeyByDid_rows : getSigningKeyByDid keys.rows = some keys.active := by
  cases h : keys.staged with
  | none => simp [getSigningKeyByDid, newestWith, rows, h]
  | some key => simp [getSigningKeyByDid, newestWith, rows, h]

theorem getStagedSigningKey_rows : getStagedSigningKey keys.rows = keys.staged := by
  cases h : keys.staged with
  | none => simp [getStagedSigningKey, newestWith, rows, h]
  | some key => simp [getStagedSigningKey, newestWith, rows, h]

theorem stageRotationKey_rows {key : RepoSigningKey} (h : key.keyId ≠ keys.active.keyId) :
    stageRotationKey keys.rows key = (keys.stage key h).rows := by
  cases hStaged : keys.staged with
  | none => simp [stageRotationKey, rows, stage, hStaged]
  | some old => simp [stageRotationKey, rows, stage, hStaged]

theorem promote_rows {key : RepoSigningKey} (h : keys.staged = some key) :
    promoteStagedSigningKey keys.rows key.keyId = some (promoted key).rows := by
  have hDistinct : keys.active.keyId ≠ key.keyId := (keys.distinct key h).symm
  simp [promoteStagedSigningKey, rows, promoted, isStaged, h, hDistinct]

theorem promote_rows_none {keyId : String} (h : ∀ key ∈ keys.staged, key.keyId ≠ keyId) :
    promoteStagedSigningKey keys.rows keyId = none := by
  cases hStaged : keys.staged with
  | none => simp [promoteStagedSigningKey, rows, isStaged, hStaged]
  | some key =>
    have hKey := h key hStaged
    simp [promoteStagedSigningKey, rows, isStaged, hStaged, hKey]

end Keys

/-! ## The directory -/

structure CurrentPlcState where
  cid : String
  rotationKeys : List String
  verificationMethods : StringMap String
  alsoKnownAs : List String
  services : StringMap PlcService

/-- What `fetch_current_plc_state` reads of an operation that has become the head. -/
def CurrentPlcState.ofOp (op : VerifiedPlcOp) : CurrentPlcState where
  cid := op.cid
  rotationKeys := op.rotationKeys
  verificationMethods := op.verificationMethods
  alsoKnownAs := op.alsoKnownAs
  services := op.services

def ATPROTO_VERIFICATION_METHOD_ID : String := "atproto"

def CurrentPlcState.atprotoKey (current : CurrentPlcState) : Option String :=
  current.verificationMethods.get? ATPROTO_VERIFICATION_METHOD_ID

inductive Delivery where
  | pending
  | accepted
  | rejected
  | lost
  deriving DecidableEq

/-- An operation that was posted to the directory. -/
structure Submission where
  op : VerifiedPlcOp
  delivery : Delivery

/-! ## What complete checks -/

/-- The checks before the staged key is read, and the key that the operation installs. -/
def checkOperation (crates : PlcCrates) (current : CurrentPlcState) (operation : String) :
    Except ApiError (VerifiedPlcOp × String) := do
  let verified ← (verifyPlcOperation crates operation
      (current.rotationKeys.map DidKeyUri.mk)).mapError fun _ =>
    ⟨.invalidRequest, "operation is not signed by a current rotation key"⟩
  ensure (verified.cid == current.cid || verified.prev == some current.cid)
    ⟨.invalidRequest,
      "operation does not chain onto the current PLC head (prev mismatch)"⟩
  match verified.verificationMethods.get? ATPROTO_VERIFICATION_METHOD_ID with
  | some key => return (verified, key)
  | none => .error ⟨.invalidRequest, "operation has no atproto verification method"⟩

/-- The checks of an operation that installs `key`, once the staged key is known. -/
def checkInstalls (current : CurrentPlcState) (op : VerifiedPlcOp) (key : String)
    (staged : RepoSigningKey) : Except ApiError Unit := do
  ensure (key == staged.keyId)
    ⟨.invalidRequest,
      "operation does not install the staged signing key as the atproto verification method"⟩
  ensure (staged.keyId ∈ op.rotationKeys)
    ⟨.invalidRequest, "operation does not include the staged signing key in rotationKeys"⟩
  ensure (op.services = current.services)
    ⟨.invalidRequest, "a key rotation must not change the DID's services"⟩

def noRotation : ApiError :=
  ⟨.invalidRequest, "no signing-key rotation is in progress for this account"⟩

def noSigningKey : ApiError :=
  ⟨.notFound, "no signing key is registered for this account"⟩

def stagedKeyVanished : ApiError :=
  ⟨.internalError, "failed to promote the staged signing key"⟩

def directoryFailed : ApiError :=
  ⟨.plcDirectoryError, "failed to contact plc.directory"⟩

/-! ## Requests -/

inductive Phase where
  /-- A begin that has found an active key, and draws the new one. -/
  | staging
  /-- A complete whose operation passed the checks against `current`; it installs `key`. -/
  | readingStaged (op : VerifiedPlcOp) (key : String) (current : CurrentPlcState)
  | readingActive (key : String) (landed : Bool)
  | waiting (op : VerifiedPlcOp) (key : String) (landed : Bool)
  /-- The lock is held from here to `reporting`. -/
  | submitting (op : VerifiedPlcOp) (key : String)
  | submitted (submission : Nat) (key : String)
  | promoting (key : String)
  | checkingActive (key : String)
  | reporting (key : String)
  /-- A record write that waits for the lock, and holds it afterwards. -/
  | writing
  | loading
  | signing (key : RepoSigningKey)
  | refused (error : ApiError)
  | ended

inductive Entry where
  | completed (keyId : String)
  /-- A commit, and what the directory named at that time. -/
  | signed (keyId : String) (atprotoKey : Option String)
  deriving DecidableEq

structure State where
  keys : List SigningKeyRow
  head : CurrentPlcState
  submissions : List Submission
  requests : List Phase
  /-- The request that holds the lock. -/
  lock : Option Nat
  drawn : List String
  /-- The newest entry first. -/
  log : List Entry

inductive Label where
  | presentBegin
  | stage (i : Nat) (key : RepoSigningKey)
  | presentComplete (operation : String)
  | readStaged (i : Nat)
  | readActive (i : Nat)
  | lockComplete (i : Nat)
  | submit (i : Nat)
  | deliver (submission : Nat)
  | lose (submission : Nat)
  | succeed (i : Nat)
  | fail (i : Nat)
  | promote (i : Nat)
  | checkActive (i : Nat)
  | report (i : Nat)
  | presentWrite
  | lockWrite (i : Nat)
  | loadSigner (i : Nat)
  | sign (i : Nat)
  | endRequest (i : Nat)

namespace State

/-- An account whose signing key is the one that the directory names. -/
def opened (key : RepoSigningKey) (head : CurrentPlcState) : State where
  keys := [⟨key, .active⟩]
  head := head
  submissions := []
  requests := []
  lock := none
  drawn := [key.keyId]
  log := [.completed key.keyId]

def arrive (s : State) (phase : Phase) : State :=
  { s with requests := s.requests ++ [phase] }

def advance (s : State) (i : Nat) (phase : Phase) : State :=
  { s with requests := s.requests.set i phase }

def unlocked (s : State) (i : Nat) : State :=
  { s with lock := if s.lock = some i then none else s.lock }

def presentBegin (s : State) : State :=
  match getSigningKeyByDid s.keys with
  | some _ => s.arrive .staging
  | none => s.arrive (.refused noSigningKey)

def stage (s : State) (i : Nat) (key : RepoSigningKey) : Option State :=
  match s.requests[i]? with
  | some .staging =>
    if key.keyId ∈ s.drawn then none
    else some { s.advance i .ended with
      keys := stageRotationKey s.keys key
      drawn := key.keyId :: s.drawn }
  | _ => none

def presentComplete (crates : PlcCrates) (s : State) (operation : String) : State :=
  match checkOperation crates s.head operation with
  | .ok (op, key) => s.arrive (.readingStaged op key s.head)
  | .error e => s.arrive (.refused e)

def readStaged (s : State) (i : Nat) : Option State :=
  match s.requests[i]? with
  | some (.readingStaged op key current) =>
    match getStagedSigningKey s.keys with
    | none => some (s.advance i (.readingActive key (op.cid == current.cid)))
    | some staged =>
      match checkInstalls current op key staged with
      | .ok () => some (s.advance i (.waiting op key (op.cid == current.cid)))
      | .error e => some (s.advance i (.refused e))
  | _ => none

/-- No key is staged: a repeat of a complete that has promoted this one is a success. -/
def readActive (s : State) (i : Nat) : Option State :=
  match s.requests[i]? with
  | some (.readingActive key landed) =>
    if landed ∧ (getSigningKeyByDid s.keys).map RepoSigningKey.keyId = some key then
      some (s.advance i (.reporting key))
    else some (s.advance i (.refused noRotation))
  | _ => none

def lockComplete (s : State) (i : Nat) : Option State :=
  match s.requests[i]?, s.lock with
  | some (.waiting op key landed), none =>
    some { s.advance i (if landed then .promoting key else .submitting op key) with
      lock := some i }
  | _, _ => none

def submit (s : State) (i : Nat) : Option State :=
  match s.requests[i]? with
  | some (.submitting op key) =>
    some { s.advance i (.submitted s.submissions.length key) with
      submissions := s.submissions ++ [⟨op, .pending⟩] }
  | _ => none

/-- The operation reaches the directory, which decides on it by its own rules. -/
def deliver (accepts : CurrentPlcState → VerifiedPlcOp → Bool) (s : State) (j : Nat) :
    Option State :=
  match s.submissions[j]? with
  | some ⟨op, .pending⟩ =>
    if accepts s.head op then
      some { s with
        head := .ofOp op
        submissions := s.submissions.set j ⟨op, .accepted⟩ }
    else some { s with submissions := s.submissions.set j ⟨op, .rejected⟩ }
  | _ => none

def lose (s : State) (j : Nat) : Option State :=
  match s.submissions[j]? with
  | some ⟨op, .pending⟩ => some { s with submissions := s.submissions.set j ⟨op, .lost⟩ }
  | _ => none

def succeed (s : State) (i : Nat) : Option State :=
  match s.requests[i]? with
  | some (.submitted j key) =>
    match s.submissions[j]? with
    | some ⟨_, .accepted⟩ => some (s.advance i (.promoting key))
    | _ => none
  | _ => none

/-- The post fails for the server, whatever has become of it. -/
def fail (s : State) (i : Nat) : Option State :=
  match s.requests[i]? with
  | some (.submitted _ _) => some ((s.advance i (.refused directoryFailed)).unlocked i)
  | _ => none

def promote (s : State) (i : Nat) : Option State :=
  match s.requests[i]? with
  | some (.promoting key) =>
    match promoteStagedSigningKey s.keys key with
    | some keys => some ({ s.advance i (.reporting key) with keys }.unlocked i)
    | none => some (s.advance i (.checkingActive key))
  | _ => none

def checkActive (s : State) (i : Nat) : Option State :=
  match s.requests[i]? with
  | some (.checkingActive key) =>
    if (getSigningKeyByDid s.keys).map RepoSigningKey.keyId = some key then
      some ((s.advance i (.reporting key)).unlocked i)
    else some ((s.advance i (.refused stagedKeyVanished)).unlocked i)
  | _ => none

def report (s : State) (i : Nat) : Option State :=
  match s.requests[i]? with
  | some (.reporting key) => some { s.advance i .ended with log := .completed key :: s.log }
  | _ => none

def lockWrite (s : State) (i : Nat) : Option State :=
  match s.requests[i]?, s.lock with
  | some .writing, none => some { s.advance i .loading with lock := some i }
  | _, _ => none

/-- `load_repo_signer`, in the middle of `commit_repo_write`. -/
def loadSigner (s : State) (i : Nat) : Option State :=
  match s.requests[i]? with
  | some .loading =>
    match getSigningKeyByDid s.keys with
    | some key => some (s.advance i (.signing key))
    | none => some ((s.advance i (.refused noSigningKey)).unlocked i)
  | _ => none

/-- A commit is signed; the write goes on with its transaction, and may sign another. -/
def sign (s : State) (i : Nat) : Option State :=
  match s.requests[i]? with
  | some (.signing key) => some { s with log := .signed key.keyId s.head.atprotoKey :: s.log }
  | _ => none

/-- A request is dropped, or has come to its end. -/
def endRequest (s : State) (i : Nat) : Option State :=
  match s.requests[i]? with
  | some _ => some ((s.advance i .ended).unlocked i)
  | none => none

def step (crates : PlcCrates) (accepts : CurrentPlcState → VerifiedPlcOp → Bool) (s : State) :
    Label → Option State
  | .presentBegin => some s.presentBegin
  | .stage i key => s.stage i key
  | .presentComplete operation => some (s.presentComplete crates operation)
  | .readStaged i => s.readStaged i
  | .readActive i => s.readActive i
  | .lockComplete i => s.lockComplete i
  | .submit i => s.submit i
  | .deliver j => s.deliver accepts j
  | .lose j => s.lose j
  | .succeed i => s.succeed i
  | .fail i => s.fail i
  | .promote i => s.promote i
  | .checkActive i => s.checkActive i
  | .report i => s.report i
  | .presentWrite => some (s.arrive .writing)
  | .lockWrite i => s.lockWrite i
  | .loadSigner i => s.loadSigner i
  | .sign i => s.sign i
  | .endRequest i => s.endRequest i

end State

end Ezpds.Pds.RepoKeys
