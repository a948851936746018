import Ezpds.Auth.OauthScopes
import Ezpds.Firehose.Events
import Ezpds.Repo.ApplyWrites

/-!
# The shared write flow

What `createRecord`, `putRecord`, `deleteRecord` and `applyWrites` have in common: the
ownership check, the preconditions, and `commit_repo_write`, which checks the record count
of the new head, swaps the persisted root and stages the firehose event. The per-DID write
lock is held throughout, so a request is one step on the accounts table; what the server
meets on its way (the clock, the other services, failures) is the `RequestEnv`.

* `commitRepoWrite_ok`: a write that lands.
* `writeRecord_ok`: the flow of `createRecord` and `putRecord`.
-/

namespace Ezpds.Pds

open Library Repo Auth Firehose

/-! ## State and environment -/

/-- A row of the accounts table, with the repository under its persisted root. `active` is
derived from the lifecycle columns, `recordCount` is the maintained count. -/
structure Account {Cid : Type} (enc : Encoders Cid) where
  repo : Option (Repository enc)
  active : Bool
  recordCount : Option Int

abbrev Accounts {Cid : Type} (enc : Encoders Cid) : Type := String → Option (Account enc)

/-- What one request meets: the answers of the code that is not modelled here, the clock
readings, and whether the steps that may fail succeed. `probed` is the handler's own look
at the tree, `write i` what the `i`th write of the engine meets. -/
structure RequestEnv (Cid : Type) where
  resolveIdentifier : String → Except ApiError (Option String)
  isValidDid : String → Bool
  authenticate : Except ApiError AuthenticatedUser
  validateRecordFormats : Json → Except String Unit
  validateRecord : String → String → Json → Option Bool → Except ApiError (Option String)
  tidClock : Nat → Clock
  opened : Bool
  probed : Bool
  signer : Except ApiError (CommitSigner Cid)
  write : Nat → WriteEnv
  checkWritePoints : Nat → Except ApiError Unit
  counted : Bool
  diffed : Bool
  carBuilt : Bool
  carBytes : Car Cid → List UInt8
  transaction : Except ApiError Unit
  activeAtCommit : Bool

variable {Cid : Type} [CidText Cid] [LinearOrder Cid] {enc : Encoders Cid}

/-! ## Preconditions -/

def resolveRepoDid (env : RequestEnv Cid) (repo : String) : Except ApiError String :=
  if "did:".toList.isPrefixOf repo.toList then .ok repo
  else do
    match ← env.resolveIdentifier repo with
    | some did => return did
    | none => throw ⟨.invalidRequest, "could not resolve repo to a known account"⟩

/-- The checks that every write route makes before it looks at the repository. -/
def authorizeOwner (env : RequestEnv Cid) (did : String) :
    Except ApiError AuthenticatedUser := do
  ensure (env.isValidDid did) ⟨.invalidClaim, "invalid DID format"⟩
  let user ← env.authenticate
  ensure user.scope.isAccess ⟨.invalidToken, "access token required"⟩
  ensure (user.did == did) ⟨.forbidden, "authenticated account does not own this repository"⟩
  return user

/-- The account row and the repository under its root; a non-active account is read-only. -/
def repoWriteState (accounts : Accounts enc) (did : String) :
    Except ApiError (Account enc × Repository enc) :=
  match accounts did with
  | none => .error ⟨.notFound, "account not found"⟩
  | some account =>
    if account.active then
      match account.repo with
      | none => .error ⟨.notFound, "account not found"⟩
      | some repo => .ok (account, repo)
    else .error ⟨.forbidden, "account is deactivated"⟩

structure SwapCheck where
  commit : Option String
  record : Option (Option String)

def enforceSwap (env : RequestEnv Cid) (swap : SwapCheck) (currentRoot : String)
    (repo : Repository enc) (mstKey : String) : Except ApiError Unit := do
  ensure (swap.commit.all (· == currentRoot))
    ⟨.invalidSwap, "swapCommit did not match the current repo head"⟩
  match swap.record with
  | none => return ()
  | some expected =>
    ensure env.probed ⟨.internalError, "failed to evaluate swapRecord"⟩
    let current := (repo.getRecordCid mstKey).map CidText.toText
    match expected with
    | some cid =>
      ensure (current == some cid) ⟨.invalidSwap, "swapRecord did not match the current record"⟩
    | none =>
      ensure current.isNone ⟨.invalidSwap, "swapRecord was null but the record already exists"⟩

/-- `split_record_path`: the halves of an MST key. -/
def splitRecordPath (mstKey : String) : String × String :=
  match splitOnce '/' mstKey.toList with
  | some (collection, rkey) => (String.ofList collection, String.ofList rkey)
  | none => (mstKey, "")

/-! ## Committing a write -/

def writeCost (ops : List RepoOp) : Nat :=
  (ops.map fun op =>
    match op.action with
    | .create => 3
    | .update => 2
    | .delete => 1).sum

/-- By how much the ops change the number of records, read off their labels. -/
def expectedDelta (ops : List RepoOp) : Int :=
  (ops.map fun op =>
    match op.action with
    | .create => if op.prev.isNone then 1 else 0
    | .update => if op.prev.isNone then 1 else 0
    | .delete => (-1 : Int)).sum

/-- The MST integrity check: skipped when either count is unknown. -/
def integrityCheck (storedCount newCount : Option Int) (delta : Int) : Except ApiError Unit :=
  match storedCount, newCount with
  | some stored, some counted =>
    ensure (stored + delta == counted)
      ⟨.internalError, "repository integrity check failed; write aborted"⟩
  | _, _ => .ok ()

/-- What `count_records` reports of the new head, when the walk succeeds. -/
def headCount (env : RequestEnv Cid) (new : Repository enc) : Option Int :=
  if env.counted then i64TryFrom new.countRecords else none

/-- A write whose transaction committed: the new row, the ops, and the staged event with
the CAR that its `blocks` encode. The event is dropped when the CAR was not assembled. -/
structure Landed {Cid : Type} (enc : Encoders Cid) where
  did : String
  account : Account enc
  ops : List RepoOp
  event : Option (CommitInput × Car Cid)

def commitRepoWrite (env : RequestEnv Cid) (did : String) (account : Account enc)
    (prev new : Repository enc) (ops : List RepoOp) : Except ApiError (Landed enc) := do
  env.checkWritePoints (writeCost ops)
  let newCount := headCount env new
  integrityCheck account.recordCount newCount (expectedDelta ops)
  let diff := collectCommitDiff (some prev) new
  let car := buildCar new.root diff.added
  env.transaction
  ensure env.activeAtCommit
    ⟨.conflict, "repository was modified concurrently; retry against the current root"⟩
  let input : CommitInput :=
    { repo := did, commit := CidText.toText new.root, rev := new.commit.rev,
      since := some prev.commit.rev, prevData := some (CidText.toText prev.commit.data), ops,
      blocks := env.carBytes car }
  return {
    did, ops
    account := { account with repo := some new, recordCount := newCount }
    event := if env.diffed && env.carBuilt then some (input, car) else none }

/-! ## createRecord and putRecord -/

/-- The errors of the engine as `write_record` reports them. -/
def writeRecordError : RecordError → ApiError
  | .invalidRecord _ => ⟨.invalidClaim, "invalid record"⟩
  | _ => ⟨.internalError, "failed to write record"⟩

def writeRecord (env : RequestEnv Cid) (accounts : Accounts enc) (did mstKey : String)
    (record : Json) (createOnly : Bool) (swap : SwapCheck) (validate : Option Bool) :
    Except ApiError (Landed enc × Cid × Option String) := do
  let user ← authorizeOwner env did
  (env.validateRecordFormats record).mapError fun message => ⟨.invalidRequest, message⟩
  let path := splitRecordPath mstKey
  let status ← env.validateRecord path.1 path.2 record validate
  let (account, repo) ← repoWriteState accounts did
  ensure (env.opened && env.probed) ⟨.internalError, "failed to write record"⟩
  let prevCid := repo.getRecordCid mstKey
  let action := if createOnly || prevCid.isNone then RepoAction.create else RepoAction.update
  checkRepoScope user (String.ofList (mstKey.toList.takeWhile (· != '/'))) action
  enforceSwap env swap (CidText.toText repo.root) repo mstKey
  ensure (!(createOnly && prevCid.isSome))
    ⟨.conflict, "record already exists; use putRecord to update"⟩
  let signer ← env.signer
  let (cid, new) ← (repo.putRecordJson signer (env.write 0) mstKey record).mapError
    writeRecordError
  let op : RepoOp :=
    { action := if prevCid.isSome then .update else .create, collection := path.1,
      rkey := path.2, cid := some (CidText.toText cid), prev := prevCid.map CidText.toText,
      value := some record }
  let landed ← commitRepoWrite env did account repo new [op]
  return (landed, cid, status)

/-! ## What a write did -/

/-- One op of a write, before its CIDs are written as text: the action that was authorized
and is emitted, and what the key held before and after. -/
structure Written (Cid : Type) where
  action : RepoAction
  collection : String
  rkey : String
  prev : Option Cid
  next : Option Cid
  value : Option Json

def opAction : RepoAction → OpAction
  | .create => .create
  | .update => .update
  | .delete => .delete

def Written.edit (w : Written Cid) : Edit String Cid where
  key := recordKey w.collection w.rkey
  prev := w.prev
  next := w.next

def Written.op (w : Written Cid) : RepoOp where
  action := opAction w.action
  collection := w.collection
  rkey := w.rkey
  cid := w.next.map CidText.toText
  prev := w.prev.map CidText.toText
  value := w.value

/-- A create found nothing, a delete removed a record, and both writes left one. -/
def Written.Kinded (w : Written Cid) : Prop :=
  match w.action with
  | .create => w.prev = none ∧ w.next.isSome
  | .update => w.next.isSome
  | .delete => w.prev.isSome ∧ w.next = none

/-- The ops `ws` of a write by `user` took the account's repository from `old` to `new`. -/
structure Lands (env : RequestEnv Cid) (user : AuthenticatedUser) (account : Account enc)
    (old new : Repository enc) (ws : List (Written Cid)) (landed : Landed enc) : Prop where
  access : user.scope.isAccess = true
  before : account.repo = some old
  after : landed.account.repo = some new
  chained : Edit.Chained old.tree (ws.map Written.edit)
  tree : new.tree = Edit.applyAll old.tree (ws.map Written.edit)
  kinded : ∀ w ∈ ws, w.Kinded
  collection : ∀ w ∈ ws, '/' ∉ w.collection.toList
  authorized : ∀ w ∈ ws, checkRepoScope user w.collection w.action = .ok ()
  ops : landed.ops = ws.map Written.op
  checked : integrityCheck account.recordCount (headCount env new) (expectedDelta landed.ops) =
    .ok ()
  count : landed.account.recordCount = headCount env new
  event : ∀ input car, landed.event = some (input, car) →
    input.ops = landed.ops ∧ input.commit = CidText.toText new.root ∧
      car = buildCar new.root (collectCommitDiff (some old) new).added

theorem toList_recordKey (collection rkey : String) :
    (recordKey collection rkey).toList = collection.toList ++ '/' :: rkey.toList := by
  simp [recordKey]

theorem splitRecordPath_recordKey {collection rkey : String} (h : '/' ∉ collection.toList) :
    splitRecordPath (recordKey collection rkey) = (collection, rkey) := by
  simp [splitRecordPath, splitOnce, toList_recordKey, takeWhile_append_sep h,
    dropWhile_append_sep h]

theorem takeWhile_recordKey {collection rkey : String} (h : '/' ∉ collection.toList) :
    String.ofList ((recordKey collection rkey).toList.takeWhile (· != '/')) = collection := by
  simp [toList_recordKey, takeWhile_append_sep h]

variable {env : RequestEnv Cid} {accounts : Accounts enc} {did : String}
  {landed : Landed enc}

/-- A write that lands: the new row, and the count check that it passed. -/
theorem commitRepoWrite_ok {account : Account enc} {prev new : Repository enc}
    {ops : List RepoOp} (h : commitRepoWrite env did account prev new ops = .ok landed) :
    landed.did = did ∧ landed.account.repo = some new ∧ landed.ops = ops ∧
      integrityCheck account.recordCount (headCount env new) (expectedDelta ops) = .ok () ∧
      landed.account.recordCount = headCount env new ∧
      ∀ input car, landed.event = some (input, car) → input.ops = ops ∧
        input.commit = CidText.toText new.root ∧
        car = buildCar new.root (collectCommitDiff (some prev) new).added := by
  obtain ⟨_, _, h⟩ := bind_ok.mp h
  obtain ⟨_, hCheck, h⟩ := bind_ok.mp h
  obtain ⟨_, _, h⟩ := bind_ok.mp h
  obtain ⟨_, _, h⟩ := bind_ok.mp h
  cases h
  refine ⟨rfl, rfl, rfl, hCheck, rfl, ?_⟩
  intro input car hEvent
  dsimp only at hEvent
  split at hEvent
  · cases hEvent
    exact ⟨rfl, rfl, rfl⟩
  · cases hEvent

omit [CidText Cid] [LinearOrder Cid] in
theorem authorizeOwner_ok {user : AuthenticatedUser} (h : authorizeOwner env did = .ok user) :
    env.authenticate = .ok user ∧ user.scope.isAccess = true ∧ user.did = did := by
  obtain ⟨_, _, h⟩ := bind_ok.mp h
  obtain ⟨u, hAuth, h⟩ := bind_ok.mp h
  obtain ⟨_, hAccess, h⟩ := bind_ok.mp h
  obtain ⟨_, hOwner, h⟩ := bind_ok.mp h
  cases h
  exact ⟨hAuth, ensure_ok.mp hAccess, by simpa using ensure_ok.mp hOwner⟩

omit [CidText Cid] [LinearOrder Cid] in
theorem repoWriteState_ok {account : Account enc} {repo : Repository enc}
    (h : repoWriteState accounts did = .ok (account, repo)) :
    accounts did = some account ∧ account.repo = some repo ∧ account.active = true := by
  simp only [repoWriteState] at h
  split at h
  · cases h
  · rename_i a hAccount
    split at h
    · rename_i hActive
      split at h
      · cases h
      · rename_i r hRepo
        cases h
        exact ⟨hAccount, hRepo, hActive⟩
    · cases h

/-- `createRecord` and `putRecord`: one op, labelled by whether the key existed, which is
also how its scope was checked. -/
theorem writeRecord_ok {collection rkey : String} {record : Json} {createOnly : Bool}
    {swap : SwapCheck} {validate : Option Bool} {cid : Cid} {status : Option String}
    (hSlash : '/' ∉ collection.toList)
    (h : writeRecord env accounts did (recordKey collection rkey) record createOnly swap validate =
      .ok (landed, cid, status)) :
    ∃ user account old new w, env.authenticate = .ok user ∧ user.did = did ∧
      accounts did = some account ∧ landed.did = did ∧ Lands env user account old new [w] landed ∧
      (w.action = .update → w.prev.isSome) := by
  rw [writeRecord, splitRecordPath_recordKey hSlash, takeWhile_recordKey hSlash] at h
  obtain ⟨user, hUser, h⟩ := bind_ok.mp h
  obtain ⟨hAuth, hAccess, hOwner⟩ := authorizeOwner_ok hUser
  obtain ⟨_, _, h⟩ := bind_ok.mp h
  obtain ⟨_, _, h⟩ := bind_ok.mp h
  obtain ⟨⟨account, old⟩, hState, h⟩ := bind_ok.mp h
  obtain ⟨hAccount, hOld, _⟩ := repoWriteState_ok hState
  obtain ⟨_, _, h⟩ := bind_ok.mp h
  obtain ⟨_, hScope, h⟩ := bind_ok.mp h
  obtain ⟨_, _, h⟩ := bind_ok.mp h
  obtain ⟨_, hCreate, h⟩ := bind_ok.mp h
  obtain ⟨signer, _, h⟩ := bind_ok.mp h
  obtain ⟨⟨c, new⟩, hPut, h⟩ := bind_ok.mp h
  obtain ⟨l, hCommit, h⟩ := bind_ok.mp h
  cases h
  obtain ⟨data, _, _, hTree⟩ := Repository.putRecordJson_ok (mapError_ok.mp hPut)
  obtain ⟨hDid, hAfter, hOps, hChecked, hCount, hEvent⟩ := commitRepoWrite_ok hCommit
  let w : Written Cid :=
    { action := if (old.getRecordCid (recordKey collection rkey)).isSome then .update else .create
      collection, rkey, prev := old.getRecordCid (recordKey collection rkey), next := some cid
      value := some record }
  have hKinded : w.Kinded := by
    cases hPrev : old.getRecordCid (recordKey collection rkey) with
    | none => simp [w, Written.Kinded, hPrev]
    | some prev => simp [w, Written.Kinded, hPrev]
  have hAuthorized : checkRepoScope user collection w.action = .ok () := by
    have hAction : w.action =
        if createOnly || (old.getRecordCid (recordKey collection rkey)).isNone then .create
        else .update := by
      cases hPrev : old.getRecordCid (recordKey collection rkey) with
      | none => simp [w, hPrev]
      | some prev =>
        have hUpsert : createOnly = false := by simpa [hPrev] using ensure_ok.mp hCreate
        simp [w, hPrev, hUpsert]
    rw [hAction]
    exact hScope
  have hOp : landed.ops = [w].map Written.op := by
    rw [hOps]
    cases hPrev : old.getRecordCid (recordKey collection rkey) with
    | none => simp [w, Written.op, opAction, hPrev]
    | some prev => simp [w, Written.op, opAction, hPrev]
  refine ⟨user, account, old, new, w, hAuth, hOwner, hAccount, hDid, ?_, ?_⟩
  · exact
      { access := hAccess, before := hOld, after := hAfter
        chained := ⟨rfl, trivial⟩
        tree := hTree
        kinded := fun v hv => by
          rw [List.mem_singleton.mp hv]
          exact hKinded
        collection := fun v hv => by
          rw [List.mem_singleton.mp hv]
          exact hSlash
        authorized := fun v hv => by
          rw [List.mem_singleton.mp hv]
          exact hAuthorized
        ops := hOp
        checked := by
          rw [hOps]
          exact hChecked
        count := hCount
        event := by
          rw [hOps]
          exact hEvent }
  · intro hUpdate
    cases hPrev : old.getRecordCid (recordKey collection rkey) with
    | none => simp [w, hPrev] at hUpdate
    | some prev => simp [w, hPrev]

end Ezpds.Pds
