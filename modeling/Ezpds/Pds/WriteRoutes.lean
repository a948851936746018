import Ezpds.Pds.RecordWrite

/-!
# The write routes

The four handlers as functions on the accounts table. A request that fails leaves the
table alone; a request that succeeds either changed nothing or landed one write, and
`handle_ok` says everything the rest of the development needs to know about it.
-/

namespace Ezpds.Pds

open Library Repo Auth Firehose

/-! ## Requests -/

inductive WriteItem where
  | create (collection : String) (rkey : Option String) (value : Json)
  | update (collection rkey : String) (value : Json)
  | delete (collection rkey : String)

inductive Request where
  | createRecord (repo collection : String) (rkey : Option String) (record : Json)
      (swapCommit : Option String) (validate : Option Bool)
  | putRecord (repo collection rkey : String) (record : Json) (swapCommit : Option String)
      (swapRecord : Option (Option String)) (validate : Option Bool)
  | deleteRecord (repo collection rkey : String) (swapCommit swapRecord : Option String)
  | applyWrites (repo : String) (writes : List WriteItem) (swapCommit : Option String)
      (validate : Option Bool)

inductive WriteResult where
  | create (uri cid : String) (validationStatus : Option String)
  | update (uri cid : String) (validationStatus : Option String)
  | delete

inductive Response where
  | record (uri cid : String) (validationStatus : Option String)
  | empty
  | applied (cid rev : String) (results : List WriteResult)

variable {Cid : Type} [CidText Cid] [LinearOrder Cid] {enc : Encoders Cid}

/-! ## Single records -/

/-- `generate_tid`. -/
def generateTid (now : Clock) : String :=
  encodeTid (nowTidInt now)

def validatePath (collection rkey : String) : Except ApiError Unit :=
  (validateRecordPath collection rkey).mapError fun _ =>
    ⟨.invalidClaim, "invalid collection or record key"⟩

/-- An absent or empty record key is replaced by a fresh TID. -/
def rkeyOrTid (rkey : Option String) (tid : String) : String :=
  (rkey.filter fun r => !r.isEmpty).getD tid

def createRecord (env : RequestEnv Cid) (accounts : Accounts enc) (repo collection : String)
    (rkey : Option String) (record : Json) (swapCommit : Option String)
    (validate : Option Bool) : Except ApiError (Option (Landed enc) × Response) := do
  let did ← resolveRepoDid env repo
  let rkey := rkeyOrTid rkey (generateTid (env.tidClock 0))
  validatePath collection rkey
  let (landed, cid, status) ← writeRecord env accounts did (recordKey collection rkey) record true
    { commit := swapCommit, record := none } validate
  return (some landed,
    .record ("at://" ++ did ++ "/" ++ collection ++ "/" ++ rkey) (CidText.toText cid) status)

def putRecord (env : RequestEnv Cid) (accounts : Accounts enc) (repo collection rkey : String)
    (record : Json) (swapCommit : Option String) (swapRecord : Option (Option String))
    (validate : Option Bool) : Except ApiError (Option (Landed enc) × Response) := do
  let did ← resolveRepoDid env repo
  validatePath collection rkey
  let (landed, cid, status) ← writeRecord env accounts did (recordKey collection rkey) record
    false { commit := swapCommit, record := swapRecord } validate
  return (some landed,
    .record ("at://" ++ did ++ "/" ++ collection ++ "/" ++ rkey) (CidText.toText cid) status)

def deleteRecord (env : RequestEnv Cid) (accounts : Accounts enc)
    (repo collection rkey : String) (swapCommit swapRecord : Option String) :
    Except ApiError (Option (Landed enc) × Response) := do
  let did ← resolveRepoDid env repo
  let user ← authorizeOwner env did
  validatePath collection rkey
  checkRepoScope user collection .delete
  let (account, old) ← repoWriteState accounts did
  ensure env.opened ⟨.internalError, "failed to delete record"⟩
  let mstKey := recordKey collection rkey
  enforceSwap env { commit := swapCommit, record := swapRecord.map some }
    (CidText.toText old.root) old mstKey
  ensure env.probed ⟨.internalError, "failed to delete record"⟩
  match old.getRecordCid mstKey with
  | none => return (none, .empty)
  | some prevCid =>
    let signer ← env.signer
    let new ← (old.deleteRecord signer (env.write 0) mstKey).mapError fun _ =>
      ⟨.internalError, "failed to delete record"⟩
    let op : RepoOp :=
      { action := .delete, collection, rkey, cid := none, prev := some (CidText.toText prevCid),
        value := none }
    let landed ← commitRepoWrite env did account old new [op]
    return (some landed, .empty)

/-! ## applyWrites -/

def WriteItem.kind : WriteItem → RepoAction
  | create _ _ _ => .create
  | update _ _ _ => .update
  | delete _ _ => .delete

def WriteItem.collection : WriteItem → String
  | create collection _ _ => collection
  | update collection _ _ => collection
  | delete collection _ => collection

def WriteItem.rkey (tid : String) : WriteItem → String
  | create _ rkey _ => rkeyOrTid rkey tid
  | update _ rkey _ => rkey
  | delete _ rkey => rkey

def WriteItem.value : WriteItem → Option Json
  | create _ _ value => some value
  | update _ _ value => some value
  | delete _ _ => none

def WriteItem.op (key : String) : WriteItem → WriteOp
  | create _ _ value => .create key value
  | update _ _ value => .update key value
  | delete _ _ => .delete key

/-- What the first loop of `apply_writes` keeps of a write: its kind, the engine's op, the
record's value and its validation status. -/
structure Prepared where
  kind : RepoAction
  op : WriteOp
  value : Option Json
  status : Option String

def validateValue (env : RequestEnv Cid) (collection rkey : String) (validate : Option Bool) :
    Option Json → Except ApiError (Option String)
  | none => .ok none
  | some value => do
    (env.validateRecordFormats value).mapError fun message => ⟨.invalidRequest, message⟩
    env.validateRecord collection rkey value validate

def prepareWrite (env : RequestEnv Cid) (user : AuthenticatedUser) (validate : Option Bool)
    (i : Nat) (item : WriteItem) : Except ApiError Prepared := do
  let rkey := item.rkey (generateTid (env.tidClock i))
  validatePath item.collection rkey
  let status ← validateValue env item.collection rkey validate item.value
  checkRepoScope user item.collection item.kind
  let key := recordKey item.collection rkey
  return { kind := item.kind, op := item.op key, value := item.value, status }

def prepareWrites (env : RequestEnv Cid) (user : AuthenticatedUser) (validate : Option Bool) :
    Nat → List WriteItem → Except ApiError (List Prepared)
  | _, [] => .ok []
  | i, item :: writes => do
    let w ← prepareWrite env user validate i item
    let ws ← prepareWrites env user validate (i + 1) writes
    return w :: ws

/-- The errors of the engine as `apply_writes` reports them. -/
def applyWritesError : RecordError → ApiError
  | .alreadyExists _ => ⟨.conflict, "record already exists"⟩
  | .invalidRecord _ => ⟨.invalidClaim, "invalid record"⟩
  | .invalidPath _ => ⟨.invalidClaim, "invalid collection or record key"⟩
  | _ => ⟨.internalError, "failed to apply writes"⟩

/-- The op of one outcome; a delete that found nothing mutated nothing and has none. -/
def emittedOp (w : Prepared) (outcome : WriteOutcome Cid) : Option RepoOp :=
  if w.kind = .delete ∧ outcome.prev.isNone then none
  else
    let path := splitRecordPath outcome.key
    some
      { action := opAction w.kind, collection := path.1, rkey := path.2,
        cid := outcome.cid.map CidText.toText, prev := outcome.prev.map CidText.toText,
        value := w.value }

def emittedOps (ws : List Prepared) (outcomes : List (WriteOutcome Cid)) : List RepoOp :=
  (ws.zip outcomes).filterMap fun p => emittedOp p.1 p.2

def writeResult (did : String) (w : Prepared) (outcome : WriteOutcome Cid) : WriteResult :=
  let uri := "at://" ++ did ++ "/" ++ outcome.key
  let cid := (outcome.cid.map CidText.toText).getD ""
  match w.kind with
  | .create => .create uri cid w.status
  | .update => .update uri cid w.status
  | .delete => .delete

def applyWrites (env : RequestEnv Cid) (accounts : Accounts enc) (repo : String)
    (writes : List WriteItem) (swapCommit : Option String) (validate : Option Bool) :
    Except ApiError (Option (Landed enc) × Response) := do
  let did ← resolveRepoDid env repo
  let user ← authorizeOwner env did
  ensure (!writes.isEmpty) ⟨.invalidClaim, "writes array must not be empty"⟩
  let ws ← prepareWrites env user validate 0 writes
  let (account, old) ← repoWriteState accounts did
  ensure (swapCommit.all (· == CidText.toText old.root))
    ⟨.conflict, "swapCommit does not match current repo commit"⟩
  ensure env.opened ⟨.internalError, "failed to apply writes"⟩
  let signer ← env.signer
  let (outcomes, new) ← (Repo.applyWrites signer env.write 0 old (ws.map Prepared.op)).mapError
    applyWritesError
  let response := Response.applied (CidText.toText new.root) new.commit.rev
    ((ws.zip outcomes).map fun p => writeResult did p.1 p.2)
  let ops := emittedOps ws outcomes
  -- a batch of deletes that found nothing advanced no commit
  if ops.isEmpty then
    return (none, response)
  else
    let landed ← commitRepoWrite env did account old new ops
    return (some landed, response)

/-! ## The server -/

def handle (env : RequestEnv Cid) (accounts : Accounts enc) :
    Request → Except ApiError (Option (Landed enc) × Response)
  | .createRecord repo collection rkey record swapCommit validate =>
    createRecord env accounts repo collection rkey record swapCommit validate
  | .putRecord repo collection rkey record swapCommit swapRecord validate =>
    putRecord env accounts repo collection rkey record swapCommit swapRecord validate
  | .deleteRecord repo collection rkey swapCommit swapRecord =>
    deleteRecord env accounts repo collection rkey swapCommit swapRecord
  | .applyWrites repo writes swapCommit validate =>
    applyWrites env accounts repo writes swapCommit validate

/-- The accounts table after a request: a request that fails, or that had nothing to
change, leaves it alone. -/
def serve (env : RequestEnv Cid) (accounts : Accounts enc) (request : Request) : Accounts enc :=
  match handle env accounts request with
  | .error _ => accounts
  | .ok (none, _) => accounts
  | .ok (some landed, _) => Function.update accounts landed.did (some landed.account)

/-! ## Batches -/

def kindOf : WriteOp → RepoAction
  | .create _ _ => .create
  | .update _ _ => .update
  | .delete _ => .delete

/-- The key of the `i`th write of a batch. -/
def WriteItem.key (env : RequestEnv Cid) (i : Nat) (item : WriteItem) : String :=
  recordKey item.collection (item.rkey (generateTid (env.tidClock i)))

/-- The ops that a batch asks for. -/
def writeOps (env : RequestEnv Cid) : Nat → List WriteItem → List WriteOp
  | _, [] => []
  | i, item :: writes => item.op (item.key env i) :: writeOps env (i + 1) writes

/-- A write on a valid path that the user's scope permits. -/
def OpAuthorized (user : AuthenticatedUser) (op : WriteOp) : Prop :=
  ∃ collection rkey, op.key = recordKey collection rkey ∧ '/' ∉ collection.toList ∧
    checkRepoScope user collection (kindOf op) = .ok ()

/-- One op of the batch with its outcome, unless it changed nothing. -/
def writtenOf (op : WriteOp) (outcome : WriteOutcome Cid) : Option (Written Cid) :=
  if kindOf op = .delete ∧ outcome.prev.isNone then none
  else
    let path := splitRecordPath outcome.key
    some
      { action := kindOf op, collection := path.1, rkey := path.2, prev := outcome.prev,
        next := outcome.cid, value := op.value }

def written (ops : List WriteOp) (outcomes : List (WriteOutcome Cid)) : List (Written Cid) :=
  (ops.zip outcomes).filterMap fun p => writtenOf p.1 p.2

/-- The ops of a batch took the tree from `old` to `new`, each under the user's scope. -/
structure Ran (user : AuthenticatedUser) (old new : Repository enc) (ops : List WriteOp)
    (outcomes : List (WriteOutcome Cid)) : Prop where
  outcome : List.Forall₂ (OutcomeOf enc) ops outcomes
  chained : Edit.Chained old.tree (outcomes.map WriteOutcome.edit)
  tree : new.tree = Edit.applyAll old.tree (outcomes.map WriteOutcome.edit)
  authorized : ∀ op ∈ ops, OpAuthorized user op

variable {env : RequestEnv Cid} {accounts : Accounts enc} {user : AuthenticatedUser}
  {landed : Landed enc} {response : Response}

theorem validatePath_ok {collection rkey : String} (h : validatePath collection rkey = .ok ()) :
    '/' ∉ collection.toList :=
  slash_not_mem_of_validateCollection (validateRecordPath_ok (mapError_ok.mp h)).1

/-- A prepared write is the op that its item asks for, with the op's own kind and value. -/
structure Prepared.Of (user : AuthenticatedUser) (op : WriteOp) (w : Prepared) : Prop where
  op_eq : w.op = op
  kind_eq : w.kind = kindOf op
  value_eq : w.value = op.value
  authorized : OpAuthorized user op

omit [LinearOrder Cid] [CidText Cid] in
theorem prepareWrite_ok {validate : Option Bool} {i : Nat} {item : WriteItem} {w : Prepared}
    (h : prepareWrite env user validate i item = .ok w) :
    w.Of user (item.op (item.key env i)) := by
  obtain ⟨_, hPath, h⟩ := bind_ok.mp h
  obtain ⟨status, _, h⟩ := bind_ok.mp h
  obtain ⟨_, hScope, h⟩ := bind_ok.mp h
  cases h
  have hSlash := validatePath_ok hPath
  cases item with
  | create collection rkey value => exact ⟨rfl, rfl, rfl, collection, _, rfl, hSlash, hScope⟩
  | update collection rkey value => exact ⟨rfl, rfl, rfl, collection, _, rfl, hSlash, hScope⟩
  | delete collection rkey => exact ⟨rfl, rfl, rfl, collection, _, rfl, hSlash, hScope⟩

omit [LinearOrder Cid] [CidText Cid] in
theorem prepareWrites_ok {validate : Option Bool} {i : Nat} {writes : List WriteItem}
    {ws : List Prepared} (h : prepareWrites env user validate i writes = .ok ws) :
    List.Forall₂ (Prepared.Of user) (writeOps env i writes) ws := by
  induction writes generalizing i ws with
  | nil =>
    cases h
    exact .nil
  | cons item writes ih =>
    obtain ⟨w, hItem, h⟩ := bind_ok.mp h
    obtain ⟨rest, hRest, h⟩ := bind_ok.mp h
    cases h
    exact .cons (prepareWrite_ok hItem) (ih hRest)

theorem Prepared.map_op {ops : List WriteOp} {ws : List Prepared}
    (h : List.Forall₂ (Prepared.Of user) ops ws) : ws.map Prepared.op = ops := by
  induction h with
  | nil => rfl
  | cons hw _ ih => rw [List.map_cons, hw.op_eq, ih]

theorem Prepared.forall_authorized {ops : List WriteOp} {ws : List Prepared}
    (h : List.Forall₂ (Prepared.Of user) ops ws) : ∀ op ∈ ops, OpAuthorized user op := by
  induction h with
  | nil => simp
  | cons hw _ ih => simpa using ⟨hw.authorized, ih⟩

omit [LinearOrder Cid] in
theorem emittedOp_eq {op : WriteOp} {w : Prepared} {o : WriteOutcome Cid} (h : w.Of user op) :
    emittedOp w o = (writtenOf op o).map Written.op := by
  rw [emittedOp, writtenOf, h.kind_eq, h.value_eq]
  by_cases hNoop : kindOf op = .delete ∧ o.prev.isNone = true
  · rw [if_pos hNoop, if_pos hNoop]
    rfl
  · rw [if_neg hNoop, if_neg hNoop]
    rfl

omit [LinearOrder Cid] [CidText Cid] in
theorem written_cons (op : WriteOp) (o : WriteOutcome Cid) (ops : List WriteOp)
    (outcomes : List (WriteOutcome Cid)) :
    written (op :: ops) (o :: outcomes) = (writtenOf op o).toList ++ written ops outcomes := by
  cases h : writtenOf op o with
  | none => simp [written, h]
  | some w => simp [written, h]

omit [LinearOrder Cid] in
theorem emittedOps_cons (w : Prepared) (o : WriteOutcome Cid) (ws : List Prepared)
    (outcomes : List (WriteOutcome Cid)) :
    emittedOps (w :: ws) (o :: outcomes) = (emittedOp w o).toList ++ emittedOps ws outcomes := by
  cases h : emittedOp w o with
  | none => simp [emittedOps, h]
  | some op => simp [emittedOps, h]

omit [LinearOrder Cid] in
theorem emittedOps_eq {ops : List WriteOp} {ws : List Prepared}
    {outcomes : List (WriteOutcome Cid)} (h : List.Forall₂ (Prepared.Of user) ops ws) :
    emittedOps ws outcomes = (written ops outcomes).map Written.op := by
  induction h generalizing outcomes with
  | nil => rfl
  | @cons op w ops ws hw _ ih =>
    cases outcomes with
    | nil => rfl
    | cons o outcomes =>
      rw [emittedOps_cons, written_cons, ih, emittedOp_eq hw, List.map_append]
      cases writtenOf op o with
      | none => rfl
      | some v => rfl

omit [LinearOrder Cid] in
/-- What the batch keeps of one op: an edit of the op's kind under the user's scope, or
nothing when the op deleted nothing. -/
theorem writtenOf_cases {op : WriteOp} {o : WriteOutcome Cid} (hOutcome : OutcomeOf enc op o)
    (hAuth : OpAuthorized user op) :
    (writtenOf op o = none ∧ o.prev = none ∧ o.cid = none) ∨
      ∃ w, writtenOf op o = some w ∧ w.edit = o.edit ∧ w.action = kindOf op ∧ w.Kinded ∧
        '/' ∉ w.collection.toList ∧ checkRepoScope user w.collection w.action = .ok () := by
  obtain ⟨collection, rkey, hKey, hSlash, hScope⟩ := hAuth
  have hPath : o.key = recordKey collection rkey := hOutcome.key_eq.trans hKey
  have hSplit : splitRecordPath o.key = (collection, rkey) := by
    rw [hPath, splitRecordPath_recordKey hSlash]
  by_cases hNoop : kindOf op = .delete ∧ o.prev.isNone = true
  · left
    refine ⟨by rw [writtenOf, if_pos hNoop], by simpa using hNoop.2, ?_⟩
    cases op with
    | create key value => cases hNoop.1
    | update key value => cases hNoop.1
    | delete key => exact hOutcome.2
  · right
    refine ⟨_, by rw [writtenOf, if_neg hNoop], ?_, rfl, ?_, ?_, ?_⟩
    · simp only [Written.edit, WriteOutcome.edit, hSplit]
      rw [hPath]
    · cases op with
      | create key value =>
        obtain ⟨_, hPrev, data, _, hCid⟩ := hOutcome
        exact ⟨hPrev, by simp [hCid]⟩
      | update key value =>
        obtain ⟨_, data, _, hCid⟩ := hOutcome
        simp [Written.Kinded, kindOf, hCid]
      | delete key =>
        have hFound : ¬ o.prev.isNone = true := fun hNone => hNoop ⟨rfl, hNone⟩
        exact ⟨by simpa [Option.isSome_iff_ne_none] using hFound, hOutcome.2⟩
    · simpa [hSplit] using hSlash
    · simpa [hSplit] using hScope

omit [LinearOrder Cid] in
/-- The writes of a batch are its outcomes less the deletes that found nothing, and those
changed nothing. -/
theorem written_edits {m : Repo.Tree Cid} {ops : List WriteOp} {outcomes : List (WriteOutcome Cid)}
    (hOutcomes : List.Forall₂ (OutcomeOf enc) ops outcomes)
    (hAuth : ∀ op ∈ ops, OpAuthorized user op)
    (hChained : Edit.Chained m (outcomes.map WriteOutcome.edit)) :
    Edit.Chained m ((written ops outcomes).map Written.edit) ∧
      Edit.applyAll m ((written ops outcomes).map Written.edit) =
        Edit.applyAll m (outcomes.map WriteOutcome.edit) := by
  induction hOutcomes generalizing m with
  | nil => exact ⟨trivial, rfl⟩
  | @cons op o ops outcomes hOutcome _ ih =>
    obtain ⟨hPrev, hRest⟩ := hChained
    obtain ⟨hChain, hApply⟩ := ih (fun op hop => hAuth op (List.mem_cons_of_mem _ hop)) hRest
    rw [written_cons]
    rcases writtenOf_cases hOutcome (hAuth op List.mem_cons_self) with
      ⟨hNone, hFound, hLeft⟩ | ⟨w, hSome, hEdit, -⟩
    · have hSame : o.edit.apply m = m := Edit.apply_noop hPrev (hLeft.trans hFound.symm)
      rw [hSame] at hChain hApply
      rw [hNone, List.map_cons, Edit.applyAll_cons, hSame]
      exact ⟨hChain, hApply⟩
    · rw [hSome]
      simp only [Option.toList_some, List.singleton_append, List.map_cons, Edit.applyAll_cons,
        hEdit]
      exact ⟨⟨hPrev, hChain⟩, hApply⟩

omit [LinearOrder Cid] in
theorem mem_written {w : Written Cid} {ops : List WriteOp} {outcomes : List (WriteOutcome Cid)}
    (hOutcomes : List.Forall₂ (OutcomeOf enc) ops outcomes)
    (hAuth : ∀ op ∈ ops, OpAuthorized user op) (hw : w ∈ written ops outcomes) :
    w.Kinded ∧ '/' ∉ w.collection.toList ∧
      checkRepoScope user w.collection w.action = .ok () := by
  induction hOutcomes with
  | nil => cases hw
  | @cons op o ops outcomes hOutcome _ ih =>
    rw [written_cons, List.mem_append] at hw
    rcases hw with hw | hw
    · rcases writtenOf_cases hOutcome (hAuth op List.mem_cons_self) with
        ⟨hNone, -⟩ | ⟨v, hSome, -, -, hKinded, hSlash, hScope⟩
      · simp [hNone] at hw
      · have hEq : w = v := by simpa [hSome, eq_comm] using hw
        rw [hEq]
        exact ⟨hKinded, hSlash, hScope⟩
    · exact ih (fun op hop => hAuth op (List.mem_cons_of_mem _ hop)) hw

/-! ## What a request that lands did -/

/-- How the writes of a landed request come from the request. -/
def FromRequest (env : RequestEnv Cid) (user : AuthenticatedUser) (old new : Repository enc)
    (ws : List (Written Cid)) : Request → Prop
  | .applyWrites _ writes _ _ => ∃ outcomes,
      Ran user old new (writeOps env 0 writes) outcomes ∧
        ws = written (writeOps env 0 writes) outcomes
  | _ => ∃ w, ws = [w] ∧ (w.action = .update → w.prev.isSome = true)

theorem deleteRecord_ok {repo collection rkey : String} {swapCommit swapRecord : Option String}
    (h : deleteRecord env accounts repo collection rkey swapCommit swapRecord =
      .ok (some landed, response)) :
    ∃ user account old new w, env.authenticate = .ok user ∧ accounts user.did = some account ∧
      landed.did = user.did ∧ Lands env user account old new [w] landed ∧ w.action = .delete := by
  obtain ⟨did, _, h⟩ := bind_ok.mp h
  obtain ⟨user, hUser, h⟩ := bind_ok.mp h
  obtain ⟨hAuth, hAccess, rfl⟩ := authorizeOwner_ok hUser
  obtain ⟨_, hPath, h⟩ := bind_ok.mp h
  have hSlash := validatePath_ok hPath
  obtain ⟨_, hScope, h⟩ := bind_ok.mp h
  obtain ⟨⟨account, old⟩, hState, h⟩ := bind_ok.mp h
  obtain ⟨hAccount, hOld, _⟩ := repoWriteState_ok hState
  obtain ⟨_, _, h⟩ := bind_ok.mp h
  obtain ⟨_, _, h⟩ := bind_ok.mp h
  obtain ⟨_, _, h⟩ := bind_ok.mp h
  dsimp only at h
  split at h
  · cases h
  · rename_i prevCid hPrev
    obtain ⟨signer, _, h⟩ := bind_ok.mp h
    obtain ⟨new, hDelete, h⟩ := bind_ok.mp h
    obtain ⟨l, hCommit, h⟩ := bind_ok.mp h
    cases h
    obtain ⟨hDid, hAfter, hOps, hChecked, hCount, hEvent⟩ := commitRepoWrite_ok hCommit
    have hTree := Repository.deleteRecord_ok (mapError_ok.mp hDelete)
    refine ⟨user, account, old, new, ⟨.delete, collection, rkey, some prevCid, none, none⟩, hAuth,
      hAccount, hDid, ?_, rfl⟩
    exact
      { access := hAccess, before := hOld, after := hAfter
        chained := ⟨hPrev, trivial⟩
        tree := hTree
        kinded := by simp [Written.Kinded]
        collection := by simpa using hSlash
        authorized := by simpa using hScope
        ops := by simpa [Written.op, opAction] using hOps
        checked := by
          rw [hOps]
          exact hChecked
        count := hCount
        event := by
          rw [hOps]
          exact hEvent }

theorem applyWrites_ok {repo : String} {writes : List WriteItem} {swapCommit : Option String}
    {validate : Option Bool}
    (h : applyWrites env accounts repo writes swapCommit validate = .ok (some landed, response)) :
    ∃ user account old new outcomes, env.authenticate = .ok user ∧
      accounts user.did = some account ∧ landed.did = user.did ∧
      Ran user old new (writeOps env 0 writes) outcomes ∧
      Lands env user account old new (written (writeOps env 0 writes) outcomes) landed := by
  obtain ⟨did, _, h⟩ := bind_ok.mp h
  obtain ⟨user, hUser, h⟩ := bind_ok.mp h
  obtain ⟨hAuth, hAccess, rfl⟩ := authorizeOwner_ok hUser
  obtain ⟨_, _, h⟩ := bind_ok.mp h
  obtain ⟨ws, hPrepared, h⟩ := bind_ok.mp h
  have hWs := prepareWrites_ok hPrepared
  obtain ⟨⟨account, old⟩, hState, h⟩ := bind_ok.mp h
  obtain ⟨hAccount, hOld, _⟩ := repoWriteState_ok hState
  obtain ⟨_, _, h⟩ := bind_ok.mp h
  obtain ⟨_, _, h⟩ := bind_ok.mp h
  obtain ⟨signer, _, h⟩ := bind_ok.mp h
  obtain ⟨⟨outcomes, new⟩, hRun, h⟩ := bind_ok.mp h
  rw [Prepared.map_op hWs] at hRun
  obtain ⟨hOutcomes, hChained, hTree⟩ := Repo.applyWrites_ok (mapError_ok.mp hRun)
  have hRan : Ran user old new (writeOps env 0 writes) outcomes :=
    ⟨hOutcomes, hChained, hTree, Prepared.forall_authorized hWs⟩
  obtain ⟨hEdits, hApply⟩ := written_edits hOutcomes hRan.authorized hChained
  have hWritten := fun w => mem_written (w := w) hOutcomes hRan.authorized
  dsimp only at h
  split at h
  · cases h
  · obtain ⟨l, hCommit, h⟩ := bind_ok.mp h
    cases h
    obtain ⟨hDid, hAfter, hOps, hChecked, hCount, hEvent⟩ := commitRepoWrite_ok hCommit
    refine ⟨user, account, old, new, outcomes, hAuth, hAccount, hDid, hRan, ?_⟩
    exact
      { access := hAccess, before := hOld, after := hAfter
        chained := hEdits
        tree := hTree.trans hApply.symm
        kinded := fun w hw => (hWritten w hw).1
        collection := fun w hw => (hWritten w hw).2.1
        authorized := fun w hw => (hWritten w hw).2.2
        ops := hOps.trans (emittedOps_eq hWs)
        checked := by
          rw [hOps]
          exact hChecked
        count := hCount
        event := by
          rw [hOps]
          exact hEvent }

/-- What a request that landed a write did: it was the account's own, and every op was
under the scope of its token. -/
theorem handle_ok {request : Request}
    (h : handle env accounts request = .ok (some landed, response)) :
    ∃ user account old new ws, env.authenticate = .ok user ∧ accounts user.did = some account ∧
      landed.did = user.did ∧ Lands env user account old new ws landed ∧
      FromRequest env user old new ws request := by
  cases request with
  | createRecord repo collection rkey record swapCommit validate =>
    obtain ⟨did, _, h⟩ := bind_ok.mp h
    obtain ⟨_, hPath, h⟩ := bind_ok.mp h
    obtain ⟨⟨l, cid, status⟩, hWrite, h⟩ := bind_ok.mp h
    cases h
    obtain ⟨user, account, old, new, w, hAuth, rfl, hAccount, hDid, hLands, hUpdate⟩ :=
      writeRecord_ok (validatePath_ok hPath) hWrite
    exact ⟨user, account, old, new, [w], hAuth, hAccount, hDid, hLands, w, rfl, hUpdate⟩
  | putRecord repo collection rkey record swapCommit swapRecord validate =>
    obtain ⟨did, _, h⟩ := bind_ok.mp h
    obtain ⟨_, hPath, h⟩ := bind_ok.mp h
    obtain ⟨⟨l, cid, status⟩, hWrite, h⟩ := bind_ok.mp h
    cases h
    obtain ⟨user, account, old, new, w, hAuth, rfl, hAccount, hDid, hLands, hUpdate⟩ :=
      writeRecord_ok (validatePath_ok hPath) hWrite
    exact ⟨user, account, old, new, [w], hAuth, hAccount, hDid, hLands, w, rfl, hUpdate⟩
  | deleteRecord repo collection rkey swapCommit swapRecord =>
    obtain ⟨user, account, old, new, w, hAuth, hAccount, hDid, hLands, hDelete⟩ := deleteRecord_ok h
    exact ⟨user, account, old, new, [w], hAuth, hAccount, hDid, hLands, w, rfl, by simp [hDelete]⟩
  | applyWrites repo writes swapCommit validate =>
    obtain ⟨user, account, old, new, outcomes, hAuth, hAccount, hDid, hRan, hLands⟩ :=
      applyWrites_ok h
    exact ⟨user, account, old, new, _, hAuth, hAccount, hDid, hLands, outcomes, hRan, rfl⟩

/-! ## The map of a repository -/

/-- The map from record keys to the text of their CIDs. -/
def repoMap (accounts : Accounts enc) (did : String) : SortedMap String String :=
  ((accounts did).bind Account.repo).elim .empty fun repo => repo.tree.mapValues CidText.toText

theorem Lands.repoMap_before {account : Account enc} {old new : Repository enc}
    {ws : List (Written Cid)} (h : Lands env user account old new ws landed)
    (hAccount : accounts user.did = some account) :
    repoMap accounts user.did = old.tree.mapValues CidText.toText := by
  simp [repoMap, hAccount, h.before]

theorem repoMap_serve {request : Request} {account : Account enc} {old new : Repository enc}
    {ws : List (Written Cid)} (h : Lands env user account old new ws landed)
    (hDid : landed.did = user.did)
    (hHandle : handle env accounts request = .ok (some landed, response)) :
    repoMap (serve env accounts request) user.did = new.tree.mapValues CidText.toText := by
  simp [repoMap, serve, hHandle, hDid, h.after]

/-- A request that lands nothing in the repository of `did` leaves its map alone. -/
theorem repoMap_serve_of_ne {request : Request} {did : String}
    (h : ∀ landed response, handle env accounts request = .ok (some landed, response) →
      did ≠ landed.did) :
    repoMap (serve env accounts request) did = repoMap accounts did := by
  rw [serve]
  split
  · rfl
  · rfl
  · rename_i landed response hHandle
    simp [repoMap, Function.update_of_ne (h landed response hHandle)]

/-! ## A server for concrete runs -/

def landedOf (result : Except ApiError (Option (Landed enc) × Response)) : Option (Landed enc) :=
  match result with
  | .ok (landed, _) => landed
  | .error _ => none

omit [CidText Cid] [LinearOrder Cid] in
theorem landedOf_eq_some {result : Except ApiError (Option (Landed enc) × Response)} :
    landedOf result = some landed ↔ ∃ response, result = .ok (some landed, response) := by
  cases result with
  | error e => simp [landedOf]
  | ok r =>
    obtain ⟨l, response⟩ := r
    simp [landedOf]

/-- Blocks named by what they hold; a record is an object with one text in it. -/
def sampleEncoders : Encoders String where
  b64 := { encode := fun _ => "", decode := fun _ => .error "Invalid input" }
  tidNew := fun s => if isValidTid s then .ok () else .error "invalid TID"
  recordBlock := fun
    | .map [(_, .string text)] => "record " ++ text
    | _ => "record"
  commitBlock := fun commit => "commit " ++ commit.rev ++ " " ++ commit.data
  treeRoot := fun tree => tree.entries.foldl (fun s e => s ++ " " ++ e.1 ++ "=" ++ e.2) "tree"
  treeNodes := fun tree => [tree.entries.foldl (fun s e => s ++ " " ++ e.1 ++ "=" ++ e.2) "tree"]

def samplePost (text : String) : Json :=
  .object [("text", .string text)]

def sampleRepo (tree : Repo.Tree String) : Repository sampleEncoders where
  commit :=
    { did := "did:plc:alice", version := 3, data := sampleEncoders.treeRoot tree,
      rev := "3jzfcijpj2z2a", prev := none, sig := [] }
  tree := tree
  data_eq := rfl

def sampleAccounts (tree : Repo.Tree String) : Accounts sampleEncoders := fun did =>
  if did = "did:plc:alice" then
    some { repo := some (sampleRepo tree), active := true,
           recordCount := some (sampleRepo tree).countRecords }
  else none

/-- The owner's request under an OAuth token, on a server where nothing fails. -/
def sampleEnv (scopeClaim : String) : RequestEnv String where
  resolveIdentifier := fun _ => .ok none
  isValidDid := fun _ => true
  authenticate := .ok ⟨"did:plc:alice", .access, scopeClaim, none⟩
  validateRecordFormats := fun _ => .ok ()
  validateRecord := fun _ _ _ _ => .ok none
  tidClock := fun i => ⟨some (1700000000000000 + i), 7⟩
  opened := true
  probed := true
  signer := .ok fun _ => []
  write := fun i => ⟨⟨some (1700000000000000 + i), 7⟩, none⟩
  checkWritePoints := fun _ => .ok ()
  counted := true
  diffed := true
  carBuilt := true
  carBytes := fun _ => []
  transaction := .ok ()
  activeAtCommit := true

/-- A key that the batch creates, updates and deletes again, and another that stays. -/
def rewriteBatch : Request :=
  .applyWrites "did:plc:alice"
    [.create "app.bsky.feed.post" (some "a") (samplePost "one"),
      .update "app.bsky.feed.post" "a" (samplePost "two"), .delete "app.bsky.feed.post" "a",
      .update "app.bsky.feed.post" "b" (samplePost "two")] none none

def rewriteTree : Repo.Tree String :=
  SortedMap.empty.set "app.bsky.feed.post/b" (some "record one")

/-- A batch with one op, an update. -/
def updateBatch : Request :=
  .applyWrites "did:plc:alice" [.update "app.bsky.feed.post" "a" (samplePost "one")] none none

end Ezpds.Pds
