import Ezpds.Auth.OauthScopes
import Ezpds.Spaces.RepoCar
import Mathlib

/-!
# Importing a space repository

`importRepo` makes the records of a repository those of a CAR: a put for each record of the
CAR, and a delete for every other record of the repository. Which these are is read before
the transaction that writes, so that an import is two labels of the machine, and other
labels come between them.

* `importOps_ok`: the operations of an import.
* `imports_exact_iff`: when the imports of a run leave exactly their CARs.
-/

namespace Ezpds.Spaces

open Library Repo Auth

variable {Cid : Type} [CidText Cid] [DecidableEq Cid]

/-! ## The route -/

def MAX_IMPORT_CAR_BYTES : Nat := 100 * 1024 * 1024

def tooLarge : ApiError :=
  ⟨.payloadTooLarge,
    "space repo CAR exceeds maximum size of " ++ toString MAX_IMPORT_CAR_BYTES ++ " bytes"⟩

/-- An `importRepo` request: the caller, the lifecycle that the first check read, the
announced length, the body if it is within the limit, the grants of the caller, and whether
the index can be read. -/
structure ImportCall where
  space : SpaceRef
  authenticate : Except ApiError String
  requireNotAgent : Except ApiError Unit
  lifecycle : Except ApiError (Option AccountLifecycle)
  contentLength : Option Nat
  body : Option CarFile
  requireGrant : RepoAction → String → Except ApiError Unit
  indexRead : Bool

/-- What an import is about to write, with the CAR and the index that it comes from. -/
structure PendingImport (Cid : Type) where
  space : SpaceRef
  did : String
  car : SpaceCar Cid
  index : List (String × String × String)
  ops : List SpaceWriteOp

omit [CidText Cid] [DecidableEq Cid] in
def PendingImport.repo (pending : PendingImport Cid) : RepoId :=
  ⟨pending.space.uri, pending.did⟩

def requireDeactivated : Option AccountLifecycle → Except ApiError Unit
  | some .deactivated => .ok ()
  | some _ => .error ⟨.forbidden, "account must be deactivated to import a space repo"⟩
  | none => .error ⟨.notFound, "account not found"⟩

def readBody (call : ImportCall) : Except ApiError CarFile := do
  ensure (call.contentLength.all (· ≤ MAX_IMPORT_CAR_BYTES)) tooLarge
  match call.body with
  | some car => return car
  | none => throw tooLarge

omit [CidText Cid] [DecidableEq Cid] in
/-- One check for each collection. -/
def requireCreateGrants (call : ImportCall) (checked : List String) :
    List (SpaceCarRecord Cid) → Except ApiError Unit
  | [] => .ok ()
  | record :: records =>
    if record.collection ∈ checked then requireCreateGrants call checked records
    else do
      call.requireGrant .create record.collection
      requireCreateGrants call (record.collection :: checked) records

/-- The deletes of what the CAR does not name. -/
def deleteOps (call : ImportCall) (imported : List (String × String)) :
    List (String × String × String) → Except ApiError (List SpaceWriteOp)
  | [] => .ok []
  | (collection, rkey, _) :: rows =>
    if (collection, rkey) ∈ imported then deleteOps call imported rows
    else do
      call.requireGrant .delete collection
      let ops ← deleteOps call imported rows
      return ⟨.delete, collection, rkey, none⟩ :: ops

/-- The request up to its transaction; the index is read from `db`. -/
def importOps (env : SpaceEnv Cid) (cids : CarCodec Cid) (call : ImportCall) (db : Db) :
    Except ApiError (PendingImport Cid) := do
  let did ← call.authenticate
  call.requireNotAgent
  requireDeactivated (← call.lifecycle)
  let body ← readBody call
  let car ← (importSpaceCar cids env.codec.fromSlice body).mapError fun _ =>
    ⟨.invalidRequest, "invalid space repo CAR"⟩
  requireCreateGrants call [] car.records
  let puts ← car.records.mapM (importOp env)
  ensure call.indexRead ⟨.internalError, "failed to import space repo"⟩
  let index := listRecordIndex db ⟨call.space.uri, did⟩
  let deletes ← deleteOps call (car.records.map fun r => (r.collection, r.rkey)) index
  ensure (!(puts ++ deletes).isEmpty) ⟨.invalidRequest, "space repo CAR declares no records"⟩
  return ⟨call.space, did, car, index, puts ++ deletes⟩

/-! ## The machine -/

/-- An import that reported success, with the records that its transaction found and those
that its commit left. -/
structure CommittedImport (Cid : Type) where
  pending : PendingImport Cid
  before : SortedMap RecordPath SpaceRecordRow
  records : SortedMap RecordPath SpaceRecordRow

/-- A host, the imports that have read their index, and those that succeeded. -/
structure ImportHost (Cid : Type) where
  host : Host
  pending : List (PendingImport Cid)
  committed : List (CommittedImport Cid)

inductive ImportLabel where
  | host (label : HostLabel)
  | readIndex (call : ImportCall)
  | commit (i : Nat) (call : WriteCall)

/-- The call of `apply_space_writes` that an import makes, in the circumstances of `call`. -/
def importCall (pending : PendingImport Cid) (call : WriteCall) : WriteCall :=
  { call with
    space := pending.space
    did := pending.did
    ops := pending.ops
    admission := .forImport }

/-- The outcome of an import that is done. -/
def commitImport (env : SpaceEnv Cid) (state : ImportHost Cid) (pending : PendingImport Cid)
    (call : WriteCall) : List (CommittedImport Cid) :=
  match applySpaceWrites env (importCall pending call) state.host.db with
  | (db, .ok _) =>
    ⟨pending, state.host.db.records pending.repo, db.records pending.repo⟩ :: state.committed
  | (_, .error _) => state.committed

def importStep (env : SpaceEnv Cid) (cids : CarCodec Cid) (state : ImportHost Cid) :
    ImportLabel → Option (ImportHost Cid)
  | .host label => (hostStep env state.host label).map fun host => { state with host }
  | .readIndex call =>
    match importOps env cids call state.host.db with
    | .ok pending => some { state with pending := state.pending ++ [pending] }
    | .error _ => some state
  | .commit i call =>
    (state.pending[i]?).map fun pending =>
      { host := writeStep env state.host (importCall pending call)
        pending := state.pending.eraseIdx i
        committed := commitImport env state pending call }

def newImportHost (accounts : String → Option AccountLifecycle) : ImportHost Cid where
  host := newHost accounts
  pending := []
  committed := []

/-! ## The operations of an import -/

variable {env : SpaceEnv Cid} {cids : CarCodec Cid} {call : ImportCall} {db : Db}
  {pending : PendingImport Cid}

/-- The import puts the records of the CAR, and deletes what the index has beyond them. -/
structure Plans (env : SpaceEnv Cid) (pending : PendingImport Cid) : Prop where
  distinct : (pending.car.records.map SpaceCarRecord.path).Nodup
  ops : ∃ puts deletes, pending.ops = puts ++ deletes ∧
    List.Forall₂ (fun record op => importOp env record = .ok op) pending.car.records puts ∧
    (∀ op ∈ deletes, op.action = .delete) ∧
    ∀ path : RecordPath, (∃ op ∈ deletes, op.path = path) ↔
      (∃ row ∈ pending.index, toLex (row.1, row.2.1) = path) ∧
        ∀ record ∈ pending.car.records, record.path ≠ path

omit [CidText Cid] [DecidableEq Cid] in
theorem deleteOps_ok {imported : List (String × String)}
    {rows : List (String × String × String)} {ops : List SpaceWriteOp}
    (h : deleteOps call imported rows = .ok ops) :
    (∀ op ∈ ops, op.action = .delete) ∧
      ∀ path : RecordPath, (∃ op ∈ ops, op.path = path) ↔
        (∃ row ∈ rows, toLex (row.1, row.2.1) = path) ∧ ofLex path ∉ imported := by
  induction rows generalizing ops with
  | nil =>
    cases h
    simp
  | cons row rows ih =>
    obtain ⟨collection, rkey, cid⟩ := row
    rw [deleteOps] at h
    by_cases hMem : (collection, rkey) ∈ imported
    · rw [if_pos hMem] at h
      obtain ⟨hDeletes, hPaths⟩ := ih h
      refine ⟨hDeletes, ?_⟩
      intro path
      rw [hPaths path]
      constructor
      · intro hPath
        obtain ⟨⟨row, hRow, hEq⟩, hNot⟩ := hPath
        exact ⟨⟨row, List.mem_cons_of_mem _ hRow, hEq⟩, hNot⟩
      · intro hPath
        obtain ⟨⟨row, hRow, hEq⟩, hNot⟩ := hPath
        rcases List.mem_cons.mp hRow with rfl | hRow
        · rw [← hEq] at hNot
          exact absurd hMem hNot
        · exact ⟨⟨row, hRow, hEq⟩, hNot⟩
    · rw [if_neg hMem] at h
      obtain ⟨_, _, h⟩ := bind_ok.mp h
      obtain ⟨rest, hRest, h⟩ := bind_ok.mp h
      cases h
      obtain ⟨hDeletes, hPaths⟩ := ih hRest
      refine ⟨List.forall_mem_cons.mpr ⟨rfl, hDeletes⟩, ?_⟩
      intro path
      constructor
      · intro hPath
        obtain ⟨op, hOp, rfl⟩ := hPath
        rcases List.mem_cons.mp hOp with rfl | hOp
        · exact ⟨⟨_, List.mem_cons_self, rfl⟩, hMem⟩
        · obtain ⟨⟨row, hRow, hEq⟩, hNot⟩ := (hPaths op.path).mp ⟨op, hOp, rfl⟩
          exact ⟨⟨row, List.mem_cons_of_mem _ hRow, hEq⟩, hNot⟩
      · intro hPath
        obtain ⟨⟨row, hRow, hEq⟩, hNot⟩ := hPath
        rcases List.mem_cons.mp hRow with rfl | hRow
        · exact ⟨_, List.mem_cons_self, hEq⟩
        · obtain ⟨op, hOp, hPath⟩ := (hPaths path).mpr ⟨⟨row, hRow, hEq⟩, hNot⟩
          exact ⟨op, List.mem_cons_of_mem _ hOp, hPath⟩

/-- A decoded map has its keys in order, each of them once. -/
def DecodesMaps (codec : RecordCodec Cid) : Prop :=
  ∀ bytes entries, codec.fromSlice bytes = .ok (.map entries) → KeySorted entries

/-- What an import writes: the records of its CAR, and deletes of the index beyond them. -/
theorem importOps_ok (hMaps : DecodesMaps env.codec)
    (h : importOps env cids call db = .ok pending) :
    Plans env pending ∧ pending.index = listRecordIndex db pending.repo := by
  obtain ⟨did, _, h⟩ := bind_ok.mp h
  obtain ⟨_, _, h⟩ := bind_ok.mp h
  obtain ⟨_, _, h⟩ := bind_ok.mp h
  obtain ⟨_, _, h⟩ := bind_ok.mp h
  obtain ⟨body, _, h⟩ := bind_ok.mp h
  obtain ⟨car, hCar, h⟩ := bind_ok.mp h
  obtain ⟨_, _, h⟩ := bind_ok.mp h
  obtain ⟨puts, hPuts, h⟩ := bind_ok.mp h
  obtain ⟨_, h⟩ := ensure_bind_ok.mp h
  obtain ⟨deletes, hDeletes, h⟩ := bind_ok.mp h
  obtain ⟨_, h⟩ := ensure_bind_ok.mp h
  cases h
  obtain ⟨store, index, entries, hIndex, hImports⟩ := importSpaceCar_ok (mapError_ok.mp hCar)
  have hNames := hImports.imp fun _ _ h => h.names
  obtain ⟨hActions, hPaths⟩ := deleteOps_ok hDeletes
  refine ⟨⟨nodup_paths (hMaps _ _ hIndex) hNames, puts, deletes, rfl, mapM_ok.mp hPuts,
    hActions, ?_⟩, rfl⟩
  intro path
  rw [hPaths path]
  apply and_congr_right
  intro _
  constructor
  · intro hNot record hRecord hPath
    rw [← hPath] at hNot
    exact hNot (List.mem_map_of_mem hRecord)
  · intro hNot hMem
    obtain ⟨record, hRecord, hEq⟩ := List.mem_map.mp hMem
    exact hNot record hRecord (congrArg toLex hEq)

/-! ## What a commit leaves -/

/-- The row of a record of the CAR: it has the CID of the record, and encodes its value. -/
structure Stores (env : SpaceEnv Cid) (record : SpaceCarRecord Cid) (row : SpaceRecordRow) :
    Prop where
  cid : row.cid = CidText.toText record.cid
  value : ∃ value, decodeValue env record.block = .ok value.json ∧
    encodeValue env (some value) = .ok row

/-- The records are those of the CAR: none is missing, and none is there beside them. -/
structure IsCar (env : SpaceEnv Cid) (car : SpaceCar Cid)
    (records : SortedMap RecordPath SpaceRecordRow) : Prop where
  present : ∀ record ∈ car.records, ∃ row, records.get? record.path = some row ∧
    Stores env record row
  nothingElse : ∀ path row, records.get? path = some row →
    ∃ record ∈ car.records, record.path = path

/-- Every record that the repository holds is in the CAR, or was in the index. -/
def Foreseen (pending : PendingImport Cid) (records : SortedMap RecordPath SpaceRecordRow) :
    Prop :=
  ∀ path row, records.get? path = some row →
    (∃ record ∈ pending.car.records, record.path = path) ∨
      ∃ entry ∈ pending.index, toLex (entry.1, entry.2.1) = path

/-- A put of the batch writes the row of its record. -/
theorem encodeOp_put {record : SpaceCarRecord Cid} {op : SpaceWriteOp}
    {w : Write RecordPath SpaceRecordRow} (hImport : importOp env record = .ok op)
    (hEncode : encodeOp env op = .ok w) :
    w.key = record.path ∧ ∃ row, w.next = some row ∧ Stores env record row := by
  obtain ⟨value, ipld, bytes, hValue, hIpld, hBytes, hHash, rfl⟩ := importOp_ok.mp hImport
  obtain ⟨row, hRow, rfl⟩ := (encodeOp_ok (by simp)).mp hEncode
  obtain ⟨_, ipld', cid, hv, hIpld', hBytes', hHash', hText⟩ := encodeValue_ok.mp hRow
  cases hv
  rw [hIpld'] at hIpld
  cases hIpld
  rw [hBytes'] at hBytes
  cases hBytes
  rw [hHash'] at hHash
  cases hHash
  exact ⟨rfl, row, rfl, hText, value, hValue, hRow⟩

section Batch

variable {ws : List (Write RecordPath SpaceRecordRow)} {es : List RecordEdit}
  {records : SortedMap RecordPath SpaceRecordRow}

/-- A write of the batch puts a record of the CAR, or deletes what only the index has. -/
theorem import_write (hPlans : Plans env pending)
    (hws : pending.ops.mapM (encodeOp env) = .ok ws) {w : Write RecordPath SpaceRecordRow}
    (hw : w ∈ ws) :
    (∃ record ∈ pending.car.records, w.key = record.path ∧
        ∃ row, w.next = some row ∧ Stores env record row) ∨
      w.next = none ∧ (∃ entry ∈ pending.index, toLex (entry.1, entry.2.1) = w.key) ∧
        ∀ record ∈ pending.car.records, record.path ≠ w.key := by
  obtain ⟨puts, deletes, hOps, hPuts, hActions, hPaths⟩ := hPlans.ops
  obtain ⟨op, hOp, hEncode⟩ := exists_mem_of_forall₂ (mapM_ok.mp hws) hw
  rw [hOps] at hOp
  rcases List.mem_append.mp hOp with hPut | hDelete
  · obtain ⟨record, hRecord, hImport⟩ := exists_mem_of_forall₂ hPuts hPut
    exact Or.inl ⟨record, hRecord, encodeOp_put hImport hEncode⟩
  · rw [encodeOp_delete (hActions op hDelete)] at hEncode
    cases hEncode
    exact Or.inr ⟨rfl, (hPaths op.path).mp ⟨op, hDelete, rfl⟩⟩

/-- Every path of the CAR and of the index is written. -/
theorem exists_import_write (hPlans : Plans env pending)
    (hws : pending.ops.mapM (encodeOp env) = .ok ws) {path : RecordPath}
    (h : (∃ record ∈ pending.car.records, record.path = path) ∨
      ∃ entry ∈ pending.index, toLex (entry.1, entry.2.1) = path) : ∃ w ∈ ws, w.key = path := by
  obtain ⟨puts, deletes, hOps, hPuts, hActions, hPaths⟩ := hPlans.ops
  have hEncodes : ∀ op ∈ pending.ops, ∃ w ∈ ws, encodeOp env op = .ok w :=
    fun op hOp => exists_mem_of_forall₂ (mapM_ok.mp hws).flip hOp
  by_cases hCar : ∃ record ∈ pending.car.records, record.path = path
  · obtain ⟨record, hRecord, rfl⟩ := hCar
    obtain ⟨op, hOp, hImport⟩ := exists_mem_of_forall₂ hPuts.flip hRecord
    obtain ⟨w, hw, hEncode⟩ := hEncodes op (by rw [hOps]; exact List.mem_append_left _ hOp)
    exact ⟨w, hw, (encodeOp_put hImport hEncode).1⟩
  · have hIndex := h.resolve_left hCar
    have hNot : ∀ record ∈ pending.car.records, record.path ≠ path :=
      fun record hRecord hPath => hCar ⟨record, hRecord, hPath⟩
    obtain ⟨op, hOp, hPath⟩ := (hPaths path).mpr ⟨hIndex, hNot⟩
    obtain ⟨w, hw, hEncode⟩ := hEncodes op (by rw [hOps]; exact List.mem_append_right _ hOp)
    rw [encodeOp_delete (hActions op hOp)] at hEncode
    cases hEncode
    exact ⟨_, hw, hPath⟩

/-- Under a path of the CAR the batch leaves the record. -/
theorem get?_import_record (hPlans : Plans env pending)
    (hws : pending.ops.mapM (encodeOp env) = .ok ws) (hes : applyBatch records ws = some es)
    {record : SpaceCarRecord Cid} (hRecord : record ∈ pending.car.records) :
    ∃ row, (Edit.applyAll records es).get? record.path = some row ∧ Stores env record row := by
  obtain ⟨w, hw, hKey⟩ := exists_import_write hPlans hws (Or.inl ⟨record, hRecord, rfl⟩)
  obtain ⟨last, hLast, hMem, hLastKey⟩ := exists_lastWrite hw
  rw [hKey] at hLast hLastKey
  rcases import_write hPlans hws hMem with ⟨record', hRecord', hPath, row, hNext, hStores⟩ |
    ⟨_, _, hNot⟩
  · have hSame : record' = record :=
      List.inj_on_of_nodup_map hPlans.distinct hRecord' hRecord (hPath.symm.trans hLastKey)
    subst hSame
    refine ⟨row, ?_, hStores⟩
    rw [get?_batch hes, hLast, Option.map_some, hNext, Option.getD_some]
  · exact absurd hLastKey.symm (hNot record hRecord)

/-- Under any other path it leaves nothing that the index had, and what the index did not
have stays. -/
theorem get?_import_other (hPlans : Plans env pending)
    (hws : pending.ops.mapM (encodeOp env) = .ok ws) (hes : applyBatch records ws = some es)
    {path : RecordPath} (hNot : ∀ record ∈ pending.car.records, record.path ≠ path) :
    ((∃ entry ∈ pending.index, toLex (entry.1, entry.2.1) = path) →
        (Edit.applyAll records es).get? path = none) ∧
      ((¬ ∃ entry ∈ pending.index, toLex (entry.1, entry.2.1) = path) →
        (Edit.applyAll records es).get? path = records.get? path) := by
  rw [get?_batch hes]
  constructor
  · intro hIndex
    obtain ⟨w, hw, hKey⟩ := exists_import_write hPlans hws (Or.inr hIndex)
    obtain ⟨last, hLast, hMem, hLastKey⟩ := exists_lastWrite hw
    rw [hKey] at hLast hLastKey
    rcases import_write hPlans hws hMem with ⟨record, hRecord, hPath, _⟩ | ⟨hNext, _⟩
    · exact absurd (hPath.symm.trans hLastKey) (hNot record hRecord)
    · rw [hLast, Option.map_some, hNext, Option.getD_some]
  · intro hIndex
    have hNone : lastWrite path ws = none := by
      apply lastWrite_eq_none.mpr
      intro w hw hKey
      rcases import_write hPlans hws hw with ⟨record, hRecord, hPath, _⟩ | ⟨_, hEntry, _⟩
      · exact hNot record hRecord (hPath.symm.trans hKey)
      · rw [hKey] at hEntry
        exact hIndex hEntry
    rw [hNone, Option.map_none, Option.getD_none]

/-- The batch leaves exactly the CAR if and only if it knew of every record. -/
theorem isCar_iff (hPlans : Plans env pending)
    (hws : pending.ops.mapM (encodeOp env) = .ok ws) (hes : applyBatch records ws = some es) :
    IsCar env pending.car (Edit.applyAll records es) ↔ Foreseen pending records := by
  constructor
  · intro h path row hRow
    by_cases hCar : ∃ record ∈ pending.car.records, record.path = path
    · exact Or.inl hCar
    · by_contra hUnforeseen
      have hNot : ∀ record ∈ pending.car.records, record.path ≠ path :=
        fun record hRecord hPath => hCar ⟨record, hRecord, hPath⟩
      have hKept := (get?_import_other hPlans hws hes hNot).2 fun hIndex =>
        hUnforeseen (Or.inr hIndex)
      rw [hRow] at hKept
      exact hCar (h.nothingElse path row hKept)
  · intro h
    refine ⟨fun record hRecord => get?_import_record hPlans hws hes hRecord, ?_⟩
    intro path row hRow
    by_contra hCar
    have hNot : ∀ record ∈ pending.car.records, record.path ≠ path :=
      fun record hRecord hPath => hCar ⟨record, hRecord, hPath⟩
    obtain ⟨hIndexed, hKept⟩ := get?_import_other hPlans hws hes hNot
    by_cases hIndex : ∃ entry ∈ pending.index, toLex (entry.1, entry.2.1) = path
    · rw [hIndexed hIndex] at hRow
      cases hRow
    · rw [hKept hIndex] at hRow
      rcases h path row hRow with hRecord | hEntry
      · exact hCar hRecord
      · exact hIndex hEntry

end Batch

/-! ## Runs -/

section Runs

variable {state state' : ImportHost Cid} {label : ImportLabel}

/-- The imports of a state: those that wait are planned on their CAR and their index, and
those that are done left what their plan says. -/
structure ImportsPlanned (env : SpaceEnv Cid) (state : ImportHost Cid) : Prop where
  pending : ∀ pending ∈ state.pending, Plans env pending
  committed : ∀ done ∈ state.committed,
    IsCar env done.pending.car done.records ↔ Foreseen done.pending done.before

/-- A commit that succeeds leaves exactly the CAR if and only if the plan knew of every
record that it found. -/
theorem isCar_commit {pending : PendingImport Cid} {call : WriteCall} {db' : Db}
    {out : SpaceCommitOutcome × WriterUpdate} (hPlans : Plans env pending)
    (h : applySpaceWrites env (importCall pending call) db = (db', .ok out)) :
    IsCar env pending.car (db'.records pending.repo) ↔
      Foreseen pending (db.records pending.repo) := by
  obtain ⟨_, _, lthash, newRev, es, hCommits, hUpsert, _⟩ := applySpaceWrites_ok.mp h
  obtain ⟨_, _, hRecords, _⟩ := upsertWriter_frame hUpsert
  obtain ⟨ws, hws, hes⟩ := hCommits.applied
  have hAfter : db'.records pending.repo =
      Edit.applyAll (db.records pending.repo) es := by
    rw [hRecords, committedDb_records]
    exact Function.update_self _ _ _
  rw [hAfter]
  exact isCar_iff hPlans hws hes

theorem planned_step (hMaps : DecodesMaps env.codec) (hPlanned : ImportsPlanned env state)
    (h : importStep env cids state label = some state') : ImportsPlanned env state' := by
  cases label with
  | host label =>
    obtain ⟨host, _, rfl⟩ := Option.map_eq_some_iff.mp h
    exact ⟨hPlanned.pending, hPlanned.committed⟩
  | readIndex call =>
    rw [importStep] at h
    split at h
    · rename_i pending hOps
      cases h
      refine ⟨?_, hPlanned.committed⟩
      intro p hp
      rcases List.mem_append.mp hp with hp | hp
      · exact hPlanned.pending p hp
      · rw [List.mem_singleton.mp hp]
        exact (importOps_ok hMaps hOps).1
    · cases h
      exact hPlanned
  | commit i call =>
    obtain ⟨pending, hPending, rfl⟩ := Option.map_eq_some_iff.mp h
    have hPlans := hPlanned.pending pending (List.mem_of_getElem? hPending)
    refine ⟨fun p hp => hPlanned.pending p (List.mem_of_mem_eraseIdx hp), ?_⟩
    intro done hDone
    dsimp only [commitImport] at hDone
    split at hDone
    · rename_i db out hCall
      rcases List.mem_cons.mp hDone with rfl | hDone
      · exact isCar_commit hPlans hCall
      · exact hPlanned.committed done hDone
    · exact hPlanned.committed done hDone

omit [DecidableEq Cid] in
/-- The import that commits knows of every record that it finds. -/
def CommitForeseen (state : ImportHost Cid) : ImportLabel → Prop
  | .commit i _ => ∀ pending, state.pending[i]? = some pending →
      Foreseen pending (state.host.db.records pending.repo)
  | _ => True

theorem foreseen_step (hForeseen : ∀ done ∈ state.committed, Foreseen done.pending done.before)
    (hGuard : CommitForeseen state label) (h : importStep env cids state label = some state') :
    ∀ done ∈ state'.committed, Foreseen done.pending done.before := by
  cases label with
  | host label =>
    obtain ⟨host, _, rfl⟩ := Option.map_eq_some_iff.mp h
    exact hForeseen
  | readIndex call =>
    rw [importStep] at h
    split at h
    · cases h
      exact hForeseen
    · cases h
      exact hForeseen
  | commit i call =>
    obtain ⟨pending, hPending, rfl⟩ := Option.map_eq_some_iff.mp h
    intro done hDone
    dsimp only [commitImport] at hDone
    split at hDone
    · rcases List.mem_cons.mp hDone with rfl | hDone
      · exact hGuard pending hPending
      · exact hForeseen done hDone
    · exact hForeseen done hDone

/-- An import that reported success left exactly the records of its CAR if and only if every
record that its transaction found was in the CAR, or in the index that the import had read;
in a run in which this is so at every commit, every successful import left exactly its CAR. -/
theorem imports_exact_iff (hMaps : DecodesMaps env.codec)
    {accounts : String → Option AccountLifecycle} {labels : List ImportLabel}
    (h : run (importStep env cids) (newImportHost accounts) labels = some state) :
    (∀ done ∈ state.committed,
        IsCar env done.pending.car done.records ↔ Foreseen done.pending done.before) ∧
      (Along (importStep env cids) CommitForeseen (newImportHost accounts) labels →
        ∀ done ∈ state.committed, IsCar env done.pending.car done.records) := by
  have hPlanned : ImportsPlanned env state := by
    refine @run_invariant _ _ _ (ImportsPlanned env)
      (fun _ _ _ hs hStep => planned_step hMaps hs hStep) _ _ _ ⟨?_, ?_⟩ h
    · simp [newImportHost]
    · simp [newImportHost]
  refine ⟨hPlanned.committed, ?_⟩
  intro hAlong done hDone
  have hForeseen := @run_invariant_along _ _ _ CommitForeseen
    (fun state : ImportHost Cid => ∀ done ∈ state.committed, Foreseen done.pending done.before)
    (fun _ _ _ hs hGuard hStep => foreseen_step hs hGuard hStep) _ _ _
    (by simp [newImportHost]) hAlong h
  exact (hPlanned.committed done hDone).mpr (hForeseen done hDone)

end Runs

/-! ## Two imports at once -/

theorem sampleCarEnv_decodesMaps : DecodesMaps sampleCarEnv.codec := by
  intro bytes entries h
  simp only [sampleCarEnv] at h
  split at h
  · cases h
    exact keySorted_sampleLinks _
  · cases h

/-- The CAR of one note. -/
def sampleNoteFile (rkey : String) : CarFile :=
  let index := sampleIndexBlock [("com.example.note/" ++ rkey, sampleCid [0xa0])]
  let bytes := carBytes sampleCids ⟨(sampleCid [0xa6], [0xa6]), (sampleCid index, index), []⟩
    [(sampleCid [0xa0], [0xa0])]
  if h : bytes.length < 2 ^ 63 then ⟨bytes, h⟩ else ⟨[], by decide⟩

def sampleImport (rkey : String) : ImportCall where
  space := sampleSpace
  authenticate := .ok "did:plc:alice"
  requireNotAgent := .ok ()
  lifecycle := .ok (some .deactivated)
  contentLength := none
  body := some (sampleNoteFile rkey)
  requireGrant := fun _ _ => .ok ()
  indexRead := true

def migratingAccounts (did : String) : Option AccountLifecycle :=
  if did = "did:plc:alice" then some .deactivated else none

/-- Both imports read the empty index before either of them commits. -/
def sampleRace : Option (ImportHost SampleCid) :=
  run (importStep sampleCarEnv sampleCids) (newImportHost migratingAccounts)
    [.readIndex (sampleImport "a"), .readIndex (sampleImport "b"), .commit 0 (sampleCall []),
      .commit 0 (sampleCall [])]

/-- The import done last left the note `a`, which is not in its CAR. -/
def leavesNoteA (done : CommittedImport SampleCid) : Bool :=
  (done.records.get? (toLex ("com.example.note", "a"))).isSome &&
    done.pending.car.records.all fun record =>
      record.path ≠ toLex ("com.example.note", "a")

theorem sampleRace_leaves : sampleRace.any (fun state => state.committed.any leavesNoteA) =
    true := by
  decide +kernel

/-- Two imports that overlap both report success, and the second one leaves a record of the
first. -/
theorem overlapping_imports_not_exact : ∃ state,
    run (importStep sampleCarEnv sampleCids) (newImportHost migratingAccounts)
        [.readIndex (sampleImport "a"), .readIndex (sampleImport "b"),
          .commit 0 (sampleCall []), .commit 0 (sampleCall [])] = some state ∧
      ∃ done ∈ state.committed, ¬ IsCar sampleCarEnv done.pending.car done.records := by
  obtain ⟨state, hState, hLeaves⟩ := (Option.any_eq_true _ _).mp sampleRace_leaves
  obtain ⟨done, hDone, hNote⟩ := List.any_eq_true.mp hLeaves
  refine ⟨state, hState, done, hDone, ?_⟩
  intro hCar
  obtain ⟨hHeld, hNot⟩ := (Bool.and_eq_true _ _).mp hNote
  obtain ⟨row, hRow⟩ := Option.isSome_iff_exists.mp hHeld
  obtain ⟨record, hRecord, hPath⟩ := hCar.nothingElse _ row hRow
  exact absurd hPath (of_decide_eq_true (List.all_eq_true.mp hNot record hRecord))

theorem imports_exact_iff_race : ∃ state, sampleRace = some state ∧
    ∀ done ∈ state.committed, IsCar sampleCarEnv done.pending.car done.records ↔
      Foreseen done.pending done.before := by
  obtain ⟨state, hState, _⟩ := (Option.any_eq_true _ _).mp sampleRace_leaves
  exact ⟨state, hState, (imports_exact_iff sampleCarEnv_decodesMaps hState).1⟩

end Ezpds.Spaces
