import Ezpds.Spaces.RecordWrite

/-!
# Space commits as atomic batches

What one call of `apply_space_writes` does to the tables. A call that returns an error
changes nothing. A call that succeeds has applied its operations, in order, as a batch of
conditional writes; the head, the oplog and the set hash follow the edits of the batch.

* `applySpaceWrites_ok`: what a call that succeeds does, stage by stage.
* `spaceWrites_atomic`: it succeeds exactly when its batch applies.
-/

namespace Ezpds.Spaces

open Library Repo

variable {Cid : Type} {env : SpaceEnv Cid} {call : WriteCall} {db db' : Db}

/-! ## The stages -/

/-- The tables once the space is on record. -/
def enteredDb (call : WriteCall) (db : Db) : Db :=
  if ownSpace call then db else insertSpace db call.space.uri

/-- The space is on record, neither deleted nor taken down, and if it is the account's own
it was created. -/
def Enterable (call : WriteCall) (db : Db) : Prop :=
  ∃ row, (enteredDb call db).spaces call.space.uri = some row ∧ row.deleted = false ∧
    (ownSpace call = true → row.policy.isSome = true) ∧ row.takendown = false

/-- The account may commit. -/
def AccountAdmitted (call : WriteCall) (db : Db) : Prop :=
  ∃ lifecycle, db.accounts call.did = some lifecycle ∧ call.admission.admits lifecycle = true

/-- The head that a commit starts from: the set hash, and the rev that comes next. -/
def StartsFrom (env : SpaceEnv Cid) (call : WriteCall) (db : Db) (lthash : LtHash)
    (newRev : String) : Prop :=
  match db.repos call.repo with
  | none => lthash = LtHash.new ∧ newRev = generateTid call.revClock
  | some row => LtHash.fromState row.lthashState = .ok lthash ∧
      nextRecordRev env.tidNew call.revClock row.rev = .ok newRev

def setHead (call : WriteCall) (db : Db) (newRev : String) (lthash : LtHash) : Db :=
  { db with
    repos := Function.update db.repos call.repo (some ⟨newRev, LtHash.state lthash⟩) }

/-- The tables after the head is stored again, or the repository dropped. -/
def finishedDb (call : WriteCall) (db : Db) (newRev : String) (lthash : LtHash) : Db :=
  if repoHasRecords db call.repo then setHead call db newRev lthash else deleteRepo db call.repo

theorem checkAccount_ok :
    checkAccount call db = .ok () ↔
      call.statement .accountLifecycle = true ∧ AccountAdmitted call db := by
  unfold checkAccount
  rw [ensure_bind_ok, AccountAdmitted]
  apply and_congr_right
  intro _
  cases h : db.accounts call.did with
  | none =>
    constructor
    · intro h'
      cases h'
    · rintro ⟨_, h', _⟩
      cases h'
  | some lifecycle => simp [ensure_ok]

@[simp] theorem enteredDb_repos : (enteredDb call db).repos = db.repos := by
  rw [enteredDb, insertSpace]
  split
  · rfl
  · split <;> rfl

@[simp] theorem enteredDb_records : (enteredDb call db).records = db.records := by
  rw [enteredDb, insertSpace]
  split
  · rfl
  · split <;> rfl

@[simp] theorem enteredDb_ops : (enteredDb call db).ops = db.ops := by
  rw [enteredDb, insertSpace]
  split
  · rfl
  · split <;> rfl

theorem enterSpace_ok :
    enterSpace call db = .ok db' ↔
      (ownSpace call || call.statement .insertSpace) = true ∧ call.statement .getSpace = true ∧
        Enterable call db ∧ db' = enteredDb call db := by
  unfold enterSpace
  rw [ensure_bind_ok]
  dsimp only
  rw [ensure_bind_ok, Enterable, enteredDb]
  refine and_congr_right fun _ => and_congr_right fun _ => ?_
  cases hRow : (if ownSpace call = true then db else insertSpace db call.space.uri).spaces
      call.space.uri with
  | none =>
    constructor
    · intro h
      cases h
    · rintro ⟨⟨_, h, _⟩, _⟩
      cases h
  | some row =>
    dsimp only
    rw [ensure_bind_ok, ensure_bind_ok, ensure_bind_ok]
    constructor
    · rintro ⟨hDeleted, hPolicy, hTakendown, h⟩
      cases h
      refine ⟨⟨row, rfl, by simpa using hDeleted, ?_, by simpa using hTakendown⟩, rfl⟩
      intro hOwn
      simpa [hOwn] using hPolicy
    · rintro ⟨⟨row', hEq, hDeleted, hPolicy, hTakendown⟩, rfl⟩
      cases hEq
      refine ⟨by simpa using hDeleted, ?_, by simpa using hTakendown, rfl⟩
      cases hOwn : ownSpace call with
      | false => rfl
      | true => simpa using hPolicy hOwn

theorem loadHead_ok {prevRev : Option String} {lthash : LtHash} {newRev : String} :
    loadHead call db = .ok (prevRev, lthash) ∧ nextRev env call prevRev = .ok newRev ↔
      call.statement .getRepo = true ∧ prevRev = (db.repos call.repo).map (·.rev) ∧
        StartsFrom env call db lthash newRev := by
  unfold loadHead
  rw [ensure_bind_ok, StartsFrom, and_assoc]
  refine and_congr_right fun _ => ?_
  cases hRepo : db.repos call.repo with
  | none =>
    constructor
    · rintro ⟨h, hRev⟩
      cases h
      cases hRev
      exact ⟨rfl, rfl, rfl⟩
    · rintro ⟨rfl, rfl, rfl⟩
      exact ⟨rfl, rfl⟩
  | some row =>
    dsimp only
    rw [bind_ok]
    constructor
    · rintro ⟨⟨state, hState, h⟩, hRev⟩
      cases h
      exact ⟨rfl, mapError_ok.mp hState, mapError_ok.mp hRev⟩
    · rintro ⟨rfl, hState, hRev⟩
      exact ⟨⟨lthash, mapError_ok.mpr hState, rfl⟩, mapError_ok.mpr hRev⟩

/-- The head that was read a moment before in the same transaction is still there. -/
theorem advanceHead_ok {newRev : String} {lthash : LtHash} :
    advanceHead call db ((db.repos call.repo).map (·.rev)) newRev lthash = .ok db' ↔
      call.statement .advanceHead = true ∧ db' = setHead call db newRev lthash := by
  unfold advanceHead
  rw [ensure_bind_ok]
  apply and_congr_right
  intro _
  cases hRepo : db.repos call.repo with
  | none =>
    have hInsert : insertRepo db call.repo newRev (LtHash.state lthash) =
        (setHead call db newRev lthash, true) := by
      simp [insertRepo, hRepo, setHead]
    dsimp only [Option.map]
    rw [hInsert, ensure_bind_ok, pure_ok, and_iff_right rfl]
  | some row =>
    have hAdvance : advanceRepoRev db call.repo newRev (LtHash.state lthash) row.rev =
        (setHead call db newRev lthash, true) := by
      simp [advanceRepoRev, hRepo, setHead]
    dsimp only [Option.map]
    rw [hAdvance, ensure_bind_ok, pure_ok, and_iff_right rfl]

theorem finishHead_ok {newRev : String} {lthash : LtHash} {row : SpaceRepoRow}
    (hHead : db.repos call.repo = some row) (hRev : row.rev = newRev) :
    finishHead call db newRev lthash = .ok db' ↔
      call.statement .repoHasRecords = true ∧
        call.statement (if repoHasRecords db call.repo then .finalizeHead else .deleteRepo) =
          true ∧ db' = finishedDb call db newRev lthash := by
  have hFinalize : advanceRepoRev db call.repo newRev (LtHash.state lthash) newRev =
      (setHead call db newRev lthash, true) := by
    simp [advanceRepoRev, hHead, hRev, setHead]
  unfold finishHead
  rw [ensure_bind_ok, finishedDb]
  apply and_congr_right
  intro _
  by_cases hRecords : repoHasRecords db call.repo = true
  · rw [if_pos hRecords, if_pos hRecords, if_pos hRecords, ensure_bind_ok, hFinalize,
      ensure_bind_ok, pure_ok, and_iff_right rfl]
  · rw [if_neg hRecords, if_neg hRecords, if_neg hRecords, ensure_bind_ok, pure_ok]

/-! ## The transaction -/

/-- The statements of the transaction succeed; `kept` says which way it ends. -/
structure StatementsRun (call : WriteCall) (kept : Bool) : Prop where
  begin : call.statement .begin = true
  accountLifecycle : call.statement .accountLifecycle = true
  insertSpace : (ownSpace call || call.statement .insertSpace) = true
  getSpace : call.statement .getSpace = true
  getRepo : call.statement .getRepo = true
  advanceHead : call.statement .advanceHead = true
  op : ∀ i < call.ops.length, OpRuns call i
  repoHasRecords : call.statement .repoHasRecords = true
  finishHead : call.statement (if kept then .finalizeHead else .deleteRepo) = true
  upsertWriter : call.statement .upsertWriter = true
  commit : call.statement .commit = true

/-- The commit is within the write budget, or is an import, which is not charged. -/
def Charged (call : WriteCall) (es : List RecordEdit) : Prop :=
  call.admission = .active → call.checkWritePoints (es.map editCost).sum = .ok ()

/-- The tables after the loop. -/
def landedDb (call : WriteCall) (db : Db) (lthash : LtHash) (newRev : String)
    (es : List RecordEdit) : Db :=
  landEdits call newRev (setHead call (enteredDb call db) newRev lthash) es

/-- The set hash after the loop. -/
def foldedHash (env : SpaceEnv Cid) (lthash : LtHash) (es : List RecordEdit) : LtHash :=
  lthash + (es.map (Edit.weightDelta (elementOf env.crypto))).sum

/-- The tables that the writer set is updated on. -/
def committedDb (env : SpaceEnv Cid) (call : WriteCall) (db : Db) (lthash : LtHash)
    (newRev : String) (es : List RecordEdit) : Db :=
  finishedDb call (landedDb call db lthash newRev es) newRev (foldedHash env lthash es)

def committedOutcome (env : SpaceEnv Cid) (lthash : LtHash) (newRev : String)
    (es : List RecordEdit) : SpaceCommitOutcome :=
  ⟨newRev, LtHash.digest env.crypto (foldedHash env lthash es), es.map editResult⟩

/-- The transaction of a call finds the edits `es` to make. -/
structure Commits [CidText Cid] (env : SpaceEnv Cid) (call : WriteCall) (db : Db)
    (lthash : LtHash) (newRev : String) (es : List RecordEdit) : Prop where
  account : AccountAdmitted call db
  space : Enterable call db
  head : StartsFrom env call db lthash newRev
  rowids : RowidsLeft db.ops call.ops.length
  applied : ∃ ws, call.ops.mapM (encodeOp env) = .ok ws ∧
    applyBatch (db.records call.repo) ws = some es
  charged : Charged call es
  statements : StatementsRun call
    (repoHasRecords (landedDb call db lthash newRev es) call.repo)

theorem charge_ok {cost : Nat} {next : Unit → Except ApiError (Db × SpaceCommitOutcome ×
    WriterUpdate)} {result : Db × SpaceCommitOutcome × WriterUpdate} :
    (if call.admission = .active then call.checkWritePoints cost >>= next else next ()) =
        .ok result ↔
      (call.admission = .active → call.checkWritePoints cost = .ok ()) ∧
        next () = .ok result := by
  by_cases hActive : call.admission = .active
  · rw [if_pos hActive, bind_ok, forall_prop_of_true hActive]
    exact ⟨fun h => ⟨h.choose_spec.1, h.choose_spec.2⟩, fun h => ⟨(), h.1, h.2⟩⟩
  · rw [if_neg hActive]
    exact ⟨fun h => ⟨fun hActive' => absurd hActive' hActive, h⟩, fun h => h.2⟩

theorem landedDb_records {lthash : LtHash} {newRev : String} {es : List RecordEdit} :
    (landedDb call db lthash newRev es).records =
      Function.update db.records call.repo (Edit.applyAll (db.records call.repo) es) := by
  simp [landedDb, landEdits, setHead]

theorem landedDb_repos {lthash : LtHash} {newRev : String} {es : List RecordEdit} :
    (landedDb call db lthash newRev es).repos =
      Function.update db.repos call.repo (some ⟨newRev, LtHash.state lthash⟩) := by
  simp [landedDb, landEdits, setHead]

theorem landedDb_ops {lthash : LtHash} {newRev : String} {es : List RecordEdit} :
    (landedDb call db lthash newRev es).ops =
      db.ops ++ opRows call newRev (maxRowid db.ops + 1) es := by
  simp [landedDb, landEdits, setHead]

/-- The loop starts from the head that is set, on the records of the database. -/
theorem foldEdits_landed {lthash : LtHash} {newRev : String} {es : List RecordEdit} :
    foldEdits env call newRev ⟨setHead call (enteredDb call db) newRev lthash, lthash, [], 0⟩
        es =
      ⟨landedDb call db lthash newRev es, foldedHash env lthash es, es.map editResult,
        (es.map editCost).sum⟩ := by
  simp [foldEdits, landedDb, foldedHash]

/-- What a transaction that commits does, stage by stage. -/
theorem writeTransaction_ok [CidText Cid] {outcome : SpaceCommitOutcome}
    {update : WriterUpdate} :
    writeTransaction env call db = .ok (db', outcome, update) ↔
      ∃ lthash newRev es, Commits env call db lthash newRev es ∧
        upsertWriter env.crypto env.tidNew call.writerClock
          (committedDb env call db lthash newRev es) call.repo newRev
          (committedOutcome env lthash newRev es).hash = .ok (db', update) ∧
        outcome = committedOutcome env lthash newRev es := by
  have hHead : ∀ lthash newRev es, (landedDb call db lthash newRev es).repos call.repo =
      some ⟨newRev, LtHash.state lthash⟩ := by
    intro lthash newRev es
    rw [landedDb_repos, Function.update_self]
  have hStarts : ∀ lthash newRev, StartsFrom env call (enteredDb call db) lthash newRev ↔
      StartsFrom env call db lthash newRev := by
    intro lthash newRev
    rw [StartsFrom, StartsFrom, enteredDb_repos]
  unfold writeTransaction
  rw [ensure_bind_ok, bind_ok]
  constructor
  · intro h
    obtain ⟨hBegin, _, hAccount, h⟩ := h
    obtain ⟨hLifecycle, hAdmitted⟩ := checkAccount_ok.mp hAccount
    obtain ⟨_, hEnter, h⟩ := bind_ok.mp h
    obtain ⟨hInsertSpace, hGetSpace, hEnterable, rfl⟩ := enterSpace_ok.mp hEnter
    obtain ⟨⟨prevRev, lthash⟩, hLoad, h⟩ := bind_ok.mp h
    obtain ⟨newRev, hRev, h⟩ := bind_ok.mp h
    obtain ⟨hGetRepo, rfl, hStart⟩ := loadHead_ok.mp ⟨hLoad, hRev⟩
    obtain ⟨_, hAdvance, h⟩ := bind_ok.mp h
    obtain ⟨hAdvanceHead, rfl⟩ := advanceHead_ok.mp hAdvance
    obtain ⟨folded, hApply, h⟩ := bind_ok.mp h
    obtain ⟨hOps, hLeft, ws, es, hws, hes, rfl⟩ := applyOps_ok.mp hApply
    rw [foldEdits_landed] at h
    obtain ⟨hCharged, h⟩ := charge_ok.mp h
    obtain ⟨_, hFinish, h⟩ := bind_ok.mp h
    obtain ⟨hHasRecords, hFinishHead, rfl⟩ := (finishHead_ok (hHead _ _ _) rfl).mp hFinish
    obtain ⟨hUpsertWriter, h⟩ := ensure_bind_ok.mp h
    obtain ⟨⟨_, _⟩, hUpsert, h⟩ := bind_ok.mp h
    obtain ⟨hCommit, h⟩ := ensure_bind_ok.mp h
    cases h
    refine ⟨lthash, newRev, es, ⟨hAdmitted, hEnterable, (hStarts _ _).mp hStart, ?_, ⟨ws, hws, ?_⟩,
      hCharged, ⟨hBegin, hLifecycle, hInsertSpace, hGetSpace, hGetRepo, hAdvanceHead, ?_,
        hHasRecords, hFinishHead, hUpsertWriter, hCommit⟩⟩, mapError_ok.mp hUpsert, rfl⟩
    · simpa [setHead] using hLeft
    · simpa [setHead] using hes
    · simpa using hOps
  · intro h
    obtain ⟨lthash, newRev, es, hCommits, hUpsert, rfl⟩ := h
    obtain ⟨ws, hws, hes⟩ := hCommits.applied
    have hRuns := hCommits.statements
    refine ⟨hRuns.begin, (), checkAccount_ok.mpr ⟨hRuns.accountLifecycle, hCommits.account⟩, ?_⟩
    refine bind_ok.mpr ⟨_, enterSpace_ok.mpr ⟨hRuns.insertSpace, hRuns.getSpace, hCommits.space,
      rfl⟩, ?_⟩
    obtain ⟨hLoad, hRev⟩ := loadHead_ok.mpr ⟨hRuns.getRepo, rfl, (hStarts _ _).mpr hCommits.head⟩
    refine bind_ok.mpr ⟨_, hLoad, bind_ok.mpr ⟨_, hRev, ?_⟩⟩
    refine bind_ok.mpr ⟨_, advanceHead_ok.mpr ⟨hRuns.advanceHead, rfl⟩, ?_⟩
    have hApply : applyOps env call newRev 0
        ⟨setHead call (enteredDb call db) newRev lthash, lthash, [], 0⟩ call.ops =
          .ok (foldEdits env call newRev
            ⟨setHead call (enteredDb call db) newRev lthash, lthash, [], 0⟩ es) :=
      applyOps_ok.mpr ⟨by simpa using hRuns.op, by simpa [setHead] using hCommits.rowids, ws, es,
        hws, by simpa [setHead] using hes, rfl⟩
    refine bind_ok.mpr ⟨_, hApply, ?_⟩
    rw [foldEdits_landed]
    refine charge_ok.mpr ⟨hCommits.charged, ?_⟩
    refine bind_ok.mpr ⟨_, (finishHead_ok (hHead _ _ _) rfl).mpr
      ⟨hRuns.repoHasRecords, hRuns.finishHead, rfl⟩, ?_⟩
    refine ensure_bind_ok.mpr ⟨hRuns.upsertWriter, ?_⟩
    refine bind_ok.mpr ⟨_, mapError_ok.mpr hUpsert, ?_⟩
    exact ensure_bind_ok.mpr ⟨hRuns.commit, rfl⟩

/-! ## The call -/

/-- A call that returns an error leaves every table as it was. -/
theorem applySpaceWrites_error [CidText Cid] {e : ApiError}
    (h : applySpaceWrites env call db = (db', .error e)) : db' = db := by
  unfold applySpaceWrites at h
  by_cases hEmpty : call.ops.isEmpty = true
  · rw [if_pos hEmpty] at h
    exact (Prod.mk.inj h).1.symm
  · rw [if_neg hEmpty] at h
    cases hCheck : call.ops.mapM (checkOp env) with
    | error e' =>
      rw [hCheck] at h
      exact (Prod.mk.inj h).1.symm
    | ok _ =>
      rw [hCheck] at h
      dsimp only [inTransaction] at h
      cases hBody : writeTransaction env call db with
      | error e' =>
        rw [hBody] at h
        exact (Prod.mk.inj h).1.symm
      | ok committed =>
        rw [hBody] at h
        cases (Prod.mk.inj h).2

/-- What a call that succeeds does. -/
theorem applySpaceWrites_ok [CidText Cid] {outcome : SpaceCommitOutcome}
    {update : WriterUpdate} :
    applySpaceWrites env call db = (db', .ok (outcome, update)) ↔
      call.ops ≠ [] ∧ (∃ us, call.ops.mapM (checkOp env) = .ok us) ∧
        ∃ lthash newRev es, Commits env call db lthash newRev es ∧
          upsertWriter env.crypto env.tidNew call.writerClock
            (committedDb env call db lthash newRev es) call.repo newRev
            (committedOutcome env lthash newRev es).hash = .ok (db', update) ∧
          outcome = committedOutcome env lthash newRev es := by
  rw [← writeTransaction_ok]
  unfold applySpaceWrites
  by_cases hEmpty : call.ops.isEmpty = true
  · rw [if_pos hEmpty]
    constructor
    · intro h
      cases (Prod.mk.inj h).2
    · intro h
      exact absurd (List.isEmpty_iff.mp hEmpty) h.1
  · rw [if_neg hEmpty, and_iff_right (fun h => hEmpty (List.isEmpty_iff.mpr h))]
    cases hCheck : call.ops.mapM (checkOp env) with
    | error e =>
      constructor
      · intro h
        cases (Prod.mk.inj h).2
      · intro h
        obtain ⟨⟨_, h⟩, _⟩ := h
        cases h
    | ok us =>
      rw [and_iff_right ⟨us, rfl⟩]
      dsimp only [inTransaction]
      cases hBody : writeTransaction env call db with
      | error e =>
        constructor
        · intro h
          cases (Prod.mk.inj h).2
        · intro h
          cases h
      | ok committed =>
        obtain ⟨tx, result⟩ := committed
        constructor
        · intro h
          obtain ⟨hDb, hResult⟩ := Prod.mk.inj h
          rw [← hDb, Except.ok.inj hResult]
        · intro h
          cases h
          rfl

/-! ## The batch -/

/-- What a call has to pass whatever its batch does: the request, the account, the space,
a head that can be read, and rowids for the oplog. -/
structure Admitted (env : SpaceEnv Cid) (call : WriteCall) (db : Db) : Prop where
  nonempty : call.ops ≠ []
  checked : ∃ us, call.ops.mapM (checkOp env) = .ok us
  account : AccountAdmitted call db
  space : Enterable call db
  head : ∀ row, db.repos call.repo = some row →
    ∃ lthash, LtHash.fromState row.lthashState = .ok lthash
  rowids : RowidsLeft db.ops call.ops.length

/-- The repository has a record left after the edits. -/
def keepsRecords (call : WriteCall) (db : Db) (es : List RecordEdit) : Bool :=
  !(Edit.applyAll (db.records call.repo) es).entries.isEmpty

theorem repoHasRecords_landedDb {lthash : LtHash} {newRev : String} {es : List RecordEdit} :
    repoHasRecords (landedDb call db lthash newRev es) call.repo = keepsRecords call db es := by
  rw [repoHasRecords, landedDb_records, Function.update_self, keepsRecords]

theorem exists_startsFrom (hNew : ∀ s, isValidTid s = true → env.tidNew s = .ok ())
    (hHead : ∀ row, db.repos call.repo = some row →
      ∃ lthash, LtHash.fromState row.lthashState = .ok lthash) :
    ∃ lthash newRev, StartsFrom env call db lthash newRev := by
  simp only [StartsFrom]
  cases hRepo : db.repos call.repo with
  | none => exact ⟨_, _, rfl, rfl⟩
  | some row =>
    obtain ⟨lthash, hState⟩ := hHead row hRepo
    obtain ⟨newRev, hNext, _⟩ := nextCommitRev_valid hNew call.revClock row.rev
    exact ⟨lthash, newRev, hState, hNext⟩

/-- A repository that keeps no record is left empty. -/
theorem applyAll_of_not_keepsRecords {es : List RecordEdit}
    (h : keepsRecords call db es ≠ true) :
    Edit.applyAll (db.records call.repo) es = SortedMap.empty := by
  apply SortedMap.ext_entries
  simpa [keepsRecords, SortedMap.empty] using h

theorem committedDb_records {lthash : LtHash} {newRev : String} {es : List RecordEdit} :
    (committedDb env call db lthash newRev es).records =
      Function.update db.records call.repo (Edit.applyAll (db.records call.repo) es) := by
  rw [committedDb, finishedDb, repoHasRecords_landedDb]
  by_cases hKept : keepsRecords call db es = true
  · rw [if_pos hKept]
    exact landedDb_records
  · rw [if_neg hKept, deleteRepo, landedDb_records, Function.update_idem,
      applyAll_of_not_keepsRecords hKept]

theorem committedDb_repos {lthash : LtHash} {newRev : String} {es : List RecordEdit} :
    (committedDb env call db lthash newRev es).repos =
      Function.update db.repos call.repo (if keepsRecords call db es then
        some ⟨newRev, LtHash.state (foldedHash env lthash es)⟩ else none) := by
  rw [committedDb, finishedDb, repoHasRecords_landedDb]
  by_cases hKept : keepsRecords call db es = true
  · rw [if_pos hKept, if_pos hKept, setHead, landedDb_repos, Function.update_idem]
  · rw [if_neg hKept, if_neg hKept, deleteRepo, landedDb_repos, Function.update_idem]

theorem opRows_repo {newRev : String} {idx : Nat} {es : List RecordEdit} :
    ∀ op ∈ opRows call newRev idx es, op.repo = call.repo := by
  induction es generalizing idx with
  | nil => simp [opRows]
  | cons e es ih =>
    intro op hop
    rcases List.mem_cons.mp hop with rfl | hop
    · rfl
    · exact ih op hop

theorem committedDb_ops {lthash : LtHash} {newRev : String} {es : List RecordEdit} :
    (committedDb env call db lthash newRev es).ops =
      if keepsRecords call db es then db.ops ++ opRows call newRev (maxRowid db.ops + 1) es
      else db.ops.filter fun op => op.repo ≠ call.repo := by
  have hRows : (opRows call newRev (maxRowid db.ops + 1) es).filter
      (fun op => op.repo ≠ call.repo) = [] := by
    apply List.filter_eq_nil_iff.mpr
    intro op hop
    simpa using opRows_repo op hop
  rw [committedDb, finishedDb, repoHasRecords_landedDb]
  by_cases hKept : keepsRecords call db es = true
  · rw [if_pos hKept, if_pos hKept]
    exact landedDb_ops
  · rw [if_neg hKept, if_neg hKept, deleteRepo, landedDb_ops, List.filter_append, hRows,
      List.append_nil]

/-- A call is one atomic batch of conditional writes: it succeeds exactly when it is
admitted, its operations apply in turn to the records, and the edits are paid for and
stored. Then the records, the answers, the oplog and the head are those of the edits, the
last two dropped with a repository that has no record left. An error changes nothing. -/
theorem spaceWrites_atomic [CidText Cid]
    {result : Except ApiError (SpaceCommitOutcome × WriterUpdate)}
    (hNew : ∀ s, isValidTid s = true → env.tidNew s = .ok ())
    (h : applySpaceWrites env call db = (db', result)) :
    ((∃ out, result = .ok out) ↔ Admitted env call db ∧
      ∃ ws es, call.ops.mapM (encodeOp env) = .ok ws ∧
        applyBatch (db.records call.repo) ws = some es ∧ Charged call es ∧
        StatementsRun call (keepsRecords call db es)) ∧
    (∀ ws es outcome update, call.ops.mapM (encodeOp env) = .ok ws →
      applyBatch (db.records call.repo) ws = some es → result = .ok (outcome, update) →
      db'.records =
          Function.update db.records call.repo (Edit.applyAll (db.records call.repo) es) ∧
        outcome.results = es.map editResult ∧
        db'.ops = (if keepsRecords call db es then
            db.ops ++ opRows call outcome.rev (maxRowid db.ops + 1) es
          else db.ops.filter fun op => op.repo ≠ call.repo) ∧
        (db'.repos call.repo).map (·.rev) =
          (if keepsRecords call db es then some outcome.rev else none)) ∧
    (∀ e, result = .error e → db' = db) := by
  refine ⟨?_, ?_, ?_⟩
  · constructor
    · intro hOk
      obtain ⟨⟨outcome, update⟩, rfl⟩ := hOk
      obtain ⟨hNonempty, hChecked, lthash, newRev, es, hCommits, _⟩ := applySpaceWrites_ok.mp h
      obtain ⟨ws, hws, hes⟩ := hCommits.applied
      have hRuns := hCommits.statements
      rw [repoHasRecords_landedDb] at hRuns
      refine ⟨⟨hNonempty, hChecked, hCommits.account, hCommits.space, ?_, hCommits.rowids⟩,
        ws, es, hws, hes, hCommits.charged, hRuns⟩
      intro row hRow
      have hHead := hCommits.head
      rw [StartsFrom, hRow] at hHead
      exact ⟨lthash, hHead.1⟩
    · intro hPass
      obtain ⟨hAdmitted, ws, es, hws, hes, hCharged, hRuns⟩ := hPass
      obtain ⟨lthash, newRev, hStart⟩ := exists_startsFrom hNew hAdmitted.head
      obtain ⟨db₁, update, hUpsert⟩ : ∃ db₁ update,
          upsertWriter env.crypto env.tidNew call.writerClock
            (committedDb env call db lthash newRev es) call.repo newRev
            (committedOutcome env lthash newRev es).hash = .ok (db₁, update) :=
        upsertWriter_ok hNew
      have hCall := applySpaceWrites_ok.mpr ⟨hAdmitted.nonempty, hAdmitted.checked, lthash,
        newRev, es, ⟨hAdmitted.account, hAdmitted.space, hStart, hAdmitted.rowids,
          ⟨ws, hws, hes⟩, hCharged, by rwa [repoHasRecords_landedDb]⟩, hUpsert, rfl⟩
      rw [hCall] at h
      exact ⟨_, (Prod.mk.inj h).2.symm⟩
  · intro ws es outcome update hws hes hResult
    rw [hResult] at h
    obtain ⟨_, _, lthash, newRev, es', hCommits, hUpsert, rfl⟩ := applySpaceWrites_ok.mp h
    obtain ⟨ws', hws', hes'⟩ := hCommits.applied
    rw [hws] at hws'
    cases hws'
    rw [hes] at hes'
    cases hes'
    obtain ⟨_, hRepos, hRecords, hOps⟩ := upsertWriter_frame hUpsert
    rw [hRecords, hRepos, hOps, committedDb_repos, Function.update_self]
    refine ⟨committedDb_records, rfl, committedDb_ops, ?_⟩
    by_cases hKept : keepsRecords call db es = true
    · rw [if_pos hKept, if_pos hKept]
      rfl
    · rw [if_neg hKept, if_neg hKept]
      rfl
  · intro e hError
    rw [hError] at h
    exact applySpaceWrites_error h

/-! ## A repository of one record -/

/-- The codec on the empty record, the only value that the runs below write. -/
def sampleCodec : RecordCodec String where
  base64 := sampleBase64
  toVec := fun value =>
    match value with
    | .map [] => .ok [0xa0]
    | _ => .error "unsupported value"
  fromSlice := fun bytes => if bytes = [0xa0] then .ok (.map []) else .error "unsupported bytes"
  dagCborBlockCid := fun bytes =>
    if bytes = [0xa0] then
      .ok "bafyreigbtj4x7ip5legnfznufuopl4sg4knzc2cof6duas4b3q2fy6swua"
    else .error (.repo "unsupported bytes")

def sampleTidNew (s : String) : Except String Unit :=
  if isValidTid s then .ok () else .error "invalid TID"

def sampleSpaceEnv : SpaceEnv String where
  crypto := ⟨fun _ _ => 0, fun _ => []⟩
  tidNew := sampleTidNew
  codec := sampleCodec
  validateRecordFormats := fun _ => .ok ()

def sampleSpace : SpaceRef :=
  ⟨"did:plc:carol", "com.example.circle", "self"⟩

/-- A call of alice's, with every statement and every budget in order. -/
def sampleCall (ops : List SpaceWriteOp) : WriteCall where
  space := sampleSpace
  did := "did:plc:alice"
  ops := ops
  admission := .active
  revClock := ⟨some 1700000000000000, 7⟩
  writerClock := ⟨some 1700000000000001, 7⟩
  now := 1700000000
  checkWritePoints := fun _ => .ok ()
  statement := fun _ => true

def sampleNote (rkey : String) : RecordPath :=
  toLex ("com.example.note", rkey)

def sampleRow : SpaceRecordRow :=
  ⟨"bafyreigbtj4x7ip5legnfznufuopl4sg4knzc2cof6duas4b3q2fy6swua", [0xa0]⟩

/-- Alice holds the record `com.example.note/a` in carol's space. -/
def sampleDb (lifecycle : AccountLifecycle) : Db where
  accounts := fun did => if did = "did:plc:alice" then some lifecycle else none
  spaces := fun uri => if uri = sampleSpace.uri then some ⟨none, false, false, none⟩ else none
  repos := fun repo =>
    if repo = (sampleCall []).repo then
      some ⟨"3jzfcijpj2z2a",
        LtHash.state (elementOf sampleSpaceEnv.crypto (sampleNote "a") sampleRow)⟩
    else none
  records := fun repo =>
    if repo = (sampleCall []).repo then SortedMap.empty.insert (sampleNote "a") sampleRow
    else SortedMap.empty
  ops := [⟨1, (sampleCall []).repo, "3jzfcijpj2z2a", "com.example.note", "a",
    some sampleRow.cid, none, 1690000000⟩]
  writers := fun _ => none

def deleteNote : SpaceWriteOp :=
  ⟨.delete, "com.example.note", "a", none⟩

theorem delete_succeeds :
    (applySpaceWrites sampleSpaceEnv (sampleCall [deleteNote]) (sampleDb .active)).2.isOk =
      true := by
  decide +kernel

/-- The delete of the only record. -/
theorem spaceWrites_atomic_delete :
    (∃ out, (applySpaceWrites sampleSpaceEnv (sampleCall [deleteNote])
        (sampleDb .active)).2 = .ok out) ∧
      Admitted sampleSpaceEnv (sampleCall [deleteNote]) (sampleDb .active) := by
  have hCall : applySpaceWrites sampleSpaceEnv (sampleCall [deleteNote]) (sampleDb .active) =
      ((applySpaceWrites sampleSpaceEnv (sampleCall [deleteNote]) (sampleDb .active)).1,
        (applySpaceWrites sampleSpaceEnv (sampleCall [deleteNote]) (sampleDb .active)).2) :=
    Prod.mk.eta.symm
  have hOk : ∃ out, (applySpaceWrites sampleSpaceEnv (sampleCall [deleteNote])
      (sampleDb .active)).2 = .ok out :=
    exists_ok_of_isOk delete_succeeds
  exact ⟨hOk, ((spaceWrites_atomic (fun _ h => if_pos h) hCall).1.mp hOk).1⟩

/-- The batch applies to the records, yet a deactivated account is refused, and the commit of
an active account leaves no oplog because it leaves no record. -/
theorem delete_refused_or_unlogged :
    (∃ ws es, (sampleCall [deleteNote]).ops.mapM (encodeOp sampleSpaceEnv) = .ok ws ∧
        applyBatch ((sampleDb .active).records (sampleCall [deleteNote]).repo) ws = some es ∧
        es ≠ []) ∧
      (applySpaceWrites sampleSpaceEnv (sampleCall [deleteNote]) (sampleDb .deactivated)).2 =
        .error ⟨.forbidden, "account is deactivated"⟩ ∧
      (applySpaceWrites sampleSpaceEnv (sampleCall [deleteNote]) (sampleDb .active)).2.isOk =
        true ∧
      (applySpaceWrites sampleSpaceEnv (sampleCall [deleteNote]) (sampleDb .active)).1.ops =
        [] := by
  refine ⟨⟨_, _, rfl, rfl, List.cons_ne_nil _ _⟩, ?_, delete_succeeds, ?_⟩
  · decide +kernel
  · decide +kernel

end Ezpds.Spaces
