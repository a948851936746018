import Ezpds.Library.Run
import Ezpds.Spaces.AtomicCommit
import Mathlib.Algebra.BigOperators.Pi

/-!
# The space host as a machine

A host takes one label at a time: the commit of a write, the two halves of an inbound
`notifyWrite` (its checks, and the update of the writer set), the administration of spaces,
account changes, the purge of an account and the oplog sweep. The database has a single
connection, so every label runs alone on it.

* `hostStep_repos`: the labels that touch a space repository.
* `digest_invariant`: a head exists exactly while there are records, and carries their set
  hash.
-/

namespace Ezpds.Spaces

open Library Repo

/-! ## `notifyWrite` -/

def MAX_REV_SKEW_SECS : Nat := 5 * 60

def tidMicros (tid : String) : Nat :=
  decodeTid tid >>> 10

/-- An inbound report, with what the host finds out about it: the time, the issuer that its
token names, whether the token verifies, whether the space can be read, and the answer of
its write policy. -/
structure WriteReport where
  space : SpaceRef
  repo : String
  repoRev : String
  hash : List UInt8
  now : Nat
  peekJwtIss : Except ApiError String
  verifyServiceAuth : Except ApiError Unit
  getSpace : Bool
  authorizeWriteNotification : Except ApiError Bool

def WriteReport.id (report : WriteReport) : RepoId :=
  ⟨report.space.uri, report.repo⟩

/-- The checks before the writer set is touched: `true` when the report is to be recorded,
`false` when it is acknowledged without effect. -/
def spaceNotifyWrite (report : WriteReport) (db : Db) : Except ApiError Bool := do
  ensure (report.hash.length == 32) ⟨.invalidRequest, "hash must be 32 bytes"⟩
  ensure (!(tidMicros report.repoRev / 1000000 > report.now + MAX_REV_SKEW_SECS))
    ⟨.futureRev, "repoRev is ahead of the permitted clock skew"⟩
  let iss ← report.peekJwtIss
  ensure (iss == report.repo || iss == report.space.authority)
    ⟨.invalidToken, "issuer is neither the repo nor the space authority"⟩
  report.verifyServiceAuth
  ensure report.getSpace ⟨.internalError, "internal server error"⟩
  match db.spaces report.space.uri with
  | none => return false
  | some row =>
    if row.deleted || row.takendown || row.policy.isNone then return false
    else report.authorizeWriteNotification

/-! ## The machine -/

/-- An update that was forwarded to the syncers of a space. -/
structure ForwardedWrite where
  repo : RepoId
  rev : String
  hash : List UInt8
  revs : WriterRevs
  deriving DecidableEq, Repr

/-- The tables, the reports that passed the checks and wait for the connection, and the
updates forwarded so far, newest first. -/
structure Host where
  db : Db
  pending : List WriteReport
  forwarded : List ForwardedWrite

inductive HostLabel where
  | write (call : WriteCall)
  | notifyWrite (report : WriteReport)
  | recordWriter (i : Nat) (clock : Clock)
  | createSpace (uri policy : String)
  | deleteSpace (space : SpaceRef)
  | setSpaceTakedown (uri : String) (applied : Bool)
  | setLifecycle (did : String) (lifecycle : Option AccountLifecycle)
  | purgeAccount (did : String)
  | sweepOldRepoOps (cutoff : Nat)

/-- `forward_write`, where the update was accepted. -/
def forwardWrite (forwarded : List ForwardedWrite) (repo : RepoId) (rev : String)
    (hash : List UInt8) : WriterUpdate → List ForwardedWrite
  | .accepted revs => ⟨repo, rev, hash, revs⟩ :: forwarded
  | _ => forwarded

/-- `deleteSpace`: the tombstone, the writer set and the authority's own repository. A space
that is deleted already stays as it is. -/
def deleteSpace (db : Db) (space : SpaceRef) : Db :=
  match db.spaces space.uri with
  | none => db
  | some row =>
    if row.deleted then db
    else
      deleteRepo (deleteWriters (markSpaceDeleted db space.uri) space.uri)
        ⟨space.uri, space.authority⟩

variable {Cid : Type} [CidText Cid] (env : SpaceEnv Cid)

def writeStep (host : Host) (call : WriteCall) : Host :=
  match applySpaceWrites env call host.db with
  | (db, .ok (outcome, update)) =>
    { host with
      db
      forwarded := forwardWrite host.forwarded call.repo outcome.rev outcome.hash update }
  | (db, .error _) => { host with db }

omit [CidText Cid] in
/-- The report that waits at `i` gets the connection. -/
def recordWriterStep (host : Host) (i : Nat) (clock : Clock) : Option Host :=
  (host.pending[i]?).map fun report =>
    match upsertWriter env.crypto env.tidNew clock host.db report.id report.repoRev
      report.hash with
    | .ok (db, update) =>
      { db
        pending := host.pending.eraseIdx i
        forwarded := forwardWrite host.forwarded report.id report.repoRev report.hash update }
    | .error _ => { host with pending := host.pending.eraseIdx i }

def hostStep (host : Host) : HostLabel → Option Host
  | .write call => some (writeStep env host call)
  | .notifyWrite report =>
    match spaceNotifyWrite report host.db with
    | .ok true => some { host with pending := host.pending ++ [report] }
    | _ => some host
  | .recordWriter i clock => recordWriterStep env host i clock
  | .createSpace uri policy => some { host with db := (createSpace host.db uri policy).1 }
  | .deleteSpace space => some { host with db := deleteSpace host.db space }
  | .setSpaceTakedown uri applied => some { host with db := setSpaceTakedown host.db uri applied }
  | .setLifecycle did lifecycle =>
    some { host with db :=
      { host.db with accounts := Function.update host.db.accounts did lifecycle } }
  | .purgeAccount did => some { host with db := purgeAccountRows host.db did }
  | .sweepOldRepoOps cutoff => some { host with db := sweepOldRepoOps host.db cutoff }

@[simp] theorem hostStep_write {host : Host} {call : WriteCall} :
    hostStep env host (.write call) = some (writeStep env host call) := rfl

/-- A host that holds no space. -/
def newHost (accounts : String → Option AccountLifecycle) : Host where
  db := ⟨accounts, fun _ => none, fun _ => none, fun _ => SortedMap.empty, [], fun _ => none⟩
  pending := []
  forwarded := []

/-! ## What a label does to the repositories -/

/-- Nothing happened to the repositories. -/
structure SameRepos (db db' : Db) : Prop where
  repos : db'.repos = db.repos
  records : db'.records = db.records
  ops : db'.ops = db.ops

/-- The repositories that satisfy `p` are dropped, with their records and oplogs. -/
structure DropsRepos (p : RepoId → Bool) (db db' : Db) : Prop where
  repos : ∀ repo, db'.repos repo = if p repo then none else db.repos repo
  records : ∀ repo, db'.records repo = if p repo then SortedMap.empty else db.records repo
  ops : db'.ops = db.ops.filter fun op => !p op.repo

/-- A commit landed the edits `es` on the repository that `call` writes. -/
structure LandsCommit (env : SpaceEnv Cid) (call : WriteCall) (lthash : LtHash)
    (newRev : String) (es : List RecordEdit) (db db' : Db) : Prop where
  succeeds : ∃ out, (applySpaceWrites env call db).2 = .ok out
  nonempty : call.ops ≠ []
  checked : ∃ us, call.ops.mapM (checkOp env) = .ok us
  commits : Commits env call db lthash newRev es
  repos : db'.repos = (committedDb env call db lthash newRev es).repos
  records : db'.records = (committedDb env call db lthash newRev es).records
  ops : db'.ops = (committedDb env call db lthash newRev es).ops

variable {env} {host host' : Host} {label : HostLabel}

omit [CidText Cid] in
theorem deleteRepo_drops {db : Db} {repo : RepoId} :
    DropsRepos (fun r => decide (r = repo)) db (deleteRepo db repo) := by
  refine ⟨?_, ?_, ?_⟩
  · intro r
    simp [deleteRepo, Function.update_apply]
  · intro r
    simp [deleteRepo, Function.update_apply]
  · simp [deleteRepo]

theorem writeStep_repos {call : WriteCall} (h : writeStep env host call = host') :
    SameRepos host.db host'.db ∨
      ∃ lthash newRev es, LandsCommit env call lthash newRev es host.db host'.db := by
  rw [writeStep] at h
  cases hCall : applySpaceWrites env call host.db with
  | mk db result =>
    rw [hCall] at h
    cases result with
    | error e =>
      have hSame := applySpaceWrites_error hCall
      subst hSame
      subst h
      exact Or.inl ⟨rfl, rfl, rfl⟩
    | ok out =>
      obtain ⟨outcome, update⟩ := out
      obtain ⟨hNonempty, hChecked, lthash, newRev, es, hCommits, hUpsert, _⟩ :=
        applySpaceWrites_ok.mp hCall
      obtain ⟨_, hRepos, hRecords, hOps⟩ := upsertWriter_frame hUpsert
      subst h
      exact Or.inr ⟨lthash, newRev, es, ⟨_, congrArg Prod.snd hCall⟩, hNonempty, hChecked,
        hCommits, hRepos, hRecords, hOps⟩

omit [CidText Cid] in
theorem recordWriterStep_repos {i : Nat} {clock : Clock}
    (h : recordWriterStep env host i clock = some host') : SameRepos host.db host'.db := by
  rw [recordWriterStep] at h
  obtain ⟨report, _, h⟩ := Option.map_eq_some_iff.mp h
  cases hUpsert : upsertWriter env.crypto env.tidNew clock host.db report.id report.repoRev
      report.hash with
  | error e =>
    rw [hUpsert] at h
    subst h
    exact ⟨rfl, rfl, rfl⟩
  | ok out =>
    obtain ⟨_, hRepos, hRecords, hOps⟩ := upsertWriter_frame hUpsert
    rw [hUpsert] at h
    subst h
    exact ⟨hRepos, hRecords, hOps⟩

/-- A label leaves the repositories alone, lands a commit, drops repositories, or prunes
the oplog. -/
theorem hostStep_repos (h : hostStep env host label = some host') :
    SameRepos host.db host'.db ∨
      (∃ call lthash newRev es, label = .write call ∧
        LandsCommit env call lthash newRev es host.db host'.db) ∨
      (∃ p, DropsRepos p host.db host'.db) ∨
      ∃ cutoff, label = .sweepOldRepoOps cutoff ∧
        host'.db = sweepOldRepoOps host.db cutoff := by
  cases label with
  | write call =>
    cases h
    have hWrite := @writeStep_repos _ _ env host _ call rfl
    rcases hWrite with hSame | ⟨lthash, newRev, es, hLands⟩
    · exact Or.inl hSame
    · exact Or.inr (Or.inl ⟨call, lthash, newRev, es, rfl, hLands⟩)
  | notifyWrite report =>
    have hDb : host'.db = host.db := by
      rw [hostStep] at h
      split at h
      · cases h
        rfl
      · cases h
        rfl
    rw [hDb]
    exact Or.inl ⟨rfl, rfl, rfl⟩
  | recordWriter i clock => exact Or.inl (recordWriterStep_repos h)
  | createSpace uri policy =>
    cases h
    refine Or.inl ?_
    dsimp only [createSpace]
    split
    · exact ⟨rfl, rfl, rfl⟩
    · split
      · exact ⟨rfl, rfl, rfl⟩
      · exact ⟨rfl, rfl, rfl⟩
  | deleteSpace space =>
    cases h
    dsimp only [deleteSpace]
    split
    · exact Or.inl ⟨rfl, rfl, rfl⟩
    · split
      · exact Or.inl ⟨rfl, rfl, rfl⟩
      · have hDrops := @deleteRepo_drops
          (deleteWriters (markSpaceDeleted host.db space.uri) space.uri)
          ⟨space.uri, space.authority⟩
        exact Or.inr (Or.inr (Or.inl ⟨_, hDrops.repos, hDrops.records, hDrops.ops⟩))
  | setSpaceTakedown uri applied =>
    cases h
    exact Or.inl ⟨rfl, rfl, rfl⟩
  | setLifecycle did lifecycle =>
    cases h
    exact Or.inl ⟨rfl, rfl, rfl⟩
  | purgeAccount did =>
    cases h
    refine Or.inr (Or.inr (Or.inl ⟨fun repo => decide (repo.did = did), ?_, ?_, ?_⟩))
    · intro repo
      simp [purgeAccountRows]
    · intro repo
      simp [purgeAccountRows]
    · simp [purgeAccountRows]
  | sweepOldRepoOps cutoff =>
    cases h
    exact Or.inr (Or.inr (Or.inr ⟨cutoff, rfl, rfl⟩))

/-! ## The digest -/

/-- The lane-wise wrapping sum over the records of a repository. -/
def recordsHash (crypto : SpaceCrypto) (records : SortedMap RecordPath SpaceRecordRow) :
    LtHash :=
  fun lane => (records.entries.map fun e =>
    expand crypto (formatSetHashElement (ofLex e.1).1 (ofLex e.1).2 e.2.cid) lane).sum

/-- A repository has a head exactly while it has records, and the head carries their set
hash. -/
structure RepoDigested (crypto : SpaceCrypto) (head : Option SpaceRepoRow)
    (records : SortedMap RecordPath SpaceRecordRow) : Prop where
  head_iff : head.isSome = true ↔ records.entries ≠ []
  state : ∀ row, head = some row → row.lthashState = LtHash.state (recordsHash crypto records)

def Digested (crypto : SpaceCrypto) (db : Db) : Prop :=
  ∀ repo, RepoDigested crypto (db.repos repo) (db.records repo)

omit [CidText Cid] in
theorem recordsHash_eq_weight {crypto : SpaceCrypto}
    {records : SortedMap RecordPath SpaceRecordRow} :
    recordsHash crypto records = records.weight (elementOf crypto) := by
  funext lane
  show (records.entries.map fun e => expand crypto _ lane).sum = _
  rw [SortedMap.weight, Pi.list_sum_apply, List.map_map]
  rfl

omit [CidText Cid] in
theorem repoDigested_empty {crypto : SpaceCrypto} :
    RepoDigested crypto none SortedMap.empty := by
  refine ⟨?_, ?_⟩
  · simp [SortedMap.empty]
  · intro row h
    cases h

omit [CidText Cid] in
/-- The stored state of a head reads back as the set hash of the records. -/
theorem fromState_head {crypto : SpaceCrypto} {db : Db} (hDigested : Digested crypto db)
    {repo : RepoId} {row : SpaceRepoRow} (hHead : db.repos repo = some row) :
    LtHash.fromState row.lthashState = .ok ((db.records repo).weight (elementOf crypto)) := by
  rw [(hDigested repo).state row hHead, LtHash.fromState_state, recordsHash_eq_weight]

omit [CidText Cid] in
/-- The set hash that a commit starts from is the one of the records. -/
theorem startsFrom_hash {call : WriteCall} {db : Db} {lthash : LtHash} {newRev : String}
    (hDigested : Digested env.crypto db) (h : StartsFrom env call db lthash newRev) :
    lthash = (db.records call.repo).weight (elementOf env.crypto) := by
  have hRepo := hDigested call.repo
  cases hHead : db.repos call.repo with
  | none =>
    rw [StartsFrom, hHead] at h
    have hEmpty : (db.records call.repo).entries = [] := by
      by_contra hNonempty
      have hSome := hRepo.head_iff.mpr hNonempty
      rw [hHead] at hSome
      cases hSome
    rw [h.1, SortedMap.weight, hEmpty]
    rfl
  | some row =>
    rw [StartsFrom, hHead] at h
    obtain ⟨hState, _⟩ := h
    rw [fromState_head hDigested hHead] at hState
    exact (Except.ok.inj hState).symm

/-- The hash that the loop folds is the one of the records that it leaves. -/
theorem foldedHash_eq {call : WriteCall} {db : Db} {lthash : LtHash} {newRev : String}
    {es : List RecordEdit} (hDigested : Digested env.crypto db)
    (h : Commits env call db lthash newRev es) :
    foldedHash env lthash es =
      (Edit.applyAll (db.records call.repo) es).weight (elementOf env.crypto) := by
  obtain ⟨ws, _, hes⟩ := h.applied
  rw [foldedHash, startsFrom_hash hDigested h.head, Edit.weight_applyAll (applyBatch_chained hes)]

theorem digested_commit {call : WriteCall} {lthash : LtHash} {newRev : String}
    {es : List RecordEdit} {db db' : Db} (hDigested : Digested env.crypto db)
    (h : LandsCommit env call lthash newRev es db db') : Digested env.crypto db' := by
  intro repo
  rw [h.repos, h.records, committedDb_records, committedDb_repos]
  by_cases hRepo : repo = call.repo
  · subst hRepo
    rw [Function.update_self, Function.update_self]
    by_cases hKept : keepsRecords call db es = true
    · rw [if_pos hKept]
      refine ⟨?_, ?_⟩
      · simpa [keepsRecords] using hKept
      · intro row hRow
        cases hRow
        rw [recordsHash_eq_weight, ← foldedHash_eq hDigested h.commits]
    · rw [if_neg hKept, applyAll_of_not_keepsRecords hKept]
      exact repoDigested_empty
  · rw [Function.update_of_ne hRepo, Function.update_of_ne hRepo]
    exact hDigested repo

theorem digested_step (hDigested : Digested env.crypto host.db)
    (h : hostStep env host label = some host') : Digested env.crypto host'.db := by
  rcases hostStep_repos h with hSame | ⟨call, lthash, newRev, es, _, hLands⟩ | ⟨p, hDrops⟩ |
    ⟨cutoff, _, hSweep⟩
  · intro repo
    rw [hSame.repos, hSame.records]
    exact hDigested repo
  · exact digested_commit hDigested hLands
  · intro repo
    rw [hDrops.repos, hDrops.records]
    by_cases hp : p repo = true
    · rw [if_pos hp, if_pos hp]
      exact repoDigested_empty
    · rw [if_neg hp, if_neg hp]
      exact hDigested repo
  · rw [hSweep]
    exact hDigested

theorem digested_run {accounts : String → Option AccountLifecycle} {labels : List HostLabel}
    (h : run (hostStep env) (newHost accounts) labels = some host) :
    Digested env.crypto host.db := by
  have hInit : Digested env.crypto (newHost accounts).db := fun _ => repoDigested_empty
  exact @run_invariant _ _ _ (fun host => Digested env.crypto host.db)
    (fun _ _ _ hs hStep => digested_step hs hStep) _ _ _ hInit h

/-- In every state that a host reaches, a space repository has a head exactly while it has
records, and the stored state of the head is the lane-wise sum over these records. -/
theorem digest_invariant {accounts : String → Option AccountLifecycle}
    {labels : List HostLabel} (h : run (hostStep env) (newHost accounts) labels = some host)
    (repo : RepoId) :
    ((host.db.repos repo).isSome = true ↔ (host.db.records repo).entries ≠ []) ∧
      ∀ row, host.db.repos repo = some row →
        row.lthashState = LtHash.state (recordsHash env.crypto (host.db.records repo)) := by
  have hRepo := digested_run h repo
  exact ⟨hRepo.head_iff, hRepo.state⟩

def sampleAccounts (did : String) : Option AccountLifecycle :=
  if did = "did:plc:alice" then some .active else none

def sampleNoteValue : JsonValue :=
  ⟨.object [], by decide, trivial⟩

def putNote (rkey : String) : SpaceWriteOp :=
  ⟨.put, "com.example.note", rkey, some sampleNoteValue⟩

/-- A fresh host after one put of alice's. -/
def samplePutHost : Host :=
  writeStep sampleSpaceEnv (newHost sampleAccounts) (sampleCall [putNote "a"])

theorem digest_invariant_put :
    (samplePutHost.db.repos (sampleCall []).repo).isSome = true ↔
      (samplePutHost.db.records (sampleCall []).repo).entries ≠ [] := by
  have hRun : run (hostStep sampleSpaceEnv) (newHost sampleAccounts)
      [.write (sampleCall [putNote "a"])] = some samplePutHost := rfl
  exact (digest_invariant hRun _).1

end Ezpds.Spaces
