import Ezpds.Library.Batch
import Ezpds.Library.Except
import Ezpds.Repo.Tid
import Ezpds.Spaces.LtHash
import Mathlib.Data.Prod.Lex

/-!
# The tables of permissioned spaces

The rows that a space host keeps: `spaces`, the heads, records and oplogs of the space
repositories, and the writer set that an authority reports. A table is a function of its
primary key, except for the oplog, whose rows are in `rowid` order. Each query of the
repository is one function here.

* `le_maxRowid`: the next rowid is above every older one.
* `upsertWriter_cases`: what recording a writer changes.
-/

namespace Ezpds.Spaces

open Library Repo

/-! ## Rows -/

inductive AccountLifecycle where
  | active
  | deactivated
  | suspended
  | takenDown
  deriving DecidableEq, Repr

/-- A parsed space reference; its canonical URI is the key of the `spaces` table. -/
structure SpaceRef where
  authority : String
  spaceType : String
  skey : String
  deriving DecidableEq, Repr

def SpaceRef.uri (space : SpaceRef) : String :=
  "at://" ++ space.authority ++ "/space/" ++ space.spaceType ++ "/" ++ space.skey

/-- The columns of `spaces` that the writes look at. `deleted` and `takendown` say that the
timestamps are set; `policy` is the simplespace config, present where this host is the
authority. -/
structure SpaceRow where
  policy : Option String
  deleted : Bool
  takendown : Bool
  lastSpaceRev : Option String
  deriving DecidableEq, Repr

/-- The primary key of `space_repos` and `space_writers`. -/
structure RepoId where
  space : String
  did : String
  deriving DecidableEq, Repr

/-- A collection and a record key. -/
abbrev RecordPath : Type := Lex (String × String)

structure SpaceRepoRow where
  rev : String
  lthashState : List UInt8
  deriving DecidableEq, Repr

structure SpaceRecordRow where
  cid : String
  value : List UInt8
  deriving DecidableEq, Repr

/-- A row of `space_repo_ops`; `idx` is its rowid. -/
structure SpaceRepoOpRow where
  idx : Nat
  repo : RepoId
  rev : String
  collection : String
  rkey : String
  cid : Option String
  prev : Option String
  createdAt : Nat
  deriving DecidableEq, Repr

structure SpaceWriterRow where
  rev : String
  hash : List UInt8
  spaceRev : String
  deriving DecidableEq, Repr

structure Db where
  accounts : String → Option AccountLifecycle
  spaces : String → Option SpaceRow
  repos : RepoId → Option SpaceRepoRow
  records : RepoId → SortedMap RecordPath SpaceRecordRow
  ops : List SpaceRepoOpRow
  writers : RepoId → Option SpaceWriterRow

/-! ## Repositories -/

/-- `false` when the repository already exists. -/
def insertRepo (db : Db) (repo : RepoId) (rev : String) (lthashState : List UInt8) : Db × Bool :=
  match db.repos repo with
  | some _ => (db, false)
  | none => ({ db with repos := Function.update db.repos repo (some ⟨rev, lthashState⟩) }, true)

/-- The compare-and-swap of a head: `false` when the rev is not the expected one. -/
def advanceRepoRev (db : Db) (repo : RepoId) (newRev : String) (lthashState : List UInt8)
    (expectedRev : String) : Db × Bool :=
  match db.repos repo with
  | some row =>
    if row.rev = expectedRev then
      ({ db with repos := Function.update db.repos repo (some ⟨newRev, lthashState⟩) }, true)
    else (db, false)
  | none => (db, false)

def getRecord (db : Db) (repo : RepoId) (path : RecordPath) : Option SpaceRecordRow :=
  (db.records repo).get? path

def upsertRecord (db : Db) (repo : RepoId) (path : RecordPath) (row : SpaceRecordRow) : Db :=
  { db with records := Function.update db.records repo ((db.records repo).set path (some row)) }

def deleteRecord (db : Db) (repo : RepoId) (path : RecordPath) : Db :=
  { db with records := Function.update db.records repo ((db.records repo).set path none) }

def maxRowid (ops : List SpaceRepoOpRow) : Nat :=
  (ops.map (·.idx)).foldr max 0

/-- An insert takes the rowid after the largest one. The engine's search for a free rowid
once the largest possible one is taken is left out: the insert fails there. -/
def nextRowid (ops : List SpaceRepoOpRow) : Option Nat :=
  if maxRowid ops + 1 < 2 ^ 63 then some (maxRowid ops + 1) else none

def insertRepoOp (db : Db) (repo : RepoId) (rev collection rkey : String)
    (cid prev : Option String) (now : Nat) : Option Db :=
  (nextRowid db.ops).map fun idx =>
    { db with ops := db.ops ++ [⟨idx, repo, rev, collection, rkey, cid, prev, now⟩] }

theorem maxRowid_append (ops ops' : List SpaceRepoOpRow) :
    maxRowid (ops ++ ops') = max (maxRowid ops) (maxRowid ops') := by
  induction ops with
  | nil => simp [maxRowid]
  | cons op ops ih =>
    simp only [maxRowid, List.map_append, List.map_cons, List.cons_append,
      List.foldr_cons] at ih ⊢
    omega

theorem le_maxRowid {ops : List SpaceRepoOpRow} {op : SpaceRepoOpRow} (h : op ∈ ops) :
    op.idx ≤ maxRowid ops := by
  induction ops with
  | nil => cases h
  | cons op' ops ih =>
    simp only [maxRowid, List.map_cons, List.foldr_cons] at ih ⊢
    rcases List.mem_cons.mp h with rfl | h
    · omega
    · have := ih h
      omega

theorem insertRepoOp_eq (db : Db) (repo : RepoId) (rev collection rkey : String)
    (cid prev : Option String) (now : Nat) :
    insertRepoOp db repo rev collection rkey cid prev now =
      if maxRowid db.ops + 1 < 2 ^ 63 then
        some { db with ops := db.ops ++
          [⟨maxRowid db.ops + 1, repo, rev, collection, rkey, cid, prev, now⟩] }
      else none := by
  rw [insertRepoOp, nextRowid]
  by_cases h : maxRowid db.ops + 1 < 2 ^ 63
  · rw [if_pos h, if_pos h]
    rfl
  · rw [if_neg h, if_neg h]
    rfl

/-- Every path and CID of a repository. -/
def listRecordIndex (db : Db) (repo : RepoId) : List (String × String × String) :=
  (db.records repo).entries.map fun e => ((ofLex e.1).1, (ofLex e.1).2, e.2.cid)

def repoHasRecords (db : Db) (repo : RepoId) : Bool :=
  !(db.records repo).entries.isEmpty

/-- Drops the oplog, the records and the head. -/
def deleteRepo (db : Db) (repo : RepoId) : Db :=
  { db with
    ops := db.ops.filter fun op => op.repo ≠ repo
    records := Function.update db.records repo SortedMap.empty
    repos := Function.update db.repos repo none }

/-- Prunes the oplog entries made before `cutoff`. -/
def sweepOldRepoOps (db : Db) (cutoff : Nat) : Db :=
  { db with ops := db.ops.filter fun op => cutoff ≤ op.createdAt }

/-! ## Spaces -/

/-- Writes one row of `spaces`. -/
def setSpace (db : Db) (uri : String) (row : Option SpaceRow) : Db :=
  { db with spaces := Function.update db.spaces uri row }

/-- Records a space that this host is not the authority of; an existing row stays. -/
def insertSpace (db : Db) (uri : String) : Db :=
  match db.spaces uri with
  | some _ => db
  | none => setSpace db uri (some ⟨none, false, false, none⟩)

/-- Claims a URI that has no row, or a row without config that is not taken down. -/
def createSpace (db : Db) (uri policy : String) : Db × Bool :=
  match db.spaces uri with
  | none => (setSpace db uri (some ⟨some policy, false, false, none⟩), true)
  | some row =>
    if row.policy.isNone && !row.takendown then
      (setSpace db uri (some { row with policy := some policy, deleted := false }), true)
    else (db, false)

def markSpaceDeleted (db : Db) (uri : String) : Db :=
  setSpace db uri ((db.spaces uri).map fun row => { row with deleted := true, policy := none })

def setSpaceTakedown (db : Db) (uri : String) (applied : Bool) : Db :=
  setSpace db uri ((db.spaces uri).map fun row => { row with takendown := applied })

/-! ## The writer set -/

structure WriterRevs where
  spaceRev : String
  prevSpaceRev : Option String
  deriving DecidableEq, Repr

inductive WriterUpdate where
  | accepted (revs : WriterRevs)
  | stale
  | notAuthority
  deriving DecidableEq, Repr

def generateTid (now : Clock) : String :=
  encodeTid (nowTidInt now)

def nextRecordRev (tidNew : String → Except String Unit) (now : Clock) (prevRev : String) :
    Except RecordError String :=
  nextCommitRev tidNew now prevRev

/-- Records the repository in the writer set of a space that this host is the authority
of, unless `rev` is not above the stored one. The hash of the empty set takes the row out,
and uses up a space revision all the same. -/
def upsertWriter (crypto : SpaceCrypto) (tidNew : String → Except String Unit) (now : Clock)
    (db : Db) (repo : RepoId) (rev : String) (hash : List UInt8) :
    Except RecordError (Db × WriterUpdate) :=
  match db.spaces repo.space with
  | none => .ok (db, .notAuthority)
  | some space =>
    if space.policy.isNone then .ok (db, .notAuthority)
    else if (db.writers repo).any fun stored => rev ≤ stored.rev then .ok (db, .stale)
    else do
      let spaceRev ← nextRecordRev tidNew now (space.lastSpaceRev.getD "")
      let row := if hash = LtHash.digest crypto LtHash.new then none else some ⟨rev, hash, spaceRev⟩
      let db := { db with writers := Function.update db.writers repo row }
      return (setSpace db repo.space (some { space with lastSpaceRev := some spaceRev }),
        .accepted ⟨spaceRev, space.lastSpaceRev⟩)

section Upsert

variable {crypto : SpaceCrypto} {tidNew : String → Except String Unit} {now : Clock}
  {db db' : Db} {repo : RepoId} {rev : String} {hash : List UInt8} {update : WriterUpdate}

/-- The row that an accepted report leaves. -/
def writerRow (crypto : SpaceCrypto) (rev : String) (hash : List UInt8) (spaceRev : String) :
    Option SpaceWriterRow :=
  if hash = LtHash.digest crypto LtHash.new then none else some ⟨rev, hash, spaceRev⟩

/-- A report is answered by a host that is not the authority, or is not above the stored
rev, or is written down under the next space revision. -/
theorem upsertWriter_cases
    (h : upsertWriter crypto tidNew now db repo rev hash = .ok (db', update)) :
    ((∀ space, db.spaces repo.space = some space → space.policy = none) ∧
        update = .notAuthority ∧ db' = db) ∨
      (∃ space stored, db.spaces repo.space = some space ∧ space.policy ≠ none ∧
        db.writers repo = some stored ∧ rev ≤ stored.rev ∧ update = .stale ∧ db' = db) ∨
      ∃ space spaceRev, db.spaces repo.space = some space ∧ space.policy ≠ none ∧
        (∀ stored, db.writers repo = some stored → stored.rev < rev) ∧
        nextRecordRev tidNew now (space.lastSpaceRev.getD "") = .ok spaceRev ∧
        update = .accepted ⟨spaceRev, space.lastSpaceRev⟩ ∧
        db' = { db with
          writers := Function.update db.writers repo (writerRow crypto rev hash spaceRev)
          spaces := Function.update db.spaces repo.space
            (some { space with lastSpaceRev := some spaceRev }) } := by
  unfold upsertWriter at h
  cases hSpace : db.spaces repo.space with
  | none =>
    rw [hSpace] at h
    cases h
    refine Or.inl ⟨?_, rfl, rfl⟩
    intro space hSome
    cases hSome
  | some space =>
    rw [hSpace] at h
    dsimp only at h
    by_cases hPolicy : space.policy = none
    · rw [hPolicy] at h
      cases h
      refine Or.inl ⟨?_, rfl, rfl⟩
      intro space' hSome
      cases hSome
      exact hPolicy
    · rw [if_neg (by simpa using hPolicy)] at h
      by_cases hStale : (db.writers repo).any (fun stored => rev ≤ stored.rev) = true
      · rw [if_pos hStale] at h
        cases h
        obtain ⟨stored, hStored, hLe⟩ : ∃ stored, db.writers repo = some stored ∧
            rev ≤ stored.rev := by
          simpa using (Option.any_eq_true _ _).mp hStale
        exact Or.inr (Or.inl ⟨space, stored, rfl, hPolicy, hStored, hLe, rfl, rfl⟩)
      · rw [if_neg hStale] at h
        obtain ⟨spaceRev, hNext, h⟩ := bind_ok.mp h
        cases h
        refine Or.inr (Or.inr ⟨space, spaceRev, rfl, hPolicy, ?_, hNext, rfl, rfl⟩)
        intro stored hStored
        rw [hStored] at hStale
        simpa using hStale

/-- Recording a writer changes only the writer set and the space. -/
theorem upsertWriter_frame
    (h : upsertWriter crypto tidNew now db repo rev hash = .ok (db', update)) :
    db'.accounts = db.accounts ∧ db'.repos = db.repos ∧ db'.records = db.records ∧
      db'.ops = db.ops := by
  rcases upsertWriter_cases h with ⟨_, _, rfl⟩ | ⟨_, _, _, _, _, _, _, rfl⟩ |
    ⟨_, _, _, _, _, _, _, rfl⟩
  · exact ⟨rfl, rfl, rfl, rfl⟩
  · exact ⟨rfl, rfl, rfl, rfl⟩
  · exact ⟨rfl, rfl, rfl, rfl⟩

/-- Recording a writer never fails. -/
theorem upsertWriter_ok (hNew : ∀ s, isValidTid s = true → tidNew s = .ok ()) :
    ∃ db' update, upsertWriter crypto tidNew now db repo rev hash = .ok (db', update) := by
  unfold upsertWriter
  cases db.spaces repo.space with
  | none => exact ⟨_, _, rfl⟩
  | some space =>
    dsimp only
    by_cases hPolicy : space.policy.isNone = true
    · rw [if_pos hPolicy]
      exact ⟨_, _, rfl⟩
    · rw [if_neg hPolicy]
      by_cases hStale : (db.writers repo).any (fun stored => rev ≤ stored.rev) = true
      · rw [if_pos hStale]
        exact ⟨_, _, rfl⟩
      · obtain ⟨spaceRev, hNext, _⟩ := nextCommitRev_valid hNew now (space.lastSpaceRev.getD "")
        rw [if_neg hStale, nextRecordRev, hNext]
        exact ⟨_, _, rfl⟩

end Upsert

def deleteWriters (db : Db) (uri : String) : Db :=
  { db with writers := fun repo => if repo.space = uri then none else db.writers repo }

/-- `PURGE_ACCOUNT_SQL`. -/
def purgeAccountRows (db : Db) (did : String) : Db :=
  { db with
    ops := db.ops.filter fun op => op.repo.did ≠ did
    records := fun repo => if repo.did = did then SortedMap.empty else db.records repo
    repos := fun repo => if repo.did = did then none else db.repos repo
    writers := fun repo => if repo.did = did then none else db.writers repo }

end Ezpds.Spaces
