import Ezpds.Library.Paging
import Ezpds.Library.Text
import Ezpds.Spaces.StoredRecords
import Mathlib.Data.List.Sort

/-!
# Paging the oplog of a space repository

`listRepoOps` answers one page of a repository's oplog in the order of revs and rowids. A
full page carries the cursor of its last entry; a short page is at the head and carries a
signed commit over the head, which was read before the page. The head and the page come
from two queries, so the request takes the tables of both moments.

* `parseCursor_cursorOf`: a cursor names the entry that it was made from.
* `spaceListRepoOps_ok`: a response, as a page of the oplog.
-/

namespace Ezpds.Spaces

open Library Repo

/-! ## The query -/

/-- Revs compare first, rowids second. -/
abbrev OpPosition : Type := Lex (String × Nat)

def opPosition (op : SpaceRepoOpRow) : OpPosition :=
  toLex (op.rev, op.idx)

/-- The oplog of one repository, in insertion order. -/
def repoOps (db : Db) (repo : RepoId) : List SpaceRepoOpRow :=
  db.ops.filter fun op => op.repo = repo

/-- The two position filters of the query: after a rev, and after a rev and rowid. -/
def afterPosition (since : Option String) (after : Option (String × Int))
    (op : SpaceRepoOpRow) : Bool :=
  since.all (fun rev => rev < op.rev) &&
    after.all fun (rev, idx) => rev < op.rev || (op.rev == rev && idx < op.idx)

/-- The record's current block, if the entry is its latest write. -/
def currentValue (db : Db) (op : SpaceRepoOpRow) : Option (List UInt8) :=
  match getRecord db op.repo (toLex (op.collection, op.rkey)) with
  | some row => if op.cid = some row.cid then some row.value else none
  | none => none

/-- A row of the query: an oplog entry and the joined value. -/
structure OpWithValue where
  op : SpaceRepoOpRow
  value : Option (List UInt8)
  deriving DecidableEq, Repr

def listRepoOps (db : Db) (repo : RepoId) (since : Option String)
    (after : Option (String × Int)) (excludeValues : Bool) (limit : Nat) : List OpWithValue :=
  ((((repoOps db repo).filter (afterPosition since after)).mergeSort
    fun a b => opPosition a ≤ opPosition b).take limit).map fun op =>
      ⟨op, if excludeValues then none else currentValue db op⟩

/-! ## The route -/

def DEFAULT_LIMIT : Int := 100
def MAX_LIMIT : Int := 1000

/-- A `listRepoOps` request, with the outcome of its authentication, of its two reads and of
the loading of the signing key. -/
structure ListOpsCall where
  space : SpaceRef
  repo : String
  since : Option String
  limit : Option Int
  cursor : Option String
  excludeValues : Bool
  authenticate : Except ApiError Unit
  headRead : Bool
  opsRead : Bool
  signingKey : Except ApiError Unit

def ListOpsCall.id (call : ListOpsCall) : RepoId :=
  ⟨call.space.uri, call.repo⟩

/-- The commit view without its signature. -/
structure SignedCommit where
  rev : String
  hash : List UInt8
  deriving DecidableEq, Repr

structure OpEntry where
  rev : String
  collection : String
  rkey : String
  cid : Option String
  prev : Option String
  value : Option Json

/-- An entry without its value. -/
structure OpFields where
  rev : String
  collection : String
  rkey : String
  cid : Option String
  prev : Option String
  deriving DecidableEq, Repr

def OpEntry.fields (entry : OpEntry) : OpFields :=
  ⟨entry.rev, entry.collection, entry.rkey, entry.cid, entry.prev⟩

def opFields (op : SpaceRepoOpRow) : OpFields :=
  ⟨op.rev, op.collection, op.rkey, op.cid, op.prev⟩

structure OpsPage where
  ops : List OpEntry
  commit : Option SignedCommit
  cursor : Option String

/-- The last op's `rev/idx`. -/
def cursorOf (op : SpaceRepoOpRow) : String :=
  op.rev ++ "/" ++ Nat.repr op.idx

def parseCursor (cursor : String) : Except ApiError (String × Int) :=
  match (splitOnce '/' cursor.toList).bind fun (rev, idx) =>
    (parseI64 idx).map fun idx => (String.ofList rev, idx) with
  | some position => .ok position
  | none => .error ⟨.invalidRequest, "malformed cursor"⟩

def loadRepo (read : Bool) (db : Db) (repo : RepoId) : Except ApiError SpaceRepoRow := do
  ensure read ⟨.internalError, "failed to load space repo"⟩
  match db.repos repo with
  | some row => return row
  | none => throw ⟨.repoNotFound, "could not find repo for DID: " ++ repo.did⟩

def signCurrentCommit (crypto : SpaceCrypto) (signingKey : Except ApiError Unit)
    (row : SpaceRepoRow) : Except ApiError SignedCommit := do
  let lthash ← (LtHash.fromState row.lthashState).mapError fun _ =>
    ⟨.internalError, "failed to read space commit"⟩
  signingKey
  return ⟨row.rev, LtHash.digest crypto lthash⟩

variable {Cid : Type} [CidText Cid]

def entryValue (env : SpaceEnv Cid) : Option (List UInt8) → Except ApiError (Option Json)
  | some bytes => (decodeValue env bytes).map some
  | none => .ok none

def opEntry (env : SpaceEnv Cid) (row : OpWithValue) : Except ApiError OpEntry := do
  let value ← entryValue env row.value
  return ⟨row.op.rev, row.op.collection, row.op.rkey, row.op.cid, row.op.prev, value⟩

def pageLimit (limit : Option Int) : Nat :=
  (max 1 (min (limit.getD DEFAULT_LIMIT) MAX_LIMIT)).toNat

def parsedCursor (call : ListOpsCall) : Except ApiError (Option (String × Int)) :=
  match call.cursor with
  | some cursor => (parseCursor cursor).map some
  | none => .ok none

/-- The head is read from `db₀` and the page from `db₁`. -/
def spaceListRepoOps (env : SpaceEnv Cid) (call : ListOpsCall) (db₀ db₁ : Db) :
    Except ApiError OpsPage := do
  call.authenticate
  let repo ← loadRepo call.headRead db₀ call.id
  let limit := pageLimit call.limit
  let cursor ← parsedCursor call
  let since := if cursor.isSome then none else call.since
  ensure call.opsRead ⟨.internalError, "failed to list space repo ops"⟩
  let rows := listRepoOps db₁ call.id since cursor call.excludeValues limit
  let ops ← rows.mapM (opEntry env)
  -- a short page is at the head
  if rows.length < limit then
    let commit ← signCurrentCommit env.crypto call.signingKey repo
    return ⟨ops, some commit, none⟩
  else
    return ⟨ops, none, rows.getLast?.map fun row => cursorOf row.op⟩

/-! ## Positions -/

omit [CidText Cid] in
/-- A cursor names the entry that it was made from. -/
theorem parseCursor_cursorOf {op : SpaceRepoOpRow} (hRev : '/' ∉ op.rev.toList)
    (hIdx : op.idx < 2 ^ 63) : parseCursor (cursorOf op) = .ok (op.rev, (op.idx : Int)) := by
  have hText : (cursorOf op).toList = op.rev.toList ++ '/' :: (Nat.repr op.idx).toList := by
    simp [cursorOf]
  rw [parseCursor, hText, splitOnce_append hRev, Option.bind_some]
  dsimp only
  rw [parseI64_repr hIdx, Option.map_some, String.ofList_toList]

omit [CidText Cid] in
theorem opPosition_lt_iff {a b : SpaceRepoOpRow} :
    opPosition a < opPosition b ↔ a.rev < b.rev ∨ a.rev = b.rev ∧ a.idx < b.idx :=
  Prod.Lex.toLex_lt_toLex

omit [CidText Cid] in
/-- The filter of a cursor is the one of the rows above its entry. -/
theorem afterPosition_cursor (op : SpaceRepoOpRow) :
    afterPosition none (some (op.rev, (op.idx : Int))) = above opPosition (opPosition op) := by
  ext b
  rw [Bool.eq_iff_iff]
  simp only [afterPosition, Option.all_none, Option.all_some, Bool.true_and, above,
    opPosition_lt_iff, Bool.or_eq_true, Bool.and_eq_true, beq_iff_eq, decide_eq_true_eq,
    Int.ofNat_lt, @eq_comm _ b.rev]

omit [CidText Cid] in
theorem afterPosition_since {rev : String} {op : SpaceRepoOpRow} :
    afterPosition (some rev) none op = decide (rev < op.rev) := by
  simp only [afterPosition, Option.all_some, Option.all_none, Bool.and_true]

omit [CidText Cid] in
theorem upwardClosed_since {since : Option String} :
    UpwardClosed opPosition (afterPosition since none) := by
  intro a b ha hab
  cases since with
  | none => rfl
  | some rev =>
    rw [afterPosition_since, decide_eq_true_eq] at ha ⊢
    rcases opPosition_lt_iff.mp hab with hLt | ⟨hEq, _⟩
    · exact lt_trans ha hLt
    · rw [← hEq]
      exact ha

omit [CidText Cid] in
/-- On an oplog in position order the query is a page of it. -/
theorem listRepoOps_eq {db : Db} {repo : RepoId} {since : Option String}
    {after : Option (String × Int)} {excludeValues : Bool} {limit : Nat}
    (h : KeyedBy opPosition (repoOps db repo)) :
    listRepoOps db repo since after excludeValues limit =
      (page (repoOps db repo) (afterPosition since after) limit).map fun op =>
        ⟨op, if excludeValues then none else currentValue db op⟩ := by
  rw [listRepoOps, List.mergeSort_of_pairwise]
  · rfl
  · apply (h.filter _).imp
    intro a b hab
    exact decide_eq_true (le_of_lt hab)

/-! ## The response -/

variable {env : SpaceEnv Cid} {call : ListOpsCall} {db₀ db₁ : Db} {response : OpsPage}

omit [CidText Cid] in
theorem loadRepo_ok {read : Bool} {db : Db} {repo : RepoId} {row : SpaceRepoRow} :
    loadRepo read db repo = .ok row ↔ read = true ∧ db.repos repo = some row := by
  unfold loadRepo
  rw [ensure_bind_ok]
  apply and_congr_right
  intro _
  cases h : db.repos repo with
  | none =>
    constructor
    · intro h'
      cases h'
    · intro h'
      cases h'
  | some row' =>
    dsimp only
    rw [pure_ok, Option.some.injEq, eq_comm]

theorem opEntry_fields {row : OpWithValue} {entry : OpEntry} (h : opEntry env row = .ok entry) :
    entry.fields = opFields row.op := by
  obtain ⟨value, _, h⟩ := bind_ok.mp h
  cases h
  rfl

/-- The joined values of stored records decode. -/
theorem exists_opEntry [LawfulCidText Cid] (hCodec : env.codec.Lawful) {db : Db}
    (hStored : RecordsStored env db) {op : SpaceRepoOpRow} {excludeValues : Bool} :
    ∃ entry, opEntry env ⟨op, if excludeValues then none else currentValue db op⟩ =
      .ok entry := by
  cases hValue : (if excludeValues then none else currentValue db op) with
  | none => exact ⟨_, rfl⟩
  | some bytes =>
    have hCurrent : currentValue db op = some bytes := by
      cases excludeValues with
      | true => cases hValue
      | false => exact hValue
    rw [currentValue] at hCurrent
    split at hCurrent
    · rename_i row hRow
      split at hCurrent
      · cases hCurrent
        obtain ⟨value, hEncoded⟩ := (hStored _ _ _ hRow).encoded
        obtain ⟨value', hDecode, _⟩ := decodeValue_stored hCodec hEncoded
        refine ⟨_, bind_ok.mpr ⟨some value'.json, ?_, rfl⟩⟩
        rw [entryValue, hDecode]
        rfl
      · cases hCurrent
    · cases hCurrent

/-- The rows that the request selects. -/
def selectedRows (call : ListOpsCall) (db : Db) (after : Option (String × Int)) :
    List OpWithValue :=
  listRepoOps db call.id (if after.isSome then none else call.since) after call.excludeValues
    (pageLimit call.limit)

theorem spaceListRepoOps_ok :
    spaceListRepoOps env call db₀ db₁ = .ok response ↔
      call.authenticate = .ok () ∧ call.headRead = true ∧ call.opsRead = true ∧
        ∃ row after ops, db₀.repos call.id = some row ∧ parsedCursor call = .ok after ∧
          (selectedRows call db₁ after).mapM (opEntry env) = .ok ops ∧
          if (selectedRows call db₁ after).length < pageLimit call.limit then
            ∃ commit, signCurrentCommit env.crypto call.signingKey row = .ok commit ∧
              response = ⟨ops, some commit, none⟩
          else response = ⟨ops, none,
            (selectedRows call db₁ after).getLast?.map fun row => cursorOf row.op⟩ := by
  unfold spaceListRepoOps
  rw [bind_ok]
  constructor
  · intro h
    obtain ⟨_, hAuth, h⟩ := h
    obtain ⟨row, hLoad, h⟩ := bind_ok.mp h
    obtain ⟨hHeadRead, hRow⟩ := loadRepo_ok.mp hLoad
    obtain ⟨after, hCursor, h⟩ := bind_ok.mp h
    obtain ⟨hOpsRead, h⟩ := ensure_bind_ok.mp h
    obtain ⟨ops, hOps, h⟩ := bind_ok.mp h
    refine ⟨hAuth, hHeadRead, hOpsRead, row, after, ops, hRow, hCursor, hOps, ?_⟩
    by_cases hShort : (selectedRows call db₁ after).length < pageLimit call.limit
    · rw [selectedRows] at hShort
      rw [if_pos hShort] at h
      rw [selectedRows, if_pos hShort]
      obtain ⟨commit, hCommit, h⟩ := bind_ok.mp h
      exact ⟨commit, hCommit, pure_ok.mp h⟩
    · rw [selectedRows] at hShort
      rw [if_neg hShort] at h
      rw [selectedRows, if_neg hShort]
      exact pure_ok.mp h
  · intro h
    obtain ⟨hAuth, hHeadRead, hOpsRead, row, after, ops, hRow, hCursor, hOps, hEnd⟩ := h
    refine ⟨(), hAuth, bind_ok.mpr ⟨row, loadRepo_ok.mpr ⟨hHeadRead, hRow⟩,
      bind_ok.mpr ⟨after, hCursor, ensure_bind_ok.mpr ⟨hOpsRead, bind_ok.mpr ⟨ops, hOps, ?_⟩⟩⟩⟩⟩
    by_cases hShort : (selectedRows call db₁ after).length < pageLimit call.limit
    · rw [if_pos hShort] at hEnd
      rw [selectedRows] at hShort
      rw [if_pos hShort]
      obtain ⟨commit, hCommit, hEnd⟩ := hEnd
      exact bind_ok.mpr ⟨commit, hCommit, pure_ok.mpr hEnd⟩
    · rw [if_neg hShort] at hEnd
      rw [selectedRows] at hShort
      rw [if_neg hShort]
      exact pure_ok.mpr hEnd

end Ezpds.Spaces
