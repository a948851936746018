import Ezpds.Data.Json
import Ezpds.Library.KeyedRows
import Ezpds.Library.Paging
import Ezpds.Library.SortedMap
import Mathlib.Data.Prod.Lex

/-!
# Blobs, their owners, and the records that refer to them

`blobs` has a row for each content identifier, and `blob_owners` a row for each account that
keeps it. An ownership row refers to the row of its blob, so that this is a field of the
tables. A record refers to a blob by a link in its value.

* `BlobTables.insertBlob` to `BlobTables.deleteAccount`: the statements of the blob store.
* `collectBlobLinks`: the references of one record.
* `mem_ahead_nextCursor`: what a page of records leaves for the next ones.
-/

namespace Ezpds.Blobs

open Library

/-! ## The two tables -/

structure BlobRow where
  cid : String
  storagePath : String
  deriving DecidableEq

structure BlobOwnerRow where
  accountDid : String
  cid : String
  refCount : Nat
  /-- In seconds; `none` is permanent. -/
  tempUntil : Option Nat
  deriving DecidableEq

def isOwner (did cid : String) (row : BlobOwnerRow) : Bool :=
  row.accountDid = did ∧ row.cid = cid

structure BlobTables where
  blobs : List BlobRow
  owners : List BlobOwnerRow
  stored : ∀ owner ∈ owners, owner.cid ∈ blobs.map BlobRow.cid

/-- `{data_dir}` is left out: the paths are relative to it. -/
def storagePath (cid : String) : String :=
  "blobs/" ++ String.ofList (cid.toList.take 2) ++ "/" ++ cid

def insertBlobRow (blobs : List BlobRow) (cid : String) : List BlobRow :=
  if cid ∈ blobs.map BlobRow.cid then blobs else blobs ++ [⟨cid, storagePath cid⟩]

/-- A re-upload restarts the grace clock of an account that does not refer to the blob. -/
def upsertUploaded (owners : List BlobOwnerRow) (did cid : String) (tempUntil : Nat) :
    List BlobOwnerRow :=
  if owners.any (isOwner did cid) then
    updateWhere (fun row => isOwner did cid row ∧ row.refCount = 0)
      (fun row => { row with tempUntil := some tempUntil }) owners
  else owners ++ [⟨did, cid, 0, some tempUntil⟩]

def upsertReferenced (owners : List BlobOwnerRow) (did cid : String) (refCount : Nat) :
    List BlobOwnerRow :=
  if owners.any (isOwner did cid) then
    updateWhere (isOwner did cid) (fun row => { row with refCount, tempUntil := none }) owners
  else owners ++ [⟨did, cid, refCount, none⟩]

def isExpired (now : Nat) (row : BlobOwnerRow) : Bool :=
  row.tempUntil.any (· < now) ∧ row.refCount = 0

theorem mem_insertBlobRow {blobs : List BlobRow} {cid : String} :
    cid ∈ (insertBlobRow blobs cid).map BlobRow.cid := by
  rw [insertBlobRow]
  split
  · assumption
  · simp

theorem cid_insertBlobRow {blobs : List BlobRow} {cid other : String}
    (h : other ∈ blobs.map BlobRow.cid) :
    other ∈ (insertBlobRow blobs cid).map BlobRow.cid := by
  rw [insertBlobRow]
  split
  · exact h
  · rw [List.map_append]
    exact List.mem_append_left _ h

/-- The row of the account that uploads has its `cid`, and the others stay. -/
theorem mem_upsertUploaded {owners : List BlobOwnerRow} {did cid : String} {tempUntil : Nat}
    {row : BlobOwnerRow} (h : row ∈ upsertUploaded owners did cid tempUntil) :
    row ∈ owners ∨ isOwner did cid row = true ∧ row.tempUntil = some tempUntil := by
  rw [upsertUploaded] at h
  split at h
  · obtain ⟨old, hOld, rfl⟩ := mem_updateWhere.mp h
    split
    · rename_i hOwner
      exact Or.inr ⟨(of_decide_eq_true hOwner).1, rfl⟩
    · exact Or.inl hOld
  · rcases List.mem_append.mp h with h | h
    · exact Or.inl h
    · rw [List.mem_singleton.mp h]
      exact Or.inr ⟨by simp [isOwner], rfl⟩

theorem mem_upsertReferenced {owners : List BlobOwnerRow} {did cid : String} {refCount : Nat}
    {row : BlobOwnerRow} (h : row ∈ upsertReferenced owners did cid refCount) :
    row ∈ owners ∧ isOwner did cid row = false ∨
      isOwner did cid row = true ∧ row.tempUntil = none := by
  rw [upsertReferenced] at h
  split at h
  · obtain ⟨old, hOld, rfl⟩ := mem_updateWhere.mp h
    split
    · rename_i hOwner
      exact Or.inr ⟨hOwner, rfl⟩
    · rename_i hOwner
      exact Or.inl ⟨hOld, eq_false_of_ne_true hOwner⟩
  · rename_i hNone
    rcases List.mem_append.mp h with h | h
    · refine Or.inl ⟨h, eq_false_of_ne_true ?_⟩
      intro hOwner
      exact hNone (List.any_eq_true.mpr ⟨row, h, hOwner⟩)
    · rw [List.mem_singleton.mp h]
      exact Or.inr ⟨by simp [isOwner], rfl⟩

theorem isOwner_iff {did cid : String} {row : BlobOwnerRow} :
    isOwner did cid row = true ↔ row.accountDid = did ∧ row.cid = cid := by
  rw [isOwner, decide_eq_true_eq]

namespace BlobTables

def empty : BlobTables where
  blobs := []
  owners := []
  stored := nofun

variable (tables : BlobTables)

/-- One transaction: the physical row, unless it is there, and the ownership row. -/
def insertBlob (did cid : String) (tempUntil : Nat) : BlobTables where
  blobs := insertBlobRow tables.blobs cid
  owners := upsertUploaded tables.owners did cid tempUntil
  stored := by
    intro owner hOwner
    rcases mem_upsertUploaded hOwner with hOld | ⟨hNew, _⟩
    · exact cid_insertBlobRow (tables.stored owner hOld)
    · rw [(isOwner_iff.mp hNew).2]
      exact mem_insertBlobRow

/-- Nothing happens for a link that is not to a stored blob. -/
def upsertOwnerReferenced (did cid : String) (refCount : Nat) : BlobTables :=
  if h : cid ∈ tables.blobs.map BlobRow.cid then
    { blobs := tables.blobs
      owners := upsertReferenced tables.owners did cid refCount
      stored := by
        intro owner hOwner
        rcases mem_upsertReferenced hOwner with ⟨hOld, _⟩ | ⟨hNew, _⟩
        · exact tables.stored owner hOld
        · rw [(isOwner_iff.mp hNew).2]
          exact h }
  else tables

def isPermanent (did cid : String) (row : BlobOwnerRow) : Bool :=
  isOwner did cid row ∧ row.tempUntil = none

def releaseOwner (did cid : String) (tempUntil : Nat) : BlobTables where
  blobs := tables.blobs
  owners := updateWhere (isPermanent did cid)
    (fun row => { row with refCount := 0, tempUntil := some tempUntil }) tables.owners
  stored := by
    intro owner hOwner
    obtain ⟨old, hOld, rfl⟩ := mem_updateWhere.mp hOwner
    split
    · exact tables.stored old hOld
    · exact tables.stored old hOld

/-- The expiry is checked again in the delete. -/
def deleteExpiredOwner (did cid : String) (now : Nat) : BlobTables where
  blobs := tables.blobs
  owners := deleteWhere (fun row => isOwner did cid row ∧ isExpired now row) tables.owners
  stored := fun owner hOwner => tables.stored owner (mem_deleteWhere.mp hOwner).1

def isUnowned (owners : List BlobOwnerRow) (cid : String) (row : BlobRow) : Bool :=
  row.cid = cid ∧ ∀ owner ∈ owners, owner.cid ≠ row.cid

/-- The file to unlink is the one that the deleted row names. -/
def deleteBlobIfUnowned (cid : String) : BlobTables × Option String :=
  ({ blobs := deleteWhere (isUnowned tables.owners cid) tables.blobs
     owners := tables.owners
     stored := by
      intro owner hOwner
      obtain ⟨row, hRow, hCid⟩ := List.mem_map.mp (tables.stored owner hOwner)
      refine List.mem_map.mpr ⟨row, mem_deleteWhere.mpr ⟨hRow, ?_⟩, hCid⟩
      rw [isUnowned, decide_eq_false_iff_not]
      rintro ⟨_, hNone⟩
      exact hNone owner hOwner hCid.symm },
    (tables.blobs.find? (isUnowned tables.owners cid)).map BlobRow.storagePath)

def isReclaimed (owners : List BlobOwnerRow) (cids : List String) (row : BlobRow) : Bool :=
  row.cid ∈ cids ∧ ∀ owner ∈ owners, owner.cid ≠ row.cid

/-- The ownership rows of an account, and the rows of the blobs that it leaves without an
owner, with the files to unlink. -/
def deleteOwnersAndUnownedBlobs (did : String) : BlobTables × List String :=
  let cids := (tables.owners.filter fun row => row.accountDid = did).map BlobOwnerRow.cid
  let owners := deleteWhere (fun row => row.accountDid = did) tables.owners
  ({ blobs := deleteWhere (isReclaimed owners cids) tables.blobs
     owners := owners
     stored := by
      intro owner hOwner
      obtain ⟨row, hRow, hCid⟩ :=
        List.mem_map.mp (tables.stored owner (mem_deleteWhere.mp hOwner).1)
      refine List.mem_map.mpr ⟨row, mem_deleteWhere.mpr ⟨hRow, ?_⟩, hCid⟩
      rw [isReclaimed, decide_eq_false_iff_not]
      rintro ⟨_, hNone⟩
      exact hNone owner hOwner hCid.symm },
    (tables.blobs.filter (isReclaimed owners cids)).map BlobRow.storagePath)

def listExpiredTempOwners (now : Nat) : List (String × String) :=
  (tables.owners.filter (isExpired now)).map fun row => (row.accountDid, row.cid)

def listOwnedBlobs (did : String) : List BlobOwnerRow :=
  tables.owners.filter fun row => row.accountDid = did

end BlobTables

/-! ## References -/

def linkOf : List (String × Json) → Option String
  | [("$link", .string cid)] => some cid
  | _ => none

mutual

/-- Every occurrence of a link in a value. -/
def collectBlobLinks : Json → List String
  | .object fields =>
    match linkOf fields with
    | some cid => [cid]
    | none => collectFieldLinks fields
  | .array items => collectItemLinks items
  | _ => []

def collectItemLinks : List Json → List String
  | [] => []
  | item :: items => collectBlobLinks item ++ collectItemLinks items

def collectFieldLinks : List (String × Json) → List String
  | [] => []
  | (_, value) :: fields => collectBlobLinks value ++ collectFieldLinks fields

end

/-! ## The records of an account -/

/-- `space_uri`, `collection` and `rkey`. -/
abbrev SpaceKey := String ×ₗ String ×ₗ String

structure AccountRecords where
  /-- The public repo, by record path. -/
  repo : Option (SortedMap String Json)
  spaceRepos : List String
  spaceRecords : SortedMap SpaceKey Json

def RECORD_PAGE_SIZE : Nat := 100

namespace AccountRecords

variable (records : AccountRecords)

def publicLinks : List String :=
  records.repo.elim [] fun repo => repo.values.flatMap collectBlobLinks

def links : List String :=
  records.publicLinks ++ records.spaceRecords.values.flatMap collectBlobLinks

/-- The rows of `space_records` after a cursor. -/
def isAfter (cursor : Option SpaceKey) (entry : SpaceKey × Json) : Bool :=
  cursor.all (· < entry.1)

def ahead (cursor : Option SpaceKey) : List (SpaceKey × Json) :=
  records.spaceRecords.entries.filter (isAfter cursor)

def pageAfter (cursor : Option SpaceKey) : List (SpaceKey × Json) :=
  page records.spaceRecords.entries (isAfter cursor) RECORD_PAGE_SIZE

end AccountRecords

def entryLinks (entries : List (SpaceKey × Json)) : List String :=
  entries.flatMap fun entry => collectBlobLinks entry.2

end Ezpds.Blobs
