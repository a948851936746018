import Ezpds.Library.Edits
import Ezpds.Repo.RecordValue
import Ezpds.Repo.Tid
import Mathlib.Data.Finset.Sort

/-!
# Repositories

A repository is a signed commit over a tree of records. The vendored tree is content
addressed: its root CID and its node blocks are functions of the entries, and they and
the other block encodings are the parameters that `Encoders` collects. A `Repository`
carries the proof that its commit names the root of its tree.

* `putRecord_ok`, `deleteRecord_ok`: one write, as an update of the tree.
* `mem_added`, `mem_buildCar`: the blocks of a commit's CAR.
-/

namespace Ezpds.Repo

open Library

/-- The merkle search tree, by what it holds: every record key with its block's CID. -/
abbrev Tree (Cid : Type) : Type := SortedMap String Cid

/-- `schema::Commit`: what the account signs. -/
structure Commit (Cid : Type) where
  did : String
  version : Nat
  data : Cid
  rev : String
  prev : Option Cid

structure SignedCommit (Cid : Type) extends Commit Cid where
  sig : List UInt8

/-- The encoders that are not part of the repository: the text codecs, `Tid::new`, the
DAG-CBOR blocks of records and commits, and the node layout of the tree. -/
structure Encoders (Cid : Type) where
  b64 : Base64
  tidNew : String → Except String Unit
  recordBlock : Ipld Cid → Cid
  commitBlock : SignedCommit Cid → Cid
  treeRoot : Tree Cid → Cid
  treeNodes : Tree Cid → List Cid

structure Repository {Cid : Type} (enc : Encoders Cid) where
  commit : SignedCommit Cid
  tree : Tree Cid
  data_eq : commit.data = enc.treeRoot tree

/-- What one write meets on its way: the clock, and the failure of the block store, if it
fails. -/
structure WriteEnv where
  now : Clock
  fault : Option RecordError

/-- The await points of a write, where the block store may fail. -/
def WriteEnv.access (env : WriteEnv) : Except RecordError Unit :=
  match env.fault with
  | some e => .error e
  | none => .ok ()

abbrev CommitSigner (Cid : Type) : Type := Commit Cid → List UInt8

variable {Cid : Type} {enc : Encoders Cid}

namespace Repository

/-- The commit block's CID. -/
def root (repo : Repository enc) : Cid :=
  enc.commitBlock repo.commit

def getRecordCid (repo : Repository enc) (key : String) : Option Cid :=
  repo.tree.get? key

/-- `Repository::add_raw`, up to the commit builder: the new tree and the record's CID. -/
def addRaw (repo : Repository enc) (key : String) (data : Ipld Cid) :
    Except String (Tree Cid × Cid) :=
  let cid := enc.recordBlock data
  match repo.tree.get? key with
  | some _ => .error "MST error: the key is already present in the tree"
  | none => .ok (repo.tree.set key (some cid), cid)

def updateRaw (repo : Repository enc) (key : String) (data : Ipld Cid) :
    Except String (Tree Cid × Cid) :=
  let cid := enc.recordBlock data
  match repo.tree.get? key with
  | some _ => .ok (repo.tree.set key (some cid), cid)
  | none => .error "MST error: the key is not present in the tree"

def deleteRaw (repo : Repository enc) (key : String) : Except String (Tree Cid) :=
  match repo.tree.get? key with
  | some _ => .ok (repo.tree.set key none)
  | none => .error "MST error: the key is not present in the tree"

/-- `CommitBuilder::finalize`, on the commit that the builder holds once its rev is set. -/
def finalize (repo : Repository enc) (signer : CommitSigner Cid) (tree : Tree Cid)
    (rev : String) : Repository enc :=
  let commit : Commit Cid :=
    { did := repo.commit.did, version := 3, data := enc.treeRoot tree, rev, prev := none }
  { commit := { commit with sig := signer commit }, tree, data_eq := rfl }

/-- The choice that `put_record` makes by probing the key. -/
def addOrUpdate (repo : Repository enc) (key : String) (data : Ipld Cid) :
    Except RecordError (Tree Cid × Cid) :=
  if (repo.getRecordCid key).isSome then
    (repo.updateRaw key data).mapError fun e => .repo ("update record: " ++ e)
  else
    (repo.addRaw key data).mapError fun e => .repo ("add record: " ++ e)

def putRecord (signer : CommitSigner Cid) (env : WriteEnv) (repo : Repository enc)
    (key : String) (data : Ipld Cid) : Except RecordError (Cid × Repository enc) := do
  env.access
  let (tree, cid) ← repo.addOrUpdate key data
  let rev ← nextCommitRev enc.tidNew env.now repo.commit.rev
  return (cid, repo.finalize signer tree rev)

def putRecordJson [CidText Cid] (signer : CommitSigner Cid) (env : WriteEnv)
    (repo : Repository enc) (key : String) (json : Json) :
    Except RecordError (Cid × Repository enc) := do
  let value ← jsonToRecordValue enc.b64 json
  repo.putRecord signer env key value

def deleteRecord (signer : CommitSigner Cid) (env : WriteEnv) (repo : Repository enc)
    (key : String) : Except RecordError (Repository enc) := do
  env.access
  let tree ← (repo.deleteRaw key).mapError fun e => .repo ("delete record: " ++ e)
  let rev ← nextCommitRev enc.tidNew env.now repo.commit.rev
  return repo.finalize signer tree rev

/-- A key that names a record has the separator in it. -/
def isRecordKey (key : String) : Bool :=
  key.toList.contains '/'

def countRecords (repo : Repository enc) : Nat :=
  repo.tree.count isRecordKey

/-- `Repository::export`: the commit and the nodes of the tree. -/
def exportCids (repo : Repository enc) : List Cid :=
  repo.root :: enc.treeNodes repo.tree

end Repository

/-! ## Commit diffs -/

section Diff

variable [LinearOrder Cid]

/-- The commit, the nodes of its tree and every record that the tree references. -/
def collectReachableCids (repo : Repository enc) : Finset Cid :=
  repo.exportCids.toFinset ∪ repo.tree.values.toFinset

structure CommitDiff (Cid : Type) where
  added : Finset Cid
  newReachable : Finset Cid

def collectCommitDiff (prev : Option (Repository enc)) (new : Repository enc) :
    CommitDiff Cid :=
  let newReachable := collectReachableCids new
  { added := newReachable \ prev.elim ∅ collectReachableCids, newReachable }

/-- A CARv1 file: its declared root and its blocks, in order. -/
structure Car (Cid : Type) where
  root : Cid
  blocks : List Cid
  deriving DecidableEq

/-- The root sorts ahead of the other blocks, which follow in CID order. -/
def buildCar (root : Cid) (cids : Finset Cid) : Car Cid where
  root := root
  blocks := (if root ∈ cids then [root] else []) ++ (cids.erase root).sort (· ≤ ·)

theorem mem_buildCar {root c : Cid} {cids : Finset Cid} :
    c ∈ (buildCar root cids).blocks ↔ c ∈ cids := by
  by_cases h : c = root
  · subst h
    by_cases hRoot : c ∈ cids
    · simp [buildCar, hRoot]
    · simp [buildCar, hRoot]
  · by_cases hRoot : root ∈ cids
    · simp [buildCar, h, hRoot]
    · simp [buildCar, hRoot]

theorem mem_collectReachableCids {repo : Repository enc} {c : Cid} :
    c ∈ collectReachableCids repo ↔
      c = repo.root ∨ c ∈ enc.treeNodes repo.tree ∨ ∃ key, repo.tree.get? key = some c := by
  simp [collectReachableCids, Repository.exportCids, SortedMap.mem_values]

theorem mem_added {prev new : Repository enc} {c : Cid} :
    c ∈ (collectCommitDiff (some prev) new).added ↔
      c ∈ collectReachableCids new ∧ c ∉ collectReachableCids prev := by
  simp [collectCommitDiff]

end Diff

/-! ## One write -/

namespace Repository

variable {signer : CommitSigner Cid} {env : WriteEnv} {repo new : Repository enc}
  {key : String} {cid : Cid}

theorem addRaw_ok {data : Ipld Cid} {tree : Tree Cid}
    (h : repo.addRaw key data = .ok (tree, cid)) :
    cid = enc.recordBlock data ∧ tree = repo.tree.set key (some cid) := by
  simp only [addRaw] at h
  cases hGet : repo.tree.get? key with
  | some c => simp [hGet] at h
  | none =>
    rw [hGet] at h
    cases h
    exact ⟨rfl, rfl⟩

theorem updateRaw_ok {data : Ipld Cid} {tree : Tree Cid}
    (h : repo.updateRaw key data = .ok (tree, cid)) :
    cid = enc.recordBlock data ∧ tree = repo.tree.set key (some cid) := by
  simp only [updateRaw] at h
  cases hGet : repo.tree.get? key with
  | some c =>
    rw [hGet] at h
    cases h
    exact ⟨rfl, rfl⟩
  | none => simp [hGet] at h

theorem deleteRaw_ok {tree : Tree Cid} (h : repo.deleteRaw key = .ok tree) :
    tree = repo.tree.set key none := by
  simp only [deleteRaw] at h
  cases hGet : repo.tree.get? key with
  | some c =>
    rw [hGet] at h
    cases h
    rfl
  | none => simp [hGet] at h

/-- Whether the key is there decides how the record is stored, not what is stored. -/
theorem putRecord_ok {data : Ipld Cid}
    (h : repo.putRecord signer env key data = .ok (cid, new)) :
    cid = enc.recordBlock data ∧ new.tree = repo.tree.set key (some cid) := by
  obtain ⟨_, _, h⟩ := bind_ok.mp h
  obtain ⟨⟨tree, c⟩, hTree, h⟩ := bind_ok.mp h
  obtain ⟨rev, _, h⟩ := bind_ok.mp h
  cases h
  rw [addOrUpdate] at hTree
  split at hTree
  · exact updateRaw_ok (mapError_ok.mp hTree)
  · exact addRaw_ok (mapError_ok.mp hTree)

theorem putRecordJson_ok [CidText Cid] {json : Json}
    (h : repo.putRecordJson signer env key json = .ok (cid, new)) :
    ∃ data, jsonToRecordValue enc.b64 json = .ok data ∧ cid = enc.recordBlock data ∧
      new.tree = repo.tree.set key (some cid) := by
  obtain ⟨data, hData, h⟩ := bind_ok.mp h
  exact ⟨data, hData, putRecord_ok h⟩

theorem deleteRecord_ok (h : repo.deleteRecord signer env key = .ok new) :
    new.tree = repo.tree.set key none := by
  obtain ⟨_, _, h⟩ := bind_ok.mp h
  obtain ⟨tree, hTree, h⟩ := bind_ok.mp h
  obtain ⟨rev, _, h⟩ := bind_ok.mp h
  cases h
  exact deleteRaw_ok (mapError_ok.mp hTree)

end Repository

end Ezpds.Repo
