import Ezpds.Blobs.Tables
import Ezpds.Library.Parties
import Ezpds.Library.Run

/-!
# The blob store as a machine

Uploads, record writes, passes of the garbage collector and account purges, over the tables,
the files and the clock. A step is one database statement or transaction, one change of a file,
or the end of a run wherever it is. A pass of the collector reconciles the accounts that it
has listed one by one, and then sweeps the expired ownership rows that it lists: the scheduler
starts a pass when the one before has ended.

* `Pass`, `GcPhase`: where the collector is.
* `State.step`: the machine.
* `State.movesPass_some`: the steps that change nothing but the pass.
-/

namespace Ezpds.Blobs

open Library

inductive UploadPhase where
  /-- The file is written under the identifier of its content. -/
  | stored (did cid : String)
  | stamped (did cid : String) (tempUntil : Nat)
  | ended
  deriving DecidableEq

def UploadPhase.cid? : UploadPhase → Option String
  | .stored _ cid | .stamped _ cid _ => some cid
  | .ended => none

inductive GcPhase where
  | choosing
  /-- The public repo is counted, and the space records up to the cursor. -/
  | walking (did : String) (counts : List String) (cursor : Option SpaceKey)
  | listing (did : String) (counts : List String)
  | listed (did : String) (counts : List String) (owned : List BlobOwnerRow)
  /-- `toPin` is what is still to be written of `counts`, and `owned` what is still to be
  compared with it. -/
  | updating (did : String) (counts toPin : List String) (owned : List BlobOwnerRow)
      (grace : Nat)
  | sweeping (expired : List (String × String))
  | reclaiming (cid : String) (expired : List (String × String))
  | unlinking (path : String) (expired : List (String × String))
  deriving DecidableEq

structure Pass where
  /-- The accounts that are still to be reconciled. -/
  rest : List String
  unreconciled : List String
  phase : GcPhase

structure State where
  now : Nat
  tables : BlobTables
  /-- The paths at which there is a file. -/
  files : List String
  accounts : SortedMap String AccountRecords
  uploads : List UploadPhase
  pass : Option Pass
  /-- The files that a purge has still to unlink. -/
  purges : List (List String)

inductive Label where
  | tick (now : Nat)
  /-- A committed write, deletion or import: what the account's records are after it. -/
  | writeRecords (did : String) (records : AccountRecords)
  | storeBlob (did cid : String)
  | stampUpload (i : Nat)
  | insertUpload (i : Nat)
  | endUpload (i : Nat)
  | beginPass
  | openRepo
  | walkPage
  | listOwned
  | computeGrace
  | pin (cid : String)
  | release
  | finishAccount
  | failAccount
  | listExpired
  | sweepOwner
  | reclaimBlob
  | unlinkBlob
  | failItem
  | endPass
  | purgeAccount (did : String)
  | unlinkPurged (i : Nat)
  | failUnlink (i : Nat)

/-- The steps of a pass. -/
def Label.ofPass : Label → Bool
  | .beginPass | .openRepo | .walkPage | .listOwned | .computeGrace | .pin _ | .release
  | .finishAccount | .failAccount | .listExpired | .sweepOwner | .reclaimBlob | .unlinkBlob
  | .failItem | .endPass => true
  | _ => false

/-- The steps that change nothing but the place at which a pass is. -/
def Label.movesPass : Label → Bool
  | .beginPass | .openRepo | .walkPage | .listOwned | .computeGrace | .finishAccount
  | .failAccount | .listExpired | .failItem | .endPass => true
  | _ => false

namespace State

def empty : State where
  now := 0
  tables := .empty
  files := []
  accounts := .empty
  uploads := []
  pass := none
  purges := []

def noRecords : AccountRecords where
  repo := none
  spaceRepos := []
  spaceRecords := .empty

def recordsOf (s : State) (did : String) : AccountRecords :=
  (s.accounts.get? did).getD noRecords

/-- A current record of the account refers to the blob. -/
def Refers (s : State) (did cid : String) : Prop :=
  cid ∈ (s.recordsOf did).links

instance (s : State) (did cid : String) : Decidable (s.Refers did cid) :=
  inferInstanceAs (Decidable (_ ∈ _))

def unlink (s : State) (path : String) : State :=
  { s with files := s.files.filter (· ≠ path) }

/-! ## Clock, records and uploads -/

def tick (s : State) (now : Nat) : Option State :=
  if s.now ≤ now then some { s with now } else none

def writeRecords (s : State) (did : String) (records : AccountRecords) : State :=
  { s with accounts := s.accounts.insert did records }

def storeBlob (s : State) (did cid : String) : State :=
  { s with
    files := storagePath cid :: s.files
    uploads := s.uploads ++ [.stored did cid] }

def stampUpload (ttl : Nat) (s : State) (i : Nat) : Option State :=
  match s.uploads[i]? with
  | some (.stored did cid) =>
    some { s with uploads := s.uploads.set i (.stamped did cid (s.now + ttl)) }
  | _ => none

/-- An ownership row refers to its account: without one the transaction is rolled back. -/
def insertUpload (s : State) (i : Nat) : Option State :=
  match s.uploads[i]? with
  | some (.stamped did cid tempUntil) =>
    let ended := { s with uploads := s.uploads.set i .ended }
    if (s.accounts.get? did).isSome then
      some { ended with tables := s.tables.insertBlob did cid tempUntil }
    else some ended
  | _ => none

def endUpload (s : State) (i : Nat) : Option State :=
  match s.uploads[i]? with
  | some _ => some { s with uploads := s.uploads.set i .ended }
  | none => none

/-! ## Reconciling -/

/-- `list_gc_candidate_dids`. -/
def candidateDids (s : State) : List String :=
  (s.tables.owners.map BlobOwnerRow.accountDid ++
    (s.accounts.entries.filter fun e => e.2.repo.isSome).map Prod.fst ++
    (s.accounts.entries.filter fun e => e.2.spaceRepos ≠ []).map Prod.fst).dedup

def beginPass (s : State) : Option State :=
  match s.pass with
  | none => some { s with pass := some ⟨s.candidateDids, [], .choosing⟩ }
  | some _ => none

/-- The public repo is walked from the root that is read here: its blocks do not change. -/
def openRepo (s : State) : Option State :=
  match s.pass with
  | some ⟨did :: rest, unreconciled, .choosing⟩ =>
    some { s with
      pass := some ⟨rest, unreconciled, .walking did (s.recordsOf did).publicLinks none⟩ }
  | _ => none

def walkPage (s : State) : Option State :=
  match s.pass with
  | some ⟨rest, unreconciled, .walking did counts cursor⟩ =>
    let entries := (s.recordsOf did).pageAfter cursor
    let counts := counts ++ entryLinks entries
    let phase :=
      if entries.length < RECORD_PAGE_SIZE then .listing did counts
      else .walking did counts ((entries.getLast?.map Prod.fst).or cursor)
    some { s with pass := some ⟨rest, unreconciled, phase⟩ }
  | _ => none

def listOwned (s : State) : Option State :=
  match s.pass with
  | some ⟨rest, unreconciled, .listing did counts⟩ =>
    some { s with
      pass := some ⟨rest, unreconciled, .listed did counts (s.tables.listOwnedBlobs did)⟩ }
  | _ => none

def computeGrace (ttl : Nat) (s : State) : Option State :=
  match s.pass with
  | some ⟨rest, unreconciled, .listed did counts owned⟩ =>
    some { s with
      pass := some ⟨rest, unreconciled,
        .updating did counts counts.dedup owned (s.now + ttl)⟩ }
  | _ => none

/-- The counts are a map, and are written in any order. -/
def pin (s : State) (cid : String) : Option State :=
  match s.pass with
  | some ⟨rest, unreconciled, .updating did counts toPin owned grace⟩ =>
    if cid ∈ toPin ∧ (s.accounts.get? did).isSome then
      some { s with
        tables := s.tables.upsertOwnerReferenced did cid (counts.count cid)
        pass := some ⟨rest, unreconciled,
          .updating did counts (toPin.filter (· ≠ cid)) owned grace⟩ }
    else none
  | _ => none

/-- The next of the owned rows, when no record refers to its blob. -/
def release (s : State) : Option State :=
  match s.pass with
  | some ⟨rest, unreconciled, .updating did counts [] (owner :: owned) grace⟩ =>
    some { s with
      tables := if owner.cid ∈ counts then s.tables
        else s.tables.releaseOwner did owner.cid grace
      pass := some ⟨rest, unreconciled, .updating did counts [] owned grace⟩ }
  | _ => none

def finishAccount (s : State) : Option State :=
  match s.pass with
  | some ⟨rest, unreconciled, .updating _ _ [] [] _⟩ =>
    some { s with pass := some ⟨rest, unreconciled, .choosing⟩ }
  | _ => none

/-- The account that a phase reconciles. -/
def reconciled : GcPhase → Option String
  | .walking did _ _ | .listing did _ | .listed did _ _ | .updating did _ _ _ _ => some did
  | _ => none

/-- An error, also of opening the repo of the next account. -/
def failAccount (s : State) : Option State :=
  match s.pass with
  | some ⟨did :: rest, unreconciled, .choosing⟩ =>
    some { s with pass := some ⟨rest, did :: unreconciled, .choosing⟩ }
  | some ⟨rest, unreconciled, phase⟩ =>
    (reconciled phase).map fun did =>
      { s with pass := some ⟨rest, did :: unreconciled, .choosing⟩ }
  | none => none

/-! ## Sweeping -/

def listExpired (s : State) : Option State :=
  match s.pass with
  | some ⟨[], unreconciled, .choosing⟩ =>
    some { s with
      pass := some ⟨[], unreconciled, .sweeping (s.tables.listExpiredTempOwners s.now)⟩ }
  | _ => none

/-- The first statement of `sweep_expired_owner`, unless the account is skipped. -/
def sweepOwner (s : State) : Option State :=
  match s.pass with
  | some ⟨rest, unreconciled, .sweeping ((did, cid) :: expired)⟩ =>
    if did ∈ unreconciled then
      some { s with pass := some ⟨rest, unreconciled, .sweeping expired⟩ }
    else
      let phase :=
        if s.tables.owners.any (fun row => isOwner did cid row ∧ isExpired s.now row) then
          .reclaiming cid expired
        else .sweeping expired
      some { s with
        tables := s.tables.deleteExpiredOwner did cid s.now
        pass := some ⟨rest, unreconciled, phase⟩ }
  | _ => none

def reclaimBlob (s : State) : Option State :=
  match s.pass with
  | some ⟨rest, unreconciled, .reclaiming cid expired⟩ =>
    let (tables, path) := s.tables.deleteBlobIfUnowned cid
    let phase := path.elim (.sweeping expired) fun path => .unlinking path expired
    some { s with tables, pass := some ⟨rest, unreconciled, phase⟩ }
  | _ => none

def unlinkBlob (s : State) : Option State :=
  match s.pass with
  | some ⟨rest, unreconciled, .unlinking path expired⟩ =>
    some { s.unlink path with pass := some ⟨rest, unreconciled, .sweeping expired⟩ }
  | _ => none

/-- An error in the sweep of one row: the next one follows. -/
def failItem (s : State) : Option State :=
  match s.pass with
  | some ⟨rest, unreconciled, .sweeping (_ :: expired)⟩
  | some ⟨rest, unreconciled, .reclaiming _ expired⟩
  | some ⟨rest, unreconciled, .unlinking _ expired⟩ =>
    some { s with pass := some ⟨rest, unreconciled, .sweeping expired⟩ }
  | _ => none

/-- The pass is complete, or the process has gone down in the middle of it. -/
def endPass (s : State) : Option State :=
  match s.pass with
  | some _ => some { s with pass := none }
  | none => none

/-! ## Purges -/

def purgeAccount (s : State) (did : String) : Option State :=
  match s.accounts.get? did with
  | some _ =>
    let (tables, paths) := s.tables.deleteOwnersAndUnownedBlobs did
    some { s with
      tables
      accounts := s.accounts.erase did
      purges := s.purges ++ [paths] }
  | none => none

def unlinkPurged (s : State) (i : Nat) : Option State :=
  match s.purges[i]? with
  | some (path :: paths) => some { s.unlink path with purges := s.purges.set i paths }
  | _ => none

def failUnlink (s : State) (i : Nat) : Option State :=
  match s.purges[i]? with
  | some (_ :: paths) => some { s with purges := s.purges.set i paths }
  | _ => none

def step (ttl : Nat) (s : State) : Label → Option State
  | .tick now => s.tick now
  | .writeRecords did records => some (s.writeRecords did records)
  | .storeBlob did cid => some (s.storeBlob did cid)
  | .stampUpload i => s.stampUpload ttl i
  | .insertUpload i => s.insertUpload i
  | .endUpload i => s.endUpload i
  | .beginPass => s.beginPass
  | .openRepo => s.openRepo
  | .walkPage => s.walkPage
  | .listOwned => s.listOwned
  | .computeGrace => s.computeGrace ttl
  | .pin cid => s.pin cid
  | .release => s.release
  | .finishAccount => s.finishAccount
  | .failAccount => s.failAccount
  | .listExpired => s.listExpired
  | .sweepOwner => s.sweepOwner
  | .reclaimBlob => s.reclaimBlob
  | .unlinkBlob => s.unlinkBlob
  | .failItem => s.failItem
  | .endPass => s.endPass
  | .purgeAccount did => s.purgeAccount did
  | .unlinkPurged i => s.unlinkPurged i
  | .failUnlink i => s.failUnlink i

/-- The steps that only move the pass on. -/
theorem movesPass_some {ttl : Nat} {s t : State} {label : Label} (h : s.step ttl label = some t)
    (hMoves : label.movesPass = true) : ∃ pass, t = { s with pass } := by
  cases label with
  | beginPass =>
    rw [step, beginPass] at h
    split at h <;> cases h
    exact ⟨_, rfl⟩
  | openRepo =>
    rw [step, openRepo] at h
    split at h <;> cases h
    exact ⟨_, rfl⟩
  | walkPage =>
    rw [step, walkPage] at h
    split at h <;> cases h
    exact ⟨_, rfl⟩
  | listOwned =>
    rw [step, listOwned] at h
    split at h <;> cases h
    exact ⟨_, rfl⟩
  | computeGrace =>
    rw [step, computeGrace] at h
    split at h <;> cases h
    exact ⟨_, rfl⟩
  | finishAccount =>
    rw [step, finishAccount] at h
    split at h <;> cases h
    exact ⟨_, rfl⟩
  | failAccount =>
    rw [step, failAccount] at h
    split at h
    · cases h
      exact ⟨_, rfl⟩
    · obtain ⟨did, _, rfl⟩ := Option.map_eq_some_iff.mp h
      exact ⟨_, rfl⟩
    · cases h
  | listExpired =>
    rw [step, listExpired] at h
    split at h <;> cases h
    exact ⟨_, rfl⟩
  | failItem =>
    rw [step, failItem] at h
    split at h <;> cases h <;> exact ⟨_, rfl⟩
  | endPass =>
    rw [step, endPass] at h
    split at h <;> cases h
    exact ⟨_, rfl⟩
  | _ => cases hMoves

end State

end Ezpds.Blobs
