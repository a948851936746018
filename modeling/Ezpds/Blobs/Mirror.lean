import Ezpds.Blobs.Tables
import Ezpds.Library.BaseText
import Ezpds.Library.Run
import Ezpds.Library.Text
import Ezpds.Repo.AtUri

/-!
# The recovery copy of the blobs

A bucket holds a copy of each blob file. The mirror sweep uploads what the bucket misses and
deletes what has no row, a boot brings back the files that the volume has lost, and the scrub
compares the files with their rows and may repair them from the bucket. All of them run beside
uploads, the collector and a volume that loses and changes files.

A step is one database statement, one request to the bucket or one change of a file. A sweep works
on the rows as it has listed them.

* `step`: the machine.
-/

namespace Ezpds.Blobs.Mirror

open Library Repo

abbrev Bytes := List UInt8

/-! ## Rows, files and objects -/

/-- The columns of a row beside its identifier. -/
structure BlobFacts where
  mimeType : String
  sizeBytes : Int
  storagePath : String
  deriving DecidableEq

structure PhysicalBlob where
  cid : String
  facts : BlobFacts
  deriving DecidableEq

structure Object where
  contentType : String
  bytes : Bytes
  deriving DecidableEq

/-- The configuration, and the hash function. -/
structure Config where
  sha256 : Bytes → Bytes
  keyPrefix : String
  /-- A bucket is configured and `auto_heal` is on. -/
  heals : Bool

variable (config : Config)

/-- A CIDv1 with the raw codec. -/
def buildCid (hash : Bytes) : String :=
  "b" ++ String.ofList (baseEncode 5 (fun d => Char.ofNat (if d < 26 then 97 + d else 24 + d))
    ([0x01, 0x55, 0x12, 0x20] ++ hash))

def computeCid (content : Bytes) : String :=
  buildCid (config.sha256 content)

def keyFor (cid : String) : String :=
  config.keyPrefix ++ cid

def verifyContent (row : PhysicalBlob) (content : Bytes) : Except String Unit := do
  check (content.length == row.facts.sizeBytes)
    ("size mismatch: file is " ++ toString content.length ++ " bytes, row says " ++
      toString row.facts.sizeBytes)
  check (computeCid config content == row.cid)
    ("content hash mismatch: bytes hash to " ++ computeCid config content)

/-! ## The sweeps -/

structure MirrorStats where
  uploaded : Nat
  deleted : Nat
  errors : Nat
  deriving DecidableEq

inductive MirrorPhase where
  /-- The rows are listed, and the bucket is not. -/
  | listing
  | uploading (rest : List PhysicalBlob)
  | putting (row : PhysicalBlob) (content : Bytes) (rest : List PhysicalBlob)
  | deleting (rest : List String)
  deriving DecidableEq

structure MirrorPass where
  rows : List PhysicalBlob
  remote : List String
  phase : MirrorPhase
  stats : MirrorStats
  deriving DecidableEq

def MirrorPass.skip (pass : MirrorPass) (rest : List PhysicalBlob) : MirrorPass :=
  { pass with
    phase := .uploading rest, stats := { pass.stats with errors := pass.stats.errors + 1 } }

def MirrorPass.stale (pass : MirrorPass) : List String :=
  pass.remote.filter fun cid => cid ∉ pass.rows.map PhysicalBlob.cid

structure RestoreStats where
  restored : Nat
  missing : Nat
  errors : Nat
  deriving DecidableEq

inductive RestorePhase where
  | looking (rest : List PhysicalBlob)
  | fetching (row : PhysicalBlob) (rest : List PhysicalBlob)
  | writing (row : PhysicalBlob) (content : Bytes) (rest : List PhysicalBlob)
  deriving DecidableEq

structure RestorePass where
  phase : RestorePhase
  stats : RestoreStats
  deriving DecidableEq

def RestorePass.fail (pass : RestorePass) (rest : List PhysicalBlob) : RestorePass :=
  { phase := .looking rest, stats := { pass.stats with errors := pass.stats.errors + 1 } }

structure ScrubStats where
  scanned : Nat
  healed : Nat
  missingFiles : Nat
  corruptedFiles : Nat
  orphanFiles : Nat
  errors : Nat
  deriving DecidableEq

/-- A file that is not that of its row. -/
inductive Problem where
  | missing
  | mismatch (reason : String)
  deriving DecidableEq

inductive ScrubPhase where
  | checking (rest : List PhysicalBlob)
  | fetching (row : PhysicalBlob) (problem : Problem) (rest : List PhysicalBlob)
  | rechecking (row : PhysicalBlob) (problem : Problem) (content : Bytes)
      (rest : List PhysicalBlob)
  | writing (row : PhysicalBlob) (problem : Problem) (content : Bytes) (rest : List PhysicalBlob)
  | walked
  deriving DecidableEq

structure ScrubPass where
  rows : List PhysicalBlob
  phase : ScrubPhase
  stats : ScrubStats
  deriving DecidableEq

/-- A problem that is not healed. -/
def ScrubPass.flag (pass : ScrubPass) (problem : Problem) (rest : List PhysicalBlob) :
    ScrubPass :=
  { pass with
    phase := .checking rest
    stats := match problem with
      | .missing => { pass.stats with missingFiles := pass.stats.missingFiles + 1 }
      | .mismatch _ => { pass.stats with corruptedFiles := pass.stats.corruptedFiles + 1 } }

def ScrubPass.error (pass : ScrubPass) : ScrubPass :=
  { pass with stats := { pass.stats with errors := pass.stats.errors + 1 } }

/-- What a request or a file operation comes to. One that fails may have had its effect. -/
inductive Outcome where
  | done
  | failed (effect : Bool)
  deriving DecidableEq

def Outcome.hasEffect : Outcome → Bool
  | .done => true
  | .failed effect => effect

/-- What a write that is not atomic comes to: one that fails may leave the first bytes. -/
inductive WriteOutcome where
  | done
  | failed (written : Option Nat)
  deriving DecidableEq

/-- What is done beside the sweeps. -/
inductive Outside where
  /-- An upload writes its file. -/
  | storeFile (content : Bytes)
  /-- An upload inserts its row. -/
  | insertRow (content : Bytes) (mimeType : String)
  /-- The collector and a purge delete a row and unlink a file. -/
  | deleteRow (cid : String)
  | unlink (path : String)
  /-- The volume changes a file, or loses it. -/
  | rot (path : String) (bytes : Option Bytes)
  deriving DecidableEq

inductive MirrorAction where
  | listRows
  | listKeys (ok : Bool)
  | readLocal (ok : Bool)
  | putObject (outcome : Outcome)
  | diffKeys
  | deleteObject (cid : String) (outcome : Outcome)
  | finish
  deriving DecidableEq

inductive RestoreAction where
  | statFile (ok : Bool)
  | fetchCopy (ok : Bool)
  | writeCopy (outcome : WriteOutcome)
  | serve
  deriving DecidableEq

inductive ScrubAction where
  | listRows
  | checkRow (ok : Bool)
  | fetchCopy (ok : Bool)
  | recheckRow (ok : Bool)
  | storeBlob (outcome : Outcome)
  | walkFiles (ok : Bool)
  | finish
  deriving DecidableEq

inductive Label where
  | outside (a : Outside)
  | mirror (a : MirrorAction)
  /-- The process is gone, and another one starts. -/
  | boot
  | restore (a : RestoreAction)
  | scrub (a : ScrubAction)
  deriving DecidableEq

abbrev Rows := SortedMap String BlobFacts
abbrev Files := SortedMap String Bytes
abbrev Bucket := SortedMap String Object

structure World where
  rows : Rows
  /-- Paths are relative to `data_dir`. -/
  files : Files
  bucket : Bucket
  mirror : Option MirrorPass
  scrub : Option ScrubPass
  /-- The server does not serve before this has ended. -/
  restore : Option RestorePass
  deriving DecidableEq

/-! ## Uploads, collection and the volume -/

/-- `SELECT … ORDER BY cid`. -/
def listAllBlobs (rows : Rows) : List PhysicalBlob :=
  rows.entries.map fun e => ⟨e.1, e.2⟩

def storeBlob (files : Files) (content : Bytes) : Files :=
  files.set (storagePath (computeCid config content)) (some content)

/-- `ON CONFLICT(cid) DO NOTHING`. -/
def insertBlob (rows : Rows) (content : Bytes) (mimeType : String) : Rows :=
  let cid := computeCid config content
  if (rows.get? cid).isSome then rows
  else rows.set cid (some ⟨mimeType, content.length, storagePath cid⟩)

def outsideStep (rows : Rows) (files : Files) : Outside → Rows × Files
  | .storeFile content => (rows, storeBlob config files content)
  | .insertRow content mimeType => (insertBlob config rows content mimeType, files)
  | .deleteRow cid => (rows.set cid none, files)
  | .unlink path => (rows, files.set path none)
  | .rot path bytes => (rows, files.set path bytes)

/-! ## The mirror sweep -/

/-- The keys under the prefix, without it. -/
def remoteCids (bucket : Bucket) : List String :=
  bucket.entries.filterMap fun e => stripPrefix config.keyPrefix e.1

/-- The first half of `upload_verified`, or a row whose object is there. -/
def readLocal (files : Files) (ok : Bool) (pass : MirrorPass) (row : PhysicalBlob)
    (rest : List PhysicalBlob) : MirrorPass :=
  if row.cid ∈ pass.remote then { pass with phase := .uploading rest }
  else
    match files.get? row.facts.storagePath with
    | some content =>
      if ok && (verifyContent config row content).isOk then
        { pass with phase := .putting row content rest }
      else pass.skip rest
    | none => pass.skip rest

def putObject (bucket : Bucket) (outcome : Outcome) (pass : MirrorPass) (row : PhysicalBlob)
    (content : Bytes) (rest : List PhysicalBlob) : Bucket × MirrorPass :=
  (if outcome.hasEffect then
      bucket.set (keyFor config row.cid) (some ⟨row.facts.mimeType, content⟩)
    else bucket,
    if outcome = .done then
      { pass with
        phase := .uploading rest
        stats := { pass.stats with uploaded := pass.stats.uploaded + 1 } }
    else pass.skip rest)

/-- A table without rows deletes nothing. -/
def diffKeys (pass : MirrorPass) : MirrorPass :=
  { pass with phase := .deleting (if pass.rows.isEmpty then [] else pass.stale) }

def deleteObject (bucket : Bucket) (cid : String) (outcome : Outcome) (pass : MirrorPass)
    (rest : List String) : Bucket × MirrorPass :=
  (if outcome.hasEffect then bucket.set (keyFor config cid) none else bucket,
    { pass with
      phase := .deleting (rest.erase cid)
      stats :=
        if outcome = .done then { pass.stats with deleted := pass.stats.deleted + 1 }
        else { pass.stats with errors := pass.stats.errors + 1 } })

/-- `run_blob_mirror`. The keys to delete are in no order. -/
def mirrorStep (w : World) (a : MirrorAction) : Option (Bucket × Option MirrorPass) :=
  match w.mirror with
  | none =>
    if a = .listRows then
      some (w.bucket, some ⟨listAllBlobs w.rows, [], .listing, ⟨0, 0, 0⟩⟩)
    else none
  | some pass =>
    match a, pass.phase with
    | .listKeys ok, .listing =>
      some (w.bucket, if ok then
          some { pass with remote := remoteCids config w.bucket, phase := .uploading pass.rows }
        else none)
    | .readLocal ok, .uploading (row :: rest) =>
      some (w.bucket, some (readLocal config w.files ok pass row rest))
    | .putObject outcome, .putting row content rest =>
      let next := putObject config w.bucket outcome pass row content rest
      some (next.1, some next.2)
    | .diffKeys, .uploading [] => some (w.bucket, some (diffKeys pass))
    | .deleteObject cid outcome, .deleting rest =>
      if cid ∈ rest then
        let next := deleteObject config w.bucket cid outcome pass rest
        some (next.1, some next.2)
      else none
    | .finish, .deleting [] => some (w.bucket, none)
    | _, _ => none

/-! ## Boot -/

/-- `fetch_verified`, of what the bucket answers. -/
def fetchVerified (bucket : Bucket) (row : PhysicalBlob) (ok : Bool) :
    Except String (Option Bytes) :=
  if ok then
    match bucket.get? (keyFor config row.cid) with
    | some object => (verifyContent config row object.bytes).map fun _ => some object.bytes
    | none => .ok none
  else .error "fetch bucket copy"

def fetchCopy (bucket : Bucket) (ok : Bool) (pass : RestorePass) (row : PhysicalBlob)
    (rest : List PhysicalBlob) : RestorePass :=
  match fetchVerified config bucket row ok with
  | .ok (some content) => { pass with phase := .writing row content rest }
  | .ok none =>
    { phase := .looking rest
      stats := { pass.stats with missing := pass.stats.missing + 1 } }
  | .error _ => pass.fail rest

/-- `write_restored`. -/
def writeCopy (files : Files) (outcome : WriteOutcome) (pass : RestorePass) (row : PhysicalBlob)
    (content : Bytes) (rest : List PhysicalBlob) : Files × RestorePass :=
  match outcome with
  | .done =>
    (files.set row.facts.storagePath (some content),
      { phase := .looking rest
        stats := { pass.stats with restored := pass.stats.restored + 1 } })
  | .failed (some n) =>
    (files.set row.facts.storagePath (some (content.take n)), pass.fail rest)
  | .failed none => (files, pass.fail rest)

/-- `restore_missing_blobs`. -/
def restoreStep (w : World) (a : RestoreAction) : Option (Files × Option RestorePass) :=
  match w.restore with
  | none => none
  | some pass =>
    match a, pass.phase with
    | .statFile ok, .looking (row :: rest) =>
      some (w.files, some (
        if ok then
          if (w.files.get? row.facts.storagePath).isSome then { pass with phase := .looking rest }
          else { pass with phase := .fetching row rest }
        else pass.fail rest))
    | .fetchCopy ok, .fetching row rest =>
      some (w.files, some (fetchCopy config w.bucket ok pass row rest))
    | .writeCopy outcome, .writing row content rest =>
      let next := writeCopy w.files outcome pass row content rest
      some (next.1, some next.2)
    | .serve, .looking [] => some (w.files, none)
    | _, _ => none

/-! ## The scrub -/

/-- What `check_row` finds of a file that it has read. -/
def problemOf (row : PhysicalBlob) : Option Bytes → Option Problem
  | none => some .missing
  | some content =>
    match verifyContent config row content with
    | .ok () => none
    | .error reason => some (.mismatch reason)

def checkRow (files : Files) (ok : Bool) (pass : ScrubPass) (row : PhysicalBlob)
    (rest : List PhysicalBlob) : ScrubPass :=
  let pass := { pass with
    phase := .checking rest, stats := { pass.stats with scanned := pass.stats.scanned + 1 } }
  if ok then
    match problemOf config row (files.get? row.facts.storagePath) with
    | none => pass
    | some problem =>
      if config.heals then { pass with phase := .fetching row problem rest }
      else pass.flag problem rest
  else pass.error

/-- The first request of `heal`. -/
def fetchHealthy (bucket : Bucket) (ok : Bool) (pass : ScrubPass) (row : PhysicalBlob)
    (problem : Problem) (rest : List PhysicalBlob) : ScrubPass :=
  match fetchVerified config bucket row ok with
  | .ok (some content) => { pass with phase := .rechecking row problem content rest }
  | .ok none => pass.flag problem rest
  | .error _ => pass.error.flag problem rest

/-- The collector may have deleted the row since it was listed. -/
def recheckRow (rows : Rows) (ok : Bool) (pass : ScrubPass) (row : PhysicalBlob)
    (problem : Problem) (content : Bytes) (rest : List PhysicalBlob) : ScrubPass :=
  if ok then
    if (rows.get? row.cid).isSome then { pass with phase := .writing row problem content rest }
    else pass.flag problem rest
  else pass.error.flag problem rest

def storeHealed (files : Files) (outcome : Outcome) (pass : ScrubPass) (problem : Problem)
    (content : Bytes) (rest : List PhysicalBlob) : Files × ScrubPass :=
  (if outcome.hasEffect then storeBlob config files content else files,
    if outcome = .done then
      { pass with
        phase := .checking rest, stats := { pass.stats with healed := pass.stats.healed + 1 } }
    else pass.error.flag problem rest)

/-- The names of the files that `walk_blob_files` returns. -/
def blobFiles (files : Files) : List String :=
  files.entries.filterMap fun e =>
    match splitText '/' e.1 with
    | ["blobs", _, name] => if name.startsWith "." then none else some name
    | _ => none

def walkFiles (files : Files) (ok : Bool) (pass : ScrubPass) : ScrubPass :=
  let orphans := (blobFiles files).countP fun cid => cid ∉ pass.rows.map PhysicalBlob.cid
  if ok then
    { pass with
      phase := .walked
      stats := { pass.stats with orphanFiles := pass.stats.orphanFiles + orphans } }
  else { pass with phase := .walked }.error

/-- `run_blob_scrub`. -/
def scrubStep (w : World) (a : ScrubAction) : Option (Files × Option ScrubPass) :=
  match w.scrub with
  | none =>
    if a = .listRows then
      let rows := listAllBlobs w.rows
      some (w.files, some ⟨rows, .checking rows, ⟨0, 0, 0, 0, 0, 0⟩⟩)
    else none
  | some pass =>
    match a, pass.phase with
    | .checkRow ok, .checking (row :: rest) =>
      some (w.files, some (checkRow config w.files ok pass row rest))
    | .fetchCopy ok, .fetching row problem rest =>
      some (w.files, some (fetchHealthy config w.bucket ok pass row problem rest))
    | .recheckRow ok, .rechecking row problem content rest =>
      some (w.files, some (recheckRow w.rows ok pass row problem content rest))
    | .storeBlob outcome, .writing _ problem content rest =>
      let next := storeHealed config w.files outcome pass problem content rest
      some (next.1, some next.2)
    | .walkFiles ok, .checking [] => some (w.files, some (walkFiles w.files ok pass))
    | .finish, .walked => some (w.files, none)
    | _, _ => none

/-! ## The machine -/

def Outside.isRot : Outside → Bool
  | .rot _ _ => true
  | _ => false

/-- Before the server serves, only the volume is beside the restoration. -/
def step (w : World) : Label → Option World
  | .outside a =>
    if w.restore.isNone || a.isRot then
      let next := outsideStep config w.rows w.files a
      some { w with rows := next.1, files := next.2 }
    else none
  | .mirror a =>
    if w.restore.isNone then
      (mirrorStep config w a).map fun next => { w with bucket := next.1, mirror := next.2 }
    else none
  | .boot =>
    some { w with
      mirror := none, scrub := none
      restore := some ⟨.looking (listAllBlobs w.rows), ⟨0, 0, 0⟩⟩ }
  | .restore a =>
    (restoreStep config w a).map fun next => { w with files := next.1, restore := next.2 }
  | .scrub a =>
    if w.restore.isNone then
      (scrubStep config w a).map fun next => { w with files := next.1, scrub := next.2 }
    else none

end Ezpds.Blobs.Mirror
