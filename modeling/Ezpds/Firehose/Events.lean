import Ezpds.Data.Cid
import Ezpds.Data.Json
import Ezpds.Library.Except

/-!
# The firehose event model

The wire-facing events, the payload that the log keeps of each (`Stored…`), the checks
an event passes before it is persisted, and the decoder that rebuilds an event from a
row. The DAG-CBOR encoder is not part of the repository: `DagCbor` is its interface and
`LawfulDagCbor` says that a stored payload reads back as it was written.

* `decodeStoredEvent_seq`: a decoded event has the sequence number of its row.
* `decodeStoredEvent_encode`: what the sequencer stores decodes, to the event it
  broadcasts with the record values erased.
-/

namespace Ezpds.Firehose

open Library

/-! ## Errors -/

/-- The failures of a database call that the code tells apart. -/
inductive SqlxError where
  | protocol (message : String)
  | uniqueViolation
  deriving DecidableEq, Repr

inductive FirehoseError where
  | encode (message : String)
  | decode (message : String)
  | db (error : SqlxError)
  deriving DecidableEq, Repr

/-! ## Events -/

inductive OpAction where
  | create
  | update
  | delete
  deriving DecidableEq, Repr

namespace OpAction

def asStr : OpAction → String
  | create => "create"
  | update => "update"
  | delete => "delete"

def fromWire (s : String) : Option OpAction :=
  if s = "create" then some create
  else if s = "update" then some update
  else if s = "delete" then some delete
  else none

@[simp] theorem fromWire_asStr (a : OpAction) : fromWire a.asStr = some a := by
  cases a <;> decide

end OpAction

/-- A single record-level operation within a commit. -/
structure RepoOp where
  action : OpAction
  collection : String
  rkey : String
  cid : Option String
  prev : Option String
  value : Option Json

namespace RepoOp

def path (op : RepoOp) : String :=
  op.collection ++ "/" ++ op.rkey

/-- The record value is not part of the wire frame. -/
def eraseValue (op : RepoOp) : RepoOp :=
  { op with value := none }

end RepoOp

structure CommitEvent where
  seq : Nat
  time : String
  repo : String
  commit : String
  rev : String
  since : Option String
  prevData : Option String
  ops : List RepoOp
  blocks : List UInt8

structure AccountEvent where
  seq : Nat
  time : String
  did : String
  active : Bool
  status : Option String

structure IdentityEvent where
  seq : Nat
  time : String
  did : String
  handle : Option String

structure SyncEvent where
  seq : Nat
  time : String
  did : String
  rev : String
  blocks : List UInt8

inductive FirehoseEvent where
  | commit (event : CommitEvent)
  | account (event : AccountEvent)
  | identity (event : IdentityEvent)
  | sync (event : SyncEvent)

namespace FirehoseEvent

def seq : FirehoseEvent → Nat
  | commit c => c.seq
  | account a => a.seq
  | identity i => i.seq
  | sync s => s.seq

def frameLabel : FirehoseEvent → String
  | commit _ => "commit"
  | account _ => "account"
  | identity _ => "identity"
  | sync _ => "sync"

def eraseValues : FirehoseEvent → FirehoseEvent
  | commit c => commit { c with ops := c.ops.map RepoOp.eraseValue }
  | event => event

@[simp] theorem seq_eraseValues (event : FirehoseEvent) : event.eraseValues.seq = event.seq := by
  cases event <;> rfl

end FirehoseEvent

/-! ## Inputs -/

structure CommitInput where
  repo : String
  commit : String
  rev : String
  since : Option String
  prevData : Option String
  ops : List RepoOp
  blocks : List UInt8

structure AccountInput where
  did : String
  active : Bool
  status : Option String

structure IdentityInput where
  did : String
  handle : Option String

structure SyncInput where
  did : String
  rev : String
  blocks : List UInt8

/-- What an `emit_*` or `stage_*` call is given: everything about an event except its
sequence number and the emission time. -/
inductive EventInput where
  | commit (input : CommitInput)
  | account (input : AccountInput)
  | identity (input : IdentityInput)
  | sync (input : SyncInput)

def EventInput.did : EventInput → String
  | commit i => i.repo
  | account i => i.did
  | identity i => i.did
  | sync i => i.did

def EventInput.eventType : EventInput → String
  | commit _ => "commit"
  | account _ => "account"
  | identity _ => "identity"
  | sync _ => "sync"

/-- The event that a call broadcasts. -/
def EventInput.event (seq : Nat) (time : String) : EventInput → FirehoseEvent
  | commit i =>
    .commit
      { seq, time, repo := i.repo, commit := i.commit, rev := i.rev, since := i.since,
        prevData := i.prevData, ops := i.ops, blocks := i.blocks }
  | account i => .account { seq, time, did := i.did, active := i.active, status := i.status }
  | identity i => .identity { seq, time, did := i.did, handle := i.handle }
  | sync i => .sync { seq, time, did := i.did, rev := i.rev, blocks := i.blocks }

@[simp] theorem EventInput.seq_event (seq : Nat) (time : String) (input : EventInput) :
    (input.event seq time).seq = seq := by
  cases input <;> rfl

/-! ## Checks before an event is persisted -/

section Validation

variable (Cid : Type) [CidText Cid]

def checkCid (what cid : String) : Except FirehoseError Unit :=
  match (CidText.tryFrom cid : Except String Cid) with
  | .ok _ => .ok ()
  | .error e => .error (.encode ("invalid " ++ what ++ " " ++ cid.quote ++ ": " ++ e))

def checkOptionalCid (what : String) : Option String → Except FirehoseError Unit
  | none => .ok ()
  | some cid => checkCid Cid what cid

/-- Every CID that the wire frame carries parses: the root, `prevData`, and the `cid` and
`prev` of each op. -/
def validateCommitCids (input : CommitInput) : Except FirehoseError Unit := do
  checkCid Cid "commit CID" input.commit
  checkOptionalCid Cid "prevData CID" input.prevData
  input.ops.forM fun op => do
    checkOptionalCid Cid "op CID" op.cid
    checkOptionalCid Cid "op prev CID" op.prev

end Validation

/-- The lexicon's cap on `#sync.blocks`. -/
def maxSyncBlocksBytes : Nat := 10000

def validateSyncBlocks (blocks : List UInt8) : Except FirehoseError Unit :=
  if blocks.length > maxSyncBlocksBytes then
    .error (.encode ("#sync blocks CAR is " ++ toString blocks.length ++ " bytes, over the " ++
      toString maxSyncBlocksBytes ++ "-byte lexicon cap"))
  else .ok ()

/-! ## Stored payloads -/

structure StoredOp where
  action : String
  collection : String
  rkey : String
  cid : Option String
  prev : Option String

def StoredOp.ofRepoOp (op : RepoOp) : StoredOp where
  action := op.action.asStr
  collection := op.collection
  rkey := op.rkey
  cid := op.cid
  prev := op.prev

structure StoredCommit where
  repo : String
  commit : String
  rev : String
  since : Option String
  prevData : Option String
  time : String
  ops : List StoredOp
  blocks : List UInt8

structure StoredAccount where
  did : String
  time : String
  active : Bool
  status : Option String

structure StoredIdentity where
  did : String
  time : String
  handle : Option String

structure StoredSync where
  did : String
  time : String
  rev : String
  blocks : List UInt8

/-- `serde_ipld_dagcbor::to_vec` and `from_slice` at one payload type. -/
structure Codec (Blob S : Type) where
  toVec : S → Except String Blob
  fromSlice : Blob → Except String S

def Codec.Lawful {Blob S : Type} (c : Codec Blob S) : Prop :=
  ∀ s b, c.toVec s = .ok b → c.fromSlice b = .ok s

/-- The DAG-CBOR codec at the four stored payloads. -/
class DagCbor (Blob : Type) where
  commit : Codec Blob StoredCommit
  account : Codec Blob StoredAccount
  identity : Codec Blob StoredIdentity
  sync : Codec Blob StoredSync

class LawfulDagCbor (Blob : Type) [DagCbor Blob] : Prop where
  commit : (DagCbor.commit : Codec Blob StoredCommit).Lawful
  account : (DagCbor.account : Codec Blob StoredAccount).Lawful
  identity : (DagCbor.identity : Codec Blob StoredIdentity).Lawful
  sync : (DagCbor.sync : Codec Blob StoredSync).Lawful

/-- Stored payloads as their own encoding: the codec that concrete runs use. -/
inductive Stored where
  | commit (s : StoredCommit)
  | account (s : StoredAccount)
  | identity (s : StoredIdentity)
  | sync (s : StoredSync)

instance : DagCbor Stored where
  commit :=
    { toVec := fun s => .ok (.commit s)
      fromSlice := fun | .commit s => .ok s | _ => .error "not a commit" }
  account :=
    { toVec := fun s => .ok (.account s)
      fromSlice := fun | .account s => .ok s | _ => .error "not an account event" }
  identity :=
    { toVec := fun s => .ok (.identity s)
      fromSlice := fun | .identity s => .ok s | _ => .error "not an identity event" }
  sync :=
    { toVec := fun s => .ok (.sync s)
      fromSlice := fun | .sync s => .ok s | _ => .error "not a sync event" }

instance : LawfulDagCbor Stored where
  commit := fun s b h => by cases h; rfl
  account := fun s b h => by cases h; rfl
  identity := fun s b h => by cases h; rfl
  sync := fun s b h => by cases h; rfl

section Storage

variable (Cid : Type) [CidText Cid] {Blob : Type} [DagCbor Blob]

def EventInput.validate : EventInput → Except FirehoseError Unit
  | commit i => validateCommitCids Cid i
  | account _ => .ok ()
  | identity _ => .ok ()
  | sync i => validateSyncBlocks i.blocks

/-- The payload of an event as it is written to the log. -/
def EventInput.encode (time : String) : EventInput → Except FirehoseError Blob
  | commit i =>
    (DagCbor.commit.toVec
      { repo := i.repo, commit := i.commit, rev := i.rev, since := i.since,
        prevData := i.prevData, time, ops := i.ops.map StoredOp.ofRepoOp,
        blocks := i.blocks }).mapError .encode
  | account i =>
    (DagCbor.account.toVec
      { did := i.did, time, active := i.active, status := i.status }).mapError .encode
  | identity i =>
    (DagCbor.identity.toVec { did := i.did, time, handle := i.handle }).mapError .encode
  | sync i =>
    (DagCbor.sync.toVec { did := i.did, time, rev := i.rev, blocks := i.blocks }).mapError
      .encode

/-- The check and the encoding that come before a sequence number is taken. -/
def EventInput.prepare (time : String) (input : EventInput) : Except FirehoseError Blob := do
  input.validate Cid
  input.encode time

/-! ## Decoding a row -/

def decodeOp (o : StoredOp) : Except FirehoseError RepoOp :=
  match OpAction.fromWire o.action with
  | none => .error (.decode ("unknown op action " ++ o.action.quote))
  | some action =>
    .ok
      { action, collection := o.collection, rkey := o.rkey, cid := o.cid, prev := o.prev,
        value := none }

def decodeStoredEvent (seq : Nat) (eventType : String) (blob : Blob) :
    Except FirehoseError FirehoseEvent :=
  if eventType = "commit" then do
    let s ← (DagCbor.commit.fromSlice blob).mapError FirehoseError.decode
    let ops ← s.ops.mapM decodeOp
    return .commit
      { seq, time := s.time, repo := s.repo, commit := s.commit, rev := s.rev,
        since := s.since, prevData := s.prevData, ops, blocks := s.blocks }
  else if eventType = "account" then do
    let s ← (DagCbor.account.fromSlice blob).mapError FirehoseError.decode
    return .account { seq, time := s.time, did := s.did, active := s.active, status := s.status }
  else if eventType = "identity" then do
    let s ← (DagCbor.identity.fromSlice blob).mapError FirehoseError.decode
    return .identity { seq, time := s.time, did := s.did, handle := s.handle }
  else if eventType = "sync" then do
    let s ← (DagCbor.sync.fromSlice blob).mapError FirehoseError.decode
    return .sync { seq, time := s.time, did := s.did, rev := s.rev, blocks := s.blocks }
  else .error (.decode ("unknown event_type " ++ eventType.quote))

end Storage

/-! ## Facts about decoding -/

section Facts

variable {Blob : Type} [DagCbor Blob]

/-- The sequence number comes from the row's key, not from the payload. -/
theorem decodeStoredEvent_seq {seq : Nat} {eventType : String} {blob : Blob}
    {event : FirehoseEvent} (h : decodeStoredEvent seq eventType blob = .ok event) :
    event.seq = seq := by
  unfold decodeStoredEvent at h
  split at h
  · obtain ⟨s, _, h⟩ := bind_ok.mp h
    obtain ⟨ops, _, h⟩ := bind_ok.mp h
    cases h
    rfl
  · split at h
    · obtain ⟨s, _, h⟩ := bind_ok.mp h
      cases h
      rfl
    · split at h
      · obtain ⟨s, _, h⟩ := bind_ok.mp h
        cases h
        rfl
      · split at h
        · obtain ⟨s, _, h⟩ := bind_ok.mp h
          cases h
          rfl
        · cases h

theorem decodeOp_ofRepoOp (op : RepoOp) : decodeOp (StoredOp.ofRepoOp op) = .ok op.eraseValue := by
  simp [decodeOp, StoredOp.ofRepoOp, RepoOp.eraseValue]

theorem mapM_decodeOp (ops : List RepoOp) :
    (ops.map StoredOp.ofRepoOp).mapM decodeOp = .ok (ops.map RepoOp.eraseValue) := by
  induction ops with
  | nil => rfl
  | cons op ops ih =>
    rw [List.map_cons, List.mapM_cons, decodeOp_ofRepoOp, ih]
    rfl

/-- A row written by the sequencer decodes, to the event that was broadcast less the
record values. -/
theorem decodeStoredEvent_encode [LawfulDagCbor Blob] {time : String} {input : EventInput}
    {blob : Blob} (h : input.encode time = .ok blob) (seq : Nat) :
    decodeStoredEvent seq input.eventType blob = .ok (input.event seq time).eraseValues := by
  cases input with
  | commit i =>
    have hb := LawfulDagCbor.commit _ _ (mapError_ok.mp h)
    simp only [decodeStoredEvent, EventInput.eventType, if_pos, hb, Except.mapError]
    refine bind_ok.mpr ⟨_, rfl, bind_ok.mpr ⟨_, mapM_decodeOp i.ops, rfl⟩⟩
  | account i =>
    have hb := LawfulDagCbor.account _ _ (mapError_ok.mp h)
    simp [decodeStoredEvent, EventInput.eventType, hb, Except.mapError]
    rfl
  | identity i =>
    have hb := LawfulDagCbor.identity _ _ (mapError_ok.mp h)
    simp [decodeStoredEvent, EventInput.eventType, hb, Except.mapError]
    rfl
  | sync i =>
    have hb := LawfulDagCbor.sync _ _ (mapError_ok.mp h)
    simp [decodeStoredEvent, EventInput.eventType, hb, Except.mapError]
    rfl

end Facts

end Ezpds.Firehose
