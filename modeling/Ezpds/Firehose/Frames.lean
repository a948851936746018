import Ezpds.Data.Ipld
import Ezpds.Firehose.Events

/-!
# Wire frames

`send_event` turns an event into the bytes of a WebSocket message: a DAG-CBOR header and a
DAG-CBOR body, whose CIDs are links. Live events and events that are rebuilt from the log go
through the same encoder, so what the log keeps has to be all that a frame needs, and what the
sequencer accepts has to encode.

* `commitBody_isOk_iff`: a commit encodes exactly when the sequencer's check accepts it.
* `encodeFrame_eraseValues`: the record values are not on the wire.
* `live_and_replayed_frames_agree`: the two together, for every kind of event.
-/

namespace Ezpds.Firehose

open Library

variable {Cid : Type}

/-! ## Bodies -/

/-- A member that is left out when it is `None`. -/
def skipNone (key : String) (value : Option (Ipld Cid)) : List (String × Ipld Cid) :=
  value.elim [] fun v => [(key, v)]

/-- A member that is null when it is `None`. -/
def orNull (value : Option (Ipld Cid)) : Ipld Cid :=
  value.getD .null

def frameHeader (op : Int) (t : Option String) : Ipld Cid :=
  .map (("op", .integer op) :: skipNone "t" (t.map .string))

structure RepoOpWire (Cid : Type) where
  action : String
  path : String
  cid : Option Cid
  prev : Option Cid

def RepoOpWire.body (op : RepoOpWire Cid) : Ipld Cid :=
  .map [("action", .string op.action), ("cid", orNull (op.cid.map .link)),
    ("path", .string op.path), ("prev", orNull (op.prev.map .link))]

/-- `rebase` and `tooBig` are kept for the wire and always false, `blobs` is always empty. -/
structure CommitBody (Cid : Type) where
  seq : Nat
  repo : String
  commit : Cid
  rev : String
  since : Option String
  prevData : Option Cid
  blocks : List UInt8
  ops : List (RepoOpWire Cid)
  time : String

def CommitBody.body (c : CommitBody Cid) : Ipld Cid :=
  .map [("blobs", .list []), ("blocks", .bytes c.blocks), ("commit", .link c.commit),
    ("ops", .list (c.ops.map RepoOpWire.body)), ("prevData", orNull (c.prevData.map .link)),
    ("rebase", .bool false), ("repo", .string c.repo), ("rev", .string c.rev),
    ("seq", .integer c.seq), ("since", orNull (c.since.map .string)), ("time", .string c.time),
    ("tooBig", .bool false)]

def AccountEvent.body (a : AccountEvent) : Ipld Cid :=
  .map ([("active", .bool a.active), ("did", .string a.did), ("seq", .integer a.seq)] ++
    skipNone "status" (a.status.map .string) ++ [("time", .string a.time)])

def IdentityEvent.body (i : IdentityEvent) : Ipld Cid :=
  .map ([("did", .string i.did)] ++ skipNone "handle" (i.handle.map .string) ++
    [("seq", .integer i.seq), ("time", .string i.time)])

def SyncEvent.body (s : SyncEvent) : Ipld Cid :=
  .map [("blocks", .bytes s.blocks), ("did", .string s.did), ("rev", .string s.rev),
    ("seq", .integer s.seq), ("time", .string s.time)]

/-! ## CIDs on the wire -/

section

variable (Cid) [CidText Cid]

def wireCid (what cid : String) : Except String Cid :=
  (CidText.tryFrom cid).mapError fun e => "invalid " ++ what ++ " " ++ cid.quote ++ ": " ++ e

/-- `.map(..).transpose()`. -/
def wireOptionalCid (what : String) : Option String → Except String (Option Cid)
  | none => .ok none
  | some cid => do
    let cid ← wireCid Cid what cid
    pure (some cid)

def repoOpWire (op : RepoOp) : Except String (RepoOpWire Cid) := do
  let cid ← wireOptionalCid Cid "op CID" op.cid
  let prev ← wireOptionalCid Cid "op prev CID" op.prev
  pure { action := op.action.asStr, path := op.path, cid, prev }

def commitBody (commit : CommitEvent) : Except String (CommitBody Cid) := do
  let commitCid ← wireCid Cid "commit CID" commit.commit
  let prevData ← wireOptionalCid Cid "prevData CID" commit.prevData
  let ops ← commit.ops.mapM (repoOpWire Cid)
  pure
    { seq := commit.seq, repo := commit.repo, commit := commitCid, rev := commit.rev,
      since := commit.since, prevData, blocks := commit.blocks, ops, time := commit.time }

end

/-! ## Frames -/

section

-- `serde_ipld_dagcbor::to_vec`, which does not fail on values without floats
variable [CidText Cid] (toVec : Ipld Cid → List UInt8)

/-- A header and a body, one after the other. -/
def frame (op : Int) (t : Option String) (body : Ipld Cid) : List UInt8 :=
  toVec (frameHeader op t) ++ toVec body

def encodeCommitFrame (commit : CommitEvent) : Except String (List UInt8) := do
  let body ← commitBody Cid commit
  pure (frame toVec 1 (some "#commit") body.body)

def encodeAccountFrame (account : AccountEvent) : List UInt8 :=
  frame toVec 1 (some "#account") account.body

def encodeIdentityFrame (identity : IdentityEvent) : List UInt8 :=
  frame toVec 1 (some "#identity") identity.body

def encodeSyncFrame (sync : SyncEvent) : List UInt8 :=
  frame toVec 1 (some "#sync") sync.body

/-- The message of `send_event`. -/
def encodeFrame : FirehoseEvent → Except String (List UInt8)
  | .commit commit => encodeCommitFrame toVec commit
  | .account account => .ok (encodeAccountFrame toVec account)
  | .identity identity => .ok (encodeIdentityFrame toVec identity)
  | .sync sync => .ok (encodeSyncFrame toVec sync)

end

/-! ## The check and the encoder -/

section

variable [CidText Cid]

theorem checkCid_iff {what cid : String} :
    checkCid Cid what cid = .ok () ↔ ∃ c, wireCid Cid what cid = .ok c := by
  unfold checkCid wireCid
  cases (CidText.tryFrom cid : Except String Cid) with
  | ok c => simp [Except.mapError]
  | error e => simp [Except.mapError]

theorem checkOptionalCid_iff {what : String} {cid : Option String} :
    checkOptionalCid Cid what cid = .ok () ↔ ∃ c, wireOptionalCid Cid what cid = .ok c := by
  cases cid with
  | none => simp [checkOptionalCid, wireOptionalCid]
  | some cid =>
    simp only [checkOptionalCid, wireOptionalCid, checkCid_iff]
    constructor
    · rintro ⟨c, hc⟩
      exact ⟨some c, bind_ok.mpr ⟨c, hc, rfl⟩⟩
    · rintro ⟨_, h⟩
      obtain ⟨c, hc, -⟩ := bind_ok.mp h
      exact ⟨c, hc⟩

theorem checkOp_iff {op : RepoOp} :
    (do checkOptionalCid Cid "op CID" op.cid
        checkOptionalCid Cid "op prev CID" op.prev) = .ok () ↔
      ∃ wire, repoOpWire Cid op = .ok wire := by
  rw [bind_ok]
  constructor
  · rintro ⟨⟨⟩, hCid, hPrev⟩
    obtain ⟨cid, hCid⟩ := checkOptionalCid_iff.mp hCid
    obtain ⟨prev, hPrev⟩ := checkOptionalCid_iff.mp hPrev
    exact ⟨_, bind_ok.mpr ⟨cid, hCid, bind_ok.mpr ⟨prev, hPrev, rfl⟩⟩⟩
  · rintro ⟨wire, h⟩
    obtain ⟨cid, hCid, h⟩ := bind_ok.mp h
    obtain ⟨prev, hPrev, -⟩ := bind_ok.mp h
    exact ⟨(), checkOptionalCid_iff.mpr ⟨cid, hCid⟩, checkOptionalCid_iff.mpr ⟨prev, hPrev⟩⟩

/-- The sequencer's check accepts a commit exactly when its frame has a body. -/
theorem commitBody_isOk_iff {seq : Nat} {time : String} {input : CommitInput}
    {commit : CommitEvent} (hEvent : EventInput.event seq time (.commit input) = .commit commit) :
    validateCommitCids Cid input = .ok () ↔ ∃ body, commitBody Cid commit = .ok body := by
  cases hEvent
  simp only [validateCommitCids, commitBody]
  rw [bind_ok]
  constructor
  · rintro ⟨⟨⟩, hCommit, h⟩
    obtain ⟨⟨⟩, hPrevData, hOps⟩ := bind_ok.mp h
    obtain ⟨c, hc⟩ := checkCid_iff.mp hCommit
    obtain ⟨p, hp⟩ := checkOptionalCid_iff.mp hPrevData
    obtain ⟨ops, hOps⟩ := exists_mapM_ok fun op hOp => checkOp_iff.mp (forM_ok.mp hOps op hOp)
    exact ⟨_, bind_ok.mpr ⟨c, hc, bind_ok.mpr ⟨p, hp, bind_ok.mpr ⟨ops, hOps, rfl⟩⟩⟩⟩
  · rintro ⟨body, h⟩
    obtain ⟨c, hc, h⟩ := bind_ok.mp h
    obtain ⟨p, hp, h⟩ := bind_ok.mp h
    obtain ⟨ops, hOps, -⟩ := bind_ok.mp h
    refine ⟨(), checkCid_iff.mpr ⟨c, hc⟩, bind_ok.mpr ⟨(), checkOptionalCid_iff.mpr ⟨p, hp⟩, ?_⟩⟩
    exact forM_ok.mpr fun op hOp => checkOp_iff.mpr (ok_of_mapM_ok hOps hOp)

theorem repoOpWire_eraseValue (op : RepoOp) :
    repoOpWire Cid op.eraseValue = repoOpWire Cid op := rfl

theorem mapM_repoOpWire_eraseValue (ops : List RepoOp) :
    (ops.map RepoOp.eraseValue).mapM (repoOpWire Cid) = ops.mapM (repoOpWire Cid) := by
  induction ops with
  | nil => rfl
  | cons op ops ih => rw [List.map_cons, List.mapM_cons, List.mapM_cons, ih, repoOpWire_eraseValue]

variable {toVec : Ipld Cid → List UInt8}

/-- The record values are not on the wire. -/
theorem encodeFrame_eraseValues (event : FirehoseEvent) :
    encodeFrame toVec event.eraseValues = encodeFrame toVec event := by
  cases event with
  | commit commit =>
    simp only [FirehoseEvent.eraseValues, encodeFrame, encodeCommitFrame, commitBody,
      mapM_repoOpWire_eraseValue]
  | account account => rfl
  | identity identity => rfl
  | sync sync => rfl

end

/-- The sequencer's check accepts a commit exactly when the frame of its event encodes, and an
event of any kind that is read back from the payload that was stored for it has the frame that
was sent live. -/
theorem live_and_replayed_frames_agree {Blob : Type} [CidText Cid] [DagCbor Blob]
    [LawfulDagCbor Blob] (toVec : Ipld Cid → List UInt8) (seq : Nat) (time : String) :
    (∀ input : CommitInput, validateCommitCids Cid input = .ok () ↔
        ∃ bytes, encodeFrame toVec (EventInput.event seq time (.commit input)) = .ok bytes) ∧
      ∀ (input : EventInput) (blob : Blob), input.encode time = .ok blob →
        ∃ event, decodeStoredEvent seq input.eventType blob = .ok event ∧
          encodeFrame toVec event = encodeFrame toVec (input.event seq time) := by
  refine ⟨?_, ?_⟩
  · intro input
    rw [commitBody_isOk_iff rfl]
    constructor
    · rintro ⟨body, hBody⟩
      exact ⟨_, bind_ok.mpr ⟨body, hBody, rfl⟩⟩
    · rintro ⟨bytes, h⟩
      obtain ⟨body, hBody, -⟩ := bind_ok.mp h
      exact ⟨body, hBody⟩
  · intro input blob hEncode
    exact ⟨_, decodeStoredEvent_encode hEncode seq, encodeFrame_eraseValues _⟩

/-! ## One frame -/

/-- The encoder on the header and the body of one `#identity` frame. -/
def identityToVec : Ipld String → List UInt8
  | .map [("op", .integer 1), ("t", .string "#identity")] =>
    [162, 97, 116, 105, 35, 105, 100, 101, 110, 116, 105, 116, 121, 98, 111, 112, 1]
  | .map [("did", .string "did:plc:a"), ("seq", .integer 1), ("time", .string "t")] =>
    [163, 99, 100, 105, 100, 105, 100, 105, 100, 58, 112, 108, 99, 58, 97, 99, 115, 101, 113, 1,
      100, 116, 105, 109, 101, 97, 116]
  | _ => []

theorem identity_frames_agree : ∃ event,
    decodeStoredEvent 1 "identity" (Stored.identity ⟨"did:plc:a", "t", none⟩) = .ok event ∧
      encodeFrame identityToVec event = .ok
        [162, 97, 116, 105, 35, 105, 100, 101, 110, 116, 105, 116, 121, 98, 111, 112, 1, 163, 99,
          100, 105, 100, 105, 100, 105, 100, 58, 112, 108, 99, 58, 97, 99, 115, 101, 113, 1, 100,
          116, 105, 109, 101, 97, 116] := by
  have hAgree := @live_and_replayed_frames_agree String Stored _ _ _ identityToVec 1 "t"
  obtain ⟨event, hDecode, hFrame⟩ := hAgree.2 (.identity ⟨"did:plc:a", none⟩) _ rfl
  refine ⟨event, hDecode, hFrame.trans ?_⟩
  rfl

end Ezpds.Firehose
