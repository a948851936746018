import Ezpds.Spaces.Host

/-!
# The records that a host stores

Every stored record has a valid path and is the encoding of a JSON value, so that its block
decodes to JSON again, and that JSON encodes to the very same block. DAG-CBOR and base64
are not part of the repository: that they read back what they write is assumed.

* `stored_invariant`: the records of every reachable state.
* `decodeValue_stored`: what their blocks decode to.
-/

namespace Ezpds.Spaces

open Library Repo

variable {Cid : Type} [CidText Cid]

def decodeValue (env : SpaceEnv Cid) (bytes : List UInt8) : Except ApiError Json := do
  let ipld ← (decodeRecordBlock env.codec bytes).mapError fun _ =>
    ⟨.internalError, "failed to read space record"⟩
  (recordValueToJson env.codec.base64 ipld).mapError fun _ =>
    ⟨.internalError, "failed to read space record"⟩

omit [CidText Cid] in
/-- What the codecs promise: they read back what they wrote. -/
structure RecordCodec.Lawful (codec : RecordCodec Cid) : Prop where
  base64 : codec.base64.Lawful
  fromSlice : ∀ v bytes, Importable v → codec.toVec v = .ok bytes →
    codec.fromSlice bytes = .ok v

/-- A record as a write leaves it. -/
structure StoredRecord (env : SpaceEnv Cid) (path : RecordPath) (row : SpaceRecordRow) :
    Prop where
  path : validateRecordPath (ofLex path).1 (ofLex path).2 = .ok ()
  encoded : ∃ value : JsonValue, encodeValue env (some value) = .ok row

def RecordsStored (env : SpaceEnv Cid) (db : Db) : Prop :=
  ∀ repo path row, (db.records repo).get? path = some row → StoredRecord env path row

variable {env : SpaceEnv Cid}

theorem encodeValue_ok {value : Option JsonValue} {row : SpaceRecordRow} :
    encodeValue env value = .ok row ↔
      ∃ v ipld cid, value = some v ∧ jsonToRecordValue env.codec.base64 v.json = .ok ipld ∧
        env.codec.toVec ipld = .ok row.value ∧
        env.codec.dagCborBlockCid row.value = .ok cid ∧ row.cid = CidText.toText cid := by
  cases value with
  | none =>
    constructor
    · intro h
      cases h
    · intro h
      obtain ⟨_, _, _, h, _⟩ := h
      cases h
  | some v =>
    unfold encodeValue
    dsimp only
    rw [bind_ok]
    constructor
    · intro h
      obtain ⟨ipld, hIpld, h⟩ := h
      obtain ⟨⟨cid, bytes⟩, hBlock, h⟩ := bind_ok.mp h
      obtain ⟨_, hBytes, hBlock⟩ := bind_ok.mp (mapError_ok.mp hBlock)
      obtain ⟨_, hCid, hBlock⟩ := bind_ok.mp hBlock
      cases hBlock
      cases h
      exact ⟨v, ipld, cid, rfl, mapError_ok.mp hIpld, mapError_ok.mp hBytes, hCid, rfl⟩
    · intro h
      obtain ⟨_, ipld, cid, hv, hIpld, hBytes, hCid, hText⟩ := h
      cases hv
      refine ⟨ipld, mapError_ok.mpr hIpld, bind_ok.mpr ⟨(cid, row.value), ?_, ?_⟩⟩
      · exact mapError_ok.mpr (bind_ok.mpr ⟨row.value, mapError_ok.mpr hBytes,
          bind_ok.mpr ⟨cid, hCid, rfl⟩⟩)
      · rw [pure_ok, ← hText]

/-- A stored block decodes to a JSON value that is stored as the very same row. -/
theorem decodeValue_stored [LawfulCidText Cid] (hCodec : env.codec.Lawful) {value : JsonValue}
    {row : SpaceRecordRow} (h : encodeValue env (some value) = .ok row) :
    ∃ value' : JsonValue, decodeValue env row.value = .ok value'.json ∧
      encodeValue env (some value') = .ok row := by
  obtain ⟨_, ipld, cid, hv, hIpld, hBytes, hCid, hText⟩ := encodeValue_ok.mp h
  cases hv
  have hImportable := importable_of_json value.wellFormed hIpld
  obtain ⟨j, hJson, hWf, hBack⟩ := json_of_importable hCodec.base64 hImportable
  refine ⟨⟨j, hWf⟩, ?_, encodeValue_ok.mpr ⟨_, ipld, cid, rfl, hBack, hBytes, hCid, hText⟩⟩
  have hDecode := hCodec.fromSlice ipld row.value hImportable hBytes
  exact bind_ok.mpr ⟨ipld, mapError_ok.mpr (mapError_ok.mpr hDecode), mapError_ok.mpr hJson⟩

theorem wellFormed_of_decodeValue {bytes : List UInt8} {json : Json}
    (h : decodeValue env bytes = .ok json) : json.WellFormed := by
  obtain ⟨_, _, hJson⟩ := bind_ok.mp h
  exact wellFormed_of_recordValueToJson (mapError_ok.mp hJson)

/-- `decode_value`, whose result is a value that `serde_json` can hold. -/
def decodeJson (env : SpaceEnv Cid) (bytes : List UInt8) : Except ApiError JsonValue :=
  match h : decodeValue env bytes with
  | .ok json => .ok ⟨json, wellFormed_of_decodeValue h⟩
  | .error e => .error e

theorem decodeJson_ok {bytes : List UInt8} {value : JsonValue} :
    decodeJson env bytes = .ok value ↔ decodeValue env bytes = .ok value.json := by
  unfold decodeJson
  split
  · rename_i json h
    constructor
    · intro hValue
      cases hValue
      exact h
    · intro hJson
      have hEq : json = value.json := Except.ok.inj (h.symm.trans hJson)
      subst hEq
      rfl
  · rename_i e h
    constructor
    · intro hValue
      cases hValue
    · intro hJson
      cases h.symm.trans hJson

/-! ## The invariant -/

/-- A write that leaves a row was checked and encoded. -/
theorem stored_of_write {call : WriteCall} {ws : List (Write RecordPath SpaceRecordRow)}
    {us : List Unit} (hChecked : call.ops.mapM (checkOp env) = .ok us)
    (hws : call.ops.mapM (encodeOp env) = .ok ws) {w : Write RecordPath SpaceRecordRow}
    (hw : w ∈ ws) {row : SpaceRecordRow} (hNext : w.next = some row) :
    StoredRecord env w.key row := by
  obtain ⟨op, hop, hEncode⟩ := exists_mem_of_forall₂ (mapM_ok.mp hws) hw
  have hPath : validateRecordPath op.collection op.rkey = .ok () := by
    obtain ⟨_, hCheck⟩ := ok_of_mapM_ok hChecked hop
    obtain ⟨_, hCheck, _⟩ := bind_ok.mp hCheck
    exact mapError_ok.mp hCheck
  by_cases hDelete : op.action = .delete
  · rw [encodeOp_delete hDelete] at hEncode
    cases hEncode
    cases hNext
  · obtain ⟨row', hValue, rfl⟩ := (encodeOp_ok hDelete).mp hEncode
    cases hNext
    obtain ⟨v, _, _, hv, _⟩ := encodeValue_ok.mp hValue
    rw [hv] at hValue
    exact ⟨hPath, v, hValue⟩

theorem stored_commit {call : WriteCall} {lthash : LtHash} {newRev : String}
    {es : List RecordEdit} {db db' : Db} (hStored : RecordsStored env db)
    (h : LandsCommit env call lthash newRev es db db') : RecordsStored env db' := by
  obtain ⟨us, hChecked⟩ := h.checked
  obtain ⟨ws, hws, hes⟩ := h.commits.applied
  intro repo path row hRow
  rw [h.records, committedDb_records] at hRow
  by_cases hRepo : repo = call.repo
  · subst hRepo
    rw [Function.update_self, get?_batch hes] at hRow
    cases hLast : lastWrite path ws with
    | none =>
      rw [hLast] at hRow
      exact hStored _ _ _ hRow
    | some w =>
      rw [hLast] at hRow
      obtain ⟨hMem, hKey⟩ := lastWrite_some hLast
      rw [← hKey]
      exact stored_of_write hChecked hws hMem hRow
  · rw [Function.update_of_ne hRepo] at hRow
    exact hStored _ _ _ hRow

theorem stored_step {host host' : Host} {label : HostLabel}
    (hStored : RecordsStored env host.db) (h : hostStep env host label = some host') :
    RecordsStored env host'.db := by
  rcases hostStep_repos h with hSame | ⟨call, lthash, newRev, es, _, hLands⟩ | ⟨p, hDrops⟩ |
    ⟨cutoff, _, hSweep⟩
  · intro repo
    rw [hSame.records]
    exact hStored repo
  · exact stored_commit hStored hLands
  · intro repo path row hRow
    rw [hDrops.records] at hRow
    by_cases hp : p repo = true
    · rw [if_pos hp] at hRow
      cases hRow
    · rw [if_neg hp] at hRow
      exact hStored _ _ _ hRow
  · rw [hSweep]
    exact hStored

/-- Every record that a host holds was checked and encoded by a write. -/
theorem stored_invariant {accounts : String → Option AccountLifecycle}
    {labels : List HostLabel} {host : Host}
    (h : run (hostStep env) (newHost accounts) labels = some host) :
    RecordsStored env host.db := by
  refine @run_invariant _ _ _ (fun host => RecordsStored env host.db)
    (fun _ _ _ hs hStep => stored_step hs hStep) _ _ _ ?_ h
  intro repo path row hRow
  cases hRow

end Ezpds.Spaces
