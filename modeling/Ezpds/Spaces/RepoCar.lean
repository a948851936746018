import Ezpds.Library.SortedSet
import Ezpds.Spaces.RepoOps
import Ezpds.Spaces.SpaceCar

/-!
# Exporting a space repository and importing it again

`getRepo` streams a repository as a CAR: a signed commit, an index of every record, and
one frame a record. The head, the index and each record are read on their own, from the
tables of that moment. `importRepo` takes the CAR apart again and encodes each record anew,
which has to give the CID under which the CAR has it.

* `importOp_ok`: a record that survives the way through JSON with its CID.
* `repoCar_roundTrip`: a full export imports as the very records of the repository.
* `importSpaceCar_rootsOnly`: an export without values does not import.
-/

namespace Ezpds.Spaces

open Library Repo

variable {Cid : Type} [CidText Cid]

/-! ## The export -/

/-- A `getRepo` request, with the outcome of its authentication, of its reads and of the
loading of the signing key; `recordRead i` is the read of the `i`th record. -/
structure GetRepoCall where
  space : SpaceRef
  repo : String
  excludeValues : Bool
  authenticate : Except ApiError Unit
  headRead : Bool
  indexRead : Bool
  headReread : Bool
  signingKey : Except ApiError Unit
  recordRead : Nat → Bool

def GetRepoCall.id (call : GetRepoCall) : RepoId :=
  ⟨call.space.uri, call.repo⟩

/-- The two root blocks as DAG-CBOR. The signature, the mac and the key material of a commit
are left to `encodeCommitBlock`. -/
structure RootCodec (Cid : Type) where
  encodeCommitBlock : SignedCommit → List UInt8
  encodeIndexBlock : List (String × Cid) → List UInt8

/-- A response: the roots with their blocks, and the entries whose records follow. -/
structure CarStream (Cid : Type) where
  commit : Cid × List UInt8
  index : Cid × List UInt8
  entries : List (String × Cid)
  deriving DecidableEq

/-- Shortest first, then bytewise. -/
def canonicalKey (path : String) : Lex (Nat × String) :=
  toLex ((strBytes path).length, path)

def exportFailed : ApiError :=
  ⟨.internalError, "failed to export space repo"⟩

def exportEntry (row : String × String × String) : Except ApiError (String × Cid) := do
  let cid ← (CidText.tryFrom row.2.2).mapError fun _ => exportFailed
  return (recordKey row.1 row.2.1, cid)

def exportEntries (read : Bool) (db : Db) (repo : RepoId) :
    Except ApiError (List (String × Cid)) := do
  ensure read exportFailed
  let entries ← (listRecordIndex db repo).mapM exportEntry
  return entries.mergeSort fun a b => canonicalKey a.1 ≤ canonicalKey b.1

def hashRoot (env : SpaceEnv Cid) (bytes : List UInt8) : Except ApiError (Cid × List UInt8) :=
  ((env.codec.dagCborBlockCid bytes).mapError fun _ => exportFailed).map fun cid => (cid, bytes)

/-- The head is read from `db₀`, the index from `db₁`, and the head again from `db₂`. -/
def spaceGetRepo (env : SpaceEnv Cid) (roots : RootCodec Cid) (call : GetRepoCall)
    (db₀ db₁ db₂ : Db) : Except ApiError (CarStream Cid) := do
  call.authenticate
  let repo ← loadRepo call.headRead db₀ call.id
  let entries ← exportEntries call.indexRead db₁ call.id
  let head ← loadRepo call.headReread db₂ call.id
  ensure (head.rev = repo.rev)
    ⟨.conflict, "space repo was modified concurrently; retry against the current head"⟩
  let commit ← signCurrentCommit env.crypto call.signingKey repo
  let commitBlock ← hashRoot env (roots.encodeCommitBlock commit)
  let indexBlock ← hashRoot env (roots.encodeIndexBlock entries)
  return ⟨commitBlock, indexBlock, if call.excludeValues then [] else entries⟩

/-- The block of one entry, which has to be the record that the index read. -/
def streamRecord (call : GetRepoCall) (i : Nat) (db : Db) (entry : String × Cid) :
    Except String (Cid × List UInt8) :=
  match splitOnce '/' entry.1.toList with
  | none => .error "index path shape"
  | some (collection, rkey) => do
    check (call.recordRead i) "failed to read space record"
    match getRecord db call.id (toLex (String.ofList collection, String.ofList rkey)) with
    | some row =>
      if row.cid = CidText.toText entry.2 then return (entry.2, row.value)
      else throw "record changed during space repo export"
    | none => throw "record changed during space repo export"

/-- The record blocks of a stream that ends well. The `i`th record is read from `dbs i`. -/
def streamRecords (call : GetRepoCall) (dbs : Nat → Db) (i : Nat) :
    List (String × Cid) → Except String (List (Cid × List UInt8))
  | [] => .ok []
  | entry :: entries => do
    let block ← streamRecord call i (dbs i) entry
    let blocks ← streamRecords call dbs (i + 1) entries
    return block :: blocks

omit [CidText Cid] in
def carBytes (cids : CarCodec Cid) (stream : CarStream Cid) (records : List (Cid × List UInt8)) :
    List UInt8 :=
  carV1HeaderRoots cids [stream.commit.1, stream.index.1] ++
    carFrames cids (stream.commit :: stream.index :: records)

/-! ## The import -/

/-- One record of an import: it has to survive the way through JSON with its CID. -/
def importOp [DecidableEq Cid] (env : SpaceEnv Cid) (record : SpaceCarRecord Cid) :
    Except ApiError SpaceWriteOp := do
  let value ← decodeJson env record.block
  let ipld ← (jsonToRecordValue env.codec.base64 value.json).mapError fun e =>
    ⟨.invalidRequest, recordErrorText e⟩
  let (cid, _) ← (encodeRecordBlock env.codec ipld).mapError fun e =>
    ⟨.invalidRequest, recordErrorText e⟩
  ensure (cid = record.cid)
    ⟨.invalidRequest, "space repo CAR contains a record that does not re-encode to its own CID"⟩
  return ⟨.put, record.collection, record.rkey, some value⟩

/-! ## What an export holds -/

/-- What the formats promise: blocks hash to their CIDs, and an index in canonical order
decodes to the map of its entries. -/
structure CarLaws (env : SpaceEnv Cid) (cids : CarCodec Cid) (roots : RootCodec Cid) :
    Prop where
  records : env.codec.Lawful
  crates : cids.Lawful
  blockCid : ∀ bytes cid, env.codec.dagCborBlockCid bytes = .ok cid → IsBlockCid cids cid bytes
  index : ∀ entries : List (String × Cid),
    entries.Pairwise (fun a b => canonicalKey a.1 < canonicalKey b.1) →
      ∃ es, env.codec.fromSlice (roots.encodeIndexBlock entries) = .ok (.map es) ∧
        KeySorted es ∧ es.Perm (entries.map fun e => (e.1, .link e.2))

variable {env : SpaceEnv Cid} {cids : CarCodec Cid} {roots : RootCodec Cid}
  {call : GetRepoCall} {stream : CarStream Cid} {db db₀ db₂ : Db}

/-- A record and the index entry that it is exported under. -/
structure Indexes (e : RecordPath × SpaceRecordRow) (entry : String × Cid) : Prop where
  key : entry.1 = recordKey (ofLex e.1).1 (ofLex e.1).2
  cid : e.2.cid = CidText.toText entry.2

/-- A record's row carries the CID of its block. -/
theorem StoredRecord.cid [LawfulCidText Cid] {path : RecordPath} {row : SpaceRecordRow}
    (h : StoredRecord env path row) {cid : Cid} (hCid : row.cid = CidText.toText cid) :
    env.codec.dagCborBlockCid row.value = .ok cid := by
  obtain ⟨value, hEncoded⟩ := h.encoded
  obtain ⟨_, _, cid', _, _, _, hBlock, hText⟩ := encodeValue_ok.mp hEncoded
  rw [hBlock, toText_injective (hText.symm.trans hCid)]

theorem exportEntry_stored [LawfulCidText Cid] {e : RecordPath × SpaceRecordRow}
    {entry : String × Cid} (hStored : StoredRecord env e.1 e.2)
    (h : exportEntry ((ofLex e.1).1, (ofLex e.1).2, e.2.cid) = .ok entry) : Indexes e entry := by
  obtain ⟨cid, hCid, h⟩ := bind_ok.mp h
  cases h
  obtain ⟨value, hEncoded⟩ := hStored.encoded
  obtain ⟨_, _, cid', _, _, _, _, hText⟩ := encodeValue_ok.mp hEncoded
  have hParsed := mapError_ok.mp hCid
  dsimp only at hParsed
  rw [hText, LawfulCidText.tryFrom_toText] at hParsed
  cases hParsed
  exact ⟨rfl, hText⟩

/-- The entries are those of the stored records, in canonical order. -/
theorem exportEntries_stored [LawfulCidText Cid] (hStored : RecordsStored env db)
    {read : Bool} {repo : RepoId} {entries : List (String × Cid)}
    (h : exportEntries read db repo = .ok entries) :
    ∃ es : List (String × Cid), entries.Perm es ∧
      List.Forall₂ Indexes (db.records repo).entries es ∧
      entries.Pairwise fun a b => canonicalKey a.1 ≤ canonicalKey b.1 := by
  obtain ⟨_, h⟩ := ensure_bind_ok.mp h
  obtain ⟨es, hes, h⟩ := bind_ok.mp h
  cases h
  refine ⟨es, List.mergeSort_perm _ _, ?_, ?_⟩
  · rw [listRecordIndex, mapM_ok, List.forall₂_map_left_iff] at hes
    have hRows := List.forall₂_iff_zip.mp hes
    refine List.forall₂_iff_zip.mpr ⟨hRows.1, ?_⟩
    intro e entry hZip
    have hRow : (db.records repo).get? e.1 = some e.2 :=
      assocGet_of_mem (db.records repo).sorted (List.of_mem_zip hZip).1
    exact exportEntry_stored (hStored _ _ _ hRow) (hRows.2 hZip)
  · exact pairwise_sortBy (fun e : String × Cid => canonicalKey e.1) es

omit [CidText Cid] in
/-- The keys of an index are distinct, since the paths of the records are. -/
theorem nodup_keys [CidText Cid] (hStored : RecordsStored env db) {repo : RepoId}
    {es : List (String × Cid)} (h : List.Forall₂ Indexes (db.records repo).entries es) :
    (es.map Prod.fst).Nodup := by
  have hKeys : es.map Prod.fst =
      (db.records repo).entries.map fun e => recordKey (ofLex e.1).1 (ofLex e.1).2 := by
    generalize (db.records repo).entries = l at h
    induction h with
    | nil => rfl
    | cons hHead _ ih => rw [List.map_cons, List.map_cons, hHead.key, ih]
  have hSlash : ∀ e ∈ (db.records repo).entries, '/' ∉ (ofLex e.1).1.toList := by
    intro e he
    have hRow := hStored repo e.1 e.2 (assocGet_of_mem (db.records repo).sorted he)
    exact slash_not_mem_of_validateCollection (validateRecordPath_ok hRow.path).1
  rw [hKeys]
  apply List.pairwise_map.mpr
  apply (List.pairwise_map.mp (db.records repo).sorted).imp_of_mem
  intro a b ha hb hLt hKey
  obtain ⟨hCollection, hRkey⟩ := recordKey_inj (hSlash a ha) (hSlash b hb) hKey
  have hPath : a.1 = b.1 := Prod.ext hCollection hRkey
  rw [hPath] at hLt
  exact lt_irrefl _ hLt

/-- The index is in strict canonical order, so that it decodes. -/
theorem index_decodes [LawfulCidText Cid] (laws : CarLaws env cids roots)
    (hStored : RecordsStored env db) {read : Bool} {repo : RepoId}
    {entries : List (String × Cid)} (h : exportEntries read db repo = .ok entries) :
    ∃ es, env.codec.fromSlice (roots.encodeIndexBlock entries) = .ok (.map es) ∧ KeySorted es ∧
      es.Perm (entries.map fun e => (e.1, .link e.2)) := by
  obtain ⟨es, hPerm, hIndexes, hSorted⟩ := exportEntries_stored hStored h
  have hNodup : (entries.map Prod.fst).Nodup :=
    (hPerm.map Prod.fst).nodup_iff.mpr (nodup_keys hStored hIndexes)
  apply laws.index
  refine (hSorted.and (List.pairwise_map.mp hNodup)).imp ?_
  intro a b hab
  refine lt_of_le_of_ne hab.1 ?_
  intro hKey
  exact hab.2 (congrArg (fun key => (ofLex key).2) hKey)

/-! ## What a stream holds -/

variable {dbs : Nat → Db} {blocks : List (Cid × List UInt8)}

theorem streamRecord_ok [LawfulCidText Cid] {i : Nat} {entry : String × Cid}
    {block : Cid × List UInt8} (hStored : RecordsStored env db)
    (h : streamRecord call i db entry = .ok block) :
    block.1 = entry.2 ∧ env.codec.dagCborBlockCid block.2 = .ok block.1 := by
  unfold streamRecord at h
  split at h
  · cases h
  · obtain ⟨_, _, h⟩ := bind_ok.mp h
    split at h
    · rename_i row hRow
      split at h
      · rename_i hCid
        cases h
        exact ⟨rfl, (hStored _ _ _ hRow).cid hCid⟩
      · cases h
    · cases h

theorem streamRecords_ok [LawfulCidText Cid] (hStored : ∀ i, RecordsStored env (dbs i))
    {i : Nat} {entries : List (String × Cid)}
    (h : streamRecords call dbs i entries = .ok blocks) :
    List.Forall₂ (fun entry block => block.1 = entry.2 ∧
      env.codec.dagCborBlockCid block.2 = .ok block.1) entries blocks := by
  induction entries generalizing i blocks with
  | nil =>
    cases h
    exact .nil
  | cons entry entries ih =>
    obtain ⟨block, hBlock, h⟩ := bind_ok.mp h
    obtain ⟨blocks, hBlocks, h⟩ := bind_ok.mp h
    cases h
    exact .cons (streamRecord_ok (hStored i) hBlock) (ih hBlocks)

theorem spaceGetRepo_ok (h : spaceGetRepo env roots call db₀ db db₂ = .ok stream) :
    ∃ entries, exportEntries call.indexRead db call.id = .ok entries ∧
      stream.index.2 = roots.encodeIndexBlock entries ∧
      stream.entries = (if call.excludeValues then [] else entries) ∧
      env.codec.dagCborBlockCid stream.commit.2 = .ok stream.commit.1 ∧
      env.codec.dagCborBlockCid stream.index.2 = .ok stream.index.1 := by
  obtain ⟨_, _, h⟩ := bind_ok.mp h
  obtain ⟨repo, _, h⟩ := bind_ok.mp h
  obtain ⟨entries, hEntries, h⟩ := bind_ok.mp h
  obtain ⟨head, _, h⟩ := bind_ok.mp h
  obtain ⟨_, h⟩ := ensure_bind_ok.mp h
  obtain ⟨commit, _, h⟩ := bind_ok.mp h
  obtain ⟨commitBlock, hCommit, h⟩ := bind_ok.mp h
  obtain ⟨indexBlock, hIndex, h⟩ := bind_ok.mp h
  cases h
  have hRoot : ∀ {bytes : List UInt8} {block : Cid × List UInt8},
      hashRoot env bytes = .ok block →
        block.2 = bytes ∧ env.codec.dagCborBlockCid block.2 = .ok block.1 := by
    intro bytes block hBlock
    unfold hashRoot at hBlock
    cases hCid : env.codec.dagCborBlockCid bytes with
    | error e =>
      rw [hCid] at hBlock
      cases hBlock
    | ok cid =>
      rw [hCid] at hBlock
      cases hBlock
      exact ⟨rfl, hCid⟩
  exact ⟨entries, hEntries, (hRoot hIndex).1, rfl, (hRoot hCommit).2, (hRoot hIndex).2⟩

/-! ## The round trip -/

/-- A database that a host reaches: every record went through `apply_space_writes`. -/
def Reached (env : SpaceEnv Cid) (db : Db) : Prop :=
  ∃ accounts labels host, run (hostStep env) (newHost accounts) labels = some host ∧ host.db = db

theorem Reached.stored (h : Reached env db) : RecordsStored env db := by
  obtain ⟨_, _, host, hRun, rfl⟩ := h
  exact stored_invariant hRun

theorem Reached.digested (h : Reached env db) : Digested env.crypto db := by
  obtain ⟨_, _, host, hRun, rfl⟩ := h
  exact digested_run hRun

/-- The blocks with one CID are one block. -/
def NoCollision (env : SpaceEnv Cid) (blocks : List (List UInt8)) : Prop :=
  ∀ a ∈ blocks, ∀ b ∈ blocks, env.codec.dagCborBlockCid a = env.codec.dagCborBlockCid b → a = b

/-- The blocks that an export is made of: the roots, the streamed records, and the records
that the index was read from. -/
def exportBlocks (stream : CarStream Cid) (blocks : List (Cid × List UInt8)) (db : Db)
    (repo : RepoId) : List (List UInt8) :=
  stream.commit.2 :: stream.index.2 ::
    (blocks.map Prod.snd ++ (db.records repo).values.map fun row => row.value)

/-- An import writes the record back: its value is the one of the block, and encodes to
the row of the block. -/
structure Reencodes (env : SpaceEnv Cid) (record : SpaceCarRecord Cid) (op : SpaceWriteOp) :
    Prop where
  put : ∃ value, op = ⟨.put, record.collection, record.rkey, some value⟩ ∧
    decodeValue env record.block = .ok value.json
  row : encodeValue env op.value = .ok record.row

section Import

variable [DecidableEq Cid] {record : SpaceCarRecord Cid} {op : SpaceWriteOp}

theorem importOp_ok :
    importOp env record = .ok op ↔ ∃ value ipld bytes,
      decodeValue env record.block = .ok value.json ∧
        jsonToRecordValue env.codec.base64 value.json = .ok ipld ∧
        env.codec.toVec ipld = .ok bytes ∧ env.codec.dagCborBlockCid bytes = .ok record.cid ∧
        op = ⟨.put, record.collection, record.rkey, some value⟩ := by
  unfold importOp
  rw [bind_ok]
  constructor
  · intro h
    obtain ⟨value, hValue, h⟩ := h
    obtain ⟨ipld, hIpld, h⟩ := bind_ok.mp h
    obtain ⟨⟨cid, bytes⟩, hBlock, h⟩ := bind_ok.mp h
    obtain ⟨hCid, h⟩ := ensure_bind_ok.mp h
    cases h
    obtain ⟨_, hBytes, hBlock⟩ := bind_ok.mp (mapError_ok.mp hBlock)
    obtain ⟨_, hHash, hBlock⟩ := bind_ok.mp hBlock
    cases hBlock
    have hEq : cid = record.cid := of_decide_eq_true hCid
    rw [hEq] at hHash
    exact ⟨value, ipld, bytes, decodeJson_ok.mp hValue, mapError_ok.mp hIpld,
      mapError_ok.mp hBytes, hHash, rfl⟩
  · intro h
    obtain ⟨value, ipld, bytes, hValue, hIpld, hBytes, hHash, rfl⟩ := h
    refine ⟨value, decodeJson_ok.mpr hValue, bind_ok.mpr ⟨ipld, mapError_ok.mpr hIpld,
      bind_ok.mpr ⟨(record.cid, bytes), ?_, ensure_bind_ok.mpr ⟨decide_eq_true rfl, rfl⟩⟩⟩⟩
    exact mapError_ok.mpr (bind_ok.mpr ⟨bytes, mapError_ok.mpr hBytes,
      bind_ok.mpr ⟨record.cid, hHash, rfl⟩⟩)

/-- The record of a stored row passes the check, and is written back as that row. -/
theorem importOp_stored [LawfulCidText Cid] (hCodec : env.codec.Lawful)
    (h : StoredRecord env record.path record.row) :
    ∃ op, importOp env record = .ok op ∧ Reencodes env record op := by
  obtain ⟨value, hEncoded⟩ := h.encoded
  obtain ⟨value', hDecode, hBack⟩ := decodeValue_stored hCodec hEncoded
  obtain ⟨_, ipld, cid, hv, hIpld, hBytes, hHash, hText⟩ := encodeValue_ok.mp hBack
  cases hv
  have hCid : record.cid = cid := toText_injective hText
  rw [← hCid] at hHash
  exact ⟨_, importOp_ok.mpr ⟨value', ipld, _, hDecode, hIpld, hBytes, hHash, rfl⟩,
    ⟨value', rfl, hDecode⟩, hBack⟩

end Import

theorem carHash_eq {crypto : SpaceCrypto} {records : List (SpaceCarRecord Cid)} :
    carHash crypto records =
      (records.map fun record => elementOf crypto record.path record.row).sum := by
  have hFold : ∀ (records : List (SpaceCarRecord Cid)) (h : LtHash),
      records.foldl (fun h record => LtHash.add crypto h
        (formatSetHashElement record.collection record.rkey (CidText.toText record.cid))) h =
          h + (records.map fun record => elementOf crypto record.path record.row).sum := by
    intro records
    induction records with
    | nil => simp
    | cons record records ih =>
      intro h
      rw [List.foldl_cons, ih, LtHash.add_eq, List.map_cons, List.sum_cons, add_assoc]
      rfl
  rw [carHash, hFold, LtHash.new_eq_zero, zero_add]

section RoundTrip

variable [LawfulCidText Cid] [DecidableEq Cid]

omit [DecidableEq Cid] in
/-- An index entry whose record was streamed: the record is the stored one. -/
theorem exists_streamed (hStored : RecordsStored env db)
    (hHash : NoCollision env (exportBlocks stream blocks db call.id))
    {entries es : List (String × Cid)} (hPerm : entries.Perm es)
    (hIndexes : List.Forall₂ Indexes (db.records call.id).entries es)
    (hBlocks : List.Forall₂ (fun entry block => block.1 = entry.2 ∧
      env.codec.dagCborBlockCid block.2 = .ok block.1) entries blocks)
    {entry : String × Cid} (hEntry : entry ∈ entries) :
    ∃ record : SpaceCarRecord Cid, Names (entry.1, .link entry.2) record ∧
      (record.cid, record.block) ∈ blocks ∧
      (record.path, record.row) ∈ (db.records call.id).entries := by
  obtain ⟨e, he, hIndex⟩ := exists_mem_of_forall₂ hIndexes (hPerm.mem_iff.mp hEntry)
  obtain ⟨block, hBlock, hCid, hBlockHash⟩ := exists_mem_of_forall₂ hBlocks.flip hEntry
  have hRow := hStored call.id e.1 e.2 (assocGet_of_mem (db.records call.id).sorted he)
  have hRowHash := hRow.cid hIndex.cid
  have hValue : block.2 = e.2.value := by
    apply hHash
    · apply List.mem_cons_of_mem _ (List.mem_cons_of_mem _ (List.mem_append_left _ _))
      exact List.mem_map_of_mem hBlock
    · apply List.mem_cons_of_mem _ (List.mem_cons_of_mem _ (List.mem_append_right _ _))
      exact List.mem_map_of_mem (List.mem_map_of_mem he)
    · rw [hBlockHash, hRowHash, hCid]
  obtain ⟨hCollection, hRkey⟩ := nonempty_of_validateRecordPath hRow.path
  obtain ⟨hValid, hSlash⟩ := validateRecordPath_ok hRow.path
  have hStoredRow : (⟨CidText.toText entry.2, block.2⟩ : SpaceRecordRow) = e.2 := by
    rw [← hIndex.cid, hValue]
  refine ⟨⟨(ofLex e.1).1, (ofLex e.1).2, entry.2, block.2⟩, ⟨?_, ?_, ?_⟩, ?_, ?_⟩
  · rw [hIndex.key]
  · exact ⟨slash_not_mem_of_validateCollection hValid, hCollection⟩
  · exact ⟨hSlash, hRkey⟩
  · rw [← hCid]
    exact hBlock
  · show ((ofLex e.1 : RecordPath), (⟨CidText.toText entry.2, block.2⟩ : SpaceRecordRow)) ∈ _
    rw [hStoredRow]
    exact he

omit [CidText Cid] [LawfulCidText Cid] [DecidableEq Cid] in
/-- Records that an index names have distinct paths, since its keys are distinct. -/
theorem nodup_paths {es : List (String × Ipld Cid)} (hSorted : KeySorted es)
    {records : List (SpaceCarRecord Cid)} (hNames : List.Forall₂ Names es records) :
    (records.map SpaceCarRecord.path).Nodup := by
  have hKeys : es.map Prod.fst = (records.map SpaceCarRecord.path).map fun path =>
      recordKey (ofLex path).1 (ofLex path).2 := by
    clear hSorted
    induction hNames with
    | nil => rfl
    | cons hHead _ ih =>
      rw [List.map_cons, List.map_cons, List.map_cons, ih, hHead.entry]
      rfl
  apply List.Nodup.of_map fun path : RecordPath => recordKey (ofLex path).1 (ofLex path).2
  rw [← hKeys]
  exact hSorted.imp ne_of_lt

omit [LawfulCidText Cid] [DecidableEq Cid] in
/-- Records that an index names, all of them stored and as many as are stored, are the
stored ones. -/
theorem records_perm {es : List (String × Ipld Cid)} (hSorted : KeySorted es)
    {records : List (SpaceCarRecord Cid)} (hNames : List.Forall₂ Names es records)
    {stored : SortedMap RecordPath SpaceRecordRow}
    (hMem : ∀ record ∈ records, (record.path, record.row) ∈ stored.entries)
    (hLength : es.length = stored.entries.length) :
    (records.map fun record => (record.path, record.row)).Perm stored.entries := by
  have hNodup : (records.map fun record => (record.path, record.row)).Nodup := by
    apply List.Nodup.of_map Prod.fst
    rw [List.map_map]
    exact nodup_paths hSorted hNames
  apply (List.subperm_of_subset hNodup ?_).perm_of_length_le
  · rw [List.length_map, ← hNames.length_eq, hLength]
  · intro e he
    obtain ⟨record, hRecord, rfl⟩ := List.mem_map.mp he
    exact hMem record hRecord

/-- A CAR that `getRepo` streamed with its values is read by the import, every record of it
passes the re-encode check, and what it holds is exactly the records of the repository when
the index was read, with their CIDs, their values and their set hash. -/
theorem repoCar_roundTrip (laws : CarLaws env cids roots) (hDb : Reached env db)
    (hDbs : ∀ i, Reached env (dbs i)) (hValues : call.excludeValues = false)
    (hExport : spaceGetRepo env roots call db₀ db db₂ = .ok stream)
    (hStream : streamRecords call dbs 0 stream.entries = .ok blocks)
    (hHash : NoCollision env (exportBlocks stream blocks db call.id))
    (car : CarFile) (hCar : car.bytes = carBytes cids stream blocks) :
    ∃ parsed ops, importSpaceCar cids env.codec.fromSlice car = .ok parsed ∧
      parsed.records.mapM (importOp env) = .ok ops ∧
      (parsed.records.map fun record => (record.path, record.row)).Perm
        (db.records call.id).entries ∧
      List.Forall₂ (Reencodes env) parsed.records ops ∧
      ∀ row, db.repos call.id = some row →
        row.lthashState = LtHash.state (carHash env.crypto parsed.records) := by
  have hStored := hDb.stored
  obtain ⟨entries, hEntries, hIndex, hStreamed, hCommitCid, hIndexCid⟩ := spaceGetRepo_ok hExport
  rw [hValues, if_neg Bool.false_ne_true] at hStreamed
  rw [hStreamed] at hStream
  have hBlocks := streamRecords_ok (fun i => (hDbs i).stored) hStream
  obtain ⟨es, hPerm, hIndexes, _⟩ := exportEntries_stored hStored hEntries
  obtain ⟨index, hSlice, hSorted, hLinks⟩ := index_decodes laws hStored hEntries
  -- one record for each entry of the decoded index
  obtain ⟨records, hRecords⟩ := forall₂_of_forall_exists (l := index)
    (R := fun e record => Names e record ∧ (record.cid, record.block) ∈ blocks ∧
      (record.path, record.row) ∈ (db.records call.id).entries) (by
    intro e he
    obtain ⟨entry, hEntry, rfl⟩ := List.mem_map.mp (hLinks.mem_iff.mp he)
    exact exists_streamed hStored hHash hPerm hIndexes hBlocks hEntry)
  have hNames : List.Forall₂ Names index records := hRecords.imp fun _ _ h => h.1
  have hMem : ∀ record ∈ records, (record.cid, record.block) ∈ blocks ∧
      (record.path, record.row) ∈ (db.records call.id).entries := by
    intro record hRecord
    obtain ⟨_, _, h⟩ := exists_mem_of_forall₂ hRecords hRecord
    exact h.2
  have hCids : ∀ block ∈ stream.commit :: stream.index :: blocks,
      env.codec.dagCborBlockCid block.2 = .ok block.1 := by
    intro block hBlock
    rcases List.mem_cons.mp hBlock with rfl | hBlock
    · exact hCommitCid
    · rcases List.mem_cons.mp hBlock with rfl | hBlock
      · exact hIndexCid
      · obtain ⟨_, _, h⟩ := exists_mem_of_forall₂ hBlocks hBlock
        exact h.2
  have hCollision : CollisionFree (stream.commit :: stream.index :: blocks) := by
    have hExported : ∀ block ∈ stream.commit :: stream.index :: blocks,
        block.2 ∈ exportBlocks stream blocks db call.id := by
      intro block hBlock
      have hMap := List.mem_map_of_mem (f := Prod.snd) hBlock
      rw [exportBlocks, ← List.cons_append, ← List.cons_append]
      exact List.mem_append_left _ hMap
    intro a ha b hb hCid
    apply hHash a.2 (hExported a ha) b.2 (hExported b hb)
    rw [hCids a ha, hCids b hb, hCid]
  have hParsed := @importSpaceCar_frames _ _ _ cids env.codec.fromSlice car _ _ _ laws.crates
    (fun block hBlock => laws.blockCid _ _ (hCids block hBlock)) hCollision hCar _
    (by rw [hIndex]; exact hSlice) _ hNames
    fun record hRecord => List.mem_cons_of_mem _ (List.mem_cons_of_mem _ (hMem record hRecord).1)
  have hPermRecords := records_perm hSorted hNames (fun record h => (hMem record h).2) (by
    rw [hLinks.length_eq, List.length_map, hPerm.length_eq, hIndexes.length_eq])
  obtain ⟨ops, hOps⟩ := forall₂_of_forall_exists (l := records)
    (R := fun record op => importOp env record = .ok op ∧ Reencodes env record op) (by
    intro record hRecord
    apply importOp_stored laws.records
    exact hStored _ _ _ (assocGet_of_mem (db.records call.id).sorted (hMem record hRecord).2))
  refine ⟨⟨stream.commit.2, records⟩, ops, hParsed, mapM_ok.mpr (hOps.imp fun _ _ h => h.1),
    hPermRecords, hOps.imp fun _ _ h => h.2, ?_⟩
  intro row hRow
  have hSum := (hPermRecords.map fun e => elementOf env.crypto e.1 e.2).sum_eq
  rw [(hDb.digested call.id).state row hRow, recordsHash_eq_weight, SortedMap.weight, ← hSum,
    List.map_map, carHash_eq]
  rfl

/-- The roots alone are refused, unless every record of the repository is one of them. -/
theorem importSpaceCar_rootsOnly (laws : CarLaws env cids roots) (hDb : Reached env db)
    (hExport : spaceGetRepo env roots call db₀ db db₂ = .ok stream)
    (hHash : NoCollision env [stream.commit.2, stream.index.2]) {path : RecordPath}
    {row : SpaceRecordRow} (hRow : (db.records call.id).get? path = some row)
    (hRoots : row.cid ≠ CidText.toText stream.commit.1 ∧
      row.cid ≠ CidText.toText stream.index.1)
    (car : CarFile) (hCar : car.bytes = carBytes cids stream []) (parsed : SpaceCar Cid) :
    importSpaceCar cids env.codec.fromSlice car ≠ .ok parsed := by
  have hStored := hDb.stored
  obtain ⟨entries, hEntries, hIndex, _, hCommitCid, hIndexCid⟩ := spaceGetRepo_ok hExport
  obtain ⟨es, hPerm, hIndexes, _⟩ := exportEntries_stored hStored hEntries
  obtain ⟨index, hSlice, _, hLinks⟩ := index_decodes laws hStored hEntries
  obtain ⟨entry, hEntry, hRowEntry⟩ :=
    exists_mem_of_forall₂ hIndexes.flip (mem_of_assocGet hRow)
  have hCids : ∀ block ∈ [stream.commit, stream.index],
      env.codec.dagCborBlockCid block.2 = .ok block.1 := by
    intro block hBlock
    rcases List.mem_pair.mp hBlock with rfl | rfl
    · exact hCommitCid
    · exact hIndexCid
  have hCollision : CollisionFree [stream.commit, stream.index] := by
    intro a ha b hb hCid
    apply hHash a.2 (List.mem_map_of_mem ha) b.2 (List.mem_map_of_mem hb)
    rw [hCids a ha, hCids b hb, hCid]
  have hMem : (entry.1, Ipld.link entry.2) ∈ index :=
    hLinks.mem_iff.mpr (List.mem_map_of_mem (hPerm.mem_iff.mpr hEntry))
  have hMissing : ∀ block ∈ [stream.commit, stream.index], block.1 ≠ entry.2 := by
    intro block hBlock hCid
    have hText := hRowEntry.cid
    rw [← hCid] at hText
    rcases List.mem_pair.mp hBlock with rfl | rfl
    · exact hRoots.1 hText
    · exact hRoots.2 hText
  exact importSpaceCar_missing laws.crates
    (fun block hBlock => laws.blockCid _ _ (hCids block hBlock)) hCollision hCar
    (by rw [hIndex]; exact hSlice) hMem hMissing

end RoundTrip

/-! ## Concrete formats -/

/-- A CID is the digest of its block. -/
structure SampleCid where
  digest : List UInt8
  length_eq : digest.length = 32
  deriving DecidableEq

instance : CidText SampleCid where
  toText := fun cid => String.ofList (cid.digest.map fun b => Char.ofNat b.toNat)
  tryFrom := fun text =>
    if h : (text.toList.map fun c => UInt8.ofNat c.toNat).length = 32 then .ok ⟨_, h⟩
    else .error "invalid CID"

instance : LawfulCidText SampleCid where
  tryFrom_toText := by
    intro cid
    have hText : ((CidText.toText cid).toList.map fun c => UInt8.ofNat c.toNat) = cid.digest := by
      show ((String.ofList (cid.digest.map fun b => Char.ofNat b.toNat)).toList.map _) = _
      rw [String.toList_ofList, List.map_map]
      exact (List.map_congr_left fun b _ => byte_of_char b).trans (List.map_id _)
    have hLength : ((CidText.toText cid).toList.map fun c => UInt8.ofNat c.toNat).length = 32 := by
      rw [hText]
      exact cid.length_eq
    show (if h : _ then _ else _) = _
    rw [dif_pos hLength]
    cases cid
    simp only [hText]

/-- The first bytes of the input, in place of a hash. -/
def sampleSha256 (bytes : List UInt8) : List UInt8 :=
  (bytes ++ List.replicate 32 0).take 32

theorem length_sampleSha256 (bytes : List UInt8) : (sampleSha256 bytes).length = 32 := by
  rw [sampleSha256, List.length_take, List.length_append, List.length_replicate]
  omega

def sampleCid (bytes : List UInt8) : SampleCid :=
  ⟨sampleSha256 bytes, length_sampleSha256 bytes⟩

/-- A CID from the front of the input. -/
def takeCid (bytes : List UInt8) : Option (SampleCid × List UInt8) :=
  if h : (bytes.take 32).length = 32 then some (⟨bytes.take 32, h⟩, bytes.drop 32) else none

theorem takeCid_append (cid : SampleCid) (rest : List UInt8) :
    takeCid (cid.digest ++ rest) = some (cid, rest) := by
  have hTake : (cid.digest ++ rest).take 32 = cid.digest := by
    rw [← cid.length_eq, List.take_left]
  have hDrop : (cid.digest ++ rest).drop 32 = rest := by
    rw [← cid.length_eq, List.drop_left]
  have hLength : ((cid.digest ++ rest).take 32).length = 32 := by
    rw [hTake]
    exact cid.length_eq
  rw [takeCid, dif_pos hLength, hDrop]
  cases cid
  simp only [hTake]

def takeCids : Nat → List UInt8 → List SampleCid
  | 0, _ => []
  | fuel + 1, bytes =>
    match takeCid bytes with
    | some (cid, rest) => cid :: takeCids fuel rest
    | none => []

theorem takeCids_flatMap {fuel : Nat} {cids : List SampleCid} (h : cids.length ≤ fuel) :
    takeCids fuel (cids.flatMap SampleCid.digest) = cids := by
  induction cids generalizing fuel with
  | nil =>
    cases fuel with
    | zero => rfl
    | succ fuel => rfl
  | cons cid cids ih =>
    rw [List.length_cons] at h
    obtain ⟨fuel, rfl⟩ : ∃ n, fuel = n + 1 := ⟨fuel - 1, by omega⟩
    rw [List.flatMap_cons, takeCids, takeCid_append]
    dsimp only
    rw [ih (by omega)]

/-- Every CID is of a DAG-CBOR block. -/
def sampleCids : CarCodec SampleCid where
  version := fun _ => .v1
  codec := fun _ => DAG_CBOR
  hash := fun cid => ⟨SHA2_256, cid.digest⟩
  toBytes := fun cid => [0x01, 0x71, 0x12, 0x20] ++ cid.digest
  readBytes := fun bytes =>
    match bytes with
    | 0x01 :: 0x71 :: 0x12 :: 0x20 :: rest => (takeCid rest).elim (.error "invalid CID") .ok
    | _ => .error "invalid CID"
  new := fun _ _ mh => (takeCid mh.digest).elim (.error "invalid CID") fun found => .ok found.1
  newV0 := fun _ => .error "invalid CID"
  newV1 := fun _ mh => sampleCid mh.digest
  versionTryFrom := fun version =>
    match version with
    | 0 => .ok .v0
    | 1 => .ok .v1
    | _ => .error "unrecognized CID version"
  wrap := fun code digest =>
    if digest.length ≤ 64 then .ok ⟨code, digest⟩ else .error "invalid multihash size"
  multihashFromBytes := fun bytes =>
    ((decodeVarint bytes).bind fun (code, rest) =>
      (decodeVarint rest).map fun (_, digest) => Multihash.mk code digest).elim
        (.error "invalid multihash") .ok
  readU64 := fun bytes =>
    match decodeVarint bytes with
    | some found => .ok found
    | none => if bytes.isEmpty then .error .unexpectedEof else .error (.other "invalid varint")
  sha256 := sampleSha256
  headerToVec := fun header => header.roots.flatMap SampleCid.digest
  headerFromSlice := fun bytes => .ok ⟨1, takeCids bytes.length bytes⟩
  eof := "early eof"

theorem sampleCid_digest (cid : SampleCid) : sampleCid cid.digest = cid := by
  have hDigest : sampleSha256 cid.digest = cid.digest := by
    rw [sampleSha256]
    conv_lhs => rw [← cid.length_eq]
    exact List.take_left
  cases cid
  simp only [sampleCid, hDigest]

theorem sampleCids_lawful : sampleCids.Lawful where
  readBytes := by
    intro cid rest
    show (takeCid (cid.digest ++ rest)).elim _ _ = _
    rw [takeCid_append]
    rfl
  toBytes := by
    intro cid _
    have hSize : writeUvarint cid.digest.length = [0x20] := by
      rw [cid.length_eq]
      rfl
    show [0x01, 0x71, 0x12, 0x20] ++ cid.digest = _ ++ (_ ++ (_ ++ (writeUvarint _ ++ _)))
    rw [show (sampleCids.hash cid).digest = cid.digest from rfl, hSize]
    rfl
  new := by
    intro cid _
    have hTake := takeCid_append cid []
    rw [List.append_nil] at hTake
    show (takeCid cid.digest).elim _ _ = _
    rw [hTake]
    rfl
  newV1 := fun cid _ => sampleCid_digest cid
  versionTryFrom := rfl
  wrap := fun _ _ h => if_pos h
  multihashFromBytes := by
    intro mh hCode hLength
    show ((decodeVarint _).bind _).elim _ _ = _
    rw [decodeVarint_writeUvarint hCode, Option.bind_some]
    dsimp only
    rw [decodeVarint_writeUvarint (by omega)]
    rfl
  readU64 := by
    intro n rest h
    show (match decodeVarint _ with | some found => _ | none => _) = _
    rw [decodeVarint_writeUvarint h]
  readU64_nil := rfl
  sha256_length := length_sampleSha256
  header := by
    intro roots
    have hLength : roots.length ≤ (roots.flatMap SampleCid.digest).length := by
      induction roots with
      | nil => exact Nat.le_refl 0
      | cons cid roots ih =>
        have hDigest := cid.length_eq
        rw [List.flatMap_cons, List.length_append, List.length_cons]
        omega
    show Except.ok (V1Header.mk 1 (takeCids (roots.flatMap SampleCid.digest).length
      (roots.flatMap SampleCid.digest))) = _
    rw [takeCids_flatMap hLength]

/-- A character as its code point, after a one. -/
def charBytes (c : Char) : List UInt8 :=
  [1, UInt8.ofNat (c.toNat % 256), UInt8.ofNat (c.toNat / 256 % 256),
    UInt8.ofNat (c.toNat / 65536)]

def takePath : List UInt8 → Option (List Char × List UInt8)
  | 0 :: rest => some ([], rest)
  | 1 :: a :: b :: c :: rest =>
    (takePath rest).map fun (cs, rest) =>
      (Char.ofNat (a.toNat + 256 * b.toNat + 65536 * c.toNat) :: cs, rest)
  | _ => none

theorem takePath_append (cs : List Char) (rest : List UInt8) :
    takePath (cs.flatMap charBytes ++ 0 :: rest) = some (cs, rest) := by
  induction cs with
  | nil => simp [takePath]
  | cons c cs ih =>
    have hBound : c.toNat < 65536 * 256 := by
      have hValid := c.valid
      have hNat : c.toNat = c.val.toNat := rfl
      rcases hValid with hLt | ⟨_, hLt⟩
      · have hLow : c.val.toNat < 55296 := hLt
        omega
      · have hHigh : c.val.toNat < 1114112 := hLt
        omega
    have hCode : (UInt8.ofNat (c.toNat % 256)).toNat +
        256 * (UInt8.ofNat (c.toNat / 256 % 256)).toNat +
          65536 * (UInt8.ofNat (c.toNat / 65536)).toNat = c.toNat := by
      simp only [UInt8.toNat_ofNat']
      omega
    show takePath (1 :: UInt8.ofNat (c.toNat % 256) :: UInt8.ofNat (c.toNat / 256 % 256) ::
      UInt8.ofNat (c.toNat / 65536) :: (cs.flatMap charBytes ++ 0 :: rest)) = some (c :: cs, rest)
    rw [takePath, ih, Option.map_some, hCode, Char.ofNat_toNat]

def entryBytes (entry : String × SampleCid) : List UInt8 :=
  entry.1.toList.flatMap charBytes ++ 0 :: entry.2.digest

def takeEntries : Nat → List UInt8 → List (String × SampleCid)
  | 0, _ => []
  | fuel + 1, bytes =>
    match (takePath bytes).bind fun (cs, rest) =>
      (takeCid rest).map fun (cid, rest) => ((String.ofList cs, cid), rest) with
    | some (entry, rest) => entry :: takeEntries fuel rest
    | none => []

theorem takeEntries_flatMap {fuel : Nat} {entries : List (String × SampleCid)}
    (h : entries.length ≤ fuel) : takeEntries fuel (entries.flatMap entryBytes) = entries := by
  induction entries generalizing fuel with
  | nil =>
    cases fuel with
    | zero => rfl
    | succ fuel => rfl
  | cons entry entries ih =>
    rw [List.length_cons] at h
    obtain ⟨fuel, rfl⟩ : ∃ n, fuel = n + 1 := ⟨fuel - 1, by omega⟩
    have hBytes : (entry :: entries).flatMap entryBytes =
        entry.1.toList.flatMap charBytes ++ 0 ::
          (entry.2.digest ++ entries.flatMap entryBytes) := by
      rw [List.flatMap_cons, entryBytes]
      simp only [List.append_assoc, List.cons_append]
    rw [hBytes, takeEntries, takePath_append, Option.bind_some]
    dsimp only
    rw [takeCid_append, Option.map_some]
    dsimp only
    rw [ih (by omega), String.ofList_toList]

/-- The empty map is `a0`, and an index is its entries after that byte. -/
def sampleIndexBlock (entries : List (String × SampleCid)) : List UInt8 :=
  0xa0 :: entries.flatMap entryBytes

def sampleLinks : List (String × SampleCid) → List (String × Ipld SampleCid)
  | [] => []
  | e :: entries => assocInsert e.1 (.link e.2) (sampleLinks entries)

theorem keySorted_sampleLinks (entries : List (String × SampleCid)) :
    KeySorted (sampleLinks entries) := by
  induction entries with
  | nil => simp [sampleLinks, KeySorted]
  | cons e entries ih => exact keySorted_assocInsert ih

theorem perm_sampleLinks {entries : List (String × SampleCid)}
    (h : (entries.map Prod.fst).Nodup) :
    (sampleLinks entries).Perm (entries.map fun e => (e.1, .link e.2)) := by
  induction entries with
  | nil => exact List.Perm.refl _
  | cons e entries ih =>
    obtain ⟨hHead, hTail⟩ := List.nodup_cons.mp h
    have hNew : ∀ d ∈ sampleLinks entries, d.1 ≠ e.1 := by
      intro d hd hKey
      obtain ⟨entry, hEntry, rfl⟩ := List.mem_map.mp ((ih hTail).mem_iff.mp hd)
      exact hHead (List.mem_map.mpr ⟨entry, hEntry, hKey⟩)
    exact (perm_assocInsert hNew).trans ((ih hTail).cons _)

def sampleCarEnv : SpaceEnv SampleCid where
  crypto := ⟨fun _ _ => 0, fun _ => []⟩
  tidNew := sampleTidNew
  codec :=
    { base64 := sampleBase64
      toVec := fun value =>
        match value with
        | .map [] => .ok [0xa0]
        | _ => .error "unsupported value"
      fromSlice := fun bytes =>
        match bytes with
        | 0xa0 :: rest => .ok (.map (sampleLinks (takeEntries rest.length rest)))
        | _ => .error "unsupported bytes"
      dagCborBlockCid := fun bytes => .ok (sampleCid bytes) }
  validateRecordFormats := fun _ => .ok ()

def sampleRoots : RootCodec SampleCid where
  encodeCommitBlock := fun _ => [0xa6]
  encodeIndexBlock := sampleIndexBlock

theorem sampleLaws : CarLaws sampleCarEnv sampleCids sampleRoots where
  records := by
    refine ⟨sampleBase64_lawful, ?_⟩
    intro v bytes _ h
    simp only [sampleCarEnv] at h ⊢
    split at h
    · cases h
      rfl
    · cases h
  crates := sampleCids_lawful
  blockCid := by
    intro bytes cid h
    cases h
    exact ⟨rfl, rfl, rfl⟩
  index := by
    intro entries hSorted
    have hLength : entries.length ≤ (entries.flatMap entryBytes).length := by
      clear hSorted
      induction entries with
      | nil => exact Nat.le_refl 0
      | cons entry entries ih =>
        rw [List.flatMap_cons, List.length_append, List.length_cons, entryBytes,
          List.length_append, List.length_cons]
        omega
    have hKeys : (entries.map Prod.fst).Nodup := by
      apply List.pairwise_map.mpr
      apply hSorted.imp
      intro a b hLt hKey
      rw [hKey] at hLt
      exact lt_irrefl _ hLt
    refine ⟨sampleLinks entries, ?_, keySorted_sampleLinks entries, perm_sampleLinks hKeys⟩
    show Except.ok (Ipld.map (sampleLinks (takeEntries (entries.flatMap entryBytes).length
      (entries.flatMap entryBytes)))) = _
    rw [takeEntries_flatMap hLength]

def sampleCarHost : Host :=
  writeStep sampleCarEnv (newHost sampleAccounts) (sampleCall [putNote "a"])

theorem sampleCarHost_reached : Reached sampleCarEnv sampleCarHost.db :=
  ⟨sampleAccounts, [.write (sampleCall [putNote "a"])], sampleCarHost, rfl, rfl⟩

def sampleGetRepo (excludeValues : Bool) : GetRepoCall where
  space := sampleSpace
  repo := "did:plc:alice"
  excludeValues := excludeValues
  authenticate := .ok ()
  headRead := true
  indexRead := true
  headReread := true
  signingKey := .ok ()
  recordRead := fun _ => true

def sampleEntries : List (String × SampleCid) :=
  [("com.example.note/a", sampleCid [0xa0])]

def sampleStream (entries : List (String × SampleCid)) : CarStream SampleCid :=
  ⟨(sampleCid [0xa6], [0xa6]), (sampleCid (sampleIndexBlock sampleEntries),
    sampleIndexBlock sampleEntries), entries⟩

theorem sampleExport : spaceGetRepo sampleCarEnv sampleRoots (sampleGetRepo false)
    sampleCarHost.db sampleCarHost.db sampleCarHost.db = .ok (sampleStream sampleEntries) := by
  decide +kernel

theorem sampleStream_records : streamRecords (sampleGetRepo false) (fun _ => sampleCarHost.db) 0
    sampleEntries = .ok [(sampleCid [0xa0], [0xa0])] := by
  decide +kernel

def sampleCarFile : CarFile where
  bytes := carBytes sampleCids (sampleStream sampleEntries) [(sampleCid [0xa0], [0xa0])]
  length_lt := by decide +kernel

theorem sampleCar_noCollision : NoCollision sampleCarEnv
    (exportBlocks (sampleStream sampleEntries) [(sampleCid [0xa0], [0xa0])] sampleCarHost.db
      (sampleGetRepo false).id) := by
  show ∀ a ∈ _, ∀ b ∈ _, _
  decide +kernel

/-- The export of one note. -/
theorem repoCar_roundTrip_note :
    ∃ parsed ops, importSpaceCar sampleCids sampleCarEnv.codec.fromSlice sampleCarFile =
        .ok parsed ∧
      parsed.records.mapM (importOp sampleCarEnv) = .ok ops ∧
      (parsed.records.map fun record => (record.path, record.row)).Perm
        (sampleCarHost.db.records (sampleGetRepo false).id).entries := by
  obtain ⟨parsed, ops, hParsed, hOps, hPerm, _⟩ := repoCar_roundTrip sampleLaws
    sampleCarHost_reached (fun _ => sampleCarHost_reached) rfl sampleExport
    sampleStream_records sampleCar_noCollision sampleCarFile rfl
  exact ⟨parsed, ops, hParsed, hOps, hPerm⟩

theorem sampleRootsOnly : spaceGetRepo sampleCarEnv sampleRoots (sampleGetRepo true)
    sampleCarHost.db sampleCarHost.db sampleCarHost.db = .ok (sampleStream []) := by
  decide +kernel

def sampleRootsFile : CarFile where
  bytes := carBytes sampleCids (sampleStream []) []
  length_lt := by decide +kernel

theorem sampleCarHost_record : (sampleCarHost.db.records (sampleGetRepo true).id).get?
    (toLex ("com.example.note", "a")) = some ⟨CidText.toText (sampleCid [0xa0]), [0xa0]⟩ := by
  decide +kernel

/-- The export of the same repository without its values is complete, and is refused. -/
theorem rootsOnly_refused :
    spaceGetRepo sampleCarEnv sampleRoots (sampleGetRepo true) sampleCarHost.db sampleCarHost.db
        sampleCarHost.db = .ok (sampleStream []) ∧
      streamRecords (sampleGetRepo true) (fun _ => sampleCarHost.db) 0
        (sampleStream []).entries = .ok [] ∧
      sampleRootsFile.bytes = carBytes sampleCids (sampleStream []) [] ∧
      ∀ parsed, importSpaceCar sampleCids sampleCarEnv.codec.fromSlice sampleRootsFile ≠
        .ok parsed := by
  refine ⟨sampleRootsOnly, rfl, rfl, ?_⟩
  have hHash : NoCollision sampleCarEnv
      [(sampleStream []).commit.2, (sampleStream []).index.2] := by
    show ∀ a ∈ _, ∀ b ∈ _, _
    decide +kernel
  have hRoots : CidText.toText (sampleCid [0xa0]) ≠
        CidText.toText (sampleStream []).commit.1 ∧
      CidText.toText (sampleCid [0xa0]) ≠ CidText.toText (sampleStream []).index.1 := by
    decide +kernel
  exact importSpaceCar_rootsOnly sampleLaws sampleCarHost_reached sampleRootsOnly hHash
    sampleCarHost_record hRoots sampleRootsFile rfl

end Ezpds.Spaces
