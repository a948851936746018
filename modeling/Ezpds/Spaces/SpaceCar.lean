import Ezpds.Library.Text
import Ezpds.Repo.Car
import Ezpds.Spaces.StoredRecords

/-!
# Reading the CAR of a space repository

`import_space_car`: a CAR with two roots, the signed commit and an index from
`{collection}/{rkey}` to the CID of the record. Everything that the index names has to be
in the CAR.

* `importSpaceCar_ok`: what an accepted CAR holds.
* `importSpaceCar_frames`: a file of frames whose index names blocks in it is accepted.
-/

namespace Ezpds.Spaces

open Library Repo

structure SpaceCarRecord (Cid : Type) where
  collection : String
  rkey : String
  cid : Cid
  block : List UInt8

structure SpaceCar (Cid : Type) where
  commit : List UInt8
  records : List (SpaceCarRecord Cid)

variable {Cid : Type} [CidText Cid] [DecidableEq Cid]

def readBlock (cids : CarCodec Cid) (car : CarStore Cid) (cid : Cid) :
    Except CarImportError (List UInt8) :=
  (readStoreBlock cids car cid).mapError fun e =>
    .car ("CAR is missing block " ++ CidText.toText cid ++ ": " ++ e)

def SpaceCarRecord.path (record : SpaceCarRecord Cid) : RecordPath :=
  toLex (record.collection, record.rkey)

/-- The row that an import of the record stores. -/
def SpaceCarRecord.row (record : SpaceCarRecord Cid) : SpaceRecordRow :=
  ⟨CidText.toText record.cid, record.block⟩

/-- The set hash that a reader folds over the records. -/
def carHash (crypto : SpaceCrypto) (records : List (SpaceCarRecord Cid)) : LtHash :=
  records.foldl (fun h record => LtHash.add crypto h
    (formatSetHashElement record.collection record.rkey (CidText.toText record.cid))) LtHash.new

/-- One entry of the index. -/
def importEntry (cids : CarCodec Cid) (car : CarStore Cid) (entry : String × Ipld Cid) :
    Except CarImportError (SpaceCarRecord Cid) :=
  match entry with
  | (path, .link cid) =>
    match splitOnce '/' path.toList with
    | some (collection, rkey) => do
      check (!(collection.isEmpty || rkey.isEmpty || rkey.contains '/'))
        (.malformedCommit ("index key " ++ path ++ " is not collection/rkey"))
      let block ← readBlock cids car cid
      return ⟨String.ofList collection, String.ofList rkey, cid, block⟩
    | none => .error (.malformedCommit ("index key " ++ path ++ " is not collection/rkey"))
  | (path, _) => .error (.malformedCommit ("index entry " ++ path ++ " is not a CID link"))

def indexEntries (fromSlice : List UInt8 → Except String (Ipld Cid)) (index : List UInt8) :
    Except CarImportError (List (String × Ipld Cid)) := do
  let ipld ← (fromSlice index).mapError fun e =>
    .malformedCommit ("index block is malformed: " ++ e)
  match ipld with
  | .map entries => return entries
  | _ => throw (.malformedCommit "index block is not a map")

def importSpaceCar (cids : CarCodec Cid) (fromSlice : List UInt8 → Except String (Ipld Cid))
    (carBytes : CarFile) : Except CarImportError (SpaceCar Cid) := do
  validateCar cids carBytes.bytes
  let car ← (openCar cids carBytes.bytes).mapError fun e => .car e.text
  match car.header.roots with
  | [commitRoot, indexRoot] => do
    let commit ← readBlock cids car commitRoot
    let index ← readBlock cids car indexRoot
    let entries ← indexEntries fromSlice index
    let records ← entries.mapM (importEntry cids car)
    return ⟨commit, records⟩
  | roots => throw (.rootCount roots.length)

/-! ## What is accepted -/

variable {cids : CarCodec Cid} {fromSlice : List UInt8 → Except String (Ipld Cid)}
  {car : CarStore Cid} {carBytes : CarFile} {parsed : SpaceCar Cid}

omit [CidText Cid] in
theorem readBlock_ok [CidText Cid] {cid : Cid} {data : List UInt8} :
    readBlock cids car cid = .ok data ↔ readStoreBlock cids car cid = .ok data :=
  mapError_ok

omit [CidText Cid] [DecidableEq Cid] in
/-- An index entry names a record: its key is the path of the record, both halves of which
are there and free of slashes. -/
structure Names (entry : String × Ipld Cid) (record : SpaceCarRecord Cid) : Prop where
  entry : entry = (recordKey record.collection record.rkey, .link record.cid)
  collection : '/' ∉ record.collection.toList ∧ record.collection.toList ≠ []
  rkey : '/' ∉ record.rkey.toList ∧ record.rkey.toList ≠ []

omit [CidText Cid] in
structure Imports (cids : CarCodec Cid) (car : CarStore Cid) (entry : String × Ipld Cid)
    (record : SpaceCarRecord Cid) : Prop where
  names : Names entry record
  block : readStoreBlock cids car record.cid = .ok record.block

omit [CidText Cid] [DecidableEq Cid] in
theorem recordKey_inj {collection rkey collection' rkey' : String}
    (h : '/' ∉ collection.toList) (h' : '/' ∉ collection'.toList)
    (hKey : recordKey collection rkey = recordKey collection' rkey') :
    collection = collection' ∧ rkey = rkey' := by
  have hText : collection.toList ++ '/' :: rkey.toList =
      collection'.toList ++ '/' :: rkey'.toList := by
    simpa [recordKey] using congrArg String.toList hKey
  have hSplit := congrArg (splitOnce '/') hText
  rw [splitOnce_append h, splitOnce_append h', Option.some.injEq, Prod.mk.injEq] at hSplit
  exact ⟨String.toList_inj.mp hSplit.1, String.toList_inj.mp hSplit.2⟩

theorem importEntry_ok {entry : String × Ipld Cid} {record : SpaceCarRecord Cid} :
    importEntry cids car entry = .ok record ↔ Imports cids car entry record := by
  constructor
  · intro h
    unfold importEntry at h
    split at h
    · rename_i path cid
      split at h
      · rename_i collection rkey hSplit
        obtain ⟨_, hCheck, h⟩ := bind_ok.mp h
        obtain ⟨block, hBlock, h⟩ := bind_ok.mp h
        cases h
        obtain ⟨hPath, hSlash⟩ := splitOnce_some hSplit
        have hKey : path = recordKey (String.ofList collection) (String.ofList rkey) := by
          rw [← String.toList_inj, hPath]
          simp [recordKey]
        have hHalves := check_ok.mp hCheck
        simp only [Bool.not_eq_true', Bool.or_eq_false_iff, List.isEmpty_eq_false_iff,
          List.contains_eq_mem, decide_eq_false_iff_not] at hHalves
        refine ⟨⟨by rw [hKey], ?_, ?_⟩, readBlock_ok.mp hBlock⟩
        · rw [String.toList_ofList]
          exact ⟨hSlash, hHalves.1.1⟩
        · rw [String.toList_ofList]
          exact ⟨hHalves.2, hHalves.1.2⟩
      · cases h
    · cases h
  · intro h
    obtain ⟨⟨rfl, hCollection, hRkey⟩, hBlock⟩ := h
    have hSplit : splitOnce '/' (recordKey record.collection record.rkey).toList =
        some (record.collection.toList, record.rkey.toList) := by
      have hText : (recordKey record.collection record.rkey).toList =
          record.collection.toList ++ '/' :: record.rkey.toList := by
        simp [recordKey]
      rw [hText, splitOnce_append hCollection.1]
    unfold importEntry
    dsimp only
    rw [hSplit]
    refine bind_ok.mpr ⟨(), check_ok.mpr ?_, bind_ok.mpr ⟨_, readBlock_ok.mpr hBlock, ?_⟩⟩
    · simp [hCollection.2, hRkey.1, hRkey.2]
    · simp only [String.ofList_toList]
      rfl

omit [CidText Cid] [DecidableEq Cid] in
theorem indexEntries_ok {index : List UInt8} {entries : List (String × Ipld Cid)} :
    indexEntries fromSlice index = .ok entries ↔ fromSlice index = .ok (.map entries) := by
  unfold indexEntries
  rw [bind_ok]
  constructor
  · intro h
    obtain ⟨ipld, hSlice, h⟩ := h
    cases ipld with
    | map entries' =>
      cases h
      exact mapError_ok.mp hSlice
    | null => cases h
    | bool => cases h
    | integer => cases h
    | float => cases h
    | string => cases h
    | bytes => cases h
    | list => cases h
    | link => cases h
  · intro h
    exact ⟨_, mapError_ok.mpr h, rfl⟩

/-- An accepted CAR has an index, and holds what the index names. -/
theorem importSpaceCar_ok (h : importSpaceCar cids fromSlice carBytes = .ok parsed) :
    ∃ car index entries, fromSlice index = .ok (.map entries) ∧
      List.Forall₂ (Imports cids car) entries parsed.records := by
  obtain ⟨_, _, h⟩ := bind_ok.mp h
  obtain ⟨car, _, h⟩ := bind_ok.mp h
  split at h
  · rename_i commitRoot indexRoot hRoots
    obtain ⟨commit, _, h⟩ := bind_ok.mp h
    obtain ⟨index, _, h⟩ := bind_ok.mp h
    obtain ⟨entries, hEntries, h⟩ := bind_ok.mp h
    obtain ⟨records, hRecords, h⟩ := bind_ok.mp h
    cases h
    refine ⟨car, index, entries, indexEntries_ok.mp hEntries, ?_⟩
    exact (mapM_ok.mp hRecords).imp fun _ _ hImport => importEntry_ok.mp hImport
  · cases h

section Frames

variable {commit index : Cid × List UInt8} {rows : List (Cid × List UInt8)}

omit [CidText Cid] [DecidableEq Cid] in
/-- Blocks under one CID are the same block. -/
def CollisionFree (blocks : List (Cid × List UInt8)) : Prop :=
  ∀ a ∈ blocks, ∀ b ∈ blocks, a.1 = b.1 → a.2 = b.2

omit [CidText Cid] in
/-- A block of the file is read back. -/
theorem readStoreBlock_of_mem {roots : List Cid} {blocks : List (Cid × List UInt8)}
    (hHolds : HoldsBlocks cids car roots blocks) (hCollision : CollisionFree blocks)
    {cid : Cid} {data : List UInt8} (hMem : (cid, data) ∈ blocks) :
    readStoreBlock cids car cid = .ok data := by
  obtain ⟨data', hMem', hRead⟩ := hHolds.reads _ hMem
  have hSame : data' = data := hCollision _ hMem' _ hMem rfl
  rw [hRead, hSame]

omit [CidText Cid] in
theorem exists_openCar (hCids : cids.Lawful) {roots : List Cid}
    {blocks : List (Cid × List UInt8)}
    (hBlocks : ∀ block ∈ blocks, IsBlockCid cids block.1 block.2)
    (hBytes : carBytes.bytes = carV1HeaderRoots cids roots ++ carFrames cids blocks) :
    validateCar cids carBytes.bytes = .ok () ∧
      ∃ car, openCar cids carBytes.bytes = .ok car ∧ HoldsBlocks cids car roots blocks := by
  have hFits : (carV1HeaderRoots cids roots ++ carFrames cids blocks).length < 2 ^ 64 := by
    have hFile := carBytes.length_lt
    rw [← hBytes]
    omega
  rw [hBytes]
  exact ⟨validateCar_frames hCids hBlocks hFits, openCar_frames hCids hBlocks hFits⟩

/-- A file of frames whose index names blocks in it is accepted. -/
theorem importSpaceCar_frames (hCids : cids.Lawful)
    (hBlocks : ∀ block ∈ commit :: index :: rows, IsBlockCid cids block.1 block.2)
    (hCollision : CollisionFree (commit :: index :: rows))
    (hBytes : carBytes.bytes = carV1HeaderRoots cids [commit.1, index.1] ++
      carFrames cids (commit :: index :: rows))
    {entries : List (String × Ipld Cid)} (hIndex : fromSlice index.2 = .ok (.map entries))
    {records : List (SpaceCarRecord Cid)} (hNames : List.Forall₂ Names entries records)
    (hRows : ∀ record ∈ records, (record.cid, record.block) ∈ commit :: index :: rows) :
    importSpaceCar cids fromSlice carBytes = .ok ⟨commit.2, records⟩ := by
  obtain ⟨hValid, car, hOpen, hHolds⟩ := exists_openCar hCids hBlocks hBytes
  have hRead : ∀ {cid : Cid} {data : List UInt8}, (cid, data) ∈ commit :: index :: rows →
      readBlock cids car cid = .ok data :=
    fun hMem => readBlock_ok.mpr (readStoreBlock_of_mem hHolds hCollision hMem)
  have hRecords : entries.mapM (importEntry cids car) = .ok records := by
    apply mapM_ok.mpr
    refine List.forall₂_iff_zip.mpr ⟨hNames.length_eq, ?_⟩
    intro entry record hZip
    refine importEntry_ok.mpr ⟨(List.forall₂_iff_zip.mp hNames).2 hZip, readBlock_ok.mp ?_⟩
    exact hRead (hRows _ (List.of_mem_zip hZip).2)
  unfold importSpaceCar
  refine bind_ok.mpr ⟨(), hValid, bind_ok.mpr ⟨car, mapError_ok.mpr hOpen, ?_⟩⟩
  rw [hHolds.roots]
  exact bind_ok.mpr ⟨_, hRead List.mem_cons_self,
    bind_ok.mpr ⟨_, hRead (List.mem_cons_of_mem _ List.mem_cons_self),
      bind_ok.mpr ⟨_, indexEntries_ok.mpr hIndex, bind_ok.mpr ⟨_, hRecords, rfl⟩⟩⟩⟩

/-- A file without a block that its index names is refused. -/
theorem importSpaceCar_missing (hCids : cids.Lawful)
    (hBlocks : ∀ block ∈ commit :: index :: rows, IsBlockCid cids block.1 block.2)
    (hCollision : CollisionFree (commit :: index :: rows))
    (hBytes : carBytes.bytes = carV1HeaderRoots cids [commit.1, index.1] ++
      carFrames cids (commit :: index :: rows))
    {entries : List (String × Ipld Cid)} (hIndex : fromSlice index.2 = .ok (.map entries))
    {path : String} {cid : Cid} (hEntry : (path, .link cid) ∈ entries)
    (hMissing : ∀ block ∈ commit :: index :: rows, block.1 ≠ cid) :
    importSpaceCar cids fromSlice carBytes ≠ .ok parsed := by
  intro h
  obtain ⟨_, car, hOpen, hHolds⟩ := exists_openCar hCids hBlocks hBytes
  unfold importSpaceCar at h
  obtain ⟨_, _, h⟩ := bind_ok.mp h
  obtain ⟨car', hOpen', h⟩ := bind_ok.mp h
  have hCar : car' = car := by
    rw [hOpen] at hOpen'
    cases mapError_ok.mp hOpen'
    rfl
  subst hCar
  rw [hHolds.roots] at h
  obtain ⟨_, _, h⟩ := bind_ok.mp h
  obtain ⟨index', hIndex', h⟩ := bind_ok.mp h
  have hRead := readStoreBlock_of_mem hHolds hCollision
    (List.mem_cons_of_mem commit (List.mem_cons_self (a := index) (l := rows)))
  rw [readBlock_ok.mp hIndex'] at hRead
  cases hRead
  obtain ⟨entries', hEntries, h⟩ := bind_ok.mp h
  rw [indexEntries_ok.mp hEntries] at hIndex
  cases hIndex
  obtain ⟨records, hRecords, _⟩ := bind_ok.mp h
  obtain ⟨record, hImport⟩ := ok_of_mapM_ok hRecords hEntry
  obtain ⟨hNames, hBlock⟩ := importEntry_ok.mp hImport
  have hCid : cid = record.cid := by
    have hEq := hNames.entry
    cases hEq
    rfl
  rw [← hCid, hHolds.misses cid hMissing] at hBlock
  cases hBlock

end Frames

end Ezpds.Spaces
