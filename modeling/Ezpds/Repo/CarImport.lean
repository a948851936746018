import Ezpds.Data.Ipld
import Ezpds.Library.SortedMap
import Ezpds.Library.Walk
import Ezpds.Repo.Car
import Ezpds.Repo.RecordPath
import Mathlib.Data.List.Dedup

/-!
# Importing a repository from its CAR

`import_repo_car`: the framing first, then the vendored store and repository over it. The
whole tree under the commit is walked, and every block that it names has to be there. The
typed decoders of the crates are parameters; `RepoCodec.Lawful` says that a block decodes as
a type exactly when its map has the fields that the type declares.

* `openCar_shortest`, `openCar_of_shortest`: a framed file opens exactly when its lengths are in
  their shortest form and its header is one of the store's.
* `DeclaredTree.unfolds`, `declaredTree_of_unfolds`: the walk of the tree ends well exactly when
  the tree is finite and its nodes have the shape that the crate declares.
-/

namespace Ezpds.Repo

open Library

variable {Cid : Type}

/-! ## Fields of a block -/

def asLink : Ipld Cid → Option Cid
  | .link cid => some cid
  | _ => none

def u64Field (name : String) (entries : List (String × Ipld Cid)) : Option Nat :=
  match assocGet name entries with
  | some (.integer i) => if 0 ≤ i ∧ i < 2 ^ 64 then some i.toNat else none
  | _ => none

def i64Field (name : String) (entries : List (String × Ipld Cid)) : Option Int :=
  match assocGet name entries with
  | some (.integer i) => if -2 ^ 63 ≤ i ∧ i < 2 ^ 63 then some i else none
  | _ => none

def stringField (name : String) (entries : List (String × Ipld Cid)) : Option String :=
  match assocGet name entries with
  | some (.string s) => some s
  | _ => none

def bytesField (name : String) (entries : List (String × Ipld Cid)) : Option (List UInt8) :=
  match assocGet name entries with
  | some (.bytes bytes) => some bytes
  | _ => none

def linkField (name : String) (entries : List (String × Ipld Cid)) : Option Cid :=
  (assocGet name entries).bind asLink

/-- `Option<Cid>`: the field may be missing or `null`. -/
def optionalLinkField (name : String) (entries : List (String × Ipld Cid)) :
    Option (Option Cid) :=
  match assocGet name entries with
  | none => some none
  | some .null => some none
  | some (.link cid) => some (some cid)
  | some _ => none

def listField (name : String) (entries : List (String × Ipld Cid)) : Option (List (Ipld Cid)) :=
  match assocGet name entries with
  | some (.list items) => some items
  | _ => none

def V1Header.ofMap (entries : List (String × Ipld Cid)) : Option (V1Header Cid) := do
  let version ← u64Field "version" entries
  let items ← listField "roots" entries
  let roots ← items.mapM asLink
  return ⟨version, roots⟩

/-! ## Commits and nodes -/

/-- `schema::SignedCommit`, with the `i64` that its version was read as. -/
structure CommitBlock (Cid : Type) where
  did : String
  version : Int
  data : Cid
  rev : String
  prev : Option Cid
  sig : List UInt8
  deriving DecidableEq

/-- `isDid` and `isTid` are what `Did::new` and `Tid::new` accept. -/
def CommitBlock.ofMap (isDid isTid : String → Bool) (entries : List (String × Ipld Cid)) :
    Option (CommitBlock Cid) := do
  let did ← (stringField "did" entries).filter isDid
  let version ← i64Field "version" entries
  let data ← linkField "data" entries
  let rev ← (stringField "rev" entries).filter isTid
  let prev ← optionalLinkField "prev" entries
  let sig ← bytesField "sig" entries
  return ⟨did, version, data, rev, prev, sig⟩

namespace Mst

/-- `schema::TreeEntry`. -/
structure EntryData (Cid : Type) where
  prefixLen : Nat
  keySuffix : List UInt8
  value : Cid
  tree : Option Cid
  deriving DecidableEq

/-- `schema::Node`. -/
structure NodeData (Cid : Type) where
  left : Option Cid
  entries : List (EntryData Cid)
  deriving DecidableEq

def EntryData.ofIpld : Ipld Cid → Option (EntryData Cid)
  | .map entries => do
    let prefixLen ← u64Field "p" entries
    let keySuffix ← bytesField "k" entries
    let value ← linkField "v" entries
    let tree ← optionalLinkField "t" entries
    return ⟨prefixLen, keySuffix, value, tree⟩
  | _ => none

def NodeData.ofMap (entries : List (String × Ipld Cid)) : Option (NodeData Cid) := do
  let left ← optionalLinkField "l" entries
  let items ← listField "e" entries
  let entries ← items.mapM EntryData.ofIpld
  return ⟨left, entries⟩

inductive NodeEntry (Cid : Type) where
  | tree (cid : Cid)
  | leaf (key : String) (value : Cid)

inductive Error where
  | invalidPrefixLen
  | invalidKey (message : String)
  | blockStore (message : String)
  | parse (message : String)
  deriving DecidableEq

def Error.text : Error → String
  | .invalidPrefixLen => "Invalid prefix_len"
  | .invalidKey message => "Invalid key: " ++ message
  | .blockStore message => "blockstore error: " ++ message
  | .parse message => "serde_ipld_dagcbor decoding error: " ++ message

/-- Where a walk of the tree stands. -/
inductive Located (Cid : Type) where
  | entry (value : Cid)
  | inSubtree (cid : Cid)

def Located.cid : Located Cid → Cid
  | .entry value => value
  | .inSubtree cid => cid

def NodeEntry.located : NodeEntry Cid → Located Cid
  | .tree cid => .inSubtree cid
  | .leaf _ value => .entry value

end Mst

/-! ## The crates -/

/-- The decoders of `serde_ipld_dagcbor`, for any block and for the types of the vendored
crate. `utf8Error` is the text for bytes that are not UTF-8. -/
structure RepoCodec (Cid : Type) extends CarCodec Cid where
  fromSlice : List UInt8 → Except String (Ipld Cid)
  commitFromReader : List UInt8 → Except String (CommitBlock Cid)
  nodeFromSlice : List UInt8 → Except String (Mst.NodeData Cid)
  utf8Error : List UInt8 → String
  isDid : String → Bool
  isTid : String → Bool

/-- What the crates promise. The store's number reader is the stricter one, and reads a CID
from the stream as `Cid::read_bytes` does from its frame. -/
structure RepoCodec.Lawful (codec : RepoCodec Cid) : Prop where
  reads : codec.toCarCodec.Reads
  readU64_shortest : ∀ bytes found n rest, codec.readU64 bytes = .ok found →
    decodeVarint bytes = some (n, rest) → bytes = writeUvarint n ++ rest
  readU64_eof : ∀ bytes, codec.readU64 bytes = .error .unexpectedEof →
    ∀ byte ∈ bytes, byte &&& 0x80 ≠ 0
  readBytes_suffix : ∀ bytes block, codec.readBytes bytes = .ok block → block.2 <:+ bytes
  readCid : ∀ bytes block more, codec.readBytes bytes = .ok block →
    codec.version block.1 = .v1 →
      readCid codec.toCarCodec (bytes ++ more) = .ok (block.1, block.2 ++ more)
  header : ∀ bytes entries v1, codec.fromSlice bytes = .ok (.map entries) →
    (codec.headerFromSlice bytes = .ok v1 ↔ V1Header.ofMap entries = some v1)
  commit : ∀ bytes entries commit, codec.fromSlice bytes = .ok (.map entries) →
    (codec.commitFromReader bytes = .ok commit ↔
      CommitBlock.ofMap codec.isDid codec.isTid entries = some commit)
  node : ∀ bytes entries node, codec.fromSlice bytes = .ok (.map entries) →
    (codec.nodeFromSlice bytes = .ok node ↔ Mst.NodeData.ofMap entries = some node)

/-! ## The vendored repository -/

namespace Mst

/-- `TreeEntry::parse`, as far as the key. -/
def parseKey (codec : RepoCodec Cid) (entry : EntryData Cid) (prevKey : List UInt8) :
    Except Error String := do
  let key ←
    if entry.prefixLen = 0 then .ok entry.keySuffix
    else if prevKey.length < entry.prefixLen then .error .invalidPrefixLen
    else .ok (prevKey.take entry.prefixLen ++ entry.keySuffix)
  match String.fromUTF8? ⟨key.toArray⟩ with
  | some text => return text
  | none => throw (.invalidKey (codec.utf8Error key))

def parseEntries (codec : RepoCodec Cid) :
    List UInt8 → List (EntryData Cid) → Except Error (List (NodeEntry Cid))
  | _, [] => .ok []
  | prevKey, entry :: entries => do
    let key ← parseKey codec entry prevKey
    let rest ← parseEntries codec (strBytes key) entries
    return .leaf key entry.value :: (entry.tree.toList.map .tree ++ rest)

/-- `Node::parse`, once the block is decoded. -/
def parseNode (codec : RepoCodec Cid) (node : NodeData Cid) :
    Except Error (List (NodeEntry Cid)) := do
  let entries ← parseEntries codec [] node.entries
  return node.left.toList.map .tree ++ entries

/-- `Node::read_from`. -/
def readNode [DecidableEq Cid] (codec : RepoCodec Cid) (car : CarStore Cid) (cid : Cid) :
    Except Error (List (NodeEntry Cid)) := do
  let bytes ← (readStoreBlock codec.toCarCodec car cid).mapError .blockStore
  let node ← (codec.nodeFromSlice bytes).mapError .parse
  parseNode codec node

/-- One turn of `Tree::export`. -/
def below [DecidableEq Cid] (codec : RepoCodec Cid) (car : CarStore Cid) :
    Located Cid → Except Error (List (Located Cid))
  | .inSubtree cid => do
    let entries ← readNode codec car cid
    return entries.map NodeEntry.located
  | .entry _ => return []

end Mst

inductive RepoError where
  | blockStore (message : String)
  | mst (error : Mst.Error)
  | parse (message : String)
  deriving DecidableEq

def RepoError.text : RepoError → String
  | .blockStore message => "Blockstore error: " ++ message
  | .mst error => "MST error: " ++ error.text
  | .parse message => "serde_ipld_dagcbor decoding error: " ++ message

/-- `Repository`, over a CAR. -/
structure CarRepository (Cid : Type) where
  db : CarStore Cid
  root : Cid
  latestCommit : CommitBlock Cid

section Vendored

variable [DecidableEq Cid]

/-- `Repository::open`. -/
def openRepository (codec : RepoCodec Cid) (db : CarStore Cid) (root : Cid) :
    Except RepoError (CarRepository Cid) := do
  let commitBlock ← (readStoreBlock codec.toCarCodec db root).mapError .blockStore
  let latestCommit ← (codec.commitFromReader commitBlock).mapError .parse
  return ⟨db, root, latestCommit⟩

/-- `Repository::export`: `none` while the walk of the tree has not ended. -/
def exportCids (codec : RepoCodec Cid) (fuel : Nat) (repo : CarRepository Cid) :
    Option (Except RepoError (List Cid)) :=
  (walk (Mst.below codec repo.db) fuel [.inSubtree repo.latestCommit.data]).map fun walked => do
    let located ← walked.mapError .mst
    return repo.root :: located.map Mst.Located.cid

/-- `CapturingBlockStore::write_block`; a digest of 32 bytes always wraps. -/
def captureBlock (codec : RepoCodec Cid) (multicodec : Nat) (contents : List UInt8) :
    Cid × List UInt8 :=
  (codec.newV1 multicodec ⟨SHA2_256, codec.sha256 contents⟩, contents)

/-- The loop of `Repository::export_into`, over the set of CIDs in some order. -/
def captureBlocks (codec : RepoCodec Cid) (repo : CarRepository Cid) (cids : List Cid) :
    Except RepoError (List (Cid × List UInt8)) :=
  cids.dedup.mapM fun cid => do
    let contents ← (readStoreBlock codec.toCarCodec repo.db cid).mapError .blockStore
    return captureBlock codec (codec.codec cid) contents

def exportInto (codec : RepoCodec Cid) (fuel : Nat) (repo : CarRepository Cid) :
    Option (Except RepoError (List (Cid × List UInt8))) :=
  (exportCids codec fuel repo).map fun exported => do
    let cids ← exported
    captureBlocks codec repo cids

end Vendored

/-! ## The import -/

def REPO_VERSION : Int := 3

structure ImportedRepo (Cid : Type) where
  root : Cid
  rev : String
  did : String
  blocks : List (Cid × List UInt8)

def commitDid (codec : RepoCodec Cid) (bytes : List UInt8) : Except CarImportError String := do
  let ipld ← (codec.fromSlice bytes).mapError .malformedCommit
  match ipld with
  | .map map =>
    match assocGet "version" map with
    | some (.integer v) =>
      check (v = REPO_VERSION) (.malformedCommit "commit has an unsupported or missing version")
      match assocGet "did" map with
      | some (.string did) => return did
      | _ => throw (.malformedCommit "commit is missing a did field")
    | _ => throw (.malformedCommit "commit has an unsupported or missing version")
  | _ => throw (.malformedCommit "commit is not a map")

section Import

variable [DecidableEq Cid]

/-- `import_repo_car` before the walk. -/
def openImport (codec : RepoCodec Cid) (carBytes : CarFile) :
    Except CarImportError (CarRepository Cid) := do
  validateCar codec.toCarCodec carBytes.bytes
  let car ← (openCar codec.toCarCodec carBytes.bytes).mapError fun e => .car e.text
  match car.header.roots with
  | [root] => (openRepository codec car root).mapError fun e => .repo e.text
  | roots => throw (.rootCount roots.length)

/-- `import_repo_car` after the walk. -/
def finishImport (codec : RepoCodec Cid) (repo : CarRepository Cid) (expectedDid : String)
    (blocks : List (Cid × List UInt8)) : Except CarImportError (ImportedRepo Cid) := do
  match blocks.lookup repo.root with
  | none => throw (.malformedCommit "root commit block absent")
  | some rootBytes =>
    let foundDid ← commitDid codec rootBytes
    check (foundDid = expectedDid) (.didMismatch expectedDid foundDid)
    return ⟨repo.root, repo.latestCommit.rev, foundDid, blocks⟩

def importRepoCar (codec : RepoCodec Cid) (fuel : Nat) (carBytes : CarFile)
    (expectedDid : String) : Option (Except CarImportError (ImportedRepo Cid)) :=
  match openImport codec carBytes with
  | .error e => some (.error e)
  | .ok repo =>
    (exportInto codec fuel repo).map fun captured => do
      let blocks ← captured.mapError fun e => .repo e.text
      finishImport codec repo expectedDid blocks

end Import

/-! ## Opening a framed file -/

/-- Every length in the file is in its shortest form. -/
def Shortest (file : List UInt8) : Prop :=
  ∃ (header : List UInt8) (frames : List (List UInt8)),
    file = carSection header ++ frames.flatMap carSection

variable {codec : RepoCodec Cid} {file header rest frame : List UInt8}
  {block : Cid × List UInt8} {blocks : List (Cid × List UInt8)} {car : CarStore Cid}

theorem FrameHolds.storedFrame (hCodec : codec.Lawful)
    (h : FrameHolds codec.toCarCodec frame block) : StoredFrame codec.toCarCodec frame block :=
  ⟨hCodec.readBytes_suffix _ _ h.reads,
    fun more => hCodec.readCid _ _ more h.reads h.hashed.version, h.hashed⟩

/-- The store's reader takes a length that fits the input only in its shortest form. -/
theorem readU64_section (hCodec : codec.Lawful) {next : List UInt8} {found : Nat × List UInt8}
    (hSection : Section rest frame next) (hFits : rest.length < 2 ^ 64)
    (hRead : codec.readU64 rest = .ok found) :
    found = (frame.length, frame ++ next) ∧ rest = carSection frame ++ next := by
  obtain ⟨n, after, hDecode, hLe, rfl, rfl⟩ := hSection
  have hRest := hCodec.readU64_shortest _ _ _ _ hRead hDecode
  have hAfter := length_of_decodeVarint hDecode
  have hLength : (after.take n).length = n := List.length_take_of_le hLe
  rw [hRest, hCodec.reads.readU64 n after (by omega)] at hRead
  cases hRead
  rw [carSection, hLength, List.append_assoc, List.take_append_drop]
  exact ⟨rfl, hRest⟩

variable [DecidableEq Cid]

theorem indexFrames_shortest (hCodec : codec.Lawful) {before : List UInt8} {fuel : Nat}
    {index index' : List (Cid × Nat × Nat)} (hFrames : Frames codec.toCarCodec rest blocks)
    (hFile : file = before ++ rest) (hFits : file.length < 2 ^ 64)
    (h : indexFrames codec.toCarCodec file fuel rest index = .ok index') :
    ∃ frames, rest = frames.flatMap carSection ∧
      List.Forall₂ (StoredFrame codec.toCarCodec) frames blocks := by
  induction hFrames generalizing before fuel index with
  | nil => exact ⟨[], rfl, .nil⟩
  | @cons rest frame next block blocks hSection hHolds _ ih =>
    cases fuel with
    | zero => cases h
    | succ fuel =>
      have hStored := hHolds.storedFrame hCodec
      have hLength : rest.length < 2 ^ 64 := by
        rw [hFile, List.length_append] at hFits
        omega
      have hRead := h
      rw [indexFrames] at hRead
      split at hRead
      · rename_i hEof
        obtain ⟨n, after, hDecode, _⟩ := hSection
        obtain ⟨byte, hByte, hLast⟩ := exists_last_of_decodeVarintFrom hDecode
        exact absurd hLast (hCodec.readU64_eof _ hEof byte hByte)
      · cases hRead
      · rename_i hFound
        obtain ⟨_, hRest⟩ := readU64_section hCodec hSection hLength hFound
        obtain ⟨e, _, hTurn⟩ := @indexFrames_section _ codec.toCarCodec _ _ _ hCodec.reads file
          before next fuel index hStored (by rw [hFile, hRest]) hFits
        rw [hRest, hTurn] at h
        obtain ⟨frames, hNext, hFrames⟩ := @ih (before ++ carSection frame) fuel (e :: index)
          (by rw [hFile, hRest, List.append_assoc]) h
        refine ⟨frame :: frames, ?_, .cons hStored hFrames⟩
        rw [hRest, hNext, List.flatMap_cons]

/-- What the store says of a framed file that it opens. -/
theorem openCar_shortest (hCodec : codec.Lawful) (hSection : Section file header rest)
    (hFrames : Frames codec.toCarCodec rest blocks) (hFits : file.length < 2 ^ 64)
    (h : openCar codec.toCarCodec file = .ok car) :
    Shortest file ∧ codec.headerFromSlice header = .ok car.header ∧
      ReadsBlocks codec.toCarCodec car blocks.reverse := by
  have hOpen := h
  obtain ⟨found, hRead, h⟩ := bind_ok.mp h
  obtain ⟨rfl, hFile⟩ := readU64_section hCodec hSection hFits (mapError_ok.mp hRead)
  obtain ⟨exact, hExact, h⟩ := bind_ok.mp h
  rw [readExact_append rfl] at hExact
  cases hExact
  obtain ⟨v1, hHeader, h⟩ := bind_ok.mp h
  obtain ⟨index, hIndex, _⟩ := bind_ok.mp h
  have hV1 := mapError_ok.mp hHeader
  obtain ⟨frames, hRest, hStored⟩ := indexFrames_shortest hCodec hFrames hFile hFits hIndex
  rw [hRest] at hFile
  rw [hFile] at hOpen hFits
  obtain ⟨car', hOpen', rfl, hReads⟩ := openCar_sections hCodec.reads hV1 hStored hFits
  rw [hOpen] at hOpen'
  cases hOpen'
  exact ⟨⟨header, frames, hFile⟩, hV1, hReads⟩

omit [DecidableEq Cid] in
theorem Frames.stored (hCodec : codec.Lawful) {frames : List (List UInt8)}
    (h : Frames codec.toCarCodec (frames.flatMap carSection) blocks)
    (hFits : (frames.flatMap carSection).length < 2 ^ 64) :
    List.Forall₂ (StoredFrame codec.toCarCodec) frames blocks := by
  induction frames generalizing blocks with
  | nil =>
    cases h with
    | nil => exact .nil
    | cons hSection _ _ =>
      have hLength := hSection.length_lt
      simp at hLength
  | cons frame frames ih =>
    have hFrame := @length_carSection frame
    rw [List.flatMap_cons] at h hFits
    rw [List.length_append] at hFits
    generalize hInput : carSection frame ++ frames.flatMap carSection = input at h
    cases h with
    | nil =>
      have hNil := congrArg List.length hInput
      rw [List.length_append, List.length_nil] at hNil
      omega
    | cons hSection hHolds hNext =>
      rw [← hInput] at hSection
      have hFirst : Section (carSection frame ++ frames.flatMap carSection) frame
          (frames.flatMap carSection) := section_carSection (by omega)
      obtain ⟨rfl, rfl⟩ := section_unique hFirst hSection
      exact .cons (hHolds.storedFrame hCodec) (ih hNext (by omega))

theorem openCar_of_shortest (hCodec : codec.Lawful) {v1 : V1Header Cid}
    (hSection : Section file header rest) (hFrames : Frames codec.toCarCodec rest blocks)
    (hFits : file.length < 2 ^ 64) (hShortest : Shortest file)
    (hHeader : codec.headerFromSlice header = .ok v1) :
    ∃ car, openCar codec.toCarCodec file = .ok car ∧ car.header = v1 ∧
      ReadsBlocks codec.toCarCodec car blocks.reverse := by
  obtain ⟨header', frames, rfl⟩ := hShortest
  have hLengths := hFits
  have hFrame := @length_carSection header'
  rw [List.length_append] at hLengths
  have hFirst : Section (carSection header' ++ frames.flatMap carSection) header'
      (frames.flatMap carSection) := section_carSection (by omega)
  obtain ⟨rfl, rfl⟩ := section_unique hFirst hSection
  exact openCar_sections hCodec.reads hHeader (hFrames.stored hCodec (by omega)) hFits

/-! ## The tree under a commit -/

namespace Mst

/-- What a node links to, in the order of its entries. -/
def NodeData.located (node : NodeData Cid) : List (Located Cid) :=
  node.left.toList.map .inSubtree ++
    node.entries.flatMap fun entry => .entry entry.value :: entry.tree.toList.map .inSubtree

omit [DecidableEq Cid] in
theorem parseEntries_located {prevKey : List UInt8} {entries : List (EntryData Cid)}
    {parsed : List (NodeEntry Cid)} (h : parseEntries codec prevKey entries = .ok parsed) :
    parsed.map NodeEntry.located =
      entries.flatMap fun entry => .entry entry.value :: entry.tree.toList.map .inSubtree := by
  induction entries generalizing prevKey parsed with
  | nil =>
    cases h
    rfl
  | cons entry entries ih =>
    obtain ⟨key, _, h⟩ := bind_ok.mp h
    obtain ⟨rest, hRest, h⟩ := bind_ok.mp h
    cases h
    rw [List.map_cons, List.map_append, ih hRest, List.flatMap_cons, List.map_map]
    rfl

omit [DecidableEq Cid] in
theorem parseNode_located {node : NodeData Cid} {parsed : List (NodeEntry Cid)}
    (h : parseNode codec node = .ok parsed) : parsed.map NodeEntry.located = node.located := by
  obtain ⟨entries, hEntries, h⟩ := bind_ok.mp h
  cases h
  rw [List.map_append, parseEntries_located hEntries, List.map_map]
  rfl

theorem below_ok {cid : Cid} {next : List (Located Cid)} :
    below codec car (.inSubtree cid) = .ok next ↔
      ∃ bytes node parsed, readStoreBlock codec.toCarCodec car cid = .ok bytes ∧
        codec.nodeFromSlice bytes = .ok node ∧ parseNode codec node = .ok parsed ∧
          next = node.located := by
  constructor
  · intro h
    obtain ⟨entries, hRead, h⟩ := bind_ok.mp h
    obtain ⟨bytes, hBytes, hRead⟩ := bind_ok.mp hRead
    obtain ⟨node, hNode, hParse⟩ := bind_ok.mp hRead
    cases h
    exact ⟨bytes, node, entries, mapError_ok.mp hBytes, mapError_ok.mp hNode, hParse,
      parseNode_located hParse⟩
  · rintro ⟨bytes, node, parsed, hBytes, hNode, hParse, rfl⟩
    refine bind_ok.mpr ⟨parsed, bind_ok.mpr ⟨bytes, mapError_ok.mpr hBytes,
      bind_ok.mpr ⟨node, mapError_ok.mpr hNode, hParse⟩⟩, ?_⟩
    rw [← parseNode_located hParse]
    rfl

/-- The tree under `cid` is finite, and each of its nodes has the declared shape. -/
inductive DeclaredTree (codec : RepoCodec Cid) (blocks : List (Cid × List UInt8)) : Cid → Prop
  | intro {cid : Cid} {bytes : List UInt8} {entries : List (String × Ipld Cid)}
      {node : NodeData Cid} {parsed : List (NodeEntry Cid)}
      (hBlock : blocks.lookup cid = some bytes)
      (hMap : codec.fromSlice bytes = .ok (.map entries))
      (hNode : NodeData.ofMap entries = some node) (hKeys : parseNode codec node = .ok parsed)
      (hBelow : ∀ child, .inSubtree child ∈ node.located → DeclaredTree codec blocks child) :
      DeclaredTree codec blocks cid

/-- The walk of a declared tree ends. -/
theorem DeclaredTree.unfolds (hCodec : codec.Lawful)
    (hReads : ReadsBlocks codec.toCarCodec car blocks) {cid : Cid} (h : DeclaredTree codec blocks cid) :
    Unfolds (Mst.below codec car) (.inSubtree cid) := by
  induction h with
  | @intro cid bytes entries node parsed hBlock hMap hNode hKeys _ ih =>
    have hBytes : readStoreBlock codec.toCarCodec car cid = .ok bytes := by
      rw [hReads, hBlock]
      rfl
    refine .intro (below_ok.mpr ⟨bytes, node, parsed, hBytes,
      (hCodec.node _ _ _ hMap).mpr hNode, hKeys, rfl⟩) ?_
    intro item hItem
    cases item with
    | entry value =>
      have hLeaf : Mst.below codec car (.entry value) = .ok [] := rfl
      exact .intro hLeaf (by simp)
    | inSubtree child => exact ih child hItem

/-- A tree whose walk ends is declared, if its blocks are maps. -/
theorem declaredTree_of_unfolds (hCodec : codec.Lawful)
    (hReads : ReadsBlocks codec.toCarCodec car blocks) {P : Cid → Prop}
    (hMaps : ∀ cid bytes, P cid → blocks.lookup cid = some bytes →
      ∃ entries, codec.fromSlice bytes = .ok (.map entries) ∧
        ∀ node, NodeData.ofMap entries = some node →
          ∀ child, .inSubtree child ∈ node.located → P child)
    {item : Located Cid} (h : Unfolds (below codec car) item) {cid : Cid}
    (hItem : item = .inSubtree cid) (hCid : P cid) : DeclaredTree codec blocks cid := by
  induction h generalizing cid with
  | @intro item next hNext _ ih =>
    subst hItem
    obtain ⟨bytes, node, parsed, hBytes, hNode, hKeys, rfl⟩ := below_ok.mp hNext
    rw [hReads] at hBytes
    cases hBlock : blocks.lookup cid with
    | none =>
      rw [hBlock] at hBytes
      cases hBytes
    | some bytes' =>
      rw [hBlock] at hBytes
      cases hBytes
      obtain ⟨entries, hMap, hDown⟩ := hMaps cid bytes hCid hBlock
      have hDeclared := (hCodec.node _ _ _ hMap).mp hNode
      refine .intro hBlock hMap hDeclared hKeys ?_
      intro child hChild
      exact ih _ hChild rfl (hDown node hDeclared child hChild)

end Mst

/-! ## What an import is made of -/

theorem openImport_ok {carBytes : CarFile} {repo : CarRepository Cid} :
    openImport codec carBytes = .ok repo ↔
      validateCar codec.toCarCodec carBytes.bytes = .ok () ∧
        openCar codec.toCarCodec carBytes.bytes = .ok repo.db ∧ repo.db.header.roots = [repo.root] ∧
          ∃ bytes, readStoreBlock codec.toCarCodec repo.db repo.root = .ok bytes ∧
            codec.commitFromReader bytes = .ok repo.latestCommit := by
  constructor
  · intro h
    obtain ⟨_, hValid, h⟩ := bind_ok.mp h
    obtain ⟨car, hCar, h⟩ := bind_ok.mp h
    split at h
    · rename_i root hRoots
      obtain ⟨bytes, hBytes, h⟩ := bind_ok.mp (mapError_ok.mp h)
      obtain ⟨commit, hCommit, h⟩ := bind_ok.mp h
      cases h
      exact ⟨hValid, mapError_ok.mp hCar, hRoots, bytes, mapError_ok.mp hBytes,
        mapError_ok.mp hCommit⟩
    · cases h
  · rintro ⟨hValid, hCar, hRoots, bytes, hBytes, hCommit⟩
    refine bind_ok.mpr ⟨(), hValid, bind_ok.mpr ⟨repo.db, mapError_ok.mpr hCar, ?_⟩⟩
    rw [hRoots]
    exact mapError_ok.mpr (bind_ok.mpr ⟨bytes, mapError_ok.mpr hBytes,
      bind_ok.mpr ⟨_, mapError_ok.mpr hCommit, rfl⟩⟩)

theorem exportInto_ok {fuel : Nat} {repo : CarRepository Cid}
    {captured : List (Cid × List UInt8)} :
    exportInto codec fuel repo = some (.ok captured) ↔
      ∃ taken, walk (Mst.below codec repo.db) fuel [.inSubtree repo.latestCommit.data] =
          some (.ok taken) ∧
        captureBlocks codec repo (repo.root :: taken.map Mst.Located.cid) = .ok captured := by
  unfold exportInto exportCids
  rw [Option.map_map]
  cases walk (Mst.below codec repo.db) fuel [.inSubtree repo.latestCommit.data] with
  | none => simp
  | some walked =>
    cases walked with
    | error e =>
      simp only [Option.map_some, Option.some.injEq, reduceCtorEq, false_and, exists_false,
        iff_false]
      nofun
    | ok taken =>
      constructor
      · intro h
        exact ⟨taken, rfl, Option.some.inj h⟩
      · rintro ⟨_, hTaken, hCaptured⟩
        cases hTaken
        exact congrArg some hCaptured

theorem importRepoCar_ok {fuel : Nat} {carBytes : CarFile} {did : String}
    {imported : ImportedRepo Cid} :
    importRepoCar codec fuel carBytes did = some (.ok imported) ↔
      ∃ repo captured, openImport codec carBytes = .ok repo ∧
        exportInto codec fuel repo = some (.ok captured) ∧
          finishImport codec repo did captured = .ok imported := by
  unfold importRepoCar
  cases openImport codec carBytes with
  | error e => simp
  | ok repo =>
    dsimp only
    rw [Option.map_eq_some_iff]
    constructor
    · rintro ⟨captured, hExport, h⟩
      obtain ⟨blocks, hBlocks, h⟩ := bind_ok.mp h
      rw [mapError_ok.mp hBlocks] at hExport
      exact ⟨repo, blocks, rfl, hExport, h⟩
    · rintro ⟨_, captured, hRepo, hExport, h⟩
      cases hRepo
      exact ⟨.ok captured, hExport, h⟩

/-- Blocks that hash to their CIDs are captured under them. -/
theorem captureBlocks_lookup {repo : CarRepository Cid} (hCodec : codec.Lawful)
    (hReads : ReadsBlocks codec.toCarCodec repo.db blocks)
    (hHashed : ∀ block ∈ blocks, IsHashedBlock codec.toCarCodec block) {cids : List Cid}
    (hCids : ∀ cid ∈ cids, (blocks.lookup cid).isSome) :
    ∃ captured, captureBlocks codec repo cids = .ok captured ∧
      ∀ cid ∈ cids, captured.lookup cid = blocks.lookup cid := by
  have hAll : ∀ l : List Cid, (∀ cid ∈ l, (blocks.lookup cid).isSome) →
      ∃ captured : List (Cid × List UInt8), (l.mapM fun cid => do
        let contents ← (readStoreBlock codec.toCarCodec repo.db cid).mapError .blockStore
        return captureBlock codec (codec.codec cid) contents) =
          (.ok captured : Except RepoError _) ∧
        ∀ cid ∈ l, captured.lookup cid = blocks.lookup cid := by
    intro l
    induction l with
    | nil => exact fun _ => ⟨[], rfl, by simp⟩
    | cons cid l ih =>
      intro hl
      obtain ⟨hHead, hTail⟩ := List.forall_mem_cons.mp hl
      obtain ⟨contents, hContents⟩ := Option.isSome_iff_exists.mp hHead
      obtain ⟨captured, hCaptured, hLookup⟩ := ih hTail
      have hBlock := hHashed (cid, contents) (mem_of_lookup hContents)
      have hRead : readStoreBlock codec.toCarCodec repo.db cid = .ok contents := by
        rw [hReads, hContents]
        rfl
      have hKey : captureBlock codec (codec.codec cid) contents = (cid, contents) := by
        have hNew := hCodec.reads.newV1 cid hBlock.version
        rw [hBlock.hash] at hNew
        rw [captureBlock, hNew]
      refine ⟨(cid, contents) :: captured, mapM_cons_ok.mpr ⟨(cid, contents), captured,
        bind_ok.mpr ⟨contents, mapError_ok.mpr hRead, ?_⟩, hCaptured, rfl⟩, ?_⟩
      · rw [hKey]
        rfl
      · intro c hc
        rw [List.lookup_cons]
        by_cases hEq : c = cid
        · rw [hEq, beq_self_eq_true, hContents]
        · rw [beq_eq_false_iff_ne.mpr hEq]
          exact hLookup c (List.mem_of_ne_of_mem hEq hc)
  obtain ⟨captured, hCaptured, hLookup⟩ :=
    hAll cids.dedup fun cid hcid => hCids cid (List.mem_dedup.mp hcid)
  exact ⟨captured, hCaptured, fun cid hcid => hLookup cid (List.mem_dedup.mpr hcid)⟩

omit [DecidableEq Cid] in
theorem commitDid_ok {bytes : List UInt8} {entries : List (String × Ipld Cid)} {did : String}
    (hMap : codec.fromSlice bytes = .ok (.map entries))
    (hVersion : assocGet "version" entries = some (.integer REPO_VERSION))
    (hDid : assocGet "did" entries = some (.string did)) : commitDid codec bytes = .ok did := by
  refine bind_ok.mpr ⟨.map entries, mapError_ok.mpr hMap, ?_⟩
  dsimp only
  rw [hVersion]
  refine bind_ok.mpr ⟨(), check_ok.mpr (decide_eq_true rfl), ?_⟩
  rw [hDid]
  rfl

theorem finishImport_ok {repo : CarRepository Cid} {did : String}
    {captured : List (Cid × List UInt8)} {imported : ImportedRepo Cid}
    (h : finishImport codec repo did captured = .ok imported) :
    imported.root = repo.root ∧ imported.rev = repo.latestCommit.rev := by
  unfold finishImport at h
  split at h
  · cases h
  · obtain ⟨_, _, h⟩ := bind_ok.mp h
    obtain ⟨_, _, h⟩ := bind_ok.mp h
    cases h
    exact ⟨rfl, rfl⟩

end Ezpds.Repo
