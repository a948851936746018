import Ezpds.Data.Cid
import Ezpds.Repo.CarImport

/-!
# Backups of a repository

`validate_repo_car` decides whether a fetched CAR becomes the recovery copy. It reads the same
frames as the import of the server, but it decodes every block as a value of any shape and then
looks at the fields that it needs: it does not read the version of the header, it takes any text
for a rev, and of a tree node it sees the links.

* `openSnapshot_ok`: what the wallet has checked before it walks the tree.
* `node_agrees`: where a node has the declared shape, both walks find the same links.
* `validateRepoCar_ok`: what a validated file is made of.
-/

namespace Ezpds.Wallet

open Library Repo

variable {Cid : Type}

/-- The errors of a validation. -/
inductive RepoBackupError where
  | carInvalid (message : String)
  deriving DecidableEq

structure ValidatedCar where
  rootCid : String
  rev : String
  deriving DecidableEq

/-! ## Validation -/

def orInvalid {α : Type} (message : String) : Option α → Except RepoBackupError α
  | some a => .ok a
  | none => .error (.carInvalid message)

def splitSection (rest : List UInt8) (malformed short : String) :
    Except RepoBackupError (List UInt8 × List UInt8) := do
  let (len, after) ← orInvalid malformed (decodeVarint rest)
  check (len ≤ after.length) (.carInvalid short)
  return (after.take len, after.drop len)

def readRoots (codec : RepoCodec Cid) (headerBytes : List UInt8) :
    Except RepoBackupError (List Cid) := do
  let header ← (codec.fromSlice headerBytes).mapError fun e =>
    .carInvalid ("CAR header is not dag-cbor: " ++ e)
  match header with
  | .map map => do
    let items ← orInvalid "CAR header has no roots array" (listField "roots" map)
    items.mapM fun item => orInvalid "CAR root is not a CID link" (asLink item)
  | _ => throw (.carInvalid "CAR header is not a map")

def readFrame (codec : RepoCodec Cid) (frame : List UInt8) :
    Except RepoBackupError (Cid × List UInt8) := do
  let (cid, data) ← (codec.readBytes frame).mapError fun e =>
    .carInvalid ("CAR block frame has an invalid CID: " ++ e)
  check (codec.version cid = .v1) (.carInvalid "CAR block CID is not CIDv1")
  check (codec.codec cid = DAG_CBOR ∨ codec.codec cid = RAW)
    (.carInvalid "CAR block CID has an unsupported codec")
  check ((codec.hash cid).code = SHA2_256 ∧
      (codec.hash cid).digest.length = SHA2_256_DIGEST_LEN)
    (.carInvalid "CAR block CID has an unsupported multihash (must be SHA2-256)")
  check ((codec.hash cid).digest = codec.sha256 data)
    (.carInvalid "CAR block bytes do not hash to the block CID")
  return (cid, data)

/-- The loop over the frames. The map of the blocks is the list of its insertions, the last of
which comes first. -/
def readFrames (codec : RepoCodec Cid) :
    Nat → List UInt8 → List (Cid × List UInt8) →
      Except RepoBackupError (List (Cid × List UInt8))
  | _, [], blocks => .ok blocks
  | 0, _ :: _, _ => .error (.carInvalid "malformed CAR block frame length varint")
  | fuel + 1, rest, blocks => do
    let (frame, next) ← splitSection rest "malformed CAR block frame length varint"
      "declared CAR block frame length exceeds remaining input"
    let block ← readFrame codec frame
    readFrames codec fuel next (block :: blocks)

def isVersion : Option (Ipld Cid) → Bool
  | some (.integer v) => v = REPO_VERSION
  | _ => false

def checkDid (expectedDid : String) : Option (Ipld Cid) → Except RepoBackupError Unit
  | some (.string did) => check (did = expectedDid)
      (.carInvalid ("commit is bound to DID " ++ did ++ ", expected " ++ expectedDid))
  | _ => throw (.carInvalid "commit is missing a did field")

/-- What the fields of the root commit say: its rev and its data link. -/
def commitFields (expectedDid : String) (commit : List (String × Ipld Cid)) :
    Except RepoBackupError (String × Cid) := do
  check (isVersion (assocGet "version" commit))
    (.carInvalid "commit has an unsupported or missing version")
  checkDid expectedDid (assocGet "did" commit)
  check (bytesField "sig" commit).isSome
    (.carInvalid "commit is not signed (missing sig field)")
  let rev ← orInvalid "commit is missing a rev field" (stringField "rev" commit)
  let data ← orInvalid "commit is missing a data (MST root) link" (linkField "data" commit)
  return (rev, data)

/-- A CAR as it has been read when the walk of its tree starts. -/
structure Snapshot (Cid : Type) where
  root : Cid
  blocks : List (Cid × List UInt8)
  rev : String
  data : Cid

section Walk

variable [CidText Cid] [DecidableEq Cid]

def readCommit (codec : RepoCodec Cid) (root : Cid) (blocks : List (Cid × List UInt8))
    (expectedDid : String) : Except RepoBackupError (Snapshot Cid) := do
  let rootBytes ← orInvalid "root commit block is absent from the CAR" (blocks.lookup root)
  let commit ← (codec.fromSlice rootBytes).mapError fun e =>
    .carInvalid ("root commit is not dag-cbor: " ++ e)
  match commit with
  | .map commit => do
    let (rev, data) ← commitFields expectedDid commit
    return ⟨root, blocks, rev, data⟩
  | _ => throw (.carInvalid "root commit is not a map")

def openSnapshot (codec : RepoCodec Cid) (carBytes : List UInt8) (expectedDid : String) :
    Except RepoBackupError (Snapshot Cid) := do
  let (header, rest) ← splitSection carBytes "malformed CAR header length varint"
    "declared CAR header length exceeds input"
  let roots ← readRoots codec header
  match roots with
  | [root] => do
    let blocks ← readFrames codec rest.length rest []
    readCommit codec root blocks expectedDid
  | roots => throw (.carInvalid
      ("CAR must declare exactly one root, found " ++ toString roots.length))

/-- One entry of a node: its value has to be there, and its right subtree is followed. -/
def mstEntry (blocks : List (Cid × List UInt8)) (cid : Cid) :
    Ipld Cid → Except String (Option Cid)
  | .map entry =>
    match linkField "v" entry with
    | some value => do
      check (blocks.lookup value).isSome ("record block " ++ CidText.toText value ++
        " referenced by the MST is missing from the CAR")
      return linkField "t" entry
    | none => throw ("an MST entry in " ++ CidText.toText cid ++ " has no value link")
  | _ => throw ("MST node " ++ CidText.toText cid ++ " has a non-map entry")

/-- One turn of `walk_mst`: the subtrees of a node, the left one first. -/
def mstNode (codec : RepoCodec Cid) (blocks : List (Cid × List UInt8)) (cid : Cid) :
    Except String (List Cid) :=
  match blocks.lookup cid with
  | none => throw ("MST node " ++ CidText.toText cid ++ " is missing from the CAR")
  | some bytes => do
    let node ← (codec.fromSlice bytes).mapError fun e =>
      "MST node " ++ CidText.toText cid ++ " is not dag-cbor: " ++ e
    match node with
    | .map node =>
      match listField "e" node with
      | some entries => do
        let rights ← entries.mapM (mstEntry blocks cid)
        return (linkField "l" node).toList ++ rights.flatMap Option.toList
      | none => throw ("MST node " ++ CidText.toText cid ++ " has no entries array")
    | _ => throw ("MST node " ++ CidText.toText cid ++ " is not a map")

def walkMst (codec : RepoCodec Cid) (fuel : Nat) (blocks : List (Cid × List UInt8))
    (mstRoot : Cid) : Option (Except String Unit) :=
  walkSeen (mstNode codec blocks) fuel [] [mstRoot]

/-- `none` while the walk has not ended. -/
def validateRepoCar (codec : RepoCodec Cid) (fuel : Nat) (carBytes : CarFile)
    (expectedDid : String) : Option (Except RepoBackupError ValidatedCar) :=
  match openSnapshot codec carBytes.bytes expectedDid with
  | .error e => some (.error e)
  | .ok snapshot =>
    (walkMst codec fuel snapshot.blocks snapshot.data).map fun walked => do
      walked.mapError .carInvalid
      return ⟨CidText.toText snapshot.root, snapshot.rev⟩

end Walk

/-! ## What has been checked -/

variable {codec : RepoCodec Cid} {file header rest frame next : List UInt8}
  {block : Cid × List UInt8} {blocks : List (Cid × List UInt8)} {did : String}

theorem orInvalid_ok {α : Type} {message : String} {o : Option α} {a : α} :
    orInvalid message o = .ok a ↔ o = some a := by
  cases o <;> simp [orInvalid]

theorem splitSection_ok {malformed short : String} :
    splitSection rest malformed short = .ok (frame, next) ↔ Section rest frame next := by
  constructor
  · intro h
    obtain ⟨⟨n, after⟩, hDecode, h⟩ := bind_ok.mp h
    obtain ⟨_, hLe, h⟩ := bind_ok.mp h
    cases h
    exact ⟨n, after, orInvalid_ok.mp hDecode, of_decide_eq_true (check_ok.mp hLe), rfl, rfl⟩
  · rintro ⟨n, after, hDecode, hLe, rfl, rfl⟩
    exact bind_ok.mpr ⟨(n, after), orInvalid_ok.mpr hDecode,
      bind_ok.mpr ⟨(), check_ok.mpr (decide_eq_true hLe), rfl⟩⟩

theorem readFrame_ok (h : readFrame codec frame = .ok block) :
    FrameHolds codec.toCarCodec frame block := by
  obtain ⟨⟨cid, data⟩, hRead, h⟩ := bind_ok.mp h
  obtain ⟨_, hVersion, h⟩ := bind_ok.mp h
  obtain ⟨_, hCodec, h⟩ := bind_ok.mp h
  obtain ⟨_, hHash, h⟩ := bind_ok.mp h
  obtain ⟨_, hBytes, h⟩ := bind_ok.mp h
  cases h
  have hCode := (of_decide_eq_true (check_ok.mp hHash)).1
  have hDigest := of_decide_eq_true (check_ok.mp hBytes)
  refine ⟨mapError_ok.mp hRead, of_decide_eq_true (check_ok.mp hVersion),
    of_decide_eq_true (check_ok.mp hCodec), ?_⟩
  rw [← hCode, ← hDigest]

theorem readFrames_ok {fuel : Nat} {before found : List (Cid × List UInt8)}
    (h : readFrames codec fuel rest before = .ok found) :
    ∃ blocks, Frames codec.toCarCodec rest blocks ∧ found = blocks.reverse ++ before := by
  induction fuel generalizing rest before with
  | zero =>
    cases rest with
    | nil =>
      cases h
      exact ⟨[], .nil, rfl⟩
    | cons byte rest => cases h
  | succ fuel ih =>
    cases rest with
    | nil =>
      cases h
      exact ⟨[], .nil, rfl⟩
    | cons byte rest =>
      obtain ⟨⟨frame, next⟩, hSplit, h⟩ := bind_ok.mp h
      obtain ⟨block, hFrame, h⟩ := bind_ok.mp h
      obtain ⟨blocks, hBlocks, rfl⟩ := ih h
      refine ⟨block :: blocks, .cons (splitSection_ok.mp hSplit) (readFrame_ok hFrame) hBlocks, ?_⟩
      rw [List.reverse_cons, List.append_assoc]
      rfl

theorem readRoots_ok {root : Cid} (h : readRoots codec header = .ok [root]) :
    ∃ map, codec.fromSlice header = .ok (.map map) ∧
      listField "roots" map = some [.link root] := by
  obtain ⟨value, hSlice, h⟩ := bind_ok.mp h
  cases value with
  | map map =>
    obtain ⟨items, hItems, h⟩ := bind_ok.mp h
    refine ⟨map, mapError_ok.mp hSlice, ?_⟩
    rw [orInvalid_ok.mp hItems]
    cases mapM_ok.mp h with
    | @cons item _ items _ hItem hRest =>
      cases hRest
      have hLink := orInvalid_ok.mp hItem
      cases item with
      | link cid =>
        cases hLink
        rfl
      | null => cases hLink
      | bool => cases hLink
      | integer => cases hLink
      | float => cases hLink
      | string => cases hLink
      | bytes => cases hLink
      | list => cases hLink
      | map => cases hLink
  | null => cases h
  | bool => cases h
  | integer => cases h
  | float => cases h
  | string => cases h
  | bytes => cases h
  | list => cases h
  | link => cases h

/-- What the wallet has seen in the fields of a commit. -/
structure CommitSeen (did rev : String) (data : Cid) (commit : List (String × Ipld Cid)) :
    Prop where
  version : assocGet "version" commit = some (.integer REPO_VERSION)
  did : assocGet "did" commit = some (.string did)
  rev : stringField "rev" commit = some rev
  data : linkField "data" commit = some data

theorem commitFields_ok {rev : String} {data : Cid} {commit : List (String × Ipld Cid)}
    (h : commitFields did commit = .ok (rev, data)) : CommitSeen did rev data commit := by
  obtain ⟨_, hVersion, h⟩ := bind_ok.mp h
  obtain ⟨_, hDid, h⟩ := bind_ok.mp h
  obtain ⟨_, _, h⟩ := bind_ok.mp h
  obtain ⟨rev', hRev, h⟩ := bind_ok.mp h
  obtain ⟨data', hData, h⟩ := bind_ok.mp h
  cases h
  refine ⟨?_, ?_, orInvalid_ok.mp hRev, orInvalid_ok.mp hData⟩
  · have hIs := check_ok.mp hVersion
    unfold isVersion at hIs
    split at hIs
    · rename_i v hGet
      rw [hGet, of_decide_eq_true hIs]
    · cases hIs
  · unfold checkDid at hDid
    split at hDid
    · rename_i found hGet
      rw [hGet, of_decide_eq_true (check_ok.mp hDid)]
    · cases hDid

variable [DecidableEq Cid]

/-- The parts of a file that both readers look at. -/
structure Backup (codec : RepoCodec Cid) (file : List UInt8) where
  header : List UInt8
  rest : List UInt8
  headerMap : List (String × Ipld Cid)
  root : Cid
  blocks : List (Cid × List UInt8)
  rootBytes : List UInt8
  commitMap : List (String × Ipld Cid)
  data : Cid
  isSection : Section file header rest
  header_eq : codec.fromSlice header = .ok (.map headerMap)
  roots_eq : listField "roots" headerMap = some [.link root]
  frames : Frames codec.toCarCodec rest blocks
  root_eq : blocks.reverse.lookup root = some rootBytes
  commit_eq : codec.fromSlice rootBytes = .ok (.map commitMap)
  data_eq : linkField "data" commitMap = some data

/-- A file has its parts in one way. -/
instance : Subsingleton (Backup codec file) where
  allEq := by
    rintro ⟨header, rest, headerMap, root, blocks, rootBytes, commitMap, data, hSection, hHeader,
      hRoots, hFrames, hRoot, hCommit, hData⟩ ⟨header', rest', headerMap', root', blocks',
      rootBytes', commitMap', data', hSection', hHeader', hRoots', hFrames', hRoot', hCommit',
      hData'⟩
    obtain ⟨rfl, rfl⟩ := section_unique hSection hSection'
    obtain rfl : headerMap' = headerMap := by
      rw [hHeader] at hHeader'
      cases hHeader'
      rfl
    obtain rfl : root' = root := by
      rw [hRoots] at hRoots'
      cases hRoots'
      rfl
    obtain rfl := frames_unique hFrames hFrames'
    obtain rfl : rootBytes' = rootBytes := by
      rw [hRoot] at hRoot'
      exact (Option.some.inj hRoot').symm
    obtain rfl : commitMap' = commitMap := by
      rw [hCommit] at hCommit'
      cases hCommit'
      rfl
    obtain rfl : data' = data := by
      rw [hData] at hData'
      exact (Option.some.inj hData').symm
    rfl

theorem openSnapshot_ok {snapshot : Snapshot Cid}
    (h : openSnapshot codec file did = .ok snapshot) :
    ∃ backup : Backup codec file, backup.root = snapshot.root ∧
      backup.blocks.reverse = snapshot.blocks ∧ backup.data = snapshot.data ∧
        CommitSeen did snapshot.rev snapshot.data backup.commitMap := by
  obtain ⟨⟨header, rest⟩, hSplit, h⟩ := bind_ok.mp h
  obtain ⟨roots, hRoots, h⟩ := bind_ok.mp h
  split at h
  · rename_i root
    obtain ⟨found, hFrames, h⟩ := bind_ok.mp h
    obtain ⟨headerMap, hHeader, hLinks⟩ := readRoots_ok hRoots
    obtain ⟨blocks, hBlocks, rfl⟩ := readFrames_ok hFrames
    rw [List.append_nil] at h
    obtain ⟨rootBytes, hRoot, h⟩ := bind_ok.mp h
    obtain ⟨value, hSlice, h⟩ := bind_ok.mp h
    split at h
    · rename_i commit
      obtain ⟨⟨rev, data⟩, hFields, h⟩ := bind_ok.mp h
      cases h
      have hSeen := commitFields_ok hFields
      exact ⟨⟨header, rest, headerMap, root, blocks, rootBytes, commit, data,
        splitSection_ok.mp hSplit, hHeader, hLinks, hBlocks, orInvalid_ok.mp hRoot,
        mapError_ok.mp hSlice, hSeen.data⟩, rfl, rfl, rfl, hSeen⟩
    · cases h
  · cases h

/-! ## The two walks -/

variable [CidText Cid]

theorem mstNode_ok {cid : Cid} {subtrees : List Cid}
    (h : mstNode codec blocks cid = .ok subtrees) :
    ∃ bytes map items rights, blocks.lookup cid = some bytes ∧
      codec.fromSlice bytes = .ok (.map map) ∧ listField "e" map = some items ∧
        items.mapM (mstEntry blocks cid) = .ok rights ∧
          subtrees = (linkField "l" map).toList ++ rights.flatMap Option.toList := by
  unfold mstNode at h
  split at h
  · cases h
  · rename_i bytes hBlock
    obtain ⟨value, hSlice, h⟩ := bind_ok.mp h
    split at h
    · rename_i map
      split at h
      · rename_i items hItems
        obtain ⟨rights, hRights, h⟩ := bind_ok.mp h
        cases h
        exact ⟨bytes, map, items, rights, hBlock, mapError_ok.mp hSlice, hItems, hRights, rfl⟩
      · cases h
    · cases h

omit [CidText Cid] [DecidableEq Cid] in
theorem optionalLinkField_some {name : String} {map : List (String × Ipld Cid)}
    {link : Option Cid} (h : optionalLinkField name map = some link) :
    linkField name map = link := by
  unfold optionalLinkField at h
  unfold linkField
  split at h
  · rename_i hGet
    cases h
    rw [hGet]
    rfl
  · rename_i hGet
    cases h
    rw [hGet]
    rfl
  · rename_i cid hGet
    cases h
    rw [hGet]
    rfl
  · cases h

/-- An entry of the declared shape, as the wallet sees it. -/
theorem entry_agrees {cid : Cid} {item : Ipld Cid} {right : Option Cid}
    {entry : Mst.EntryData Cid} (hItem : mstEntry blocks cid item = .ok right)
    (hEntry : Mst.EntryData.ofIpld item = some entry) :
    right = entry.tree ∧ (blocks.lookup entry.value).isSome := by
  cases item with
  | map map =>
    obtain ⟨p, _, hEntry⟩ := Option.bind_eq_some_iff.mp hEntry
    obtain ⟨k, _, hEntry⟩ := Option.bind_eq_some_iff.mp hEntry
    obtain ⟨value, hValue, hEntry⟩ := Option.bind_eq_some_iff.mp hEntry
    obtain ⟨tree, hTree, hEntry⟩ := Option.bind_eq_some_iff.mp hEntry
    cases hEntry
    rw [mstEntry, hValue] at hItem
    obtain ⟨_, hPresent, hItem⟩ := bind_ok.mp hItem
    cases hItem
    exact ⟨optionalLinkField_some hTree, check_ok.mp hPresent⟩
  | null => cases hEntry
  | bool => cases hEntry
  | integer => cases hEntry
  | float => cases hEntry
  | string => cases hEntry
  | bytes => cases hEntry
  | list => cases hEntry
  | link => cases hEntry

theorem entries_agree {cid : Cid} {items : List (Ipld Cid)} {rights : List (Option Cid)}
    {entries : List (Mst.EntryData Cid)} (hItems : items.mapM (mstEntry blocks cid) = .ok rights)
    (hEntries : items.mapM Mst.EntryData.ofIpld = some entries) :
    rights = entries.map Mst.EntryData.tree ∧
      ∀ entry ∈ entries, (blocks.lookup entry.value).isSome := by
  induction items generalizing rights entries with
  | nil =>
    cases hItems
    cases hEntries
    exact ⟨rfl, by simp⟩
  | cons item items ih =>
    obtain ⟨right, rights, hItem, hTail, rfl⟩ := mapM_cons_ok.mp hItems
    rw [List.mapM_cons] at hEntries
    obtain ⟨entry, hEntry, hEntries⟩ := Option.bind_eq_some_iff.mp hEntries
    obtain ⟨entries, hRest, hEntries⟩ := Option.bind_eq_some_iff.mp hEntries
    cases hEntries
    obtain ⟨rfl, hValue⟩ := entry_agrees hItem hEntry
    obtain ⟨rfl, hValues⟩ := ih hTail hRest
    exact ⟨rfl, List.forall_mem_cons.mpr ⟨hValue, hValues⟩⟩

/-- Where a node has the declared shape, the wallet follows the same subtrees and has found the
values. -/
theorem node_agrees {cid : Cid} {subtrees : List Cid} {bytes : List UInt8}
    {map : List (String × Ipld Cid)} {node : Mst.NodeData Cid}
    (h : mstNode codec blocks cid = .ok subtrees) (hBlock : blocks.lookup cid = some bytes)
    (hMap : codec.fromSlice bytes = .ok (.map map)) (hNode : Mst.NodeData.ofMap map = some node) :
    (∀ child, .inSubtree child ∈ node.located → child ∈ subtrees) ∧
      ∀ value, .entry value ∈ node.located → (blocks.lookup value).isSome := by
  obtain ⟨bytes', map', items, rights, hBlock', hMap', hItems, hRights, rfl⟩ := mstNode_ok h
  rw [hBlock] at hBlock'
  cases hBlock'
  rw [hMap] at hMap'
  cases hMap'
  obtain ⟨left, hLeft, hNode⟩ := Option.bind_eq_some_iff.mp hNode
  obtain ⟨items', hItems', hNode⟩ := Option.bind_eq_some_iff.mp hNode
  obtain ⟨entries, hEntries, hNode⟩ := Option.bind_eq_some_iff.mp hNode
  cases hNode
  rw [hItems] at hItems'
  cases hItems'
  obtain ⟨rfl, hValues⟩ := entries_agree hRights hEntries
  rw [optionalLinkField_some hLeft]
  simp only [Mst.NodeData.located, List.mem_append, List.mem_map, List.mem_flatMap,
    List.mem_cons, List.flatMap_map]
  refine ⟨?_, ?_⟩
  · rintro child (⟨c, hc, hEq⟩ | ⟨entry, hMem, hEq | ⟨c, hc, hEq⟩⟩)
    · cases hEq
      exact Or.inl hc
    · cases hEq
    · cases hEq
      exact Or.inr ⟨entry, hMem, hc⟩
  · rintro value (⟨c, _, hEq⟩ | ⟨entry, hMem, hEq | ⟨c, _, hEq⟩⟩)
    · cases hEq
    · cases hEq
      exact hValues entry hMem
    · cases hEq

/-- What a walk of the wallet that ended well leaves behind: a set of nodes that it has looked
up, with all their subtrees. -/
structure Walked (codec : RepoCodec Cid) (blocks : List (Cid × List UInt8)) (root : Cid)
    (all : List Cid) : Prop where
  root : root ∈ all
  nodes : ∀ cid ∈ all, ∃ subtrees, mstNode codec blocks cid = .ok subtrees ∧
    ∀ child ∈ subtrees, child ∈ all

theorem walkMst_ok {fuel : Nat} {root : Cid}
    (h : walkMst codec fuel blocks root = some (.ok ())) :
    ∃ all, Walked codec blocks root all := by
  obtain ⟨all, hStack, _, hClosed⟩ := walkSeen_closed h (by simp)
  exact ⟨all, hStack root (List.mem_singleton_self _), hClosed⟩

theorem validateRepoCar_ok {fuel : Nat} {carBytes : CarFile} {validated : ValidatedCar}
    (h : validateRepoCar codec fuel carBytes did = some (.ok validated)) :
    ∃ (backup : Backup codec carBytes.bytes) (all : List Cid),
      validated.rootCid = CidText.toText backup.root ∧
        CommitSeen did validated.rev backup.data backup.commitMap ∧
          Walked codec backup.blocks.reverse backup.data all := by
  unfold validateRepoCar at h
  split at h
  · cases h
  · rename_i snapshot hOpen
    obtain ⟨backup, hRoot, hBlocks, hData, hSeen⟩ := openSnapshot_ok hOpen
    obtain ⟨walked, hWalk, hResult⟩ := Option.map_eq_some_iff.mp h
    obtain ⟨_, hWalked, hResult⟩ := bind_ok.mp hResult
    cases hResult
    rw [mapError_ok.mp hWalked] at hWalk
    obtain ⟨all, hAll⟩ := walkMst_ok hWalk
    refine ⟨backup, all, by rw [hRoot], ?_, ?_⟩
    · rw [hData]
      exact hSeen
    · rw [hData, hBlocks]
      exact hAll

end Ezpds.Wallet
