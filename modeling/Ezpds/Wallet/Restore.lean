import Ezpds.Library.Cbor
import Ezpds.Repo.Tid
import Ezpds.Spaces.RepoCar
import Ezpds.Wallet.RepoBackup

/-!
# Restoring a backup

The import of the server decodes the header, the commit and the nodes as its own types, reads
lengths in their shortest form only, and walks the tree without remembering where it was. A
backup that the wallet has validated can fail each of these.

* `Backup.Restorable.imports`, `Backup.restorable_of_import`: what the import asks for beyond
  the checks of the wallet.
* `validated_restorable`: a validated backup is imported with its root and rev exactly when it
  is restorable.
* `validated_firstFile`: a validated backup that no server imports, as its rev is no TID.
-/

namespace Ezpds.Wallet

open Library Repo

variable {Cid : Type} [DecidableEq Cid] {codec : RepoCodec Cid}
  {file rest : List UInt8} {blocks : List (Cid × List UInt8)} {did : String}

/-- The types of the server: the lengths in their shortest form, a header with a `u64` version, a
signed commit with a valid DID and rev, and a finite tree of nodes with all their fields. -/
structure Backup.Restorable (backup : Backup codec file) : Prop where
  lengths : Shortest file
  version : (u64Field "version" backup.headerMap).isSome
  commit : (CommitBlock.ofMap codec.isDid codec.isTid backup.commitMap).isSome
  tree : Mst.DeclaredTree codec backup.blocks.reverse backup.data

variable [CidText Cid]

omit [DecidableEq Cid] [CidText Cid] in
theorem frames_hashed (h : Frames codec.toCarCodec rest blocks) :
    ∀ block ∈ blocks, IsHashedBlock codec.toCarCodec block := by
  induction h with
  | nil => simp
  | cons _ hHolds _ ih => exact List.forall_mem_cons.mpr ⟨hHolds.hashed, ih⟩

omit [DecidableEq Cid] [CidText Cid] in
theorem ofMap_fields {isDid isTid : String → Bool} {map : List (String × Ipld Cid)}
    {commit : CommitBlock Cid} (h : CommitBlock.ofMap isDid isTid map = some commit) :
    linkField "data" map = some commit.data ∧ stringField "rev" map = some commit.rev := by
  obtain ⟨_, _, h⟩ := Option.bind_eq_some_iff.mp h
  obtain ⟨_, _, h⟩ := Option.bind_eq_some_iff.mp h
  obtain ⟨data, hData, h⟩ := Option.bind_eq_some_iff.mp h
  obtain ⟨rev, hRev, h⟩ := Option.bind_eq_some_iff.mp h
  obtain ⟨_, _, h⟩ := Option.bind_eq_some_iff.mp h
  obtain ⟨_, _, h⟩ := Option.bind_eq_some_iff.mp h
  cases h
  exact ⟨hData, (Option.filter_eq_some_iff.mp hRev).1⟩

/-- What the wallet knows of a place in the tree. -/
def Known (blocks : List (Cid × List UInt8)) (all : List Cid) : Mst.Located Cid → Prop
  | .entry value => (blocks.lookup value).isSome
  | .inSubtree cid => cid ∈ all

section Restore

variable {carBytes : CarFile} {backup : Backup codec carBytes.bytes} {all : List Cid}
  {car : CarStore Cid} {rev : String}

theorem known_below (hCodec : codec.Lawful) {root : Cid} (hWalked : Walked codec blocks root all)
    (hReads : ReadsBlocks codec.toCarCodec car blocks) {item : Mst.Located Cid}
    {next : List (Mst.Located Cid)} (hKnown : Known blocks all item)
    (hNext : Mst.below codec car item = .ok next) : ∀ b ∈ next, Known blocks all b := by
  cases item with
  | entry value =>
    cases hNext
    simp
  | inSubtree cid =>
    obtain ⟨bytes, node, parsed, hBytes, hNode, _, rfl⟩ := Mst.below_ok.mp hNext
    obtain ⟨subtrees, hMst, hSubtrees⟩ := hWalked.nodes cid hKnown
    obtain ⟨bytes', map, _, _, hBlock, hMap, _⟩ := mstNode_ok hMst
    rw [hReads, hBlock] at hBytes
    cases hBytes
    obtain ⟨hChildren, hValues⟩ :=
      node_agrees hMst hBlock hMap ((hCodec.node _ _ _ hMap).mp hNode)
    intro b hb
    cases b with
    | entry value => exact hValues value hb
    | inSubtree child => exact hSubtrees child (hChildren child hb)

theorem Known.present {root : Cid} (hWalked : Walked codec blocks root all)
    {item : Mst.Located Cid} (h : Known blocks all item) : (blocks.lookup item.cid).isSome := by
  cases item with
  | entry value => exact h
  | inSubtree cid =>
    obtain ⟨subtrees, hMst, _⟩ := hWalked.nodes cid h
    obtain ⟨bytes, _, _, _, hBlock, _⟩ := mstNode_ok hMst
    exact Option.isSome_iff_exists.mpr ⟨bytes, hBlock⟩

/-- A restorable backup is imported. -/
theorem Backup.Restorable.imports (hCodec : codec.Lawful) (h : backup.Restorable)
    (hSeen : CommitSeen did rev backup.data backup.commitMap)
    (hWalked : Walked codec backup.blocks.reverse backup.data all) :
    ∃ fuel imported, importRepoCar codec fuel carBytes did = some (.ok imported) ∧
      imported.root = backup.root ∧ imported.rev = rev := by
  obtain ⟨version, hVersion⟩ := Option.isSome_iff_exists.mp h.version
  obtain ⟨commit, hCommit⟩ := Option.isSome_iff_exists.mp h.commit
  have hV1 : V1Header.ofMap backup.headerMap = some ⟨version, [backup.root]⟩ := by
    rw [V1Header.ofMap, hVersion, backup.roots_eq]
    rfl
  have hHeader := (hCodec.header _ _ _ backup.header_eq).mpr hV1
  obtain ⟨car, hCar, hCarHeader, hReads⟩ := openCar_of_shortest hCodec backup.isSection
    backup.frames carBytes.fits h.lengths hHeader
  obtain ⟨hData, hRev⟩ := ofMap_fields hCommit
  have hDataEq : commit.data = backup.data := Option.some.inj (hData.symm.trans hSeen.data)
  have hRevEq : commit.rev = rev := Option.some.inj (hRev.symm.trans hSeen.rev)
  have hRoot : readStoreBlock codec.toCarCodec car backup.root = .ok backup.rootBytes := by
    rw [hReads, backup.root_eq]
    rfl
  have hOpen : openImport codec carBytes = .ok ⟨car, backup.root, commit⟩ := by
    refine openImport_ok.mpr ⟨?_, hCar, ?_, backup.rootBytes, hRoot, ?_⟩
    · exact (validateCar_ok hCodec.reads).mpr
        ⟨backup.header, backup.rest, backup.blocks, backup.isSection, backup.frames⟩
    · rw [hCarHeader]
    · exact (hCodec.commit _ _ _ backup.commit_eq).mpr hCommit
  -- the walk of the server ends, and takes nothing that the wallet has not found
  have hUnfolds : ∀ a ∈ [Mst.Located.inSubtree commit.data],
      Unfolds (Mst.below codec car) a := by
    rw [hDataEq]
    exact List.forall_mem_singleton.mpr (h.tree.unfolds hCodec hReads)
  obtain ⟨fuel, taken, hTaken⟩ := walk_ok.mpr hUnfolds
  have hKnown := walk_forall (P := Known backup.blocks.reverse all)
    (fun _ _ hItem hNext => known_below hCodec hWalked hReads hItem hNext) hTaken
    (by rw [hDataEq]; exact List.forall_mem_singleton.mpr hWalked.root)
  have hPresent : ∀ cid ∈ backup.root :: taken.map Mst.Located.cid,
      (backup.blocks.reverse.lookup cid).isSome := by
    refine List.forall_mem_cons.mpr ⟨by rw [backup.root_eq]; rfl, ?_⟩
    intro cid hcid
    obtain ⟨item, hItem, rfl⟩ := List.mem_map.mp hcid
    exact (hKnown item hItem).1.present hWalked
  have hHashed : ∀ block ∈ backup.blocks.reverse, IsHashedBlock codec.toCarCodec block :=
    fun block hBlock => frames_hashed backup.frames block (List.mem_reverse.mp hBlock)
  obtain ⟨captured, hCaptured, hLookup⟩ := @captureBlocks_lookup _ _ _ _
    ⟨car, backup.root, commit⟩ hCodec hReads hHashed _ hPresent
  have hExport : exportInto codec fuel ⟨car, backup.root, commit⟩ = some (.ok captured) :=
    exportInto_ok.mpr ⟨taken, hTaken, hCaptured⟩
  have hFinish : finishImport codec ⟨car, backup.root, commit⟩ did captured =
      .ok ⟨backup.root, commit.rev, did, captured⟩ := by
    unfold finishImport
    rw [hLookup backup.root List.mem_cons_self, backup.root_eq]
    exact bind_ok.mpr ⟨did, commitDid_ok backup.commit_eq hSeen.version hSeen.did,
      bind_ok.mpr ⟨(), check_ok.mpr (decide_eq_true rfl), rfl⟩⟩
  exact ⟨fuel, _, importRepoCar_ok.mpr ⟨_, captured, hOpen, hExport, hFinish⟩, rfl, hRevEq⟩

/-- An imported backup is restorable. -/
theorem Backup.restorable_of_import (hCodec : codec.Lawful) {fuel : Nat}
    {imported : ImportedRepo Cid}
    (hWalked : Walked codec backup.blocks.reverse backup.data all)
    (h : importRepoCar codec fuel carBytes did = some (.ok imported)) : backup.Restorable := by
  obtain ⟨repo, captured, hOpen, hExport, _⟩ := importRepoCar_ok.mp h
  obtain ⟨_, hCar, hRoots, bytes, hBytes, hCommit⟩ := openImport_ok.mp hOpen
  obtain ⟨hShortest, hHeader, hReads⟩ := openCar_shortest hCodec backup.isSection backup.frames
    carBytes.fits hCar
  have hV1 := (hCodec.header _ _ _ backup.header_eq).mp hHeader
  obtain ⟨version, hVersion, hV1⟩ := Option.bind_eq_some_iff.mp hV1
  obtain ⟨items, hItems, hV1⟩ := Option.bind_eq_some_iff.mp hV1
  obtain ⟨roots, hLinks, hV1⟩ := Option.bind_eq_some_iff.mp hV1
  have hRootsEq : roots = [repo.root] := by
    rw [← hRoots, ← Option.some.inj hV1]
  have hRoot : repo.root = backup.root := by
    rw [backup.roots_eq] at hItems
    cases hItems
    rw [hRootsEq] at hLinks
    exact (List.cons.inj (Option.some.inj hLinks)).1.symm
  rw [hRoot, hReads, backup.root_eq] at hBytes
  cases hBytes
  have hDeclared := (hCodec.commit _ _ _ backup.commit_eq).mp hCommit
  have hData : repo.latestCommit.data = backup.data :=
    Option.some.inj ((ofMap_fields hDeclared).1.symm.trans backup.data_eq)
  obtain ⟨taken, hTaken, _⟩ := exportInto_ok.mp hExport
  refine ⟨hShortest, Option.isSome_iff_exists.mpr ⟨version, hVersion⟩,
    Option.isSome_iff_exists.mpr ⟨_, hDeclared⟩, ?_⟩
  have hUnfolds := walk_unfolds hTaken _ (List.mem_singleton_self _)
  refine Mst.declaredTree_of_unfolds (P := (· ∈ all)) hCodec hReads ?_ hUnfolds
    (by rw [hData]) hWalked.root
  intro cid bytes hcid hBlock
  obtain ⟨subtrees, hMst, hSubtrees⟩ := hWalked.nodes cid hcid
  obtain ⟨bytes', map, _, _, hBlock', hMap, _⟩ := mstNode_ok hMst
  rw [hBlock] at hBlock'
  cases hBlock'
  refine ⟨map, hMap, ?_⟩
  intro node hNode child hChild
  exact hSubtrees child ((node_agrees hMst hBlock hMap hNode).1 child hChild)

/-- A validated backup is imported with its root and its rev exactly when it is restorable. -/
theorem validated_restorable (hCodec : codec.Lawful) {fuel : Nat} {validated : ValidatedCar}
    (h : validateRepoCar codec fuel carBytes did = some (.ok validated)) :
    (∃ fuel imported, importRepoCar codec fuel carBytes did = some (.ok imported) ∧
        CidText.toText imported.root = validated.rootCid ∧ imported.rev = validated.rev) ↔
      ∃ backup : Backup codec carBytes.bytes, backup.Restorable := by
  obtain ⟨backup, all, hRootCid, hSeen, hWalked⟩ := validateRepoCar_ok h
  constructor
  · rintro ⟨_, imported, hImport, _⟩
    exact ⟨backup, backup.restorable_of_import hCodec hWalked hImport⟩
  · rintro ⟨backup', hRestorable⟩
    obtain rfl := Subsingleton.elim backup' backup
    obtain ⟨fuel, imported, hImport, hRoot, hRev⟩ := hRestorable.imports hCodec hSeen hWalked
    exact ⟨fuel, imported, hImport, by rw [hRoot, hRootCid], hRev⟩

end Restore

/-! ## Concrete backups -/

section Sample

open Spaces

/-- A reader that refuses a number in a longer form than it needs. -/
def strictReadU64 (bytes : List UInt8) : Except ReadError (Nat × List UInt8) :=
  match decodeVarint bytes with
  | some (n, rest) =>
    if bytes = writeUvarint n ++ rest then .ok (n, rest) else .error (.other "not minimal")
  | none => if bytes.isEmpty then .error .unexpectedEof else .error (.other "invalid varint")

def strictCids : CarCodec SampleCid :=
  { sampleCids with readU64 := strictReadU64 }

theorem strictReadU64_written {n : Nat} (h : n < 2 ^ 64) (rest : List UInt8) :
    strictReadU64 (writeUvarint n ++ rest) = .ok (n, rest) := by
  rw [strictReadU64, decodeVarint_writeUvarint h]
  exact if_pos rfl

theorem strictCids_lawful : strictCids.Lawful where
  readBytes := sampleCids_lawful.readBytes
  toBytes := sampleCids_lawful.toBytes
  new := sampleCids_lawful.new
  newV1 := sampleCids_lawful.newV1
  versionTryFrom := rfl
  wrap := sampleCids_lawful.wrap
  multihashFromBytes := sampleCids_lawful.multihashFromBytes
  readU64 := fun _ rest h => strictReadU64_written h rest
  readU64_nil := rfl
  sha256_length := sampleCids_lawful.sha256_length
  header := sampleCids_lawful.header

theorem strictCids_readBytes {bytes : List UInt8} {block : SampleCid × List UInt8}
    (h : strictCids.readBytes bytes = .ok block) :
    bytes = strictCids.toBytes block.1 ++ block.2 := by
  change sampleCids.readBytes bytes = .ok block at h
  dsimp only [sampleCids] at h
  split at h
  · rename_i rest
    unfold takeCid at h
    split at h
    · cases h
      show _ = ([0x01, 0x71, 0x12, 0x20] ++ rest.take 32) ++ rest.drop 32
      rw [List.append_assoc, List.take_append_drop]
      rfl
    · cases h
  · cases h

theorem strictCids_readCid {bytes more : List UInt8} {block : SampleCid × List UInt8}
    (h : strictCids.readBytes bytes = .ok block) :
    readCid strictCids (bytes ++ more) = .ok (block.1, block.2 ++ more) := by
  have hBlock : IsBlockCid strictCids block.1 block.1.digest :=
    ⟨rfl, rfl, congrArg (Multihash.mk SHA2_256)
      (congrArg SampleCid.digest (sampleCid_digest block.1)).symm⟩
  rw [strictCids_readBytes h, List.append_assoc]
  exact readCid_written strictCids_lawful hBlock _

def sampleDid : String := "did:plc:backup"

def digestOf (n : Nat) : List UInt8 :=
  (fixedDigits 256 32 n).map UInt8.ofNat

theorem length_digestOf (n : Nat) : (digestOf n).length = 32 := by
  rw [digestOf, List.length_map, length_fixedDigits]

def emptyNode : List UInt8 :=
  cborHead 5 2 ++ cborText "e" ++ cborHead 4 0 ++ cborText "l" ++ [0xf6]

def emptyNodeCid : SampleCid :=
  ⟨digestOf 0x9dfefe61dd76ea3dcae5023880b08379d57adf20482d6fdbe2759289f647677b,
    length_digestOf _⟩

def linkBytes (cid : SampleCid) : List UInt8 :=
  [0xd8, 0x2a, 0x58, 0x25, 0x00, 0x01, 0x71, 0x12, 0x20] ++ cid.digest

/-- A commit of an empty tree. -/
def sampleCommit (rev : String) : List UInt8 :=
  cborHead 5 6 ++ cborText "did" ++ cborText sampleDid ++ cborText "rev" ++ cborText rev ++
    cborText "sig" ++ cborHead 2 64 ++ List.replicate 64 0 ++ cborText "data" ++
    linkBytes emptyNodeCid ++ cborText "prev" ++ [0xf6] ++ cborText "version" ++ [0x03]

def sampleCommitMap (rev : String) : Ipld SampleCid :=
  .map [("data", .link emptyNodeCid), ("did", .string sampleDid), ("prev", .null),
    ("rev", .string rev), ("sig", .bytes (List.replicate 64 0)), ("version", .integer 3)]

def sampleHeader (root : SampleCid) : List UInt8 :=
  cborHead 5 2 ++ cborText "roots" ++ cborHead 4 1 ++ linkBytes root ++ cborText "version" ++ [0x01]

def sampleHeaderMap (root : SampleCid) : Ipld SampleCid :=
  .map [("roots", .list [.link root]), ("version", .integer 1)]

def sampleRev : String := "3jzfcijpj2z2a"

def sampleRoot : SampleCid :=
  ⟨digestOf 0x3e1de86b70531fd1606b04d17ed97e7870ed3ab9ebfdc494c73498c8f8fbacb7,
    length_digestOf _⟩

/-- The commit with `first` for its rev. -/
def firstRoot : SampleCid :=
  ⟨digestOf 0xfb8c67f17f8d7de779b23ec8c65e2f931ce89841a5de05614ca4ee6fffaecc84,
    length_digestOf _⟩

def sampleHashes : List (List UInt8 × SampleCid) :=
  [(emptyNode, emptyNodeCid), (sampleCommit sampleRev, sampleRoot),
    (sampleCommit "first", firstRoot)]

def sampleValues : List (List UInt8 × Ipld SampleCid) :=
  [(emptyNode, .map [("e", .list []), ("l", .null)]),
    (sampleCommit sampleRev, sampleCommitMap sampleRev),
    (sampleCommit "first", sampleCommitMap "first"),
    (sampleHeader sampleRoot, sampleHeaderMap sampleRoot),
    (sampleHeader firstRoot, sampleHeaderMap firstRoot)]

def sampleFromSlice (bytes : List UInt8) : Except String (Ipld SampleCid) :=
  (sampleValues.lookup bytes).elim (.error "unexpected bytes") .ok

/-- A typed decoder, over the value of any shape. -/
def typedFromSlice {α : Type} (ofMap : List (String × Ipld SampleCid) → Option α)
    (bytes : List UInt8) : Except String α :=
  match sampleFromSlice bytes with
  | .ok (.map entries) => (ofMap entries).elim (.error "missing field") .ok
  | .ok _ => .error "invalid type"
  | .error e => .error e

theorem typedFromSlice_ok {α : Type} {ofMap : List (String × Ipld SampleCid) → Option α}
    {bytes : List UInt8} {entries : List (String × Ipld SampleCid)} {a : α}
    (h : sampleFromSlice bytes = .ok (.map entries)) :
    typedFromSlice ofMap bytes = .ok a ↔ ofMap entries = some a := by
  rw [typedFromSlice, h]
  dsimp only
  cases ofMap entries with
  | none => simp
  | some b => simp

def sampleCodec : RepoCodec SampleCid :=
  { strictCids with
    sha256 := fun bytes => ((sampleHashes.lookup bytes).map SampleCid.digest).getD (digestOf 0)
    headerFromSlice := typedFromSlice V1Header.ofMap
    fromSlice := sampleFromSlice
    commitFromReader :=
      typedFromSlice (CommitBlock.ofMap (fun did => did.startsWith "did:plc:") isValidTid)
    nodeFromSlice := typedFromSlice Mst.NodeData.ofMap
    utf8Error := fun _ => "invalid utf-8 sequence"
    isDid := fun did => did.startsWith "did:plc:"
    isTid := isValidTid }

theorem sampleCodec_lawful : sampleCodec.Lawful where
  reads :=
    { readU64 := strictCids_lawful.readU64
      readU64_nil := rfl
      newV1 := strictCids_lawful.newV1
      wrap := strictCids_lawful.wrap
      sha256_length := by
        intro bytes
        show (((sampleHashes.lookup bytes).map SampleCid.digest).getD (digestOf 0)).length = 32
        cases sampleHashes.lookup bytes with
        | none => exact length_digestOf 0
        | some cid => exact cid.length_eq }
  readU64_shortest := by
    intro bytes found n rest hRead hDecode
    change strictReadU64 bytes = .ok found at hRead
    rw [strictReadU64, hDecode] at hRead
    by_contra hNot
    dsimp only at hRead
    rw [if_neg hNot] at hRead
    cases hRead
  readU64_eof := by
    intro bytes hRead
    change strictReadU64 bytes = .error .unexpectedEof at hRead
    unfold strictReadU64 at hRead
    split at hRead
    · split at hRead
      · cases hRead
      · cases hRead
    · split at hRead
      · rename_i hEmpty
        rw [List.isEmpty_iff.mp hEmpty]
        simp
      · cases hRead
  readBytes_suffix := by
    intro bytes block h
    rw [strictCids_readBytes h]
    exact List.suffix_append _ _
  readCid := fun _ _ _ h _ => strictCids_readCid h
  header := fun _ _ _ h => typedFromSlice_ok h
  commit := fun _ _ _ h => typedFromSlice_ok h
  node := fun _ _ _ h => typedFromSlice_ok h

def sampleFileBytes (root : SampleCid) (rev : String) : List UInt8 :=
  carSection (sampleHeader root) ++
    (carSection (strictCids.toBytes root ++ sampleCommit rev) ++
      carSection (strictCids.toBytes emptyNodeCid ++ emptyNode))

def sampleFile : CarFile :=
  ⟨sampleFileBytes sampleRoot sampleRev, by decide +kernel⟩

/-- A commit whose rev is a text, but no TID. -/
def firstFile : CarFile :=
  ⟨sampleFileBytes firstRoot "first", by decide +kernel⟩

theorem validated_sampleFile :
    validateRepoCar sampleCodec 1 sampleFile sampleDid =
        some (.ok ⟨CidText.toText sampleRoot, sampleRev⟩) ∧
      ((∃ fuel imported, importRepoCar sampleCodec fuel sampleFile sampleDid =
          some (.ok imported) ∧ CidText.toText imported.root = CidText.toText sampleRoot ∧
            imported.rev = sampleRev) ↔
        ∃ backup : Backup sampleCodec sampleFile.bytes, backup.Restorable) := by
  have hValid : validateRepoCar sampleCodec 1 sampleFile sampleDid =
      some (.ok ⟨CidText.toText sampleRoot, sampleRev⟩) := by decide +kernel
  exact ⟨hValid, validated_restorable sampleCodec_lawful hValid⟩

/-- The wallet takes the file for a backup; the server refuses it, however long it runs. -/
theorem validated_firstFile :
    sampleCodec.Lawful ∧
      validateRepoCar sampleCodec 1 firstFile sampleDid =
        some (.ok ⟨CidText.toText firstRoot, "first"⟩) ∧
      ∀ fuel imported, importRepoCar sampleCodec fuel firstFile sampleDid ≠
        some (.ok imported) := by
  refine ⟨sampleCodec_lawful, by decide +kernel, ?_⟩
  intro fuel imported h
  obtain ⟨repo, _, hOpen, _⟩ := importRepoCar_ok.mp h
  have hFail : (openImport sampleCodec firstFile).isOk = false := by decide +kernel
  rw [hOpen] at hFail
  cases hFail

end Sample

end Ezpds.Wallet
