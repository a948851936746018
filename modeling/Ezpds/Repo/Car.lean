import Ezpds.Library.SortedAssoc
import Ezpds.Library.Varint
import Mathlib.Data.List.Forall2

/-!
# CAR files

A CAR is a header with its roots and then one frame a block: the length, the CID and the
bytes. `car_export` writes headers and frames, `validate_car` looks a whole file over
before anything else reads it, and the vendored `CarStore` indexes its blocks. The `cid`,
`multihash` and `unsigned-varint` crates, SHA-256 and the DAG-CBOR of the header are not
part of the repository: they are parameters.

* `validateCar_ok`: a valid file is a header and frames that hold blocks under their CIDs.
* `openCar_sections`: frames behind lengths in their shortest form open as their blocks.
* `validateCar_frames`: a header with frames of hashed blocks is valid.
* `openCar_frames`: such a file opens, and every CID in it reads back as a block under it.
-/

namespace Ezpds.Repo

open Library

def DAG_CBOR : Nat := 0x71
def RAW : Nat := 0x55
def SHA2_256 : Nat := 0x12
def SHA2_256_DIGEST_LEN : Nat := 32

/-- The bytes of a file; a slice has `isize::MAX` of them at most. -/
structure CarFile where
  bytes : List UInt8
  length_lt : bytes.length < 2 ^ 63

theorem CarFile.fits (file : CarFile) : file.bytes.length < 2 ^ 64 :=
  Nat.lt_trans file.length_lt (by decide)

/-! ## The crates -/

/-- `cid::Version`. -/
inductive CidVersion where
  | v0
  | v1
  deriving DecidableEq, Repr

/-- `cid::multihash::Multihash`; its size is the length of the digest. -/
structure Multihash where
  code : Nat
  digest : List UInt8
  deriving DecidableEq, Repr

structure V1Header (Cid : Type) where
  version : Nat
  roots : List Cid

/-- `unsigned_varint::io::ReadError`. -/
inductive ReadError where
  | unexpectedEof
  | other (message : String)

/-- What the crates do. A reader is the list of the bytes that are left to read; `eof` is
the text of an early end. -/
structure CarCodec (Cid : Type) where
  version : Cid → CidVersion
  codec : Cid → Nat
  hash : Cid → Multihash
  toBytes : Cid → List UInt8
  readBytes : List UInt8 → Except String (Cid × List UInt8)
  new : CidVersion → Nat → Multihash → Except String Cid
  newV0 : Multihash → Except String Cid
  newV1 : Nat → Multihash → Cid
  versionTryFrom : Nat → Except String CidVersion
  wrap : Nat → List UInt8 → Except String Multihash
  multihashFromBytes : List UInt8 → Except String Multihash
  readU64 : List UInt8 → Except ReadError (Nat × List UInt8)
  sha256 : List UInt8 → List UInt8
  headerToVec : V1Header Cid → List UInt8
  headerFromSlice : List UInt8 → Except String (V1Header Cid)
  eof : String

/-- What the crates promise: they read back what is written in their formats. -/
structure CarCodec.Lawful {Cid : Type} (cids : CarCodec Cid) : Prop where
  readBytes : ∀ cid rest, cids.readBytes (cids.toBytes cid ++ rest) = .ok (cid, rest)
  toBytes : ∀ cid, cids.version cid = .v1 → cids.toBytes cid = writeUvarint 1 ++
    (writeUvarint (cids.codec cid) ++ (writeUvarint (cids.hash cid).code ++
      (writeUvarint (cids.hash cid).digest.length ++ (cids.hash cid).digest)))
  new : ∀ cid, cids.version cid = .v1 → cids.new .v1 (cids.codec cid) (cids.hash cid) = .ok cid
  newV1 : ∀ cid, cids.version cid = .v1 → cids.newV1 (cids.codec cid) (cids.hash cid) = cid
  versionTryFrom : cids.versionTryFrom 1 = .ok .v1
  wrap : ∀ code digest, digest.length ≤ 64 → cids.wrap code digest = .ok ⟨code, digest⟩
  multihashFromBytes : ∀ hash : Multihash, hash.code < 2 ^ 64 → hash.digest.length ≤ 64 →
    cids.multihashFromBytes (writeUvarint hash.code ++
      (writeUvarint hash.digest.length ++ hash.digest)) = .ok hash
  readU64 : ∀ n rest, n < 2 ^ 64 → cids.readU64 (writeUvarint n ++ rest) = .ok (n, rest)
  readU64_nil : cids.readU64 [] = .error .unexpectedEof
  sha256_length : ∀ bytes, (cids.sha256 bytes).length = SHA2_256_DIGEST_LEN
  header : ∀ roots, cids.headerFromSlice (cids.headerToVec ⟨1, roots⟩) = .ok ⟨1, roots⟩

variable {Cid : Type}

/-! ## Writing -/

def carV1HeaderRoots (cids : CarCodec Cid) (roots : List Cid) : List UInt8 :=
  let headerBytes := cids.headerToVec ⟨1, roots⟩
  writeUvarint headerBytes.length ++ headerBytes

def carV1BlockFrame (cids : CarCodec Cid) (cid : Cid) (data : List UInt8) : List UInt8 :=
  let cidBytes := cids.toBytes cid
  writeUvarint (cidBytes.length + data.length) ++ (cidBytes ++ data)

/-! ## Validation -/

inductive CarImportError where
  | car (message : String)
  | rootCount (n : Nat)
  | repo (message : String)
  | malformedCommit (message : String)
  | didMismatch (expected found : String)
  deriving DecidableEq, Repr

/-- The checks of one frame, in their order. -/
def validateFrame (cids : CarCodec Cid) (frame : List UInt8) : Except CarImportError Unit := do
  let (cid, data) ← (cids.readBytes frame).mapError fun e =>
    .car ("CAR block frame has an invalid CID: " ++ e)
  check (cids.version cid = .v1) (.car "CAR block CID is not CIDv1")
  check (cids.codec cid = DAG_CBOR ∨ cids.codec cid = RAW)
    (.car "CAR block CID has an unsupported codec")
  check ((cids.hash cid).code = SHA2_256 ∧
      (cids.hash cid).digest.length = SHA2_256_DIGEST_LEN)
    (.car "CAR block CID has an unsupported multihash (must be SHA2-256)")
  check ((cids.hash cid).digest = cids.sha256 data)
    (.car "CAR block bytes do not hash to the block CID")

/-- A length that the input must hold: `none` when there is no varint, or when the input
is too short for it. -/
def splitLength (rest : List UInt8) (malformed short : String) :
    Except CarImportError (List UInt8 × List UInt8) :=
  match decodeVarint rest with
  | none => .error (.car malformed)
  | some (len, after) =>
    if len > after.length then .error (.car short)
    else .ok (after.take len, after.drop len)

/-- The loop over the frames. A frame takes a byte at least, so `fuel` bytes are enough. -/
def validateFrames (cids : CarCodec Cid) : Nat → List UInt8 → Except CarImportError Unit
  | _, [] => .ok ()
  | 0, _ :: _ => .error (.car "malformed CAR block frame length varint")
  | fuel + 1, rest => do
    let (frame, after) ← splitLength rest "malformed CAR block frame length varint"
      "declared CAR block frame length exceeds remaining input"
    validateFrame cids frame
    validateFrames cids fuel after

def validateCar (cids : CarCodec Cid) (carBytes : List UInt8) : Except CarImportError Unit := do
  let (_, rest) ← splitLength carBytes "malformed CAR header length varint"
    "declared CAR header length exceeds input"
  validateFrames cids rest.length rest

/-! ## The block store of a CAR -/

/-- The errors of the vendored store. -/
inductive CarError where
  | cid (message : String)
  | invalidHash
  | invalidCidV0
  | invalidVarint (message : String)
  | io (message : String)
  | multihash (message : String)
  | parse (message : String)
  deriving DecidableEq, Repr

def CarError.text : CarError → String
  | .cid message => "invalid CID: " ++ message
  | .invalidHash => "file hash does not match computed hash for block"
  | .invalidCidV0 => "invalid explicit CID v0"
  | .invalidVarint message => "invalid varint: " ++ message
  | .io message => "IO error: " ++ message
  | .multihash message => "invalid Multihash: " ++ message
  | .parse message => "serde_ipld_dagcbor decoding error: " ++ message

/-- `index` maps a CID to the offset and the length of its block. -/
structure CarStore (Cid : Type) where
  storage : List UInt8
  header : V1Header Cid
  index : List (Cid × Nat × Nat)

def readExact (cids : CarCodec Cid) (n : Nat) (reader : List UInt8) :
    Except CarError (List UInt8 × List UInt8) :=
  if n ≤ reader.length then .ok (reader.take n, reader.drop n) else .error (.io cids.eof)

def ReadError.toCar (cids : CarCodec Cid) : ReadError → CarError
  | .unexpectedEof => .invalidVarint cids.eof
  | .other message => .invalidVarint message

def readVarint (cids : CarCodec Cid) (reader : List UInt8) :
    Except CarError (Nat × List UInt8) :=
  (cids.readU64 reader).mapError (ReadError.toCar cids)

/-- A CIDv0 is the bare digest after its prefix. -/
def readCidV0 (cids : CarCodec Cid) (version : Nat) (reader : List UInt8) :
    Except CarError (Cid × List UInt8) := do
  let (digest, rest) ← readExact cids 32 reader
  let mh ← (cids.wrap version digest).mapError .multihash
  let cid ← (cids.newV0 mh).mapError .cid
  return (cid, rest)

/-- The multihash is measured first, and then read again as a whole. -/
def readCidV1 (cids : CarCodec Cid) (codec : Nat) (reader : List UInt8) :
    Except CarError (Cid × List UInt8) := do
  let (_, afterCode) ← readVarint cids reader
  let (size, afterSize) ← readVarint cids afterCode
  let len := (reader.length - afterSize.length) + size
  let (mhBytes, rest) ← readExact cids len reader
  let mh ← (cids.multihashFromBytes mhBytes).mapError .multihash
  let cid ← (cids.new .v1 codec mh).mapError .cid
  return (cid, rest)

def readCid (cids : CarCodec Cid) (reader : List UInt8) : Except CarError (Cid × List UInt8) := do
  let (version, reader) ← readVarint cids reader
  let (codec, reader) ← readVarint cids reader
  if version = 0x12 ∧ codec = 0x20 then readCidV0 cids version reader
  else
    let version ← (cids.versionTryFrom version).mapError .cid
    match version with
    | .v0 => throw .invalidCidV0
    | .v1 => readCidV1 cids codec reader

/-- Only SHA2-256 blocks are checked here. -/
def checkBlockHash [DecidableEq Cid] (cids : CarCodec Cid) (cid : Cid) (buffer : List UInt8) :
    Except CarError Unit :=
  if (cids.hash cid).code = SHA2_256 then do
    let mh ← (cids.wrap (cids.hash cid).code (cids.sha256 buffer)).mapError .multihash
    check (cids.newV1 (cids.codec cid) mh = cid) .invalidHash
  else .ok ()

/-- The loop of `CarStore::open`, which ends with the bytes. `validate_car` has refused a
frame that is shorter than its CID, so the length of the data does not underflow. -/
def indexFrames [DecidableEq Cid] (cids : CarCodec Cid) (storage : List UInt8) :
    Nat → List UInt8 → List (Cid × Nat × Nat) → Except CarError (List (Cid × Nat × Nat))
  | 0, _, _ => .error (.io cids.eof)
  | fuel + 1, reader, index =>
    match cids.readU64 reader with
    | .error .unexpectedEof => .ok index
    | .error (.other message) => .error (.invalidVarint message)
    | .ok (dataLen, start) => do
      let (cid, offset) ← readCid cids start
      let len := dataLen - (start.length - offset.length)
      let (buffer, rest) ← readExact cids len offset
      checkBlockHash cids cid buffer
      indexFrames cids storage fuel rest
        ((cid, storage.length - offset.length, len) :: index)

/-- `CarStore::open`. -/
def openCar [DecidableEq Cid] (cids : CarCodec Cid) (storage : List UInt8) :
    Except CarError (CarStore Cid) := do
  let (headerLen, reader) ← readVarint cids storage
  let (headerBytes, reader) ← readExact cids headerLen reader
  let header ← (cids.headerFromSlice headerBytes).mapError .parse
  let index ← indexFrames cids storage (storage.length + 1) reader []
  return ⟨storage, header, index⟩

/-- `CarStore::read_block`. -/
def readStoreBlock [DecidableEq Cid] (cids : CarCodec Cid) (car : CarStore Cid) (cid : Cid) :
    Except String (List UInt8) :=
  match car.index.lookup cid with
  | none => .error "CID does not exist in block store"
  | some (offset, len) =>
    if len ≤ (car.storage.drop offset).length then .ok ((car.storage.drop offset).take len)
    else .error cids.eof

/-! ## What the readers see -/

/-- A length and as many bytes. -/
def carSection (bytes : List UInt8) : List UInt8 :=
  writeUvarint bytes.length ++ bytes

/-- A section at the front of the input, whatever form its length has. -/
def Section (rest frame next : List UInt8) : Prop :=
  ∃ n after, decodeVarint rest = some (n, after) ∧ n ≤ after.length ∧
    frame = after.take n ∧ next = after.drop n

/-- A block under the CID of its bytes. -/
structure IsHashedBlock (cids : CarCodec Cid) (block : Cid × List UInt8) : Prop where
  version : cids.version block.1 = .v1
  codec : cids.codec block.1 = DAG_CBOR ∨ cids.codec block.1 = RAW
  hash : cids.hash block.1 = ⟨SHA2_256, cids.sha256 block.2⟩

structure FrameHolds (cids : CarCodec Cid) (frame : List UInt8) (block : Cid × List UInt8) :
    Prop where
  reads : cids.readBytes frame = .ok block
  hashed : IsHashedBlock cids block

/-- The input is frames that hold the blocks, in order. -/
inductive Frames (cids : CarCodec Cid) : List UInt8 → List (Cid × List UInt8) → Prop
  | nil : Frames cids [] []
  | cons {rest frame next : List UInt8} {block : Cid × List UInt8}
      {blocks : List (Cid × List UInt8)} (hSection : Section rest frame next)
      (hFrame : FrameHolds cids frame block) (hNext : Frames cids next blocks) :
      Frames cids rest (block :: blocks)

/-- What the readers of a CAR rely on, whatever wrote it. -/
structure CarCodec.Reads (cids : CarCodec Cid) : Prop where
  readU64 : ∀ n rest, n < 2 ^ 64 → cids.readU64 (writeUvarint n ++ rest) = .ok (n, rest)
  readU64_nil : cids.readU64 [] = .error .unexpectedEof
  newV1 : ∀ cid, cids.version cid = .v1 → cids.newV1 (cids.codec cid) (cids.hash cid) = cid
  wrap : ∀ code digest, digest.length ≤ 64 → cids.wrap code digest = .ok ⟨code, digest⟩
  sha256_length : ∀ bytes, (cids.sha256 bytes).length = SHA2_256_DIGEST_LEN

theorem CarCodec.Lawful.toReads {cids : CarCodec Cid} (hCids : cids.Lawful) : cids.Reads :=
  ⟨hCids.readU64, hCids.readU64_nil, hCids.newV1, hCids.wrap, hCids.sha256_length⟩

variable {cids : CarCodec Cid} {cid : Cid} {data frame rest next : List UInt8}
  {block : Cid × List UInt8} {blocks : List (Cid × List UInt8)} {frames : List (List UInt8)}

theorem length_carSection : frame.length < (carSection frame).length := by
  have hLength := List.length_pos_iff.mpr (writeUvarint_ne_nil frame.length)
  rw [carSection, List.length_append]
  omega

theorem length_sections : frames.length ≤ (frames.flatMap carSection).length := by
  induction frames with
  | nil => exact Nat.le_refl 0
  | cons frame frames ih =>
    have hSection := @length_carSection frame
    rw [List.flatMap_cons, List.length_append, List.length_cons]
    omega

theorem splitLength_ok {malformed short : String} :
    splitLength rest malformed short = .ok (frame, next) ↔ Section rest frame next := by
  unfold splitLength Section
  cases hDecode : decodeVarint rest with
  | none => simp
  | some found =>
    obtain ⟨n, after⟩ := found
    by_cases hShort : n > after.length
    · simp only [if_pos hShort, reduceCtorEq, Option.some.injEq, Prod.mk.injEq, false_iff]
      rintro ⟨_, _, ⟨rfl, rfl⟩, hFits, _⟩
      omega
    · simp only [if_neg hShort, Except.ok.injEq, Option.some.injEq, Prod.mk.injEq]
      constructor
      · rintro ⟨rfl, rfl⟩
        exact ⟨n, after, ⟨rfl, rfl⟩, by omega, rfl, rfl⟩
      · rintro ⟨_, _, ⟨rfl, rfl⟩, _, rfl, rfl⟩
        exact ⟨rfl, rfl⟩

/-- A section takes a byte at least. -/
theorem Section.length_lt (h : Section rest frame next) : next.length < rest.length := by
  obtain ⟨n, after, hDecode, _, _, rfl⟩ := h
  have hRest := length_of_decodeVarint hDecode
  rw [List.length_drop]
  omega

theorem section_unique {frame' next' : List UInt8} (h : Section rest frame next)
    (h' : Section rest frame' next') : frame' = frame ∧ next' = next := by
  obtain ⟨n, after, hDecode, _, rfl, rfl⟩ := h
  obtain ⟨n', after', hDecode', _, rfl, rfl⟩ := h'
  rw [hDecode] at hDecode'
  cases hDecode'
  exact ⟨rfl, rfl⟩

/-- The lengths decide where a sequence of frames is cut, and a frame holds one block. -/
theorem frames_unique {blocks' : List (Cid × List UInt8)} (h : Frames cids rest blocks)
    (h' : Frames cids rest blocks') : blocks' = blocks := by
  induction h generalizing blocks' with
  | nil =>
    cases h' with
    | nil => rfl
    | cons hSection _ _ =>
      have := hSection.length_lt
      simp at this
  | cons hSection hFrame _ ih =>
    cases h' with
    | nil =>
      have := hSection.length_lt
      simp at this
    | cons hSection' hFrame' hNext' =>
      obtain ⟨rfl, rfl⟩ := section_unique hSection hSection'
      have hSame := hFrame.reads.symm.trans hFrame'.reads
      cases hSame
      rw [ih hNext']

theorem section_carSection (hFits : frame.length < 2 ^ 64) :
    Section (carSection frame ++ next) frame next := by
  refine ⟨frame.length, frame ++ next, ?_, ?_, List.take_left.symm, List.drop_left.symm⟩
  · rw [carSection, List.append_assoc]
    exact decodeVarint_writeUvarint hFits _
  · rw [List.length_append]
    omega

/-- The checks of a frame pass exactly when it holds a block. -/
theorem validateFrame_ok (hCids : cids.Reads) :
    validateFrame cids frame = .ok () ↔ ∃ block, FrameHolds cids frame block := by
  unfold validateFrame
  constructor
  · intro h
    obtain ⟨⟨cid, data⟩, hRead, h⟩ := bind_ok.mp h
    obtain ⟨_, hVersion, h⟩ := bind_ok.mp h
    obtain ⟨_, hCodec, h⟩ := bind_ok.mp h
    obtain ⟨_, hHash, h⟩ := bind_ok.mp h
    have hCode := (of_decide_eq_true (check_ok.mp hHash)).1
    have hDigest := of_decide_eq_true (check_ok.mp h)
    refine ⟨(cid, data), mapError_ok.mp hRead, of_decide_eq_true (check_ok.mp hVersion),
      of_decide_eq_true (check_ok.mp hCodec), ?_⟩
    rw [← hCode, ← hDigest]
  · rintro ⟨⟨cid, data⟩, hRead, hVersion, hCodec, hHash⟩
    refine bind_ok.mpr ⟨(cid, data), mapError_ok.mpr hRead, ?_⟩
    dsimp only at hVersion hCodec hHash ⊢
    rw [hHash]
    exact bind_ok.mpr ⟨(), check_ok.mpr (decide_eq_true hVersion), bind_ok.mpr
      ⟨(), check_ok.mpr (decide_eq_true hCodec), bind_ok.mpr
        ⟨(), check_ok.mpr (decide_eq_true ⟨rfl, hCids.sha256_length _⟩),
          check_ok.mpr (decide_eq_true rfl)⟩⟩⟩

theorem validateFrames_succ {fuel : Nat} (h : rest ≠ []) :
    validateFrames cids (fuel + 1) rest = (do
      let (frame, after) ← splitLength rest "malformed CAR block frame length varint"
        "declared CAR block frame length exceeds remaining input"
      validateFrame cids frame
      validateFrames cids fuel after) := by
  cases rest with
  | nil => exact absurd rfl h
  | cons byte rest => rfl

theorem validateFrames_ok (hCids : cids.Reads) {fuel : Nat} (hFuel : rest.length ≤ fuel) :
    validateFrames cids fuel rest = .ok () ↔ ∃ blocks, Frames cids rest blocks := by
  induction fuel generalizing rest with
  | zero =>
    obtain rfl := List.length_eq_zero_iff.mp (Nat.le_zero.mp hFuel)
    exact ⟨fun _ => ⟨[], .nil⟩, fun _ => rfl⟩
  | succ fuel ih =>
    cases rest with
    | nil => exact ⟨fun _ => ⟨[], .nil⟩, fun _ => rfl⟩
    | cons byte rest =>
      rw [validateFrames_succ (List.cons_ne_nil byte rest)]
      constructor
      · intro h
        obtain ⟨⟨frame, next⟩, hSplit, h⟩ := bind_ok.mp h
        obtain ⟨_, hFrame, h⟩ := bind_ok.mp h
        have hSection := splitLength_ok.mp hSplit
        obtain ⟨block, hHolds⟩ := (validateFrame_ok hCids).mp hFrame
        have hLength := hSection.length_lt
        obtain ⟨blocks, hBlocks⟩ := (ih (by omega)).mp h
        exact ⟨block :: blocks, .cons hSection hHolds hBlocks⟩
      · rintro ⟨blocks, h⟩
        cases h with
        | cons hSection hHolds hNext =>
          have hLength := hSection.length_lt
          exact bind_ok.mpr ⟨_, splitLength_ok.mpr hSection, bind_ok.mpr
            ⟨(), (validateFrame_ok hCids).mpr ⟨_, hHolds⟩, (ih (by omega)).mpr ⟨_, hNext⟩⟩⟩

/-- A valid file is a section, the header, and frames. -/
theorem validateCar_ok (hCids : cids.Reads) {carBytes : List UInt8} :
    validateCar cids carBytes = .ok () ↔
      ∃ header rest blocks, Section carBytes header rest ∧ Frames cids rest blocks := by
  unfold validateCar
  constructor
  · intro h
    obtain ⟨⟨header, rest⟩, hSplit, h⟩ := bind_ok.mp h
    obtain ⟨blocks, hBlocks⟩ := (validateFrames_ok hCids (Nat.le_refl _)).mp h
    exact ⟨header, rest, blocks, splitLength_ok.mp hSplit, hBlocks⟩
  · rintro ⟨header, rest, blocks, hSection, hFrames⟩
    exact bind_ok.mpr ⟨_, splitLength_ok.mpr hSection,
      (validateFrames_ok hCids (Nat.le_refl _)).mpr ⟨blocks, hFrames⟩⟩

theorem frames_sections (h : List.Forall₂ (FrameHolds cids) frames blocks)
    (hFits : (frames.flatMap carSection).length < 2 ^ 64) :
    Frames cids (frames.flatMap carSection) blocks := by
  induction h with
  | nil => exact .nil
  | @cons frame block frames blocks hHead _ ih =>
    have hSection := @length_carSection frame
    rw [List.flatMap_cons, List.length_append] at hFits
    rw [List.flatMap_cons]
    exact .cons (section_carSection (by omega)) hHead (ih (by omega))

/-! ### The store -/

/-- A frame as the store reads it from the stream. -/
structure StoredFrame (cids : CarCodec Cid) (frame : List UInt8) (block : Cid × List UInt8) :
    Prop where
  suffix : block.2 <:+ frame
  reads : ∀ more, readCid cids (frame ++ more) = .ok (block.1, block.2 ++ more)
  hashed : IsHashedBlock cids block

theorem readVarint_written (hCids : cids.Reads) {n : Nat} (hn : n < 2 ^ 64)
    (rest : List UInt8) : readVarint cids (writeUvarint n ++ rest) = .ok (n, rest) := by
  rw [readVarint, hCids.readU64 n rest hn]
  rfl

theorem readExact_append {input rest : List UInt8} {n : Nat} (h : input.length = n) :
    readExact cids n (input ++ rest) = .ok (input, rest) := by
  rw [readExact, if_pos (by rw [List.length_append]; omega), ← h, List.take_left,
    List.drop_left]

theorem checkBlockHash_ok [DecidableEq Cid] (hCids : cids.Reads) (h : IsHashedBlock cids block) :
    checkBlockHash cids block.1 block.2 = .ok () := by
  have hWrap := hCids.wrap SHA2_256 (cids.sha256 block.2)
    (by rw [hCids.sha256_length]; decide)
  have hNew := hCids.newV1 block.1 h.version
  rw [h.hash] at hNew
  rw [checkBlockHash, h.hash, if_pos rfl]
  refine bind_ok.mpr ⟨_, mapError_ok.mpr hWrap, check_ok.mpr ?_⟩
  exact decide_eq_true hNew

/-- The offset and the length point at the data. -/
def Located (storage : List UInt8) (place : Nat × Nat) (data : List UInt8) : Prop :=
  place.2 ≤ (storage.drop place.1).length ∧ (storage.drop place.1).take place.2 = data

theorem located_suffix {storage before rest : List UInt8}
    (h : storage = before ++ (data ++ rest)) :
    Located storage (storage.length - (data ++ rest).length, data.length) data := by
  have hDrop : storage.drop (storage.length - (data ++ rest).length) = data ++ rest := by
    rw [h, List.length_append, Nat.add_sub_cancel, List.drop_left]
  refine ⟨?_, ?_⟩
  · show data.length ≤ (storage.drop _).length
    rw [hDrop, List.length_append]
    omega
  · show (storage.drop _).take data.length = data
    rw [hDrop, List.take_left]

/-- The entry of a block: its CID and where its data is. -/
def Indexes (storage : List UInt8) (e : Cid × Nat × Nat) (block : Cid × List UInt8) : Prop :=
  e.1 = block.1 ∧ Located storage e.2 block.2

/-- One turn of the loop, on a frame behind its length in the shortest form. -/
theorem indexFrames_section [DecidableEq Cid] (hCids : cids.Reads) {storage before more : List UInt8}
    {fuel : Nat} {index : List (Cid × Nat × Nat)} (hFrame : StoredFrame cids frame block)
    (hStorage : storage = before ++ (carSection frame ++ more)) (hFits : storage.length < 2 ^ 64) :
    ∃ e, Indexes storage e block ∧ indexFrames cids storage (fuel + 1) (carSection frame ++ more)
      index = indexFrames cids storage fuel more (e :: index) := by
  obtain ⟨cidBytes, hCidBytes⟩ := hFrame.suffix
  have hLength : frame.length < 2 ^ 64 := by
    have hSection := @length_carSection frame
    rw [hStorage] at hFits
    simp only [List.length_append] at hFits
    omega
  have hData : storage = (before ++ (writeUvarint frame.length ++ cidBytes)) ++
      (block.2 ++ more) := by
    rw [hStorage, carSection, ← hCidBytes]
    simp only [List.append_assoc]
  refine ⟨(block.1, storage.length - (block.2 ++ more).length, block.2.length),
    ⟨rfl, located_suffix hData⟩, ?_⟩
  have hLen : frame.length - ((frame ++ more).length - (block.2 ++ more).length) =
      block.2.length := by
    rw [← hCidBytes]
    simp only [List.length_append]
    omega
  rw [carSection, List.append_assoc, indexFrames, hCids.readU64 _ _ hLength]
  dsimp only
  rw [hFrame.reads]
  show (do
    let (buffer, rest) ← readExact cids (frame.length - ((frame ++ more).length -
      (block.2 ++ more).length)) (block.2 ++ more)
    checkBlockHash cids block.1 buffer
    indexFrames cids storage fuel rest _) = _
  rw [hLen, readExact_append rfl]
  show (do
    checkBlockHash cids block.1 block.2
    indexFrames cids storage fuel more _) = _
  rw [checkBlockHash_ok hCids hFrame.hashed]
  rfl

/-- The loop adds one entry for each frame, the last frame's first. -/
theorem indexFrames_ok [DecidableEq Cid] (hCids : cids.Reads) {storage before : List UInt8}
    {fuel : Nat} {index : List (Cid × Nat × Nat)}
    (hFrames : List.Forall₂ (StoredFrame cids) frames blocks)
    (hStorage : storage = before ++ frames.flatMap carSection) (hFuel : frames.length < fuel)
    (hFits : storage.length < 2 ^ 64) :
    ∃ added, indexFrames cids storage fuel (frames.flatMap carSection) index =
        .ok (added ++ index) ∧
      List.Forall₂ (Indexes storage) added blocks.reverse := by
  induction hFrames generalizing before fuel index with
  | nil =>
    obtain ⟨fuel, rfl⟩ : ∃ n, fuel = n + 1 := ⟨fuel - 1, by omega⟩
    refine ⟨[], ?_, .nil⟩
    rw [List.flatMap_nil, indexFrames, hCids.readU64_nil]
    rfl
  | @cons frame block frames blocks hHead _ ih =>
    rw [List.length_cons] at hFuel
    obtain ⟨fuel, rfl⟩ : ∃ n, fuel = n + 1 := ⟨fuel - 1, by omega⟩
    rw [List.flatMap_cons] at hStorage ⊢
    obtain ⟨e, he, hTurn⟩ := indexFrames_section hCids hHead hStorage hFits
    obtain ⟨added, hLoop, hAdded⟩ := @ih (before ++ carSection frame) fuel (e :: index)
      (by rw [hStorage, List.append_assoc]) (by omega)
    refine ⟨added ++ [e], ?_, ?_⟩
    · rw [hTurn, hLoop, List.append_assoc]
      rfl
    · rw [List.reverse_cons]
      exact List.rel_append (R := Indexes storage) hAdded (.cons he .nil)

theorem lookup_indexes [DecidableEq Cid] {storage : List UInt8} {index : List (Cid × Nat × Nat)}
    (h : List.Forall₂ (Indexes storage) index blocks) (cid : Cid) :
    Option.Rel (fun place data => Located storage place data) (index.lookup cid)
      (blocks.lookup cid) := by
  induction h with
  | nil => exact .none
  | @cons e block index blocks hHead _ ih =>
    obtain ⟨cid', place⟩ := e
    obtain ⟨_, data⟩ := block
    obtain ⟨rfl, hPlace⟩ := hHead
    rw [List.lookup_cons, List.lookup_cons]
    by_cases hCid : cid = cid'
    · rw [beq_iff_eq.mpr hCid]
      exact .some hPlace
    · rw [beq_eq_false_iff_ne.mpr hCid]
      exact ih

/-- A store that reads a CID as its block in `blocks`. -/
def ReadsBlocks [DecidableEq Cid] (cids : CarCodec Cid) (car : CarStore Cid)
    (blocks : List (Cid × List UInt8)) : Prop :=
  ∀ cid, readStoreBlock cids car cid =
    (blocks.lookup cid).elim (.error "CID does not exist in block store") .ok

/-- A file of sections opens, and a CID reads as the last block under it. -/
theorem openCar_sections [DecidableEq Cid] (hCids : cids.Reads) {header : List UInt8}
    {v1 : V1Header Cid} (hHeader : cids.headerFromSlice header = .ok v1)
    (hFrames : List.Forall₂ (StoredFrame cids) frames blocks)
    (hFits : (carSection header ++ frames.flatMap carSection).length < 2 ^ 64) :
    ∃ car, openCar cids (carSection header ++ frames.flatMap carSection) = .ok car ∧
      car.header = v1 ∧ ReadsBlocks cids car blocks.reverse := by
  have hHeaderFits : header.length < 2 ^ 64 := by
    have hSection := @length_carSection header
    rw [List.length_append] at hFits
    omega
  have hFuel : frames.length < (carSection header ++ frames.flatMap carSection).length + 1 := by
    have hSections := @length_sections frames
    rw [List.length_append]
    omega
  obtain ⟨added, hIndex, hAdded⟩ := @indexFrames_ok _ cids _ _ _ hCids _ _ _ [] hFrames rfl hFuel
    hFits
  rw [List.append_nil] at hIndex
  refine ⟨⟨carSection header ++ frames.flatMap carSection, v1, added⟩, ?_, rfl, ?_⟩
  · refine bind_ok.mpr ⟨(header.length, header ++ frames.flatMap carSection), ?_,
      bind_ok.mpr ⟨(header, frames.flatMap carSection), readExact_append rfl,
        bind_ok.mpr ⟨_, mapError_ok.mpr hHeader, bind_ok.mpr ⟨_, hIndex, rfl⟩⟩⟩⟩
    rw [carSection, List.append_assoc]
    exact readVarint_written hCids hHeaderFits _
  · intro cid
    unfold readStoreBlock
    dsimp only
    have hLookup := lookup_indexes hAdded cid
    revert hLookup
    generalize added.lookup cid = place
    generalize blocks.reverse.lookup cid = data
    intro hLookup
    cases hLookup with
    | none => rfl
    | some hPlace =>
      dsimp only [Option.elim]
      rw [if_pos hPlace.1, hPlace.2]

/-! ## Reading back what was written -/

/-- The CID of a DAG-CBOR block. -/
structure IsBlockCid (cids : CarCodec Cid) (cid : Cid) (data : List UInt8) : Prop where
  version : cids.version cid = .v1
  codec : cids.codec cid = DAG_CBOR
  hash : cids.hash cid = ⟨SHA2_256, cids.sha256 data⟩

def carFrames (cids : CarCodec Cid) (blocks : List (Cid × List UInt8)) : List UInt8 :=
  blocks.flatMap fun block => carV1BlockFrame cids block.1 block.2

theorem IsBlockCid.isHashedBlock (h : IsBlockCid cids cid data) : IsHashedBlock cids (cid, data) :=
  ⟨h.version, Or.inl h.codec, h.hash⟩

theorem readCidV1_written (hCids : cids.Lawful) (h : IsBlockCid cids cid data)
    (rest : List UInt8) :
    readCidV1 cids (cids.codec cid) (writeUvarint (cids.hash cid).code ++
      (writeUvarint (cids.hash cid).digest.length ++ ((cids.hash cid).digest ++ rest))) =
        .ok (cid, rest) := by
  have hDigest : (cids.hash cid).digest.length = SHA2_256_DIGEST_LEN := by
    rw [h.hash]
    exact hCids.sha256_length data
  have hSize : (cids.hash cid).digest.length < 2 ^ 64 := by
    rw [hDigest]
    decide
  have hCode : (cids.hash cid).code < 2 ^ 64 := by
    rw [h.hash]
    show SHA2_256 < 2 ^ 64
    decide
  have hWhole : writeUvarint (cids.hash cid).code ++
      (writeUvarint (cids.hash cid).digest.length ++ ((cids.hash cid).digest ++ rest)) =
        (writeUvarint (cids.hash cid).code ++ (writeUvarint (cids.hash cid).digest.length ++
          (cids.hash cid).digest)) ++ rest := by
    simp only [List.append_assoc]
  have hMultihash := hCids.multihashFromBytes (cids.hash cid) hCode (by rw [hDigest]; decide)
  unfold readCidV1
  refine bind_ok.mpr ⟨_, readVarint_written hCids.toReads hCode _,
    bind_ok.mpr ⟨_, readVarint_written hCids.toReads hSize _, bind_ok.mpr ⟨(_, rest), ?_,
      bind_ok.mpr ⟨_, mapError_ok.mpr hMultihash,
        bind_ok.mpr ⟨cid, mapError_ok.mpr (hCids.new cid h.version), rfl⟩⟩⟩⟩⟩
  rw [hWhole]
  apply readExact_append
  simp only [List.length_append]
  omega

theorem readCid_written (hCids : cids.Lawful) (h : IsBlockCid cids cid data)
    (rest : List UInt8) : readCid cids (cids.toBytes cid ++ rest) = .ok (cid, rest) := by
  have hCodec : cids.codec cid < 2 ^ 64 := by
    rw [h.codec]
    decide
  rw [hCids.toBytes cid h.version]
  simp only [List.append_assoc]
  unfold readCid
  refine bind_ok.mpr ⟨_, readVarint_written hCids.toReads (by omega) _,
    bind_ok.mpr ⟨_, readVarint_written hCids.toReads hCodec _, ?_⟩⟩
  dsimp only
  rw [if_neg (by omega)]
  exact bind_ok.mpr ⟨_, mapError_ok.mpr hCids.versionTryFrom, readCidV1_written hCids h rest⟩

/-- The bytes of a frame, without its length. -/
def frameBytes (cids : CarCodec Cid) (block : Cid × List UInt8) : List UInt8 :=
  cids.toBytes block.1 ++ block.2

theorem storedFrame_written (hCids : cids.Lawful) (h : IsBlockCid cids block.1 block.2) :
    StoredFrame cids (frameBytes cids block) block := by
  refine ⟨List.suffix_append _ _, ?_, h.isHashedBlock⟩
  intro more
  rw [frameBytes, List.append_assoc]
  exact readCid_written hCids h _

theorem frameHolds_written (hCids : cids.Lawful) (h : IsBlockCid cids block.1 block.2) :
    FrameHolds cids (frameBytes cids block) block :=
  ⟨hCids.readBytes _ _, h.isHashedBlock⟩

theorem carFrames_sections :
    carFrames cids blocks = (blocks.map (frameBytes cids)).flatMap carSection := by
  rw [carFrames, List.flatMap_map]
  congr
  funext block
  rw [carV1BlockFrame, carSection, frameBytes, List.length_append]

theorem forall₂_written {R : List UInt8 → Cid × List UInt8 → Prop}
    (hR : ∀ block ∈ blocks, R (frameBytes cids block) block) :
    List.Forall₂ R (blocks.map (frameBytes cids)) blocks :=
  List.forall₂_map_left_iff.mpr (List.forall₂_same.mpr hR)

/-- A header with frames of hashed blocks is valid. -/
theorem validateCar_frames (hCids : cids.Lawful) {roots : List Cid}
    (hBlocks : ∀ block ∈ blocks, IsBlockCid cids block.1 block.2)
    (hFits : (carV1HeaderRoots cids roots ++ carFrames cids blocks).length < 2 ^ 64) :
    validateCar cids (carV1HeaderRoots cids roots ++ carFrames cids blocks) = .ok () := by
  rw [carFrames_sections] at hFits ⊢
  rw [List.length_append] at hFits
  refine (validateCar_ok hCids.toReads).mpr ⟨cids.headerToVec ⟨1, roots⟩,
    (blocks.map (frameBytes cids)).flatMap carSection, blocks, ?_, ?_⟩
  · have hSection := @length_carSection (cids.headerToVec ⟨1, roots⟩)
    have hLength : (carSection (cids.headerToVec ⟨1, roots⟩)).length =
      (carV1HeaderRoots cids roots).length := rfl
    exact section_carSection (by omega)
  · refine frames_sections (forall₂_written fun block hBlock => ?_) (by omega)
    exact frameHolds_written hCids (hBlocks block hBlock)

/-- What a file of frames opens to: every CID in it reads back as a block under it. -/
structure HoldsBlocks [DecidableEq Cid] (cids : CarCodec Cid) (car : CarStore Cid)
    (roots : List Cid) (blocks : List (Cid × List UInt8)) : Prop where
  roots : car.header.roots = roots
  reads : ∀ block ∈ blocks, ∃ data, (block.1, data) ∈ blocks ∧
    readStoreBlock cids car block.1 = .ok data
  misses : ∀ cid, (∀ block ∈ blocks, block.1 ≠ cid) →
    readStoreBlock cids car cid = .error "CID does not exist in block store"

theorem openCar_frames [DecidableEq Cid] (hCids : cids.Lawful) {roots : List Cid}
    (hBlocks : ∀ block ∈ blocks, IsBlockCid cids block.1 block.2)
    (hFits : (carV1HeaderRoots cids roots ++ carFrames cids blocks).length < 2 ^ 64) :
    ∃ car, openCar cids (carV1HeaderRoots cids roots ++ carFrames cids blocks) = .ok car ∧
      HoldsBlocks cids car roots blocks := by
  rw [carFrames_sections] at hFits ⊢
  obtain ⟨car, hOpen, hHeader, hReads⟩ := openCar_sections hCids.toReads (hCids.header roots)
    (forall₂_written fun block hBlock => storedFrame_written hCids (hBlocks block hBlock)) hFits
  refine ⟨car, hOpen, by rw [hHeader], ?_, ?_⟩
  · intro block hBlock
    cases hLookup : blocks.reverse.lookup block.1 with
    | none =>
      have hNone := List.lookup_eq_none_iff.mp hLookup block (List.mem_reverse.mpr hBlock)
      simp at hNone
    | some data =>
      refine ⟨data, List.mem_reverse.mp (mem_of_lookup hLookup), ?_⟩
      rw [hReads, hLookup]
      rfl
  · intro cid hMissing
    have hLookup : blocks.reverse.lookup cid = none := by
      apply List.lookup_eq_none_iff.mpr
      intro block hBlock
      exact bne_iff_ne.mpr (hMissing block (List.mem_reverse.mp hBlock)).symm
    rw [hReads, hLookup]
    rfl

end Ezpds.Repo
