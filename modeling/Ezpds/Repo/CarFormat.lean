import Ezpds.Spaces.RepoCar

/-!
# The format that a valid CAR has

`validate_car` walks lengths that whoever sent the file chose. What it accepts is a grammar:
a length and a header, then frames of a length, a CID and data that hashes to it, up to the last
byte. A file has one reading under the grammar, and the exporter writes it.

* `section_iff`: a section is a varint and as many bytes.
* `validateCar_iff`: the validator accepts exactly the files of the grammar.
* `carFormat_unique`: a file has one header and one sequence of blocks.
* `carFormat_written`: what is exported is a file with the blocks that were put in.
-/

namespace Ezpds.Repo

open Library

variable {Cid : Type}

/-- A sequence of frames: a varint length, and as many bytes that hold a block. -/
inductive FrameSequence (cids : CarCodec Cid) : List UInt8 → List (Cid × List UInt8) → Prop
  | nil : FrameSequence cids [] []
  | cons {length frame rest : List UInt8} {block : Cid × List UInt8}
      {blocks : List (Cid × List UInt8)} (hLength : IsUvarint length frame.length)
      (hFrame : FrameHolds cids frame block) (hRest : FrameSequence cids rest blocks) :
      FrameSequence cids (length ++ (frame ++ rest)) (block :: blocks)

/-- A header behind its varint length, and the frames of the blocks. -/
def CarFormat (cids : CarCodec Cid) (carBytes header : List UInt8)
    (blocks : List (Cid × List UInt8)) : Prop :=
  ∃ length rest, IsUvarint length header.length ∧ carBytes = length ++ (header ++ rest) ∧
    FrameSequence cids rest blocks

variable {cids : CarCodec Cid} {rest frame next header carBytes : List UInt8}
  {block : Cid × List UInt8} {blocks : List (Cid × List UInt8)}

/-! ## Sections -/

theorem section_iff : Section rest frame next ↔
    ∃ length, IsUvarint length frame.length ∧ rest = length ++ (frame ++ next) := by
  constructor
  · rintro ⟨n, after, hDecode, hFits, rfl, rfl⟩
    obtain ⟨length, hLength, rfl⟩ := decodeVarint_iff.mp hDecode
    refine ⟨length, ?_, ?_⟩
    · rw [List.length_take, Nat.min_eq_left hFits]
      exact hLength
    · rw [List.take_append_drop]
  · rintro ⟨length, hLength, rfl⟩
    refine ⟨frame.length, frame ++ next, decodeVarint_iff.mpr ⟨length, hLength, rfl⟩, ?_, ?_, ?_⟩
    · rw [List.length_append]
      omega
    · rw [List.take_left]
    · rw [List.drop_left]

theorem frames_iff : Frames cids rest blocks ↔ FrameSequence cids rest blocks := by
  constructor
  · intro h
    induction h with
    | nil => exact .nil
    | cons hSection hFrame _ ih =>
      obtain ⟨length, hLength, rfl⟩ := section_iff.mp hSection
      exact .cons hLength hFrame ih
  · intro h
    induction h with
    | nil => exact .nil
    | cons hLength hFrame _ ih => exact .cons (section_iff.mpr ⟨_, hLength, rfl⟩) hFrame ih

theorem carFormat_iff : CarFormat cids carBytes header blocks ↔
    ∃ rest, Section carBytes header rest ∧ Frames cids rest blocks := by
  constructor
  · rintro ⟨length, rest, hLength, rfl, hFrames⟩
    exact ⟨rest, section_iff.mpr ⟨length, hLength, rfl⟩, frames_iff.mpr hFrames⟩
  · rintro ⟨rest, hSection, hFrames⟩
    obtain ⟨length, hLength, rfl⟩ := section_iff.mp hSection
    exact ⟨length, rest, hLength, rfl, frames_iff.mp hFrames⟩

theorem carFormat_unique {header' : List UInt8} {blocks' : List (Cid × List UInt8)}
    (h : CarFormat cids carBytes header blocks) (h' : CarFormat cids carBytes header' blocks') :
    header' = header ∧ blocks' = blocks := by
  obtain ⟨rest, hSection, hFrames⟩ := carFormat_iff.mp h
  obtain ⟨rest', hSection', hFrames'⟩ := carFormat_iff.mp h'
  obtain ⟨rfl, rfl⟩ := section_unique hSection hSection'
  exact ⟨rfl, frames_unique hFrames hFrames'⟩

/-! ## The validator -/

/-- A frame takes a byte at least, so more fuel than bytes changes nothing. -/
theorem validateFrames_fuel {fuel fuel' : Nat} (h : rest.length ≤ fuel)
    (h' : rest.length ≤ fuel') : validateFrames cids fuel rest = validateFrames cids fuel' rest := by
  induction fuel generalizing fuel' rest with
  | zero =>
    obtain rfl := List.length_eq_zero_iff.mp (Nat.le_zero.mp h)
    cases fuel' with
    | zero => rfl
    | succ fuel' => rfl
  | succ fuel ih =>
    cases rest with
    | nil =>
      cases fuel' with
      | zero => rfl
      | succ fuel' => rfl
    | cons byte rest =>
      cases fuel' with
      | zero => cases h'
      | succ fuel' =>
        rw [validateFrames_succ (List.cons_ne_nil byte rest),
          validateFrames_succ (List.cons_ne_nil byte rest)]
        cases hSplit : splitLength (byte :: rest) "malformed CAR block frame length varint"
            "declared CAR block frame length exceeds remaining input" with
        | error e => rfl
        | ok found =>
          obtain ⟨frame, next⟩ := found
          have hShorter := (splitLength_ok.mp hSplit).length_lt
          show (validateFrame cids frame >>= fun _ => validateFrames cids fuel next) =
            (validateFrame cids frame >>= fun _ => validateFrames cids fuel' next)
          have hSame : validateFrames cids fuel next = validateFrames cids fuel' next :=
            ih (by omega) (by omega)
          rw [hSame]

theorem validateCar_iff (hCids : cids.Reads) :
    validateCar cids carBytes = .ok () ↔ ∃ header blocks, CarFormat cids carBytes header blocks := by
  rw [validateCar_ok hCids]
  constructor
  · rintro ⟨header, rest, blocks, hSection, hFrames⟩
    exact ⟨header, blocks, carFormat_iff.mpr ⟨rest, hSection, hFrames⟩⟩
  · rintro ⟨header, blocks, hFormat⟩
    obtain ⟨rest, hSection, hFrames⟩ := carFormat_iff.mp hFormat
    exact ⟨header, rest, blocks, hSection, hFrames⟩

/-! ## What is exported -/

theorem carFormat_written
    (hRead : ∀ cid rest, cids.readBytes (cids.toBytes cid ++ rest) = .ok (cid, rest)) {roots : List Cid}
    (hBlocks : ∀ block ∈ blocks, IsHashedBlock cids block)
    (hFits : (carV1HeaderRoots cids roots ++ carFrames cids blocks).length < 2 ^ 64) :
    CarFormat cids (carV1HeaderRoots cids roots ++ carFrames cids blocks)
      (cids.headerToVec ⟨1, roots⟩) blocks := by
  have hHeader := @length_carSection (cids.headerToVec ⟨1, roots⟩)
  have hLength : (carSection (cids.headerToVec ⟨1, roots⟩)).length =
    (carV1HeaderRoots cids roots).length := rfl
  rw [carFrames_sections] at hFits ⊢
  rw [List.length_append] at hFits
  refine carFormat_iff.mpr ⟨(blocks.map (frameBytes cids)).flatMap carSection, ?_, ?_⟩
  · exact section_carSection (by omega)
  · refine frames_sections (forall₂_written fun block hBlock => ?_) (by omega)
    exact ⟨hRead _ _, hBlocks block hBlock⟩

/-- The validator terminates and accepts exactly the files of the format; a header with the frames
of hashed blocks is one, and splits into these blocks and no others; and a varint that was written
is read back. -/
theorem validateCar_exact (hCids : cids.Reads)
    (hRead : ∀ cid rest, cids.readBytes (cids.toBytes cid ++ rest) = .ok (cid, rest)) :
    (∀ carBytes, validateCar cids carBytes = .ok () ↔
        ∃ header blocks, CarFormat cids carBytes header blocks) ∧
      (∀ fuel rest, rest.length ≤ fuel →
        validateFrames cids fuel rest = validateFrames cids rest.length rest) ∧
      (∀ (roots : List Cid) (blocks : List (Cid × List UInt8)),
        (∀ block ∈ blocks, IsHashedBlock cids block) →
        (carV1HeaderRoots cids roots ++ carFrames cids blocks).length < 2 ^ 64 →
        validateCar cids (carV1HeaderRoots cids roots ++ carFrames cids blocks) = .ok () ∧
          ∀ header split,
            CarFormat cids (carV1HeaderRoots cids roots ++ carFrames cids blocks) header split ↔
              header = cids.headerToVec ⟨1, roots⟩ ∧ split = blocks) ∧
      ∀ n < 2 ^ 64, ∀ rest, decodeVarint (writeUvarint n ++ rest) = some (n, rest) := by
  refine ⟨fun _ => validateCar_iff hCids, ?_, ?_, fun n hn rest => decodeVarint_writeUvarint hn rest⟩
  · intro fuel rest hFuel
    exact validateFrames_fuel hFuel (Nat.le_refl _)
  · intro roots blocks hBlocks hFits
    have hFormat := carFormat_written hRead hBlocks hFits
    refine ⟨(validateCar_iff hCids).mpr ⟨_, _, hFormat⟩, ?_⟩
    intro header split
    constructor
    · exact carFormat_unique hFormat
    · rintro ⟨rfl, rfl⟩
      exact hFormat

/-! ## A file of one block -/

open Spaces

/-- The block of an empty map, and its CID. -/
def emptyMapCid : SampleCid where
  digest :=
    [193, 154, 121, 127, 161, 253, 89, 12, 210, 229, 180, 45, 28, 245, 242, 70, 226, 155, 145, 104,
      78, 47, 135, 64, 75, 129, 220, 52, 92, 122, 86, 160]
  length_eq := rfl

/-- The hash and the header as the crates compute them for `emptyMapCid`. -/
def emptyMapCids : CarCodec SampleCid :=
  { sampleCids with
    sha256 := fun bytes => if bytes = [0xa0] then emptyMapCid.digest else List.replicate 32 0
    headerToVec := fun header =>
      [0xa2, 0x65, 0x72, 0x6f, 0x6f, 0x74, 0x73, 0x80 + UInt8.ofNat header.roots.length] ++
        (header.roots.flatMap fun root =>
          [0xd8, 0x2a, 0x58, 0x25, 0x00] ++ sampleCids.toBytes root) ++
        [0x67, 0x76, 0x65, 0x72, 0x73, 0x69, 0x6f, 0x6e, UInt8.ofNat header.version] }

theorem emptyMapCids_reads : emptyMapCids.Reads where
  readU64 := sampleCids_lawful.readU64
  readU64_nil := rfl
  newV1 := sampleCids_lawful.newV1
  wrap := sampleCids_lawful.wrap
  sha256_length := by
    intro bytes
    show (if bytes = [0xa0] then emptyMapCid.digest else List.replicate 32 0).length = 32
    split
    · rfl
    · rfl

theorem emptyMap_file_valid :
    validateCar emptyMapCids (carV1HeaderRoots emptyMapCids [emptyMapCid] ++
      carFrames emptyMapCids [(emptyMapCid, [0xa0])]) = .ok () := by
  have hExact := validateCar_exact emptyMapCids_reads sampleCids_lawful.readBytes
  have hHashed : ∀ block ∈ [(emptyMapCid, [(0xa0 : UInt8)])], IsHashedBlock emptyMapCids block := by
    intro block hBlock
    rw [List.mem_singleton.mp hBlock]
    exact ⟨rfl, .inl rfl, rfl⟩
  exact (hExact.2.2.1 [emptyMapCid] _ hHashed (by decide)).1

end Ezpds.Repo
