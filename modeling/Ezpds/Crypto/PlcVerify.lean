import Ezpds.Crypto.CryptoError
import Ezpds.Crypto.PlcJson
import Ezpds.Library.Except

/-!
# Building and verifying PLC operations

The builders sign the bytes of an unsigned operation and write the signed one as JSON; the
verifiers read it again, rebuild the unsigned operation and check the signature. The hash,
the signature schemes and the text codings are parameters.

* `signBytes_ok`: a builder takes the low-S signatures and no others.
* `verifySigned_ok`: a signature that one of the keys verifies.
* `plc_build_verify_agree`: what is built is verified, as the same operation.
-/

namespace Ezpds.Crypto

open Library

structure DidKeyUri where
  uri : String
  deriving DecidableEq, Repr

/-! ## What is not part of the crate -/

/-- ECDSA with SHA-256 on one curve: a signature is `r` and `s`, 64 bytes, and a key is a
compressed point. -/
structure EcdsaCurve where
  checkSignature : List UInt8 → Except String Unit
  isHighS : List UInt8 → Bool
  checkKey : List UInt8 → Except String Unit
  verify : List UInt8 → List UInt8 → List UInt8 → Except String Unit

structure PlcCrates where
  printJson : Json → String
  parseJson : String → Option Json
  jsonError : String → String
  base64Encode : List UInt8 → String
  base64Decode : String → Except String (List UInt8)
  sha256 : List UInt8 → List UInt8
  base32 : List UInt8 → String
  multibaseDecode : String → Except String (List UInt8)
  p256 : EcdsaCurve
  k256 : EcdsaCurve

section Model

variable (crates : PlcCrates)

/-! ## Identifiers -/

def CIDV1_DAG_CBOR_SHA256_PREFIX : List UInt8 := [0x01, 0x71, 0x12, 0x20]

def computeCid (signedOpCbor : List UInt8) : String :=
  let encoded := crates.base32 (CIDV1_DAG_CBOR_SHA256_PREFIX ++ crates.sha256 signedOpCbor)
  "b" ++ String.ofList (encoded.toList.reverse.dropWhile (· == '=')).reverse

/-- The DID of a genesis operation: the first 24 characters of its hash. -/
def deriveDid (signedOpCbor : List UInt8) : String :=
  "did:plc:" ++ String.ofList ((crates.base32 (crates.sha256 signedOpCbor)).toList.take 24)

/-! ## Signatures -/

def P256_MULTICODEC_PREFIX : List UInt8 := [0x80, 0x24]

def SECP256K1_MULTICODEC_PREFIX : List UInt8 := [0xe7, 0x01]

def ensureLowSCallbackSignature (sigBytes : List UInt8) : Except CryptoError Unit :=
  match crates.p256.checkSignature sigBytes with
  | .error e =>
    .error (.plcOperation ("signing callback returned invalid signature bytes: " ++ e))
  | .ok () =>
    if crates.p256.isHighS sigBytes then
      .error (.plcOperation
        "signing callback returned a non-canonical high-S signature (atproto requires low-S)")
    else .ok ()

def decodeDidKeyMultikey (key : DidKeyUri) : Except String (List UInt8) :=
  if "did:key:".toList.isPrefixOf key.uri.toList then
    (crates.multibaseDecode (String.ofList (key.uri.toList.drop 8))).mapError fun e =>
      "decode public key multibase: " ++ e
  else .error "public key missing did:key: prefix"

/-- `verify_p256_sec1` and `verify_k256_sec1`. -/
def verifySec1 (curve : EcdsaCurve) (name : String) (sec1 message sigBytes : List UInt8) :
    Except String Unit := do
  (curve.checkSignature sigBytes).mapError fun e => "invalid ECDSA signature bytes: " ++ e
  check (!curve.isHighS sigBytes) "signature is not low-S canonical (atproto requires low-S)"
  (curve.checkKey sec1).mapError fun e => "invalid " ++ name ++ " public key: " ++ e
  (curve.verify sec1 message sigBytes).mapError fun e => "signature verification failed: " ++ e

def verifySignatureWithKey (key : DidKeyUri) (message sigBytes : List UInt8) :
    Except String Unit := do
  let multikey ← decodeDidKeyMultikey crates key
  if P256_MULTICODEC_PREFIX.isPrefixOf multikey then
    verifySec1 crates.p256 "P-256" (multikey.drop 2) message sigBytes
  else if SECP256K1_MULTICODEC_PREFIX.isPrefixOf multikey then
    verifySec1 crates.k256 "secp256k1" (multikey.drop 2) message sigBytes
  else
    .error "unsupported did:key type (multicodec prefix is neither P-256 nor secp256k1)"

/-! ## Builders -/

structure PlcGenesisOp where
  did : String
  signedOpJson : String
  deriving DecidableEq, Repr

structure SignedPlcOperation where
  cid : String
  signedOpJson : String
  deriving DecidableEq, Repr

/-- A signing callback. -/
abbrev Signer := List UInt8 → Except CryptoError (List UInt8)

/-- The steps between the unsigned bytes and the `sig` field. -/
def signBytes (sign : Signer) (unsignedCbor : List UInt8) : Except CryptoError String := do
  let sigBytes ← sign unsignedCbor
  check (sigBytes.length == 64) (.plcOperation
    ("signing callback returned " ++ toString sigBytes.length ++ " bytes, expected 64"))
  ensureLowSCallbackSignature crates sigBytes
  return crates.base64Encode sigBytes

def SignedPlcOp.ofUnsigned (op : UnsignedPlcOp) (sig : String) : SignedPlcOp where
  sig
  prev := op.prev
  opType := op.opType
  services := op.services
  alsoKnownAs := op.alsoKnownAs
  rotationKeys := op.rotationKeys
  verificationMethods := op.verificationMethods

def genesisOp (rotationKeys : List String) (signingKey : DidKeyUri)
    (handle serviceEndpoint : String) : UnsignedPlcOp where
  prev := none
  opType := "plc_operation"
  services := SortedMap.empty.insert "atproto_pds" ⟨"AtprotoPersonalDataServer", serviceEndpoint⟩
  alsoKnownAs := ["at://" ++ handle]
  rotationKeys
  verificationMethods := SortedMap.empty.insert "atproto" signingKey.uri

def buildGenesisOpCore (rotationKeys : List String) (signingKey : DidKeyUri)
    (handle serviceEndpoint : String) (sign : Signer) : Except CryptoError PlcGenesisOp := do
  let unsignedOp := genesisOp rotationKeys signingKey handle serviceEndpoint
  let sig ← signBytes crates sign (PlcMessage.unsigned unsignedOp).bytes
  let signedOp := SignedPlcOp.ofUnsigned unsignedOp sig
  return {
    did := deriveDid crates (PlcMessage.signed signedOp).bytes
    signedOpJson := crates.printJson signedOp.toJson }

def buildDidPlcGenesisOpWithExternalSigner (rotationKey signingKey : DidKeyUri)
    (handle serviceEndpoint : String) (sign : Signer) : Except CryptoError PlcGenesisOp :=
  buildGenesisOpCore crates [rotationKey.uri, signingKey.uri] signingKey handle serviceEndpoint sign

def buildDidPlcGenesisOpMultiRotationWithExternalSigner (rotationKeys : List DidKeyUri)
    (signingKey : DidKeyUri) (handle serviceEndpoint : String) (sign : Signer) :
    Except CryptoError PlcGenesisOp := do
  check (!(rotationKeys.isEmpty || rotationKeys.length > 5)) (.plcOperation
    ("rotation_keys must contain between 1 and 5 keys, got " ++ toString rotationKeys.length))
  buildGenesisOpCore crates (rotationKeys.map (·.uri)) signingKey handle serviceEndpoint sign

def rotationOp (prevCid : String) (rotationKeys : List String)
    (verificationMethods : StringMap String) (alsoKnownAs : List String)
    (services : StringMap PlcService) : UnsignedPlcOp where
  prev := some prevCid
  opType := "plc_operation"
  services
  alsoKnownAs
  rotationKeys
  verificationMethods

def buildDidPlcRotationOp (prevCid : String) (rotationKeys : List String)
    (verificationMethods : StringMap String) (alsoKnownAs : List String)
    (services : StringMap PlcService) (sign : Signer) :
    Except CryptoError SignedPlcOperation := do
  let unsignedOp := rotationOp prevCid rotationKeys verificationMethods alsoKnownAs services
  let sig ← signBytes crates sign (PlcMessage.unsigned unsignedOp).bytes
  let signedOp := SignedPlcOp.ofUnsigned unsignedOp sig
  return {
    cid := computeCid crates (PlcMessage.signed signedOp).bytes
    signedOpJson := crates.printJson signedOp.toJson }

/-! ## Verifiers -/

structure VerifiedPlcOp where
  did : Option String
  cid : String
  prev : Option String
  rotationKeys : List String
  alsoKnownAs : List String
  verificationMethods : StringMap String
  services : StringMap PlcService
  deriving DecidableEq

structure VerifiedGenesisOp where
  did : String
  rotationKeys : List String
  alsoKnownAs : List String
  verificationMethods : StringMap String
  atprotoPdsEndpoint : Option String
  services : StringMap PlcService
  deriving DecidableEq

def parseSignedOp (signedOpJson : String) : Except CryptoError SignedPlcOp :=
  match crates.parseJson signedOpJson >>= SignedPlcOp.fromJson with
  | some op => .ok op
  | none => .error (.plcOperation ("invalid signed op JSON: " ++ crates.jsonError signedOpJson))

def checkOpType (op : SignedPlcOp) : Except CryptoError Unit :=
  check (op.opType == "plc_operation")
    (.plcOperation ("expected type 'plc_operation', got '" ++ op.opType ++ "'"))

def decodeSig (op : SignedPlcOp) : Except CryptoError (List UInt8) :=
  (crates.base64Decode op.sig).mapError fun e => .plcOperation ("invalid sig base64url: " ++ e)

/-- The unsigned operation that a signed one was built from. -/
def SignedPlcOp.unsigned (op : SignedPlcOp) : UnsignedPlcOp where
  prev := op.prev
  opType := op.opType
  services := op.services
  alsoKnownAs := op.alsoKnownAs
  rotationKeys := op.rotationKeys
  verificationMethods := op.verificationMethods

/-- The loop over the keys; `i` counts them, and the errors of those that failed are kept. -/
def tryKeys (message sigBytes : List UInt8) (i : Nat) (keyErrors : List String) :
    List DidKeyUri → Except CryptoError Unit
  | [] => .error (.plcOperation
      ("no authorized rotation key verified the signature: " ++ "; ".intercalate keyErrors))
  | key :: keys =>
    match verifySignatureWithKey crates key message sigBytes with
    | .ok () => .ok ()
    | .error e =>
      tryKeys message sigBytes (i + 1) (keyErrors ++ ["key[" ++ toString i ++ "]: " ++ e]) keys

def verifyPlcOperation (signedOpJson : String) (authorizedRotationKeys : List DidKeyUri) :
    Except CryptoError VerifiedPlcOp := do
  check (!authorizedRotationKeys.isEmpty)
    (.plcOperation "authorized_rotation_keys must not be empty")
  let signedOp ← parseSignedOp crates signedOpJson
  checkOpType signedOp
  let sigBytes ← decodeSig crates signedOp
  tryKeys crates (PlcMessage.unsigned signedOp.unsigned).bytes sigBytes 0 []
    authorizedRotationKeys
  let signedCbor := (PlcMessage.signed signedOp).bytes
  return {
    did := if signedOp.prev.isNone then some (deriveDid crates signedCbor) else none
    cid := computeCid crates signedCbor
    prev := signedOp.prev
    rotationKeys := signedOp.rotationKeys
    alsoKnownAs := signedOp.alsoKnownAs
    verificationMethods := signedOp.verificationMethods
    services := signedOp.services }

def verifyGenesisOp (signedOpJson : String) (rotationKey : DidKeyUri) :
    Except CryptoError VerifiedGenesisOp := do
  let signedOp ← parseSignedOp crates signedOpJson
  check signedOp.prev.isNone (.plcOperation "genesis op must have prev = null")
  checkOpType signedOp
  let sigBytes ← decodeSig crates signedOp
  (verifySignatureWithKey crates rotationKey (PlcMessage.unsigned signedOp.unsigned).bytes
    sigBytes).mapError .plcOperation
  return {
    did := deriveDid crates (PlcMessage.signed signedOp).bytes
    rotationKeys := signedOp.rotationKeys
    alsoKnownAs := signedOp.alsoKnownAs
    verificationMethods := signedOp.verificationMethods
    atprotoPdsEndpoint := (signedOp.services.get? "atproto_pds").map (·.endpoint)
    services := signedOp.services }

/-! ## What is built is verified -/

/-- A 64-byte low-S signature, as the builders ask their callback for. -/
structure LowSSignature (sigBytes : List UInt8) : Prop where
  length : sigBytes.length = 64
  valid : crates.p256.checkSignature sigBytes = .ok ()
  low : crates.p256.isHighS sigBytes = false

/-- The text codings read back what they wrote: the signature, and the document of the
operation that carries it. -/
structure PlcCrates.ReadBack (op : UnsignedPlcOp) (sigBytes : List UInt8) : Prop where
  base64 : crates.base64Decode (crates.base64Encode sigBytes) = .ok sigBytes
  json :
    let signedOp := SignedPlcOp.ofUnsigned op (crates.base64Encode sigBytes)
    crates.parseJson (crates.printJson signedOp.toJson) = some signedOp.toJson

/-- A signature that one of the keys verifies. -/
def VerifiedBy (keys : List DidKeyUri) (message sigBytes : List UInt8) : Prop :=
  ∃ key ∈ keys, verifySignatureWithKey crates key message sigBytes = .ok ()

variable {crates}

theorem ensureLowS_ok {sigBytes : List UInt8} :
    ensureLowSCallbackSignature crates sigBytes = .ok () ↔
      crates.p256.checkSignature sigBytes = .ok () ∧ crates.p256.isHighS sigBytes = false := by
  rw [ensureLowSCallbackSignature]
  cases hCheck : crates.p256.checkSignature sigBytes with
  | error e => simp
  | ok _ =>
    cases hHigh : crates.p256.isHighS sigBytes with
    | false => simp
    | true => simp

/-- A builder takes a callback's signature exactly when it is a low-S one. -/
theorem signBytes_ok {sign : Signer} {message : List UInt8} {sig : String} :
    signBytes crates sign message = .ok sig ↔
      ∃ sigBytes, sign message = .ok sigBytes ∧ LowSSignature crates sigBytes ∧
        sig = crates.base64Encode sigBytes := by
  rw [signBytes, bind_ok]
  apply exists_congr
  intro sigBytes
  apply and_congr_right
  intro _
  constructor
  · intro h
    obtain ⟨_, hLength, h⟩ := bind_ok.mp h
    obtain ⟨_, hLow, h⟩ := bind_ok.mp h
    obtain ⟨hValid, hLow⟩ := ensureLowS_ok.mp hLow
    exact ⟨⟨by simpa using check_ok.mp hLength, hValid, hLow⟩, pure_ok.mp h⟩
  · intro h
    obtain ⟨hSig, hEq⟩ := h
    apply bind_ok.mpr
    refine ⟨(), check_ok.mpr (by simpa using hSig.length), ?_⟩
    apply bind_ok.mpr
    exact ⟨(), ensureLowS_ok.mpr ⟨hSig.valid, hSig.low⟩, pure_ok.mpr hEq⟩

theorem tryKeys_ok {keys : List DidKeyUri} {message sigBytes : List UInt8}
    (h : VerifiedBy crates keys message sigBytes) (i : Nat) (keyErrors : List String) :
    tryKeys crates message sigBytes i keyErrors keys = .ok () := by
  induction keys generalizing i keyErrors with
  | nil =>
    obtain ⟨_, hMem, _⟩ := h
    cases hMem
  | cons key keys ih =>
    rw [tryKeys]
    cases hHead : verifySignatureWithKey crates key message sigBytes with
    | ok _ => rfl
    | error e =>
      obtain ⟨other, hMem, hOther⟩ := h
      rcases List.mem_cons.mp hMem with rfl | hMem
      · rw [hHead] at hOther
        cases hOther
      · exact ih ⟨other, hMem, hOther⟩ _ _

theorem parseSignedOp_ofUnsigned {op : UnsignedPlcOp} {sigBytes : List UInt8}
    (hRead : crates.ReadBack op sigBytes) :
    let signedOp := SignedPlcOp.ofUnsigned op (crates.base64Encode sigBytes)
    parseSignedOp crates (crates.printJson signedOp.toJson) = .ok signedOp := by
  intro signedOp
  have hParse : (crates.parseJson (crates.printJson signedOp.toJson) >>= SignedPlcOp.fromJson) =
      some signedOp := by
    rw [hRead.json]
    exact SignedPlcOp.fromJson_toJson signedOp
  rw [parseSignedOp, hParse]

theorem decodeSig_ofUnsigned {op : UnsignedPlcOp} {sigBytes : List UInt8}
    (hRead : crates.ReadBack op sigBytes) :
    decodeSig crates (SignedPlcOp.ofUnsigned op (crates.base64Encode sigBytes)) =
      .ok sigBytes := by
  rw [decodeSig, SignedPlcOp.ofUnsigned, hRead.base64]
  rfl

/-- A signature that one of the keys verifies carries the operation through the verifier. -/
theorem verifySigned_ok {op : UnsignedPlcOp} {keys : List DidKeyUri} {sigBytes : List UInt8}
    (hRead : crates.ReadBack op sigBytes) (hType : op.opType = "plc_operation")
    (hSig : VerifiedBy crates keys (PlcMessage.unsigned op).bytes sigBytes) :
    let signedOp := SignedPlcOp.ofUnsigned op (crates.base64Encode sigBytes)
    let signedCbor := (PlcMessage.signed signedOp).bytes
    verifyPlcOperation crates (crates.printJson signedOp.toJson) keys = .ok {
      did := if op.prev.isNone then some (deriveDid crates signedCbor) else none
      cid := computeCid crates signedCbor
      prev := op.prev
      rotationKeys := op.rotationKeys
      alsoKnownAs := op.alsoKnownAs
      verificationMethods := op.verificationMethods
      services := op.services } := by
  intro signedOp signedCbor
  have hKeys : keys.isEmpty = false := by
    obtain ⟨key, hMem, _⟩ := hSig
    rw [List.isEmpty_eq_false_iff]
    exact List.ne_nil_of_mem hMem
  rw [verifyPlcOperation]
  apply bind_ok.mpr
  refine ⟨(), check_ok.mpr (by rw [hKeys]; rfl), ?_⟩
  apply bind_ok.mpr
  refine ⟨signedOp, parseSignedOp_ofUnsigned hRead, ?_⟩
  apply bind_ok.mpr
  refine ⟨(), check_ok.mpr (beq_iff_eq.mpr hType), ?_⟩
  apply bind_ok.mpr
  refine ⟨sigBytes, decodeSig_ofUnsigned hRead, ?_⟩
  apply bind_ok.mpr
  exact ⟨(), tryKeys_ok hSig 0 [], rfl⟩

theorem verifiedBy_of_tryKeys {keys : List DidKeyUri} {message sigBytes : List UInt8} {i : Nat}
    {keyErrors : List String} (h : tryKeys crates message sigBytes i keyErrors keys = .ok ()) :
    VerifiedBy crates keys message sigBytes := by
  induction keys generalizing i keyErrors with
  | nil => cases h
  | cons key keys ih =>
    rw [tryKeys] at h
    split at h
    · rename_i hHead
      exact ⟨key, List.mem_cons_self, hHead⟩
    · obtain ⟨other, hMem, hOther⟩ := ih h
      exact ⟨other, List.mem_cons_of_mem _ hMem, hOther⟩

/-- What a verified operation says of the document that was verified. -/
structure VerifiedFrom (op : SignedPlcOp) (verified : VerifiedPlcOp) : Prop where
  prev : verified.prev = op.prev
  rotationKeys : verified.rotationKeys = op.rotationKeys
  alsoKnownAs : verified.alsoKnownAs = op.alsoKnownAs
  verificationMethods : verified.verificationMethods = op.verificationMethods
  services : verified.services = op.services

theorem verifyPlcOperation_ok {json : String} {keys : List DidKeyUri} {verified : VerifiedPlcOp}
    (h : verifyPlcOperation crates json keys = .ok verified) :
    ∃ op sigBytes, (crates.parseJson json >>= SignedPlcOp.fromJson) = some op ∧
      crates.base64Decode op.sig = .ok sigBytes ∧
      VerifiedBy crates keys (PlcMessage.unsigned op.unsigned).bytes sigBytes ∧
      VerifiedFrom op verified := by
  obtain ⟨_, _, h⟩ := bind_ok.mp h
  obtain ⟨op, hParse, h⟩ := bind_ok.mp h
  obtain ⟨_, _, h⟩ := bind_ok.mp h
  obtain ⟨sigBytes, hSig, h⟩ := bind_ok.mp h
  obtain ⟨_, hKeys, h⟩ := bind_ok.mp h
  cases h
  refine ⟨op, sigBytes, ?_, mapError_ok.mp hSig, verifiedBy_of_tryKeys hKeys,
    ⟨rfl, rfl, rfl, rfl, rfl⟩⟩
  rw [parseSignedOp] at hParse
  split at hParse
  · rename_i hOp
    cases hParse
    exact hOp
  · cases hParse

theorem verifyGenesis_ok {op : UnsignedPlcOp} {key : DidKeyUri} {sigBytes : List UInt8}
    (hRead : crates.ReadBack op sigBytes) (hType : op.opType = "plc_operation")
    (hPrev : op.prev = none)
    (hSig : verifySignatureWithKey crates key (PlcMessage.unsigned op).bytes sigBytes = .ok ()) :
    let signedOp := SignedPlcOp.ofUnsigned op (crates.base64Encode sigBytes)
    verifyGenesisOp crates (crates.printJson signedOp.toJson) key = .ok {
      did := deriveDid crates (PlcMessage.signed signedOp).bytes
      rotationKeys := op.rotationKeys
      alsoKnownAs := op.alsoKnownAs
      verificationMethods := op.verificationMethods
      atprotoPdsEndpoint := (op.services.get? "atproto_pds").map (·.endpoint)
      services := op.services } := by
  intro signedOp
  have hNone : signedOp.prev.isNone = true := by
    rw [show signedOp.prev = op.prev from rfl, hPrev]
    rfl
  rw [verifyGenesisOp]
  apply bind_ok.mpr
  refine ⟨signedOp, parseSignedOp_ofUnsigned hRead, ?_⟩
  apply bind_ok.mpr
  refine ⟨(), check_ok.mpr hNone, ?_⟩
  apply bind_ok.mpr
  refine ⟨(), check_ok.mpr (beq_iff_eq.mpr hType), ?_⟩
  apply bind_ok.mpr
  refine ⟨sigBytes, decodeSig_ofUnsigned hRead, ?_⟩
  apply bind_ok.mpr
  exact ⟨(), mapError_ok.mpr hSig, rfl⟩

/-- What a builder that succeeds has written. -/
theorem buildRotation_ok {prevCid : String} {rotationKeys : List String}
    {verificationMethods : StringMap String} {alsoKnownAs : List String}
    {services : StringMap PlcService} {sign : Signer} {built : SignedPlcOperation} :
    let op := rotationOp prevCid rotationKeys verificationMethods alsoKnownAs services
    buildDidPlcRotationOp crates prevCid rotationKeys verificationMethods alsoKnownAs services
        sign = .ok built ↔
      ∃ sigBytes, sign (PlcMessage.unsigned op).bytes = .ok sigBytes ∧
        LowSSignature crates sigBytes ∧
        built = {
          cid := computeCid crates
            (PlcMessage.signed (SignedPlcOp.ofUnsigned op (crates.base64Encode sigBytes))).bytes
          signedOpJson := crates.printJson
            (SignedPlcOp.ofUnsigned op (crates.base64Encode sigBytes)).toJson } := by
  intro op
  rw [buildDidPlcRotationOp, bind_ok]
  constructor
  · intro h
    obtain ⟨sig, hSign, h⟩ := h
    obtain ⟨sigBytes, hBytes, hLow, rfl⟩ := signBytes_ok.mp hSign
    exact ⟨sigBytes, hBytes, hLow, pure_ok.mp h⟩
  · intro h
    obtain ⟨sigBytes, hBytes, hLow, rfl⟩ := h
    exact ⟨_, signBytes_ok.mpr ⟨sigBytes, hBytes, hLow, rfl⟩, rfl⟩

theorem buildGenesis_ok {rotationKeys : List String} {signingKey : DidKeyUri}
    {handle serviceEndpoint : String} {sign : Signer} {built : PlcGenesisOp} :
    let op := genesisOp rotationKeys signingKey handle serviceEndpoint
    buildGenesisOpCore crates rotationKeys signingKey handle serviceEndpoint sign = .ok built ↔
      ∃ sigBytes, sign (PlcMessage.unsigned op).bytes = .ok sigBytes ∧
        LowSSignature crates sigBytes ∧
        built = {
          did := deriveDid crates
            (PlcMessage.signed (SignedPlcOp.ofUnsigned op (crates.base64Encode sigBytes))).bytes
          signedOpJson := crates.printJson
            (SignedPlcOp.ofUnsigned op (crates.base64Encode sigBytes)).toJson } := by
  intro op
  rw [buildGenesisOpCore, bind_ok]
  constructor
  · intro h
    obtain ⟨sig, hSign, h⟩ := h
    obtain ⟨sigBytes, hBytes, hLow, rfl⟩ := signBytes_ok.mp hSign
    exact ⟨sigBytes, hBytes, hLow, pure_ok.mp h⟩
  · intro h
    obtain ⟨sigBytes, hBytes, hLow, rfl⟩ := h
    exact ⟨_, signBytes_ok.mpr ⟨sigBytes, hBytes, hLow, rfl⟩, rfl⟩

/-- The builder of several rotation keys is the core of the builders, for one to five keys. -/
theorem buildMultiRotation_ok {rotationKeys : List DidKeyUri} {signingKey : DidKeyUri}
    {handle serviceEndpoint : String} {sign : Signer} {built : PlcGenesisOp} :
    buildDidPlcGenesisOpMultiRotationWithExternalSigner crates rotationKeys signingKey handle
        serviceEndpoint sign = .ok built ↔
      (rotationKeys ≠ [] ∧ rotationKeys.length ≤ 5) ∧
        buildGenesisOpCore crates (rotationKeys.map (·.uri)) signingKey handle serviceEndpoint
          sign = .ok built := by
  have hCount : (!(rotationKeys.isEmpty || decide (rotationKeys.length > 5))) = true ↔
      rotationKeys ≠ [] ∧ rotationKeys.length ≤ 5 := by
    rw [Bool.not_eq_true', Bool.or_eq_false_iff, decide_eq_false_iff_not,
      List.isEmpty_eq_false_iff, not_lt]
  rw [buildDidPlcGenesisOpMultiRotationWithExternalSigner, bind_ok]
  constructor
  · intro h
    obtain ⟨_, hCheck, h⟩ := h
    exact ⟨hCount.mp (check_ok.mp hCheck), h⟩
  · intro h
    exact ⟨(), check_ok.mpr (hCount.mpr h.1), h.2⟩

/-- A callback signs a message with one of the keys. -/
structure SignsFor (crates : PlcCrates) (keys : List DidKeyUri) (sign : Signer)
    (op : UnsignedPlcOp) (sigBytes : List UInt8) : Prop where
  signed : sign (PlcMessage.unsigned op).bytes = .ok sigBytes
  verified : VerifiedBy crates keys (PlcMessage.unsigned op).bytes sigBytes

/-- What a builder writes, signed by one of the keys, the verifiers accept as the same
operation, of the same identifiers; and the builder writes it whenever the signature is the
low-S one that it asks for. -/
theorem plc_build_verify_agree (crates : PlcCrates) (sign : Signer) (keys : List DidKeyUri)
    (sigBytes : List UInt8) :
    (∀ (prevCid : String) (rotationKeys : List String) (verificationMethods : StringMap String)
      (alsoKnownAs : List String) (services : StringMap PlcService),
      let op := rotationOp prevCid rotationKeys verificationMethods alsoKnownAs services
      let result := buildDidPlcRotationOp crates prevCid rotationKeys verificationMethods
        alsoKnownAs services sign
      crates.ReadBack op sigBytes → SignsFor crates keys sign op sigBytes →
        (LowSSignature crates sigBytes → ∃ built, result = .ok built) ∧
        ∀ built, result = .ok built →
          verifyPlcOperation crates built.signedOpJson keys = .ok {
            did := none, cid := built.cid, prev := some prevCid
            rotationKeys, alsoKnownAs, verificationMethods, services }) ∧
    (∀ (rotationKeys : List String) (signingKey : DidKeyUri) (handle serviceEndpoint : String),
      let op := genesisOp rotationKeys signingKey handle serviceEndpoint
      let result := buildGenesisOpCore crates rotationKeys signingKey handle serviceEndpoint sign
      crates.ReadBack op sigBytes → SignsFor crates keys sign op sigBytes →
        (LowSSignature crates sigBytes → ∃ built, result = .ok built) ∧
        ∀ built, result = .ok built →
          (∃ cid, verifyPlcOperation crates built.signedOpJson keys = .ok {
            did := some built.did, cid, prev := none, rotationKeys
            alsoKnownAs := op.alsoKnownAs, verificationMethods := op.verificationMethods
            services := op.services }) ∧
          ∀ key, verifySignatureWithKey crates key (PlcMessage.unsigned op).bytes sigBytes =
              .ok () →
            verifyGenesisOp crates built.signedOpJson key = .ok {
              did := built.did, rotationKeys, alsoKnownAs := op.alsoKnownAs
              verificationMethods := op.verificationMethods
              atprotoPdsEndpoint := some serviceEndpoint, services := op.services }) := by
  constructor
  · intro prevCid rotationKeys verificationMethods alsoKnownAs services op result hRead hSign
    constructor
    · intro hLow
      exact ⟨_, buildRotation_ok.mpr ⟨sigBytes, hSign.signed, hLow, rfl⟩⟩
    · intro built hBuilt
      obtain ⟨sigBytes', hBytes, _, rfl⟩ := buildRotation_ok.mp hBuilt
      obtain rfl : sigBytes = sigBytes' := Except.ok.inj (hSign.signed.symm.trans hBytes)
      exact verifySigned_ok hRead rfl hSign.verified
  · intro rotationKeys signingKey handle serviceEndpoint op result hRead hSign
    constructor
    · intro hLow
      exact ⟨_, buildGenesis_ok.mpr ⟨sigBytes, hSign.signed, hLow, rfl⟩⟩
    · intro built hBuilt
      obtain ⟨sigBytes', hBytes, _, rfl⟩ := buildGenesis_ok.mp hBuilt
      obtain rfl : sigBytes = sigBytes' := Except.ok.inj (hSign.signed.symm.trans hBytes)
      constructor
      · exact ⟨_, verifySigned_ok hRead rfl hSign.verified⟩
      · intro key hKey
        exact verifyGenesis_ok hRead rfl rfl hKey

end Model

/-- The signature and the texts of one operation. -/
structure PlcSample where
  sig : List UInt8
  sigText : String
  hash : List UInt8
  hashText : String
  json : String

def sampleKey : DidKeyUri := ⟨"did:key:zDnaeRdgxh7vJtTc313mv4jHGPLzF6iFFu6a6YB89tdLmgPYY"⟩

def sampleMultikey : List UInt8 :=
  [128, 36, 2, 17, 220, 120, 21, 210, 144, 217, 240, 169, 219, 8, 153, 47, 186, 152, 142, 104,
   225, 40, 223, 103, 7, 128, 93, 163, 70, 214, 1, 120, 38, 36, 117]

/-- The crates as they answer on one operation. -/
def PlcSample.crates (sample : PlcSample) (op : UnsignedPlcOp) : PlcCrates where
  printJson _ := sample.json
  parseJson _ := some (SignedPlcOp.ofUnsigned op sample.sigText).toJson
  jsonError _ := "syntax error"
  base64Encode _ := sample.sigText
  base64Decode _ := .ok sample.sig
  sha256 _ := sample.hash
  base32 _ := sample.hashText
  multibaseDecode _ := .ok sampleMultikey
  p256 := ⟨fun _ => .ok (), fun _ => false, fun _ => .ok (), fun _ _ _ => .ok ()⟩
  k256 := ⟨fun _ => .ok (), fun _ => false, fun _ => .ok (), fun _ _ _ => .ok ()⟩

def genesisSample : PlcSample where
  sig :=
    [130, 85, 15, 47, 17, 200, 165, 224, 106, 77, 7, 114, 131, 224, 88, 127, 36, 145, 243, 19, 64,
     172, 157, 123, 112, 108, 86, 110, 27, 206, 80, 50, 82, 172, 120, 50, 160, 29, 102, 169, 39,
     51, 87, 57, 171, 190, 143, 171, 226, 121, 247, 96, 91, 27, 152, 114, 32, 56, 72, 205, 13, 33,
     11, 235]
  sigText :=
    "glUPLxHIpeBqTQdyg-BYfySR8xNArJ17cGxWbhvOUDJSrHgyoB1mqSczVzmrvo-r4nn3YFsbmHIgOEjNDSEL6w"
  hash :=
    [109, 68, 243, 119, 23, 205, 94, 190, 137, 93, 33, 23, 236, 100, 52, 48, 89, 220, 205, 69,
     182, 233, 76, 215, 30, 171, 92, 155, 169, 227, 81, 184]
  hashText := "nvcpg5yxzvpl5ck5eel6yzbugbm5ztkfw3uuzvy6vnojxkpdkg4a"
  json :=
    "\x7b\"sig\":\"glUPLxHIpeBqTQdyg-BYfySR8xNArJ17cGxWbhvOUDJSrHgyoB1mqSczVzmrvo-r4nn3YFsbmH" ++
    "IgOEjNDSEL6w\",\"prev\":null,\"type\":\"plc_operation\",\"services\":\x7b\"atproto_pds\"" ++
    ":\x7b\"type\":\"AtprotoPersonalDataServer\",\"endpoint\":\"https://pds.example.com\"\x7d" ++
    "\x7d,\"alsoKnownAs\":[\"at://alice.example.com\"],\"rotationKeys\":[\"did:key:zDnaeRdgxh" ++
    "7vJtTc313mv4jHGPLzF6iFFu6a6YB89tdLmgPYY\"],\"verificationMethods\":\x7b\"atproto\":\"did" ++
    ":key:zDnaeRdgxh7vJtTc313mv4jHGPLzF6iFFu6a6YB89tdLmgPYY\"\x7d\x7d"

def rotationSample : PlcSample where
  sig :=
    [78, 28, 244, 114, 114, 116, 213, 40, 131, 105, 7, 124, 31, 250, 43, 58, 81, 243, 43, 179, 36,
     172, 66, 232, 139, 99, 252, 117, 72, 69, 134, 171, 48, 34, 136, 215, 40, 96, 81, 199, 97,
     114, 43, 121, 215, 229, 35, 21, 76, 224, 219, 12, 162, 69, 174, 137, 52, 97, 144, 215, 214,
     255, 111, 198]
  sigText :=
    "Thz0cnJ01SiDaQd8H_orOlHzK7MkrELoi2P8dUhFhqswIojXKGBRx2FyK3nX5SMVTODbDKJFrok0YZDX1v9vxg"
  hash :=
    [191, 106, 35, 232, 75, 7, 84, 165, 138, 226, 146, 231, 166, 207, 143, 116, 55, 196, 227, 20,
     69, 1, 112, 153, 12, 105, 88, 39, 4, 176, 179, 221]
  hashText := "afyreif7nir6qsyhkssyvyus46tm7d3ug7cogfcfafyjsddjlatqjmft3u"
  json :=
    "\x7b\"sig\":\"Thz0cnJ01SiDaQd8H_orOlHzK7MkrELoi2P8dUhFhqswIojXKGBRx2FyK3nX5SMVTODbDKJFro" ++
    "k0YZDX1v9vxg\",\"prev\":\"bafyreidnitzxof6nl27isxjbc7wginbqlhom2rnw5fgnohvllsn2ty2rxa\"," ++
    "\"type\":\"plc_operation\",\"services\":\x7b\x7d,\"alsoKnownAs\":[\"at://alice.example.c" ++
    "om\"],\"rotationKeys\":[\"did:key:zDnaeRdgxh7vJtTc313mv4jHGPLzF6iFFu6a6YB89tdLmgPYY\"]," ++
    "\"verificationMethods\":\x7b\"atproto\":\"did:key:zDnaeRdgxh7vJtTc313mv4jHGPLzF6iFFu6a6Y" ++
    "B89tdLmgPYY\"\x7d\x7d"

theorem sample_signsFor (sample : PlcSample) (op : UnsignedPlcOp) :
    SignsFor (sample.crates op) [sampleKey] (fun _ => .ok sample.sig) op sample.sig := by
  have hPrefix : "did:key:".toList.isPrefixOf sampleKey.uri.toList = true := by decide +kernel
  refine ⟨rfl, sampleKey, List.mem_singleton.mpr rfl, ?_⟩
  rw [verifySignatureWithKey, decodeDidKeyMultikey, hPrefix]
  rfl

def sampleCid : String := "bafyreidnitzxof6nl27isxjbc7wginbqlhom2rnw5fgnohvllsn2ty2rxa"

def sampleRotation : UnsignedPlcOp :=
  rotationOp sampleCid [sampleKey.uri] (SortedMap.empty.insert "atproto" sampleKey.uri)
    ["at://alice.example.com"] SortedMap.empty

def sampleGenesis : UnsignedPlcOp :=
  genesisOp [sampleKey.uri] sampleKey "alice.example.com" "https://pds.example.com"

theorem plc_build_verify_agree_alice :
    (∃ built, buildDidPlcRotationOp (rotationSample.crates sampleRotation) sampleCid
        [sampleKey.uri] (SortedMap.empty.insert "atproto" sampleKey.uri)
        ["at://alice.example.com"] SortedMap.empty (fun _ => .ok rotationSample.sig) = .ok built ∧
      (verifyPlcOperation (rotationSample.crates sampleRotation) built.signedOpJson
        [sampleKey]).map (·.cid) = .ok built.cid) ∧
    ∃ built, buildGenesisOpCore (genesisSample.crates sampleGenesis) [sampleKey.uri] sampleKey
        "alice.example.com" "https://pds.example.com" (fun _ => .ok genesisSample.sig) =
        .ok built ∧
      (verifyGenesisOp (genesisSample.crates sampleGenesis) built.signedOpJson sampleKey).map
        (·.did) = .ok built.did := by
  have hRotation := (plc_build_verify_agree (rotationSample.crates sampleRotation)
    (fun _ => .ok rotationSample.sig) [sampleKey] rotationSample.sig).1 sampleCid [sampleKey.uri]
    (SortedMap.empty.insert "atproto" sampleKey.uri) ["at://alice.example.com"] SortedMap.empty
    ⟨rfl, rfl⟩ (sample_signsFor rotationSample sampleRotation)
  have hGenesis := (plc_build_verify_agree (genesisSample.crates sampleGenesis)
    (fun _ => .ok genesisSample.sig) [sampleKey] genesisSample.sig).2 [sampleKey.uri] sampleKey
    "alice.example.com" "https://pds.example.com" ⟨rfl, rfl⟩
    (sample_signsFor genesisSample sampleGenesis)
  constructor
  · obtain ⟨built, hBuilt⟩ := hRotation.1 ⟨rfl, rfl, rfl⟩
    refine ⟨built, hBuilt, ?_⟩
    rw [hRotation.2 built hBuilt]
    rfl
  · obtain ⟨built, hBuilt⟩ := hGenesis.1 ⟨rfl, rfl, rfl⟩
    refine ⟨built, hBuilt, ?_⟩
    obtain ⟨key, hKey, hSig⟩ := (sample_signsFor genesisSample sampleGenesis).verified
    obtain rfl := List.mem_singleton.mp hKey
    rw [(hGenesis.2 built hBuilt).2 sampleKey hSig]
    rfl

end Ezpds.Crypto
