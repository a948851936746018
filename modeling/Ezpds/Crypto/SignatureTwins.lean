import Ezpds.Crypto.PlcVerify
import Ezpds.Library.BaseText

/-!
# Signatures and their twins

An ECDSA signature `(r, s)` of a message has a twin `(r, n - s)` that its key verifies as well, and
a text coding may have several spellings of the same bytes. The CID of an operation covers the
text of its signature, so the verifier takes one spelling of the one with the lower `s`.

The order `n` is another for each curve: what is high on one may be low on the other.

* `low_eq`: of a signature and its twin one is low.
* `derived_signature_unique`: one text is accepted, where no key of another curve is asked.
* `twin_accepted_on_other_curve`: keys of both curves may each verify one of the two.
-/

namespace Ezpds.Crypto

open Library

/-! ## What the crates promise -/

/-- The curves whose keys sign operations. -/
inductive KeyCurve where
  | p256 | k256
  deriving DecidableEq

/-- The order of the curve. -/
def KeyCurve.order : KeyCurve → Nat
  | .p256 => 0xffffffff00000000ffffffffffffffffbce6faada7179e84f3b9cac2fc632551
  | .k256 => 0xfffffffffffffffffffffffffffffffebaaedce6af48a03bbfd25e8cd0364141

def PlcCrates.ecdsa (crates : PlcCrates) : KeyCurve → EcdsaCurve
  | .p256 => crates.p256
  | .k256 => crates.k256

/-- The number `s` of a signature. -/
def sOf (sig : List UInt8) : Nat :=
  bytesValue (sig.drop 32)

/-- A signature is 64 bytes, and is high where `s` is more than half of the order. `reads` is any
reading of texts that takes what the decoder takes, and may take more; the decoder takes no
padding and no trailing bits. -/
structure PlcCrates.Strict (crates : PlcCrates) (reads : String → Option (List UInt8)) : Prop where
  length : ∀ curve sig, (crates.ecdsa curve).checkSignature sig = .ok () → sig.length = 64
  highS : ∀ curve sig, (crates.ecdsa curve).checkSignature sig = .ok () →
    ((crates.ecdsa curve).isHighS sig = true ↔ curve.order / 2 < sOf sig)
  canonical : ∀ text bytes, crates.base64Decode text = .ok bytes → crates.base64Encode bytes = text
  reads : ∀ text bytes, crates.base64Decode text = .ok bytes → reads text = some bytes

/-! ## Texts that are derived from a signature -/

/-- The other signature with the same `r`. -/
structure IsTwin (order : Nat) (sig twin : List UInt8) : Prop where
  r : twin.take 32 = sig.take 32
  s : sOf twin + sOf sig = order

/-- A spelling of the signature or of its twin. -/
def Derived (reads : String → Option (List UInt8)) (curve : KeyCurve) (sig : List UInt8)
    (text : String) : Prop :=
  ∃ bytes, reads text = some bytes ∧ (bytes = sig ∨ IsTwin curve.order sig bytes)

/-- The curve that a key's multicodec prefix names. -/
def keyCurve (crates : PlcCrates) (key : DidKeyUri) : Option KeyCurve :=
  match decodeDidKeyMultikey crates key with
  | .ok multikey =>
    if P256_MULTICODEC_PREFIX.isPrefixOf multikey then some .p256
    else if SECP256K1_MULTICODEC_PREFIX.isPrefixOf multikey then some .k256
    else none
  | .error _ => none

/-- Two documents of one operation whose signatures are derived from one. -/
structure DerivedPair (crates : PlcCrates) (reads : String → Option (List UInt8))
    (curve : KeyCurve) (sig : List UInt8) (json json' : String) (op op' : SignedPlcOp) : Prop where
  parsed : parseSignedOp crates json = .ok op
  parsed' : parseSignedOp crates json' = .ok op'
  unsigned : op.unsigned = op'.unsigned
  derived : Derived reads curve sig op.sig
  derived' : Derived reads curve sig op'.sig

/-- A key of another curve verifies the signature that the text spells. -/
def VerifiedElsewhere (crates : PlcCrates) (curve : KeyCurve) (keys : List DidKeyUri)
    (op : SignedPlcOp) : Prop :=
  ∃ key ∈ keys, ∃ other sigBytes, keyCurve crates key = some other ∧ other ≠ curve ∧
    crates.base64Decode op.sig = .ok sigBytes ∧
    verifySignatureWithKey crates key (PlcMessage.unsigned op.unsigned).bytes sigBytes = .ok ()

/-! ## One of the two is low -/

variable {crates : PlcCrates} {reads : String → Option (List UInt8)} {curve : KeyCurve}
  {sig sig' : List UInt8} {keys : List DidKeyUri} {key : DidKeyUri} {json json' : String}
  {op op' : SignedPlcOp} {verified verified' : VerifiedPlcOp}

theorem bytes_eq (hLength : sig.length = 64) (hLength' : sig'.length = 64)
    (hr : sig.take 32 = sig'.take 32) (hs : sOf sig = sOf sig') : sig = sig' := by
  have hDrop : (sig.drop 32).length = (sig'.drop 32).length := by
    rw [List.length_drop, List.length_drop, hLength, hLength']
  have hRest : sig.drop 32 = sig'.drop 32 := by
    rw [← fixedDigits_bytesValue (sig.drop 32), ← fixedDigits_bytesValue (sig'.drop 32), hDrop]
    exact congrArg (fun s => (fixedDigits 256 (sig'.drop 32).length s).map UInt8.ofNat) hs
  rw [← List.take_append_drop 32 sig, hr, hRest, List.take_append_drop]

/-- The orders are odd. -/
theorem order_odd (curve : KeyCurve) : curve.order % 2 = 1 := by
  cases curve <;> decide

/-- What a key takes is low on its curve. -/
theorem verifySignatureWithKey_low (hStrict : crates.Strict reads) {message : List UInt8}
    (h : verifySignatureWithKey crates key message sig = .ok ()) :
    ∃ curve, keyCurve crates key = some curve ∧ sig.length = 64 ∧ sOf sig ≤ curve.order / 2 := by
  have hLow : ∀ curve : KeyCurve, ∀ name sec1,
      verifySec1 (crates.ecdsa curve) name sec1 message sig = .ok () →
      sig.length = 64 ∧ sOf sig ≤ curve.order / 2 := by
    intro curve name sec1 hVerified
    obtain ⟨_, hCheck, hVerified⟩ := bind_ok.mp hVerified
    obtain ⟨_, hHigh, _⟩ := bind_ok.mp hVerified
    have hValid := mapError_ok.mp hCheck
    have hNot := mt (hStrict.highS curve sig hValid).mpr (by simpa using check_ok.mp hHigh)
    exact ⟨hStrict.length curve sig hValid, Nat.le_of_not_lt hNot⟩
  obtain ⟨multikey, hKey, h⟩ := bind_ok.mp h
  rw [keyCurve, hKey]
  dsimp only
  split at h
  · rename_i hPrefix
    rw [if_pos hPrefix]
    exact ⟨.p256, rfl, hLow .p256 _ _ h⟩
  · rename_i hPrefix
    rw [if_neg hPrefix]
    split at h
    · rename_i hPrefix'
      rw [if_pos hPrefix']
      exact ⟨.k256, rfl, hLow .k256 _ _ h⟩
    · cases h

/-- Of a signature and its twin one is low. -/
theorem low_eq {base : List UInt8} (hLength : sig.length = 64) (hLength' : sig'.length = 64)
    (hLow : sOf sig ≤ curve.order / 2) (hLow' : sOf sig' ≤ curve.order / 2)
    (h : sig = base ∨ IsTwin curve.order base sig)
    (h' : sig' = base ∨ IsTwin curve.order base sig') : sig = sig' := by
  have hOdd := order_odd curve
  rcases h with rfl | h
  · rcases h' with rfl | h'
    · rfl
    · have hSum := h'.s
      omega
  · rcases h' with rfl | h'
    · have hSum := h.s
      omega
    · have hSum := h.s
      have hSum' := h'.s
      exact bytes_eq hLength hLength' (h.r.trans h'.r.symm) (by omega)

/-- A key that accepts the document is of the curve, or of another one. -/
theorem verified_derived (hStrict : crates.Strict reads) (hParse : parseSignedOp crates json = .ok op)
    (hDerived : Derived reads curve sig op.sig)
    (h : verifyPlcOperation crates json keys = .ok verified) :
    VerifiedElsewhere crates curve keys op ∨
      ∃ bytes, crates.base64Encode bytes = op.sig ∧ bytes.length = 64 ∧
        sOf bytes ≤ curve.order / 2 ∧ (bytes = sig ∨ IsTwin curve.order sig bytes) := by
  unfold verifyPlcOperation at h
  obtain ⟨_, _, h⟩ := bind_ok.mp h
  obtain ⟨read, hRead, h⟩ := bind_ok.mp h
  obtain rfl : op = read := Except.ok.inj (hParse.symm.trans hRead)
  obtain ⟨_, _, h⟩ := bind_ok.mp h
  obtain ⟨bytes, hBytes, h⟩ := bind_ok.mp h
  obtain ⟨_, hKeys, _⟩ := bind_ok.mp h
  have hDecode := mapError_ok.mp hBytes
  obtain ⟨key, hMem, hKey⟩ := verifiedBy_of_tryKeys hKeys
  obtain ⟨other, hOther, hLength, hLow⟩ := verifySignatureWithKey_low hStrict hKey
  by_cases hSame : other = curve
  · subst hSame
    obtain ⟨bytes', hReads, hFrom⟩ := hDerived
    rw [hStrict.reads _ _ hDecode] at hReads
    obtain rfl := Option.some_inj.mp hReads
    exact .inr ⟨bytes, hStrict.canonical _ _ hDecode, hLength, hLow, hFrom⟩
  · exact .inl ⟨key, hMem, other, bytes, hOther, hSame, hDecode, hKey⟩

/-- What the verifier says depends on the document through the operation that it reads. -/
theorem verifyPlcOperation_congr (h : parseSignedOp crates json = parseSignedOp crates json') :
    verifyPlcOperation crates json keys = verifyPlcOperation crates json' keys := by
  unfold verifyPlcOperation
  rw [h]

theorem signed_ext (hUnsigned : op.unsigned = op'.unsigned) (hSig : op.sig = op'.sig) :
    op = op' := by
  cases op
  cases op'
  cases hUnsigned
  cases hSig
  rfl

/-- Two accepted documents with signatures that are derived from one are the same operation, unless
a key of another curve verified one of them. -/
theorem derived_signature_unique (crates : PlcCrates) (reads : String → Option (List UInt8))
    (hStrict : crates.Strict reads) (keys : List DidKeyUri) (curve : KeyCurve)
    (sig : List UInt8) (json json' : String) (op op' : SignedPlcOp)
    (verified verified' : VerifiedPlcOp)
    (hPair : DerivedPair crates reads curve sig json json' op op')
    (h : verifyPlcOperation crates json keys = .ok verified)
    (h' : verifyPlcOperation crates json' keys = .ok verified') :
    (op = op' ∧ verified = verified') ∨
      VerifiedElsewhere crates curve keys op ∨ VerifiedElsewhere crates curve keys op' := by
  rcases verified_derived hStrict hPair.parsed hPair.derived h with hOther | hHere
  · exact .inr (.inl hOther)
  · rcases verified_derived hStrict hPair.parsed' hPair.derived' h' with hOther | hHere'
    · exact .inr (.inr hOther)
    · obtain ⟨bytes, hText, hLength, hLow, hFrom⟩ := hHere
      obtain ⟨bytes', hText', hLength', hLow', hFrom'⟩ := hHere'
      have hBytes := low_eq hLength hLength' hLow hLow' hFrom hFrom'
      have hOp := signed_ext hPair.unsigned (by rw [← hText, ← hText', hBytes])
      have hSame := @verifyPlcOperation_congr crates keys json json'
        (by rw [hPair.parsed, hPair.parsed', hOp])
      rw [hSame, h'] at h
      exact .inl ⟨hOp, (Except.ok.inj h).symm⟩

/-! An operation that a P-256 key signed, and a secp256k1 key that verifies the twin. -/

def p256Key : DidKeyUri := ⟨"did:key:zDnaeriEqCJboXKbjnCF4MgrjswshJnY4pnHG1eFkpuXkQrZ5"⟩

def p256Multikey : List UInt8 :=
  [128, 36, 3, 134, 123, 0, 120, 211, 171, 63, 35, 179, 177, 255, 102, 89, 48, 86, 117, 21, 180,
   196, 33, 103, 232, 8, 39, 93, 3, 108, 240, 104, 197, 140, 176]

def k256Key : DidKeyUri := ⟨"did:key:zQ3shc2pedX8C3r63DT5paUj5QUX8ZW2K4YNe3AXap3QqYr1h"⟩

def k256Multikey : List UInt8 :=
  [231, 1, 2, 217, 62, 170, 155, 63, 96, 25, 143, 17, 246, 30, 237, 142, 151, 245, 6, 193, 246,
   114, 3, 63, 122, 109, 66, 203, 86, 201, 243, 65, 253, 126, 68]

/-- The number `r` of both signatures. -/
def twinR : List UInt8 :=
  [185, 181, 176, 146, 113, 12, 176, 134, 162, 244, 69, 193, 217, 161, 9, 111, 243, 5, 176, 131,
   227, 213, 87, 60, 186, 67, 85, 211, 45, 223, 234, 149]

/-- Its `s` is the half of the order of P-256, rounded down. -/
def lowSig : List UInt8 :=
  twinR ++
    [127, 255, 255, 255, 128, 0, 0, 0, 127, 255, 255, 255, 255, 255, 255, 255, 222, 115, 125, 86,
     211, 139, 207, 66, 121, 220, 229, 97, 126, 49, 146, 168]

def highSig : List UInt8 :=
  twinR ++
    [127, 255, 255, 255, 128, 0, 0, 0, 127, 255, 255, 255, 255, 255, 255, 255, 222, 115, 125, 86,
     211, 139, 207, 66, 121, 220, 229, 97, 126, 49, 146, 169]

def lowOp : SignedPlcOp :=
  .ofUnsigned sampleRotation
    "ubWwknEMsIai9EXB2aEJb_MFsIPj1Vc8ukNV0y3f6pV_____gAAAAH__________3nN9VtOLz0J53OVhfjGSqA"

def highOp : SignedPlcOp :=
  .ofUnsigned sampleRotation
    "ubWwknEMsIai9EXB2aEJb_MFsIPj1Vc8ukNV0y3f6pV_____gAAAAH__________3nN9VtOLz0J53OVhfjGSqQ"

/-- The document of the operation. -/
def twinJson (op : SignedPlcOp) : String :=
  "\x7b\"sig\":\"" ++ op.sig ++ "\",\"prev\":\"" ++ sampleCid ++
  "\",\"type\":\"plc_operation\",\"services\":\x7b\x7d,\"alsoKnownAs\":[\"at://alice.example.c" ++
  "om\"],\"rotationKeys\":[\"did:key:zDnaeRdgxh7vJtTc313mv4jHGPLzF6iFFu6a6YB89tdLmgPYY\"]," ++
  "\"verificationMethods\":\x7b\"atproto\":\"did:key:zDnaeRdgxh7vJtTc313mv4jHGPLzF6iFFu6a6Y" ++
  "B89tdLmgPYY\"\x7d\x7d"

/-- The document with a blank before it. -/
def spacedJson : String := " " ++ twinJson lowOp

def lowHash : List UInt8 :=
  [46, 182, 190, 93, 160, 206, 217, 172, 237, 9, 167, 122, 75, 177, 181, 213, 26, 40, 170, 140,
   41, 114, 238, 148, 30, 202, 176, 155, 80, 29, 215, 178]

def highHash : List UInt8 :=
  [100, 135, 74, 180, 187, 13, 120, 247, 89, 39, 191, 64, 7, 186, 171, 251, 120, 94, 113, 172, 98,
   41, 60, 144, 198, 238, 171, 50, 35, 218, 170, 113]

def base64urlDigit (c : Char) : Option Nat :=
  if 65 ≤ c.toNat ∧ c.toNat ≤ 90 then some (c.toNat - 65)
  else if 97 ≤ c.toNat ∧ c.toNat ≤ 122 then some (c.toNat - 71)
  else if 48 ≤ c.toNat ∧ c.toNat ≤ 57 then some (c.toNat + 4)
  else if c = '-' then some 62
  else if c = '_' then some 63
  else none

def base64urlSymbol (d : Nat) : Char :=
  Char.ofNat (if d < 26 then 65 + d else if d < 52 then 71 + d else if d < 62 then d - 4
    else if d = 62 then 45 else 95)

theorem base64urlDigit_spec (c : Char) (d : Nat) (h : base64urlDigit c = some d) :
    d < 2 ^ 6 ∧ base64urlSymbol d = c := by
  have hCode : ∀ n, n = c.toNat → Char.ofNat n = c := by
    rintro n rfl
    exact Char.ofNat_toNat c
  unfold base64urlDigit at h
  unfold base64urlSymbol
  split_ifs at h with hUpper hLower hDigit hDash hLine
  · cases h
    exact ⟨by omega, hCode _ (by rw [if_pos (by omega)]; omega)⟩
  · cases h
    exact ⟨by omega, hCode _ (by rw [if_neg (by omega), if_pos (by omega)]; omega)⟩
  · cases h
    refine ⟨by omega, hCode _ ?_⟩
    rw [if_neg (by omega), if_neg (by omega), if_pos (by omega)]
    omega
  · cases h
    subst hDash
    decide
  · cases h
    subst hLine
    decide

/-- One curve as it answers on the two signatures, for one key. -/
def twinCurve (curve : KeyCurve) (sec1 : List UInt8) (sigs : List (List UInt8)) : EcdsaCurve where
  checkSignature sig := if sig.length = 64 then .ok () else .error "signature error"
  isHighS sig := curve.order / 2 < sOf sig
  checkKey _ := .ok ()
  verify key message sig :=
    if key = sec1 ∧ message = (PlcMessage.unsigned sampleRotation).bytes ∧ sig ∈ sigs then .ok ()
    else .error "signature error"

def readTwin (text : String) : Option Json :=
  if text = twinJson lowOp ∨ text = spacedJson then some lowOp.toJson
  else if text = twinJson highOp then some highOp.toJson
  else none

def twinCrates : PlcCrates where
  printJson _ := twinJson lowOp
  parseJson := readTwin
  jsonError _ := "expected value at line 1 column 1"
  base64Encode bytes := String.ofList (baseEncode 6 base64urlSymbol bytes)
  base64Decode text :=
    (baseDecode 6 base64urlDigit text.toList).elim (.error "Invalid symbol") .ok
  sha256 bytes := if bytes = (PlcMessage.signed lowOp).bytes then lowHash else highHash
  base32 bytes := String.ofList
    (baseEncode 5 (fun d => Char.ofNat (if d < 26 then 97 + d else 24 + d)) bytes)
  multibaseDecode text :=
    if "did:key:" ++ text = p256Key.uri then .ok p256Multikey
    else if "did:key:" ++ text = k256Key.uri then .ok k256Multikey
    else .error "Unknown base code"
  p256 := twinCurve .p256 (p256Multikey.drop 2) [lowSig, highSig]
  k256 := twinCurve .k256 (k256Multikey.drop 2) [highSig]

/-- A decoder that takes padding as well. -/
def paddedDecode (text : String) : Option (List UInt8) :=
  (twinCrates.base64Decode text).toOption <|>
    (twinCrates.base64Decode (String.ofList (text.toList.filter (· ≠ '=')))).toOption

theorem twinCrates_strict : twinCrates.Strict paddedDecode where
  length curve sig h := by
    have hCheck : (twinCrates.ecdsa curve).checkSignature sig =
        if sig.length = 64 then .ok () else .error "signature error" := by
      cases curve <;> rfl
    rw [hCheck] at h
    split at h
    · assumption
    · cases h
  highS curve sig _ := by
    have hHigh : (twinCrates.ecdsa curve).isHighS sig = decide (curve.order / 2 < sOf sig) := by
      cases curve <;> rfl
    rw [hHigh, decide_eq_true_eq]
  canonical text bytes h := by
    simp only [twinCrates] at h ⊢
    cases hRead : baseDecode 6 base64urlDigit text.toList with
    | none =>
      rw [hRead] at h
      cases h
    | some read =>
      rw [hRead] at h
      cases h
      rw [baseEncode_of_baseDecode (by decide) base64urlDigit_spec hRead, String.ofList_toList]
  reads text bytes h := by
    rw [paddedDecode, h]
    rfl

theorem decode_sigs : twinCrates.base64Decode lowOp.sig = .ok lowSig ∧
    twinCrates.base64Decode highOp.sig = .ok highSig := by
  decide +kernel

theorem decode_low : twinCrates.base64Decode lowOp.sig = .ok lowSig := decode_sigs.1

theorem decode_high : twinCrates.base64Decode highOp.sig = .ok highSig := decode_sigs.2

theorem twinPair {json json' : String} {op : SignedPlcOp}
    (hParse : parseSignedOp twinCrates json = .ok lowOp)
    (hParse' : parseSignedOp twinCrates json' = .ok op) (hOp : op = lowOp ∨ op = highOp) :
    DerivedPair twinCrates paddedDecode .p256 lowSig json json' lowOp op where
  parsed := hParse
  parsed' := hParse'
  unsigned := by
    rcases hOp with rfl | rfl <;> rfl
  derived := ⟨lowSig, twinCrates_strict.reads _ _ decode_low, .inl rfl⟩
  derived' := by
    rcases hOp with rfl | rfl
    · exact ⟨lowSig, twinCrates_strict.reads _ _ decode_low, .inl rfl⟩
    · exact ⟨highSig, twinCrates_strict.reads _ _ decode_high, .inr ⟨rfl, by decide⟩⟩

theorem parse_twin {json : String} {op : SignedPlcOp} (h : readTwin json = some op.toJson) :
    parseSignedOp twinCrates json = .ok op := by
  have hJson : twinCrates.parseJson json = some op.toJson := h
  rw [parseSignedOp, hJson, Option.bind_eq_bind, Option.bind_some, SignedPlcOp.fromJson_toJson]

theorem parse_low : parseSignedOp twinCrates (twinJson lowOp) = .ok lowOp :=
  parse_twin (if_pos (.inl rfl))

theorem parse_spaced : parseSignedOp twinCrates spacedJson = .ok lowOp :=
  parse_twin (if_pos (.inr rfl))

theorem parse_high : parseSignedOp twinCrates (twinJson highOp) = .ok highOp := by
  apply parse_twin
  rw [readTwin, if_neg (by decide +kernel), if_pos rfl]

theorem decode_keys : decodeDidKeyMultikey twinCrates p256Key = .ok p256Multikey ∧
    decodeDidKeyMultikey twinCrates k256Key = .ok k256Multikey := by
  decide +kernel

theorem p256Key_multikey : decodeDidKeyMultikey twinCrates p256Key = .ok p256Multikey :=
  decode_keys.1

theorem k256Key_multikey : decodeDidKeyMultikey twinCrates k256Key = .ok k256Multikey :=
  decode_keys.2

theorem keyCurve_p256Key : keyCurve twinCrates p256Key = some .p256 := by
  rw [keyCurve, p256Key_multikey]
  rfl

theorem twinCurve_verifies {curve : KeyCurve} {name : String} {sec1 sig : List UInt8}
    {sigs : List (List UInt8)} (hMem : sig ∈ sigs) (hLength : sig.length = 64)
    (hLow : sOf sig ≤ curve.order / 2) :
    verifySec1 (twinCurve curve sec1 sigs) name sec1 (PlcMessage.unsigned sampleRotation).bytes
      sig = .ok () := by
  have hNotHigh : (twinCurve curve sec1 sigs).isHighS sig = false :=
    decide_eq_false (Nat.not_lt_of_le hLow)
  apply bind_ok.mpr
  refine ⟨(), mapError_ok.mpr (if_pos hLength), bind_ok.mpr ⟨(), check_ok.mpr ?_, ?_⟩⟩
  · rw [hNotHigh]
    rfl
  · exact bind_ok.mpr ⟨(), rfl, mapError_ok.mpr (if_pos ⟨rfl, rfl, hMem⟩)⟩

theorem p256Key_verifies : verifySignatureWithKey twinCrates p256Key
    (PlcMessage.unsigned sampleRotation).bytes lowSig = .ok () := by
  have hVerified := @twinCurve_verifies .p256 "P-256" (p256Multikey.drop 2) lowSig
    [lowSig, highSig] List.mem_cons_self (by decide) (by decide)
  apply bind_ok.mpr
  refine ⟨p256Multikey, p256Key_multikey, ?_⟩
  rw [if_pos (by decide)]
  exact hVerified

theorem k256Key_verifies : verifySignatureWithKey twinCrates k256Key
    (PlcMessage.unsigned sampleRotation).bytes highSig = .ok () := by
  have hVerified := @twinCurve_verifies .k256 "secp256k1" (k256Multikey.drop 2) highSig
    [highSig] List.mem_cons_self (by decide) (by decide)
  apply bind_ok.mpr
  refine ⟨k256Multikey, k256Key_multikey, ?_⟩
  rw [if_neg (by decide), if_pos (by decide)]
  exact hVerified

/-- A document whose signature one of the keys verifies is accepted. -/
theorem verify_twin {json : String} {op : SignedPlcOp} {sig : List UInt8} {keys : List DidKeyUri}
    (hParse : parseSignedOp twinCrates json = .ok op) (hType : op.opType = "plc_operation")
    (hDecode : twinCrates.base64Decode op.sig = .ok sig)
    (hKey : VerifiedBy twinCrates keys (PlcMessage.unsigned op.unsigned).bytes sig) :
    ∃ verified, verifyPlcOperation twinCrates json keys = .ok verified := by
  have hSome : keys.isEmpty = false := by
    obtain ⟨key, hMem, _⟩ := hKey
    exact List.isEmpty_eq_false_iff.mpr (List.ne_nil_of_mem hMem)
  apply exists_ok_of_isOk
  apply bind_isOk (check_ok.mpr (by rw [hSome]; rfl) : check _ _ = .ok ())
  apply bind_isOk hParse
  apply bind_isOk (check_ok.mpr (beq_iff_eq.mpr hType) : check _ _ = .ok ())
  apply bind_isOk (mapError_ok.mpr hDecode : decodeSig twinCrates op = .ok sig)
  exact bind_isOk (tryKeys_ok hKey 0 []) rfl

theorem derived_signature_unique_sample :
    verifyPlcOperation twinCrates (twinJson lowOp) [p256Key] =
      verifyPlcOperation twinCrates spacedJson [p256Key] := by
  have hKey : VerifiedBy twinCrates [p256Key] (PlcMessage.unsigned lowOp.unsigned).bytes lowSig :=
    ⟨p256Key, List.mem_singleton_self _, p256Key_verifies⟩
  obtain ⟨v, hv⟩ := verify_twin parse_low rfl decode_low hKey
  obtain ⟨v', hv'⟩ := verify_twin parse_spaced rfl decode_low hKey
  have hNone : ¬ VerifiedElsewhere twinCrates .p256 [p256Key] lowOp := by
    rintro ⟨key, hKey, other, _, hCurve, hOther, _⟩
    rw [List.mem_singleton.mp hKey, keyCurve_p256Key] at hCurve
    exact hOther (Option.some_inj.mp hCurve).symm
  have hUnique := derived_signature_unique twinCrates paddedDecode twinCrates_strict [p256Key] .p256
    lowSig (twinJson lowOp) spacedJson lowOp lowOp v v'
    (twinPair parse_low parse_spaced (.inl rfl)) hv hv'
  rcases hUnique with ⟨_, hSame⟩ | hElsewhere | hElsewhere
  · rw [hv, hv', hSame]
  · exact absurd hElsewhere hNone
  · exact absurd hElsewhere hNone

/-- With keys of both curves, the signature is accepted of the one and its twin of the other. -/
theorem twin_accepted_on_other_curve :
    ¬ ∀ (crates : PlcCrates) (reads : String → Option (List UInt8)), crates.Strict reads →
      ∀ (keys : List DidKeyUri) (curve : KeyCurve) (sig : List UInt8) (json json' : String)
        (op op' : SignedPlcOp) (verified verified' : VerifiedPlcOp),
        (∃ key ∈ keys, keyCurve crates key = some curve ∧
          verifySignatureWithKey crates key (PlcMessage.unsigned op.unsigned).bytes sig = .ok ()) →
        DerivedPair crates reads curve sig json json' op op' →
        verifyPlcOperation crates json keys = .ok verified →
        verifyPlcOperation crates json' keys = .ok verified' →
        op.sig = op'.sig := by
  intro h
  obtain ⟨v, hv⟩ := @verify_twin (twinJson lowOp) lowOp lowSig [p256Key, k256Key] parse_low rfl
    decode_low ⟨p256Key, by simp, p256Key_verifies⟩
  obtain ⟨v', hv'⟩ := @verify_twin (twinJson highOp) highOp highSig [p256Key, k256Key] parse_high
    rfl decode_high ⟨k256Key, by simp, k256Key_verifies⟩
  have hSame := h twinCrates paddedDecode twinCrates_strict [p256Key, k256Key] .p256 lowSig
    (twinJson lowOp) (twinJson highOp) lowOp highOp v v'
    ⟨p256Key, by simp, keyCurve_p256Key, p256Key_verifies⟩
    (twinPair parse_low parse_high (.inr rfl)) hv hv'
  exact absurd hSame (by decide)

end Ezpds.Crypto
