import Ezpds.Crypto.Mnemonic
import Ezpds.Crypto.Shamir
import Ezpds.Library.BaseText
import Mathlib.Data.List.GetD

/-!
# Share envelopes

A share travels as 42 bytes: a version, the number of the split it belongs to, its index and
its data, and a checksum. The bytes are written in base 32 or as words.

* `fromBytes_toBytes`: an envelope is read back from its bytes.
* `decodeShared_presents`: it is read back from either text.
* `shamir_recovery`: two envelopes of a split give its secret back.
-/

namespace Ezpds.Crypto

open Library

/-- The base-32 coding without padding. -/
structure Base32 where
  encode : List UInt8 → String
  decode : String → Except String (List UInt8)

/-- It reads back what it wrote, in capital letters and digits. -/
structure Base32.Lawful (base32 : Base32) : Prop where
  decode_encode : ∀ bytes, base32.decode (base32.encode bytes) = .ok bytes
  symbols : ∀ bytes, ∀ c ∈ (base32.encode bytes).toList,
    (65 ≤ c.toNat ∧ c.toNat ≤ 90) ∨ (50 ≤ c.toNat ∧ c.toNat ≤ 55)

/-- What is not part of the crate. -/
structure ShareCrates where
  sha256 : List UInt8 → Bytes32
  base32 : Base32
  debug : String → String

def SHARE_ENVELOPE_VERSION : UInt8 := 2

def SHARE_ENVELOPE_LEN : Nat := 42

def ENVELOPE_PAYLOAD_LEN : Nat := 32

def ENVELOPE_CHECKSUM_LEN : Nat := 4

def ENVELOPE_PREIMAGE_LEN : Nat := SHARE_ENVELOPE_LEN - ENVELOPE_CHECKSUM_LEN

structure ShareEnvelope where
  version : UInt8
  setId : UInt32
  index : UInt8
  payload : Bytes32
  deriving DecidableEq

section Model

variable (crates : ShareCrates)

namespace ShareEnvelope

def fromShare (setId : UInt32) (share : ShamirShare) : ShareEnvelope where
  version := SHARE_ENVELOPE_VERSION
  setId
  index := share.index
  payload := share.data

/-- `u32::to_be_bytes` -/
def beBytes (n : UInt32) : List UInt8 :=
  (fixedDigits 256 4 n.toNat).map UInt8.ofNat

def preimage (env : ShareEnvelope) : List UInt8 :=
  env.version :: (beBytes env.setId ++ env.index :: List.ofFn env.payload)

/-- The first bytes of the hash. -/
def envelopeChecksum (preimage : List UInt8) : List UInt8 :=
  (List.ofFn (crates.sha256 preimage)).take ENVELOPE_CHECKSUM_LEN

def toBytes (env : ShareEnvelope) : List UInt8 :=
  env.preimage ++ envelopeChecksum crates env.preimage

def fromBytes (bytes : List UInt8) : Except CryptoError ShareEnvelope := do
  check (bytes.length == SHARE_ENVELOPE_LEN) (.shareFormat
    ("expected " ++ toString SHARE_ENVELOPE_LEN ++ " bytes, got " ++ toString bytes.length))
  let version := bytes.getD 0 0
  check (version == SHARE_ENVELOPE_VERSION) (.shareVersion
    ("got version " ++ toString version ++ ", expected " ++ toString SHARE_ENVELOPE_VERSION))
  check (bytes.drop ENVELOPE_PREIMAGE_LEN ==
      envelopeChecksum crates (bytes.take ENVELOPE_PREIMAGE_LEN))
    (.shareChecksum "trailing checksum does not match envelope body")
  let index := bytes.getD 5 0
  check (!(index == 0 || index > 3)) (.shareFormat
    ("share index must be in [1, 3], got " ++ toString index))
  return {
    version
    setId := UInt32.ofNat (bytesValue ((bytes.drop 1).take 4))
    index
    payload := fun i => bytes.getD (6 + i) 0 }

def encodeShare (env : ShareEnvelope) : String :=
  crates.base32.encode (env.toBytes crates)

/-- The text without whitespace, in capital letters. -/
def normalizeShare (encoded : String) : String :=
  String.ofList ((encoded.toList.filter fun c => !isWhitespace c).map Char.toUpper)

def decodeShare (encoded : String) : Except CryptoError ShareEnvelope := do
  let bytes ← (crates.base32.decode (normalizeShare encoded)).mapError fun e =>
    CryptoError.shareFormat ("invalid base32: " ++ e)
  fromBytes crates bytes

def encodeShareWords (env : ShareEnvelope) : String :=
  bytesToWords (env.toBytes crates)

def decodeShareWords (phrase : String) : Except CryptoError ShareEnvelope := do
  let bytes ← wordsToBytes crates.debug phrase
  fromBytes crates bytes

end ShareEnvelope

def splitSecretIntoEnvelopes (fill : Except String Bytes32) (secret : Bytes32)
    (setId : UInt32) : Except CryptoError (Fin 3 → ShareEnvelope) := do
  let shares ← splitSecret fill secret
  return fun j => ShareEnvelope.fromShare setId (shares j)

def combineEnvelopes (a b : ShareEnvelope) : Except CryptoError Bytes32 := do
  check (a.version == SHARE_ENVELOPE_VERSION && b.version == SHARE_ENVELOPE_VERSION)
    (.shareVersion ("unsupported envelope version(s) (" ++ toString a.version ++ ", " ++
      toString b.version ++ "); expected " ++ toString SHARE_ENVELOPE_VERSION))
  check (a.setId == b.setId) (.secretReconstruction
    ("share set_id mismatch (" ++ toString a.setId ++ " != " ++ toString b.setId ++
      "): these shares are from different generations and must not be combined"))
  combineShares ⟨a.index, a.payload⟩ ⟨b.index, b.payload⟩

/-! ## Envelopes and their bytes -/

variable {crates}

namespace ShareEnvelope

/-- What `fromBytes` accepts. -/
structure Valid (env : ShareEnvelope) : Prop where
  version : env.version = SHARE_ENVELOPE_VERSION
  index : env.index ≠ 0 ∧ env.index ≤ 3

theorem length_preimage (env : ShareEnvelope) :
    env.preimage.length = ENVELOPE_PREIMAGE_LEN := by
  simp [preimage, beBytes, ENVELOPE_PREIMAGE_LEN, SHARE_ENVELOPE_LEN, ENVELOPE_CHECKSUM_LEN]

theorem length_toBytes (env : ShareEnvelope) :
    (env.toBytes crates).length = SHARE_ENVELOPE_LEN := by
  rw [toBytes, List.length_append, length_preimage]
  simp [envelopeChecksum, ENVELOPE_PREIMAGE_LEN, SHARE_ENVELOPE_LEN, ENVELOPE_CHECKSUM_LEN]

/-- The bytes of an envelope, one by one. -/
theorem toBytes_eq (env : ShareEnvelope) : ∃ b₀ b₁ b₂ b₃ : UInt8,
    beBytes env.setId = [b₀, b₁, b₂, b₃] ∧
    env.toBytes crates = env.version :: b₀ :: b₁ :: b₂ :: b₃ :: env.index ::
      (List.ofFn env.payload ++ envelopeChecksum crates env.preimage) :=
  ⟨_, _, _, _, rfl, rfl⟩

theorem setId_beBytes (n : UInt32) : UInt32.ofNat (bytesValue (beBytes n)) = n := by
  rw [beBytes, bytesValue_fixedDigits, Nat.mod_eq_of_lt (by simpa using n.toNat_lt),
    UInt32.ofNat_toNat]

/-- An envelope is read back from its bytes. -/
theorem fromBytes_toBytes {env : ShareEnvelope} (h : env.Valid) :
    fromBytes crates (env.toBytes crates) = .ok env := by
  obtain ⟨b₀, b₁, b₂, b₃, hSetId, hBytes⟩ := @toBytes_eq crates env
  have hTake : (env.toBytes crates).take ENVELOPE_PREIMAGE_LEN = env.preimage := by
    rw [toBytes, List.take_left' (length_preimage env)]
  have hDrop : (env.toBytes crates).drop ENVELOPE_PREIMAGE_LEN =
      envelopeChecksum crates env.preimage := by
    rw [toBytes, List.drop_left' (length_preimage env)]
  have hVersion : (env.toBytes crates).getD 0 0 = env.version := by
    rw [hBytes]
    rfl
  have hIndex : (env.toBytes crates).getD 5 0 = env.index := by
    rw [hBytes]
    rfl
  have hPayload : (fun i : Fin 32 => (env.toBytes crates).getD (6 + i) 0) = env.payload := by
    funext i
    have hLt : i.val < (List.ofFn env.payload).length := by simp
    have hTail : (List.ofFn env.payload ++ envelopeChecksum crates env.preimage).getD i.val 0 =
        env.payload i := by
      rw [List.getD_append _ _ _ _ hLt, List.getD_eq_getElem _ _ hLt, List.getElem_ofFn]
    rw [hBytes, Nat.add_comm]
    exact hTail
  have hNumber : UInt32.ofNat (bytesValue (((env.toBytes crates).drop 1).take 4)) = env.setId := by
    have hFour : ((env.toBytes crates).drop 1).take 4 = beBytes env.setId := by
      rw [hBytes, hSetId]
      rfl
    rw [hFour, setId_beBytes]
  have hRange : (!(env.index == 0 || decide (env.index > 3))) = true := by
    simp [h.index]
  rw [fromBytes]
  apply bind_ok.mpr
  refine ⟨(), check_ok.mpr (by rw [length_toBytes]; rfl), ?_⟩
  apply bind_ok.mpr
  refine ⟨(), check_ok.mpr (by rw [hVersion, h.version]; rfl), ?_⟩
  apply bind_ok.mpr
  refine ⟨(), check_ok.mpr (by rw [hDrop, hTake, beq_self_eq_true]), ?_⟩
  apply bind_ok.mpr
  refine ⟨(), check_ok.mpr (by rw [hIndex, hRange]), pure_ok.mpr ?_⟩
  rw [hVersion, hIndex, hPayload, hNumber]

theorem fromBytes_valid {bytes : List UInt8} {env : ShareEnvelope}
    (h : fromBytes crates bytes = .ok env) : env.Valid := by
  obtain ⟨_, _, h⟩ := bind_ok.mp h
  obtain ⟨_, hVersion, h⟩ := bind_ok.mp h
  obtain ⟨_, _, h⟩ := bind_ok.mp h
  obtain ⟨_, hIndex, h⟩ := bind_ok.mp h
  cases h
  refine ⟨?_, ?_⟩
  · simpa using check_ok.mp hVersion
  · simpa using check_ok.mp hIndex

end ShareEnvelope

open ShareEnvelope

/-! ## Envelopes and their texts -/

/-- A text that differs from what was written in whitespace and case. -/
def Respelled (text written : String) : Prop :=
  toAsciiLowercase (text.toList.filter fun c => !isWhitespace c) = toAsciiLowercase written.toList

/-- A phrase that differs from what was written in the whitespace between its words and in
their case. -/
def SameWords (phrase written : String) : Prop :=
  (splitWhitespace phrase).map toAsciiLowercase = (splitWhitespace written).map toAsciiLowercase

theorem normalizeShare_respelled (hBase32 : crates.base32.Lawful) {bytes : List UInt8}
    {text : String} (h : Respelled text (crates.base32.encode bytes)) :
    normalizeShare text = crates.base32.encode bytes := by
  have hUpper : ∀ s : List Char, s.map Char.toUpper = (toAsciiLowercase s).map Char.toUpper := by
    intro s
    rw [toAsciiLowercase, List.map_map]
    exact List.map_congr_left fun c _ => (toUpper_toLower c).symm
  have hFixed : ∀ c ∈ (crates.base32.encode bytes).toList, c.toUpper = c := by
    intro c hc
    have hRange := hBase32.symbols bytes c hc
    refine dif_neg fun hLower => ?_
    have hLe : 97 ≤ c.val.toNat := hLower.1
    have hVal : c.toNat = c.val.toNat := rfl
    omega
  rw [normalizeShare, hUpper, h, ← hUpper, List.map_congr_left hFixed, List.map_id',
    String.ofList_toList]

theorem respelled_trim {text written : String} (h : Respelled text written) :
    Respelled (trim text) written := by
  rw [Respelled, filter_trim]
  exact h

theorem sameWords_trim {phrase written : String} (h : SameWords phrase written) :
    SameWords (trim phrase) written := by
  rw [SameWords, splitWhitespace_trim]
  exact h

theorem not_isWhitespace_symbol {c : Char}
    (h : (65 ≤ c.toNat ∧ c.toNat ≤ 90) ∨ (50 ≤ c.toNat ∧ c.toNat ≤ 55)) :
    isWhitespace c = false := by
  simp only [isWhitespace]
  simp
  omega

theorem respelled_encode (hBase32 : crates.base32.Lawful) (bytes : List UInt8) :
    Respelled (crates.base32.encode bytes) (crates.base32.encode bytes) := by
  rw [Respelled, List.filter_eq_self.mpr]
  intro c hc
  rw [not_isWhitespace_symbol (hBase32.symbols bytes c hc)]
  rfl

theorem splitWhitespace_encode (hBase32 : crates.base32.Lawful) {bytes : List UInt8}
    (h : crates.base32.encode bytes ≠ "") :
    splitWhitespace (crates.base32.encode bytes) = [(crates.base32.encode bytes).toList] := by
  have hSplit : (crates.base32.encode bytes).toList.splitOnP isWhitespace =
      [(crates.base32.encode bytes).toList] :=
    List.splitOnP_eq_singleton fun c hc => not_isWhitespace_symbol (hBase32.symbols bytes c hc)
  have hNe : (crates.base32.encode bytes).toList ≠ [] := by simpa using h
  rw [splitWhitespace, hSplit, List.filter_cons_of_pos (by simpa using hNe), List.filter_nil]

/-- A phrase has a word for every byte of the envelope. -/
theorem length_sameWords {phrase : String} {env : ShareEnvelope}
    (h : SameWords phrase (env.encodeShareWords crates)) :
    (splitWhitespace phrase).length = SHARE_ENVELOPE_LEN := by
  have hLength := congrArg List.length h
  rw [List.length_map, List.length_map, encodeShareWords, splitWhitespace_bytesToWords,
    List.length_map, length_toBytes] at hLength
  exact hLength

/-- A share as it is handed over: a text, or a phrase. -/
inductive SharedText where
  | base32 (text : String)
  | words (phrase : String)

variable (crates) in
def decodeShared : SharedText → Except CryptoError ShareEnvelope
  | .base32 text => decodeShare crates text
  | .words phrase => decodeShareWords crates phrase

variable (crates) in
/-- The texts of an envelope. -/
def ShareEnvelope.Presents (env : ShareEnvelope) : SharedText → Prop
  | .base32 text => Respelled text (env.encodeShare crates)
  | .words phrase => SameWords phrase (env.encodeShareWords crates)

/-- An envelope is read back from its texts. -/
theorem decodeShared_presents (hBase32 : crates.base32.Lawful) {env : ShareEnvelope}
    (hValid : env.Valid) {shared : SharedText} (h : env.Presents crates shared) :
    decodeShared crates shared = .ok env := by
  cases shared with
  | base32 text =>
    have hBytes : (crates.base32.decode (normalizeShare text)).mapError
        (fun e => CryptoError.shareFormat ("invalid base32: " ++ e)) =
          .ok (env.toBytes crates) := by
      rw [normalizeShare_respelled hBase32 h, hBase32.decode_encode]
      rfl
    exact bind_ok.mpr ⟨_, hBytes, fromBytes_toBytes hValid⟩
  | words phrase =>
    exact bind_ok.mpr ⟨_, wordsToBytes_words crates.debug h, fromBytes_toBytes hValid⟩

theorem decodeShare_encodeShare (hBase32 : crates.base32.Lawful) {env : ShareEnvelope}
    (hValid : env.Valid) : decodeShare crates (env.encodeShare crates) = .ok env := by
  have hShared : env.Presents crates (.base32 (env.encodeShare crates)) :=
    respelled_encode hBase32 _
  exact decodeShared_presents hBase32 hValid hShared

theorem decodeShare_valid {text : String} {env : ShareEnvelope}
    (h : decodeShare crates text = .ok env) : env.Valid := by
  obtain ⟨_, _, h⟩ := bind_ok.mp h
  exact fromBytes_valid h

/-! ## Recovery -/

theorem splitSecretIntoEnvelopes_ok {fill : Except String Bytes32} {secret : Bytes32}
    {setId : UInt32} {envelopes : Fin 3 → ShareEnvelope} :
    splitSecretIntoEnvelopes fill secret setId = .ok envelopes ↔
      ∃ coeffs, fill = .ok coeffs ∧ envelopes = fun j => ShareEnvelope.fromShare setId
        ⟨shareIndex j, shareData secret coeffs (shareIndex j)⟩ := by
  rw [splitSecretIntoEnvelopes, bind_ok]
  constructor
  · intro h
    obtain ⟨shares, hShares, hOk⟩ := h
    obtain ⟨coeffs, hFill, rfl⟩ := splitSecret_ok.mp hShares
    exact ⟨coeffs, hFill, pure_ok.mp hOk⟩
  · intro h
    obtain ⟨coeffs, hFill, rfl⟩ := h
    exact ⟨_, splitSecret_ok.mpr ⟨coeffs, hFill, rfl⟩, rfl⟩

theorem shareIndex_range (j : Fin 3) : shareIndex j ≠ 0 ∧ shareIndex j ≤ 3 := by
  fin_cases j <;> decide

theorem shareIndex_injective : Function.Injective shareIndex := by
  decide

theorem combineEnvelopes_fromShare {j k : Fin 3} (h : j ≠ k) (secret coeffs : Bytes32)
    (setId : UInt32) :
    combineEnvelopes
      (ShareEnvelope.fromShare setId ⟨shareIndex j, shareData secret coeffs (shareIndex j)⟩)
      (ShareEnvelope.fromShare setId ⟨shareIndex k, shareData secret coeffs (shareIndex k)⟩) =
      .ok secret := by
  have hSetId : (setId == setId) = true := beq_self_eq_true setId
  rw [combineEnvelopes]
  apply bind_ok.mpr
  refine ⟨(), rfl, ?_⟩
  apply bind_ok.mpr
  refine ⟨(), check_ok.mpr hSetId, ?_⟩
  exact combineShares_shareData (shareIndex_range j) (shareIndex_range k)
    (shareIndex_injective.ne h) secret coeffs

/-- Two envelopes of a split, each in either text, give the secret back in either order. -/
theorem shamir_recovery (crates : ShareCrates) (hBase32 : crates.base32.Lawful)
    (secret coeffs : Bytes32) (setId : UInt32) :
    ∃ envelopes, splitSecretIntoEnvelopes (.ok coeffs) secret setId = .ok envelopes ∧
      ∀ j k, j ≠ k → ∀ shared shared' : SharedText, (envelopes j).Presents crates shared →
        (envelopes k).Presents crates shared' →
        ∃ a b, decodeShared crates shared = .ok a ∧ decodeShared crates shared' = .ok b ∧
          combineEnvelopes a b = .ok secret := by
  refine ⟨_, splitSecretIntoEnvelopes_ok.mpr ⟨coeffs, rfl, rfl⟩, ?_⟩
  intro j k hNe shared shared' hShared hShared'
  refine ⟨_, _, decodeShared_presents hBase32 ⟨rfl, shareIndex_range j⟩ hShared,
    decodeShared_presents hBase32 ⟨rfl, shareIndex_range k⟩ hShared', ?_⟩
  exact combineEnvelopes_fromShare hNe secret coeffs setId

end Model

/-! Base 32 in capital letters, and the hashes of two envelopes. -/

def base32Symbol (d : Nat) : Char :=
  Char.ofNat (if d < 26 then 65 + d else 24 + d)

def base32Digit (c : Char) : Option Nat :=
  if 65 ≤ c.toNat ∧ c.toNat ≤ 90 then some (c.toNat - 65)
  else if 50 ≤ c.toNat ∧ c.toNat ≤ 55 then some (c.toNat - 24)
  else none

def base32Nopad : Base32 where
  encode bytes := String.ofList (baseEncode 5 base32Symbol bytes)
  decode text := (baseDecode 5 base32Digit text.toList).elim (.error "invalid symbol") .ok

theorem base32Nopad_lawful : base32Nopad.Lawful where
  decode_encode bytes := by
    have hSymbols : ∀ d < 2 ^ 5, base32Digit (base32Symbol d) = some d := by decide
    have hRead := baseDecode_baseEncode (by omega) (by omega) hSymbols bytes
    simp only [base32Nopad, String.toList_ofList, hRead, Option.elim_some]
  symbols bytes c hc := by
    have hSymbols : ∀ d < 2 ^ 5, (65 ≤ (base32Symbol d).toNat ∧ (base32Symbol d).toNat ≤ 90) ∨
        (50 ≤ (base32Symbol d).toNat ∧ (base32Symbol d).toNat ≤ 55) := by
      decide
    simp only [base32Nopad, String.toList_ofList] at hc
    obtain ⟨d, hd, rfl⟩ := mem_baseEncode hc
    exact hSymbols d hd

def sampleHash (preimage : List UInt8) : Bytes32 := fun i =>
  (if preimage.getD 5 0 = 1 then
    [98, 145, 122, 122, 114, 232, 218, 214, 214, 251, 39, 94, 64, 40, 91, 83, 157, 96, 49, 78, 3,
     181, 63, 208, 154, 77, 171, 122, 140, 105, 175, 86]
  else
    [55, 229, 141, 52, 59, 247, 231, 212, 226, 158, 21, 23, 180, 59, 107, 209, 54, 172, 143, 244,
     194, 65, 47, 58, 91, 36, 4, 143, 65, 98, 217, 147]).getD i 0

def sampleShareCrates : ShareCrates := ⟨sampleHash, base32Nopad, id⟩

def sampleSecret : Bytes32 := fun i => UInt8.ofNat (17 * i + 3)

def sampleBytes : List UInt8 :=
  [2, 0, 0, 48, 57, 3, 12, 114, 100, 210, 204, 249, 167, 17, 167, 130, 196, 114, 108, 98, 71, 209,
   119, 41, 36, 50, 140, 194, 231, 113, 71, 217, 191, 242, 140, 34, 188, 145, 55, 229, 141, 52]

theorem shamir_recovery_sample :
    ∃ a b,
      decodeShared sampleShareCrates (.base32 (" aiaaambzaeddmgtkh3hnvktgs2fpvlu6nk5mnvr2nipa" ++
        "\n56rkez3evwxoxzvjuyurpj5a ")) = .ok a ∧
      decodeShared sampleShareCrates (.words (bytesToWords sampleBytes)) = .ok b ∧
      combineEnvelopes a b = .ok sampleSecret := by
  obtain ⟨envelopes, hSplit, hShares⟩ := shamir_recovery sampleShareCrates base32Nopad_lawful
    sampleSecret (fun i => UInt8.ofNat (29 * i + 5)) 12345
  obtain ⟨coeffs, hFill, rfl⟩ := splitSecretIntoEnvelopes_ok.mp hSplit
  cases hFill
  have hBytes : (ShareEnvelope.fromShare 12345 ⟨shareIndex 2, shareData sampleSecret
      (fun i => UInt8.ofNat (29 * i + 5)) (shareIndex 2)⟩).toBytes sampleShareCrates =
        sampleBytes := by
    decide +kernel
  apply hShares 0 2 (by decide)
  · show toAsciiLowercase _ = toAsciiLowercase _
    decide +kernel
  · rw [ShareEnvelope.Presents, ShareEnvelope.encodeShareWords, hBytes, SameWords]

end Ezpds.Crypto
