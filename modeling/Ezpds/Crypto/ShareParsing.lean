import Ezpds.Crypto.ShareEnvelope

/-!
# What the share parser accepts

Every envelope that the crate can hand out comes from a split or from the parser. The parser
accepts the bytes that one of them is written as and no others, and the text decoder the
spellings of its text in whitespace and case.

* `share_parser_exact`: the parser, the decoder and the combination, from both sides.
-/

namespace Ezpds.Crypto

open Library

/-- The coding rejects unused bits that are not zero, so no two texts are read as one value. -/
structure Base32.Exact (base32 : Base32) : Prop where
  decode_encode : ∀ bytes, base32.decode (base32.encode bytes) = .ok bytes
  encode_decode : ∀ text bytes, base32.decode text = .ok bytes → base32.encode bytes = text

section Model

variable {crates : ShareCrates}

namespace ShareEnvelope

/-! ## Bytes -/

theorem beBytes_bytesValue {bytes : List UInt8} (h : bytes.length = 4) :
    beBytes (UInt32.ofNat (bytesValue bytes)) = bytes := by
  have hLt := bytesValue_lt bytes
  have hRead := fixedDigits_bytesValue bytes
  rw [h] at hLt hRead
  rw [beBytes, UInt32.toNat_ofNat_of_lt' hLt, hRead]

theorem ofFn_getD {bytes : List UInt8} {n : Nat} (h : n ≤ bytes.length) :
    List.ofFn (fun i : Fin n => bytes.getD i 0) = bytes.take n := by
  apply List.ext_getElem
  · rw [List.length_ofFn, List.length_take, Nat.min_eq_left h]
  · intro i hLeft hRight
    have hi : i < bytes.length := by
      rw [List.length_take] at hRight
      omega
    rw [List.getElem_ofFn, List.getElem_take, List.getD_eq_getElem _ _ hi]

/-- The fields of an envelope are cut out of its bytes without a rest. -/
theorem preimage_of_fields {bytes : List UInt8} (h : bytes.length = SHARE_ENVELOPE_LEN) :
    preimage ⟨bytes.getD 0 0, UInt32.ofNat (bytesValue ((bytes.drop 1).take 4)),
      bytes.getD 5 0, fun i => bytes.getD (6 + i) 0⟩ = bytes.take ENVELOPE_PREIMAGE_LEN := by
  have hNumber : ((bytes.drop 1).take 4).length = 4 := by
    rw [List.length_take, List.length_drop, h]
    rfl
  have hPayload : List.ofFn (fun i : Fin 32 => bytes.getD (6 + i) 0) = (bytes.drop 6).take 32 := by
    have hDrop : 32 ≤ (bytes.drop 6).length := by
      rw [List.length_drop, h]
      decide
    rw [← ofFn_getD hDrop]
    congr 1
    funext i
    rw [List.getD_eq_getElem?_getD, List.getD_eq_getElem?_getD, List.getElem?_drop]
  have hSplit : bytes.take ENVELOPE_PREIMAGE_LEN =
      bytes.take 1 ++
        ((bytes.drop 1).take 4 ++ ((bytes.drop 5).take 1 ++ (bytes.drop 6).take 32)) := by
    rw [show ENVELOPE_PREIMAGE_LEN = 1 + (4 + (1 + 32)) from rfl, List.take_add, List.take_add,
      List.take_add, List.drop_drop, List.drop_drop]
  have hByte : ∀ n < bytes.length, (bytes.drop n).take 1 = [bytes.getD n 0] := by
    intro n hn
    rw [List.getD_eq_getElem _ _ hn, List.drop_eq_getElem_cons hn]
    rfl
  have hFirst := hByte 0 (by rw [h]; decide)
  rw [List.drop_zero] at hFirst
  rw [hSplit, hFirst, hByte 5 (by rw [h]; decide), ← hPayload]
  unfold preimage
  rw [beBytes_bytesValue hNumber]
  rfl

/-- The parser accepts what a valid envelope is written as, and nothing else. -/
theorem fromBytes_ok {bytes : List UInt8} {env : ShareEnvelope} :
    fromBytes crates bytes = .ok env ↔ env.Valid ∧ bytes = env.toBytes crates := by
  constructor
  · intro h
    refine ⟨fromBytes_valid h, ?_⟩
    obtain ⟨_, hLength, h⟩ := bind_ok.mp h
    obtain ⟨_, _, h⟩ := bind_ok.mp h
    obtain ⟨_, hChecksum, h⟩ := bind_ok.mp h
    obtain ⟨_, _, h⟩ := bind_ok.mp h
    have hPreimage := preimage_of_fields (beq_iff_eq.mp (check_ok.mp hLength))
    have hTail := beq_iff_eq.mp (check_ok.mp hChecksum)
    cases h
    rw [toBytes, hPreimage, ← hTail, List.take_append_drop]
  · rintro ⟨hValid, rfl⟩
    exact fromBytes_toBytes hValid

/-! ## Texts -/

/-- The decoder accepts the respellings of a valid envelope's text, and nothing else. -/
theorem decodeShare_ok (hBase32 : crates.base32.Exact) {text : String} {env : ShareEnvelope} :
    decodeShare crates text = .ok env ↔
      env.Valid ∧ normalizeShare text = env.encodeShare crates := by
  rw [decodeShare, bind_ok]
  constructor
  · intro h
    obtain ⟨bytes, hDecode, h⟩ := h
    obtain ⟨hValid, rfl⟩ := fromBytes_ok.mp h
    exact ⟨hValid, (hBase32.encode_decode _ _ (mapError_ok.mp hDecode)).symm⟩
  · rintro ⟨hValid, hText⟩
    refine ⟨env.toBytes crates, ?_, fromBytes_toBytes hValid⟩
    rw [hText]
    exact mapError_ok.mpr (hBase32.decode_encode _)

/-! ## Envelopes that the crate hands out -/

variable (crates) in
/-- The fields of an envelope are private: it comes from a split or from the parser. -/
inductive Built : ShareEnvelope → Prop
  | split {fill : Except String Bytes32} {secret : Bytes32} {setId : UInt32}
      {envelopes : Fin 3 → ShareEnvelope}
      (h : splitSecretIntoEnvelopes fill secret setId = .ok envelopes) (j : Fin 3) :
      Built (envelopes j)
  | parsed {bytes : List UInt8} {env : ShareEnvelope} (h : fromBytes crates bytes = .ok env) :
      Built env

theorem Built.valid {env : ShareEnvelope} (h : env.Built crates) : env.Valid := by
  cases h with
  | split h j =>
    obtain ⟨coeffs, _, rfl⟩ := splitSecretIntoEnvelopes_ok.mp h
    exact ⟨rfl, shareIndex_range j⟩
  | parsed h => exact fromBytes_valid h

end ShareEnvelope

open ShareEnvelope

/-! ## Combination -/

theorem gfDiv_isOk {a b : UInt8} (h : b ≠ 0) : ∃ q, gfDiv a b = .ok q :=
  ⟨_, @Gf.gfDiv_ok ⟨a⟩ ⟨b⟩ fun hEq => h (congrArg Gf.byte hEq)⟩

theorem gfAdd_ne_zero {a b : UInt8} (h : a ≠ b) : gfAdd a b ≠ 0 := by
  intro hEq
  have hSum : (⟨a⟩ - ⟨b⟩ : Gf) = 0 := by
    rw [Gf.sub_eq_add]
    exact congrArg Gf.mk hEq
  exact h (congrArg Gf.byte (sub_eq_zero.mp hSum))

theorem combineShares_isOk {a b : ShamirShare} :
    (∃ secret, combineShares a b = .ok secret) ↔
      (a.index ≠ 0 ∧ a.index ≤ 3) ∧ (b.index ≠ 0 ∧ b.index ≤ 3) ∧ a.index ≠ b.index := by
  constructor
  · intro h
    obtain ⟨secret, h⟩ := h
    obtain ⟨_, hRange, h⟩ := bind_ok.mp h
    obtain ⟨_, hNe, h⟩ := bind_ok.mp h
    have hRange := check_ok.mp hRange
    have hNe := check_ok.mp hNe
    simp only [Bool.not_eq_true', Bool.or_eq_false_iff, decide_eq_false_iff_not,
      beq_eq_false_iff_ne, UInt8.not_lt] at hRange hNe
    exact ⟨⟨hRange.1.1.1, hRange.1.1.2⟩, ⟨hRange.1.2, hRange.2⟩, hNe⟩
  · rintro ⟨ha, hb, hNe⟩
    have hDenom := gfAdd_ne_zero hNe
    obtain ⟨la, hLeft⟩ := @gfDiv_isOk b.index _ hDenom
    obtain ⟨lb, hRight⟩ := @gfDiv_isOk a.index _ hDenom
    refine ⟨fun i => gfAdd (gfMul (a.data i) la) (gfMul (b.data i) lb), ?_⟩
    apply bind_ok.mpr
    refine ⟨(), check_ok.mpr (by simp [ha, hb]), ?_⟩
    apply bind_ok.mpr
    refine ⟨(), check_ok.mpr (by simp [hNe]), ?_⟩
    apply bind_ok.mpr
    refine ⟨la, hLeft, ?_⟩
    apply bind_ok.mpr
    exact ⟨lb, hRight, rfl⟩

theorem combineEnvelopes_isOk {a b : ShareEnvelope} :
    (∃ secret, combineEnvelopes a b = .ok secret) ↔ a.Valid ∧ b.Valid ∧
      a.setId = b.setId ∧ a.index ≠ b.index := by
  constructor
  · intro h
    obtain ⟨secret, h⟩ := h
    obtain ⟨_, hVersion, h⟩ := bind_ok.mp h
    obtain ⟨_, hSetId, h⟩ := bind_ok.mp h
    have hVersion := Bool.and_eq_true_iff.mp (check_ok.mp hVersion)
    obtain ⟨ha, hb, hNe⟩ := combineShares_isOk.mp ⟨secret, h⟩
    exact ⟨⟨beq_iff_eq.mp hVersion.1, ha⟩, ⟨beq_iff_eq.mp hVersion.2, hb⟩,
      beq_iff_eq.mp (check_ok.mp hSetId), hNe⟩
  · rintro ⟨ha, hb, hSetId, hNe⟩
    obtain ⟨secret, hShares⟩ := (@combineShares_isOk ⟨a.index, a.payload⟩ ⟨b.index, b.payload⟩).mpr
      ⟨ha.index, hb.index, hNe⟩
    refine ⟨secret, ?_⟩
    apply bind_ok.mpr
    refine ⟨(), check_ok.mpr (by rw [ha.version, hb.version]; rfl), ?_⟩
    apply bind_ok.mpr
    exact ⟨(), check_ok.mpr (beq_iff_eq.mpr hSetId), hShares⟩

/-- The parser, the decoder and the combination accept exactly what they should. -/
theorem share_parser_exact (crates : ShareCrates) (hBase32 : crates.base32.Exact) :
    (∀ bytes env, fromBytes crates bytes = .ok env ↔
      (env.version = SHARE_ENVELOPE_VERSION ∧ env.index ≠ 0 ∧ env.index ≤ 3) ∧
        bytes = env.toBytes crates) ∧
    (∀ text env, env.Built crates → (decodeShare crates text = .ok env ↔
      normalizeShare text = env.encodeShare crates)) ∧
    (∀ text env, decodeShare crates text = .ok env → env.Built crates) ∧
    ∀ a b, a.Built crates → b.Built crates → ((∃ secret, combineEnvelopes a b = .ok secret) ↔
      (a.version = SHARE_ENVELOPE_VERSION ∧ b.version = SHARE_ENVELOPE_VERSION) ∧
        a.setId = b.setId ∧ a.index ≠ b.index) := by
  refine ⟨?_, ?_, ?_, ?_⟩
  · intro bytes env
    rw [fromBytes_ok]
    exact and_congr_left fun _ => ⟨fun h => ⟨h.version, h.index⟩, fun h => ⟨h.1, h.2⟩⟩
  · intro text env hBuilt
    rw [decodeShare_ok hBase32]
    exact and_iff_right hBuilt.valid
  · intro text env h
    obtain ⟨bytes, _, hParse⟩ := bind_ok.mp h
    exact .parsed hParse
  · intro a b ha hb
    rw [combineEnvelopes_isOk]
    constructor
    · rintro ⟨_, _, hSame⟩
      exact ⟨⟨ha.valid.version, hb.valid.version⟩, hSame⟩
    · rintro ⟨_, hSame⟩
      exact ⟨ha.valid, hb.valid, hSame⟩

end Model

/-! The coding of capital letters and digits is exact. -/

open ShareEnvelope

theorem base32Nopad_exact : base32Nopad.Exact where
  decode_encode := base32Nopad_lawful.decode_encode
  encode_decode text bytes h := by
    have hDigits : ∀ c d, base32Digit c = some d → d < 2 ^ 5 ∧ base32Symbol d = c := by
      intro c d hDigit
      simp only [base32Digit] at hDigit
      split_ifs at hDigit with hLetter hNumber
      · cases hDigit
        refine ⟨by omega, ?_⟩
        rw [base32Symbol, if_pos (by omega), show 65 + (c.toNat - 65) = c.toNat by omega,
          Char.ofNat_toNat]
      · cases hDigit
        refine ⟨by omega, ?_⟩
        rw [base32Symbol, if_neg (by omega), show 24 + (c.toNat - 24) = c.toNat by omega,
          Char.ofNat_toNat]
    simp only [base32Nopad] at h ⊢
    cases hRead : baseDecode 5 base32Digit text.toList with
    | none =>
      rw [hRead] at h
      cases h
    | some read =>
      rw [hRead] at h
      cases h
      rw [baseEncode_of_baseDecode (by decide) hDigits hRead, String.ofList_toList]

def sampleThird : ShareEnvelope :=
  ShareEnvelope.fromShare 12345 ⟨3, shareData sampleSecret (fun i => UInt8.ofNat (29 * i + 5)) 3⟩

theorem share_parser_exact_sample :
    fromBytes sampleShareCrates sampleBytes = .ok sampleThird ∧
      ∀ text, decodeShare sampleShareCrates text = .ok sampleThird ↔
        normalizeShare text = sampleThird.encodeShare sampleShareCrates := by
  obtain ⟨hBytes, hTexts, _⟩ := share_parser_exact sampleShareCrates base32Nopad_exact
  have hParse : fromBytes sampleShareCrates sampleBytes = .ok sampleThird :=
    (hBytes _ _).mpr ⟨by decide, by decide +kernel⟩
  exact ⟨hParse, fun text => hTexts text sampleThird (.parsed hParse)⟩

end Ezpds.Crypto
