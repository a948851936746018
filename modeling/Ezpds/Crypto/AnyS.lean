import Ezpds.Crypto.SignatureTwins

/-!
# Signatures with either s

A message signature may have a high `s`, unlike that of an operation. It is brought to the low one
of the two before it is verified.

* `either_s_accepted`: a signature is taken where it or its twin is verified, and then its twin is
  taken as well.
-/

namespace Ezpds.Crypto

open Library

section Model

variable (crates : PlcCrates)

def didKeyCurve (publicKey : DidKeyUri) : Except CryptoError KeyCurve := do
  let multikey ← (decodeDidKeyMultikey crates publicKey).mapError .signatureVerification
  if P256_MULTICODEC_PREFIX.isPrefixOf multikey then .ok .p256
  else if SECP256K1_MULTICODEC_PREFIX.isPrefixOf multikey then .ok .k256
  else
    .error (.signatureVerification
      "unsupported did:key type (multicodec prefix is neither P-256 nor secp256k1)")

def verifyP256Signature (publicKey : DidKeyUri) (message signature : List UInt8) :
    Except CryptoError Unit := do
  let multikey ← (decodeDidKeyMultikey crates publicKey).mapError .signatureVerification
  check (P256_MULTICODEC_PREFIX.isPrefixOf multikey) (.signatureVerification
    "public key is not a P-256 key (wrong multicodec prefix)")
  (verifySec1 crates.p256 "P-256" (multikey.drop 2) message signature).mapError
    .signatureVerification

/-- The bytes of `(r, n - s)`. -/
def twinOf (order : Nat) (sig : List UInt8) : List UInt8 :=
  sig.take 32 ++ (fixedDigits 256 32 (order - sOf sig)).map UInt8.ofNat

/-- `normalize_s`, or the signature itself. -/
def normalizeS (sig : List UInt8) : List UInt8 :=
  if crates.p256.isHighS sig then twinOf KeyCurve.p256.order sig else sig

def verifyP256SignatureAnyS (publicKey : DidKeyUri) (message signature : List UInt8) :
    Except CryptoError Unit := do
  (crates.p256.checkSignature signature).mapError fun e =>
    .signatureVerification ("invalid ECDSA signature bytes: " ++ e)
  verifyP256Signature crates publicKey message (normalizeS crates signature)

end Model

/-- A signature is two numbers from 1 up to the order, and is high where `s` is more than half
of it. -/
structure EcdsaCurve.Scalars (curve : EcdsaCurve) (order : Nat) : Prop where
  checked : ∀ sig, curve.checkSignature sig = .ok () ↔ sig.length = 64 ∧
    (0 < bytesValue (sig.take 32) ∧ bytesValue (sig.take 32) < order) ∧
    0 < sOf sig ∧ sOf sig < order
  highS : ∀ sig, curve.checkSignature sig = .ok () →
    (curve.isHighS sig = true ↔ order / 2 < sOf sig)

section Twin

variable {order : Nat} {sig : List UInt8}

theorem take_twinOf (h : sig.length = 64) : (twinOf order sig).take 32 = sig.take 32 :=
  List.take_left' (by rw [List.length_take, h]; rfl)

theorem length_twinOf (h : sig.length = 64) : (twinOf order sig).length = 64 := by
  rw [twinOf, List.length_append, List.length_map, length_fixedDigits, List.length_take, h]
  rfl

theorem sOf_twinOf (h : sig.length = 64) (hOrder : order < 256 ^ 32) :
    sOf (twinOf order sig) = order - sOf sig := by
  have hDrop : (twinOf order sig).drop 32 =
      (fixedDigits 256 32 (order - sOf sig)).map UInt8.ofNat :=
    List.drop_left' (by rw [List.length_take, h]; rfl)
  rw [sOf, hDrop, bytesValue_fixedDigits]
  exact Nat.mod_eq_of_lt (by omega)

theorem isTwin_twinOf (h : sig.length = 64) (hOrder : order < 256 ^ 32) (hs : sOf sig ≤ order) :
    IsTwin order sig (twinOf order sig) where
  r := take_twinOf h
  s := by
    rw [sOf_twinOf h hOrder]
    omega

theorem twinOf_twinOf (h : sig.length = 64) (hOrder : order < 256 ^ 32) (hs : sOf sig ≤ order) :
    twinOf order (twinOf order sig) = sig := by
  refine bytes_eq (length_twinOf (length_twinOf h)) h ?_ ?_
  · rw [take_twinOf (length_twinOf h), take_twinOf h]
  · rw [sOf_twinOf (length_twinOf h) hOrder, sOf_twinOf h hOrder]
    omega

end Twin

section AnyS

variable {crates : PlcCrates} {key : DidKeyUri} {message sig : List UInt8}

theorem p256_order_lt : KeyCurve.p256.order < 256 ^ 32 := by decide

theorem verifyP256Signature_ok : verifyP256Signature crates key message sig = .ok () ↔
    ∃ multikey, decodeDidKeyMultikey crates key = .ok multikey ∧
      P256_MULTICODEC_PREFIX.isPrefixOf multikey = true ∧
      verifySec1 crates.p256 "P-256" (multikey.drop 2) message sig = .ok () := by
  rw [verifyP256Signature, bind_ok]
  constructor
  · rintro ⟨multikey, hKey, h⟩
    obtain ⟨_, hPrefix, h⟩ := bind_ok.mp h
    exact ⟨multikey, mapError_ok.mp hKey, check_ok.mp hPrefix, mapError_ok.mp h⟩
  · rintro ⟨multikey, hKey, hPrefix, h⟩
    exact ⟨multikey, mapError_ok.mpr hKey,
      bind_ok.mpr ⟨(), check_ok.mpr hPrefix, mapError_ok.mpr h⟩⟩

/-- The low-S rule. -/
theorem verifyP256Signature_low (h : verifyP256Signature crates key message sig = .ok ()) :
    crates.p256.checkSignature sig = .ok () ∧ crates.p256.isHighS sig = false := by
  obtain ⟨_, _, _, h⟩ := verifyP256Signature_ok.mp h
  obtain ⟨_, hCheck, h⟩ := bind_ok.mp h
  obtain ⟨_, hHigh, _⟩ := bind_ok.mp h
  exact ⟨mapError_ok.mp hCheck, by simpa using check_ok.mp hHigh⟩

theorem anyS_ok : verifyP256SignatureAnyS crates key message sig = .ok () ↔
    crates.p256.checkSignature sig = .ok () ∧
      verifyP256Signature crates key message (normalizeS crates sig) = .ok () := by
  rw [verifyP256SignatureAnyS, bind_ok]
  constructor
  · rintro ⟨_, hCheck, h⟩
    exact ⟨mapError_ok.mp hCheck, h⟩
  · rintro ⟨hCheck, h⟩
    exact ⟨(), mapError_ok.mpr hCheck, h⟩

/-- The twin of a signature is one, and the other of the two is high. -/
theorem check_twinOf (hScalars : crates.p256.Scalars KeyCurve.p256.order)
    (h : crates.p256.checkSignature sig = .ok ()) :
    crates.p256.checkSignature (twinOf KeyCurve.p256.order sig) = .ok () ∧
      crates.p256.isHighS (twinOf KeyCurve.p256.order sig) = !crates.p256.isHighS sig := by
  obtain ⟨hLength, hr, hPos, hLt⟩ := (hScalars.checked sig).mp h
  have hs := sOf_twinOf hLength p256_order_lt
  have hTwin : crates.p256.checkSignature (twinOf KeyCurve.p256.order sig) = .ok () :=
    (hScalars.checked _).mpr ⟨length_twinOf hLength, take_twinOf hLength ▸ hr, by omega⟩
  refine ⟨hTwin, ?_⟩
  have hOdd := order_odd .p256
  have hHigh := hScalars.highS sig h
  have hHigh' := hScalars.highS _ hTwin
  cases hCase : crates.p256.isHighS sig with
  | false =>
    have hLow : ¬ KeyCurve.p256.order / 2 < sOf sig := fun hs => by
      rw [hHigh.mpr hs] at hCase
      cases hCase
    exact hHigh'.mpr (by omega)
  | true =>
    have hHigh := hHigh.mp hCase
    exact Bool.eq_false_iff.mpr fun hTrue => by
      have hLow := hHigh'.mp hTrue
      omega

/-- The twin of what is no signature is none. -/
theorem check_of_twinOf (hScalars : crates.p256.Scalars KeyCurve.p256.order)
    (hLength : sig.length = 64)
    (h : crates.p256.checkSignature (twinOf KeyCurve.p256.order sig) = .ok ()) :
    crates.p256.checkSignature sig = .ok () := by
  obtain ⟨-, hr, hPos, hLt⟩ := (hScalars.checked _).mp h
  rw [take_twinOf hLength] at hr
  rw [sOf_twinOf hLength p256_order_lt] at hPos hLt
  exact (hScalars.checked sig).mpr ⟨hLength, hr, by omega⟩

/-- A signature is taken where the low one of it and its twin is verified. -/
theorem anyS_iff (hScalars : crates.p256.Scalars KeyCurve.p256.order) (hLength : sig.length = 64) :
    verifyP256SignatureAnyS crates key message sig = .ok () ↔
      verifyP256Signature crates key message sig = .ok () ∨
        verifyP256Signature crates key message (twinOf KeyCurve.p256.order sig) = .ok () := by
  rw [anyS_ok]
  constructor
  · rintro ⟨-, h⟩
    rw [normalizeS] at h
    split at h
    · exact Or.inr h
    · exact Or.inl h
  · rintro (h | h)
    · obtain ⟨hCheck, hLow⟩ := verifyP256Signature_low h
      exact ⟨hCheck, by rwa [normalizeS, hLow, if_neg Bool.false_ne_true]⟩
    · obtain ⟨hCheck', hLow'⟩ := verifyP256Signature_low h
      have hCheck := check_of_twinOf hScalars hLength hCheck'
      have hHigh : crates.p256.isHighS sig = true := by
        have hOther := (check_twinOf hScalars hCheck).2
        rw [hLow'] at hOther
        simpa using hOther.symm
      exact ⟨hCheck, by rwa [normalizeS, hHigh, if_pos rfl]⟩

theorem anyS_twin (hScalars : crates.p256.Scalars KeyCurve.p256.order)
    (hLength : sig.length = 64) :
    verifyP256SignatureAnyS crates key message (twinOf KeyCurve.p256.order sig) = .ok () ↔
      verifyP256SignatureAnyS crates key message sig = .ok () := by
  by_cases hs : sOf sig ≤ KeyCurve.p256.order
  · rw [anyS_iff hScalars (length_twinOf hLength), anyS_iff hScalars hLength,
      twinOf_twinOf hLength p256_order_lt hs, or_comm]
  · have hNone : crates.p256.checkSignature sig ≠ .ok () := fun h =>
      hs ((hScalars.checked sig).mp h).2.2.2.le
    have hNone' := mt (check_of_twinOf hScalars hLength) hNone
    rw [anyS_ok, anyS_ok]
    exact ⟨fun h => absurd h.1 hNone', fun h => absurd h.1 hNone⟩

theorem not_both_low (hScalars : crates.p256.Scalars KeyCurve.p256.order)
    (h : verifyP256Signature crates key message sig = .ok ()) :
    verifyP256Signature crates key message (twinOf KeyCurve.p256.order sig) ≠ .ok () := by
  intro h'
  obtain ⟨hCheck, hLow⟩ := verifyP256Signature_low h
  have hHigh := (check_twinOf hScalars hCheck).2
  rw [(verifyP256Signature_low h').2, hLow] at hHigh
  cases hHigh

/-- Of a signature and its twin both are taken or neither is, and the low-S rule takes one of
those that are. -/
theorem either_s_accepted (hScalars : crates.p256.Scalars KeyCurve.p256.order) (key : DidKeyUri)
    (message : List UInt8) (hLength : sig.length = 64) :
    let twin := twinOf KeyCurve.p256.order sig
    (verifyP256SignatureAnyS crates key message twin = .ok () ↔
      verifyP256SignatureAnyS crates key message sig = .ok ()) ∧
    (verifyP256SignatureAnyS crates key message sig = .ok () ↔
      Xor (verifyP256Signature crates key message sig = .ok ())
        (verifyP256Signature crates key message twin = .ok ())) := by
  refine ⟨anyS_twin hScalars hLength, (anyS_iff hScalars hLength).trans ?_⟩
  constructor
  · rintro (h | h)
    · exact Or.inl ⟨h, not_both_low hScalars h⟩
    · exact Or.inr ⟨h, fun h' => not_both_low hScalars h' h⟩
  · rintro (⟨h, -⟩ | ⟨h, -⟩)
    · exact Or.inl h
    · exact Or.inr h

end AnyS

/-! ## A curve of few signatures -/

def scalarCurve (sec1 : List UInt8) (verified : List UInt8) : EcdsaCurve where
  checkSignature sig :=
    if sig.length = 64 ∧
        (0 < bytesValue (sig.take 32) ∧ bytesValue (sig.take 32) < KeyCurve.p256.order) ∧
        0 < sOf sig ∧ sOf sig < KeyCurve.p256.order
    then .ok () else .error "signature error"
  isHighS sig := decide (KeyCurve.p256.order / 2 < sOf sig)
  checkKey key := if key = sec1 then .ok () else .error "invalid key"
  verify _ _ sig := if sig = verified then .ok () else .error "signature error"

theorem scalarCurve_scalars (sec1 verified : List UInt8) :
    (scalarCurve sec1 verified).Scalars KeyCurve.p256.order where
  checked sig := by
    rw [scalarCurve]
    dsimp only
    split
    · rename_i h
      exact ⟨fun _ => h, fun _ => rfl⟩
    · rename_i h
      exact ⟨fun hFalse => absurd hFalse (by rintro ⟨⟩), fun h' => absurd h' h⟩
  highS sig _ := decide_eq_true_iff

theorem scalarCurve_key (sec1 verified message : List UInt8) :
    (scalarCurve sec1 verified).checkKey sec1 = .ok () ∧
      (scalarCurve sec1 verified).verify sec1 message verified = .ok () :=
  ⟨if_pos rfl, if_pos rfl⟩

/-- The lower of the two signatures is the one that the key verifies. -/
def scalarCrates : PlcCrates :=
  { twinCrates with p256 := scalarCurve (p256Multikey.drop 2) lowSig }

theorem scalarKey (message : List UInt8) :
    verifyP256Signature scalarCrates p256Key message lowSig = .ok () := by
  have hCheck : scalarCrates.p256.checkSignature lowSig = .ok () := by decide +kernel
  have hLow : (!scalarCrates.p256.isHighS lowSig) = true := by decide +kernel
  obtain ⟨hKey, hVerify⟩ := scalarCurve_key (p256Multikey.drop 2) lowSig message
  exact verifyP256Signature_ok.mpr ⟨p256Multikey, p256Key_multikey, by decide,
    bind_ok.mpr ⟨(), mapError_ok.mpr hCheck, bind_ok.mpr ⟨(), check_ok.mpr hLow,
      bind_ok.mpr ⟨(), mapError_ok.mpr hKey, mapError_ok.mpr hVerify⟩⟩⟩⟩

theorem twin_lowSig : highSig = twinOf KeyCurve.p256.order lowSig := by decide +kernel

theorem either_s_accepted_sample : highSig = twinOf KeyCurve.p256.order lowSig ∧
    verifyP256SignatureAnyS scalarCrates p256Key [0] lowSig = .ok () ∧
    verifyP256SignatureAnyS scalarCrates p256Key [0] highSig = .ok () := by
  obtain ⟨hEither, hLow⟩ := @either_s_accepted scalarCrates lowSig
    (scalarCurve_scalars _ _) p256Key [0] (by decide)
  have hKey := scalarKey [0]
  have hAccepted := hLow.mpr (Or.inl ⟨hKey, not_both_low (scalarCurve_scalars _ _) hKey⟩)
  exact ⟨twin_lowSig, hAccepted, twin_lowSig ▸ hEither.mpr hAccepted⟩

end Ezpds.Crypto
