import Ezpds.Crypto.ShareEnvelope
import Ezpds.Wallet.CurrentState

/-!
# Recovering an identity from two shares

A session collects shares of the recovery seed: the first share from the slots of the keychain,
and further ones by hand or from the escrow of the account's server. The seed that the first two
of them give is verified against the rotation keys of the identity.

* `give_room`, `give_refused`: what a further share does to the session.
* `two_shares_verify`: when two shares of the set suffice. A share that the slots held and that
  is of another set is the first one collected, and the two are refused.
-/

namespace Ezpds.Wallet

open Library Crypto

/-! ## The recovery key -/

/-- What is not part of the wallet: the coding of shares, HKDF-SHA256 with its salt, seed and
info, and the compressed public key of a P-256 scalar. -/
structure RecoveryCrates where
  plc : PlcCrates
  share : ShareCrates
  expand : String → Bytes32 → List UInt8 → Except String Bytes32
  fromSlice : Bytes32 → Option (List UInt8)
  multibase : List UInt8 → String

def RECOVERY_KEY_HKDF_SALT : String := "ezpds/recovery-seed/v1"

def RECOVERY_KEY_HKDF_INFO : String := "ezpds recovery rotation key (P-256)"

section Model

variable (crates : RecoveryCrates)

/-- The candidates from `counter` on. -/
def deriveFrom (seed : Bytes32) : Nat → UInt32 → Except CryptoError DidKeyUri
  | 0, _ => .error (.keyGeneration "exhausted HKDF counter space without a valid P-256 scalar")
  | n + 1, counter => do
    let info := RECOVERY_KEY_HKDF_INFO.toUTF8.toList ++ ShareEnvelope.beBytes counter
    let okm ← (crates.expand RECOVERY_KEY_HKDF_SALT seed info).mapError fun e =>
      CryptoError.keyGeneration ("hkdf expand: " ++ e)
    match crates.fromSlice okm with
    | some point => return ⟨"did:key:" ++ crates.multibase (P256_MULTICODEC_PREFIX ++ point)⟩
    | none => deriveFrom seed n (counter + 1)

def deriveRecoveryKeypair (seed : Bytes32) : Except CryptoError DidKeyUri :=
  deriveFrom crates seed (2 ^ 32) 0

/-! ## Share 1 in the keychain -/

/-- What a slot of the keychain holds, if it is there and can be read: the synchronizable slots,
and those of the device. -/
structure Keychain where
  synced : String → Option ByteArray
  item : String → Option ByteArray

def RECOVERY_SHARE1_PREFIX : String := "recovery-share-1:"

def RECOVERY_SHARE1_ACCOUNT : String := "recovery-share-1"

def recoveryShare1Account (did : String) : String :=
  RECOVERY_SHARE1_PREFIX ++ did

def decodeShare1Envelope (bytes : ByteArray) : Option ShareEnvelope := do
  let s ← String.fromUTF8? bytes
  let env ← (ShareEnvelope.decodeShare crates.share s).toOption
  if env.index == 1 then some env else none

def loadShare1Envelope (keychain : Keychain) (account : String) : Option ShareEnvelope :=
  keychain.item account >>= decodeShare1Envelope crates

def loadShare1EnvelopeSynced (keychain : Keychain) (account : String) : Option ShareEnvelope :=
  keychain.synced account >>= decodeShare1Envelope crates

/-- The slots in the order of how far they can travel. -/
def autoLoadShare1 (keychain : Keychain) (did : String) : Option ShareEnvelope :=
  let perDid := recoveryShare1Account did
  (loadShare1EnvelopeSynced crates keychain perDid).or
    ((loadShare1Envelope crates keychain perDid).or
      (loadShare1Envelope crates keychain RECOVERY_SHARE1_ACCOUNT))

/-! ## The session -/

inductive ShareRecoveryError where
  | shareFormat (message : String)
  | shareChecksum
  | shareVersion
  | shareSetMismatch (expectedSetId gotSetId : UInt32)
  | duplicateShare (index : UInt8)
  | sharesIncomplete
  | sharesDoNotMatchIdentity
  | noRecoverySession
  | unsupportedIdentity
  | handleNotFound
  | didNotFound
  | invalidAuditLog (message : String)
  | plcDirectoryError (message : String)
  | networkError (message : String)
  | rateLimited (retryAfter : Option String)
  | releaseUnauthorized
  | escrowDepositFailed (message : String)
  | sessionFailed (message : String)
  | keychainError (message : String)
  | signingFailed (message : String)
  | noPendingEpilogue
  | epilogueCorrupt (message : String)
  | invalidResponse (message : String)
  deriving DecidableEq

def mapPdsError : PdsClientError → ShareRecoveryError
  | .handleNotFound => .handleNotFound
  | .didNotFound => .didNotFound
  | .rateLimited retryAfter => .rateLimited retryAfter
  | .networkError message => .networkError message
  | .other text => .networkError text

def mapDecodeError : CryptoError → ShareRecoveryError
  | .shareChecksum _ => .shareChecksum
  | .shareVersion _ => .shareVersion
  | other => .shareFormat other.text

def recoveryState (pds : PdsClient) (did : String) :
    Except ShareRecoveryError CurrentHandleState :=
  fetchCurrentState crates.plc mapPdsError .invalidAuditLog pds did

structure StoredShare where
  encoded : String
  setId : UInt32
  index : UInt8

def StoredShare.fromEnvelope (env : ShareEnvelope) : StoredShare where
  encoded := env.encodeShare crates.share
  setId := env.setId
  index := env.index

def StoredShare.decode (share : StoredShare) : Except ShareRecoveryError ShareEnvelope :=
  (ShareEnvelope.decodeShare crates.share share.encoded).mapError mapDecodeError

structure VerifiedShares where
  seed : Bytes32
  recoveryKeyId : String

structure ShareRecoveryState where
  did : String
  handle : Option String
  pdsUrl : Option String
  shares : List StoredShare
  verified : Option VerifiedShares

structure CollectedShare where
  setId : UInt32
  index : UInt8

def StoredShare.collected (share : StoredShare) : CollectedShare where
  setId := share.setId
  index := share.index

/-- A further share; it invalidates a previous verification. -/
def ShareRecoveryState.push (session : ShareRecoveryState) (env : ShareEnvelope) :
    ShareRecoveryState :=
  { session with
    shares := session.shares ++ [StoredShare.fromEnvelope crates env]
    verified := none }

/-- The slot of the session after a command, which leaves it as it was when it fails. -/
def settled {α : Type} (slot : Option ShareRecoveryState)
    (result : Except ShareRecoveryError (α × ShareRecoveryState)) : Option ShareRecoveryState :=
  match result with
  | .ok (_, session) => some session
  | .error _ => slot

def theSession (slot : Option ShareRecoveryState) :
    Except ShareRecoveryError ShareRecoveryState :=
  orError .noRecoverySession slot

/-! ## Start -/

structure RecoveryTarget where
  did : String
  handle : Option String
  share1Loaded : Bool
  collected : List CollectedShare

def hasPrefix (start s : String) : Bool :=
  start.toList.isPrefixOf s.toList

/-- `strip_prefix(..).unwrap_or(..)`. -/
def withoutPrefix (start s : String) : String :=
  if hasPrefix start s then String.ofList (s.toList.drop start.length) else s

def resolveIdentifier (pds : PdsClient) (identifier : String) :
    Except ShareRecoveryError String :=
  if hasPrefix "did:plc:" identifier then .ok identifier
  else if hasPrefix "did:" identifier then .error .unsupportedIdentity
  else (pds.resolveHandle identifier).mapError mapPdsError

def startImpl (pds : PdsClient) (keychain : Keychain) (identifier : String) :
    Except ShareRecoveryError (RecoveryTarget × ShareRecoveryState) := do
  let did ← resolveIdentifier pds (trim identifier)
  check (hasPrefix "did:plc:" did) .unsupportedIdentity
  let current ← recoveryState crates pds did
  let handle := current.alsoKnownAs.head?.map (withoutPrefix "at://")
  let pdsUrl := (current.services.get? "atproto_pds").map PlcService.endpoint
  let shares := ((autoLoadShare1 crates keychain did).map (StoredShare.fromEnvelope crates)).toList
  return (
    { did, handle, share1Loaded := (autoLoadShare1 crates keychain did).isSome
      collected := shares.map StoredShare.collected },
    { did, handle, pdsUrl, shares, verified := none })

/-! ## Further shares -/

/-- The envelope of what was entered; a phrase has blanks between its words. -/
def enteredShare (share : String) : Except ShareRecoveryError ShareEnvelope := do
  let trimmed := trim share
  check (!trimmed.isEmpty) (.shareFormat "share is empty")
  if (splitWhitespace trimmed)[1]?.isSome then
    (ShareEnvelope.decodeShareWords crates.share trimmed).mapError mapDecodeError
  else
    (ShareEnvelope.decodeShare crates.share trimmed).mapError mapDecodeError

/-- Another set than that of a share of the session is refused. -/
def checkSet (existing : Option StoredShare) (env : ShareEnvelope) :
    Except ShareRecoveryError Unit :=
  match existing with
  | some share => check (share.setId == env.setId) (.shareSetMismatch share.setId env.setId)
  | none => .ok ()

def addShareImpl (slot : Option ShareRecoveryState) (share : String) :
    Except ShareRecoveryError (CollectedShare × ShareRecoveryState) := do
  let env ← enteredShare crates share
  let session ← theSession slot
  checkSet session.shares.head? env
  check (!session.shares.any fun s => s.index == env.index) (.duplicateShare env.index)
  return ((StoredShare.fromEnvelope crates env).collected, session.push crates env)

structure ReleaseResponse where
  status : String
  availableAt : Option String
  share : Option String

structure ReleaseAnswer where
  status : Nat
  retryAfter : Option String
  body : Except String ReleaseResponse

/-- The server of the account: what it answers at a URL for an identifier and an OTP. -/
abbrev EscrowServer := String → String → Option String → Except String ReleaseAnswer

structure EscrowReleaseStatus where
  status : String
  availableAt : Option String
  share : Option CollectedShare

def trimEndMatches (c : Char) (s : String) : String :=
  String.ofList (s.toList.rdropWhile (· == c))

def escrowTarget (slot : Option ShareRecoveryState) :
    Except ShareRecoveryError (String × String) := do
  let session ← theSession slot
  let pdsUrl ← orError (.invalidResponse "the identity's DID document lists no PDS endpoint")
    session.pdsUrl
  return (session.did, pdsUrl)

/-- Share 2 takes the place of the one that an earlier poll collected. -/
def collectReleased (slot : Option ShareRecoveryState) (env : ShareEnvelope) :
    Except ShareRecoveryError (EscrowReleaseStatus × ShareRecoveryState) := do
  let session ← theSession slot
  checkSet (session.shares.find? fun s => s.index != 2) env
  let kept := { session with shares := session.shares.filter fun s => s.index != 2 }
  return (
    { status := "released", availableAt := none
      share := some (StoredShare.fromEnvelope crates env).collected },
    kept.push crates env)

def releaseImpl (server : EscrowServer) (slot : Option ShareRecoveryState) (otp : Option String) :
    Except ShareRecoveryError (EscrowReleaseStatus × ShareRecoveryState) := do
  let (did, pdsUrl) ← escrowTarget slot
  let answer ← (server (trimEndMatches '/' pdsUrl ++ "/v1/recovery/release") did otp).mapError
    ShareRecoveryError.networkError
  match answer.status with
  | 200 => do
    let release ← answer.body.mapError ShareRecoveryError.invalidResponse
    if release.status == "pending" then
      let session ← theSession slot
      return ({ status := "pending", availableAt := release.availableAt, share := none }, session)
    else if release.status == "released" then
      let share ← orError (.invalidResponse "released without a share") release.share
      let env ← (ShareEnvelope.decodeShare crates.share share).mapError mapDecodeError
      check (env.index == 2)
        (.shareFormat ("escrow returned share index " ++ toString env.index))
      collectReleased crates slot env
    else .error (.invalidResponse
      ("unknown release status " ++ crates.share.debug release.status))
  | 401 => .error .releaseUnauthorized
  | 429 => .error (.rateLimited answer.retryAfter)
  | status => .error (.invalidResponse ("release returned HTTP " ++ toString status))

/-! ## Verification -/

structure RecoveredIdentity where
  did : String
  handle : Option String
  recoveryKeyId : String
  rotationKeys : List String

def mapCombineError : CryptoError → ShareRecoveryError
  | .shareVersion _ => .shareVersion
  | other => .shareFormat other.text

/-- The seed of the first two shares. -/
def combinedSeed (session : ShareRecoveryState) : Except ShareRecoveryError Bytes32 :=
  match session.shares with
  | first :: second :: _ => do
    let a ← first.decode crates
    let b ← second.decode crates
    (combineEnvelopes a b).mapError mapCombineError
  | _ => .error .sharesIncomplete

/-- The session is locked again after the directory was asked; another command could have ended
it in between only. -/
def verifyImpl (pds : PdsClient) (slot : Option ShareRecoveryState) :
    Except ShareRecoveryError (RecoveredIdentity × ShareRecoveryState) := do
  let session ← theSession slot
  let seed ← combinedSeed crates session
  let key ← (deriveRecoveryKeypair crates seed).mapError fun e =>
    ShareRecoveryError.signingFailed e.text
  let current ← recoveryState crates pds session.did
  check (current.rotationKeys.contains key.uri) .sharesDoNotMatchIdentity
  return (
    { did := session.did, handle := session.handle, recoveryKeyId := key.uri
      rotationKeys := current.rotationKeys },
    { session with verified := some { seed, recoveryKeyId := key.uri } })

/-! ## Handing shares over -/

/-- A share reaches the session by hand, or from the escrow. -/
inductive Handover where
  | byHand (share : String)
  | escrow (server : EscrowServer) (otp : Option String)

/-- The slot of the session after a share was handed over. -/
def give (slot : Option ShareRecoveryState) : Handover → Option ShareRecoveryState
  | .byHand share => settled slot (addShareImpl crates slot share)
  | .escrow server otp => settled slot (releaseImpl crates server slot otp)

/-- The handover is one of this envelope: a text of one piece, or a phrase, or the answer of the
escrow, which holds second shares. -/
def Handover.Carries (session : ShareRecoveryState) (env : ShareEnvelope) : Handover → Prop
  | .byHand share =>
    (Respelled share (env.encodeShare crates.share) ∧ (splitWhitespace share).length = 1) ∨
      SameWords share (env.encodeShareWords crates.share)
  | .escrow server otp =>
    env.index = 2 ∧ ∃ pdsUrl share retryAfter availableAt, session.pdsUrl = some pdsUrl ∧
      server (trimEndMatches '/' pdsUrl ++ "/v1/recovery/release") session.did otp =
        .ok ⟨200, retryAfter, .ok ⟨"released", availableAt, some share⟩⟩ ∧
      Respelled share (env.encodeShare crates.share)

/-- A session to which a share can be added. -/
structure ShareRecoveryState.Room (session : ShareRecoveryState) (env : ShareEnvelope) :
    Prop where
  sameSet : ∀ share ∈ session.shares, share.setId = env.setId
  fresh : ∀ share ∈ session.shares, share.index ≠ env.index

/-- The session begins with Share 1 of another set, or the share is Share 1 as well. -/
def ShareRecoveryState.Refuses (session : ShareRecoveryState) (env : ShareEnvelope) : Prop :=
  ∃ share rest, session.shares = share :: rest ∧ share.index = 1 ∧
    (share.setId ≠ env.setId ∨ env.index = 1)

variable {crates} {session : ShareRecoveryState} {env : ShareEnvelope}

theorem ShareRecoveryState.Room.push {env' : ShareEnvelope} (h : session.Room env')
    (hSet : env.setId = env'.setId) (hIndex : env.index ≠ env'.index) :
    (session.push crates env).Room env' where
  sameSet share hShare := by
    rcases List.mem_append.mp hShare with hShare | hShare
    · exact h.sameSet share hShare
    · rw [List.mem_singleton.mp hShare]
      exact hSet
  fresh share hShare := by
    rcases List.mem_append.mp hShare with hShare | hShare
    · exact h.fresh share hShare
    · rw [List.mem_singleton.mp hShare]
      exact hIndex

theorem enteredShare_carried (hBase32 : crates.share.base32.Lawful) (hValid : env.Valid)
    {share : String} (h : Handover.Carries crates session env (.byHand share)) :
    enteredShare crates share = .ok env := by
  have hLength : (splitWhitespace (trim share)).length = 1 ∨
      (splitWhitespace (trim share)).length = SHARE_ENVELOPE_LEN := by
    rw [splitWhitespace_trim]
    rcases h with ⟨_, hOne⟩ | hWords
    · exact Or.inl hOne
    · exact Or.inr (length_sameWords hWords)
  have hText : (!(trim share).isEmpty) = true := by
    rw [Bool.not_eq_true', Bool.eq_false_iff]
    intro hEmpty
    rw [String.isEmpty_iff.mp hEmpty] at hLength
    revert hLength
    decide
  refine bind_ok.mpr ⟨(), check_ok.mpr hText, ?_⟩
  rcases h with ⟨hText, hOne⟩ | hWords
  · rw [if_neg]
    · apply mapError_ok.mpr
      have hShared : env.Presents crates.share (.base32 (trim share)) := respelled_trim hText
      exact decodeShared_presents hBase32 hValid hShared
    · rw [splitWhitespace_trim, List.getElem?_eq_none (by omega)]
      decide
  · rw [if_pos]
    · apply mapError_ok.mpr
      have hShared : env.Presents crates.share (.words (trim share)) := sameWords_trim hWords
      exact decodeShared_presents hBase32 hValid hShared
    · have hCount := length_sameWords hWords
      rw [splitWhitespace_trim, List.getElem?_eq_getElem (by rw [hCount]; decide)]
      rfl

theorem releaseImpl_carried (hBase32 : crates.share.base32.Lawful) (hValid : env.Valid)
    {server : EscrowServer} {otp : Option String}
    (h : Handover.Carries crates session env (.escrow server otp)) :
    releaseImpl crates server (some session) otp = collectReleased crates (some session) env := by
  obtain ⟨hIndex, pdsUrl, share, retryAfter, availableAt, hUrl, hAnswer, hText⟩ := h
  have hTarget : escrowTarget (some session) = .ok (session.did, pdsUrl) :=
    bind_ok.mpr ⟨session, rfl, bind_ok.mpr ⟨pdsUrl, orError_ok.mpr hUrl, rfl⟩⟩
  have hShared : env.Presents crates.share (.base32 share) := hText
  have hDecoded : ShareEnvelope.decodeShare crates.share share = .ok env :=
    decodeShared_presents hBase32 hValid hShared
  have hSecond : check (env.index == 2)
      (ShareRecoveryError.shareFormat ("escrow returned share index " ++ toString env.index)) =
        .ok () := by
    apply check_ok.mpr
    rw [hIndex]
    rfl
  simp only [releaseImpl, hTarget, bind, Except.bind, hAnswer, Except.mapError]
  rw [if_neg (by decide), if_pos (by decide)]
  simp only [orError, hDecoded, hSecond]

theorem checkSet_ok {existing : Option StoredShare} :
    checkSet existing env = .ok () ↔ ∀ share ∈ existing, share.setId = env.setId := by
  cases existing with
  | none => simp [checkSet]
  | some share =>
    rw [checkSet, check_ok, beq_iff_eq]
    simp

/-- A share of the set of the session, with an index that the session has not, is collected. -/
theorem give_room (session : ShareRecoveryState) (hBase32 : crates.share.base32.Lawful)
    (hValid : env.Valid) {handover : Handover}
    (h : handover.Carries crates session env) (hRoom : session.Room env) :
    give crates (some session) handover = some (session.push crates env) := by
  cases handover with
  | byHand share =>
    have hSet : checkSet session.shares.head? env = .ok () :=
      checkSet_ok.mpr fun share hShare => hRoom.sameSet share (List.mem_of_mem_head? hShare)
    have hFresh : (!session.shares.any fun s => s.index == env.index) = true := by
      rw [Bool.not_eq_true', List.any_eq_false]
      intro share hShare
      simpa using hRoom.fresh share hShare
    have hAdded : addShareImpl crates (some session) share =
        .ok ((StoredShare.fromEnvelope crates env).collected, session.push crates env) := by
      refine bind_ok.mpr ⟨env, enteredShare_carried hBase32 hValid h, ?_⟩
      refine bind_ok.mpr ⟨session, rfl, ?_⟩
      refine bind_ok.mpr ⟨(), hSet, ?_⟩
      exact bind_ok.mpr ⟨(), check_ok.mpr hFresh, rfl⟩
    rw [give, hAdded]
    rfl
  | escrow server otp =>
    have hSet : checkSet (session.shares.find? fun s => s.index != 2) env = .ok () :=
      checkSet_ok.mpr fun share hShare => hRoom.sameSet share (List.mem_of_find?_eq_some hShare)
    have hKept : session.shares.filter (fun s => s.index != 2) = session.shares := by
      apply List.filter_eq_self.mpr
      intro share hShare
      simpa [h.1] using hRoom.fresh share hShare
    rw [give, releaseImpl_carried hBase32 hValid h, collectReleased]
    simp only [theSession, orError, bind, Except.bind, hSet, hKept]
    rfl

/-- The share that a slot held decides which shares the session takes. -/
theorem give_refused (session : ShareRecoveryState) (hBase32 : crates.share.base32.Lawful)
    (hValid : env.Valid) {handover : Handover} (h : handover.Carries crates session env)
    (hRefuses : session.Refuses env) :
    give crates (some session) handover = some session := by
  obtain ⟨share, rest, hShares, hOne, hOther⟩ := hRefuses
  cases handover with
  | byHand text =>
    have hError : ∃ e, addShareImpl crates (some session) text = .error e := by
      rw [addShareImpl, enteredShare_carried hBase32 hValid h]
      simp only [theSession, orError, bind, Except.bind, hShares, List.head?_cons, checkSet]
      by_cases hSet : share.setId = env.setId
      · have hIndex : env.index = 1 := hOther.resolve_left fun hNe => hNe hSet
        simp [check, hSet, hOne, hIndex]
      · simp [check, hSet]
    obtain ⟨e, hError⟩ := hError
    rw [give, hError]
    rfl
  | escrow server otp =>
    have hNe : env.index ≠ 1 := by
      rw [h.1]
      decide
    have hSet : share.setId ≠ env.setId := hOther.resolve_right hNe
    have hFound : session.shares.find? (fun s => s.index != 2) = some share := by
      rw [hShares, List.find?_cons_of_pos (by rw [hOne]; rfl)]
    rw [give, releaseImpl_carried hBase32 hValid h, collectReleased]
    simp only [theSession, orError, bind, Except.bind, hFound, checkSet, check]
    rw [if_neg (by simpa using hSet)]
    rfl

/-! ## What is verified -/

variable (crates) in
/-- The two envelopes give a seed whose key is one of `keys`. -/
def Completes (keys : List String) (a b : ShareEnvelope) : Prop :=
  ∃ seed key, combineEnvelopes a b = .ok seed ∧ deriveRecoveryKeypair crates seed = .ok key ∧
    key.uri ∈ keys

theorem setId_of_completes {keys : List String} {a b : ShareEnvelope}
    (h : Completes crates keys a b) : a.setId = b.setId := by
  obtain ⟨seed, _, hSeed, _⟩ := h
  obtain ⟨_, _, hSeed⟩ := bind_ok.mp hSeed
  obtain ⟨_, hSetId, _⟩ := bind_ok.mp hSeed
  simpa using check_ok.mp hSetId

theorem decode_fromEnvelope (hBase32 : crates.share.base32.Lawful) (hValid : env.Valid) :
    (StoredShare.fromEnvelope crates env).decode crates = .ok env :=
  mapError_ok.mpr (decodeShare_encodeShare hBase32 hValid)

theorem verifyImpl_ok {pds : PdsClient} {slot : Option ShareRecoveryState}
    {result : RecoveredIdentity × ShareRecoveryState}
    (h : verifyImpl crates pds slot = .ok result) :
    ∃ session seed key current, slot = some session ∧ combinedSeed crates session = .ok seed ∧
      deriveRecoveryKeypair crates seed = .ok key ∧
      recoveryState crates pds session.did = .ok current ∧ key.uri ∈ current.rotationKeys := by
  obtain ⟨session, hSession, h⟩ := bind_ok.mp h
  obtain ⟨seed, hSeed, h⟩ := bind_ok.mp h
  obtain ⟨key, hKey, h⟩ := bind_ok.mp h
  obtain ⟨current, hCurrent, h⟩ := bind_ok.mp h
  obtain ⟨_, hListed, _⟩ := bind_ok.mp h
  refine ⟨session, seed, key, current, ?_, hSeed, mapError_ok.mp hKey, hCurrent, ?_⟩
  · cases slot with
    | none => cases hSession
    | some session' =>
      cases hSession
      rfl
  · simpa using check_ok.mp hListed

/-- What a verification that succeeds returns. -/
theorem verifyImpl_eq (session : ShareRecoveryState) {pds : PdsClient}
    {current : CurrentHandleState} (hCurrent : recoveryState crates pds session.did = .ok current)
    {seed : Bytes32} {key : DidKeyUri} (hSeed : combinedSeed crates session = .ok seed)
    (hKey : deriveRecoveryKeypair crates seed = .ok key)
    (hListed : key.uri ∈ current.rotationKeys) :
    verifyImpl crates pds (some session) = .ok
      (⟨session.did, session.handle, key.uri, current.rotationKeys⟩,
        { session with verified := some ⟨seed, key.uri⟩ }) := by
  refine bind_ok.mpr ⟨session, rfl, ?_⟩
  refine bind_ok.mpr ⟨seed, hSeed, ?_⟩
  refine bind_ok.mpr ⟨key, mapError_ok.mpr hKey, ?_⟩
  refine bind_ok.mpr ⟨current, hCurrent, ?_⟩
  exact bind_ok.mpr ⟨(), check_ok.mpr (by simpa using hListed), rfl⟩

theorem combinedSeed_pair (session : ShareRecoveryState) (hBase32 : crates.share.base32.Lawful)
    {a b : ShareEnvelope} {rest : List StoredShare} (ha : a.Valid) (hb : b.Valid)
    (hShares : session.shares =
      StoredShare.fromEnvelope crates a :: StoredShare.fromEnvelope crates b :: rest) :
    combinedSeed crates session = (combineEnvelopes a b).mapError mapCombineError := by
  simp only [combinedSeed, hShares, decode_fromEnvelope hBase32 ha,
    decode_fromEnvelope hBase32 hb, bind, Except.bind]

/-- Verification takes the first two shares. -/
theorem verifyImpl_pair (session : ShareRecoveryState) (hBase32 : crates.share.base32.Lawful)
    {pds : PdsClient} {current : CurrentHandleState}
    (hCurrent : recoveryState crates pds session.did = .ok current) {a b : ShareEnvelope}
    {rest : List StoredShare} (ha : a.Valid) (hb : b.Valid)
    (hShares : session.shares =
      StoredShare.fromEnvelope crates a :: StoredShare.fromEnvelope crates b :: rest) :
    (∃ result, verifyImpl crates pds (some session) = .ok result) ↔
      Completes crates current.rotationKeys a b := by
  have hSeed := combinedSeed_pair session hBase32 ha hb hShares
  constructor
  · intro h
    obtain ⟨result, h⟩ := h
    obtain ⟨_, seed, key, current', hSession, hCombined, hKey, hCurrent', hListed⟩ :=
      verifyImpl_ok h
    cases hSession
    rw [hCurrent] at hCurrent'
    cases hCurrent'
    rw [hSeed] at hCombined
    exact ⟨seed, key, mapError_ok.mp hCombined, hKey, hListed⟩
  · intro h
    obtain ⟨seed, key, hCombined, hKey, hListed⟩ := h
    exact ⟨_, verifyImpl_eq session hCurrent (hSeed.trans (mapError_ok.mpr hCombined)) hKey hListed⟩

theorem not_verifyImpl_single {pds : PdsClient} {share : StoredShare}
    (hShares : session.shares = [share]) :
    ¬ ∃ result, verifyImpl crates pds (some session) = .ok result := by
  intro h
  obtain ⟨result, h⟩ := h
  obtain ⟨_, seed, _, _, hSession, hSeed, _⟩ := verifyImpl_ok h
  cases hSession
  rw [combinedSeed, hShares] at hSeed
  cases hSeed

theorem autoLoadShare1_valid {keychain : Keychain} {did : String}
    (h : autoLoadShare1 crates keychain did = some env) : env.Valid ∧ env.index = 1 := by
  have hDecoded : ∀ slot : Option ByteArray, slot >>= decodeShare1Envelope crates = some env →
      env.Valid ∧ env.index = 1 := by
    intro slot hSlot
    obtain ⟨bytes, _, hSlot⟩ := Option.bind_eq_some_iff.mp hSlot
    obtain ⟨s, _, hSlot⟩ := Option.bind_eq_some_iff.mp hSlot
    obtain ⟨found, hFound, hSlot⟩ := Option.bind_eq_some_iff.mp hSlot
    obtain ⟨hIndex, hEq⟩ := Option.ite_none_right_eq_some.mp hSlot
    cases hEq
    cases hOk : ShareEnvelope.decodeShare crates.share s with
    | error e =>
      rw [hOk] at hFound
      cases hFound
    | ok env' =>
      rw [hOk] at hFound
      cases hFound
      exact ⟨decodeShare_valid hOk, by simpa using hIndex⟩
  rcases Option.or_eq_some_iff.mp h with hSynced | ⟨_, h⟩
  · exact hDecoded _ hSynced
  · rcases Option.or_eq_some_iff.mp h with hItem | ⟨_, hLegacy⟩
    · exact hDecoded _ hItem
    · exact hDecoded _ hLegacy

/-! ## Two shares of a set -/

theorem startImpl_shares {pds : PdsClient} {keychain : Keychain} {identifier : String}
    {target : RecoveryTarget}
    (h : startImpl crates pds keychain identifier = .ok (target, session)) :
    session.shares = ((autoLoadShare1 crates keychain session.did).map
      (StoredShare.fromEnvelope crates)).toList := by
  obtain ⟨did, _, h⟩ := bind_ok.mp h
  obtain ⟨_, _, h⟩ := bind_ok.mp h
  obtain ⟨current, _, h⟩ := bind_ok.mp h
  cases h
  rfl

/-- The envelopes of a split. -/
structure IsSplit (secret : Bytes32) (envelopes : Fin 3 → ShareEnvelope) : Prop where
  valid : ∀ j, (envelopes j).Valid
  index : ∀ j, (envelopes j).index = shareIndex j
  sameSet : ∀ j k, (envelopes j).setId = (envelopes k).setId
  combine : ∀ j k, j ≠ k → combineEnvelopes (envelopes j) (envelopes k) = .ok secret

theorem isSplit_of_split {fill : Except String Bytes32} {secret : Bytes32} {setId : UInt32}
    {envelopes : Fin 3 → ShareEnvelope}
    (h : splitSecretIntoEnvelopes fill secret setId = .ok envelopes) :
    IsSplit secret envelopes := by
  obtain ⟨coeffs, _, rfl⟩ := splitSecretIntoEnvelopes_ok.mp h
  exact {
    valid := fun j => ⟨rfl, shareIndex_range j⟩
    index := fun j => rfl
    sameSet := fun j k => rfl
    combine := fun j k hNe => combineEnvelopes_fromShare hNe secret coeffs setId }

theorem index_ne_one {secret : Bytes32} {envelopes : Fin 3 → ShareEnvelope}
    (hSplit : IsSplit secret envelopes) {j : Fin 3} (h : j ≠ 0) : (envelopes j).index ≠ 1 := by
  rw [hSplit.index]
  exact shareIndex_injective.ne h

/-- The share that was loaded is the first one collected, and the second one is the first of
the two that is not Share 1, if it is of the same set. -/
theorem verify_loaded (hBase32 : crates.share.base32.Lawful) {later : PdsClient}
    {current : CurrentHandleState}
    (hCurrent : recoveryState crates later session.did = .ok current) {loaded : ShareEnvelope}
    (hValid : loaded.Valid) (hOne : loaded.index = 1)
    (hShares : session.shares = [StoredShare.fromEnvelope crates loaded]) {secret : Bytes32}
    {envelopes : Fin 3 → ShareEnvelope} (hSplit : IsSplit secret envelopes) {j k : Fin 3}
    (hNe : j ≠ k) {a b : Handover} (ha : a.Carries crates session (envelopes j))
    (hb : b.Carries crates session (envelopes k)) :
    (∃ result, verifyImpl crates later (give crates (give crates (some session) a) b) =
        .ok result) ↔
      Completes crates current.rotationKeys loaded (envelopes (if j = 0 then k else j)) := by
  have hRefuses : ∀ i, loaded.setId ≠ (envelopes i).setId ∨ i = 0 →
      session.Refuses (envelopes i) := by
    intro i hi
    refine ⟨_, [], hShares, hOne, ?_⟩
    rcases hi with hOther | rfl
    · exact Or.inl hOther
    · exact Or.inr (hSplit.index 0)
  have hRoom : ∀ i, loaded.setId = (envelopes i).setId → i ≠ 0 → session.Room (envelopes i) := by
    intro i hSet hi
    constructor
    · intro share hShare
      rw [hShares] at hShare
      rw [List.mem_singleton.mp hShare]
      exact hSet
    · intro share hShare
      rw [hShares] at hShare
      rw [List.mem_singleton.mp hShare]
      intro hEq
      exact index_ne_one hSplit hi (hEq.symm.trans hOne)
  by_cases hSet : loaded.setId = (envelopes j).setId
  · have hSetK : loaded.setId = (envelopes k).setId := hSet.trans (hSplit.sameSet j k)
    by_cases hj : j = 0
    · -- Share 1 again is a duplicate, and the other share comes second.
      have hk : k ≠ 0 := fun hk => hNe (hj.trans hk.symm)
      rw [give_refused session hBase32 (hSplit.valid j) ha (hRefuses j (Or.inr hj)),
        give_room session hBase32 (hSplit.valid k) hb (hRoom k hSetK hk), if_pos hj]
      have hPushed : (session.push crates (envelopes k)).shares =
          [StoredShare.fromEnvelope crates loaded,
            StoredShare.fromEnvelope crates (envelopes k)] := by
        rw [ShareRecoveryState.push, hShares]
        rfl
      exact verifyImpl_pair (session.push crates (envelopes k)) hBase32 hCurrent hValid
        (hSplit.valid k) hPushed
    · have hPushed : (session.push crates (envelopes j)).shares =
          [StoredShare.fromEnvelope crates loaded,
            StoredShare.fromEnvelope crates (envelopes j)] := by
        rw [ShareRecoveryState.push, hShares]
        rfl
      rw [give_room session hBase32 (hSplit.valid j) ha (hRoom j hSet hj), if_neg hj]
      by_cases hk : k = 0
      · have hAgain : (session.push crates (envelopes j)).Refuses (envelopes k) :=
          ⟨_, _, hPushed, hOne, Or.inr (by rw [hk]; exact hSplit.index 0)⟩
        rw [give_refused (session.push crates (envelopes j)) hBase32 (hSplit.valid k) hb hAgain]
        exact verifyImpl_pair (session.push crates (envelopes j)) hBase32 hCurrent hValid
          (hSplit.valid j) hPushed
      · have hThird : (session.push crates (envelopes j)).Room (envelopes k) := by
          apply (hRoom k hSetK hk).push (hSplit.sameSet j k)
          rw [hSplit.index, hSplit.index]
          exact shareIndex_injective.ne hNe
        have hAll : ((session.push crates (envelopes j)).push crates (envelopes k)).shares =
            [StoredShare.fromEnvelope crates loaded, StoredShare.fromEnvelope crates (envelopes j),
              StoredShare.fromEnvelope crates (envelopes k)] := by
          rw [ShareRecoveryState.push, hPushed]
          rfl
        rw [give_room (session.push crates (envelopes j)) hBase32 (hSplit.valid k) hb hThird]
        exact verifyImpl_pair ((session.push crates (envelopes j)).push crates (envelopes k))
          hBase32 hCurrent hValid (hSplit.valid j) hAll
  · have hSetK : loaded.setId ≠ (envelopes k).setId :=
      fun hEq => hSet (hEq.trans (hSplit.sameSet k j))
    rw [give_refused session hBase32 (hSplit.valid j) ha (hRefuses j (Or.inl hSet)),
      give_refused session hBase32 (hSplit.valid k) hb (hRefuses k (Or.inl hSetK))]
    refine iff_of_false (not_verifyImpl_single hShares) ?_
    intro hCompletes
    exact hSet ((setId_of_completes hCompletes).trans (hSplit.sameSet _ j))

/-- Two shares of a set whose key the identity has are enough exactly when no slot held a share,
or the one that was loaded gives a key of the identity together with the first of the two that
is not Share 1. -/
theorem two_shares_verify (hBase32 : crates.share.base32.Lawful) {pds later : PdsClient}
    {keychain : Keychain} {identifier : String} {target : RecoveryTarget}
    (hStart : startImpl crates pds keychain identifier = .ok (target, session))
    {current : CurrentHandleState}
    (hCurrent : recoveryState crates later session.did = .ok current)
    {fill : Except String Bytes32} {secret : Bytes32} {setId : UInt32}
    {envelopes : Fin 3 → ShareEnvelope}
    (hSplit : splitSecretIntoEnvelopes fill secret setId = .ok envelopes) {key : DidKeyUri}
    (hKey : deriveRecoveryKeypair crates secret = .ok key)
    (hListed : key.uri ∈ current.rotationKeys) {j k : Fin 3} (hNe : j ≠ k) {a b : Handover}
    (ha : a.Carries crates session (envelopes j)) (hb : b.Carries crates session (envelopes k)) :
    (∃ result, verifyImpl crates later (give crates (give crates (some session) a) b) =
        .ok result) ↔
      ∀ loaded, autoLoadShare1 crates keychain session.did = some loaded →
        Completes crates current.rotationKeys loaded (envelopes (if j = 0 then k else j)) := by
  have hSet := isSplit_of_split hSplit
  have hShares := startImpl_shares hStart
  cases hLoaded : autoLoadShare1 crates keychain session.did with
  | none =>
    rw [hLoaded] at hShares
    have hEmpty : session.shares = [] := hShares
    have hRoom : ∀ i, session.Room (envelopes i) := by
      intro i
      constructor <;> simp [hEmpty]
    have hSecond : (session.push crates (envelopes j)).Room (envelopes k) := by
      apply (hRoom k).push (hSet.sameSet j k)
      rw [hSet.index, hSet.index]
      exact shareIndex_injective.ne hNe
    have hPair : ((session.push crates (envelopes j)).push crates (envelopes k)).shares =
        [StoredShare.fromEnvelope crates (envelopes j),
          StoredShare.fromEnvelope crates (envelopes k)] := by
      simp [ShareRecoveryState.push, hEmpty]
    rw [give_room session hBase32 (hSet.valid j) ha (hRoom j),
      give_room (session.push crates (envelopes j)) hBase32 (hSet.valid k) hb hSecond,
      verifyImpl_pair ((session.push crates (envelopes j)).push crates (envelopes k)) hBase32
        hCurrent (hSet.valid j) (hSet.valid k) hPair]
    refine iff_of_true ⟨secret, key, hSet.combine j k hNe, hKey, hListed⟩ ?_
    intro loaded hSome
    cases hSome
  | some loaded =>
    rw [hLoaded] at hShares
    obtain ⟨hValid, hOne⟩ := autoLoadShare1_valid hLoaded
    rw [verify_loaded hBase32 hCurrent hValid hOne hShares hSet hNe ha hb]
    simp

/-! ## Starting a session -/

/-- A session can be started for every did:plc identity whose log can be read. -/
theorem startImpl_of {pds : PdsClient} {keychain : Keychain} {identifier did : String}
    {current : CurrentHandleState} (hDid : resolveIdentifier pds (trim identifier) = .ok did)
    (hPlc : hasPrefix "did:plc:" did = true)
    (hCurrent : recoveryState crates pds did = .ok current) :
    ∃ target session, startImpl crates pds keychain identifier = .ok (target, session) ∧
      session.did = did ∧
      session.pdsUrl = (current.services.get? "atproto_pds").map PlcService.endpoint := by
  exact ⟨_, _, bind_ok.mpr ⟨did, hDid, bind_ok.mpr ⟨(), check_ok.mpr hPlc,
    bind_ok.mpr ⟨current, hCurrent, rfl⟩⟩⟩, rfl, rfl⟩

theorem fromUTF8?_toUTF8 (s : String) : String.fromUTF8? s.toUTF8 = some s := by
  unfold String.fromUTF8?
  split
  · rfl
  · rename_i hInvalid
    exact absurd s.isValidUTF8 hInvalid

theorem decodeShare1Envelope_encode (hBase32 : crates.share.base32.Lawful) (hValid : env.Valid)
    (hOne : env.index = 1) :
    decodeShare1Envelope crates (env.encodeShare crates.share).toUTF8 = some env := by
  rw [decodeShare1Envelope, fromUTF8?_toUTF8]
  simp only [bind, Option.bind, decodeShare_encodeShare hBase32 hValid]
  simp [Except.toOption, hOne]

end Model

/-! ## A session that takes its set, and one that does not -/

def recoveryKey : String := "did:key:zDnaeZu6ogyb7T9eLz8M47FFYNSJvFDdPvTrUshKQBnwLDyas"

def recoveryLog : Json :=
  .array [.object
    [("did", .string "did:plc:alice"),
      ("cid", .string sampleCid),
      ("operation", .object
        [("type", .string "plc_operation"),
          ("rotationKeys", jsonTexts [sampleKey.uri, recoveryKey]),
          ("verificationMethods", .object []),
          ("alsoKnownAs", jsonTexts ["at://alice.example.com"]),
          ("services", .object [("atproto_pds", PlcService.toJson
            ⟨"AtprotoPersonalDataServer", "https://pds.example.com"⟩)])]),
      ("nullified", .bool false),
      ("createdAt", .string "2026-03-29T00:00:00.000Z")]]

def recoveryLogText : String :=
  "[\x7b\"did\":\"did:plc:alice\",\"cid\":\"" ++ sampleCid ++ "\",\"operation\":\x7b\"type\":" ++
    "\"plc_operation\",\"rotationKeys\":[\"" ++ sampleKey.uri ++ "\",\"" ++ recoveryKey ++
    "\"],\"verificationMethods\":\x7b\x7d,\"alsoKnownAs\":[\"at://alice.example.com\"]," ++
    "\"services\":\x7b\"atproto_pds\":\x7b\"type\":\"AtprotoPersonalDataServer\"," ++
    "\"endpoint\":\"https://pds.example.com\"\x7d\x7d\x7d,\"nullified\":false," ++
    "\"createdAt\":\"2026-03-29T00:00:00.000Z\"\x7d]"

def foreignHash : Bytes32 := fun i =>
  [211, 215, 114, 242, 137, 13, 232, 209, 225, 154, 160, 185, 159, 185, 39, 144, 56, 201, 67, 0,
   88, 88, 76, 2, 250, 88, 254, 24, 216, 79, 236, 118].getD i 0

def secondHash : Bytes32 := fun i =>
  [242, 206, 11, 221, 72, 194, 182, 163, 56, 216, 136, 54, 200, 2, 48, 142, 120, 52, 242, 76, 96,
   215, 127, 93, 123, 160, 135, 110, 215, 214, 89, 116].getD i 0

/-- The hashes of the three shares of the sample, and of the first share of another set. -/
def recoveryHash (preimage : List UInt8) : Bytes32 :=
  if preimage.getD 3 0 = 3 then foreignHash
  else if preimage.getD 5 0 = 2 then secondHash
  else sampleHash preimage

def recoveryCrates : RecoveryCrates where
  plc := { rotationSample.crates sampleRotation with parseJson := fun _ => some recoveryLog }
  share := ⟨recoveryHash, base32Nopad, id⟩
  expand _ _ _ := .ok fun i =>
    [153, 169, 119, 24, 45, 224, 11, 62, 17, 57, 27, 108, 81, 118, 76, 95, 177, 127, 235, 120, 19,
     184, 92, 69, 132, 30, 194, 202, 120, 181, 237, 241].getD i 0
  fromSlice _ := some
    [2, 140, 172, 163, 84, 229, 81, 155, 191, 24, 3, 148, 238, 56, 96, 144, 12, 57, 36, 178, 213,
     103, 249, 146, 53, 138, 45, 44, 194, 152, 7, 246, 156]
  multibase _ := "zDnaeZu6ogyb7T9eLz8M47FFYNSJvFDdPvTrUshKQBnwLDyas"

def recoveryPds : PdsClient where
  resolveHandle _ := .error .handleNotFound
  fetchAuditLog _ := .ok recoveryLogText

def recoveryCurrent : CurrentHandleState where
  prevCid := sampleCid
  rotationKeys := [sampleKey.uri, recoveryKey]
  verificationMethods := SortedMap.empty
  alsoKnownAs := ["at://alice.example.com"]
  services := SortedMap.empty.insert "atproto_pds"
    ⟨"AtprotoPersonalDataServer", "https://pds.example.com"⟩

/-- The shares of the sample. -/
def recoveryShares (j : Fin 3) : ShareEnvelope :=
  ShareEnvelope.fromShare 12345
    ⟨shareIndex j, shareData sampleSecret (fun i => UInt8.ofNat (29 * i + 5)) (shareIndex j)⟩

/-- The first share of another set. -/
def foreignShare : ShareEnvelope :=
  ShareEnvelope.fromShare 777 ⟨1, shareData (fun i => UInt8.ofNat (3 * i + 1))
    (fun i => UInt8.ofNat (7 * i + 2)) 1⟩

theorem recoveryShares_split : splitSecretIntoEnvelopes
    (.ok fun i => UInt8.ofNat (29 * i + 5)) sampleSecret 12345 = .ok recoveryShares :=
  splitSecretIntoEnvelopes_ok.mpr ⟨_, rfl, rfl⟩

theorem recoveryCurrent_read (did : String) :
    recoveryState recoveryCrates recoveryPds did = .ok recoveryCurrent := by
  rfl

theorem recoveryKey_derived :
    deriveRecoveryKeypair recoveryCrates sampleSecret = .ok ⟨recoveryKey⟩ := by
  have hFirst : ∀ n, deriveFrom recoveryCrates sampleSecret (n + 1) 0 = .ok ⟨recoveryKey⟩ :=
    fun _ => rfl
  exact hFirst 4294967295

/-- A phone on which one slot holds a first share. -/
def keychainOf (account : String) (share : ShareEnvelope) : Keychain where
  synced _ := none
  item account' :=
    if account' = account then some (share.encodeShare recoveryCrates.share).toUTF8 else none

theorem three_shares : NeZero 3 :=
  ⟨by decide⟩

attribute [local instance] three_shares

/-- The third share as a phrase, and the second one from the escrow. -/
def phraseOfThird : Handover :=
  .byHand ((recoveryShares 2).encodeShareWords recoveryCrates.share)

def escrowOfSecond : Handover :=
  .escrow (fun _ _ _ => .ok ⟨200, none, .ok ⟨"released", none,
    some ((recoveryShares 1).encodeShare recoveryCrates.share)⟩⟩) (some "123456")

theorem recoveryLawful : recoveryCrates.share.base32.Lawful := base32Nopad_lawful

theorem phraseOfThird_carries (session : ShareRecoveryState) :
    phraseOfThird.Carries recoveryCrates session (recoveryShares 2) :=
  Or.inr rfl

theorem escrowOfSecond_carries {session : ShareRecoveryState}
    (h : session.pdsUrl = some "https://pds.example.com") :
    escrowOfSecond.Carries recoveryCrates session (recoveryShares 1) :=
  ⟨rfl, _, _, _, _, h, rfl, respelled_encode recoveryLawful _⟩

theorem recovery_started (keychain : Keychain) : ∃ target session,
    startImpl recoveryCrates recoveryPds keychain "did:plc:alice" = .ok (target, session) ∧
      session.did = "did:plc:alice" ∧ session.pdsUrl = some "https://pds.example.com" := by
  have hDid : resolveIdentifier recoveryPds (trim "did:plc:alice") = .ok "did:plc:alice" := by
    decide +kernel
  exact startImpl_of hDid (by decide +kernel) (recoveryCurrent_read _)

theorem autoLoadShare1_keychainOf {account did : String} {share : ShareEnvelope}
    (h : account = recoveryShare1Account did ∨ account = RECOVERY_SHARE1_ACCOUNT)
    (hValid : share.Valid) (hOne : share.index = 1) :
    autoLoadShare1 recoveryCrates (keychainOf account share) did = some share := by
  have hDecoded := decodeShare1Envelope_encode recoveryLawful hValid hOne
  have hHeld : (keychainOf account share).item account =
      some (share.encodeShare recoveryCrates.share).toUTF8 := if_pos rfl
  have hSlot : loadShare1Envelope recoveryCrates (keychainOf account share) account =
      some share := by
    rw [loadShare1Envelope, hHeld]
    exact hDecoded
  have hOther : ∀ account', account' ≠ account →
      loadShare1Envelope recoveryCrates (keychainOf account share) account' = none := by
    intro account' hNe
    have hNone : (keychainOf account share).item account' = none := if_neg hNe
    rw [loadShare1Envelope, hNone]
    rfl
  have hSynced : ∀ account',
      loadShare1EnvelopeSynced recoveryCrates (keychainOf account share) account' = none :=
    fun _ => rfl
  rw [autoLoadShare1, hSynced, Option.none_or]
  by_cases hPerDid : recoveryShare1Account did = account
  · rw [hPerDid, hSlot, Option.some_or]
  · have hLegacy : account = RECOVERY_SHARE1_ACCOUNT := h.resolve_left fun hEq => hPerDid hEq.symm
    rw [hOther _ hPerDid, Option.none_or, ← hLegacy, hSlot]

/-- The phone holds the first share of the set, and the other two are handed over. -/
theorem two_shares_verify_own : ∃ target session,
    startImpl recoveryCrates recoveryPds
      (keychainOf "recovery-share-1:did:plc:alice" (recoveryShares 0)) "did:plc:alice" =
        .ok (target, session) ∧
      ∃ result, verifyImpl recoveryCrates recoveryPds (give recoveryCrates
        (give recoveryCrates (some session) phraseOfThird) escrowOfSecond) = .ok result := by
  obtain ⟨target, session, hStart, hDid, hUrl⟩ :=
    recovery_started (keychainOf "recovery-share-1:did:plc:alice" (recoveryShares 0))
  have hSplit := isSplit_of_split recoveryShares_split
  refine ⟨target, session, hStart, ?_⟩
  apply (two_shares_verify recoveryLawful hStart (recoveryCurrent_read _) recoveryShares_split
    recoveryKey_derived (by decide) (by decide : (2 : Fin 3) ≠ 1) (phraseOfThird_carries session)
    (escrowOfSecond_carries hUrl)).mpr
  intro loaded hLoaded
  have hOwn := @autoLoadShare1_keychainOf "recovery-share-1:did:plc:alice" session.did
    (recoveryShares 0) (Or.inl (by rw [hDid]; decide)) (hSplit.valid 0) (hSplit.index 0)
  cases hLoaded.symm.trans hOwn
  exact ⟨sampleSecret, ⟨recoveryKey⟩, hSplit.combine 0 2 (by decide), recoveryKey_derived,
    by decide⟩

/-- The phone holds the first share of another set in the slot that all identities shared, and
the two good shares are refused. -/
theorem foreign_share_shadows :
    splitSecretIntoEnvelopes (.ok fun i => UInt8.ofNat (29 * i + 5)) sampleSecret 12345 =
        .ok recoveryShares ∧
      deriveRecoveryKeypair recoveryCrates sampleSecret = .ok ⟨recoveryKey⟩ ∧
      recoveryState recoveryCrates recoveryPds "did:plc:alice" = .ok recoveryCurrent ∧
      recoveryKey ∈ recoveryCurrent.rotationKeys ∧
      ¬ ∀ (keychain : Keychain) (target : RecoveryTarget) (session : ShareRecoveryState)
        (a b : Handover),
        startImpl recoveryCrates recoveryPds keychain "did:plc:alice" = .ok (target, session) →
        a.Carries recoveryCrates session (recoveryShares 2) →
        b.Carries recoveryCrates session (recoveryShares 1) →
        ∃ result, verifyImpl recoveryCrates recoveryPds (give recoveryCrates
          (give recoveryCrates (some session) a) b) = .ok result := by
  refine ⟨recoveryShares_split, recoveryKey_derived, recoveryCurrent_read _, by decide, ?_⟩
  intro hClaim
  obtain ⟨target, session, hStart, hDid, hUrl⟩ :=
    recovery_started (keychainOf RECOVERY_SHARE1_ACCOUNT foreignShare)
  have hValid : foreignShare.Valid := ⟨rfl, by decide⟩
  have hLoaded := @autoLoadShare1_keychainOf RECOVERY_SHARE1_ACCOUNT session.did foreignShare
    (Or.inr rfl) hValid rfl
  have hShares := startImpl_shares hStart
  rw [hLoaded] at hShares
  have hVerified := hClaim _ target session phraseOfThird escrowOfSecond hStart
    (phraseOfThird_carries session) (escrowOfSecond_carries hUrl)
  have hCompletes := (verify_loaded recoveryLawful (recoveryCurrent_read _) hValid rfl hShares
    (isSplit_of_split recoveryShares_split) (by decide) (phraseOfThird_carries session)
    (escrowOfSecond_carries hUrl)).mp hVerified
  exact absurd (setId_of_completes hCompletes) (by decide)

end Ezpds.Wallet
