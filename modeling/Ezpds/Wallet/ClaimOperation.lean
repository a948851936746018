import Ezpds.Wallet.Migration
import Ezpds.Wallet.OverrideSound

/-!
# The operation that claims an identity

The server that hosts an identity signs the operation that puts the key of the device in front
of its rotation keys. The wallet trusts the server with nothing else, and compares the operation
with the document of the identity that it resolved before.

* `signAndVerifyClaimImpl`: the operation of the server, verified and checked.
* `claim_checked`: what is known of an operation that is accepted.
-/

namespace Ezpds.Wallet

open Library Crypto

structure PlcDidDocument where
  did : String
  alsoKnownAs : List String
  rotationKeys : List String
  verificationMethods : Json
  services : StringMap PlcService

inductive ClaimError where
  | invalidToken
  | verificationFailed (message : String)
  | plcDirectoryError (message : String)
  | unauthorized
  | sourceAuthFailed (message : String)
  | twoFactorRequired
  | accountMismatch
  | insecureSourceUrl
  | insufficientScope (message : String)
  | rateLimited (retryAfter : Option String)
  | serverError (message : String)
  | networkError (message : String)
  deriving DecidableEq, Repr

structure VerifiedClaimOp where
  diff : OpDiff
  signedOp : Json
  warnings : List String

structure SignPlcOperationRequest where
  token : String
  rotationKeys : Option (List String)
  alsoKnownAs : Option (List String)
  verificationMethods : Option Json
  services : Option Json

/-- What the server answers; its errors are classified. -/
structure SourceServer where
  getRecommendedDidCredentials : Except ClaimError RecommendedCredentials
  signPlcOperation : SignPlcOperationRequest → Except ClaimError Json

/-- The recommended credentials with the device key in front. -/
def signRequest (recommended : RecommendedCredentials) (deviceKeyId token : String) :
    SignPlcOperationRequest where
  token
  rotationKeys := some (deviceKeyId :: recommended.rotationKeys.getD [])
  alsoKnownAs := recommended.alsoKnownAs
  verificationMethods := recommended.verificationMethods
  services := recommended.services

/-! ## The local checks -/

section Checks

variable (debug : String → String) (didDoc : PlcDidDocument) (deviceKeyId : String)
  (op : VerifiedPlcOp)

/-- The keys that may have signed; the device signs for an identity without rotation keys. -/
def authorizedKeys : List DidKeyUri :=
  if didDoc.rotationKeys.isEmpty then [⟨deviceKeyId⟩] else didDoc.rotationKeys.map DidKeyUri.mk

def checkFirstKey : Except ClaimError Unit :=
  check (op.rotationKeys.head? == some deviceKeyId) (.verificationFailed
    ("expected device key at rotationKeys[0], found: " ++
      debugOption debug op.rotationKeys.head?))

def checkPrev (expectedPrev : Option String) : Except ClaimError Unit :=
  check (op.prev.isSome && op.prev == expectedPrev) (.verificationFailed
    ("prev mismatch: operation has " ++ debugOption debug op.prev ++ ", expected " ++
      debugOption debug expectedPrev))

/-- The loops run over a `HashSet`, here in the order of the document. -/
def checkKeys : Except ClaimError Unit := do
  (op.rotationKeys.drop 1).forM fun key =>
    check (didDoc.rotationKeys.contains key || key == deviceKeyId)
      (.verificationFailed ("unexpected new rotation key: " ++ key))
  didDoc.rotationKeys.forM fun originalKey =>
    check (op.rotationKeys.contains originalKey)
      (.verificationFailed ("rotation key removed: " ++ originalKey))

/-- An added service is a warning, not an error. -/
def checkService (serviceId : String) (service : PlcService) : Except ClaimError Unit :=
  match didDoc.services.get? serviceId with
  | some original =>
    check (original.serviceType == service.serviceType && original.endpoint == service.endpoint)
      (.verificationFailed ("service '" ++ serviceId ++ "' was modified: " ++
        original.serviceType ++ " endpoint changed"))
  | none => .ok ()

def checkServices : Except ClaimError Unit := do
  op.services.entries.forM fun e => checkService didDoc e.1 e.2
  didDoc.services.entries.forM fun e =>
    check (op.services.get? e.1).isSome
      (.verificationFailed ("service '" ++ e.1 ++ "' was removed"))

def checkClaim (expectedPrev : Option String) : Except ClaimError Unit := do
  checkFirstKey debug deviceKeyId op
  checkPrev debug op expectedPrev
  checkKeys didDoc deviceKeyId op
  checkServices didDoc op

end Checks

/-! ## The diff and the warnings -/

/-- The services of the operation that the document has not. -/
def addedServices (didDoc : PlcDidDocument) (op : VerifiedPlcOp) : List (String × PlcService) :=
  op.services.entries.filter fun e => (didDoc.services.get? e.1).isNone

def claimDiff (didDoc : PlcDidDocument) (op : VerifiedPlcOp) : OpDiff where
  addedKeys := op.rotationKeys.filter fun k => !didDoc.rotationKeys.contains k
  removedKeys := didDoc.rotationKeys.dedup.filter fun k => !op.rotationKeys.contains k
  changedServices := (addedServices didDoc op).map fun e =>
    { id := e.1, changeType := .added, oldEndpoint := none, newEndpoint := some e.2.endpoint }
  prevCid := op.prev

def claimWarnings (didDoc : PlcDidDocument) (op : VerifiedPlcOp) : List String :=
  ((addedServices didDoc op).map fun e => "Old PDS added service: " ++ e.1) ++
    if op.alsoKnownAs.length > didDoc.alsoKnownAs.length then
      ["Old PDS added extra also_known_as entries"]
    else []

/-! ## The operation -/

section Verify

variable (crates : PlcCrates) (debug : String → String)

/-- The operation of the server with the DID of the claim and the document that was resolved. -/
def signAndVerifyClaimImpl (sources : WalletSources) (server : SourceServer) (did : String)
    (didDoc : PlcDidDocument) (deviceKeyId token : String) :
    Except ClaimError (VerifiedClaimOp × Json) := do
  let recommended ← server.getRecommendedDidCredentials
  let opValue ← server.signPlcOperation (signRequest recommended deviceKeyId token)
  let logJson ← (sources.fetchAuditLog did).mapError fun e =>
    .networkError ("fetch_audit_log failed: " ++ e)
  let auditLog ← (parseAuditLog crates logJson).mapError fun e =>
    .networkError ("parse_audit_log failed: " ++ e.text)
  let op ← (verifyPlcOperation crates (crates.printJson opValue)
    (authorizedKeys didDoc deviceKeyId)).mapError fun e =>
      .verificationFailed ("signature verification failed: " ++ e.text)
  checkClaim debug didDoc deviceKeyId op (auditLog.getLast?.map (·.cid))
  return ({ diff := claimDiff didDoc op, signedOp := opValue
            warnings := claimWarnings didDoc op }, opValue)

end Verify

/-! ## What is accepted -/

/-- The rotation keys are those of the document with the device key in front, each as often as
the server likes. -/
structure KeysClaimed (didDoc : PlcDidDocument) (deviceKeyId : String) (keys : List String) :
    Prop where
  first : keys.head? = some deviceKeyId
  mem : ∀ key, key ∈ keys ↔ key = deviceKeyId ∨ key ∈ didDoc.rotationKeys

/-- The services of the document are kept, and those that are added are shown. -/
structure ServicesKept (didDoc : PlcDidDocument) (services : StringMap PlcService)
    (verified : VerifiedClaimOp) : Prop where
  kept : ∀ id s, didDoc.services.get? id = some s → services.get? id = some s
  shown : ∀ id s, services.get? id = some s → didDoc.services.get? id = none →
    { id, changeType := .added, oldEndpoint := none, newEndpoint := some s.endpoint } ∈
      verified.diff.changedServices ∧
    "Old PDS added service: " ++ id ∈ verified.warnings

/-- The operation continues the last entry of the log. -/
def ContinuesLast (auditLog : List AuditEntry) (op : SignedPlcOp) : Prop :=
  ∃ last, auditLog.getLast? = some last ∧ op.prev = some last.cid ∧
    (last.nullified = false → latestEntry auditLog = some last)

section Accepted

variable {crates : PlcCrates} {debug : String → String} {didDoc : PlcDidDocument}
  {deviceKeyId : String} {op : VerifiedPlcOp}

theorem checkKeys_ok (hFirst : op.rotationKeys.head? = some deviceKeyId)
    (h : checkKeys didDoc deviceKeyId op = .ok ()) :
    KeysClaimed didDoc deviceKeyId op.rotationKeys := by
  obtain ⟨_, hNew, hRemoved⟩ := bind_ok.mp h
  obtain ⟨tail, hKeys⟩ := List.head?_eq_some_iff.mp hFirst
  refine ⟨hFirst, fun key => ⟨fun hKey => ?_, fun hKey => ?_⟩⟩
  · rw [hKeys] at hKey hNew
    rcases List.mem_cons.mp hKey with rfl | hKey
    · exact Or.inl rfl
    · have hCheck := check_ok.mp (forM_ok.mp hNew key hKey)
      simpa [or_comm] using hCheck
  · rcases hKey with rfl | hKey
    · exact List.mem_of_mem_head? hFirst
    · simpa using check_ok.mp (forM_ok.mp hRemoved key hKey)

theorem checkService_ok {id : String} {service original : PlcService}
    (h : checkService didDoc id service = .ok ())
    (hFound : didDoc.services.get? id = some original) : service = original := by
  rw [checkService, hFound] at h
  obtain ⟨hType, hEndpoint⟩ := Bool.and_eq_true_iff.mp (check_ok.mp h)
  cases service
  cases original
  exact congr (congrArg PlcService.mk (eq_of_beq hType).symm) (eq_of_beq hEndpoint).symm

theorem checkServices_ok (h : checkServices didDoc op = .ok ()) {id : String} {s : PlcService}
    (hFound : didDoc.services.get? id = some s) : op.services.get? id = some s := by
  obtain ⟨_, hModified, hRemoved⟩ := bind_ok.mp h
  have hKept := check_ok.mp (forM_ok.mp hRemoved (id, s) (mem_of_assocGet hFound))
  obtain ⟨service, hService⟩ := Option.isSome_iff_exists.mp hKept
  have hSame := checkService_ok (forM_ok.mp hModified (id, service) (mem_of_assocGet hService))
    hFound
  obtain rfl : service = s := hSame
  exact hService

theorem mem_addedServices {id : String} {s : PlcService} (hFound : op.services.get? id = some s)
    (hNew : didDoc.services.get? id = none) : (id, s) ∈ addedServices didDoc op :=
  List.mem_filter.mpr ⟨mem_of_assocGet hFound, by rw [hNew]; rfl⟩

/-- A key of the document signed, or the device for a document without keys. -/
def SignedByCurrentKey (crates : PlcCrates) (didDoc : PlcDidDocument) (deviceKeyId : String)
    (op : SignedPlcOp) : Prop :=
  ∃ key : DidKeyUri, ∃ sigBytes,
    (key.uri ∈ didDoc.rotationKeys ∨ didDoc.rotationKeys = [] ∧ key.uri = deviceKeyId) ∧
    crates.base64Decode op.sig = .ok sigBytes ∧
    verifySignatureWithKey crates key (PlcMessage.unsigned op.unsigned).bytes sigBytes = .ok ()

theorem mem_authorizedKeys {key : DidKeyUri} (h : key ∈ authorizedKeys didDoc deviceKeyId) :
    key.uri ∈ didDoc.rotationKeys ∨ didDoc.rotationKeys = [] ∧ key.uri = deviceKeyId := by
  unfold authorizedKeys at h
  split at h
  · rename_i hEmpty
    obtain rfl := List.mem_singleton.mp h
    exact Or.inr ⟨List.isEmpty_iff.mp hEmpty, rfl⟩
  · obtain ⟨uri, hUri, rfl⟩ := List.mem_map.mp h
    exact Or.inl hUri

theorem continuesLast_of_check {auditLog : List AuditEntry} {signed : SignedPlcOp}
    (hPrev : op.prev = signed.prev)
    (h : checkPrev debug op (auditLog.getLast?.map (·.cid)) = .ok ()) :
    ContinuesLast auditLog signed := by
  obtain ⟨hSome, hSame⟩ := Bool.and_eq_true_iff.mp (check_ok.mp h)
  have hEq : op.prev = auditLog.getLast?.map (·.cid) := eq_of_beq hSame
  cases hLast : auditLog.getLast? with
  | none =>
    rw [hEq, hLast] at hSome
    cases hSome
  | some last =>
    rw [hLast] at hEq
    refine ⟨last, hLast, hPrev.symm.trans hEq, fun hLive => ?_⟩
    obtain ⟨before, rfl⟩ := List.getLast?_eq_some_iff.mp hLast
    rw [latestEntry, List.reverse_append, List.reverse_singleton, List.singleton_append,
      List.find?_cons_of_pos (by rw [hLive]; rfl)]

variable {sources : WalletSources} {server : SourceServer} {did token : String}
  {verified : VerifiedClaimOp} {opValue : Json}

theorem claim_checked
    (hText : ∀ value, (∃ request, server.signPlcOperation request = .ok value) →
      (crates.parseJson (crates.printJson value) >>= SignedPlcOp.fromJson) =
        SignedPlcOp.fromJson value)
    (h : signAndVerifyClaimImpl crates debug sources server did didDoc deviceKeyId token =
      .ok (verified, opValue)) :
    ∃ op auditLog, SignedPlcOp.fromJson verified.signedOp = some op ∧
      (∃ json, sources.fetchAuditLog did = .ok json ∧
        parseAuditLog crates json = .ok auditLog) ∧
      SignedByCurrentKey crates didDoc deviceKeyId op ∧
      ContinuesLast auditLog op ∧
      KeysClaimed didDoc deviceKeyId op.rotationKeys ∧
      ServicesKept didDoc op.services verified ∧
      (didDoc.alsoKnownAs.length < op.alsoKnownAs.length →
        "Old PDS added extra also_known_as entries" ∈ verified.warnings) := by
  obtain ⟨recommended, _, h⟩ := bind_ok.mp h
  obtain ⟨value, hValue, h⟩ := bind_ok.mp h
  obtain ⟨json, hFetch, h⟩ := bind_ok.mp h
  obtain ⟨auditLog, hParse, h⟩ := bind_ok.mp h
  obtain ⟨verifiedOp, hVerified, h⟩ := bind_ok.mp h
  obtain ⟨_, hChecks, h⟩ := bind_ok.mp h
  cases h
  obtain ⟨op, sigBytes, hOp, hSig, ⟨key, hKey, hGood⟩, hSame⟩ :=
    verifyPlcOperation_ok (mapError_ok.mp hVerified)
  rw [hText _ ⟨_, hValue⟩] at hOp
  obtain ⟨_, hFirst, hChecks⟩ := bind_ok.mp hChecks
  obtain ⟨_, hPrev, hChecks⟩ := bind_ok.mp hChecks
  obtain ⟨_, hKeys, hServices⟩ := bind_ok.mp hChecks
  have hHead : verifiedOp.rotationKeys.head? = some deviceKeyId :=
    eq_of_beq (check_ok.mp hFirst)
  refine ⟨op, auditLog, hOp, ⟨json, mapError_ok.mp hFetch, mapError_ok.mp hParse⟩,
    ⟨key, sigBytes, mem_authorizedKeys hKey, hSig, hGood⟩,
    continuesLast_of_check hSame.prev hPrev, ?_, ⟨?_, ?_⟩, ?_⟩
  · rw [← hSame.rotationKeys]
    exact checkKeys_ok hHead hKeys
  · intro id s hFound
    rw [← hSame.services]
    exact checkServices_ok hServices hFound
  · intro id s hFound hNew
    rw [← hSame.services] at hFound
    have hAdded := mem_addedServices hFound hNew
    exact ⟨List.mem_map.mpr ⟨(id, s), hAdded, rfl⟩,
      List.mem_append_left _ (List.mem_map.mpr ⟨(id, s), hAdded, rfl⟩)⟩
  · intro hLonger
    apply List.mem_append_right
    rw [← hSame.alsoKnownAs] at hLonger
    rw [if_pos hLonger]
    exact List.mem_singleton_self _

end Accepted

/-! ## A server that adds a labeler -/

def labeledServices : StringMap PlcService :=
  takeoverOp.services.insert "atproto_labeler" ⟨"AtprotoLabeler", "https://labeler.example.org"⟩

/-- The device key comes first again, and the services are not those of the document. -/
def labeledOp : SignedPlcOp :=
  { takeoverOp with
    sig := undoOp.sig
    prev := some takeoverCid
    rotationKeys := [sampleKey.uri, serverKey]
    services := labeledServices }

def labelingServer : SourceServer where
  getRecommendedDidCredentials := .ok ⟨none, none, none, none⟩
  signPlcOperation _ := .ok (toValue labeledOp.toJson)

def takenDoc : PlcDidDocument where
  did := servedDid
  alsoKnownAs := takeoverOp.alsoKnownAs
  rotationKeys := takeoverOp.rotationKeys
  verificationMethods := .object [("atproto", .string serverKey)]
  services := takeoverOp.services

def claimCrates : PlcCrates :=
  overrideCrates [toValue labeledOp.toJson, servedLog takenLog]

def labeledState : VerifiedPlcOp where
  did := none
  cid := computeCid claimCrates (PlcMessage.signed labeledOp).bytes
  prev := some takeoverCid
  rotationKeys := labeledOp.rotationKeys
  alsoKnownAs := labeledOp.alsoKnownAs
  verificationMethods := labeledOp.verificationMethods
  services := labeledOp.services

def labeledClaim : VerifiedClaimOp where
  diff := claimDiff takenDoc labeledState
  signedOp := toValue labeledOp.toJson
  warnings := claimWarnings takenDoc labeledState

theorem labeledOp_read : claimCrates.parseJson (printPlain (toValue labeledOp.toJson)) =
    some (toValue labeledOp.toJson) :=
  @overrideCrates_reads _ [] _ _ rfl (by simp)

theorem takenLog_served : parseAuditLog claimCrates (printPlain (servedLog takenLog)) =
    .ok (takenLog.map Served.entry) := by
  apply servedLog_parsed
  refine @overrideCrates_reads _ [_] _ _ rfl fun d hd => ?_
  obtain rfl := List.mem_singleton.mp hd
  rw [toValue_toJson]
  exact object_ne_array _ _

theorem labeledOp_verified : verifyPlcOperation claimCrates
    (printPlain (toValue labeledOp.toJson)) [⟨serverKey⟩] = .ok labeledState := by
  have hSig : decodeSig claimCrates labeledOp = .ok undoSig := rfl
  exact bind_ok.mpr ⟨(), rfl, bind_ok.mpr ⟨labeledOp, parseSignedOp_of_read labeledOp_read,
    bind_ok.mpr ⟨(), rfl, bind_ok.mpr ⟨undoSig, hSig, bind_ok.mpr ⟨(), rfl, rfl⟩⟩⟩⟩⟩

theorem labeledClaim_checks :
    checkClaim id takenDoc sampleKey.uri labeledState (some takeoverCid) = .ok () := by
  have hFirst : checkFirstKey id sampleKey.uri labeledState = .ok () :=
    check_ok.mpr (beq_self_eq_true _)
  have hPrev : checkPrev id labeledState (some takeoverCid) = .ok () :=
    check_ok.mpr (beq_self_eq_true _)
  exact bind_ok.mpr ⟨(), hFirst, bind_ok.mpr ⟨(), hPrev, by rfl⟩⟩

theorem labeledClaim_accepted :
    signAndVerifyClaimImpl claimCrates id (overrideSources takenLog) labelingServer servedDid
      takenDoc sampleKey.uri "otp" = .ok (labeledClaim, labeledClaim.signedOp) := by
  refine bind_ok.mpr ⟨_, rfl, bind_ok.mpr ⟨_, rfl, bind_ok.mpr ⟨_, rfl, ?_⟩⟩⟩
  refine bind_ok.mpr ⟨_, mapError_ok.mpr takenLog_served, ?_⟩
  refine bind_ok.mpr ⟨_, mapError_ok.mpr labeledOp_verified, ?_⟩
  exact bind_ok.mpr ⟨(), labeledClaim_checks, rfl⟩

theorem claim_checked_labeled :
    SignedPlcOp.fromJson labeledClaim.signedOp = some labeledOp ∧
      SignedByCurrentKey claimCrates takenDoc sampleKey.uri labeledOp ∧
      KeysClaimed takenDoc sampleKey.uri labeledOp.rotationKeys ∧
      ServicesKept takenDoc labeledOp.services labeledClaim := by
  have hOp : SignedPlcOp.fromJson (toValue labeledOp.toJson) = some labeledOp :=
    fromJson_toValue labeledOp
  have hText : ∀ value,
      (∃ request, labelingServer.signPlcOperation request = .ok value) →
        (claimCrates.parseJson (claimCrates.printJson value) >>= SignedPlcOp.fromJson) =
          SignedPlcOp.fromJson value := by
    rintro value ⟨request, hValue⟩
    obtain rfl := Except.ok.inj hValue
    exact congrArg (· >>= SignedPlcOp.fromJson) labeledOp_read
  obtain ⟨op, auditLog, hRead, -, hSigned, -, hKeys, hServices, -⟩ :=
    claim_checked hText labeledClaim_accepted
  obtain rfl : labeledOp = op := Option.some.inj (hOp.symm.trans hRead)
  exact ⟨hOp, hSigned, hKeys, hServices⟩

/-- The document is the state of the newest entry, and the services are not kept as they are. -/
theorem labeler_accepted :
    ∃ latest op, latestEntry (takenLog.map Served.entry) = some latest ∧
      SignedPlcOp.fromJson latest.operation = some takeoverOp ∧
      takenDoc.rotationKeys = takeoverOp.rotationKeys ∧
      takenDoc.alsoKnownAs = takeoverOp.alsoKnownAs ∧
      takenDoc.services = takeoverOp.services ∧
      signAndVerifyClaimImpl claimCrates id (overrideSources takenLog) labelingServer servedDid
        takenDoc sampleKey.uri "otp" = .ok (labeledClaim, labeledClaim.signedOp) ∧
      SignedPlcOp.fromJson labeledClaim.signedOp = some op ∧
      op.services ≠ takenDoc.services := by
  refine ⟨_, labeledOp, rfl, fromJson_toValue takeoverOp, rfl, rfl, rfl, labeledClaim_accepted,
    fromJson_toValue labeledOp, fun hSame => ?_⟩
  have hLabeler := congrArg (fun services => services.get? "atproto_labeler") hSame
  cases hLabeler

end Ezpds.Wallet
