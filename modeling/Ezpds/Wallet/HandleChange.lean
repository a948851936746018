import Ezpds.Wallet.SignedOperation

/-!
# Changing a handle

The wallet replaces the handle among the aliases of an identity, and signs the state with the
new aliases as the successor of the newest operation. A guard compares the proposed operation
with the current one before the device key signs.

* `buildHandleOp_ok`: a run that builds an operation, step by step.
* `buildHandleOp_settled`: nothing is built when the aliases are already the proposed ones.
-/

namespace Ezpds.Wallet

open Library Crypto

/-! ## Errors -/

inductive HandleChangeError where
  | walletNotAuthorized
  | rateLimited (retryAfter : Option String)
  | guardRejected (reason : String)
  | invalidAuditLog (message : String)
  | signingFailed (message : String)
  | plcDirectoryError (message : String)
  | networkError (message : String)
  | identityNotFound (message : String)
  deriving DecidableEq, Repr

/-- How the directory fails to serve an audit log. -/
inductive PlcFetchError where
  | rateLimited (retryAfter : Option String)
  | xrpcError (status : Nat) (message : String)
  | unauthorized (message : String)
  | other (text : String)
  deriving DecidableEq, Repr

/-- Each flow has errors of its own for the three outcomes. -/
def mapPlcFetchError {ε : Type} (rateLimited : Option String → ε)
    (plcDirectoryError networkError : String → ε) (context : String) : PlcFetchError → ε
  | .rateLimited retryAfter => rateLimited retryAfter
  | .xrpcError status message =>
    plcDirectoryError (context ++ ": plc.directory returned HTTP " ++ toString status ++ ": " ++
      message)
  | .unauthorized message =>
    plcDirectoryError (context ++ ": plc.directory returned HTTP 401: " ++ message)
  | .other text => networkError (context ++ ": " ++ text)

structure PlcSources where
  fetchAuditLog : String → Except PlcFetchError String
  getOrCreateDeviceKey : String → Except String String
  perDidSignClosure : String → Except PerDidSignError Signer

/-! ## The guard -/

structure HandleChangeInputs where
  deviceKeyId : String
  currentRotationKeys : List String
  proposedRotationKeys : List String
  currentVerificationMethods : StringMap String
  proposedVerificationMethods : StringMap String
  currentServices : StringMap PlcService
  proposedServices : StringMap PlcService
  proposedAlsoKnownAs : List String

def guardHandleChange (inputs : HandleChangeInputs) : Except HandleChangeError Unit := do
  check (inputs.currentRotationKeys.contains inputs.deviceKeyId) .walletNotAuthorized
  check (inputs.proposedRotationKeys == inputs.currentRotationKeys)
    (.guardRejected "rotationKeys must be preserved across a handle change")
  check (decide (inputs.proposedVerificationMethods = inputs.currentVerificationMethods))
    (.guardRejected "verificationMethods must be preserved across a handle change")
  check (decide (inputs.proposedServices = inputs.currentServices))
    (.guardRejected "services must be preserved across a handle change")
  check (!inputs.proposedAlsoKnownAs.isEmpty) (.guardRejected "alsoKnownAs must not be empty")

/-! ## The aliases -/

def HANDLE_AKA_PREFIX : String := "at://"

def isHandleAlias (aka : String) : Bool :=
  HANDLE_AKA_PREFIX.toList.isPrefixOf aka.toList

def computeNewAlsoKnownAs (current : List String) (newHandle : String) : List String :=
  (HANDLE_AKA_PREFIX ++ newHandle) :: current.filter fun aka => !isHandleAlias aka

theorem isHandleAlias_handle (handle : String) :
    isHandleAlias (HANDLE_AKA_PREFIX ++ handle) = true := by
  rw [isHandleAlias, String.toList_append, List.isPrefixOf_iff_prefix]
  exact List.prefix_append _ _

/-- The other aliases come after the handle, and keep their order. -/
theorem filter_computeNewAlsoKnownAs (current : List String) (newHandle : String) :
    (computeNewAlsoKnownAs current newHandle).filter (fun aka => !isHandleAlias aka) =
      current.filter fun aka => !isHandleAlias aka := by
  rw [computeNewAlsoKnownAs, List.filter_cons_of_neg (by simp [isHandleAlias_handle]),
    List.filter_filter]
  simp only [Bool.and_self]

theorem computeNewAlsoKnownAs_idem (current : List String) (newHandle : String) :
    computeNewAlsoKnownAs (computeNewAlsoKnownAs current newHandle) newHandle =
      computeNewAlsoKnownAs current newHandle := by
  show _ :: _ = _ :: _
  rw [filter_computeNewAlsoKnownAs]

/-! ## The builder -/

structure SignedHandleOp where
  signedOp : Json
  opCid : String

section Build

variable (crates : PlcCrates) (sources : PlcSources)

def handleChangeInputs (deviceKeyId : String) (current : CurrentHandleState)
    (proposedAlsoKnownAs : List String) : HandleChangeInputs where
  deviceKeyId
  currentRotationKeys := current.rotationKeys
  proposedRotationKeys := current.rotationKeys
  currentVerificationMethods := current.verificationMethods
  proposedVerificationMethods := current.verificationMethods
  currentServices := current.services
  proposedServices := current.services
  proposedAlsoKnownAs

/-- Nothing is built when the aliases are already the proposed ones. -/
def buildHandleOp (did newHandle : String) :
    Except HandleChangeError (Option SignedHandleOp) := do
  let deviceKeyId ← (sources.getOrCreateDeviceKey did).mapError fun e =>
    .identityNotFound ("failed to get device key: " ++ e)
  let logJson ← (sources.fetchAuditLog did).mapError
    (mapPlcFetchError .rateLimited .plcDirectoryError .networkError "failed to fetch audit log")
  let auditLog ← (parseAuditLog crates logJson).mapError fun e =>
    .invalidAuditLog ("failed to parse audit log: " ++ e.text)
  let current ← (latestFullState auditLog).mapError HandleChangeError.invalidAuditLog
  let proposedAlsoKnownAs := computeNewAlsoKnownAs current.alsoKnownAs newHandle
  if proposedAlsoKnownAs = current.alsoKnownAs then return none
  guardHandleChange (handleChangeInputs deviceKeyId current proposedAlsoKnownAs)
  let signed ← signState crates .identityNotFound .signingFailed "rotation"
    (sources.perDidSignClosure did) { current with alsoKnownAs := proposedAlsoKnownAs }
  return some { signedOp := signed.2, opCid := signed.1.cid }

/-- The log that the directory serves for an identity. -/
def Serves (did : String) (auditLog : List AuditEntry) : Prop :=
  ∃ json, sources.fetchAuditLog did = .ok json ∧ parseAuditLog crates json = .ok auditLog

end Build

section

variable {crates : PlcCrates} {sources : PlcSources} {did newHandle : String}
  {auditLog : List AuditEntry} {current : CurrentHandleState}

theorem Serves.unique {auditLog' : List AuditEntry} (h : Serves crates sources did auditLog)
    (h' : Serves crates sources did auditLog') : auditLog = auditLog' := by
  obtain ⟨json, hFetch, hParse⟩ := h
  obtain ⟨json', hFetch', hParse'⟩ := h'
  obtain rfl : json = json' := Except.ok.inj (hFetch.symm.trans hFetch')
  exact Except.ok.inj (hParse.symm.trans hParse')

theorem buildHandleOp_ok {built : SignedHandleOp}
    (h : buildHandleOp crates sources did newHandle = .ok (some built)) :
    ∃ auditLog current deviceKeyId, Serves crates sources did auditLog ∧
      latestFullState auditLog = .ok current ∧
      let state : CurrentHandleState := { current with
        alsoKnownAs := computeNewAlsoKnownAs current.alsoKnownAs newHandle }
      guardHandleChange (handleChangeInputs deviceKeyId current state.alsoKnownAs) = .ok () ∧
      ∃ signed, signState crates HandleChangeError.identityNotFound .signingFailed "rotation"
        (sources.perDidSignClosure did) state = .ok (signed, built.signedOp) ∧
        built.opCid = signed.cid := by
  obtain ⟨deviceKeyId, _, h⟩ := bind_ok.mp h
  obtain ⟨json, hFetch, h⟩ := bind_ok.mp h
  obtain ⟨auditLog, hParse, h⟩ := bind_ok.mp h
  obtain ⟨current, hCurrent, h⟩ := bind_ok.mp h
  dsimp only at h
  split at h
  · cases h
  · obtain ⟨_, hGuard, h⟩ := bind_ok.mp h
    obtain ⟨signed, hSigned, h⟩ := bind_ok.mp h
    cases h
    exact ⟨auditLog, current, deviceKeyId, ⟨json, mapError_ok.mp hFetch, mapError_ok.mp hParse⟩,
      mapError_ok.mp hCurrent, hGuard, signed.1, hSigned, rfl⟩

theorem buildHandleOp_settled (hDevice : ∃ key, sources.getOrCreateDeviceKey did = .ok key)
    (hLog : Serves crates sources did auditLog) (hCurrent : latestFullState auditLog = .ok current)
    (hAliases : computeNewAlsoKnownAs current.alsoKnownAs newHandle = current.alsoKnownAs) :
    buildHandleOp crates sources did newHandle = .ok none := by
  obtain ⟨key, hKey⟩ := hDevice
  obtain ⟨json, hFetch, hParse⟩ := hLog
  refine bind_ok.mpr ⟨key, mapError_ok.mpr hKey, ?_⟩
  refine bind_ok.mpr ⟨json, mapError_ok.mpr hFetch, ?_⟩
  refine bind_ok.mpr ⟨auditLog, mapError_ok.mpr hParse, ?_⟩
  refine bind_ok.mpr ⟨current, mapError_ok.mpr hCurrent, ?_⟩
  exact if_pos hAliases

/-! ## What a change of handle changes -/

/-- The handle comes first and is the only one, and the other aliases are kept in order. -/
structure HandleReplaced (newHandle : String) (before after : List String) : Prop where
  first : after.head? = some (HANDLE_AKA_PREFIX ++ newHandle)
  only : ∀ aka ∈ after.tail, isHandleAlias aka = false
  others : (after.filter fun aka => !isHandleAlias aka) =
    before.filter fun aka => !isHandleAlias aka

/-- The operation continues the newest entry and sets its state with the new handle; where it is
the newest one, the same change builds nothing. -/
structure ChangesHandleOnly (crates : PlcCrates) (did newHandle : String) (latest : AuditEntry)
    (current : CurrentHandleState) (signedOp : Json) : Prop where
  states : States latest.operation current
  prev : member signedOp "prev" = some (.string latest.cid)
  changed : ∃ aliases, HandleReplaced newHandle current.alsoKnownAs aliases ∧
    States signedOp { current with alsoKnownAs := aliases }
  settled : ∀ (sources : PlcSources) (auditLog : List AuditEntry) (entry : AuditEntry),
    (∃ key, sources.getOrCreateDeviceKey did = .ok key) → Serves crates sources did auditLog →
      latestEntry auditLog = some entry → entry.operation = signedOp →
      buildHandleOp crates sources did newHandle = .ok none

theorem handleReplaced_computeNewAlsoKnownAs (current : List String) (newHandle : String) :
    HandleReplaced newHandle current (computeNewAlsoKnownAs current newHandle) where
  first := rfl
  only := by
    intro aka hAlias
    simpa using (List.mem_filter.mp hAlias).2
  others := filter_computeNewAlsoKnownAs current newHandle

theorem buildHandleOp_changes {built : SignedHandleOp}
    (h : buildHandleOp crates sources did newHandle = .ok (some built))
    (hLog : Serves crates sources did auditLog)
    (hReads : ∀ current, latestFullState auditLog = .ok current → ReadsBack crates
      { current with alsoKnownAs := computeNewAlsoKnownAs current.alsoKnownAs newHandle }) :
    ∃ latest current, latestEntry auditLog = some latest ∧
      ChangesHandleOnly crates did newHandle latest current built.signedOp := by
  obtain ⟨auditLog', current, _, hLog', hCurrent, _, signed, hSigned, _⟩ := buildHandleOp_ok h
  obtain rfl := hLog.unique hLog'
  obtain ⟨hPrev, hStates⟩ := signState_states hSigned (hReads current hCurrent)
  obtain ⟨latest, hLatest, hCid, hKeys, hOld⟩ := latestFullState_iff.mp hCurrent
  refine ⟨latest, current, hLatest, hOld, hCid ▸ hPrev,
    ⟨_, handleReplaced_computeNewAlsoKnownAs _ _, hStates⟩, ?_⟩
  intro sources' auditLog' entry hDevice hServes hEntry hOp
  -- The new state is read back from the entry, under the CID of the entry.
  have hNew : latestFullState auditLog' = .ok { current with
      prevCid := entry.cid
      alsoKnownAs := computeNewAlsoKnownAs current.alsoKnownAs newHandle } := by
    apply latestFullState_iff.mpr
    rw [← hOp] at hStates
    exact ⟨entry, hEntry, rfl, hKeys, hStates.rotationKeys, hStates.alsoKnownAs,
      hStates.verificationMethods, hStates.services⟩
  exact buildHandleOp_settled hDevice hServes hNew (computeNewAlsoKnownAs_idem _ _)

end

end Ezpds.Wallet
