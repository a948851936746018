import Ezpds.Auth.ScopeGrammar
import Ezpds.Library.Except
import Ezpds.Library.Parties
import Ezpds.Library.Run
import Ezpds.Oauth.TokenStore

/-!
# The token endpoint

`POST /oauth/token` with an authorization code or a refresh token, and `POST /oauth/revoke`,
any number of requests at once. Every step is one database statement, or the arrival of a
request up to its first statement on the two tables; the pool has a single connection, so
statements do not overlap. A request is at the index at which it arrived. It may end
wherever it is: it is dropped, or a statement or a signature fails.

The hashes of `generate_token` are drawn by the environment, and none is drawn twice.

* `State.step`: the machine; `State.consumeCode_some` and its siblings: what a step that is
  taken reads and writes.
* `State.log` and `State.stored`: no tables, but the memory of what was granted, revoked and
  inserted.
-/

namespace Ezpds.Oauth

open Library

/-! ## Requests -/

structure OAuthTokenError where
  error : String
  errorDescription : String
  deriving DecidableEq, Repr

structure TokenRequestForm where
  code : Option String
  redirectUri : Option String
  clientId : Option String
  codeVerifier : Option String
  refreshToken : Option String
  deriving DecidableEq

/-- A request as it arrives: its form, and what client authentication and the DPoP proof
come to (the thumbprint of the proof's key). -/
structure TokenRequest where
  form : TokenRequestForm
  clientAuth : Except OAuthTokenError Unit
  dpop : Except OAuthTokenError String

structure RevokeRequest where
  token : Option String
  clientId : Option String
  dpop : Except OAuthTokenError String

/-- The functions of other crates, and the case table of `eq_ignore_ascii_case`. -/
structure Externals where
  decodeUrlSafe : String → Option (List UInt8)
  sha256Hex : List UInt8 → String
  /-- `URL_SAFE_NO_PAD.encode(Sha256::digest(..))` on the bytes of a text. -/
  s256 : String → String
  caseTable : CaseTable

def require (field : Option String) (name : String) : Except OAuthTokenError String :=
  match field.filter (· ≠ "") with
  | some value => .ok value
  | none => .error ⟨"invalid_request", "missing parameter: " ++ name⟩

def codeInvalid : OAuthTokenError :=
  ⟨"invalid_grant", "authorization code invalid or expired"⟩

def tokenInvalid : OAuthTokenError :=
  ⟨"invalid_grant", "refresh token not found or expired"⟩

/-- Bytes, as `len` counts them: a verifier with another character fails either way. -/
def isCodeVerifier (verifier : String) : Bool :=
  43 ≤ verifier.utf8ByteSize && verifier.utf8ByteSize ≤ 128 &&
    verifier.toList.all fun c =>
      c.isAlphanum || c == '-' || c == '.' || c == '_' || c == '~'

def verifierInvalid : OAuthTokenError :=
  ⟨"invalid_grant", "code_verifier must be 43–128 unreserved characters [A-Za-z0-9-._~]"⟩

structure CodeRequest where
  codeHash : String
  clientId : String
  redirectUri : String
  codeVerifier : String
  jkt : String
  deriving DecidableEq

structure RefreshRequest where
  tokenHash : String
  clientId : String
  jkt : String
  deriving DecidableEq

section Admission

variable (ext : Externals)

/-- The hash of a presented code or token. -/
def presentedHash (error : OAuthTokenError) (text : String) : Except OAuthTokenError String :=
  match ext.decodeUrlSafe text with
  | some bytes => .ok (ext.sha256Hex bytes)
  | none => .error error

/-- `handle_authorization_code`, up to its lookup. -/
def admitCode (request : TokenRequest) : Except OAuthTokenError CodeRequest := do
  let code ← require request.form.code "code"
  let redirectUri ← require request.form.redirectUri "redirect_uri"
  let clientId ← require request.form.clientId "client_id"
  request.clientAuth
  let codeVerifier ← require request.form.codeVerifier "code_verifier"
  check (isCodeVerifier codeVerifier) verifierInvalid
  let jkt ← request.dpop
  let codeHash ← presentedHash ext codeInvalid code
  return { codeHash, clientId, redirectUri, codeVerifier, jkt }

/-- The checks between the lookup of a code and its deletion. -/
def checkCode (request : CodeRequest) (row : AuthCodeRow) : Except OAuthTokenError Unit := do
  check (row.clientId == request.clientId) ⟨"invalid_grant", "client_id mismatch"⟩
  check (row.redirectUri == request.redirectUri) ⟨"invalid_grant", "redirect_uri mismatch"⟩
  check (row.codeChallengeMethod == "S256")
    ⟨"invalid_request", "unsupported code_challenge_method"⟩
  check (ext.s256 request.codeVerifier == row.codeChallenge)
    ⟨"invalid_grant", "code_verifier does not match code_challenge"⟩
  check (row.dpopJkt.all (· == request.jkt))
    ⟨"invalid_grant", "authorization code is bound to a different DPoP key"⟩

/-- `handle_refresh_token`, up to its lookup. -/
def admitRefresh (request : TokenRequest) : Except OAuthTokenError RefreshRequest := do
  let refreshToken ← require request.form.refreshToken "refresh_token"
  let clientId ← require request.form.clientId "client_id"
  request.clientAuth
  let jkt ← request.dpop
  let tokenHash ← presentedHash ext tokenInvalid refreshToken
  return { tokenHash, clientId, jkt }

/-- The checks after the lookup of a refresh token. A token without a key is refused. -/
def checkRefresh (request : RefreshRequest) (row : RefreshTokenRow) :
    Except OAuthTokenError Unit := do
  check (row.clientId == request.clientId) ⟨"invalid_grant", "client_id mismatch"⟩
  check row.jkt.isSome tokenInvalid
  check (row.jkt == some request.jkt) ⟨"invalid_grant", "DPoP key mismatch"⟩

def isAtprotoOauthScope (scope : String) : Bool :=
  (Auth.normalizeScopeRequest ext.caseTable scope).isOk

def grantedScope (scope : String) : String :=
  if isAtprotoOauthScope ext scope then scope else "atproto"

theorem isAtprotoOauthScope_atproto : isAtprotoOauthScope ext "atproto" = true := by
  have hTokens : Auth.scopeTokens "atproto" = ["atproto".toList] := by decide +kernel
  have hStatic : Auth.normalizeToken ext.caseTable "atproto".toList = some "atproto" := by
    rw [Auth.normalizeToken, if_pos (by decide +kernel)]
    decide +kernel
  rw [isAtprotoOauthScope, Auth.normalizeScopeRequest, hTokens]
  simp only [List.mapM_cons, List.mapM_nil, Auth.normalizeRequestToken, hStatic]
  rfl

/-- What a rotated token grants is what the presented one granted. -/
theorem grantedScope_grantedScope (scope : String) :
    grantedScope ext (grantedScope ext scope) = grantedScope ext scope := by
  cases hScope : isAtprotoOauthScope ext scope with
  | true => simp only [grantedScope, hScope, if_true]
  | false => simp [grantedScope, hScope, isAtprotoOauthScope_atproto]

end Admission

/-! ## The machine -/

inductive Phase where
  /-- The code was found and accepted; its deletion is next. -/
  | consuming (request : CodeRequest) (row : AuthCodeRow)
  | storingInitial (request : CodeRequest) (row : AuthCodeRow)
  /-- The token was found current; `supersede_oauth_refresh_token` is next. -/
  | superseding (request : RefreshRequest) (row : RefreshTokenRow)
  | storingRotated (request : RefreshRequest) (row : RefreshTokenRow)
  | revoking (sessionId : String)
  | granted (token : StoredToken)
  | refused (error : OAuthTokenError)
  | ended
  deriving DecidableEq

/-- What happened, in the order of the statements that did it. -/
inductive Event where
  | exchanged (code : String) (token : StoredToken)
  | rotated (presented : String) (token : StoredToken)
  | revoked (sessionId : String)
  deriving DecidableEq

structure State where
  codes : List StoredAuthCode
  tokens : List StoredToken
  requests : List Phase
  /-- Newest first. -/
  log : List Event
  /-- Every token that was ever in the table, as it was inserted. -/
  stored : List StoredToken
  issuedCodes : List String

inductive Label where
  | issueCode (code : String) (row : AuthCodeRow) (now : Nat)
  | presentCode (request : TokenRequest) (now : Nat)
  | consumeCode (i : Nat)
  | storeInitial (i : Nat) (tokenHash : String) (now : Nat)
  | presentRefresh (request : TokenRequest) (now : Nat)
  | supersede (i : Nat) (now : Nat)
  | storeRotated (i : Nat) (tokenHash : String)
  | presentRevocation (request : RevokeRequest) (now : Nat)
  | revokeFamily (i : Nat)
  | cleanupExpired (now : Nat)
  | endRequest (i : Nat)

namespace State

/-- The tables as the requests find them. -/
def opened (codes : List StoredAuthCode) (tokens : List StoredToken) : State where
  codes := codes
  tokens := tokens
  requests := []
  log := []
  stored := tokens
  issuedCodes := codes.map StoredAuthCode.code

def arrive (s : State) (phase : Phase) : State :=
  { s with requests := s.requests ++ [phase] }

def isFresh (s : State) (tokenHash : String) : Bool :=
  s.stored.all fun token => token.id ≠ tokenHash ∧ token.family ≠ tokenHash

/-- The end of a consent: `store_authorization_code`. -/
def issueCode (s : State) (code : String) (row : AuthCodeRow) (now : Nat) : Option State :=
  if code ∈ s.issuedCodes then none
  else
    some { s with
      codes := storeAuthorizationCode s.codes code row now
      issuedCodes := code :: s.issuedCodes }

/-- From the arrival of an exchange to the deletion of its code. -/
def redeem (ext : Externals) (s : State) (request : TokenRequest) (now : Nat) :
    Except OAuthTokenError (CodeRequest × AuthCodeRow) := do
  let admitted ← admitCode ext request
  match getAuthorizationCode s.codes admitted.codeHash now with
  | some row =>
    checkCode ext admitted row
    return (admitted, row)
  | none => .error codeInvalid

def presentCode (ext : Externals) (s : State) (request : TokenRequest) (now : Nat) : State :=
  match s.redeem ext request now with
  | .ok (admitted, row) => s.arrive (.consuming admitted row)
  | .error e => s.arrive (.refused e)

/-- `delete_authorization_code` does not say whether there was a code to delete. -/
def consumeCode (s : State) (i : Nat) : Option State :=
  match s.requests[i]? with
  | some (.consuming request row) =>
    some { s with
      codes := deleteAuthorizationCode s.codes request.codeHash
      requests := s.requests.set i (.storingInitial request row) }
  | _ => none

def storeInitial (s : State) (i : Nat) (tokenHash : String) (now : Nat) : Option State :=
  match s.requests[i]? with
  | some (.storingInitial request row) =>
    if s.isFresh tokenHash then
      let token := initialToken tokenHash row.clientId row.did row.scope request.jkt now
      some { s with
        tokens := s.tokens ++ [token]
        requests := s.requests.set i (.granted token)
        log := .exchanged request.codeHash token :: s.log
        stored := s.stored ++ [token] }
    else none
  | _ => none

def lookupRefresh (ext : Externals) (s : State) (request : TokenRequest) (now : Nat) :
    Except OAuthTokenError (RefreshRequest × RefreshTokenRow) := do
  let admitted ← admitRefresh ext request
  match getOauthRefreshToken s.tokens admitted.tokenHash now with
  | some row =>
    checkRefresh admitted row
    return (admitted, row)
  | none => .error tokenInvalid

/-- A current token rotates, and so does a superseded one within its grace; after it the
family is revoked. -/
def refreshPhase (request : RefreshRequest) (row : RefreshTokenRow) : Phase :=
  match row.supersededWithinGrace with
  | none => .superseding request row
  | some true => .storingRotated request row
  | some false => .revoking row.sessionId

def presentRefresh (ext : Externals) (s : State) (request : TokenRequest) (now : Nat) : State :=
  match s.lookupRefresh ext request now with
  | .ok (admitted, row) => s.arrive (refreshPhase admitted row)
  | .error e => s.arrive (.refused e)

/-- `Ok(_) => {}`: whether a row was superseded is not looked at. -/
def supersede (s : State) (i : Nat) (now : Nat) : Option State :=
  match s.requests[i]? with
  | some (.superseding request row) =>
    some { s with
      tokens := (supersedeOauthRefreshToken s.tokens request.tokenHash now).1
      requests := s.requests.set i (.storingRotated request row) }
  | _ => none

def storeRotated (ext : Externals) (s : State) (i : Nat) (tokenHash : String) : Option State :=
  match s.requests[i]? with
  | some (.storingRotated request row) =>
    if s.isFresh tokenHash then
      let token := rotatedToken tokenHash row.clientId row.did (grantedScope ext row.scope)
        request.jkt row.sessionId row.expiresAt
      some { s with
        tokens := s.tokens ++ [token]
        requests := s.requests.set i (.granted token)
        log := .rotated request.tokenHash token :: s.log
        stored := s.stored ++ [token] }
    else none
  | _ => none

/-- The token of a revocation, for its owner: the key that it is bound to, and its client
where the request names one. -/
def revocable (s : State) (tokenHash : String) (clientId : Option String) (jkt : String)
    (now : Nat) : Option RefreshTokenRow :=
  (getOauthRefreshToken s.tokens tokenHash now).filter fun row =>
    row.jkt == some jkt && clientId.all (· == row.clientId)

def presentRevocation (ext : Externals) (s : State) (request : RevokeRequest) (now : Nat) :
    State :=
  match require request.token "token", request.dpop with
  | .error e, _ => s.arrive (.refused e)
  | .ok _, .error e => s.arrive (.refused e)
  | .ok token, .ok jkt =>
    match (ext.decodeUrlSafe token).bind fun bytes =>
      s.revocable (ext.sha256Hex bytes) request.clientId jkt now with
    | some row => s.arrive (.revoking row.sessionId)
    | none => s.arrive .ended

/-- `delete_oauth_refresh_session`, after a replay and for a revocation alike. -/
def revokeFamily (s : State) (i : Nat) : Option State :=
  match s.requests[i]? with
  | some (.revoking sessionId) =>
    some { s with
      tokens := deleteOauthRefreshSession s.tokens sessionId
      requests := s.requests.set i .ended
      log := .revoked sessionId :: s.log }
  | _ => none

def cleanupExpired (s : State) (now : Nat) : State :=
  { s with
    codes := cleanupExpiredAuthCodes s.codes now
    tokens := cleanupExpiredRefreshTokens s.tokens now }

def endRequest (s : State) (i : Nat) : Option State :=
  match s.requests[i]? with
  | some _ => some { s with requests := s.requests.set i .ended }
  | none => none

def step (ext : Externals) (s : State) : Label → Option State
  | .issueCode code row now => s.issueCode code row now
  | .presentCode request now => some (s.presentCode ext request now)
  | .consumeCode i => s.consumeCode i
  | .storeInitial i tokenHash now => s.storeInitial i tokenHash now
  | .presentRefresh request now => some (s.presentRefresh ext request now)
  | .supersede i now => s.supersede i now
  | .storeRotated i tokenHash => s.storeRotated ext i tokenHash
  | .presentRevocation request now => some (s.presentRevocation ext request now)
  | .revokeFamily i => s.revokeFamily i
  | .cleanupExpired now => some (s.cleanupExpired now)
  | .endRequest i => s.endRequest i

/-! ## What a step does -/

variable {ext : Externals} {s t : State} {code tokenHash : String} {i now : Nat}

theorem issueCode_some {row : AuthCodeRow} (h : s.issueCode code row now = some t) :
    code ∉ s.issuedCodes ∧ t = { s with
      codes := storeAuthorizationCode s.codes code row now
      issuedCodes := code :: s.issuedCodes } := by
  rw [issueCode] at h
  split at h
  · cases h
  · rename_i hNew
    exact ⟨hNew, (Option.some.inj h).symm⟩

theorem consumeCode_some (h : s.consumeCode i = some t) :
    ∃ request row, s.requests[i]? = some (.consuming request row) ∧ t = { s with
      codes := deleteAuthorizationCode s.codes request.codeHash
      requests := s.requests.set i (.storingInitial request row) } := by
  rw [consumeCode] at h
  split at h
  · rename_i request row hPhase
    exact ⟨request, row, hPhase, (Option.some.inj h).symm⟩
  · cases h

theorem storeInitial_some (h : s.storeInitial i tokenHash now = some t) :
    ∃ request row token, s.requests[i]? = some (.storingInitial request row) ∧
      s.isFresh tokenHash ∧
      token = initialToken tokenHash row.clientId row.did row.scope request.jkt now ∧
      t = { s with
        tokens := s.tokens ++ [token]
        requests := s.requests.set i (.granted token)
        log := .exchanged request.codeHash token :: s.log
        stored := s.stored ++ [token] } := by
  rw [storeInitial] at h
  split at h
  · rename_i request row hPhase
    split at h
    · rename_i hFresh
      exact ⟨request, row, _, hPhase, hFresh, rfl, (Option.some.inj h).symm⟩
    · cases h
  · cases h

theorem supersede_some (h : s.supersede i now = some t) :
    ∃ request row, s.requests[i]? = some (.superseding request row) ∧ t = { s with
      tokens := (supersedeOauthRefreshToken s.tokens request.tokenHash now).1
      requests := s.requests.set i (.storingRotated request row) } := by
  rw [supersede] at h
  split at h
  · rename_i request row hPhase
    exact ⟨request, row, hPhase, (Option.some.inj h).symm⟩
  · cases h

theorem storeRotated_some (h : s.storeRotated ext i tokenHash = some t) :
    ∃ request row token, s.requests[i]? = some (.storingRotated request row) ∧
      s.isFresh tokenHash ∧
      token = rotatedToken tokenHash row.clientId row.did (grantedScope ext row.scope)
        request.jkt row.sessionId row.expiresAt ∧
      t = { s with
        tokens := s.tokens ++ [token]
        requests := s.requests.set i (.granted token)
        log := .rotated request.tokenHash token :: s.log
        stored := s.stored ++ [token] } := by
  rw [storeRotated] at h
  split at h
  · rename_i request row hPhase
    split at h
    · rename_i hFresh
      exact ⟨request, row, _, hPhase, hFresh, rfl, (Option.some.inj h).symm⟩
    · cases h
  · cases h

theorem revokeFamily_some (h : s.revokeFamily i = some t) :
    ∃ sessionId, s.requests[i]? = some (.revoking sessionId) ∧ t = { s with
      tokens := deleteOauthRefreshSession s.tokens sessionId
      requests := s.requests.set i .ended
      log := .revoked sessionId :: s.log } := by
  rw [revokeFamily] at h
  split at h
  · rename_i sessionId hPhase
    exact ⟨sessionId, hPhase, (Option.some.inj h).symm⟩
  · cases h

theorem endRequest_some (h : s.endRequest i = some t) :
    ∃ phase, s.requests[i]? = some phase ∧
      t = { s with requests := s.requests.set i .ended } := by
  rw [endRequest] at h
  split at h
  · rename_i phase hPhase
    exact ⟨phase, hPhase, (Option.some.inj h).symm⟩
  · cases h

end State

/-! ## A setting for runs -/

/-- The real functions on the bytes of `test` and `tok`, and on one verifier. -/
def knownHashes : Externals where
  decodeUrlSafe := fun text =>
    if text = "dGVzdA" then some [0x74, 0x65, 0x73, 0x74]
    else if text = "dG9r" then some [0x74, 0x6f, 0x6b]
    else none
  sha256Hex := fun bytes =>
    if bytes = [0x74, 0x65, 0x73, 0x74] then
      "9f86d081884c7d659a2feaa0c55ad015a3bf4f1b2b0b822cd15d6c15b0f00a08"
    else "1a7674eb4ee78df7e1ac439a93c3fa8e3c945784d4dec9fd8e3011738b2f1d62"
  s256 := fun _ => "fsB0w7Iv5o_jYPQX1vkEWl5-sZY-i5qa36AUJCQvL5E"
  caseTable := .ascii

end Ezpds.Oauth
