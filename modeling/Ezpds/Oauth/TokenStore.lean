import Ezpds.Library.KeyedRows

/-!
# Authorization codes and refresh tokens

The tables `oauth_authorization_codes` and `oauth_tokens` and the statements on them. A
`datetime` is the number of its seconds, and the `now` of a statement is an argument of it.
Tokens and codes are known by the hash that the tables keep.

* `getOauthRefreshToken_eq`: what a lookup finds under the primary key.
-/

namespace Ezpds.Oauth

open Library

/-! ## Authorization codes -/

structure AuthCodeRow where
  clientId : String
  did : String
  codeChallenge : String
  codeChallengeMethod : String
  redirectUri : String
  scope : String
  dpopJkt : Option String
  deriving DecidableEq

structure StoredAuthCode where
  code : String
  row : AuthCodeRow
  expiresAt : Nat
  deriving DecidableEq

def authCodeTtl : Nat := 60

def storeAuthorizationCode (codes : List StoredAuthCode) (code : String) (row : AuthCodeRow)
    (now : Nat) : List StoredAuthCode :=
  codes ++ [⟨code, row, now + authCodeTtl⟩]

def getAuthorizationCode (codes : List StoredAuthCode) (codeHash : String) (now : Nat) :
    Option AuthCodeRow :=
  (codes.find? fun c => c.code = codeHash ∧ now < c.expiresAt).map StoredAuthCode.row

def deleteAuthorizationCode (codes : List StoredAuthCode) (codeHash : String) :
    List StoredAuthCode :=
  deleteWhere (fun c => c.code = codeHash) codes

def cleanupExpiredAuthCodes (codes : List StoredAuthCode) (now : Nat) : List StoredAuthCode :=
  deleteWhere (fun c => c.expiresAt ≤ now) codes

/-! ## Refresh tokens -/

structure StoredToken where
  id : String
  sessionId : Option String
  clientId : String
  did : String
  scope : String
  jkt : Option String
  expiresAt : Nat
  supersededAt : Option Nat
  deriving DecidableEq

/-- `COALESCE(session_id, id)`. -/
def StoredToken.family (token : StoredToken) : String :=
  token.sessionId.getD token.id

structure RefreshTokenRow where
  clientId : String
  did : String
  scope : String
  jkt : Option String
  sessionId : String
  expiresAt : Nat
  supersededWithinGrace : Option Bool
  deriving DecidableEq

/-- Fourteen days. -/
def refreshSessionTtl : Nat := 14 * 24 * 60 * 60

def refreshReuseGrace : Nat := 60

/-- The first token of a family: its hash is the `session_id` as well. -/
def initialToken (tokenHash clientId did scope jkt : String) (now : Nat) : StoredToken where
  id := tokenHash
  sessionId := some tokenHash
  clientId := clientId
  did := did
  scope := scope
  jkt := some jkt
  expiresAt := now + refreshSessionTtl
  supersededAt := none

def rotatedToken (tokenHash clientId did scope jkt sessionId : String) (expiresAt : Nat) :
    StoredToken where
  id := tokenHash
  sessionId := some sessionId
  clientId := clientId
  did := did
  scope := scope
  jkt := some jkt
  expiresAt := expiresAt
  supersededAt := none

/-- The columns that `get_oauth_refresh_token` selects. -/
def StoredToken.columns (token : StoredToken) (now : Nat) : RefreshTokenRow where
  clientId := token.clientId
  did := token.did
  scope := token.scope
  jkt := token.jkt
  sessionId := token.family
  expiresAt := token.expiresAt
  supersededWithinGrace :=
    token.supersededAt.map fun supersededAt => now < supersededAt + refreshReuseGrace

def getOauthRefreshToken (tokens : List StoredToken) (tokenHash : String) (now : Nat) :
    Option RefreshTokenRow :=
  (tokens.find? fun token => token.id = tokenHash ∧ now < token.expiresAt).map (·.columns now)

def isCurrent (tokenHash : String) (token : StoredToken) : Bool :=
  token.id = tokenHash ∧ token.supersededAt = none

/-- With whether the statement changed a row. -/
def supersedeOauthRefreshToken (tokens : List StoredToken) (tokenHash : String) (now : Nat) :
    List StoredToken × Bool :=
  (updateWhere (isCurrent tokenHash) (fun token => { token with supersededAt := some now }) tokens,
    tokens.countP (isCurrent tokenHash) = 1)

def deleteOauthRefreshSession (tokens : List StoredToken) (sessionId : String) :
    List StoredToken :=
  deleteWhere (fun token => token.family = sessionId) tokens

def cleanupExpiredRefreshTokens (tokens : List StoredToken) (now : Nat) : List StoredToken :=
  deleteWhere (fun token => token.expiresAt ≤ now) tokens

/-! ## What the statements leave -/

variable {codes : List StoredAuthCode} {tokens : List StoredToken} {c : StoredAuthCode}
  {token : StoredToken} {codeHash tokenHash : String} {now : Nat}

theorem mem_of_getAuthorizationCode {row : AuthCodeRow}
    (h : getAuthorizationCode codes codeHash now = some row) :
    ∃ c ∈ codes, c.code = codeHash ∧ c.row = row := by
  obtain ⟨c, hFind, rfl⟩ := Option.map_eq_some_iff.mp h
  have hKey := List.find?_some hFind
  exact ⟨c, List.mem_of_find?_eq_some hFind, (of_decide_eq_true hKey).1, rfl⟩

theorem mem_deleteAuthorizationCode :
    c ∈ deleteAuthorizationCode codes codeHash ↔ c ∈ codes ∧ c.code ≠ codeHash := by
  rw [deleteAuthorizationCode, mem_deleteWhere, decide_eq_false_iff_not]

theorem mem_of_getOauthRefreshToken {row : RefreshTokenRow}
    (h : getOauthRefreshToken tokens tokenHash now = some row) :
    ∃ token ∈ tokens, token.id = tokenHash ∧ row = token.columns now := by
  obtain ⟨token, hFind, rfl⟩ := Option.map_eq_some_iff.mp h
  have hKey := List.find?_some hFind
  exact ⟨token, List.mem_of_find?_eq_some hFind, (of_decide_eq_true hKey).1, rfl⟩

theorem getOauthRefreshToken_eq (h : Keyed StoredToken.id tokens) (hToken : token ∈ tokens)
    (hLive : now < token.expiresAt) :
    getOauthRefreshToken tokens token.id now = some (token.columns now) := by
  have hFind : tokens.find? (fun other => other.id = token.id ∧ now < other.expiresAt) =
      some token := by
    apply h.find?_eq hToken
    · simpa using hLive
    · intro other hOther
      exact (of_decide_eq_true hOther).1
  rw [getOauthRefreshToken, hFind, Option.map_some]

theorem mem_deleteOauthRefreshSession {sessionId : String} :
    token ∈ deleteOauthRefreshSession tokens sessionId ↔
      token ∈ tokens ∧ token.family ≠ sessionId := by
  rw [deleteOauthRefreshSession, mem_deleteWhere, decide_eq_false_iff_not]

/-- All columns but `superseded_at`, which alone is ever updated. -/
def StoredToken.grant (token : StoredToken) : StoredToken :=
  { token with supersededAt := none }

theorem exists_of_supersede
    (h : token ∈ (supersedeOauthRefreshToken tokens tokenHash now).1) :
    ∃ old ∈ tokens, token.grant = old.grant := by
  obtain ⟨old, hOld, rfl⟩ := mem_updateWhere.mp h
  refine ⟨old, hOld, ?_⟩
  split <;> rfl

namespace StoredToken

variable {a b : StoredToken}

theorem id_of_grant (h : a.grant = b.grant) : a.id = b.id :=
  (congrArg StoredToken.id h :)

theorem family_of_grant (h : a.grant = b.grant) : a.family = b.family :=
  (congrArg StoredToken.family h :)

theorem scope_of_grant (h : a.grant = b.grant) : a.scope = b.scope :=
  (congrArg StoredToken.scope h :)

theorem expiresAt_of_grant (h : a.grant = b.grant) : a.expiresAt = b.expiresAt :=
  (congrArg StoredToken.expiresAt h :)

end StoredToken

end Ezpds.Oauth
