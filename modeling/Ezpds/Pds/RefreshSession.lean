import Ezpds.Auth.OauthScopes
import Ezpds.Auth.ScopeGrammar
import Ezpds.Data.ApiError
import Ezpds.Library.KeyedRows
import Ezpds.Library.Parties
import Ezpds.Library.Run

/-!
# Sessions and their refresh tokens

The tables `sessions`, `refresh_tokens` and `app_passwords`, and the requests that change
them: `refreshSession`, `deleteSession`, the issue of a session, and the revocations that
sweep an app password or an account. Every step is one database statement, or one
transaction where the code opens one (the pool has a single connection, so nothing runs
inside it), or the arrival of a request up to its first statement. A request is at the index
at which it arrived, and may end wherever it is.

UUIDs are drawn by the environment, and none is drawn twice. `log` is no table, but the
memory of the rotations and of the revocations.

* `State.step`: the machine.
-/

namespace Ezpds.Pds.Sessions

open Library Auth

/-! ## Tables -/

structure SessionRow where
  id : String
  did : String
  deriving DecidableEq

structure RefreshTokenRow where
  jti : String
  did : String
  sessionId : String
  nextJti : Option String
  expiresAt : Nat
  appPasswordName : Option String
  deriving DecidableEq

structure AppPasswordGrants where
  privileged : Bool
  personalDetails : Bool
  deriving DecidableEq

structure AppPasswordRow where
  did : String
  name : String
  grants : AppPasswordGrants
  deriving DecidableEq

structure ActiveRefreshToken where
  did : String
  sessionId : String
  nextJti : Option String
  appPasswordName : Option String
  deriving DecidableEq

def RefreshTokenRow.active (row : RefreshTokenRow) : ActiveRefreshToken where
  did := row.did
  sessionId := row.sessionId
  nextJti := row.nextJti
  appPasswordName := row.appPasswordName

/-- Ninety days. -/
def refreshTokenTtl : Nat := 90 * 24 * 60 * 60

def getActiveRefreshToken (tokens : List RefreshTokenRow) (jti : String) (now : Nat) :
    Option ActiveRefreshToken :=
  (tokens.find? fun row => row.jti = jti ∧ now < row.expiresAt).map RefreshTokenRow.active

def sessionIdForJti (tokens : List RefreshTokenRow) (jti : String) : Option String :=
  (tokens.find? fun row => row.jti = jti).map RefreshTokenRow.sessionId

def appPasswordGrants (rows : List AppPasswordRow) (did name : String) :
    Option AppPasswordGrants :=
  (rows.find? fun row => row.did = did ∧ row.name = name).map AppPasswordRow.grants

/-- The rows that the guarded update of a rotation changes. -/
def isUnrotated (jti : String) (row : RefreshTokenRow) : Bool :=
  row.jti = jti ∧ row.nextJti = none

def RefreshTokenRow.rotated (newJti : String) (row : RefreshTokenRow) : RefreshTokenRow :=
  { row with nextJti := some newJti }

/-! ## Requests -/

structure RefreshTokenClaims where
  scope : String
  jti : Option String
  deriving DecidableEq

def parseScope (table : CaseTable) (scope : String) : Except ApiError AuthScope :=
  if scope = "com.atproto.access" then .ok .access
  else if scope = "com.atproto.refresh" then .ok .refresh
  else if scope = "com.atproto.appPass" then .ok .appPass
  else if scope = "com.atproto.appPassPrivileged" then .ok .appPassPrivileged
  else if (normalizeScopeRequest table scope).isOk then .ok .access
  else .error ⟨.invalidToken, "unrecognised token scope"⟩

/-- From the verified JWT of a request to the token that it presents. -/
def presentedJti (table : CaseTable) (verified : Except ApiError RefreshTokenClaims) :
    Except ApiError String := do
  let claims ← verified
  let scope ← parseScope table claims.scope
  ensure (scope == .refresh) ⟨.invalidToken, "refresh token required"⟩
  match claims.jti with
  | some jti => return jti
  | none => .error ⟨.invalidToken, "invalid refresh token"⟩

def tokenUnknown : ApiError :=
  ⟨.invalidToken, "refresh token not found or expired"⟩

def tokenReused : ApiError :=
  ⟨.invalidToken, "refresh token already used"⟩

/-- The scope and the personal-details claim of an access token. -/
structure SessionAccess where
  scope : String
  personalDetails : Bool
  deriving DecidableEq

def fullAccess : SessionAccess :=
  ⟨"com.atproto.access", false⟩

def appPassAccess (grants : AppPasswordGrants) : SessionAccess :=
  ⟨if grants.privileged then "com.atproto.appPassPrivileged" else "com.atproto.appPass",
    grants.personalDetails⟩

inductive SessionKind where
  | fullAccess
  | appPassword (name : String) (grants : AppPasswordGrants)
  deriving DecidableEq

def SessionKind.appPasswordName : SessionKind → Option String
  | .fullAccess => none
  | .appPassword name _ => some name

/-! ## The machine -/

inductive Phase where
  /-- The token was read un-rotated; the grants of its app password are next. -/
  | readingGrants (jti : String) (token : ActiveRefreshToken) (name : String)
  | rotating (jti : String) (token : ActiveRefreshToken) (access : SessionAccess)
  /-- The session is to be deleted, for a replay or for a logout. -/
  | revoking (sessionId : String) (replay : Bool)
  | issued (jti : String) (access : SessionAccess)
  | refused (error : ApiError)
  | ended
  deriving DecidableEq

inductive Event where
  | rotated (jti newJti : String)
  | revoked (sessionId : String)
  deriving DecidableEq

structure State where
  sessions : List SessionRow
  tokens : List RefreshTokenRow
  appPasswords : List AppPasswordRow
  requests : List Phase
  log : List Event
  /-- The UUIDs drawn so far. -/
  drawn : List String

inductive Label where
  | createAppPassword (row : AppPasswordRow)
  | issueSession (did : String) (kind : SessionKind) (sessionId jti : String) (now : Nat)
  | presentRefresh (verified : Except ApiError RefreshTokenClaims) (now : Nat)
  | readGrants (i : Nat)
  | rotate (i : Nat) (newJti : String) (now : Nat)
  | presentLogout (verified : Except ApiError RefreshTokenClaims)
  | revokeSession (i : Nat)
  | revokeAppPassword (did name : String)
  | revokeAccount (did : String)
  | endRequest (i : Nat)

namespace State

def empty : State where
  sessions := []
  tokens := []
  appPasswords := []
  requests := []
  log := []
  drawn := []

def arrive (s : State) (phase : Phase) : State :=
  { s with requests := s.requests ++ [phase] }

def advance (s : State) (i : Nat) (phase : Phase) : State :=
  { s with requests := s.requests.set i phase }

def createAppPassword (s : State) (row : AppPasswordRow) : Option State :=
  match appPasswordGrants s.appPasswords row.did row.name with
  | some _ => none
  | none => some { s with appPasswords := s.appPasswords ++ [row] }

def kindAllowed (s : State) (did : String) : SessionKind → Bool
  | .fullAccess => true
  | .appPassword name grants => appPasswordGrants s.appPasswords did name = some grants

/-- `issue_session_in_transaction`: the session and its first token. -/
def issueSession (s : State) (did : String) (kind : SessionKind) (sessionId jti : String)
    (now : Nat) : Option State :=
  if s.kindAllowed did kind ∧ sessionId ∉ s.drawn ∧ jti ∉ s.drawn ∧ sessionId ≠ jti then
    let token : RefreshTokenRow :=
      { jti, did, sessionId, nextJti := none, expiresAt := now + refreshTokenTtl,
        appPasswordName := kind.appPasswordName }
    some { s with
      sessions := s.sessions ++ [⟨sessionId, did⟩]
      tokens := s.tokens ++ [token]
      drawn := sessionId :: jti :: s.drawn }
  else none

/-- What `refresh_session` goes on to once it has read the token. -/
def afterRead (jti : String) (token : ActiveRefreshToken) : Phase :=
  if token.nextJti.isSome then .revoking token.sessionId true
  else
    match token.appPasswordName with
    | some name => .readingGrants jti token name
    | none => .rotating jti token Sessions.fullAccess

def presentRefresh (table : CaseTable) (s : State)
    (verified : Except ApiError RefreshTokenClaims) (now : Nat) : State :=
  match presentedJti table verified with
  | .error e => s.arrive (.refused e)
  | .ok jti =>
    match getActiveRefreshToken s.tokens jti now with
    | some token => s.arrive (afterRead jti token)
    | none => s.arrive (.refused tokenUnknown)

def readGrants (s : State) (i : Nat) : Option State :=
  match s.requests[i]? with
  | some (.readingGrants jti token name) =>
    match appPasswordGrants s.appPasswords token.did name with
    | some grants => some (s.advance i (.rotating jti token (appPassAccess grants)))
    | none => some (s.advance i (.refused ⟨.invalidToken, "app password revoked"⟩))
  | _ => none

/-- The rotation transaction. The insert needs the row of the session, and the update is
guarded by `next_jti IS NULL`; when it changes no row, the insert is rolled back. -/
def rotate (s : State) (i : Nat) (newJti : String) (now : Nat) : Option State :=
  match s.requests[i]? with
  | some (.rotating jti token access) =>
    if newJti ∈ s.drawn then none
    else
      let drawn := { s with drawn := newJti :: s.drawn }
      if token.sessionId ∉ s.sessions.map SessionRow.id then
        some (drawn.advance i (.refused ⟨.internalError, "failed to refresh session"⟩))
      else
        let successor : RefreshTokenRow :=
          { jti := newJti, did := token.did, sessionId := token.sessionId, nextJti := none,
            expiresAt := now + refreshTokenTtl, appPasswordName := token.appPasswordName }
        let inserted := s.tokens ++ [successor]
        if inserted.countP (isUnrotated jti) = 1 then
          some { drawn.advance i (.issued newJti access) with
            tokens := updateWhere (isUnrotated jti) (RefreshTokenRow.rotated newJti) inserted
            log := .rotated jti newJti :: s.log }
        else some (drawn.advance i (.refused tokenReused))
  | _ => none

/-- `delete_session`, up to its transaction: an unknown token is a logout already done. -/
def presentLogout (table : CaseTable) (s : State)
    (verified : Except ApiError RefreshTokenClaims) : State :=
  match presentedJti table verified with
  | .error e => s.arrive (.refused e)
  | .ok jti =>
    match sessionIdForJti s.tokens jti with
    | some sessionId => s.arrive (.revoking sessionId false)
    | none => s.arrive .ended

/-- The transaction that deletes the tokens of a session and then its row. -/
def revokeSession (s : State) (i : Nat) : Option State :=
  match s.requests[i]? with
  | some (.revoking sessionId replay) =>
    some { s.advance i (if replay then .refused tokenReused else .ended) with
      sessions := deleteWhere (fun row => row.id = sessionId) s.sessions
      tokens := deleteWhere (fun row => row.sessionId = sessionId) s.tokens
      log := .revoked sessionId :: s.log }
  | _ => none

/-- Delete tokens, then sessions. A session that a token still refers to cannot be deleted,
which undoes the whole transaction. -/
def sweep (s : State) (token : RefreshTokenRow → Bool) (session : SessionRow → Bool) :
    Option State :=
  let tokens := deleteWhere token s.tokens
  let sessions := deleteWhere session s.sessions
  if ∀ row ∈ tokens, row.sessionId ∈ s.sessions.map SessionRow.id →
      row.sessionId ∈ sessions.map SessionRow.id then
    some { s with tokens, sessions }
  else none

def revokeAppPassword (s : State) (did name : String) : Option State :=
  let opened := fun row : RefreshTokenRow =>
    decide (row.did = did ∧ row.appPasswordName = some name)
  let sessionIds := (s.tokens.filter opened).map RefreshTokenRow.sessionId
  let kept := deleteWhere (fun row : AppPasswordRow => row.did = did ∧ row.name = name)
    s.appPasswords
  { s with appPasswords := kept }.sweep opened fun row => row.id ∈ sessionIds

/-- The part that the admin revocation, a completed transfer and an account deletion
share. -/
def revokeAccount (s : State) (did : String) : Option State :=
  s.sweep (fun row => row.did = did) fun row => row.did = did

def endRequest (s : State) (i : Nat) : Option State :=
  match s.requests[i]? with
  | some _ => some (s.advance i .ended)
  | none => none

def step (table : CaseTable) (s : State) : Label → Option State
  | .createAppPassword row => s.createAppPassword row
  | .issueSession did kind sessionId jti now => s.issueSession did kind sessionId jti now
  | .presentRefresh verified now => some (s.presentRefresh table verified now)
  | .readGrants i => s.readGrants i
  | .rotate i newJti now => s.rotate i newJti now
  | .presentLogout verified => some (s.presentLogout table verified)
  | .revokeSession i => s.revokeSession i
  | .revokeAppPassword did name => s.revokeAppPassword did name
  | .revokeAccount did => s.revokeAccount did
  | .endRequest i => s.endRequest i

/-- A rotation that commits has found the session and exactly one row to mark; any other draws
its `jti` and refuses the request. -/
theorem rotate_some {s t : State} {i : Nat} {newJti : String} {now : Nat}
    (h : s.rotate i newJti now = some t) :
    ∃ jti token access, s.requests[i]? = some (.rotating jti token access) ∧
      newJti ∉ s.drawn ∧
      ((∃ e, t = { s with drawn := newJti :: s.drawn }.advance i (.refused e)) ∨
        ∃ successor : RefreshTokenRow,
          token.sessionId ∈ s.sessions.map SessionRow.id ∧
          successor.jti = newJti ∧ successor.sessionId = token.sessionId ∧
          (s.tokens ++ [successor]).countP (isUnrotated jti) = 1 ∧
          t = { { s with drawn := newJti :: s.drawn }.advance i (.issued newJti access) with
            tokens := updateWhere (isUnrotated jti) (RefreshTokenRow.rotated newJti)
              (s.tokens ++ [successor])
            log := .rotated jti newJti :: s.log }) := by
  rw [rotate] at h
  split at h
  · rename_i jti token access hPhase
    split at h
    · cases h
    · rename_i hFresh
      refine ⟨jti, token, access, hPhase, hFresh, ?_⟩
      split at h
      · exact Or.inl ⟨_, (Option.some.inj h).symm⟩
      · rename_i hSession
        dsimp only at h
        split at h
        · rename_i hCount
          exact Or.inr ⟨_, not_not.mp hSession, rfl, rfl, hCount, (Option.some.inj h).symm⟩
        · exact Or.inl ⟨_, (Option.some.inj h).symm⟩
  · cases h

end State

end Ezpds.Pds.Sessions
