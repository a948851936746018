import Ezpds.Data.ApiError
import Ezpds.Data.Json
import Ezpds.Library.KeyedRows
import Ezpds.Library.Lowercase
import Ezpds.Library.Run
import Ezpds.Library.Text
import Ezpds.Spaces.Store

/-!
# Delegation tokens are spent once

A syncer presents a delegation token to a space's authority in exchange for a space credential.
The route captures the time, `verify_delegation_token` resolves the issuer's key over the
network, judges the claims against the captured time and records the token's `jti` in
`space_jti_replay`, from which a periodic sweep deletes the rows whose horizon has passed on the
database clock.

The machine interleaves any number of presentations with the sweep, with client attestations
that share the table, and with steps of the clock.

* `delegationClaims_ok`: what the claims of an accepted presentation say.
* `Inv`: a spent token that can still pass has its row, and the row's horizon.
* `spent_once_iff_sweeps_apart`: a token is accepted once unless a sweep runs so late behind its
  expiry that the row is gone while another presentation of it is still resolving the key.
-/

namespace Ezpds.Spaces.DelegationTokens

open Library

/-! ## Identifiers -/

def MAX_DID_LEN : Nat := 2048

def isHexDigit (c : Char) : Bool :=
  c.isDigit || ('a' ≤ c && c ≤ 'f') || ('A' ≤ c && c ≤ 'F')

/-- The characters of a method-specific id: unreserved characters, `:` and percent escapes. -/
def methodIdBytes : List Char → Bool
  | [] => true
  | '%' :: high :: low :: rest => isHexDigit high && isHexDigit low && methodIdBytes rest
  | c :: rest => (c.isAlphanum || c = '.' || c = '-' || c = '_' || c = ':') && methodIdBytes rest

def isValidDid (did : String) : Bool :=
  did.utf8ByteSize ≤ MAX_DID_LEN && did.startsWith "did:" &&
    match splitOnce ':' (did.toList.drop 4) with
    | none => false
    | some (method, methodSpecificId) =>
      !method.isEmpty && method.all (·.isLower) && !methodSpecificId.isEmpty &&
        methodSpecificId.getLast? != some ':' && methodIdBytes methodSpecificId

/-! ## Verifying a token -/

def DELEGATION_TOKEN_TYP : String := "atproto-space-delegation+jwt"

def DELEGATION_TOKEN_MAX_TTL_SECS : Nat := 5 * 60

def spaceHostAud (space : SpaceRef) : String :=
  space.authority ++ "#atproto_space_host"

def invalid (message : String) : ApiError :=
  { code := .invalidDelegationToken, message := message }

/-- A request that presents a token for a space, with the time that its route captured. -/
structure Presentation where
  token : String
  space : SpaceRef
  now : Nat
  deriving DecidableEq, Repr

section

-- `peek_jwt_segment`: a dot-separated part of a token, read as base64url text and as JSON
variable (segment : String → Nat → Option Json)

def peekJwtTyp (token : String) : Option String := do
  let header ← segment token 0
  let typ ← header.get "typ" >>= Json.asStr
  pure (String.ofList (toAsciiLowercase typ.toList))

def peekJwtIss (token : String) : Option String :=
  segment token 1 >>= fun payload => payload.get "iss" >>= Json.asStr

/-- `verify_delegation_token`, before the issuer's key is resolved. -/
def delegationIssuer (token : String) : Except ApiError String := do
  check (peekJwtTyp segment token = some DELEGATION_TOKEN_TYP)
    (invalid "delegation token typ must be atproto-space-delegation+jwt")
  okOr (invalid "delegation token issuer is missing or not a DID")
    ((peekJwtIss segment token).filter isValidDid)

/-- `verify_did_jwt_resolving_key`: `resolved` is what the resolution of the issuer and the check
of the signature come to. The token that verifies is decoded from its own segments. -/
def verifyDidJwtResolvingKey (resolved : Except ApiError Unit) (token : String) :
    Except ApiError (Json × Json) := do
  resolved
  match segment token 0, segment token 1 with
  | some header, some payload => pure (header, payload)
  | _, _ => throw { code := .invalidToken, message := "invalid token" }

end

/-- A failed verification is the lexicon's error; a failed resolution keeps its own. -/
def recode (error : ApiError) : ApiError :=
  if error.code = .invalidToken then { error with code := .invalidDelegationToken } else error

/-- `verify_delegation_token`, from the verified token to its `jti` and remaining lifetime. -/
def delegationClaims (space : SpaceRef) (now : Nat) (header claims : Json) :
    Except ApiError (String × Nat) := do
  check (header.get "kid" >>= Json.asStr = some "#atproto")
    (invalid "delegation token kid must be #atproto")
  check (claims.get "sub" >>= Json.asStr = some space.uri)
    (invalid "delegation token is for a different space")
  check (claims.get "aud" >>= Json.asStr = some (spaceHostAud space))
    (invalid "delegation token audience is not this space's host")
  check (claims.get "lxm").isNone (invalid "delegation token must not carry lxm")
  let exp ← okOr (invalid "delegation token has no exp") (claims.get "exp" >>= Json.asU64)
  check (now < exp) (invalid "delegation token has expired")
  check (exp - now ≤ DELEGATION_TOKEN_MAX_TTL_SECS)
    (invalid "delegation token lifetime is too long")
  let jti ← okOr (invalid "delegation token has no jti")
    ((claims.get "jti" >>= Json.asStr).filter (!·.isEmpty))
  pure (jti, exp - now)

/-! ## The spent tokens -/

inductive SpaceJtiScope where
  | delegation
  | attestation
  deriving DecidableEq, Repr

/-- A row of `space_jti_replay`. -/
structure JtiRow where
  scope : SpaceJtiScope
  jti : String
  expiresAt : Nat
  deriving DecidableEq, Repr

/-- The primary key. -/
def JtiRow.key (row : JtiRow) : SpaceJtiScope × String := (row.scope, row.jti)

/-- `insert_jti_if_absent`: whether the row is the first of its key, and the rows after. -/
def insertJtiIfAbsent (clock : Nat) (scope : SpaceJtiScope) (jti : String) (ttlSecs : Nat)
    (rows : List JtiRow) : Bool × List JtiRow :=
  if rows.any fun row => row.key = (scope, jti) then (false, rows)
  else (true, rows ++ [{ scope := scope, jti := jti, expiresAt := clock + ttlSecs }])

def sweepExpiredJtis (clock : Nat) (rows : List JtiRow) : List JtiRow :=
  deleteWhere (fun row => row.expiresAt ≤ clock) rows

/-! ## The machine -/

/-- A presentation that was accepted, what its claims say, and when its `jti` was recorded. -/
structure Acceptance where
  presented : Presentation
  jti : String
  remaining : Nat
  recordedAt : Nat
  deriving DecidableEq, Repr

/-- When the row of the acceptance expires. -/
def Acceptance.horizon (a : Acceptance) : Nat := a.recordedAt + a.remaining

structure State where
  clock : Nat
  rows : List JtiRow
  flights : List Presentation
  accepted : List Acceptance
  deriving DecidableEq, Repr

def State.fresh (clock : Nat) : State :=
  { clock := clock, rows := [], flights := [], accepted := [] }

inductive Action where
  | present (token : String) (space : SpaceRef)
  | resolve (flight : Nat) (resolved : Except ApiError Unit)
  | attest (jti : String) (retain : Nat)
  | sweep
  | tick (secs : Nat)

section

variable (segment : String → Nat → Option Json)

/-- `verify_delegation_token` up to the record of the `jti`: the issuer, the `jti` and the
remaining lifetime. -/
def judged (resolved : Except ApiError Unit) (p : Presentation) :
    Except ApiError (String × String × Nat) := do
  let iss ← delegationIssuer segment p.token
  let (header, claims) ←
    (verifyDidJwtResolvingKey segment resolved p.token).mapError recode
  let (jti, remaining) ← delegationClaims p.space p.now header claims
  pure (iss, jti, remaining)

/-- What a presentation leaves when its key is resolved: nothing, unless its claims hold and its
`jti` is the first. -/
def verifyDelegationToken (resolved : Except ApiError Unit) (p : Presentation) (s : State) :
    State :=
  match judged segment resolved p with
  | .error _ => s
  | .ok (_, jti, remaining) =>
    match insertJtiIfAbsent s.clock .delegation jti remaining s.rows with
    | (false, _) => s
    | (true, rows) =>
      { s with
        rows := rows
        accepted := s.accepted ++ [⟨p, jti, remaining, s.clock⟩] }

def step (s : State) : Action → Option State
  | .present token space =>
    match delegationIssuer segment token with
    | .error _ => some s
    | .ok _ => some { s with flights := s.flights ++ [⟨token, space, s.clock⟩] }
  | .resolve flight resolved =>
    (s.flights[flight]?).map fun p =>
      verifyDelegationToken segment resolved p { s with flights := s.flights.eraseIdx flight }
  | .attest jti retain =>
    some { s with rows := (insertJtiIfAbsent s.clock .attestation jti retain s.rows).2 }
  | .sweep => some { s with rows := sweepExpiredJtis s.clock s.rows }
  | .tick secs => some { s with clock := s.clock + secs }

/-- A presentation of the token, in flight or to come, whose claims pass. -/
def CanPass (s : State) (token : String) (p : Presentation) : Prop :=
  p.token = token ∧ (p ∈ s.flights ∨ s.clock ≤ p.now) ∧ (judged segment (.ok ()) p).isOk

/-- No token was accepted twice, and one that can still pass has its row. -/
def SingleUse (s : State) : Prop :=
  (s.accepted.map (·.presented.token)).Nodup ∧
    ∀ a ∈ s.accepted, ∀ p, CanPass segment s a.presented.token p →
      ∃ row ∈ s.rows, row.key = (.delegation, a.jti)

/-- A sweep that runs while a second presentation of a spent token is in flight, one whose claims
pass at the time it captured, runs less long after the token's expiry than the first presentation
took to record it. -/
def SweepApart (s : State) : Action → Prop
  | .sweep => ∀ a ∈ s.accepted, ∀ p ∈ s.flights, p.token = a.presented.token →
      (judged segment (.ok ()) p).isOk → s.clock < a.horizon
  | _ => True

instance (s : State) : ∀ action, Decidable (SweepApart segment s action)
  | .sweep => inferInstanceAs (Decidable (∀ a ∈ s.accepted, ∀ p ∈ s.flights,
      p.token = a.presented.token → (judged segment (.ok ()) p).isOk → s.clock < a.horizon))
  | .present _ _ => .isTrue trivial
  | .resolve _ _ => .isTrue trivial
  | .attest _ _ => .isTrue trivial
  | .tick _ => .isTrue trivial

end

/-! ## What an accepted presentation says -/

/-- `iss`, `jti` and `exp` of a token's claims, when it has them all. -/
theorem delegationClaims_ok {space : SpaceRef} {now : Nat} {header claims : Json} {jti : String}
    {remaining : Nat} (h : delegationClaims space now header claims = .ok (jti, remaining)) :
    ∃ exp, claims.get "exp" >>= Json.asU64 = some exp ∧ now < exp ∧ remaining = exp - now ∧
      claims.get "jti" >>= Json.asStr = some jti := by
  unfold delegationClaims at h
  obtain ⟨_, -, h⟩ := bind_ok.mp h
  obtain ⟨_, -, h⟩ := bind_ok.mp h
  obtain ⟨_, -, h⟩ := bind_ok.mp h
  obtain ⟨_, -, h⟩ := bind_ok.mp h
  obtain ⟨exp, hExp, h⟩ := bind_ok.mp h
  obtain ⟨_, hLive, h⟩ := bind_ok.mp h
  obtain ⟨_, -, h⟩ := bind_ok.mp h
  obtain ⟨found, hJti, h⟩ := bind_ok.mp h
  cases h
  refine ⟨exp, okOr_ok.mp hExp, ?_, rfl, ?_⟩
  · exact of_decide_eq_true (check_ok.mp hLive)
  · exact (Option.filter_eq_some_iff.mp (okOr_ok.mp hJti)).1

section

variable {segment : String → Nat → Option Json}

theorem judged_ok {resolved : Except ApiError Unit} {p : Presentation} {iss jti : String}
    {remaining : Nat} (h : judged segment resolved p = .ok (iss, jti, remaining)) :
    resolved = .ok () ∧ ∃ claims exp, segment p.token 1 = some claims ∧
      claims.get "exp" >>= Json.asU64 = some exp ∧ p.now < exp ∧ remaining = exp - p.now ∧
      claims.get "jti" >>= Json.asStr = some jti := by
  unfold judged at h
  obtain ⟨_, -, h⟩ := bind_ok.mp h
  obtain ⟨⟨header, claims⟩, hJwt, h⟩ := bind_ok.mp h
  obtain ⟨⟨_, _⟩, hClaims, h⟩ := bind_ok.mp h
  cases h
  unfold verifyDidJwtResolvingKey at hJwt
  obtain ⟨⟨⟩, rfl, hJwt⟩ := bind_ok.mp (mapError_ok.mp hJwt)
  split at hJwt
  · rename_i hHeader hPayload
    cases hJwt
    obtain ⟨exp, hExp, hLive, hRemaining, hJti⟩ := delegationClaims_ok hClaims
    exact ⟨rfl, claims, exp, hPayload, hExp, hLive, hRemaining, hJti⟩
  · cases hJwt

/-- Two presentations of one token whose claims pass agree on the expiry and the `jti`. -/
theorem judged_same {p q : Presentation} {iss iss' jti jti' : String} {remaining remaining' : Nat}
    (hToken : p.token = q.token) (hp : judged segment (.ok ()) p = .ok (iss, jti, remaining))
    (hq : judged segment (.ok ()) q = .ok (iss', jti', remaining')) :
    jti = jti' ∧ p.now + remaining = q.now + remaining' := by
  obtain ⟨-, claims, exp, hClaims, hExp, hLive, hRemaining, hJti⟩ := judged_ok hp
  obtain ⟨-, claims', exp', hClaims', hExp', hLive', hRemaining', hJti'⟩ := judged_ok hq
  rw [hToken, hClaims'] at hClaims
  cases hClaims
  rw [hExp'] at hExp
  cases hExp
  rw [hJti'] at hJti
  cases hJti
  exact ⟨rfl, by omega⟩

/-! ## Rows -/

theorem keyed_insertJtiIfAbsent {clock ttlSecs : Nat} {scope : SpaceJtiScope} {jti : String}
    {rows : List JtiRow} (h : Keyed JtiRow.key rows) :
    Keyed JtiRow.key (insertJtiIfAbsent clock scope jti ttlSecs rows).2 := by
  unfold insertJtiIfAbsent
  split
  · exact h
  · rename_i hFresh
    apply h.append
    intro old hOld hEq
    apply hFresh
    exact List.any_eq_true.mpr ⟨old, hOld, decide_eq_true hEq⟩

theorem mem_insertJtiIfAbsent {clock ttlSecs : Nat} {scope : SpaceJtiScope} {jti : String}
    {rows : List JtiRow} {row : JtiRow} (h : row ∈ rows) :
    row ∈ (insertJtiIfAbsent clock scope jti ttlSecs rows).2 := by
  unfold insertJtiIfAbsent
  split
  · exact h
  · exact List.mem_append_left _ h

theorem insertJtiIfAbsent_fresh {clock ttlSecs : Nat} {scope : SpaceJtiScope} {jti : String}
    {rows after : List JtiRow}
    (h : insertJtiIfAbsent clock scope jti ttlSecs rows = (true, after)) :
    (∀ row ∈ rows, row.key ≠ (scope, jti)) ∧
      after = rows ++ [{ scope := scope, jti := jti, expiresAt := clock + ttlSecs }] := by
  unfold insertJtiIfAbsent at h
  split at h
  · cases h
  · rename_i hFresh
    cases h
    refine ⟨?_, rfl⟩
    intro row hRow hEq
    apply hFresh
    exact List.any_eq_true.mpr ⟨row, hRow, decide_eq_true hEq⟩

theorem mem_sweepExpiredJtis {clock : Nat} {rows : List JtiRow} {row : JtiRow} :
    row ∈ sweepExpiredJtis clock rows ↔ row ∈ rows ∧ clock < row.expiresAt := by
  rw [sweepExpiredJtis, mem_deleteWhere, decide_eq_false_iff_not, Nat.not_le]

/-! ## The invariant -/

variable (segment) in
structure Inv (s : State) : Prop where
  keyed : Keyed JtiRow.key s.rows
  captured : ∀ p ∈ s.flights, p.now ≤ s.clock
  once : (s.accepted.map (·.presented.token)).Nodup
  /-- An acceptance was judged by its own claims, and recorded after it was presented. -/
  spent : ∀ a ∈ s.accepted, (∃ iss, judged segment (.ok ()) a.presented =
    .ok (iss, a.jti, a.remaining)) ∧ a.presented.now ≤ a.recordedAt
  /-- A spent token that can still pass has its own row. -/
  kept : ∀ a ∈ s.accepted, ∀ p, CanPass segment s a.presented.token p →
    ∃ row ∈ s.rows, row.key = (.delegation, a.jti) ∧ row.expiresAt = a.horizon

theorem inv_fresh (clock : Nat) : Inv segment (State.fresh clock) where
  keyed := List.nodup_nil
  captured := by
    intro p hp
    cases hp
  once := List.nodup_nil
  spent := by
    intro a ha
    cases ha
  kept := by
    intro a ha
    cases ha

variable {s t : State}

theorem Inv.singleUse (h : Inv segment s) : SingleUse segment s := by
  refine ⟨h.once, ?_⟩
  intro a ha p hp
  obtain ⟨row, hRow, hKey, -⟩ := h.kept a ha p hp
  exact ⟨row, hRow, hKey⟩

/-- A presentation to come expires after every horizon it could reach: the row of its token
outlives the expiry that both have in common. -/
theorem Inv.lt_horizon (h : Inv segment s) {a : Acceptance} (ha : a ∈ s.accepted)
    {p : Presentation} (hToken : p.token = a.presented.token) (hClock : s.clock ≤ p.now)
    (hPass : (judged segment (.ok ()) p).isOk) : s.clock < a.horizon := by
  obtain ⟨⟨iss, hJudged⟩, hRecorded⟩ := h.spent a ha
  obtain ⟨⟨iss', jti', remaining'⟩, hp⟩ := exists_ok_of_isOk hPass
  obtain ⟨-, hExpiry⟩ := judged_same hToken hp hJudged
  obtain ⟨-, _, exp, -, -, hLive, hRemaining, -⟩ := judged_ok hp
  unfold Acceptance.horizon
  omega

/-- What a step that leaves acceptances alone has to keep: nothing new can pass, and the rows of
what can pass stay. -/
theorem Inv.moveOn (h : Inv segment s) (hAccepted : t.accepted = s.accepted)
    (hKeyed : Keyed JtiRow.key t.rows) (hCaptured : ∀ p ∈ t.flights, p.now ≤ t.clock)
    (hPass : ∀ token p, CanPass segment t token p → CanPass segment s token p)
    (hRows : ∀ a ∈ s.accepted, ∀ p, CanPass segment t a.presented.token p →
      ∀ row ∈ s.rows, row.expiresAt = a.horizon → row ∈ t.rows) : Inv segment t where
  keyed := hKeyed
  captured := hCaptured
  once := by
    rw [hAccepted]
    exact h.once
  spent := by
    rw [hAccepted]
    exact h.spent
  kept := by
    rw [hAccepted]
    intro a ha p hp
    obtain ⟨row, hRow, hKey, hHorizon⟩ := h.kept a ha p (hPass _ p hp)
    exact ⟨row, hRows a ha p hp row hRow hHorizon, hKey, hHorizon⟩

/-! ## The steps -/

theorem Inv.drop (h : Inv segment s) (flight : Nat) :
    Inv segment { s with flights := s.flights.eraseIdx flight } := by
  refine h.moveOn rfl h.keyed ?_ ?_ ?_
  · intro p hp
    exact h.captured p (List.mem_of_mem_eraseIdx hp)
  · rintro token p ⟨hToken, hWhen, hPass⟩
    exact ⟨hToken, hWhen.imp_left List.mem_of_mem_eraseIdx, hPass⟩
  · intro a _ p _ row hRow _
    exact hRow

theorem Inv.present (h : Inv segment s) (token : String) (space : SpaceRef) :
    Inv segment { s with flights := s.flights ++ [⟨token, space, s.clock⟩] } := by
  refine h.moveOn rfl h.keyed ?_ ?_ ?_
  · intro p hp
    rcases List.mem_append.mp hp with hp | hp
    · exact h.captured p hp
    · rw [List.mem_singleton.mp hp]
  · rintro token p ⟨hToken, hWhen, hPass⟩
    refine ⟨hToken, ?_, hPass⟩
    rcases hWhen with hp | hLater
    · rcases List.mem_append.mp hp with hp | hp
      · exact .inl hp
      · rw [List.mem_singleton.mp hp]
        exact .inr (Nat.le_refl _)
    · exact .inr hLater
  · intro a _ p _ row hRow _
    exact hRow

theorem Inv.tick (h : Inv segment s) (secs : Nat) :
    Inv segment { s with clock := s.clock + secs } := by
  refine h.moveOn rfl h.keyed ?_ ?_ ?_
  · intro p hp
    exact Nat.le_add_right_of_le (h.captured p hp)
  · rintro token p ⟨hToken, hWhen, hPass⟩
    exact ⟨hToken, hWhen.imp_right (Nat.le_trans (Nat.le_add_right _ _)), hPass⟩
  · intro a _ p _ row hRow _
    exact hRow

theorem Inv.attest (h : Inv segment s) (jti : String) (retain : Nat) :
    Inv segment
      { s with rows := (insertJtiIfAbsent s.clock .attestation jti retain s.rows).2 } := by
  refine h.moveOn rfl (keyed_insertJtiIfAbsent h.keyed) h.captured ?_ ?_
  · intro token p hp
    exact hp
  · intro a _ p _ row hRow _
    exact mem_insertJtiIfAbsent hRow

theorem Inv.sweep (h : Inv segment s) (hApart : SweepApart segment s .sweep) :
    Inv segment { s with rows := sweepExpiredJtis s.clock s.rows } := by
  refine h.moveOn rfl h.keyed.deleteWhere h.captured ?_ ?_
  · intro token p hp
    exact hp
  · rintro a ha p ⟨hToken, hWhen, hPass⟩ row hRow hHorizon
    apply mem_sweepExpiredJtis.mpr
    refine ⟨hRow, ?_⟩
    rw [hHorizon]
    rcases hWhen with hp | hLater
    · exact hApart a ha p hp hToken hPass
    · exact h.lt_horizon ha hToken hLater hPass

/-- A presentation that passes finds the row of its token, if the token was spent before. -/
theorem Inv.not_spent (h : Inv segment s) {p : Presentation} (hp : p ∈ s.flights)
    {iss jti : String} {remaining : Nat}
    (hJudged : judged segment (.ok ()) p = .ok (iss, jti, remaining))
    (hFresh : ∀ row ∈ s.rows, row.key ≠ (.delegation, jti)) :
    ∀ a ∈ s.accepted, a.presented.token ≠ p.token := by
  intro a ha hToken
  obtain ⟨⟨iss', hSpent⟩, -⟩ := h.spent a ha
  obtain ⟨rfl, -⟩ := judged_same hToken hSpent hJudged
  have hPass : CanPass segment s a.presented.token p := by
    refine ⟨hToken.symm, .inl hp, ?_⟩
    rw [hJudged]
    rfl
  obtain ⟨row, hRow, hKey, -⟩ := h.kept a ha p hPass
  exact hFresh row hRow hKey

theorem Inv.resolve (h : Inv segment s) {flight : Nat} {p : Presentation}
    (hp : s.flights[flight]? = some p) (resolved : Except ApiError Unit) :
    Inv segment (verifyDelegationToken segment resolved p
      { s with flights := s.flights.eraseIdx flight }) := by
  have hDrop := h.drop flight
  unfold verifyDelegationToken
  split
  · exact hDrop
  · rename_i iss jti remaining hJudged
    split
    · exact hDrop
    · rename_i rows hInsert
      obtain ⟨hFresh, rfl⟩ := insertJtiIfAbsent_fresh hInsert
      obtain ⟨rfl, -⟩ := judged_ok hJudged
      have hFlight := List.mem_of_getElem? hp
      have hUnspent := h.not_spent hFlight hJudged hFresh
      refine ⟨?_, hDrop.captured, ?_, ?_, ?_⟩
      · exact h.keyed.append hFresh
      · rw [List.map_append, List.map_singleton, ← List.concat_eq_append]
        apply List.Nodup.concat _ h.once
        intro hMem
        obtain ⟨a, ha, hToken⟩ := List.mem_map.mp hMem
        exact hUnspent a ha hToken
      · intro a ha
        rcases List.mem_append.mp ha with ha | ha
        · exact h.spent a ha
        · rw [List.mem_singleton.mp ha]
          exact ⟨⟨iss, hJudged⟩, h.captured p hFlight⟩
      · intro a ha q hq
        rcases List.mem_append.mp ha with ha | ha
        · obtain ⟨row, hRow, hRest⟩ := hDrop.kept a ha q hq
          exact ⟨row, List.mem_append_left _ hRow, hRest⟩
        · rw [List.mem_singleton.mp ha]
          exact ⟨_, List.mem_append_right _ (List.mem_singleton_self _), rfl, rfl⟩

theorem Inv.step {action : Action} (h : Inv segment s) (hApart : SweepApart segment s action)
    (hStep : step segment s action = some t) : Inv segment t := by
  cases action with
  | present token space =>
    simp only [DelegationTokens.step] at hStep
    split at hStep
    · cases hStep
      exact h
    · cases hStep
      exact h.present token space
  | resolve flight resolved =>
    obtain ⟨p, hp, rfl⟩ := Option.map_eq_some_iff.mp hStep
    exact h.resolve hp resolved
  | attest jti retain =>
    cases hStep
    exact h.attest jti retain
  | sweep =>
    cases hStep
    exact h.sweep hApart
  | tick secs =>
    cases hStep
    exact h.tick secs

/-- A sweep that is not apart deletes the row of a token that can still pass. -/
theorem Inv.sweepApart {action : Action} (h : Inv segment s)
    (hStep : DelegationTokens.step segment s action = some t) (hSingle : SingleUse segment t) :
    SweepApart segment s action := by
  cases action with
  | sweep =>
    cases hStep
    intro a ha p hp hToken hPass
    have hCan : CanPass segment s a.presented.token p := ⟨hToken, .inl hp, hPass⟩
    obtain ⟨row, hRow, hKey, hHorizon⟩ := h.kept a ha p hCan
    obtain ⟨left, hLeft, hLeftKey⟩ := hSingle.2 a ha p hCan
    obtain ⟨hOld, hLive⟩ := mem_sweepExpiredJtis.mp hLeft
    have hSame : left = row := h.keyed.eq_of_key hOld hRow (hLeftKey.trans hKey.symm)
    rw [hSame, hHorizon] at hLive
    exact hLive
  | present _ _ => trivial
  | resolve _ _ => trivial
  | attest _ _ => trivial
  | tick _ => trivial

end

/-- A token is accepted once in every state of a run, and keeps its row for as long as it can
pass, exactly when every sweep of the run is apart from the presentations in flight. -/
theorem spent_once_iff_sweeps_apart (segment : String → Nat → Option Json) (clock : Nat)
    {actions : List Action} {s : State}
    (hRun : run (step segment) (State.fresh clock) actions = some s) :
    (∀ done rest t, actions = done ++ rest →
        run (step segment) (State.fresh clock) done = some t → SingleUse segment t) ↔
      Along (step segment) (SweepApart segment) (State.fresh clock) actions := by
  have hKeep : ∀ s a t, Inv segment s → SweepApart segment s a → step segment s a = some t →
      Inv segment t := fun _ _ _ h hApart hStep => h.step hApart hStep
  have hBack : ∀ s a t, Inv segment s → step segment s a = some t → SingleUse segment t →
      SweepApart segment s a := fun _ _ _ h hStep hSingle => h.sweepApart hStep hSingle
  exact reached_iff_kept (fun _ h => h.singleUse) hKeep hBack (inv_fresh clock) hRun

/-! ## A sweep between two records -/

/-- A delegation token that expires at 1060, signed for its issuer. -/
def bucketToken : String :=
  "eyJ0eXAiOiJhdHByb3RvLXNwYWNlLWRlbGVnYXRpb24rand0IiwiYWxnIjoiRVMyNTYiLCJraWQiOiIjYXRw" ++
  "cm90byJ9.eyJpc3MiOiJkaWQ6cGxjOmFiYzIzNDU2N2FiYzIzNDU2N2FiYzIzNSIsInN1YiI6ImF0Oi8vZGl" ++
  "kOnBsYzphYmMyMzQ1NjdhYmMyMzQ1NjdhYmMyMzQvc3BhY2Uvb3JnLmV4YW1wbGUuYnVja2V0L3NlbGYiLCJ" ++
  "hdWQiOiJkaWQ6cGxjOmFiYzIzNDU2N2FiYzIzNDU2N2FiYzIzNCNhdHByb3RvX3NwYWNlX2hvc3QiLCJpYXQ" ++
  "iOjEwMDAsImV4cCI6MTA2MCwianRpIjoib25lIn0.W5urm9iPHYQmOoSOTCQn9x8FFSeF7AJJ_9dpxYKnTgd" ++
  "Hlhi14Vtgv0TRmsirBKFx3JnBfF3eom2TVKwJfaqHfg"

def bucket : SpaceRef :=
  { authority := "did:plc:abc234567abc234567abc234"
    spaceType := "org.example.bucket"
    skey := "self" }

/-- What the first two parts of `bucketToken` decode to. -/
def bucketSegment (token : String) (index : Nat) : Option Json :=
  if token = bucketToken then
    [.object [("alg", .string "ES256"), ("kid", .string "#atproto"),
        ("typ", .string "atproto-space-delegation+jwt")],
      .object [("aud", .string "did:plc:abc234567abc234567abc234#atproto_space_host"),
        ("exp", .number (.posInt 1060)), ("iat", .number (.posInt 1000)),
        ("iss", .string "did:plc:abc234567abc234567abc235"), ("jti", .string "one"),
        ("sub", .string "at://did:plc:abc234567abc234567abc234/space/org.example.bucket/self")]
      ][index]?
  else none

/-- Two presentations of one token capture the same time. The second resolves its key only after
the token has expired and the sweep has taken the row of the first. -/
def sweptBetween : List Action :=
  [.present bucketToken bucket, .present bucketToken bucket, .resolve 0 (.ok ()), .tick 60,
    .sweep, .resolve 0 (.ok ())]

/-- The same presentations, where the second resolves its key before the sweep. -/
def sweptAfter : List Action :=
  [.present bucketToken bucket, .present bucketToken bucket, .resolve 0 (.ok ()), .tick 60,
    .resolve 0 (.ok ()), .sweep]

theorem swept_between_accepts_twice :
    ∃ s, run (step bucketSegment) (State.fresh 1000) sweptBetween = some s ∧
      s.accepted.map (·.presented.token) = [bucketToken, bucketToken] ∧
        ¬ SingleUse bucketSegment s := by
  have hRun : (run (step bucketSegment) (State.fresh 1000) sweptBetween).map
      (fun s => s.accepted.map (·.presented.token)) = some [bucketToken, bucketToken] := by
    decide +kernel
  obtain ⟨s, hs, hTokens⟩ := Option.map_eq_some_iff.mp hRun
  refine ⟨s, hs, hTokens, ?_⟩
  rintro ⟨hOnce, -⟩
  rw [hTokens] at hOnce
  simp at hOnce

theorem swept_after_accepts_once : ∃ s,
    run (step bucketSegment) (State.fresh 1000) sweptAfter = some s ∧ SingleUse bucketSegment s := by
  have hDone : (run (step bucketSegment) (State.fresh 1000) sweptAfter).isSome := by
    decide +kernel
  have hApart : Along (step bucketSegment) (SweepApart bucketSegment) (State.fresh 1000)
      sweptAfter := by
    decide +kernel
  obtain ⟨s, hs⟩ := Option.isSome_iff_exists.mp hDone
  have hSingle := (spent_once_iff_sweeps_apart bucketSegment 1000 hs).mpr hApart
  exact ⟨s, hs, hSingle sweptAfter [] s (List.append_nil _).symm hs⟩

end Ezpds.Spaces.DelegationTokens
