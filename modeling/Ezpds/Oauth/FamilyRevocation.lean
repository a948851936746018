import Ezpds.Oauth.TokenEndpoint
import Mathlib

/-!
# Families of refresh tokens

A family is what one exchange started: its first token and every rotation of it. A request
reads its token in one statement, supersedes it in a second and inserts the successor in a
third, and only the first of the three looks at whether the token is there.

* `LedgerInv`: what is known, in every run, of the tokens that requests hold and the table
  has; `chain_grant`: a chain of rotations keeps expiry and grant.
* `FinalInv`: nothing is left of a revoked family, neither a token nor a request that could
  insert one. A revocation establishes it only if no rotation of the family is under way.
* `family_revocation_final`: both, over whole runs; `family_resurrected`: a rotation that
  was under way.
-/

namespace Ezpds.Oauth

open Library

/-! ## What requests know -/

/-- The columns of a read that a rotation carries forward. -/
def ReadOf (stored : List StoredToken) (request : RefreshRequest) (row : RefreshTokenRow) : Prop :=
  ∃ a ∈ stored, a.id = request.tokenHash ∧ row.sessionId = a.family ∧
    row.expiresAt = a.expiresAt ∧ row.scope = a.scope

def Phase.Known (stored : List StoredToken) : Phase → Prop
  | .superseding request row => ReadOf stored request row
  | .storingRotated request row => ReadOf stored request row
  | .revoking sessionId => ∃ a ∈ stored, a.family = sessionId
  | _ => True

/-- The phase will insert a token of the family. -/
def Phase.rotates (sessionId : String) : Phase → Bool
  | .superseding _ row => row.sessionId == sessionId
  | .storingRotated _ row => row.sessionId == sessionId
  | _ => false

variable {ext : Externals} {s t : State} {i now : Nat} {stored stored' : List StoredToken}
  {tokens : List StoredToken} {phase : Phase} {token a b : StoredToken}

theorem Phase.Known.mono (h : phase.Known stored) (hSub : ∀ a ∈ stored, a ∈ stored') :
    phase.Known stored' := by
  cases phase with
  | superseding request row =>
    obtain ⟨a, ha, hRead⟩ := h
    exact ⟨a, hSub a ha, hRead⟩
  | storingRotated request row =>
    obtain ⟨a, ha, hRead⟩ := h
    exact ⟨a, hSub a ha, hRead⟩
  | revoking sessionId =>
    obtain ⟨a, ha, hFamily⟩ := h
    exact ⟨a, hSub a ha, hFamily⟩
  | _ => trivial

/-- Every token of the table was inserted with the same grant. -/
def Recorded (stored tokens : List StoredToken) : Prop :=
  ∀ token ∈ tokens, ∃ a ∈ stored, token.grant = a.grant

theorem readOf_columns {request : RefreshRequest} (h : Recorded stored tokens)
    (hToken : token ∈ tokens) (hId : token.id = request.tokenHash) :
    ReadOf stored request (token.columns now) := by
  obtain ⟨a, ha, hGrant⟩ := h token hToken
  exact ⟨a, ha, (StoredToken.id_of_grant hGrant).symm.trans hId,
    StoredToken.family_of_grant hGrant, StoredToken.expiresAt_of_grant hGrant,
    StoredToken.scope_of_grant hGrant⟩

/-! ## The ledger -/

/-- What an event says about the tokens that were inserted. -/
def Event.Sound (ext : Externals) (stored : List StoredToken) : Event → Prop
  | .exchanged _ _ => True
  | .rotated presented token => token ∈ stored ∧ ∃ a ∈ stored, a.id = presented ∧
      token.family = a.family ∧ token.expiresAt = a.expiresAt ∧
      grantedScope ext token.scope = grantedScope ext a.scope
  | .revoked sessionId => ∃ a ∈ stored, a.family = sessionId

theorem Event.Sound.mono {event : Event} (h : event.Sound ext stored)
    (hSub : ∀ a ∈ stored, a ∈ stored') : event.Sound ext stored' := by
  cases event with
  | exchanged code token => trivial
  | rotated presented token =>
    obtain ⟨hToken, a, ha, hRest⟩ := h
    exact ⟨hSub token hToken, a, hSub a ha, hRest⟩
  | revoked sessionId =>
    obtain ⟨a, ha, hFamily⟩ := h
    exact ⟨a, hSub a ha, hFamily⟩

structure LedgerInv (ext : Externals) (s : State) : Prop where
  storedKeys : Keyed StoredToken.id s.stored
  tokenKeys : Keyed StoredToken.id s.tokens
  recorded : Recorded s.stored s.tokens
  known : ∀ phase ∈ s.requests, phase.Known s.stored
  sound : ∀ event ∈ s.log, event.Sound ext s.stored

theorem ledgerInv_opened {codes : List StoredAuthCode} (h : Keyed StoredToken.id tokens) :
    LedgerInv ext (State.opened codes tokens) where
  storedKeys := h
  tokenKeys := h
  recorded := fun token hToken => ⟨token, hToken, rfl⟩
  known := fun _ hPhase => absurd hPhase List.not_mem_nil
  sound := fun _ hEvent => absurd hEvent List.not_mem_nil

/-- A step that inserts no token. -/
theorem LedgerInv.frame (h : LedgerInv ext s) (hStored : t.stored = s.stored)
    (hKeys : Keyed StoredToken.id t.tokens)
    (hTokens : ∀ token ∈ t.tokens, ∃ old ∈ s.tokens, token.grant = old.grant)
    (hKnown : ∀ phase ∈ t.requests, phase.Known s.stored)
    (hSound : ∀ event ∈ t.log, event.Sound ext s.stored) : LedgerInv ext t where
  storedKeys := hStored ▸ h.storedKeys
  tokenKeys := hKeys
  recorded := by
    intro token hToken
    obtain ⟨old, hOld, hGrant⟩ := hTokens token hToken
    obtain ⟨a, ha, hRecorded⟩ := h.recorded old hOld
    exact ⟨a, hStored ▸ ha, hGrant.trans hRecorded⟩
  known := by
    intro phase hPhase
    rw [hStored]
    exact hKnown phase hPhase
  sound := by
    intro event hEvent
    rw [hStored]
    exact hSound event hEvent

theorem LedgerInv.arrive (h : LedgerInv ext s) (hPhase : phase.Known s.stored) :
    LedgerInv ext (s.arrive phase) :=
  h.frame rfl h.tokenKeys (fun token hToken => ⟨token, hToken, rfl⟩)
    (forall_mem_append_singleton h.known hPhase) h.sound

theorem isFresh_iff {tokenHash : String} :
    s.isFresh tokenHash = true ↔
      ∀ a ∈ s.stored, a.id ≠ tokenHash ∧ a.family ≠ tokenHash := by
  simp [State.isFresh]

/-- A request inserts its token under a fresh hash. -/
theorem LedgerInv.insert {event : Event} (h : LedgerInv ext s)
    (hFresh : s.isFresh token.id = true) (hTokens : t.tokens = s.tokens ++ [token])
    (hStored : t.stored = s.stored ++ [token])
    (hRequests : t.requests = s.requests.set i (.granted token))
    (hLog : t.log = event :: s.log) (hEvent : event.Sound ext (s.stored ++ [token])) :
    LedgerInv ext t where
  storedKeys := by
    rw [hStored]
    exact h.storedKeys.append fun old hOld => (isFresh_iff.mp hFresh old hOld).1
  tokenKeys := by
    rw [hTokens]
    apply h.tokenKeys.append
    intro old hOld
    obtain ⟨a, ha, hGrant⟩ := h.recorded old hOld
    rw [StoredToken.id_of_grant hGrant]
    exact (isFresh_iff.mp hFresh a ha).1
  recorded := by
    rw [hTokens, hStored]
    intro other hOther
    rcases List.mem_append.mp hOther with hOther | hOther
    · obtain ⟨a, ha, hGrant⟩ := h.recorded other hOther
      exact ⟨a, List.mem_append_left _ ha, hGrant⟩
    · exact ⟨other, List.mem_append_right _ hOther, rfl⟩
  known := by
    rw [hRequests, hStored]
    refine forall_mem_set (P := Phase.Known (s.stored ++ [token])) ?_ trivial
    intro phase hPhase
    exact (h.known phase hPhase).mono fun a ha => List.mem_append_left _ ha
  sound := by
    rw [hLog, hStored]
    intro other hOther
    rcases List.mem_cons.mp hOther with rfl | hOther
    · exact hEvent
    · exact (h.sound other hOther).mono fun a ha => List.mem_append_left _ ha

/-! ## Reads -/

theorem lookupRefresh_ok {request : TokenRequest} {admitted : RefreshRequest}
    {row : RefreshTokenRow} (h : s.lookupRefresh ext request now = .ok (admitted, row)) :
    ∃ token ∈ s.tokens, token.id = admitted.tokenHash ∧ row = token.columns now := by
  obtain ⟨presented, _, h⟩ := bind_ok.mp h
  cases hFind : getOauthRefreshToken s.tokens presented.tokenHash now with
  | none =>
    rw [hFind] at h
    cases h
  | some found =>
    rw [hFind] at h
    obtain ⟨_, _, h⟩ := bind_ok.mp h
    cases h
    exact mem_of_getOauthRefreshToken hFind

theorem revocable_some {tokenHash jkt : String} {clientId : Option String}
    {row : RefreshTokenRow} (h : s.revocable tokenHash clientId jkt now = some row) :
    ∃ token ∈ s.tokens, row = token.columns now := by
  obtain ⟨hFind, _⟩ := Option.filter_eq_some_iff.mp h
  obtain ⟨token, hToken, _, hRow⟩ := mem_of_getOauthRefreshToken hFind
  exact ⟨token, hToken, hRow⟩

/-- The phase after a read: a rotation or a revocation of the family that was read. -/
theorem known_refreshPhase {request : RefreshRequest} {row : RefreshTokenRow}
    (h : ReadOf stored request row) : (State.refreshPhase request row).Known stored := by
  rw [State.refreshPhase]
  split
  · exact h
  · exact h
  · obtain ⟨a, ha, _, hFamily, _⟩ := h
    exact ⟨a, ha, hFamily.symm⟩

/-- The phases in which a request can be after the statement in which it arrives. -/
inductive Arrival (ext : Externals) (s : State) : Phase → Prop where
  | neutral {phase : Phase} (hKnown : ∀ stored, phase.Known stored)
      (hRotates : ∀ sessionId, phase.rotates sessionId = false) : Arrival ext s phase
  | refresh {request : RefreshRequest} {token : StoredToken} {now : Nat} (hToken : token ∈ s.tokens)
      (hId : token.id = request.tokenHash) :
      Arrival ext s (State.refreshPhase request (token.columns now))
  | revoke {token : StoredToken} (hToken : token ∈ s.tokens) :
      Arrival ext s (.revoking token.family)

theorem arrival_presentCode (ext : Externals) (s : State) (request : TokenRequest) (now : Nat) :
    ∃ phase, s.presentCode ext request now = s.arrive phase ∧ Arrival ext s phase := by
  rw [State.presentCode]
  split
  · exact ⟨_, rfl, .neutral (fun _ => trivial) fun _ => rfl⟩
  · exact ⟨_, rfl, .neutral (fun _ => trivial) fun _ => rfl⟩

theorem arrival_presentRefresh (ext : Externals) (s : State) (request : TokenRequest) (now : Nat) :
    ∃ phase, s.presentRefresh ext request now = s.arrive phase ∧ Arrival ext s phase := by
  rw [State.presentRefresh]
  split
  · rename_i admitted row hLookup
    obtain ⟨token, hToken, hId, rfl⟩ := lookupRefresh_ok hLookup
    exact ⟨_, rfl, .refresh hToken hId⟩
  · exact ⟨_, rfl, .neutral (fun _ => trivial) fun _ => rfl⟩

theorem arrival_presentRevocation (ext : Externals) (s : State) (request : RevokeRequest)
    (now : Nat) :
    ∃ phase, s.presentRevocation ext request now = s.arrive phase ∧ Arrival ext s phase := by
  rw [State.presentRevocation]
  split
  · exact ⟨_, rfl, .neutral (fun _ => trivial) fun _ => rfl⟩
  · exact ⟨_, rfl, .neutral (fun _ => trivial) fun _ => rfl⟩
  · split
    · rename_i row hFind
      obtain ⟨bytes, _, hFind⟩ := Option.bind_eq_some_iff.mp hFind
      obtain ⟨token, hToken, rfl⟩ := revocable_some hFind
      exact ⟨_, rfl, .revoke hToken⟩
    · exact ⟨_, rfl, .neutral (fun _ => trivial) fun _ => rfl⟩

theorem LedgerInv.arrival (h : LedgerInv ext s)
    (hArrives : ∃ phase, t = s.arrive phase ∧ Arrival ext s phase) : LedgerInv ext t := by
  obtain ⟨phase, rfl, hArrival⟩ := hArrives
  apply h.arrive
  cases hArrival with
  | neutral hKnown _ => exact hKnown s.stored
  | refresh hToken hId => exact known_refreshPhase (readOf_columns h.recorded hToken hId)
  | revoke hToken =>
    obtain ⟨a, ha, hGrant⟩ := h.recorded _ hToken
    exact ⟨a, ha, (StoredToken.family_of_grant hGrant).symm⟩

theorem known_at (h : LedgerInv ext s) (hPhase : s.requests[i]? = some phase) :
    phase.Known s.stored :=
  h.known phase (List.mem_of_getElem? hPhase)

/-- A request goes on, and no token is inserted. -/
theorem LedgerInv.advance (h : LedgerInv ext s) (hStored : t.stored = s.stored)
    (hKeys : Keyed StoredToken.id t.tokens)
    (hTokens : ∀ token ∈ t.tokens, ∃ old ∈ s.tokens, token.grant = old.grant)
    (hRequests : t.requests = s.requests.set i phase) (hPhase : phase.Known s.stored)
    (hSound : ∀ event ∈ t.log, event.Sound ext s.stored) : LedgerInv ext t := by
  apply h.frame hStored hKeys hTokens _ hSound
  rw [hRequests]
  exact forall_mem_set h.known hPhase

theorem same_tokens : ∀ token ∈ s.tokens, ∃ old ∈ s.tokens, token.grant = old.grant :=
  fun token hToken => ⟨token, hToken, rfl⟩

/-! ## Steps -/

theorem ledgerInv_storeInitial {tokenHash : String} (h : LedgerInv ext s)
    (hStep : s.storeInitial i tokenHash now = some t) : LedgerInv ext t := by
  obtain ⟨request, row, token, _, hFresh, rfl, rfl⟩ := State.storeInitial_some hStep
  exact h.insert hFresh rfl rfl rfl rfl trivial

theorem ledgerInv_supersede (h : LedgerInv ext s) (hStep : s.supersede i now = some t) :
    LedgerInv ext t := by
  obtain ⟨request, row, hPhase, rfl⟩ := State.supersede_some hStep
  have hRead : ReadOf s.stored request row := known_at h hPhase
  refine h.advance rfl ?_ (fun token hToken => exists_of_supersede hToken) rfl hRead h.sound
  exact h.tokenKeys.updateWhere fun _ => rfl

/-- The successor grants and expires as what was read. -/
theorem ledgerInv_storeRotated {tokenHash : String} (h : LedgerInv ext s)
    (hStep : s.storeRotated ext i tokenHash = some t) : LedgerInv ext t := by
  obtain ⟨request, row, token, hPhase, hFresh, rfl, rfl⟩ := State.storeRotated_some hStep
  apply h.insert hFresh rfl rfl rfl rfl
  obtain ⟨a, ha, hId, hFamily, hExpires, hScope⟩ := known_at h hPhase
  refine ⟨List.mem_append_right _ List.mem_cons_self, a, List.mem_append_left _ ha, hId,
    hFamily, hExpires, ?_⟩
  rw [← hScope]
  exact grantedScope_grantedScope ext row.scope

theorem ledgerInv_revokeFamily (h : LedgerInv ext s) (hStep : s.revokeFamily i = some t) :
    LedgerInv ext t := by
  obtain ⟨sessionId, hPhase, rfl⟩ := State.revokeFamily_some hStep
  refine h.advance rfl (Keyed.deleteWhere h.tokenKeys) ?_ rfl trivial ?_
  · intro token hToken
    exact ⟨token, (mem_deleteOauthRefreshSession.mp hToken).1, rfl⟩
  · intro event hEvent
    rcases List.mem_cons.mp hEvent with rfl | hEvent
    · exact known_at h hPhase
    · exact h.sound event hEvent

theorem ledgerInv_step {label : Label} (h : LedgerInv ext s)
    (hStep : s.step ext label = some t) : LedgerInv ext t := by
  cases label with
  | issueCode code row now =>
    obtain ⟨_, rfl⟩ := State.issueCode_some hStep
    exact h.frame rfl h.tokenKeys same_tokens h.known h.sound
  | presentCode request now =>
    cases hStep
    exact h.arrival (arrival_presentCode ext s request now)
  | consumeCode i =>
    obtain ⟨request, row, _, rfl⟩ := State.consumeCode_some hStep
    exact h.advance rfl h.tokenKeys same_tokens rfl trivial h.sound
  | storeInitial i tokenHash now => exact ledgerInv_storeInitial h hStep
  | presentRefresh request now =>
    cases hStep
    exact h.arrival (arrival_presentRefresh ext s request now)
  | supersede i now => exact ledgerInv_supersede h hStep
  | storeRotated i tokenHash => exact ledgerInv_storeRotated h hStep
  | presentRevocation request now =>
    cases hStep
    exact h.arrival (arrival_presentRevocation ext s request now)
  | revokeFamily i => exact ledgerInv_revokeFamily h hStep
  | cleanupExpired now =>
    cases hStep
    apply h.frame (t := s.cleanupExpired now) rfl (Keyed.deleteWhere h.tokenKeys) _ h.known h.sound
    intro token hToken
    exact ⟨token, (mem_deleteWhere.mp hToken).1, rfl⟩
  | endRequest i =>
    obtain ⟨phase, _, rfl⟩ := State.endRequest_some hStep
    exact h.advance rfl h.tokenKeys same_tokens rfl trivial h.sound

/-! ## Chains of rotations -/

/-- `b` was inserted by a request that presented `a`. -/
def Rotates (log : List Event) (a b : StoredToken) : Prop :=
  .rotated a.id b ∈ log

/-- What a rotation leaves as it was. -/
def SameSession (ext : Externals) (a b : StoredToken) : Prop :=
  b.family = a.family ∧ b.expiresAt = a.expiresAt ∧
    grantedScope ext b.scope = grantedScope ext a.scope

theorem rotates_sameSession (h : LedgerInv ext s) (ha : a ∈ s.stored)
    (hRotates : Rotates s.log a b) :
    b ∈ s.stored ∧ SameSession ext a b := by
  obtain ⟨hb, a', ha', hId, hRest⟩ := h.sound _ hRotates
  have hEq := h.storedKeys.eq_of_key ha' ha hId
  subst hEq
  exact ⟨hb, hRest⟩

theorem chain_grant (h : LedgerInv ext s) (ha : a ∈ s.stored)
    (hChain : Relation.ReflTransGen (Rotates s.log) a b) :
    b ∈ s.stored ∧ SameSession ext a b := by
  induction hChain with
  | refl => exact ⟨ha, rfl, rfl, rfl⟩
  | tail _ hRotates ih =>
    obtain ⟨hb, hFamily, hExpires, hScope⟩ := ih
    obtain ⟨hc, hFamily', hExpires', hScope'⟩ := rotates_sameSession h hb hRotates
    exact ⟨hc, hFamily'.trans hFamily, hExpires'.trans hExpires, hScope'.trans hScope⟩

/-! ## A replay after the grace window -/

/-- A superseded token that its client presents after the grace window puts the request on
the way to revoke the family, and what such a request does next leaves no token of it. -/
structure ReplayRevokes (ext : Externals) (s : State) : Prop where
  present : ∀ token ∈ s.tokens, ∀ request admitted now supersededAt,
    admitRefresh ext request = .ok admitted → token.id = admitted.tokenHash →
    token.clientId = admitted.clientId → token.jkt = some admitted.jkt →
    now < token.expiresAt → token.supersededAt = some supersededAt →
    supersededAt + refreshReuseGrace ≤ now →
    s.step ext (.presentRefresh request now) = some (s.arrive (.revoking token.family))
  revoke : ∀ i sessionId, s.requests[i]? = some (.revoking sessionId) →
    ∃ t, s.step ext (.revokeFamily i) = some t ∧ .revoked sessionId ∈ t.log ∧
      ∀ token ∈ t.tokens, token.family ≠ sessionId

theorem replayRevokes (h : LedgerInv ext s) : ReplayRevokes ext s where
  present := by
    intro token hToken request admitted now supersededAt hAdmit hId hClient hJkt hLive
      hSuperseded hGrace
    have hFind := getOauthRefreshToken_eq h.tokenKeys hToken hLive
    have hCheck : checkRefresh admitted (token.columns now) = .ok () := by
      simp only [checkRefresh, StoredToken.columns, hClient, hJkt, beq_self_eq_true,
        Option.isSome_some]
      rfl
    have hLookup : s.lookupRefresh ext request now = .ok (admitted, token.columns now) := by
      refine bind_ok.mpr ⟨admitted, hAdmit, ?_⟩
      rw [← hId, hFind]
      exact bind_ok.mpr ⟨(), hCheck, rfl⟩
    have hLate : ¬ now < supersededAt + refreshReuseGrace := by omega
    rw [State.step, State.presentRefresh, hLookup]
    simp only [State.refreshPhase, StoredToken.columns, hSuperseded, Option.map_some, hLate,
      decide_false]
  revoke := by
    intro i sessionId hPhase
    refine ⟨_, by rw [State.step, State.revokeFamily, hPhase], List.mem_cons_self, ?_⟩
    intro token hToken
    exact (mem_deleteOauthRefreshSession.mp hToken).2

/-! ## Nothing is left of a revoked family -/

/-- The session family that an event grants a token of. -/
def Event.grants : Event → Option String
  | .exchanged _ token => some token.family
  | .rotated _ token => some token.family
  | .revoked _ => none

/-- The newer event grants no token of a family that the older one revokes. -/
def Event.Respects (newer older : Event) : Prop :=
  ∀ sessionId, older = .revoked sessionId → newer.grants ≠ some sessionId

structure FinalInv (s : State) : Prop where
  gone : ∀ sessionId, .revoked sessionId ∈ s.log →
    ∀ token ∈ s.tokens, token.family ≠ sessionId
  settled : ∀ sessionId, .revoked sessionId ∈ s.log →
    ∀ phase ∈ s.requests, phase.rotates sessionId = false
  order : s.log.Pairwise Event.Respects

/-- No family is revoked while a rotation of it is under way. -/
def Settled (s : State) : Label → Prop
  | .revokeFamily i =>
    match s.requests[i]? with
    | some (.revoking sessionId) => ∀ phase ∈ s.requests, phase.rotates sessionId = false
    | _ => True
  | _ => True

instance (s : State) (label : Label) : Decidable (Settled s label) := by
  unfold Settled
  split
  · split <;> infer_instance
  · infer_instance

theorem finalInv_opened (codes : List StoredAuthCode) (tokens : List StoredToken) :
    FinalInv (State.opened codes tokens) where
  gone := fun _ hRevoked => absurd hRevoked List.not_mem_nil
  settled := fun _ hRevoked => absurd hRevoked List.not_mem_nil
  order := .nil

/-- A step that neither inserts a token nor revokes. -/
theorem FinalInv.frame (h : FinalInv s) (hLog : t.log = s.log)
    (hTokens : ∀ token ∈ t.tokens, ∃ old ∈ s.tokens, token.grant = old.grant)
    (hSettled : ∀ sessionId, .revoked sessionId ∈ s.log →
      ∀ phase ∈ t.requests, phase.rotates sessionId = false) : FinalInv t where
  gone := by
    intro sessionId hRevoked token hToken
    obtain ⟨old, hOld, hGrant⟩ := hTokens token hToken
    rw [StoredToken.family_of_grant hGrant]
    exact h.gone sessionId (hLog ▸ hRevoked) old hOld
  settled := by
    intro sessionId hRevoked
    exact hSettled sessionId (hLog ▸ hRevoked)
  order := hLog ▸ h.order

theorem FinalInv.advance (h : FinalInv s) (hLog : t.log = s.log)
    (hTokens : ∀ token ∈ t.tokens, ∃ old ∈ s.tokens, token.grant = old.grant)
    (hRequests : t.requests = s.requests.set i phase)
    (hRotates : ∀ sessionId, .revoked sessionId ∈ s.log → phase.rotates sessionId = false) :
    FinalInv t := by
  apply h.frame hLog hTokens
  intro sessionId hRevoked
  rw [hRequests]
  exact forall_mem_set (h.settled sessionId hRevoked) (hRotates sessionId hRevoked)

theorem rotates_refreshPhase {request : RefreshRequest} {row : RefreshTokenRow}
    {sessionId : String} (h : row.sessionId ≠ sessionId) :
    (State.refreshPhase request row).rotates sessionId = false := by
  have hBeq : (row.sessionId == sessionId) = false := by simpa using h
  rw [State.refreshPhase]
  split
  · exact hBeq
  · exact hBeq
  · rfl

theorem FinalInv.arrival (h : FinalInv s)
    (hArrives : ∃ phase, t = s.arrive phase ∧ Arrival ext s phase) : FinalInv t := by
  obtain ⟨phase, rfl, hArrival⟩ := hArrives
  refine h.frame rfl same_tokens ?_
  intro sessionId hRevoked
  refine forall_mem_append_singleton (h.settled sessionId hRevoked) ?_
  cases hArrival with
  | neutral _ hRotates => exact hRotates sessionId
  | refresh hToken _ => exact rotates_refreshPhase (h.gone sessionId hRevoked _ hToken)
  | revoke hToken => rfl

/-- A token of a family that was not revoked. -/
theorem FinalInv.insert {event : Event} (h : FinalInv s)
    (hFamily : .revoked token.family ∉ s.log) (hTokens : t.tokens = s.tokens ++ [token])
    (hRequests : t.requests = s.requests.set i (.granted token)) (hLog : t.log = event :: s.log)
    (hGrants : event.grants = some token.family) : FinalInv t where
  gone := by
    rw [hTokens, hLog]
    intro sessionId hRevoked other hOther
    have hOld : .revoked sessionId ∈ s.log := by
      apply (List.mem_cons.mp hRevoked).resolve_left
      rintro rfl
      cases hGrants
    rcases List.mem_append.mp hOther with hOther | hOther
    · exact h.gone sessionId hOld other hOther
    · rw [List.mem_singleton.mp hOther]
      rintro rfl
      exact hFamily hOld
  settled := by
    rw [hRequests, hLog]
    intro sessionId hRevoked
    have hOld : .revoked sessionId ∈ s.log := by
      apply (List.mem_cons.mp hRevoked).resolve_left
      rintro rfl
      cases hGrants
    exact forall_mem_set (h.settled sessionId hOld) rfl
  order := by
    rw [hLog]
    refine .cons ?_ h.order
    rintro older hOlder sessionId rfl hEq
    rw [hGrants, Option.some.injEq] at hEq
    exact hFamily (hEq ▸ hOlder)

/-- A fresh hash is the family of nothing that was revoked. -/
theorem finalInv_storeInitial {tokenHash : String} (hLedger : LedgerInv ext s) (h : FinalInv s)
    (hStep : s.storeInitial i tokenHash now = some t) : FinalInv t := by
  obtain ⟨request, row, token, _, hFresh, rfl, rfl⟩ := State.storeInitial_some hStep
  refine h.insert ?_ rfl rfl rfl rfl
  intro hRevoked
  obtain ⟨a, ha, hFamily⟩ := hLedger.sound _ hRevoked
  exact (isFresh_iff.mp hFresh a ha).2 hFamily

theorem finalInv_supersede (h : FinalInv s) (hStep : s.supersede i now = some t) :
    FinalInv t := by
  obtain ⟨request, row, hPhase, rfl⟩ := State.supersede_some hStep
  refine h.advance rfl (fun token hToken => exists_of_supersede hToken) rfl ?_
  intro sessionId hRevoked
  have hRotates : (row.sessionId == sessionId) = false :=
    h.settled sessionId hRevoked (.superseding request row) (List.mem_of_getElem? hPhase)
  exact hRotates

/-- The family is not a revoked one: the request would not be under way. -/
theorem finalInv_storeRotated {tokenHash : String} (h : FinalInv s)
    (hStep : s.storeRotated ext i tokenHash = some t) : FinalInv t := by
  obtain ⟨request, row, token, hPhase, _, rfl, rfl⟩ := State.storeRotated_some hStep
  refine h.insert ?_ rfl rfl rfl rfl
  intro hRevoked
  have hRotates : (row.sessionId == row.sessionId) = false :=
    h.settled row.sessionId hRevoked _ (List.mem_of_getElem? hPhase)
  simp at hRotates

theorem finalInv_revokeFamily (h : FinalInv s) (hSettled : Settled s (.revokeFamily i))
    (hStep : s.revokeFamily i = some t) : FinalInv t := by
  obtain ⟨sessionId, hPhase, rfl⟩ := State.revokeFamily_some hStep
  simp only [Settled, hPhase] at hSettled
  refine ⟨?_, ?_, ?_⟩
  · intro revoked hRevoked token hToken
    obtain ⟨hToken, hOther⟩ := mem_deleteOauthRefreshSession.mp hToken
    rcases List.mem_cons.mp hRevoked with hEq | hRevoked
    · cases hEq
      exact hOther
    · exact h.gone revoked hRevoked token hToken
  · intro revoked hRevoked
    refine forall_mem_set ?_ rfl
    rcases List.mem_cons.mp hRevoked with hEq | hRevoked
    · cases hEq
      exact hSettled
    · exact h.settled revoked hRevoked
  · refine .cons ?_ h.order
    intro older _ revoked _ hEq
    cases hEq

theorem finalInv_step {label : Label} (hLedger : LedgerInv ext s) (h : FinalInv s)
    (hSettled : Settled s label) (hStep : s.step ext label = some t) : FinalInv t := by
  cases label with
  | issueCode code row now =>
    obtain ⟨_, rfl⟩ := State.issueCode_some hStep
    exact h.frame rfl same_tokens h.settled
  | presentCode request now =>
    cases hStep
    exact h.arrival (arrival_presentCode ext s request now)
  | consumeCode i =>
    obtain ⟨request, row, _, rfl⟩ := State.consumeCode_some hStep
    exact h.advance rfl same_tokens rfl fun _ _ => rfl
  | storeInitial i tokenHash now => exact finalInv_storeInitial hLedger h hStep
  | presentRefresh request now =>
    cases hStep
    exact h.arrival (arrival_presentRefresh ext s request now)
  | supersede i now => exact finalInv_supersede h hStep
  | storeRotated i tokenHash => exact finalInv_storeRotated h hStep
  | presentRevocation request now =>
    cases hStep
    exact h.arrival (arrival_presentRevocation ext s request now)
  | revokeFamily i => exact finalInv_revokeFamily h hSettled hStep
  | cleanupExpired now =>
    cases hStep
    refine h.frame (t := s.cleanupExpired now) rfl ?_ h.settled
    intro token hToken
    exact ⟨token, (mem_deleteWhere.mp hToken).1, rfl⟩
  | endRequest i =>
    obtain ⟨phase, _, rfl⟩ := State.endRequest_some hStep
    exact h.advance rfl same_tokens rfl fun _ _ => rfl

/-! ## Runs -/

/-- Over every run, a replay after the grace window revokes its family, and a chain of
rotations keeps its expiry and what it grants. If moreover no family is revoked while a
rotation of it is under way, then a revoked family has no token any more, and none of its
tokens was accepted after the revocation. -/
theorem family_revocation_final {codes : List StoredAuthCode} {labels : List Label}
    (hKeys : Keyed StoredToken.id tokens)
    (hRun : run (State.step ext) (State.opened codes tokens) labels = some t) :
    ReplayRevokes ext t ∧
      (∀ a ∈ t.stored, ∀ b, Relation.ReflTransGen (Rotates t.log) a b → SameSession ext a b) ∧
      (Along (State.step ext) Settled (State.opened codes tokens) labels →
        (∀ sessionId, .revoked sessionId ∈ t.log →
          ∀ token ∈ t.tokens, token.family ≠ sessionId) ∧
        t.log.Pairwise Event.Respects) := by
  have hLedger : LedgerInv ext t :=
    run_invariant (fun s label t hs hStep => ledgerInv_step hs hStep) (ledgerInv_opened hKeys) hRun
  refine ⟨replayRevokes hLedger, fun a ha b hChain => (chain_grant hLedger ha hChain).2, ?_⟩
  intro hSettled
  have hFinal : LedgerInv ext t ∧ FinalInv t := by
    refine run_invariant_along (I := fun s => LedgerInv ext s ∧ FinalInv s) ?_
      ⟨ledgerInv_opened hKeys, finalInv_opened codes tokens⟩ hSettled hRun
    intro s label u hs hGuard hStep
    exact ⟨ledgerInv_step hs.1 hStep, finalInv_step hs.1 hs.2 hGuard hStep⟩
  exact ⟨hFinal.2.gone, hFinal.2.order⟩

/-! ## A rotation and a replay -/

/-- A token of the family `first`, bound to the key of the requests below. -/
def memberToken (id : String) (supersededAt : Option Nat) : StoredToken where
  id := id
  sessionId := some "first"
  clientId := "https://app.example.com/client-metadata.json"
  did := "did:plc:testaccount000000000000"
  scope := "atproto"
  jkt := some "key"
  expiresAt := 1000
  supersededAt := supersededAt

/-- The current token, `test`, and `tok`, which was rotated away long ago. -/
def familyTokens : List StoredToken :=
  [memberToken "9f86d081884c7d659a2feaa0c55ad015a3bf4f1b2b0b822cd15d6c15b0f00a08" none,
    memberToken "1a7674eb4ee78df7e1ac439a93c3fa8e3c945784d4dec9fd8e3011738b2f1d62" (some 0)]

def refreshOf (refreshToken : String) : TokenRequest where
  form :=
    { code := none
      redirectUri := none
      clientId := some "https://app.example.com/client-metadata.json"
      codeVerifier := none
      refreshToken := some refreshToken }
  clientAuth := .ok ()
  dpop := .ok "key"

/-- The client has its new token before the old one is replayed. -/
def replayedAfter : List Label :=
  [.presentRefresh (refreshOf "dGVzdA") 100, .supersede 0 100, .storeRotated 0 "second",
    .presentRefresh (refreshOf "dG9r") 101, .revokeFamily 1]

/-- The replay revokes the family between the client's read and its rotation. -/
def replayedDuring : List Label :=
  [.presentRefresh (refreshOf "dGVzdA") 100, .presentRefresh (refreshOf "dG9r") 100,
    .revokeFamily 1, .supersede 0 101, .storeRotated 0 "second"]

def replayed (labels : List Label) : Option State :=
  run (State.step knownHashes) (State.opened [] familyTokens) labels

theorem family_revocation_final_replayedAfter :
    ∃ t, replayed replayedAfter = some t ∧ ReplayRevokes knownHashes t ∧
      (∀ a ∈ t.stored, ∀ b, Relation.ReflTransGen (Rotates t.log) a b →
        SameSession knownHashes a b) ∧
      (Along (State.step knownHashes) Settled (State.opened [] familyTokens) replayedAfter →
        (∀ sessionId, .revoked sessionId ∈ t.log →
          ∀ token ∈ t.tokens, token.family ≠ sessionId) ∧
        t.log.Pairwise Event.Respects) ∧
      Along (State.step knownHashes) Settled (State.opened [] familyTokens) replayedAfter := by
  have hEnd : (replayed replayedAfter).isSome = true := by
    decide +kernel
  obtain ⟨t, hRun⟩ := Option.isSome_iff_exists.mp hEnd
  obtain ⟨hReplay, hChain, hFinal⟩ :=
    family_revocation_final (by decide +kernel) hRun
  exact ⟨t, hRun, hReplay, hChain, hFinal, by decide +kernel⟩

/-- The revoked family has a token again. -/
theorem family_resurrected :
    ¬ ∀ (labels : List Label) (t : State), replayed labels = some t →
      ∀ sessionId, .revoked sessionId ∈ t.log →
        ∀ token ∈ t.tokens, token.family ≠ sessionId := by
  intro hClaim
  have hEnd : (replayed replayedDuring).map (fun t =>
      (decide (.revoked "first" ∈ t.log), t.tokens.map StoredToken.family)) =
        some (true, ["first"]) := by
    decide +kernel
  obtain ⟨t, hRun, hSeen⟩ := Option.map_eq_some_iff.mp hEnd
  obtain ⟨hLog, hTokens⟩ := Prod.mk.inj hSeen
  have hMem : "first" ∈ t.tokens.map StoredToken.family := by
    rw [hTokens]
    exact List.mem_cons_self
  obtain ⟨token, hToken, hFamily⟩ := List.mem_map.mp hMem
  exact hClaim replayedDuring t hRun "first" (of_decide_eq_true hLog) token hToken hFamily

end Ezpds.Oauth
