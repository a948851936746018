import Ezpds.Pds.RefreshSession

/-!
# Refresh tokens form a chain

The read of a refresh token stands outside the transaction that rotates it, so in between the
token may be rotated by another request, or deleted with its session. The guarded update of
the rotation finds an un-rotated row or rolls everything back, and the insert needs the row
of the session, which no revocation leaves and no later step brings back.

* `ChainInv`: the invariant; `linear` is what the guarded update preserves, and
  `revokedGone` what the foreign key does.
* `refresh_chain_linear`: over every run.
-/

namespace Ezpds.Pds.Sessions

open Library Auth

def Event.rotates (jti : String) : Event → Bool
  | .rotated j _ => j == jti
  | .revoked _ => false

/-- The un-rotated tokens of a session. -/
def isLive (sessionId : String) (row : RefreshTokenRow) : Bool :=
  row.sessionId = sessionId ∧ row.nextJti = none

/-! ## The invariant -/

/-- The token with the `jti` that was read, as far as it is still there, is of the session that
was read. -/
def ReadOf (tokens : List RefreshTokenRow) (drawn : List String) (jti : String)
    (token : ActiveRefreshToken) : Prop :=
  jti ∈ drawn ∧ ∀ row ∈ tokens, row.jti = jti → row.sessionId = token.sessionId

def Phase.Known (tokens : List RefreshTokenRow) (drawn : List String) : Phase → Prop
  | .readingGrants jti token _ => ReadOf tokens drawn jti token
  | .rotating jti token _ => ReadOf tokens drawn jti token
  | .revoking sessionId _ => sessionId ∈ drawn
  | _ => True

structure ChainInv (s : State) : Prop where
  keys : Keyed RefreshTokenRow.jti s.tokens
  drawnTokens : ∀ row ∈ s.tokens, row.jti ∈ s.drawn ∧ row.sessionId ∈ s.drawn
  drawnSessions : ∀ row ∈ s.sessions, row.id ∈ s.drawn
  linear : ∀ a ∈ s.tokens, ∀ b ∈ s.tokens, a.nextJti = none → b.nextJti = none →
    a.sessionId = b.sessionId → a = b
  known : ∀ phase ∈ s.requests, phase.Known s.tokens s.drawn
  rotatedOnce : ∀ jti, s.log.countP (Event.rotates jti) ≤ 1
  rotatedRows : ∀ jti newJti, .rotated jti newJti ∈ s.log →
    jti ∈ s.drawn ∧ ∀ row ∈ s.tokens, row.jti = jti → row.nextJti ≠ none
  revokedGone : ∀ sessionId, .revoked sessionId ∈ s.log → sessionId ∈ s.drawn ∧
    (∀ row ∈ s.sessions, row.id ≠ sessionId) ∧ ∀ row ∈ s.tokens, row.sessionId ≠ sessionId

variable {table : CaseTable} {s t : State} {i now : Nat} {phase : Phase}
  {tokens tokens' : List RefreshTokenRow} {drawn drawn' : List String}
  {row : RefreshTokenRow} {jti newJti sessionId : String} {token : ActiveRefreshToken}

theorem chainInv_empty : ChainInv State.empty where
  keys := List.nodup_nil
  drawnTokens := fun _ h => absurd h List.not_mem_nil
  drawnSessions := fun _ h => absurd h List.not_mem_nil
  linear := fun _ h => absurd h List.not_mem_nil
  known := fun _ h => absurd h List.not_mem_nil
  rotatedOnce := fun _ => Nat.zero_le 1
  rotatedRows := fun _ _ h => absurd h List.not_mem_nil
  revokedGone := fun _ h => absurd h List.not_mem_nil

/-- Of the rows with a `jti` that was drawn before, `tokens'` has none that `tokens` had not;
a row without a successor is the row that was there. -/
def Continues (drawn : List String) (tokens tokens' : List RefreshTokenRow) : Prop :=
  ∀ row ∈ tokens', row.jti ∈ drawn → ∃ old ∈ tokens,
    old.jti = row.jti ∧ old.sessionId = row.sessionId ∧ (row.nextJti = none → old = row)

theorem continues_of_subset (h : ∀ row ∈ tokens', row ∈ tokens) :
    Continues drawn tokens tokens' :=
  fun row hRow _ => ⟨row, h row hRow, rfl, rfl, fun _ => rfl⟩

theorem ReadOf.mono (h : ReadOf tokens drawn jti token) (hDrawn : ∀ x ∈ drawn, x ∈ drawn')
    (hTokens : Continues drawn tokens tokens') : ReadOf tokens' drawn' jti token := by
  refine ⟨hDrawn jti h.1, ?_⟩
  rintro row hRow rfl
  obtain ⟨old, hOld, hJti, hSession, _⟩ := hTokens row hRow h.1
  rw [← hSession]
  exact h.2 old hOld hJti

theorem Phase.Known.mono (h : phase.Known tokens drawn) (hDrawn : ∀ x ∈ drawn, x ∈ drawn')
    (hTokens : Continues drawn tokens tokens') : phase.Known tokens' drawn' := by
  cases phase with
  | readingGrants jti token name => exact ReadOf.mono h hDrawn hTokens
  | rotating jti token access => exact ReadOf.mono h hDrawn hTokens
  | revoking sessionId replay => exact hDrawn sessionId h
  | _ => trivial

/-! ## Steps that delete at most -/

theorem ChainInv.shrink (h : ChainInv s) (hDrawn : ∀ x ∈ s.drawn, x ∈ t.drawn)
    (hTokens : t.tokens.Sublist s.tokens) (hSessions : ∀ row ∈ t.sessions, row ∈ s.sessions)
    (hKnown : ∀ phase ∈ t.requests, phase.Known s.tokens s.drawn) (hLog : t.log = s.log) :
    ChainInv t where
  keys := List.Nodup.sublist (hTokens.map _) h.keys
  drawnTokens := by
    intro row hRow
    obtain ⟨hJti, hSession⟩ := h.drawnTokens row (hTokens.subset hRow)
    exact ⟨hDrawn _ hJti, hDrawn _ hSession⟩
  drawnSessions := fun row hRow => hDrawn _ (h.drawnSessions row (hSessions row hRow))
  linear := fun a ha b hb => h.linear a (hTokens.subset ha) b (hTokens.subset hb)
  known := by
    intro phase hPhase
    exact (hKnown phase hPhase).mono hDrawn
      (continues_of_subset fun row hRow => hTokens.subset hRow)
  rotatedOnce := hLog ▸ h.rotatedOnce
  rotatedRows := by
    intro jti newJti hRotated
    obtain ⟨hJti, hRows⟩ := h.rotatedRows jti newJti (hLog ▸ hRotated)
    exact ⟨hDrawn jti hJti, fun row hRow => hRows row (hTokens.subset hRow)⟩
  revokedGone := by
    intro sessionId hRevoked
    obtain ⟨hSession, hGone, hRows⟩ := h.revokedGone sessionId (hLog ▸ hRevoked)
    exact ⟨hDrawn sessionId hSession, fun row hRow => hGone row (hSessions row hRow),
      fun row hRow => hRows row (hTokens.subset hRow)⟩

theorem ChainInv.arrive (h : ChainInv s) (hPhase : phase.Known s.tokens s.drawn) :
    ChainInv (s.arrive phase) :=
  h.shrink (fun _ hx => hx) (List.Sublist.refl _) (fun _ hRow => hRow)
    (forall_mem_append_singleton h.known hPhase) rfl

theorem ChainInv.advance (h : ChainInv s) (hPhase : phase.Known s.tokens s.drawn) :
    ChainInv (s.advance i phase) :=
  h.shrink (fun _ hx => hx) (List.Sublist.refl _) (fun _ hRow => hRow)
    (forall_mem_set h.known hPhase) rfl

theorem ChainInv.draw (h : ChainInv s) : ChainInv { s with drawn := newJti :: s.drawn } :=
  h.shrink (fun _ hx => List.mem_cons_of_mem _ hx) (List.Sublist.refl _) (fun _ hRow => hRow)
    h.known rfl

/-- A revocation is remembered once nothing of the session is left. -/
theorem ChainInv.revoked (h : ChainInv s) (hDrawn : sessionId ∈ s.drawn)
    (hSessions : ∀ row ∈ s.sessions, row.id ≠ sessionId)
    (hTokens : ∀ row ∈ s.tokens, row.sessionId ≠ sessionId) :
    ChainInv { s with log := .revoked sessionId :: s.log } where
  keys := h.keys
  drawnTokens := h.drawnTokens
  drawnSessions := h.drawnSessions
  linear := h.linear
  known := h.known
  rotatedOnce := by
    intro jti
    rw [countP_cons_toNat]
    exact h.rotatedOnce jti
  rotatedRows := by
    intro jti newJti hRotated
    apply h.rotatedRows jti newJti
    exact (List.mem_cons.mp hRotated).resolve_left (by rintro ⟨⟩)
  revokedGone := by
    intro other hRevoked
    rcases List.mem_cons.mp hRevoked with hEq | hRevoked
    · cases hEq
      exact ⟨hDrawn, hSessions, hTokens⟩
    · exact h.revokedGone other hRevoked

theorem chainInv_revokeSession (h : ChainInv s) (hStep : s.revokeSession i = some t) :
    ChainInv t := by
  rw [State.revokeSession] at hStep
  split at hStep
  · rename_i sessionId replay hPhase
    cases hStep
    have hDrawn : sessionId ∈ s.drawn := h.known _ (List.mem_of_getElem? hPhase)
    have hAdvance : ChainInv (s.advance i (if replay then .refused tokenReused else .ended)) := by
      apply h.advance
      split <;> trivial
    -- the thread moves on and both tables lose the session; only then is it logged
    refine ChainInv.revoked (s := { s.advance i
        (if replay then .refused tokenReused else .ended) with
      sessions := deleteWhere (fun row => row.id = sessionId) s.sessions
      tokens := deleteWhere (fun row => row.sessionId = sessionId) s.tokens }) ?_ hDrawn ?_ ?_
    · exact hAdvance.shrink (fun _ hx => hx) List.filter_sublist
        (fun _ hRow => (mem_deleteWhere.mp hRow).1) hAdvance.known rfl
    · intro row hRow
      simpa using (mem_deleteWhere.mp hRow).2
    · intro row hRow
      simpa using (mem_deleteWhere.mp hRow).2
  · cases hStep

theorem chainInv_sweep {token : RefreshTokenRow → Bool} {session : SessionRow → Bool}
    (h : ChainInv s) (hStep : s.sweep token session = some t) : ChainInv t := by
  rw [State.sweep] at hStep
  split at hStep
  · cases hStep
    exact h.shrink (fun _ hx => hx) List.filter_sublist
      (fun _ hRow => (mem_deleteWhere.mp hRow).1) h.known rfl
  · cases hStep

/-! ## Reads -/

theorem mem_of_getActiveRefreshToken
    (h : getActiveRefreshToken tokens jti now = some token) :
    ∃ row ∈ tokens, row.jti = jti ∧ token = row.active := by
  obtain ⟨row, hFind, rfl⟩ := Option.map_eq_some_iff.mp h
  have hKey := List.find?_some hFind
  exact ⟨row, List.mem_of_find?_eq_some hFind, (of_decide_eq_true hKey).1, rfl⟩

/-- The key makes the row that was read the only one with its `jti`. -/
theorem readOf_active (h : ChainInv s) (hRow : row ∈ s.tokens) :
    ReadOf s.tokens s.drawn row.jti row.active := by
  refine ⟨(h.drawnTokens row hRow).1, ?_⟩
  intro other hOther hJti
  rw [h.keys.eq_of_key hOther hRow hJti]
  rfl

theorem known_afterRead (h : ChainInv s) (hRow : row ∈ s.tokens) :
    (State.afterRead row.jti row.active).Known s.tokens s.drawn := by
  rw [State.afterRead]
  split
  · exact (h.drawnTokens row hRow).2
  · split
    · exact readOf_active h hRow
    · exact readOf_active h hRow

theorem chainInv_presentRefresh {verified : Except ApiError RefreshTokenClaims}
    (h : ChainInv s) : ChainInv (s.presentRefresh table verified now) := by
  rw [State.presentRefresh]
  split
  · exact h.arrive trivial
  · split
    · rename_i token hFind
      obtain ⟨row, hRow, rfl, rfl⟩ := mem_of_getActiveRefreshToken hFind
      exact h.arrive (known_afterRead h hRow)
    · exact h.arrive trivial

theorem chainInv_presentLogout {verified : Except ApiError RefreshTokenClaims}
    (h : ChainInv s) : ChainInv (s.presentLogout table verified) := by
  rw [State.presentLogout]
  split
  · exact h.arrive trivial
  · split
    · rename_i sessionId hFind
      obtain ⟨row, hRow, rfl⟩ := Option.map_eq_some_iff.mp hFind
      exact h.arrive (h.drawnTokens row (List.mem_of_find?_eq_some hRow)).2
    · exact h.arrive trivial

theorem chainInv_readGrants (h : ChainInv s) (hStep : s.readGrants i = some t) : ChainInv t := by
  rw [State.readGrants] at hStep
  split at hStep
  · rename_i jti token name hPhase
    have hRead : ReadOf s.tokens s.drawn jti token :=
      h.known (.readingGrants jti token name) (List.mem_of_getElem? hPhase)
    split at hStep
    · cases hStep
      exact h.advance hRead
    · cases hStep
      exact h.advance trivial
  · cases hStep

/-! ## The issue of a session -/

theorem chainInv_issueSession {did : String} {kind : SessionKind} (h : ChainInv s)
    (hStep : s.issueSession did kind sessionId jti now = some t) : ChainInv t := by
  rw [State.issueSession] at hStep
  split at hStep
  · rename_i hFresh
    obtain ⟨_, hSessionNew, hJtiNew, _⟩ := hFresh
    cases hStep
    have hDrawn : ∀ x ∈ s.drawn, x ∈ sessionId :: jti :: s.drawn := fun x hx =>
      List.mem_cons_of_mem _ (List.mem_cons_of_mem _ hx)
    refine ⟨?_, ?_, ?_, ?_, ?_, h.rotatedOnce, ?_, ?_⟩
    · apply h.keys.append
      intro old hOld hEq
      have hJti : old.jti = jti := hEq
      exact hJtiNew (hJti ▸ (h.drawnTokens old hOld).1)
    · refine forall_mem_append_singleton ?_ ⟨by simp, by simp⟩
      intro row hRow
      obtain ⟨hJti, hSession⟩ := h.drawnTokens row hRow
      exact ⟨hDrawn _ hJti, hDrawn _ hSession⟩
    · refine forall_mem_append_singleton ?_ List.mem_cons_self
      intro row hRow
      exact hDrawn _ (h.drawnSessions row hRow)
    · -- the session is new, so its first token is alone in it
      have hOther : ∀ row ∈ s.tokens, row.sessionId ≠ sessionId := fun row hRow hEq =>
        hSessionNew (hEq ▸ (h.drawnTokens row hRow).2)
      intro a ha b hb hLiveA hLiveB hSame
      rcases List.mem_append.mp ha with ha | ha
      · rcases List.mem_append.mp hb with hb | hb
        · exact h.linear a ha b hb hLiveA hLiveB hSame
        · rw [List.mem_singleton.mp hb] at hSame
          exact absurd hSame (hOther a ha)
      · rcases List.mem_append.mp hb with hb | hb
        · rw [List.mem_singleton.mp ha] at hSame
          exact absurd hSame.symm (hOther b hb)
        · rw [List.mem_singleton.mp ha, List.mem_singleton.mp hb]
    · intro phase hPhase
      refine (h.known phase hPhase).mono hDrawn ?_
      intro row hRow hOld
      rcases List.mem_append.mp hRow with hRow | hRow
      · exact ⟨row, hRow, rfl, rfl, fun _ => rfl⟩
      · rw [List.mem_singleton.mp hRow] at hOld
        exact absurd hOld hJtiNew
    · intro rotated newJti hRotated
      obtain ⟨hJti, hRows⟩ := h.rotatedRows rotated newJti hRotated
      refine ⟨hDrawn rotated hJti, forall_mem_append_singleton hRows ?_⟩
      rintro rfl
      exact absurd hJti hJtiNew
    · intro revoked hRevoked
      obtain ⟨hSession, hGone, hRows⟩ := h.revokedGone revoked hRevoked
      have hNe : sessionId ≠ revoked := fun hEq => hSessionNew (hEq ▸ hSession)
      exact ⟨hDrawn revoked hSession, forall_mem_append_singleton hGone hNe,
        forall_mem_append_singleton hRows hNe⟩
  · cases hStep

/-! ## The rotation -/

/-- The rows after a rotation: the ones that it leaves, the one that it marks, and the
successor. -/
theorem mem_rotated {successor : RefreshTokenRow} (hNew : isUnrotated jti successor = false)
    (hRow : row ∈ updateWhere (isUnrotated jti) (RefreshTokenRow.rotated newJti)
      (tokens ++ [successor])) :
    (row ∈ tokens ∧ isUnrotated jti row = false) ∨
      (∃ old ∈ tokens, isUnrotated jti old = true ∧ row = old.rotated newJti) ∨
      row = successor := by
  obtain ⟨old, hOld, rfl⟩ := mem_updateWhere.mp hRow
  rcases List.mem_append.mp hOld with hOld | hOld
  · split
    · rename_i hUnrotated
      exact .inr (.inl ⟨old, hOld, hUnrotated, rfl⟩)
    · rename_i hRotated
      exact .inl ⟨hOld, by simpa using hRotated⟩
  · rw [List.mem_singleton.mp hOld, if_neg (by simp [hNew])]
    exact .inr (.inr rfl)

theorem isUnrotated_iff : isUnrotated jti row = true ↔ row.jti = jti ∧ row.nextJti = none := by
  simp [isUnrotated]

/-- What a committed rotation does to the tables: `old`, un-rotated until then, is marked, and
`successor` is inserted. -/
structure Rotation (s t : State) (jti newJti : String) (old successor : RefreshTokenRow) :
    Prop where
  fresh : newJti ∉ s.drawn
  successorJti : successor.jti = newJti
  successorSession : successor.sessionId = old.sessionId
  mem : old ∈ s.tokens
  unrotated : isUnrotated jti old = true
  session : old.sessionId ∈ s.sessions.map SessionRow.id
  sessions : t.sessions = s.sessions
  tokens : t.tokens = updateWhere (isUnrotated jti) (RefreshTokenRow.rotated newJti)
    (s.tokens ++ [successor])
  drawn : t.drawn = newJti :: s.drawn
  log : t.log = .rotated jti newJti :: s.log

namespace Rotation

variable {old successor : RefreshTokenRow}

theorem oldJti (r : Rotation s t jti newJti old successor) : old.jti = jti :=
  (isUnrotated_iff.mp r.unrotated).1

theorem oldLive (r : Rotation s t jti newJti old successor) : old.nextJti = none :=
  (isUnrotated_iff.mp r.unrotated).2

theorem mem_drawn (r : Rotation s t jti newJti old successor) (h : ChainInv s) :
    jti ∈ s.drawn :=
  r.oldJti ▸ (h.drawnTokens old r.mem).1

theorem drawn_mono (r : Rotation s t jti newJti old successor) : ∀ x ∈ s.drawn, x ∈ t.drawn := by
  intro x hx
  rw [r.drawn]
  exact List.mem_cons_of_mem _ hx

theorem rows (r : Rotation s t jti newJti old successor) (h : ChainInv s) (hRow : row ∈ t.tokens) :
    (row ∈ s.tokens ∧ isUnrotated jti row = false) ∨
      (∃ pre ∈ s.tokens, isUnrotated jti pre = true ∧ row = pre.rotated newJti) ∨
      row = successor := by
  have hSuccessor : isUnrotated jti successor = false := by
    apply Bool.eq_false_iff.mpr
    intro hEq
    have hJti := (isUnrotated_iff.mp hEq).1
    rw [r.successorJti] at hJti
    exact r.fresh (hJti ▸ r.mem_drawn h)
  rw [r.tokens] at hRow
  exact mem_rotated hSuccessor hRow

theorem continues (r : Rotation s t jti newJti old successor) (h : ChainInv s) :
    Continues s.drawn s.tokens t.tokens := by
  intro row hRow hKnown
  rcases r.rows h hRow with ⟨hRow, _⟩ | ⟨pre, hPre, _, rfl⟩ | rfl
  · exact ⟨row, hRow, rfl, rfl, fun _ => rfl⟩
  · exact ⟨pre, hPre, rfl, rfl, fun hNone => by cases hNone⟩
  · exact absurd (r.successorJti ▸ hKnown) r.fresh

theorem keys (r : Rotation s t jti newJti old successor) (h : ChainInv s) :
    Keyed RefreshTokenRow.jti t.tokens := by
  rw [r.tokens]
  refine Keyed.updateWhere (h.keys.append ?_) fun _ => rfl
  intro row hRow hEq
  rw [r.successorJti] at hEq
  exact r.fresh (hEq ▸ (h.drawnTokens row hRow).1)

theorem drawnTokens (r : Rotation s t jti newJti old successor) (h : ChainInv s) :
    ∀ row ∈ t.tokens, row.jti ∈ t.drawn ∧ row.sessionId ∈ t.drawn := by
  intro row hRow
  rcases r.rows h hRow with ⟨hRow, _⟩ | ⟨pre, hPre, _, rfl⟩ | rfl
  · exact ⟨r.drawn_mono _ (h.drawnTokens row hRow).1, r.drawn_mono _ (h.drawnTokens row hRow).2⟩
  · exact ⟨r.drawn_mono _ (h.drawnTokens pre hPre).1, r.drawn_mono _ (h.drawnTokens pre hPre).2⟩
  · rw [r.successorJti, r.successorSession]
    exact ⟨r.drawn ▸ List.mem_cons_self, r.drawn_mono _ (h.drawnTokens old r.mem).2⟩

/-- The marked token was the live one of its session, so no other token of it is live. -/
theorem alone (r : Rotation s t jti newJti old successor) (h : ChainInv s) (hRow : row ∈ s.tokens)
    (hMarked : isUnrotated jti row = false) (hLive : row.nextJti = none) :
    row.sessionId ≠ successor.sessionId := by
  intro hSame
  rw [r.successorSession] at hSame
  rw [h.linear row hRow old r.mem hLive r.oldLive hSame, r.unrotated] at hMarked
  cases hMarked

theorem linear (r : Rotation s t jti newJti old successor) (h : ChainInv s) :
    ∀ a ∈ t.tokens, ∀ b ∈ t.tokens, a.nextJti = none → b.nextJti = none →
      a.sessionId = b.sessionId → a = b := by
  intro a ha b hb hLiveA hLiveB hSame
  rcases r.rows h ha with ⟨ha, hMarkedA⟩ | ⟨pre, _, _, rfl⟩ | rfl
  · rcases r.rows h hb with ⟨hb, _⟩ | ⟨pre, _, _, rfl⟩ | rfl
    · exact h.linear a ha b hb hLiveA hLiveB hSame
    · cases hLiveB
    · exact absurd hSame (r.alone h ha hMarkedA hLiveA)
  · cases hLiveA
  · rcases r.rows h hb with ⟨hb, hMarkedB⟩ | ⟨pre, _, _, rfl⟩ | rfl
    · exact absurd hSame.symm (r.alone h hb hMarkedB hLiveB)
    · cases hLiveB
    · rfl

/-- A token that was rotated before would not have been un-rotated. -/
theorem rotatedOnce (r : Rotation s t jti newJti old successor) (h : ChainInv s) (other : String) :
    t.log.countP (Event.rotates other) ≤ 1 := by
  rw [r.log, countP_cons_toNat]
  by_cases hEq : jti = other
  · have hNone : s.log.countP (Event.rotates other) = 0 := by
      apply List.countP_eq_zero.mpr
      intro event hEvent hRotates
      cases event with
      | rotated j newJti' =>
        have hj : j = jti := by
          rw [hEq]
          simpa [Event.rotates] using hRotates
        exact (h.rotatedRows jti newJti' (hj ▸ hEvent)).2 old r.mem r.oldJti r.oldLive
      | revoked sessionId => cases hRotates
    have := Bool.toNat_le (Event.rotates other (.rotated jti newJti))
    omega
  · have hOther : Event.rotates other (.rotated jti newJti) = false := by
      simpa [Event.rotates] using hEq
    rw [hOther]
    exact h.rotatedOnce other

theorem rotatedRows (r : Rotation s t jti newJti old successor) (h : ChainInv s)
    {other next : String} (hRotated : .rotated other next ∈ t.log) :
    other ∈ t.drawn ∧ ∀ row ∈ t.tokens, row.jti = other → row.nextJti ≠ none := by
  rw [r.log] at hRotated
  rcases List.mem_cons.mp hRotated with hEq | hRotated
  · cases hEq
    refine ⟨r.drawn_mono jti (r.mem_drawn h), ?_⟩
    intro row hRow hRowJti hLive
    rcases r.rows h hRow with ⟨_, hMarked⟩ | ⟨pre, _, _, rfl⟩ | rfl
    · rw [isUnrotated_iff.mpr ⟨hRowJti, hLive⟩] at hMarked
      cases hMarked
    · cases hLive
    · rw [r.successorJti] at hRowJti
      exact r.fresh (hRowJti ▸ r.mem_drawn h)
  · obtain ⟨hKnown, hOnce⟩ := h.rotatedRows other next hRotated
    refine ⟨r.drawn_mono other hKnown, ?_⟩
    rintro row hRow rfl hLive
    obtain ⟨pre, hPre, _, _, hSame⟩ := r.continues h row hRow hKnown
    exact hOnce row (hSame hLive ▸ hPre) rfl hLive

/-- The insert found the row of its session, which a revoked session has not. -/
theorem revokedGone (r : Rotation s t jti newJti old successor) (h : ChainInv s)
    (hRevoked : .revoked sessionId ∈ t.log) : sessionId ∈ t.drawn ∧
      (∀ row ∈ t.sessions, row.id ≠ sessionId) ∧ ∀ row ∈ t.tokens, row.sessionId ≠ sessionId := by
  rw [r.log] at hRevoked
  have hBefore : .revoked sessionId ∈ s.log :=
    (List.mem_cons.mp hRevoked).resolve_left (by rintro ⟨⟩)
  obtain ⟨hKnown, hGone, hNoRows⟩ := h.revokedGone sessionId hBefore
  refine ⟨r.drawn_mono sessionId hKnown, r.sessions ▸ hGone, ?_⟩
  intro row hRow
  rcases r.rows h hRow with ⟨hRow, _⟩ | ⟨pre, hPre, _, rfl⟩ | rfl
  · exact hNoRows row hRow
  · exact hNoRows pre hPre
  · obtain ⟨session, hMem, hId⟩ := List.mem_map.mp r.session
    rw [r.successorSession, ← hId]
    exact hGone session hMem

theorem chainInv (r : Rotation s t jti newJti old successor) (h : ChainInv s)
    (hRequests : t.requests = s.requests.set i phase) (hPhase : phase.Known s.tokens s.drawn) :
    ChainInv t where
  keys := r.keys h
  drawnTokens := r.drawnTokens h
  drawnSessions := by
    rw [r.sessions]
    exact fun row hRow => r.drawn_mono _ (h.drawnSessions row hRow)
  linear := r.linear h
  known := by
    have hKnown : ∀ phase ∈ t.requests, phase.Known s.tokens s.drawn := by
      rw [hRequests]
      exact forall_mem_set h.known hPhase
    exact fun phase hMem => (hKnown phase hMem).mono r.drawn_mono (r.continues h)
  rotatedOnce := r.rotatedOnce h
  rotatedRows := fun _ _ hRotated => r.rotatedRows h hRotated
  revokedGone := fun _ hRevoked => r.revokedGone h hRevoked

end Rotation

theorem chainInv_rotate (h : ChainInv s) (hStep : s.rotate i newJti now = some t) :
    ChainInv t := by
  obtain ⟨jti, token, access, hPhase, hFresh, hCases⟩ := State.rotate_some hStep
  have hRead : ReadOf s.tokens s.drawn jti token :=
    h.known (.rotating jti token access) (List.mem_of_getElem? hPhase)
  rcases hCases with ⟨e, rfl⟩ | ⟨successor, hSession, hNewJti, hNewSession, hCount, rfl⟩
  · exact h.draw.advance trivial
  · have hKeyed : Keyed RefreshTokenRow.jti (s.tokens ++ [successor]) := by
      apply h.keys.append
      intro old hOld hEq
      exact hFresh (hNewJti ▸ hEq ▸ (h.drawnTokens old hOld).1)
    obtain ⟨old, hOld, hUnrotated⟩ := (hKeyed.countP_eq_one_iff fun a b ha hb =>
      (isUnrotated_iff.mp ha).1.trans (isUnrotated_iff.mp hb).1.symm).mp hCount
    obtain ⟨hOldJti, _⟩ := isUnrotated_iff.mp hUnrotated
    -- the row that is marked was there before: the successor has another `jti`
    have hBefore : old ∈ s.tokens := by
      apply (List.mem_append.mp hOld).resolve_right
      intro hEq
      rw [List.mem_singleton.mp hEq, hNewJti] at hOldJti
      exact hFresh (hOldJti ▸ hRead.1)
    have hOldSession : old.sessionId = token.sessionId := hRead.2 old hBefore hOldJti
    have hFound : old.sessionId ∈ s.sessions.map SessionRow.id := by
      rw [hOldSession]
      exact hSession
    exact Rotation.chainInv
      ⟨hFresh, hNewJti, hNewSession.trans hOldSession.symm, hBefore, hUnrotated, hFound, rfl, rfl,
        rfl, rfl⟩ h rfl trivial

/-! ## Runs -/

theorem chainInv_step {label : Label} (h : ChainInv s) (hStep : s.step table label = some t) :
    ChainInv t := by
  cases label with
  | createAppPassword row =>
    simp only [State.step, State.createAppPassword] at hStep
    split at hStep
    · cases hStep
    · cases hStep
      exact h.shrink (fun _ hx => hx) (List.Sublist.refl _) (fun _ hRow => hRow) h.known rfl
  | issueSession did kind sessionId jti now => exact chainInv_issueSession h hStep
  | presentRefresh verified now =>
    cases hStep
    exact chainInv_presentRefresh h
  | readGrants i => exact chainInv_readGrants h hStep
  | rotate i newJti now => exact chainInv_rotate h hStep
  | presentLogout verified =>
    cases hStep
    exact chainInv_presentLogout h
  | revokeSession i => exact chainInv_revokeSession h hStep
  | revokeAppPassword did name =>
    refine chainInv_sweep ?_ hStep
    exact h.shrink (fun _ hx => hx) (List.Sublist.refl _) (fun _ hRow => hRow) h.known rfl
  | revokeAccount did => exact chainInv_sweep h hStep
  | endRequest i =>
    simp only [State.step, State.endRequest] at hStep
    split at hStep
    · cases hStep
      exact h.advance trivial
    · cases hStep

/-- A rotated token that is presented puts the request on the way to revoke its session, and
what such a request does next leaves no token of it. -/
structure ReplayRevokes (table : CaseTable) (s : State) : Prop where
  present : ∀ row ∈ s.tokens, row.nextJti.isSome = true → ∀ verified now,
    presentedJti table verified = .ok row.jti → now < row.expiresAt →
    s.step table (.presentRefresh verified now) = some (s.arrive (.revoking row.sessionId true))
  revoke : ∀ i sessionId replay, s.requests[i]? = some (.revoking sessionId replay) →
    ∃ t, s.step table (.revokeSession i) = some t ∧ .revoked sessionId ∈ t.log ∧
      ∀ row ∈ t.tokens, row.sessionId ≠ sessionId

theorem replayRevokes (h : ChainInv s) : ReplayRevokes table s where
  present := by
    intro row hRow hRotated verified now hVerified hLive
    have hFind : getActiveRefreshToken s.tokens row.jti now = some row.active := by
      have hRowFind : s.tokens.find? (fun other => other.jti = row.jti ∧ now < other.expiresAt) =
          some row := by
        apply h.keys.find?_eq hRow
        · simpa using hLive
        · intro other hOther
          exact (of_decide_eq_true hOther).1
      rw [getActiveRefreshToken, hRowFind, Option.map_some]
    rw [State.step, State.presentRefresh, hVerified]
    have hActive : row.active.nextJti.isSome = true := hRotated
    simp only [hFind, State.afterRead]
    rw [if_pos hActive]
    rfl
  revoke := by
    intro i sessionId replay hPhase
    refine ⟨_, by rw [State.step, State.revokeSession, hPhase], List.mem_cons_self, ?_⟩
    intro row hRow
    simpa using (mem_deleteWhere.mp hRow).2

/-- Over every run from an empty database: a session has at most one un-rotated token, a token
is rotated at most once, the presentation of a token that is found rotated deletes every token
of its session, and a session that was deleted so never has a token again. -/
theorem refresh_chain_linear {labels : List Label}
    (hRun : run (State.step table) State.empty labels = some t) :
    (∀ sessionId, t.tokens.countP (isLive sessionId) ≤ 1) ∧
      (∀ jti, t.log.countP (Event.rotates jti) ≤ 1) ∧
      ReplayRevokes table t ∧
      ∀ sessionId, .revoked sessionId ∈ t.log → ∀ row ∈ t.tokens, row.sessionId ≠ sessionId := by
  have hInv : ChainInv t :=
    run_invariant (fun s label t hs hStep => chainInv_step hs hStep) chainInv_empty hRun
  refine ⟨?_, hInv.rotatedOnce, replayRevokes hInv,
    fun sessionId hRevoked => (hInv.revokedGone sessionId hRevoked).2.2⟩
  intro sessionId
  apply hInv.keys.countP_le_one
  intro a ha b hb hLiveA hLiveB
  obtain ⟨hSessionA, hNoneA⟩ : a.sessionId = sessionId ∧ a.nextJti = none := by
    simpa [isLive] using hLiveA
  obtain ⟨hSessionB, hNoneB⟩ : b.sessionId = sessionId ∧ b.nextJti = none := by
    simpa [isLive] using hLiveB
  rw [hInv.linear a ha b hb hNoneA hNoneB (hSessionA.trans hSessionB.symm)]

/-- The JWT of a token, as it verifies. -/
def refreshJwt (jti : String) : Except ApiError RefreshTokenClaims :=
  .ok ⟨"com.atproto.refresh", some jti⟩

/-- Two requests read the token `a` before either of them rotates it, and a third presents it
once it is rotated. -/
def racedThenReplayed : List Label :=
  [.issueSession "did:plc:a" .fullAccess "session" "a" 0, .presentRefresh (refreshJwt "a") 1,
    .presentRefresh (refreshJwt "a") 1, .rotate 0 "b" 2, .rotate 1 "c" 2,
    .presentRefresh (refreshJwt "a") 3, .revokeSession 2]

theorem refresh_chain_linear_racedThenReplayed :
    ∃ t, run (State.step .ascii) State.empty racedThenReplayed = some t ∧
      (∀ sessionId, t.tokens.countP (isLive sessionId) ≤ 1) ∧
      (∀ jti, t.log.countP (Event.rotates jti) ≤ 1) ∧
      ReplayRevokes .ascii t ∧
      ∀ sessionId, .revoked sessionId ∈ t.log → ∀ row ∈ t.tokens, row.sessionId ≠ sessionId := by
  have hEnd : (run (State.step .ascii) State.empty racedThenReplayed).isSome = true := by
    decide +kernel
  obtain ⟨t, hRun⟩ := Option.isSome_iff_exists.mp hEnd
  exact ⟨t, hRun, refresh_chain_linear hRun⟩

end Ezpds.Pds.Sessions
