import Ezpds.Oauth.TokenEndpoint

/-!
# One code, one family

An authorization code is looked up in one statement and deleted in another, and the deletion
does not say whether it found the code. A request that has accepted the code and not yet
deleted it *consumes* it. As long as no request accepts a code that another one consumes, at
most one request is past the acceptance at any time, and none once tokens were minted.

* `CodeInv`: how many requests and exchanges there are for one code.
* `code_exchanged_once`: over every run in which no two requests consume a code at once, a
  code is exchanged at most once.
* `code_exchanged_twice`: two requests that do.
-/

namespace Ezpds.Oauth

open Library

def Phase.consumes (code : String) : Phase → Bool
  | .consuming request _ => request.codeHash == code
  | _ => false

def Phase.storesInitial (code : String) : Phase → Bool
  | .storingInitial request _ => request.codeHash == code
  | _ => false

def Event.exchanges (code : String) : Event → Bool
  | .exchanged c _ => c == code
  | _ => false

/-! ## The invariant -/

/-- At most one request or exchange holds the code, and it is gone from the table once it was
deleted for one. -/
structure CodeInv (code : String) (s : State) : Prop where
  one : s.requests.countP (Phase.consumes code) + s.requests.countP (Phase.storesInitial code) +
    s.log.countP (Event.exchanges code) ≤ 1
  gone : 0 < s.requests.countP (Phase.storesInitial code) + s.log.countP (Event.exchanges code) →
    ∀ c ∈ s.codes, c.code ≠ code
  issued : code ∉ s.issuedCodes →
    s.requests.countP (Phase.storesInitial code) + s.log.countP (Event.exchanges code) = 0
  codes : ∀ c ∈ s.codes, c.code ∈ s.issuedCodes
  known : ∀ request row, .consuming request row ∈ s.requests →
    request.codeHash ∈ s.issuedCodes

/-- No request accepts a code that another one consumes. -/
def Alone (ext : Externals) (s : State) : Label → Prop
  | .presentCode request now =>
    match s.redeem ext request now with
    | .ok (admitted, _) => s.requests.countP (Phase.consumes admitted.codeHash) = 0
    | .error _ => True
  | _ => True

instance (ext : Externals) (s : State) (label : Label) : Decidable (Alone ext s label) := by
  unfold Alone
  split
  · split <;> infer_instance
  · infer_instance

variable {ext : Externals} {s t : State} {code : String} {i now : Nat}

theorem codeInv_opened (codes : List StoredAuthCode) (tokens : List StoredToken) :
    CodeInv code (State.opened codes tokens) where
  one := by simp [State.opened]
  gone := by simp [State.opened]
  issued := by simp [State.opened]
  codes := fun _ hc => List.mem_map_of_mem hc
  known := by simp [State.opened]

/-- A step that neither adds a code nor exchanges one, and after which no more requests hold
the code than before. -/
theorem CodeInv.mono (h : CodeInv code s) (hCodes : ∀ c ∈ t.codes, c ∈ s.codes)
    (hIssued : t.issuedCodes = s.issuedCodes)
    (hLog : t.log.countP (Event.exchanges code) = s.log.countP (Event.exchanges code))
    (hConsumes : t.requests.countP (Phase.consumes code) ≤
      s.requests.countP (Phase.consumes code))
    (hStores : t.requests.countP (Phase.storesInitial code) ≤
      s.requests.countP (Phase.storesInitial code))
    (hKnown : ∀ request row, .consuming request row ∈ t.requests →
      .consuming request row ∈ s.requests) : CodeInv code t where
  one := by
    have := h.one
    omega
  gone := by
    intro hPos c hc
    exact h.gone (by omega) c (hCodes c hc)
  issued := by
    intro hNew
    have := h.issued (hIssued ▸ hNew)
    omega
  codes := by
    intro c hc
    rw [hIssued]
    exact h.codes c (hCodes c hc)
  known := by
    intro request row hMem
    rw [hIssued]
    exact h.known request row (hKnown request row hMem)

/-- A phase that has nothing to do with a code. -/
def Phase.IsNeutral (phase : Phase) : Prop :=
  (∀ code, phase.consumes code = false) ∧ ∀ code, phase.storesInitial code = false

theorem not_consuming_of_isNeutral {phase : Phase} {request : CodeRequest} {row : AuthCodeRow}
    (h : phase.IsNeutral) : phase ≠ .consuming request row := by
  rintro rfl
  have := h.1 request.codeHash
  simp [Phase.consumes] at this

theorem CodeInv.arrive {phase : Phase} (h : CodeInv code s) (hNeutral : phase.IsNeutral) :
    CodeInv code (s.arrive phase) := by
  apply CodeInv.mono (t := s.arrive phase) h (fun c hc => hc) rfl rfl
  · simp [State.arrive, hNeutral.1 code]
  · simp [State.arrive, hNeutral.2 code]
  · intro request row hMem
    rcases List.mem_append.mp hMem with hMem | hMem
    · exact hMem
    · exact absurd (List.mem_singleton.mp hMem).symm (not_consuming_of_isNeutral hNeutral)

/-- A request that was at `old` goes on to a phase that has nothing to do with a code. -/
theorem CodeInv.advance {old phase : Phase} (h : CodeInv code s) (hOld : s.requests[i]? = some old)
    (hNeutral : phase.IsNeutral) (hRequests : t.requests = s.requests.set i phase)
    (hCodes : ∀ c ∈ t.codes, c ∈ s.codes) (hIssued : t.issuedCodes = s.issuedCodes)
    (hLog : t.log.countP (Event.exchanges code) = s.log.countP (Event.exchanges code)) :
    CodeInv code t := by
  have hConsumes := countP_set_add (Phase.consumes code) phase hOld
  have hStores := countP_set_add (Phase.storesInitial code) phase hOld
  rw [hNeutral.1 code, Bool.toNat_false] at hConsumes
  rw [hNeutral.2 code, Bool.toNat_false] at hStores
  apply h.mono hCodes hIssued hLog
  · rw [hRequests]
    omega
  · rw [hRequests]
    omega
  · intro request row hMem
    rw [hRequests] at hMem
    rcases List.mem_or_eq_of_mem_set hMem with hMem | hEq
    · exact hMem
    · exact absurd hEq.symm (not_consuming_of_isNeutral hNeutral)

/-! ## Steps -/

theorem redeem_ok {request : TokenRequest} {admitted : CodeRequest} {row : AuthCodeRow}
    (h : s.redeem ext request now = .ok (admitted, row)) :
    ∃ c ∈ s.codes, c.code = admitted.codeHash := by
  obtain ⟨presented, _, h⟩ := bind_ok.mp h
  cases hFind : getAuthorizationCode s.codes presented.codeHash now with
  | none =>
    rw [hFind] at h
    cases h
  | some found =>
    rw [hFind] at h
    obtain ⟨_, _, h⟩ := bind_ok.mp h
    cases h
    obtain ⟨c, hc, hCode, _⟩ := mem_of_getAuthorizationCode hFind
    exact ⟨c, hc, hCode⟩

theorem codeInv_issueCode {new : String} {row : AuthCodeRow} (h : CodeInv code s)
    (hStep : s.issueCode new row now = some t) : CodeInv code t := by
  obtain ⟨hNew, rfl⟩ := State.issueCode_some hStep
  refine ⟨h.one, ?_, ?_, ?_, ?_⟩
  · intro hPos c hc
    rcases List.mem_append.mp hc with hc | hc
    · exact h.gone hPos c hc
    · -- a code that is held was issued before, and this one was not
      rw [List.mem_singleton.mp hc]
      rintro rfl
      have hNone := h.issued hNew
      dsimp only at hPos hNone
      omega
  · intro hNotIssued
    exact h.issued fun hMem => hNotIssued (List.mem_cons_of_mem _ hMem)
  · intro c hc
    rcases List.mem_append.mp hc with hc | hc
    · exact List.mem_cons_of_mem _ (h.codes c hc)
    · rw [List.mem_singleton.mp hc]
      exact List.mem_cons_self
  · intro request row' hMem
    exact List.mem_cons_of_mem _ (h.known request row' hMem)

theorem codeInv_presentCode {request : TokenRequest} (h : CodeInv code s)
    (hAlone : Alone ext s (.presentCode request now)) :
    CodeInv code (s.presentCode ext request now) := by
  rw [State.presentCode]
  simp only [Alone] at hAlone
  cases hRedeem : s.redeem ext request now with
  | error e => exact h.arrive ⟨fun _ => rfl, fun _ => rfl⟩
  | ok accepted =>
    obtain ⟨admitted, row⟩ := accepted
    obtain ⟨c, hc, hCode⟩ := redeem_ok hRedeem
    simp only [hRedeem] at hAlone
    have hStores : ∀ l : List Phase, (l ++ [Phase.consuming admitted row]).countP
        (Phase.storesInitial code) = l.countP (Phase.storesInitial code) := by
      intro l
      simp [Phase.storesInitial]
    refine ⟨?_, ?_, ?_, h.codes, ?_⟩
    · simp only [State.arrive]
      rw [hStores, countP_append_singleton]
      by_cases hSame : admitted.codeHash = code
      · -- the code is in the table and nobody consumes it, so nobody holds it
        have hNone : ¬ 0 < s.requests.countP (Phase.storesInitial code) +
            s.log.countP (Event.exchanges code) := by
          intro hPos
          exact h.gone hPos c hc (hCode.trans hSame)
        rw [hSame] at hAlone
        have := Bool.toNat_le (Phase.consumes code (.consuming admitted row))
        omega
      · have hOther : Phase.consumes code (.consuming admitted row) = false := by
          simpa [Phase.consumes] using hSame
        rw [hOther]
        exact h.one
    · simp only [State.arrive]
      rw [hStores]
      exact h.gone
    · simp only [State.arrive]
      rw [hStores]
      exact h.issued
    · intro request' row' hMem
      rcases List.mem_append.mp hMem with hMem | hMem
      · exact h.known request' row' hMem
      · cases List.mem_singleton.mp hMem
        rw [← hCode]
        exact h.codes c hc

theorem codeInv_consumeCode (h : CodeInv code s) (hStep : s.consumeCode i = some t) :
    CodeInv code t := by
  obtain ⟨request, row, hPhase, rfl⟩ := State.consumeCode_some hStep
  have hConsumes := countP_set_add (Phase.consumes code) (.storingInitial request row) hPhase
  have hStores := countP_set_add (Phase.storesInitial code) (.storingInitial request row) hPhase
  simp only [Phase.consumes, Phase.storesInitial, Bool.toNat_false] at hConsumes hStores
  have hOne := h.one
  refine ⟨?_, ?_, ?_, ?_, ?_⟩
  · dsimp only
    omega
  · intro hPos c hc
    obtain ⟨hMem, hNe⟩ := mem_deleteAuthorizationCode.mp hc
    by_cases hSame : request.codeHash = code
    · rw [← hSame]
      exact hNe
    · have hBeq : (request.codeHash == code) = false := by simpa using hSame
      rw [hBeq, Bool.toNat_false] at hStores
      dsimp only at hPos
      exact h.gone (by omega) c hMem
  · intro hNotIssued
    have hOld := h.issued hNotIssued
    by_cases hSame : request.codeHash = code
    · have hKnown := h.known request row (List.mem_of_getElem? hPhase)
      exact absurd (hSame ▸ hKnown) hNotIssued
    · have hBeq : (request.codeHash == code) = false := by simpa using hSame
      rw [hBeq, Bool.toNat_false] at hStores
      dsimp only
      omega
  · intro c hc
    exact h.codes c (mem_deleteAuthorizationCode.mp hc).1
  · intro request' row' hMem
    rcases List.mem_or_eq_of_mem_set hMem with hMem | hEq
    · exact h.known request' row' hMem
    · cases hEq

theorem codeInv_storeInitial {tokenHash : String} (h : CodeInv code s)
    (hStep : s.storeInitial i tokenHash now = some t) : CodeInv code t := by
  obtain ⟨request, row, token, hPhase, _, _, rfl⟩ := State.storeInitial_some hStep
  have hConsumes := countP_set_add (Phase.consumes code) (.granted token) hPhase
  have hStores := countP_set_add (Phase.storesInitial code) (.granted token) hPhase
  have hLog : (Event.exchanged request.codeHash token :: s.log).countP (Event.exchanges code) =
      s.log.countP (Event.exchanges code) + (request.codeHash == code).toNat :=
    countP_cons_toNat
  simp only [Phase.consumes, Phase.storesInitial, Bool.toNat_false] at hConsumes hStores
  have hOne := h.one
  refine ⟨?_, ?_, ?_, h.codes, ?_⟩
  · dsimp only
    omega
  · intro hPos c hc
    dsimp only at hPos
    exact h.gone (by omega) c hc
  · intro hNotIssued
    have hOld := h.issued hNotIssued
    dsimp only
    omega
  · intro request' row' hMem
    rcases List.mem_or_eq_of_mem_set hMem with hMem | hEq
    · exact h.known request' row' hMem
    · cases hEq

theorem isNeutral_refreshPhase {request : RefreshRequest} {row : RefreshTokenRow} :
    (State.refreshPhase request row).IsNeutral := by
  rw [State.refreshPhase]
  split <;> exact ⟨fun _ => rfl, fun _ => rfl⟩

theorem codeInv_step {label : Label} (h : CodeInv code s) (hAlone : Alone ext s label)
    (hStep : s.step ext label = some t) : CodeInv code t := by
  cases label with
  | issueCode new row now => exact codeInv_issueCode h hStep
  | presentCode request now =>
    cases hStep
    exact codeInv_presentCode h hAlone
  | consumeCode i => exact codeInv_consumeCode h hStep
  | storeInitial i tokenHash now => exact codeInv_storeInitial h hStep
  | presentRefresh request now =>
    cases hStep
    rw [State.presentRefresh]
    split
    · exact h.arrive isNeutral_refreshPhase
    · exact h.arrive ⟨fun _ => rfl, fun _ => rfl⟩
  | supersede i now =>
    obtain ⟨request, row, hPhase, rfl⟩ := State.supersede_some hStep
    exact h.advance hPhase ⟨fun _ => rfl, fun _ => rfl⟩ rfl (fun c hc => hc) rfl rfl
  | storeRotated i tokenHash =>
    obtain ⟨request, row, token, hPhase, _, _, rfl⟩ := State.storeRotated_some hStep
    exact h.advance hPhase ⟨fun _ => rfl, fun _ => rfl⟩ rfl (fun c hc => hc) rfl rfl
  | presentRevocation request now =>
    cases hStep
    rw [State.presentRevocation]
    split
    · exact h.arrive ⟨fun _ => rfl, fun _ => rfl⟩
    · exact h.arrive ⟨fun _ => rfl, fun _ => rfl⟩
    · split
      · exact h.arrive ⟨fun _ => rfl, fun _ => rfl⟩
      · exact h.arrive ⟨fun _ => rfl, fun _ => rfl⟩
  | revokeFamily i =>
    obtain ⟨sessionId, hPhase, rfl⟩ := State.revokeFamily_some hStep
    exact h.advance hPhase ⟨fun _ => rfl, fun _ => rfl⟩ rfl (fun c hc => hc) rfl rfl
  | cleanupExpired now =>
    cases hStep
    apply CodeInv.mono (t := s.cleanupExpired now) h _ rfl rfl le_rfl le_rfl (fun _ _ hMem => hMem)
    intro c hc
    exact (mem_deleteWhere.mp hc).1
  | endRequest i =>
    obtain ⟨phase, hPhase, rfl⟩ := State.endRequest_some hStep
    exact h.advance hPhase ⟨fun _ => rfl, fun _ => rfl⟩ rfl (fun c hc => hc) rfl rfl

/-! ## Runs -/

/-- Over every run in which no request accepts a code that another one consumes, each code is
exchanged at most once. -/
theorem code_exchanged_once {codes : List StoredAuthCode} {tokens : List StoredToken}
    {labels : List Label}
    (hAlone : Along (State.step ext) (Alone ext) (State.opened codes tokens) labels)
    (hRun : run (State.step ext) (State.opened codes tokens) labels = some t) :
    ∀ code, t.log.countP (Event.exchanges code) ≤ 1 := by
  intro code
  have hInv : CodeInv code t :=
    run_invariant_along (fun s label t hs hl hStep => codeInv_step hs hl hStep)
      (codeInv_opened codes tokens) hAlone hRun
  have := hInv.one
  omega

/-! ## Two requests with one code -/

def issuedCode : StoredAuthCode where
  code := "9f86d081884c7d659a2feaa0c55ad015a3bf4f1b2b0b822cd15d6c15b0f00a08"
  row :=
    { clientId := "https://app.example.com/client-metadata.json"
      did := "did:plc:testaccount000000000000"
      codeChallenge := "fsB0w7Iv5o_jYPQX1vkEWl5-sZY-i5qa36AUJCQvL5E"
      codeChallengeMethod := "S256"
      redirectUri := "https://app.example.com/callback"
      scope := "atproto"
      dpopJkt := none }
  expiresAt := 60

def codeExchange : TokenRequest where
  form :=
    { code := some "dGVzdA"
      redirectUri := some "https://app.example.com/callback"
      clientId := some "https://app.example.com/client-metadata.json"
      codeVerifier := some "testcodeverifier1234567890abcdefghijklmnopqr"
      refreshToken := none }
  clientAuth := .ok ()
  dpop := .ok "key"

/-- The second request arrives once the first one has deleted the code. -/
def exchangedInTurn : List Label :=
  [.presentCode codeExchange 1, .consumeCode 0, .presentCode codeExchange 2,
    .storeInitial 0 "first" 3]

/-- Both requests look the code up before either of them deletes it. -/
def exchangedAtOnce : List Label :=
  [.presentCode codeExchange 1, .presentCode codeExchange 1, .consumeCode 0, .consumeCode 1,
    .storeInitial 0 "first" 2, .storeInitial 1 "second" 2]

def exchanged (labels : List Label) : Option State :=
  run (State.step knownHashes) (State.opened [issuedCode] []) labels

theorem code_exchanged_once_inTurn :
    ∃ t, exchanged exchangedInTurn = some t ∧
      ∀ code, t.log.countP (Event.exchanges code) ≤ 1 := by
  have hEnd : (exchanged exchangedInTurn).isSome = true := by
    decide +kernel
  obtain ⟨t, hRun⟩ := Option.isSome_iff_exists.mp hEnd
  exact ⟨t, hRun, code_exchanged_once (by decide +kernel) hRun⟩

/-- Two families come from one code. -/
theorem code_exchanged_twice :
    ¬ ∀ (labels : List Label) (t : State), exchanged labels = some t →
      ∀ code, t.log.countP (Event.exchanges code) ≤ 1 := by
  intro hClaim
  have hEnd : (exchanged exchangedAtOnce).map
      (fun t => t.log.countP (Event.exchanges issuedCode.code)) = some 2 := by
    decide +kernel
  obtain ⟨t, hRun, hCount⟩ := Option.map_eq_some_iff.mp hEnd
  have hOnce := hClaim exchangedAtOnce t hRun issuedCode.code
  omega

end Ezpds.Oauth
