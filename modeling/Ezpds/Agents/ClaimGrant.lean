import Ezpds.Agents.ClaimCeremony
import Mathlib

/-!
# The claim grant and the exchange of assertions

An agent whose registration has been claimed polls for its first access token, whose scope is
read off the stored list of scopes, and gets the stored assertion with it. Later it exchanges
the assertion, whose own scope is the one of the token. The claim writes the list and the
assertion together; a renewal clamps the list to what the operator grants now and writes the
assertion only. So the two paths agree in every run whose renewals find nothing to clamp or to
reorder.

* `claim_grant_agrees`: the scope of a poll is the one of an exchange of the assertion polled.
* `renewal_disagrees`: after a renewal that changes the scope they differ.
-/

namespace Ezpds.Agents

open Library

/-- The scope of the access token, and the assertion stored. -/
structure ClaimPollingResponse where
  scope : String
  identityAssertion : Assertion
  deriving DecidableEq, Repr

/-- `claim_success`: none where the claimed registration lacks its owner or its assertion. -/
def claimSuccess (row : AgentIdentityRow) : Option ClaimPollingResponse :=
  match row.did, row.identityAssertion with
  | some _, some assertion => some ⟨joinScopes row.scopes, assertion⟩
  | _, _ => none

namespace State

variable (s : State)

/-- The last read of a poll decides its answer: none where it is an error. -/
def handleClaimPolling (claimToken : String) : Option ClaimPollingResponse := do
  let identity ← s.identities.values.find? fun row => row.claimToken = some claimToken
  if identity.status = .claimed then claimSuccess identity else none

/-- The scope of the access token for an assertion that verifies. -/
def handleJwtBearer (claims : Assertion) : Option String := do
  let identity ← s.identities.get? claims.registrationId
  -- the scope is the one of the assertion presented
  if identity.status = .claimed ∧ identity.did = some claims.sub then some claims.scope else none

end State

/-! ## The guard -/

/-- A renewal for a registration that can poll finds its scopes sorted and all still granted. -/
def RenewsWhole (s : State) : Action → Prop
  | .readForRenewal id => ∀ row ∈ s.identities.get? id, row.claimToken ≠ none →
      row.scopes.Pairwise (· < ·) ∧ ∀ token ∈ row.scopes, token ∈ s.grantedScopes
  | _ => True

instance (s : State) : (a : Action) → Decidable (RenewsWhole s a)
  | .readForRenewal id => inferInstanceAs (Decidable (∀ row ∈ s.identities.get? id,
      row.claimToken ≠ none →
        row.scopes.Pairwise (· < ·) ∧ ∀ token ∈ row.scopes, token ∈ s.grantedScopes))
  | .tick | .configure _ | .register .. | .startClaimAttempt .. | .expireAttempts | .revoke _
  | .readAttempt .. | .readIdentity .. | .confirm .. | .mintChild _ | .resume _
  | .prepareChild _ | .loadPreparedChild .. | .publishChildGenesis .. | .finalizeChild ..
  | .renew .. | .abandon _ => .isTrue trivial

/-! ## The invariant -/

/-- The assertion is one of the registration, for its owner and its scopes. -/
structure AgentIdentityRow.Carries (row : AgentIdentityRow) (id : String) (assertion : Assertion) :
    Prop where
  registrationId : assertion.registrationId = id
  sub : row.did = some assertion.sub
  scope : row.claimToken ≠ none → assertion.scope = joinScopes row.scopes

def AgentIdentityRow.Agrees (row : AgentIdentityRow) (id : String) : Prop :=
  row.status = .claimed → ∃ assertion, row.identityAssertion = some assertion ∧
    row.Carries id assertion

/-- The assertion of a provisioning is minted for the child, with the scopes beside it. -/
def Provisioning.Agrees (p : Provisioning) (childDid : String) : Prop :=
  p.identityAssertion = mintAssertion childDid p.registrationId p.scopes

/-- What a request is going to write agrees. -/
def Flight.Agrees (s : State) : Flight → Prop
  | .confirming caller _ identityId bindDid scopes assertion =>
      assertion = mintAssertion caller identityId scopes ∧ s.BindsOwner identityId bindDid caller
  | .publishing mint p => p.Agrees mint.childDid
  | .finalizing mint p => p.Agrees mint.childDid
  | .renewing id assertion => ∃ row, s.identities.get? id = some row ∧ row.status ≠ .active ∧
      row.Carries id assertion
  | .attemptRead .. | .minting _ | .preparing _ | .loading .. => True

structure Agreement (s : State) : Prop where
  identities : ∀ id row, s.identities.get? id = some row → row.Agrees id
  provisionings : ∀ child p, s.provisionings.get? child = some p → p.Agrees child
  flights : ∀ f ∈ s.flights, f.Agrees s

variable {s t : State} {id : String}

theorem AgentIdentityRow.Carries.evolve {row later : AgentIdentityRow} {assertion : Assertion}
    (h : row.Carries id assertion) (hEvolves : row.Evolves later) (hSettled : row.status ≠ .active) :
    later.Carries id assertion := by
  obtain ⟨_, hDid, _, hScopes⟩ := hEvolves.settled hSettled
  refine ⟨h.registrationId, hDid.trans h.sub, fun hToken => ?_⟩
  rw [hScopes]
  exact h.scope (hEvolves.claimToken ▸ hToken)

theorem Grows.flightAgrees (hGrows : Grows s t) {f : Flight} (h : f.Agrees s) : f.Agrees t := by
  cases f with
  | attemptRead caller child attemptId identityId => trivial
  | confirming caller attemptId identityId bindDid scopes assertion =>
    exact ⟨h.1, hGrows.bindsOwner h.2⟩
  | minting mint => trivial
  | preparing mint => trivial
  | loading mint cursor => trivial
  | publishing mint p => exact h
  | finalizing mint p => exact h
  | renewing id assertion =>
    obtain ⟨row, hRow, hSettled, hCarries⟩ := h
    obtain ⟨row', hRow', hEvolves⟩ := hGrows.identities _ _ hRow
    exact ⟨row', hRow', (hEvolves.settled hSettled).1, hCarries.evolve hEvolves hSettled⟩

/-! ## Steps -/

theorem Agreement.of_grows (h : Agreement s) (hGrows : Grows s t)
    (hIdentities : ∀ id row, t.identities.get? id = some row →
      s.identities.get? id = some row ∨ row.Agrees id)
    (hProvisionings : ∀ child p, t.provisionings.get? child = some p →
      s.provisionings.get? child = some p ∨ p.Agrees child)
    (hFlights : ∀ f ∈ t.flights, f ∈ s.flights ∨ f.Agrees t) : Agreement t where
  identities id row hRow := (hIdentities id row hRow).elim (h.identities id row) fun hNew => hNew
  provisionings child p hp :=
    (hProvisionings child p hp).elim (h.provisionings child p) fun hNew => hNew
  flights f hFlight := (hFlights f hFlight).elim
    (fun hOld => hGrows.flightAgrees (h.flights f hOld)) fun hNew => hNew

theorem agrees_of_set {identities : IdentityTable} {new : AgentIdentityRow} (hNew : new.Agrees id) :
    ∀ other row, (identities.set id (some new)).get? other = some row →
      identities.get? other = some row ∨ row.Agrees other := by
  intro other row hRow
  rw [SortedMap.get?_set] at hRow
  split at hRow
  · rename_i hEq
    cases hRow
    exact .inr (hEq ▸ hNew)
  · exact .inl hRow

theorem agrees_of_map {identities : IdentityTable} {change : AgentIdentityRow → AgentIdentityRow}
    (hChange : ∀ row, identities.get? id = some row → (change row).Agrees id) :
    ∀ other row, (identities.set id ((identities.get? id).map change)).get? other = some row →
      identities.get? other = some row ∨ row.Agrees other := by
  intro other row hRow
  rw [SortedMap.get?_set] at hRow
  split at hRow
  · rename_i hEq
    obtain ⟨old, hOld, rfl⟩ := Option.map_eq_some_iff.mp hRow
    exact .inr (hEq ▸ hChange old hOld)
  · exact .inl hRow

/-- A step of which only the flights, the attempts or the log notice. -/
theorem Agreement.of_same (h : Agreement s) (hGrows : Grows s t)
    (hIdentities : t.identities = s.identities) (hProvisionings : t.provisionings = s.provisionings)
    (hFlights : ∀ f ∈ t.flights, f ∈ s.flights ∨ f.Agrees t) : Agreement t :=
  h.of_grows hGrows (fun _ _ hRow => .inl (hIdentities ▸ hRow))
    (fun _ _ hp => .inl (hProvisionings ▸ hp)) hFlights

theorem Agreement.drop (h : Agreement s) {flight : Flight} : Agreement (s.drop flight) :=
  h.of_same grows_drop rfl rfl fun _ hf => .inl (List.mem_of_mem_erase hf)

theorem Agreement.agrees_drop (h : Agreement s) {flight : Flight} (hFlight : flight ∈ s.flights) :
    flight.Agrees (s.drop flight) :=
  grows_drop.flightAgrees (h.flights _ hFlight)

theorem Agreement.moveOn (h : Agreement s) {flight next : Flight} (hNext : next.Agrees s) :
    Agreement (s.moveOn flight next) := by
  have hGrows : Grows s (s.moveOn flight next) := grows_of_flights rfl rfl rfl rfl
  refine h.of_same hGrows rfl rfl ?_
  intro f hf
  obtain rfl | hOld := List.mem_cons.mp hf
  · exact .inr (hGrows.flightAgrees hNext)
  · exact .inl (List.mem_of_mem_erase hOld)

theorem Agreement.begin (h : Agreement s) {flight : Flight} (hFlight : flight.Agrees s) :
    Agreement { s with flights := flight :: s.flights } := by
  have hGrows : Grows s { s with flights := flight :: s.flights } := grows_of_flights rfl rfl rfl rfl
  refine h.of_same hGrows rfl rfl ?_
  intro f hf
  obtain rfl | hOld := List.mem_cons.mp hf
  · exact .inr (hGrows.flightAgrees hFlight)
  · exact .inl hOld

theorem agrees_journal {child : String} {record : Provisioning → Provisioning}
    (h : Agreement s)
    (hRecord : ∀ p : Provisioning, p.Agrees child → (record p).Agrees child) :
    ∀ other p, (s.journal child record).get? other = some p →
      s.provisionings.get? other = some p ∨ p.Agrees other := by
  intro other p hp
  rw [State.journal, SortedMap.get?_set] at hp
  split at hp
  · rename_i hEq
    obtain ⟨old, hOld, rfl⟩ := Option.map_eq_some_iff.mp hp
    exact .inr (hEq ▸ hRecord old (h.provisionings child old hOld))
  · exact .inl hp

theorem agrees_finalized {child : String} (p : Provisioning) (h : p.Agrees child) :
    (if p.published then { p with finalized := true } else p).Agrees child := by
  split
  · exact h
  · exact h

/-- What `confirm` goes on with, when it does, agrees. -/
theorem State.judge_agrees {caller attemptId identityId : String}
    {child : Option ClaimConfirmChild} {row : AgentIdentityRow} {next : Flight}
    (hRow : s.identities.get? identityId = some row)
    (hJudge : s.judge caller child attemptId identityId row = some next) : next.Agrees s := by
  obtain ⟨_, hEq⟩ := Option.ite_none_right_eq_some.mp hJudge
  split at hEq
  · rename_i bound hBound
    obtain ⟨rfl, hEq⟩ := Option.ite_none_right_eq_some.mp hEq
    cases hEq
    exact ⟨rfl, row, hRow, fun _ => hBound⟩
  · cases hEq
  · cases hEq
    exact ⟨rfl, row, hRow, fun _ => rfl⟩
  · obtain ⟨_, hEq⟩ := Option.ite_none_left_eq_some.mp hEq
    cases hEq
    trivial

theorem Agreement.confirm (h : Agreement s) {caller attemptId identityId : String}
    {bindDid : Option String} {scopes : List String} {assertion : Assertion}
    (hFlight : (Flight.confirming caller attemptId identityId bindDid scopes assertion).Agrees s)
    (hConfirm : s.confirm caller attemptId identityId bindDid scopes assertion = some t) :
    Agreement t := by
  have hGrows := State.grows_confirm hConfirm
  obtain ⟨attempt, attempts, identities, _, _, hIdentities, rfl⟩ := State.confirm_some hConfirm
  obtain ⟨row, hRow, hActive, _, rfl⟩ := claimAgentIdentity_some hIdentities
  obtain ⟨rfl, row', hRow', hOwner⟩ := hFlight
  rw [hRow] at hRow'
  cases hRow'
  refine h.of_grows hGrows ?_ (fun _ _ hp => .inl hp) fun _ hf => .inl hf
  exact agrees_of_set fun _ => ⟨_, rfl, rfl, hOwner hActive, fun _ => rfl⟩

theorem Agreement.finalize (h : Agreement s) {mint : Mint} {p : Provisioning}
    (hAgrees : p.Agrees mint.childDid) (hFinalize : s.finalize mint p = some t) :
    Agreement t := by
  have hGrows := State.grows_finalize hFinalize
  -- the child's DID is the owner of its registration, minted or converted
  have hCarried : p.identityAssertion.registrationId = p.registrationId ∧
      some mint.childDid = some p.identityAssertion.sub ∧
      p.identityAssertion.scope = joinScopes p.scopes := by
    rw [hAgrees]
    exact ⟨rfl, rfl, rfl⟩
  cases hRegistration : mint.registration with
  | new registrationId =>
    obtain ⟨identities, hInsert, rfl⟩ := State.finalize_new hRegistration hFinalize
    refine h.of_grows hGrows ?_ (agrees_journal h agrees_finalized) fun _ hf => .inl hf
    rw [insertAgentIdentity] at hInsert
    split at hInsert
    · cases hInsert
      exact agrees_of_set fun _ => ⟨_, rfl, hCarried.1, hCarried.2.1, fun _ => hCarried.2.2⟩
    · cases hInsert
  | fromClaim registrationId attemptId =>
    obtain ⟨attempt, attempts, identities, _, _, hIdentities, rfl⟩ :=
      State.finalize_fromClaim hRegistration hFinalize
    obtain ⟨row, _, _, rfl⟩ := convertIdentityToChild_some hIdentities
    refine h.of_grows hGrows ?_ (agrees_journal h agrees_finalized) fun _ hf => .inl hf
    exact agrees_of_set fun _ => ⟨_, rfl, hCarried.1, hCarried.2.1, fun _ => hCarried.2.2⟩

theorem agreement_readForRenewal (h : Agreement s) (hWhole : RenewsWhole s (.readForRenewal id))
    (hStep : Machine.step s (.readForRenewal id) = some t) : Agreement t := by
  rw [Machine.step] at hStep
  split at hStep
  · cases hStep
  · rename_i row hRow
    split at hStep
    · cases hStep
    · rename_i did hDid
      obtain ⟨hClaimed, hEq⟩ := Option.ite_none_right_eq_some.mp hStep
      cases hEq
      refine h.begin ⟨row, hRow, fun hActive => absurd (hClaimed.symm.trans hActive) (by decide), rfl,
        hDid, fun hToken => ?_⟩
      -- clamping leaves the list as it is
      rw [mintAssertion, intersectScopeTokens_eq_self.mpr (hWhole row hRow hToken)]

theorem agreement_renew (h : Agreement s) {assertion : Assertion}
    (hStep : Machine.step s (.renew id assertion) = some t) : Agreement t := by
  have hGrows := grows_step _ _ _ hStep
  obtain ⟨hFlight, hEq⟩ := Option.ite_none_right_eq_some.mp hStep
  cases hEq
  obtain ⟨row, hRow, _, hCarries⟩ : ∃ row, s.identities.get? id = some row ∧
    row.status ≠ .active ∧ row.Carries id assertion := h.flights _ hFlight
  refine h.of_grows hGrows ?_ (fun _ _ hp => .inl hp) fun _ hf => .inl (List.mem_of_mem_erase hf)
  apply agrees_of_map
  intro row' hRow' _
  rw [hRow] at hRow'
  cases hRow'
  exact ⟨assertion, rfl, hCarries.registrationId, hCarries.sub, hCarries.scope⟩

theorem agreement_loadPreparedChild {mint : Mint} {cursor : ChildStep} (h : Agreement s)
    (hStep : Machine.step s (.loadPreparedChild mint cursor) = some t) : Agreement t := by
  obtain ⟨_, hEq⟩ := Option.ite_none_right_eq_some.mp hStep
  split at hEq
  · cases hEq
    exact h.drop
  · rename_i p hRow
    have hAgrees : p.Agrees mint.childDid := h.provisionings _ _ hRow
    split at hEq
    · split at hEq
      · cases hEq
        exact h.moveOn hAgrees
      · cases hEq
        exact h.moveOn hAgrees
      · split at hEq
        · cases hEq
          exact h.drop
        · cases hEq
          exact h.of_same (grows_of_eq rfl rfl rfl fun _ hEvent => List.mem_cons_of_mem _ hEvent)
            rfl rfl fun _ hf => .inl (List.mem_of_mem_erase hf)
    · cases hEq
      exact h.drop

theorem agreement_prepareChild {mint : Mint} (h : Agreement s)
    (hStep : Machine.step s (.prepareChild mint) = some t) : Agreement t := by
  have hGrows := grows_step _ _ _ hStep
  obtain ⟨_, hEq⟩ := Option.ite_none_right_eq_some.mp hStep
  split at hEq
  · cases hEq
    exact h.drop
  · rename_i p hReserve
    cases hEq
    have hAgrees : p.Agrees mint.childDid := (State.reserve_some hReserve).2.2.2.2
    refine h.of_grows hGrows (fun _ _ hRow => .inl hRow) ?_ ?_
    · intro child q hq
      rw [SortedMap.get?_set] at hq
      split at hq
      · rename_i hEq
        cases hq
        exact .inr (hEq ▸ hAgrees)
      · exact .inl hq
    · intro f hf
      obtain rfl | hOld := List.mem_cons.mp hf
      · exact .inr hAgrees
      · exact .inl (List.mem_of_mem_erase hOld)

theorem agreement_publishChildGenesis {mint : Mint} {p : Provisioning} (h : Agreement s)
    (hStep : Machine.step s (.publishChildGenesis mint p) = some t) : Agreement t := by
  have hGrows := grows_step _ _ _ hStep
  obtain ⟨hFlight, hEq⟩ := Option.ite_none_right_eq_some.mp hStep
  have hAgrees : p.Agrees mint.childDid := h.flights _ hFlight
  cases hEq
  refine h.of_grows hGrows (fun _ _ hRow => .inl hRow) (agrees_journal h fun _ hOld => hOld) ?_
  intro f hf
  obtain rfl | hOld := List.mem_cons.mp hf
  · exact .inr hAgrees
  · exact .inl (List.mem_of_mem_erase hOld)

/-- Every step keeps the agreement, when renewals find nothing to clamp or to reorder. -/
theorem agreement_step (s : State) (a : Action) (t : State) (h : Agreement s)
    (hWhole : RenewsWhole s a) (hStep : Machine.step s a = some t) : Agreement t := by
  have hGrows := grows_step _ _ _ hStep
  cases a with
  | tick =>
    cases hStep
    exact h.of_same hGrows rfl rfl fun _ hf => .inl hf
  | configure grantedScopes =>
    cases hStep
    exact h.of_same hGrows rfl rfl fun _ hf => .inl hf
  | register id row =>
    obtain ⟨⟨hActive, _⟩, hEq⟩ := Option.ite_none_right_eq_some.mp hStep
    obtain ⟨identities, hInsert, rfl⟩ := Option.map_eq_some_iff.mp hEq
    refine h.of_grows hGrows ?_ (fun _ _ hp => .inl hp) fun _ hf => .inl hf
    rw [insertAgentIdentity] at hInsert
    split at hInsert
    · cases hInsert
      exact agrees_of_set fun hClaimed => absurd (hActive.symm.trans hClaimed) (by decide)
    · cases hInsert
  | startClaimAttempt id attempt =>
    obtain ⟨_, hEq⟩ := Option.ite_none_right_eq_some.mp hStep
    cases hEq
    exact h.of_same hGrows rfl rfl fun _ hf => .inl hf
  | expireAttempts =>
    cases hStep
    exact h.of_same hGrows rfl rfl fun _ hf => .inl hf
  | revoke id =>
    cases hStep
    exact h.of_grows hGrows (agrees_of_map fun _ _ => by rintro ⟨⟩) (fun _ _ hp => .inl hp)
      fun _ hf => .inl hf
  | readAttempt caller userCode attemptId child =>
    rw [Machine.step] at hStep
    split at hStep
    · cases hStep
    · obtain ⟨_, hEq⟩ := Option.ite_none_right_eq_some.mp hStep
      cases hEq
      exact h.begin trivial
  | readIdentity caller child attemptId identityId =>
    obtain ⟨_, hEq⟩ := Option.ite_none_right_eq_some.mp hStep
    split at hEq
    · cases hEq
      exact h.drop
    · rename_i next hNext
      cases hEq
      obtain ⟨row, hRow, hJudge⟩ := Option.bind_eq_some_iff.mp hNext
      exact h.moveOn (State.judge_agrees hRow hJudge)
  | confirm caller attemptId identityId bindDid scopes assertion =>
    obtain ⟨hFlight, hEq⟩ := Option.ite_none_right_eq_some.mp hStep
    have hAgrees := h.agrees_drop hFlight
    cases hEq
    cases hConfirm : State.confirm _ caller attemptId identityId bindDid scopes assertion with
    | none => exact h.drop
    | some t => exact h.drop.confirm hAgrees hConfirm
  | mintChild mint =>
    rw [Machine.step] at hStep
    split at hStep
    · obtain ⟨_, hEq⟩ := Option.ite_none_left_eq_some.mp hStep
      cases hEq
      exact h.begin trivial
    · cases hStep
  | resume mint =>
    obtain ⟨_, hEq⟩ := Option.ite_none_right_eq_some.mp hStep
    split at hEq
    · cases hEq
      exact h.moveOn trivial
    · cases hEq
      exact h.moveOn trivial
  | prepareChild mint => exact agreement_prepareChild h hStep
  | loadPreparedChild mint cursor => exact agreement_loadPreparedChild h hStep
  | publishChildGenesis mint p => exact agreement_publishChildGenesis h hStep
  | finalizeChild mint p =>
    obtain ⟨hFlight, hEq⟩ := Option.ite_none_right_eq_some.mp hStep
    have hAgrees : p.Agrees mint.childDid := h.flights _ hFlight
    cases hEq
    cases hFinalize : State.finalize _ mint p with
    | none => exact h.drop
    | some t => exact h.drop.finalize hAgrees hFinalize
  | readForRenewal id => exact agreement_readForRenewal h hWhole hStep
  | renew id assertion => exact agreement_renew h hStep
  | abandon flight =>
    obtain ⟨_, hEq⟩ := Option.ite_none_right_eq_some.mp hStep
    cases hEq
    exact h.drop

theorem agreement_start (now : Nat) (grantedScopes : List String) :
    Agreement (start now grantedScopes) where
  identities _ _ hRow := nomatch hRow
  provisionings _ _ hRow := nomatch hRow
  flights _ hFlight := nomatch hFlight

/-! ## Polls and exchanges -/

variable {response : ClaimPollingResponse} {row : AgentIdentityRow}

theorem claimSuccess_some (h : claimSuccess row = some response) :
    response.scope = joinScopes row.scopes ∧
      row.identityAssertion = some response.identityAssertion := by
  rw [claimSuccess] at h
  split at h
  · rename_i hAssertion
    cases h
    exact ⟨rfl, hAssertion⟩
  · cases h

theorem State.handleClaimPolling_some {claimToken : String}
    (h : s.handleClaimPolling claimToken = some response) :
    ∃ id row, s.identities.get? id = some row ∧ row.claimToken = some claimToken ∧
      row.status = .claimed ∧ claimSuccess row = some response := by
  obtain ⟨row, hFind, h⟩ := Option.bind_eq_some_iff.mp h
  obtain ⟨hClaimed, hResponse⟩ := Option.ite_none_right_eq_some.mp h
  obtain ⟨id, hRow⟩ := SortedMap.mem_values.mp (List.mem_of_find?_eq_some hFind)
  have hToken := List.find?_some hFind
  exact ⟨id, row, hRow, of_decide_eq_true hToken, hClaimed, hResponse⟩

/-- In every state of a run whose renewals find nothing to clamp or to reorder, the scope of a
successful poll is the one that an exchange of the assertion polled puts in its token. -/
theorem claim_grant_agrees {now : Nat} {grantedScopes : List String} {as : List Action}
    (hWhole : Along Machine.step RenewsWhole (start now grantedScopes) as)
    (hRun : run Machine.step (start now grantedScopes) as = some t) {claimToken : String}
    (hPoll : t.handleClaimPolling claimToken = some response) :
    t.handleJwtBearer response.identityAssertion = some response.scope := by
  have hAgreement :=
    run_invariant_along agreement_step (agreement_start now grantedScopes) hWhole hRun
  obtain ⟨id, row, hRow, hToken, hClaimed, hResponse⟩ := State.handleClaimPolling_some hPoll
  obtain ⟨hScope, hAssertion⟩ := claimSuccess_some hResponse
  obtain ⟨assertion, hStored, hCarries⟩ := hAgreement.identities id row hRow hClaimed
  rw [hAssertion] at hStored
  cases hStored
  have hScopes := hCarries.scope (hToken ▸ nofun)
  rw [State.handleJwtBearer, hCarries.registrationId, hRow, hScope, ← hScopes]
  exact if_pos ⟨hClaimed, hCarries.sub⟩

/-- A renewal that finds something to clamp or to reorder: the poll goes on with the scopes as
they were stored, the exchange with the new ones. -/
theorem renewal_disagrees {did : String} (hRow : s.identities.get? id = some row)
    (hClaimed : row.status = .claimed) (hDid : row.did = some did)
    (hScope : joinScopes (intersectScopeTokens row.scopes s.grantedScopes) ≠
      joinScopes row.scopes) :
    ∃ t row' response,
      run Machine.step s [.readForRenewal id, .renew id (mintAssertion did id
        (intersectScopeTokens row.scopes s.grantedScopes))] = some t ∧
      t.identities.get? id = some row' ∧ claimSuccess row' = some response ∧
      t.handleJwtBearer response.identityAssertion ≠ some response.scope := by
  let renewed := mintAssertion did id (intersectScopeTokens row.scopes s.grantedScopes)
  have hRead : Machine.step s (.readForRenewal id) =
      some { s with flights := .renewing id renewed :: s.flights } := by
    rw [Machine.step, hRow]
    simp only [hDid, if_pos hClaimed, renewed]
  have hRenew : Machine.step { s with flights := .renewing id renewed :: s.flights }
      (.renew id renewed) = some { s with
        identities := setAgentIdentityAssertion id renewed s.identities
        flights := s.flights } := by
    rw [Machine.step, if_pos List.mem_cons_self, State.drop]
    simp only [List.erase_cons_head]
  have hRow' : (setAgentIdentityAssertion id renewed s.identities).get? id =
      some { row with identityAssertion := some renewed } := by
    rw [setAgentIdentityAssertion, SortedMap.get?_set, if_pos rfl, hRow, Option.map_some]
  refine ⟨_, _, ⟨joinScopes row.scopes, renewed⟩, run_cons_some.mpr ⟨_, hRead,
    run_cons_some.mpr ⟨_, hRenew, rfl⟩⟩, hRow', ?_, ?_⟩
  · rw [claimSuccess, hDid]
  · intro hEq
    rw [State.handleJwtBearer] at hEq
    obtain ⟨_, _, hEq⟩ := Option.bind_eq_some_iff.mp hEq
    obtain ⟨_, hEq⟩ := Option.ite_none_right_eq_some.mp hEq
    exact hScope (Option.some.inj hEq)

/-! ## A registration that is claimed, and renewed -/

def claimedRegistration : List Action :=
  [.register "reg" (anonymousRow "reg" "token" ["atproto"]),
    .startClaimAttempt "attempt" ⟨"reg", "AAAAAA", 600, .pending⟩,
    .readAttempt "did:plc:alice" "AAAAAA" "attempt" none,
    .readIdentity "did:plc:alice" none "attempt" "reg",
    .confirm "did:plc:alice" "attempt" "reg" (some "did:plc:alice")
      ["atproto", "transition:generic"]
      ⟨"did:plc:alice", "atproto transition:generic", "reg"⟩]

theorem claim_grant_agrees_renewed :
    ∃ t response, run Machine.step (start 0 ["transition:generic", "atproto"])
        (claimedRegistration ++ [.readForRenewal "reg",
          .renew "reg" ⟨"did:plc:alice", "atproto transition:generic", "reg"⟩]) = some t ∧
      t.handleClaimPolling "token" = some response ∧
      response.scope = "atproto transition:generic" ∧
      t.handleJwtBearer response.identityAssertion = some response.scope := by
  have hEnd : (run Machine.step (start 0 ["transition:generic", "atproto"])
      (claimedRegistration ++ [.readForRenewal "reg",
        .renew "reg" ⟨"did:plc:alice", "atproto transition:generic", "reg"⟩])).map
        (fun t => t.handleClaimPolling "token") = some (some
          ⟨"atproto transition:generic", "did:plc:alice", "atproto transition:generic", "reg"⟩) := by
    decide +kernel
  have hWhole : Along Machine.step RenewsWhole (start 0 ["transition:generic", "atproto"])
      (claimedRegistration ++ [.readForRenewal "reg",
        .renew "reg" ⟨"did:plc:alice", "atproto transition:generic", "reg"⟩]) := by
    decide +kernel
  obtain ⟨t, hRun, hPoll⟩ := Option.map_eq_some_iff.mp hEnd
  exact ⟨t, _, hRun, hPoll, rfl, claim_grant_agrees hWhole hRun hPoll⟩

/-- The operator takes a scope back, and an exchange renews the assertion without it: the next
poll still hands out a token with the scope. -/
theorem narrowing_bypassed :
    ∃ t response, run Machine.step (start 0 ["atproto", "transition:generic"])
        (claimedRegistration ++ [.configure ["atproto"], .readForRenewal "reg",
          .renew "reg" ⟨"did:plc:alice", "atproto", "reg"⟩]) = some t ∧
      t.handleClaimPolling "token" = some response ∧
      response.scope = "atproto transition:generic" ∧
      t.handleJwtBearer response.identityAssertion = some "atproto" := by
  have hEnd : (run Machine.step (start 0 ["atproto", "transition:generic"])
      (claimedRegistration ++ [.configure ["atproto"], .readForRenewal "reg",
        .renew "reg" ⟨"did:plc:alice", "atproto", "reg"⟩])).map
        (fun t => (t.handleClaimPolling "token",
          t.handleJwtBearer ⟨"did:plc:alice", "atproto", "reg"⟩)) = some
        (some ⟨"atproto transition:generic", "did:plc:alice", "atproto", "reg"⟩,
          some "atproto") := by
    decide +kernel
  obtain ⟨t, hRun, hEq⟩ := Option.map_eq_some_iff.mp hEnd
  obtain ⟨hPoll, hExchange⟩ := Prod.mk.inj hEq
  exact ⟨t, _, hRun, hPoll, rfl, hExchange⟩

end Ezpds.Agents
