import Ezpds.Agents.ClaimCeremony
import Mathlib

/-!
# The integrity of claims

A registration is claimed by completing an attempt of its own. The confirmation that mints a
child leaves the registration to be converted to the provisioning row, which is found by the
DID of the child: what it completes is the attempt of the user code, what it converts is the
registration of the row. The two agree in every run in which a confirmation reaches its end
only on a provisioning of its own registration.

* `claims_integrity`: every claim is accounted for in such a run, whatever the order of steps.
* `crossed_claim`: a child's mint that is interrupted for one registration and resumed with the
  user code of another.
-/

namespace Ezpds.Agents

open Library

/-! ## What the log accounts for -/

def Event.attemptId : Event → Option String
  | .claimed _ attemptId .. => some attemptId
  | _ => none

/-- The registration was claimed through an attempt, confirmed by `owner`. -/
def State.ClaimedFor (s : State) (registrationId owner : String) : Prop :=
  ∃ attemptId attempt instant,
    Event.claimed registrationId attemptId attempt instant owner ∈ s.log

/-- A claim completed an attempt of the same registration that was pending and had not expired,
and the registration belongs to the account that confirmed it. -/
structure State.Completes (s : State) (registrationId attemptId : String)
    (attempt : AgentClaimAttemptRow) (instant : Nat) (owner : String) : Prop where
  own : attempt.identityId = registrationId
  pending : attempt.isPending instant = true
  completed : ∃ completed, s.attempts.get? attemptId = some completed ∧
    completed.status = .completed
  owned : ∃ row, s.identities.get? registrationId = some row ∧ row.status ≠ .active ∧
    (row.did = some owner ∨ row.parentDid = some owner)

structure State.Integrity (s : State) : Prop where
  /-- A registration that the child API has not minted is claimed through an attempt. -/
  claimed : ∀ id row, s.identities.get? id = some row → row.claimToken ≠ none →
    row.status = .claimed → ∃ owner, s.ClaimedFor id owner
  completes : ∀ registrationId attemptId attempt instant owner,
    Event.claimed registrationId attemptId attempt instant owner ∈ s.log →
      s.Completes registrationId attemptId attempt instant owner
  /-- Every attempt completes at most once. -/
  once : (s.log.filterMap Event.attemptId).Nodup
  reported : ∀ registrationId owner, Event.reported registrationId owner ∈ s.log →
    s.ClaimedFor registrationId owner

/-! ## The guard -/

/-- The provisioning is one of the registration whose user code was confirmed. -/
def ChildRegistration.Owns (p : Provisioning) : ChildRegistration → Prop
  | .new _ => True
  | .fromClaim registrationId _ => p.registrationId = registrationId

instance (p : Provisioning) : (registration : ChildRegistration) →
    Decidable (registration.Owns p)
  | .new _ => .isTrue trivial
  | .fromClaim registrationId _ => inferInstanceAs (Decidable (p.registrationId = registrationId))

/-- A child confirmation finalizes, or finds finalized, a provisioning of its own registration. -/
def ResumesOwn (s : State) : Action → Prop
  | .loadPreparedChild mint .finalized => ∀ p ∈ s.provisionings.get? mint.childDid,
      p.parentDid = mint.parentDid → p.handle = mint.handle → mint.registration.Owns p
  | .finalizeChild mint p => mint.registration.Owns p
  | _ => True

instance (s : State) : (a : Action) → Decidable (ResumesOwn s a)
  | .loadPreparedChild mint .finalized => inferInstanceAs (Decidable (∀ p ∈
      s.provisionings.get? mint.childDid,
        p.parentDid = mint.parentDid → p.handle = mint.handle → mint.registration.Owns p))
  | .finalizeChild mint p => inferInstanceAs (Decidable (mint.registration.Owns p))
  | .loadPreparedChild _ .prepared | .loadPreparedChild _ .published => .isTrue trivial
  | .tick | .configure _ | .register .. | .startClaimAttempt .. | .expireAttempts | .revoke _
  | .readAttempt .. | .readIdentity .. | .confirm .. | .mintChild _ | .resume _
  | .prepareChild _ | .publishChildGenesis .. | .readForRenewal _ | .renew .. | .abandon _ =>
    .isTrue trivial

/-! ## The invariant -/

def State.AttemptOf (s : State) (attemptId identityId : String) : Prop :=
  ∃ attempt, s.attempts.get? attemptId = some attempt ∧ attempt.identityId = identityId

/-- A mint that completes an attempt completes one of its own registration. -/
def Mint.Sound (s : State) (mint : Mint) : Prop :=
  match mint.registration with
  | .new _ => True
  | .fromClaim registrationId attemptId => s.AttemptOf attemptId registrationId

/-- The row that a mint works on is still the one in the table. -/
def State.Provisions (s : State) (mint : Mint) (p : Provisioning) : Prop :=
  p.parentDid = mint.parentDid ∧ ∃ row, s.provisionings.get? mint.childDid = some row ∧
    row.parentDid = p.parentDid ∧ row.registrationId = p.registrationId

/-- What a request knows of the tables between two of its statements. -/
def Flight.Sound (s : State) : Flight → Prop
  | .attemptRead _ _ attemptId identityId => s.AttemptOf attemptId identityId
  | .confirming caller attemptId identityId bindDid _ _ => s.AttemptOf attemptId identityId ∧
      s.BindsOwner identityId bindDid caller
  | .minting mint => mint.Sound s
  | .preparing mint => mint.Sound s
  | .loading mint cursor => mint.Sound s ∧ (cursor = .finalized →
      ∃ p, s.provisionings.get? mint.childDid = some p ∧ p.finalized = true)
  | .publishing mint p => mint.Sound s ∧ s.Provisions mint p
  | .finalizing mint p => mint.Sound s ∧ s.Provisions mint p
  | .renewing _ _ => True

def Event.Sound (s : State) : Event → Prop
  | .minted registrationId => ∃ row, s.identities.get? registrationId = some row ∧
      row.claimToken = none
  | .claimed registrationId attemptId attempt instant owner =>
      s.Completes registrationId attemptId attempt instant owner
  | .reported registrationId owner => s.ClaimedFor registrationId owner

structure Inv (s : State) : Prop where
  claimed : ∀ id row, s.identities.get? id = some row → row.status = .claimed →
    .minted id ∈ s.log ∨ ∃ owner, s.ClaimedFor id owner
  events : ∀ e ∈ s.log, e.Sound s
  once : (s.log.filterMap Event.attemptId).Nodup
  attempts : ∀ id attempt, s.attempts.get? id = some attempt →
    ∃ row, s.identities.get? attempt.identityId = some row ∧ row.claimToken ≠ none
  provisionings : ∀ child p, s.provisionings.get? child = some p → p.finalized = true →
    .minted p.registrationId ∈ s.log ∨ s.ClaimedFor p.registrationId p.parentDid
  flights : ∀ f ∈ s.flights, f.Sound s

/-! ## What growth keeps -/

variable {s t : State} {mint : Mint} {p : Provisioning} {registrationId attemptId owner : String}

namespace Grows

variable (hGrows : Grows s t)
include hGrows

theorem claimedFor (h : s.ClaimedFor registrationId owner) : t.ClaimedFor registrationId owner := by
  obtain ⟨attemptId, attempt, instant, hEvent⟩ := h
  exact ⟨attemptId, attempt, instant, hGrows.log hEvent⟩

theorem attemptOf (h : s.AttemptOf attemptId registrationId) :
    t.AttemptOf attemptId registrationId := by
  obtain ⟨attempt, hAttempt, hId⟩ := h
  obtain ⟨attempt', hAttempt', hId', _⟩ := hGrows.attempts _ _ hAttempt
  exact ⟨attempt', hAttempt', hId'.trans hId⟩

theorem mintSound (h : mint.Sound s) : mint.Sound t := by
  unfold Mint.Sound at h ⊢
  split
  · trivial
  · rename_i hRegistration
    rw [hRegistration] at h
    exact hGrows.attemptOf h

theorem provisions (h : s.Provisions mint p) : t.Provisions mint p := by
  obtain ⟨hParent, row, hRow, hRowParent, hRowId⟩ := h
  obtain ⟨row', hRow', hParent', hId', _⟩ := hGrows.provisionings _ _ hRow
  exact ⟨hParent, row', hRow', hParent'.trans hRowParent, hId'.trans hRowId⟩

theorem completes {attempt : AgentClaimAttemptRow} {instant : Nat}
    (h : s.Completes registrationId attemptId attempt instant owner) :
    t.Completes registrationId attemptId attempt instant owner where
  own := h.own
  pending := h.pending
  completed := by
    obtain ⟨completed, hCompleted, hStatus⟩ := h.completed
    obtain ⟨completed', hCompleted', _, hDone⟩ := hGrows.attempts _ _ hCompleted
    exact ⟨completed', hCompleted', hDone hStatus⟩
  owned := by
    obtain ⟨row, hRow, hSettled, hOwner⟩ := h.owned
    obtain ⟨row', hRow', hEvolves⟩ := hGrows.identities _ _ hRow
    obtain ⟨hSettled', hDid, hParent, _⟩ := hEvolves.settled hSettled
    exact ⟨row', hRow', hSettled', hDid ▸ hParent ▸ hOwner⟩

theorem eventSound {e : Event} (h : e.Sound s) : e.Sound t := by
  cases e with
  | minted registrationId =>
    obtain ⟨row, hRow, hToken⟩ := h
    obtain ⟨row', hRow', hEvolves⟩ := hGrows.identities _ _ hRow
    exact ⟨row', hRow', hEvolves.claimToken.trans hToken⟩
  | claimed registrationId attemptId attempt instant owner => exact hGrows.completes h
  | reported registrationId owner => exact hGrows.claimedFor h

theorem flightSound {f : Flight} (h : f.Sound s) : f.Sound t := by
  cases f with
  | attemptRead caller child attemptId identityId => exact hGrows.attemptOf h
  | confirming caller attemptId identityId bindDid scopes assertion =>
    exact ⟨hGrows.attemptOf h.1, hGrows.bindsOwner h.2⟩
  | minting mint => exact hGrows.mintSound h
  | preparing mint => exact hGrows.mintSound h
  | loading mint cursor =>
    refine ⟨hGrows.mintSound h.1, fun hCursor => ?_⟩
    obtain ⟨p, hp, hDone⟩ := h.2 hCursor
    obtain ⟨p', hp', _, _, hDone'⟩ := hGrows.provisionings _ _ hp
    exact ⟨p', hp', hDone' hDone⟩
  | publishing mint p => exact ⟨hGrows.mintSound h.1, hGrows.provisions h.2⟩
  | finalizing mint p => exact ⟨hGrows.mintSound h.1, hGrows.provisions h.2⟩
  | renewing registrationId assertion => trivial

end Grows

/-! ## Steps -/

/-- A step that only adds to the tables and the log keeps the invariant when everything new in
them is accounted for. -/
theorem Inv.of_grows (h : Inv s) (hGrows : Grows s t)
    (hClaimed : ∀ id row, t.identities.get? id = some row → row.status = .claimed →
      (∃ row', s.identities.get? id = some row' ∧ row'.status = .claimed) ∨
        .minted id ∈ t.log ∨ ∃ owner, t.ClaimedFor id owner)
    (hEvents : ∀ e ∈ t.log, e ∈ s.log ∨ e.Sound t)
    (hOnce : (t.log.filterMap Event.attemptId).Nodup)
    (hAttempts : ∀ id attempt, t.attempts.get? id = some attempt →
      (∃ attempt', s.attempts.get? id = some attempt' ∧
        attempt'.identityId = attempt.identityId) ∨
        ∃ row, s.identities.get? attempt.identityId = some row ∧ row.claimToken ≠ none)
    (hProvisionings : ∀ child p, t.provisionings.get? child = some p → p.finalized = true →
      (∃ p', s.provisionings.get? child = some p' ∧ p'.finalized = true ∧
        p'.registrationId = p.registrationId ∧ p'.parentDid = p.parentDid) ∨
        .minted p.registrationId ∈ t.log ∨ t.ClaimedFor p.registrationId p.parentDid)
    (hFlights : ∀ f ∈ t.flights, f ∈ s.flights ∨ f.Sound t) : Inv t where
  claimed id row hRow hStatus := by
    obtain ⟨row', hRow', hStatus'⟩ | hNew := hClaimed id row hRow hStatus
    · refine (h.claimed id row' hRow' hStatus').imp (fun hMinted => hGrows.log hMinted) ?_
      rintro ⟨owner, hFor⟩
      exact ⟨owner, hGrows.claimedFor hFor⟩
    · exact hNew
  events e hEvent := (hEvents e hEvent).elim
    (fun hOld => hGrows.eventSound (h.events e hOld)) fun hNew => hNew
  once := hOnce
  attempts id attempt hAttempt := by
    have hOld : ∃ row, s.identities.get? attempt.identityId = some row ∧
        row.claimToken ≠ none := by
      obtain ⟨attempt', hAttempt', hId⟩ | hNew := hAttempts id attempt hAttempt
      · exact hId ▸ h.attempts id attempt' hAttempt'
      · exact hNew
    obtain ⟨row, hRow, hToken⟩ := hOld
    obtain ⟨row', hRow', hEvolves⟩ := hGrows.identities _ _ hRow
    exact ⟨row', hRow', hEvolves.claimToken ▸ hToken⟩
  provisionings child p hp hDone := by
    obtain ⟨p', hp', hDone', hId, hParent⟩ | hNew := hProvisionings child p hp hDone
    · rw [← hId, ← hParent]
      exact (h.provisionings child p' hp' hDone').imp (fun hMinted => hGrows.log hMinted)
        hGrows.claimedFor
    · exact hNew
  flights f hFlight := (hFlights f hFlight).elim
    (fun hOld => hGrows.flightSound (h.flights f hOld)) fun hNew => hNew

/-- A step of which only the flights notice. -/
theorem Inv.of_flights (h : Inv s) (hIdentities : t.identities = s.identities)
    (hAttempts : t.attempts = s.attempts) (hProvisionings : t.provisionings = s.provisionings)
    (hLog : t.log = s.log) (hFlights : ∀ f ∈ t.flights, f ∈ s.flights ∨ f.Sound t) : Inv t := by
  apply h.of_grows (grows_of_flights hIdentities hAttempts hProvisionings hLog)
  · intro id row hRow hStatus
    exact .inl ⟨row, hIdentities ▸ hRow, hStatus⟩
  · intro e hEvent
    exact .inl (hLog ▸ hEvent)
  · exact hLog ▸ h.once
  · intro id attempt hAttempt
    exact .inl ⟨attempt, hAttempts ▸ hAttempt, rfl⟩
  · intro child p hp hDone
    exact .inl ⟨p, hProvisionings ▸ hp, hDone, rfl, rfl⟩
  · exact hFlights

theorem Inv.drop (h : Inv s) {flight : Flight} : Inv (s.drop flight) :=
  h.of_flights rfl rfl rfl rfl fun _ hf => .inl (List.mem_of_mem_erase hf)

theorem Inv.sound_drop (h : Inv s) {flight : Flight} (hFlight : flight ∈ s.flights) :
    flight.Sound (s.drop flight) :=
  grows_drop.flightSound (h.flights _ hFlight)

theorem Inv.moveOn (h : Inv s) {flight next : Flight} (hNext : next.Sound s) :
    Inv (s.moveOn flight next) := by
  refine h.of_flights rfl rfl rfl rfl ?_
  intro f hf
  obtain rfl | hOld := List.mem_cons.mp hf
  · exact .inr ((grows_of_flights rfl rfl rfl rfl : Grows s _).flightSound hNext)
  · exact .inl (List.mem_of_mem_erase hOld)

/-- Another request begins. -/
theorem Inv.begin (h : Inv s) {flight : Flight} (hFlight : flight.Sound s) :
    Inv { s with flights := flight :: s.flights } := by
  refine h.of_flights rfl rfl rfl rfl ?_
  intro f hf
  obtain rfl | hOld := List.mem_cons.mp hf
  · exact .inr ((grows_of_flights rfl rfl rfl rfl : Grows s _).flightSound hFlight)
  · exact .inl hOld

/-- A statement on the registrations that claims none. -/
theorem Inv.identities (h : Inv s) {identities : IdentityTable}
    (hKept : Kept s.identities identities)
    (hClaimed : ∀ id row, identities.get? id = some row → row.status = .claimed →
      ∃ row', s.identities.get? id = some row' ∧ row'.status = .claimed) :
    Inv { s with identities := identities } := by
  refine h.of_grows ⟨hKept, .refl _, .refl _, List.Subset.refl _⟩ ?_ ?_ h.once ?_ ?_ ?_
  · intro id row hRow hStatus
    exact .inl (hClaimed id row hRow hStatus)
  · exact fun e hEvent => .inl hEvent
  · exact fun id attempt hAttempt => .inl ⟨attempt, hAttempt, rfl⟩
  · exact fun child p hp hDone => .inl ⟨p, hp, hDone, rfl, rfl⟩
  · exact fun f hf => .inl hf

theorem claimed_of_set {identities : IdentityTable} {id : String} {new : AgentIdentityRow}
    (hNew : new.status = .claimed → ∃ row, identities.get? id = some row ∧ row.status = .claimed) :
    ∀ other row, (identities.set id (some new)).get? other = some row → row.status = .claimed →
      ∃ row', identities.get? other = some row' ∧ row'.status = .claimed := by
  intro other row hRow hStatus
  rw [SortedMap.get?_set] at hRow
  split at hRow
  · rename_i hEq
    cases hRow
    exact hEq ▸ hNew hStatus
  · exact ⟨row, hRow, hStatus⟩

theorem claimed_of_map {identities : IdentityTable} {id : String}
    {change : AgentIdentityRow → AgentIdentityRow}
    (hChange : ∀ row : AgentIdentityRow, (change row).status = .claimed → row.status = .claimed) :
    ∀ other row, (identities.set id ((identities.get? id).map change)).get? other = some row →
      row.status = .claimed →
        ∃ row', identities.get? other = some row' ∧ row'.status = .claimed := by
  intro other row hRow hStatus
  rw [SortedMap.get?_set] at hRow
  split at hRow
  · rename_i hEq
    obtain ⟨old, hOld, rfl⟩ := Option.map_eq_some_iff.mp hRow
    exact ⟨old, hEq ▸ hOld, hChange old hStatus⟩
  · exact ⟨row, hRow, hStatus⟩

/-- A statement on the provisionings that finalizes none. -/
theorem Inv.provisioningTable (h : Inv s) {provisionings : ProvisioningTable} {flight : Flight}
    {flights : List Flight} (hKept : ProvisioningsKept s.provisionings provisionings)
    (hFinalized : ∀ child p, provisionings.get? child = some p → p.finalized = true →
      ∃ p', s.provisionings.get? child = some p' ∧ p'.finalized = true ∧
        p'.registrationId = p.registrationId ∧ p'.parentDid = p.parentDid)
    (hFlights : flights ⊆ s.flights)
    (hFlight : flight.Sound
      { s with provisionings := provisionings, flights := flight :: flights }) :
    Inv { s with provisionings := provisionings, flights := flight :: flights } := by
  refine h.of_grows ⟨.refl _, .refl _, hKept, List.Subset.refl _⟩ ?_ ?_ h.once ?_ ?_ ?_
  · exact fun id row hRow hStatus => .inl ⟨row, hRow, hStatus⟩
  · exact fun e hEvent => .inl hEvent
  · exact fun id attempt hAttempt => .inl ⟨attempt, hAttempt, rfl⟩
  · exact fun child p hp hDone => .inl (hFinalized child p hp hDone)
  · intro f hf
    obtain rfl | hOld := List.mem_cons.mp hf
    · exact .inr hFlight
    · exact .inl (hFlights hOld)

theorem inv_register {id : String} {row : AgentIdentityRow} (h : Inv s)
    (hStep : Machine.step s (.register id row) = some t) : Inv t := by
  obtain ⟨⟨hActive, _⟩, hEq⟩ := Option.ite_none_right_eq_some.mp hStep
  obtain ⟨identities, hInsert, rfl⟩ := Option.map_eq_some_iff.mp hEq
  apply h.identities (kept_insert hInsert)
  rw [insertAgentIdentity] at hInsert
  split at hInsert
  · cases hInsert
    exact claimed_of_set fun hClaimed => absurd (hActive.symm.trans hClaimed) (by decide)
  · cases hInsert

theorem inv_startClaimAttempt {id : String} {attempt : AgentClaimAttemptRow} (h : Inv s)
    (hStep : Machine.step s (.startClaimAttempt id attempt) = some t) : Inv t := by
  have hGrows := grows_step _ _ _ hStep
  obtain ⟨⟨_, _, _, hToken⟩, hEq⟩ := Option.ite_none_right_eq_some.mp hStep
  cases hEq
  obtain ⟨row, hRow, hSome⟩ := (Option.any_eq_true _ _).mp hToken
  refine h.of_grows hGrows ?_ ?_ h.once ?_ ?_ ?_
  · exact fun id row hRow hStatus => .inl ⟨row, hRow, hStatus⟩
  · exact fun e hEvent => .inl hEvent
  · intro other attempt' hAttempt
    rw [SortedMap.get?_set] at hAttempt
    split at hAttempt
    · cases hAttempt
      exact .inr ⟨row, hRow, Option.isSome_iff_ne_none.mp hSome⟩
    · exact .inl ⟨attempt', hAttempt, rfl⟩
  · exact fun child p hp hDone => .inl ⟨p, hp, hDone, rfl, rfl⟩
  · exact fun f hf => .inl hf

theorem inv_expireAttempts (h : Inv s)
    (hStep : Machine.step s .expireAttempts = some t) : Inv t := by
  have hGrows := grows_step _ _ _ hStep
  cases hStep
  refine h.of_grows hGrows ?_ ?_ h.once ?_ ?_ ?_
  · exact fun id row hRow hStatus => .inl ⟨row, hRow, hStatus⟩
  · exact fun e hEvent => .inl hEvent
  · intro id attempt hAttempt
    rw [expirePendingAttempts, SortedMap.get?_mapValues] at hAttempt
    obtain ⟨attempt', hAttempt', rfl⟩ := Option.map_eq_some_iff.mp hAttempt
    refine .inl ⟨attempt', hAttempt', ?_⟩
    split
    · rfl
    · rfl
  · exact fun child p hp hDone => .inl ⟨p, hp, hDone, rfl, rfl⟩
  · exact fun f hf => .inl hf

/-- What `confirm` goes on with, when it does, is sound. -/
theorem State.judge_sound {caller identityId : String} {child : Option ClaimConfirmChild}
    {row : AgentIdentityRow} {next : Flight} (hAttempt : s.AttemptOf attemptId identityId)
    (hRow : s.identities.get? identityId = some row)
    (hJudge : s.judge caller child attemptId identityId row = some next) : next.Sound s := by
  obtain ⟨_, hEq⟩ := Option.ite_none_right_eq_some.mp hJudge
  split at hEq
  · rename_i bound hBound
    obtain ⟨rfl, hEq⟩ := Option.ite_none_right_eq_some.mp hEq
    cases hEq
    exact ⟨hAttempt, row, hRow, fun _ => hBound⟩
  · cases hEq
  · cases hEq
    exact ⟨hAttempt, row, hRow, fun _ => rfl⟩
  · obtain ⟨_, hEq⟩ := Option.ite_none_left_eq_some.mp hEq
    cases hEq
    exact hAttempt

theorem inv_readIdentity {caller identityId : String} {child : Option ClaimConfirmChild}
    (h : Inv s)
    (hStep : Machine.step s (.readIdentity caller child attemptId identityId) = some t) :
    Inv t := by
  obtain ⟨hFlight, hEq⟩ := Option.ite_none_right_eq_some.mp hStep
  split at hEq
  · cases hEq
    exact h.drop
  · rename_i next hNext
    cases hEq
    obtain ⟨row, hRow, hJudge⟩ := Option.bind_eq_some_iff.mp hNext
    exact h.moveOn (State.judge_sound (h.flights _ hFlight) hRow hJudge)

/-! ### Claims -/

/-- An attempt that is still pending has not been completed before. -/
theorem Inv.fresh (h : Inv s) {attempt : AgentClaimAttemptRow} {now : Nat}
    (hAttempt : s.attempts.get? attemptId = some attempt)
    (hPending : attempt.isPending now = true) :
    attemptId ∉ s.log.filterMap Event.attemptId := by
  intro hMem
  obtain ⟨e, hEvent, hId⟩ := List.mem_filterMap.mp hMem
  cases e with
  | minted registrationId => cases hId
  | reported registrationId owner => cases hId
  | claimed registrationId attemptId' attempt' instant owner =>
    cases hId
    obtain ⟨completed, hCompleted, hDone⟩ := (h.events _ hEvent).completed
    rw [hAttempt] at hCompleted
    cases hCompleted
    rw [AgentClaimAttemptRow.isPending, hDone] at hPending
    cases hPending

/-- A transaction that completes an attempt of a registration and claims it for its owner. -/
theorem Inv.claim (h : Inv s) (hGrows : Grows s t) {attempt : AgentClaimAttemptRow}
    {new : AgentIdentityRow} (hAttempt : s.attempts.get? attemptId = some attempt)
    (hPending : attempt.isPending s.now = true) (hOwn : attempt.identityId = registrationId)
    (hNew : new.status = .claimed)
    (hOwner : new.did = some owner ∨ new.parentDid = some owner)
    (hIdentities : t.identities = s.identities.set registrationId (some new))
    (hAttempts : t.attempts = s.attempts.set attemptId
      (some { attempt with status := .completed }))
    (hProvisionings : ∀ child p, t.provisionings.get? child = some p → p.finalized = true →
      (∃ p', s.provisionings.get? child = some p' ∧ p'.finalized = true ∧
        p'.registrationId = p.registrationId ∧ p'.parentDid = p.parentDid) ∨
        p.registrationId = registrationId ∧ p.parentDid = owner)
    (hFlights : t.flights ⊆ s.flights)
    (hLog : t.log = .reported registrationId owner ::
      .claimed registrationId attemptId attempt s.now owner :: s.log) : Inv t := by
  have hEvent : Event.claimed registrationId attemptId attempt s.now owner ∈ t.log := by
    rw [hLog]
    exact List.mem_cons_of_mem _ List.mem_cons_self
  have hFor : t.ClaimedFor registrationId owner := ⟨attemptId, attempt, s.now, hEvent⟩
  have hCompletes : t.Completes registrationId attemptId attempt s.now owner := by
    refine ⟨hOwn, hPending, ⟨_, by rw [hAttempts, SortedMap.get?_set, if_pos rfl], rfl⟩, new, ?_,
      hNew ▸ nofun, hOwner⟩
    rw [hIdentities, SortedMap.get?_set, if_pos rfl]
  apply h.of_grows hGrows
  · intro id row hRow hStatus
    rw [hIdentities, SortedMap.get?_set] at hRow
    split at hRow
    · rename_i hEq
      subst hEq
      exact .inr (.inr ⟨owner, hFor⟩)
    · exact .inl ⟨row, hRow, hStatus⟩
  · intro e he
    rw [hLog] at he
    obtain rfl | rfl | hOld := List.mem_cons.mp he |>.imp_right List.mem_cons.mp
    · exact .inr hFor
    · exact .inr hCompletes
    · exact .inl hOld
  · rw [hLog]
    exact List.nodup_cons.mpr ⟨h.fresh hAttempt hPending, h.once⟩
  · intro id attempt' hAttempt'
    rw [hAttempts, SortedMap.get?_set] at hAttempt'
    split at hAttempt'
    · rename_i hEq
      cases hAttempt'
      exact .inl ⟨attempt, hEq ▸ hAttempt, rfl⟩
    · exact .inl ⟨attempt', hAttempt', rfl⟩
  · intro child p hp hDone
    obtain hOld | ⟨rfl, rfl⟩ := hProvisionings child p hp hDone
    · exact .inl hOld
    · exact .inr (.inr hFor)
  · exact fun f hf => .inl (hFlights hf)

/-- A plain confirmation, once its flight is over. -/
theorem Inv.confirm (h : Inv s) {caller identityId : String} {bindDid : Option String}
    {scopes : List String} {assertion : Assertion}
    (hFlight : (Flight.confirming caller attemptId identityId bindDid scopes assertion).Sound s)
    (hConfirm : s.confirm caller attemptId identityId bindDid scopes assertion = some t) :
    Inv t := by
  have hGrows := State.grows_confirm hConfirm
  obtain ⟨attempt, attempts, identities, hAttempt, hAttempts, hIdentities, rfl⟩ :=
    State.confirm_some hConfirm
  obtain ⟨completed, hCompleted, hPending, rfl⟩ := completeAgentClaimAttempt_some hAttempts
  obtain ⟨row, hRow, hActive, _, rfl⟩ := claimAgentIdentity_some hIdentities
  obtain ⟨⟨attempt', hAttempt', hOwn⟩, row', hRow', hOwner⟩ := hFlight
  rw [hAttempt] at hCompleted hAttempt'
  cases hCompleted
  cases hAttempt'
  rw [hRow] at hRow'
  cases hRow'
  exact h.claim hGrows hAttempt hPending hOwn rfl (.inl (hOwner hActive)) rfl rfl
    (fun child p hp hDone => .inl ⟨p, hp, hDone, rfl, rfl⟩) (List.Subset.refl _) rfl

/-- What a finalization leaves finalized was so before, or is the row that it works on. -/
theorem State.finalized_journal {child : String} {q : Provisioning}
    (hProvisions : s.Provisions mint p)
    (hq : (s.journal mint.childDid fun row =>
      if row.published then { row with finalized := true } else row).get? child = some q)
    (hDone : q.finalized = true) :
    (∃ p', s.provisionings.get? child = some p' ∧ p'.finalized = true ∧
      p'.registrationId = q.registrationId ∧ p'.parentDid = q.parentDid) ∨
      q.registrationId = p.registrationId ∧ q.parentDid = mint.parentDid := by
  obtain ⟨hParent, row, hRow, hRowParent, hRowId⟩ := hProvisions
  rw [State.journal, SortedMap.get?_set, hRow, Option.map_some] at hq
  split at hq
  · right
    cases hq
    split
    · exact ⟨hRowId, hRowParent.trans hParent⟩
    · exact ⟨hRowId, hRowParent.trans hParent⟩
  · exact .inl ⟨q, hq, hDone, rfl, rfl⟩

/-- The finalization of a mint of the parent's own. -/
theorem Inv.finalize_new (h : Inv s) (hRegistration : mint.registration = .new registrationId)
    (hProvisions : s.Provisions mint p) (hFinalize : s.finalize mint p = some t) : Inv t := by
  have hGrows := State.grows_finalize hFinalize
  obtain ⟨identities, hInsert, rfl⟩ := State.finalize_new hRegistration hFinalize
  have hIdentities : identities = s.identities.set p.registrationId (some (childRow mint p)) := by
    rw [insertAgentIdentity] at hInsert
    split at hInsert
    · exact (Option.some.inj hInsert).symm
    · cases hInsert
  subst hIdentities
  have hMinted : Event.minted p.registrationId ∈ Event.minted p.registrationId :: s.log :=
    List.mem_cons_self
  refine h.of_grows hGrows ?_ ?_ h.once ?_ ?_ ?_
  · intro id row hRow hStatus
    rw [SortedMap.get?_set] at hRow
    split at hRow
    · rename_i hEq
      exact .inr (.inl (hEq ▸ hMinted))
    · exact .inl ⟨row, hRow, hStatus⟩
  · intro e he
    obtain rfl | hOld := List.mem_cons.mp he
    · exact .inr ⟨childRow mint p, by rw [SortedMap.get?_set, if_pos rfl], rfl⟩
    · exact .inl hOld
  · exact fun id attempt hAttempt => .inl ⟨attempt, hAttempt, rfl⟩
  · intro child q hq hDone
    obtain hOld | ⟨hId, _⟩ := State.finalized_journal hProvisions hq hDone
    · exact .inl hOld
    · exact .inr (.inl (hId ▸ hMinted))
  · exact fun f hf => .inl hf

/-- The finalization of a child confirmation, on a provisioning of its own registration. -/
theorem Inv.finalize_fromClaim (h : Inv s)
    (hRegistration : mint.registration = .fromClaim registrationId attemptId)
    (hMint : s.AttemptOf attemptId registrationId) (hProvisions : s.Provisions mint p)
    (hOwns : p.registrationId = registrationId) (hFinalize : s.finalize mint p = some t) :
    Inv t := by
  have hGrows := State.grows_finalize hFinalize
  obtain ⟨attempt, attempts, identities, hAttempt, hAttempts, hIdentities, rfl⟩ :=
    State.finalize_fromClaim hRegistration hFinalize
  obtain ⟨completed, hCompleted, hPending, rfl⟩ := completeAgentClaimAttempt_some hAttempts
  obtain ⟨row, hRow, hActive, rfl⟩ := convertIdentityToChild_some hIdentities
  obtain ⟨attempt', hAttempt', hOwn⟩ := hMint
  subst hOwns
  rw [hAttempt] at hCompleted hAttempt'
  cases hCompleted
  cases hAttempt'
  have hParent : some p.parentDid = some mint.parentDid := congrArg some hProvisions.1
  exact h.claim hGrows hAttempt hPending hOwn rfl (.inr hParent) rfl rfl
    (fun child q hq hDone => State.finalized_journal hProvisions hq hDone)
    (List.Subset.refl _) rfl

theorem inv_prepareChild (h : Inv s) (hStep : Machine.step s (.prepareChild mint) = some t) :
    Inv t := by
  obtain ⟨hFlight, hEq⟩ := Option.ite_none_right_eq_some.mp hStep
  have hMint : mint.Sound s := h.flights _ hFlight
  split at hEq
  · cases hEq
    exact h.drop
  · rename_i p hReserve
    cases hEq
    obtain ⟨hNone, hParent, _, hFinalized, _⟩ := State.reserve_some hReserve
    refine h.provisioningTable (provisioningsKept_insert hNone) ?_
      (fun _ hf => List.mem_of_mem_erase hf) ?_
    · intro child q hq hDone
      rw [SortedMap.get?_set] at hq
      split at hq
      · cases hq
        rw [hFinalized] at hDone
        cases hDone
      · exact ⟨q, hq, hDone, rfl, rfl⟩
    · exact ⟨hMint, hParent, p, by rw [SortedMap.get?_set, if_pos rfl], rfl, rfl⟩

theorem inv_publishChildGenesis (h : Inv s)
    (hStep : Machine.step s (.publishChildGenesis mint p) = some t) : Inv t := by
  obtain ⟨hFlight, hEq⟩ := Option.ite_none_right_eq_some.mp hStep
  obtain ⟨hMint, hParent, row, hRow, hRowParent, hRowId⟩ : mint.Sound s ∧ s.Provisions mint p :=
    h.flights _ hFlight
  cases hEq
  refine h.provisioningTable (provisioningsKept_journal fun _ => ⟨rfl, rfl, fun hDone => hDone⟩) ?_
    (fun _ hf => List.mem_of_mem_erase hf) ?_
  · intro child q hq hDone
    rw [State.journal, SortedMap.get?_set] at hq
    split at hq
    · rename_i hEq
      obtain ⟨q', hq', rfl⟩ := Option.map_eq_some_iff.mp hq
      exact ⟨q', hEq ▸ hq', hDone, rfl, rfl⟩
    · exact ⟨q, hq, hDone, rfl, rfl⟩
  · refine ⟨hMint, hParent, { row with published := true }, ?_, hRowParent, hRowId⟩
    rw [State.journal, SortedMap.get?_set, if_pos rfl, hRow, Option.map_some]

/-- A child confirmation that finds its provisioning finalized reports a claim that was made. -/
theorem Inv.finds_claim (h : Inv s) (hMint : s.AttemptOf attemptId registrationId) {child : String}
    (hRow : s.provisionings.get? child = some p) (hDone : p.finalized = true)
    (hOwns : p.registrationId = registrationId) : s.ClaimedFor registrationId p.parentDid := by
  obtain hMinted | hFor := h.provisionings child p hRow hDone
  · -- the registration has an attempt, so it is not one of the child API
    obtain ⟨attempt, hAttempt, hId⟩ := hMint
    obtain ⟨row, hRow, hToken⟩ := h.attempts _ _ hAttempt
    obtain ⟨row', hRow', hNone⟩ := h.events _ hMinted
    rw [hId, ← hOwns, hRow'] at hRow
    cases hRow
    exact absurd hNone hToken
  · exact hOwns ▸ hFor

theorem inv_loadPreparedChild {cursor : ChildStep} (h : Inv s)
    (hOwn : ResumesOwn s (.loadPreparedChild mint cursor))
    (hStep : Machine.step s (.loadPreparedChild mint cursor) = some t) : Inv t := by
  obtain ⟨hFlight, hEq⟩ := Option.ite_none_right_eq_some.mp hStep
  obtain ⟨hMint, hCursor⟩ : mint.Sound s ∧ (cursor = .finalized →
    ∃ p, s.provisionings.get? mint.childDid = some p ∧ p.finalized = true) := h.flights _ hFlight
  split at hEq
  · cases hEq
    exact h.drop
  · rename_i p hRow
    split at hEq
    · rename_i hSame
      split at hEq
      · cases hEq
        exact h.moveOn ⟨hMint, hSame.1, p, hRow, rfl, rfl⟩
      · cases hEq
        exact h.moveOn ⟨hMint, hSame.1, p, hRow, rfl, rfl⟩
      · split at hEq
        · cases hEq
          exact h.drop
        · rename_i registrationId attemptId hRegistration
          cases hEq
          obtain ⟨p', hp', hDone⟩ := hCursor rfl
          rw [hRow] at hp'
          cases hp'
          have hOwns : mint.registration.Owns p := hOwn p hRow hSame.1 hSame.2
          rw [hRegistration] at hOwns
          rw [Mint.Sound, hRegistration] at hMint
          have hFor := hSame.1 ▸ h.finds_claim hMint hRow hDone hOwns
          have hGrows : Grows s { s.drop (.loading mint .finalized) with
              log := .reported registrationId mint.parentDid :: s.log } :=
            grows_of_eq rfl rfl rfl fun _ hEvent => List.mem_cons_of_mem _ hEvent
          refine h.of_grows hGrows ?_ ?_ h.once ?_ ?_ ?_
          · exact fun id row hRow hStatus => .inl ⟨row, hRow, hStatus⟩
          · intro e he
            obtain rfl | hOld := List.mem_cons.mp he
            · exact .inr (hGrows.claimedFor hFor)
            · exact .inl hOld
          · exact fun id attempt hAttempt => .inl ⟨attempt, hAttempt, rfl⟩
          · exact fun child p hp hDone => .inl ⟨p, hp, hDone, rfl, rfl⟩
          · exact fun f hf => .inl (List.mem_of_mem_erase hf)
    · cases hEq
      exact h.drop

theorem inv_finalizeChild (h : Inv s) (hOwn : ResumesOwn s (.finalizeChild mint p))
    (hStep : Machine.step s (.finalizeChild mint p) = some t) : Inv t := by
  obtain ⟨hFlight, hEq⟩ := Option.ite_none_right_eq_some.mp hStep
  obtain ⟨hMint, hProvisions⟩ : mint.Sound (s.drop (.finalizing mint p)) ∧
    (s.drop (.finalizing mint p)).Provisions mint p := h.sound_drop hFlight
  cases hEq
  cases hFinalize : (s.drop (.finalizing mint p)).finalize mint p with
  | none => exact h.drop
  | some t =>
    cases hRegistration : mint.registration with
    | new registrationId => exact h.drop.finalize_new hRegistration hProvisions hFinalize
    | fromClaim registrationId attemptId =>
      have hOwns : mint.registration.Owns p := hOwn
      rw [hRegistration] at hOwns
      rw [Mint.Sound, hRegistration] at hMint
      exact h.drop.finalize_fromClaim hRegistration hMint hProvisions hOwns hFinalize

/-- Every step keeps the invariant, when a child confirmation ends on a provisioning of its own
registration. -/
theorem inv_step (s : State) (a : Action) (t : State) (h : Inv s) (hOwn : ResumesOwn s a)
    (hStep : Machine.step s a = some t) : Inv t := by
  cases a with
  | tick =>
    cases hStep
    exact h.of_flights rfl rfl rfl rfl fun _ hf => .inl hf
  | configure grantedScopes =>
    cases hStep
    exact h.of_flights rfl rfl rfl rfl fun _ hf => .inl hf
  | register id row => exact inv_register h hStep
  | startClaimAttempt id attempt => exact inv_startClaimAttempt h hStep
  | expireAttempts => exact inv_expireAttempts h hStep
  | revoke id =>
    cases hStep
    exact h.identities kept_revoke (claimed_of_map nofun)
  | readAttempt caller userCode attemptId child =>
    rw [Machine.step] at hStep
    split at hStep
    · cases hStep
    · rename_i attempt hAttempt
      obtain ⟨_, hEq⟩ := Option.ite_none_right_eq_some.mp hStep
      cases hEq
      exact h.begin ⟨attempt, hAttempt, rfl⟩
  | readIdentity caller child attemptId identityId => exact inv_readIdentity h hStep
  | confirm caller attemptId identityId bindDid scopes assertion =>
    obtain ⟨hFlight, hEq⟩ := Option.ite_none_right_eq_some.mp hStep
    have hSound := h.sound_drop hFlight
    cases hEq
    cases hConfirm : State.confirm _ caller attemptId identityId bindDid scopes assertion with
    | none => exact h.drop
    | some t => exact h.drop.confirm hSound hConfirm
  | mintChild mint =>
    rw [Machine.step] at hStep
    split at hStep
    · rename_i registrationId hRegistration
      obtain ⟨_, hEq⟩ := Option.ite_none_left_eq_some.mp hStep
      cases hEq
      have hMint : mint.Sound s := by
        rw [Mint.Sound, hRegistration]
        trivial
      exact h.begin hMint
    · cases hStep
  | resume mint =>
    obtain ⟨hFlight, hEq⟩ := Option.ite_none_right_eq_some.mp hStep
    have hMint : mint.Sound s := h.flights _ hFlight
    split at hEq
    · cases hEq
      exact h.moveOn hMint
    · rename_i p hRow
      cases hEq
      refine h.moveOn ⟨hMint, fun hCursor => ⟨p, hRow, ?_⟩⟩
      by_contra hOpen
      rw [Provisioning.cursor, if_neg hOpen] at hCursor
      split at hCursor
      · cases hCursor
      · cases hCursor
  | prepareChild mint => exact inv_prepareChild h hStep
  | loadPreparedChild mint cursor => exact inv_loadPreparedChild h hOwn hStep
  | publishChildGenesis mint p => exact inv_publishChildGenesis h hStep
  | finalizeChild mint p => exact inv_finalizeChild h hOwn hStep
  | readForRenewal id =>
    rw [Machine.step] at hStep
    split at hStep
    · cases hStep
    · split at hStep
      · cases hStep
      · obtain ⟨_, hEq⟩ := Option.ite_none_right_eq_some.mp hStep
        cases hEq
        exact h.begin trivial
  | renew id assertion =>
    obtain ⟨_, hEq⟩ := Option.ite_none_right_eq_some.mp hStep
    cases hEq
    exact h.drop.identities kept_setAssertion (claimed_of_map fun _ hClaimed => hClaimed)
  | abandon flight =>
    obtain ⟨_, hEq⟩ := Option.ite_none_right_eq_some.mp hStep
    cases hEq
    exact h.drop

theorem inv_start (now : Nat) (grantedScopes : List String) : Inv (start now grantedScopes) where
  claimed _ _ hRow := nomatch hRow
  events _ hEvent := nomatch hEvent
  once := List.nodup_nil
  attempts _ _ hAttempt := nomatch hAttempt
  provisionings _ _ hRow := nomatch hRow
  flights _ hFlight := nomatch hFlight

theorem Inv.integrity (h : Inv s) : s.Integrity where
  claimed id row hRow hToken hStatus := by
    obtain hMinted | hFor := h.claimed id row hRow hStatus
    · obtain ⟨row', hRow', hNone⟩ := h.events _ hMinted
      rw [hRow] at hRow'
      cases hRow'
      exact absurd hNone hToken
    · exact hFor
  completes _ _ _ _ _ hEvent := h.events _ hEvent
  once := h.once
  reported _ _ hEvent := h.events _ hEvent

/-- In every run in which a child confirmation ends on a provisioning of its own registration,
each claim completes a pending attempt of the registration claimed, confirmed by its owner,
attempts complete once, a reported claim was made, and what was revoked on the way stays so. -/
theorem claims_integrity {now : Nat} {grantedScopes : List String} {before after : List Action}
    (hBefore : run Machine.step (start now grantedScopes) before = some s)
    (hAfter : run Machine.step s after = some t)
    (hOwn : Along Machine.step ResumesOwn (start now grantedScopes) (before ++ after)) :
    t.Integrity ∧ ∀ id row, s.identities.get? id = some row → row.status = .revoked →
      ∃ row', t.identities.get? id = some row' ∧ row'.status = .revoked := by
  have hRun : run Machine.step (start now grantedScopes) (before ++ after) = some t :=
    run_append_some.mpr ⟨s, hBefore, hAfter⟩
  constructor
  · exact (run_invariant_along inv_step (inv_start now grantedScopes) hOwn hRun).integrity
  · intro id row hRow hRevoked
    obtain ⟨row', hRow', hEvolves⟩ := (grows_run hAfter).identities id row hRow
    exact ⟨row', hRow', hEvolves.revoked hRevoked⟩

/-! ## A mint that is resumed -/

def sampleChild : ClaimConfirmChild := ⟨"child.example.com", "did:plc:child"⟩

/-- The mint of the child in the confirmation of a registration by alice. -/
def sampleMint (registrationId attemptId : String) : Mint :=
  ⟨"did:plc:alice", sampleChild.handle, sampleChild.childDid, .fromClaim registrationId attemptId⟩

def sampleProvisioning : Provisioning where
  parentDid := "did:plc:alice"
  handle := sampleChild.handle
  registrationId := "reg-a"
  scopes := ["atproto"]
  identityAssertion := ⟨"did:plc:child", "atproto", "reg-a"⟩
  published := false
  finalized := false

/-- Two registrations, and a child's mint for the first that ends when it is to be published. -/
def interruptedMint : List Action :=
  [.register "reg-a" (anonymousRow "reg-a" "token-a" ["atproto"]),
    .register "reg-b" (anonymousRow "reg-b" "token-b" ["atproto"]),
    .startClaimAttempt "attempt-a" ⟨"reg-a", "AAAAAA", 600, .pending⟩,
    .startClaimAttempt "attempt-b" ⟨"reg-b", "BBBBBB", 600, .pending⟩,
    .readAttempt "did:plc:alice" "AAAAAA" "attempt-a" (some sampleChild),
    .readIdentity "did:plc:alice" (some sampleChild) "attempt-a" "reg-a",
    .resume (sampleMint "reg-a" "attempt-a"), .prepareChild (sampleMint "reg-a" "attempt-a"),
    .abandon (.publishing (sampleMint "reg-a" "attempt-a") sampleProvisioning)]

/-- The same child, confirmed with the user code of a registration. -/
def resumedMint (registrationId attemptId userCode : String) : List Action :=
  [.readAttempt "did:plc:alice" userCode attemptId (some sampleChild),
    .readIdentity "did:plc:alice" (some sampleChild) attemptId registrationId,
    .resume (sampleMint registrationId attemptId),
    .loadPreparedChild (sampleMint registrationId attemptId) .prepared,
    .publishChildGenesis (sampleMint registrationId attemptId) sampleProvisioning,
    .finalizeChild (sampleMint registrationId attemptId) sampleProvisioning]

theorem claims_integrity_resumed :
    ∃ s t, run Machine.step (start 0 ["atproto"]) (interruptedMint ++ [.revoke "reg-b"]) = some s ∧
      run Machine.step s (resumedMint "reg-a" "attempt-a" "AAAAAA") = some t ∧
      Event.reported "reg-a" "did:plc:alice" ∈ t.log ∧ t.Integrity ∧
      ∀ id row, s.identities.get? id = some row → row.status = .revoked →
        ∃ row', t.identities.get? id = some row' ∧ row'.status = .revoked := by
  have hLog : (run Machine.step (start 0 ["atproto"]) ((interruptedMint ++ [.revoke "reg-b"]) ++
      resumedMint "reg-a" "attempt-a" "AAAAAA")).map State.log = some
        [.reported "reg-a" "did:plc:alice", .claimed "reg-a" "attempt-a"
          ⟨"reg-a", "AAAAAA", 600, .pending⟩ 0 "did:plc:alice"] := by
    decide +kernel
  have hOwn : Along Machine.step ResumesOwn (start 0 ["atproto"])
      ((interruptedMint ++ [.revoke "reg-b"]) ++ resumedMint "reg-a" "attempt-a" "AAAAAA") := by
    decide +kernel
  obtain ⟨t, hRun, hEnd⟩ := Option.map_eq_some_iff.mp hLog
  obtain ⟨s, hBefore, hAfter⟩ := run_append_some.mp hRun
  exact ⟨s, t, hBefore, hAfter, hEnd ▸ List.mem_cons_self, claims_integrity hBefore hAfter hOwn⟩

/-- The mint for the first registration is resumed with the user code of the second: its attempt
is used up and success reported, but it is the first registration that is claimed. -/
theorem crossed_claim :
    ∃ t, run Machine.step (start 0 ["atproto"])
        (interruptedMint ++ resumedMint "reg-b" "attempt-b" "BBBBBB") = some t ∧
      Event.reported "reg-b" "did:plc:alice" ∈ t.log ∧
      (t.identities.get? "reg-a").map AgentIdentityRow.status = some .claimed ∧
      (t.identities.get? "reg-b").map AgentIdentityRow.status = some .active ∧
      ¬ t.Integrity := by
  have hEnd : (run Machine.step (start 0 ["atproto"])
      (interruptedMint ++ resumedMint "reg-b" "attempt-b" "BBBBBB")).map (fun t =>
        (t.log, (t.identities.get? "reg-a").map AgentIdentityRow.status,
          (t.identities.get? "reg-b").map AgentIdentityRow.status)) = some
      ([.reported "reg-b" "did:plc:alice", .claimed "reg-a" "attempt-b"
        ⟨"reg-b", "BBBBBB", 600, .pending⟩ 0 "did:plc:alice"], some .claimed, some .active) := by
    decide +kernel
  obtain ⟨t, hRun, hEq⟩ := Option.map_eq_some_iff.mp hEnd
  obtain ⟨hLog, hA, hB⟩ := Prod.mk.inj hEq |>.imp_right Prod.mk.inj
  refine ⟨t, hRun, hLog ▸ List.mem_cons_self, hA, hB, fun hIntegrity => ?_⟩
  have hOwn := (hIntegrity.completes "reg-a" "attempt-b" _ 0 "did:plc:alice"
    (hLog ▸ List.mem_cons_of_mem _ List.mem_cons_self)).own
  exact absurd hOwn (by decide)

end Ezpds.Agents
