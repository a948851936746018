import Ezpds.Agents.Identities
import Ezpds.Library.Run

/-!
# The claim ceremony of agents

A registration waits for its owner: the agent opens a claim attempt with a user code, and the
account holder who types the code confirms it, either for the own account or by minting the
agent an account of its own. The mint cannot be one transaction, so it keeps a provisioning
row under the DID of the child and is resumed from it.

Every statement or transaction is one step of `Machine.step`; what a request knows between two
of them is its flight. The log tells what the transactions have done, newest first.

* `Machine.step`: registrations, claim attempts, both kinds of confirmation, the parent's own
  mint, revocations, renewals of assertions, and the clock.
* `grows_step`: no step undoes a claim, an attempt's completion or a revocation.
-/

namespace Ezpds.Agents

open Library

/-- How the registration of a minted child comes into being. -/
inductive ChildRegistration where
  | new (registrationId : String)
  | fromClaim (registrationId claimAttemptId : String)
  deriving DecidableEq, Repr

def ChildRegistration.registrationId : ChildRegistration → String
  | .new registrationId => registrationId
  | .fromClaim registrationId _ => registrationId

/-- A call of `mint_child_account`. In a claim the parent is the account that confirms. -/
structure Mint where
  parentDid : String
  handle : String
  childDid : String
  registration : ChildRegistration
  deriving DecidableEq, Repr

/-- The wallet's half of a child confirmation; the DID is the one of its genesis operation. -/
structure ClaimConfirmChild where
  handle : String
  childDid : String
  deriving DecidableEq, Repr

inductive ChildStep where
  | prepared
  | published
  | finalized
  deriving DecidableEq, Repr

/-- The cursor that the journal reads off a provisioning row. -/
def Provisioning.cursor (p : Provisioning) : ChildStep :=
  if p.finalized then .finalized else if p.published then .published else .prepared

inductive Flight where
  | attemptRead (caller : String) (child : Option ClaimConfirmChild)
      (attemptId identityId : String)
  | confirming (caller attemptId identityId : String) (bindDid : Option String)
      (scopes : List String) (assertion : Assertion)
  | minting (mint : Mint)
  | preparing (mint : Mint)
  | loading (mint : Mint) (cursor : ChildStep)
  | publishing (mint : Mint) (prepared : Provisioning)
  | finalizing (mint : Mint) (prepared : Provisioning)
  | renewing (registrationId : String) (assertion : Assertion)
  deriving DecidableEq, Repr

/-- What transactions and responses leave behind: a child registration that the parent's own
mint has inserted, a registration claimed by completing an attempt, and a confirmation that has
reported success for the registration of its user code. -/
inductive Event where
  | minted (registrationId : String)
  | claimed (registrationId attemptId : String) (attempt : AgentClaimAttemptRow)
      (instant : Nat) (owner : String)
  | reported (registrationId owner : String)
  deriving DecidableEq, Repr

structure State where
  now : Nat
  grantedScopes : List String
  identities : IdentityTable
  attempts : AttemptTable
  provisionings : ProvisioningTable
  flights : List Flight
  log : List Event

/-- An empty database. -/
def start (now : Nat) (grantedScopes : List String) : State where
  now := now
  grantedScopes := grantedScopes
  identities := .empty
  attempts := .empty
  provisionings := .empty
  flights := []
  log := []

inductive Action where
  | tick
  | configure (grantedScopes : List String)
  | register (id : String) (row : AgentIdentityRow)
  | startClaimAttempt (id : String) (attempt : AgentClaimAttemptRow)
  | expireAttempts
  | revoke (id : String)
  | readAttempt (caller userCode attemptId : String) (child : Option ClaimConfirmChild)
  | readIdentity (caller : String) (child : Option ClaimConfirmChild)
      (attemptId identityId : String)
  | confirm (caller attemptId identityId : String) (bindDid : Option String)
      (scopes : List String) (assertion : Assertion)
  | mintChild (mint : Mint)
  | resume (mint : Mint)
  | prepareChild (mint : Mint)
  | loadPreparedChild (mint : Mint) (cursor : ChildStep)
  | publishChildGenesis (mint : Mint) (prepared : Provisioning)
  | finalizeChild (mint : Mint) (prepared : Provisioning)
  | readForRenewal (id : String)
  | renew (id : String) (assertion : Assertion)
  | abandon (flight : Flight)

/-! ## Steps -/

namespace State

variable (s : State)

def drop (flight : Flight) : State :=
  { s with flights := s.flights.erase flight }

/-- The request goes on to its next statement. -/
def moveOn (flight next : Flight) : State :=
  { s with flights := next :: s.flights.erase flight }

/-- What `confirm` decides from the registration that it has read. -/
def judge (caller : String) (child : Option ClaimConfirmChild) (attemptId identityId : String)
    (row : AgentIdentityRow) : Option Flight :=
  let scopes := intersectScopeTokens s.grantedScopes s.grantedScopes
  let assertion := mintAssertion caller identityId scopes
  if row.status = .active then
    match row.did, child with
    | some bound, none =>
      if bound = caller then some (.confirming caller attemptId identityId none scopes assertion)
      else none
    -- a child is minted for ownerless registrations only
    | some _, some _ => none
    | none, none => some (.confirming caller attemptId identityId (some caller) scopes assertion)
    | none, some child =>
      if child.childDid = caller then none
      else some (.minting ⟨caller, child.handle, child.childDid,
        .fromClaim identityId attemptId⟩)
  else none

/-- The row that `prepare_child` reserves, with its unique columns. -/
def reserve (mint : Mint) : Option Provisioning :=
  let id := mint.registration.registrationId
  if s.provisionings.get? mint.childDid = none ∧
      ∀ p ∈ s.provisionings.values, p.registrationId ≠ id ∧ p.handle ≠ mint.handle then
    some {
      parentDid := mint.parentDid
      handle := mint.handle
      registrationId := id
      scopes := s.grantedScopes
      identityAssertion := mintAssertion mint.childDid id s.grantedScopes
      published := false
      finalized := false }
  else none

/-- A flag of the journal, set on the provisioning row of a child. -/
def journal (childDid : String) (record : Provisioning → Provisioning) : ProvisioningTable :=
  s.provisionings.set childDid ((s.provisionings.get? childDid).map record)

/-- The transaction of `finalize_child`: none when one of its guards rolls it back. -/
def finalize (mint : Mint) (p : Provisioning) : Option State :=
  let provisionings := s.journal mint.childDid fun row =>
    if row.published then { row with finalized := true } else row
  match mint.registration with
  | .new _ => do
    let identities ← insertAgentIdentity p.registrationId {
      did := some mint.childDid
      parentDid := some p.parentDid
      registrationType := .child
      scopes := p.scopes
      identityAssertion := some p.identityAssertion
      claimToken := none
      status := .claimed } s.identities
    return { s with
      identities := identities
      provisionings := provisionings
      log := .minted p.registrationId :: s.log }
  | .fromClaim registrationId claimAttemptId => do
    let attempt ← s.attempts.get? claimAttemptId
    let attempts ← completeAgentClaimAttempt s.now claimAttemptId s.attempts
    let identities ← convertIdentityToChild p.registrationId mint.childDid p.parentDid p.scopes
      p.identityAssertion s.identities
    -- the registration converted is the one of the provisioning row
    return { s with
      identities := identities
      attempts := attempts
      provisionings := provisionings
      log := .reported registrationId mint.parentDid ::
        .claimed p.registrationId claimAttemptId attempt s.now mint.parentDid :: s.log }

/-- The transaction of a plain confirmation. -/
def confirm (caller attemptId identityId : String) (bindDid : Option String)
    (scopes : List String) (assertion : Assertion) : Option State := do
  let attempt ← s.attempts.get? attemptId
  let attempts ← completeAgentClaimAttempt s.now attemptId s.attempts
  let identities ← claimAgentIdentity identityId bindDid scopes assertion s.identities
  return { s with
    identities := identities
    attempts := attempts
    log := .reported identityId caller ::
      .claimed identityId attemptId attempt s.now caller :: s.log }

end State

namespace Machine

def step (s : State) : Action → Option State
  | .tick => some { s with now := s.now + 1 }
  | .configure grantedScopes => some { s with grantedScopes := grantedScopes }
  | .register id row =>
    -- every flow but the mint of a child stores an active row with a claim token
    if row.status = .active ∧ row.registrationType ≠ .child ∧ row.parentDid = none ∧
        row.claimToken ≠ none then
      (insertAgentIdentity id row s.identities).map fun identities =>
        { s with identities := identities }
    else none
  | .startClaimAttempt id attempt =>
    if s.attempts.get? id = none ∧ attempt.status = .pending ∧
        (∀ other ∈ s.attempts.values, other.userCode ≠ attempt.userCode) ∧
        ((s.identities.get? attempt.identityId).any fun row => row.claimToken.isSome) then
      some { s with attempts := s.attempts.set id (some attempt) }
    else none
  | .expireAttempts => some { s with attempts := expirePendingAttempts s.now s.attempts }
  | .revoke id => some { s with identities := revokeAgentIdentity id s.identities }
  | .readAttempt caller userCode attemptId child =>
    match s.attempts.get? attemptId with
    | none => none
    | some attempt =>
      if attempt.userCode = userCode ∧ attempt.isPending s.now then
        some { s with
          flights := .attemptRead caller child attemptId attempt.identityId :: s.flights }
      else none
  | .readIdentity caller child attemptId identityId =>
    let flight := Flight.attemptRead caller child attemptId identityId
    if flight ∈ s.flights then
      match (s.identities.get? identityId).bind (s.judge caller child attemptId identityId) with
      | none => some (s.drop flight)
      | some next => some (s.moveOn flight next)
    else none
  | .confirm caller attemptId identityId bindDid scopes assertion =>
    let flight := Flight.confirming caller attemptId identityId bindDid scopes assertion
    if flight ∈ s.flights then
      some (((s.drop flight).confirm caller attemptId identityId bindDid scopes assertion).getD
        (s.drop flight))
    else none
  | .mintChild mint =>
    -- `POST /agent/child`, with the id of a registration to be
    match mint.registration with
    | .new _ =>
      if mint.childDid = mint.parentDid then none
      else some { s with flights := .minting mint :: s.flights }
    | .fromClaim .. => none
  | .resume mint =>
    if .minting mint ∈ s.flights then
      match s.provisionings.get? mint.childDid with
      | none => some (s.moveOn (.minting mint) (.preparing mint))
      | some p => some (s.moveOn (.minting mint) (.loading mint p.cursor))
    else none
  | .prepareChild mint =>
    if .preparing mint ∈ s.flights then
      match s.reserve mint with
      | none => some (s.drop (.preparing mint))
      | some p => some { s.moveOn (.preparing mint) (.publishing mint p) with
          provisionings := s.provisionings.set mint.childDid (some p) }
    else none
  | .loadPreparedChild mint cursor =>
    let flight := Flight.loading mint cursor
    if flight ∈ s.flights then
      match s.provisionings.get? mint.childDid with
      | none => some (s.drop flight)
      | some p =>
        if p.parentDid = mint.parentDid ∧ p.handle = mint.handle then
          match cursor with
          | .prepared => some (s.moveOn flight (.publishing mint p))
          | .published => some (s.moveOn flight (.finalizing mint p))
          | .finalized =>
            -- nothing is left to run, and the call succeeds
            match mint.registration with
            | .new _ => some (s.drop flight)
            | .fromClaim registrationId _ => some { s.drop flight with
                log := .reported registrationId mint.parentDid :: s.log }
        else some (s.drop flight)
    else none
  | .publishChildGenesis mint p =>
    if .publishing mint p ∈ s.flights then
      some { s.moveOn (.publishing mint p) (.finalizing mint p) with
        provisionings := s.journal mint.childDid fun row => { row with published := true } }
    else none
  | .finalizeChild mint p =>
    if .finalizing mint p ∈ s.flights then
      some (((s.drop (.finalizing mint p)).finalize mint p).getD (s.drop (.finalizing mint p)))
    else none
  | .readForRenewal id =>
    -- a jwt-bearer exchange, the parent's renewal, or a repeated identity assertion
    match s.identities.get? id with
    | none => none
    | some row =>
      match row.did with
      | none => none
      | some did =>
        if row.status = .claimed then
          some { s with
            flights := .renewing id (mintAssertion did id
              (intersectScopeTokens row.scopes s.grantedScopes)) :: s.flights }
        else none
  | .renew id assertion =>
    if .renewing id assertion ∈ s.flights then
      some { s.drop (.renewing id assertion) with
        identities := setAgentIdentityAssertion id assertion s.identities }
    else none
  | .abandon flight => if flight ∈ s.flights then some (s.drop flight) else none

end Machine

/-- Claiming the registration with `bindDid` leaves it to `caller`, if it can be claimed. -/
def State.BindsOwner (s : State) (identityId : String) (bindDid : Option String)
    (caller : String) : Prop :=
  ∃ row, s.identities.get? identityId = some row ∧
    (row.status = .active → bindDid.or row.did = some caller)

/-! ## What no step undoes -/

/-- Attempts keep their registration, and completed ones stay completed. -/
def AttemptsKept (attempts later : AttemptTable) : Prop :=
  ∀ id attempt, attempts.get? id = some attempt → ∃ attempt', later.get? id = some attempt' ∧
    attempt'.identityId = attempt.identityId ∧
    (attempt.status = .completed → attempt'.status = .completed)

/-- Provisionings keep their parent and their registration, and finalized ones stay so. -/
def ProvisioningsKept (provisionings later : ProvisioningTable) : Prop :=
  ∀ child p, provisionings.get? child = some p → ∃ p', later.get? child = some p' ∧
    p'.parentDid = p.parentDid ∧ p'.registrationId = p.registrationId ∧
    (p.finalized = true → p'.finalized = true)

structure Grows (s t : State) : Prop where
  identities : Kept s.identities t.identities
  attempts : AttemptsKept s.attempts t.attempts
  provisionings : ProvisioningsKept s.provisionings t.provisionings
  log : s.log ⊆ t.log

theorem AttemptsKept.refl (attempts : AttemptTable) : AttemptsKept attempts attempts :=
  fun _ attempt h => ⟨attempt, h, rfl, fun hDone => hDone⟩

theorem ProvisioningsKept.refl (provisionings : ProvisioningTable) :
    ProvisioningsKept provisionings provisionings :=
  fun _ p h => ⟨p, h, rfl, rfl, fun hDone => hDone⟩

theorem Grows.refl (s : State) : Grows s s :=
  ⟨.refl _, .refl _, .refl _, List.Subset.refl _⟩

theorem Grows.trans {s t u : State} (h : Grows s t) (h' : Grows t u) : Grows s u where
  identities id row hRow := by
    obtain ⟨row', hRow', hEvolves⟩ := h.identities id row hRow
    obtain ⟨row'', hRow'', hEvolves'⟩ := h'.identities id row' hRow'
    exact ⟨row'', hRow'', hEvolves.trans hEvolves'⟩
  attempts id attempt hAttempt := by
    obtain ⟨attempt', hAttempt', hId, hDone⟩ := h.attempts id attempt hAttempt
    obtain ⟨attempt'', hAttempt'', hId', hDone'⟩ := h'.attempts id attempt' hAttempt'
    exact ⟨attempt'', hAttempt'', hId'.trans hId, fun hC => hDone' (hDone hC)⟩
  provisionings child p hp := by
    obtain ⟨p', hp', hParent, hId, hDone⟩ := h.provisionings child p hp
    obtain ⟨p'', hp'', hParent', hId', hDone'⟩ := h'.provisionings child p' hp'
    exact ⟨p'', hp'', hParent'.trans hParent, hId'.trans hId, fun hC => hDone' (hDone hC)⟩
  log _ hEvent := h'.log (h.log hEvent)

theorem Grows.bindsOwner {s t : State} (h : Grows s t) {identityId caller : String}
    {bindDid : Option String} (hOwner : s.BindsOwner identityId bindDid caller) :
    t.BindsOwner identityId bindDid caller := by
  obtain ⟨row, hRow, hBound⟩ := hOwner
  obtain ⟨row', hRow', hEvolves⟩ := h.identities _ _ hRow
  refine ⟨row', hRow', fun hActive => ?_⟩
  rw [hEvolves.unclaimed hActive]
  exact hBound (hEvolves.active hActive)

/-! ## Growth of each part -/

variable {s t : State} {id : String}

theorem attemptsKept_insert {attempts : AttemptTable} {attempt : AgentClaimAttemptRow}
    (hNone : attempts.get? id = none) : AttemptsKept attempts (attempts.set id (some attempt)) := by
  intro other old hOld
  have hNe : id ≠ other := by
    rintro rfl
    rw [hNone] at hOld
    cases hOld
  exact ⟨old, by rw [SortedMap.get?_set, if_neg hNe, hOld], rfl, fun hDone => hDone⟩

theorem attemptsKept_complete {attempts later : AttemptTable} {now : Nat}
    (h : completeAgentClaimAttempt now id attempts = some later) :
    AttemptsKept attempts later := by
  obtain ⟨attempt, hAttempt, _, rfl⟩ := completeAgentClaimAttempt_some h
  intro other old hOld
  rw [SortedMap.get?_set]
  split
  · rename_i hEq
    subst hEq
    rw [hAttempt] at hOld
    cases hOld
    exact ⟨_, rfl, rfl, fun _ => rfl⟩
  · exact ⟨old, hOld, rfl, fun hDone => hDone⟩

theorem attemptsKept_expire {attempts : AttemptTable} {now : Nat} :
    AttemptsKept attempts (expirePendingAttempts now attempts) := by
  intro other old hOld
  refine ⟨_, by rw [expirePendingAttempts, SortedMap.get?_mapValues, hOld, Option.map_some], ?_⟩
  split
  · rename_i hLapsed
    exact ⟨rfl, fun hDone => absurd (hLapsed.1.symm.trans hDone) nofun⟩
  · exact ⟨rfl, fun hDone => hDone⟩

theorem provisioningsKept_journal {child : String} {record : Provisioning → Provisioning}
    (hRecord : ∀ p, (record p).parentDid = p.parentDid ∧
      (record p).registrationId = p.registrationId ∧
      (p.finalized = true → (record p).finalized = true)) :
    ProvisioningsKept s.provisionings (s.journal child record) := by
  intro other p hp
  rw [State.journal, SortedMap.get?_set]
  split
  · rename_i hEq
    subst hEq
    exact ⟨record p, by rw [hp, Option.map_some], hRecord p⟩
  · exact ⟨p, hp, rfl, rfl, fun hDone => hDone⟩

theorem provisioningsKept_finalized {child : String} :
    ProvisioningsKept s.provisionings (s.journal child fun row =>
      if row.published then { row with finalized := true } else row) := by
  apply provisioningsKept_journal
  intro p
  split
  · exact ⟨rfl, rfl, fun _ => rfl⟩
  · exact ⟨rfl, rfl, fun hDone => hDone⟩

/-- What a plain confirmation does when it commits. -/
theorem State.confirm_some {caller attemptId identityId : String} {bindDid : Option String}
    {scopes : List String} {assertion : Assertion}
    (h : s.confirm caller attemptId identityId bindDid scopes assertion = some t) :
    ∃ attempt attempts identities, s.attempts.get? attemptId = some attempt ∧
      completeAgentClaimAttempt s.now attemptId s.attempts = some attempts ∧
      claimAgentIdentity identityId bindDid scopes assertion s.identities = some identities ∧
      t = { s with
        identities := identities
        attempts := attempts
        log := .reported identityId caller ::
          .claimed identityId attemptId attempt s.now caller :: s.log } := by
  obtain ⟨attempt, hAttempt, h⟩ := Option.bind_eq_some_iff.mp h
  obtain ⟨attempts, hAttempts, h⟩ := Option.bind_eq_some_iff.mp h
  obtain ⟨identities, hIdentities, h⟩ := Option.bind_eq_some_iff.mp h
  exact ⟨attempt, attempts, identities, hAttempt, hAttempts, hIdentities,
    (Option.some.inj h).symm⟩

/-- The row that a mint of the parent's own inserts. -/
def childRow (mint : Mint) (p : Provisioning) : AgentIdentityRow where
  did := some mint.childDid
  parentDid := some p.parentDid
  registrationType := .child
  scopes := p.scopes
  identityAssertion := some p.identityAssertion
  claimToken := none
  status := .claimed

theorem State.finalize_new {mint : Mint} {p : Provisioning} {registrationId : String}
    (hNew : mint.registration = .new registrationId) (h : s.finalize mint p = some t) :
    ∃ identities, insertAgentIdentity p.registrationId (childRow mint p) s.identities =
        some identities ∧
      t = { s with
        identities := identities
        provisionings := s.journal mint.childDid fun row =>
          if row.published then { row with finalized := true } else row
        log := .minted p.registrationId :: s.log } := by
  rw [State.finalize, hNew] at h
  obtain ⟨identities, hIdentities, h⟩ := Option.bind_eq_some_iff.mp h
  exact ⟨identities, hIdentities, (Option.some.inj h).symm⟩

theorem State.finalize_fromClaim {mint : Mint} {p : Provisioning}
    {registrationId attemptId : String}
    (hClaim : mint.registration = .fromClaim registrationId attemptId)
    (h : s.finalize mint p = some t) :
    ∃ attempt attempts identities, s.attempts.get? attemptId = some attempt ∧
      completeAgentClaimAttempt s.now attemptId s.attempts = some attempts ∧
      convertIdentityToChild p.registrationId mint.childDid p.parentDid p.scopes
        p.identityAssertion s.identities = some identities ∧
      t = { s with
        identities := identities
        attempts := attempts
        provisionings := s.journal mint.childDid fun row =>
          if row.published then { row with finalized := true } else row
        log := .reported registrationId mint.parentDid ::
          .claimed p.registrationId attemptId attempt s.now mint.parentDid :: s.log } := by
  rw [State.finalize, hClaim] at h
  obtain ⟨attempt, hAttempt, h⟩ := Option.bind_eq_some_iff.mp h
  obtain ⟨attempts, hAttempts, h⟩ := Option.bind_eq_some_iff.mp h
  obtain ⟨identities, hIdentities, h⟩ := Option.bind_eq_some_iff.mp h
  exact ⟨attempt, attempts, identities, hAttempt, hAttempts, hIdentities,
    (Option.some.inj h).symm⟩

theorem kept_claim {bindDid : Option String} {scopes : List String} {assertion : Assertion}
    {identities later : IdentityTable}
    (h : claimAgentIdentity id bindDid scopes assertion identities = some later) :
    Kept identities later := by
  obtain ⟨row, hRow, hActive, _, rfl⟩ := claimAgentIdentity_some h
  apply kept_set
  intro old hOld
  rw [hRow] at hOld
  cases hOld
  exact evolves_of_active hActive rfl nofun

theorem kept_convert {childDid parentDid : String} {scopes : List String}
    {assertion : Assertion} {identities later : IdentityTable}
    (h : convertIdentityToChild id childDid parentDid scopes assertion identities = some later) :
    Kept identities later := by
  obtain ⟨row, hRow, hActive, rfl⟩ := convertIdentityToChild_some h
  apply kept_set
  intro old hOld
  rw [hRow] at hOld
  cases hOld
  exact evolves_of_active hActive rfl nofun

theorem State.grows_confirm {caller attemptId identityId : String} {bindDid : Option String}
    {scopes : List String} {assertion : Assertion}
    (h : s.confirm caller attemptId identityId bindDid scopes assertion = some t) :
    Grows s t := by
  obtain ⟨attempt, attempts, identities, _, hAttempts, hIdentities, rfl⟩ := State.confirm_some h
  exact ⟨kept_claim hIdentities, attemptsKept_complete hAttempts, .refl _, fun _ hEvent =>
    List.mem_cons_of_mem _ (List.mem_cons_of_mem _ hEvent)⟩

theorem State.grows_finalize {mint : Mint} {p : Provisioning} (h : s.finalize mint p = some t) :
    Grows s t := by
  cases hRegistration : mint.registration with
  | new registrationId =>
    obtain ⟨identities, hIdentities, rfl⟩ := State.finalize_new hRegistration h
    exact ⟨kept_insert hIdentities, .refl _, provisioningsKept_finalized, fun _ hEvent =>
      List.mem_cons_of_mem _ hEvent⟩
  | fromClaim registrationId attemptId =>
    obtain ⟨attempt, attempts, identities, _, hAttempts, hIdentities, rfl⟩ :=
      State.finalize_fromClaim hRegistration h
    exact ⟨kept_convert hIdentities, attemptsKept_complete hAttempts,
      provisioningsKept_finalized, fun _ hEvent =>
        List.mem_cons_of_mem _ (List.mem_cons_of_mem _ hEvent)⟩

theorem grows_of_eq (hIdentities : t.identities = s.identities)
    (hAttempts : t.attempts = s.attempts) (hProvisionings : t.provisionings = s.provisionings)
    (hLog : s.log ⊆ t.log) : Grows s t where
  identities := hIdentities ▸ .refl _
  attempts := hAttempts ▸ .refl _
  provisionings := hProvisionings ▸ .refl _
  log := hLog

/-- A step that leaves the tables and the log alone. -/
theorem grows_of_flights (hIdentities : t.identities = s.identities)
    (hAttempts : t.attempts = s.attempts) (hProvisionings : t.provisionings = s.provisionings)
    (hLog : t.log = s.log) : Grows s t :=
  grows_of_eq hIdentities hAttempts hProvisionings (hLog ▸ List.Subset.refl _)

theorem grows_drop {flight : Flight} : Grows s (s.drop flight) :=
  grows_of_flights rfl rfl rfl rfl

theorem State.reserve_some {mint : Mint} {p : Provisioning} (h : s.reserve mint = some p) :
    s.provisionings.get? mint.childDid = none ∧ p.parentDid = mint.parentDid ∧
      p.registrationId = mint.registration.registrationId ∧ p.finalized = false ∧
      p.identityAssertion = mintAssertion mint.childDid p.registrationId p.scopes := by
  obtain ⟨⟨hNone, _⟩, hEq⟩ := Option.ite_none_right_eq_some.mp h
  cases hEq
  exact ⟨hNone, rfl, rfl, rfl, rfl⟩

theorem provisioningsKept_insert {provisionings : ProvisioningTable} {child : String}
    {p : Provisioning} (hNone : provisionings.get? child = none) :
    ProvisioningsKept provisionings (provisionings.set child (some p)) := by
  intro other old hOld
  have hNe : child ≠ other := by
    rintro rfl
    rw [hNone] at hOld
    cases hOld
  exact ⟨old, by rw [SortedMap.get?_set, if_neg hNe, hOld], rfl, rfl, fun hDone => hDone⟩

theorem grows_loadPreparedChild {mint : Mint} {cursor : ChildStep}
    (hStep : Machine.step s (.loadPreparedChild mint cursor) = some t) : Grows s t := by
  obtain ⟨_, hEq⟩ := Option.ite_none_right_eq_some.mp hStep
  split at hEq
  · cases hEq
    exact grows_of_flights rfl rfl rfl rfl
  · split at hEq
    · split at hEq
      · cases hEq
        exact grows_of_flights rfl rfl rfl rfl
      · cases hEq
        exact grows_of_flights rfl rfl rfl rfl
      · split at hEq
        · cases hEq
          exact grows_of_flights rfl rfl rfl rfl
        · cases hEq
          exact grows_of_eq rfl rfl rfl fun _ hEvent => List.mem_cons_of_mem _ hEvent
    · cases hEq
      exact grows_of_flights rfl rfl rfl rfl

/-- No step undoes a claim, the end of an attempt, a finalized mint or a revocation. -/
theorem grows_step (s : State) (a : Action) (t : State) (hStep : Machine.step s a = some t) :
    Grows s t := by
  cases a with
  | tick =>
    cases hStep
    exact grows_of_flights rfl rfl rfl rfl
  | configure grantedScopes =>
    cases hStep
    exact grows_of_flights rfl rfl rfl rfl
  | register id row =>
    obtain ⟨_, hEq⟩ := Option.ite_none_right_eq_some.mp hStep
    obtain ⟨identities, hIdentities, rfl⟩ := Option.map_eq_some_iff.mp hEq
    exact ⟨kept_insert hIdentities, .refl _, .refl _, List.Subset.refl _⟩
  | startClaimAttempt id attempt =>
    obtain ⟨⟨hNone, _⟩, hEq⟩ := Option.ite_none_right_eq_some.mp hStep
    cases hEq
    exact ⟨.refl _, attemptsKept_insert hNone, .refl _, List.Subset.refl _⟩
  | expireAttempts =>
    cases hStep
    exact ⟨.refl _, attemptsKept_expire, .refl _, List.Subset.refl _⟩
  | revoke id =>
    cases hStep
    exact ⟨kept_revoke, .refl _, .refl _, List.Subset.refl _⟩
  | readAttempt caller userCode attemptId child =>
    rw [Machine.step] at hStep
    split at hStep
    · cases hStep
    · obtain ⟨_, hEq⟩ := Option.ite_none_right_eq_some.mp hStep
      cases hEq
      exact grows_of_flights rfl rfl rfl rfl
  | readIdentity caller child attemptId identityId =>
    obtain ⟨_, hEq⟩ := Option.ite_none_right_eq_some.mp hStep
    split at hEq
    · cases hEq
      exact grows_of_flights rfl rfl rfl rfl
    · cases hEq
      exact grows_of_flights rfl rfl rfl rfl
  | confirm caller attemptId identityId bindDid scopes assertion =>
    obtain ⟨_, hEq⟩ := Option.ite_none_right_eq_some.mp hStep
    cases hEq
    cases hConfirm : State.confirm _ caller attemptId identityId bindDid scopes assertion with
    | none => exact grows_of_flights rfl rfl rfl rfl
    | some t => exact grows_drop.trans (State.grows_confirm hConfirm)
  | mintChild mint =>
    rw [Machine.step] at hStep
    split at hStep
    · obtain ⟨_, hEq⟩ := Option.ite_none_left_eq_some.mp hStep
      cases hEq
      exact grows_of_flights rfl rfl rfl rfl
    · cases hStep
  | resume mint =>
    obtain ⟨_, hEq⟩ := Option.ite_none_right_eq_some.mp hStep
    split at hEq
    · cases hEq
      exact grows_of_flights rfl rfl rfl rfl
    · cases hEq
      exact grows_of_flights rfl rfl rfl rfl
  | prepareChild mint =>
    obtain ⟨_, hEq⟩ := Option.ite_none_right_eq_some.mp hStep
    split at hEq
    · cases hEq
      exact grows_of_flights rfl rfl rfl rfl
    · rename_i p hReserve
      cases hEq
      exact ⟨.refl _, .refl _, provisioningsKept_insert (State.reserve_some hReserve).1,
        List.Subset.refl _⟩
  | loadPreparedChild mint cursor => exact grows_loadPreparedChild hStep
  | publishChildGenesis mint p =>
    obtain ⟨_, hEq⟩ := Option.ite_none_right_eq_some.mp hStep
    cases hEq
    refine ⟨.refl _, .refl _, ?_, List.Subset.refl _⟩
    exact provisioningsKept_journal fun _ => ⟨rfl, rfl, fun hDone => hDone⟩
  | finalizeChild mint p =>
    obtain ⟨_, hEq⟩ := Option.ite_none_right_eq_some.mp hStep
    cases hEq
    cases hFinalize : State.finalize _ mint p with
    | none => exact grows_of_flights rfl rfl rfl rfl
    | some t => exact grows_drop.trans (State.grows_finalize hFinalize)
  | readForRenewal id =>
    rw [Machine.step] at hStep
    split at hStep
    · cases hStep
    · split at hStep
      · cases hStep
      · obtain ⟨_, hEq⟩ := Option.ite_none_right_eq_some.mp hStep
        cases hEq
        exact grows_of_flights rfl rfl rfl rfl
  | renew id assertion =>
    obtain ⟨_, hEq⟩ := Option.ite_none_right_eq_some.mp hStep
    cases hEq
    exact ⟨kept_setAssertion, .refl _, .refl _, List.Subset.refl _⟩
  | abandon flight =>
    obtain ⟨_, hEq⟩ := Option.ite_none_right_eq_some.mp hStep
    cases hEq
    exact grows_of_flights rfl rfl rfl rfl

theorem grows_run {as : List Action} (hRun : run Machine.step s as = some t) : Grows s t :=
  run_invariant (fun u a v h hStep => h.trans (grows_step u a v hStep)) (Grows.refl s) hRun

end Ezpds.Agents
