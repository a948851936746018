import Ezpds.Library.SortedMap
import Ezpds.Library.SortedSet
import Mathlib.Data.String.Basic

/-!
# Agent registrations and their claim attempts

The rows of `agent_identities`, `agent_claim_attempts` and `agent_child_provisionings`, each
table a map from its primary key, and the statements that write them. A statement that carries
a guard answers `none` where it changes no row. A signed assertion is what it claims; the
stored list of scopes is the list, not its JSON text.

* `AgentIdentityRow.Evolves`: what no statement does to a registration, whichever it is.
* `intersectScopeTokens_eq_self`: when clamping a list of scopes leaves it as it is.
-/

namespace Ezpds.Agents

open Library

inductive RegistrationType where
  | identityAssertion
  | serviceAuth
  | anonymous
  | child
  deriving DecidableEq, Repr

inductive AgentIdentityStatus where
  | active
  | claimed
  | revoked
  deriving DecidableEq, Repr

inductive ClaimAttemptStatus where
  | pending
  | completed
  | expired
  deriving DecidableEq, Repr

/-- The claims of an `identity_assertion` that its exchange reads. -/
structure Assertion where
  sub : String
  scope : String
  registrationId : String
  deriving DecidableEq, Repr

structure AgentIdentityRow where
  did : Option String
  parentDid : Option String
  registrationType : RegistrationType
  scopes : List String
  identityAssertion : Option Assertion
  claimToken : Option String
  status : AgentIdentityStatus
  deriving DecidableEq, Repr

structure AgentClaimAttemptRow where
  identityId : String
  userCode : String
  userCodeExpiresAt : Nat
  status : ClaimAttemptStatus
  deriving DecidableEq, Repr

/-- Pending and unexpired. -/
def AgentClaimAttemptRow.isPending (now : Nat) (attempt : AgentClaimAttemptRow) : Bool :=
  attempt.status = .pending && decide (now < attempt.userCodeExpiresAt)

/-- The journal of a child's mint: `published` and `finalized` say that the timestamps are set. -/
structure Provisioning where
  parentDid : String
  handle : String
  registrationId : String
  scopes : List String
  identityAssertion : Assertion
  published : Bool
  finalized : Bool
  deriving DecidableEq, Repr

abbrev IdentityTable : Type := SortedMap String AgentIdentityRow

abbrev AttemptTable : Type := SortedMap String AgentClaimAttemptRow

abbrev ProvisioningTable : Type := SortedMap String Provisioning

/-! ## Scopes -/

/-- The tokens of `a` that are also in `b`, sorted and without repetitions. -/
def intersectScopeTokens (a b : List String) : List String :=
  sortedSet (a.filter fun token => decide (token ∈ b))

def joinScopes (scopes : List String) : String :=
  " ".intercalate scopes

/-- `mint_identity_assertion`. -/
def mintAssertion (subject registrationId : String) (scopes : List String) : Assertion where
  sub := subject
  scope := joinScopes scopes
  registrationId := registrationId

/-- The row of an anonymous registration: it has no owner, and its assertion speaks for itself. -/
def anonymousRow (id claimToken : String) (preClaimScopes : List String) : AgentIdentityRow where
  did := none
  parentDid := none
  registrationType := .anonymous
  scopes := preClaimScopes
  identityAssertion := some (mintAssertion id id preClaimScopes)
  claimToken := some claimToken
  status := .active

/-- Clamping leaves a list as it is when the list is sorted and still granted, and only then. -/
theorem intersectScopeTokens_eq_self {a b : List String} :
    intersectScopeTokens a b = a ↔ a.Pairwise (· < ·) ∧ ∀ token ∈ a, token ∈ b := by
  constructor
  · intro h
    rw [intersectScopeTokens] at h
    constructor
    · rw [← h]
      exact sortedSet_increasing
    · intro token hToken
      rw [← h, mem_sortedSet, List.mem_filter, decide_eq_true_eq] at hToken
      exact hToken.2
  · rintro ⟨hSorted, hGranted⟩
    rw [intersectScopeTokens, List.filter_eq_self.mpr fun token hToken =>
      decide_eq_true (hGranted token hToken)]
    exact sortedSet_eq_self hSorted

/-! ## Statements -/

def insertAgentIdentity (id : String) (row : AgentIdentityRow) (identities : IdentityTable) :
    Option IdentityTable :=
  match identities.get? id with
  | none => some (identities.set id (some row))
  | some _ => none

def revokeAgentIdentity (id : String) (identities : IdentityTable) : IdentityTable :=
  identities.set id ((identities.get? id).map fun row => { row with status := .revoked })

def setAgentIdentityAssertion (id : String) (assertion : Assertion)
    (identities : IdentityTable) : IdentityTable :=
  identities.set id
    ((identities.get? id).map fun row => { row with identityAssertion := some assertion })

/-- `bindDid` is the owner that an ownerless registration gets. -/
def claimAgentIdentity (id : String) (bindDid : Option String) (scopes : List String)
    (assertion : Assertion) (identities : IdentityTable) : Option IdentityTable :=
  match identities.get? id with
  | none => none
  | some row =>
    if row.status = .active ∧ (bindDid = none ∨ row.did = none) then
      some (identities.set id (some { row with
        status := .claimed
        did := bindDid.or row.did
        scopes := scopes
        identityAssertion := some assertion }))
    else none

def convertIdentityToChild (id childDid parentDid : String) (scopes : List String)
    (assertion : Assertion) (identities : IdentityTable) : Option IdentityTable :=
  match identities.get? id with
  | none => none
  | some row =>
    if row.status = .active ∧ row.did = none ∧ row.registrationType = .anonymous then
      some (identities.set id (some { row with
        status := .claimed
        registrationType := .child
        did := some childDid
        parentDid := some parentDid
        scopes := scopes
        identityAssertion := some assertion }))
    else none

def completeAgentClaimAttempt (now : Nat) (id : String) (attempts : AttemptTable) :
    Option AttemptTable :=
  match attempts.get? id with
  | none => none
  | some attempt =>
    if attempt.isPending now then
      some (attempts.set id (some { attempt with status := .completed }))
    else none

/-- The sweep over attempts that have lapsed. -/
def expirePendingAttempts (now : Nat) (attempts : AttemptTable) : AttemptTable :=
  attempts.mapValues fun attempt =>
    if attempt.status = .pending ∧ attempt.userCodeExpiresAt ≤ now then
      { attempt with status := .expired }
    else attempt

/-! ## What no statement does -/

/-- A registration keeps its claim token; once it is no longer active it keeps its owner and its
scopes and does not become active again; and a revoked one stays revoked. -/
structure AgentIdentityRow.Evolves (row later : AgentIdentityRow) : Prop where
  claimToken : later.claimToken = row.claimToken
  settled : row.status ≠ .active → later.status ≠ .active ∧ later.did = row.did ∧
    later.parentDid = row.parentDid ∧ later.scopes = row.scopes
  unclaimed : later.status = .active → later.did = row.did
  revoked : row.status = .revoked → later.status = .revoked

namespace AgentIdentityRow.Evolves

variable {row later last : AgentIdentityRow}

theorem refl (row : AgentIdentityRow) : row.Evolves row where
  claimToken := rfl
  settled h := ⟨h, rfl, rfl, rfl⟩
  unclaimed _ := rfl
  revoked h := h

theorem active (h : row.Evolves later) (hActive : later.status = .active) :
    row.status = .active := by
  by_contra hSettled
  exact (h.settled hSettled).1 hActive

theorem trans (h : row.Evolves later) (h' : later.Evolves last) : row.Evolves last where
  claimToken := h'.claimToken.trans h.claimToken
  settled hSettled := by
    obtain ⟨hLater, hDid, hParent, hScopes⟩ := h.settled hSettled
    obtain ⟨hLast, hDid', hParent', hScopes'⟩ := h'.settled hLater
    exact ⟨hLast, hDid'.trans hDid, hParent'.trans hParent, hScopes'.trans hScopes⟩
  unclaimed hActive := (h'.unclaimed hActive).trans (h.unclaimed (h'.active hActive))
  revoked hRevoked := h'.revoked (h.revoked hRevoked)

end AgentIdentityRow.Evolves

/-- Every registration is still there, and has evolved. -/
def Kept (identities later : IdentityTable) : Prop :=
  ∀ id row, identities.get? id = some row → ∃ row', later.get? id = some row' ∧ row.Evolves row'

variable {identities later : IdentityTable} {id : String} {row : AgentIdentityRow}

theorem Kept.refl (identities : IdentityTable) : Kept identities identities :=
  fun _ row h => ⟨row, h, .refl row⟩

/-- A statement on one registration. -/
theorem kept_set {new : AgentIdentityRow}
    (hNew : ∀ row, identities.get? id = some row → row.Evolves new) :
    Kept identities (identities.set id (some new)) := by
  intro other row hRow
  rw [SortedMap.get?_set]
  split
  · rename_i hEq
    subst hEq
    exact ⟨new, rfl, hNew row hRow⟩
  · exact ⟨row, hRow, .refl row⟩

theorem kept_map {change : AgentIdentityRow → AgentIdentityRow}
    (hChange : ∀ row : AgentIdentityRow, row.Evolves (change row)) :
    Kept identities (identities.set id ((identities.get? id).map change)) := by
  intro other row hRow
  rw [SortedMap.get?_set]
  split
  · rename_i hEq
    subst hEq
    exact ⟨change row, by rw [hRow, Option.map_some], hChange row⟩
  · exact ⟨row, hRow, .refl row⟩

theorem kept_revoke : Kept identities (revokeAgentIdentity id identities) := by
  apply kept_map
  intro row
  exact ⟨rfl, fun _ => ⟨nofun, rfl, rfl, rfl⟩, nofun, fun _ => rfl⟩

theorem kept_setAssertion {assertion : Assertion} :
    Kept identities (setAgentIdentityAssertion id assertion identities) := by
  apply kept_map
  intro row
  exact ⟨rfl, fun hSettled => ⟨hSettled, rfl, rfl, rfl⟩, fun _ => rfl, fun h => h⟩

theorem kept_insert (h : insertAgentIdentity id row identities = some later) :
    Kept identities later := by
  rw [insertAgentIdentity] at h
  split at h
  · rename_i hNone
    cases h
    apply kept_set
    intro old hOld
    rw [hNone] at hOld
    cases hOld
  · cases h

/-- A row that was active may become anything with the same claim token. -/
theorem evolves_of_active {new : AgentIdentityRow} (hActive : row.status = .active)
    (hToken : new.claimToken = row.claimToken) (hNew : new.status ≠ .active) :
    row.Evolves new where
  claimToken := hToken
  settled h := absurd hActive h
  unclaimed h := absurd h hNew
  revoked h := absurd (hActive.symm.trans h) nofun

theorem claimAgentIdentity_some {bindDid : Option String} {scopes : List String}
    {assertion : Assertion}
    (h : claimAgentIdentity id bindDid scopes assertion identities = some later) :
    ∃ row, identities.get? id = some row ∧ row.status = .active ∧
      (bindDid = none ∨ row.did = none) ∧
      later = identities.set id (some { row with
        status := .claimed
        did := bindDid.or row.did
        scopes := scopes
        identityAssertion := some assertion }) := by
  rw [claimAgentIdentity] at h
  split at h
  · cases h
  · rename_i row hRow
    obtain ⟨⟨hActive, hFree⟩, hEq⟩ := Option.ite_none_right_eq_some.mp h
    exact ⟨row, hRow, hActive, hFree, (Option.some.inj hEq).symm⟩

theorem convertIdentityToChild_some {childDid parentDid : String} {scopes : List String}
    {assertion : Assertion}
    (h : convertIdentityToChild id childDid parentDid scopes assertion identities = some later) :
    ∃ row, identities.get? id = some row ∧ row.status = .active ∧
      later = identities.set id (some { row with
        status := .claimed
        registrationType := .child
        did := some childDid
        parentDid := some parentDid
        scopes := scopes
        identityAssertion := some assertion }) := by
  rw [convertIdentityToChild] at h
  split at h
  · cases h
  · rename_i row hRow
    obtain ⟨⟨hActive, _⟩, hEq⟩ := Option.ite_none_right_eq_some.mp h
    exact ⟨row, hRow, hActive, (Option.some.inj hEq).symm⟩

theorem completeAgentClaimAttempt_some {now : Nat} {attempts later : AttemptTable}
    (h : completeAgentClaimAttempt now id attempts = some later) :
    ∃ attempt, attempts.get? id = some attempt ∧ attempt.isPending now = true ∧
      later = attempts.set id (some { attempt with status := .completed }) := by
  rw [completeAgentClaimAttempt] at h
  split at h
  · cases h
  · rename_i attempt hAttempt
    obtain ⟨hPending, hEq⟩ := Option.ite_none_right_eq_some.mp h
    exact ⟨attempt, hAttempt, hPending, (Option.some.inj hEq).symm⟩

end Ezpds.Agents
