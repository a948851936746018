import Ezpds.Accounts.Lifecycle
import Ezpds.Firehose.Events
import Ezpds.Library.Run
import Mathlib

/-!
# Accounts under their owners, the operator, their parents and the reaper

One transaction is one step. What a request or the reaper knows from before its transaction is
kept beside the tables: the list of a reaper pass, the child deletions whose parent has been
checked, the mints that have loaded their provisioning, and the account events that are emitted
after a commit and not in it.

* `purgeAccount`: the purge that the owner's `deleteAccount` and the reaper share.
* `Machine.step`: the steps, any of which can come next.
-/

namespace Ezpds.Accounts

open Library Firehose

/-- A child account and the parent that recovers it. -/
structure ChildOf where
  child : String
  parent : String
  deriving DecidableEq, Repr

structure State where
  now : Nat
  accounts : AccountTable
  /-- The claimed identities of children, and the provisionings of their mints. -/
  identities : List ChildOf
  provisionings : List ChildOf
  /-- Mints that have loaded their provisioning, and deletions that have found their child. -/
  minting : List ChildOf
  deleting : List ChildOf
  /-- What is left of the list of the running reaper pass. -/
  reaping : List String
  /-- Account events that a committed step emits afterwards. -/
  announcing : List AccountInput
  /-- The stored account events, oldest first. -/
  events : List AccountInput

/-- `childDeleteAfter` is the text of an instant the grace period of children from now. -/
structure Config where
  childDeleteAfter : Nat → String
  datetime : String → Option Nat

inductive Action where
  | tick
  | createAccount (did : String) (deactivated : Bool)
  | deactivateAccount (did : String) (deleteAfter : Option String)
  | activateAccount (did : String)
  | updateSubjectStatus (did : String) (applied : Bool)
  | prepareChild (child : ChildOf)
  | loadPreparedChild (child : ChildOf)
  | finalizeChild (child : ChildOf)
  | findChild (child : ChildOf)
  | deleteChild (child : ChildOf)
  | deleteAccount (did : String)
  | listDue (dids : List String)
  | purgeNext
  | skipNext
  | announce (event : AccountInput)
  | loseAnnouncement (event : AccountInput)

deriving instance DecidableEq for AccountInput

/-! ## Events -/

def activated (did : String) : AccountInput := ⟨did, true, none⟩

def deactivated (did : String) : AccountInput := ⟨did, false, some "deactivated"⟩

def deleted (did : String) : AccountInput := ⟨did, false, some "deleted"⟩

/-- What `update_subject_status` stages. -/
def statusOf (did : String) (lifecycle : Spaces.AccountLifecycle) : AccountInput :=
  ⟨did, lifecycle.isActive, lifecycle.asStatusStr⟩

/-! ## Transactions -/

def newAccount (deactivatedAt : Option Nat) : AccountRow where
  deactivatedAt := deactivatedAt
  suspendedAt := none
  takenDownAt := none
  deleteAfter := none

namespace State

variable (s : State)

def row (did : String) : Option AccountRow := s.accounts.get? did

/-- The children of both tables, a child that is still being provisioned among them. -/
def childrenOf (did : String) : List String :=
  (((s.identities ++ s.provisionings).filter fun c => c.parent = did).map ChildOf.child).dedup

/-- A transition that stages its event. -/
def transition (result : AccountStateChange × AccountTable) (event : AccountInput) : State :=
  match result.1 with
  | .notFound => s
  | .unchanged => { s with accounts := result.2 }
  | .changed => { s with accounts := result.2, events := s.events ++ [event] }

def purgeAccount (cfg : Config) (did : String) : State :=
  match s.row did with
  | none => s
  | some _ =>
    let scheduled := deactivateChildren s.now (cfg.childDeleteAfter s.now) (s.childrenOf did)
      s.accounts
    { s with
      accounts := scheduled.2.set did none
      identities := s.identities.filter fun c => c.child ≠ did ∧ c.parent ≠ did
      provisionings := s.provisionings.filter fun c => c.child ≠ did ∧ c.parent ≠ did
      announcing := s.announcing ++ scheduled.1.map deactivated
      events := s.events ++ [deleted did] }

/-- The commit of a mint: the identity, the cleared column, and an event still to be emitted. -/
def finalize (c : ChildOf) : State :=
  { s with
    accounts := clearDeactivated c.child s.accounts
    identities := c :: s.identities
    minting := s.minting.erase c
    announcing := s.announcing ++ [activated c.child] }

end State

namespace Machine

def step (cfg : Config) (s : State) : Action → Option State
  | .tick => some { s with now := s.now + 1 }
  | .createAccount did isDeactivated =>
    -- a migrating account starts deactivated and is not announced
    if s.row did = none then
      some { s with
        accounts := s.accounts.set did
          (some (newAccount (if isDeactivated then some s.now else none)))
        announcing := if isDeactivated then s.announcing else s.announcing ++ [activated did] }
    else none
  | .deactivateAccount did deleteAfter =>
    some (s.transition (Accounts.deactivateAccount s.now did deleteAfter s.accounts)
      (deactivated did))
  | .activateAccount did =>
    some (s.transition (Accounts.activateAccount did s.accounts) (activated did))
  | .updateSubjectStatus did applied =>
    let result := setAccountTakedown s.now did applied s.accounts
    match result.1 with
    | .notFound => none
    | .unchanged _ => some { s with accounts := result.2 }
    | .changed lifecycle =>
      some { s with accounts := result.2, events := s.events ++ [statusOf did lifecycle] }
  | .prepareChild c =>
    if s.row c.child = none ∧ (s.row c.parent).isSome then
      some { s with
        accounts := s.accounts.set c.child (some (newAccount (some s.now)))
        provisionings := c :: s.provisionings }
    else none
  | .loadPreparedChild c =>
    if c ∈ s.provisionings then some { s with minting := c :: s.minting } else none
  | .finalizeChild c =>
    -- the identity is inserted or converted once, and refers to both accounts
    if c ∈ s.minting ∧ c.child ∉ s.identities.map ChildOf.child ∧ (s.row c.child).isSome ∧
        (s.row c.parent).isSome then
      some (s.finalize c)
    else none
  | .findChild c =>
    if c ∈ s.identities then some { s with deleting := c :: s.deleting } else none
  | .deleteChild c =>
    if c ∈ s.deleting then
      some ({ s with deleting := s.deleting.erase c }.transition
        (Accounts.deactivateAccount s.now c.child (some (cfg.childDeleteAfter s.now)) s.accounts)
        (deactivated c.child))
    else none
  | .deleteAccount did => some (s.purgeAccount cfg did)
  | .listDue dids =>
    -- the query has no order, and the passes of the one scheduler do not overlap
    if s.reaping = [] ∧ dids.Perm (accountsDueForDeletion cfg.datetime s.now s.accounts) then
      some { s with reaping := dids }
    else none
  | .purgeNext =>
    match s.reaping with
    | [] => none
    | did :: rest => some ({ s with reaping := rest }.purgeAccount cfg did)
  | .skipNext =>
    -- a purge that fails, or a restart in the middle of the pass
    match s.reaping with
    | [] => none
    | _ :: rest => some { s with reaping := rest }
  | .announce event =>
    if event ∈ s.announcing then
      some { s with
        announcing := s.announcing.erase event
        events := s.events ++ [event] }
    else none
  | .loseAnnouncement event =>
    if event ∈ s.announcing then some { s with announcing := s.announcing.erase event } else none

end Machine

/-! ## Parts that a step leaves alone -/

namespace State

variable {s : State} {cfg : Config} {did other : String}

@[simp] theorem transition_reaping (result : AccountStateChange × AccountTable)
    (event : AccountInput) : (s.transition result event).reaping = s.reaping := by
  rw [transition]
  split <;> rfl

@[simp] theorem transition_now (result : AccountStateChange × AccountTable)
    (event : AccountInput) : (s.transition result event).now = s.now := by
  rw [transition]
  split <;> rfl

@[simp] theorem purgeAccount_reaping : (s.purgeAccount cfg did).reaping = s.reaping := by
  rw [purgeAccount]
  split <;> rfl

@[simp] theorem purgeAccount_now : (s.purgeAccount cfg did).now = s.now := by
  rw [purgeAccount]
  split <;> rfl

theorem row_transition {result : AccountStateChange × AccountTable} {event : AccountInput}
    (h : result.1 = .notFound → result.2 = s.accounts) :
    (s.transition result event).row other = result.2.get? other := by
  rw [transition, row]
  split
  · rename_i hMissing
    rw [h hMissing]
  · rfl
  · rfl

theorem row_deactivateAccount {deleteAfter : Option String} {event : AccountInput}
    {deleting : List ChildOf} :
    ({ s with deleting := deleting }.transition
        (Accounts.deactivateAccount s.now did deleteAfter s.accounts) event).row other =
      if did = other then (s.row other).map (AccountRow.deactivate s.now deleteAfter)
      else s.row other := by
  rw [row_transition, get?_deactivateAccount]
  · rfl
  · rw [deactivateAccount]
    split
    · exact fun _ => rfl
    · split
      · rintro ⟨⟩
      · rintro ⟨⟩

theorem row_activateAccount {event : AccountInput} :
    (s.transition (Accounts.activateAccount did s.accounts) event).row other =
      if did = other then (s.row other).map AccountRow.activate else s.row other := by
  rw [row_transition, get?_activateAccount]
  · rfl
  · rw [activateAccount]
    split
    · exact fun _ => rfl
    · split
      · rintro ⟨⟩
      · rintro ⟨⟩

/-- The rows after a purge: its account is gone, and its children are deactivated. -/
theorem row_purgeAccount :
    (s.purgeAccount cfg did).row other =
      if s.row did = none then s.row other
      else if did = other then none
      else if other ∈ s.childrenOf did then
        (s.row other).map
          (AccountRow.deactivate s.now (some (cfg.childDeleteAfter s.now)))
      else s.row other := by
  rw [purgeAccount]
  split
  · rename_i hNone
    rw [if_pos hNone]
  · rename_i row hRow
    have hHeld : s.row did ≠ none := by
      rw [hRow]
      exact Option.some_ne_none row
    rw [if_neg hHeld, State.row, SortedMap.get?_set, get?_deactivateChildren]
    rfl

theorem row_finalize {c : ChildOf} :
    (s.finalize c).row other =
      if c.child = other then (s.row other).map fun row => { row with deactivatedAt := none }
      else s.row other := by
  rw [finalize, row, get?_clearDeactivated]
  rfl

end State

end Ezpds.Accounts
