import Ezpds.Library.SortedMap
import Ezpds.Spaces.Store

/-!
# The lifecycle columns of an account

The four columns of `accounts` that say whether an account is served and when it is to be
deleted, and the statements that write them. A timestamp is `some` second of the clock; the
text in `delete_after` is kept as it came, and `datetime` is the function of that name of the
database, which reads a text as an instant or fails.

* `get?_deactivateAccount`, `get?_activateAccount`, `get?_setAccountTakedown`: the rows after
  each statement.
* `get?_deactivateChildren`, `mem_deactivateChildren`: the rows after the cascade of a purge,
  and the children that it reports as changed.
-/

namespace Ezpds.Spaces.AccountLifecycle

def fromTimestamps (deactivatedAt suspendedAt takenDownAt : Option Nat) : AccountLifecycle :=
  if takenDownAt.isSome then takenDown
  else if suspendedAt.isSome then suspended
  else if deactivatedAt.isSome then deactivated
  else active

def isActive : AccountLifecycle → Bool
  | active => true
  | _ => false

/-- The `status` of the lexicon; a live repository has none. -/
def asStatusStr : AccountLifecycle → Option String
  | active => none
  | deactivated => some "deactivated"
  | suspended => some "suspended"
  | takenDown => some "takendown"

end Ezpds.Spaces.AccountLifecycle

namespace Ezpds.Accounts

open Library
open Spaces (AccountLifecycle)

structure AccountRow where
  deactivatedAt : Option Nat
  suspendedAt : Option Nat
  takenDownAt : Option Nat
  deleteAfter : Option String
  deriving DecidableEq, Repr

abbrev AccountTable : Type := SortedMap String AccountRow

namespace AccountRow

def lifecycle (row : AccountRow) : AccountLifecycle :=
  .fromTimestamps row.deactivatedAt row.suspendedAt row.takenDownAt

/-- Suspended or taken down: no statement of the owner lifts it. -/
def restricted (row : AccountRow) : Bool :=
  row.suspendedAt.isSome || row.takenDownAt.isSome

/-- Both updates of `deactivate_account`: the first instant of the deactivation stays. -/
def deactivate (now : Nat) (deleteAfter : Option String) (row : AccountRow) : AccountRow :=
  { row with deactivatedAt := row.deactivatedAt.or (some now), deleteAfter := deleteAfter }

def activate (row : AccountRow) : AccountRow :=
  match row.deactivatedAt with
  | none => row
  | some _ => { row with deactivatedAt := none, deleteAfter := none }

def takeDown (now : Nat) (applied : Bool) (row : AccountRow) : AccountRow :=
  { row with takenDownAt := if applied then row.takenDownAt.or (some now) else none }

variable {row : AccountRow} {now later : Nat} {deleteAfter : Option String}

theorem lifecycle_of_restricted (h : row.restricted = true) (deactivatedAt : Option Nat)
    (deleteAfter : Option String) :
    lifecycle { row with deactivatedAt := deactivatedAt, deleteAfter := deleteAfter } =
      row.lifecycle := by
  rw [restricted, Bool.or_eq_true] at h
  simp only [lifecycle, AccountLifecycle.fromTimestamps]
  rcases h with hSuspended | hTaken
  · rw [if_pos hSuspended, if_pos hSuspended]
  · rw [if_pos hTaken, if_pos hTaken]

theorem lifecycle_of_unrestricted (h : row.restricted = false) :
    row.lifecycle = if row.deactivatedAt.isSome then .deactivated else .active := by
  rw [restricted, Bool.or_eq_false_iff] at h
  simp [lifecycle, AccountLifecycle.fromTimestamps, h.1, h.2]

@[simp] theorem deactivate_deactivatedAt :
    (row.deactivate now deleteAfter).deactivatedAt.isSome = true := by
  simp [deactivate]

@[simp] theorem deactivate_deleteAfter :
    (row.deactivate now deleteAfter).deleteAfter = deleteAfter := rfl

@[simp] theorem deactivate_restricted :
    (row.deactivate now deleteAfter).restricted = row.restricted := rfl

theorem deactivate_deactivate :
    (row.deactivate now deleteAfter).deactivate now deleteAfter =
      row.deactivate now deleteAfter := by
  cases row with
  | mk deactivatedAt suspendedAt takenDownAt other =>
    cases deactivatedAt with
    | none => rfl
    | some since => rfl

end AccountRow

/-! ## Statements -/

inductive AccountStateChange where
  | notFound
  | unchanged
  | changed
  deriving DecidableEq, Repr

inductive TakedownStateChange where
  | notFound
  | unchanged (lifecycle : AccountLifecycle)
  | changed (lifecycle : AccountLifecycle)
  deriving DecidableEq, Repr

def deactivateAccount (now : Nat) (did : String) (deleteAfter : Option String)
    (accounts : AccountTable) : AccountStateChange × AccountTable :=
  match accounts.get? did with
  | none => (.notFound, accounts)
  | some row =>
    if row.deactivatedAt = none then
      (.changed, accounts.set did
        (some { row with deactivatedAt := some now, deleteAfter := deleteAfter }))
    else (.unchanged, accounts.set did (some { row with deleteAfter := deleteAfter }))

def activateAccount (did : String) (accounts : AccountTable) :
    AccountStateChange × AccountTable :=
  match accounts.get? did with
  | none => (.notFound, accounts)
  | some row =>
    if row.deactivatedAt ≠ none then
      (.changed, accounts.set did
        (some { row with deactivatedAt := none, deleteAfter := none }))
    else (.unchanged, accounts)

/-- Reports the lifecycle that the row has afterwards, whether or not the call changed it. -/
def setAccountTakedown (now : Nat) (did : String) (applied : Bool) (accounts : AccountTable) :
    TakedownStateChange × AccountTable :=
  match accounts.get? did with
  | none => (.notFound, accounts)
  | some row =>
    if applied = row.takenDownAt.isSome then (.unchanged row.lifecycle, accounts)
    else
      let row := { row with takenDownAt := if applied then some now else none }
      (.changed row.lifecycle, accounts.set did (some row))

/-- `finalize_child` clears this one column, on whatever row is there. -/
def clearDeactivated (did : String) (accounts : AccountTable) : AccountTable :=
  accounts.set did ((accounts.get? did).map fun row => { row with deactivatedAt := none })

/-- `datetime(delete_after) <= datetime('now')`; a text that is no instant is never due. -/
def elapsed (datetime : String → Option Nat) (now : Nat) (text : String) : Bool :=
  (datetime text).any fun instant => instant ≤ now

def AccountRow.due (datetime : String → Option Nat) (now : Nat) (row : AccountRow) : Bool :=
  row.deleteAfter.any (elapsed datetime now)

def accountsDueForDeletion (datetime : String → Option Nat) (now : Nat)
    (accounts : AccountTable) : List String :=
  (accounts.entries.filter fun entry => entry.2.due datetime now).map Prod.fst

/-- The loop of a purge over the children: which of them were active, and the rows after it. -/
def deactivateChildren (now : Nat) (deleteAfter : String) :
    List String → AccountTable → List String × AccountTable
  | [], accounts => ([], accounts)
  | child :: children, accounts =>
    let scheduled := deactivateAccount now child (some deleteAfter) accounts
    let rest := deactivateChildren now deleteAfter children scheduled.2
    (if scheduled.1 = .changed then child :: rest.1 else rest.1, rest.2)

/-! ## Rows after a statement -/

variable {now later : Nat} {did other : String} {deleteAfter : Option String} {applied : Bool}
  {accounts : AccountTable} {row : AccountRow}

theorem get?_deactivateAccount :
    (deactivateAccount now did deleteAfter accounts).2.get? other =
      if did = other then (accounts.get? other).map (AccountRow.deactivate now deleteAfter)
      else accounts.get? other := by
  rw [deactivateAccount]
  split
  · rename_i hNone
    split
    · rename_i hEq
      rw [← hEq, hNone, Option.map_none]
    · rfl
  · rename_i row hRow
    by_cases hEq : did = other
    · subst hEq
      split
      · rename_i hActive
        simp [hRow, AccountRow.deactivate, hActive]
      · rename_i hInactive
        obtain ⟨since, hSince⟩ := Option.ne_none_iff_exists'.mp hInactive
        simp [hRow, AccountRow.deactivate, hSince]
    · split <;> simp [hEq]

theorem deactivateAccount_changed :
    (deactivateAccount now did deleteAfter accounts).1 = .changed ↔
      ∃ row, accounts.get? did = some row ∧ row.deactivatedAt = none := by
  rw [deactivateAccount]
  split
  · rename_i hNone
    simp [hNone]
  · rename_i row hRow
    split
    · rename_i hActive
      simp [hRow, hActive]
    · rename_i hInactive
      simp [hRow, hInactive]

theorem get?_activateAccount :
    (activateAccount did accounts).2.get? other =
      if did = other then (accounts.get? other).map AccountRow.activate
      else accounts.get? other := by
  rw [activateAccount]
  split
  · rename_i hNone
    split
    · rename_i hEq
      rw [← hEq, hNone, Option.map_none]
    · rfl
  · rename_i row hRow
    by_cases hEq : did = other
    · subst hEq
      split
      · rename_i hInactive
        obtain ⟨since, hSince⟩ := Option.ne_none_iff_exists'.mp hInactive
        simp [hRow, AccountRow.activate, hSince]
      · rename_i hActive
        simp [hRow, AccountRow.activate, not_not.mp hActive]
    · split <;> simp [hEq]

theorem activateAccount_changed :
    (activateAccount did accounts).1 = .changed ↔
      ∃ row, accounts.get? did = some row ∧ row.deactivatedAt ≠ none := by
  rw [activateAccount]
  split
  · rename_i hNone
    simp [hNone]
  · rename_i row hRow
    split
    · rename_i hInactive
      simp [hRow, hInactive]
    · rename_i hActive
      simp [hRow, not_not.mp hActive]

theorem get?_setAccountTakedown :
    (setAccountTakedown now did applied accounts).2.get? other =
      if did = other then (accounts.get? other).map (AccountRow.takeDown now applied)
      else accounts.get? other := by
  rw [setAccountTakedown]
  split
  · rename_i hNone
    split
    · rename_i hEq
      rw [← hEq, hNone, Option.map_none]
    · rfl
  · rename_i row hRow
    by_cases hEq : did = other
    · subst hEq
      rw [if_pos rfl, hRow, Option.map_some]
      cases applied <;> cases hTaken : row.takenDownAt <;>
        simp [hTaken, hRow, AccountRow.takeDown]
      · rw [← hTaken]
      · rw [← hTaken]
    · split <;> simp [hEq]

theorem setAccountTakedown_unchanged {lifecycle : AccountLifecycle}
    (h : (setAccountTakedown now did applied accounts).1 = .unchanged lifecycle) :
    (setAccountTakedown now did applied accounts).2 = accounts := by
  rw [setAccountTakedown] at h ⊢
  split at h <;> rename_i hRow
  · cases h
  · dsimp only at h ⊢
    split at h
    · rename_i hSame
      rw [if_pos hSame]
    · cases h

theorem setAccountTakedown_changed {lifecycle : AccountLifecycle}
    (h : (setAccountTakedown now did applied accounts).1 = .changed lifecycle) :
    ∃ row, (setAccountTakedown now did applied accounts).2.get? did = some row ∧
      row.lifecycle = lifecycle := by
  rw [setAccountTakedown] at h ⊢
  split at h <;> rename_i hRow
  · cases h
  · dsimp only at h ⊢
    split at h
    · cases h
    · rename_i hDiffers
      rw [if_neg hDiffers]
      cases h
      exact ⟨_, by rw [SortedMap.get?_set, if_pos rfl], rfl⟩

theorem get?_clearDeactivated :
    (clearDeactivated did accounts).get? other =
      if did = other then
        (accounts.get? other).map fun row => { row with deactivatedAt := none }
      else accounts.get? other := by
  rw [clearDeactivated, SortedMap.get?_set]
  split
  · rename_i hEq
    rw [hEq]
  · rfl

theorem get?_deactivateChildren {text : String} {children : List String} :
    (deactivateChildren now text children accounts).2.get? other =
      if other ∈ children then
        (accounts.get? other).map (AccountRow.deactivate now (some text))
      else accounts.get? other := by
  induction children generalizing accounts with
  | nil => simp [deactivateChildren]
  | cons child children ih =>
    rw [deactivateChildren]
    dsimp only
    rw [ih, get?_deactivateAccount]
    by_cases hChild : child = other
    · subst hChild
      rw [if_pos rfl, if_pos List.mem_cons_self]
      split
      · rw [Option.map_map]
        congr 1
        funext row
        exact AccountRow.deactivate_deactivate
      · rfl
    · rw [if_neg hChild]
      simp [Ne.symm hChild]

theorem mem_deactivateChildren {text : String} {children : List String} :
    other ∈ (deactivateChildren now text children accounts).1 ↔
      other ∈ children ∧ ∃ row, accounts.get? other = some row ∧ row.deactivatedAt = none := by
  induction children generalizing accounts with
  | nil => simp [deactivateChildren]
  | cons child children ih =>
    rw [deactivateChildren]
    dsimp only
    have hRest := @ih (deactivateAccount now child (some text) accounts).2
    rw [get?_deactivateAccount] at hRest
    by_cases hChild : child = other
    · subst hChild
      have hChanged :=
        @deactivateAccount_changed now child (some text) accounts
      -- a child that stands in the list again is no longer active
      have hAgain : child ∉ (deactivateChildren now text children
          (deactivateAccount now child (some text) accounts).2).1 := by
        rw [hRest, if_pos rfl]
        rintro ⟨_, row, hRow, hNone⟩
        obtain ⟨before, _, rfl⟩ := Option.map_eq_some_iff.mp hRow
        have hSome := @AccountRow.deactivate_deactivatedAt before now (some text)
        rw [hNone] at hSome
        cases hSome
      split
      · rename_i hYes
        simp [hChanged.mp hYes]
      · rename_i hNo
        rw [iff_false_left hAgain]
        rintro ⟨_, hActive⟩
        exact hNo (hChanged.mpr hActive)
    · rw [if_neg hChild] at hRest
      have hNe : other ≠ child := Ne.symm hChild
      split
      · rw [List.mem_cons, List.mem_cons, hRest, or_iff_right hNe, or_iff_right hNe]
      · rw [hRest, List.mem_cons, or_iff_right hNe]

theorem mem_accountsDueForDeletion {datetime : String → Option Nat} :
    did ∈ accountsDueForDeletion datetime now accounts ↔
      ∃ row, accounts.get? did = some row ∧ row.due datetime now = true := by
  rw [accountsDueForDeletion, List.mem_map]
  constructor
  · rintro ⟨entry, hMem, rfl⟩
    obtain ⟨hEntry, hDue⟩ := List.mem_filter.mp hMem
    exact ⟨entry.2, assocGet_of_mem accounts.sorted hEntry, hDue⟩
  · rintro ⟨row, hRow, hDue⟩
    exact ⟨(did, row), List.mem_filter.mpr ⟨mem_of_assocGet hRow, hDue⟩, rfl⟩

theorem elapsed_mono {datetime : String → Option Nat} {text : String} (hLe : now ≤ later)
    (h : elapsed datetime now text = true) : elapsed datetime later text = true := by
  obtain ⟨instant, hInstant, hPast⟩ := (Option.any_eq_true _ _).mp h
  rw [decide_eq_true_eq] at hPast
  refine (Option.any_eq_true _ _).mpr ⟨instant, hInstant, ?_⟩
  exact decide_eq_true (hPast.trans hLe)

theorem AccountRow.due_mono {datetime : String → Option Nat} (hLe : now ≤ later)
    (h : row.due datetime now = true) : row.due datetime later = true := by
  obtain ⟨text, hText, hPast⟩ := (Option.any_eq_true _ _).mp h
  exact (Option.any_eq_true _ _).mpr ⟨text, hText, elapsed_mono hLe hPast⟩

end Ezpds.Accounts
