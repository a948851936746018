import Ezpds.Library.OwnedStore
import Ezpds.Library.Run
import Mathlib.Logic.Relation

/-!
# The block store and its users

The `blocks`, `block_owners` and `accounts` tables, the requests that change them, and the
post-commit sweep. Every step is one database statement, or one transaction where the code
opens one: the pool has a single connection, so nothing runs inside a transaction.

A record write holds the lock of its DID from before it reads the root until its sweep has
ended, so there is at most one per DID, and `writers` says how far it has come. Dropping
the request, or an error, ends it wherever it is. `importRepo`, account creation and account
deletion take no such lock; each is one transaction, whose compare-and-swap reads again
whatever the request had read before.

* `State.step`: the machine.
-/

namespace Ezpds.Blocks

open Library

/-! ## State -/

/-- Blocks are content addressed, so what a block links to, and what the walk of
`collect_reachable_cids` finds below a root, are functions of its CID. -/
structure Dag (Cid : Type) where
  links : Cid → List Cid
  reach : Cid → List Cid
  mem_reach : ∀ root c, c ∈ reach root ↔ Relation.ReflTransGen (fun a b => b ∈ links a) root c

/-- The nullable timestamps of an account, by whether they are set. -/
structure Lifecycle where
  deactivated : Bool
  suspended : Bool
  takenDown : Bool
  deriving DecidableEq, Repr

def Lifecycle.isActive (l : Lifecycle) : Bool :=
  !l.deactivated && !l.suspended && !l.takenDown

/-- The only state that `swap_repo_root_for_deactivated` accepts. -/
def Lifecycle.isImportable (l : Lifecycle) : Bool :=
  l.deactivated && !l.suspended && !l.takenDown

structure AccountRow (Cid : Type) where
  root : Option Cid
  lifecycle : Lifecycle

/-- How far the write of a DID has come. -/
inductive WritePhase (Cid : Type) where
  /-- The root it read, and the blocks that the engine wrote: of these, `lost` were
  written before the account was last deleted and went with it. -/
  | staging (expected : Cid) (staged lost : List Cid)
  /-- The new head is persisted, and the sweep has not looked at the head yet. -/
  | committed (head : Cid)
  | checked (head : Cid)
  /-- The owned blocks that were unreachable when the sweep listed them. -/
  | sweeping (garbage : List Cid)
  /-- The ownership rows of `chunk` are deleted, its blocks not yet. -/
  | reclaiming (chunk rest : List Cid)

/-- What becomes of a write whose account is deleted under it. -/
def WritePhase.lose {Cid : Type} : WritePhase Cid → WritePhase Cid
  | .staging expected staged _ => .staging expected staged staged
  | phase => phase

structure State (Did Cid : Type) where
  accounts : Did → Option (AccountRow Cid)
  store : OwnedStore Did Cid
  writers : Did → Option (WritePhase Cid)

inductive Label (Did Cid : Type) where
  | createAccount (did : Did) (row : AccountRow Cid)
  | setLifecycle (did : Did) (lifecycle : Lifecycle)
  | beginWrite (did : Did)
  | writeBlock (did : Did) (cid : Cid)
  | commitWrite (did : Did) (root : Cid) (diffed : Bool)
  | checkHead (did : Did)
  | selectUnreachable (did : Did)
  | deleteOwners (did : Did)
  | deleteBlocks (did : Did)
  | endWrite (did : Did)
  | importRepo (did : Did) (root : Cid)
  | purgeAccount (did : Did)

/-! ## Steps -/

variable {Did Cid : Type} [DecidableEq Did] [DecidableEq Cid]

namespace State

/-- The account row, with the complete genesis repository where it has one. -/
def createAccount (dag : Dag Cid) (s : State Did Cid) (did : Did) (row : AccountRow Cid) :
    Option (State Did Cid) :=
  match s.accounts did with
  | some _ => none
  | none =>
    some { s with
      accounts := Function.update s.accounts did (some row)
      store := s.store.putAll did (row.root.elim [] dag.reach) }

def setLifecycle (s : State Did Cid) (did : Did) (lifecycle : Lifecycle) :
    Option (State Did Cid) :=
  match s.accounts did with
  | none => none
  | some row =>
    some { s with accounts := Function.update s.accounts did (some { row with lifecycle }) }

/-- Take the lock of the DID and read the root of its active account. -/
def beginWrite (s : State Did Cid) (did : Did) : Option (State Did Cid) :=
  match s.writers did, s.accounts did with
  | none, some { root := some root, lifecycle } =>
    if lifecycle.isActive then
      some { s with writers := Function.update s.writers did (some (.staging root [] [])) }
    else none
  | _, _ => none

/-- `put_block`: its ownership row needs the account's row. -/
def writeBlock (s : State Did Cid) (did : Did) (cid : Cid) : Option (State Did Cid) :=
  match s.writers did, s.accounts did with
  | some (.staging expected staged lost), some _ =>
    some { s with
      store := s.store.put did cid
      writers := Function.update s.writers did
        (some (.staging expected (cid :: staged) (lost.filter (· ≠ cid)))) }
  | _, _ => none

/-- `advance_repo_root_if_active`. The engine wrote every block of the new head that the
root it started from does not reach. When the diff could not be computed the write ends
without a sweep. -/
def commitWrite (dag : Dag Cid) (s : State Did Cid) (did : Did) (root : Cid) (diffed : Bool) :
    Option (State Did Cid) :=
  match s.writers did, s.accounts did with
  | some (.staging expected staged _), some row =>
    if row.root = some expected ∧ row.lifecycle.isActive = true ∧
        ∀ c ∈ dag.reach root, c ∈ staged ∨ c ∈ dag.reach expected then
      some { s with
        accounts := Function.update s.accounts did (some { row with root := some root })
        writers := Function.update s.writers did (if diffed then some (.committed root) else none) }
    else none
  | _, _ => none

/-- The first statement of `gc_repo_blocks`: the sweep is skipped when the head has moved. -/
def checkHead (s : State Did Cid) (did : Did) : Option (State Did Cid) :=
  match s.writers did with
  | some (.committed head) =>
    let current := (s.accounts did).bind AccountRow.root
    some { s with
      writers := Function.update s.writers did
        (if current = some head then some (.checked head) else none) }
  | _ => none

/-- The listing of `delete_unreachable_blocks`, less the keep-set. -/
def selectUnreachable (dag : Dag Cid) (s : State Did Cid) (did : Did) :
    Option (State Did Cid) :=
  match s.writers did with
  | some (.checked head) =>
    let garbage := (s.store.ownedBy did).filter (· ∉ dag.reach head)
    some { s with writers := Function.update s.writers did (some (.sweeping garbage)) }
  | _ => none

def sweepChunk : Nat := 500

def deleteOwners (s : State Did Cid) (did : Did) : Option (State Did Cid) :=
  match s.writers did with
  | some (.sweeping (c :: garbage)) =>
    let chunk := (c :: garbage).take sweepChunk
    let rest := (c :: garbage).drop sweepChunk
    some { s with
      store := s.store.release did chunk
      writers := Function.update s.writers did (some (.reclaiming chunk rest)) }
  | _ => none

/-- `delete_unowned_unprotected_blocks`. -/
def deleteBlocks (s : State Did Cid) (did : Did) : Option (State Did Cid) :=
  match s.writers did with
  | some (.reclaiming chunk rest) =>
    some { s with
      store := s.store.reclaim chunk
      writers := Function.update s.writers did (some (.sweeping rest)) }
  | _ => none

/-- The request returned, failed or was dropped: its lock is free, what it wrote stays. -/
def endWrite (s : State Did Cid) (did : Did) : Option (State Did Cid) :=
  match s.writers did with
  | some _ => some { s with writers := Function.update s.writers did none }
  | none => none

/-- The import transaction: the blocks of the CAR and `swap_repo_root_for_deactivated`. The
root that the request observed first is the one that the swap requires, and a CAR of that
very root changes nothing. -/
def importRepo (dag : Dag Cid) (s : State Did Cid) (did : Did) (root : Cid) :
    Option (State Did Cid) :=
  match s.accounts did with
  | none => none
  | some row =>
    if row.lifecycle.isImportable ∧ row.root ≠ some root then
      some { s with
        accounts := Function.update s.accounts did (some { row with root := some root })
        store := s.store.putAll did (dag.reach root) }
    else none

/-- The deletion transaction of `purge_account`. -/
def purgeAccount (s : State Did Cid) (did : Did) : Option (State Did Cid) :=
  match s.accounts did with
  | none => none
  | some _ =>
    let owned := s.store.ownedBy did
    some { s with
      accounts := Function.update s.accounts did none
      store := (s.store.release did owned).reclaim owned
      writers := Function.update s.writers did ((s.writers did).map WritePhase.lose) }

def step (dag : Dag Cid) (s : State Did Cid) : Label Did Cid → Option (State Did Cid)
  | .createAccount did row => s.createAccount dag did row
  | .setLifecycle did lifecycle => s.setLifecycle did lifecycle
  | .beginWrite did => s.beginWrite did
  | .writeBlock did cid => s.writeBlock did cid
  | .commitWrite did root diffed => s.commitWrite dag did root diffed
  | .checkHead did => s.checkHead did
  | .selectUnreachable did => s.selectUnreachable dag did
  | .deleteOwners did => s.deleteOwners did
  | .deleteBlocks did => s.deleteBlocks did
  | .endWrite did => s.endWrite did
  | .importRepo did root => s.importRepo dag did root
  | .purgeAccount did => s.purgeAccount did

end State

end Ezpds.Blocks
