import Ezpds.Library.Run
import Ezpds.Pds.WriteRoutes

/-!
# Confinement of repository scopes

A token that does not permit `create` on a collection must not add records to it. The
single-record routes authorize the action that the repository's state makes of a write. A
batch authorizes the action that each op declares, before the repository is read, and an
update of an absent key creates its record.

* `creates_iff`: when a landed request of such a token adds a key to the collection.
* `scope_confined`: sequences of requests without such a batch add none.
* `update_scope_creates`: an update-only token that creates a record.
-/

namespace Ezpds.Pds

open Library Repo Auth Firehose

variable {Cid : Type} [CidText Cid] [LinearOrder Cid] {enc : Encoders Cid}

/-! ## Keys and requests -/

def keyCollection (key : String) : String :=
  (splitRecordPath key).1

def hasRecord (accounts : Accounts enc) (did key : String) : Bool :=
  ((repoMap accounts did).get? key).isSome

/-- The write of a batch that decides what `key` holds at its end. -/
def lastOp (key : String) (ops : List WriteOp) : Option WriteOp :=
  ops.reverse.find? fun op => op.key = key

/-- Some key of the collection is absent before the batch and last written by an update. -/
def upserts (present : String → Bool) (collection : String) (ops : List WriteOp) : Bool :=
  ops.any fun op => keyCollection op.key == collection && !present op.key &&
    (lastOp op.key ops).any WriteOp.isUpdate

def upsertsAbsent (env : RequestEnv Cid) (accounts : Accounts enc) (did collection : String) :
    Request → Bool
  | .applyWrites _ writes _ _ =>
    upserts (hasRecord accounts did) collection (writeOps env 0 writes)
  | _ => false

/-- One request of a sequence; it always leaves the server in some state. -/
def serveStep (accounts : Accounts enc) (p : RequestEnv Cid × Request) : Option (Accounts enc) :=
  some (serve p.1 accounts p.2)

/-- The request adds no key to the collection, in any repository. -/
def Confined (collection : String) (accounts : Accounts enc) (p : RequestEnv Cid × Request) :
    Prop :=
  ∀ did key, keyCollection key = collection → hasRecord accounts did key = false →
    hasRecord (serve p.1 accounts p.2) did key = false

/-- The token of a request, where it is accepted, is `user`'s. -/
def MadeWith (user : AuthenticatedUser) (env : RequestEnv Cid) : Prop :=
  ∀ u, env.authenticate = .ok u → u = user

/-! ## The last op of a key -/

variable {env : RequestEnv Cid} {accounts : Accounts enc} {user : AuthenticatedUser}
  {landed : Landed enc} {response : Response} {request : Request}
  {collection key : String} {ops : List WriteOp} {outcomes : List (WriteOutcome Cid)}
  {account : Account enc} {old new : Repository enc}

theorem upserts_iff {present : String → Bool} :
    upserts present collection ops = true ↔
      ∃ key, keyCollection key = collection ∧ present key = false ∧
        ∃ op, lastOp key ops = some op ∧ op.isUpdate = true := by
  simp only [upserts, List.any_eq_true, Bool.and_eq_true, beq_iff_eq, Bool.not_eq_true',
    Option.any_eq_true]
  constructor
  · rintro ⟨op, _, ⟨hCollection, hAbsent⟩, hLast⟩
    exact ⟨op.key, hCollection, hAbsent, hLast⟩
  · rintro ⟨key, hCollection, hAbsent, op, hLast, hUpdate⟩
    have hMem : op ∈ ops := List.mem_reverse.mp (List.mem_of_find?_eq_some hLast)
    have hKey : op.key = key := by simpa using List.find?_some hLast
    subst hKey
    exact ⟨op, hMem, ⟨hCollection, hAbsent⟩, op, hLast, hUpdate⟩

theorem lastOp_cons (key : String) (op : WriteOp) (ops : List WriteOp) :
    lastOp key (op :: ops) = (lastOp key ops).or (if op.key = key then some op else none) := by
  rw [lastOp, List.reverse_cons, List.find?_append, List.find?_singleton]
  simp only [lastOp, decide_eq_true_eq]

omit [LinearOrder Cid] in
/-- What a key holds after a batch is decided by the last op of that key. -/
theorem isSome_applyAll {m : Repo.Tree Cid} (h : List.Forall₂ (OutcomeOf enc) ops outcomes) :
    ((Edit.applyAll m (outcomes.map WriteOutcome.edit)).get? key).isSome =
      (lastOp key ops).elim (m.get? key).isSome fun op => op.value.isSome := by
  induction h generalizing m with
  | nil => rfl
  | @cons op o ops outcomes hOutcome _ ih =>
    rw [List.map_cons, Edit.applyAll_cons, ih, lastOp_cons, Edit.apply, SortedMap.get?_set]
    cases lastOp key ops with
    | some last => rfl
    | none =>
      by_cases hKey : op.key = key
      · have hHit : o.edit.key = key := hOutcome.key_eq.trans hKey
        rw [if_pos hHit, if_pos hKey]
        exact hOutcome.isSome_cid
      · have hMiss : ¬ o.edit.key = key := fun h => hKey (hOutcome.key_eq.symm.trans h)
        rw [if_neg hMiss, if_neg hKey]
        rfl

theorem keyCollection_recordKey {rkey : String} (h : '/' ∉ collection.toList) :
    keyCollection (recordKey collection rkey) = collection := by
  rw [keyCollection, splitRecordPath_recordKey h]

/-! ## One request -/

omit [LinearOrder Cid] in
/-- A batch whose token may not create in the collection adds a key to it only where the
last op of an absent key is an update. -/
theorem Ran.created_iff (h : Ran user old new ops outcomes)
    (hScope : ¬ checkRepoScope user collection .create = .ok ())
    (hKey : keyCollection key = collection) (hAbsent : (old.tree.get? key).isSome = false) :
    (new.tree.get? key).isSome = true ↔ ∃ op, lastOp key ops = some op ∧ op.isUpdate = true := by
  rw [h.tree, isSome_applyAll h.outcome, hAbsent]
  cases hLast : lastOp key ops with
  | none => simp
  | some op =>
    have hMem : op ∈ ops := List.mem_reverse.mp (List.mem_of_find?_eq_some hLast)
    have hOp : op.key = key := by simpa using List.find?_some hLast
    obtain ⟨c, rkey, hPath, hSlash, hAuth⟩ := h.authorized op hMem
    have hCollection : c = collection := by
      rw [← hKey, ← hOp, hPath, keyCollection_recordKey hSlash]
    cases op with
    | create k value =>
      rw [hCollection] at hAuth
      exact absurd hAuth hScope
    | update k value => simp [WriteOp.value, WriteOp.isUpdate]
    | delete k => simp [WriteOp.value, WriteOp.isUpdate]

/-- A single write whose token may not create in the collection adds no key to it. -/
theorem Lands.not_created {w : Written Cid} (h : Lands env user account old new [w] landed)
    (hUpdate : w.action = .update → w.prev.isSome = true)
    (hScope : ¬ checkRepoScope user collection .create = .ok ())
    (hKey : keyCollection key = collection) (hAbsent : (old.tree.get? key).isSome = false) :
    (new.tree.get? key).isSome = false := by
  have hMem : w ∈ [w] := List.mem_singleton_self w
  have hTree : new.tree = w.edit.apply old.tree := h.tree
  rw [hTree, Edit.apply, SortedMap.get?_set]
  by_cases hHit : w.edit.key = key
  · have hPrev : w.prev.isSome = false := by
      have hFound : old.tree.get? w.edit.key = w.prev := h.chained.1
      rw [← hFound, hHit, hAbsent]
    have hCollection : w.collection = collection := by
      rw [← hKey, ← hHit]
      exact (keyCollection_recordKey (h.collection w hMem)).symm
    have hAuth := h.authorized w hMem
    have hKinded := h.kinded w hMem
    rw [Written.Kinded] at hKinded
    cases hAction : w.action with
    | create =>
      rw [hCollection, hAction] at hAuth
      exact absurd hAuth hScope
    | update => simp [hUpdate hAction] at hPrev
    | delete =>
      rw [hAction] at hKinded
      simp [hKinded.1] at hPrev
  · rw [if_neg hHit, hAbsent]

/-- Which landed requests add a key to a collection that the token may not create in. -/
theorem creates_iff (hUser : env.authenticate = .ok user)
    (hScope : ¬ Allows user collection .create)
    (h : handle env accounts request = .ok (some landed, response)) :
    (∃ key, keyCollection key = collection ∧ hasRecord accounts user.did key = false ∧
        hasRecord (serve env accounts request) user.did key = true) ↔
      upsertsAbsent env accounts user.did collection request = true := by
  obtain ⟨u, account, old, new, ws, hAuth, hAccount, hDid, hLands, hFrom⟩ := handle_ok h
  cases hUser.symm.trans hAuth
  have hBefore : ∀ key, hasRecord accounts user.did key = (old.tree.get? key).isSome := by
    intro key
    rw [hasRecord, hLands.repoMap_before hAccount, SortedMap.get?_mapValues, Option.isSome_map]
  have hAfter : ∀ key,
      hasRecord (serve env accounts request) user.did key = (new.tree.get? key).isSome := by
    intro key
    rw [hasRecord, repoMap_serve hLands hDid h, SortedMap.get?_mapValues, Option.isSome_map]
  have hRefused : ¬ checkRepoScope user collection .create = .ok () :=
    fun hOk => hScope ⟨hLands.access, hOk⟩
  simp only [hBefore, hAfter]
  have hSingle : (∃ w, ws = [w] ∧ (w.action = .update → w.prev.isSome = true)) →
      ¬ ∃ key, keyCollection key = collection ∧ (old.tree.get? key).isSome = false ∧
        (new.tree.get? key).isSome = true := by
    rintro ⟨w, rfl, hUpdate⟩ ⟨key, hKey, hAbsent, hPresent⟩
    rw [hLands.not_created hUpdate hRefused hKey hAbsent] at hPresent
    cases hPresent
  cases request with
  | createRecord repo c rkey record swapCommit validate =>
    exact iff_of_false (hSingle hFrom) (by simp [upsertsAbsent])
  | putRecord repo c rkey record swapCommit swapRecord validate =>
    exact iff_of_false (hSingle hFrom) (by simp [upsertsAbsent])
  | deleteRecord repo c rkey swapCommit swapRecord =>
    exact iff_of_false (hSingle hFrom) (by simp [upsertsAbsent])
  | applyWrites repo writes swapCommit validate =>
    obtain ⟨outcomes, hRan, rfl⟩ := hFrom
    rw [upsertsAbsent, upserts_iff]
    simp only [hBefore]
    apply exists_congr
    intro key
    apply and_congr_right
    intro hKey
    apply and_congr_right
    intro hAbsent
    exact hRan.created_iff hRefused hKey hAbsent

/-! ## Sequences of requests -/

/-- One request of a token that may not create in the collection. -/
theorem confined_step {p : RequestEnv Cid × Request} (hScope : ¬ Allows user collection .create)
    (hToken : MadeWith user p.1)
    (hUpsert : upsertsAbsent p.1 accounts user.did collection p.2 = false) :
    Confined collection accounts p := by
  intro did key hKey hAbsent
  by_cases hLanded : ∃ landed response, handle p.1 accounts p.2 = .ok (some landed, response) ∧
      did = landed.did
  · obtain ⟨landed, response, h, rfl⟩ := hLanded
    obtain ⟨u, account, old, new, ws, hAuth, _, hDid, _⟩ := handle_ok h
    cases hToken u hAuth
    rw [hDid] at hAbsent ⊢
    by_contra hPresent
    have hCreated := (creates_iff hAuth hScope h).mp
      ⟨key, hKey, hAbsent, Bool.not_eq_false _ |>.mp hPresent⟩
    rw [hUpsert] at hCreated
    cases hCreated
  · have hSame : repoMap (serve p.1 accounts p.2) did = repoMap accounts did :=
      repoMap_serve_of_ne fun landed response h hDid => hLanded ⟨landed, response, h, hDid⟩
    rw [hasRecord, hSame]
    exact hAbsent

/-- Whatever a token that may not create in the collection requests, no request adds a key
to it, as long as no batch ends with an update of an absent key. -/
theorem scope_confined (hScope : ¬ Allows user collection .create)
    (requests : List (RequestEnv Cid × Request)) (accounts : Accounts enc)
    (hToken : ∀ p ∈ requests, MadeWith user p.1)
    (hUpserts : Along serveStep
      (fun accounts p => upsertsAbsent p.1 accounts user.did collection p.2 = false)
      accounts requests) :
    Along serveStep (Confined collection) accounts requests := by
  have hBoth := (along_of_forall hToken).and hUpserts
  exact hBoth.mono fun accounts p h => confined_step hScope h.1 h.2

/-! ## An update-only token -/

def updateScope : String := "atproto repo:app.bsky.feed.post?action=update"

def updateUser : AuthenticatedUser :=
  { did := "did:plc:alice", scope := .access, scopeClaim := updateScope, registrationId := none }

theorem updateUser_not_create : ¬ Allows updateUser "app.bsky.feed.post" .create := by
  rintro ⟨_, hOk⟩
  have hRefused : (checkRepoScope updateUser "app.bsky.feed.post" .create).isOk = false := by
    decide +kernel
  rw [hOk] at hRefused
  cases hRefused

theorem updateUser_madeWith : MadeWith updateUser (sampleEnv updateScope) := by
  rintro u hAuth
  cases hAuth
  rfl

/-- The token rewrites a record that is there. -/
theorem scope_confined_update :
    Along serveStep (Confined "app.bsky.feed.post")
      (sampleAccounts (SortedMap.empty.set "app.bsky.feed.post/a" (some "record zero")))
      [(sampleEnv updateScope, updateBatch), (sampleEnv updateScope, updateBatch)] := by
  refine scope_confined updateUser_not_create _ _ ?_ ?_
  · simp [updateUser_madeWith]
  · decide +kernel

theorem update_scope_creates :
    ¬ ∀ (user : AuthenticatedUser) (collection : String)
      (requests : List (RequestEnv String × Request)) (accounts : Accounts sampleEncoders),
      ¬ Allows user collection .create → (∀ p ∈ requests, MadeWith user p.1) →
      Along serveStep (Confined collection) accounts requests := by
  intro hClaim
  have hConfined := hClaim updateUser "app.bsky.feed.post" [(sampleEnv updateScope, updateBatch)]
    (sampleAccounts .empty) updateUser_not_create (by simp [updateUser_madeWith])
  have hCollection : keyCollection "app.bsky.feed.post/a" = "app.bsky.feed.post" := by
    decide +kernel
  have hAbsent :
      hasRecord (sampleAccounts .empty) "did:plc:alice" "app.bsky.feed.post/a" = false := by
    decide +kernel
  have hCreated : hasRecord (serve (sampleEnv updateScope) (sampleAccounts .empty) updateBatch)
      "did:plc:alice" "app.bsky.feed.post/a" = true := by
    decide +kernel
  have hKept := hConfined.1 _ _ hCollection hAbsent
  rw [hCreated] at hKept
  cases hKept

end Ezpds.Pds
