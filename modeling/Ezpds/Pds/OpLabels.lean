import Ezpds.Pds.WriteRoutes

/-!
# The ops of a commit event

A relay that mirrors a repository follows the ops of its commits: applied in order they
take the old map of keys to CIDs to the new one, and undone in reverse they take it back.
That holds of every write. The labels also say what each op found, except that a batch
labels an update by its request alone.

* `opLabels_iff`: when the ops of a landed write are faithful to it.
* `upsert_mislabelled`: an update of an absent key, emitted as an update without `prev`.
-/

namespace Ezpds.Pds

open Library Repo Auth Firehose

variable {Cid : Type} [CidText Cid] [LinearOrder Cid] {enc : Encoders Cid}

/-! ## Faithful ops -/

/-- The label of an op says what its key held before and after. -/
structure WellLabelled (op : RepoOp) : Prop where
  create : op.action = .create ↔ op.prev = none ∧ op.cid.isSome
  update : op.action = .update ↔ op.prev.isSome ∧ op.cid.isSome
  delete : op.action = .delete ↔ op.prev.isSome ∧ op.cid = none

def opEdit (op : RepoOp) : Edit String String where
  key := op.path
  prev := op.prev
  next := op.cid

/-- The emitted ops of a write from the map `old` to the map `new`. -/
structure Faithful (old new : SortedMap String String) (landed : Landed enc) : Prop where
  emitted : ∀ input car, landed.event = some (input, car) → input.ops = landed.ops
  labelled : ∀ op ∈ landed.ops, WellLabelled op
  forward : Edit.applyAll old (landed.ops.map opEdit) = new
  backward : Edit.undoAll new (landed.ops.map opEdit) = old

/-- Every update of the batch finds a record, in the repository or written before it. -/
def UpdatesExisting : (String → Bool) → List WriteOp → Prop
  | _, [] => True
  | present, op :: ops =>
    (op.isUpdate = true → present op.key = true) ∧
      UpdatesExisting (Function.update present op.key op.value.isSome) ops

def UpdatesFound (env : RequestEnv Cid) (accounts : Accounts enc) (did : String) :
    Request → Prop
  | .applyWrites _ writes _ _ =>
    UpdatesExisting (fun key => ((repoMap accounts did).get? key).isSome) (writeOps env 0 writes)
  | _ => True

/-! ## What the ops of a landed write say -/

variable {env : RequestEnv Cid} {accounts : Accounts enc} {user : AuthenticatedUser}
  {landed : Landed enc} {response : Response} {request : Request} {w : Written Cid}

omit [LinearOrder Cid] in
/-- The label of an op is wrong only for an update that found nothing. -/
theorem wellLabelled_op (h : w.Kinded) :
    WellLabelled w.op ↔ (w.action = .update → w.prev.isSome = true) := by
  obtain ⟨action, collection, rkey, prev, next, value⟩ := w
  constructor
  · rintro hLabel rfl
    have hBoth := (hLabel.update.mp rfl).1
    simpa [Written.op] using hBoth
  · intro hUpdate
    cases action with
    | create =>
      obtain ⟨hPrev, hNext⟩ := h
      dsimp only at hPrev hNext
      exact ⟨by simp [Written.op, opAction, hPrev, hNext],
        by simp [Written.op, opAction, hPrev], by simp [Written.op, opAction, hPrev]⟩
    | update =>
      have hPrev := hUpdate rfl
      have hNext : next.isSome = true := h
      have hSome : next ≠ none := Option.isSome_iff_ne_none.mp hNext
      have hFound : prev ≠ none := Option.isSome_iff_ne_none.mp hPrev
      exact ⟨by simp [Written.op, opAction, hFound], by simp [Written.op, opAction, hPrev, hNext],
        by simp [Written.op, opAction, hSome]⟩
    | delete =>
      obtain ⟨hPrev, hNext⟩ := h
      dsimp only at hPrev hNext
      exact ⟨by simp [Written.op, opAction, hNext], by simp [Written.op, opAction, hNext],
        by simp [Written.op, opAction, hPrev, hNext]⟩

/-- Replay and inversion do not depend on the labels. -/
theorem Lands.replays {account : Account enc} {old new : Repository enc}
    {ws : List (Written Cid)} (h : Lands env user account old new ws landed) :
    Edit.applyAll (old.tree.mapValues CidText.toText) (landed.ops.map opEdit) =
        new.tree.mapValues CidText.toText ∧
      Edit.undoAll (new.tree.mapValues CidText.toText) (landed.ops.map opEdit) =
        old.tree.mapValues CidText.toText := by
  have hEdits : landed.ops.map opEdit =
      (ws.map Written.edit).map (Edit.mapValues CidText.toText) := by
    rw [h.ops, List.map_map, List.map_map]
    rfl
  have hForward : Edit.applyAll (old.tree.mapValues CidText.toText) (landed.ops.map opEdit) =
      new.tree.mapValues CidText.toText := by
    rw [hEdits, h.tree, Edit.mapValues_applyAll]
  refine ⟨hForward, ?_⟩
  rw [← hForward]
  apply Edit.undoAll_applyAll
  rw [hEdits]
  exact Edit.chained_mapValues h.chained

omit [LinearOrder Cid] in
/-- The updates of a batch that found something, read off the request. -/
theorem updatesExisting_iff {m : Repo.Tree Cid} {ops : List WriteOp}
    {outcomes : List (WriteOutcome Cid)} (hOutcomes : List.Forall₂ (OutcomeOf enc) ops outcomes)
    (hChained : Edit.Chained m (outcomes.map WriteOutcome.edit)) :
    UpdatesExisting (fun key => (m.get? key).isSome) ops ↔
      ∀ w ∈ written ops outcomes, w.action = .update → w.prev.isSome = true := by
  induction hOutcomes generalizing m with
  | nil => simp [UpdatesExisting, written]
  | @cons op o ops outcomes hOutcome _ ih =>
    obtain ⟨hPrev, hRest⟩ := hChained
    have hAfter : (fun key => ((o.edit.apply m).get? key).isSome) =
        Function.update (fun key => (m.get? key).isSome) op.key op.value.isSome := by
      funext key
      rw [Edit.apply, SortedMap.get?_set, ← hOutcome.isSome_cid, ← hOutcome.key_eq]
      by_cases h : key = o.key
      · simp [h, WriteOutcome.edit]
      · simp [h, Ne.symm h, WriteOutcome.edit]
    have hHead : (op.isUpdate = true → (m.get? op.key).isSome = true) ↔
        ∀ w ∈ writtenOf op o, w.action = .update → w.prev.isSome = true := by
      have hFound : m.get? op.key = o.prev := by
        rw [← hOutcome.key_eq]
        exact hPrev
      rw [hFound]
      cases op with
      | create key value => simp [WriteOp.isUpdate, writtenOf, kindOf]
      | update key value => simp [WriteOp.isUpdate, writtenOf, kindOf]
      | delete key => simp [WriteOp.isUpdate, writtenOf, kindOf]
    rw [UpdatesExisting, hHead, ← hAfter, ih hRest, written_cons]
    simp only [List.mem_append, Option.mem_toList, Option.mem_def, or_imp, forall_and]

/-- The ops of a landed write are faithful to it exactly when no update of the batch found
its key absent. -/
theorem opLabels_iff (hUser : env.authenticate = .ok user)
    (h : handle env accounts request = .ok (some landed, response)) :
    Faithful (repoMap accounts user.did) (repoMap (serve env accounts request) user.did) landed ↔
      UpdatesFound env accounts user.did request := by
  obtain ⟨u, account, old, new, ws, hAuth, hAccount, hDid, hLands, hFrom⟩ := handle_ok h
  cases hUser.symm.trans hAuth
  rw [hLands.repoMap_before hAccount, repoMap_serve hLands hDid h]
  obtain ⟨hForward, hBackward⟩ := hLands.replays
  have hLabels : (∀ op ∈ landed.ops, WellLabelled op) ↔
      ∀ w ∈ ws, w.action = .update → w.prev.isSome = true := by
    rw [hLands.ops, List.forall_mem_map]
    exact forall₂_congr fun w hw => wellLabelled_op (hLands.kinded w hw)
  have hFaithful : Faithful (old.tree.mapValues CidText.toText)
      (new.tree.mapValues CidText.toText) landed ↔
        ∀ w ∈ ws, w.action = .update → w.prev.isSome = true := by
    rw [← hLabels]
    exact ⟨Faithful.labelled, fun hLabel =>
      ⟨fun input car hEvent => (hLands.event input car hEvent).1, hLabel, hForward, hBackward⟩⟩
  rw [hFaithful]
  have hSingle : (∃ w, ws = [w] ∧ (w.action = .update → w.prev.isSome = true)) →
      ∀ w ∈ ws, w.action = .update → w.prev.isSome = true := by
    rintro ⟨w, rfl, hUpdate⟩ v hv
    rw [List.mem_singleton.mp hv]
    exact hUpdate
  cases request with
  | createRecord repo collection rkey record swapCommit validate =>
    exact iff_of_true (hSingle hFrom) trivial
  | putRecord repo collection rkey record swapCommit swapRecord validate =>
    exact iff_of_true (hSingle hFrom) trivial
  | deleteRecord repo collection rkey swapCommit swapRecord =>
    exact iff_of_true (hSingle hFrom) trivial
  | applyWrites repo writes swapCommit validate =>
    obtain ⟨outcomes, hRan, rfl⟩ := hFrom
    rw [← updatesExisting_iff hRan.outcome hRan.chained, UpdatesFound,
      hLands.repoMap_before hAccount]
    simp only [SortedMap.get?_mapValues, Option.isSome_map]

/-! ## Two batches -/

theorem opLabels_iff_rewriteBatch :
    ∃ landed response,
      handle (sampleEnv "com.atproto.access") (sampleAccounts rewriteTree) rewriteBatch =
        .ok (some landed, response) ∧
      (Faithful (repoMap (sampleAccounts rewriteTree) "did:plc:alice")
          (repoMap (serve (sampleEnv "com.atproto.access") (sampleAccounts rewriteTree)
            rewriteBatch) "did:plc:alice") landed ↔
        UpdatesFound (sampleEnv "com.atproto.access") (sampleAccounts rewriteTree)
          "did:plc:alice" rewriteBatch) := by
  have hLands : (landedOf (handle (sampleEnv "com.atproto.access") (sampleAccounts rewriteTree)
      rewriteBatch)).isSome = true := by
    decide +kernel
  obtain ⟨landed, hLanded⟩ := Option.isSome_iff_exists.mp hLands
  obtain ⟨response, h⟩ := landedOf_eq_some.mp hLanded
  exact ⟨landed, response, h, opLabels_iff rfl h⟩

theorem upsert_mislabelled :
    ¬ ∀ (env : RequestEnv String) (accounts : Accounts sampleEncoders) (request : Request)
      (user : AuthenticatedUser) (landed : Landed sampleEncoders) (response : Response),
      env.authenticate = .ok user →
      handle env accounts request = .ok (some landed, response) →
      Faithful (repoMap accounts user.did) (repoMap (serve env accounts request) user.did)
        landed := by
  intro hClaim
  have hOps : (landedOf (handle (sampleEnv "com.atproto.access") (sampleAccounts .empty)
      updateBatch)).map (fun landed => landed.ops.map fun op => (op.action, op.prev)) =
        some [(.update, none)] := by
    decide +kernel
  obtain ⟨landed, hLanded, hEmitted⟩ := Option.map_eq_some_iff.mp hOps
  obtain ⟨response, h⟩ := landedOf_eq_some.mp hLanded
  have hFaithful := hClaim _ _ _ _ landed response rfl h
  obtain ⟨op, hOp, hEq⟩ : ∃ op ∈ landed.ops, (op.action, op.prev) = (.update, none) := by
    rw [← List.mem_map, hEmitted]
    exact List.mem_singleton_self _
  obtain ⟨hAction, hPrev⟩ := Prod.mk.inj hEq
  have hFound := ((hFaithful.labelled op hOp).update.mp hAction).1
  simp [hPrev] at hFound

end Ezpds.Pds
