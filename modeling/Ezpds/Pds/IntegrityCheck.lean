import Ezpds.Pds.WriteRoutes

/-!
# The MST integrity check

Before a write is committed, the keys of its new head are counted and compared with the
stored count plus a delta that is read off the emitted ops. The delta is right for every
write: each op says through its label and its `prev` by how much it changed the map, and
the ops are a chained log of the change.

* `expectedDelta_op`: the delta of the ops is the delta of the log.
* `integrity_delta`: the check accepts every write that applies, and no other head.
-/

namespace Ezpds.Pds

open Library Repo Auth Firehose

variable {Cid : Type} [CidText Cid] [LinearOrder Cid] {enc : Encoders Cid}

/-! ## The delta -/

variable {env : RequestEnv Cid} {accounts : Accounts enc} {user : AuthenticatedUser}
  {landed : Landed enc} {response : Response} {request : Request} {account : Account enc}
  {old new : Repository enc} {ws : List (Written Cid)}

omit [LinearOrder Cid] in
theorem expectedDelta_op (h : ∀ w ∈ ws, w.Kinded) :
    expectedDelta (ws.map Written.op) = ((ws.map Written.edit).map Edit.delta).sum := by
  induction ws with
  | nil => rfl
  | cons w ws ih =>
    have hRest := ih fun v hv => h v (List.mem_cons_of_mem _ hv)
    have hKinded := h w List.mem_cons_self
    have hHead : expectedDelta [w.op] = w.edit.delta := by
      obtain ⟨action, collection, rkey, prev, next, value⟩ := w
      cases action with
      | create =>
        obtain ⟨hPrev, hNext⟩ := hKinded
        obtain ⟨c, rfl⟩ := Option.isSome_iff_exists.mp hNext
        cases hPrev
        rfl
      | update =>
        obtain ⟨c, rfl⟩ := Option.isSome_iff_exists.mp hKinded
        cases prev with
        | none => rfl
        | some p => rfl
      | delete =>
        obtain ⟨hPrev, hNext⟩ := hKinded
        obtain ⟨p, rfl⟩ := Option.isSome_iff_exists.mp hPrev
        cases hNext
        rfl
    simp only [expectedDelta, List.map_cons, List.map_nil, List.sum_cons, List.sum_nil,
      add_zero] at hHead hRest ⊢
    rw [hHead, hRest]

theorem isRecordKey_recordKey (collection rkey : String) :
    Repository.isRecordKey (recordKey collection rkey) = true := by
  simpa [Repository.isRecordKey] using slash_mem_recordKey collection rkey

/-- The records of the new head, counted from the old one's. -/
theorem Lands.countRecords_new (h : Lands env user account old new ws landed) :
    (old.countRecords : Int) + expectedDelta landed.ops = new.countRecords := by
  have hKeys : ∀ e ∈ ws.map Written.edit, Repository.isRecordKey e.key = true := by
    intro e he
    obtain ⟨w, _, rfl⟩ := List.mem_map.mp he
    exact isRecordKey_recordKey w.collection w.rkey
  rw [h.ops, expectedDelta_op h.kinded, Repository.countRecords, Repository.countRecords, h.tree,
    Edit.count_applyAll hKeys h.chained]

/-- The same for every key of the map, whether or not it names a record. -/
theorem Lands.size_new (h : Lands env user account old new ws landed) :
    (old.tree.size : Int) + expectedDelta landed.ops = new.tree.size := by
  rw [h.ops, expectedDelta_op h.kinded, h.tree, Edit.size_applyAll h.chained]

/-! ## The check within a request -/

/-- The check decides only whether the write commits, and what count is kept. -/
theorem commitRepoWrite_recount {did : String} {ops : List RepoOp} {counted : Bool}
    (h : commitRepoWrite env did account old new ops = .ok landed)
    (hCheck : integrityCheck account.recordCount (headCount { env with counted } new)
      (expectedDelta ops) = .ok ()) :
    ∃ landed', commitRepoWrite { env with counted } did account old new ops = .ok landed' ∧
      landed'.ops = landed.ops ∧ landed'.account.repo = landed.account.repo ∧
      landed'.event = landed.event := by
  obtain ⟨_, hPoints, h⟩ := bind_ok.mp h
  obtain ⟨_, _, h⟩ := bind_ok.mp h
  obtain ⟨_, hTransaction, h⟩ := bind_ok.mp h
  obtain ⟨_, hActive, h⟩ := bind_ok.mp h
  cases h
  refine ⟨_, bind_ok.mpr ⟨(), hPoints, bind_ok.mpr ⟨(), hCheck, bind_ok.mpr ⟨(), hTransaction,
    bind_ok.mpr ⟨(), hActive, rfl⟩⟩⟩⟩, rfl, rfl, rfl⟩

/-- The request reached `commit_repo_write`, and whether the head is counted only matters
from there on. -/
def Reaches (env : RequestEnv Cid) (accounts : Accounts enc) (landed : Landed enc)
    (serves : RequestEnv Cid → Landed enc → Prop) : Prop :=
  ∃ account old new, accounts landed.did = some account ∧ account.repo = some old ∧
    landed.account.repo = some new ∧
    commitRepoWrite env landed.did account old new landed.ops = .ok landed ∧
    ∀ counted landed',
      commitRepoWrite { env with counted } landed.did account old new landed.ops = .ok landed' →
        serves { env with counted } landed'

theorem reaches_of_commit {did : String} {ops : List RepoOp}
    {serves : RequestEnv Cid → Landed enc → Prop} (hAccount : accounts did = some account)
    (hOld : account.repo = some old)
    (hCommit : commitRepoWrite env did account old new ops = .ok landed)
    (hServes : ∀ counted landed',
      commitRepoWrite { env with counted } did account old new ops = .ok landed' →
        serves { env with counted } landed') :
    Reaches env accounts landed serves := by
  obtain ⟨rfl, hNew, rfl, _⟩ := commitRepoWrite_ok hCommit
  exact ⟨account, old, new, hAccount, hOld, hNew, hCommit, hServes⟩

theorem Reaches.mono {serves serves' : RequestEnv Cid → Landed enc → Prop}
    (h : Reaches env accounts landed serves)
    (hMono : ∀ counted landed', serves { env with counted } landed' →
      serves' { env with counted } landed') : Reaches env accounts landed serves' := by
  obtain ⟨account, old, new, hAccount, hOld, hNew, hCommit, hServes⟩ := h
  exact ⟨account, old, new, hAccount, hOld, hNew, hCommit,
    fun counted landed' hCommit' => hMono counted landed' (hServes counted landed' hCommit')⟩

theorem writeRecord_reaches {did mstKey : String} {record : Json} {createOnly : Bool}
    {swap : SwapCheck} {validate : Option Bool} {cid : Cid} {status : Option String}
    (h : writeRecord env accounts did mstKey record createOnly swap validate =
      .ok (landed, cid, status)) :
    Reaches env accounts landed fun env landed =>
      writeRecord env accounts did mstKey record createOnly swap validate =
        .ok (landed, cid, status) := by
  obtain ⟨user, hUser, h⟩ := bind_ok.mp h
  obtain ⟨_, hFormats, h⟩ := bind_ok.mp h
  obtain ⟨_, hStatus, h⟩ := bind_ok.mp h
  obtain ⟨⟨account, old⟩, hState, h⟩ := bind_ok.mp h
  obtain ⟨_, hOpened, h⟩ := bind_ok.mp h
  obtain ⟨_, hScope, h⟩ := bind_ok.mp h
  obtain ⟨_, hSwap, h⟩ := bind_ok.mp h
  obtain ⟨_, hCreate, h⟩ := bind_ok.mp h
  obtain ⟨signer, hSigner, h⟩ := bind_ok.mp h
  obtain ⟨⟨c, new⟩, hPut, h⟩ := bind_ok.mp h
  obtain ⟨l, hCommit, h⟩ := bind_ok.mp h
  cases h
  obtain ⟨hAccount, hOld, _⟩ := repoWriteState_ok hState
  apply reaches_of_commit hAccount hOld hCommit
  intro counted landed' hCommit'
  exact bind_ok.mpr ⟨_, hUser, bind_ok.mpr ⟨_, hFormats, bind_ok.mpr ⟨_, hStatus,
    bind_ok.mpr ⟨_, hState, bind_ok.mpr ⟨_, hOpened, bind_ok.mpr ⟨_, hScope,
    bind_ok.mpr ⟨_, hSwap, bind_ok.mpr ⟨_, hCreate, bind_ok.mpr ⟨_, hSigner,
    bind_ok.mpr ⟨_, hPut, bind_ok.mpr ⟨_, hCommit', rfl⟩⟩⟩⟩⟩⟩⟩⟩⟩⟩⟩

theorem deleteRecord_reaches {repo collection rkey : String}
    {swapCommit swapRecord : Option String}
    (h : deleteRecord env accounts repo collection rkey swapCommit swapRecord =
      .ok (some landed, response)) :
    Reaches env accounts landed fun env landed =>
      deleteRecord env accounts repo collection rkey swapCommit swapRecord =
        .ok (some landed, response) := by
  obtain ⟨did, hRepo, h⟩ := bind_ok.mp h
  obtain ⟨user, hUser, h⟩ := bind_ok.mp h
  obtain ⟨_, hPath, h⟩ := bind_ok.mp h
  obtain ⟨_, hScope, h⟩ := bind_ok.mp h
  obtain ⟨⟨account, old⟩, hState, h⟩ := bind_ok.mp h
  obtain ⟨_, hOpened, h⟩ := bind_ok.mp h
  obtain ⟨_, hSwap, h⟩ := bind_ok.mp h
  obtain ⟨_, hProbed, h⟩ := bind_ok.mp h
  obtain ⟨hAccount, hOld, _⟩ := repoWriteState_ok hState
  dsimp only at h
  split at h
  · cases h
  · rename_i prevCid hPrev
    obtain ⟨signer, hSigner, h⟩ := bind_ok.mp h
    obtain ⟨new, hDelete, h⟩ := bind_ok.mp h
    obtain ⟨l, hCommit, h⟩ := bind_ok.mp h
    cases h
    apply reaches_of_commit hAccount hOld hCommit
    intro counted landed' hCommit'
    refine bind_ok.mpr ⟨_, hRepo, bind_ok.mpr ⟨_, hUser, bind_ok.mpr ⟨_, hPath,
      bind_ok.mpr ⟨_, hScope, bind_ok.mpr ⟨_, hState, bind_ok.mpr ⟨_, hOpened,
      bind_ok.mpr ⟨_, hSwap, bind_ok.mpr ⟨_, hProbed, ?_⟩⟩⟩⟩⟩⟩⟩⟩
    rw [hPrev]
    exact bind_ok.mpr ⟨_, hSigner, bind_ok.mpr ⟨_, hDelete, bind_ok.mpr ⟨_, hCommit', rfl⟩⟩⟩

omit [CidText Cid] [LinearOrder Cid] in
theorem prepareWrites_counted {validate : Option Bool} {i : Nat} {writes : List WriteItem}
    {ws : List Prepared} {counted : Bool}
    (h : prepareWrites env user validate i writes = .ok ws) :
    prepareWrites { env with counted } user validate i writes = .ok ws := by
  induction writes generalizing i ws with
  | nil => exact h
  | cons item writes ih =>
    obtain ⟨w, hItem, h⟩ := bind_ok.mp h
    obtain ⟨rest, hRest, h⟩ := bind_ok.mp h
    cases h
    exact bind_ok.mpr ⟨w, hItem, bind_ok.mpr ⟨rest, ih hRest, rfl⟩⟩

theorem applyWrites_reaches {repo : String} {writes : List WriteItem}
    {swapCommit : Option String} {validate : Option Bool}
    (h : applyWrites env accounts repo writes swapCommit validate = .ok (some landed, response)) :
    Reaches env accounts landed fun env landed =>
      applyWrites env accounts repo writes swapCommit validate = .ok (some landed, response) := by
  obtain ⟨did, hRepo, h⟩ := bind_ok.mp h
  obtain ⟨user, hUser, h⟩ := bind_ok.mp h
  obtain ⟨_, hNonempty, h⟩ := bind_ok.mp h
  obtain ⟨ws, hPrepared, h⟩ := bind_ok.mp h
  obtain ⟨⟨account, old⟩, hState, h⟩ := bind_ok.mp h
  obtain ⟨_, hSwap, h⟩ := bind_ok.mp h
  obtain ⟨_, hOpened, h⟩ := bind_ok.mp h
  obtain ⟨signer, hSigner, h⟩ := bind_ok.mp h
  obtain ⟨⟨outcomes, new⟩, hRun, h⟩ := bind_ok.mp h
  obtain ⟨hAccount, hOld, _⟩ := repoWriteState_ok hState
  dsimp only at h
  split at h
  · cases h
  · rename_i hOps
    obtain ⟨l, hCommit, h⟩ := bind_ok.mp h
    cases h
    apply reaches_of_commit hAccount hOld hCommit
    intro counted landed' hCommit'
    refine bind_ok.mpr ⟨_, hRepo, bind_ok.mpr ⟨_, hUser, bind_ok.mpr ⟨_, hNonempty,
      bind_ok.mpr ⟨_, prepareWrites_counted hPrepared, bind_ok.mpr ⟨_, hState,
      bind_ok.mpr ⟨_, hSwap, bind_ok.mpr ⟨_, hOpened, bind_ok.mpr ⟨_, hSigner,
      bind_ok.mpr ⟨_, hRun, ?_⟩⟩⟩⟩⟩⟩⟩⟩⟩
    dsimp only
    rw [if_neg hOps]
    exact bind_ok.mpr ⟨_, hCommit', rfl⟩

theorem handle_reaches (h : handle env accounts request = .ok (some landed, response)) :
    Reaches env accounts landed fun env landed =>
      handle env accounts request = .ok (some landed, response) := by
  cases request with
  | createRecord repo collection rkey record swapCommit validate =>
    obtain ⟨did, hRepo, h⟩ := bind_ok.mp h
    obtain ⟨_, hPath, h⟩ := bind_ok.mp h
    obtain ⟨⟨l, cid, status⟩, hWrite, h⟩ := bind_ok.mp h
    cases h
    apply (writeRecord_reaches hWrite).mono
    intro counted landed' hWrite'
    exact bind_ok.mpr ⟨_, hRepo, bind_ok.mpr ⟨_, hPath, bind_ok.mpr ⟨_, hWrite', rfl⟩⟩⟩
  | putRecord repo collection rkey record swapCommit swapRecord validate =>
    obtain ⟨did, hRepo, h⟩ := bind_ok.mp h
    obtain ⟨_, hPath, h⟩ := bind_ok.mp h
    obtain ⟨⟨l, cid, status⟩, hWrite, h⟩ := bind_ok.mp h
    cases h
    apply (writeRecord_reaches hWrite).mono
    intro counted landed' hWrite'
    exact bind_ok.mpr ⟨_, hRepo, bind_ok.mpr ⟨_, hPath, bind_ok.mpr ⟨_, hWrite', rfl⟩⟩⟩
  | deleteRecord repo collection rkey swapCommit swapRecord => exact deleteRecord_reaches h
  | applyWrites repo writes swapCommit validate => exact applyWrites_reaches h

/-! ## The check is exact -/

theorem integrityCheck_ok {stored : Int} {newCount : Option Int} {delta : Int} :
    integrityCheck (some stored) newCount delta = .ok () ↔
      ∀ counted, newCount = some counted → stored + delta = counted := by
  cases newCount with
  | none => simp [integrityCheck]
  | some counted => simp [integrityCheck, ensure_ok]

omit [CidText Cid] [LinearOrder Cid] in
theorem headCount_eq_some {n : Int} {head : Repository enc} (h : headCount env head = some n) :
    n = head.countRecords := by
  rw [headCount] at h
  split at h
  · rw [i64TryFrom] at h
    split at h
    · exact (Option.some.inj h).symm
    · cases h
  · cases h

/-- The stored count and the ops of a write that applies add up to the keys of its new
head. So the check accepts the write, and it accepts the same ops for no other count. -/
theorem integrity_delta
    (h : handle { env with counted := false } accounts request = .ok (some landed, response)) :
    ∃ account old new, accounts landed.did = some account ∧ account.repo = some old ∧
      landed.account.repo = some new ∧
      (old.countRecords : Int) + expectedDelta landed.ops = new.countRecords ∧
      (old.tree.size : Int) + expectedDelta landed.ops = new.tree.size ∧
      (account.recordCount = some (old.countRecords : Int) →
        (∃ landed', handle { env with counted := true } accounts request =
            .ok (some landed', response) ∧ landed'.ops = landed.ops ∧
            landed'.account.repo = some new) ∧
        ∀ head landed', (headCount { env with counted := true } head).isSome = true →
          commitRepoWrite { env with counted := true } landed.did account old head landed.ops =
            .ok landed' → head.countRecords = new.countRecords) := by
  obtain ⟨user, account, old, new, ws, _, hAccount, hDid, hLands, _⟩ := handle_ok h
  obtain ⟨account', old', new', hAccount', hOld', hNew', hCommit, hServes⟩ := handle_reaches h
  rw [← hDid] at hAccount
  cases hAccount.symm.trans hAccount'
  cases hLands.before.symm.trans hOld'
  cases hLands.after.symm.trans hNew'
  have hCount := hLands.countRecords_new
  refine ⟨account, old, new, hAccount, hLands.before, hLands.after, hCount, hLands.size_new, ?_⟩
  intro hStored
  constructor
  · have hCheck : integrityCheck account.recordCount (headCount { env with counted := true } new)
        (expectedDelta landed.ops) = .ok () := by
      rw [hStored, integrityCheck_ok]
      intro counted hCounted
      rw [headCount_eq_some hCounted, hCount]
    obtain ⟨landed', hCommit', hOps, hRepo, _⟩ := commitRepoWrite_recount hCommit hCheck
    exact ⟨landed', hServes true landed' hCommit', hOps, hRepo.trans hNew'⟩
  · intro head landed' hKnown hHead
    obtain ⟨n, hN⟩ := Option.isSome_iff_exists.mp hKnown
    obtain ⟨_, _, _, hCheck, _⟩ := commitRepoWrite_ok hHead
    rw [hStored, integrityCheck_ok] at hCheck
    have hSum := hCheck n hN
    rw [headCount_eq_some hN, hCount] at hSum
    exact_mod_cast hSum.symm

/-- Four ops, three of them on one key: the count goes from one to one. -/
theorem integrity_delta_rewriteBatch :
    ∃ (landed : Landed sampleEncoders) (account : Account sampleEncoders)
      (old new : Repository sampleEncoders),
      sampleAccounts rewriteTree landed.did = some account ∧ account.repo = some old ∧
      landed.account.repo = some new ∧
      (old.countRecords : Int) + expectedDelta landed.ops = new.countRecords := by
  have hLands : (landedOf (handle { sampleEnv "com.atproto.access" with counted := false }
      (sampleAccounts rewriteTree) rewriteBatch)).isSome = true := by
    decide +kernel
  obtain ⟨landed, hLanded⟩ := Option.isSome_iff_exists.mp hLands
  obtain ⟨response, h⟩ := landedOf_eq_some.mp hLanded
  obtain ⟨account, old, new, hAccount, hOld, hNew, hCount, _⟩ := integrity_delta h
  exact ⟨landed, account, old, new, hAccount, hOld, hNew, hCount⟩

end Ezpds.Pds
