import Ezpds.Pds.WriteRoutes

/-!
# How a write moves the head

A request that lands read one head, built the next one on top of it and describes the two in
its event. The four routes differ in how they build the new head; what they have in common is
`Moves`.

* `handle_moves`: every request that lands moves the head of the repository it names.
-/

namespace Ezpds.Pds

open Library Repo Auth Firehose

variable {Cid : Type} [CidText Cid] [LinearOrder Cid] {enc : Encoders Cid}

def Request.repo : Request → String
  | createRecord repo _ _ _ _ _ => repo
  | putRecord repo _ _ _ _ _ _ => repo
  | deleteRecord repo _ _ _ _ => repo
  | applyWrites repo _ _ _ => repo

/-- The repository under the persisted root of `did`. -/
def headOf (accounts : Accounts enc) (did : String) : Option (Repository enc) :=
  (accounts did).bind Account.repo

/-- The event tells of the move from `old` to `new`. -/
structure Announces (input : CommitInput) (old new : Repository enc) : Prop where
  commit : input.commit = CidText.toText new.root
  rev : input.rev = new.commit.rev
  since : input.since = some old.commit.rev
  prevData : input.prevData = some (CidText.toText old.commit.data)

/-- A landed write replaced the head that it read. -/
structure Moves (env : RequestEnv Cid) (accounts : Accounts enc) (old new : Repository enc)
    (landed : Landed enc) : Prop where
  before : headOf accounts landed.did = some old
  after : landed.account.repo = some new
  advances : isValidTid old.commit.rev = true → Advances old new
  event : env.diffed = true → env.carBuilt = true → ∃ input car,
    landed.event = some (input, car) ∧ input.repo = landed.did ∧ Announces input old new

variable {env : RequestEnv Cid} {accounts : Accounts enc} {landed : Landed enc}
  {response : Response} {did : String} {account : Account enc} {old new : Repository enc}

omit [CidText Cid] [LinearOrder Cid] in
theorem headOf_eq_some (hAccount : accounts did = some account) (hRepo : account.repo = some old) :
    headOf accounts did = some old := by
  rw [headOf, hAccount, Option.bind_some, hRepo]

theorem commitRepoWrite_moves {ops : List RepoOp}
    (hState : repoWriteState accounts did = .ok (account, old))
    (hAdvances : isValidTid old.commit.rev = true → Advances old new)
    (h : commitRepoWrite env did account old new ops = .ok landed) :
    landed.did = did ∧ Moves env accounts old new landed := by
  obtain ⟨hAccount, hOld, _⟩ := repoWriteState_ok hState
  obtain ⟨_, _, h⟩ := bind_ok.mp h
  obtain ⟨_, _, h⟩ := bind_ok.mp h
  obtain ⟨_, _, h⟩ := bind_ok.mp h
  obtain ⟨_, _, h⟩ := bind_ok.mp h
  cases h
  refine ⟨rfl, headOf_eq_some hAccount hOld, rfl, hAdvances, ?_⟩
  intro hDiffed hCar
  dsimp only
  rw [hDiffed, hCar]
  exact ⟨_, _, rfl, rfl, ⟨rfl, rfl, rfl, rfl⟩⟩

theorem writeRecord_moves {mstKey : String} {record : Json} {createOnly : Bool}
    {swap : SwapCheck} {validate : Option Bool} {cid : Cid} {status : Option String}
    (h : writeRecord env accounts did mstKey record createOnly swap validate =
      .ok (landed, cid, status)) :
    landed.did = did ∧ ∃ old new, Moves env accounts old new landed := by
  obtain ⟨user, _, h⟩ := bind_ok.mp h
  obtain ⟨_, _, h⟩ := bind_ok.mp h
  obtain ⟨_, _, h⟩ := bind_ok.mp h
  obtain ⟨⟨account, old⟩, hState, h⟩ := bind_ok.mp h
  obtain ⟨_, _, h⟩ := bind_ok.mp h
  obtain ⟨_, _, h⟩ := bind_ok.mp h
  obtain ⟨_, _, h⟩ := bind_ok.mp h
  obtain ⟨_, _, h⟩ := bind_ok.mp h
  obtain ⟨signer, _, h⟩ := bind_ok.mp h
  obtain ⟨⟨c, new⟩, hPut, h⟩ := bind_ok.mp h
  obtain ⟨l, hCommit, h⟩ := bind_ok.mp h
  cases h
  have hAdvances : isValidTid old.commit.rev = true → Advances old new :=
    fun hValid => putRecordJson_advances hValid (mapError_ok.mp hPut)
  obtain ⟨hDid, hMoves⟩ := commitRepoWrite_moves hState hAdvances hCommit
  exact ⟨hDid, old, new, hMoves⟩

theorem deleteRecord_moves {repo collection rkey : String} {swapCommit swapRecord : Option String}
    (h : deleteRecord env accounts repo collection rkey swapCommit swapRecord =
      .ok (some landed, response)) :
    resolveRepoDid env repo = .ok landed.did ∧ ∃ old new, Moves env accounts old new landed := by
  obtain ⟨did, hDid, h⟩ := bind_ok.mp h
  obtain ⟨user, _, h⟩ := bind_ok.mp h
  obtain ⟨_, _, h⟩ := bind_ok.mp h
  obtain ⟨_, _, h⟩ := bind_ok.mp h
  obtain ⟨⟨account, old⟩, hState, h⟩ := bind_ok.mp h
  obtain ⟨_, _, h⟩ := bind_ok.mp h
  obtain ⟨_, _, h⟩ := bind_ok.mp h
  obtain ⟨_, _, h⟩ := bind_ok.mp h
  dsimp only at h
  split at h
  · cases h
  · obtain ⟨signer, _, h⟩ := bind_ok.mp h
    obtain ⟨new, hDelete, h⟩ := bind_ok.mp h
    obtain ⟨l, hCommit, h⟩ := bind_ok.mp h
    cases h
    have hAdvances : isValidTid old.commit.rev = true → Advances old new :=
      fun hValid => deleteRecord_advances hValid (mapError_ok.mp hDelete)
    obtain ⟨rfl, hMoves⟩ := commitRepoWrite_moves hState hAdvances hCommit
    exact ⟨hDid, old, new, hMoves⟩

omit [CidText Cid] [LinearOrder Cid] in
/-- A batch of deletes that find nothing emits nothing. -/
theorem written_noops {ops : List WriteOp} {outcomes : List (WriteOutcome Cid)}
    (h : List.Forall₂ Noop ops outcomes) : written ops outcomes = [] := by
  induction h with
  | nil => rfl
  | @cons op o ops outcomes hNoop _ ih =>
    obtain ⟨hValue, hPrev⟩ := hNoop
    cases op with
    | create key value => cases hValue
    | update key value => cases hValue
    | delete key => simp [written_cons, ih, writtenOf, kindOf, hPrev]

theorem applyWrites_moves {repo : String} {writes : List WriteItem} {swapCommit : Option String}
    {validate : Option Bool}
    (h : applyWrites env accounts repo writes swapCommit validate = .ok (some landed, response)) :
    resolveRepoDid env repo = .ok landed.did ∧ ∃ old new, Moves env accounts old new landed := by
  obtain ⟨did, hDid, h⟩ := bind_ok.mp h
  obtain ⟨user, _, h⟩ := bind_ok.mp h
  obtain ⟨_, _, h⟩ := bind_ok.mp h
  obtain ⟨ws, hPrepared, h⟩ := bind_ok.mp h
  have hWs := prepareWrites_ok hPrepared
  obtain ⟨⟨account, old⟩, hState, h⟩ := bind_ok.mp h
  obtain ⟨_, _, h⟩ := bind_ok.mp h
  obtain ⟨_, _, h⟩ := bind_ok.mp h
  obtain ⟨signer, _, h⟩ := bind_ok.mp h
  obtain ⟨⟨outcomes, new⟩, hRan, h⟩ := bind_ok.mp h
  rw [Prepared.map_op hWs] at hRan
  dsimp only at h
  split at h
  · cases h
  · rename_i hEmitted
    obtain ⟨l, hCommit, h⟩ := bind_ok.mp h
    cases h
    have hAdvances : isValidTid old.commit.rev = true → Advances old new := by
      intro hValid
      rcases applyWrites_advances hValid (mapError_ok.mp hRan) with hMoved | ⟨_, hNoops⟩
      · exact hMoved
      · rw [emittedOps_eq hWs, written_noops hNoops] at hEmitted
        exact absurd rfl hEmitted
    obtain ⟨rfl, hMoves⟩ := commitRepoWrite_moves hState hAdvances hCommit
    exact ⟨hDid, old, new, hMoves⟩

theorem handle_moves {request : Request}
    (h : handle env accounts request = .ok (some landed, response)) :
    resolveRepoDid env request.repo = .ok landed.did ∧
      ∃ old new, Moves env accounts old new landed := by
  cases request with
  | createRecord repo collection rkey record swapCommit validate =>
    obtain ⟨did, hDid, h⟩ := bind_ok.mp h
    obtain ⟨_, _, h⟩ := bind_ok.mp h
    obtain ⟨⟨l, cid, status⟩, hWrite, h⟩ := bind_ok.mp h
    cases h
    obtain ⟨rfl, hMoves⟩ := writeRecord_moves hWrite
    exact ⟨hDid, hMoves⟩
  | putRecord repo collection rkey record swapCommit swapRecord validate =>
    obtain ⟨did, hDid, h⟩ := bind_ok.mp h
    obtain ⟨_, _, h⟩ := bind_ok.mp h
    obtain ⟨⟨l, cid, status⟩, hWrite, h⟩ := bind_ok.mp h
    cases h
    obtain ⟨rfl, hMoves⟩ := writeRecord_moves hWrite
    exact ⟨hDid, hMoves⟩
  | deleteRecord repo collection rkey swapCommit swapRecord => exact deleteRecord_moves h
  | applyWrites repo writes swapCommit validate => exact applyWrites_moves h

end Ezpds.Pds
