import Ezpds.Spaces.RepoOps

/-!
# The oplog of a space repository

The oplog is kept in the order of rowids, and in one repository the revs follow that order.
While the repository is neither dropped nor pruned, every commit appends its entries and
its rev rises, so that the entries appended since a head account for all that happened to
the set hash since then.

* `oplog_invariant`: the oplog of every reachable state.
* `since_invariant`: what a run has appended since a head.
-/

namespace Ezpds.Spaces

open Library Repo

variable {Cid : Type}

/-! ## The rows of one commit -/

/-- By how much an oplog entry changes the set hash. -/
def opWeight (crypto : SpaceCrypto) (op : SpaceRepoOpRow) : LtHash :=
  op.cid.elim 0 (fun cid => expand crypto (formatSetHashElement op.collection op.rkey cid)) -
    op.prev.elim 0 fun cid => expand crypto (formatSetHashElement op.collection op.rkey cid)

variable {env : SpaceEnv Cid} {call : WriteCall} {newRev : String} {idx : Nat}
  {es : List RecordEdit}

theorem opRow_weight {e : RecordEdit} :
    opWeight env.crypto (opRow call newRev idx e) = Edit.weightDelta (elementOf env.crypto) e := by
  cases e with
  | mk key prev next => cases prev <;> cases next <;> rfl

theorem opRows_weight :
    ((opRows call newRev idx es).map (opWeight env.crypto)).sum =
      (es.map (Edit.weightDelta (elementOf env.crypto))).sum := by
  induction es generalizing idx with
  | nil => rfl
  | cons e es ih =>
    rw [opRows, List.map_cons, List.map_cons, List.sum_cons, List.sum_cons, opRow_weight, ih]

theorem mem_opRows {op : SpaceRepoOpRow} (h : op ∈ opRows call newRev idx es) :
    op.repo = call.repo ∧ op.rev = newRev ∧ idx ≤ op.idx ∧ op.idx < idx + es.length := by
  induction es generalizing idx with
  | nil => cases h
  | cons e es ih =>
    rw [List.length_cons]
    rcases List.mem_cons.mp h with rfl | h
    · exact ⟨rfl, rfl, le_refl _, by simp only [opRow]; omega⟩
    · obtain ⟨hRepo, hRev, hLow, hHigh⟩ := ih h
      exact ⟨hRepo, hRev, by omega, by omega⟩

theorem opRows_sorted : (opRows call newRev idx es).Pairwise fun a b => a.idx < b.idx := by
  induction es generalizing idx with
  | nil => exact .nil
  | cons e es ih =>
    refine List.pairwise_cons.mpr ⟨?_, ih⟩
    intro op hop
    obtain ⟨_, _, hLow, _⟩ := mem_opRows hop
    show idx < op.idx
    omega

/-! ## The invariant -/

structure OplogWellFormed (db : Db) : Prop where
  idxs : db.ops.Pairwise fun a b => a.idx < b.idx
  bounded : ∀ op ∈ db.ops, op.idx < 2 ^ 63
  revs : ∀ repo, (repoOps db repo).Pairwise fun a b => a.rev ≤ b.rev
  heads : ∀ op ∈ db.ops, ∃ row, db.repos op.repo = some row ∧ op.rev ≤ row.rev
  validOps : ∀ op ∈ db.ops, isValidTid op.rev = true
  validHeads : ∀ repo row, db.repos repo = some row → isValidTid row.rev = true

theorem mem_repoOps {db : Db} {repo : RepoId} {op : SpaceRepoOpRow} :
    op ∈ repoOps db repo ↔ op ∈ db.ops ∧ op.repo = repo := by
  simp [repoOps]

/-- A step that only loses oplog rows, and the heads of none of the rows it keeps. -/
theorem wellFormed_of_sublist {db db' : Db} (h : OplogWellFormed db)
    (hOps : db'.ops.Sublist db.ops)
    (hKept : ∀ op ∈ db'.ops, db'.repos op.repo = db.repos op.repo)
    (hHeads : ∀ repo row, db'.repos repo = some row → db.repos repo = some row) :
    OplogWellFormed db' where
  idxs := h.idxs.sublist hOps
  bounded op hop := h.bounded op (hOps.subset hop)
  revs repo := (h.revs repo).sublist (hOps.filter _)
  heads op hop := by
    rw [hKept op hop]
    exact h.heads op (hOps.subset hop)
  validOps op hop := h.validOps op (hOps.subset hop)
  validHeads repo row hRow := h.validHeads repo row (hHeads repo row hRow)

/-- The rev of a commit is valid and not below the one of the head that it advances. -/
theorem startsFrom_rev {db : Db} {lthash : LtHash} (h : OplogWellFormed db)
    (hStart : StartsFrom env call db lthash newRev) :
    isValidTid newRev = true ∧ ∀ row, db.repos call.repo = some row →
      row.rev ≤ newRev ∧ (row.rev < newRev ↔ row.rev ≠ lastTid) := by
  cases hHead : db.repos call.repo with
  | none =>
    rw [StartsFrom, hHead] at hStart
    refine ⟨?_, ?_⟩
    · rw [hStart.2]
      exact isValidTid_encodeTid (nowTidInt_lt _)
    · intro row hRow
      cases hRow
  | some row =>
    rw [StartsFrom, hHead] at hStart
    obtain ⟨hValid, hAbove⟩ := nextCommitRev_above (h.validHeads _ _ hHead) hStart.2
    refine ⟨hValid, ?_⟩
    intro row' hRow
    cases hRow
    exact hAbove

/-- The entries of one commit, in the oplog of any repository. -/
theorem filter_opRows {repo : RepoId} :
    (opRows call newRev idx es).filter (fun op => op.repo = repo) =
      if repo = call.repo then opRows call newRev idx es else [] := by
  by_cases hRepo : repo = call.repo
  · rw [if_pos hRepo, List.filter_eq_self]
    intro op hop
    simpa [hRepo] using (mem_opRows hop).1
  · rw [if_neg hRepo, List.filter_eq_nil_iff]
    intro op hop
    simpa [(mem_opRows hop).1] using Ne.symm hRepo

section Commit

variable [CidText Cid] {lthash : LtHash} {db db' : Db}

theorem length_edits (h : Commits env call db lthash newRev es) :
    es.length = call.ops.length := by
  obtain ⟨ws, hws, hes⟩ := h.applied
  have hWrites := congrArg List.length (applyBatch_follows hes)
  rw [List.length_map, List.length_map] at hWrites
  rw [hWrites, (mapM_ok.mp hws).length_eq]

/-- A commit that keeps records appends its entries. -/
theorem repoOps_commit (h : LandsCommit env call lthash newRev es db db')
    (hKept : keepsRecords call db es = true) (repo : RepoId) :
    repoOps db' repo = repoOps db repo ++
      if repo = call.repo then opRows call newRev (maxRowid db.ops + 1) es else [] := by
  rw [repoOps, h.ops, committedDb_ops, if_pos hKept, List.filter_append, filter_opRows]
  rfl

theorem wellFormed_commit (hDb : OplogWellFormed db)
    (h : LandsCommit env call lthash newRev es db db') : OplogWellFormed db' := by
  obtain ⟨hNewRev, hAbove⟩ := startsFrom_rev hDb h.commits.head
  have hRepos := h.repos
  have hOps := h.ops
  rw [committedDb_repos] at hRepos
  rw [committedDb_ops] at hOps
  by_cases hKept : keepsRecords call db es = true
  · rw [if_pos hKept] at hRepos hOps
    have hIdx : ∀ op ∈ db.ops, op.idx ≤ maxRowid db.ops := fun _ => le_maxRowid
    have hHead : db'.repos call.repo =
        some ⟨newRev, LtHash.state (foldedHash env lthash es)⟩ := by
      rw [hRepos, Function.update_self]
    refine ⟨?_, ?_, ?_, ?_, ?_, ?_⟩
    · rw [hOps]
      refine List.pairwise_append.mpr ⟨hDb.idxs, opRows_sorted, ?_⟩
      intro a ha b hb
      have hLow := (mem_opRows hb).2.2.1
      have hMax := hIdx a ha
      omega
    · intro op hop
      rw [hOps] at hop
      rcases List.mem_append.mp hop with hop | hop
      · exact hDb.bounded op hop
      · obtain ⟨_, _, _, hHigh⟩ := mem_opRows hop
        have hLeft := h.commits.rowids
        have hLength := length_edits h.commits
        rw [RowidsLeft] at hLeft
        omega
    · intro repo
      rw [repoOps_commit h hKept]
      refine List.pairwise_append.mpr ⟨hDb.revs repo, ?_, ?_⟩
      · split
        · apply opRows_sorted.imp_of_mem
          intro a b ha hb _
          rw [(mem_opRows ha).2.1, (mem_opRows hb).2.1]
        · exact .nil
      · intro a ha b hb
        obtain ⟨haMem, haRepo⟩ := mem_repoOps.mp ha
        split at hb
        · rename_i hRepo
          obtain ⟨row, hRow, hRev⟩ := hDb.heads a haMem
          rw [haRepo, hRepo] at hRow
          rw [(mem_opRows hb).2.1]
          exact hRev.trans (hAbove row hRow).1
        · cases hb
    · intro op hop
      rw [hOps] at hop
      rcases List.mem_append.mp hop with hop | hop
      · obtain ⟨row, hRow, hRev⟩ := hDb.heads op hop
        by_cases hRepo : op.repo = call.repo
        · rw [hRepo] at hRow ⊢
          exact ⟨_, hHead, hRev.trans (hAbove row hRow).1⟩
        · exact ⟨row, by rw [hRepos, Function.update_of_ne hRepo, hRow], hRev⟩
      · obtain ⟨hRepo, hRev, _⟩ := mem_opRows hop
        rw [hRepo]
        exact ⟨_, hHead, by rw [hRev]⟩
    · intro op hop
      rw [hOps] at hop
      rcases List.mem_append.mp hop with hop | hop
      · exact hDb.validOps op hop
      · rw [(mem_opRows hop).2.1]
        exact hNewRev
    · intro repo row hRow
      by_cases hRepo : repo = call.repo
      · rw [hRepo, hHead] at hRow
        cases hRow
        exact hNewRev
      · rw [hRepos, Function.update_of_ne hRepo] at hRow
        exact hDb.validHeads repo row hRow
  · rw [if_neg hKept] at hRepos hOps
    refine wellFormed_of_sublist hDb ?_ ?_ ?_
    · rw [hOps]
      exact List.filter_sublist
    · intro op hop
      rw [hOps] at hop
      have hRepo : op.repo ≠ call.repo := by simpa using (List.mem_filter.mp hop).2
      rw [hRepos, Function.update_of_ne hRepo]
    · intro repo row hRow
      by_cases hRepo : repo = call.repo
      · rw [hRepo, hRepos, Function.update_self] at hRow
        cases hRow
      · rwa [hRepos, Function.update_of_ne hRepo] at hRow

theorem wellFormed_step {host host' : Host} {label : HostLabel}
    (hDb : OplogWellFormed host.db) (h : hostStep env host label = some host') :
    OplogWellFormed host'.db := by
  rcases hostStep_repos h with hSame | ⟨call, lthash, newRev, es, _, hLands⟩ | ⟨p, hDrops⟩ |
    ⟨cutoff, _, hSweep⟩
  · refine wellFormed_of_sublist hDb ?_ ?_ ?_
    · rw [hSame.ops]
    · intro op _
      rw [hSame.repos]
    · intro repo row hRow
      rwa [hSame.repos] at hRow
  · exact wellFormed_commit hDb hLands
  · refine wellFormed_of_sublist hDb ?_ ?_ ?_
    · rw [hDrops.ops]
      exact List.filter_sublist
    · intro op hop
      rw [hDrops.ops] at hop
      have hp : p op.repo = false := by simpa using (List.mem_filter.mp hop).2
      rw [hDrops.repos, if_neg (by simp [hp])]
    · intro repo row hRow
      rw [hDrops.repos] at hRow
      split at hRow
      · cases hRow
      · exact hRow
  · rw [hSweep]
    exact wellFormed_of_sublist hDb List.filter_sublist (fun _ _ => rfl) fun _ _ hRow => hRow

/-- The oplog of every reachable state is in rowid order, with revs that follow it. -/
theorem oplog_invariant {accounts : String → Option AccountLifecycle}
    {labels : List HostLabel} {host : Host}
    (h : run (hostStep env) (newHost accounts) labels = some host) :
    OplogWellFormed host.db := by
  have hInit : OplogWellFormed (newHost accounts).db :=
    ⟨.nil, by simp [newHost], fun _ => .nil, by simp [newHost], by simp [newHost],
      by simp [newHost]⟩
  exact @run_invariant _ _ _ (fun host => OplogWellFormed host.db)
    (fun _ _ _ hs hStep => wellFormed_step hs hStep) _ _ _ hInit h

/-! ## What happened since a head -/

/-- The step neither drops the repository nor prunes its oplog. -/
def Retains (env : SpaceEnv Cid) (repo : RepoId) (host : Host) (label : HostLabel) : Prop :=
  ∀ host', hostStep env host label = some host' →
    (host'.db.repos repo).isSome = true ∧ ∀ op ∈ repoOps host.db repo, op ∈ host'.db.ops

/-- The entries `new` were appended to `old` since the head had the rev `rev` and the set hash
`lthash`. -/
structure OpsSince (crypto : SpaceCrypto) (repo : RepoId) (old : List SpaceRepoOpRow)
    (rev : String) (lthash : LtHash) (new : List SpaceRepoOpRow) (db : Db) : Prop where
  ops : repoOps db repo = old ++ new
  head : ∃ row, db.repos repo = some row ∧ rev ≤ row.rev
  hash : (db.records repo).weight (elementOf crypto) =
    lthash + (new.map (opWeight crypto)).sum
  later : ∀ op ∈ new, rev ≤ op.rev ∧ (rev ≠ lastTid → rev < op.rev)

/-- A commit to another repository. -/
theorem repoOps_commit_other (h : LandsCommit env call lthash newRev es db db') {repo : RepoId}
    (hRepo : repo ≠ call.repo) : repoOps db' repo = repoOps db repo := by
  by_cases hKept : keepsRecords call db es = true
  · rw [repoOps_commit h hKept, if_neg hRepo, List.append_nil]
  · rw [repoOps, h.ops, committedDb_ops, if_neg hKept, List.filter_filter, repoOps]
    apply List.filter_congr
    intro op _
    by_cases hOp : op.repo = repo
    · simp [hOp, hRepo]
    · simp [hOp]

/-- A commit that keeps records appends its edits, under a rev above the head's. -/
theorem since_commit {repo : RepoId} {old new : List SpaceRepoOpRow} {rev : String}
    {base : LtHash} (hDb : OplogWellFormed db) (hRepo : repo = call.repo)
    (hSince : OpsSince env.crypto repo old rev base new db)
    (h : LandsCommit env call lthash newRev es db db')
    (hKept : keepsRecords call db es = true) :
    OpsSince env.crypto repo old rev base
      (new ++ opRows call newRev (maxRowid db.ops + 1) es) db' := by
  obtain ⟨row, hRow, hRev⟩ := hSince.head
  obtain ⟨ws, _, hes⟩ := h.commits.applied
  have hBelow := (startsFrom_rev hDb h.commits.head).2 row (hRepo ▸ hRow)
  refine ⟨?_, ?_, ?_, ?_⟩
  · rw [repoOps_commit h hKept, if_pos hRepo, hSince.ops, List.append_assoc]
  · refine ⟨⟨newRev, LtHash.state (foldedHash env lthash es)⟩, ?_, hRev.trans hBelow.1⟩
    rw [h.repos, committedDb_repos, if_pos hKept, hRepo, Function.update_self]
  · rw [h.records, committedDb_records, hRepo, Function.update_self,
      Edit.weight_applyAll (applyBatch_chained hes), ← hRepo, hSince.hash, List.map_append,
      List.sum_append, opRows_weight, add_assoc]
  · intro op hop
    rcases List.mem_append.mp hop with hop | hop
    · exact hSince.later op hop
    · rw [(mem_opRows hop).2.1]
      refine ⟨hRev.trans hBelow.1, ?_⟩
      intro hNe
      by_cases hLast : row.rev = lastTid
      · exact lt_of_lt_of_le (lt_of_le_of_ne hRev (hLast ▸ hNe)) hBelow.1
      · exact lt_of_le_of_lt hRev (hBelow.2.mpr hLast)

/-- Nothing happened to the repository `repo`. -/
structure SameRepo (repo : RepoId) (db db' : Db) : Prop where
  ops : repoOps db' repo = repoOps db repo
  head : db'.repos repo = db.repos repo
  records : db'.records repo = db.records repo

/-- A step that keeps a repository and its oplog leaves it alone or lands a commit on it. -/
theorem retained_step {host host' : Host} {label : HostLabel} {repo : RepoId}
    (hRetains : Retains env repo host label) (h : hostStep env host label = some host') :
    SameRepo repo host.db host'.db ∨
      ∃ call lthash newRev es, label = .write call ∧ repo = call.repo ∧
        LandsCommit env call lthash newRev es host.db host'.db ∧
        keepsRecords call host.db es = true := by
  obtain ⟨hHead, hOps⟩ := hRetains host' h
  rcases hostStep_repos h with hIdle | ⟨call, lthash, newRev, es, hLabel, hLands⟩ |
    ⟨p, hDrops⟩ | ⟨cutoff, _, hSweep⟩
  · left
    refine ⟨?_, ?_, ?_⟩
    · rw [repoOps, hIdle.ops, repoOps]
    · rw [hIdle.repos]
    · rw [hIdle.records]
  · by_cases hRepo : repo = call.repo
    · right
      refine ⟨call, lthash, newRev, es, hLabel, hRepo, hLands, ?_⟩
      by_contra hGone
      rw [hLands.repos, committedDb_repos, if_neg hGone, hRepo, Function.update_self] at hHead
      cases hHead
    · left
      refine ⟨repoOps_commit_other hLands hRepo, ?_, ?_⟩
      · rw [hLands.repos, committedDb_repos, Function.update_of_ne hRepo]
      · rw [hLands.records, committedDb_records, Function.update_of_ne hRepo]
  · have hp : p repo = false := by
      by_contra hDropped
      rw [hDrops.repos, if_pos (by simpa using hDropped)] at hHead
      cases hHead
    left
    refine ⟨?_, ?_, ?_⟩
    · rw [repoOps, hDrops.ops, List.filter_filter, repoOps]
      apply List.filter_congr
      intro op _
      by_cases hOp : op.repo = repo
      · simp [hOp, hp]
      · simp [hOp]
    · rw [hDrops.repos, if_neg (by simp [hp])]
    · rw [hDrops.records, if_neg (by simp [hp])]
  · left
    rw [hSweep] at hOps ⊢
    refine ⟨?_, rfl, rfl⟩
    rw [repoOps, sweepOldRepoOps, List.filter_filter, repoOps]
    apply List.filter_congr
    intro op hop
    by_cases hOp : op.repo = repo
    · have hKept := (List.mem_filter.mp (hOps op (mem_repoOps.mpr ⟨hop, hOp⟩))).2
      simpa [hOp] using hKept
    · simp [hOp]

theorem since_step {host host' : Host} {label : HostLabel} {repo : RepoId}
    {old new : List SpaceRepoOpRow} {rev : String} {base : LtHash}
    (hDb : OplogWellFormed host.db) (hRetains : Retains env repo host label)
    (hSince : OpsSince env.crypto repo old rev base new host.db)
    (h : hostStep env host label = some host') :
    ∃ new', OpsSince env.crypto repo old rev base (new ++ new') host'.db := by
  rcases retained_step hRetains h with hSame | ⟨call, lthash, newRev, es, _, hRepo, hLands, hKept⟩
  · refine ⟨[], ?_⟩
    rw [List.append_nil]
    exact ⟨hSame.ops.trans hSince.ops, hSame.head ▸ hSince.head, hSame.records ▸ hSince.hash,
      hSince.later⟩
  · exact ⟨_, since_commit hDb hRepo hSince hLands hKept⟩

/-- Over a run that keeps the repository and its oplog, the set hash changes by the entries
that were appended, and these have later revs unless the run started from the last TID. -/
theorem since_invariant {host host' : Host} {labels : List HostLabel} {repo : RepoId}
    {row : SpaceRepoRow} (hDb : OplogWellFormed host.db) (hHead : host.db.repos repo = some row)
    (hRetains : Along (hostStep env) (Retains env repo) host labels)
    (h : run (hostStep env) host labels = some host') :
    ∃ new, OpsSince env.crypto repo (repoOps host.db repo) row.rev
      ((host.db.records repo).weight (elementOf env.crypto)) new host'.db := by
  have hInit : OpsSince env.crypto repo (repoOps host.db repo) row.rev
      ((host.db.records repo).weight (elementOf env.crypto)) [] host.db :=
    ⟨by simp, ⟨row, hHead, le_refl _⟩, by simp, by simp⟩
  have hRun := @run_invariant_along _ _ _ _
    (fun host' => OplogWellFormed host'.db ∧ ∃ new, OpsSince env.crypto repo
      (repoOps host.db repo) row.rev ((host.db.records repo).weight (elementOf env.crypto)) new
      host'.db)
    ?_ _ _ _ ⟨hDb, [], hInit⟩ hRetains h
  · exact hRun.2
  · intro s label t hs hG hStep
    obtain ⟨hWf, new, hSince⟩ := hs
    obtain ⟨new', hSince'⟩ := since_step hWf hG hSince hStep
    exact ⟨wellFormed_step hWf hStep, new ++ new', hSince'⟩

end Commit

end Ezpds.Spaces
