import Ezpds.Spaces.Oplog

/-!
# Syncing from the oplog

A syncer that holds the set hash of a past head asks for the entries since that head's rev,
follows the cursors and folds each entry into the hash, up to the page that carries a
signed commit.

* `oplog_complete_iff`: it arrives at the head, except when it starts from the last TID.
* `atHead_consistent`: the commit of a page is the state that the page's entries lead to,
  when no commit lands between the two reads of the request.
-/

namespace Ezpds.Spaces

open Library Repo

variable {Cid : Type}

/-- Takes the entry's superseded record out of the set hash and puts the new one in. -/
def foldEntry (crypto : SpaceCrypto) (lthash : LtHash) (op : OpFields) : LtHash :=
  let lthash := match op.prev with
    | some prev =>
      LtHash.remove crypto lthash (formatSetHashElement op.collection op.rkey prev)
    | none => lthash
  match op.cid with
  | some cid => LtHash.add crypto lthash (formatSetHashElement op.collection op.rkey cid)
  | none => lthash

/-- Follows the cursors, for at most `fuel` pages; the commit is the last page's. -/
def followRepoOps [CidText Cid] (env : SpaceEnv Cid) (db : Db) :
    Nat → ListOpsCall → Except ApiError (List OpEntry × Option SignedCommit)
  | 0, _ => .ok ([], none)
  | fuel + 1, call => do
    let response ← spaceListRepoOps env call db db
    match response.cursor with
    | some cursor =>
      let (ops, commit) ← followRepoOps env db fuel { call with cursor := some cursor }
      return (response.ops ++ ops, commit)
    | none => return (response.ops, response.commit)

/-! ## Folding entries -/

theorem foldEntry_opFields {crypto : SpaceCrypto} {lthash : LtHash} {op : SpaceRepoOpRow} :
    foldEntry crypto lthash (opFields op) = lthash + opWeight crypto op := by
  cases op with
  | mk idx repo rev collection rkey cid prev createdAt =>
    cases prev with
    | none => cases cid <;> simp [foldEntry, opFields, opWeight]
    | some old =>
      cases cid with
      | none => simp [foldEntry, opFields, opWeight, sub_eq_add_neg]
      | some new =>
        simp only [foldEntry, opFields, opWeight, LtHash.add_eq, LtHash.remove_eq,
          Option.elim_some]
        abel

theorem foldl_foldEntry {crypto : SpaceCrypto} {lthash : LtHash} {ops : List SpaceRepoOpRow} :
    (ops.map opFields).foldl (foldEntry crypto) lthash =
      lthash + (ops.map (opWeight crypto)).sum := by
  induction ops generalizing lthash with
  | nil => simp
  | cons op ops ih =>
    rw [List.map_cons, List.foldl_cons, ih, foldEntry_opFields, List.map_cons, List.sum_cons,
      add_assoc]

/-! ## Following the cursors -/

/-- The request is let in, its reads succeed and the signing key is there. -/
structure ListOpsCall.Served (call : ListOpsCall) : Prop where
  authenticate : call.authenticate = .ok ()
  headRead : call.headRead = true
  opsRead : call.opsRead = true
  signingKey : call.signingKey = .ok ()

theorem keyedBy_repoOps {db : Db} (h : OplogWellFormed db) (repo : RepoId) :
    KeyedBy opPosition (repoOps db repo) := by
  have hIdxs : (repoOps db repo).Pairwise fun a b => a.idx < b.idx := h.idxs.filter _
  apply (hIdxs.and (h.revs repo)).imp
  intro a b hab
  apply opPosition_lt_iff.mpr
  rcases lt_or_eq_of_le hab.2 with hLt | hEq
  · exact Or.inl hLt
  · exact Or.inr ⟨hEq, hab.1⟩

theorem pageLimit_pos (limit : Option Int) : 0 < pageLimit limit := by
  rw [pageLimit]
  omega

theorem signCurrentCommit_ok {crypto : SpaceCrypto} {signingKey : Except ApiError Unit}
    {row : SpaceRepoRow} {commit : SignedCommit} :
    signCurrentCommit crypto signingKey row = .ok commit ↔
      ∃ lthash, LtHash.fromState row.lthashState = .ok lthash ∧ signingKey = .ok () ∧
        commit = ⟨row.rev, LtHash.digest crypto lthash⟩ := by
  unfold signCurrentCommit
  rw [bind_ok]
  constructor
  · intro h
    obtain ⟨lthash, hState, h⟩ := h
    obtain ⟨_, hKey, h⟩ := bind_ok.mp h
    exact ⟨lthash, mapError_ok.mp hState, hKey, pure_ok.mp h⟩
  · intro h
    obtain ⟨lthash, hState, hKey, hCommit⟩ := h
    exact ⟨lthash, mapError_ok.mpr hState, bind_ok.mpr ⟨(), hKey, pure_ok.mpr hCommit⟩⟩

section Follow

variable [CidText Cid] {env : SpaceEnv Cid} {db : Db} {call : ListOpsCall}

/-- The position filter that a request asks for. -/
def Positioned (call : ListOpsCall) (p : SpaceRepoOpRow → Bool) : Prop :=
  ∃ after, parsedCursor call = .ok after ∧
    p = afterPosition (if after.isSome then none else call.since) after

theorem positioned_cursor (h : OplogWellFormed db) {op : SpaceRepoOpRow} (hop : op ∈ db.ops) :
    Positioned { call with cursor := some (cursorOf op) } (above opPosition (opPosition op)) := by
  have hCursor := parseCursor_cursorOf (slash_notMem_of_isValidTid (h.validOps op hop))
    (h.bounded op hop)
  refine ⟨some (op.rev, (op.idx : Int)), ?_, ?_⟩
  · show (parseCursor (cursorOf op)).map some = _
    rw [hCursor]
    rfl
  · exact (afterPosition_cursor op).symm

theorem selectedRows_eq (h : OplogWellFormed db) {after : Option (String × Int)} :
    selectedRows call db after =
      (page (repoOps db call.id)
        (afterPosition (if after.isSome then none else call.since) after)
        (pageLimit call.limit)).map fun op =>
          ⟨op, if call.excludeValues then none else currentValue db op⟩ :=
  listRepoOps_eq (keyedBy_repoOps h call.id)

/-- The entries of a page are those of the oplog rows that it holds. -/
theorem page_entries (h : OplogWellFormed db) {after : Option (String × Int)}
    {ops : List OpEntry} (hOps : (selectedRows call db after).mapM (opEntry env) = .ok ops) :
    ops.map OpEntry.fields =
      (page (repoOps db call.id)
        (afterPosition (if after.isSome then none else call.since) after)
        (pageLimit call.limit)).map opFields := by
  rw [map_of_mapM_ok (fun _ _ => opEntry_fields) hOps, selectedRows_eq h, List.map_map]
  rfl

/-- The pages that a request leads to are the pages of the oplog from its position on. -/
theorem follow_pages [LawfulCidText Cid] (hCodec : env.codec.Lawful) (h : OplogWellFormed db)
    (hStored : RecordsStored env db) {row : SpaceRepoRow} {lthash : LtHash}
    (hHead : db.repos call.id = some row)
    (hState : LtHash.fromState row.lthashState = .ok lthash) {fuel : Nat}
    {p : SpaceRepoOpRow → Bool} {rows : List SpaceRepoOpRow} (hServed : call.Served)
    (hPosition : Positioned call p)
    (hPages : pages opPosition (repoOps db call.id) (pageLimit call.limit) fuel p =
      some rows) :
    ∃ entries, followRepoOps env db fuel call =
        .ok (entries, some ⟨row.rev, LtHash.digest env.crypto lthash⟩) ∧
      entries.map OpEntry.fields = rows.map opFields := by
  induction fuel generalizing call p rows with
  | zero => cases hPages
  | succ fuel ih =>
    obtain ⟨after, hAfter, rfl⟩ := hPosition
    obtain ⟨ops, hOps⟩ : ∃ ops, (selectedRows call db after).mapM (opEntry env) = .ok ops := by
      apply exists_mapM_ok
      intro selected hSelected
      rw [selectedRows_eq h] at hSelected
      obtain ⟨op, _, rfl⟩ := List.mem_map.mp hSelected
      exact exists_opEntry hCodec hStored
    have hEntries := page_entries h hOps
    have hLength : (selectedRows call db after).length =
        (page (repoOps db call.id)
          (afterPosition (if after.isSome then none else call.since) after)
          (pageLimit call.limit)).length := by
      rw [selectedRows_eq h, List.length_map]
    rw [pages] at hPages
    by_cases hShort : (selectedRows call db after).length < pageLimit call.limit
    · have hResponse : spaceListRepoOps env call db db =
          .ok ⟨ops, some ⟨row.rev, LtHash.digest env.crypto lthash⟩, none⟩ := by
        refine spaceListRepoOps_ok.mpr ⟨hServed.authenticate, hServed.headRead,
          hServed.opsRead, row, after, ops, hHead, hAfter, hOps, ?_⟩
        rw [if_pos hShort]
        exact ⟨_, signCurrentCommit_ok.mpr ⟨lthash, hState, hServed.signingKey, rfl⟩, rfl⟩
      rw [← hLength, if_pos hShort] at hPages
      cases hPages
      refine ⟨ops, ?_, hEntries⟩
      rw [followRepoOps, hResponse]
      rfl
    · rw [← hLength, if_neg hShort] at hPages
      split at hPages
      · cases hPages
      · rename_i last hLast
        obtain ⟨rest, hRest, rfl⟩ := Option.map_eq_some_iff.mp hPages
        have hMem : last ∈ db.ops := by
          have hPage := List.mem_of_mem_take (List.mem_of_getLast? hLast)
          exact (mem_repoOps.mp (List.mem_filter.mp hPage).1).1
        obtain ⟨entries, hFollow, hFields⟩ : ∃ entries,
            followRepoOps env db fuel { call with cursor := some (cursorOf last) } =
              .ok (entries, some ⟨row.rev, LtHash.digest env.crypto lthash⟩) ∧
            entries.map OpEntry.fields = rest.map opFields :=
          @ih { call with cursor := some (cursorOf last) } hHead _ _
            ⟨hServed.authenticate, hServed.headRead, hServed.opsRead, hServed.signingKey⟩
            (positioned_cursor h hMem) hRest
        have hCursor : (selectedRows call db after).getLast?.map (fun row => cursorOf row.op) =
            some (cursorOf last) := by
          rw [selectedRows_eq h, List.getLast?_map, hLast]
          rfl
        have hResponse : spaceListRepoOps env call db db =
            .ok ⟨ops, none, some (cursorOf last)⟩ := by
          refine spaceListRepoOps_ok.mpr ⟨hServed.authenticate, hServed.headRead,
            hServed.opsRead, row, after, ops, hHead, hAfter, hOps, ?_⟩
          rw [if_neg hShort, hCursor]
        refine ⟨ops ++ entries, ?_, ?_⟩
        · rw [followRepoOps, hResponse]
          show (do
            let (ops', commit) ← followRepoOps env db fuel
              { call with cursor := some (cursorOf last) }
            return (ops ++ ops', commit)) = _
          rw [hFollow]
          rfl
        · rw [List.map_append, List.map_append, hEntries, hFields]

end Follow

/-! ## Arriving at the head -/

section Complete

variable [CidText Cid] {env : SpaceEnv Cid} {call : ListOpsCall}

/-- No row that was there at a head comes after the head's rev. -/
theorem old_not_after {db : Db} (h : OplogWellFormed db) {repo : RepoId} {row : SpaceRepoRow}
    (hHead : db.repos repo = some row) {op : SpaceRepoOpRow} (hop : op ∈ repoOps db repo) :
    op.rev ≤ row.rev := by
  obtain ⟨hMem, hRepo⟩ := mem_repoOps.mp hop
  obtain ⟨row', hRow, hRev⟩ := h.heads op hMem
  rw [hRepo, hHead] at hRow
  cases hRow
  exact hRev

omit [CidText Cid] in
/-- The rows after the rev of a past head are those appended since, unless that rev is the
last TID, which none comes after. -/
theorem filter_since {host host' : Host} {repo : RepoId} {row : SpaceRepoRow} {base : LtHash}
    {new : List SpaceRepoOpRow} (h : OplogWellFormed host.db) (h' : OplogWellFormed host'.db)
    (hHead : host.db.repos repo = some row)
    (hSince : OpsSince env.crypto repo (repoOps host.db repo) row.rev base new host'.db) :
    (repoOps host'.db repo).filter (afterPosition (some row.rev) none) =
      if row.rev = lastTid then [] else new := by
  have hOld : (repoOps host.db repo).filter (afterPosition (some row.rev) none) = [] := by
    apply List.filter_eq_nil_iff.mpr
    intro op hop
    rw [afterPosition_since, decide_eq_true_eq, not_lt]
    exact old_not_after h hHead hop
  rw [hSince.ops, List.filter_append, hOld, List.nil_append]
  by_cases hLast : row.rev = lastTid
  · rw [if_pos hLast, List.filter_eq_nil_iff]
    intro op hop
    have hMem : op ∈ repoOps host'.db repo := by
      rw [hSince.ops]
      exact List.mem_append_right _ hop
    have hValid := h'.validOps op (mem_repoOps.mp hMem).1
    rw [hLast, afterPosition_since, decide_eq_true_eq, not_lt]
    exact le_lastTid hValid
  · rw [if_neg hLast, List.filter_eq_self]
    intro op hop
    rw [afterPosition_since, decide_eq_true_eq]
    exact (hSince.later op hop).2 hLast

/-- A syncer that starts from a past head of a repository whose oplog is retained since
reaches the current head. It is given every entry appended since, in order and once each,
and folds them into the digest of the head, exactly when the head that it starts from does
not carry the last TID, or nothing was appended since. -/
theorem oplog_complete_iff [LawfulCidText Cid] (hCodec : env.codec.Lawful)
    {accounts : String → Option AccountLifecycle} {before labels : List HostLabel}
    {host host' : Host} {row : SpaceRepoRow} {fuel : Nat}
    (hBefore : run (hostStep env) (newHost accounts) before = some host)
    (hHead : host.db.repos call.id = some row)
    (hRun : run (hostStep env) host labels = some host')
    (hRetains : Along (hostStep env) (Retains env call.id) host labels)
    (hServed : call.Served) (hSince : call.since = some row.rev) (hCursor : call.cursor = none)
    (hFuel : (repoOps host'.db call.id).length < fuel) :
    ∃ base row' lthash' entries, LtHash.fromState row.lthashState = .ok base ∧
      host'.db.repos call.id = some row' ∧
      LtHash.fromState row'.lthashState = .ok lthash' ∧
      followRepoOps env host'.db fuel call =
        .ok (entries, some ⟨row'.rev, LtHash.digest env.crypto lthash'⟩) ∧
      (entries.map OpEntry.fields =
            ((repoOps host'.db call.id).drop (repoOps host.db call.id).length).map opFields ∧
          LtHash.digest env.crypto
              ((entries.map OpEntry.fields).foldl (foldEntry env.crypto) base) =
            LtHash.digest env.crypto lthash' ↔
        row.rev ≠ lastTid ∨ repoOps host'.db call.id = repoOps host.db call.id) := by
  have hAll : run (hostStep env) (newHost accounts) (before ++ labels) = some host' :=
    run_append_some.mpr ⟨host, hBefore, hRun⟩
  have hDb := oplog_invariant hBefore
  have hDb' := oplog_invariant hAll
  obtain ⟨new, hNew⟩ := since_invariant hDb hHead hRetains hRun
  obtain ⟨row', hHead', _⟩ := hNew.head
  have hBase := fromState_head (digested_run hBefore) hHead
  have hState' := fromState_head (digested_run hAll) hHead'
  have hPosition : Positioned call (afterPosition (some row.rev) none) := by
    refine ⟨none, ?_, ?_⟩
    · rw [parsedCursor, hCursor]
    · rw [← hSince]
      rfl
  have hShorter : ((repoOps host'.db call.id).filter (afterPosition (some row.rev) none)).length <
      fuel := lt_of_le_of_lt (List.length_filter_le _ _) hFuel
  obtain ⟨entries, hFollow, hFields⟩ := follow_pages hCodec hDb' (stored_invariant hAll) hHead'
    hState' hServed hPosition (pages_eq (keyedBy_repoOps hDb' call.id) upwardClosed_since
      (pageLimit_pos call.limit) hShorter)
  rw [filter_since hDb hDb' hHead hNew] at hFields
  have hDrop : (repoOps host'.db call.id).drop (repoOps host.db call.id).length = new := by
    rw [hNew.ops, List.drop_left]
  refine ⟨_, row', _, entries, hBase, hHead', hState', hFollow, ?_⟩
  rw [hDrop, hFields]
  constructor
  · intro h
    by_cases hLast : row.rev = lastTid
    · rw [if_pos hLast] at h
      have hNil : new = [] := List.map_eq_nil_iff.mp h.1.symm
      right
      rw [hNew.ops, hNil, List.append_nil]
    · exact Or.inl hLast
  · intro h
    have hRows : (if row.rev = lastTid then [] else new) = new := by
      rcases h with hNe | hSame
      · rw [if_neg hNe]
      · have hNil : new = [] := by
          rw [hNew.ops] at hSame
          simpa using hSame
        rw [hNil, ite_self]
    rw [hRows, foldl_foldEntry, hNew.hash]
    exact ⟨rfl, rfl⟩

/-! ## The commit of a page -/

/-- The label is not a write to the repository that commits. -/
def NoCommit (env : SpaceEnv Cid) (repo : RepoId) (host : Host) (label : HostLabel) : Prop :=
  ∀ write, label = .write write → write.repo = repo →
    ∀ out, (applySpaceWrites env write host.db).2 ≠ .ok out

/-- The request continues after the entries `held`, which were read since a head with the rev
`rev`. -/
def Resumes (call : ListOpsCall) (rev : String) (held : List SpaceRepoOpRow) : Prop :=
  match held.getLast? with
  | none => call.cursor = none ∧ call.since = some rev
  | some last => call.cursor = some (cursorOf last)

/-- While no commit to it lands, a repository that is kept stays as it is. -/
theorem repoOps_of_noCommit {host host' : Host} {labels : List HostLabel} {repo : RepoId}
    (hQuiet : Along (hostStep env)
      (fun host label => NoCommit env repo host label ∧ Retains env repo host label) host labels)
    (h : run (hostStep env) host labels = some host') :
    repoOps host'.db repo = repoOps host.db repo := by
  refine @run_invariant_along _ _ _ _
    (fun host' => repoOps host'.db repo = repoOps host.db repo) ?_ _ _ _ rfl hQuiet h
  intro s label t hs hG hStep
  obtain ⟨hNoCommit, hRetains⟩ := hG
  rcases retained_step hRetains hStep with hSame | ⟨write, _, _, _, hLabel, hRepo, hLands, _⟩
  · rw [hSame.ops, hs]
  · obtain ⟨out, hOut⟩ := hLands.succeeds
    exact absurd hOut (hNoCommit write hLabel hRepo.symm out)

omit [CidText Cid] in
/-- Where the request resumes in an oplog `old ++ held ++ rest`. -/
theorem filter_resumes {host host' : Host} {row : SpaceRepoRow} {base : LtHash}
    {held rest : List SpaceRepoOpRow} (h : OplogWellFormed host.db)
    (h' : OplogWellFormed host'.db) (hHead : host.db.repos call.id = some row)
    (hSince : OpsSince env.crypto call.id (repoOps host.db call.id) row.rev base (held ++ rest)
      host'.db)
    (hResumes : Resumes call row.rev held)
    (hStart : row.rev ≠ lastTid ∨ held ≠ [] ∨ rest = []) :
    ∃ p, Positioned call p ∧ (repoOps host'.db call.id).filter p = rest := by
  rcases List.eq_nil_or_concat' held with rfl | ⟨init, last, rfl⟩
  · obtain ⟨hCursor, hRev⟩ := hResumes
    refine ⟨afterPosition (some row.rev) none, ⟨none, ?_, ?_⟩, ?_⟩
    · rw [parsedCursor, hCursor]
    · rw [← hRev]
      rfl
    · rw [filter_since h h' hHead hSince]
      by_cases hLast : row.rev = lastTid
      · rw [if_pos hLast]
        rcases hStart with hNe | hNe | rfl
        · exact absurd hLast hNe
        · exact absurd rfl hNe
        · rfl
      · rw [if_neg hLast, List.nil_append]
  · rw [Resumes, List.getLast?_concat] at hResumes
    have hOps : repoOps host'.db call.id =
        ((repoOps host.db call.id ++ init) ++ [last]) ++ rest := by
      rw [hSince.ops]
      simp
    have hMem : last ∈ host'.db.ops := by
      have hLast : last ∈ repoOps host'.db call.id := by
        rw [hOps]
        simp
      exact (mem_repoOps.mp hLast).1
    have hPosition := @positioned_cursor _ call h' last hMem
    rw [← hResumes] at hPosition
    refine ⟨_, hPosition, ?_⟩
    have hKeyed := keyedBy_repoOps h' call.id
    rw [hOps] at hKeyed ⊢
    exact filter_above_of_split hKeyed

/-- A syncer folded the entries `held` into the set hash of a past head and asks for what
follows. When its request reads the head at `host₀` and the page at `host₁`, and no commit
to the repository lands in between, then a response that carries a signed commit holds all
the entries up to that commit and no other, and folding them arrives at its hash. -/
theorem atHead_consistent
    {accounts : String → Option AccountLifecycle} {before toHead between : List HostLabel}
    {host host₀ host₁ : Host} {row : SpaceRepoRow} {held rest : List SpaceRepoOpRow}
    {response : OpsPage} {commit : SignedCommit}
    (hBefore : run (hostStep env) (newHost accounts) before = some host)
    (hHead : host.db.repos call.id = some row)
    (hToHead : run (hostStep env) host toHead = some host₀)
    (hRetains : Along (hostStep env) (Retains env call.id) host toHead)
    (hBetween : run (hostStep env) host₀ between = some host₁)
    (hQuiet : Along (hostStep env)
      (fun host label => NoCommit env call.id host label ∧ Retains env call.id host label) host₀
      between)
    (hOps : (repoOps host₀.db call.id).drop (repoOps host.db call.id).length = held ++ rest)
    (hResumes : Resumes call row.rev held)
    (hStart : row.rev ≠ lastTid ∨ held ≠ [] ∨ rest = [])
    (hResponse : spaceListRepoOps env call host₀.db host₁.db = .ok response)
    (hCommit : response.commit = some commit) :
    ∃ base row₀, LtHash.fromState row.lthashState = .ok base ∧
      host₀.db.repos call.id = some row₀ ∧ commit.rev = row₀.rev ∧
      response.ops.map OpEntry.fields = rest.map opFields ∧
      (∀ op ∈ response.ops, op.rev ≤ commit.rev) ∧
      commit.hash = LtHash.digest env.crypto ((response.ops.map OpEntry.fields).foldl
        (foldEntry env.crypto) ((held.map opFields).foldl (foldEntry env.crypto) base)) := by
  have hToHead' : run (hostStep env) (newHost accounts) (before ++ toHead) = some host₀ :=
    run_append_some.mpr ⟨host, hBefore, hToHead⟩
  have hAll : run (hostStep env) (newHost accounts) ((before ++ toHead) ++ between) =
      some host₁ := run_append_some.mpr ⟨host₀, hToHead', hBetween⟩
  have hDb := oplog_invariant hBefore
  have hDb₀ := oplog_invariant hToHead'
  obtain ⟨new, hNew⟩ := since_invariant hDb hHead hRetains hToHead
  have hSplit : new = held ++ rest := by
    rw [← hOps, hNew.ops, List.drop_left]
  subst hSplit
  obtain ⟨p, hPosition, hFilter⟩ := filter_resumes hDb hDb₀ hHead hNew hResumes hStart
  obtain ⟨_, _, _, row₀, after, ops, hRow₀, hAfter, hEntries, hEnd⟩ :=
    spaceListRepoOps_ok.mp hResponse
  obtain ⟨after', hAfter', rfl⟩ := hPosition
  rw [hAfter] at hAfter'
  cases hAfter'
  have hFields := page_entries (oplog_invariant hAll) hEntries
  have hLength := congrArg List.length hFields
  rw [List.length_map, List.length_map] at hLength
  rw [← (mapM_ok.mp hEntries).length_eq] at hLength
  rw [page, repoOps_of_noCommit hQuiet hBetween, hFilter] at hFields hLength
  by_cases hShort : (selectedRows call host₁.db after).length < pageLimit call.limit
  · rw [if_pos hShort] at hEnd
    obtain ⟨_, hSign, rfl⟩ := hEnd
    cases hCommit
    obtain ⟨lthash₀, hState, _, rfl⟩ := signCurrentCommit_ok.mp hSign
    rw [fromState_head (digested_run hToHead') hRow₀] at hState
    cases hState
    rw [List.take_of_length_le (by rw [List.length_take] at hLength; omega)] at hFields
    refine ⟨_, row₀, fromState_head (digested_run hBefore) hHead, hRow₀, rfl, hFields, ?_, ?_⟩
    · intro op hop
      have hMem : op.fields ∈ rest.map opFields := by
        rw [← hFields]
        exact List.mem_map_of_mem hop
      obtain ⟨row', hRow', hEq⟩ := List.mem_map.mp hMem
      have hRev : op.rev = row'.rev := (congrArg OpFields.rev hEq).symm
      rw [hRev]
      apply old_not_after hDb₀ hRow₀
      rw [hNew.ops]
      exact List.mem_append_right _ (List.mem_append_right _ hRow')
    · rw [hFields, foldl_foldEntry, foldl_foldEntry, hNew.hash, List.map_append,
        List.sum_append, add_assoc]
  · rw [if_neg hShort] at hEnd
    rw [hEnd] at hCommit
    cases hCommit

end Complete

/-! ## Runs of one repository -/

theorem sampleCodec_lawful : sampleSpaceEnv.codec.Lawful := by
  refine ⟨sampleBase64_lawful, ?_⟩
  intro v bytes _ h
  simp only [sampleSpaceEnv, sampleCodec] at h ⊢
  split at h
  · cases h
    rfl
  · cases h

/-- Alice's second put, after `samplePutHost`. -/
def secondPutHost : Host :=
  writeStep sampleSpaceEnv samplePutHost (sampleCall [putNote "b"])

def sampleListCall (since : String) : ListOpsCall where
  space := sampleSpace
  repo := "did:plc:alice"
  since := some since
  limit := some 1
  cursor := none
  excludeValues := false
  authenticate := .ok ()
  headRead := true
  opsRead := true
  signingKey := .ok ()

theorem sampleListCall_served (since : String) : (sampleListCall since).Served :=
  ⟨rfl, rfl, rfl, rfl⟩

/-- The request of a syncer that asks for everything since `since`. -/
def sampleListAll (since : String) : ListOpsCall :=
  { sampleListCall since with limit := none }

/-- What the second put leaves, and what a page shows that is read after it, or around it. The
parts share one evaluation of the host, whose set hash is what takes the time. -/
theorem secondPutHost_facts :
    ((secondPutHost.db.repos (sampleCall []).repo).isSome = true ∧
      ∀ op ∈ repoOps samplePutHost.db (sampleCall []).repo, op ∈ secondPutHost.db.ops) ∧
    (repoOps secondPutHost.db (sampleCall []).repo).length < 3 ∧
    (spaceListRepoOps sampleSpaceEnv (sampleListAll "3ke6kg3wk222b") secondPutHost.db
      secondPutHost.db).map (fun r => r.commit.isSome) = .ok true ∧
    (spaceListRepoOps sampleSpaceEnv (sampleListAll "3ke6kg3wk222b") samplePutHost.db
      secondPutHost.db).map (fun r => (r.ops.map (·.rev), r.commit.map (·.rev))) =
        .ok (["3ke6kg3wk222c"], some "3ke6kg3wk222b") := by
  decide +kernel

theorem secondPut_retains : Along (hostStep sampleSpaceEnv)
    (Retains sampleSpaceEnv (sampleCall []).repo) samplePutHost
    [.write (sampleCall [putNote "b"])] := by
  refine ⟨?_, fun _ _ => trivial⟩
  intro host' h
  have hHost : secondPutHost = host' := by
    rw [hostStep_write] at h
    exact Option.some.inj h
  rw [← hHost]
  exact secondPutHost_facts.1

theorem samplePutHost_run : run (hostStep sampleSpaceEnv) (newHost sampleAccounts)
    [.write (sampleCall [putNote "a"])] = some samplePutHost := rfl

theorem secondPutHost_run : run (hostStep sampleSpaceEnv) samplePutHost
    [.write (sampleCall [putNote "b"])] = some secondPutHost := rfl

theorem samplePutHost_head : ((samplePutHost.db.repos (sampleCall []).repo).isSome) = true := by
  decide +kernel

/-- A syncer follows one put from the head of the one before. -/
theorem oplog_complete_secondPut :
    ∃ (row row' : SpaceRepoRow) (lthash' : LtHash) (entries : List OpEntry),
      samplePutHost.db.repos (sampleCall []).repo = some row ∧
        followRepoOps sampleSpaceEnv secondPutHost.db 3 (sampleListCall row.rev) =
          .ok (entries, some ⟨row'.rev, LtHash.digest sampleSpaceEnv.crypto lthash'⟩) := by
  obtain ⟨row, hHead⟩ := Option.isSome_iff_exists.mp samplePutHost_head
  obtain ⟨_, row', lthash', entries, _, _, _, hFollow, _⟩ :=
    @oplog_complete_iff String _ sampleSpaceEnv (sampleListCall row.rev) _ sampleCodec_lawful
      sampleAccounts _ _ samplePutHost secondPutHost row 3 samplePutHost_run hHead
      secondPutHost_run secondPut_retains (sampleListCall_served row.rev) rfl rfl
      secondPutHost_facts.2.1
  exact ⟨row, row', lthash', entries, hHead, hFollow⟩

theorem samplePutHost_rev :
    (samplePutHost.db.repos (sampleCall []).repo).map (·.rev) = some "3ke6kg3wk222b" := by
  decide +kernel

/-- Nothing happens between the two reads. -/
theorem atHead_consistent_secondPut :
    ∃ response commit, spaceListRepoOps sampleSpaceEnv (sampleListAll "3ke6kg3wk222b")
        secondPutHost.db secondPutHost.db = .ok response ∧ response.commit = some commit ∧
      ∀ op ∈ response.ops, op.rev ≤ commit.rev := by
  obtain ⟨row, hHead, hRev⟩ := Option.map_eq_some_iff.mp samplePutHost_rev
  obtain ⟨response, hResponse, hSome⟩ : ∃ response, spaceListRepoOps sampleSpaceEnv
      (sampleListAll "3ke6kg3wk222b") secondPutHost.db secondPutHost.db = .ok response ∧
        response.commit.isSome = true := by
    have hMap := secondPutHost_facts.2.2.1
    cases hEq : spaceListRepoOps sampleSpaceEnv (sampleListAll "3ke6kg3wk222b")
        secondPutHost.db secondPutHost.db with
    | error e =>
      rw [hEq] at hMap
      cases hMap
    | ok response =>
      rw [hEq] at hMap
      exact ⟨response, rfl, Except.ok.inj hMap⟩
  obtain ⟨commit, hCommit⟩ := Option.isSome_iff_exists.mp hSome
  have hResumes : Resumes (sampleListAll "3ke6kg3wk222b") row.rev [] := ⟨rfl, by rw [hRev]; rfl⟩
  have hStart : row.rev ≠ lastTid := by
    rw [hRev]
    decide
  obtain ⟨_, _, _, _, _, _, hRevs, _⟩ :=
    @atHead_consistent String _ sampleSpaceEnv (sampleListAll "3ke6kg3wk222b") sampleAccounts _
      _ [] samplePutHost secondPutHost secondPutHost row [] _ response commit
      samplePutHost_run hHead secondPutHost_run secondPut_retains rfl trivial
      (List.nil_append _).symm hResumes (Or.inl hStart) hResponse hCommit
  exact ⟨response, commit, hResponse, hCommit, hRevs⟩

/-- A put lands between the two reads: the page holds its entry, and the commit is the one of
the head before it. -/
theorem commit_behind_page :
    run (hostStep sampleSpaceEnv) samplePutHost [.write (sampleCall [putNote "b"])] =
        some secondPutHost ∧
      (spaceListRepoOps sampleSpaceEnv (sampleListAll "3ke6kg3wk222b") samplePutHost.db
        secondPutHost.db).map (fun r => (r.ops.map (·.rev), r.commit.map (·.rev))) =
          .ok (["3ke6kg3wk222c"], some "3ke6kg3wk222b") ∧
      "3ke6kg3wk222b" < "3ke6kg3wk222c" := by
  refine ⟨secondPutHost_run, secondPutHost_facts.2.2.2, ?_⟩
  decide +kernel

/-- The clock reading whose TID is the last one. -/
def lastClock : Clock :=
  ⟨some (2 ^ 54 - 1), 0x3ff⟩

def lateHost : Host :=
  writeStep sampleSpaceEnv (newHost sampleAccounts)
    { sampleCall [putNote "a"] with revClock := lastClock }

def lateSecondHost : Host :=
  writeStep sampleSpaceEnv lateHost (sampleCall [putNote "b"])

theorem lateHost_facts :
    (lateHost.db.repos (sampleCall []).repo).map (·.rev) = some lastTid ∧
    ((repoOps lateHost.db (sampleCall []).repo).length = 1 ∧
      (repoOps lateSecondHost.db (sampleCall []).repo).length = 2) ∧
    ((followRepoOps sampleSpaceEnv lateSecondHost.db 3 (sampleListCall lastTid)).map
      fun r => (r.1.map OpEntry.fields, r.2.isSome)) = .ok ([], true) := by
  decide +kernel

/-- After a head that carries the last TID, the next commit carries it too, and a syncer that
starts from that head is told that it is at the head without the entry of the commit. -/
theorem lastTid_entry_skipped :
    run (hostStep sampleSpaceEnv) (newHost sampleAccounts)
        [.write { sampleCall [putNote "a"] with revClock := lastClock }] = some lateHost ∧
      (lateHost.db.repos (sampleCall []).repo).map (·.rev) = some lastTid ∧
      run (hostStep sampleSpaceEnv) lateHost [.write (sampleCall [putNote "b"])] =
        some lateSecondHost ∧
      ((repoOps lateHost.db (sampleCall []).repo).length = 1 ∧
        (repoOps lateSecondHost.db (sampleCall []).repo).length = 2) ∧
      ((followRepoOps sampleSpaceEnv lateSecondHost.db 3 (sampleListCall lastTid)).map
        fun r => (r.1.map OpEntry.fields, r.2.isSome)) = .ok ([], true) :=
  ⟨rfl, lateHost_facts.1, rfl, lateHost_facts.2.1, lateHost_facts.2.2⟩

end Ezpds.Spaces
