import Ezpds.Spaces.WriterSet

/-!
# The chain of space revisions

An authority numbers the updates of a space with revisions of its own, from a high-water
mark in the `spaces` row. A syncer notices a missed update by a `prevSpaceRev` that is not
the `spaceRev` it saw last, so the two have to link up over every run: of reports, commits,
deletions and purges, and whatever the clock does.

* `hostStep_revs`: a label issues at most one revision, above the high-water mark.
* `spaceRevs_chained`: the revisions that a run issues.
-/

namespace Ezpds.Spaces

open Library Repo

/-- The high-water mark of a space. -/
def lastSpaceRev (db : Db) (uri : String) : Option String :=
  (db.spaces uri).bind (·.lastSpaceRev)

/-- The revisions issued to the updates of a space, newest first. -/
def issuedRevs (forwarded : List ForwardedWrite) (uri : String) : List WriterRevs :=
  (forwarded.filter (·.repo.space = uri)).map (·.revs)

/-- Each revision names the one before it, and the first one names none. -/
def Linked : List WriterRevs → Prop
  | [] => True
  | revs :: older => revs.prevSpaceRev = older.head?.map (·.spaceRev) ∧ Linked older

/-- The mark and the issued revisions of a space stay, or one more is issued. -/
def RevStep (tidNew : String → Except String Unit) (last : Option String)
    (issued : List WriterRevs) (last' : Option String) (issued' : List WriterRevs) : Prop :=
  (last' = last ∧ issued' = issued) ∨
    ∃ clock spaceRev, nextRecordRev tidNew clock (last.getD "") = .ok spaceRev ∧
      last' = some spaceRev ∧ issued' = ⟨spaceRev, last⟩ :: issued

/-- The mark is the newest revision, the revisions link up, and they are valid TIDs. -/
structure RevChain (last : Option String) (issued : List WriterRevs) : Prop where
  last_eq : last = issued.head?.map (·.spaceRev)
  linked : Linked issued
  valid : ∀ revs ∈ issued, isValidTid revs.spaceRev = true

/-! ## One revision -/

section Step

variable {tidNew : String → Except String Unit} {last last' : Option String}
  {issued issued' : List WriterRevs}

theorem RevChain.step (hChain : RevChain last issued)
    (h : RevStep tidNew last issued last' issued') : RevChain last' issued' := by
  rcases h with ⟨rfl, rfl⟩ | ⟨clock, spaceRev, hNext, rfl, rfl⟩
  · exact hChain
  · refine ⟨rfl, ⟨hChain.last_eq, hChain.linked⟩, ?_⟩
    intro revs hRevs
    rcases List.mem_cons.mp hRevs with rfl | hRevs
    · exact (nextCommitRev_eq hNext).2
    · exact hChain.valid revs hRevs

/-- The next revision is above all of the older ones unless the mark is the last TID. -/
theorem increasing_step (hChain : RevChain last issued)
    (hIncreasing : (issued.map (·.spaceRev)).Pairwise (· > ·)) (hLast : last ≠ some lastTid)
    (h : RevStep tidNew last issued last' issued') :
    (issued'.map (·.spaceRev)).Pairwise (· > ·) := by
  rcases h with ⟨rfl, rfl⟩ | ⟨clock, spaceRev, hNext, rfl, rfl⟩
  · exact hIncreasing
  · rw [List.map_cons, List.pairwise_cons]
    refine ⟨?_, hIncreasing⟩
    cases issued with
    | nil => simp
    | cons newest older =>
      have hNewest : last = some newest.spaceRev := hChain.last_eq
      have hValid := hChain.valid newest List.mem_cons_self
      rw [hNewest] at hNext hLast
      have hAbove : newest.spaceRev < spaceRev :=
        (nextCommitRev_above hValid hNext).2.2.mpr fun h => hLast (congrArg some h)
      intro rev hRev
      rw [List.map_cons, List.pairwise_cons] at hIncreasing
      rcases List.mem_cons.mp hRev with rfl | hRev
      · exact hAbove
      · exact lt_trans (hIncreasing.1 rev hRev) hAbove

end Step

/-! ## Labels -/

variable {Cid : Type} [CidText Cid] {env : SpaceEnv Cid} {host host' : Host}
  {label : HostLabel} {uri : String}

theorem lastSpaceRev_setSpace {db : Db} {row : SpaceRow} {uri' : String}
    (h : row.lastSpaceRev = lastSpaceRev db uri') :
    lastSpaceRev (setSpace db uri' (some row)) uri = lastSpaceRev db uri := by
  by_cases hUri : uri = uri'
  · subst hUri
    simp [lastSpaceRev, setSpace, h]
  · simp [lastSpaceRev, setSpace, hUri]

theorem lastSpaceRev_map {db : Db} {f : SpaceRow → SpaceRow} {uri' : String}
    (h : ∀ row, (f row).lastSpaceRev = row.lastSpaceRev) :
    lastSpaceRev (setSpace db uri' ((db.spaces uri').map f)) uri = lastSpaceRev db uri := by
  by_cases hUri : uri = uri'
  · subst hUri
    cases hRow : db.spaces uri with
    | none => simp [lastSpaceRev, setSpace, hRow]
    | some row => simp [lastSpaceRev, setSpace, hRow, h]
  · simp [lastSpaceRev, setSpace, hUri]

theorem lastSpaceRev_insertSpace {db : Db} {uri' : String} :
    lastSpaceRev (insertSpace db uri') uri = lastSpaceRev db uri := by
  rw [insertSpace]
  cases hRow : db.spaces uri' with
  | none =>
    apply lastSpaceRev_setSpace
    rw [lastSpaceRev, hRow]
    rfl
  | some row => rfl

theorem lastSpaceRev_createSpace {db : Db} {uri' policy : String} :
    lastSpaceRev (createSpace db uri' policy).1 uri = lastSpaceRev db uri := by
  rw [createSpace]
  cases hRow : db.spaces uri' with
  | none =>
    apply lastSpaceRev_setSpace
    rw [lastSpaceRev, hRow]
    rfl
  | some row =>
    dsimp only
    split
    · apply lastSpaceRev_setSpace
      rw [lastSpaceRev, hRow]
      rfl
    · rfl

theorem lastSpaceRev_deleteSpace {db : Db} {space : SpaceRef} :
    lastSpaceRev (deleteSpace db space) uri = lastSpaceRev db uri := by
  rw [deleteSpace]
  split
  · rfl
  · split
    · rfl
    · exact lastSpaceRev_map fun _ => rfl

omit [CidText Cid] in
theorem lastSpaceRev_committedDb {call : WriteCall} {db : Db} {lthash : LtHash}
    {newRev : String} {es : List RecordEdit} :
    lastSpaceRev (committedDb env call db lthash newRev es) uri = lastSpaceRev db uri := by
  have hEntered : lastSpaceRev (enteredDb call db) uri = lastSpaceRev db uri := by
    rw [enteredDb]
    split
    · rfl
    · exact lastSpaceRev_insertSpace
  rw [← hEntered, committedDb, finishedDb]
  split
  · rfl
  · rfl

/-- An update of the writer set issues a revision exactly when it is accepted. -/
theorem upsertWriter_revs {tidNew : String → Except String Unit} {crypto : SpaceCrypto}
    {clock : Clock} {db db' : Db} {repo : RepoId} {rev : String} {hash : List UInt8}
    {update : WriterUpdate} {forwarded : List ForwardedWrite}
    (h : upsertWriter crypto tidNew clock db repo rev hash = .ok (db', update)) :
    RevStep tidNew (lastSpaceRev db uri) (issuedRevs forwarded uri) (lastSpaceRev db' uri)
      (issuedRevs (forwardWrite forwarded repo rev hash update) uri) := by
  rcases upsertWriter_cases h with ⟨_, rfl, rfl⟩ | ⟨_, _, _, _, _, _, rfl, rfl⟩ |
    ⟨space, spaceRev, hSpace, _, _, hNext, rfl, rfl⟩
  · exact Or.inl ⟨rfl, rfl⟩
  · exact Or.inl ⟨rfl, rfl⟩
  · by_cases hUri : repo.space = uri
    · subst hUri
      have hLast : lastSpaceRev db repo.space = space.lastSpaceRev := by
        rw [lastSpaceRev, hSpace]
        rfl
      rw [hLast]
      refine Or.inr ⟨clock, spaceRev, hNext, ?_, ?_⟩
      · simp [lastSpaceRev]
      · simp [issuedRevs, forwardWrite]
    · refine Or.inl ⟨?_, ?_⟩
      · simp [lastSpaceRev, Function.update_of_ne (Ne.symm hUri)]
      · simp [issuedRevs, forwardWrite, hUri]

/-- A label issues at most one revision of a space, and moves its mark there. -/
theorem hostStep_revs (h : hostStep env host label = some host') :
    RevStep env.tidNew (lastSpaceRev host.db uri) (issuedRevs host.forwarded uri)
      (lastSpaceRev host'.db uri) (issuedRevs host'.forwarded uri) := by
  cases label with
  | write call =>
    rw [hostStep_write, writeStep] at h
    cases hCall : applySpaceWrites env call host.db with
    | mk db result =>
      rw [hCall] at h
      cases result with
      | error e =>
        have hSame := applySpaceWrites_error hCall
        subst hSame
        cases h
        exact Or.inl ⟨rfl, rfl⟩
      | ok out =>
        obtain ⟨outcome, update⟩ := out
        obtain ⟨_, _, lthash, newRev, es, _, hUpsert, rfl⟩ := applySpaceWrites_ok.mp hCall
        cases h
        have hStep := @upsertWriter_revs uri _ _ _ _ _ _ _ _ _ host.forwarded hUpsert
        rw [lastSpaceRev_committedDb] at hStep
        exact hStep
  | notifyWrite report =>
    rw [hostStep] at h
    split at h
    · cases h
      exact Or.inl ⟨rfl, rfl⟩
    · cases h
      exact Or.inl ⟨rfl, rfl⟩
  | recordWriter i clock =>
    rw [hostStep, recordWriterStep] at h
    obtain ⟨report, _, h⟩ := Option.map_eq_some_iff.mp h
    cases hUpsert : upsertWriter env.crypto env.tidNew clock host.db report.id report.repoRev
        report.hash with
    | error e =>
      rw [hUpsert] at h
      subst h
      exact Or.inl ⟨rfl, rfl⟩
    | ok out =>
      rw [hUpsert] at h
      subst h
      exact upsertWriter_revs hUpsert
  | createSpace uri' policy =>
    cases h
    exact Or.inl ⟨lastSpaceRev_createSpace, rfl⟩
  | deleteSpace space =>
    cases h
    exact Or.inl ⟨lastSpaceRev_deleteSpace, rfl⟩
  | setSpaceTakedown uri' applied =>
    cases h
    exact Or.inl ⟨lastSpaceRev_map fun _ => rfl, rfl⟩
  | setLifecycle did lifecycle =>
    cases h
    exact Or.inl ⟨rfl, rfl⟩
  | purgeAccount did =>
    cases h
    exact Or.inl ⟨rfl, rfl⟩
  | sweepOldRepoOps cutoff =>
    cases h
    exact Or.inl ⟨rfl, rfl⟩

/-! ## Runs -/

theorem revChain_run {accounts : String → Option AccountLifecycle} {labels : List HostLabel}
    (hRun : run (hostStep env) (newHost accounts) labels = some host) :
    RevChain (lastSpaceRev host.db uri) (issuedRevs host.forwarded uri) := by
  apply @run_invariant _ _ (hostStep env)
    (fun host => RevChain (lastSpaceRev host.db uri) (issuedRevs host.forwarded uri))
    _ _ _ labels _ hRun
  · intro s label t hChain h
    exact hChain.step (hostStep_revs h)
  · refine ⟨rfl, trivial, ?_⟩
    intro revs hRevs
    cases hRevs

/-- Over every run of a host, each update that a space accepts names the revision issued
just before it, and the first one names none; and the revisions increase strictly as long
as the mark of the space is not the last TID. -/
theorem spaceRevs_chained {accounts : String → Option AccountLifecycle}
    {labels : List HostLabel}
    (hRun : run (hostStep env) (newHost accounts) labels = some host) (uri : String) :
    Linked (issuedRevs host.forwarded uri) ∧
      (Along (hostStep env) (fun host _ => lastSpaceRev host.db uri ≠ some lastTid)
          (newHost accounts) labels →
        ((issuedRevs host.forwarded uri).map (·.spaceRev)).Pairwise (· > ·)) := by
  refine ⟨(revChain_run hRun).linked, ?_⟩
  intro hAlong
  have hBoth := @run_invariant_along _ _ (hostStep env)
    (fun host _ => lastSpaceRev host.db uri ≠ some lastTid)
    (fun host => RevChain (lastSpaceRev host.db uri) (issuedRevs host.forwarded uri) ∧
      ((issuedRevs host.forwarded uri).map (·.spaceRev)).Pairwise (· > ·))
    (fun s label t hs hLast h =>
      ⟨hs.1.step (hostStep_revs h), increasing_step hs.1 hs.2 hLast (hostStep_revs h)⟩)
    _ _ _ ⟨@revChain_run _ _ env _ uri accounts [] rfl, List.Pairwise.nil⟩ hAlong hRun
  exact hBoth.2

/-- Two reports of alice's in a fresh space, recorded at two readings of the clock. -/
def reportTwice (first second : Clock) : List HostLabel :=
  [.createSpace sampleSpace.uri "public",
    .notifyWrite putReport, .recordWriter 0 first,
    .notifyWrite (sampleReport "3kaaaaaaaaaa3" (List.replicate 32 8)), .recordWriter 0 second]

/-- The clock steps back between the reports. -/
theorem spaceRevs_chained_clockStep :
    ∃ host, run (hostStep writerEnv) (newHost sampleAccounts)
        (reportTwice ⟨some 1700000000000000, 7⟩ ⟨some 5, 9⟩) = some host ∧
      Linked (issuedRevs host.forwarded sampleSpace.uri) ∧
      ((issuedRevs host.forwarded sampleSpace.uri).map (·.spaceRev)).Pairwise (· > ·) := by
  have hAlong : Along (hostStep writerEnv)
      (fun host _ => lastSpaceRev host.db sampleSpace.uri ≠ some lastTid)
      (newHost sampleAccounts) (reportTwice ⟨some 1700000000000000, 7⟩ ⟨some 5, 9⟩) := by
    decide +kernel
  have hChained := @spaceRevs_chained _ _ writerEnv _ sampleAccounts
    (reportTwice ⟨some 1700000000000000, 7⟩ ⟨some 5, 9⟩) rfl sampleSpace.uri
  exact ⟨_, rfl, hChained.1, hChained.2 hAlong⟩

/-- The clock reads its last microsecond: both reports get the last TID. -/
theorem spaceRevs_stuck_at_lastTid :
    (run (hostStep writerEnv) (newHost sampleAccounts)
        (reportTwice ⟨some (2 ^ 54 - 1), 1023⟩ ⟨some 1700000000000000, 7⟩)).map
      (fun host => issuedRevs host.forwarded sampleSpace.uri) =
        some [⟨lastTid, some lastTid⟩, ⟨lastTid, none⟩] ∧
      ¬ [lastTid, lastTid].Pairwise (· > ·) := by
  decide +kernel

end Ezpds.Spaces
