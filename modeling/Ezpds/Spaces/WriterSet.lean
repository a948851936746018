import Ezpds.Library.Register
import Ezpds.Spaces.Host

/-!
# The writer set of a space

A row of the writer set is a register of the reports about one repository: the newest
report wins, and the one of an emptied repository takes the row out, with its rev.

* `writers_settle`: the row that a run of reports leaves.
-/

namespace Ezpds.Spaces

open Library Repo

/-! ## Reports -/

def HostLabel.IsReport : HostLabel → Prop
  | .notifyWrite _ => True
  | .recordWriter _ _ => True
  | _ => False

/-- What a writer row says about its repository. -/
def storedWriter (db : Db) (repo : RepoId) : Option (String × List UInt8) :=
  (db.writers repo).map fun row => (row.rev, row.hash)

/-- A report as the writer row takes it: the hash of the empty set removes. -/
def writerReport (crypto : SpaceCrypto) (rev : String) (hash : List UInt8) :
    Report String (List UInt8) :=
  ⟨rev, if hash = LtHash.digest crypto LtHash.new then none else some hash⟩

def WriteReport.toReport (crypto : SpaceCrypto) (report : WriteReport) :
    Report String (List UInt8) :=
  writerReport crypto report.repoRev report.hash

/-- The host is the authority of the space. -/
def KeepsWriters (db : Db) (uri : String) : Prop :=
  ∃ space, db.spaces uri = some space ∧ space.policy ≠ none

/-- The report about `repo` that the label puts on record. -/
def recordedAt (repo : RepoId) (host : Host) : HostLabel → List WriteReport
  | .recordWriter i _ => (host.pending[i]?).toList.filter (·.id = repo)
  | _ => []

variable {Cid : Type} [CidText Cid]

/-- The reports about `repo` that a run puts on record, in the order in which they got the
connection. -/
def recorded (env : SpaceEnv Cid) (repo : RepoId) (host : Host) (labels : List HostLabel) :
    List WriteReport :=
  observed (hostStep env) (recordedAt repo) host labels

/-! ## One report -/

section Upsert

variable {crypto : SpaceCrypto} {tidNew : String → Except String Unit} {now : Clock}
  {db db' : Db} {repo : RepoId} {rev : String} {hash : List UInt8} {update : WriterUpdate}

theorem map_writerRow {spaceRev : String} :
    (writerRow crypto rev hash spaceRev).map (fun row => (row.rev, row.hash)) =
      (writerReport crypto rev hash).value.map fun v => (rev, v) := by
  rw [writerRow, writerReport]
  split
  · rfl
  · rfl

/-- An authority delivers a report to the row of its repository, and stays an authority. -/
theorem storedWriter_upsert (hKeeps : KeepsWriters db repo.space)
    (h : upsertWriter crypto tidNew now db repo rev hash = .ok (db', update)) :
    KeepsWriters db' repo.space ∧
      storedWriter db' repo = deliver (storedWriter db repo) (writerReport crypto rev hash) := by
  obtain ⟨space, hSpace, hPolicy⟩ := hKeeps
  rcases upsertWriter_cases h with ⟨hNone, _, _⟩ | ⟨_, stored, _, _, hStored, hLe, _, rfl⟩ |
    ⟨space', spaceRev, hSpace', hPolicy', hAbove, _, _, rfl⟩
  · exact absurd (hNone space hSpace) hPolicy
  · refine ⟨⟨space, hSpace, hPolicy⟩, ?_⟩
    rw [storedWriter, hStored]
    exact (deliver_stale hLe).symm
  · refine ⟨⟨_, Function.update_self _ _ _, hPolicy'⟩, ?_⟩
    have hNewer : ∀ s, storedWriter db repo = some s →
        s.1 < (writerReport crypto rev hash).rev := by
      intro s hs
      obtain ⟨stored, hStored, rfl⟩ := Option.map_eq_some_iff.mp hs
      exact hAbove stored hStored
    rw [deliver_newer hNewer, storedWriter]
    dsimp only
    rw [Function.update_self, map_writerRow]
    rfl

/-- A report about one repository leaves the rows of the others alone. -/
theorem storedWriter_upsert_of_ne {repo' : RepoId} (hKeeps : KeepsWriters db repo'.space)
    (hNe : repo' ≠ repo)
    (h : upsertWriter crypto tidNew now db repo rev hash = .ok (db', update)) :
    KeepsWriters db' repo'.space ∧ storedWriter db' repo' = storedWriter db repo' := by
  rcases upsertWriter_cases h with ⟨_, _, rfl⟩ | ⟨_, _, _, _, _, _, _, rfl⟩ |
    ⟨space, spaceRev, hSpace, hPolicy, _, _, _, rfl⟩
  · exact ⟨hKeeps, rfl⟩
  · exact ⟨hKeeps, rfl⟩
  · refine ⟨?_, ?_⟩
    · by_cases hUri : repo'.space = repo.space
      · rw [hUri]
        exact ⟨_, Function.update_self _ _ _, hPolicy⟩
      · obtain ⟨space', hSpace', hPolicy'⟩ := hKeeps
        refine ⟨space', ?_, hPolicy'⟩
        dsimp only
        rw [Function.update_of_ne hUri, hSpace']
    · rw [storedWriter, storedWriter]
      dsimp only
      rw [Function.update_of_ne hNe]

end Upsert

/-! ## Runs of reports -/

variable {env : SpaceEnv Cid} {repo : RepoId} {host host' : Host}

/-- A label of a report delivers what it puts on record. -/
theorem hostStep_report (hNew : ∀ s, isValidTid s = true → env.tidNew s = .ok ())
    {label : HostLabel} (hKeeps : KeepsWriters host.db repo.space) (hLabel : label.IsReport)
    (h : hostStep env host label = some host') :
    KeepsWriters host'.db repo.space ∧
      storedWriter host'.db repo = (recordedAt repo host label).foldl
        (fun stored r => deliver stored (r.toReport env.crypto)) (storedWriter host.db repo) := by
  cases label with
  | notifyWrite report =>
    rw [hostStep] at h
    split at h
    · cases h
      exact ⟨hKeeps, rfl⟩
    · cases h
      exact ⟨hKeeps, rfl⟩
  | recordWriter i clock =>
    rw [hostStep, recordWriterStep] at h
    obtain ⟨report, hReport, h⟩ := Option.map_eq_some_iff.mp h
    obtain ⟨db', update, hUpsert⟩ := @upsertWriter_ok env.crypto env.tidNew clock host.db
      report.id report.repoRev report.hash hNew
    rw [hUpsert] at h
    subst h
    rw [recordedAt, hReport]
    by_cases hRepo : report.id = repo
    · subst hRepo
      have hStep := storedWriter_upsert hKeeps hUpsert
      simpa [WriteReport.toReport] using hStep
    · have hStep := storedWriter_upsert_of_ne hKeeps (Ne.symm hRepo) hUpsert
      simpa [hRepo] using hStep
  | _ => cases hLabel

/-- The row of a repository is the register of the reports that a run puts on record. -/
theorem storedWriter_run (hNew : ∀ s, isValidTid s = true → env.tidNew s = .ok ())
    {labels : List HostLabel} (hKeeps : KeepsWriters host.db repo.space)
    (hLabels : ∀ label ∈ labels, label.IsReport)
    (hRun : run (hostStep env) host labels = some host') :
    storedWriter host'.db repo = settle (storedWriter host.db repo)
      ((recorded env repo host labels).map (·.toReport env.crypto)) := by
  rw [settle, List.foldl_map]
  exact @run_observed _ _ _ _ (hostStep env) (fun _ label => label.IsReport)
    (fun host => KeepsWriters host.db repo.space) (recordedAt repo)
    (fun host => storedWriter host.db repo) _
    (fun _ _ _ hKeeps hLabel h => hostStep_report hNew hKeeps hLabel h) _ _ _ hKeeps
    (along_of_forall hLabels) hRun

/-- On an authority that has no row of a repository, take any run of reports, and the
reports about the repository that it puts on record. If those of the greatest rev agree on a
hash, then the row that is left carries that rev and hash; and if the hash is the one of the
empty set, there is no row exactly when a removal of a greater rev comes after every report
of records. -/
theorem writers_settle (hNew : ∀ s, isValidTid s = true → env.tidNew s = .ok ())
    {labels : List HostLabel} (hKeeps : KeepsWriters host.db repo.space)
    (hNone : host.db.writers repo = none) (hLabels : ∀ label ∈ labels, label.IsReport)
    (hRun : run (hostStep env) host labels = some host') {newest : WriteReport}
    (hMem : newest ∈ recorded env repo host labels)
    (hMax : ∀ r ∈ recorded env repo host labels, r.repoRev ≤ newest.repoRev)
    (hAgree : ∀ r ∈ recorded env repo host labels,
      r.repoRev = newest.repoRev → r.hash = newest.hash) :
    (newest.hash ≠ LtHash.digest env.crypto LtHash.new →
        storedWriter host'.db repo = some (newest.repoRev, newest.hash)) ∧
      (newest.hash = LtHash.digest env.crypto LtHash.new →
        (host'.db.writers repo = none ↔
          Superseded ((recorded env repo host labels).map (·.toReport env.crypto)))) := by
  have hSettle := storedWriter_run hNew hKeeps hLabels hRun
  have hEmpty : storedWriter host.db repo = none := by rw [storedWriter, hNone, Option.map_none]
  rw [hEmpty] at hSettle
  constructor
  · intro hHash
    rw [hSettle]
    apply settle_newest (List.mem_map_of_mem hMem) (if_neg hHash)
    · intro r hr
      obtain ⟨report, hReport, rfl⟩ := List.mem_map.mp hr
      exact hMax report hReport
    · intro r hr hRev
      obtain ⟨report, hReport, rfl⟩ := List.mem_map.mp hr
      show (if report.hash = _ then none else some report.hash) = _
      rw [hAgree report hReport hRev]
      rfl
    · intro s hs
      cases hs
  · intro _
    have hRow : host'.db.writers repo = none ↔ storedWriter host'.db repo = none :=
      Option.map_eq_none_iff.symm
    rw [hRow, hSettle, settle_eq_none_iff, and_iff_right]
    intro s hs
    cases hs

/-! ## Two reports in both orders -/

/-- SHA-256 of a state without elements; other inputs do not come up below. -/
def emptySetDigest : List UInt8 :=
  [229, 160, 10, 169, 153, 26, 200, 165, 238, 49, 9, 132, 77, 132, 165, 85, 131, 189, 32, 87, 42,
    211, 255, 205, 66, 121, 47, 60, 54, 177, 131, 173]

def writerEnv : SpaceEnv String :=
  { sampleSpaceEnv with crypto := ⟨fun _ _ => 0, fun _ => emptySetDigest⟩ }

/-- The authority of carol's space, which no one has written to. -/
def authorityHost : Host :=
  { newHost sampleAccounts with
    db := (createSpace (newHost sampleAccounts).db sampleSpace.uri "public").1 }

def sampleReport (rev : String) (hash : List UInt8) : WriteReport where
  space := sampleSpace
  repo := "did:plc:alice"
  repoRev := rev
  hash := hash
  now := 1800000000
  peekJwtIss := .ok "did:plc:alice"
  verifyServiceAuth := .ok ()
  getSpace := true
  authorizeWriteNotification := .ok true

def putReport : WriteReport := sampleReport "3kaaaaaaaaaa2" (List.replicate 32 7)

def emptiedReport : WriteReport := sampleReport "3kaaaaaaaaaa3" emptySetDigest

/-- Two deliveries that finish one after the other. -/
def deliverBoth (first second : WriteReport) : List HostLabel :=
  [.notifyWrite first, .recordWriter 0 ⟨some 1700000000000000, 7⟩,
    .notifyWrite second, .recordWriter 0 ⟨some 1700000000000001, 7⟩]

/-- The report of the emptied repository is the newest one, and takes the row out only when
it comes last: the older report puts the row back. -/
theorem reordered_report_restores :
    putReport.repoRev < emptiedReport.repoRev ∧
      emptiedReport.hash = LtHash.digest writerEnv.crypto LtHash.new ∧
      ((run (hostStep writerEnv) authorityHost (deliverBoth putReport emptiedReport)).map
        fun host => storedWriter host.db putReport.id) = some none ∧
      ((run (hostStep writerEnv) authorityHost (deliverBoth emptiedReport putReport)).map
        fun host => storedWriter host.db putReport.id) =
          some (some (putReport.repoRev, putReport.hash)) := by
  decide +kernel

theorem recorded_reordered :
    recorded writerEnv putReport.id authorityHost (deliverBoth emptiedReport putReport) =
      [emptiedReport, putReport] :=
  rfl

/-- The deliveries in the order that puts the row back. -/
theorem writers_settle_reordered :
    ∃ host, run (hostStep writerEnv) authorityHost (deliverBoth emptiedReport putReport) =
        some host ∧
      (host.db.writers putReport.id = none ↔
        Superseded ((recorded writerEnv putReport.id authorityHost
          (deliverBoth emptiedReport putReport)).map (·.toReport writerEnv.crypto))) := by
  have hNew : ∀ s, isValidTid s = true → writerEnv.tidNew s = .ok () := fun s hs => if_pos hs
  have hKeeps : KeepsWriters authorityHost.db putReport.id.space :=
    ⟨⟨some "public", false, false, none⟩, by decide +kernel, by decide⟩
  have hLabels : ∀ label ∈ deliverBoth emptiedReport putReport, label.IsReport := by
    simp [deliverBoth, HostLabel.IsReport]
  have hMem : emptiedReport ∈ recorded writerEnv putReport.id authorityHost
      (deliverBoth emptiedReport putReport) := by
    rw [recorded_reordered]
    exact List.mem_cons_self
  have hMax : ∀ r ∈ recorded writerEnv putReport.id authorityHost
      (deliverBoth emptiedReport putReport), r.repoRev ≤ emptiedReport.repoRev := by
    rw [recorded_reordered]
    simp only [List.forall_mem_cons, List.not_mem_nil, false_imp_iff, implies_true, and_true]
    decide
  have hAgree : ∀ r ∈ recorded writerEnv putReport.id authorityHost
      (deliverBoth emptiedReport putReport),
      r.repoRev = emptiedReport.repoRev → r.hash = emptiedReport.hash := by
    rw [recorded_reordered]
    simp only [List.forall_mem_cons, List.not_mem_nil, false_imp_iff, implies_true, and_true]
    decide
  exact ⟨_, rfl, (writers_settle hNew hKeeps rfl hLabels rfl hMem hMax hAgree).2 rfl⟩

end Ezpds.Spaces
