import Ezpds.Firehose.RepoSeq
import Ezpds.Library.FirstWins
import Ezpds.Library.Paging
import Ezpds.Pds.CommitHistory

/-!
# Read after write

A read that the AppView answered from behind is completed with the requester's own records:
`get_records_since_rev` walks the stored commit events down to the AppView's rev, keeps one
CID for each record that they wrote, and reads the records from the current head.

The CID comes from an event and the value from the head, so the two differ when the event is
not the record's last word: a batch writes a key twice, or a write lands between the reads.

* `exact_iff_settled`: when the answer is right.
* `batch_mispaired`: a batch that updates a record twice.
-/

namespace Ezpds.Pds

open Library Repo Firehose

/-! ## The records of the answer -/

structure RecordDescript where
  uri : String
  cid : String
  indexedAt : String
  record : Json

structure LocalRecords where
  count : Nat
  profile : Option RecordDescript
  posts : List RecordDescript

namespace LocalRecords

def default : LocalRecords := ⟨0, none, []⟩

def all (l : LocalRecords) : List RecordDescript :=
  l.profile.toList ++ l.posts

/-- Bucket by collection; other collections are ignored. -/
def add (l : LocalRecords) (collection rkey : String) (d : RecordDescript) : LocalRecords :=
  if collection = "app.bsky.actor.profile" ∧ rkey = "self" then { l with profile := some d }
  else if collection = "app.bsky.feed.post" then { l with posts := l.posts ++ [d] }
  else l

def counted (l : LocalRecords) : LocalRecords :=
  { l with count := l.profile.isSome.toNat + l.posts.length }

end LocalRecords

def recordUri (did collection rkey : String) : String :=
  "at://" ++ did ++ "/" ++ collection ++ "/" ++ rkey

/-! ## The reads -/

/-- An entry of the map of touched records: its key, and the time and the CID of an op. -/
abbrev Touched (Cid : Type) : Type := (String × String) × (String × Cid)

/-- What one call finds, one read after the other. `walk` is the way through the tree to a
key, and `visit` the order in which the hash map gives its entries. A block that is found is the
one that its CID names. -/
structure Reads (Blob : Type) {Cid : Type} (enc : Encoders Cid) where
  table : Except SqlxError (RepoSeq Blob)
  repoRootCid : Except SqlxError (Option String)
  openRepository : Cid → Except RecordError (Repository enc)
  walk : String → Except RecordError Unit
  readBlock : Cid → Except RecordError (Ipld Cid)
  visit : List (Touched Cid) → List (Touched Cid)
  addressed : ∀ cid value, readBlock cid = .ok value → enc.recordBlock value = cid
  visit_perm : ∀ touched, (visit touched).Perm touched

variable {Blob Cid : Type} [CidText Cid] {enc : Encoders Cid}

/-- `get_record_json` -/
def Reads.getRecordJson (reads : Reads Blob enc) (repo : Repository enc) (key : String) :
    Except RecordError (Option Json) := do
  reads.walk key
  match repo.getRecordCid key with
  | none => return none
  | some cid =>
    let value ← reads.readBlock cid
    let json ← recordValueToJson enc.b64 value
    return some json

/-- The current repository, opened at the persisted root. -/
def Reads.repository (reads : Reads Blob enc) : Option (Repository enc) :=
  match reads.repoRootCid with
  | .ok (some root) =>
    match (CidText.tryFrom root : Except String Cid) with
    | .ok cid => (reads.openRepository cid).toOption
    | .error _ => none
  | _ => none

/-! ## The scan -/

/-- Keep the first (newest) occurrence. -/
def touchOp (time : String) (touched : List (Touched Cid)) (op : RepoOp) : List (Touched Cid) :=
  if touched.any fun entry => entry.1 = (op.collection, op.rkey) then touched
  else
    match op.cid with
    | none => touched
    | some text =>
      match (CidText.tryFrom text : Except String Cid) with
      | .ok cid => touched ++ [((op.collection, op.rkey), (time, cid))]
      | .error _ => touched

/-- The walk over the stored events, newest first; one that does not decode is skipped. -/
def collectTouched [DagCbor Blob] (header : String) :
    List (Touched Cid) → List (StoredEventRow Blob) → List (Touched Cid)
  | touched, [] => touched
  | touched, row :: rows =>
    match decodeStoredEvent row.seq row.eventType row.event with
    | .ok (.commit event) =>
      if event.rev ≤ header then touched
      else collectTouched header (event.ops.foldl (touchOp event.time) touched) rows
    | _ => collectTouched header touched rows

def describe (reads : Reads Blob enc) (repo : Repository enc) (did : String)
    (entry : Touched Cid) : Option RecordDescript :=
  match reads.getRecordJson repo (recordKey entry.1.1 entry.1.2) with
  | .ok (some record) =>
    some
      { uri := recordUri did entry.1.1 entry.1.2, cid := CidText.toText entry.2.2,
        indexedAt := entry.2.1, record }
  | _ => none

def addRecord (reads : Reads Blob enc) (repo : Repository enc) (did : String) (l : LocalRecords)
    (entry : Touched Cid) : LocalRecords :=
  match describe reads repo did entry with
  | some d => l.add entry.1.1 entry.1.2 d
  | none => l

def getRecordsSinceRev [DagCbor Blob] (reads : Reads Blob enc) (did : String) (headerRev : Option String) :
    LocalRecords :=
  match headerRev, reads.table with
  | none, _ => .default
  | some _, .error _ => .default
  | some header, .ok table =>
    let touched := collectTouched header [] (table.recentCommitsForDid did 200)
    match reads.repository with
    | none => .default
    | some repo => ((reads.visit touched).foldl (addRecord reads repo did) .default).counted

/-! ## What the scan keeps -/

/-- The row decodes to the event of the commit. -/
def StoredAs [DagCbor Blob] (row : StoredEventRow Blob) (c : HistoryCommit Cid) : Prop :=
  ∃ event, decodeStoredEvent row.seq row.eventType row.event = .ok (.commit event) ∧
    event.rev = c.rev ∧ event.ops = c.writes.map fun w => w.op.eraseValue

def HistoryCommit.isAfter (header : String) (c : HistoryCommit Cid) : Bool :=
  decide (header < c.rev)

/-- The commits after `header`, newest first. -/
def since (header : String) (commits : List (HistoryCommit Cid)) : List (HistoryCommit Cid) :=
  commits.reverse.filter (HistoryCommit.isAfter header)

def Written.key (w : Written Cid) : String × String :=
  (w.collection, w.rkey)

/-- The record that a write leaves. -/
def Written.left (w : Written Cid) : Option ((String × String) × Cid) :=
  w.next.map fun cid => (w.key, cid)

/-- What the first write leaves at the key, of those that leave a record there: the newest
commit comes first, and the writes of one commit are in order. -/
def firstLeft (commits : List (HistoryCommit Cid)) (key : String × String) : Option Cid :=
  (((commits.flatMap HistoryCommit.writes).filterMap Written.left).find? fun e => e.1 = key).map
    Prod.snd

/-- The row that the sequencer writes for a commit. -/
theorem storedAs_of_encode [DagCbor Blob] [LawfulDagCbor Blob] {time : String}
    {input : CommitInput} {blob : Blob} {c : HistoryCommit Cid}
    (h : (EventInput.commit input).encode time = .ok blob) (hTells : Tells input c) (seq : Nat) :
    StoredAs ⟨seq, "commit", blob⟩ c := by
  refine ⟨_, decodeStoredEvent_encode h seq, hTells.rev, ?_⟩
  rw [hTells.ops, List.map_map]
  rfl

/-- The entry that an op offers. -/
def offered (time : String) (op : RepoOp) : Option (Touched Cid) :=
  op.cid.bind fun text =>
    (CidText.tryFrom text : Except String Cid).toOption.map fun cid =>
      ((op.collection, op.rkey), (time, cid))

/-- A touched record, less the time. -/
def Touched.left (entry : Touched Cid) : (String × String) × Cid :=
  (entry.1, entry.2.2)

variable {header time did : String} {touched : List (Touched Cid)}
  {rows : List (StoredEventRow Blob)} {commits stored history : List (HistoryCommit Cid)}

theorem touchOp_eq (op : RepoOp) :
    touchOp time touched op = (offered time op).elim touched (insertVacant touched) := by
  rw [touchOp, offered]
  cases hCid : op.cid with
  | none => simp
  | some text =>
    cases hText : (CidText.tryFrom text : Except String Cid) with
    | error e => simp [Except.toOption, hText]
    | ok cid => simp [Except.toOption, hText, insertVacant]

theorem foldl_touchOp (ops : List RepoOp) :
    ops.foldl (touchOp time) touched = firstWins touched (ops.filterMap (offered time)) := by
  induction ops generalizing touched with
  | nil => rfl
  | cons op ops ih =>
    rw [List.foldl_cons, ih, touchOp_eq]
    cases hOffered : (offered time op : Option (Touched Cid)) with
    | none => rw [List.filterMap_cons_none hOffered, Option.elim_none]
    | some e =>
      rw [List.filterMap_cons_some hOffered, Option.elim_some]
      rfl

theorem offered_op [LawfulCidText Cid] (w : Written Cid) :
    (offered time w.op.eraseValue : Option (Touched Cid)).map Touched.left = w.left := by
  cases hNext : w.next with
  | none => simp [offered, Written.op, RepoOp.eraseValue, Written.left, hNext]
  | some cid =>
    simp [offered, Written.op, RepoOp.eraseValue, Written.left, Written.key, Touched.left,
      Except.toOption, hNext]

/-- The walk offers what the commits above the header left, in its own order. -/
theorem collectTouched_eq [DagCbor Blob] [LawfulCidText Cid] (header : String)
    (touched : List (Touched Cid)) (h : List.Forall₂ StoredAs rows commits) :
    ∃ es, collectTouched header touched rows = firstWins touched es ∧
      es.map Touched.left = ((commits.takeWhile (HistoryCommit.isAfter header)).flatMap
        HistoryCommit.writes).filterMap Written.left := by
  induction h generalizing touched with
  | nil => exact ⟨[], rfl, rfl⟩
  | @cons row c rows commits hRow _ ih =>
    obtain ⟨event, hDecoded, hRev, hOps⟩ := hRow
    rw [collectTouched, hDecoded]
    dsimp only
    by_cases hAbove : header < c.rev
    · rw [hRev, if_neg (not_le.mpr hAbove), foldl_touchOp]
      let entries : List (Touched Cid) := event.ops.filterMap (offered event.time)
      obtain ⟨es, hEs, hLeft⟩ := @ih (firstWins touched entries)
      refine ⟨entries ++ es, ?_, ?_⟩
      · rw [hEs, firstWins, firstWins, firstWins, List.foldl_append]
      · have hEntries : entries.map Touched.left = c.writes.filterMap Written.left := by
          simp only [entries, hOps, List.filterMap_map, List.map_filterMap]
          congr 1
          funext w
          exact offered_op w
        have hTaken : c.isAfter header = true := decide_eq_true hAbove
        rw [List.takeWhile_cons_of_pos hTaken, List.flatMap_cons,
          List.filterMap_append, List.map_append, hLeft, hEntries]
    · have hBelow : ¬ c.isAfter header = true := by
        rw [HistoryCommit.isAfter, decide_eq_true_eq]
        exact hAbove
      rw [hRev, if_pos (not_lt.mp hAbove), List.takeWhile_cons_of_neg hBelow]
      exact ⟨[], rfl, rfl⟩

/-- The walk over the rows of a history: it keeps, for each record, what the newest of the
commits after the header that left it left first. -/
theorem mem_touched [DagCbor Blob] [LawfulCidText Cid] {table : RepoSeq Blob} {key : String × String} {cid : Cid}
    (hRows : List.Forall₂ StoredAs (table.commitsOf did) stored)
    (hRevs : stored.Pairwise fun c d => c.rev ≤ d.rev)
    (hScan : (since header stored).length ≤ 200) :
    (∃ time, (key, (time, cid)) ∈ collectTouched header [] (table.recentCommitsForDid did 200)) ↔
      firstLeft (since header stored) key = some cid := by
  have hRecent : List.Forall₂ StoredAs (table.recentCommitsForDid did 200)
      (stored.reverse.take 200) :=
    List.forall₂_take 200 (List.rel_reverse hRows)
  obtain ⟨es, hTouched, hLeft⟩ := collectTouched_eq header [] hRecent
  have hOrder : stored.reverse.Pairwise fun c d => d.isAfter header = true →
      c.isAfter header = true := by
    rw [List.pairwise_reverse]
    refine hRevs.imp ?_
    intro c d hLe hAfter
    exact decide_eq_true (lt_of_lt_of_le (of_decide_eq_true hAfter) hLe)
  rw [takeWhile_take hOrder hScan] at hLeft
  rw [hTouched, firstLeft, since, ← hLeft, List.find?_map, Option.map_map]
  simp only [mem_firstWins, List.not_mem_nil, false_or, IsEmpty.forall_iff, implies_true, and_true]
  constructor
  · rintro ⟨time, hFind⟩
    exact Option.map_eq_some_iff.mpr ⟨_, hFind, rfl⟩
  · intro hFind
    obtain ⟨⟨k, time, c⟩, hFind, hCid⟩ := Option.map_eq_some_iff.mp hFind
    have hFound := List.find?_some hFind
    simp only [Function.comp_apply, decide_eq_true_eq] at hFound
    have hKey : k = key := hFound
    have hCid : c = cid := hCid
    rw [hKey, hCid] at hFind
    exact ⟨time, hFind⟩

/-! ## What the answer lists -/

def profileKey : String × String := ("app.bsky.actor.profile", "self")

def isPost (key : String × String) : Bool :=
  key.1 == "app.bsky.feed.post"

/-- The profile and the posts are what the answer lists. -/
def Listed (key : String × String) : Prop :=
  key = profileKey ∨ isPost key = true

variable {reads : Reads Blob enc} {repo : Repository enc} {entries : List (Touched Cid)}
  {entry : Touched Cid} {l : LocalRecords} {d : RecordDescript}

def profileOf (reads : Reads Blob enc) (repo : Repository enc) (did : String)
    (entry : Touched Cid) : Option RecordDescript :=
  if entry.1 = profileKey then describe reads repo did entry else none

def postOf (reads : Reads Blob enc) (repo : Repository enc) (did : String)
    (entry : Touched Cid) : Option RecordDescript :=
  if isPost entry.1 then describe reads repo did entry else none

theorem posts_addRecord : (addRecord reads repo did l entry).posts =
    l.posts ++ (postOf reads repo did entry).toList := by
  obtain ⟨⟨collection, rkey⟩, value⟩ := entry
  rw [addRecord, postOf]
  cases describe reads repo did ((collection, rkey), value) with
  | none => simp
  | some d =>
    simp only [LocalRecords.add, isPost, beq_iff_eq]
    by_cases hProfile : collection = "app.bsky.actor.profile" ∧ rkey = "self"
    · simp [hProfile]
    · by_cases hPost : collection = "app.bsky.feed.post"
      · simp [hPost]
      · simp [hProfile, hPost]

theorem profile_addRecord : (addRecord reads repo did l entry).profile =
    (profileOf reads repo did entry).or l.profile := by
  obtain ⟨⟨collection, rkey⟩, value⟩ := entry
  rw [addRecord, profileOf]
  cases describe reads repo did ((collection, rkey), value) with
  | none => simp
  | some d =>
    simp only [LocalRecords.add, profileKey, Prod.mk.injEq]
    by_cases hProfile : collection = "app.bsky.actor.profile" ∧ rkey = "self"
    · simp [hProfile]
    · by_cases hPost : collection = "app.bsky.feed.post"
      · simp [hPost]
      · simp [hProfile, hPost]

theorem posts_foldl : (entries.foldl (addRecord reads repo did) l).posts =
    l.posts ++ entries.filterMap (postOf reads repo did) := by
  induction entries generalizing l with
  | nil => simp
  | cons entry entries ih =>
    rw [List.foldl_cons, ih, posts_addRecord, List.append_assoc]
    cases hPost : postOf reads repo did entry with
    | none => simp [hPost]
    | some d => simp [hPost]

theorem profile_foldl : (entries.foldl (addRecord reads repo did) l).profile =
    ((entries.filterMap (profileOf reads repo did)).getLast?).or l.profile := by
  induction entries generalizing l with
  | nil => simp
  | cons entry entries ih =>
    rw [List.foldl_cons, ih, profile_addRecord]
    cases hProfile : profileOf reads repo did entry with
    | none => simp [hProfile]
    | some d =>
      rw [List.filterMap_cons_some hProfile, List.getLast?_cons]
      cases (entries.filterMap (profileOf reads repo did)).getLast? with
      | none => rfl
      | some e => rfl

theorem mem_posts : d ∈ (entries.foldl (addRecord reads repo did) .default).posts ↔
    ∃ entry ∈ entries, isPost entry.1 = true ∧ describe reads repo did entry = some d := by
  rw [posts_foldl, LocalRecords.default, List.nil_append, List.mem_filterMap]
  simp [postOf]

/-- No two entries have the key of the profile. -/
theorem profile_eq_some (hKeyed : Keyed Prod.fst entries) :
    (entries.foldl (addRecord reads repo did) .default).profile = some d ↔
      ∃ entry ∈ entries, entry.1 = profileKey ∧ describe reads repo did entry = some d := by
  have hMem : ∀ e, e ∈ entries.filterMap (profileOf reads repo did) ↔
      ∃ entry ∈ entries, entry.1 = profileKey ∧ describe reads repo did entry = some e := by
    intro e
    rw [List.mem_filterMap]
    simp [profileOf]
  rw [profile_foldl, LocalRecords.default, Option.or_none, ← hMem]
  constructor
  · exact List.mem_of_getLast?
  · intro hd
    obtain ⟨last, hLast⟩ := Option.isSome_iff_exists.mp
      (List.getLast?_isSome.mpr (List.ne_nil_of_mem hd))
    obtain ⟨entry, hEntry, hKey, hDescribed⟩ := (hMem last).mp (List.mem_of_getLast? hLast)
    obtain ⟨entry', hEntry', hKey', hDescribed'⟩ := (hMem d).mp hd
    have hSame : entry = entry' := hKeyed.eq_of_key hEntry hEntry' (hKey.trans hKey'.symm)
    rw [hSame, hDescribed'] at hDescribed
    rw [hLast, hDescribed]

/-! ## When the answer is right -/

/-- Some commit after `header` created or updated the record, and it still exists. -/
structure Selected (header : String) (history : List (HistoryCommit Cid))
    (current : Repo.Tree Cid) (key : String × String) (cid : Cid) : Prop where
  listed : Listed key
  written : ∃ c ∈ history, header < c.rev ∧ ∃ w ∈ c.writes, w.action ≠ .delete ∧
    w.key = key
  exists_ : current.get? (recordKey key.1 key.2) = some cid

/-- The answer shows the record that is at the key, under its own CID. -/
structure Shows (enc : Encoders Cid) (did header : String) (history : List (HistoryCommit Cid))
    (current : Repo.Tree Cid) (key : String × String) (d : RecordDescript) : Prop where
  uri : d.uri = recordUri did key.1 key.2
  value : ∃ cid value, Selected header history current key cid ∧
    enc.recordBlock value = cid ∧ d.cid = CidText.toText cid ∧
    recordValueToJson enc.b64 value = .ok d.record

/-- The answer has each record that was written after `header` and still exists, once, and
nothing else. -/
structure Exact (enc : Encoders Cid) (did header : String) (history : List (HistoryCommit Cid))
    (current : Repo.Tree Cid) (l : LocalRecords) : Prop where
  profile : ∀ d, l.profile = some d → Shows enc did header history current profileKey d
  posts : ∀ d ∈ l.posts, ∃ key, isPost key = true ∧ Shows enc did header history current key d
  complete : ∀ key cid, Selected header history current key cid →
    ∃ d ∈ l.all, d.uri = recordUri did key.1 key.2
  once : (l.all.map RecordDescript.uri).Nodup
  count : l.count = l.all.length

/-- What the call reads: the stored events are those of `stored`, and the persisted root is
that of `head`. -/
structure Reads.Of [DagCbor Blob] (reads : Reads Blob enc) (did : String)
    (stored : List (HistoryCommit Cid)) (head : Repository enc) : Prop where
  rows : ∀ table, reads.table = .ok table → List.Forall₂ StoredAs (table.commitsOf did) stored
  root : ∀ root, reads.repoRootCid = .ok root → root = some (CidText.toText head.root)
  opens : ∀ repo, reads.openRepository head.root = .ok repo → repo = head

/-- The scanned events have the last word on the record, and the reads reach it. -/
structure Settled (reads : Reads Blob enc) (header : String) (stored : List (HistoryCommit Cid))
    (head : Repository enc) (key : String × String) (cid : Cid) : Prop where
  lastWord : firstLeft (since header stored) key = some cid
  scanned : ∃ table, reads.table = .ok table
  opened : reads.repository = some head
  readable : ∃ record, reads.getRecordJson head (recordKey key.1 key.2) = .ok (some record)

variable {head : Repository enc} {key : String × String} {cid : Cid} {current : Repo.Tree Cid}

theorem slash_of_listed (h : Listed key) : '/' ∉ key.1.toList := by
  rcases h with rfl | hPost
  · decide
  · rw [eq_of_beq hPost]
    decide

theorem recordUri_inj {a b : String × String} (ha : '/' ∉ a.1.toList) (hb : '/' ∉ b.1.toList)
    (h : recordUri did a.1 a.2 = recordUri did b.1 b.2) : a = b := by
  have hKey : recordKey a.1 a.2 = recordKey b.1 b.2 := by
    have hText := congrArg String.toList h
    simp only [recordUri, String.toList_append, List.append_assoc] at hText
    apply String.toList_inj.mp
    simpa [recordKey] using hText
  have hSplit : splitRecordPath (recordKey a.1 a.2) = a := splitRecordPath_recordKey ha
  rw [hKey, splitRecordPath_recordKey hb] at hSplit
  exact hSplit.symm

theorem keyed_collectTouched [DagCbor Blob] (h : Keyed Prod.fst touched) :
    Keyed Prod.fst (collectTouched header touched rows) := by
  induction rows generalizing touched with
  | nil => exact h
  | cons row rows ih =>
    rw [collectTouched]
    split
    · split
      · exact h
      · rw [foldl_touchOp]
        exact ih (keyed_firstWins h)
    · exact ih h

/-- The record that is read is the one whose CID the tree has. -/
theorem getRecordJson_ok {path : String} {record : Json}
    (h : reads.getRecordJson repo path = .ok (some record)) :
    ∃ cid value, repo.tree.get? path = some cid ∧ enc.recordBlock value = cid ∧
      recordValueToJson enc.b64 value = .ok record := by
  obtain ⟨_, _, h⟩ := bind_ok.mp h
  split at h
  · cases h
  · rename_i cid hCid
    obtain ⟨value, hValue, h⟩ := bind_ok.mp h
    obtain ⟨json, hJson, h⟩ := bind_ok.mp h
    cases h
    exact ⟨cid, value, hCid, reads.addressed cid value hValue, hJson⟩

theorem describe_eq_some : describe reads repo did entry = some d ↔ ∃ record,
    reads.getRecordJson repo (recordKey entry.1.1 entry.1.2) = .ok (some record) ∧
      d = ⟨recordUri did entry.1.1 entry.1.2, CidText.toText entry.2.2, entry.2.1, record⟩ := by
  rw [describe]
  split
  · rename_i record hRead
    rw [hRead]
    simp [eq_comm]
  · rename_i hNone
    constructor
    · intro h
      cases h
    · rintro ⟨record, hRead, _⟩
      exact absurd hRead (hNone record)

omit [CidText Cid] in
theorem written_of_firstLeft (h : firstLeft (since header stored) key = some cid) :
    ∃ c ∈ stored, header < c.rev ∧ ∃ w ∈ c.writes, w.next = some cid ∧
      w.key = key := by
  obtain ⟨⟨k, left⟩, hFind, rfl⟩ := Option.map_eq_some_iff.mp h
  have hKey : k = key := by
    have hFound := List.find?_some hFind
    simp only [decide_eq_true_eq] at hFound
    exact hFound
  obtain ⟨w, hw, hLeft⟩ := List.mem_filterMap.mp (List.mem_of_find?_eq_some hFind)
  obtain ⟨c, hc, hw⟩ := List.mem_flatMap.mp hw
  obtain ⟨hc, hAfter⟩ := List.mem_filter.mp hc
  obtain ⟨left', hNext, hEq⟩ := Option.map_eq_some_iff.mp hLeft
  cases hEq
  exact ⟨c, List.mem_reverse.mp hc, of_decide_eq_true hAfter, w, hw, hNext, hKey⟩

theorem getRecordsSinceRev_eq [DagCbor Blob] {table : RepoSeq Blob}
    (hTable : reads.table = .ok table) (hRepo : reads.repository = some repo) :
    getRecordsSinceRev reads did (some header) =
      ((reads.visit (collectTouched header [] (table.recentCommitsForDid did 200))).foldl
        (addRecord reads repo did) .default).counted := by
  unfold getRecordsSinceRev
  rw [hTable]
  dsimp only
  rw [hRepo]

/-- An answer that has anything comes from reads that succeeded. -/
theorem scanned_of_mem [DagCbor Blob]
    (h : d ∈ (getRecordsSinceRev reads did (some header)).all) :
    ∃ table repo, reads.table = .ok table ∧ reads.repository = some repo := by
  cases hTable : reads.table with
  | error e => simp [getRecordsSinceRev, hTable, LocalRecords.default, LocalRecords.all] at h
  | ok table =>
    cases hRepo : reads.repository with
    | none =>
      simp [getRecordsSinceRev, hTable, hRepo, LocalRecords.default, LocalRecords.all] at h
    | some repo => exact ⟨table, repo, rfl, rfl⟩

/-- The keys of the entries are those of the records, so no record is described twice. -/
theorem nodup_uris (hKeyed : Keyed Prod.fst entries) :
    ((entries.foldl (addRecord reads repo did) .default).all.map RecordDescript.uri).Nodup := by
  have hUri : ∀ {entry : Touched Cid} {d : RecordDescript},
      describe reads repo did entry = some d → d.uri = recordUri did entry.1.1 entry.1.2 := by
    intro entry d h
    obtain ⟨record, -, rfl⟩ := describe_eq_some.mp h
    rfl
  rw [LocalRecords.all, List.map_append]
  refine List.nodup_append.mpr ⟨?_, ?_, ?_⟩
  · cases (entries.foldl (addRecord reads repo did) .default).profile with
    | none => simp
    | some d => simp
  · rw [posts_foldl, LocalRecords.default, List.nil_append, List.Nodup, List.pairwise_map,
      List.pairwise_filterMap]
    refine (List.pairwise_map.mp hKeyed).imp ?_
    intro a b hNe d hd e he hSame
    simp only [postOf, Option.ite_none_right_eq_some] at hd he
    rw [hUri hd.2, hUri he.2] at hSame
    exact hNe (recordUri_inj (slash_of_listed (Or.inr hd.1)) (slash_of_listed (Or.inr he.1)) hSame)
  · intro a ha b hb hSame
    obtain ⟨d, hd, rfl⟩ := List.mem_map.mp ha
    obtain ⟨e, he, rfl⟩ := List.mem_map.mp hb
    rw [Option.mem_toList] at hd
    obtain ⟨entry, _, hKey, hd⟩ := (profile_eq_some hKeyed).mp hd
    obtain ⟨entry', _, hPost, he⟩ := mem_posts.mp he
    rw [hUri hd, hUri he] at hSame
    have hEq := recordUri_inj (slash_of_listed (Or.inl hKey)) (slash_of_listed (Or.inr hPost)) hSame
    rw [← hEq, hKey] at hPost
    exact absurd hPost (by decide)

variable {base : Repo.Tree Cid} {landed : List (HistoryCommit Cid)}

/-- An entry whose record can be read tells of a record that was written and still exists. -/
theorem selected_of_read {record : Json} (hHistory : IsHistory base history)
    (hStored : stored.Sublist history) (hListed : Listed key)
    (hLeft : firstLeft (since header stored) key = some cid)
    (hRead : reads.getRecordJson head (recordKey key.1 key.2) = .ok (some record)) :
    ∃ cid value, Selected header history head.tree key cid ∧ enc.recordBlock value = cid ∧
      recordValueToJson enc.b64 value = .ok record := by
  obtain ⟨current, value, hCurrent, hBlock, hJson⟩ := getRecordJson_ok hRead
  obtain ⟨c, hc, hAfter, w, hw, hNext, hKey⟩ := written_of_firstLeft hLeft
  have hMem : c ∈ history := hStored.subset hc
  have hAction : w.action ≠ .delete := by
    intro hDelete
    have hKinded := hHistory.kinded c hMem w hw
    simp [Written.Kinded, hDelete, hNext] at hKinded
  exact ⟨current, value, ⟨hListed, ⟨c, hMem, hAfter, w, hw, hAction, hKey⟩, hCurrent⟩, hBlock,
    hJson⟩

/-- An entry on whose record the scanned events have the last word. -/
theorem shows_of_entry {entry : Touched Cid} (hHistory : IsHistory base history)
    (hStored : stored.Sublist history) (hListed : Listed entry.1)
    (hLeft : firstLeft (since header stored) entry.1 = some entry.2.2)
    (hLast : ∀ cid, Selected header history head.tree entry.1 cid →
      firstLeft (since header stored) entry.1 = some cid)
    (hDescribed : describe reads head did entry = some d) :
    Shows enc did header history head.tree entry.1 d := by
  obtain ⟨record, hRead, rfl⟩ := describe_eq_some.mp hDescribed
  obtain ⟨cid, value, hSelected, hBlock, hJson⟩ :=
    selected_of_read hHistory hStored hListed hLeft hRead
  have hCid : entry.2.2 = cid := Option.some.inj (hLeft.symm.trans (hLast cid hSelected))
  exact ⟨rfl, cid, value, hSelected, hBlock, congrArg CidText.toText hCid, hJson⟩

theorem Exact.shows (h : Exact enc did header history current l) (hd : d ∈ l.all) :
    ∃ key, Listed key ∧ Shows enc did header history current key d := by
  rw [LocalRecords.all, List.mem_append, Option.mem_toList] at hd
  rcases hd with hd | hd
  · exact ⟨profileKey, Or.inl rfl, h.profile d hd⟩
  · obtain ⟨key, hPost, hShows⟩ := h.posts d hd
    exact ⟨key, Or.inr hPost, hShows⟩

variable [DagCbor Blob] {table : RepoSeq Blob}

theorem Reads.Of.repository_eq [LawfulCidText Cid] (h : reads.Of did stored head)
    (hRepo : reads.repository = some repo) : repo = head := by
  rw [Reads.repository] at hRepo
  split at hRepo
  · rename_i root hRoot
    cases h.root _ hRoot
    rw [LawfulCidText.tryFrom_toText] at hRepo
    dsimp only at hRepo
    cases hOpened : reads.openRepository head.root with
    | error e =>
      rw [hOpened] at hRepo
      cases hRepo
    | ok opened =>
      rw [hOpened] at hRepo
      cases hRepo
      exact h.opens _ hOpened
  · cases hRepo

/-- The profile of the answer, and its posts, come from the touched records. -/
theorem mem_answer (hTable : reads.table = .ok table) (hRepo : reads.repository = some repo) :
    ((getRecordsSinceRev reads did (some header)).profile = some d ↔
      ∃ entry ∈ collectTouched header [] (table.recentCommitsForDid did 200),
        entry.1 = profileKey ∧ describe reads repo did entry = some d) ∧
    (d ∈ (getRecordsSinceRev reads did (some header)).posts ↔
      ∃ entry ∈ collectTouched header [] (table.recentCommitsForDid did 200),
        isPost entry.1 = true ∧ describe reads repo did entry = some d) := by
  have hPerm := reads.visit_perm (collectTouched header [] (table.recentCommitsForDid did 200))
  have hKeyed : Keyed Prod.fst (reads.visit
      (collectTouched header [] (table.recentCommitsForDid did 200))) :=
    (hPerm.map Prod.fst).nodup_iff.mpr (keyed_collectTouched List.nodup_nil)
  rw [getRecordsSinceRev_eq hTable hRepo, LocalRecords.counted]
  simp only [profile_eq_some hKeyed, mem_posts, hPerm.mem_iff, and_self]

theorem mem_all (hTable : reads.table = .ok table) (hRepo : reads.repository = some repo) :
    d ∈ (getRecordsSinceRev reads did (some header)).all ↔
      ∃ entry ∈ collectTouched header [] (table.recentCommitsForDid did 200),
        Listed entry.1 ∧ describe reads repo did entry = some d := by
  rw [LocalRecords.all, List.mem_append, Option.mem_toList, (mem_answer hTable hRepo).1,
    (mem_answer hTable hRepo).2]
  constructor
  · rintro (⟨entry, hEntry, hKey, hDescribed⟩ | ⟨entry, hEntry, hPost, hDescribed⟩)
    · exact ⟨entry, hEntry, Or.inl hKey, hDescribed⟩
    · exact ⟨entry, hEntry, Or.inr hPost, hDescribed⟩
  · rintro ⟨entry, hEntry, hKey | hPost, hDescribed⟩
    · exact Or.inl ⟨entry, hEntry, hKey, hDescribed⟩
    · exact Or.inr ⟨entry, hEntry, hPost, hDescribed⟩

theorem once_answer :
    ((getRecordsSinceRev reads did (some header)).all.map RecordDescript.uri).Nodup := by
  cases hAll : (getRecordsSinceRev reads did (some header)).all with
  | nil => exact List.nodup_nil
  | cons d ds =>
    have hd : d ∈ (getRecordsSinceRev reads did (some header)).all := by
      rw [hAll]
      exact List.mem_cons_self
    obtain ⟨table, repo, hTable, hRepo⟩ := scanned_of_mem hd
    have hPerm := reads.visit_perm (collectTouched header [] (table.recentCommitsForDid did 200))
    rw [← hAll, getRecordsSinceRev_eq hTable hRepo]
    exact nodup_uris ((hPerm.map Prod.fst).nodup_iff.mpr (keyed_collectTouched List.nodup_nil))

theorem count_eq : (getRecordsSinceRev reads did (some header)).count =
    (getRecordsSinceRev reads did (some header)).all.length := by
  unfold getRecordsSinceRev
  split
  · rfl
  · rfl
  · dsimp only
    split
    · rfl
    · rename_i repo _
      rw [LocalRecords.all, List.length_append, LocalRecords.counted]
      cases (List.foldl (addRecord reads repo did) LocalRecords.default _).profile with
      | none => rfl
      | some d => rfl

/-- The answer to a read at `header` is right if and only if the scanned events have the last
word on every record that belongs into it, and the reads reach these records. -/
theorem exact_iff_settled [LawfulCidText Cid] (hHistory : IsHistory base (history ++ landed))
    (hHead : head.tree = treeAfter base (history ++ landed)) (hStored : stored.Sublist history)
    (hReads : reads.Of did stored head) (hScan : (since header history).length ≤ 200) :
    Exact enc did header history (treeAfter base (history ++ landed))
        (getRecordsSinceRev reads did (some header)) ↔
      ∀ key cid, Selected header history (treeAfter base (history ++ landed)) key cid →
        Settled reads header stored head key cid := by
  rw [← hHead]
  have hBefore : IsHistory base history := hHistory.before
  have hRevs : stored.Pairwise fun c d => c.rev ≤ d.rev := hBefore.revs.sublist hStored
  have hRoom : (since header stored).length ≤ 200 :=
    le_trans (hStored.reverse.filter _).length_le hScan
  constructor
  · intro hExact key cid hSelected
    obtain ⟨d, hd, hUri⟩ := hExact.complete key cid hSelected
    obtain ⟨table, repo, hTable, hRepo⟩ := scanned_of_mem hd
    obtain ⟨shown, hShownListed, hShown⟩ := hExact.shows hd
    obtain ⟨entry, hEntry, hEntryListed, hDescribed⟩ := (mem_all hTable hRepo).mp hd
    obtain ⟨record, hRead, rfl⟩ := describe_eq_some.mp hDescribed
    obtain ⟨entryKey, time, left⟩ := entry
    have hKey : entryKey = key :=
      recordUri_inj (slash_of_listed hEntryListed) (slash_of_listed hSelected.listed) hUri
    have hShownKey : shown = key :=
      recordUri_inj (slash_of_listed hShownListed) (slash_of_listed hSelected.listed)
        (hShown.uri.symm.trans hUri)
    subst hKey hShownKey
    have hLeft := (mem_touched (hReads.rows table hTable) hRevs hRoom).mp ⟨time, hEntry⟩
    obtain ⟨current, value, hCurrent, -, hText, -⟩ := hShown.value
    have hSame : current = cid :=
      Option.some.inj (hCurrent.exists_.symm.trans hSelected.exists_)
    have hLeftCid : left = cid := (toText_injective hText).trans hSame
    rw [hLeftCid] at hLeft
    rw [hReads.repository_eq hRepo] at hRead hRepo
    exact ⟨hLeft, ⟨table, hTable⟩, hRepo, ⟨record, hRead⟩⟩
  · intro hSettled
    have hShows : ∀ {table : RepoSeq Blob} {repo : Repository enc} {entry : Touched Cid}
        {d : RecordDescript}, reads.table = .ok table → reads.repository = some repo →
        entry ∈ collectTouched header [] (table.recentCommitsForDid did 200) →
        Listed entry.1 → describe reads repo did entry = some d →
        Shows enc did header history head.tree entry.1 d := by
      intro table repo entry d hTable hRepo hEntry hListed hDescribed
      rw [hReads.repository_eq hRepo] at hDescribed
      have hLeft := (mem_touched (hReads.rows table hTable) hRevs hRoom).mp ⟨entry.2.1, hEntry⟩
      exact shows_of_entry hBefore hStored hListed hLeft
        (fun cid hSelected => (hSettled entry.1 cid hSelected).lastWord) hDescribed
    refine ⟨?_, ?_, ?_, once_answer, count_eq⟩
    · intro d hd
      have hMem : d ∈ (getRecordsSinceRev reads did (some header)).all := by
        rw [LocalRecords.all, List.mem_append, Option.mem_toList]
        exact Or.inl hd
      obtain ⟨table, repo, hTable, hRepo⟩ := scanned_of_mem hMem
      obtain ⟨entry, hEntry, hKey, hDescribed⟩ := (mem_answer hTable hRepo).1.mp hd
      have hShown := hShows hTable hRepo hEntry (Or.inl hKey) hDescribed
      rw [hKey] at hShown
      exact hShown
    · intro d hd
      have hMem : d ∈ (getRecordsSinceRev reads did (some header)).all :=
        List.mem_append_right _ hd
      obtain ⟨table, repo, hTable, hRepo⟩ := scanned_of_mem hMem
      obtain ⟨entry, hEntry, hPost, hDescribed⟩ := (mem_answer hTable hRepo).2.mp hd
      exact ⟨entry.1, hPost, hShows hTable hRepo hEntry (Or.inr hPost) hDescribed⟩
    · intro key cid hSelected
      obtain ⟨hLast, ⟨table, hTable⟩, hRepo, ⟨record, hRead⟩⟩ := hSettled key cid hSelected
      obtain ⟨time, hEntry⟩ := (mem_touched (hReads.rows table hTable) hRevs hRoom).mpr hLast
      have hDescribed : describe reads head did (key, (time, cid)) =
          some ⟨recordUri did key.1 key.2, CidText.toText cid, time, record⟩ :=
        describe_eq_some.mpr ⟨record, hRead, rfl⟩
      have hMem := (mem_all hTable hRepo).mpr ⟨(key, (time, cid)), hEntry, hSelected.listed,
        hDescribed⟩
      exact ⟨_, hMem, rfl⟩

/-! ## One write of a record in each commit -/

/-- No commit writes the record twice. -/
def OneWrite (history : List (HistoryCommit Cid)) (key : String × String) : Prop :=
  ∀ c ∈ history, c.writes.Pairwise fun v w => v.key = key → w.key ≠ key

omit [CidText Cid] in
theorem Written.edit_key {w : Written Cid} (hSlash : '/' ∉ w.collection.toList)
    (hListed : Listed key) : w.edit.key = recordKey key.1 key.2 ↔ w.key = key := by
  constructor
  · intro h
    have hSplit : splitRecordPath w.edit.key = w.key := splitRecordPath_recordKey hSlash
    rw [h, splitRecordPath_recordKey (slash_of_listed hListed)] at hSplit
    exact hSplit.symm
  · rintro rfl
    rfl

omit [CidText Cid] in
/-- A write that is alone at its key decides what the key holds. -/
theorem get?_of_oneWrite {ws : List (Written Cid)} {w : Written Cid} {m : Repo.Tree Cid}
    (hSlash : ∀ w ∈ ws, '/' ∉ w.collection.toList) (hListed : Listed key)
    (hOne : ws.Pairwise fun v w => v.key = key → w.key ≠ key) (hw : w ∈ ws) (hKey : w.key = key) :
    (Edit.applyAll m (ws.map Written.edit)).get? (recordKey key.1 key.2) = w.next := by
  obtain ⟨before, after, rfl⟩ := List.append_of_mem hw
  have hAfter : ∀ e ∈ after.map Written.edit, e.key ≠ recordKey key.1 key.2 := by
    intro e he
    obtain ⟨v, hv, rfl⟩ := List.mem_map.mp he
    have hNe := (List.pairwise_cons.mp (List.pairwise_append.mp hOne).2.1).1 v hv hKey
    exact fun h => hNe ((Written.edit_key (hSlash v (by simp [hv])) hListed).mp h)
  have hHere : w.edit.key = recordKey key.1 key.2 :=
    (Written.edit_key (hSlash w hw) hListed).mpr hKey
  rw [List.map_append, List.map_cons, Edit.applyAll_append, Edit.applyAll_cons,
    Edit.get?_applyAll_of_forall_ne hAfter, Edit.apply, ← hHere, SortedMap.get?_set, if_pos rfl]
  rfl

omit [CidText Cid] in
/-- What a commit without a write at the key leaves there, and what it adds to the scan. -/
theorem find?_left_of_not_mem {ws : List (Written Cid)} (h : ∀ w ∈ ws, w.key ≠ key) :
    (ws.filterMap Written.left).find? (fun e => e.1 = key) = none := by
  rw [List.find?_eq_none]
  intro e he
  obtain ⟨w, hw, hLeft⟩ := List.mem_filterMap.mp he
  obtain ⟨cid, -, rfl⟩ := Option.map_eq_some_iff.mp hLeft
  simpa using h w hw

omit [CidText Cid] in
theorem find?_left_of_oneWrite {ws : List (Written Cid)} {w : Written Cid}
    (hOne : ws.Pairwise fun v w => v.key = key → w.key ≠ key) (hw : w ∈ ws) (hKey : w.key = key)
    (hNext : w.next = some cid) :
    (ws.filterMap Written.left).find? (fun e => e.1 = key) = some (key, cid) := by
  obtain ⟨before, after, rfl⟩ := List.append_of_mem hw
  have hBefore : ∀ v ∈ before, v.key ≠ key :=
    fun v hv h => (List.pairwise_append.mp hOne).2.2 v hv w (by simp) h hKey
  have hLeft : w.left = some (key, cid) := by rw [Written.left, hNext, hKey, Option.map_some]
  rw [List.filterMap_append, List.find?_append, find?_left_of_not_mem hBefore, Option.none_or,
    List.filterMap_cons_some hLeft, List.find?_cons_of_pos (by simp)]

omit [CidText Cid] in
/-- Where no commit writes the record twice, the events have the last word on what they led
to. -/
theorem firstLeft_of_oneWrite (hHistory : IsHistory base history) (hOne : OneWrite history key)
    (hSelected : Selected header history (treeAfter base history) key cid) :
    firstLeft (since header history) key = some cid := by
  induction history using List.reverseRecOn with
  | nil =>
    obtain ⟨c, hc, -⟩ := hSelected.written
    cases hc
  | append_singleton history last ih =>
    obtain ⟨c, hc, hAfter, w, hw, hAction, hKey⟩ := hSelected.written
    have hRev : c.rev ≤ last.rev := by
      rcases List.mem_append.mp hc with hc | hc
      · exact (List.pairwise_append.mp hHistory.revs).2.2 c hc last (by simp)
      · rw [List.mem_singleton.mp hc]
    have hLast : last.isAfter header = true := decide_eq_true (lt_of_lt_of_le hAfter hRev)
    have hSince : since header (history ++ [last]) = last :: since header history := by
      rw [since, List.reverse_append, List.reverse_singleton, List.singleton_append,
        List.filter_cons_of_pos hLast]
      rfl
    have hSlash := hHistory.collection last (by simp)
    have hTree : treeAfter base (history ++ [last]) =
        Edit.applyAll (treeAfter base history) (last.writes.map Written.edit) := by
      rw [treeAfter_append]
      simp [treeAfter, edits]
    have hHolds := hSelected.exists_
    rw [hTree] at hHolds
    rw [firstLeft, hSince, List.flatMap_cons, List.filterMap_append, List.find?_append]
    by_cases hTouched : ∃ w ∈ last.writes, w.key = key
    · obtain ⟨v, hv, hvKey⟩ := hTouched
      have hOneLast := hOne last (by simp)
      rw [get?_of_oneWrite hSlash hSelected.listed hOneLast hv hvKey] at hHolds
      rw [find?_left_of_oneWrite hOneLast hv hvKey hHolds]
      rfl
    · simp only [not_exists, not_and] at hTouched
      have hUntouched : ∀ e ∈ last.writes.map Written.edit, e.key ≠ recordKey key.1 key.2 := by
        intro e he
        obtain ⟨v, hv, rfl⟩ := List.mem_map.mp he
        exact fun h =>
          hTouched v hv ((Written.edit_key (hSlash v hv) hSelected.listed).mp h)
      rw [Edit.get?_applyAll_of_forall_ne hUntouched] at hHolds
      have hEarlier : c ∈ history := by
        rcases List.mem_append.mp hc with hc | hc
        · exact hc
        · rw [List.mem_singleton.mp hc] at hw
          exact absurd hKey (hTouched w hw)
      rw [find?_left_of_not_mem hTouched, Option.none_or]
      exact ih hHistory.before (fun c hc => hOne c (List.mem_append_left _ hc))
        ⟨hSelected.listed, ⟨c, hEarlier, hAfter, w, hw, hAction, hKey⟩, hHolds⟩

/-! ## A batch that updates a record twice -/

def samplePostValue (text : String) : Ipld String :=
  .map [("text", .string text)]

def sampleBlock (cid : String) : Except RecordError (Ipld String) :=
  if cid = "record one" then .ok (samplePostValue "one")
  else if cid = "record two" then .ok (samplePostValue "two")
  else .error (.repo "block not found")

theorem sampleBlock_addressed : ∀ cid value, sampleBlock cid = .ok value →
    sampleEncoders.recordBlock value = cid := by
  intro cid value h
  rw [sampleBlock] at h
  split at h
  · rename_i hOne
    cases h
    rw [hOne]
    rfl
  · split at h
    · rename_i hTwo
      cases h
      rw [hTwo]
      rfl
    · cases h

def commitInput (c : HistoryCommit String) : CommitInput where
  repo := "did:plc:alice"
  commit := ""
  rev := c.rev
  since := none
  prevData := none
  ops := c.writes.map Written.op
  blocks := []

/-- The one row of a log with the event of `c`. -/
def storedEvent (c : HistoryCommit String) : EventRow Stored where
  did := "did:plc:alice"
  eventType := "commit"
  event := .commit
    { repo := "did:plc:alice", commit := "", rev := c.rev, since := none, prevData := none,
      time := "2026-06-30T00:00:00.000Z",
      ops := (c.writes.map Written.op).map StoredOp.ofRepoOp, blocks := [] }
  sequencedAt := "2026-06-30T00:00:00.000Z"

def sampleLog (c : HistoryCommit String) : RepoSeq Stored where
  table := ⟨[(1, storedEvent c)], List.pairwise_singleton _ _⟩
  bounded := by
    intro k hk
    rw [List.mem_singleton.mp hk]
    exact Nat.le_of_ble_eq_true rfl

/-- A call right after the commit `c`, with nothing in between. -/
def sampleReads (c : HistoryCommit String) (head : Repository sampleEncoders) :
    Reads Stored sampleEncoders where
  table := .ok (sampleLog c)
  repoRootCid := .ok (some head.root)
  openRepository := fun _ => .ok head
  walk := fun _ => .ok ()
  readBlock := sampleBlock
  visit := id
  addressed := sampleBlock_addressed
  visit_perm := fun _ => .refl _

theorem sampleReads_of (c : HistoryCommit String) (head : Repository sampleEncoders) :
    (sampleReads c head).Of "did:plc:alice" [c] head where
  rows := by
    intro table hTable
    cases hTable
    have hEncoded : (EventInput.commit (commitInput c)).encode "2026-06-30T00:00:00.000Z" =
        .ok (storedEvent c).event := rfl
    exact .cons (storedAs_of_encode hEncoded ⟨rfl, rfl⟩ 1) .nil
  root := by
    intro root hRoot
    cases hRoot
    rfl
  opens := by
    intro repo hRepo
    cases hRepo
    rfl

/-- A commit on an empty repository. -/
def firstCommit (writes : List (Written String)) : HistoryCommit String :=
  ⟨"3jzfcijpj2z2b", writes⟩

def updateTo (prev : Option String) (next : String) : Written String where
  action := .update
  collection := "app.bsky.feed.post"
  rkey := "a"
  prev := prev
  next := some next
  value := none

theorem isHistory_firstCommit {writes : List (Written String)}
    (hChained : Edit.Chained .empty (writes.map Written.edit)) (hKinded : ∀ w ∈ writes, w.Kinded)
    (hSlash : ∀ w ∈ writes, '/' ∉ w.collection.toList) :
    IsHistory .empty ([firstCommit writes] ++ []) where
  revs := List.pairwise_singleton _ _
  chained := by simpa [edits, firstCommit] using hChained
  kinded := by simpa [firstCommit] using hKinded
  collection := by simpa [firstCommit] using hSlash

/-- The repository after the commit, whatever its commit block says. -/
def headAfter (c : HistoryCommit String) : Repository sampleEncoders :=
  sampleRepo (treeAfter .empty ([c] ++ []))

def oneUpdate : HistoryCommit String :=
  firstCommit [updateTo none "record one"]

def twoUpdates : HistoryCommit String :=
  firstCommit [updateTo none "record one", updateTo (some "record one") "record two"]

/-- The write of one request. -/
example : ((landedOf (handle (sampleEnv "com.atproto.access") (sampleAccounts .empty)
    (.applyWrites "did:plc:alice"
      [.update "app.bsky.feed.post" "a" (samplePost "one"),
        .update "app.bsky.feed.post" "a" (samplePost "two")] none none))).map fun landed =>
      landed.ops.map fun op => (op.action, op.path, op.prev, op.cid)) =
    some (twoUpdates.writes.map fun w => (w.op.action, w.op.path, w.op.prev, w.op.cid)) := by
  decide +kernel

theorem exact_oneUpdate : Exact sampleEncoders "did:plc:alice" "3jzfcijpj2z2a" [oneUpdate]
    (treeAfter .empty ([oneUpdate] ++ []))
    (getRecordsSinceRev (sampleReads oneUpdate (headAfter oneUpdate)) "did:plc:alice"
      (some "3jzfcijpj2z2a")) := by
  have hHistory : IsHistory .empty ([oneUpdate] ++ []) :=
    isHistory_firstCommit ⟨rfl, trivial⟩ (by simp [Written.Kinded, updateTo]) (by decide)
  refine (exact_iff_settled hHistory rfl (List.Sublist.refl _) (sampleReads_of oneUpdate _)
    (by decide)).mpr ?_
  intro key cid hSelected
  have hOne : OneWrite [oneUpdate] key := by simp [OneWrite, oneUpdate, firstCommit]
  have hKey : key = ("app.bsky.feed.post", "a") := by
    obtain ⟨c, hc, _, w, hw, _, rfl⟩ := hSelected.written
    rw [List.mem_singleton.mp hc] at hw
    rw [List.mem_singleton.mp hw]
    rfl
  refine ⟨firstLeft_of_oneWrite hHistory.before hOne hSelected, ⟨_, rfl⟩, rfl, ?_⟩
  rw [hKey]
  exact ⟨_, rfl⟩

/-- The record of the answer has the CID of the first of the two updates. -/
theorem batch_mispaired :
    ¬ ∀ (base : Repo.Tree String) (history landed stored : List (HistoryCommit String))
      (head : Repository sampleEncoders) (reads : Reads Stored sampleEncoders)
      (did header : String),
      IsHistory base (history ++ landed) → head.tree = treeAfter base (history ++ landed) →
      stored.Sublist history → reads.Of did stored head → (since header history).length ≤ 200 →
      Exact sampleEncoders did header history (treeAfter base (history ++ landed))
        (getRecordsSinceRev reads did (some header)) := by
  intro hClaim
  have hHistory : IsHistory .empty ([twoUpdates] ++ []) :=
    isHistory_firstCommit ⟨rfl, by decide, trivial⟩ (by simp [Written.Kinded, updateTo])
      (by decide)
  have hExact := hClaim _ _ _ _ _ _ _ "3jzfcijpj2z2a" hHistory rfl (List.Sublist.refl _)
    (sampleReads_of twoUpdates (headAfter twoUpdates)) (by decide)
  have hPosts : ((getRecordsSinceRev (sampleReads twoUpdates (headAfter twoUpdates))
      "did:plc:alice" (some "3jzfcijpj2z2a")).posts.map fun d => (d.uri, d.cid)) =
        [("at://did:plc:alice/app.bsky.feed.post/a", "record one")] := by
    decide +kernel
  have hTree : (treeAfter .empty ([twoUpdates] ++ [])).get? "app.bsky.feed.post/a" =
      some "record two" := by
    decide +kernel
  obtain ⟨d, hd, hEq⟩ := List.mem_map.mp (hPosts ▸ List.mem_singleton_self _)
  obtain ⟨key, hPost, hUri, cid, value, hSelected, _, hCid, _⟩ := hExact.posts d hd
  obtain ⟨hShownUri, hShownCid⟩ := Prod.mk.inj hEq
  have hKey : key = ("app.bsky.feed.post", "a") :=
    recordUri_inj (slash_of_listed (Or.inr hPost)) (by decide) (hUri.symm.trans hShownUri)
  have hHolds := hSelected.exists_
  rw [hKey] at hHolds
  have hOther : cid = "record two" := Option.some.inj (hHolds.symm.trans hTree)
  rw [hOther, hShownCid] at hCid
  exact absurd hCid (by decide)

end Ezpds.Pds
