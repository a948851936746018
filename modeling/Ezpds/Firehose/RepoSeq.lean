import Ezpds.Firehose.Events
import Ezpds.Library.SeqTable

/-!
# The `repo_seq` table

The queries over the durable event log. The sequence number is SQLite's signed
`INTEGER PRIMARY KEY`: a bound above `i64::MAX` is rejected before the statement runs,
so every stored number is at most `i64Max`.

* `insertEvent_ok`: an insertion succeeds exactly when the number is representable and
  not taken.
* `maxSeq_insertEvent`, `maxSeq_pruneBelow`: the frontier after an insertion, and after
  a prune below it.
-/

namespace Ezpds.Firehose

open Library

variable {Blob : Type}

/-- The columns of a row other than its key. -/
structure EventRow (Blob : Type) where
  did : String
  eventType : String
  event : Blob
  sequencedAt : String

/-- The table, with every key in the range of the column. -/
structure RepoSeq (Blob : Type) where
  table : SeqTable (EventRow Blob)
  bounded : ∀ k ∈ table.keys, k ≤ i64Max

/-- A row as it is read back for cursor replay. -/
structure StoredEventRow (Blob : Type) where
  seq : Nat
  eventType : String
  event : Blob

structure FirstReplayPage (Blob : Type) where
  rows : List (StoredEventRow Blob)
  cursorPresent : Bool

def StoredEventRow.ofRow (r : Nat × EventRow Blob) : StoredEventRow Blob where
  seq := r.1
  eventType := r.2.eventType
  event := r.2.event

/-- `i64::try_from`. -/
def toI64 (what : String) (n : Nat) : Except SqlxError Nat :=
  if n ≤ i64Max then .ok n else .error (.protocol (what ++ " exceeds i64 range"))

theorem toI64_ok {what : String} {n m : Nat} : toI64 what n = .ok m ↔ n = m ∧ n ≤ i64Max := by
  unfold toI64
  split
  · rename_i h
    simp [h]
  · rename_i h
    simp [h]

theorem toI64_of_le {what : String} {n : Nat} (h : n ≤ i64Max) : toI64 what n = .ok n :=
  toI64_ok.mpr ⟨rfl, h⟩

namespace RepoSeq

def empty : RepoSeq Blob where
  table := .empty
  bounded := by
    intro k hk
    cases hk

def seqs (t : RepoSeq Blob) : List Nat := t.table.keys

/-- `SELECT COALESCE(MAX(seq), 0) FROM repo_seq` -/
def maxSeq (t : RepoSeq Blob) : Nat := t.table.maxKey

theorem maxSeq_le (t : RepoSeq Blob) : t.maxSeq ≤ i64Max := by
  rcases Nat.eq_zero_or_pos t.maxSeq with h | h
  · rw [h]
    exact Nat.zero_le _
  · exact t.bounded _ (SeqTable.maxKey_mem h)

/-- `INSERT INTO repo_seq (seq, did, event_type, event, sequenced_at) VALUES (…)` -/
def insertEvent (t : RepoSeq Blob) (seq : Nat) (row : EventRow Blob) :
    Except SqlxError (RepoSeq Blob) :=
  if hSeq : seq ≤ i64Max then
    match h : t.table.insert seq row with
    | none => .error .uniqueViolation
    | some u =>
      .ok
        { table := u
          bounded := by
            intro k hk
            rcases (SeqTable.mem_keys_insert h).mp hk with rfl | hk
            · exact hSeq
            · exact t.bounded k hk }
  else .error (.protocol "firehose seq exceeds i64 range")

theorem insertEvent_ok {t u : RepoSeq Blob} {seq : Nat} {row : EventRow Blob} :
    t.insertEvent seq row = .ok u ↔
      seq ≤ i64Max ∧ t.table.insert seq row = some u.table := by
  unfold insertEvent
  by_cases hSeq : seq ≤ i64Max
  · rw [dif_pos hSeq]
    split
    · rename_i hv
      simp [hv]
    · rename_i v hv
      simp only [hv, hSeq, true_and, Except.ok.injEq, Option.some.injEq]
      cases u
      simp
  · rw [dif_neg hSeq]
    simp [hSeq]

theorem insertEvent_uniqueViolation {t : RepoSeq Blob} {seq : Nat} {row : EventRow Blob} :
    t.insertEvent seq row = .error .uniqueViolation ↔ seq ≤ i64Max ∧ seq ∈ t.seqs := by
  unfold insertEvent
  by_cases hSeq : seq ≤ i64Max
  · rw [dif_pos hSeq]
    split
    · rename_i hv
      exact ⟨fun _ => ⟨hSeq, SeqTable.insert_eq_none.mp hv⟩, fun _ => rfl⟩
    · rename_i v hv
      simp [seqs, SeqTable.not_mem_of_insert hv]
  · rw [dif_neg hSeq]
    simp [hSeq]

/-- A representable number that is not taken can be inserted. -/
theorem insertEvent_isOk {t : RepoSeq Blob} {seq : Nat} (row : EventRow Blob)
    (hSeq : seq ≤ i64Max) (hFree : seq ∉ t.seqs) : ∃ u, t.insertEvent seq row = .ok u := by
  obtain ⟨v, hv⟩ := SeqTable.insert_isSome row hFree
  refine ⟨⟨v, ?_⟩, insertEvent_ok.mpr ⟨hSeq, hv⟩⟩
  intro k hk
  rcases (SeqTable.mem_keys_insert hv).mp hk with rfl | hk
  · exact hSeq
  · exact t.bounded k hk

theorem mem_seqs_insertEvent {t u : RepoSeq Blob} {seq : Nat} {row : EventRow Blob}
    (h : t.insertEvent seq row = .ok u) {k : Nat} : k ∈ u.seqs ↔ k = seq ∨ k ∈ t.seqs :=
  SeqTable.mem_keys_insert (insertEvent_ok.mp h).2

theorem maxSeq_insertEvent {t u : RepoSeq Blob} {seq : Nat} {row : EventRow Blob}
    (h : t.insertEvent seq row = .ok u) : u.maxSeq = max t.maxSeq seq :=
  SeqTable.maxKey_insert (insertEvent_ok.mp h).2

/-- `SELECT MIN(seq) FROM repo_seq WHERE sequenced_at >= ?` -/
def retainedBoundarySeq (t : RepoSeq Blob) (cutoff : String) : Option Nat :=
  ((t.table.rows.filter fun r => cutoff ≤ r.2.sequencedAt).map (·.1)).min?

/-- `DELETE FROM repo_seq WHERE seq <= ?` -/
def prune (t : RepoSeq Blob) (low : Nat) : RepoSeq Blob where
  table := t.table.prune low
  bounded := fun k hk => t.bounded k (SeqTable.mem_keys_prune.mp hk).1

/-- The delete and its `rows_affected`. -/
def pruneBelow (t : RepoSeq Blob) (lowWaterMark : Nat) :
    Except SqlxError (Nat × RepoSeq Blob) := do
  let low ← toI64 "firehose prune watermark" lowWaterMark
  return ((t.seqs.filter (· ≤ low)).length, t.prune low)

theorem pruneBelow_ok {t u : RepoSeq Blob} {w n : Nat} (h : t.pruneBelow w = .ok (n, u)) :
    u = t.prune w := by
  obtain ⟨low, hLow, h⟩ := bind_ok.mp h
  obtain ⟨rfl, _⟩ := toI64_ok.mp hLow
  cases h
  rfl

theorem mem_seqs_prune {t : RepoSeq Blob} {w k : Nat} :
    k ∈ (t.prune w).seqs ↔ k ∈ t.seqs ∧ w < k :=
  SeqTable.mem_keys_prune

theorem maxSeq_prune {t : RepoSeq Blob} {w : Nat} (h : w < t.maxSeq) :
    (t.prune w).maxSeq = t.maxSeq :=
  SeqTable.maxKey_prune h

/-! ## Cursor replay pages -/

/-- The numbers of the rows with `after < seq ≤ upper`, oldest first. -/
def seqsIn (t : RepoSeq Blob) (after upper : Nat) : List Nat :=
  t.table.keysIn after upper

/-- The numbers of all rows above `after`, oldest first. -/
def seqsAfter (t : RepoSeq Blob) (after : Nat) : List Nat :=
  t.seqs.filter (after < ·)

theorem seqsAfter_sorted (t : RepoSeq Blob) (after : Nat) :
    (t.seqsAfter after).Pairwise (· < ·) :=
  t.table.keys_sorted.filter _

theorem seqsIn_maxSeq (t : RepoSeq Blob) (after : Nat) :
    t.seqsIn after t.maxSeq = t.seqsAfter after := by
  refine SeqTable.keysIn_eq (t.seqsAfter_sorted after) ?_
  intro k
  simp only [seqsAfter, List.mem_filter, decide_eq_true_eq]
  constructor
  · rintro ⟨hk, hlt⟩
    exact ⟨hk, hlt, SeqTable.le_maxKey hk⟩
  · rintro ⟨hk, hlt, _⟩
    exact ⟨hk, hlt⟩

/-- The rows with `after < seq ≤ upper`, oldest first, at most `limit` of them. -/
def eventsInRange (t : RepoSeq Blob) (after upper limit : Nat) :
    Except SqlxError (List (StoredEventRow Blob)) := do
  let after ← toI64 "firehose cursor" after
  let upper ← toI64 "firehose frontier" upper
  return (t.table.page after upper limit).map StoredEventRow.ofRow

/-- The `commit` events of one account, oldest first. -/
def commitsOf (t : RepoSeq Blob) (did : String) : List (StoredEventRow Blob) :=
  (t.table.rows.filter fun r => r.2.did == did && r.2.eventType == "commit").map
    StoredEventRow.ofRow

/-- The newest `limit` of them, newest first. -/
def recentCommitsForDid (t : RepoSeq Blob) (did : String) (limit : Nat) :
    List (StoredEventRow Blob) :=
  (t.commitsOf did).reverse.take limit

/-- The first page, and whether a row exists at or below the cursor. The bit is a column
of the returned rows, so an empty page reads as absent. -/
def firstEventsInRangeWithCursorPresence (t : RepoSeq Blob) (cursor upper limit : Nat) :
    Except SqlxError (FirstReplayPage Blob) := do
  let cursor ← toI64 "firehose cursor" cursor
  let upper ← toI64 "firehose frontier" upper
  let rows := (t.table.page cursor upper limit).map StoredEventRow.ofRow
  return { rows, cursorPresent := !rows.isEmpty && t.seqs.any (· ≤ cursor) }

theorem eventsInRange_ok {t : RepoSeq Blob} {after upper limit : Nat}
    {rows : List (StoredEventRow Blob)} (h : t.eventsInRange after upper limit = .ok rows) :
    rows = (t.table.page after upper limit).map StoredEventRow.ofRow := by
  obtain ⟨a, ha, h⟩ := bind_ok.mp h
  obtain ⟨b, hb, h⟩ := bind_ok.mp h
  obtain ⟨rfl, _⟩ := toI64_ok.mp ha
  obtain ⟨rfl, _⟩ := toI64_ok.mp hb
  cases h
  rfl

theorem eventsInRange_of_le (t : RepoSeq Blob) {after upper : Nat} (limit : Nat)
    (ha : after ≤ i64Max) (hu : upper ≤ i64Max) :
    t.eventsInRange after upper limit =
      .ok ((t.table.page after upper limit).map StoredEventRow.ofRow) := by
  unfold eventsInRange
  rw [toI64_of_le ha, toI64_of_le hu]
  rfl

theorem firstEventsInRange_ok {t : RepoSeq Blob} {cursor upper limit : Nat}
    {page : FirstReplayPage Blob}
    (h : t.firstEventsInRangeWithCursorPresence cursor upper limit = .ok page) :
    page.rows = (t.table.page cursor upper limit).map StoredEventRow.ofRow ∧
      (page.cursorPresent = true → ∃ k ∈ t.seqs, k ≤ cursor) := by
  obtain ⟨a, ha, h⟩ := bind_ok.mp h
  obtain ⟨b, hb, h⟩ := bind_ok.mp h
  obtain ⟨rfl, _⟩ := toI64_ok.mp ha
  obtain ⟨rfl, _⟩ := toI64_ok.mp hb
  cases h
  refine ⟨rfl, ?_⟩
  intro hp
  simpa using (Bool.and_eq_true_iff.mp hp).2

theorem firstEventsInRange_of_le (t : RepoSeq Blob) {cursor upper : Nat} (limit : Nat)
    (hc : cursor ≤ i64Max) (hu : upper ≤ i64Max) :
    ∃ page, t.firstEventsInRangeWithCursorPresence cursor upper limit = .ok page := by
  unfold firstEventsInRangeWithCursorPresence
  rw [toI64_of_le hc, toI64_of_le hu]
  exact ⟨_, rfl⟩

end RepoSeq

end Ezpds.Firehose
