import Ezpds.Firehose.RepoSeq

/-!
# Cursor replay

`ReplayReader` pages the durable log back out for a subscriber. One `next_batch` of a
reader that is not done is a page query (`query`) and the classification of the rows it
returned (`absorb`), which reads the prune floor; between the two a sweep may run.

* `absorbRows_ok`: what a page that is accepted delivers.
* `absorb_ok`: a batch is the page that was read, and a reader that reports the end has
  nothing left in the range it queried.
* `absorbRows_consecutive`: a page of consecutive numbers is accepted when its first gap
  is explained by pruning.
-/

namespace Ezpds.Firehose

open Library

variable {Blob : Type}

/-- Rows per page query. -/
def replayBatch : Nat := 256

structure ReplayReader where
  cursor : Nat
  upper : Nat
  after : Nat
  anchored : Bool
  firstPage : Bool
  cursorPresent : Bool
  done : Bool

namespace ReplayReader

def new (cursor upper : Nat) : ReplayReader where
  cursor := cursor
  upper := upper
  after := cursor
  anchored := false
  firstPage := true
  cursorPresent := false
  done := cursor ≥ upper

/-- The page query. The first one also reads whether a row exists at or below the
cursor, in the same statement. -/
def query (r : ReplayReader) (db : RepoSeq Blob) :
    Except FirehoseError (ReplayReader × List (StoredEventRow Blob)) :=
  if r.firstPage then do
    let page ← (db.firstEventsInRangeWithCursorPresence r.cursor r.upper replayBatch).mapError
      .db
    return ({ r with firstPage := false, cursorPresent := page.cursorPresent }, page.rows)
  else do
    let rows ← (db.eventsInRange r.after r.upper replayBatch).mapError .db
    return (r, rows)

section Absorb

variable [DagCbor Blob]

def anchorAt (r : ReplayReader) (row : StoredEventRow Blob) :
    Except FirehoseError (ReplayReader × FirehoseEvent) := do
  let event ← decodeStoredEvent row.seq row.eventType row.event
  return ({ r with anchored := true, after := row.seq }, event)

def gapError (r : ReplayReader) (seq : Nat) : FirehoseError :=
  .decode ("firehose replay gap: expected seq " ++ toString (r.after + 1) ++ ", found " ++
    toString seq)

def endError (r : ReplayReader) : FirehoseError :=
  .decode ("firehose replay backlog ended at seq " ++ toString r.after ++
    " before the frontier " ++ toString r.upper)

/-- One row of a page. A gap is a pruned run when the expected number is at or below the
prune floor, or when nothing was delivered yet and no row exists at or below the cursor;
any other gap is a hole. -/
def absorbRow (pruneFloor : Nat) (r : ReplayReader) (row : StoredEventRow Blob) :
    Except FirehoseError (ReplayReader × FirehoseEvent) :=
  if row.seq ≠ r.after + 1 then
    if r.after < pruneFloor then r.anchorAt row
    else if r.anchored then .error (r.gapError row.seq)
    else if r.cursorPresent then .error (r.gapError row.seq)
    else r.anchorAt row
  else r.anchorAt row

def absorbRows (pruneFloor : Nat) :
    ReplayReader → List (StoredEventRow Blob) →
      Except FirehoseError (ReplayReader × List FirehoseEvent)
  | r, [] => .ok (r, [])
  | r, row :: rows => do
    let (r, event) ← absorbRow pruneFloor r row
    let (r, events) ← absorbRows pruneFloor r rows
    return (r, event :: events)

/-- The end of a non-empty page: the frontier is reached, or the page was full. A short
page below the frontier is a pruned tail or a hole. -/
def closePage (pruneFloor pageLen : Nat) (r : ReplayReader) :
    Except FirehoseError ReplayReader :=
  if r.after ≥ r.upper then .ok { r with done := true }
  else if pageLen < replayBatch then
    if pruneFloor ≤ r.after then .error r.endError else .ok { r with done := true }
  else .ok r

/-- An empty page: below the frontier, either the rest was pruned or it is missing. -/
def emptyPage (pruneFloor : Nat) (r : ReplayReader) : Except FirehoseError ReplayReader :=
  if r.after < r.upper then
    if pruneFloor > r.after then .ok { r with done := true } else .error r.endError
  else .ok { r with done := true }

/-- `next_batch` after its page query. -/
def absorb (pruneFloor : Nat) (r : ReplayReader) (batch : List (StoredEventRow Blob)) :
    Except FirehoseError (ReplayReader × List FirehoseEvent) :=
  match batch with
  | [] => do
    let r ← emptyPage pruneFloor r
    return (r, [])
  | row :: rows => do
    let (r, events) ← absorbRows pruneFloor r (row :: rows)
    let r ← closePage pruneFloor (row :: rows).length r
    return (r, events)

end Absorb

/-! ## Page queries -/

/-- A page query reads one page above `after` and fills in the cursor-presence bit. -/
theorem query_ok {r r' : ReplayReader} {db : RepoSeq Blob} {rows : List (StoredEventRow Blob)}
    (hFirst : r.firstPage = true → r.after = r.cursor) (h : r.query db = .ok (r', rows)) :
    rows = (db.table.page r.after r.upper replayBatch).map StoredEventRow.ofRow ∧
      ∃ present, r' = { r with firstPage := false, cursorPresent := present } ∧
        (r.firstPage = true → present = true → ∃ k ∈ db.seqs, k ≤ r.cursor) := by
  unfold query at h
  split at h
  · rename_i hPage
    obtain ⟨page, hOk, h⟩ := bind_ok.mp h
    obtain ⟨hRows, hPresent⟩ := RepoSeq.firstEventsInRange_ok (mapError_ok.mp hOk)
    cases h
    rw [hFirst hPage]
    exact ⟨hRows, _, rfl, fun _ => hPresent⟩
  · rename_i hPage
    obtain ⟨rows', hOk, h⟩ := bind_ok.mp h
    have hRows := RepoSeq.eventsInRange_ok (mapError_ok.mp hOk)
    cases h
    refine ⟨hRows, r.cursorPresent, ?_, fun hPage' => absurd hPage' hPage⟩
    rw [← Bool.eq_false_iff.mpr hPage]

theorem query_isOk {r : ReplayReader} (db : RepoSeq Blob)
    (hFirst : r.firstPage = true → r.after = r.cursor) (ha : r.after ≤ i64Max)
    (hu : r.upper ≤ i64Max) : ∃ r' rows, r.query db = .ok (r', rows) := by
  unfold query
  split
  · rename_i hPage
    rw [hFirst hPage] at ha
    obtain ⟨page, hOk⟩ := RepoSeq.firstEventsInRange_of_le db replayBatch ha hu
    exact ⟨_, _, bind_ok.mpr ⟨page, mapError_ok.mpr hOk, rfl⟩⟩
  · have hOk := RepoSeq.eventsInRange_of_le db replayBatch ha hu
    exact ⟨_, _, bind_ok.mpr ⟨_, mapError_ok.mpr hOk, rfl⟩⟩

/-! ## Positions in the log -/

/-- The number of the last row read, starting from `after`. -/
def lastSeq : Nat → List (StoredEventRow Blob) → Nat
  | after, [] => after
  | _, row :: rows => lastSeq row.seq rows

theorem lastSeq_append (after : Nat) (rows : List (StoredEventRow Blob))
    (row : StoredEventRow Blob) : lastSeq after (rows ++ [row]) = row.seq := by
  induction rows generalizing after with
  | nil => rfl
  | cons row' rows ih => exact ih row'.seq

/-- Consecutive numbers from `start` end `rows.length` further on. -/
theorem lastSeq_consecutive {start after : Nat} {rows : List (StoredEventRow Blob)}
    (hRows : rows.map (·.seq) = List.range' start rows.length) (hPos : 0 < rows.length) :
    lastSeq after rows + 1 = start + rows.length := by
  induction rows generalizing start after with
  | nil => simp at hPos
  | cons row rows ih =>
    rw [List.map_cons, List.length_cons, List.range'_succ] at hRows
    injection hRows with hHead hTail
    cases rows with
    | nil =>
      show row.seq + 1 = start + 1
      rw [hHead]
    | cons row' rows =>
      have hEnd : lastSeq row.seq (row' :: rows) + 1 = start + 1 + (row' :: rows).length :=
        ih hTail (by simp)
      simp only [List.length_cons] at hEnd ⊢
      show lastSeq row.seq (row' :: rows) + 1 = _
      omega

/-- A page, followed by what lies above its last row, is the whole range; a page that is
not full leaves nothing. -/
theorem seqsIn_page {db : RepoSeq Blob} {after upper limit : Nat}
    {rows : List (StoredEventRow Blob)}
    (hRows : rows = (db.table.page after upper limit).map StoredEventRow.ofRow) :
    rows.map (·.seq) ++ db.seqsIn (lastSeq after rows) upper = db.seqsIn after upper ∧
      (rows.length < limit → db.seqsIn (lastSeq after rows) upper = []) := by
  have hSeqs : rows.map (·.seq) = (db.table.page after upper limit).map (·.1) := by
    simp [hRows, StoredEventRow.ofRow]
  have hSplit : rows.map (·.seq) ++ db.seqsIn (lastSeq after rows) upper =
      db.seqsIn after upper := by
    rcases List.eq_nil_or_concat (db.table.page after upper limit) with hNil | ⟨p, x, hPage⟩
    · rw [hRows, hNil]
      rfl
    · rw [List.concat_eq_append] at hPage
      have hLast : lastSeq after rows = x.1 := by
        rw [hRows, hPage, List.map_append]
        exact lastSeq_append after _ _
      rw [hSeqs, hLast]
      exact SeqTable.page_append_keysIn hPage
  refine ⟨hSplit, ?_⟩
  intro hShort
  have hLen : (db.table.page after upper limit).length < limit := by
    rw [hRows, List.length_map] at hShort
    exact hShort
  rw [hSeqs, SeqTable.page_of_length_lt hLen] at hSplit
  exact List.append_right_eq_self.mp hSplit

/-! ## Accepted pages -/

section Facts

variable [DagCbor Blob] {pruneFloor : Nat} {r r' : ReplayReader}

theorem anchorAt_ok {row : StoredEventRow Blob} {event : FirehoseEvent}
    (h : r.anchorAt row = .ok (r', event)) :
    event.seq = row.seq ∧ r' = { r with anchored := true, after := row.seq } := by
  obtain ⟨e, hDecode, h⟩ := bind_ok.mp h
  cases h
  exact ⟨decodeStoredEvent_seq hDecode, rfl⟩

theorem absorbRow_ok {row : StoredEventRow Blob} {event : FirehoseEvent}
    (h : absorbRow pruneFloor r row = .ok (r', event)) :
    event.seq = row.seq ∧ r' = { r with anchored := true, after := row.seq } := by
  unfold absorbRow at h
  split at h
  · split at h
    · exact anchorAt_ok h
    · split at h
      · cases h
      · split at h
        · cases h
        · exact anchorAt_ok h
  · exact anchorAt_ok h

/-- The events of an accepted page are its rows, and the reader stands at its last row. -/
theorem absorbRows_ok {rows : List (StoredEventRow Blob)} {events : List FirehoseEvent}
    (h : absorbRows pruneFloor r rows = .ok (r', events)) :
    events.map FirehoseEvent.seq = rows.map (·.seq) ∧
      r' = { r with
        anchored := r.anchored || !rows.isEmpty
        after := lastSeq r.after rows } := by
  induction rows generalizing r events with
  | nil =>
    cases h
    simp [lastSeq]
  | cons row rows ih =>
    obtain ⟨⟨r1, event⟩, hRow, h⟩ := bind_ok.mp h
    obtain ⟨⟨r2, rest⟩, hRest, h⟩ := bind_ok.mp h
    cases h
    obtain ⟨hSeq, rfl⟩ := absorbRow_ok hRow
    obtain ⟨hSeqs, rfl⟩ := ih hRest
    refine ⟨by simp [hSeq, hSeqs], ?_⟩
    simp [lastSeq]

omit [DagCbor Blob] in
theorem emptyPage_ok (h : emptyPage pruneFloor r = .ok r') : r' = { r with done := true } := by
  unfold emptyPage at h
  split at h
  · split at h
    · cases h
      rfl
    · cases h
  · cases h
    rfl

theorem closePage_ok {pageLen : Nat} (hOpen : r.done = false)
    (h : closePage pruneFloor pageLen r = .ok r') :
    ∃ done, r' = { r with done := done } ∧
      (done = true → r.upper ≤ r.after ∨ pageLen < replayBatch) ∧
      (done = false → r.after < r.upper) := by
  unfold closePage at h
  split at h
  · rename_i hEnd
    cases h
    exact ⟨true, rfl, fun _ => Or.inl hEnd, by simp⟩
  · rename_i hEnd
    split at h
    · rename_i hShort
      split at h
      · cases h
      · cases h
        exact ⟨true, rfl, fun _ => Or.inr hShort, by simp⟩
    · cases h
      refine ⟨false, ?_, by simp, fun _ => not_le.mp hEnd⟩
      rw [← hOpen]

/-- An accepted batch is the page that was read. The reader stands at its last row, and
it reports the end only at the frontier or on a page that was not full. -/
theorem absorb_ok {batch : List (StoredEventRow Blob)} {events : List FirehoseEvent}
    (hOpen : r.done = false) (h : r.absorb pruneFloor batch = .ok (r', events)) :
    events.map FirehoseEvent.seq = batch.map (·.seq) ∧
      ∃ done, r' = { r with
          anchored := r.anchored || !batch.isEmpty
          after := lastSeq r.after batch
          done := done } ∧
        (done = true → r.upper ≤ lastSeq r.after batch ∨ batch.length < replayBatch) ∧
        (done = false → batch ≠ [] ∧ lastSeq r.after batch < r.upper) := by
  cases batch with
  | nil =>
    obtain ⟨r1, hEmpty, h⟩ := bind_ok.mp h
    cases h
    refine ⟨rfl, true, ?_, fun _ => Or.inr ?_, by simp⟩
    · rw [emptyPage_ok hEmpty]
      simp [lastSeq]
    · show 0 < replayBatch
      decide
  | cons row rows =>
    obtain ⟨⟨r1, events1⟩, hRows, h⟩ := bind_ok.mp h
    obtain ⟨r2, hClose, h⟩ := bind_ok.mp h
    cases h
    obtain ⟨hSeqs, rfl⟩ := absorbRows_ok hRows
    obtain ⟨done, rfl, hDone, hMore⟩ := closePage_ok (by exact hOpen) hClose
    exact ⟨hSeqs, done, rfl, hDone, fun hOpen' => ⟨List.cons_ne_nil _ _, hMore hOpen'⟩⟩

/-! ## Pages that are accepted -/

theorem anchorAt_isOk {row : StoredEventRow Blob}
    (hDecode : ∃ e, decodeStoredEvent row.seq row.eventType row.event = .ok e) :
    ∃ event, r.anchorAt row = .ok ({ r with anchored := true, after := row.seq }, event) := by
  obtain ⟨e, he⟩ := hDecode
  exact ⟨e, bind_ok.mpr ⟨e, he, rfl⟩⟩

/-- A row is accepted when it follows on, or its gap lies below the prune floor, or it is
the first row and nothing is left at or below the cursor. -/
theorem absorbRow_isOk {row : StoredEventRow Blob}
    (hDecode : ∃ e, decodeStoredEvent row.seq row.eventType row.event = .ok e)
    (hGap : row.seq = r.after + 1 ∨ r.after < pruneFloor ∨
      (r.anchored = false ∧ r.cursorPresent = false)) :
    ∃ event, absorbRow pruneFloor r row =
      .ok ({ r with anchored := true, after := row.seq }, event) := by
  unfold absorbRow
  split
  · rename_i hNe
    split
    · exact anchorAt_isOk hDecode
    · rename_i hFloor
      rcases hGap with hNext | hBelow | ⟨hFree, hAbsent⟩
      · exact absurd hNext hNe
      · exact absurd hBelow hFloor
      · rw [if_neg (by simp [hFree]), if_neg (by simp [hAbsent])]
        exact anchorAt_isOk hDecode
  · exact anchorAt_isOk hDecode

/-- A page of consecutive numbers is accepted when its first row is. -/
theorem absorbRows_consecutive {start : Nat} {rows : List (StoredEventRow Blob)}
    (hRows : rows.map (·.seq) = List.range' start rows.length)
    (hDecode : ∀ row ∈ rows, ∃ e, decodeStoredEvent row.seq row.eventType row.event = .ok e)
    (hGap : start = r.after + 1 ∨ r.after < pruneFloor ∨
      (r.anchored = false ∧ r.cursorPresent = false)) :
    ∃ r' events, absorbRows pruneFloor r rows = .ok (r', events) := by
  induction rows generalizing start r with
  | nil => exact ⟨_, _, rfl⟩
  | cons row rows ih =>
    rw [List.map_cons, List.length_cons, List.range'_succ] at hRows
    injection hRows with hHead hTail
    rw [← hHead] at hGap
    obtain ⟨event, hRow⟩ := absorbRow_isOk (hDecode row List.mem_cons_self) hGap
    obtain ⟨r', events, hRest⟩ := ih (r := { r with anchored := true, after := row.seq }) hTail
      (fun row' h => hDecode row' (List.mem_cons_of_mem _ h)) (Or.inl (by simp [hHead]))
    exact ⟨r', event :: events, bind_ok.mpr ⟨_, hRow, bind_ok.mpr ⟨_, hRest, rfl⟩⟩⟩

theorem closePage_isOk {pageLen : Nat}
    (h : r.upper ≤ r.after ∨ replayBatch ≤ pageLen ∨ r.after < pruneFloor) :
    ∃ r', closePage pruneFloor pageLen r = .ok r' := by
  unfold closePage
  split
  · exact ⟨_, rfl⟩
  · rename_i hEnd
    split
    · rename_i hShort
      rw [if_neg (by omega)]
      exact ⟨_, rfl⟩
    · exact ⟨_, rfl⟩

end Facts

end ReplayReader

end Ezpds.Firehose
