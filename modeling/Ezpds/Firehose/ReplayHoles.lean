import Ezpds.Firehose.ReplayPruning

/-!
# Replay over a log with a hole

A number that is missing from the log although nothing up to it was pruned is a durability hole,
and replay must fail rather than skip it. Each call of `next_batch` reads the log and the prune
floor of its own moment (`View`), and a run of calls stops at its first error.

* `absorbRows_below`: a page that a hole cuts is accepted only up to the hole.
* `nextBatch_below`: a call that succeeds before a hole moves closer to it.
* `drain_fails_closed`: a hole that a retained row precedes ends the run in an error.
* `unanchored_hole_is_skipped`: the first row above the cursor is taken for the oldest retained
  one when no row is left at or below the cursor.
-/

namespace Ezpds.Firehose

open Library

variable {Blob : Type}

/-- What one call reads: the log of its page query, and the prune floor of the moment after. -/
structure View (Blob : Type) where
  log : RepoSeq Blob
  pruneFloor : Nat

/-- The number is missing, and a row before it is still there. The floor does not reach above
that row, nor above the cursor when the row is behind it. -/
def View.HoleAfterRow (cursor missing : Nat) (v : View Blob) : Prop :=
  missing ∉ v.log.seqs ∧ ∃ k ∈ v.log.seqs, k < missing ∧ v.pruneFloor ≤ max k cursor

namespace ReplayReader

section Calls

variable [DagCbor Blob]

/-- `next_batch`. -/
def nextBatch (v : View Blob) (r : ReplayReader) :
    Except FirehoseError (ReplayReader × List FirehoseEvent) :=
  if r.done then .ok (r, [])
  else do
    let (r, batch) ← r.query v.log
    r.absorb v.pruneFloor batch

/-- The calls of a run up to its first error: what they yield, and how the last one ends. -/
def drain : List (View Blob) → ReplayReader →
    List FirehoseEvent × Except FirehoseError ReplayReader
  | [], r => ([], .ok r)
  | v :: views, r =>
    match r.nextBatch v with
    | .error e => ([], .error e)
    | .ok (r, events) => (events ++ (drain views r).1, (drain views r).2)

end Calls

/-! ## Pages that a hole cuts -/

/-- A page that starts at the reader's position and leaves a number out. -/
structure CutPage (after missing : Nat) (rows : List (StoredEventRow Blob)) : Prop where
  above : ∀ row ∈ rows, after < row.seq
  sorted : rows.Pairwise fun a b => a.seq < b.seq
  hole : ∀ row ∈ rows, row.seq ≠ missing

theorem cutPage_tail {after missing : Nat} {row : StoredEventRow Blob}
    {rows : List (StoredEventRow Blob)} (h : CutPage after missing (row :: rows)) :
    CutPage row.seq missing rows where
  above := (List.pairwise_cons.mp h.sorted).1
  sorted := (List.pairwise_cons.mp h.sorted).2
  hole := fun other hOther => h.hole other (List.mem_cons_of_mem _ hOther)

theorem cutPage_page {db : RepoSeq Blob} {after upper limit missing : Nat}
    (h : missing ∉ db.seqs) :
    CutPage after missing ((db.table.page after upper limit).map StoredEventRow.ofRow) where
  above := by
    intro row hRow
    obtain ⟨stored, hStored, rfl⟩ := List.mem_map.mp hRow
    exact (SeqTable.mem_range.mp (List.mem_of_mem_take hStored)).2.1
  sorted := by
    rw [List.pairwise_map]
    exact (db.table.range_sorted after upper).sublist (List.take_sublist _ _)
  hole := by
    rintro row hRow rfl
    obtain ⟨stored, hStored, rfl⟩ := List.mem_map.mp hRow
    exact h (SeqTable.mem_keys_of_mem (SeqTable.mem_range.mp (List.mem_of_mem_take hStored)).1)

theorem le_lastSeq {after missing : Nat} {rows : List (StoredEventRow Blob)}
    (h : CutPage after missing rows) : after ≤ lastSeq after rows ∧
      ∀ row ∈ rows, row.seq ≤ lastSeq after rows := by
  induction rows generalizing after with
  | nil => simp [lastSeq]
  | cons row rows ih =>
    obtain ⟨hHere, hRows⟩ := ih (cutPage_tail h)
    have hAbove := h.above row List.mem_cons_self
    simp only [lastSeq]
    refine ⟨by omega, ?_⟩
    intro other hOther
    rcases List.mem_cons.mp hOther with rfl | hOther
    · exact hHere
    · exact hRows other hOther

/-- What keeps a reader from jumping over the hole: it is past the floor and knows of a row behind
it, or a row of the page will take it there, or the page does not reach the hole. -/
def Held (pruneFloor missing : Nat) (r : ReplayReader) (rows : List (StoredEventRow Blob)) :
    Prop :=
  (pruneFloor ≤ r.after ∧ (r.anchored = true ∨ r.cursorPresent = true)) ∨
    (∃ row ∈ rows, row.seq < missing ∧ pruneFloor ≤ max row.seq r.after) ∨
    ∀ row ∈ rows, row.seq < missing

/-! ## Calls before the hole -/

theorem query_present {db : RepoSeq Blob} {r r' : ReplayReader}
    {rows : List (StoredEventRow Blob)} (hPage : r.firstPage = true) (hRows : rows ≠ [])
    (hRow : ∃ k ∈ db.seqs, k ≤ r.cursor) (h : r.query db = .ok (r', rows)) :
    r'.cursorPresent = true := by
  unfold query at h
  rw [if_pos hPage] at h
  obtain ⟨page, hOk, h⟩ := bind_ok.mp h
  cases h
  have hOk := mapError_ok.mp hOk
  unfold RepoSeq.firstEventsInRangeWithCursorPresence at hOk
  obtain ⟨a, ha, hOk⟩ := bind_ok.mp hOk
  obtain ⟨b, hb, hOk⟩ := bind_ok.mp hOk
  obtain ⟨rfl, _⟩ := toI64_ok.mp ha
  cases hOk
  obtain ⟨k, hk, hLe⟩ := hRow
  have hAny : db.seqs.any (fun k => decide (k ≤ r.cursor)) = true :=
    List.any_eq_true.mpr ⟨k, hk, decide_eq_true hLe⟩
  simp only [hAny, Bool.and_true, Bool.not_eq_true', List.isEmpty_eq_false_iff]
  exact hRows

/-- An open reader between the cursor and the hole. -/
structure Before (cursor upper missing : Nat) (r : ReplayReader) : Prop where
  cursor_eq : r.cursor = cursor
  upper_eq : r.upper = upper
  isOpen : r.done = false
  behind : cursor ≤ r.after
  below : r.after < missing
  first : r.firstPage = true → r.after = cursor
  later : r.firstPage = false → r.anchored = true

theorem before_new {cursor upper missing : Nat} (hCursor : cursor < missing)
    (hUpper : missing ≤ upper) : Before cursor upper missing (new cursor upper) where
  cursor_eq := rfl
  upper_eq := rfl
  isOpen := decide_eq_false (by omega)
  behind := Nat.le_refl _
  below := hCursor
  first := fun _ => rfl
  later := by
    intro h
    cases h

section Holes

variable [DagCbor Blob] {pruneFloor missing : Nat} {r r' : ReplayReader}

/-- A row beyond the hole is a gap that nothing explains. -/
theorem absorbRow_beyond {row : StoredEventRow Blob} (hAfter : r.after < missing)
    (hBeyond : missing < row.seq) (hFloor : pruneFloor ≤ r.after)
    (hKnown : r.anchored = true ∨ r.cursorPresent = true) :
    absorbRow pruneFloor r row = .error (r.gapError row.seq) := by
  unfold absorbRow
  rw [if_pos (by omega), if_neg (by omega)]
  cases hAnchored : r.anchored with
  | true => rfl
  | false =>
    rw [hAnchored] at hKnown
    simp only [Bool.false_eq_true, false_or] at hKnown
    rw [if_neg Bool.false_ne_true, if_pos hKnown]

/-- By induction on the rows: the reader stays before the hole, and stays held there. -/
theorem absorbRows_below {rows : List (StoredEventRow Blob)} {events : List FirehoseEvent}
    (hAfter : r.after < missing) (hPage : CutPage r.after missing rows)
    (hHeld : Held pruneFloor missing r rows)
    (h : absorbRows pruneFloor r rows = .ok (r', events)) :
    ∀ row ∈ rows, row.seq < missing := by
  induction rows generalizing r events with
  | nil => simp
  | cons row rows ih =>
    obtain ⟨⟨r1, event⟩, hRow, h⟩ := bind_ok.mp h
    obtain ⟨⟨r2, rest⟩, hRest, h⟩ := bind_ok.mp h
    cases h
    have hHere := hPage.above row List.mem_cons_self
    have hTail := cutPage_tail hPage
    have hBelow : row.seq < missing := by
      rcases Nat.lt_or_gt_of_ne (hPage.hole row List.mem_cons_self) with hBelow | hBeyond
      · exact hBelow
      · exfalso
        rcases hHeld with ⟨hFloor, hKnown⟩ | ⟨held, hMem, hLt, -⟩ | hAll
        · rw [absorbRow_beyond hAfter hBeyond hFloor hKnown] at hRow
          cases hRow
        · rcases List.mem_cons.mp hMem with rfl | hMem
          · omega
          · have := hTail.above held hMem
            omega
        · have := hAll row List.mem_cons_self
          omega
    obtain ⟨-, rfl⟩ := absorbRow_ok hRow
    have hHeld' : Held pruneFloor missing { r with anchored := true, after := row.seq } rows := by
      rcases hHeld with ⟨hFloor, -⟩ | ⟨held, hMem, hLt, hFloor⟩ | hAll
      · exact .inl ⟨by simp only; omega, .inl rfl⟩
      · rcases List.mem_cons.mp hMem with rfl | hMem
        · exact .inl ⟨by simp only; omega, .inl rfl⟩
        · exact .inr (.inl ⟨held, hMem, hLt, by simp only; omega⟩)
      · exact .inr (.inr fun other hOther => hAll other (List.mem_cons_of_mem _ hOther))
    intro other hOther
    rcases List.mem_cons.mp hOther with rfl | hOther
    · exact hBelow
    · exact ih hBelow hTail hHeld' hRest other hOther

theorem absorb_below {batch : List (StoredEventRow Blob)} {events : List FirehoseEvent}
    (hAfter : r.after < missing) (hPage : CutPage r.after missing batch)
    (hHeld : batch ≠ [] → Held pruneFloor missing r batch)
    (h : r.absorb pruneFloor batch = .ok (r', events)) : ∀ row ∈ batch, row.seq < missing := by
  cases batch with
  | nil => simp
  | cons row rows =>
    obtain ⟨⟨r1, events1⟩, hRows, -⟩ := bind_ok.mp h
    exact absorbRows_below hAfter hPage (hHeld (List.cons_ne_nil _ _)) hRows

omit [DagCbor Blob] in
theorem lastSeq_lt {after : Nat} {rows : List (StoredEventRow Blob)} (hAfter : after < missing)
    (hRows : ∀ row ∈ rows, row.seq < missing) : lastSeq after rows < missing := by
  induction rows generalizing after with
  | nil => exact hAfter
  | cons row rows ih =>
    exact ih (hRows row List.mem_cons_self)
      fun other hOther => hRows other (List.mem_cons_of_mem _ hOther)

/-- A reader that has not reached the frontier goes on, unless a page that was not full ends below
the prune floor. -/
theorem absorb_open {batch : List (StoredEventRow Blob)} {events : List FirehoseEvent}
    (hUpper : lastSeq r.after batch < r.upper)
    (hFloor : batch.length < replayBatch → pruneFloor ≤ lastSeq r.after batch)
    (hOpen : r.done = false) (h : r.absorb pruneFloor batch = .ok (r', events)) :
    r'.done = false := by
  cases batch with
  | nil =>
    exfalso
    obtain ⟨r1, hEmpty, -⟩ := bind_ok.mp h
    have hHere := hFloor (Nat.zero_lt_of_lt (by decide : 0 < replayBatch))
    unfold emptyPage at hEmpty
    simp only [lastSeq] at hUpper hHere
    rw [if_pos hUpper, if_neg (by omega)] at hEmpty
    cases hEmpty
  | cons row rows =>
    obtain ⟨⟨r1, events1⟩, hRows, h⟩ := bind_ok.mp h
    obtain ⟨r2, hClose, h⟩ := bind_ok.mp h
    cases h
    obtain ⟨-, rfl⟩ := absorbRows_ok hRows
    unfold closePage at hClose
    rw [if_neg (by simp only; omega)] at hClose
    split at hClose
    · rename_i hShort
      rw [if_pos (hFloor hShort)] at hClose
      cases hClose
    · cases hClose
      exact hOpen

variable {cursor upper : Nat} {v : View Blob}

omit [DagCbor Blob] in
/-- The row before the hole, as a page over the log finds it: behind the reader, on the page, or
above a page that was full. -/
theorem row_behind_or_on_page {k : Nat} (hk : k ∈ v.log.seqs) (hUpper : k ≤ upper)
    {rows : List (StoredEventRow Blob)}
    (hRows : rows = (v.log.table.page r.after upper replayBatch).map StoredEventRow.ofRow) :
    k ≤ r.after ∨ (∃ row ∈ rows, row.seq = k) ∨
      (lastSeq r.after rows < k ∧ replayBatch ≤ rows.length) := by
  by_cases hBehind : k ≤ r.after
  · exact .inl hBehind
  · obtain ⟨hSplit, hShort⟩ := seqsIn_page hRows
    have hMem : k ∈ v.log.seqsIn r.after upper :=
      SeqTable.mem_keysIn.mpr ⟨hk, by omega, hUpper⟩
    rw [← hSplit] at hMem
    rcases List.mem_append.mp hMem with hPage | hLater
    · exact .inr (.inl (List.mem_map.mp hPage))
    · refine .inr (.inr ⟨(SeqTable.mem_keysIn.mp hLater).2.1, ?_⟩)
      by_contra hLt
      rw [hShort (by omega)] at hLater
      cases hLater

omit [DagCbor Blob] in
/-- A page over a log with a hole after a row holds the reader. -/
theorem held_of_hole (hBefore : Before cursor upper missing r) (hUpper : missing ≤ upper)
    (hHole : v.HoleAfterRow cursor missing) {rows : List (StoredEventRow Blob)} {r1 : ReplayReader}
    (hQuery : r.query v.log = .ok (r1, rows)) (hNonempty : rows ≠ []) :
    Held v.pruneFloor missing r1 rows := by
  have hFirst : r.firstPage = true → r.after = r.cursor := by
    intro hPage
    rw [hBefore.first hPage, hBefore.cursor_eq]
  obtain ⟨hRows, present, hr1, -⟩ := query_ok hFirst hQuery
  have hBehind := hBefore.behind
  obtain ⟨hMissing, k, hk, hLt, hFloor⟩ := hHole
  rw [hBefore.upper_eq] at hRows
  rcases row_behind_or_on_page hk (by omega) hRows with hPast | hOn | ⟨hFull, -⟩
  · refine .inl ⟨?_, ?_⟩
    · rw [hr1]
      simp only
      omega
    · cases hPage : r.firstPage with
      | true =>
        rw [hBefore.first hPage, ← hBefore.cursor_eq] at hPast
        exact .inr (query_present hPage hNonempty ⟨k, hk, hPast⟩ hQuery)
      | false =>
        rw [hr1]
        exact .inl (hBefore.later hPage)
  · obtain ⟨row, hRow, rfl⟩ := hOn
    refine .inr (.inl ⟨row, hRow, hLt, ?_⟩)
    rw [hr1]
    simp only
    omega
  · refine .inr (.inr ?_)
    intro row hRow
    have hPage : CutPage r.after missing rows := by
      rw [hRows]
      exact cutPage_page hMissing
    have := (le_lastSeq hPage).2 row hRow
    omega

/-- A call that succeeds before the hole yields rows before it, and leaves the reader further on
but still before it. -/
theorem nextBatch_below (hBefore : Before cursor upper missing r) (hUpper : missing ≤ upper)
    (hHole : v.HoleAfterRow cursor missing) {events : List FirehoseEvent}
    (h : r.nextBatch v = .ok (r', events)) :
    Before cursor upper missing r' ∧ r.after < r'.after ∧ ∀ e ∈ events, e.seq < missing := by
  unfold nextBatch at h
  rw [hBefore.isOpen, if_neg Bool.false_ne_true] at h
  obtain ⟨⟨r1, rows⟩, hQuery, hAbsorb⟩ := bind_ok.mp h
  have hFirst : r.firstPage = true → r.after = r.cursor := by
    intro hPage
    rw [hBefore.first hPage, hBefore.cursor_eq]
  obtain ⟨hRows, present, hr1, -⟩ := query_ok hFirst hQuery
  have hPage : CutPage r.after missing rows := by
    rw [hRows]
    exact cutPage_page hHole.1
  have hBelow : ∀ row ∈ rows, row.seq < missing := by
    refine absorb_below ?_ ?_ (held_of_hole hBefore hUpper hHole hQuery) hAbsorb
    · rw [hr1]
      exact hBefore.below
    · rw [hr1]
      exact hPage
  have hLast := lastSeq_lt hBefore.below hBelow
  obtain ⟨hHere, hLe⟩ := le_lastSeq hPage
  have hBehind := hBefore.behind
  have hFloor : rows.length < replayBatch → v.pruneFloor ≤ lastSeq r.after rows := by
    intro hShort
    obtain ⟨-, k, hk, hLt, hFloor⟩ := hHole
    rw [hBefore.upper_eq] at hRows
    rcases row_behind_or_on_page hk (by omega) hRows with
      hPast | ⟨row, hRow, rfl⟩ | ⟨-, hFull⟩
    · omega
    · have := hLe row hRow
      omega
    · omega
  have hDone : r'.done = false := by
    refine absorb_open ?_ ?_ ?_ hAbsorb
    · rw [hr1]
      simp only [hBefore.upper_eq]
      omega
    · rw [hr1]
      exact hFloor
    · rw [hr1]
      exact hBefore.isOpen
  obtain ⟨hSeqs, done, hr', -, hMore⟩ := absorb_ok (by rw [hr1]; exact hBefore.isOpen) hAbsorb
  have hNonempty : rows ≠ [] := by
    rw [hr'] at hDone
    exact (hMore hDone).1
  rw [hr1] at hr'
  refine ⟨⟨?_, ?_, hDone, ?_, ?_, ?_, ?_⟩, ?_, ?_⟩
  · rw [hr']
    exact hBefore.cursor_eq
  · rw [hr']
    exact hBefore.upper_eq
  · rw [hr']
    exact hBehind.trans hHere
  · rw [hr']
    exact hLast
  · intro hPage
    rw [hr'] at hPage
    cases hPage
  · intro _
    rw [hr']
    simp [hNonempty]
  · rw [hr']
    obtain ⟨row, hRow⟩ := List.exists_mem_of_ne_nil rows hNonempty
    exact (hPage.above row hRow).trans_le (hLe row hRow)
  · intro e he
    have hMem : e.seq ∈ rows.map (·.seq) := hSeqs ▸ List.mem_map_of_mem he
    obtain ⟨row, hRow, hEq⟩ := List.mem_map.mp hMem
    rw [← hEq]
    exact hBelow row hRow

/-! ## The run -/

/-- By induction on the calls: each one that succeeds comes closer to the hole, so they cannot all
succeed. -/
theorem drain_below (hBefore : Before cursor upper missing r) (hUpper : missing ≤ upper)
    {views : List (View Blob)} (hViews : ∀ v ∈ views, v.HoleAfterRow cursor missing) :
    (∀ e ∈ (drain views r).1, e.seq < missing) ∧
      (missing - r.after ≤ views.length → ∃ e, (drain views r).2 = .error e) := by
  induction views generalizing r with
  | nil =>
    refine ⟨by simp [drain], ?_⟩
    intro hLength
    have := hBefore.below
    simp only [List.length_nil] at hLength
    omega
  | cons v views ih =>
    have hHole := hViews v List.mem_cons_self
    cases hCall : r.nextBatch v with
    | error e =>
      simp only [drain, hCall]
      exact ⟨by simp, fun _ => ⟨e, rfl⟩⟩
    | ok answer =>
      obtain ⟨r', events⟩ := answer
      obtain ⟨hBefore', hCloser, hEvents⟩ := nextBatch_below hBefore hUpper hHole hCall
      obtain ⟨hRest, hEnds⟩ := ih hBefore' fun w hw => hViews w (List.mem_cons_of_mem _ hw)
      simp only [drain, hCall]
      refine ⟨?_, ?_⟩
      · intro e he
        rcases List.mem_append.mp he with he | he
        · exact hEvents e he
        · exact hRest e he
      · intro hLength
        apply hEnds
        rw [List.length_cons] at hLength
        omega

end Holes

/-- A number of `(cursor, upper]` that is missing after a retained row: whatever the calls read
besides, no event from it on is yielded, and enough calls end in an error. -/
theorem drain_fails_closed [DagCbor Blob] {cursor upper missing : Nat}
    (hCursor : cursor < missing) (hUpper : missing ≤ upper) (views : List (View Blob))
    (hViews : ∀ v ∈ views, v.HoleAfterRow cursor missing) :
    (∀ e ∈ (drain views (new cursor upper)).1, e.seq < missing) ∧
      (missing - cursor ≤ views.length →
        ∃ e, (drain views (new cursor upper)).2 = .error e) :=
  drain_below (before_new hCursor hUpper) hUpper hViews

/-- A reader at the end yields nothing more. -/
theorem drain_done [DagCbor Blob] {r : ReplayReader} (h : r.done = true)
    (views : List (View Blob)) : drain views r = ([], .ok r) := by
  induction views with
  | nil => rfl
  | cons v views ih =>
    have hCall : r.nextBatch v = .ok (r, []) := by
      unfold nextBatch
      rw [if_pos h]
    simp only [drain, hCall, ih, List.append_nil]

/-! ## Holes in three rows -/

/-- Rows `a` and 3. -/
theorem lastRows_sorted {a : Nat} (h : a < 3) :
    [(a, sampleRow), (3, sampleRow)].Pairwise fun r s => r.1 < s.1 := by
  simp [h]

theorem lastRows_bounded {a : Nat} (h : a < 3) :
    ∀ k ∈ SeqTable.keys ⟨_, lastRows_sorted h⟩, k ≤ i64Max := by
  intro k hk
  have hk' : k = a ∨ k = 3 := by simpa [SeqTable.keys] using hk
  have hMax : 3 ≤ i64Max := by decide
  omega

theorem one_lt_three : 1 < 3 := by
  decide

theorem two_lt_three : 2 < 3 := by
  decide

def lastRows {a : Nat} (h : a < 3) : RepoSeq Stored where
  table :=
    { rows := [(a, sampleRow), (3, sampleRow)]
      sorted := lastRows_sorted h }
  bounded := lastRows_bounded h

/-- Rows 1 and 3: number 2 is missing after a retained row. -/
def holeAtTwo : View Stored where
  log := lastRows one_lt_three
  pruneFloor := 0

/-- Rows 2 and 3, where nothing was ever pruned: number 1 is missing, with no row before it. -/
def holeAtOne : View Stored where
  log := lastRows two_lt_three
  pruneFloor := 0

theorem hole_at_two_fails_closed :
    (∀ e ∈ (drain [holeAtTwo, holeAtTwo] (new 0 3)).1, e.seq < 2) ∧
      ∃ e, (drain [holeAtTwo, holeAtTwo] (new 0 3)).2 = .error e := by
  have hViews : ∀ v ∈ [holeAtTwo, holeAtTwo], v.HoleAfterRow 0 2 := by
    intro v hv
    have hv' : v = holeAtTwo := by simpa using hv
    rw [hv']
    exact ⟨by decide, 1, by decide, by decide, by decide⟩
  have hFails := drain_fails_closed (by decide : 0 < 2) (by decide : 2 ≤ 3) _ hViews
  exact ⟨hFails.1, hFails.2 (by decide)⟩

/-- Number 1 lies above everything pruned, and yet every run of calls from the start succeeds and
yields what lies beyond it. -/
theorem unanchored_hole_is_skipped :
    1 ∉ holeAtOne.log.seqs ∧ holeAtOne.pruneFloor < 1 ∧ ∀ calls, ∃ r,
      (drain (List.replicate (calls + 1) holeAtOne) (new 0 3)).1.map FirehoseEvent.seq = [2, 3] ∧
        (drain (List.replicate (calls + 1) holeAtOne) (new 0 3)).2 = .ok r := by
  refine ⟨by decide, by decide, ?_⟩
  intro calls
  have hCall : ∃ r events, nextBatch holeAtOne (new 0 3) = .ok (r, events) ∧
      events.map FirehoseEvent.seq = [2, 3] ∧ r.done = true := ⟨_, _, rfl, rfl, rfl⟩
  obtain ⟨r, events, hCall, hSeqs, hDone⟩ := hCall
  simp only [List.replicate_succ, drain, hCall, drain_done hDone, List.append_nil]
  exact ⟨r, hSeqs, rfl⟩

end ReplayReader

end Ezpds.Firehose
