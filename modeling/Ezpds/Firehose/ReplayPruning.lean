import Ezpds.Firehose.Delivery
import Mathlib

/-!
# Replay over a log that is being pruned

A reader does not lock out the retention sweep, so rows may be deleted between any two of
its queries, and between a page query and the read of the prune floor. Over a contiguous
log every gap it meets is below the prune floor or is the prefix that was gone before the
process started, and `next_batch` takes both for what they are.

* `contiguous_moves`: writers and sweeps keep the log contiguous; the oldest row moves
  only below a floor that was published before.
* `readerInv_query`, `readerInv_absorb`: the two halves of `next_batch`.
* `replay_tolerates_pruning`: the theorem over whole runs.
-/

namespace Ezpds.Firehose

open Library

variable {Blob : Type}

/-! ## Contiguous logs -/

def Decodes [DagCbor Blob] (log : RepoSeq Blob) : Prop :=
  ∀ r ∈ log.table.rows, ∃ e, decodeStoredEvent r.1 r.2.eventType r.2.event = .ok e

/-- The log holds exactly the numbers from `lo` to `MAX(seq)` (and nothing before the
first event), its rows decode, its frontier is settled, and a sweep that is about to
delete has published its watermark. -/
structure Contiguous [DagCbor Blob] (lo : Nat) (w : World Blob) : Prop where
  frontier : FrontierInv w
  settled : Settled w
  pos : 0 < lo
  oldest : lo ≤ max w.repoSeq.maxSeq 1
  dense : w.repoSeq.table.Dense lo w.repoSeq.maxSeq
  decodes : Decodes w.repoSeq
  staged : ∀ tx rows pending, w.writer = .staged tx rows pending → Decodes tx
  noted : ∀ watermark, w.sweep = .noted watermark → watermark ≤ w.pruneFloor

/-- Emissions and sweeps: every step but a cancellation and a restart. -/
def Label.IsEmissionOrSweep : Label → Prop
  | .cancel => False
  | .restart => False
  | _ => True

theorem Decodes.insert [DagCbor Blob] {log db : RepoSeq Blob} {seq : Nat}
    {row : EventRow Blob} (h : Decodes log) (hInsert : log.insertEvent seq row = .ok db)
    (hRow : ∃ e, decodeStoredEvent seq row.eventType row.event = .ok e) : Decodes db := by
  intro r hr
  rcases (SeqTable.mem_rows_insert (RepoSeq.insertEvent_ok.mp hInsert).2).mp hr with rfl | hr
  · exact hRow
  · exact h r hr

/-- A fresh process over a contiguous log. -/
theorem contiguous_new [DagCbor Blob] {lo : Nat} {log : RepoSeq Blob} (hPos : 0 < lo)
    (hOldest : lo ≤ max log.maxSeq 1) (hDense : log.table.Dense lo log.maxSeq)
    (hDecodes : Decodes log) : Contiguous lo (World.new log log.table.rows) where
  frontier := (sessionInv_boot log).1
  settled := rfl
  pos := hPos
  oldest := hOldest
  dense := hDense
  decodes := hDecodes
  staged := by
    intro tx rows pending hWriter
    cases hWriter
  noted := by
    intro watermark hSweep
    cases hSweep

theorem oldest_grow {lo m n : Nat} (h : lo ≤ max m 1) (hLe : m ≤ n) : lo ≤ max n 1 := by
  omega

/-- The rows of a transaction staged at `MAX(seq)` extend a contiguous log. -/
theorem dense_of_staged {lo lastSeq : Nat} {log tx : RepoSeq Blob}
    {rows : List (Nat × EventRow Blob)} {pending : Pending}
    (hLast : lastSeq = log.maxSeq) (hOldest : lo ≤ max log.maxSeq 1)
    (hDense : log.table.Dense lo log.maxSeq) (h : StagedRows lastSeq log tx rows pending) :
    tx.table.Dense lo tx.maxSeq := by
  have hNext := nextSeq_of_eq hLast
  have hTop := maxSeq_of_staged hLast h
  have hEvents := h.events_cases
  rw [hNext] at hEvents
  intro k
  have hMem : k ∈ tx.table.keys ↔
      k ∈ log.table.keys ∨ k ∈ pending.events.map FirehoseEvent.seq := by
    rw [← h.keys]
    exact h.seqs k
  rw [hMem, hDense k, ← hTop]
  rcases hEvents with ⟨hMap, hSeq⟩ | ⟨hMap, hSeq⟩
  · rw [hMap, hSeq]
    simp only [List.mem_singleton]
    omega
  · rw [hMap, hSeq]
    simp only [List.mem_cons, List.not_mem_nil, or_false]
    omega

section World

variable {Cid : Type} [CidText Cid] [DagCbor Blob] [LawfulDagCbor Blob] {w t : World Blob}
  {l : Label} {lo : Nat}

omit [LawfulDagCbor Blob] in
/-- A step that leaves the log as it is. -/
theorem Contiguous.sameLog (h : Contiguous lo w) (hFrontier : FrontierInv t)
    (hSettled : Settled t) (hLog : t.repoSeq = w.repoSeq)
    (hStaged : ∀ tx rows pending, t.writer = .staged tx rows pending → Decodes tx)
    (hNoted : ∀ watermark, t.sweep = .noted watermark → watermark ≤ t.pruneFloor) :
    ∃ lo', Contiguous lo' t ∧ lo ≤ lo' ∧ (lo' = lo ∨ lo' ≤ t.pruneFloor + 1) := by
  refine ⟨lo, ⟨hFrontier, hSettled, h.pos, ?_, ?_, ?_, hStaged, hNoted⟩, le_rfl, Or.inl rfl⟩
  · rw [hLog]
    exact h.oldest
  · rw [hLog]
    exact h.dense
  · rw [hLog]
    exact h.decodes

omit [LawfulDagCbor Blob] in
/-- A delete up to a published watermark below the newest row. -/
theorem Contiguous.pruned {watermark : Nat} (h : Contiguous lo w) (hFrontier : FrontierInv t)
    (hSettled : Settled t) (hLog : t.repoSeq = w.repoSeq.prune watermark)
    (hLt : watermark < w.repoSeq.maxSeq) (hFloor : watermark ≤ t.pruneFloor)
    (hStaged : ∀ tx rows pending, t.writer = .staged tx rows pending → Decodes tx)
    (hNoted : ∀ watermark, t.sweep = .noted watermark → watermark ≤ t.pruneFloor) :
    ∃ lo', Contiguous lo' t ∧ lo ≤ lo' ∧ (lo' = lo ∨ lo' ≤ t.pruneFloor + 1) := by
  have hMax : t.repoSeq.maxSeq = w.repoSeq.maxSeq := by
    rw [hLog]
    exact RepoSeq.maxSeq_prune hLt
  have hOldest := h.oldest
  refine ⟨max lo (watermark + 1), ⟨hFrontier, hSettled, ?_, ?_, ?_, ?_, hStaged, hNoted⟩,
    le_max_left _ _, ?_⟩
  · exact h.pos.trans_le (Nat.le_max_left _ _)
  · rw [hMax]
    omega
  · rw [hMax, hLog]
    exact h.dense.prune watermark
  · rw [hLog]
    intro r hr
    exact h.decodes r (SeqTable.mem_rows_prune.mp hr).1
  · rcases le_total lo (watermark + 1) with hle | hle
    · right
      rw [max_eq_right hle]
      exact Nat.succ_le_succ hFloor
    · left
      exact max_eq_left hle

/-- Writers and sweeps keep the log contiguous. The oldest row stays, or everything below
it is under the published floor. -/
theorem contiguous_moves (h : Contiguous lo w) (hLabel : l.IsEmissionOrSweep)
    (hMoves : Moves Cid w l t) :
    ∃ lo', Contiguous lo' t ∧ lo ≤ lo' ∧ (lo' = lo ∨ lo' ≤ t.pruneFloor + 1) := by
  have hNoCancel : l ≠ .cancel := by
    rintro rfl
    exact hLabel
  have hFrontier := frontierInv_moves h.frontier hMoves
  have hSettled := settled_moves h.frontier h.settled hNoCancel hMoves
  cases hMoves with
  | emitRefused => exact ⟨lo, h, le_rfl, Or.inl rfl⟩
  | emitted hIdle hPrepare hInsert =>
    have hLast := h.settled.of_idle hIdle
    have hLog := (maxSeq_le_insertEvent hInsert).1
    refine ⟨lo, ⟨hFrontier, hSettled, h.pos, ?_, ?_, ?_, ?_, h.noted⟩, le_rfl, Or.inl rfl⟩
    · exact oldest_grow h.oldest hLog
    · exact dense_of_staged hLast h.oldest h.dense
        (StagedRows.single (.identity ⟨"", none⟩) "" hInsert)
    · exact h.decodes.insert hInsert ⟨_, decode_row hPrepare _⟩
    · intro tx rows pending hWriter
      cases hWriter
  | stageRefused => exact ⟨lo, h, le_rfl, Or.inl rfl⟩
  | staged hIdle hPrepare hInsert =>
    refine h.sameLog hFrontier hSettled rfl ?_ h.noted
    intro tx rows pending hWriter
    cases hWriter
    exact h.decodes.insert hInsert ⟨_, decode_row hPrepare _⟩
  | chained hStaged hPrepare hInsert =>
    refine h.sameLog hFrontier hSettled rfl ?_ h.noted
    intro tx rows pending hWriter
    cases hWriter
    exact (h.staged _ _ _ hStaged).insert hInsert ⟨_, decode_row hPrepare _⟩
  | abandoned hStaged hOf =>
    refine h.sameLog hFrontier hSettled rfl ?_ h.noted
    intro tx rows pending hWriter
    cases hWriter
  | committed hStaged =>
    have hRows := h.frontier.staged hStaged
    refine ⟨lo, ⟨hFrontier, hSettled, h.pos, ?_, ?_, h.staged _ _ _ hStaged, ?_, h.noted⟩,
      le_rfl, Or.inl rfl⟩
    · exact oldest_grow h.oldest hRows.maxSeq_le
    · exact dense_of_staged (h.settled.of_staged hStaged) h.oldest h.dense hRows
    · intro tx rows pending hWriter
      cases hWriter
  | finished hCommitted =>
    refine h.sameLog hFrontier hSettled rfl ?_ h.noted
    intro tx rows pending hWriter
    cases hWriter
  | cancelled => exact hLabel.elim
  | sweepInert => exact ⟨lo, h, le_rfl, Or.inl rfl⟩
  | sweepMeasured =>
    refine h.sameLog hFrontier hSettled rfl h.staged ?_
    intro watermark hSweep
    cases hSweep
  | sweepClamped =>
    refine h.sameLog hFrontier hSettled rfl h.staged ?_
    intro watermark hSweep
    cases hSweep
  | sweepNoted =>
    refine h.sameLog hFrontier hSettled rfl h.staged ?_
    intro watermark hSweep
    cases hSweep
    exact Nat.le_max_right _ _
  | @sweepPruned watermark hSweep hWriter =>
    have hLt : watermark < w.repoSeq.maxSeq := h.frontier.sweepPhase hSweep
    refine h.pruned hFrontier hSettled rfl hLt (h.noted watermark hSweep) ?_ ?_
    · intro tx rows pending hStaged
      exact absurd hStaged (hWriter tx rows pending)
    · intro watermark' hSweep'
      cases hSweep'
  | sweepEnded =>
    refine h.sameLog hFrontier hSettled rfl h.staged ?_
    intro watermark hSweep
    cases hSweep
  | restarted => exact hLabel.elim

omit [LawfulDagCbor Blob] in
/-- The floor and the frontier only rise. -/
theorem floor_le_moves (hFrontier : FrontierInv w) (hSettled : Settled w)
    (hLabel : l.IsEmissionOrSweep) (hMoves : Moves Cid w l t) :
    w.pruneFloor ≤ t.pruneFloor ∧ w.lastSeq ≤ t.lastSeq := by
  cases hMoves with
  | finished hCommitted =>
    refine ⟨le_rfl, ?_⟩
    rw [hSettled.of_committed hCommitted]
    exact hFrontier.frontier
  | sweepNoted => exact ⟨Nat.le_max_left _ _, le_rfl⟩
  | restarted => exact hLabel.elim
  | _ => exact ⟨le_rfl, le_rfl⟩

end World

/-! ## The reader -/

/-- The numbers that pruning may have taken: up to the floor that this process has
published, and what lay below the oldest row when it started. -/
def pruneWatermark (lo₀ : Nat) (w : World Blob) : Nat :=
  max w.pruneFloor (lo₀ - 1)

/-- A page in flight is a run of consecutive numbers that starts after the reader's
position; a gap before it is explained, and so is an end short of the frontier. -/
structure PageExplained [DagCbor Blob] (lo₀ : Nat) (w : World Blob) (reader : ReplayReader)
    (rows : List (StoredEventRow Blob)) (start : Nat) : Prop where
  more : reader.done = false
  first : reader.firstPage = false
  seqs : rows.map (·.seq) = List.range' start rows.length
  decodes : ∀ row ∈ rows, ∃ e, decodeStoredEvent row.seq row.eventType row.event = .ok e
  above : reader.after < start
  gap : start = reader.after + 1 ∨ reader.after < w.pruneFloor ∨
    (reader.anchored = false ∧ reader.cursorPresent = false)
  skipped : ∀ q, reader.after < q → q < start → q ≤ pruneWatermark lo₀ w
  empty : rows = [] → reader.after < w.pruneFloor ∧ reader.upper < start
  within : rows ≠ [] → start + rows.length ≤ reader.upper + 1
  short : rows ≠ [] → rows.length < replayBatch → start + rows.length = reader.upper + 1
  oldest : rows ≠ [] → lo₀ ≤ start

/-- What a reader has delivered, and what it may have left out. -/
structure ReaderInv [DagCbor Blob] (lo₀ cursor upper : Nat) (w : World Blob)
    (sub : Subscriber Blob) : Prop where
  target : sub.reader.cursor = cursor ∧ sub.reader.upper = upper
  noError : ∀ e, sub.ended ≠ some (.replay e)
  upper : sub.reader.upper ≤ w.lastSeq
  covered : sub.reader.upper < lo₀ →
    sub.reader.upper ≤ sub.reader.cursor ∨ sub.reader.cursor < w.pruneFloor
  position : sub.reader.cursor ≤ sub.reader.after
  sorted : (sub.replayed.map FirehoseEvent.seq).Pairwise (· < ·)
  within : ∀ q ∈ sub.replayed.map FirehoseEvent.seq,
    sub.reader.cursor < q ∧ q ≤ sub.reader.after ∧ q ≤ sub.reader.upper
  omitted : ∀ q, sub.reader.cursor < q → q ≤ sub.reader.after →
    q ∉ sub.replayed.map FirehoseEvent.seq → q ≤ pruneWatermark lo₀ w
  finished : sub.reader.done = true → ∀ q, sub.reader.after < q → q ≤ sub.reader.upper →
    q ≤ pruneWatermark lo₀ w
  more : sub.reader.done = false → sub.reader.after < sub.reader.upper
  first : sub.reader.firstPage = true → sub.reader.after = sub.reader.cursor
  anchored : sub.reader.anchored = true → lo₀ ≤ sub.reader.after
  unanchored : sub.reader.anchored = false → sub.reader.after = sub.reader.cursor
  fresh : sub.reader.anchored = false → sub.reader.done = false → sub.page = none →
    sub.reader.firstPage = true
  page : ∀ rows, sub.page = some rows → ∃ start, PageExplained lo₀ w sub.reader rows start

theorem pruneWatermark_mono {lo₀ : Nat} {w t : World Blob} (h : w.pruneFloor ≤ t.pruneFloor) :
    pruneWatermark lo₀ w ≤ pruneWatermark lo₀ t := by
  unfold pruneWatermark
  omega

section Reader

variable [DagCbor Blob] {lo₀ lo cursor upper : Nat} {w t : World Blob}
  {sub sub' : Subscriber Blob}

/-- A reader over `(cursor, upper]` that was just made. -/
theorem readerInv_attach {position : Nat} (hUpper : upper ≤ w.lastSeq)
    (hCovered : upper < lo₀ → upper ≤ cursor ∨ cursor < w.pruneFloor) :
    ReaderInv lo₀ cursor upper w (Subscriber.attach cursor upper position) where
  target := ⟨rfl, rfl⟩
  noError := by
    intro e hEnded
    cases hEnded
  upper := hUpper
  covered := hCovered
  position := le_rfl
  sorted := List.Pairwise.nil
  within := by
    intro q hq
    cases hq
  omitted := by
    intro q hLow hHigh _
    exact absurd hLow (not_lt.mpr hHigh)
  finished := by
    intro hDone q hLow hHigh
    have hDone' : upper ≤ cursor := by
      simpa [Subscriber.attach, ReplayReader.new] using hDone
    have hLow' : cursor < q := hLow
    have hHigh' : q ≤ upper := hHigh
    omega
  more := by
    intro hMore
    simpa [Subscriber.attach, ReplayReader.new] using hMore
  first := fun _ => rfl
  anchored := by
    intro hAnchored
    cases hAnchored
  unanchored := fun _ => rfl
  fresh := fun _ _ _ => rfl
  page := by
    intro rows hPage
    cases hPage

/-- Rising floors and frontiers keep what is known of a reader. -/
theorem ReaderInv.world (h : ReaderInv lo₀ cursor upper w sub)
    (hFloor : w.pruneFloor ≤ t.pruneFloor) (hLast : w.lastSeq ≤ t.lastSeq) :
    ReaderInv lo₀ cursor upper t sub := by
  have hMark : pruneWatermark lo₀ w ≤ pruneWatermark lo₀ t := pruneWatermark_mono hFloor
  refine ⟨h.target, h.noError, h.upper.trans hLast, ?_, h.position, h.sorted, h.within, ?_, ?_,
    h.more, h.first, h.anchored, h.unanchored, h.fresh, ?_⟩
  · intro hLow
    rcases h.covered hLow with hDone | hBelow
    · exact Or.inl hDone
    · exact Or.inr (hBelow.trans_le hFloor)
  · intro q hLow hHigh hOut
    exact (h.omitted q hLow hHigh hOut).trans hMark
  · intro hDone q hLow hHigh
    exact (h.finished hDone q hLow hHigh).trans hMark
  · intro rows hPage
    obtain ⟨start, hp⟩ := h.page rows hPage
    refine ⟨start, hp.more, hp.first, hp.seqs, hp.decodes, hp.above, ?_, ?_, ?_, hp.within,
      hp.short, hp.oldest⟩
    · rcases hp.gap with hNext | hBelow | hFree
      · exact Or.inl hNext
      · exact Or.inr (Or.inl (hBelow.trans_le hFloor))
      · exact Or.inr (Or.inr hFree)
    · intro q hLow hHigh
      exact (hp.skipped q hLow hHigh).trans hMark
    · intro hNil
      obtain ⟨hBelow, hEnd⟩ := hp.empty hNil
      exact ⟨hBelow.trans_le hFloor, hEnd⟩

/-- The oldest row stands where it stood when the process started, or just above a floor
that was published. -/
def OldestExplained (lo₀ lo : Nat) (w : World Blob) : Prop :=
  lo₀ ≤ lo ∧ (lo = lo₀ ∨ lo ≤ w.pruneFloor + 1)

/-- Between the reader and the oldest row there is nothing, or what was published as pruned,
or what was missing before the reader found any row. -/
theorem ReaderInv.oldest_gap (h : ReaderInv lo₀ cursor upper w sub)
    (hOldest : OldestExplained lo₀ lo w) :
    lo ≤ sub.reader.after + 1 ∨ sub.reader.after < w.pruneFloor ∨
      (lo = lo₀ ∧ sub.reader.anchored = false) := by
  rcases hOldest.2 with hEq | hFloor
  · cases hAnchored : sub.reader.anchored with
    | true =>
      have := h.anchored hAnchored
      left
      omega
    | false => exact Or.inr (Or.inr ⟨hEq, rfl⟩)
  · rcases Nat.lt_or_ge (sub.reader.after + 1) lo with hLt | hGe
    · right
      left
      omega
    · exact Or.inl hGe

/-- A page of a contiguous log is a run of numbers. -/
theorem Contiguous.page_seqs (h : Contiguous lo w) {after upper : Nat}
    (hUpper : upper ≤ w.repoSeq.maxSeq) {rows : List (StoredEventRow Blob)}
    (hRows : rows = (w.repoSeq.table.page after upper replayBatch).map StoredEventRow.ofRow) :
    rows.map (·.seq) = List.range' (max (after + 1) lo)
      (min replayBatch (upper + 1 - max (after + 1) lo)) := by
  have hKeys := h.dense.keys_page after upper replayBatch
  rw [min_eq_left hUpper] at hKeys
  rw [← hKeys, hRows, List.map_map]
  rfl

/-- The page that a query reads is explained. -/
theorem pageExplained_query (hWorld : Contiguous lo w) (hOldest : OldestExplained lo₀ lo w)
    (h : ReaderInv lo₀ cursor upper w sub) (hPage : sub.page = none)
    (hMore : sub.reader.done = false)
    {reader : ReplayReader} {rows : List (StoredEventRow Blob)}
    (hQuery : sub.reader.query w.repoSeq = .ok (reader, rows)) :
    PageExplained lo₀ w reader rows (max (sub.reader.after + 1) lo) := by
  obtain ⟨hRows, present, rfl, hPresent⟩ := ReplayReader.query_ok h.first hQuery
  have hAfter := h.more hMore
  have hSeqs := hWorld.page_seqs (h.upper.trans hWorld.frontier.frontier) hRows
  have hLen : rows.length =
      min replayBatch (sub.reader.upper + 1 - max (sub.reader.after + 1) lo) := by
    have := congrArg List.length hSeqs
    simpa using this
  have hBatch : 0 < replayBatch := by decide
  have hGap := h.oldest_gap hOldest
  obtain ⟨hLo, hStart⟩ := hOldest
  refine ⟨hMore, rfl, by rw [hLen]; exact hSeqs, ?_, ?_, ?_, ?_, ?_, ?_, ?_, ?_⟩
  · intro row hRow
    rw [hRows] at hRow
    obtain ⟨r, hr, rfl⟩ := List.mem_map.mp hRow
    exact hWorld.decodes r (SeqTable.mem_range.mp (List.mem_of_mem_take hr)).1
  · exact Nat.le_max_left _ _
  · show max (sub.reader.after + 1) lo = sub.reader.after + 1 ∨ sub.reader.after < w.pruneFloor ∨
      (sub.reader.anchored = false ∧ present = false)
    rcases hGap with hNext | hBelow | ⟨hEq, hFree⟩
    · exact Or.inl (max_eq_left hNext)
    · exact Or.inr (Or.inl hBelow)
    · rcases Nat.lt_or_ge (sub.reader.after + 1) lo with hLt | hGe
      · refine Or.inr (Or.inr ⟨hFree, ?_⟩)
        by_contra hSome
        obtain ⟨k, hk, hle⟩ := hPresent (h.fresh hFree hMore hPage) (by simpa using hSome)
        have := (hWorld.dense k).mp hk
        have := h.unanchored hFree
        omega
      · exact Or.inl (max_eq_left hGe)
  · intro q hLow hHigh
    have hLow' : sub.reader.after < q := hLow
    unfold pruneWatermark
    omega
  · intro hNil
    rw [hNil] at hLen
    simp only [List.length_nil] at hLen
    have hEnd : sub.reader.upper < max (sub.reader.after + 1) lo := by omega
    refine ⟨?_, hEnd⟩
    show sub.reader.after < w.pruneFloor
    rcases hGap with hNext | hBelow | ⟨hEq, hFree⟩
    · omega
    · exact hBelow
    · have hCursor := h.unanchored hFree
      rcases h.covered (by omega) with hNone | hBelow
      · omega
      · omega
  · intro hSome
    have : 0 < rows.length := List.length_pos_iff.mpr hSome
    show max (sub.reader.after + 1) lo + rows.length ≤ sub.reader.upper + 1
    omega
  · intro hSome hShort
    have : 0 < rows.length := List.length_pos_iff.mpr hSome
    show max (sub.reader.after + 1) lo + rows.length = sub.reader.upper + 1
    omega
  · intro _
    exact hLo.trans (Nat.le_max_right _ _)

/-- The first half of `next_batch` on a contiguous log. -/
theorem readerInv_query (hWorld : Contiguous lo w) (hOldest : OldestExplained lo₀ lo w)
    (h : ReaderInv lo₀ cursor upper w sub) (hQuery : sub.query w = some sub') :
    ReaderInv lo₀ cursor upper w sub' := by
  obtain ⟨_, _, hPage, hCases⟩ := Subscriber.query_cases hQuery
  rcases hCases with ⟨hDone, rfl⟩ | ⟨hMore, e, hErr, rfl⟩ | ⟨hMore, reader, rows, hOk, rfl⟩
  · exact ⟨h.target, h.noError, h.upper, h.covered, h.position, h.sorted, h.within, h.omitted,
      h.finished, h.more, h.first, h.anchored, h.unanchored, h.fresh, h.page⟩
  · have hUpper : sub.reader.upper ≤ i64Max :=
      (h.upper.trans hWorld.frontier.frontier).trans w.repoSeq.maxSeq_le
    have hAfter := h.more hMore
    obtain ⟨reader, rows, hOk⟩ := ReplayReader.query_isOk w.repoSeq h.first
      (hAfter.le.trans hUpper) hUpper
    rw [hErr] at hOk
    cases hOk
  · have hExplained := pageExplained_query hWorld hOldest h hPage hMore hOk
    obtain ⟨_, present, rfl, _⟩ := ReplayReader.query_ok h.first hOk
    refine ⟨h.target, h.noError, h.upper, h.covered, h.position, h.sorted, h.within, h.omitted,
      h.finished, h.more, ?_, h.anchored, h.unanchored, ?_, ?_⟩
    · intro hFirst
      cases hFirst
    · intro _ _ hNone
      cases hNone
    · intro rows' hRows'
      cases hRows'
      exact ⟨_, hExplained⟩

/-- An explained page is accepted. -/
theorem absorb_isOk {reader : ReplayReader} {rows : List (StoredEventRow Blob)} {start : Nat}
    (h : PageExplained lo₀ w reader rows start) :
    ∃ reader' events, reader.absorb w.pruneFloor rows = .ok (reader', events) := by
  cases rows with
  | nil =>
    obtain ⟨hFloor, _⟩ := h.empty rfl
    have hEmpty : ∃ reader', reader.emptyPage w.pruneFloor = .ok reader' := by
      unfold ReplayReader.emptyPage
      by_cases hAfter : reader.after < reader.upper
      · rw [if_pos hAfter, if_pos hFloor]
        exact ⟨_, rfl⟩
      · rw [if_neg hAfter]
        exact ⟨_, rfl⟩
    obtain ⟨reader', hOk⟩ := hEmpty
    exact ⟨reader', [], bind_ok.mpr ⟨reader', hOk, rfl⟩⟩
  | cons row rows =>
    obtain ⟨reader₁, events, hRows⟩ :=
      ReplayReader.absorbRows_consecutive h.seqs h.decodes h.gap
    obtain ⟨_, rfl⟩ := ReplayReader.absorbRows_ok hRows
    have hLast : ReplayReader.lastSeq reader.after (row :: rows) + 1 =
        start + (row :: rows).length :=
      ReplayReader.lastSeq_consecutive h.seqs (Nat.succ_pos _)
    have hClose : reader.upper ≤ ReplayReader.lastSeq reader.after (row :: rows) ∨
        replayBatch ≤ (row :: rows).length := by
      rcases Nat.lt_or_ge (row :: rows).length replayBatch with hShort | hFull
      · have := h.short (List.cons_ne_nil _ _) hShort
        left
        omega
      · exact Or.inr hFull
    obtain ⟨reader', hOk⟩ : ∃ reader', ReplayReader.closePage w.pruneFloor
        (row :: rows).length { reader with
          anchored := reader.anchored || !(row :: rows).isEmpty
          after := ReplayReader.lastSeq reader.after (row :: rows) } = .ok reader' :=
      ReplayReader.closePage_isOk (hClose.imp_right Or.inl)
    exact ⟨reader', events, bind_ok.mpr ⟨_, hRows, bind_ok.mpr ⟨reader', hOk, rfl⟩⟩⟩

/-- A page of consecutive numbers ends where it should. -/
theorem PageExplained.lastSeq_add {reader : ReplayReader} {rows : List (StoredEventRow Blob)}
    {start : Nat} (h : PageExplained lo₀ w reader rows start) (hSome : rows ≠ []) :
    ReplayReader.lastSeq reader.after rows + 1 = start + rows.length :=
  ReplayReader.lastSeq_consecutive h.seqs (List.length_pos_iff.mpr hSome)

theorem PageExplained.mem_seqs {reader : ReplayReader} {rows : List (StoredEventRow Blob)}
    {start q : Nat} (h : PageExplained lo₀ w reader rows start) :
    q ∈ rows.map (·.seq) ↔ start ≤ q ∧ q < start + rows.length := by
  rw [h.seqs, List.mem_range'_1]

/-- Where a reader stands after a page: no lower, and no lower than the oldest row unless the
page is empty. -/
theorem PageExplained.after_le {reader : ReplayReader} {rows : List (StoredEventRow Blob)}
    {start : Nat} (h : PageExplained lo₀ w reader rows start) :
    reader.after ≤ ReplayReader.lastSeq reader.after rows ∧
      (rows = [] ∨ lo₀ ≤ ReplayReader.lastSeq reader.after rows) := by
  by_cases hNil : rows = []
  · subst hNil
    exact ⟨le_rfl, Or.inl rfl⟩
  · have hAdd := h.lastSeq_add hNil
    have hPos := List.length_pos_iff.mpr hNil
    have hLow := h.oldest hNil
    have hAbove := h.above
    omega

theorem PageExplained.seq_bounds {reader : ReplayReader} {rows : List (StoredEventRow Blob)}
    {start q : Nat} (h : PageExplained lo₀ w reader rows start) (hq : q ∈ rows.map (·.seq)) :
    reader.after < q ∧ q ≤ ReplayReader.lastSeq reader.after rows ∧ q ≤ reader.upper := by
  have hBounds := h.mem_seqs.mp hq
  have hSome : rows ≠ [] := by
    rintro rfl
    cases hq
  have hAdd := h.lastSeq_add hSome
  have hWithin := h.within hSome
  have hAbove := h.above
  omega

/-- What a page passes over without delivering it. -/
theorem PageExplained.passed {reader : ReplayReader} {rows : List (StoredEventRow Blob)}
    {start q : Nat} (h : PageExplained lo₀ w reader rows start) (hLow : reader.after < q)
    (hHigh : q ≤ ReplayReader.lastSeq reader.after rows) (hOut : q ∉ rows.map (·.seq)) :
    q ≤ pruneWatermark lo₀ w := by
  apply h.skipped q hLow
  by_contra hGe
  have hSome : rows ≠ [] := by
    rintro rfl
    have hEmpty : q ≤ reader.after := hHigh
    omega
  have hAdd := h.lastSeq_add hSome
  exact hOut (h.mem_seqs.mpr ⟨not_lt.mp hGe, by omega⟩)

/-- What lies beyond the last page. -/
theorem PageExplained.beyond {reader : ReplayReader} {rows : List (StoredEventRow Blob)}
    {start q : Nat} (h : PageExplained lo₀ w reader rows start)
    (hEnd : reader.upper ≤ ReplayReader.lastSeq reader.after rows ∨ rows.length < replayBatch)
    (hLow : ReplayReader.lastSeq reader.after rows < q) (hHigh : q ≤ reader.upper) :
    q ≤ pruneWatermark lo₀ w := by
  by_cases hNil : rows = []
  · subst hNil
    have hBelow : reader.after < q := hLow
    have hStart := (h.empty rfl).2
    exact h.skipped q hBelow (by omega)
  · have hAdd := h.lastSeq_add hNil
    rcases hEnd with hUpper | hShort
    · omega
    · have := h.short hNil hShort
      omega

/-- The second half of `next_batch`, against the floor of a later moment. -/
theorem readerInv_absorb (h : ReaderInv lo₀ cursor upper w sub)
    (hAbsorb : sub.absorb w = some sub') :
    ReaderInv lo₀ cursor upper w sub' := by
  obtain ⟨_, rows, hPage, hCases⟩ := Subscriber.absorb_cases hAbsorb
  obtain ⟨start, hp⟩ := h.page rows hPage
  obtain ⟨reader₁, events₁, hAccepted⟩ := absorb_isOk hp
  rcases hCases with ⟨e, hErr, rfl⟩ | ⟨reader, events, hOk, rfl⟩
  · rw [hAccepted] at hErr
    cases hErr
  · obtain ⟨hSeqs, done, rfl, hEnd, hMore⟩ := ReplayReader.absorb_ok hp.more hOk
    have hLast := hp.after_le
    refine ⟨h.target, h.noError, h.upper, h.covered, h.position.trans hLast.1, ?_, ?_, ?_, ?_,
      fun hOpen => (hMore hOpen).2, ?_, ?_, ?_, ?_, ?_⟩
    · rw [List.map_append, hSeqs]
      refine List.pairwise_append.mpr ⟨h.sorted, ?_, ?_⟩
      · rw [hp.seqs]
        exact List.pairwise_lt_range'
      · intro p hp' q hq
        exact (h.within p hp').2.1.trans_lt (hp.seq_bounds hq).1
    · intro q hq
      rw [List.map_append, hSeqs] at hq
      rcases List.mem_append.mp hq with hOld | hNew
      · obtain ⟨hCursor, hAfter, hUpper⟩ := h.within q hOld
        exact ⟨hCursor, hAfter.trans hLast.1, hUpper⟩
      · obtain ⟨hAfter, hPage, hUpper⟩ := hp.seq_bounds hNew
        exact ⟨h.position.trans_lt hAfter, hPage, hUpper⟩
    · intro q hCursor hAfter hOut
      rw [List.map_append, hSeqs] at hOut
      have hOut' : q ∉ sub.replayed.map FirehoseEvent.seq ∧ q ∉ rows.map (·.seq) := by
        simpa only [List.mem_append, not_or] using hOut
      rcases le_or_gt q sub.reader.after with hOld | hNew
      · exact h.omitted q hCursor hOld hOut'.1
      · exact hp.passed hNew hAfter hOut'.2
    · intro hDone q hLow hHigh
      exact hp.beyond (hEnd hDone) hLow hHigh
    · intro hFirst
      rw [hp.first] at hFirst
      cases hFirst
    · intro hAnchored
      rcases hLast.2 with hNil | hLow
      · subst hNil
        exact h.anchored (by simpa using hAnchored)
      · exact hLow
    · intro hFree
      have hBoth : sub.reader.anchored = false ∧ rows = [] := by
        simpa using hFree
      obtain ⟨hOld, rfl⟩ := hBoth
      exact h.unanchored hOld
    · intro hFree hNotDone _
      have hBoth : sub.reader.anchored = false ∧ rows = [] := by
        simpa using hFree
      exact absurd hBoth.2 (hMore hNotDone).1
    · intro rows' hRows'
      cases hRows'

omit [DagCbor Blob] in
/-- Live frames do not concern the replay. -/
theorem readerInv_recv [DagCbor Blob] {capacity : Nat} (h : ReaderInv lo₀ cursor upper w sub)
    (hRecv : sub.recv capacity w = some sub') : ReaderInv lo₀ cursor upper w sub' := by
  obtain ⟨_, _, rfl | ⟨event, _, rfl⟩⟩ := Subscriber.recv_cases hRecv
  · refine ⟨h.target, ?_, h.upper, h.covered, h.position, h.sorted, h.within, h.omitted, h.finished,
      h.more, h.first, h.anchored, h.unanchored, h.fresh, h.page⟩
    intro e hEnded
    cases hEnded
  · exact ⟨h.target, h.noError, h.upper, h.covered, h.position, h.sorted, h.within, h.omitted,
      h.finished, h.more, h.first, h.anchored, h.unanchored, h.fresh, h.page⟩

end Reader

/-- `subscribe_from` takes its upper bound where the theorem below needs it: at the
frontier, which is the newest row of a contiguous log. -/
theorem subscribe_covered [DagCbor Blob] {lo cursor : Nat} {w : World Blob}
    (hWorld : Contiguous lo w) (hIdle : w.writer = .idle) (hLow : w.lastSeq < lo) :
    w.lastSeq ≤ cursor ∨ cursor < w.pruneFloor := by
  have hTop := hWorld.settled.of_idle hIdle
  have hOldest := hWorld.oldest
  omega

/-! ## Whole runs -/

/-- Emissions, sweeps and the steps of the one subscriber. -/
def SessionLabel.InReplay : SessionLabel → Prop
  | .world l => l.IsEmissionOrSweep
  | .subscribe _ => False
  | _ => True

/-- The invariant of a replay over a log whose oldest row was `lo₀` at the start. -/
def ReplayInv [DagCbor Blob] (lo₀ cursor upper : Nat) (s : Session Blob) : Prop :=
  (∃ lo, Contiguous lo s.world ∧ OldestExplained lo₀ lo s.world) ∧
    ∃ sub, s.sub = some sub ∧ ReaderInv lo₀ cursor upper s.world sub

theorem replayInv_step {Cid : Type} [CidText Cid] [DagCbor Blob] [LawfulDagCbor Blob]
    {capacity lo₀ cursor upper : Nat} {s t : Session Blob} {l : SessionLabel}
    (hInv : ReplayInv lo₀ cursor upper s) (hLabel : l.InReplay)
    (h : s.step Cid capacity l = some t) : ReplayInv lo₀ cursor upper t := by
  obtain ⟨⟨lo, hWorld, hOldest⟩, sub, hSub, hReader⟩ := hInv
  cases sessionMoves_of_step Cid capacity h with
  | world hRestart hMoves =>
    obtain ⟨lo', hWorld', hLe, hMoved⟩ := contiguous_moves hWorld hLabel hMoves
    obtain ⟨hFloor, hLast⟩ := floor_le_moves hWorld.frontier hWorld.settled hLabel hMoves
    refine ⟨⟨lo', hWorld', hOldest.1.trans hLe, ?_⟩, sub, hSub, hReader.world hFloor hLast⟩
    rcases hMoved with rfl | hBelow
    · exact hOldest.2.imp_right fun hUnder => hUnder.trans (Nat.succ_le_succ hFloor)
    · exact Or.inr hBelow
  | restarted => exact hLabel.elim
  | subscribed => exact hLabel.elim
  | queried hSub' hQuery =>
    rw [hSub] at hSub'
    cases hSub'
    exact ⟨⟨lo, hWorld, hOldest⟩, _, rfl, readerInv_query hWorld hOldest hReader hQuery⟩
  | absorbed hSub' hAbsorb =>
    rw [hSub] at hSub'
    cases hSub'
    exact ⟨⟨lo, hWorld, hOldest⟩, _, rfl, readerInv_absorb hReader hAbsorb⟩
  | received hSub' hRecv =>
    rw [hSub] at hSub'
    cases hSub'
    exact ⟨⟨lo, hWorld, hOldest⟩, _, rfl, readerInv_recv hReader hRecv⟩

/-- From any contiguous log, for every cursor and every upper bound that the frontier has
reached and that pruning has not passed unnoticed, and for every schedule of emissions and
sweeps between and inside the calls of `next_batch`: no call fails, the batches are
strictly increasing and within `(cursor, upper]`, and a number that they leave out is at
or below the prune watermark. -/
theorem replay_tolerates_pruning (Cid : Type) [CidText Cid] [DagCbor Blob]
    [LawfulDagCbor Blob] (capacity lo : Nat) (w : World Blob) (hWorld : Contiguous lo w)
    (cursor upper position : Nat) (hUpper : upper ≤ w.lastSeq)
    (hCovered : upper < lo → upper ≤ cursor ∨ cursor < w.pruneFloor)
    (labels : List SessionLabel) (hLabels : ∀ l ∈ labels, l.InReplay) (s : Session Blob)
    (hRun : run (Session.step Cid capacity)
      { world := w, sub := some (.attach cursor upper position) } labels = some s) :
    ∃ sub, s.sub = some sub ∧ (∀ e, sub.ended ≠ some (.replay e)) ∧
      (sub.replayed.map FirehoseEvent.seq).Pairwise (· < ·) ∧
      (∀ q ∈ sub.replayed.map FirehoseEvent.seq, cursor < q ∧ q ≤ upper) ∧
      ∀ q, cursor < q → q ≤ upper → q ∉ sub.replayed.map FirehoseEvent.seq →
        q ≤ pruneWatermark lo s.world ∨ (sub.reader.done = false ∧ sub.reader.after < q) := by
  have hStart : ReplayInv lo cursor upper
      { world := w, sub := some (.attach cursor upper position) } :=
    ⟨⟨lo, hWorld, le_rfl, Or.inl rfl⟩, _, rfl, readerInv_attach hUpper hCovered⟩
  have hInv : ReplayInv lo cursor upper s := by
    refine run_invariant_along ?_ hStart (along_of_forall hLabels) hRun
    intro s l t hInv hLabel h
    exact replayInv_step hInv hLabel h
  obtain ⟨_, sub, hSub, hReader⟩ := hInv
  obtain ⟨rfl, rfl⟩ := hReader.target
  refine ⟨sub, hSub, hReader.noError, hReader.sorted, ?_, ?_⟩
  · intro q hq
    have := hReader.within q hq
    exact ⟨this.1, this.2.2⟩
  · intro q hCursor hUp hOut
    rcases le_or_gt q sub.reader.after with hRead | hAhead
    · exact Or.inl (hReader.omitted q hCursor hRead hOut)
    · cases hDone : sub.reader.done with
      | true => exact Or.inl (hReader.finished hDone q hAhead hUp)
      | false => exact Or.inr ⟨rfl, hAhead⟩

/-! ## A run on three rows -/

def sampleRow : EventRow Stored :=
  sampleIdentity.row "t" (.identity { did := "did:plc:a", time := "t", handle := none })

theorem threeRows_sorted : [(1, sampleRow), (2, sampleRow), (3, sampleRow)].Pairwise
    fun r s => r.1 < s.1 := by
  simp

theorem threeRows_bounded : ∀ k ∈ SeqTable.keys ⟨_, threeRows_sorted⟩, k ≤ i64Max := by
  intro k hk
  have hk' : k = 1 ∨ k = 2 ∨ k = 3 := by simpa [SeqTable.keys] using hk
  have hMax : 3 ≤ i64Max := by decide
  omega

def threeRows : RepoSeq Stored where
  table :=
    { rows := [(1, sampleRow), (2, sampleRow), (3, sampleRow)]
      sorted := threeRows_sorted }
  bounded := threeRows_bounded

theorem contiguous_threeRows : Contiguous 1 (World.new threeRows threeRows.table.rows) := by
  refine contiguous_new (by decide) (by decide) ?_ ?_
  · intro k
    have hMax : threeRows.maxSeq = 3 := by decide
    rw [hMax]
    simp only [threeRows, SeqTable.keys, List.map_cons, List.map_nil, List.mem_cons,
      List.not_mem_nil, or_false]
    omega
  · intro r hr
    have hr' : r.2 = sampleRow := by
      simp only [threeRows, List.mem_cons, List.not_mem_nil, or_false] at hr
      rcases hr with rfl | rfl | rfl
      · rfl
      · rfl
      · rfl
    rw [hr']
    exact ⟨_, rfl⟩

/-- A sweep deletes rows 1 and 2 before a reader over `(0, 3]` asks for its first page. -/
def pruneRun : List SessionLabel :=
  [.world (.sweepMeasure { logRetentionSecs := 0, logRetentionCount := 1 }),
    .world (.sweepBoundary none), .world .sweepNote, .world .sweepPrune, .query, .absorb,
    .query]

theorem pruneRun_tolerated :
    ∃ (s : Session Stored) (sub : Subscriber Stored), s.sub = some sub ∧
      run (Session.step String 1024)
        { world := .new threeRows threeRows.table.rows, sub := some (.attach 0 3 0) }
        pruneRun = some s ∧
      (∀ e, sub.ended ≠ some (.replay e)) ∧
      ∀ q, 0 < q → q ≤ 3 → q ∉ sub.replayed.map FirehoseEvent.seq →
        q ≤ pruneWatermark 1 s.world ∨ (sub.reader.done = false ∧ sub.reader.after < q) := by
  have hSome : (run (Session.step String 1024)
      { world := .new threeRows threeRows.table.rows, sub := some (.attach 0 3 0) }
      pruneRun).isSome = true := by
    decide
  obtain ⟨s, hRun⟩ := Option.isSome_iff_exists.mp hSome
  obtain ⟨sub, hSub, hNoError, _, _, hOmitted⟩ :=
    replay_tolerates_pruning String 1024 1 _ contiguous_threeRows 0 3 0 (by decide) (by decide)
      pruneRun (by simp [pruneRun, SessionLabel.InReplay, Label.IsEmissionOrSweep]) s hRun
  exact ⟨s, sub, hSub, hRun, hNoError, hOmitted⟩

end Ezpds.Firehose
