import Ezpds.Firehose.World

/-!
# The sequence frontier

Three sources say which number comes next: the in-memory `last_seq`, `MAX(seq)` in the
table, and the history of rows that were ever durable. They drift apart when a handler
is dropped between its commit and `finish`, and they stay ordered as `FrontierInv` says:
the in-memory frontier never passes the table's, and the newest row is never pruned.

* `frontierInv_moves`: every step keeps the invariant.
* `settled_moves`: every step but a cancellation keeps the frontier settled.
-/

namespace Ezpds.Firehose

open Library

variable {Blob : Type}

/-! ## Rows of an open transaction -/

/-- The transaction holds the log and the rows of the pending events, which are numbered
from `nextSeq` on. -/
structure StagedRows (lastSeq : Nat) (log tx : RepoSeq Blob)
    (rows : List (Nat × EventRow Blob)) (pending : Pending) : Prop where
  primary : pending.primary.seq = nextSeq lastSeq log
  sync : ∀ e, pending.sync = some e → e.seq = nextSeq lastSeq log + 1
  keys : rows.map (·.1) = pending.events.map FirehoseEvent.seq
  seqs : ∀ k, k ∈ tx.seqs ↔ k ∈ log.seqs ∨ k ∈ rows.map (·.1)

theorem Pending.seq_mem (p : Pending) : p.seq ∈ p.events.map FirehoseEvent.seq := by
  unfold Pending.seq Pending.events
  cases p.sync with
  | none => simp
  | some e => simp

namespace StagedRows

variable {lastSeq : Nat} {log tx : RepoSeq Blob} {rows : List (Nat × EventRow Blob)}
  {pending : Pending}

theorem keys_none {primary : FirehoseEvent} (h : StagedRows lastSeq log tx rows ⟨primary, none⟩) :
    rows.map (·.1) = [nextSeq lastSeq log] := by
  have hp := h.primary
  simp only at hp
  simp [h.keys, Pending.events, hp]

theorem keys_some {primary e : FirehoseEvent}
    (h : StagedRows lastSeq log tx rows ⟨primary, some e⟩) :
    rows.map (·.1) = [nextSeq lastSeq log, nextSeq lastSeq log + 1] := by
  have hp := h.primary
  have hs := h.sync e rfl
  simp only at hp
  simp [h.keys, Pending.events, hp, hs]

/-- The rows are the one staged number, or that number and the next. -/
theorem keys_cases (h : StagedRows lastSeq log tx rows pending) :
    rows.map (·.1) = [nextSeq lastSeq log] ∨
      rows.map (·.1) = [nextSeq lastSeq log, nextSeq lastSeq log + 1] := by
  obtain ⟨primary, sync⟩ := pending
  cases sync with
  | none => exact Or.inl h.keys_none
  | some e => exact Or.inr h.keys_some

theorem le_maxSeq (h : StagedRows lastSeq log tx rows pending) {r : Nat × EventRow Blob}
    (hr : r ∈ rows) : r.1 ≤ tx.maxSeq :=
  SeqTable.le_maxKey ((h.seqs r.1).mpr (Or.inr (List.mem_map_of_mem hr)))

theorem seq_le_maxSeq (h : StagedRows lastSeq log tx rows pending) : pending.seq ≤ tx.maxSeq := by
  refine SeqTable.le_maxKey ((h.seqs _).mpr (Or.inr ?_))
  rw [h.keys]
  exact pending.seq_mem

theorem maxSeq_le (h : StagedRows lastSeq log tx rows pending) : log.maxSeq ≤ tx.maxSeq := by
  rcases Nat.eq_zero_or_pos log.maxSeq with h0 | h0
  · omega
  · exact SeqTable.le_maxKey ((h.seqs _).mpr (Or.inl (SeqTable.maxKey_mem h0)))

/-- The row that `stage_commit` or `stage_account` inserts. -/
theorem single (input : EventInput) (time : String) {row : EventRow Blob}
    (h : log.insertEvent (nextSeq lastSeq log) row = .ok tx) :
    StagedRows lastSeq log tx [(nextSeq lastSeq log, row)]
      ⟨input.event (nextSeq lastSeq log) time, none⟩ where
  primary := by simp
  sync := by simp
  keys := by simp [Pending.events]
  seqs := by
    intro k
    rw [RepoSeq.mem_seqs_insertEvent h]
    simp [or_comm]

/-- The chained `#sync` row comes at the number after the primary. -/
theorem chain {tx' : RepoSeq Blob} {primary : FirehoseEvent} (input : EventInput)
    (time : String) {row : EventRow Blob} (h : StagedRows lastSeq log tx rows ⟨primary, none⟩)
    (hInsert : tx.insertEvent (primary.seq + 1) row = .ok tx') :
    StagedRows lastSeq log tx' (rows ++ [(primary.seq + 1, row)])
      ⟨primary, some (input.event (primary.seq + 1) time)⟩ where
  primary := h.primary
  sync := by
    intro e he
    cases he
    have := h.primary
    simp only at this
    simp [this]
  keys := by
    have := h.keys
    simp only [Pending.events, Option.toList_none] at this
    simp [Pending.events, this]
  seqs := by
    intro k
    rw [RepoSeq.mem_seqs_insertEvent hInsert, h.seqs k]
    simp only [List.map_append, List.mem_append, List.map_cons, List.map_nil,
      List.mem_singleton]
    constructor
    · rintro (rfl | hk | hk)
      · exact Or.inr (Or.inr rfl)
      · exact Or.inl hk
      · exact Or.inr (Or.inl hk)
    · rintro (hk | hk | rfl)
      · exact Or.inr (Or.inl hk)
      · exact Or.inr (Or.inr hk)
      · exact Or.inl rfl

end StagedRows

/-! ## The invariant -/

/-- What the holder of the emit lock has done so far fits the log. -/
def WriterOk (lastSeq : Nat) (log : RepoSeq Blob) : Writer Blob → Prop
  | .idle => True
  | .staged tx rows pending => StagedRows lastSeq log tx rows pending
  | .committed pending => pending.seq ≤ log.maxSeq

/-- A watermark in flight lies below the newest row. -/
def SweepOk (log : RepoSeq Blob) : SweepPhase → Prop
  | .idle => True
  | .measured _ m => m ≤ log.maxSeq
  | .clamped watermark => watermark < log.maxSeq
  | .noted watermark => watermark < log.maxSeq

/-- A growing log keeps a sweep's watermark below its newest row. -/
theorem SweepOk.grow {log db : RepoSeq Blob} {phase : SweepPhase} (h : SweepOk log phase)
    (hle : log.maxSeq ≤ db.maxSeq) : SweepOk db phase := by
  cases phase with
  | idle => trivial
  | measured config m => exact h.trans hle
  | clamped watermark => exact lt_of_lt_of_le h hle
  | noted watermark => exact lt_of_lt_of_le h hle

structure FrontierInv (w : World Blob) : Prop where
  recorded : ∀ k ∈ w.repoSeq.seqs, k ∈ w.durable.map (·.1)
  bounded : ∀ r ∈ w.durable, r.1 ≤ w.repoSeq.maxSeq
  frontier : w.lastSeq ≤ w.repoSeq.maxSeq
  writer : WriterOk w.lastSeq w.repoSeq w.writer
  sweep : SweepOk w.repoSeq w.sweep

theorem frontierInv_start : FrontierInv (World.start : World Blob) where
  recorded := by
    intro k hk
    cases hk
  bounded := by
    intro r hr
    cases hr
  frontier := le_rfl
  writer := trivial
  sweep := trivial

namespace FrontierInv

variable {w : World Blob}

theorem staged {tx : RepoSeq Blob} {rows : List (Nat × EventRow Blob)} {pending : Pending}
    (h : FrontierInv w) (hWriter : w.writer = .staged tx rows pending) :
    StagedRows w.lastSeq w.repoSeq tx rows pending := by
  have hOk := h.writer
  rw [hWriter] at hOk
  exact hOk

theorem committed {pending : Pending} (h : FrontierInv w)
    (hWriter : w.writer = .committed pending) : pending.seq ≤ w.repoSeq.maxSeq := by
  have hOk := h.writer
  rw [hWriter] at hOk
  exact hOk

theorem sweepPhase {phase : SweepPhase} (h : FrontierInv w) (hSweep : w.sweep = phase) :
    SweepOk w.repoSeq phase := by
  rw [← hSweep]
  exact h.sweep

end FrontierInv

theorem maxSeq_le_insertEvent {t u : RepoSeq Blob} {seq : Nat} {row : EventRow Blob}
    (h : t.insertEvent seq row = .ok u) : t.maxSeq ≤ u.maxSeq ∧ seq ≤ u.maxSeq := by
  rw [RepoSeq.maxSeq_insertEvent h]
  omega

section Step

variable {Cid : Type} [CidText Cid] [DagCbor Blob] {w t : World Blob} {l : Label}

theorem frontierInv_moves (hInv : FrontierInv w) (h : Moves Cid w l t) : FrontierInv t := by
  obtain ⟨hRecorded, hBounded, hFrontier, hWriterOk, hSweepOk⟩ := hInv
  cases h with
  | emitRefused => exact ⟨hRecorded, hBounded, hFrontier, hWriterOk, hSweepOk⟩
  | @emitted input time blob db hIdle hPrepare hInsert =>
    obtain ⟨hLog, hSeq⟩ := maxSeq_le_insertEvent hInsert
    refine ⟨?_, ?_, hFrontier.trans hLog, ?_, hSweepOk.grow hLog⟩
    · intro k hk
      simp only [List.map_append, List.map_cons, List.map_nil, List.mem_append,
        List.mem_singleton]
      rcases (RepoSeq.mem_seqs_insertEvent hInsert).mp hk with rfl | hk
      · exact Or.inr rfl
      · exact Or.inl (hRecorded k hk)
    · intro r hr
      rcases List.mem_append.mp hr with hr | hr
      · exact (hBounded r hr).trans hLog
      · rw [List.mem_singleton.mp hr]
        exact hSeq
    · show (input.event (nextSeq w.lastSeq w.repoSeq) time).seq ≤ db.maxSeq
      rw [EventInput.seq_event]
      exact hSeq
  | stageRefused => exact ⟨hRecorded, hBounded, hFrontier, hWriterOk, hSweepOk⟩
  | staged hIdle hPrepare hInsert =>
    exact ⟨hRecorded, hBounded, hFrontier, StagedRows.single _ _ hInsert, hSweepOk⟩
  | chained hWriter hPrepare hInsert =>
    rw [hWriter] at hWriterOk
    exact ⟨hRecorded, hBounded, hFrontier, hWriterOk.chain _ _ hInsert, hSweepOk⟩
  | abandoned hWriter hLabel => exact ⟨hRecorded, hBounded, hFrontier, trivial, hSweepOk⟩
  | committed hWriter =>
    rw [hWriter] at hWriterOk
    have hStaged : StagedRows _ _ _ _ _ := hWriterOk
    refine ⟨?_, ?_, hFrontier.trans hStaged.maxSeq_le, hStaged.seq_le_maxSeq,
      hSweepOk.grow hStaged.maxSeq_le⟩
    · intro k hk
      rw [List.map_append, List.mem_append]
      rcases (hStaged.seqs k).mp hk with hk | hk
      · exact Or.inl (hRecorded k hk)
      · exact Or.inr hk
    · intro r hr
      rcases List.mem_append.mp hr with hr | hr
      · exact (hBounded r hr).trans hStaged.maxSeq_le
      · exact hStaged.le_maxSeq hr
  | finished hWriter =>
    rw [hWriter] at hWriterOk
    exact ⟨hRecorded, hBounded, hWriterOk, trivial, hSweepOk⟩
  | cancelled hWriter => exact ⟨hRecorded, hBounded, hFrontier, trivial, hSweepOk⟩
  | sweepInert => exact ⟨hRecorded, hBounded, hFrontier, hWriterOk, hSweepOk⟩
  | sweepMeasured hPos => exact ⟨hRecorded, hBounded, hFrontier, hWriterOk, le_rfl⟩
  | sweepClamped hSweep hPos hLt =>
    rw [hSweep] at hSweepOk
    exact ⟨hRecorded, hBounded, hFrontier, hWriterOk, lt_of_lt_of_le hLt hSweepOk⟩
  | sweepNoted hSweep =>
    rw [hSweep] at hSweepOk
    exact ⟨hRecorded, hBounded, hFrontier, hWriterOk, hSweepOk⟩
  | @sweepPruned watermark hSweep hWriter =>
    rw [hSweep] at hSweepOk
    have hMax : (w.repoSeq.prune watermark).maxSeq = w.repoSeq.maxSeq :=
      RepoSeq.maxSeq_prune hSweepOk
    refine ⟨?_, ?_, hFrontier.trans hMax.ge, ?_, trivial⟩
    · intro k hk
      exact hRecorded k (RepoSeq.mem_seqs_prune.mp hk).1
    · intro r hr
      exact (hBounded r hr).trans hMax.ge
    · cases hPhase : w.writer with
      | idle => trivial
      | staged tx rows pending => exact absurd hPhase (hWriter tx rows pending)
      | committed pending =>
        rw [hPhase] at hWriterOk
        exact le_trans hWriterOk hMax.ge
  | sweepEnded hLabel => exact ⟨hRecorded, hBounded, hFrontier, hWriterOk, trivial⟩
  | restarted => exact ⟨hRecorded, hBounded, le_rfl, trivial, trivial⟩

theorem frontierInv_step (hInv : FrontierInv w) (h : w.step Cid l = some t) : FrontierInv t :=
  frontierInv_moves hInv (moves_of_step Cid h)

end Step

/-! ## A settled frontier -/

/-- Between two writes the frontier is `MAX(seq)`, and a writer past its commit is about
to move it there. Only a handler dropped before `finish` leaves this condition. -/
def Settled (w : World Blob) : Prop :=
  match w.writer with
  | .committed pending => pending.seq = w.repoSeq.maxSeq
  | _ => w.lastSeq = w.repoSeq.maxSeq

namespace Settled

variable {w : World Blob}

theorem of_idle (h : Settled w) (hIdle : w.writer = .idle) :
    w.lastSeq = w.repoSeq.maxSeq := by
  unfold Settled at h
  rw [hIdle] at h
  exact h

theorem of_staged {tx : RepoSeq Blob} {rows : List (Nat × EventRow Blob)} {pending : Pending}
    (h : Settled w) (hWriter : w.writer = .staged tx rows pending) :
    w.lastSeq = w.repoSeq.maxSeq := by
  unfold Settled at h
  rw [hWriter] at h
  exact h

theorem of_committed {pending : Pending} (h : Settled w)
    (hWriter : w.writer = .committed pending) : pending.seq = w.repoSeq.maxSeq := by
  unfold Settled at h
  rw [hWriter] at h
  exact h

/-- A sweep changes neither the frontier nor `MAX(seq)`. -/
theorem congr {w t : World Blob} (h : Settled w) (hWriter : t.writer = w.writer)
    (hLast : t.lastSeq = w.lastSeq) (hMax : t.repoSeq.maxSeq = w.repoSeq.maxSeq) :
    Settled t := by
  unfold Settled at h ⊢
  rw [hWriter, hLast, hMax]
  exact h

end Settled

/-- A frontier at `MAX(seq)` takes the number after it. -/
theorem nextSeq_of_eq {lastSeq : Nat} {log : RepoSeq Blob} (h : lastSeq = log.maxSeq) :
    nextSeq lastSeq log = lastSeq + 1 := by
  have hFree : lastSeq + 1 ∉ log.seqs := by
    intro hMem
    have : lastSeq + 1 ≤ log.maxSeq := SeqTable.le_maxKey hMem
    omega
  rw [nextSeq, if_neg hFree]

/-- The pending numbers are the one after the frontier, or that one and the next, and the
last of them is what `finish` stores. -/
theorem StagedRows.events_cases {lastSeq : Nat} {log tx : RepoSeq Blob}
    {rows : List (Nat × EventRow Blob)} {pending : Pending}
    (h : StagedRows lastSeq log tx rows pending) :
    (pending.events.map FirehoseEvent.seq = [nextSeq lastSeq log] ∧
        pending.seq = nextSeq lastSeq log) ∨
      (pending.events.map FirehoseEvent.seq = [nextSeq lastSeq log, nextSeq lastSeq log + 1] ∧
        pending.seq = nextSeq lastSeq log + 1) := by
  obtain ⟨primary, sync⟩ := pending
  have hp := h.primary
  simp only at hp
  cases sync with
  | none => exact Or.inl ⟨by simp [Pending.events, hp], hp⟩
  | some e =>
    have hs := h.sync e rfl
    exact Or.inr ⟨by simp [Pending.events, hp, hs], hs⟩

/-- A transaction staged at `MAX(seq)` ends at its last pending number. -/
theorem maxSeq_of_staged {lastSeq : Nat} {log tx : RepoSeq Blob}
    {rows : List (Nat × EventRow Blob)} {pending : Pending}
    (hLast : lastSeq = log.maxSeq) (h : StagedRows lastSeq log tx rows pending) :
    pending.seq = tx.maxSeq := by
  have hNext := nextSeq_of_eq hLast
  have hKeys := h.keys
  have hEvents := h.events_cases
  rw [hNext] at hEvents
  symm
  refine SeqTable.maxKey_eq ((h.seqs _).mpr (Or.inr ?_)) ?_
  · rw [hKeys]
    exact pending.seq_mem
  · intro k hk
    rcases (h.seqs k).mp hk with hk | hk
    · have : k ≤ log.maxSeq := SeqTable.le_maxKey hk
      rcases hEvents with ⟨_, hSeq⟩ | ⟨_, hSeq⟩
      · omega
      · omega
    · rw [hKeys] at hk
      rcases hEvents with ⟨hMap, hSeq⟩ | ⟨hMap, hSeq⟩
      · rw [hMap] at hk
        simp only [List.mem_singleton] at hk
        omega
      · rw [hMap] at hk
        simp only [List.mem_cons, List.not_mem_nil, or_false] at hk
        omega

theorem settled_moves {Cid : Type} [CidText Cid] [DagCbor Blob] {w t : World Blob} {l : Label}
    (hInv : FrontierInv w) (hSettled : Settled w) (hNoCancel : l ≠ .cancel)
    (h : Moves Cid w l t) : Settled t := by
  cases h with
  | emitRefused => exact hSettled
  | emitted hIdle hPrepare hInsert =>
    exact maxSeq_of_staged (hSettled.of_idle hIdle) (StagedRows.single _ _ hInsert)
  | stageRefused => exact hSettled
  | staged hIdle hPrepare hInsert => exact hSettled.of_idle hIdle
  | chained hStaged hPrepare hInsert => exact hSettled.of_staged hStaged
  | abandoned hStaged hLabel => exact hSettled.of_staged hStaged
  | committed hStaged => exact maxSeq_of_staged (hSettled.of_staged hStaged) (hInv.staged hStaged)
  | finished hCommitted => exact hSettled.of_committed hCommitted
  | cancelled hCommitted => exact absurd rfl hNoCancel
  | sweepPruned hSweep hWriter =>
    exact hSettled.congr rfl rfl (RepoSeq.maxSeq_prune (hInv.sweepPhase hSweep))
  | sweepInert => exact hSettled
  | sweepMeasured => exact hSettled.congr rfl rfl rfl
  | sweepClamped => exact hSettled.congr rfl rfl rfl
  | sweepNoted => exact hSettled.congr rfl rfl rfl
  | sweepEnded => exact hSettled.congr rfl rfl rfl
  | restarted => exact rfl

end Ezpds.Firehose
