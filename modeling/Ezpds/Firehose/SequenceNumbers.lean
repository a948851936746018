import Ezpds.Firehose.Frontier

/-!
# Sequence numbers are not reused

`NeverReused` compares every row that ever became durable with every later one. The
number of a row is above all earlier ones exactly when, at the step that makes it
durable, the in-memory frontier equals `MAX(seq)` or the row directly after it is still
in the log: a retention sweep can delete the row that would have revealed that the
frontier lags.

* `neverReused_iff`: over every run, numbers are never reused exactly when every row
  becomes durable in such a state.
* `reuse_after_cancel`: a run that reuses a number.
-/

namespace Ezpds.Firehose

open Library

variable {Blob : Type}

/-- Every durable row has a larger number than every row that was durable before it. -/
def NeverReused (durable : List (Nat × EventRow Blob)) : Prop :=
  durable.Pairwise fun r s => r.1 < s.1

/-- Under `NeverReused` a number names one row only. -/
theorem NeverReused.eq_of_seq_eq {durable : List (Nat × EventRow Blob)}
    (h : NeverReused durable) {i j : Nat} (hi : i < durable.length) (hj : j < durable.length)
    (hSeq : durable[i].1 = durable[j].1) : i = j := by
  rcases Nat.lt_trichotomy i j with hlt | rfl | hlt
  · have := List.pairwise_iff_getElem.mp h i j hi hj hlt
    omega
  · rfl
  · have := List.pairwise_iff_getElem.mp h j i hj hi hlt
    omega

/-- The states in which a step that makes rows durable takes a fresh number. -/
def SafeInsert (Cid : Type) [CidText Cid] [DagCbor Blob] (w : World Blob) : Label → Prop
  | .emit input time =>
    (∃ blob : Blob, input.prepare Cid time = .ok blob) →
      FrontierCovered w.lastSeq w.repoSeq
  | .commit => FrontierCovered w.lastSeq w.repoSeq
  | _ => True

/-- Rows numbered from `n` on extend the history in order exactly when `n` is above
`MAX(seq)`. -/
theorem neverReused_append {w : World Blob} (hInv : FrontierInv w)
    (hOld : NeverReused w.durable) {rows : List (Nat × EventRow Blob)} {n : Nat}
    (hn : 0 < n) (hRows : rows.map (·.1) = [n] ∨ rows.map (·.1) = [n, n + 1]) :
    NeverReused (w.durable ++ rows) ↔ w.repoSeq.maxSeq < n := by
  have hKeys : (rows.map (·.1)).Pairwise (· < ·) := by
    rcases hRows with h | h
    · rw [h]
      simp
    · rw [h]
      simp
  have hMem : n ∈ rows.map (·.1) ∧ ∀ k ∈ rows.map (·.1), n ≤ k := by
    rcases hRows with h | h
    · rw [h]
      simp
    · rw [h]
      simp
  unfold NeverReused at hOld ⊢
  rw [List.pairwise_append]
  constructor
  · rintro ⟨_, _, hCross⟩
    rcases Nat.eq_zero_or_pos w.repoSeq.maxSeq with h0 | h0
    · omega
    · obtain ⟨r, hr, hrMax⟩ := List.mem_map.mp (hInv.recorded _ (SeqTable.maxKey_mem h0))
      obtain ⟨s, hs, hsn⟩ := List.mem_map.mp hMem.1
      have hlt := hCross r hr s hs
      rw [hrMax, hsn] at hlt
      exact hlt
  · intro hlt
    refine ⟨hOld, List.pairwise_map.mp hKeys, ?_⟩
    intro r hr s hs
    have h1 := hInv.bounded r hr
    have h2 := hMem.2 s.1 (List.mem_map_of_mem hs)
    omega

section Step

variable {Cid : Type} [CidText Cid] [DagCbor Blob] {w t : World Blob} {l : Label}

/-- The history of durable rows only grows. -/
theorem durable_grows (h : Moves Cid w l t) : w.durable <+: t.durable := by
  cases h with
  | emitted => exact List.prefix_append _ _
  | committed => exact List.prefix_append _ _
  | _ => exact List.prefix_rfl

/-- One step keeps the numbers fresh exactly when it satisfies the guard. -/
theorem neverReused_moves (hInv : FrontierInv w) (hOld : NeverReused w.durable)
    (h : Moves Cid w l t) : NeverReused t.durable ↔ SafeInsert Cid w l := by
  cases h with
  | emitRefused hIdle hFull =>
    refine iff_of_true hOld ?_
    rintro ⟨blob, hBlob⟩
    have hMax := w.repoSeq.maxSeq_le
    exact (nextSeq_gt_iff hInv.frontier).mp (hMax.trans_lt (hFull blob hBlob))
  | emitted hIdle hPrepare hInsert =>
    rw [neverReused_append hInv hOld (nextSeq_pos _ _) (Or.inl rfl),
      nextSeq_gt_iff hInv.frontier]
    exact ⟨fun hCovered _ => hCovered, fun hSafe => hSafe ⟨_, hPrepare⟩⟩
  | committed hWriter =>
    rw [neverReused_append hInv hOld (nextSeq_pos _ _) (hInv.staged hWriter).keys_cases,
      nextSeq_gt_iff hInv.frontier]
    exact Iff.rfl
  | abandoned hWriter hLabel =>
    refine iff_of_true hOld ?_
    rcases hLabel with rfl | ⟨input, time, rfl⟩
    · trivial
    · trivial
  | sweepEnded hLabel =>
    refine iff_of_true hOld ?_
    rcases hLabel with rfl | rfl | ⟨cutoff, rfl⟩
    · trivial
    · trivial
    · trivial
  | _ => exact iff_of_true hOld trivial

end Step

/-- Over every run from an empty log, of any interleaving of emits, staged events,
cancellations, sweeps and restarts, sequence numbers are never reused exactly when every
row becomes durable in a state where the in-memory frontier is `MAX(seq)` or the row
after it is still in the log. -/
theorem neverReused_iff (Cid : Type) [CidText Cid] [DagCbor Blob] (labels : List Label)
    (w : World Blob) (hRun : run (World.step Cid) World.start labels = some w) :
    NeverReused w.durable ↔
      Along (World.step Cid) (SafeInsert Cid) (World.start : World Blob) labels := by
  refine run_guarded_iff (I := FrontierInv) (P := fun w => NeverReused w.durable)
    ?_ ?_ ?_ frontierInv_start List.Pairwise.nil hRun
  · intro s a t hInv h
    exact frontierInv_step hInv h
  · intro s a t h hNew
    exact List.Pairwise.sublist (durable_grows (moves_of_step Cid h)).sublist hNew
  · intro s a t hInv hOld h
    exact neverReused_moves hInv hOld (moves_of_step Cid h)

/-! ## A run that reuses a number -/

/-- An event with no CIDs to check. -/
def sampleAccount : AccountInput where
  did := "did:plc:a"
  active := true
  status := none

def sampleSync : SyncInput where
  did := "did:plc:a"
  rev := "3krev"
  blocks := []

/-- Numbers 1 and 2 become durable together, the handler is dropped before `finish`, and
the next emit finds number 1 taken and moves on to 3. -/
def healRun : List Label :=
  [.stage (.account sampleAccount) "t1", .stageSync sampleSync "t1", .commit, .cancel,
    .emit (.account sampleAccount) "t2", .finish]

theorem healRun_seqs :
    (run (World.step String) (World.start : World Stored) healRun).map
      (fun w => w.durable.map (·.1)) = some [1, 2, 3] := by
  decide

theorem healRun_safe :
    Along (World.step String) (SafeInsert String) (World.start : World Stored) healRun := by
  obtain ⟨w, hRun, hSeqs⟩ := Option.map_eq_some_iff.mp healRun_seqs
  refine (neverReused_iff String healRun w hRun).mp (List.pairwise_map.mp ?_)
  rw [hSeqs]
  decide

/-- The same, but a sweep that keeps one row deletes number 1 before the next emit, which
then takes it again. -/
def reuseRun : List Label :=
  [.stage (.account sampleAccount) "t1", .stageSync sampleSync "t1", .commit, .cancel,
    .sweepMeasure { logRetentionSecs := 0, logRetentionCount := 1 }, .sweepBoundary none,
    .sweepNote, .sweepPrune, .emit (.account sampleAccount) "t2"]

theorem reuseRun_seqs :
    (run (World.step String) (World.start : World Stored) reuseRun).map
      (fun w => w.durable.map (·.1)) = some [1, 2, 1] := by
  decide

theorem reuse_after_cancel :
    ¬ ∀ (labels : List Label) (w : World Stored),
      run (World.step String) World.start labels = some w → NeverReused w.durable := by
  intro h
  obtain ⟨w, hRun, hSeqs⟩ := Option.map_eq_some_iff.mp reuseRun_seqs
  have hPairs := List.pairwise_map.mpr (h reuseRun w hRun)
  rw [hSeqs] at hPairs
  revert hPairs
  decide

end Ezpds.Firehose
