import Ezpds.Firehose.ReplayPruning

/-!
# What a retention pass deletes

One pass over a log that nothing else touches. A pass that fails or has nothing to do leaves the
log as it is; any other deletes the rows up to its watermark.

* `sweep_spec`: a pass deletes a prefix of the rows, as many as it reports, and never the newest.
* `sweep_age_keeps`: the age policy alone deletes no row at or after the cutoff.
* `sweep_count_keeps`: the count policy alone keeps the newest rows of a contiguous log.
* `sweep_both_prunes_max`: both policies together delete as much as the one that deletes more.
* `retention_sweep`: the four together. A retention that no date can express skips the pass, also
  when the count policy is enabled (`overflow_skips_count_policy`).
-/

namespace Ezpds.Firehose

open Library

variable {Blob : Type}

/-- The reads of a pass: the watermark that it deletes up to, or how it ends without a delete. -/
def passWatermark (config : FirehoseConfig) (cutoff : Option String) (db : RepoSeq Blob) :
    Except GcStats Nat := do
  let maxSeq ← sweepMeasure config db
  sweepWatermark config cutoff maxSeq db

/-- A pass of `firehose_gc` at one cutoff. -/
def sweep (config : FirehoseConfig) (cutoff : Option String) (db : RepoSeq Blob) :
    GcStats × RepoSeq Blob :=
  match passWatermark config cutoff db with
  | .error stats => (stats, db)
  | .ok watermark =>
    match db.pruneBelow watermark with
    | .error _ => (.failedPass, db)
    | .ok (pruned, db) => ({ pruned := pruned, skipped := false, failed := false }, db)

/-- The highest number that a pass deletes, 0 when it deletes nothing. -/
def sweptThrough (config : FirehoseConfig) (cutoff : Option String) (db : RepoSeq Blob) : Nat :=
  match passWatermark config cutoff db with
  | .error _ => 0
  | .ok watermark => watermark

/-- The rows that a pass up to a watermark leaves. -/
def keptAbove (watermark : Nat) (db : RepoSeq Blob) : RepoSeq Blob :=
  if watermark = 0 then db else db.prune watermark

/-- How many it deletes. -/
def prunedThrough (watermark : Nat) (db : RepoSeq Blob) : Nat :=
  if watermark = 0 then 0 else (db.table.rows.filter (·.1 ≤ watermark)).length

/-- The age policy alone. -/
def FirehoseConfig.ageOnly (config : FirehoseConfig) : FirehoseConfig :=
  { config with logRetentionCount := 0 }

/-- The count policy alone. -/
def FirehoseConfig.countOnly (config : FirehoseConfig) : FirehoseConfig :=
  { config with logRetentionSecs := 0 }

/-- The cutoff of the age policy can be computed, or is not needed. -/
def FirehoseConfig.HasCutoff (config : FirehoseConfig) (cutoff : Option String) : Prop :=
  config.logRetentionSecs = 0 ∨ config.logRetentionSecs ≤ i64Max ∧ cutoff.isSome

/-! ## The watermark of a pass -/

section

variable {config : FirehoseConfig} {cutoff : Option String} {db : RepoSeq Blob} {age : Nat}

/-- A pass stays below the newest row. -/
theorem sweptThrough_lt (config : FirehoseConfig) (cutoff : Option String) (db : RepoSeq Blob) :
    sweptThrough config cutoff db < db.maxSeq ∨ sweptThrough config cutoff db = 0 := by
  unfold sweptThrough
  split
  · exact .inr rfl
  · rename_i watermark hPass
    obtain ⟨m, hm, hPass⟩ := bind_ok.mp hPass
    obtain ⟨rfl, -⟩ := sweepMeasure_ok hm
    exact .inl (sweepWatermark_lt hPass).2

/-- Where the age policy has an answer, the pass deletes up to the larger of the two policies,
short of the newest row. -/
theorem sweptThrough_of_age (h : ageWatermark config cutoff db.maxSeq db = .ok age) :
    sweptThrough config cutoff db =
      min (max age (countWatermark config db.maxSeq)) (db.maxSeq - 1) := by
  unfold sweptThrough passWatermark sweepMeasure
  by_cases hOff : config.logRetentionSecs = 0 ∧ config.logRetentionCount = 0
  · rw [if_pos hOff]
    have hAge : age = 0 := by
      unfold ageWatermark at h
      rw [if_pos hOff.1] at h
      cases h
      rfl
    have hCount : countWatermark config db.maxSeq = 0 := if_pos hOff.2
    rw [hAge, hCount, Nat.max_self, Nat.zero_min]
    rfl
  · rw [if_neg hOff]
    by_cases hEmpty : db.maxSeq = 0
    · rw [if_pos hEmpty, hEmpty, Nat.zero_sub, Nat.min_zero]
      rfl
    · rw [if_neg hEmpty]
      show (match sweepWatermark config cutoff db.maxSeq db with
        | .error _ => 0
        | .ok watermark => watermark) = _
      unfold sweepWatermark
      rw [h]
      show (match clampWatermark (max age (countWatermark config db.maxSeq)) db.maxSeq with
        | .error _ => 0
        | .ok watermark => watermark) = _
      unfold clampWatermark
      by_cases hZero : max age (countWatermark config db.maxSeq) = 0
      · rw [if_pos hZero, hZero, Nat.zero_min]
      · rw [if_neg hZero]
        by_cases hMin : min (max age (countWatermark config db.maxSeq)) (db.maxSeq - 1) = 0
        · rw [if_pos hMin, hMin]
        · rw [if_neg hMin]

/-- Where it has none, the pass deletes nothing. -/
theorem sweptThrough_of_error {stats : GcStats}
    (h : ageWatermark config cutoff db.maxSeq db = .error stats) :
    sweptThrough config cutoff db = 0 := by
  unfold sweptThrough
  split
  · rfl
  · rename_i watermark hPass
    obtain ⟨m, hm, hPass⟩ := bind_ok.mp hPass
    obtain ⟨rfl, -⟩ := sweepMeasure_ok hm
    obtain ⟨age, hAge, -⟩ := bind_ok.mp hPass
    rw [h] at hAge
    cases hAge

/-! ## The delete -/

theorem pruned_of_error {stats : GcStats} (h : passWatermark config cutoff db = .error stats) :
    stats.pruned = 0 := by
  rcases bind_error.mp h with hMeasure | ⟨m, -, hWatermark⟩
  · unfold sweepMeasure at hMeasure
    split at hMeasure
    · cases hMeasure
      rfl
    · split at hMeasure
      · cases hMeasure
        rfl
      · cases hMeasure
  · rcases bind_error.mp hWatermark with hAge | ⟨age, -, hClamp⟩
    · unfold ageWatermark at hAge
      split at hAge
      · cases hAge
      · split at hAge
        · cases hAge
          rfl
        · split at hAge
          · cases hAge
            rfl
          · split at hAge
            · cases hAge
            · cases hAge
    · unfold clampWatermark at hClamp
      split at hClamp
      · cases hClamp
        rfl
      · split at hClamp
        · cases hClamp
          rfl
        · cases hClamp

/-- A pass deletes the rows up to its watermark, and counts them. -/
theorem sweep_eq : (sweep config cutoff db).2 = keptAbove (sweptThrough config cutoff db) db ∧
    (sweep config cutoff db).1.pruned = prunedThrough (sweptThrough config cutoff db) db := by
  unfold sweep sweptThrough keptAbove prunedThrough
  cases hPass : passWatermark config cutoff db with
  | error stats => exact ⟨rfl, pruned_of_error hPass⟩
  | ok watermark =>
    obtain ⟨m, hm, hWatermark⟩ := bind_ok.mp hPass
    obtain ⟨rfl, -⟩ := sweepMeasure_ok hm
    obtain ⟨hPos, hLt⟩ := sweepWatermark_lt hWatermark
    have hBound : watermark ≤ i64Max := hLt.le.trans db.maxSeq_le
    have hPrune : db.pruneBelow watermark =
        .ok ((db.seqs.filter (· ≤ watermark)).length, db.prune watermark) :=
      bind_ok.mpr ⟨watermark, toI64_of_le hBound, rfl⟩
    simp only [hPrune, if_neg hPos.ne', true_and]
    rw [RepoSeq.seqs, SeqTable.keys, List.filter_map, List.length_map]
    rfl

theorem rows_keptAbove (watermark : Nat) (db : RepoSeq Blob) :
    ∃ deleted, db.table.rows = deleted ++ (keptAbove watermark db).table.rows ∧
      deleted.length = prunedThrough watermark db := by
  unfold keptAbove prunedThrough
  by_cases h : watermark = 0
  · rw [if_pos h, if_pos h]
    exact ⟨[], rfl, rfl⟩
  · rw [if_neg h, if_neg h]
    exact ⟨_, db.table.rows_eq_append_prune watermark, rfl⟩

theorem mem_keptAbove {watermark : Nat} {row : Nat × EventRow Blob} (hRow : row ∈ db.table.rows)
    (hAbove : watermark < row.1 ∨ watermark = 0) : row ∈ (keptAbove watermark db).table.rows := by
  unfold keptAbove
  split
  · exact hRow
  · rename_i hPos
    exact SeqTable.mem_rows_prune.mpr ⟨hRow, hAbove.resolve_right hPos⟩

theorem prunedThrough_mono {v w : Nat} (h : v ≤ w) : prunedThrough v db ≤ prunedThrough w db := by
  unfold prunedThrough
  by_cases hv : v = 0
  · rw [if_pos hv]
    exact Nat.zero_le _
  · rw [if_neg hv, if_neg (by omega), ← List.countP_eq_length_filter,
      ← List.countP_eq_length_filter]
    apply List.countP_mono_left
    intro row _ hRow
    simp only [decide_eq_true_eq] at hRow ⊢
    omega

theorem prunedThrough_max (v w : Nat) :
    prunedThrough (max v w) db = max (prunedThrough v db) (prunedThrough w db) := by
  rcases Nat.le_total v w with h | h
  · rw [Nat.max_eq_right h, Nat.max_eq_right (prunedThrough_mono h)]
  · rw [Nat.max_eq_left h, Nat.max_eq_left (prunedThrough_mono h)]

/-! ## The policies -/

/-- A pass deletes a prefix of the rows, and never the newest one. -/
theorem sweep_spec (config : FirehoseConfig) (cutoff : Option String) (db : RepoSeq Blob) :
    (∃ deleted, db.table.rows = deleted ++ (sweep config cutoff db).2.table.rows ∧
        deleted.length = (sweep config cutoff db).1.pruned) ∧
      ∀ row ∈ db.table.rows, row.1 = db.maxSeq → row ∈ (sweep config cutoff db).2.table.rows := by
  obtain ⟨hKept, hPruned⟩ := @sweep_eq Blob config cutoff db
  rw [hKept, hPruned]
  refine ⟨rows_keptAbove _ db, ?_⟩
  intro row hRow hMax
  apply mem_keptAbove hRow
  rw [hMax]
  exact sweptThrough_lt config cutoff db

/-- The age policy alone deletes no row at or after the cutoff. -/
theorem sweep_age_keeps (hCount : config.logRetentionCount = 0) {since : String}
    {row : Nat × EventRow Blob} (hRow : row ∈ db.table.rows) (hYoung : since ≤ row.2.sequencedAt) :
    row ∈ (sweep config (some since) db).2.table.rows := by
  rw [sweep_eq.1]
  apply mem_keptAbove hRow
  cases hAge : ageWatermark config (some since) db.maxSeq db with
  | error stats => exact .inr (sweptThrough_of_error hAge)
  | ok age =>
    have hThrough := sweptThrough_of_age hAge
    have hNone : countWatermark config db.maxSeq = 0 := if_pos hCount
    rw [hNone] at hThrough
    unfold ageWatermark at hAge
    split at hAge
    · cases hAge
      exact .inr (by omega)
    · split at hAge
      · cases hAge
      · have hMem : row.1 ∈
            (db.table.rows.filter fun r => since ≤ r.2.sequencedAt).map (·.1) :=
          List.mem_map_of_mem (List.mem_filter.mpr ⟨hRow, decide_eq_true hYoung⟩)
        cases hFirst : db.retainedBoundarySeq since with
        | none =>
          rw [RepoSeq.retainedBoundarySeq, List.min?_eq_none_iff] at hFirst
          rw [hFirst] at hMem
          cases hMem
        | some first =>
          simp only [hFirst] at hAge
          cases hAge
          have hLe : first ≤ row.1 := (List.min?_eq_some_iff.mp hFirst).2 row.1 hMem
          omega

/-- The count policy alone keeps the newest rows of a contiguous log. -/
theorem sweep_count_keeps (hSecs : config.logRetentionSecs = 0)
    (hCount : 1 ≤ config.logRetentionCount) {lo : Nat} (hPos : 0 < lo)
    (hDense : db.table.Dense lo db.maxSeq) : (sweep config cutoff db).2.table.rows =
      db.table.rows.drop
        (db.table.rows.length - min config.logRetentionCount db.table.rows.length) := by
  have hAge : ageWatermark config cutoff db.maxSeq db = .ok 0 := if_pos hSecs
  have hThrough := sweptThrough_of_age hAge
  have hWanted : countWatermark config db.maxSeq = db.maxSeq - config.logRetentionCount :=
    if_neg (by omega)
  rw [hWanted] at hThrough
  have hLength := hDense.length
  rw [sweep_eq.1]
  obtain ⟨deleted, hSplit, -⟩ := rows_keptAbove (sweptThrough config cutoff db) db
  have hKept : (keptAbove (sweptThrough config cutoff db) db).table.rows.length =
      min config.logRetentionCount db.table.rows.length := by
    unfold keptAbove
    split
    · rw [hLength]
      omega
    · have hPruned := (hDense.prune (sweptThrough config cutoff db)).length
      show (db.table.prune _).rows.length = _
      rw [hPruned, hLength]
      omega
  have hDeleted : deleted.length = db.table.rows.length -
      min config.logRetentionCount db.table.rows.length := by
    have := congrArg List.length hSplit
    rw [List.length_append, hKept] at this
    omega
  rw [← hDeleted]
  conv_rhs => rw [hSplit]
  rw [List.drop_left]

theorem ageWatermark_isOk_iff :
    (∃ age, ageWatermark config cutoff db.maxSeq db = .ok age) ↔ config.HasCutoff cutoff := by
  unfold ageWatermark FirehoseConfig.HasCutoff
  by_cases hOff : config.logRetentionSecs = 0
  · rw [if_pos hOff]
    exact iff_of_true ⟨0, rfl⟩ (.inl hOff)
  · rw [if_neg hOff]
    by_cases hLarge : config.logRetentionSecs > i64Max
    · rw [if_pos hLarge]
      refine iff_of_false ?_ (by omega)
      rintro ⟨age, h⟩
      cases h
    · rw [if_neg hLarge]
      cases cutoff with
      | none => simp [hOff]
      | some since =>
        refine iff_of_true ?_ (.inr ⟨by omega, rfl⟩)
        cases hFirst : db.retainedBoundarySeq since with
        | none =>
          simp only [hFirst]
          exact ⟨_, rfl⟩
        | some first =>
          simp only [hFirst]
          exact ⟨_, rfl⟩

/-- Both policies together delete as much as the one that deletes more, where the age policy has
a cutoff; otherwise the pass deletes nothing. -/
theorem sweep_both_prunes_max (config : FirehoseConfig) (cutoff : Option String)
    (db : RepoSeq Blob) :
    (config.HasCutoff cutoff →
        (sweep config cutoff db).1.pruned = max (sweep config.ageOnly cutoff db).1.pruned
          (sweep config.countOnly cutoff db).1.pruned) ∧
      (¬ config.HasCutoff cutoff → (sweep config cutoff db).2 = db) := by
  refine ⟨?_, ?_⟩
  · intro hCutoff
    obtain ⟨age, hAge⟩ := (@ageWatermark_isOk_iff _ config cutoff db).mpr hCutoff
    have hAgeOnly : ageWatermark config.ageOnly cutoff db.maxSeq db = .ok age := hAge
    have hCountOnly : ageWatermark config.countOnly cutoff db.maxSeq db = .ok 0 := if_pos rfl
    rw [sweep_eq.2, sweep_eq.2, sweep_eq.2, sweptThrough_of_age hAge,
      sweptThrough_of_age hAgeOnly, sweptThrough_of_age hCountOnly, ← prunedThrough_max]
    have hNone : countWatermark config.ageOnly db.maxSeq = 0 := if_pos rfl
    have hSame : countWatermark config.countOnly db.maxSeq = countWatermark config db.maxSeq := rfl
    rw [hNone, hSame]
    congr 1
    omega
  · intro hNone
    cases hAge : ageWatermark config cutoff db.maxSeq db with
    | ok age => exact absurd (ageWatermark_isOk_iff.mp ⟨age, hAge⟩) hNone
    | error stats =>
      rw [sweep_eq.1, sweptThrough_of_error hAge]
      rfl

end

/-- A pass deletes a prefix of the log and never the newest row. The age policy alone keeps every
row at or after its cutoff, the count policy alone keeps exactly the newest rows of a contiguous
log, and both together prune the larger of the two prefixes, if there is a cutoff at all. -/
theorem retention_sweep (config : FirehoseConfig) (cutoff : Option String) (db : RepoSeq Blob) :
    ((∃ deleted, db.table.rows = deleted ++ (sweep config cutoff db).2.table.rows ∧
        deleted.length = (sweep config cutoff db).1.pruned) ∧
      ∀ row ∈ db.table.rows, row.1 = db.maxSeq →
        row ∈ (sweep config cutoff db).2.table.rows) ∧
      (config.logRetentionCount = 0 → ∀ since, cutoff = some since → ∀ row ∈ db.table.rows,
        since ≤ row.2.sequencedAt → row ∈ (sweep config cutoff db).2.table.rows) ∧
      (config.logRetentionSecs = 0 → 1 ≤ config.logRetentionCount →
        ∀ lo, 0 < lo → db.table.Dense lo db.maxSeq → (sweep config cutoff db).2.table.rows =
          db.table.rows.drop
            (db.table.rows.length - min config.logRetentionCount db.table.rows.length)) ∧
      (config.HasCutoff cutoff →
        (sweep config cutoff db).1.pruned = max (sweep config.ageOnly cutoff db).1.pruned
          (sweep config.countOnly cutoff db).1.pruned) ∧
      (¬ config.HasCutoff cutoff → (sweep config cutoff db).2 = db) := by
  refine ⟨sweep_spec config cutoff db, ?_, ?_, sweep_both_prunes_max config cutoff db⟩
  · rintro hCount since rfl row hRow hYoung
    exact sweep_age_keeps hCount hRow hYoung
  · intro hSecs hCount lo hPos hDense
    exact sweep_count_keeps hSecs hCount hPos hDense

/-! ## A retention beyond every date -/

/-- A retention of `2 ^ 63` seconds has no cutoff, so the pass deletes nothing, although the count
policy alone deletes two rows. -/
theorem overflow_skips_count_policy :
    (sweep ⟨2 ^ 63, 1⟩ none threeRows).1.pruned = 0 ∧
      (sweep (FirehoseConfig.ageOnly ⟨2 ^ 63, 1⟩) none threeRows).1.pruned = 0 ∧
        (sweep (FirehoseConfig.countOnly ⟨2 ^ 63, 1⟩) none threeRows).1.pruned = 2 := by
  decide

theorem three_rows_swept :
    (sweep ⟨0, 2⟩ none threeRows).2.table.rows = threeRows.table.rows.drop 1 := by
  have hDense : threeRows.table.Dense 1 threeRows.maxSeq := contiguous_threeRows.dense
  have hSweep := (retention_sweep ⟨0, 2⟩ none threeRows).2.2.1 rfl (by decide) 1 (by decide) hDense
  rw [hSweep]
  rfl

end Ezpds.Firehose
