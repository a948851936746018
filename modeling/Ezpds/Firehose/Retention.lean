import Ezpds.Firehose.RepoSeq

/-!
# The retention sweep

One pass of `firehose_gc`, cut at its database statements: read `MAX(seq)`, read the age
boundary and combine the enabled policies into a watermark, publish the watermark, delete
the prefix. A phase ends the pass early with its `GcStats`.

* `sweepWatermark_lt`: the watermark of a pass is positive and below the `MAX(seq)` that
  the pass read.
-/

namespace Ezpds.Firehose

variable {Blob : Type}

/-- The retention knobs; 0 disables a policy. -/
structure FirehoseConfig where
  logRetentionSecs : Nat
  logRetentionCount : Nat

structure GcStats where
  pruned : Nat
  skipped : Bool
  failed : Bool
  deriving DecidableEq

namespace GcStats

def inert : GcStats := { pruned := 0, skipped := true, failed := false }

def failedPass : GcStats := { pruned := 0, skipped := true, failed := true }

end GcStats

/-- The start of a pass: `MAX(seq)`, unless there is nothing to do. -/
def sweepMeasure (config : FirehoseConfig) (db : RepoSeq Blob) : Except GcStats Nat :=
  if config.logRetentionSecs = 0 ∧ config.logRetentionCount = 0 then .error .inert
  else if db.maxSeq = 0 then .error .inert
  else .ok db.maxSeq

/-- What the age policy wants pruned: everything below the first row at or after the
cutoff, or the whole log when no row is. `cutoff` is `now − retention` as RFC 3339 text,
or `none` where that date is out of range. -/
def ageWatermark (config : FirehoseConfig) (cutoff : Option String) (maxSeq : Nat)
    (db : RepoSeq Blob) : Except GcStats Nat :=
  if config.logRetentionSecs = 0 then .ok 0
  else if config.logRetentionSecs > i64Max then .error .failedPass
  else
    match cutoff with
    | none => .error .failedPass
    | some cutoff =>
      match db.retainedBoundarySeq cutoff with
      | some firstRetained => .ok (firstRetained - 1)
      | none => .ok maxSeq

/-- What the count policy wants pruned. -/
def countWatermark (config : FirehoseConfig) (maxSeq : Nat) : Nat :=
  if config.logRetentionCount = 0 then 0 else maxSeq - config.logRetentionCount

/-- Keep the live frontier row; a watermark of 0 prunes nothing. -/
def clampWatermark (watermark maxSeq : Nat) : Except GcStats Nat :=
  if watermark = 0 then .error .inert
  else if min watermark (maxSeq - 1) = 0 then .error .inert
  else .ok (min watermark (maxSeq - 1))

/-- The larger of the enabled policies, clamped below the live frontier. -/
def sweepWatermark (config : FirehoseConfig) (cutoff : Option String) (maxSeq : Nat)
    (db : RepoSeq Blob) : Except GcStats Nat := do
  let age ← ageWatermark config cutoff maxSeq db
  clampWatermark (max age (countWatermark config maxSeq)) maxSeq

theorem sweepMeasure_ok {config : FirehoseConfig} {db : RepoSeq Blob} {m : Nat}
    (h : sweepMeasure config db = .ok m) : m = db.maxSeq ∧ 0 < m := by
  unfold sweepMeasure at h
  split at h
  · cases h
  · split at h
    · cases h
    · cases h
      omega

theorem sweepWatermark_lt {config : FirehoseConfig} {cutoff : Option String} {m w : Nat}
    {db : RepoSeq Blob} (h : sweepWatermark config cutoff m db = .ok w) : 0 < w ∧ w < m := by
  obtain ⟨age, _, h⟩ := Library.bind_ok.mp h
  unfold clampWatermark at h
  split at h
  · cases h
  · split at h
    · cases h
    · cases h
      omega

end Ezpds.Firehose
