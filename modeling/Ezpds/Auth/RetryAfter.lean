import Ezpds.Auth.RateLimit
import Mathlib.Data.Nat.Find
import Mathlib.Order.Bounds.Basic

/-!
# When a rejected check may be repeated

A rejection tells how long to wait: the whole seconds until the samples that are in the way have
expired, or the longest window where no second is left. A sample still counts at the moment it
expires, so the whole seconds are never enough.

* `walkFreed_spec`: the sample that the wait ends with.
* `reset_cases`: the two kinds of answers.
* `retry_after_iff`: when the wait is enough, and not too long.
-/

namespace Ezpds.Auth

open Library MultiWindowLimiter

variable {windows : List Window} {now now' maxWindow : Nat} {cost : UInt64}
  {samples : List Sample} {l : MultiWindowLimiter} {history : History} {c : Check}
  {checks : List Check} {w : Window}

/-! ## What the history of a run is like -/

theorem points_append (a b : List Sample) : points (a ++ b) = points a + points b := by
  rw [points, List.map_append, List.sum_append]
  rfl

theorem points_cons (s : Sample) (l : List Sample) : points (s :: l) = s.2.toNat + points l := by
  rw [points, List.map_cons, List.sum_cons]
  rfl

theorem points_sublist {a b : List Sample} (h : a.Sublist b) : points a ≤ points b := by
  induction h with
  | slnil => exact Nat.le_refl _
  | cons s _ ih =>
    rw [points_cons]
    omega
  | cons_cons s _ ih =>
    rw [points_cons, points_cons]
    omega

/-- Later a window counts fewer of the samples. -/
theorem pointsIn_anti (h : now ≤ now') : pointsIn now' w samples ≤ pointsIn now w samples :=
  points_sublist (List.monotone_filter_right _ fun _ hs => inSpan_mono h (Nat.le_refl _) hs)

/-- The samples of a key are in order of time. -/
structure Ordered (history : History) (now : Nat) : Prop where
  sorted : ∀ key, (history key).Pairwise fun s s' => s.1 ≤ s'.1
  past : ∀ key, ∀ s ∈ history key, s.1 ≤ now

theorem Ordered.later (h : Ordered history now) (hNow : now ≤ now') : Ordered history now' where
  sorted := h.sorted
  past key s hs := (h.past key s hs).trans hNow

theorem Ordered.record (h : Ordered history now) (hNow : now ≤ c.now) (allowed : Bool) :
    Ordered (record history c allowed) c.now := by
  have hLater := h.later hNow
  unfold Auth.record
  split
  · refine ⟨fun key => ?_, fun key => ?_⟩
    · by_cases hKey : key = c.key
      · rw [hKey, Function.update_self]
        refine List.pairwise_append.mpr ⟨h.sorted _, List.pairwise_singleton _ _, ?_⟩
        intro s hs s' hs'
        rw [List.mem_singleton.mp hs']
        exact hLater.past _ s hs
      · rw [Function.update_of_ne hKey]
        exact h.sorted key
    · by_cases hKey : key = c.key
      · rw [hKey, Function.update_self]
        intro s hs
        rcases List.mem_append.mp hs with hs | hs
        · exact hLater.past _ s hs
        · rw [List.mem_singleton.mp hs]
      · rw [Function.update_of_ne hKey]
        exact hLater.past key
  · exact hLater

theorem decisionFor_allowed : (decisionFor windows maxWindow now cost samples).allowed = true ↔
    ∀ w ∈ windows, Fits now cost samples w := by
  have hPlain := congrArg Prod.fst (@decisionFor_plain windows now maxWindow cost samples)
  dsimp only at hPlain
  rw [hPlain, plainDecision]
  split
  · rename_i hFits
    exact iff_of_true rfl hFits
  · rename_i hFits
    exact iff_of_false (by simp) hFits

/-- After checks in order of time, a limiter keeps what may count, and its history is in order. -/
theorem after_tracks (hWindows : l.windows ≠ []) (h : Tracks l history now)
    (hOrdered : Ordered history now)
    (hTimes : (checks.map Check.now).Pairwise (· ≤ ·)) (hNow : ∀ c ∈ checks, now ≤ c.now)
    (hEnd : ∀ c ∈ checks, c.now ≤ now') (hStart : now ≤ now') :
    Tracks (l.after checks) (historyAfter l.windows l.maxWindow history checks) now' ∧
      Ordered (historyAfter l.windows l.maxWindow history checks) now' ∧
      (l.after checks).windows = l.windows ∧ (l.after checks).maxWindow = l.maxWindow := by
  induction checks generalizing l history now with
  | nil => exact ⟨h.later hStart, hOrdered.later hStart, rfl, rfl⟩
  | cons c checks ih =>
    obtain ⟨hFirst, hRest⟩ := List.pairwise_cons.mp hTimes
    have hc := hNow c List.mem_cons_self
    obtain ⟨hDecision, hTracks⟩ := check_tracks hWindows h hc
    have hRun := @ih _ (l.check c).2 _ (by rwa [windows_check]) hTracks (hOrdered.record hc _) hRest
      (fun c' hc' => hFirst _ (List.mem_map_of_mem hc'))
      (fun c' hc' => hEnd c' (List.mem_cons_of_mem _ hc')) (hEnd c List.mem_cons_self)
    rw [windows_check, maxWindow_check, hDecision] at hRun
    exact hRun

/-! ## The walk over the samples -/

/-- Counting stops at the sample that makes up for what is lacking. -/
theorem walkFreed_spec {lacks freed : UInt64} {retry : Nat} {counted : List Sample}
    (hLacks : freed.toNat < lacks.toNat) (hEnough : lacks.toNat ≤ freed.toNat + points counted) :
    ∃ before s after, counted = before ++ s :: after ∧
      freed.toNat + points before < lacks.toNat ∧
      lacks.toNat ≤ freed.toNat + points before + s.2.toNat ∧
      walkFreed now w lacks freed retry counted = secsUntil now w s := by
  induction counted generalizing freed retry with
  | nil =>
    have hNone : points [] = 0 := rfl
    omega
  | cons s counted ih =>
    have hOver := toNat_le lacks
    have hSum := toNat_satAdd freed s.2
    rw [points_cons] at hEnough
    rw [walkFreed]
    split
    · rename_i hStop
      have hReached := UInt64.le_iff_toNat_le.mp hStop
      refine ⟨[], s, counted, rfl, hLacks, ?_, rfl⟩
      have hNone : points [] = 0 := rfl
      omega
    · rename_i hGoOn
      have hShort : (satAdd freed s.2).toNat < lacks.toNat := by
        have hNot := mt UInt64.le_iff_toNat_le.mpr hGoOn
        omega
      obtain ⟨before, s', after, rfl, hBefore, hReached, hWalk⟩ :=
        @ih (satAdd freed s.2) (secsUntil now w s) hShort (by omega)
      refine ⟨s :: before, s', after, rfl, ?_, ?_, hWalk⟩
      · rw [points_cons]
        omega
      · rw [points_cons]
        omega

/-- The points that the window lacks, in the arithmetic of the source. -/
def lacking (now : Nat) (cost : UInt64) (samples : List Sample) (w : Window) : Nat :=
  min (pointsIn now w samples + cost.toNat) u64Max - w.maxPoints.toNat

/-- The points that leave the window in a time. -/
def expiring (now wait : Nat) (samples : List Sample) (w : Window) : Nat :=
  pointsIn now w samples - pointsIn (now + wait) w samples

theorem secsUntil_pos {s : Sample} (hPast : s.1 ≤ now) {r : Nat} (hr : 0 < r)
    (h : r ≤ secsUntil now w s) :
    inSpan Prod.fst (now + r * NANOS_PER_SEC) w.window s = true := by
  have hLe : r * NANOS_PER_SEC ≤ w.window - (now - s.1) :=
    (Nat.le_div_iff_mul_le (by decide)).mp h
  have hPositive : 0 < r * NANOS_PER_SEC := Nat.mul_pos hr (by decide)
  simp only [inSpan, decide_eq_true_eq]
  omega

theorem secsUntil_zero {s : Sample} (hPast : s.1 ≤ now) (h : secsUntil now w s = 0) :
    inSpan Prod.fst (now + NANOS_PER_SEC) w.window s = false := by
  have hLt : w.window - (now - s.1) < NANOS_PER_SEC :=
    (Nat.div_eq_zero_iff_lt (by decide)).mp h
  simp only [inSpan, decide_eq_false_iff_not]
  omega

/-- What is left of the samples of a window after a wait, from the sample that the wait was for. -/
theorem pointsIn_from {before after : List Sample} {s : Sample} {wait : Nat}
    (hSorted : samples.Pairwise fun s s' => s.1 ≤ s'.1)
    (hCounted : samples.filter (inSpan Prod.fst now w.window) = before ++ s :: after) :
    (inSpan Prod.fst (now + wait) w.window s = true →
      s.2.toNat + points after ≤ pointsIn (now + wait) w samples) ∧
    (inSpan Prod.fst (now + wait) w.window s = false →
      pointsIn (now + wait) w samples ≤ points after) := by
  have hLater : pointsIn (now + wait) w samples =
      points ((before ++ s :: after).filter (inSpan Prod.fst (now + wait) w.window)) := by
    rw [pointsIn, ← hCounted, List.filter_filter]
    congr 1
    apply List.filter_congr
    intro a _
    cases hIn : inSpan Prod.fst (now + wait) w.window a with
    | false => rfl
    | true => rw [inSpan_mono (Nat.le_add_right now wait) (Nat.le_refl _) hIn]; rfl
  have hOrder : (before ++ s :: after).Pairwise fun s s' => s.1 ≤ s'.1 := by
    rw [← hCounted]
    exact hSorted.filter _
  rw [hLater, List.filter_append, points_append]
  constructor
  · intro hIn
    rw [filter_inSpan_append hOrder hIn, points_cons]
    omega
  · intro hOut
    have hNone : before.filter (inSpan Prod.fst (now + wait) w.window) = [] := by
      apply List.filter_eq_nil_iff.mpr
      intro a ha hIn
      have hLe := (List.pairwise_append.mp hOrder).2.2 a ha s List.mem_cons_self
      simp only [inSpan, decide_eq_true_eq, decide_eq_false_iff_not] at hIn hOut
      omega
    rw [hNone, List.filter_cons, hOut]
    have hNil : points [] = 0 := rfl
    rw [hNil, Nat.zero_add, if_neg (by simp)]
    exact points_sublist List.filter_sublist

theorem toNat_overBy : (overBy now cost samples w).toNat = lacking now cost samples w := by
  have hMax := toNat_le w.maxPoints
  rw [overBy, toNat_satSub, toNat_satAdd, toNat_consumedPoints, lacking]
  omega

/-- The sample that the wait of a window is for. -/
theorem retryAfter_spec (hFits : ¬ Fits now cost samples w)
    (hCost : cost.toNat ≤ w.maxPoints.toNat) :
    ∃ before s after, samples.filter (inSpan Prod.fst now w.window) = before ++ s :: after ∧
      points before < lacking now cost samples w ∧
      lacking now cost samples w ≤ points before + s.2.toNat ∧
      retryAfter now w (overBy now cost samples w) samples = secsUntil now w s := by
  have hOver := @toNat_overBy now cost samples w
  have hLacks := UInt64.lt_iff_toNat_lt.mp (overBy_pos.mpr hFits)
  have hZero : (0 : UInt64).toNat = 0 := rfl
  have hEnough : lacking now cost samples w ≤ pointsIn now w samples := by
    unfold lacking
    rw [Fits, not_or] at hFits
    omega
  unfold retryAfter
  rw [counts_eq]
  obtain ⟨before, s, after, hSplit, hBefore, hReached, hWalk⟩ :=
    @walkFreed_spec now w _ _ (oldestReset now w samples)
      (samples.filter (inSpan Prod.fst now w.window)) hLacks
      (by rw [hOver, hZero, Nat.zero_add]; exact hEnough)
  rw [hOver, hZero, Nat.zero_add] at hBefore hReached
  exact ⟨before, s, after, hSplit, hBefore, hReached, hWalk⟩

/-- While the wait of a window lasts, what has expired is not enough. -/
theorem expiring_lt (hFits : ¬ Fits now cost samples w)
    (hCost : cost.toNat ≤ w.maxPoints.toNat)
    (hSorted : samples.Pairwise fun s s' => s.1 ≤ s'.1) (hPast : ∀ s ∈ samples, s.1 ≤ now)
    {r : Nat} (hr : 0 < r) (hRetry : r ≤ retryAfter now w (overBy now cost samples w) samples) :
    expiring now (r * NANOS_PER_SEC) samples w < lacking now cost samples w := by
  obtain ⟨before, s, after, hSplit, hBefore, _, hWalk⟩ := retryAfter_spec hFits hCost
  have hCounted : s ∈ samples.filter (inSpan Prod.fst now w.window) := by
    rw [hSplit]
    simp
  have hMem : s ∈ samples := (List.mem_filter.mp hCounted).1
  rw [hWalk] at hRetry
  have hLeft := (pointsIn_from hSorted hSplit).1 (secsUntil_pos (hPast s hMem) hr hRetry)
  have hAll : pointsIn now w samples = points before + (s.2.toNat + points after) := by
    rw [pointsIn, hSplit, points_append, points_cons]
  unfold expiring
  omega

/-- A wait of no whole second is over within one. -/
theorem lacking_le (hFits : ¬ Fits now cost samples w)
    (hCost : cost.toNat ≤ w.maxPoints.toNat)
    (hSorted : samples.Pairwise fun s s' => s.1 ≤ s'.1) (hPast : ∀ s ∈ samples, s.1 ≤ now)
    (hRetry : retryAfter now w (overBy now cost samples w) samples = 0) :
    lacking now cost samples w ≤ expiring now NANOS_PER_SEC samples w := by
  obtain ⟨before, s, after, hSplit, _, hReached, hWalk⟩ := retryAfter_spec hFits hCost
  have hCounted : s ∈ samples.filter (inSpan Prod.fst now w.window) := by
    rw [hSplit]
    simp
  have hMem : s ∈ samples := (List.mem_filter.mp hCounted).1
  rw [hWalk] at hRetry
  have hLeft := (pointsIn_from hSorted hSplit).2 (secsUntil_zero (hPast s hMem) hRetry)
  have hAll : pointsIn now w samples = points before + (s.2.toNat + points after) := by
    rw [pointsIn, hSplit, points_append, points_cons]
  unfold expiring
  omega

theorem evaluateWindow_rejectionReset {b : Binding} :
    (evaluateWindow now cost samples b w).rejectionReset =
      if Fits now cost samples w then b.rejectionReset
      else max b.rejectionReset (retryAfter now w (overBy now cost samples w) samples) := by
  have hOver := @overBy_pos now cost samples w
  unfold evaluateWindow
  dsimp only
  by_cases hFits : Fits now cost samples w
  · rw [if_neg fun h => hOver.mp h hFits, if_pos hFits]
    split <;> rfl
  · rw [if_pos (hOver.mpr hFits), if_neg hFits]
    split <;> rfl

/-- The reset is the longest wait of the windows that reject. -/
theorem foldl_rejectionReset {b : Binding} :
    (∀ w ∈ windows, ¬ Fits now cost samples w →
      retryAfter now w (overBy now cost samples w) samples ≤
        (windows.foldl (evaluateWindow now cost samples) b).rejectionReset) ∧
    b.rejectionReset ≤ (windows.foldl (evaluateWindow now cost samples) b).rejectionReset ∧
    ((windows.foldl (evaluateWindow now cost samples) b).rejectionReset = b.rejectionReset ∨
      ∃ w ∈ windows, ¬ Fits now cost samples w ∧
        (windows.foldl (evaluateWindow now cost samples) b).rejectionReset =
          retryAfter now w (overBy now cost samples w) samples) := by
  induction windows generalizing b with
  | nil => exact ⟨fun _ hw => absurd hw (by simp), Nat.le_refl _, .inl rfl⟩
  | cons w windows ih =>
    obtain ⟨hAll, hBase, hWhich⟩ := @ih (evaluateWindow now cost samples b w)
    rw [evaluateWindow_rejectionReset] at hBase hWhich
    rw [List.foldl_cons]
    by_cases hFits : Fits now cost samples w
    · rw [if_pos hFits] at hBase hWhich
      refine ⟨?_, hBase, hWhich.imp_right fun ⟨v, hv, h⟩ => ⟨v, List.mem_cons_of_mem _ hv, h⟩⟩
      exact List.forall_mem_cons.mpr ⟨fun hNot => absurd hFits hNot, hAll⟩
    · rw [if_neg hFits] at hBase hWhich
      refine ⟨List.forall_mem_cons.mpr ⟨fun _ => (Nat.le_max_right _ _).trans hBase, hAll⟩,
        (Nat.le_max_left _ _).trans hBase, ?_⟩
      rcases hWhich with hSame | ⟨v, hv, h⟩
      · rcases Nat.le_total b.rejectionReset
          (retryAfter now w (overBy now cost samples w) samples) with hLe | hLe
        · rw [Nat.max_eq_right hLe] at hSame
          exact .inr ⟨w, List.mem_cons_self, hFits, hSame⟩
        · rw [Nat.max_eq_left hLe] at hSame
          exact .inl hSame
      · exact .inr ⟨v, List.mem_cons_of_mem _ hv, h⟩

theorem retryAfter_le (hLongest : ∀ w ∈ windows, w.window ≤ maxWindow) (hw : w ∈ windows)
    (hFits : ¬ Fits now cost samples w)
    (hCost : cost.toNat ≤ w.maxPoints.toNat) :
    retryAfter now w (overBy now cost samples w) samples ≤ fallbackSecs maxWindow := by
  obtain ⟨_, s, _, _, _, _, hWalk⟩ := retryAfter_spec hFits hCost
  rw [hWalk]
  have hSecs : secsUntil now w s ≤ maxWindow / NANOS_PER_SEC :=
    Nat.div_le_div_right ((Nat.sub_le _ _).trans (hLongest w hw))
  exact hSecs.trans (Nat.le_max_left _ _)

/-- What a rejection answers: the wait of a window that has not enough expiring within it, or the
longest window when every window has enough expiring within a second. -/
theorem reset_cases (hLongest : ∀ w ∈ windows, w.window ≤ maxWindow)
    (hCost : ∀ w ∈ windows, cost.toNat ≤ w.maxPoints.toNat)
    (hSorted : samples.Pairwise fun s s' => s.1 ≤ s'.1) (hPast : ∀ s ∈ samples, s.1 ≤ now)
    (hRejected : (decisionFor windows maxWindow now cost samples).allowed = false) :
    (0 < (decisionFor windows maxWindow now cost samples).resetAfterSecs ∧
      ∃ w ∈ windows, ¬ Fits now cost samples w ∧ expiring now
        ((decisionFor windows maxWindow now cost samples).resetAfterSecs * NANOS_PER_SEC)
        samples w < lacking now cost samples w) ∨
    ((decisionFor windows maxWindow now cost samples).resetAfterSecs = fallbackSecs maxWindow ∧
      ∀ w ∈ windows, lacking now cost samples w ≤ expiring now NANOS_PER_SEC samples w) := by
  have hEmpty : windows.isEmpty = false := by
    cases windows with
    | nil => cases hRejected
    | cons w windows => rfl
  have hNot : (evaluate windows now cost samples).allowed = false := by
    by_contra hYes
    have hFits := evaluate_allowed.mp (by simpa using hYes)
    rw [decisionFor_allowed.mpr hFits] at hRejected
    cases hRejected
  have hReset : (decisionFor windows maxWindow now cost samples).resetAfterSecs =
      if (evaluate windows now cost samples).rejectionReset = 0 then fallbackSecs maxWindow
      else min (evaluate windows now cost samples).rejectionReset (fallbackSecs maxWindow) := by
    rw [decisionFor, hEmpty, if_neg (by simp), decisionOf, hNot, if_neg (by simp)]
  rw [hReset]
  obtain ⟨hAll, _, hWhich⟩ := @foldl_rejectionReset windows now cost samples
    ⟨true, UInt64.ofNat u64Max, UInt64.ofNat u64Max, 0, 0⟩
  change (∀ w ∈ windows, _ → _ ≤ (evaluate windows now cost samples).rejectionReset) at hAll
  change (evaluate windows now cost samples).rejectionReset = 0 ∨ _ at hWhich
  by_cases hZero : (evaluate windows now cost samples).rejectionReset = 0
  · rw [if_pos hZero]
    refine .inr ⟨rfl, fun w hw => ?_⟩
    by_cases hFits : Fits now cost samples w
    · have hNone : lacking now cost samples w = 0 := by
        have hMax := toNat_le w.maxPoints
        rw [Fits] at hFits
        unfold lacking
        omega
      rw [hNone]
      exact Nat.zero_le _
    · have hRetry := hAll w hw hFits
      rw [hZero] at hRetry
      exact lacking_le hFits (hCost w hw) hSorted hPast (Nat.le_zero.mp hRetry)
  · rw [if_neg hZero]
    obtain ⟨w, hw, hFits, hEq⟩ := hWhich.resolve_left hZero
    have hLe := retryAfter_le hLongest hw hFits (hCost w hw)
    have hMin : min (evaluate windows now cost samples).rejectionReset (fallbackSecs maxWindow) =
        retryAfter now w (overBy now cost samples w) samples := by
      change (evaluate windows now cost samples).rejectionReset = _ at hEq
      rw [hEq, Nat.min_eq_left hLe]
    have hPositive : 0 < retryAfter now w (overBy now cost samples w) samples := by
      change (evaluate windows now cost samples).rejectionReset = _ at hEq
      omega
    rw [hMin]
    exact .inl ⟨hPositive, w, hw, hFits, expiring_lt hFits (hCost w hw) hSorted hPast
      hPositive (Nat.le_refl _)⟩

/-! ## Repeating the check -/

/-- Repeated after the wait, whatever other keys do meanwhile, the check is admitted. -/
def AdmittedAfter (l : MultiWindowLimiter) (c : Check) (wait : Nat) : Prop :=
  ∀ others : List Check,
    (∀ o ∈ others, o.key ≠ c.key ∧ c.now ≤ o.now ∧ o.now ≤ c.now + wait) →
    (others.map Check.now).Pairwise (· ≤ ·) →
    (((l.check c).2.after others).check { c with now := c.now + wait }).1.allowed = true

theorem allowed_after_of_empty (h : activeWindows windows = []) :
    (((new windows).after checks).check c).1.allowed = true := by
  have hAfter : ((new windows).after checks).windows = [] := by
    unfold after
    generalize hl : new windows = l
    have hEmpty : l.windows = [] := by rw [← hl]; exact h
    clear hl
    induction checks generalizing l with
    | nil => exact hEmpty
    | cons o checks ih => exact ih _ (by rwa [windows_check])
  unfold MultiWindowLimiter.check
  rw [hAfter]
  rfl

/-- The checks of other keys leave the samples of a key alone. -/
theorem historyAfter_of_ne {key : String} (h : ∀ o ∈ checks, o.key ≠ key) :
    historyAfter windows maxWindow history checks key = history key := by
  unfold historyAfter
  induction checks generalizing history with
  | nil => rfl
  | cons o checks ih =>
    obtain ⟨hHead, hRest⟩ := List.forall_mem_cons.mp h
    rw [List.foldl_cons, ih hRest]
    unfold record
    split
    · rw [Function.update_of_ne hHead.symm]
    · rfl

/-- Repeated, a check that was rejected is admitted when the samples of its key leave room. -/
theorem admittedAfter_iff {wait : Nat} (hWindows : l.windows ≠ []) (h : Tracks l history now)
    (hOrdered : Ordered history now) (hNow : now ≤ c.now)
    (hRejected : (l.check c).1.allowed = false) :
    AdmittedAfter l c wait ↔ ∀ w ∈ l.windows, Fits (c.now + wait) c.cost (history c.key) w := by
  obtain ⟨_, hTracks⟩ := check_tracks hWindows h hNow
  rw [hRejected] at hTracks
  have hAnswer : ∀ others : List Check,
      (∀ o ∈ others, o.key ≠ c.key ∧ c.now ≤ o.now ∧ o.now ≤ c.now + wait) →
      (others.map Check.now).Pairwise (· ≤ ·) →
      ((((l.check c).2.after others).check { c with now := c.now + wait }).1.allowed = true ↔
        ∀ w ∈ l.windows, Fits (c.now + wait) c.cost (history c.key) w) := by
    intro others hOthers hTimes
    obtain ⟨hAfter, _, hSame, _⟩ := @after_tracks c.now (c.now + wait) (l.check c).2 history others
      (by rwa [windows_check]) hTracks (hOrdered.later hNow) hTimes (fun o ho => (hOthers o ho).2.1)
      (fun o ho => (hOthers o ho).2.2) (Nat.le_add_right _ _)
    rw [windows_check] at hSame
    obtain ⟨hDecision, _⟩ := @check_tracks _ ((l.check c).2.after others) _
      { c with now := c.now + wait } (by rwa [hSame]) hAfter (Nat.le_refl _)
    rw [hDecision, decisionFor_allowed, hSame, historyAfter_of_ne fun o ho => (hOthers o ho).1]
  constructor
  · intro hAdmitted
    exact (hAnswer [] (by simp) List.Pairwise.nil).mp (hAdmitted [] (by simp) List.Pairwise.nil)
  · intro hFits others hOthers hTimes
    exact (hAnswer others hOthers hTimes).mpr hFits

/-- Where what has expired is not what was lacking, there is no room. -/
theorem not_fits_of_expiring {wait : Nat} (hFits : ¬ Fits now cost samples w)
    (h : expiring now wait samples w < lacking now cost samples w) :
    ¬ Fits (now + wait) cost samples w := by
  have hLess := @pointsIn_anti now (now + wait) samples w (Nat.le_add_right _ _)
  rw [Fits, not_or] at hFits ⊢
  unfold expiring lacking at h
  omega

theorem expiring_mono {wait wait' : Nat} (h : wait ≤ wait') :
    expiring now wait samples w ≤ expiring now wait' samples w := by
  have hLess := @pointsIn_anti (now + wait) (now + wait') samples w (by omega)
  unfold expiring
  omega

/-- When every sample has expired, there is room. -/
theorem fits_of_expired (hPast : ∀ s ∈ samples, s.1 ≤ now) (hLongest : w.window ≤ maxWindow)
    (hCost : cost.toNat ≤ w.maxPoints.toNat) : Fits (now + (maxWindow + 1)) cost samples w := by
  have hNone : samples.filter (inSpan Prod.fst (now + (maxWindow + 1)) w.window) = [] := by
    apply List.filter_eq_nil_iff.mpr
    intro s hs hIn
    have hLe := hPast s hs
    simp only [inSpan, decide_eq_true_eq] at hIn
    omega
  rw [Fits, pointsIn, hNone]
  exact .inr (by simpa [points] using hCost)

/-- The longest window, in nanoseconds of the whole seconds that a rejection falls back to. -/
def fallback (maxWindow : Nat) : Nat := fallbackSecs maxWindow * NANOS_PER_SEC

/-- What every window lacks has expired within a second, and the check first has room in the last
second of the longest window. -/
structure FallsBackInTime (windows : List Window) (maxWindow now : Nat) (cost : UInt64)
    (samples : List Sample) : Prop where
  soon : ∀ w ∈ windows, lacking now cost samples w ≤ expiring now NANOS_PER_SEC samples w
  room : ∀ w ∈ windows, Fits (now + fallback maxWindow) cost samples w
  notBefore : ∀ wait, wait + NANOS_PER_SEC < fallback maxWindow →
    ∃ w ∈ windows, ¬ Fits (now + wait) cost samples w

/-- The wait that the limiter answers is enough, and at most a second more than is needed. -/
def RetrySound (l : MultiWindowLimiter) (c : Check) (least : Nat) : Prop :=
  AdmittedAfter l c ((l.check c).1.resetAfterSecs * NANOS_PER_SEC) ∧
    (l.check c).1.resetAfterSecs * NANOS_PER_SEC ≤ least + NANOS_PER_SEC

theorem exists_least {wait : Nat} (h : AdmittedAfter l c wait) :
    ∃ least, IsLeast {wait | AdmittedAfter l c wait} least := by
  classical
  have hSome : ∃ wait, AdmittedAfter l c wait := ⟨wait, h⟩
  exact ⟨Nat.find hSome, Nat.find_spec hSome, fun _ hOther => Nat.find_min' hSome hOther⟩

/-- The whole seconds until the samples that are in the way expire are not enough, so only the
longest window can be. -/
theorem retry_sound_iff {least : Nat} (hWindows : l.windows ≠ []) (h : Tracks l history now)
    (hOrdered : Ordered history now) (hNow : now ≤ c.now)
    (hRejected : (l.check c).1.allowed = false)
    (hCost : ∀ w ∈ l.windows, c.cost.toNat ≤ w.maxPoints.toNat)
    (hLeast : IsLeast {wait | AdmittedAfter l c wait} least) :
    RetrySound l c least ↔
      FallsBackInTime l.windows l.maxWindow c.now c.cost (history c.key) := by
  obtain ⟨hDecision, _⟩ := check_tracks hWindows h hNow
  have hAdmitted := fun wait => @admittedAfter_iff _ l history c wait hWindows h hOrdered hNow
    hRejected
  have hLater := hOrdered.later hNow
  have hCases := @reset_cases l.windows c.now l.maxWindow c.cost (history c.key) l.longest hCost
    (hLater.sorted c.key) (hLater.past c.key) (by rw [← hDecision]; exact hRejected)
  rw [← hDecision] at hCases
  unfold RetrySound
  generalize hReset : (l.check c).1.resetAfterSecs = reset at hCases ⊢
  rw [hAdmitted]
  constructor
  · rintro ⟨hRoom, hBound⟩
    rcases hCases with ⟨_, w, hw, hFits, hExpiring⟩ | ⟨rfl, hSoon⟩
    · exact absurd (hRoom w hw) (not_fits_of_expiring hFits hExpiring)
    · refine ⟨hSoon, hRoom, fun wait hWait => ?_⟩
      by_contra hNone
      have hEarly : ∀ w ∈ l.windows, Fits (c.now + wait) c.cost (history c.key) w := by
        simpa using hNone
      have hLe := hLeast.2 ((hAdmitted wait).mpr hEarly)
      rw [fallback] at hWait
      omega
  · rintro ⟨hSoon, hRoom, hNotBefore⟩
    rcases hCases with ⟨hPositive, w, hw, _, hExpiring⟩ | ⟨rfl, _⟩
    · have hSecond : NANOS_PER_SEC ≤ reset * NANOS_PER_SEC := Nat.le_mul_of_pos_left _ hPositive
      have hMore := @expiring_mono c.now (history c.key) w _ _ hSecond
      have hEnough := hSoon w hw
      omega
    · refine ⟨hRoom, ?_⟩
      by_contra hOver
      obtain ⟨w, hw, hNot⟩ := hNotBefore least (by rw [fallback]; omega)
      exact hNot ((hAdmitted least).mp hLeast.1 w hw)

/-- When the wait after a rejection is enough, and not too long. -/
theorem retry_after_iff (windows : List Window) (before : List Check) (c : Check)
    (hTimes : ((before ++ [c]).map Check.now).Pairwise (· ≤ ·))
    (hRejected : (((new windows).after before).check c).1.allowed = false)
    (hCost : ∀ w ∈ activeWindows windows, c.cost.toNat ≤ w.maxPoints.toNat) :
    ∃ least, IsLeast {wait | AdmittedAfter ((new windows).after before) c wait} least ∧
      (RetrySound ((new windows).after before) c least ↔
        FallsBackInTime (activeWindows windows) (longestWindow (activeWindows windows)) c.now c.cost
          (historyAfter (activeWindows windows) (longestWindow (activeWindows windows))
            (fun _ => []) before c.key)) := by
  rw [List.map_append] at hTimes
  obtain ⟨hBefore, _, hLast⟩ := List.pairwise_append.mp hTimes
  have hEnd : ∀ o ∈ before, o.now ≤ c.now :=
    fun o ho => hLast _ (List.mem_map_of_mem ho) _ List.mem_cons_self
  have hStart : Ordered (fun _ => []) 0 := ⟨fun _ => List.Pairwise.nil, fun _ _ hs => by cases hs⟩
  by_cases hWindows : activeWindows windows = []
  · exact absurd hRejected (by rw [allowed_after_of_empty hWindows]; simp)
  obtain ⟨hTracks, hOrdered, hSame, hLongest⟩ := @after_tracks 0 c.now (new windows) _ before
    hWindows (tracks_new windows) hStart hBefore (fun _ _ => Nat.zero_le _) hEnd (Nat.zero_le _)
  have hActive : ((new windows).after before).windows = activeWindows windows := hSame
  have hSome : ((new windows).after before).windows ≠ [] := by rwa [hActive]
  have hExpired : AdmittedAfter ((new windows).after before) c
      (((new windows).after before).maxWindow + 1) := by
    refine (admittedAfter_iff hSome hTracks hOrdered (Nat.le_refl _) hRejected).mpr fun w hw => ?_
    exact fits_of_expired (hOrdered.past c.key) (((new windows).after before).longest w hw)
      (hCost w (by rwa [hActive] at hw))
  obtain ⟨least, hLeast⟩ := exists_least hExpired
  have hIff := retry_sound_iff hSome hTracks hOrdered (Nat.le_refl _) hRejected
    (by rwa [hActive]) hLeast
  rw [hActive, hLongest] at hIff
  exact ⟨least, hLeast, hIff⟩

/-! A window of a second and a half, and one of five minutes. -/

def shortWindow : Window := ⟨3 * NANOS_PER_SEC / 2, 1⟩

def shortCheck (now : Nat) : Check := ⟨"did:plc:a", 1, now⟩

theorem retry_after_iff_sample : ∃ least,
    RetrySound ((new [shortWindow]).after [shortCheck 0]) (shortCheck NANOS_PER_SEC) least := by
  obtain ⟨least, _, hIff⟩ := retry_after_iff [shortWindow] [shortCheck 0]
    (shortCheck NANOS_PER_SEC) (by decide) (by decide +kernel) (by decide)
  refine ⟨least, hIff.mpr ⟨by decide +kernel, by decide +kernel, fun wait hWait => ?_⟩⟩
  have hFallback : fallback (longestWindow (activeWindows [shortWindow])) = NANOS_PER_SEC := by
    decide +kernel
  rw [hFallback] at hWait
  omega

/-- A point at the start and four after a hundred seconds. -/
def weightedChecks : List Check :=
  [⟨"did:plc:a", 1, 0⟩, ⟨"did:plc:a", 4, 100 * NANOS_PER_SEC⟩]

def weightedCheck : Check := ⟨"did:plc:a", 3, 100 * NANOS_PER_SEC⟩

/-- After exactly the seconds that the rejection answers, the four points still count. -/
theorem retry_after_too_soon :
    (((new [sampleWindow]).after weightedChecks).check weightedCheck).1.allowed = false ∧
      (((new [sampleWindow]).after weightedChecks).check weightedCheck).1.resetAfterSecs = 300 ∧
      ¬ ∃ least, RetrySound ((new [sampleWindow]).after weightedChecks) weightedCheck least := by
  refine ⟨by decide +kernel, by decide +kernel, ?_⟩
  rintro ⟨_, hAdmitted, _⟩
  have hRepeated := hAdmitted [] (by simp) List.Pairwise.nil
  exact absurd hRepeated (by decide +kernel)

end Ezpds.Auth
