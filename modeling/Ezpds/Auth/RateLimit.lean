import Ezpds.Data.Json
import Ezpds.Library.SlidingWindow
import Mathlib.Algebra.GroupWithZero.Nat
import Mathlib.Logic.Function.Basic

/-!
# The sliding-window rate limiter

A limiter keeps, for each key, the samples that it admitted, and drops those that have left the
longest window: of one key at its checks, and of all keys every so often. A check costs points,
and is admitted when every window has room for them.

* `run_eq_unpruned`: the decisions are those of a limiter that drops nothing.
* `evaluate_allowed`, `evaluate_remaining`: what a decision says, in sums of points.
* `limiter_plain`: the limiter and the plain definition.
-/

namespace Ezpds.Auth

open Library

/-! ## The limiter -/

/-- `u64::saturating_add` -/
def satAdd (a b : UInt64) : UInt64 := UInt64.ofNat (min (a.toNat + b.toNat) u64Max)

/-- `u64::saturating_sub` -/
def satSub (a b : UInt64) : UInt64 := UInt64.ofNat (a.toNat - b.toNat)

/-- A duration and an instant are in nanoseconds. -/
def NANOS_PER_SEC : Nat := 10 ^ 9

structure Window where
  window : Nat
  maxPoints : UInt64

structure RateLimitDecision where
  allowed : Bool
  limit : UInt64
  remaining : UInt64
  resetAfterSecs : Nat
  deriving DecidableEq

def SWEEP_EVERY : Nat := 1024

/-- An instant and the points of a request that was admitted then. -/
abbrev Sample := Nat × UInt64

structure MultiWindowLimiter where
  windows : List Window
  maxWindow : Nat
  entries : String → Option (List Sample)
  opsSinceSweep : Nat
  longest : ∀ w ∈ windows, w.window ≤ maxWindow
  positive : ∀ w ∈ windows, 0 < w.maxPoints.toNat

/-- The windows that are not disabled. -/
def activeWindows (windows : List Window) : List Window :=
  windows.filter fun w => w.maxPoints > 0

def longestWindow (windows : List Window) : Nat :=
  (windows.map Window.window).foldr max 0

theorem le_longestWindow {windows : List Window} {w : Window} (h : w ∈ windows) :
    w.window ≤ longestWindow windows := by
  induction windows with
  | nil => cases h
  | cons v windows ih =>
    rcases List.mem_cons.mp h with rfl | h
    · exact Nat.le_max_left _ _
    · exact (ih h).trans (Nat.le_max_right _ _)

namespace MultiWindowLimiter

def new (windows : List Window) : MultiWindowLimiter where
  windows := activeWindows windows
  maxWindow := longestWindow (activeWindows windows)
  entries := fun _ => none
  opsSinceSweep := 0
  longest _ := le_longestWindow
  positive w h := by
    have hPositive : w.maxPoints > 0 := by simpa using (List.mem_filter.mp h).2
    exact UInt64.lt_iff_toNat_lt.mp hPositive

/-- Samples older than the longest window are dropped from the front. -/
def prune (maxWindow now : Nat) (deque : List Sample) : List Sample :=
  deque.dropWhile fun s => now - s.1 > maxWindow

def sweep (l : MultiWindowLimiter) (now : Nat) : MultiWindowLimiter :=
  { l with entries := fun key => (l.entries key).bind fun deque =>
      let deque := prune l.maxWindow now deque
      if deque.isEmpty then none else some deque }

end MultiWindowLimiter

/-- `Instant::checked_sub` -/
def checkedSub (now span : Nat) : Option Nat :=
  if span ≤ now then some (now - span) else none

def counts (now : Nat) (w : Window) (s : Sample) : Bool :=
  match checkedSub now w.window with
  | some cutoff => s.1 ≥ cutoff
  | none => true

/-- The seconds until a sample leaves the window. -/
def secsUntil (now : Nat) (w : Window) (s : Sample) : Nat :=
  (w.window - (now - s.1)) / NANOS_PER_SEC

def consumedPoints (now : Nat) (w : Window) (deque : List Sample) : UInt64 :=
  (deque.filter (counts now w)).foldl (fun consumed s => satAdd consumed s.2) 0

def oldestReset (now : Nat) (w : Window) (deque : List Sample) : Nat :=
  (deque.filter (counts now w)).head?.elim 0 (secsUntil now w)

/-- The walk over the samples of the window, until enough points have expired. -/
def walkFreed (now : Nat) (w : Window) (overBy freed : UInt64) (retry : Nat) :
    List Sample → Nat
  | [] => retry
  | s :: rest =>
    let retry := secsUntil now w s
    let freed := satAdd freed s.2
    if freed ≥ overBy then retry else walkFreed now w overBy freed retry rest

def retryAfter (now : Nat) (w : Window) (overBy : UInt64) (deque : List Sample) : Nat :=
  walkFreed now w overBy 0 (oldestReset now w deque) (deque.filter (counts now w))

/-- What the loop over the windows keeps. -/
structure Binding where
  allowed : Bool
  limit : UInt64
  remaining : UInt64
  reset : Nat
  rejectionReset : Nat

def remainingBefore (now : Nat) (deque : List Sample) (w : Window) : UInt64 :=
  satSub w.maxPoints (consumedPoints now w deque)

def overBy (now : Nat) (cost : UInt64) (deque : List Sample) (w : Window) : UInt64 :=
  satSub (satAdd (consumedPoints now w deque) cost) w.maxPoints

def evaluateWindow (now : Nat) (cost : UInt64) (deque : List Sample) (b : Binding) (w : Window) :
    Binding :=
  let lacks := overBy now cost deque w
  let left := remainingBefore now deque w
  let reset := oldestReset now w deque
  let b := if lacks > 0 then
      { b with
        allowed := false
        rejectionReset := max b.rejectionReset (retryAfter now w lacks deque) }
    else b
  if left < b.remaining ∨ (left = b.remaining ∧ reset > b.reset) then
    { b with limit := w.maxPoints, remaining := left, reset := reset }
  else b

def evaluate (windows : List Window) (now : Nat) (cost : UInt64) (deque : List Sample) : Binding :=
  windows.foldl (evaluateWindow now cost deque)
    ⟨true, UInt64.ofNat u64Max, UInt64.ofNat u64Max, 0, 0⟩

/-- The longest window, in seconds, and at least one. -/
def fallbackSecs (maxWindow : Nat) : Nat :=
  max (maxWindow / NANOS_PER_SEC) 1

def decisionOf (maxWindow : Nat) (cost : UInt64) (b : Binding) : RateLimitDecision :=
  if b.allowed then ⟨true, b.limit, satSub b.remaining cost, b.reset⟩
  else ⟨false, b.limit, 0, if b.rejectionReset = 0 then fallbackSecs maxWindow
    else min b.rejectionReset (fallbackSecs maxWindow)⟩

/-- What a check answers, from the samples of its key. -/
def decisionFor (windows : List Window) (maxWindow now : Nat) (cost : UInt64) (deque : List Sample) :
    RateLimitDecision :=
  if windows.isEmpty then ⟨true, 0, 0, 0⟩
  else decisionOf maxWindow cost (evaluate windows now cost deque)

structure Check where
  key : String
  cost : UInt64
  now : Nat

namespace MultiWindowLimiter

/-- Every so often the keys whose samples have all expired are dropped. -/
def sweepIfDue (l : MultiWindowLimiter) (now : Nat) : MultiWindowLimiter :=
  if l.opsSinceSweep + 1 ≥ SWEEP_EVERY then { l.sweep now with opsSinceSweep := 0 }
  else { l with opsSinceSweep := l.opsSinceSweep + 1 }

def check (l : MultiWindowLimiter) (c : Check) : RateLimitDecision × MultiWindowLimiter :=
  if l.windows.isEmpty then (⟨true, 0, 0, 0⟩, l)
  else
    let l := l.sweepIfDue c.now
    let deque := prune l.maxWindow c.now ((l.entries c.key).getD [])
    let b := evaluate l.windows c.now c.cost deque
    let kept := if b.allowed then deque ++ [(c.now, c.cost)] else deque
    (decisionOf l.maxWindow c.cost b,
      { l with entries := Function.update l.entries c.key (some kept) })

def run (l : MultiWindowLimiter) : List Check → List RateLimitDecision
  | [] => []
  | c :: checks => (l.check c).1 :: (l.check c).2.run checks

/-- The limiter after the checks. -/
def after (l : MultiWindowLimiter) (checks : List Check) : MultiWindowLimiter :=
  checks.foldl (fun l c => (l.check c).2) l

end MultiWindowLimiter

/-! ## Saturating sums -/

theorem toNat_le (a : UInt64) : a.toNat ≤ u64Max :=
  Nat.le_pred_of_lt a.toNat_lt

theorem toNat_satAdd (a b : UInt64) : (satAdd a b).toNat = min (a.toNat + b.toNat) u64Max := by
  have hLt : min (a.toNat + b.toNat) u64Max < 2 ^ 64 :=
    Nat.lt_of_le_of_lt (Nat.min_le_right _ _) (by decide)
  rw [satAdd, UInt64.toNat_ofNat_of_lt' hLt]

theorem toNat_satSub (a b : UInt64) : (satSub a b).toNat = a.toNat - b.toNat := by
  have hLt : a.toNat - b.toNat < 2 ^ 64 := Nat.lt_of_le_of_lt (Nat.sub_le _ _) a.toNat_lt
  rw [satSub, UInt64.toNat_ofNat_of_lt' hLt]

/-- The points of samples. -/
def points (l : List Sample) : Nat := (l.map fun s => s.2.toNat).sum

theorem toNat_foldl_satAdd (l : List Sample) (consumed : UInt64) :
    (l.foldl (fun consumed s => satAdd consumed s.2) consumed).toNat =
      min (consumed.toNat + points l) u64Max := by
  induction l generalizing consumed with
  | nil => exact (Nat.min_eq_left (toNat_le consumed)).symm
  | cons s l ih =>
    rw [List.foldl_cons, ih, toNat_satAdd, points, points, List.map_cons, List.sum_cons]
    omega

theorem counts_eq (now : Nat) (w : Window) : counts now w = inSpan Prod.fst now w.window := by
  funext s
  unfold counts checkedSub inSpan
  by_cases h : w.window ≤ now
  · rw [if_pos h]
    exact decide_eq_decide.mpr (by omega)
  · rw [if_neg h]
    exact (decide_eq_true (by omega)).symm

theorem prune_eq (maxWindow now : Nat) (deque : List Sample) :
    MultiWindowLimiter.prune maxWindow now deque = expireFront Prod.fst now maxWindow deque := by
  unfold MultiWindowLimiter.prune expireFront inSpan
  congr 1
  funext s
  rw [← decide_not]
  exact decide_eq_decide.mpr (by omega)

/-- The points that a window counts. -/
def pointsIn (now : Nat) (w : Window) (samples : List Sample) : Nat :=
  points (samples.filter (inSpan Prod.fst now w.window))

theorem toNat_consumedPoints (now : Nat) (w : Window) (deque : List Sample) :
    (consumedPoints now w deque).toNat = min (pointsIn now w deque) u64Max := by
  rw [consumedPoints, toNat_foldl_satAdd, counts_eq, pointsIn]
  simp

/-! ## A limiter that drops nothing -/

/-- The samples that were admitted for each key, all of them. -/
abbrev History : Type := String → List Sample

def record (history : History) (c : Check) (allowed : Bool) : History :=
  if allowed then Function.update history c.key (history c.key ++ [(c.now, c.cost)]) else history

def unpruned (windows : List Window) (maxWindow : Nat) (history : History) :
    List Check → List RateLimitDecision
  | [] => []
  | c :: checks =>
    let d := decisionFor windows maxWindow c.now c.cost (history c.key)
    d :: unpruned windows maxWindow (record history c d.allowed) checks

variable {windows : List Window} {now now' maxWindow : Nat} {cost : UInt64}
  {deque deque' samples : List Sample} {l : MultiWindowLimiter} {history : History} {c : Check}
  {checks : List Check}

/-- A decision looks at the samples that some window counts. -/
theorem evaluateWindow_congr {b : Binding} {w : Window}
    (h : deque.filter (counts now w) = deque'.filter (counts now w)) :
    evaluateWindow now cost deque b w = evaluateWindow now cost deque' b w := by
  unfold evaluateWindow overBy remainingBefore oldestReset retryAfter oldestReset consumedPoints
  rw [h]

theorem evaluate_congr
    (h : ∀ w ∈ windows, deque.filter (counts now w) = deque'.filter (counts now w)) :
    evaluate windows now cost deque = evaluate windows now cost deque' := by
  unfold evaluate
  generalize Binding.mk true (UInt64.ofNat u64Max) (UInt64.ofNat u64Max) 0 0 = b
  induction windows generalizing b with
  | nil => rfl
  | cons w windows ih =>
    obtain ⟨hHead, hRest⟩ := List.forall_mem_cons.mp h
    rw [List.foldl_cons, List.foldl_cons, evaluateWindow_congr hHead, ih hRest]

/-- The limiter keeps the samples of a key but for some at the front that no window counts any
more. -/
def Tracks (l : MultiWindowLimiter) (history : History) (now : Nat) : Prop :=
  ∀ key, ∃ dropped, history key = dropped ++ (l.entries key).getD [] ∧
    ∀ s ∈ dropped, inSpan Prod.fst now l.maxWindow s = false

/-- What is dropped of a list that lacks only expired samples. -/
theorem exists_dropped {dropped : List Sample} (hNow : now ≤ now') (hSplit : samples = dropped ++ deque)
    (hDropped : ∀ s ∈ dropped, inSpan Prod.fst now maxWindow s = false) :
    ∃ dropped', samples = dropped' ++ MultiWindowLimiter.prune maxWindow now' deque ∧
      ∀ s ∈ dropped', inSpan Prod.fst now' maxWindow s = false := by
  obtain ⟨expired, hExpired, hOut⟩ := @filter_expireFront_split _ Prod.fst now' maxWindow deque
  refine ⟨dropped ++ expired, ?_, ?_⟩
  · rw [prune_eq, List.append_assoc, ← hExpired, hSplit]
  · intro s hs
    rcases List.mem_append.mp hs with hs | hs
    · exact not_inSpan_mono hNow (hDropped s hs)
    · exact hOut s hs

theorem Tracks.later (h : Tracks l history now) (hNow : now ≤ now') : Tracks l history now' := by
  intro key
  obtain ⟨dropped, hSplit, hDropped⟩ := h key
  exact ⟨dropped, hSplit, fun s hs => not_inSpan_mono hNow (hDropped s hs)⟩

namespace MultiWindowLimiter

theorem getD_sweep (key : String) :
    ((l.sweep now).entries key).getD [] = prune l.maxWindow now ((l.entries key).getD []) := by
  unfold sweep
  cases hEntry : l.entries key with
  | none => simp [hEntry, prune]
  | some deque =>
    simp only [hEntry, Option.bind_some, Option.getD_some]
    split
    · rename_i hEmpty
      exact (List.isEmpty_iff.mp hEmpty).symm
    · rfl

@[simp] theorem windows_sweepIfDue : (l.sweepIfDue now).windows = l.windows := by
  unfold sweepIfDue
  split <;> rfl

@[simp] theorem maxWindow_sweepIfDue : (l.sweepIfDue now).maxWindow = l.maxWindow := by
  unfold sweepIfDue
  split <;> rfl

theorem tracks_sweepIfDue (h : Tracks l history now) (hNow : now ≤ now') :
    Tracks (l.sweepIfDue now') history now' := by
  unfold sweepIfDue
  split
  · intro key
    obtain ⟨dropped, hSplit, hDropped⟩ := h key
    obtain ⟨dropped', hSplit', hDropped'⟩ := exists_dropped hNow hSplit hDropped
    refine ⟨dropped', ?_, hDropped'⟩
    rw [hSplit', ← getD_sweep]
  · exact h.later hNow

theorem windows_check : (l.check c).2.windows = l.windows := by
  unfold check
  split
  · rfl
  · exact windows_sweepIfDue

theorem maxWindow_check : (l.check c).2.maxWindow = l.maxWindow := by
  unfold check
  split
  · rfl
  · exact maxWindow_sweepIfDue

/-- Samples that no window counts do not matter. -/
theorem evaluate_dropped {dropped : List Sample} (hLongest : ∀ w ∈ windows, w.window ≤ maxWindow)
    (h : ∀ s ∈ dropped, inSpan Prod.fst now maxWindow s = false) :
    evaluate windows now cost (dropped ++ deque) = evaluate windows now cost deque := by
  apply evaluate_congr
  intro w hw
  have hNone : dropped.filter (counts now w) = [] := by
    apply List.filter_eq_nil_iff.mpr
    intro s hs hIn
    rw [counts_eq] at hIn
    have hLong := inSpan_mono (Nat.le_refl now) (hLongest w hw) hIn
    rw [h s hs] at hLong
    cases hLong
  rw [List.filter_append, hNone, List.nil_append]

/-- A check decides as if nothing had been dropped, and still keeps all that may count. -/
theorem check_tracks (hWindows : l.windows ≠ []) (h : Tracks l history now) (hNow : now ≤ c.now) :
    (l.check c).1 = decisionFor l.windows l.maxWindow c.now c.cost (history c.key) ∧
      Tracks (l.check c).2 (record history c (l.check c).1.allowed) c.now := by
  have hEmpty : l.windows.isEmpty = false := by simpa using hWindows
  have hSwept := tracks_sweepIfDue h hNow
  obtain ⟨dropped, hSplit, hDropped⟩ := hSwept c.key
  obtain ⟨dropped', hSplit', hDropped'⟩ := exists_dropped (Nat.le_refl c.now) hSplit hDropped
  have hSame := @evaluate_dropped l.windows c.now (l.sweepIfDue c.now).maxWindow c.cost
    (prune (l.sweepIfDue c.now).maxWindow c.now (((l.sweepIfDue c.now).entries c.key).getD []))
    dropped' (by rw [maxWindow_sweepIfDue]; exact l.longest) hDropped'
  rw [← hSplit'] at hSame
  unfold check decisionFor
  rw [hEmpty]
  simp only [Bool.false_eq_true, if_false, windows_sweepIfDue, ← hSame]
  refine ⟨by rw [maxWindow_sweepIfDue], ?_⟩
  have hAllowed : ∀ b : Binding,
      (decisionOf (l.sweepIfDue c.now).maxWindow c.cost b).allowed = b.allowed := by
    intro b
    unfold decisionOf
    split
    · rename_i hYes
      exact hYes.symm
    · rename_i hNo
      exact (by simpa using hNo : b.allowed = false).symm
  rw [hAllowed]
  intro key
  by_cases hKey : key = c.key
  · subst hKey
    refine ⟨dropped', ?_, hDropped'⟩
    simp only [Function.update_self, Option.getD_some]
    unfold record
    split
    · rw [Function.update_self, ← List.append_assoc, ← hSplit']
    · exact hSplit'
  · obtain ⟨others, hOthers, hOut⟩ := hSwept key
    refine ⟨others, ?_, hOut⟩
    simp only [Function.update_of_ne hKey]
    unfold record
    split
    · rw [Function.update_of_ne hKey, hOthers]
    · exact hOthers

theorem run_of_empty (h : l.windows = []) :
    l.run checks = checks.map fun _ => ⟨true, 0, 0, 0⟩ := by
  induction checks with
  | nil => rfl
  | cons c checks ih =>
    have hCheck : l.check c = (⟨true, 0, 0, 0⟩, l) := by
      unfold check
      rw [h]
      rfl
    rw [run, hCheck, ih, List.map_cons]

theorem unpruned_of_empty :
    unpruned [] maxWindow history checks = checks.map fun _ => ⟨true, 0, 0, 0⟩ := by
  induction checks generalizing history with
  | nil => rfl
  | cons c checks ih =>
    rw [unpruned, List.map_cons, ih]
    rfl

/-- The decisions of a run are those of a limiter that drops nothing. -/
theorem run_eq_unpruned (h : Tracks l history now)
    (hTimes : (checks.map Check.now).Pairwise (· ≤ ·)) (hNow : ∀ c ∈ checks, now ≤ c.now) :
    l.run checks = unpruned l.windows l.maxWindow history checks := by
  by_cases hWindows : l.windows = []
  · rw [run_of_empty hWindows, hWindows, unpruned_of_empty]
  · induction checks generalizing l history now with
    | nil => rfl
    | cons c checks ih =>
      obtain ⟨hFirst, hRest⟩ := List.pairwise_cons.mp hTimes
      obtain ⟨hDecision, hTracks⟩ := check_tracks hWindows h (hNow c List.mem_cons_self)
      have hLater : ∀ c' ∈ checks, c.now ≤ c'.now :=
        fun c' hc' => hFirst _ (List.mem_map_of_mem hc')
      rw [run, unpruned, ih hTracks hRest hLater (by rwa [windows_check]), windows_check,
        maxWindow_check, hDecision]

theorem tracks_new (windows : List Window) : Tracks (new windows) (fun _ => []) 0 :=
  fun _ => ⟨[], rfl, fun _ hs => absurd hs (by simp)⟩

end MultiWindowLimiter

/-! ## Decisions in sums of points -/

/-- The window has room for the points, or is so large that the sum saturates. -/
def Fits (now : Nat) (cost : UInt64) (samples : List Sample) (w : Window) : Prop :=
  w.maxPoints.toNat = u64Max ∨ pointsIn now w samples + cost.toNat ≤ w.maxPoints.toNat

instance (now : Nat) (cost : UInt64) (samples : List Sample) (w : Window) :
    Decidable (Fits now cost samples w) :=
  inferInstanceAs (Decidable (_ ∨ _))

/-- What the window has left after the points. -/
def headroom (now : Nat) (cost : UInt64) (samples : List Sample) (w : Window) : Nat :=
  w.maxPoints.toNat - (pointsIn now w samples + cost.toNat)

/-- Whether the check is admitted, and the least headroom after it. -/
def plainDecision (windows : List Window) (now : Nat) (cost : UInt64) (samples : List Sample) :
    Bool × Nat :=
  if ∀ w ∈ windows, Fits now cost samples w then
    (true, ((windows.map (headroom now cost samples)).min?).getD 0)
  else (false, 0)

theorem overBy_pos {w : Window} : overBy now cost samples w > 0 ↔ ¬ Fits now cost samples w := by
  have hMax := toNat_le w.maxPoints
  rw [gt_iff_lt, UInt64.lt_iff_toNat_lt, overBy, toNat_satSub, toNat_satAdd, toNat_consumedPoints,
    Fits]
  simp only [UInt64.toNat_zero]
  omega

theorem evaluateWindow_allowed {b : Binding} {w : Window} :
    (evaluateWindow now cost samples b w).allowed = true ↔
      b.allowed = true ∧ Fits now cost samples w := by
  have hOver := @overBy_pos now cost samples w
  unfold evaluateWindow
  dsimp only
  by_cases hFits : Fits now cost samples w
  · rw [if_neg fun h => hOver.mp h hFits]
    split <;> simp [hFits]
  · rw [if_pos (hOver.mpr hFits)]
    split <;> simp [hFits]

theorem foldl_evaluateWindow_allowed {b : Binding} :
    (windows.foldl (evaluateWindow now cost samples) b).allowed = true ↔
      b.allowed = true ∧ ∀ w ∈ windows, Fits now cost samples w := by
  induction windows generalizing b with
  | nil => simp
  | cons w windows ih =>
    rw [List.foldl_cons, ih, evaluateWindow_allowed, List.forall_mem_cons, and_assoc]

theorem evaluate_allowed : (evaluate windows now cost samples).allowed = true ↔
    ∀ w ∈ windows, Fits now cost samples w := by
  unfold evaluate
  rw [foldl_evaluateWindow_allowed]
  exact and_iff_right rfl

theorem evaluateWindow_remaining {b : Binding} {w : Window} :
    (evaluateWindow now cost samples b w).remaining.toNat =
      min b.remaining.toNat (remainingBefore now samples w).toNat := by
  unfold evaluateWindow
  dsimp only
  have hKept : ∀ b' : Binding, b'.remaining = b.remaining →
      (if remainingBefore now samples w < b'.remaining ∨
          remainingBefore now samples w = b'.remaining ∧ oldestReset now w samples > b'.reset then
        { b' with
          limit := w.maxPoints
          remaining := remainingBefore now samples w
          reset := oldestReset now w samples }
      else b').remaining.toNat = min b.remaining.toNat (remainingBefore now samples w).toNat := by
    intro b' hb'
    rw [hb']
    split
    · rename_i hLess
      rcases hLess with hLt | ⟨hEq, _⟩
      · exact (Nat.min_eq_right (UInt64.lt_iff_toNat_lt.mp hLt).le).symm
      · rw [hEq, Nat.min_self]
    · rename_i hMore
      have hLe : b.remaining.toNat ≤ (remainingBefore now samples w).toNat := by
        rw [not_or, UInt64.lt_iff_toNat_lt] at hMore
        omega
      rw [hb', Nat.min_eq_left hLe]
  split
  · exact hKept _ rfl
  · exact hKept _ rfl

theorem toNat_remainingBefore {w : Window} : (remainingBefore now samples w).toNat =
    w.maxPoints.toNat - pointsIn now w samples := by
  have hMax := toNat_le w.maxPoints
  rw [remainingBefore, toNat_satSub, toNat_consumedPoints]
  omega

theorem foldl_evaluateWindow_remaining {b : Binding} :
    (windows.foldl (evaluateWindow now cost samples) b).remaining.toNat - cost.toNat =
      (windows.map (headroom now cost samples)).foldl min (b.remaining.toNat - cost.toNat) := by
  induction windows generalizing b with
  | nil => rfl
  | cons w windows ih =>
    rw [List.foldl_cons, ih, evaluateWindow_remaining, toNat_remainingBefore, List.map_cons,
      List.foldl_cons, headroom]
    congr 1
    omega

theorem evaluate_remaining {w : Window} :
    (evaluate (w :: windows) now cost samples).remaining.toNat - cost.toNat =
      (((w :: windows).map (headroom now cost samples)).min?).getD 0 := by
  have hMax := toNat_le w.maxPoints
  unfold evaluate
  rw [foldl_evaluateWindow_remaining, List.map_cons, List.foldl_cons, List.min?_cons',
    Option.getD_some]
  congr 1
  have hStart : (UInt64.ofNat u64Max).toNat = u64Max := rfl
  rw [hStart, headroom]
  omega

/-- The decision in the plain terms. -/
theorem decisionFor_plain :
    ((decisionFor windows maxWindow now cost samples).allowed,
      (decisionFor windows maxWindow now cost samples).remaining.toNat) =
        plainDecision windows now cost samples := by
  unfold decisionFor plainDecision
  cases windows with
  | nil => simp
  | cons w windows =>
    simp only [List.isEmpty_cons, Bool.false_eq_true, if_false]
    unfold decisionOf
    by_cases hAllowed : (evaluate (w :: windows) now cost samples).allowed = true
    · rw [if_pos hAllowed, if_pos (evaluate_allowed.mp hAllowed), ← evaluate_remaining,
        toNat_satSub]
    · rw [if_neg hAllowed, if_neg (fun h => hAllowed (evaluate_allowed.mpr h))]
      rfl

/-! ## Runs -/

/-- The plain definition over a run: each check counts the points that were admitted for its
key, and only a check that is admitted is recorded. -/
def plainRun (windows : List Window) (history : History) : List Check → List (Bool × Nat)
  | [] => []
  | c :: checks =>
    let d := plainDecision windows c.now c.cost (history c.key)
    d :: plainRun windows (record history c d.1) checks

theorem unpruned_plain : (unpruned windows maxWindow history checks).map
    (fun d => (d.allowed, d.remaining.toNat)) = plainRun windows history checks := by
  induction checks generalizing history with
  | nil => rfl
  | cons c checks ih =>
    have hDecision := @decisionFor_plain windows c.now maxWindow c.cost (history c.key)
    rw [unpruned, List.map_cons, ih, plainRun, ← hDecision]

/-- The answers to the checks of one key. -/
def answersTo (key : String) (checks : List Check) (decisions : List RateLimitDecision) :
    List RateLimitDecision :=
  ((checks.zip decisions).filter fun e => e.1.key = key).map Prod.snd

/-- The answers to the checks of a key need no other checks. -/
theorem unpruned_key {key : String} {history' : History} (h : history key = history' key) :
    answersTo key checks (unpruned windows maxWindow history checks) =
      unpruned windows maxWindow history' (checks.filter fun c => c.key = key) := by
  induction checks generalizing history history' with
  | nil => rfl
  | cons c checks ih =>
    by_cases hKey : c.key = key
    · subst hKey
      rw [unpruned, List.filter_cons_of_pos (by simp), unpruned, ← h, answersTo, List.zip_cons_cons,
        List.filter_cons_of_pos (by simp), List.map_cons]
      congr 1
      apply ih
      unfold record
      split
      · rw [Function.update_self, Function.update_self, h]
      · exact h
    · rw [unpruned, List.filter_cons_of_neg (by simpa using hKey), answersTo, List.zip_cons_cons,
        List.filter_cons_of_neg (by simpa using hKey)]
      apply ih
      unfold record
      split
      · rw [Function.update_of_ne (Ne.symm hKey), h]
      · exact h

/-- The history after the checks. -/
def historyAfter (windows : List Window) (maxWindow : Nat) (history : History)
    (checks : List Check) : History :=
  checks.foldl (fun history c => record history c
    (decisionFor windows maxWindow c.now c.cost (history c.key)).allowed) history

theorem unpruned_append {more : List Check} :
    unpruned windows maxWindow history (checks ++ more) =
      unpruned windows maxWindow history checks ++
        unpruned windows maxWindow (historyAfter windows maxWindow history checks) more := by
  induction checks generalizing history with
  | nil => rfl
  | cons c checks ih => rw [List.cons_append, unpruned, ih, unpruned, List.cons_append]; rfl

theorem run_new (windows : List Window) (hTimes : (checks.map Check.now).Pairwise (· ≤ ·)) :
    (MultiWindowLimiter.new windows).run checks =
      unpruned (activeWindows windows) (longestWindow (activeWindows windows)) (fun _ => []) checks :=
  MultiWindowLimiter.run_eq_unpruned (MultiWindowLimiter.tracks_new windows) hTimes
    fun _ _ => Nat.zero_le _

/-- What a limiter of these windows does in a run. -/
structure PlainLimiter (windows : List Window) (checks : List Check) : Prop where
  /-- Nothing that is dropped was needed. -/
  pruning : (MultiWindowLimiter.new windows).run checks =
    unpruned (activeWindows windows) (longestWindow (activeWindows windows)) (fun _ => []) checks
  plain : ((MultiWindowLimiter.new windows).run checks).map
    (fun d => (d.allowed, d.remaining.toNat)) = plainRun (activeWindows windows) (fun _ => []) checks
  rejected : ∀ before c after ds d rest, checks = before ++ c :: after →
    (MultiWindowLimiter.new windows).run checks = ds ++ d :: rest → ds.length = before.length →
    d.allowed = false → (MultiWindowLimiter.new windows).run (before ++ after) = ds ++ rest
  keys : ∀ key, answersTo key checks ((MultiWindowLimiter.new windows).run checks) =
    (MultiWindowLimiter.new windows).run (checks.filter fun c => c.key = key)

theorem length_unpruned :
    (unpruned windows maxWindow history checks).length = checks.length := by
  induction checks generalizing history with
  | nil => rfl
  | cons c checks ih => rw [unpruned, List.length_cons, List.length_cons, ih]

/-- The limiter follows the plain definition. -/
theorem limiter_plain (windows : List Window) (checks : List Check)
    (hTimes : (checks.map Check.now).Pairwise (· ≤ ·)) : PlainLimiter windows checks where
  pruning := run_new windows hTimes
  plain := by
    rw [run_new windows hTimes]
    exact unpruned_plain
  rejected := by
    rintro before c after ds d rest rfl hRun hLength hRejected
    have hSublist : ((before ++ after).map Check.now).Sublist
        ((before ++ c :: after).map Check.now) :=
      (((List.sublist_cons_self c after).append_left before)).map _
    rw [run_new windows hTimes, unpruned_append, unpruned] at hRun
    obtain ⟨rfl, hRest⟩ := List.append_inj hRun (by rw [length_unpruned, hLength])
    obtain ⟨rfl, rfl⟩ := List.cons.inj hRest
    rw [run_new windows (hTimes.sublist hSublist), unpruned_append, hRejected]
    rfl
  keys key := by
    have hFilter : ((checks.filter fun c => c.key = key).map Check.now).Pairwise (· ≤ ·) :=
      hTimes.sublist (List.filter_sublist.map _)
    rw [run_new windows hTimes, run_new windows hFilter]
    exact unpruned_key rfl

/-! A limit of five points in five minutes. -/

def sampleWindow : Window := ⟨300 * NANOS_PER_SEC, 5⟩

/-- Two creations of records, at three points each. -/
def sampleChecks : List Check := [⟨"did:plc:a", 3, 0⟩, ⟨"did:plc:a", 3, NANOS_PER_SEC⟩]

theorem limiter_plain_sample :
    ((MultiWindowLimiter.new [sampleWindow]).run sampleChecks).map
      (fun d => (d.allowed, d.remaining.toNat)) = [(true, 2), (false, 0)] := by
  have hPlain := (limiter_plain [sampleWindow] sampleChecks (by decide)).plain
  rw [hPlain]
  decide +kernel

/-- The second is rejected and reports no points, though two are left. -/
theorem limiter_rejected_remaining :
    ¬ ∀ (windows : List Window) (checks : List Check) (c : Check),
      ((checks ++ [c]).map Check.now).Pairwise (· ≤ ·) →
      (((MultiWindowLimiter.new windows).after checks).check c).1.remaining.toNat =
        ((windows.map (headroom c.now 0 (historyAfter windows (longestWindow windows)
          (fun _ => []) (checks ++ [c]) c.key))).min?).getD 0 := by
  intro h
  have hSecond := h [sampleWindow] [⟨"did:plc:a", 3, 0⟩] ⟨"did:plc:a", 3, NANOS_PER_SEC⟩
    (by decide)
  exact absurd hSecond (by decide +kernel)

end Ezpds.Auth
