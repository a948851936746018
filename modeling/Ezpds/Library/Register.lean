import Mathlib.Data.List.Basic
import Mathlib.Order.Basic
import Mathlib.Order.Lattice
import Mathlib.Tactic.Common

/-!
# Newest-wins registers without tombstones

A register takes reports in any order and any number of times. A report carries a revision
and either a value or its removal, and counts only above the stored revision. A removal
leaves nothing behind, so the guard goes with the row: an older value that comes after a
removal is stored again.

* `settle_newest`: the newest report decides when it carries a value.
* `settle_eq_none_iff`: when nothing is stored at the end.
-/

namespace Ezpds.Library

variable {κ β : Type*} [LinearOrder κ]

/-- A report of the value at a revision; `none` removes it. -/
structure Report (κ β : Type*) where
  rev : κ
  value : Option β
  deriving DecidableEq, Repr

def deliver (stored : Option (κ × β)) (report : Report κ β) : Option (κ × β) :=
  if stored.any fun s => report.rev ≤ s.1 then stored
  else report.value.map fun v => (report.rev, v)

/-- What is stored once all of the reports are in. -/
def settle (stored : Option (κ × β)) (reports : List (Report κ β)) : Option (κ × β) :=
  reports.foldl deliver stored

/-- One of the reports is a removal above `rev`. -/
def RemovedAbove (rev : κ) (reports : List (Report κ β)) : Prop :=
  ∃ r ∈ reports, r.value = none ∧ rev < r.rev

/-- After every report of a value there is a removal above it. -/
def Superseded : List (Report κ β) → Prop
  | [] => True
  | report :: reports =>
    (report.value ≠ none → RemovedAbove report.rev reports) ∧ Superseded reports

variable {stored : Option (κ × β)} {report : Report κ β} {reports : List (Report κ β)}

@[simp] theorem settle_nil : settle stored ([] : List (Report κ β)) = stored := rfl

@[simp] theorem settle_cons :
    settle stored (report :: reports) = settle (deliver stored report) reports := rfl

theorem deliver_stale {s : κ × β} (h : report.rev ≤ s.1) :
    deliver (some s) report = some s := by
  simp [deliver, h]

theorem deliver_newer (h : ∀ s, stored = some s → s.1 < report.rev) :
    deliver stored report = report.value.map fun v => (report.rev, v) := by
  cases stored with
  | none => rfl
  | some s =>
    have hLt := h s rfl
    rw [deliver, if_neg]
    simpa using hLt

theorem removedAbove_cons {rev : κ} :
    RemovedAbove rev (report :: reports) ↔
      (report.value = none ∧ rev < report.rev) ∨ RemovedAbove rev reports := by
  simp [RemovedAbove]

theorem RemovedAbove.of_le {rev rev' : κ} (h : RemovedAbove rev reports) (hLe : rev' ≤ rev) :
    RemovedAbove rev' reports := by
  obtain ⟨r, hr, hNone, hLt⟩ := h
  exact ⟨r, hr, hNone, lt_of_le_of_lt hLe hLt⟩

/-- A row at the greatest revision stays. -/
theorem settle_greatest {s : κ × β} (hMax : ∀ r ∈ reports, r.rev ≤ s.1) :
    settle (some s) reports = some s := by
  induction reports with
  | nil => rfl
  | cons r reports ih =>
    rw [settle_cons, deliver_stale (hMax r List.mem_cons_self)]
    exact ih fun r' hr' => hMax r' (List.mem_cons_of_mem _ hr')

/-- When the reports of the greatest revision agree on a value, that value is stored at the
end, whatever the order of the reports. -/
theorem settle_newest {m : Report κ β} {v : β} (hMem : m ∈ reports) (hValue : m.value = some v)
    (hMax : ∀ r ∈ reports, r.rev ≤ m.rev)
    (hAgree : ∀ r ∈ reports, r.rev = m.rev → r.value = m.value)
    (hStored : ∀ s, stored = some s → s.1 < m.rev) :
    settle stored reports = some (m.rev, v) := by
  induction reports generalizing stored with
  | nil => cases hMem
  | cons r reports ih =>
    have hMaxRest : ∀ r' ∈ reports, r'.rev ≤ m.rev :=
      fun r' hr' => hMax r' (List.mem_cons_of_mem _ hr')
    rw [settle_cons]
    by_cases hRev : r.rev = m.rev
    · have hDeliver : deliver stored r = some (m.rev, v) := by
        rw [deliver_newer fun s hs => hRev ▸ hStored s hs,
          hAgree r List.mem_cons_self hRev, hValue, hRev]
        rfl
      rw [hDeliver]
      exact settle_greatest hMaxRest
    · have hLt : r.rev < m.rev := lt_of_le_of_ne (hMax r List.mem_cons_self) hRev
      apply ih
      · rcases List.mem_cons.mp hMem with rfl | hMem
        · exact absurd rfl hRev
        · exact hMem
      · exact hMaxRest
      · exact fun r' hr' => hAgree r' (List.mem_cons_of_mem _ hr')
      · intro s hs
        rw [deliver] at hs
        split at hs
        · exact hStored s hs
        · obtain ⟨_, _, rfl⟩ := Option.map_eq_some_iff.mp hs
          exact hLt

/-- Nothing is stored at the end exactly when a removal above it comes after every value
that was stored or reported. -/
theorem settle_eq_none_iff :
    settle stored reports = none ↔
      (∀ s, stored = some s → RemovedAbove s.1 reports) ∧ Superseded reports := by
  induction reports generalizing stored with
  | nil =>
    cases stored with
    | none => simp [Superseded]
    | some s => simp [Superseded, RemovedAbove]
  | cons r reports ih =>
    rw [settle_cons, Superseded]
    by_cases hStale : ∃ s, stored = some s ∧ r.rev ≤ s.1
    · obtain ⟨s, rfl, hLe⟩ := hStale
      -- the report is not above the row, so it does not remove it
      have hSkip : RemovedAbove s.1 (r :: reports) ↔ RemovedAbove s.1 reports := by
        rw [removedAbove_cons, or_iff_right]
        exact fun h => absurd h.2 (not_lt.mpr hLe)
      rw [deliver_stale hLe, ih]
      simp only [Option.some.injEq, forall_eq']
      rw [hSkip]
      constructor
      · intro h
        exact ⟨h.1, fun _ => h.1.of_le hLe, h.2⟩
      · intro h
        exact ⟨h.1, h.2.2⟩
    · have hNewer : ∀ s, stored = some s → s.1 < r.rev :=
        fun s hs => lt_of_not_ge fun hLe => hStale ⟨s, hs, hLe⟩
      rw [deliver_newer hNewer, ih]
      cases hValue : r.value with
      | none =>
        have hRemoves : ∀ s, stored = some s → RemovedAbove s.1 (r :: reports) :=
          fun s hs => removedAbove_cons.mpr (Or.inl ⟨hValue, hNewer s hs⟩)
        constructor
        · intro h
          exact ⟨hRemoves, fun hSome => absurd rfl hSome, h.2⟩
        · intro h
          refine ⟨?_, h.2.2⟩
          intro s hs
          cases hs
      | some v =>
        simp only [Option.map_some, Option.some.injEq, forall_eq', ne_eq, reduceCtorEq,
          not_false_eq_true, forall_const]
        constructor
        · intro h
          refine ⟨?_, h⟩
          intro s hs
          exact removedAbove_cons.mpr (Or.inr (h.1.of_le (le_of_lt (hNewer s hs))))
        · intro h
          exact h.2

end Ezpds.Library
