import Mathlib.Data.List.Dedup
import Mathlib.Data.List.Sort
import Mathlib.Tactic.Common

/-!
# Sets as sorted lists

`sortedSet` is what iterating an ordered set gives: the elements of a list without
repetitions, in increasing order. It depends on the members only, so neither the order nor
the number of times that they were inserted shows.

* `sortedSet_congr`: the same members give the same list.
* `sortedSet_eq_self`: an increasing list is left as it is.
* `pairwise_sortBy`: a list sorted by a key is in the order of the keys.
-/

namespace Ezpds.Library

variable {α : Type*} [LinearOrder α]

def sortedSet (l : List α) : List α :=
  l.dedup.insertionSort (· ≤ ·)

variable {l l' : List α} {x : α}

@[simp] theorem mem_sortedSet : x ∈ sortedSet l ↔ x ∈ l := by
  rw [sortedSet, List.mem_insertionSort, List.mem_dedup]

@[simp] theorem sortedSet_eq_nil : sortedSet l = [] ↔ l = [] := by
  simp only [List.eq_nil_iff_forall_not_mem, mem_sortedSet]

theorem nodup_sortedSet : (sortedSet l).Nodup :=
  (List.perm_insertionSort _ _).nodup_iff.mpr (List.nodup_dedup l)

theorem sortedSet_increasing : (sortedSet l).Pairwise (· < ·) := by
  have hSorted : (sortedSet l).Pairwise (· ≤ ·) := List.pairwise_insertionSort _ _
  exact hSorted.imp₂ (fun _ _ => lt_of_le_of_ne) nodup_sortedSet

/-- Two increasing lists with the same members are equal. -/
theorem eq_of_increasing (hl : l.Pairwise (· < ·)) (hl' : l'.Pairwise (· < ·))
    (h : ∀ x, x ∈ l ↔ x ∈ l') : l = l' := by
  have hPerm : l.Perm l' :=
    (List.perm_ext_iff_of_nodup (hl.imp ne_of_lt) (hl'.imp ne_of_lt)).mpr h
  exact hPerm.eq_of_pairwise' (hl.imp le_of_lt) (hl'.imp le_of_lt)

theorem sortedSet_congr (h : ∀ x, x ∈ l ↔ x ∈ l') : sortedSet l = sortedSet l' :=
  eq_of_increasing sortedSet_increasing sortedSet_increasing fun x => by
    rw [mem_sortedSet, mem_sortedSet, h]

theorem sortedSet_eq_self (h : l.Pairwise (· < ·)) : sortedSet l = l :=
  eq_of_increasing sortedSet_increasing h fun _ => mem_sortedSet

/-- A list sorted by what its elements are mapped to. -/
theorem pairwise_sortBy {β γ : Type*} [LinearOrder γ] (f : β → γ) (l : List β) :
    (l.mergeSort fun a b => f a ≤ f b).Pairwise fun a b => f a ≤ f b := by
  have hSorted := @List.pairwise_mergeSort _ (fun a b => decide (f a ≤ f b))
    (fun a b c hab hbc => decide_eq_true (le_trans (of_decide_eq_true hab)
      (of_decide_eq_true hbc)))
    (fun a b => by simpa using le_total (f a) (f b)) l
  exact hSorted.imp of_decide_eq_true

end Ezpds.Library
