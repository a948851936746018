import Mathlib.Data.List.Basic
import Mathlib.Tactic.Common

/-!
# Parties that take steps of their own

The parties of a machine are a list of the phases that they are in. A new party is added at
the end, and a step of party `i` changes the phase at `i`.

* `forall_mem_set`, `forall_mem_append_singleton`: what holds of every phase.
* `exists_mem_set`: what holds of some phase.
* `countP_cons_toNat`, `countP_append_singleton`, `countP_set_add`: how many phases satisfy a
  condition, after one of them has changed.
-/

namespace Ezpds.Library

variable {α : Type*} {phases : List α} {i : Nat} {old new : α} {P : α → Prop}
  {p : α → Bool}

theorem forall_mem_set (h : ∀ x ∈ phases, P x) (hNew : P new) :
    ∀ x ∈ phases.set i new, P x := by
  intro x hx
  cases List.mem_or_eq_of_mem_set hx with
  | inl hOld => exact h x hOld
  | inr hEq => exact hEq ▸ hNew

theorem mem_set_new (h : phases[i]? = some old) : new ∈ phases.set i new :=
  List.mem_set (List.getElem?_eq_some_iff.mp h).1 new

/-- Somebody satisfies a condition still, when the party that moved kept it. -/
theorem exists_mem_set (h : ∃ x ∈ phases, P x) (hOld : phases[i]? = some old)
    (hKeep : P old → P new) : ∃ x ∈ phases.set i new, P x := by
  obtain ⟨x, hx, hPx⟩ := h
  obtain ⟨j, hj⟩ := List.mem_iff_getElem?.mp hx
  by_cases hSame : i = j
  · subst hSame
    have hEq : old = x := Option.some.inj (hOld.symm.trans hj)
    exact ⟨new, mem_set_new hOld, hKeep (hEq ▸ hPx)⟩
  · refine ⟨x, List.mem_iff_getElem?.mpr ⟨j, ?_⟩, hPx⟩
    rw [List.getElem?_set_ne hSame]
    exact hj

theorem forall_mem_append_singleton (h : ∀ x ∈ phases, P x) (hNew : P new) :
    ∀ x ∈ phases ++ [new], P x := by
  intro x hx
  rcases List.mem_append.mp hx with hx | hx
  · exact h x hx
  · rw [List.mem_singleton.mp hx]
    exact hNew

theorem countP_cons_toNat : (new :: phases).countP p = phases.countP p + (p new).toNat := by
  cases h : p new with
  | true => rw [List.countP_cons_of_pos h, Bool.toNat_true]
  | false => rw [List.countP_cons_of_neg (by simp [h]), Bool.toNat_false, Nat.add_zero]

theorem countP_append_singleton :
    (phases ++ [new]).countP p = phases.countP p + (p new).toNat := by
  rw [List.countP_append, countP_cons_toNat, List.countP_nil, Nat.zero_add]

theorem countP_set_add (p : α → Bool) (new : α) (h : phases[i]? = some old) :
    (phases.set i new).countP p + (p old).toNat = phases.countP p + (p new).toNat := by
  induction phases generalizing i with
  | nil => cases h
  | cons phase phases ih =>
    cases i with
    | zero =>
      cases h
      rw [List.set_cons_zero, countP_cons_toNat, countP_cons_toNat]
      omega
    | succ i =>
      have hRest := ih h
      rw [List.set_cons_succ, countP_cons_toNat, countP_cons_toNat]
      omega

end Ezpds.Library
