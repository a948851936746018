import Mathlib.Data.List.Nodup
import Mathlib.Tactic.Common

/-!
# Rows under a primary key

A table is the list of its rows. `updateWhere` and `deleteWhere` are the statements that
change the rows that satisfy a condition, and `Keyed key rows` says that no two rows share
their key.

* `Keyed.append`, `Keyed.updateWhere`, `Keyed.deleteWhere`: the key survives every
  statement.
* `find?_deleteWhere`, `find?_deleteWhere_of_find?`: lookups that a deletion leaves alone.
* `countP_updateWhere_le`: an update that makes no row satisfy a condition.
* `Keyed.find?_eq`: a lookup by key finds the row that has it.
* `Keyed.countP_le_one`, `Keyed.countP_eq_one_iff`: what the number of changed rows tells.
-/

namespace Ezpds.Library

variable {ρ κ : Type*}

def updateWhere (p : ρ → Bool) (f : ρ → ρ) (rows : List ρ) : List ρ :=
  rows.map fun row => if p row then f row else row

def deleteWhere (p : ρ → Bool) (rows : List ρ) : List ρ :=
  rows.filter fun row => !p row

def Keyed (key : ρ → κ) (rows : List ρ) : Prop :=
  (rows.map key).Nodup

instance [DecidableEq κ] (key : ρ → κ) (rows : List ρ) : Decidable (Keyed key rows) :=
  inferInstanceAs (Decidable (List.Nodup _))

variable {p q : ρ → Bool} {f : ρ → ρ} {rows : List ρ} {row other : ρ} {key : ρ → κ}

theorem mem_updateWhere :
    row ∈ updateWhere p f rows ↔ ∃ old ∈ rows, row = if p old then f old else old := by
  rw [updateWhere, List.mem_map]
  constructor
  · rintro ⟨old, hOld, rfl⟩
    exact ⟨old, hOld, rfl⟩
  · rintro ⟨old, hOld, rfl⟩
    exact ⟨old, hOld, rfl⟩

theorem mem_deleteWhere : row ∈ deleteWhere p rows ↔ row ∈ rows ∧ p row = false := by
  rw [deleteWhere, List.mem_filter, Bool.not_eq_true']

/-- A deletion does not touch a lookup that asks for other rows. -/
theorem find?_deleteWhere (h : ∀ row, q row = true → p row = false) :
    (deleteWhere p rows).find? q = rows.find? q := by
  rw [deleteWhere, List.find?_filter]
  congr 1
  funext row
  cases hq : q row with
  | true => simp [h row hq]
  | false => simp

theorem find?_deleteWhere_of_find? (hFind : rows.find? q = some row) (hp : p row = false) :
    (deleteWhere p rows).find? q = some row := by
  induction rows with
  | nil => cases hFind
  | cons other rows ih =>
    rw [deleteWhere, List.filter_cons]
    rw [List.find?_cons] at hFind
    split at hFind
    · rename_i hq
      cases hFind
      rw [hp, Bool.not_false, if_pos rfl, List.find?_cons, hq]
    · rename_i hq
      split
      · rw [List.find?_cons, hq]
        exact ih hFind
      · exact ih hFind

theorem map_updateWhere (hKey : ∀ row, key (f row) = key row) :
    (updateWhere p f rows).map key = rows.map key := by
  rw [updateWhere, List.map_map]
  apply List.map_congr_left
  intro row _
  rw [Function.comp_apply]
  split
  · exact hKey row
  · rfl

/-- Rows that a statement may change only into rows that counted before it. -/
theorem countP_updateWhere_le (h : ∀ row, p row = true → q (f row) = true → q row = true) :
    (updateWhere p f rows).countP q ≤ rows.countP q := by
  rw [updateWhere, List.countP_map]
  apply List.countP_mono_left
  intro row _ hCounts
  rw [Function.comp_apply] at hCounts
  split at hCounts
  · rename_i hChanged
    exact h row hChanged hCounts
  · exact hCounts

namespace Keyed

theorem nil : Keyed key ([] : List ρ) :=
  List.nodup_nil

theorem append (h : Keyed key rows) (hFresh : ∀ old ∈ rows, key old ≠ key row) :
    Keyed key (rows ++ [row]) := by
  rw [Keyed, List.map_append, List.map_singleton, ← List.concat_eq_append]
  apply List.Nodup.concat _ h
  intro hMem
  obtain ⟨old, hOld, hEq⟩ := List.mem_map.mp hMem
  exact hFresh old hOld hEq

theorem updateWhere (h : Keyed key rows) (hKey : ∀ row, key (f row) = key row) :
    Keyed key (updateWhere p f rows) := by
  rw [Keyed, map_updateWhere hKey]
  exact h

theorem deleteWhere (h : Keyed key rows) : Keyed key (deleteWhere p rows) := by
  rw [Keyed, Library.deleteWhere]
  exact List.Nodup.sublist (List.filter_sublist.map key) h

theorem eq_of_key (h : Keyed key rows) (hRow : row ∈ rows) (hOther : other ∈ rows)
    (hEq : key row = key other) : row = other :=
  List.inj_on_of_nodup_map h hRow hOther hEq

/-- A lookup that asks for a key finds the row with that key, if it finds any. -/
theorem find?_eq (h : Keyed key rows) (hRow : row ∈ rows) (hp : p row = true)
    (hKey : ∀ other, p other = true → key other = key row) : rows.find? p = some row := by
  cases hFind : rows.find? p with
  | none =>
    have hNone := List.find?_eq_none.mp hFind row hRow
    exact absurd hp hNone
  | some other =>
    have hOther := List.find?_some hFind
    rw [h.eq_of_key (List.mem_of_find?_eq_some hFind) hRow (hKey other hOther)]

/-- Rows that all have one key are one row at most. -/
theorem countP_le_one (h : Keyed key rows)
    (hKey : ∀ a ∈ rows, ∀ b ∈ rows, p a = true → p b = true → key a = key b) :
    rows.countP p ≤ 1 := by
  rw [List.countP_eq_length_filter]
  have hNodup : (rows.filter p).Nodup := (List.Nodup.of_map key h).filter p
  cases hKept : rows.filter p with
  | nil => simp
  | cons a kept =>
    have hSame : ∀ b ∈ rows.filter p, b = a := by
      intro b hb
      have ha : a ∈ rows.filter p := hKept ▸ List.mem_cons_self
      obtain ⟨hb, hpb⟩ := List.mem_filter.mp hb
      obtain ⟨ha, hpa⟩ := List.mem_filter.mp ha
      exact h.eq_of_key hb ha (hKey b hb a ha hpb hpa)
    rw [hKept, List.nodup_cons] at hNodup
    cases kept with
    | nil => simp
    | cons b kept =>
      have hb : b = a := hSame b (by rw [hKept]; simp)
      exact absurd (hb ▸ List.mem_cons_self) hNodup.1

/-- A statement that asks for a key changes one row exactly when there is one to change. -/
theorem countP_eq_one_iff (h : Keyed key rows)
    (hKey : ∀ a b, p a = true → p b = true → key a = key b) :
    rows.countP p = 1 ↔ ∃ row ∈ rows, p row = true := by
  have hLe := h.countP_le_one fun a _ b _ => hKey a b
  rw [← List.countP_pos_iff]
  omega

end Keyed

end Ezpds.Library
