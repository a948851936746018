import Ezpds.Library.KeyedRows

/-!
# Maps that keep the last value of a key

Values are put into a map one after the other, and a key that is there already takes the new
value.

* `keyed_lastWins`: no key comes twice.
* `mem_lastWins`: the map has, for each key, the last value that was offered for it.
* `exists_last`: a key that was offered has one.
-/

namespace Ezpds.Library

variable {ρ κ : Type} [DecidableEq κ]

/-- `HashMap::insert`, on the values of a map under their keys. The order of the values tells
nothing. -/
def insertLast (key : ρ → κ) (rows : List ρ) (e : ρ) : List ρ :=
  deleteWhere (fun row => key row = key e) rows ++ [e]

def lastWins (key : ρ → κ) (rows es : List ρ) : List ρ :=
  es.foldl (insertLast key) rows

variable {key : ρ → κ} {rows es : List ρ} {e d : ρ}

theorem keyed_insertLast (h : Keyed key rows) : Keyed key (insertLast key rows e) := by
  have hRest : Keyed key (deleteWhere (fun row => key row = key e) rows) := h.deleteWhere
  refine hRest.append ?_
  intro old hOld
  simpa using (mem_deleteWhere.mp hOld).2

theorem keyed_lastWins (h : Keyed key rows) : Keyed key (lastWins key rows es) := by
  induction es generalizing rows with
  | nil => exact h
  | cons e es ih => exact ih (keyed_insertLast h)

theorem mem_insertLast : d ∈ insertLast key rows e ↔ (d ∈ rows ∧ key d ≠ key e) ∨ d = e := by
  rw [insertLast, List.mem_append, List.mem_singleton, mem_deleteWhere, decide_eq_false_iff_not]

theorem mem_lastWins : d ∈ lastWins key rows es ↔
    (d ∈ rows ∧ ∀ e ∈ es, key e ≠ key d) ∨
      ∃ before after, es = before ++ d :: after ∧ ∀ e ∈ after, key e ≠ key d := by
  induction es generalizing rows with
  | nil => simp [lastWins]
  | cons e es ih =>
    have hFold : lastWins key rows (e :: es) = lastWins key (insertLast key rows e) es := rfl
    rw [hFold, ih, mem_insertLast]
    constructor
    · rintro (⟨⟨hRow, hNe⟩ | rfl, hRest⟩ | ⟨before, after, rfl, hAfter⟩)
      · exact .inl ⟨hRow, List.forall_mem_cons.mpr ⟨hNe.symm, hRest⟩⟩
      · exact .inr ⟨[], es, rfl, hRest⟩
      · exact .inr ⟨e :: before, after, rfl, hAfter⟩
    · rintro (⟨hRow, hRest⟩ | ⟨before, after, hSplit, hAfter⟩)
      · obtain ⟨hNe, hRest⟩ := List.forall_mem_cons.mp hRest
        exact .inl ⟨.inl ⟨hRow, hNe.symm⟩, hRest⟩
      · cases before with
        | nil =>
          obtain ⟨rfl, rfl⟩ := List.cons.inj hSplit
          exact .inl ⟨.inr rfl, hAfter⟩
        | cons b before =>
          obtain ⟨rfl, rfl⟩ := List.cons.inj hSplit
          exact .inr ⟨before, after, rfl, hAfter⟩

/-- A key that was offered has a last value. -/
theorem exists_last (h : e ∈ es) : ∃ d before after, es = before ++ d :: after ∧
    key d = key e ∧ ∀ a ∈ after, key a ≠ key e := by
  cases hFind : es.reverse.find? fun d => decide (key d = key e) with
  | none =>
    have hNot := List.find?_eq_none.mp hFind e (List.mem_reverse.mpr h)
    exact absurd (decide_eq_true rfl) hNot
  | some d =>
    obtain ⟨hKey, after, before, hSplit, hAfter⟩ := List.find?_eq_some_iff_append.mp hFind
    refine ⟨d, before.reverse, after.reverse, ?_, by simpa using hKey, ?_⟩
    · rw [← List.reverse_reverse es, hSplit, List.reverse_append, List.reverse_cons,
        List.append_assoc, List.singleton_append]
    · intro a ha
      simpa using hAfter a (List.mem_reverse.mp ha)

end Ezpds.Library
