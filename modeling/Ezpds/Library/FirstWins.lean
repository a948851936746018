import Ezpds.Library.KeyedRows

/-!
# Maps that keep the first value of a key

Entries are put into a map one after the other, and a key that is there already keeps its
value.

* `keyed_firstWins`: no key comes twice.
* `mem_firstWins`: the map has, for each key, the first entry that was offered for it.
-/

namespace Ezpds.Library

variable {κ β : Type} [DecidableEq κ]

/-- `Entry::Vacant`. -/
def insertVacant (rows : List (κ × β)) (e : κ × β) : List (κ × β) :=
  if rows.any fun row => row.1 = e.1 then rows else rows ++ [e]

def firstWins (rows es : List (κ × β)) : List (κ × β) :=
  es.foldl insertVacant rows

variable {rows es : List (κ × β)} {e d : κ × β}

theorem any_key : (rows.any fun row => row.1 = e.1) = true ↔ ∃ row ∈ rows, row.1 = e.1 := by
  simp

theorem keyed_insertVacant (h : Keyed Prod.fst rows) : Keyed Prod.fst (insertVacant rows e) := by
  rw [insertVacant]
  split
  · exact h
  · rename_i hVacant
    refine h.append ?_
    intro row hRow hKey
    exact hVacant (any_key.mpr ⟨row, hRow, hKey⟩)

theorem keyed_firstWins (h : Keyed Prod.fst rows) : Keyed Prod.fst (firstWins rows es) := by
  induction es generalizing rows with
  | nil => exact h
  | cons e es ih => exact ih (keyed_insertVacant h)

theorem mem_insertVacant :
    d ∈ insertVacant rows e ↔ d ∈ rows ∨ (d = e ∧ ∀ row ∈ rows, row.1 ≠ e.1) := by
  rw [insertVacant]
  split
  · rename_i hTaken
    obtain ⟨row, hRow, hKey⟩ := any_key.mp hTaken
    constructor
    · exact Or.inl
    · rintro (h | ⟨_, hFresh⟩)
      · exact h
      · exact absurd hKey (hFresh row hRow)
  · rename_i hVacant
    have hFresh : ∀ row ∈ rows, row.1 ≠ e.1 :=
      fun row hRow hKey => hVacant (any_key.mpr ⟨row, hRow, hKey⟩)
    rw [List.mem_append, List.mem_singleton, and_iff_left hFresh]

theorem mem_firstWins : d ∈ firstWins rows es ↔
    d ∈ rows ∨ (es.find? (fun e => e.1 = d.1) = some d ∧ ∀ row ∈ rows, row.1 ≠ d.1) := by
  induction es generalizing rows with
  | nil => simp [firstWins]
  | cons e es ih =>
    have hFold : firstWins rows (e :: es) = firstWins (insertVacant rows e) es := rfl
    have hKeys : (∀ row ∈ insertVacant rows e, row.1 ≠ d.1) ↔
        (∀ row ∈ rows, row.1 ≠ d.1) ∧ e.1 ≠ d.1 := by
      constructor
      · intro h
        have hRows : ∀ row ∈ rows, row.1 ≠ d.1 :=
          fun row hRow => h row (mem_insertVacant.mpr (Or.inl hRow))
        refine ⟨hRows, ?_⟩
        intro hKey
        refine h e (mem_insertVacant.mpr (Or.inr ⟨rfl, ?_⟩)) hKey
        intro row hRow
        rw [hKey]
        exact hRows row hRow
      · rintro ⟨hRows, hNe⟩ row hRow
        rcases mem_insertVacant.mp hRow with hRow | ⟨rfl, _⟩
        · exact hRows row hRow
        · exact hNe
    rw [hFold, ih, hKeys, mem_insertVacant]
    by_cases hKey : e.1 = d.1
    · rw [List.find?_cons_of_pos (by simpa using hKey)]
      simp only [hKey, ne_eq, not_true_eq_false, and_false, or_false, Option.some.injEq,
        eq_comm (a := e)]
    · have hNe : d ≠ e := fun h => hKey (by rw [h])
      rw [List.find?_cons_of_neg (by simpa using hKey)]
      simp [hKey, hNe]

end Ezpds.Library
