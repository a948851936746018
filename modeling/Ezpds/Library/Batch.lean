import Ezpds.Library.Edits

/-!
# Batches of conditional writes

A write of a map names a key, what the key must hold beforehand and what the write leaves
there. The writes of a batch apply in turn, each to what the ones before it left, and the
batch fails as a whole at the first write that is not admitted.

* `applyBatch_cons_some`: one write of a batch.
* `applyBatch_chained`: a batch that applies is a chained log of edits.
* `get?_batch`: what a key holds after a batch, by the last write that names it.
-/

namespace Ezpds.Library

variable {κ β : Type} [LinearOrder κ]

inductive Precondition where
  | absent
  | any
  | present
  deriving DecidableEq, Repr

def Precondition.admits : Precondition → Option β → Bool
  | absent, ov => ov.isNone
  | any, _ => true
  | present, ov => ov.isSome

structure Write (κ β : Type) where
  key : κ
  pre : Precondition
  next : Option β

/-- The edit that the write makes of `m`. -/
def Write.edit (m : SortedMap κ β) (w : Write κ β) : Edit κ β :=
  ⟨w.key, m.get? w.key, w.next⟩

/-- The edits of a batch, or `none` if one of its writes is not admitted. -/
def applyBatch : SortedMap κ β → List (Write κ β) → Option (List (Edit κ β))
  | _, [] => some []
  | m, w :: ws =>
    if w.pre.admits (m.get? w.key) then
      (applyBatch ((w.edit m).apply m) ws).map (w.edit m :: ·)
    else none

variable {m : SortedMap κ β} {w : Write κ β} {ws : List (Write κ β)} {es : List (Edit κ β)}

theorem applyBatch_cons_some :
    applyBatch m (w :: ws) = some es ↔
      w.pre.admits (m.get? w.key) = true ∧
        ∃ rest, applyBatch ((w.edit m).apply m) ws = some rest ∧ es = w.edit m :: rest := by
  rw [applyBatch]
  by_cases h : w.pre.admits (m.get? w.key) = true
  · rw [if_pos h, Option.map_eq_some_iff, and_iff_right h]
    constructor
    · rintro ⟨rest, hRest, rfl⟩
      exact ⟨rest, hRest, rfl⟩
    · rintro ⟨rest, hRest, rfl⟩
      exact ⟨rest, hRest, rfl⟩
  · rw [if_neg h]
    constructor
    · intro hNone
      cases hNone
    · rintro ⟨hAdmits, _⟩
      exact absurd hAdmits h

theorem applyBatch_chained (h : applyBatch m ws = some es) : Edit.Chained m es := by
  induction ws generalizing m es with
  | nil =>
    cases h
    trivial
  | cons w ws ih =>
    obtain ⟨_, rest, hRest, rfl⟩ := applyBatch_cons_some.mp h
    exact ⟨rfl, ih hRest⟩

/-- The edits follow the writes: the same keys, and the same values left. -/
theorem applyBatch_follows (h : applyBatch m ws = some es) :
    es.map (fun e => (e.key, e.next)) = ws.map fun w => (w.key, w.next) := by
  induction ws generalizing m es with
  | nil =>
    cases h
    rfl
  | cons w ws ih =>
    obtain ⟨_, rest, hRest, rfl⟩ := applyBatch_cons_some.mp h
    rw [List.map_cons, List.map_cons, ih hRest]
    rfl

/-- The last write of `k`. -/
def lastWrite (k : κ) (ws : List (Write κ β)) : Option (Write κ β) :=
  ws.reverse.find? fun w => w.key = k

theorem lastWrite_some {k : κ} (h : lastWrite k ws = some w) : w ∈ ws ∧ w.key = k :=
  ⟨List.mem_reverse.mp (List.mem_of_find?_eq_some h), by simpa using List.find?_some h⟩

theorem lastWrite_eq_none {k : κ} : lastWrite k ws = none ↔ ∀ w ∈ ws, w.key ≠ k := by
  simp [lastWrite]

/-- A key that some write of the batch names has a last write. -/
theorem exists_lastWrite (hw : w ∈ ws) :
    ∃ w', lastWrite w.key ws = some w' ∧ w' ∈ ws ∧ w'.key = w.key := by
  cases hLast : lastWrite w.key ws with
  | none => exact absurd rfl (lastWrite_eq_none.mp hLast w hw)
  | some w' => exact ⟨w', rfl, lastWrite_some hLast⟩

theorem lastAt_of_follows {k : κ}
    (h : es.map (fun e => (e.key, e.next)) = ws.map fun w => (w.key, w.next)) :
    (Edit.lastAt k es).map Edit.next = (lastWrite k ws).map Write.next := by
  have hRev : es.reverse.map (fun e => (e.key, e.next)) =
      ws.reverse.map fun w => (w.key, w.next) := by
    rw [List.map_reverse, List.map_reverse, h]
  rw [Edit.lastAt, lastWrite]
  generalize es.reverse = es at hRev
  generalize ws.reverse = ws at hRev
  induction ws generalizing es with
  | nil =>
    rw [List.map_eq_nil_iff.mp hRev]
    rfl
  | cons w ws ih =>
    cases es with
    | nil => cases hRev
    | cons e es =>
      rw [List.map_cons, List.map_cons] at hRev
      obtain ⟨hHead, hTail⟩ := List.cons.inj hRev
      obtain ⟨hKey, hNext⟩ := Prod.mk.inj hHead
      rw [List.find?_cons, List.find?_cons, hKey]
      by_cases hk : w.key = k
      · simp only [hk, decide_true, Option.map_some, hNext]
      · simp only [hk, decide_false]
        exact ih _ hTail

/-- A key holds what its last write left, and what it held before if the batch does not
write it. -/
theorem get?_batch {k : κ} (h : applyBatch m ws = some es) :
    (Edit.applyAll m es).get? k = ((lastWrite k ws).map Write.next).getD (m.get? k) := by
  rw [Edit.get?_applyAll, ← lastAt_of_follows (applyBatch_follows h)]
  cases Edit.lastAt k es <;> rfl

end Ezpds.Library
