import Ezpds.Library.SortedMap
import Mathlib.Data.List.Induction

/-!
# Logs of map edits

An edit names a key, the value it found there and the value it left. A log whose edits
each found what the ones before had left can be replayed, undone from its end, and
counted from its entries alone.

* `undo_apply`: undoing a chained log backwards restores the map.
* `weight_applyAll`: a sum over the entries changes by the sum of the deltas of the log;
  `count_applyAll` is the number of keys.
* `get?_applyAll`: what a key holds at the end is what the last edit of it left.
-/

namespace Ezpds.Library

variable {κ β γ : Type} [LinearOrder κ]

structure Edit (κ β : Type) where
  key : κ
  prev : Option β
  next : Option β

namespace Edit

def apply (m : SortedMap κ β) (e : Edit κ β) : SortedMap κ β :=
  m.set e.key e.next

def undo (m : SortedMap κ β) (e : Edit κ β) : SortedMap κ β :=
  m.set e.key e.prev

def applyAll (m : SortedMap κ β) (es : List (Edit κ β)) : SortedMap κ β :=
  es.foldl apply m

def undoAll (m : SortedMap κ β) (es : List (Edit κ β)) : SortedMap κ β :=
  es.reverse.foldl undo m

/-- Every edit found in the map what the edits before it had left. -/
def Chained : SortedMap κ β → List (Edit κ β) → Prop
  | _, [] => True
  | m, e :: es => m.get? e.key = e.prev ∧ Chained (e.apply m) es

/-- By how much the edit changes the number of keys. -/
def delta (e : Edit κ β) : Int :=
  presence e.next - presence e.prev

def mapValues (f : β → γ) (e : Edit κ β) : Edit κ γ where
  key := e.key
  prev := e.prev.map f
  next := e.next.map f

/-- By how much the edit changes a sum over the entries. -/
def weightDelta {G : Type} [AddCommGroup G] (w : κ → β → G) (e : Edit κ β) : G :=
  heldWeight w e.key e.next - heldWeight w e.key e.prev

variable {m : SortedMap κ β} {es es' : List (Edit κ β)}

@[simp] theorem applyAll_nil : applyAll m [] = m := rfl

@[simp] theorem applyAll_cons {e : Edit κ β} :
    applyAll m (e :: es) = applyAll (e.apply m) es := rfl

theorem applyAll_append : applyAll m (es ++ es') = applyAll (applyAll m es) es' :=
  List.foldl_append

theorem chained_append :
    Chained m (es ++ es') ↔ Chained m es ∧ Chained (applyAll m es) es' := by
  induction es generalizing m with
  | nil => simp [Chained]
  | cons e es ih => simp only [List.cons_append, Chained, applyAll_cons, ih, and_assoc]

theorem undoAll_cons {e : Edit κ β} : undoAll m (e :: es) = e.undo (undoAll m es) := by
  simp [undoAll, List.foldl_append]

/-- Undoing a chained log, last edit first, restores the map. -/
theorem undoAll_applyAll (h : Chained m es) : undoAll (applyAll m es) es = m := by
  induction es generalizing m with
  | nil => rfl
  | cons e es ih =>
    obtain ⟨hPrev, hRest⟩ := h
    rw [undoAll_cons, applyAll_cons, ih hRest, undo, apply, SortedMap.set_set, ← hPrev,
      SortedMap.set_get?]

/-- An edit that found nothing and left nothing changes nothing. -/
theorem apply_noop {e : Edit κ β} (hPrev : m.get? e.key = e.prev) (hNext : e.next = e.prev) :
    e.apply m = m := by
  rw [apply, hNext, ← hPrev, SortedMap.set_get?]

theorem weight_applyAll {G : Type} [AddCommGroup G] {w : κ → β → G} (h : Chained m es) :
    (applyAll m es).weight w = m.weight w + (es.map (weightDelta w)).sum := by
  induction es generalizing m with
  | nil => simp
  | cons e es ih =>
    obtain ⟨hPrev, hRest⟩ := h
    rw [applyAll_cons, ih hRest, apply, SortedMap.weight_set, hPrev, List.map_cons,
      List.sum_cons, weightDelta, add_assoc]

theorem count_applyAll {p : κ → Bool} (hp : ∀ e ∈ es, p e.key = true) (h : Chained m es) :
    ((applyAll m es).count p : Int) = m.count p + (es.map delta).sum := by
  induction es generalizing m with
  | nil => simp
  | cons e es ih =>
    obtain ⟨hPrev, hRest⟩ := h
    have hTail := ih (fun d hd => hp d (List.mem_cons_of_mem _ hd)) hRest
    have hHead := @SortedMap.count_set κ β _ m e.key e.next p
    rw [if_pos (hp e List.mem_cons_self), hPrev] at hHead
    rw [applyAll_cons, hTail, apply, hHead, List.map_cons, List.sum_cons, delta]
    omega

theorem size_applyAll (h : Chained m es) :
    ((applyAll m es).size : Int) = m.size + (es.map delta).sum := by
  rw [← SortedMap.count_true, ← SortedMap.count_true]
  exact count_applyAll (fun _ _ => rfl) h

/-- The edit of `k` that comes last. -/
def lastAt (k : κ) (es : List (Edit κ β)) : Option (Edit κ β) :=
  es.reverse.find? fun e => e.key = k

theorem get?_applyAll {k : κ} :
    (applyAll m es).get? k = (lastAt k es).elim (m.get? k) Edit.next := by
  induction es using List.reverseRecOn with
  | nil => rfl
  | append_singleton es e ih =>
    have hLast : lastAt k (es ++ [e]) = if e.key = k then some e else lastAt k es := by
      by_cases h : e.key = k
      · simp [lastAt, h]
      · simp [lastAt, h]
    rw [applyAll_append, applyAll_cons, applyAll_nil, apply, SortedMap.get?_set, ih, hLast]
    by_cases h : e.key = k
    · rw [if_pos h, if_pos h]
      rfl
    · rw [if_neg h, if_neg h]

theorem get?_applyAll_of_forall_ne {k : κ} (h : ∀ e ∈ es, e.key ≠ k) :
    (applyAll m es).get? k = m.get? k := by
  have hNone : lastAt k es = none := by
    rw [lastAt, List.find?_eq_none]
    intro e he
    simpa using h e (List.mem_reverse.mp he)
  rw [get?_applyAll, hNone, Option.elim_none]

theorem mapValues_applyAll {f : β → γ} :
    (applyAll m es).mapValues f = applyAll (m.mapValues f) (es.map (mapValues f)) := by
  induction es generalizing m with
  | nil => rfl
  | cons e es ih =>
    rw [applyAll_cons, ih, apply, SortedMap.mapValues_set]
    rfl

theorem chained_mapValues {f : β → γ} (h : Chained m es) :
    Chained (m.mapValues f) (es.map (mapValues f)) := by
  induction es generalizing m with
  | nil => trivial
  | cons e es ih =>
    obtain ⟨hPrev, hRest⟩ := h
    have hTail := ih hRest
    rw [apply, SortedMap.mapValues_set] at hTail
    refine ⟨?_, hTail⟩
    rw [SortedMap.get?_mapValues]
    exact congrArg (Option.map f) hPrev

end Edit

end Ezpds.Library
