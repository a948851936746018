import Mathlib.Data.List.Basic
import Mathlib.Tactic.Common

/-!
# Stores whose items are kept by owners

Items are stored once, and rows name who owns which item. An item may go once nobody owns
it, unless it is pinned. That every owned and every pinned item is stored is part of the
structure, so no operation can leave a row that names a missing item.

* `Keeps.mem`: a kept item is stored.
* `keeps_putAll`, `Keeps.release`, `keeps_reclaim`: who keeps what after each operation.
-/

namespace Ezpds.Library

variable {ω ι : Type} [DecidableEq ω] [DecidableEq ι]

structure OwnedStore (ω ι : Type) where
  items : List ι
  owners : List (ω × ι)
  pinned : List ι
  owned_mem : ∀ o ∈ owners, o.2 ∈ items
  pinned_mem : ∀ c ∈ pinned, c ∈ items

namespace OwnedStore

def empty : OwnedStore ω ι where
  items := []
  owners := []
  pinned := []
  owned_mem := by simp
  pinned_mem := by simp

/-- Store the item unless it is there, and record the owner unless it is recorded. -/
def put (s : OwnedStore ω ι) (o : ω) (c : ι) : OwnedStore ω ι where
  items := s.items.insert c
  owners := s.owners.insert (o, c)
  pinned := s.pinned
  owned_mem := by
    intro e he
    rcases List.mem_insert_iff.mp he with rfl | he
    · exact List.mem_insert_self
    · exact List.mem_insert_of_mem (s.owned_mem e he)
  pinned_mem := fun c' hc' => List.mem_insert_of_mem (s.pinned_mem c' hc')

def putAll (s : OwnedStore ω ι) (o : ω) (cs : List ι) : OwnedStore ω ι :=
  cs.foldl (fun s c => s.put o c) s

/-- Drop the rows of `o` for the items `cs`. -/
def release (s : OwnedStore ω ι) (o : ω) (cs : List ι) : OwnedStore ω ι where
  items := s.items
  owners := s.owners.filter fun e => ¬ (e.1 = o ∧ e.2 ∈ cs)
  pinned := s.pinned
  owned_mem := fun e he => s.owned_mem e (List.mem_filter.mp he).1
  pinned_mem := s.pinned_mem

/-- Drop those of the items `cs` that are not pinned and that nobody owns. -/
def reclaim (s : OwnedStore ω ι) (cs : List ι) : OwnedStore ω ι where
  items := s.items.filter fun c => ¬ (c ∈ cs ∧ c ∉ s.pinned ∧ c ∉ s.owners.map Prod.snd)
  owners := s.owners
  pinned := s.pinned
  owned_mem := by
    intro e he
    have hOwned : e.2 ∈ s.owners.map Prod.snd := List.mem_map_of_mem he
    simp [s.owned_mem e he, hOwned]
  pinned_mem := by
    intro c hc
    simp [s.pinned_mem c hc, hc]

/-- The items that `o` owns. -/
def ownedBy (s : OwnedStore ω ι) (o : ω) : List ι :=
  (s.owners.filter fun e => e.1 = o).map Prod.snd

/-- No reclaim can drop `c` while `o` owns it or it is pinned. -/
def Keeps (s : OwnedStore ω ι) (o : ω) (c : ι) : Prop :=
  (o, c) ∈ s.owners ∨ c ∈ s.pinned

variable {s : OwnedStore ω ι} {o o' : ω} {c : ι} {cs : List ι}

omit [DecidableEq ω] [DecidableEq ι] in
theorem Keeps.mem (h : s.Keeps o c) : c ∈ s.items := by
  rcases h with hOwned | hPinned
  · exact s.owned_mem (o, c) hOwned
  · exact s.pinned_mem c hPinned

theorem keeps_put {c' : ι} :
    (s.put o' c').Keeps o c ↔ s.Keeps o c ∨ (o = o' ∧ c = c') := by
  simp only [Keeps, put, List.mem_insert_iff, Prod.mk.injEq]
  tauto

theorem keeps_putAll : (s.putAll o' cs).Keeps o c ↔ s.Keeps o c ∨ (o = o' ∧ c ∈ cs) := by
  induction cs generalizing s with
  | nil => simp [putAll]
  | cons c' cs ih =>
    have hStep : s.putAll o' (c' :: cs) = (s.put o' c').putAll o' cs := rfl
    rw [hStep, ih, keeps_put, List.mem_cons]
    tauto

theorem Keeps.putAll (h : s.Keeps o c) : (s.putAll o' cs).Keeps o c :=
  keeps_putAll.mpr (Or.inl h)

/-- Another owner's rows, and items that are not released, stay. -/
theorem Keeps.release (h : s.Keeps o c) (hOther : o = o' → c ∉ cs) :
    (s.release o' cs).Keeps o c := by
  rcases h with hOwned | hPinned
  · left
    refine List.mem_filter.mpr ⟨hOwned, ?_⟩
    simpa [← not_and_or] using fun h => hOther h
  · exact Or.inr hPinned

omit [DecidableEq ω] in
theorem keeps_reclaim : (s.reclaim cs).Keeps o c ↔ s.Keeps o c := Iff.rfl

end OwnedStore

end Ezpds.Library
