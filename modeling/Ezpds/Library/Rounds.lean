import Mathlib.Tactic.Common

/-!
# Loops with a measure

A loop goes through rounds. Each one fails, leaves with a result, or goes on from a new state.
The fuel that a loop is given is bookkeeping when a measure of the state falls in every round
that goes on.

* `loop_iff_rounds`: with enough fuel, a loop returns what its rounds come to.
-/

namespace Ezpds.Library

variable {σ β : Type} {round : σ → Option (σ ⊕ β)} {s : σ} {b : β}

/-- A round goes on with `inl`, and leaves with `inr`. -/
def loop (round : σ → Option (σ ⊕ β)) : Nat → σ → Option β
  | 0, _ => none
  | fuel + 1, s =>
    match round s with
    | some (.inl s') => loop round fuel s'
    | some (.inr b) => some b
    | none => none

inductive Rounds (round : σ → Option (σ ⊕ β)) : σ → β → Prop where
  | leave {s : σ} {b : β} (h : round s = some (.inr b)) : Rounds round s b
  | again {s s' : σ} {b : β} (h : round s = some (.inl s')) (rest : Rounds round s' b) :
      Rounds round s b

theorem rounds_of_loop {fuel : Nat} (h : loop round fuel s = some b) : Rounds round s b := by
  induction fuel generalizing s with
  | zero => cases h
  | succ fuel ih =>
    rw [loop] at h
    split at h
    · rename_i s' hRound
      exact .again hRound (ih h)
    · rename_i b' hRound
      cases h
      exact .leave hRound
    · cases h

theorem loop_of_rounds (measure : σ → Nat)
    (hLess : ∀ s s', round s = some (.inl s') → measure s' < measure s)
    {fuel : Nat} (hFuel : measure s < fuel) (h : Rounds round s b) :
    loop round fuel s = some b := by
  induction h generalizing fuel with
  | leave hRound =>
    obtain ⟨fuel, rfl⟩ := Nat.exists_eq_add_one_of_ne_zero (Nat.ne_of_gt (Nat.zero_lt_of_lt hFuel))
    rw [loop, hRound]
  | again hRound _ ih =>
    obtain ⟨fuel, rfl⟩ := Nat.exists_eq_add_one_of_ne_zero (Nat.ne_of_gt (Nat.zero_lt_of_lt hFuel))
    have hNext := hLess _ _ hRound
    rw [loop, hRound]
    exact ih (by omega)

theorem loop_iff_rounds (measure : σ → Nat)
    (hLess : ∀ s s', round s = some (.inl s') → measure s' < measure s)
    {fuel : Nat} (hFuel : measure s < fuel) : loop round fuel s = some b ↔ Rounds round s b :=
  ⟨rounds_of_loop, loop_of_rounds measure hLess hFuel⟩

/-- What every round keeps and what it leaves with, over all rounds. -/
theorem Rounds.induct {I : σ → Prop} {Q : β → Prop} (h : Rounds round s b)
    (hAgain : ∀ s s', I s → round s = some (.inl s') → I s')
    (hLeave : ∀ s b, I s → round s = some (.inr b) → Q b) (hStart : I s) : Q b := by
  induction h with
  | leave hRound => exact hLeave _ _ hStart hRound
  | again hRound _ ih => exact ih (hAgain _ _ hStart hRound)

end Ezpds.Library
