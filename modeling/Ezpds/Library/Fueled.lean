import Mathlib.Tactic.Common

/-!
# Recursion on fuel

A recursive function that need not terminate is a step, which computes one call from the
function on further calls, iterated as often as there is fuel. When a measure falls on every
call that the step makes, the fuel is bookkeeping: enough of it gives a result, and more of
it the same one.

* `fueled_returns`: a measure that falls on every call bounds the fuel.
-/

namespace Ezpds.Library

variable {ι α : Type} {step : (ι → Option α) → ι → Option α} {calls : ι → ι → Prop}
  {measure : ι → Nat}

def fueled (step : (ι → Option α) → ι → Option α) : Nat → ι → Option α
  | 0, _ => none
  | fuel + 1, i => step (fueled step fuel) i

/-- From `i` the step calls for `calls i` only, and it returns if these calls do. -/
structure CallsOnly (step : (ι → Option α) → ι → Option α) (calls : ι → ι → Prop) : Prop where
  congr : ∀ f g i, (∀ j, calls i j → f j = g j) → step f i = step g i
  returns : ∀ f i, (∀ j, calls i j → (f j).isSome) → (step f i).isSome

theorem fueled_isSome (h : CallsOnly step calls) (hLess : ∀ i j, calls i j → measure j < measure i)
    {fuel : Nat} {i : ι} (hFuel : measure i < fuel) : (fueled step fuel i).isSome := by
  induction fuel generalizing i with
  | zero => omega
  | succ fuel ih =>
    apply h.returns
    intro j hCall
    have hJ := hLess i j hCall
    exact ih (by omega)

theorem fueled_stable (h : CallsOnly step calls) (hLess : ∀ i j, calls i j → measure j < measure i)
    {fuel fuel' : Nat} {i : ι} (hFuel : measure i < fuel) (hFuel' : measure i < fuel') :
    fueled step fuel i = fueled step fuel' i := by
  induction fuel generalizing fuel' i with
  | zero => omega
  | succ fuel ih =>
    cases fuel' with
    | zero => omega
    | succ fuel' =>
      apply h.congr
      intro j hCall
      have hJ := hLess i j hCall
      exact ih (by omega) (by omega)

/-- One result, whatever the fuel, as long as it exceeds the measure. -/
theorem fueled_returns (h : CallsOnly step calls)
    (hLess : ∀ i j, calls i j → measure j < measure i) (i : ι) :
    ∃ a, ∀ fuel, measure i < fuel → fueled step fuel i = some a := by
  obtain ⟨a, ha⟩ := Option.isSome_iff_exists.mp
    (fueled_isSome h hLess (Nat.lt_succ_self (measure i)))
  refine ⟨a, ?_⟩
  intro fuel hFuel
  rw [fueled_stable h hLess hFuel (Nat.lt_succ_self _)]
  exact ha

end Ezpds.Library
