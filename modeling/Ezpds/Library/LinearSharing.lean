import Mathlib.Algebra.Field.Basic
import Mathlib.Probability.Distributions.Uniform
import Mathlib.Tactic.FieldSimp
import Mathlib.Tactic.Ring

/-!
# Sharing a secret along a line

Over a field, a secret is the value at zero of a line of random slope, and its shares are
values at other points. Two shares give the secret back, and one share alone is as random as
the slope, whatever the secret.

* `linearShare_interpolate`: two points determine the secret.
* `linearShare_bijective`: every share is reached, by one slope.
* `map_uniformOfFintype`: a bijection keeps the uniform distribution.
-/

namespace Ezpds.Library

variable {F ι : Type} [Field F]

/-- The share at `x`, component by component. -/
def linearShare (secret slope : ι → F) (x : F) : ι → F :=
  fun i => secret i + slope i * x

/-- Interpolation at zero. -/
theorem linearShare_interpolate {x y : F} (h : x ≠ y) (secret slope : ι → F) (i : ι) :
    linearShare secret slope x i * (y / (y - x)) + linearShare secret slope y i * (x / (x - y)) =
      secret i := by
  have hLeft : y - x ≠ 0 := sub_ne_zero.mpr h.symm
  have hRight : x / (x - y) = -(x / (y - x)) := by
    rw [← neg_sub y x, div_neg]
  rw [hRight, linearShare, linearShare]
  field_simp
  ring

theorem linearShare_bijective {x : F} (h : x ≠ 0) (secret : ι → F) :
    Function.Bijective fun slope => linearShare secret slope x := by
  constructor
  · intro slope slope' hEq
    funext i
    have hShare := congrFun hEq i
    exact mul_right_cancel₀ h (add_left_cancel hShare)
  · intro share
    refine ⟨fun i => (share i - secret i) / x, ?_⟩
    funext i
    show secret i + (share i - secret i) / x * x = share i
    rw [div_mul_cancel₀ _ h, add_sub_cancel]

/-- A bijection keeps the uniform distribution. -/
theorem map_uniformOfFintype {α : Type} [Fintype α] [Nonempty α] {f : α → α}
    (h : Function.Bijective f) :
    (PMF.uniformOfFintype α).map f = PMF.uniformOfFintype α := by
  ext b
  obtain ⟨a, rfl⟩ := h.surjective b
  rw [PMF.map_apply, tsum_eq_single a]
  · simp
  · intro a' hNe
    have hImage : f a ≠ f a' := fun hEq => hNe (h.injective hEq.symm)
    rw [if_neg hImage]

end Ezpds.Library
