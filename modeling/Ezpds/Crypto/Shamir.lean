import Ezpds.Crypto.GaloisField
import Ezpds.Library.Except
import Ezpds.Library.LinearSharing

/-!
# Splitting a secret into three shares

A secret of 32 bytes is split along a line of random slope into its values at one, two and
three, and combined again from two of them.

* `combineShares_shareData`: two shares give the secret back.
* `splitSecret_perfectSecrecy`: one share alone is uniform, whatever the secret.
-/

namespace Ezpds.Crypto

open Library

/-- `[u8; 32]` -/
abbrev Bytes32 := Fin 32 → UInt8

structure ShamirShare where
  index : UInt8
  data : Bytes32
  deriving DecidableEq

/-- The polynomial `secret + coeffs·x` at `x`. -/
def shareData (secret coeffs : Bytes32) (x : UInt8) : Bytes32 :=
  fun i => gfAdd (secret i) (gfMul (coeffs i) x)

/-- `fill` is what the generator of the system writes into the buffer of the coefficients. -/
def splitSecret (fill : Except String Bytes32) (secret : Bytes32) :
    Except CryptoError (Fin 3 → ShamirShare) := do
  let coeffs ← fill.mapError fun e => CryptoError.secretSharing ("OS RNG unavailable: " ++ e)
  return ![⟨1, shareData secret coeffs 1⟩, ⟨2, shareData secret coeffs 2⟩,
    ⟨3, shareData secret coeffs 3⟩]

def combineShares (a b : ShamirShare) : Except CryptoError Bytes32 := do
  check (!(a.index == 0 || a.index > 3 || b.index == 0 || b.index > 3))
    (.secretReconstruction "share index must be in [1, 3]")
  check (!(a.index == b.index)) (.secretReconstruction "shares must have distinct indices")
  let denom := gfAdd a.index b.index
  let la ← gfDiv b.index denom
  let lb ← gfDiv a.index denom
  return fun i => gfAdd (gfMul (a.data i) la) (gfMul (b.data i) lb)

/-! ## Shares are points of a line -/

theorem Gf.sub_eq_add (a b : Gf) : a - b = a + b := rfl

theorem shareData_linearShare (secret coeffs : Bytes32) (x : UInt8) (i : Fin 32) :
    (⟨shareData secret coeffs x i⟩ : Gf) =
      linearShare (fun i => ⟨secret i⟩) (fun i => ⟨coeffs i⟩) ⟨x⟩ i := rfl

/-- The index of a share. -/
def shareIndex (j : Fin 3) : UInt8 := UInt8.ofNat (j + 1)

theorem splitSecret_ok {fill : Except String Bytes32} {secret : Bytes32}
    {shares : Fin 3 → ShamirShare} :
    splitSecret fill secret = .ok shares ↔
      ∃ coeffs, fill = .ok coeffs ∧
        shares = fun j => ⟨shareIndex j, shareData secret coeffs (shareIndex j)⟩ := by
  have hShares : ∀ coeffs, (![⟨1, shareData secret coeffs 1⟩, ⟨2, shareData secret coeffs 2⟩,
      ⟨3, shareData secret coeffs 3⟩] : Fin 3 → ShamirShare) =
        fun j => ⟨shareIndex j, shareData secret coeffs (shareIndex j)⟩ := by
    intro coeffs
    funext j
    fin_cases j <;> rfl
  rw [splitSecret, bind_ok]
  apply exists_congr
  intro coeffs
  rw [mapError_ok, pure_ok, hShares]

/-! ## Two shares -/

theorem combineShares_shareData {x y : UInt8} (hx : x ≠ 0 ∧ x ≤ 3) (hy : y ≠ 0 ∧ y ≤ 3)
    (hNe : x ≠ y) (secret coeffs : Bytes32) :
    combineShares ⟨x, shareData secret coeffs x⟩ ⟨y, shareData secret coeffs y⟩ = .ok secret := by
  have hField : (⟨x⟩ : Gf) ≠ ⟨y⟩ := fun hEq => hNe (congrArg Gf.byte hEq)
  have hDenom : (⟨x⟩ + ⟨y⟩ : Gf) ≠ 0 := by
    rw [← Gf.sub_eq_add]
    exact sub_ne_zero.mpr hField
  have hLeft : gfDiv y (gfAdd x y) = .ok ((⟨y⟩ : Gf) / (⟨y⟩ - ⟨x⟩)).byte := by
    rw [Gf.sub_eq_add, add_comm]
    exact @Gf.gfDiv_ok ⟨y⟩ _ hDenom
  have hRight : gfDiv x (gfAdd x y) = .ok ((⟨x⟩ : Gf) / (⟨x⟩ - ⟨y⟩)).byte :=
    @Gf.gfDiv_ok ⟨x⟩ _ hDenom
  rw [combineShares]
  apply bind_ok.mpr
  refine ⟨(), check_ok.mpr (by simp [hx, hy]), ?_⟩
  apply bind_ok.mpr
  refine ⟨(), check_ok.mpr (by simp [hNe]), ?_⟩
  apply bind_ok.mpr
  refine ⟨_, hLeft, ?_⟩
  apply bind_ok.mpr
  refine ⟨_, hRight, pure_ok.mpr ?_⟩
  funext i
  have hPoint := linearShare_interpolate hField (fun i => (⟨secret i⟩ : Gf))
    (fun i => ⟨coeffs i⟩) i
  exact (congrArg Gf.byte hPoint).symm

/-! ## One share -/

theorem shareData_bijective {x : UInt8} (h : x ≠ 0) (secret : Bytes32) :
    Function.Bijective fun coeffs => shareData secret coeffs x := by
  have hField : (⟨x⟩ : Gf) ≠ 0 := fun hZero => h (congrArg Gf.byte hZero)
  have hLine := linearShare_bijective hField (fun i : Fin 32 => ⟨secret i⟩)
  let vector : Bytes32 ≃ (Fin 32 → Gf) := Equiv.arrowCongr (Equiv.refl _) Gf.equivByte.symm
  exact vector.symm.bijective.comp (hLine.comp vector.bijective)

/-- The data of every share is a bijection of the coefficients, so that for coefficients drawn
uniformly it is distributed in the same way for all secrets. -/
theorem splitSecret_perfectSecrecy (j : Fin 3) :
    ∃ data : Bytes32 → Bytes32 → Bytes32,
      (∀ secret coeffs, ∃ shares, splitSecret (.ok coeffs) secret = .ok shares ∧
        (shares j).data = data secret coeffs) ∧
      (∀ secret, Function.Bijective (data secret)) ∧
      ∀ secret secret', (PMF.uniformOfFintype Bytes32).map (data secret) =
        (PMF.uniformOfFintype Bytes32).map (data secret') := by
  have hNonzero : shareIndex j ≠ 0 := by
    fin_cases j <;> decide
  refine ⟨fun secret coeffs => shareData secret coeffs (shareIndex j), ?_, ?_, ?_⟩
  · intro secret coeffs
    exact ⟨_, splitSecret_ok.mpr ⟨coeffs, rfl, rfl⟩, rfl⟩
  · exact shareData_bijective hNonzero
  · intro secret secret'
    rw [map_uniformOfFintype (shareData_bijective hNonzero secret),
      map_uniformOfFintype (shareData_bijective hNonzero secret')]

end Ezpds.Crypto
