import Ezpds.Crypto.CryptoError
import Ezpds.Library.Bytes
import Mathlib.Algebra.Field.MinimalAxioms
import Mathlib.Data.LawfulXor.Basic
import Mathlib.Data.FinEnum
import Mathlib.GroupTheory.OrderOfElement
import Mathlib.Tactic.NormNum.Prime
import Mathlib.Tactic.Ring

/-!
# Arithmetic of bytes

Bytes are the field of 256 elements: addition is exclusive or, and multiplication doubles
and adds, reducing by the polynomial `0x11b`. Multiplication is additive in each argument,
so its laws follow from those of the eight bits.

* `gfMul_xor_left`, `gfMul_xor_right`: multiplication is additive.
* `gfMul_comm`, `gfMul_assoc`, `gfMul_gfInv`: its laws.
* `Gf`: the field.
-/

namespace Ezpds.Crypto

open Library

def gfAdd (a b : UInt8) : UInt8 :=
  a ^^^ b

/-- One doubling: the mask is the sign of `a`. -/
def gfDouble (a : UInt8) : UInt8 :=
  let mask := (a.toInt8 >>> 7).toUInt8
  (a <<< 1) ^^^ (mask &&& 0x1b)

def gfMulLoop : Nat → UInt8 → UInt8 → UInt8 → UInt8
  | 0, _, _, result => result
  | rounds + 1, a, b, result =>
    gfMulLoop rounds (gfDouble a) (b >>> 1) (if b &&& 1 ≠ 0 then result ^^^ a else result)

def gfMul (a b : UInt8) : UInt8 :=
  gfMulLoop 8 a b 0

/-- The loop of the inverse; an exponent of eight bits is zero after eight rounds. -/
def gfPowLoop : Nat → UInt8 → UInt8 → UInt8 → UInt8
  | 0, result, _, _ => result
  | rounds + 1, result, base, exp =>
    if exp > 0 then
      gfPowLoop rounds (if exp &&& 1 ≠ 0 then gfMul result base else result) (gfMul base base)
        (exp >>> 1)
    else result

def gfInv (a : UInt8) : Except CryptoError UInt8 :=
  if a = 0 then .error (.secretReconstruction "GF(2^8) inverse of 0 is undefined")
  else .ok (gfPowLoop 8 1 a 254)

def gfDiv (a b : UInt8) : Except CryptoError UInt8 := do
  return gfMul a (← gfInv b)

/-! ## Bytes and their bits -/

/-- What holds of the bits and of sums holds of every byte. -/
theorem byte_induction {P : UInt8 → Prop} (zero : P 0) (xor : ∀ a b, P a → P b → P (a ^^^ b))
    (bit : ∀ i < 8, P (1 <<< UInt8.ofNat i)) (a : UInt8) : P a := by
  have hSum : ∀ n < 256, UInt8.ofNat n = (List.range 8).foldr (fun i sum =>
      (if n.testBit i then 1 <<< UInt8.ofNat i else 0) ^^^ sum) 0 := by
    decide +kernel
  apply byte_cases (P := P)
  intro n hn
  rw [hSum n hn]
  have hAll : ∀ l : List Nat, (∀ i ∈ l, i < 8) → P (l.foldr (fun i sum =>
      (if n.testBit i then 1 <<< UInt8.ofNat i else 0) ^^^ sum) 0) := by
    intro l
    induction l with
    | nil => exact fun _ => zero
    | cons i l ih =>
      intro hl
      apply xor
      · split
        · exact bit i (hl i List.mem_cons_self)
        · exact zero
      · exact ih fun j hj => hl j (List.mem_cons_of_mem i hj)
  exact hAll _ fun i hi => List.mem_range.mp hi

/-! ## Multiplication is additive -/

/-- `x` where the bit of `mask` is set. -/
def atBit (mask x a : UInt8) : UInt8 :=
  if a &&& mask ≠ 0 then x else 0

theorem atBit_xor {mask : UInt8} (hBit : ∀ a : UInt8, a &&& mask = 0 ∨ a &&& mask = mask)
    (x a b : UInt8) : atBit mask x (a ^^^ b) = atBit mask x a ^^^ atBit mask x b := by
  have hAnd : (a ^^^ b) &&& mask = (a &&& mask) ^^^ (b &&& mask) := by
    apply UInt8.toBitVec_inj.mp
    apply BitVec.eq_of_getLsbD_eq
    intro i _
    simp [Bool.and_xor_distrib_right]
  rw [atBit, atBit, atBit, hAnd]
  by_cases hMask : mask = 0
  · simp [hMask]
  rcases hBit a with ha | ha <;> rcases hBit b with hb | hb <;> simp [ha, hb, hMask]

/-- A byte holds the bit `i`, or it does not. -/
theorem and_twoPow_cases (a : UInt8) (i : Nat) :
    a.toBitVec &&& BitVec.twoPow 8 i = 0 ∨
      a.toBitVec &&& BitVec.twoPow 8 i = BitVec.twoPow 8 i := by
  rw [BitVec.and_twoPow]
  split
  · exact Or.inr rfl
  · exact Or.inl rfl

theorem highBit (a : UInt8) : a &&& 0x80 = 0 ∨ a &&& 0x80 = 0x80 := by
  rcases and_twoPow_cases a 7 with h | h
  · exact Or.inl (UInt8.toBitVec_inj.mp h)
  · exact Or.inr (UInt8.toBitVec_inj.mp h)

theorem lowBit (a : UInt8) : a &&& 1 = 0 ∨ a &&& 1 = 1 := by
  rcases and_twoPow_cases a 0 with h | h
  · exact Or.inl (UInt8.toBitVec_inj.mp h)
  · exact Or.inr (UInt8.toBitVec_inj.mp h)

theorem gfDouble_eq (a : UInt8) : gfDouble a = (a <<< 1) ^^^ atBit 0x80 0x1b a := by
  apply byte_cases (P := fun a => gfDouble a = (a <<< 1) ^^^ atBit 0x80 0x1b a)
  decide +kernel

theorem gfDouble_xor (a b : UInt8) : gfDouble (a ^^^ b) = gfDouble a ^^^ gfDouble b := by
  have hShift : (a ^^^ b) <<< 1 = (a <<< 1) ^^^ (b <<< 1) := by
    apply UInt8.toBitVec_inj.mp
    simp [BitVec.shiftLeft_xor_distrib]
  rw [gfDouble_eq, gfDouble_eq, gfDouble_eq, hShift, atBit_xor highBit]
  ac_rfl

theorem gfMulLoop_succ (rounds : Nat) (a b result : UInt8) :
    gfMulLoop (rounds + 1) a b result =
      gfMulLoop rounds (gfDouble a) (b >>> 1) (result ^^^ atBit 1 a b) := by
  rw [gfMulLoop, atBit]
  split
  · rfl
  · rw [LawfulXor.xor_zero]

theorem gfMulLoop_xor_left (rounds : Nat) (a a' b result result' : UInt8) :
    gfMulLoop rounds (a ^^^ a') b (result ^^^ result') =
      gfMulLoop rounds a b result ^^^ gfMulLoop rounds a' b result' := by
  induction rounds generalizing a a' b result result' with
  | zero => rfl
  | succ rounds ih =>
    have hBit : atBit 1 (a ^^^ a') b = atBit 1 a b ^^^ atBit 1 a' b := by
      rw [atBit, atBit, atBit]
      split <;> simp
    have hResult : result ^^^ result' ^^^ (atBit 1 a b ^^^ atBit 1 a' b) =
        (result ^^^ atBit 1 a b) ^^^ (result' ^^^ atBit 1 a' b) := by
      ac_rfl
    rw [gfMulLoop_succ, gfMulLoop_succ, gfMulLoop_succ, gfDouble_xor, hBit, hResult, ih]

theorem gfMulLoop_xor_right (rounds : Nat) (a b b' result result' : UInt8) :
    gfMulLoop rounds a (b ^^^ b') (result ^^^ result') =
      gfMulLoop rounds a b result ^^^ gfMulLoop rounds a b' result' := by
  induction rounds generalizing a b b' result result' with
  | zero => rfl
  | succ rounds ih =>
    have hShift : (b ^^^ b') >>> 1 = (b >>> 1) ^^^ (b' >>> 1) := by
      apply UInt8.toBitVec_inj.mp
      simp [BitVec.ushiftRight_xor_distrib]
    have hResult : result ^^^ result' ^^^ (atBit 1 a b ^^^ atBit 1 a b') =
        (result ^^^ atBit 1 a b) ^^^ (result' ^^^ atBit 1 a b') := by
      ac_rfl
    rw [gfMulLoop_succ, gfMulLoop_succ, gfMulLoop_succ, hShift, atBit_xor lowBit, hResult, ih]

theorem gfMul_xor_left (a a' b : UInt8) : gfMul (a ^^^ a') b = gfMul a b ^^^ gfMul a' b :=
  gfMulLoop_xor_left 8 a a' b 0 0

theorem gfMul_xor_right (a b b' : UInt8) : gfMul a (b ^^^ b') = gfMul a b ^^^ gfMul a b' :=
  gfMulLoop_xor_right 8 a b b' 0 0

/-! ## Its laws -/

theorem gfMul_zero (a : UInt8) : gfMul a 0 = 0 := by
  have hSum : gfMul a (0 ^^^ 0) = 0 := by rw [gfMul_xor_right, LawfulXor.xor_self]
  exact hSum

theorem zero_gfMul (a : UInt8) : gfMul 0 a = 0 := by
  have hSum : gfMul (0 ^^^ 0) a = 0 := by rw [gfMul_xor_left, LawfulXor.xor_self]
  exact hSum

theorem gfMul_comm (a b : UInt8) : gfMul a b = gfMul b a := by
  have hBits : ∀ i < 8, ∀ j < 8, gfMul (1 <<< UInt8.ofNat i) (1 <<< UInt8.ofNat j) =
      gfMul (1 <<< UInt8.ofNat j) (1 <<< UInt8.ofNat i) := by
    decide +kernel
  induction a using byte_induction with
  | zero => rw [zero_gfMul, gfMul_zero]
  | xor a a' ih ih' => rw [gfMul_xor_left, gfMul_xor_right, ih, ih']
  | bit i hi =>
    induction b using byte_induction with
    | zero => rw [zero_gfMul, gfMul_zero]
    | xor b b' ih ih' => rw [gfMul_xor_left, gfMul_xor_right, ih, ih']
    | bit j hj => exact hBits i hi j hj

theorem gfMul_assoc (a b c : UInt8) : gfMul (gfMul a b) c = gfMul a (gfMul b c) := by
  have hBits : ∀ i < 8, ∀ j < 8, ∀ k < 8,
      gfMul (gfMul (1 <<< UInt8.ofNat i) (1 <<< UInt8.ofNat j)) (1 <<< UInt8.ofNat k) =
        gfMul (1 <<< UInt8.ofNat i) (gfMul (1 <<< UInt8.ofNat j) (1 <<< UInt8.ofNat k)) := by
    decide +kernel
  induction a using byte_induction with
  | zero => rw [zero_gfMul, zero_gfMul, zero_gfMul]
  | xor a a' ih ih' => rw [gfMul_xor_left, gfMul_xor_left, gfMul_xor_left, ih, ih']
  | bit i hi =>
    induction b using byte_induction with
    | zero => rw [gfMul_zero, zero_gfMul, gfMul_zero]
    | xor b b' ih ih' =>
      rw [gfMul_xor_right, gfMul_xor_left, gfMul_xor_left, gfMul_xor_right, ih, ih']
    | bit j hj =>
      induction c using byte_induction with
      | zero => rw [gfMul_zero, gfMul_zero, gfMul_zero]
      | xor c c' ih ih' => rw [gfMul_xor_right, gfMul_xor_right, gfMul_xor_right, ih, ih']
      | bit k hk => exact hBits i hi j hj k hk

theorem one_gfMul (a : UInt8) : gfMul 1 a = a := by
  have hBits : ∀ i < 8, gfMul 1 (1 <<< UInt8.ofNat i) = 1 <<< UInt8.ofNat i := by
    decide
  induction a using byte_induction with
  | zero => exact gfMul_zero 1
  | xor a a' ih ih' => rw [gfMul_xor_right, ih, ih']
  | bit i hi => exact hBits i hi

/-! ## The field -/

/-- A byte, as an element of the field. -/
@[ext] structure Gf where
  byte : UInt8
  deriving DecidableEq

namespace Gf

instance : Add Gf := ⟨fun a b => ⟨gfAdd a.byte b.byte⟩⟩
instance : Mul Gf := ⟨fun a b => ⟨gfMul a.byte b.byte⟩⟩
instance : Neg Gf := ⟨fun a => a⟩
instance : Zero Gf := ⟨⟨0⟩⟩
instance : One Gf := ⟨⟨1⟩⟩

instance : CommRing Gf := CommRing.ofMinimalAxioms
  (fun a b c => Gf.ext (LawfulXor.xor_assoc a.byte b.byte c.byte))
  (fun a => Gf.ext (zero_xor a.byte))
  (fun a => Gf.ext (LawfulXor.xor_self a.byte))
  (fun a b c => Gf.ext (gfMul_assoc a.byte b.byte c.byte))
  (fun a b => Gf.ext (gfMul_comm a.byte b.byte))
  (fun a => Gf.ext (one_gfMul a.byte))
  (fun a b c => Gf.ext (gfMul_xor_right a.byte b.byte c.byte))

/-- What is raised to the power `exp`, of at most `rounds` bits, in the loop of the inverse. -/
theorem gfPowLoop_eq (rounds : Nat) {result base exp : UInt8} (h : exp.toNat < 2 ^ rounds) :
    (⟨gfPowLoop rounds result base exp⟩ : Gf) = ⟨result⟩ * ⟨base⟩ ^ exp.toNat := by
  induction rounds generalizing result base exp with
  | zero =>
    have hZero : exp.toNat = 0 := by omega
    rw [gfPowLoop, hZero, pow_zero, mul_one]
  | succ rounds ih =>
    have hHalf : (exp >>> 1).toNat = exp.toNat / 2 := by
      simp [Nat.shiftRight_eq_div_pow]
    have hBit : exp &&& 1 ≠ 0 ↔ exp.toNat % 2 = 1 := by
      have hNat : (exp &&& 1).toNat = exp.toNat % 2 := by simp [Nat.and_one_is_mod]
      rw [ne_eq, ← UInt8.toNat_inj, hNat]
      show ¬exp.toNat % 2 = 0 ↔ exp.toNat % 2 = 1
      omega
    have hPos : exp > 0 ↔ exp.toNat ≠ 0 := by
      rw [gt_iff_lt, UInt8.lt_iff_toNat_lt]
      exact Nat.pos_iff_ne_zero
    rw [gfPowLoop]
    by_cases hExp : exp > 0
    · have hSquare : (⟨base⟩ : Gf) ^ exp.toNat =
          ⟨gfMul base base⟩ ^ (exp.toNat / 2) * ⟨base⟩ ^ (exp.toNat % 2) := by
        rw [show (⟨gfMul base base⟩ : Gf) = ⟨base⟩ * ⟨base⟩ from rfl, ← pow_two, ← pow_mul,
          ← pow_add, Nat.div_add_mod]
      rw [if_pos hExp, ih (by omega), hHalf, hSquare]
      by_cases hOdd : exp &&& 1 ≠ 0
      · rw [if_pos hOdd, hBit.mp hOdd, pow_one]
        have hMul : (⟨gfMul result base⟩ : Gf) = ⟨result⟩ * ⟨base⟩ := rfl
        rw [hMul]
        ring
      · have hEven : exp.toNat % 2 = 0 := by
          have hNot := mt hBit.mpr hOdd
          omega
        rw [if_neg hOdd, hEven, pow_zero, mul_one]
    · have hZero : exp.toNat = 0 := by
        by_contra hNe
        exact hExp (hPos.mpr hNe)
      rw [if_neg hExp, hZero, pow_zero, mul_one]

instance : Nontrivial Gf := ⟨0, 1, by decide⟩

def equivByte : Gf ≃ UInt8 := ⟨byte, mk, fun _ => rfl, fun _ => rfl⟩

instance : Fintype Gf := Fintype.ofEquiv UInt8 equivByte.symm

theorem card_eq : Fintype.card Gf = 256 := by
  have hFin : Gf ≃ Fin 256 :=
    equivByte.trans ⟨UInt8.toFin, UInt8.ofFin, fun a => by simp, fun a => by simp⟩
  rw [Fintype.card_congr hFin, Fintype.card_fin]

theorem orderOf_three : orderOf (⟨3⟩ : Gf) = 255 := by
  apply orderOf_eq_of_pow_and_pow_div_prime (by omega)
  · decide +kernel
  · intro p hp hDvd
    have hFactors : p = 3 ∨ p = 5 ∨ p = 17 := by
      have hProduct : p ∣ 3 * (5 * 17) := hDvd
      rwa [hp.dvd_mul, hp.dvd_mul, Nat.prime_dvd_prime_iff_eq hp Nat.prime_three,
        Nat.prime_dvd_prime_iff_eq hp Nat.prime_five,
        Nat.prime_dvd_prime_iff_eq hp (by norm_num)] at hProduct
    rcases hFactors with rfl | rfl | rfl <;> decide +kernel

/-- The powers of three are all the bytes but zero. -/
theorem exists_pow_three {a : Gf} (h : a ≠ 0) : ∃ k, (⟨3⟩ : Gf) ^ k = a := by
  have hOne : (⟨3⟩ : Gf) ^ 255 = 1 := by
    rw [← orderOf_three, pow_orderOf_eq_one]
  have hNonzero : ∀ k, (⟨3⟩ : Gf) ^ k ≠ 0 := fun k =>
    ((IsUnit.of_pow_eq_one hOne (by omega)).pow k).ne_zero
  have hImage : (Finset.range 255).image (fun k => (⟨3⟩ : Gf) ^ k) = Finset.univ.erase 0 := by
    apply Finset.eq_of_subset_of_card_le
    · intro b hb
      obtain ⟨k, _, rfl⟩ := Finset.mem_image.mp hb
      exact Finset.mem_erase.mpr ⟨hNonzero k, Finset.mem_univ _⟩
    · rw [Finset.card_erase_of_mem (Finset.mem_univ 0), Finset.card_univ, card_eq,
        Finset.card_image_of_injOn, Finset.card_range]
      rw [← orderOf_three]
      intro k hk l hl hEq
      exact pow_injOn_Iio_orderOf (Finset.mem_range.mp hk) (Finset.mem_range.mp hl) hEq
  have hMem : a ∈ (Finset.range 255).image (fun k => (⟨3⟩ : Gf) ^ k) := by
    rw [hImage]
    exact Finset.mem_erase.mpr ⟨h, Finset.mem_univ a⟩
  obtain ⟨k, _, hk⟩ := Finset.mem_image.mp hMem
  exact ⟨k, hk⟩

theorem pow_255 {a : Gf} (h : a ≠ 0) : a ^ 255 = 1 := by
  obtain ⟨k, rfl⟩ := exists_pow_three h
  rw [← pow_mul, Nat.mul_comm, pow_mul, ← orderOf_three, pow_orderOf_eq_one, one_pow]

instance : Inv Gf := ⟨fun a => ⟨if a.byte = 0 then 0 else gfPowLoop 8 1 a.byte 254⟩⟩

theorem inv_eq {a : Gf} (h : a ≠ 0) : a⁻¹ = a ^ 254 := by
  have hByte : a.byte ≠ 0 := fun hZero => h (Gf.ext hZero)
  apply Gf.ext
  show (if a.byte = 0 then 0 else gfPowLoop 8 1 a.byte 254) = _
  rw [if_neg hByte]
  have hPow := @gfPowLoop_eq 8 1 a.byte 254 (by decide)
  rw [show (⟨1⟩ : Gf) = 1 from rfl, one_mul] at hPow
  exact congrArg Gf.byte hPow

instance : Field Gf where
  exists_pair_ne := ⟨0, 1, by decide⟩
  mul_inv_cancel a ha := by
    rw [inv_eq ha, ← pow_succ', pow_255 ha]
  inv_zero := by
    apply Gf.ext
    rfl
  nnqsmul := _
  nnqsmul_def := fun _ _ => rfl
  qsmul := _
  qsmul_def := fun _ _ => rfl

/-- The source's division is the field's. -/
theorem gfDiv_ok {a b : Gf} (h : b ≠ 0) : gfDiv a.byte b.byte = .ok (a / b).byte := by
  have hByte : b.byte ≠ 0 := fun hZero => h (Gf.ext hZero)
  rw [div_eq_mul_inv, gfDiv, gfInv, if_neg hByte]
  show Except.ok (gfMul a.byte (gfPowLoop 8 1 b.byte 254)) =
    .ok (gfMul a.byte (if b.byte = 0 then 0 else gfPowLoop 8 1 b.byte 254))
  rw [if_neg hByte]

end Gf

end Ezpds.Crypto
