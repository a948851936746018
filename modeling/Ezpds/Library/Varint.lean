import Mathlib.Algebra.Group.Nat.Defs
import Mathlib.Tactic.Common

/-!
# Unsigned LEB128

A number as groups of seven bits, the lowest group first, where every byte but the last
has its high bit set.

* `decodeVarint_writeUvarint`: a 64-bit number is read back, whatever bytes follow.
* `decodeVarint_iff`: what is read is ten groups at most that denote a 64-bit number.
-/

namespace Ezpds.Library

/-- The groups of `n`, at most `fuel + 1` of them. -/
def uvarintGroups : Nat → Nat → List UInt8
  | 0, n => [UInt8.ofNat n]
  | fuel + 1, n =>
    if 0x80 ≤ n then (UInt8.ofNat n ||| 0x80) :: uvarintGroups fuel (n >>> 7)
    else [UInt8.ofNat n]

/-- A 64-bit number has at most ten groups. -/
def writeUvarint (n : Nat) : List UInt8 :=
  uvarintGroups 9 n

/-- `value` is the number read so far, from `i` groups. -/
def decodeVarintFrom (i value : Nat) : List UInt8 → Option (Nat × List UInt8)
  | [] => none
  | byte :: rest =>
    let bits := (byte &&& 0x7f).toNat
    let shift := 7 * i
    if shift ≥ 64 ∨ (shift = 63 ∧ bits > 1) then none
    else if byte &&& 0x80 = 0 then some (value ||| bits <<< shift, rest)
    else decodeVarintFrom (i + 1) (value ||| bits <<< shift) rest

/-- `none` for a truncated number and for one above 64 bits. -/
def decodeVarint (input : List UInt8) : Option (Nat × List UInt8) :=
  decodeVarintFrom 0 0 input

theorem toNat_ofNat_and_127 (n : Nat) : (UInt8.ofNat n &&& 0x7f).toNat = n % 128 := by
  have hMask : (0x7f : UInt8).toNat = 2 ^ 7 - 1 := rfl
  rw [UInt8.toNat_and, hMask, Nat.and_two_pow_sub_one_eq_mod, UInt8.toNat_ofNat']
  omega

/-- The high bit marks a byte and leaves its group alone. -/
theorem continued_byte (b : UInt8) :
    (b ||| 0x80) &&& 0x7f = b &&& 0x7f ∧ (b ||| 0x80) &&& 0x80 ≠ 0 := by
  have hBytes : ∀ n < 256, (UInt8.ofNat n ||| 0x80) &&& 0x7f = UInt8.ofNat n &&& 0x7f ∧
      (UInt8.ofNat n ||| 0x80) &&& 0x80 ≠ 0 := by
    decide +kernel
  have hByte := hBytes b.toNat b.toNat_lt
  rwa [UInt8.ofNat_toNat] at hByte

theorem ofNat_and_128 {n : Nat} (h : n < 128) : UInt8.ofNat n &&& 0x80 = 0 := by
  revert n
  decide

/-- The groups below a shift do not overlap the group at it. -/
theorem or_shiftLeft {value bits shift : Nat} (h : value < 2 ^ shift) :
    value ||| bits <<< shift = value + bits * 2 ^ shift := by
  rw [Nat.shiftLeft_eq, Nat.mul_comm bits, Nat.or_comm, ← Nat.two_pow_add_eq_or_of_lt h]
  omega

theorem uvarintGroups_ne_nil (fuel n : Nat) : uvarintGroups fuel n ≠ [] := by
  cases fuel with
  | zero => exact List.cons_ne_nil _ _
  | succ fuel =>
    rw [uvarintGroups]
    split
    · exact List.cons_ne_nil _ _
    · exact List.cons_ne_nil _ _

/-- The bound on the whole number keeps every group within the checks of the reader. -/
theorem group_fits {i n value : Nat} (hPos : i = 0 ∨ 0 < n)
    (hFits : value + n * 2 ^ (7 * i) < 2 ^ 64) :
    ¬ (7 * i ≥ 64 ∨ (7 * i = 63 ∧ n % 128 > 1)) := by
  rintro (hShift | ⟨hShift, hBits⟩)
  · have hn : 0 < n := by omega
    have hPow : 2 ^ 64 ≤ 2 ^ (7 * i) := Nat.pow_le_pow_right (by omega) hShift
    have hMul : 2 ^ (7 * i) ≤ n * 2 ^ (7 * i) := Nat.le_mul_of_pos_left _ hn
    omega
  · rw [hShift] at hFits
    omega

theorem decodeVarintFrom_last {i n value : Nat} {rest : List UInt8} (hn : n < 128)
    (hPos : i = 0 ∨ 0 < n) (hValue : value < 2 ^ (7 * i))
    (hFits : value + n * 2 ^ (7 * i) < 2 ^ 64) :
    decodeVarintFrom i value (UInt8.ofNat n :: rest) = some (value + n * 2 ^ (7 * i), rest) := by
  rw [decodeVarintFrom, toNat_ofNat_and_127, if_neg (group_fits hPos hFits),
    if_pos (ofNat_and_128 hn), or_shiftLeft hValue, Nat.mod_eq_of_lt hn]

theorem decodeVarintFrom_groups {fuel i n value : Nat} {rest : List UInt8}
    (hGroups : n < 2 ^ (7 * (fuel + 1))) (hPos : i = 0 ∨ 0 < n) (hValue : value < 2 ^ (7 * i))
    (hFits : value + n * 2 ^ (7 * i) < 2 ^ 64) :
    decodeVarintFrom i value (uvarintGroups fuel n ++ rest) =
      some (value + n * 2 ^ (7 * i), rest) := by
  induction fuel generalizing i n value with
  | zero =>
    rw [uvarintGroups]
    exact decodeVarintFrom_last (by omega) hPos hValue hFits
  | succ fuel ih =>
    rw [uvarintGroups]
    by_cases hn : 0x80 ≤ n
    · have hPow : 2 ^ (7 * (i + 1)) = 2 ^ (7 * i) * 128 := by
        rw [show 7 * (i + 1) = 7 * i + 7 by omega, Nat.pow_add]
      have hBound : 2 ^ (7 * (fuel + 1 + 1)) = 2 ^ (7 * (fuel + 1)) * 128 := by
        rw [show 7 * (fuel + 1 + 1) = 7 * (fuel + 1) + 7 by omega, Nat.pow_add]
      have hRest : n / 128 < 2 ^ (7 * (fuel + 1)) := by omega
      have hSum : value + n % 128 * 2 ^ (7 * i) + n / 128 * 2 ^ (7 * (i + 1)) =
          value + n * 2 ^ (7 * i) := by
        have hn' : n = n % 128 + n / 128 * 128 := by omega
        rw [hPow]
        conv_rhs => rw [hn']
        rw [Nat.add_mul, Nat.add_assoc, Nat.mul_assoc, Nat.mul_comm 128]
      have hLow : value + n % 128 * 2 ^ (7 * i) < 2 ^ (7 * (i + 1)) := by
        have hBits : n % 128 * 2 ^ (7 * i) ≤ 127 * 2 ^ (7 * i) :=
          Nat.mul_le_mul_right _ (by omega)
        omega
      rw [if_pos hn, List.cons_append, decodeVarintFrom, (continued_byte _).1,
        toNat_ofNat_and_127, if_neg (group_fits hPos hFits), if_neg (continued_byte _).2,
        or_shiftLeft hValue, Nat.shiftRight_eq_div_pow,
        ih hRest (Or.inr (by omega)) hLow (by omega), hSum]
    · rw [if_neg hn]
      exact decodeVarintFrom_last (by omega) hPos hValue hFits

theorem decodeVarint_writeUvarint {n : Nat} (h : n < 2 ^ 64) (rest : List UInt8) :
    decodeVarint (writeUvarint n ++ rest) = some (n, rest) := by
  have hGroups : n < 2 ^ (7 * (9 + 1)) := by omega
  rw [decodeVarint, writeUvarint,
    decodeVarintFrom_groups hGroups (Or.inl rfl) (by omega) (by omega)]
  simp

theorem writeUvarint_ne_nil (n : Nat) : writeUvarint n ≠ [] :=
  uvarintGroups_ne_nil 9 n

theorem length_of_decodeVarintFrom {input rest : List UInt8} {i value n : Nat}
    (h : decodeVarintFrom i value input = some (n, rest)) : rest.length < input.length := by
  induction input generalizing i value with
  | nil => cases h
  | cons byte input ih =>
    rw [decodeVarintFrom] at h
    split at h
    · cases h
    · split at h
      · cases h
        exact Nat.lt_succ_self _
      · exact Nat.lt_trans (ih h) (Nat.lt_succ_self _)

theorem length_of_decodeVarint {input rest : List UInt8} {n : Nat}
    (h : decodeVarint input = some (n, rest)) : rest.length < input.length :=
  length_of_decodeVarintFrom h

/-- A number ends in a byte without the high bit. -/
theorem exists_last_of_decodeVarintFrom {input rest : List UInt8} {i value n : Nat}
    (h : decodeVarintFrom i value input = some (n, rest)) : ∃ byte ∈ input, byte &&& 0x80 = 0 := by
  induction input generalizing i value with
  | nil => cases h
  | cons byte input ih =>
    rw [decodeVarintFrom] at h
    split at h
    · cases h
    · split at h
      · rename_i hLast
        exact ⟨byte, List.mem_cons_self, hLast⟩
      · obtain ⟨b, hb, hLast⟩ := ih h
        exact ⟨b, List.mem_cons_of_mem _ hb, hLast⟩

/-! ## What is read -/

/-- The number that groups denote. -/
def uvarintValue : List UInt8 → Nat
  | [] => 0
  | byte :: rest => (byte &&& 0x7f).toNat + 128 * uvarintValue rest

/-- The last byte, and no other, is without the high bit. -/
def Terminated : List UInt8 → Prop
  | [] => False
  | byte :: rest => (byte &&& 0x80 = 0 ∧ rest = []) ∨ (byte &&& 0x80 ≠ 0 ∧ Terminated rest)

/-- The bytes are one number of 64 bits, in any form of it. -/
structure IsUvarint (bytes : List UInt8) (n : Nat) : Prop where
  terminated : Terminated bytes
  length_le : bytes.length ≤ 10
  value : uvarintValue bytes = n
  lt : n < 2 ^ 64

theorem group_lt (byte : UInt8) : (byte &&& 0x7f).toNat < 128 := by
  have hMask : (0x7f : UInt8).toNat = 2 ^ 7 - 1 := rfl
  rw [UInt8.toNat_and, hMask, Nat.and_two_pow_sub_one_eq_mod]
  omega

theorem pow_group (i : Nat) : 2 ^ (7 * (i + 1)) = 2 ^ (7 * i) * 128 := by
  rw [show 7 * (i + 1) = 7 * i + 7 by omega, Nat.pow_add]

/-- A group within the checks of the reader keeps the number below 64 bits. -/
theorem group_value {i value bits : Nat} (hValue : value < 2 ^ (7 * i)) (hBits : bits < 128)
    (hFits : ¬ (7 * i ≥ 64 ∨ (7 * i = 63 ∧ bits > 1))) :
    value + bits * 2 ^ (7 * i) < 2 ^ 64 ∧ i + 1 ≤ 10 := by
  refine ⟨?_, by omega⟩
  rcases Nat.lt_or_ge i 9 with hLow | hHigh
  · have hPow : 2 ^ (7 * i) ≤ 2 ^ 56 := Nat.pow_le_pow_right (by omega) (by omega)
    have hMul : bits * 2 ^ (7 * i) ≤ 127 * 2 ^ 56 := Nat.mul_le_mul (by omega) hPow
    omega
  · have hi : i = 9 := by omega
    rw [hi] at hValue hFits ⊢
    omega

theorem decodeVarintFrom_ok {input rest : List UInt8} {i value n : Nat}
    (hValue : value < 2 ^ (7 * i)) (h : decodeVarintFrom i value input = some (n, rest)) :
    ∃ bytes, Terminated bytes ∧ i + bytes.length ≤ 10 ∧
      value + uvarintValue bytes * 2 ^ (7 * i) = n ∧ n < 2 ^ 64 ∧ input = bytes ++ rest := by
  induction input generalizing i value with
  | nil => cases h
  | cons byte input ih =>
    rw [decodeVarintFrom] at h
    split at h
    · cases h
    · rename_i hFits
      have hGroup := group_lt byte
      obtain ⟨hBelow, hLength⟩ := group_value hValue hGroup hFits
      rw [or_shiftLeft hValue] at h
      split at h
      · rename_i hLast
        cases h
        refine ⟨[byte], .inl ⟨hLast, rfl⟩, hLength, ?_, hBelow, rfl⟩
        simp [uvarintValue]
      · rename_i hMore
        have hPow := pow_group i
        have hNext : value + (byte &&& 0x7f).toNat * 2 ^ (7 * i) < 2 ^ (7 * (i + 1)) := by
          have hBits : (byte &&& 0x7f).toNat * 2 ^ (7 * i) ≤ 127 * 2 ^ (7 * i) :=
            Nat.mul_le_mul_right _ (by omega)
          omega
        obtain ⟨bytes, hTerminated, hLength, hSum, hLt, rfl⟩ := ih hNext h
        refine ⟨byte :: bytes, .inr ⟨hMore, hTerminated⟩, ?_, ?_, hLt, rfl⟩
        · rw [List.length_cons]
          omega
        · have hShift : 128 * uvarintValue bytes * 2 ^ (7 * i) =
              uvarintValue bytes * (2 ^ (7 * i) * 128) := by
            rw [Nat.mul_comm (2 ^ (7 * i)) 128, ← Nat.mul_assoc, Nat.mul_comm _ 128]
          rw [← hSum, hPow, uvarintValue, Nat.add_mul, hShift, Nat.add_assoc]

theorem decodeVarintFrom_of_terminated {bytes rest : List UInt8} {i value : Nat}
    (hValue : value < 2 ^ (7 * i)) (hTerminated : Terminated bytes)
    (hLength : i + bytes.length ≤ 10)
    (hLt : value + uvarintValue bytes * 2 ^ (7 * i) < 2 ^ 64) :
    decodeVarintFrom i value (bytes ++ rest) =
      some (value + uvarintValue bytes * 2 ^ (7 * i), rest) := by
  induction bytes generalizing i value with
  | nil => cases hTerminated
  | cons byte bytes ih =>
    have hGroup := group_lt byte
    have hPow := pow_group i
    have hShift : 128 * uvarintValue bytes * 2 ^ (7 * i) =
        uvarintValue bytes * (2 ^ (7 * i) * 128) := by
      rw [Nat.mul_comm (2 ^ (7 * i)) 128, ← Nat.mul_assoc, Nat.mul_comm _ 128]
    rw [uvarintValue, Nat.add_mul, hShift, ← hPow, ← Nat.add_assoc] at hLt ⊢
    rw [List.length_cons] at hLength
    have hFits : ¬ (7 * i ≥ 64 ∨ (7 * i = 63 ∧ (byte &&& 0x7f).toNat > 1)) := by
      rintro (hFar | ⟨hLast, hBits⟩)
      · omega
      · rw [hLast] at hLt
        omega
    rw [List.cons_append, decodeVarintFrom, if_neg hFits, or_shiftLeft hValue]
    rcases hTerminated with ⟨hLast, rfl⟩ | ⟨hMore, hTerminated⟩
    · rw [if_pos hLast, uvarintValue, Nat.zero_mul, Nat.add_zero, List.nil_append]
    · have hNext : value + (byte &&& 0x7f).toNat * 2 ^ (7 * i) < 2 ^ (7 * (i + 1)) := by
        have hBits : (byte &&& 0x7f).toNat * 2 ^ (7 * i) ≤ 127 * 2 ^ (7 * i) :=
          Nat.mul_le_mul_right _ (by omega)
        omega
      rw [if_neg hMore, ih hNext hTerminated (by omega) hLt]

/-- The reader takes exactly one number from the front of its input. -/
theorem decodeVarint_iff {input rest : List UInt8} {n : Nat} :
    decodeVarint input = some (n, rest) ↔
      ∃ bytes, IsUvarint bytes n ∧ input = bytes ++ rest := by
  constructor
  · intro h
    obtain ⟨bytes, hTerminated, hLength, hSum, hLt, rfl⟩ :=
      decodeVarintFrom_ok (by decide) h
    exact ⟨bytes, ⟨hTerminated, by omega, by omega, hLt⟩, rfl⟩
  · rintro ⟨bytes, ⟨hTerminated, hLength, rfl, hLt⟩, rfl⟩
    have hRead := @decodeVarintFrom_of_terminated bytes rest 0 0 (by decide) hTerminated
      (by omega) (by omega)
    rw [decodeVarint, hRead]
    simp

end Ezpds.Library
