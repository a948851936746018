import Ezpds.Library.FixedDigits
import Mathlib.Data.Option.Basic

/-!
# Bytes as digits of a smaller base

The unpadded base-32 and base-64 codings write bytes as one number, whose last bits are
filled with zeros up to a whole number of digits of five or six bits.

* `baseDecode_baseEncode`: bytes are read back from their digits.
* `baseEncode_of_baseDecode`: no two texts are read as the same bytes.
-/

namespace Ezpds.Library

/-- The number of a list of bytes. -/
def bytesValue (bytes : List UInt8) : Nat :=
  digitsValue 256 (bytes.map UInt8.toNat)

/-- The digits of `bits` bits that hold `length` bytes. -/
def baseLength (bits length : Nat) : Nat :=
  (8 * length + bits - 1) / bits

def baseEncode (bits : Nat) (symbol : Nat → Char) (bytes : List UInt8) : List Char :=
  let count := baseLength bits bytes.length
  let pad := bits * count - 8 * bytes.length
  (fixedDigits (2 ^ bits) count (bytesValue bytes * 2 ^ pad)).map symbol

/-- The trailing bits are fewer than a digit has, and zero. -/
def baseDecode (bits : Nat) (digit : Char → Option Nat) (text : List Char) :
    Option (List UInt8) := do
  let digits ← text.mapM digit
  let count := bits * digits.length / 8
  let pad := bits * digits.length - 8 * count
  let value := digitsValue (2 ^ bits) digits
  guard (pad < bits ∧ value % 2 ^ pad = 0)
  return (fixedDigits 256 count (value / 2 ^ pad)).map UInt8.ofNat

theorem mapM_map_some {α β : Type} {f : α → β} {g : β → Option α} {l : List α}
    (h : ∀ a ∈ l, g (f a) = some a) : (l.map f).mapM g = some l := by
  induction l with
  | nil => rfl
  | cons a l ih =>
    have hTail := ih fun b hb => h b (List.mem_cons_of_mem a hb)
    rw [List.map_cons, List.mapM_cons, h a List.mem_cons_self, hTail]
    rfl

/-- A reading that undoes `f` on what it reads gives back the list that was read. -/
theorem map_of_mapM {α β : Type} {P : α → Prop} {f : α → β} {g : β → Option α} {l : List β}
    {l' : List α} (h : ∀ b a, g b = some a → P a ∧ f a = b) (hRead : l.mapM g = some l') :
    l'.map f = l ∧ ∀ a ∈ l', P a := by
  induction l generalizing l' with
  | nil =>
    rw [List.mapM_nil] at hRead
    cases hRead
    exact ⟨rfl, fun a ha => absurd ha (by simp)⟩
  | cons b l ih =>
    rw [List.mapM_cons] at hRead
    obtain ⟨a, hHead, hRead⟩ := Option.bind_eq_some_iff.mp hRead
    obtain ⟨l₁, hTail, hRead⟩ := Option.bind_eq_some_iff.mp hRead
    cases hRead
    obtain ⟨hP, hf⟩ := h b a hHead
    obtain ⟨hMap, hAll⟩ := ih hTail
    exact ⟨by rw [List.map_cons, hf, hMap], List.forall_mem_cons.mpr ⟨hP, hAll⟩⟩

theorem baseLength_bounds {bits length : Nat} (hBits : 0 < bits) :
    8 * length ≤ bits * baseLength bits length ∧
      bits * baseLength bits length < 8 * length + bits := by
  have hMod := Nat.div_add_mod (8 * length + bits - 1) bits
  have hLt := Nat.mod_lt (8 * length + bits - 1) hBits
  rw [baseLength]
  omega

theorem bytesValue_lt (bytes : List UInt8) : bytesValue bytes < 2 ^ (8 * bytes.length) := by
  have hDigits : ∀ d ∈ bytes.map UInt8.toNat, d < 256 := by
    intro d hd
    obtain ⟨b, _, rfl⟩ := List.mem_map.mp hd
    exact b.toNat_lt
  have hLt := digitsValue_lt hDigits
  rwa [List.length_map, show 256 = 2 ^ 8 from rfl, ← pow_mul] at hLt

theorem fixedDigits_bytesValue (bytes : List UInt8) :
    (fixedDigits 256 bytes.length (bytesValue bytes)).map UInt8.ofNat = bytes := by
  have hDigits : ∀ d ∈ bytes.map UInt8.toNat, d < 256 := by
    intro d hd
    obtain ⟨b, _, rfl⟩ := List.mem_map.mp hd
    exact b.toNat_lt
  have hRead := fixedDigits_digitsValue hDigits
  rw [List.length_map] at hRead
  rw [bytesValue, hRead, List.map_map]
  exact List.map_id'' (fun b => UInt8.ofNat_toNat) bytes

theorem bytesValue_fixedDigits (n v : Nat) :
    bytesValue ((fixedDigits 256 n v).map UInt8.ofNat) = v % 256 ^ n := by
  have hDigits : ∀ d ∈ fixedDigits 256 n v, (UInt8.toNat ∘ UInt8.ofNat) d = d := by
    intro d hd
    have hLt : d < 256 := lt_of_mem_fixedDigits (by omega) hd
    exact UInt8.toNat_ofNat_of_lt' hLt
  rw [bytesValue, List.map_map, List.map_congr_left hDigits, List.map_id',
    digitsValue_fixedDigits]

/-- Bytes are read back from their digits. -/
theorem baseDecode_baseEncode {bits : Nat} (hBits : 0 < bits) (hByte : bits ≤ 8)
    {symbol : Nat → Char} {digit : Char → Option Nat}
    (h : ∀ d < 2 ^ bits, digit (symbol d) = some d) (bytes : List UInt8) :
    baseDecode bits digit (baseEncode bits symbol bytes) = some bytes := by
  obtain ⟨hLow, hHigh⟩ := @baseLength_bounds bits bytes.length hBits
  have hCount : bits * baseLength bits bytes.length / 8 = bytes.length := by omega
  have hValue : bytesValue bytes * 2 ^ (bits * baseLength bits bytes.length - 8 * bytes.length) <
      (2 ^ bits) ^ baseLength bits bytes.length := by
    rw [← pow_mul]
    calc bytesValue bytes * 2 ^ (bits * baseLength bits bytes.length - 8 * bytes.length)
        < 2 ^ (8 * bytes.length) *
            2 ^ (bits * baseLength bits bytes.length - 8 * bytes.length) :=
          Nat.mul_lt_mul_of_pos_right (bytesValue_lt bytes) (Nat.two_pow_pos _)
      _ = 2 ^ (bits * baseLength bits bytes.length) := by
          rw [← pow_add, Nat.add_sub_cancel' hLow]
  have hDigits := @mapM_map_some _ _ symbol digit (fixedDigits (2 ^ bits)
    (baseLength bits bytes.length) (bytesValue bytes *
      2 ^ (bits * baseLength bits bytes.length - 8 * bytes.length)))
    fun d hd => h d (lt_of_mem_fixedDigits (Nat.two_pow_pos bits) hd)
  rw [baseEncode, baseDecode]
  simp only [hDigits, Option.bind_eq_bind, Option.bind_some, length_fixedDigits,
    digitsValue_fixedDigits, Nat.mod_eq_of_lt hValue, hCount, Nat.mul_mod_left,
    Nat.mul_div_left _ (Nat.two_pow_pos _), fixedDigits_bytesValue]
  rw [guard, if_pos ⟨by omega, trivial⟩]
  rfl

/-- A text that is read is the one that its bytes are written as. -/
theorem baseEncode_of_baseDecode {bits : Nat} (hBits : 0 < bits) {symbol : Nat → Char}
    {digit : Char → Option Nat} (h : ∀ c d, digit c = some d → d < 2 ^ bits ∧ symbol d = c)
    {text : List Char} {bytes : List UInt8} (hRead : baseDecode bits digit text = some bytes) :
    baseEncode bits symbol bytes = text := by
  rw [baseDecode] at hRead
  obtain ⟨digits, hDigits, hRead⟩ := Option.bind_eq_some_iff.mp hRead
  obtain ⟨hText, hSmall⟩ := map_of_mapM h hDigits
  dsimp only at hRead
  obtain ⟨_, hGuard, hRead⟩ := Option.bind_eq_some_iff.mp hRead
  obtain ⟨hPad, hZero⟩ : bits * digits.length - 8 * (bits * digits.length / 8) < bits ∧
      digitsValue (2 ^ bits) digits %
        2 ^ (bits * digits.length - 8 * (bits * digits.length / 8)) = 0 :=
    (Option.guard_eq_some' _).mp hGuard
  cases hRead
  generalize hCount : bits * digits.length / 8 = count at hPad hZero
  have hFits : 8 * count ≤ bits * digits.length := by omega
  have hValue : digitsValue (2 ^ bits) digits <
      2 ^ (bits * digits.length - 8 * count) * 256 ^ count := by
    have hLt := digitsValue_lt hSmall
    rwa [← pow_mul, ← Nat.sub_add_cancel hFits, pow_add, pow_mul 2 8] at hLt
  have hLength : baseLength bits count = digits.length := by
    rw [baseLength]
    have hUpper := Nat.mul_add_one bits digits.length
    apply Nat.div_eq_of_lt_le
    · rw [Nat.mul_comm digits.length]
      omega
    · rw [Nat.mul_comm (digits.length + 1)]
      omega
  rw [baseEncode, List.length_map, length_fixedDigits, bytesValue_fixedDigits, hLength,
    Nat.mod_eq_of_lt (Nat.div_lt_of_lt_mul hValue),
    Nat.div_mul_cancel (Nat.dvd_of_mod_eq_zero hZero), fixedDigits_digitsValue hSmall, hText]

theorem mem_baseEncode {bits : Nat} {symbol : Nat → Char} {bytes : List UInt8} {c : Char}
    (h : c ∈ baseEncode bits symbol bytes) : ∃ d < 2 ^ bits, symbol d = c := by
  obtain ⟨d, hd, rfl⟩ := List.mem_map.mp h
  exact ⟨d, lt_of_mem_fixedDigits (Nat.two_pow_pos bits) hd, rfl⟩

end Ezpds.Library
