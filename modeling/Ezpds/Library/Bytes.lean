import Mathlib.Tactic.Common

/-!
# Bytes

A property of all bytes is one of the numbers below 256. A check that only ASCII bytes pass says
the same of the UTF-8 bytes of a text as of its characters: every other character has a byte that
fails it.

* `byte_cases`: a property of all bytes.
* `all_utf8`: the bytes of a text pass exactly when its characters are ASCII and pass.
* `utf8_ascii`: an ASCII text has one byte for each character.
-/

namespace Ezpds.Library

theorem byte_cases {P : UInt8 → Prop} (h : ∀ n < 256, P (UInt8.ofNat n)) (a : UInt8) : P a := by
  have hByte := h a.toNat a.toNat_lt
  rwa [UInt8.ofNat_toNat] at hByte

variable {p : UInt8 → Bool}

theorem high_fails (hp : ∀ b, p b = true → b.toNat < 128) {n : Nat} (hLow : 128 ≤ n)
    (hHigh : n < 256) : p (UInt8.ofNat n) = false := by
  by_contra hNot
  have hByte := hp _ (by simpa using hNot)
  rw [UInt8.toNat_ofNat_of_lt' hHigh] at hByte
  omega

theorem all_utf8EncodeChar (hp : ∀ b, p b = true → b.toNat < 128) (c : Char) :
    (String.utf8EncodeChar c).all p = (c.toNat < 128 && p (UInt8.ofNat c.toNat)) := by
  have hVal : c.val.toNat = c.toNat := rfl
  rw [String.utf8EncodeChar, hVal]
  split
  · rename_i hAscii
    have hLt : c.toNat < 128 := by omega
    simp [hLt]
  · rename_i hHigh
    have hNot : decide (c.toNat < 128) = false := decide_eq_false (by omega)
    rw [hNot, Bool.false_and]
    -- the first byte already fails
    split
    · rw [List.all_cons, high_fails hp (by omega) (by omega), Bool.false_and]
    · split
      · rw [List.all_cons, high_fails hp (by omega) (by omega), Bool.false_and]
      · rw [List.all_cons, high_fails hp (by omega) (by omega), Bool.false_and]

theorem all_utf8 (hp : ∀ b, p b = true → b.toNat < 128) (s : List Char) :
    (s.flatMap String.utf8EncodeChar).all p =
      s.all fun c => c.toNat < 128 && p (UInt8.ofNat c.toNat) := by
  rw [List.all_flatMap]
  congr 1
  funext c
  exact all_utf8EncodeChar hp c

theorem utf8_ascii {s : List Char} (h : ∀ c ∈ s, c.toNat < 128) :
    s.flatMap String.utf8EncodeChar = s.map fun c => UInt8.ofNat c.toNat := by
  induction s with
  | nil => rfl
  | cons c s ih =>
    have hVal : c.val.toNat ≤ 0x7f := Nat.le_of_lt_succ (h c List.mem_cons_self)
    rw [List.flatMap_cons, List.map_cons, ih fun d hd => h d (List.mem_cons_of_mem c hd),
      String.utf8EncodeChar, if_pos hVal]
    rfl

end Ezpds.Library
