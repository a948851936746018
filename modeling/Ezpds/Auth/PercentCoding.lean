import Ezpds.Auth.OauthScopes

/-!
# Percent coding of scope components

`encode_component` writes the bytes of a value, all but a set of plain characters as `%XX`;
`percent_decode` reads them back, and takes anything that is not such an escape as it
stands.

* `lossy_utf8`: a text is read back from its UTF-8 bytes.
* `percentDecode_encodeComponent`: a value is read back from its component.
-/

namespace Ezpds.Auth

open Library Repo

/-! ## UTF-8 -/

theorem toNat_byte {n : Nat} (h : n < 256) : (UInt8.ofNat n).toNat = n := by
  simp
  omega

theorem isUtf8Cont_byte {n : Nat} (h : n < 64) : isUtf8Cont (UInt8.ofNat (n + 0x80)) = true := by
  have hn := @toNat_byte (n + 0x80) (by omega)
  simp only [isUtf8Cont, Bool.and_eq_true, decide_eq_true_eq, UInt8.le_iff_toNat_le, hn]
  constructor
  · show 128 ≤ n + 128
    omega
  · show n + 128 ≤ 191
    omega

theorem not_ascii_byte {b : UInt8} (h : 128 ≤ b.toNat) : ¬ b < 0x80 := by
  intro hLt
  have hNat : b.toNat < 128 := hLt
  omega

theorem byte_in_range {b lo hi : UInt8} :
    (decide (lo ≤ b) && decide (b ≤ hi)) = true ↔ lo.toNat ≤ b.toNat ∧ b.toNat ≤ hi.toNat := by
  rw [Bool.and_eq_true, decide_eq_true_eq, decide_eq_true_eq]
  exact Iff.rfl

theorem lossy_ascii {b : UInt8} {rest : List UInt8} (h : b.toNat < 128) :
    fromUtf8Lossy (b :: rest) = Char.ofNat b.toNat :: fromUtf8Lossy rest := by
  have hb : b < 0x80 := h
  rw [fromUtf8Lossy.eq_def]
  dsimp only
  rw [if_pos hb]

theorem lossy_two {b c : UInt8} {rest : List UInt8} (hb : 0xC2 ≤ b.toNat ∧ b.toNat ≤ 0xDF)
    (hc : isUtf8Cont c = true) :
    fromUtf8Lossy (b :: c :: rest) =
      Char.ofNat ((b.toNat - 0xC0) * 64 + (c.toNat - 0x80)) :: fromUtf8Lossy rest := by
  rw [fromUtf8Lossy.eq_def]
  dsimp only
  have hFirst : (decide (0xC2 ≤ b) && decide (b ≤ 0xDF)) = true := byte_in_range.mpr hb
  rw [if_neg (not_ascii_byte (by omega)), if_pos hFirst, if_pos hc]

theorem lossy_three {b c d : UInt8} {rest : List UInt8} (hb : 0xE0 ≤ b.toNat ∧ b.toNat ≤ 0xEF)
    (hc : isThreeByteSecond b c = true) (hd : isUtf8Cont d = true) :
    fromUtf8Lossy (b :: c :: d :: rest) =
      Char.ofNat ((b.toNat - 0xE0) * 4096 + (c.toNat - 0x80) * 64 + (d.toNat - 0x80)) ::
        fromUtf8Lossy rest := by
  have hTwo : ¬ (decide (0xC2 ≤ b) && decide (b ≤ 0xDF)) = true := by
    rw [byte_in_range]
    intro h
    have hHi : b.toNat ≤ 223 := h.2
    omega
  rw [fromUtf8Lossy.eq_def]
  dsimp only
  have hFirst : (decide (0xE0 ≤ b) && decide (b ≤ 0xEF)) = true := byte_in_range.mpr hb
  rw [if_neg (not_ascii_byte (by omega)), if_neg hTwo, if_pos hFirst, if_pos hc, if_pos hd]

theorem lossy_four {b c d e : UInt8} {rest : List UInt8} (hb : 0xF0 ≤ b.toNat ∧ b.toNat ≤ 0xF4)
    (hc : isFourByteSecond b c = true) (hd : isUtf8Cont d = true) (he : isUtf8Cont e = true) :
    fromUtf8Lossy (b :: c :: d :: e :: rest) =
      Char.ofNat ((b.toNat - 0xF0) * 262144 + (c.toNat - 0x80) * 4096 + (d.toNat - 0x80) * 64 +
        (e.toNat - 0x80)) :: fromUtf8Lossy rest := by
  have hTwo : ¬ (decide (0xC2 ≤ b) && decide (b ≤ 0xDF)) = true := by
    rw [byte_in_range]
    intro h
    have hHi : b.toNat ≤ 223 := h.2
    omega
  have hThree : ¬ (decide (0xE0 ≤ b) && decide (b ≤ 0xEF)) = true := by
    rw [byte_in_range]
    intro h
    have hHi : b.toNat ≤ 239 := h.2
    omega
  rw [fromUtf8Lossy.eq_def]
  dsimp only
  have hFirst : (decide (0xF0 ≤ b) && decide (b ≤ 0xF4)) = true := byte_in_range.mpr hb
  rw [if_neg (not_ascii_byte (by omega)), if_neg hTwo, if_neg hThree, if_pos hFirst, if_pos hc,
    if_pos hd, if_pos he]

/-- The surrogates and the values past the last plane are not characters. -/
theorem char_bounds (c : Char) : c.toNat < 0xD800 ∨ 0xDFFF < c.toNat ∧ c.toNat < 0x110000 :=
  c.valid

theorem second_of_three {v : Nat} (h : 0x800 ≤ v) (h' : v < 0x10000)
    (hc : v < 0xD800 ∨ 0xDFFF < v) :
    isThreeByteSecond (UInt8.ofNat (v / 4096 % 16 + 0xE0))
      (UInt8.ofNat (v / 64 % 64 + 0x80)) = true := by
  have hb := @toNat_byte (v / 4096 % 16 + 0xE0) (by omega)
  have hs := @toNat_byte (v / 64 % 64 + 0x80) (by omega)
  rw [isThreeByteSecond]
  by_cases hFirst : UInt8.ofNat (v / 4096 % 16 + 0xE0) = 0xE0
  · rw [if_pos hFirst, byte_in_range, hs]
    rw [hFirst] at hb
    have hLow : (0xE0 : UInt8).toNat = 224 := rfl
    have hA : (0xA0 : UInt8).toNat = 160 := rfl
    have hB : (0xBF : UInt8).toNat = 191 := rfl
    omega
  · rw [if_neg hFirst]
    by_cases hSurrogate : UInt8.ofNat (v / 4096 % 16 + 0xE0) = 0xED
    · rw [if_pos hSurrogate, byte_in_range, hs]
      rw [hSurrogate] at hb
      have hED : (0xED : UInt8).toNat = 237 := rfl
      have hA : (0x80 : UInt8).toNat = 128 := rfl
      have hB : (0x9F : UInt8).toNat = 159 := rfl
      omega
    · rw [if_neg hSurrogate]
      exact isUtf8Cont_byte (by omega)

theorem second_of_four {v : Nat} (h : 0x10000 ≤ v) (h' : v < 0x110000) :
    isFourByteSecond (UInt8.ofNat (v / 262144 % 8 + 0xF0))
      (UInt8.ofNat (v / 4096 % 64 + 0x80)) = true := by
  have hb := @toNat_byte (v / 262144 % 8 + 0xF0) (by omega)
  have hs := @toNat_byte (v / 4096 % 64 + 0x80) (by omega)
  rw [isFourByteSecond]
  by_cases hFirst : UInt8.ofNat (v / 262144 % 8 + 0xF0) = 0xF0
  · rw [if_pos hFirst, byte_in_range, hs]
    rw [hFirst] at hb
    have hF0 : (0xF0 : UInt8).toNat = 240 := rfl
    have hA : (0x90 : UInt8).toNat = 144 := rfl
    have hB : (0xBF : UInt8).toNat = 191 := rfl
    omega
  · rw [if_neg hFirst]
    by_cases hLast : UInt8.ofNat (v / 262144 % 8 + 0xF0) = 0xF4
    · rw [if_pos hLast, byte_in_range, hs]
      rw [hLast] at hb
      have hF4 : (0xF4 : UInt8).toNat = 244 := rfl
      have hA : (0x80 : UInt8).toNat = 128 := rfl
      have hB : (0x8F : UInt8).toNat = 143 := rfl
      omega
    · rw [if_neg hLast]
      exact isUtf8Cont_byte (by omega)

/-- A character is read back from its bytes. -/
theorem lossy_char (c : Char) (rest : List UInt8) :
    fromUtf8Lossy (String.utf8EncodeChar c ++ rest) = c :: fromUtf8Lossy rest := by
  have hBounds := char_bounds c
  have hVal : c.val.toNat = c.toNat := rfl
  have hOf : ∀ {n}, n = c.toNat → Char.ofNat n = c := by
    intro n hn
    rw [hn, Char.ofNat_toNat]
  rw [String.utf8EncodeChar, hVal]
  split
  · rename_i h
    have hb := @toNat_byte c.toNat (by omega)
    rw [List.cons_append, lossy_ascii (by omega), hOf hb]
    rfl
  · split
    · rename_i h
      have hb := @toNat_byte (c.toNat / 64 % 0x20 + 0xc0) (by omega)
      have hs := @toNat_byte (c.toNat % 0x40 + 0x80) (by omega)
      rw [List.cons_append, List.cons_append, lossy_two (by omega) (isUtf8Cont_byte (by omega)),
        hb, hs, hOf (by omega)]
      rfl
    · split
      · rename_i h
        have hb := @toNat_byte (c.toNat / 4096 % 0x10 + 0xe0) (by omega)
        have hs := @toNat_byte (c.toNat / 64 % 0x40 + 0x80) (by omega)
        have ht := @toNat_byte (c.toNat % 0x40 + 0x80) (by omega)
        rw [List.cons_append, List.cons_append, List.cons_append,
          lossy_three (by omega) (second_of_three (by omega) (by omega) (by omega))
            (isUtf8Cont_byte (by omega)), hb, hs, ht, hOf (by omega)]
        rfl
      · have hb := @toNat_byte (c.toNat / 262144 % 0x08 + 0xf0) (by omega)
        have hs := @toNat_byte (c.toNat / 4096 % 0x40 + 0x80) (by omega)
        have ht := @toNat_byte (c.toNat / 64 % 0x40 + 0x80) (by omega)
        have hu := @toNat_byte (c.toNat % 0x40 + 0x80) (by omega)
        rw [List.cons_append, List.cons_append, List.cons_append, List.cons_append,
          lossy_four (by omega) (second_of_four (by omega) (by omega))
            (isUtf8Cont_byte (by omega)) (isUtf8Cont_byte (by omega)), hb, hs, ht, hu,
          hOf (by omega)]
        rfl

theorem lossy_utf8 (s : List Char) : fromUtf8Lossy (s.flatMap String.utf8EncodeChar) = s := by
  induction s with
  | nil => rfl
  | cons c s ih => rw [List.flatMap_cons, lossy_char, ih]

/-! ## Encoding -/

/-- The bytes that `encode_component` keeps. -/
def isPlainByte (b : UInt8) : Bool :=
  (48 ≤ b && b ≤ 57) || (65 ≤ b && b ≤ 90) || (97 ≤ b && b ≤ 122) ||
    (strBytes "-_.~!*'():/+,@").contains b

/-- A digit of `{:02X}`. -/
def upperHexDigit (n : Nat) : Char :=
  "0123456789ABCDEF".toList.getD n '0'

def encodeByte (b : UInt8) : List Char :=
  if isPlainByte b then [Char.ofNat b.toNat]
  else ['%', upperHexDigit (b.toNat / 16), upperHexDigit (b.toNat % 16)]

def encodeComponent (value : String) : List Char :=
  (strBytes value).flatMap encodeByte

theorem byte_cases {P : UInt8 → Prop} (h : ∀ n < 256, P (UInt8.ofNat n)) (b : UInt8) : P b := by
  have hP := h b.toNat b.toNat_lt
  rwa [UInt8.ofNat_toNat] at hP

theorem percentDecodeBytes_plain {b : UInt8} (h : b ≠ 37) (rest : List UInt8) :
    percentDecodeBytes (b :: rest) = b :: percentDecodeBytes rest := by
  match rest with
  | [] => rfl
  | [_] => rw [percentDecodeBytes.eq_def]; rfl
  | hi :: lo :: tail =>
    rw [percentDecodeBytes.eq_def]
    dsimp only
    rw [if_neg h]

theorem percentDecodeBytes_escape {hi lo : UInt8} {m n : Nat} (hHi : hexDigit hi = some m)
    (hLo : hexDigit lo = some n) (rest : List UInt8) :
    percentDecodeBytes (37 :: hi :: lo :: rest) =
      UInt8.ofNat (m * 16 + n) :: percentDecodeBytes rest := by
  rw [percentDecodeBytes.eq_def]
  dsimp only
  rw [if_pos rfl, hHi, hLo]

theorem hexDigit_upper {n : Nat} (h : n < 16) :
    String.utf8EncodeChar (upperHexDigit n) = [UInt8.ofNat (upperHexDigit n).toNat] ∧
      hexDigit (UInt8.ofNat (upperHexDigit n).toNat) = some n := by
  revert n
  decide

theorem plain_utf8 (b : UInt8) :
    isPlainByte b = true → b ≠ 37 ∧ String.utf8EncodeChar (Char.ofNat b.toNat) = [b] := by
  revert b
  exact byte_cases (by decide +kernel)

/-- A byte is read back from the way it is written. -/
theorem percentDecodeBytes_encodeByte (b : UInt8) (rest : List UInt8) :
    percentDecodeBytes ((encodeByte b).flatMap String.utf8EncodeChar ++ rest) =
      b :: percentDecodeBytes rest := by
  rw [encodeByte]
  split
  · rename_i h
    obtain ⟨hPercent, hUtf8⟩ := plain_utf8 b h
    rw [List.flatMap_singleton, hUtf8]
    exact percentDecodeBytes_plain hPercent rest
  · have hByte := b.toNat_lt
    obtain ⟨hHi, hHiDigit⟩ := @hexDigit_upper (b.toNat / 16) (by omega)
    obtain ⟨hLo, hLoDigit⟩ := @hexDigit_upper (b.toNat % 16) (by omega)
    have hPercent : String.utf8EncodeChar '%' = [37] := by decide
    have hSum : b.toNat / 16 * 16 + b.toNat % 16 = b.toNat := by omega
    simp only [List.flatMap_cons, List.flatMap_nil, hPercent, hHi, hLo, List.append_nil,
      List.cons_append, List.nil_append]
    rw [percentDecodeBytes_escape hHiDigit hLoDigit, hSum, UInt8.ofNat_toNat]

theorem percentDecodeBytes_encode (bytes : List UInt8) :
    percentDecodeBytes ((bytes.flatMap encodeByte).flatMap String.utf8EncodeChar) = bytes := by
  induction bytes with
  | nil => rfl
  | cons b bytes ih =>
    rw [List.flatMap_cons, List.flatMap_append, percentDecodeBytes_encodeByte, ih]

/-- A value is read back from its component. -/
theorem percentDecode_encodeComponent (value : String) :
    percentDecode (encodeComponent value) = value := by
  rw [percentDecode, encodeComponent, percentDecodeBytes_encode, strBytes, lossy_utf8,
    String.ofList_toList]

/-! ## Characters of a component -/

/-- What `encode_component` writes: its plain characters, and the escapes. -/
def isComponentChar (c : Char) : Bool :=
  c.isAlphanum || "-_.~!*'():/+,@%".toList.contains c

theorem encodeByte_chars (b : UInt8) : (encodeByte b).all isComponentChar = true := by
  revert b
  exact byte_cases (by decide +kernel)

theorem encodeComponent_chars {value : String} {c : Char} (h : c ∈ encodeComponent value) :
    isComponentChar c = true := by
  obtain ⟨b, _, hc⟩ := List.mem_flatMap.mp h
  exact List.all_eq_true.mp (encodeByte_chars b) c hc

end Ezpds.Auth
