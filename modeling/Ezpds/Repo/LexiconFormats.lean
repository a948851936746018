import Ezpds.Repo.Tid
import Ezpds.Library.Bytes
import Ezpds.Library.Lowercase

/-!
# Formats of record keys

The record lexicon and the parameters of requests each check record keys and TIDs for
themselves, the first byte by byte and the second by the characters of the key.

* `RecordKey`: the keys that each of the checks accepts.
* `isValidTid_agree`: one set of TIDs.
* `tid_codec`: they are the encodings of the 64-bit integers, in the order of these.
-/

namespace Ezpds.Repo

open Library

/-- `u8::is_ascii_alphanumeric` -/
def isAlphanumByte (b : UInt8) : Bool :=
  (48 ≤ b && b ≤ 57) || (65 ≤ b && b ≤ 90) || (97 ≤ b && b ≤ 122)

def isRkeyByte (b : UInt8) : Bool :=
  isAlphanumByte b || ['.', '_', '~', ':', '-'].any fun c => b == UInt8.ofNat c.toNat

def TID_FIRST : String := "234567abcdefghij"

def TID_ALPHABET : String := "234567abcdefghijklmnopqrstuvwxyz"

/-! ## The record lexicon -/

namespace Lexicon

structure LexiconRecordError where
  path : String
  reason : String
  deriving DecidableEq, Repr

def isValidRecordKey (value : String) : Bool :=
  !value.isEmpty && (strBytes value).length ≤ 512 && value != "." && value != ".." &&
    (strBytes value).all isRkeyByte

def isValidTid (value : String) : Bool :=
  (strBytes value).length == 13 && (strBytes value).head?.any (strBytes TID_FIRST).contains &&
    (strBytes value).all (strBytes TID_ALPHABET).contains

def validateRecordKey (kind rkey : String) : Except LexiconRecordError Unit :=
  let valid :=
    if "literal:".toList.isPrefixOf kind.toList then rkey.toList == kind.toList.drop 8
    else if kind == "tid" then isValidTid rkey
    else if kind == "nsid" then (validateCollection rkey).isOk
    else if kind == "any" then isValidRecordKey rkey
    else false
  if valid then .ok () else .error ⟨"record key", "does not satisfy `" ++ kind ++ "`"⟩

end Lexicon

/-! ## The parameters of requests -/

namespace Formats

def isValidRecordKey (value : String) : Bool :=
  if value.isEmpty || (strBytes value).length > 512 || value == "." || value == ".." then false
  else (strBytes value).all isRkeyByte

/-- The text is not empty where its first character is taken. -/
def isValidTid (value : String) : Bool :=
  if (strBytes value).length != 13 then false
  else
    value.toList.head?.any TID_FIRST.toList.contains &&
      value.toList.all TID_ALPHABET.toList.contains

end Formats

/-! ## The alphabets -/

theorem isRkeyByte_ascii (b : UInt8) (h : isRkeyByte b = true) : b.toNat < 128 := by
  apply byte_cases (P := fun b => isRkeyByte b = true → b.toNat < 128)
  · decide +kernel
  · exact h

theorem isRkeyChar_ascii {c : Char} (h : isRkeyChar c = true) : c.toNat < 128 := by
  simp only [isRkeyChar, Bool.or_eq_true, beq_iff_eq] at h
  rcases h with ((((h | rfl) | rfl) | rfl) | rfl) | rfl
  · exact isAlphanum_ascii h
  all_goals decide

theorem all_isRkeyByte (s : String) : (strBytes s).all isRkeyByte = s.toList.all isRkeyChar := by
  rw [strBytes, all_utf8 isRkeyByte_ascii]
  congr 1
  funext c
  by_cases hAscii : c.toNat < 128
  · rw [decide_eq_true hAscii, Bool.true_and]
    exact @ascii_cases (fun c => isRkeyByte (UInt8.ofNat c.toNat) = isRkeyChar c) (by decide) c
      hAscii
  · rw [decide_eq_false hAscii, Bool.false_and]
    exact (Bool.eq_false_iff.mpr fun h => hAscii (isRkeyChar_ascii h)).symm

/-- The keys that every check accepts. -/
structure RecordKey (rkey : String) : Prop where
  nonempty : rkey ≠ ""
  length : (strBytes rkey).length ≤ 512
  relative : rkey ≠ "." ∧ rkey ≠ ".."
  chars : rkey.toList.all isRkeyChar = true

theorem Lexicon.isValidRecordKey_iff {rkey : String} :
    isValidRecordKey rkey = true ↔ RecordKey rkey := by
  rw [isValidRecordKey, all_isRkeyByte]
  simp only [Bool.and_eq_true, Bool.not_eq_true', decide_eq_true_eq, bne_iff_ne]
  constructor
  · intro h
    obtain ⟨⟨⟨⟨hEmpty, hLength⟩, hDot⟩, hDots⟩, hChars⟩ := h
    exact ⟨by simpa using hEmpty, hLength, ⟨hDot, hDots⟩, hChars⟩
  · intro h
    exact ⟨⟨⟨⟨by simpa using h.nonempty, h.length⟩, h.relative.1⟩, h.relative.2⟩, h.chars⟩

theorem Formats.isValidRecordKey_iff {rkey : String} :
    isValidRecordKey rkey = true ↔ RecordKey rkey := by
  rw [isValidRecordKey, all_isRkeyByte]
  constructor
  · intro h
    split at h
    · cases h
    · rename_i hNot
      simp only [Bool.or_eq_true, decide_eq_true_eq, beq_iff_eq, not_or, Nat.not_lt] at hNot
      obtain ⟨⟨⟨hEmpty, hLength⟩, hDot⟩, hDots⟩ := hNot
      exact ⟨by simpa using hEmpty, hLength, ⟨hDot, hDots⟩, h⟩
  · intro h
    have hNot : (rkey.isEmpty || (strBytes rkey).length > 512 || rkey == "." || rkey == "..") =
        false := by
      simp [h.nonempty, h.length, h.relative]
    rw [hNot]
    exact h.chars

theorem validateRecordPath_iff {collection rkey : String} :
    validateRecordPath collection rkey = .ok () ↔
      validateCollection collection = .ok () ∧ RecordKey rkey := by
  rw [validateRecordPath]
  cases hCollection : validateCollection collection with
  | error e => simp
  | ok _ =>
    constructor
    · intro h
      simp only at h
      split at h
      · cases h
      · rename_i hNot
        simp only [Bool.or_eq_true, decide_eq_true_eq, beq_iff_eq, not_or, Nat.not_lt] at hNot
        obtain ⟨⟨⟨hEmpty, hLength⟩, hDot⟩, hDots⟩ := hNot
        split at h
        · rename_i hChars
          exact ⟨rfl, by simpa using hEmpty, hLength, ⟨hDot, hDots⟩, hChars⟩
        · cases h
    · intro h
      obtain ⟨_, hKey⟩ := h
      have hNot : (rkey.isEmpty || (strBytes rkey).length > 512 || rkey == "." ||
          rkey == "..") = false := by
        simp [hKey.nonempty, hKey.length, hKey.relative]
      simp only [hNot, hKey.chars]
      rfl

/-! ## TIDs -/

theorem tidChars_ascii {c : Char} (h : TID_ALPHABET.toList.contains c = true) :
    c.toNat < 128 := by
  have hAll : (TID_ALPHABET.toList.all fun c => decide (c.toNat < 128)) = true := by
    decide +kernel
  simpa using List.all_eq_true.mp hAll c (List.contains_iff_mem.mp h)

def asciiByte (c : Char) : UInt8 := UInt8.ofNat c.toNat

theorem asciiByte_inj {c d : Char} (hc : c.toNat < 128) (hd : d.toNat < 128)
    (h : asciiByte c = asciiByte d) : c = d := by
  have hNat := congrArg UInt8.toNat h
  simp only [asciiByte, UInt8.toNat_ofNat'] at hNat
  rw [Nat.mod_eq_of_lt (by omega), Nat.mod_eq_of_lt (by omega)] at hNat
  exact Char.toNat_inj.mp hNat

theorem alphabet_bytes : strBytes TID_ALPHABET = TID_ALPHABET.toList.map asciiByte := by
  decide +kernel

theorem first_bytes : strBytes TID_FIRST = TID_FIRST.toList.map asciiByte := by
  decide +kernel

theorem first_subset : TID_FIRST.toList ⊆ TID_ALPHABET.toList := by
  decide +kernel

theorem contains_asciiByte {l : List Char} (hl : l ⊆ TID_ALPHABET.toList) {c : Char}
    (h : c.toNat < 128) : (l.map asciiByte).contains (asciiByte c) = l.contains c := by
  rw [Bool.eq_iff_iff, List.contains_iff_mem, List.contains_iff_mem, List.mem_map]
  constructor
  · rintro ⟨d, hd, hEq⟩
    have hAscii := tidChars_ascii (List.contains_iff_mem.mpr (hl hd))
    rwa [← asciiByte_inj hAscii h hEq]
  · intro hc
    exact ⟨c, hc, rfl⟩

theorem tidBytes_ascii (b : UInt8) (h : (strBytes TID_ALPHABET).contains b = true) :
    b.toNat < 128 := by
  rw [alphabet_bytes, List.contains_iff_mem, List.mem_map] at h
  obtain ⟨c, hc, rfl⟩ := h
  have hAscii := tidChars_ascii (List.contains_iff_mem.mpr hc)
  rw [asciiByte, UInt8.toNat_ofNat', Nat.mod_eq_of_lt (by omega)]
  exact hAscii

theorem tid_ascii {c : Char} (h : c.toNat < 128) :
    (strBytes TID_ALPHABET).contains (UInt8.ofNat c.toNat) = TID_ALPHABET.toList.contains c ∧
      (strBytes TID_FIRST).contains (UInt8.ofNat c.toNat) = TID_FIRST.toList.contains c := by
  rw [alphabet_bytes, first_bytes]
  exact ⟨contains_asciiByte (List.Subset.refl _) h, contains_asciiByte first_subset h⟩

theorem all_tidBytes (s : String) :
    (strBytes s).all (strBytes TID_ALPHABET).contains =
      s.toList.all TID_ALPHABET.toList.contains := by
  rw [strBytes, all_utf8 tidBytes_ascii]
  congr 1
  funext c
  by_cases hAscii : c.toNat < 128
  · rw [decide_eq_true hAscii, Bool.true_and, (tid_ascii hAscii).1]
  · rw [decide_eq_false hAscii, Bool.false_and]
    exact (Bool.eq_false_iff.mpr fun h => hAscii (tidChars_ascii h)).symm

theorem isValidTid_agree (value : String) :
    Lexicon.isValidTid value = Formats.isValidTid value := by
  rw [Lexicon.isValidTid, Formats.isValidTid, all_tidBytes]
  by_cases hLength : (strBytes value).length = 13
  · cases hAll : value.toList.all TID_ALPHABET.toList.contains with
    | false => simp
    | true =>
      have hAscii : ∀ c ∈ value.toList, c.toNat < 128 := fun c hc =>
        tidChars_ascii (List.all_eq_true.mp hAll c hc)
      have hBytes : strBytes value = value.toList.map fun c => UInt8.ofNat c.toNat :=
        utf8_ascii hAscii
      have hHead : (strBytes value).head?.any (strBytes TID_FIRST).contains =
          value.toList.head?.any TID_FIRST.toList.contains := by
        rw [hBytes]
        cases hText : value.toList with
        | nil => rfl
        | cons c cs =>
          have hFirst := hAscii c (by rw [hText]; exact List.mem_cons_self)
          exact (tid_ascii hFirst).2
      simp [hLength, hHead]
  · simp [hLength]

/-- The lexicon accepts the TIDs that a repository accepts as revs. -/
theorem isValidTid_lexicon (value : String) : Lexicon.isValidTid value = isValidTid value := by
  rw [isValidTid_agree, Formats.isValidTid, isValidTid]
  by_cases hLength : (strBytes value).length = 13
  · simp only [hLength, bne_self_eq_false, Bool.false_eq_true, if_false, ne_eq, not_true_eq_false]
    cases value.toList with
    | nil => rfl
    | cons first rest =>
      show (TID_FIRST.toList.contains first &&
          (TID_ALPHABET.toList.contains first && rest.all TID_ALPHABET.toList.contains)) =
        (TID_FIRST.toList.contains first && rest.all TID_ALPHABET.toList.contains)
      cases hFirst : TID_FIRST.toList.contains first with
      | false => rfl
      | true =>
        have hMem := first_subset (List.contains_iff_mem.mp hFirst)
        rw [List.contains_iff_mem.mpr hMem, Bool.true_and]
  · simp [hLength]

/-- The codec of TIDs: it is inverse on the 64-bit integers, it keeps their order, and every text
that the lexicon accepts is the encoding of its value. -/
theorem tid_codec :
    (∀ v : UInt64, decodeTid (encodeTid v.toNat) = v.toNat) ∧
      (∀ v w : UInt64, v < w ↔ encodeTid v.toNat < encodeTid w.toNat) ∧
      ∀ t, Lexicon.isValidTid t = true → encodeTid (decodeTid t) = t := by
  refine ⟨fun v => decodeTid_encodeTid v.toNat_lt, fun v w => ?_, fun t ht => ?_⟩
  · rw [encodeTid_lt_iff v.toNat_lt w.toNat_lt, UInt64.lt_iff_toNat_lt]
  · rw [isValidTid_lexicon] at ht
    exact (isValidTid_iff.mp ht).2

theorem tid_codec_sample : encodeTid (decodeTid "3ke6kg3wk222b") = "3ke6kg3wk222b" :=
  tid_codec.2.2 "3ke6kg3wk222b" (by decide +kernel)

end Ezpds.Repo
