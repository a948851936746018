import Ezpds.Library.FixedDigits
import Mathlib.Data.List.Lex
import Mathlib.Data.List.Sort
import Mathlib.Data.Prod.Lex
import Mathlib.Tactic.Common

/-!
# CBOR items

The part of CBOR that consists of null, texts, arrays and maps with text keys, in the
deterministic encoding: definite lengths, in as few bytes as they need.

* `encode_append_inj`, `encode_inj`: the bytes of an item determine it.
* `canonicalSort_increasing`: entries in the canonical order of their keys, shorter keys
  first and then bytewise.
-/

namespace Ezpds.Library

inductive CborItem where
  | null
  | text (s : String)
  | array (items : List CborItem)
  | map (entries : List (String × CborItem))

/-- The bytes of a text in UTF-8. -/
def utf8 (s : String) : List UInt8 :=
  s.toList.flatMap String.utf8EncodeChar

theorem utf8_inj {s t : String} : utf8 s = utf8 t ↔ s = t := by
  constructor
  · intro h
    have hBytes : s.toList.utf8Encode = t.toList.utf8Encode := congrArg List.toByteArray h
    rwa [String.utf8Encode_toList, String.utf8Encode_toList, String.toByteArray_inj] at hBytes
  · intro h
    rw [h]

/-! ## Heads -/

/-- The low five bits of a head: the number itself, or how many bytes it takes. -/
def cborMinor (n : Nat) : Nat :=
  if n < 24 then n else if n < 2 ^ 8 then 24 else if n < 2 ^ 16 then 25
  else if n < 2 ^ 32 then 26 else 27

/-- The bytes of the number behind a head. -/
def cborWidth (minor : Nat) : Nat :=
  if minor < 24 then 0 else 2 ^ (minor - 24)

/-- The head of an item: its major type and a number. -/
def cborHead (major n : Nat) : List UInt8 :=
  UInt8.ofNat (major * 32 + cborMinor n) ::
    (fixedDigits 256 (cborWidth (cborMinor n)) n).map UInt8.ofNat

theorem cborMinor_lt (n : Nat) : cborMinor n < 32 := by
  unfold cborMinor
  split_ifs <;> omega

theorem lt_cborWidth {n : Nat} (h : n < 2 ^ 64) (hLarge : ¬ n < 24) :
    n < 256 ^ cborWidth (cborMinor n) := by
  unfold cborMinor
  split_ifs with h8 h16 h32
  · simpa [cborWidth] using h8
  · simpa [cborWidth] using h16
  · simpa [cborWidth] using h32
  · simpa [cborWidth] using h

theorem map_ofNat_digits_inj {l l' : List Nat} (h : ∀ d ∈ l, d < 256) (h' : ∀ d ∈ l', d < 256)
    (hEq : l.map UInt8.ofNat = l'.map UInt8.ofNat) : l = l' := by
  have hRead : ∀ {l : List Nat}, (∀ d ∈ l, d < 256) →
      (l.map UInt8.ofNat).map UInt8.toNat = l := by
    intro l hl
    rw [List.map_map]
    conv_rhs => rw [← List.map_id l]
    apply List.map_congr_left
    intro d hd
    simp only [Function.comp_apply, UInt8.toNat_ofNat', id_eq]
    exact Nat.mod_eq_of_lt (hl d hd)
  rw [← hRead h, ← hRead h', hEq]

/-- A head determines its major type and its number, whatever follows. -/
theorem cborHead_append_inj {major major' n n' : Nat} {rest rest' : List UInt8}
    (hMajor : major < 8) (hMajor' : major' < 8) (hn : n < 2 ^ 64) (hn' : n' < 2 ^ 64)
    (h : cborHead major n ++ rest = cborHead major' n' ++ rest') :
    major = major' ∧ n = n' ∧ rest = rest' := by
  have hMinor := cborMinor_lt n
  have hMinor' := cborMinor_lt n'
  rw [cborHead, cborHead, List.cons_append, List.cons_append, List.cons.injEq] at h
  obtain ⟨hFirst, hRest⟩ := h
  have hByte := congrArg UInt8.toNat hFirst
  rw [UInt8.toNat_ofNat', UInt8.toNat_ofNat'] at hByte
  have hParts : major = major' ∧ cborMinor n = cborMinor n' := by omega
  rw [hParts.2] at hRest
  obtain ⟨hDigits, hTail⟩ := List.append_inj hRest (by simp)
  refine ⟨hParts.1, ?_, hTail⟩
  by_cases hSmall : n < 24
  · have hSame : n' < 24 → n = n' := by
      intro hSmall'
      have hEq := hParts.2
      rwa [cborMinor, if_pos hSmall, cborMinor, if_pos hSmall'] at hEq
    apply hSame
    by_contra hLarge'
    have hEq := hParts.2
    rw [cborMinor, if_pos hSmall, cborMinor, if_neg hLarge'] at hEq
    split_ifs at hEq <;> omega
  · have hLarge' : ¬ n' < 24 := by
      intro hSmall'
      have hEq := hParts.2
      rw [cborMinor, if_neg hSmall, cborMinor, if_pos hSmall'] at hEq
      split_ifs at hEq <;> omega
    have hLess : ∀ {w v : Nat}, ∀ d ∈ fixedDigits 256 w v, d < 256 := fun d hd =>
      lt_of_mem_fixedDigits (by decide) hd
    have hValue := congrArg (digitsValue 256) (map_ofNat_digits_inj hLess hLess hDigits)
    have hLt := lt_cborWidth hn hSmall
    rw [hParts.2] at hLt
    rwa [digitsValue_fixedDigits, digitsValue_fixedDigits, Nat.mod_eq_of_lt hLt,
      Nat.mod_eq_of_lt (lt_cborWidth hn' hLarge')] at hValue

/-! ## Items -/

def cborText (s : String) : List UInt8 :=
  cborHead 3 (utf8 s).length ++ utf8 s

namespace CborItem

/-- Induction over an item: arrays by their items, maps by their values. -/
@[elab_as_elim, induction_eliminator]
theorem ind {P : CborItem → Prop} (null : P null) (text : ∀ s, P (text s))
    (array : ∀ items, (∀ i ∈ items, P i) → P (array items))
    (map : ∀ entries, (∀ e ∈ entries, P e.2) → P (map entries)) (item : CborItem) : P item := by
  apply @CborItem.rec P (fun items => ∀ i ∈ items, P i) (fun entries => ∀ e ∈ entries, P e.2)
    (fun e => P e.2)
  · exact null
  · exact text
  · exact array
  · exact map
  · intro i hi
    cases hi
  · intro head tail hHead hTail i hi
    rcases List.mem_cons.mp hi with rfl | hi
    · exact hHead
    · exact hTail i hi
  · intro e he
    cases he
  · intro head tail hHead hTail e he
    rcases List.mem_cons.mp he with rfl | he
    · exact hHead
    · exact hTail e he
  · intro _ _ h
    exact h

mutual

def encode : CborItem → List UInt8
  | null => cborHead 7 22
  | text s => cborText s
  | array items => cborHead 4 items.length ++ encodeItems items
  | map entries => cborHead 5 entries.length ++ encodeEntries entries

def encodeItems : List CborItem → List UInt8
  | [] => []
  | i :: items => encode i ++ encodeItems items

def encodeEntries : List (String × CborItem) → List UInt8
  | [] => []
  | (key, value) :: entries => cborText key ++ encode value ++ encodeEntries entries

end

/-- The lengths in an item are 64-bit numbers. -/
inductive Fits : CborItem → Prop
  | null : Fits null
  | text {s : String} (hText : (utf8 s).length < 2 ^ 64) : Fits (text s)
  | array {items : List CborItem} (hLength : items.length < 2 ^ 64) (hItems : ∀ i ∈ items, Fits i) :
      Fits (array items)
  | map {entries : List (String × CborItem)} (hLength : entries.length < 2 ^ 64)
      (hKeys : ∀ e ∈ entries, (utf8 e.1).length < 2 ^ 64) (hValues : ∀ e ∈ entries, Fits e.2) :
      Fits (map entries)

theorem cborText_append_inj {s t : String} {rest rest' : List UInt8}
    (hs : (utf8 s).length < 2 ^ 64) (ht : (utf8 t).length < 2 ^ 64)
    (h : cborText s ++ rest = cborText t ++ rest') : s = t ∧ rest = rest' := by
  rw [cborText, cborText, List.append_assoc, List.append_assoc] at h
  obtain ⟨_, hLength, hBytes⟩ := cborHead_append_inj (by decide) (by decide) hs ht h
  obtain ⟨hText, hRest⟩ := List.append_inj hBytes hLength
  exact ⟨utf8_inj.mp hText, hRest⟩

/-- The bytes of an item determine it, whatever follows. -/
def Determined (item : CborItem) : Prop :=
  ∀ {item' : CborItem} {rest rest' : List UInt8}, item.Fits → item'.Fits →
    encode item ++ rest = encode item' ++ rest' → item = item' ∧ rest = rest'

theorem encodeItems_append_inj {items items' : List CborItem} {rest rest' : List UInt8}
    (hItems : ∀ i ∈ items, Determined i) (hFits : ∀ i ∈ items, Fits i)
    (hFits' : ∀ i ∈ items', Fits i) (hLength : items.length = items'.length)
    (h : encodeItems items ++ rest = encodeItems items' ++ rest') :
    items = items' ∧ rest = rest' := by
  induction items generalizing items' with
  | nil =>
    rw [List.length_nil] at hLength
    rw [List.length_eq_zero_iff.mp hLength.symm] at h ⊢
    exact ⟨rfl, h⟩
  | cons i items ih =>
    cases items' with
    | nil => simp at hLength
    | cons i' items' =>
      rw [encodeItems, encodeItems, List.append_assoc, List.append_assoc] at h
      obtain ⟨hHead, hTail⟩ := hItems i List.mem_cons_self (hFits i List.mem_cons_self)
        (hFits' i' List.mem_cons_self) h
      obtain ⟨hRestItems, hRest⟩ := ih (fun j hj => hItems j (List.mem_cons_of_mem _ hj))
        (fun j hj => hFits j (List.mem_cons_of_mem _ hj))
        (fun j hj => hFits' j (List.mem_cons_of_mem _ hj)) (by simpa using hLength) hTail
      rw [hHead, hRestItems]
      exact ⟨rfl, hRest⟩

theorem encodeEntries_append_inj {entries entries' : List (String × CborItem)}
    {rest rest' : List UInt8} (hValues : ∀ e ∈ entries, Determined e.2)
    (hKeys : ∀ e ∈ entries, (utf8 e.1).length < 2 ^ 64)
    (hKeys' : ∀ e ∈ entries', (utf8 e.1).length < 2 ^ 64)
    (hFits : ∀ e ∈ entries, Fits e.2) (hFits' : ∀ e ∈ entries', Fits e.2)
    (hLength : entries.length = entries'.length)
    (h : encodeEntries entries ++ rest = encodeEntries entries' ++ rest') :
    entries = entries' ∧ rest = rest' := by
  induction entries generalizing entries' with
  | nil =>
    rw [List.length_nil] at hLength
    rw [List.length_eq_zero_iff.mp hLength.symm] at h ⊢
    exact ⟨rfl, h⟩
  | cons e entries ih =>
    cases entries' with
    | nil => simp at hLength
    | cons e' entries' =>
      obtain ⟨key, value⟩ := e
      obtain ⟨key', value'⟩ := e'
      simp only [encodeEntries, List.append_assoc] at h
      obtain ⟨rfl, hValue⟩ := cborText_append_inj (hKeys _ List.mem_cons_self)
        (hKeys' _ List.mem_cons_self) h
      obtain ⟨rfl, hTail⟩ := hValues _ List.mem_cons_self (hFits _ List.mem_cons_self)
        (hFits' _ List.mem_cons_self) hValue
      obtain ⟨hEntries, hRest⟩ := ih (fun d hd => hValues d (List.mem_cons_of_mem _ hd))
        (fun d hd => hKeys d (List.mem_cons_of_mem _ hd))
        (fun d hd => hKeys' d (List.mem_cons_of_mem _ hd))
        (fun d hd => hFits d (List.mem_cons_of_mem _ hd))
        (fun d hd => hFits' d (List.mem_cons_of_mem _ hd)) (by simpa using hLength) hTail
      rw [hEntries]
      exact ⟨rfl, hRest⟩

/-- The major type of an item. -/
def majorType : CborItem → Nat
  | null => 7
  | text _ => 3
  | array _ => 4
  | map _ => 5

theorem encode_head {item : CborItem} (h : item.Fits) :
    ∃ n tail, n < 2 ^ 64 ∧ encode item = cborHead item.majorType n ++ tail := by
  cases h with
  | null => exact ⟨22, [], by decide, by rw [encode, List.append_nil, majorType]⟩
  | text hText => exact ⟨_, _, hText, by rw [encode, cborText, majorType]⟩
  | array hLength hItems => exact ⟨_, _, hLength, by rw [encode, majorType]⟩
  | map hLength hKeys hValues => exact ⟨_, _, hLength, by rw [encode, majorType]⟩

theorem majorType_lt (item : CborItem) : item.majorType < 8 := by
  cases item <;> simp [majorType]

theorem majorType_eq {item item' : CborItem} {rest rest' : List UInt8} (hFits : item.Fits)
    (hFits' : item'.Fits) (h : encode item ++ rest = encode item' ++ rest') :
    item.majorType = item'.majorType := by
  obtain ⟨n, tail, hn, hEncode⟩ := encode_head hFits
  obtain ⟨n', tail', hn', hEncode'⟩ := encode_head hFits'
  rw [hEncode, hEncode', List.append_assoc, List.append_assoc] at h
  exact (cborHead_append_inj item.majorType_lt item'.majorType_lt hn hn' h).1

theorem encode_append_inj (item : CborItem) : Determined item := by
  induction item with
  | null =>
    intro item' rest rest' hFits hFits' h
    have hMajor := majorType_eq hFits hFits' h
    cases hFits' with
    | null => exact ⟨rfl, List.append_cancel_left h⟩
    | _ => cases hMajor
  | text s =>
    intro item' rest rest' hFits hFits' h
    have hMajor := majorType_eq hFits hFits' h
    cases hFits with
    | text hText =>
      cases hFits' with
      | text hText' =>
        rw [encode, encode] at h
        obtain ⟨rfl, hRest⟩ := cborText_append_inj hText hText' h
        exact ⟨rfl, hRest⟩
      | _ => cases hMajor
  | array items ih =>
    intro item' rest rest' hFits hFits' h
    have hMajor := majorType_eq hFits hFits' h
    cases hFits with
    | array hLength hItems =>
      cases hFits' with
      | array hLength' hItems' =>
        rw [encode, encode, List.append_assoc, List.append_assoc] at h
        obtain ⟨_, hSame, hTail⟩ :=
          cborHead_append_inj (by decide) (by decide) hLength hLength' h
        obtain ⟨rfl, hRest⟩ := encodeItems_append_inj ih hItems hItems' hSame hTail
        exact ⟨rfl, hRest⟩
      | _ => cases hMajor
  | map entries ih =>
    intro item' rest rest' hFits hFits' h
    have hMajor := majorType_eq hFits hFits' h
    cases hFits with
    | map hLength hKeys hValues =>
      cases hFits' with
      | map hLength' hKeys' hValues' =>
        rw [encode, encode, List.append_assoc, List.append_assoc] at h
        obtain ⟨_, hSame, hTail⟩ :=
          cborHead_append_inj (by decide) (by decide) hLength hLength' h
        obtain ⟨rfl, hRest⟩ :=
          encodeEntries_append_inj ih hKeys hKeys' hValues hValues' hSame hTail
        exact ⟨rfl, hRest⟩
      | _ => cases hMajor

theorem encode_inj {item item' : CborItem} (hFits : item.Fits) (hFits' : item'.Fits)
    (h : encode item = encode item') : item = item' := by
  have hAppend : encode item ++ [] = encode item' ++ [] := by rw [h]
  exact (encode_append_inj item hFits hFits' hAppend).1

end CborItem

/-! ## The canonical order -/

/-- Keys compare by their lengths, and by their bytes if these agree. -/
def canonicalKey (s : String) : ℕ ×ₗ List ℕ :=
  toLex ((utf8 s).length, (utf8 s).map UInt8.toNat)

theorem canonicalKey_inj {s t : String} (h : canonicalKey s = canonicalKey t) : s = t := by
  have hBytes : (utf8 s).map UInt8.toNat = (utf8 t).map UInt8.toNat :=
    congrArg (fun key => (ofLex key).2) h
  exact utf8_inj.mp (List.map_injective_iff.mpr (fun _ _ => UInt8.toNat_inj.mp) hBytes)

/-- Entries in the canonical order of their keys. -/
def canonicalSort {β : Type} (entries : List (String × β)) : List (String × β) :=
  entries.insertionSort fun e e' => canonicalKey e.1 ≤ canonicalKey e'.1

/-- Every map in the item has its keys in the canonical order, none of them twice. -/
inductive CborItem.Canonical : CborItem → Prop
  | null : Canonical null
  | text (s : String) : Canonical (text s)
  | array {items : List CborItem} (hItems : ∀ i ∈ items, Canonical i) : Canonical (array items)
  | map {entries : List (String × CborItem)}
      (hKeys : (entries.map Prod.fst).Pairwise fun a b => canonicalKey a < canonicalKey b)
      (hValues : ∀ e ∈ entries, Canonical e.2) : Canonical (map entries)

variable {β : Type} {entries : List (String × β)}

theorem perm_canonicalSort (entries : List (String × β)) :
    (canonicalSort entries).Perm entries :=
  List.perm_insertionSort _ _

/-- Entries with keys of their own are sorted without ties. -/
theorem canonicalSort_increasing (h : (entries.map Prod.fst).Nodup) :
    ((canonicalSort entries).map Prod.fst).Pairwise fun a b =>
      canonicalKey a < canonicalKey b := by
  have hSorted : (canonicalSort entries).Pairwise fun e e' =>
      canonicalKey e.1 ≤ canonicalKey e'.1 := by
    have hTotal : @Std.Total (String × β) fun e e' => canonicalKey e.1 ≤ canonicalKey e'.1 :=
      ⟨fun e e' => le_total _ _⟩
    have hTrans : IsTrans (String × β) fun e e' => canonicalKey e.1 ≤ canonicalKey e'.1 :=
      ⟨fun _ _ _ => le_trans⟩
    exact List.pairwise_insertionSort _ _
  have hNodup : ((canonicalSort entries).map Prod.fst).Nodup :=
    ((perm_canonicalSort entries).map Prod.fst).nodup_iff.mpr h
  rw [List.pairwise_map]
  refine (hSorted.and (List.pairwise_map.mp hNodup)).imp ?_
  intro e e' hBoth
  exact lt_of_le_of_ne hBoth.1 fun hEq => hBoth.2 (canonicalKey_inj hEq)

end Ezpds.Library
