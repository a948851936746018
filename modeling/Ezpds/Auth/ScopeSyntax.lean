import Ezpds.Auth.PercentCoding
import Ezpds.Library.Lowercase

/-!
# Scope tokens as text

A token is a prefix, a positional argument behind `:` and parameters behind `?`.
`format_scope` writes one down, and `ScopeSyntax::parse` reads it back.

* `parse_question`: the parameters are what stands behind the first `?`.
* `parse_format`: a token that was written is read back.
-/

namespace Ezpds.Auth

open Library Repo

/-! ## Parameters -/

/-- The values of a key, in order. -/
def valuesOf (params : List (String × String)) (key : String) : List String :=
  (params.filter fun p => p.1 == key).map Prod.snd

def ScopeSyntax.getMulti (s : ScopeSyntax) (key : String) : List String :=
  valuesOf s.params key

/-- `some none` says that the key is there more than once. -/
def ScopeSyntax.getSingle (s : ScopeSyntax) (key : String) : Option (Option String) :=
  match s.getMulti key with
  | [] => none
  | [v] => some (some v)
  | _ => some none

def keysAllowed (s : ScopeSyntax) (allowed : List String) : Bool :=
  s.params.all fun p => allowed.contains p.1

section Params

variable {params params' : List (String × String)} {key name : String} {values : List String}

@[simp] theorem valuesOf_nil : valuesOf [] key = [] := rfl

@[simp] theorem valuesOf_append :
    valuesOf (params ++ params') key = valuesOf params key ++ valuesOf params' key := by
  simp [valuesOf]

@[simp] theorem valuesOf_single {v : String} :
    valuesOf [(name, v)] key = if name = key then [v] else [] := by
  by_cases h : name = key
  · simp [valuesOf, h]
  · simp [valuesOf, h]

@[simp] theorem valuesOf_map :
    valuesOf (values.map fun v => (name, v)) key = if name = key then values else [] := by
  by_cases h : name = key
  · rw [if_pos h, valuesOf, List.filter_eq_self.mpr, List.map_map]
    · exact List.map_id values
    · simp [h]
  · rw [if_neg h, valuesOf, List.filter_eq_nil_iff.mpr, List.map_nil]
    simp [h]

theorem mem_valuesOf {v : String} : v ∈ valuesOf params key ↔ (key, v) ∈ params := by
  simp [valuesOf]

end Params

/-! ## Writing -/

def formatParam (p : String × String) : List Char :=
  p.1.toList ++ '=' :: encodeComponent p.2

def formatHead (scopePrefix : String) (positional : Option String) : List Char :=
  scopePrefix.toList ++
    match positional with
    | some pos => ':' :: encodeComponent pos
    | none => []

def formatScope (scopePrefix : String) (positional : Option String)
    (params : List (String × String)) : List Char :=
  formatHead scopePrefix positional ++
    if params.isEmpty then [] else '?' :: List.intercalate ['&'] (params.map formatParam)

def ScopeSyntax.format (s : ScopeSyntax) : List Char :=
  formatScope s.scopePrefix s.positional s.params

/-! ## Reading -/

theorem findIdx?_none {sep : Char} {s : List Char} (h : sep ∉ s) :
    s.findIdx? (· == sep) = none := by
  rw [List.findIdx?_eq_none_iff]
  intro c hc
  simp only [beq_eq_false_iff_ne, ne_eq]
  intro hEq
  exact h (hEq ▸ hc)

theorem findIdx?_sep {sep : Char} {before after : List Char} (h : sep ∉ before) :
    (before ++ sep :: after).findIdx? (· == sep) = some before.length := by
  rw [List.findIdx?_append, findIdx?_none h]
  simp [List.findIdx?_cons]

theorem parse_plain {s : List Char} (hColon : ':' ∉ s) (hQuestion : '?' ∉ s) :
    ScopeSyntax.parse s = ⟨String.ofList s, none, []⟩ := by
  rw [ScopeSyntax.parse, findIdx?_none hColon, findIdx?_none hQuestion]

theorem parse_colon {s pos : List Char} (hColon : ':' ∉ s) (hQuestion : '?' ∉ s)
    (hPos : '?' ∉ pos) :
    ScopeSyntax.parse (s ++ ':' :: pos) = ⟨String.ofList s, some (percentDecode pos), []⟩ := by
  have hNone : '?' ∉ s ++ ':' :: pos := by simp [hQuestion, hPos]
  rw [ScopeSyntax.parse, findIdx?_sep hColon, findIdx?_none hNone]
  simp

/-- The parameters of a token are what stands behind the first `?`. -/
theorem parse_question {head query : List Char} (h : '?' ∉ head) :
    ScopeSyntax.parse (head ++ '?' :: query) =
      { ScopeSyntax.parse head with params := parseQuery query } := by
  have hParams : (if head.length + 1 < (head ++ '?' :: query).length then
      parseQuery ((head ++ '?' :: query).drop (head.length + 1)) else []) = parseQuery query := by
    cases query with
    | nil => simp [parseQuery]
    | cons c query => simp
  by_cases hColon : ':' ∈ head
  · obtain ⟨s, pos, rfl, hs⟩ := List.eq_append_cons_of_mem hColon
    have hQuestion : '?' ∉ s ∧ '?' ∉ pos := by simpa using h
    have hFirst : ((s ++ ':' :: pos) ++ '?' :: query).findIdx? (· == ':') = some s.length := by
      rw [List.append_assoc, List.cons_append, findIdx?_sep hs]
    have hLt : s.length < (s ++ ':' :: pos).length := by simp
    rw [parse_colon hs hQuestion.1 hQuestion.2, ScopeSyntax.parse, hFirst, findIdx?_sep h]
    dsimp only
    rw [hParams, if_pos hLt, List.take_left]
    simp
  · rw [parse_plain hColon h, ScopeSyntax.parse, findIdx?_sep h]
    cases hFirst : (head ++ '?' :: query).findIdx? (· == ':') with
    | none =>
      dsimp only
      rw [hParams]
      simp
    | some c =>
      have hLe : ¬ c < head.length := by
        rw [List.findIdx?_append, findIdx?_none hColon, Option.none_or] at hFirst
        obtain ⟨i, _, rfl⟩ := Option.map_eq_some_iff.mp hFirst
        omega
      dsimp only
      rw [hParams, if_neg hLe, Nat.min_eq_right (by omega)]
      simp

/-! ## Reading what was written -/

/-- The prefix and the keys are words, which are written without escapes. -/
structure ScopeSyntax.Plain (s : ScopeSyntax) : Prop where
  scopePrefix : ∀ c ∈ s.scopePrefix.toList, c.isAlpha = true
  keys : ∀ p ∈ s.params, ∀ c ∈ p.1.toList, c.isAlpha = true

theorem encodeComponent_word {s : String} (h : ∀ c ∈ s.toList, c.isAlpha = true) :
    encodeComponent s = s.toList := by
  have hEach : ∀ c : Char, c.isAlpha = true →
      (String.utf8EncodeChar c).flatMap encodeByte = [c] := by
    intro c hc
    have hAscii : c.toNat < 128 := by
      delta Char.isAlpha Char.isUpper Char.isLower at hc
      simp only [Bool.or_eq_true, decide_eq_true_eq, Bool.and_eq_true] at hc
      have hVal : c.val.toNat = c.toNat := rfl
      rcases hc with hc | hc
      · have hLe : c.val.toNat ≤ 90 := hc.2
        omega
      · have hLe : c.val.toNat ≤ 122 := hc.2
        omega
    exact @ascii_cases (fun c => c.isAlpha = true →
      (String.utf8EncodeChar c).flatMap encodeByte = [c]) (by decide +kernel) c hAscii hc
  have hList : ∀ cs : List Char, (∀ c ∈ cs, c.isAlpha = true) →
      (cs.flatMap String.utf8EncodeChar).flatMap encodeByte = cs := by
    intro cs hcs
    induction cs with
    | nil => rfl
    | cons c cs ih =>
      rw [List.flatMap_cons, List.flatMap_append, hEach c (hcs c List.mem_cons_self),
        ih fun d hd => hcs d (List.mem_cons_of_mem _ hd)]
      rfl
  exact hList s.toList h

theorem percentDecode_word {s : String} (h : ∀ c ∈ s.toList, c.isAlpha = true) :
    percentDecode s.toList = s := by
  conv_lhs => rw [← encodeComponent_word h]
  exact percentDecode_encodeComponent s

theorem not_mem_encodeComponent {value : String} {c : Char} (h : isComponentChar c = false) :
    c ∉ encodeComponent value := by
  intro hMem
  rw [encodeComponent_chars hMem] at h
  cases h

theorem not_mem_word {s : String} {c : Char} (h : ∀ c ∈ s.toList, c.isAlpha = true)
    (hc : c.isAlpha = false) : c ∉ s.toList := by
  intro hMem
  rw [h c hMem] at hc
  cases hc

theorem parseQuery_intercalate {params : List (String × String)} (hParams : params ≠ [])
    (hKeys : ∀ p ∈ params, ∀ c ∈ p.1.toList, c.isAlpha = true) :
    parseQuery (List.intercalate ['&'] (params.map formatParam)) = params := by
  have hSep : ∀ seg ∈ params.map formatParam, '&' ∉ seg := by
    intro seg hSeg
    obtain ⟨p, hp, rfl⟩ := List.mem_map.mp hSeg
    have hKey := not_mem_word (hKeys p hp) (by decide : '&'.isAlpha = false)
    have hValue := @not_mem_encodeComponent p.2 '&' (by decide)
    simp [formatParam, hKey, hValue]
  have hFilter : (params.map formatParam).filter (fun seg => !seg.isEmpty) =
      params.map formatParam := by
    rw [List.filter_eq_self]
    intro seg hSeg
    obtain ⟨p, _, rfl⟩ := List.mem_map.mp hSeg
    simp [formatParam]
  rw [parseQuery, List.splitOn_intercalate _ hSep (by simpa using hParams), hFilter, List.map_map]
  conv_rhs => rw [← List.map_id params]
  apply List.map_congr_left
  intro p hp
  have hKey := not_mem_word (hKeys p hp) (by decide : '='.isAlpha = false)
  rw [Function.comp_apply, formatParam, splitOnce_append hKey]
  dsimp only
  rw [percentDecode_word (hKeys p hp), percentDecode_encodeComponent]
  rfl

theorem parse_formatHead {scopePrefix : String} {positional : Option String}
    (h : ∀ c ∈ scopePrefix.toList, c.isAlpha = true) :
    '?' ∉ formatHead scopePrefix positional ∧
      ScopeSyntax.parse (formatHead scopePrefix positional) = ⟨scopePrefix, positional, []⟩ := by
  have hColon := not_mem_word h (by decide : ':'.isAlpha = false)
  have hQuestion := not_mem_word h (by decide : '?'.isAlpha = false)
  unfold formatHead
  cases positional with
  | none =>
    dsimp only
    rw [List.append_nil, parse_plain hColon hQuestion, String.ofList_toList]
    exact ⟨hQuestion, rfl⟩
  | some pos =>
    have hPos := @not_mem_encodeComponent pos '?' (by decide)
    dsimp only
    rw [parse_colon hColon hQuestion hPos, percentDecode_encodeComponent, String.ofList_toList]
    refine ⟨?_, rfl⟩
    simp [hQuestion, hPos]

/-- A token that was written is read back. -/
theorem parse_format {s : ScopeSyntax} (h : s.Plain) : ScopeSyntax.parse s.format = s := by
  obtain ⟨hQuestion, hParse⟩ := @parse_formatHead _ s.positional h.scopePrefix
  rw [ScopeSyntax.format, formatScope]
  by_cases hParams : s.params = []
  · rw [hParams, List.isEmpty_nil, if_pos rfl, List.append_nil, hParse, ← hParams]
  · rw [if_neg (by simpa using hParams), parse_question hQuestion, hParse,
      parseQuery_intercalate hParams h.keys]

end Ezpds.Auth
