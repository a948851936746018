import Ezpds.Spaces.StructuredFields
import Mathlib.Data.Option.Basic

/-!
# What the parser of structured fields accepts

Every parsed value is in its canonical form, and no key stands twice.

* `valid_parsed`: the members of a parsed dictionary are well formed.
-/

namespace Ezpds.Spaces

open Library

/-! ## Well formed values -/

def KeyText (name : Text) : Prop :=
  name.head?.any isKeyStart = true ∧ ∀ c ∈ name, isKeyChar c = true

/-- The digits of a decimal in canonical form. -/
structure CanonicalDecimal (negative : Bool) (int frac text : Text) : Prop where
  text_eq : text = Parser.sign negative ++ int ++ '.' :: frac
  intDigits : ∀ c ∈ int, c.isDigit = true
  fracDigits : ∀ c ∈ frac, c.isDigit = true
  int_ne : int ≠ []
  frac_ne : frac ≠ []
  int_le : int.length ≤ 12
  frac_le : frac.length ≤ 3
  int_eq : Parser.orZero (int.dropWhile (· == '0')) = int
  frac_eq : Parser.orZero (frac.rdropWhile (· == '0')) = frac

def Bare.Valid : Bare → Prop
  | .integer n => n.natAbs < 10 ^ 15
  | .decimal text => ∃ negative int frac, CanonicalDecimal negative int frac text
  | .str text => ∀ c ∈ text, isPrintable c = true
  | .token text => ∃ c rest, text = c :: rest ∧ isTokenStart c = true ∧
      ∀ d ∈ rest, isTokenChar d = true
  | .bytes _ => True
  | .bool _ => True

structure ValidParams (params : Params) : Prop where
  nodup : (params.map Prod.fst).Nodup
  entries : ∀ e ∈ params, KeyText e.1 ∧ e.2.Valid

structure Item.Valid (item : Item) : Prop where
  bare : item.bare.Valid
  params : ValidParams item.params

def Member.Valid : Member → Prop
  | .item i => i.Valid
  | .innerList items params => (∀ i ∈ items, i.Valid) ∧ ValidParams params

/-! ## Maps -/

section Maps

variable {V : Type} {map : List (Text × V)} {name : Text} {value : V}

theorem keys_upsert : (upsert map name value).map Prod.fst =
    if name ∈ map.map Prod.fst then map.map Prod.fst else map.map Prod.fst ++ [name] := by
  induction map with
  | nil => rfl
  | cons e map ih =>
    rw [upsert]
    split
    · rename_i hSame
      rw [if_pos (by simp [hSame])]
      rfl
    · rename_i hNe
      rw [List.map_cons, ih, List.map_cons]
      by_cases hMem : name ∈ map.map Prod.fst
      · rw [if_pos hMem, if_pos (List.mem_cons_of_mem _ hMem)]
      · rw [if_neg hMem, if_neg (by simp [hMem, Ne.symm hNe])]
        rfl

theorem mem_upsert {e : Text × V} (h : e ∈ upsert map name value) :
    e ∈ map ∨ e = (name, value) := by
  induction map with
  | nil => exact Or.inr (List.mem_singleton.mp h)
  | cons d map ih =>
    rw [upsert] at h
    split at h
    · rename_i hSame
      rcases List.mem_cons.mp h with rfl | h
      · exact Or.inr (by rw [hSame])
      · exact Or.inl (List.mem_cons_of_mem _ h)
    · rcases List.mem_cons.mp h with rfl | h
      · exact Or.inl List.mem_cons_self
      · exact (ih h).imp_left (List.mem_cons_of_mem _)

theorem nodup_upsert (h : (map.map Prod.fst).Nodup) :
    ((upsert map name value).map Prod.fst).Nodup := by
  rw [keys_upsert]
  split
  · exact h
  · rename_i hNew
    exact List.nodup_append.mpr ⟨h, List.nodup_cons.mpr ⟨List.not_mem_nil, List.nodup_nil⟩, by
      rintro a hA b hB rfl
      exact hNew (List.mem_singleton.mp hB ▸ hA)⟩

theorem upsert_new (h : name ∉ map.map Prod.fst) :
    upsert map name value = map ++ [(name, value)] := by
  induction map with
  | nil => rfl
  | cons e map ih =>
    rw [List.map_cons, List.mem_cons, not_or] at h
    rw [upsert, if_neg (Ne.symm h.1), ih h.2]
    rfl

end Maps

theorem ValidParams.upsert {params : Params} (h : ValidParams params) {name : Text} {value : Bare}
    (hName : KeyText name) (hValue : value.Valid) : ValidParams (upsert params name value) where
  nodup := nodup_upsert h.nodup
  entries e hE := by
    rcases mem_upsert hE with hE | rfl
    · exact h.entries e hE
    · exact ⟨hName, hValue⟩

/-! ## What is parsed is well formed -/

theorem run_fst {p : Char → Bool} {s : Text} : ∀ c ∈ (Parser.run p s).1, p c = true :=
  fun _ hc => List.mem_takeWhile_imp hc

theorem key_valid {s name rest : Text} (h : Parser.key s = some (name, rest)) : KeyText name := by
  rw [Parser.key] at h
  split at h
  · rename_i hStart
    cases h
    refine ⟨?_, run_fst⟩
    cases s with
    | nil => cases hStart
    | cons c s =>
      have hChar : isKeyChar c = true := by
        have hStart' : isKeyStart c = true := hStart
        rw [isKeyStart, Bool.or_eq_true] at hStart'
        rcases hStart' with hLower | hStar
        · simp [isKeyChar, hLower]
        · simp [isKeyChar, hStar]
      change ((c :: s).takeWhile isKeyChar).head?.any isKeyStart = true
      rw [List.takeWhile_cons_of_pos hChar]
      exact hStart
  · cases h

theorem ofDigitChars_lt {digits : Text} (h : ∀ c ∈ digits, c.isDigit = true) :
    Nat.ofDigitChars 10 digits 0 < 10 ^ digits.length := by
  induction digits using List.reverseRecOn with
  | nil => exact Nat.one_pos
  | append_singleton digits c ih =>
    have hPrefix := ih fun d hd => h d (List.mem_append_left _ hd)
    have hDigit : c.toNat - '0'.toNat < 10 := by
      have hC := h c (List.mem_append_right _ (List.mem_singleton_self c))
      simp only [Char.isDigit, Bool.and_eq_true, decide_eq_true_eq] at hC
      have hLe : c.toNat ≤ 57 := hC.2
      have hZero : '0'.toNat = 48 := rfl
      omega
    rw [Nat.ofDigitChars_append, Nat.ofDigitChars_cons, Nat.ofDigitChars_nil, List.length_append,
      List.length_singleton, Nat.pow_succ]
    omega

theorem orZero_idem {digits : Text} {trim : Text → Text} (hZero : trim ['0'] = [])
    (hIdem : ∀ s, trim (trim s) = trim s) :
    Parser.orZero (trim (Parser.orZero (trim digits))) = Parser.orZero (trim digits) := by
  by_cases hEmpty : (trim digits).isEmpty
  · rw [Parser.orZero, Parser.orZero, if_pos hEmpty, hZero]
    rfl
  · have hKept : Parser.orZero (trim digits) = trim digits := by rw [Parser.orZero, if_neg hEmpty]
    rw [hKept, hIdem, hKept]

theorem orZero_ne {digits : Text} : Parser.orZero digits ≠ [] := by
  rw [Parser.orZero]
  split
  · exact List.cons_ne_nil _ _
  · rename_i h
    exact fun hNil => h (List.isEmpty_iff.mpr hNil)

theorem mem_orZero {digits : Text} (h : ∀ c ∈ digits, c.isDigit = true) :
    ∀ c ∈ Parser.orZero digits, c.isDigit = true := by
  intro c hc
  rw [Parser.orZero] at hc
  split at hc
  · rw [List.mem_singleton.mp hc]
    rfl
  · exact h c hc

theorem length_orZero {digits full : Text} (hLe : digits.length ≤ full.length) (hFull : full ≠ []) :
    (Parser.orZero digits).length ≤ full.length := by
  rw [Parser.orZero]
  split
  · exact List.length_pos_iff.mpr hFull
  · exact hLe

theorem unsigned_valid {negative : Bool} {s rest : Text} {value : Bare}
    (h : Parser.unsigned negative s = some (value, rest)) : value.Valid := by
  rw [Parser.unsigned] at h
  dsimp only [Parser.run] at h
  have hInt : ∀ c ∈ s.takeWhile Char.isDigit, c.isDigit = true := run_fst
  split at h
  · cases h
  · rename_i hNe
    have hNe' : s.takeWhile Char.isDigit ≠ [] := fun hNil => hNe (List.isEmpty_iff.mpr hNil)
    split at h
    · rename_i s' _
      have hFrac : ∀ c ∈ s'.takeWhile Char.isDigit, c.isDigit = true := run_fst
      split at h
      · cases h
      · rename_i hBounds
        simp only [Bool.or_eq_true, decide_eq_true_eq, not_or, not_lt] at hBounds
        obtain ⟨⟨hIntLe, hFracNe⟩, hFracLe⟩ := hBounds
        have hFracNe' : s'.takeWhile Char.isDigit ≠ [] :=
          fun hNil => hFracNe (List.isEmpty_iff.mpr hNil)
        cases h
        refine ⟨negative, _, _, rfl, mem_orZero fun c hc => hInt c ?_,
          mem_orZero fun c hc => hFrac c ?_, orZero_ne, orZero_ne, ?_, ?_, ?_, ?_⟩
        · exact (List.dropWhile_suffix _).subset hc
        · exact (List.rdropWhile_prefix _ _).subset hc
        · exact (length_orZero (List.dropWhile_suffix _).length_le hNe').trans hIntLe
        · exact (length_orZero (List.rdropWhile_prefix _ _).length_le hFracNe').trans hFracLe
        · exact orZero_idem rfl fun _ => List.dropWhile_idempotent _ _
        · exact orZero_idem rfl fun _ => List.rdropWhile_idempotent _ _
    · split at h
      · cases h
      · rename_i hLe
        cases h
        have hLt := ofDigitChars_lt hInt
        have hPow : 10 ^ (s.takeWhile Char.isDigit).length ≤ 10 ^ 15 :=
          Nat.pow_le_pow_right (by decide) (not_lt.mp hLe)
        have hAbs : (if negative then -(Nat.ofDigitChars 10 (s.takeWhile Char.isDigit) 0 : Int)
            else Nat.ofDigitChars 10 (s.takeWhile Char.isDigit) 0).natAbs =
            Nat.ofDigitChars 10 (s.takeWhile Char.isDigit) 0 := by
          cases negative <;> simp
        exact (hAbs.trans_lt hLt).trans_le hPow

theorem string_valid {s text rest : Text} (h : Parser.string s = some (text, rest)) :
    ∀ c ∈ text, isPrintable c = true := by
  induction s using Parser.string.induct generalizing text with
  | case1 c s ih =>
    rw [Parser.string] at h
    obtain ⟨_, hEscaped, h⟩ := Option.bind_eq_some_iff.mp h
    obtain ⟨r, hRest, h⟩ := Option.bind_eq_some_iff.mp h
    cases h
    intro d hd
    rcases List.mem_cons.mp hd with rfl | hd
    · rcases (Option.guard_eq_some' _).mp hEscaped with rfl | rfl
      · decide
      · decide
    · exact ih hRest d hd
  | case2 s =>
    rw [Parser.string] at h
    cases h
    exact fun _ hc => absurd hc List.not_mem_nil
  | case3 c s _ _ ih =>
    rw [Parser.string] at h
    · obtain ⟨_, hPrintable, h⟩ := Option.bind_eq_some_iff.mp h
      obtain ⟨r, hRest, h⟩ := Option.bind_eq_some_iff.mp h
      cases h
      intro d hd
      rcases List.mem_cons.mp hd with rfl | hd
      · exact (Option.guard_eq_some' _).mp hPrintable
      · exact ih hRest d hd
    all_goals assumption
  | case4 => cases h

theorem bytes_valid {base64 : Base64Text} {s rest : Text} {value : Bare}
    (h : Parser.bytes base64 s = some (value, rest)) : value.Valid := by
  rw [Parser.bytes] at h
  dsimp only [Parser.run] at h
  split at h
  · obtain ⟨bytes, -, h⟩ := Option.map_eq_some_iff.mp h
    cases h
    trivial
  · cases h

theorem boolean_valid {s rest : Text} {value : Bare}
    (h : Parser.boolean s = some (value, rest)) : value.Valid := by
  rw [Parser.boolean.eq_def] at h
  split at h
  · cases h
    trivial
  · cases h
    trivial
  · cases h

theorem number_valid {s rest : Text} {value : Bare}
    (h : Parser.number s = some (value, rest)) : value.Valid := by
  rw [Parser.number.eq_def] at h
  split at h
  · exact unsigned_valid h
  · exact unsigned_valid h

variable {base64 : Base64Text}

theorem bare_valid {s rest : Text} {value : Bare} (h : Parser.bare base64 s = some (value, rest)) :
    value.Valid := by
  rw [Parser.bare.eq_def] at h
  split at h
  · cases h
  · rename_i c s'
    by_cases hNumber : (c == '-' || c.isDigit) = true
    · rw [if_pos hNumber] at h
      exact number_valid h
    rw [if_neg hNumber] at h
    by_cases hString : (c == '"') = true
    · rw [if_pos hString] at h
      obtain ⟨r, hParsed, h⟩ := Option.map_eq_some_iff.mp h
      cases h
      exact string_valid hParsed
    rw [if_neg hString] at h
    by_cases hBytes : (c == ':') = true
    · rw [if_pos hBytes] at h
      exact bytes_valid h
    rw [if_neg hBytes] at h
    by_cases hBool : (c == '?') = true
    · rw [if_pos hBool] at h
      exact boolean_valid h
    rw [if_neg hBool] at h
    by_cases hToken : isTokenStart c = true
    · rw [if_pos hToken] at h
      cases h
      exact ⟨c, _, rfl, hToken, fun d hd => List.mem_takeWhile_imp hd⟩
    · rw [if_neg hToken] at h
      cases h

theorem paramValue_valid {s rest : Text} {value : Bare}
    (h : Parser.paramValue base64 s = some (value, rest)) : value.Valid := by
  rw [Parser.paramValue.eq_def] at h
  split at h
  · exact bare_valid h
  · cases h
    trivial

theorem ValidParams.nil : ValidParams [] where
  nodup := List.nodup_nil
  entries _ h := absurd h List.not_mem_nil

theorem paramsRound_valid {r : Params × Text} {out : (Params × Text) ⊕ (Params × Text)}
    (hValid : ValidParams r.1) (h : Parser.paramsRound base64 r = some out) :
    ValidParams (out.elim Prod.fst Prod.fst) := by
  rw [Parser.paramsRound.eq_def] at h
  split at h
  · obtain ⟨⟨name, s₁⟩, hKey, h⟩ := Option.bind_eq_some_iff.mp h
    obtain ⟨⟨value, s₂⟩, hValue, h⟩ := Option.bind_eq_some_iff.mp h
    cases h
    exact hValid.upsert (key_valid hKey) (paramValue_valid hValue)
  · cases h
    exact hValid

theorem params_valid {s rest : Text} {params : Params}
    (h : Parser.params base64 s = some (params, rest)) : ValidParams params :=
  (rounds_of_loop h).induct (I := fun r => ValidParams r.1) (Q := fun r => ValidParams r.1)
    (fun _ _ => paramsRound_valid) (fun _ _ => paramsRound_valid) ValidParams.nil

theorem item_valid {s rest : Text} {item : Item}
    (h : Parser.item base64 s = some (item, rest)) : item.Valid := by
  obtain ⟨⟨bare, s₁⟩, hBare, h⟩ := Option.bind_eq_some_iff.mp h
  obtain ⟨⟨params, s₂⟩, hParams, h⟩ := Option.bind_eq_some_iff.mp h
  cases h
  exact ⟨bare_valid hBare, params_valid hParams⟩

theorem innerList_valid {s rest : Text} {member : Member}
    (h : Parser.innerList base64 s = some (member, rest)) : member.Valid := by
  refine (rounds_of_loop h).induct (I := fun r => ∀ i ∈ r.1, i.Valid) (Q := fun r => r.1.Valid)
    ?_ ?_ fun _ h => absurd h List.not_mem_nil
  · intro r r' hValid hRound
    rw [Parser.innerRound.eq_def] at hRound
    split at hRound
    · obtain ⟨_, _, hRound⟩ := Option.bind_eq_some_iff.mp hRound
      cases hRound
    · obtain ⟨⟨item, s₁⟩, hItem, hRound⟩ := Option.bind_eq_some_iff.mp hRound
      obtain ⟨_, _, hRound⟩ := Option.bind_eq_some_iff.mp hRound
      cases hRound
      exact List.forall_mem_append.mpr ⟨hValid, List.forall_mem_singleton.mpr (item_valid hItem)⟩
  · intro r r' hValid hRound
    rw [Parser.innerRound.eq_def] at hRound
    split at hRound
    · obtain ⟨⟨params, s₁⟩, hParams, hRound⟩ := Option.bind_eq_some_iff.mp hRound
      cases hRound
      exact ⟨hValid, params_valid hParams⟩
    · obtain ⟨_, _, hRound⟩ := Option.bind_eq_some_iff.mp hRound
      obtain ⟨_, _, hRound⟩ := Option.bind_eq_some_iff.mp hRound
      cases hRound

theorem member_valid {s rest : Text} {member : Member}
    (h : Parser.member base64 s = some (member, rest)) : member.Valid := by
  rw [Parser.member.eq_def] at h
  split at h
  · exact innerList_valid h
  · obtain ⟨⟨item, s₁⟩, hItem, h⟩ := Option.map_eq_some_iff.mp h
    cases h
    exact item_valid hItem

theorem memberValue_valid {s rest : Text} {member : Member}
    (h : Parser.memberValue base64 s = some (member, rest)) : member.Valid := by
  rw [Parser.memberValue.eq_def] at h
  split at h
  · exact member_valid h
  · obtain ⟨⟨params, s₁⟩, hParams, h⟩ := Option.map_eq_some_iff.mp h
    cases h
    exact ⟨trivial, params_valid hParams⟩

theorem dictionaryRound_valid {r : Dictionary × Text} {out : (Dictionary × Text) ⊕ Dictionary}
    (hValid : ∀ e ∈ r.1, e.2.Valid) (h : Parser.dictionaryRound base64 r = some out) :
    ∀ e ∈ out.elim Prod.fst id, e.2.Valid := by
  rw [Parser.dictionaryRound] at h
  split at h
  · cases h
    exact hValid
  · obtain ⟨⟨name, s₁⟩, -, h⟩ := Option.bind_eq_some_iff.mp h
    obtain ⟨⟨member, s₂⟩, hMember, h⟩ := Option.bind_eq_some_iff.mp h
    have hUpsert : ∀ e ∈ upsert r.1 name member, e.2.Valid := fun e hE => by
      rcases mem_upsert hE with hE | rfl
      · exact hValid e hE
      · exact memberValue_valid hMember
    dsimp only at h
    split at h
    · cases h
      exact hUpsert
    · obtain ⟨_, _, h⟩ := Option.bind_eq_some_iff.mp h
      cases h
      exact hUpsert
    · cases h

theorem valid_parsed {field : Text} {dict : Dictionary}
    (h : parseDictionary base64 field = some dict) : ∀ e ∈ dict, e.2.Valid :=
  (rounds_of_loop h).induct (I := fun r => ∀ e ∈ r.1, e.2.Valid)
    (Q := fun dict => ∀ e ∈ dict, e.2.Valid) (fun _ _ => dictionaryRound_valid)
    (fun _ _ => dictionaryRound_valid) fun _ h => absurd h List.not_mem_nil

end Ezpds.Spaces
