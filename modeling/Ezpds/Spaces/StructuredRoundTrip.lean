import Ezpds.Library.BaseText
import Ezpds.Spaces.StructuredValid

/-!
# The canonical text of what was parsed

The canonical text of a well formed value is parsed to that value, whatever follows it.

* `innerList_serialized`: the text of an inner list is parsed to it.
* `dictionary_serialized`: so is a field whose one member it is.
* `innerList_reparsed`: an inner list of a parsed field is the one that its canonical text is
  parsed to.
-/

namespace Ezpds.Spaces

open Library

/-- `STANDARD` writes the characters that the parser reads, and its own text is decoded. -/
structure Base64Text.Lawful (base64 : Base64Text) : Prop where
  decode_encode : ∀ bytes, base64.decode (base64.encode bytes) = some bytes
  chars : ∀ bytes, ∀ c ∈ base64.encode bytes, isBase64Char c = true

/-- What may follow a value: nothing, or the end of an item, or a parameter. -/
def Stops (rest : Text) : Prop :=
  ∀ c ∈ rest.head?, c = ' ' ∨ c = ')' ∨ c = ';'

/-- What may follow parameters. -/
def Ends (rest : Text) : Prop :=
  ∀ c ∈ rest.head?, c = ' ' ∨ c = ')'

theorem Ends.stops {rest : Text} (h : Ends rest) : Stops rest :=
  fun c hc => (h c hc).imp_right Or.inl

theorem Ends.nil : Ends [] := by
  rintro _ ⟨⟩

theorem Stops.ne {rest : Text} (h : Stops rest) {p : Char → Bool} (hSpace : p ' ' = false)
    (hClose : p ')' = false) (hSemi : p ';' = false) : ∀ c ∈ rest.head?, p c = false := by
  intro c hc
  rcases h c hc with rfl | rfl | rfl
  · exact hSpace
  · exact hClose
  · exact hSemi

/-! ## Runs -/

section Runs

variable {p : Char → Bool} {text rest : Text}

theorem takeWhile_stop (h : ∀ c ∈ rest.head?, p c = false) : rest.takeWhile p = [] := by
  cases rest with
  | nil => rfl
  | cons c rest => exact List.takeWhile_cons_of_neg (by simp [h c rfl])

theorem dropWhile_stop (h : ∀ c ∈ rest.head?, p c = false) : rest.dropWhile p = rest := by
  cases rest with
  | nil => rfl
  | cons c rest => exact List.dropWhile_cons_of_neg (by simp [h c rfl])

theorem takeWhile_run (hText : ∀ c ∈ text, p c = true) (h : ∀ c ∈ rest.head?, p c = false) :
    (text ++ rest).takeWhile p = text := by
  rw [List.takeWhile_append_of_pos hText, takeWhile_stop h, List.append_nil]

theorem dropWhile_run (hText : ∀ c ∈ text, p c = true) (h : ∀ c ∈ rest.head?, p c = false) :
    (text ++ rest).dropWhile p = rest := by
  rw [List.dropWhile_append_of_pos hText, dropWhile_stop h]

theorem run_append (hText : ∀ c ∈ text, p c = true) (h : ∀ c ∈ rest.head?, p c = false) :
    Parser.run p (text ++ rest) = (text, rest) :=
  Prod.ext (takeWhile_run hText h) (dropWhile_run hText h)

theorem run_length (s : Text) :
    (Parser.run p s).1.length + (Parser.run p s).2.length = s.length := by
  rw [← List.length_append]
  exact congrArg List.length List.takeWhile_append_dropWhile

end Runs

/-! ## A bare value -/

theorem key_append {name rest : Text} (h : KeyText name)
    (hRest : ∀ c ∈ rest.head?, isKeyChar c = false) :
    Parser.key (name ++ rest) = some (name, rest) := by
  have hHead : (name ++ rest).head?.any isKeyStart = true := by
    cases name with
    | nil => exact absurd h.1 Bool.false_ne_true
    | cons c name => exact h.1
  rw [Parser.key, if_pos hHead, run_append h.2 hRest]

theorem unsigned_integer {negative : Bool} {n : Nat} {rest : Text} (h : n < 10 ^ 15)
    (hRest : Stops rest) : Parser.unsigned negative (Nat.toDigits 10 n ++ rest) =
      some (.integer (if negative then -n else n), rest) := by
  have hRun : Parser.run Char.isDigit (Nat.toDigits 10 n ++ rest) = (Nat.toDigits 10 n, rest) :=
    run_append (fun c hc => Nat.isDigit_of_mem_toDigits (by decide) (by decide) hc)
      (hRest.ne rfl rfl rfl)
  have hLength : (Nat.toDigits 10 n).length ≤ 15 :=
    (Nat.length_toDigits_le_iff (by decide) (by decide)).mpr h
  rw [Parser.unsigned, hRun]
  dsimp only
  rw [if_neg (by rw [List.isEmpty_iff]; exact Nat.toDigits_ne_nil)]
  split
  · rcases hRest '.' rfl with hDot | hDot | hDot
    all_goals exact absurd hDot (by decide)
  · rw [if_neg (by omega), Nat.ofDigitChars_ten_toDigits]

theorem unsigned_decimal {negative : Bool} {int frac text rest : Text}
    (h : CanonicalDecimal negative int frac text) (hRest : Stops rest) :
    Parser.unsigned negative (int ++ '.' :: (frac ++ rest)) = some (.decimal text, rest) := by
  have hInt : Parser.run Char.isDigit (int ++ '.' :: (frac ++ rest)) =
      (int, '.' :: (frac ++ rest)) :=
    run_append h.intDigits (by rintro c ⟨⟩; rfl)
  have hFrac : Parser.run Char.isDigit (frac ++ rest) = (frac, rest) :=
    run_append h.fracDigits (hRest.ne rfl rfl rfl)
  have hIntLe := h.int_le
  have hFracLe := h.frac_le
  rw [Parser.unsigned, hInt]
  dsimp only
  rw [if_neg (by rw [List.isEmpty_iff]; exact h.int_ne)]
  change (if _ then _ else _) = _
  rw [hFrac]
  dsimp only
  rw [if_neg, h.int_eq, h.frac_eq, h.text_eq]
  simp only [Bool.or_eq_true, decide_eq_true_eq, List.isEmpty_iff, not_or]
  exact ⟨⟨by omega, h.frac_ne⟩, by omega⟩

/-- A digit is not a sign. -/
theorem number_digits {negative : Bool} {digits rest : Text}
    (hDigits : ∀ c ∈ digits, c.isDigit = true) (hNe : digits ≠ []) :
    Parser.number (Parser.sign negative ++ (digits ++ rest)) =
      Parser.unsigned negative (digits ++ rest) := by
  cases negative with
  | true => rfl
  | false =>
    cases digits with
    | nil => exact absurd rfl hNe
    | cons c digits =>
      change Parser.number (c :: (digits ++ rest)) = _
      rw [Parser.number]
      · rfl
      · rintro s hEq
        have hDigit := hDigits c List.mem_cons_self
        rw [(List.cons.inj hEq).1] at hDigit
        exact absurd hDigit (by decide)

theorem bare_number {negative : Bool} {digits rest : Text} {base64 : Base64Text}
    (hDigits : ∀ c ∈ digits, c.isDigit = true) (hNe : digits ≠ []) :
    Parser.bare base64 (Parser.sign negative ++ (digits ++ rest)) =
      Parser.unsigned negative (digits ++ rest) := by
  rw [← number_digits hDigits hNe]
  cases negative with
  | true => rfl
  | false =>
    cases digits with
    | nil => exact absurd rfl hNe
    | cons c digits =>
      have hDigit := hDigits c List.mem_cons_self
      exact if_pos (by simp [hDigit])

theorem escape_cons (c : Char) (text : Text) : escape (c :: text) =
    (if c = '"' ∨ c = '\\' then ['\\', c] else [c]) ++ escape text := by
  by_cases hBackslash : c = '\\'
  · subst hBackslash
    rfl
  · by_cases hQuote : c = '"'
    · subst hQuote
      rfl
    · simp [escape, escapeChar, hBackslash, hQuote]

theorem string_escape {text rest : Text} (h : ∀ c ∈ text, isPrintable c = true) :
    Parser.string (escape text ++ '"' :: rest) = some (text, rest) := by
  induction text with
  | nil => rfl
  | cons c text ih =>
    have hRest := ih fun d hd => h d (List.mem_cons_of_mem _ hd)
    rw [escape_cons, List.append_assoc]
    split
    · rename_i hSpecial
      change Parser.string ('\\' :: c :: (escape text ++ '"' :: rest)) = _
      rw [Parser.string, hRest, guard, if_pos hSpecial]
      rfl
    · rename_i hPlain
      rw [not_or] at hPlain
      change Parser.string (c :: (escape text ++ '"' :: rest)) = _
      rw [Parser.string, hRest, guard, if_pos (h c List.mem_cons_self)]
      · rfl
      · rintro d s hEq _
        exact absurd hEq hPlain.2
      · rintro hEq
        exact absurd hEq hPlain.1

variable {base64 : Base64Text}

theorem bytes_serialized (hBase64 : base64.Lawful) (bytes : List UInt8) (rest : Text) :
    Parser.bytes base64 (base64.encode bytes ++ ':' :: rest) = some (.bytes bytes, rest) := by
  have hRun : Parser.run isBase64Char (base64.encode bytes ++ ':' :: rest) =
      (base64.encode bytes, ':' :: rest) :=
    run_append (hBase64.chars bytes) (by rintro c ⟨⟩; decide)
  rw [Parser.bytes, hRun]
  change (base64.decode _).map _ = _
  rw [hBase64.decode_encode]
  rfl

theorem isTokenStart_ne {c : Char} (h : isTokenStart c = true) :
    c ≠ '-' ∧ c.isDigit = false ∧ c ≠ '"' ∧ c ≠ ':' ∧ c ≠ '?' := by
  refine ⟨?_, ?_, ?_, ?_, ?_⟩
  · rintro rfl
    exact absurd h (by decide)
  · by_contra hDigit
    rw [Bool.not_eq_false, Char.isDigit, Bool.and_eq_true, decide_eq_true_eq,
      decide_eq_true_eq] at hDigit
    have hLe : c.toNat ≤ 57 := hDigit.2
    simp only [isTokenStart, isAlpha, isLowerAlpha, Bool.or_eq_true, Bool.and_eq_true,
      decide_eq_true_eq, beq_iff_eq] at h
    rcases h with (⟨hLower, -⟩ | ⟨hUpper, -⟩) | rfl
    · have hLower' : 97 ≤ c.toNat := hLower
      omega
    · have hUpper' : 65 ≤ c.toNat := hUpper
      omega
    · exact absurd hDigit.1 (by decide)
  · rintro rfl
    exact absurd h (by decide)
  · rintro rfl
    exact absurd h (by decide)
  · rintro rfl
    exact absurd h (by decide)

theorem bare_token {c : Char} (s : Text) (h : isTokenStart c = true) :
    Parser.bare base64 (c :: s) = some (Parser.token c s) := by
  obtain ⟨hSign, hDigit, hQuote, hColon, hQuestion⟩ := isTokenStart_ne h
  rw [Parser.bare, if_neg (by simp [hSign, hDigit]), if_neg (by simp [hQuote]),
    if_neg (by simp [hColon]), if_neg (by simp [hQuestion]), if_pos h]

/-- A bare value is read back from its text. -/
theorem bare_serialized (hBase64 : base64.Lawful) {value : Bare} {rest : Text}
    (h : value.Valid) (hRest : Stops rest) :
    Parser.bare base64 (serializeBare base64 value ++ rest) = some (value, rest) := by
  cases value with
  | integer n =>
    rw [serializeBare, signedDigits, List.append_assoc,
      bare_number (fun c hc => Nat.isDigit_of_mem_toDigits (by decide) (by decide) hc)
        Nat.toDigits_ne_nil, unsigned_integer h hRest]
    have hSigned : (if decide (n < 0) = true then -(n.natAbs : Int) else n.natAbs) = n := by
      simp only [decide_eq_true_eq]
      split
      all_goals omega
    rw [hSigned]
  | decimal text =>
    obtain ⟨negative, int, frac, hText⟩ := h
    have hAssoc : Parser.sign negative ++ int ++ '.' :: frac ++ rest =
        Parser.sign negative ++ (int ++ '.' :: (frac ++ rest)) := by
      simp only [List.append_assoc, List.cons_append]
    rw [serializeBare, hText.text_eq, hAssoc, bare_number hText.intDigits hText.int_ne,
      unsigned_decimal hText hRest, hText.text_eq]
  | str text =>
    change (Parser.string (escape text ++ ['"'] ++ rest)).map _ = _
    rw [List.append_assoc]
    exact congrArg _ (string_escape h)
  | token text =>
    obtain ⟨c, text, rfl, hStart, hText⟩ := h
    change Parser.bare base64 (c :: (text ++ rest)) = _
    rw [bare_token _ hStart, Parser.token]
    have hStop : ∀ d ∈ rest.head?, isTokenChar d = false :=
      hRest.ne (by decide) (by decide) (by decide)
    rw [takeWhile_run hText hStop, dropWhile_run hText hStop]
  | bytes bytes =>
    change Parser.bytes base64 (base64.encode bytes ++ [':'] ++ rest) = _
    rw [List.append_assoc]
    exact bytes_serialized hBase64 bytes rest
  | bool b =>
    cases b with
    | true => rfl
    | false => rfl

/-! ## Parameters -/

theorem skipSp_key {name : Text} (h : KeyText name) (rest : Text) :
    skipSp (name ++ rest) = name ++ rest := by
  cases name with
  | nil => exact absurd h.1 Bool.false_ne_true
  | cons c name =>
    have hStart : isKeyStart c = true := h.1
    refine dropWhile_stop ?_
    rintro d ⟨⟩
    rw [beq_eq_false_iff_ne]
    rintro rfl
    exact absurd hStart (by decide)

theorem paramsRound_serialized (hBase64 : base64.Lawful) {params : Params} {e : Text × Bare}
    {rest : Text} (hName : KeyText e.1) (hValue : e.2.Valid) (hRest : Stops rest) :
    Parser.paramsRound base64 (params, serializeParam base64 e ++ rest) =
      some (.inl (upsert params e.1 e.2, rest)) := by
  obtain ⟨name, value⟩ := e
  rw [serializeParam.eq_def]
  dsimp only
  split
  · change (Parser.key (skipSp (name ++ rest))).bind _ = _
    rw [skipSp_key hName, key_append hName (hRest.ne (by decide) (by decide) (by decide))]
    dsimp only [Option.bind_some]
    rw [Parser.paramValue]
    · rfl
    · rintro s rfl
      rcases hRest '=' rfl with hEq | hEq | hEq
      all_goals exact absurd hEq (by decide)
  · have hAssoc : ';' :: name ++ '=' :: serializeBare base64 value ++ rest =
        ';' :: (name ++ '=' :: (serializeBare base64 value ++ rest)) := by
      simp only [List.append_assoc, List.cons_append]
    rw [hAssoc]
    change (Parser.key (skipSp (name ++ _))).bind _ = _
    rw [skipSp_key hName, key_append hName (by rintro c ⟨⟩; decide)]
    dsimp only [Option.bind_some]
    rw [Parser.paramValue, bare_serialized hBase64 hValue hRest]
    rfl

theorem serializeParams_cons (e : Text × Bare) (params : Params) :
    serializeParams base64 (e :: params) =
      serializeParam base64 e ++ serializeParams base64 params :=
  List.flatMap_cons

theorem serializeParams_stops (params : Params) {rest : Text} (h : Ends rest) :
    Stops (serializeParams base64 params ++ rest) := by
  cases params with
  | nil => exact h.stops
  | cons e params =>
    intro c hc
    refine Or.inr (Or.inr ?_)
    rw [serializeParams_cons, serializeParam.eq_def] at hc
    split at hc
    · exact (Option.some.inj hc).symm
    · exact (Option.some.inj hc).symm

theorem rounds_params (hBase64 : base64.Lawful) {before params : Params} {rest : Text}
    (hNodup : ((before ++ params).map Prod.fst).Nodup)
    (hEntries : ∀ e ∈ params, KeyText e.1 ∧ e.2.Valid) (hRest : Ends rest) :
    Rounds (Parser.paramsRound base64) (before, serializeParams base64 params ++ rest)
      (before ++ params, rest) := by
  induction params generalizing before with
  | nil =>
    refine .leave ?_
    change Parser.paramsRound base64 (before, rest) = _
    rw [List.append_nil, Parser.paramsRound]
    rintro s rfl
    rcases hRest ';' rfl with hEq | hEq
    all_goals exact absurd hEq (by decide)
  | cons e params ih =>
    obtain ⟨hName, hValue⟩ := hEntries e List.mem_cons_self
    have hNew : e.1 ∉ before.map Prod.fst := by
      rw [List.map_append, List.nodup_append] at hNodup
      exact fun hMem => hNodup.2.2 _ hMem _ (List.mem_map_of_mem List.mem_cons_self) rfl
    refine @Rounds.again _ _ _ _ (before ++ [e], serializeParams base64 params ++ rest) _ ?_ ?_
    · rw [serializeParams_cons, List.append_assoc,
        paramsRound_serialized hBase64 hName hValue (serializeParams_stops params hRest),
        upsert_new hNew]
    · rw [List.append_cons before e params] at hNodup ⊢
      exact ih hNodup fun d hd => hEntries d (List.mem_cons_of_mem _ hd)

/-! ## What is left is shorter -/

theorem key_length {s name rest : Text} (h : Parser.key s = some (name, rest)) :
    rest.length < s.length := by
  have hName := (key_valid h).1
  rw [Parser.key] at h
  split at h
  · have hLength := run_length (p := isKeyChar) s
    rw [Option.some.inj h] at hLength
    cases name with
    | nil => exact absurd hName Bool.false_ne_true
    | cons c name =>
      dsimp only [List.length_cons] at hLength
      omega
  · cases h

theorem unsigned_length {negative : Bool} {s rest : Text} {value : Bare}
    (h : Parser.unsigned negative s = some (value, rest)) : rest.length < s.length := by
  have hRun := run_length (p := Char.isDigit) s
  rw [Parser.unsigned] at h
  generalize Parser.run Char.isDigit s = r at h hRun
  obtain ⟨int, s₁⟩ := r
  dsimp only at h hRun
  split at h
  · cases h
  · rename_i hNe
    have hPos : 0 < int.length :=
      List.length_pos_iff.mpr fun hNil => hNe (List.isEmpty_iff.mpr hNil)
    split at h
    · rename_i s₂
      have hFrac := run_length (p := Char.isDigit) s₂
      rw [List.length_cons] at hRun
      split at h
      · cases h
      · cases h
        omega
    · split at h
      · cases h
      · cases h
        omega

theorem number_length {s rest : Text} {value : Bare}
    (h : Parser.number s = some (value, rest)) : rest.length < s.length := by
  rw [Parser.number.eq_def] at h
  split at h
  · exact (unsigned_length h).trans (Nat.lt_succ_self _)
  · exact unsigned_length h

theorem string_length {s text rest : Text} (h : Parser.string s = some (text, rest)) :
    rest.length < s.length := by
  induction s using Parser.string.induct generalizing text with
  | case1 c s ih =>
    rw [Parser.string] at h
    obtain ⟨_, -, h⟩ := Option.bind_eq_some_iff.mp h
    obtain ⟨r, hRest, h⟩ := Option.bind_eq_some_iff.mp h
    cases h
    exact (ih hRest).trans (by dsimp only [List.length_cons]; omega)
  | case2 s =>
    rw [Parser.string] at h
    cases h
    exact Nat.lt_succ_self _
  | case3 c s _ _ ih =>
    rw [Parser.string] at h
    · obtain ⟨_, -, h⟩ := Option.bind_eq_some_iff.mp h
      obtain ⟨r, hRest, h⟩ := Option.bind_eq_some_iff.mp h
      cases h
      exact (ih hRest).trans (Nat.lt_succ_self _)
    all_goals assumption
  | case4 => cases h

theorem bytes_length {s rest : Text} {value : Bare}
    (h : Parser.bytes base64 s = some (value, rest)) : rest.length < s.length := by
  have hRun := run_length (p := isBase64Char) s
  rw [Parser.bytes] at h
  generalize Parser.run isBase64Char s = r at h hRun
  obtain ⟨encoded, s₁⟩ := r
  dsimp only at h hRun
  split at h
  · obtain ⟨_, -, h⟩ := Option.map_eq_some_iff.mp h
    cases h
    rw [List.length_cons] at hRun
    omega
  · cases h

theorem boolean_length {s rest : Text} {value : Bare}
    (h : Parser.boolean s = some (value, rest)) : rest.length < s.length := by
  rw [Parser.boolean.eq_def] at h
  split at h
  · cases h
    exact Nat.lt_succ_self _
  · cases h
    exact Nat.lt_succ_self _
  · cases h

theorem bare_length {s rest : Text} {value : Bare}
    (h : Parser.bare base64 s = some (value, rest)) : rest.length < s.length := by
  rw [Parser.bare.eq_def] at h
  split at h
  · cases h
  · rename_i c s'
    rw [List.length_cons]
    split at h
    · exact number_length h
    split at h
    · obtain ⟨r, hParsed, h⟩ := Option.map_eq_some_iff.mp h
      cases h
      exact (string_length hParsed).trans (Nat.lt_succ_self _)
    split at h
    · exact (bytes_length h).trans (Nat.lt_succ_self _)
    split at h
    · exact (boolean_length h).trans (Nat.lt_succ_self _)
    split at h
    · cases h
      exact Nat.lt_succ_of_le (List.dropWhile_suffix _).length_le
    · cases h

theorem paramValue_length {s rest : Text} {value : Bare}
    (h : Parser.paramValue base64 s = some (value, rest)) : rest.length ≤ s.length := by
  rw [Parser.paramValue.eq_def] at h
  split at h
  · exact (bare_length h).le.trans (Nat.le_succ _)
  · cases h
    exact Nat.le_refl _

theorem skipSp_length (s : Text) : (skipSp s).length ≤ s.length :=
  (List.dropWhile_suffix _).length_le

theorem paramsRound_again {r r' : Params × Text}
    (h : Parser.paramsRound base64 r = some (.inl r')) : r'.2.length < r.2.length := by
  rw [Parser.paramsRound.eq_def] at h
  split at h
  · rename_i s
    obtain ⟨⟨name, s₁⟩, hKey, h⟩ := Option.bind_eq_some_iff.mp h
    obtain ⟨⟨value, s₂⟩, hValue, h⟩ := Option.bind_eq_some_iff.mp h
    cases h
    have hKeyLength := key_length hKey
    have hValueLength := paramValue_length hValue
    have hSkipped := skipSp_length s
    dsimp only [List.length_cons]
    omega
  · cases h

theorem paramsRound_leave {r r' : Params × Text}
    (h : Parser.paramsRound base64 r = some (.inr r')) : r' = r := by
  rw [Parser.paramsRound.eq_def] at h
  split at h
  · obtain ⟨_, _, h⟩ := Option.bind_eq_some_iff.mp h
    obtain ⟨_, _, h⟩ := Option.bind_eq_some_iff.mp h
    cases h
  · cases h
    rfl

theorem params_length {s rest : Text} {params : Params}
    (h : Parser.params base64 s = some (params, rest)) : rest.length ≤ s.length :=
  (rounds_of_loop h).induct (I := fun r => r.2.length ≤ s.length)
    (Q := fun r => r.2.length ≤ s.length)
    (fun _ _ hLe hRound => (paramsRound_again hRound).le.trans hLe)
    (fun _ _ hLe hRound => (paramsRound_leave hRound) ▸ hLe) (Nat.le_refl _)

theorem item_length {s rest : Text} {item : Item}
    (h : Parser.item base64 s = some (item, rest)) : rest.length < s.length := by
  obtain ⟨⟨bare, s₁⟩, hBare, h⟩ := Option.bind_eq_some_iff.mp h
  obtain ⟨⟨params, s₂⟩, hParams, h⟩ := Option.bind_eq_some_iff.mp h
  cases h
  exact (params_length hParams).trans_lt (bare_length hBare)

theorem innerRound_again {r r' : List Item × Text}
    (h : Parser.innerRound base64 r = some (.inl r')) : r'.2.length < r.2.length := by
  rw [Parser.innerRound.eq_def] at h
  split at h
  · obtain ⟨_, _, h⟩ := Option.bind_eq_some_iff.mp h
    cases h
  · obtain ⟨⟨item, s₁⟩, hItem, h⟩ := Option.bind_eq_some_iff.mp h
    obtain ⟨_, -, h⟩ := Option.bind_eq_some_iff.mp h
    cases h
    exact (item_length hItem).trans_le (skipSp_length _)

/-! ## Items and inner lists -/

theorem params_serialized (hBase64 : base64.Lawful) {params : Params} {rest : Text}
    (h : ValidParams params) (hRest : Ends rest) :
    Parser.params base64 (serializeParams base64 params ++ rest) = some (params, rest) :=
  loop_of_rounds (fun r => r.2.length) (fun _ _ => paramsRound_again)
    (Nat.lt_succ_self _) (rounds_params hBase64 h.nodup h.entries hRest)

theorem item_serialized (hBase64 : base64.Lawful) {item : Item} {rest : Text} (h : item.Valid)
    (hRest : Ends rest) :
    Parser.item base64 (serializeItem base64 item ++ rest) = some (item, rest) := by
  rw [serializeItem, List.append_assoc, Parser.item,
    bare_serialized hBase64 h.bare (serializeParams_stops item.params hRest)]
  change (Parser.params base64 _).bind _ = _
  rw [params_serialized hBase64 h.params hRest]
  rfl

/-- An item begins with neither a blank nor a bracket. -/
theorem item_start {s : Text} {r : Item × Text} (h : Parser.item base64 s = some r) :
    ∃ c rest, s = c :: rest ∧ c ≠ ' ' ∧ c ≠ '(' ∧ c ≠ ')' := by
  obtain ⟨r', hBare, -⟩ := Option.bind_eq_some_iff.mp h
  cases s with
  | nil => cases hBare
  | cons c rest =>
    refine ⟨c, rest, rfl, ?_, ?_, ?_⟩
    all_goals
      rintro rfl
      cases hBare

theorem innerRound_item {items : List Item} {s rest : Text} {item : Item}
    (h : Parser.item base64 s = some (item, rest)) (hEnds : Parser.endsItem rest = true) :
    Parser.innerRound base64 (items, s) = some (.inl (items ++ [item], rest)) := by
  obtain ⟨c, s, rfl, hBlank, -, hClose⟩ := item_start h
  have hSkip : skipSp (c :: s) = c :: s :=
    dropWhile_stop (by rintro d ⟨⟩; exact beq_eq_false_iff_ne.mpr hBlank)
  rw [Parser.innerRound, hSkip]
  split
  · rename_i s' hEq
    exact absurd (List.cons.inj hEq).1 hClose
  · change (Parser.item base64 _).bind _ = _
    rw [h]
    dsimp only [Option.bind_eq_bind, Option.bind_some]
    rw [guard, if_pos hEnds]
    rfl

/-- The text of the items that follow an item. -/
def restItems (base64 : Base64Text) (items : List Item) : Text :=
  items.flatMap fun item => ' ' :: serializeItem base64 item

theorem intercalate_items (item : Item) (items : List Item) :
    [' '].intercalate ((item :: items).map (serializeItem base64)) =
      serializeItem base64 item ++ restItems base64 items := by
  induction items generalizing item with
  | nil => rw [List.map_singleton, List.intercalate_singleton, restItems, List.flatMap_nil,
      List.append_nil]
  | cons item' items ih =>
    rw [List.map_cons, List.map_cons, List.intercalate_cons_cons, ← List.map_cons, ih item',
      restItems, restItems, List.flatMap_cons, List.append_assoc]
    rfl

theorem restItems_endsItem (items : List Item) (tail : Text) :
    Parser.endsItem (restItems base64 items ++ ')' :: tail) = true := by
  cases items with
  | nil => rfl
  | cons item items => rfl

theorem restItems_ends (base64 : Base64Text) (items : List Item) (tail : Text) :
    Ends (restItems base64 items ++ ')' :: tail) := by
  cases items with
  | nil =>
    rintro c ⟨⟩
    exact Or.inr rfl
  | cons item items =>
    rintro c ⟨⟩
    exact Or.inl rfl

theorem innerRound_close (hBase64 : base64.Lawful) {items : List Item} {params : Params}
    {rest : Text} (h : ValidParams params) (hRest : Ends rest) :
    Parser.innerRound base64 (items, ')' :: (serializeParams base64 params ++ rest)) =
      some (.inr (.innerList items params, rest)) := by
  change (Parser.params base64 _).bind _ = _
  rw [params_serialized hBase64 h hRest]
  rfl

theorem rounds_items (hBase64 : base64.Lawful) {before items : List Item} {params : Params}
    {rest : Text} (hItems : ∀ i ∈ items, i.Valid) (hParams : ValidParams params)
    (hRest : Ends rest) :
    Rounds (Parser.innerRound base64)
      (before, restItems base64 items ++ ')' :: (serializeParams base64 params ++ rest))
      (.innerList (before ++ items) params, rest) := by
  induction items generalizing before with
  | nil =>
    rw [List.append_nil]
    exact .leave (innerRound_close hBase64 hParams hRest)
  | cons item items ih =>
    have hItem := item_serialized hBase64 (hItems item List.mem_cons_self)
      (restItems_ends base64 items (serializeParams base64 params ++ rest))
    have hRound := @innerRound_item _ before _ _ _ hItem (restItems_endsItem items _)
    rw [List.append_cons before item items]
    refine .again ?_ (ih fun i hI => hItems i (List.mem_cons_of_mem _ hI))
    rw [restItems, List.flatMap_cons, List.append_assoc]
    exact hRound

/-- The text of an inner list is parsed to it. -/
theorem innerList_serialized (hBase64 : base64.Lawful) {items : List Item} {params : Params}
    {rest : Text} (h : (Member.innerList items params).Valid) (hRest : Ends rest) :
    Parser.member base64 (serializeInnerList base64 items params ++ rest) =
      some (.innerList items params, rest) := by
  have hAssoc : serializeInnerList base64 items params ++ rest =
      '(' :: ([' '].intercalate (items.map (serializeItem base64)) ++
        ')' :: (serializeParams base64 params ++ rest)) := by
    simp only [serializeInnerList, List.append_assoc, List.cons_append]
  rw [hAssoc]
  refine loop_of_rounds (fun r => r.2.length) (fun _ _ => innerRound_again)
    (Nat.lt_succ_self _) ?_
  cases items with
  | nil => exact .leave (innerRound_close hBase64 h.2 hRest)
  | cons item items =>
    have hItem := item_serialized hBase64 (h.1 item List.mem_cons_self)
      (restItems_ends base64 items (serializeParams base64 params ++ rest))
    rw [intercalate_items, List.append_assoc]
    exact .again (innerRound_item hItem (restItems_endsItem items _))
      (rounds_items hBase64 (fun i hI => h.1 i (List.mem_cons_of_mem _ hI)) h.2 hRest)

/-! ## Fields of one member -/

/-- A text that does not end with a blank. -/
def Closed (text : Text) : Prop :=
  ∀ c ∈ text.getLast?, c ≠ ' '

theorem Closed.append {text rest : Text} (hText : Closed text) (hRest : Closed rest) :
    Closed (text ++ rest) := by
  intro c hc
  rw [List.getLast?_append] at hc
  cases hLast : rest.getLast? with
  | none =>
    rw [hLast] at hc
    exact hText c hc
  | some d =>
    rw [hLast] at hc
    exact hRest c (hLast.trans hc)

theorem Closed.of_notMem {text : Text} (h : ' ' ∉ text) : Closed text := by
  rintro c hc rfl
  exact h (List.mem_of_getLast? hc)

theorem Closed.cons {text : Text} (c : Char) (hNe : text ≠ []) (h : Closed text) :
    Closed (c :: text) := by
  intro d hd
  rw [List.getLast?_cons_of_ne_nil hNe] at hd
  exact h d hd

theorem Closed.of_all {text : Text} {p : Char → Bool} (hBlank : p ' ' = false)
    (h : ∀ c ∈ text, p c = true) : Closed text :=
  .of_notMem fun hBlankMem => absurd (h _ hBlankMem) (by simp [hBlank])

theorem trimSp_closed {c : Char} {text : Text} (hStart : c ≠ ' ') (h : Closed (c :: text)) :
    trimSp (c :: text) = c :: text := by
  have hFront : (c :: text).dropWhile (· == ' ') = c :: text :=
    dropWhile_stop (by rintro d ⟨⟩; exact beq_eq_false_iff_ne.mpr hStart)
  rw [trimSp, trimMatches, hFront, List.rdropWhile_eq_self_iff]
  intro hNe
  rw [beq_iff_eq]
  exact h _ (List.getLast?_eq_some_getLast hNe)

theorem serializeBare_closed {value : Bare} (h : value.Valid) :
    serializeBare base64 value ≠ [] ∧ Closed (serializeBare base64 value) := by
  cases value with
  | integer n =>
    have hDigits : Closed (Nat.toDigits 10 n.natAbs) := .of_all (p := Char.isDigit) rfl
      fun c hc => Nat.isDigit_of_mem_toDigits (by decide) (by decide) hc
    rw [serializeBare, signedDigits]
    refine ⟨List.append_ne_nil_of_right_ne_nil _ Nat.toDigits_ne_nil, ?_⟩
    cases decide (n < 0) with
    | true => exact hDigits.cons '-' Nat.toDigits_ne_nil
    | false => exact hDigits
  | decimal text =>
    obtain ⟨negative, int, frac, hText⟩ := h
    have hFrac : Closed frac := .of_all rfl hText.fracDigits
    rw [serializeBare, hText.text_eq]
    refine ⟨List.append_ne_nil_of_right_ne_nil _ (List.cons_ne_nil _ _), ?_⟩
    refine Closed.append (.append ?_ (.of_all rfl hText.intDigits)) (hFrac.cons '.' hText.frac_ne)
    cases negative with
    | true => exact .of_notMem (by decide)
    | false => exact .of_notMem (by decide)
  | str text =>
    refine ⟨List.cons_ne_nil _ _, ?_⟩
    intro c hc
    rw [serializeBare, List.getLast?_concat] at hc
    cases hc
    decide
  | token text =>
    obtain ⟨c, text, rfl, hStart, hText⟩ := h
    refine ⟨List.cons_ne_nil _ _, .of_notMem ?_⟩
    intro hd
    rcases List.mem_cons.mp hd with rfl | hd
    · exact absurd hStart (by decide)
    · exact absurd (hText _ hd) (by decide)
  | bytes bytes =>
    refine ⟨List.cons_ne_nil _ _, ?_⟩
    intro c hc
    rw [serializeBare, List.getLast?_concat] at hc
    cases hc
    decide
  | bool b =>
    refine ⟨List.cons_ne_nil _ _, .of_notMem ?_⟩
    change ' ' ∉ ['?', if b then '1' else '0']
    cases b with
    | true => decide
    | false => decide

theorem serializeParams_closed {params : Params} (h : ∀ e ∈ params, KeyText e.1 ∧ e.2.Valid) :
    Closed (serializeParams base64 params) := by
  induction params with
  | nil => rintro c ⟨⟩
  | cons e params ih =>
    obtain ⟨hName, hValue⟩ := h e List.mem_cons_self
    have hKey : Closed (';' :: e.1) := by
      refine .of_notMem ?_
      intro hc
      rcases List.mem_cons.mp hc with hc | hc
      · exact absurd hc (by decide)
      · exact absurd (hName.2 _ hc) (by decide)
    rw [serializeParams_cons]
    refine Closed.append ?_ (ih fun d hd => h d (List.mem_cons_of_mem _ hd))
    rw [serializeParam.eq_def]
    split
    · exact hKey
    · exact hKey.append ((serializeBare_closed hValue).2.cons '=' (serializeBare_closed hValue).1)

theorem serializeInnerList_closed {items : List Item} {params : Params} (h : ValidParams params) :
    Closed (serializeInnerList base64 items params) := by
  have hTail : Closed (')' :: serializeParams base64 params) := by
    rw [← List.singleton_append]
    exact Closed.append (.of_notMem (by decide)) (serializeParams_closed h.entries)
  intro c hc
  rw [serializeInnerList, List.getLast?_append_of_ne_nil _ (List.cons_ne_nil _ _)] at hc
  exact hTail c hc

/-- A field with one member. -/
theorem dictionary_member {name text : Text} {member : Member} (hName : KeyText name)
    (hText : Closed text) (hNe : text ≠ []) (h : Parser.member base64 text = some (member, [])) :
    parseDictionary base64 (name ++ '=' :: text) = some [(name, member)] := by
  have hKey : Parser.key (name ++ '=' :: text) = some (name, '=' :: text) :=
    key_append hName (by rintro c ⟨⟩; decide)
  have hTrim : trimSp (name ++ '=' :: text) = name ++ '=' :: text := by
    cases name with
    | nil => exact absurd hName.1 Bool.false_ne_true
    | cons c name =>
      have hStart : isKeyStart c = true := hName.1
      refine trimSp_closed ?_ ?_
      · rintro rfl
        exact absurd hStart (by decide)
      · intro d hd
        change d ∈ (c :: name ++ '=' :: text).getLast? at hd
        rw [List.getLast?_append_of_ne_nil _ (List.cons_ne_nil _ _),
          List.getLast?_cons_of_ne_nil hNe] at hd
        exact hText d hd
  have hRound : Parser.dictionaryRound base64 ([], name ++ '=' :: text) =
      some (.inr [(name, member)]) := by
    rw [Parser.dictionaryRound, if_neg (by simp), hKey]
    change (Parser.member base64 text).bind _ = _
    rw [h]
    rfl
  rw [parseDictionary, hTrim, loop, hRound]

/-- A field whose one member is an inner list. -/
theorem dictionary_serialized (hBase64 : base64.Lawful) {name : Text} {items : List Item}
    {params : Params} (hName : KeyText name) (h : (Member.innerList items params).Valid) :
    parseDictionary base64 (name ++ '=' :: serializeInnerList base64 items params) =
      some [(name, .innerList items params)] := by
  have hParsed := innerList_serialized hBase64 h Ends.nil
  rw [List.append_nil] at hParsed
  exact dictionary_member hName (serializeInnerList_closed h.2) (List.cons_ne_nil _ _) hParsed

theorem lookup_mem {V : Type} {map : List (Text × V)} {name : Text} {value : V}
    (h : lookup map name = some value) : (name, value) ∈ map := by
  obtain ⟨e, hFind, rfl⟩ := Option.map_eq_some_iff.mp h
  have hName : (e.1 == name) = true := List.find?_some (p := fun e : Text × V => e.1 == name) hFind
  rw [← beq_iff_eq.mp hName]
  exact List.mem_of_find?_eq_some hFind

/-- What a signature covers is the canonical text of the inner list that the field was parsed to,
and the parser reads that text as the same list. -/
theorem innerList_reparsed (hBase64 : base64.Lawful) {field : Text} {dict : Dictionary}
    {name : Text} {items : List Item} {params : Params}
    (hParsed : parseDictionary base64 field = some dict)
    (hMember : lookup dict name = some (.innerList items params)) (name' : Text)
    (hName : KeyText name') :
    parseDictionary base64 (name' ++ '=' :: serializeInnerList base64 items params) =
      some [(name', .innerList items params)] :=
  dictionary_serialized hBase64 hName (valid_parsed hParsed _ (lookup_mem hMember))

/-! ## The standard alphabet -/

def base64Digit (c : Char) : Option Nat :=
  if 65 ≤ c.toNat ∧ c.toNat ≤ 90 then some (c.toNat - 65)
  else if 97 ≤ c.toNat ∧ c.toNat ≤ 122 then some (c.toNat - 71)
  else if 48 ≤ c.toNat ∧ c.toNat ≤ 57 then some (c.toNat + 4)
  else if c = '+' then some 62
  else if c = '/' then some 63
  else none

def base64Symbol (d : Nat) : Char :=
  Char.ofNat (if d < 26 then 65 + d else if d < 52 then 71 + d else if d < 62 then d - 4
    else if d = 62 then 43 else 47)

theorem base64Symbol_spec : ∀ d < 2 ^ 6, base64Digit (base64Symbol d) = some d ∧
    isBase64Char (base64Symbol d) = true ∧ (base64Symbol d == '=') = false := by
  decide +kernel

/-- With padding up to a multiple of four symbols, which the decoder does not ask for. -/
def standardBase64 : Base64Text where
  encode bytes :=
    baseEncode 6 base64Symbol bytes ++ List.replicate ((3 - bytes.length % 3) % 3) '='
  decode text := baseDecode 6 base64Digit (text.rdropWhile (· == '='))

theorem standardBase64_lawful : standardBase64.Lawful where
  decode_encode bytes := by
    have hSymbols : (baseEncode 6 base64Symbol bytes).rdropWhile (· == '=') =
        baseEncode 6 base64Symbol bytes := by
      rw [List.rdropWhile_eq_self_iff]
      intro hNe hLast
      obtain ⟨d, hd, hSymbol⟩ := mem_baseEncode (List.getLast_mem hNe)
      rw [← hSymbol, (base64Symbol_spec d hd).2.2] at hLast
      cases hLast
    have hPadding : (baseEncode 6 base64Symbol bytes ++
        List.replicate ((3 - bytes.length % 3) % 3) '=').rdropWhile (· == '=') =
        (baseEncode 6 base64Symbol bytes).rdropWhile (· == '=') := by
      rw [List.rdropWhile, List.reverse_append, List.reverse_replicate,
        List.dropWhile_append_of_pos, List.rdropWhile]
      intro c hc
      rw [List.eq_of_mem_replicate hc]
      rfl
    change baseDecode 6 base64Digit _ = some bytes
    rw [standardBase64, hPadding, hSymbols]
    exact baseDecode_baseEncode (by decide) (by decide) (fun d hd => (base64Symbol_spec d hd).1)
      bytes
  chars bytes := by
    refine List.forall_mem_append.mpr ⟨fun c hc => ?_, fun c hc => ?_⟩
    · obtain ⟨d, hd, rfl⟩ := mem_baseEncode hc
      exact (base64Symbol_spec d hd).2.1
    · rw [List.eq_of_mem_replicate hc]
      rfl

def sampleItems : List Item :=
  [⟨.str "x \"y\"".toList, [("b".toList, .bytes [1, 2, 3, 4]), ("f".toList, .bool true)]⟩,
    ⟨.token "a/b".toList, []⟩]

def sampleParams : Params :=
  [("n".toList, .integer (-7)), ("d".toList, .decimal "1.5".toList), ("no".toList, .bool false)]

/-- The member stands twice, and is not in canonical form. -/
theorem innerList_reparsed_sample : parseDictionary standardBase64
    "sig=(\"x \\\"y\\\"\";b=:AQIDBA==:;f a/b);n=-7;d=1.5;no=?0".toList =
      some [("sig".toList, .innerList sampleItems sampleParams)] := by
  have hParsed : parseDictionary standardBase64
      "sig=1,  sig=( \"x \\\"y\\\"\"; b=:AQIDBA:;f=?1   a/b );n=-007;d=1;d=01.50;no=?0 ".toList =
        some [("sig".toList, .innerList sampleItems sampleParams)] := by
    decide +kernel
  have hMember : lookup [("sig".toList, Member.innerList sampleItems sampleParams)] "sig".toList =
      some (.innerList sampleItems sampleParams) := by
    decide +kernel
  have hText : "sig".toList ++ '=' :: serializeInnerList standardBase64 sampleItems sampleParams =
      "sig=(\"x \\\"y\\\"\";b=:AQIDBA==:;f a/b);n=-7;d=1.5;no=?0".toList := by
    decide +kernel
  have hReparsed := innerList_reparsed standardBase64_lawful hParsed hMember "sig".toList
    ⟨rfl, List.all_eq_true.mp (by decide)⟩
  rwa [hText] at hReparsed

end Ezpds.Spaces
