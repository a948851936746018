import Ezpds.Auth.ScopeNormal

/-!
# Canonical scope requests

Normalizing a request a second time changes nothing, and neither does the order in which
its tokens and their parameters are given, or how often.

* `normalizeToken_idem`: a canonical token is left as it is.
* `normalizeToken_respelled`: the parameters of a token in another order.
* `normalizeScopeRequest_canonical`: both, for whole requests.
-/

namespace Ezpds.Auth

open Library Repo

variable {table : CaseTable}

/-! ## Characters of a token -/

theorem mem_intercalate {sep : List Char} {ls : List (List Char)} {c : Char}
    (h : c ∈ List.intercalate sep ls) : c ∈ sep ∨ ∃ l ∈ ls, c ∈ l := by
  match ls with
  | [] => cases h
  | [l] =>
    rw [List.intercalate_singleton] at h
    exact Or.inr ⟨l, List.mem_singleton_self l, h⟩
  | l :: l' :: ls =>
    rw [List.intercalate_cons_cons, List.mem_append, List.mem_append] at h
    rcases h with (h | h) | h
    · exact Or.inr ⟨l, List.mem_cons_self, h⟩
    · exact Or.inl h
    · rcases mem_intercalate h with h | ⟨k, hk, hc⟩
      · exact Or.inl h
      · exact Or.inr ⟨k, List.mem_cons_of_mem _ hk, hc⟩

theorem word_chars {w : String} (hw : ∀ c ∈ w.toList, c.isAlpha = true) {c : Char}
    (hc : c ∈ w.toList) : isComponentChar c = true := by
  simp [isComponentChar, Char.isAlphanum, hw c hc]

theorem formatHead_chars {scopePrefix : String} {positional : Option String}
    (h : ∀ c ∈ scopePrefix.toList, c.isAlpha = true) {c : Char}
    (hc : c ∈ formatHead scopePrefix positional) : isComponentChar c = true := by
  rw [formatHead.eq_def, List.mem_append] at hc
  cases positional with
  | none =>
    rcases hc with hc | hc
    · exact word_chars h hc
    · cases hc
  | some pos =>
    rcases hc with hc | hc
    · exact word_chars h hc
    · rcases List.mem_cons.mp hc with rfl | hc
      · decide
      · exact encodeComponent_chars hc

theorem formatParam_chars {p : String × String} (h : ∀ c ∈ p.1.toList, c.isAlpha = true)
    {c : Char} (hc : c ∈ formatParam p) : isComponentChar c = true ∨ c = '=' := by
  rw [formatParam, List.mem_append, List.mem_cons] at hc
  rcases hc with hc | hc | hc
  · exact Or.inl (word_chars h hc)
  · exact Or.inr hc
  · exact Or.inl (encodeComponent_chars hc)

theorem format_chars {s : ScopeSyntax} (h : s.Plain) {c : Char} (hc : c ∈ s.format) :
    isComponentChar c = true ∨ c ∈ ['?', '=', '&'] := by
  rw [ScopeSyntax.format, formatScope, List.mem_append] at hc
  rcases hc with hc | hc
  · exact Or.inl (formatHead_chars h.scopePrefix hc)
  · split at hc
    · cases hc
    · rcases List.mem_cons.mp hc with rfl | hc
      · exact Or.inr List.mem_cons_self
      · rcases mem_intercalate hc with hc | ⟨l, hl, hc⟩
        · rw [List.mem_singleton.mp hc]
          exact Or.inr (by decide)
        · obtain ⟨p, hp, rfl⟩ := List.mem_map.mp hl
          rcases formatParam_chars (h.keys p hp) hc with hc | rfl
          · exact Or.inl hc
          · exact Or.inr (by decide)

theorem space_not_mem_format {s : ScopeSyntax} (h : s.Plain) : ' ' ∉ s.format := by
  intro hSpace
  rcases format_chars h hSpace with hc | hc
  · revert hc
    decide
  · revert hc
    decide

/-! ## Canonical tokens -/

theorem scopePrefix_ne_empty {s t : ScopeSyntax} (h : canonical table s = some t) :
    t.scopePrefix ≠ "" := by
  rw [canonical_scopePrefix h]
  rcases canonical_cases h with ⟨hs, _⟩ | ⟨hs, _⟩ | ⟨hs, _⟩ | ⟨hs, _⟩ | ⟨hs, _⟩ | ⟨hs, _⟩ |
    ⟨hs, _⟩ <;> rw [hs] <;> decide

theorem format_ne_nil {s : ScopeSyntax} (h : s.scopePrefix ≠ "") : s.format ≠ [] := by
  intro hNil
  rw [ScopeSyntax.format, formatScope, formatHead.eq_def, List.append_eq_nil_iff,
    List.append_eq_nil_iff] at hNil
  exact h (String.toList_eq_nil_iff.mp hNil.1.1)

/-- What `normalizeToken` gives is a static scope, or the spelling of a canonical token. -/
theorem normalizeToken_cases {token : List Char} {c : String}
    (h : normalizeToken table token = some c) :
    (c ∈ STATIC_SCOPES ∧ c.toList = token) ∨
      (String.ofList token ∉ STATIC_SCOPES ∧
        ∃ t, canonical table (ScopeSyntax.parse token) = some t ∧ String.ofList t.format = c) := by
  rw [normalizeToken] at h
  split at h
  · rename_i hStatic
    cases h
    exact Or.inl ⟨List.contains_iff_mem.mp hStatic, String.toList_ofList⟩
  · rename_i hStatic
    refine Or.inr ⟨fun hMem => hStatic (List.contains_iff_mem.mpr hMem), ?_⟩
    exact Option.map_eq_some_iff.mp h

/-- A canonical token is its own canonical form. -/
theorem normalizeToken_idem (hTable : table.Lawful) {token : List Char} {c : String}
    (h : normalizeToken table token = some c) : normalizeToken table c.toList = some c := by
  rcases normalizeToken_cases h with ⟨_, hToken⟩ | ⟨_, t, hCanonical, rfl⟩
  · rwa [hToken]
  · rw [normalizeToken, String.toList_ofList]
    split
    · rfl
    · rw [parse_format (canonical_plain hTable hCanonical), canonical_idem hTable hCanonical]
      rfl

/-- A canonical token stays one token of a request. -/
theorem normalizeToken_chars (hTable : table.Lawful) {token : List Char} {c : String}
    (h : normalizeToken table token = some c) : ' ' ∉ c.toList ∧ c.toList ≠ [] := by
  rcases normalizeToken_cases h with ⟨hStatic, _⟩ | ⟨_, t, hCanonical, rfl⟩
  · have hEach : ∀ s ∈ STATIC_SCOPES, ' ' ∉ s.toList ∧ s.toList ≠ [] := by decide
    exact hEach c hStatic
  · rw [String.toList_ofList]
    exact ⟨space_not_mem_format (canonical_plain hTable hCanonical),
      format_ne_nil (scopePrefix_ne_empty hCanonical)⟩

/-! ## Tokens that are spelled in another way -/

/-- `query.split('&')`, without the empty pieces. -/
def querySegments (query : List Char) : List (List Char) :=
  (query.splitOn '&').filter fun seg => !seg.isEmpty

def segmentParam (seg : List Char) : String × String :=
  match splitOnce '=' seg with
  | some (k, v) => (percentDecode k, percentDecode v)
  | none => (percentDecode seg, "")

theorem parseQuery_eq (query : List Char) :
    parseQuery query = (querySegments query).map segmentParam :=
  rfl

/-- How often a query gives a key. -/
def timesGiven (query : List Char) (key : String) : Nat :=
  (querySegments query).countP fun seg => (segmentParam seg).1 == key

theorem length_valuesOf_parseQuery (query : List Char) (key : String) :
    (valuesOf (parseQuery query) key).length = timesGiven query key := by
  rw [valuesOf, List.length_map, ← List.countP_eq_length_filter, parseQuery_eq, List.countP_map]
  rfl

/-- The same token, its parameters in another order, and those that may be repeated more or
less often. -/
inductive Respelled : List Char → List Char → Prop
  | same (token : List Char) : Respelled token token
  | params {head query query' : List Char} (hHead : '?' ∉ head)
      (hSegments : ∀ seg, seg ∈ querySegments query ↔ seg ∈ querySegments query')
      (hSingle : ∀ key ∈ SINGLE_PARAMS, timesGiven query key = timesGiven query' key) :
      Respelled (head ++ '?' :: query) (head ++ '?' :: query')

theorem not_static {head query : List Char} :
    STATIC_SCOPES.contains (String.ofList (head ++ '?' :: query)) = false := by
  have hEach : ∀ s ∈ STATIC_SCOPES, '?' ∉ s.toList := by decide
  rw [Bool.eq_false_iff]
  intro hStatic
  have hNone := hEach _ (List.contains_iff_mem.mp hStatic)
  rw [String.toList_ofList] at hNone
  exact hNone (List.mem_append_right _ List.mem_cons_self)

theorem normalizeToken_respelled {token token' : List Char} {c : String}
    (hSpelled : Respelled token token') (h : normalizeToken table token = some c) :
    normalizeToken table token' = some c := by
  cases hSpelled with
  | same => exact h
  | @params head query query' hHead hSegments hSingle =>
    rw [normalizeToken, not_static, parse_question hHead] at h
    rw [normalizeToken, not_static, parse_question hHead]
    obtain ⟨t, ht, hFormat⟩ := Option.map_eq_some_iff.mp h
    refine Option.map_eq_some_iff.mpr ⟨t, canonical_congr ?_ ht, hFormat⟩
    refine ⟨rfl, rfl, ?_, ?_⟩
    · intro p
      simp only [parseQuery_eq, List.mem_map, hSegments]
    · intro key hKey
      rw [ScopeSyntax.getMulti, ScopeSyntax.getMulti, length_valuesOf_parseQuery,
        length_valuesOf_parseQuery]
      exact hSingle key hKey

/-! ## Requests -/

theorem normalizeRequestToken_ok {token : List Char} {c : String} :
    normalizeRequestToken table token = .ok c ↔ normalizeToken table token = some c := by
  rw [normalizeRequestToken]
  cases normalizeToken table token with
  | none => simp
  | some normalized => simp

/-- An accepted request is the set of its canonical tokens. -/
theorem normalizeScopeRequest_ok {requested c : String} :
    normalizeScopeRequest table requested = .ok c ↔
      ∃ normalized, (scopeTokens requested).mapM (normalizeRequestToken table) = .ok normalized ∧
        "atproto" ∈ normalized ∧ " ".intercalate (sortedSet normalized) = c := by
  rw [normalizeScopeRequest, bind_ok]
  constructor
  · intro h
    obtain ⟨normalized, hNormalized, h⟩ := h
    obtain ⟨_, _, h⟩ := bind_ok.mp h
    obtain ⟨_, hAtproto, h⟩ := bind_ok.mp h
    exact ⟨normalized, hNormalized, List.contains_iff_mem.mp (check_ok.mp hAtproto),
      (pure_ok.mp h).symm⟩
  · intro h
    obtain ⟨normalized, hNormalized, hAtproto, h⟩ := h
    refine ⟨normalized, hNormalized, ?_⟩
    refine bind_ok.mpr ⟨(), check_ok.mpr ?_, bind_ok.mpr ⟨(), check_ok.mpr ?_, ?_⟩⟩
    · rw [Bool.not_eq_true', List.isEmpty_eq_false_iff]
      exact List.ne_nil_of_mem hAtproto
    · exact List.contains_iff_mem.mpr hAtproto
    · exact pure_ok.mpr h.symm

theorem scopeTokens_intercalate {tokens : List String} (hNonempty : tokens ≠ [])
    (h : ∀ token ∈ tokens, ' ' ∉ token.toList ∧ token.toList ≠ []) :
    scopeTokens (" ".intercalate tokens) = tokens.map String.toList := by
  have hSep : ∀ l ∈ tokens.map String.toList, ' ' ∉ l := by
    intro l hl
    obtain ⟨token, hToken, rfl⟩ := List.mem_map.mp hl
    exact (h token hToken).1
  have hKept : (tokens.map String.toList).filter (fun token => !token.isEmpty) =
      tokens.map String.toList := by
    rw [List.filter_eq_self]
    intro l hl
    obtain ⟨token, hToken, rfl⟩ := List.mem_map.mp hl
    simpa using (h token hToken).2
  have hText : (" ".intercalate tokens).toList =
      List.intercalate [' '] (tokens.map String.toList) := String.toList_intercalate
  rw [scopeTokens, hText, List.splitOn_intercalate _ hSep (by simpa using hNonempty), hKept]

/-- A canonical request is left as it is and repeats no token. The tokens of a request may be
reordered and repeated, and so may their parameters, where one that has a single value keeps
its number. -/
theorem normalizeScopeRequest_canonical (hTable : table.Lawful) {requested c : String}
    (h : normalizeScopeRequest table requested = .ok c) :
    normalizeScopeRequest table c = .ok c ∧ (scopeTokens c).Nodup ∧
      ∀ requested',
        (∀ token ∈ scopeTokens requested, ∃ token' ∈ scopeTokens requested',
          Respelled token token') →
        (∀ token' ∈ scopeTokens requested', ∃ token ∈ scopeTokens requested,
          Respelled token token') →
        normalizeScopeRequest table requested' = .ok c := by
  obtain ⟨normalized, hNormalized, hAtproto, rfl⟩ := normalizeScopeRequest_ok.mp h
  have hMem : ∀ {token}, token ∈ sortedSet normalized ↔
      ∃ raw ∈ scopeTokens requested, normalizeToken table raw = some token := by
    intro token
    rw [mem_sortedSet, mem_of_mapM_ok hNormalized]
    simp only [normalizeRequestToken_ok]
  have hTokens : scopeTokens (" ".intercalate (sortedSet normalized)) =
      (sortedSet normalized).map String.toList := by
    apply scopeTokens_intercalate
    · exact List.ne_nil_of_mem (mem_sortedSet.mpr hAtproto)
    · intro token hToken
      obtain ⟨raw, _, hRaw⟩ := hMem.mp hToken
      exact normalizeToken_chars hTable hRaw
  refine ⟨?_, ?_, ?_⟩
  · refine normalizeScopeRequest_ok.mpr ⟨sortedSet normalized, ?_, mem_sortedSet.mpr hAtproto, ?_⟩
    · rw [hTokens, mapM_ok, List.forall₂_map_left_iff, List.forall₂_same]
      intro token hToken
      obtain ⟨raw, _, hRaw⟩ := hMem.mp hToken
      exact normalizeRequestToken_ok.mpr (normalizeToken_idem hTable hRaw)
    · rw [sortedSet_eq_self sortedSet_increasing]
  · rw [hTokens]
    exact nodup_sortedSet.map fun _ _ => String.toList_injective
  · intro requested' hFrom hTo
    obtain ⟨normalized', hNormalized'⟩ :
        ∃ l, (scopeTokens requested').mapM (normalizeRequestToken table) = .ok l := by
      apply exists_mapM_ok
      intro token' hToken'
      obtain ⟨token, hToken, hSpelled⟩ := hTo token' hToken'
      obtain ⟨b, hb⟩ := ok_of_mapM_ok hNormalized hToken
      exact ⟨b, normalizeRequestToken_ok.mpr
        (normalizeToken_respelled hSpelled (normalizeRequestToken_ok.mp hb))⟩
    have hSame : ∀ token, token ∈ normalized' ↔ token ∈ normalized := by
      intro b
      rw [mem_of_mapM_ok hNormalized', mem_of_mapM_ok hNormalized]
      constructor
      · intro hb
        obtain ⟨token', hToken', hb⟩ := hb
        obtain ⟨token, hToken, hSpelled⟩ := hTo token' hToken'
        obtain ⟨b', hb'⟩ := ok_of_mapM_ok hNormalized hToken
        have hRespelled :=
          normalizeToken_respelled hSpelled (normalizeRequestToken_ok.mp hb')
        rw [normalizeRequestToken_ok.mp hb] at hRespelled
        cases hRespelled
        exact ⟨token, hToken, hb'⟩
      · intro hb
        obtain ⟨token, hToken, hb⟩ := hb
        obtain ⟨token', hToken', hSpelled⟩ := hFrom token hToken
        exact ⟨token', hToken', normalizeRequestToken_ok.mpr
          (normalizeToken_respelled hSpelled (normalizeRequestToken_ok.mp hb))⟩
    refine normalizeScopeRequest_ok.mpr ⟨normalized', hNormalized', (hSame _).mpr hAtproto, ?_⟩
    rw [sortedSet_congr hSame]

theorem normalizeScopeRequest_canonical_repo :
    normalizeScopeRequest .ascii "repo?collection=a.b.d&collection=a.b.c atproto atproto" =
        .ok "atproto repo?collection=a.b.c&collection=a.b.d" ∧
      normalizeScopeRequest .ascii
          "atproto repo?collection=a.b.c&collection=a.b.d&collection=a.b.c" =
        .ok "atproto repo?collection=a.b.c&collection=a.b.d" := by
  have hFrom : ∀ {l l' : List (List Char)} {repo repo' atproto : List Char},
      l = [repo, atproto, atproto] → l' = [atproto, repo'] → Respelled repo repo' →
      ∀ token ∈ l, ∃ token' ∈ l', Respelled token token' := by
    intro l l' repo repo' atproto hl hl' h
    simp [hl, hl', h, Respelled.same]
  have hTo : ∀ {l l' : List (List Char)} {repo repo' atproto : List Char},
      l = [repo, atproto, atproto] → l' = [atproto, repo'] → Respelled repo repo' →
      ∀ token' ∈ l', ∃ token ∈ l, Respelled token token' := by
    intro l l' repo repo' atproto hl hl' h
    simp [hl, hl', h, Respelled.same]
  have hRepeated : ∀ {l l' : List (List Char)} {a b : List Char}, l = [a, b] → l' = [b, a, b] →
      ∀ seg, seg ∈ l ↔ seg ∈ l' := by
    intro l l' a b hl hl' seg
    rw [hl, hl']
    simp only [List.mem_cons, List.not_mem_nil, or_false]
    tauto
  have hAccepted : normalizeScopeRequest .ascii
      "repo?collection=a.b.d&collection=a.b.c atproto atproto" =
        .ok "atproto repo?collection=a.b.c&collection=a.b.d" := by
    decide +kernel
  have hTokens : scopeTokens "repo?collection=a.b.d&collection=a.b.c atproto atproto" =
      ["repo".toList ++ '?' :: "collection=a.b.d&collection=a.b.c".toList, "atproto".toList,
        "atproto".toList] := by
    decide +kernel
  have hTokens' : scopeTokens "atproto repo?collection=a.b.c&collection=a.b.d&collection=a.b.c" =
      ["atproto".toList,
        "repo".toList ++ '?' :: "collection=a.b.c&collection=a.b.d&collection=a.b.c".toList] := by
    decide +kernel
  have hSegments : querySegments "collection=a.b.d&collection=a.b.c".toList =
      ["collection=a.b.d".toList, "collection=a.b.c".toList] := by
    decide +kernel
  have hSegments' : querySegments "collection=a.b.c&collection=a.b.d&collection=a.b.c".toList =
      ["collection=a.b.c".toList, "collection=a.b.d".toList, "collection=a.b.c".toList] := by
    decide +kernel
  have hSpelled := @Respelled.params "repo".toList "collection=a.b.d&collection=a.b.c".toList
    "collection=a.b.c&collection=a.b.d&collection=a.b.c".toList (by decide)
    (hRepeated hSegments hSegments') (by decide +kernel)
  exact ⟨hAccepted, (normalizeScopeRequest_canonical CaseTable.ascii_lawful hAccepted).2.2 _
    (hFrom hTokens hTokens' hSpelled) (hTo hTokens hTokens' hSpelled)⟩

/-- A parameter that has a single value may not be repeated. -/
theorem normalizeScopeRequest_repeated_aud :
    (normalizeScopeRequest .ascii "atproto rpc:a.b.c?aud=did:web:x.y").isOk = true ∧
      (normalizeScopeRequest .ascii
        "atproto rpc:a.b.c?aud=did:web:x.y&aud=did:web:x.y").isOk = false := by
  decide +kernel

end Ezpds.Auth
