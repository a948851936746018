import Ezpds.Auth.ScopeAnswers

/-!
# Permission sets

A scope may include a permission set by its NSID. The set is a document that its authority
publishes; `resolvePermissionSet` turns its entries into scope tokens.

* `convertEntry_confined`: the token that an entry becomes.
* `resolvePermissionSet_confined`: what the tokens of a set can grant.
-/

namespace Ezpds.Auth

open Library Repo

/-! ## Documents -/

/-- One entry of a permission set, by its `resource`. -/
inductive PermissionEntry where
  | repo (collection action : List String)
  | rpc (lxm : List String) (aud : Option String) (inheritAud : Bool)
  | blob (accept : List String)
  | account (attr : String) (action : List String)
  | identity (attr : String)
  | space (spaceType : String) (authority skey : Option String)
      (collection action manage : List String)
  deriving DecidableEq, Repr

structure PermissionSetDef where
  type_ : String
  permissions : List PermissionEntry
  deriving DecidableEq, Repr

/-- What the resolution of a set asks the network for: the endpoint of an authority's domain,
the schema record that it serves, and the definitions in a record, if it has any. -/
structure LexiconAuthority (Endpoint Record : Type) where
  resolveDomain : String → Except String Endpoint
  fetchLexiconSchema : Endpoint → String → Except String Record
  defs : Record → Option (Except String (List (String × PermissionSetDef)))

/-! ## Names -/

/-- `str::rsplit_once`, for a separator of one character. -/
def rsplitOnce (sep : Char) (s : List Char) : Option (List Char × List Char) :=
  (splitOnce sep s.reverse).map fun p => (p.2.reverse, p.1.reverse)

def nsidAuthorityDomain (nsid : String) : Option String :=
  let segments := nsid.toList.splitOn '.'
  if segments.length < 3 || segments.any (·.isEmpty) then none
  else some (String.ofList (List.intercalate ['.'] segments.dropLast.reverse))

def underNamespaceAuthority (setNsid nsid : String) : Bool :=
  match rsplitOnce '.' setNsid.toList, rsplitOnce '.' nsid.toList with
  | some (setGroup, _), some (group, _) =>
    group == setGroup || (setGroup ++ ['.']).isPrefixOf group
  | _, _ => false

/-! ## Entries -/

def paramsOf (key : String) (values : List String) : List (String × String) :=
  values.map fun v => (key, v)

/-- The parts of the token that an entry is rendered to. -/
def entrySyntax (entry : PermissionEntry) (includeAud : Option String) : ScopeSyntax :=
  match entry with
  | .repo collection action =>
    ⟨"repo", none, paramsOf "collection" collection ++ paramsOf "action" action⟩
  | .rpc lxm aud inheritAud =>
    let resolvedAud := if inheritAud then includeAud else aud
    ⟨"rpc", none, paramsOf "lxm" lxm ++ paramsOf "aud" resolvedAud.toList⟩
  | .blob accept => ⟨"blob", none, paramsOf "accept" accept⟩
  | .account attr action => ⟨"account", some attr, paramsOf "action" action⟩
  | .identity attr => ⟨"identity", some attr, []⟩
  | .space spaceType authority skey collection action manage =>
    ⟨"space", some spaceType, paramsOf "authority" authority.toList ++
      paramsOf "skey" skey.toList ++ paramsOf "collection" collection ++
      paramsOf "action" action ++ paramsOf "manage" manage⟩

def renderPermissionEntry (entry : PermissionEntry) (includeAud : Option String) : List Char :=
  (entrySyntax entry includeAud).format

def isBlobWildcard : PermissionEntry → Bool
  | .blob accept => accept.contains "*/*"
  | _ => false

/-- Some entries are left out of a set: an audience of its own, and a space type that is not
under the authority of the set. -/
def isSkipped (nsid : String) : PermissionEntry → Bool
  | .rpc _ (some aud) _ => aud != "*"
  | .space spaceType _ _ _ _ _ => spaceType == "*" || !underNamespaceAuthority nsid spaceType
  | _ => false

def convertEntry (table : CaseTable) (nsid : String) (includeAud : Option String)
    (entry : PermissionEntry) : Option String :=
  if isSkipped nsid entry then none
  else normalizeToken table (renderPermissionEntry entry includeAud)

/-! ## Sets -/

variable {Endpoint Record : Type}

def resolveAuthorityEndpoint (env : LexiconAuthority Endpoint Record) (nsid : String) :
    Except String Endpoint :=
  match nsidAuthorityDomain nsid with
  | none => .error ("\"" ++ nsid ++ "\" is not a valid NSID")
  | some domain => env.resolveDomain domain

/-- The definitions of a record, whose decoding may fail. -/
def decodeDefs (env : LexiconAuthority Endpoint Record) (nsid : String) (record : Record) :
    Except String (List (String × PermissionSetDef)) :=
  match env.defs record with
  | none => .error ("\"" ++ nsid ++ "\" has no \"defs\"")
  | some (.error e) =>
    .error ("\"" ++ nsid ++ "\"'s permission definitions are malformed: " ++ e)
  | some (.ok doc) => .ok doc

def mainDef (nsid : String) (doc : List (String × PermissionSetDef)) :
    Except String PermissionSetDef :=
  match doc.lookup "main" with
  | none => .error ("\"" ++ nsid ++ "\" has no \"main\" definition")
  | some main => .ok main

def resolvePermissionSet (table : CaseTable) (env : LexiconAuthority Endpoint Record)
    (nsid : String) (includeAud : Option String) : Except String (List String) := do
  let authority ← resolveAuthorityEndpoint env nsid
  let record ← env.fetchLexiconSchema authority nsid
  let doc ← decodeDefs env nsid record
  let main ← mainDef nsid doc
  check (main.type_ == "permission-set")
    ("\"" ++ nsid ++ "\" is not a permission-set Lexicon")
  check (!main.permissions.any isBlobWildcard)
    ("\"" ++ nsid ++ "\" contains a blob:*/* grant, which permission sets may not include")
  return main.permissions.filterMap (convertEntry table nsid includeAud)

/-! ## What a set can grant -/

variable {table : CaseTable} {nsid : String} {includeAud : Option String}
  {entry : PermissionEntry} {token : String} {s t : ScopeSyntax}

theorem mem_paramsOf {key : String} {values : List String} {p : String × String}
    (h : p ∈ paramsOf key values) : p.1 = key := by
  obtain ⟨v, _, rfl⟩ := List.mem_map.mp h
  rfl

theorem valuesOf_paramsOf {name key : String} {values : List String} :
    valuesOf (paramsOf name values) key = if name = key then values else [] :=
  valuesOf_map

/-- An entry is rendered with the words of the grammar only. -/
theorem entrySyntax_words :
    (entrySyntax entry includeAud).scopePrefix ∈ SCOPE_WORDS ∧
      ∀ p ∈ (entrySyntax entry includeAud).params, p.1 ∈ SCOPE_WORDS := by
  cases entry with
  | repo collection action =>
    refine ⟨by simp [entrySyntax, SCOPE_WORDS], fun p hp => ?_⟩
    rcases List.mem_append.mp hp with hp | hp <;> rw [mem_paramsOf hp] <;> decide
  | rpc lxm aud inheritAud =>
    refine ⟨by simp [entrySyntax, SCOPE_WORDS], fun p hp => ?_⟩
    rcases List.mem_append.mp hp with hp | hp <;> rw [mem_paramsOf hp] <;> decide
  | blob accept =>
    refine ⟨by simp [entrySyntax, SCOPE_WORDS], fun p hp => ?_⟩
    rw [mem_paramsOf hp]
    decide
  | account attr action =>
    refine ⟨by simp [entrySyntax, SCOPE_WORDS], fun p hp => ?_⟩
    rw [mem_paramsOf hp]
    decide
  | identity attr =>
    exact ⟨by simp [entrySyntax, SCOPE_WORDS], fun p hp => absurd hp List.not_mem_nil⟩
  | space spaceType authority skey collection action manage =>
    refine ⟨by simp [entrySyntax, SCOPE_WORDS], fun p hp => ?_⟩
    simp only [entrySyntax, List.mem_append] at hp
    rcases hp with (((hp | hp) | hp) | hp) | hp <;> rw [mem_paramsOf hp] <;> decide

theorem entrySyntax_plain : (entrySyntax entry includeAud).Plain :=
  ⟨words_alpha entrySyntax_words.1, fun p hp => words_alpha (entrySyntax_words.2 p hp)⟩

/-- What an entry becomes is the canonical form of its parts. -/
theorem convertEntry_some (h : convertEntry table nsid includeAud entry = some token) :
    isSkipped nsid entry = false ∧
      ∃ t, canonical table (entrySyntax entry includeAud) = some t ∧
        String.ofList t.format = token := by
  have hParse : ScopeSyntax.parse (renderPermissionEntry entry includeAud) =
      entrySyntax entry includeAud := parse_format entrySyntax_plain
  rw [convertEntry] at h
  split at h
  · cases h
  · rename_i hKept
    refine ⟨by simpa using hKept, ?_⟩
    rcases normalizeToken_cases h with ⟨hStatic, hToken⟩ | ⟨_, hCanonical⟩
    · have hEach : ∀ w ∈ STATIC_SCOPES, (ScopeSyntax.parse w.toList).scopePrefix ∉ SCOPE_WORDS := by
        decide
      have hPrefix := hEach token hStatic
      rw [hToken, hParse] at hPrefix
      exact absurd entrySyntax_words.1 hPrefix
    · rwa [hParse] at hCanonical

/-- A token of a permission set, by what it can grant. -/
structure ConfinedToken (nsid : String) (includeAud : Option String) (s : ScopeSyntax) : Prop where
  resource : s.scopePrefix ∈ ["repo", "rpc", "blob", "account", "identity", "space"]
  space : s.scopePrefix = "space" → ∃ grant, parseSpaceGrant s = some grant ∧
    grant.spaceType ≠ "*" ∧ underNamespaceAuthority nsid grant.spaceType = true
  rpc : s.scopePrefix = "rpc" → ∃ aud, s.getMulti "aud" = [aud] ∧
    (aud = "*" ∨ includeAud = some aud) ∧ (aud = "*" → "*" ∉ granted s "lxm")
  blob : s.scopePrefix = "blob" → "*/*" ∉ granted s "accept"

variable {table : CaseTable} {nsid : String} {includeAud : Option String}

theorem confined_repo (h : canonicalRepo s = some t) : ConfinedToken nsid includeAud t := by
  obtain ⟨_, _, _, _, _, _, rfl⟩ := canonicalRepo_some.mp h
  constructor <;> simp [repoSyntax]

theorem confined_rpc {lxm : List String} {aud : Option String} {inheritAud : Bool}
    (hKept : isSkipped nsid (.rpc lxm aud inheritAud) = false)
    (h : canonicalRpc (entrySyntax (.rpc lxm aud inheritAud) includeAud) = some t) :
    ConfinedToken nsid includeAud t := by
  obtain ⟨_, values, value, _, hValid, hAud, hForbidden, rfl⟩ := canonicalRpc_some.mp h
  have hSingle := getMulti_of_getSingle (requiredSingle_some.mp hAud).1
  have hResolved : (if inheritAud then includeAud else aud) = some value := by
    rw [ScopeSyntax.getMulti, entrySyntax] at hSingle
    dsimp only at hSingle
    rw [valuesOf_append, valuesOf_paramsOf, valuesOf_paramsOf, if_neg (by decide), if_pos rfl,
      List.nil_append] at hSingle
    cases hOption : (if inheritAud then includeAud else aud) with
    | none =>
      rw [hOption] at hSingle
      cases hSingle
    | some v =>
      rw [hOption] at hSingle
      cases hSingle
      rfl
  have hWritten : (rpcSyntax (collapse values) value).getMulti "aud" = [value] := by
    rw [ScopeSyntax.getMulti, rpcSyntax, valuesOf_append, valuesOf_spell_of_ne (by decide),
      valuesOf_single, if_pos rfl, List.nil_append]
  have hGranted : granted (rpcSyntax (collapse values) value) "lxm" = collapse values := by
    apply granted_of_collect
    apply collect_spell hValid.collapse.1
    rw [valuesOf_single, if_neg (by decide)]
  constructor
  · simp [rpcSyntax]
  · simp [rpcSyntax]
  · intro _
    refine ⟨value, hWritten, ?_, ?_⟩
    · cases inheritAud with
      | true => exact Or.inr hResolved
      | false =>
        have hEntry : aud = some value := hResolved
        rw [hEntry] at hKept
        exact Or.inl (by simpa [isSkipped] using hKept)
    · rw [hGranted]
      exact hForbidden
  · simp [rpcSyntax]

theorem confined_blob (hTable : table.Lawful) {accept : List String}
    (hAny : isBlobWildcard (.blob accept) = false)
    (h : canonicalBlob table (entrySyntax (.blob accept) includeAud) = some t) :
    ConfinedToken nsid includeAud t := by
  obtain ⟨_, values, hCollect, hValid, rfl⟩ := canonicalBlob_some.mp h
  have hValues : values = accept := by
    have hGranted := granted_of_collect hCollect
    rw [granted, entrySyntax] at hGranted
    dsimp only at hGranted
    rw [ScopeSyntax.getMulti, valuesOf_paramsOf, if_pos rfl] at hGranted
    exact hGranted.symm
  have hNot : "*/*" ∉ values := by
    rw [hValues]
    simpa [isBlobWildcard] using hAny
  have hGranted : granted (blobSyntax (collapseAccept table values)) "accept" =
      collapseAccept table values := by
    have hSpell := @collect_spell "accept" "blob" _ []
      (collapseAccept_ne_nil hTable hValid.2 hValid.1) rfl
    rw [List.append_nil] at hSpell
    exact granted_of_collect hSpell
  constructor
  · simp [blobSyntax]
  · simp [blobSyntax]
  · simp [blobSyntax]
  · intro _
    rw [hGranted]
    exact any_not_mem_collapseAccept hTable hValid.2 hNot

theorem confined_space {spaceType : String} {authority skey : Option String}
    {collection action manage : List String}
    (hKept : isSkipped nsid (.space spaceType authority skey collection action manage) = false)
    (h : canonicalSpace (entrySyntax (.space spaceType authority skey collection action manage)
      includeAud) = some t) : ConfinedToken nsid includeAud t := by
  obtain ⟨grant, hGrant, rfl⟩ := Option.map_eq_some_iff.mp h
  have hType : grant.spaceType = spaceType := by
    obtain ⟨_, value, _, _, _, _, hCollect, _, _, _, _, _, _, rfl⟩ := parseSpaceGrant_some.mp hGrant
    exact (collect_positional rfl hCollect).symm
  have hAllowed : spaceType ≠ "*" ∧ underNamespaceAuthority nsid spaceType = true := by
    simpa [isSkipped] using hKept
  constructor
  · simp
  · intro _
    refine ⟨grant, parseSpaceGrant_written hGrant, ?_, ?_⟩
    · rw [hType]
      exact hAllowed.1
    · rw [hType]
      exact hAllowed.2
  · simp
  · simp

/-- A token that an entry becomes is confined. -/
theorem convertEntry_confined (hTable : table.Lawful) (hAny : isBlobWildcard entry = false)
    (h : convertEntry table nsid includeAud entry = some token) :
    normalizeToken table token.toList = some token ∧
      ConfinedToken nsid includeAud (ScopeSyntax.parse token.toList) := by
  obtain ⟨hKept, t, hCanonical, rfl⟩ := convertEntry_some h
  have hParse := parse_format (canonical_plain hTable hCanonical)
  refine ⟨?_, ?_⟩
  · rw [convertEntry, hKept, if_neg Bool.false_ne_true] at h
    exact normalizeToken_idem hTable h
  · rw [String.toList_ofList, hParse]
    cases entry with
    | repo collection action => exact confined_repo hCanonical
    | rpc lxm aud inheritAud => exact confined_rpc hKept hCanonical
    | blob accept => exact confined_blob hTable hAny hCanonical
    | account attr action =>
      obtain ⟨_, _, _, _, _, _, rfl⟩ := canonicalAccount_some.mp hCanonical
      constructor <;> simp [accountSyntax]
    | identity attr =>
      obtain ⟨_, _, _, _, rfl⟩ := canonicalIdentity_some.mp hCanonical
      constructor <;> simp
    | space spaceType authority skey collection action manage =>
      exact confined_space hKept hCanonical

theorem resolvePermissionSet_ok {env : LexiconAuthority Endpoint Record} {tokens : List String}
    (h : resolvePermissionSet table env nsid includeAud = .ok tokens) :
    ∃ main : PermissionSetDef, (∀ entry ∈ main.permissions, isBlobWildcard entry = false) ∧
      tokens = main.permissions.filterMap (convertEntry table nsid includeAud) := by
  rw [resolvePermissionSet, bind_ok] at h
  obtain ⟨_, _, h⟩ := h
  obtain ⟨_, _, h⟩ := bind_ok.mp h
  obtain ⟨_, _, h⟩ := bind_ok.mp h
  obtain ⟨main, _, h⟩ := bind_ok.mp h
  obtain ⟨_, _, h⟩ := bind_ok.mp h
  obtain ⟨_, hAny, h⟩ := bind_ok.mp h
  refine ⟨main, ?_, pure_ok.mp h⟩
  have hNone := check_ok.mp hAny
  rw [Bool.not_eq_true', List.any_eq_false] at hNone
  intro entry hEntry
  simpa using hNone entry hEntry

/-- What a canonical token permits, its parts do. -/
theorem syntaxAllows_of_allows (hTable : table.Lawful)
    (hCanonical : canonical table s = some t) {question : ScopeQuestion}
    (h : allows (String.ofList t.format) question = true) : syntaxAllows t question = true := by
  have hPlain := canonical_plain hTable hCanonical
  have hBlank : ∀ ch ∈ t.format, isWhitespace ch = false := fun ch hch =>
    format_not_whitespace hPlain hch
  rw [allows_token (format_ne_nil (scopePrefix_ne_empty hCanonical)) hBlank,
    tokenAllows_parts (canonical_not_static hTable hCanonical), parse_format hPlain] at h
  exact h

theorem matches_spaceType {grant : SpaceGrant} {req : SpaceRequest}
    (hType : grant.spaceType ≠ "*") (h : grant.matches req = true) :
    grant.spaceType = req.spaceType := by
  by_contra hOther
  have hFirst : (grant.spaceType != "*" && grant.spaceType != req.spaceType) = true := by
    simp [hType, hOther]
  rw [SpaceGrant.matches, hFirst] at h
  cases h

/-- The tokens of a permission set are canonical, and what they grant is confined: a space
type to the authority of the set, an audience to the one that the scope named or `*`. -/
theorem resolvePermissionSet_confined (hTable : table.Lawful)
    {env : LexiconAuthority Endpoint Record} {tokens : List String}
    (h : resolvePermissionSet table env nsid includeAud = .ok tokens) (hToken : token ∈ tokens) :
    normalizeToken table token.toList = some token ∧
      ConfinedToken nsid includeAud (ScopeSyntax.parse token.toList) ∧
      (∀ req, allows token (.space req) = true →
        underNamespaceAuthority nsid req.spaceType = true) ∧
      ∀ lxm aud, allows token (.rpc lxm aud) = true →
        (ScopeSyntax.parse token.toList).getMulti "aud" = ["*"] ∨
          ∃ a, includeAud = some a ∧ audDid a = audDid aud := by
  obtain ⟨main, hBlob, rfl⟩ := resolvePermissionSet_ok h
  obtain ⟨entry, hEntry, hConvert⟩ := List.mem_filterMap.mp hToken
  obtain ⟨hNormal, hConfined⟩ := convertEntry_confined hTable (hBlob entry hEntry) hConvert
  obtain ⟨_, t, hCanonical, rfl⟩ := convertEntry_some hConvert
  have hParse := parse_format (canonical_plain hTable hCanonical)
  refine ⟨hNormal, hConfined, ?_, ?_⟩
  all_goals rw [String.toList_ofList, hParse] at hConfined
  · intro req hAllows
    have hParts := syntaxAllows_of_allows hTable hCanonical hAllows
    rw [syntaxAllows, Bool.and_eq_true, beq_iff_eq] at hParts
    obtain ⟨grant, hGrant, hType, hUnder⟩ := hConfined.space hParts.1
    have hMatches : grant.matches req = true := by
      have hAnswer := hParts.2
      rw [syntaxAnswer, hGrant] at hAnswer
      exact hAnswer
    rwa [← matches_spaceType hType hMatches]
  · intro lxm aud hAllows
    have hParts := syntaxAllows_of_allows hTable hCanonical hAllows
    rw [syntaxAllows, Bool.and_eq_true, beq_iff_eq] at hParts
    obtain ⟨value, hValue, hFrom, _⟩ := hConfined.rpc hParts.1
    rw [String.toList_ofList, hParse, hValue]
    rcases hFrom with rfl | hInherited
    · exact Or.inl rfl
    · have hAnswer := hParts.2
      rw [syntaxAnswer, audMatches_single hValue, Bool.and_eq_true, Bool.or_eq_true] at hAnswer
      rcases hAnswer.2 with hStar | hSame
      · exact Or.inl (by rw [beq_iff_eq.mp hStar])
      · exact Or.inr ⟨value, hInherited, beq_iff_eq.mp hSame⟩

/-- An authority that serves one document. -/
def singleAuthority (permissions : List PermissionEntry) : LexiconAuthority Unit Unit where
  resolveDomain _ := .ok ()
  fetchLexiconSchema _ _ := .ok ()
  defs _ := some (.ok [("main", ⟨"permission-set", permissions⟩)])

theorem resolvePermissionSet_confined_space :
    underNamespaceAuthority "app.bsky.feed.authPost" "app.bsky.feed.threads" = true := by
  have hTokens : resolvePermissionSet .ascii
      (singleAuthority [.rpc ["app.bsky.feed.getFeed"] none true,
        .space "app.bsky.feed.threads" none none [] [] []])
      "app.bsky.feed.authPost" (some "did:web:api.bsky.app") =
        .ok ["rpc:app.bsky.feed.getFeed?aud=did:web:api.bsky.app",
          "space:app.bsky.feed.threads"] := by
    decide +kernel
  exact (resolvePermissionSet_confined CaseTable.ascii_lawful hTokens
    (List.mem_cons_of_mem _ List.mem_cons_self)).2.2.1
      ⟨"app.bsky.feed.threads", "did:web:a.b", "x", .read, "did:web:a.b", []⟩ (by decide +kernel)

/-- The repository and identity entries of a set are expanded wherever they point. -/
theorem resolvePermissionSet_other_authority :
    resolvePermissionSet .ascii
        (singleAuthority [.repo ["com.atmoboards.thread"] [], .identity "handle"])
        "app.bsky.authFull" none = .ok ["repo:com.atmoboards.thread", "identity:handle"] ∧
      underNamespaceAuthority "app.bsky.authFull" "com.atmoboards.thread" = false ∧
      allows "repo:com.atmoboards.thread" (.repo "com.atmoboards.thread" .create) = true ∧
      allows "identity:handle" (.identity "handle") = true := by
  decide +kernel

end Ezpds.Auth
