import Ezpds.Auth.AcceptAnswers

/-!
# Raw and canonical tokens before the permission checks

A token that the normalization accepts and its canonical form are checked in the same way,
as long as the token is spelled the way the checks read it.

* `syntaxAllows`: the checks over the parts of a token.
* `normalizeToken_sameAnswers`: when the two forms give the same answers.
-/

namespace Ezpds.Auth

open Library Repo

variable {table : CaseTable} {s t : ScopeSyntax} {token : List Char} {c : String}

/-! ## The parts of a token -/

/-- The resource that a question is about. -/
def ScopeQuestion.resource : ScopeQuestion → String
  | .repo _ _ => "repo"
  | .rpc _ _ => "rpc"
  | .blob _ => "blob"
  | .account _ _ => "account"
  | .identity _ => "identity"
  | .space _ => "space"

/-- The answer to a question about the resource of a token, from its parts. -/
def syntaxAnswer (s : ScopeSyntax) : ScopeQuestion → Bool
  | .repo collection action =>
    (granted s "collection").any (collectionMatches · collection) &&
      repoActionsMatch s.params action
  | .rpc lxm aud => (granted s "lxm").any (lxmMatches · lxm) && audMatches s.params aud
  | .blob mimeType => acceptAllows (granted s "accept") mimeType
  | .account attr action =>
    s.positional == some attr &&
      if (s.getMulti "action").isEmpty then action == "read"
      else (s.getMulti "action").contains action
  | .identity attr => s.positional.any fun pos => pos == "*" || pos == attr
  | .space req => (parseSpaceGrant s).any (·.matches req)

def syntaxAllows (s : ScopeSyntax) (question : ScopeQuestion) : Bool :=
  s.scopePrefix == question.resource && syntaxAnswer s question

theorem any_nonempty {l : List String} {p : String → Bool} : (!l.isEmpty && l.any p) = l.any p := by
  cases l with
  | nil => rfl
  | cons x l => simp

/-- A token that is no static scope is checked by its parts. -/
theorem tokenAllows_parts (h : String.ofList token ∉ STATIC_SCOPES) (question : ScopeQuestion) :
    tokenAllows token question = syntaxAllows (ScopeSyntax.parse token) question := by
  have hGeneric : (token == "transition:generic".toList) = false := by
    rw [beq_eq_false_iff_ne]
    intro hEq
    rw [hEq, String.ofList_toList] at h
    exact h (by decide)
  have hChat : (token == "transition:chat.bsky".toList) = false := by
    rw [beq_eq_false_iff_ne]
    intro hEq
    rw [hEq, String.ofList_toList] at h
    exact h (by decide)
  rw [syntaxAllows]
  generalize hParse : ScopeSyntax.parse token = s
  obtain ⟨scopePrefix, positional, params⟩ := s
  cases question with
  | repo collection action =>
    have hValues : (params.filter fun p => p.1 == "collection").map Prod.snd =
        valuesOf params "collection" := rfl
    rw [tokenAllows, hGeneric, repoTokenAllows, hParse, ScopeQuestion.resource]
    cases scopePrefix == "repo" with
    | false => simp
    | true =>
      cases positional <;>
        simp [syntaxAnswer, granted, ScopeSyntax.getMulti, hValues, any_nonempty]
  | rpc lxm aud =>
    rw [tokenAllows, hGeneric, rpcTokenAllows, hChat, hParse, ScopeQuestion.resource]
    cases hPrefix : scopePrefix == "rpc" with
    | false => simp [hPrefix]
    | true => cases positional <;> simp [hPrefix, syntaxAnswer, granted, any_nonempty]
  | blob mimeType =>
    rw [tokenAllows, hGeneric, blobTokenAllows, hParse, ScopeQuestion.resource]
    cases scopePrefix == "blob" with
    | false => simp
    | true => cases positional <;> simp [syntaxAnswer, granted, acceptAllows]
  | account attr action =>
    rw [tokenAllows, hGeneric, accountTokenAllowsAction, hParse, ScopeQuestion.resource]
    cases positional with
    | none => simp [syntaxAnswer]
    | some pos =>
      by_cases hPos : pos = attr
      · cases scopePrefix == "account" <;> simp [syntaxAnswer, hPos]
      · simp [syntaxAnswer, hPos]
  | identity attr =>
    rw [tokenAllows, identityTokenAllows, hParse, ScopeQuestion.resource]
    cases positional <;> simp [syntaxAnswer]
  | space req =>
    rw [tokenAllows, spaceTokenAllows, hParse, ScopeQuestion.resource]
    rfl

/-- Only the questions about the resource of a token tell it from its canonical form. -/
theorem syntaxAllows_same (hSame : t.scopePrefix = s.scopePrefix) :
    (∀ question, syntaxAllows s question = syntaxAllows t question) ↔
      ∀ question, question.resource = s.scopePrefix →
        syntaxAnswer s question = syntaxAnswer t question := by
  constructor
  · intro h question hResource
    have hAnswer := h question
    rw [syntaxAllows, syntaxAllows, hSame, ← hResource, beq_self_eq_true, Bool.true_and,
      Bool.true_and] at hAnswer
    exact hAnswer
  · intro h question
    rw [syntaxAllows, syntaxAllows, hSame]
    by_cases hResource : s.scopePrefix = question.resource
    · rw [h question hResource.symm]
    · have hOther : (s.scopePrefix == question.resource) = false :=
        beq_eq_false_iff_ne.mpr hResource
      rw [hOther, Bool.false_and, Bool.false_and]

/-! ## Each resource -/

section Resources

variable {name key : String} {values params : List String}

theorem any_collapse {x : String} :
    ((collapse values).any fun v => v == "*" || v == x) =
      values.any fun v => v == "*" || v == x := by
  rw [Bool.eq_iff_iff, List.any_eq_true, List.any_eq_true]
  by_cases hAny : "*" ∈ values
  · rw [collapse, if_pos (List.contains_iff_mem.mpr hAny)]
    constructor
    · intro _
      exact ⟨_, hAny, rfl⟩
    · intro _
      exact ⟨_, List.mem_singleton_self _, rfl⟩
  · rw [collapse, if_neg (by simpa using hAny)]
    simp only [mem_sortedSet]

/-- A spelled argument grants its values. -/
theorem granted_of_collect (h : collectPositionalMulti s name = some values) :
    granted s name = values :=
  (collectPositionalMulti_some.mp h).1

theorem audMatches_single {params : List (String × String)} {aud value : String}
    (h : valuesOf params "aud" = [value]) :
    audMatches params aud = (value == "*" || audDid value == audDid aud) := by
  have hFind : ((params.find? fun p => p.1 == "aud").map Prod.snd) = some value := by
    rw [← List.head?_filter, ← List.head?_map]
    exact congrArg List.head? h
  obtain ⟨p, hp, rfl⟩ := Option.map_eq_some_iff.mp hFind
  rw [audMatches, hp]

theorem getMulti_of_getSingle {value : String} (h : s.getSingle key = some (some value)) :
    s.getMulti key = [value] := by
  rw [ScopeSyntax.getSingle] at h
  split at h
  · cases h
  · rename_i v hValues
    cases h
    exact hValues
  · cases h

theorem collect_positional {pos value : String} (hPos : s.positional = some pos)
    (h : collectPositionalSingle s name = some value) : pos = value := by
  rw [collectPositionalSingle, hPos] at h
  dsimp only at h
  split at h
  · cases h
  · exact Option.some.inj h

/-- What an omitted or written list of actions permits. -/
theorem contains_picked {known chosen : List String} {x : String}
    (h : pick known known values = some chosen) (hx : x ∈ known) :
    (values.isEmpty || values.contains x) = chosen.contains x := by
  rcases pick_some h with ⟨rfl, rfl⟩ | ⟨hNonempty, _, rfl⟩
  · rw [List.contains_iff_mem.mpr hx]
    rfl
  · rw [List.isEmpty_eq_false_iff.mpr hNonempty, Bool.false_or, Bool.eq_iff_iff,
      List.contains_iff_mem, List.contains_iff_mem, List.mem_filter]
    exact ⟨fun hMem => ⟨hx, List.contains_iff_mem.mpr hMem⟩,
      fun hMem => List.contains_iff_mem.mp hMem.2⟩

theorem answer_repo (h : canonicalRepo s = some t) {collection : String} {action : RepoAction} :
    syntaxAnswer s (.repo collection action) = syntaxAnswer t (.repo collection action) := by
  obtain ⟨_, values, chosen, hCollect, hValid, hChosen, hSyntax⟩ := canonicalRepo_some.mp h
  have hWritten : t.getMulti "action" = if chosen = REPO_ACTIONS then [] else chosen := by
    rw [← hSyntax, ScopeSyntax.getMulti, repoSyntax, valuesOf_append,
      valuesOf_spell_of_ne (by decide), valuesOf_omitted, if_pos rfl, List.nil_append]
    simp only [length_picked hChosen]
  have hCollect' : collectPositionalMulti t "collection" = some (collapse values) := by
    rw [← hSyntax]
    apply collect_spell hValid.collapse.1
    rw [valuesOf_omitted, if_neg (by decide)]
  have hKnown : action.asStr ∈ REPO_ACTIONS := by
    cases action <;> decide
  have hActions := contains_picked hChosen hKnown
  have hActions' := contains_picked (pick_written hChosen) hKnown
  rw [← hWritten] at hActions'
  have hMatch : repoActionsMatch s.params action = chosen.contains action.asStr := hActions
  have hMatch' : repoActionsMatch t.params action = chosen.contains action.asStr := hActions'
  rw [syntaxAnswer, syntaxAnswer, granted_of_collect hCollect, granted_of_collect hCollect',
    hMatch, hMatch']
  exact congrArg (· && _) any_collapse.symm

theorem answer_rpc (h : canonicalRpc s = some t) {lxm aud : String} :
    syntaxAnswer s (.rpc lxm aud) = syntaxAnswer t (.rpc lxm aud) := by
  obtain ⟨_, values, value, hCollect, hValid, hAud, _, hSyntax⟩ := canonicalRpc_some.mp h
  have hSingle := getMulti_of_getSingle (requiredSingle_some.mp hAud).1
  have hWritten : valuesOf t.params "aud" = [value] := by
    rw [← hSyntax, rpcSyntax, valuesOf_append, valuesOf_spell_of_ne (by decide), valuesOf_single,
      if_pos rfl, List.nil_append]
  have hCollect' : collectPositionalMulti t "lxm" = some (collapse values) := by
    rw [← hSyntax]
    apply collect_spell hValid.collapse.1
    rw [valuesOf_single, if_neg (by decide)]
  rw [syntaxAnswer, syntaxAnswer, granted_of_collect hCollect, granted_of_collect hCollect',
    audMatches_single hSingle, audMatches_single hWritten]
  exact congrArg (· && _) any_collapse.symm

theorem answer_blob (hTable : table.Lawful) (h : canonicalBlob table s = some t) :
    (∀ mimeType, syntaxAnswer s (.blob mimeType) = syntaxAnswer t (.blob mimeType)) ↔
      AcceptKept table (granted s "accept") := by
  obtain ⟨_, values, hCollect, hValid, hSyntax⟩ := canonicalBlob_some.mp h
  have hCollect' : collectPositionalMulti t "accept" = some (collapseAccept table values) := by
    rw [← hSyntax]
    have hSpell := @collect_spell "accept" "blob" _ []
      (collapseAccept_ne_nil hTable hValid.2 hValid.1) rfl
    rwa [List.append_nil] at hSpell
  rw [← acceptAllows_iff hTable (granted_of_collect hCollect ▸ hValid.2)]
  simp only [syntaxAnswer, granted_of_collect hCollect, granted_of_collect hCollect']

theorem answer_account (h : canonicalAccount s = some t) :
    (∀ attr action, syntaxAnswer s (.account attr action) = syntaxAnswer t (.account attr action)) ↔
      s.positional ≠ none := by
  obtain ⟨_, value, chosen, hCollect, _, hChosen, hSyntax⟩ := canonicalAccount_some.mp h
  have hPositional : t.positional = some value := by
    rw [← hSyntax]
    rfl
  have hWritten : t.getMulti "action" = if chosen = ["read"] then [] else chosen := by
    rw [← hSyntax, ScopeSyntax.getMulti, accountSyntax, valuesOf_omitted, if_pos rfl]
  have hActions : ∀ {values : List String}, accountActions values = some chosen → ∀ action,
      (if values.isEmpty then action == "read" else values.contains action) =
        chosen.contains action := by
    intro values hValues action
    rcases accountActions_some hValues with ⟨rfl, rfl⟩ | ⟨hNonempty, _, rfl⟩
    · rw [Bool.eq_iff_iff]
      simp
    · rw [List.isEmpty_eq_false_iff.mpr hNonempty, if_neg Bool.false_ne_true, Bool.eq_iff_iff,
        List.contains_iff_mem, List.contains_iff_mem, mem_sortedSet]
  have hSame := hActions hChosen
  have hSame' := hActions (accountActions_written hChosen)
  rw [← hWritten] at hSame'
  constructor
  · intro hAnswer hNone
    obtain ⟨action, hAction⟩ : ∃ action, action ∈ chosen := by
      rcases accountActions_some hChosen with ⟨_, rfl⟩ | ⟨hNonempty, _, rfl⟩
      · exact ⟨_, List.mem_singleton_self _⟩
      · exact List.exists_mem_of_ne_nil _ (by rwa [ne_eq, sortedSet_eq_nil])
    have hDiffers := hAnswer value action
    rw [syntaxAnswer, syntaxAnswer, hSame', hNone, hPositional,
      List.contains_iff_mem.mpr hAction] at hDiffers
    simp at hDiffers
  · intro hSome attr action
    obtain ⟨pos, hPos⟩ := Option.ne_none_iff_exists'.mp hSome
    have hValue := collect_positional hPos hCollect
    rw [syntaxAnswer, syntaxAnswer, hSame, hSame', hPos, hPositional, hValue]

theorem answer_identity (h : canonicalIdentity s = some t) :
    (∀ attr, syntaxAnswer s (.identity attr) = syntaxAnswer t (.identity attr)) ↔
      s.positional ≠ none := by
  obtain ⟨_, value, hCollect, _, rfl⟩ := canonicalIdentity_some.mp h
  constructor
  · intro hAnswer hNone
    have hDiffers := hAnswer value
    rw [syntaxAnswer, syntaxAnswer, hNone] at hDiffers
    simp at hDiffers
  · intro hSome attr
    obtain ⟨pos, hPos⟩ := Option.ne_none_iff_exists'.mp hSome
    have hValue := collect_positional hPos hCollect
    rw [syntaxAnswer, syntaxAnswer, hPos, hValue]

theorem answer_space (h : canonicalSpace s = some t) {req : SpaceRequest} :
    syntaxAnswer s (.space req) = syntaxAnswer t (.space req) := by
  obtain ⟨grant, hGrant, rfl⟩ := Option.map_eq_some_iff.mp h
  rw [syntaxAnswer, syntaxAnswer, hGrant, parseSpaceGrant_written hGrant]

end Resources

/-! ## Any token -/

/-- The spelling that the checks read: the attribute of an account or an identity stands behind
the `:`, and the accept values that count are kept. -/
structure SpelledForChecks (table : CaseTable) (s : ScopeSyntax) : Prop where
  positional : s.scopePrefix = "account" ∨ s.scopePrefix = "identity" → s.positional ≠ none
  accept : s.scopePrefix = "blob" → AcceptKept table (granted s "accept")

theorem spelledForChecks_of_other (hAccount : s.scopePrefix ≠ "account")
    (hIdentity : s.scopePrefix ≠ "identity") (hBlob : s.scopePrefix ≠ "blob") :
    SpelledForChecks table s :=
  ⟨fun h => (h.elim hAccount hIdentity).elim, fun h => absurd h hBlob⟩

/-- When the parts of a token and of its canonical form are answered alike. -/
theorem answers_iff (hTable : table.Lawful) (h : canonical table s = some t) :
    (∀ question, question.resource = s.scopePrefix →
      syntaxAnswer s question = syntaxAnswer t question) ↔ SpelledForChecks table s := by
  rcases canonical_cases h with ⟨hPrefix, h⟩ | ⟨hPrefix, h⟩ | ⟨hPrefix, h⟩ | ⟨hPrefix, h⟩ |
    ⟨hPrefix, h⟩ | ⟨hPrefix, h⟩ | ⟨hPrefix, h⟩
  · refine iff_of_true ?_ (spelledForChecks_of_other ?_ ?_ ?_)
    · intro question hResource
      rw [hPrefix] at hResource
      cases question with
      | repo collection action => exact answer_repo h
      | _ => simp [ScopeQuestion.resource] at hResource
    all_goals rw [hPrefix]; decide
  · refine iff_of_true ?_ (spelledForChecks_of_other ?_ ?_ ?_)
    · intro question hResource
      rw [hPrefix] at hResource
      cases question with
      | rpc lxm aud => exact answer_rpc h
      | _ => simp [ScopeQuestion.resource] at hResource
    all_goals rw [hPrefix]; decide
  · constructor
    · intro hAnswer
      refine ⟨?_, fun _ => (answer_blob hTable h).mp fun mimeType => hAnswer _ hPrefix.symm⟩
      rw [hPrefix]
      intro hOther
      exact absurd hOther (by decide)
    · intro hSpelled question hResource
      rw [hPrefix] at hResource
      cases question with
      | blob mimeType => exact (answer_blob hTable h).mpr (hSpelled.accept hPrefix) mimeType
      | _ => simp [ScopeQuestion.resource] at hResource
  · constructor
    · intro hAnswer
      refine ⟨fun _ => (answer_account h).mp fun attr action => hAnswer _ hPrefix.symm, ?_⟩
      rw [hPrefix]
      intro hOther
      exact absurd hOther (by decide)
    · intro hSpelled question hResource
      rw [hPrefix] at hResource
      cases question with
      | account attr action =>
        exact (answer_account h).mpr (hSpelled.positional (Or.inl hPrefix)) attr action
      | _ => simp [ScopeQuestion.resource] at hResource
  · constructor
    · intro hAnswer
      refine ⟨fun _ => (answer_identity h).mp fun attr => hAnswer _ hPrefix.symm, ?_⟩
      rw [hPrefix]
      intro hOther
      exact absurd hOther (by decide)
    · intro hSpelled question hResource
      rw [hPrefix] at hResource
      cases question with
      | identity attr =>
        exact (answer_identity h).mpr (hSpelled.positional (Or.inr hPrefix)) attr
      | _ => simp [ScopeQuestion.resource] at hResource
  · refine iff_of_true ?_ (spelledForChecks_of_other ?_ ?_ ?_)
    · intro question hResource
      rw [hPrefix] at hResource
      cases question with
      | space req => exact answer_space h
      | _ => simp [ScopeQuestion.resource] at hResource
    all_goals rw [hPrefix]; decide
  · refine iff_of_true ?_ (spelledForChecks_of_other ?_ ?_ ?_)
    · intro question hResource
      rw [hPrefix] at hResource
      cases question <;> simp [ScopeQuestion.resource] at hResource
    all_goals rw [hPrefix]; decide

/-- A canonical token is checked by its parts. -/
theorem canonical_not_static (hTable : table.Lawful) (h : canonical table s = some t) :
    String.ofList t.format ∉ STATIC_SCOPES := by
  have hEach : ∀ w ∈ STATIC_SCOPES, (ScopeSyntax.parse w.toList).scopePrefix ∉ SCOPE_WORDS := by
    decide
  intro hStatic
  have hPrefix := hEach _ hStatic
  rw [String.toList_ofList, parse_format (canonical_plain hTable h)] at hPrefix
  exact hPrefix (canonical_words hTable h).1

/-- A token without whitespace and its canonical form give the same answers, exactly when the
token is spelled as the checks read it. -/
theorem normalizeToken_sameAnswers (hTable : table.Lawful)
    (h : normalizeToken table token = some c) (hBlank : ∀ ch ∈ token, isWhitespace ch = false) :
    (∀ question, allows (String.ofList token) question = allows c question) ↔
      SpelledForChecks table (ScopeSyntax.parse token) := by
  rcases normalizeToken_cases h with ⟨hStatic, rfl⟩ | ⟨hNotStatic, t, hCanonical, rfl⟩
  · rw [String.ofList_toList]
    refine iff_of_true (fun _ => rfl) ?_
    have hEach : ∀ w ∈ STATIC_SCOPES,
        (ScopeSyntax.parse w.toList).scopePrefix ∉ ["account", "identity", "blob"] := by
      decide
    have hOther := hEach c hStatic
    simp only [List.mem_cons, List.not_mem_nil, or_false, not_or] at hOther
    exact spelledForChecks_of_other hOther.1 hOther.2.1 hOther.2.2
  · have hNonempty : token ≠ [] := by
      rintro rfl
      have hPrefix := scopePrefix_ne_empty hCanonical
      rw [canonical_scopePrefix hCanonical] at hPrefix
      exact hPrefix rfl
    have hPlain := canonical_plain hTable hCanonical
    have hFormat : ∀ ch ∈ t.format, isWhitespace ch = false := fun ch hch =>
      format_not_whitespace hPlain hch
    rw [← answers_iff hTable hCanonical, ← syntaxAllows_same (canonical_scopePrefix hCanonical)]
    apply forall_congr'
    intro question
    rw [allows_token hNonempty hBlank,
      allows_token (format_ne_nil (scopePrefix_ne_empty hCanonical)) hFormat,
      tokenAllows_parts hNotStatic, tokenAllows_parts (canonical_not_static hTable hCanonical),
      parse_format hPlain]

theorem normalizeToken_sameAnswers_blob :
    allows (String.ofList "blob?accept=Image/*&accept=image/PNG".toList) (.blob "image/gif") =
      allows "blob:image/*" (.blob "image/gif") := by
  have hBlank : ("blob?accept=Image/*&accept=image/PNG".toList.all fun ch =>
      !isWhitespace ch) = true := by
    decide +kernel
  refine (@normalizeToken_sameAnswers .ascii _ _ CaseTable.ascii_lawful (by decide +kernel)
    fun ch hch => by simpa using List.all_eq_true.mp hBlank ch hch).mpr
      ⟨?_, fun _ => Or.inr ?_⟩ _
  · decide +kernel
  · decide +kernel

/-- An attribute that is given as a parameter is not seen by the check. -/
theorem normalizeToken_identity_param :
    normalizeToken .ascii "identity?attr=handle".toList = some "identity:handle" ∧
      allows "identity?attr=handle" (.identity "handle") = false ∧
      allows "identity:handle" (.identity "handle") = true := by
  decide +kernel

end Ezpds.Auth
