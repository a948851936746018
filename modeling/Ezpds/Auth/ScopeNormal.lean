import Ezpds.Auth.AcceptValues

/-!
# Canonical scope tokens

The spelling that a resource gives its arguments is read back as the same arguments, so a
canonical token is left as it is. What a token means does not depend on the order of its
parameters, nor on how often those are given that may be repeated.

* `canonical_idem`: a canonical token is its own canonical form.
* `canonical_congr`: the parameters may be reordered and repeated.
-/

namespace Ezpds.Auth

open Library Repo

variable {s t : ScopeSyntax} {table : CaseTable}

/-! ## What is accepted -/

/-- The arguments of a resource that may be repeated are all valid. -/
def ValidValues (valid : String → Bool) (values : List String) : Prop :=
  values ≠ [] ∧ ∀ v ∈ values, valid v = true

theorem canonicalRepo_some :
    canonicalRepo s = some t ↔
      keysAllowed s ["collection", "action"] = true ∧
        ∃ collection action, collectPositionalMulti s "collection" = some collection ∧
          ValidValues isNsidOrAny collection ∧
          pick REPO_ACTIONS REPO_ACTIONS (s.getMulti "action") = some action ∧
          repoSyntax (collapse collection) action = t := by
  simp [canonicalRepo, Option.bind_eq_some_iff, ValidValues, and_assoc]

theorem canonicalRpc_some :
    canonicalRpc s = some t ↔
      keysAllowed s ["lxm", "aud"] = true ∧
        ∃ lxm aud, collectPositionalMulti s "lxm" = some lxm ∧ ValidValues isNsidOrAny lxm ∧
          requiredSingle (fun v => v == "*" || isAtprotoAudience v) (s.getSingle "aud") =
            some aud ∧
          (aud = "*" → "*" ∉ collapse lxm) ∧ rpcSyntax (collapse lxm) aud = t := by
  simp [canonicalRpc, Option.bind_eq_some_iff, ValidValues, and_assoc, imp_iff_not_or]

theorem canonicalBlob_some :
    canonicalBlob table s = some t ↔
      keysAllowed s ["accept"] = true ∧
        ∃ accept, collectPositionalMulti s "accept" = some accept ∧ ValidValues isAccept accept ∧
          blobSyntax (collapseAccept table accept) = t := by
  simp [canonicalBlob, Option.bind_eq_some_iff, ValidValues, and_assoc]

theorem canonicalAccount_some :
    canonicalAccount s = some t ↔
      keysAllowed s ["attr", "action"] = true ∧
        ∃ attr action, collectPositionalSingle s "attr" = some attr ∧ attr ∈ ACCOUNT_ATTRS ∧
          accountActions (s.getMulti "action") = some action ∧ accountSyntax attr action = t := by
  simp [canonicalAccount, Option.bind_eq_some_iff]

theorem canonicalIdentity_some :
    canonicalIdentity s = some t ↔
      keysAllowed s ["attr"] = true ∧
        ∃ attr, collectPositionalSingle s "attr" = some attr ∧ attr ∈ IDENTITY_ATTRS ∧
          (⟨"identity", some attr, []⟩ : ScopeSyntax) = t := by
  simp [canonicalIdentity, Option.bind_eq_some_iff]

theorem canonicalInclude_some :
    canonicalInclude s = some t ↔
      keysAllowed s ["nsid", "aud"] = true ∧
        ∃ nsid aud, collectPositionalSingle s "nsid" = some nsid ∧ isNsid nsid = true ∧
          optionalSingle isAtprotoAudience (s.getSingle "aud") = some aud ∧
          (⟨"include", some nsid, aud.toList.map fun v => ("aud", v)⟩ : ScopeSyntax) = t := by
  simp [canonicalInclude, Option.bind_eq_some_iff]

theorem parseSpaceGrant_some {grant : SpaceGrant} :
    parseSpaceGrant s = some grant ↔
      keysAllowed s ["type", "authority", "skey", "collection", "action", "manage"] = true ∧
        ∃ spaceType authority skey action manage,
          collectPositionalSingle s "type" = some spaceType ∧ isNsidOrAny spaceType = true ∧
          optionalSingle isSpaceAuthorityParam (s.getSingle "authority") = some authority ∧
          optionalSingle isSpaceSkeyParam (s.getSingle "skey") = some skey ∧
          (∀ v ∈ s.getMulti "collection", isNsidOrAny v = true) ∧
          pick SPACE_ACTIONS SPACE_DEFAULT_ACTIONS (s.getMulti "action") = some action ∧
          pick SPACE_MANAGE_OPS [] (s.getMulti "manage") = some manage ∧
          (⟨spaceType, authority.getD "self", skey.getD "*", collapse (s.getMulti "collection"),
            action, manage⟩ : SpaceGrant) = grant := by
  simp [parseSpaceGrant, Option.bind_eq_some_iff]

/-! ## Arguments that are read back -/

section Arguments

variable {name key scopePrefix : String} {values chosen known default : List String}
  {params : List (String × String)} {v : String}

/-- The values of an argument that may be repeated, in either spelling. -/
def granted (s : ScopeSyntax) (name : String) : List String :=
  match s.positional with
  | some pos => [pos]
  | none => s.getMulti name

theorem collectPositionalMulti_some :
    collectPositionalMulti s name = some values ↔
      granted s name = values ∧ values ≠ [] ∧ (s.positional ≠ none → s.getMulti name = []) := by
  rw [collectPositionalMulti, granted]
  cases s.positional with
  | none =>
    by_cases h : s.getMulti name = []
    · simp only [h, List.isEmpty_nil]
      constructor
      · intro hEq
        cases hEq
      · intro hEq
        exact absurd hEq.1.symm hEq.2.1
    · simp only [List.isEmpty_iff, h]
      constructor
      · intro hEq
        cases hEq
        exact ⟨rfl, h, fun hNone => absurd rfl hNone⟩
      · intro hEq
        exact congrArg some hEq.1
  | some pos =>
    by_cases h : s.getMulti name = []
    · simp only [h, List.isEmpty_nil]
      constructor
      · intro hEq
        cases hEq
        exact ⟨rfl, List.cons_ne_nil _ _, fun _ => trivial⟩
      · intro hEq
        exact congrArg some hEq.1
    · simp [h]

/-- One value is the positional argument, and any other number of them are parameters. -/
theorem spell_cases (name : String) (values : List String) :
    (∃ v, values = [v] ∧ spell name values = (some v, [])) ∨
      spell name values = (none, values.map fun v => (name, v)) := by
  unfold spell
  split
  · rename_i v
    exact Or.inl ⟨v, rfl, rfl⟩
  · exact Or.inr rfl

theorem mem_spell {p : String × String} (h : p ∈ (spell name values).2) : p.1 = name := by
  rcases spell_cases name values with ⟨v, _, hSpell⟩ | hSpell
  · rw [hSpell] at h
    cases h
  · rw [hSpell] at h
    obtain ⟨v, _, rfl⟩ := List.mem_map.mp h
    rfl

theorem valuesOf_spell_of_ne (h : name ≠ key) : valuesOf (spell name values).2 key = [] := by
  rcases spell_cases name values with ⟨v, _, hSpell⟩ | hSpell
  · rw [hSpell]
    rfl
  · rw [hSpell, valuesOf_map, if_neg h]

/-- The spelling of an argument is read back, whatever other parameters follow. -/
theorem collect_spell (hValues : values ≠ []) (hParams : valuesOf params name = []) :
    collectPositionalMulti
      ⟨scopePrefix, (spell name values).1, (spell name values).2 ++ params⟩ name =
        some values := by
  rw [collectPositionalMulti_some, granted, ScopeSyntax.getMulti]
  rcases spell_cases name values with ⟨v, rfl, hSpell⟩ | hSpell
  · rw [hSpell]
    exact ⟨rfl, List.cons_ne_nil _ _, fun _ => hParams⟩
  · rw [hSpell]
    refine ⟨?_, hValues, fun hNone => absurd rfl hNone⟩
    simp [hParams]

theorem requiredSingle_some {valid : String → Bool} {o : Option (Option String)} :
    requiredSingle valid o = some v ↔ o = some (some v) ∧ valid v = true := by
  match o with
  | none => simp [requiredSingle]
  | some none => simp [requiredSingle]
  | some (some x) =>
    by_cases h : valid x = true
    · simp only [requiredSingle, h, if_true, Option.some.injEq]
      constructor
      · intro hEq
        exact ⟨hEq, hEq ▸ h⟩
      · intro hEq
        exact hEq.1
    · simp only [requiredSingle, h, Option.some.injEq]
      constructor
      · intro hEq
        cases hEq
      · intro hEq
        exact absurd (hEq.1 ▸ hEq.2) h

theorem optionalSingle_some {valid : String → Bool} {o : Option (Option String)}
    {chosen : Option String} :
    optionalSingle valid o = some chosen ↔
      (o = none ∧ chosen = none) ∨ ∃ v, o = some (some v) ∧ chosen = some v ∧ valid v = true := by
  match o with
  | none => cases chosen with
    | none => simp [optionalSingle]
    | some v => simp [optionalSingle]
  | some none => simp [optionalSingle]
  | some (some x) =>
    by_cases h : valid x = true
    · simp only [optionalSingle, h, if_true, Option.some.injEq]
      constructor
      · intro hEq
        exact Or.inr ⟨x, rfl, hEq.symm, h⟩
      · rintro (⟨hEq, _⟩ | ⟨v, hEq, hChosen, _⟩)
        · cases hEq
        · rw [hEq, hChosen]
    · simp only [optionalSingle, h]
      constructor
      · intro hEq
        cases hEq
      · rintro (⟨hEq, _⟩ | ⟨v, hEq, _, hValid⟩)
        · cases hEq
        · cases hEq
          exact absurd hValid h

theorem getSingle_of_nil (h : s.getMulti key = []) : s.getSingle key = none := by
  rw [ScopeSyntax.getSingle, h]

theorem getSingle_of_single (h : s.getMulti key = [v]) : s.getSingle key = some (some v) := by
  rw [ScopeSyntax.getSingle, h]

theorem mem_collapse (h : v ∈ collapse values) : v ∈ values := by
  rw [collapse] at h
  split at h
  · rename_i hAny
    rw [List.mem_singleton] at h
    rw [h]
    exact List.contains_iff_mem.mp hAny
  · exact mem_sortedSet.mp h

theorem collapse_ne_nil (h : values ≠ []) : collapse values ≠ [] := by
  rw [collapse]
  split
  · exact List.cons_ne_nil _ _
  · rwa [ne_eq, sortedSet_eq_nil]

theorem collapse_idem : collapse (collapse values) = collapse values := by
  by_cases h : values.contains "*" = true
  · have hAny : collapse values = ["*"] := if_pos h
    rw [hAny]
    rfl
  · have hSorted : collapse values = sortedSet values := if_neg h
    rw [hSorted, collapse, if_neg]
    · exact sortedSet_eq_self sortedSet_increasing
    · simpa using h

theorem isEmpty_congr {values' : List String} (h : ∀ v, v ∈ values ↔ v ∈ values') :
    values.isEmpty = values'.isEmpty := by
  rw [Bool.eq_iff_iff, List.isEmpty_iff, List.isEmpty_iff, List.eq_nil_iff_forall_not_mem,
    List.eq_nil_iff_forall_not_mem]
  simp only [h]

theorem all_congr {values' : List String} {p : String → Bool}
    (h : ∀ v, v ∈ values ↔ v ∈ values') : values.all p = values'.all p := by
  rw [Bool.eq_iff_iff, List.all_eq_true, List.all_eq_true]
  simp only [h]

theorem contains_congr {values' : List String} (h : ∀ v, v ∈ values ↔ v ∈ values') :
    values.contains = values'.contains := by
  funext v
  rw [Bool.eq_iff_iff, List.contains_iff_mem, List.contains_iff_mem, h]

theorem collapse_congr {values' : List String} (h : ∀ v, v ∈ values ↔ v ∈ values') :
    collapse values = collapse values' := by
  rw [collapse, collapse, contains_congr h, sortedSet_congr h]

theorem ValidValues.collapse {valid : String → Bool} (h : ValidValues valid values) :
    ValidValues valid (collapse values) :=
  ⟨collapse_ne_nil h.1, fun _ hv => h.2 _ (mem_collapse hv)⟩

theorem pick_some (h : pick known default values = some chosen) :
    (values = [] ∧ chosen = default) ∨
      (values ≠ [] ∧ (∀ v ∈ values, v ∈ known) ∧ chosen = known.filter values.contains) := by
  rw [pick] at h
  split at h
  · rename_i hEmpty
    cases h
    exact Or.inl ⟨List.isEmpty_iff.mp hEmpty, rfl⟩
  · rename_i hEmpty
    split at h
    · rename_i hKnown
      cases h
      refine Or.inr ⟨fun hNil => hEmpty (List.isEmpty_iff.mpr hNil), ?_, rfl⟩
      intro v hv
      exact List.contains_iff_mem.mp (List.all_eq_true.mp hKnown v hv)
    · cases h

/-- The values that are picked are read back, whether or not the default is left out. -/
theorem pick_written (h : pick known default values = some chosen) :
    pick known default (if chosen = default then [] else chosen) = some chosen := by
  by_cases hDefault : chosen = default
  · rw [if_pos hDefault, hDefault]
    rfl
  · rw [if_neg hDefault]
    rcases pick_some h with ⟨_, hEq⟩ | ⟨hNonempty, hKnown, rfl⟩
    · exact absurd hEq hDefault
    · obtain ⟨v, hv⟩ := List.exists_mem_of_ne_nil values hNonempty
      have hChosen : v ∈ known.filter values.contains :=
        List.mem_filter.mpr ⟨hKnown v hv, List.contains_iff_mem.mpr hv⟩
      rw [pick, if_neg, if_pos]
      · congr 1
        apply List.filter_congr
        intro k hk
        rw [Bool.eq_iff_iff, List.contains_iff_mem, List.mem_filter]
        exact and_iff_right hk
      · rw [List.all_eq_true]
        intro k hk
        exact List.contains_iff_mem.mpr (List.mem_filter.mp hk).1
      · rw [List.isEmpty_iff]
        exact List.ne_nil_of_mem hChosen

theorem pick_congr {values' : List String} (h : ∀ v, v ∈ values ↔ v ∈ values') :
    pick known default values = pick known default values' := by
  rw [pick, pick, isEmpty_congr h, all_congr h, contains_congr h]

/-- All of the repository actions are picked exactly when their number says so. -/
theorem length_picked (h : pick known known values = some chosen) :
    chosen.length = known.length ↔ chosen = known := by
  rcases pick_some h with ⟨_, rfl⟩ | ⟨_, _, rfl⟩
  · simp
  · constructor
    · intro hLength
      exact List.filter_sublist.eq_of_length hLength
    · intro hEq
      exact congrArg List.length hEq

theorem accountActions_some {actions : List String} (h : accountActions values = some actions) :
    (values = [] ∧ actions = ["read"]) ∨
      (values ≠ [] ∧ (∀ v ∈ values, v ∈ ACCOUNT_ACTIONS) ∧ actions = sortedSet values) := by
  rw [accountActions] at h
  split at h
  · rename_i hEmpty
    cases h
    exact Or.inl ⟨List.isEmpty_iff.mp hEmpty, rfl⟩
  · rename_i hEmpty
    split at h
    · rename_i hKnown
      cases h
      refine Or.inr ⟨fun hNil => hEmpty (List.isEmpty_iff.mpr hNil), ?_, rfl⟩
      intro v hv
      exact List.contains_iff_mem.mp (List.all_eq_true.mp hKnown v hv)
    · cases h

theorem accountActions_written {actions : List String}
    (h : accountActions values = some actions) :
    accountActions (if actions = ["read"] then [] else actions) = some actions := by
  by_cases hRead : actions = ["read"]
  · rw [if_pos hRead, hRead]
    rfl
  · rw [if_neg hRead]
    rcases accountActions_some h with ⟨_, hEq⟩ | ⟨hNonempty, hKnown, rfl⟩
    · exact absurd hEq hRead
    · rw [accountActions, if_neg, if_pos]
      · rw [sortedSet_eq_self sortedSet_increasing]
      · rw [List.all_eq_true]
        intro v hv
        exact List.contains_iff_mem.mpr (hKnown v (mem_sortedSet.mp hv))
      · rwa [List.isEmpty_iff, sortedSet_eq_nil]

theorem accountActions_congr {values' : List String} (h : ∀ v, v ∈ values ↔ v ∈ values') :
    accountActions values = accountActions values' := by
  rw [accountActions, accountActions, isEmpty_congr h, all_congr h, sortedSet_congr h]

end Arguments

/-! ## Canonical tokens are left as they are -/

section Idempotence

variable {name key : String} {values : List String}

theorem keysAllowed_iff {allowed : List String} :
    keysAllowed s allowed = true ↔ ∀ p ∈ s.params, p.1 ∈ allowed := by
  simp [keysAllowed]

theorem valuesOf_omitted {c : Prop} [Decidable c] :
    valuesOf (if c then [] else values.map fun v => (name, v)) key =
      if name = key then (if c then [] else values) else [] := by
  by_cases hc : c
  · simp [hc]
  · simp [hc]

theorem mem_omitted {c : Prop} [Decidable c] {p : String × String}
    (h : p ∈ if c then [] else values.map fun v => (name, v)) : p.1 = name := by
  split at h
  · cases h
  · obtain ⟨v, _, rfl⟩ := List.mem_map.mp h
    rfl

theorem canonicalRepo_idem (h : canonicalRepo s = some t) : canonicalRepo t = some t := by
  obtain ⟨_, collection, action, _, hValid, hAction, rfl⟩ := canonicalRepo_some.mp h
  have hCollapsed := hValid.collapse
  rw [canonicalRepo_some, keysAllowed_iff]
  refine ⟨?_, collapse collection, action, ?_, hCollapsed, ?_, ?_⟩
  · intro p hp
    rcases List.mem_append.mp hp with hp | hp
    · simp [mem_spell hp]
    · simp [mem_omitted hp]
  · apply collect_spell hCollapsed.1
    rw [valuesOf_omitted, if_neg (by decide)]
  · have hValues : (repoSyntax (collapse collection) action).getMulti "action" =
        if action = REPO_ACTIONS then [] else action := by
      rw [ScopeSyntax.getMulti, repoSyntax, valuesOf_append, valuesOf_spell_of_ne (by decide),
        valuesOf_omitted, if_pos rfl, List.nil_append]
      simp only [length_picked hAction]
    rw [hValues]
    exact pick_written hAction
  · rw [collapse_idem]

theorem canonicalRpc_idem (h : canonicalRpc s = some t) : canonicalRpc t = some t := by
  obtain ⟨_, lxm, aud, _, hValid, hAud, hForbidden, rfl⟩ := canonicalRpc_some.mp h
  have hCollapsed := hValid.collapse
  rw [canonicalRpc_some, keysAllowed_iff]
  refine ⟨?_, collapse lxm, aud, ?_, hCollapsed, ?_, ?_, ?_⟩
  · intro p hp
    rcases List.mem_append.mp hp with hp | hp
    · simp [mem_spell hp]
    · simp [List.mem_singleton.mp hp]
  · apply collect_spell hCollapsed.1
    rw [valuesOf_single, if_neg (by decide)]
  · have hValues : (rpcSyntax (collapse lxm) aud).getMulti "aud" = [aud] := by
      rw [ScopeSyntax.getMulti, rpcSyntax, valuesOf_append, valuesOf_spell_of_ne (by decide),
        valuesOf_single, if_pos rfl, List.nil_append]
    rw [getSingle_of_single hValues]
    exact requiredSingle_some.mpr ⟨rfl, (requiredSingle_some.mp hAud).2⟩
  · rw [collapse_idem]
    exact hForbidden
  · rw [collapse_idem]

theorem canonicalBlob_idem (hTable : table.Lawful) (h : canonicalBlob table s = some t) :
    canonicalBlob table t = some t := by
  obtain ⟨_, accept, _, hValid, rfl⟩ := canonicalBlob_some.mp h
  have hLeft := collapseAccept_ne_nil hTable hValid.2 hValid.1
  rw [canonicalBlob_some, keysAllowed_iff]
  refine ⟨?_, collapseAccept table accept, ?_, ⟨hLeft, ?_⟩, ?_⟩
  · intro p hp
    simp [mem_spell hp]
  · have hCollect := @collect_spell "accept" "blob" _ [] hLeft rfl
    rw [List.append_nil] at hCollect
    exact hCollect
  · exact fun v hv => isAccept_collapseAccept hTable hValid.2 hv
  · rw [collapseAccept_idem hTable hValid.2]

theorem canonicalAccount_idem (h : canonicalAccount s = some t) :
    canonicalAccount t = some t := by
  obtain ⟨_, attr, action, _, hAttr, hAction, rfl⟩ := canonicalAccount_some.mp h
  have hKeys : ∀ p ∈ (accountSyntax attr action).params, p.1 = "action" := fun p hp =>
    mem_omitted hp
  rw [canonicalAccount_some, keysAllowed_iff]
  refine ⟨?_, attr, action, ?_, hAttr, ?_, rfl⟩
  · intro p hp
    simp [hKeys p hp]
  · rw [collectPositionalSingle, accountSyntax]
    dsimp only
    rw [if_neg]
    intro hAny
    obtain ⟨p, hp, hName⟩ := List.any_eq_true.mp hAny
    rw [hKeys p hp] at hName
    cases hName
  · have hValues : (accountSyntax attr action).getMulti "action" =
        if action = ["read"] then [] else action := by
      rw [ScopeSyntax.getMulti, accountSyntax, valuesOf_omitted, if_pos rfl]
    rw [hValues]
    exact accountActions_written hAction

theorem canonicalIdentity_idem (h : canonicalIdentity s = some t) :
    canonicalIdentity t = some t := by
  obtain ⟨_, attr, _, hAttr, rfl⟩ := canonicalIdentity_some.mp h
  exact canonicalIdentity_some.mpr ⟨rfl, attr, rfl, hAttr, rfl⟩

theorem canonicalInclude_idem (h : canonicalInclude s = some t) :
    canonicalInclude t = some t := by
  obtain ⟨_, nsid, aud, _, hNsid, hAud, rfl⟩ := canonicalInclude_some.mp h
  rw [canonicalInclude_some]
  cases aud with
  | none => exact ⟨rfl, nsid, none, rfl, hNsid, rfl, rfl⟩
  | some v =>
    rcases optionalSingle_some.mp hAud with ⟨_, hNone⟩ | ⟨v', _, hEq, hValid⟩
    · cases hNone
    · cases hEq
      refine ⟨rfl, nsid, some v, rfl, hNsid, ?_, rfl⟩
      exact optionalSingle_some.mpr (Or.inr ⟨v, rfl, rfl, hValid⟩)

end Idempotence

/-! ## Space grants -/

section Space

variable {grant : SpaceGrant} {name key v : String}

theorem valuesOf_default {c : Prop} [Decidable c] :
    valuesOf (if c then [] else [(name, v)]) key =
      if name = key then (if c then [] else [v]) else [] := by
  by_cases hc : c
  · simp [hc]
  · simp [hc]

/-- A parameter that is left out where it has its default is read back. -/
theorem optionalSingle_written {valid : String → Bool} {o : Option (Option String)}
    {chosen : Option String} {default : String} (h : optionalSingle valid o = some chosen)
    {params : List (String × String)}
    (hParams : valuesOf params key =
      if chosen.getD default = default then [] else [chosen.getD default]) :
    ∃ chosen', optionalSingle valid (ScopeSyntax.getSingle ⟨"space", t.positional, params⟩ key) =
      some chosen' ∧ chosen'.getD default = chosen.getD default := by
  by_cases hDefault : chosen.getD default = default
  · rw [if_pos hDefault] at hParams
    have hMulti : ScopeSyntax.getMulti ⟨"space", t.positional, params⟩ key = [] := hParams
    refine ⟨none, ?_, hDefault.symm⟩
    rw [getSingle_of_nil hMulti]
    rfl
  · rw [if_neg hDefault] at hParams
    have hMulti : ScopeSyntax.getMulti ⟨"space", t.positional, params⟩ key =
      [chosen.getD default] := hParams
    refine ⟨chosen, ?_, rfl⟩
    rw [getSingle_of_single hMulti]
    rcases optionalSingle_some.mp h with ⟨_, rfl⟩ | ⟨v, _, rfl, hValid⟩
    · exact absurd rfl hDefault
    · exact optionalSingle_some.mpr (Or.inr ⟨v, rfl, rfl, hValid⟩)

theorem mem_grant_params {p : String × String} (h : p ∈ grant.params) :
    p.1 ∈ ["authority", "skey", "collection", "action", "manage"] := by
  simp only [SpaceGrant.params, List.mem_append] at h
  rcases h with (((h | h) | h) | h) | h
  · split at h
    · cases h
    · simp [List.mem_singleton.mp h]
  · split at h
    · cases h
    · simp [List.mem_singleton.mp h]
  · obtain ⟨c, _, rfl⟩ := List.mem_map.mp h
    simp
  · simp [mem_omitted h]
  · obtain ⟨m, _, rfl⟩ := List.mem_map.mp h
    simp

/-- A grant is read back from its parameters. -/
theorem parseSpaceGrant_written (h : parseSpaceGrant s = some grant) :
    parseSpaceGrant ⟨"space", some grant.spaceType, grant.params⟩ = some grant := by
  obtain ⟨_, spaceType, authority, skey, action, manage, _, hType, hAuthority, hSkey, hCollection,
    hAction, hManage, rfl⟩ := parseSpaceGrant_some.mp h
  have hValues : ∀ key, valuesOf (SpaceGrant.params ⟨spaceType, authority.getD "self",
      skey.getD "*", collapse (s.getMulti "collection"), action, manage⟩) key =
      (if "authority" = key then
        (if authority.getD "self" = "self" then [] else [authority.getD "self"]) else []) ++
      (if "skey" = key then (if skey.getD "*" = "*" then [] else [skey.getD "*"]) else []) ++
      (if "collection" = key then collapse (s.getMulti "collection") else []) ++
      (if "action" = key then (if action = SPACE_DEFAULT_ACTIONS then [] else action) else []) ++
      (if "manage" = key then manage else []) := by
    intro key
    simp only [SpaceGrant.params, valuesOf_append, valuesOf_default, valuesOf_omitted,
      valuesOf_map]
  obtain ⟨authority', hAuthority', hAuthorityEq⟩ :=
    @optionalSingle_written ⟨"space", some spaceType, []⟩ "authority" _ _ _ "self" hAuthority _
      ((hValues "authority").trans (by simp))
  obtain ⟨skey', hSkey', hSkeyEq⟩ :=
    @optionalSingle_written ⟨"space", some spaceType, []⟩ "skey" _ _ _ "*" hSkey _
      ((hValues "skey").trans (by simp))
  rw [parseSpaceGrant_some, keysAllowed_iff]
  refine ⟨?_, spaceType, authority', skey', action, manage, ?_, hType, hAuthority', hSkey', ?_, ?_,
    ?_, ?_⟩
  · intro p hp
    exact List.mem_cons_of_mem _ (mem_grant_params hp)
  · rw [collectPositionalSingle]
    dsimp only
    rw [if_neg]
    intro hAny
    obtain ⟨p, hp, hName⟩ := List.any_eq_true.mp hAny
    have hKey := mem_grant_params hp
    rw [beq_iff_eq.mp hName] at hKey
    revert hKey
    decide
  · intro v hv
    rw [ScopeSyntax.getMulti, hValues] at hv
    exact hCollection v (mem_collapse (by simpa using hv))
  · rw [ScopeSyntax.getMulti, hValues]
    have hWritten := pick_written hAction
    simpa using hWritten
  · rw [ScopeSyntax.getMulti, hValues]
    have hWritten := pick_written hManage
    by_cases hNil : manage = []
    · simpa [hNil] using hWritten
    · simpa [hNil] using hWritten
  · rw [hAuthorityEq, hSkeyEq, ScopeSyntax.getMulti, hValues]
    simp [collapse_idem]

theorem canonicalSpace_idem (h : canonicalSpace s = some t) : canonicalSpace t = some t := by
  obtain ⟨grant, hGrant, rfl⟩ := Option.map_eq_some_iff.mp h
  rw [canonicalSpace, parseSpaceGrant_written hGrant]
  rfl

end Space

/-! ## Any resource -/

theorem canonical_cases (h : canonical table s = some t) :
    (s.scopePrefix = "repo" ∧ canonicalRepo s = some t) ∨
      (s.scopePrefix = "rpc" ∧ canonicalRpc s = some t) ∨
      (s.scopePrefix = "blob" ∧ canonicalBlob table s = some t) ∨
      (s.scopePrefix = "account" ∧ canonicalAccount s = some t) ∨
      (s.scopePrefix = "identity" ∧ canonicalIdentity s = some t) ∨
      (s.scopePrefix = "space" ∧ canonicalSpace s = some t) ∨
      (s.scopePrefix = "include" ∧ canonicalInclude s = some t) := by
  unfold canonical at h
  split_ifs at h with hRepo hRpc hBlob hAccount hIdentity hSpace hInclude
  · exact Or.inl ⟨hRepo, h⟩
  · exact Or.inr (Or.inl ⟨hRpc, h⟩)
  · exact Or.inr (Or.inr (Or.inl ⟨hBlob, h⟩))
  · exact Or.inr (Or.inr (Or.inr (Or.inl ⟨hAccount, h⟩)))
  · exact Or.inr (Or.inr (Or.inr (Or.inr (Or.inl ⟨hIdentity, h⟩))))
  · exact Or.inr (Or.inr (Or.inr (Or.inr (Or.inr (Or.inl ⟨hSpace, h⟩)))))
  · exact Or.inr (Or.inr (Or.inr (Or.inr (Or.inr (Or.inr ⟨hInclude, h⟩)))))

theorem canonical_scopePrefix (h : canonical table s = some t) : t.scopePrefix = s.scopePrefix := by
  rcases canonical_cases h with ⟨hPrefix, h⟩ | ⟨hPrefix, h⟩ | ⟨hPrefix, h⟩ | ⟨hPrefix, h⟩ |
    ⟨hPrefix, h⟩ | ⟨hPrefix, h⟩ | ⟨hPrefix, h⟩
  · obtain ⟨_, _, _, _, _, _, rfl⟩ := canonicalRepo_some.mp h
    exact hPrefix.symm
  · obtain ⟨_, _, _, _, _, _, _, rfl⟩ := canonicalRpc_some.mp h
    exact hPrefix.symm
  · obtain ⟨_, _, _, _, rfl⟩ := canonicalBlob_some.mp h
    exact hPrefix.symm
  · obtain ⟨_, _, _, _, _, _, rfl⟩ := canonicalAccount_some.mp h
    exact hPrefix.symm
  · obtain ⟨_, _, _, _, rfl⟩ := canonicalIdentity_some.mp h
    exact hPrefix.symm
  · obtain ⟨_, _, rfl⟩ := Option.map_eq_some_iff.mp h
    exact hPrefix.symm
  · obtain ⟨_, _, _, _, _, _, rfl⟩ := canonicalInclude_some.mp h
    exact hPrefix.symm

/-- A canonical token is its own canonical form. -/
theorem canonical_idem (hTable : table.Lawful) (h : canonical table s = some t) :
    canonical table t = some t := by
  have hSame := canonical_scopePrefix h
  rcases canonical_cases h with ⟨hPrefix, h⟩ | ⟨hPrefix, h⟩ | ⟨hPrefix, h⟩ | ⟨hPrefix, h⟩ |
    ⟨hPrefix, h⟩ | ⟨hPrefix, h⟩ | ⟨hPrefix, h⟩
  · simp [canonical, hSame, hPrefix, canonicalRepo_idem h]
  · simp [canonical, hSame, hPrefix, canonicalRpc_idem h]
  · simp [canonical, hSame, hPrefix, canonicalBlob_idem hTable h]
  · simp [canonical, hSame, hPrefix, canonicalAccount_idem h]
  · simp [canonical, hSame, hPrefix, canonicalIdentity_idem h]
  · simp [canonical, hSame, hPrefix, canonicalSpace_idem h]
  · simp [canonical, hSame, hPrefix, canonicalInclude_idem h]

/-- The words of the grammar: its prefixes and its keys. -/
def SCOPE_WORDS : List String :=
  ["repo", "rpc", "blob", "account", "identity", "space", "include", "collection", "action", "lxm",
    "aud", "accept", "attr", "type", "authority", "skey", "manage", "nsid"]

theorem canonical_words (hTable : table.Lawful) (h : canonical table s = some t) :
    t.scopePrefix ∈ SCOPE_WORDS ∧ ∀ p ∈ t.params, p.1 ∈ SCOPE_WORDS := by
  have hSub : ∀ {allowed : List String}, keysAllowed t allowed = true →
      (∀ key ∈ allowed, key ∈ SCOPE_WORDS) → ∀ p ∈ t.params, p.1 ∈ SCOPE_WORDS := by
    intro allowed hAllowed hWords p hp
    exact hWords _ (keysAllowed_iff.mp hAllowed p hp)
  rcases canonical_cases (canonical_idem hTable h) with ⟨hPrefix, h⟩ | ⟨hPrefix, h⟩ |
    ⟨hPrefix, h⟩ | ⟨hPrefix, h⟩ | ⟨hPrefix, h⟩ | ⟨hPrefix, h⟩ | ⟨hPrefix, h⟩
  · exact ⟨hPrefix ▸ by decide, hSub (canonicalRepo_some.mp h).1 (by decide)⟩
  · exact ⟨hPrefix ▸ by decide, hSub (canonicalRpc_some.mp h).1 (by decide)⟩
  · exact ⟨hPrefix ▸ by decide, hSub (canonicalBlob_some.mp h).1 (by decide)⟩
  · exact ⟨hPrefix ▸ by decide, hSub (canonicalAccount_some.mp h).1 (by decide)⟩
  · exact ⟨hPrefix ▸ by decide, hSub (canonicalIdentity_some.mp h).1 (by decide)⟩
  · obtain ⟨_, hGrant, _⟩ := Option.map_eq_some_iff.mp h
    exact ⟨hPrefix ▸ by decide, hSub (parseSpaceGrant_some.mp hGrant).1 (by decide)⟩
  · exact ⟨hPrefix ▸ by decide, hSub (canonicalInclude_some.mp h).1 (by decide)⟩

theorem words_alpha {w : String} (h : w ∈ SCOPE_WORDS) : ∀ c ∈ w.toList, c.isAlpha = true := by
  have hAll : (SCOPE_WORDS.all fun w => w.toList.all Char.isAlpha) = true := by
    decide +kernel
  exact List.all_eq_true.mp (List.all_eq_true.mp hAll w h)

theorem canonical_plain (hTable : table.Lawful) (h : canonical table s = some t) : t.Plain := by
  obtain ⟨hPrefix, hKeys⟩ := canonical_words hTable h
  exact ⟨words_alpha hPrefix, fun p hp => words_alpha (hKeys p hp)⟩

/-! ## Order and repetition of the parameters -/

/-- The parameters that a token may have once. -/
def SINGLE_PARAMS : List String := ["aud", "attr", "type", "authority", "skey", "nsid"]

/-- The same parameters in another order, some of those that may be repeated more or less
often. -/
structure SameParams (s s' : ScopeSyntax) : Prop where
  scopePrefix : s'.scopePrefix = s.scopePrefix
  positional : s'.positional = s.positional
  mem : ∀ p, p ∈ s.params ↔ p ∈ s'.params
  single : ∀ key ∈ SINGLE_PARAMS, (s.getMulti key).length = (s'.getMulti key).length

section Congruence

variable {s' : ScopeSyntax} {name key : String} {values : List String} {grant : SpaceGrant}

theorem SameParams.mem_getMulti (h : SameParams s s') (v : String) :
    v ∈ s.getMulti key ↔ v ∈ s'.getMulti key := by
  rw [ScopeSyntax.getMulti, ScopeSyntax.getMulti, mem_valuesOf, mem_valuesOf, h.mem]

theorem SameParams.keysAllowed (h : SameParams s s') {allowed : List String} :
    keysAllowed s' allowed = keysAllowed s allowed := by
  rw [Bool.eq_iff_iff, keysAllowed_iff, keysAllowed_iff]
  simp only [h.mem]

theorem SameParams.getSingle (h : SameParams s s') (hKey : key ∈ SINGLE_PARAMS) :
    s'.getSingle key = s.getSingle key := by
  have hLength := h.single key hKey
  have hMem := @SameParams.mem_getMulti _ _ key h
  rw [ScopeSyntax.getSingle, ScopeSyntax.getSingle]
  match hs : s.getMulti key, hs' : s'.getMulti key with
  | [], [] => rfl
  | [v], [v'] =>
    rw [hs, hs'] at hMem
    have hEq : v = v' := by simpa using hMem v
    rw [hEq]
  | _ :: _ :: _, _ :: _ :: _ => rfl
  | [], _ :: _ => simp [hs, hs'] at hLength
  | _ :: _, [] => simp [hs, hs'] at hLength
  | [_], _ :: _ :: _ => simp [hs, hs'] at hLength
  | _ :: _ :: _, [_] => simp [hs, hs'] at hLength

theorem SameParams.collectMulti (h : SameParams s s')
    (hCollect : collectPositionalMulti s name = some values) :
    ∃ values', collectPositionalMulti s' name = some values' ∧
      ∀ v, v ∈ values ↔ v ∈ values' := by
  obtain ⟨hGranted, hNonempty, hNamed⟩ := collectPositionalMulti_some.mp hCollect
  have hMem : ∀ v, v ∈ granted s name ↔ v ∈ granted s' name := by
    intro v
    rw [granted, granted, h.positional]
    cases s.positional with
    | none => exact h.mem_getMulti v
    | some pos => rfl
  refine ⟨granted s' name, collectPositionalMulti_some.mpr ⟨rfl, ?_, ?_⟩, ?_⟩
  · obtain ⟨v, hv⟩ := List.exists_mem_of_ne_nil values hNonempty
    rw [← hGranted, hMem] at hv
    exact List.ne_nil_of_mem hv
  · intro hSome
    rw [h.positional] at hSome
    rw [List.eq_nil_iff_forall_not_mem]
    intro v hv
    rw [← h.mem_getMulti, hNamed hSome] at hv
    cases hv
  · rw [← hGranted]
    exact hMem

theorem SameParams.collectSingle (h : SameParams s s') (hName : name ∈ SINGLE_PARAMS) :
    collectPositionalSingle s' name = collectPositionalSingle s name := by
  have hAny : (s'.params.any fun p => p.1 == name) = s.params.any fun p => p.1 == name := by
    rw [Bool.eq_iff_iff, List.any_eq_true, List.any_eq_true]
    simp only [h.mem]
  rw [collectPositionalSingle, collectPositionalSingle, h.positional, hAny, h.getSingle hName]

theorem ValidValues.congr {valid : String → Bool} {values' : List String}
    (h : ValidValues valid values) (hMem : ∀ v, v ∈ values ↔ v ∈ values') :
    ValidValues valid values' := by
  refine ⟨?_, fun v hv => h.2 v ((hMem v).mpr hv)⟩
  obtain ⟨v, hv⟩ := List.exists_mem_of_ne_nil values h.1
  exact List.ne_nil_of_mem ((hMem v).mp hv)

theorem canonicalRepo_congr (h : SameParams s s') (hs : canonicalRepo s = some t) :
    canonicalRepo s' = some t := by
  obtain ⟨hKeys, collection, action, hCollect, hValid, hAction, rfl⟩ := canonicalRepo_some.mp hs
  obtain ⟨collection', hCollect', hMem⟩ := h.collectMulti hCollect
  refine canonicalRepo_some.mpr ⟨h.keysAllowed.trans hKeys, collection', action, hCollect',
    hValid.congr hMem, ?_, ?_⟩
  · rw [← pick_congr h.mem_getMulti]
    exact hAction
  · rw [collapse_congr hMem]

theorem canonicalRpc_congr (h : SameParams s s') (hs : canonicalRpc s = some t) :
    canonicalRpc s' = some t := by
  obtain ⟨hKeys, lxm, aud, hCollect, hValid, hAud, hForbidden, rfl⟩ := canonicalRpc_some.mp hs
  obtain ⟨lxm', hCollect', hMem⟩ := h.collectMulti hCollect
  refine canonicalRpc_some.mpr ⟨h.keysAllowed.trans hKeys, lxm', aud, hCollect',
    hValid.congr hMem, ?_, ?_, ?_⟩
  · rw [h.getSingle (by decide)]
    exact hAud
  · rw [← collapse_congr hMem]
    exact hForbidden
  · rw [collapse_congr hMem]

theorem canonicalBlob_congr (h : SameParams s s') (hs : canonicalBlob table s = some t) :
    canonicalBlob table s' = some t := by
  obtain ⟨hKeys, accept, hCollect, hValid, rfl⟩ := canonicalBlob_some.mp hs
  obtain ⟨accept', hCollect', hMem⟩ := h.collectMulti hCollect
  refine canonicalBlob_some.mpr ⟨h.keysAllowed.trans hKeys, accept', hCollect',
    hValid.congr hMem, ?_⟩
  rw [collapseAccept_congr hMem]

theorem canonicalAccount_congr (h : SameParams s s') (hs : canonicalAccount s = some t) :
    canonicalAccount s' = some t := by
  obtain ⟨hKeys, attr, action, hCollect, hAttr, hAction, rfl⟩ := canonicalAccount_some.mp hs
  refine canonicalAccount_some.mpr ⟨h.keysAllowed.trans hKeys, attr, action,
    (h.collectSingle (by decide)).trans hCollect, hAttr, ?_, rfl⟩
  rw [← accountActions_congr h.mem_getMulti]
  exact hAction

theorem canonicalIdentity_congr (h : SameParams s s') (hs : canonicalIdentity s = some t) :
    canonicalIdentity s' = some t := by
  obtain ⟨hKeys, attr, hCollect, hAttr, rfl⟩ := canonicalIdentity_some.mp hs
  exact canonicalIdentity_some.mpr ⟨h.keysAllowed.trans hKeys, attr,
    (h.collectSingle (by decide)).trans hCollect, hAttr, rfl⟩

theorem parseSpaceGrant_congr (h : SameParams s s') (hs : parseSpaceGrant s = some grant) :
    parseSpaceGrant s' = some grant := by
  obtain ⟨hKeys, spaceType, authority, skey, action, manage, hCollect, hType, hAuthority, hSkey,
    hCollection, hAction, hManage, rfl⟩ := parseSpaceGrant_some.mp hs
  refine parseSpaceGrant_some.mpr ⟨h.keysAllowed.trans hKeys, spaceType, authority, skey, action,
    manage, (h.collectSingle (by decide)).trans hCollect, hType, ?_, ?_, ?_, ?_, ?_, ?_⟩
  · rw [h.getSingle (by decide)]
    exact hAuthority
  · rw [h.getSingle (by decide)]
    exact hSkey
  · intro v hv
    exact hCollection v ((h.mem_getMulti v).mpr hv)
  · rw [← pick_congr h.mem_getMulti]
    exact hAction
  · rw [← pick_congr h.mem_getMulti]
    exact hManage
  · rw [collapse_congr h.mem_getMulti]

theorem canonicalInclude_congr (h : SameParams s s') (hs : canonicalInclude s = some t) :
    canonicalInclude s' = some t := by
  obtain ⟨hKeys, nsid, aud, hCollect, hNsid, hAud, rfl⟩ := canonicalInclude_some.mp hs
  refine canonicalInclude_some.mpr ⟨h.keysAllowed.trans hKeys, nsid, aud,
    (h.collectSingle (by decide)).trans hCollect, hNsid, ?_, rfl⟩
  rw [h.getSingle (by decide)]
  exact hAud

/-- What a token means does not depend on the order of its parameters, nor on the repetition
of those that may be repeated. -/
theorem canonical_congr (h : SameParams s s') (hs : canonical table s = some t) :
    canonical table s' = some t := by
  have hSame := h.scopePrefix
  rcases canonical_cases hs with ⟨hPrefix, hs⟩ | ⟨hPrefix, hs⟩ | ⟨hPrefix, hs⟩ | ⟨hPrefix, hs⟩ |
    ⟨hPrefix, hs⟩ | ⟨hPrefix, hs⟩ | ⟨hPrefix, hs⟩
  · simp [canonical, hSame, hPrefix, canonicalRepo_congr h hs]
  · simp [canonical, hSame, hPrefix, canonicalRpc_congr h hs]
  · simp [canonical, hSame, hPrefix, canonicalBlob_congr h hs]
  · simp [canonical, hSame, hPrefix, canonicalAccount_congr h hs]
  · simp [canonical, hSame, hPrefix, canonicalIdentity_congr h hs]
  · obtain ⟨grant, hGrant, rfl⟩ := Option.map_eq_some_iff.mp hs
    simp [canonical, hSame, hPrefix, canonicalSpace, parseSpaceGrant_congr h hGrant]
  · simp [canonical, hSame, hPrefix, canonicalInclude_congr h hs]

end Congruence

end Ezpds.Auth
