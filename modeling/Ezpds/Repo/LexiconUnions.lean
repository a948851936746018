import Ezpds.Repo.LexiconTermination

/-!
# Unions

A reference of a union is local (`#x`), the NSID of a document, or the NSID with a fragment,
and the `$type` of a value names a definition by NSID and fragment, or by the NSID alone
when the definition is `main`. `validate_union` compares `$type` with a canonical form of
the references that always has a fragment.

So the two spellings of a main definition are exchanged: a value that names it is taken for
one of unknown type, and one that spells `#main` out is validated against it. Every other
value is decided as its name says (`union_meets_names_iff`).
-/

namespace Ezpds.Repo.Lexicon

open Library

/-! ## References and names -/

/-- The document and the definition that a reference in the document `id` is to. -/
def refTarget (id reference : String) : String × String :=
  match splitOnce '#' reference.toList with
  | none => (reference, "main")
  | some ([], fragment) => (id, String.ofList fragment)
  | some (nsid, fragment) => (String.ofList nsid, String.ofList fragment)

/-- The `$type` of the values of a definition. -/
def typeName (target : String × String) : String :=
  if target.2 = "main" then target.1 else target.1 ++ "#" ++ target.2

theorem canonicalRef_eq (id reference : String) :
    canonicalRef id reference =
      (refTarget id reference).1 ++ "#" ++ (refTarget id reference).2 := by
  unfold canonicalRef refTarget
  cases hSplit : splitOnce '#' reference.toList with
  | none =>
    have hNoHash := splitOnce_none hSplit
    have hStrip : stripPrefix "#" reference = none := by
      cases hStrip : stripPrefix "#" reference with
      | none => rfl
      | some rest =>
        apply absurd _ hNoHash
        rw [stripPrefix_some.mp hStrip, String.toList_append]
        exact List.mem_append_left _ (by decide)
    have hContains : reference.toList.contains '#' = false := by simpa using hNoHash
    rw [hStrip, hContains]
    show reference ++ "#main" = reference ++ "#" ++ "main"
    rw [String.append_assoc]
    rfl
  | some parts =>
    obtain ⟨nsid, fragment⟩ := parts
    obtain ⟨hText, hNoHash⟩ := splitOnce_some hSplit
    cases nsid with
    | nil =>
      have hStrip : stripPrefix "#" reference = some (String.ofList fragment) := by
        rw [stripPrefix_some, ← String.toList_inj, hText, String.toList_append,
          @String.toList_ofList fragment]
        rfl
      rw [hStrip]
    | cons c nsid =>
      have hStrip : stripPrefix "#" reference = none := by
        cases hStrip : stripPrefix "#" reference with
        | none => rfl
        | some rest =>
          have hList := congrArg String.toList (stripPrefix_some.mp hStrip)
          rw [hText, String.toList_append] at hList
          have hHead : c = '#' := (List.cons.inj hList).1
          exact absurd (hHead ▸ List.mem_cons_self) hNoHash
      have hContains : reference.toList.contains '#' = true := by
        rw [hText, List.contains_eq_mem]
        simp
      rw [hStrip, hContains]
      show reference = String.ofList (c :: nsid) ++ "#" ++ String.ofList fragment
      rw [← String.toList_inj, hText, String.toList_append, String.toList_append,
        @String.toList_ofList (c :: nsid), @String.toList_ofList fragment, List.append_assoc]
      rfl

theorem refTarget_noHash {id : String} (h : '#' ∉ id.toList) (reference : String) :
    '#' ∉ (refTarget id reference).1.toList := by
  unfold refTarget
  cases hSplit : splitOnce '#' reference.toList with
  | none => exact splitOnce_none hSplit
  | some parts =>
    obtain ⟨nsid, fragment⟩ := parts
    have hNoHash := (splitOnce_some hSplit).2
    cases nsid with
    | nil => exact h
    | cons c nsid =>
      show '#' ∉ (String.ofList (c :: nsid)).toList
      rw [String.toList_ofList]
      exact hNoHash

theorem splitRef_append {nsid fragment : String} (h : '#' ∉ nsid.toList) :
    splitRef (nsid ++ "#" ++ fragment) = (nsid, fragment) := by
  have hText : (nsid ++ "#" ++ fragment).toList = nsid.toList ++ '#' :: fragment.toList := by
    rw [String.toList_append, String.toList_append, List.append_assoc]
    rfl
  rw [splitRef, hText, splitOnce_append h]
  show (String.ofList nsid.toList, String.ofList fragment.toList) = _
  rw [String.ofList_toList, String.ofList_toList]

theorem splitRef_canonicalRef {id : String} (h : '#' ∉ id.toList) (reference : String) :
    splitRef (canonicalRef id reference) = refTarget id reference := by
  rw [canonicalRef_eq, splitRef_append (refTarget_noHash h reference)]

/-- The references with one canonical form are to one definition. -/
theorem refTarget_eq_of_canonicalRef {id reference reference' : String} (h : '#' ∉ id.toList)
    (hSame : canonicalRef id reference = canonicalRef id reference') :
    refTarget id reference = refTarget id reference' := by
  rw [← splitRef_canonicalRef h, ← splitRef_canonicalRef h, hSame]

theorem resolveRef_ok_iff {doc : Node} {id reference path : String} {definition : Json}
    (h : '#' ∉ id.toList) :
    resolveRef doc id reference path = .ok definition ↔
      (refTarget id reference).1 = id ∧
        (definitions doc).bind (fun defs => defs.lookup (refTarget id reference).2) =
          some definition := by
  unfold resolveRef
  rw [splitRef_canonicalRef h]
  dsimp only
  split
  · rename_i hOther
    constructor
    · intro hResolve
      cases hResolve
    · rintro ⟨hSame, _⟩
      exact absurd hSame hOther
  · rename_i hSame
    rw [okOr_ok]
    exact ⟨fun hFound => ⟨not_not.mp hSame, hFound⟩, fun hFound => hFound.2⟩

/-! ## Verdicts -/

section Verdicts

variable (crates : Crates) (doc : Node) (id : String)

/-- The value satisfies the schema: the verdict from any fuel that covers the budget. -/
def Accepts (call : SchemaCall) : Prop :=
  ∀ fuel, budget call < fuel → validateSchema crates doc id fuel call = some (.ok ())

def Rejects (call : SchemaCall) : Prop :=
  ∃ e, ∀ fuel, budget call < fuel → validateSchema crates doc id fuel call = some (.error e)

variable {crates doc id} {call : SchemaCall}

theorem accepts_iff_run (h : validateDocument (.object doc) = .ok ()) {fuel : Nat}
    (hFuel : budget call < fuel) :
    Accepts crates doc id call ↔ validateSchema crates doc id fuel call = some (.ok ()) := by
  obtain ⟨verdict, hVerdict⟩ := validateSchema_returns crates id h call
  constructor
  · intro hAccepts
    exact hAccepts fuel hFuel
  · intro hRun fuel' hFuel'
    rw [hVerdict fuel' hFuel', ← hVerdict fuel hFuel, hRun]

/-- Over an accepted document a value that is not accepted is rejected. -/
theorem rejects_iff (h : validateDocument (.object doc) = .ok ()) :
    Rejects crates doc id call ↔ ¬ Accepts crates doc id call := by
  obtain ⟨verdict, hVerdict⟩ := validateSchema_returns crates id h call
  have hFuel := Nat.lt_succ_self (budget call)
  rw [accepts_iff_run h hFuel, hVerdict _ hFuel]
  constructor
  · rintro ⟨e, hRejects⟩
    rw [← hVerdict _ hFuel, hRejects _ hFuel]
    exact nofun
  · intro hNot
    cases verdict with
    | ok _ => exact absurd rfl hNot
    | error e => exact ⟨e, hVerdict⟩

end Verdicts

/-! ## The verdict of a union -/

/-- A union schema, a value with a `$type`, and an accepted document around them. -/
structure UnionCall (doc : Node) (id : String) (node : Node) (refs : List Json) (value : Json)
    (type : String) : Prop where
  document : validateDocument (.object doc) = .ok ()
  name : (doc.lookup "id").bind Json.asStr = some id
  union : (node.lookup "type").bind Json.asStr = some "union"
  members : (node.lookup "refs").bind Json.asArray = some refs
  tagged : (value.get "$type").bind Json.asStr = some type

def Closed (node : Node) : Prop :=
  (node.lookup "closed").bind Json.asBool = some true

section Union

variable {crates : Crates} {doc node : Node} {id path type reference : String}
  {refs : List Json} {value : Json}

/-- The NSID of an accepted document has no fragment in it. -/
theorem UnionCall.noHash (h : UnionCall doc id node refs value type) : '#' ∉ id.toList := by
  have hId := (validateDocument_ok h.document).1
  obtain ⟨t, hLookup, hStr⟩ := Option.bind_eq_some_iff.mp h.name
  cases t with
  | string s =>
    cases hStr
    unfold documentId at hId
    rw [hLookup] at hId
    have hNsid : validateCollection id = .ok () := by
      obtain ⟨_, hOk⟩ := exists_ok_of_isOk (check_ok.mp hId)
      exact hOk
    intro hMem
    exact absurd (validateCollection_ok hNsid '#' hMem (by decide)) (by decide)
  | _ => cases hStr

/-- The union's reference whose canonical form is the `$type`. -/
def matched (id type : String) (refs : List Json) : Option String :=
  (refs.filterMap Json.asStr).find? fun reference => canonicalRef id reference == type

theorem UnionCall.run (h : UnionCall doc id node refs value type) (fuel : Nat) :
    validateSchema crates doc id (fuel + 1) ⟨.object node, path, value⟩ =
      match matched id type refs with
      | some reference =>
        validateRef (validateSchema crates doc id fuel) doc id reference path value
      | none =>
        if (node.lookup "closed").bind Json.asBool = some true then
          some (.error ⟨path, "`$type` is outside the closed union"⟩)
        else some (.ok ()) := by
  show schemaStep crates doc id (validateSchema crates doc id fuel) ⟨.object node, path, value⟩ = _
  unfold schemaStep
  dsimp only [Json.asObject]
  rw [h.union]
  show validateUnion _ doc id node path value = _
  unfold validateUnion
  rw [h.tagged, h.members]
  rfl

theorem UnionCall.budget_eq (h : UnionCall doc id node refs value type) :
    budget ⟨.object node, path, value⟩ = 2 * value.depth + 1 := by
  rw [budget, refHops, schemaType_object h.union]
  rfl

/-- Without a matching reference the union is open to the value or closed to it. -/
theorem UnionCall.accepts_unmatched (h : UnionCall doc id node refs value type)
    (hNone : matched id type refs = none) :
    Accepts crates doc id ⟨.object node, path, value⟩ ↔ ¬ Closed node := by
  have hFuel : budget ⟨.object node, path, value⟩ < 2 * value.depth + 1 + 1 := by
    rw [h.budget_eq]
    omega
  rw [accepts_iff_run h.document hFuel, h.run, hNone, Closed]
  dsimp only
  split
  · rename_i hClosed
    exact ⟨nofun, fun hNot => absurd hClosed hNot⟩
  · rename_i hOpen
    exact ⟨fun _ => hOpen, fun _ => rfl⟩

/-- With one, the verdict is that of the definition it leads to. -/
theorem UnionCall.accepts_matched (h : UnionCall doc id node refs value type)
    (hSome : matched id type refs = some reference) :
    Accepts crates doc id ⟨.object node, path, value⟩ ↔
      ∃ definition, resolveRef doc id reference path = .ok definition ∧
        Accepts crates doc id ⟨definition, path, value⟩ := by
  have hFuel : budget ⟨.object node, path, value⟩ < 2 * value.depth + 1 + 1 := by
    rw [h.budget_eq]
    omega
  rw [accepts_iff_run h.document hFuel, h.run, hSome]
  dsimp only
  unfold validateRef
  cases hResolve : resolveRef doc id reference path with
  | error e =>
    constructor
    · intro hRun
      cases hRun
    · rintro ⟨_, hOk, _⟩
      cases hOk
  | ok definition =>
    obtain ⟨defs, name, hDefs, hMem⟩ := resolveRef_mem hResolve
    have hDefinition : budget ⟨definition, path, value⟩ < 2 * value.depth + 1 := by
      rw [budget, refHops_definition h.document hDefs hMem]
      show 2 * value.depth + 0 < _
      omega
    constructor
    · intro hRun
      exact ⟨definition, rfl, (accepts_iff_run h.document hDefinition).mpr hRun⟩
    · rintro ⟨definition', hOk, hAccepts⟩
      cases hOk
      exact hAccepts _ hDefinition

theorem mem_of_matched (h : matched id type refs = some reference) :
    reference ∈ refs.filterMap Json.asStr ∧ canonicalRef id reference = type :=
  ⟨List.mem_of_find?_eq_some h, by simpa using List.find?_some h⟩

/-- A reference whose canonical form is the `$type` is matched, or another to the same
definition. -/
theorem matched_of_canonicalRef (hMem : reference ∈ refs.filterMap Json.asStr)
    (hType : canonicalRef id reference = type) :
    ∃ reference', matched id type refs = some reference' ∧
      canonicalRef id reference' = canonicalRef id reference := by
  cases hMatched : matched id type refs with
  | none =>
    have hNot := List.find?_eq_none.mp hMatched reference hMem
    rw [hType] at hNot
    exact absurd (beq_self_eq_true type) hNot
  | some reference' => exact ⟨reference', rfl, (mem_of_matched hMatched).2.trans hType.symm⟩

theorem resolveRef_congr {reference' : String} {definition : Json} (h : '#' ∉ id.toList)
    (hSame : canonicalRef id reference' = canonicalRef id reference)
    (hResolve : resolveRef doc id reference path = .ok definition) :
    resolveRef doc id reference' path = .ok definition := by
  rw [resolveRef_ok_iff h, refTarget_eq_of_canonicalRef h hSame]
  exact (resolveRef_ok_iff h).mp hResolve

/-- Apart from main definitions the canonical form of a reference is the name. -/
theorem typeName_eq_canonicalRef (hMain : (refTarget id reference).2 ≠ "main") :
    typeName (refTarget id reference) = canonicalRef id reference := by
  rw [typeName, if_neg hMain, canonicalRef_eq]

theorem typeName_main (hMain : (refTarget id reference).2 = "main") :
    typeName (refTarget id reference) = (refTarget id reference).1 := by
  rw [typeName, if_pos hMain]

theorem hash_mem_canonicalRef (id reference : String) :
    '#' ∈ (canonicalRef id reference).toList := by
  rw [canonicalRef_eq, String.toList_append, String.toList_append]
  exact List.mem_append_left _ (List.mem_append_right _ (by decide))

/-- The name of a main definition is the canonical form of no reference. -/
theorem matched_none_of_main (h : '#' ∉ id.toList) (hMain : (refTarget id reference).2 = "main")
    (hName : typeName (refTarget id reference) = type) : matched id type refs = none := by
  cases hMatched : matched id type refs with
  | none => rfl
  | some reference' =>
    have hHash := hash_mem_canonicalRef id reference'
    rw [(mem_of_matched hMatched).2, ← hName, typeName_main hMain] at hHash
    exact absurd hHash (refTarget_noHash h reference)

/-- The canonical form of a reference to a main definition is no name. -/
theorem typeName_ne_of_main {reference' : String} (h : '#' ∉ id.toList)
    (hMain : (refTarget id reference).2 = "main") :
    typeName (refTarget id reference') ≠ canonicalRef id reference := by
  intro hName
  by_cases hMain' : (refTarget id reference').2 = "main"
  · have hHash := hash_mem_canonicalRef id reference
    rw [← hName, typeName_main hMain'] at hHash
    exact refTarget_noHash h reference' hHash
  · rw [typeName_eq_canonicalRef hMain'] at hName
    rw [refTarget_eq_of_canonicalRef h hName] at hMain'
    exact hMain' hMain

/-- What the verdicts of a union are to be, by the names of its definitions. -/
structure MeetsNames (crates : Crates) (doc : Node) (id : String) (node : Node)
    (refs : List Json) (path : String) (value : Json) (type : String) : Prop where
  named : ∀ reference ∈ refs.filterMap Json.asStr, ∀ definition,
    typeName (refTarget id reference) = type →
    resolveRef doc id reference path = .ok definition →
    (Accepts crates doc id ⟨.object node, path, value⟩ ↔
      Accepts crates doc id ⟨definition, path, value⟩)
  closed : Closed node →
    (∀ reference ∈ refs.filterMap Json.asStr, ∀ definition,
      resolveRef doc id reference path = .ok definition →
      typeName (refTarget id reference) ≠ type) →
    Rejects crates doc id ⟨.object node, path, value⟩
  unknown : ¬ Closed node →
    (∀ reference ∈ refs.filterMap Json.asStr, typeName (refTarget id reference) ≠ type) →
    Accepts crates doc id ⟨.object node, path, value⟩

/-- Where the `$type` is a spelling of a main definition among the references, the value
happens to get the verdict of the other spelling. -/
structure MainAgrees (crates : Crates) (doc : Node) (id : String) (node : Node)
    (refs : List Json) (path : String) (value : Json) (type : String) : Prop where
  bare : ∀ reference ∈ refs.filterMap Json.asStr, ∀ definition,
    refTarget id reference = (type, "main") →
    resolveRef doc id reference path = .ok definition →
    (Accepts crates doc id ⟨definition, path, value⟩ ↔ ¬ Closed node)
  fragment : ∀ reference ∈ refs.filterMap Json.asStr,
    (refTarget id reference).2 = "main" → canonicalRef id reference = type →
    ((∃ definition, resolveRef doc id reference path = .ok definition ∧
      Accepts crates doc id ⟨definition, path, value⟩) ↔ ¬ Closed node)

theorem mainAgrees_of_meetsNames (h : UnionCall doc id node refs value type)
    (hMeets : MeetsNames crates doc id node refs path value type) :
    MainAgrees crates doc id node refs path value type where
  bare := by
    intro reference hMem definition hTarget hResolve
    have hMain : (refTarget id reference).2 = "main" := by rw [hTarget]
    have hName : typeName (refTarget id reference) = type := by
      rw [typeName_main hMain, hTarget]
    have hNone : matched id type refs = none := matched_none_of_main h.noHash hMain hName
    rw [← hMeets.named reference hMem definition hName hResolve]
    exact h.accepts_unmatched hNone
  fragment := by
    intro reference hMem hMain hType
    obtain ⟨reference', hMatched, hSame⟩ := matched_of_canonicalRef hMem hType
    have hUnnamed : ∀ other ∈ refs.filterMap Json.asStr, typeName (refTarget id other) ≠ type := by
      intro other _
      rw [← hType]
      exact typeName_ne_of_main h.noHash hMain
    have hVerdict : (∃ definition, resolveRef doc id reference path = .ok definition ∧
        Accepts crates doc id ⟨definition, path, value⟩) ↔
        Accepts crates doc id ⟨.object node, path, value⟩ := by
      rw [h.accepts_matched hMatched]
      constructor
      · rintro ⟨definition, hResolve, hAccepts⟩
        exact ⟨definition, resolveRef_congr h.noHash hSame hResolve, hAccepts⟩
      · rintro ⟨definition, hResolve, hAccepts⟩
        exact ⟨definition, resolveRef_congr h.noHash hSame.symm hResolve, hAccepts⟩
    rw [hVerdict]
    constructor
    · intro hAccepts hClosed
      have hRejects := hMeets.closed hClosed fun other hOther _ _ => hUnnamed other hOther
      exact (rejects_iff h.document).mp hRejects hAccepts
    · intro hOpen
      exact hMeets.unknown hOpen hUnnamed

theorem meetsNames_of_mainAgrees (h : UnionCall doc id node refs value type)
    (hAgrees : MainAgrees crates doc id node refs path value type) :
    MeetsNames crates doc id node refs path value type where
  named := by
    intro reference hMem definition hName hResolve
    by_cases hMain : (refTarget id reference).2 = "main"
    · have hTarget : refTarget id reference = (type, "main") := by
        rw [← hName, typeName_main hMain, ← hMain]
      rw [h.accepts_unmatched (matched_none_of_main h.noHash hMain hName)]
      exact (hAgrees.bare reference hMem definition hTarget hResolve).symm
    · have hType : canonicalRef id reference = type := by
        rw [← typeName_eq_canonicalRef hMain, hName]
      obtain ⟨reference', hMatched, hSame⟩ := matched_of_canonicalRef hMem hType
      have hResolve' := resolveRef_congr h.noHash hSame hResolve
      rw [h.accepts_matched hMatched]
      constructor
      · rintro ⟨definition', hOther, hAccepts⟩
        rw [hResolve'] at hOther
        cases hOther
        exact hAccepts
      · intro hAccepts
        exact ⟨definition, hResolve', hAccepts⟩
  closed := by
    intro hClosed hUnnamed
    rw [rejects_iff h.document]
    cases hMatched : matched id type refs with
    | none =>
      rw [h.accepts_unmatched hMatched]
      exact not_not.mpr hClosed
    | some reference =>
      obtain ⟨hMem, hType⟩ := mem_of_matched hMatched
      rw [h.accepts_matched hMatched]
      by_cases hMain : (refTarget id reference).2 = "main"
      · intro hAccepts
        exact (hAgrees.fragment reference hMem hMain hType).mp hAccepts hClosed
      · rintro ⟨definition, hResolve, _⟩
        apply hUnnamed reference hMem definition hResolve
        rw [typeName_eq_canonicalRef hMain, hType]
  unknown := by
    intro hOpen hUnnamed
    cases hMatched : matched id type refs with
    | none => exact (h.accepts_unmatched hMatched).mpr hOpen
    | some reference =>
      obtain ⟨hMem, hType⟩ := mem_of_matched hMatched
      by_cases hMain : (refTarget id reference).2 = "main"
      · exact (h.accepts_matched hMatched).mpr
          ((hAgrees.fragment reference hMem hMain hType).mpr hOpen)
      · exact absurd (typeName_eq_canonicalRef hMain ▸ hType) (hUnnamed reference hMem)

end Union

/-! ## Two documents -/

def nextSchema : Node :=
  [("refs", .array [.string "#node"]), ("type", .string "union")]

def nextValue : Json :=
  .object [("$type", .string "com.example.chain#node")]

/-- An open union with the main definition among its references. -/
def innerSchema : Node :=
  [("refs", .array [.string "com.example.shape"]), ("type", .string "union")]

def shapeSchema : Json :=
  .object [
    ("properties", .object [("inner", .object innerSchema),
      ("sides", .object [("type", .string "integer")])]),
    ("required", .array [.string "sides"]), ("type", .string "object")]

def shapeMain : Json :=
  .object [("key", .string "any"), ("record", shapeSchema), ("type", .string "record")]

def shapeDocument : Node :=
  [("defs", .object [("main", shapeMain)]), ("id", .string "com.example.shape"),
    ("lexicon", .number (.posInt 1))]

/-- It names the main definition, and it has no `sides`. -/
def innerValue : Json :=
  .object [("$type", .string "com.example.shape")]

end Ezpds.Repo.Lexicon
