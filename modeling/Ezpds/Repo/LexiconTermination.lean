import Ezpds.Repo.Lexicon

/-!
# Record validation terminates

A reference leads to a definition of the document, and `validate_document` lets no reference
or union be a definition. So after at most one hop the validator is at a schema that looks
into the value, and the depth of the value, with the hop still allowed, bounds the recursion.

* `callsOnly_schemaStep`: the calls that one turn of the recursion makes.
* `budget_lt`: over an accepted document each of them has less budget.
* `validateRecord_terminates`: a verdict, whatever the references of the document.
-/

namespace Ezpds

namespace Json

mutual

/-- How many arrays and objects are nested in each other. -/
def depth : Json → Nat
  | null => 0
  | bool _ => 0
  | number _ => 0
  | string _ => 0
  | array items => itemsDepth items + 1
  | object fields => fieldsDepth fields + 1

def itemsDepth : List Json → Nat
  | [] => 0
  | j :: items => max j.depth (itemsDepth items)

def fieldsDepth : List (String × Json) → Nat
  | [] => 0
  | (_, j) :: fields => max j.depth (fieldsDepth fields)

end

theorem depth_le_itemsDepth {j : Json} {items : List Json} (h : j ∈ items) :
    j.depth ≤ itemsDepth items := by
  induction items with
  | nil => cases h
  | cons head items ih =>
    rw [itemsDepth]
    rcases List.mem_cons.mp h with rfl | h
    · exact Nat.le_max_left _ _
    · exact le_trans (ih h) (Nat.le_max_right _ _)

theorem depth_le_fieldsDepth {e : String × Json} {fields : List (String × Json)}
    (h : e ∈ fields) : e.2.depth ≤ fieldsDepth fields := by
  induction fields with
  | nil => cases h
  | cons head fields ih =>
    rw [fieldsDepth]
    rcases List.mem_cons.mp h with rfl | h
    · exact Nat.le_max_left _ _
    · exact le_trans (ih h) (Nat.le_max_right _ _)

end Json

namespace Repo.Lexicon

open Library

/-! ## The calls of one turn -/

def schemaType (schema : Json) : Option SchemaType :=
  ((schema.get "type").bind Json.asStr).map SchemaType.ofKeyword

/-- The calls of `validate_schema` to itself: for the items of an array, for the properties
of an object, and for the definition that a reference or a union leads to. -/
inductive Calls (doc : Node) (id : String) : SchemaCall → SchemaCall → Prop
  | item {node : Node} {path path' : String} {items : List Json} {itemSchema item : Json} :
    schemaType (.object node) = some .array → item ∈ items →
      Calls doc id ⟨.object node, path, .array items⟩ ⟨itemSchema, path', item⟩
  | property {node map : Node} {path path' key : String} {schema property : Json} :
    schemaType (.object node) = some .object → (key, property) ∈ map →
      Calls doc id ⟨.object node, path, .object map⟩ ⟨schema, path', property⟩
  | resolved {node : Node} {path reference : String} {value definition : Json} :
    schemaType (.object node) = some .ref ∨ schemaType (.object node) = some .union →
      resolveRef doc id reference path = .ok definition →
      Calls doc id ⟨.object node, path, value⟩ ⟨definition, path, value⟩

section Loops

variable {f g : Recurse} {doc map : Node} {id path key reference : String}

theorem validateItems_congr {itemSchema : Json} {items : List Json} {index : Nat}
    (h : ∀ path' item, item ∈ items → f ⟨itemSchema, path', item⟩ = g ⟨itemSchema, path', item⟩) :
    validateItems f itemSchema path index items = validateItems g itemSchema path index items := by
  induction items generalizing index with
  | nil => rfl
  | cons item items ih =>
    rw [validateItems, validateItems, h _ item List.mem_cons_self,
      ih fun path' item' hItem => h path' item' (List.mem_cons_of_mem _ hItem)]

theorem validateItems_returns {itemSchema : Json} {items : List Json} {index : Nat}
    (h : ∀ path' item, item ∈ items → (f ⟨itemSchema, path', item⟩).isSome) :
    (validateItems f itemSchema path index items).isSome := by
  induction items generalizing index with
  | nil => rfl
  | cons item items ih =>
    rw [validateItems]
    have hItem := h (propertyPath path (toString index)) item List.mem_cons_self
    split
    · exact ih fun path' item' hMem => h path' item' (List.mem_cons_of_mem _ hMem)
    · exact hItem

theorem validateProperties_congr {nullable : List Json} {properties : Node}
    (h : ∀ schema path' key property, (key, property) ∈ map →
      f ⟨schema, path', property⟩ = g ⟨schema, path', property⟩) :
    validateProperties f nullable map path properties =
      validateProperties g nullable map path properties := by
  induction properties with
  | nil => rfl
  | cons entry properties ih =>
    obtain ⟨key, schema⟩ := entry
    rw [validateProperties, validateProperties, ih]
    cases hLookup : map.lookup key with
    | none => rfl
    | some property =>
      dsimp only
      rw [h schema _ key property (mem_of_lookup hLookup)]

theorem validateProperties_returns {nullable : List Json} {properties : Node}
    (h : ∀ schema path' key property, (key, property) ∈ map →
      (f ⟨schema, path', property⟩).isSome) :
    (validateProperties f nullable map path properties).isSome := by
  induction properties with
  | nil => rfl
  | cons entry properties ih =>
    obtain ⟨key, schema⟩ := entry
    rw [validateProperties]
    cases hLookup : map.lookup key with
    | none => exact ih
    | some property =>
      have hProperty := h schema (propertyPath path key) key property (mem_of_lookup hLookup)
      dsimp only
      split
      · exact ih
      · split
        · exact ih
        · exact hProperty

theorem validateRef_congr {value : Json}
    (h : ∀ definition, resolveRef doc id reference path = .ok definition →
      f ⟨definition, path, value⟩ = g ⟨definition, path, value⟩) :
    validateRef f doc id reference path value = validateRef g doc id reference path value := by
  unfold validateRef
  cases hResolve : resolveRef doc id reference path with
  | error e => rfl
  | ok definition => exact h definition hResolve

theorem validateRef_returns {value : Json}
    (h : ∀ definition, resolveRef doc id reference path = .ok definition →
      (f ⟨definition, path, value⟩).isSome) :
    (validateRef f doc id reference path value).isSome := by
  unfold validateRef
  cases hResolve : resolveRef doc id reference path with
  | error e => rfl
  | ok definition => exact h definition hResolve

end Loops

/-! ## The turn as a whole -/

section Turn

variable {crates : Crates} {doc node : Node} {id path ty : String} {value : Json}

theorem schemaType_object (h : (node.lookup "type").bind Json.asStr = some ty) :
    schemaType (.object node) = some (.ofKeyword ty) := by
  show ((node.lookup "type").bind Json.asStr).map _ = _
  rw [h, Option.map_some]

/-- What one turn does: it returns, or it goes over the items of an array, over the
properties of an object, or to a definition. -/
inductive Turn (doc : Node) (id : String) : SchemaCall → (Recurse → Option Verdict) → Prop
  | done {call : SchemaCall} {verdict : Verdict} : Turn doc id call fun _ => some verdict
  | items {node : Node} {path : String} {items : List Json} {itemSchema : Json} :
    schemaType (.object node) = some .array →
      Turn doc id ⟨.object node, path, .array items⟩ fun f =>
        validateItems f itemSchema path 0 items
  | properties {node map properties : Node} {path : String} {nullable : List Json} :
    schemaType (.object node) = some .object →
      Turn doc id ⟨.object node, path, .object map⟩ fun f =>
        validateProperties f nullable map path properties
  | resolved {node : Node} {path reference : String} {value : Json} :
    schemaType (.object node) = some .ref ∨ schemaType (.object node) = some .union →
      Turn doc id ⟨.object node, path, value⟩ fun f =>
        validateRef f doc id reference path value

theorem turn_array (hType : schemaType (.object node) = some .array) :
    Turn doc id ⟨.object node, path, value⟩ fun f => validateArray f node path value := by
  cases value with
  | array items =>
    unfold validateArray
    dsimp only [Json.asArray]
    cases checkLength node path items.length with
    | error e => exact .done
    | ok _ =>
      cases node.lookup "items" with
      | none => exact .done
      | some itemSchema => exact .items hType
  | _ => exact .done

theorem turn_object (hType : schemaType (.object node) = some .object) :
    Turn doc id ⟨.object node, path, value⟩ fun f => validateObjectSchema f node path value := by
  cases value with
  | object map =>
    unfold validateObjectSchema
    dsimp only [Lexicon.object, Json.asObject, okOr, Option.elim]
    cases checkRequired node path map with
    | error e => exact .done
    | ok _ => exact .properties hType
  | _ => exact .done

theorem turn_union (hType : schemaType (.object node) = some .union) :
    Turn doc id ⟨.object node, path, value⟩ fun f => validateUnion f doc id node path value := by
  unfold validateUnion
  cases (value.get "$type").bind Json.asStr with
  | none => exact .done
  | some typeName =>
    cases (node.lookup "refs").bind Json.asArray with
    | none => exact .done
    | some refs =>
      dsimp only
      cases (refs.filterMap Json.asStr).find? fun reference =>
          canonicalRef id reference == typeName with
      | some reference => exact .resolved (.inr hType)
      | none =>
        dsimp only
        split
        · exact .done
        · exact .done

theorem turn_node (hType : (node.lookup "type").bind Json.asStr = some ty) :
    Turn doc id ⟨.object node, path, value⟩ fun f =>
      validateNode crates doc id f node ty path value := by
  have hSchema := schemaType_object hType
  unfold validateNode
  cases hKeyword : SchemaType.ofKeyword ty with
  | array =>
    rw [hKeyword] at hSchema
    exact turn_array hSchema
  | object =>
    rw [hKeyword] at hSchema
    exact turn_object hSchema
  | union =>
    rw [hKeyword] at hSchema
    exact turn_union hSchema
  | ref =>
    rw [hKeyword] at hSchema
    dsimp only
    cases (node.lookup "ref").bind Json.asStr with
    | none => exact .done
    | some reference => exact .resolved (.inl hSchema)
  | null =>
    dsimp only
    split
    · exact .done
    · exact .done
  | _ => exact .done

theorem turn_schemaStep (call : SchemaCall) :
    Turn doc id call fun f => schemaStep crates doc id f call := by
  obtain ⟨schema, path, value⟩ := call
  unfold schemaStep
  cases schema with
  | object node =>
    dsimp only [Json.asObject]
    cases hType : (node.lookup "type").bind Json.asStr with
    | none => exact .done
    | some ty => exact turn_node hType
  | _ => exact .done

theorem Turn.congr {call : SchemaCall} {turn : Recurse → Option Verdict}
    (hTurn : Turn doc id call turn) {f g : Recurse}
    (h : ∀ call', Calls doc id call call' → f call' = g call') : turn f = turn g := by
  cases hTurn with
  | done => rfl
  | items hType => exact validateItems_congr fun _ _ hItem => h _ (.item hType hItem)
  | properties hType =>
    exact validateProperties_congr fun _ _ _ _ hProperty => h _ (.property hType hProperty)
  | resolved hType => exact validateRef_congr fun _ hResolve => h _ (.resolved hType hResolve)

theorem Turn.returns {call : SchemaCall} {turn : Recurse → Option Verdict}
    (hTurn : Turn doc id call turn) {f : Recurse}
    (h : ∀ call', Calls doc id call call' → (f call').isSome) : (turn f).isSome := by
  cases hTurn with
  | done => rfl
  | items hType => exact validateItems_returns fun _ _ hItem => h _ (.item hType hItem)
  | properties hType =>
    exact validateProperties_returns fun _ _ _ _ hProperty => h _ (.property hType hProperty)
  | resolved hType => exact validateRef_returns fun _ hResolve => h _ (.resolved hType hResolve)

/-- A turn depends on the function for the calls only at the calls it makes, and it returns
when they do. -/
theorem callsOnly_schemaStep : CallsOnly (schemaStep crates doc id) (Calls doc id) where
  congr := fun _ _ call h => (turn_schemaStep call).congr h
  returns := fun _ call h => (turn_schemaStep call).returns h

end Turn

/-! ## The budget -/

/-- A reference or a union may be followed once before the validator looks into the value. -/
def refHops (schema : Json) : Nat :=
  match schemaType schema with
  | some .ref => 1
  | some .union => 1
  | _ => 0

/-- The value that remains, and the hop that is left at it. -/
def budget (call : SchemaCall) : Nat :=
  2 * call.value.depth + refHops call.schema

theorem refHops_le (schema : Json) : refHops schema ≤ 1 := by
  unfold refHops
  split <;> omega

theorem validateDef_ok {name : String} {definition : Json}
    (h : validateDef name definition = .ok ()) : refHops definition = 0 := by
  obtain ⟨obj, hObj, h⟩ := bind_ok.mp h
  obtain ⟨ty, hType, h⟩ := bind_ok.mp h
  obtain ⟨_, hKnown, _⟩ := bind_ok.mp h
  have hString : (obj.lookup "type").bind Json.asStr = some ty := by
    unfold defType at hType
    split at hType
    · rename_i t hLookup
      cases hType
      rw [hLookup]
      rfl
    · cases hType
    · cases hType
  have hDefinition : definition = .object obj := by
    cases definition with
    | object fields =>
      cases hObj
      rfl
    | _ => cases hObj
  rw [refHops, hDefinition, schemaType_object hString]
  have hMem := check_ok.mp hKnown
  simp only [PRIMARY_TYPES, FIELD_TYPES, List.contains_eq_mem, List.mem_cons, List.not_mem_nil,
    or_false, Bool.or_eq_true, decide_eq_true_eq] at hMem
  rcases hMem with (rfl | rfl | rfl | rfl | rfl) |
    (rfl | rfl | rfl | rfl | rfl | rfl | rfl | rfl | rfl | rfl) <;> rfl

/-- What an accepted document is checked for: its name, and each of its definitions. -/
theorem validateDocument_ok {obj : Node} (h : validateDocument (.object obj) = .ok ()) :
    documentId obj = .ok () ∧ ∃ defs, definitions obj = some defs ∧
      ∀ entry ∈ defs, validateDef entry.1 entry.2 = .ok () := by
  obtain ⟨_, hObj, h⟩ := bind_ok.mp h
  cases hObj
  obtain ⟨_, _, h⟩ := bind_ok.mp h
  obtain ⟨_, hId, h⟩ := bind_ok.mp h
  obtain ⟨defs, hDefs, hEach⟩ := bind_ok.mp h
  refine ⟨hId, defs, ?_, forM_ok.mp hEach⟩
  unfold documentDefs at hDefs
  split at hDefs
  · rename_i fields hLookup
    cases hDefs
    rw [definitions, hLookup]
    rfl
  · cases hDefs
  · cases hDefs

/-- No definition of an accepted document is a reference or a union. -/
theorem refHops_definition {obj defs : Node} {name : String} {definition : Json}
    (h : validateDocument (.object obj) = .ok ()) (hDefs : definitions obj = some defs)
    (hDefinition : (name, definition) ∈ defs) : refHops definition = 0 := by
  obtain ⟨_, defs', hDefs', hEach⟩ := validateDocument_ok h
  rw [hDefs] at hDefs'
  cases hDefs'
  exact validateDef_ok (hEach (name, definition) hDefinition)

theorem resolveRef_mem {doc : Node} {id reference path : String} {definition : Json}
    (h : resolveRef doc id reference path = .ok definition) :
    ∃ defs name, definitions doc = some defs ∧ (name, definition) ∈ defs := by
  unfold resolveRef at h
  dsimp only at h
  split at h
  · cases h
  · obtain ⟨defs, hDefs, hLookup⟩ := Option.bind_eq_some_iff.mp (okOr_ok.mp h)
    exact ⟨defs, _, hDefs, mem_of_lookup hLookup⟩

/-- Every call has less budget than the turn that makes it. -/
theorem budget_lt {obj : Node} {id : String} (h : validateDocument (.object obj) = .ok ())
    {call call' : SchemaCall} (hCall : Calls obj id call call') : budget call' < budget call := by
  cases hCall with
  | @item _ _ _ items itemSchema item _ hItem =>
    have hDepth := Json.depth_le_itemsDepth hItem
    have hHops := refHops_le itemSchema
    show 2 * item.depth + refHops itemSchema < 2 * (Json.itemsDepth items + 1) + _
    omega
  | @property _ map _ _ _ schema property _ hProperty =>
    have hDepth : property.depth ≤ Json.fieldsDepth map :=
      Json.depth_le_fieldsDepth hProperty
    have hHops := refHops_le schema
    show 2 * property.depth + refHops schema < 2 * (Json.fieldsDepth map + 1) + _
    omega
  | @resolved node _ _ value definition hType hResolve =>
    obtain ⟨defs, name, hDefs, hMem⟩ := resolveRef_mem hResolve
    have hNone := refHops_definition h hDefs hMem
    have hOne : refHops (.object node) = 1 := by
      rcases hType with hType | hType
      · rw [refHops, hType]
      · rw [refHops, hType]
    show 2 * value.depth + refHops definition < 2 * value.depth + refHops (.object node)
    omega

theorem validateSchema_returns (crates : Crates) {obj : Node} (id : String)
    (h : validateDocument (.object obj) = .ok ()) (call : SchemaCall) :
    ∃ verdict, ∀ fuel, budget call < fuel →
      validateSchema crates obj id fuel call = some verdict :=
  fueled_returns callsOnly_schemaStep (fun _ _ hCall => budget_lt h hCall) call

/-- Over an accepted document the calls of a turn have less budget than the turn, and every
record gets its verdict from fuel that its depth bounds, whatever the references. -/
theorem validateRecord_terminates (crates : Crates) (doc : Json)
    (h : validateDocument doc = .ok ()) :
    (∀ obj id call call', doc.asObject = some obj → Calls obj id call call' →
      budget call' < budget call) ∧
    (∀ obj id, CallsOnly (schemaStep crates obj id) (Calls obj id)) ∧
    ∀ defName rkey record, ∃ verdict, ∀ fuel, 2 * record.depth + 1 < fuel →
      validateRecord crates fuel doc defName rkey record = some verdict := by
  have hBudget : ∀ obj id call call', doc.asObject = some obj → Calls obj id call call' →
      budget call' < budget call := by
    intro obj id call call' hObj hCall
    cases doc with
    | object fields =>
      cases hObj
      exact budget_lt h hCall
    | _ => cases hObj
  refine ⟨hBudget, fun _ _ => callsOnly_schemaStep, ?_⟩
  intro defName rkey record
  unfold validateRecord
  cases hSchema : recordSchema doc defName rkey record with
  | error e => exact ⟨_, fun _ _ => rfl⟩
  | ok found =>
    obtain ⟨docObj, id, schema⟩ := found
    obtain ⟨obj, hObj, hRest⟩ := bind_ok.mp hSchema
    have hFound : docObj = obj ∧ doc.asObject = some obj := by
      refine ⟨?_, okOr_ok.mp hObj⟩
      obtain ⟨_, _, h1⟩ := bind_ok.mp hRest
      obtain ⟨_, _, h2⟩ := bind_ok.mp h1
      obtain ⟨_, _, h3⟩ := bind_ok.mp h2
      obtain ⟨_, _, h4⟩ := bind_ok.mp h3
      obtain ⟨_, _, h5⟩ := bind_ok.mp h4
      obtain ⟨_, _, h6⟩ := bind_ok.mp h5
      obtain ⟨_, _, h7⟩ := bind_ok.mp h6
      obtain ⟨_, _, h8⟩ := bind_ok.mp h7
      cases h8
      rfl
    obtain ⟨rfl, hDoc⟩ := hFound
    cases doc with
    | object fields =>
      cases hDoc
      obtain ⟨verdict, hVerdict⟩ := validateSchema_returns crates id h ⟨schema, "record", record⟩
      refine ⟨verdict, ?_⟩
      intro fuel hFuel
      apply hVerdict
      have hHops := refHops_le schema
      show 2 * record.depth + refHops schema < fuel
      omega
    | _ => cases hDoc

/-- The crates on texts of ASCII, where a grapheme is a character. -/
def asciiCrates : Crates where
  graphemes := String.length
  b64 := sampleBase64
  b64NoPad := sampleBase64
  isCid := fun _ => false
  utcYear := fun _ => none

/-- A list whose nodes name each other through a union, under a reference. -/
def chainLexicon : Json :=
  .object [("defs", .object [
      ("main", .object [("key", .string "any"),
        ("record", .object [
          ("properties", .object [("root", .object [("ref", .string "#node"),
            ("type", .string "ref")])]),
          ("type", .string "object")]),
        ("type", .string "record")]),
      ("node", .object [
        ("properties", .object [("next", .object [("refs", .array [.string "#node"]),
          ("type", .string "union")])]),
        ("type", .string "object")])]),
    ("id", .string "com.example.chain"), ("lexicon", .number (.posInt 1))]

def chainRecord : Json :=
  .object [("root", .object [("next",
    .object [("$type", .string "com.example.chain#node")])])]

theorem chainRecord_verdict :
    validateRecord asciiCrates 4096 chainLexicon "main" "first" chainRecord =
      some (.ok ()) := by
  obtain ⟨verdict, hVerdict⟩ := (validateRecord_terminates asciiCrates chainLexicon
    (by decide +kernel)).2.2 "main" "first" chainRecord
  have hEight : validateRecord asciiCrates 8 chainLexicon "main" "first" chainRecord =
      some (.ok ()) := by
    decide +kernel
  have hSame := hVerdict 8 (by decide +kernel)
  rw [hEight] at hSame
  rw [hVerdict 4096 (by decide +kernel), ← hSame]

end Repo.Lexicon

end Ezpds
