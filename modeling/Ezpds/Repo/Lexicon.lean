import Ezpds.Data.Cid
import Ezpds.Data.Json
import Ezpds.Library.Except
import Ezpds.Library.Fueled
import Ezpds.Repo.AtUri
import Ezpds.Repo.RecordValue

/-!
# Lexicons over untrusted documents

`lexicon.rs`: `validate_document` checks a lexicon document, and `validate_record` a record
against one of its definitions. The second follows the references of the document, so it is
a recursion on fuel here: one turn of `validate_schema` is `schemaStep`, which is given the
function for the calls that it makes.
-/

namespace Ezpds.Repo

open Library

namespace Lexicon

/-- What the validator takes from other crates: grapheme segmentation, the two base64
engines, `Cid::try_from`, and the UTC year of `DateTime::parse_from_rfc3339`. -/
structure Crates where
  graphemes : String → Nat
  b64 : Base64
  b64NoPad : Base64
  isCid : String → Bool
  utcYear : String → Option Int

/-! ## String formats -/

/-- `bytes[range]` are digits, and there are that many. -/
def digits (bytes : List UInt8) (start stop : Nat) : Bool :=
  stop ≤ bytes.length && ((bytes.take stop).drop start).all fun b => 48 ≤ b && b ≤ 57

def byteAt (bytes : List UInt8) (i : Nat) (c : Char) : Bool :=
  bytes[i]? == some (UInt8.ofNat c.toNat)

/-- What is left of a datetime after its seconds and its fraction: the timezone. -/
def isTimezone (bytes : List UInt8) : Bool :=
  if byteAt bytes 0 'Z' then bytes.length == 1
  else if byteAt bytes 0 '+' || byteAt bytes 0 '-' then
    bytes.length == 6 && byteAt bytes 3 ':' && digits bytes 1 3 && digits bytes 4 6 &&
      !(byteAt bytes 0 '-' && bytes.drop 1 == strBytes "00:00")
  else false

def hasValidSyntax (value : String) : Bool :=
  let bytes := strBytes value
  if bytes.length < 20 || !byteAt bytes 4 '-' || !byteAt bytes 7 '-' || !byteAt bytes 10 'T' ||
      !byteAt bytes 13 ':' || !byteAt bytes 16 ':' || !digits bytes 0 4 || !digits bytes 5 7 ||
      !digits bytes 8 10 || !digits bytes 11 13 || !digits bytes 14 16 || !digits bytes 17 19 then
    false
  else if byteAt bytes 19 '.' then
    let fraction := (bytes.drop 20).takeWhile fun b => 48 ≤ b && b ≤ 57
    !fraction.isEmpty && isTimezone (bytes.drop (20 + fraction.length))
  else isTimezone (bytes.drop 19)

def isValidDatetime (crates : Crates) (value : String) : Bool :=
  hasValidSyntax value && (crates.utcYear value).any fun year => 0 ≤ year

def isValidLanguage (value : String) : Bool :=
  match splitText '-' value with
  | [] => false
  | first :: parts =>
    !first.isEmpty && (strBytes first).length ≤ 8 && (strBytes first).all isAlphaByte &&
      parts.all fun part =>
        !part.isEmpty && (strBytes part).length ≤ 8 && (strBytes part).all isAlphanumByte

def isSchemeByte (b : UInt8) : Bool :=
  isAlphanumByte b || ['+', '.', '-'].any fun c => b == UInt8.ofNat c.toNat

def isValidUri (value : String) : Bool :=
  match splitOnce ':' value.toList with
  | none => false
  | some (scheme, rest) =>
    !rest.isEmpty && (strBytes (String.ofList scheme)).head?.any isAlphaByte &&
      (strBytes (String.ofList scheme)).all isSchemeByte && !value.toList.any isWhitespace

def satisfiesFormat (crates : Crates) (format value : String) : Bool :=
  match format with
  | "did" => (validateDid value).isOk
  | "handle" => (validateHandle value).isOk
  | "at-identifier" =>
    if startsWith "did:" value then (validateDid value).isOk else (validateHandle value).isOk
  | "at-uri" => (AtUri.parse value).isOk
  | "nsid" => (validateCollection value).isOk
  | "cid" => crates.isCid value
  | "datetime" => isValidDatetime crates value
  | "language" => isValidLanguage value
  | "uri" => isValidUri value
  | "tid" => isValidTid value
  | "record-key" => isValidRecordKey value
  | _ => false

def validateStringFormat (crates : Crates) (format value : String) : Except String Unit :=
  check (satisfiesFormat crates format value) "does not satisfy its string format"

/-! ## Values without references -/

/-- The fields of a schema, or of the document. -/
abbrev Node : Type := List (String × Json)

abbrev Verdict : Type := Except LexiconRecordError Unit

def checkBounds (node : Node) (path : String) (actual : Nat) (min max label : String) :
    Verdict := do
  check (!((node.lookup min).bind Json.asU64).any (actual < ·))
    ⟨path, label ++ " is below `" ++ min ++ "`"⟩
  check (!((node.lookup max).bind Json.asU64).any (· < actual))
    ⟨path, label ++ " is above `" ++ max ++ "`"⟩

def checkLength (node : Node) (path : String) (length : Nat) : Verdict :=
  checkBounds node path length "minLength" "maxLength" "length"

def validateBoolean (node : Node) (path : String) (value : Json) : Verdict := do
  let actual ← okOr ⟨path, "must be a boolean"⟩ value.asBool
  check (!((node.lookup "const").bind Json.asBool).any (actual != ·))
    ⟨path, "does not match `const`"⟩

/-- `f64 as i64`, of a double without a fractional part: the cast saturates. -/
def saturateI64 (i : Int) : Int :=
  max (-(2 ^ 63)) (min i (2 ^ 63 - 1))

/-- The integer that the constraints are checked on. -/
def machineInteger (value : Json) : Option Int :=
  value.asI64.or ((value.asF64.bind Binary64.integral).map saturateI64)

def validateInteger (node : Node) (path : String) (value : Json) : Verdict := do
  let integer ← okOr ⟨path, "must be an integer"⟩ (machineInteger value)
  check (!((node.lookup "const").bind Json.asI64).any (integer != ·))
    ⟨path, "does not match `const`"⟩
  check (!((node.lookup "enum").bind Json.asArray).any fun values =>
      !values.any fun item => item.asI64 == some integer)
    ⟨path, "is not in `enum`"⟩
  check (!((node.lookup "minimum").bind Json.asI64).any (integer < ·))
    ⟨path, "is below `minimum`"⟩
  check (!((node.lookup "maximum").bind Json.asI64).any (· < integer))
    ⟨path, "is above `maximum`"⟩

def validateString (crates : Crates) (node : Node) (path : String) (value : Json) :
    Verdict := do
  let string ← okOr ⟨path, "must be a string"⟩ value.asStr
  check (!((node.lookup "const").bind Json.asStr).any (string != ·))
    ⟨path, "does not match `const`"⟩
  check (!((node.lookup "enum").bind Json.asArray).any fun values =>
      !values.any fun item => item.asStr == some string)
    ⟨path, "is not in `enum`"⟩
  checkLength node path (strBytes string).length
  checkBounds node path (crates.graphemes string) "minGraphemes" "maxGraphemes" "graphemes"
  match (node.lookup "format").bind Json.asStr with
  | some format => (validateStringFormat crates format string).mapError fun e => ⟨path, e⟩
  | none => .ok ()

def validateBytes (crates : Crates) (node : Node) (path : String) (value : Json) :
    Verdict := do
  let encoded ← okOr ⟨path, "must be a byte array"⟩ ((value.get "$bytes").bind Json.asStr)
  if (node.lookup "minLength").isNone && (node.lookup "maxLength").isNone then .ok ()
  else
    match crates.b64.decode encoded with
    | .ok bytes => checkLength node path bytes.length
    | .error _ =>
      match crates.b64NoPad.decode encoded with
      | .ok bytes => checkLength node path bytes.length
      | .error _ => .error ⟨path, "contains invalid base64"⟩

def object (value : Json) (path : String) : Except LexiconRecordError Node :=
  okOr ⟨path, "must be an object"⟩ value.asObject

def validateCidLink (crates : Crates) (path : String) (value : Json) : Verdict := do
  let map ← object value path
  check (map.length == 1 && ((map.lookup "$link").bind Json.asStr).any crates.isCid)
    ⟨path, "must be a CID link"⟩

def propertyPath (path key : String) : String :=
  path ++ "/" ++ key

/-- A pattern with a star at its end stands for the types that begin with the rest of it. -/
def acceptsMime (mime pattern : String) : Bool :=
  pattern == "*/*" || pattern == mime ||
    pattern.toList.getLast? == some '*' && pattern.toList.dropLast.isPrefixOf mime.toList

def validateBlob (crates : Crates) (node : Node) (path : String) (value : Json) :
    Verdict := do
  let map ← object value path
  check ((map.lookup "$type").bind Json.asStr == some "blob") ⟨path, "must be a blob"⟩
  let mime ← okOr ⟨path, "blob is missing `mimeType`"⟩ ((map.lookup "mimeType").bind Json.asStr)
  let size ← okOr ⟨path, "blob is missing integer `size`"⟩ ((map.lookup "size").bind Json.asU64)
  validateCidLink crates (propertyPath path "ref") ((map.lookup "ref").getD .null)
  check (!((node.lookup "maxSize").bind Json.asU64).any (· < size))
    ⟨path, "blob exceeds `maxSize`"⟩
  check (((node.lookup "accept").bind Json.asArray).all fun accept =>
      (accept.filterMap Json.asStr).any (acceptsMime mime))
    ⟨path, "blob MIME type is not accepted"⟩

def validateUnknown (path : String) (value : Json) : Verdict := do
  let map ← object value path
  check (!((map.lookup "$bytes").isSome || (map.lookup "$type").bind Json.asStr == some "blob"))
    ⟨path, "unknown values must be ordinary objects"⟩

/-! ## References -/

def canonicalRef (id reference : String) : String :=
  match stripPrefix "#" reference with
  | some fragment => id ++ "#" ++ fragment
  | none => if reference.toList.contains '#' then reference else reference ++ "#main"

/-- `canonical.split_once('#').unwrap_or((&canonical, "main"))` -/
def splitRef (canonical : String) : String × String :=
  match splitOnce '#' canonical.toList with
  | some (id, fragment) => (String.ofList id, String.ofList fragment)
  | none => (canonical, "main")

def definitions (doc : Node) : Option Node :=
  (doc.lookup "defs").bind Json.asObject

def resolveRef (doc : Node) (id reference path : String) : Except LexiconRecordError Json :=
  let target := splitRef (canonicalRef id reference)
  if target.1 ≠ id then .error ⟨path, "unresolved external ref `" ++ reference ++ "`"⟩
  else
    okOr ⟨path, "unresolved ref `" ++ reference ++ "`"⟩
      ((definitions doc).bind fun defs => defs.lookup target.2)

/-! ## One turn of the recursion -/

/-- The arguments of `validate_schema` that change from call to call. -/
structure SchemaCall where
  schema : Json
  path : String
  value : Json

/-- The keywords that `validate_schema` knows. -/
inductive SchemaType where
  | null
  | boolean
  | integer
  | string
  | bytes
  | cidLink
  | blob
  | array
  | object
  | unknown
  | ref
  | union
  | token
  | other (keyword : String)
  deriving DecidableEq, Repr

def SchemaType.ofKeyword : String → SchemaType
  | "null" => .null
  | "boolean" => .boolean
  | "integer" => .integer
  | "string" => .string
  | "bytes" => .bytes
  | "cid-link" => .cidLink
  | "blob" => .blob
  | "array" => .array
  | "object" => .object
  | "unknown" => .unknown
  | "ref" => .ref
  | "union" => .union
  | "token" => .token
  | keyword => .other keyword

/-- The function for the calls of a turn: `none` when the fuel is out. -/
abbrev Recurse : Type := SchemaCall → Option Verdict

def validateItems (recurse : Recurse) (itemSchema : Json) (path : String) :
    Nat → List Json → Option Verdict
  | _, [] => some (.ok ())
  | index, item :: items =>
    match recurse ⟨itemSchema, propertyPath path (toString index), item⟩ with
    | some (.ok ()) => validateItems recurse itemSchema path (index + 1) items
    | stopped => stopped

def validateArray (recurse : Recurse) (node : Node) (path : String) (value : Json) :
    Option Verdict :=
  match value.asArray with
  | none => some (.error ⟨path, "must be an array"⟩)
  | some items =>
    match checkLength node path items.length with
    | .error e => some (.error e)
    | .ok () =>
      match node.lookup "items" with
      | none => some (.error ⟨path, "array schema is missing `items`"⟩)
      | some itemSchema => validateItems recurse itemSchema path 0 items

/-- The loop over the properties of the schema; `nullable` are the keys that may be null. -/
def validateProperties (recurse : Recurse) (nullable : List Json) (map : Node)
    (path : String) : Node → Option Verdict
  | [] => some (.ok ())
  | (key, schema) :: properties =>
    match map.lookup key with
    | none => validateProperties recurse nullable map path properties
    | some property =>
      if property.isNull && nullable.any fun item => item.asStr == some key then
        validateProperties recurse nullable map path properties
      else
        match recurse ⟨schema, propertyPath path key, property⟩ with
        | some (.ok ()) => validateProperties recurse nullable map path properties
        | stopped => stopped

def checkRequired (node : Node) (path : String) (map : Node) : Verdict :=
  ((((node.lookup "required").bind Json.asArray).getD []).filterMap Json.asStr).forM fun key =>
    check (map.lookup key).isSome ⟨path, "missing required property `" ++ key ++ "`"⟩

def validateObjectSchema (recurse : Recurse) (node : Node) (path : String) (value : Json) :
    Option Verdict :=
  match object value path with
  | .error e => some (.error e)
  | .ok map =>
    match checkRequired node path map with
    | .error e => some (.error e)
    | .ok () =>
      validateProperties recurse (((node.lookup "nullable").bind Json.asArray).getD []) map path
        (((node.lookup "properties").bind Json.asObject).getD [])

def validateRef (recurse : Recurse) (doc : Node) (id reference path : String) (value : Json) :
    Option Verdict :=
  match resolveRef doc id reference path with
  | .error e => some (.error e)
  | .ok resolved => recurse ⟨resolved, path, value⟩

def validateUnion (recurse : Recurse) (doc : Node) (id : String) (node : Node) (path : String)
    (value : Json) : Option Verdict :=
  match (value.get "$type").bind Json.asStr with
  | none => some (.error ⟨path, "union value must be an object with `$type`"⟩)
  | some typeName =>
    match (node.lookup "refs").bind Json.asArray with
    | none => some (.error ⟨path, "union schema is missing `refs`"⟩)
    | some refs =>
      match (refs.filterMap Json.asStr).find? fun reference =>
          canonicalRef id reference == typeName with
      | some reference => validateRef recurse doc id reference path value
      | none =>
        if (node.lookup "closed").bind Json.asBool = some true then
          some (.error ⟨path, "`$type` is outside the closed union"⟩)
        else some (.ok ())

def validateToken (id : String) (node : Node) (path : String) (value : Json) : Verdict :=
  check (value.asStr.any fun actual =>
      actual == canonicalRef id (((node.lookup "ref").bind Json.asStr).getD ""))
    ⟨path, "must be a token identifier"⟩

def validateNode (crates : Crates) (doc : Node) (id : String) (recurse : Recurse) (node : Node)
    (ty : String) (path : String) (value : Json) : Option Verdict :=
  match SchemaType.ofKeyword ty with
  | .null =>
    if value.isNull then some (.ok ())
    else some (.error ⟨path, "unsupported schema type `" ++ ty ++ "`"⟩)
  | .boolean => some (validateBoolean node path value)
  | .integer => some (validateInteger node path value)
  | .string => some (validateString crates node path value)
  | .bytes => some (validateBytes crates node path value)
  | .cidLink => some (validateCidLink crates path value)
  | .blob => some (validateBlob crates node path value)
  | .array => validateArray recurse node path value
  | .object => validateObjectSchema recurse node path value
  | .unknown => some (validateUnknown path value)
  | .ref =>
    match (node.lookup "ref").bind Json.asStr with
    | none => some (.error ⟨path, "ref schema is missing `ref`"⟩)
    | some reference => validateRef recurse doc id reference path value
  | .union => validateUnion recurse doc id node path value
  | .token => some (validateToken id node path value)
  | .other _ => some (.error ⟨path, "unsupported schema type `" ++ ty ++ "`"⟩)

def schemaStep (crates : Crates) (doc : Node) (id : String) (recurse : Recurse)
    (call : SchemaCall) : Option Verdict :=
  match call.schema.asObject with
  | none => some (.error ⟨call.path, "must be an object"⟩)
  | some node =>
    match (node.lookup "type").bind Json.asStr with
    | none => some (.error ⟨call.path, "schema is missing string `type`"⟩)
    | some ty => validateNode crates doc id recurse node ty call.path call.value

def validateSchema (crates : Crates) (doc : Node) (id : String) :
    Nat → SchemaCall → Option Verdict :=
  fueled (schemaStep crates doc id)

/-! ## Records and documents -/

/-- What `validate_record` checks before the record itself: the schema of the definition, in
a document with a name. -/
def recordSchema (doc : Json) (defName rkey : String) (record : Json) :
    Except LexiconRecordError (Node × String × Json) := do
  let docObj ← object doc "lexicon"
  let id ← okOr ⟨"lexicon", "missing string `id`"⟩ ((docObj.lookup "id").bind Json.asStr)
  let defs ← okOr ⟨"lexicon", "missing object `defs`"⟩ (definitions docObj)
  let definition ← okOr ⟨"lexicon", "unknown definition `" ++ defName ++ "`"⟩ (defs.lookup defName)
  let defObj ← object definition "lexicon definition"
  check ((defObj.lookup "type").bind Json.asStr == some "record")
    ⟨"lexicon definition", "must have type `record`"⟩
  validateRecordKey (((defObj.lookup "key").bind Json.asStr).getD "any") rkey
  let expectedType := if defName = "main" then id else id ++ "#" ++ defName
  check ((record.get "$type").all fun actual => actual.asStr == some expectedType)
    ⟨"$type", "must be `" ++ expectedType ++ "`"⟩
  let schema ← okOr ⟨"lexicon definition", "missing `record` schema"⟩ (defObj.lookup "record")
  return (docObj, id, schema)

def validateRecord (crates : Crates) (fuel : Nat) (doc : Json) (defName rkey : String)
    (record : Json) : Option Verdict :=
  match recordSchema doc defName rkey record with
  | .error e => some (.error e)
  | .ok (docObj, id, schema) => validateSchema crates docObj id fuel ⟨schema, "record", record⟩

structure LexiconSchemaError where
  location : String
  reason : String
  deriving DecidableEq, Repr

def PRIMARY_TYPES : List String :=
  ["record", "query", "procedure", "subscription", "permission-set"]

def FIELD_TYPES : List String :=
  ["null", "boolean", "integer", "string", "bytes", "cid-link", "blob", "array", "object", "token"]

def validateRecordDef (name : String) (obj : Node) : Except LexiconSchemaError Unit :=
  match obj.lookup "record" with
  | some (.object rec) =>
    check ((rec.lookup "type").bind Json.asStr == some "object")
      ⟨name, "record `record` must have `type: \"object\"`"⟩
  | some _ => .error ⟨name, "record `record` must be an object"⟩
  | none => .error ⟨name, "record definition is missing `record`"⟩

def defType (name : String) (obj : Node) : Except LexiconSchemaError String :=
  match obj.lookup "type" with
  | some (.string t) => .ok t
  | some _ => .error ⟨name, "`type` must be a string"⟩
  | none => .error ⟨name, "definition is missing `type`"⟩

def validateDef (name : String) (definition : Json) : Except LexiconSchemaError Unit := do
  let obj ← okOr ⟨name, "definition must be an object"⟩ definition.asObject
  let ty ← defType name obj
  check (PRIMARY_TYPES.contains ty || FIELD_TYPES.contains ty)
    ⟨name, "`" ++ ty ++ "` is not a valid definition type"⟩
  check (!(PRIMARY_TYPES.contains ty && name != "main"))
    ⟨name, "primary type `" ++ ty ++ "` may only be defined under `main`"⟩
  if ty = "record" then validateRecordDef name obj else .ok ()

def documentVersion (obj : Node) : Except LexiconSchemaError Unit :=
  match obj.lookup "lexicon" with
  | some (.number n) =>
    check (n.asU64 == some 1) ⟨"document", "`lexicon` must be the integer 1"⟩
  | some _ => .error ⟨"document", "`lexicon` must be the integer 1"⟩
  | none => .error ⟨"document", "missing `lexicon` version field"⟩

def documentId (obj : Node) : Except LexiconSchemaError Unit :=
  match obj.lookup "id" with
  | some (.string id) =>
    check (validateCollection id).isOk ⟨"document", "`id` is not a valid NSID: " ++ id⟩
  | some _ => .error ⟨"document", "`id` must be a string"⟩
  | none => .error ⟨"document", "missing `id` field"⟩

def documentDefs (obj : Node) : Except LexiconSchemaError Node :=
  match obj.lookup "defs" with
  | some (.object defs) => .ok defs
  | some _ => .error ⟨"document", "`defs` must be an object"⟩
  | none => .error ⟨"document", "missing `defs` field"⟩

def validateDocument (doc : Json) : Except LexiconSchemaError Unit := do
  let obj ← okOr ⟨"document", "must be an object"⟩ doc.asObject
  documentVersion obj
  documentId obj
  let defs ← documentDefs obj
  defs.forM fun entry => validateDef entry.1 entry.2

end Lexicon

end Ezpds.Repo
