import Ezpds.Library.Rounds
import Ezpds.Library.Text
import Mathlib.Data.List.DropRight

/-!
# Structured fields

The fields of a signed request are dictionaries, whose members are items and inner lists with
parameters. What the signature covers is not the text of the field but what the parsed inner list
is serialized to.

* `parseDictionary`: a field, or `none` if it is malformed.
* `serializeInnerList`: the canonical text of an inner list.
-/

namespace Ezpds.Spaces

open Library

/-- The characters of a text. Outside ASCII a character is none of those that are looked for,
and neither is a byte of it. -/
abbrev Text := List Char

inductive Bare where
  | integer (n : Int)
  /-- Kept in its canonical form. -/
  | decimal (text : Text)
  | str (text : Text)
  | token (text : Text)
  | bytes (bytes : List UInt8)
  | bool (b : Bool)
  deriving DecidableEq

abbrev Params := List (Text × Bare)

structure Item where
  bare : Bare
  params : Params
  deriving DecidableEq

inductive Member where
  | item (item : Item)
  | innerList (items : List Item) (params : Params)
  deriving DecidableEq

abbrev Dictionary := List (Text × Member)

/-- `STANDARD` encodes, and the lenient engine of the parser decodes. -/
structure Base64Text where
  encode : List UInt8 → Text
  decode : Text → Option (List UInt8)

section Maps

variable {V : Type}

/-- The value of a key in a dictionary or among parameters. -/
def lookup (map : List (Text × V)) (key : Text) : Option V :=
  (map.find? fun e => e.1 == key).map Prod.snd

/-- A repeated key takes the new value where it stands. -/
def upsert (map : List (Text × V)) (key : Text) (value : V) : List (Text × V) :=
  match map with
  | [] => [(key, value)]
  | e :: map => if e.1 = key then (e.1, value) :: map else e :: upsert map key value

end Maps

/-! ## Characters -/

def isLowerAlpha (c : Char) : Bool :=
  'a' ≤ c && c ≤ 'z'

def isAlpha (c : Char) : Bool :=
  isLowerAlpha c || ('A' ≤ c && c ≤ 'Z')

def isKeyStart (c : Char) : Bool :=
  isLowerAlpha c || c == '*'

def isKeyChar (c : Char) : Bool :=
  isLowerAlpha c || c.isDigit || c == '_' || c == '-' || c == '.' || c == '*'

def isTokenStart (c : Char) : Bool :=
  isAlpha c || c == '*'

def isTokenChar (c : Char) : Bool :=
  isAlpha c || c.isDigit || "!#$%&'*+-.^_|~:/\x60".toList.contains c

def isBase64Char (c : Char) : Bool :=
  isAlpha c || c.isDigit || c == '+' || c == '/' || c == '='

/-- From `0x20` to `0x7e`. -/
def isPrintable (c : Char) : Bool :=
  ' ' ≤ c && c ≤ '~'

/-! ## The parser -/

def skipSp (s : Text) : Text :=
  s.dropWhile (· == ' ')

def skipOws (s : Text) : Text :=
  s.dropWhile fun c => c == ' ' || c == '\t'

namespace Parser

/-- The longest run of such characters, and what is after it. -/
def run (p : Char → Bool) (s : Text) : Text × Text :=
  (s.takeWhile p, s.dropWhile p)

def key (s : Text) : Option (Text × Text) :=
  if s.head?.any isKeyStart then some (run isKeyChar s) else none

/-- `"0"` for a text of zeros. -/
def orZero (digits : Text) : Text :=
  if digits.isEmpty then ['0'] else digits

def sign (negative : Bool) : Text :=
  if negative then ['-'] else []

/-- After the sign. -/
def unsigned (negative : Bool) (s : Text) : Option (Bare × Text) :=
  let (int, s) := run Char.isDigit s
  if int.isEmpty then none
  else
    match s with
    | '.' :: s =>
      let (frac, s) := run Char.isDigit s
      if int.length > 12 || frac.isEmpty || frac.length > 3 then none
      else some (.decimal (sign negative ++ orZero (int.dropWhile (· == '0')) ++
        '.' :: orZero (frac.rdropWhile (· == '0'))), s)
    | s =>
      if int.length > 15 then none
      else
        let n : Int := Nat.ofDigitChars 10 int 0
        some (.integer (if negative then -n else n), s)

def number (s : Text) : Option (Bare × Text) :=
  match s with
  | '-' :: s => unsigned true s
  | s => unsigned false s

/-- After the opening quote. -/
def string : Text → Option (Text × Text)
  | '\\' :: c :: s => do
    guard (c = '"' ∨ c = '\\')
    let (text, s) ← string s
    return (c :: text, s)
  | '"' :: s => some ([], s)
  | c :: s => do
    guard (isPrintable c)
    let (text, s) ← string s
    return (c :: text, s)
  | [] => none

/-- After the opening colon. -/
def bytes (base64 : Base64Text) (s : Text) : Option (Bare × Text) :=
  let (encoded, s) := run isBase64Char s
  match s with
  | ':' :: s => (base64.decode encoded).map fun bytes => (.bytes bytes, s)
  | _ => none

def boolean (s : Text) : Option (Bare × Text) :=
  match s with
  | '0' :: s => some (.bool false, s)
  | '1' :: s => some (.bool true, s)
  | _ => none

/-- The first character is part of the token, whichever of its starts it is. -/
def token (c : Char) (s : Text) : Bare × Text :=
  (.token (c :: s.takeWhile isTokenChar), s.dropWhile isTokenChar)

def bare (base64 : Base64Text) (s : Text) : Option (Bare × Text) :=
  match s with
  | [] => none
  | c :: rest =>
    if c == '-' || c.isDigit then number s
    else if c == '"' then (string rest).map fun r => (.str r.1, r.2)
    else if c == ':' then bytes base64 rest
    else if c == '?' then boolean rest
    else if isTokenStart c then some (token c rest)
    else none

/-- The value after a key; without one it is true. -/
def paramValue (base64 : Base64Text) (s : Text) : Option (Bare × Text) :=
  match s with
  | '=' :: s => bare base64 s
  | s => some (.bool true, s)

def paramsRound (base64 : Base64Text) : Params × Text →
    Option ((Params × Text) ⊕ (Params × Text))
  | (params, ';' :: s) => do
    let (name, s) ← key (skipSp s)
    let (value, s) ← paramValue base64 s
    return .inl (upsert params name value, s)
  | (params, s) => some (.inr (params, s))

def params (base64 : Base64Text) (s : Text) : Option (Params × Text) :=
  loop (paramsRound base64) (s.length + 1) ([], s)

def item (base64 : Base64Text) (s : Text) : Option (Item × Text) := do
  let (bare, s) ← bare base64 s
  let (params, s) ← params base64 s
  return (⟨bare, params⟩, s)

def endsItem (s : Text) : Bool :=
  s.head?.any fun c => c == ' ' || c == ')'

def innerRound (base64 : Base64Text) (r : List Item × Text) :
    Option ((List Item × Text) ⊕ (Member × Text)) :=
  match skipSp r.2 with
  | ')' :: s => do
    let (params, s) ← params base64 s
    return .inr (.innerList r.1 params, s)
  | s => do
    let (item, s) ← item base64 s
    guard (endsItem s)
    return .inl (r.1 ++ [item], s)

/-- After the opening bracket. -/
def innerList (base64 : Base64Text) (s : Text) : Option (Member × Text) :=
  loop (innerRound base64) (s.length + 1) ([], s)

def member (base64 : Base64Text) (s : Text) : Option (Member × Text) :=
  match s with
  | '(' :: s => innerList base64 s
  | s => (item base64 s).map fun r => (.item r.1, r.2)

/-- The value after a key; without one it is true, with parameters. -/
def memberValue (base64 : Base64Text) (s : Text) : Option (Member × Text) :=
  match s with
  | '=' :: s => member base64 s
  | s => (params base64 s).map fun r => (.item ⟨.bool true, r.1⟩, r.2)

def dictionaryRound (base64 : Base64Text) (r : Dictionary × Text) :
    Option ((Dictionary × Text) ⊕ Dictionary) :=
  if r.2.isEmpty then some (.inr r.1)
  else do
    let (name, s) ← key r.2
    let (member, s) ← memberValue base64 s
    let dict := upsert r.1 name member
    match skipOws s with
    | [] => return .inr dict
    | ',' :: s =>
      guard (!(skipOws s).isEmpty)
      return .inl (dict, skipOws s)
    | _ => none

end Parser

/-- `str::trim_matches`. -/
def trimMatches (p : Char → Bool) (s : Text) : Text :=
  (s.dropWhile p).rdropWhile p

def trimSp : Text → Text :=
  trimMatches (· == ' ')

def parseDictionary (base64 : Base64Text) (field : Text) : Option Dictionary :=
  loop (Parser.dictionaryRound base64) ((trimSp field).length + 1) ([], trimSp field)

/-! ## The canonical text -/

/-- `str::replace`, which puts a backslash before a character. -/
def escapeChar (special : Char) (text : Text) : Text :=
  text.flatMap fun c => if c = special then ['\\', c] else [c]

def escape (text : Text) : Text :=
  escapeChar '"' (escapeChar '\\' text)

/-- `i64::to_string`. -/
def signedDigits (n : Int) : Text :=
  Parser.sign (n < 0) ++ Nat.toDigits 10 n.natAbs

def serializeBare (base64 : Base64Text) : Bare → Text
  | .integer n => signedDigits n
  | .decimal text => text
  | .str text => '"' :: escape text ++ ['"']
  | .token text => text
  | .bytes bytes => ':' :: base64.encode bytes ++ [':']
  | .bool b => ['?', if b then '1' else '0']

def serializeParam (base64 : Base64Text) (e : Text × Bare) : Text :=
  match e.2 with
  | .bool true => ';' :: e.1
  | value => ';' :: e.1 ++ '=' :: serializeBare base64 value

def serializeParams (base64 : Base64Text) (params : Params) : Text :=
  params.flatMap (serializeParam base64)

def serializeItem (base64 : Base64Text) (item : Item) : Text :=
  serializeBare base64 item.bare ++ serializeParams base64 item.params

def serializeInnerList (base64 : Base64Text) (items : List Item) (params : Params) : Text :=
  '(' :: [' '].intercalate (items.map (serializeItem base64)) ++
    ')' :: serializeParams base64 params

end Ezpds.Spaces
