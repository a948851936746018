import Ezpds.Auth.ScopeSyntax
import Ezpds.Library.Except
import Ezpds.Library.SortedSet
import Mathlib.Data.List.Infix
import Mathlib.Data.Option.Basic
import Mathlib.Data.String.Basic

/-!
# The grammar of scopes

A scope request is normalized token by token. Each resource has its parameters, with their
values, defaults and the spelling that a canonical token gives them; `canonical` decides
what a token means, `normalizeToken` writes that down, and `normalizeScopeRequest` puts
the tokens of a request together.
-/

namespace Ezpds.Auth

open Library Repo

/-! ## Values -/

/-- The checks of the source look at bytes; within the ASCII set that they allow, bytes and
characters are the same. -/
def isNsid (v : String) : Bool :=
  let segments := v.toList.splitOn '.'
  let name := segments.getLastD []
  (strBytes v).length ≤ 253 + 1 + 63 &&
    v.toList.all (fun c => c.isAlphanum || c == '.' || c == '-') &&
    3 ≤ segments.length &&
    segments.all (fun l => !(l.isEmpty || l.length > 63) &&
      !(l.head? == some '-' || l.getLast? == some '-')) &&
    !((segments.headD []).head?.any Char.isDigit) &&
    !(name.head?.any Char.isDigit || name.contains '-')

def isDidPlc (v : String) : Bool :=
  (strBytes v).length == 32 && "did:plc:".toList.isPrefixOf v.toList &&
    (v.toList.drop 8).all fun c => c.isLower || ('2' ≤ c && c ≤ '7')

def isAtprotoDidWeb (v : String) : Bool :=
  if "did:web:".toList.isPrefixOf v.toList then
    let rest := v.toList.drop 8
    let hasPort := decide ("%3A".toList <:+: rest) || decide ("%3a".toList <:+: rest)
    !(rest.isEmpty || rest.head? == some ':') && !rest.contains ':' &&
      !(hasPort && !(rest == "localhost".toList ||
        "localhost%3a".toList.isPrefixOf (toAsciiLowercase rest))) &&
      rest.all fun c => c.isAlphanum || ['.', '-', '_', '%'].contains c
  else false

def isAtprotoDid (v : String) : Bool :=
  isDidPlc v || isAtprotoDidWeb v

def isAtprotoAudience (v : String) : Bool :=
  match splitOnce '#' v.toList with
  | some (did, fragment) =>
    !fragment.isEmpty && !fragment.contains '#' && isAtprotoDid (String.ofList did)
  | none => isAtprotoDid v

def isRecordKey (v : String) : Bool :=
  1 ≤ (strBytes v).length && (strBytes v).length ≤ 512 && v != "." && v != ".." &&
    v.toList.all fun c => c.isAlphanum || ['.', '_', '~', ':', '-'].contains c

def isTypeSlashSubtype (v : String) : Bool :=
  match v.toList.findIdx? (· == '/') with
  | none => false
  | some 0 => false
  | some idx =>
    idx != v.toList.length - 1 && !(v.toList.drop (idx + 1)).contains '/' &&
      !v.toList.contains ' '

def endsWithWildcard (v : String) : Bool :=
  "/*".toList.isSuffixOf v.toList

def isAccept (v : String) : Bool :=
  if v == "*/*" then true
  else if !isTypeSlashSubtype v then false
  else !v.toList.contains '*' || endsWithWildcard v

/-- `is_collection_param`, `is_lxm_param` and `is_space_type_param`. -/
def isNsidOrAny (v : String) : Bool :=
  v == "*" || isNsid v

def isSpaceAuthorityParam (v : String) : Bool :=
  v == "*" || v == "self" || isAtprotoDid v

def isSpaceSkeyParam (v : String) : Bool :=
  v == "*" || isRecordKey v

/-! ## Arguments -/

/-- The values of a required argument that may be repeated, in either spelling. -/
def collectPositionalMulti (s : ScopeSyntax) (name : String) : Option (List String) :=
  let named := s.getMulti name
  match s.positional with
  | some pos => if named.isEmpty then some [pos] else none
  | none => if named.isEmpty then none else some named

/-- The value of a required argument that may not be repeated. -/
def collectPositionalSingle (s : ScopeSyntax) (name : String) : Option String :=
  match s.positional with
  | some pos => if s.params.any fun p => p.1 == name then none else some pos
  | none =>
    match s.getSingle name with
    | some (some v) => some v
    | _ => none

/-- A parameter that has to be there once, with a valid value. -/
def requiredSingle (valid : String → Bool) (v : Option (Option String)) : Option String :=
  match v with
  | some (some v) => if valid v then some v else none
  | _ => none

/-- A parameter that may be left out. -/
def optionalSingle (valid : String → Bool) (v : Option (Option String)) :
    Option (Option String) :=
  match v with
  | none => some none
  | some (some v) => if valid v then some (some v) else none
  | some none => none

/-- The values of a closed list, in its order; `default` if there are none. -/
def pick (known default values : List String) : Option (List String) :=
  if values.isEmpty then some default
  else if values.all known.contains then some (known.filter values.contains)
  else none

/-- `*` subsumes the explicit values. -/
def collapse (values : List String) : List String :=
  if values.contains "*" then ["*"] else sortedSet values

/-- A single value is written as the positional argument, several as parameters. -/
def spell (name : String) (values : List String) : Option String × List (String × String) :=
  match values with
  | [v] => (some v, [])
  | _ => (none, values.map fun v => (name, v))

/-! ## Resources -/

def REPO_ACTIONS : List String := ["create", "update", "delete"]

def ACCOUNT_ATTRS : List String := ["email", "repo", "status"]

def ACCOUNT_ACTIONS : List String := ["read", "manage"]

def IDENTITY_ATTRS : List String := ["handle", "*"]

def SPACE_ACTIONS : List String := ["read_self", "read", "create", "update", "delete"]

def SPACE_DEFAULT_ACTIONS : List String := ["read", "create", "update", "delete"]

def SPACE_MANAGE_OPS : List String := ["create", "update", "delete"]

def STATIC_SCOPES : List String :=
  ["atproto", "transition:email", "transition:generic", "transition:chat.bsky"]

def repoSyntax (collection action : List String) : ScopeSyntax where
  scopePrefix := "repo"
  positional := (spell "collection" collection).1
  params := (spell "collection" collection).2 ++
    if action.length = REPO_ACTIONS.length then [] else action.map fun a => ("action", a)

def canonicalRepo (s : ScopeSyntax) : Option ScopeSyntax := do
  guard (keysAllowed s ["collection", "action"])
  let collection ← collectPositionalMulti s "collection"
  guard (!collection.isEmpty && collection.all isNsidOrAny)
  let action ← pick REPO_ACTIONS REPO_ACTIONS (s.getMulti "action")
  return repoSyntax (collapse collection) action

def rpcSyntax (lxm : List String) (aud : String) : ScopeSyntax where
  scopePrefix := "rpc"
  positional := (spell "lxm" lxm).1
  params := (spell "lxm" lxm).2 ++ [("aud", aud)]

def canonicalRpc (s : ScopeSyntax) : Option ScopeSyntax := do
  guard (keysAllowed s ["lxm", "aud"])
  let lxm ← collectPositionalMulti s "lxm"
  guard (!lxm.isEmpty && lxm.all isNsidOrAny)
  let aud ← requiredSingle (fun v => v == "*" || isAtprotoAudience v) (s.getSingle "aud")
  guard (!(aud == "*" && (collapse lxm).contains "*"))
  return rpcSyntax (collapse lxm) aud

/-- `str::to_lowercase`. -/
def lowerText (table : CaseTable) (v : String) : String :=
  String.ofList (table.toLowercase v.toList)

def isRedundantAccept (value : String) (set : List String) : Bool :=
  if endsWithWildcard value then false
  else
    let base := String.ofList (value.toList.takeWhile (· != '/'))
    set.any fun other => other == base ++ "/*"

/-- `*/*` subsumes everything; else what a `base/*` covers is dropped. -/
def collapseAccept (table : CaseTable) (accept : List String) : List String :=
  if accept.contains "*/*" then ["*/*"]
  else
    let unique := sortedSet (accept.map (lowerText table))
    unique.filter fun a => !isRedundantAccept a unique

def blobSyntax (accept : List String) : ScopeSyntax where
  scopePrefix := "blob"
  positional := (spell "accept" accept).1
  params := (spell "accept" accept).2

def canonicalBlob (table : CaseTable) (s : ScopeSyntax) : Option ScopeSyntax := do
  guard (keysAllowed s ["accept"])
  let accept ← collectPositionalMulti s "accept"
  guard (!accept.isEmpty && accept.all isAccept)
  return blobSyntax (collapseAccept table accept)

def accountActions (values : List String) : Option (List String) :=
  if values.isEmpty then some ["read"]
  else if values.all ACCOUNT_ACTIONS.contains then some (sortedSet values)
  else none

def accountSyntax (attr : String) (action : List String) : ScopeSyntax where
  scopePrefix := "account"
  positional := some attr
  params := if action = ["read"] then [] else action.map fun a => ("action", a)

def canonicalAccount (s : ScopeSyntax) : Option ScopeSyntax := do
  guard (keysAllowed s ["attr", "action"])
  let attr ← collectPositionalSingle s "attr"
  guard (ACCOUNT_ATTRS.contains attr)
  let action ← accountActions (s.getMulti "action")
  return accountSyntax attr action

def canonicalIdentity (s : ScopeSyntax) : Option ScopeSyntax := do
  guard (keysAllowed s ["attr"])
  let attr ← collectPositionalSingle s "attr"
  guard (IDENTITY_ATTRS.contains attr)
  return ⟨"identity", some attr, []⟩

structure SpaceGrant where
  spaceType : String
  authority : String
  skey : String
  collection : List String
  action : List String
  manage : List String
  deriving DecidableEq, Repr

def parseSpaceGrant (s : ScopeSyntax) : Option SpaceGrant := do
  guard (keysAllowed s ["type", "authority", "skey", "collection", "action", "manage"])
  let spaceType ← collectPositionalSingle s "type"
  guard (isNsidOrAny spaceType)
  let authority ← optionalSingle isSpaceAuthorityParam (s.getSingle "authority")
  let skey ← optionalSingle isSpaceSkeyParam (s.getSingle "skey")
  guard ((s.getMulti "collection").all isNsidOrAny)
  let action ← pick SPACE_ACTIONS SPACE_DEFAULT_ACTIONS (s.getMulti "action")
  let manage ← pick SPACE_MANAGE_OPS [] (s.getMulti "manage")
  return {
    spaceType
    authority := authority.getD "self"
    skey := skey.getD "*"
    collection := collapse (s.getMulti "collection")
    action
    manage }

/-- The parameters of a grant; the ones that equal their default are left out. -/
def SpaceGrant.params (grant : SpaceGrant) : List (String × String) :=
  (if grant.authority = "self" then [] else [("authority", grant.authority)]) ++
    (if grant.skey = "*" then [] else [("skey", grant.skey)]) ++
    (grant.collection.map fun c => ("collection", c)) ++
    (if grant.action = SPACE_DEFAULT_ACTIONS then []
      else grant.action.map fun a => ("action", a)) ++
    grant.manage.map fun m => ("manage", m)

def canonicalSpace (s : ScopeSyntax) : Option ScopeSyntax :=
  (parseSpaceGrant s).map fun grant => ⟨"space", some grant.spaceType, grant.params⟩

def canonicalInclude (s : ScopeSyntax) : Option ScopeSyntax := do
  guard (keysAllowed s ["nsid", "aud"])
  let nsid ← collectPositionalSingle s "nsid"
  guard (isNsid nsid)
  let aud ← optionalSingle isAtprotoAudience (s.getSingle "aud")
  return ⟨"include", some nsid, aud.toList.map fun v => ("aud", v)⟩

/-- What the `normalize_*` functions put into `format_scope`. -/
def canonical (table : CaseTable) (s : ScopeSyntax) : Option ScopeSyntax :=
  if s.scopePrefix = "repo" then canonicalRepo s
  else if s.scopePrefix = "rpc" then canonicalRpc s
  else if s.scopePrefix = "blob" then canonicalBlob table s
  else if s.scopePrefix = "account" then canonicalAccount s
  else if s.scopePrefix = "identity" then canonicalIdentity s
  else if s.scopePrefix = "space" then canonicalSpace s
  else if s.scopePrefix = "include" then canonicalInclude s
  else none

def normalizeToken (table : CaseTable) (token : List Char) : Option String :=
  if STATIC_SCOPES.contains (String.ofList token) then some (String.ofList token)
  else (canonical table (ScopeSyntax.parse token)).map fun s => String.ofList s.format

/-! ## Requests -/

/-- `requested.split(' ')`, without the empty pieces. -/
def scopeTokens (requested : String) : List (List Char) :=
  (requested.toList.splitOn ' ').filter fun token => !token.isEmpty

def normalizeRequestToken (table : CaseTable) (token : List Char) : Except String String :=
  match normalizeToken table token with
  | some normalized => .ok normalized
  | none => .error ("unsupported or malformed scope: \"" ++ String.ofList token ++ "\"")

def normalizeScopeRequest (table : CaseTable) (requested : String) : Except String String := do
  let normalized ← (scopeTokens requested).mapM (normalizeRequestToken table)
  check (!normalized.isEmpty) "scope must not be empty"
  check (normalized.contains "atproto") "the \"atproto\" scope is required"
  return " ".intercalate (sortedSet normalized)

end Ezpds.Auth
