import Ezpds.Auth.ScopeRequests

/-!
# Permission checks of scopes

What the tokens of a scope permit, for each kind of request. The checks read the tokens
themselves, so they decide again what a spelling means.

* `splitWhitespace_token`: a token without whitespace is a scope of its own.
* `format_not_whitespace`: a token that was written is one.
-/

namespace Ezpds.Auth

open Library Repo

/-! ## Grants and requests -/

/-- `lxm_matches` -/
def lxmMatches (grant lxm : String) : Bool :=
  grant == "*" || grant == lxm

/-- The DID of an audience, without its fragment. -/
def audDid (aud : String) : String :=
  match splitOnce '#' aud.toList with
  | some (did, _) => String.ofList did
  | none => aud

def audMatches (params : List (String × String)) (aud : String) : Bool :=
  match params.find? fun p => p.1 == "aud" with
  | some p => p.2 == "*" || audDid p.2 == audDid aud
  | none => false

def acceptMatches (grant mimeType : String) : Bool :=
  let grant := toAsciiLowercase grant.toList
  let mimeType := toAsciiLowercase mimeType.toList
  grant == "*/*".toList || grant == mimeType ||
    ("/*".toList.isSuffixOf grant &&
      (grant.take (grant.length - 2) ++ ['/']).isPrefixOf mimeType)

/-- One token of `allows_rpc`. -/
def rpcTokenAllows (token : List Char) (lxm aud : String) : Bool :=
  if token == "transition:chat.bsky".toList then "chat.bsky.".toList.isPrefixOf lxm.toList
  else
    let syntaxTree := ScopeSyntax.parse token
    if syntaxTree.scopePrefix == "rpc" then
      match syntaxTree.positional with
      | some pos => lxmMatches pos lxm && audMatches syntaxTree.params aud
      | none =>
        let lxms := syntaxTree.getMulti "lxm"
        !lxms.isEmpty && lxms.any (lxmMatches · lxm) && audMatches syntaxTree.params aud
    else false

/-- One token of `allows_blob`. -/
def blobTokenAllows (token : List Char) (mimeType : String) : Bool :=
  let syntaxTree := ScopeSyntax.parse token
  if syntaxTree.scopePrefix == "blob" then
    match syntaxTree.positional with
    | some pos => acceptMatches pos mimeType
    | none => (syntaxTree.getMulti "accept").any (acceptMatches · mimeType)
  else false

def accountTokenAllowsAction (token : List Char) (attr action : String) : Bool :=
  let syntaxTree := ScopeSyntax.parse token
  match syntaxTree.positional with
  | some pos =>
    if syntaxTree.scopePrefix == "account" && pos == attr then
      let actions := syntaxTree.getMulti "action"
      if actions.isEmpty then action == "read" else actions.contains action
    else false
  | none => false

/-- One token of `allows_identity`. -/
def identityTokenAllows (token : List Char) (attr : String) : Bool :=
  let syntaxTree := ScopeSyntax.parse token
  match syntaxTree.positional with
  | some pos => syntaxTree.scopePrefix == "identity" && (pos == "*" || pos == attr)
  | none => false

inductive SpaceOp where
  | read
  | readSelf
  | record (action : RepoAction) (collection : String)
  | manage (op : RepoAction)
  deriving DecidableEq, Repr

/-- A space operation, with what the defaults of a grant are resolved against. -/
structure SpaceRequest where
  spaceType : String
  authority : String
  skey : String
  op : SpaceOp
  accountDid : String
  declaredCollections : List String
  deriving DecidableEq, Repr

def SpaceGrant.collectionAllows (grant : SpaceGrant) (collection : String) (req : SpaceRequest) :
    Bool :=
  if grant.collection.isEmpty then
    grant.spaceType != "*" && req.declaredCollections.contains collection
  else grant.collection.any fun c => c == "*" || c == collection

def SpaceGrant.matches (grant : SpaceGrant) (req : SpaceRequest) : Bool :=
  let authority := if grant.authority == "self" then req.accountDid else grant.authority
  if grant.spaceType != "*" && grant.spaceType != req.spaceType then false
  else if authority != "*" && authority != req.authority then false
  else if grant.skey != "*" && grant.skey != req.skey then false
  else
    match req.op with
    | .read => grant.action.contains "read"
    | .readSelf => grant.action.any fun a => a == "read" || a == "read_self"
    | .record action collection =>
      grant.action.contains action.asStr && grant.collectionAllows collection req
    | .manage op => grant.manage.contains op.asStr

/-- One token of `allows_space`. -/
def spaceTokenAllows (token : List Char) (req : SpaceRequest) : Bool :=
  let syntaxTree := ScopeSyntax.parse token
  syntaxTree.scopePrefix == "space" && (parseSpaceGrant syntaxTree).any (·.matches req)

/-! ## Scopes -/

def allowsRpc (scope lxm aud : String) : Bool :=
  hasTransitionGeneric scope || (splitWhitespace scope).any (rpcTokenAllows · lxm aud)

def allowsBlob (scope mimeType : String) : Bool :=
  hasTransitionGeneric scope || (splitWhitespace scope).any (blobTokenAllows · mimeType)

def allowsAccount (scope attr action : String) : Bool :=
  hasTransitionGeneric scope ||
    (splitWhitespace scope).any (accountTokenAllowsAction · attr action)

def allowsIdentity (scope attr : String) : Bool :=
  (splitWhitespace scope).any (identityTokenAllows · attr)

def allowsSpace (scope : String) (req : SpaceRequest) : Bool :=
  (splitWhitespace scope).any (spaceTokenAllows · req)

/-- Anything that a scope is asked for. -/
inductive ScopeQuestion where
  | repo (collection : String) (action : RepoAction)
  | rpc (lxm aud : String)
  | blob (mimeType : String)
  | account (attr action : String)
  | identity (attr : String)
  | space (req : SpaceRequest)

def allows (scope : String) : ScopeQuestion → Bool
  | .repo collection action => allowsRepo scope collection action
  | .rpc lxm aud => allowsRpc scope lxm aud
  | .blob mimeType => allowsBlob scope mimeType
  | .account attr action => allowsAccount scope attr action
  | .identity attr => allowsIdentity scope attr
  | .space req => allowsSpace scope req

/-- The answer that one token gives. -/
def tokenAllows (token : List Char) : ScopeQuestion → Bool
  | .repo collection action =>
    token == "transition:generic".toList || repoTokenAllows token collection action
  | .rpc lxm aud => token == "transition:generic".toList || rpcTokenAllows token lxm aud
  | .blob mimeType => token == "transition:generic".toList || blobTokenAllows token mimeType
  | .account attr action =>
    token == "transition:generic".toList || accountTokenAllowsAction token attr action
  | .identity attr => identityTokenAllows token attr
  | .space req => spaceTokenAllows token req

/-! ## One token -/

variable {token : List Char}

theorem splitWhitespace_token (hNonempty : token ≠ [])
    (h : ∀ c ∈ token, isWhitespace c = false) :
    splitWhitespace (String.ofList token) = [token] := by
  have hSplit : token.splitOnP isWhitespace = [token] := by
    exact List.splitOnP_eq_singleton h
  rw [splitWhitespace, String.toList_ofList, hSplit]
  simp [hNonempty]

/-- A scope of one token answers as the token does. -/
theorem allows_token (hNonempty : token ≠ []) (h : ∀ c ∈ token, isWhitespace c = false)
    (question : ScopeQuestion) :
    allows (String.ofList token) question = tokenAllows token question := by
  have hSplit := splitWhitespace_token hNonempty h
  have hGeneric : hasTransitionGeneric (String.ofList token) =
      (token == "transition:generic".toList) := by
    rw [hasTransitionGeneric, hSplit]
    simp
  cases question <;>
    simp [allows, tokenAllows, allowsRepo, allowsRpc, allowsBlob, allowsAccount, allowsIdentity,
      allowsSpace, hGeneric, hSplit]

theorem isWhitespace_of_component {ch : Char} (h : isComponentChar ch = true) :
    isWhitespace ch = false := by
  have hAscii : ch.toNat < 128 := by
    rw [isComponentChar, Bool.or_eq_true] at h
    rcases h with h | h
    · exact isAlphanum_ascii h
    · have hEach : ("-_.~!*'():/+,@%".toList.all fun d => decide (d.toNat < 128)) = true := by
        decide +kernel
      simpa using List.all_eq_true.mp hEach ch (List.contains_iff_mem.mp h)
  exact @ascii_cases (fun ch => isComponentChar ch = true → isWhitespace ch = false)
    (by decide +kernel) ch hAscii h

theorem format_not_whitespace {s : ScopeSyntax} (h : s.Plain) {ch : Char} (hc : ch ∈ s.format) :
    isWhitespace ch = false := by
  rcases format_chars h hc with hc | hc
  · exact isWhitespace_of_component hc
  · have hEach : (['?', '=', '&'].all fun d => !isWhitespace d) = true := by
      decide +kernel
    simpa using List.all_eq_true.mp hEach ch hc

end Ezpds.Auth
