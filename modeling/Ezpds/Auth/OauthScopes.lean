import Ezpds.Data.ApiError
import Ezpds.Library.Text
import Ezpds.Repo.RecordPath

/-!
# Granular scopes of repository writes

The `scope` claim of an OAuth token is a list of tokens such as
`repo:app.bsky.feed.post?action=update`. `requireRepo` decides a write of one action on
one collection from the claim alone; it never sees the repository.

* `requireRepo_ok`: a granted write.
* `Allows`: what a token may do, with the sessions that carry no granular grant.
-/

namespace Ezpds.Auth

open Library Repo

/-! ## Percent decoding -/

def isUtf8Cont (b : UInt8) : Bool :=
  0x80 ≤ b && b ≤ 0xBF

/-- Whether `c` may follow the first byte `b` of a sequence of three bytes. -/
def isThreeByteSecond (b c : UInt8) : Bool :=
  if b = 0xE0 then 0xA0 ≤ c && c ≤ 0xBF
  else if b = 0xED then 0x80 ≤ c && c ≤ 0x9F
  else isUtf8Cont c

/-- Whether `c` may follow the first byte `b` of a sequence of four bytes. -/
def isFourByteSecond (b c : UInt8) : Bool :=
  if b = 0xF0 then 0x90 ≤ c && c ≤ 0xBF
  else if b = 0xF4 then 0x80 ≤ c && c ≤ 0x8F
  else isUtf8Cont c

/-- U+FFFD. -/
def replacementChar : Char :=
  Char.ofNat 0xFFFD

/-- `String::from_utf8_lossy`: every maximal ill-formed part becomes one replacement
character. -/
def fromUtf8Lossy : List UInt8 → List Char
  | [] => []
  | b :: rest =>
    if b < 0x80 then Char.ofNat b.toNat :: fromUtf8Lossy rest
    else if 0xC2 ≤ b && b ≤ 0xDF then
      match rest with
      | c :: tail =>
        if isUtf8Cont c then
          Char.ofNat ((b.toNat - 0xC0) * 64 + (c.toNat - 0x80)) :: fromUtf8Lossy tail
        else replacementChar :: fromUtf8Lossy (c :: tail)
      | [] => [replacementChar]
    else if 0xE0 ≤ b && b ≤ 0xEF then
      match rest with
      | c :: tail =>
        if isThreeByteSecond b c then
          match tail with
          | d :: tail' =>
            if isUtf8Cont d then
              Char.ofNat ((b.toNat - 0xE0) * 4096 + (c.toNat - 0x80) * 64 + (d.toNat - 0x80)) ::
                fromUtf8Lossy tail'
            else replacementChar :: fromUtf8Lossy (d :: tail')
          | [] => [replacementChar]
        else replacementChar :: fromUtf8Lossy (c :: tail)
      | [] => [replacementChar]
    else if 0xF0 ≤ b && b ≤ 0xF4 then
      match rest with
      | c :: tail =>
        if isFourByteSecond b c then
          match tail with
          | d :: tail' =>
            if isUtf8Cont d then
              match tail' with
              | e :: tail'' =>
                if isUtf8Cont e then
                  Char.ofNat ((b.toNat - 0xF0) * 262144 + (c.toNat - 0x80) * 4096 +
                    (d.toNat - 0x80) * 64 + (e.toNat - 0x80)) :: fromUtf8Lossy tail''
                else replacementChar :: fromUtf8Lossy (e :: tail'')
              | [] => [replacementChar]
            else replacementChar :: fromUtf8Lossy (d :: tail')
          | [] => [replacementChar]
        else replacementChar :: fromUtf8Lossy (c :: tail)
      | [] => [replacementChar]
    else replacementChar :: fromUtf8Lossy rest

/-- `char::to_digit(16)`. -/
def hexDigit (b : UInt8) : Option Nat :=
  if 48 ≤ b && b ≤ 57 then some (b.toNat - 48)
  else if 97 ≤ b && b ≤ 102 then some (b.toNat - 87)
  else if 65 ≤ b && b ≤ 70 then some (b.toNat - 55)
  else none

/-- The loop of `percent_decode`; 37 is `%`. -/
def percentDecodeBytes : List UInt8 → List UInt8
  | [] => []
  | b :: rest =>
    match rest with
    | hi :: lo :: tail =>
      if b = 37 then
        match hexDigit hi, hexDigit lo with
        | some hi, some lo => UInt8.ofNat (hi * 16 + lo) :: percentDecodeBytes tail
        | _, _ => b :: percentDecodeBytes (hi :: lo :: tail)
      else b :: percentDecodeBytes (hi :: lo :: tail)
    | [c] => [b, c]
    | [] => [b]

def percentDecode (input : List Char) : String :=
  String.ofList (fromUtf8Lossy (percentDecodeBytes (input.flatMap String.utf8EncodeChar)))

/-! ## Scope syntax -/

structure ScopeSyntax where
  scopePrefix : String
  positional : Option String
  params : List (String × String)
  deriving DecidableEq, Repr

def parseQuery (query : List Char) : List (String × String) :=
  ((query.splitOn '&').filter fun seg => !seg.isEmpty).map fun seg =>
    match splitOnce '=' seg with
    | some (k, v) => (percentDecode k, percentDecode v)
    | none => (percentDecode seg, "")

def ScopeSyntax.parse (token : List Char) : ScopeSyntax :=
  let colon := token.findIdx? (· == ':')
  let question := token.findIdx? (· == '?')
  let prefixEnd := match colon, question with
    | some c, some q => some (min c q)
    | some c, none => some c
    | none, some q => some q
    | none, none => none
  match prefixEnd with
  | none => { scopePrefix := String.ofList token, positional := none, params := [] }
  | some prefixEnd =>
    { scopePrefix := String.ofList (token.take prefixEnd)
      positional := match colon, question with
        | some c, some q =>
          if c < q then some (percentDecode ((token.take q).drop (c + 1))) else none
        | some c, none => some (percentDecode (token.drop (c + 1)))
        | none, _ => none
      params := match question with
        | some q => if q + 1 < token.length then parseQuery (token.drop (q + 1)) else []
        | none => [] }

/-! ## Repository grants -/

inductive RepoAction where
  | create
  | update
  | delete
  deriving DecidableEq, Repr

def RepoAction.asStr : RepoAction → String
  | create => "create"
  | update => "update"
  | delete => "delete"

def collectionMatches (grant collection : String) : Bool :=
  grant == "*" || grant == collection

def repoActionsMatch (params : List (String × String)) (action : RepoAction) : Bool :=
  let actions := (params.filter fun p => p.1 == "action").map Prod.snd
  actions.isEmpty || actions.contains action.asStr

def hasTransitionGeneric (scope : String) : Bool :=
  (splitWhitespace scope).any fun token => token == "transition:generic".toList

/-- One token of `allows_repo`. -/
def repoTokenAllows (token : List Char) (collection : String) (action : RepoAction) : Bool :=
  let syntaxTree := ScopeSyntax.parse token
  if syntaxTree.scopePrefix == "repo" then
    match syntaxTree.positional with
    | some pos => collectionMatches pos collection && repoActionsMatch syntaxTree.params action
    | none =>
      let collections := (syntaxTree.params.filter fun p => p.1 == "collection").map Prod.snd
      !collections.isEmpty && collections.any (collectionMatches · collection) &&
        repoActionsMatch syntaxTree.params action
  else false

def allowsRepo (scope collection : String) (action : RepoAction) : Bool :=
  hasTransitionGeneric scope ||
    (splitWhitespace scope).any fun token => repoTokenAllows token collection action

/-- The `scope` claim of a full-access session token. -/
def scopeAccess : String := "com.atproto.access"

def requireRepo (scope collection : String) (action : RepoAction) : Except ApiError Unit :=
  if scope == scopeAccess || allowsRepo scope collection action then .ok ()
  else .error ⟨.insufficientScope, "token scope does not permit this repo write"⟩

/-! ## Authenticated users -/

inductive AuthScope where
  | access
  | refresh
  | appPass
  | appPassPrivileged
  deriving DecidableEq, Repr

def AuthScope.isAccess : AuthScope → Bool
  | access => true
  | appPass => true
  | appPassPrivileged => true
  | refresh => false

/-- The claims of a valid token that the write routes read. -/
structure AuthenticatedUser where
  did : String
  scope : AuthScope
  scopeClaim : String
  registrationId : Option String
  deriving DecidableEq, Repr

/-- The scope check of a write route: app-password sessions carry no granular grant. -/
def checkRepoScope (user : AuthenticatedUser) (collection : String) (action : RepoAction) :
    Except ApiError Unit :=
  if user.scope = .access then requireRepo user.scopeClaim collection action else .ok ()

/-- The token permits the action on the collection. -/
def Allows (user : AuthenticatedUser) (collection : String) (action : RepoAction) : Prop :=
  user.scope.isAccess = true ∧ checkRepoScope user collection action = .ok ()

end Ezpds.Auth
