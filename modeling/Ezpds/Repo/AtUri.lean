import Ezpds.Library.Text
import Ezpds.Repo.LexiconFormats

/-!
# AT-URIs and the authorities in them

`at_uri.rs`: an `at://` URI names a DID or a handle, and may go on to a collection and a
record key. The authority is taken for a DID when it begins with `did:`, and nothing is lost
by that: `validateAuthority_iff`.
-/

namespace Ezpds.Repo

open Library

structure AtUriError where
  reason : String
  deriving DecidableEq, Repr

structure AtUri where
  authority : String
  collection : Option String
  rkey : Option String
  deriving DecidableEq, Repr

/-- `str::split`, for a separator of one character. -/
def splitText (sep : Char) (s : String) : List String :=
  (s.toList.splitOn sep).map String.ofList

/-- `u8::is_ascii_lowercase` -/
def isLowercaseByte (b : UInt8) : Bool :=
  97 ≤ b && b ≤ 122

/-- `u8::is_ascii_alphabetic` -/
def isAlphaByte (b : UInt8) : Bool :=
  (65 ≤ b && b ≤ 90) || (97 ≤ b && b ≤ 122)

def isDidByte (b : UInt8) : Bool :=
  isAlphanumByte b || ['.', '-', '_', ':', '%'].any fun c => b == UInt8.ofNat c.toNat

def isLabelByte (b : UInt8) : Bool :=
  isAlphanumByte b || b == UInt8.ofNat '-'.toNat

def validateDid (did : String) : Except AtUriError Unit :=
  let invalid : AtUriError := ⟨"invalid DID authority"⟩
  if (strBytes did).length > 2048 then .error invalid
  else
    match splitOnce ':' did.toList with
    | some (scheme, rest) =>
      if scheme ≠ "did".toList then .error invalid
      else
        match splitOnce ':' rest with
        | some (method, identifier) =>
          if method.isEmpty || !(strBytes (String.ofList method)).all isLowercaseByte ||
              identifier.isEmpty || identifier.getLast? == some ':' ||
              !(strBytes (String.ofList identifier)).all isDidByte then .error invalid
          else .ok ()
        | none => .error invalid
    | none => .error invalid

def isHandleLabel (label : String) : Bool :=
  !(label.isEmpty || (strBytes label).length > 63 || label.toList.head? == some '-' ||
    label.toList.getLast? == some '-' || !(strBytes label).all isLabelByte)

def validateHandle (handle : String) : Except AtUriError Unit :=
  let invalid : AtUriError := ⟨"invalid handle authority"⟩
  if handle.isEmpty || (strBytes handle).length > 253 then .error invalid
  else
    let labels := splitText '.' handle
    if labels.length < 2 then .error invalid
    else if !labels.all isHandleLabel then .error invalid
    else if !labels.getLast?.any (fun label => (strBytes label).head?.any isAlphaByte) then
      .error invalid
    else .ok ()

def startsWith (start s : String) : Bool :=
  (stripPrefix start s).isSome

def validateAuthority (authority : String) : Except AtUriError Unit :=
  if startsWith "did:" authority then validateDid authority else validateHandle authority

/-- What follows the authority: a collection, or a collection and a record key. -/
def validatePath : List String → Except AtUriError (Option String × Option String)
  | [] => .ok (none, none)
  | [collection] =>
    match validateCollection collection with
    | .ok () => .ok (some collection, none)
    | .error _ => .error ⟨"invalid collection NSID"⟩
  | [collection, rkey] =>
    match validateRecordPath collection rkey with
    | .ok () => .ok (some collection, some rkey)
    | .error _ => .error ⟨"invalid collection or record key"⟩
  | _ => .error ⟨"too many path segments"⟩

namespace AtUri

def parse (value : String) : Except AtUriError AtUri :=
  if (strBytes value).length > 8192 then .error ⟨"URI exceeds 8192 bytes"⟩
  else
    match stripPrefix "at://" value with
    | none => .error ⟨"scheme must be `at://`"⟩
    | some rest =>
      if rest.toList.contains '#' then .error ⟨"fragments are not part of AT-URI syntax"⟩
      else
        match splitText '/' rest with
        | [] => .error ⟨"missing authority"⟩
        | authority :: parts => do
          validateAuthority authority
          let (collection, rkey) ← validatePath parts
          return { authority, collection, rkey }

end AtUri

/-! ## DIDs and handles are disjoint -/

theorem validateDid_startsWith {did : String} (h : validateDid did = .ok ()) :
    startsWith "did:" did = true := by
  unfold validateDid at h
  dsimp only at h
  split at h
  · cases h
  · split at h
    · rename_i scheme rest hSplit
      split at h
      · cases h
      · rename_i hScheme
        have hText : did.toList = "did".toList ++ ':' :: rest := by
          rw [← not_not.mp hScheme]
          exact (splitOnce_some hSplit).1
        have hStrip : stripPrefix "did:" did = some (String.ofList rest) := by
          rw [stripPrefix_some, ← String.toList_inj, String.toList_append, hText,
            @String.toList_ofList rest]
          rfl
        rw [startsWith, hStrip]
        rfl
    · cases h

theorem isHandleLabel_noColon {label : String} (h : isHandleLabel label = true) :
    ':' ∉ label.toList := by
  intro hMem
  have hByte : (58 : UInt8) ∈ strBytes label :=
    List.mem_flatMap.mpr ⟨':', hMem, by decide⟩
  simp only [isHandleLabel, Bool.not_eq_true', Bool.or_eq_false_iff, Bool.not_eq_false'] at h
  exact absurd (List.all_eq_true.mp h.2 58 hByte) (by decide)

theorem validateHandle_noColon {handle : String} (h : validateHandle handle = .ok ()) :
    ':' ∉ handle.toList := by
  unfold validateHandle at h
  dsimp only at h
  split at h
  · cases h
  · split at h
    · cases h
    · split at h
      · cases h
      · rename_i hLabels
        intro hMem
        obtain ⟨label, hLabel, hColon⟩ := exists_mem_splitOn hMem (show ':' ≠ '.' by decide)
        have hAll : (splitText '.' handle).all isHandleLabel = true := by
          simpa using hLabels
        have hOk := List.all_eq_true.mp hAll (String.ofList label)
          (List.mem_map.mpr ⟨label, hLabel, rfl⟩)
        apply isHandleLabel_noColon hOk
        rw [String.toList_ofList]
        exact hColon

/-- Trying a DID first, by its prefix, accepts every DID and every handle. -/
theorem validateAuthority_iff {authority : String} :
    validateAuthority authority = .ok () ↔
      validateDid authority = .ok () ∨ validateHandle authority = .ok () := by
  unfold validateAuthority
  split
  · rename_i hDid
    constructor
    · intro h
      exact .inl h
    · rintro (h | h)
      · exact h
      · obtain ⟨rest, hStrip⟩ := Option.isSome_iff_exists.mp hDid
        have hColon : ':' ∈ authority.toList := by
          rw [stripPrefix_some.mp hStrip, String.toList_append]
          exact List.mem_append_left _ (by decide)
        exact absurd hColon (validateHandle_noColon h)
  · rename_i hNotDid
    constructor
    · intro h
      exact .inr h
    · rintro (h | h)
      · exact absurd (validateDid_startsWith h) hNotDid
      · exact h

end Ezpds.Repo
