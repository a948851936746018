import Ezpds.Repo.AtUri
import Ezpds.Spaces.DelegationTokens
import Ezpds.Spaces.Store

/-!
# Space URIs

`space_uri.rs`: `at://{authority}/space/{spaceType}/{skey}` names a space, and with an author, a
collection and a record key behind it a record of the space. The URI of a space is the key of its
row, so a space has one spelling, and a URI is either of a space or of a public repository.

* `splitText_join`, `join_splitText`: segments and the text that they make.
* `splitSpaceUri_iff`: the texts that are read, and as what.
* `space_uri_canonical`: spellings, records and the two kinds of URIs.
-/

namespace Ezpds.Spaces

open Library Repo

/-- The URI of a record in the space. -/
def SpaceRef.recordUri (space : SpaceRef) (author collection rkey : String) : String :=
  space.uri ++ "/" ++ author ++ "/" ++ collection ++ "/" ++ rkey

/-- The checks of a DID, an NSID and a key that both halves of a URI are put through. -/
def validParts (did nsid key : String) : Bool :=
  DelegationTokens.isValidDid did && (validateCollection nsid).isOk && Formats.isValidRecordKey key

/-- Whatever follows the space is a complete record tail. -/
def recordTail (space : SpaceRef) : List String → Option (SpaceRef × Option Unit)
  | [] => some (space, none)
  | [author, collection, rkey] =>
    if validParts author collection rkey then some (space, some ()) else none
  | _ => none

/-- What the segments after the scheme say. -/
def fromSegments : List String → Option (SpaceRef × Option Unit)
  | authority :: literal :: spaceType :: skey :: tail =>
    if literal ≠ "space" then none
    else if !validParts authority spaceType skey then none
    else recordTail { authority, spaceType, skey } tail
  | _ => none

def splitSpaceUri (value : String) : Option (SpaceRef × Option Unit) :=
  match stripPrefix "at://" value with
  | none => none
  | some rest =>
    if rest.toList.any fun c => c == '?' || c == '#' then none
    else fromSegments (splitText '/' rest)

def parseSpaceRef (value : String) : Option SpaceRef :=
  match splitSpaceUri value with
  | some (space, none) => some space
  | _ => none

def isSpaceAtUri (value : String) : Bool :=
  (splitSpaceUri value).isSome

/-! ## Segments -/

/-- The text of segments. -/
def joinSegments (segments : List String) : String :=
  String.ofList (['/'].intercalate (segments.map String.toList))

theorem splitText_join {segments : List String} (hSome : segments ≠ [])
    (h : ∀ s ∈ segments, '/' ∉ s.toList) : splitText '/' (joinSegments segments) = segments := by
  have hParts : ∀ l ∈ segments.map String.toList, '/' ∉ l := by
    intro l hl
    obtain ⟨s, hs, rfl⟩ := List.mem_map.mp hl
    exact h s hs
  rw [splitText, joinSegments, String.toList_ofList,
    List.splitOn_intercalate '/' hParts (by simpa using hSome), List.map_map]
  simp

theorem join_splitText (s : String) : joinSegments (splitText '/' s) = s := by
  have hParts : (splitText '/' s).map String.toList = s.toList.splitOn '/' := by
    rw [splitText, List.map_map]
    simp
  rw [joinSegments, hParts, List.intercalate_splitOn, String.ofList_toList]

/-! ## What the parts are made of -/

/-- The characters that end a part of a URI. -/
def isReserved (c : Char) : Bool :=
  c == '/' || c == '?' || c == '#'

/-- An alphabet without the reserved characters. -/
theorem isReserved_of_alphabet {p : Char → Bool}
    (hAlphabet : p '/' = false ∧ p '?' = false ∧ p '#' = false) {c : Char} (hc : p c = true) :
    isReserved c = false := by
  by_contra hReserved
  simp only [isReserved, Bool.not_eq_false, Bool.or_eq_true, beq_iff_eq] at hReserved
  obtain ⟨hSlash, hQuery, hFragment⟩ := hAlphabet
  rcases hReserved with (rfl | rfl) | rfl
  · rw [hSlash] at hc
    cases hc
  · rw [hQuery] at hc
    cases hc
  · rw [hFragment] at hc
    cases hc

theorem methodIdBytes_reserved {cs : List Char} (h : DelegationTokens.methodIdBytes cs = true) :
    cs.any isReserved = false := by
  induction cs using DelegationTokens.methodIdBytes.induct with
  | case1 => rfl
  | case2 high low rest ih =>
    simp only [DelegationTokens.methodIdBytes, Bool.and_eq_true] at h
    have hHigh := isReserved_of_alphabet (p := DelegationTokens.isHexDigit) (by decide) h.1.1
    have hLow := isReserved_of_alphabet (p := DelegationTokens.isHexDigit) (by decide) h.1.2
    rw [List.any_cons, List.any_cons, List.any_cons, hHigh, hLow, ih h.2]
    decide
  | case3 c rest hNot ih =>
    rw [DelegationTokens.methodIdBytes.eq_3 _ _ hNot, Bool.and_eq_true] at h
    have hHead := isReserved_of_alphabet (p := fun c =>
      c.isAlphanum || c = '.' || c = '-' || c = '_' || c = ':') (by decide) h.1
    rw [List.any_cons, hHead, ih h.2]
    rfl

theorem isValidDid_reserved {did : String} (h : DelegationTokens.isValidDid did = true) :
    did.toList.any isReserved = false := by
  unfold DelegationTokens.isValidDid at h
  rw [Bool.and_eq_true, Bool.and_eq_true] at h
  obtain ⟨⟨_, hStart⟩, hRest⟩ := h
  obtain ⟨rest, hText⟩ := String.startsWith_string_iff.mp hStart
  rw [← hText] at hRest ⊢
  have hDrop : ("did:".toList ++ rest).drop 4 = rest := rfl
  rw [hDrop] at hRest
  split at hRest
  · cases hRest
  · rename_i method methodSpecificId hSplit
    simp only [Bool.and_eq_true, List.all_eq_true] at hRest
    obtain ⟨⟨⟨⟨_, hMethod⟩, _⟩, _⟩, hId⟩ := hRest
    have hLower : method.any isReserved = false := by
      rw [List.any_eq_false]
      intro c hc
      rw [isReserved_of_alphabet (p := Char.isLower) (by decide) (hMethod c hc)]
      decide
    rw [(splitOnce_some hSplit).1, List.any_append, List.any_append, List.any_cons, hLower,
      methodIdBytes_reserved hId]
    decide

theorem validateCollection_reserved {nsid : String} (h : (validateCollection nsid).isOk = true) :
    nsid.toList.any isReserved = false := by
  have hOk : validateCollection nsid = .ok () := by
    cases hResult : validateCollection nsid with
    | ok u => rfl
    | error e =>
      rw [hResult] at h
      cases h
  rw [List.any_eq_false]
  intro c hc
  by_cases hDot : c = '.'
  · rw [hDot]
    decide
  · rw [isReserved_of_alphabet (p := isNsidChar) (by decide) (validateCollection_ok hOk c hc hDot)]
    decide

theorem isValidRecordKey_reserved {key : String} (h : Formats.isValidRecordKey key = true) :
    key.toList.any isReserved = false := by
  unfold Formats.isValidRecordKey at h
  split at h
  · cases h
  · rw [all_isRkeyByte, List.all_eq_true] at h
    rw [List.any_eq_false]
    intro c hc
    rw [isReserved_of_alphabet (p := isRkeyChar) (by decide) (h c hc)]
    decide

/-- A part has no reserved character. -/
theorem validParts_reserved {did nsid key : String} (h : validParts did nsid key = true) :
    ∀ part ∈ [did, nsid, key], part.toList.any isReserved = false := by
  rw [validParts, Bool.and_eq_true, Bool.and_eq_true] at h
  simp only [List.forall_mem_cons]
  exact ⟨isValidDid_reserved h.1.1, validateCollection_reserved h.1.2,
    isValidRecordKey_reserved h.2, fun _ hNone => absurd hNone (by simp)⟩

/-! ## Reading a URI -/

/-- The segments of a space. -/
def spaceSegments (space : SpaceRef) : List String :=
  [space.authority, "space", space.spaceType, space.skey]

theorem uri_join (space : SpaceRef) : space.uri = "at://" ++ joinSegments (spaceSegments space) := by
  rw [← String.toList_inj, SpaceRef.uri, joinSegments, spaceSegments]
  simp [List.intercalate]

theorem recordUri_join (space : SpaceRef) (author collection rkey : String) :
    space.recordUri author collection rkey =
      "at://" ++ joinSegments (spaceSegments space ++ [author, collection, rkey]) := by
  rw [← String.toList_inj, SpaceRef.recordUri, SpaceRef.uri, joinSegments, spaceSegments]
  simp [List.intercalate]

theorem any_joinSegments {segments : List String} {p : Char → Bool} (hSlash : p '/' = false)
    (h : ∀ s ∈ segments, s.toList.any p = false) : (joinSegments segments).toList.any p = false := by
  rw [joinSegments, String.toList_ofList]
  induction segments with
  | nil => rfl
  | cons s segments ih =>
    obtain ⟨hHead, hRest⟩ := List.forall_mem_cons.mp h
    cases segments with
    | nil => simpa [List.intercalate] using hHead
    | cons t segments =>
      have hTail := ih hRest
      rw [List.map_cons] at hTail
      rw [List.map_cons, List.map_cons, List.intercalate_cons_cons, List.any_append,
        List.any_append, List.any_cons, hHead, hTail, hSlash]
      rfl

theorem fromSegments_space {space : SpaceRef}
    (h : validParts space.authority space.spaceType space.skey = true) :
    fromSegments (spaceSegments space) = some (space, none) := by
  rw [spaceSegments, fromSegments, if_neg (by simp), h, if_neg (by simp)]
  rfl

theorem fromSegments_record {space : SpaceRef} {author collection rkey : String}
    (h : validParts space.authority space.spaceType space.skey = true)
    (hTail : validParts author collection rkey = true) :
    fromSegments (spaceSegments space ++ [author, collection, rkey]) = some (space, some ()) := by
  rw [spaceSegments, List.cons_append, List.cons_append, List.cons_append, List.cons_append,
    List.nil_append, fromSegments, if_neg (by simp), h, if_neg (by simp), recordTail, if_pos hTail]

theorem fromSegments_some {segments : List String} {space : SpaceRef} {tail : Option Unit}
    (h : fromSegments segments = some (space, tail)) :
    validParts space.authority space.spaceType space.skey = true ∧
      (segments = spaceSegments space ∧ tail = none ∨
        ∃ author collection rkey, validParts author collection rkey = true ∧
          segments = spaceSegments space ++ [author, collection, rkey] ∧ tail = some ()) := by
  unfold fromSegments at h
  split at h
  · rename_i authority literal spaceType skey rest
    split at h
    · cases h
    · rename_i hLiteral
      split at h
      · cases h
      · rename_i hValid
        have hParts : validParts authority spaceType skey = true := by simpa using hValid
        unfold recordTail at h
        split at h
        · cases h
          exact ⟨hParts, .inl ⟨by rw [not_not.mp hLiteral, spaceSegments], rfl⟩⟩
        · rename_i author collection rkey
          split at h
          · rename_i hRecord
            cases h
            refine ⟨hParts, .inr ⟨author, collection, rkey, hRecord, ?_, rfl⟩⟩
            rw [not_not.mp hLiteral, spaceSegments]
            rfl
          · cases h
        · cases h
  · cases h

theorem spaceSegments_reserved {space : SpaceRef}
    (h : validParts space.authority space.spaceType space.skey = true) :
    ∀ s ∈ spaceSegments space, s.toList.any isReserved = false := by
  have hParts := validParts_reserved h
  simp only [List.forall_mem_cons] at hParts
  rw [spaceSegments]
  simp only [List.forall_mem_cons]
  exact ⟨hParts.1, by decide, hParts.2⟩

theorem recordSegments_reserved {space : SpaceRef} {author collection rkey : String}
    (h : validParts space.authority space.spaceType space.skey = true)
    (hRecord : validParts author collection rkey = true) :
    ∀ s ∈ spaceSegments space ++ [author, collection, rkey], s.toList.any isReserved = false := by
  intro s hs
  rcases List.mem_append.mp hs with hs | hs
  · exact spaceSegments_reserved h s hs
  · exact validParts_reserved hRecord s hs

theorem slash_of_reserved {segments : List String}
    (h : ∀ s ∈ segments, s.toList.any isReserved = false) : ∀ s ∈ segments, '/' ∉ s.toList := by
  intro s hs hc
  exact absurd (List.any_eq_false.mp (h s hs) '/' hc) (by decide)

theorem splitSpaceUri_join {segments : List String} (hSome : segments ≠ [])
    (h : ∀ s ∈ segments, s.toList.any isReserved = false) :
    splitSpaceUri ("at://" ++ joinSegments segments) = fromSegments segments := by
  have hPlain : (joinSegments segments).toList.any (fun c => c == '?' || c == '#') = false := by
    apply any_joinSegments (by decide)
    intro s hs
    rw [List.any_eq_false]
    intro c hc hEnd
    have hNot := List.any_eq_false.mp (h s hs) c hc
    rw [isReserved, Bool.or_assoc, hEnd, Bool.or_true] at hNot
    exact hNot rfl
  rw [splitSpaceUri, stripPrefix_some.mpr rfl]
  dsimp only
  rw [hPlain, if_neg (by simp), splitText_join hSome (slash_of_reserved h)]

/-- Reading undoes the printing, and reads nothing else. -/
theorem splitSpaceUri_iff {value : String} {space : SpaceRef} {tail : Option Unit} :
    splitSpaceUri value = some (space, tail) ↔
      validParts space.authority space.spaceType space.skey = true ∧
        (value = space.uri ∧ tail = none ∨
          ∃ author collection rkey, validParts author collection rkey = true ∧
            value = space.recordUri author collection rkey ∧ tail = some ()) := by
  constructor
  · intro h
    unfold splitSpaceUri at h
    split at h
    · cases h
    · rename_i rest hRest
      split at h
      · cases h
      · obtain ⟨hValid, hText⟩ := fromSegments_some h
        have hValue : value = "at://" ++ joinSegments (splitText '/' rest) := by
          rw [join_splitText, stripPrefix_some.mp hRest]
        refine ⟨hValid, ?_⟩
        rcases hText with ⟨hSegments, hTail⟩ | ⟨author, collection, rkey, hRecord, hSegments, hTail⟩
        · exact .inl ⟨by rw [hValue, hSegments, uri_join], hTail⟩
        · exact .inr ⟨author, collection, rkey, hRecord,
            by rw [hValue, hSegments, recordUri_join], hTail⟩
  · rintro ⟨hValid, ⟨rfl, rfl⟩ | ⟨author, collection, rkey, hRecord, rfl, rfl⟩⟩
    · have hFree := spaceSegments_reserved hValid
      rw [uri_join, splitSpaceUri_join (by simp [spaceSegments]) hFree, fromSegments_space hValid]
    · have hFree := recordSegments_reserved hValid hRecord
      rw [recordUri_join, splitSpaceUri_join (by simp [spaceSegments]) hFree,
        fromSegments_record hValid hRecord]

theorem validatePath_many {parts : List String} (h : 3 ≤ parts.length) :
    validatePath parts = .error ⟨"too many path segments"⟩ := by
  match parts, h with
  | a :: b :: c :: rest, _ => rfl

/-- A public URI has at most three segments. -/
theorem parse_join {segments : List String} {uri : AtUri} (hMany : 3 < segments.length)
    (h : ∀ s ∈ segments, s.toList.any isReserved = false) :
    AtUri.parse ("at://" ++ joinSegments segments) ≠ .ok uri := by
  intro hParsed
  have hSome : segments ≠ [] := by
    rintro rfl
    cases hMany
  unfold AtUri.parse at hParsed
  split at hParsed
  · cases hParsed
  · rw [stripPrefix_some.mpr rfl] at hParsed
    dsimp only at hParsed
    split at hParsed
    · cases hParsed
    · rw [splitText_join hSome (slash_of_reserved h)] at hParsed
      cases segments with
      | nil => exact hSome rfl
      | cons authority parts =>
        obtain ⟨_, _, hRest⟩ := bind_ok.mp hParsed
        obtain ⟨_, hPath, _⟩ := bind_ok.mp hRest
        rw [validatePath_many (Nat.le_of_lt_succ hMany)] at hPath
        cases hPath

theorem isSpaceAtUri_not_public {value : String} (h : isSpaceAtUri value = true) (uri : AtUri) :
    AtUri.parse value ≠ .ok uri := by
  obtain ⟨⟨space, tail⟩, hSplit⟩ := Option.isSome_iff_exists.mp h
  obtain ⟨hValid, ⟨rfl, _⟩ | ⟨author, collection, rkey, hRecord, rfl, _⟩⟩ :=
    splitSpaceUri_iff.mp hSplit
  · rw [uri_join]
    exact parse_join (by simp [spaceSegments]) (spaceSegments_reserved hValid)
  · rw [recordUri_join]
    exact parse_join (by simp [spaceSegments]) (recordSegments_reserved hValid hRecord)

theorem parseSpaceRef_some {value : String} {space : SpaceRef} :
    parseSpaceRef value = some space ↔ splitSpaceUri value = some (space, none) := by
  unfold parseSpaceRef
  split
  · rename_i found hSplit
    rw [hSplit]
    simp
  · rename_i hNone
    constructor
    · intro h
      cases h
    · intro h
      exact absurd h (hNone space)

/-- A space has one spelling, its records are read back, and no URI is of both kinds. -/
theorem space_uri_canonical :
    (∀ value space, parseSpaceRef value = some space → space.uri = value) ∧
      (∀ value space tail author collection rkey, splitSpaceUri value = some (space, tail) →
        validParts author collection rkey = true →
        isSpaceAtUri (space.recordUri author collection rkey) = true ∧
          splitSpaceUri (space.recordUri author collection rkey) = some (space, some ())) ∧
      ∀ value uri, isSpaceAtUri value = true → AtUri.parse value ≠ .ok uri := by
  refine ⟨?_, ?_, fun value uri h => isSpaceAtUri_not_public h uri⟩
  · intro value space h
    obtain ⟨_, ⟨hText, _⟩ | ⟨_, _, _, _, _, hTail⟩⟩ := splitSpaceUri_iff.mp (parseSpaceRef_some.mp h)
    · exact hText.symm
    · cases hTail
  · intro value space tail author collection rkey h hRecord
    have hRead : splitSpaceUri (space.recordUri author collection rkey) = some (space, some ()) :=
      splitSpaceUri_iff.mpr ⟨(splitSpaceUri_iff.mp h).1,
        .inr ⟨author, collection, rkey, hRecord, rfl, rfl⟩⟩
    exact ⟨by rw [isSpaceAtUri, hRead]; rfl, hRead⟩

/-! A post in a group. -/

def sampleGroup : SpaceRef := ⟨"did:plc:ewvi7nxzyoun6zhxrhs64oiz", "app.bsky.group", "default"⟩

theorem space_uri_canonical_sample :
    sampleGroup.uri = "at://did:plc:ewvi7nxzyoun6zhxrhs64oiz/space/app.bsky.group/default" ∧
      isSpaceAtUri (sampleGroup.recordUri "did:plc:author" "app.bsky.feed.post" "3k") = true ∧
      ∀ uri, AtUri.parse (sampleGroup.recordUri "did:plc:author" "app.bsky.feed.post" "3k") ≠
        .ok uri := by
  obtain ⟨hCanonical, hRecords, hDisjoint⟩ := space_uri_canonical
  have hParsed : parseSpaceRef "at://did:plc:ewvi7nxzyoun6zhxrhs64oiz/space/app.bsky.group/default" =
      some sampleGroup := by decide +kernel
  have hRecord := (hRecords _ sampleGroup none "did:plc:author" "app.bsky.feed.post" "3k"
    (parseSpaceRef_some.mp hParsed) (by decide +kernel)).1
  exact ⟨hCanonical _ _ hParsed, hRecord, fun uri => hDisjoint _ uri hRecord⟩

end Ezpds.Spaces
