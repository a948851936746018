import Ezpds.Library.Cbor
import Ezpds.Library.Except
import Ezpds.Library.Text
import Ezpds.Spaces.LtHash

/-!
# What a space commit signs

A deniable commit is signed over the space, the author, the revision and a fresh key, each
behind its length in two bytes. The elements of the set hash have no lengths in them: there the
slashes tell the fields apart.

* `encodeSpaceCommitCtx_ok`: which contexts are written, and as what.
* `append_sep_inj`: a field without the separator is told from what follows it.
* `space_encodings_injective`: neither encoding is shared by two values.
-/

namespace Ezpds.Spaces

open Library Repo

/-- `b"atproto-space-v1"` -/
def CTX_DOMAIN : List UInt8 := strBytes "atproto-space-v1"

/-- The repository, its author and its revision. -/
structure SpaceCommitCtx where
  space : String
  author : String
  rev : String
  deriving DecidableEq

/-- `u16::to_be_bytes` -/
def u16ToBeBytes (n : UInt16) : List UInt8 :=
  [UInt8.ofNat (n.toNat / 256), UInt8.ofNat (n.toNat % 256)]

/-- `u16::try_from` -/
def u16TryFrom (n : Nat) : Option UInt16 :=
  if n ≤ 65535 then some (UInt16.ofNat n) else none

/-- One turn of the loop over the fields. -/
def extendField (out field : List UInt8) : Except CryptoError (List UInt8) :=
  match u16TryFrom field.length with
  | none => .error (.space "commit ctx field exceeds u16 length prefix")
  | some len => .ok (out ++ u16ToBeBytes len ++ field)

/-- The fields in their order. -/
def SpaceCommitCtx.fields (ctx : SpaceCommitCtx) (ikm : List UInt8) : List (List UInt8) :=
  [strBytes ctx.space, strBytes ctx.author, strBytes ctx.rev, ikm]

def encodeSpaceCommitCtx (ctx : SpaceCommitCtx) (ikm : List UInt8) :
    Except CryptoError (List UInt8) :=
  (ctx.fields ikm).foldlM extendField CTX_DOMAIN

/-! ## Fields behind their lengths -/

/-- A field as it is written. -/
def lengthPrefixed (field : List UInt8) : List UInt8 :=
  u16ToBeBytes (UInt16.ofNat field.length) ++ field

theorem extendField_ok {out field out' : List UInt8} :
    extendField out field = .ok out' ↔
      field.length ≤ 65535 ∧ out' = out ++ lengthPrefixed field := by
  unfold extendField u16TryFrom
  by_cases h : field.length ≤ 65535
  · rw [if_pos h]
    constructor
    · intro hOk
      cases hOk
      exact ⟨h, by rw [lengthPrefixed, List.append_assoc]⟩
    · rintro ⟨_, rfl⟩
      exact congrArg Except.ok (List.append_assoc _ _ _)
  · rw [if_neg h]
    constructor
    · intro hOk
      cases hOk
    · intro hOk
      exact absurd hOk.1 h

theorem foldlM_extendField_ok {fields : List (List UInt8)} {out out' : List UInt8} :
    fields.foldlM extendField out = .ok out' ↔
      (∀ field ∈ fields, field.length ≤ 65535) ∧ out' = out ++ fields.flatMap lengthPrefixed := by
  induction fields generalizing out with
  | nil =>
    simp only [List.foldlM_nil, List.flatMap_nil, List.append_nil]
    exact ⟨fun h => ⟨fun _ hf => absurd hf (by simp), pure_ok.mp h⟩,
      fun h => pure_ok.mpr h.2⟩
  | cons field fields ih =>
    rw [List.foldlM_cons, bind_ok]
    constructor
    · intro h
      obtain ⟨out₁, hField, h⟩ := h
      obtain ⟨hFits, rfl⟩ := extendField_ok.mp hField
      obtain ⟨hRest, rfl⟩ := ih.mp h
      exact ⟨List.forall_mem_cons.mpr ⟨hFits, hRest⟩, by
        rw [List.flatMap_cons, List.append_assoc]⟩
    · rintro ⟨hFits, rfl⟩
      obtain ⟨hField, hRest⟩ := List.forall_mem_cons.mp hFits
      exact ⟨_, extendField_ok.mpr ⟨hField, rfl⟩, ih.mpr ⟨hRest, by
        rw [List.flatMap_cons, List.append_assoc]⟩⟩

theorem length_of_u16ToBeBytes {n m : Nat} (hn : n ≤ 65535) (hm : m ≤ 65535)
    (h : u16ToBeBytes (UInt16.ofNat n) = u16ToBeBytes (UInt16.ofNat m)) : n = m := by
  simp only [u16ToBeBytes, List.cons.injEq, and_true] at h
  have hHigh := congrArg UInt8.toNat h.1
  have hLow := congrArg UInt8.toNat h.2
  simp only [UInt16.toNat_ofNat', UInt8.toNat_ofNat'] at hHigh hLow
  omega

/-- The length tells where a field ends. -/
theorem lengthPrefixed_append {field field' rest rest' : List UInt8}
    (hFits : field.length ≤ 65535) (hFits' : field'.length ≤ 65535)
    (h : lengthPrefixed field ++ rest = lengthPrefixed field' ++ rest') :
    field = field' ∧ rest = rest' := by
  rw [lengthPrefixed, lengthPrefixed, List.append_assoc, List.append_assoc] at h
  obtain ⟨hHead, hTail⟩ := List.append_inj h rfl
  exact List.append_inj hTail (length_of_u16ToBeBytes hFits hFits' hHead)

/-- As many fields, written one behind the other, are read back in one way only. -/
theorem flatMap_lengthPrefixed_inj {fields fields' : List (List UInt8)}
    (hLength : fields.length = fields'.length) (hFits : ∀ field ∈ fields, field.length ≤ 65535)
    (hFits' : ∀ field ∈ fields', field.length ≤ 65535)
    (h : fields.flatMap lengthPrefixed = fields'.flatMap lengthPrefixed) : fields = fields' := by
  induction fields generalizing fields' with
  | nil => exact (List.length_eq_zero_iff.mp hLength.symm).symm
  | cons field fields ih =>
    cases fields' with
    | nil => cases hLength
    | cons field' fields' =>
      rw [List.forall_mem_cons] at hFits hFits'
      rw [List.flatMap_cons, List.flatMap_cons] at h
      obtain ⟨rfl, hRest⟩ := lengthPrefixed_append hFits.1 hFits'.1 h
      rw [ih (Nat.succ.inj hLength) hFits.2 hFits'.2 hRest]

theorem encodeSpaceCommitCtx_ok {ctx : SpaceCommitCtx} {ikm bytes : List UInt8} :
    encodeSpaceCommitCtx ctx ikm = .ok bytes ↔
      (∀ field ∈ ctx.fields ikm, field.length ≤ 65535) ∧
        bytes = CTX_DOMAIN ++ (ctx.fields ikm).flatMap lengthPrefixed :=
  foldlM_extendField_ok

theorem fields_inj {ctx ctx' : SpaceCommitCtx} {ikm ikm' : List UInt8}
    (h : ctx.fields ikm = ctx'.fields ikm') : ctx = ctx' ∧ ikm = ikm' := by
  cases ctx
  cases ctx'
  simp only [SpaceCommitCtx.fields, List.cons.injEq, and_true] at h
  obtain ⟨hSpace, hAuthor, hRev, rfl⟩ := h
  rw [utf8_inj.mp hSpace, utf8_inj.mp hAuthor, utf8_inj.mp hRev]
  exact ⟨rfl, rfl⟩

/-! ## Elements of the set hash -/

theorem append_sep_inj {sep : Char} {before before' after after' : List Char}
    (hBefore : sep ∉ before) (hBefore' : sep ∉ before')
    (h : before ++ sep :: after = before' ++ sep :: after') :
    before = before' ∧ after = after' := by
  have hSplit := @splitOnce_append sep before after hBefore
  rw [h, splitOnce_append hBefore'] at hSplit
  cases hSplit
  exact ⟨rfl, rfl⟩

/-- The first slash ends the collection and the last begins the CID. -/
theorem formatSetHashElement_inj {collection rkey cid collection' rkey' cid' : String}
    (hCollection : '/' ∉ collection.toList) (hCollection' : '/' ∉ collection'.toList)
    (hCid : '/' ∉ cid.toList) (hCid' : '/' ∉ cid'.toList)
    (h : formatSetHashElement collection rkey cid =
      formatSetHashElement collection' rkey' cid') :
    collection = collection' ∧ rkey = rkey' ∧ cid = cid' := by
  have hText : collection.toList ++ '/' :: (rkey.toList ++ '/' :: cid.toList) =
      collection'.toList ++ '/' :: (rkey'.toList ++ '/' :: cid'.toList) := by
    simpa [formatSetHashElement] using congrArg String.toList h
  obtain ⟨hFirst, hRest⟩ := append_sep_inj hCollection hCollection' hText
  have hBack := congrArg List.reverse hRest
  rw [List.reverse_append, List.reverse_append, List.reverse_cons, List.reverse_cons,
    List.append_assoc, List.append_assoc] at hBack
  obtain ⟨hLast, hMiddle⟩ := append_sep_inj (by simpa using hCid) (by simpa using hCid') hBack
  exact ⟨String.toList_inj.mp hFirst, String.toList_inj.mp (List.reverse_injective hMiddle),
    String.toList_inj.mp (List.reverse_injective hLast)⟩

/-- Neither encoding is shared by two values. -/
theorem space_encodings_injective :
    (∀ ctx ikm, (∃ bytes, encodeSpaceCommitCtx ctx ikm = .ok bytes) ↔
      (strBytes ctx.space).length ≤ 65535 ∧ (strBytes ctx.author).length ≤ 65535 ∧
        (strBytes ctx.rev).length ≤ 65535 ∧ ikm.length ≤ 65535) ∧
    (∀ ctx ikm ctx' ikm' bytes, encodeSpaceCommitCtx ctx ikm = .ok bytes →
      encodeSpaceCommitCtx ctx' ikm' = .ok bytes → ctx = ctx' ∧ ikm = ikm') ∧
    ∀ collection rkey cid collection' rkey' cid' : String,
      '/' ∉ collection.toList → '/' ∉ cid.toList →
      '/' ∉ collection'.toList → '/' ∉ cid'.toList →
      formatSetHashElement collection rkey cid = formatSetHashElement collection' rkey' cid' →
      collection = collection' ∧ rkey = rkey' ∧ cid = cid' := by
  refine ⟨?_, ?_, ?_⟩
  · intro ctx ikm
    simp only [encodeSpaceCommitCtx_ok, SpaceCommitCtx.fields, List.forall_mem_cons]
    constructor
    · intro h
      obtain ⟨_, ⟨hSpace, hAuthor, hRev, hIkm, _⟩, _⟩ := h
      exact ⟨hSpace, hAuthor, hRev, hIkm⟩
    · rintro ⟨hSpace, hAuthor, hRev, hIkm⟩
      exact ⟨_, ⟨hSpace, hAuthor, hRev, hIkm, fun _ hf => absurd hf (by simp)⟩, rfl⟩
  · intro ctx ikm ctx' ikm' bytes h h'
    obtain ⟨hFits, rfl⟩ := encodeSpaceCommitCtx_ok.mp h
    obtain ⟨hFits', hEq⟩ := encodeSpaceCommitCtx_ok.mp h'
    exact fields_inj (flatMap_lengthPrefixed_inj rfl hFits hFits' (List.append_cancel_left hEq))
  · intro collection rkey cid collection' rkey' cid' hCollection hCid hCollection' hCid' h
    exact formatSetHashElement_inj hCollection hCollection' hCid hCid' h

theorem space_encodings_injective_sample :
    (∃ bytes, encodeSpaceCommitCtx ⟨"at://did:plc:a/space/n.b.c/self", "", "3l"⟩ [] = .ok bytes) ∧
      formatSetHashElement "a.b.c" "x/y" "bafy" ≠ formatSetHashElement "a.b.c" "x" "ybafy" := by
  obtain ⟨hFits, _, hElements⟩ := space_encodings_injective
  refine ⟨(hFits _ _).mpr (by decide), ?_⟩
  intro h
  have hEqual := hElements _ _ _ _ _ _ (by decide) (by decide) (by decide) (by decide) h
  exact absurd hEqual.2.2 (by decide)

end Ezpds.Spaces
