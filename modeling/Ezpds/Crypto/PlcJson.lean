import Ezpds.Crypto.PlcOperation
import Ezpds.Data.Json

/-!
# PLC operations as JSON

The JSON document of a signed operation, its members in the order in which they are written,
and how such a document is read: unknown and repeated members are refused, and the members
of a map are collected into an ordered one.

* `SignedPlcOp.fromJson_toJson`: an operation is read back from its document.
-/

namespace Ezpds.Crypto

open Library

variable {V : Type}

/-! ## Writing -/

def jsonTexts (l : List String) : Json :=
  .array (l.map .string)

def jsonOption : Option String → Json
  | none => .null
  | some s => .string s

def jsonMap (f : V → Json) (m : StringMap V) : Json :=
  .object ((canonicalSort m.entries).map fun e => (e.1, f e.2))

def PlcService.toJson (s : PlcService) : Json :=
  .object [("type", .string s.serviceType), ("endpoint", .string s.endpoint)]

def SignedPlcOp.toJson (op : SignedPlcOp) : Json :=
  .object [
    ("sig", .string op.sig),
    ("prev", jsonOption op.prev),
    ("type", .string op.opType),
    ("services", jsonMap PlcService.toJson op.services),
    ("alsoKnownAs", jsonTexts op.alsoKnownAs),
    ("rotationKeys", jsonTexts op.rotationKeys),
    ("verificationMethods", jsonMap .string op.verificationMethods)]

/-! ## Reading -/

def textOf : Json → Option String
  | .string s => some s
  | _ => none

def textsOf : Json → Option (List String)
  | .array items => items.mapM textOf
  | _ => none

def optionOf : Json → Option (Option String)
  | .null => some none
  | .string s => some (some s)
  | _ => none

/-- `BTreeMap::deserialize`: a later member replaces an earlier one of the same key. -/
def collectMap (entries : List (String × V)) : StringMap V :=
  entries.foldl (fun m e => m.insert e.1 e.2) SortedMap.empty

def readMember (read : Json → Option V) (e : String × Json) : Option (String × V) :=
  (read e.2).map fun v => (e.1, v)

def mapOf (read : Json → Option V) : Json → Option (StringMap V)
  | .object members => (members.mapM (readMember read)).map collectMap
  | _ => none

/-- No member of a struct is there twice. -/
def distinctMembers (known : List String) (members : List (String × Json)) : Bool :=
  decide ((members.map Prod.fst).filter known.contains).Nodup

/-- A struct is an object of its members, in which unknown ones are ignored, or an array of its
fields. -/
def PlcService.fromJson : Json → Option PlcService
  | .object members => do
    guard (distinctMembers ["type", "endpoint"] members)
    let serviceType ← members.lookup "type" >>= textOf
    let endpoint ← members.lookup "endpoint" >>= textOf
    return ⟨serviceType, endpoint⟩
  | .array [serviceType, endpoint] => do
    let serviceType ← textOf serviceType
    let endpoint ← textOf endpoint
    return ⟨serviceType, endpoint⟩
  | _ => none

def signedMembers : List String :=
  ["sig", "prev", "type", "services", "alsoKnownAs", "rotationKeys", "verificationMethods"]

def readSigned (sig prev opType services alsoKnownAs rotationKeys verificationMethods : Json) :
    Option SignedPlcOp := do
  let sig ← textOf sig
  let prev ← optionOf prev
  let opType ← textOf opType
  let services ← mapOf PlcService.fromJson services
  let alsoKnownAs ← textsOf alsoKnownAs
  let rotationKeys ← textsOf rotationKeys
  let verificationMethods ← mapOf textOf verificationMethods
  return { sig, prev, opType, services, alsoKnownAs, rotationKeys, verificationMethods }

/-- `deny_unknown_fields`; only `prev` may be left out. -/
def SignedPlcOp.fromJson : Json → Option SignedPlcOp
  | .object members => do
    guard (members.all fun e => signedMembers.contains e.1)
    guard (distinctMembers signedMembers members)
    let sig ← members.lookup "sig"
    let opType ← members.lookup "type"
    let services ← members.lookup "services"
    let alsoKnownAs ← members.lookup "alsoKnownAs"
    let rotationKeys ← members.lookup "rotationKeys"
    let verificationMethods ← members.lookup "verificationMethods"
    readSigned sig ((members.lookup "prev").getD .null) opType services alsoKnownAs rotationKeys
      verificationMethods
  | .array [sig, prev, opType, services, alsoKnownAs, rotationKeys, verificationMethods] =>
    readSigned sig prev opType services alsoKnownAs rotationKeys verificationMethods
  | _ => none

/-! ## Reading what was written -/

theorem optionOf_jsonOption (o : Option String) : optionOf (jsonOption o) = some o := by
  cases o <;> rfl

theorem textsOf_jsonTexts (l : List String) : textsOf (jsonTexts l) = some l := by
  rw [jsonTexts, textsOf]
  induction l with
  | nil => rfl
  | cons s l ih =>
    rw [List.map_cons, List.mapM_cons, ih]
    rfl

theorem PlcService.fromJson_toJson (s : PlcService) : fromJson s.toJson = some s := by
  rfl

theorem get?_foldl_insert {entries : List (String × V)} {m : StringMap V} {k : String} {v : V}
    (h : (entries.map Prod.fst).Nodup) :
    (entries.foldl (fun m e => m.insert e.1 e.2) m).get? k = some v ↔
      (k, v) ∈ entries ∨ (∀ e ∈ entries, e.1 ≠ k) ∧ m.get? k = some v := by
  induction entries generalizing m with
  | nil => simp
  | cons e entries ih =>
    rw [List.map_cons, List.nodup_cons] at h
    have hInsert : (m.insert e.1 e.2).get? k = if e.1 = k then some e.2 else m.get? k :=
      @SortedMap.get?_set _ _ _ m e.1 k (some e.2)
    rw [List.foldl_cons, ih h.2, hInsert]
    by_cases hKey : e.1 = k
    · have hFresh : ∀ d ∈ entries, d.1 ≠ k := by
        intro d hd hEq
        exact h.1 (List.mem_map.mpr ⟨d, hd, hEq.trans hKey.symm⟩)
      have hNot : (k, v) ∉ entries := fun hMem => hFresh _ hMem rfl
      rw [if_pos hKey]
      constructor
      · intro hGet
        rcases hGet with hMem | ⟨_, hValue⟩
        · exact absurd hMem hNot
        · rw [← hKey, ← Option.some.inj hValue]
          exact Or.inl List.mem_cons_self
      · intro hGet
        rcases hGet with hMem | ⟨hAll, _⟩
        · rcases List.mem_cons.mp hMem with rfl | hMem
          · exact Or.inr ⟨hFresh, rfl⟩
          · exact absurd hMem hNot
        · exact absurd hKey (hAll e List.mem_cons_self)
    · have hOther : (k, v) ≠ e := fun hEq => hKey (congrArg Prod.fst hEq).symm
      rw [if_neg hKey]
      simp [hOther, hKey]

/-- Entries of an ordered map are collected into the map, whatever their order. -/
theorem collectMap_perm {entries : List (String × V)} {m : StringMap V}
    (h : entries.Perm m.entries) : collectMap entries = m := by
  have hNodup : (entries.map Prod.fst).Nodup :=
    (h.map Prod.fst).nodup_iff.mpr (m.sorted.imp ne_of_lt)
  apply SortedMap.ext_get?
  intro k
  apply Option.ext
  intro v
  rw [collectMap, get?_foldl_insert hNodup, h.mem_iff]
  constructor
  · intro hGet
    rcases hGet with hMem | ⟨_, hNone⟩
    · exact assocGet_of_mem m.sorted hMem
    · cases hNone
  · intro hGet
    exact Or.inl (mem_of_assocGet hGet)

theorem mapM_read {read : Json → Option V} {write : V → Json}
    (h : ∀ v, read (write v) = some v) (entries : List (String × V)) :
    (entries.map fun e => (e.1, write e.2)).mapM (readMember read) = some entries := by
  induction entries with
  | nil => rfl
  | cons e entries ih =>
    have hHead : readMember read (e.1, write e.2) = some e := by
      rw [readMember, h]
      rfl
    rw [List.map_cons, List.mapM_cons, hHead, ih]
    rfl

theorem mapOf_jsonMap {read : Json → Option V} {write : V → Json}
    (h : ∀ v, read (write v) = some v) (m : StringMap V) :
    mapOf read (jsonMap write m) = some m := by
  rw [jsonMap, mapOf, mapM_read h, Option.map_some, collectMap_perm (perm_canonicalSort _)]

/-- An operation is read back from its document. -/
theorem SignedPlcOp.fromJson_toJson (op : SignedPlcOp) : fromJson op.toJson = some op := by
  have hKnown : (distinctMembers signedMembers [
      ("sig", .string op.sig), ("prev", jsonOption op.prev), ("type", .string op.opType),
      ("services", jsonMap PlcService.toJson op.services),
      ("alsoKnownAs", jsonTexts op.alsoKnownAs), ("rotationKeys", jsonTexts op.rotationKeys),
      ("verificationMethods", jsonMap .string op.verificationMethods)]) = true := by
    rfl
  rw [toJson, fromJson, hKnown]
  have hRead : readSigned (.string op.sig) (jsonOption op.prev) (.string op.opType)
      (jsonMap PlcService.toJson op.services) (jsonTexts op.alsoKnownAs)
      (jsonTexts op.rotationKeys) (jsonMap .string op.verificationMethods) = some op := by
    rw [readSigned, optionOf_jsonOption, mapOf_jsonMap PlcService.fromJson_toJson,
      textsOf_jsonTexts, textsOf_jsonTexts, @mapOf_jsonMap _ textOf .string fun _ => rfl]
    rfl
  exact hRead

end Ezpds.Crypto
