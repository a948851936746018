import Ezpds.Library.Cbor
import Ezpds.Library.SortedMap
import Mathlib.Data.String.Basic

/-!
# PLC operations

The operations of the did:plc method, and the DAG-CBOR bytes of theirs that are signed and
hashed. The fields stand in canonical order by hand, and `CanonicalMap` sorts the maps.

* `toCbor_canonical`: every map of an operation is in canonical order.
* `plcMessage_canonical`: the bytes of an operation determine it.
-/

namespace Ezpds.Crypto

open Library

/-! ## Operations -/

structure PlcService where
  serviceType : String
  endpoint : String
  deriving DecidableEq, Repr

/-- `BTreeMap<String, V>`, wrapped in `CanonicalMap` where it is written. -/
abbrev StringMap (V : Type) := SortedMap String V

@[ext] structure UnsignedPlcOp where
  prev : Option String
  opType : String
  services : StringMap PlcService
  alsoKnownAs : List String
  rotationKeys : List String
  verificationMethods : StringMap String
  deriving DecidableEq

@[ext] structure SignedPlcOp where
  sig : String
  prev : Option String
  opType : String
  services : StringMap PlcService
  alsoKnownAs : List String
  rotationKeys : List String
  verificationMethods : StringMap String
  deriving DecidableEq

@[ext] structure UnsignedPlcTombstoneOp where
  prev : String
  opType : String
  deriving DecidableEq

@[ext] structure SignedPlcTombstoneOp where
  sig : String
  prev : String
  opType : String
  deriving DecidableEq

/-! ## DAG-CBOR -/

def cborOption : Option String → CborItem
  | none => .null
  | some s => .text s

def cborTexts (l : List String) : CborItem :=
  .array (l.map .text)

/-- `CanonicalMap::serialize`. -/
def canonicalMap {V : Type} (f : V → CborItem) (m : StringMap V) : CborItem :=
  .map ((canonicalSort m.entries).map fun e => (e.1, f e.2))

def PlcService.toCbor (s : PlcService) : CborItem :=
  .map [("type", .text s.serviceType), ("endpoint", .text s.endpoint)]

def UnsignedPlcOp.toCbor (op : UnsignedPlcOp) : CborItem :=
  .map [
    ("prev", cborOption op.prev),
    ("type", .text op.opType),
    ("services", canonicalMap PlcService.toCbor op.services),
    ("alsoKnownAs", cborTexts op.alsoKnownAs),
    ("rotationKeys", cborTexts op.rotationKeys),
    ("verificationMethods", canonicalMap .text op.verificationMethods)]

def SignedPlcOp.toCbor (op : SignedPlcOp) : CborItem :=
  .map [
    ("sig", .text op.sig),
    ("prev", cborOption op.prev),
    ("type", .text op.opType),
    ("services", canonicalMap PlcService.toCbor op.services),
    ("alsoKnownAs", cborTexts op.alsoKnownAs),
    ("rotationKeys", cborTexts op.rotationKeys),
    ("verificationMethods", canonicalMap .text op.verificationMethods)]

def UnsignedPlcTombstoneOp.toCbor (op : UnsignedPlcTombstoneOp) : CborItem :=
  .map [("prev", .text op.prev), ("type", .text op.opType)]

def SignedPlcTombstoneOp.toCbor (op : SignedPlcTombstoneOp) : CborItem :=
  .map [("sig", .text op.sig), ("prev", .text op.prev), ("type", .text op.opType)]

/-- Anything that is signed or hashed. -/
inductive PlcMessage where
  | unsigned (op : UnsignedPlcOp)
  | signed (op : SignedPlcOp)
  | unsignedTombstone (op : UnsignedPlcTombstoneOp)
  | signedTombstone (op : SignedPlcTombstoneOp)
  deriving DecidableEq

def PlcMessage.toCbor : PlcMessage → CborItem
  | unsigned op => op.toCbor
  | signed op => op.toCbor
  | unsignedTombstone op => op.toCbor
  | signedTombstone op => op.toCbor

/-- `into_writer`. -/
def PlcMessage.bytes (message : PlcMessage) : List UInt8 :=
  message.toCbor.encode

/-! ## Canonical order -/

section Canonical

variable {V : Type} {f : V → CborItem} {m m' : StringMap V}

theorem cborOption_canonical (o : Option String) : (cborOption o).Canonical := by
  cases o with
  | none => exact .null
  | some s => exact .text s

theorem cborTexts_canonical (l : List String) : (cborTexts l).Canonical := by
  apply CborItem.Canonical.array
  intro i hi
  obtain ⟨s, _, rfl⟩ := List.mem_map.mp hi
  exact .text s

theorem canonicalMap_canonical (hf : ∀ v, (f v).Canonical) : (canonicalMap f m).Canonical := by
  apply CborItem.Canonical.map
  · have hNodup : (m.entries.map Prod.fst).Nodup := m.sorted.imp ne_of_lt
    have hSorted := canonicalSort_increasing hNodup
    rwa [List.map_map]
  · intro e he
    obtain ⟨d, _, rfl⟩ := List.mem_map.mp he
    exact hf d.2

/-- A struct is written in the order of its fields. -/
theorem canonical_struct {entries : List (String × CborItem)} (keys : List String)
    (hNames : entries.map Prod.fst = keys)
    (hKeys : keys.Pairwise fun a b => canonicalKey a < canonicalKey b)
    (hValues : ∀ e ∈ entries, e.2.Canonical) : (CborItem.map entries).Canonical :=
  .map (hNames ▸ hKeys) hValues

theorem PlcService.toCbor_canonical (s : PlcService) : s.toCbor.Canonical := by
  apply canonical_struct ["type", "endpoint"] rfl (by decide +kernel)
  simp [CborItem.Canonical.text]

theorem toCbor_canonical (message : PlcMessage) : message.toCbor.Canonical := by
  have hServices := fun op : StringMap PlcService =>
    @canonicalMap_canonical _ _ op PlcService.toCbor_canonical
  have hMethods := fun op : StringMap String =>
    @canonicalMap_canonical _ _ op CborItem.Canonical.text
  cases message with
  | unsigned op =>
    apply canonical_struct
      ["prev", "type", "services", "alsoKnownAs", "rotationKeys", "verificationMethods"] rfl
      (by decide +kernel)
    simp [CborItem.Canonical.text, cborOption_canonical, cborTexts_canonical, hServices, hMethods]
  | signed op =>
    apply canonical_struct
      ["sig", "prev", "type", "services", "alsoKnownAs", "rotationKeys", "verificationMethods"] rfl
      (by decide +kernel)
    simp [CborItem.Canonical.text, cborOption_canonical, cborTexts_canonical, hServices, hMethods]
  | unsignedTombstone op =>
    apply canonical_struct ["prev", "type"] rfl (by decide +kernel)
    simp [CborItem.Canonical.text]
  | signedTombstone op =>
    apply canonical_struct ["sig", "prev", "type"] rfl (by decide +kernel)
    simp [CborItem.Canonical.text]

end Canonical

/-! ## What the bytes determine -/

section Injective

variable {V : Type} {f : V → CborItem} {m m' : StringMap V}

theorem cborOption_inj {o o' : Option String} : cborOption o = cborOption o' ↔ o = o' := by
  cases o <;> cases o' <;> simp [cborOption]

theorem cborTexts_inj {l l' : List String} : cborTexts l = cborTexts l' ↔ l = l' := by
  rw [cborTexts, cborTexts, CborItem.array.injEq]
  constructor
  · intro h
    exact List.map_injective_iff.mpr (fun _ _ => CborItem.text.inj) h
  · intro h
    rw [h]

/-- A map is determined by its entries in any order. -/
theorem ext_perm (h : m.entries.Perm m'.entries) : m = m' := by
  apply SortedMap.ext_get?
  intro k
  apply Option.ext
  intro v
  have hGet : ∀ {m : StringMap V}, m.get? k = some v ↔ (k, v) ∈ m.entries := by
    intro m
    exact ⟨mem_of_assocGet, assocGet_of_mem m.sorted⟩
  rw [hGet, hGet, h.mem_iff]

theorem canonicalMap_inj (hf : Function.Injective f) :
    canonicalMap f m = canonicalMap f m' ↔ m = m' := by
  rw [canonicalMap, canonicalMap, CborItem.map.injEq]
  constructor
  · intro h
    have hEntries : canonicalSort m.entries = canonicalSort m'.entries := by
      refine List.map_injective_iff.mpr ?_ h
      intro e e' hEq
      rw [Prod.mk.injEq] at hEq
      exact Prod.ext hEq.1 (hf hEq.2)
    apply ext_perm
    have hSorted : m.entries.Perm (canonicalSort m'.entries) :=
      hEntries ▸ (perm_canonicalSort m.entries).symm
    exact hSorted.trans (perm_canonicalSort m'.entries)
  · intro h
    rw [h]

theorem PlcService.toCbor_injective : Function.Injective PlcService.toCbor := by
  intro s s' h
  cases s
  cases s'
  simpa [PlcService.toCbor] using h

theorem text_injective : Function.Injective CborItem.text := fun _ _ => CborItem.text.inj

theorem UnsignedPlcOp.toCbor_injective : Function.Injective UnsignedPlcOp.toCbor := by
  intro op op' h
  simp only [toCbor, CborItem.map.injEq, List.cons.injEq, Prod.mk.injEq, true_and, and_true,
    cborOption_inj, cborTexts_inj, CborItem.text.injEq,
    canonicalMap_inj PlcService.toCbor_injective, canonicalMap_inj text_injective] at h
  obtain ⟨hPrev, hType, hServices, hKnown, hKeys, hMethods⟩ := h
  exact UnsignedPlcOp.ext hPrev hType hServices hKnown hKeys hMethods

theorem SignedPlcOp.toCbor_injective : Function.Injective SignedPlcOp.toCbor := by
  intro op op' h
  simp only [toCbor, CborItem.map.injEq, List.cons.injEq, Prod.mk.injEq, true_and, and_true,
    cborOption_inj, cborTexts_inj, CborItem.text.injEq,
    canonicalMap_inj PlcService.toCbor_injective, canonicalMap_inj text_injective] at h
  obtain ⟨hSig, hPrev, hType, hServices, hKnown, hKeys, hMethods⟩ := h
  exact SignedPlcOp.ext hSig hPrev hType hServices hKnown hKeys hMethods

theorem UnsignedPlcTombstoneOp.toCbor_injective :
    Function.Injective UnsignedPlcTombstoneOp.toCbor := by
  intro op op' h
  simp only [toCbor, CborItem.map.injEq, List.cons.injEq, Prod.mk.injEq, true_and, and_true,
    CborItem.text.injEq] at h
  exact UnsignedPlcTombstoneOp.ext h.1 h.2

theorem SignedPlcTombstoneOp.toCbor_injective :
    Function.Injective SignedPlcTombstoneOp.toCbor := by
  intro op op' h
  simp only [toCbor, CborItem.map.injEq, List.cons.injEq, Prod.mk.injEq, true_and, and_true,
    CborItem.text.injEq] at h
  exact SignedPlcTombstoneOp.ext h.1 h.2.1 h.2.2

/-- The keys of a message tell its kind. -/
def PlcMessage.keys : PlcMessage → List String
  | unsigned _ =>
    ["prev", "type", "services", "alsoKnownAs", "rotationKeys", "verificationMethods"]
  | signed _ =>
    ["sig", "prev", "type", "services", "alsoKnownAs", "rotationKeys", "verificationMethods"]
  | unsignedTombstone _ => ["prev", "type"]
  | signedTombstone _ => ["sig", "prev", "type"]

theorem keys_toCbor (message : PlcMessage) :
    ∃ entries, message.toCbor = .map entries ∧ entries.map Prod.fst = message.keys := by
  cases message <;> exact ⟨_, rfl, rfl⟩

theorem toCbor_injective : Function.Injective PlcMessage.toCbor := by
  intro message message' h
  have hKeys : message.keys = message'.keys := by
    obtain ⟨entries, hEntries, hNames⟩ := keys_toCbor message
    obtain ⟨entries', hEntries', hNames'⟩ := keys_toCbor message'
    rw [hEntries, hEntries', CborItem.map.injEq] at h
    rw [← hNames, ← hNames', h]
  cases message with
  | unsigned op =>
    cases message' with
    | unsigned op' => rw [UnsignedPlcOp.toCbor_injective h]
    | _ => simp [PlcMessage.keys] at hKeys
  | signed op =>
    cases message' with
    | signed op' => rw [SignedPlcOp.toCbor_injective h]
    | _ => simp [PlcMessage.keys] at hKeys
  | unsignedTombstone op =>
    cases message' with
    | unsignedTombstone op' => rw [UnsignedPlcTombstoneOp.toCbor_injective h]
    | _ => simp [PlcMessage.keys] at hKeys
  | signedTombstone op =>
    cases message' with
    | signedTombstone op' => rw [SignedPlcTombstoneOp.toCbor_injective h]
    | _ => simp [PlcMessage.keys] at hKeys

end Injective

/-- Every map of an operation is written in canonical order, and operations with the same
bytes are equal. -/
theorem plcMessage_canonical :
    (∀ message : PlcMessage, message.toCbor.Canonical) ∧
      ∀ message message' : PlcMessage, message.toCbor.Fits → message'.toCbor.Fits →
        message.bytes = message'.bytes → message = message' :=
  ⟨toCbor_canonical, fun _ _ hFits hFits' h =>
    toCbor_injective (CborItem.encode_inj hFits hFits' h)⟩

theorem plcMessage_canonical_prev :
    (PlcMessage.unsignedTombstone ⟨"bafyreia", "plc_tombstone"⟩).bytes ≠
      (PlcMessage.unsignedTombstone ⟨"bafyreib", "plc_tombstone"⟩).bytes := by
  have hFits : ∀ {prev : String}, (utf8 prev).length < 2 ^ 64 →
      (PlcMessage.unsignedTombstone ⟨prev, "plc_tombstone"⟩).toCbor.Fits := by
    intro prev hPrev
    apply CborItem.Fits.map
    · simp
    · simp only [List.forall_mem_cons]
      exact ⟨by decide +kernel, by decide +kernel, fun _ h => absurd h List.not_mem_nil⟩
    · simp only [List.forall_mem_cons]
      exact ⟨.text hPrev, .text (by decide +kernel), fun _ h => absurd h List.not_mem_nil⟩
  intro hBytes
  have hEq := plcMessage_canonical.2 _ _ (hFits (by decide +kernel)) (hFits (by decide +kernel))
    hBytes
  revert hEq
  decide

end Ezpds.Crypto
