import Ezpds.Data.Cid
import Ezpds.Data.Ipld
import Ezpds.Library.Except
import Ezpds.Repo.RecordPath
import Mathlib.Algebra.Group.Int.Defs

/-!
# Records between JSON and IPLD

`json_to_record_value` and `record_value_to_json`. The values that the first produces are
the `Importable` ones, and on them the second is a section of the first: exporting a
record and importing it again gives the same value, hence the same CID.

* `importable_iff`: the image of `json_to_record_value`.
* `recordValueToJson_error_iff`: the only values without a JSON form.
* `record_json_roundTrip`: the two together, with the re-encode check of an import.
-/

namespace Ezpds.Repo

open Library

/-- The `STANDARD` engine of the `base64` crate, which is not part of the repository. -/
structure Base64 where
  encode : List UInt8 → String
  decode : String → Except String (List UInt8)

def Base64.Lawful (b64 : Base64) : Prop :=
  ∀ bytes, b64.decode (b64.encode bytes) = .ok bytes

variable {Cid : Type} [CidText Cid]

/-- The `$link` and `$bytes` shapes of `json_to_record_value`: `none` for an object that
is an ordinary map. -/
def linkOrBytes (b64 : Base64) (fields : List (String × Json)) :
    Option (Except RecordError (Ipld Cid)) :=
  if fields.length = 1 then
    match fields.lookup "$link" with
    | some (.string cid) =>
      match CidText.tryFrom cid with
      | .ok cid => some (.ok (.link cid))
      | .error e => some (.error (.invalidRecord ("invalid $link CID: " ++ e)))
    | _ =>
      match fields.lookup "$bytes" with
      | some (.string text) =>
        match b64.decode text with
        | .ok bytes => some (.ok (.bytes bytes))
        | .error e => some (.error (.invalidRecord ("invalid $bytes base64: " ++ e)))
      | _ => none
  else none

mutual

def jsonToRecordValue (b64 : Base64) : Json → Except RecordError (Ipld Cid)
  | .null => .ok .null
  | .bool b => .ok (.bool b)
  | .number n =>
    match n.asI64 with
    | some i => .ok (.integer i)
    | none =>
      match n.asU64 with
      | some u => .ok (.integer u)
      | none => .error (.invalidRecord "floats are not allowed in ATProto records")
  | .string s => .ok (.string s)
  | .array items => do
    let items ← itemsToRecordValues b64 items
    return .list items
  | .object fields =>
    match linkOrBytes b64 fields with
    | some result => result
    | none => do
      let out ← fieldsToRecordMap b64 [] fields
      return .map out

def itemsToRecordValues (b64 : Base64) : List Json → Except RecordError (List (Ipld Cid))
  | [] => .ok []
  | j :: items => do
    let v ← jsonToRecordValue b64 j
    let vs ← itemsToRecordValues b64 items
    return v :: vs

def fieldsToRecordMap (b64 : Base64) (out : List (String × Ipld Cid)) :
    List (String × Json) → Except RecordError (List (String × Ipld Cid))
  | [] => .ok out
  | (k, j) :: fields => do
    let v ← jsonToRecordValue b64 j
    fieldsToRecordMap b64 (assocInsert k v out) fields

end

/-- `i64::try_from(i128)`. -/
def i64TryFrom (i : Int) : Option Int :=
  if -(2 ^ 63) ≤ i ∧ i < 2 ^ 63 then some i else none

/-- `u64::try_from(i128)`. -/
def u64TryFrom (i : Int) : Option Nat :=
  if 0 ≤ i ∧ i < 2 ^ 64 then some i.toNat else none

mutual

def recordValueToJson (b64 : Base64) : Ipld Cid → Except RecordError Json
  | .null => .ok .null
  | .bool b => .ok (.bool b)
  | .integer i =>
    match i64TryFrom i with
    | some i => .ok (.number (.ofI64 i))
    | none =>
      match u64TryFrom i with
      | some u => .ok (.number (.ofU64 u))
      | none =>
        .error (.invalidRecord
          ("integer " ++ toString i ++ " is outside the JSON-representable range (i64/u64)"))
  | .float bits => .ok ((Number.ofF64 bits).elim .null .number)
  | .string s => .ok (.string s)
  | .bytes bytes => .ok (.object [("$bytes", .string (b64.encode bytes))])
  | .list items => do
    let items ← recordItemsToJson b64 items
    return .array items
  | .map entries => do
    let fields ← recordEntriesToJson b64 [] entries
    return .object fields
  | .link cid => .ok (.object [("$link", .string (CidText.toText cid))])

def recordItemsToJson (b64 : Base64) : List (Ipld Cid) → Except RecordError (List Json)
  | [] => .ok []
  | v :: items => do
    let j ← recordValueToJson b64 v
    let js ← recordItemsToJson b64 items
    return j :: js

def recordEntriesToJson (b64 : Base64) (out : List (String × Json)) :
    List (String × Ipld Cid) → Except RecordError (List (String × Json))
  | [] => .ok out
  | (k, v) :: entries => do
    let j ← recordValueToJson b64 v
    recordEntriesToJson b64 (assocInsert k j out) entries

end

/-- The CID that a JSON record is stored under; `encodeRecordBlock` is
`encode_record_block`, which sees the record value only. -/
def recordCid (encodeRecordBlock : Ipld Cid → Except RecordError Cid) (b64 : Base64)
    (json : Json) : Except RecordError Cid := do
  encodeRecordBlock (← jsonToRecordValue b64 json)

/-! ## The loops -/

variable {b64 : Base64}

theorem itemsToRecordValues_eq (items : List Json) :
    @itemsToRecordValues Cid _ b64 items = items.mapM (jsonToRecordValue b64) := by
  induction items with
  | nil => simp [itemsToRecordValues, pure, Except.pure]
  | cons j items ih => rw [itemsToRecordValues, List.mapM_cons, ih]

theorem recordItemsToJson_eq (items : List (Ipld Cid)) :
    recordItemsToJson b64 items = items.mapM (recordValueToJson b64) := by
  induction items with
  | nil => simp [recordItemsToJson, pure, Except.pure]
  | cons v items ih => rw [recordItemsToJson, List.mapM_cons, ih]

theorem fieldsToRecordMap_eq (out : List (String × Ipld Cid)) (fields : List (String × Json)) :
    fieldsToRecordMap b64 out fields = mapEntries (jsonToRecordValue b64) out fields := by
  induction fields generalizing out with
  | nil => simp [fieldsToRecordMap, mapEntries]
  | cons e fields ih =>
    rw [fieldsToRecordMap, mapEntries]
    congr 1
    ext v
    rw [ih]

theorem recordEntriesToJson_eq (out : List (String × Json))
    (entries : List (String × Ipld Cid)) :
    recordEntriesToJson b64 out entries = mapEntries (recordValueToJson b64) out entries := by
  induction entries generalizing out with
  | nil => simp [recordEntriesToJson, mapEntries]
  | cons e entries ih =>
    rw [recordEntriesToJson, mapEntries]
    congr 1
    ext j
    rw [ih]

theorem jsonToRecordValue_array {items : List Json} {v : Ipld Cid} :
    jsonToRecordValue b64 (.array items) = .ok v ↔
      ∃ vs, List.Forall₂ (fun j v => jsonToRecordValue b64 j = .ok v) items vs ∧
        Ipld.list vs = v := by
  rw [jsonToRecordValue, itemsToRecordValues_eq, bind_ok]
  simp only [mapM_ok, pure, Except.pure, Except.ok.injEq]

theorem recordValueToJson_list {items : List (Ipld Cid)} {j : Json} :
    recordValueToJson b64 (.list items) = .ok j ↔
      ∃ js, List.Forall₂ (fun v j => recordValueToJson b64 v = .ok j) items js ∧
        Json.array js = j := by
  rw [recordValueToJson, recordItemsToJson_eq, bind_ok]
  simp only [mapM_ok, pure, Except.pure, Except.ok.injEq]

theorem jsonToRecordValue_map {fields : List (String × Json)} {v : Ipld Cid}
    (hSorted : KeySorted fields) (hShape : @linkOrBytes Cid _ b64 fields = none) :
    jsonToRecordValue b64 (.object fields) = .ok v ↔
      ∃ entries, List.Forall₂ (EntryRel fun j v => jsonToRecordValue b64 j = .ok v)
        fields entries ∧ Ipld.map entries = v := by
  rw [jsonToRecordValue, hShape, fieldsToRecordMap_eq]
  simp only [bind_ok, mapEntries_ok hSorted, pure, Except.pure, Except.ok.injEq]

theorem recordValueToJson_map {entries : List (String × Ipld Cid)} {j : Json}
    (hSorted : KeySorted entries) :
    recordValueToJson b64 (.map entries) = .ok j ↔
      ∃ fields, List.Forall₂ (EntryRel fun v j => recordValueToJson b64 v = .ok j)
        entries fields ∧ Json.object fields = j := by
  rw [recordValueToJson, recordEntriesToJson_eq]
  simp only [bind_ok, mapEntries_ok hSorted, pure, Except.pure, Except.ok.injEq]

/-! ## Shapes -/

/-- A map whose only entry is a `$link` or a `$bytes` with a text. -/
def LinkOrBytesShape {α : Type} (isText : α → Prop) (entries : List (String × α)) : Prop :=
  ∃ a, isText a ∧ (entries = [("$link", a)] ∨ entries = [("$bytes", a)])

theorem linkOrBytes_eq_none {fields : List (String × Json)} :
    @linkOrBytes Cid _ b64 fields = none ↔
      ¬ LinkOrBytesShape (fun j => ∃ s, j = .string s) fields := by
  match fields with
  | [] => simp [linkOrBytes, LinkOrBytesShape]
  | [(k, j)] =>
    by_cases hLink : k = "$link"
    · subst hLink
      cases j with
      | string s =>
        have hShape : LinkOrBytesShape (fun j => ∃ s, j = .string s) [("$link", Json.string s)] :=
          ⟨_, ⟨s, rfl⟩, Or.inl rfl⟩
        cases hCid : (CidText.tryFrom s : Except String Cid) with
        | ok cid => simp [linkOrBytes, hCid, hShape]
        | error e => simp [linkOrBytes, hCid, hShape]
      | _ => simp [linkOrBytes, LinkOrBytesShape, List.lookup_cons]
    · have hLookup : [(k, j)].lookup "$link" = none := by
        simp [Ne.symm hLink]
      by_cases hBytes : k = "$bytes"
      · subst hBytes
        cases j with
        | string s =>
          have hShape : LinkOrBytesShape (fun j => ∃ s, j = .string s)
              [("$bytes", Json.string s)] := ⟨_, ⟨s, rfl⟩, Or.inr rfl⟩
          cases hText : b64.decode s with
          | ok bytes => simp [linkOrBytes, hLookup, hText, hShape]
          | error e => simp [linkOrBytes, hLookup, hText, hShape]
        | _ => simp [linkOrBytes, hLookup, LinkOrBytesShape]
      · have hLookup' : [(k, j)].lookup "$bytes" = none := by
          simp [Ne.symm hBytes]
        simp [linkOrBytes, hLookup, hLookup', LinkOrBytesShape, hLink, hBytes]
  | e :: e' :: fields => simp [linkOrBytes, LinkOrBytesShape]

theorem linkOrBytes_ok {fields : List (String × Json)} {v : Ipld Cid}
    (h : linkOrBytes b64 fields = some (.ok v)) :
    (∃ cid, v = .link cid) ∨ ∃ bytes, v = .bytes bytes := by
  simp only [linkOrBytes] at h
  split at h
  · split at h
    · split at h
      · cases h
        exact Or.inl ⟨_, rfl⟩
      · cases h
    · split at h
      · split at h
        · cases h
          exact Or.inr ⟨_, rfl⟩
        · cases h
      · cases h
  · cases h

/-! ## Integers -/

/-- The integers that an `i64` or a `u64` holds. -/
def InJsonRange (i : Int) : Prop :=
  -(2 ^ 63) ≤ i ∧ i < 2 ^ 64

theorem asI64_range {n : Number} {i : Int} (h : n.asI64 = some i) : InJsonRange i := by
  cases n with
  | posInt n =>
    have hLt := n.toNat_lt
    simp only [Number.asI64] at h
    split at h
    · cases h
      constructor
      · omega
      · omega
    · cases h
  | negInt n =>
    have hLe := n.le_toInt
    have hLt := n.toInt_lt
    cases h
    constructor
    · omega
    · omega
  | float bits => cases h

theorem asU64_range {n : Number} {u : Int} (h : n.asU64 = some u) : InJsonRange u := by
  cases n with
  | posInt n =>
    have hLt := n.toNat_lt
    cases h
    constructor
    · omega
    · omega
  | negInt n => cases h
  | float bits => cases h

theorem jsonToRecordValue_number {n : Number} {v : Ipld Cid}
    (h : jsonToRecordValue b64 (.number n) = .ok v) : ∃ i, v = .integer i ∧ InJsonRange i := by
  rw [jsonToRecordValue] at h
  split at h
  · rename_i i hI
    cases h
    exact ⟨i, rfl, asI64_range hI⟩
  · split at h
    · rename_i u hU
      cases h
      exact ⟨u, rfl, asU64_range hU⟩
    · cases h

theorem asI64_ofI64 {i : Int} (h : -(2 ^ 63) ≤ i) (h' : i < 2 ^ 63) :
    (Number.ofI64 i).asI64 = some i := by
  by_cases hNeg : i < 0
  · rw [Number.ofI64, if_pos hNeg, Number.asI64]
    have hToInt : (Int64.ofInt i).toInt = i := Int64.toInt_ofInt_of_le h (by omega)
    rw [hToInt]
  · have hToNat : (UInt64.ofNat i.toNat).toNat = i.toNat := by
      rw [UInt64.toNat_ofNat']
      exact Nat.mod_eq_of_lt (by omega)
    rw [Number.ofI64, if_neg hNeg, Number.asI64, hToNat, i64Max, if_pos (by omega)]
    congr 1
    omega

theorem ofU64_reads {u : Nat} (h : 2 ^ 63 ≤ u) (h' : u < 2 ^ 64) :
    (Number.ofU64 u).asI64 = none ∧ (Number.ofU64 u).asU64 = some (u : Int) := by
  have hToNat : (UInt64.ofNat u).toNat = u := by
    rw [UInt64.toNat_ofNat']
    exact Nat.mod_eq_of_lt h'
  constructor
  · rw [Number.ofU64, Number.asI64, hToNat, i64Max, if_neg (by omega)]
  · rw [Number.ofU64, Number.asU64, hToNat]

theorem recordValueToJson_integer {i : Int} (h : InJsonRange i) :
    ∃ n, @recordValueToJson Cid _ b64 (.integer i) = .ok (.number n) ∧
      @jsonToRecordValue Cid _ b64 (.number n) = .ok (.integer i) := by
  obtain ⟨hLe, hLt⟩ := h
  by_cases hI64 : i < 2 ^ 63
  · refine ⟨.ofI64 i, ?_, ?_⟩
    · rw [recordValueToJson, i64TryFrom, if_pos ⟨hLe, hI64⟩]
    · rw [jsonToRecordValue, asI64_ofI64 hLe hI64]
  · obtain ⟨hI, hU⟩ := ofU64_reads (u := i.toNat) (by omega) (by omega)
    refine ⟨.ofU64 i.toNat, ?_, ?_⟩
    · rw [recordValueToJson, i64TryFrom, if_neg (by omega), u64TryFrom, if_pos (by omega)]
    · have hEq : (i.toNat : Int) = i := Int.toNat_of_nonneg (by omega)
      simp only [jsonToRecordValue, hI, hU, hEq]

theorem recordValueToJson_integer_error {i : Int} :
    (∃ e, @recordValueToJson Cid _ b64 (.integer i) = .error e) ↔ ¬ InJsonRange i := by
  by_cases h : InJsonRange i
  · obtain ⟨n, hn, _⟩ := @recordValueToJson_integer Cid _ b64 i h
    simp [hn, h]
  · have hI : i64TryFrom i = none := by
      rw [i64TryFrom, if_neg]
      intro hI
      exact h ⟨hI.1, by omega⟩
    have hU : u64TryFrom i = none := by
      rw [u64TryFrom, if_neg]
      intro hU
      exact h ⟨by omega, hU.2⟩
    simp [recordValueToJson, hI, hU, h]

/-! ## Texts -/

theorem jsonToRecordValue_text {j : Json} {s : String}
    (h : @jsonToRecordValue Cid _ b64 j = .ok (.string s)) : j = .string s := by
  cases j with
  | null => cases h
  | bool b => cases h
  | number n =>
    obtain ⟨i, hi, _⟩ := jsonToRecordValue_number h
    cases hi
  | string t =>
    cases h
    rfl
  | array items =>
    obtain ⟨vs, _, hvs⟩ := jsonToRecordValue_array.mp h
    cases hvs
  | object fields =>
    rw [jsonToRecordValue] at h
    split at h
    · rename_i result hShape
      rw [h] at hShape
      rcases linkOrBytes_ok hShape with ⟨_, hv⟩ | ⟨_, hv⟩
      · cases hv
      · cases hv
    · obtain ⟨out, _, hOut⟩ := bind_ok.mp h
      cases hOut

theorem recordValueToJson_text {v : Ipld Cid} {s : String}
    (h : recordValueToJson b64 v = .ok (.string s)) : v = .string s := by
  cases v with
  | null => cases h
  | bool b => cases h
  | integer i =>
    by_cases hi : InJsonRange i
    · obtain ⟨n, hn, _⟩ := @recordValueToJson_integer Cid _ b64 i hi
      rw [hn] at h
      cases h
    · obtain ⟨e, he⟩ := (@recordValueToJson_integer_error Cid _ b64 i).mpr hi
      rw [he] at h
      cases h
  | float bits =>
    rw [recordValueToJson] at h
    cases hf : Number.ofF64 bits with
    | none => simp [hf] at h
    | some n => simp [hf] at h
  | string t =>
    cases h
    rfl
  | bytes bytes => cases h
  | list items =>
    obtain ⟨js, _, hjs⟩ := recordValueToJson_list.mp h
    cases hjs
  | map entries =>
    obtain ⟨out, _, hOut⟩ := bind_ok.mp h
    cases hOut
  | link cid => cases h

/-- A text at a value comes from a text, so both conversions keep the special shapes. -/
theorem linkOrBytesShape_of_forall₂ {α β : Type} {isText : α → Prop} {isText' : β → Prop}
    {R : α → β → Prop} (hText : ∀ a b, R a b → isText' b → isText a)
    {l : List (String × α)} {l' : List (String × β)} (h : List.Forall₂ (EntryRel R) l l')
    (hShape : LinkOrBytesShape isText' l') : LinkOrBytesShape isText l := by
  obtain ⟨b, hb, hl'⟩ := hShape
  obtain ⟨k, hk, hl'⟩ : ∃ k, (k = "$link" ∨ k = "$bytes") ∧ l' = [(k, b)] := by
    rcases hl' with rfl | rfl
    · exact ⟨_, Or.inl rfl, rfl⟩
    · exact ⟨_, Or.inr rfl, rfl⟩
  subst hl'
  cases h with
  | cons hHead hTail =>
    cases hTail
    rename_i e
    obtain ⟨k', a⟩ := e
    obtain ⟨rfl, hR⟩ := hHead
    refine ⟨a, hText a b hR hb, ?_⟩
    rcases hk with rfl | rfl
    · exact Or.inl rfl
    · exact Or.inr rfl

/-! ## The image of `json_to_record_value` -/

/-- The record values that a JSON record can be converted to. -/
inductive Importable : Ipld Cid → Prop
  | null : Importable .null
  | bool (b : Bool) : Importable (.bool b)
  | integer {i : Int} (h : InJsonRange i) : Importable (.integer i)
  | string (s : String) : Importable (.string s)
  | bytes (bytes : List UInt8) : Importable (.bytes bytes)
  | link (cid : Cid) : Importable (.link cid)
  | list {items : List (Ipld Cid)} (h : ∀ v ∈ items, Importable v) : Importable (.list items)
  | map {entries : List (String × Ipld Cid)} (hSorted : KeySorted entries)
      (hShape : ¬ LinkOrBytesShape (fun v => ∃ s, v = .string s) entries)
      (h : ∀ e ∈ entries, Importable e.2) : Importable (.map entries)

theorem importable_of_json {j : Json} {v : Ipld Cid} (hj : j.WellFormed)
    (h : jsonToRecordValue b64 j = .ok v) : Importable v := by
  induction j generalizing v with
  | null =>
    cases h
    exact .null
  | bool b =>
    cases h
    exact .bool b
  | number n =>
    obtain ⟨i, rfl, hi⟩ := jsonToRecordValue_number h
    exact .integer hi
  | string s =>
    cases h
    exact .string s
  | array items ih =>
    obtain ⟨vs, hvs, rfl⟩ := jsonToRecordValue_array.mp h
    apply Importable.list
    intro v hv
    obtain ⟨j, hMem, hConv⟩ := exists_mem_of_forall₂ hvs hv
    exact ih j hMem (Json.itemsWellFormed_iff.mp hj j hMem) hConv
  | object fields ih =>
    obtain ⟨hSorted, hFields⟩ := hj
    cases hLink : @linkOrBytes Cid _ b64 fields with
    | some result =>
      rw [jsonToRecordValue, hLink] at h
      simp only at h
      rw [h] at hLink
      rcases linkOrBytes_ok hLink with ⟨cid, rfl⟩ | ⟨bytes, rfl⟩
      · exact .link cid
      · exact .bytes bytes
    | none =>
      obtain ⟨entries, hEntries, rfl⟩ := (jsonToRecordValue_map hSorted hLink).mp h
      apply Importable.map
      · rw [KeySorted, ← keys_eq_of_entryRel hEntries]
        exact hSorted
      · intro hShape
        apply (@linkOrBytes_eq_none Cid _ b64 fields).mp hLink
        apply linkOrBytesShape_of_forall₂ _ hEntries hShape
        rintro j v hConv ⟨s, rfl⟩
        exact ⟨s, jsonToRecordValue_text hConv⟩
      · intro e he
        obtain ⟨f, hMem, hConv⟩ := exists_mem_of_forall₂ hEntries he
        exact ih f hMem (Json.fieldsWellFormed_iff.mp hFields f hMem) hConv.2

theorem json_of_importable [LawfulCidText Cid] (hB64 : b64.Lawful) {v : Ipld Cid}
    (h : Importable v) :
    ∃ j : Json, recordValueToJson b64 v = .ok j ∧ j.WellFormed ∧
      jsonToRecordValue b64 j = .ok v := by
  induction h with
  | null => exact ⟨.null, rfl, trivial, rfl⟩
  | bool b => exact ⟨.bool b, rfl, trivial, rfl⟩
  | integer hi =>
    obtain ⟨n, hn, hBack⟩ := @recordValueToJson_integer Cid _ b64 _ hi
    exact ⟨.number n, hn, trivial, hBack⟩
  | string s => exact ⟨.string s, rfl, trivial, rfl⟩
  | bytes bytes =>
    refine ⟨.object [("$bytes", .string (b64.encode bytes))], rfl, ?_, ?_⟩
    · simp [Json.WellFormed, Json.FieldsWellFormed, KeySorted]
    · simp [jsonToRecordValue, linkOrBytes, hB64 bytes, List.lookup_cons]
  | link cid =>
    refine ⟨.object [("$link", .string (CidText.toText cid))], rfl, ?_, ?_⟩
    · simp [Json.WellFormed, Json.FieldsWellFormed, KeySorted]
    · simp [jsonToRecordValue, linkOrBytes]
  | @list items _ ih =>
    obtain ⟨js, hjs⟩ := forall₂_of_forall_exists ih
    have hOut := hjs.imp fun _ _ h => h.1
    have hBack := hjs.flip.imp fun _ _ h => h.2.2
    refine ⟨.array js, recordValueToJson_list.mpr ⟨js, hOut, rfl⟩, ?_,
      jsonToRecordValue_array.mpr ⟨items, hBack, rfl⟩⟩
    apply Json.itemsWellFormed_iff.mpr
    intro j hj
    obtain ⟨v, _, hv⟩ := exists_mem_of_forall₂ hjs hj
    exact hv.2.1
  | @map entries hSorted hShape _ ih =>
    obtain ⟨fields, hFields⟩ := forall₂_entryRel_of_forall_exists
      (R := fun (v : Ipld Cid) j => recordValueToJson b64 v = .ok j ∧ j.WellFormed ∧
        jsonToRecordValue b64 j = .ok v) ih
    have hOut := entryRel_mono (fun _ _ h => h.1) hFields
    have hBack := entryRel_symm (entryRel_mono (fun _ _ h => h.2.2) hFields)
    have hKeys : KeySorted fields := by
      rw [KeySorted, ← keys_eq_of_entryRel hFields]
      exact hSorted
    have hLink : @linkOrBytes Cid _ b64 fields = none := by
      apply linkOrBytes_eq_none.mpr
      intro hText
      apply hShape
      apply linkOrBytesShape_of_forall₂ _ hOut hText
      rintro v j hConv ⟨s, rfl⟩
      exact ⟨s, recordValueToJson_text hConv⟩
    refine ⟨.object fields, (recordValueToJson_map hSorted).mpr ⟨fields, hOut, rfl⟩, ?_,
      (jsonToRecordValue_map hKeys hLink).mpr ⟨entries, hBack, rfl⟩⟩
    refine ⟨hKeys, Json.fieldsWellFormed_iff.mpr ?_⟩
    intro f hf
    obtain ⟨e, _, he⟩ := exists_mem_of_forall₂ hFields hf
    exact he.2.2.1

/-- The importable values are exactly what `json_to_record_value` produces. -/
theorem importable_iff [LawfulCidText Cid] (hB64 : b64.Lawful) {v : Ipld Cid} :
    Importable v ↔ ∃ j : JsonValue, jsonToRecordValue b64 j.json = .ok v := by
  constructor
  · intro h
    obtain ⟨j, _, hWf, hBack⟩ := json_of_importable hB64 h
    exact ⟨⟨j, hWf⟩, hBack⟩
  · rintro ⟨j, h⟩
    exact importable_of_json j.wellFormed h

/-! ## Values without a JSON form -/

theorem recordValueToJson_error_iff {v : Ipld Cid} :
    (∃ e, recordValueToJson b64 v = .error e) ↔ ∃ i, v.Occurs i ∧ ¬ InJsonRange i := by
  have hNone : ∀ {w : Ipld Cid}, (∃ j, recordValueToJson b64 w = .ok j) →
      (∀ i, ¬ w.Occurs i) →
      ((∃ e, recordValueToJson b64 w = .error e) ↔ ∃ i, w.Occurs i ∧ ¬ InJsonRange i) := by
    rintro w ⟨j, hj⟩ hOccurs
    simp [hj, hOccurs]
  induction v with
  | null => exact hNone ⟨_, rfl⟩ fun i h => by cases h
  | bool b => exact hNone ⟨_, rfl⟩ fun i h => by cases h
  | integer i =>
    rw [recordValueToJson_integer_error]
    constructor
    · intro h
      exact ⟨i, .integer, h⟩
    · rintro ⟨_, hOccurs, h⟩
      cases hOccurs
      exact h
  | float bits => exact hNone ⟨_, rfl⟩ fun i h => by cases h
  | string s => exact hNone ⟨_, rfl⟩ fun i h => by cases h
  | bytes bytes => exact hNone ⟨_, rfl⟩ fun i h => by cases h
  | list items ih =>
    have hList : (∃ e, recordValueToJson b64 (.list items) = .error e) ↔
        ∃ e, items.mapM (recordValueToJson b64) = .error e := by
      rw [recordValueToJson, recordItemsToJson_eq]
      exact bind_pure_error
    rw [hList, mapM_error]
    constructor
    · rintro ⟨v, hv, hError⟩
      obtain ⟨i, hi, hRange⟩ := (ih v hv).mp hError
      exact ⟨i, .list hv hi, hRange⟩
    · rintro ⟨i, hOccurs, hRange⟩
      cases hOccurs with
      | list hv hi => exact ⟨_, hv, (ih _ hv).mpr ⟨i, hi, hRange⟩⟩
  | map entries ih =>
    have hMap : (∃ e, recordValueToJson b64 (.map entries) = .error e) ↔
        ∃ e, mapEntries (recordValueToJson b64) [] entries = .error e := by
      rw [recordValueToJson, recordEntriesToJson_eq]
      exact bind_pure_error
    rw [hMap, mapEntries_error]
    constructor
    · rintro ⟨e, he, hError⟩
      obtain ⟨i, hi, hRange⟩ := (ih e he).mp hError
      exact ⟨i, .map he hi, hRange⟩
    · rintro ⟨i, hOccurs, hRange⟩
      cases hOccurs with
      | map he hi => exact ⟨_, he, (ih _ he).mpr ⟨i, hi, hRange⟩⟩
  | link cid => exact hNone ⟨_, rfl⟩ fun i h => by cases h

/-- The JSON of a record value is well formed, even where the value is not. -/
theorem wellFormed_of_recordValueToJson {v : Ipld Cid} {j : Json}
    (h : recordValueToJson b64 v = .ok j) : j.WellFormed := by
  induction v generalizing j with
  | null =>
    cases h
    trivial
  | bool b =>
    cases h
    trivial
  | integer i =>
    rw [recordValueToJson] at h
    split at h
    · cases h
      trivial
    · split at h
      · cases h
        trivial
      · cases h
  | float bits =>
    cases h
    cases Number.ofF64 bits with
    | none => trivial
    | some n => trivial
  | string s =>
    cases h
    trivial
  | bytes bytes =>
    cases h
    exact ⟨by simp [KeySorted], trivial, trivial⟩
  | list items ih =>
    obtain ⟨js, hjs, rfl⟩ := recordValueToJson_list.mp h
    apply Json.itemsWellFormed_iff.mpr
    intro j hj
    obtain ⟨v, hv, hItem⟩ := exists_mem_of_forall₂ hjs hj
    exact ih v hv hItem
  | map entries ih =>
    rw [recordValueToJson, recordEntriesToJson_eq] at h
    obtain ⟨fields, hFields, h⟩ := bind_ok.mp h
    cases h
    obtain ⟨hSorted, hValues⟩ := @mapEntries_keySorted _ _ _ _ _ _ Json.WellFormed _ _ _ hFields
      (by simp [KeySorted]) (by simp) fun e he j hj => ih e he hj
    exact ⟨hSorted, Json.fieldsWellFormed_iff.mpr hValues⟩
  | link cid =>
    cases h
    exact ⟨by simp [KeySorted], trivial, trivial⟩

/-! ## The round trip -/

/-- Every value that JSON converts to converts back, to JSON that gives the same value and
so the same CID. The values that do not convert to JSON are those with an integer outside
the ranges of `i64` and `u64`. -/
theorem record_json_roundTrip [LawfulCidText Cid] (hB64 : b64.Lawful)
    (encodeRecordBlock : Ipld Cid → Except RecordError Cid) :
    (∀ (j : JsonValue) (v : Ipld Cid), jsonToRecordValue b64 j.json = .ok v →
      ∃ j' : JsonValue, recordValueToJson b64 v = .ok j'.json ∧
        jsonToRecordValue b64 j'.json = .ok v ∧
        recordCid encodeRecordBlock b64 j'.json = recordCid encodeRecordBlock b64 j.json) ∧
    (∀ v : Ipld Cid, (∃ e, recordValueToJson b64 v = .error e) ↔
      ∃ i, v.Occurs i ∧ ¬ InJsonRange i) := by
  constructor
  · intro j v h
    obtain ⟨j', hOut, hWf, hBack⟩ := json_of_importable hB64 (importable_of_json j.wellFormed h)
    refine ⟨⟨j', hWf⟩, hOut, hBack, ?_⟩
    rw [recordCid, recordCid, hBack, h]
  · intro v
    exact recordValueToJson_error_iff

/-- A lawful codec with the base64 text of the bytes that `sampleRecord` holds. -/
def sampleBase64 : Base64 where
  encode := fun bytes =>
    if bytes = [1, 2, 3] then "AQID"
    else String.ofList ('=' :: bytes.map fun b => Char.ofNat b.toNat)
  decode := fun text =>
    if text = "AQID" then .ok [1, 2, 3]
    else
      match text.toList with
      | '=' :: cs => .ok (cs.map fun c => UInt8.ofNat c.toNat)
      | _ => .error "Invalid input"

theorem byte_of_char (b : UInt8) : UInt8.ofNat (Char.ofNat b.toNat).toNat = b := by
  have hLt := b.toNat_lt
  have hValid : b.toNat.isValidChar := Or.inl (by omega)
  have hChar : (Char.ofNat b.toNat).toNat = b.toNat := by
    rw [Char.ofNat, dif_pos hValid]
    rfl
  rw [hChar]
  exact UInt8.ofNat_toNat

theorem sampleBase64_lawful : sampleBase64.Lawful := by
  intro bytes
  by_cases h : bytes = [1, 2, 3]
  · simp [sampleBase64, h]
  · have hText : String.ofList ('=' :: bytes.map fun b => Char.ofNat b.toNat) ≠ "AQID" := by
      intro hEq
      have hList := congrArg String.toList hEq
      simp at hList
    simp only [sampleBase64, if_neg h, if_neg hText, String.toList_ofList, List.map_map]
    congr 1
    calc bytes.map ((fun c => UInt8.ofNat c.toNat) ∘ fun b => Char.ofNat b.toNat)
        = bytes.map id := List.map_congr_left fun b _ => byte_of_char b
      _ = bytes := List.map_id bytes

def sampleRecord : Json :=
  .object [("$type", .string "app.bsky.feed.post"),
    ("blob", .object [("$bytes", .string "AQID")]),
    ("counts", .array [.number (.negInt (-1)), .number (.posInt 18446744073709551615), .null]),
    ("ref", .object [("$link", .string "bafyreie5cvv4h45feadgeuwhbcutmh6t2ceseocckahdoe6uat")])]

def sampleValue : Ipld String :=
  .map [("$type", .string "app.bsky.feed.post"),
    ("blob", .bytes [1, 2, 3]),
    ("counts", .list [.integer (-1), .integer 18446744073709551615, .null]),
    ("ref", .link "bafyreie5cvv4h45feadgeuwhbcutmh6t2ceseocckahdoe6uat")]

theorem sampleRecord_wellFormed : sampleRecord.WellFormed := by
  refine ⟨by decide, trivial, ⟨by decide, trivial, trivial⟩, ⟨trivial, trivial, trivial, trivial⟩,
    ⟨by decide, trivial, trivial⟩, trivial⟩

theorem record_json_roundTrip_sample :
    ∃ j' : JsonValue, recordValueToJson sampleBase64 sampleValue = .ok j'.json ∧
      jsonToRecordValue sampleBase64 j'.json = .ok sampleValue ∧
      recordCid (fun _ => .ok "bafyreicid") sampleBase64 j'.json =
        recordCid (fun _ => .ok "bafyreicid") sampleBase64 sampleRecord :=
  (record_json_roundTrip sampleBase64_lawful fun _ => .ok "bafyreicid").1
    ⟨sampleRecord, sampleRecord_wellFormed⟩ sampleValue rfl

end Ezpds.Repo
