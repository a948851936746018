import Ezpds.Repo.RecordValue

/-!
# The data-model oracle

`data_model::validate`: is a JSON value a well-formed value of the data model, whatever its
lexicon? The rules are stated here for one value at a time (`Rule`), and a record is sound
when everything nested in it satisfies them.

An accepted record can break a rule in two ways only. The walk does not enter the further
fields of a blob, and a number such as `1e300` passes as an integer although it fits neither
machine type. `accepted_sound_iff` says that there is no third way.
-/

namespace Ezpds.Repo

open Library

structure DataModelError where
  path : String
  reason : String
  deriving DecidableEq, Repr

namespace DataModel

def child (path key : String) : String :=
  if path.isEmpty then key else path ++ "/" ++ key

def validateNumber (n : Number) (path : String) : Except DataModelError Unit :=
  if n.asI64.isSome || n.asU64.isSome then .ok ()
  else
    match n.asF64 with
    | some f =>
      if f.den = 1 then .ok ()
      else .error ⟨path, "number must be an integer (the data model has no floats)"⟩
    | none => .error ⟨path, "number must be an integer (the data model has no floats)"⟩

section Walk

variable (Cid : Type) [CidText Cid] (b64 : Base64)

def validateCidLink (map : List (String × Json)) (path : String) :
    Except DataModelError Unit :=
  if map.length ≠ 1 then .error ⟨path, "a `$link` object must have exactly one key"⟩
  else
    match map.lookup "$link" with
    | some (.string s) =>
      match (CidText.tryFrom s : Except String Cid) with
      | .ok _ => .ok ()
      | .error e => .error ⟨path, "`$link` is not a valid CID: " ++ e⟩
    | _ => .error ⟨path, "`$link` must be a string"⟩

def validateBytes (map : List (String × Json)) (path : String) : Except DataModelError Unit :=
  if map.length ≠ 1 then .error ⟨path, "a `$bytes` object must have exactly one key"⟩
  else
    match map.lookup "$bytes" with
    | some (.string s) =>
      match b64.decode s with
      | .ok _ => .ok ()
      | .error e => .error ⟨path, "`$bytes` is not valid base64: " ++ e⟩
    | _ => .error ⟨path, "`$bytes` must be a string"⟩

def validateBlobRef (map : List (String × Json)) (path : String) : Except DataModelError Unit :=
  match map.lookup "ref" with
  | some (.object r) =>
    if (r.lookup "$link").isSome then validateCidLink Cid r (child path "ref")
    else .error ⟨path, "blob `ref` must be a CID link (`\x7b\"$link\": …\x7d`)"⟩
  | some _ => .error ⟨path, "blob `ref` must be a CID link (`\x7b\"$link\": …\x7d`)"⟩
  | none => .error ⟨path, "blob is missing the `ref` key"⟩

def validateBlobMime (map : List (String × Json)) (path : String) :
    Except DataModelError Unit :=
  match map.lookup "mimeType" with
  | some (.string _) => .ok ()
  | some _ => .error ⟨path, "blob `mimeType` must be a string"⟩
  | none => .error ⟨path, "blob is missing the `mimeType` key"⟩

def validateBlobSize (map : List (String × Json)) (path : String) :
    Except DataModelError Unit :=
  match map.lookup "size" with
  | some (.number n) =>
    if n.asI64.isSome || n.asU64.isSome then .ok ()
    else .error ⟨path, "blob `size` must be an integer"⟩
  | some _ => .error ⟨path, "blob `size` must be an integer"⟩
  | none => .error ⟨path, "blob is missing the `size` key"⟩

def validateBlob (map : List (String × Json)) (path : String) : Except DataModelError Unit := do
  validateBlobRef Cid map path
  validateBlobMime map path
  validateBlobSize map path

def validateType (map : List (String × Json)) (path : String) : Except DataModelError Unit :=
  match map.lookup "$type" with
  | some (.string s) =>
    if s.isEmpty then .error ⟨path, "`$type` must be a non-empty string"⟩ else .ok ()
  | some _ => .error ⟨path, "`$type` must be a non-empty string"⟩
  | none => .ok ()

/-- `validate_object`, where `fields` is the walk over the values of the map. -/
def validateObject (map : List (String × Json)) (path : String)
    (fields : Except DataModelError Unit) : Except DataModelError Unit :=
  if (map.lookup "$link").isSome then validateCidLink Cid map path
  else if (map.lookup "$bytes").isSome then validateBytes b64 map path
  else if (map.lookup "$type").bind Json.asStr = some "blob" then validateBlob Cid map path
  else do
    validateType map path
    fields

mutual

def validateValue (path : String) : Json → Except DataModelError Unit
  | .null => .ok ()
  | .bool _ => .ok ()
  | .string _ => .ok ()
  | .number n => validateNumber n path
  | .array items => validateItems path 0 items
  | .object map => validateObject Cid b64 map path (validateFields path map)

def validateItems (path : String) (i : Nat) : List Json → Except DataModelError Unit
  | [] => .ok ()
  | item :: items => do
    validateValue (child path (toString i)) item
    validateItems path (i + 1) items

def validateFields (path : String) : List (String × Json) → Except DataModelError Unit
  | [] => .ok ()
  | (k, v) :: fields => do
    validateValue (child path k) v
    validateFields path fields

end

def validate (value : Json) : Except DataModelError Unit :=
  match value with
  | .object _ => validateValue Cid b64 "" value
  | _ => .error ⟨"", "top-level value must be an object"⟩

/-! ## The rules -/

def LinkShape (map : List (String × Json)) : Prop :=
  ∃ s c, map = [("$link", .string s)] ∧ (CidText.tryFrom s : Except String Cid) = .ok c

def BytesShape (map : List (String × Json)) : Prop :=
  ∃ s bytes, map = [("$bytes", .string s)] ∧ b64.decode s = .ok bytes

/-- The integers that the data model can hold. -/
def IntegerInRange (n : Number) : Prop :=
  ∃ i, n.integer = some i ∧ InJsonRange i

structure BlobShape (map : List (String × Json)) : Prop where
  ref : ∃ r, map.lookup "ref" = some (.object r) ∧ LinkShape Cid r
  mimeType : ∃ s, map.lookup "mimeType" = some (.string s)
  size : ∃ n, map.lookup "size" = some (.number n) ∧ IntegerInRange n

def IsBlob (map : List (String × Json)) : Prop :=
  map.lookup "$type" = some (.string "blob")

structure MapRule (map : List (String × Json)) : Prop where
  link : (map.lookup "$link").isSome → LinkShape Cid map
  bytes : (map.lookup "$bytes").isSome → BytesShape b64 map
  type : ∀ t, map.lookup "$type" = some t → ∃ s, t = .string s ∧ s ≠ ""
  blob : IsBlob map → BlobShape Cid map

/-- What the module asks of one value, whatever it is nested in. -/
def Rule : Json → Prop
  | .number n => IntegerInRange n
  | .object map => MapRule Cid b64 map
  | _ => True

/-- Everything in the value satisfies the rules. -/
def Sound (value : Json) : Prop :=
  ∀ x, Json.Within x value → Rule Cid b64 x

/-- The fields of a blob that its shape does not speak about. -/
def furtherFields (map : List (String × Json)) : List (String × Json) :=
  map.filter fun e => !(["$type", "ref", "mimeType", "size"].contains e.1)

/-- The further fields of the blobs are sound, and no integer is out of range. -/
structure NothingHidden (value : Json) : Prop where
  blobs : ∀ map, Json.Within (.object map) value → IsBlob map →
    ∀ e ∈ furtherFields map, Sound Cid b64 e.2
  integers : ∀ n i, Json.Within (.number n) value → n.integer = some i → InJsonRange i

/-! ## What the checks establish -/

variable {Cid b64} {map : List (String × Json)} {path : String} {value : Json}

omit [CidText Cid] in
theorem integer_of_asI64 {n : Number} {i : Int} (h : n.asI64 = some i) : n.integer = some i := by
  cases n with
  | posInt n => exact (Option.ite_none_right_eq_some.mp h).2
  | negInt n => exact h
  | float bits => cases h

omit [CidText Cid] in
theorem integer_of_asU64 {n : Number} {u : Int} (h : n.asU64 = some u) : n.integer = some u := by
  cases n with
  | posInt n => exact h
  | negInt n => cases h
  | float bits => cases h

omit [CidText Cid] in
theorem machine_integer_inRange {n : Number} (h : n.asI64.isSome || n.asU64.isSome) :
    IntegerInRange n := by
  rcases Bool.or_eq_true_iff.mp h with h | h
  · obtain ⟨i, hi⟩ := Option.isSome_iff_exists.mp h
    exact ⟨i, integer_of_asI64 hi, asI64_range hi⟩
  · obtain ⟨u, hu⟩ := Option.isSome_iff_exists.mp h
    exact ⟨u, integer_of_asU64 hu, asU64_range hu⟩

omit [CidText Cid] in
theorem validateNumber_ok {n : Number} (h : validateNumber n path = .ok ()) :
    ∃ i, n.integer = some i := by
  unfold validateNumber at h
  split at h
  · rename_i hMachine
    obtain ⟨i, hi, _⟩ := machine_integer_inRange hMachine
    exact ⟨i, hi⟩
  · cases n with
    | posInt n => exact ⟨_, rfl⟩
    | negInt n => exact ⟨_, rfl⟩
    | float bits =>
      split at h
      · rename_i f hValue
        split at h
        · rename_i hDen
          refine ⟨f.num, ?_⟩
          show (Binary64.value bits).bind Binary64.integral = some f.num
          rw [show Binary64.value bits = some f from hValue, Option.bind_some, Binary64.integral,
            if_pos hDen]
        · cases h
      · cases h

theorem singleton_of_lookup {k : String} {v : Json} (hLength : map.length = 1)
    (h : map.lookup k = some v) : map = [(k, v)] := by
  obtain ⟨⟨k', v'⟩, rfl⟩ := List.length_eq_one_iff.mp hLength
  rw [List.lookup_cons] at h
  split at h
  · rename_i hEq
    cases h
    rw [beq_iff_eq.mp hEq]
  · cases h

theorem validateCidLink_ok (h : validateCidLink Cid map path = .ok ()) : LinkShape Cid map := by
  unfold validateCidLink at h
  split at h
  · cases h
  · rename_i hLength
    split at h
    · rename_i s hLookup
      split at h
      · rename_i c hParse
        exact ⟨s, c, singleton_of_lookup (not_not.mp hLength) hLookup, hParse⟩
      · cases h
    · cases h

theorem validateBytes_ok (h : validateBytes b64 map path = .ok ()) : BytesShape b64 map := by
  unfold validateBytes at h
  split at h
  · cases h
  · rename_i hLength
    split at h
    · rename_i s hLookup
      split at h
      · rename_i bytes hDecode
        exact ⟨s, bytes, singleton_of_lookup (not_not.mp hLength) hLookup, hDecode⟩
      · cases h
    · cases h

theorem validateBlobRef_ok (h : validateBlobRef Cid map path = .ok ()) :
    ∃ r, map.lookup "ref" = some (.object r) ∧ LinkShape Cid r := by
  unfold validateBlobRef at h
  split at h
  · rename_i r hLookup
    split at h
    · exact ⟨r, hLookup, validateCidLink_ok h⟩
    · cases h
  · cases h
  · cases h

theorem validateBlobMime_ok (h : validateBlobMime map path = .ok ()) :
    ∃ s, map.lookup "mimeType" = some (.string s) := by
  unfold validateBlobMime at h
  split at h
  · rename_i s hLookup
    exact ⟨s, hLookup⟩
  · cases h
  · cases h

theorem validateBlobSize_ok (h : validateBlobSize map path = .ok ()) :
    ∃ n, map.lookup "size" = some (.number n) ∧ IntegerInRange n := by
  unfold validateBlobSize at h
  split at h
  · rename_i n hLookup
    split at h
    · rename_i hMachine
      exact ⟨n, hLookup, machine_integer_inRange hMachine⟩
    · cases h
  · cases h
  · cases h

theorem validateBlob_ok (h : validateBlob Cid map path = .ok ()) : BlobShape Cid map := by
  obtain ⟨_, hRef, h⟩ := bind_ok.mp h
  obtain ⟨_, hMime, hSize⟩ := bind_ok.mp h
  exact ⟨validateBlobRef_ok hRef, validateBlobMime_ok hMime, validateBlobSize_ok hSize⟩

theorem validateType_ok (h : validateType map path = .ok ()) {t : Json}
    (ht : map.lookup "$type" = some t) : ∃ s, t = .string s ∧ s ≠ "" := by
  unfold validateType at h
  rw [ht] at h
  split at h
  · rename_i s hLookup
    cases hLookup
    split at h
    · cases h
    · rename_i hEmpty
      exact ⟨s, rfl, by simpa using hEmpty⟩
  · cases h
  · rename_i hLookup
    cases hLookup

theorem mapRule_of_link (h : LinkShape Cid map) : MapRule Cid b64 map := by
  obtain ⟨s, c, rfl, hParse⟩ := h
  exact ⟨fun _ => ⟨s, c, rfl, hParse⟩, fun hBytes => absurd hBytes Bool.false_ne_true,
    nofun, nofun⟩

theorem mapRule_of_bytes (h : BytesShape b64 map) : MapRule Cid b64 map := by
  obtain ⟨s, bytes, rfl, hDecode⟩ := h
  exact ⟨fun hLink => absurd hLink Bool.false_ne_true, fun _ => ⟨s, bytes, rfl, hDecode⟩,
    nofun, nofun⟩

/-- The walk enters the values of a map, unless the map is a link, a byte string or a blob. -/
theorem validateObject_ok {fields : Except DataModelError Unit}
    (h : validateObject Cid b64 map path fields = .ok ()) :
    MapRule Cid b64 map ∧
      (fields = .ok () ∨ LinkShape Cid map ∨ BytesShape b64 map ∨ IsBlob map) := by
  unfold validateObject at h
  split at h
  · have hShape := validateCidLink_ok h
    exact ⟨mapRule_of_link hShape, .inr (.inl hShape)⟩
  · rename_i hNoLink
    split at h
    · have hShape := validateBytes_ok h
      exact ⟨mapRule_of_bytes hShape, .inr (.inr (.inl hShape))⟩
    · rename_i hNoBytes
      split at h
      · rename_i hType
        obtain ⟨t, hLookup, hStr⟩ := Option.bind_eq_some_iff.mp hType
        have hBlob : IsBlob map := by
          cases t with
          | string s =>
            cases hStr
            exact hLookup
          | _ => cases hStr
        refine ⟨⟨fun hLink => absurd hLink hNoLink, fun hBytes => absurd hBytes hNoBytes, ?_,
          fun _ => validateBlob_ok h⟩, .inr (.inr (.inr hBlob))⟩
        intro t' ht'
        rw [hBlob] at ht'
        cases ht'
        exact ⟨"blob", rfl, by decide⟩
      · rename_i hNotBlob
        obtain ⟨_, hType, hFields⟩ := bind_ok.mp h
        refine ⟨⟨fun hLink => absurd hLink hNoLink, fun hBytes => absurd hBytes hNoBytes,
          fun t ht => validateType_ok hType ht, ?_⟩, .inl hFields⟩
        intro hBlob
        rw [IsBlob] at hBlob
        rw [hBlob] at hNotBlob
        exact absurd rfl hNotBlob

theorem validateItems_ok {items : List Json} {i : Nat}
    (h : validateItems Cid b64 path i items = .ok ()) {item : Json} (hItem : item ∈ items) :
    ∃ path', validateValue Cid b64 path' item = .ok () := by
  induction items generalizing i with
  | nil => cases hItem
  | cons head tail ih =>
    rw [validateItems] at h
    obtain ⟨_, hHead, hTail⟩ := bind_ok.mp h
    rcases List.mem_cons.mp hItem with rfl | hItem
    · exact ⟨_, hHead⟩
    · exact ih hTail hItem

theorem validateFields_ok {fields : List (String × Json)}
    (h : validateFields Cid b64 path fields = .ok ()) {e : String × Json} (he : e ∈ fields) :
    ∃ path', validateValue Cid b64 path' e.2 = .ok () := by
  induction fields with
  | nil => cases he
  | cons head tail ih =>
    obtain ⟨k, v⟩ := head
    rw [validateFields] at h
    obtain ⟨_, hHead, hTail⟩ := bind_ok.mp h
    rcases List.mem_cons.mp he with rfl | he
    · exact ⟨_, hHead⟩
    · exact ih hTail he

/-! ## Soundness -/

theorem NothingHidden.mono {x : Json} (h : NothingHidden Cid b64 value)
    (hWithin : ∀ y, Json.Within y x → Json.Within y value) : NothingHidden Cid b64 x where
  blobs := fun map hMap => h.blobs map (hWithin _ hMap)
  integers := fun n i hNumber => h.integers n i (hWithin _ hNumber)

theorem sound_string {s : String} : Sound Cid b64 (.string s) := by
  intro x hx
  cases hx
  trivial

/-- The rule of a map and the soundness of its values are the soundness of the map. -/
theorem sound_object (hMap : MapRule Cid b64 map) (hFields : ∀ e ∈ map, Sound Cid b64 e.2) :
    Sound Cid b64 (.object map) := by
  intro x hx
  cases hx with
  | self => exact hMap
  | field he hx => exact hFields _ he x hx

theorem sound_link (h : LinkShape Cid map) : ∀ e ∈ map, Sound Cid b64 e.2 := by
  obtain ⟨s, c, rfl, _⟩ := h
  intro e he
  cases List.mem_singleton.mp he
  exact sound_string

theorem sound_bytes (h : BytesShape b64 map) : ∀ e ∈ map, Sound Cid b64 e.2 := by
  obtain ⟨s, bytes, rfl, _⟩ := h
  intro e he
  cases List.mem_singleton.mp he
  exact sound_string

omit [CidText Cid] in
theorem lookup_of_mem (hSorted : KeySorted map) {e : String × Json} (he : e ∈ map) :
    map.lookup e.1 = some e.2 :=
  lookup_of_nodup (hSorted.imp ne_of_lt) he

/-- The fields that the shape of a blob speaks about are sound, and the further ones are
when nothing is hidden there. -/
theorem sound_blob (hSorted : KeySorted map) (hBlob : IsBlob map) (h : BlobShape Cid map)
    (hFurther : ∀ e ∈ furtherFields map, Sound Cid b64 e.2) :
    ∀ e ∈ map, Sound Cid b64 e.2 := by
  intro e he
  have hLookup := lookup_of_mem hSorted he
  by_cases hType : e.1 = "$type"
  · rw [hType, hBlob] at hLookup
    rw [← Option.some.inj hLookup]
    exact sound_string
  by_cases hRef : e.1 = "ref"
  · obtain ⟨r, hR, hShape⟩ := h.ref
    rw [hRef, hR] at hLookup
    rw [← Option.some.inj hLookup]
    exact sound_object (mapRule_of_link hShape) (sound_link hShape)
  by_cases hMime : e.1 = "mimeType"
  · obtain ⟨s, hS⟩ := h.mimeType
    rw [hMime, hS] at hLookup
    rw [← Option.some.inj hLookup]
    exact sound_string
  by_cases hSize : e.1 = "size"
  · obtain ⟨n, hN, hRange⟩ := h.size
    rw [hSize, hN] at hLookup
    rw [← Option.some.inj hLookup]
    intro x hx
    cases hx
    exact hRange
  · apply hFurther e
    rw [furtherFields, List.mem_filter]
    exact ⟨he, by simp [hType, hRef, hMime, hSize]⟩

/-- By induction on the value: what the walk enters is checked there, and what it does not
enter is a text, or the further field of a blob. -/
theorem sound_of_nothingHidden (hWf : value.WellFormed)
    (h : validateValue Cid b64 path value = .ok ()) (hHidden : NothingHidden Cid b64 value) :
    Sound Cid b64 value := by
  induction value generalizing path with
  | null =>
    intro x hx
    cases hx
    trivial
  | bool b =>
    intro x hx
    cases hx
    trivial
  | string s => exact sound_string
  | number n =>
    intro x hx
    cases hx
    rw [validateValue] at h
    obtain ⟨i, hi⟩ := validateNumber_ok h
    exact ⟨i, hi, hHidden.integers n i .self hi⟩
  | array items ih =>
    rw [validateValue] at h
    intro x hx
    cases hx with
    | self => trivial
    | item hItem hx =>
      obtain ⟨path', hOk⟩ := validateItems_ok h hItem
      have hItemWf := Json.itemsWellFormed_iff.mp hWf _ hItem
      exact ih _ hItem hItemWf hOk (hHidden.mono fun y hy => .item hItem hy) x hx
  | object map ih =>
    obtain ⟨hSorted, hFieldsWf⟩ := hWf
    rw [validateValue] at h
    obtain ⟨hMap, hWalk⟩ := validateObject_ok h
    apply sound_object hMap
    rcases hWalk with hFields | hLink | hBytes | hBlob
    · intro e he
      obtain ⟨path', hOk⟩ := validateFields_ok hFields he
      have hFieldWf := Json.fieldsWellFormed_iff.mp hFieldsWf e he
      exact ih e he hFieldWf hOk (hHidden.mono fun y hy => .field he hy)
    · exact sound_link hLink
    · exact sound_bytes hBytes
    · exact sound_blob hSorted hBlob (hMap.blob hBlob) (hHidden.blobs map .self hBlob)

theorem nothingHidden_of_sound (h : Sound Cid b64 value) : NothingHidden Cid b64 value where
  blobs := by
    intro map hMap _ e he x hx
    exact h x ((Json.Within.field (List.mem_of_mem_filter he) hx).trans hMap)
  integers := by
    intro n i hNumber hi
    obtain ⟨j, hj, hRange⟩ := h _ hNumber
    rw [hi] at hj
    cases hj
    exact hRange

/-- Everything in an accepted record satisfies the rules exactly when the further fields of
its blobs do and its integers are in range. -/
theorem accepted_sound_iff (record : JsonValue) (h : validate Cid b64 record.json = .ok ()) :
    (∃ map, record.json = .object map) ∧
      (Sound Cid b64 record.json ↔ NothingHidden Cid b64 record.json) := by
  unfold validate at h
  split at h
  · rename_i map hRecord
    refine ⟨⟨map, hRecord⟩, nothingHidden_of_sound, ?_⟩
    exact sound_of_nothingHidden record.wellFormed h
  · cases h

end Walk

/-- A link, and a number that is read as a double although it is the integer 123. -/
def plainRecord : JsonValue where
  json := .object [("a", .number (.float 0x405EC00000000000)),
    ("lnk", .object [("$link",
      .string "bafkreiccldh766hwcnuxnf2wh6jgzepf2nlu2lvcllt63eww5p6chi4ity")])]
  wellFormed := ⟨by decide, trivial, ⟨by decide, trivial, trivial⟩, trivial⟩

theorem plainRecord_sound_iff :
    (∃ map, plainRecord.json = .object map) ∧
      (Sound String sampleBase64 plainRecord.json ↔
        NothingHidden String sampleBase64 plainRecord.json) :=
  accepted_sound_iff plainRecord (by decide +kernel)

/-- The number 2^64, which no machine integer holds, and a blob with the field 1.5. -/
def hidingRecord : Json :=
  .object [("a", .number (.float 0x43F0000000000000)),
    ("blb", .object [("$type", .string "blob"), ("mimeType", .string "image/jpeg"),
      ("ref", .object [("$link",
        .string "bafkreiccldh766hwcnuxnf2wh6jgzepf2nlu2lvcllt63eww5p6chi4ity")]),
      ("size", .number (.posInt 10000)), ("x", .number (.float 0x3FF8000000000000))])]

theorem hidden_numbers_accepted :
    validate String sampleBase64 hidingRecord = .ok () ∧ hidingRecord.WellFormed ∧
      Json.Within (.number (.float 0x3FF8000000000000)) hidingRecord ∧
      ¬ Rule String sampleBase64 (.number (.float 0x3FF8000000000000)) ∧
      Json.Within (.number (.float 0x43F0000000000000)) hidingRecord ∧
      ¬ Rule String sampleBase64 (.number (.float 0x43F0000000000000)) := by
  refine ⟨by decide +kernel, ?_, ?_, ?_, ?_, ?_⟩
  · exact ⟨by decide, trivial, ⟨by decide, trivial, trivial, ⟨by decide, trivial, trivial⟩,
      trivial, trivial, trivial⟩, trivial⟩
  · have hExtra : ("x", Json.number (.float 0x3FF8000000000000)) ∈ [("$type", .string "blob"),
        ("mimeType", .string "image/jpeg"), ("ref", .object [("$link",
          .string "bafkreiccldh766hwcnuxnf2wh6jgzepf2nlu2lvcllt63eww5p6chi4ity")]),
        ("size", .number (.posInt 10000)), ("x", .number (.float 0x3FF8000000000000))] := by
      simp
    exact .field (List.mem_cons_of_mem _ List.mem_cons_self) (.field hExtra .self)
  · rintro ⟨i, hi, _⟩
    have hNone : (Number.float 0x3FF8000000000000).integer = none := by decide +kernel
    rw [hNone] at hi
    cases hi
  · exact .field List.mem_cons_self .self
  · rintro ⟨i, hi, hRange⟩
    have hInteger : (Number.float 0x43F0000000000000).integer = some (2 ^ 64) := by
      decide +kernel
    rw [hInteger] at hi
    cases hi
    exact absurd hRange.2 (by decide)

end DataModel

end Ezpds.Repo
