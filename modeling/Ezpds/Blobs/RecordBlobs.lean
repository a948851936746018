import Ezpds.Blobs.Tables
import Ezpds.Repo.RecordValue

/-!
# The blobs of a record

The write path walks a record value for its blob references, and the garbage collector walks the
JSON form of the record for its links. The first walk finds the references of the blob-typed maps
at every depth. The second is coarser: it reports every link of the value.

* `mem_recordBlobCids`: the references that the first walk finds.
* `collectBlobLinks_link`: a link of a value is reported in its JSON form.
-/

namespace Ezpds.Blobs

open Library Repo

variable {Cid : Type}

/-- The `ref` of a blob-typed map: a link, or as a fallback a map with a `$link`. -/
def blobRef (entries : List (String × Ipld Cid)) : Option Cid :=
  match entries.lookup "$type" with
  | some (.string typ) =>
    if typ = "blob" then
      match entries.lookup "ref" with
      | some (.link cid) => some cid
      | some (.map refMap) =>
        match refMap.lookup "$link" with
        | some (.link cid) => some cid
        | _ => none
      | _ => none
    else none
  | _ => none

mutual

def collectBlobCids : Ipld Cid → List Cid → List Cid
  | .map entries, out => collectEntryCids entries (out ++ (blobRef entries).toList)
  | .list items, out => collectItemCids items out
  | _, out => out

def collectEntryCids : List (String × Ipld Cid) → List Cid → List Cid
  | [], out => out
  | (_, v) :: entries, out => collectEntryCids entries (collectBlobCids v out)

def collectItemCids : List (Ipld Cid) → List Cid → List Cid
  | [], out => out
  | v :: items, out => collectItemCids items (collectBlobCids v out)

end

def recordBlobCids (record : Ipld Cid) : List Cid :=
  collectBlobCids record []

/-! ## What occurs in a value -/

/-- `v` is the value itself, or occurs in it at some depth. -/
inductive Within (v : Ipld Cid) : Ipld Cid → Prop
  | self : Within v v
  | item {items : List (Ipld Cid)} {w : Ipld Cid} (hMem : w ∈ items) (h : Within v w) :
      Within v (.list items)
  | value {entries : List (String × Ipld Cid)} {e : String × Ipld Cid} (hMem : e ∈ entries)
      (h : Within v e.2) : Within v (.map entries)

/-- The map is typed as a blob, and refers to `cid`. -/
def RefersTo (entries : List (String × Ipld Cid)) (cid : Cid) : Prop :=
  entries.lookup "$type" = some (.string "blob") ∧
    (entries.lookup "ref" = some (.link cid) ∨
      ∃ refMap, entries.lookup "ref" = some (.map refMap) ∧
        refMap.lookup "$link" = some (.link cid))

/-- A blob-typed map somewhere in the value refers to `cid`. -/
def HasBlob (v : Ipld Cid) (cid : Cid) : Prop :=
  ∃ entries, Within (.map entries) v ∧ RefersTo entries cid

/-- Every map of the value is in key order, as a `BTreeMap` is. -/
def MapsSorted (v : Ipld Cid) : Prop :=
  ∀ entries, Within (.map entries) v → KeySorted entries

variable {cid : Cid} {items : List (Ipld Cid)} {entries : List (String × Ipld Cid)}

theorem Within.trans {u v w : Ipld Cid} (h : Within u v) (h' : Within v w) : Within u w := by
  induction h' with
  | self => exact h
  | item hMem _ ih => exact .item hMem ih
  | value hMem _ ih => exact .value hMem ih

theorem within_leaf {v w : Ipld Cid} (h : Within v w) (hItems : ∀ items, w ≠ .list items)
    (hEntries : ∀ entries, w ≠ .map entries) : v = w := by
  cases h with
  | self => rfl
  | item _ _ => exact absurd rfl (hItems _)
  | value _ _ => exact absurd rfl (hEntries _)

theorem hasBlob_list : HasBlob (.list items) cid ↔ ∃ v ∈ items, HasBlob v cid := by
  constructor
  · rintro ⟨entries, hWithin, hRef⟩
    cases hWithin with
    | item hMem h => exact ⟨_, hMem, entries, h, hRef⟩
  · rintro ⟨v, hMem, entries, h, hRef⟩
    exact ⟨entries, .item hMem h, hRef⟩

theorem hasBlob_map :
    HasBlob (.map entries) cid ↔ RefersTo entries cid ∨ ∃ e ∈ entries, HasBlob e.2 cid := by
  constructor
  · rintro ⟨found, hWithin, hRef⟩
    cases hWithin with
    | self => exact Or.inl hRef
    | value hMem h => exact Or.inr ⟨_, hMem, found, h, hRef⟩
  · rintro (hRef | ⟨e, hMem, found, h, hRef⟩)
    · exact ⟨entries, .self, hRef⟩
    · exact ⟨found, .value hMem h, hRef⟩

theorem not_hasBlob_leaf {v : Ipld Cid} (hItems : ∀ items, v ≠ .list items)
    (hEntries : ∀ entries, v ≠ .map entries) : ¬ HasBlob v cid := by
  rintro ⟨entries, hWithin, _⟩
  exact hEntries entries (within_leaf hWithin hItems hEntries).symm

theorem mapsSorted_list : MapsSorted (.list items) ↔ ∀ v ∈ items, MapsSorted v := by
  constructor
  · intro h v hv entries hMap
    exact h entries (.item hv hMap)
  · intro h entries hMap
    cases hMap with
    | item hMem hMap => exact h _ hMem entries hMap

theorem mapsSorted_map :
    MapsSorted (.map entries) ↔ KeySorted entries ∧ ∀ e ∈ entries, MapsSorted e.2 := by
  constructor
  · intro h
    exact ⟨h entries .self, fun e he found hMap => h found (.value he hMap)⟩
  · rintro ⟨hSorted, h⟩ found hMap
    cases hMap with
    | self => exact hSorted
    | value hMem hMap => exact h _ hMem found hMap

theorem mapsSorted_leaf {v : Ipld Cid} (hItems : ∀ items, v ≠ .list items)
    (hEntries : ∀ entries, v ≠ .map entries) : MapsSorted v :=
  fun entries hMap => absurd (within_leaf hMap hItems hEntries).symm (hEntries entries)

/-! ## The walk over the value -/

theorem blobRef_eq_some : blobRef entries = some cid ↔ RefersTo entries cid := by
  unfold blobRef RefersTo
  split
  · rename_i typ hType
    rw [hType]
    split
    · rename_i hBlob
      subst hBlob
      split
      · rename_i c hRef
        simp [hRef]
      · rename_i refMap hRef
        split
        · rename_i c hLink
          simp [hRef, hLink]
        · rename_i hLink
          simpa [hRef] using hLink cid
      · rename_i hLink hMap
        constructor
        · nofun
        · rintro ⟨_, hRef | ⟨refMap, hRef, _⟩⟩
          · exact absurd hRef (hLink cid)
          · exact absurd hRef (hMap refMap)
    · rename_i hOther
      simp [hOther]
  · rename_i hType
    constructor
    · nofun
    · rintro ⟨hBlob, _⟩
      exact absurd hBlob (hType "blob")

theorem mem_collectItemCids (h : ∀ v ∈ items, ∀ out, cid ∈ collectBlobCids v out ↔
    cid ∈ out ∨ HasBlob v cid) (out : List Cid) :
    cid ∈ collectItemCids items out ↔ cid ∈ out ∨ ∃ v ∈ items, HasBlob v cid := by
  induction items generalizing out with
  | nil => simp [collectItemCids]
  | cons v items ih =>
    rw [collectItemCids, ih (fun w hw => h w (List.mem_cons_of_mem v hw)),
      h v List.mem_cons_self, List.exists_mem_cons_iff, or_assoc]

theorem mem_collectEntryCids (h : ∀ e ∈ entries, ∀ out, cid ∈ collectBlobCids e.2 out ↔
    cid ∈ out ∨ HasBlob e.2 cid) (out : List Cid) :
    cid ∈ collectEntryCids entries out ↔ cid ∈ out ∨ ∃ e ∈ entries, HasBlob e.2 cid := by
  induction entries generalizing out with
  | nil => simp [collectEntryCids]
  | cons e entries ih =>
    rw [collectEntryCids, ih (fun d hd => h d (List.mem_cons_of_mem e hd)),
      h e List.mem_cons_self, List.exists_mem_cons_iff, or_assoc]

theorem mem_collectBlobCids (v : Ipld Cid) (out : List Cid) :
    cid ∈ collectBlobCids v out ↔ cid ∈ out ∨ HasBlob v cid := by
  induction v generalizing out with
  | list items ih => rw [collectBlobCids, mem_collectItemCids ih, hasBlob_list]
  | map entries ih =>
    rw [collectBlobCids, mem_collectEntryCids ih, List.mem_append, hasBlob_map,
      Option.mem_toList, blobRef_eq_some, or_assoc]
  | _ => simp [collectBlobCids, not_hasBlob_leaf]

theorem mem_recordBlobCids {record : Ipld Cid} :
    cid ∈ recordBlobCids record ↔ HasBlob record cid := by
  rw [recordBlobCids, mem_collectBlobCids]
  simp

/-- What a blob-typed map refers to is a link in it. -/
theorem RefersTo.within (h : RefersTo entries cid) : Within (.link cid) (.map entries) := by
  obtain ⟨_, hRef | ⟨refMap, hRef, hLink⟩⟩ := h
  · exact .value (mem_of_lookup hRef) .self
  · exact .value (mem_of_lookup hRef) (.value (mem_of_lookup hLink) .self)

/-! ## The walk over the JSON form -/

theorem mem_collectItemLinks {link : String} {items : List Json} :
    link ∈ collectItemLinks items ↔ ∃ j ∈ items, link ∈ collectBlobLinks j := by
  induction items with
  | nil => simp [collectItemLinks]
  | cons j items ih => rw [collectItemLinks, List.mem_append, ih, List.exists_mem_cons_iff]

theorem mem_collectFieldLinks {link : String} {fields : List (String × Json)} :
    link ∈ collectFieldLinks fields ↔ ∃ f ∈ fields, link ∈ collectBlobLinks f.2 := by
  induction fields with
  | nil => simp [collectFieldLinks]
  | cons f fields ih => rw [collectFieldLinks, List.mem_append, ih, List.exists_mem_cons_iff]

/-- The walk stops at an object that is a link itself, and there is no other link in such an
object. -/
theorem collectBlobLinks_object {link : String} {fields : List (String × Json)}
    {f : String × Json} (hMem : f ∈ fields) (h : link ∈ collectBlobLinks f.2) :
    link ∈ collectBlobLinks (.object fields) := by
  rw [collectBlobLinks]
  split
  · rename_i cid hLink
    unfold linkOf at hLink
    split at hLink
    · rw [List.mem_singleton.mp hMem] at h
      cases h
    · cases hLink
  · exact mem_collectFieldLinks.mpr ⟨f, hMem, h⟩

theorem collectBlobLinks_link [CidText Cid] {b64 : Base64} {v : Ipld Cid} {json : Json}
    (hMaps : MapsSorted v) (hJson : recordValueToJson b64 v = .ok json)
    (h : Within (.link cid) v) : CidText.toText cid ∈ collectBlobLinks json := by
  induction h generalizing json with
  | self =>
    cases hJson
    exact List.mem_singleton_self _
  | item hMem hWithin ih =>
    obtain ⟨js, hItems, rfl⟩ := recordValueToJson_list.mp hJson
    obtain ⟨j, hj, hConv⟩ := exists_mem_of_forall₂ hItems.flip hMem
    rw [collectBlobLinks]
    exact mem_collectItemLinks.mpr ⟨j, hj, ih (mapsSorted_list.mp hMaps _ hMem) hConv⟩
  | value hMem hWithin ih =>
    obtain ⟨hSorted, hValues⟩ := mapsSorted_map.mp hMaps
    obtain ⟨fields, hEntries, rfl⟩ := (recordValueToJson_map hSorted).mp hJson
    obtain ⟨f, hf, _, hConv⟩ := exists_mem_of_forall₂ hEntries.flip hMem
    exact collectBlobLinks_object hf (ih (hValues _ hMem) hConv)

/-- `record_blob_cids` gives exactly the references of the blob-typed maps that occur in the
record, and the walk of the garbage collector over the JSON form reports each of them. -/
theorem record_blobs_reported [CidText Cid] (b64 : Base64) (record : Ipld Cid)
    (hMaps : MapsSorted record) :
    (∀ cid, cid ∈ recordBlobCids record ↔
        ∃ entries, Within (.map entries) record ∧ RefersTo entries cid) ∧
      ∀ json, recordValueToJson b64 record = .ok json → ∀ cid ∈ recordBlobCids record,
        CidText.toText cid ∈ collectBlobLinks json := by
  refine ⟨fun cid => mem_recordBlobCids, fun json hJson cid hCid => ?_⟩
  obtain ⟨entries, hWithin, hRef⟩ := mem_recordBlobCids.mp hCid
  exact collectBlobLinks_link hMaps hJson (hRef.within.trans hWithin)

def catCid : String := "bafkreibme22gw2h7y2h7tg2fhqotaqjucnbc24deqo72b6mkl2egezxhvy"

def catBlob : Ipld String :=
  .map [("$type", .string "blob"), ("mimeType", .string "image/png"), ("ref", .link catCid),
    ("size", .integer 12)]

/-- A post with the blob in a list of its embed. -/
def catPost : Ipld String :=
  .map [("$type", .string "com.example.post"),
    ("embed", .map [("images", .list [.map [("alt", .string "a cat"), ("image", catBlob)]])])]

/-- The post has no byte strings to print. -/
def noBytes : Base64 := ⟨fun _ => "", fun _ => .ok []⟩

theorem mapsSorted_catPost : MapsSorted catPost := by
  have hLeaf : ∀ s, MapsSorted (.string s : Ipld String) := fun _ => mapsSorted_leaf nofun nofun
  have hBlob : MapsSorted catBlob := by
    refine mapsSorted_map.mpr ⟨by decide +kernel, ?_⟩
    simp only [List.forall_mem_cons]
    exact ⟨hLeaf _, hLeaf _, mapsSorted_leaf nofun nofun, mapsSorted_leaf nofun nofun, nofun⟩
  refine mapsSorted_map.mpr ⟨by decide +kernel, ?_⟩
  simp only [List.forall_mem_cons]
  refine ⟨hLeaf _, mapsSorted_map.mpr ⟨by decide +kernel, ?_⟩, nofun⟩
  simp only [List.forall_mem_cons]
  refine ⟨mapsSorted_list.mpr ?_, nofun⟩
  simp only [List.forall_mem_cons]
  refine ⟨mapsSorted_map.mpr ⟨by decide +kernel, ?_⟩, nofun⟩
  simp only [List.forall_mem_cons]
  exact ⟨hLeaf _, hBlob, nofun⟩

theorem record_blobs_reported_catPost :
    ∃ json, recordValueToJson noBytes catPost = .ok json ∧ catCid ∈ collectBlobLinks json := by
  obtain ⟨json, hJson⟩ := exists_ok_of_isOk
    (by decide +kernel : (recordValueToJson noBytes catPost).isOk = true)
  have hCid : catCid ∈ recordBlobCids catPost := by decide +kernel
  exact ⟨json, hJson,
    (record_blobs_reported noBytes catPost mapsSorted_catPost).2 json hJson catCid hCid⟩

end Ezpds.Blobs
