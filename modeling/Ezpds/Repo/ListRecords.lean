import Ezpds.Library.Paging
import Ezpds.Library.Text
import Ezpds.Repo.Repository
import Mathlib.Order.OrderDual

/-!
# Listing a collection

`list_records_json`: one page of the records of a collection, upwards or downwards, from a
prefix scan that may also yield keys of other collections. Upwards the scan stops as soon as
the page and one row more are read; downwards the whole collection is read and walked back.

* `collectAll_eq`: the rows that the scan keeps are those of the collection.
* `listRecordsJson_eq`: a page in either direction is a look-ahead page of those rows.
* `listed_pages_are_the_collection`: the pages at the returned cursors are the collection,
  up to the first record that cannot be read.

A record that was imported with an integer that JSON cannot carry ends the listing, since
`record_value_to_json` refuses it: `unreadable_record_ends_listing`.
-/

namespace Ezpds.Repo

open Library

variable {Cid : Type}

/-- What a `Repository<S>` answers to reads: its tree, the prefix scan of the vendored tree
and the record blocks of the store. -/
structure RecordReads (Cid : Type) where
  tree : Tree Cid
  entriesPrefixed : String → List (Except String (String × Cid))
  readRecord : Cid → Except String (Ipld Cid)

structure ListedRecord (Cid : Type) where
  rkey : String
  cid : Cid
  value : Json

structure ListRecordsPage (Cid : Type) where
  records : List (ListedRecord Cid)
  cursor : Option String

/-- What to do with one key of the prefix scan. -/
inductive Scan where
  | take (rkey : String)
  | skip
  | stop

def classify (start key : String) : Scan :=
  match stripPrefix start key with
  | some rkey => .take rkey
  | none => if start < key then .stop else .skip

/-- `usize::MAX`. -/
def usizeMax : Nat := 2 ^ 64 - 1

/-- The descending scan: every row of the collection. -/
def collectAll (start : String) :
    List (String × Cid) → List (Except String (String × Cid)) →
      Except RecordError (List (String × Cid))
  | all, [] => .ok all
  | _, .error e :: _ => .error (.repo ("list entries: " ++ e))
  | all, .ok (key, cid) :: stream =>
    match classify start key with
    | .take rkey => collectAll start (all ++ [(rkey, cid)]) stream
    | .skip => collectAll start all stream
    | .stop => .ok all

/-- The walk back over the collected rows. -/
def walkBack (cursor : Option String) (want : Nat) :
    List (String × Cid) → List (String × Cid) → List (String × Cid)
  | entries, [] => entries
  | entries, (rkey, cid) :: rows =>
    if cursor.any (· ≤ rkey) then walkBack cursor want entries rows
    else if (entries ++ [(rkey, cid)]).length = want then entries ++ [(rkey, cid)]
    else walkBack cursor want (entries ++ [(rkey, cid)]) rows

/-- The ascending scan: up to `want` rows past the cursor. -/
def scanForward (start : String) (cursor : Option String) (want : Nat) :
    List (String × Cid) → List (Except String (String × Cid)) →
      Except RecordError (List (String × Cid))
  | entries, [] => .ok entries
  | _, .error e :: _ => .error (.repo ("list entries: " ++ e))
  | entries, .ok (key, cid) :: stream =>
    match classify start key with
    | .skip => scanForward start cursor want entries stream
    | .stop => .ok entries
    | .take rkey =>
      if cursor.any (rkey ≤ ·) then scanForward start cursor want entries stream
      else if (entries ++ [(rkey, cid)]).length = want then .ok (entries ++ [(rkey, cid)])
      else scanForward start cursor want (entries ++ [(rkey, cid)]) stream

namespace RecordReads

def getRaw (reads : RecordReads Cid) (key : String) : Except String (Option (Ipld Cid)) :=
  match reads.tree.get? key with
  | some cid => (reads.readRecord cid).map some
  | none => .ok none

end RecordReads

/-- The rows that a page is cut from: up to `want` of them beyond the cursor. -/
def pageEntries (reads : RecordReads Cid) (start : String) (want : Nat)
    (cursor : Option String) (reverse : Bool) : Except RecordError (List (String × Cid)) := do
  let stream := reads.entriesPrefixed start
  if reverse then
    let all ← collectAll start [] stream
    return walkBack cursor want [] all.reverse
  else scanForward start cursor want [] stream

def listedRecord [CidText Cid] (b64 : Base64) (reads : RecordReads Cid) (start : String)
    (entry : String × Cid) : Except RecordError (ListedRecord Cid) := do
  let value ← (reads.getRaw (start ++ entry.1)).mapError fun e =>
    .repo ("read record block: " ++ e)
  let value ← okOr .notFound value
  let value ← recordValueToJson b64 value
  return { rkey := entry.1, cid := entry.2, value }

def listRecordsJson [CidText Cid] (b64 : Base64) (reads : RecordReads Cid)
    (collection : String) (limit : Nat) (cursor : Option String) (reverse : Bool) :
    Except RecordError (ListRecordsPage Cid) := do
  let start := collection ++ "/"
  let want := saturatingAdd limit 1
  let entries ← pageEntries reads start want cursor reverse
  let hasMore := limit < entries.length
  let records ← (entries.take limit).mapM (listedRecord b64 reads start)
  return {
    records
    cursor := if hasMore then records.getLast?.map ListedRecord.rkey else none }

/-- A client that asks for page after page, at the cursor of the page before. -/
def listPages [CidText Cid] (b64 : Base64) (reads : RecordReads Cid) (collection : String)
    (limit : Nat) (reverse : Bool) : Nat → Option String →
      Option (Except RecordError (List (ListedRecord Cid))) :=
  follow fun cursor =>
    (listRecordsJson b64 reads collection limit cursor reverse).map fun page =>
      (page.records, page.cursor)

/-! ## The collection -/

def inCollection (start : String) (e : String × Cid) : Option (String × Cid) :=
  (stripPrefix start e.1).map fun rkey => (rkey, e.2)

/-- The records of a collection, by their record keys, as the tree holds them. -/
def collectionRows (tree : Tree Cid) (collection : String) : List (String × Cid) :=
  tree.entries.filterMap (inCollection (collection ++ "/"))

/-- A record of the tree, read from its block. -/
def storedRecord [CidText Cid] (b64 : Base64) (reads : RecordReads Cid) (row : String × Cid) :
    Except RecordError (ListedRecord Cid) := do
  let value ← (reads.readRecord row.2).mapError fun e => .repo ("read record block: " ++ e)
  let value ← recordValueToJson b64 value
  return { rkey := row.1, cid := row.2, value }

/-- The scan yields entries of the tree in ascending order, all those under the prefix
among them. -/
def Covers (stream : List (Except String (String × Cid))) (tree : Tree Cid)
    (start : String) : Prop :=
  ∃ rows : List (String × Cid), stream = rows.map .ok ∧ KeySorted rows ∧
    (∀ e ∈ rows, tree.get? e.1 = some e.2) ∧
    ∀ rkey cid, tree.get? (start ++ rkey) = some cid → (start ++ rkey, cid) ∈ rows

theorem inCollection_some {start : String} {e row : String × Cid} :
    inCollection start e = some row ↔ e = (start ++ row.1, row.2) := by
  obtain ⟨key, cid⟩ := e
  obtain ⟨rkey, cid'⟩ := row
  rw [inCollection, Option.map_eq_some_iff]
  constructor
  · rintro ⟨rkey, hStrip, hRow⟩
    cases hRow
    exact Prod.ext (stripPrefix_some.mp hStrip) rfl
  · intro h
    cases h
    exact ⟨rkey, stripPrefix_some.mpr rfl, rfl⟩

theorem mem_filterMap_inCollection {start : String} {rows : List (String × Cid)}
    {row : String × Cid} :
    row ∈ rows.filterMap (inCollection start) ↔ (start ++ row.1, row.2) ∈ rows := by
  rw [List.mem_filterMap]
  constructor
  · rintro ⟨e, he, hRow⟩
    rw [← inCollection_some.mp hRow]
    exact he
  · intro h
    exact ⟨_, h, inCollection_some.mpr rfl⟩

theorem keySorted_filterMap_inCollection {start : String} {rows : List (String × Cid)}
    (h : KeySorted rows) : KeySorted (rows.filterMap (inCollection start)) := by
  rw [KeySorted, List.pairwise_map] at h ⊢
  apply h.filterMap
  intro e e' hLt row hRow row' hRow'
  rw [inCollection_some.mp hRow, inCollection_some.mp hRow'] at hLt
  simp only [String.lt_iff_toList_lt, String.toList_append] at hLt ⊢
  exact append_lt_append_iff.mp hLt

theorem mem_collectionRows {tree : Tree Cid} {collection rkey : String} {cid : Cid} :
    (rkey, cid) ∈ collectionRows tree collection ↔
      tree.get? (collection ++ "/" ++ rkey) = some cid := by
  rw [collectionRows, mem_filterMap_inCollection]
  exact mem_iff_assocGet tree.sorted

/-- What the scan yields of a collection is what the tree holds of it. -/
theorem rows_of_covers {rows : List (String × Cid)} {tree : Tree Cid} {collection : String}
    (hSorted : KeySorted rows) (hTree : ∀ e ∈ rows, tree.get? e.1 = some e.2)
    (hAll : ∀ rkey cid, tree.get? (collection ++ "/" ++ rkey) = some cid →
      (collection ++ "/" ++ rkey, cid) ∈ rows) :
    rows.filterMap (inCollection (collection ++ "/")) = collectionRows tree collection := by
  apply eq_of_same_entries (keySorted_filterMap_inCollection hSorted)
    (keySorted_filterMap_inCollection tree.sorted)
  rintro ⟨rkey, cid⟩
  show _ ↔ (rkey, cid) ∈ collectionRows tree collection
  rw [mem_filterMap_inCollection, mem_collectionRows]
  constructor
  · intro h
    exact hTree _ h
  · intro h
    exact hAll rkey cid h

/-! ## The scans -/

theorem classify_take {start key rkey : String} (h : stripPrefix start key = some rkey) :
    classify start key = .take rkey := by
  rw [classify, h]

theorem filterMap_eq_nil_of_stop {start : String} {e : String × Cid} {rows : List (String × Cid)}
    (hSorted : KeySorted (e :: rows)) (hStrip : stripPrefix start e.1 = none)
    (hLt : start < e.1) : rows.filterMap (inCollection start) = [] := by
  rw [List.filterMap_eq_nil_iff]
  intro e' he'
  rw [inCollection,
    stripPrefix_none_of_lt hStrip hLt ((keySorted_cons.mp hSorted).1 e' he'), Option.map_none]

/-- Where the scan stops, no row of the collection is left. -/
theorem collectAll_eq {start : String} {all rows : List (String × Cid)}
    (hSorted : KeySorted rows) :
    collectAll start all (rows.map .ok) = .ok (all ++ rows.filterMap (inCollection start)) := by
  induction rows generalizing all with
  | nil => rw [List.map_nil, collectAll, List.filterMap_nil, List.append_nil]
  | cons e rows ih =>
    obtain ⟨key, cid⟩ := e
    have hTail := (keySorted_cons.mp hSorted).2
    rw [List.map_cons, collectAll, List.filterMap_cons, inCollection, classify]
    cases hStrip : stripPrefix start key with
    | some rkey =>
      dsimp only [Option.map_some]
      rw [ih hTail, List.append_assoc, List.singleton_append]
    | none =>
      dsimp only [Option.map_none]
      by_cases hLt : start < key
      · rw [if_pos hLt, filterMap_eq_nil_of_stop hSorted hStrip hLt, List.append_nil]
      · rw [if_neg hLt]
        exact ih hTail

/-- The scan with an early exit is the walk over the rows of the collection. -/
def takePast (done : String → Bool) (want : Nat) :
    List (String × Cid) → List (String × Cid) → List (String × Cid)
  | entries, [] => entries
  | entries, row :: rows =>
    if done row.1 then takePast done want entries rows
    else if (entries ++ [row]).length = want then entries ++ [row]
    else takePast done want (entries ++ [row]) rows

theorem walkBack_eq {cursor : Option String} {want : Nat} {entries rows : List (String × Cid)} :
    walkBack cursor want entries rows =
      takePast (fun rkey => cursor.any (· ≤ rkey)) want entries rows := by
  induction rows generalizing entries with
  | nil => rfl
  | cons row rows ih => simp only [walkBack, takePast, ih]

theorem scanForward_eq {start : String} {cursor : Option String} {want : Nat}
    {entries rows : List (String × Cid)} (hSorted : KeySorted rows) :
    scanForward start cursor want entries (rows.map .ok) =
      .ok (takePast (fun rkey => cursor.any (rkey ≤ ·)) want entries
        (rows.filterMap (inCollection start))) := by
  induction rows generalizing entries with
  | nil => rfl
  | cons e rows ih =>
    obtain ⟨key, cid⟩ := e
    have hTail := (keySorted_cons.mp hSorted).2
    rw [List.map_cons, scanForward, List.filterMap_cons, inCollection, classify]
    cases hStrip : stripPrefix start key with
    | some rkey =>
      dsimp only [Option.map_some]
      rw [takePast, ih hTail, ih hTail, apply_ite Except.ok, apply_ite Except.ok]
    | none =>
      dsimp only [Option.map_none]
      by_cases hLt : start < key
      · rw [if_pos hLt, filterMap_eq_nil_of_stop hSorted hStrip hLt, takePast]
      · rw [if_neg hLt]
        exact ih hTail

theorem takePast_eq {done : String → Bool} {want : Nat} {entries rows : List (String × Cid)}
    (h : entries.length < want) :
    takePast done want entries rows =
      entries ++ (rows.filter fun row => !done row.1).take (want - entries.length) := by
  induction rows generalizing entries with
  | nil => simp [takePast]
  | cons row rows ih =>
    rw [takePast]
    by_cases hDone : done row.1 = true
    · rw [if_pos hDone, ih h, List.filter_cons_of_neg (by simp [hDone])]
    · have hLength : (entries ++ [row]).length = entries.length + 1 := List.length_append
      have hTake : want - entries.length = want - (entries.length + 1) + 1 := by omega
      rw [if_neg hDone, List.filter_cons_of_pos (by simp [hDone]), hTake, List.take_succ_cons,
        hLength]
      by_cases hFull : entries.length + 1 = want
      · rw [if_pos hFull, hFull, Nat.sub_self, List.take_zero]
      · have hRoom : (entries ++ [row]).length < want := by omega
        rw [if_neg hFull, ih hRoom, hLength, List.append_assoc, List.singleton_append]

theorem takePast_full {done : String → Bool} {limit : Nat} {rows : List (String × Cid)} :
    takePast done (saturatingAdd limit 1) [] rows =
      (rows.filter fun row => !done row.1).take (saturatingAdd limit 1) := by
  have hRoom : ([] : List (String × Cid)).length < saturatingAdd limit 1 := by
    rw [saturatingAdd, List.length_nil]
    omega
  rw [takePast_eq hRoom, List.nil_append, List.length_nil, Nat.sub_zero]

/-! ## One page -/

/-- The rows in the order of the listing. -/
def inDirection (reverse : Bool) (rows : List (String × Cid)) : List (String × Cid) :=
  if reverse then rows.reverse else rows

/-- A record key lies beyond the cursor in the direction of the listing. -/
def pastCursor (reverse : Bool) (cursor : Option String) (row : String × Cid) : Bool :=
  !cursor.any fun c => if reverse then c ≤ row.1 else row.1 ≤ c

theorem mem_inDirection {reverse : Bool} {rows : List (String × Cid)} {row : String × Cid} :
    row ∈ inDirection reverse rows ↔ row ∈ rows := by
  cases reverse with
  | false => exact Iff.rfl
  | true => exact List.mem_reverse

theorem length_inDirection {reverse : Bool} {rows : List (String × Cid)} :
    (inDirection reverse rows).length = rows.length := by
  cases reverse with
  | false => rfl
  | true => exact List.length_reverse

theorem pageEntries_eq {reads : RecordReads Cid} {collection : String} {limit : Nat}
    {cursor : Option String} {reverse : Bool}
    (h : Covers (reads.entriesPrefixed (collection ++ "/")) reads.tree (collection ++ "/")) :
    pageEntries reads (collection ++ "/") (saturatingAdd limit 1) cursor reverse =
      .ok (((inDirection reverse (collectionRows reads.tree collection)).filter
        (pastCursor reverse cursor)).take (saturatingAdd limit 1)) := by
  obtain ⟨rows, hStream, hSorted, hTree, hAll⟩ := h
  have hRows := rows_of_covers hSorted hTree hAll
  rw [pageEntries, hStream]
  cases reverse with
  | false =>
    show scanForward _ _ _ _ _ = _
    rw [scanForward_eq hSorted, hRows, takePast_full]
    rfl
  | true =>
    show (collectAll _ _ _ >>= fun all => pure (walkBack cursor _ [] all.reverse)) = _
    rw [collectAll_eq hSorted, hRows, List.nil_append]
    show Except.ok (walkBack cursor _ [] _) = _
    rw [walkBack_eq, takePast_full]
    rfl

/-- The one row that is read ahead tells whether rows remain. -/
theorem take_saturatingAdd {α : Type} {l : List α} (limit : Nat) (h : l.length ≤ usizeMax) :
    (l.take (saturatingAdd limit 1)).take limit = l.take limit ∧
      (limit < (l.take (saturatingAdd limit 1)).length ↔ limit < l.length) := by
  rw [usizeMax] at h
  constructor
  · rw [List.take_take, saturatingAdd]
    by_cases hLimit : limit ≤ 2 ^ 64 - 1
    · by_cases hMax : limit = 2 ^ 64 - 1
      · rw [hMax]
        rfl
      · congr 1
        omega
    · rw [List.take_of_length_le (by omega), List.take_of_length_le (by omega)]
  · rw [List.length_take, saturatingAdd]
    omega

theorem keyedBy_upwards {rows : List (String × Cid)} (h : KeySorted rows) :
    KeyedBy (id ∘ Prod.fst) rows := by
  rw [KeySorted, List.pairwise_map] at h
  exact h

theorem keyedBy_downwards {rows : List (String × Cid)} (h : KeySorted rows) :
    KeyedBy (OrderDual.toDual ∘ Prod.fst) rows.reverse := by
  rw [KeyedBy, List.pairwise_reverse]
  exact keyedBy_upwards h

theorem pastCursor_upwards {cursor : Option String} :
    (pastCursor false cursor : String × Cid → Bool) = beyond id Prod.fst cursor := by
  funext row
  cases cursor with
  | none => rfl
  | some c =>
    show (!decide (row.1 ≤ c)) = decide (c < row.1)
    rw [← decide_not, decide_eq_decide, not_le]

theorem pastCursor_downwards {cursor : Option String} :
    (pastCursor true cursor : String × Cid → Bool) =
      beyond OrderDual.toDual Prod.fst cursor := by
  funext row
  cases cursor with
  | none => rfl
  | some c =>
    show (!decide (c ≤ row.1)) = decide (row.1 < c)
    rw [← decide_not, decide_eq_decide, not_le]

section

variable [CidText Cid] {b64 : Base64} {reads : RecordReads Cid} {collection : String}
  {limit : Nat} {cursor : Option String} {reverse : Bool}

theorem listedRecord_eq {row : String × Cid} (h : row ∈ collectionRows reads.tree collection) :
    listedRecord b64 reads (collection ++ "/") row = storedRecord b64 reads row := by
  have hGet := mem_collectionRows.mp h
  rw [listedRecord, storedRecord, RecordReads.getRaw, hGet]
  dsimp only
  cases reads.readRecord row.2 with
  | error e => rfl
  | ok value => rfl

theorem mapM_congr_mem {α β ε : Type} {f g : α → Except ε β} {l : List α}
    (h : ∀ a ∈ l, f a = g a) : l.mapM f = l.mapM g := by
  induction l with
  | nil => rfl
  | cons a l ih =>
    rw [List.mapM_cons, List.mapM_cons, h a List.mem_cons_self,
      ih fun b hb => h b (List.mem_cons_of_mem _ hb)]

theorem storedRecord_rkey {row : String × Cid} {record : ListedRecord Cid}
    (h : storedRecord b64 reads row = .ok record) :
    (record.rkey, record.cid) = row := by
  obtain ⟨_, _, h⟩ := bind_ok.mp h
  obtain ⟨_, _, h⟩ := bind_ok.mp h
  cases h
  rfl

/-- A page is the first rows beyond the cursor, with a cursor if rows remain. -/
theorem listRecordsJson_eq
    (h : Covers (reads.entriesPrefixed (collection ++ "/")) reads.tree (collection ++ "/"))
    (hFits : (collectionRows reads.tree collection).length ≤ usizeMax) :
    (listRecordsJson b64 reads collection limit cursor reverse).map
        (fun page => (page.records, page.cursor)) =
      lookAhead Prod.fst (inDirection reverse (collectionRows reads.tree collection)) limit
        (storedRecord b64 reads) (pastCursor reverse cursor) := by
  have hMem : ∀ row ∈ inDirection reverse (collectionRows reads.tree collection),
      row ∈ collectionRows reads.tree collection := fun _ => mem_inDirection.mp
  have hLength : (inDirection reverse (collectionRows reads.tree collection)).length ≤
      usizeMax := length_inDirection.trans_le hFits
  generalize hDirected : inDirection reverse (collectionRows reads.tree collection) = rows
    at hMem hLength
  have hFilter : (rows.filter (pastCursor reverse cursor)).length ≤ usizeMax :=
    le_trans (List.length_filter_le _ _) hLength
  obtain ⟨hTake, hMore⟩ := take_saturatingAdd limit hFilter
  have hRead : (page rows (pastCursor reverse cursor) limit).mapM
      (listedRecord b64 reads (collection ++ "/")) =
      (page rows (pastCursor reverse cursor) limit).mapM (storedRecord b64 reads) := by
    apply mapM_congr_mem
    intro row hRow
    exact listedRecord_eq (hMem row (List.mem_of_mem_filter (List.mem_of_mem_take hRow)))
  rw [listRecordsJson, pageEntries_eq h, hDirected]
  show Except.map _ (List.mapM (listedRecord b64 reads (collection ++ "/"))
    (List.take limit (List.take (saturatingAdd limit 1) _)) >>= _) = _
  rw [hTake]
  show Except.map _ (List.mapM _ (page rows (pastCursor reverse cursor) limit) >>= _) = _
  rw [hRead, lookAhead]
  cases hOut : (page rows (pastCursor reverse cursor) limit).mapM (storedRecord b64 reads) with
  | error e => rfl
  | ok records =>
    have hKeys : records.map ListedRecord.rkey =
        (page rows (pastCursor reverse cursor) limit).map Prod.fst :=
      map_of_mapM_ok (fun row record hRow => congrArg Prod.fst (storedRecord_rkey hRow)) hOut
    show Except.ok (records, ite _ (records.getLast?.map ListedRecord.rkey) none) =
      Except.ok (records, ite _ _ none)
    rw [← List.getLast?_map, hKeys, List.getLast?_map]
    simp only [hMore]

theorem listPages_eq {fuel : Nat} (hLimit : 1 ≤ limit)
    (h : Covers (reads.entriesPrefixed (collection ++ "/")) reads.tree (collection ++ "/"))
    (hFits : (collectionRows reads.tree collection).length ≤ usizeMax)
    (hFuel : (collectionRows reads.tree collection).length < fuel) :
    listPages b64 reads collection limit reverse fuel none =
      some ((inDirection reverse (collectionRows reads.tree collection)).mapM
        (storedRecord b64 reads)) := by
  have hSorted : KeySorted (collectionRows reads.tree collection) :=
    keySorted_filterMap_inCollection reads.tree.sorted
  cases reverse with
  | false =>
    apply follow_all (keyedBy_upwards hSorted) hLimit _ hFuel
    intro c
    rw [← pastCursor_upwards]
    exact listRecordsJson_eq h hFits
  | true =>
    apply follow_all (keyedBy_downwards hSorted) hLimit _ (List.length_reverse.trans_lt hFuel)
    intro c
    rw [← pastCursor_downwards]
    exact listRecordsJson_eq h hFits

/-- Upwards or downwards, the pages are the records of the collection, each once: all of
them if they can be read, and otherwise up to the error of the first that cannot. -/
theorem listed_pages_are_the_collection (b64 : Base64) (reads : RecordReads Cid)
    (collection : String) (limit : Nat) (reverse : Bool) (fuel : Nat) (hLimit : 1 ≤ limit)
    (h : Covers (reads.entriesPrefixed (collection ++ "/")) reads.tree (collection ++ "/"))
    (hFits : (collectionRows reads.tree collection).length ≤ usizeMax)
    (hFuel : (collectionRows reads.tree collection).length < fuel) :
    KeySorted (collectionRows reads.tree collection) ∧
    (∀ rkey cid, (rkey, cid) ∈ collectionRows reads.tree collection ↔
      reads.tree.get? (collection ++ "/" ++ rkey) = some cid) ∧
    listPages b64 reads collection limit reverse fuel none =
      some ((inDirection reverse (collectionRows reads.tree collection)).mapM
        (storedRecord b64 reads)) ∧
    ((∀ row ∈ collectionRows reads.tree collection, ∃ record,
        storedRecord b64 reads row = .ok record) →
      ∃ records, listPages b64 reads collection limit reverse fuel none = some (.ok records) ∧
        records.map (fun record => (record.rkey, record.cid)) =
          inDirection reverse (collectionRows reads.tree collection)) := by
  have hPages : listPages b64 reads collection limit reverse fuel none = _ :=
    listPages_eq hLimit h hFits hFuel
  refine ⟨keySorted_filterMap_inCollection reads.tree.sorted, fun _ _ => mem_collectionRows,
    hPages, ?_⟩
  intro hRead
  have hAll : ∀ row ∈ inDirection reverse (collectionRows reads.tree collection), ∃ record,
      storedRecord b64 reads row = .ok record := by
    intro row hRow
    exact hRead row (mem_inDirection.mp hRow)
  obtain ⟨records, hRecords⟩ := exists_mapM_ok hAll
  refine ⟨records, hPages.trans (congrArg some hRecords), ?_⟩
  rw [map_of_mapM_ok (fun row record hRow => storedRecord_rkey hRow) hRecords]
  exact List.map_id _

end

/-! ## Two repositories -/

/-- A repository whose tree is one node: the scan yields all of it when no key is before the
prefix, and every key is under the prefix or shorter than it. -/
def sampleReads (tree : Tree String) (readRecord : String → Except String (Ipld String)) :
    RecordReads String where
  tree
  entriesPrefixed := fun _ => tree.entries.map .ok
  readRecord

theorem sampleReads_covers {tree : Tree String}
    {readRecord : String → Except String (Ipld String)} {start : String} :
    Covers ((sampleReads tree readRecord).entriesPrefixed start)
      (sampleReads tree readRecord).tree start :=
  ⟨tree.entries, rfl, tree.sorted, fun _ he => assocGet_of_mem tree.sorted he,
    fun _ _ h => mem_of_assocGet h⟩

def noteReads : RecordReads String :=
  sampleReads
    ⟨[("com.example.note/b", "bafyreigfqy7j4pd2mndwscktqcj5ktaahdujpwrnxjupjbsehji3mgrtx4"),
      ("com.example.note/c", "bafyreid7yk7qb4blnqsqtkxtjafnehbw45v4zk4dwhsnfd5vtrreuvwxoy"),
      ("zz/x", "bafyreie7gquocle4ywdacgmmj6zdww44co2gca5mstts4zqqi4y3erek5e")],
      by decide +kernel⟩
    fun cid =>
      if cid = "bafyreigfqy7j4pd2mndwscktqcj5ktaahdujpwrnxjupjbsehji3mgrtx4" then
        .ok (.map [("n", .integer 1)])
      else if cid = "bafyreid7yk7qb4blnqsqtkxtjafnehbw45v4zk4dwhsnfd5vtrreuvwxoy" then
        .ok (.map [("n", .integer 2)])
      else .ok (.map [("n", .integer 3)])

theorem notes_are_listed_downwards :
    ∃ records,
      listPages sampleBase64 noteReads "com.example.note" 1 true 3 none = some (.ok records) ∧
      records.map (fun record => (record.rkey, record.cid)) =
        [("c", "bafyreid7yk7qb4blnqsqtkxtjafnehbw45v4zk4dwhsnfd5vtrreuvwxoy"),
          ("b", "bafyreigfqy7j4pd2mndwscktqcj5ktaahdujpwrnxjupjbsehji3mgrtx4")] := by
  have hRows : collectionRows noteReads.tree "com.example.note" =
      [("b", "bafyreigfqy7j4pd2mndwscktqcj5ktaahdujpwrnxjupjbsehji3mgrtx4"),
        ("c", "bafyreid7yk7qb4blnqsqtkxtjafnehbw45v4zk4dwhsnfd5vtrreuvwxoy")] := by
    decide +kernel
  have hListed := (listed_pages_are_the_collection sampleBase64 noteReads "com.example.note" 1
    true 3 (by decide) sampleReads_covers (by rw [hRows]; decide) (by rw [hRows]; decide)).2.2.2
  rw [hRows] at hListed
  apply hListed
  intro row hRow
  rcases List.mem_pair.mp hRow with rfl | rfl
  · exact ⟨_, rfl⟩
  · exact ⟨_, rfl⟩

/-- Imported with an integer below the range of `i64`. -/
def importedReads : RecordReads String :=
  sampleReads
    ⟨[("com.example.note/b", "bafyreig7fcqzjtty53riy32byam3q43scpbcv3wshczd5lxwirfarfdwyi")],
      by decide +kernel⟩
    fun _ => .ok (.map [("n", .integer (-(2 ^ 63) - 1))])

theorem unreadable_record_ends_listing :
    Covers (importedReads.entriesPrefixed ("com.example.note" ++ "/")) importedReads.tree
        ("com.example.note" ++ "/") ∧
      collectionRows importedReads.tree "com.example.note" =
        [("b", "bafyreig7fcqzjtty53riy32byam3q43scpbcv3wshczd5lxwirfarfdwyi")] ∧
      listPages sampleBase64 importedReads "com.example.note" 1 false 2 none =
        some (.error (.invalidRecord
          "integer -9223372036854775809 is outside the JSON-representable range (i64/u64)")) := by
  refine ⟨sampleReads_covers, by decide +kernel, ?_⟩
  rfl

end Ezpds.Repo
