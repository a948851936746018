import Mathlib.Data.List.Basic
import Mathlib.Tactic.Common

/-!
# Record paths

A record is stored under the MST key `<collection>/<rkey>`. A collection that passes
`validate_collection` has no slash in it, so a key belongs to one collection only.

* `validateRecordPath_ok`: what an accepted path guarantees.
* `inCollection_recordKey`: the key of a valid path is in its own collection and in no
  other.
-/

namespace Ezpds.Repo

inductive RecordError where
  | repo (message : String)
  | notFound
  | invalidPath (message : String)
  | invalidRecord (message : String)
  | alreadyExists (key : String)
  deriving DecidableEq, Repr

/-- `str::as_bytes`. -/
def strBytes (s : String) : List UInt8 :=
  s.toList.flatMap String.utf8EncodeChar

def isNsidChar (c : Char) : Bool :=
  c.isAlphanum || c == '-'

/-- One turn of the loop of `validate_collection` over the segments. The bytes that the
source looks at are characters here: the alphabet was checked before. -/
def segmentOk (last i : Nat) (seg : List Char) : Bool :=
  !(seg.isEmpty || (seg.flatMap String.utf8EncodeChar).length > 63) &&
    seg.all isNsidChar &&
    !(seg.head? == some '-' || seg.getLast? == some '-') &&
    !(i == 0 && (seg.head?.any Char.isDigit)) &&
    !(i == last && (!(seg.head?.any Char.isAlpha) || seg.any (· == '-')))

def validateCollection (collection : String) : Except RecordError Unit :=
  let invalid := RecordError.invalidPath ("collection is not a valid NSID: " ++ collection)
  if collection.isEmpty || (strBytes collection).length > 317 then .error invalid
  else
    let segments := collection.toList.splitOn '.'
    if segments.length < 3 then .error invalid
    else if segments.zipIdx.all fun (seg, i) => segmentOk (segments.length - 1) i seg then .ok ()
    else .error invalid

def isRkeyChar (c : Char) : Bool :=
  c.isAlphanum || c == '.' || c == '-' || c == '_' || c == ':' || c == '~'

def validateRecordPath (collection rkey : String) : Except RecordError Unit :=
  match validateCollection collection with
  | .error e => .error e
  | .ok () =>
    if rkey.isEmpty || (strBytes rkey).length > 512 || rkey == "." || rkey == ".." then
      .error (.invalidPath ("invalid record key: " ++ rkey))
    else if rkey.toList.all isRkeyChar then .ok ()
    else .error (.invalidPath ("record key has invalid characters: " ++ rkey))

/-- The MST key of a record: `format!("{collection}/{rkey}")`. -/
def recordKey (collection rkey : String) : String :=
  collection ++ "/" ++ rkey

/-- The keys of a collection start with its name and a slash. -/
def InCollection (collection key : String) : Prop :=
  collection.toList ++ ['/'] <+: key.toList

instance (collection key : String) : Decidable (InCollection collection key) :=
  inferInstanceAs (Decidable (_ <+: _))

/-! ## What an accepted path guarantees -/

/-- Splitting drops nothing but separators. -/
theorem exists_mem_splitOn {sep c : Char} {cs : List Char} (h : c ∈ cs) (hc : c ≠ sep) :
    ∃ seg ∈ cs.splitOn sep, c ∈ seg := by
  induction cs with
  | nil => cases h
  | cons d cs ih =>
    rw [List.splitOn_cons_eq_if_modifyHead]
    by_cases hd : d = sep
    · have hTail : c ∈ cs := by
        rcases List.mem_cons.mp h with rfl | h
        · exact absurd hd hc
        · exact h
      obtain ⟨seg, hSeg, hMem⟩ := ih hTail
      rw [if_pos (by simpa using hd)]
      exact ⟨seg, List.mem_cons_of_mem _ hSeg, hMem⟩
    · rw [if_neg (by simpa using hd)]
      obtain ⟨first, rest, hSplit⟩ := List.exists_cons_of_ne_nil (List.splitOn_ne_nil sep cs)
      rw [hSplit] at ih ⊢
      rw [List.modifyHead_cons]
      rcases List.mem_cons.mp h with rfl | h
      · exact ⟨c :: first, List.mem_cons_self, List.mem_cons_self⟩
      · obtain ⟨seg, hSeg, hMem⟩ := ih h
        rcases List.mem_cons.mp hSeg with rfl | hSeg
        · exact ⟨d :: seg, List.mem_cons_self, List.mem_cons_of_mem _ hMem⟩
        · exact ⟨seg, List.mem_cons_of_mem _ hSeg, hMem⟩

theorem segmentOk_chars {last i : Nat} {seg : List Char} (h : segmentOk last i seg = true) :
    ∀ c ∈ seg, isNsidChar c = true := by
  simp only [segmentOk, Bool.and_eq_true] at h
  exact List.all_eq_true.mp h.1.1.1.2

theorem validateCollection_ok {collection : String} (h : validateCollection collection = .ok ()) :
    ∀ c ∈ collection.toList, c ≠ '.' → isNsidChar c = true := by
  intro c hMem hc
  obtain ⟨seg, hSeg, hChar⟩ := exists_mem_splitOn hMem hc
  obtain ⟨i, hi⟩ := List.mem_iff_getElem?.mp hSeg
  simp only [validateCollection] at h
  split at h
  · cases h
  split at h
  · cases h
  split at h
  · rename_i hAll
    have hOk := List.all_eq_true.mp hAll (seg, i) (List.mk_mem_zipIdx_iff_getElem?.mpr hi)
    exact segmentOk_chars hOk c hChar
  · cases h

theorem slash_not_mem_of_validateCollection {collection : String}
    (h : validateCollection collection = .ok ()) : '/' ∉ collection.toList := by
  intro hMem
  have hChar := validateCollection_ok h '/' hMem (by decide)
  revert hChar
  decide

theorem validateRecordPath_ok {collection rkey : String}
    (h : validateRecordPath collection rkey = .ok ()) :
    validateCollection collection = .ok () ∧ '/' ∉ rkey.toList := by
  simp only [validateRecordPath] at h
  cases hCollection : validateCollection collection with
  | error e => simp [hCollection] at h
  | ok u =>
    rw [hCollection] at h
    refine ⟨rfl, ?_⟩
    simp only at h
    split at h
    · cases h
    split at h
    · rename_i hAll
      intro hSlash
      have hChar := List.all_eq_true.mp hAll '/' hSlash
      revert hChar
      decide
    · cases h

theorem nonempty_of_validateRecordPath {collection rkey : String}
    (h : validateRecordPath collection rkey = .ok ()) :
    collection.toList ≠ [] ∧ rkey.toList ≠ [] := by
  have hCollection := (validateRecordPath_ok h).1
  refine ⟨?_, ?_⟩
  · intro hEmpty
    rw [validateCollection, String.toList_eq_nil_iff.mp hEmpty] at hCollection
    simp at hCollection
  · intro hEmpty
    rw [validateRecordPath, hCollection, String.toList_eq_nil_iff.mp hEmpty] at h
    simp at h

theorem slash_mem_recordKey (collection rkey : String) :
    '/' ∈ (recordKey collection rkey).toList := by
  simp [recordKey]

/-- A key is in the collection that its path names, and in no other. -/
theorem inCollection_recordKey {collection other : String} (rkey : String)
    (h : '/' ∉ collection.toList) (h' : '/' ∉ other.toList) :
    InCollection other (recordKey collection rkey) ↔ other = collection := by
  constructor
  · rintro ⟨rest, hEq⟩
    have hKey : other.toList ++ '/' :: rest = collection.toList ++ '/' :: rkey.toList := by
      simpa [recordKey] using hEq
    have hSplit := congrArg (List.splitOn '/') hKey
    rw [List.splitOn_append_cons_self_of_not_mem h', List.splitOn_append_cons_self_of_not_mem h]
      at hSplit
    exact String.toList_inj.mp (List.cons_eq_cons.mp hSplit).1
  · rintro rfl
    exact ⟨rkey.toList, by simp [recordKey]⟩

end Ezpds.Repo
