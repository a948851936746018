import Ezpds.Auth.ScopeGrammar
import Ezpds.Repo.LexiconFormats

/-!
# One syntax of identifiers

The grammar of scopes, the write path, the record lexicon and the parameters of requests
check NSIDs and record keys with functions of their own. They accept the same texts.

* `isNsid_iff`, `validateCollection_iff`: an NSID.
* `isRecordKey_iff`: a record key.
* `identifiers_agree`: all the checks together.
-/

namespace Ezpds.Auth

open Library Repo

/-! ## NSIDs -/

/-- What every segment of an NSID is. -/
structure NsidSegment (seg : List Char) : Prop where
  nonempty : seg ≠ []
  length : seg.length ≤ 63
  chars : ∀ c ∈ seg, isNsidChar c = true
  head : seg.head? ≠ some '-'
  last : seg.getLast? ≠ some '-'

/-- The segments of an NSID, by index. -/
structure NsidSegments (segments : List (List Char)) : Prop where
  count : 3 ≤ segments.length
  each : ∀ seg ∈ segments, NsidSegment seg
  authority : ∀ seg, segments[0]? = some seg → seg.head?.any Char.isDigit = false
  name : ∀ seg, segments[segments.length - 1]? = some seg →
    seg.head?.any Char.isDigit = false ∧ '-' ∉ seg

theorem isNsidChar_ascii {c : Char} (h : isNsidChar c = true) : c.toNat < 128 := by
  rw [isNsidChar, Bool.or_eq_true, beq_iff_eq] at h
  rcases h with h | rfl
  · exact isAlphanum_ascii h
  · decide

theorem length_utf8_nsid {seg : List Char} (h : ∀ c ∈ seg, isNsidChar c = true) :
    (seg.flatMap String.utf8EncodeChar).length = seg.length := by
  rw [utf8_ascii fun c hc => isNsidChar_ascii (h c hc), List.length_map]

/-- Where a letter or a digit stands, it is the one or the other. -/
theorem isAlpha_nsid {c : Char} (h : isNsidChar c = true) (hHyphen : c ≠ '-') :
    c.isAlpha = !c.isDigit :=
  @ascii_cases (fun c => isNsidChar c = true → c ≠ '-' → c.isAlpha = !c.isDigit)
    (by decide) c (isNsidChar_ascii h) h hHyphen

theorem NsidSegment.alpha_head {seg : List Char} (h : NsidSegment seg) :
    seg.head?.any Char.isAlpha = !seg.head?.any Char.isDigit := by
  cases seg with
  | nil => exact absurd rfl h.nonempty
  | cons c seg =>
    have hHyphen : c ≠ '-' := by
      intro hEq
      exact h.head (by rw [hEq]; rfl)
    exact isAlpha_nsid (h.chars c List.mem_cons_self) hHyphen

theorem nsidSegment_iff {seg : List Char} :
    NsidSegment seg ↔ (∀ c ∈ seg, isNsidChar c = true) ∧
      (seg.isEmpty = false ∧ decide (seg.length > 63) = false) ∧
      (seg.head? == some '-') = false ∧ (seg.getLast? == some '-') = false := by
  constructor
  · intro h
    exact ⟨h.chars, ⟨by simpa using h.nonempty, by simpa using h.length⟩,
      by simpa using h.head, by simpa using h.last⟩
  · intro h
    obtain ⟨hChars, ⟨hEmpty, hLength⟩, hHead, hLast⟩ := h
    exact ⟨by simpa using hEmpty, by simpa using hLength, hChars, by simpa using hHead,
      by simpa using hLast⟩

/-- One turn of the loop over the segments. -/
theorem segmentOk_iff {last i : Nat} {seg : List Char} :
    segmentOk last i seg = true ↔ NsidSegment seg ∧
      (i = 0 → seg.head?.any Char.isDigit = false) ∧
      (i = last → seg.head?.any Char.isDigit = false ∧ '-' ∉ seg) := by
  have hAny : (seg.any fun c => c == '-') = false ↔ '-' ∉ seg := by
    rw [List.any_beq', List.contains_eq_mem]
    simp
  simp only [segmentOk, Bool.and_eq_true, Bool.not_eq_true', Bool.or_eq_false_iff,
    Bool.and_eq_false_iff, List.all_eq_true, hAny]
  constructor
  · intro h
    obtain ⟨⟨⟨⟨⟨hEmpty, hLength⟩, hChars⟩, hEnds⟩, hFirst⟩, hName⟩ := h
    rw [length_utf8_nsid hChars] at hLength
    have hSeg := nsidSegment_iff.mpr ⟨hChars, ⟨hEmpty, hLength⟩, hEnds⟩
    rw [hSeg.alpha_head] at hName
    refine ⟨hSeg, ?_, ?_⟩
    · rintro rfl
      simpa using hFirst
    · rintro rfl
      simpa using hName
  · intro h
    obtain ⟨hSeg, hFirst, hName⟩ := h
    obtain ⟨hChars, ⟨hEmpty, hLength⟩, hEnds⟩ := nsidSegment_iff.mp hSeg
    rw [length_utf8_nsid hChars, hSeg.alpha_head]
    refine ⟨⟨⟨⟨⟨hEmpty, hLength⟩, hChars⟩, hEnds⟩, ?_⟩, ?_⟩
    · by_cases hi : i = 0
      · exact Or.inr (hFirst hi)
      · exact Or.inl (by simpa using hi)
    · by_cases hi : i = last
      · exact Or.inr (by simpa using hName hi)
      · exact Or.inl (by simpa using hi)

theorem all_segmentOk {segments : List (List Char)} (h : 3 ≤ segments.length) :
    (segments.zipIdx.all fun (seg, i) => segmentOk (segments.length - 1) i seg) = true ↔
      NsidSegments segments := by
  rw [List.all_eq_true]
  constructor
  · intro hAll
    have hOk : ∀ {i seg}, segments[i]? = some seg → segmentOk (segments.length - 1) i seg = true :=
      fun {i seg} hi => hAll (seg, i) (List.mk_mem_zipIdx_iff_getElem?.mpr hi)
    refine ⟨h, ?_, ?_, ?_⟩
    · intro seg hSeg
      obtain ⟨i, hi⟩ := List.mem_iff_getElem?.mp hSeg
      exact (segmentOk_iff.mp (hOk hi)).1
    · intro seg hi
      exact (segmentOk_iff.mp (hOk hi)).2.1 rfl
    · intro seg hi
      exact (segmentOk_iff.mp (hOk hi)).2.2 rfl
  · intro hSegments entry hEntry
    obtain ⟨seg, i⟩ := entry
    have hi := List.mk_mem_zipIdx_iff_getElem?.mp hEntry
    apply segmentOk_iff.mpr
    refine ⟨hSegments.each seg (List.mem_of_getElem? hi), ?_, ?_⟩
    · rintro rfl
      exact hSegments.authority seg hi
    · rintro rfl
      exact hSegments.name seg hi

theorem validateCollection_iff {v : String} :
    validateCollection v = .ok () ↔
      (strBytes v).length ≤ 317 ∧ NsidSegments (v.toList.splitOn '.') := by
  simp only [validateCollection]
  by_cases hLength : (strBytes v).length ≤ 317
  · by_cases hCount : 3 ≤ (v.toList.splitOn '.').length
    · have hEmpty : (v.isEmpty || decide ((strBytes v).length > 317)) = false := by
        have hNe : v ≠ "" := by
          rintro rfl
          revert hCount
          decide +kernel
        simp [hNe, hLength]
      rw [hEmpty, if_neg (by simp), if_neg (by omega), ← all_segmentOk hCount]
      split
      · rename_i hAll
        exact ⟨fun _ => ⟨hLength, hAll⟩, fun _ => rfl⟩
      · rename_i hNot
        exact ⟨fun h => (by cases h), fun h => absurd h.2 hNot⟩
    · constructor
      · intro h
        split at h
        · cases h
        · rw [if_pos (by omega)] at h
          cases h
      · intro h
        exact absurd h.2.count hCount
  · constructor
    · intro h
      rw [if_pos (by simp; omega)] at h
      cases h
    · intro h
      exact absurd h.1 hLength

theorem mem_of_mem_splitOn {sep c : Char} {cs seg : List Char} (hSeg : seg ∈ cs.splitOn sep)
    (h : c ∈ seg) : c ∈ cs ∧ c ≠ sep := by
  induction cs generalizing seg with
  | nil =>
    have hEmpty : seg = [] := by simpa using hSeg
    rw [hEmpty] at h
    cases h
  | cons d cs ih =>
    rw [List.splitOn_cons_eq_if_modifyHead] at hSeg
    by_cases hd : d = sep
    · rw [if_pos (by simpa using hd)] at hSeg
      rcases List.mem_cons.mp hSeg with rfl | hSeg
      · cases h
      · obtain ⟨hMem, hNe⟩ := ih hSeg h
        exact ⟨List.mem_cons_of_mem _ hMem, hNe⟩
    · rw [if_neg (by simpa using hd)] at hSeg
      obtain ⟨first, rest, hSplit⟩ := List.exists_cons_of_ne_nil (List.splitOn_ne_nil sep cs)
      rw [hSplit] at ih hSeg
      rw [List.modifyHead_cons] at hSeg
      rcases List.mem_cons.mp hSeg with rfl | hSeg
      · rcases List.mem_cons.mp h with rfl | h
        · exact ⟨List.mem_cons_self, hd⟩
        · obtain ⟨hMem, hNe⟩ := ih List.mem_cons_self h
          exact ⟨List.mem_cons_of_mem _ hMem, hNe⟩
      · obtain ⟨hMem, hNe⟩ := ih (List.mem_cons_of_mem _ hSeg) h
        exact ⟨List.mem_cons_of_mem _ hMem, hNe⟩

/-- The characters of a text are those of its segments and the dots between them. -/
theorem all_splitOn (cs : List Char) :
    (cs.all fun c => c.isAlphanum || c == '.' || c == '-') = true ↔
      ∀ seg ∈ cs.splitOn '.', ∀ c ∈ seg, isNsidChar c = true := by
  have hChar : ∀ c : Char, (c.isAlphanum || c == '.' || c == '-') = true ↔
      isNsidChar c = true ∨ c = '.' := by
    intro c
    rw [isNsidChar]
    simp only [Bool.or_eq_true, beq_iff_eq]
    exact or_right_comm
  simp only [List.all_eq_true, hChar]
  constructor
  · intro h seg hSeg c hc
    obtain ⟨hMem, hNe⟩ := mem_of_mem_splitOn hSeg hc
    exact (h c hMem).resolve_right hNe
  · intro h c hc
    by_cases hDot : c = '.'
    · exact Or.inr hDot
    · obtain ⟨seg, hSeg, hMem⟩ := exists_mem_splitOn hc hDot
      exact Or.inl (h seg hSeg c hMem)

theorem isNsid_iff {v : String} :
    isNsid v = true ↔ (strBytes v).length ≤ 317 ∧ NsidSegments (v.toList.splitOn '.') := by
  have hNe : v.toList.splitOn '.' ≠ [] := List.splitOn_ne_nil '.' v.toList
  have hHead : (v.toList.splitOn '.')[0]? = some ((v.toList.splitOn '.').headD []) := by
    obtain ⟨first, rest, hSplit⟩ := List.exists_cons_of_ne_nil hNe
    rw [hSplit]
    rfl
  have hLast : (v.toList.splitOn '.')[(v.toList.splitOn '.').length - 1]? =
      some ((v.toList.splitOn '.').getLastD []) := by
    rw [← List.getLast?_eq_getElem?, List.getLastD_eq_getLast?, List.getLast?_eq_some_getLast hNe]
    rfl
  simp only [isNsid, Bool.and_eq_true, Bool.not_eq_true', Bool.or_eq_false_iff, all_splitOn,
    decide_eq_true_eq, List.contains_eq_mem, decide_eq_false_iff_not]
  constructor
  · intro h
    obtain ⟨⟨⟨⟨⟨hLength, hChars⟩, hCount⟩, hEach⟩, hFirst⟩, hName⟩ := h
    refine ⟨hLength, hCount, ?_, ?_, ?_⟩
    · intro seg hSeg
      have hOk := List.all_eq_true.mp hEach seg hSeg
      simp only [Bool.and_eq_true, Bool.not_eq_true', Bool.or_eq_false_iff] at hOk
      exact nsidSegment_iff.mpr ⟨hChars seg hSeg, hOk.1, hOk.2⟩
    · intro seg hSeg
      rw [hHead] at hSeg
      rwa [← Option.some.inj hSeg]
    · intro seg hSeg
      rw [hLast] at hSeg
      rwa [← Option.some.inj hSeg]
  · intro h
    obtain ⟨hLength, hSegments⟩ := h
    refine ⟨⟨⟨⟨⟨hLength, fun seg hSeg => (hSegments.each seg hSeg).chars⟩, hSegments.count⟩, ?_⟩,
      hSegments.authority _ hHead⟩, hSegments.name _ hLast⟩
    apply List.all_eq_true.mpr
    intro seg hSeg
    obtain ⟨_, hOk⟩ := nsidSegment_iff.mp (hSegments.each seg hSeg)
    simp only [Bool.and_eq_true, Bool.not_eq_true', Bool.or_eq_false_iff]
    exact hOk

/-! ## Record keys -/

theorem isRecordKey_iff {v : String} : isRecordKey v = true ↔ RecordKey v := by
  have hLength : 1 ≤ (strBytes v).length ↔ v ≠ "" := by
    rw [Nat.succ_le_iff, List.length_pos_iff, strBytes, ne_eq, List.flatMap_eq_nil_iff]
    constructor
    · rintro h rfl
      exact h fun c hc => (by cases hc)
    · intro hNe hAll
      cases hText : v.toList with
      | nil => exact hNe (String.toList_eq_nil_iff.mp hText)
      | cons c cs =>
        exact String.utf8EncodeChar_ne_nil (hAll c (by rw [hText]; exact List.mem_cons_self))
  have hChars : (v.toList.all fun c => c.isAlphanum || ['.', '_', '~', ':', '-'].contains c) =
      v.toList.all isRkeyChar := by
    congr 1
    funext c
    rw [isRkeyChar, Bool.eq_iff_iff]
    simp only [Bool.or_eq_true, List.contains_iff_mem, List.mem_cons, List.not_mem_nil, or_false,
      beq_iff_eq]
    tauto
  simp only [isRecordKey, Bool.and_eq_true, decide_eq_true_eq, bne_iff_ne, hLength, hChars]
  constructor
  · intro h
    obtain ⟨⟨⟨⟨hNonempty, hLe⟩, hDot⟩, hDots⟩, hAll⟩ := h
    exact ⟨hNonempty, hLe, ⟨hDot, hDots⟩, hAll⟩
  · intro h
    exact ⟨⟨⟨⟨h.nonempty, h.length⟩, h.relative.1⟩, h.relative.2⟩, h.chars⟩

/-- A record of any key, in its lexicon. -/
theorem validateRecordKey_any {v : String} :
    Lexicon.validateRecordKey "any" v = .ok () ↔ Lexicon.isValidRecordKey v = true := by
  have hKind : Lexicon.validateRecordKey "any" v =
      if Lexicon.isValidRecordKey v then .ok ()
      else .error ⟨"record key", "does not satisfy `" ++ "any" ++ "`"⟩ := by
    have hLiteral : "literal:".toList.isPrefixOf "any".toList = false := by decide +kernel
    rw [Lexicon.validateRecordKey, hLiteral]
    rfl
  rw [hKind]
  cases Lexicon.isValidRecordKey v <;> simp

/-- All the checks of identifiers agree. -/
theorem identifiers_agree :
    (∀ v, isNsid v = true ↔ validateCollection v = .ok ()) ∧
    (∀ v, isRecordKey v = Lexicon.isValidRecordKey v ∧
      isRecordKey v = Formats.isValidRecordKey v ∧
      (Lexicon.validateRecordKey "any" v = .ok () ↔ isRecordKey v = true) ∧
      ∀ collection, validateRecordPath collection v = .ok () ↔
        validateCollection collection = .ok () ∧ isRecordKey v = true) ∧
    ∀ v, Lexicon.isValidTid v = Formats.isValidTid v := by
  refine ⟨fun v => isNsid_iff.trans validateCollection_iff.symm, fun v => ⟨?_, ?_, ?_, ?_⟩,
    isValidTid_agree⟩
  · exact Bool.eq_iff_iff.mpr (isRecordKey_iff.trans Lexicon.isValidRecordKey_iff.symm)
  · exact Bool.eq_iff_iff.mpr (isRecordKey_iff.trans Formats.isValidRecordKey_iff.symm)
  · rw [validateRecordKey_any, isRecordKey_iff, Lexicon.isValidRecordKey_iff]
  · intro collection
    rw [validateRecordPath_iff, isRecordKey_iff]

end Ezpds.Auth
