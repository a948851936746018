import Ezpds.Auth.ScopeChecks

/-!
# Accept values as they are checked

The check of a blob lowers the ASCII letters of a grant, while a canonical token has all of
its letters in lowercase. A value that both leave alike permits the same; one that they do
not permits something else, unless a wildcard covers it.

* `acceptMatches_iff`: what a value covers.
* `acceptAllows_iff`: when the canonical values permit what the given ones do.
-/

namespace Ezpds.Auth

open Library Repo

variable {table : CaseTable} {ty sub ty' sub' : List Char} {v w mimeType : String}
  {accept set : List String}

/-! ## What a value covers -/

def asciiLowerText (v : String) : String :=
  String.ofList (toAsciiLowercase v.toList)

/-- A value in lowercase covers a MIME type. -/
def AcceptCovers (v mimeType : String) : Prop :=
  v = "*/*" ∨ v = mimeType ∨ ∃ ty, v = acceptText ty ['*'] ∧ ty ++ ['/'] <+: mimeType.toList

theorem toLower_eq_iff {c z : Char} (hz : z.isAlpha = false) : c.toLower = z ↔ c = z := by
  by_cases hc : c.toNat < 128
  · have hEach := @ascii_cases (fun c => c.toLower = c ∨ c.toLower.isAlpha = true ∧
      c.isAlpha = true) (by decide) c hc
    rcases hEach with hKept | ⟨hLower, hAlpha⟩
    · rw [hKept]
    · constructor
      · intro hEq
        rw [hEq, hz] at hLower
        cases hLower
      · intro hEq
        rw [hEq, hz] at hAlpha
        cases hAlpha
  · rw [toLower_of_not_ascii (by omega)]

theorem mem_asciiLower {s : List Char} {z : Char} (hz : z.isAlpha = false) :
    z ∈ toAsciiLowercase s ↔ z ∈ s := by
  rw [toAsciiLowercase, List.mem_map]
  constructor
  · intro h
    obtain ⟨c, hc, hEq⟩ := h
    rwa [(toLower_eq_iff hz).mp hEq] at hc
  · intro h
    exact ⟨z, h, (toLower_eq_iff hz).mpr rfl⟩

theorem asciiLower_star_iff {s : List Char} : toAsciiLowercase s = ['*'] ↔ s = ['*'] := by
  rw [toAsciiLowercase, List.map_eq_singleton_iff]
  constructor
  · intro h
    obtain ⟨c, rfl, hEq⟩ := h
    rw [(toLower_eq_iff (by decide)).mp hEq]
  · intro h
    exact ⟨'*', h, rfl⟩

theorem asciiLowerText_accept :
    asciiLowerText (acceptText ty sub) =
      acceptText (toAsciiLowercase ty) (toAsciiLowercase sub) := by
  rw [asciiLowerText, acceptText_toList, acceptText, toAsciiLowercase, List.map_append,
    List.map_cons]
  rfl

theorem AcceptParts.asciiLower (h : AcceptParts ty sub) :
    AcceptParts (toAsciiLowercase ty) (toAsciiLowercase sub) where
  ty_ne := by simpa [toAsciiLowercase] using h.ty_ne
  sub_ne := by simpa [toAsciiLowercase] using h.sub_ne
  ty_slash := by
    rw [mem_asciiLower (by decide)]
    exact h.ty_slash
  sub_slash := by
    rw [mem_asciiLower (by decide)]
    exact h.sub_slash
  ty_blank := by
    rw [mem_asciiLower (by decide)]
    exact h.ty_blank
  sub_blank := by
    rw [mem_asciiLower (by decide)]
    exact h.sub_blank
  star := by
    rw [asciiLower_star_iff, mem_asciiLower (by decide),
      mem_asciiLower (by decide)]
    exact h.star

theorem isAccept_asciiLowerText (h : isAccept v = true) : isAccept (asciiLowerText v) = true := by
  obtain ⟨ty, sub, rfl, hParts⟩ := isAccept_iff.mp h
  exact isAccept_iff.mpr ⟨_, _, asciiLowerText_accept, hParts.asciiLower⟩

theorem acceptMatches_iff :
    acceptMatches v mimeType = true ↔
      AcceptCovers (asciiLowerText v) (asciiLowerText mimeType) := by
  have hWild : ∀ g m : List Char,
      ("/*".toList.isSuffixOf g && (g.take (g.length - 2) ++ ['/']).isPrefixOf m) = true ↔
        ∃ ty, g = ty ++ ['/', '*'] ∧ ty ++ ['/'] <+: m := by
    intro g m
    rw [Bool.and_eq_true, List.isSuffixOf_iff_suffix, List.isPrefixOf_iff_prefix]
    constructor
    · intro h
      obtain ⟨⟨ty, rfl⟩, hPrefix⟩ := h
      refine ⟨ty, rfl, ?_⟩
      simpa using hPrefix
    · intro h
      obtain ⟨ty, rfl, hPrefix⟩ := h
      refine ⟨⟨ty, rfl⟩, ?_⟩
      simpa using hPrefix
  have hText : ∀ (g : List Char) (w : String), String.ofList g = w ↔ g = w.toList := by
    intro g w
    rw [← String.toList_inj, String.toList_ofList]
  rw [acceptMatches, AcceptCovers, Bool.or_eq_true, Bool.or_eq_true, hWild, beq_iff_eq, beq_iff_eq,
    or_assoc]
  simp only [asciiLowerText, hText, acceptText_toList, String.toList_ofList]

theorem prefix_accept_iff (hTy : '/' ∉ ty) (hTy' : '/' ∉ ty') :
    ty' ++ ['/'] <+: (acceptText ty sub).toList ↔ ty' = ty := by
  rw [acceptText_toList]
  constructor
  · intro h
    obtain ⟨rest, hEq⟩ := h
    rw [List.append_assoc, List.singleton_append] at hEq
    have hText : acceptText ty' rest = acceptText ty sub := by
      rw [acceptText, acceptText, hEq]
    exact ((acceptText_inj hTy' hTy).mp hText).1
  · intro h
    rw [h]
    exact ⟨sub, by simp⟩

/-- A value with the subtype `*` has no other parts. -/
theorem acceptText_wild (h : AcceptParts ty sub) (hEq : acceptText ty sub = acceptText ty' ['*']) :
    ty = ty' ∧ sub = ['*'] := by
  have hList := congrArg String.toList hEq
  rw [acceptText_toList, acceptText_toList] at hList
  have hParts := (List.append_cons_inj_of_notMem h.ty_slash h.sub_slash).mp hList
  exact ⟨hParts.1, hParts.2.2⟩

/-- What a value covers apart from itself and everything. -/
theorem acceptCovers_cases (h : AcceptParts ty sub) (hAny : acceptText ty sub ≠ "*/*")
    (hCovers : AcceptCovers (acceptText ty sub) w) :
    acceptText ty sub = w ∨ sub = ['*'] ∧ ty ++ ['/'] <+: w.toList := by
  rcases hCovers with hEq | hEq | ⟨ty', hEq, hPrefix⟩
  · exact absurd hEq hAny
  · exact Or.inl hEq
  · obtain ⟨rfl, hSub⟩ := acceptText_wild h hEq
    exact Or.inr ⟨hSub, hPrefix⟩

theorem acceptCovers_wild (h : ty ++ ['/'] <+: w.toList) :
    AcceptCovers (acceptText ty ['*']) w :=
  Or.inr (Or.inr ⟨ty, rfl, h⟩)

/-- A value that a wildcard makes redundant covers nothing besides. -/
theorem acceptCovers_redundant (h : AcceptParts ty sub) (hSub : sub ≠ ['*'])
    (hCovers : AcceptCovers (acceptText ty sub) w) : AcceptCovers (acceptText ty ['*']) w := by
  have hAny : acceptText ty sub ≠ "*/*" := fun hEq =>
    hSub (@acceptText_wild ty sub ['*'] h hEq).2
  rcases acceptCovers_cases h hAny hCovers with rfl | ⟨hWild, _⟩
  · apply acceptCovers_wild
    rw [prefix_accept_iff h.ty_slash h.ty_slash]
  · exact absurd hWild hSub

/-- The values that are not redundant cover what all of them do. -/
theorem acceptCovers_left (hSet : ∀ a ∈ set, isAccept a = true) :
    (∃ a ∈ set, AcceptCovers a w) ↔
      ∃ a ∈ set, ¬ isRedundantAccept a set = true ∧ AcceptCovers a w := by
  constructor
  · intro h
    obtain ⟨a, ha, hCovers⟩ := h
    by_cases hRedundant : isRedundantAccept a set = true
    · obtain ⟨ty, sub, rfl, hParts⟩ := isAccept_iff.mp (hSet a ha)
      obtain ⟨hSub, hWild⟩ :=
        (isRedundantAccept_iff hParts.ty_slash hParts.sub_slash).mp hRedundant
      refine ⟨_, hWild, ?_, acceptCovers_redundant hParts hSub hCovers⟩
      rw [isRedundantAccept_iff hParts.ty_slash (by decide)]
      simp
    · exact ⟨a, ha, hRedundant, hCovers⟩
  · intro h
    obtain ⟨a, ha, _, hCovers⟩ := h
    exact ⟨a, ha, hCovers⟩

/-! ## The canonical values -/

/-- `allows_blob` over the values of a grant. -/
def acceptAllows (accept : List String) (mimeType : String) : Bool :=
  accept.any (acceptMatches · mimeType)

theorem acceptAllows_iff_covers :
    acceptAllows accept mimeType = true ↔
      ∃ a ∈ accept, AcceptCovers (asciiLowerText a) (asciiLowerText mimeType) := by
  simp only [acceptAllows, List.any_eq_true, acceptMatches_iff]

/-- The values that no wildcard covers are the same in lowercase as they are with their ASCII
letters lowered. -/
def AcceptKept (table : CaseTable) (accept : List String) : Prop :=
  "*/*" ∈ accept ∨ ∀ v ∈ accept,
    isRedundantAccept (asciiLowerText v) (accept.map asciiLowerText) = true ∨
      lowerText table v = asciiLowerText v

theorem lowerText_asciiLowerText (hTable : table.Lawful) (v : String) :
    lowerText table (asciiLowerText v) = lowerText table v := by
  rw [lowerText, asciiLowerText, String.toList_ofList, hTable.lower_asciiLower, lowerText]

theorem asciiLowerText_lowerText (hTable : table.Lawful) (v : String) :
    asciiLowerText (lowerText table v) = lowerText table v := by
  rw [asciiLowerText, lowerText, String.toList_ofList, hTable.asciiLower_lower]

theorem asciiLowerText_idem (v : String) :
    asciiLowerText (asciiLowerText v) = asciiLowerText v := by
  rw [asciiLowerText, asciiLowerText, String.toList_ofList, toAsciiLowercase_idem]

section Collapse

variable (hTable : table.Lawful) (hAccept : ∀ a ∈ accept, isAccept a = true)
  (hAny : "*/*" ∉ accept)

include hTable hAccept hAny

/-- The canonical values cover what all of the lowercase values do. -/
theorem collapse_covers :
    acceptAllows (collapseAccept table accept) mimeType = true ↔
      ∃ a ∈ accept, AcceptCovers (lowerText table a) (asciiLowerText mimeType) := by
  have hUnique : ∀ a ∈ uniqueAccept table accept, isAccept a = true := by
    intro a ha
    exact isAccept_uniqueAccept hTable hAccept ha
  have hMem : (∃ a ∈ uniqueAccept table accept, AcceptCovers a (asciiLowerText mimeType)) ↔
      ∃ a ∈ accept, AcceptCovers (lowerText table a) (asciiLowerText mimeType) := by
    constructor
    · intro h
      obtain ⟨a, ha, hCovers⟩ := h
      obtain ⟨v, hv, rfl⟩ := mem_uniqueAccept.mp ha
      exact ⟨v, hv, hCovers⟩
    · intro h
      obtain ⟨v, hv, hCovers⟩ := h
      exact ⟨_, mem_uniqueAccept.mpr ⟨v, hv, rfl⟩, hCovers⟩
  rw [acceptAllows_iff_covers, ← hMem, acceptCovers_left hUnique]
  constructor
  · intro h
    obtain ⟨a, ha, hCovers⟩ := h
    obtain ⟨haUnique, hLeft⟩ := (mem_collapseAccept_of_not_any hAny).mp ha
    obtain ⟨v, _, rfl⟩ := mem_uniqueAccept.mp haUnique
    rw [asciiLowerText_lowerText hTable] at hCovers
    exact ⟨_, haUnique, hLeft, hCovers⟩
  · intro h
    obtain ⟨a, haUnique, hLeft, hCovers⟩ := h
    refine ⟨a, (mem_collapseAccept_of_not_any hAny).mpr ⟨haUnique, hLeft⟩, ?_⟩
    obtain ⟨v, _, rfl⟩ := mem_uniqueAccept.mp haUnique
    rwa [asciiLowerText_lowerText hTable]

omit hAny in
/-- What a lowercase value covers, the value itself covers or a wildcard that is kept. -/
theorem covers_of_lower_covers
    (hKept : ∀ v ∈ accept,
      isRedundantAccept (asciiLowerText v) (accept.map asciiLowerText) = true ∨
        lowerText table v = asciiLowerText v)
    (hv : v ∈ accept) (hCovers : AcceptCovers (lowerText table v) w) :
    ∃ a ∈ accept, AcceptCovers (asciiLowerText a) w := by
  rcases hKept v hv with hRedundant | hEq
  · obtain ⟨ty, sub, hText, hParts⟩ := isAccept_iff.mp (isAccept_asciiLowerText (hAccept v hv))
    rw [hText, isRedundantAccept_iff hParts.ty_slash hParts.sub_slash] at hRedundant
    obtain ⟨hSub, hWild⟩ := hRedundant
    obtain ⟨v', hv', hText'⟩ := List.mem_map.mp hWild
    -- the wildcard is not redundant, so its type is in lowercase
    have hFixed : lowerText table v' = acceptText ty ['*'] := by
      rcases hKept v' hv' with hRedundant' | hEq'
      · rw [hText', isRedundantAccept_iff hParts.ty_slash (by decide)] at hRedundant'
        exact absurd rfl hRedundant'.1
      · rw [hEq', hText']
    have hTy : table.toLowercase ty = ty := by
      have hSame := lowerText_asciiLowerText hTable v'
      rw [hText', hFixed, lowerText_accept hTable,
        acceptText_inj (hParts.lower hTable).ty_slash hParts.ty_slash] at hSame
      exact hSame.1
    have hLower : lowerText table v = acceptText ty (table.toLowercase sub) := by
      rw [← lowerText_asciiLowerText hTable v, hText, lowerText_accept hTable, hTy]
    have hLowerParts := hParts.lower hTable
    rw [hTy] at hLowerParts
    rw [hLower] at hCovers
    refine ⟨v', hv', ?_⟩
    rw [hText']
    apply acceptCovers_redundant hLowerParts _ hCovers
    rwa [ne_eq, lower_star_iff hTable]
  · rw [hEq] at hCovers
    exact ⟨v, hv, hCovers⟩

/-- A wildcard is kept when the canonical values permit its own spelling. -/
theorem wildcard_kept
    (hSame : ∀ mimeType, acceptAllows accept mimeType =
      acceptAllows (collapseAccept table accept) mimeType)
    {v : String} (hv : v ∈ accept) (hText : asciiLowerText v = acceptText ty ['*'])
    (hTy : '/' ∉ ty) : lowerText table v = asciiLowerText v := by
  have hRaw : acceptAllows accept (asciiLowerText v) = true := by
    rw [acceptAllows_iff_covers]
    exact ⟨v, hv, Or.inr (Or.inl (asciiLowerText_idem v).symm)⟩
  rw [hSame, collapse_covers hTable hAccept hAny, asciiLowerText_idem] at hRaw
  obtain ⟨v', hv', hCovers⟩ := hRaw
  have hEq : lowerText table v' = asciiLowerText v := by
    obtain ⟨ty', sub', hText', hParts'⟩ :=
      isAccept_iff.mp (isAccept_lowerText hTable (hAccept v' hv'))
    have hNot : acceptText ty' sub' ≠ "*/*" := by
      rw [← hText', ne_eq, lowerText_any hTable (hAccept v' hv')]
      intro hEq
      exact hAny (hEq ▸ hv')
    rw [hText'] at hCovers ⊢
    rcases acceptCovers_cases hParts' hNot hCovers with hEq | ⟨hSub, hPrefix⟩
    · exact hEq
    · rw [hText, prefix_accept_iff hTy hParts'.ty_slash] at hPrefix
      rw [hText, hSub, hPrefix]
  calc lowerText table v
      = lowerText table (asciiLowerText v) := (lowerText_asciiLowerText hTable v).symm
    _ = lowerText table (lowerText table v') := by rw [hEq]
    _ = lowerText table v' := lowerText_idem hTable v'
    _ = asciiLowerText v := hEq

/-- The canonical values permit what the given ones do, exactly when the values that no
wildcard covers are kept. -/
theorem acceptAllows_not_any_iff :
    (∀ mimeType, acceptAllows accept mimeType =
      acceptAllows (collapseAccept table accept) mimeType) ↔
      ∀ v ∈ accept, isRedundantAccept (asciiLowerText v) (accept.map asciiLowerText) = true ∨
        lowerText table v = asciiLowerText v := by
  constructor
  · intro hSame v hv
    rw [or_iff_not_imp_left]
    intro hLeft
    have hRaw : acceptAllows accept (asciiLowerText v) = true := by
      rw [acceptAllows_iff_covers]
      exact ⟨v, hv, Or.inr (Or.inl (asciiLowerText_idem v).symm)⟩
    rw [hSame, collapse_covers hTable hAccept hAny, asciiLowerText_idem] at hRaw
    obtain ⟨v', hv', hCovers⟩ := hRaw
    obtain ⟨ty', sub', hText', hParts'⟩ := isAccept_iff.mp (hAccept v' hv')
    obtain ⟨ty, sub, hText, hParts⟩ := isAccept_iff.mp (isAccept_asciiLowerText (hAccept v hv))
    have hNot : lowerText table v' ≠ "*/*" := by
      rw [ne_eq, lowerText_any hTable (hAccept v' hv')]
      intro hEq
      exact hAny (hEq ▸ hv')
    have hLower : lowerText table v' =
        acceptText (table.toLowercase ty') (table.toLowercase sub') := by
      rw [hText', lowerText_accept hTable]
    rw [hLower] at hNot hCovers
    have hEq : lowerText table v' = asciiLowerText v := by
      rcases acceptCovers_cases (hParts'.lower hTable) hNot hCovers with hEq | ⟨hSub, hPrefix⟩
      · rw [hLower, hEq]
      · -- a wildcard covers the value, and it is kept as well
        rw [lower_star_iff hTable] at hSub
        rw [hText, prefix_accept_iff hParts.ty_slash (hParts'.lower hTable).ty_slash] at hPrefix
        have hWild : asciiLowerText v' = acceptText (toAsciiLowercase ty') ['*'] := by
          rw [hText', hSub, asciiLowerText_accept]
          rfl
        have hKept := wildcard_kept hTable hAccept hAny hSame hv' hWild hParts'.asciiLower.ty_slash
        have hBase : asciiLowerText v' = acceptText ty ['*'] := by
          rw [← hKept, hLower, hPrefix, hSub, (lower_star_iff hTable).mpr rfl]
        by_cases hSubStar : sub = ['*']
        · rw [hKept, hBase, hText, hSubStar]
        · refine absurd ?_ hLeft
          rw [hText, isRedundantAccept_iff hParts.ty_slash hParts.sub_slash]
          exact ⟨hSubStar, List.mem_map.mpr ⟨v', hv', hBase⟩⟩
    calc lowerText table v
        = lowerText table (asciiLowerText v) := (lowerText_asciiLowerText hTable v).symm
      _ = lowerText table (lowerText table v') := by rw [hEq]
      _ = lowerText table v' := lowerText_idem hTable v'
      _ = asciiLowerText v := hEq
  · intro hKept mimeType
    rw [Bool.eq_iff_iff, collapse_covers hTable hAccept hAny, acceptAllows_iff_covers]
    constructor
    · intro h
      have hLowered : ∀ a ∈ accept.map asciiLowerText, isAccept a = true := by
        intro a ha
        obtain ⟨v, hv, rfl⟩ := List.mem_map.mp ha
        exact isAccept_asciiLowerText (hAccept v hv)
      have hSet : ∃ a ∈ accept.map asciiLowerText, AcceptCovers a (asciiLowerText mimeType) := by
        obtain ⟨v, hv, hCovers⟩ := h
        exact ⟨_, List.mem_map_of_mem hv, hCovers⟩
      obtain ⟨a, ha, hLeft, hCovers⟩ := (acceptCovers_left hLowered).mp hSet
      obtain ⟨v, hv, rfl⟩ := List.mem_map.mp ha
      refine ⟨v, hv, ?_⟩
      rwa [(hKept v hv).resolve_left hLeft]
    · intro h
      obtain ⟨v, hv, hCovers⟩ := h
      exact covers_of_lower_covers hTable hAccept hKept hv hCovers

end Collapse

/-- The canonical values of a blob grant permit what its values do, exactly when those that
no wildcard covers are kept. -/
theorem acceptAllows_iff (hTable : table.Lawful) (hAccept : ∀ a ∈ accept, isAccept a = true) :
    (∀ mimeType, acceptAllows accept mimeType =
      acceptAllows (collapseAccept table accept) mimeType) ↔ AcceptKept table accept := by
  by_cases hAny : "*/*" ∈ accept
  · have hAll : ∀ {values : List String}, "*/*" ∈ values → ∀ mimeType,
        acceptAllows values mimeType = true := by
      intro values hMem mimeType
      rw [acceptAllows_iff_covers]
      exact ⟨_, hMem, Or.inl rfl⟩
    refine ⟨fun _ => Or.inl hAny, fun _ mimeType => ?_⟩
    rw [collapseAccept_of_any hAny, hAll hAny, hAll (List.mem_singleton_self _)]
  · rw [acceptAllows_not_any_iff hTable hAccept hAny, AcceptKept]
    exact (or_iff_right hAny).symm

end Ezpds.Auth
