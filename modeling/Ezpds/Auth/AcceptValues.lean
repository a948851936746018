import Ezpds.Auth.ScopeGrammar

/-!
# Accept values of blob scopes

An accept value is a type and a subtype around a single `/`; the subtype `*` covers every
subtype of its type. Canonical tokens carry the values in lowercase, without those that
another one covers.

* `isAccept_iff`: what is accepted.
* `collapseAccept_idem`: the values that are left are left again.
-/

namespace Ezpds.Auth

open Library Repo

/-- `type/subtype`. -/
def acceptText (ty sub : List Char) : String :=
  String.ofList (ty ++ '/' :: sub)

/-- The two halves of an accept value; a `*` comes up in a wildcard only. -/
structure AcceptParts (ty sub : List Char) : Prop where
  ty_ne : ty ≠ []
  sub_ne : sub ≠ []
  ty_slash : '/' ∉ ty
  sub_slash : '/' ∉ sub
  ty_blank : ' ' ∉ ty
  sub_blank : ' ' ∉ sub
  star : sub = ['*'] ∨ ('*' ∉ ty ∧ '*' ∉ sub)

variable {table : CaseTable} {ty sub ty' sub' : List Char} {v : String} {set : List String}

@[simp] theorem acceptText_toList : (acceptText ty sub).toList = ty ++ '/' :: sub := by
  rw [acceptText, String.toList_ofList]

theorem acceptText_inj (h : '/' ∉ ty) (h' : '/' ∉ ty') :
    acceptText ty sub = acceptText ty' sub' ↔ ty = ty' ∧ sub = sub' := by
  constructor
  · intro hEq
    have hList := congrArg String.toList hEq
    rw [acceptText_toList, acceptText_toList] at hList
    have hSplit := congrArg (splitOnce '/') hList
    rw [splitOnce_append h, splitOnce_append h'] at hSplit
    simpa using hSplit
  · intro hEq
    rw [hEq.1, hEq.2]

theorem findIdx?_slash (h : '/' ∉ ty) :
    (ty ++ '/' :: sub).findIdx? (· == '/') = some ty.length :=
  findIdx?_sep h

theorem isTypeSlashSubtype_iff :
    isTypeSlashSubtype v = true ↔ ∃ ty sub, v = acceptText ty sub ∧ ty ≠ [] ∧ sub ≠ [] ∧
      '/' ∉ ty ∧ '/' ∉ sub ∧ ' ' ∉ ty ∧ ' ' ∉ sub := by
  have hParts : ∀ ty sub, '/' ∉ ty → (isTypeSlashSubtype (acceptText ty sub) = true ↔
      ty ≠ [] ∧ sub ≠ [] ∧ '/' ∉ sub ∧ ' ' ∉ ty ∧ ' ' ∉ sub) := by
    intro ty sub hSlash
    rw [isTypeSlashSubtype, acceptText_toList, findIdx?_slash hSlash]
    cases ty with
    | nil => simp
    | cons c ty =>
      cases sub with
      | nil => simp
      | cons d sub => simp [and_assoc]
  by_cases hSlash : '/' ∈ v.toList
  · obtain ⟨ty, sub, hList, hTy⟩ := List.eq_append_cons_of_mem hSlash
    have hText : v = acceptText ty sub := by
      rw [acceptText, ← hList, String.ofList_toList]
    rw [hText, hParts ty sub hTy]
    constructor
    · intro h
      exact ⟨ty, sub, rfl, h.1, h.2.1, hTy, h.2.2⟩
    · rintro ⟨ty', sub', hEq, hTyNe, hSubNe, hTy', hRest⟩
      obtain ⟨rfl, rfl⟩ := (acceptText_inj hTy hTy').mp hEq
      exact ⟨hTyNe, hSubNe, hRest⟩
  · have hNone : v.toList.findIdx? (· == '/') = none := findIdx?_none hSlash
    rw [isTypeSlashSubtype, hNone]
    constructor
    · intro h
      cases h
    · rintro ⟨ty, sub, rfl, _⟩
      simp at hSlash

theorem endsWithWildcard_iff (hTy : '/' ∉ ty) (hSub : '/' ∉ sub) :
    endsWithWildcard (acceptText ty sub) = true ↔ sub = ['*'] := by
  rw [endsWithWildcard, acceptText_toList, List.isSuffixOf_iff_suffix]
  constructor
  · intro hSuffix
    obtain ⟨before, hEq⟩ := hSuffix
    exact ((List.append_cons_inj_of_notMem hTy hSub).mp hEq.symm).2.2
  · intro hEq
    rw [hEq]
    exact ⟨ty, rfl⟩

theorem isAccept_iff :
    isAccept v = true ↔ ∃ ty sub, v = acceptText ty sub ∧ AcceptParts ty sub := by
  have hParts : ∀ ty sub, '/' ∉ ty → '/' ∉ sub →
      ((!(acceptText ty sub).toList.contains '*' || endsWithWildcard (acceptText ty sub)) = true ↔
        sub = ['*'] ∨ ('*' ∉ ty ∧ '*' ∉ sub)) := by
    intro ty sub hTy hSub
    rw [Bool.or_eq_true, endsWithWildcard_iff hTy hSub, acceptText_toList, or_comm]
    simp
  rw [isAccept]
  by_cases hAny : v = "*/*"
  · rw [if_pos (by simpa using hAny)]
    refine ⟨fun _ => ⟨['*'], ['*'], hAny, ?_⟩, fun _ => rfl⟩
    constructor <;> simp
  · rw [if_neg (by simpa using hAny)]
    by_cases hType : isTypeSlashSubtype v = true
    · obtain ⟨ty, sub, rfl, hTyNe, hSubNe, hTy, hSub, hTyBlank, hSubBlank⟩ :=
        isTypeSlashSubtype_iff.mp hType
      rw [hType, if_neg (by decide), hParts ty sub hTy hSub]
      constructor
      · intro h
        exact ⟨ty, sub, rfl, hTyNe, hSubNe, hTy, hSub, hTyBlank, hSubBlank, h⟩
      · rintro ⟨ty', sub', hEq, h⟩
        obtain ⟨rfl, rfl⟩ := (acceptText_inj hTy h.ty_slash).mp hEq
        exact h.star
    · rw [if_pos (by simpa using hType)]
      constructor
      · intro h
        cases h
      · rintro ⟨ty, sub, rfl, h⟩
        exact absurd (isTypeSlashSubtype_iff.mpr ⟨ty, sub, rfl, h.ty_ne, h.sub_ne, h.ty_slash,
          h.sub_slash, h.ty_blank, h.sub_blank⟩) hType

theorem isRedundantAccept_iff (hTy : '/' ∉ ty) (hSub : '/' ∉ sub) :
    isRedundantAccept (acceptText ty sub) set = true ↔
      sub ≠ ['*'] ∧ acceptText ty ['*'] ∈ set := by
  have hBase : String.ofList ((acceptText ty sub).toList.takeWhile (· != '/')) ++ "/*" =
      acceptText ty ['*'] := by
    rw [acceptText_toList, takeWhile_append_sep hTy, ← String.toList_inj]
    simp
  rw [isRedundantAccept]
  by_cases hWild : endsWithWildcard (acceptText ty sub) = true
  · rw [if_pos hWild]
    simp [(endsWithWildcard_iff hTy hSub).mp hWild]
  · rw [if_neg hWild]
    dsimp only
    rw [hBase]
    rw [endsWithWildcard_iff hTy hSub] at hWild
    simp [hWild]

/-! ## Lowercase -/

theorem stop_slash (h : table.Lawful) : CaseTable.Stop table '/' := by
  refine ⟨?_, ?_, ?_, by decide⟩
  · rw [h.cased_ascii _ (by decide)]
    decide
  · rw [h.ignorable_ascii _ (by decide)]
    decide
  · rw [h.ascii _ (by decide)]
    decide

theorem lowerText_accept (h : table.Lawful) :
    lowerText table (acceptText ty sub) =
      acceptText (table.toLowercase ty) (table.toLowercase sub) := by
  rw [lowerText, acceptText_toList, (stop_slash h).lower_append, acceptText]

theorem lowerText_idem (h : table.Lawful) (v : String) :
    lowerText table (lowerText table v) = lowerText table v := by
  rw [lowerText, lowerText, String.toList_ofList, h.lower_idem]

theorem mem_lower (h : table.Lawful) {s : List Char} {z : Char} (hAscii : z.toNat < 128)
    (hz : z.isAlpha = false) : z ∈ table.toLowercase s ↔ z ∈ s :=
  h.mem_lowerFrom hAscii hz

theorem lower_star_iff (h : table.Lawful) {s : List Char} :
    table.toLowercase s = ['*'] ↔ s = ['*'] := by
  constructor
  · intro hEq
    cases s with
    | nil => cases hEq
    | cons c s =>
      rw [CaseTable.toLowercase, CaseTable.lowerFrom_cons] at hEq
      have hMem : '*' ∈ c :: s := by
        rw [← mem_lower h (by decide) (by decide : '*'.isAlpha = false), CaseTable.toLowercase,
          CaseTable.lowerFrom_cons, hEq]
        exact List.mem_singleton_self _
      have hNonempty : (if c = 'Σ' then [table.mapSigma [] s] else table.lower c) ≠ [] := by
        split
        · exact List.cons_ne_nil _ _
        · exact h.ne_nil c
      rcases List.append_eq_singleton_iff.mp hEq with ⟨hNil, _⟩ | ⟨_, hRest⟩
      · exact absurd hNil hNonempty
      · rw [h.lowerFrom_eq_nil] at hRest
        rw [hRest] at hMem ⊢
        rw [List.mem_singleton.mp hMem]
  · intro hEq
    rw [hEq, CaseTable.toLowercase, CaseTable.lowerFrom_cons, if_neg (by decide),
      h.ascii _ (by decide)]
    rfl

theorem AcceptParts.lower (h : table.Lawful) (hParts : AcceptParts ty sub) :
    AcceptParts (table.toLowercase ty) (table.toLowercase sub) where
  ty_ne := fun hNil => hParts.ty_ne (h.lowerFrom_eq_nil.mp hNil)
  sub_ne := fun hNil => hParts.sub_ne (h.lowerFrom_eq_nil.mp hNil)
  ty_slash := fun hMem => hParts.ty_slash ((mem_lower h (by decide) (by decide)).mp hMem)
  sub_slash := fun hMem => hParts.sub_slash ((mem_lower h (by decide) (by decide)).mp hMem)
  ty_blank := fun hMem => hParts.ty_blank ((mem_lower h (by decide) (by decide)).mp hMem)
  sub_blank := fun hMem => hParts.sub_blank ((mem_lower h (by decide) (by decide)).mp hMem)
  star := by
    rw [lower_star_iff h, mem_lower h (by decide) (by decide), mem_lower h (by decide) (by decide)]
    exact hParts.star

theorem isAccept_lowerText (h : table.Lawful) (hv : isAccept v = true) :
    isAccept (lowerText table v) = true := by
  obtain ⟨ty, sub, rfl, hParts⟩ := isAccept_iff.mp hv
  exact isAccept_iff.mpr ⟨_, _, lowerText_accept h, hParts.lower h⟩

/-- Only `*/*` has itself as its lowercase form `*/*`. -/
theorem lowerText_any (h : table.Lawful) (hv : isAccept v = true) :
    lowerText table v = "*/*" ↔ v = "*/*" := by
  obtain ⟨ty, sub, rfl, hParts⟩ := isAccept_iff.mp hv
  have hAny : "*/*" = acceptText ['*'] ['*'] := rfl
  rw [hAny, lowerText_accept h, acceptText_inj (hParts.lower h).ty_slash (by decide),
    acceptText_inj hParts.ty_slash (by decide), lower_star_iff h, lower_star_iff h]

/-! ## What is left of the values -/

variable {accept : List String}

theorem isRedundantAccept_mono {set' : List String} (hSet : ∀ a ∈ set, a ∈ set')
    (h : isRedundantAccept v set = true) : isRedundantAccept v set' = true := by
  rw [isRedundantAccept] at h ⊢
  split at h
  · cases h
  · rename_i hWild
    rw [if_neg hWild]
    obtain ⟨a, ha, hEq⟩ := List.any_eq_true.mp h
    exact List.any_eq_true.mpr ⟨a, hSet a ha, hEq⟩

/-- The lowercase values, without repetitions. -/
def uniqueAccept (table : CaseTable) (accept : List String) : List String :=
  sortedSet (accept.map (lowerText table))

theorem mem_uniqueAccept :
    v ∈ uniqueAccept table accept ↔ ∃ a ∈ accept, lowerText table a = v := by
  rw [uniqueAccept, mem_sortedSet, List.mem_map]

theorem collapseAccept_of_any (h : "*/*" ∈ accept) : collapseAccept table accept = ["*/*"] := by
  rw [collapseAccept, if_pos (List.contains_iff_mem.mpr h)]

theorem collapseAccept_of_not_any (h : "*/*" ∉ accept) :
    collapseAccept table accept = (uniqueAccept table accept).filter fun a =>
      !isRedundantAccept a (uniqueAccept table accept) := by
  rw [collapseAccept, if_neg (by simpa using h)]
  rfl

theorem mem_collapseAccept_of_not_any (h : "*/*" ∉ accept) :
    v ∈ collapseAccept table accept ↔
      v ∈ uniqueAccept table accept ∧
        ¬ isRedundantAccept v (uniqueAccept table accept) = true := by
  rw [collapseAccept_of_not_any h, List.mem_filter]
  simp

theorem isAccept_uniqueAccept (hTable : table.Lawful)
    (hAccept : ∀ a ∈ accept, isAccept a = true) (hv : v ∈ uniqueAccept table accept) :
    isAccept v = true := by
  obtain ⟨a, ha, rfl⟩ := mem_uniqueAccept.mp hv
  exact isAccept_lowerText hTable (hAccept a ha)

/-- A value that is dropped is covered by a wildcard that is left. -/
theorem exists_left (hv : isAccept v = true) (hMem : v ∈ set) :
    ∃ a ∈ set, ¬ isRedundantAccept a set = true := by
  by_cases hRedundant : isRedundantAccept v set = true
  · obtain ⟨ty, sub, rfl, hParts⟩ := isAccept_iff.mp hv
    obtain ⟨_, hWild⟩ := (isRedundantAccept_iff hParts.ty_slash hParts.sub_slash).mp hRedundant
    refine ⟨_, hWild, ?_⟩
    rw [isRedundantAccept_iff hParts.ty_slash (by decide)]
    simp
  · exact ⟨v, hMem, hRedundant⟩

theorem collapseAccept_ne_nil (hTable : table.Lawful)
    (hAccept : ∀ a ∈ accept, isAccept a = true) (hNonempty : accept ≠ []) :
    collapseAccept table accept ≠ [] := by
  by_cases hAny : "*/*" ∈ accept
  · rw [collapseAccept_of_any hAny]
    exact List.cons_ne_nil _ _
  · obtain ⟨a, ha⟩ := List.exists_mem_of_ne_nil accept hNonempty
    have hMem : lowerText table a ∈ uniqueAccept table accept := mem_uniqueAccept.mpr ⟨a, ha, rfl⟩
    obtain ⟨left, hLeft, hNot⟩ := exists_left (isAccept_lowerText hTable (hAccept a ha)) hMem
    exact List.ne_nil_of_mem ((mem_collapseAccept_of_not_any hAny).mpr ⟨hLeft, hNot⟩)

theorem isAccept_collapseAccept (hTable : table.Lawful)
    (hAccept : ∀ a ∈ accept, isAccept a = true) (hv : v ∈ collapseAccept table accept) :
    isAccept v = true := by
  by_cases hAny : "*/*" ∈ accept
  · rw [collapseAccept_of_any hAny, List.mem_singleton] at hv
    rw [hv]
    exact hAccept _ hAny
  · exact isAccept_uniqueAccept hTable hAccept ((mem_collapseAccept_of_not_any hAny).mp hv).1

theorem uniqueAccept_congr {accept' : List String} (h : ∀ v, v ∈ accept ↔ v ∈ accept') :
    uniqueAccept table accept = uniqueAccept table accept' := by
  apply sortedSet_congr
  intro v
  simp only [List.mem_map, h]

theorem collapseAccept_congr {accept' : List String} (h : ∀ v, v ∈ accept ↔ v ∈ accept') :
    collapseAccept table accept = collapseAccept table accept' := by
  by_cases hAny : "*/*" ∈ accept
  · rw [collapseAccept_of_any hAny, collapseAccept_of_any ((h _).mp hAny)]
  · rw [collapseAccept_of_not_any hAny, collapseAccept_of_not_any fun h' => hAny ((h _).mpr h'),
      uniqueAccept_congr h]

theorem any_not_mem_collapseAccept (hTable : table.Lawful)
    (hAccept : ∀ a ∈ accept, isAccept a = true) (hAny : "*/*" ∉ accept) :
    "*/*" ∉ collapseAccept table accept := by
  intro hMem
  obtain ⟨a, ha, hEq⟩ := mem_uniqueAccept.mp ((mem_collapseAccept_of_not_any hAny).mp hMem).1
  rw [lowerText_any hTable (hAccept a ha)] at hEq
  exact hAny (hEq ▸ ha)

/-- The values that are left are in lowercase and do not cover each other, so they are left
again. -/
theorem collapseAccept_idem (hTable : table.Lawful) (hAccept : ∀ a ∈ accept, isAccept a = true) :
    collapseAccept table (collapseAccept table accept) = collapseAccept table accept := by
  by_cases hAny : "*/*" ∈ accept
  · rw [collapseAccept_of_any hAny, collapseAccept_of_any (List.mem_singleton_self _)]
  · have hStill := any_not_mem_collapseAccept hTable hAccept hAny
    have hUnique : uniqueAccept table (collapseAccept table accept) =
        collapseAccept table accept := by
      have hLower : (collapseAccept table accept).map (lowerText table) =
          collapseAccept table accept := by
        conv_rhs => rw [← List.map_id (collapseAccept table accept)]
        apply List.map_congr_left
        intro v hv
        obtain ⟨a, _, rfl⟩ :=
          mem_uniqueAccept.mp ((mem_collapseAccept_of_not_any hAny).mp hv).1
        exact lowerText_idem hTable a
      rw [uniqueAccept, hLower]
      apply sortedSet_eq_self
      rw [collapseAccept_of_not_any hAny]
      exact sortedSet_increasing.filter _
    rw [collapseAccept_of_not_any hStill, hUnique, List.filter_eq_self]
    intro v hv
    have hNot := ((mem_collapseAccept_of_not_any hAny).mp hv).2
    have hSub : ∀ a ∈ collapseAccept table accept, a ∈ uniqueAccept table accept :=
      fun a ha => ((mem_collapseAccept_of_not_any hAny).mp ha).1
    simpa using fun h => hNot (isRedundantAccept_mono hSub h)

end Ezpds.Auth
