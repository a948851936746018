import Mathlib.Data.List.Basic
import Mathlib.Tactic.Common

/-!
# Lowercase of Unicode text

`toLowercase` follows the full lowercase mapping of the Unicode standard, with its one rule
that looks at the neighbours: a capital sigma at the end of a word. The character data are
a parameter, and `Lawful` says what the standard promises about them. `toAsciiLowercase`
changes the ASCII letters only.

* `lower_idem`: a lowercase text is left as it is.
* `lower_asciiLower`: the ASCII letters may be lowered before.
* `lower_append_stop`: a caseless character splits the text.
-/

namespace Ezpds.Library

/-- The character data: the lowercase mapping, and what the sigma rule looks at. -/
structure CaseTable where
  lower : Char → List Char
  cased : Char → Bool
  caseIgnorable : Char → Bool

/-- What the standard says about the data. -/
structure CaseTable.Lawful (table : CaseTable) : Prop where
  ascii : ∀ c : Char, c.toNat < 128 → table.lower c = [c.toLower]
  cased_ascii : ∀ c : Char, c.toNat < 128 → table.cased c = c.isAlpha
  ignorable_ascii : ∀ c : Char, c.toNat < 128 →
    table.caseIgnorable c = ['\'', '.', ':', '^', '\x60'].contains c
  ne_nil : ∀ c, table.lower c ≠ []
  fixed : ∀ c, c ≠ 'Σ' → ∀ d ∈ table.lower c, table.lower d = [d] ∧ d ≠ 'Σ'
  sigma : table.lower 'σ' = ['σ'] ∧ table.lower 'ς' = ['ς']
  -- an ASCII character only comes out of another one as a letter
  letter : ∀ c, ∀ d ∈ table.lower c, d.toNat < 128 → d ≠ c → d.isAlpha = true

namespace CaseTable

variable (table : CaseTable)

/-- `case_ignorable_then_cased`. -/
def ignorableThenCased (cs : List Char) : Bool :=
  (cs.dropWhile table.caseIgnorable).head?.any table.cased

/-- `map_uppercase_sigma`; `before` is in reverse. -/
def mapSigma (before after : List Char) : Char :=
  if table.ignorableThenCased before && !table.ignorableThenCased after then 'ς' else 'σ'

/-- The loop of `str::to_lowercase`; `before` are the characters that were passed, in
reverse. -/
def lowerFrom : List Char → List Char → List Char
  | _, [] => []
  | before, c :: after =>
    (if c = 'Σ' then [table.mapSigma before after] else table.lower c) ++
      lowerFrom (c :: before) after

def toLowercase (s : List Char) : List Char :=
  table.lowerFrom [] s

end CaseTable

/-- `str::to_ascii_lowercase`. -/
def toAsciiLowercase (s : List Char) : List Char :=
  s.map Char.toLower

/-! ## ASCII -/

theorem ascii_cases {P : Char → Prop} (h : ∀ n < 128, P (Char.ofNat n)) {c : Char}
    (hc : c.toNat < 128) : P c := by
  have hP := h c.toNat hc
  rwa [Char.ofNat_toNat] at hP

theorem isAlphanum_ascii {c : Char} (h : c.isAlphanum = true) : c.toNat < 128 := by
  have hVal : c.toNat = c.val.toNat := rfl
  delta Char.isAlphanum Char.isAlpha Char.isUpper Char.isLower Char.isDigit at h
  simp only [Bool.or_eq_true, Bool.and_eq_true, decide_eq_true_eq] at h
  rcases h with (h | h) | h
  · have hLe : c.val.toNat ≤ 90 := h.2
    omega
  · have hLe : c.val.toNat ≤ 122 := h.2
    omega
  · have hLe : c.val.toNat ≤ 57 := h.2
    omega

theorem toLower_of_not_ascii {c : Char} (h : 128 ≤ c.toNat) : c.toLower = c := by
  refine dif_neg fun hUpper => ?_
  have hLe : c.val.toNat ≤ 90 := hUpper.2
  have hVal : c.toNat = c.val.toNat := rfl
  omega

theorem toLower_toLower (c : Char) : c.toLower.toLower = c.toLower := by
  by_cases hc : c.toNat < 128
  · exact @ascii_cases (fun c => c.toLower.toLower = c.toLower) (by decide) c hc
  · have hKept : c.toLower = c := toLower_of_not_ascii (by omega)
    rw [hKept, hKept]

theorem toLower_ascii {c : Char} (h : c.toNat < 128) : c.toLower.toNat < 128 :=
  @ascii_cases (fun c => c.toLower.toNat < 128) (by decide) c h

theorem toUpper_toLower (c : Char) : c.toLower.toUpper = c.toUpper := by
  by_cases hc : c.toNat < 128
  · exact @ascii_cases (fun c => c.toLower.toUpper = c.toUpper) (by decide) c hc
  · rw [toLower_of_not_ascii (by omega)]

theorem toAsciiLowercase_idem (s : List Char) :
    toAsciiLowercase (toAsciiLowercase s) = toAsciiLowercase s := by
  simp [toAsciiLowercase, toLower_toLower]

namespace CaseTable

variable {table : CaseTable}

theorem Lawful.lower_toLower (h : table.Lawful) (c : Char) :
    table.lower c.toLower = table.lower c := by
  by_cases hc : c.toNat < 128
  · rw [h.ascii _ (toLower_ascii hc), h.ascii c hc, toLower_toLower]
  · rw [toLower_of_not_ascii (by omega)]

theorem Lawful.cased_toLower (h : table.Lawful) (c : Char) :
    table.cased c.toLower = table.cased c := by
  by_cases hc : c.toNat < 128
  · rw [h.cased_ascii _ (toLower_ascii hc), h.cased_ascii c hc]
    exact @ascii_cases (fun c => c.toLower.isAlpha = c.isAlpha) (by decide) c hc
  · rw [toLower_of_not_ascii (by omega)]

theorem Lawful.ignorable_toLower (h : table.Lawful) (c : Char) :
    table.caseIgnorable c.toLower = table.caseIgnorable c := by
  by_cases hc : c.toNat < 128
  · rw [h.ignorable_ascii _ (toLower_ascii hc), h.ignorable_ascii c hc]
    exact @ascii_cases (fun c => ['\'', '.', ':', '^', '\x60'].contains c.toLower =
      ['\'', '.', ':', '^', '\x60'].contains c) (by decide) c hc
  · rw [toLower_of_not_ascii (by omega)]

theorem Lawful.ignorableThenCased_toLower (h : table.Lawful) (cs : List Char) :
    table.ignorableThenCased (cs.map Char.toLower) = table.ignorableThenCased cs := by
  induction cs with
  | nil => rfl
  | cons c cs ih =>
    simp only [ignorableThenCased, List.map_cons, List.dropWhile_cons,
      h.ignorable_toLower c] at ih ⊢
    split
    · exact ih
    · simp [h.cased_toLower]

theorem toLower_eq_sigma {c : Char} : c.toLower = 'Σ' ↔ c = 'Σ' := by
  by_cases hc : c.toNat < 128
  · exact @ascii_cases (fun c => c.toLower = 'Σ' ↔ c = 'Σ') (by decide) c hc
  · rw [toLower_of_not_ascii (by omega)]

theorem lowerFrom_cons (before : List Char) (c : Char) (after : List Char) :
    table.lowerFrom before (c :: after) =
      (if c = 'Σ' then [table.mapSigma before after] else table.lower c) ++
        table.lowerFrom (c :: before) after := rfl

/-- The ASCII letters may be lowered before. -/
theorem Lawful.lowerFrom_toLower (h : table.Lawful) (before s : List Char) :
    table.lowerFrom (before.map Char.toLower) (s.map Char.toLower) = table.lowerFrom before s := by
  induction s generalizing before with
  | nil => rfl
  | cons c s ih =>
    have hStep := ih (c :: before)
    rw [List.map_cons] at hStep
    rw [List.map_cons, lowerFrom_cons, lowerFrom_cons, hStep, h.lower_toLower, mapSigma, mapSigma,
      h.ignorableThenCased_toLower, h.ignorableThenCased_toLower]
    simp only [toLower_eq_sigma]

theorem Lawful.lower_asciiLower (h : table.Lawful) (s : List Char) :
    table.toLowercase (toAsciiLowercase s) = table.toLowercase s :=
  h.lowerFrom_toLower [] s

/-! ## Lowered text -/

/-- The characters of a lowered text are left as they are. -/
theorem Lawful.fixed_of_mem (h : table.Lawful) {before s : List Char} {d : Char}
    (hd : d ∈ table.lowerFrom before s) : table.lower d = [d] ∧ d ≠ 'Σ' := by
  induction s generalizing before with
  | nil => cases hd
  | cons c s ih =>
    rw [lowerFrom_cons, List.mem_append] at hd
    rcases hd with hd | hd
    · by_cases hc : c = 'Σ'
      · rw [if_pos hc, List.mem_singleton] at hd
        rw [hd, mapSigma]
        split
        · exact ⟨h.sigma.2, by decide⟩
        · exact ⟨h.sigma.1, by decide⟩
      · rw [if_neg hc] at hd
        exact h.fixed c hc d hd
    · exact ih hd

theorem lowerFrom_fixed {before s : List Char}
    (h : ∀ d ∈ s, table.lower d = [d] ∧ d ≠ 'Σ') : table.lowerFrom before s = s := by
  induction s generalizing before with
  | nil => rfl
  | cons c s ih =>
    obtain ⟨hLower, hSigma⟩ := h c List.mem_cons_self
    rw [lowerFrom_cons, if_neg hSigma, hLower, ih fun d hd => h d (List.mem_cons_of_mem _ hd)]
    rfl

theorem Lawful.lower_idem (h : table.Lawful) (s : List Char) :
    table.toLowercase (table.toLowercase s) = table.toLowercase s :=
  lowerFrom_fixed fun _ hd => h.fixed_of_mem hd

theorem Lawful.asciiLower_lower (h : table.Lawful) (s : List Char) :
    toAsciiLowercase (table.toLowercase s) = table.toLowercase s := by
  have hEach : ∀ d ∈ table.toLowercase s, d.toLower = d := by
    intro d hd
    by_cases hAscii : d.toNat < 128
    · have hFixed := (h.fixed_of_mem hd).1
      rw [h.ascii d hAscii] at hFixed
      exact List.singleton_inj.mp hFixed
    · exact toLower_of_not_ascii (by omega)
  exact (List.map_congr_left hEach).trans (List.map_id _)

theorem Lawful.lowerFrom_eq_nil (h : table.Lawful) {before s : List Char} :
    table.lowerFrom before s = [] ↔ s = [] := by
  cases s with
  | nil => simp [lowerFrom]
  | cons c s =>
    rw [lowerFrom_cons]
    split
    · simp
    · simp [h.ne_nil]

/-- An ASCII character other than a letter is neither made nor lost. -/
theorem Lawful.mem_lowerFrom (h : table.Lawful) {before s : List Char} {z : Char}
    (hAscii : z.toNat < 128) (hz : z.isAlpha = false) :
    z ∈ table.lowerFrom before s ↔ z ∈ s := by
  have hKept : table.lower z = [z] := by
    rw [h.ascii z hAscii]
    exact @ascii_cases (fun z => z.isAlpha = false → [z.toLower] = [z]) (by decide) z hAscii hz
  induction s generalizing before with
  | nil => simp [lowerFrom]
  | cons c s ih =>
    rw [lowerFrom_cons, List.mem_append, List.mem_cons]
    refine or_congr ?_ ih
    by_cases hc : c = 'Σ'
    · rw [if_pos hc, List.mem_singleton, hc, mapSigma]
      constructor
      · intro hEq
        rw [hEq] at hAscii
        split at hAscii
        · exact absurd hAscii (by decide)
        · exact absurd hAscii (by decide)
      · intro hEq
        rw [hEq] at hAscii
        exact absurd hAscii (by decide)
    · rw [if_neg hc]
      constructor
      · intro hMem
        by_contra hNe
        rw [h.letter c z hMem hAscii hNe] at hz
        cases hz
      · intro hEq
        rw [← hEq, hKept]
        exact List.mem_singleton_self _

/-! ## Caseless characters -/

/-- A character that the sigma rule stops at, and that is its own lowercase. -/
structure Stop (table : CaseTable) (z : Char) : Prop where
  not_cased : table.cased z = false
  not_ignorable : table.caseIgnorable z = false
  kept : table.lower z = [z]
  not_sigma : z ≠ 'Σ'

theorem Stop.ignorableThenCased_append {z : Char} (h : Stop table z) (cs rest : List Char) :
    table.ignorableThenCased (cs ++ z :: rest) = table.ignorableThenCased cs := by
  induction cs with
  | nil => simp [ignorableThenCased, h.not_ignorable, h.not_cased]
  | cons c cs ih =>
    simp only [ignorableThenCased, List.cons_append, List.dropWhile_cons] at ih ⊢
    split
    · exact ih
    · rfl

theorem Stop.lowerFrom_behind {z : Char} (h : Stop table z) (before rest s : List Char) :
    table.lowerFrom (before ++ z :: rest) s = table.lowerFrom before s := by
  induction s generalizing before with
  | nil => rfl
  | cons c s ih =>
    have hStep := ih (c :: before)
    rw [List.cons_append] at hStep
    rw [lowerFrom_cons, lowerFrom_cons, hStep, mapSigma, mapSigma, h.ignorableThenCased_append]

theorem Stop.lowerFrom_append {z : Char} (h : Stop table z) (before s t : List Char) :
    table.lowerFrom before (s ++ z :: t) =
      table.lowerFrom before s ++ z :: table.toLowercase t := by
  induction s generalizing before with
  | nil =>
    have hBehind := h.lowerFrom_behind [] before t
    rw [List.nil_append] at hBehind
    rw [List.nil_append, lowerFrom_cons, if_neg h.not_sigma, h.kept, hBehind]
    rfl
  | cons c s ih =>
    rw [List.cons_append, lowerFrom_cons, lowerFrom_cons, ih, mapSigma, mapSigma,
      h.ignorableThenCased_append, List.append_assoc]

theorem Stop.lower_append {z : Char} (h : Stop table z) (s t : List Char) :
    table.toLowercase (s ++ z :: t) = table.toLowercase s ++ z :: table.toLowercase t :=
  h.lowerFrom_append [] s t

end CaseTable

/-! ## ASCII text -/

/-- The character data of the ASCII set; other characters have no case. -/
def CaseTable.ascii : CaseTable where
  lower c := [c.toLower]
  cased c := c.isAlpha
  caseIgnorable c := ['\'', '.', ':', '^', '\x60'].contains c

theorem CaseTable.ascii_lawful : CaseTable.ascii.Lawful where
  ascii _ _ := rfl
  cased_ascii _ _ := rfl
  ignorable_ascii _ _ := rfl
  ne_nil _ := List.cons_ne_nil _ _
  fixed c hc d hd := by
    rw [List.mem_singleton.mp hd]
    refine ⟨congrArg (fun d => [d]) (toLower_toLower c), ?_⟩
    rwa [ne_eq, toLower_eq_sigma]
  sigma := by decide
  letter c d hd hAscii hNe := by
    rw [List.mem_singleton.mp hd] at hNe ⊢
    by_cases hc : c.toNat < 128
    · exact @ascii_cases (fun c => c.toLower ≠ c → c.toLower.isAlpha = true) (by decide) c hc hNe
    · exact absurd (toLower_of_not_ascii (by omega)) hNe

end Ezpds.Library
