import Mathlib.Data.List.DropRight
import Mathlib.Data.List.TakeWhile
import Mathlib.Data.String.Basic
import Mathlib.Tactic.Common

/-!
# Separators, decimal numbers and words in text

`splitOnce` cuts a text at the first separator, and `parseI64` reads a 64-bit integer in
decimal. Both undo the way such texts are put together.

* `splitOnce_append`: a text joined at a separator splits into its halves.
* `parseI64_repr`: a number is read back from its decimal text.
* `stripPrefix_none_of_lt`: a text past a prefix, and all after it, do not begin with it.
* `splitWhitespace_intercalate`: words joined by blanks are split again.
* `splitWhitespace_trim`: trimming does not change the words.
-/

namespace Ezpds.Library

/-- `str::split_once`, for a separator of one character. -/
def splitOnce (sep : Char) (s : List Char) : Option (List Char × List Char) :=
  match s.dropWhile (· != sep) with
  | [] => none
  | _ :: after => some (s.takeWhile (· != sep), after)

theorem takeWhile_append_sep {sep : Char} {before after : List Char} (h : sep ∉ before) :
    (before ++ sep :: after).takeWhile (· != sep) = before := by
  rw [List.takeWhile_append_of_pos]
  · simp
  · intro c hc
    simp only [bne_iff_ne, ne_eq]
    rintro rfl
    exact h hc

theorem dropWhile_append_sep {sep : Char} {before after : List Char} (h : sep ∉ before) :
    (before ++ sep :: after).dropWhile (· != sep) = sep :: after := by
  rw [List.dropWhile_append_of_pos]
  · simp
  · intro c hc
    simp only [bne_iff_ne, ne_eq]
    rintro rfl
    exact h hc

theorem splitOnce_append {sep : Char} {before after : List Char} (h : sep ∉ before) :
    splitOnce sep (before ++ sep :: after) = some (before, after) := by
  rw [splitOnce, dropWhile_append_sep h, takeWhile_append_sep h]

theorem splitOnce_some {sep : Char} {s before after : List Char}
    (h : splitOnce sep s = some (before, after)) : s = before ++ sep :: after ∧ sep ∉ before := by
  unfold splitOnce at h
  cases hDrop : s.dropWhile (· != sep) with
  | nil =>
    rw [hDrop] at h
    cases h
  | cons c rest =>
    rw [hDrop] at h
    cases h
    have hSplit := List.takeWhile_append_dropWhile (p := (· != sep)) (l := s)
    have hSep : c = sep := by
      have hHead := List.head?_dropWhile_not (· != sep) s
      rw [hDrop] at hHead
      simpa using hHead
    refine ⟨?_, ?_⟩
    · rw [hDrop, hSep] at hSplit
      exact hSplit.symm
    · intro hMem
      simpa using List.mem_takeWhile_imp hMem

theorem splitOnce_none {sep : Char} {s : List Char} (h : splitOnce sep s = none) : sep ∉ s := by
  unfold splitOnce at h
  cases hDrop : s.dropWhile (· != sep) with
  | nil =>
    intro hMem
    simpa using List.dropWhile_eq_nil_iff.mp hDrop sep hMem
  | cons c rest =>
    rw [hDrop] at h
    cases h

/-! ## Prefixes -/

/-- `str::strip_prefix`. -/
def stripPrefix (start s : String) : Option String :=
  (start.toList.isPrefixOf? s.toList).map String.ofList

theorem stripPrefix_some {start s rest : String} :
    stripPrefix start s = some rest ↔ s = start ++ rest := by
  rw [stripPrefix, Option.map_eq_some_iff]
  constructor
  · rintro ⟨cs, hSplit, rfl⟩
    rw [← String.toList_inj, ← List.isPrefixOf?_eq_some_iff_append_eq.mp hSplit,
      String.toList_append, String.toList_ofList]
  · rintro rfl
    refine ⟨rest.toList, ?_, String.ofList_toList⟩
    rw [List.isPrefixOf?_eq_some_iff_append_eq, String.toList_append]

theorem append_lt_append_iff {start a b : List Char} : start ++ a < start ++ b ↔ a < b := by
  induction start with
  | nil => exact Iff.rfl
  | cons c start ih => simp [ih]

theorem prefix_of_between {start s s' : List Char} (hStart : start < s) (hLt : s < s')
    (hPrefix : start <+: s') : start <+: s := by
  induction start generalizing s s' with
  | nil => exact List.nil_prefix
  | cons c start ih =>
    obtain ⟨rest, rfl⟩ := hPrefix
    cases s with
    | nil => exact absurd hStart (List.not_lt_nil _)
    | cons d s =>
      rw [List.cons_append] at hLt
      rcases List.cons_lt_cons_iff.mp hStart with hCD | ⟨rfl, hRest⟩
      · rcases List.cons_lt_cons_iff.mp hLt with hDC | ⟨rfl, _⟩
        · exact absurd hCD (lt_asymm hDC)
        · exact absurd hCD (lt_irrefl _)
      · rcases List.cons_lt_cons_iff.mp hLt with hCC | ⟨_, hTail⟩
        · exact absurd hCC (lt_irrefl _)
        · exact List.cons_prefix_cons.mpr ⟨rfl, ih hRest hTail (List.prefix_append _ _)⟩

/-- A text after `start` that does not begin with it is after all those that do. -/
theorem stripPrefix_none_of_lt {start s s' : String} (hNone : stripPrefix start s = none)
    (hStart : start < s) (hLt : s < s') : stripPrefix start s' = none := by
  cases hSome : stripPrefix start s' with
  | none => rfl
  | some rest =>
    have hPrefix : start.toList <+: s'.toList := by
      rw [stripPrefix_some.mp hSome, String.toList_append]
      exact List.prefix_append _ _
    obtain ⟨cs, hSplit⟩ := prefix_of_between hStart hLt hPrefix
    have hSome' : stripPrefix start s = some (String.ofList cs) := by
      rw [stripPrefix_some, ← String.toList_inj, String.toList_append, String.toList_ofList, hSplit]
    rw [hSome'] at hNone
    cases hNone

/-! ## Decimal numbers -/

def parseDigits (cs : List Char) : Option Nat :=
  if cs.isEmpty || !cs.all Char.isDigit then none else some (Nat.ofDigitChars 10 cs 0)

/-- `str::parse::<i64>`: digits after an optional sign, within the range of the type. -/
def parseI64 (s : List Char) : Option Int :=
  match s with
  | '-' :: cs => (parseDigits cs).bind fun n => if n ≤ 2 ^ 63 then some (-n) else none
  | '+' :: cs => (parseDigits cs).bind fun n => if n < 2 ^ 63 then some n else none
  | cs => (parseDigits cs).bind fun n => if n < 2 ^ 63 then some n else none

theorem parseDigits_toDigits (n : Nat) : parseDigits (Nat.toDigits 10 n) = some n := by
  have hNonempty : (Nat.toDigits 10 n).isEmpty = false := by
    simp [List.isEmpty_eq_false_iff, Nat.toDigits_ne_nil]
  have hDigits : (Nat.toDigits 10 n).all Char.isDigit = true := by
    apply List.all_eq_true.mpr
    intro c hc
    exact Nat.isDigit_of_mem_toDigits (by omega) (by omega) hc
  rw [parseDigits, hNonempty, hDigits]
  simp

theorem parseI64_repr {n : Nat} (h : n < 2 ^ 63) :
    parseI64 (Nat.repr n).toList = some (n : Int) := by
  have hDigit : ∀ c ∈ Nat.toDigits 10 n, c.isDigit = true :=
    fun _ hc => Nat.isDigit_of_mem_toDigits (by omega) (by omega) hc
  rw [Nat.toList_repr]
  unfold parseI64
  split
  · rename_i heq
    exact absurd (hDigit '-' (by simp [heq])) (by decide)
  · rename_i heq
    exact absurd (hDigit '+' (by simp [heq])) (by decide)
  · rw [parseDigits_toDigits, Option.bind_some, if_pos h]

/-! ## Whitespace -/

/-- `char::is_whitespace`. -/
def isWhitespace (c : Char) : Bool :=
  let n := c.toNat
  (9 ≤ n && n ≤ 13) || n == 0x20 || n == 0x85 || n == 0xA0 || n == 0x1680 ||
    (0x2000 ≤ n && n ≤ 0x200A) || n == 0x2028 || n == 0x2029 || n == 0x202F || n == 0x205F ||
    n == 0x3000

def splitWhitespace (s : String) : List (List Char) :=
  (s.toList.splitOnP isWhitespace).filter fun token => !token.isEmpty

theorem splitOnP_intercalate {p : Char → Bool} {sep : Char} (hSep : p sep = true)
    {ls : List (List Char)} (hNe : ls ≠ []) (h : ∀ l ∈ ls, ∀ c ∈ l, p c = false) :
    (List.intercalate [sep] ls).splitOnP p = ls := by
  induction ls with
  | nil => exact absurd rfl hNe
  | cons l ls ih =>
    have hHead : ∀ c ∈ l, p c = false := h l List.mem_cons_self
    cases ls with
    | nil =>
      rw [List.intercalate_singleton]
      exact List.splitOnP_eq_singleton hHead
    | cons k ls =>
      have hTail := ih (List.cons_ne_nil k ls) fun m hm => h m (List.mem_cons_of_mem l hm)
      rw [List.intercalate_cons_cons, List.append_assoc, List.singleton_append,
        List.splitOnP_append_cons_of_forall_mem hHead sep hSep, hTail]

/-- The words of a text that was put together from words. -/
theorem splitWhitespace_intercalate {words : List String}
    (h : ∀ word ∈ words, word.toList ≠ [] ∧ ∀ c ∈ word.toList, isWhitespace c = false) :
    splitWhitespace (" ".intercalate words) = words.map String.toList := by
  have hText : (" ".intercalate words).toList =
      List.intercalate [' '] (words.map String.toList) := String.toList_intercalate
  have hKept : (words.map String.toList).filter (fun token => !token.isEmpty) =
      words.map String.toList := by
    apply List.filter_eq_self.mpr
    intro token hToken
    obtain ⟨word, hWord, rfl⟩ := List.mem_map.mp hToken
    simpa using (h word hWord).1
  cases words with
  | nil => rfl
  | cons word words =>
    have hSplit : (List.intercalate [' '] ((word :: words).map String.toList)).splitOnP
        isWhitespace = (word :: words).map String.toList := by
      apply splitOnP_intercalate rfl (by simp)
      intro token hToken
      obtain ⟨word', hWord, rfl⟩ := List.mem_map.mp hToken
      exact (h word' hWord).2
    rw [splitWhitespace, hText, hSplit, hKept]

/-! ## Trimming -/

def trimmed (l : List Char) : List Char :=
  (l.dropWhile isWhitespace).rdropWhile isWhitespace

/-- `str::trim`. -/
def trim (s : String) : String :=
  String.ofList (trimmed s.toList)

/-- What does not see whitespace at either end does not see trimming. -/
theorem map_trimmed {α : Type} {f : List Char → α}
    (hCons : ∀ c l, isWhitespace c = true → f (c :: l) = f l)
    (hConcat : ∀ l c, isWhitespace c = true → f (l ++ [c]) = f l) (l : List Char) :
    f (trimmed l) = f l := by
  have hStart : f (l.dropWhile isWhitespace) = f l := by
    induction l with
    | nil => rfl
    | cons c l ih =>
      by_cases h : isWhitespace c = true
      · rw [List.dropWhile_cons_of_pos h, ih, hCons c l h]
      · rw [List.dropWhile_cons_of_neg h]
  rw [trimmed, ← hStart]
  generalize l.dropWhile isWhitespace = l'
  induction l' using List.reverseRecOn with
  | nil => rfl
  | append_singleton l' c ih =>
    by_cases h : isWhitespace c = true
    · rw [List.rdropWhile_concat_pos _ _ _ h, ih, hConcat l' c h]
    · rw [List.rdropWhile_concat_neg _ _ _ h]

theorem filter_trim (s : String) :
    (trim s).toList.filter (fun c => !isWhitespace c) =
      s.toList.filter fun c => !isWhitespace c := by
  rw [trim, String.toList_ofList]
  apply map_trimmed
  · intro c l h
    exact List.filter_cons_of_neg (by simp [h])
  · intro l c h
    simp [h]

theorem splitWhitespace_trim (s : String) : splitWhitespace (trim s) = splitWhitespace s := by
  let tokens : List Char → List (List Char) := fun l =>
    (l.splitOnP isWhitespace).filter fun token => !token.isEmpty
  have hCons : ∀ c l, isWhitespace c = true → tokens (c :: l) = tokens l := by
    intro c l h
    simp only [tokens, List.splitOnP_cons_eq_if_modifyHead, if_pos h]
    rfl
  have hConcat : ∀ l c, isWhitespace c = true → tokens (l ++ [c]) = tokens l := by
    intro l c h
    simp only [tokens, List.splitOnP_append_cons l [] h, List.filter_append]
    exact List.append_nil _
  rw [splitWhitespace, splitWhitespace, trim, String.toList_ofList]
  exact map_trimmed hCons hConcat s.toList

end Ezpds.Library
