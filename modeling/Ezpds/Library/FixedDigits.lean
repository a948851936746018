import Mathlib.Data.List.Induction
import Mathlib.Tactic.Ring

/-!
# Numbers in a fixed number of digits

A number written with a fixed number of digits, most significant first, compares as its
digit list does. The digits may be renamed by any strictly increasing map, so this is
the order of sortable text encodings of fixed-width integers.

* `digitsValue_fixedDigits`, `fixedDigits_digitsValue`: writing and reading are inverse.
* `lt_iff_digitsValue_lt`: the lexicographic order is the numeric order.
* `map_digits_lt_iff`: renaming digits keeps the lexicographic order.
-/

namespace Ezpds.Library

/-- The last `n` digits of `v` in base `b`, most significant first. -/
def fixedDigits (b : Nat) : Nat → Nat → List Nat
  | 0, _ => []
  | n + 1, v => fixedDigits b n (v / b) ++ [v % b]

/-- The number that a digit list denotes. -/
def digitsValue (b : Nat) (l : List Nat) : Nat :=
  l.foldl (fun v d => v * b + d) 0

variable {b n : Nat}

@[simp] theorem length_fixedDigits (v : Nat) : (fixedDigits b n v).length = n := by
  induction n generalizing v with
  | zero => rfl
  | succ n ih => simp [fixedDigits, ih]

theorem lt_of_mem_fixedDigits (hb : 0 < b) {v d : Nat} (h : d ∈ fixedDigits b n v) : d < b := by
  induction n generalizing v with
  | zero => cases h
  | succ n ih =>
    rcases List.mem_append.mp h with h | h
    · exact ih h
    · rw [List.mem_singleton.mp h]
      exact Nat.mod_lt v hb

theorem digitsValue_append (l : List Nat) (d : Nat) :
    digitsValue b (l ++ [d]) = digitsValue b l * b + d := by
  simp [digitsValue]

theorem foldl_digits (l : List Nat) (v : Nat) :
    l.foldl (fun v d => v * b + d) v = v * b ^ l.length + digitsValue b l := by
  induction l generalizing v with
  | nil => simp [digitsValue]
  | cons d l ih =>
    simp only [digitsValue, List.foldl_cons, List.length_cons] at ih ⊢
    rw [ih, ih (0 * b + d)]
    ring

theorem digitsValue_cons (d : Nat) (l : List Nat) :
    digitsValue b (d :: l) = d * b ^ l.length + digitsValue b l := by
  have h := foldl_digits (b := b) l (0 * b + d)
  simpa [digitsValue] using h

theorem digitsValue_fixedDigits (v : Nat) : digitsValue b (fixedDigits b n v) = v % b ^ n := by
  induction n generalizing v with
  | zero => simp [fixedDigits, digitsValue, Nat.mod_one]
  | succ n ih =>
    rw [fixedDigits, digitsValue_append, ih, pow_succ', Nat.mod_mul]
    ring

theorem digitsValue_lt {l : List Nat} (h : ∀ d ∈ l, d < b) : digitsValue b l < b ^ l.length := by
  induction l with
  | nil => simp [digitsValue]
  | cons d l ih =>
    have hd : d < b := h d List.mem_cons_self
    have hl := ih fun e he => h e (List.mem_cons_of_mem _ he)
    rw [digitsValue_cons, List.length_cons, pow_succ']
    calc d * b ^ l.length + digitsValue b l
        < d * b ^ l.length + b ^ l.length := Nat.add_lt_add_left hl _
      _ = (d + 1) * b ^ l.length := by ring
      _ ≤ b * b ^ l.length := Nat.mul_le_mul_right _ hd

theorem fixedDigits_digitsValue {l : List Nat} (h : ∀ d ∈ l, d < b) :
    fixedDigits b l.length (digitsValue b l) = l := by
  induction l using List.reverseRecOn with
  | nil => rfl
  | append_singleton l d ih =>
    have hd : d < b := h d (by simp)
    have hl := ih fun e he => h e (List.mem_append_left _ he)
    have hb : 0 < b := by omega
    rw [List.length_append, List.length_singleton, fixedDigits, digitsValue_append,
      Nat.mul_comm, Nat.mul_add_div hb, Nat.div_eq_of_lt hd, Nat.add_zero, hl,
      Nat.mul_add_mod, Nat.mod_eq_of_lt hd]

/-- Digit lists of one length compare as the numbers that they denote. -/
theorem lt_iff_digitsValue_lt {l l' : List Nat} (hLen : l.length = l'.length)
    (h : ∀ d ∈ l, d < b) (h' : ∀ d ∈ l', d < b) :
    l < l' ↔ digitsValue b l < digitsValue b l' := by
  induction l generalizing l' with
  | nil =>
    cases l' with
    | nil => simp
    | cons d' l' => simp at hLen
  | cons d l ih =>
    cases l' with
    | nil => simp at hLen
    | cons d' l' =>
      have hLen' : l.length = l'.length := by simpa using hLen
      have hl : ∀ e ∈ l, e < b := fun e he => h e (List.mem_cons_of_mem _ he)
      have hl' : ∀ e ∈ l', e < b := fun e he => h' e (List.mem_cons_of_mem _ he)
      have hv : digitsValue b l < b ^ l'.length := by
        rw [← hLen']
        exact digitsValue_lt hl
      have hv' := digitsValue_lt hl'
      rw [List.cons_lt_cons_iff, ih hLen' hl hl', digitsValue_cons, digitsValue_cons, hLen']
      rcases Nat.lt_trichotomy d d' with hlt | rfl | hgt
      · have hstep : (d + 1) * b ^ l'.length ≤ d' * b ^ l'.length :=
          Nat.mul_le_mul_right _ hlt
        rw [Nat.add_mul, Nat.one_mul] at hstep
        constructor
        · intro _
          omega
        · intro _
          exact Or.inl hlt
      · simp
      · have hstep : (d' + 1) * b ^ l'.length ≤ d * b ^ l'.length :=
          Nat.mul_le_mul_right _ hgt
        rw [Nat.add_mul, Nat.one_mul] at hstep
        constructor
        · rintro (hlt | ⟨rfl, _⟩)
          · omega
          · omega
        · intro hlt
          omega

/-- A strictly increasing renaming of the digits keeps the lexicographic order. -/
theorem map_digits_lt_iff {α : Type*} [LinearOrder α] {f : Nat → α}
    (hf : ∀ d e, d < e → e < b → f d < f e) {l l' : List Nat} (h : ∀ d ∈ l, d < b)
    (h' : ∀ d ∈ l', d < b) : l.map f < l'.map f ↔ l < l' := by
  induction l generalizing l' with
  | nil =>
    cases l' with
    | nil => simp
    | cons d' l' => simp
  | cons d l ih =>
    cases l' with
    | nil => simp
    | cons d' l' =>
      have hl : ∀ e ∈ l, e < b := fun e he => h e (List.mem_cons_of_mem _ he)
      have hl' : ∀ e ∈ l', e < b := fun e he => h' e (List.mem_cons_of_mem _ he)
      have hd : d < b := h d List.mem_cons_self
      have hd' : d' < b := h' d' List.mem_cons_self
      simp only [List.map_cons]
      rw [List.cons_lt_cons_iff, List.cons_lt_cons_iff, ih hl hl']
      rcases Nat.lt_trichotomy d d' with hlt | rfl | hgt
      · simp [hlt, hf d d' hlt hd']
      · simp
      · have hgt' := hf d' d hgt hd
        simp [hgt.not_gt, hgt.ne', hgt'.not_gt, hgt'.ne']

end Ezpds.Library
