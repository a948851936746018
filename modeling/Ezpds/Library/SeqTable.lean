import Mathlib.Data.List.Sort
import Mathlib.Tactic.Common

/-!
# Tables keyed by a sequence number

A `SeqTable` is a relation with a unique number per row, kept in key order. It has the
operations of an append log that is trimmed from below: insert one row, delete every
row up to a watermark, read the largest key, read a bounded page.

* `maxKey_insert`, `maxKey_prune`: what insertion and trimming do to the largest key.
* `page_append_keysIn`, `page_of_length_lt`: paging through an interval neither skips nor
  repeats a key.
* `Dense.insert`, `Dense.prune`: trimming and appending keep a contiguous table
  contiguous.
* `Dense.keys_page`: a page of a contiguous table is a run of consecutive keys.
-/

namespace Ezpds.Library

/-- Rows in strictly increasing key order. -/
structure SeqTable (α : Type*) where
  rows : List (Nat × α)
  sorted : rows.Pairwise fun r s => r.1 < s.1

namespace SeqTable

variable {α : Type*}

@[ext] theorem ext {t u : SeqTable α} (h : t.rows = u.rows) : t = u := by
  cases t
  cases u
  cases h
  rfl

def empty : SeqTable α := ⟨[], List.Pairwise.nil⟩

def keys (t : SeqTable α) : List Nat := t.rows.map (·.1)

/-- The largest key, and 0 of an empty table. -/
def maxKey (t : SeqTable α) : Nat := t.keys.foldr max 0

theorem keys_sorted (t : SeqTable α) : t.keys.Pairwise (· < ·) :=
  List.pairwise_map.mpr t.sorted

theorem mem_keys {t : SeqTable α} {k : Nat} : k ∈ t.keys ↔ ∃ v, (k, v) ∈ t.rows := by
  simp [keys]

theorem mem_keys_of_mem {t : SeqTable α} {r : Nat × α} (h : r ∈ t.rows) : r.1 ∈ t.keys :=
  List.mem_map_of_mem h

@[simp] theorem keys_empty : (empty : SeqTable α).keys = [] := rfl

/-! ## The largest key -/

theorem le_foldr_max {l : List Nat} {k : Nat} (h : k ∈ l) : k ≤ l.foldr max 0 := by
  induction l with
  | nil => cases h
  | cons a l ih =>
    rcases List.mem_cons.mp h with rfl | h
    · exact Nat.le_max_left _ _
    · exact (ih h).trans (Nat.le_max_right _ _)

theorem foldr_max_mem {l : List Nat} (h : 0 < l.foldr max 0) : l.foldr max 0 ∈ l := by
  induction l with
  | nil => simp at h
  | cons a l ih =>
    simp only [List.foldr_cons] at h ⊢
    rcases Nat.le_total a (l.foldr max 0) with hm | hm
    · rw [Nat.max_eq_right hm] at h ⊢
      exact List.mem_cons_of_mem _ (ih h)
    · rw [Nat.max_eq_left hm]
      exact List.mem_cons_self

theorem le_maxKey {t : SeqTable α} {k : Nat} (h : k ∈ t.keys) : k ≤ t.maxKey :=
  le_foldr_max h

theorem maxKey_mem {t : SeqTable α} (h : 0 < t.maxKey) : t.maxKey ∈ t.keys :=
  foldr_max_mem h

/-- A bound that is attained is the largest key. -/
theorem maxKey_eq {t : SeqTable α} {m : Nat} (hm : m ∈ t.keys)
    (hle : ∀ k ∈ t.keys, k ≤ m) : t.maxKey = m := by
  have h1 := le_maxKey hm
  rcases Nat.eq_zero_or_pos t.maxKey with h0 | h0
  · omega
  · exact Nat.le_antisymm (hle _ (maxKey_mem h0)) h1

@[simp] theorem maxKey_empty : (empty : SeqTable α).maxKey = 0 := rfl

/-! ## Inserting a row -/

/-- Insert a row, or `none` when its key is taken. -/
def insert (t : SeqTable α) (k : Nat) (v : α) : Option (SeqTable α) :=
  if k ∈ t.keys then none
  else
    some
      { rows := t.rows.filter (·.1 < k) ++ (k, v) :: t.rows.filter (k < ·.1)
        sorted := by
          simp only [List.pairwise_append, List.pairwise_cons, List.mem_filter,
            List.mem_cons, decide_eq_true_eq]
          refine ⟨t.sorted.filter _, ⟨?_, t.sorted.filter _⟩, ?_⟩
          · intro r hr
            exact hr.2
          · rintro r ⟨_, hr⟩ s (rfl | ⟨_, hs⟩)
            · exact hr
            · exact hr.trans hs }

theorem insert_eq_none {t : SeqTable α} {k : Nat} {v : α} :
    t.insert k v = none ↔ k ∈ t.keys := by
  unfold insert
  split <;> simp_all

theorem insert_isSome {t : SeqTable α} {k : Nat} (v : α) (h : k ∉ t.keys) :
    ∃ u, t.insert k v = some u := by
  unfold insert
  rw [if_neg h]
  exact ⟨_, rfl⟩

theorem not_mem_of_insert {t u : SeqTable α} {k : Nat} {v : α}
    (h : t.insert k v = some u) : k ∉ t.keys := by
  intro hk
  rw [insert_eq_none.mpr hk] at h
  cases h

theorem rows_insert {t u : SeqTable α} {k : Nat} {v : α} (h : t.insert k v = some u) :
    u.rows = t.rows.filter (·.1 < k) ++ (k, v) :: t.rows.filter (k < ·.1) := by
  unfold insert at h
  rw [if_neg (not_mem_of_insert h)] at h
  cases h
  rfl

theorem mem_rows_insert {t u : SeqTable α} {k : Nat} {v : α}
    (h : t.insert k v = some u) {r : Nat × α} : r ∈ u.rows ↔ r = (k, v) ∨ r ∈ t.rows := by
  have hk := not_mem_of_insert h
  simp only [rows_insert h, List.mem_append, List.mem_cons, List.mem_filter,
    decide_eq_true_eq]
  constructor
  · rintro (⟨hr, _⟩ | rfl | ⟨hr, _⟩)
    · exact Or.inr hr
    · exact Or.inl rfl
    · exact Or.inr hr
  · rintro (rfl | hr)
    · exact Or.inr (Or.inl rfl)
    · have hne : r.1 ≠ k := fun he => hk (he ▸ mem_keys_of_mem hr)
      rcases Nat.lt_or_gt_of_ne hne with hlt | hgt
      · exact Or.inl ⟨hr, hlt⟩
      · exact Or.inr (Or.inr ⟨hr, hgt⟩)

theorem mem_keys_insert {t u : SeqTable α} {k : Nat} {v : α}
    (h : t.insert k v = some u) {j : Nat} : j ∈ u.keys ↔ j = k ∨ j ∈ t.keys := by
  simp only [mem_keys, mem_rows_insert h, Prod.mk.injEq]
  constructor
  · rintro ⟨w, ⟨rfl, _⟩ | hw⟩
    · exact Or.inl rfl
    · exact Or.inr ⟨w, hw⟩
  · rintro (rfl | ⟨w, hw⟩)
    · exact ⟨v, Or.inl ⟨rfl, rfl⟩⟩
    · exact ⟨w, Or.inr hw⟩

theorem maxKey_insert {t u : SeqTable α} {k : Nat} {v : α}
    (h : t.insert k v = some u) : u.maxKey = max t.maxKey k := by
  have hbound : ∀ j ∈ u.keys, j ≤ max t.maxKey k := by
    intro j hj
    rcases (mem_keys_insert h).mp hj with rfl | hj
    · exact Nat.le_max_right _ _
    · exact (le_maxKey hj).trans (Nat.le_max_left _ _)
  refine maxKey_eq ?_ hbound
  rcases le_total t.maxKey k with hle | hle
  · rw [max_eq_right hle]
    exact (mem_keys_insert h).mpr (Or.inl rfl)
  · rw [max_eq_left hle]
    refine (mem_keys_insert h).mpr ?_
    rcases Nat.eq_zero_or_pos t.maxKey with h0 | h0
    · left
      omega
    · exact Or.inr (maxKey_mem h0)

/-! ## Deleting a prefix -/

/-- Delete every row whose key is at most `w`. -/
def prune (t : SeqTable α) (w : Nat) : SeqTable α where
  rows := t.rows.filter (w < ·.1)
  sorted := t.sorted.filter _

theorem mem_rows_prune {t : SeqTable α} {w : Nat} {r : Nat × α} :
    r ∈ (t.prune w).rows ↔ r ∈ t.rows ∧ w < r.1 := by
  simp [prune]

theorem mem_keys_prune {t : SeqTable α} {w k : Nat} :
    k ∈ (t.prune w).keys ↔ k ∈ t.keys ∧ w < k := by
  simp only [mem_keys, mem_rows_prune]
  constructor
  · rintro ⟨v, hv, hw⟩
    exact ⟨⟨v, hv⟩, hw⟩
  · rintro ⟨⟨v, hv⟩, hw⟩
    exact ⟨v, hv, hw⟩

/-- What a prune deletes is a prefix of the rows. -/
theorem rows_eq_append_prune (t : SeqTable α) (w : Nat) :
    t.rows = t.rows.filter (·.1 ≤ w) ++ (t.prune w).rows := by
  have hSorted := t.sorted
  simp only [prune]
  generalize t.rows = rows at hSorted ⊢
  induction rows with
  | nil => rfl
  | cons r rows ih =>
    obtain ⟨hAbove, hSorted⟩ := List.pairwise_cons.mp hSorted
    by_cases hLe : r.1 ≤ w
    · rw [List.filter_cons_of_pos (by simpa using hLe),
        List.filter_cons_of_neg (by simpa using hLe), List.cons_append, ← ih hSorted]
    · have hNone : rows.filter (·.1 ≤ w) = [] := by
        rw [List.filter_eq_nil_iff]
        intro s hs
        have := hAbove s hs
        simp only [decide_eq_true_eq]
        omega
      have hAll : rows.filter (fun s => decide (w < s.1)) = rows := by
        rw [List.filter_eq_self]
        intro s hs
        have := hAbove s hs
        simp only [decide_eq_true_eq]
        omega
      rw [List.filter_cons_of_neg (by simpa using hLe), hNone, List.nil_append,
        List.filter_cons_of_pos (by simpa using hLe), hAll]

/-- A watermark below the largest key does not move the largest key. -/
theorem maxKey_prune {t : SeqTable α} {w : Nat} (h : w < t.maxKey) :
    (t.prune w).maxKey = t.maxKey := by
  refine maxKey_eq (mem_keys_prune.mpr ⟨maxKey_mem (by omega), h⟩) ?_
  intro k hk
  exact le_maxKey (mem_keys_prune.mp hk).1

/-! ## Pages -/

/-- The rows with `after < key ≤ upper`, in key order. -/
def range (t : SeqTable α) (after upper : Nat) : List (Nat × α) :=
  t.rows.filter fun r => after < r.1 && r.1 ≤ upper

/-- The first `limit` rows with `after < key ≤ upper`. -/
def page (t : SeqTable α) (after upper limit : Nat) : List (Nat × α) :=
  (t.range after upper).take limit

theorem mem_range {t : SeqTable α} {after upper : Nat} {r : Nat × α} :
    r ∈ t.range after upper ↔ r ∈ t.rows ∧ after < r.1 ∧ r.1 ≤ upper := by
  simp [range]

theorem range_sorted (t : SeqTable α) (after upper : Nat) :
    (t.range after upper).Pairwise fun r s => r.1 < s.1 :=
  t.sorted.filter _

/-- The keys in `(after, upper]`, in order. -/
def keysIn (t : SeqTable α) (after upper : Nat) : List Nat :=
  (t.range after upper).map (·.1)

theorem mem_keysIn {t : SeqTable α} {after upper k : Nat} :
    k ∈ t.keysIn after upper ↔ k ∈ t.keys ∧ after < k ∧ k ≤ upper := by
  simp [keysIn, keys, range]

theorem keysIn_sorted (t : SeqTable α) (after upper : Nat) :
    (t.keysIn after upper).Pairwise (· < ·) :=
  List.pairwise_map.mpr (t.range_sorted after upper)

/-- A sorted list with the right members is the list of keys. -/
theorem keysIn_eq {t : SeqTable α} {after upper : Nat} {l : List Nat}
    (hl : l.Pairwise (· < ·))
    (hmem : ∀ k, k ∈ l ↔ k ∈ t.keys ∧ after < k ∧ k ≤ upper) :
    t.keysIn after upper = l := by
  refine (t.keysIn_sorted after upper).eq_of_mem_iff hl ?_
  intro k
  rw [mem_keysIn, hmem k]

theorem keysIn_congr {t u : SeqTable α} {after upper : Nat}
    (h : ∀ k, k ≤ upper → (k ∈ t.keys ↔ k ∈ u.keys)) :
    t.keysIn after upper = u.keysIn after upper := by
  refine keysIn_eq (u.keysIn_sorted after upper) ?_
  intro k
  rw [mem_keysIn]
  constructor
  · rintro ⟨hk, h1, h2⟩
    exact ⟨(h k h2).mpr hk, h1, h2⟩
  · rintro ⟨hk, h1, h2⟩
    exact ⟨(h k h2).mp hk, h1, h2⟩

theorem keysIn_eq_nil {t : SeqTable α} {after upper : Nat} (h : upper ≤ after) :
    t.keysIn after upper = [] := by
  refine keysIn_eq List.Pairwise.nil ?_
  intro k
  simp only [List.not_mem_nil, false_iff, not_and]
  omega

/-- An interval of keys splits at any point inside it. -/
theorem keysIn_split {t : SeqTable α} {after mid upper : Nat} (h1 : after ≤ mid)
    (h2 : mid ≤ upper) :
    t.keysIn after upper = t.keysIn after mid ++ t.keysIn mid upper := by
  refine keysIn_eq ?_ ?_
  · refine List.pairwise_append.mpr ⟨t.keysIn_sorted _ _, t.keysIn_sorted _ _, ?_⟩
    intro j hj k hk
    have := mem_keysIn.mp hj
    have := mem_keysIn.mp hk
    omega
  · intro k
    rw [List.mem_append, mem_keysIn, mem_keysIn]
    constructor
    · rintro (⟨hk, hlo, hhi⟩ | ⟨hk, hlo, hhi⟩)
      · exact ⟨hk, hlo, by omega⟩
      · exact ⟨hk, by omega, hhi⟩
    · rintro ⟨hk, hlo, hhi⟩
      rcases le_or_gt k mid with hm | hm
      · exact Or.inl ⟨hk, hlo, hm⟩
      · exact Or.inr ⟨hk, hm, hhi⟩

/-- A page, followed by the keys above its last one, is the whole interval. -/
theorem page_append_keysIn {t : SeqTable α} {after upper limit : Nat} {p : List (Nat × α)}
    {r : Nat × α} (h : t.page after upper limit = p ++ [r]) :
    (t.page after upper limit).map (·.1) ++ t.keysIn r.1 upper = t.keysIn after upper := by
  have hSplit : t.range after upper = (p ++ [r]) ++ (t.range after upper).drop limit := by
    rw [← h]
    exact (List.take_append_drop limit _).symm
  have hSorted := t.range_sorted after upper
  rw [hSplit, List.pairwise_append] at hSorted
  obtain ⟨hPage, _, hCross⟩ := hSorted
  have hLast : ∀ x ∈ p ++ [r], x.1 ≤ r.1 := by
    intro x hx
    rcases List.mem_append.mp hx with hx | hx
    · exact ((List.pairwise_append.mp hPage).2.2 x hx r (by simp)).le
    · rw [List.mem_singleton.mp hx]
  symm
  refine keysIn_eq ?_ ?_
  · rw [h]
    refine List.pairwise_append.mpr
      ⟨List.pairwise_map.mpr hPage, t.keysIn_sorted _ _, ?_⟩
    intro j hj k hk
    obtain ⟨x, hx, rfl⟩ := List.mem_map.mp hj
    exact (hLast x hx).trans_lt (mem_keysIn.mp hk).2.1
  · intro k
    have hr : r ∈ t.range after upper := by
      rw [hSplit]
      simp
    have hBounds := (mem_range.mp hr).2
    rw [List.mem_append, mem_keysIn, h]
    constructor
    · rintro (hk | ⟨hk, hlo, hhi⟩)
      · obtain ⟨x, hx, rfl⟩ := List.mem_map.mp hk
        have hx' : x ∈ t.range after upper := by
          rw [hSplit]
          exact List.mem_append_left _ hx
        have := mem_range.mp hx'
        exact ⟨mem_keys_of_mem this.1, this.2⟩
      · exact ⟨hk, by omega, hhi⟩
    · rintro ⟨hk, hlo, hhi⟩
      rcases le_or_gt k r.1 with hkr | hkr
      · left
        obtain ⟨v, hv⟩ := mem_keys.mp hk
        have hx : (k, v) ∈ t.range after upper := mem_range.mpr ⟨hv, hlo, hhi⟩
        rw [hSplit] at hx
        rcases List.mem_append.mp hx with hx | hx
        · exact List.mem_map_of_mem hx
        · have := hCross r (by simp) (k, v) hx
          simp only at this
          omega
      · exact Or.inr ⟨hk, hkr, hhi⟩

/-- A page shorter than its limit is the whole interval. -/
theorem page_of_length_lt {t : SeqTable α} {after upper limit : Nat}
    (h : (t.page after upper limit).length < limit) :
    (t.page after upper limit).map (·.1) = t.keysIn after upper := by
  unfold page at h ⊢
  rw [List.length_take] at h
  rw [List.take_of_length_le (by omega)]
  rfl

/-! ## Contiguous tables -/

/-- The keys are exactly the numbers from `lo` to `hi`. -/
def Dense (t : SeqTable α) (lo hi : Nat) : Prop :=
  ∀ k, k ∈ t.keys ↔ lo ≤ k ∧ k ≤ hi

theorem Dense.maxKey {t : SeqTable α} {lo hi : Nat} (h : t.Dense lo hi) (hle : lo ≤ hi) :
    t.maxKey = hi :=
  maxKey_eq ((h hi).mpr ⟨hle, le_rfl⟩) fun k hk => ((h k).mp hk).2

theorem Dense.insert {t u : SeqTable α} {lo hi : Nat} (h : t.Dense lo hi)
    (hle : lo ≤ hi + 1) {v : α} (hu : t.insert (hi + 1) v = some u) : u.Dense lo (hi + 1) := by
  intro k
  rw [mem_keys_insert hu, h k]
  omega

theorem Dense.prune {t : SeqTable α} {lo hi : Nat} (h : t.Dense lo hi) (w : Nat) :
    (t.prune w).Dense (max lo (w + 1)) hi := by
  intro k
  rw [mem_keys_prune, h k]
  omega

theorem Dense.length {t : SeqTable α} {lo hi : Nat} (h : t.Dense lo hi) :
    t.rows.length = hi + 1 - lo := by
  have hKeys : t.keys = List.range' lo (hi + 1 - lo) := by
    refine t.keys_sorted.eq_of_mem_iff List.pairwise_lt_range' ?_
    intro k
    rw [h k, List.mem_range'_1]
    omega
  have hLength := congrArg List.length hKeys
  rw [keys, List.length_map, List.length_range'] at hLength
  exact hLength

/-- A page of a contiguous table is the run of consecutive keys that starts at the
larger of `after + 1` and the oldest key. -/
theorem Dense.keys_page {t : SeqTable α} {lo hi : Nat} (h : t.Dense lo hi)
    (after upper limit : Nat) :
    (t.page after upper limit).map (·.1) =
      List.range' (max (after + 1) lo)
        (min limit (min upper hi + 1 - max (after + 1) lo)) := by
  have hrange : (t.range after upper).map (·.1) =
      List.range' (max (after + 1) lo) (min upper hi + 1 - max (after + 1) lo) := by
    refine keysIn_eq List.pairwise_lt_range' ?_
    intro k
    rw [h k, List.mem_range'_1]
    omega
  rw [page, List.map_take, hrange]
  rcases le_total limit (min upper hi + 1 - max (after + 1) lo) with hl | hl
  · rw [List.take_range'_of_length_ge hl, min_eq_left hl]
  · rw [List.take_range'_of_length_le hl, min_eq_right hl]

end SeqTable

end Ezpds.Library
