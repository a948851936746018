import Ezpds.Library.SortedAssoc
import Mathlib.Algebra.BigOperators.Group.List.Basic
import Mathlib.Tactic.Abel
import Mathlib.Tactic.Common

/-!
# Ordered maps

An association list in key order together with the proof that it is one, so that a map is
determined by its lookups and can be compared, folded and counted entry by entry.

* `get?_set`: the update law; `insert` and `erase` are its two cases.
* `ext_get?`: maps with equal lookups are equal.
* `weight_set`: how an update changes a sum over the entries; `count_set` is the number
  of keys that satisfy a predicate.
-/

namespace Ezpds.Library

variable {κ β γ : Type} [LinearOrder κ]

/-! ## Entries -/

def assocGet (k : κ) : List (κ × β) → Option β
  | [] => none
  | e :: l => if e.1 = k then some e.2 else assocGet k l

def assocErase (k : κ) (l : List (κ × β)) : List (κ × β) :=
  l.filter fun e => e.1 ≠ k

theorem assocGet_nil (k : κ) : assocGet k ([] : List (κ × β)) = none := rfl

theorem assocGet_cons (k : κ) (e : κ × β) (l : List (κ × β)) :
    assocGet k (e :: l) = if e.1 = k then some e.2 else assocGet k l := rfl

theorem assocErase_nil (k : κ) : assocErase k ([] : List (κ × β)) = [] := rfl

theorem assocErase_cons_self {k : κ} {e : κ × β} {l : List (κ × β)} (h : e.1 = k) :
    assocErase k (e :: l) = assocErase k l :=
  List.filter_cons_of_neg (by simpa using h)

theorem assocErase_cons_of_ne {k : κ} {e : κ × β} {l : List (κ × β)} (h : e.1 ≠ k) :
    assocErase k (e :: l) = e :: assocErase k l :=
  List.filter_cons_of_pos (by simpa using h)

theorem keySorted_assocErase {k : κ} {l : List (κ × β)} (h : KeySorted l) :
    KeySorted (assocErase k l) :=
  h.sublist (List.filter_sublist.map Prod.fst)

theorem assocGet_eq_none {k : κ} {l : List (κ × β)} (h : ∀ e ∈ l, e.1 ≠ k) :
    assocGet k l = none := by
  induction l with
  | nil => rfl
  | cons e l ih =>
    rw [assocGet_cons, if_neg (h e List.mem_cons_self)]
    exact ih fun d hd => h d (List.mem_cons_of_mem _ hd)

theorem assocGet_of_forall_lt {k : κ} {l : List (κ × β)} (h : ∀ e ∈ l, k < e.1) :
    assocGet k l = none :=
  assocGet_eq_none fun e he => ne_of_gt (h e he)

theorem mem_of_assocGet {k : κ} {v : β} {l : List (κ × β)} (h : assocGet k l = some v) :
    (k, v) ∈ l := by
  induction l with
  | nil => cases h
  | cons e l ih =>
    rw [assocGet_cons] at h
    split at h
    · rename_i hEq
      cases h
      rw [← hEq]
      exact List.mem_cons_self
    · exact List.mem_cons_of_mem _ (ih h)

theorem assocGet_of_mem {k : κ} {v : β} {l : List (κ × β)} (hSorted : KeySorted l)
    (h : (k, v) ∈ l) : assocGet k l = some v := by
  induction l with
  | nil => cases h
  | cons e l ih =>
    obtain ⟨hHead, hTail⟩ := keySorted_cons.mp hSorted
    rcases List.mem_cons.mp h with rfl | h
    · rw [assocGet_cons, if_pos rfl]
    · rw [assocGet_cons, if_neg (ne_of_lt (hHead _ h)), ih hTail h]

theorem assocGet_assocInsert {k k' : κ} {v : β} {l : List (κ × β)} :
    assocGet k' (assocInsert k v l) = if k = k' then some v else assocGet k' l := by
  induction l with
  | nil => rfl
  | cons e l ih =>
    rw [assocInsert_cons]
    by_cases hLt : e.1 < k
    · rw [if_pos hLt, assocGet_cons, assocGet_cons, ih]
      by_cases h : k = k'
      · subst h
        rw [if_neg (ne_of_lt hLt), if_pos rfl, if_pos rfl]
      · rw [if_neg h, if_neg h]
    · rw [if_neg hLt]
      by_cases hEq : e.1 = k
      · rw [if_pos hEq, assocGet_cons, assocGet_cons, hEq]
        by_cases h : k = k'
        · rw [if_pos h, if_pos h]
        · rw [if_neg h, if_neg h, if_neg h]
      · rw [if_neg hEq, assocGet_cons]

theorem assocGet_assocErase {k k' : κ} {l : List (κ × β)} :
    assocGet k' (assocErase k l) = if k = k' then none else assocGet k' l := by
  induction l with
  | nil => simp [assocErase_nil, assocGet_nil]
  | cons e l ih =>
    by_cases hEq : e.1 = k
    · rw [assocErase_cons_self hEq, ih, assocGet_cons, hEq]
      by_cases h : k = k'
      · rw [if_pos h, if_pos h]
      · rw [if_neg h, if_neg h, if_neg h]
    · rw [assocErase_cons_of_ne hEq, assocGet_cons, assocGet_cons, ih]
      by_cases h : k = k'
      · subst h
        rw [if_neg hEq, if_pos rfl, if_pos rfl]
      · rw [if_neg h, if_neg h]

/-- Sorted lists with equal lookups are equal. -/
theorem eq_of_assocGet_eq {l l' : List (κ × β)} (h : KeySorted l) (h' : KeySorted l')
    (hGet : ∀ k, assocGet k l = assocGet k l') : l = l' := by
  induction l generalizing l' with
  | nil =>
    cases l' with
    | nil => rfl
    | cons e' l' =>
      have hHead := hGet e'.1
      rw [assocGet_nil, assocGet_cons, if_pos rfl] at hHead
      cases hHead
  | cons e l ih =>
    cases l' with
    | nil =>
      have hHead := hGet e.1
      rw [assocGet_cons, assocGet_nil, if_pos rfl] at hHead
      cases hHead
    | cons e' l' =>
      obtain ⟨hLt, hTail⟩ := keySorted_cons.mp h
      obtain ⟨hLt', hTail'⟩ := keySorted_cons.mp h'
      have hKey : e.1 = e'.1 := by
        rcases lt_trichotomy e.1 e'.1 with hlt | heq | hgt
        · -- the smaller head key has no entry in the other list
          have hHead := hGet e.1
          rw [assocGet_cons, if_pos rfl, assocGet_cons, if_neg (ne_of_gt hlt),
            assocGet_of_forall_lt fun d hd => lt_trans hlt (hLt' d hd)] at hHead
          cases hHead
        · exact heq
        · have hHead := hGet e'.1
          rw [assocGet_cons, if_neg (ne_of_gt hgt),
            assocGet_of_forall_lt fun d hd => lt_trans hgt (hLt d hd), assocGet_cons, if_pos rfl]
            at hHead
          cases hHead
      have hValue : e.2 = e'.2 := by
        have hHead := hGet e.1
        rw [assocGet_cons, if_pos rfl, assocGet_cons, if_pos hKey.symm] at hHead
        exact Option.some.inj hHead
      have hRest : ∀ k, assocGet k l = assocGet k l' := by
        intro k
        by_cases hk : e.1 = k
        · rw [assocGet_of_forall_lt fun d hd => hk ▸ hLt d hd,
            assocGet_of_forall_lt fun d hd => (hKey.symm.trans hk) ▸ hLt' d hd]
        · have hk' := hGet k
          rwa [assocGet, if_neg hk, assocGet, if_neg (hKey ▸ hk)] at hk'
      rw [ih hTail hTail' hRest, Prod.ext hKey hValue]

theorem mem_iff_assocGet {l : List (κ × β)} (h : KeySorted l) {k : κ} {v : β} :
    (k, v) ∈ l ↔ assocGet k l = some v :=
  ⟨assocGet_of_mem h, mem_of_assocGet⟩

/-- Lists in key order with the same entries are equal. -/
theorem eq_of_same_entries {l l' : List (κ × β)} (h : KeySorted l) (h' : KeySorted l')
    (hMem : ∀ e, e ∈ l ↔ e ∈ l') : l = l' := by
  apply eq_of_assocGet_eq h h'
  intro k
  ext v
  rw [← mem_iff_assocGet h, ← mem_iff_assocGet h', hMem]

/-- 1 for an entry, 0 for none. -/
def presence (ov : Option β) : Int :=
  if ov.isSome then 1 else 0

@[simp] theorem presence_none : presence (none : Option β) = 0 := rfl

@[simp] theorem presence_some (v : β) : presence (some v) = 1 := rfl

section Weights

variable {G : Type} [AddCommGroup G] {w : κ → β → G}

/-- The weight of what a key holds: 0 for nothing. -/
def heldWeight (w : κ → β → G) (k : κ) (ov : Option β) : G :=
  ov.elim 0 (w k)

omit [LinearOrder κ] in
@[simp] theorem heldWeight_none {k : κ} : heldWeight w k none = 0 := rfl

omit [LinearOrder κ] in
@[simp] theorem heldWeight_some {k : κ} {v : β} : heldWeight w k (some v) = w k v := rfl

theorem weight_assocInsert {k : κ} {v : β} {l : List (κ × β)} (h : KeySorted l) :
    ((assocInsert k v l).map fun e => w e.1 e.2).sum =
      (l.map fun e => w e.1 e.2).sum + (w k v - heldWeight w k (assocGet k l)) := by
  induction l with
  | nil => simp [assocInsert_nil, assocGet_nil]
  | cons e l ih =>
    obtain ⟨hHead, hTail⟩ := keySorted_cons.mp h
    have hRest := ih hTail
    rw [assocInsert_cons]
    by_cases hLt : e.1 < k
    · rw [if_pos hLt, assocGet_cons, if_neg (ne_of_lt hLt), List.map_cons, List.map_cons,
        List.sum_cons, List.sum_cons, hRest, add_assoc]
    · rw [if_neg hLt]
      by_cases hEq : e.1 = k
      · subst hEq
        rw [if_pos rfl, assocGet_cons, if_pos rfl, heldWeight_some, List.map_cons, List.map_cons,
          List.sum_cons, List.sum_cons]
        abel
      · have hFirst : k < e.1 := lt_of_le_of_ne (not_lt.mp hLt) (Ne.symm hEq)
        rw [if_neg hEq, assocGet_cons, if_neg hEq,
          assocGet_of_forall_lt fun d hd => lt_trans hFirst (hHead d hd), heldWeight_none,
          List.map_cons, List.sum_cons]
        abel

theorem weight_assocErase {k : κ} {l : List (κ × β)} (h : KeySorted l) :
    ((assocErase k l).map fun e => w e.1 e.2).sum =
      (l.map fun e => w e.1 e.2).sum - heldWeight w k (assocGet k l) := by
  induction l with
  | nil => simp [assocErase_nil, assocGet_nil]
  | cons e l ih =>
    obtain ⟨hHead, hTail⟩ := keySorted_cons.mp h
    have hRest := ih hTail
    by_cases hEq : e.1 = k
    · have hNone : assocGet k l = none := assocGet_of_forall_lt fun d hd => hEq ▸ hHead d hd
      subst hEq
      rw [assocErase_cons_self rfl, hRest, assocGet_cons, if_pos rfl, hNone,
        heldWeight_none, heldWeight_some, List.map_cons, List.sum_cons]
      abel
    · rw [assocErase_cons_of_ne hEq, assocGet_cons, if_neg hEq, List.map_cons,
        List.map_cons, List.sum_cons, List.sum_cons, hRest]
      abel

end Weights

/-! ## Maps -/

structure SortedMap (κ β : Type) [LinearOrder κ] where
  entries : List (κ × β)
  sorted : KeySorted entries
  deriving DecidableEq

namespace SortedMap

def empty : SortedMap κ β := ⟨[], List.Pairwise.nil⟩

def get? (m : SortedMap κ β) (k : κ) : Option β :=
  assocGet k m.entries

def insert (m : SortedMap κ β) (k : κ) (v : β) : SortedMap κ β :=
  ⟨assocInsert k v m.entries, keySorted_assocInsert m.sorted⟩

def erase (m : SortedMap κ β) (k : κ) : SortedMap κ β :=
  ⟨assocErase k m.entries, keySorted_assocErase m.sorted⟩

/-- Stores `v` at `k`, or removes `k`. -/
def set (m : SortedMap κ β) (k : κ) : Option β → SortedMap κ β
  | none => m.erase k
  | some v => m.insert k v

def values (m : SortedMap κ β) : List β :=
  m.entries.map Prod.snd

def size (m : SortedMap κ β) : Nat :=
  m.entries.length

/-- How many keys satisfy `p`. -/
def count (p : κ → Bool) (m : SortedMap κ β) : Nat :=
  m.entries.countP fun e => p e.1

/-- The sum of the weights of the entries. -/
def weight {G : Type} [AddCommGroup G] (w : κ → β → G) (m : SortedMap κ β) : G :=
  (m.entries.map fun e => w e.1 e.2).sum

def mapValues (f : β → γ) (m : SortedMap κ β) : SortedMap κ γ where
  entries := m.entries.map fun e => (e.1, f e.2)
  sorted := by
    rw [KeySorted, List.map_map]
    exact m.sorted

variable {m m' : SortedMap κ β} {k k' : κ} {v : β} {ov : Option β}

theorem ext_entries (h : m.entries = m'.entries) : m = m' := by
  cases m
  cases m'
  cases h
  rfl

theorem ext_get? (h : ∀ k, m.get? k = m'.get? k) : m = m' :=
  ext_entries (eq_of_assocGet_eq m.sorted m'.sorted h)

@[simp] theorem get?_set : (m.set k ov).get? k' = if k = k' then ov else m.get? k' := by
  cases ov with
  | none => exact assocGet_assocErase
  | some v => exact assocGet_assocInsert

theorem set_get? : m.set k (m.get? k) = m := by
  apply ext_get?
  intro k'
  rw [get?_set]
  by_cases h : k = k'
  · rw [if_pos h, h]
  · rw [if_neg h]

theorem set_set {ov' : Option β} : (m.set k ov).set k ov' = m.set k ov' := by
  apply ext_get?
  intro k'
  by_cases h : k = k'
  · simp [h]
  · simp [h]

theorem mem_values : v ∈ m.values ↔ ∃ k, m.get? k = some v := by
  rw [values, List.mem_map]
  constructor
  · rintro ⟨e, he, rfl⟩
    exact ⟨e.1, assocGet_of_mem m.sorted he⟩
  · rintro ⟨k, hk⟩
    exact ⟨(k, v), mem_of_assocGet hk, rfl⟩

theorem get?_mapValues {f : β → γ} : (m.mapValues f).get? k = (m.get? k).map f := by
  cases m with
  | mk l hl =>
    simp only [get?, mapValues]
    clear hl
    induction l with
    | nil => rfl
    | cons e l ih =>
      rw [List.map_cons, assocGet_cons, assocGet_cons, ih]
      by_cases h : e.1 = k
      · rw [if_pos h, if_pos h]
        rfl
      · rw [if_neg h, if_neg h]

theorem mapValues_set {f : β → γ} :
    (m.set k ov).mapValues f = (m.mapValues f).set k (ov.map f) := by
  apply ext_get?
  intro k'
  rw [get?_mapValues, get?_set, get?_set, get?_mapValues]
  by_cases h : k = k'
  · rw [if_pos h, if_pos h]
  · rw [if_neg h, if_neg h]

theorem count_true : m.count (fun _ => true) = m.size := by
  simp [count, size]

/-- An update takes the weight of the old entry out and puts the new one in. -/
theorem weight_set {G : Type} [AddCommGroup G] {w : κ → β → G} :
    (m.set k ov).weight w = m.weight w + (heldWeight w k ov - heldWeight w k (m.get? k)) := by
  cases ov with
  | none =>
    rw [heldWeight_none, zero_sub, ← sub_eq_add_neg]
    exact weight_assocErase m.sorted
  | some v => exact weight_assocInsert m.sorted

theorem count_eq_weight {p : κ → Bool} :
    (m.count p : Int) = m.weight fun k _ => if p k then 1 else 0 := by
  cases m with
  | mk l hl =>
    simp only [count, weight]
    clear hl
    induction l with
    | nil => rfl
    | cons e l ih =>
      rw [List.countP_cons, List.map_cons, List.sum_cons, ← ih]
      push_cast
      by_cases hp : p e.1 <;> simp [hp, add_comm]

omit [LinearOrder κ] in
theorem heldWeight_eq_presence {p : κ → Bool} :
    heldWeight (fun k (_ : β) => if p k then (1 : Int) else 0) k ov =
      if p k then presence ov else 0 := by
  cases ov <;> simp

theorem count_set {p : κ → Bool} :
    ((m.set k ov).count p : Int) =
      m.count p + if p k then presence ov - presence (m.get? k) else 0 := by
  rw [count_eq_weight, count_eq_weight, weight_set, heldWeight_eq_presence,
    heldWeight_eq_presence]
  by_cases hp : p k <;> simp [hp]

end SortedMap

end Ezpds.Library
