import Ezpds.Library.Except
import Mathlib.Data.List.Basic
import Mathlib.Data.List.Pairwise
import Mathlib.Order.Defs.LinearOrder
import Mathlib.Order.Lattice
import Mathlib.Tactic.Common

/-!
# Keyset paging

The rows of a table in key order are read a page at a time: the first page starts where a
predicate begins to hold, and each further page above the key of the last row read. A page
shorter than its limit is the last one.

* `filter_above_of_split`: the rows above a row are the ones after it.
* `filter_above_last`: a full page, followed by the rows above its last key, is everything
  from its start.
* `pages_eq`: the pages, one after the other, are the rows from the start, once each.
* `takeWhile_take`: a limited read of rows, up to the first that is out of range.
* `follow_all`: pages that look one row ahead and hand out a cursor while rows remain, read
  at one cursor after the other, are all the rows.
-/

namespace Ezpds.Library

variable {α κ : Type} [LinearOrder κ] {key : α → κ} {rows : List α} {p : α → Bool}
  {limit : Nat}

/-- The rows are in strictly increasing key order. -/
def KeyedBy (key : α → κ) (rows : List α) : Prop :=
  rows.Pairwise fun a b => key a < key b

/-- Where `p` holds of a row, it holds of the rows above it. -/
def UpwardClosed (key : α → κ) (p : α → Bool) : Prop :=
  ∀ a b, p a = true → key a < key b → p b = true

def page (rows : List α) (p : α → Bool) (limit : Nat) : List α :=
  (rows.filter p).take limit

/-- The rows above the key `k`. -/
def above (key : α → κ) (k : κ) (a : α) : Bool :=
  decide (k < key a)

theorem upwardClosed_above {k : κ} : UpwardClosed key (above key k) := by
  intro a b ha hab
  exact decide_eq_true (lt_trans (of_decide_eq_true ha) hab)

/-- The rows above one of them are those that follow it. -/
theorem filter_above_of_split {init rest : List α} {last : α}
    (h : KeyedBy key ((init ++ [last]) ++ rest)) :
    ((init ++ [last]) ++ rest).filter (above key (key last)) = rest := by
  obtain ⟨hRead, _, hCross⟩ := List.pairwise_append.mp h
  have hInit : ∀ a ∈ init ++ [last], ¬ above key (key last) a = true := by
    intro a ha
    rw [above, decide_eq_true_eq]
    rcases List.mem_append.mp ha with ha | ha
    · exact lt_asymm ((List.pairwise_append.mp hRead).2.2 a ha last (by simp))
    · rw [List.mem_singleton.mp ha]
      exact lt_irrefl _
  have hRest : ∀ a ∈ rest, above key (key last) a = true := by
    intro a ha
    exact decide_eq_true (hCross last (by simp) a ha)
  rw [List.filter_append, List.filter_eq_nil_iff.mpr hInit, List.filter_eq_self.mpr hRest,
    List.nil_append]

/-- What is above the last row of a full page is what the page left over. -/
theorem filter_above_last {last : α} {init : List α} (hRows : KeyedBy key rows)
    (hp : UpwardClosed key p) (hPage : page rows p limit = init ++ [last]) :
    rows.filter (above key (key last)) = (rows.filter p).drop limit := by
  have hSplit : rows.filter p = (init ++ [last]) ++ (rows.filter p).drop limit := by
    rw [← hPage]
    exact (List.take_append_drop limit _).symm
  have hLast : p last = true := by
    have hMem : last ∈ rows.filter p := by
      rw [hSplit]
      simp
    exact (List.mem_filter.mp hMem).2
  have hSorted : KeyedBy key ((init ++ [last]) ++ (rows.filter p).drop limit) := by
    rw [← hSplit]
    exact hRows.filter _
  have hAbove : rows.filter (above key (key last)) =
      (rows.filter p).filter (above key (key last)) := by
    rw [List.filter_filter]
    apply List.filter_congr
    intro a _
    cases hA : above key (key last) a with
    | false => rfl
    | true => rw [hp last a hLast (of_decide_eq_true hA), Bool.true_and]
  calc rows.filter (above key (key last))
      = (rows.filter p).filter (above key (key last)) := hAbove
    _ = ((init ++ [last]) ++ (rows.filter p).drop limit).filter (above key (key last)) := by
        rw [← hSplit]
    _ = (rows.filter p).drop limit := filter_above_of_split hSorted

/-- Reads page after page, at most `fuel` of them, up to the first short one. -/
def pages (key : α → κ) (rows : List α) (limit : Nat) : Nat → (α → Bool) → Option (List α)
  | 0, _ => none
  | fuel + 1, p =>
    if (page rows p limit).length < limit then some (page rows p limit)
    else
      match (page rows p limit).getLast? with
      | none => none
      | some last =>
        (pages key rows limit fuel (above key (key last))).map (page rows p limit ++ ·)

/-- With enough turns, the pages are the rows from the start, in order and once each. -/
theorem pages_eq {fuel : Nat} (hRows : KeyedBy key rows) (hp : UpwardClosed key p)
    (hLimit : 0 < limit) (hFuel : (rows.filter p).length < fuel) :
    pages key rows limit fuel p = some (rows.filter p) := by
  induction fuel generalizing p with
  | zero => omega
  | succ fuel ih =>
    rw [pages]
    by_cases hShort : (page rows p limit).length < limit
    · have hLength : (rows.filter p).length ≤ limit := by
        rw [page, List.length_take] at hShort
        omega
      rw [if_pos hShort, page, List.take_of_length_le hLength]
    · have hNonempty : page rows p limit ≠ [] := by
        intro hNil
        rw [hNil] at hShort
        exact hShort hLimit
      obtain ⟨init, last, hPage⟩ := (List.eq_nil_or_concat' _).resolve_left hNonempty
      have hAbove := filter_above_last hRows hp hPage
      have hLess : (rows.filter (above key (key last))).length < fuel := by
        rw [hAbove, List.length_drop]
        rw [page, List.length_take] at hShort
        omega
      rw [if_neg hShort, hPage, List.getLast?_concat]
      dsimp only
      rw [ih upwardClosed_above hLess, hAbove, ← hPage, Option.map_some, page,
        List.take_append_drop]

/-- Rows that are in range come before those that are not, so a scan that stops at the first
one out of range misses none, as long as the limit leaves room for all of them. -/
theorem takeWhile_take {q : α → Bool} {rows : List α} {limit : Nat}
    (h : rows.Pairwise fun a b => q b = true → q a = true)
    (hLimit : (rows.filter q).length ≤ limit) : (rows.take limit).takeWhile q = rows.filter q := by
  induction rows generalizing limit with
  | nil => simp
  | cons a rows ih =>
    obtain ⟨hHead, hTail⟩ := List.pairwise_cons.mp h
    by_cases ha : q a = true
    · rw [List.filter_cons_of_pos ha] at hLimit ⊢
      cases limit with
      | zero => simp at hLimit
      | succ limit =>
        rw [List.take_succ_cons, List.takeWhile_cons_of_pos ha,
          ih hTail (Nat.le_of_succ_le_succ hLimit)]
    · have hNone : rows.filter q = [] :=
        List.filter_eq_nil_iff.mpr fun b hb hq => ha (hHead b hb hq)
      rw [List.filter_cons_of_neg ha, hNone]
      cases limit with
      | zero => rfl
      | succ limit => rw [List.take_succ_cons, List.takeWhile_cons_of_neg ha]

/-! ## Cursors

A page looks one row ahead, and hands out the place of its last row when there is more. The
cursor has a type of its own with a place in the key order, so that the same rows can be
listed downwards.
-/

variable {β γ ε : Type} {place : γ → κ} {cursorOf : α → γ} {read : α → Except ε β}

def beyond (place : γ → κ) (cursorOf : α → γ) : Option γ → α → Bool
  | none, _ => true
  | some c, a => above (place ∘ cursorOf) (place c) a

theorem upwardClosed_beyond {cursor : Option γ} :
    UpwardClosed (place ∘ cursorOf) (beyond place cursorOf cursor) := by
  cases cursor with
  | none =>
    intro _ _ _ _
    rfl
  | some c => exact upwardClosed_above

/-- At most `limit` rows, read one by one, with the cursor of the last one if rows remain. -/
def lookAhead (cursorOf : α → γ) (rows : List α) (limit : Nat) (read : α → Except ε β)
    (p : α → Bool) : Except ε (List β × Option γ) := do
  let out ← (page rows p limit).mapM read
  return (out,
    if limit < (rows.filter p).length then (page rows p limit).getLast?.map cursorOf else none)

/-- Asks for the next page at each cursor handed out, at most `fuel` times. -/
def follow (next : Option γ → Except ε (List β × Option γ)) :
    Nat → Option γ → Option (Except ε (List β))
  | 0, _ => none
  | fuel + 1, cursor =>
    match next cursor with
    | .error e => some (.error e)
    | .ok (out, none) => some (.ok out)
    | .ok (out, some c) => (follow next fuel (some c)).map fun rest => rest.map (out ++ ·)

/-- The pages, one after the other, are the rows beyond the cursor, each read once and in
order, up to the first that cannot be read. -/
theorem follow_eq {next : Option γ → Except ε (List β × Option γ)} {fuel : Nat}
    {cursor : Option γ} (hRows : KeyedBy (place ∘ cursorOf) rows) (hLimit : 0 < limit)
    (hNext : ∀ c, next c = lookAhead cursorOf rows limit read (beyond place cursorOf c))
    (hFuel : (rows.filter (beyond place cursorOf cursor)).length < fuel) :
    follow next fuel cursor = some ((rows.filter (beyond place cursorOf cursor)).mapM read) := by
  induction fuel generalizing cursor with
  | zero => omega
  | succ fuel ih =>
    have hSplit := List.take_append_drop limit (rows.filter (beyond place cursorOf cursor))
    have hMapM : (rows.filter (beyond place cursorOf cursor)).mapM read = (do
        let out ← (page rows (beyond place cursorOf cursor) limit).mapM read
        let rest ← ((rows.filter (beyond place cursorOf cursor)).drop limit).mapM read
        return out ++ rest) := by
      rw [← List.mapM_append, page, hSplit]
    rw [follow, hNext, hMapM, lookAhead]
    cases (page rows (beyond place cursorOf cursor) limit).mapM read with
    | error e => rfl
    | ok out =>
      simp only [bind, Except.bind, pure, Except.pure]
      by_cases hMore : limit < (rows.filter (beyond place cursorOf cursor)).length
      · have hNonempty : page rows (beyond place cursorOf cursor) limit ≠ [] := by
          intro hNil
          have hLength := congrArg List.length hNil
          rw [page, List.length_take, List.length_nil] at hLength
          omega
        obtain ⟨init, last, hPage⟩ := (List.eq_nil_or_concat' _).resolve_left hNonempty
        have hAbove : rows.filter (beyond place cursorOf (some (cursorOf last))) =
            (rows.filter (beyond place cursorOf cursor)).drop limit :=
          filter_above_last hRows upwardClosed_beyond hPage
        have hLess : (rows.filter (beyond place cursorOf (some (cursorOf last)))).length
            < fuel := by
          rw [hAbove, List.length_drop]
          omega
        rw [if_pos hMore, hPage, List.getLast?_concat, Option.map_some]
        dsimp only
        rw [ih hLess, hAbove]
        cases ((rows.filter (beyond place cursorOf cursor)).drop limit).mapM read with
        | error e => rfl
        | ok rest => rfl
      · have hNil : (rows.filter (beyond place cursorOf cursor)).drop limit = [] :=
          List.drop_eq_nil_of_le (by omega)
        rw [if_neg hMore, hNil, List.mapM_nil]
        simp only [pure, Except.pure, List.append_nil]

theorem follow_all {next : Option γ → Except ε (List β × Option γ)} {fuel : Nat}
    (hRows : KeyedBy (place ∘ cursorOf) rows) (hLimit : 0 < limit)
    (hNext : ∀ c, next c = lookAhead cursorOf rows limit read (beyond place cursorOf c))
    (hFuel : rows.length < fuel) : follow next fuel none = some (rows.mapM read) := by
  have hAll : rows.filter (beyond place cursorOf none) = rows :=
    List.filter_eq_self.mpr fun _ _ => rfl
  have hFollow := follow_eq hRows hLimit hNext (hAll.symm ▸ hFuel)
  rwa [hAll] at hFollow

end Ezpds.Library
