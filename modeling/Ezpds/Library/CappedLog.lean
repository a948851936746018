import Mathlib.Data.List.Basic
import Mathlib.Order.Lattice
import Mathlib.Tactic.Common

/-!
# Logs with a cap

A log has its newest entry in front and keeps a number of entries. A new entry is put in front, or
replaces the newest. The entries are numbered in the order in which they were made, and one is
kept until as many newer ones exist as the log holds, unless it is replaced.

* `Numbered.place`: the numbers of the entries descend.
* `Kept.place`: what is kept stays kept, but for an entry that is replaced.
* `not_kept_of_replaced`: an entry that is replaced is not.
-/

namespace Ezpds.Library

variable {α β : Type*} {cap n i : Nat} {replaces : Bool} {log : List Nat}

/-- The log after a new entry. -/
def place (cap : Nat) (replaces : Bool) (entry : α) (log : List α) : List α :=
  if replaces then entry :: log.tail else (entry :: log).take cap

theorem map_place (f : α → β) (entry : α) (log : List α) :
    (place cap replaces entry log).map f = place cap replaces (f entry) (log.map f) := by
  unfold place
  split
  · rw [List.map_cons, List.map_tail]
  · rw [List.map_take, List.map_cons]

/-- The numbers of entries, of which there have been `n`. -/
structure Numbered (n : Nat) (log : List Nat) : Prop where
  descending : log.Pairwise (· > ·)
  past : ∀ i ∈ log, i < n

/-- The entry is there, or as many newer ones are as the log holds. -/
def Kept (cap : Nat) (log : List Nat) (i : Nat) : Prop :=
  i ∈ log ∨ cap ≤ (log.filter (i < ·)).length

theorem Numbered.cons (h : Numbered n log) : Numbered (n + 1) (n :: log) where
  descending := List.pairwise_cons.mpr ⟨h.past, h.descending⟩
  past := List.forall_mem_cons.mpr ⟨Nat.lt_succ_self n, fun i hi => (h.past i hi).trans
    (Nat.lt_succ_self n)⟩

theorem Numbered.sublist {rest : List Nat} (h : Numbered n log) (hRest : rest.Sublist log) :
    Numbered n rest where
  descending := h.descending.sublist hRest
  past i hi := h.past i (hRest.subset hi)

theorem Numbered.place (h : Numbered n log) : Numbered (n + 1) (place cap replaces n log) := by
  unfold Library.place
  split
  · exact h.cons.sublist ((List.tail_sublist log).cons_cons n)
  · exact h.cons.sublist (List.take_sublist _ _)

/-- The entries past the cap are older than those before it. -/
theorem Kept.take (h : Kept cap log i) (hLog : log.Pairwise (· > ·)) :
    Kept cap (log.take cap) i := by
  by_cases hMem : i ∈ log.take cap
  · exact .inl hMem
  right
  have hOrder : ∀ a ∈ log.take cap, ∀ b ∈ log.drop cap, b < a := by
    rw [← List.take_append_drop cap log] at hLog
    exact (List.pairwise_append.mp hLog).2.2
  have hNewer : cap ≤ log.length ∧ ∀ a ∈ log.take cap, i < a := by
    rcases h with hIn | hMany
    · rw [← List.take_append_drop cap log] at hIn
      have hDropped := (List.mem_append.mp hIn).resolve_left hMem
      refine ⟨?_, fun a ha => hOrder a ha i hDropped⟩
      by_contra hShort
      rw [List.drop_eq_nil_of_le (Nat.le_of_lt (Nat.lt_of_not_le hShort))] at hDropped
      cases hDropped
    · refine ⟨hMany.trans (List.length_filter_le _ _), fun a ha => ?_⟩
      by_contra hOld
      -- the newer entries would all be before the cap, and `a` is not one of them
      have hDrop : (log.drop cap).filter (i < ·) = [] := by
        rw [List.filter_eq_nil_iff]
        intro b hb
        have hLt := hOrder a ha b hb
        simp only [decide_eq_true_eq]
        omega
      have hTake : ((log.take cap).filter (i < ·)).length < (log.take cap).length :=
        List.length_filter_lt_length_iff_exists.mpr ⟨a, ha, by simpa using hOld⟩
      have hLength := List.length_take_le cap log
      rw [← List.take_append_drop cap log, List.filter_append, hDrop, List.append_nil] at hMany
      omega
  rw [List.filter_eq_self.mpr fun a ha => by simpa using hNewer.2 a ha, List.length_take]
  omega

theorem kept_place_self (hCap : 0 < cap) : Kept cap (place cap replaces n log) n := by
  left
  unfold place
  split
  · exact List.mem_cons_self
  · obtain ⟨k, rfl⟩ := Nat.exists_eq_succ_of_ne_zero hCap.ne'
    rw [List.take_succ_cons]
    exact List.mem_cons_self

/-- What is kept stays kept, unless it is the newest entry and is replaced. -/
theorem Kept.place (h : Kept cap log i) (hLog : Numbered n log) (hi : i < n)
    (hNewest : replaces = true → log.head? ≠ some i) : Kept cap (place cap replaces n log) i := by
  unfold Library.place
  split
  · rename_i hReplaces
    cases log with
    | nil => exact h.imp (fun hMem => absurd hMem (by simp)) fun hMany => hMany.trans (by simp)
    | cons newest rest =>
      rcases h with hMem | hMany
      · left
        rcases List.mem_cons.mp hMem with rfl | hRest
        · exact absurd rfl (hNewest hReplaces)
        · exact List.mem_cons_of_mem _ hRest
      · right
        rw [List.tail_cons, List.filter_cons_of_pos (by simpa using hi), List.length_cons]
        rw [List.filter_cons] at hMany
        split at hMany
        · exact hMany
        · omega
  · have hMore : Kept cap (n :: log) i := by
      refine h.imp (List.mem_cons_of_mem n) fun hMany => ?_
      rw [List.filter_cons_of_pos (by simpa using hi), List.length_cons]
      omega
    exact hMore.take hLog.cons.descending

theorem not_kept_of_replaced (hCap : 1 < cap) (h : Numbered n (i :: log)) :
    ¬ Kept cap (place cap true n (i :: log)) i := by
  obtain ⟨hOlder, _⟩ := List.pairwise_cons.mp h.descending
  have hi := h.past i List.mem_cons_self
  unfold place
  rw [if_pos rfl, List.tail_cons]
  rintro (hMem | hMany)
  · rcases List.mem_cons.mp hMem with rfl | hRest
    · exact absurd hi (lt_irrefl _)
    · exact absurd (hOlder i hRest) (lt_irrefl _)
  · have hNone : log.filter (i < ·) = [] := by
      rw [List.filter_eq_nil_iff]
      intro j hj
      have hLt := hOlder j hj
      simp only [decide_eq_true_eq]
      omega
    rw [List.filter_cons_of_pos (by simpa using hi), hNone] at hMany
    exact absurd hCap (by simpa using hMany)

end Ezpds.Library
