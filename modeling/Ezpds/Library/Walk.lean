import Mathlib.Tactic.Common

/-!
# Walks with a stack

A walk takes the top of its stack and puts what lies below it in its place; a failed
lookup ends it. `walk` does not remember where it was, and lists what it takes. `walkSeen`
passes over what it has taken before. Both are `none` until they have ended.

* `walk_ok`: a walk ends well exactly when what lies below its stack is a finite tree.
* `walk_forall`: what holds of the stack and goes down holds of all that a walk takes.
* `walkSeen_closed`: a walk that remembers has looked up everything that can be reached.
-/

namespace Ezpds.Library

variable {α ε : Type}

/-- The list of what is taken, in its order. -/
def walk (below : α → Except ε (List α)) : Nat → List α → Option (Except ε (List α))
  | _, [] => some (.ok [])
  | 0, _ :: _ => none
  | fuel + 1, a :: stack =>
    match below a with
    | .error e => some (.error e)
    | .ok next => (walk below fuel (next ++ stack)).map (Except.map (a :: ·))

/-- The stack is popped where it is pushed, so the last of what lies below comes first. -/
def walkSeen [DecidableEq α] (below : α → Except ε (List α)) :
    Nat → List α → List α → Option (Except ε Unit)
  | _, _, [] => some (.ok ())
  | 0, _, _ :: _ => none
  | fuel + 1, seen, a :: stack =>
    if a ∈ seen then walkSeen below fuel seen stack
    else
      match below a with
      | .error e => some (.error e)
      | .ok next => walkSeen below fuel (a :: seen) (next.reverse ++ stack)

/-- What lies below `a` is a finite tree, all of which can be looked up. -/
inductive Unfolds (below : α → Except ε (List α)) : α → Prop
  | intro {a : α} {next : List α} (hNext : below a = .ok next)
      (hUnfolds : ∀ b ∈ next, Unfolds below b) : Unfolds below a

variable {below : α → Except ε (List α)} {fuel : Nat} {stack taken : List α}

theorem walk_cons_ok {a : α} :
    walk below (fuel + 1) (a :: stack) = some (.ok taken) ↔
      ∃ next rest, below a = .ok next ∧ walk below fuel (next ++ stack) = some (.ok rest) ∧
        taken = a :: rest := by
  rw [walk]
  cases hBelow : below a with
  | error e => simp
  | ok next =>
    cases hWalk : walk below fuel (next ++ stack) with
    | none => simp [hWalk]
    | some result =>
      cases result with
      | error e => simp [hWalk, Except.map]
      | ok rest => simp [hWalk, Except.map, eq_comm]

theorem walk_unfolds (h : walk below fuel stack = some (.ok taken)) :
    ∀ a ∈ stack, Unfolds below a := by
  induction fuel generalizing stack taken with
  | zero =>
    cases stack with
    | nil => simp
    | cons a stack => cases h
  | succ fuel ih =>
    cases stack with
    | nil => simp
    | cons a stack =>
      obtain ⟨next, rest, hNext, hWalk, _⟩ := walk_cons_ok.mp h
      have hRest := ih hWalk
      intro b hb
      rcases List.mem_cons.mp hb with rfl | hb
      · exact .intro hNext fun c hc => hRest c (List.mem_append_left _ hc)
      · exact hRest b (List.mem_append_right _ hb)

/-- A tree is walked before the rest of the stack. -/
theorem Unfolds.walk_cons {a : α} (h : Unfolds below a)
    (hStack : ∃ fuel taken, walk below fuel stack = some (.ok taken)) :
    ∃ fuel taken, walk below fuel (a :: stack) = some (.ok taken) := by
  induction h generalizing stack with
  | @intro a next hNext _ ih =>
    have hAll : ∀ children : List α, (∀ b ∈ children, b ∈ next) →
        ∃ fuel taken, walk below fuel (children ++ stack) = some (.ok taken) := by
      intro children hChildren
      induction children with
      | nil => exact hStack
      | cons b children ihChildren =>
        exact ih b (hChildren b List.mem_cons_self)
          (ihChildren fun c hc => hChildren c (List.mem_cons_of_mem _ hc))
    obtain ⟨fuel, taken, hWalk⟩ := hAll next fun _ hb => hb
    exact ⟨fuel + 1, a :: taken, walk_cons_ok.mpr ⟨next, taken, hNext, hWalk, rfl⟩⟩

theorem walk_ok :
    (∃ fuel taken, walk below fuel stack = some (.ok taken)) ↔ ∀ a ∈ stack, Unfolds below a := by
  constructor
  · rintro ⟨fuel, taken, h⟩
    exact walk_unfolds h
  · intro h
    induction stack with
    | nil => exact ⟨0, [], rfl⟩
    | cons a stack ih =>
      exact (h a List.mem_cons_self).walk_cons (ih fun b hb => h b (List.mem_cons_of_mem _ hb))

theorem walk_forall {P : α → Prop}
    (hDown : ∀ a next, P a → below a = .ok next → ∀ b ∈ next, P b)
    (h : walk below fuel stack = some (.ok taken)) (hStack : ∀ a ∈ stack, P a) :
    ∀ a ∈ taken, P a ∧ ∃ next, below a = .ok next := by
  induction fuel generalizing stack taken with
  | zero =>
    cases stack with
    | nil =>
      cases h
      simp
    | cons a stack => cases h
  | succ fuel ih =>
    cases stack with
    | nil =>
      cases h
      simp
    | cons a stack =>
      obtain ⟨next, rest, hNext, hWalk, rfl⟩ := walk_cons_ok.mp h
      obtain ⟨hTop, hOthers⟩ := List.forall_mem_cons.mp hStack
      intro b hb
      rcases List.mem_cons.mp hb with rfl | hb
      · exact ⟨hTop, next, hNext⟩
      · refine ih hWalk ?_ b hb
        intro c hc
        rcases List.mem_append.mp hc with hc | hc
        · exact hDown a next hTop hNext c hc
        · exact hOthers c hc

/-- A tree that unfolds keeps doing so where everything below a property is looked up alike. -/
theorem Unfolds.mono {β ε' : Type} {below' : β → Except ε' (List β)} {P : α → Prop} {f : α → β}
    (hNext : ∀ a next, P a → below a = .ok next →
      (∀ b ∈ next, P b) ∧ below' (f a) = .ok (next.map f))
    {a : α} (h : Unfolds below a) (ha : P a) : Unfolds below' (f a) := by
  induction h with
  | @intro a next hBelow _ ih =>
    obtain ⟨hDown, hMap⟩ := hNext a next ha hBelow
    refine .intro hMap ?_
    intro b hb
    obtain ⟨c, hc, rfl⟩ := List.mem_map.mp hb
    exact ih c hc (hDown c hc)

/-- What a walk that remembers ends with: everything taken is in a set that is closed under
what lies below. -/
theorem walkSeen_closed [DecidableEq α] {seen : List α}
    (h : walkSeen below fuel seen stack = some (.ok ()))
    (hSeen : ∀ a ∈ seen, ∃ next, below a = .ok next ∧ ∀ b ∈ next, b ∈ seen ∨ b ∈ stack) :
    ∃ all : List α, (∀ a ∈ stack, a ∈ all) ∧ (∀ a ∈ seen, a ∈ all) ∧
      ∀ a ∈ all, ∃ next, below a = .ok next ∧ ∀ b ∈ next, b ∈ all := by
  induction fuel generalizing seen stack with
  | zero =>
    cases stack with
    | nil =>
      refine ⟨seen, by simp, fun _ ha => ha, ?_⟩
      simpa using hSeen
    | cons a stack => cases h
  | succ fuel ih =>
    cases stack with
    | nil =>
      refine ⟨seen, by simp, fun _ ha => ha, ?_⟩
      simpa using hSeen
    | cons a stack =>
      rw [walkSeen] at h
      split at h
      · rename_i hMem
        obtain ⟨all, hStack, hAll, hClosed⟩ := ih h (by
          intro b hb
          obtain ⟨next, hNext, hBelow⟩ := hSeen b hb
          refine ⟨next, hNext, ?_⟩
          intro c hc
          rcases hBelow c hc with hc | hc
          · exact Or.inl hc
          · rcases List.mem_cons.mp hc with rfl | hc
            · exact Or.inl hMem
            · exact Or.inr hc)
        exact ⟨all, List.forall_mem_cons.mpr ⟨hAll a hMem, hStack⟩, hAll, hClosed⟩
      · cases hBelow : below a with
        | error e =>
          rw [hBelow] at h
          cases h
        | ok next =>
          rw [hBelow] at h
          obtain ⟨all, hStack, hAll, hClosed⟩ := ih h (by
            intro b hb
            rcases List.mem_cons.mp hb with rfl | hb
            · refine ⟨next, hBelow, ?_⟩
              intro c hc
              exact Or.inr (List.mem_append_left _ (List.mem_reverse.mpr hc))
            · obtain ⟨next', hNext, hBelow'⟩ := hSeen b hb
              refine ⟨next', hNext, ?_⟩
              intro c hc
              rcases hBelow' c hc with hc | hc
              · exact Or.inl (List.mem_cons_of_mem _ hc)
              · rcases List.mem_cons.mp hc with rfl | hc
                · exact Or.inl List.mem_cons_self
                · exact Or.inr (List.mem_append_right _ hc))
          obtain ⟨haAll, hSeenAll⟩ := List.forall_mem_cons.mp hAll
          refine ⟨all, List.forall_mem_cons.mpr ⟨haAll, ?_⟩, hSeenAll, hClosed⟩
          intro b hb
          exact hStack b (List.mem_append_right _ hb)

end Ezpds.Library
