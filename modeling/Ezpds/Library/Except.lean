import Mathlib.Tactic.Common

/-!
# Peeling fallible computations apart

A successful `Except` computation is a chain of successful steps. The lemmas here turn
a success into the success of each step.
-/

namespace Ezpds.Library

variable {ε ε' α β : Type}

theorem bind_ok {x : Except ε α} {f : α → Except ε β} {b : β} :
    x >>= f = .ok b ↔ ∃ a, x = .ok a ∧ f a = .ok b := by
  cases x with
  | error e =>
    constructor
    · intro h
      cases h
    · rintro ⟨_, h, _⟩
      cases h
  | ok a =>
    constructor
    · intro h
      exact ⟨a, rfl, h⟩
    · rintro ⟨_, ha, h⟩
      cases ha
      exact h

theorem bind_isOk {x : Except ε α} {f : α → Except ε β} {a : α} (hx : x = .ok a)
    (h : (f a).isOk = true) : (x >>= f).isOk = true := by
  rw [hx]
  exact h

theorem bind_error {x : Except ε α} {f : α → Except ε β} {e : ε} :
    x >>= f = .error e ↔ x = .error e ∨ ∃ a, x = .ok a ∧ f a = .error e := by
  cases x with
  | error e' => simp [bind, Except.bind]
  | ok a => simp [bind, Except.bind]

theorem pure_ok {a b : α} : (pure a : Except ε α) = .ok b ↔ b = a := by
  constructor
  · intro h
    cases h
    rfl
  · rintro rfl
    rfl

theorem bind_pure_error {x : Except ε α} {f : α → β} :
    (∃ e, (x >>= fun a => pure (f a)) = .error e) ↔ ∃ e, x = .error e := by
  cases x with
  | error e => simp [bind, Except.bind]
  | ok a => simp [bind, Except.bind, pure, Except.pure]

def check (condition : Bool) (error : ε) : Except ε Unit :=
  if condition then .ok () else .error error

theorem check_ok {condition : Bool} {error : ε} :
    check condition error = .ok () ↔ condition = true := by
  by_cases h : condition = true
  · simp [check, h]
  · simp [check, h]

/-- `Option::ok_or`. -/
def okOr (error : ε) (found : Option α) : Except ε α :=
  found.elim (.error error) .ok

theorem okOr_ok {error : ε} {found : Option α} {a : α} :
    okOr error found = .ok a ↔ found = some a := by
  cases found <;> simp [okOr]

theorem mapError_ok {f : ε → ε'} {x : Except ε α} {a : α} :
    x.mapError f = .ok a ↔ x = .ok a := by
  cases x <;> simp [Except.mapError]

theorem map_ok {f : α → β} {x : Except ε α} {b : β} :
    x.map f = .ok b ↔ ∃ a, x = .ok a ∧ f a = b := by
  cases x with
  | error e => simp [Except.map]
  | ok a => simp [Except.map]

theorem exists_ok_of_isOk {x : Except ε α} (h : x.isOk = true) : ∃ a, x = .ok a := by
  cases x with
  | error e => cases h
  | ok a => exact ⟨a, rfl⟩

theorem mapM_cons_ok {f : α → Except ε β} {a : α} {l : List α} {l' : List β} :
    (a :: l).mapM f = .ok l' ↔ ∃ b bs, f a = .ok b ∧ l.mapM f = .ok bs ∧ l' = b :: bs := by
  rw [List.mapM_cons, bind_ok]
  constructor
  · rintro ⟨b, hb, h⟩
    obtain ⟨bs, hbs, h⟩ := bind_ok.mp h
    cases h
    exact ⟨b, bs, hb, hbs, rfl⟩
  · rintro ⟨b, bs, hb, hbs, rfl⟩
    exact ⟨b, hb, bind_ok.mpr ⟨bs, hbs, rfl⟩⟩

/-- An element-wise computation succeeds exactly when it succeeds at every element. -/
theorem mapM_ok {f : α → Except ε β} {l : List α} {l' : List β} :
    l.mapM f = .ok l' ↔ List.Forall₂ (fun a b => f a = .ok b) l l' := by
  induction l generalizing l' with
  | nil =>
    rw [List.mapM_nil]
    constructor
    · intro h
      cases h
      exact .nil
    · intro h
      cases h
      rfl
  | cons a l ih =>
    rw [mapM_cons_ok]
    constructor
    · rintro ⟨b, bs, hb, hbs, rfl⟩
      exact .cons hb (ih.mp hbs)
    · intro h
      cases h with
      | cons hb hbs => exact ⟨_, _, hb, ih.mpr hbs, rfl⟩

theorem ok_of_mapM_ok {f : α → Except ε β} {l : List α} {l' : List β}
    (h : l.mapM f = .ok l') {a : α} (ha : a ∈ l) : ∃ b, f a = .ok b := by
  induction l generalizing l' with
  | nil => cases ha
  | cons c l ih =>
    obtain ⟨b, bs, hb, hbs, _⟩ := mapM_cons_ok.mp h
    rcases List.mem_cons.mp ha with rfl | ha
    · exact ⟨b, hb⟩
    · exact ih hbs ha

theorem mem_of_mapM_ok {f : α → Except ε β} {l : List α} {l' : List β}
    (h : l.mapM f = .ok l') {b : β} : b ∈ l' ↔ ∃ a ∈ l, f a = .ok b := by
  induction l generalizing l' with
  | nil =>
    cases h
    simp
  | cons a l ih =>
    obtain ⟨b', bs, hb, hbs, rfl⟩ := mapM_cons_ok.mp h
    rw [List.mem_cons, ih hbs]
    simp [hb, eq_comm]

theorem exists_mapM_ok {f : α → Except ε β} {l : List α} (h : ∀ a ∈ l, ∃ b, f a = .ok b) :
    ∃ l', l.mapM f = .ok l' := by
  induction l with
  | nil => exact ⟨[], rfl⟩
  | cons a l ih =>
    obtain ⟨b, hb⟩ := h a List.mem_cons_self
    obtain ⟨bs, hbs⟩ := ih fun c hc => h c (List.mem_cons_of_mem _ hc)
    exact ⟨b :: bs, mapM_cons_ok.mpr ⟨b, bs, hb, hbs, rfl⟩⟩

theorem forM_ok {f : α → Except ε Unit} {l : List α} :
    l.forM f = .ok () ↔ ∀ a ∈ l, f a = .ok () := by
  induction l with
  | nil => exact ⟨fun _ _ h => absurd h List.not_mem_nil, fun _ => rfl⟩
  | cons a l ih =>
    show (f a >>= fun _ => l.forM f) = .ok () ↔ _
    rw [bind_ok, List.forall_mem_cons]
    constructor
    · rintro ⟨⟨⟩, ha, hl⟩
      exact ⟨ha, ih.mp hl⟩
    · rintro ⟨ha, hl⟩
      exact ⟨(), ha, ih.mpr hl⟩

/-- What every result keeps of its argument, the list of results keeps. -/
theorem map_of_mapM_ok {γ : Type} {f : α → Except ε β} {g : β → γ} {g' : α → γ}
    (hf : ∀ a b, f a = .ok b → g b = g' a) {l : List α} {l' : List β}
    (h : l.mapM f = .ok l') : l'.map g = l.map g' := by
  induction l generalizing l' with
  | nil =>
    cases h
    rfl
  | cons a l ih =>
    obtain ⟨b, bs, hb, hbs, rfl⟩ := mapM_cons_ok.mp h
    rw [List.map_cons, List.map_cons, hf a b hb, ih hbs]

/-- An element-wise computation fails exactly when it fails at some element. -/
theorem mapM_error {f : α → Except ε β} {l : List α} :
    (∃ e, l.mapM f = .error e) ↔ ∃ a ∈ l, ∃ e, f a = .error e := by
  induction l with
  | nil =>
    rw [List.mapM_nil]
    constructor
    · rintro ⟨_, h⟩
      cases h
    · rintro ⟨_, h, _⟩
      cases h
  | cons a l ih =>
    rw [List.mapM_cons]
    cases ha : f a with
    | error e =>
      constructor
      · intro _
        exact ⟨a, List.mem_cons_self, e, ha⟩
      · intro _
        exact ⟨e, rfl⟩
    | ok b =>
      cases hl : l.mapM f with
      | error e =>
        obtain ⟨x, hx, hFail⟩ := ih.mp ⟨e, hl⟩
        constructor
        · intro _
          exact ⟨x, List.mem_cons_of_mem _ hx, hFail⟩
        · intro _
          exact ⟨e, rfl⟩
      | ok bs =>
        constructor
        · rintro ⟨_, h⟩
          cases h
        · rintro ⟨x, hx, e, hFail⟩
          rcases List.mem_cons.mp hx with rfl | hx
          · rw [ha] at hFail
            cases hFail
          · obtain ⟨e', h'⟩ := ih.mpr ⟨x, hx, e, hFail⟩
            rw [hl] at h'
            cases h'

end Ezpds.Library
