import Mathlib.Data.List.Basic
import Mathlib.Tactic.Common

/-!
# Runs of a labelled machine

A machine is a function `step : σ → α → Option σ`: the label `a` decides everything
that is not determined by the state, and `step s a = none` says that `a` is not
enabled in `s`. `run` folds a list of labels, and `Along G` says that every step of a
run is taken from a state in which it satisfies `G`.

* `run_invariant`: what one step preserves, a whole run preserves.
* `run_total`: a machine that is never stuck under an invariant finishes every run.
* `run_invariant_along`: the same for steps that satisfy a guard, over runs along it.
* `Along.of_invariant`: what an invariant and a guard give at each of those steps.
* `run_observed`: what every step does to a part of the state, the observations of a run do.
* `run_invariant_observed`: an invariant of the state and of what has been observed so far.
* `reached_iff_kept`, `reached_iff_along`: when a step keeps a property exactly when it satisfies
  the guard, the property holds of every state that a run reaches exactly when every step
  satisfies the guard.
* `run_guarded_iff`: when a property of the end of a run is decided one step at a time,
  it holds of the run exactly when every step satisfies the guard.
-/

namespace Ezpds.Library

variable {σ α β γ : Type*}

/-- The state after the labels `as`, taken in order from `s`. -/
def run (step : σ → α → Option σ) : σ → List α → Option σ
  | s, [] => some s
  | s, a :: as => (step s a).bind fun t => run step t as

/-- Every step of the run from `s` satisfies `G` in the state it is taken from. -/
def Along (step : σ → α → Option σ) (G : σ → α → Prop) : σ → List α → Prop
  | _, [] => True
  | s, a :: as => G s a ∧ ∀ t, step s a = some t → Along step G t as

/-- What is observed of the steps of a run, in order. -/
def observed (step : σ → α → Option σ) (obs : σ → α → List β) : σ → List α → List β
  | _, [] => []
  | s, a :: as => obs s a ++ (step s a).elim [] fun t => observed step obs t as

variable {step : σ → α → Option σ} {G : σ → α → Prop}

@[simp] theorem run_nil (s : σ) : run step s [] = some s := rfl

theorem run_cons_some {s u : σ} {a : α} {as : List α} :
    run step s (a :: as) = some u ↔ ∃ t, step s a = some t ∧ run step t as = some u := by
  simp [run, Option.bind_eq_some_iff]

theorem run_append_some {s u : σ} {as bs : List α} :
    run step s (as ++ bs) = some u ↔
      ∃ t, run step s as = some t ∧ run step t bs = some u := by
  induction as generalizing s with
  | nil => simp
  | cons a as ih =>
    simp only [List.cons_append, run_cons_some, ih]
    constructor
    · rintro ⟨v, hv, t, ht, hu⟩
      exact ⟨t, ⟨v, hv, ht⟩, hu⟩
    · rintro ⟨t, ⟨v, hv, ht⟩, hu⟩
      exact ⟨v, hv, t, ht, hu⟩

@[simp] theorem along_nil (s : σ) : Along step G s [] := trivial

theorem along_cons_of_step {s t : σ} {a : α} {as : List α} (h : step s a = some t) :
    Along step G s (a :: as) ↔ G s a ∧ Along step G t as := by
  simp only [Along]
  constructor
  · rintro ⟨hG, hrest⟩
    exact ⟨hG, hrest t h⟩
  · rintro ⟨hG, hrest⟩
    refine ⟨hG, ?_⟩
    intro t' ht'
    rw [h] at ht'
    cases ht'
    exact hrest

theorem along_append {s : σ} {as bs : List α} : Along step G s (as ++ bs) ↔
    Along step G s as ∧ ∀ t, run step s as = some t → Along step G t bs := by
  induction as generalizing s with
  | nil => simp
  | cons a as ih =>
    simp only [List.cons_append, Along, ih, run_cons_some]
    constructor
    · rintro ⟨hG, hRest⟩
      refine ⟨⟨hG, fun t ht => (hRest t ht).1⟩, ?_⟩
      rintro u ⟨t, ht, hu⟩
      exact (hRest t ht).2 u hu
    · rintro ⟨⟨hG, hFirst⟩, hRest⟩
      exact ⟨hG, fun t ht => ⟨hFirst t ht, fun u hu => hRest u ⟨t, ht, hu⟩⟩⟩

instance decidableAlong [∀ s a, Decidable (G s a)] :
    ∀ (s : σ) (as : List α), Decidable (Along step G s as)
  | _, [] => .isTrue trivial
  | s, a :: as =>
    match h : step s a with
    | none =>
      decidable_of_iff (G s a)
        ⟨fun hG => ⟨hG, fun t ht => (by rw [h] at ht; cases ht)⟩, fun hA => hA.1⟩
    | some t =>
      have := decidableAlong t as
      decidable_of_iff (G s a ∧ Along step G t as) (along_cons_of_step h).symm

theorem Along.mono {G' : σ → α → Prop} (hG : ∀ s a, G s a → G' s a) {s : σ} {as : List α}
    (h : Along step G s as) : Along step G' s as := by
  induction as generalizing s with
  | nil => trivial
  | cons a as ih => exact ⟨hG s a h.1, fun t ht => ih (h.2 t ht)⟩

theorem along_of_forall {P : α → Prop} {s : σ} {as : List α} (h : ∀ a ∈ as, P a) :
    Along step (fun _ a => P a) s as := by
  induction as generalizing s with
  | nil => trivial
  | cons a as ih =>
    exact ⟨h a List.mem_cons_self, fun t _ => ih fun b hb => h b (List.mem_cons_of_mem _ hb)⟩

theorem Along.and {G' : σ → α → Prop} {s : σ} {as : List α} (h : Along step G s as)
    (h' : Along step G' s as) : Along step (fun s a => G s a ∧ G' s a) s as := by
  induction as generalizing s with
  | nil => trivial
  | cons a as ih => exact ⟨⟨h.1, h'.1⟩, fun t ht => ih (h.2 t ht) (h'.2 t ht)⟩

/-- What every step preserves holds at the end of every run. -/
theorem run_invariant {I : σ → Prop}
    (hstep : ∀ s a t, I s → step s a = some t → I t)
    {s t : σ} {as : List α} (h0 : I s) (hrun : run step s as = some t) : I t := by
  induction as generalizing s with
  | nil =>
    cases hrun
    exact h0
  | cons a as ih =>
    obtain ⟨u, hu, hrest⟩ := run_cons_some.mp hrun
    exact ih (hstep s a u h0 hu) hrest

/-- A machine in which every label is enabled under an invariant finishes every run. -/
theorem run_total {I : σ → Prop} (hstep : ∀ s a, I s → ∃ t, step s a = some t ∧ I t)
    {s : σ} {as : List α} (h0 : I s) : ∃ t, run step s as = some t ∧ I t := by
  induction as generalizing s with
  | nil => exact ⟨s, rfl, h0⟩
  | cons a as ih =>
    obtain ⟨u, hu, hI⟩ := hstep s a h0
    obtain ⟨t, ht, hIt⟩ := ih hI
    exact ⟨t, run_cons_some.mpr ⟨u, hu, ht⟩, hIt⟩

/-- What every step within the guard preserves holds at the end of every run along it. -/
theorem run_invariant_along {I : σ → Prop}
    (hstep : ∀ s a t, I s → G s a → step s a = some t → I t)
    {s t : σ} {as : List α} (h0 : I s) (hG : Along step G s as)
    (hrun : run step s as = some t) : I t := by
  induction as generalizing s with
  | nil =>
    cases hrun
    exact h0
  | cons a as ih =>
    obtain ⟨u, hu, hrest⟩ := run_cons_some.mp hrun
    exact ih (hstep s a u h0 hG.1 hu) (hG.2 u hu) hrest

/-- What the invariant and the guard give at each step of a run, the run has all along. -/
theorem Along.of_invariant {I : σ → Prop} {P : σ → α → Prop}
    (hstep : ∀ s a t, I s → G s a → step s a = some t → I t)
    (hP : ∀ s a, I s → G s a → P s a) {s : σ} {as : List α} (h0 : I s)
    (hG : Along step G s as) : Along step P s as := by
  induction as generalizing s with
  | nil => trivial
  | cons a as ih =>
    exact ⟨hP s a h0 hG.1, fun t ht => ih (hstep s a t h0 hG.1 ht) (hG.2 t ht)⟩

/-- When every step folds what is observed of it into a part of the state, the run folds
all of its observations into that part. -/
theorem run_observed {I : σ → Prop} {obs : σ → α → List β} {view : σ → γ} {f : γ → β → γ}
    (hstep : ∀ s a t, I s → G s a → step s a = some t →
      I t ∧ view t = (obs s a).foldl f (view s))
    {s t : σ} {as : List α} (h0 : I s) (hG : Along step G s as)
    (hrun : run step s as = some t) :
    view t = (observed step obs s as).foldl f (view s) := by
  induction as generalizing s with
  | nil =>
    cases hrun
    rfl
  | cons a as ih =>
    obtain ⟨u, hu, hrest⟩ := run_cons_some.mp hrun
    obtain ⟨hIu, hView⟩ := hstep s a u h0 hG.1 hu
    rw [observed, hu, Option.elim_some, List.foldl_append, ← hView]
    exact ih hIu (hG.2 u hu) hrest

/-- What every step preserves of the state and of what has been observed holds at the end. -/
theorem run_invariant_observed {I : σ → List β → Prop} {obs : σ → α → List β}
    (hstep : ∀ s a t seen, I s seen → G s a → step s a = some t → I t (seen ++ obs s a))
    {s t : σ} {as : List α} {seen : List β} (h0 : I s seen) (hG : Along step G s as)
    (hrun : run step s as = some t) : I t (seen ++ observed step obs s as) := by
  induction as generalizing s seen with
  | nil =>
    cases hrun
    rw [observed, List.append_nil]
    exact h0
  | cons a as ih =>
    obtain ⟨u, hu, hrest⟩ := run_cons_some.mp hrun
    rw [observed, hu, Option.elim_some, ← List.append_assoc]
    exact ih (hstep s a u seen h0 hG.1 hu) (hG.2 u hu) hrest

/-- An invariant that the steps within the guard keep and that gives the property, where a step
that leaves the property standing is within the guard: the property holds of every state that a
run reaches exactly when every step satisfies the guard. -/
theorem reached_iff_kept {I P : σ → Prop} (hP : ∀ s, I s → P s)
    (hI : ∀ s a t, I s → G s a → step s a = some t → I t)
    (hGuard : ∀ s a t, I s → step s a = some t → P t → G s a)
    {s t : σ} {as : List α} (h0 : I s) (hrun : run step s as = some t) :
    (∀ done rest u, as = done ++ rest → run step s done = some u → P u) ↔ Along step G s as := by
  induction as generalizing s with
  | nil =>
    refine iff_of_true ?_ trivial
    intro done rest u hNil hDone
    rw [(List.append_eq_nil_iff.mp hNil.symm).1] at hDone
    cases hDone
    exact hP s h0
  | cons a as ih =>
    obtain ⟨u, hu, hrest⟩ := run_cons_some.mp hrun
    rw [along_cons_of_step hu]
    constructor
    · intro hAll
      have hG := hGuard s a u h0 hu (hAll [a] as u rfl (run_cons_some.mpr ⟨u, hu, rfl⟩))
      refine ⟨hG, (ih (hI s a u h0 hG hu) hrest).mp ?_⟩
      rintro done rest v rfl hDone
      exact hAll (a :: done) rest v rfl (run_cons_some.mpr ⟨u, hu, hDone⟩)
    · rintro ⟨hG, hAlong⟩
      intro done rest v hSplit hDone
      cases done with
      | nil =>
        cases hDone
        exact hP s h0
      | cons b done =>
        obtain ⟨rfl, hTail⟩ := List.cons.inj hSplit
        obtain ⟨w, hw, hDone⟩ := run_cons_some.mp hDone
        rw [hu] at hw
        cases hw
        exact (ih (hI s a u h0 hG hu) hrest).mpr hAlong done rest v hTail hDone

/-- A property that a step keeps exactly when it satisfies the guard holds of every state that a
run reaches exactly when every step of the run satisfies the guard. -/
theorem reached_iff_along {I P : σ → Prop} (hI : ∀ s a t, I s → step s a = some t → I t)
    (hkeep : ∀ s a t, I s → P s → step s a = some t → (P t ↔ G s a))
    {s t : σ} {as : List α} (h0 : I s) (hP : P s) (hrun : run step s as = some t) :
    (∀ done rest u, as = done ++ rest → run step s done = some u → P u) ↔ Along step G s as := by
  have hBoth : ∀ s a t, I s ∧ P s → G s a → step s a = some t → I t ∧ P t := by
    intro s a t h hG ht
    exact ⟨hI s a t h.1 ht, (hkeep s a t h.1 h.2 ht).mpr hG⟩
  have hGuard : ∀ s a t, I s ∧ P s → step s a = some t → P t → G s a := by
    intro s a t h ht
    exact (hkeep s a t h.1 h.2 ht).mp
  exact reached_iff_kept (fun _ h => h.2) hBoth hGuard ⟨h0, hP⟩ hrun

/-- A property that no step can restore once it is lost, and that a step keeps exactly
when it satisfies the guard, holds at the end of a run exactly when every step of the
run satisfies the guard. -/
theorem run_guarded_iff {I P : σ → Prop}
    (hI : ∀ s a t, I s → step s a = some t → I t)
    (hlost : ∀ s a t, step s a = some t → P t → P s)
    (hkeep : ∀ s a t, I s → P s → step s a = some t → (P t ↔ G s a))
    {s t : σ} {as : List α} (h0 : I s) (hP : P s) (hrun : run step s as = some t) :
    P t ↔ Along step G s as := by
  have hback : ∀ {as : List α} {s : σ}, run step s as = some t → P t → P s := by
    intro as
    induction as with
    | nil =>
      intro s h ht
      cases h
      exact ht
    | cons a as ih =>
      intro s h ht
      obtain ⟨u, hu, hrest⟩ := run_cons_some.mp h
      exact hlost s a u hu (ih hrest ht)
  induction as generalizing s with
  | nil =>
    cases hrun
    simp [hP]
  | cons a as ih =>
    obtain ⟨u, hu, hrest⟩ := run_cons_some.mp hrun
    rw [along_cons_of_step hu]
    constructor
    · intro ht
      have hPu := hback hrest ht
      exact ⟨(hkeep s a u h0 hP hu).mp hPu, (ih (hI s a u h0 hu) hPu hrest).mp ht⟩
    · rintro ⟨hG, hA⟩
      have hPu := (hkeep s a u h0 hP hu).mpr hG
      exact (ih (hI s a u h0 hu) hPu hrest).mpr hA

end Ezpds.Library
