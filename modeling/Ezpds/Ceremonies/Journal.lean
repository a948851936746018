import Ezpds.Library.Run
import Mathlib.Data.Finset.Card
import Mathlib.Order.Defs.LinearOrder

/-!
# The journal of a ceremony

A ceremony is a list of steps, each with work that leaves a mark outside the process. The
journal keeps the last step that was recorded: under `run` the work of a step is done while the
cursor is short of it, and the cursor moves after the work has succeeded. A process may fail or
die at every call, and the next one resumes at the recorded step.

* `Runs`: what one step does to the store.
* `Store.Inv`: what holds of the store before every step.
* `ceremony_crash_safe`: the order of the work, over any number of resumed processes.
-/

namespace Ezpds.Ceremonies

open Library

variable {S σ ε : Type}

/-! ## Calls that may not return -/

/-- How a call ends. One that returns an error, or in which the process dies, may have taken
effect all the same. -/
inductive Fate (ε : Type) where
  | returns
  | fails (e : ε) (landed : Bool)
  | crashes (landed : Bool)
  deriving DecidableEq, Repr

/-- Why a process stopped before the end of the ceremony. -/
inductive Halt (ε : Type) where
  | failed (e : ε)
  | crashed
  deriving DecidableEq, Repr

def Halt.map (f : σ → ε) : Halt σ → Halt ε
  | failed e => failed (f e)
  | crashed => crashed

namespace Fate

def lands : Fate ε → Bool
  | returns => true
  | fails _ landed => landed
  | crashes landed => landed

/-- Only a process that died before the call did not begin it. -/
def begins : Fate ε → Bool
  | crashes landed => landed
  | _ => true

def result : Fate ε → Except (Halt ε) Unit
  | returns => .ok ()
  | fails e _ => .error (.failed e)
  | crashes _ => .error .crashed

end Fate

/-! ## The store -/

inductive Event (S : Type) where
  | worked (step : S) (succeeded : Bool)
  | saved (step : S)
  deriving DecidableEq, Repr

/-- What outlives the process: the recorded step, and all that the ceremony has done. -/
structure Store (S : Type) where
  cursor : Option S
  events : List (Event S)
  deriving DecidableEq, Repr

namespace Store

def fresh : Store S := ⟨none, []⟩

def worked (store : Store S) (step : S) (succeeded : Bool) : Store S :=
  { store with events := store.events ++ [.worked step succeeded] }

def saved (store : Store S) (step : S) : Store S :=
  ⟨some step, store.events ++ [.saved step]⟩

/-- `JournalStore::save`. -/
def save (fate : Fate σ) (step : S) (store : Store S) : Store S × Except (Halt σ) Unit :=
  (if fate.lands then store.saved step else store, fate.result)

end Store

/-! ## The journal -/

structure Journal (S : Type) where
  store : Store S
  cursor : Option S

namespace Journal

def resume (load : Fate σ) (store : Store S) : Except (Halt σ) (Journal S) := do
  load.result
  return { store, cursor := store.cursor }

def advance (save : Fate σ) (step : S) (journal : Journal S) :
    Journal S × Except (Halt σ) Unit :=
  match journal.store.save save step with
  | (store, .ok ()) => ({ store, cursor := some step }, .ok ())
  | (store, .error e) => ({ journal with store }, .error e)

variable [LinearOrder S]

def reached (journal : Journal S) (step : S) : Bool :=
  journal.cursor.any fun cursor => cursor ≥ step

/-- The work of the step, which leaves its mark once it has begun. -/
def work (work : Fate ε) (step : S) (journal : Journal S) : Journal S :=
  if work.begins then { journal with store := journal.store.worked step work.result.isOk }
  else journal

def run (ofStore : σ → ε) (work : Fate ε) (save : Fate σ) (step : S) (journal : Journal S) :
    Journal S × Except (Halt ε) Unit :=
  if journal.reached step then (journal, .ok ())
  else
    match work.result with
    | .error e => (journal.work work step, .error e)
    | .ok () =>
      match (journal.work work step).advance save step with
      | (journal, result) => (journal, result.mapError (Halt.map ofStore))

end Journal

/-! ## The ceremony -/

/-- What one process meets. -/
structure Attempt (S σ ε : Type) where
  load : Fate σ
  work : S → Fate ε
  save : S → Fate σ

section Ceremony

variable [LinearOrder S] (ofStore : σ → ε)

/-- The steps in order, until one fails. -/
def ceremony (a : Attempt S σ ε) : List S → Journal S → Journal S × Except (Halt ε) Unit
  | [], journal => (journal, .ok ())
  | step :: steps, journal =>
    match journal.run ofStore (a.work step) (a.save step) step with
    | (journal, .ok ()) => ceremony a steps journal
    | (journal, .error e) => (journal, .error e)

/-- One process. -/
def attempt (steps : List S) (a : Attempt S σ ε) (store : Store S) :
    Store S × Except (Halt ε) Unit :=
  match Journal.resume a.load store with
  | .error e => (store, .error (e.map ofStore))
  | .ok journal =>
    match ceremony ofStore a steps journal with
    | (journal, result) => (journal.store, result)

def attemptStep (steps : List S) (store : Store S) (a : Attempt S σ ε) : Option (Store S) :=
  some (attempt ofStore steps a store).1

/-- The reason why the process stopped early, if it did. -/
def interruption (steps : List S) (store : Store S) (a : Attempt S σ ε) : List (Halt ε) :=
  match (attempt ofStore steps a store).2 with
  | .ok () => []
  | .error e => [e]

end Ceremony

def Event.ran : Event S → Option S
  | worked step _ => some step
  | saved _ => none

/-- The steps whose work was begun, in the order of time. -/
def executed (events : List (Event S)) : List S :=
  events.filterMap Event.ran

/-! ## One step -/

variable [LinearOrder S] {steps : List S} {cursor : Option S} {step : S}
  {old store store' : Store S} {new events : List (Event S)} {halted : Bool}

/-- The cursor has reached the step. -/
def Covers (cursor : Option S) (step : S) : Prop :=
  ∃ c, cursor = some c ∧ step ≤ c

theorem reached_iff {journal : Journal S} :
    journal.reached step = true ↔ Covers journal.cursor step := by
  simp [Journal.reached, Covers, Option.any_eq_true]

theorem Covers.of_le {later : S} (h : Covers cursor later) (hLe : step ≤ later) :
    Covers cursor step := by
  obtain ⟨c, hCursor, hLater⟩ := h
  exact ⟨c, hCursor, hLe.trans hLater⟩

/-- What the run of a step does to the store, and whether the process ends there. -/
inductive Runs (step : S) (store : Store S) : Store S → Bool → Prop
  | skipped (h : Covers store.cursor step) : Runs step store store false
  | stopped : Runs step store store true
  | worked (succeeded : Bool) (h : ¬ Covers store.cursor step) :
      Runs step store (store.worked step succeeded) true
  | saved (halted : Bool) (h : ¬ Covers store.cursor step) :
      Runs step store ((store.worked step true).saved step) halted

theorem run_runs {ofStore : σ → ε} {work : Fate ε} {save : Fate σ} {journal journal' : Journal S}
    {result : Except (Halt ε) Unit} (hCursor : journal.cursor = journal.store.cursor)
    (h : journal.run ofStore work save step = (journal', result)) :
    Runs step journal.store journal'.store (!result.isOk) ∧
      (result = .ok () → journal'.cursor = journal'.store.cursor) := by
  unfold Journal.run at h
  split at h
  · rename_i hReached
    cases h
    rw [reached_iff, hCursor] at hReached
    exact ⟨.skipped hReached, fun _ => hCursor⟩
  · rename_i hReached
    rw [reached_iff, hCursor] at hReached
    cases work with
    | fails e landed =>
      cases h
      exact ⟨.worked false hReached, nofun⟩
    | crashes landed =>
      cases h
      cases landed with
      | false => exact ⟨.stopped, nofun⟩
      | true => exact ⟨.worked false hReached, nofun⟩
    | returns =>
      cases save with
      | returns =>
        cases h
        exact ⟨.saved false hReached, fun _ => rfl⟩
      | fails e landed =>
        cases h
        cases landed with
        | false => exact ⟨.worked true hReached, nofun⟩
        | true => exact ⟨.saved true hReached, nofun⟩
      | crashes landed =>
        cases h
        cases landed with
        | false => exact ⟨.worked true hReached, nofun⟩
        | true => exact ⟨.saved true hReached, nofun⟩

/-! ## The next step -/

/-- The first step that the cursor has not reached. -/
structure Next (steps : List S) (cursor : Option S) (step : S) : Prop where
  mem : step ∈ steps
  short : ¬ Covers cursor step
  earlier : ∀ e ∈ steps, e < step → Covers cursor e

theorem Next.unique {step' : S} (h : Next steps cursor step) (h' : Next steps cursor step') :
    step = step' := by
  rcases lt_trichotomy step step' with hLt | hEq | hGt
  · exact absurd (h'.earlier step h.mem hLt) h.short
  · exact hEq
  · exact absurd (h.earlier step' h'.mem hGt) h'.short

/-! ## The invariant of the store -/

omit [LinearOrder S] in
@[simp] theorem executed_worked (step : S) (succeeded : Bool) :
    executed (events ++ [.worked step succeeded]) = executed events ++ [step] := by
  simp [executed, Event.ran]

omit [LinearOrder S] in
@[simp] theorem executed_saved (step : S) :
    executed (events ++ [.saved step]) = executed events := by
  simp [executed, Event.ran]

omit [LinearOrder S] in
/-- The last event of a history is at its split, or it stays in the part after. -/
theorem split_concat {event e : Event S} {before after : List (Event S)}
    (h : events ++ [e] = before ++ event :: after) :
    (before = events ∧ event = e ∧ after = []) ∨
      ∃ after', after = after' ++ [e] ∧ events = before ++ event :: after' := by
  rcases List.eq_nil_or_concat' after with rfl | ⟨after', last, rfl⟩
  · obtain ⟨hBefore, hEvent⟩ := List.append_inj' h rfl
    cases hEvent
    exact Or.inl ⟨hBefore.symm, rfl, rfl⟩
  · have hSplit : events ++ [e] = (before ++ event :: after') ++ [last] := by
      rw [h, List.append_assoc, List.cons_append]
    obtain ⟨hEvents, hLast⟩ := List.append_inj' hSplit rfl
    cases hLast
    exact Or.inr ⟨after', rfl, hEvents⟩

/-- Work is begun after the work of every earlier step has succeeded. -/
def InTurn (steps : List S) (events : List (Event S)) : Prop :=
  ∀ before step succeeded after, events = before ++ .worked step succeeded :: after →
    ∀ e ∈ steps, e < step → .worked e true ∈ before

/-- The work of a step that was recorded is not begun again. -/
def NeverAgain (events : List (Event S)) : Prop :=
  ∀ before step after, events = before ++ .saved step :: after → step ∉ executed after

theorem InTurn.worked {succeeded : Bool} (h : InTurn steps events)
    (hDone : ∀ e ∈ steps, e < step → .worked e true ∈ events) :
    InTurn steps (events ++ [.worked step succeeded]) := by
  intro before s ok after hSplit e he hLt
  rcases split_concat hSplit with ⟨rfl, hEvent, _⟩ | ⟨after', _, hEvents⟩
  · cases hEvent
    exact hDone e he hLt
  · exact h before s ok after' hEvents e he hLt

theorem InTurn.saved (h : InTurn steps events) : InTurn steps (events ++ [.saved step]) := by
  intro before s ok after hSplit e he hLt
  rcases split_concat hSplit with ⟨_, hEvent, _⟩ | ⟨after', _, hEvents⟩
  · cases hEvent
  · exact h before s ok after' hEvents e he hLt

omit [LinearOrder S] in
theorem NeverAgain.worked {succeeded : Bool} (h : NeverAgain events)
    (hOpen : .saved step ∉ events) : NeverAgain (events ++ [.worked step succeeded]) := by
  intro before s after hSplit
  rcases split_concat hSplit with ⟨_, hEvent, _⟩ | ⟨after', rfl, hEvents⟩
  · cases hEvent
  · rw [executed_worked, List.mem_append, List.mem_singleton]
    rintro (hMem | rfl)
    · exact h before s after' hEvents hMem
    · exact hOpen (hEvents ▸ List.mem_append_right before List.mem_cons_self)

omit [LinearOrder S] in
theorem NeverAgain.saved (h : NeverAgain events) : NeverAgain (events ++ [.saved step]) := by
  intro before s after hSplit
  rcases split_concat hSplit with ⟨_, _, rfl⟩ | ⟨after', rfl, hEvents⟩
  · exact List.not_mem_nil
  · rw [executed_saved]
    exact h before s after' hEvents

structure Store.Inv (steps : List S) (store : Store S) : Prop where
  ordered : (executed store.events).Pairwise (· ≤ ·)
  /-- Only one step can have been begun and not recorded. -/
  ahead : ∀ s ∈ executed store.events, Covers store.cursor s ∨ Next steps store.cursor s
  done : ∀ s ∈ steps, Covers store.cursor s → .worked s true ∈ store.events
  recorded : ∀ s, .saved s ∈ store.events → Covers store.cursor s
  inTurn : InTurn steps store.events
  neverAgain : NeverAgain store.events

theorem Store.inv_fresh : (Store.fresh : Store S).Inv steps where
  ordered := List.Pairwise.nil
  ahead := nofun
  done := nofun
  recorded := nofun
  inTurn before := by
    cases before <;> nofun
  neverAgain before := by
    cases before <;> nofun

/-- What was begun before the next step comes before it. -/
theorem Store.Inv.le_next (h : store.Inv steps) (hNext : Next steps store.cursor step) :
    ∀ s ∈ executed store.events, s ≤ step := by
  intro s hs
  rcases h.ahead s hs with hCovers | hAhead
  · by_contra hNot
    exact hNext.short (hCovers.of_le (le_of_not_ge hNot))
  · exact le_of_eq (hAhead.unique hNext)

theorem Store.Inv.worked (h : store.Inv steps) (hNext : Next steps store.cursor step)
    (succeeded : Bool) : (store.worked step succeeded).Inv steps where
  ordered := by
    show (executed (store.events ++ [_])).Pairwise (· ≤ ·)
    rw [executed_worked, List.pairwise_append]
    refine ⟨h.ordered, List.pairwise_singleton _ _, fun s hs t ht => ?_⟩
    rw [List.mem_singleton.mp ht]
    exact h.le_next hNext s hs
  ahead s hs := by
    change s ∈ executed (store.events ++ [_]) at hs
    rw [executed_worked, List.mem_append, List.mem_singleton] at hs
    rcases hs with hs | rfl
    · exact h.ahead s hs
    · exact Or.inr hNext
  done s hs hCovers := List.mem_append_left _ (h.done s hs hCovers)
  recorded s hs := by
    rcases List.mem_append.mp hs with hs | hs
    · exact h.recorded s hs
    · cases List.mem_singleton.mp hs
  inTurn := h.inTurn.worked fun e he hLt => h.done e he (hNext.earlier e he hLt)
  neverAgain := h.neverAgain.worked fun hMem => hNext.short (h.recorded step hMem)

/-- The work of the next step has succeeded, and the step is recorded. -/
theorem Store.Inv.saved (h : store.Inv steps) (hNext : Next steps store.cursor step)
    (hDone : .worked step true ∈ store.events) : (store.saved step).Inv steps where
  ordered := by
    show (executed (store.events ++ [_])).Pairwise (· ≤ ·)
    rw [executed_saved]
    exact h.ordered
  ahead s hs := by
    change s ∈ executed (store.events ++ [_]) at hs
    rw [executed_saved] at hs
    exact Or.inl ⟨step, rfl, h.le_next hNext s hs⟩
  done s hs hCovers := by
    obtain ⟨c, hCursor, hLe⟩ := hCovers
    cases hCursor
    apply List.mem_append_left
    rcases lt_or_eq_of_le hLe with hLt | rfl
    · exact h.done s hs (hNext.earlier s hs hLt)
    · exact hDone
  recorded s hs := by
    rcases List.mem_append.mp hs with hs | hs
    · obtain ⟨c, hCursor, hLe⟩ := h.recorded s hs
      refine ⟨step, rfl, hLe.trans ?_⟩
      by_contra hNot
      exact hNext.short ⟨c, hCursor, le_of_not_ge hNot⟩
    · cases List.mem_singleton.mp hs
      exact ⟨step, rfl, le_refl step⟩
  inTurn := h.inTurn.saved
  neverAgain := h.neverAgain.saved

/-! ## Work that is done again -/

/-- With `n` interruptions, at most `n` times a step was begun again; a step that was begun and
not recorded may still be. -/
structure Bounded (store : Store S) (n : Nat) : Prop where
  length_le : (executed store.events).length ≤ (executed store.events).toFinset.card + n
  pending : ∀ s ∈ executed store.events, ¬ Covers store.cursor s →
    (executed store.events).length + 1 ≤ (executed store.events).toFinset.card + n

theorem bounded_fresh : Bounded (Store.fresh : Store S) 0 where
  length_le := Nat.le_refl 0
  pending := nofun

theorem Bounded.succ {n : Nat} (h : Bounded store n) : Bounded store (n + 1) where
  length_le := Nat.le_succ_of_le h.length_le
  pending s hs hOpen := Nat.le_succ_of_le (h.pending s hs hOpen)

/-- Beginning a step costs nothing when it is new, and otherwise what was left for it. -/
theorem Bounded.begun {n : Nat} (h : Bounded store n) (hOpen : ¬ Covers store.cursor step) :
    (executed store.events ++ [step]).length ≤
      (executed store.events ++ [step]).toFinset.card + n := by
  rw [List.length_append, List.length_singleton, List.toFinset_append, List.toFinset_cons,
    List.toFinset_nil]
  by_cases hMem : step ∈ executed store.events
  · have hSame : (executed store.events).toFinset ∪ insert step ∅ =
        (executed store.events).toFinset := by
      simp [hMem]
    rw [hSame]
    exact h.pending step hMem hOpen
  · have hLength := h.length_le
    have hCard : ((executed store.events).toFinset ∪ insert step ∅).card =
        (executed store.events).toFinset.card + 1 := by
      rw [Finset.union_comm, Finset.insert_union, Finset.empty_union,
        Finset.card_insert_of_notMem (by simpa using hMem)]
    omega

theorem Bounded.worked {n : Nat} (h : Bounded store n) (hOpen : ¬ Covers store.cursor step)
    (succeeded : Bool) : Bounded (store.worked step succeeded) (n + 1) := by
  have hBegun := h.begun hOpen
  constructor
  · show (executed (store.events ++ [_])).length ≤ (executed (store.events ++ [_])).toFinset.card + _
    rw [executed_worked]
    omega
  · intro _ _ _
    show (executed (store.events ++ [_])).length + 1 ≤
      (executed (store.events ++ [_])).toFinset.card + _
    rw [executed_worked]
    omega

theorem Bounded.saved {n : Nat} (h : Bounded store n) (hInv : store.Inv steps)
    (hNext : Next steps store.cursor step) :
    Bounded ((store.worked step true).saved step) n := by
  have hEvents : executed ((store.worked step true).saved step).events =
      executed store.events ++ [step] := by
    show executed ((store.events ++ [_]) ++ [_]) = _
    rw [executed_saved, executed_worked]
  constructor
  · rw [hEvents]
    exact h.begun hNext.short
  · intro s hs hOpen
    rw [hEvents, List.mem_append, List.mem_singleton] at hs
    refine absurd ⟨step, rfl, ?_⟩ hOpen
    rcases hs with hs | rfl
    · exact hInv.le_next hNext s hs
    · exact le_refl s

/-! ## One process -/

/-- What a process has added to the store that it was started on. -/
structure Process (steps : List S) (old store : Store S) (new : List (Event S)) (halted : Bool) :
    Prop where
  inv : store.Inv steps
  events : store.events = old.events ++ new
  sorted : (executed new).Pairwise (· < ·)
  again : ∀ s ∈ executed new, s ∈ executed old.events → Next steps old.cursor s
  kept : ∀ s, Covers old.cursor s → Covers store.cursor s
  covered : halted = false → ∀ s ∈ executed new, Covers store.cursor s
  bounded : ∀ n, Bounded old n → Bounded store (n + halted.toNat)

theorem Process.start (h : old.Inv steps) : Process steps old old [] false where
  inv := h
  events := (List.append_nil _).symm
  sorted := List.Pairwise.nil
  again := nofun
  kept _ hs := hs
  covered _ := nofun
  bounded _ hn := hn

theorem Process.halt (h : Process steps old store new false) :
    Process steps old store new true where
  inv := h.inv
  events := h.events
  sorted := h.sorted
  again := h.again
  kept := h.kept
  covered := nofun
  bounded n hn := (h.bounded n hn).succ

/-- The steps that the process has begun, with the next one. -/
theorem Process.sorted_next (h : Process steps old store new false)
    (hNext : Next steps store.cursor step) : (executed new ++ [step]).Pairwise (· < ·) := by
  refine List.pairwise_append.mpr ⟨h.sorted, List.pairwise_singleton _ _, fun s hs t ht => ?_⟩
  rw [List.mem_singleton.mp ht]
  by_contra hNot
  exact hNext.short ((h.covered rfl s hs).of_le (not_lt.mp hNot))

theorem Process.again_next (hOld : old.Inv steps) (h : Process steps old store new false)
    (hNext : Next steps store.cursor step) :
    ∀ s ∈ executed new ++ [step], s ∈ executed old.events → Next steps old.cursor s := by
  intro s hs hBefore
  rcases List.mem_append.mp hs with hs | hs
  · exact h.again s hs hBefore
  · rw [List.mem_singleton.mp hs] at hBefore ⊢
    rcases hOld.ahead step hBefore with hCovers | hAhead
    · exact absurd (h.kept step hCovers) hNext.short
    · exact hAhead

theorem Runs.covers (h : Runs step store store' false) :
    Covers store'.cursor step ∧ ∀ s, Covers store.cursor s → Covers store'.cursor s := by
  cases h with
  | skipped hCovers => exact ⟨hCovers, fun _ hs => hs⟩
  | saved _ hOpen =>
    refine ⟨⟨step, rfl, le_refl step⟩, fun s hs => ⟨step, rfl, ?_⟩⟩
    by_contra hNot
    exact hOpen (hs.of_le (le_of_not_ge hNot))

theorem Process.runs (hOld : old.Inv steps) (h : Process steps old store new false)
    (hNext : ¬ Covers store.cursor step → Next steps store.cursor step)
    (hRuns : Runs step store store' halted) : ∃ new', Process steps old store' new' halted := by
  cases hRuns with
  | skipped _ => exact ⟨new, h⟩
  | stopped => exact ⟨new, h.halt⟩
  | worked succeeded hOpen =>
    have hStep := hNext hOpen
    refine ⟨new ++ [.worked step succeeded], ?_⟩
    constructor
    · exact h.inv.worked hStep succeeded
    · show store.events ++ _ = _
      rw [h.events, List.append_assoc]
    · rw [executed_worked]
      exact h.sorted_next hStep
    · rw [executed_worked]
      exact h.again_next hOld hStep
    · exact h.kept
    · nofun
    · exact fun n hn => (h.bounded n hn).worked hOpen succeeded
  | saved _ hOpen =>
    have hStep := hNext hOpen
    have hWorked := h.inv.worked hStep true
    refine ⟨new ++ [.worked step true] ++ [.saved step], ?_⟩
    constructor
    · exact hWorked.saved hStep (List.mem_append_right _ (List.mem_singleton_self _))
    · show (store.events ++ _) ++ _ = _
      rw [h.events, List.append_assoc, List.append_assoc, List.append_assoc]
    · rw [executed_saved, executed_worked]
      exact h.sorted_next hStep
    · rw [executed_saved, executed_worked]
      exact h.again_next hOld hStep
    · intro s hs
      refine ⟨step, rfl, ?_⟩
      by_contra hNot
      exact hOpen ((h.kept s hs).of_le (le_of_not_ge hNot))
    · intro _ s hs
      rw [executed_saved, executed_worked, List.mem_append, List.mem_singleton] at hs
      refine ⟨step, rfl, ?_⟩
      rcases hs with hs | rfl
      · by_contra hNot
        exact hOpen ((h.covered rfl s hs).of_le (le_of_not_ge hNot))
      · exact le_refl s
    · intro n hn
      have hSaved := (h.bounded n hn).saved h.inv hStep
      cases halted with
      | false => exact hSaved
      | true => exact hSaved.succ

/-- A step whose predecessors are recorded is the next one, or recorded itself. -/
theorem next_of_split {done rest : List S} (hOrder : steps.Pairwise (· < ·))
    (hSteps : steps = done ++ step :: rest) (hDone : ∀ s ∈ done, Covers cursor s)
    (hOpen : ¬ Covers cursor step) : Next steps cursor step where
  mem := hSteps ▸ List.mem_append_right done List.mem_cons_self
  short := hOpen
  earlier e he hLt := by
    subst hSteps
    obtain ⟨_, hRest, _⟩ := List.pairwise_append.mp hOrder
    rcases List.mem_append.mp he with he | he
    · exact hDone e he
    · rcases List.mem_cons.mp he with rfl | he
      · exact absurd hLt (lt_irrefl e)
      · exact absurd (hLt.trans ((List.pairwise_cons.mp hRest).1 e he)) (lt_irrefl e)

theorem ceremony_process {ofStore : σ → ε} {a : Attempt S σ ε} {done rest : List S}
    {journal journal' : Journal S} {result : Except (Halt ε) Unit}
    (hOrder : steps.Pairwise (· < ·)) (hSteps : steps = done ++ rest)
    (hOld : old.Inv steps) (h : Process steps old journal.store new false)
    (hCursor : journal.cursor = journal.store.cursor)
    (hDone : ∀ s ∈ done, Covers journal.store.cursor s)
    (hRun : ceremony ofStore a rest journal = (journal', result)) :
    ∃ new', Process steps old journal'.store new' (!result.isOk) := by
  induction rest generalizing done journal new with
  | nil =>
    cases hRun
    exact ⟨new, h⟩
  | cons step rest ih =>
    rw [ceremony] at hRun
    split at hRun
    · rename_i next hStep
      obtain ⟨hRuns, hKept⟩ := run_runs hCursor hStep
      obtain ⟨new', hProcess⟩ := h.runs hOld (next_of_split hOrder hSteps hDone) hRuns
      have hCovers : ∀ s ∈ done ++ [step], Covers next.store.cursor s := by
        intro s hs
        rcases List.mem_append.mp hs with hs | hs
        · exact hRuns.covers.2 s (hDone s hs)
        · exact List.mem_singleton.mp hs ▸ hRuns.covers.1
      exact ih (by rw [hSteps, List.append_assoc, List.singleton_append]) hProcess (hKept rfl)
        hCovers hRun
    · rename_i next e hStep
      cases hRun
      exact h.runs hOld (next_of_split hOrder hSteps hDone) (run_runs hCursor hStep).1

theorem attempt_process (ofStore : σ → ε) (a : Attempt S σ ε) (hOrder : steps.Pairwise (· < ·))
    (hInv : store.Inv steps) :
    ∃ new, Process steps store (attempt ofStore steps a store).1 new
      (!(attempt ofStore steps a store).2.isOk) := by
  unfold attempt
  cases hLoad : a.load with
  | fails e landed => exact ⟨[], (Process.start hInv).halt⟩
  | crashes landed => exact ⟨[], (Process.start hInv).halt⟩
  | returns =>
    cases hRun : ceremony ofStore a steps ⟨store, store.cursor⟩ with
    | mk journal result =>
      obtain ⟨new, hProcess⟩ := ceremony_process hOrder (List.nil_append steps).symm hInv
        (Process.start hInv) rfl nofun hRun
      refine ⟨new, ?_⟩
      show Process steps store (ceremony ofStore a steps ⟨store, store.cursor⟩).1.store new
        (!(ceremony ofStore a steps ⟨store, store.cursor⟩).2.isOk)
      rw [hRun]
      exact hProcess

/-! ## Any number of processes -/

theorem attempts_inv {ofStore : σ → ε} {attempts : List (Attempt S σ ε)}
    (hOrder : steps.Pairwise (· < ·))
    (h : run (attemptStep ofStore steps) Store.fresh attempts = some store) :
    store.Inv steps ∧
      Bounded store
        (observed (attemptStep ofStore steps) (interruption ofStore steps) Store.fresh
          attempts).length := by
  have hRun := @run_invariant_observed (Store S) (Attempt S σ ε) (Halt ε)
    (attemptStep ofStore steps) (fun _ _ => True)
    (fun store seen => store.Inv steps ∧ Bounded store seen.length)
    (interruption ofStore steps) ?_ Store.fresh store attempts [] ⟨Store.inv_fresh, bounded_fresh⟩
    (along_of_forall fun _ _ => trivial) h
  · rwa [List.nil_append] at hRun
  · intro s a t seen hInv _ hStep
    cases hStep
    obtain ⟨new, hProcess⟩ := attempt_process ofStore a hOrder hInv.1
    refine ⟨hProcess.inv, ?_⟩
    have hBounded := hProcess.bounded _ hInv.2
    rw [List.length_append, interruption]
    cases hResult : (attempt ofStore steps a s).2 with
    | ok u =>
      rw [hResult] at hBounded
      exact hBounded
    | error e =>
      rw [hResult] at hBounded
      exact hBounded

/-- Over any number of processes, each of which may fail or die at any call, the work of the steps
is begun in order and after the work of every earlier step has succeeded, and never again for a
step that was recorded. The next process begins at most one step again, and all of them together
no more steps than there were interruptions. -/
theorem ceremony_crash_safe (ofStore : σ → ε) (steps : List S) (attempts : List (Attempt S σ ε))
    (store : Store S) (hOrder : steps.Pairwise (· < ·))
    (hRun : run (attemptStep ofStore steps) Store.fresh attempts = some store) :
    (executed store.events).Pairwise (· ≤ ·) ∧
      InTurn steps store.events ∧
      NeverAgain store.events ∧
      (∀ a : Attempt S σ ε, ∃ new,
        (attempt ofStore steps a store).1.events = store.events ++ new ∧
          (executed new).Nodup ∧
          ∀ s ∈ executed new, ∀ t ∈ executed new,
            s ∈ executed store.events → t ∈ executed store.events → s = t) ∧
      (executed store.events).length ≤ (executed store.events).toFinset.card +
        (observed (attemptStep ofStore steps) (interruption ofStore steps) Store.fresh
          attempts).length := by
  obtain ⟨hInv, hBounded⟩ := attempts_inv hOrder hRun
  refine ⟨hInv.ordered, hInv.inTurn, hInv.neverAgain, fun a => ?_, hBounded.length_le⟩
  obtain ⟨new, hProcess⟩ := attempt_process ofStore a hOrder hInv
  refine ⟨new, hProcess.events, hProcess.sorted.imp ne_of_lt, ?_⟩
  intro s hs t ht hsOld htOld
  exact (hProcess.again s hs hsOld).unique (hProcess.again t ht htOld)

/-- The second process dies after the work of step 2, the third finds it not recorded. -/
def demoAttempts : List (Attempt Nat String String) :=
  [⟨.returns, fun step => if step = 2 then .fails "offline" false else .returns,
      fun _ => .returns⟩,
    ⟨.returns, fun _ => .returns, fun step => if step = 2 then .crashes false else .returns⟩,
    ⟨.returns, fun _ => .returns, fun _ => .returns⟩]

def demoStore : Store Nat :=
  ⟨some 3, [.worked 1 true, .saved 1, .worked 2 false, .worked 2 true, .worked 2 true, .saved 2,
    .worked 3 true, .saved 3]⟩

theorem ceremony_crash_safe_demo :
    run (attemptStep (fun e => e) [1, 2, 3]) Store.fresh demoAttempts = some demoStore ∧
      (executed demoStore.events).Pairwise (· ≤ ·) :=
  ⟨rfl, (ceremony_crash_safe (fun e => e) [1, 2, 3] demoAttempts demoStore (by decide) rfl).1⟩

end Ezpds.Ceremonies
