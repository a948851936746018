import Ezpds.Accounts.Machine
import Mathlib.Data.List.Perm.Basic

/-!
# Which accounts the reaper deletes

A pass lists the accounts that are due and purges them one transaction at a time; the purge
looks at nothing but the existence of the row. What the list said of an account still holds
when its turn comes as long as no transaction in between takes a listed account off its
deletion: `KeepsDoomed` is this condition on the steps, and `reaper_spares` says that it is
enough.

* `sound_step`: what a step within the condition preserves.
* `reaper_spares`: every purge of every run within it is of an account that is deactivated and
  past its deletion time.
* `reaper_deletes_reactivated`: the owner comes back between the list and the purge.
-/

namespace Ezpds.Accounts

open Library

variable {cfg : Config} {s t : State} {did other : String} {row : AccountRow}

def AccountRow.doomed (datetime : String → Option Nat) (now : Nat) (row : AccountRow) : Bool :=
  row.deactivatedAt.isSome && row.due datetime now

/-- A purge of the reaper starts from a state in which its account, if it is still there, is
deactivated and past its deletion time. -/
def PurgesDoomed (cfg : Config) (s : State) (a : Action) : Prop :=
  a = .purgeNext → ∀ did ∈ s.reaping.head?, ∀ row ∈ s.row did,
    row.doomed cfg.datetime s.now = true

instance : ∀ a : Action, Decidable (a = .purgeNext)
  | .purgeNext => .isTrue rfl
  | .tick | .createAccount .. | .deactivateAccount .. | .activateAccount ..
  | .updateSubjectStatus .. | .prepareChild .. | .loadPreparedChild .. | .finalizeChild ..
  | .findChild .. | .deleteChild .. | .deleteAccount .. | .listDue .. | .skipNext
  | .announce .. | .loseAnnouncement .. => .isFalse nofun

instance (cfg : Config) (s : State) (a : Action) : Decidable (PurgesDoomed cfg s a) :=
  inferInstanceAs (Decidable (_ → _))

/-- A deletion time stands on deactivated accounts only. -/
def Scheduled (s : State) : Prop :=
  ∀ did, ∀ row ∈ s.row did, row.deleteAfter ≠ none → row.deactivatedAt ≠ none

/-! ## The condition -/

/-- Still to be purged by the pass, and still there. -/
def State.listed (s : State) (did : String) : Bool :=
  decide (did ∈ s.reaping) && (s.row did).isSome

/-- The cascade of a purge reschedules no listed child, unless to an instant already past. -/
def State.cascadeKeeps (cfg : Config) (s : State) (rest : List String) (did : String) : Bool :=
  (s.childrenOf did).all fun child =>
    !(decide (child ∈ rest)) || elapsed cfg.datetime s.now (cfg.childDeleteAfter s.now)

/-- The step takes no listed account off its deletion: no activation, no later or missing
deletion time, no new account under a listed DID; and no account with a deletion time is
finalized as a child. -/
def KeepsDoomed (cfg : Config) (s : State) : Action → Prop
  | .createAccount did _ => did ∉ s.reaping
  | .prepareChild c => c.child ∉ s.reaping
  | .activateAccount did => s.listed did = false
  | .deactivateAccount did deleteAfter =>
    s.listed did = true → deleteAfter.any (elapsed cfg.datetime s.now) = true
  | .deleteChild c =>
    s.listed c.child = true → elapsed cfg.datetime s.now (cfg.childDeleteAfter s.now) = true
  | .finalizeChild c => ∀ row ∈ s.row c.child, row.deleteAfter = none
  | .deleteAccount did => s.cascadeKeeps cfg s.reaping did = true
  | .purgeNext => ∀ did ∈ s.reaping.head?, s.cascadeKeeps cfg s.reaping.tail did = true
  | _ => True

instance (cfg : Config) (s : State) : ∀ a, Decidable (KeepsDoomed cfg s a)
  | .createAccount .. | .prepareChild .. => inferInstanceAs (Decidable (_ ∉ _))
  | .activateAccount .. | .deleteAccount .. => inferInstanceAs (Decidable (_ = _))
  | .deactivateAccount .. | .deleteChild .. => inferInstanceAs (Decidable (_ → _))
  | .finalizeChild c =>
    inferInstanceAs (Decidable (∀ row ∈ s.row c.child, row.deleteAfter = none))
  | .purgeNext =>
    inferInstanceAs (Decidable (∀ did ∈ s.reaping.head?,
      s.cascadeKeeps cfg s.reaping.tail did = true))
  | .tick | .updateSubjectStatus .. | .loadPreparedChild .. | .findChild .. | .listDue ..
  | .skipNext | .announce .. | .loseAnnouncement .. => .isTrue trivial

/-! ## What the steps preserve -/

/-- A row is deactivated if it has a deletion time, and is due if it is listed. -/
structure Fit (cfg : Config) (s : State) (did : String) (row : AccountRow) : Prop where
  scheduled : row.deleteAfter ≠ none → row.deactivatedAt ≠ none
  due : did ∈ s.reaping → row.due cfg.datetime s.now = true

def Sound (cfg : Config) (s : State) : Prop :=
  ∀ did, ∀ row ∈ s.row did, Fit cfg s did row

theorem Sound.scheduled (h : Sound cfg s) : Scheduled s :=
  fun did row hRow => (h did row hRow).scheduled

theorem sound_of_scheduled (hReaping : s.reaping = []) (h : Scheduled s) : Sound cfg s := by
  intro did row hRow
  refine ⟨h did row hRow, ?_⟩
  intro hListed
  rw [hReaping] at hListed
  cases hListed

theorem Fit.mono (h : Fit cfg s did row) (hNow : s.now ≤ t.now)
    (hReaping : t.reaping ⊆ s.reaping) : Fit cfg t did row where
  scheduled := h.scheduled
  due hListed := AccountRow.due_mono hNow (h.due (hReaping hListed))

/-- The rows that a step does not write stay as they are, and those that it writes fit. -/
theorem Sound.of_rows (h : Sound cfg s) (hNow : s.now ≤ t.now) (hReaping : t.reaping ⊆ s.reaping)
    (hRows : ∀ did, t.row did = s.row did ∨ ∀ row ∈ t.row did, Fit cfg t did row) :
    Sound cfg t := by
  intro did row hRow
  rcases hRows did with hSame | hFits
  · exact (h did row (hSame ▸ hRow)).mono hNow hReaping
  · exact hFits row hRow

theorem fit_deactivate {deleteAfter : Option String}
    (hDue : did ∈ s.reaping → deleteAfter.any (elapsed cfg.datetime s.now) = true) :
    Fit cfg s did (row.deactivate s.now deleteAfter) where
  scheduled _ := by
    have hSome := @AccountRow.deactivate_deactivatedAt row s.now deleteAfter
    intro hNone
    rw [hNone] at hSome
    cases hSome
  due := hDue

theorem fit_newAccount {deactivatedAt : Option Nat} (hFresh : did ∉ s.reaping) :
    Fit cfg s did (newAccount deactivatedAt) where
  scheduled h := absurd rfl h
  due hListed := absurd hListed hFresh

theorem listed_of_row (hRow : row ∈ s.row did) (hListed : did ∈ s.reaping) :
    s.listed did = true := by
  rw [State.listed, Bool.and_eq_true, decide_eq_true_eq]
  exact ⟨hListed, Option.isSome_of_mem hRow⟩

/-- The two ways to a deactivation: the owner's request and the parent's. -/
theorem sound_deactivate {deleteAfter : Option String} {deleting : List ChildOf}
    {event : Firehose.AccountInput} (h : Sound cfg s)
    (hKeeps : s.listed did = true → deleteAfter.any (elapsed cfg.datetime s.now) = true) :
    Sound cfg ({ s with deleting := deleting }.transition
      (deactivateAccount s.now did deleteAfter s.accounts) event) := by
  apply h.of_rows
  · rw [State.transition_now]
  · rw [State.transition_reaping]
    exact List.Subset.refl _
  · intro other
    rw [State.row_deactivateAccount]
    split
    · rename_i hEq
      subst hEq
      right
      rintro row hRow
      obtain ⟨before, hBefore, rfl⟩ := Option.map_eq_some_iff.mp hRow
      have hFit : Fit cfg s did (before.deactivate s.now deleteAfter) :=
        fit_deactivate fun hListed => hKeeps (listed_of_row hBefore hListed)
      exact hFit.mono (by rw [State.transition_now]) (by
        rw [State.transition_reaping]
        exact List.Subset.refl _)
    · exact .inl rfl

theorem sound_activate {event : Firehose.AccountInput} (h : Sound cfg s)
    (hKeeps : s.listed did = false) :
    Sound cfg (s.transition (activateAccount did s.accounts) event) := by
  apply h.of_rows
  · rw [State.transition_now]
  · rw [State.transition_reaping]
    exact List.Subset.refl _
  · intro other
    rw [State.row_activateAccount]
    split
    · rename_i hEq
      subst hEq
      right
      rintro row hRow
      obtain ⟨before, hBefore, rfl⟩ := Option.map_eq_some_iff.mp hRow
      constructor
      · rw [AccountRow.activate]
        split
        · exact (h did before hBefore).scheduled
        · exact fun hText => absurd rfl hText
      · rw [State.transition_reaping]
        intro hListed
        rw [listed_of_row hBefore hListed] at hKeeps
        cases hKeeps
    · exact .inl rfl

/-- A purge leaves what is still listed fit when its cascade keeps the rest of the list. -/
theorem sound_purgeAccount (h : Sound cfg s)
    (hKeeps : s.cascadeKeeps cfg s.reaping did = true) :
    Sound cfg (s.purgeAccount cfg did) := by
  apply h.of_rows
  · rw [State.purgeAccount_now]
  · rw [State.purgeAccount_reaping]
    exact List.Subset.refl _
  · intro other
    rw [State.row_purgeAccount]
    split
    · exact .inl rfl
    · split
      · exact .inr nofun
      · split
        · rename_i hChild
          right
          rintro row hRow
          obtain ⟨before, hBefore, rfl⟩ := Option.map_eq_some_iff.mp hRow
          have hOther := List.all_eq_true.mp hKeeps other hChild
          rw [Bool.or_eq_true, Bool.not_eq_true', decide_eq_false_iff_not] at hOther
          have hFit : Fit cfg s other
              (before.deactivate s.now (some (cfg.childDeleteAfter s.now))) :=
            fit_deactivate fun hListed => hOther.resolve_left (not_not.mpr hListed)
          exact hFit.mono (by rw [State.purgeAccount_now]) (by
            rw [State.purgeAccount_reaping]
            exact List.Subset.refl _)
        · exact .inl rfl

/-- A step that leaves the accounts, the clock and the list alone. -/
theorem Sound.of_eq (h : Sound cfg s) (hAccounts : t.accounts = s.accounts)
    (hNow : t.now = s.now) (hReaping : t.reaping ⊆ s.reaping) : Sound cfg t :=
  h.of_rows (le_of_eq hNow.symm) hReaping fun did => .inl (by rw [State.row, State.row, hAccounts])

theorem sound_insert {deactivatedAt : Option Nat} (h : Sound cfg s)
    (hAccounts : t.accounts = s.accounts.set did (some (newAccount deactivatedAt)))
    (hNow : t.now = s.now) (hReaping : t.reaping = s.reaping) (hFresh : did ∉ s.reaping) :
    Sound cfg t := by
  apply h.of_rows (le_of_eq hNow.symm) (by rw [hReaping]; exact List.Subset.refl _)
  intro other
  rw [State.row, hAccounts, SortedMap.get?_set]
  split
  · rename_i hEq
    subst hEq
    right
    rintro row hRow
    cases hRow
    exact fit_newAccount (hReaping ▸ hFresh)
  · exact .inl rfl

theorem sound_finalize {c : ChildOf} (h : Sound cfg s)
    (hKeeps : ∀ row ∈ s.row c.child, row.deleteAfter = none) : Sound cfg (s.finalize c) := by
  refine h.of_rows (le_refl _) (List.Subset.refl _) ?_
  intro other
  rw [State.row_finalize]
  split
  · rename_i hEq
    subst hEq
    right
    rintro row hRow
    obtain ⟨before, hBefore, rfl⟩ := Option.map_eq_some_iff.mp hRow
    constructor
    · exact fun hText => absurd (hKeeps before hBefore) hText
    · exact (h c.child before hBefore).due
  · exact .inl rfl

theorem sound_takedown {applied : Bool} (h : Sound cfg s)
    (hAccounts : t.accounts = (setAccountTakedown s.now did applied s.accounts).2)
    (hNow : t.now = s.now) (hReaping : t.reaping = s.reaping) : Sound cfg t := by
  intro other row hRow
  rw [State.row, hAccounts, get?_setAccountTakedown] at hRow
  have hSub : t.reaping ⊆ s.reaping := by
    rw [hReaping]
    exact List.Subset.refl _
  split at hRow
  · obtain ⟨before, hBefore, rfl⟩ := Option.map_eq_some_iff.mp hRow
    have hFit := (h other before hBefore).mono (le_of_eq hNow.symm) hSub
    exact ⟨hFit.scheduled, hFit.due⟩
  · exact (h other row hRow).mono (le_of_eq hNow.symm) hSub

theorem sound_step (s : State) (a : Action) (t : State) (h : Sound cfg s)
    (hKeeps : KeepsDoomed cfg s a) (hStep : Machine.step cfg s a = some t) : Sound cfg t := by
  cases a with
  | tick =>
    cases hStep
    exact h.of_rows (Nat.le_succ _) (List.Subset.refl _) fun _ => .inl rfl
  | createAccount did isDeactivated =>
    obtain ⟨hNone, hEq⟩ := Option.ite_none_right_eq_some.mp hStep
    cases hEq
    exact sound_insert h rfl rfl rfl hKeeps
  | deactivateAccount did deleteAfter =>
    cases hStep
    exact @sound_deactivate cfg s did deleteAfter s.deleting _ h hKeeps
  | activateAccount did =>
    cases hStep
    exact sound_activate h hKeeps
  | updateSubjectStatus did applied =>
    simp only [Machine.step] at hStep
    split at hStep
    · cases hStep
    · cases hStep
      exact sound_takedown h rfl rfl rfl
    · cases hStep
      exact sound_takedown h rfl rfl rfl
  | prepareChild c =>
    obtain ⟨hNone, hEq⟩ := Option.ite_none_right_eq_some.mp hStep
    cases hEq
    exact sound_insert h rfl rfl rfl hKeeps
  | loadPreparedChild c =>
    obtain ⟨_, hEq⟩ := Option.ite_none_right_eq_some.mp hStep
    cases hEq
    exact h.of_eq rfl rfl (List.Subset.refl _)
  | finalizeChild c =>
    obtain ⟨_, hEq⟩ := Option.ite_none_right_eq_some.mp hStep
    cases hEq
    exact sound_finalize h hKeeps
  | findChild c =>
    obtain ⟨_, hEq⟩ := Option.ite_none_right_eq_some.mp hStep
    cases hEq
    exact h.of_eq rfl rfl (List.Subset.refl _)
  | deleteChild c =>
    obtain ⟨_, hEq⟩ := Option.ite_none_right_eq_some.mp hStep
    cases hEq
    exact sound_deactivate h hKeeps
  | deleteAccount did =>
    cases hStep
    exact sound_purgeAccount h hKeeps
  | listDue dids =>
    obtain ⟨⟨_, hDue⟩, hEq⟩ := Option.ite_none_right_eq_some.mp hStep
    cases hEq
    -- the list is of the accounts that are due now
    intro did row hRow
    refine ⟨(h did row hRow).scheduled, ?_⟩
    intro hListed
    obtain ⟨found, hFound, hPast⟩ := mem_accountsDueForDeletion.mp (hDue.mem_iff.mp hListed)
    rw [State.row] at hRow
    rw [Option.mem_def, hFound] at hRow
    cases hRow
    exact hPast
  | purgeNext =>
    rw [Machine.step] at hStep
    split at hStep
    · cases hStep
    · rename_i did rest hReaping
      cases hStep
      rw [KeepsDoomed, hReaping] at hKeeps
      have hRest : Sound cfg { s with reaping := rest } := by
        refine h.of_eq rfl rfl ?_
        rw [hReaping]
        exact List.subset_cons_self _ _
      exact sound_purgeAccount hRest (hKeeps did rfl)
  | skipNext =>
    rw [Machine.step] at hStep
    split at hStep
    · cases hStep
    · rename_i did rest hReaping
      cases hStep
      refine h.of_eq rfl rfl ?_
      rw [hReaping]
      exact List.subset_cons_self _ _
  | announce event =>
    obtain ⟨_, hEq⟩ := Option.ite_none_right_eq_some.mp hStep
    cases hEq
    exact h.of_eq rfl rfl (List.Subset.refl _)
  | loseAnnouncement event =>
    obtain ⟨_, hEq⟩ := Option.ite_none_right_eq_some.mp hStep
    cases hEq
    exact h.of_eq rfl rfl (List.Subset.refl _)

theorem Sound.purgesDoomed (a : Action) (h : Sound cfg s) : PurgesDoomed cfg s a := by
  rintro rfl did hHead row hRow
  have hListed : did ∈ s.reaping := List.mem_of_mem_head? hHead
  have hFit := h did row hRow
  have hDue := hFit.due hListed
  rw [AccountRow.doomed, Bool.and_eq_true]
  refine ⟨Option.isSome_iff_ne_none.mpr (hFit.scheduled ?_), hDue⟩
  -- what is due has a deletion time
  intro hNone
  rw [AccountRow.due, hNone] at hDue
  cases hDue

/-- Over any run whose steps keep the listed accounts doomed, from a state with no pass under
way, the reaper purges only accounts that are deactivated and past their deletion time, and a
deletion time stands on deactivated accounts only. -/
theorem reaper_spares {as : List Action} (hReaping : s.reaping = []) (hScheduled : Scheduled s)
    (hKeeps : Along (Machine.step cfg) (KeepsDoomed cfg) s as)
    (hRun : run (Machine.step cfg) s as = some t) :
    Along (Machine.step cfg) (PurgesDoomed cfg) s as ∧ Scheduled t := by
  have hSound := @sound_of_scheduled cfg s hReaping hScheduled
  constructor
  · exact Along.of_invariant sound_step (fun _ a h _ => h.purgesDoomed a) hSound hKeeps
  · exact (run_invariant_along sound_step hSound hKeeps hRun).scheduled

/-! ## An owner who comes back -/

def emptyState : State where
  now := 0
  accounts := .empty
  identities := []
  provisionings := []
  minting := []
  deleting := []
  reaping := []
  announcing := []
  events := []

/-- The instants of the runs below, as the database reads their texts. -/
def sampleConfig : Config where
  childDeleteAfter _ := "1970-01-31T00:00:00Z"
  datetime text :=
    if text = "1970-01-01T00:00:01Z" then some 1
    else if text = "1970-01-31T00:00:00Z" then some 2592000
    else none

def scheduledDeletion : List Action :=
  [.createAccount "did:plc:alice" false,
    .deactivateAccount "did:plc:alice" (some "1970-01-01T00:00:01Z"),
    .tick, .listDue ["did:plc:alice"]]

theorem reaper_spares_scheduledDeletion :
    Along (Machine.step sampleConfig) (PurgesDoomed sampleConfig) emptyState
        (scheduledDeletion ++ [.purgeNext]) ∧
      ∀ t ∈ run (Machine.step sampleConfig) emptyState (scheduledDeletion ++ [.purgeNext]),
        Scheduled t := by
  have hRun : (run (Machine.step sampleConfig) emptyState
      (scheduledDeletion ++ [.purgeNext])).isSome = true := by decide +kernel
  have hKeeps : Along (Machine.step sampleConfig) (KeepsDoomed sampleConfig) emptyState
      (scheduledDeletion ++ [.purgeNext]) := by decide +kernel
  have hScheduled : Scheduled emptyState := nofun
  obtain ⟨t, ht⟩ := Option.isSome_iff_exists.mp hRun
  obtain ⟨hDoomed, hT⟩ := reaper_spares rfl hScheduled hKeeps ht
  refine ⟨hDoomed, ?_⟩
  intro u hu
  rw [Option.mem_def, ht] at hu
  cases hu
  exact hT

/-- The account is listed, activated by its owner, and deleted all the same. -/
theorem reaper_deletes_reactivated :
    ¬ Along (Machine.step sampleConfig) (PurgesDoomed sampleConfig) emptyState
        (scheduledDeletion ++ [.activateAccount "did:plc:alice", .purgeNext]) ∧
      (run (Machine.step sampleConfig) emptyState
        (scheduledDeletion ++ [.activateAccount "did:plc:alice"])).any
          (fun s => s.row "did:plc:alice" = some (newAccount none)) = true ∧
      (run (Machine.step sampleConfig) emptyState
        (scheduledDeletion ++ [.activateAccount "did:plc:alice", .purgeNext])).any
          (fun s => s.row "did:plc:alice" = none) = true := by
  decide +kernel

end Ezpds.Accounts
