import Ezpds.Accounts.Reaper
import Mathlib

/-!
# What the firehose last said of an account

Relays act on the last `#account` event of an account alone, so that event should be the one
its lifecycle calls for. The operator's takedown stages the whole lifecycle; the owner's
requests and the deletion of a child stage what they changed, which is the lifecycle as long
as the account is not suspended or taken down. Three changes are announced after their commit,
if at all: a new account, the commit of a mint, and the children of a purged parent.

* `mirrored_step`: what a step on an unrestricted account preserves.
* `newest_mirrors`: over every run of such steps, the last event of an account is the one its
  lifecycle calls for, unless the last change or event of the account came after a commit.
* `cascade_unannounced`: a child that its parent's purge has deactivated, and that the firehose
  still calls active.
-/

namespace Ezpds.Accounts

open Library Firehose

variable {cfg : Config} {s t : State} {did other : String} {row : AccountRow}
  {event : AccountInput} {events : List AccountInput}

/-! ## The last event -/

def newest (did : String) (events : List AccountInput) : Option AccountInput :=
  (events.filter fun event => decide (event.did = did)).getLast?

theorem newest_append_of_ne (h : event.did ≠ did) :
    newest did (events ++ [event]) = newest did events := by
  simp [newest, List.filter_append, h]

theorem newest_append_self (h : event.did = did) :
    newest did (events ++ [event]) = some event := by
  simp [newest, List.filter_append, h]

/-- The event that the row of an account calls for. -/
def announcementOf (did : String) : Option AccountRow → AccountInput
  | none => deleted did
  | some row => statusOf did row.lifecycle

def Mirrors (s : State) (did : String) : Prop :=
  ∀ event ∈ newest did s.events, event = announcementOf did (s.row did)

instance (s : State) (did : String) : Decidable (Mirrors s did) :=
  inferInstanceAs (Decidable (∀ event ∈ newest did s.events, _))

theorem Mirrors.of_eq (h : Mirrors s did) (hEvents : newest did t.events = newest did s.events)
    (hRow : announcementOf did (t.row did) = announcementOf did (s.row did)) :
    Mirrors t did := by
  intro event hEvent
  rw [hRow]
  exact h event (hEvents ▸ hEvent)

theorem mirrors_of_staged (hEvents : t.events = s.events ++ [announcementOf did (t.row did)]) :
    Mirrors t did := by
  intro event hEvent
  have hDid : (announcementOf did (t.row did)).did = did := by
    cases t.row did <;> rfl
  rw [hEvents, newest_append_self hDid] at hEvent
  cases hEvent
  rfl

theorem announcementOf_active (hRestricted : row.restricted = false)
    (hActive : row.deactivatedAt = none) : announcementOf did (some row) = activated did := by
  rw [announcementOf, AccountRow.lifecycle_of_unrestricted hRestricted, hActive]
  rfl

theorem announcementOf_deactivated (hRestricted : row.restricted = false)
    (hDeactivated : row.deactivatedAt.isSome = true) :
    announcementOf did (some row) = deactivated did := by
  rw [announcementOf, AccountRow.lifecycle_of_unrestricted hRestricted, if_pos hDeactivated]
  rfl

/-! ## Changes announced after their commit -/

/-- An account that a step changes or reports, and whether the last stored event of the account
is then up to date: not after a change that is announced later, nor after an announcement that
comes when the lifecycle has moved on. -/
structure Note where
  did : String
  upToDate : Bool

def upToDate (did : String) (notes : List Note) : Bool :=
  ((notes.filter fun note => decide (note.did = did)).getLast?).all Note.upToDate

def changeNotes (did : String) (change : AccountStateChange) : List Note :=
  if change = .changed then [⟨did, true⟩] else []

def State.purgeNotes (cfg : Config) (s : State) (did : String) : List Note :=
  match s.row did with
  | none => []
  | some _ =>
    (deactivateChildren s.now (cfg.childDeleteAfter s.now) (s.childrenOf did) s.accounts).1.map
      (fun child => ⟨child, false⟩) ++ [⟨did, true⟩]

def notes (cfg : Config) (s : State) : Action → List Note
  | .createAccount did _ => [⟨did, false⟩]
  | .prepareChild c => [⟨c.child, false⟩]
  | .finalizeChild c => [⟨c.child, false⟩]
  | .deactivateAccount did deleteAfter =>
    changeNotes did (deactivateAccount s.now did deleteAfter s.accounts).1
  | .activateAccount did => changeNotes did (activateAccount did s.accounts).1
  | .deleteChild c =>
    changeNotes c.child
      (deactivateAccount s.now c.child (some (cfg.childDeleteAfter s.now)) s.accounts).1
  | .updateSubjectStatus did applied =>
    match (setAccountTakedown s.now did applied s.accounts).1 with
    | .changed _ => [⟨did, true⟩]
    | _ => []
  | .deleteAccount did => s.purgeNotes cfg did
  | .purgeNext => s.reaping.head?.elim [] (s.purgeNotes cfg)
  | .announce event =>
    [⟨event.did, decide (event = announcementOf event.did (s.row event.did))⟩]
  | _ => []

variable {seen : List Note} {note : Note}

theorem upToDate_append_of_ne {later : List Note} (h : ∀ note ∈ later, note.did ≠ did) :
    upToDate did (seen ++ later) = upToDate did seen := by
  have hNone : (later.filter fun note => decide (note.did = did)) = [] := by
    apply List.filter_eq_nil_iff.mpr
    intro note hNote
    rw [decide_eq_true_eq]
    exact h note hNote
  rw [upToDate, List.filter_append, hNone, List.append_nil, upToDate]

theorem upToDate_append_self {b : Bool} : upToDate did (seen ++ [⟨did, b⟩]) = b := by
  simp [upToDate, List.filter_append]

theorem upToDate_of_mem_late {children : List String} (h : did ∈ children) :
    upToDate did (seen ++ children.map fun child => ⟨child, false⟩) = false := by
  have hFilter : ((children.map fun child => (⟨child, false⟩ : Note)).filter
      fun note => decide (note.did = did)) ≠ [] := by
    apply List.ne_nil_of_mem (a := ⟨did, false⟩)
    simpa using h
  rw [upToDate, List.filter_append, List.getLast?_append_of_ne_nil _ hFilter]
  rw [List.getLast?_eq_some_getLast hFilter]
  have hLast := List.getLast_mem hFilter
  obtain ⟨child, _, hChild⟩ := List.mem_map.mp (List.mem_filter.mp hLast).1
  rw [Option.all_some, ← hChild]

/-! ## What the steps preserve -/

/-- A request that deactivates or activates an account finds it neither suspended nor taken
down. -/
def Unrestricted (s : State) : Action → Prop
  | .deactivateAccount did _ =>
    ∀ row ∈ s.row did, row.deactivatedAt = none → row.restricted = false
  | .deleteChild c => ∀ row ∈ s.row c.child, row.deactivatedAt = none → row.restricted = false
  | .activateAccount did =>
    ∀ row ∈ s.row did, row.deactivatedAt ≠ none → row.restricted = false
  | _ => True

instance (s : State) : ∀ a, Decidable (Unrestricted s a)
  | .deactivateAccount did _ =>
    inferInstanceAs (Decidable (∀ row ∈ s.row did, _ → row.restricted = false))
  | .deleteChild c =>
    inferInstanceAs (Decidable (∀ row ∈ s.row c.child, _ → row.restricted = false))
  | .activateAccount did =>
    inferInstanceAs (Decidable (∀ row ∈ s.row did, _ → row.restricted = false))
  | .tick | .createAccount .. | .updateSubjectStatus .. | .prepareChild ..
  | .loadPreparedChild .. | .finalizeChild .. | .findChild .. | .deleteAccount .. | .listDue ..
  | .purgeNext | .skipNext | .announce .. | .loseAnnouncement .. => .isTrue trivial

/-- Every account that is up to date is mirrored. -/
def Mirrored (s : State) (seen : List Note) : Prop :=
  ∀ did, upToDate did seen = true → Mirrors s did

/-- A step that concerns one account at most. -/
theorem Mirrored.of_one (h : Mirrored s seen) {later : List Note}
    (hNotes : ∀ note ∈ later, note.did = did)
    (hOthers : ∀ other, other ≠ did → t.row other = s.row other)
    (hEvents : ∀ other, other ≠ did → newest other t.events = newest other s.events)
    (hSelf : upToDate did (seen ++ later) = true → Mirrors t did) :
    Mirrored t (seen ++ later) := by
  intro other hUp
  by_cases hEq : other = did
  · subst hEq
    exact hSelf hUp
  · rw [upToDate_append_of_ne fun note hNote hDid => hEq (hDid.symm.trans (hNotes note hNote))]
      at hUp
    exact (h other hUp).of_eq (hEvents other hEq) (by rw [hOthers other hEq])

theorem Mirrored.of_eq (h : Mirrored s seen) (hRows : t.accounts = s.accounts)
    (hEvents : t.events = s.events) : Mirrored t (seen ++ []) := by
  rw [List.append_nil]
  intro did hUp
  exact (h did hUp).of_eq (by rw [hEvents]) (by rw [State.row, State.row, hRows])

/-- A transition that stages the event that its row then calls for. -/
theorem mirrored_transition {result : AccountStateChange × AccountTable} (h : Mirrored s seen)
    (hDid : event.did = did) (hMissing : result.1 = .notFound → result.2 = s.accounts)
    (hOthers : ∀ other, other ≠ did → result.2.get? other = s.row other)
    (hUnchanged : result.1 = .unchanged →
      announcementOf did (result.2.get? did) = announcementOf did (s.row did))
    (hChanged : result.1 = .changed → announcementOf did (result.2.get? did) = event) :
    Mirrored (s.transition result event) (seen ++ changeNotes did result.1) := by
  have hRow := fun other => @State.row_transition s other result event hMissing
  apply h.of_one
  · intro note hNote
    rw [changeNotes] at hNote
    split at hNote
    · rw [List.mem_singleton.mp hNote]
    · cases hNote
  · intro other hNe
    rw [hRow, hOthers other hNe]
  · intro other hNe
    rw [State.transition]
    split
    · rfl
    · rfl
    · exact newest_append_of_ne (hDid ▸ hNe.symm)
  · intro hUp
    rw [changeNotes] at hUp
    cases hChange : result.1 with
    | notFound =>
      rw [hChange] at hUp
      rw [if_neg (by decide), List.append_nil] at hUp
      apply (h did hUp).of_eq
      · rw [State.transition, hChange]
      · rw [hRow, hMissing hChange]
        rfl
    | unchanged =>
      rw [hChange] at hUp
      rw [if_neg (by decide), List.append_nil] at hUp
      apply (h did hUp).of_eq
      · rw [State.transition, hChange]
      · rw [hRow, hUnchanged hChange]
    | changed =>
      apply mirrors_of_staged
      rw [hRow, hChanged hChange, State.transition, hChange]

theorem announcementOf_refreshed {deleteAfter : Option String}
    (hDeactivated : row.deactivatedAt ≠ none) :
    announcementOf did (some (row.deactivate s.now deleteAfter)) =
      announcementOf did (some row) := by
  obtain ⟨since, hSince⟩ := Option.ne_none_iff_exists'.mp hDeactivated
  simp [announcementOf, AccountRow.lifecycle, AccountRow.deactivate, hSince]

theorem mirrored_deactivate {deleteAfter : Option String} {deleting : List ChildOf}
    (h : Mirrored s seen)
    (hUnrestricted : ∀ row ∈ s.row did, row.deactivatedAt = none → row.restricted = false) :
    Mirrored
      ({ s with deleting := deleting }.transition
        (deactivateAccount s.now did deleteAfter s.accounts) (deactivated did))
      (seen ++ changeNotes did (deactivateAccount s.now did deleteAfter s.accounts).1) := by
  have h' : Mirrored { s with deleting := deleting } seen := fun did hUp =>
    (h did hUp).of_eq rfl rfl
  have hChange := @deactivateAccount_changed s.now did deleteAfter s.accounts
  have hDid : (deactivated did).did = did := rfl
  apply mirrored_transition h' hDid
  · rw [deactivateAccount]
    split
    · exact fun _ => rfl
    · split
      · rintro ⟨⟩
      · rintro ⟨⟩
  · intro other hNe
    rw [get?_deactivateAccount, if_neg hNe.symm]
    rfl
  · intro hUnchanged
    rw [get?_deactivateAccount, if_pos rfl]
    change announcementOf did ((s.row did).map _) = announcementOf did (s.row did)
    cases hRow : s.row did with
    | none => rfl
    | some row =>
      apply announcementOf_refreshed
      intro hActive
      have hChanged := hChange.mpr ⟨row, hRow, hActive⟩
      rw [hChanged] at hUnchanged
      cases hUnchanged
  · intro hChanged
    obtain ⟨row, hRow, hActive⟩ := hChange.mp hChanged
    rw [get?_deactivateAccount, if_pos rfl, hRow, Option.map_some]
    apply announcementOf_deactivated
    · rw [AccountRow.deactivate_restricted]
      exact hUnrestricted row hRow hActive
    · exact AccountRow.deactivate_deactivatedAt

theorem mirrored_activate (h : Mirrored s seen)
    (hUnrestricted : ∀ row ∈ s.row did, row.deactivatedAt ≠ none → row.restricted = false) :
    Mirrored (s.transition (activateAccount did s.accounts) (activated did))
      (seen ++ changeNotes did (activateAccount did s.accounts).1) := by
  have hChange := @activateAccount_changed did s.accounts
  have hDid : (activated did).did = did := rfl
  apply mirrored_transition h hDid
  · rw [activateAccount]
    split
    · exact fun _ => rfl
    · split
      · rintro ⟨⟩
      · rintro ⟨⟩
  · intro other hNe
    rw [get?_activateAccount, if_neg hNe.symm]
    rfl
  · intro hUnchanged
    rw [get?_activateAccount, if_pos rfl]
    change announcementOf did ((s.row did).map _) = announcementOf did (s.row did)
    cases hRow : s.row did with
    | none => rfl
    | some row =>
      have hActive : row.deactivatedAt = none := by
        by_contra hDeactivated
        rw [hChange.mpr ⟨row, hRow, hDeactivated⟩] at hUnchanged
        cases hUnchanged
      rw [Option.map_some, AccountRow.activate, hActive]
  · intro hChanged
    obtain ⟨row, hRow, hDeactivated⟩ := hChange.mp hChanged
    have hFree := hUnrestricted row hRow hDeactivated
    obtain ⟨since, hSince⟩ := Option.ne_none_iff_exists'.mp hDeactivated
    rw [get?_activateAccount, if_pos rfl, hRow, Option.map_some, AccountRow.activate, hSince]
    exact announcementOf_active hFree rfl

theorem mirrored_takedown {applied : Bool} (h : Mirrored s seen)
    (hStep : Machine.step cfg s (.updateSubjectStatus did applied) = some t) :
    Mirrored t (seen ++ notes cfg s (.updateSubjectStatus did applied)) := by
  have hRow := fun other => @get?_setAccountTakedown s.now did other applied s.accounts
  simp only [Machine.step] at hStep
  rw [notes]
  split at hStep
  · cases hStep
  · rename_i lifecycle hUnchanged
    cases hStep
    rw [hUnchanged]
    exact h.of_eq (setAccountTakedown_unchanged hUnchanged) rfl
  · rename_i lifecycle hChanged
    cases hStep
    rw [hChanged]
    apply h.of_one
    · intro note hNote
      rw [List.mem_singleton.mp hNote]
    · intro other hNe
      rw [State.row, hRow, if_neg hNe.symm]
      rfl
    · intro other hNe
      exact newest_append_of_ne hNe.symm
    · intro _
      obtain ⟨row, hFound, rfl⟩ := setAccountTakedown_changed hChanged
      apply mirrors_of_staged
      rw [State.row, hFound]
      rfl

/-- A purge stages the end of its account, and leaves to later announcements the children that
it has deactivated. -/
theorem mirrored_purgeAccount (h : Mirrored s seen) :
    Mirrored (s.purgeAccount cfg did) (seen ++ s.purgeNotes cfg did) := by
  cases hRow : s.row did with
  | none =>
    rw [State.purgeAccount, State.purgeNotes, hRow]
    exact h.of_eq rfl rfl
  | some row =>
    have hHeld : s.row did ≠ none := by
      rw [hRow]
      exact Option.some_ne_none row
    have hRows := fun other => @State.row_purgeAccount s cfg did other
    have hEvents : (s.purgeAccount cfg did).events = s.events ++ [deleted did] := by
      rw [State.purgeAccount, hRow]
    have hNotes : s.purgeNotes cfg did =
        (deactivateChildren s.now (cfg.childDeleteAfter s.now) (s.childrenOf did)
          s.accounts).1.map (fun child => ⟨child, false⟩) ++ [⟨did, true⟩] := by
      rw [State.purgeNotes, hRow]
    intro other hUp
    by_cases hEq : did = other
    · subst hEq
      refine @mirrors_of_staged s _ did ?_
      rw [hEvents, hRows, if_neg hHeld, if_pos rfl]
      rfl
    · rw [hNotes, ← List.append_assoc, upToDate_append_of_ne (by simpa using hEq)] at hUp
      have hNewest : newest other (s.purgeAccount cfg did).events = newest other s.events := by
        rw [hEvents]
        exact newest_append_of_ne hEq
      have hQuiet : other ∉ (deactivateChildren s.now (cfg.childDeleteAfter s.now)
          (s.childrenOf did) s.accounts).1 := by
        intro hMem
        rw [upToDate_of_mem_late hMem] at hUp
        cases hUp
      rw [upToDate_append_of_ne (by
        intro note hNote
        obtain ⟨child, hChild, rfl⟩ := List.mem_map.mp hNote
        exact fun hEq => hQuiet (hEq ▸ hChild))] at hUp
      apply (h other hUp).of_eq hNewest
      rw [hRows, if_neg hHeld, if_neg hEq]
      split
      · rename_i hChild
        cases hOther : s.row other with
        | none => rfl
        | some row =>
          apply announcementOf_refreshed
          -- a child that was active is one of the late ones
          intro hActive
          exact hQuiet (mem_deactivateChildren.mpr ⟨hChild, row, hOther, hActive⟩)
      · rfl

/-- A change of one row that stores no event yet. -/
theorem mirrored_late (h : Mirrored s seen)
    (hOthers : ∀ other, other ≠ did → t.row other = s.row other)
    (hEvents : t.events = s.events) : Mirrored t (seen ++ [⟨did, false⟩]) := by
  apply h.of_one
  · intro note hNote
    rw [List.mem_singleton.mp hNote]
  · exact hOthers
  · intro other _
    rw [hEvents]
  · intro hUp
    rw [upToDate_append_self] at hUp
    cases hUp

theorem mirrored_announce (h : Mirrored s seen) (hRows : t.accounts = s.accounts)
    (hEvents : t.events = s.events ++ [event]) :
    Mirrored t
      (seen ++ [⟨event.did, decide (event = announcementOf event.did (s.row event.did))⟩]) := by
  have hRow : ∀ other, t.row other = s.row other := by
    intro other
    rw [State.row, State.row, hRows]
  apply h.of_one
  · intro note hNote
    rw [List.mem_singleton.mp hNote]
  · exact fun other _ => hRow other
  · intro other hNe
    rw [hEvents, newest_append_of_ne hNe.symm]
  · intro hUp
    rw [upToDate_append_self, decide_eq_true_eq] at hUp
    refine @mirrors_of_staged s _ _ ?_
    rw [hRow, ← hUp, hEvents]

theorem mirrored_step (s : State) (a : Action) (t : State) (seen : List Note)
    (h : Mirrored s seen) (hUnrestricted : Unrestricted s a)
    (hStep : Machine.step cfg s a = some t) : Mirrored t (seen ++ notes cfg s a) := by
  cases a with
  | tick =>
    cases hStep
    exact h.of_eq rfl rfl
  | createAccount did isDeactivated =>
    obtain ⟨_, hEq⟩ := Option.ite_none_right_eq_some.mp hStep
    cases hEq
    refine mirrored_late h ?_ rfl
    intro other hNe
    rw [State.row, SortedMap.get?_set, if_neg hNe.symm]
    rfl
  | deactivateAccount did deleteAfter =>
    cases hStep
    exact @mirrored_deactivate s did seen deleteAfter s.deleting h hUnrestricted
  | activateAccount did =>
    cases hStep
    exact mirrored_activate h hUnrestricted
  | updateSubjectStatus did applied => exact mirrored_takedown h hStep
  | prepareChild c =>
    obtain ⟨_, hEq⟩ := Option.ite_none_right_eq_some.mp hStep
    cases hEq
    refine mirrored_late h ?_ rfl
    intro other hNe
    rw [State.row, SortedMap.get?_set, if_neg hNe.symm]
    rfl
  | loadPreparedChild c =>
    obtain ⟨_, hEq⟩ := Option.ite_none_right_eq_some.mp hStep
    cases hEq
    exact h.of_eq rfl rfl
  | finalizeChild c =>
    obtain ⟨_, hEq⟩ := Option.ite_none_right_eq_some.mp hStep
    cases hEq
    refine mirrored_late h ?_ rfl
    intro other hNe
    rw [State.row_finalize, if_neg hNe.symm]
  | findChild c =>
    obtain ⟨_, hEq⟩ := Option.ite_none_right_eq_some.mp hStep
    cases hEq
    exact h.of_eq rfl rfl
  | deleteChild c =>
    obtain ⟨_, hEq⟩ := Option.ite_none_right_eq_some.mp hStep
    cases hEq
    exact mirrored_deactivate h hUnrestricted
  | deleteAccount did =>
    cases hStep
    exact mirrored_purgeAccount h
  | listDue dids =>
    obtain ⟨_, hEq⟩ := Option.ite_none_right_eq_some.mp hStep
    cases hEq
    exact h.of_eq rfl rfl
  | purgeNext =>
    rw [Machine.step] at hStep
    split at hStep
    · cases hStep
    · rename_i did rest hReaping
      cases hStep
      have hRest : Mirrored { s with reaping := rest } seen := fun did hUp =>
        (h did hUp).of_eq rfl rfl
      rw [notes, hReaping]
      exact mirrored_purgeAccount hRest
  | skipNext =>
    rw [Machine.step] at hStep
    split at hStep
    · cases hStep
    · cases hStep
      exact h.of_eq rfl rfl
  | announce event =>
    obtain ⟨_, hEq⟩ := Option.ite_none_right_eq_some.mp hStep
    cases hEq
    exact mirrored_announce h rfl rfl
  | loseAnnouncement event =>
    obtain ⟨_, hEq⟩ := Option.ite_none_right_eq_some.mp hStep
    cases hEq
    exact h.of_eq rfl rfl

/-- Over every run in which no request deactivates or activates an account that is suspended or
taken down, the last stored event of an account, if it has one, is the one that its lifecycle
calls for, unless the last change or event of the account in the run came after a commit. -/
theorem newest_mirrors {as : List Action} (hMirrors : ∀ did, Mirrors s did)
    (hUnrestricted : Along (Machine.step cfg) Unrestricted s as)
    (hRun : run (Machine.step cfg) s as = some t) (did : String)
    (hUpToDate : upToDate did (observed (Machine.step cfg) (notes cfg) s as) = true) :
    Mirrors t did := by
  have hStart : Mirrored s [] := fun did _ => hMirrors did
  have hEnd := run_invariant_observed mirrored_step hStart hUnrestricted hRun
  exact hEnd did hUpToDate

/-! ## A purged parent -/

def mintedChild : ChildOf := ⟨"did:plc:kid", "did:plc:mum"⟩

/-- A child is minted and announced, and its parent is deleted. -/
def orphaning : List Action :=
  [.createAccount "did:plc:mum" false, .prepareChild mintedChild,
    .loadPreparedChild mintedChild, .finalizeChild mintedChild,
    .announce (activated "did:plc:kid"), .deleteAccount "did:plc:mum"]

theorem newest_mirrors_orphaning :
    ∃ t, run (Machine.step sampleConfig) emptyState orphaning = some t ∧
      Mirrors t "did:plc:mum" := by
  have hRun : (run (Machine.step sampleConfig) emptyState orphaning).isSome = true := by
    decide +kernel
  have hUnrestricted : Along (Machine.step sampleConfig) Unrestricted emptyState orphaning := by
    decide +kernel
  have hUpToDate : upToDate "did:plc:mum"
      (observed (Machine.step sampleConfig) (notes sampleConfig) emptyState orphaning) = true := by
    decide +kernel
  have hMirrors : ∀ did, Mirrors emptyState did := fun _ => nofun
  obtain ⟨t, ht⟩ := Option.isSome_iff_exists.mp hRun
  exact ⟨t, ht, newest_mirrors hMirrors hUnrestricted ht "did:plc:mum" hUpToDate⟩

/-- The child is deactivated and not announced as such: the firehose still calls it active. -/
theorem cascade_unannounced :
    (run (Machine.step sampleConfig) emptyState orphaning).any (fun s =>
      newest "did:plc:kid" s.events = some (activated "did:plc:kid") ∧
        announcementOf "did:plc:kid" (s.row "did:plc:kid") = deactivated "did:plc:kid" ∧
        ¬ Mirrors s "did:plc:kid") = true := by
  decide +kernel

end Ezpds.Accounts
