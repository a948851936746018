import Ezpds.Library.LastWins
import Ezpds.Library.SortedSet
import Mathlib

/-!
# Labels of watched labelers

A labeler's events are reduced to the labels that are in force: of the events on an account and
a value the latest counts. The difference to what is stored is then written to the table.

* `mem_activeLabels`: what a label in force comes from.
* `TiesAgree.settled`, `LabelsSettled.tiesAgree`: the reduction forgets the order of the events exactly
  when the latest events on an account and a value are in force together.
* `diffLabels_exact`: the difference leads to the labels in force, and is empty afterwards.
* `labelsForLabeler_reconcile`: the statements on the table do what the difference says.
-/

namespace Ezpds.Pds

open Library

structure LabelEvent where
  src : String
  uri : String
  val : String
  cts : String
  neg : Bool
  exp : Option String
  deriving DecidableEq

structure ActiveLabel where
  did : String
  val : String
  cts : String
  deriving DecidableEq

def LabelEvent.key (e : LabelEvent) : String × String := (e.uri, e.val)

def ActiveLabel.key (l : ActiveLabel) : String × String := (l.did, l.val)

def ActiveLabel.ofEvent (e : LabelEvent) : ActiveLabel := ⟨e.uri, e.val, e.cts⟩

section Model

-- `parse_ts`: an RFC 3339 text as an instant
variable (parseTs : String → Option Int)

/-- The labeler's events on accounts, of the watched values. -/
def relevantEvents (labelerDid : String) (watchlist : List String) (events : List LabelEvent) :
    List LabelEvent :=
  ((events.filter fun e => e.src == labelerDid).filter fun e =>
    "did:".toList.isPrefixOf e.uri.toList).filter fun e =>
      watchlist.isEmpty || watchlist.any (· == e.val)

/-- What the events are sorted by: the instant, and then the text. A text that is no instant
comes first. -/
def eventOrder (e : LabelEvent) : WithBot Int ×ₗ String :=
  toLex ((parseTs e.cts : Option Int), e.cts)

def inForce (now : Int) (e : LabelEvent) : Bool :=
  !e.neg && match e.exp.bind parseTs with
    | some exp => exp > now
    | none => true

def activeLabels (events : List LabelEvent) (labelerDid : String) (watchlist : List String)
    (now : Int) : List ActiveLabel :=
  let relevant := (relevantEvents labelerDid watchlist events).mergeSort fun a b =>
    eventOrder parseTs a ≤ eventOrder parseTs b
  let last := lastWins LabelEvent.key [] relevant
  let active := (last.filter (inForce parseTs now)).map ActiveLabel.ofEvent
  active.mergeSort fun a b => toLex a.key ≤ toLex b.key

structure LabelDiff where
  upserts : List ActiveLabel
  newFlags : List ActiveLabel
  removals : List (String × String)
  deriving DecidableEq

def diffLabels (desired stored : List ActiveLabel) : LabelDiff :=
  let storedByKey (key : String × String) : Option String :=
    ((lastWins ActiveLabel.key [] stored).find? fun l => l.key = key).map ActiveLabel.cts
  let upserts := desired.filter fun l => storedByKey l.key ≠ some l.cts
  { upserts
    newFlags := upserts.filter fun l => (storedByKey l.key).isNone
    removals := (stored.filter fun l => !(desired.any fun d => d.key = l.key)).map
      ActiveLabel.key }

/-! ## The labels in force -/

variable {parseTs} {events events' : List LabelEvent} {labelerDid : String}
  {watchlist : List String} {now : Int} {e e' : LabelEvent} {l : ActiveLabel}

/-- No relevant event on its account and value is later. -/
def IsLatest (parseTs : String → Option Int) (relevant : List LabelEvent) (e : LabelEvent) :
    Prop :=
  e ∈ relevant ∧ ∀ e' ∈ relevant, e'.key = e.key → eventOrder parseTs e' ≤ eventOrder parseTs e

theorem relevantEvents_perm (h : events.Perm events') :
    (relevantEvents labelerDid watchlist events).Perm
      (relevantEvents labelerDid watchlist events') :=
  ((h.filter _).filter _).filter _

/-- Only the texts of events that tie are equal, but then the labels are. -/
theorem ofEvent_congr (hKey : e.key = e'.key)
    (hOrder : eventOrder parseTs e = eventOrder parseTs e') :
    ActiveLabel.ofEvent e = ActiveLabel.ofEvent e' := by
  have hPair : ((parseTs e.cts : Option Int), e.cts) = (parseTs e'.cts, e'.cts) :=
    toLex_inj.mp hOrder
  cases e
  cases e'
  cases hKey
  cases (Prod.ext_iff.mp hPair).2
  rfl

theorem key_ofEvent (e : LabelEvent) : (ActiveLabel.ofEvent e).key = e.key := rfl

def sortedEvents (parseTs : String → Option Int) (relevant : List LabelEvent) :
    List LabelEvent :=
  relevant.mergeSort fun a b => eventOrder parseTs a ≤ eventOrder parseTs b

theorem pairwise_sortedEvents (relevant : List LabelEvent) :
    (sortedEvents parseTs relevant).Pairwise fun a b =>
      eventOrder parseTs a ≤ eventOrder parseTs b :=
  pairwise_sortBy _ _

/-- The label comes from the event that is put into the map last. -/
theorem mem_activeLabels :
    l ∈ activeLabels parseTs events labelerDid watchlist now ↔
      ∃ e before after, sortedEvents parseTs (relevantEvents labelerDid watchlist events) =
          before ++ e :: after ∧ (∀ e' ∈ after, e'.key ≠ e.key) ∧
        inForce parseTs now e = true ∧ l = ActiveLabel.ofEvent e := by
  unfold activeLabels
  simp only [List.mem_mergeSort, List.mem_map, List.mem_filter, mem_lastWins, List.not_mem_nil,
    false_and, false_or]
  constructor
  · rintro ⟨e, ⟨⟨before, after, hSplit, hAfter⟩, hForce⟩, rfl⟩
    exact ⟨e, before, after, hSplit, hAfter, hForce, rfl⟩
  · rintro ⟨e, before, after, hSplit, hAfter, hForce, rfl⟩
    exact ⟨e, ⟨⟨before, after, hSplit, hAfter⟩, hForce⟩, rfl⟩

/-- The last event of a sorted list on its account and value is a latest one. -/
theorem isLatest_of_last {relevant before after : List LabelEvent}
    (hSplit : sortedEvents parseTs relevant = before ++ e :: after)
    (hAfter : ∀ e' ∈ after, e'.key ≠ e.key) : IsLatest parseTs relevant e := by
  have hSorted := @pairwise_sortedEvents parseTs relevant
  have hMem : ∀ a, a ∈ relevant ↔ a ∈ before ++ e :: after := by
    intro a
    rw [← hSplit, sortedEvents, List.mem_mergeSort]
  refine ⟨(hMem e).mpr (by simp), ?_⟩
  intro e' hMem' hKey
  rw [hSplit, List.pairwise_append] at hSorted
  rcases List.mem_append.mp ((hMem e').mp hMem') with hBefore | hRest
  · exact hSorted.2.2 e' hBefore e List.mem_cons_self
  · rcases List.mem_cons.mp hRest with rfl | hRest
    · exact le_refl _
    · exact absurd hKey (hAfter e' hRest)

/-- The latest events on an account and a value are in force together. -/
def TiesAgree (parseTs : String → Option Int) (events : List LabelEvent) (labelerDid : String)
    (watchlist : List String) (now : Int) : Prop :=
  ∀ e e', IsLatest parseTs (relevantEvents labelerDid watchlist events) e →
    IsLatest parseTs (relevantEvents labelerDid watchlist events) e' → e.key = e'.key →
    inForce parseTs now e = inForce parseTs now e'

/-- The labels in force do not depend on the order of the events: they are those of the latest
events that are in force. -/
structure LabelsSettled (parseTs : String → Option Int) (events : List LabelEvent)
    (labelerDid : String) (watchlist : List String) (now : Int) : Prop where
  same : ∀ events', events'.Perm events → activeLabels parseTs events' labelerDid watchlist now =
    activeLabels parseTs events labelerDid watchlist now
  latest : ∀ l, l ∈ activeLabels parseTs events labelerDid watchlist now ↔
    ∃ e, IsLatest parseTs (relevantEvents labelerDid watchlist events) e ∧
      inForce parseTs now e = true ∧ l = ActiveLabel.ofEvent e

theorem isLatest_perm {relevant relevant' : List LabelEvent} (h : relevant.Perm relevant') :
    IsLatest parseTs relevant e ↔ IsLatest parseTs relevant' e := by
  simp only [IsLatest, h.mem_iff]

theorem eventOrder_latest {relevant : List LabelEvent} (h : IsLatest parseTs relevant e)
    (h' : IsLatest parseTs relevant e') (hKey : e.key = e'.key) :
    eventOrder parseTs e = eventOrder parseTs e' :=
  le_antisymm (h'.2 e h.1 hKey) (h.2 e' h'.1 hKey.symm)

theorem TiesAgree.perm (h : TiesAgree parseTs events labelerDid watchlist now)
    (hPerm : events'.Perm events) : TiesAgree parseTs events' labelerDid watchlist now := by
  intro e e' hLatest hLatest' hKey
  rw [isLatest_perm (relevantEvents_perm hPerm)] at hLatest hLatest'
  exact h e e' hLatest hLatest' hKey

theorem TiesAgree.mem_activeLabels (h : TiesAgree parseTs events labelerDid watchlist now) :
    l ∈ activeLabels parseTs events labelerDid watchlist now ↔
      ∃ e, IsLatest parseTs (relevantEvents labelerDid watchlist events) e ∧
        inForce parseTs now e = true ∧ l = ActiveLabel.ofEvent e := by
  rw [Pds.mem_activeLabels]
  constructor
  · rintro ⟨e, before, after, hSplit, hAfter, hForce, rfl⟩
    exact ⟨e, isLatest_of_last hSplit hAfter, hForce, rfl⟩
  · rintro ⟨e, hLatest, hForce, rfl⟩
    have hMem : e ∈ sortedEvents parseTs (relevantEvents labelerDid watchlist events) :=
      List.mem_mergeSort.mpr hLatest.1
    obtain ⟨d, before, after, hSplit, hKey, hAfter⟩ :=
      @exists_last _ _ _ LabelEvent.key _ _ hMem
    rw [← hKey] at hAfter
    have hLast := isLatest_of_last hSplit hAfter
    refine ⟨d, before, after, hSplit, hAfter, ?_, ?_⟩
    · rw [← h e d hLatest hLast hKey.symm, hForce]
    · exact ofEvent_congr hKey.symm (eventOrder_latest hLatest hLast hKey.symm)

theorem keyed_activeLabels :
    Keyed ActiveLabel.key (activeLabels parseTs events labelerDid watchlist now) := by
  unfold activeLabels
  dsimp only
  refine (List.Perm.nodup_iff ((List.mergeSort_perm _ _).map _)).mpr ?_
  rw [List.map_map]
  exact List.Nodup.sublist (List.filter_sublist.map _) (keyed_lastWins Keyed.nil)

theorem pairwise_activeLabels :
    (activeLabels parseTs events labelerDid watchlist now).Pairwise
      fun a b => toLex a.key ≤ toLex b.key :=
  pairwise_sortBy _ _

/-- Labels with the same members are in the same order. -/
theorem activeLabels_congr (h : ∀ l, l ∈ activeLabels parseTs events' labelerDid watchlist now ↔
      l ∈ activeLabels parseTs events labelerDid watchlist now) :
    activeLabels parseTs events' labelerDid watchlist now =
      activeLabels parseTs events labelerDid watchlist now := by
  have hKeyed := @keyed_activeLabels parseTs events labelerDid watchlist now
  have hKeyed' := @keyed_activeLabels parseTs events' labelerDid watchlist now
  have hPerm := (List.perm_ext_iff_of_nodup (List.Nodup.of_map _ hKeyed')
    (List.Nodup.of_map _ hKeyed)).mpr h
  refine hPerm.eq_of_pairwise ?_ pairwise_activeLabels pairwise_activeLabels
  intro a b ha hb hab hba
  exact hKeyed.eq_of_key ((h a).mp ha) hb (toLex_inj.mp (le_antisymm hab hba))

theorem TiesAgree.settled (h : TiesAgree parseTs events labelerDid watchlist now) :
    LabelsSettled parseTs events labelerDid watchlist now where
  same events' hPerm := by
    apply activeLabels_congr
    intro l
    rw [h.mem_activeLabels, (h.perm hPerm).mem_activeLabels]
    simp only [isLatest_perm (relevantEvents_perm hPerm)]
  latest l := h.mem_activeLabels

/-- The events with one of the latest put behind all that tie with it. -/
def putLast (parseTs : String → Option Int) (events : List LabelEvent) (e : LabelEvent) :
    List LabelEvent :=
  let sorted := sortedEvents parseTs (events.erase e)
  (sorted.filter fun a => eventOrder parseTs a ≤ eventOrder parseTs e) ++
    e :: sorted.filter fun a => ¬ eventOrder parseTs a ≤ eventOrder parseTs e

theorem putLast_perm (h : e ∈ events) : (putLast parseTs events e).Perm events := by
  have hSorted : (sortedEvents parseTs (events.erase e)).Perm (events.erase e) :=
    List.mergeSort_perm _ _
  have hFilter := List.filter_append_perm (fun a => decide (eventOrder parseTs a ≤
    eventOrder parseTs e)) (sortedEvents parseTs (events.erase e))
  simp only [putLast, decide_not]
  exact (List.perm_middle.trans ((hFilter.trans hSorted).cons e)).trans
    (List.perm_cons_erase h).symm

theorem pairwise_putLast : (putLast parseTs events e).Pairwise fun a b =>
    eventOrder parseTs a ≤ eventOrder parseTs b := by
  have hSorted := @pairwise_sortedEvents parseTs (events.erase e)
  rw [putLast, List.pairwise_append, List.pairwise_cons]
  refine ⟨hSorted.filter _, ⟨?_, hSorted.filter _⟩, ?_⟩
  · intro b hb
    have hOver := (List.mem_filter.mp hb).2
    simp only [decide_eq_true_eq, not_le] at hOver
    exact hOver.le
  · intro a ha b hb
    have hUnder := (List.mem_filter.mp ha).2
    simp only [decide_eq_true_eq] at hUnder
    rcases List.mem_cons.mp hb with rfl | hb
    · exact hUnder
    · have hOver := (List.mem_filter.mp hb).2
      simp only [decide_eq_true_eq, not_le] at hOver
      exact hUnder.trans hOver.le

/-- A latest event that is put last decides. -/
theorem not_mem_activeLabels_putLast
    (hLatest : IsLatest parseTs (relevantEvents labelerDid watchlist events) e)
    (hMem : e ∈ events) (hForce : inForce parseTs now e = false) (hKey : l.key = e.key) :
    l ∉ activeLabels parseTs (putLast parseTs events e) labelerDid watchlist now := by
  rw [Pds.mem_activeLabels]
  rintro ⟨d, before, after, hSplit, hAfter, hForce', rfl⟩
  have hSorted : sortedEvents parseTs
      (relevantEvents labelerDid watchlist (putLast parseTs events e)) =
        relevantEvents labelerDid watchlist (putLast parseTs events e) := by
    apply List.mergeSort_of_pairwise
    simp only [decide_eq_true_eq]
    exact ((pairwise_putLast.filter _).filter _).filter _
  have hCut : relevantEvents labelerDid watchlist (putLast parseTs events e) =
      relevantEvents labelerDid watchlist ((sortedEvents parseTs (events.erase e)).filter fun a =>
        eventOrder parseTs a ≤ eventOrder parseTs e) ++
      e :: relevantEvents labelerDid watchlist ((sortedEvents parseTs (events.erase e)).filter
        fun a => ¬ eventOrder parseTs a ≤ eventOrder parseTs e) := by
    have hRelevant := hLatest.1
    simp only [relevantEvents, List.mem_filter] at hRelevant
    simp only [relevantEvents, putLast, List.filter_append, List.filter_cons, hRelevant.1.1.2,
      hRelevant.1.2, hRelevant.2, if_true]
  have hLater : ∀ a ∈ relevantEvents labelerDid watchlist
      ((sortedEvents parseTs (events.erase e)).filter
        fun a => ¬ eventOrder parseTs a ≤ eventOrder parseTs e), a.key ≠ e.key := by
    intro a ha hSame
    have hRelevant : a ∈ relevantEvents labelerDid watchlist (putLast parseTs events e) := by
      rw [hCut]
      exact List.mem_append_right _ (List.mem_cons_of_mem _ ha)
    have hLe := hLatest.2 a ((relevantEvents_perm (putLast_perm hMem)).mem_iff.mp hRelevant) hSame
    have hOver := (List.mem_filter.mp (List.mem_filter.mp
      (List.mem_filter.mp (List.mem_filter.mp ha).1).1).1).2
    simp only [decide_eq_true_eq] at hOver
    exact hOver hLe
  -- both are the last of their key, so they are the same event
  have hBoth : ∀ d before after, relevantEvents labelerDid watchlist (putLast parseTs events e) =
      before ++ d :: after → (∀ a ∈ after, a.key ≠ d.key) → d ∈ lastWins LabelEvent.key []
        (relevantEvents labelerDid watchlist (putLast parseTs events e)) :=
    fun d before after hSplit hAfter => mem_lastWins.mpr (.inr ⟨before, after, hSplit, hAfter⟩)
  rw [hSorted] at hSplit
  have hEq := (keyed_lastWins Keyed.nil).eq_of_key (hBoth d before after hSplit hAfter)
    (hBoth e _ _ hCut hLater) hKey
  rw [hEq, hForce] at hForce'
  cases hForce'

theorem LabelsSettled.tiesAgree (h : LabelsSettled parseTs events labelerDid watchlist now) :
    TiesAgree parseTs events labelerDid watchlist now := by
  have hNever : ∀ e e', IsLatest parseTs (relevantEvents labelerDid watchlist events) e →
      IsLatest parseTs (relevantEvents labelerDid watchlist events) e' → e.key = e'.key →
      inForce parseTs now e = true → inForce parseTs now e' ≠ false := by
    intro e e' hLatest hLatest' hKey hForce hNot
    have hMem : e' ∈ events :=
      (List.mem_filter.mp (List.mem_filter.mp (List.mem_filter.mp hLatest'.1).1).1).1
    have hIn := (h.latest (ActiveLabel.ofEvent e)).mpr ⟨e, hLatest, hForce, rfl⟩
    rw [← h.same _ (@putLast_perm parseTs _ _ hMem)] at hIn
    exact not_mem_activeLabels_putLast hLatest' hMem hNot ((key_ofEvent e).trans hKey) hIn
  intro e e' hLatest hLatest' hKey
  cases hForce : inForce parseTs now e with
  | true => simpa using (hNever e e' hLatest hLatest' hKey hForce)
  | false =>
    cases hForce' : inForce parseTs now e' with
    | true => exact absurd hForce (hNever e' e hLatest' hLatest hKey.symm hForce')
    | false => rfl

end Model

/-! ## The difference -/

/-- An upsert, on the labels of one labeler. -/
def upsertLabel (rows : List ActiveLabel) (l : ActiveLabel) : List ActiveLabel :=
  if rows.any fun row => row.key = l.key then
    updateWhere (fun row => row.key = l.key) (fun row => { row with cts := l.cts }) rows
  else rows ++ [l]

def deleteLabel (rows : List ActiveLabel) (key : String × String) : List ActiveLabel :=
  deleteWhere (fun row => row.key = key) rows

/-- The transaction of a pass. -/
def LabelDiff.apply (diff : LabelDiff) (stored : List ActiveLabel) : List ActiveLabel :=
  diff.removals.foldl deleteLabel (diff.upserts.foldl upsertLabel stored)

variable {rows desired stored upserts : List ActiveLabel} {l m : ActiveLabel}

theorem eq_of_key_cts (hKey : l.key = m.key) (hCts : l.cts = m.cts) : l = m := by
  cases l
  cases m
  cases hKey
  cases hCts
  rfl

theorem keyed_upsertLabel (h : Keyed ActiveLabel.key rows) :
    Keyed ActiveLabel.key (upsertLabel rows l) := by
  unfold upsertLabel
  split
  · exact h.updateWhere fun _ => rfl
  · rename_i hFresh
    refine h.append fun old hOld hKey => hFresh ?_
    exact List.any_eq_true.mpr ⟨old, hOld, by simpa using hKey⟩

theorem mem_upsertLabel : m ∈ upsertLabel rows l ↔ (m ∈ rows ∧ m.key ≠ l.key) ∨ m = l := by
  unfold upsertLabel
  split
  · rename_i hTaken
    obtain ⟨old, hOld, hKey⟩ := List.any_eq_true.mp hTaken
    have hKey : old.key = l.key := by simpa using hKey
    rw [mem_updateWhere]
    constructor
    · rintro ⟨row, hRow, rfl⟩
      by_cases hSame : row.key = l.key
      · simp only [hSame, decide_true, if_true]
        exact .inr (eq_of_key_cts hSame rfl)
      · simp only [hSame, decide_false, Bool.false_eq_true, if_false]
        exact .inl ⟨hRow, hSame⟩
    · rintro (⟨hRow, hNe⟩ | rfl)
      · exact ⟨m, hRow, by simp [hNe]⟩
      · refine ⟨old, hOld, ?_⟩
        simp only [hKey, decide_true, if_true]
        exact eq_of_key_cts hKey.symm rfl
  · rename_i hFresh
    rw [List.mem_append, List.mem_singleton]
    constructor
    · rintro (hRow | hNew)
      · refine .inl ⟨hRow, fun hKey => hFresh ?_⟩
        exact List.any_eq_true.mpr ⟨m, hRow, by simpa using hKey⟩
      · exact .inr hNew
    · rintro (⟨hRow, _⟩ | hNew)
      · exact .inl hRow
      · exact .inr hNew

theorem keyed_upserts (h : Keyed ActiveLabel.key rows) :
    Keyed ActiveLabel.key (upserts.foldl upsertLabel rows) := by
  induction upserts generalizing rows with
  | nil => exact h
  | cons l upserts ih => exact ih (keyed_upsertLabel h)

theorem mem_upserts (hKeyed : Keyed ActiveLabel.key upserts) :
    m ∈ upserts.foldl upsertLabel rows ↔
      (m ∈ rows ∧ ∀ l ∈ upserts, l.key ≠ m.key) ∨ m ∈ upserts := by
  induction upserts generalizing rows with
  | nil => simp
  | cons l upserts ih =>
    obtain ⟨hFresh, hRest⟩ := List.nodup_cons.mp hKeyed
    rw [List.foldl_cons, ih hRest, mem_upsertLabel, List.forall_mem_cons, List.mem_cons]
    constructor
    · rintro (⟨⟨hRow, hNe⟩ | rfl, hOthers⟩ | hMem)
      · exact .inl ⟨hRow, hNe.symm, hOthers⟩
      · exact .inr (.inl rfl)
      · exact .inr (.inr hMem)
    · rintro (⟨hRow, hNe, hOthers⟩ | rfl | hMem)
      · exact .inl ⟨.inl ⟨hRow, hNe.symm⟩, hOthers⟩
      · refine .inl ⟨.inr rfl, fun l hl hKey => hFresh ?_⟩
        rw [← hKey]
        exact List.mem_map_of_mem hl
      · exact .inr hMem

theorem mem_removals {keys : List (String × String)} :
    m ∈ keys.foldl deleteLabel rows ↔ m ∈ rows ∧ m.key ∉ keys := by
  induction keys generalizing rows with
  | nil => simp
  | cons key keys ih =>
    rw [List.foldl_cons, ih, deleteLabel, mem_deleteWhere, decide_eq_false_iff_not, List.mem_cons,
      not_or, and_assoc]

theorem keyed_removals {keys : List (String × String)} (h : Keyed ActiveLabel.key rows) :
    Keyed ActiveLabel.key (keys.foldl deleteLabel rows) := by
  induction keys generalizing rows with
  | nil => exact h
  | cons key keys ih => exact ih h.deleteWhere

theorem LabelDiff.keyed_apply {diff : LabelDiff} (h : Keyed ActiveLabel.key stored) :
    Keyed ActiveLabel.key (diff.apply stored) :=
  keyed_removals (keyed_upserts h)

/-- What the map of the stored labels answers. -/
theorem storedByKey_eq (h : Keyed ActiveLabel.key stored) {key : String × String}
    {cts : String} :
    ((lastWins ActiveLabel.key [] stored).find? fun l => l.key = key).map ActiveLabel.cts =
      some cts ↔ ∃ l ∈ stored, l.key = key ∧ l.cts = cts := by
  have hMem : ∀ l, l ∈ lastWins ActiveLabel.key [] stored ↔ l ∈ stored := by
    intro l
    rw [mem_lastWins]
    constructor
    · rintro (⟨hNil, _⟩ | ⟨before, after, rfl, _⟩)
      · cases hNil
      · simp
    · intro hStored
      obtain ⟨d, before, after, hSplit, hKey, hAfter⟩ :=
        @exists_last _ _ _ ActiveLabel.key _ _ hStored
      have hEq := h.eq_of_key (hSplit ▸ (by simp : d ∈ before ++ d :: after)) hStored hKey
      rw [hEq] at hSplit
      exact .inr ⟨before, after, hSplit, hAfter⟩
  rw [Option.map_eq_some_iff]
  constructor
  · rintro ⟨l, hFind, hCts⟩
    have hKey := List.find?_some hFind
    exact ⟨l, (hMem l).mp (List.mem_of_find?_eq_some hFind), by simpa using hKey, hCts⟩
  · rintro ⟨l, hStored, rfl, hCts⟩
    refine ⟨l, ?_, hCts⟩
    refine (keyed_lastWins Keyed.nil).find?_eq ((hMem l).mpr hStored) (by simp) ?_
    intro other hOther
    simpa using hOther

theorem mem_diffLabels_upserts (h : Keyed ActiveLabel.key stored) :
    l ∈ (diffLabels desired stored).upserts ↔ l ∈ desired ∧ l ∉ stored := by
  unfold diffLabels
  rw [List.mem_filter, decide_eq_true_eq, ne_eq, storedByKey_eq h]
  refine and_congr_right fun _ => not_congr ⟨?_, fun hStored => ⟨l, hStored, rfl, rfl⟩⟩
  rintro ⟨row, hRow, hKey, hCts⟩
  rwa [← eq_of_key_cts hKey hCts]

theorem mem_diffLabels_removals {key : String × String} :
    key ∈ (diffLabels desired stored).removals ↔
      (∃ l ∈ stored, l.key = key) ∧ ∀ d ∈ desired, d.key ≠ key := by
  unfold diffLabels
  simp only [List.mem_map, List.mem_filter, Bool.not_eq_true', List.any_eq_false,
    decide_eq_true_eq]
  constructor
  · rintro ⟨l, ⟨hStored, hGone⟩, rfl⟩
    exact ⟨⟨l, hStored, rfl⟩, hGone⟩
  · rintro ⟨⟨l, hStored, rfl⟩, hGone⟩
    exact ⟨l, ⟨hStored, hGone⟩, rfl⟩

theorem mem_diffLabels_newFlags (h : Keyed ActiveLabel.key stored) :
    l ∈ (diffLabels desired stored).newFlags ↔
      l ∈ desired ∧ ∀ row ∈ stored, row.key ≠ l.key := by
  have hUpsert := @mem_diffLabels_upserts desired stored l h
  unfold diffLabels at hUpsert ⊢
  rw [List.mem_filter, hUpsert, Option.isNone_iff_eq_none, Option.eq_none_iff_forall_ne_some]
  constructor
  · rintro ⟨⟨hDesired, _⟩, hNone⟩
    refine ⟨hDesired, fun row hRow hKey => hNone row.cts ?_⟩
    exact (storedByKey_eq h).mpr ⟨row, hRow, hKey, rfl⟩
  · rintro ⟨hDesired, hFresh⟩
    refine ⟨⟨hDesired, fun hStored => hFresh l hStored rfl⟩, fun cts hSome => ?_⟩
    obtain ⟨row, hRow, hKey, _⟩ := (storedByKey_eq h).mp hSome
    exact hFresh row hRow hKey

theorem mem_apply_diffLabels (hDesired : Keyed ActiveLabel.key desired)
    (hStored : Keyed ActiveLabel.key stored) :
    l ∈ (diffLabels desired stored).apply stored ↔ l ∈ desired := by
  have hUpserts : Keyed ActiveLabel.key (diffLabels desired stored).upserts :=
    List.Nodup.sublist (List.filter_sublist.map _) hDesired
  rw [LabelDiff.apply, mem_removals, mem_upserts hUpserts, mem_diffLabels_removals,
    mem_diffLabels_upserts hStored]
  constructor
  · rintro ⟨⟨hRow, hKept⟩ | ⟨hMem, _⟩, hNot⟩
    · -- a stored label that is kept has a desired one on its key, which is not an upsert
      have hWanted : ∃ d ∈ desired, d.key = l.key := by
        by_contra hNone
        exact hNot ⟨⟨l, hRow, rfl⟩, fun d hd hKey => hNone ⟨d, hd, hKey⟩⟩
      obtain ⟨d, hd, hKey⟩ := hWanted
      have hSame : d ∈ stored := by
        by_contra hFresh
        exact hKept d ((mem_diffLabels_upserts hStored).mpr ⟨hd, hFresh⟩) hKey
      rwa [← hStored.eq_of_key hSame hRow hKey]
    · exact hMem
  · intro hMem
    refine ⟨?_, fun h => h.2 l hMem rfl⟩
    by_cases hOld : l ∈ stored
    · refine .inl ⟨hOld, fun u hu hKey => ?_⟩
      obtain ⟨hu, hFresh⟩ := (mem_diffLabels_upserts hStored).mp hu
      rw [hDesired.eq_of_key hu hMem hKey] at hFresh
      exact hFresh hOld
    · exact .inr ⟨hMem, hOld⟩

/-- Labels that are stored as desired need no statement. -/
theorem diffLabels_of_same (hStored : Keyed ActiveLabel.key stored)
    (h : ∀ l, l ∈ stored ↔ l ∈ desired) : diffLabels desired stored = ⟨[], [], []⟩ := by
  have hUpserts : (diffLabels desired stored).upserts = [] := by
    apply List.eq_nil_iff_forall_not_mem.mpr
    intro l hl
    obtain ⟨hDesired, hFresh⟩ := (mem_diffLabels_upserts hStored).mp hl
    exact hFresh ((h l).mpr hDesired)
  have hNew : (diffLabels desired stored).newFlags = [] := by
    apply List.eq_nil_iff_forall_not_mem.mpr
    intro l hl
    obtain ⟨hDesired, hFresh⟩ := (mem_diffLabels_newFlags hStored).mp hl
    exact hFresh l ((h l).mpr hDesired) rfl
  have hRemovals : (diffLabels desired stored).removals = [] := by
    apply List.eq_nil_iff_forall_not_mem.mpr
    intro key hKey
    obtain ⟨⟨l, hl, rfl⟩, hGone⟩ := mem_diffLabels_removals.mp hKey
    exact hGone l ((h l).mp hl) rfl
  calc diffLabels desired stored
      = ⟨(diffLabels desired stored).upserts, (diffLabels desired stored).newFlags,
          (diffLabels desired stored).removals⟩ := rfl
    _ = ⟨[], [], []⟩ := by rw [hUpserts, hNew, hRemovals]

/-- The difference leads to what is desired, in one pass, and flags what was not stored. -/
structure DiffExact (desired stored : List ActiveLabel) : Prop where
  applied : ∀ l, l ∈ (diffLabels desired stored).apply stored ↔ l ∈ desired
  keyed : Keyed ActiveLabel.key ((diffLabels desired stored).apply stored)
  again : diffLabels desired ((diffLabels desired stored).apply stored) = ⟨[], [], []⟩
  newFlags : ∀ l, l ∈ (diffLabels desired stored).newFlags ↔
    l ∈ desired ∧ ∀ row ∈ stored, row.key ≠ l.key

theorem diffLabels_exact (hDesired : Keyed ActiveLabel.key desired)
    (hStored : Keyed ActiveLabel.key stored) : DiffExact desired stored where
  applied _ := mem_apply_diffLabels hDesired hStored
  keyed := LabelDiff.keyed_apply hStored
  again := diffLabels_of_same (LabelDiff.keyed_apply hStored) fun _ =>
    mem_apply_diffLabels hDesired hStored
  newFlags _ := mem_diffLabels_newFlags hStored

/-! ## The table -/

structure LabelRow where
  did : String
  labelerDid : String
  val : String
  cts : String
  firstSeenAt : String
  deriving DecidableEq

def LabelRow.label (row : LabelRow) : ActiveLabel := ⟨row.did, row.val, row.cts⟩

/-- `labels_for_labeler` -/
def labelsForLabeler (table : List LabelRow) (labelerDid : String) : List ActiveLabel :=
  (table.filter fun row => row.labelerDid = labelerDid).map LabelRow.label

/-- The row of a label in the table. -/
def isRowOf (labelerDid : String) (key : String × String) (row : LabelRow) : Bool :=
  row.labelerDid = labelerDid && row.label.key = key

/-- `upsert_label`: nothing is written for an account that is gone. -/
def upsertRow (accounts : List String) (clock labelerDid : String) (table : List LabelRow)
    (l : ActiveLabel) : List LabelRow :=
  if accounts.contains l.did then
    if table.any (isRowOf labelerDid l.key) then
      updateWhere (isRowOf labelerDid l.key) (fun row => { row with cts := l.cts }) table
    else table ++ [⟨l.did, labelerDid, l.val, l.cts, clock⟩]
  else table

def deleteRow (labelerDid : String) (table : List LabelRow) (key : String × String) :
    List LabelRow :=
  deleteWhere (isRowOf labelerDid key) table

/-- The transaction of `reconcile_labeler`. -/
def reconcileLabeler (accounts : List String) (clock labelerDid : String)
    (desired : List ActiveLabel) (table : List LabelRow) : List LabelRow :=
  let diff := diffLabels desired (labelsForLabeler table labelerDid)
  diff.removals.foldl (deleteRow labelerDid)
    (diff.upserts.foldl (upsertRow accounts clock labelerDid) table)

variable {accounts : List String} {clock labelerDid : String} {table : List LabelRow}

theorem any_isRowOf {key : String × String} : table.any (isRowOf labelerDid key) =
    (labelsForLabeler table labelerDid).any fun row => row.key = key := by
  rw [labelsForLabeler, List.any_map, List.any_filter]
  rfl

theorem labelsForLabeler_upsertRow (h : l.did ∈ accounts) :
    labelsForLabeler (upsertRow accounts clock labelerDid table l) labelerDid =
      upsertLabel (labelsForLabeler table labelerDid) l := by
  rw [upsertRow, if_pos (by simpa using h), upsertLabel, any_isRowOf]
  split
  · rw [labelsForLabeler, labelsForLabeler, updateWhere, updateWhere, List.filter_map, List.map_map,
      List.map_map]
    have hSame : ((fun row : LabelRow => decide (row.labelerDid = labelerDid)) ∘ fun row =>
        if isRowOf labelerDid l.key row = true then { row with cts := l.cts } else row) =
          fun row => decide (row.labelerDid = labelerDid) := by
      funext row
      simp only [Function.comp_apply]
      split
      · rfl
      · rfl
    rw [hSame]
    apply List.map_congr_left
    intro row hRow
    have hLabeler : row.labelerDid = labelerDid := by simpa using (List.mem_filter.mp hRow).2
    simp only [Function.comp_apply, isRowOf, hLabeler, decide_true, Bool.true_and]
    split
    · rfl
    · rfl
  · rw [labelsForLabeler, List.filter_append, List.map_append]
    simp [labelsForLabeler, LabelRow.label]

theorem labelsForLabeler_deleteRow {key : String × String} :
    labelsForLabeler (deleteRow labelerDid table key) labelerDid =
      deleteLabel (labelsForLabeler table labelerDid) key := by
  rw [labelsForLabeler, labelsForLabeler, deleteRow, deleteLabel, deleteWhere, deleteWhere,
    List.filter_map, List.filter_filter, List.filter_filter]
  congr 1
  apply List.filter_congr
  intro row _
  by_cases hLabeler : row.labelerDid = labelerDid
  · simp [isRowOf, hLabeler]
  · simp [hLabeler]

/-- The statements on the table do what the difference says. -/
theorem labelsForLabeler_reconcile {desired : List ActiveLabel}
    (h : ∀ l ∈ desired, l.did ∈ accounts) :
    labelsForLabeler (reconcileLabeler accounts clock labelerDid desired table) labelerDid =
      (diffLabels desired (labelsForLabeler table labelerDid)).apply
        (labelsForLabeler table labelerDid) := by
  have hUpserts : ∀ (upserts : List ActiveLabel) (table : List LabelRow),
      (∀ l ∈ upserts, l.did ∈ accounts) →
      labelsForLabeler (upserts.foldl (upsertRow accounts clock labelerDid) table) labelerDid =
        upserts.foldl upsertLabel (labelsForLabeler table labelerDid) := by
    intro upserts
    induction upserts with
    | nil => exact fun _ _ => rfl
    | cons l upserts ih =>
      intro table hAll
      obtain ⟨hHead, hRest⟩ := List.forall_mem_cons.mp hAll
      rw [List.foldl_cons, List.foldl_cons, ih _ hRest, labelsForLabeler_upsertRow hHead]
  have hRemovals : ∀ (keys : List (String × String)) (table : List LabelRow),
      labelsForLabeler (keys.foldl (deleteRow labelerDid) table) labelerDid =
        keys.foldl deleteLabel (labelsForLabeler table labelerDid) := by
    intro keys
    induction keys with
    | nil => exact fun _ => rfl
    | cons key keys ih =>
      intro table
      rw [List.foldl_cons, List.foldl_cons, ih, labelsForLabeler_deleteRow]
  unfold reconcileLabeler
  dsimp only
  rw [hRemovals, hUpserts, LabelDiff.apply]
  exact fun l hl => h l (List.mem_of_mem_filter hl)

/-- After a pass the table has the labels in force of the labeler. -/
theorem mem_labelsForLabeler_reconcile {desired : List ActiveLabel}
    (hAccounts : ∀ l ∈ desired, l.did ∈ accounts) (hDesired : Keyed ActiveLabel.key desired)
    (hTable : Keyed ActiveLabel.key (labelsForLabeler table labelerDid)) :
    l ∈ labelsForLabeler (reconcileLabeler accounts clock labelerDid desired table) labelerDid ↔
      l ∈ desired := by
  rw [labelsForLabeler_reconcile hAccounts]
  exact mem_apply_diffLabels hDesired hTable

/-! ## Reconciliation -/

/-- The events of a labeler are settled, and every difference is exact, exactly when the latest
events on an account and a value are in force together. -/
theorem label_reconciliation_iff (parseTs : String → Option Int) (events : List LabelEvent)
    (labelerDid : String) (watchlist : List String) (now : Int) :
    (LabelsSettled parseTs events labelerDid watchlist now ∧
      ∀ desired stored, Keyed ActiveLabel.key desired → Keyed ActiveLabel.key stored →
        DiffExact desired stored) ↔
      TiesAgree parseTs events labelerDid watchlist now := by
  constructor
  · intro h
    exact h.1.tiesAgree
  · intro h
    exact ⟨h.settled, fun _ _ => diffLabels_exact⟩

/-! A label and its retraction in the same second. -/

def sampleParseTs (text : String) : Option Int :=
  if text = "2026-01-01T00:00:00Z" then some 1767225600 else none

def sampleLabel : LabelEvent :=
  ⟨"did:plc:labeler", "did:plc:alice", "spam", "2026-01-01T00:00:00Z", false, none⟩

def sampleRetraction : LabelEvent := { sampleLabel with neg := true }

theorem isLatest_sample {e : LabelEvent} (h : e ∈ [sampleRetraction, sampleLabel]) :
    IsLatest sampleParseTs (relevantEvents "did:plc:labeler" [] [sampleRetraction, sampleLabel])
      e := by
  have hAll : relevantEvents "did:plc:labeler" [] [sampleRetraction, sampleLabel] =
      [sampleRetraction, sampleLabel] := rfl
  have hOrder : ∀ e ∈ [sampleRetraction, sampleLabel], eventOrder sampleParseTs e =
      eventOrder sampleParseTs sampleLabel := by
    intro e he
    rcases List.mem_pair.mp he with rfl | rfl
    · rfl
    · rfl
  rw [hAll]
  refine ⟨h, fun e' he' _ => ?_⟩
  rw [hOrder e h, hOrder e' he']

/-- The order of the two decides. -/
theorem label_reconciliation_order :
    ¬ LabelsSettled sampleParseTs [sampleRetraction, sampleLabel] "did:plc:labeler" []
      1784246400 := by
  intro h
  have hAgree := h.tiesAgree sampleLabel sampleRetraction (isLatest_sample (by decide))
    (isLatest_sample (by decide)) rfl
  exact absurd hAgree (by decide)

end Ezpds.Pds
