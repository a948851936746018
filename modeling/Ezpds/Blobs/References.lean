import Ezpds.Blobs.System
import Mathlib

/-!
# The references of a blob

A pass pins what the walk of an account has counted, and releases and sweeps the rest. What is
written behind the walk is not counted: it is safe while the ownership row of its blob has a
grace period left, and lost when the period is over before the pass has ended.

* `State.Doomed`: the running pass is past pinning the row, and finds it expired.
* `Inv`: no blob that a record refers to is doomed.
* `referenced_kept`: over every run whose writes, uploads and clock doom no referenced blob.
-/

namespace Ezpds.Blobs

open Library

/-! ## What a pass has in store for an ownership row -/

/-- The pass will not pin the row from here on, and may still sweep it. -/
def GcPhase.PastPinning (records : AccountRecords) (did cid : String) : GcPhase → Prop
  | .choosing => True
  | .walking walked counts cursor =>
    ¬(walked = did ∧ (cid ∈ counts ∨ cid ∈ entryLinks (records.ahead cursor)))
  | .listing walked counts | .listed walked counts _ => ¬(walked = did ∧ cid ∈ counts)
  | .updating walked _ toPin _ _ => ¬(walked = did ∧ cid ∈ toPin)
  | .sweeping expired | .reclaiming _ expired | .unlinking _ expired => (did, cid) ∈ expired

instance (records : AccountRecords) (did cid : String) (phase : GcPhase) :
    Decidable (phase.PastPinning records did cid) :=
  match phase with
  | .choosing => .isTrue trivial
  | .walking walked counts cursor =>
    inferInstanceAs (Decidable
      ¬(walked = did ∧ (cid ∈ counts ∨ cid ∈ entryLinks (records.ahead cursor))))
  | .listing walked counts | .listed walked counts _ =>
    inferInstanceAs (Decidable ¬(walked = did ∧ cid ∈ counts))
  | .updating walked _ toPin _ _ => inferInstanceAs (Decidable ¬(walked = did ∧ cid ∈ toPin))
  | .sweeping expired | .reclaiming _ expired | .unlinking _ expired =>
    inferInstanceAs (Decidable ((did, cid) ∈ expired))

structure Pass.PastPinning (pass : Pass) (records : AccountRecords) (did cid : String) :
    Prop where
  rest : did ∉ pass.rest
  unreconciled : did ∉ pass.unreconciled
  phase : pass.phase.PastPinning records did cid

instance (pass : Pass) (records : AccountRecords) (did cid : String) :
    Decidable (pass.PastPinning records did cid) :=
  decidable_of_iff
    (did ∉ pass.rest ∧ did ∉ pass.unreconciled ∧ pass.phase.PastPinning records did cid)
    ⟨fun h => ⟨h.1, h.2.1, h.2.2⟩, fun h => ⟨h.rest, h.unreconciled, h.phase⟩⟩

/-- The deadline that a permanent row is about to be given. -/
def GcPhase.graceFor (did cid : String) : GcPhase → Option Nat
  | .updating walked counts _ owned grace =>
    if walked = did ∧ cid ∉ counts ∧ cid ∈ owned.map BlobOwnerRow.cid then some grace else none
  | _ => none

def Pass.Overdue (pass : Pass) (now : Nat) (row : BlobOwnerRow) : Prop :=
  ∃ deadline ∈ row.tempUntil.or (pass.phase.graceFor row.accountDid row.cid), deadline < now

instance (pass : Pass) (now : Nat) (row : BlobOwnerRow) : Decidable (pass.Overdue now row) :=
  inferInstanceAs (Decidable (∃ deadline ∈ _, deadline < now))

/-- The pass is past pinning a row of the account for the blob, and the row is overdue. -/
def Dooms (pass : Option Pass) (owners : List BlobOwnerRow) (now : Nat)
    (records : AccountRecords) (did cid : String) : Prop :=
  ∃ running ∈ pass, running.PastPinning records did cid ∧
    ∃ row ∈ owners, isOwner did cid row = true ∧ running.Overdue now row

instance (pass : Option Pass) (owners : List BlobOwnerRow) (now : Nat)
    (records : AccountRecords) (did cid : String) :
    Decidable (Dooms pass owners now records did cid) :=
  inferInstanceAs (Decidable (∃ running ∈ pass, _))

def State.Doomed (s : State) (did cid : String) : Prop :=
  Dooms s.pass s.tables.owners s.now (s.recordsOf did) did cid

/-! ## The condition -/

/-- The deadline of the upload has not passed, where a row of its own would not be pinned. -/
def UploadPhase.InTime (s : State) : UploadPhase → Prop
  | .stamped did cid tempUntil =>
    s.Refers did cid → (∃ pass ∈ s.pass, pass.PastPinning (s.recordsOf did) did cid) →
      s.now ≤ tempUntil
  | _ => True

instance (s : State) : ∀ upload : UploadPhase, Decidable (upload.InTime s)
  | .stamped did cid tempUntil =>
    inferInstanceAs (Decidable (s.Refers did cid →
      (∃ pass ∈ s.pass, pass.PastPinning (s.recordsOf did) did cid) → s.now ≤ tempUntil))
  | .stored _ _ | .ended => .isTrue trivial

/-- A write refers to nothing that is doomed, the clock passes no deadline of a row that a
record refers to and the pass is past pinning, and no such row is inserted overdue. -/
def DoomsNothing (s : State) : Label → Prop
  | .tick now => ∀ e ∈ s.accounts.entries, ∀ cid ∈ e.2.links,
      ¬ Dooms s.pass s.tables.owners now e.2 e.1 cid
  | .writeRecords did records => ∀ cid ∈ records.links,
      ¬ Dooms s.pass s.tables.owners s.now records did cid
  | .insertUpload i => ∀ upload ∈ s.uploads[i]?, upload.InTime s
  | _ => True

instance (s : State) (label : Label) : Decidable (DoomsNothing s label) :=
  match label with
  | .tick now =>
    inferInstanceAs (Decidable (∀ e ∈ s.accounts.entries, ∀ cid ∈ e.2.links,
      ¬ Dooms s.pass s.tables.owners now e.2 e.1 cid))
  | .writeRecords did records =>
    inferInstanceAs (Decidable (∀ cid ∈ records.links,
      ¬ Dooms s.pass s.tables.owners s.now records did cid))
  | .insertUpload i => inferInstanceAs (Decidable (∀ upload ∈ s.uploads[i]?, upload.InTime s))
  | .storeBlob _ _ | .stampUpload _ | .endUpload _ | .beginPass | .openRepo | .walkPage
  | .listOwned | .computeGrace | .pin _ | .release | .finishAccount | .failAccount
  | .listExpired | .sweepOwner | .reclaimBlob | .unlinkBlob | .failItem | .endPass
  | .purgeAccount _ | .unlinkPurged _ | .failUnlink _ => .isTrue trivial

/-! ## What a step may delete -/

/-- The step from `s` to `t` deletes the ownership row. -/
structure Deletes (s t : State) (row : BlobOwnerRow) : Prop where
  before : row ∈ s.tables.owners
  after : ∀ other ∈ t.tables.owners, isOwner row.accountDid row.cid other = false

instance (s t : State) (row : BlobOwnerRow) : Decidable (Deletes s t row) :=
  decidable_of_iff
    (row ∈ s.tables.owners ∧
      ∀ other ∈ t.tables.owners, isOwner row.accountDid row.cid other = false)
    ⟨fun h => ⟨h.1, h.2⟩, fun h => ⟨h.before, h.after⟩⟩

/-- No record of the account refers to the blob of the deleted row, and a pass deletes no row
of an account that it could not reconcile. -/
def Justified (s : State) (label : Label) (t : State) (row : BlobOwnerRow) : Prop :=
  ¬ t.Refers row.accountDid row.cid ∧
    (label.ofPass = true → ∀ pass ∈ s.pass, row.accountDid ∉ pass.unreconciled)

namespace References

/-- The sweep follows the last account. -/
def sweeps : GcPhase → Bool
  | .sweeping _ | .reclaiming _ _ | .unlinking _ _ => true
  | _ => false

structure Inv (s : State) : Prop where
  kept : ∀ did cid, s.Refers did cid → ¬ s.Doomed did cid
  toPin : ∀ rest unreconciled did counts toPin owned grace,
    s.pass = some ⟨rest, unreconciled, .updating did counts toPin owned grace⟩ →
      ∀ cid ∈ toPin, cid ∈ counts
  swept : ∀ pass ∈ s.pass, sweeps pass.phase = true → pass.rest = []

variable {s t : State} {ttl i : Nat} {did cid : String} {records : AccountRecords}

/-! ## Records and pages -/

theorem mem_entryLinks {entries : List (SpaceKey × Json)} :
    cid ∈ entryLinks entries ↔ ∃ e ∈ entries, cid ∈ collectBlobLinks e.2 :=
  List.mem_flatMap

/-- Every link is in the public repo, or in a space record ahead of the first page. -/
theorem mem_links : cid ∈ records.links ↔
    cid ∈ records.publicLinks ∨ cid ∈ entryLinks (records.ahead none) := by
  have hAll : records.ahead none = records.spaceRecords.entries :=
    List.filter_eq_self.mpr fun _ _ => rfl
  rw [AccountRecords.links, List.mem_append, hAll, mem_entryLinks, SortedMap.values,
    List.mem_flatMap]
  apply or_congr_right
  constructor
  · rintro ⟨value, hValue, hCid⟩
    obtain ⟨e, hEntry, rfl⟩ := List.mem_map.mp hValue
    exact ⟨e, hEntry, hCid⟩
  · rintro ⟨e, hEntry, hCid⟩
    exact ⟨e.2, List.mem_map_of_mem hEntry, hCid⟩

theorem keyedBy_entries (m : SortedMap SpaceKey Json) : KeyedBy Prod.fst m.entries :=
  List.pairwise_map.mp m.sorted

theorem upwardClosed_isAfter {cursor : Option SpaceKey} :
    UpwardClosed Prod.fst (AccountRecords.isAfter cursor) := by
  intro a b ha hab
  cases cursor with
  | none => rfl
  | some k => exact decide_eq_true (lt_trans (of_decide_eq_true ha) hab)

/-- What is ahead is on the page, or ahead of the next one, and a short page is the last. -/
theorem mem_ahead_page {cursor : Option SpaceKey} {e : SpaceKey × Json}
    (h : e ∈ records.ahead cursor) :
    e ∈ records.pageAfter cursor ∨
      RECORD_PAGE_SIZE ≤ (records.pageAfter cursor).length ∧
        e ∈ records.ahead (((records.pageAfter cursor).getLast?.map Prod.fst).or cursor) := by
  by_cases hShort : (records.pageAfter cursor).length < RECORD_PAGE_SIZE
  · left
    rw [AccountRecords.pageAfter, page, List.length_take] at hShort
    rw [AccountRecords.pageAfter, page, List.take_of_length_le (by omega)]
    exact h
  · have hNonempty : records.pageAfter cursor ≠ [] := by
      intro hNil
      rw [hNil] at hShort
      exact hShort (by decide)
    obtain ⟨init, last, hPage⟩ := (List.eq_nil_or_concat' _).resolve_left hNonempty
    rw [hPage, List.getLast?_concat, Option.map_some, Option.some_or]
    have hRest := filter_above_last (keyedBy_entries records.spaceRecords) upwardClosed_isAfter
      (p := AccountRecords.isAfter cursor) hPage
    rw [AccountRecords.ahead, ← List.take_append_drop RECORD_PAGE_SIZE
      (records.spaceRecords.entries.filter (AccountRecords.isAfter cursor)),
      List.mem_append] at h
    rcases h with hRead | hAhead
    · left
      rw [← hPage]
      exact hRead
    · right
      refine ⟨by rw [← hPage]; omega, ?_⟩
      rw [← hRest] at hAhead
      exact hAhead

theorem recordsOf_insert {other : String} :
    (s.writeRecords did records).recordsOf other =
      if did = other then records else s.recordsOf other := by
  have hGet : (s.accounts.insert did records).get? other =
      if did = other then some records else s.accounts.get? other := assocGet_assocInsert
  rw [State.recordsOf, State.writeRecords, hGet]
  split
  · rfl
  · rfl

theorem recordsOf_erase {other : String} :
    ((s.accounts.erase did).get? other).getD State.noRecords =
      if did = other then State.noRecords else s.recordsOf other := by
  have hGet : (s.accounts.erase did).get? other =
      if did = other then none else s.accounts.get? other := assocGet_assocErase
  rw [hGet]
  split
  · rfl
  · rfl

/-- An account that a record of refers to something has an entry. -/
theorem mem_accounts_of_refers (h : s.Refers did cid) :
    (did, s.recordsOf did) ∈ s.accounts.entries := by
  cases hGet : s.accounts.get? did with
  | none =>
    rw [State.Refers, State.recordsOf, hGet] at h
    cases h
  | some records =>
    rw [State.recordsOf, hGet]
    exact mem_of_assocGet hGet

/-! ## Steps of the pass -/

/-- A pass that grants no deadline finds a row overdue by the deadline that it has. -/
theorem overdue_of_ungranted {pass pass' : Pass} {now : Nat} {row : BlobOwnerRow}
    (hNone : pass'.phase.graceFor row.accountDid row.cid = none) (h : pass'.Overdue now row) :
    pass.Overdue now row := by
  obtain ⟨deadline, hDeadline, hLate⟩ := h
  rw [hNone, Option.or_none] at hDeadline
  exact ⟨deadline, Option.or_eq_some_iff.mpr (Or.inl hDeadline), hLate⟩

namespace Inv

/-- The pass moves on: it is past pinning nothing that it was to pin, and what it finds overdue
was so before. -/
theorem move (h : Inv s) {pass pass' : Pass} (hPass : s.pass = some pass)
    (hPast : ∀ did cid, s.Refers did cid → pass'.PastPinning (s.recordsOf did) did cid →
      pass.PastPinning (s.recordsOf did) did cid)
    (hOverdue : ∀ row, pass'.Overdue s.now row → pass.Overdue s.now row)
    (hToPin : ∀ did counts toPin owned grace,
      pass'.phase = .updating did counts toPin owned grace → ∀ cid ∈ toPin, cid ∈ counts)
    (hSwept : sweeps pass'.phase = true → pass'.rest = []) :
    Inv { s with pass := some pass' } where
  kept := by
    rintro did cid hRefers ⟨_, ⟨⟩, hPast', row, hRow, hOwner, hOver⟩
    exact h.kept did cid hRefers
      ⟨pass, hPass, hPast did cid hRefers hPast', row, hRow, hOwner, hOverdue row hOver⟩
  toPin := by
    rintro rest unreconciled did counts toPin owned grace ⟨⟩
    exact hToPin did counts toPin owned grace rfl
  swept := by
    rintro _ ⟨⟩
    exact hSwept

/-- Where the pass grants no deadline and writes no count. -/
theorem move_quiet (h : Inv s) {pass pass' : Pass} (hPass : s.pass = some pass)
    (hPast : ∀ did cid, s.Refers did cid → pass'.PastPinning (s.recordsOf did) did cid →
      pass.PastPinning (s.recordsOf did) did cid)
    (hQuiet : ∀ did counts toPin owned grace,
      pass'.phase ≠ .updating did counts toPin owned grace)
    (hSwept : sweeps pass'.phase = true → pass'.rest = []) :
    Inv { s with pass := some pass' } := by
  apply h.move hPass hPast
  · intro row
    apply overdue_of_ungranted
    cases hPhase : pass'.phase with
    | updating did counts toPin owned grace => exact absurd hPhase (hQuiet _ _ _ _ _)
    | _ => rfl
  · intro did counts toPin owned grace hPhase
    exact absurd hPhase (hQuiet did counts toPin owned grace)
  · exact hSwept

variable (h : Inv s)
include h

omit h in
theorem beginPass (hStep : s.beginPass = some t) : Inv t := by
  rw [State.beginPass] at hStep
  split at hStep <;> cases hStep
  refine ⟨?_, by rintro _ _ _ _ _ _ _ ⟨⟩, ?_⟩
  · rintro did cid _ ⟨_, ⟨⟩, hPast, row, hRow, hOwner, _⟩
    -- every account with an ownership row is a candidate
    apply hPast.rest
    rw [State.candidateDids, List.mem_dedup, List.mem_append, List.mem_append]
    exact Or.inl (Or.inl (List.mem_map.mpr ⟨row, hRow, (isOwner_iff.mp hOwner).1⟩))
  · rintro _ ⟨⟩ ⟨⟩

theorem openRepo (hStep : s.openRepo = some t) : Inv t := by
  rw [State.openRepo] at hStep
  split at hStep <;> cases hStep
  rename_i walked rest unreconciled hPass
  apply h.move_quiet hPass
  · rintro did cid hRefers ⟨hRest, hUnreconciled, hPhase⟩
    refine ⟨?_, hUnreconciled, trivial⟩
    rw [List.mem_cons, not_or]
    refine ⟨?_, hRest⟩
    rintro rfl
    exact hPhase ⟨rfl, mem_links.mp hRefers⟩
  · rintro _ _ _ _ _ ⟨⟩
  · rintro ⟨⟩

theorem walkPage (hStep : s.walkPage = some t) : Inv t := by
  rw [State.walkPage] at hStep
  split at hStep
  · rename_i rest unreconciled walked counts cursor hPass
    dsimp only at hStep
    split at hStep
    · rename_i hShort
      cases hStep
      apply h.move_quiet hPass
      · rintro did cid hRefers ⟨hRest, hUnreconciled, hPhase⟩
        refine ⟨hRest, hUnreconciled, ?_⟩
        rintro ⟨rfl, hCid | hCid⟩
        · exact hPhase ⟨rfl, List.mem_append_left _ hCid⟩
        · obtain ⟨e, hAhead, hCid⟩ := mem_entryLinks.mp hCid
          rcases mem_ahead_page hAhead with hPage | ⟨hLong, _⟩
          · exact hPhase ⟨rfl, List.mem_append_right _ (mem_entryLinks.mpr ⟨e, hPage, hCid⟩)⟩
          · exact absurd hLong (by omega)
      · rintro _ _ _ _ _ ⟨⟩
      · rintro ⟨⟩
    · cases hStep
      apply h.move_quiet hPass
      · rintro did cid hRefers ⟨hRest, hUnreconciled, hPhase⟩
        refine ⟨hRest, hUnreconciled, ?_⟩
        rintro ⟨rfl, hCid | hCid⟩
        · exact hPhase ⟨rfl, Or.inl (List.mem_append_left _ hCid)⟩
        · obtain ⟨e, hAhead, hCid⟩ := mem_entryLinks.mp hCid
          rcases mem_ahead_page hAhead with hPage | ⟨_, hAhead⟩
          · exact hPhase
              ⟨rfl, Or.inl (List.mem_append_right _ (mem_entryLinks.mpr ⟨e, hPage, hCid⟩))⟩
          · exact hPhase ⟨rfl, Or.inr (mem_entryLinks.mpr ⟨e, hAhead, hCid⟩)⟩
      · rintro _ _ _ _ _ ⟨⟩
      · rintro ⟨⟩
  · cases hStep

theorem listOwned (hStep : s.listOwned = some t) : Inv t := by
  rw [State.listOwned] at hStep
  split at hStep <;> cases hStep
  rename_i hPass
  apply h.move_quiet hPass
  · rintro did cid _ ⟨hRest, hUnreconciled, hPhase⟩
    exact ⟨hRest, hUnreconciled, hPhase⟩
  · rintro _ _ _ _ _ ⟨⟩
  · rintro ⟨⟩

/-- The deadline that is granted from here on has not passed. -/
theorem computeGrace (hStep : s.computeGrace ttl = some t) : Inv t := by
  rw [State.computeGrace] at hStep
  split at hStep <;> cases hStep
  rename_i rest unreconciled walked counts owned hPass
  apply h.move hPass
  · rintro did cid _ ⟨hRest, hUnreconciled, hPhase⟩
    refine ⟨hRest, hUnreconciled, ?_⟩
    rintro ⟨hWalked, hCid⟩
    exact hPhase ⟨hWalked, List.mem_dedup.mpr hCid⟩
  · rintro row ⟨deadline, hDeadline, hLate⟩
    rcases Option.or_eq_some_iff.mp hDeadline with hOwn | ⟨_, hGranted⟩
    · exact ⟨deadline, Option.or_eq_some_iff.mpr (Or.inl hOwn), hLate⟩
    · rw [GcPhase.graceFor] at hGranted
      split at hGranted <;> cases hGranted
      omega
  · rintro _ _ _ _ _ ⟨⟩ cid hCid
    exact List.mem_dedup.mp hCid
  · rintro ⟨⟩

theorem finishAccount (hStep : s.finishAccount = some t) : Inv t := by
  rw [State.finishAccount] at hStep
  split at hStep <;> cases hStep
  rename_i hPass
  apply h.move_quiet hPass
  · rintro did cid _ ⟨hRest, hUnreconciled, _⟩
    exact ⟨hRest, hUnreconciled, fun hPin => List.not_mem_nil hPin.2⟩
  · rintro _ _ _ _ _ ⟨⟩
  · rintro ⟨⟩

/-- The account of the phase is set aside, and the phase is about no other. -/
theorem failAccount (hStep : s.failAccount = some t) : Inv t := by
  rw [State.failAccount] at hStep
  split at hStep
  · rename_i failed rest unreconciled hPass
    cases hStep
    apply h.move_quiet hPass
    · rintro did cid _ ⟨hRest, hUnreconciled, _⟩
      obtain ⟨hNe, hUnreconciled⟩ := not_or.mp (mt List.mem_cons.mpr hUnreconciled)
      exact ⟨fun hMem => (List.mem_cons.mp hMem).elim hNe hRest, hUnreconciled, trivial⟩
    · rintro _ _ _ _ _ ⟨⟩
    · rintro ⟨⟩
  · rename_i rest unreconciled phase _ hPass
    obtain ⟨failed, hFailed, rfl⟩ := Option.map_eq_some_iff.mp hStep
    apply h.move_quiet hPass
    · rintro did cid _ ⟨hRest, hUnreconciled, _⟩
      obtain ⟨hNe, hUnreconciled⟩ := not_or.mp (mt List.mem_cons.mpr hUnreconciled)
      refine ⟨hRest, hUnreconciled, ?_⟩
      cases phase with
      | walking | listing | listed | updating =>
        cases hFailed
        exact fun hPin => hNe hPin.1.symm
      | _ => cases hFailed
    · rintro _ _ _ _ _ ⟨⟩
    · rintro ⟨⟩
  · cases hStep

theorem listExpired (hStep : s.listExpired = some t) : Inv t := by
  rw [State.listExpired] at hStep
  split at hStep <;> cases hStep
  rename_i hPass
  apply h.move_quiet hPass
  · rintro did cid _ ⟨hRest, hUnreconciled, _⟩
    exact ⟨hRest, hUnreconciled, trivial⟩
  · rintro _ _ _ _ _ ⟨⟩
  · exact fun _ => rfl

omit h in
theorem endPass (hStep : s.endPass = some t) : Inv t := by
  rw [State.endPass] at hStep
  split at hStep <;> cases hStep
  refine ⟨?_, by rintro _ _ _ _ _ _ _ ⟨⟩, by rintro _ ⟨⟩⟩
  rintro did cid _ ⟨_, ⟨⟩, _⟩

/-! ## Steps of the pass on the ownership rows -/

/-- What is pinned is permanent, and is not released: the row that a count is written to is
never overdue. Where the blob is not stored, there is no row. -/
theorem pin (hStep : s.pin cid = some t) : Inv t := by
  rw [State.pin] at hStep
  split at hStep
  · rename_i rest unreconciled walked counts toPin owned grace hPass
    split at hStep <;> cases hStep
    rename_i hPin
    have hCounted : cid ∈ counts := h.toPin _ _ _ _ _ _ _ hPass cid hPin.1
    refine ⟨?_, ?_, ?_⟩
    · rintro did other hRefers ⟨_, ⟨⟩, ⟨hRest, hUnreconciled, hPhase⟩, row, hRow, hOwner, hOver⟩
      by_cases hPinned : walked = did ∧ other = cid
      · obtain ⟨rfl, rfl⟩ := hPinned
        dsimp only at hRow
        rw [BlobTables.upsertOwnerReferenced] at hRow
        split at hRow
        · rcases mem_upsertReferenced hRow with ⟨_, hOther⟩ | ⟨_, hPermanent⟩
          · rw [hOwner] at hOther
            cases hOther
          · obtain ⟨hDid, hCid⟩ := isOwner_iff.mp hOwner
            obtain ⟨deadline, hDeadline, _⟩ := hOver
            rw [hPermanent, Option.none_or, GcPhase.graceFor, hCid,
              if_neg fun hGranted => hGranted.2.1 hCounted] at hDeadline
            cases hDeadline
        · rename_i hMissing
          exact hMissing ((isOwner_iff.mp hOwner).2 ▸ s.tables.stored row hRow)
      · have hOld : row ∈ s.tables.owners := by
          dsimp only at hRow
          rw [BlobTables.upsertOwnerReferenced] at hRow
          split at hRow
          · rcases mem_upsertReferenced hRow with ⟨hOld, _⟩ | ⟨hNew, _⟩
            · exact hOld
            · obtain ⟨hDid, hCid⟩ := isOwner_iff.mp hOwner
              obtain ⟨hDid', hCid'⟩ := isOwner_iff.mp hNew
              exact absurd ⟨hDid'.symm.trans hDid, hCid.symm.trans hCid'⟩ hPinned
          · exact hRow
        refine h.kept did other hRefers
          ⟨_, hPass, ⟨hRest, hUnreconciled, ?_⟩, row, hOld, hOwner, hOver⟩
        rintro ⟨hWalked, hMem⟩
        refine hPhase ⟨hWalked, List.mem_filter.mpr ⟨hMem, decide_eq_true ?_⟩⟩
        exact fun hEq => hPinned ⟨hWalked, hEq⟩
    · rintro _ _ _ _ _ _ _ ⟨⟩ other hMem
      exact h.toPin _ _ _ _ _ _ _ hPass other (List.mem_filter.mp hMem).1
    · rintro _ ⟨⟩
      exact nofun
  · cases hStep

/-- A released row has the deadline that it was about to be given. -/
theorem release (hStep : s.release = some t) : Inv t := by
  rw [State.release] at hStep
  split at hStep
  · rename_i rest unreconciled walked counts owner owned grace hPass
    cases hStep
    refine ⟨?_, ?_, ?_⟩
    · rintro did cid hRefers ⟨_, ⟨⟩, ⟨hRest, hUnreconciled, _⟩, row, hRow, hOwner, hOver⟩
      have hPast : Pass.PastPinning
          ⟨rest, unreconciled, .updating walked counts [] (owner :: owned) grace⟩
          (s.recordsOf did) did cid :=
        ⟨hRest, hUnreconciled, fun hPin => List.not_mem_nil hPin.2⟩
      -- the row as it was had the same deadline, or was about to be given it
      have hOld : ∃ old ∈ s.tables.owners, isOwner did cid old = true ∧
          Pass.Overdue ⟨rest, unreconciled, .updating walked counts [] (owner :: owned) grace⟩
            s.now old := by
        have hGranted : ∀ old : BlobOwnerRow,
            Pass.Overdue ⟨rest, unreconciled, .updating walked counts [] owned grace⟩
              s.now old →
            Pass.Overdue ⟨rest, unreconciled, .updating walked counts [] (owner :: owned) grace⟩
              s.now old := by
          rintro old ⟨deadline, hDeadline, hLate⟩
          refine ⟨deadline, Option.or_eq_some_iff.mpr ?_, hLate⟩
          rcases Option.or_eq_some_iff.mp hDeadline with hOwn | ⟨hPermanent, hGrace⟩
          · exact Or.inl hOwn
          · refine Or.inr ⟨hPermanent, ?_⟩
            rw [GcPhase.graceFor] at hGrace ⊢
            split at hGrace <;> cases hGrace
            rename_i hOwned
            exact if_pos ⟨hOwned.1, hOwned.2.1, List.mem_cons_of_mem _ hOwned.2.2⟩
        dsimp only at hRow
        split at hRow
        · exact ⟨row, hRow, hOwner, hGranted row hOver⟩
        · rename_i hUncounted
          obtain ⟨old, hOld, rfl⟩ := mem_updateWhere.mp hRow
          split at hOwner
          · rename_i hPermanent
            rw [if_pos hPermanent] at hOver
            obtain ⟨hReleased, hNone⟩ := of_decide_eq_true hPermanent
            obtain ⟨hDid, hCid⟩ := isOwner_iff.mp hReleased
            refine ⟨old, hOld, hOwner, ?_⟩
            obtain ⟨deadline, hDeadline, hLate⟩ := hOver
            refine ⟨deadline, Option.or_eq_some_iff.mpr (Or.inr ⟨hNone, ?_⟩), hLate⟩
            rw [Option.some_or] at hDeadline
            rw [← hDeadline, GcPhase.graceFor, hCid, hDid]
            exact if_pos ⟨rfl, hUncounted, List.mem_cons_self⟩
          · rename_i hKept
            rw [if_neg hKept] at hOver
            exact ⟨old, hOld, hOwner, hGranted old hOver⟩
      obtain ⟨old, hMem, hOwner, hOver⟩ := hOld
      exact h.kept did cid hRefers ⟨_, hPass, hPast, old, hMem, hOwner, hOver⟩
    · rintro _ _ _ _ _ _ _ ⟨⟩ other hMem
      cases hMem
    · rintro _ ⟨⟩
      exact nofun
  · cases hStep

/-- The sweep goes on: fewer rows, and fewer of them still to be swept. -/
theorem sweepOn {tables : BlobTables} {pass pass' : Pass} (hPass : s.pass = some pass)
    (hOwners : ∀ row ∈ tables.owners, row ∈ s.tables.owners)
    (hRest : pass'.rest = pass.rest) (hUnreconciled : pass'.unreconciled = pass.unreconciled)
    (hSweeps : sweeps pass.phase = true) (hSweeps' : sweeps pass'.phase = true)
    (hPast : ∀ records did cid, pass'.phase.PastPinning records did cid →
      pass.phase.PastPinning records did cid) :
    Inv { s with tables, pass := some pass' } := by
  have hQuiet : ∀ did cid, pass'.phase.graceFor did cid = none := by
    intro did cid
    cases hPhase : pass'.phase with
    | updating =>
      rw [hPhase] at hSweeps'
      cases hSweeps'
    | _ => rfl
  refine ⟨?_, ?_, ?_⟩
  · rintro did cid hRefers ⟨_, ⟨⟩, hPast', row, hRow, hOwner, hOver⟩
    exact h.kept did cid hRefers ⟨pass, hPass,
      ⟨hRest ▸ hPast'.rest, hUnreconciled ▸ hPast'.unreconciled, hPast _ did cid hPast'.phase⟩,
      row, hOwners row hRow, hOwner, overdue_of_ungranted (hQuiet _ _) hOver⟩
  · rintro _ _ _ _ _ _ _ ⟨⟩
    cases hSweeps'
  · rintro _ ⟨⟩ _
    rw [hRest]
    exact h.swept pass hPass hSweeps

theorem sweepOwner (hStep : s.sweepOwner = some t) : Inv t := by
  rw [State.sweepOwner] at hStep
  split at hStep
  · rename_i rest unreconciled swept cid expired hPass
    split at hStep
    · cases hStep
      exact h.sweepOn hPass (fun _ hRow => hRow) rfl rfl rfl rfl
        fun _ _ _ hMem => List.mem_cons_of_mem _ hMem
    · dsimp only at hStep
      cases hStep
      split
      · exact h.sweepOn hPass (fun _ hRow => (mem_deleteWhere.mp hRow).1) rfl rfl rfl rfl
          fun _ _ _ hMem => List.mem_cons_of_mem _ hMem
      · exact h.sweepOn hPass (fun _ hRow => (mem_deleteWhere.mp hRow).1) rfl rfl rfl rfl
          fun _ _ _ hMem => List.mem_cons_of_mem _ hMem
  · cases hStep

theorem reclaimBlob (hStep : s.reclaimBlob = some t) : Inv t := by
  rw [State.reclaimBlob] at hStep
  split at hStep <;> cases hStep
  rename_i rest unreconciled cid expired hPass
  refine h.sweepOn hPass (fun _ hRow => hRow) rfl rfl rfl ?_ ?_
  · dsimp only
    generalize Option.map BlobRow.storagePath _ = path
    cases path <;> rfl
  · dsimp only
    generalize Option.map BlobRow.storagePath _ = path
    intro _ _ _ hMem
    cases path <;> exact hMem

theorem failItem (hStep : s.failItem = some t) : Inv t := by
  rw [State.failItem] at hStep
  split at hStep
  · rename_i hPass
    cases hStep
    exact h.sweepOn hPass (fun _ hRow => hRow) rfl rfl rfl rfl
      fun _ _ _ hMem => List.mem_cons_of_mem _ hMem
  · rename_i hPass
    cases hStep
    exact h.sweepOn hPass (fun _ hRow => hRow) rfl rfl rfl rfl fun _ _ _ hMem => hMem
  · rename_i hPass
    cases hStep
    exact h.sweepOn hPass (fun _ hRow => hRow) rfl rfl rfl rfl fun _ _ _ hMem => hMem
  · cases hStep

/-! ## Steps of the environment -/

/-- Nothing that the collector looks at has changed. -/
theorem unobserved (hNow : t.now = s.now) (hTables : t.tables = s.tables)
    (hAccounts : t.accounts = s.accounts) (hPass : t.pass = s.pass) : Inv t := by
  have hRecords : t.recordsOf = s.recordsOf := by
    funext did
    rw [State.recordsOf, State.recordsOf, hAccounts]
  refine ⟨?_, ?_, ?_⟩
  · intro did cid hRefers hDoomed
    rw [State.Refers, hRecords] at hRefers
    rw [State.Doomed, hPass, hTables, hNow, hRecords] at hDoomed
    exact h.kept did cid hRefers hDoomed
  · rw [hPass]
    exact h.toPin
  · rw [hPass]
    exact h.swept

theorem unlinkBlob (hStep : s.unlinkBlob = some t) : Inv t := by
  rw [State.unlinkBlob] at hStep
  split at hStep <;> cases hStep
  rename_i rest unreconciled path expired hPass
  have hSwept : Inv { s with
      tables := s.tables, pass := some ⟨rest, unreconciled, .sweeping expired⟩ } :=
    h.sweepOn hPass (fun _ hRow => hRow) rfl rfl rfl rfl fun _ _ _ hMem => hMem
  exact hSwept.unobserved rfl rfl rfl rfl

theorem tick {now : Nat} (hGuard : DoomsNothing s (.tick now)) (hStep : s.tick now = some t) :
    Inv t := by
  rw [State.tick] at hStep
  split at hStep <;> cases hStep
  exact { h with
    kept := fun did cid hRefers =>
      hGuard (did, s.recordsOf did) (mem_accounts_of_refers hRefers) cid hRefers }

theorem writeRecords (hGuard : DoomsNothing s (.writeRecords did records)) :
    Inv (s.writeRecords did records) := by
  refine { h with kept := ?_ }
  intro other cid hRefers hDoomed
  rw [State.Refers, recordsOf_insert] at hRefers
  rw [State.Doomed, recordsOf_insert] at hDoomed
  split at hRefers
  · rename_i hEq
    obtain rfl := hEq
    rw [if_pos rfl] at hDoomed
    exact hGuard cid hRefers hDoomed
  · rename_i hNe
    rw [if_neg hNe] at hDoomed
    exact h.kept other cid hRefers hDoomed

theorem insertUpload (hGuard : DoomsNothing s (.insertUpload i))
    (hStep : s.insertUpload i = some t) : Inv t := by
  rw [State.insertUpload] at hStep
  split at hStep
  · rename_i did cid tempUntil hUpload
    have hInTime := hGuard _ hUpload
    dsimp only at hStep
    split at hStep
    · cases hStep
      refine { h with kept := ?_ }
      rintro other cid' hRefers ⟨pass, hPass, hPast, row, hRow, hOwner, hOver⟩
      rcases mem_upsertUploaded hRow with hOld | ⟨hNew, hDeadline⟩
      · exact h.kept other cid' hRefers ⟨pass, hPass, hPast, row, hOld, hOwner, hOver⟩
      · obtain ⟨rfl, rfl⟩ := isOwner_iff.mp hOwner
        obtain ⟨rfl, rfl⟩ := isOwner_iff.mp hNew
        have hLater := hInTime hRefers ⟨pass, hPass, hPast⟩
        obtain ⟨deadline, hMem, hLate⟩ := hOver
        rw [hDeadline, Option.some_or] at hMem
        obtain rfl := Option.some.inj hMem
        exact absurd hLate (not_lt.mpr hLater)
    · cases hStep
      exact h.unobserved rfl rfl rfl rfl
  · cases hStep

/-- The account goes with its records. -/
theorem purgeAccount (hStep : s.purgeAccount did = some t) : Inv t := by
  rw [State.purgeAccount] at hStep
  split at hStep <;> cases hStep
  refine { h with kept := ?_ }
  rintro other cid hRefers ⟨pass, hPass, hPast, row, hRow, hOwner, hOver⟩
  rw [State.Refers, State.recordsOf, recordsOf_erase] at hRefers
  rw [State.recordsOf, recordsOf_erase] at hPast
  split at hRefers
  · cases hRefers
  · rename_i hNe
    rw [if_neg hNe] at hPast
    exact h.kept other cid hRefers
      ⟨pass, hPass, hPast, row, (mem_deleteWhere.mp hRow).1, hOwner, hOver⟩

end Inv

theorem inv_empty : Inv State.empty := by
  refine ⟨?_, nofun, nofun⟩
  intro did cid _ hDoomed
  obtain ⟨_, ⟨⟩, _⟩ := hDoomed

theorem inv_step {label : Label} (h : Inv s) (hGuard : DoomsNothing s label)
    (hStep : s.step ttl label = some t) : Inv t := by
  cases label with
  | tick now => exact h.tick hGuard hStep
  | writeRecords did records =>
    cases hStep
    exact h.writeRecords hGuard
  | storeBlob did cid =>
    cases hStep
    exact h.unobserved rfl rfl rfl rfl
  | stampUpload i =>
    rw [State.step, State.stampUpload] at hStep
    split at hStep <;> cases hStep
    exact h.unobserved rfl rfl rfl rfl
  | insertUpload i => exact h.insertUpload hGuard hStep
  | endUpload i =>
    rw [State.step, State.endUpload] at hStep
    split at hStep <;> cases hStep
    exact h.unobserved rfl rfl rfl rfl
  | beginPass => exact Inv.beginPass hStep
  | openRepo => exact h.openRepo hStep
  | walkPage => exact h.walkPage hStep
  | listOwned => exact h.listOwned hStep
  | computeGrace => exact h.computeGrace hStep
  | pin cid => exact h.pin hStep
  | release => exact h.release hStep
  | finishAccount => exact h.finishAccount hStep
  | failAccount => exact h.failAccount hStep
  | listExpired => exact h.listExpired hStep
  | sweepOwner => exact h.sweepOwner hStep
  | reclaimBlob => exact h.reclaimBlob hStep
  | unlinkBlob => exact h.unlinkBlob hStep
  | failItem => exact h.failItem hStep
  | endPass => exact Inv.endPass hStep
  | purgeAccount did => exact h.purgeAccount hStep
  | unlinkPurged i =>
    rw [State.step, State.unlinkPurged] at hStep
    split at hStep <;> cases hStep
    exact h.unobserved rfl rfl rfl rfl
  | failUnlink i =>
    rw [State.step, State.failUnlink] at hStep
    split at hStep <;> cases hStep
    exact h.unobserved rfl rfl rfl rfl

/-! ## What is deleted -/

/-- A step that keeps a row of every account for every blob deletes none. -/
theorem not_deletes {row : BlobOwnerRow} (hKept : ∀ old ∈ s.tables.owners,
      ∃ new ∈ t.tables.owners, isOwner old.accountDid old.cid new = true) :
    ¬ Deletes s t row := by
  rintro ⟨hBefore, hAfter⟩
  obtain ⟨new, hNew, hOwner⟩ := hKept row hBefore
  rw [hAfter new hNew] at hOwner
  cases hOwner

theorem isOwner_self {row : BlobOwnerRow} : isOwner row.accountDid row.cid row = true :=
  isOwner_iff.mpr ⟨rfl, rfl⟩

theorem not_deletes_of_eq {row : BlobOwnerRow} (h : t.tables.owners = s.tables.owners) :
    ¬ Deletes s t row :=
  not_deletes fun old hOld => ⟨old, h ▸ hOld, isOwner_self⟩

theorem updateWhere_keeps {p : BlobOwnerRow → Bool} {f : BlobOwnerRow → BlobOwnerRow}
    (hf : ∀ row, (f row).accountDid = row.accountDid ∧ (f row).cid = row.cid)
    {old : BlobOwnerRow} {owners : List BlobOwnerRow} (h : old ∈ owners) :
    ∃ new ∈ updateWhere p f owners, isOwner old.accountDid old.cid new = true := by
  refine ⟨if p old then f old else old, mem_updateWhere.mpr ⟨old, h, rfl⟩, ?_⟩
  split
  · exact isOwner_iff.mpr (hf old)
  · exact isOwner_self

theorem upsertReferenced_keeps {owners : List BlobOwnerRow} {refCount : Nat}
    {old : BlobOwnerRow} (h : old ∈ owners) :
    ∃ new ∈ upsertReferenced owners did cid refCount,
      isOwner old.accountDid old.cid new = true := by
  rw [upsertReferenced]
  split
  · exact updateWhere_keeps (by intro row; exact ⟨rfl, rfl⟩) h
  · exact ⟨old, List.mem_append_left _ h, isOwner_self⟩

theorem upsertUploaded_keeps {owners : List BlobOwnerRow} {tempUntil : Nat}
    {old : BlobOwnerRow} (h : old ∈ owners) :
    ∃ new ∈ upsertUploaded owners did cid tempUntil,
      isOwner old.accountDid old.cid new = true := by
  rw [upsertUploaded]
  split
  · exact updateWhere_keeps (by intro row; exact ⟨rfl, rfl⟩) h
  · exact ⟨old, List.mem_append_left _ h, isOwner_self⟩

/-- The steps that delete ownership rows: the sweep of a row that is doomed, of an account that
was reconciled, and a purge. -/
theorem deletes_step {label : Label} {row : BlobOwnerRow} (h : Inv s)
    (hStep : s.step ttl label = some t) (hDeletes : Deletes s t row) :
    (label = .sweepOwner ∧ t.accounts = s.accounts ∧ s.Doomed row.accountDid row.cid ∧
        ∀ pass ∈ s.pass, row.accountDid ∉ pass.unreconciled) ∨
      label = .purgeAccount row.accountDid := by
  by_cases hMoves : label.movesPass = true
  · obtain ⟨pass, rfl⟩ := State.movesPass_some hStep hMoves
    exact absurd hDeletes (not_deletes_of_eq rfl)
  cases label with
  | tick now =>
    rw [State.step, State.tick] at hStep
    split at hStep <;> cases hStep
    exact absurd hDeletes (not_deletes_of_eq rfl)
  | writeRecords did records =>
    cases hStep
    exact absurd hDeletes (not_deletes_of_eq rfl)
  | storeBlob did cid =>
    cases hStep
    exact absurd hDeletes (not_deletes_of_eq rfl)
  | stampUpload i =>
    rw [State.step, State.stampUpload] at hStep
    split at hStep <;> cases hStep
    exact absurd hDeletes (not_deletes_of_eq rfl)
  | insertUpload i =>
    rw [State.step, State.insertUpload] at hStep
    split at hStep
    · dsimp only at hStep
      split at hStep <;> cases hStep
      · exact absurd hDeletes (not_deletes fun old hOld => upsertUploaded_keeps hOld)
      · exact absurd hDeletes (not_deletes_of_eq rfl)
    · cases hStep
  | endUpload i =>
    rw [State.step, State.endUpload] at hStep
    split at hStep <;> cases hStep
    exact absurd hDeletes (not_deletes_of_eq rfl)
  | pin cid =>
    rw [State.step, State.pin] at hStep
    split at hStep
    · split at hStep <;> cases hStep
      refine absurd hDeletes (not_deletes fun old hOld => ?_)
      dsimp only
      rw [BlobTables.upsertOwnerReferenced]
      split
      · exact upsertReferenced_keeps hOld
      · exact ⟨old, hOld, isOwner_self⟩
    · cases hStep
  | release =>
    rw [State.step, State.release] at hStep
    split at hStep <;> cases hStep
    refine absurd hDeletes (not_deletes fun old hOld => ?_)
    dsimp only
    split
    · exact ⟨old, hOld, isOwner_self⟩
    · exact updateWhere_keeps (by intro row; exact ⟨rfl, rfl⟩) hOld
  | sweepOwner =>
    left
    rw [State.step, State.sweepOwner] at hStep
    split at hStep
    · rename_i rest unreconciled did cid expired hPass
      split at hStep
      · cases hStep
        exact absurd hDeletes (not_deletes_of_eq rfl)
      · rename_i hReconciled
        cases hStep
        obtain ⟨hBefore, hAfter⟩ := hDeletes
        have hSwept : isOwner did cid row = true ∧ isExpired s.now row = true := by
          by_contra hKept
          have hMem := hAfter row (mem_deleteWhere.mpr ⟨hBefore, decide_eq_false hKept⟩)
          rw [isOwner_self] at hMem
          cases hMem
        obtain ⟨hOwner, hExpired⟩ := hSwept
        obtain ⟨rfl, rfl⟩ := isOwner_iff.mp hOwner
        obtain ⟨hLate, _⟩ := of_decide_eq_true hExpired
        obtain ⟨deadline, hDeadline, hLate⟩ := (Option.any_eq_true _ _).mp hLate
        refine ⟨rfl, rfl, ⟨_, hPass, ⟨?_, hReconciled, List.mem_cons_self⟩, row, hBefore,
          hOwner, deadline, Option.or_eq_some_iff.mpr (Or.inl hDeadline),
          of_decide_eq_true hLate⟩, ?_⟩
        · rw [h.swept _ hPass rfl]
          exact List.not_mem_nil
        · intro pass hMem
          obtain rfl := Option.some.inj (hPass.symm.trans hMem)
          exact hReconciled
    · cases hStep
  | reclaimBlob =>
    rw [State.step, State.reclaimBlob] at hStep
    split at hStep <;> cases hStep
    exact absurd hDeletes (not_deletes_of_eq rfl)
  | unlinkBlob =>
    rw [State.step, State.unlinkBlob] at hStep
    split at hStep <;> cases hStep
    exact absurd hDeletes (not_deletes_of_eq rfl)
  | purgeAccount did =>
    right
    rw [State.step, State.purgeAccount] at hStep
    split at hStep <;> cases hStep
    obtain ⟨hBefore, hAfter⟩ := hDeletes
    by_contra hNe
    have hMem := hAfter row (mem_deleteWhere.mpr
      ⟨hBefore, decide_eq_false fun hEq => hNe (congrArg Label.purgeAccount hEq.symm)⟩)
    rw [isOwner_self] at hMem
    cases hMem
  | unlinkPurged i =>
    rw [State.step, State.unlinkPurged] at hStep
    split at hStep <;> cases hStep
    exact absurd hDeletes (not_deletes_of_eq rfl)
  | failUnlink i =>
    rw [State.step, State.failUnlink] at hStep
    split at hStep <;> cases hStep
    exact absurd hDeletes (not_deletes_of_eq rfl)
  | _ => exact absurd rfl hMoves

end References

/-- Over every run in which the environment dooms no referenced blob, an ownership row is
deleted only when no current record refers to its blob, and never by a pass that could not
reconcile its account. -/
theorem referenced_kept (ttl : Nat) (labels : List Label) (label : Label) (s t : State)
    (row : BlobOwnerRow) (hAlong : Along (State.step ttl) DoomsNothing .empty labels)
    (hRun : run (State.step ttl) .empty labels = some s) (hStep : s.step ttl label = some t)
    (hDeletes : Deletes s t row) : Justified s label t row := by
  have hInv : References.Inv s :=
    run_invariant_along (fun _ _ _ hI hG hStep => References.inv_step hI hG hStep)
      References.inv_empty hAlong hRun
  rcases References.deletes_step hInv hStep hDeletes with
    ⟨rfl, hAccounts, hDoomed, hReconciled⟩ | rfl
  · refine ⟨?_, fun _ => hReconciled⟩
    rw [State.Refers, State.recordsOf, hAccounts]
    exact fun hRefers => hInv.kept _ _ hRefers hDoomed
  · refine ⟨?_, nofun⟩
    rw [State.step, State.purgeAccount] at hStep
    split at hStep <;> cases hStep
    rw [State.Refers, State.recordsOf, References.recordsOf_erase, if_pos rfl]
    exact List.not_mem_nil

/-- An upload, and a pass after its grace period, up to the end of the reconciliation. -/
def expiredRun : List Label :=
  [.writeRecords "did:plc:alice" State.noRecords, .storeBlob "did:plc:alice" "bafkreia",
    .stampUpload 0, .insertUpload 0, .tick 21601, .beginPass, .openRepo, .walkPage, .listOwned,
    .computeGrace, .release, .finishAccount]

def expiredRow : BlobOwnerRow :=
  ⟨"did:plc:alice", "bafkreia", 0, some 21600⟩

theorem referenced_kept_alice :
    ∃ s t, run (State.step 21600) .empty (expiredRun ++ [.listExpired]) = some s ∧
      s.step 21600 .sweepOwner = some t ∧ Deletes s t expiredRow ∧
      Justified s .sweepOwner t expiredRow := by
  have hSwept : (run (State.step 21600) .empty (expiredRun ++ [.listExpired])).any (fun s =>
      (s.step 21600 .sweepOwner).any fun t => decide (Deletes s t expiredRow)) = true := by
    decide +kernel
  obtain ⟨s, hRun, hSwept⟩ := (Option.any_eq_true _ _).mp hSwept
  obtain ⟨t, hStep, hDeletes⟩ := (Option.any_eq_true _ _).mp hSwept
  have hDeletes := of_decide_eq_true hDeletes
  exact ⟨s, t, hRun, hStep, hDeletes, referenced_kept 21600 _ .sweepOwner s t expiredRow
    (by decide +kernel) hRun hStep hDeletes⟩

/-- A post with the uploaded image. -/
def postWithImage : AccountRecords where
  repo := some (SortedMap.empty.insert "app.bsky.feed.post/3lk2a" (.object [
    ("$type", .string "app.bsky.feed.post"),
    ("embed", .object [("$type", .string "app.bsky.embed.images"),
      ("images", .array [.object [("alt", .string ""),
        ("image", .object [("$type", .string "blob"), ("mimeType", .string "image/png"),
          ("ref", .object [("$link", .string "bafkreia")]),
          ("size", .number (.posInt 10))])]])]),
    ("text", .string "hi")]))
  spaceRepos := []
  spaceRecords := .empty

/-- The post is written after the walk of its account, and before the sweep. -/
theorem write_behind_walk_loses_blob :
    ¬ ∀ (ttl : Nat) (labels : List Label) (label : Label) (s t : State) (row : BlobOwnerRow),
      run (State.step ttl) .empty labels = some s → s.step ttl label = some t →
      Deletes s t row → Justified s label t row := by
  intro h
  have hSwept : (run (State.step 21600) .empty
      (expiredRun ++ [.writeRecords "did:plc:alice" postWithImage, .listExpired])).any (fun s =>
      (s.step 21600 .sweepOwner).any fun t =>
        decide (Deletes s t expiredRow ∧ t.Refers "did:plc:alice" "bafkreia")) = true := by
    decide +kernel
  obtain ⟨s, hRun, hSwept⟩ := (Option.any_eq_true _ _).mp hSwept
  obtain ⟨t, hStep, hLost⟩ := (Option.any_eq_true _ _).mp hSwept
  obtain ⟨hDeletes, hRefers⟩ := of_decide_eq_true hLost
  exact (h 21600 _ .sweepOwner s t expiredRow hRun hStep hDeletes).1 hRefers

end Ezpds.Blobs
