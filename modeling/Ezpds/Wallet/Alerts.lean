import Ezpds.Wallet.PlcMonitor

/-!
# What reaches the user

A foreground sweep returns what it found. A background sweep does not: what it finds goes into
the sweep history as a count, and its check stores the log, so that the next foreground check
finds nothing new. An operation that nobody but a background sweep has seen is lost there.

* `Inv`, `inv_step`: what the stored copies say was found by a foreground sweep.
* `alerts_kept`: an operation reaches the user unless a background check stores it first.
* `background_consumes_alert`: a foreign operation that no foreground check reports.
-/

namespace Ezpds.Wallet

open Library Crypto

/-! ## What was found -/

def hasChange (did cid : String) (statuses : List IdentityStatus) : Bool :=
  statuses.any fun status =>
    status.did == did && status.unauthorizedChanges.any fun change => change.cid == cid

namespace Phase

/-- A foreground sweep returned the operation. -/
def reports (did cid : String) : Phase → Bool
  | returned .foreground statuses => hasChange did cid statuses
  | _ => false

/-- A foreground sweep will return the operation. -/
def holds (did cid : String) : Phase → Bool
  | sweeping .foreground (current :: _) (.classified _ changes) statuses =>
    hasChange did cid statuses ||
      (current == did && changes.any fun change => change.cid == cid)
  | sweeping .foreground _ _ statuses => hasChange did cid statuses
  | _ => false

def finds (did cid : String) (phase : Phase) : Bool :=
  phase.reports did cid || phase.holds did cid

end Phase

def State.found (s : State) (did cid : String) : Bool :=
  s.phases.any (Phase.finds did cid)

section Alerts

variable (crates : PlcCrates) (deviceKey : String → DidKeyUri)

/-- What a check of `did` reports in this state. -/
def State.pending (s : State) (did : String) : List UnauthorizedChange :=
  match s.directory did with
  | some log =>
    match examine crates (deviceKey did) log (.ok (s.cached did)) (.ok ()) with
    | .ok (some changes) => changes
    | _ => []
  | none => []

/-- The operation was reported by a foreground sweep, or one holds it, or the next check
reports it. -/
def Alerted (s : State) (did cid : String) : Prop :=
  (∃ phase ∈ s.phases, phase.reports did cid = true) ∨
    (∃ phase ∈ s.phases, phase.holds did cid = true) ∨
    ∃ change ∈ s.pending crates deviceKey did, change.cid = cid

def State.isCached (s : State) (did cid : String) : Bool :=
  ((cachedEntries crates (s.cached did)).map AuditEntry.cid).contains cid

/-- Everything that the store of sweep `i` takes in and the device did not sign is in the stored
copy already, or a foreground sweep found it. -/
def State.storesQuietly (s : State) (i : Nat) : Bool :=
  match s.phases[i]? with
  | some (.sweeping .background (did :: _) (.classified log _) _) =>
    (cachedEntries crates (some log)).all fun entry =>
      isSignedBy crates (deviceKey did) entry.operation || s.isCached crates did entry.cid ||
        s.found did entry.cid
  | _ => true

/-- A background check stores no operation that no foreground sweep has seen. -/
def StoresNoAlert (s : State) : Action → Prop
  | .store i true => s.storesQuietly crates deviceKey i = true
  | _ => True

instance (s : State) : ∀ a, Decidable (StoresNoAlert crates deviceKey s a)
  | .store i true => inferInstanceAs (Decidable (s.storesQuietly crates deviceKey i = true))
  | .store _ false | .publish .. | .start .. | .fetch .. | .classify .. | .finish .. =>
    .isTrue trivial

/-- The log is one of the directory: it parses, and a CID names one operation. -/
def Named (named : String → Json) (log : String) : Prop :=
  ∃ entries, parseAuditLog crates log = .ok entries ∧
    ∀ entry ∈ entries, entry.operation = named entry.cid

def Action.Named (named : String → Json) : Action → Prop
  | .publish _ log => Wallet.Named crates named log
  | _ => True

/-! ## The invariant -/

/-- Every operation of the log that the device did not sign was found. -/
def Covered (s : State) (did log : String) : Prop :=
  ∀ entry ∈ cachedEntries crates (some log),
    isSignedBy crates (deviceKey did) entry.operation = false → s.found did entry.cid = true

def Phase.Ok (named : String → Json) (s : State) : Phase → Prop
  | sweeping _ _ (.fetched log) _ => Named crates named log
  | sweeping trigger (did :: _) (.classified log _) _ =>
    Named crates named log ∧ (trigger = .foreground → Covered crates deviceKey s did log)
  | _ => True

structure Inv (named : String → Json) (s : State) : Prop where
  directory : ∀ did log, s.directory did = some log → Named crates named log
  cached : ∀ did log, s.cached did = some log →
    Named crates named log ∧ Covered crates deviceKey s did log
  phases : ∀ phase ∈ s.phases, phase.Ok crates deviceKey named s

end Alerts

variable {crates : PlcCrates} {deviceKey : String → DidKeyUri} {named : String → Json}
  {s t : State} {did cid log : String} {old new : Phase} {i : Nat}

theorem inv_initial : Inv crates deviceKey named State.initial where
  directory := by
    rintro did log ⟨⟩
  cached := by
    rintro did log ⟨⟩
  phases := by
    intro phase hPhase
    cases hPhase

theorem cachedEntries_of_parse {entries : List AuditEntry}
    (h : parseAuditLog crates log = .ok entries) : cachedEntries crates (some log) = entries := by
  simp [cachedEntries, h, Except.toOption]

/-- Two logs of the directory agree about an operation that both have. -/
theorem operation_eq {other : String} {a b : AuditEntry} (h : Named crates named log)
    (h' : Named crates named other) (ha : a ∈ cachedEntries crates (some log))
    (hb : b ∈ cachedEntries crates (some other)) (hCid : a.cid = b.cid) :
    a.operation = b.operation := by
  obtain ⟨as, hParse, hNamed⟩ := h
  obtain ⟨bs, hParse', hNamed'⟩ := h'
  rw [cachedEntries_of_parse hParse] at ha
  rw [cachedEntries_of_parse hParse'] at hb
  rw [hNamed a ha, hNamed' b hb, hCid]

theorem found_iff : s.found did cid = true ↔ ∃ phase ∈ s.phases, phase.finds did cid = true :=
  List.any_eq_true

/-- A step of one sweep, whose old phase found nothing that the new one has not. -/
theorem found_set (hPhase : s.phases[i]? = some old) (hPhases : t.phases = s.phases.set i new)
    (hFinds : ∀ did cid, old.finds did cid = true → new.finds did cid = true)
    (h : s.found did cid = true) : t.found did cid = true := by
  rw [found_iff] at h ⊢
  rw [hPhases]
  exact exists_mem_set h hPhase (hFinds did cid)

theorem Covered.mono (h : Covered crates deviceKey s did log)
    (hFound : ∀ did cid, s.found did cid = true → t.found did cid = true) :
    Covered crates deviceKey t did log :=
  fun entry hEntry hForeign => hFound did entry.cid (h entry hEntry hForeign)

theorem Phase.Ok.mono {phase : Phase} (h : phase.Ok crates deviceKey named s)
    (hFound : ∀ did cid, s.found did cid = true → t.found did cid = true) :
    phase.Ok crates deviceKey named t := by
  cases phase with
  | returned trigger statuses => trivial
  | sweeping trigger todo stage statuses =>
    cases stage with
    | asking => cases todo <;> trivial
    | fetched log => cases todo <;> exact h
    | classified log changes =>
      cases todo with
      | nil => trivial
      | cons did todo => exact ⟨h.1, fun hTrigger => (h.2 hTrigger).mono hFound⟩

/-- A step of one sweep that leaves the stored copies alone. -/
theorem Inv.move (h : Inv crates deviceKey named s) (hPhase : s.phases[i]? = some old)
    (hFinds : ∀ did cid, old.finds did cid = true → new.finds did cid = true)
    (hOk : (∀ did cid, s.found did cid = true → (s.setPhase i new).found did cid = true) →
      new.Ok crates deviceKey named (s.setPhase i new)) :
    Inv crates deviceKey named (s.setPhase i new) := by
  have hFound : ∀ did cid, s.found did cid = true → (s.setPhase i new).found did cid = true :=
    fun did cid => found_set hPhase rfl hFinds
  exact
    { directory := h.directory
      cached := by
        intro did log hLog
        obtain ⟨hNamed, hCovered⟩ := h.cached did log hLog
        exact ⟨hNamed, hCovered.mono hFound⟩
      phases := forall_mem_set (fun phase hMem => (h.phases phase hMem).mono hFound)
        (hOk hFound) }

/-! ## Sweeps -/

theorem finds_background {todo : List String} {stage : Stage} {statuses : List IdentityStatus} :
    (Phase.sweeping .background todo stage statuses).finds did cid = false := by
  cases todo with
  | nil => rfl
  | cons current todo => cases stage <;> rfl

theorem finds_classified {current : String} {todo : List String}
    {changes : List UnauthorizedChange} {statuses : List IdentityStatus} :
    (Phase.sweeping .foreground (current :: todo) (.classified log changes) statuses).finds did
      cid = (hasChange did cid statuses ||
        (current == did && changes.any fun change => change.cid == cid)) :=
  Bool.false_or _

theorem finds_asking {todo : List String} {statuses : List IdentityStatus} :
    (Phase.sweeping .foreground todo .asking statuses).finds did cid =
      hasChange did cid statuses := by
  cases todo <;> rfl

theorem finds_fetched {todo : List String} {statuses : List IdentityStatus} :
    (Phase.sweeping .foreground todo (.fetched log) statuses).finds did cid =
      hasChange did cid statuses := by
  cases todo <;> rfl

theorem hasChange_append {statuses : List IdentityStatus} {status : IdentityStatus} :
    hasChange did cid (statuses ++ [status]) = (hasChange did cid statuses ||
      (status.did == did && status.unauthorizedChanges.any fun change => change.cid == cid)) := by
  simp [hasChange]

/-- A sweep that goes on keeps what it found, the changes of the identity that it leaves too. -/
theorem finds_next {trigger : SweepTrigger} {current : String} {todo : List String}
    {stage : Stage} {statuses : List IdentityStatus} {checkFailed : Bool}
    {changes : List UnauthorizedChange}
    (hStage : ∀ log found, stage = .classified log found → changes = found)
    (h : (Phase.sweeping trigger (current :: todo) stage statuses).finds did cid = true) :
    (Phase.sweeping trigger todo .asking (statuses ++ [⟨current, checkFailed, changes⟩])).finds
      did cid = true := by
  cases trigger with
  | background =>
    rw [finds_background] at h
    cases h
  | foreground =>
    rw [finds_asking, hasChange_append]
    cases stage with
    | asking =>
      rw [finds_asking] at h
      rw [h, Bool.true_or]
    | fetched log =>
      rw [finds_fetched] at h
      rw [h, Bool.true_or]
    | classified log found =>
      rw [finds_classified] at h
      rw [hStage log found rfl]
      exact h

/-- A sweep that leaves an identity for the next one. -/
theorem Inv.next (h : Inv crates deviceKey named s) {trigger : SweepTrigger} {current : String}
    {todo : List String} {stage : Stage} {statuses : List IdentityStatus} {checkFailed : Bool}
    {changes : List UnauthorizedChange}
    (hPhase : s.phases[i]? = some (.sweeping trigger (current :: todo) stage statuses))
    (hStage : ∀ log found, stage = .classified log found → changes = found) :
    Inv crates deviceKey named (s.next i trigger current todo statuses checkFailed changes) := by
  refine h.move hPhase (fun did cid => finds_next hStage) fun _ => ?_
  cases todo <;> trivial

/-! ## Checks -/

theorem examine_some {key : DidKeyUri} {fetched : String}
    {cached : Except String (Option String)} {device : Except String Unit}
    {changes : List UnauthorizedChange}
    (h : examine crates key fetched cached device = .ok (some changes)) :
    ∃ entries copy, parseAuditLog crates fetched = .ok entries ∧ cached = .ok copy ∧
      changes = classify crates key entries (diffAuditLogs (cachedEntries crates copy) entries) := by
  obtain ⟨entries, hParse, h⟩ := bind_ok.mp h
  obtain ⟨copy, hCopy, h⟩ := bind_ok.mp h
  dsimp only at h
  split at h
  · cases h
  · obtain ⟨_, _, h⟩ := bind_ok.mp h
    cases h
    exact ⟨entries, copy, mapError_ok.mp hParse, mapError_ok.mp hCopy, rfl⟩

/-- A new operation that the device key did not sign is among the changes. -/
theorem mem_classify {key : DidKeyUri} {entries new : List AuditEntry} {entry : AuditEntry}
    (hEntry : entry ∈ new) (hForeign : isSignedBy crates key entry.operation = false) :
    ∃ change ∈ classify crates key entries new, change.cid = entry.cid := by
  refine ⟨unauthorizedChange crates entries entry, List.mem_map.mpr ⟨entry, ?_, rfl⟩, rfl⟩
  exact List.mem_filter.mpr ⟨hEntry, by simp [hForeign]⟩

theorem mem_diffAuditLogs {cached current : List AuditEntry} {entry : AuditEntry} :
    entry ∈ diffAuditLogs cached current ↔
      entry ∈ current ∧ (cached.map AuditEntry.cid).contains entry.cid = false := by
  rw [diffAuditLogs, List.mem_filter, Bool.not_eq_true']

/-- What the stored copy has of a log was found already. -/
theorem Inv.found_of_cached (h : Inv crates deviceKey named s) (hNamed : Named crates named log)
    {entry : AuditEntry} (hEntry : entry ∈ cachedEntries crates (some log))
    (hForeign : isSignedBy crates (deviceKey did) entry.operation = false)
    (hCached : s.isCached crates did entry.cid = true) : s.found did entry.cid = true := by
  cases hCopy : s.cached did with
  | none => simp [State.isCached, hCopy, cachedEntries] at hCached
  | some copy =>
    obtain ⟨hCopyNamed, hCovered⟩ := h.cached did copy hCopy
    rw [State.isCached, hCopy, List.contains_iff_mem, List.mem_map] at hCached
    obtain ⟨old, hOld, hCid⟩ := hCached
    rw [operation_eq hNamed hCopyNamed hEntry hOld hCid.symm] at hForeign
    rw [← hCid]
    exact hCovered old hOld hForeign

/-- A foreground check holds every operation of its log that was not found before. -/
theorem Inv.classified (h : Inv crates deviceKey named s) {trigger : SweepTrigger}
    {todo : List String} {statuses : List IdentityStatus} {changes : List UnauthorizedChange}
    {read : Except String Unit} {device : Except String Unit}
    (hPhase : s.phases[i]? = some (.sweeping trigger (did :: todo) (.fetched log) statuses))
    (hExamined : examine crates (deviceKey did) log (read.map fun _ => s.cached did) device =
      .ok (some changes)) :
    Inv crates deviceKey named
      (s.setPhase i (.sweeping trigger (did :: todo) (.classified log changes) statuses)) := by
  have hNamed : Named crates named log := h.phases _ (List.mem_of_getElem? hPhase)
  refine h.move hPhase ?_ fun hFound => ⟨hNamed, ?_⟩
  · intro d c hFinds
    cases trigger with
    | background =>
      rw [finds_background] at hFinds
      cases hFinds
    | foreground =>
      rw [finds_fetched] at hFinds
      rw [finds_classified, hFinds, Bool.true_or]
  · rintro rfl entry hEntry hForeign
    by_cases hCached : s.isCached crates did entry.cid = true
    · exact hFound did entry.cid (h.found_of_cached hNamed hEntry hForeign hCached)
    · obtain ⟨entries, copy, hParse, hCopy, rfl⟩ := examine_some hExamined
      obtain rfl : copy = s.cached did := by
        cases read with
        | error e => cases hCopy
        | ok u => exact (Except.ok.inj hCopy).symm
      rw [cachedEntries_of_parse hParse] at hEntry
      have hNew := mem_diffAuditLogs.mpr ⟨hEntry, Bool.eq_false_iff.mpr hCached⟩
      obtain ⟨change, hChange, hCid⟩ := mem_classify hNew hForeign
      rw [found_iff]
      refine ⟨_, mem_set_new hPhase, ?_⟩
      rw [finds_classified]
      have hAny : ((classify crates (deviceKey did) entries
          (diffAuditLogs (cachedEntries crates (s.cached did)) entries)).any
            fun change => change.cid == entry.cid) = true :=
        List.any_eq_true.mpr ⟨change, hChange, beq_iff_eq.mpr hCid⟩
      rw [hAny, beq_self_eq_true, Bool.and_self, Bool.or_true]

/-- A check may store its log when everything in it that the device did not sign was found. -/
theorem Inv.store (h : Inv crates deviceKey named s) {trigger : SweepTrigger}
    {todo : List String} {statuses : List IdentityStatus} {changes : List UnauthorizedChange}
    (hPhase : s.phases[i]? =
      some (.sweeping trigger (did :: todo) (.classified log changes) statuses))
    (hStores : StoresNoAlert crates deviceKey s (.store i true)) :
    Inv crates deviceKey named { s with cached := Function.update s.cached did (some log) } := by
  obtain ⟨hNamed, hForeground⟩ := h.phases _ (List.mem_of_getElem? hPhase)
  have hCovered : Covered crates deviceKey s did log := by
    cases trigger with
    | foreground => exact hForeground rfl
    | background =>
      simp only [StoresNoAlert, State.storesQuietly, hPhase, List.all_eq_true] at hStores
      intro entry hEntry hForeign
      have hEither := hStores entry hEntry
      rw [hForeign, Bool.false_or, Bool.or_eq_true] at hEither
      rcases hEither with hCached | hFound
      · exact h.found_of_cached hNamed hEntry hForeign hCached
      · exact hFound
  refine ⟨h.directory, ?_, fun phase hMem => (h.phases phase hMem).mono fun _ _ hFound => hFound⟩
  intro other copy hCopy
  by_cases hOther : other = did
  · subst hOther
    dsimp only at hCopy
    rw [Function.update_self] at hCopy
    cases hCopy
    exact ⟨hNamed, hCovered⟩
  · dsimp only at hCopy
    rw [Function.update_of_ne hOther] at hCopy
    exact h.cached other copy hCopy

theorem Inv.finish (h : Inv crates deviceKey named s) {trigger : SweepTrigger}
    {statuses : List IdentityStatus}
    (hPhase : s.phases[i]? = some (.sweeping trigger [] .asking statuses)) :
    Inv crates deviceKey named (s.setPhase i (.returned trigger statuses)) := by
  refine h.move hPhase ?_ fun _ => trivial
  intro did cid hFinds
  cases trigger with
  | background =>
    rw [finds_background] at hFinds
    cases hFinds
  | foreground =>
    rw [finds_asking] at hFinds
    rw [Phase.finds, Phase.reports, hFinds, Bool.true_or]

theorem Inv.publish (h : Inv crates deviceKey named s) (did : String)
    (hNamed : Named crates named log) : Inv crates deviceKey named
      { s with directory := Function.update s.directory did (some log) } := by
  refine ⟨?_, h.cached, fun phase hMem => (h.phases phase hMem).mono fun _ _ hFound => hFound⟩
  intro other served hServed
  dsimp only at hServed
  by_cases hOther : other = did
  · rw [hOther, Function.update_self] at hServed
    cases hServed
    exact hNamed
  · rw [Function.update_of_ne hOther] at hServed
    exact h.directory other served hServed

theorem Inv.start (h : Inv crates deviceKey named s) (trigger : SweepTrigger)
    (todo : List String) : Inv crates deviceKey named
      { s with phases := s.phases ++ [.sweeping trigger todo .asking []] } := by
  have hFound : ∀ did cid, s.found did cid = true →
      State.found { s with phases := s.phases ++ [.sweeping trigger todo .asking []] } did cid =
        true := by
    intro did cid hWas
    rw [State.found, List.any_append, Bool.or_eq_true]
    exact Or.inl hWas
  refine ⟨h.directory, ?_, ?_⟩
  · intro did log hLog
    obtain ⟨hNamed, hCovered⟩ := h.cached did log hLog
    exact ⟨hNamed, hCovered.mono hFound⟩
  · refine forall_mem_append_singleton (fun phase hMem => (h.phases phase hMem).mono hFound) ?_
    cases todo <;> trivial

variable {a : Action}

theorem inv_step (h : Inv crates deviceKey named s) (hNamed : a.Named crates named)
    (hStores : StoresNoAlert crates deviceKey s a) (hStep : s.step crates deviceKey a = some t) :
    Inv crates deviceKey named t := by
  cases a with
  | publish did log =>
    cases hStep
    exact h.publish did hNamed
  | start trigger identities =>
    cases hStep
    exact h.start trigger _
  | fetch i answers =>
    simp only [State.step] at hStep
    split at hStep
    · rename_i trigger did todo statuses hPhase
      split at hStep
      · rename_i log hLog
        cases hStep
        refine h.move hPhase ?_ fun _ => h.directory did log hLog
        intro d c hFinds
        cases trigger with
        | background =>
          rw [finds_background] at hFinds
          cases hFinds
        | foreground =>
          rw [finds_asking] at hFinds
          rw [finds_fetched, hFinds]
      · cases hStep
        exact h.next hPhase nofun
    · cases hStep
  | classify i log device =>
    simp only [State.step] at hStep
    split at hStep
    · rename_i trigger did todo fetched statuses hPhase
      split at hStep
      · cases hStep
        exact h.next hPhase nofun
      · cases hStep
        exact h.next hPhase nofun
      · rename_i changes hExamined
        cases hStep
        exact h.classified hPhase hExamined
    · cases hStep
  | store i succeeds =>
    simp only [State.step] at hStep
    split at hStep
    · rename_i trigger did todo fetched changes statuses hPhase
      cases hStep
      have hStage : ∀ log found, Stage.classified fetched changes = .classified log found →
          changes = found := by
        rintro log found ⟨⟩
        rfl
      cases succeeds with
      | true => exact (h.store hPhase hStores).next hPhase hStage
      | false => exact h.next hPhase hStage
    · cases hStep
  | finish i =>
    simp only [State.step] at hStep
    split at hStep
    · rename_i trigger statuses hPhase
      cases hStep
      exact h.finish hPhase
    · cases hStep

/-! ## Runs -/

theorem Inv.alerted (h : Inv crates deviceKey named s) (hLog : s.directory did = some log)
    {entry : AuditEntry} (hEntry : entry ∈ cachedEntries crates (some log))
    (hForeign : isSignedBy crates (deviceKey did) entry.operation = false) :
    Alerted crates deviceKey s did entry.cid := by
  have hNamed := h.directory did log hLog
  by_cases hCached : s.isCached crates did entry.cid = true
  · have hFound := h.found_of_cached hNamed hEntry hForeign hCached
    obtain ⟨phase, hMem, hFinds⟩ := found_iff.mp hFound
    rw [Phase.finds, Bool.or_eq_true] at hFinds
    rcases hFinds with hReports | hHolds
    · exact Or.inl ⟨phase, hMem, hReports⟩
    · exact Or.inr (Or.inl ⟨phase, hMem, hHolds⟩)
  · right
    right
    obtain ⟨entries, hParse, _⟩ := hNamed
    rw [cachedEntries_of_parse hParse] at hEntry
    have hNew := mem_diffAuditLogs.mpr ⟨hEntry, Bool.eq_false_iff.mpr hCached⟩
    have hSome : (diffAuditLogs (cachedEntries crates (s.cached did)) entries).isEmpty = false := by
      rw [List.isEmpty_eq_false_iff_exists_mem]
      exact ⟨entry, hNew⟩
    have hPending : s.pending crates deviceKey did = classify crates (deviceKey did) entries
        (diffAuditLogs (cachedEntries crates (s.cached did)) entries) := by
      simp only [State.pending, hLog, examine, hParse, Except.mapError, bind, Except.bind, hSome]
      rfl
    rw [hPending]
    exact mem_classify hNew hForeign

/-- Unless a background check stores it first, an operation that the device did not sign is
reported by a foreground sweep, held by one, or reported by the next check. -/
theorem alerts_kept {actions : List Action} (hNamed : ∀ a ∈ actions, a.Named crates named)
    (hStores : Along (State.step crates deviceKey) (StoresNoAlert crates deviceKey) State.initial
      actions)
    (hRun : run (State.step crates deviceKey) State.initial actions = some s)
    (hLog : s.directory did = some log) {entry : AuditEntry}
    (hEntry : entry ∈ cachedEntries crates (some log))
    (hForeign : isSignedBy crates (deviceKey did) entry.operation = false) :
    Alerted crates deviceKey s did entry.cid := by
  have hAll : Along (State.step crates deviceKey) (fun _ a => a.Named crates named)
      State.initial actions := along_of_forall hNamed
  have hInv := run_invariant_along
    (fun _ _ _ h hGuard hStep => inv_step h hGuard.1 hGuard.2 hStep) inv_initial
    (hAll.and hStores) hRun
  exact hInv.alerted hLog hEntry hForeign

/-! ## An operation that another key signed -/

def foreignOperation : Json :=
  (SignedPlcOp.ofUnsigned sampleRotation rotationSample.sigText).toJson

def foreignLog : Json :=
  .array [.object
    [("did", .string "did:plc:alice"), ("operation", foreignOperation),
      ("cid", .string "bafyforeign"), ("nullified", .bool false),
      ("createdAt", .string "2026-03-29T00:00:00.000Z")]]

def foreignEntry : AuditEntry where
  did := "did:plc:alice"
  cid := "bafyforeign"
  createdAt := "2026-03-29T00:00:00.000Z"
  nullified := false
  operation := toValue foreignOperation

/-- The sample crates for an audit log, in which the key of the device is another one. -/
def monitorCrates : PlcCrates :=
  { rotationSample.crates sampleRotation with
    parseJson := fun json =>
      some (if json = rotationSample.json then foreignOperation else foreignLog)
    multibaseDecode := fun key =>
      if "did:key:" ++ key = sampleKey.uri then .ok sampleMultikey else .error "another key" }

def phoneKey : String → DidKeyUri :=
  fun _ => ⟨"did:key:zDnaePhone"⟩

theorem foreignLog_parsed :
    parseAuditLog monitorCrates "audit log" = .ok [foreignEntry] := by
  have hOther : "audit log" ≠ rotationSample.json := by decide +kernel
  simp only [parseAuditLog, monitorCrates, if_neg hOther]
  rfl

theorem foreignEntry_foreign (did : String) :
    isSignedBy monitorCrates (phoneKey did) foreignEntry.operation = false := by
  show isSignedBy monitorCrates ⟨"did:key:zDnaePhone"⟩ foreignEntry.operation = false
  decide +kernel

/-- The operation is published, and a sweep checks the identity. -/
def sweepOnce (trigger : SweepTrigger) : List Action :=
  [.publish "did:plc:alice" "audit log", .start trigger ["did:plc:alice", "did:web:example.com"],
    .fetch 0 true, .classify 0 (.ok ()) (.ok ()), .store 0 true, .finish 0]

theorem sweepOnce_named (trigger : SweepTrigger) : ∀ a ∈ sweepOnce trigger,
    a.Named monitorCrates fun _ => foreignEntry.operation := by
  have hNamed : Named monitorCrates (fun _ => foreignEntry.operation) "audit log" :=
    ⟨[foreignEntry], foreignLog_parsed, by simp⟩
  simp [sweepOnce, Action.Named, hNamed]

theorem foreignEntry_mem :
    foreignEntry ∈ cachedEntries monitorCrates (some "audit log") := by
  rw [cachedEntries_of_parse foreignLog_parsed]
  exact List.mem_singleton_self _

theorem alerts_kept_foreground : ∃ s,
    run (State.step monitorCrates phoneKey) State.initial (sweepOnce .foreground) = some s ∧
      s.found "did:plc:alice" "bafyforeign" = true ∧
      Alerted monitorCrates phoneKey s "did:plc:alice" "bafyforeign" := by
  have hRuns : (run (State.step monitorCrates phoneKey) State.initial
      (sweepOnce .foreground)).any (fun s => s.found "did:plc:alice" "bafyforeign" &&
        s.directory "did:plc:alice" == some "audit log") = true := by
    decide +kernel
  obtain ⟨s, hRun, hEnd⟩ := (Option.any_eq_true _ _).mp hRuns
  obtain ⟨hFound, hLog⟩ := Bool.and_eq_true_iff.mp hEnd
  have hStores : Along (State.step monitorCrates phoneKey)
      (StoresNoAlert monitorCrates phoneKey) State.initial (sweepOnce .foreground) := by
    decide +kernel
  exact ⟨s, hRun, hFound, alerts_kept (sweepOnce_named .foreground) hStores hRun
    (eq_of_beq hLog) foreignEntry_mem (foreignEntry_foreign _)⟩

/-- A background sweep, and a foreground sweep after it that finds nothing new. -/
def backgroundFirst : List Action :=
  sweepOnce .background ++ [.start .foreground ["did:plc:alice"], .fetch 1 true,
    .classify 1 (.ok ()) (.ok ()), .finish 1]

theorem background_consumes_alert :
    ¬ ∀ (named : String → Json) (actions : List Action) (s : State) (did log : String)
      (entry : AuditEntry),
      (∀ a ∈ actions, a.Named monitorCrates named) →
      run (State.step monitorCrates phoneKey) State.initial actions = some s →
      s.directory did = some log → entry ∈ cachedEntries monitorCrates (some log) →
      isSignedBy monitorCrates (phoneKey did) entry.operation = false →
      Alerted monitorCrates phoneKey s did entry.cid := by
  intro hClaim
  have hRuns : (run (State.step monitorCrates phoneKey) State.initial backgroundFirst).any
      (fun s => !s.found "did:plc:alice" "bafyforeign" &&
        (s.pending monitorCrates phoneKey "did:plc:alice").isEmpty &&
        s.directory "did:plc:alice" == some "audit log") = true := by
    decide +kernel
  obtain ⟨s, hRun, hEnd⟩ := (Option.any_eq_true _ _).mp hRuns
  simp only [Bool.and_eq_true, Bool.not_eq_true', beq_iff_eq] at hEnd
  obtain ⟨⟨hLost, hNone⟩, hLog⟩ := hEnd
  have hNamed : ∀ a ∈ backgroundFirst,
      a.Named monitorCrates fun _ => foreignEntry.operation := by
    intro a ha
    rcases List.mem_append.mp ha with hFirst | hSecond
    · exact sweepOnce_named .background a hFirst
    · simp only [List.mem_cons, List.not_mem_nil, or_false] at hSecond
      rcases hSecond with rfl | rfl | rfl | rfl <;> trivial
  have hNotFound : ∀ phase ∈ s.phases, phase.finds "did:plc:alice" foreignEntry.cid = false :=
    fun phase hMem => Bool.eq_false_iff.mpr (List.any_eq_false.mp hLost phase hMem)
  rcases hClaim _ _ s _ _ foreignEntry hNamed hRun hLog foreignEntry_mem
    (foreignEntry_foreign _) with
    ⟨phase, hMem, hReports⟩ | ⟨phase, hMem, hHolds⟩ | ⟨change, hChange, _⟩
  · have hFinds := hNotFound phase hMem
    rw [Phase.finds, hReports, Bool.true_or] at hFinds
    cases hFinds
  · have hFinds := hNotFound phase hMem
    rw [Phase.finds, hHolds, Bool.or_true] at hFinds
    cases hFinds
  · rw [List.isEmpty_iff.mp hNone] at hChange
    cases hChange

end Ezpds.Wallet
