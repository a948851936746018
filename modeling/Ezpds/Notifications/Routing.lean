import Ezpds.Notifications.Worker

/-!
# Where pushes go

The relay keeps one live handle for a token, and every registration that names the token is to
name that handle: the job of a registration is stamped on all of them. Two jobs act on what they
read when they were made. The drop of a handle takes it from every registration that shares the
token, whoever asked for it; and the answer to a push to an old token prunes the registration
that has a new one by now.

* `registrations_routed`: in every run without such a drop or such an answer the registrations
  name the relay's handles whenever the work is done, and only dead tokens are pruned.
* `sibling_stranded`: a device with two accounts, one of which is unregistered.
* `late_answer_prunes`: a device whose new token is pruned for the old one.
-/

namespace Ezpds.Notifications

open Library

/-! ## What is to hold -/

/-- The handle that the relay holds for a token. -/
def heldHandle (handles : List HandleRow) (apnsToken : String) : Option String :=
  (handles.find? fun row => row.apnsToken = apnsToken).map HandleRow.handle

def RegistrationRow.RoutedBy (row : RegistrationRow) (handles : List HandleRow) : Prop :=
  ∃ handle, row.pushHandle = some handle ∧ heldHandle handles row.apnsToken = some handle

def NotifyJob.Registers (apnsToken : String) : NotifyJob → Prop
  | .registerHandle _ token _ => token = apnsToken
  | .dropHandle _ | .push .. => False

instance (apnsToken : String) : (job : NotifyJob) → Decidable (job.Registers apnsToken)
  | .registerHandle _ token _ => inferInstanceAs (Decidable (token = apnsToken))
  | .dropHandle _ | .push .. => .isFalse nofun

def Request.Registers (apnsToken : String) : Request → Prop
  | .sending job => job.Registers apnsToken
  | .unregistering .. | .purging .. => False

instance (apnsToken : String) : (request : Request) → Decidable (request.Registers apnsToken)
  | .sending job => inferInstanceAs (Decidable (job.Registers apnsToken))
  | .unregistering .. | .purging .. => .isFalse nofun

namespace State

variable (s : State)

/-- A job that registers the token is on the queue, or its request is about to put it there. -/
def Reregisters (apnsToken : String) : Prop :=
  (∃ job ∈ s.queue, job.Registers apnsToken) ∨ ∃ request ∈ s.requests, request.Registers apnsToken

instance (apnsToken : String) : Decidable (s.Reregisters apnsToken) :=
  inferInstanceAs (Decidable (_ ∨ _))

/-- The queue is empty and its last job done. The job of a registration counts as queued from
the moment its row is written. -/
def Settled : Prop :=
  s.queue = [] ∧ s.worker = .idle ∧ ∀ apnsToken, ¬ s.Reregisters apnsToken

/-- When there is nothing left to do, every registration names the handle of its token. -/
def Routed : Prop :=
  s.Settled → ∀ row ∈ s.registrations, row.RoutedBy s.handles

end State

/-- Every registration that the log prunes was pruned for its own token, reported dead before. -/
def PrunesDead (log : List Event) : Prop :=
  ∀ past row apnsToken, .pruned row apnsToken :: past <:+ log →
    row.apnsToken = apnsToken ∧ .dead apnsToken ∈ past

/-! ## The guard -/

/-- The worker is not about to prune the device for another token. -/
def Working.Spares (owner : RegistrationOwner) (apnsToken : String) : Working → Prop
  | .pruning other reported => other = owner → apnsToken = reported
  | .idle | .stamping .. | .reclaiming _ => True

instance (owner : RegistrationOwner) (apnsToken : String) :
    (worker : Working) → Decidable (worker.Spares owner apnsToken)
  | .pruning other reported => inferInstanceAs (Decidable (other = owner → apnsToken = reported))
  | .idle | .stamping .. | .reclaiming _ => .isTrue trivial

/-- No handle is dropped that a registration names, unless its token is to be registered again;
no push is answered with a dead token that its device has replaced; and no device replaces its
token between the answer and the prune. -/
def Current (s : State) : Action → Prop
  | .upsert owner apnsToken _ => s.worker.Spares owner apnsToken
  | .dropHandle handle => ∀ row ∈ s.registrations, row.pushHandle = some handle →
      s.Reregisters row.apnsToken
  | .push owner handle outcome => outcome = .unregistered →
      ∀ row ∈ s.registrations, row.owner = owner →
        ∀ target ∈ resolveHandle handle s.handles, row.apnsToken = target.apnsToken
  | _ => True

instance (s : State) : (a : Action) → Decidable (Current s a)
  | .upsert owner apnsToken _ => inferInstanceAs (Decidable (s.worker.Spares owner apnsToken))
  | .dropHandle handle => inferInstanceAs (Decidable (∀ row ∈ s.registrations,
      row.pushHandle = some handle → s.Reregisters row.apnsToken))
  | .push owner handle outcome => inferInstanceAs (Decidable (outcome = .unregistered →
      ∀ row ∈ s.registrations, row.owner = owner →
        ∀ target ∈ resolveHandle handle s.handles, row.apnsToken = target.apnsToken))
  | .readForUnregister _ | .unregister .. | .readForPurge _ | .purge .. | .fanOut _ | .send _
  | .skip .. | .registerHandle .. | .stamp .. | .reclaim _ | .prune .. => .isTrue trivial

/-! ## The relay's handles -/

variable {handles : List HandleRow} {apnsToken apnsTopic handle other : String}

@[simp] theorem held_registerHandle :
    heldHandle (registerHandle apnsToken apnsTopic handle handles) other =
      if other = apnsToken then some handle else heldHandle handles other := by
  rw [heldHandle, registerHandle, List.find?_append]
  split
  · rename_i hEq
    subst hEq
    have hNone : (deleteWhere (fun row => row.apnsToken = other) handles).find?
        (fun row => row.apnsToken = other) = none := by
      apply List.find?_eq_none.mpr
      intro row hRow
      exact ne_true_of_eq_false (mem_deleteWhere.mp hRow).2
    rw [hNone, Option.none_or, List.find?_singleton, if_pos (decide_eq_true rfl), Option.map_some]
  · rename_i hNe
    have hOthers : ∀ row : HandleRow, decide (row.apnsToken = other) = true →
        decide (row.apnsToken = apnsToken) = false := by
      intro row hRow
      have hToken := of_decide_eq_true hRow
      exact decide_eq_false (hToken ▸ hNe)
    rw [find?_deleteWhere hOthers, List.find?_singleton, if_neg, Option.or_none, heldHandle]
    simpa using Ne.symm hNe

/-- Dropping one handle leaves the tokens of the others alone. -/
theorem held_dropHandle (hHeld : heldHandle handles apnsToken = some handle)
    (hNe : handle ≠ other) :
    heldHandle (dropHandle other handles) apnsToken = some handle := by
  obtain ⟨row, hRow, rfl⟩ := Option.map_eq_some_iff.mp hHeld
  rw [heldHandle, dropHandle, find?_deleteWhere_of_find? hRow (decide_eq_false hNe),
    Option.map_some]

theorem not_held_dropHandle : heldHandle (dropHandle handle handles) apnsToken ≠ some handle := by
  intro hHeld
  obtain ⟨row, hRow, hEq⟩ := Option.map_eq_some_iff.mp hHeld
  have hKept := (mem_deleteWhere.mp (List.mem_of_find?_eq_some hRow)).2
  exact of_decide_eq_false hKept hEq

/-! ## The invariant -/

variable {s t : State} {owner : RegistrationOwner} {job : NotifyJob}

/-- No registration names the handle. -/
def State.Unclaimed (s : State) (handle : String) : Prop :=
  ∀ row ∈ s.registrations, row.pushHandle ≠ some handle

/-- What the worker knows between two of its steps. -/
def Working.Sound (s : State) : Working → Prop
  | .idle => True
  | .stamping apnsToken handle => heldHandle s.handles apnsToken = some handle ∧
      handle ∈ s.minted ∧ s.Unclaimed handle
  | .reclaiming handle => s.Unclaimed handle
  | .pruning owner apnsToken => .dead apnsToken ∈ s.log ∧
      ∀ row ∈ s.registrations, row.owner = owner → row.apnsToken = apnsToken

/-- The row is going to be stamped, or names the handle of its token. -/
def RegistrationRow.Fits (row : RegistrationRow) (s : State) : Prop :=
  s.Reregisters row.apnsToken ∨ (∃ handle, s.worker = .stamping row.apnsToken handle) ∨
    row.RoutedBy s.handles

structure Inv (s : State) : Prop where
  rows : ∀ row ∈ s.registrations, row.Fits s
  minted : ∀ row ∈ s.registrations, ∀ handle, row.pushHandle = some handle → handle ∈ s.minted
  worker : s.worker.Sound s
  pruned : PrunesDead s.log

/-! ## Steps of the requests -/

theorem State.Reregisters.mono (h : s.Reregisters apnsToken) (hQueue : s.queue ⊆ t.queue)
    (hRequests : ∀ request ∈ s.requests, request.Registers apnsToken → request ∈ t.requests) :
    t.Reregisters apnsToken := by
  obtain ⟨job, hJob, hToken⟩ | ⟨request, hRequest, hToken⟩ := h
  · exact .inl ⟨job, hQueue hJob, hToken⟩
  · exact .inr ⟨request, hRequests request hRequest hToken, hToken⟩

/-- A request that registers nothing is over. -/
theorem registers_erase {requests : List Request} {request ended : Request}
    (hEnded : ¬ ended.Registers apnsToken) (hRequest : request ∈ requests)
    (hToken : request.Registers apnsToken) : request ∈ requests.erase ended := by
  have hNe : request ≠ ended := by
    rintro rfl
    exact hEnded hToken
  exact (List.mem_erase_of_ne hNe).mpr hRequest

/-- What the worker knows survives as long as new rows name no handle and it spares them. -/
theorem Working.Sound.mono {worker : Working} (h : worker.Sound s)
    (hHandles : t.handles = s.handles) (hMinted : t.minted = s.minted) (hLog : t.log = s.log)
    (hRows : ∀ row ∈ t.registrations, row ∈ s.registrations ∨
      row.pushHandle = none ∧ worker.Spares row.owner row.apnsToken) : worker.Sound t := by
  have hUnclaimed : ∀ handle, s.Unclaimed handle → t.Unclaimed handle := by
    intro handle hNone row hRow
    obtain hOld | ⟨hNew, _⟩ := hRows row hRow
    · exact hNone row hOld
    · exact hNew ▸ nofun
  cases worker with
  | idle => trivial
  | stamping apnsToken handle =>
    exact ⟨hHandles ▸ h.1, hMinted ▸ h.2.1, hUnclaimed handle h.2.2⟩
  | reclaiming handle => exact hUnclaimed handle h
  | pruning owner apnsToken =>
    refine ⟨hLog ▸ h.1, fun row hRow hOwner => ?_⟩
    obtain hOld | ⟨_, hSpares⟩ := hRows row hRow
    · exact h.2 row hOld hOwner
    · exact hSpares hOwner.symm

/-- Fewer rows are still fine, whatever the requests do, as long as no registration is lost. -/
theorem Inv.requests (h : Inv s) {registrations : List RegistrationRow} {requests : List Request}
    (hRows : registrations ⊆ s.registrations)
    (hRequests : ∀ request ∈ s.requests, ∀ apnsToken, request.Registers apnsToken →
      request ∈ requests) :
    Inv { s with registrations := registrations, requests := requests } where
  rows row hRow := by
    refine (h.rows row (hRows hRow)).imp_left fun hAgain => ?_
    exact hAgain.mono (List.Subset.refl _) fun request hRequest =>
      hRequests request hRequest row.apnsToken
  minted row hRow := h.minted row (hRows hRow)
  worker := h.worker.mono rfl rfl rfl fun _ hRow => .inl (hRows hRow)
  pruned := h.pruned

theorem deleteWhere_subset {ρ : Type} {p : ρ → Bool} {rows : List ρ} :
    deleteWhere p rows ⊆ rows :=
  fun _ hRow => (mem_deleteWhere.mp hRow).1

theorem mem_upsertRegistration {rows : List RegistrationRow} {row : RegistrationRow}
    (h : row ∈ upsertRegistration owner apnsToken apnsTopic rows) :
    row ∈ rows ∨ row = ⟨owner, apnsToken, apnsTopic, none⟩ :=
  (List.mem_append.mp h).imp (fun hOld => deleteWhere_subset hOld) List.mem_singleton.mp

theorem inv_upsert (h : Inv s) (hCurrent : Current s (.upsert owner apnsToken apnsTopic))
    (hStep : Machine.step s (.upsert owner apnsToken apnsTopic) = some t) : Inv t := by
  cases hStep
  refine ⟨fun row hRow => ?_, fun row hRow handle hHandle => ?_, ?_, h.pruned⟩
  · obtain hOld | rfl := mem_upsertRegistration hRow
    · refine (h.rows row hOld).imp_left fun hAgain => ?_
      exact hAgain.mono (List.Subset.refl _) fun _ hRequest _ => List.mem_cons_of_mem _ hRequest
    · exact .inl (.inr ⟨_, List.mem_cons_self, rfl⟩)
  · obtain hOld | rfl := mem_upsertRegistration hRow
    · exact h.minted row hOld handle hHandle
    · cases hHandle
  · refine h.worker.mono rfl rfl rfl fun row hRow => ?_
    refine (mem_upsertRegistration hRow).imp_right ?_
    rintro rfl
    exact ⟨rfl, hCurrent⟩

theorem inv_send (h : Inv s) (hStep : Machine.step s (.send job) = some t) : Inv t := by
  obtain ⟨_, hEq⟩ := Option.ite_none_right_eq_some.mp hStep
  cases hEq
  refine ⟨fun row hRow => (h.rows row hRow).imp_left ?_, h.minted,
    h.worker.mono rfl rfl rfl fun _ hRow => .inl hRow, h.pruned⟩
  -- a registration moves from its request to the queue
  rintro (⟨other, hJob, hToken⟩ | ⟨request, hRequest, hToken⟩)
  · exact .inl ⟨other, List.mem_append_left _ hJob, hToken⟩
  · by_cases hSame : request = .sending job
    · subst hSame
      exact .inl ⟨job, List.mem_append_right _ List.mem_cons_self, hToken⟩
    · exact .inr ⟨request, (List.mem_erase_of_ne hSame).mpr hRequest, hToken⟩

/-! ## Steps of the worker -/

theorem mem_tail_of_ne {α : Type} {queue : List α} {a b : α} (hHead : queue.head? = some a)
    (hMem : b ∈ queue) (hNe : b ≠ a) : b ∈ queue.tail := by
  cases queue with
  | nil => cases hHead
  | cons head rest =>
    cases hHead
    exact (List.mem_cons.mp hMem).resolve_left hNe

/-- A job that registers nothing comes off the queue. -/
theorem State.Reregisters.tail (h : s.Reregisters apnsToken) (hHead : s.queue.head? = some job)
    (hJob : ¬ job.Registers apnsToken) :
    (∃ job ∈ s.queue.tail, job.Registers apnsToken) ∨
      ∃ request ∈ s.requests, request.Registers apnsToken := by
  refine h.imp_left ?_
  rintro ⟨other, hOther, hToken⟩
  refine ⟨other, mem_tail_of_ne hHead hOther ?_, hToken⟩
  rintro rfl
  exact hJob hToken

/-- A row of the idle worker's state names the handle of its token, or is registered again. -/
theorem Inv.of_idle (h : Inv s) (hIdle : s.worker = .idle) {row : RegistrationRow}
    (hRow : row ∈ s.registrations) : s.Reregisters row.apnsToken ∨ row.RoutedBy s.handles := by
  refine (h.rows row hRow).imp_right fun hFits => hFits.resolve_left ?_
  rintro ⟨handle, hStamping⟩
  rw [hIdle] at hStamping
  cases hStamping

theorem inv_registerHandle (h : Inv s)
    (hStep : Machine.step s (.registerHandle owner apnsToken apnsTopic handle) = some t) :
    Inv t := by
  obtain ⟨⟨⟨hIdle, hHead⟩, hFresh⟩, hEq⟩ := Option.ite_none_right_eq_some.mp hStep
  cases hEq
  refine ⟨fun row hRow => ?_, fun row hRow other hOther => ?_, ⟨?_, List.mem_cons_self, ?_⟩,
    h.pruned⟩
  · by_cases hToken : row.apnsToken = apnsToken
    · exact .inr (.inl ⟨handle, by rw [hToken]⟩)
    · have hJob : ¬ (NotifyJob.registerHandle owner apnsToken apnsTopic).Registers row.apnsToken :=
        Ne.symm hToken
      obtain hAgain | ⟨other, hOther, hHeld⟩ := h.of_idle hIdle hRow
      · exact .inl (hAgain.tail hHead hJob)
      · refine .inr (.inr ⟨other, hOther, ?_⟩)
        rw [held_registerHandle, if_neg hToken, hHeld]
  · exact List.mem_cons_of_mem _ (h.minted row hRow other hOther)
  · rw [held_registerHandle, if_pos rfl]
  · intro row hRow hClaims
    exact hFresh (h.minted row hRow handle hClaims)

theorem inv_stamp (h : Inv s) (hStep : Machine.step s (.stamp apnsToken handle) = some t) :
    Inv t := by
  obtain ⟨hPhase, hEq⟩ := Option.ite_none_right_eq_some.mp hStep
  cases hEq
  have hWorker := h.worker
  rw [hPhase] at hWorker
  obtain ⟨hHeld, hMinted, hUnclaimed⟩ := hWorker
  have hStamped : ∀ row ∈ (setRegistrationHandlesForToken apnsToken handle s.registrations).1,
      (row.apnsToken = apnsToken ∧ row.pushHandle = some handle) ∨
        row ∈ s.registrations ∧ row.apnsToken ≠ apnsToken := by
    intro row hRow
    obtain ⟨old, hOld, rfl⟩ := mem_updateWhere.mp hRow
    split
    · rename_i hToken
      exact .inl ⟨of_decide_eq_true hToken, rfl⟩
    · rename_i hToken
      exact .inr ⟨hOld, fun hEq => hToken (decide_eq_true hEq)⟩
  refine ⟨fun row hRow => ?_, fun row hRow other hOther => ?_, ?_, h.pruned⟩
  · obtain ⟨hToken, hClaims⟩ | ⟨hOld, hToken⟩ := hStamped row hRow
    · exact .inr (.inr ⟨handle, hClaims, hToken ▸ hHeld⟩)
    · obtain hAgain | ⟨other, hStamping⟩ | hRouted := h.rows row hOld
      · exact .inl hAgain
      · rw [hPhase] at hStamping
        cases hStamping
        exact absurd rfl hToken
      · exact .inr (.inr hRouted)
  · obtain ⟨_, hClaims⟩ | ⟨hOld, _⟩ := hStamped row hRow
    · rw [hClaims] at hOther
      cases hOther
      exact hMinted
    · exact h.minted row hOld other hOther
  · split
    · -- no registration names the token, so none was stamped
      rename_i hNone
      intro row hRow
      obtain ⟨old, hOld, rfl⟩ := mem_updateWhere.mp hRow
      rw [if_neg (List.countP_eq_zero.mp hNone old hOld)]
      exact hUnclaimed old hOld
    · trivial

/-- A handle comes off the relay that only registrations to come again may name. -/
theorem Inv.rows_drop (h : Inv s) (hPhase : ∀ apnsToken other, s.worker ≠ .stamping apnsToken other)
    (hNamed : ∀ row ∈ s.registrations, row.pushHandle = some handle →
      s.Reregisters row.apnsToken) :
    ∀ row ∈ s.registrations,
      s.Reregisters row.apnsToken ∨ row.RoutedBy (dropHandle handle s.handles) := by
  intro row hRow
  obtain hAgain | ⟨other, hStamping⟩ | ⟨other, hClaims, hHeld⟩ := h.rows row hRow
  · exact .inl hAgain
  · exact absurd hStamping (hPhase _ _)
  · by_cases hSame : other = handle
    · subst hSame
      exact .inl (hNamed row hRow hClaims)
    · exact .inr ⟨other, hClaims, held_dropHandle hHeld hSame⟩

theorem inv_reclaim (h : Inv s) (hStep : Machine.step s (.reclaim handle) = some t) : Inv t := by
  obtain ⟨hPhase, hEq⟩ := Option.ite_none_right_eq_some.mp hStep
  cases hEq
  have hUnclaimed := h.worker
  rw [hPhase] at hUnclaimed
  refine ⟨fun row hRow => ?_, h.minted, trivial, h.pruned⟩
  refine (h.rows_drop (hPhase ▸ nofun) (fun row hRow hClaims => ?_) row hRow).imp_right .inr
  exact absurd hClaims (hUnclaimed row hRow)

theorem inv_dropHandle (h : Inv s) (hCurrent : Current s (.dropHandle handle))
    (hStep : Machine.step s (.dropHandle handle) = some t) : Inv t := by
  obtain ⟨⟨hIdle, hHead⟩, hEq⟩ := Option.ite_none_right_eq_some.mp hStep
  cases hEq
  refine ⟨fun row hRow => ?_, h.minted, ?_, h.pruned⟩
  · obtain hAgain | hRouted := h.rows_drop (hIdle ▸ nofun) hCurrent row hRow
    · exact .inl (hAgain.tail hHead nofun)
    · exact .inr (.inr hRouted)
  · rw [hIdle]
    trivial

/-- A push comes off the queue. -/
theorem Inv.pushed (h : Inv s) (hNext : s.Next (.push owner handle)) {worker : Working}
    {log : List Event} (hWorker : worker.Sound { s with queue := s.queue.tail, log := log })
    (hLog : PrunesDead log) :
    Inv { s with queue := s.queue.tail, worker := worker, log := log } := by
  refine ⟨fun row hRow => ?_, h.minted, ?_, hLog⟩
  · obtain hAgain | hRouted := h.of_idle hNext.1 hRow
    · exact .inl (hAgain.tail hNext.2 nofun)
    · exact .inr (.inr hRouted)
  · cases worker with
    | idle => trivial
    | stamping apnsToken other => exact hWorker
    | reclaiming other => exact hWorker
    | pruning other apnsToken => exact hWorker

theorem prunesDead_dead {log : List Event} (h : PrunesDead log) :
    PrunesDead (.dead apnsToken :: log) := by
  intro past row reported hSuffix
  obtain hEq | hOld := List.suffix_cons_iff.mp hSuffix
  · cases hEq
  · exact h past row reported hOld

theorem prunesDead_pruned {log : List Event} {rows : List RegistrationRow} (h : PrunesDead log)
    (hDead : .dead apnsToken ∈ log) (hRows : ∀ row ∈ rows, row.apnsToken = apnsToken) :
    PrunesDead (rows.map (fun row => .pruned row apnsToken) ++ log) := by
  induction rows with
  | nil => exact h
  | cons row rows ih =>
    intro past pruned reported hSuffix
    obtain hEq | hOld := List.suffix_cons_iff.mp hSuffix
    · cases hEq
      exact ⟨hRows row List.mem_cons_self, List.mem_append_right _ hDead⟩
    · exact ih (fun row hRow => hRows row (List.mem_cons_of_mem _ hRow)) past pruned reported hOld

theorem inv_push {outcome : PushOutcome} (h : Inv s)
    (hCurrent : Current s (.push owner handle outcome))
    (hStep : Machine.step s (.push owner handle outcome) = some t) : Inv t := by
  obtain ⟨hNext, hEq⟩ := Option.ite_none_right_eq_some.mp hStep
  have hTaken : Inv { s with queue := s.queue.tail, worker := .idle, log := s.log } :=
    h.pushed hNext trivial h.pruned
  rw [← hNext.1] at hTaken
  split at hEq
  · cases hEq
    exact hTaken
  · rename_i target hTarget
    split at hEq
    · rename_i hDead
      cases hEq
      refine h.pushed hNext ⟨List.mem_cons_self, fun row hRow hOwner => ?_⟩
        (prunesDead_dead h.pruned)
      exact hCurrent hDead row hRow hOwner target hTarget
    · cases hEq
      exact hTaken

theorem inv_prune (h : Inv s) (hStep : Machine.step s (.prune owner apnsToken) = some t) :
    Inv t := by
  obtain ⟨hPhase, hEq⟩ := Option.ite_none_right_eq_some.mp hStep
  cases hEq
  have hWorker := h.worker
  rw [hPhase] at hWorker
  obtain ⟨hDead, hOwn⟩ := hWorker
  refine ⟨fun row hRow => ?_, fun row hRow => h.minted row (deleteWhere_subset hRow), trivial, ?_⟩
  · obtain hAgain | ⟨other, hStamping⟩ | hRouted := h.rows row (deleteWhere_subset hRow)
    · exact .inl hAgain
    · rw [hPhase] at hStamping
      cases hStamping
    · exact .inr (.inr hRouted)
  · refine prunesDead_pruned h.pruned hDead fun row hRow => ?_
    obtain ⟨hRow, hOwner⟩ := List.mem_filter.mp hRow
    exact hOwn row hRow (of_decide_eq_true hOwner)

/-- Every step within the guard keeps the invariant. -/
theorem inv_step (s : State) (a : Action) (t : State) (h : Inv s) (hCurrent : Current s a)
    (hStep : Machine.step s a = some t) : Inv t := by
  cases a with
  | upsert owner apnsToken apnsTopic => exact inv_upsert h hCurrent hStep
  | readForUnregister owner =>
    cases hStep
    exact h.requests (List.Subset.refl _) fun _ hRequest _ _ => List.mem_cons_of_mem _ hRequest
  | unregister owner handle =>
    obtain ⟨_, hEq⟩ := Option.ite_none_right_eq_some.mp hStep
    cases hEq
    have hEnded : ∀ apnsToken, ¬ (Request.unregistering owner handle).Registers apnsToken := nofun
    exact h.requests deleteWhere_subset fun _ hRequest apnsToken hToken =>
      List.mem_append_right _ (registers_erase (hEnded apnsToken) hRequest hToken)
  | readForPurge did =>
    cases hStep
    exact h.requests (List.Subset.refl _) fun _ hRequest _ _ => List.mem_cons_of_mem _ hRequest
  | purge did handles =>
    obtain ⟨_, hEq⟩ := Option.ite_none_right_eq_some.mp hStep
    cases hEq
    have hEnded : ∀ apnsToken, ¬ (Request.purging did handles).Registers apnsToken := nofun
    exact h.requests deleteWhere_subset fun _ hRequest apnsToken hToken =>
      List.mem_append_right _ (registers_erase (hEnded apnsToken) hRequest hToken)
  | fanOut did =>
    cases hStep
    exact h.requests (List.Subset.refl _) fun _ hRequest _ _ => List.mem_append_right _ hRequest
  | send job => exact inv_send h hStep
  | skip owner handle =>
    obtain ⟨_, hEq⟩ := Option.ite_none_right_eq_some.mp hStep
    cases hEq
    exact h.requests (List.Subset.refl _) fun _ hRequest _ => registers_erase nofun hRequest
  | registerHandle owner apnsToken apnsTopic handle => exact inv_registerHandle h hStep
  | stamp apnsToken handle => exact inv_stamp h hStep
  | reclaim handle => exact inv_reclaim h hStep
  | dropHandle handle => exact inv_dropHandle h hCurrent hStep
  | push owner handle outcome => exact inv_push h hCurrent hStep
  | prune owner apnsToken => exact inv_prune h hStep

theorem inv_start : Inv .start :=
  ⟨nofun, nofun, trivial, fun _ _ _ hSuffix => nomatch List.suffix_nil.mp hSuffix⟩

/-- In every run that drops no handle in use and prunes no token for another, the registrations
name the relay's handles whenever the work is done, and only dead tokens have been pruned. -/
theorem registrations_routed {as : List Action}
    (hCurrent : Along Machine.step Current .start as)
    (hRun : run Machine.step .start as = some t) : t.Routed ∧ PrunesDead t.log := by
  have hInv := run_invariant_along inv_step inv_start hCurrent hRun
  refine ⟨fun hSettled row hRow => ?_, hInv.pruned⟩
  obtain ⟨_, hIdle, hNothing⟩ := hSettled
  exact (hInv.of_idle hIdle hRow).resolve_left (hNothing row.apnsToken)

/-- The drop of a handle leaves every registration that names it without one. -/
theorem drop_unroutes {row : RegistrationRow} (hClaims : row.pushHandle = some handle)
    (hStep : Machine.step s (.dropHandle handle) = some t) : ¬ row.RoutedBy t.handles := by
  obtain ⟨_, hEq⟩ := Option.ite_none_right_eq_some.mp hStep
  cases hEq
  rintro ⟨other, hOther, hHeld⟩
  rw [hClaims] at hOther
  cases hOther
  exact not_held_dropHandle hHeld

/-! ## A device with two accounts -/

def alicePhone : RegistrationOwner := ⟨"did:plc:alice", "phone"⟩

def workPhone : RegistrationOwner := ⟨"did:plc:work", "phone"⟩

/-- The two accounts of the phone register its token; each time the handle rotates. -/
def sharedToken : List Action :=
  [.upsert alicePhone "token" "app", .send (.registerHandle alicePhone "token" "app"),
    .registerHandle alicePhone "token" "app" "handle-1", .stamp "token" "handle-1",
    .upsert workPhone "token" "app", .send (.registerHandle workPhone "token" "app"),
    .registerHandle workPhone "token" "app" "handle-2", .stamp "token" "handle-2"]

/-- The app is deleted from the phone: each account is pruned by its own push. -/
theorem registrations_routed_pruned :
    ∃ t, run Machine.step .start (sharedToken ++ [.fanOut "did:plc:alice",
        .send (.push alicePhone "handle-2"), .push alicePhone "handle-2" .unregistered,
        .prune alicePhone "token"]) = some t ∧
      t.registrations = [⟨workPhone, "token", "app", some "handle-2"⟩] ∧
      t.Routed ∧ PrunesDead t.log := by
  have hRun : run Machine.step .start (sharedToken ++ [.fanOut "did:plc:alice",
      .send (.push alicePhone "handle-2"), .push alicePhone "handle-2" .unregistered,
      .prune alicePhone "token"]) = some
      { registrations := [⟨workPhone, "token", "app", some "handle-2"⟩]
        handles := [⟨"handle-2", "token", "app"⟩]
        minted := ["handle-2", "handle-1"]
        queue := []
        worker := .idle
        requests := []
        log := [.pruned ⟨alicePhone, "token", "app", some "handle-2"⟩ "token", .dead "token"] } := by
    rfl
  have hCurrent : Along Machine.step Current .start (sharedToken ++ [.fanOut "did:plc:alice",
      .send (.push alicePhone "handle-2"), .push alicePhone "handle-2" .unregistered,
      .prune alicePhone "token"]) := by
    decide +kernel
  exact ⟨_, hRun, rfl, registrations_routed hCurrent hRun⟩

/-- One account is unregistered: the other still names the handle that the relay has dropped. -/
theorem sibling_stranded :
    ∃ t, run Machine.step .start (sharedToken ++ [.readForUnregister alicePhone,
        .unregister alicePhone (some "handle-2"), .send (.dropHandle "handle-2"),
        .dropHandle "handle-2"]) = some t ∧
      t.registrations = [⟨workPhone, "token", "app", some "handle-2"⟩] ∧ t.handles = [] ∧
      ¬ t.Routed := by
  have hRun : run Machine.step .start (sharedToken ++ [.readForUnregister alicePhone,
      .unregister alicePhone (some "handle-2"), .send (.dropHandle "handle-2"),
      .dropHandle "handle-2"]) = some
      { registrations := [⟨workPhone, "token", "app", some "handle-2"⟩]
        handles := []
        minted := ["handle-2", "handle-1"]
        queue := []
        worker := .idle
        requests := []
        log := [] } := by
    rfl
  refine ⟨_, hRun, rfl, rfl, fun hRouted => ?_⟩
  obtain ⟨_, _, hHeld⟩ := hRouted ⟨rfl, rfl, nofun⟩ _ List.mem_cons_self
  cases hHeld

/-- The phone gets a new token while a push to the old one is on its way: the answer about the
old token prunes the registration of the new one. -/
theorem late_answer_prunes :
    ∃ t, run Machine.step .start [.upsert alicePhone "token" "app",
        .send (.registerHandle alicePhone "token" "app"),
        .registerHandle alicePhone "token" "app" "handle-1", .stamp "token" "handle-1",
        .fanOut "did:plc:alice", .send (.push alicePhone "handle-1"),
        .upsert alicePhone "token-2" "app",
        .push alicePhone "handle-1" .unregistered, .prune alicePhone "token"] = some t ∧
      t.registrations = [] ∧ t.log = [.pruned ⟨alicePhone, "token-2", "app", none⟩ "token",
        .dead "token"] :=
  ⟨_, rfl, rfl, rfl⟩

end Ezpds.Notifications
