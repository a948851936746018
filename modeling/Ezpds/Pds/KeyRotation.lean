import Ezpds.Pds.RepoKeys
import Mathlib

/-!
# A key rotation at every cut point

The key table and the directory change in separate steps. They stay together as long as what
is on its way to the directory installs the key that is staged, and as long as a staged key
that the directory names is promoted before another one replaces it. A begin looks at neither:
it deletes the staged key of a complete that is already past its checks.

* `Inv`: which keys the phases, the submissions and the directory may name.
* `inv_step`: a step keeps it, when a begin stages nothing over a rotation under way.
* `rotation_consistent`: the directory names a key of the table, and signs with it.
-/

namespace Ezpds.Pds.RepoKeys

open Library Crypto

/-! ## The condition on a begin -/

/-- Past its checks, and the operation is still to be posted. -/
def Phase.toSubmit : Phase → Bool
  | .waiting _ _ landed => !landed
  | .submitting _ _ => true
  | _ => false

/-- No operation is on its way to the directory, and the directory names no staged key. -/
structure State.RotationIdle (s : State) : Prop where
  requests : ∀ phase ∈ s.requests, phase.toSubmit = false
  submissions : ∀ submission ∈ s.submissions, submission.delivery ≠ .pending
  head : ∀ row ∈ s.keys, row.status = .staged → s.head.atprotoKey ≠ some row.key.keyId

instance (s : State) : Decidable s.RotationIdle :=
  decidable_of_iff
    ((∀ phase ∈ s.requests, phase.toSubmit = false) ∧
      (∀ submission ∈ s.submissions, submission.delivery ≠ .pending) ∧
      ∀ row ∈ s.keys, row.status = .staged → s.head.atprotoKey ≠ some row.key.keyId)
    ⟨fun h => ⟨h.1, h.2.1, h.2.2⟩, fun h => ⟨h.requests, h.submissions, h.head⟩⟩

/-- A begin stages its key when no rotation is under way. -/
def BeginsAlone (s : State) : Label → Prop
  | .stage _ _ => s.RotationIdle
  | _ => True

instance (s : State) : ∀ label, Decidable (BeginsAlone s label)
  | .stage _ _ => inferInstanceAs (Decidable s.RotationIdle)
  | .presentBegin | .presentComplete _ | .readStaged _ | .readActive _ | .lockComplete _
  | .submit _ | .deliver _ | .lose _ | .succeed _ | .fail _ | .promote _ | .checkActive _
  | .report _ | .presentWrite | .lockWrite _ | .loadSigner _ | .sign _ | .endRequest _ =>
    .isTrue trivial

/-! ## What the table and the log must satisfy -/

/-- The server holds the private key of the key that the directory names. -/
def State.HoldsAtprotoKey (s : State) : Prop :=
  ∃ row ∈ s.keys, s.head.atprotoKey = some row.key.keyId

instance (s : State) : Decidable s.HoldsAtprotoKey :=
  inferInstanceAs (Decidable (∃ row ∈ s.keys, s.head.atprotoKey = some row.key.keyId))

/-- A commit signed after the completion of the rotation to the key that the directory named. -/
def Entry.Follows : Entry → Entry → Prop
  | .signed keyId atprotoKey, .completed reported =>
    atprotoKey = some reported → keyId = reported
  | _, _ => True

def SignedByAtprotoKey (log : List Entry) : Prop :=
  log.Pairwise Entry.Follows

/-! ## What identifies an operation -/

def Verified (crates : PlcCrates) (op : VerifiedPlcOp) : Prop :=
  ∃ text keys, verifyPlcOperation crates text keys = .ok op

/-- Operations are identified by the hash that their CID is, the head of the directory too. -/
structure CidsIdentify (crates : PlcCrates) (head : CurrentPlcState) : Prop where
  head : ∀ op, Verified crates op → op.cid = head.cid →
    op.verificationMethods = head.verificationMethods
  ops : ∀ op op', Verified crates op → Verified crates op' → op.cid = op'.cid →
    op.verificationMethods = op'.verificationMethods

def Installs (op : VerifiedPlcOp) (key : String) : Prop :=
  op.verificationMethods.get? ATPROTO_VERIFICATION_METHOD_ID = some key

theorem checkOperation_ok {crates : PlcCrates} {current : CurrentPlcState} {text key : String}
    {op : VerifiedPlcOp} (h : checkOperation crates current text = .ok (op, key)) :
    Verified crates op ∧ Installs op key := by
  rw [checkOperation, bind_ok] at h
  obtain ⟨verified, hVerified, h⟩ := h
  rw [ensure_bind_ok] at h
  split at h
  · rename_i found hFound
    obtain ⟨rfl, rfl⟩ := Prod.mk.inj (Except.ok.inj h.2)
    exact ⟨⟨text, _, mapError_ok.mp hVerified⟩, hFound⟩
  · cases h.2

theorem checkInstalls_ok {current : CurrentPlcState} {op : VerifiedPlcOp} {key : String}
    {staged : RepoSigningKey} (h : checkInstalls current op key staged = .ok ()) :
    key = staged.keyId := by
  rw [checkInstalls, ensure_bind_ok] at h
  exact eq_of_beq h.1

/-! ## The invariant -/

section Invariant

variable (crates : PlcCrates) (keys : Keys)

/-- `keyId` is not staged. -/
def Keys.Settled (keyId : String) : Prop :=
  ∀ key ∈ keys.staged, key.keyId ≠ keyId

/-- When `keyId` is staged, the directory names it. -/
def Keys.Confirmed (head : CurrentPlcState) (keyId : String) : Prop :=
  ∀ key ∈ keys.staged, key.keyId = keyId → head.atprotoKey = some keyId

def Keys.Named (head : CurrentPlcState) : Prop :=
  head.atprotoKey = some keys.active.keyId ∨
    ∃ key ∈ keys.staged, head.atprotoKey = some key.keyId

/-- What a phase knows of the key that it is about. -/
def Phase.Ok (s : State) : Phase → Prop
  | .readingStaged op key current =>
    Verified crates op ∧ Installs op key ∧
      (op.cid = current.cid → key ∈ s.drawn ∧ keys.Confirmed s.head key)
  | .readingActive key landed =>
    landed = true → key ∈ s.drawn
  | .waiting op key landed =>
    Verified crates op ∧ Installs op key ∧ key ∈ s.drawn ∧
      if landed then keys.Confirmed s.head key else key = keys.target.keyId
  | .submitting op key =>
    Verified crates op ∧ Installs op key ∧ key ∈ s.drawn ∧ key = keys.target.keyId
  | .submitted j key =>
    key ∈ s.drawn ∧ ∃ submission, s.submissions[j]? = some submission ∧
      Installs submission.op key ∧
      (submission.delivery = .accepted → keys.Confirmed s.head key)
  | .promoting key | .checkingActive key => key ∈ s.drawn ∧ keys.Confirmed s.head key
  | .reporting key => key ∈ s.drawn ∧ keys.Settled key
  | .signing key => key = keys.active
  | _ => True

def Phase.holdsLock : Phase → Bool
  | .submitting _ _ | .submitted _ _ | .promoting _ | .checkingActive _ | .loading
  | .signing _ => true
  | _ => false

structure Inv (s : State) : Prop where
  rows : s.keys = keys.rows
  drawnActive : keys.active.keyId ∈ s.drawn
  drawnStaged : ∀ key ∈ keys.staged, key.keyId ∈ s.drawn
  named : keys.Named s.head
  cids : CidsIdentify crates s.head
  submissions : ∀ submission ∈ s.submissions, submission.delivery = .pending →
    Verified crates submission.op ∧ Installs submission.op keys.target.keyId
  phases : ∀ phase ∈ s.requests, phase.Ok crates keys s
  locked : ∀ (i : Nat) (phase : Phase), s.requests[i]? = some phase →
    phase.holdsLock = true → s.lock = some i
  completed : ∀ keyId, Entry.completed keyId ∈ s.log → keyId ∈ s.drawn ∧ keys.Settled keyId
  signed : SignedByAtprotoKey s.log

end Invariant

section Lemmas

variable {crates : PlcCrates} {accepts : CurrentPlcState → VerifiedPlcOp → Bool}
  {keys : Keys} {s t : State} {i : Nat} {phase : Phase}

theorem Keys.settled_active : keys.Settled keys.active.keyId :=
  keys.distinct

theorem Keys.target_eq : keys.target = keys.active ∨ keys.target ∈ keys.staged := by
  cases h : keys.staged with
  | none => exact Or.inl (by rw [target, h, Option.getD_none])
  | some key => exact Or.inr (by rw [target, h, Option.getD_some]; rfl)

theorem Keys.target_of_staged {key : RepoSigningKey} (h : key ∈ keys.staged) :
    keys.target = key := by
  rw [target, Option.mem_def.mp h, Option.getD_some]

/-- A head that names the target confirms it. -/
theorem Keys.confirmed_of_target {head : CurrentPlcState}
    (h : head.atprotoKey = some keys.target.keyId) (keyId : String) :
    keys.Confirmed head keyId := by
  rintro key hKey rfl
  rw [h, Keys.target_of_staged hKey]

theorem Keys.named_of_target {head : CurrentPlcState}
    (h : head.atprotoKey = some keys.target.keyId) : keys.Named head := by
  rcases keys.target_eq with hTarget | hTarget
  · exact Or.inl (hTarget ▸ h)
  · exact Or.inr ⟨_, hTarget, h⟩

theorem Keys.Named.confirmed {head : CurrentPlcState} {keyId : String}
    (h : head.atprotoKey = some keyId) : keys.Confirmed head keyId :=
  fun _ _ _ => h

theorem Keys.promote_some {keyId : String} {rows : List SigningKeyRow}
    (h : promoteStagedSigningKey keys.rows keyId = some rows) :
    ∃ key ∈ keys.staged, key.keyId = keyId ∧ rows = (promoted key).rows := by
  by_cases hStaged : ∃ key ∈ keys.staged, key.keyId = keyId
  · obtain ⟨key, hKey, rfl⟩ := hStaged
    rw [keys.promote_rows hKey] at h
    exact ⟨key, hKey, rfl, (Option.some.inj h).symm⟩
  · rw [keys.promote_rows_none fun key hKey hEq => hStaged ⟨key, hKey, hEq⟩] at h
    cases h

/-! ## Steps that leave the keys and the directory as they are -/

theorem Phase.Ok.congr (h : phase.Ok crates keys s) (hHead : t.head = s.head)
    (hSubmissions : t.submissions = s.submissions) (hDrawn : t.drawn = s.drawn) :
    phase.Ok crates keys t := by
  cases phase <;> simp only [Ok, hHead, hSubmissions, hDrawn] at h ⊢ <;> exact h

namespace Inv

variable (h : Inv crates keys s)
include h

theorem phase_ok (hPhase : s.requests[i]? = some phase) : phase.Ok crates keys s :=
  h.phases phase (List.mem_of_getElem? hPhase)

theorem advance (hOk : phase.Ok crates keys s)
    (hLock : phase.holdsLock = true → s.lock = some i) : Inv crates keys (s.advance i phase) where
  rows := h.rows
  drawnActive := h.drawnActive
  drawnStaged := h.drawnStaged
  named := h.named
  cids := h.cids
  submissions := h.submissions
  phases := forall_mem_set (fun x hx => (h.phases x hx).congr rfl rfl rfl) (hOk.congr rfl rfl rfl)
  locked := by
    intro j x hx hHolds
    rw [State.advance, List.getElem?_set] at hx
    split at hx
    · rename_i hij
      split at hx
      · obtain rfl := Option.some.inj hx
        rw [← hij]
        exact hLock hHolds
      · cases hx
    · exact h.locked j x hx hHolds
  completed := h.completed
  signed := h.signed

theorem arrive (hOk : phase.Ok crates keys s) (hFree : phase.holdsLock = false) :
    Inv crates keys (s.arrive phase) where
  rows := h.rows
  drawnActive := h.drawnActive
  drawnStaged := h.drawnStaged
  named := h.named
  cids := h.cids
  submissions := h.submissions
  phases := forall_mem_append_singleton (fun x hx => (h.phases x hx).congr rfl rfl rfl)
    (hOk.congr rfl rfl rfl)
  locked := by
    intro j x hx hHolds
    rw [State.arrive, List.getElem?_append] at hx
    split at hx
    · exact h.locked j x hx hHolds
    · obtain rfl := List.mem_singleton.mp (List.mem_of_getElem? hx)
      rw [hFree] at hHolds
      cases hHolds
  completed := h.completed
  signed := h.signed

/-- The lock changes hands when no request but `i` is in a phase that holds it. -/
theorem relock {lock : Option Nat}
    (hOther : ∀ (j : Nat) (x : Phase), s.requests[j]? = some x → x.holdsLock = true →
      lock = some j) :
    Inv crates keys { s with lock } where
  rows := h.rows
  drawnActive := h.drawnActive
  drawnStaged := h.drawnStaged
  named := h.named
  cids := h.cids
  submissions := h.submissions
  phases := fun x hx => (h.phases x hx).congr rfl rfl rfl
  locked := hOther
  completed := h.completed
  signed := h.signed

theorem unlocked (hFree : ∀ x, s.requests[i]? = some x → x.holdsLock = false) :
    Inv crates keys (s.unlocked i) := by
  refine h.relock ?_
  intro j x hx hHolds
  have hLock := h.locked j x hx hHolds
  rw [hLock]
  split
  · rename_i hEq
    obtain rfl := Option.some.inj hEq
    rw [hFree x hx] at hHolds
    cases hHolds
  · rfl

/-- The request leaves the part of its run that the lock protects. -/
theorem leave (hOk : phase.Ok crates keys s) (hFree : phase.holdsLock = false) :
    Inv crates keys ((s.advance i phase).unlocked i) := by
  have hAdvance : Inv crates keys (s.advance i phase) := by
    apply h.advance hOk
    intro hHolds
    rw [hFree] at hHolds
    cases hHolds
  apply hAdvance.unlocked
  intro x hx
  rw [State.advance, List.getElem?_set_self'] at hx
  obtain ⟨_, _, rfl⟩ := Option.map_eq_some_iff.mp hx
  exact hFree

theorem acquire (hOk : phase.Ok crates keys s) (hLock : s.lock = none) :
    Inv crates keys { s.advance i phase with lock := some i } := by
  have hNone : ∀ (j : Nat) (x : Phase), s.requests[j]? = some x → x.holdsLock = false := by
    intro j x hx
    cases hHolds : x.holdsLock with
    | false => rfl
    | true => exact absurd (h.locked j x hx hHolds) (by rw [hLock]; exact nofun)
  have hTaken : Inv crates keys { s with lock := some i } := by
    apply h.relock
    intro j x hx hHolds
    rw [hNone j x hx] at hHolds
    cases hHolds
  exact hTaken.advance (hOk.congr rfl rfl rfl) fun _ => rfl

theorem record {entry : Entry}
    (hCompleted : ∀ keyId, entry = .completed keyId → keyId ∈ s.drawn ∧ keys.Settled keyId)
    (hSigned : ∀ older ∈ s.log, entry.Follows older) :
    Inv crates keys { s with log := entry :: s.log } where
  rows := h.rows
  drawnActive := h.drawnActive
  drawnStaged := h.drawnStaged
  named := h.named
  cids := h.cids
  submissions := h.submissions
  phases := fun x hx => (h.phases x hx).congr rfl rfl rfl
  locked := h.locked
  completed := by
    intro keyId hMem
    cases List.mem_cons.mp hMem with
    | inl hEq => exact hCompleted keyId hEq.symm
    | inr hOld => exact h.completed keyId hOld
  signed := List.pairwise_cons.mpr ⟨hSigned, h.signed⟩

/-! ## Steps of the requests -/

theorem readStaged (hStep : s.readStaged i = some t) : Inv crates keys t := by
  rw [State.readStaged] at hStep
  split at hStep
  · rename_i op key current hPhase
    obtain ⟨hVerified, hInstalls, hLanded⟩ := h.phase_ok hPhase
    rw [h.rows, keys.getStagedSigningKey_rows] at hStep
    split at hStep
    · cases hStep
      apply h.advance
      · intro hCid
        exact (hLanded (eq_of_beq hCid)).1
      · exact nofun
    · rename_i staged hStaged
      split at hStep
      · rename_i hCheck
        obtain rfl := checkInstalls_ok hCheck
        cases hStep
        apply h.advance
        · refine ⟨hVerified, hInstalls, h.drawnStaged staged hStaged, ?_⟩
          split
          · rename_i hCid
            exact (hLanded (eq_of_beq hCid)).2
          · rw [Keys.target_of_staged hStaged]
        · exact nofun
      · cases hStep
        exact h.advance trivial nofun
  · cases hStep

theorem readActive (hStep : s.readActive i = some t) : Inv crates keys t := by
  rw [State.readActive] at hStep
  split at hStep
  · rename_i key landed hPhase
    have hDrawn := h.phase_ok hPhase
    rw [h.rows, keys.getSigningKeyByDid_rows] at hStep
    split at hStep
    · rename_i hActive
      obtain ⟨hLanded, hActive⟩ := hActive
      obtain rfl := Option.some.inj hActive
      cases hStep
      exact h.advance ⟨hDrawn hLanded, keys.settled_active⟩ nofun
    · cases hStep
      exact h.advance trivial nofun
  · cases hStep

theorem lockComplete (hStep : s.lockComplete i = some t) : Inv crates keys t := by
  rw [State.lockComplete] at hStep
  split at hStep
  · rename_i op key landed hPhase hLock
    obtain ⟨hVerified, hInstalls, hDrawn, hKey⟩ := h.phase_ok hPhase
    cases hStep
    refine h.acquire ?_ hLock
    split at hKey
    · rename_i hLanded
      rw [if_pos hLanded]
      exact ⟨hDrawn, hKey⟩
    · rename_i hLanded
      rw [if_neg hLanded]
      exact ⟨hVerified, hInstalls, hDrawn, hKey⟩
  · cases hStep

theorem succeed (hStep : s.succeed i = some t) : Inv crates keys t := by
  rw [State.succeed] at hStep
  split at hStep
  · rename_i j key hPhase
    obtain ⟨hDrawn, submission, hSubmission, _, hAccepted⟩ := h.phase_ok hPhase
    have hLock := h.locked i _ hPhase rfl
    split at hStep
    · rename_i op hFound
      obtain rfl := Option.some.inj (hSubmission.symm.trans hFound)
      cases hStep
      exact h.advance ⟨hDrawn, hAccepted rfl⟩ fun _ => hLock
    · cases hStep
  · cases hStep

theorem fail (hStep : s.fail i = some t) : Inv crates keys t := by
  rw [State.fail] at hStep
  split at hStep
  · cases hStep
    exact h.leave trivial rfl
  · cases hStep

theorem checkActive (hStep : s.checkActive i = some t) : Inv crates keys t := by
  rw [State.checkActive] at hStep
  split at hStep
  · rename_i key hPhase
    obtain ⟨hDrawn, _⟩ := h.phase_ok hPhase
    rw [h.rows, keys.getSigningKeyByDid_rows] at hStep
    split at hStep
    · rename_i hActive
      obtain rfl := Option.some.inj hActive
      cases hStep
      exact h.leave ⟨hDrawn, keys.settled_active⟩ rfl
    · cases hStep
      exact h.leave trivial rfl
  · cases hStep

theorem report (hStep : s.report i = some t) : Inv crates keys t := by
  rw [State.report] at hStep
  split at hStep
  · rename_i key hPhase
    have hSettled := h.phase_ok hPhase
    cases hStep
    have hEnded : Inv crates keys (s.advance i .ended) := h.advance trivial nofun
    apply hEnded.record
    · rintro keyId ⟨⟩
      exact hSettled
    · intro older _
      trivial
  · cases hStep

theorem lockWrite (hStep : s.lockWrite i = some t) : Inv crates keys t := by
  rw [State.lockWrite] at hStep
  split at hStep
  · rename_i hPhase hLock
    cases hStep
    exact h.acquire trivial hLock
  · cases hStep

theorem loadSigner (hStep : s.loadSigner i = some t) : Inv crates keys t := by
  rw [State.loadSigner] at hStep
  split at hStep
  · rename_i hPhase
    have hLock := h.locked i _ hPhase rfl
    rw [h.rows, keys.getSigningKeyByDid_rows] at hStep
    cases hStep
    exact h.advance rfl fun _ => hLock
  · cases hStep

/-- The signer is the active key. When the directory names another one, that one is staged,
and its rotation is not reported. -/
theorem sign (hStep : s.sign i = some t) : Inv crates keys t := by
  rw [State.sign] at hStep
  split at hStep
  · rename_i key hPhase
    obtain rfl : key = keys.active := h.phase_ok hPhase
    cases hStep
    apply h.record
    · exact nofun
    · intro older hOlder
      cases older with
      | signed => trivial
      | completed reported =>
        intro hNamed
        have hSettled := (h.completed reported hOlder).2
        rcases h.named with hActive | ⟨key, hStaged, hKey⟩
        · exact Option.some.inj (hActive.symm.trans hNamed)
        · exact absurd (Option.some.inj (hKey.symm.trans hNamed)) (hSettled key hStaged)
  · cases hStep

theorem endRequest (hStep : s.endRequest i = some t) : Inv crates keys t := by
  rw [State.endRequest] at hStep
  split at hStep
  · cases hStep
    exact h.leave trivial rfl
  · cases hStep

theorem presentBegin : Inv crates keys s.presentBegin := by
  rw [State.presentBegin, h.rows, keys.getSigningKeyByDid_rows]
  exact h.arrive trivial rfl

/-- An operation that is the head already installs a key of the table. -/
theorem presentComplete (operation : String) :
    Inv crates keys (s.presentComplete crates operation) := by
  rw [State.presentComplete]
  split
  · rename_i op key hCheck
    obtain ⟨hVerified, hInstalls⟩ := checkOperation_ok hCheck
    apply h.arrive
    · refine ⟨hVerified, hInstalls, ?_⟩
      intro hCid
      have hHead : s.head.atprotoKey = some key := by
        rw [CurrentPlcState.atprotoKey, ← h.cids.head op hVerified hCid]
        exact hInstalls
      refine ⟨?_, Keys.Named.confirmed hHead⟩
      rcases h.named with hActive | ⟨staged, hStaged, hNamed⟩
      · rw [← Option.some.inj (hActive.symm.trans hHead)]
        exact h.drawnActive
      · rw [← Option.some.inj (hNamed.symm.trans hHead)]
        exact h.drawnStaged staged hStaged
    · rfl
  · exact h.arrive trivial rfl

/-! ## Submissions -/

theorem submit (hStep : s.submit i = some t) : Inv crates keys t := by
  rw [State.submit] at hStep
  split at hStep
  · rename_i op key hPhase
    obtain ⟨hVerified, hInstalls, hDrawn, hTarget⟩ := h.phase_ok hPhase
    have hLock := h.locked i _ hPhase rfl
    cases hStep
    have hPosted : Inv crates keys { s with submissions := s.submissions ++ [⟨op, .pending⟩] } :=
      { h with
        submissions := forall_mem_append_singleton h.submissions
          fun _ => ⟨hVerified, hTarget ▸ hInstalls⟩
        phases := by
          intro x hx
          have hOk := h.phases x hx
          cases x with
          | submitted j key =>
            obtain ⟨hKey, submission, hGet, hRest⟩ := hOk
            refine ⟨hKey, submission, ?_, hRest⟩
            rw [List.getElem?_append_left (List.getElem?_eq_some_iff.mp hGet).1]
            exact hGet
          | _ => exact hOk }
    refine hPosted.advance ⟨hDrawn, ⟨op, .pending⟩, ?_, hInstalls, nofun⟩ fun _ => hLock
    exact List.getElem?_concat_length
  · cases hStep

/-- A submission that changes from pending keeps what the requests know of it, when the new
head confirms it if it was accepted. -/
theorem resolve {op : VerifiedPlcOp} {delivery : Delivery} {head : CurrentPlcState} {j : Nat}
    (hPending : s.submissions[j]? = some ⟨op, .pending⟩)
    (hDelivery : delivery ≠ .pending)
    (hNamed : keys.Named head) (hCids : CidsIdentify crates head)
    (hConfirmed : ∀ keyId, keys.Confirmed s.head keyId → keys.Confirmed head keyId)
    (hAccepted : delivery = .accepted → ∀ keyId, keys.Confirmed head keyId) :
    Inv crates keys
      { s with head, submissions := s.submissions.set j ⟨op, delivery⟩ } :=
  { h with
    named := hNamed
    cids := hCids
    submissions := forall_mem_set h.submissions fun hEq => absurd hEq hDelivery
    phases := by
      intro x hx
      have hOk := h.phases x hx
      cases x with
      | readingStaged op key current =>
        exact ⟨hOk.1, hOk.2.1, fun hCid => ⟨(hOk.2.2 hCid).1, hConfirmed _ (hOk.2.2 hCid).2⟩⟩
      | waiting op key landed =>
        obtain ⟨hVerified, hInstalls, hDrawn, hKey⟩ := hOk
        refine ⟨hVerified, hInstalls, hDrawn, ?_⟩
        cases landed with
        | false => exact hKey
        | true => exact hConfirmed key hKey
      | submitted k key =>
        obtain ⟨hDrawn, submission, hGet, hInstalls, hOld⟩ := hOk
        refine ⟨hDrawn, ?_⟩
        by_cases hEq : j = k
        · obtain rfl := hEq
          obtain rfl := Option.some.inj (hPending.symm.trans hGet)
          refine ⟨⟨op, delivery⟩, ?_, hInstalls, fun hNew => hAccepted hNew key⟩
          rw [List.getElem?_set_self (List.getElem?_eq_some_iff.mp hGet).1]
        · refine ⟨submission, ?_, hInstalls, fun hNew => hConfirmed key (hOld hNew)⟩
          rw [List.getElem?_set_ne hEq]
          exact hGet
      | promoting key | checkingActive key => exact ⟨hOk.1, hConfirmed key hOk.2⟩
      | _ => exact hOk }

theorem deliver {j : Nat} (hStep : s.deliver accepts j = some t) : Inv crates keys t := by
  rw [State.deliver] at hStep
  split at hStep
  · rename_i op hPending
    obtain ⟨hVerified, hInstalls⟩ :=
      h.submissions _ (List.mem_of_getElem? hPending) rfl
    have hHead : (CurrentPlcState.ofOp op).atprotoKey = some keys.target.keyId := hInstalls
    split at hStep
    · cases hStep
      apply h.resolve hPending
      · exact nofun
      · exact Keys.named_of_target hHead
      · exact ⟨fun op' hOp' hCid => h.cids.ops op' op hOp' hVerified hCid, h.cids.ops⟩
      · intro keyId _
        exact Keys.confirmed_of_target hHead keyId
      · intro _ keyId
        exact Keys.confirmed_of_target hHead keyId
    · cases hStep
      exact h.resolve hPending nofun h.named h.cids (fun _ hKey => hKey) nofun
  · cases hStep

theorem lose {j : Nat} (hStep : s.lose j = some t) : Inv crates keys t := by
  rw [State.lose] at hStep
  split at hStep
  · rename_i op hPending
    cases hStep
    exact h.resolve hPending nofun h.named h.cids (fun _ hKey => hKey) nofun
  · cases hStep

/-! ## Steps of the table -/

/-- The staged key takes the place of the active one while no write has loaded that. -/
theorem replace {key : RepoSigningKey} (hKey : key ∈ keys.staged)
    (hConfirmed : keys.Confirmed s.head key.keyId)
    (hNoSigner : ∀ x ∈ s.requests, ∀ signer, x ≠ .signing signer) :
    Inv crates (Keys.promoted key) { s with keys := (Keys.promoted key).rows } where
  rows := rfl
  drawnActive := h.drawnStaged key hKey
  drawnStaged := nofun
  named := Or.inl (hConfirmed key hKey rfl)
  cids := h.cids
  submissions := by
    intro submission hMem hPending
    have hOld := h.submissions submission hMem hPending
    rw [Keys.target_of_staged hKey] at hOld
    exact hOld
  phases := by
    intro x hx
    have hOk := h.phases x hx
    cases x with
    | readingStaged op k current =>
      exact ⟨hOk.1, hOk.2.1, fun hCid => ⟨(hOk.2.2 hCid).1, nofun⟩⟩
    | waiting op k landed =>
      obtain ⟨hVerified, hInstalls, hDrawn, hTarget⟩ := hOk
      refine ⟨hVerified, hInstalls, hDrawn, ?_⟩
      cases landed with
      | false =>
        rw [Keys.target_of_staged hKey] at hTarget
        exact hTarget
      | true => exact nofun
    | submitting op k =>
      obtain ⟨hVerified, hInstalls, hDrawn, hTarget⟩ := hOk
      rw [Keys.target_of_staged hKey] at hTarget
      exact ⟨hVerified, hInstalls, hDrawn, hTarget⟩
    | submitted j k =>
      obtain ⟨hDrawn, submission, hGet, hInstalls, _⟩ := hOk
      exact ⟨hDrawn, submission, hGet, hInstalls, fun _ => nofun⟩
    | promoting k | checkingActive k | reporting k => exact ⟨hOk.1, nofun⟩
    | signing signer => exact absurd rfl (hNoSigner _ hx signer)
    | _ => exact hOk
  locked := h.locked
  completed := fun keyId hMem => ⟨(h.completed keyId hMem).1, nofun⟩
  signed := h.signed

theorem promote (hStep : s.promote i = some t) : ∃ keys', Inv crates keys' t := by
  rw [State.promote] at hStep
  split at hStep
  · rename_i keyId hPhase
    obtain ⟨hDrawn, hConfirmed⟩ := h.phase_ok hPhase
    have hLock := h.locked i _ hPhase rfl
    split at hStep
    · rename_i rows hRows
      rw [h.rows] at hRows
      obtain ⟨key, hKey, rfl, rfl⟩ := Keys.promote_some hRows
      cases hStep
      have hEnded : Inv crates keys (s.advance i .ended) := h.advance trivial nofun
      have hReplaced := hEnded.replace hKey hConfirmed (by
        -- a signer would hold the lock, which request `i` holds
        rintro x hx signer rfl
        obtain ⟨j, hj⟩ := List.mem_iff_getElem?.mp hx
        have hEq : i = j := Option.some.inj (hLock.symm.trans (hEnded.locked j _ hj rfl))
        rw [← hEq, State.advance, List.getElem?_set_self'] at hj
        obtain ⟨_, _, hPhase⟩ := Option.map_eq_some_iff.mp hj
        cases hPhase)
      have hReporting : (Phase.reporting key.keyId).Ok crates (Keys.promoted key)
          { s.advance i .ended with keys := (Keys.promoted key).rows } := ⟨hDrawn, nofun⟩
      have hLeft := @Inv.leave _ _ _ i _ hReplaced hReporting rfl
      rw [State.advance, State.advance, List.set_set] at hLeft
      exact ⟨_, hLeft⟩
    · cases hStep
      exact ⟨keys, h.advance ⟨hDrawn, hConfirmed⟩ fun _ => hLock⟩
  · cases hStep

/-- A fresh key takes the place of a staged one that nothing under way is about. -/
theorem stage {key : RepoSigningKey} (hIdle : s.RotationIdle)
    (hStep : s.stage i key = some t) : ∃ keys', Inv crates keys' t := by
  rw [State.stage] at hStep
  split at hStep
  · split at hStep
    · cases hStep
    · rename_i hFresh
      cases hStep
      have hNe : key.keyId ≠ keys.active.keyId := by
        rintro hEq
        exact hFresh (hEq ▸ h.drawnActive)
      have hSettled : ∀ keyId ∈ s.drawn, (keys.stage key hNe).Settled keyId := by
        rintro keyId hDrawn _ ⟨⟩ hEq
        exact hFresh (hEq ▸ hDrawn)
      have hConfirmed : ∀ keyId ∈ s.drawn, (keys.stage key hNe).Confirmed s.head keyId :=
        fun keyId hDrawn staged hStaged hEq => absurd hEq (hSettled keyId hDrawn staged hStaged)
      have hStaged : Inv crates (keys.stage key hNe)
          { s with keys := stageRotationKey s.keys key, drawn := key.keyId :: s.drawn } :=
        { h with
          rows := by rw [h.rows, keys.stageRotationKey_rows hNe]
          drawnActive := List.mem_cons_of_mem _ h.drawnActive
          drawnStaged := by
            rintro _ ⟨⟩
            exact List.mem_cons_self
          named := by
            rcases h.named with hActive | ⟨staged, hStaged, hNamed⟩
            · exact Or.inl hActive
            · exact absurd hNamed (hIdle.head ⟨staged, .staged⟩
                (by rw [h.rows, Keys.rows, Option.mem_def.mp hStaged]; simp) rfl)
          submissions := fun submission hMem hPending =>
            absurd hPending (hIdle.submissions submission hMem)
          phases := by
            intro x hx
            have hOk := h.phases x hx
            have hPosted := hIdle.requests x hx
            cases x with
            | readingStaged op k current =>
              refine ⟨hOk.1, hOk.2.1, ?_⟩
              intro hCid
              have hDrawn := (hOk.2.2 hCid).1
              exact ⟨List.mem_cons_of_mem _ hDrawn, hConfirmed k hDrawn⟩
            | readingActive k landed => exact fun hLanded => List.mem_cons_of_mem _ (hOk hLanded)
            | waiting op k landed =>
              obtain ⟨hVerified, hInstalls, hDrawn, _⟩ := hOk
              refine ⟨hVerified, hInstalls, List.mem_cons_of_mem _ hDrawn, ?_⟩
              cases landed with
              | false => cases hPosted
              | true => exact hConfirmed k hDrawn
            | submitting op k => cases hPosted
            | submitted j k =>
              obtain ⟨hDrawn, submission, hGet, hInstalls, _⟩ := hOk
              exact ⟨List.mem_cons_of_mem _ hDrawn, submission, hGet, hInstalls,
                fun _ => hConfirmed k hDrawn⟩
            | promoting k | checkingActive k =>
              exact ⟨List.mem_cons_of_mem _ hOk.1, hConfirmed k hOk.1⟩
            | reporting k => exact ⟨List.mem_cons_of_mem _ hOk.1, hSettled k hOk.1⟩
            | _ => exact hOk
          completed := by
            intro keyId hMem
            have hDrawn := (h.completed keyId hMem).1
            exact ⟨List.mem_cons_of_mem _ hDrawn, hSettled keyId hDrawn⟩ }
      exact ⟨_, hStaged.advance trivial (by rintro ⟨⟩)⟩
  · cases hStep

theorem holds : s.HoldsAtprotoKey := by
  rw [State.HoldsAtprotoKey, h.rows]
  rcases h.named with hActive | ⟨key, hStaged, hNamed⟩
  · exact ⟨⟨keys.active, .active⟩, List.mem_cons_self, hActive⟩
  · refine ⟨⟨key, .staged⟩, ?_, hNamed⟩
    rw [Keys.rows, Option.mem_def.mp hStaged]
    exact List.mem_cons_of_mem _ List.mem_cons_self

end Inv

/-- A step keeps the invariant when a begin stages nothing over a rotation under way. -/
theorem inv_step {label : Label} (h : ∃ keys, Inv crates keys s) (hAlone : BeginsAlone s label)
    (hStep : s.step crates accepts label = some t) : ∃ keys, Inv crates keys t := by
  obtain ⟨keys, h⟩ := h
  cases label with
  | presentBegin =>
    cases hStep
    exact ⟨keys, h.presentBegin⟩
  | stage i key => exact h.stage hAlone hStep
  | presentComplete operation =>
    cases hStep
    exact ⟨keys, h.presentComplete operation⟩
  | readStaged i => exact ⟨keys, h.readStaged hStep⟩
  | readActive i => exact ⟨keys, h.readActive hStep⟩
  | lockComplete i => exact ⟨keys, h.lockComplete hStep⟩
  | submit i => exact ⟨keys, h.submit hStep⟩
  | deliver j => exact ⟨keys, h.deliver hStep⟩
  | lose j => exact ⟨keys, h.lose hStep⟩
  | succeed i => exact ⟨keys, h.succeed hStep⟩
  | fail i => exact ⟨keys, h.fail hStep⟩
  | promote i => exact h.promote hStep
  | checkActive i => exact ⟨keys, h.checkActive hStep⟩
  | report i => exact ⟨keys, h.report hStep⟩
  | presentWrite =>
    cases hStep
    exact ⟨keys, h.arrive trivial rfl⟩
  | lockWrite i => exact ⟨keys, h.lockWrite hStep⟩
  | loadSigner i => exact ⟨keys, h.loadSigner hStep⟩
  | sign i => exact ⟨keys, h.sign hStep⟩
  | endRequest i => exact ⟨keys, h.endRequest hStep⟩

theorem inv_opened {key : RepoSigningKey} {head : CurrentPlcState}
    (hNamed : head.atprotoKey = some key.keyId) (hCids : CidsIdentify crates head) :
    Inv crates (Keys.promoted key) (State.opened key head) where
  rows := rfl
  drawnActive := List.mem_singleton.mpr rfl
  drawnStaged := nofun
  named := Or.inl hNamed
  cids := hCids
  submissions := nofun
  phases := nofun
  locked := nofun
  completed := by
    intro keyId hMem
    cases List.mem_singleton.mp hMem
    exact ⟨List.mem_singleton.mpr rfl, nofun⟩
  signed := List.pairwise_singleton _ _

end Lemmas

/-- The server holds the key that the directory names, and signs by it once the rotation to it
is reported, over every run in which a begin stages nothing over a rotation under way. -/
theorem rotation_consistent (crates : PlcCrates)
    (accepts : CurrentPlcState → VerifiedPlcOp → Bool) (key : RepoSigningKey)
    (head : CurrentPlcState) (labels : List Label) (s : State)
    (hNamed : head.atprotoKey = some key.keyId) (hCids : CidsIdentify crates head)
    (hAlone : Along (State.step crates accepts) BeginsAlone (State.opened key head) labels)
    (hRun : run (State.step crates accepts) (State.opened key head) labels = some s) :
    s.HoldsAtprotoKey ∧ SignedByAtprotoKey s.log := by
  have hInv : ∃ keys, Inv crates keys s :=
    run_invariant_along (I := fun s => ∃ keys, Inv crates keys s)
      (fun _ _ _ hI hG hStep => inv_step hI hG hStep) ⟨_, inv_opened hNamed hCids⟩ hAlone hRun
  obtain ⟨keys, hInv⟩ := hInv
  exact ⟨hInv.holds, hInv.signed⟩

/-! ## One rotation -/

def deviceKey : String := "did:key:zDnaeRdbuEDfoB1pTG6WZnjCzsxYdPNTyatNVoUZPrSui7Wbd"

def deviceMultikey : List UInt8 :=
  [128, 36, 2, 17, 214, 191, 127, 113, 233, 180, 69, 228, 29, 28, 76, 68, 160, 251, 115, 10, 57,
   243, 189, 35, 70, 77, 47, 64, 56, 138, 190, 149, 34, 14, 172]

def activeKey : RepoSigningKey where
  keyId := "did:key:zDnaeejUjdTZQ67eqXsaLBE7gFAQx9u69hb76c8TNeXuZYQZJ"
  publicKey := "zDnaeejUjdTZQ67eqXsaLBE7gFAQx9u69hb76c8TNeXuZYQZJ"
  privateKeyEncrypted :=
    "ykxU3ohDpKas/CJzr9SWOReDgkLHfm6INuIebzwqEt7lLlrofKt2VNMuFoKaIpqUcMZD45tQLruscMl0"

def stagedKey : RepoSigningKey where
  keyId := "did:key:zDnaexdJLEB9obvdBowPXTRwDHXjEXbDFKXBQwSRcCMeRQpBr"
  publicKey := "zDnaexdJLEB9obvdBowPXTRwDHXjEXbDFKXBQwSRcCMeRQpBr"
  privateKeyEncrypted :=
    "v6G6CkoNDBCvpD9mNWI4kIx7l+iZ4115aVTmbAHcwiWkHwDQxI5mbKsZ7uLaSdeavUZ3EWPcEZIRtkXF"

def secondKey : RepoSigningKey where
  keyId := "did:key:zDnaebUWCgrF4FY34hH29LoAU6QTAV6eh7JtiUWngB6bfnTP9"
  publicKey := "zDnaebUWCgrF4FY34hH29LoAU6QTAV6eh7JtiUWngB6bfnTP9"
  privateKeyEncrypted :=
    "Met1VPv/42Zi9lhH/2bVZTjG0f3AKGfeNCBRTCmEjWDF8eGUk4zsfHUa6GSNPWVHRuf0tZ+sST7Cu1rp"

def aliceHead : CurrentPlcState where
  cid := "bafyreih34gsczudasmvf6njimpwgj55wgz2tk7h462qghsvlvohoaewuxm"
  rotationKeys := [deviceKey, activeKey.keyId]
  verificationMethods := SortedMap.empty.insert "atproto" activeKey.keyId
  alsoKnownAs := ["at://alice.example.com"]
  services := SortedMap.empty.insert "atproto_pds"
    ⟨"AtprotoPersonalDataServer", "https://pds.example.com"⟩

/-- The operation that the wallet signs after the first begin. -/
def aliceRotation : UnsignedPlcOp where
  prev := some aliceHead.cid
  opType := "plc_operation"
  services := aliceHead.services
  alsoKnownAs := aliceHead.alsoKnownAs
  rotationKeys := [deviceKey, stagedKey.keyId]
  verificationMethods := SortedMap.empty.insert "atproto" stagedKey.keyId

def aliceSample : PlcSample where
  sig :=
    [170, 97, 149, 67, 81, 100, 84, 138, 231, 182, 99, 144, 3, 2, 57, 83, 14, 156, 93, 207, 10,
     13, 205, 142, 66, 135, 83, 185, 175, 151, 132, 225, 20, 29, 175, 131, 249, 152, 38, 223, 226,
     32, 131, 99, 81, 254, 41, 21, 17, 190, 76, 89, 71, 130, 41, 31, 55, 175, 177, 147, 35, 88, 6,
     156]
  sigText :=
    "qmGVQ1FkVIrntmOQAwI5Uw6cXc8KDc2OQodTua-XhOEUHa-D-Zgm3-Igg2NR_ikVEb5MWUeCKR83r7GTI1gGnA"
  hash :=
    [186, 246, 188, 104, 218, 209, 211, 162, 85, 243, 27, 79, 68, 140, 172, 227, 143, 73, 152,
     242, 50, 194, 116, 182, 126, 53, 25, 81, 49, 12, 225, 89]
  hashText := "afyreif2626grwwr2orfl4y3j5cizlhdr5ezr4rsyj2lm7rvdfitcdhble"
  json :=
    "\x7b\"sig\":\"qmGVQ1FkVIrntmOQAwI5Uw6cXc8KDc2OQodTua-XhOEUHa-D-Zgm3-Igg2NR_ikVEb5MWU" ++
    "eCKR83r7GTI1gGnA\",\"prev\":\"bafyreih34gsczudasmvf6njimpwgj55wgz2tk7h462qghsvlvohoa" ++
    "ewuxm\",\"type\":\"plc_operation\",\"services\":\x7b\"atproto_pds\":\x7b\"type\":\"A" ++
    "tprotoPersonalDataServer\",\"endpoint\":\"https://pds.example.com\"\x7d\x7d,\"alsoKn" ++
    "ownAs\":[\"at://alice.example.com\"],\"rotationKeys\":[\"did:key:zDnaeRdbuEDfoB1pTG6" ++
    "WZnjCzsxYdPNTyatNVoUZPrSui7Wbd\",\"did:key:zDnaexdJLEB9obvdBowPXTRwDHXjEXbDFKXBQwSRc" ++
    "CMeRQpBr\"],\"verificationMethods\":\x7b\"atproto\":\"did:key:zDnaexdJLEB9obvdBowPXT" ++
    "RwDHXjEXbDFKXBQwSRcCMeRQpBr\"\x7d\x7d"

def aliceCrates : PlcCrates :=
  { aliceSample.crates aliceRotation with multibaseDecode := fun _ => .ok deviceMultikey }

/-- The directory takes an operation that chains onto its head. -/
def chainsOnto (head : CurrentPlcState) (op : VerifiedPlcOp) : Bool :=
  op.prev = some head.cid

theorem parseSignedOp_alice (text : String) :
    parseSignedOp aliceCrates text = .ok (.ofUnsigned aliceRotation aliceSample.sigText) := by
  have hParse : (aliceCrates.parseJson text >>= SignedPlcOp.fromJson) =
      some (.ofUnsigned aliceRotation aliceSample.sigText) :=
    SignedPlcOp.fromJson_toJson (.ofUnsigned aliceRotation aliceSample.sigText)
  rw [parseSignedOp, hParse]

theorem verified_alice {op : VerifiedPlcOp} (h : Verified aliceCrates op) :
    op.verificationMethods = aliceRotation.verificationMethods ∧
      op.cid = "b" ++ aliceSample.hashText := by
  obtain ⟨text, keys, h⟩ := h
  rw [verifyPlcOperation] at h
  obtain ⟨_, _, h⟩ := bind_ok.mp h
  obtain ⟨signedOp, hParse, h⟩ := bind_ok.mp h
  obtain ⟨_, _, h⟩ := bind_ok.mp h
  obtain ⟨_, _, h⟩ := bind_ok.mp h
  obtain ⟨_, _, h⟩ := bind_ok.mp h
  obtain rfl := Except.ok.inj ((parseSignedOp_alice text).symm.trans hParse)
  obtain rfl := Except.ok.inj h
  refine ⟨rfl, ?_⟩
  decide +kernel

theorem cidsIdentify_alice : CidsIdentify aliceCrates aliceHead where
  head := by
    intro op hOp hCid
    rw [(verified_alice hOp).2] at hCid
    exact absurd hCid (by decide +kernel)
  ops := by
    intro op op' hOp hOp' _
    rw [(verified_alice hOp).1, (verified_alice hOp').1]

/-- A rotation, and a write after it. -/
def rotationRun : List Label :=
  [.presentBegin, .stage 0 stagedKey, .presentComplete aliceSample.json, .readStaged 1,
    .lockComplete 1, .submit 1, .deliver 0, .succeed 1, .promote 1, .report 1, .presentWrite,
    .lockWrite 2, .loadSigner 2, .sign 2, .endRequest 2]

/-- A second begin, between the checks of the complete and its submission. -/
def replacedRun : List Label :=
  [.presentBegin, .stage 0 stagedKey, .presentComplete aliceSample.json, .readStaged 1,
    .presentBegin, .stage 2 secondKey, .lockComplete 1, .submit 1, .deliver 0, .succeed 1,
    .promote 1, .checkActive 1]

theorem rotation_consistent_alice :
    ∃ s, run (State.step aliceCrates chainsOnto) (.opened activeKey aliceHead) rotationRun =
        some s ∧
      s.log = [.signed stagedKey.keyId (some stagedKey.keyId), .completed stagedKey.keyId,
        .completed activeKey.keyId] ∧
      s.HoldsAtprotoKey ∧ SignedByAtprotoKey s.log := by
  have hLog : (run (State.step aliceCrates chainsOnto) (.opened activeKey aliceHead)
      rotationRun).map State.log =
        some [.signed stagedKey.keyId (some stagedKey.keyId), .completed stagedKey.keyId,
          .completed activeKey.keyId] := by
    decide +kernel
  obtain ⟨s, hRun, hLog⟩ := Option.map_eq_some_iff.mp hLog
  exact ⟨s, hRun, hLog, rotation_consistent aliceCrates chainsOnto activeKey aliceHead rotationRun s
    (by decide +kernel) cidsIdentify_alice (by decide +kernel) hRun⟩

/-- The complete installs a key that the second begin has deleted: the directory names a key
that is nowhere. -/
theorem begin_deletes_key_in_flight :
    ¬ ∀ (crates : PlcCrates) (accepts : CurrentPlcState → VerifiedPlcOp → Bool)
        (key : RepoSigningKey) (head : CurrentPlcState) (labels : List Label) (s : State),
      head.atprotoKey = some key.keyId → CidsIdentify crates head →
      run (State.step crates accepts) (State.opened key head) labels = some s →
      s.HoldsAtprotoKey ∧ SignedByAtprotoKey s.log := by
  intro h
  have hLost : (run (State.step aliceCrates chainsOnto) (.opened activeKey aliceHead)
      replacedRun).any (fun s => !decide s.HoldsAtprotoKey) = true := by
    decide +kernel
  obtain ⟨s, hRun, hLost⟩ := (Option.any_eq_true _ _).mp hLost
  have hHolds := (h aliceCrates chainsOnto activeKey aliceHead replacedRun s (by decide +kernel)
    cidsIdentify_alice hRun).1
  simp [hHolds] at hLost

end Ezpds.Pds.RepoKeys
