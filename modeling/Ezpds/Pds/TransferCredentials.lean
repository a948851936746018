import Ezpds.Library.Parties
import Ezpds.Pds.Transfers

/-!
# The credentials of device transfers

A transfer that was accepted gave its device a credential, and the credential has to end with
the transfer: a cancel revokes it, and a completion revokes every other one. The sweep of an
initiate does not. It takes an accepted transfer that is past its expiry to `expired` and
leaves the credential of its device live, under a transfer that no operator sees any more.

* `Inv`, `inv_step`: live credentials have their transfer, as long as no sweep takes it away.
* `credentials_accounted`: the credentials, the active transfers and the completions of a run.
* `sweep_leaves_credential`: a live credential under an expired transfer.
-/

namespace Ezpds.Pds.Transfers

open Library Sessions

/-! ## What the tables must satisfy -/

/-- The transfer that the device has its credential from. -/
structure TransferRow.Grants (row : TransferRow) (device : DeviceRow) : Prop where
  did : row.did = device.did
  accepted : row.acceptedDeviceId = some device.id
  status : row.status.grants = true

def activeOf (did : String) (row : TransferRow) : Bool :=
  row.did == did && row.status.isActive

structure Secure (db : Tables) : Prop where
  credential : ∀ device ∈ db.devices, device.isLive = true →
    ∃ row ∈ db.transfers, row.Grants device
  single : ∀ did, db.transfers.countP (activeOf did) ≤ 1

/-- The account of the transfer is left to its accepted device. -/
structure HandedOver (db : Tables) (row : TransferRow) : Prop where
  devices : ∀ device ∈ db.devices, device.did = row.did → device.isLive = true →
    row.acceptedDeviceId = some device.id
  sessions : ∀ session ∈ db.sessions, session.did ≠ row.did
  refreshTokens : ∀ token ∈ db.refreshTokens, token.did ≠ row.did

/-- A transfer that the step from `old` to `new` completes is handed over. -/
def HandsOver (old new : Tables) : Prop :=
  ∀ row ∈ new.transfers, row.status = .complete →
    (∀ before ∈ old.transfers, before.id = row.id → before.status ≠ .complete) →
    HandedOver new row

/-! ## The condition on a sweep -/

/-- An accepted transfer that is past its expiry. -/
def isLapsed (did : String) (now : Nat) (row : TransferRow) : Bool :=
  row.did == did && row.status.isAccepted && decide (row.expiresAt ≤ now)

/-- An initiate rolls back for its code, or finds no accepted transfer to sweep. -/
def SweepsNoCredential (db : Tables) : Action → Prop
  | .initiate now _ did code _ =>
    (db.sweepExpired did (now 0)).codeTaken code = true ∨
      ∀ row ∈ db.transfers, isLapsed did (now 0) row = false
  | _ => True

instance (db : Tables) : ∀ a, Decidable (SweepsNoCredential db a)
  | .initiate now _ did code _ =>
    inferInstanceAs (Decidable ((db.sweepExpired did (now 0)).codeTaken code = true ∨
      ∀ row ∈ db.transfers, isLapsed did (now 0) row = false))
  | .accept .. | .complete .. | .cancel .. | .logIn .. => .isTrue trivial

/-! ## The table of transfers -/

structure Ledger (transfers : List TransferRow) : Prop where
  ids : Keyed TransferRow.id transfers
  single : ∀ did, transfers.countP (activeOf did) ≤ 1

def Backed (transfers : List TransferRow) (device : DeviceRow) : Prop :=
  ∃ row ∈ transfers, row.Grants device

/-- No transfer of `new` is complete that was not complete in `old`. -/
def NoneCompleted (old new : List TransferRow) : Prop :=
  ∀ row ∈ new, row.status = .complete → ∃ before ∈ old, before.id = row.id ∧
    before.status = .complete

variable {transfers rows : List TransferRow} {p : TransferRow → Bool}
  {f : TransferRow → TransferRow} {device : DeviceRow} {db new : Tables} {row : TransferRow}

theorem Ledger.update (h : Ledger transfers) (hId : ∀ row, (f row).id = row.id)
    (hActive : ∀ did row, p row = true → activeOf did (f row) = true →
      activeOf did row = true) : Ledger (updateWhere p f transfers) where
  ids := h.ids.updateWhere hId
  single did := le_trans (countP_updateWhere_le (hActive did)) (h.single did)

theorem Ledger.insert (h : Ledger transfers) (hId : ∀ old ∈ transfers, old.id ≠ row.id)
    (hDid : ∀ old ∈ transfers, activeOf row.did old = false) : Ledger (transfers ++ [row]) where
  ids := h.ids.append hId
  single := by
    intro did
    rw [countP_append_singleton]
    by_cases hOther : row.did = did
    · have hNone : transfers.countP (activeOf did) = 0 := by
        rw [← hOther, List.countP_eq_zero]
        simpa using hDid
      rw [hNone, Nat.zero_add]
      exact Bool.toNat_le _
    · have hInactive : activeOf did row = false := by simp [activeOf, hOther]
      rw [hInactive]
      exact h.single did

theorem Backed.update (h : Backed transfers device)
    (hKeep : ∀ row ∈ transfers, row.Grants device → p row = true → (f row).Grants device) :
    Backed (updateWhere p f transfers) device := by
  obtain ⟨row, hRow, hGrants⟩ := h
  refine ⟨if p row then f row else row, mem_updateWhere.mpr ⟨row, hRow, rfl⟩, ?_⟩
  split
  · rename_i hChanged
    exact hKeep row hRow hGrants hChanged
  · exact hGrants

theorem Backed.append (h : Backed transfers device) (row : TransferRow) :
    Backed (transfers ++ [row]) device := by
  obtain ⟨old, hOld, hGrants⟩ := h
  exact ⟨old, List.mem_append_left _ hOld, hGrants⟩

theorem NoneCompleted.refl (rows : List TransferRow) : NoneCompleted rows rows :=
  fun row hRow hComplete => ⟨row, hRow, rfl, hComplete⟩

theorem NoneCompleted.trans {mid new old : List TransferRow} (h : NoneCompleted old mid)
    (h' : NoneCompleted mid new) : NoneCompleted old new := by
  intro row hRow hComplete
  obtain ⟨before, hBefore, hId, hWas⟩ := h' row hRow hComplete
  obtain ⟨first, hFirst, hFirstId, hFirstWas⟩ := h before hBefore hWas
  exact ⟨first, hFirst, hFirstId.trans hId, hFirstWas⟩

theorem noneCompleted_update (h : ∀ row, (f row).status ≠ .complete) :
    NoneCompleted transfers (updateWhere p f transfers) := by
  intro row hRow hComplete
  obtain ⟨old, hOld, rfl⟩ := mem_updateWhere.mp hRow
  split at hComplete
  · exact absurd hComplete (h old)
  · rename_i hSame
    exact ⟨old, hOld, by rw [if_neg hSame], hComplete⟩

theorem NoneCompleted.handsOver (h : NoneCompleted db.transfers new.transfers) :
    HandsOver db new := by
  intro row hRow hComplete hBefore
  obtain ⟨before, hMem, hId, hWas⟩ := h row hRow hComplete
  exact absurd hWas (hBefore before hMem hId)

/-! ## The invariant -/

structure Inv (db : Tables) : Prop where
  ledger : Ledger db.transfers
  backed : ∀ device ∈ db.devices, device.isLive = true → Backed db.transfers device

theorem inv_empty : Inv empty where
  ledger := ⟨List.nodup_nil, fun _ => Nat.zero_le _⟩
  backed := by
    intro device hDevice
    cases hDevice

theorem Inv.secure (h : Inv db) : Secure db :=
  ⟨h.backed, h.ledger.single⟩

/-- A transfer expires without harm when its state grants nothing. -/
theorem Inv.expire (h : Inv db)
    (hGrants : ∀ row ∈ db.transfers, p row = true → row.status.grants = false) :
    Inv (db.setTransfers (updateWhere p (TransferRow.withStatus .expired) db.transfers)) where
  ledger := by
    refine h.ledger.update (fun _ => rfl) ?_
    intro did row _ hActive
    simp [activeOf, TransferRow.withStatus, Status.isActive] at hActive
  backed := by
    intro device hDevice hLive
    apply (h.backed device hDevice hLive).update
    intro row hRow hOwner hChanged
    have hNot := hGrants row hRow hChanged
    rw [hOwner.status] at hNot
    cases hNot

theorem noneCompleted_expire (rows : List TransferRow) :
    NoneCompleted rows (updateWhere p (TransferRow.withStatus .expired) rows) :=
  noneCompleted_update fun _ => by simp [TransferRow.withStatus]

theorem Inv.expirePendingCode (h : Inv db) (code : String) (now : Nat) :
    Inv (db.expirePendingCode code now) := by
  apply h.expire
  intro row _ hExpires
  simp only [Bool.and_eq_true, beq_iff_eq] at hExpires
  rw [hExpires.1.2]
  rfl

theorem Inv.expirePendingTransfer (h : Inv db) (id : String) (now : Nat) :
    Inv (db.expirePendingTransferIfElapsed id now) := by
  apply h.expire
  intro row _ hExpires
  simp only [Bool.and_eq_true, beq_iff_eq] at hExpires
  rw [hExpires.1.2]
  rfl

/-- A transaction rolls back, or leaves its own tables. -/
theorem settled_cases {α : Type} {P : Tables → Prop} {result : Option (α × Tables)} (h : P db)
    (hSome : ∀ outcome new, result = some (outcome, new) → P new) : P (settled db result) := by
  cases result with
  | none => exact h
  | some r => exact hSome r.1 r.2 rfl

/-! ## Initiate -/

theorem inv_initiate (h : Inv db) {now : Nat → Nat} {id did code : String} {ttlMinutes : Nat}
    (hSweeps : SweepsNoCredential db (.initiate now id did code ttlMinutes)) :
    Inv (settled db (insertTransfer db now id did code ttlMinutes)) := by
  rw [insertTransfer]
  split
  · exact h
  · rename_i hCode
    have hLapsed := hSweeps.resolve_left hCode
    have hSwept : Inv (db.sweepExpired did (now 0)) := by
      apply h.expire
      intro row hRow hExpires
      have hNot := hLapsed row hRow
      obtain ⟨id, d, code, status, expiresAt, accepted⟩ := row
      simp only [isLapsed, Bool.and_eq_true, Bool.and_eq_false_iff] at hExpires hNot
      cases status with
      | pending => rfl
      | accepted => simp_all [Status.isAccepted]
      | completing => simp_all [Status.isAccepted]
      | complete => simp [Status.isActive] at hExpires
      | expired => rfl
      | cancelled => rfl
    split
    · exact h
    · rename_i hDid
      split
      · exact h
      · rename_i hId
        have hDidFree : ∀ old ∈ (db.sweepExpired did (now 0)).transfers,
            activeOf did old = false := by
          simpa [Tables.didTaken, activeOf] using hDid
        have hIdFree : ∀ old ∈ (db.sweepExpired did (now 0)).transfers, old.id ≠ id := by
          simpa using hId
        exact
          { ledger := hSwept.ledger.insert hIdFree hDidFree
            backed := fun device hDevice hLive => (hSwept.backed device hDevice hLive).append _ }

theorem noneCompleted_initiate {now : Nat → Nat} {id did code : String} {ttlMinutes : Nat} :
    NoneCompleted db.transfers
      (settled db (insertTransfer db now id did code ttlMinutes)).transfers := by
  rw [insertTransfer]
  split
  · exact .refl _
  · split
    · exact .refl _
    · split
      · exact .refl _
      · intro row hRow hComplete
        rcases List.mem_append.mp hRow with hOld | hNew
        · exact noneCompleted_expire db.transfers row hOld hComplete
        · rw [List.mem_singleton.mp hNew] at hComplete
          cases hComplete

/-! ## Accept -/

theorem isAcceptable_pending {id : String} {now : Nat} (h : Tables.isAcceptable id now row = true) :
    row.id = id ∧ row.status = .pending := by
  simp only [Tables.isAcceptable, Bool.and_eq_true, beq_iff_eq] at h
  exact h.1

theorem insertTransferDevice_some (h : db.insertTransferDevice device = some new) :
    new = { db with devices := db.devices ++ [device] } := by
  rw [Tables.insertTransferDevice] at h
  split at h
  · cases h
  · cases h
    rfl

theorem Ledger.marked (h : Ledger transfers) (id deviceId : String) (now : Nat) :
    Ledger (updateWhere (Tables.isAcceptable id now) (TransferRow.acceptedBy deviceId)
      transfers) := by
  refine h.update (fun _ => rfl) ?_
  intro did row hRow hActive
  simp only [activeOf, Bool.and_eq_true] at hActive ⊢
  rw [(isAcceptable_pending hRow).2]
  exact ⟨hActive.1, rfl⟩

theorem Backed.marked (h : Backed transfers device) (id deviceId : String) (now : Nat) :
    Backed (updateWhere (Tables.isAcceptable id now) (TransferRow.acceptedBy deviceId) transfers)
      device := by
  apply h.update
  intro row _ hGrants hMarked
  have hStatus := hGrants.status
  rw [(isAcceptable_pending hMarked).2] at hStatus
  cases hStatus

/-- The new device is the one that its transfer is marked with. -/
theorem Inv.marked (h : Inv db) {now : Nat} (hRow : row ∈ db.transfers)
    (hDid : row.did = device.did)
    (hCount : db.transfers.countP (Tables.isAcceptable row.id now) = 1) :
    Inv (({ db with devices := db.devices ++ [device] } : Tables).markTransferAccepted row.id
      device.id now).2 where
  ledger := h.ledger.marked _ _ _
  backed := by
    intro owner hOwner hLive
    rcases List.mem_append.mp hOwner with hOld | hNew
    · exact (h.backed owner hOld hLive).marked _ _ _
    · rw [List.mem_singleton.mp hNew]
      have hSome : 0 < db.transfers.countP (Tables.isAcceptable row.id now) := by omega
      obtain ⟨marked, hMarked, hAcceptable⟩ := List.countP_pos_iff.mp hSome
      have hSame : marked = row :=
        h.ledger.ids.eq_of_key hMarked hRow (isAcceptable_pending hAcceptable).1
      rw [hSame] at hAcceptable
      refine ⟨row.acceptedBy device.id, mem_updateWhere.mpr ⟨row, hRow, ?_⟩, hDid, rfl, rfl⟩
      exact (if_pos hAcceptable).symm

/-- The device of a transfer that elapsed meanwhile is deleted again. -/
theorem Inv.unmarked (h : Inv db) (id : String) (now : Nat) :
    Inv ((({ db with devices := db.devices ++ [device] } : Tables).markTransferAccepted id
      device.id now).2.deleteTransferDevice device.id) where
  ledger := h.ledger.marked _ _ _
  backed := by
    intro owner hOwner hLive
    obtain ⟨hOwner, hOther⟩ := mem_deleteWhere.mp hOwner
    rcases List.mem_append.mp hOwner with hOld | hNew
    · exact (h.backed owner hOld hLive).marked _ _ _
    · rw [List.mem_singleton.mp hNew] at hOther
      simp at hOther

/-- How an accept ends: with the expired code, with a credential that its transfer is marked
with, or with the transfer elapsed. -/
theorem acceptTransfer_cases {now : Nat → Nat}
    {code deviceId platform publicKey tokenHash : String} {outcome : AcceptOutcome}
    (h : acceptTransfer db now code deviceId platform publicKey tokenHash = some (outcome, new)) :
    new = db.expirePendingCode code (now 0) ∨
      ∃ row ∈ (db.expirePendingCode code (now 0)).transfers, ∃ device marked,
        device.id = deviceId ∧ row.did = device.did ∧
        ({ db.expirePendingCode code (now 0) with
            devices := db.devices ++ [device] } : Tables).markTransferAccepted row.id deviceId
          (now 1) = marked ∧
        ((marked.1 = 1 ∧ new = marked.2) ∨
          new = (marked.2.deleteTransferDevice deviceId).expirePendingTransferIfElapsed row.id
            (now 2)) := by
  simp only [acceptTransfer] at h
  split at h
  · cases h
    exact Or.inl rfl
  · rename_i row hFound
    split at h
    · right
      obtain ⟨inserted, hInsert, h⟩ := Option.bind_eq_some_iff.mp h
      have hInserted := insertTransferDevice_some hInsert
      refine ⟨row, List.mem_of_find?_eq_some hFound,
        ⟨deviceId, row.did, platform, publicKey, tokenHash, none⟩, _, rfl, rfl, rfl, ?_⟩
      rw [hInserted] at h
      split at h
      · rename_i hCount
        cases h
        exact Or.inl ⟨hCount, rfl⟩
      · cases h
        exact Or.inr rfl
    · cases h
      exact Or.inl rfl

theorem inv_accept (h : Inv db) {now : Nat → Nat}
    {code deviceId platform publicKey tokenHash : String} {outcome : AcceptOutcome}
    (hAccept : acceptTransfer db now code deviceId platform publicKey tokenHash =
      some (outcome, new)) : Inv new := by
  have hExpired := h.expirePendingCode code (now 0)
  rcases acceptTransfer_cases hAccept with
    rfl | ⟨row, hRow, device, marked, rfl, hDid, rfl, ⟨hCount, rfl⟩ | rfl⟩
  · exact hExpired
  · exact hExpired.marked hRow hDid hCount
  · exact (hExpired.unmarked row.id (now 1)).expirePendingTransfer row.id (now 2)

theorem noneCompleted_accept {now : Nat → Nat}
    {code deviceId platform publicKey tokenHash : String} {outcome : AcceptOutcome}
    (hAccept : acceptTransfer db now code deviceId platform publicKey tokenHash =
      some (outcome, new)) : NoneCompleted db.transfers new.transfers := by
  have hExpired : NoneCompleted db.transfers (db.expirePendingCode code (now 0)).transfers :=
    noneCompleted_expire db.transfers
  have hMarked : ∀ id, NoneCompleted db.transfers (updateWhere (Tables.isAcceptable id (now 1))
      (TransferRow.acceptedBy deviceId) (db.expirePendingCode code (now 0)).transfers) :=
    fun id => hExpired.trans (noneCompleted_update fun _ => by simp [TransferRow.acceptedBy])
  rcases acceptTransfer_cases hAccept with
    rfl | ⟨row, hRow, device, marked, rfl, hDid, rfl, ⟨hCount, rfl⟩ | rfl⟩
  · exact hExpired
  · exact hMarked row.id
  · exact (hMarked row.id).trans (noneCompleted_expire _)

/-! ## Complete and cancel -/

/-- A credential that is live after a revocation is one that the revocation left out. -/
theorem live_of_revoked {devices : List DeviceRow} {q : DeviceRow → Bool} {now : Nat}
    (hMem : device ∈ updateWhere q (DeviceRow.revoked now) devices)
    (hLive : device.isLive = true) : device ∈ devices ∧ q device = false := by
  obtain ⟨old, hOld, rfl⟩ := mem_updateWhere.mp hMem
  split at hLive
  · cases hLive
  · rename_i hLeft
    rw [if_neg hLeft]
    exact ⟨hOld, by simpa using hLeft⟩

theorem insertAudit_some {event : AuditRow} (h : db.insertTransferAuditEvent event = some new) :
    new = { db with audit := db.audit ++ [event] } := by
  rw [Tables.insertTransferAuditEvent] at h
  split at h
  · cases h
  · cases h
    rfl

theorem mem_transferById {id : String} (h : db.transferById id = some row) :
    row ∈ db.transfers ∧ row.id = id :=
  ⟨List.mem_of_find?_eq_some h, by simpa using List.find?_some h⟩

/-- What the completion of `row` leaves in the tables. -/
structure Finished (db new : Tables) (row : TransferRow) (keep : String) (now : Nat) :
    Prop where
  mem : row ∈ db.transfers
  accepted : row.acceptedDeviceId = some keep
  transfers : new.transfers = updateWhere (Tables.isCompletable row.id)
    (TransferRow.withStatus .complete) db.transfers
  devices : new.devices = updateWhere
    (fun device => device.did == row.did && device.id != keep && device.isLive)
    (DeviceRow.revoked now) db.devices
  sessions : new.sessions = deleteWhere (fun session => session.did == row.did) db.sessions
  refreshTokens : new.refreshTokens =
    deleteWhere (fun token => token.did == row.did) db.refreshTokens

theorem completeTransfer_cases (h : Inv db) {now : Nat → Nat}
    {transferId tokenHash auditId : String} {outcome : CompleteOutcome}
    (hComplete : completeTransfer db now transferId tokenHash auditId = some (outcome, new)) :
    new = db ∨ ∃ row keep, Finished db new row keep (now 1) := by
  simp only [completeTransfer] at hComplete
  split at hComplete
  · cases hComplete
    exact Or.inl rfl
  · rename_i row hFound
    obtain ⟨hRow, hId⟩ := mem_transferById hFound
    split at hComplete
    · split at hComplete
      · cases hComplete
        exact Or.inl rfl
      · split at hComplete <;> cases hComplete <;> exact Or.inl rfl
    · rename_i keep hKeep
      split at hComplete
      · cases hComplete
        exact Or.inl rfl
      · have hFinish : ∀ {outcome}, row.status.isAccepted = true →
            finishTransfer db now row keep auditId = some (outcome, new) →
            new = db ∨ ∃ row keep, Finished db new row keep (now 1) := by
          intro outcome hAccepted hFinish
          have hOne : db.transfers.countP (Tables.isCompletable row.id) = 1 := by
            rw [h.ledger.ids.countP_eq_one_iff]
            · exact ⟨row, hRow, by simp [Tables.isCompletable, hAccepted]⟩
            · intro a b ha hb
              simp only [Tables.isCompletable, Bool.and_eq_true, beq_iff_eq] at ha hb
              exact ha.1.trans hb.1.symm
          simp only [finishTransfer] at hFinish
          split at hFinish
          · obtain ⟨audited, hAudit, hFinish⟩ := Option.bind_eq_some_iff.mp hFinish
            cases hFinish
            rw [insertAudit_some hAudit]
            exact Or.inr ⟨row, keep, ⟨hRow, hKeep, rfl, rfl, rfl, rfl⟩⟩
          · rename_i hCount
            exact absurd hOne hCount
        split at hComplete
        · rename_i hStatus
          exact hFinish (by rw [hStatus]; rfl) hComplete
        · rename_i hStatus
          exact hFinish (by rw [hStatus]; rfl) hComplete
        · split at hComplete <;> cases hComplete <;> exact Or.inl rfl
        · cases hComplete
          exact Or.inl rfl
        · cases hComplete
          exact Or.inl rfl
        · cases hComplete
          exact Or.inl rfl

namespace Finished

variable {keep : String} {now : Nat}

theorem inv (hDone : Finished db new row keep now) (h : Inv db) : Inv new where
  ledger := by
    rw [hDone.transfers]
    refine h.ledger.update (fun _ => rfl) ?_
    intro did old _ hActive
    simp [activeOf, TransferRow.withStatus, Status.isActive] at hActive
  backed := by
    intro device hDevice hLive
    rw [hDone.devices] at hDevice
    rw [hDone.transfers]
    apply (h.backed device (live_of_revoked hDevice hLive).1 hLive).update
    intro old _ hGrants _
    exact ⟨hGrants.did, hGrants.accepted, rfl⟩

theorem handsOver (hDone : Finished db new row keep now) (h : Inv db) : HandsOver db new := by
  intro after hAfter hComplete hBefore
  rw [hDone.transfers] at hAfter
  obtain ⟨old, hOld, rfl⟩ := mem_updateWhere.mp hAfter
  by_cases hCompletable : Tables.isCompletable row.id old = true
  · have hId : old.id = row.id := by
      simp only [Tables.isCompletable, Bool.and_eq_true, beq_iff_eq] at hCompletable
      exact hCompletable.1
    have hSame : old = row := h.ledger.ids.eq_of_key hOld hDone.mem hId
    rw [if_pos hCompletable, hSame]
    refine ⟨?_, ?_, ?_⟩
    · intro device hDevice hDid hLive
      rw [hDone.devices] at hDevice
      have hLeft := (live_of_revoked hDevice hLive).2
      have hKeep : device.id = keep := by simpa [hDid, hLive, TransferRow.withStatus] using hLeft
      rw [hKeep]
      exact hDone.accepted
    · intro session hSession
      rw [hDone.sessions] at hSession
      have hOther := (mem_deleteWhere.mp hSession).2
      exact beq_eq_false_iff_ne.mp hOther
    · intro token hToken
      rw [hDone.refreshTokens] at hToken
      have hOther := (mem_deleteWhere.mp hToken).2
      exact beq_eq_false_iff_ne.mp hOther
  · rw [if_neg hCompletable] at hComplete hBefore
    exact absurd hComplete (hBefore old hOld rfl)

end Finished

/-- A cancel that lands revokes the credential of the transfer that it takes away. -/
structure Interrupted (db new : Tables) (row : TransferRow) : Prop where
  mem : row ∈ db.transfers
  transfers : new.transfers = updateWhere (Tables.isCancellable row.id)
    (TransferRow.withStatus .cancelled) db.transfers
  devices : ∀ device ∈ new.devices, device.isLive = true →
    device ∈ db.devices ∧ row.acceptedDeviceId ≠ some device.id

theorem interruptTransfer_some {now : Nat → Nat} {auditId : String} {outcome : CancelOutcome}
    (hRow : row ∈ db.transfers)
    (h : interruptTransfer db now row auditId = some (outcome, new)) : Interrupted db new row := by
  simp only [interruptTransfer] at h
  split at h
  · obtain ⟨audited, hAudit, h⟩ := Option.bind_eq_some_iff.mp h
    cases h
    rw [insertAudit_some hAudit]
    cases hAccepted : row.acceptedDeviceId with
    | none => exact ⟨hRow, rfl, fun device hDevice _ => ⟨hDevice, by simp [hAccepted]⟩⟩
    | some deviceId =>
      refine ⟨hRow, rfl, ?_⟩
      intro device hDevice hLive
      obtain ⟨hOld, hLeft⟩ := live_of_revoked hDevice hLive
      have hOther : device.id ≠ deviceId := by simpa [Tables.isRevocable, hLive] using hLeft
      rw [hAccepted]
      exact ⟨hOld, fun hSame => hOther (Option.some.inj hSame).symm⟩
  · cases h

theorem cancelTransfer_cases {now : Nat → Nat} {transferId auditId : String}
    {outcome : CancelOutcome}
    (h : cancelTransfer db now transferId auditId = some (outcome, new)) :
    new = db.expirePendingTransferIfElapsed transferId (now 0) ∨
      ∃ row, Interrupted (db.expirePendingTransferIfElapsed transferId (now 0)) new row := by
  simp only [cancelTransfer] at h
  split at h
  · cases h
    exact Or.inl rfl
  · rename_i row hFound
    have hRow := (mem_transferById hFound).1
    split at h
    · cases h
      exact Or.inl rfl
    · cases h
      exact Or.inl rfl
    · cases h
      exact Or.inl rfl
    · exact Or.inr ⟨row, interruptTransfer_some hRow h⟩
    · exact Or.inr ⟨row, interruptTransfer_some hRow h⟩
    · exact Or.inr ⟨row, interruptTransfer_some hRow h⟩

theorem Interrupted.inv (hDone : Interrupted db new row) (h : Inv db) : Inv new where
  ledger := by
    rw [hDone.transfers]
    refine h.ledger.update (fun _ => rfl) ?_
    intro did old _ hActive
    simp [activeOf, TransferRow.withStatus, Status.isActive] at hActive
  backed := by
    intro device hDevice hLive
    obtain ⟨hOld, hOther⟩ := hDone.devices device hDevice hLive
    rw [hDone.transfers]
    apply (h.backed device hOld hLive).update
    intro old hMem hGrants hCancelled
    simp only [Tables.isCancellable, Bool.and_eq_true, beq_iff_eq] at hCancelled
    have hSame : old = row := h.ledger.ids.eq_of_key hMem hDone.mem hCancelled.1
    rw [hSame] at hGrants
    exact absurd hGrants.accepted hOther

theorem Interrupted.noneCompleted (hDone : Interrupted db new row) :
    NoneCompleted db.transfers new.transfers := by
  rw [hDone.transfers]
  exact noneCompleted_update fun _ => by simp [TransferRow.withStatus]

/-! ## Runs -/

variable {a : Action}

theorem inv_step (h : Inv db) (hSweeps : SweepsNoCredential db a) (hStep : step db a = some new) :
    Inv new := by
  cases a with
  | initiate now id did code ttlMinutes =>
    cases hStep
    exact inv_initiate h hSweeps
  | accept now code deviceId platform publicKey tokenHash =>
    cases hStep
    exact settled_cases h fun outcome new hAccept => inv_accept h hAccept
  | complete now transferId tokenHash auditId =>
    cases hStep
    refine settled_cases h fun outcome new hComplete => ?_
    rcases completeTransfer_cases h hComplete with rfl | ⟨row, keep, hDone⟩
    · exact h
    · exact hDone.inv h
  | cancel now transferId auditId =>
    cases hStep
    refine settled_cases h fun outcome new hCancel => ?_
    have hExpired := h.expirePendingTransfer transferId (now 0)
    rcases cancelTransfer_cases hCancel with rfl | ⟨row, hDone⟩
    · exact hExpired
    · exact hDone.inv hExpired
  | logIn session token =>
    cases hStep
    exact ⟨h.ledger, h.backed⟩

theorem handsOver_step (h : Inv db) (hStep : step db a = some new) : HandsOver db new := by
  have hQuiet : HandsOver db db := NoneCompleted.handsOver (.refl db.transfers)
  cases a with
  | initiate now id did code ttlMinutes =>
    cases hStep
    exact noneCompleted_initiate.handsOver
  | accept now code deviceId platform publicKey tokenHash =>
    cases hStep
    exact settled_cases hQuiet fun outcome new hAccept =>
      (noneCompleted_accept hAccept).handsOver
  | complete now transferId tokenHash auditId =>
    cases hStep
    refine settled_cases hQuiet fun outcome new hComplete => ?_
    rcases completeTransfer_cases h hComplete with rfl | ⟨row, keep, hDone⟩
    · exact hQuiet
    · exact hDone.handsOver h
  | cancel now transferId auditId =>
    cases hStep
    refine settled_cases hQuiet fun outcome new hCancel => ?_
    have hExpired : NoneCompleted db.transfers
        (db.expirePendingTransferIfElapsed transferId (now 0)).transfers :=
      noneCompleted_expire db.transfers
    rcases cancelTransfer_cases hCancel with rfl | ⟨row, hDone⟩
    · exact hExpired.handsOver
    · exact (hExpired.trans hDone.noneCompleted).handsOver
  | logIn session token =>
    cases hStep
    exact NoneCompleted.handsOver (.refl db.transfers)

/-- While no sweep takes an accepted transfer away, every live credential has its transfer,
no account has two active transfers, and a completion leaves only the new device. -/
theorem credentials_accounted {actions : List Action}
    (hSweeps : Along step SweepsNoCredential empty actions)
    (hRun : run step empty actions = some db) :
    Secure db ∧ Along step (fun db a => ∀ new, step db a = some new → HandsOver db new) empty
      actions := by
  have hStep : ∀ db a new, Inv db → SweepsNoCredential db a → step db a = some new → Inv new :=
    fun _ _ _ h hSweeps hStep => inv_step h hSweeps hStep
  constructor
  · exact (run_invariant_along hStep inv_empty hSweeps hRun).secure
  · exact hSweeps.of_invariant hStep (fun _ _ h _ _ hStep => handsOver_step h hStep) inv_empty

/-! ## A swap, and one that lapses -/

def swap : List Action :=
  [.logIn ⟨"s0", "did:plc:alice", some "old", 9000⟩
      ⟨"j0", "did:plc:alice", "s0", none, 9000, none⟩,
    .initiate (fun _ => 0) "t0" "did:plc:alice" "ABC123" 15,
    .accept (fun _ => 60) "ABC123" "phone" "ios" "key" "new",
    .complete (fun _ => 120) "t0" "old" "e0"]

theorem credentials_accounted_swap :
    ∃ db, run step empty swap = some db ∧ db.transfers.map TransferRow.status = [.complete] ∧
      Secure db ∧ Along step (fun db a => ∀ new, step db a = some new → HandsOver db new) empty
        swap := by
  have hRuns : (run step empty swap).any
      (fun db => db.transfers.map TransferRow.status = [.complete]) = true := by
    decide +kernel
  obtain ⟨db, hRun, hStatus⟩ := (Option.any_eq_true _ _).mp hRuns
  exact ⟨db, hRun, of_decide_eq_true hStatus,
    credentials_accounted (by decide +kernel) hRun⟩

/-- The transfer is accepted and never completed; the next one sweeps it. -/
def lapsedSwap : List Action :=
  [.initiate (fun _ => 0) "t0" "did:plc:alice" "ABC123" 15,
    .accept (fun _ => 60) "ABC123" "phone" "ios" "key" "new",
    .initiate (fun _ => 1000) "t1" "did:plc:alice" "DEF456" 15]

theorem sweep_leaves_credential :
    ¬ ∀ (actions : List Action) (db : Tables), run step empty actions = some db → Secure db := by
  intro hClaim
  have hRuns : (run step empty lapsedSwap).any (fun db =>
      decide (∃ device ∈ db.devices, device.isLive = true ∧
        ∀ row ∈ db.transfers, row.acceptedDeviceId = some device.id →
          row.status = .expired)) = true := by
    decide +kernel
  obtain ⟨db, hRun, hLive⟩ := (Option.any_eq_true _ _).mp hRuns
  obtain ⟨device, hDevice, hIsLive, hExpired⟩ := of_decide_eq_true hLive
  obtain ⟨row, hRow, hGrants⟩ := (hClaim _ _ hRun).credential device hDevice hIsLive
  have hStatus := hGrants.status
  rw [hExpired row hRow hGrants.accepted] at hStatus
  cases hStatus

end Ezpds.Pds.Transfers
