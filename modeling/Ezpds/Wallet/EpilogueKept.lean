import Ezpds.Wallet.RecoveryEpilogue

/-!
# The epilogue is not lost

The call that re-anchors an identity stages the record after its operation has landed. What is
staged stays durable over every run; what is never staged is lost when the call ends in between.

* `inv_step`: the shares of a set that was staged are in the record or in the synchronizable
  slot.
* `epilogue_kept`: an identity that was re-anchored has its record exactly when no call of
  `recover_identity` is broken off between the landing and the staging.
-/

namespace Ezpds.Wallet.Ceremony

open Library Crypto

attribute [local instance] three_shares

section Model

variable (crates : RecoveryCrates)

/-! ## What a run keeps -/

/-- The identity that `recover_identity` is at work for. -/
def Phase.recovers : Phase → Option String
  | .anchoring did _ | .anchorCaching did _ | .staging did _ => some did
  | .anchorPosted op _ => some op.did
  | _ => none

/-- The copy of the record that `run_recovery_epilogue` works with. -/
def Phase.record : Phase → Option EpilogueRecord
  | .swapping record _ | .swapPosted _ record _ | .swapped record _ | .swapCaching record _
  | .escrowing record _ | .escrowed record | .storing record | .readingBack record
  | .stored record => some record
  | _ => none

/-- The record is one of a set that was drawn: its shares are those of a split of a seed, and
its key is the one that the seed derives. -/
def IsSet (record : EpilogueRecord) : Prop :=
  ∃ fill seed setId,
    freshRecord crates record.did record.oldRecoveryKeyId fill seed setId = .ok record

/-- The records hold the same new set for the same identity. -/
structure SameSet (a b : EpilogueRecord) : Prop where
  did : a.did = b.did
  key : a.newRecoveryKeyId = b.newRecoveryKeyId
  share1 : a.share1 = b.share1
  share2 : a.share2 = b.share2
  share3 : a.share3 = b.share3

namespace State

/-- The durable record is one for the identity. -/
def holds (s : State) (did : String) : Bool :=
  match s.epilogue with
  | .held record => record.did == did
  | .absent | .unreadable => false

/-- The call at work has re-anchored its identity, and its record is still to come. -/
def gap (s : State) : Bool :=
  s.phase.recovers.any fun did => s.owed.contains did && !s.holds did

/-- `recover_identity` finds the recovery key gone. -/
def refused (deviceKey : String → String) (s : State) : Bool :=
  match s.phase with
  | .anchoring did key =>
    !s.anchored deviceKey did && !(s.directory did).rotationKeys.contains key
  | _ => false

/-- No call of `recover_identity` is broken off between the landing of its operation and the
staging of the record: no operation of a call that was given up lands, and in the gap the call
neither fails, nor dies with the app, nor finds another record in the slot. -/
def Unbroken (deviceKey : String → String) (s : State) : Action → Bool
  | .land op _ => !op.reanchors || s.holds op.did || s.phase.recovers == some op.did
  | .readState => !(s.gap && s.refused deviceKey)
  | .stage _ _ _ => !s.gap || s.epilogue == .absent
  | .fail | .kill => !s.gap
  | _ => true

/-- An identity that was re-anchored, and whose backup was not confirmed since, has its record,
or the call that re-anchored it is still at work. -/
def Kept (s : State) : Prop :=
  ∀ did ∈ s.owed, s.holds did = true ∨ s.phase.recovers = some did

/-- The shares of the set are durable: all three in the record, or the first one in the
synchronizable slot. -/
def Durable (s : State) (record : EpilogueRecord) : Prop :=
  (∃ held, s.epilogue = .held held ∧ SameSet held record) ∨
    s.keychain.synced (recoveryShare1Account record.did) = some record.share1.toUTF8

/-- What was staged last for an identity is durable while its key is a rotation key. -/
def Recoverable (s : State) : Prop :=
  ∀ did record, s.staged did = some record → record.did = did ∧ IsSet crates record ∧
    (record.newRecoveryKeyId ∈ (s.directory did).rotationKeys → s.Durable record)

/-- At the start nothing was posted and nothing has happened yet. -/
structure Fresh (s : State) : Prop where
  phase : s.phase = .idle
  posted : s.posted = []
  owed : s.owed = []
  staged : s.staged = fun _ => none

/-- What was staged is durable whether its key has been swapped in or not. -/
structure Inv (s : State) : Prop where
  set : ∀ did record, s.staged did = some record → record.did = did ∧ IsSet crates record
  drawn : ∀ did record, s.staged did = some record →
    s.keychain.item (recoveryShare1Account did) ≠ some record.share1.toUTF8
  durable : ∀ did record, s.staged did = some record → s.Durable record
  pending : ∀ held record, s.epilogue = .held held → s.staged held.did = some record →
    SameSet held record
  working : ∀ record ∈ s.phase.record, ∃ held, s.epilogue = .held held ∧ SameSet held record

end State

theorem SameSet.refl (a : EpilogueRecord) : SameSet a a := ⟨rfl, rfl, rfl, rfl, rfl⟩

theorem SameSet.symm {a b : EpilogueRecord} (h : SameSet a b) : SameSet b a :=
  ⟨h.did.symm, h.key.symm, h.share1.symm, h.share2.symm, h.share3.symm⟩

theorem SameSet.trans {a b c : EpilogueRecord} (h : SameSet a b) (h' : SameSet b c) :
    SameSet a c :=
  ⟨h.did.trans h'.did, h.key.trans h'.key, h.share1.trans h'.share1, h.share2.trans h'.share2,
    h.share3.trans h'.share3⟩

variable {crates} {deviceKey : String → String} {s t : State}

theorem recoveryShare1Account_inj {did did' : String}
    (h : recoveryShare1Account did = recoveryShare1Account did') : did = did' := by
  have hList := congrArg String.toList h
  rw [recoveryShare1Account, recoveryShare1Account, String.toList_append, String.toList_append]
    at hList
  exact String.toList_inj.mp (List.append_cancel_left hList)

theorem State.Inv.recoverable (h : s.Inv crates) : s.Recoverable crates := by
  intro did record hStaged
  obtain ⟨hDid, hSet⟩ := h.set did record hStaged
  exact ⟨hDid, hSet, fun _ => h.durable did record hStaged⟩

theorem State.inv_fresh (h : s.Fresh) : s.Inv crates := by
  have hNone : ∀ did record, s.staged did ≠ some record := by
    intro did record hStaged
    rw [h.staged] at hStaged
    cases hStaged
  exact {
    set := fun did record hStaged => absurd hStaged (hNone did record)
    drawn := fun did record hStaged => absurd hStaged (hNone did record)
    durable := fun did record hStaged => absurd hStaged (hNone did record)
    pending := fun held record _ hStaged => absurd hStaged (hNone _ record)
    working := by
      rw [h.phase]
      nofun }

/-! ## Steps that write nothing durable -/

/-- The step leaves the keychain, and a record at work is one of the same set. -/
structure State.Quiet (s t : State) : Prop where
  epilogue : t.epilogue = s.epilogue
  keychain : t.keychain = s.keychain
  staged : t.staged = s.staged
  record : ∀ record ∈ t.phase.record, (∃ before ∈ s.phase.record, SameSet before record) ∨
    s.epilogue = .held record

theorem State.Inv.quiet (h : s.Inv crates) (hQuiet : s.Quiet t) : t.Inv crates := by
  obtain ⟨hEpilogue, hKeychain, hStaged, hRecord⟩ := hQuiet
  have hDurable : ∀ record, t.Durable record ↔ s.Durable record := by
    intro record
    rw [Durable, Durable, hEpilogue, hKeychain]
  constructor
  · rw [hStaged]
    exact h.set
  · rw [hStaged, hKeychain]
    exact h.drawn
  · intro did record hMem
    rw [hStaged] at hMem
    exact (hDurable record).mpr (h.durable did record hMem)
  · rw [hStaged, hEpilogue]
    exact h.pending
  · intro record hMem
    rw [hEpilogue]
    rcases hRecord record hMem with ⟨before, hBefore, hSame⟩ | hHeld
    · obtain ⟨held, hHeld, hSet⟩ := h.working before hBefore
      exact ⟨held, hHeld, hSet.trans hSame⟩
    · exact ⟨record, hHeld, .refl record⟩

/-- A step within the phases of one command. -/
theorem State.quiet_of_phase (hEpilogue : t.epilogue = s.epilogue)
    (hKeychain : t.keychain = s.keychain) (hStaged : t.staged = s.staged)
    (hRecord : ∀ record ∈ t.phase.record, ∃ before ∈ s.phase.record, SameSet before record) :
    s.Quiet t :=
  ⟨hEpilogue, hKeychain, hStaged, fun record hMem => Or.inl (hRecord record hMem)⟩

theorem State.readAnchor_quiet {did key : String} :
    s.Quiet (s.readAnchor deviceKey did key) := by
  dsimp only [readAnchor]
  split
  · exact quiet_of_phase rfl rfl rfl nofun
  · split
    · exact quiet_of_phase rfl rfl rfl nofun
    · exact quiet_of_phase rfl rfl rfl nofun

theorem State.readSwap_quiet {record : EpilogueRecord} {skipEscrow : Bool}
    (h : s.phase.record = some record) : s.Quiet (s.readSwap deviceKey record skipEscrow) := by
  dsimp only [readSwap]
  split
  · refine quiet_of_phase rfl rfl rfl ?_
    rintro after ⟨⟩
    exact ⟨record, h, ⟨rfl, rfl, rfl, rfl, rfl⟩⟩
  · refine quiet_of_phase rfl rfl rfl ?_
    rintro after ⟨⟩
    exact ⟨record, h, .refl record⟩

theorem State.escrowShare2_quiet {record : EpilogueRecord} {skipEscrow offered : Bool}
    (h : s.phase.record = some record) : s.Quiet (s.escrowShare2 record skipEscrow offered) := by
  unfold escrowShare2
  split
  · refine quiet_of_phase rfl rfl rfl ?_
    rintro after ⟨⟩
    exact ⟨record, h, .refl record⟩
  · split
    · refine quiet_of_phase rfl rfl rfl ?_
      rintro after ⟨⟩
      exact ⟨record, h, ⟨rfl, rfl, rfl, rfl, rfl⟩⟩
    · refine quiet_of_phase rfl rfl rfl ?_
      rintro after ⟨⟩
      exact ⟨record, h, ⟨rfl, rfl, rfl, rfl, rfl⟩⟩

/-! ## Steps that write -/

theorem guard_bind_eq_some {α : Type} {p : Prop} [Decidable p] {x : Option α} {a : α} :
    (do guard p; x) = some a ↔ p ∧ x = some a := by
  by_cases h : p
  · simp [guard, h]
  · simp [guard, h]

theorem freshRecord_ok {did key : String} {fill : Except String Bytes32} {seed : Bytes32}
    {setId : UInt32} {record : EpilogueRecord}
    (h : (freshRecord crates did key fill seed setId).toOption = some record) :
    record.did = did ∧ IsSet crates record := by
  have hOk : freshRecord crates did key fill seed setId = .ok record := by
    cases hFresh : freshRecord crates did key fill seed setId with
    | error e =>
      rw [hFresh] at h
      cases h
    | ok record' =>
      rw [hFresh] at h
      cases h
      rfl
  obtain ⟨envelopes, _, hRest⟩ := bind_ok.mp hOk
  obtain ⟨newRecovery, _, hRest⟩ := bind_ok.mp hRest
  have hDid : record.did = did := by
    cases hRest
    rfl
  have hOld : record.oldRecoveryKeyId = key := by
    cases hRest
    rfl
  refine ⟨hDid, fill, seed, setId, ?_⟩
  rw [hDid, hOld]
  exact hOk

/-- The record is staged into an empty slot. -/
theorem State.inv_stageEpilogue (h : s.Inv crates) {did key : String}
    {fill : Except String Bytes32} {seed : Bytes32} {setId : UInt32}
    (hStage : s.stageEpilogue crates did key fill seed setId = some t) : t.Inv crates := by
  unfold stageEpilogue at hStage
  cases hSlot : s.epilogue with
  | held record =>
    rw [hSlot] at hStage
    cases hStage
    exact h.quiet (quiet_of_phase rfl rfl rfl nofun)
  | unreadable =>
    rw [hSlot] at hStage
    cases hStage
    exact h.quiet (quiet_of_phase rfl rfl rfl nofun)
  | absent =>
    rw [hSlot] at hStage
    obtain ⟨record, hRecord, hStage⟩ := Option.bind_eq_some_iff.mp hStage
    obtain ⟨hDrawn, hStage⟩ := guard_bind_eq_some.mp hStage
    obtain ⟨hDid, hSet⟩ := freshRecord_ok hRecord
    cases hStage
    have hStaged : ∀ did' record', Function.update s.staged did (some record) did' = some record' →
        (did' = did ∧ record' = record) ∨ (did' ≠ did ∧ s.staged did' = some record') := by
      intro did' record' hMem
      by_cases hEq : did' = did
      · subst hEq
        rw [Function.update_self] at hMem
        cases hMem
        exact Or.inl ⟨rfl, rfl⟩
      · rw [Function.update_of_ne hEq] at hMem
        exact Or.inr ⟨hEq, hMem⟩
    constructor
    · intro did' record' hMem
      rcases hStaged did' record' hMem with ⟨rfl, rfl⟩ | ⟨_, hOld⟩
      · exact ⟨hDid, hSet⟩
      · exact h.set did' record' hOld
    · intro did' record' hMem
      rcases hStaged did' record' hMem with ⟨rfl, rfl⟩ | ⟨_, hOld⟩
      · exact hDrawn
      · exact h.drawn did' record' hOld
    · intro did' record' hMem
      rcases hStaged did' record' hMem with ⟨rfl, rfl⟩ | ⟨_, hOld⟩
      · exact Or.inl ⟨_, rfl, .refl _⟩
      · rcases h.durable did' record' hOld with ⟨held, hHeld, _⟩ | hSynced
        · rw [hSlot] at hHeld
          cases hHeld
        · exact Or.inr hSynced
    · intro held record' hHeld hMem
      cases hHeld
      rcases hStaged _ record' hMem with ⟨_, rfl⟩ | ⟨hNe, _⟩
      · exact .refl _
      · exact absurd hDid hNe
    · nofun

/-- The record that is saved is one of the set that the slot holds. -/
theorem State.inv_save (h : s.Inv crates) {record : EpilogueRecord} {phase : Phase}
    (hWorking : s.phase.record = some record)
    (hPhase : ∀ after ∈ phase.record, after = record) : (s.save record phase).Inv crates := by
  obtain ⟨held, hHeld, hSame⟩ := h.working record hWorking
  constructor
  · exact h.set
  · exact h.drawn
  · intro did staged hMem
    rcases h.durable did staged hMem with ⟨held', hHeld', hSet⟩ | hSynced
    · rw [hHeld] at hHeld'
      cases hHeld'
      exact Or.inl ⟨record, rfl, hSame.symm.trans hSet⟩
    · exact Or.inr hSynced
  · intro after staged hAfter hMem
    cases hAfter
    rw [← hSame.did] at hMem
    exact hSame.symm.trans (h.pending held staged hHeld hMem)
  · intro after hAfter
    cases hPhase after hAfter
    exact ⟨record, rfl, .refl record⟩

/-- Share 1 is written while the record holds it. -/
theorem State.inv_writeShare1 (h : s.Inv crates) {record : EpilogueRecord}
    (hWorking : s.phase.record = some record) : (s.writeShare1 record).Inv crates := by
  obtain ⟨held, hHeld, hSame⟩ := h.working record hWorking
  unfold writeShare1
  split
  · exact h.quiet (quiet_of_phase rfl rfl rfl nofun)
  · constructor
    · exact h.set
    · exact h.drawn
    · intro did staged hMem
      rcases h.durable did staged hMem with hRecord | hSynced
      · exact Or.inl hRecord
      · by_cases hDid : staged.did = held.did
        · have hStaged : s.staged held.did = some staged := by
            rw [← hDid, (h.set did staged hMem).1]
            exact hMem
          exact Or.inl ⟨held, hHeld, h.pending held staged hHeld hStaged⟩
        · refine Or.inr ((Function.update_of_ne ?_ _ _).trans hSynced)
          intro hEq
          exact hDid ((recoveryShare1Account_inj hEq).trans hSame.did.symm)
    · exact h.pending
    · intro after hAfter
      cases hAfter
      exact ⟨held, hHeld, hSame⟩

/-- A share that is found again is found in the synchronizable slot, when that of the device does
not hold it. -/
theorem synced_of_loadShare1 {synced item : Option ByteArray} {share1 : ByteArray}
    (h : loadShare1 synced item = some share1) (hItem : item ≠ some share1) :
    synced = some share1 := by
  unfold loadShare1 at h
  cases synced with
  | none => exact absurd h hItem
  | some bytes =>
    dsimp only at h
    split at h
    · cases hFilter : item.filter fun local' => !local'.isEmpty with
      | none =>
        rw [hFilter] at h
        exact h
      | some local' =>
        rw [hFilter] at h
        cases h
        exact absurd (Option.eq_some_of_filter_eq_some hFilter) hItem
    · exact h

/-- A confirmation leaves everything durable, or finds the first share of the record in a slot
and destroys the record. -/
theorem State.confirmBackup_cases (s : State) (syncedReads itemReads : Bool) :
    s.confirmBackup syncedReads itemReads = s ∨
      (s.epilogue = .absent ∧ s.confirmBackup syncedReads itemReads = { s with session := none }) ∨
      ∃ record, s.epilogue = .held record ∧
        loadShare1 (if syncedReads then s.keychain.synced (recoveryShare1Account record.did)
            else none)
          (if itemReads then s.keychain.item (recoveryShare1Account record.did) else none) =
            some record.share1.toUTF8 ∧
        s.confirmBackup syncedReads itemReads =
          { s with
            epilogue := .absent
            session := none
            owed := s.owed.filter (· != record.did) } := by
  cases hSlot : s.epilogue with
  | absent =>
    refine Or.inr (Or.inl ⟨rfl, ?_⟩)
    simp only [confirmBackup, hSlot]
  | unreadable =>
    refine Or.inl ?_
    simp only [confirmBackup, hSlot]
  | held record =>
    by_cases hLoaded : loadShare1
        (if syncedReads then s.keychain.synced (recoveryShare1Account record.did) else none)
        (if itemReads then s.keychain.item (recoveryShare1Account record.did) else none) =
          some record.share1.toUTF8
    · refine Or.inr (Or.inr ⟨record, rfl, hLoaded, ?_⟩)
      simp only [confirmBackup, hSlot, if_pos hLoaded]
    · refine Or.inl ?_
      simp only [confirmBackup, hSlot, if_neg hLoaded]

theorem State.inv_confirmBackup (h : s.Inv crates) (hIdle : s.phase = .idle)
    {syncedReads itemReads : Bool} : (s.confirmBackup syncedReads itemReads).Inv crates := by
  have hNone : ∀ record ∈ s.phase.record, False := by
    rw [hIdle]
    nofun
  rcases s.confirmBackup_cases syncedReads itemReads with
    hEq | ⟨_, hEq⟩ | ⟨record, hSlot, hLoaded, hEq⟩
  · rw [hEq]
    exact h
  · rw [hEq]
    exact h.quiet (quiet_of_phase rfl rfl rfl fun r hr => (hNone r hr).elim)
  · rw [hEq]
    constructor
    · exact h.set
    · exact h.drawn
    · intro did staged hMem
      rcases h.durable did staged hMem with ⟨held, hHeld, hSet⟩ | hSynced
      · rw [hSlot] at hHeld
        cases hHeld
        have hDid := (h.set did staged hMem).1
        have hItem : (if itemReads then s.keychain.item (recoveryShare1Account record.did)
            else none) ≠ some record.share1.toUTF8 := by
          split
          · rw [hSet.did, hDid, hSet.share1]
            exact h.drawn did staged hMem
          · nofun
        have hFound := synced_of_loadShare1 hLoaded hItem
        refine Or.inr ?_
        rw [← hSet.did, ← hSet.share1]
        cases syncedReads with
        | false => cases hFound
        | true => exact hFound
      · exact Or.inr hSynced
    · nofun
    · exact fun r hr => (hNone r hr).elim

theorem State.inv_step {a : Action} (h : s.Inv crates)
    (hStep : s.step crates deviceKey a = some t) : t.Inv crates := by
  cases a with
  | collect command =>
    obtain ⟨_, hStep⟩ := guard_bind_eq_some.mp hStep
    cases hStep
    exact h.quiet (quiet_of_phase rfl rfl rfl fun r hr => ⟨r, hr, .refl r⟩)
  | recover =>
    obtain ⟨_, hStep⟩ := guard_bind_eq_some.mp hStep
    obtain ⟨session, _, hStep⟩ := Option.bind_eq_some_iff.mp hStep
    obtain ⟨verified, _, hStep⟩ := Option.bind_eq_some_iff.mp hStep
    cases hStep
    exact h.quiet (quiet_of_phase rfl rfl rfl nofun)
  | readState =>
    simp only [step] at hStep
    split at hStep
    · cases hStep
      exact h.quiet readAnchor_quiet
    · rename_i hPhase
      cases hStep
      exact h.quiet (readSwap_quiet (by rw [hPhase]; rfl))
    · cases hStep
  | answered =>
    simp only [step] at hStep
    split at hStep
    · obtain ⟨_, hStep⟩ := guard_bind_eq_some.mp hStep
      cases hStep
      exact h.quiet (quiet_of_phase rfl rfl rfl nofun)
    · rename_i record _ hPhase
      obtain ⟨_, hStep⟩ := guard_bind_eq_some.mp hStep
      cases hStep
      refine h.quiet (quiet_of_phase rfl rfl rfl ?_)
      rintro after ⟨⟩
      exact ⟨record, by rw [hPhase]; rfl, ⟨rfl, rfl, rfl, rfl, rfl⟩⟩
    · cases hStep
  | refreshed =>
    simp only [step] at hStep
    split at hStep
    · cases hStep
      exact h.quiet (quiet_of_phase rfl rfl rfl nofun)
    · rename_i hPhase
      cases hStep
      refine h.quiet (quiet_of_phase rfl rfl rfl ?_)
      rintro after ⟨⟩
      exact ⟨_, by rw [hPhase]; rfl, .refl _⟩
    · cases hStep
  | stage fill seed setId =>
    simp only [step] at hStep
    split at hStep
    · exact inv_stageEpilogue h hStep
    · cases hStep
  | epilogue skipEscrow =>
    obtain ⟨_, hStep⟩ := guard_bind_eq_some.mp hStep
    unfold startEpilogue at hStep
    split at hStep
    · rename_i record hSlot
      cases hStep
      refine h.quiet ⟨rfl, rfl, rfl, ?_⟩
      intro after hAfter
      have hRecord : after = record := by
        dsimp only [enter] at hAfter
        split at hAfter <;> exact (Option.some.inj hAfter).symm
      rw [hRecord]
      exact Or.inr hSlot
    · cases hStep
    · cases hStep
  | saved =>
    simp only [step] at hStep
    split at hStep
    · rename_i hPhase
      cases hStep
      exact inv_save h (by rw [hPhase]; rfl) fun after hAfter => (Option.some.inj hAfter).symm
    · rename_i hPhase
      cases hStep
      exact inv_save h (by rw [hPhase]; rfl) fun after hAfter => (Option.some.inj hAfter).symm
    · rename_i hPhase
      cases hStep
      exact inv_save h (by rw [hPhase]; rfl) nofun
    · cases hStep
  | escrow offered =>
    simp only [step] at hStep
    split at hStep
    · rename_i hPhase
      cases hStep
      exact h.quiet (escrowShare2_quiet (by rw [hPhase]; rfl))
    · cases hStep
  | storeShare1 =>
    simp only [step] at hStep
    split at hStep
    · rename_i hPhase
      cases hStep
      exact inv_writeShare1 h (by rw [hPhase]; rfl)
    · cases hStep
  | readBack =>
    simp only [step] at hStep
    split at hStep
    · rename_i record hPhase
      cases hStep
      unfold checkShare1
      split
      · refine h.quiet (quiet_of_phase rfl rfl rfl ?_)
        rintro after ⟨⟩
        exact ⟨record, by rw [hPhase]; rfl, ⟨rfl, rfl, rfl, rfl, rfl⟩⟩
      · exact h.quiet (quiet_of_phase rfl rfl rfl nofun)
    · cases hStep
  | confirm syncedReads itemReads =>
    obtain ⟨hIdle, hStep⟩ := guard_bind_eq_some.mp hStep
    cases hStep
    exact inv_confirmBackup h hIdle
  | land op cid =>
    obtain ⟨_, hStep⟩ := guard_bind_eq_some.mp hStep
    obtain ⟨_, hStep⟩ := guard_bind_eq_some.mp hStep
    obtain ⟨_, hStep⟩ := guard_bind_eq_some.mp hStep
    cases hStep
    exact h.quiet (quiet_of_phase rfl rfl rfl fun r hr => ⟨r, hr, .refl r⟩)
  | external did tip =>
    cases hStep
    exact h.quiet (quiet_of_phase rfl rfl rfl fun r hr => ⟨r, hr, .refl r⟩)
  | fail =>
    cases hStep
    exact h.quiet (quiet_of_phase rfl rfl rfl nofun)
  | kill =>
    cases hStep
    exact h.quiet (quiet_of_phase rfl rfl rfl nofun)

/-! ## The record of a re-anchored identity -/

theorem State.Kept.of_same (h : s.Kept) (hOwed : ∀ did ∈ t.owed, did ∈ s.owed)
    (hHolds : ∀ did, s.holds did = true → t.holds did = true)
    (hRecovers : s.phase.recovers = none ∨ t.phase.recovers = s.phase.recovers) : t.Kept := by
  intro did hMem
  rcases h did (hOwed did hMem) with hHeld | hWork
  · exact Or.inl (hHolds did hHeld)
  · rcases hRecovers with hNone | hSame
    · rw [hNone] at hWork
      cases hWork
    · exact Or.inr (hSame.trans hWork)

/-- Where the call ends without having staged, it must not have been in the gap. -/
theorem State.Kept.iff_of_ended (h : s.Kept) (hOwed : t.owed = s.owed)
    (hEpilogue : t.epilogue = s.epilogue) (hEnded : t.phase.recovers = none) :
    t.Kept ↔ s.gap = false := by
  have hHolds : ∀ did, t.holds did = s.holds did := by
    intro did
    rw [holds, holds, hEpilogue]
  constructor
  · intro hKept
    rw [gap, Option.any_eq_false]
    intro did hWork
    by_cases hMem : did ∈ s.owed
    · rcases hKept did (hOwed ▸ hMem) with hHeld | hWork'
      · rw [hHolds] at hHeld
        simp [hHeld]
      · rw [hEnded] at hWork'
        cases hWork'
    · simp [hMem]
  · intro hGap did hMem
    rw [hOwed] at hMem
    rw [hHolds]
    rcases h did hMem with hHeld | hWork
    · exact Or.inl hHeld
    · rw [gap, hWork, Option.any_some, List.contains_iff_mem.mpr hMem, Bool.true_and,
        Bool.not_eq_false'] at hGap
      exact Or.inl hGap

theorem State.kept_fresh (h : s.Fresh) : s.Kept := by
  intro did hMem
  rw [h.owed] at hMem
  cases hMem

theorem State.kept_readAnchor (h : s.Kept) {did key : String}
    (hPhase : s.phase = .anchoring did key) :
    (s.readAnchor deviceKey did key).Kept ↔ (!(s.gap && s.refused deviceKey)) = true := by
  have hRefused : s.refused deviceKey =
      (!s.anchored deviceKey did && !(s.directory did).rotationKeys.contains key) := by
    rw [refused, hPhase]
  have hSame : ∀ phase posted, phase.recovers = some did →
      ({ s with phase, posted } : State).Kept := by
    intro phase posted hRecovers
    refine h.of_same (fun _ hMem => hMem) (fun _ hHeld => hHeld) (Or.inr ?_)
    rw [hPhase]
    exact hRecovers
  rw [hRefused]
  dsimp only [readAnchor]
  split
  · rename_i hAnchored
    refine iff_of_true (hSame _ _ rfl) ?_
    simp [hAnchored]
  · rename_i hAnchored
    split
    · rename_i hListed
      refine iff_of_true (hSame _ _ rfl) ?_
      simp only [hListed, Bool.not_true, Bool.and_false, Bool.not_false]
    · rename_i hListed
      rw [h.iff_of_ended (t := s.enter .idle) rfl rfl rfl, Bool.eq_false_iff.mpr hAnchored,
        Bool.eq_false_iff.mpr hListed]
      simp

theorem State.kept_stageEpilogue (h : s.Kept) {did key : String} {fill : Except String Bytes32}
    {seed : Bytes32} {setId : UInt32} (hPhase : s.phase = .staging did key)
    (hStage : s.stageEpilogue crates did key fill seed setId = some t) :
    t.Kept ↔ (!s.gap || s.epilogue == .absent) = true := by
  unfold stageEpilogue at hStage
  cases hSlot : s.epilogue with
  | held record =>
    rw [hSlot] at hStage
    cases hStage
    rw [h.iff_of_ended (t := s.enter .idle) rfl rfl rfl]
    simp
  | unreadable =>
    rw [hSlot] at hStage
    cases hStage
    rw [h.iff_of_ended (t := s.enter .idle) rfl rfl rfl]
    simp
  | absent =>
    rw [hSlot] at hStage
    obtain ⟨record, hRecord, hStage⟩ := Option.bind_eq_some_iff.mp hStage
    obtain ⟨_, hStage⟩ := guard_bind_eq_some.mp hStage
    cases hStage
    refine iff_of_true ?_ (by simp)
    intro did' hMem
    rcases h did' hMem with hHeld | hWork
    · rw [holds, hSlot] at hHeld
      cases hHeld
    · rw [hPhase] at hWork
      cases hWork
      exact Or.inl (beq_iff_eq.mpr (freshRecord_ok hRecord).1)

/-- The slot holds a record of the identity before and after. -/
theorem State.holds_save {record : EpilogueRecord} {phase : Phase} {did : String}
    (h : s.Inv crates) (hWorking : s.phase.record = some record) (hHolds : s.holds did = true) :
    (s.save record phase).holds did = true := by
  obtain ⟨held, hHeld, hSame⟩ := h.working record hWorking
  rw [holds, hHeld] at hHolds
  exact beq_iff_eq.mpr (hSame.did.symm.trans (beq_iff_eq.mp hHolds))

theorem State.kept_confirmBackup (h : s.Kept) (hIdle : s.phase = .idle)
    {syncedReads itemReads : Bool} : (s.confirmBackup syncedReads itemReads).Kept := by
  have hNone : s.phase.recovers = none := by
    rw [hIdle]
    rfl
  rcases s.confirmBackup_cases syncedReads itemReads with
    hEq | ⟨_, hEq⟩ | ⟨record, hSlot, _, hEq⟩
  · rw [hEq]
    exact h
  · rw [hEq]
    exact h.of_same (fun _ hMem => hMem) (fun _ hHeld => hHeld) (Or.inl hNone)
  · rw [hEq]
    intro did hMem
    obtain ⟨hMem, hNe⟩ := List.mem_filter.mp hMem
    rcases h did hMem with hHeld | hWork
    · rw [holds, hSlot] at hHeld
      rw [← beq_iff_eq.mp hHeld] at hNe
      simp at hNe
    · rw [hNone] at hWork
      cases hWork

theorem State.kept_landOp (h : s.Kept) {op : PostedOp} {cid : String} :
    (s.landOp op cid).Kept ↔
      (!op.reanchors || s.holds op.did || s.phase.recovers == some op.did) = true := by
  cases hReanchors : op.reanchors with
  | false =>
    refine iff_of_true ?_ (by simp)
    refine h.of_same ?_ (fun _ hHeld => hHeld) (Or.inr rfl)
    rw [landOp, hReanchors]
    exact fun _ hMem => hMem
  | true =>
    have hOwed : (s.landOp op cid).owed = op.did :: s.owed := by
      rw [landOp, hReanchors]
      rfl
    constructor
    · intro hKept
      rcases hKept op.did (hOwed ▸ List.mem_cons_self) with hHeld | hWork
      · have hHeld' : s.holds op.did = true := hHeld
        simp [hHeld']
      · have hWork' : s.phase.recovers = some op.did := hWork
        simp [hWork']
    · intro hGuard did hMem
      rw [hOwed] at hMem
      rcases List.mem_cons.mp hMem with rfl | hMem
      · have hGuard : s.holds op.did = true ∨ s.phase.recovers = some op.did := by
          simpa using hGuard
        exact hGuard
      · exact h did hMem

/-- A step keeps the records exactly when it does not break a call of `recover_identity` off. -/
theorem State.kept_step {a : Action} (h : s.Inv crates) (hKept : s.Kept)
    (hStep : s.step crates deviceKey a = some t) : t.Kept ↔ s.Unbroken deviceKey a = true := by
  have hIdle : s.phase = .idle → s.phase.recovers = none := by
    intro hPhase
    rw [hPhase]
    rfl
  cases a with
  | collect command =>
    obtain ⟨hPhase, hStep⟩ := guard_bind_eq_some.mp hStep
    cases hStep
    exact iff_of_true (hKept.of_same (fun _ hMem => hMem) (fun _ hHeld => hHeld)
      (Or.inl (hIdle hPhase))) rfl
  | recover =>
    obtain ⟨hPhase, hStep⟩ := guard_bind_eq_some.mp hStep
    obtain ⟨session, _, hStep⟩ := Option.bind_eq_some_iff.mp hStep
    obtain ⟨verified, _, hStep⟩ := Option.bind_eq_some_iff.mp hStep
    cases hStep
    exact iff_of_true (hKept.of_same (fun _ hMem => hMem) (fun _ hHeld => hHeld)
      (Or.inl (hIdle hPhase))) rfl
  | readState =>
    simp only [step] at hStep
    split at hStep
    · rename_i hPhase
      cases hStep
      exact kept_readAnchor hKept hPhase
    · rename_i record _ hPhase
      cases hStep
      have hNone : s.phase.recovers = none := by
        rw [hPhase]
        rfl
      have hRefused : s.refused deviceKey = false := by rw [refused, hPhase]
      refine iff_of_true ?_ (by simp [Unbroken, hRefused])
      unfold readSwap
      dsimp only
      split
      · exact hKept.of_same (fun _ hMem => hMem) (fun _ hHeld => hHeld) (Or.inl hNone)
      · exact hKept.of_same (fun _ hMem => hMem) (fun _ hHeld => hHeld) (Or.inl hNone)
    · cases hStep
  | answered =>
    simp only [step] at hStep
    split at hStep
    · rename_i hPhase
      obtain ⟨_, hStep⟩ := guard_bind_eq_some.mp hStep
      cases hStep
      refine iff_of_true (hKept.of_same (fun _ hMem => hMem) (fun _ hHeld => hHeld)
        (Or.inr ?_)) rfl
      rw [hPhase]
      rfl
    · rename_i hPhase
      obtain ⟨_, hStep⟩ := guard_bind_eq_some.mp hStep
      cases hStep
      refine iff_of_true (hKept.of_same (fun _ hMem => hMem) (fun _ hHeld => hHeld)
        (Or.inl ?_)) rfl
      rw [hPhase]
      rfl
    · cases hStep
  | refreshed =>
    simp only [step] at hStep
    split at hStep
    · rename_i hPhase
      cases hStep
      refine iff_of_true (hKept.of_same (fun _ hMem => hMem) (fun _ hHeld => hHeld)
        (Or.inr ?_)) rfl
      rw [hPhase]
      rfl
    · rename_i hPhase
      cases hStep
      refine iff_of_true (hKept.of_same (fun _ hMem => hMem) (fun _ hHeld => hHeld)
        (Or.inl ?_)) rfl
      rw [hPhase]
      rfl
    · cases hStep
  | stage fill seed setId =>
    simp only [step] at hStep
    split at hStep
    · rename_i hPhase
      exact kept_stageEpilogue hKept hPhase hStep
    · cases hStep
  | epilogue skipEscrow =>
    obtain ⟨hPhase, hStep⟩ := guard_bind_eq_some.mp hStep
    unfold startEpilogue at hStep
    split at hStep
    · cases hStep
      exact iff_of_true (hKept.of_same (fun _ hMem => hMem) (fun _ hHeld => hHeld)
        (Or.inl (hIdle hPhase))) rfl
    · cases hStep
    · cases hStep
  | saved =>
    have hSaved : ∀ record phase, s.phase.record = some record → s.phase.recovers = none →
        (s.save record phase).Kept := fun record phase hRecord hNone =>
      hKept.of_same (fun _ hMem => hMem) (fun _ hHeld => holds_save h hRecord hHeld)
        (Or.inl hNone)
    simp only [step] at hStep
    split at hStep
    · rename_i hPhase
      cases hStep
      exact iff_of_true (hSaved _ _ (by rw [hPhase]; rfl) (by rw [hPhase]; rfl)) rfl
    · rename_i hPhase
      cases hStep
      exact iff_of_true (hSaved _ _ (by rw [hPhase]; rfl) (by rw [hPhase]; rfl)) rfl
    · rename_i hPhase
      cases hStep
      exact iff_of_true (hSaved _ _ (by rw [hPhase]; rfl) (by rw [hPhase]; rfl)) rfl
    · cases hStep
  | escrow offered =>
    simp only [step] at hStep
    split at hStep
    · rename_i hPhase
      cases hStep
      have hNone : s.phase.recovers = none := by
        rw [hPhase]
        rfl
      refine iff_of_true ?_ rfl
      unfold escrowShare2
      split
      · exact hKept.of_same (fun _ hMem => hMem) (fun _ hHeld => hHeld) (Or.inl hNone)
      · split
        · exact hKept.of_same (fun _ hMem => hMem) (fun _ hHeld => hHeld) (Or.inl hNone)
        · exact hKept.of_same (fun _ hMem => hMem) (fun _ hHeld => hHeld) (Or.inl hNone)
    · cases hStep
  | storeShare1 =>
    simp only [step] at hStep
    split at hStep
    · rename_i hPhase
      cases hStep
      have hNone : s.phase.recovers = none := by
        rw [hPhase]
        rfl
      refine iff_of_true ?_ rfl
      unfold writeShare1
      split
      · exact hKept.of_same (fun _ hMem => hMem) (fun _ hHeld => hHeld) (Or.inl hNone)
      · exact hKept.of_same (fun _ hMem => hMem) (fun _ hHeld => hHeld) (Or.inl hNone)
    · cases hStep
  | readBack =>
    simp only [step] at hStep
    split at hStep
    · rename_i hPhase
      cases hStep
      have hNone : s.phase.recovers = none := by
        rw [hPhase]
        rfl
      refine iff_of_true ?_ rfl
      unfold checkShare1
      split
      · exact hKept.of_same (fun _ hMem => hMem) (fun _ hHeld => hHeld) (Or.inl hNone)
      · exact hKept.of_same (fun _ hMem => hMem) (fun _ hHeld => hHeld) (Or.inl hNone)
    · cases hStep
  | confirm syncedReads itemReads =>
    obtain ⟨hPhase, hStep⟩ := guard_bind_eq_some.mp hStep
    cases hStep
    exact iff_of_true (kept_confirmBackup hKept hPhase) rfl
  | land op cid =>
    obtain ⟨_, hStep⟩ := guard_bind_eq_some.mp hStep
    obtain ⟨_, hStep⟩ := guard_bind_eq_some.mp hStep
    obtain ⟨_, hStep⟩ := guard_bind_eq_some.mp hStep
    cases hStep
    exact kept_landOp hKept
  | external did tip =>
    cases hStep
    exact iff_of_true (hKept.of_same (fun _ hMem => hMem) (fun _ hHeld => hHeld)
      (Or.inr rfl)) rfl
  | fail =>
    cases hStep
    rw [hKept.iff_of_ended (t := s.enter .idle) rfl rfl rfl]
    simp [Unbroken]
  | kill =>
    cases hStep
    rw [hKept.iff_of_ended (t := { s.enter .idle with session := none }) rfl rfl rfl]
    simp [Unbroken]

/-- In every run the record of each re-anchored identity is there until its backup is confirmed,
and the shares of its new set are durable, exactly when no call of `recover_identity` is broken
off between the landing of its operation and the staging of the record. -/
theorem epilogue_kept {actions : List Action} (hFresh : s.Fresh)
    (hRun : run (State.step crates deviceKey) s actions = some t) :
    (∀ done rest u, actions = done ++ rest → run (State.step crates deviceKey) s done = some u →
      u.Kept ∧ u.Recoverable crates) ↔
    Along (State.step crates deviceKey) (fun s a => s.Unbroken deviceKey a = true) s actions := by
  have hInv : ∀ (s : State) (a : Action) (t : State), s.Inv crates →
      s.step crates deviceKey a = some t → t.Inv crates :=
    fun _ _ _ h hStep => State.inv_step h hStep
  apply reached_iff_along hInv ?_ (State.inv_fresh hFresh)
    ⟨State.kept_fresh hFresh, (State.inv_fresh hFresh).recoverable⟩ hRun
  intro s a t h hP hStep
  rw [and_iff_left (hInv s a t h hStep).recoverable]
  exact State.kept_step h hP.1 hStep

end Model

/-! ## A recovery that goes through, and one that is killed -/

def phoneDeviceKey : String → String := fun _ => "did:key:zDnaePhone"

def newSeed : Bytes32 := fun i => UInt8.ofNat (3 * i + 1)

def newSecondHash : Bytes32 := fun i =>
  [21, 39, 105, 212, 136, 34, 207, 20, 50, 51, 220, 122, 83, 181, 102, 95, 85, 240, 54, 167, 23,
   213, 155, 177, 4, 28, 236, 218, 242, 244, 52, 67].getD i 0

def newThirdHash : Bytes32 := fun i =>
  [249, 27, 23, 239, 177, 19, 186, 10, 155, 195, 37, 247, 213, 180, 25, 110, 136, 123, 225, 247,
   120, 214, 136, 157, 23, 18, 108, 183, 239, 168, 123, 61].getD i 0

/-- The sample crates, with the hashes of the new set and the key of its seed. -/
def epilogueCrates : RecoveryCrates :=
  { recoveryCrates with
    share := ⟨fun preimage =>
      if preimage.getD 3 0 = 3 ∧ preimage.getD 5 0 = 2 then newSecondHash
      else if preimage.getD 3 0 = 3 ∧ preimage.getD 5 0 = 3 then newThirdHash
      else recoveryHash preimage, base32Nopad, id⟩
    expand := fun salt seed info =>
      if seed = newSeed then .ok fun i =>
        [141, 22, 135, 29, 190, 151, 83, 122, 175, 10, 168, 34, 247, 210, 40, 26, 79, 146, 146,
         205, 35, 113, 103, 200, 229, 251, 224, 81, 207, 242, 179, 208].getD i 0
      else recoveryCrates.expand salt seed info
    fromSlice := fun scalar =>
      if scalar 0 = 141 then some
        [3, 112, 52, 98, 179, 31, 100, 39, 122, 95, 186, 33, 108, 77, 148, 132, 109, 226, 43, 246,
         135, 120, 152, 191, 5, 239, 92, 232, 213, 54, 80, 39, 90]
      else recoveryCrates.fromSlice scalar
    multibase := fun multikey =>
      if multikey.getD 2 0 = 3 then "zDnaeqDHQg8Xs2Gxi5ofqqvyDMoFrrBRxiEY51a8FBfeMXCAu"
      else recoveryCrates.multibase multikey }

/-- An app on a new phone; the device key of the lost one is still the first rotation key. -/
def lostPhone : State where
  session := none
  phase := .idle
  epilogue := .absent
  keychain := ⟨fun _ => none, fun _ => none⟩
  directory _ := ⟨sampleCid, [sampleKey.uri, recoveryKey]⟩
  posted := []
  owed := []
  staged _ := none

theorem lostPhone_fresh : lostPhone.Fresh := ⟨rfl, rfl, rfl, rfl⟩

def anchorOp : PostedOp where
  did := "did:plc:alice"
  prev := sampleCid
  rotationKeys := ["did:key:zDnaePhone", recoveryKey]
  signer := recoveryKey
  reanchors := true

/-- The shares are collected and verified. -/
def collecting : List Action :=
  [.collect (.start recoveryPds "did:plc:alice"),
    .collect (.addShare ((recoveryShares 2).encodeShare epilogueCrates.share)),
    .collect (.addShare ((recoveryShares 1).encodeShare epilogueCrates.share)),
    .collect (.verify recoveryPds)]

/-- The operation is posted and lands. -/
def landing : List Action :=
  [.recover, .readState, .land anchorOp "bafyanchor"]

def swapOp : PostedOp where
  did := "did:plc:alice"
  prev := "bafyanchor"
  rotationKeys :=
    ["did:key:zDnaePhone", "did:key:zDnaeqDHQg8Xs2Gxi5ofqqvyDMoFrrBRxiEY51a8FBfeMXCAu"]
  signer := "did:key:zDnaePhone"
  reanchors := false

/-- The rest of the ceremony; the app is killed before the swap is answered. -/
def throughEpilogue : List Action :=
  landing ++ [.answered, .refreshed, .stage (.ok fun i => UInt8.ofNat (7 * i + 2)) newSeed 777,
    .epilogue false, .readState, .land swapOp "bafyswap", .kill, .epilogue true, .readState,
    .saved, .refreshed, .escrow true, .saved, .storeShare1, .readBack, .saved, .confirm true true]

/-- The phone with a verified session. -/
def verifiedPhone (session : ShareRecoveryState) (seed : Bytes32) : State :=
  { lostPhone with
    session := some { session with
      did := "did:plc:alice"
      verified := some ⟨seed, recoveryKey⟩ } }

theorem epilogueLawful : epilogueCrates.share.base32.Lawful := base32Nopad_lawful

theorem epilogueKey_derived :
    deriveRecoveryKeypair epilogueCrates sampleSecret = .ok ⟨recoveryKey⟩ := by
  have hFirst : ∀ n, deriveFrom epilogueCrates sampleSecret (n + 1) 0 = .ok ⟨recoveryKey⟩ :=
    fun _ => rfl
  exact hFirst 4294967295

theorem epilogueCurrent_read (did : String) :
    recoveryState epilogueCrates recoveryPds did = .ok recoveryCurrent := rfl

/-- A share of the sample, entered by hand. -/
theorem share_entered (session : ShareRecoveryState) (j : Fin 3)
    (hRoom : session.Room (recoveryShares j)) :
    give epilogueCrates (some session)
        (.byHand ((recoveryShares j).encodeShare epilogueCrates.share)) =
      some (session.push epilogueCrates (recoveryShares j)) := by
  have hValid := (isSplit_of_split recoveryShares_split).valid j
  have hSome : (recoveryShares j).encodeShare epilogueCrates.share ≠ "" := by
    intro hEmpty
    have hDecoded := epilogueLawful.decode_encode ((recoveryShares j).toBytes epilogueCrates.share)
    change epilogueCrates.share.base32.decode
      ((recoveryShares j).encodeShare epilogueCrates.share) = _ at hDecoded
    rw [hEmpty] at hDecoded
    cases hDecoded
  have hWords : (splitWhitespace ((recoveryShares j).encodeShare epilogueCrates.share)).length =
      1 := by
    rw [ShareEnvelope.encodeShare, splitWhitespace_encode epilogueLawful hSome]
    rfl
  exact give_room session epilogueLawful hValid (.inl ⟨respelled_encode epilogueLawful _, hWords⟩)
    hRoom

theorem collect_step {s : State} (h : s.phase = .idle) (command : Collecting) :
    s.step epilogueCrates phoneDeviceKey (.collect command) =
      some { s with session := collect epilogueCrates s.keychain s.session command } := by
  rw [State.step, h]
  rfl

theorem collecting_run : ∃ session seed,
    run (State.step epilogueCrates phoneDeviceKey) lostPhone collecting =
      some (verifiedPhone session seed) := by
  have hSplit := isSplit_of_split recoveryShares_split
  have hDid : resolveIdentifier recoveryPds (trim "did:plc:alice") = .ok "did:plc:alice" := by
    decide +kernel
  obtain ⟨target, session, hStart, hSession, _⟩ := @startImpl_of epilogueCrates recoveryPds
    lostPhone.keychain "did:plc:alice" "did:plc:alice" recoveryCurrent hDid (by decide +kernel)
    (epilogueCurrent_read _)
  have hEmpty : session.shares = [] := startImpl_shares hStart
  have hFirst : session.Room (recoveryShares 2) := by
    constructor <;> simp [hEmpty]
  have hSecond : (session.push epilogueCrates (recoveryShares 2)).Room (recoveryShares 1) := by
    refine ShareRecoveryState.Room.push ?_ (hSplit.sameSet 2 1) ?_
    · constructor <;> simp [hEmpty]
    · rw [hSplit.index, hSplit.index]
      decide
  generalize hCollected : (session.push epilogueCrates (recoveryShares 2)).push epilogueCrates
    (recoveryShares 1) = collected
  have hShares : collected.shares = [StoredShare.fromEnvelope epilogueCrates (recoveryShares 2),
      StoredShare.fromEnvelope epilogueCrates (recoveryShares 1)] := by
    rw [← hCollected]
    simp [ShareRecoveryState.push, hEmpty]
  have hOwner : collected.did = "did:plc:alice" := by
    rw [← hCollected]
    exact hSession
  have hSeed : combinedSeed epilogueCrates collected = .ok sampleSecret := by
    rw [combinedSeed_pair collected epilogueLawful (hSplit.valid 2) (hSplit.valid 1) hShares,
      hSplit.combine 2 1 (by decide)]
    rfl
  have hVerify := verifyImpl_eq collected (epilogueCurrent_read _) hSeed epilogueKey_derived
    (by decide)
  have hStarted : collect epilogueCrates lostPhone.keychain none
      (.start recoveryPds "did:plc:alice") = some session := by
    rw [collect, hStart]
    rfl
  refine ⟨collected, sampleSecret, ?_⟩
  refine run_cons_some.mpr ⟨{ lostPhone with session := some session }, ?_, ?_⟩
  · rw [collect_step rfl, ← hStarted]
    rfl
  refine run_cons_some.mpr ⟨{ lostPhone with
    session := some (session.push epilogueCrates (recoveryShares 2)) }, ?_, ?_⟩
  · rw [collect_step rfl, ← share_entered session 2 hFirst]
    rfl
  refine run_cons_some.mpr ⟨{ lostPhone with session := some collected }, ?_, ?_⟩
  · rw [collect_step rfl, ← hCollected, ← share_entered _ 1 hSecond]
    rfl
  refine run_cons_some.mpr ⟨verifiedPhone collected sampleSecret, ?_, rfl⟩
  rw [collect_step rfl, collect, hVerify, verifiedPhone, ← hOwner]
  rfl

set_option maxRecDepth 8000 in
theorem epilogue_kept_through : ∃ t,
    run (State.step epilogueCrates phoneDeviceKey) lostPhone (collecting ++ throughEpilogue) =
        some t ∧
      t.epilogue = .absent ∧ t.owed = [] ∧
      ∀ done rest u, collecting ++ throughEpilogue = done ++ rest →
        run (State.step epilogueCrates phoneDeviceKey) lostPhone done = some u →
        u.Kept ∧ u.Recoverable epilogueCrates := by
  obtain ⟨session, seed, hCollected⟩ := collecting_run
  have hRest : ∃ t, run (State.step epilogueCrates phoneDeviceKey) (verifiedPhone session seed)
      throughEpilogue = some t ∧ t.epilogue = .absent ∧ t.owed = [] := ⟨_, rfl, rfl, rfl⟩
  obtain ⟨t, hThrough, hEpilogue, hOwed⟩ := hRest
  have hRun := run_append_some.mpr ⟨_, hCollected, hThrough⟩
  have hUnbroken : Along (State.step epilogueCrates phoneDeviceKey)
      (fun s a => s.Unbroken phoneDeviceKey a = true) lostPhone
      (collecting ++ throughEpilogue) := by
    refine along_append.mpr ⟨⟨rfl, fun _ _ => ⟨rfl, fun _ _ => ⟨rfl, fun _ _ => ⟨rfl,
      fun _ _ => trivial⟩⟩⟩⟩, ?_⟩
    intro u hu
    rw [hCollected] at hu
    cases hu
    exact of_decide_eq_true rfl
  exact ⟨t, hRun, hEpilogue, hOwed, (epilogue_kept lostPhone_fresh hRun).mpr hUnbroken⟩

/-- The app is killed after the operation has landed, and no record was staged. -/
theorem killed_before_staging :
    ¬ ∀ (actions : List Action) (s t : State), s.Fresh →
      run (State.step epilogueCrates phoneDeviceKey) s actions = some t →
      t.Kept ∧ t.Recoverable epilogueCrates := by
  intro hClaim
  obtain ⟨session, seed, hCollected⟩ := collecting_run
  have hRest : ∃ t, run (State.step epilogueCrates phoneDeviceKey) (verifiedPhone session seed)
      (landing ++ [.kill]) = some t ∧ t.epilogue = .absent ∧ t.phase = .idle ∧
      t.owed = ["did:plc:alice"] := ⟨_, rfl, rfl, rfl, rfl⟩
  obtain ⟨t, hKilled, hEpilogue, hPhase, hOwed⟩ := hRest
  have hRun := run_append_some.mpr ⟨_, hCollected, hKilled⟩
  have hOwes : "did:plc:alice" ∈ t.owed := by
    rw [hOwed]
    exact List.mem_singleton_self _
  rcases (hClaim _ _ t lostPhone_fresh hRun).1 _ hOwes with hHeld | hWork
  · rw [State.holds, hEpilogue] at hHeld
    cases hHeld
  · rw [hPhase] at hWork
    cases hWork

end Ezpds.Wallet.Ceremony
