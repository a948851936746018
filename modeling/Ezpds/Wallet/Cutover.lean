import Ezpds.Wallet.Outbound

/-!
# The order of the cutover

Commands of several migrations may be under way side by side, and be cut off anywhere. What a
command has taken under its lock it keeps to its end, so each source that is deactivated has a
destination that was activated before, and a session that was kept in between.

* `cutover_ordered`: over every run.
-/

namespace Ezpds.Wallet.Outbound

open Library

variable {w w' : World} {flight : Flight} {answer : Answer} {did : String} {events : List Event}

/-- The events of a cutover so far. -/
def Finalize.soFar (f : Finalize) : List Event :=
  match f.stage with
  | .checkLeg | .activate => []
  | .ensureSession => [.activated f.destClient.host f.did]
  | .deactivate => [.activated f.destClient.host f.did, .credentialKept f.did]

def Write.IsFor (did : String) : Write → Prop
  | .sourceClient client | .destClient client => client.did = did
  | .nothing | .acceptedBlobLoss _ => True

/-- A command has the sessions of its own identity, and a cutover has done what it is past. -/
def Flight.Ordered (events : List Event) : Flight → Prop
  | .creating did _ existing _ => ∀ client ∈ existing, client.did = did
  | .finalizing f => f.destClient.did = f.did ∧ (∀ client ∈ f.sourceClient, client.did = f.did) ∧
      f.soFar.Sublist events
  | .saving save => save.write.IsFor save.did
  | _ => True

/-- Each source that is deactivated has its destination. -/
def Covered (events : List Event) : Prop :=
  ∀ host did, .deactivated host did ∈ events → ∃ dest,
    [.activated dest did, .credentialKept did, .deactivated host did].Sublist events

structure World.Ordered (w : World) : Prop where
  destClient : ∀ s ∈ w.orchestration, ∀ client ∈ s.destClient, client.did = s.did
  sourceClient : ∀ s ∈ w.orchestration, ∀ client ∈ s.sourceClient, client.did = s.did
  flights : ∀ flight ∈ w.flights, flight.Ordered (w.past ++ w.log)
  covered : Covered (w.past ++ w.log)
  kept : ∀ did, .credentialKept did ∈ w.past ++ w.log → (w.tokens.get? did).isSome

theorem Flight.Ordered.mono {events' : List Event} (h : flight.Ordered events)
    (hEvents : events.Sublist events') : flight.Ordered events' := by
  cases flight with
  | finalizing f => exact ⟨h.1, h.2.1, h.2.2.trans hEvents⟩
  | _ => exact h

/-- What happens but is no deactivation. -/
theorem Covered.append {more : List Event} (h : Covered events)
    (hMore : ∀ host did, .deactivated host did ∈ more → ∃ dest,
      [.activated dest did, .credentialKept did].Sublist events) : Covered (events ++ more) := by
  intro host did hMem
  rcases List.mem_append.mp hMem with hOld | hNew
  · obtain ⟨dest, hSub⟩ := h host did hOld
    exact ⟨dest, hSub.trans (List.sublist_append_left _ _)⟩
  · obtain ⟨dest, hSub⟩ := hMore host did hNew
    exact ⟨dest, hSub.append (List.singleton_sublist.mpr hNew)⟩

/-! ## What a command finds -/

theorem ensurePhaseDid_ok {state : Option OutboundMigrationState} {required : MigrationPhase}
    {s : OutboundMigrationState} (h : ensurePhaseDid state did required = .ok s) :
    state = some s ∧ s.did = did ∧ required ≤ s.phase := by
  rw [ensurePhaseDid.eq_def] at h
  split at h
  · cases h
  · obtain ⟨_, hDid, h⟩ := bind_ok.mp h
    obtain ⟨_, hPhase, h⟩ := bind_ok.mp h
    cases h
    exact ⟨rfl, of_decide_eq_true (check_ok.mp hDid), of_decide_eq_true (check_ok.mp hPhase)⟩

theorem destClientOf_ok {s : OutboundMigrationState} {client : Client} :
    destClientOf s = .ok client ↔ s.destClient = some client :=
  okOr_ok

theorem sourceClientOf_ok {s : OutboundMigrationState} {client : Client} :
    sourceClientOf s = .ok client ↔ s.sourceClient = some client :=
  okOr_ok

theorem ensureLeg_ok {leg : Option MigrationState} {absent : MigrationError}
    {mismatch : String → MigrationError} {ms : MigrationState}
    (h : ensureLeg leg did absent mismatch = .ok ms) : leg = some ms ∧ ms.did = did := by
  obtain ⟨found, hLeg, h⟩ := bind_ok.mp h
  obtain ⟨_, hDid, h⟩ := bind_ok.mp h
  cases h
  exact ⟨okOr_ok.mp hLeg, of_decide_eq_true (check_ok.mp hDid)⟩

/-- The commands that begin, with what they have found at their gate. -/
inductive Begins (w : World) : Flight → Prop where
  | loggingIn (s : OutboundMigrationState) (h : w.orchestration = some s) :
      Begins w (.loggingIn s.did s.sourcePdsUrl)
  | awaitingKey (did : String) : Begins w (.awaitingKey did)
  | creating (s : OutboundMigrationState) (ofRecovery : Bool) (h : w.orchestration = some s)
      (hPhase : .sourceAuthed ≤ s.phase) :
      Begins w (.creating s.did s.destPdsUrl s.destClient ofRecovery)
  | importing (s : OutboundMigrationState) (dest : Client) (ofRecovery : Bool)
      (h : w.orchestration = some s) (hPhase : .destCreated ≤ s.phase)
      (hDest : s.destClient = some dest) : Begins w (.importing s.did dest ofRecovery)
  | draining (s : OutboundMigrationState) (dest : Client) (acceptLoss : Bool)
      (h : w.orchestration = some s) (hPhase : .repoTransferred ≤ s.phase)
      (hDest : s.destClient = some dest) : Begins w (.draining s.did dest acceptLoss)
  | withoutPreferences (s : OutboundMigrationState) (h : w.orchestration = some s)
      (hPhase : .blobsTransferred ≤ s.phase) (hRecovery : s.recovery = true) :
      Begins w (.saving ⟨s.did, .preferencesTransferred, .nothing, false, none⟩)
  | copyingPreferences (s : OutboundMigrationState) (dest : Client)
      (h : w.orchestration = some s) (hPhase : .blobsTransferred ≤ s.phase)
      (hRecovery : s.recovery = false) (hDest : s.destClient = some dest) :
      Begins w (.copyingPreferences s.did dest)
  | verifying (s : OutboundMigrationState) (dest : Client) (h : w.orchestration = some s)
      (hPhase : .preferencesTransferred ≤ s.phase) (hDest : s.destClient = some dest) :
      Begins w (.verifying s.did dest s.acceptedBlobLoss.length)
  | arming (s : OutboundMigrationState) (dest : Client) (h : w.orchestration = some s)
      (hPhase : .verified ≤ s.phase) (hDest : s.destClient = some dest) :
      Begins w (.arming s.did dest)
  | building (ms : MigrationState) (h : w.leg = some ms) :
      Begins w (.building ms.did ms.destOauthClient)
  | submitting (ms : MigrationState) (opCid : String) (h : w.leg = some ms) :
      Begins w (.submitting ms.did opCid)
  | publishing (ms : MigrationState) (h : w.leg = some ms) :
      Begins w (.publishing ms.did ms.destOauthClient)
  | probing (did : String) (snapshot : Option Client × String × String) (now : Int) :
      Begins w (.probing did snapshot now)

theorem gate_begins {command : Command} (h : gate w command = .ok flight) : Begins w flight := by
  cases command with
  | authenticateMigrationSource did =>
    obtain ⟨s, hState, h⟩ := bind_ok.mp h
    cases h
    obtain ⟨hSome, rfl, -⟩ := ensurePhaseDid_ok hState
    exact .loggingIn s hSome
  | awaitRecoveryKeyVisibility did =>
    cases h
    exact .awaitingKey did
  | createDestinationAccount did | createRecoveryDestinationAccount did =>
    obtain ⟨s, hState, h⟩ := bind_ok.mp h
    obtain ⟨_, _, h⟩ := bind_ok.mp h
    cases h
    obtain ⟨hSome, rfl, hPhase⟩ := ensurePhaseDid_ok hState
    exact .creating s _ hSome hPhase
  | transferRepo did =>
    obtain ⟨s, hState, h⟩ := bind_ok.mp h
    obtain ⟨dest, hDest, h⟩ := bind_ok.mp h
    cases h
    obtain ⟨hSome, rfl, hPhase⟩ := ensurePhaseDid_ok hState
    exact .importing s dest _ hSome hPhase (destClientOf_ok.mp hDest)
  | recoveryTransferRepo did =>
    obtain ⟨s, hState, h⟩ := bind_ok.mp h
    obtain ⟨_, _, h⟩ := bind_ok.mp h
    obtain ⟨dest, hDest, h⟩ := bind_ok.mp h
    cases h
    obtain ⟨hSome, rfl, hPhase⟩ := ensurePhaseDid_ok hState
    exact .importing s dest _ hSome hPhase (destClientOf_ok.mp hDest)
  | transferBlobs did acceptLoss =>
    obtain ⟨s, hState, h⟩ := bind_ok.mp h
    obtain ⟨dest, hDest, h⟩ := bind_ok.mp h
    cases h
    obtain ⟨hSome, rfl, hPhase⟩ := ensurePhaseDid_ok hState
    exact .draining s dest acceptLoss hSome hPhase (destClientOf_ok.mp hDest)
  | transferPreferences did =>
    obtain ⟨s, hState, h⟩ := bind_ok.mp h
    obtain ⟨hSome, rfl, hPhase⟩ := ensurePhaseDid_ok hState
    split at h
    · rename_i hRecovery
      cases h
      exact .withoutPreferences s hSome hPhase hRecovery
    · rename_i hRecovery
      obtain ⟨_, _, h⟩ := bind_ok.mp h
      obtain ⟨dest, hDest, h⟩ := bind_ok.mp h
      cases h
      exact .copyingPreferences s dest hSome hPhase (Bool.eq_false_of_not_eq_true hRecovery)
        (destClientOf_ok.mp hDest)
  | verifyImport did =>
    obtain ⟨s, hState, h⟩ := bind_ok.mp h
    obtain ⟨dest, hDest, h⟩ := bind_ok.mp h
    cases h
    obtain ⟨hSome, rfl, hPhase⟩ := ensurePhaseDid_ok hState
    exact .verifying s dest hSome hPhase (destClientOf_ok.mp hDest)
  | armIdentityLeg did =>
    obtain ⟨s, hState, h⟩ := bind_ok.mp h
    obtain ⟨dest, hDest, h⟩ := bind_ok.mp h
    cases h
    obtain ⟨hSome, rfl, hPhase⟩ := ensurePhaseDid_ok hState
    exact .arming s dest hSome hPhase (destClientOf_ok.mp hDest)
  | buildMigrationOp did =>
    obtain ⟨ms, hLeg, h⟩ := bind_ok.mp h
    cases h
    obtain ⟨hSome, rfl⟩ := ensureLeg_ok hLeg
    exact .building ms hSome
  | submitMigrationOp did =>
    obtain ⟨ms, hLeg, h⟩ := bind_ok.mp h
    obtain ⟨opCid, _, h⟩ := bind_ok.mp h
    cases h
    obtain ⟨hSome, rfl⟩ := ensureLeg_ok hLeg
    exact .submitting ms opCid hSome
  | submitDidWebMigrationDocument did =>
    obtain ⟨ms, hLeg, h⟩ := bind_ok.mp h
    cases h
    obtain ⟨hSome, rfl⟩ := ensureLeg_ok hLeg
    exact .publishing ms hSome
  | finalizeMigration did now =>
    cases h
    exact .probing did _ now

theorem cutoverSource_ok {s : OutboundMigrationState} {source : Option Client}
    (h : cutoverSource s = .ok source) :
    (source = none ↔ s.recovery = true) ∧ ∀ client ∈ source, s.sourceClient = some client := by
  rw [cutoverSource] at h
  split at h
  · rename_i hRecovery
    cases h
    exact ⟨⟨fun _ => hRecovery, fun _ => rfl⟩, by rintro _ ⟨⟩⟩
  · rename_i hRecovery
    obtain ⟨client, hClient, rfl⟩ := map_ok.mp h
    refine ⟨⟨by rintro ⟨⟩, fun h => absurd h hRecovery⟩, ?_⟩
    rintro _ ⟨⟩
    exact sourceClientOf_ok.mp hClient

theorem gateFinalize_ok {snapshot : Option Client × String × String} {now : Int}
    {capabilities : ServerCapabilities}
    (h : gateFinalize w did snapshot now capabilities = .ok flight) :
    ∃ s client source, w.orchestration = some s ∧ s.did = did ∧ .identityArmed ≤ s.phase ∧
      s.destClient = some client ∧ (source = none ↔ s.recovery = true) ∧
      (∀ c ∈ source, s.sourceClient = some c) ∧
      flight = .finalizing ⟨did, client, source, destinationCredential did capabilities, snapshot,
        now, .checkLeg⟩ := by
  obtain ⟨s, hState, h⟩ := bind_ok.mp h
  obtain ⟨client, hClient, h⟩ := bind_ok.mp h
  obtain ⟨source, hSource, h⟩ := bind_ok.mp h
  cases h
  obtain ⟨hSome, hDid, hPhase⟩ := ensurePhaseDid_ok hState
  obtain ⟨hNone, hSome'⟩ := cutoverSource_ok hSource
  exact ⟨s, client, source, hSome, hDid, hPhase, destClientOf_ok.mp hClient, hNone, hSome', rfl⟩

/-- What is recorded keeps the identity and the servers. -/
theorem recordPhase_ok {state : Option OutboundMigrationState} {save : Save}
    {s' : OutboundMigrationState} (h : recordPhase state save = .ok s') :
    ∃ s, state = some s ∧ s.did = save.did ∧ (save.ofRecovery = true → s.recovery = true) ∧
      (∀ url ∈ save.sourcePdsUrl, s.sourcePdsUrl = url) ∧ s'.did = s.did ∧
      s'.sourcePdsUrl = s.sourcePdsUrl ∧ s'.destPdsUrl = s.destPdsUrl ∧
      s'.recovery = s.recovery ∧
      s'.phase = (if save.ofRecovery then s.phase.later save.phase else save.phase) ∧
      (∀ c ∈ s'.destClient, s.destClient = some c ∨ save.write = .destClient c) ∧
      ∀ c ∈ s'.sourceClient, s.sourceClient = some c ∨ save.write = .sourceClient c := by
  obtain ⟨s, hState, h⟩ := bind_ok.mp h
  obtain ⟨_, hCheck, h⟩ := bind_ok.mp h
  obtain ⟨hDid, hRecovery, hUrl⟩ := of_decide_eq_true (check_ok.mp hCheck)
  refine ⟨s, okOr_ok.mp hState, hDid, hRecovery, hUrl, ?_⟩
  cases hWrite : save.write with
  | nothing | acceptedBlobLoss losses =>
    rw [hWrite] at h
    cases h
    exact ⟨rfl, rfl, rfl, rfl, rfl, fun c hC => Or.inl hC, fun c hC => Or.inl hC⟩
  | sourceClient client =>
    rw [hWrite] at h
    cases h
    refine ⟨rfl, rfl, rfl, rfl, rfl, fun c hC => Or.inl hC, ?_⟩
    rintro _ ⟨⟩
    exact Or.inr rfl
  | destClient client =>
    rw [hWrite] at h
    cases h
    refine ⟨rfl, rfl, rfl, rfl, rfl, ?_, fun c hC => Or.inl hC⟩
    rintro _ ⟨⟩
    exact Or.inr rfl

/-- After it the wallet has a session of the identity, and it has lost none. -/
theorem ensureSession_ok {tokens tokens' : SortedMap String SovereignTokenRecord} {f : Finalize}
    {minted : Except MigrationError SovereignTokenRecord} {stores : Bool}
    (h : ensureSession tokens f minted stores = .ok tokens') :
    (tokens'.get? f.did).isSome ∧
      ∀ did, (tokens.get? did).isSome → (tokens'.get? did).isSome := by
  rw [ensureSession] at h
  split at h
  · rename_i hKept
    cases h
    exact ⟨Option.isSome_of_any hKept, fun _ => id⟩
  · obtain ⟨record, -, h⟩ := bind_ok.mp h
    obtain ⟨_, -, h⟩ := bind_ok.mp h
    cases h
    refine ⟨by simp, ?_⟩
    intro did hSome
    rw [SortedMap.get?_set]
    split
    · rfl
    · exact hSome

/-! ## What an answer does -/

/-- The moves of a command: how it goes on, and what it does to the world. -/
inductive Moves (w : World) : Flight → World → Option Flight → Prop where
  /-- It ends or fails without an effect. -/
  | stopped (flight : Flight) : Moves w flight w none
  /-- Its request arrives, and the answer is lost. -/
  | lost (flight : Flight) : Moves w flight (w.happened flight.effect) none
  | loggedIn (did url : String) (access refresh : Option Claims) :
      Moves w (.loggingIn did url) w (some (.saving ⟨did, .sourceAuthed,
        .sourceClient ⟨url, did, access, refresh⟩, false, some url⟩))
  | keyVisible (did : String) :
      Moves w (.awaitingKey did) w (some (.saving ⟨did, .sourceAuthed, .nothing, true, none⟩))
  | adopted (did url : String) (client : Client) (ofRecovery : Bool) :
      Moves w (.creating did url (some client) ofRecovery) w
        (some (.saving ⟨did, .destCreated, .destClient client, ofRecovery, none⟩))
  | created (did url : String) (ofRecovery : Bool) (access refresh : Option Claims) :
      Moves w (.creating did url none ofRecovery) (w.happened [.accountCreated url did])
        (some (.saving ⟨did, .destCreated, .destClient ⟨url, did, access, refresh⟩, ofRecovery,
          none⟩))
  | imported (did : String) (dest : Client) (ofRecovery : Bool) :
      Moves w (.importing did dest ofRecovery) (w.happened [.repoImported dest.host dest.did])
        (some (.saving ⟨did, .repoTransferred, .nothing, ofRecovery, none⟩))
  | drained (did : String) (dest : Client) (acceptLoss : Bool) (losses : List BlobDrain.BlobLoss) :
      Moves w (.draining did dest acceptLoss) (w.happened [.blobsDrained dest.host dest.did])
        (some (saveOf did .blobsTransferred (.acceptedBlobLoss losses)))
  | copied (did : String) (dest : Client) :
      Moves w (.copyingPreferences did dest) (w.happened [.preferencesPut dest.host dest.did])
        (some (saveOf did .preferencesTransferred .nothing))
  | verified (did : String) (dest : Client) (acceptedLoss : Nat) :
      Moves w (.verifying did dest acceptedLoss) (w.happened [.importVerified dest.host dest.did])
        (some (saveOf did .verified .nothing))
  | armed (did : String) (dest : Client) :
      Moves w (.arming did dest)
        { w.happened [.legArmed dest.host dest.did] with leg := some ⟨did, dest, none⟩ }
        (some (saveOf did .identityArmed .nothing))
  | built (did : String) (dest : Client) (opCid : String) :
      Moves w (.building did dest) w (some (.parking did opCid))
  | parked (did opCid : String) :
      Moves w (.parking did opCid) { w with leg := w.leg.map fun ms =>
        if ms.did = did then { ms with opCid := some opCid } else ms } none
  | submitted (did opCid : String) :
      Moves w (.submitting did opCid) (w.happened [.identityMoved did])
        (some (.clearing did opCid))
  | cleared (did opCid : String) :
      Moves w (.clearing did opCid)
        { w with leg := w.leg.filter fun ms => ¬(ms.did = did ∧ ms.opCid = some opCid) } none
  | published (did : String) (dest : Client) :
      Moves w (.publishing did dest) (w.happened [.identityMoved did]) (some (.discarding did))
  | discarded (did : String) : Moves w (.discarding did) { w with leg := none } none
  | gated (did : String) (snapshot : Option Client × String × String) (now : Int)
      (capabilities : ServerCapabilities) (flight : Flight)
      (h : gateFinalize w did snapshot now capabilities = .ok flight) :
      Moves w (.probing did snapshot now) w (some flight)
  | legGone (f : Finalize) (hStage : f.stage = .checkLeg) (hLeg : w.leg = none) :
      Moves w (.finalizing f) w (some (.finalizing { f with stage := .activate }))
  | activated (f : Finalize) (hStage : f.stage = .activate) :
      Moves w (.finalizing f) (w.happened [.activated f.destClient.host f.destClient.did])
        (some (.finalizing { f with stage := .ensureSession }))
  | kept (f : Finalize) (tokens : SortedMap String SovereignTokenRecord)
      (minted : Except MigrationError SovereignTokenRecord) (stores : Bool)
      (hStage : f.stage = .ensureSession)
      (h : ensureSession w.tokens f minted stores = .ok tokens) :
      Moves w (.finalizing f) { w.happened [.credentialKept f.did] with tokens := tokens }
        (some (.finalizing { f with stage := .deactivate }))
  | deactivated (f : Finalize) (hStage : f.stage = .deactivate) :
      Moves w (.finalizing f) (w.happened (Flight.finalizing f).effect)
        (some (saveOf f.did .finalized .nothing))
  | saved (save : Save) (s : OutboundMigrationState)
      (h : recordPhase w.orchestration save = .ok s) :
      Moves w (.saving save) { w with orchestration := some s } none

theorem Moves.flights {next : Option Flight} (h : Moves w flight w' next) :
    w'.flights = w.flights := by
  cases h <;> rfl

/-- Every answer is one of the moves. -/
theorem advance_moves {next : World × Option Flight} (h : advance w flight answer = some next) :
    Moves w flight next.1 next.2 := by
  rw [advance.eq_def] at h
  split at h
  · cases h
    exact .loggedIn ..
  · cases h
    exact .keyVisible ..
  · cases h
    exact .adopted ..
  · cases h
    exact .created ..
  · cases h
    exact .stopped _
  · cases h
    exact .imported ..
  · split at h
    · cases h
      exact .stopped _
    · cases h
      exact .drained ..
  · cases h
    exact .copied ..
  · split at h
    · cases h
      exact .verified ..
    · cases h
      exact .stopped _
  · cases h
    exact .armed ..
  · cases h
    exact .built ..
  · cases h
    exact .parked ..
  · cases h
    exact .submitted ..
  · cases h
    exact .cleared ..
  · cases h
    exact .published ..
  · cases h
    exact .discarded ..
  · rename_i did snapshot now capabilities
    cases h
    cases hGate : gateFinalize w did snapshot now capabilities with
    | error _ => exact .stopped _
    | ok flight => exact .gated did snapshot now capabilities flight hGate
  · rename_i f
    split at h
    · rename_i hStage
      cases h
      cases hLeg : w.leg with
      | none => exact .legGone f hStage hLeg
      | some _ => exact .stopped _
    · rename_i hStage
      cases h
      rw [Flight.effect, hStage]
      exact .activated f hStage
    · cases h
    · rename_i hStage
      cases h
      exact .deactivated f hStage
  · split at h
    · rename_i hStage
      split at h
      · rename_i hTokens
        cases h
        exact .kept _ _ _ _ hStage hTokens
      · cases h
        exact .stopped _
    · cases h
  · split at h
    · rename_i hSave
      cases h
      exact .saved _ _ hSave
    · cases h
      exact .stopped _
  · split at h
    · cases h
      split
      · exact .lost _
      · exact .stopped _
    · cases h
  · cases h

/-! ## Runs -/

/-- A deactivation is the end of a cutover. -/
theorem Flight.Ordered.deactivates {host : String} (h : flight.Ordered events)
    (hMem : .deactivated host did ∈ flight.effect) :
    ∃ dest, [.activated dest did, .credentialKept did].Sublist events := by
  cases flight with
  | finalizing f =>
    obtain ⟨-, hSource, hSub⟩ := h
    rw [Flight.effect] at hMem
    rw [Finalize.soFar] at hSub
    cases hStage : f.stage with
    | deactivate =>
      rw [hStage] at hMem hSub
      obtain ⟨c, hC, hEvent⟩ := List.mem_map.mp hMem
      cases hEvent
      rw [hSource c (Option.mem_toList.mp hC)]
      exact ⟨_, hSub⟩
    | activate =>
      rw [hStage] at hMem
      cases List.mem_singleton.mp hMem
    | checkLeg | ensureSession =>
      rw [hStage] at hMem
      cases hMem
  | creating | importing | copyingPreferences | submitting | publishing =>
    cases List.mem_singleton.mp hMem
  | _ => cases hMem

theorem credentialKept_notMem_effect : .credentialKept did ∉ flight.effect := by
  cases flight with
  | finalizing f =>
    rw [Flight.effect]
    split <;> simp
  | _ => simp [Flight.effect]

namespace World.Ordered

theorem begins (h : w.Ordered) (hBegins : Begins w flight) : flight.Ordered (w.past ++ w.log) := by
  cases hBegins with
  | creating s _ hSome => exact h.destClient s hSome
  | _ => trivial

theorem happened (h : w.Ordered) (hNew : ∀ host did, .deactivated host did ∈ events →
    ∃ dest, [.activated dest did, .credentialKept did].Sublist (w.past ++ w.log))
    (hKept : ∀ did, .credentialKept did ∈ events → (w.tokens.get? did).isSome) :
    (w.happened events).Ordered where
  destClient := h.destClient
  sourceClient := h.sourceClient
  flights := by
    intro flight hMem
    refine (h.flights flight hMem).mono ?_
    rw [World.happened, ← List.append_assoc]
    exact List.sublist_append_left _ _
  covered := by
    rw [World.happened, ← List.append_assoc]
    exact h.covered.append hNew
  kept := by
    rw [World.happened, ← List.append_assoc]
    intro did hMem
    exact (List.mem_append.mp hMem).elim (h.kept did) (hKept did)

theorem happened_quietly (events : List Event) (h : w.Ordered)
    (hQuiet : ∀ host did, .deactivated host did ∉ events)
    (hKept : ∀ did, .credentialKept did ∉ events) : (w.happened events).Ordered :=
  h.happened (fun host did hMem => absurd hMem (hQuiet host did))
    fun did hMem => absurd hMem (hKept did)

/-- The identity leg does not matter here, and sessions are only added. -/
theorem of_eq (h : w.Ordered) (hState : w'.orchestration = w.orchestration)
    (hFlights : w'.flights = w.flights) (hPast : w'.past = w.past) (hLog : w'.log = w.log)
    (hTokens : ∀ did, (w.tokens.get? did).isSome → (w'.tokens.get? did).isSome) :
    w'.Ordered where
  destClient := hState ▸ h.destClient
  sourceClient := hState ▸ h.sourceClient
  flights := by
    rw [hFlights, hPast, hLog]
    exact h.flights
  covered := by
    rw [hPast, hLog]
    exact h.covered
  kept := by
    rw [hPast, hLog]
    exact fun did hMem => hTokens did (h.kept did hMem)

theorem moves {next : Option Flight} (h : w.Ordered) (hFlight : flight.Ordered (w.past ++ w.log))
    (hMoves : Moves w flight w' next) :
    w'.Ordered ∧ ∀ flight ∈ next, flight.Ordered (w'.past ++ w'.log) := by
  cases hMoves with
  | stopped => exact ⟨h, by rintro _ ⟨⟩⟩
  | lost =>
    refine ⟨h.happened (fun _ _ => hFlight.deactivates) ?_, by rintro _ ⟨⟩⟩
    exact fun did hMem => absurd hMem credentialKept_notMem_effect
  | loggedIn =>
    refine ⟨h, ?_⟩
    rintro _ ⟨⟩
    rfl
  | keyVisible =>
    refine ⟨h, ?_⟩
    rintro _ ⟨⟩
    trivial
  | adopted did url client =>
    refine ⟨h, ?_⟩
    rintro _ ⟨⟩
    exact hFlight client rfl
  | created =>
    refine ⟨h.happened_quietly _ (by simp) (by simp), ?_⟩
    rintro _ ⟨⟩
    rfl
  | imported | drained | copied | verified | submitted | published =>
    refine ⟨h.happened_quietly _ (by simp) (by simp), ?_⟩
    rintro _ ⟨⟩
    trivial
  | armed =>
    refine ⟨(h.happened_quietly [_] (by simp) (by simp)).of_eq rfl rfl rfl rfl fun _ => id, ?_⟩
    rintro _ ⟨⟩
    trivial
  | built =>
    refine ⟨h, ?_⟩
    rintro _ ⟨⟩
    trivial
  | parked | cleared | discarded => exact ⟨h.of_eq rfl rfl rfl rfl fun _ => id, by rintro _ ⟨⟩⟩
  | gated did snapshot now capabilities flight hGate =>
    refine ⟨h, ?_⟩
    rintro _ ⟨⟩
    obtain ⟨s, client, source, hState, rfl, -, hClient, -, hSource, rfl⟩ := gateFinalize_ok hGate
    exact ⟨h.destClient s hState client hClient,
      fun c hC => h.sourceClient s hState c (hSource c hC), List.nil_sublist _⟩
  | legGone f hStage =>
    refine ⟨h, ?_⟩
    rintro _ ⟨⟩
    exact ⟨hFlight.1, hFlight.2.1, List.nil_sublist _⟩
  | activated f hStage =>
    refine ⟨h.happened_quietly _ (by simp) (by simp), ?_⟩
    rintro _ ⟨⟩
    refine ⟨hFlight.1, hFlight.2.1, ?_⟩
    rw [World.happened, ← List.append_assoc, hFlight.1]
    exact List.sublist_append_right _ _
  | kept f tokens minted stores hStage hTokens =>
    obtain ⟨hHas, hMore⟩ := ensureSession_ok hTokens
    have hWith : World.Ordered { w with tokens := tokens } := h.of_eq rfl rfl rfl rfl hMore
    refine ⟨hWith.happened (by simp) (by simpa using hHas), ?_⟩
    rintro _ ⟨⟩
    refine ⟨hFlight.1, hFlight.2.1, ?_⟩
    have hSoFar := hFlight.2.2
    rw [Finalize.soFar, hStage] at hSoFar
    rw [World.happened, ← List.append_assoc]
    exact hSoFar.append (List.Sublist.refl [_])
  | deactivated f hStage =>
    refine ⟨h.happened (fun _ _ => hFlight.deactivates) ?_, ?_⟩
    · exact fun did hMem => absurd hMem credentialKept_notMem_effect
    · rintro _ ⟨⟩
      trivial
  | saved save s hSave =>
    obtain ⟨s₀, hState, hDid, -, -, hDid', -, -, -, -, hDest, hSource⟩ := recordPhase_ok hSave
    refine ⟨⟨?_, ?_, h.flights, h.covered, h.kept⟩, by rintro _ ⟨⟩⟩
    · rintro _ ⟨⟩ client hClient
      rcases hDest client hClient with hOld | hNew
      · exact (h.destClient s₀ hState client hOld).trans hDid'.symm
      · have hFor : save.write.IsFor save.did := hFlight
        rw [hNew] at hFor
        exact hFor.trans (hDid.symm.trans hDid'.symm)
    · rintro _ ⟨⟩ client hClient
      rcases hSource client hClient with hOld | hNew
      · exact (h.sourceClient s₀ hState client hOld).trans hDid'.symm
      · have hFor : save.write.IsFor save.did := hFlight
        rw [hNew] at hFor
        exact hFor.trans (hDid.symm.trans hDid'.symm)

theorem step {label : Label} (h : w.Ordered) (hStep : step w label = some w') : w'.Ordered := by
  cases label with
  | prepare did sourcePdsUrl destPdsUrl destDid recovery =>
    cases hStep
    refine ⟨?_, ?_, ?_, ?_, ?_⟩
    · rintro _ ⟨⟩ _ ⟨⟩
    · rintro _ ⟨⟩ _ ⟨⟩
    · rw [List.append_nil]
      exact h.flights
    · rw [List.append_nil]
      exact h.covered
    · rw [List.append_nil]
      exact h.kept
  | begin command =>
    rw [Outbound.step] at hStep
    split at hStep
    · rename_i flight hGate
      have hFlight := h.begins (gate_begins hGate)
      cases hStep
      refine ⟨h.destClient, h.sourceClient, ?_, h.covered, h.kept⟩
      intro other hMem
      rcases List.mem_append.mp hMem with hOld | hNew
      · exact h.flights other hOld
      · cases List.mem_singleton.mp hNew
        exact hFlight
    · cases hStep
      exact h
  | answer i answer =>
    obtain ⟨flight, hAt, hStep⟩ := Option.bind_eq_some_iff.mp hStep
    obtain ⟨next, hNext, rfl⟩ := Option.map_eq_some_iff.mp hStep
    have hMoves := advance_moves hNext
    obtain ⟨hWorld, hFlight⟩ := h.moves (h.flights flight (List.mem_of_getElem? hAt)) hMoves
    refine ⟨hWorld.destClient, hWorld.sourceClient, ?_, hWorld.covered, hWorld.kept⟩
    intro other hMem
    rcases List.mem_append.mp hMem with hOld | hNew
    · refine hWorld.flights other ?_
      rw [hMoves.flights]
      exact (List.eraseIdx_sublist _ _).subset hOld
    · exact hFlight other (Option.mem_toList.mp hNew)
  | restart =>
    cases hStep
    exact ⟨by rintro _ ⟨⟩, by rintro _ ⟨⟩, by rintro _ ⟨⟩, h.covered, h.kept⟩

theorem start (tokens : SortedMap String SovereignTokenRecord) : (World.start tokens).Ordered where
  destClient := by rintro _ ⟨⟩
  sourceClient := by rintro _ ⟨⟩
  flights := by rintro _ ⟨⟩
  covered := by rintro _ _ ⟨⟩
  kept := by rintro _ ⟨⟩

end World.Ordered

/-- However migrations are begun, repeated, cut off and mixed: a source is deactivated only after
a destination of the identity was activated and a session of the identity kept, and that session
is still there. -/
theorem cutover_ordered {tokens : SortedMap String SovereignTokenRecord} {labels : List Label}
    {host : String} (h : run step (.start tokens) labels = some w)
    (hMem : .deactivated host did ∈ w.past ++ w.log) :
    (∃ dest, [.activated dest did, .credentialKept did, .deactivated host did].Sublist
      (w.past ++ w.log)) ∧ (w.tokens.get? did).isSome := by
  have hOrdered := run_invariant (fun _ _ _ hw hStep => World.Ordered.step hw hStep)
    (World.Ordered.start tokens) h
  obtain ⟨dest, hSub⟩ := hOrdered.covered host did hMem
  exact ⟨⟨dest, hSub⟩, hOrdered.kept did (hSub.subset (by simp))⟩

/-! ### A whole migration -/

def sampleDid : String := "did:plc:a"

def sampleClaims : Claims := ⟨sampleDid, "did:web:new", 100⟩

def sampleRecord : SovereignTokenRecord :=
  ⟨some sampleClaims, some sampleClaims, "https://new", "did:web:new", some 100, some 100, 7⟩

/-- The commands of a migration one after the other, each to its end. -/
def sampleLabels : List Label :=
  [.prepare sampleDid "https://old" "https://new" "did:web:new" false,
    .begin (.authenticateMigrationSource sampleDid), .answer 0 (.session none none),
    .answer 0 .done,
    .begin (.createDestinationAccount sampleDid),
    .answer 0 (.session (some sampleClaims) (some sampleClaims)), .answer 0 .done,
    .begin (.transferRepo sampleDid), .answer 0 .done, .answer 0 .done,
    .begin (.transferBlobs sampleDid false), .answer 0 (.drained []), .answer 0 .done,
    .begin (.transferPreferences sampleDid), .answer 0 .done, .answer 0 .done,
    .begin (.verifyImport sampleDid),
    .answer 0 (.status ⟨some "rev", 0, 0⟩), .answer 0 .done,
    .begin (.armIdentityLeg sampleDid), .answer 0 .done, .answer 0 .done,
    .begin (.buildMigrationOp sampleDid), .answer 0 (.built "op"), .answer 0 .done,
    .begin (.submitMigrationOp sampleDid), .answer 0 .done, .answer 0 .done,
    .begin (.finalizeMigration sampleDid 7), .answer 0 (.capabilities ⟨true, true⟩),
    .answer 0 .done, .answer 0 .done, .answer 0 (.minted (.ok sampleRecord) true),
    .answer 0 .done, .answer 0 .done]

theorem cutover_ordered_sample : ∃ w, run step (.start .empty) sampleLabels = some w ∧
    (∃ dest, [.activated dest sampleDid, .credentialKept sampleDid,
      .deactivated "https://old" sampleDid].Sublist (w.past ++ w.log)) ∧
    (w.tokens.get? sampleDid).isSome := by
  have hRuns : (run step (.start .empty) sampleLabels).any fun w =>
      .deactivated "https://old" sampleDid ∈ w.past ++ w.log := by
    decide +kernel
  obtain ⟨w, hRun, hMem⟩ := (Option.any_eq_true _ _).mp hRuns
  exact ⟨w, hRun, cutover_ordered hRun (of_decide_eq_true hMem)⟩

end Ezpds.Wallet.Outbound
