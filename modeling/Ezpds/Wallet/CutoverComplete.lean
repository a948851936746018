import Mathlib.Data.List.Flatten
import Ezpds.Wallet.Cutover

/-!
# What a finished migration has been through

The phase that is recorded stands for the legs that lie behind it. It is only as good as the
commands that record it, and these look at the identity alone: so a migration is prepared when
nothing of another is under way.

* `Plan.chain`: the legs up to a phase.
* `World.Complete`: what the memory of the wallet stands for.
* `cutover_complete`: every source that is deactivated has been left by all of them.
* `finalized_complete`: and so has a migration that is recorded as final, a recovery included.
-/

namespace Ezpds.Wallet.Outbound

open Library

variable {w w' : World} {flight : Flight} {answer : Answer} {did : String} {events log : List Event}
  {s : OutboundMigrationState} {leg : Option MigrationState}

/-! ## The legs -/

theorem MigrationPhase.le_iff {a b : MigrationPhase} : a ≤ b ↔ a.rank ≤ b.rank :=
  Iff.rfl

/-- What is moved, and between which servers. -/
structure Plan where
  did : String
  source : String
  dest : String
  recovery : Bool

def OutboundMigrationState.plan (s : OutboundMigrationState) : Plan :=
  ⟨s.did, s.sourcePdsUrl, s.destPdsUrl, s.recovery⟩

namespace Plan

variable {p : Plan} {a b : MigrationPhase}

def deactivation (p : Plan) : List Event :=
  if p.recovery then [] else [.deactivated p.source p.did]

/-- What the leg that ends in a phase does. -/
def legEvents (p : Plan) : MigrationPhase → List Event
  | .resolved | .sourceAuthed => []
  | .destCreated => [.accountCreated p.dest p.did]
  | .repoTransferred => [.repoImported p.dest p.did]
  | .blobsTransferred => [.blobsDrained p.dest p.did]
  | .preferencesTransferred => if p.recovery then [] else [.preferencesPut p.dest p.did]
  | .verified => [.importVerified p.dest p.did]
  | .identityArmed => [.legArmed p.dest p.did]
  | .finalized =>
    [.identityMoved p.did, .activated p.dest p.did, .credentialKept p.did] ++ p.deactivation

def phases : List MigrationPhase :=
  [.resolved, .sourceAuthed, .destCreated, .repoTransferred, .blobsTransferred,
    .preferencesTransferred, .verified, .identityArmed, .finalized]

def chain (p : Plan) (phase : MigrationPhase) : List Event :=
  (phases.take (phase.rank + 1)).flatMap p.legEvents

theorem chain_mono (h : a ≤ b) : (p.chain a).Sublist (p.chain b) :=
  (List.take_sublist_take_left (Nat.succ_le_succ h)).flatMap p.legEvents

theorem phases_getElem (a : MigrationPhase) : phases[a.rank]? = some a := by
  cases a <;> rfl

/-- A leg adds its own to what lies behind it. -/
theorem chain_next (h : b.rank = a.rank + 1) : p.chain b = p.chain a ++ p.legEvents b := by
  rw [chain, chain, ← h, List.take_add_one, phases_getElem, List.flatMap_append]
  simp

theorem chain_done (h : b.rank = a.rank + 1) (hChain : (p.chain a).Sublist log) :
    (p.chain b).Sublist (log ++ p.legEvents b) := by
  rw [chain_next h]
  exact hChain.append_right _

end Plan

/-- The identity has been pointed at the destination. -/
def Plan.moved (p : Plan) : List Event :=
  p.chain .identityArmed ++ [.identityMoved p.did]

/-- The destination is active, and the wallet has its session. -/
def Plan.kept (p : Plan) : List Event :=
  p.moved ++ [.activated p.dest p.did, .credentialKept p.did]

/-- What a cutover has behind it. -/
def Finalize.progress (p : Plan) (f : Finalize) : List Event :=
  match f.stage with
  | .checkLeg => p.chain .identityArmed
  | .activate => p.moved
  | .ensureSession => p.moved ++ [.activated p.dest p.did]
  | .deactivate => p.kept

/-! ## What the memory stands for -/

/-- A session of the plan's identity at a server. -/
def Client.At (host did : String) (c : Client) : Prop :=
  c.host = host ∧ c.did = did

/-- A command of a plan has behind it what its gate has asked for. -/
def Flight.Follows (p : Plan) (log : List Event) : Flight → Prop
  | .creating did destPdsUrl existing _ => did = p.did ∧ destPdsUrl = p.dest ∧
      ∀ c ∈ existing, c.At p.dest p.did ∧ (p.chain .destCreated).Sublist log
  | .importing _ dest _ => dest.At p.dest p.did ∧ (p.chain .destCreated).Sublist log
  | .draining _ dest _ => dest.At p.dest p.did ∧ (p.chain .repoTransferred).Sublist log
  | .copyingPreferences _ dest =>
      p.recovery = false ∧ dest.At p.dest p.did ∧ (p.chain .blobsTransferred).Sublist log
  | .verifying _ dest _ =>
      dest.At p.dest p.did ∧ (p.chain .preferencesTransferred).Sublist log
  | .arming did dest =>
      did = p.did ∧ dest.At p.dest p.did ∧ (p.chain .verified).Sublist log
  | .submitting did _ | .publishing did _ =>
      did = p.did ∧ (p.chain .identityArmed).Sublist log
  | .clearing _ _ | .discarding _ => p.moved.Sublist log
  | .finalizing f => f.did = p.did ∧ f.destClient.At p.dest p.did ∧
      (f.sourceClient = none ↔ p.recovery = true) ∧
      (∀ c ∈ f.sourceClient, c.At p.source p.did) ∧ (f.progress p).Sublist log
  | .saving save => (p.chain save.phase).Sublist log ∧
      (∀ c, save.write = .destClient c →
        c.At p.dest p.did ∧ (p.chain .destCreated).Sublist log) ∧
      ∀ c, save.write = .sourceClient c → c.did = save.did ∧ save.sourcePdsUrl = some c.host
  | .loggingIn _ _ | .awaitingKey _ | .building _ _ | .parking _ _ | .probing _ _ _ => True

/-- A command that is under way without a migration. -/
def Flight.Idle : Flight → Prop
  | .awaitingKey _ | .probing _ _ _ | .saving _ => True
  | _ => False

/-- The slot of the migration, against what has happened since it was prepared. -/
structure OutboundMigrationState.Stands (s : OutboundMigrationState)
    (leg : Option MigrationState) (log : List Event) : Prop where
  phase : (s.plan.chain s.phase).Sublist log
  destClient : ∀ c ∈ s.destClient,
    c.At s.destPdsUrl s.did ∧ (s.plan.chain .destCreated).Sublist log
  sourceClient : ∀ c ∈ s.sourceClient, c.At s.sourcePdsUrl s.did
  armed : ∀ ms ∈ leg, ms.did = s.did ∧ (s.plan.chain .identityArmed).Sublist log
  moved : .legArmed s.destPdsUrl s.did ∈ log → leg = none → s.plan.moved.Sublist log
  recovers : s.recovery = true → ∀ host did, .deactivated host did ∉ log

/-- Each source that is deactivated has been left by all the legs of a migration. -/
def Left (events : List Event) : Prop :=
  ∀ host did, .deactivated host did ∈ events → ∃ dest,
    (Plan.chain ⟨did, host, dest, false⟩ .finalized).Sublist events

/-- A command has behind it what its migration asks for. -/
def Flight.Sound (w : World) (flight : Flight) : Prop :=
  match w.orchestration with
  | none => flight.Idle
  | some s => flight.Follows s.plan w.log

structure World.Complete (w : World) : Prop where
  legless : w.orchestration = none → w.leg = none
  stands : ∀ s ∈ w.orchestration, s.Stands w.leg w.log
  flights : ∀ flight ∈ w.flights, flight.Sound w
  left : Left (w.past ++ w.log)

/-- A migration is prepared when nothing of another is under way. -/
def Alone (w : World) : Label → Prop
  | .prepare _ _ _ _ _ => w.flights = [] ∧ w.leg = none
  | _ => True

instance (w : World) (label : Label) : Decidable (Alone w label) :=
  match label with
  | .prepare _ _ _ _ _ => inferInstanceAs (Decidable (_ ∧ _))
  | .begin _ | .answer _ _ | .restart => .isTrue trivial

/-! ## What happens -/

theorem Plan.legArmed_mem_chain {p : Plan} :
    .legArmed p.dest p.did ∈ p.chain .identityArmed := by
  have h : p.chain .identityArmed = p.chain .verified ++ p.legEvents .identityArmed :=
    Plan.chain_next rfl
  rw [h]
  exact List.mem_append_right _ List.mem_cons_self

theorem Plan.chain_finalized (p : Plan) : p.chain .finalized = p.kept ++ p.deactivation := by
  have h : p.chain .finalized = p.chain .identityArmed ++ p.legEvents .finalized :=
    Plan.chain_next rfl
  rw [h, Plan.kept, Plan.moved, Plan.legEvents]
  simp

namespace Flight

theorem Follows.mono {p : Plan} (h : flight.Follows p log) (hLog : log.Sublist events) :
    flight.Follows p events := by
  cases flight with
  | creating did url existing =>
    exact ⟨h.1, h.2.1, fun c hC => (h.2.2 c hC).imp_right (·.trans hLog)⟩
  | importing | draining | verifying | submitting | publishing => exact ⟨h.1, h.2.trans hLog⟩
  | copyingPreferences | arming => exact ⟨h.1, h.2.1, h.2.2.trans hLog⟩
  | clearing | discarding => exact List.Sublist.trans h hLog
  | finalizing f => exact ⟨h.1, h.2.1, h.2.2.1, h.2.2.2.1, h.2.2.2.2.trans hLog⟩
  | saving save =>
    exact ⟨h.1.trans hLog, fun c hC => (h.2.1 c hC).imp_right (·.trans hLog), h.2.2⟩
  | loggingIn | awaitingKey | building | parking | probing => trivial

theorem Sound.follows (h : flight.Sound w) (hState : w.orchestration = some s) :
    flight.Follows s.plan w.log := by
  rw [Sound, hState] at h
  exact h

theorem Follows.sound (h : flight.Follows s.plan w.log) (hState : w.orchestration = some s) :
    flight.Sound w := by
  rw [Sound, hState]
  exact h

theorem Sound.planned (h : flight.Sound w) (hBusy : ¬flight.Idle) :
    ∃ s, w.orchestration = some s ∧ flight.Follows s.plan w.log := by
  cases hState : w.orchestration with
  | none =>
    rw [Sound, hState] at h
    exact absurd h hBusy
  | some s => exact ⟨s, rfl, h.follows hState⟩

theorem Sound.idle (h : flight.Sound w) (hState : w.orchestration = none) : flight.Idle := by
  rw [Sound, hState] at h
  exact h

/-- A source is deactivated at the end of a cutover, and that of a recovery has none. -/
theorem Sound.deactivates {host : String} (h : flight.Sound w)
    (hMem : .deactivated host did ∈ flight.effect) : ∃ s ∈ w.orchestration,
      s.recovery = false ∧ s.sourcePdsUrl = host ∧ s.did = did ∧ s.plan.kept.Sublist w.log := by
  cases flight with
  | finalizing f =>
    cases hState : w.orchestration with
    | none => exact (h.idle hState).elim
    | some s =>
      obtain ⟨-, -, hNone, hSource, hProgress⟩ := h.follows hState
      rw [Flight.effect] at hMem
      rw [Finalize.progress] at hProgress
      cases hStage : f.stage with
      | deactivate =>
        rw [hStage] at hMem hProgress
        obtain ⟨c, hC, hEvent⟩ := List.mem_map.mp hMem
        cases hEvent
        have hSome := Option.mem_toList.mp hC
        obtain ⟨hHost, hDid⟩ := hSource c hSome
        refine ⟨s, rfl, ?_, hHost.symm, hDid.symm, hProgress⟩
        refine Bool.eq_false_of_not_eq_true fun hRecovery => ?_
        rw [hNone.mpr hRecovery] at hSome
        cases hSome
      | activate =>
        rw [hStage] at hMem
        cases List.mem_singleton.mp hMem
      | checkLeg | ensureSession =>
        rw [hStage] at hMem
        cases hMem
  | creating | importing | copyingPreferences | submitting | publishing =>
    cases List.mem_singleton.mp hMem
  | _ => cases hMem

theorem effect_deactivate {f : Finalize} {p : Plan} (hStage : f.stage = .deactivate)
    (hNone : f.sourceClient = none ↔ p.recovery = true)
    (hSource : ∀ c ∈ f.sourceClient, c.At p.source p.did) :
    (Flight.finalizing f).effect = p.deactivation := by
  simp only [effect, hStage, Plan.deactivation]
  by_cases hRecovery : p.recovery = true
  · rw [if_pos hRecovery, hNone.mpr hRecovery]
    rfl
  · obtain ⟨c, hC⟩ := Option.ne_none_iff_exists'.mp (mt hNone.mp hRecovery)
    obtain ⟨hHost, hDid⟩ := hSource c hC
    rw [if_neg hRecovery, hC, ← hHost, ← hDid]
    rfl

theorem legArmed_notMem_effect {host : String} : .legArmed host did ∉ flight.effect := by
  cases flight with
  | finalizing f =>
    rw [Flight.effect]
    split <;> simp
  | _ => simp [Flight.effect]

end Flight

namespace OutboundMigrationState.Stands

theorem happened (h : s.Stands leg log) (hArmed : ∀ host did, .legArmed host did ∉ events)
    (hQuiet : s.recovery = true → ∀ host did, .deactivated host did ∉ events) :
    s.Stands leg (log ++ events) where
  phase := h.phase.trans (List.sublist_append_left _ _)
  destClient c hC := (h.destClient c hC).imp_right (·.trans (List.sublist_append_left _ _))
  sourceClient := h.sourceClient
  armed ms hMs := (h.armed ms hMs).imp_right (·.trans (List.sublist_append_left _ _))
  moved := by
    intro hMem hNone
    refine (h.moved ?_ hNone).trans (List.sublist_append_left _ _)
    exact (List.mem_append.mp hMem).resolve_right (hArmed _ _)
  recovers := by
    intro hRecovery host did hMem
    exact (List.mem_append.mp hMem).elim (h.recovers hRecovery host did)
      (hQuiet hRecovery host did)

end OutboundMigrationState.Stands

namespace World.Complete

theorem happened (h : w.Complete) (hArmed : ∀ host did, .legArmed host did ∉ events)
    (hLeft : ∀ host did, .deactivated host did ∈ events → ∃ s ∈ w.orchestration,
      s.recovery = false ∧ s.sourcePdsUrl = host ∧ s.did = did ∧ s.plan.kept.Sublist w.log) :
    (w.happened events).Complete where
  legless := h.legless
  stands := by
    intro s hState
    refine (h.stands s hState).happened hArmed ?_
    intro hRecovery host did hMem
    obtain ⟨s', hState', hNo, -⟩ := hLeft host did hMem
    cases Option.some.inj (hState.symm.trans hState')
    rw [hNo] at hRecovery
    cases hRecovery
  flights := by
    intro flight hMem
    have hFlight := h.flights flight hMem
    cases hState : w.orchestration with
    | none =>
      have hIdle := hFlight.idle hState
      rw [Flight.Sound, World.happened, hState]
      exact hIdle
    | some s => exact ((hFlight.follows hState).mono (List.sublist_append_left _ _)).sound hState
  left := by
    rw [World.happened, ← List.append_assoc]
    intro host did hMem
    rcases List.mem_append.mp hMem with hOld | hNew
    · obtain ⟨dest, hSub⟩ := h.left host did hOld
      exact ⟨dest, hSub.trans (List.sublist_append_left _ _)⟩
    · obtain ⟨s, -, hNo, rfl, rfl, hSub⟩ := hLeft host did hNew
      refine ⟨s.destPdsUrl, ?_⟩
      rw [Plan.chain_finalized]
      refine List.Sublist.append ?_ (List.singleton_sublist.mpr hNew)
      have hPlan : s.plan = ⟨s.did, s.sourcePdsUrl, s.destPdsUrl, false⟩ := by
        rw [OutboundMigrationState.plan, hNo]
      rw [← hPlan]
      exact hSub.trans (List.sublist_append_right _ _)

theorem happened_quietly (events : List Event) (h : w.Complete)
    (hArmed : ∀ host did, .legArmed host did ∉ events)
    (hQuiet : ∀ host did, .deactivated host did ∉ events) : (w.happened events).Complete :=
  h.happened hArmed fun host did hMem => absurd hMem (hQuiet host did)

theorem leg_armed {ms : MigrationState} (h : w.Complete) (hLeg : w.leg = some ms) :
    ∃ s, w.orchestration = some s ∧ ms.did = s.did ∧
      (s.plan.chain .identityArmed).Sublist w.log := by
  cases hState : w.orchestration with
  | none =>
    rw [h.legless hState] at hLeg
    cases hLeg
  | some s => exact ⟨s, rfl, (h.stands s hState).armed ms hLeg⟩

theorem begins (h : w.Complete) (hBegins : Begins w flight) : flight.Sound w := by
  cases hBegins with
  | loggingIn s hSome => exact Flight.Follows.sound trivial hSome
  | awaitingKey | probing =>
    rw [Flight.Sound]
    split <;> trivial
  | creating s _ hSome => exact Flight.Follows.sound ⟨rfl, rfl, (h.stands s hSome).destClient⟩ hSome
  | importing s dest _ hSome hPhase hDest =>
    have hStands := h.stands s hSome
    exact Flight.Follows.sound ⟨(hStands.destClient dest hDest).1,
      (Plan.chain_mono hPhase).trans hStands.phase⟩ hSome
  | draining s dest _ hSome hPhase hDest =>
    have hStands := h.stands s hSome
    exact Flight.Follows.sound ⟨(hStands.destClient dest hDest).1,
      (Plan.chain_mono hPhase).trans hStands.phase⟩ hSome
  | withoutPreferences s hSome hPhase hRecovery =>
    have hStands := h.stands s hSome
    refine Flight.Follows.sound ⟨?_, by rintro _ ⟨⟩, by rintro _ ⟨⟩⟩ hSome
    have hNext : s.plan.chain .preferencesTransferred =
        s.plan.chain .blobsTransferred ++ s.plan.legEvents .preferencesTransferred :=
      Plan.chain_next rfl
    rw [hNext, Plan.legEvents, OutboundMigrationState.plan, if_pos hRecovery, List.append_nil]
    exact (Plan.chain_mono hPhase).trans hStands.phase
  | copyingPreferences s dest hSome hPhase hRecovery hDest =>
    have hStands := h.stands s hSome
    exact Flight.Follows.sound ⟨hRecovery, (hStands.destClient dest hDest).1,
      (Plan.chain_mono hPhase).trans hStands.phase⟩ hSome
  | verifying s dest hSome hPhase hDest =>
    have hStands := h.stands s hSome
    exact Flight.Follows.sound ⟨(hStands.destClient dest hDest).1,
      (Plan.chain_mono hPhase).trans hStands.phase⟩ hSome
  | arming s dest hSome hPhase hDest =>
    have hStands := h.stands s hSome
    exact Flight.Follows.sound ⟨rfl, (hStands.destClient dest hDest).1,
      (Plan.chain_mono hPhase).trans hStands.phase⟩ hSome
  | building ms hLeg =>
    obtain ⟨s, hState, -⟩ := h.leg_armed hLeg
    exact Flight.Follows.sound trivial hState
  | submitting ms _ hLeg | publishing ms hLeg =>
    obtain ⟨s, hState, hArmed⟩ := h.leg_armed hLeg
    exact Flight.Follows.sound hArmed hState

/-- The leg is taken off the memory when the identity has been moved. -/
theorem withLeg {leg : Option MigrationState} (h : w.Complete)
    (hState : w.orchestration = some s) (hDid : ∀ ms ∈ leg, ∃ ms' ∈ w.leg, ms.did = ms'.did)
    (hNone : leg = none → w.leg = none ∨ s.plan.moved.Sublist w.log) :
    World.Complete { w with leg := leg } where
  legless := by
    intro hNo
    cases hState.symm.trans hNo
  stands := by
    intro s' hState'
    cases Option.some.inj (hState.symm.trans hState')
    have hStands := h.stands s hState
    refine ⟨hStands.phase, hStands.destClient, hStands.sourceClient, ?_, ?_, hStands.recovers⟩
    · intro ms hMs
      obtain ⟨ms', hMs', hEq⟩ := hDid ms hMs
      rw [hEq]
      exact hStands.armed ms' hMs'
    · intro hMem hGone
      exact (hNone hGone).elim (hStands.moved hMem) id
  flights := h.flights
  left := h.left

theorem withArmed {dest : Client} (h : w.Complete) (hState : w.orchestration = some s)
    (hDid : did = s.did)
    (hChain : (s.plan.chain .identityArmed).Sublist (w.log ++ [.legArmed s.destPdsUrl s.did])) :
    World.Complete { w.happened [.legArmed s.destPdsUrl s.did] with
      leg := some ⟨did, dest, none⟩ } := by
  have hStands := h.stands s hState
  have hMore := List.sublist_append_left w.log [.legArmed s.destPdsUrl s.did]
  refine ⟨?_, ?_, ?_, ?_⟩
  · intro hNo
    cases hState.symm.trans hNo
  · intro s' hState'
    cases Option.some.inj (hState.symm.trans hState')
    refine ⟨hStands.phase.trans hMore,
      fun c hC => (hStands.destClient c hC).imp_right (·.trans hMore), hStands.sourceClient,
      ?_, by rintro _ ⟨⟩, ?_⟩
    · rintro _ ⟨⟩
      exact ⟨hDid, hChain⟩
    · intro hRecovery host did hMem
      exact hStands.recovers hRecovery host did (by simpa [World.happened] using hMem)
  · intro flight hMem
    exact (((h.flights flight hMem).follows hState).mono hMore).sound hState
  · intro host did hMem
    obtain ⟨dest, hSub⟩ := h.left host did (by simpa [World.happened] using hMem)
    exact ⟨dest, hSub.trans (hMore.append_left _)⟩

/-- What is recorded is what the command has behind it. -/
theorem withSave {save : Save} {s' : OutboundMigrationState} (h : w.Complete)
    (hFlight : (Flight.saving save).Sound w) (hSave : recordPhase w.orchestration save = .ok s') :
    World.Complete { w with orchestration := some s' } := by
  obtain ⟨s, hState, hDid, -, hUrl, hDid', hSource', hDest', hRecovery', hPhase', hDest, hSource⟩ :=
    recordPhase_ok hSave
  have hStands := h.stands s hState
  obtain ⟨hChain, hWriteDest, hWriteSource⟩ := hFlight.follows hState
  have hPlan : s'.plan = s.plan := by
    rw [OutboundMigrationState.plan, OutboundMigrationState.plan, hDid', hSource', hDest',
      hRecovery']
  refine ⟨by rintro ⟨⟩, ?_, ?_, h.left⟩
  · rintro _ ⟨⟩
    refine ⟨?_, ?_, ?_, ?_, ?_, ?_⟩
    · rw [hPlan, hPhase', MigrationPhase.later]
      split
      · split
        · exact hChain
        · exact hStands.phase
      · exact hChain
    · intro c hC
      rw [hPlan, hDest', hDid']
      exact (hDest c hC).elim (hStands.destClient c) (hWriteDest c)
    · intro c hC
      rw [hSource', hDid']
      rcases hSource c hC with hOld | hNew
      · exact hStands.sourceClient c hOld
      · obtain ⟨hSub, hHost⟩ := hWriteSource c hNew
        exact ⟨(hUrl c.host hHost).symm, hSub.trans hDid.symm⟩
    · rw [hPlan, hDid']
      exact hStands.armed
    · rw [hPlan, hDest', hDid']
      exact hStands.moved
    · rw [hRecovery']
      exact hStands.recovers
  · intro flight hMem
    have hSound := ((h.flights flight hMem).follows hState)
    rw [← hPlan] at hSound
    exact Flight.Follows.sound hSound rfl

theorem moves {next : Option Flight} (h : w.Complete) (hFlight : flight.Sound w)
    (hMoves : Moves w flight w' next) : w'.Complete ∧ ∀ flight ∈ next, flight.Sound w' := by
  cases hMoves with
  | stopped => exact ⟨h, by rintro _ ⟨⟩⟩
  | lost =>
    refine ⟨h.happened (fun _ _ => Flight.legArmed_notMem_effect) ?_, by rintro _ ⟨⟩⟩
    exact fun _ _ => hFlight.deactivates
  | loggedIn did url access refresh =>
    obtain ⟨s, hState, -⟩ := hFlight.planned id
    refine ⟨h, ?_⟩
    rintro _ ⟨⟩
    refine Flight.Follows.sound ⟨List.nil_sublist _, by rintro _ ⟨⟩, ?_⟩ hState
    rintro _ ⟨⟩
    exact ⟨rfl, rfl⟩
  | keyVisible did =>
    refine ⟨h, ?_⟩
    rintro _ ⟨⟩
    rw [Flight.Sound]
    split
    · trivial
    · exact ⟨List.nil_sublist _, by rintro _ ⟨⟩, by rintro _ ⟨⟩⟩
  | adopted did url client =>
    obtain ⟨s, hState, hFollows⟩ := hFlight.planned id
    obtain ⟨hAt, hChain⟩ := hFollows.2.2 client rfl
    refine ⟨h, ?_⟩
    rintro _ ⟨⟩
    refine Flight.Follows.sound ⟨hChain, ?_, by rintro _ ⟨⟩⟩ hState
    rintro _ ⟨⟩
    exact ⟨hAt, hChain⟩
  | created did url ofRecovery access refresh =>
    obtain ⟨s, hState, rfl, rfl, -⟩ := hFlight.planned id
    have hChain := Plan.chain_done (p := s.plan) (a := .sourceAuthed) (b := .destCreated) rfl
      (List.nil_sublist w.log)
    refine ⟨h.happened_quietly _ (by simp) (by simp), ?_⟩
    rintro _ ⟨⟩
    refine Flight.Follows.sound ⟨hChain, ?_, by rintro _ ⟨⟩⟩ hState
    rintro _ ⟨⟩
    exact ⟨⟨rfl, rfl⟩, hChain⟩
  | imported did dest ofRecovery =>
    obtain ⟨s, hState, ⟨hHost, hDid⟩, hBehind⟩ := hFlight.planned id
    have hChain := Plan.chain_done (b := .repoTransferred) rfl hBehind
    refine ⟨h.happened_quietly _ (by simp) (by simp), ?_⟩
    rintro _ ⟨⟩
    rw [hHost, hDid]
    exact Flight.Follows.sound ⟨hChain, by rintro _ ⟨⟩, by rintro _ ⟨⟩⟩ hState
  | drained did dest acceptLoss losses =>
    obtain ⟨s, hState, ⟨hHost, hDid⟩, hBehind⟩ := hFlight.planned id
    have hChain := Plan.chain_done (b := .blobsTransferred) rfl hBehind
    refine ⟨h.happened_quietly _ (by simp) (by simp), ?_⟩
    rintro _ ⟨⟩
    rw [hHost, hDid]
    exact Flight.Follows.sound ⟨hChain, by rintro _ ⟨⟩, by rintro _ ⟨⟩⟩ hState
  | copied did dest =>
    obtain ⟨s, hState, hRecovery, ⟨hHost, hDid⟩, hBehind⟩ := hFlight.planned id
    have hChain := Plan.chain_done (b := .preferencesTransferred) rfl hBehind
    refine ⟨h.happened_quietly _ (by simp) (by simp), ?_⟩
    rintro _ ⟨⟩
    rw [Plan.legEvents, if_neg (by simp [hRecovery])] at hChain
    rw [hHost, hDid]
    exact Flight.Follows.sound ⟨hChain, by rintro _ ⟨⟩, by rintro _ ⟨⟩⟩ hState
  | verified did dest acceptedLoss =>
    obtain ⟨s, hState, ⟨hHost, hDid⟩, hBehind⟩ := hFlight.planned id
    have hChain := Plan.chain_done (b := .verified) rfl hBehind
    refine ⟨h.happened_quietly _ (by simp) (by simp), ?_⟩
    rintro _ ⟨⟩
    rw [hHost, hDid]
    exact Flight.Follows.sound ⟨hChain, by rintro _ ⟨⟩, by rintro _ ⟨⟩⟩ hState
  | armed did dest =>
    obtain ⟨s, hState, hSame, ⟨hHost, hDid⟩, hBehind⟩ := hFlight.planned id
    have hChain := Plan.chain_done (b := .identityArmed) rfl hBehind
    rw [hHost, hDid]
    refine ⟨h.withArmed hState hSame hChain, ?_⟩
    rintro _ ⟨⟩
    exact Flight.Follows.sound ⟨hChain, by rintro _ ⟨⟩, by rintro _ ⟨⟩⟩ hState
  | built did dest opCid =>
    obtain ⟨s, hState, -⟩ := hFlight.planned id
    refine ⟨h, ?_⟩
    rintro _ ⟨⟩
    exact Flight.Follows.sound trivial hState
  | parked did opCid =>
    obtain ⟨s, hState, -⟩ := hFlight.planned id
    refine ⟨h.withLeg hState ?_ fun hNone => Or.inl (Option.map_eq_none_iff.mp hNone),
      by rintro _ ⟨⟩⟩
    intro ms hMs
    obtain ⟨ms', hMs', rfl⟩ := Option.map_eq_some_iff.mp hMs
    refine ⟨ms', hMs', ?_⟩
    split <;> rfl
  | submitted did opCid =>
    obtain ⟨s, hState, rfl, hBehind⟩ := hFlight.planned id
    refine ⟨h.happened_quietly _ (by simp) (by simp), ?_⟩
    rintro _ ⟨⟩
    exact Flight.Follows.sound (hBehind.append_right [_]) hState
  | cleared did opCid =>
    obtain ⟨s, hState, hMoved⟩ := hFlight.planned id
    refine ⟨h.withLeg hState ?_ fun _ => Or.inr hMoved, by rintro _ ⟨⟩⟩
    exact fun ms hMs => ⟨ms, (Option.filter_eq_some_iff.mp hMs).1, rfl⟩
  | published did dest =>
    obtain ⟨s, hState, rfl, hBehind⟩ := hFlight.planned id
    refine ⟨h.happened_quietly _ (by simp) (by simp), ?_⟩
    rintro _ ⟨⟩
    exact Flight.Follows.sound (hBehind.append_right [_]) hState
  | discarded did =>
    obtain ⟨s, hState, hMoved⟩ := hFlight.planned id
    exact ⟨h.withLeg hState (by rintro _ ⟨⟩) fun _ => Or.inr hMoved, by rintro _ ⟨⟩⟩
  | gated did snapshot now capabilities flight hGate =>
    obtain ⟨s, client, source, hState, rfl, hPhase, hClient, hNone, hSource, rfl⟩ :=
      gateFinalize_ok hGate
    have hStands := h.stands s hState
    refine ⟨h, ?_⟩
    rintro _ ⟨⟩
    refine Flight.Follows.sound ⟨rfl, (hStands.destClient client hClient).1, hNone, ?_, ?_⟩ hState
    · exact fun c hC => hStands.sourceClient c (hSource c hC)
    · exact (Plan.chain_mono hPhase).trans hStands.phase
  | legGone f hStage hLeg =>
    obtain ⟨s, hState, hDid, hClient, hNone, hSource, hProgress⟩ := hFlight.planned id
    rw [Finalize.progress, hStage] at hProgress
    refine ⟨h, ?_⟩
    rintro _ ⟨⟩
    refine Flight.Follows.sound ⟨hDid, hClient, hNone, hSource, ?_⟩ hState
    exact (h.stands s hState).moved (hProgress.subset Plan.legArmed_mem_chain) hLeg
  | activated f hStage =>
    obtain ⟨s, hState, hDid, hClient, hNone, hSource, hProgress⟩ := hFlight.planned id
    rw [Finalize.progress, hStage] at hProgress
    refine ⟨h.happened_quietly _ (by simp) (by simp), ?_⟩
    rintro _ ⟨⟩
    refine Flight.Follows.sound ⟨hDid, hClient, hNone, hSource, ?_⟩ hState
    rw [hClient.1, hClient.2]
    exact hProgress.append_right [_]
  | kept f tokens minted stores hStage =>
    obtain ⟨s, hState, hDid, hClient, hNone, hSource, hProgress⟩ := hFlight.planned id
    rw [Finalize.progress, hStage] at hProgress
    have hKept := h.happened_quietly [.credentialKept f.did] (by simp) (by simp)
    refine ⟨⟨hKept.legless, hKept.stands, hKept.flights, hKept.left⟩, ?_⟩
    rintro _ ⟨⟩
    refine Flight.Follows.sound ⟨hDid, hClient, hNone, hSource, ?_⟩ hState
    rw [Finalize.progress, Plan.kept, hDid]
    have hAll := hProgress.append_right [Event.credentialKept s.plan.did]
    rwa [List.append_assoc] at hAll
  | deactivated f hStage =>
    obtain ⟨s, hState, hDid, hClient, hNone, hSource, hProgress⟩ := hFlight.planned id
    rw [Finalize.progress, hStage] at hProgress
    refine ⟨h.happened (fun _ _ => Flight.legArmed_notMem_effect) ?_, ?_⟩
    · exact fun _ _ => hFlight.deactivates
    · rintro _ ⟨⟩
      refine Flight.Follows.sound ⟨?_, by rintro _ ⟨⟩, by rintro _ ⟨⟩⟩ hState
      rw [Flight.effect_deactivate hStage hNone hSource]
      show (s.plan.chain .finalized).Sublist (w.log ++ s.plan.deactivation)
      rw [Plan.chain_finalized]
      exact hProgress.append_right _
  | saved save s hSave => exact ⟨h.withSave hFlight hSave, by rintro _ ⟨⟩⟩

theorem step {label : Label} (h : w.Complete) (hAlone : Alone w label)
    (hStep : step w label = some w') : w'.Complete := by
  cases label with
  | prepare did sourcePdsUrl destPdsUrl destDid recovery =>
    obtain ⟨hFlights, hLeg⟩ := hAlone
    cases hStep
    refine ⟨by rintro ⟨⟩, ?_, ?_, ?_⟩
    · rintro _ ⟨⟩
      refine ⟨List.nil_sublist _, by rintro _ ⟨⟩, by rintro _ ⟨⟩, ?_, by rintro ⟨⟩, ?_⟩
      · intro ms hMs
        rw [hLeg] at hMs
        cases hMs
      · rintro _ _ _ ⟨⟩
    · intro flight hMem
      rw [hFlights] at hMem
      cases hMem
    · rw [List.append_nil]
      exact h.left
  | begin command =>
    rw [Outbound.step] at hStep
    split at hStep
    · rename_i flight hGate
      have hFlight := h.begins (gate_begins hGate)
      cases hStep
      refine ⟨h.legless, h.stands, ?_, h.left⟩
      intro other hMem
      rcases List.mem_append.mp hMem with hOld | hNew
      · exact h.flights other hOld
      · cases List.mem_singleton.mp hNew
        exact hFlight
    · cases hStep
      exact h
  | answer i answer =>
    obtain ⟨flight, hAt, hStep⟩ := Option.bind_eq_some_iff.mp hStep
    obtain ⟨next, hNext, rfl⟩ := Option.map_eq_some_iff.mp hStep
    have hMoves := advance_moves hNext
    obtain ⟨hWorld, hFlight⟩ := h.moves (h.flights flight (List.mem_of_getElem? hAt)) hMoves
    refine ⟨hWorld.legless, hWorld.stands, ?_, hWorld.left⟩
    intro other hMem
    rcases List.mem_append.mp hMem with hOld | hNew
    · refine hWorld.flights other ?_
      rw [hMoves.flights]
      exact (List.eraseIdx_sublist _ _).subset hOld
    · exact hFlight other (Option.mem_toList.mp hNew)
  | restart =>
    cases hStep
    exact ⟨fun _ => rfl, by rintro _ ⟨⟩, by rintro _ ⟨⟩, h.left⟩

theorem start (tokens : SortedMap String SovereignTokenRecord) : (World.start tokens).Complete where
  legless _ := rfl
  stands := by rintro _ ⟨⟩
  flights := by rintro _ ⟨⟩
  left := by rintro _ _ ⟨⟩

end World.Complete

/-! ## Runs -/

variable {tokens : SortedMap String SovereignTokenRecord} {labels : List Label}

theorem run_complete (hRun : run step (.start tokens) labels = some w)
    (hAlone : Along step Alone (.start tokens) labels) : w.Complete :=
  run_invariant_along (fun _ _ _ hw hAlone hStep => World.Complete.step hw hAlone hStep)
    (World.Complete.start tokens) hAlone hRun

/-- However the commands are repeated, mixed and cut off: a source that is deactivated has been
left by all the legs, one after the other, and each of them went to the same destination. -/
theorem cutover_complete {host : String} (hRun : run step (.start tokens) labels = some w)
    (hAlone : Along step Alone (.start tokens) labels)
    (hMem : .deactivated host did ∈ w.past ++ w.log) :
    ∃ dest, [.accountCreated dest did, .repoImported dest did, .blobsDrained dest did,
      .preferencesPut dest did, .importVerified dest did, .legArmed dest did,
      .identityMoved did, .activated dest did, .credentialKept did,
      .deactivated host did].Sublist (w.past ++ w.log) :=
  (run_complete hRun hAlone).left host did hMem

theorem cutover_complete_sample : ∃ w dest,
    run step (.start .empty) sampleLabels = some w ∧
    [.accountCreated dest sampleDid, .repoImported dest sampleDid, .blobsDrained dest sampleDid,
      .preferencesPut dest sampleDid, .importVerified dest sampleDid, .legArmed dest sampleDid,
      .identityMoved sampleDid, .activated dest sampleDid, .credentialKept sampleDid,
      .deactivated "https://old" sampleDid].Sublist (w.past ++ w.log) := by
  have hRuns : (run step (.start .empty) sampleLabels).any fun w =>
      .deactivated "https://old" sampleDid ∈ w.past ++ w.log := by
    decide +kernel
  obtain ⟨w, hRun, hMem⟩ := (Option.any_eq_true _ _).mp hRuns
  obtain ⟨dest, hChain⟩ := cutover_complete hRun (by decide +kernel) (of_decide_eq_true hMem)
  exact ⟨w, dest, hRun, hChain⟩

/-- Two migrations of one identity: the check of the first import comes back when the account at
the second destination has just been made. -/
def overlapLabels : List Label :=
  [.prepare sampleDid "https://old" "https://a" "did:web:a" false,
    .begin (.authenticateMigrationSource sampleDid), .answer 0 (.session none none),
    .answer 0 .done,
    .begin (.createDestinationAccount sampleDid), .answer 0 (.session none none),
    .answer 0 .done,
    .begin (.transferRepo sampleDid), .answer 0 .done, .answer 0 .done,
    .begin (.transferBlobs sampleDid false), .answer 0 (.drained []), .answer 0 .done,
    .begin (.transferPreferences sampleDid), .answer 0 .done, .answer 0 .done,
    .begin (.verifyImport sampleDid),
    .prepare sampleDid "https://old" "https://b" "did:web:b" false,
    .begin (.authenticateMigrationSource sampleDid), .answer 1 (.session none none),
    .answer 1 .done,
    .begin (.createDestinationAccount sampleDid), .answer 1 (.session none none),
    .answer 1 .done,
    .answer 0 (.status ⟨some "rev", 0, 0⟩), .answer 0 .done,
    .begin (.armIdentityLeg sampleDid), .answer 0 .done, .answer 0 .done,
    .begin (.buildMigrationOp sampleDid), .answer 0 (.built "op"), .answer 0 .done,
    .begin (.submitMigrationOp sampleDid), .answer 0 .done, .answer 0 .done,
    .begin (.finalizeMigration sampleDid 7), .answer 0 (.capabilities ⟨true, true⟩),
    .answer 0 .done, .answer 0 .done, .answer 0 (.minted (.ok sampleRecord) true),
    .answer 0 .done, .answer 0 .done]

-- Without the guard the source may be left with no repo at the destination.
example : (run step (.start .empty) overlapLabels).any fun w =>
    [.activated "https://b" sampleDid, .deactivated "https://old" sampleDid].Sublist w.log ∧
      .repoImported "https://b" sampleDid ∉ w.past ++ w.log := by
  decide +kernel

/-- A migration that is recorded as final has been through all of its legs, and a recovery has
not touched its source. -/
theorem finalized_complete (hRun : run step (.start tokens) labels = some w)
    (hAlone : Along step Alone (.start tokens) labels) (hState : w.orchestration = some s)
    (hPhase : s.phase = .finalized) : (s.plan.chain .finalized).Sublist w.log ∧
      (s.recovery = true → ∀ host did, .deactivated host did ∉ w.log) := by
  have hStands := (run_complete hRun hAlone).stands s hState
  exact ⟨hPhase ▸ hStands.phase, hStands.recovers⟩

/-- A recovery from its preparation to its end. -/
def recoveryLabels : List Label :=
  [.prepare sampleDid "https://old" "https://new" "did:web:new" true,
    .begin (.awaitRecoveryKeyVisibility sampleDid), .answer 0 .done, .answer 0 .done,
    .begin (.createRecoveryDestinationAccount sampleDid), .answer 0 (.session none none),
    .answer 0 .done,
    .begin (.recoveryTransferRepo sampleDid), .answer 0 .done, .answer 0 .done,
    .begin (.transferBlobs sampleDid false), .answer 0 (.drained []), .answer 0 .done,
    .begin (.transferPreferences sampleDid), .answer 0 .done,
    .begin (.verifyImport sampleDid), .answer 0 (.status ⟨some "rev", 0, 0⟩), .answer 0 .done,
    .begin (.armIdentityLeg sampleDid), .answer 0 .done, .answer 0 .done,
    .begin (.buildMigrationOp sampleDid), .answer 0 (.built "op"), .answer 0 .done,
    .begin (.submitMigrationOp sampleDid), .answer 0 .done, .answer 0 .done,
    .begin (.finalizeMigration sampleDid 7), .answer 0 (.capabilities ⟨true, true⟩),
    .answer 0 .done, .answer 0 .done, .answer 0 (.minted (.ok sampleRecord) true),
    .answer 0 .done, .answer 0 .done]

theorem finalized_complete_sample : ∃ w s, run step (.start .empty) recoveryLabels = some w ∧
    w.orchestration = some s ∧ (s.plan.chain .finalized).Sublist w.log ∧
    (s.recovery = true → ∀ host did, .deactivated host did ∉ w.log) := by
  have hRuns : (run step (.start .empty) recoveryLabels).any fun w =>
      w.orchestration.any fun s => s.phase = .finalized := by
    decide +kernel
  obtain ⟨w, hRun, hFinal⟩ := (Option.any_eq_true _ _).mp hRuns
  obtain ⟨s, hState, hPhase⟩ := (Option.any_eq_true _ _).mp hFinal
  exact ⟨w, s, hRun, hState,
    finalized_complete hRun (by decide +kernel) hState (of_decide_eq_true hPhase)⟩

end Ezpds.Wallet.Outbound
