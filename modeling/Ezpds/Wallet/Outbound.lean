import Ezpds.Library.Run
import Ezpds.Library.SortedMap
import Ezpds.Wallet.BlobDrain

/-!
# An account that moves to another server

The wallet takes an identity from one server to another: an account is made at the destination,
the repo, the blobs and the preferences are brought over, the import is verified, the identity is
pointed at the destination, and only then is the destination activated and the source
deactivated. Each leg is a command of its own: it looks at the phase under a lock, goes to the
network without it, and takes it again to record where it has come to. What is recorded is in
memory, and commands may be under way side by side.

A step is a move of one command, up to the next answer that it waits for or the next lock.

* `gate`: what a command needs to begin.
* `advance`: what an answer does to a command.
* `step`: the machine.
-/

namespace Ezpds.Wallet.Outbound

open Library
open BlobDrain (BlobLoss AccountStatus importReconcilesWithLoss)

/-! ## State -/

inductive MigrationPhase where
  | resolved
  | sourceAuthed
  | destCreated
  | repoTransferred
  | blobsTransferred
  | preferencesTransferred
  | verified
  | identityArmed
  | finalized
  deriving DecidableEq

namespace MigrationPhase

def rank : MigrationPhase → Nat
  | resolved => 0
  | sourceAuthed => 1
  | destCreated => 2
  | repoTransferred => 3
  | blobsTransferred => 4
  | preferencesTransferred => 5
  | verified => 6
  | identityArmed => 7
  | finalized => 8

instance : LE MigrationPhase := ⟨fun a b => a.rank ≤ b.rank⟩

instance (a b : MigrationPhase) : Decidable (a ≤ b) := inferInstanceAs (Decidable (a.rank ≤ b.rank))

/-- `Debug`. -/
def debug : MigrationPhase → String
  | resolved => "Resolved"
  | sourceAuthed => "SourceAuthed"
  | destCreated => "DestCreated"
  | repoTransferred => "RepoTransferred"
  | blobsTransferred => "BlobsTransferred"
  | preferencesTransferred => "PreferencesTransferred"
  | verified => "Verified"
  | identityArmed => "IdentityArmed"
  | finalized => "Finalized"

def later (a b : MigrationPhase) : MigrationPhase :=
  if a ≤ b then b else a

end MigrationPhase

/-- The claims of a token that are read. -/
structure Claims where
  sub : String
  aud : String
  exp : Nat
  deriving DecidableEq

/-- A session of an account at a server. -/
structure Client where
  host : String
  did : String
  /-- `none` is a token that is not a readable JWT. -/
  access : Option Claims
  refresh : Option Claims
  deriving DecidableEq

structure OutboundMigrationState where
  did : String
  sourcePdsUrl : String
  destPdsUrl : String
  destDid : String
  sourceClient : Option Client
  destClient : Option Client
  phase : MigrationPhase
  acceptedBlobLoss : List BlobLoss
  recovery : Bool
  deriving DecidableEq

/-- The pending change of the identity. -/
structure MigrationState where
  did : String
  destOauthClient : Client
  /-- That of the signed operation, if one is built. -/
  opCid : Option String
  deriving DecidableEq

/-- The full-access session that is kept for an identity. -/
structure SovereignTokenRecord where
  access : Option Claims
  refresh : Option Claims
  pdsUrl : String
  serverDid : String
  accessExpiresAt : Option Nat
  refreshExpiresAt : Option Nat
  storedAt : Nat
  deriving DecidableEq

inductive DestinationCredential where
  | sovereign
  | bearer
  deriving DecidableEq

structure ServerCapabilities where
  reached : Bool
  sovereignSessions : Bool
  deriving DecidableEq

def destinationCredential (did : String) (destination : ServerCapabilities) :
    DestinationCredential :=
  if did.startsWith "did:web:" then .bearer
  else if destination.reached && !destination.sovereignSessions then .bearer
  else .sovereign

/-- What has happened at the servers, at the directory and in the key store. -/
inductive Event where
  | accountCreated (host did : String)
  | repoImported (host did : String)
  | blobsDrained (host did : String)
  | preferencesPut (host did : String)
  | importVerified (host did : String)
  | legArmed (host did : String)
  | identityMoved (did : String)
  | activated (host did : String)
  | credentialKept (did : String)
  | deactivated (host did : String)
  deriving DecidableEq

/-! ## Commands -/

/-- What a command records with its phase. -/
inductive Write where
  | nothing
  | sourceClient (client : Client)
  | destClient (client : Client)
  | acceptedBlobLoss (losses : List BlobLoss)
  deriving DecidableEq

/-- A phase that is to be recorded. Those of a recovery never go back. -/
structure Save where
  did : String
  phase : MigrationPhase
  write : Write
  ofRecovery : Bool
  /-- A login also looks at the server that it was for. -/
  sourcePdsUrl : Option String
  deriving DecidableEq

inductive Cutover where
  | checkLeg
  | activate
  | ensureSession
  | deactivate
  deriving DecidableEq

/-- What `finalize_migration_core` has taken under its lock. -/
structure Finalize where
  did : String
  destClient : Client
  /-- A recovery has no source. -/
  sourceClient : Option Client
  credential : DestinationCredential
  /-- The client, the server and its DID that were looked up before. -/
  snapshot : Option Client × String × String
  now : Int
  stage : Cutover
  deriving DecidableEq

/-- A command that waits for an answer or for a lock. -/
inductive Flight where
  | loggingIn (did sourcePdsUrl : String)
  | awaitingKey (did : String)
  | creating (did destPdsUrl : String) (existing : Option Client) (ofRecovery : Bool)
  | importing (did : String) (dest : Client) (ofRecovery : Bool)
  | draining (did : String) (dest : Client) (acceptLoss : Bool)
  | copyingPreferences (did : String) (dest : Client)
  | verifying (did : String) (dest : Client) (acceptedLoss : Nat)
  | arming (did : String) (dest : Client)
  | building (did : String) (dest : Client)
  | parking (did opCid : String)
  | submitting (did opCid : String)
  | clearing (did opCid : String)
  | publishing (did : String) (dest : Client)
  | discarding (did : String)
  | probing (did : String) (snapshot : Option Client × String × String) (now : Int)
  | finalizing (f : Finalize)
  | saving (save : Save)
  deriving DecidableEq

inductive Command where
  | authenticateMigrationSource (did : String)
  | awaitRecoveryKeyVisibility (did : String)
  | createDestinationAccount (did : String)
  | createRecoveryDestinationAccount (did : String)
  | transferRepo (did : String)
  | recoveryTransferRepo (did : String)
  | transferBlobs (did : String) (acceptLoss : Bool)
  | transferPreferences (did : String)
  | verifyImport (did : String)
  | armIdentityLeg (did : String)
  | buildMigrationOp (did : String)
  | submitMigrationOp (did : String)
  | submitDidWebMigrationDocument (did : String)
  | finalizeMigration (did : String) (now : Int)
  deriving DecidableEq

inductive MigrationError where
  | migrationNotReady (message : String)
  | sourceAuthFailed (message : String)
  | accountCreationFailed (message : String)
  | destinationConflict (message : String)
  | sessionPersistFailed (message : String)
  | sovereignLoginFailed (message : String)
  | verificationIncomplete (imported expected : Nat)
  | identityNotFound (message : String)
  /-- A request that failed. -/
  | failed
  deriving DecidableEq

structure World where
  orchestration : Option OutboundMigrationState
  leg : Option MigrationState
  tokens : SortedMap String SovereignTokenRecord
  flights : List Flight
  /-- What happened before the migration was prepared. -/
  past : List Event
  /-- What has happened since. -/
  log : List Event
  deriving DecidableEq

def World.happened (w : World) (events : List Event) : World :=
  { w with log := w.log ++ events }

def World.start (tokens : SortedMap String SovereignTokenRecord) : World :=
  ⟨none, none, tokens, [], [], []⟩

/-! ## The gates -/

def ensurePhaseDid (state : Option OutboundMigrationState) (did : String)
    (required : MigrationPhase) : Except MigrationError OutboundMigrationState :=
  match state with
  | none => .error (.migrationNotReady "no migration in progress")
  | some s => do
    check (s.did = did) (.migrationNotReady "did does not match active migration")
    check (required ≤ s.phase) (.migrationNotReady
      ("expected phase >= " ++ required.debug ++ ", found " ++ s.phase.debug))
    return s

def destClientOf (s : OutboundMigrationState) : Except MigrationError Client :=
  okOr (.accountCreationFailed "destination client not authenticated") s.destClient

def sourceClientOf (s : OutboundMigrationState) : Except MigrationError Client :=
  okOr (.sourceAuthFailed "source client not authenticated") s.sourceClient

/-- A recovery has no source to deactivate. -/
def cutoverSource (s : OutboundMigrationState) : Except MigrationError (Option Client) :=
  if s.recovery then .ok none else (sourceClientOf s).map some

/-- The commands of a recovery refuse a migration. -/
def ensureRecovery (s : OutboundMigrationState) : Except MigrationError Unit :=
  check s.recovery
    (.migrationNotReady "active session is a migration, not a disaster recovery")

/-- The gate of the identity leg. -/
def ensureLeg (leg : Option MigrationState) (did : String) (absent : MigrationError)
    (mismatch : String → MigrationError) : Except MigrationError MigrationState := do
  let ms ← okOr absent leg
  check (ms.did = did) (mismatch ms.did)
  return ms

def didMismatch (did expected : String) : MigrationError :=
  .migrationNotReady ("migration state DID mismatch: expected " ++ expected ++ ", got " ++ did)

def gate (w : World) : Command → Except MigrationError Flight
  | .authenticateMigrationSource did => do
    let s ← ensurePhaseDid w.orchestration did .resolved
    return .loggingIn did s.sourcePdsUrl
  | .awaitRecoveryKeyVisibility did => .ok (.awaitingKey did)
  | .createDestinationAccount did => do
    let s ← ensurePhaseDid w.orchestration did .sourceAuthed
    let _ ← sourceClientOf s
    return .creating did s.destPdsUrl s.destClient false
  | .createRecoveryDestinationAccount did => do
    let s ← ensurePhaseDid w.orchestration did .sourceAuthed
    ensureRecovery s
    return .creating did s.destPdsUrl s.destClient true
  | .transferRepo did => do
    let s ← ensurePhaseDid w.orchestration did .destCreated
    return .importing did (← destClientOf s) false
  | .recoveryTransferRepo did => do
    let s ← ensurePhaseDid w.orchestration did .destCreated
    ensureRecovery s
    return .importing did (← destClientOf s) true
  | .transferBlobs did acceptLoss => do
    let s ← ensurePhaseDid w.orchestration did .repoTransferred
    return .draining did (← destClientOf s) acceptLoss
  | .transferPreferences did => do
    let s ← ensurePhaseDid w.orchestration did .blobsTransferred
    if s.recovery then
      return .saving ⟨did, .preferencesTransferred, .nothing, false, none⟩
    else
      let _ ← sourceClientOf s
      return .copyingPreferences did (← destClientOf s)
  | .verifyImport did => do
    let s ← ensurePhaseDid w.orchestration did .preferencesTransferred
    return .verifying did (← destClientOf s) s.acceptedBlobLoss.length
  | .armIdentityLeg did => do
    let s ← ensurePhaseDid w.orchestration did .verified
    return .arming did (← destClientOf s)
  | .buildMigrationOp did => do
    let ms ← ensureLeg w.leg did (.migrationNotReady
      "no pending migration; destination authentication must run first") (didMismatch did)
    return .building did ms.destOauthClient
  | .submitMigrationOp did => do
    let ms ← ensureLeg w.leg did (.migrationNotReady "no pending migration to submit")
      (didMismatch did)
    return .submitting did
      (← okOr (.migrationNotReady "no signed op; build the migration operation first") ms.opCid)
  | .submitDidWebMigrationDocument did => do
    let ms ← ensureLeg w.leg did (.identityNotFound "no identity leg is armed")
      fun _ => .identityNotFound "DID mismatch"
    return .publishing did ms.destOauthClient
  | .finalizeMigration did now =>
    .ok (.probing did (match w.orchestration with
      | some s => (s.destClient, s.destPdsUrl, s.destDid)
      | none => (none, "", "")) now)

/-- `finalize_migration_core`, up to its first request. -/
def gateFinalize (w : World) (did : String) (snapshot : Option Client × String × String) (now : Int)
    (capabilities : ServerCapabilities) : Except MigrationError Flight := do
  let s ← ensurePhaseDid w.orchestration did .identityArmed
  let destClient ← destClientOf s
  let sourceClient ← cutoverSource s
  return .finalizing ⟨did, destClient, sourceClient, destinationCredential did capabilities,
    snapshot, now, .checkLeg⟩

/-! ## The credential of the destination -/

def trimSlashes (url : String) : String :=
  String.ofList (url.toList.reverse.dropWhile (· = '/')).reverse

def audienceMatchesServer (audience serverDid pdsUrl : String) : Bool :=
  audience = serverDid || trimSlashes audience = trimSlashes pdsUrl

/-- `as i64`. -/
def asI64 (n : Nat) : Int :=
  if n < 2 ^ 63 then n else n - 2 ^ 64

/-- The refresh token of the record has not expired. -/
def alreadyKept (tokens : SortedMap String SovereignTokenRecord) (did : String) (now : Int) :
    Bool :=
  (tokens.get? did).any fun record => record.refreshExpiresAt.any fun exp => now < asI64 exp

def bearerRecord (did : String) (client : Client) (pdsUrl serverDid : String) (now : Int) :
    Except MigrationError SovereignTokenRecord := do
  let access ← okOr (.sessionPersistFailed "destination access token is not a readable JWT")
    client.access
  let refresh ← okOr (.sessionPersistFailed "destination refresh token is not a readable JWT")
    client.refresh
  for claims in [access, refresh] do
    check (claims.sub = did)
      (.sessionPersistFailed "destination session subject does not match the migrated DID")
    check (audienceMatchesServer claims.aud serverDid pdsUrl)
      (.sessionPersistFailed "destination session audience does not match the destination PDS")
  check (0 ≤ now) (.sessionPersistFailed "system clock is before the Unix epoch")
  return ⟨access, refresh, trimSlashes pdsUrl, serverDid, some access.exp, some refresh.exp,
    now.toNat⟩

/-- The session that is to be kept. `minted` is what a device-signed login comes to. -/
def sessionRecord (f : Finalize) (minted : Except MigrationError SovereignTokenRecord) :
    Except MigrationError SovereignTokenRecord :=
  match f.credential with
  | .sovereign => minted
  | .bearer => do
    let client ← okOr (.accountCreationFailed "destination client not authenticated") f.snapshot.1
    bearerRecord f.did client f.snapshot.2.1 f.snapshot.2.2 f.now

/-- `ensure_sovereign_session_persisted` and `ensure_bearer_session_persisted`: a session that can
still be refreshed is left as it is. `stores` is whether the key store takes the record. -/
def ensureSession (tokens : SortedMap String SovereignTokenRecord) (f : Finalize)
    (minted : Except MigrationError SovereignTokenRecord) (stores : Bool) :
    Except MigrationError (SortedMap String SovereignTokenRecord) :=
  if alreadyKept tokens f.did f.now then .ok tokens
  else do
    let record ← sessionRecord f minted
    check stores (.sessionPersistFailed "keychain")
    return tokens.set f.did (some record)

/-! ## Answers -/

inductive Answer where
  /-- The request fails, after its effect or without it. -/
  | failed (effect : Bool)
  | done
  /-- The tokens of a session. -/
  | session (access refresh : Option Claims)
  | alreadyExists
  | drained (losses : List BlobLoss)
  | status (status : AccountStatus)
  | built (opCid : String)
  | capabilities (capabilities : ServerCapabilities)
  | minted (record : Except MigrationError SovereignTokenRecord) (stores : Bool)
  deriving DecidableEq

/-- What the request of a command does where it arrives. -/
def Flight.effect : Flight → List Event
  | .creating did destPdsUrl _ _ => [.accountCreated destPdsUrl did]
  | .importing _ dest _ => [.repoImported dest.host dest.did]
  | .copyingPreferences _ dest => [.preferencesPut dest.host dest.did]
  | .submitting did _ | .publishing did _ => [.identityMoved did]
  | .finalizing f =>
    match f.stage with
    | .activate => [.activated f.destClient.host f.destClient.did]
    | .deactivate => f.sourceClient.toList.map fun c => .deactivated c.host c.did
    | .checkLeg | .ensureSession => []
  | _ => []

/-- A lock is only waited for. -/
def Flight.mayFail : Flight → Bool
  | .saving _ | .arming _ _ | .parking _ _ | .clearing _ _ | .probing _ _ _ => false
  | .finalizing f => f.stage ≠ .checkLeg
  | _ => true

def saveOf (did : String) (phase : MigrationPhase) (write : Write) : Flight :=
  .saving ⟨did, phase, write, false, none⟩

/-- `MigrationJournal::commit`, and the way in which a login and a recovery write the slot. -/
def recordPhase (state : Option OutboundMigrationState) (save : Save) :
    Except MigrationError OutboundMigrationState := do
  let s ← okOr (.migrationNotReady "orchestration state lost") state
  check (s.did = save.did ∧ (save.ofRecovery → s.recovery) ∧
      ∀ url ∈ save.sourcePdsUrl, s.sourcePdsUrl = url)
    (.migrationNotReady "did mismatch with orchestration state")
  let s := { s with phase := if save.ofRecovery then s.phase.later save.phase else save.phase }
  return match save.write with
    | .nothing => s
    | .sourceClient client => { s with sourceClient := some client }
    | .destClient client => { s with destClient := some client }
    | .acceptedBlobLoss losses => { s with acceptedBlobLoss := losses }

/-- The world and the command after an answer; a command that has ended or failed is `none`. -/
def advance (w : World) (flight : Flight) (answer : Answer) : Option (World × Option Flight) :=
  match flight, answer with
  | .loggingIn did sourcePdsUrl, .session access refresh =>
    some (w, some (.saving ⟨did, .sourceAuthed, .sourceClient ⟨sourcePdsUrl, did, access, refresh⟩,
      false, some sourcePdsUrl⟩))
  | .awaitingKey did, .done =>
    some (w, some (.saving ⟨did, .sourceAuthed, .nothing, true, none⟩))
  | .creating did _ (some client) ofRecovery, .done =>
    some (w, some (.saving ⟨did, .destCreated, .destClient client, ofRecovery, none⟩))
  | .creating did destPdsUrl none ofRecovery, .session access refresh =>
    some (w.happened flight.effect, some (.saving ⟨did, .destCreated,
      .destClient ⟨destPdsUrl, did, access, refresh⟩, ofRecovery, none⟩))
  | .creating _ _ none _, .alreadyExists => some (w, none)
  | .importing did _ ofRecovery, .done =>
    some (w.happened flight.effect,
      some (.saving ⟨did, .repoTransferred, .nothing, ofRecovery, none⟩))
  | .draining did dest acceptLoss, .drained losses =>
    if losses ≠ [] ∧ ¬acceptLoss then some (w, none)
    else
      some (w.happened [.blobsDrained dest.host dest.did],
        some (saveOf did .blobsTransferred (.acceptedBlobLoss losses)))
  | .copyingPreferences did _, .done =>
    some (w.happened flight.effect, some (saveOf did .preferencesTransferred .nothing))
  | .verifying did dest acceptedLoss, .status status =>
    if importReconcilesWithLoss status acceptedLoss then
      some (w.happened [.importVerified dest.host dest.did], some (saveOf did .verified .nothing))
    else some (w, none)
  | .arming did dest, .done =>
    some ({ w.happened [.legArmed dest.host dest.did] with leg := some ⟨did, dest, none⟩ },
      some (saveOf did .identityArmed .nothing))
  | .building did _, .built opCid => some (w, some (.parking did opCid))
  | .parking did opCid, .done =>
    some ({ w with
      leg := w.leg.map fun ms => if ms.did = did then { ms with opCid := some opCid } else ms },
      none)
  | .submitting did opCid, .done => some (w.happened flight.effect, some (.clearing did opCid))
  | .clearing did opCid, .done =>
    some ({ w with leg := w.leg.filter fun ms => ¬(ms.did = did ∧ ms.opCid = some opCid) }, none)
  | .publishing did _, .done => some (w.happened flight.effect, some (.discarding did))
  | .discarding _, .done => some ({ w with leg := none }, none)
  | .probing did snapshot now, .capabilities capabilities =>
    some (w, (gateFinalize w did snapshot now capabilities).toOption)
  | .finalizing f, .done =>
    match f.stage with
    | .checkLeg =>
      some (w, if w.leg.isSome then none else some (.finalizing { f with stage := .activate }))
    | .activate =>
      some (w.happened flight.effect, some (.finalizing { f with stage := .ensureSession }))
    | .ensureSession => none
    | .deactivate => some (w.happened flight.effect, some (saveOf f.did .finalized .nothing))
  | .finalizing f, .minted record stores =>
    if f.stage = .ensureSession then
      match ensureSession w.tokens f record stores with
      | .ok tokens =>
        some ({ w.happened [.credentialKept f.did] with tokens := tokens },
          some (.finalizing { f with stage := .deactivate }))
      | .error _ => some (w, none)
    else none
  | .saving save, .done =>
    match recordPhase w.orchestration save with
    | .ok s => some ({ w with orchestration := some s }, none)
    | .error _ => some (w, none)
  | flight, .failed effect =>
    if flight.mayFail then some (if effect then w.happened flight.effect else w, none) else none
  | _, _ => none

/-! ## The machine -/

inductive Label where
  /-- `prepare_migration` and `prepare_disaster_recovery`, of what they have found. -/
  | prepare (did sourcePdsUrl destPdsUrl destDid : String) (recovery : Bool)
  | begin (command : Command)
  | answer (i : Nat) (answer : Answer)
  /-- The process is gone, and with it all that is in memory. -/
  | restart
  deriving DecidableEq

/-- A command that may not begin leaves everything as it is. -/
def step (w : World) : Label → Option World
  | .prepare did sourcePdsUrl destPdsUrl destDid recovery =>
    some { w with
      orchestration := some ⟨did, sourcePdsUrl, destPdsUrl, destDid, none, none, .resolved, [],
        recovery⟩
      past := w.past ++ w.log, log := [] }
  | .begin command =>
    match gate w command with
    | .ok flight => some { w with flights := w.flights ++ [flight] }
    | .error _ => some w
  | .answer i answer =>
    (w.flights[i]?).bind fun flight =>
      (advance w flight answer).map fun next =>
        { next.1 with flights := w.flights.eraseIdx i ++ next.2.toList }
  | .restart => some { w with orchestration := none, leg := none, flights := [] }

end Ezpds.Wallet.Outbound
