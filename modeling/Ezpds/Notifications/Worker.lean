import Ezpds.Library.KeyedRows
import Ezpds.Library.Run

/-!
# Push registrations, the relay and the worker between them

A device registers an APNs token; the relay mints a handle for the token, and the handle is
what pushes go to. Requests write the registrations and put jobs on a queue; one worker takes
the jobs in order, calls the relay for each and writes back what it answers.

Every statement of the database and every answer of the relay is a step of `Machine.step`. A
request is kept between its statement and the jobs that it still has to put on the queue. The
relay answers every call; its handles are those of this instance, and the handle that it mints
is one that it has never minted before. The registrations of the admin devices are a table of
their own with tokens of their own, and are left out, and so is what a push carries.
-/

namespace Ezpds.Notifications

open Library

/-- The key of an account's registration. -/
structure RegistrationOwner where
  did : String
  deviceUuid : String
  deriving DecidableEq, Repr

structure RegistrationRow where
  owner : RegistrationOwner
  apnsToken : String
  apnsTopic : String
  pushHandle : Option String
  deriving DecidableEq, Repr

/-- A handle of the relay. -/
structure HandleRow where
  handle : String
  apnsToken : String
  apnsTopic : String
  deriving DecidableEq, Repr

inductive NotifyJob where
  | registerHandle (owner : RegistrationOwner) (apnsToken apnsTopic : String)
  | dropHandle (handle : String)
  | push (owner : RegistrationOwner) (handle : String)
  deriving DecidableEq, Repr

inductive PushOutcome where
  | delivered
  | unregistered
  | throttled
  | tooLarge
  | notEnrolled
  | unknownHandle
  | apnsError
  deriving DecidableEq, Repr

/-! ## Statements -/

/-- The row is replaced, and its handle with it. -/
def upsertRegistration (owner : RegistrationOwner) (apnsToken apnsTopic : String)
    (rows : List RegistrationRow) : List RegistrationRow :=
  deleteWhere (fun row => row.owner = owner) rows ++ [⟨owner, apnsToken, apnsTopic, none⟩]

def listRegistrations (did : String) (rows : List RegistrationRow) : List RegistrationRow :=
  rows.filter fun row => row.owner.did = did

/-- The second half is the number of rows stamped. -/
def setRegistrationHandlesForToken (apnsToken pushHandle : String)
    (rows : List RegistrationRow) : List RegistrationRow × Nat :=
  (updateWhere (fun row => row.apnsToken = apnsToken)
      (fun row => { row with pushHandle := some pushHandle }) rows,
    rows.countP fun row => row.apnsToken = apnsToken)

def deleteRegistration (owner : RegistrationOwner) (rows : List RegistrationRow) :
    List RegistrationRow :=
  deleteWhere (fun row => row.owner = owner) rows

/-- What a purge deletes of an account. -/
def deleteRegistrations (did : String) (rows : List RegistrationRow) : List RegistrationRow :=
  deleteWhere (fun row => row.owner.did = did) rows

/-- The relay's `register_handle`: the handle rotates. -/
def registerHandle (apnsToken apnsTopic handle : String) (handles : List HandleRow) :
    List HandleRow :=
  deleteWhere (fun row => row.apnsToken = apnsToken) handles ++ [⟨handle, apnsToken, apnsTopic⟩]

def resolveHandle (handle : String) (handles : List HandleRow) : Option HandleRow :=
  handles.find? fun row => row.handle = handle

def dropHandle (handle : String) (handles : List HandleRow) : List HandleRow :=
  deleteWhere (fun row => row.handle = handle) handles

/-! ## The machine -/

/-- What the worker still has to do for the job that it has taken: stamp the handle just minted,
give it back, or prune the registration whose token the relay has reported dead. -/
inductive Working where
  | idle
  | stamping (apnsToken handle : String)
  | reclaiming (handle : String)
  | pruning (owner : RegistrationOwner) (apnsToken : String)
  deriving DecidableEq, Repr

/-- A request in flight. -/
inductive Request where
  | sending (job : NotifyJob)
  | unregistering (owner : RegistrationOwner) (handle : Option String)
  | purging (did : String) (handles : List String)
  deriving DecidableEq, Repr

/-- The relay has reported a token dead; a row was pruned after such a report. -/
inductive Event where
  | dead (apnsToken : String)
  | pruned (row : RegistrationRow) (apnsToken : String)
  deriving DecidableEq, Repr

structure State where
  registrations : List RegistrationRow
  /-- The handles that the relay holds. -/
  handles : List HandleRow
  minted : List String
  queue : List NotifyJob
  worker : Working
  requests : List Request
  /-- Newest first. -/
  log : List Event

def State.start : State := ⟨[], [], [], [], .idle, [], []⟩

inductive Action where
  | upsert (owner : RegistrationOwner) (apnsToken apnsTopic : String)
  | readForUnregister (owner : RegistrationOwner)
  | unregister (owner : RegistrationOwner) (handle : Option String)
  | readForPurge (did : String)
  | purge (did : String) (handles : List String)
  | fanOut (did : String)
  | send (job : NotifyJob)
  | skip (owner : RegistrationOwner) (handle : String)
  | registerHandle (owner : RegistrationOwner) (apnsToken apnsTopic handle : String)
  | stamp (apnsToken handle : String)
  | reclaim (handle : String)
  | dropHandle (handle : String)
  | push (owner : RegistrationOwner) (handle : String) (outcome : PushOutcome)
  | prune (owner : RegistrationOwner) (apnsToken : String)
  deriving DecidableEq, Repr

/-- The pushes of `fan_out`: a registration without a handle gets none. -/
def pushesTo (rows : List RegistrationRow) : List Request :=
  rows.filterMap fun row => row.pushHandle.map fun handle => .sending (.push row.owner handle)

/-- The worker's next job. -/
def State.Next (s : State) (job : NotifyJob) : Prop :=
  s.worker = .idle ∧ s.queue.head? = some job

instance (s : State) (job : NotifyJob) : Decidable (s.Next job) :=
  inferInstanceAs (Decidable (_ ∧ _))

namespace Machine

def step (s : State) : Action → Option State
  | .upsert owner apnsToken apnsTopic => some { s with
      registrations := upsertRegistration owner apnsToken apnsTopic s.registrations
      requests := .sending (.registerHandle owner apnsToken apnsTopic) :: s.requests }
  | .readForUnregister owner =>
    let row := (listRegistrations owner.did s.registrations).find? fun row => row.owner = owner
    some { s with
      requests := .unregistering owner (row.bind RegistrationRow.pushHandle) :: s.requests }
  | .unregister owner handle =>
    if .unregistering owner handle ∈ s.requests then
      some { s with
        registrations := deleteRegistration owner s.registrations
        requests := (handle.map fun handle => Request.sending (.dropHandle handle)).toList ++
          s.requests.erase (.unregistering owner handle) }
    else none
  | .readForPurge did => some { s with
      requests := .purging did
        ((listRegistrations did s.registrations).filterMap RegistrationRow.pushHandle) ::
          s.requests }
  | .purge did handles =>
    if .purging did handles ∈ s.requests then
      some { s with
        registrations := deleteRegistrations did s.registrations
        requests := (handles.map fun handle => .sending (.dropHandle handle)) ++
          s.requests.erase (.purging did handles) }
    else none
  | .fanOut did => some { s with
      requests := pushesTo (listRegistrations did s.registrations) ++ s.requests }
  | .send job =>
    if .sending job ∈ s.requests then
      some { s with
        queue := s.queue ++ [job]
        requests := s.requests.erase (.sending job) }
    else none
  | .skip owner handle =>
    -- there is no key to seal with, or the payload does not fit
    if .sending (.push owner handle) ∈ s.requests then
      some { s with requests := s.requests.erase (.sending (.push owner handle)) }
    else none
  | .registerHandle owner apnsToken apnsTopic handle =>
    if s.Next (.registerHandle owner apnsToken apnsTopic) ∧ handle ∉ s.minted then
      some { s with
        handles := registerHandle apnsToken apnsTopic handle s.handles
        minted := handle :: s.minted
        queue := s.queue.tail
        worker := .stamping apnsToken handle }
    else none
  | .stamp apnsToken handle =>
    if s.worker = .stamping apnsToken handle then
      let (registrations, stamped) :=
        setRegistrationHandlesForToken apnsToken handle s.registrations
      some { s with
        registrations := registrations
        worker := if stamped = 0 then .reclaiming handle else .idle }
    else none
  | .reclaim handle =>
    if s.worker = .reclaiming handle then
      some { s with handles := dropHandle handle s.handles, worker := .idle }
    else none
  | .dropHandle handle =>
    if s.Next (.dropHandle handle) then
      some { s with handles := dropHandle handle s.handles, queue := s.queue.tail }
    else none
  | .push owner handle outcome =>
    if s.Next (.push owner handle) then
      match resolveHandle handle s.handles with
      -- `unknownHandle`, which is no reason to prune
      | none => some { s with queue := s.queue.tail }
      | some target =>
        if outcome = .unregistered then
          some { s with
            queue := s.queue.tail
            worker := .pruning owner target.apnsToken
            log := .dead target.apnsToken :: s.log }
        else some { s with queue := s.queue.tail }
    else none
  | .prune owner apnsToken =>
    if s.worker = .pruning owner apnsToken then
      let pruned := s.registrations.filter fun row => row.owner = owner
      some { s with
        registrations := deleteRegistration owner s.registrations
        worker := .idle
        log := (pruned.map fun row => .pruned row apnsToken) ++ s.log }
    else none

end Machine

end Ezpds.Notifications
