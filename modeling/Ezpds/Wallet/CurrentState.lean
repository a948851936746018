import Ezpds.Wallet.PlcMonitor

/-!
# The current state of an identity

The newest operation of an audit log that the directory has not nullified encodes the state of
the identity. The builders of the wallet sign that state again with one change, and so they read
it strictly: a field that is missing or malformed is an error, never an empty value.

* `latestFullState_iff`: what is read is what the newest operation says.
-/

namespace Ezpds.Wallet

open Library Crypto

/-! ## Fields of an operation -/

/-- `Value::get`. -/
def member (j : Json) (field : String) : Option Json :=
  match j with
  | .object members => members.lookup field
  | _ => none

def arrayOf : Json → Option (List Json)
  | .array items => some items
  | _ => none

def objectOf : Json → Option (List (String × Json))
  | .object members => some members
  | _ => none

/-- `ok_or_else`. -/
def orError {ε α : Type} (error : ε) (found : Option α) : Except ε α :=
  match found with
  | some a => .ok a
  | none => .error error

theorem orError_ok {ε α : Type} {error : ε} {found : Option α} {a : α} :
    orError error found = .ok a ↔ found = some a := by
  cases found <;> simp [orError]

def stringArrayField (op : Json) (field : String) : Except String (List String) := do
  let items ← orError ("operation." ++ field ++ " is missing or not an array")
    (member op field >>= arrayOf)
  items.zipIdx.mapM fun (value, idx) =>
    orError ("operation." ++ field ++ "[" ++ toString idx ++ "] is not a string") (textOf value)

/-- The members of an object, collected into an ordered map. -/
def collectFields {V : Type} (read : String → Json → Except String V)
    (members : List (String × Json)) : Except String (StringMap V) := do
  let entries ← members.mapM fun (name, value) => do
    let v ← read name value
    return (name, v)
  return collectMap entries

def stringMapField (op : Json) (field : String) : Except String (StringMap String) := do
  let members ← orError ("operation." ++ field ++ " is missing or not an object")
    (member op field >>= objectOf)
  collectFields (fun name value =>
    orError ("operation." ++ field ++ "." ++ name ++ " is not a string") (textOf value)) members

def serviceField (id : String) (svc : Json) : Except String PlcService := do
  let serviceType ← orError ("operation.services." ++ id ++ " is missing a string 'type'")
    (member svc "type" >>= textOf)
  let endpoint ← orError ("operation.services." ++ id ++ " is missing a string 'endpoint'")
    (member svc "endpoint" >>= textOf)
  return { serviceType, endpoint }

def servicesField (op : Json) : Except String (StringMap PlcService) := do
  let members ← orError "operation.services is missing or not an object"
    (member op "services" >>= objectOf)
  collectFields serviceField members

/-! ## The newest operation -/

structure CurrentHandleState where
  prevCid : String
  rotationKeys : List String
  verificationMethods : StringMap String
  alsoKnownAs : List String
  services : StringMap PlcService

/-- The newest entry that is not nullified. -/
def latestEntry (auditLog : List AuditEntry) : Option AuditEntry :=
  auditLog.reverse.find? fun entry => !entry.nullified

def latestFullState (auditLog : List AuditEntry) : Except String CurrentHandleState := do
  let latest ← orError "audit log is empty or fully nullified" (latestEntry auditLog)
  let rotationKeys ← stringArrayField latest.operation "rotationKeys"
  check (!rotationKeys.isEmpty) "operation.rotationKeys is empty"
  let alsoKnownAs ← stringArrayField latest.operation "alsoKnownAs"
  let verificationMethods ← stringMapField latest.operation "verificationMethods"
  let services ← servicesField latest.operation
  return { prevCid := latest.cid, rotationKeys, verificationMethods, alsoKnownAs, services }

/-! ## What an operation says -/

/-- An object and the ordered map of its members, read one by one. -/
def ReadsMap {V : Type} (Reads : Json → V → Prop) (j : Json) (m : StringMap V) : Prop :=
  ∃ members entries, j = .object members ∧ List.Forall₂ (EntryRel Reads) members entries ∧
    collectMap entries = m

def ReadsService (j : Json) (s : PlcService) : Prop :=
  member j "type" = some (.string s.serviceType) ∧ member j "endpoint" = some (.string s.endpoint)

/-- The operation encodes the state. -/
structure States (operation : Json) (state : CurrentHandleState) : Prop where
  rotationKeys : member operation "rotationKeys" = some (jsonTexts state.rotationKeys)
  alsoKnownAs : member operation "alsoKnownAs" = some (jsonTexts state.alsoKnownAs)
  verificationMethods : ∃ methods, member operation "verificationMethods" = some methods ∧
    ReadsMap (fun j key => j = .string key) methods state.verificationMethods
  services : ∃ services, member operation "services" = some services ∧
    ReadsMap ReadsService services state.services

theorem textOf_eq_some {j : Json} {s : String} : textOf j = some s ↔ j = .string s := by
  cases j <;> simp [textOf]

theorem bind_textOf {found : Option Json} {s : String} :
    (found >>= textOf) = some s ↔ found = some (.string s) := by
  cases found with
  | none => simp
  | some j => simp [textOf_eq_some]

theorem bind_arrayOf {found : Option Json} {items : List Json} :
    (found >>= arrayOf) = some items ↔ found = some (.array items) := by
  rcases found with _ | j
  · simp
  · cases j <;> simp [arrayOf]

theorem bind_objectOf {found : Option Json} {members : List (String × Json)} :
    (found >>= objectOf) = some members ↔ found = some (.object members) := by
  rcases found with _ | j
  · simp
  · cases j <;> simp [objectOf]

/-- The elements are numbered for the errors only. -/
theorem zipIdx_mapM_ok {read : Json × Nat → Except String String}
    (hRead : ∀ j i s, read (j, i) = .ok s ↔ j = .string s) {items : List Json} {n : Nat}
    {texts : List String} :
    (items.zipIdx n).mapM read = .ok texts ↔ items = texts.map .string := by
  rw [mapM_ok]
  induction items generalizing n texts with
  | nil =>
    rw [List.zipIdx_nil, List.forall₂_nil_left_iff, @eq_comm _ [], List.map_eq_nil_iff]
  | cons j items ih =>
    cases texts with
    | nil => simp
    | cons s texts => rw [List.zipIdx_cons, List.forall₂_cons, hRead, ih, List.map_cons,
        List.cons.injEq]

theorem stringArrayField_ok {op : Json} {field : String} {texts : List String} :
    stringArrayField op field = .ok texts ↔ member op field = some (jsonTexts texts) := by
  have hItems : ∀ items : List Json, (items.zipIdx.mapM fun (value, idx) =>
      orError ("operation." ++ field ++ "[" ++ toString idx ++ "] is not a string")
        (textOf value)) = .ok texts ↔ items = texts.map .string :=
    fun _ => zipIdx_mapM_ok fun _ _ _ => orError_ok.trans textOf_eq_some
  rw [stringArrayField, bind_ok]
  constructor
  · rintro ⟨items, hFound, hTexts⟩
    rw [bind_arrayOf.mp (orError_ok.mp hFound), (hItems items).mp hTexts, jsonTexts]
  · intro h
    exact ⟨texts.map .string, orError_ok.mpr (bind_arrayOf.mpr h), (hItems _).mpr rfl⟩

section Maps

variable {V : Type} {read : String → Json → Except String V} {Reads : Json → V → Prop}

theorem collectFields_ok (hRead : ∀ name j v, read name j = .ok v ↔ Reads j v)
    {members : List (String × Json)} {m : StringMap V} :
    collectFields read members = .ok m ↔ ReadsMap Reads (.object members) m := by
  have hMember : ∀ (e : String × Json) (e' : String × V),
      (do let v ← read e.1 e.2; return (e.1, v)) = Except.ok e' ↔ EntryRel Reads e e' := by
    rintro ⟨name, j⟩ ⟨name', v⟩
    rw [bind_ok]
    constructor
    · rintro ⟨v', hv, hEntry⟩
      cases hEntry
      exact ⟨rfl, (hRead _ _ _).mp hv⟩
    · rintro ⟨rfl, hv⟩
      exact ⟨v, (hRead _ _ _).mpr hv, rfl⟩
  rw [collectFields, bind_ok]
  constructor
  · rintro ⟨entries, hEntries, hMap⟩
    cases hMap
    exact ⟨members, entries, rfl, (mapM_ok.mp hEntries).imp fun e e' => (hMember e e').mp, rfl⟩
  · rintro ⟨_, entries, ⟨⟩, hEntries, rfl⟩
    exact ⟨entries, mapM_ok.mpr (hEntries.imp fun e e' => (hMember e e').mpr), rfl⟩

/-- A field that has to be an object. -/
theorem objectField_ok (hRead : ∀ name j v, read name j = .ok v ↔ Reads j v) {op : Json}
    {field error : String} {m : StringMap V} :
    (orError error (member op field >>= objectOf) >>= collectFields read) = .ok m ↔
      ∃ value, member op field = some value ∧ ReadsMap Reads value m := by
  rw [bind_ok]
  constructor
  · rintro ⟨members, hFound, hMap⟩
    exact ⟨_, bind_objectOf.mp (orError_ok.mp hFound), (collectFields_ok hRead).mp hMap⟩
  · rintro ⟨_, hFound, members, entries, rfl, hEntries, hMap⟩
    exact ⟨members, orError_ok.mpr (bind_objectOf.mpr hFound),
      (collectFields_ok hRead).mpr ⟨members, entries, rfl, hEntries, hMap⟩⟩

end Maps

theorem serviceField_ok {id : String} {j : Json} {s : PlcService} :
    serviceField id j = .ok s ↔ ReadsService j s := by
  rw [serviceField, bind_ok]
  constructor
  · rintro ⟨serviceType, hType, h⟩
    obtain ⟨endpoint, hEndpoint, h⟩ := bind_ok.mp h
    cases h
    exact ⟨bind_textOf.mp (orError_ok.mp hType), bind_textOf.mp (orError_ok.mp hEndpoint)⟩
  · rintro ⟨hType, hEndpoint⟩
    exact ⟨s.serviceType, orError_ok.mpr (bind_textOf.mpr hType),
      bind_ok.mpr ⟨s.endpoint, orError_ok.mpr (bind_textOf.mpr hEndpoint), rfl⟩⟩

theorem stringMapField_ok {op : Json} {field : String} {m : StringMap String} :
    stringMapField op field = .ok m ↔
      ∃ value, member op field = some value ∧ ReadsMap (fun j key => j = .string key) value m :=
  @objectField_ok _ (fun name value =>
    orError ("operation." ++ field ++ "." ++ name ++ " is not a string") (textOf value)) _
    (fun _ _ _ => orError_ok.trans textOf_eq_some) _ _ _ _

theorem servicesField_ok {op : Json} {m : StringMap PlcService} :
    servicesField op = .ok m ↔
      ∃ value, member op "services" = some value ∧ ReadsMap ReadsService value m :=
  @objectField_ok _ serviceField _ (fun _ _ _ => serviceField_ok) _ _ _ _

theorem latestFullState_iff {auditLog : List AuditEntry} {current : CurrentHandleState} :
    latestFullState auditLog = .ok current ↔
      ∃ latest, latestEntry auditLog = some latest ∧ current.prevCid = latest.cid ∧
        current.rotationKeys ≠ [] ∧ States latest.operation current := by
  constructor
  · intro h
    obtain ⟨latest, hLatest, h⟩ := bind_ok.mp h
    obtain ⟨rotationKeys, hKeys, h⟩ := bind_ok.mp h
    obtain ⟨_, hSome, h⟩ := bind_ok.mp h
    obtain ⟨alsoKnownAs, hAliases, h⟩ := bind_ok.mp h
    obtain ⟨verificationMethods, hMethods, h⟩ := bind_ok.mp h
    obtain ⟨services, hServices, h⟩ := bind_ok.mp h
    cases h
    refine ⟨latest, orError_ok.mp hLatest, rfl, by simpa using check_ok.mp hSome, ?_⟩
    exact {
      rotationKeys := stringArrayField_ok.mp hKeys
      alsoKnownAs := stringArrayField_ok.mp hAliases
      verificationMethods := stringMapField_ok.mp hMethods
      services := servicesField_ok.mp hServices }
  · rintro ⟨latest, hLatest, hPrev, hSome, hStates⟩
    refine bind_ok.mpr ⟨latest, orError_ok.mpr hLatest, ?_⟩
    refine bind_ok.mpr ⟨_, stringArrayField_ok.mpr hStates.rotationKeys, ?_⟩
    refine bind_ok.mpr ⟨(), check_ok.mpr (by simpa using hSome), ?_⟩
    refine bind_ok.mpr ⟨_, stringArrayField_ok.mpr hStates.alsoKnownAs, ?_⟩
    refine bind_ok.mpr ⟨_, stringMapField_ok.mpr hStates.verificationMethods, ?_⟩
    refine bind_ok.mpr ⟨_, servicesField_ok.mpr hStates.services, ?_⟩
    rw [← hPrev]
    rfl

/-! ## Asking the directory -/

inductive PdsClientError where
  | handleNotFound
  | didNotFound
  | rateLimited (retryAfter : Option String)
  | networkError (message : String)
  | other (text : String)
  deriving DecidableEq

/-- What a client is answered. -/
structure PdsClient where
  resolveHandle : String → Except PdsClientError String
  fetchAuditLog : String → Except PdsClientError String

variable (crates : PlcCrates) {ε : Type}

/-- `fetchErr` and `invalidAuditLog` make the failures errors of the caller. -/
def fetchCurrentState (fetchErr : PdsClientError → ε) (invalidAuditLog : String → ε)
    (pds : PdsClient) (did : String) : Except ε CurrentHandleState := do
  let logJson ← (pds.fetchAuditLog did).mapError fetchErr
  let auditLog ← (parseAuditLog crates logJson).mapError fun e =>
    invalidAuditLog ("failed to parse audit log: " ++ e.text)
  (latestFullState auditLog).mapError fun message =>
    invalidAuditLog ("invalid audit log: " ++ message)

end Ezpds.Wallet
