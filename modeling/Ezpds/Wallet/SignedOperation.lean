import Ezpds.Wallet.CurrentState

/-!
# What a builder of the wallet hands on

A builder returns a diff for the review screen, and the operation that it signed: it prints the
operation and parses the text again, as a value whose objects are ordered maps.

* `fromJson_toValue`, `states_toValue`: the value is still the document of the operation.
* `signState_states`: a state that is signed is the state of what is handed on.
-/

namespace Ezpds.Wallet

open Library Crypto

/-! ## The diff -/

inductive ChangeType where
  | added | removed | modified
  deriving DecidableEq, Repr

structure ServiceChange where
  id : String
  changeType : ChangeType
  oldEndpoint : Option String
  newEndpoint : Option String
  deriving DecidableEq, Repr

structure OpDiff where
  addedKeys : List String
  removedKeys : List String
  changedServices : List ServiceChange
  prevCid : Option String
  deriving DecidableEq, Repr

/-! ## The key of the device -/

inductive PerDidSignError where
  | deviceKeyNotFound (message : String)
  | signingSetupFailed (message : String)
  deriving DecidableEq, Repr

/-- What plc.directory and the identity store answer for a DID; other errors than those of the
signer are their texts. -/
structure WalletSources where
  fetchAuditLog : String → Except String String
  getOrCreateDeviceKey : String → Except String String
  perDidSignClosure : String → Except PerDidSignError Signer

/-! ## The operation -/

/-- `from_str::<Value>`. -/
def parseValue (crates : PlcCrates) (json : String) : Except String Json :=
  match crates.parseJson json with
  | some j => .ok (toValue j)
  | none => .error (crates.jsonError json)

theorem parseValue_of_parseJson {crates : PlcCrates} {json : String} {j : Json}
    (h : crates.parseJson json = some j) : parseValue crates json = .ok (toValue j) := by
  rw [parseValue, h]

variable {V : Type}

theorem membersToValues_eq (m : StringMap Json) (members : List (String × Json)) :
    membersToValues m members = (members.map fun e => (e.1, toValue e.2)).foldl
      (fun m e => m.insert e.1 e.2) m := by
  induction members generalizing m with
  | nil => rfl
  | cons e members ih =>
    rw [membersToValues, ih]
    rfl

/-- An object without repeated members is kept, in key order. -/
theorem toValue_object {members : List (String × Json)} {entries : StringMap Json}
    (h : (members.map fun e => (e.1, toValue e.2)).Perm entries.entries) :
    toValue (.object members) = .object entries.entries := by
  rw [toValue, membersToValues_eq]
  exact congrArg (Json.object ∘ SortedMap.entries) (collectMap_perm h)

theorem itemsToValues_texts (l : List String) :
    itemsToValues (l.map .string) = l.map .string := by
  induction l with
  | nil => rfl
  | cons s l ih => rw [List.map_cons, itemsToValues, ih, toValue]

theorem toValue_jsonTexts (l : List String) : toValue (jsonTexts l) = jsonTexts l := by
  rw [jsonTexts, toValue, itemsToValues_texts]

theorem toValue_jsonOption (o : Option String) : toValue (jsonOption o) = jsonOption o := by
  cases o <;> rfl

theorem toValue_jsonMap (write : V → Json) (m : StringMap V) :
    toValue (jsonMap write m) = .object (m.mapValues fun v => toValue (write v)).entries := by
  apply toValue_object
  rw [List.map_map]
  exact (perm_canonicalSort m.entries).map fun e => (e.1, toValue (write e.2))

theorem mapOf_toValue {read : Json → Option V} {write : V → Json}
    (h : ∀ v, read (toValue (write v)) = some v) (m : StringMap V) :
    mapOf read (toValue (jsonMap write m)) = some m := by
  have hEntries : (m.mapValues fun v => toValue (write v)).entries =
      m.entries.map fun e => (e.1, toValue (write e.2)) := rfl
  rw [toValue_jsonMap, mapOf, hEntries, @mapM_read _ read (fun v => toValue (write v)) h,
    Option.map_some, collectMap_perm (List.Perm.refl _)]

theorem toValue_serviceToJson (s : PlcService) :
    toValue s.toJson =
      .object [("endpoint", .string s.endpoint), ("type", .string s.serviceType)] := by
  have hSorted : KeySorted [("endpoint", Json.string s.endpoint),
      ("type", Json.string s.serviceType)] := by
    show ["endpoint", "type"].Pairwise (· < ·)
    decide +kernel
  exact @toValue_object [("type", .string s.serviceType), ("endpoint", .string s.endpoint)]
    ⟨_, hSorted⟩ (List.Perm.swap _ _ _)

theorem serviceFromJson_toValue (s : PlcService) :
    PlcService.fromJson (toValue s.toJson) = some s := by
  rw [toValue_serviceToJson]
  rfl

/-- The members of an operation, in key order. -/
theorem toValue_toJson (op : SignedPlcOp) :
    toValue op.toJson = .object [
      ("alsoKnownAs", toValue (jsonTexts op.alsoKnownAs)),
      ("prev", toValue (jsonOption op.prev)),
      ("rotationKeys", toValue (jsonTexts op.rotationKeys)),
      ("services", toValue (jsonMap PlcService.toJson op.services)),
      ("sig", .string op.sig),
      ("type", .string op.opType),
      ("verificationMethods", toValue (jsonMap .string op.verificationMethods))] := by
  have hSorted : KeySorted [
      ("alsoKnownAs", toValue (jsonTexts op.alsoKnownAs)),
      ("prev", toValue (jsonOption op.prev)),
      ("rotationKeys", toValue (jsonTexts op.rotationKeys)),
      ("services", toValue (jsonMap PlcService.toJson op.services)),
      ("sig", .string op.sig),
      ("type", .string op.opType),
      ("verificationMethods", toValue (jsonMap .string op.verificationMethods))] := by
    show ["alsoKnownAs", "prev", "rotationKeys", "services", "sig", "type",
      "verificationMethods"].Pairwise (· < ·)
    decide +kernel
  apply @toValue_object _ ⟨_, hSorted⟩
  have hKeys : signedMembers.Nodup := by decide +kernel
  have hMembers : ∀ {members : List (String × Json)},
      members.map Prod.fst = signedMembers → members.Nodup :=
    fun hNames => List.Nodup.of_map Prod.fst (hNames ▸ hKeys)
  apply (List.perm_ext_iff_of_nodup (hMembers rfl)
    (List.Nodup.of_map Prod.fst (hSorted.imp ne_of_lt))).mpr
  intro e
  simp only [List.map_cons, List.map_nil, List.mem_cons, List.not_mem_nil, toValue, or_false]
  tauto

theorem fromJson_toValue (op : SignedPlcOp) :
    SignedPlcOp.fromJson (toValue op.toJson) = some op := by
  have hRead : readSigned (.string op.sig) (toValue (jsonOption op.prev)) (.string op.opType)
      (toValue (jsonMap PlcService.toJson op.services)) (toValue (jsonTexts op.alsoKnownAs))
      (toValue (jsonTexts op.rotationKeys))
      (toValue (jsonMap .string op.verificationMethods)) = some op := by
    rw [readSigned, toValue_jsonOption, optionOf_jsonOption,
      mapOf_toValue serviceFromJson_toValue, toValue_jsonTexts, toValue_jsonTexts,
      textsOf_jsonTexts, textsOf_jsonTexts, @mapOf_toValue _ textOf .string fun _ => rfl]
    rfl
  rw [toValue_toJson]
  exact hRead

theorem parseSignedOp_of_read {crates : PlcCrates} {json : String} {op : SignedPlcOp}
    (h : crates.parseJson json = some (toValue op.toJson)) :
    parseSignedOp crates json = .ok op := by
  rw [parseSignedOp, h, Option.bind_eq_bind, Option.bind_some, fromJson_toValue]

/-! ## Objects without repeated members -/

/-- A document as a value keeps it. -/
def IsValue (j : Json) : Prop :=
  ∃ source, j = toValue source

theorem isValue_membersToValues {m : StringMap Json} (hValues : ∀ e ∈ m.entries, IsValue e.2)
    (members : List (String × Json)) :
    ∀ e ∈ (membersToValues m members).entries, IsValue e.2 := by
  induction members generalizing m with
  | nil => exact hValues
  | cons member members ih =>
    apply ih
    intro e he
    rcases mem_assocInsert he with rfl | he
    · exact ⟨member.2, rfl⟩
    · exact hValues e he

/-- The members of an object that is a value have different keys, and are values. -/
theorem IsValue.object {members : List (String × Json)} (h : IsValue (.object members)) :
    (members.map Prod.fst).Nodup ∧ ∀ e ∈ members, IsValue e.2 := by
  obtain ⟨source, hSource⟩ := h
  cases source with
  | object sourceMembers =>
    rw [toValue] at hSource
    cases hSource
    exact ⟨(membersToValues SortedMap.empty sourceMembers).sorted.imp ne_of_lt,
      isValue_membersToValues (fun e he => absurd he List.not_mem_nil) _⟩
  | _ => simp [toValue] at hSource

theorem IsValue.member {j value : Json} {field : String} (h : IsValue j)
    (hFound : member j field = some value) : IsValue value := by
  cases j with
  | object members => exact h.object.2 (field, value) (mem_of_lookup hFound)
  | _ => cases hFound

theorem isValue_readEntry {did cid createdAt nullified operation : Json} {entry : AuditEntry}
    (h : readEntry did cid createdAt nullified operation = some entry) :
    IsValue entry.operation := by
  obtain ⟨_, _, h⟩ := Option.bind_eq_some_iff.mp h
  obtain ⟨_, _, h⟩ := Option.bind_eq_some_iff.mp h
  obtain ⟨_, _, h⟩ := Option.bind_eq_some_iff.mp h
  obtain ⟨_, _, h⟩ := Option.bind_eq_some_iff.mp h
  cases h
  exact ⟨operation, rfl⟩

theorem isValue_fromJson {j : Json} {entry : AuditEntry} (h : AuditEntry.fromJson j = some entry) :
    IsValue entry.operation := by
  unfold AuditEntry.fromJson at h
  split at h
  · obtain ⟨_, _, h⟩ := Option.bind_eq_some_iff.mp h
    obtain ⟨_, _, h⟩ := Option.bind_eq_some_iff.mp h
    obtain ⟨_, _, h⟩ := Option.bind_eq_some_iff.mp h
    obtain ⟨_, _, h⟩ := Option.bind_eq_some_iff.mp h
    obtain ⟨_, _, h⟩ := Option.bind_eq_some_iff.mp h
    obtain ⟨_, _, h⟩ := Option.bind_eq_some_iff.mp h
    exact isValue_readEntry h
  · exact isValue_readEntry h
  · cases h

/-- The operations of a log that was parsed are values. -/
theorem isValue_operation {crates : PlcCrates} {json : String} {auditLog : List AuditEntry}
    (h : parseAuditLog crates json = .ok auditLog) : ∀ e ∈ auditLog, IsValue e.operation := by
  rw [parseAuditLog] at h
  split at h
  · rename_i entries hEntries
    cases h
    obtain ⟨doc, _, hDoc⟩ := Option.bind_eq_some_iff.mp hEntries
    cases doc with
    | array items =>
      intro entry hEntry
      obtain ⟨j, _, hRead⟩ := exists_mem_of_forall₂ (mapM_some.mp hDoc) hEntry
      exact isValue_fromJson hRead
    | _ => cases hDoc
  · cases h

/-! ## The state that an operation encodes -/

theorem readsService_toValue (s : PlcService) : ReadsService (toValue s.toJson) s := by
  rw [toValue_serviceToJson]
  exact ⟨rfl, rfl⟩

theorem readsMap_toValue {Reads : Json → V → Prop} {write : V → Json}
    (h : ∀ v, Reads (toValue (write v)) v) (m : StringMap V) :
    ReadsMap Reads (toValue (jsonMap write m)) m := by
  refine ⟨_, m.entries, toValue_jsonMap write m, ?_, collectMap_perm (List.Perm.refl _)⟩
  exact List.forall₂_map_left_iff.mpr (List.forall₂_same.mpr fun e _ => ⟨rfl, h e.2⟩)

/-- The successor that sets a state, with its signature. -/
def stateOp (state : CurrentHandleState) (sig : String) : SignedPlcOp :=
  .ofUnsigned (rotationOp state.prevCid state.rotationKeys state.verificationMethods
    state.alsoKnownAs state.services) sig

theorem states_toValue (state : CurrentHandleState) (sig : String) :
    member (toValue (stateOp state sig).toJson) "prev" = some (.string state.prevCid) ∧
      States (toValue (stateOp state sig).toJson) state := by
  rw [toValue_toJson]
  constructor
  · rfl
  · exact {
      rotationKeys := congrArg some (toValue_jsonTexts state.rotationKeys)
      alsoKnownAs := congrArg some (toValue_jsonTexts state.alsoKnownAs)
      verificationMethods := ⟨_, rfl, readsMap_toValue (fun _ => rfl) _⟩
      services := ⟨_, rfl, readsMap_toValue readsService_toValue _⟩ }

/-! ## Signing a state -/

section Sign

variable (crates : PlcCrates) {ε : Type}

/-- What the builders do once a guard accepts a state; `failed` names the operation. -/
def signState (identityNotFound signingFailed : String → ε) (failed : String)
    (closure : Except PerDidSignError Signer) (state : CurrentHandleState) :
    Except ε (SignedPlcOperation × Json) := do
  let sign ← closure.mapError fun
    | .deviceKeyNotFound message => identityNotFound message
    | .signingSetupFailed message => signingFailed message
  let signed ← (buildDidPlcRotationOp crates state.prevCid state.rotationKeys
    state.verificationMethods state.alsoKnownAs state.services sign).mapError fun e =>
      signingFailed ("failed to build " ++ failed ++ " op: " ++ e.text)
  let signedOp ← (parseValue crates signed.signedOpJson).mapError fun e =>
    signingFailed ("failed to parse signed op JSON: " ++ e)
  return (signed, signedOp)

/-- What the successor of a state is printed as, is read back. -/
def ReadsBack (state : CurrentHandleState) : Prop :=
  ∀ sigBytes, let doc := (stateOp state (crates.base64Encode sigBytes)).toJson
    crates.parseJson (crates.printJson doc) = some doc

variable {crates} {identityNotFound signingFailed : String → ε} {failed : String}
  {closure : Except PerDidSignError Signer} {state : CurrentHandleState}

theorem signState_value {signed : SignedPlcOperation} {signedOp : Json}
    (h : signState crates identityNotFound signingFailed failed closure state =
      .ok (signed, signedOp))
    (hReads : ReadsBack crates state) :
    ∃ sig, signedOp = toValue (stateOp state sig).toJson := by
  obtain ⟨sign, _, h⟩ := bind_ok.mp h
  obtain ⟨built, hBuilt, h⟩ := bind_ok.mp h
  obtain ⟨value, hValue, h⟩ := bind_ok.mp h
  cases h
  obtain ⟨sigBytes, _, _, rfl⟩ := buildRotation_ok.mp (mapError_ok.mp hBuilt)
  have hParsed := parseValue_of_parseJson (hReads sigBytes)
  exact ⟨_, Except.ok.inj ((mapError_ok.mp hValue).symm.trans hParsed)⟩

theorem signState_states {signed : SignedPlcOperation} {signedOp : Json}
    (h : signState crates identityNotFound signingFailed failed closure state =
      .ok (signed, signedOp))
    (hReads : ReadsBack crates state) :
    member signedOp "prev" = some (.string state.prevCid) ∧ States signedOp state := by
  obtain ⟨sig, rfl⟩ := signState_value h hReads
  exact states_toValue state sig

/-- A state whose successor is read back is signed, whatever low-S signature the key gives. -/
theorem exists_signState {sigBytes : List UInt8} (hClosure : closure = .ok fun _ => .ok sigBytes)
    (hLow : LowSSignature crates sigBytes) (hReads : ReadsBack crates state) :
    ∃ signed, signState crates identityNotFound signingFailed failed closure state =
      .ok signed := by
  let op := stateOp state (crates.base64Encode sigBytes)
  refine ⟨(⟨computeCid crates (PlcMessage.signed op).bytes, crates.printJson op.toJson⟩,
    toValue op.toJson), bind_ok.mpr ⟨_, mapError_ok.mpr hClosure, ?_⟩⟩
  refine bind_ok.mpr ⟨_, mapError_ok.mpr (buildRotation_ok.mpr ⟨sigBytes, rfl, hLow, rfl⟩), ?_⟩
  exact bind_ok.mpr ⟨_, mapError_ok.mpr (parseValue_of_parseJson (hReads sigBytes)), rfl⟩

end Sign

end Ezpds.Wallet
