import Ezpds.Wallet.RecoveryOverride

/-!
# What a recovery override restores

The counter-operation always continues the entry at which the walk stopped and restores its
state. It is not always one that the directory takes: the walk asks only who signed, so it also
stops at a nullified entry and at one that gives the device key away, and of the entries that
the override nullifies only the target is held against the 72 hours.

* `buildRecoveryOverride_ok`: a run that succeeds, step by step.
* `OverrideRun.restores`: the counter-operation is the state of the fork entry.
* `override_sound_iff`: when the override is one for the current chain.
-/

namespace Ezpds.Wallet

open Library Crypto

/-- The entry is at most 72 hours old. -/
def Fresh (clock : RecoveryClock) (entry : AuditEntry) : Prop :=
  ∃ created, clock.parseRfc3339 entry.createdAt = .ok created ∧
    clock.now ≤ recoveryDeadline created

/-- The log around an earlier entry and the first one that has the CID of the target. -/
structure Around (auditLog : List AuditEntry) (target : String) (older : List AuditEntry)
    (fork : AuditEntry) (skipped : List AuditEntry) (entry : AuditEntry)
    (newer : List AuditEntry) : Prop where
  log : auditLog = older ++ fork :: skipped ++ entry :: newer
  cid : entry.cid = target
  first : ∀ e ∈ older ++ fork :: skipped, e.cid ≠ target
  last : fork ∉ skipped

/-- The counter-operation with its signature. -/
def counterOp (fork : AuditEntry) (state : VerifiedPlcOp) (sig : String) : SignedPlcOp :=
  .ofUnsigned (rotationOp fork.cid state.rotationKeys state.verificationMethods
    state.alsoKnownAs state.services) sig

/-- What is read from a document again: the operations of the log, and the counter-operation. -/
structure TextsReadBack (crates : PlcCrates) (auditLog : List AuditEntry) (target : String)
    (deviceKey : DidKeyUri) : Prop where
  operations : ∀ entry ∈ auditLog,
    (crates.parseJson (crates.printJson entry.operation) >>= SignedPlcOp.fromJson) =
      SignedPlcOp.fromJson entry.operation
  counterOp : ∀ fork state sigBytes,
    findForkPoint crates auditLog target deviceKey = .ok (fork, state) →
      let doc := (counterOp fork state (crates.base64Encode sigBytes)).toJson
      crates.parseJson (crates.printJson doc) = some doc

/-- Two operations of one state. -/
structure SameState (op op' : SignedPlcOp) : Prop where
  rotationKeys : op.rotationKeys = op'.rotationKeys
  verificationMethods : op.verificationMethods = op'.verificationMethods
  alsoKnownAs : op.alsoKnownAs = op'.alsoKnownAs
  services : op.services = op'.services

section

variable {crates : PlcCrates} {clock : RecoveryClock} {sources : WalletSources} {did target : String}
  {auditLog : List AuditEntry} {deviceKey : DidKeyUri} {built : SignedRecoveryOp}

/-! ## A run that succeeds -/

/-- The steps of a run. -/
structure OverrideRun (crates : PlcCrates) (clock : RecoveryClock) (sources : WalletSources)
    (did target : String) (auditLog : List AuditEntry) (deviceKey : DidKeyUri)
    (fork : AuditEntry) (state : VerifiedPlcOp) (built : SignedRecoveryOp) : Prop where
  fetched : ∃ json, sources.fetchAuditLog did = .ok json ∧ parseAuditLog crates json = .ok auditLog
  window : ∃ entry, auditLog.find? (fun e => e.cid == target) = some entry ∧ Fresh clock entry
  device : sources.getOrCreateDeviceKey did = .ok deviceKey.uri
  forkPoint : findForkPoint crates auditLog target deviceKey = .ok (fork, state)
  signed : ∃ sign signed, sources.perDidSignClosure did = .ok sign ∧
    buildDidPlcRotationOp crates fork.cid state.rotationKeys state.verificationMethods
      state.alsoKnownAs state.services sign = .ok signed ∧
    parseValue crates signed.signedOpJson = .ok built.signedOp
  diff : built.diff = buildOpDiff (currentStateFromAuditLog auditLog) state fork.cid

theorem checkRecoveryWindow_ok {entry : AuditEntry}
    (h : checkRecoveryWindow clock entry.createdAt = .ok ()) : Fresh clock entry := by
  obtain ⟨created, hParse, hOpen⟩ := bind_ok.mp h
  have hNow := check_ok.mp hOpen
  rw [Bool.not_eq_true', decide_eq_false_iff_not, not_lt] at hNow
  exact ⟨created, mapError_ok.mp hParse, hNow⟩

theorem signRecoveryOp_ok {prevCid : String} {state : VerifiedPlcOp}
    {signed : SignedPlcOperation} (h : signRecoveryOp crates sources did prevCid state = .ok signed) :
    ∃ sign, sources.perDidSignClosure did = .ok sign ∧
      buildDidPlcRotationOp crates prevCid state.rotationKeys state.verificationMethods
        state.alsoKnownAs state.services sign = .ok signed := by
  obtain ⟨sign, hSign, hBuild⟩ := bind_ok.mp h
  exact ⟨sign, mapError_ok.mp hSign, mapError_ok.mp hBuild⟩

theorem buildRecoveryOverride_ok
    (h : buildRecoveryOverride crates clock sources did target = .ok built) :
    ∃ auditLog deviceKey fork state,
      OverrideRun crates clock sources did target auditLog deviceKey fork state built := by
  obtain ⟨json, hFetch, h⟩ := bind_ok.mp h
  obtain ⟨auditLog, hParse, h⟩ := bind_ok.mp h
  obtain ⟨entry, hFound, h⟩ := bind_ok.mp h
  obtain ⟨_, hWindow, h⟩ := bind_ok.mp h
  obtain ⟨deviceKeyId, hDevice, h⟩ := bind_ok.mp h
  obtain ⟨⟨fork, state⟩, hFork, h⟩ := bind_ok.mp h
  obtain ⟨signed, hSigned, h⟩ := bind_ok.mp h
  obtain ⟨signedOp, hValue, h⟩ := bind_ok.mp h
  cases h
  obtain ⟨sign, hSign, hBuild⟩ := signRecoveryOp_ok hSigned
  exact ⟨auditLog, ⟨deviceKeyId⟩, fork, state, {
    fetched := ⟨json, mapError_ok.mp hFetch, mapError_ok.mp hParse⟩
    window := ⟨entry, okOr_ok.mp hFound, checkRecoveryWindow_ok hWindow⟩
    device := mapError_ok.mp hDevice
    forkPoint := hFork
    signed := ⟨sign, signed, hSign, hBuild, mapError_ok.mp hValue⟩
    diff := rfl }⟩

/-- Conversely, such steps are a run. -/
theorem OverrideRun.builds {fork : AuditEntry} {state : VerifiedPlcOp}
    (run : OverrideRun crates clock sources did target auditLog deviceKey fork state built) :
    buildRecoveryOverride crates clock sources did target = .ok built := by
  obtain ⟨json, hFetch, hParse⟩ := run.fetched
  obtain ⟨entry, hFound, created, hCreated, hNow⟩ := run.window
  obtain ⟨sign, signed, hSign, hBuilt, hValue⟩ := run.signed
  have hWindow : checkRecoveryWindow clock entry.createdAt = .ok () :=
    bind_ok.mpr ⟨created, mapError_ok.mpr hCreated,
      check_ok.mpr (by simpa using not_lt.mpr hNow)⟩
  have hSigned : signRecoveryOp crates sources did fork.cid state = .ok signed :=
    bind_ok.mpr ⟨sign, mapError_ok.mpr hSign, mapError_ok.mpr hBuilt⟩
  refine bind_ok.mpr ⟨json, mapError_ok.mpr hFetch, ?_⟩
  refine bind_ok.mpr ⟨auditLog, mapError_ok.mpr hParse, ?_⟩
  refine bind_ok.mpr ⟨entry, okOr_ok.mpr hFound, ?_⟩
  refine bind_ok.mpr ⟨(), hWindow, ?_⟩
  refine bind_ok.mpr ⟨deviceKey.uri, mapError_ok.mpr run.device, ?_⟩
  refine bind_ok.mpr ⟨(fork, state), run.forkPoint, ?_⟩
  refine bind_ok.mpr ⟨signed, hSigned, ?_⟩
  refine bind_ok.mpr ⟨built.signedOp, mapError_ok.mpr hValue, ?_⟩
  rw [← run.diff]
  rfl

/-! ## The walk -/

theorem isSignedBy_of_verified {entry : AuditEntry} {state : VerifiedPlcOp}
    (h : verifyPlcOperation crates (crates.printJson entry.operation) [deviceKey] = .ok state) :
    isSignedBy crates deviceKey entry.operation = true := by
  rw [isSignedBy, h]
  rfl

theorem walkBack_ok {entries : List AuditEntry} {fork : AuditEntry} {state : VerifiedPlcOp}
    (h : walkBack crates deviceKey entries = .ok (fork, state)) :
    ∃ later earlier, entries = later ++ fork :: earlier ∧
      (∀ e ∈ later, isSignedBy crates deviceKey e.operation = false) ∧
      verifyPlcOperation crates (crates.printJson fork.operation) [deviceKey] = .ok state := by
  induction entries with
  | nil => cases h
  | cons entry entries ih =>
    rw [walkBack] at h
    split at h
    · rename_i verified hVerified
      cases h
      exact ⟨[], entries, rfl, by simp, hVerified⟩
    · rename_i e hFails
      obtain ⟨later, earlier, rfl, hLater, hState⟩ := ih h
      refine ⟨entry :: later, earlier, rfl, ?_, hState⟩
      intro d hd
      rcases List.mem_cons.mp hd with rfl | hd
      · rw [isSignedBy, hFails]
        rfl
      · exact hLater d hd

theorem walkBack_verified {entry : AuditEntry} {earlier : List AuditEntry} {state : VerifiedPlcOp}
    (h : verifyPlcOperation crates (crates.printJson entry.operation) [deviceKey] = .ok state) :
    walkBack crates deviceKey (entry :: earlier) = .ok (entry, state) := by
  rw [walkBack, h]

theorem walkBack_unverified {entry : AuditEntry} {earlier : List AuditEntry}
    (h : (verifyPlcOperation crates (crates.printJson entry.operation) [deviceKey]).isOk = false) :
    walkBack crates deviceKey (entry :: earlier) = walkBack crates deviceKey earlier := by
  rw [walkBack]
  split
  · rename_i verified hVerified
    rw [hVerified] at h
    cases h
  · rfl

theorem findForkPoint_of {n : Nat}
    (h : auditLog.findIdx? (fun e => e.cid == target) = some (n + 1)) :
    findForkPoint crates auditLog target deviceKey =
      walkBack crates deviceKey (auditLog.take (n + 1)).reverse := by
  rw [findForkPoint, h]
  rfl

/-- The fork entry is the last one before the target that the device key signed. -/
theorem findForkPoint_ok {fork : AuditEntry} {state : VerifiedPlcOp}
    (h : findForkPoint crates auditLog target deviceKey = .ok (fork, state)) :
    ∃ older skipped entry newer, Around auditLog target older fork skipped entry newer ∧
      (∀ e ∈ skipped, isSignedBy crates deviceKey e.operation = false) ∧
      verifyPlcOperation crates (crates.printJson fork.operation) [deviceKey] = .ok state := by
  rw [findForkPoint] at h
  split at h
  · cases h
  · cases h
  · rename_i targetIdx _ hIdx
    obtain ⟨hLt, hCid, hBefore⟩ := List.findIdx?_eq_some_iff_getElem.mp hIdx
    obtain ⟨later, earlier, hSplit, hLater, hState⟩ := walkBack_ok h
    have hTake : auditLog.take targetIdx = earlier.reverse ++ fork :: later.reverse := by
      rw [← List.reverse_reverse (auditLog.take targetIdx), hSplit]
      simp
    have hSkipped : ∀ e ∈ later.reverse, isSignedBy crates deviceKey e.operation = false :=
      fun e he => hLater e (List.mem_reverse.mp he)
    refine ⟨earlier.reverse, later.reverse, auditLog[targetIdx], auditLog.drop (targetIdx + 1),
      ⟨?_, eq_of_beq hCid, ?_, ?_⟩, hSkipped, hState⟩
    · rw [← hTake, ← List.drop_eq_getElem_cons hLt, List.take_append_drop]
    · intro e he
      rw [← hTake] at he
      obtain ⟨i, hi, rfl⟩ := List.mem_take_iff_getElem.mp he
      simpa using hBefore i (by omega)
    · intro hMem
      have hUnsigned := hSkipped fork hMem
      rw [isSignedBy_of_verified hState] at hUnsigned
      cases hUnsigned

/-! ## Positions in the log -/

variable {older older' skipped skipped' newer newer' : List AuditEntry}
  {fork fork' entry entry' : AuditEntry} {state : VerifiedPlcOp}

theorem Around.mem (h : Around auditLog target older fork skipped entry newer) :
    fork ∈ auditLog := by
  rw [h.log]
  simp

theorem Around.find? (h : Around auditLog target older fork skipped entry newer) :
    auditLog.find? (fun e => e.cid == target) = some entry := by
  apply List.find?_eq_some_iff_append.mpr
  refine ⟨beq_iff_eq.mpr h.cid, _, newer, h.log, ?_⟩
  intro e he
  simpa using h.first e he

theorem Around.takeWhile (h : Around auditLog target older fork skipped entry newer) :
    auditLog.takeWhile (fun e => e.cid != target) = older ++ fork :: skipped := by
  have hFirst : ∀ e ∈ older ++ fork :: skipped, (e.cid != target) = true := by
    intro e he
    simpa using h.first e he
  rw [h.log, List.takeWhile_append_of_pos hFirst, List.takeWhile_cons_of_neg (by simp [h.cid]),
    List.append_nil]

theorem Around.entries (h : Around auditLog target older fork skipped entry newer)
    (h' : Around auditLog target older' fork' skipped' entry' newer') :
    older ++ fork :: skipped = older' ++ fork' :: skipped' ∧ entry = entry' ∧ newer = newer' := by
  have hBefore := h.takeWhile.symm.trans h'.takeWhile
  have hAll := h.log.symm.trans h'.log
  rw [hBefore] at hAll
  exact ⟨hBefore, List.cons.inj (List.append_cancel_left hAll)⟩

/-- The last element of its kind. -/
theorem last_unique (p : AuditEntry → Prop)
    (h : older ++ fork :: skipped = older' ++ fork' :: skipped')
    (hFork : p fork) (hFork' : p fork') (hSkipped : ∀ e ∈ skipped, ¬ p e)
    (hSkipped' : ∀ e ∈ skipped', ¬ p e) : fork = fork' ∧ skipped = skipped' := by
  rcases List.append_eq_append_iff.mp h with ⟨between, _, hBetween⟩ | ⟨between, _, hBetween⟩
  · cases between with
    | nil => exact List.cons.inj hBetween
    | cons e between =>
      have hTail := (List.cons.inj hBetween).2
      exact absurd hFork' (hSkipped fork' (hTail ▸ List.mem_append_right _ List.mem_cons_self))
  · cases between with
    | nil =>
      obtain ⟨rfl, rfl⟩ := List.cons.inj hBetween
      exact ⟨rfl, rfl⟩
    | cons e between =>
      have hTail := (List.cons.inj hBetween).2
      exact absurd hFork (hSkipped' fork (hTail ▸ List.mem_append_right _ List.mem_cons_self))

/-! ## What is restored -/

/-- The counter-operation continues the fork entry and has its state. -/
def Restores (fork : AuditEntry) (built : SignedRecoveryOp) (forkOp : SignedPlcOp) : Prop :=
  SignedPlcOp.fromJson fork.operation = some forkOp ∧
    ∃ op, SignedPlcOp.fromJson built.signedOp = some op ∧ op.prev = some fork.cid ∧
      SameState op forkOp

theorem OverrideRun.log_unique
    (run : OverrideRun crates clock sources did target auditLog deviceKey fork state built)
    {auditLog' : List AuditEntry}
    (h : ∃ json, sources.fetchAuditLog did = .ok json ∧
      parseAuditLog crates json = .ok auditLog') : auditLog = auditLog' := by
  obtain ⟨json, hFetch, hParse⟩ := run.fetched
  obtain ⟨json', hFetch', hParse'⟩ := h
  obtain rfl : json = json' := Except.ok.inj (hFetch.symm.trans hFetch')
  exact Except.ok.inj (hParse.symm.trans hParse')

theorem OverrideRun.device_unique
    (run : OverrideRun crates clock sources did target auditLog deviceKey fork state built)
    {deviceKey' : DidKeyUri} (h : sources.getOrCreateDeviceKey did = .ok deviceKey'.uri) :
    deviceKey = deviceKey' := by
  have hUri : deviceKey.uri = deviceKey'.uri := Except.ok.inj (run.device.symm.trans h)
  cases deviceKey
  cases deviceKey'
  exact congrArg DidKeyUri.mk hUri

theorem OverrideRun.counter
    (run : OverrideRun crates clock sources did target auditLog deviceKey fork state built)
    (hTexts : TextsReadBack crates auditLog target deviceKey) :
    ∃ sig, SignedPlcOp.fromJson built.signedOp = some (counterOp fork state sig) := by
  obtain ⟨sign, signed, _, hBuilt, hValue⟩ := run.signed
  obtain ⟨sigBytes, _, _, rfl⟩ := buildRotation_ok.mp hBuilt
  have hDoc := hTexts.counterOp fork state sigBytes run.forkPoint
  have hOp : built.signedOp =
      toValue (counterOp fork state (crates.base64Encode sigBytes)).toJson :=
    Except.ok.inj (hValue.symm.trans (parseValue_of_parseJson hDoc))
  rw [hOp]
  exact ⟨_, fromJson_toValue _⟩

theorem OverrideRun.restores
    (run : OverrideRun crates clock sources did target auditLog deviceKey fork state built)
    (hTexts : TextsReadBack crates auditLog target deviceKey) :
    ∃ forkOp, Restores fork built forkOp := by
  obtain ⟨older, skipped, entry, newer, hAround, _, hVerified⟩ := findForkPoint_ok run.forkPoint
  obtain ⟨forkOp, _, hParsed, _, _, hState⟩ := verifyPlcOperation_ok hVerified
  obtain ⟨sig, hOp⟩ := run.counter hTexts
  refine ⟨forkOp, ?_, counterOp fork state sig, hOp, rfl, ?_⟩
  · rw [← hTexts.operations fork hAround.mem]
    exact hParsed
  · exact {
      rotationKeys := hState.rotationKeys
      verificationMethods := hState.verificationMethods
      alsoKnownAs := hState.alsoKnownAs
      services := hState.services }

/-! ## When the directory can take it -/

/-- The fork entry precedes the target on the current chain, its state is restored, the device
key may sign after it, and what the override nullifies is at most 72 hours old. -/
def SoundOverride (crates : PlcCrates) (clock : RecoveryClock) (auditLog : List AuditEntry)
    (target : String) (deviceKey : DidKeyUri) (built : SignedRecoveryOp) : Prop :=
  ∃ older fork skipped entry newer state forkOp,
    findForkPoint crates auditLog target deviceKey = .ok (fork, state) ∧
    Around auditLog target older fork skipped entry newer ∧
    (fork.nullified = false ∧ entry.nullified = false) ∧
    Restores fork built forkOp ∧
    deviceKey.uri ∈ forkOp.rotationKeys ∧
    ∀ e ∈ skipped ++ entry :: newer, e.nullified = false → Fresh clock e

/-- The target is not nullified. The last entry before it that the device key signed, nullified
ones included, is not nullified either and keeps the device key among its rotation keys, and
every other entry after it that is not nullified is at most 72 hours old. -/
def Overridable (crates : PlcCrates) (clock : RecoveryClock) (auditLog : List AuditEntry)
    (target : String) (deviceKey : DidKeyUri) : Prop :=
  ∃ older fork skipped entry newer,
    Around auditLog target older fork skipped entry newer ∧
    isSignedBy crates deviceKey fork.operation = true ∧
    (∀ e ∈ skipped, isSignedBy crates deviceKey e.operation = false) ∧
    (fork.nullified = false ∧ entry.nullified = false) ∧
    (∃ op, SignedPlcOp.fromJson fork.operation = some op ∧ deviceKey.uri ∈ op.rotationKeys) ∧
    ∀ e ∈ skipped ++ newer, e.nullified = false → Fresh clock e

theorem SoundOverride.overridable
    (h : SoundOverride crates clock auditLog target deviceKey built) :
    Overridable crates clock auditLog target deviceKey := by
  obtain ⟨older', fork, skipped', entry', newer', state, forkOp, hFork, hAround', hLive, hRestores,
    hKey, hFresh⟩ := h
  obtain ⟨older, skipped, entry, newer, hAround, hSkipped, hVerified⟩ := findForkPoint_ok hFork
  obtain ⟨hBefore, rfl, rfl⟩ := hAround.entries hAround'
  obtain ⟨-, rfl⟩ := last_unique (· = fork) hBefore rfl rfl
    (fun e he hEq => hAround.last (hEq ▸ he)) (fun e he hEq => hAround'.last (hEq ▸ he))
  refine ⟨older, fork, skipped, entry, newer, hAround, isSignedBy_of_verified hVerified, hSkipped,
    hLive, ⟨forkOp, hRestores.1, hKey⟩, ?_⟩
  intro e he
  apply hFresh e
  rcases List.mem_append.mp he with he | he
  · exact List.mem_append_left _ he
  · exact List.mem_append_right _ (List.mem_cons_of_mem _ he)

/-- An override is one that undoes the operations of the current chain after a state of the
device exactly when the entry at which the walk stops is on that chain and keeps the device key,
and nothing after it is too old. -/
theorem override_sound_iff (hTexts : TextsReadBack crates auditLog target deviceKey)
    (hLog : ∃ json, sources.fetchAuditLog did = .ok json ∧ parseAuditLog crates json = .ok auditLog)
    (hDevice : sources.getOrCreateDeviceKey did = .ok deviceKey.uri)
    (hBuilt : buildRecoveryOverride crates clock sources did target = .ok built) :
    SoundOverride crates clock auditLog target deviceKey built ↔
      Overridable crates clock auditLog target deviceKey := by
  obtain ⟨auditLog', deviceKey', fork, state, run⟩ := buildRecoveryOverride_ok hBuilt
  obtain rfl : auditLog' = auditLog := run.log_unique hLog
  obtain rfl : deviceKey' = deviceKey := run.device_unique hDevice
  obtain ⟨older, skipped, entry, newer, hAround, hSkipped, hVerified⟩ :=
    findForkPoint_ok run.forkPoint
  have hSigned := isSignedBy_of_verified hVerified
  constructor
  · exact SoundOverride.overridable
  · rintro ⟨older', fork', skipped', entry', newer', hAround', hSigned', hSkipped', hLive,
      ⟨op, hOp, hKey⟩, hFresh⟩
    obtain ⟨hBefore, rfl, rfl⟩ := hAround.entries hAround'
    obtain ⟨rfl, rfl⟩ := last_unique
      (fun e => isSignedBy crates deviceKey' e.operation = true) hBefore hSigned hSigned'
      (fun e he => Bool.eq_false_iff.mp (hSkipped e he))
      (fun e he => Bool.eq_false_iff.mp (hSkipped' e he))
    obtain ⟨forkOp, hRestores⟩ := run.restores hTexts
    obtain rfl : op = forkOp := Option.some.inj (hOp.symm.trans hRestores.1)
    refine ⟨older, fork, skipped, entry, newer, state, op, run.forkPoint, hAround, hLive,
      hRestores, hKey, ?_⟩
    obtain ⟨found, hFound, hWindow⟩ := run.window
    obtain rfl : entry = found := Option.some.inj (hAround.find?.symm.trans hFound)
    intro e he hLiveEntry
    rcases List.mem_append.mp he with he | he
    · exact hFresh e (List.mem_append_left _ he) hLiveEntry
    · rcases List.mem_cons.mp he with rfl | he
      · exact hWindow
      · exact hFresh e (List.mem_append_right _ he) hLiveEntry

end

/-! ## Two operations in a row that the device did not sign -/

mutual

/-- The text of a document without numbers, and whose texts need no escapes. -/
def printPlain : Json → String
  | .null => "null"
  | .bool b => toString b
  | .number _ => ""
  | .string s => "\"" ++ s ++ "\""
  | .array items => "[" ++ ",".intercalate (printItems items) ++ "]"
  | .object members => "\x7b" ++ ",".intercalate (printMembers members) ++ "\x7d"

def printItems : List Json → List String
  | [] => []
  | j :: items => printPlain j :: printItems items

def printMembers : List (String × Json) → List String
  | [] => []
  | (key, j) :: members => ("\"" ++ key ++ "\":" ++ printPlain j) :: printMembers members

end

def serverKey : String := "did:key:zDnaemd4RfskC3MSz5DxxY5FAZqyhwoERotcTw8zQFmEbgRGB"

def serviceAt (endpoint : String) : StringMap PlcService :=
  SortedMap.empty.insert "atproto_pds" ⟨"AtprotoPersonalDataServer", endpoint⟩

def methodsOf (key : String) : StringMap String :=
  SortedMap.empty.insert "atproto" key

/-- The genesis operation, which the device signed. -/
def phoneOp : SignedPlcOp where
  sig := "8xq4F6jqAXXZ9qa0HAM2ZFap7IHI75M9t9e6RYlCZ0RMDwuCRV9xTS236WR_UEaKfsOL5683Nkc8T07WmX2Q6A"
  prev := none
  opType := "plc_operation"
  services := serviceAt "https://pds.example.com"
  alsoKnownAs := ["at://alice.example.com"]
  rotationKeys := [sampleKey.uri, serverKey]
  verificationMethods := methodsOf serverKey

def phoneCid : String := "bafyreib7bvnnrwvvpmq62lxj2qzd4wxfqbkzwlg6zumn6ewyau7xf7wxxe"

/-- The server takes the identity for itself. -/
def takeoverOp : SignedPlcOp where
  sig := "ytS2uCrj7yFS9KMJdyIr0TPpA_yFDOgeT7p9j3ButBgzyJvUPxeGG3hTn9uzNkzxhC0-FPlAB206SelPJ6TYcA"
  prev := some phoneCid
  opType := "plc_operation"
  services := serviceAt "https://pds.example.org"
  alsoKnownAs := ["at://alice.example.com"]
  rotationKeys := [serverKey]
  verificationMethods := methodsOf serverKey

def takeoverCid : String := "bafyreicpgj7qzxzwh34zpk56ovy4c4uh6ai6mmjhvpiipqgfkpqodari7e"

/-- The server changes the handle. -/
def renameOp : SignedPlcOp where
  sig := "78HnVPWa5uYmtqP9M2937waXKQ5QNi7mvJxgbKgO9XUEgUD7wXSw8htAhtaAAT-jfaZa35Apotw4o0mtLD-rYQ"
  prev := some takeoverCid
  opType := "plc_operation"
  services := serviceAt "https://pds.example.org"
  alsoKnownAs := ["at://mallory.example.org"]
  rotationKeys := [serverKey]
  verificationMethods := methodsOf serverKey

def renameCid : String := "bafyreihdwksurysk6dgpvh5hb7uevww5rtp6ovkv3qr5somuk4x256tn2u"

/-- The counter-operation that the device signs. -/
def undoOp : SignedPlcOp :=
  { phoneOp with
    sig :=
      "VixMyp6-2qouoUtxwaHMBh3ho9sS_qTVFyhw1CJ8v2557XbifTprFLpT1jil2G1vpPcDExBlLgpfVKRp8Hdztg"
    prev := some phoneCid }

def phoneSig : List UInt8 :=
  [243, 26, 184, 23, 168, 234, 1, 117, 217, 246, 166, 180, 28, 3, 54, 100, 86, 169, 236, 129, 200,
   239, 147, 61, 183, 215, 186, 69, 137, 66, 103, 68, 76, 15, 11, 130, 69, 95, 113, 77, 45, 183,
   233, 100, 127, 80, 70, 138, 126, 195, 139, 231, 175, 55, 54, 71, 60, 79, 78, 214, 153, 125, 144,
   232]

def takeoverSig : List UInt8 :=
  [202, 212, 182, 184, 42, 227, 239, 33, 82, 244, 163, 9, 119, 34, 43, 209, 51, 233, 3, 252, 133,
   12, 232, 30, 79, 186, 125, 143, 112, 110, 180, 24, 51, 200, 155, 212, 63, 23, 134, 27, 120, 83,
   159, 219, 179, 54, 76, 241, 132, 45, 62, 20, 249, 64, 7, 109, 58, 73, 233, 79, 39, 164, 216, 112]

def undoSig : List UInt8 :=
  [86, 44, 76, 202, 158, 190, 218, 170, 46, 161, 75, 113, 193, 161, 204, 6, 29, 225, 163, 219, 18,
   254, 164, 213, 23, 40, 112, 212, 34, 124, 191, 110, 121, 237, 118, 226, 125, 58, 107, 20, 186,
   83, 214, 56, 165, 216, 109, 111, 164, 247, 3, 19, 16, 101, 46, 10, 95, 84, 164, 105, 240, 119,
   115, 182]

/-- SHA-256 of the genesis operation, whose signature starts with `8` in its eighth byte, and of
the counter-operation. -/
def overrideHash (bytes : List UInt8) : List UInt8 :=
  if bytes[7]? = some 56 then
    [63, 13, 90, 216, 218, 181, 123, 33, 237, 46, 233, 212, 50, 62, 90, 229, 128, 85, 155, 44, 222,
     205, 24, 223, 18, 216, 5, 63, 114, 254, 215, 185]
  else
    [95, 160, 138, 15, 76, 93, 163, 209, 106, 121, 94, 182, 68, 234, 205, 239, 166, 255, 69, 138,
     162, 124, 129, 147, 198, 102, 250, 94, 224, 118, 111, 42]

/-- A letter or one of `2` to `7`. -/
def base32Digit (digit : Nat) : Char :=
  Char.ofNat (if digit < 26 then 97 + digit else 24 + digit)

def base32Text (bytes : List UInt8) : String :=
  let value := bytes.foldl (fun n b => n * 256 + b.toNat) 0
  let digits := (bytes.length * 8 + 4) / 5
  let padded := value * 2 ^ (digits * 5 - bytes.length * 8)
  String.ofList ((List.range digits).map fun i =>
    base32Digit (padded / 32 ^ (digits - 1 - i) % 32))

/-- An entry as the directory serves it: its CID, when it was created, and its operation. -/
abbrev Served := String × String × SignedPlcOp

def servedDid : String := "did:plc:h4gvvwg2wv5sd3jo5hkdeps2"

def Served.entry (e : Served) : AuditEntry where
  did := servedDid
  cid := e.1
  createdAt := e.2.1
  nullified := false
  operation := toValue e.2.2.toJson

def Served.json (e : Served) : Json :=
  .object [("did", .string servedDid), ("operation", e.2.2.toJson), ("cid", .string e.1),
    ("nullified", .bool false), ("createdAt", .string e.2.1)]

def servedLog (log : List Served) : Json :=
  .array (log.map Served.json)

/-- The crates as they answer on some documents, and on signatures of the sample. -/
def overrideCrates (docs : List Json) : PlcCrates where
  printJson := printPlain
  parseJson text := docs.find? fun j => printPlain j == text
  jsonError _ := "expected value at line 1 column 1"
  base64Encode _ := undoOp.sig
  base64Decode text := .ok
    (if text = phoneOp.sig then phoneSig else if text = undoOp.sig then undoSig else takeoverSig)
  sha256 := overrideHash
  base32 := base32Text
  multibaseDecode _ := .ok sampleMultikey
  p256 := {
    checkSignature := fun _ => .ok ()
    isHighS := fun _ => false
    checkKey := fun _ => .ok ()
    verify := fun _ _ sig => if sig = takeoverSig then .error "signature error" else .ok () }
  k256 := {
    checkSignature := fun _ => .ok ()
    isHighS := fun _ => false
    checkKey := fun _ => .ok ()
    verify := fun _ _ _ => .error "signature error" }

/-- Noon of 29 March 2026. -/
def overrideClock : RecoveryClock where
  now := 1774785600 * 1000000000
  parseRfc3339 text :=
    if text = "2026-03-29T11:00:00.000Z" then .ok (1774782000 * 1000000000)
    else if text = "2026-03-26T04:00:00.000Z" then .ok (1774497600 * 1000000000)
    else .error "input contains invalid characters"

def overrideSources (log : List Served) : WalletSources where
  fetchAuditLog _ := .ok (printPlain (servedLog log))
  getOrCreateDeviceKey _ := .ok sampleKey.uri
  perDidSignClosure _ := .ok fun _ => .ok undoSig

/-- A new identity. -/
def phoneLog : List Served :=
  [(phoneCid, "2026-01-10T09:00:00.000Z", phoneOp)]

/-- The server took the identity an hour ago. -/
def takenLog : List Served :=
  [(phoneCid, "2026-01-10T09:00:00.000Z", phoneOp),
    (takeoverCid, "2026-03-29T11:00:00.000Z", takeoverOp)]

/-- The server took the identity 80 hours ago, and changed its handle an hour ago. -/
def renamedLog : List Served :=
  [(phoneCid, "2026-01-10T09:00:00.000Z", phoneOp),
    (takeoverCid, "2026-03-26T04:00:00.000Z", takeoverOp),
    (renameCid, "2026-03-29T11:00:00.000Z", renameOp)]

theorem overrideCrates_reads {docs before after : List Json} {doc : Json}
    (hDocs : docs = before ++ doc :: after)
    (hBefore : ∀ d ∈ before, printPlain d ≠ printPlain doc) :
    (overrideCrates docs).parseJson (printPlain doc) = some doc := by
  apply List.find?_eq_some_iff_append.mpr
  exact ⟨beq_self_eq_true _, before, after, hDocs, fun d hd => by simpa using hBefore d hd⟩

theorem entriesOf_servedLog (log : List Served) :
    entriesOf (servedLog log) = some (log.map Served.entry) := by
  have hEntry : ∀ e : Served, AuditEntry.fromJson e.json = some e.entry := fun _ => rfl
  rw [servedLog, entriesOf]
  induction log with
  | nil => rfl
  | cons e log ih =>
    rw [List.map_cons, List.mapM_cons, hEntry, ih]
    rfl

theorem servedLog_parsed {docs : List Json} {log : List Served}
    (hFound : (overrideCrates docs).parseJson (printPlain (servedLog log)) =
      some (servedLog log)) :
    parseAuditLog (overrideCrates docs) (printPlain (servedLog log)) =
      .ok (log.map Served.entry) := by
  rw [parseAuditLog, hFound, Option.bind_eq_bind, Option.bind_some, entriesOf_servedLog]

theorem object_ne_array (members : List (String × Json)) (items : List Json) :
    printPlain (.object members) ≠ printPlain (.array items) := by
  intro h
  have hText : "\x7b" ++ ",".intercalate (printMembers members) ++ "\x7d" =
      "[" ++ ",".intercalate (printItems items) ++ "]" := h
  have hFirst := congrArg (fun text => text.toList.head?) hText
  simp at hFirst

/-- What the walk finds in either log. -/
def phoneState : VerifiedPlcOp where
  did := some (deriveDid (overrideCrates []) (PlcMessage.signed phoneOp).bytes)
  cid := computeCid (overrideCrates []) (PlcMessage.signed phoneOp).bytes
  prev := none
  rotationKeys := phoneOp.rotationKeys
  alsoKnownAs := phoneOp.alsoKnownAs
  verificationMethods := phoneOp.verificationMethods
  services := phoneOp.services

def phoneEntry : AuditEntry :=
  Served.entry (phoneCid, "2026-01-10T09:00:00.000Z", phoneOp)

def takeoverEntry : AuditEntry :=
  Served.entry (takeoverCid, "2026-03-26T04:00:00.000Z", takeoverOp)

/-- The documents that are read for either log. -/
def overrideDocs (log : List Served) : List Json :=
  [phoneEntry.operation, takeoverEntry.operation, undoOp.toJson, servedLog log]

theorem operations_apart :
    (∀ d ∈ [phoneEntry.operation], printPlain d ≠ printPlain takeoverEntry.operation) ∧
      ∀ d ∈ [phoneEntry.operation, takeoverEntry.operation],
        printPlain d ≠ printPlain undoOp.toJson := by
  decide +kernel

section Documents

variable (log : List Served)

theorem phone_read : (overrideCrates (overrideDocs log)).parseJson
    (printPlain phoneEntry.operation) = some phoneEntry.operation :=
  @overrideCrates_reads _ [] _ _ rfl (by simp)

theorem takeover_read : (overrideCrates (overrideDocs log)).parseJson
    (printPlain takeoverEntry.operation) = some takeoverEntry.operation :=
  overrideCrates_reads rfl operations_apart.1

theorem undoOp_read : (overrideCrates (overrideDocs log)).parseJson
    (printPlain undoOp.toJson) = some undoOp.toJson :=
  overrideCrates_reads rfl operations_apart.2

theorem log_read : (overrideCrates (overrideDocs log)).parseJson
    (printPlain (servedLog log)) = some (servedLog log) := by
  refine @overrideCrates_reads _ [_, _, _] _ _ rfl ?_
  intro d hd
  have hObject : ∃ members, d = .object members := by
    simp only [List.mem_cons, List.not_mem_nil, or_false] at hd
    rcases hd with rfl | rfl | rfl
    · exact ⟨_, toValue_toJson phoneOp⟩
    · exact ⟨_, toValue_toJson takeoverOp⟩
    · exact ⟨_, rfl⟩
  obtain ⟨members, rfl⟩ := hObject
  exact object_ne_array _ _

theorem phone_verified : verifyPlcOperation (overrideCrates (overrideDocs log))
    (printPlain phoneEntry.operation) [sampleKey] = .ok phoneState := by
  have hOp := parseSignedOp_of_read (phone_read log)
  have hSig : decodeSig (overrideCrates (overrideDocs log)) phoneOp = .ok phoneSig := rfl
  exact bind_ok.mpr ⟨(), rfl, bind_ok.mpr ⟨phoneOp, hOp, bind_ok.mpr ⟨(), rfl,
    bind_ok.mpr ⟨phoneSig, hSig, bind_ok.mpr ⟨(), rfl, rfl⟩⟩⟩⟩⟩

theorem takeover_unverified : (verifyPlcOperation (overrideCrates (overrideDocs log))
    (printPlain takeoverEntry.operation) [sampleKey]).isOk = false := by
  cases hVerified : verifyPlcOperation (overrideCrates (overrideDocs log))
      (printPlain takeoverEntry.operation) [sampleKey] with
  | error e => rfl
  | ok verified =>
    obtain ⟨op, sigBytes, hOp, hSig, ⟨key, hKey, hGood⟩, _⟩ := verifyPlcOperation_ok hVerified
    rw [takeover_read] at hOp
    obtain rfl : takeoverOp = op :=
      Option.some.inj ((fromJson_toValue takeoverOp).symm.trans hOp)
    have hTakeover : (overrideCrates (overrideDocs log)).base64Decode takeoverOp.sig =
        .ok takeoverSig := rfl
    obtain rfl : takeoverSig = sigBytes := Except.ok.inj (hTakeover.symm.trans hSig)
    obtain rfl := List.mem_singleton.mp hKey
    cases hGood

end Documents

theorem takenLog_fork : findForkPoint (overrideCrates (overrideDocs takenLog))
    (takenLog.map Served.entry) takeoverCid sampleKey = .ok (phoneEntry, phoneState) := by
  have hIdx : (takenLog.map Served.entry).findIdx? (fun e => e.cid == takeoverCid) = some 1 := by
    rfl
  rw [findForkPoint_of hIdx]
  exact walkBack_verified (phone_verified takenLog)

theorem takenLog_reads : TextsReadBack (overrideCrates (overrideDocs takenLog))
    (takenLog.map Served.entry) takeoverCid sampleKey where
  operations := by
    intro entry hEntry
    rcases List.mem_cons.mp hEntry with rfl | hEntry
    · exact congrArg (· >>= SignedPlcOp.fromJson) (phone_read takenLog)
    · obtain rfl := List.mem_singleton.mp hEntry
      exact congrArg (· >>= SignedPlcOp.fromJson) (takeover_read takenLog)
  counterOp fork state sigBytes hFork := by
    cases takenLog_fork.symm.trans hFork
    exact undoOp_read takenLog

/-- The override that is built for either log. -/
def overrideBuilt (log : List Served) : SignedRecoveryOp where
  diff := buildOpDiff (currentStateFromAuditLog (log.map Served.entry)) phoneState phoneCid
  signedOp := toValue undoOp.toJson

theorem overrideBuilt_run {log : List Served} {target : String} {entry : AuditEntry}
    (hFound : (log.map Served.entry).find? (fun e => e.cid == target) = some entry)
    (hFresh : Fresh overrideClock entry)
    (hFork : findForkPoint (overrideCrates (overrideDocs log)) (log.map Served.entry) target
      sampleKey = .ok (phoneEntry, phoneState)) :
    OverrideRun (overrideCrates (overrideDocs log)) overrideClock (overrideSources log) servedDid
      target (log.map Served.entry) sampleKey phoneEntry phoneState (overrideBuilt log) where
  fetched := ⟨_, rfl, servedLog_parsed (log_read log)⟩
  window := ⟨entry, hFound, hFresh⟩
  device := rfl
  forkPoint := hFork
  signed := by
    refine ⟨_, _, rfl, buildRotation_ok.mpr ⟨undoSig, rfl, ⟨rfl, rfl, rfl⟩, rfl⟩, ?_⟩
    exact parseValue_of_parseJson (undoOp_read log)
  diff := rfl

theorem takenLog_around : Around (takenLog.map Served.entry) takeoverCid [] phoneEntry []
    (Served.entry (takeoverCid, "2026-03-29T11:00:00.000Z", takeoverOp)) [] :=
  ⟨rfl, rfl, by decide, List.not_mem_nil⟩

theorem takenLog_run : OverrideRun (overrideCrates (overrideDocs takenLog)) overrideClock
    (overrideSources takenLog) servedDid takeoverCid (takenLog.map Served.entry) sampleKey
    phoneEntry phoneState (overrideBuilt takenLog) := by
  have hFresh : Fresh overrideClock
      (Served.entry (takeoverCid, "2026-03-29T11:00:00.000Z", takeoverOp)) :=
    ⟨1774782000 * 1000000000, rfl, by decide⟩
  exact overrideBuilt_run rfl hFresh takenLog_fork

theorem override_sound_iff_taken :
    buildRecoveryOverride (overrideCrates (overrideDocs takenLog)) overrideClock (overrideSources takenLog)
        servedDid takeoverCid = .ok (overrideBuilt takenLog) ∧
      SoundOverride (overrideCrates (overrideDocs takenLog)) overrideClock (takenLog.map Served.entry)
        takeoverCid sampleKey (overrideBuilt takenLog) := by
  refine ⟨takenLog_run.builds, (override_sound_iff takenLog_reads takenLog_run.fetched rfl
    takenLog_run.builds).mpr ?_⟩
  exact ⟨_, _, _, _, _, takenLog_around, isSignedBy_of_verified (phone_verified _), by simp,
    ⟨rfl, rfl⟩, ⟨phoneOp, fromJson_toValue phoneOp, by decide⟩, by simp⟩

theorem renamedLog_fork : findForkPoint (overrideCrates (overrideDocs renamedLog))
    (renamedLog.map Served.entry) renameCid sampleKey = .ok (phoneEntry, phoneState) := by
  have hIdx : (renamedLog.map Served.entry).findIdx? (fun e => e.cid == renameCid) = some 2 := by
    rfl
  have hBefore : ((renamedLog.map Served.entry).take 2).reverse = [takeoverEntry, phoneEntry] :=
    rfl
  rw [findForkPoint_of hIdx, hBefore, @walkBack_unverified _ _ takeoverEntry _
    (takeover_unverified renamedLog)]
  exact walkBack_verified (phone_verified _)

/-- The override of the change of handle also nullifies the takeover, which is 80 hours old. -/
theorem stale_takeover_nullified :
    buildRecoveryOverride (overrideCrates (overrideDocs renamedLog)) overrideClock (overrideSources renamedLog)
        servedDid renameCid = .ok (overrideBuilt renamedLog) ∧
      ¬ SoundOverride (overrideCrates (overrideDocs renamedLog)) overrideClock (renamedLog.map Served.entry)
        renameCid sampleKey (overrideBuilt renamedLog) := by
  have hFresh : Fresh overrideClock
      (Served.entry (renameCid, "2026-03-29T11:00:00.000Z", renameOp)) :=
    ⟨1774782000 * 1000000000, rfl, by decide⟩
  have hFound : (renamedLog.map Served.entry).find? (fun e => e.cid == renameCid) =
      some (Served.entry (renameCid, "2026-03-29T11:00:00.000Z", renameOp)) := by
    rfl
  refine ⟨(overrideBuilt_run hFound hFresh renamedLog_fork).builds, ?_⟩
  rintro ⟨older, fork, skipped, entry, newer, state, forkOp, hFork, hAround, -, -, -, hAll⟩
  cases renamedLog_fork.symm.trans hFork
  have hAfter : takeoverEntry ∈ skipped ++ entry :: newer := by
    have hLog : [phoneEntry, takeoverEntry,
        Served.entry (renameCid, "2026-03-29T11:00:00.000Z", renameOp)] =
      older ++ phoneEntry :: (skipped ++ entry :: newer) :=
      hAround.log.trans (List.append_assoc _ _ _)
    cases older with
    | nil =>
      rw [← (List.cons.inj hLog).2]
      exact List.mem_cons_self
    | cons e older =>
      have hAgain : phoneEntry ∈ [takeoverEntry,
          Served.entry (renameCid, "2026-03-29T11:00:00.000Z", renameOp)] := by
        rw [(List.cons.inj hLog).2]
        exact List.mem_append_right _ List.mem_cons_self
      exact absurd (List.mem_map_of_mem (f := AuditEntry.cid) hAgain) (by decide)
  obtain ⟨created, hCreated, hWindow⟩ := hAll takeoverEntry hAfter rfl
  have hParsed : overrideClock.parseRfc3339 takeoverEntry.createdAt =
      .ok (1774497600 * 1000000000) := rfl
  obtain rfl := Except.ok.inj (hParsed.symm.trans hCreated)
  exact absurd hWindow (by decide)

end Ezpds.Wallet
