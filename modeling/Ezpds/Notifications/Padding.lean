import Ezpds.Data.Json
import Ezpds.Library.BaseText
import Ezpds.Library.Except
import Mathlib.Order.Bounds.Basic

/-!
# Padding of push notifications

The length of a push gives its kind away, so a payload is padded before it is sealed, until the
body that the relay sends has one of three lengths. Sealed bytes travel in base 64, where one
more byte is one or two more characters: the largest pad is searched downwards.

* `walkDown_ok`: the search ends at the largest pad that fits.
* `plaintextPadLen_lands`: the padded body ends at its bucket or one byte below.
* `sealFor_lands`: so does the body of every notification that is sent.
-/

namespace Ezpds.Notifications

open Library

def usizeMax : Nat := 2 ^ 64 - 1

/-- `isize::MAX` -/
def isizeMax : Nat := 2 ^ 63 - 1

/-- The length of a buffer: no allocation is larger. -/
abbrev BufferLen := {n : Nat // n ≤ isizeMax}

/-- Arithmetic on `usize` that leaves its range. -/
inductive Panic where
  | overflow
  deriving DecidableEq

def usizeAdd (a b : Nat) : Except Panic Nat :=
  if a + b ≤ usizeMax then .ok (a + b) else .error .overflow

def usizeMul (a b : Nat) : Except Panic Nat :=
  if a * b ≤ usizeMax then .ok (a * b) else .error .overflow

def usizeSub (a b : Nat) : Except Panic Nat :=
  if b ≤ a then .ok (a - b) else .error .overflow

def PADDING_BUCKETS : List Nat := [1024, 2048, 3584]

def padLenForBucket (unpaddedSerializedLen : Nat) : Except Panic (Option Nat) :=
  match PADDING_BUCKETS.find? fun bucket => bucket ≥ unpaddedSerializedLen with
  | none => .ok none
  | some bucket => (usizeSub bucket unpaddedSerializedLen).map some

def base64urlLen (n : Nat) : Except Panic Nat := do
  let groups ← usizeMul (n / 3) 4
  usizeAdd groups (match n % 3 with
    | 0 => 0
    | 1 => 2
    | _ => 3)

/-- The loop, from `pad` down. -/
def walkDown (unpaddedCtLen base budget : Nat) : Nat → Except Panic Nat
  | 0 => .ok 0
  | pad + 1 => do
    let ctLen ← usizeAdd unpaddedCtLen (pad + 1)
    let grown ← base64urlLen ctLen
    let growth ← usizeSub grown base
    if growth > budget then walkDown unpaddedCtLen base budget pad else .ok (pad + 1)

def plaintextPadLen (unpaddedCtLen unpaddedSerializedLen : Nat) : Except Panic (Option Nat) := do
  match ← padLenForBucket unpaddedSerializedLen with
  | none => .ok none
  | some budget =>
    let base ← base64urlLen unpaddedCtLen
    (walkDown unpaddedCtLen base budget budget).map some

/-! ## Arithmetic that stays in its range -/

theorem usizeAdd_ok {a b : Nat} (h : a + b ≤ usizeMax) : usizeAdd a b = .ok (a + b) :=
  if_pos h

theorem usizeMul_ok {a b : Nat} (h : a * b ≤ usizeMax) : usizeMul a b = .ok (a * b) :=
  if_pos h

theorem usizeSub_ok {a b : Nat} (h : b ≤ a) : usizeSub a b = .ok (a - b) :=
  if_pos h

/-- `base64url_len` counts the characters of the unpadded coding. -/
theorem base64urlLen_ok {n : Nat} (h : baseLength 6 n ≤ usizeMax) :
    base64urlLen n = .ok (baseLength 6 n) := by
  unfold baseLength at h ⊢
  have hGroups : n / 3 * 4 ≤ usizeMax := by omega
  have hTail : n / 3 * 4 + (match n % 3 with
      | 0 => 0
      | 1 => 2
      | _ => 3) = (8 * n + 6 - 1) / 6 := by
    have hMod : n % 3 = 0 ∨ n % 3 = 1 ∨ n % 3 = 2 := by omega
    rcases hMod with hMod | hMod | hMod
    · simp only [hMod]
      omega
    · simp only [hMod]
      omega
    · simp only [hMod]
      omega
  rw [base64urlLen]
  apply bind_ok.mpr
  refine ⟨_, usizeMul_ok hGroups, ?_⟩
  rw [← hTail] at h ⊢
  exact usizeAdd_ok h

/-- One more byte is one or two more characters. -/
theorem baseLength_step (n : Nat) :
    baseLength 6 n + 1 ≤ baseLength 6 (n + 1) ∧ baseLength 6 (n + 1) ≤ baseLength 6 n + 2 := by
  unfold baseLength
  omega

theorem baseLength_add (n pad : Nat) : baseLength 6 n + pad ≤ baseLength 6 (n + pad) := by
  induction pad with
  | zero => exact Nat.le_refl _
  | succ pad ih =>
    have hStep := (baseLength_step (n + pad)).1
    rw [Nat.add_assoc n pad 1] at hStep
    omega

theorem baseLength_mono {n m : Nat} (h : n ≤ m) : baseLength 6 n ≤ baseLength 6 m := by
  have hAdd := baseLength_add n (m - n)
  rw [Nat.add_sub_cancel' h] at hAdd
  omega

/-! ## The search -/

/-- The characters that a pad adds. -/
def padGrowth (unpaddedCtLen pad : Nat) : Nat :=
  baseLength 6 (unpaddedCtLen + pad) - baseLength 6 unpaddedCtLen

theorem le_padGrowth (unpaddedCtLen pad : Nat) : pad ≤ padGrowth unpaddedCtLen pad := by
  have hAdd := baseLength_add unpaddedCtLen pad
  unfold padGrowth
  omega

theorem padGrowth_succ (unpaddedCtLen pad : Nat) :
    padGrowth unpaddedCtLen (pad + 1) ≤ padGrowth unpaddedCtLen pad + 2 := by
  have hStep := (baseLength_step (unpaddedCtLen + pad)).2
  unfold padGrowth
  rw [← Nat.add_assoc]
  omega

theorem padGrowth_mono {unpaddedCtLen pad pad' : Nat} (h : pad ≤ pad') :
    padGrowth unpaddedCtLen pad ≤ padGrowth unpaddedCtLen pad' :=
  Nat.sub_le_sub_right (baseLength_mono (Nat.add_le_add_left h _)) _

/-- The search ends at the largest pad, of those it starts below, that fits. -/
theorem walkDown_ok {unpaddedCtLen budget start : Nat}
    (hFits : baseLength 6 (unpaddedCtLen + start) ≤ usizeMax) :
    ∃ pad, walkDown unpaddedCtLen (baseLength 6 unpaddedCtLen) budget start = .ok pad ∧
      IsGreatest {pad | pad ≤ start ∧ padGrowth unpaddedCtLen pad ≤ budget} pad := by
  induction start with
  | zero =>
    refine ⟨0, rfl, ⟨Nat.le_refl _, ?_⟩, fun pad hPad => hPad.1⟩
    rw [padGrowth, Nat.add_zero, Nat.sub_self]
    exact Nat.zero_le _
  | succ start ih =>
    have hLength : unpaddedCtLen + (start + 1) ≤ usizeMax := by
      have hAdd := baseLength_add 0 (unpaddedCtLen + (start + 1))
      rw [Nat.zero_add] at hAdd
      omega
    have hBase := @baseLength_mono unpaddedCtLen (unpaddedCtLen + (start + 1)) (by omega)
    have hTurn : walkDown unpaddedCtLen (baseLength 6 unpaddedCtLen) budget (start + 1) =
        if padGrowth unpaddedCtLen (start + 1) > budget then
          walkDown unpaddedCtLen (baseLength 6 unpaddedCtLen) budget start
        else .ok (start + 1) := by
      rw [walkDown, usizeAdd_ok hLength]
      show (base64urlLen _ >>= _) = _
      rw [base64urlLen_ok hFits]
      show (usizeSub _ _ >>= _) = _
      rw [usizeSub_ok hBase]
      rfl
    rw [hTurn]
    split
    · rename_i hOver
      have hBelow : baseLength 6 (unpaddedCtLen + start) ≤ usizeMax :=
        Nat.le_trans (baseLength_mono (by omega)) hFits
      obtain ⟨pad, hOk, hPad, hMax⟩ := ih hBelow
      refine ⟨pad, hOk, ⟨Nat.le_succ_of_le hPad.1, hPad.2⟩, ?_⟩
      rintro pad' ⟨hStart, hBudget⟩
      apply hMax
      refine ⟨?_, hBudget⟩
      by_contra hNot
      have hEq : pad' = start + 1 := by omega
      rw [hEq] at hBudget
      omega
    · rename_i hUnder
      exact ⟨start + 1, rfl, ⟨Nat.le_refl _, by omega⟩, fun pad hPad => hPad.1⟩

/-! ## Buckets -/

/-- The smallest bucket that holds the body. -/
def IsBucket (len bucket : Nat) : Prop :=
  IsLeast {bucket | bucket ∈ PADDING_BUCKETS ∧ len ≤ bucket} bucket

theorem isBucket_of_find {len bucket : Nat}
    (h : PADDING_BUCKETS.find? (fun bucket => decide (bucket ≥ len)) = some bucket) :
    IsBucket len bucket := by
  have hMem := List.mem_of_find?_eq_some h
  have hLen : len ≤ bucket := by simpa using List.find?_some h
  refine ⟨⟨hMem, hLen⟩, ?_⟩
  rintro bucket' ⟨hMem', hLen'⟩
  have hSorted : PADDING_BUCKETS.Pairwise (· ≤ ·) := by decide
  obtain ⟨_, before, after, hSplit, hBefore⟩ := List.find?_eq_some_iff_append.mp h
  rw [hSplit] at hSorted hMem'
  obtain ⟨_, hAfter, _⟩ := List.pairwise_append.mp hSorted
  rcases List.mem_append.mp hMem' with hEarlier | hLater
  · have hNot := hBefore bucket' hEarlier
    simp only [ge_iff_le, hLen', decide_true, Bool.not_true, Bool.false_eq_true] at hNot
  · rcases List.mem_cons.mp hLater with rfl | hLater
    · exact Nat.le_refl _
    · exact (List.pairwise_cons.mp hAfter).1 _ hLater

theorem padLenForBucket_ok (len : Nat) :
    (padLenForBucket len = .ok none ∧ ∀ bucket ∈ PADDING_BUCKETS, bucket < len) ∨
      ∃ bucket, padLenForBucket len = .ok (some (bucket - len)) ∧ IsBucket len bucket := by
  unfold padLenForBucket
  cases hFind : PADDING_BUCKETS.find? fun bucket => decide (bucket ≥ len) with
  | none =>
    refine .inl ⟨rfl, fun bucket hMem => ?_⟩
    simpa using List.find?_eq_none.mp hFind bucket hMem
  | some bucket =>
    have hBucket := isBucket_of_find hFind
    refine .inr ⟨bucket, ?_, hBucket⟩
    show (usizeSub bucket len).map some = _
    rw [usizeSub_ok hBucket.1.2]
    rfl

theorem IsBucket.unique {len bucket bucket' : Nat} (h : IsBucket len bucket)
    (h' : IsBucket len bucket') : bucket = bucket' :=
  IsLeast.unique h h'

/-- A body that is padded: the bytes of the ciphertext are written in base 64. -/
def paddedLen (unpaddedCtLen unpaddedSerializedLen pad : Nat) : Nat :=
  unpaddedSerializedLen + padGrowth unpaddedCtLen pad

/-- The largest pad for the bucket, and how close it comes. -/
theorem plaintextPadLen_ok (ctLen : BufferLen) (len : Nat) :
    (plaintextPadLen ctLen len = .ok none ∧ ∀ bucket ∈ PADDING_BUCKETS, bucket < len) ∨
      ∃ pad bucket, plaintextPadLen ctLen len = .ok (some pad) ∧ IsBucket len bucket ∧
        IsGreatest {pad | paddedLen ctLen len pad ≤ bucket} pad ∧
        bucket ≤ paddedLen ctLen len pad + 1 := by
  rcases padLenForBucket_ok len with ⟨hBudget, hTooLong⟩ | ⟨bucket, hBudget, hBucket⟩
  · refine .inl ⟨bind_ok.mpr ⟨none, hBudget, rfl⟩, hTooLong⟩
  · have hLen : len ≤ bucket := hBucket.1.2
    have hSmall : bucket ≤ 3584 :=
      (by decide : ∀ bucket ∈ PADDING_BUCKETS, bucket ≤ 3584) bucket hBucket.1.1
    have hFits : baseLength 6 (ctLen + (bucket - len)) ≤ usizeMax := by
      have hCt : ctLen.val ≤ 2 ^ 63 - 1 := ctLen.property
      simp only [baseLength, usizeMax]
      omega
    have hBase : baseLength 6 ctLen ≤ usizeMax :=
      Nat.le_trans (baseLength_mono (Nat.le_add_right _ _)) hFits
    obtain ⟨pad, hWalk, ⟨hStart, hGrowth⟩, hMax⟩ := @walkDown_ok ctLen (bucket - len) _ hFits
    refine .inr ⟨pad, bucket, ?_, hBucket, ⟨?_, ?_⟩, ?_⟩
    · apply bind_ok.mpr
      refine ⟨some (bucket - len), hBudget, ?_⟩
      apply bind_ok.mpr
      refine ⟨_, base64urlLen_ok hBase, ?_⟩
      rw [hWalk]
      rfl
    · show len + padGrowth ctLen pad ≤ bucket
      omega
    · intro pad' hPad'
      have hOver : len + padGrowth ctLen pad' ≤ bucket := hPad'
      have hLe := le_padGrowth ctLen pad'
      exact hMax ⟨by omega, by omega⟩
    · show bucket ≤ len + padGrowth ctLen pad + 1
      have hReach := le_padGrowth ctLen pad
      by_cases hTop : pad = bucket - len
      · omega
      · -- the next pad overshoots
        have hNext : ¬ padGrowth ctLen (pad + 1) ≤ bucket - len := by
          intro hNext
          have hMore : pad + 1 ≤ pad := hMax ⟨by omega, hNext⟩
          omega
        have hStep := padGrowth_succ ctLen pad
        omega

/-- The pad is the largest for which the body does not exceed its bucket, and the bodies of one
bucket differ by one byte at most. -/
theorem plaintextPadLen_lands (ctLen : BufferLen) (len : Nat) :
    ∃ result, plaintextPadLen ctLen len = .ok result ∧
      (result = none ↔ ∀ bucket ∈ PADDING_BUCKETS, bucket < len) ∧
      ∀ pad, result = some pad → ∃ bucket, IsBucket len bucket ∧
        IsGreatest {pad | paddedLen ctLen len pad ≤ bucket} pad ∧
        bucket ≤ paddedLen ctLen len pad + 1 ∧
        ∀ (ctLen' : BufferLen) (len' pad' : Nat),
          plaintextPadLen ctLen' len' = .ok (some pad') → IsBucket len' bucket →
          paddedLen ctLen len pad ≤ paddedLen ctLen' len' pad' + 1 := by
  rcases plaintextPadLen_ok ctLen len with ⟨hOk, hTooLong⟩ | ⟨pad, bucket, hOk, hBucket, hMax, hEnd⟩
  · exact ⟨none, hOk, iff_of_true rfl hTooLong, fun pad hPad => absurd hPad (by simp)⟩
  · have hHolds : ¬ ∀ bucket ∈ PADDING_BUCKETS, bucket < len := by
      intro hAll
      have hLt := hAll bucket hBucket.1.1
      have hLe := hBucket.1.2
      omega
    refine ⟨some pad, hOk, iff_of_false (by simp) hHolds, ?_⟩
    intro pad₁ hPad
    cases hPad
    refine ⟨bucket, hBucket, hMax, hEnd, ?_⟩
    intro ctLen' len' pad' hOk' hBucket'
    have hFits : paddedLen ctLen len pad ≤ bucket := hMax.1
    rcases plaintextPadLen_ok ctLen' len' with ⟨hNone, _⟩ | ⟨pad₁, bucket₁, hSome, hOwn, _, hEnd'⟩
    · rw [hNone] at hOk'
      cases hOk'
    · rw [hSome] at hOk'
      cases hOk'
      rw [hOwn.unique hBucket'] at hEnd'
      omega

theorem plaintextPadLen_lands_sample : plaintextPadLen 100 3585 = .ok none := by
  obtain ⟨result, hOk, hNone, _⟩ := plaintextPadLen_lands ⟨100, by decide⟩ 3585
  rw [hNone.mpr (by decide)] at hOk
  exact hOk

/-! ## Sealing -/

structure NotificationPayload where
  kind : String
  title : String
  body : String
  data : Option Json
  pad : String

structure SealedNotification where
  enc : List UInt8
  ct : List UInt8

/-- What is not part of the repository: `serde_json::to_vec` of a payload, and HPKE. -/
structure SealCrates where
  toVec : NotificationPayload → Option (List UInt8)
  sealNotification : List UInt8 → List UInt8 → List UInt8 → Option SealedNotification

/-- A blank of the pad is one byte of the plaintext, and sealing adds the tag and a point. -/
structure SealCrates.Lawful (crates : SealCrates) : Prop where
  pad : ∀ payload bytes n, payload.pad = "" → crates.toVec payload = some bytes →
    ∃ padded, crates.toVec { payload with pad := String.ofList (List.replicate n ' ') } =
      some padded ∧ padded.length = bytes.length + n
  buffer : ∀ payload bytes, crates.toVec payload = some bytes → bytes.length + 16 ≤ isizeMax
  lengths : ∀ secret recipient plaintext sealedText,
    crates.sealNotification secret recipient plaintext = some sealedText →
      sealedText.enc.length = 65 ∧ sealedText.ct.length = plaintext.length + 16

def AEAD_TAG_LEN : Nat := 16

def P256_POINT_LEN : Nat := 65

def base64urlSymbol (d : Nat) : Char :=
  Char.ofNat (if d < 26 then 65 + d else if d < 52 then 71 + d else if d < 62 then d - 4
    else if d = 62 then 45 else 95)

def base64url (bytes : List UInt8) : List Char :=
  baseEncode 6 base64urlSymbol bytes

/-- The body that the relay sends, as `serde_json` writes `apns_envelope`: the keys of an object
are in order, and no character of the coding is escaped. -/
def apnsEnvelope (kid : Nat) (enc ct : List Char) : List Char :=
  "\x7b\"aps\":\x7b\"alert\":\x7b\"body\":\"Encrypted notification\",\"title\":\"Custos\"\x7d,".toList ++
  "\"mutable-content\":1\x7d,\"ezpds\":\x7b\"ct\":\"".toList ++ ct ++
  "\",\"enc\":\"".toList ++ enc ++ "\",\"kid\":".toList ++
  ((toString kid).toList ++ ",\"v\":1\x7d\x7d".toList)

/-- `kid as u32` -/
def kidAsU32 (kid : Int) : Nat := (kid % 2 ^ 32).toNat

section Seal

variable (crates : SealCrates)

/-- The inner `none` is a payload that is not sent. -/
def padLenFor (kid : Int) (payload : NotificationPayload) : Except Panic (Option Nat) := do
  match crates.toVec payload with
  | none => .ok none
  | some bytes =>
    let unpaddedCtLen ← usizeAdd bytes.length AEAD_TAG_LEN
    let encLen ← base64urlLen P256_POINT_LEN
    let ctLen ← base64urlLen unpaddedCtLen
    let envelope := apnsEnvelope (kidAsU32 kid) (List.replicate encLen 'A')
      (List.replicate ctLen 'A')
    plaintextPadLen unpaddedCtLen envelope.length

def sealFor (kid : Int) (senderSecret recipientPublicKey : List UInt8)
    (payload : NotificationPayload) : Except Panic (Option SealedNotification) := do
  match ← padLenFor crates kid payload with
  | none => .ok none
  | some padLen =>
    let padded := { payload with pad := String.ofList (List.replicate padLen ' ') }
    match crates.toVec padded with
    | none => .ok none
    | some plaintext =>
      .ok (crates.sealNotification senderSecret recipientPublicKey plaintext)

variable {crates}

/-- Two texts in a frame of others. -/
theorem length_framed (a b c d e ct enc : List Char) :
    (a ++ b ++ ct ++ c ++ enc ++ d ++ e).length =
      (a ++ b ++ [] ++ c ++ [] ++ d ++ e).length + enc.length + ct.length := by
  simp only [List.length_append, List.length_nil]
  omega

theorem length_apnsEnvelope (kid : Nat) (enc ct : List Char) :
    (apnsEnvelope kid enc ct).length =
      (apnsEnvelope kid [] []).length + enc.length + ct.length := by
  unfold apnsEnvelope
  exact length_framed _ _ _ _ _ _ _

theorem length_base64url (bytes : List UInt8) :
    (base64url bytes).length = baseLength 6 bytes.length := by
  rw [base64url, baseEncode, List.length_map, length_fixedDigits]

/-- The body of a notification that is sent ends at a bucket or one byte below. -/
theorem sealFor_lands (hCrates : crates.Lawful) {kid : Int} {secret recipient : List UInt8}
    {payload : NotificationPayload} (hPad : payload.pad = "") {sealedText : SealedNotification}
    (h : sealFor crates kid secret recipient payload = .ok (some sealedText)) :
    ∃ bucket ∈ PADDING_BUCKETS,
      (apnsEnvelope (kidAsU32 kid) (base64url sealedText.enc)
        (base64url sealedText.ct)).length ≤ bucket ∧
      bucket ≤ (apnsEnvelope (kidAsU32 kid) (base64url sealedText.enc)
        (base64url sealedText.ct)).length + 1 := by
  obtain ⟨result, hLen, h⟩ := bind_ok.mp h
  cases result with
  | none => cases h
  | some padLen =>
    dsimp only at h
    unfold padLenFor at hLen
    cases hVec : crates.toVec payload with
    | none =>
      rw [hVec] at hLen
      cases hLen
    | some bytes =>
      have hBuffer := hCrates.buffer _ _ hVec
      have hSum : bytes.length + AEAD_TAG_LEN ≤ usizeMax := Nat.le_trans hBuffer (by decide)
      have hCtLen : baseLength 6 (bytes.length + AEAD_TAG_LEN) ≤ usizeMax := by
        have hSmall : bytes.length + 16 ≤ 2 ^ 63 - 1 := hBuffer
        simp only [baseLength, usizeMax, AEAD_TAG_LEN]
        omega
      have hEnc : base64urlLen P256_POINT_LEN = .ok (baseLength 6 P256_POINT_LEN) := rfl
      rw [hVec] at hLen
      dsimp only at hLen
      rw [usizeAdd_ok hSum, hEnc] at hLen
      obtain ⟨_, hTail, hLen⟩ := bind_ok.mp hLen
      cases hTail
      obtain ⟨_, hTail, hLen⟩ := bind_ok.mp hLen
      cases hTail
      rw [base64urlLen_ok hCtLen] at hLen
      obtain ⟨_, hTail, hLen⟩ := bind_ok.mp hLen
      cases hTail
      obtain ⟨padded, hPadded, hLength⟩ := hCrates.pad _ _ padLen hPad hVec
      rw [hPadded] at h
      obtain ⟨hEncLength, hCtLength⟩ := hCrates.lengths _ _ _ _ (Except.ok.inj h)
      rcases plaintextPadLen_ok ⟨_, hBuffer⟩ (apnsEnvelope (kidAsU32 kid)
          (List.replicate (baseLength 6 P256_POINT_LEN) 'A')
          (List.replicate (baseLength 6 (bytes.length + AEAD_TAG_LEN)) 'A')).length with
        ⟨hNone, _⟩ | ⟨pad, bucket, hSome, hBucket, hMax, hEnd⟩
      · cases hNone.symm.trans hLen
      · cases hSome.symm.trans hLen
        have hFits : paddedLen _ _ padLen ≤ bucket := hMax.1
        have hGrown := @baseLength_mono (bytes.length + 16) (bytes.length + 16 + padLen) (by omega)
        refine ⟨bucket, hBucket.1.1, ?_⟩
        rw [length_apnsEnvelope, length_base64url, length_base64url, hEncLength, hCtLength, hLength]
        rw [paddedLen, length_apnsEnvelope, List.length_replicate, List.length_replicate,
          padGrowth] at hFits hEnd
        simp only [P256_POINT_LEN, AEAD_TAG_LEN] at hFits hEnd
        rw [Nat.add_right_comm bytes.length padLen 16]
        omega

end Seal

end Ezpds.Notifications
