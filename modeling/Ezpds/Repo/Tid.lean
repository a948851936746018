import Ezpds.Library.FixedDigits
import Ezpds.Library.Run
import Ezpds.Repo.RecordPath
import Mathlib.Data.String.Basic

/-!
# Timestamp identifiers and commit revisions

A commit's `rev` is a TID: a 64-bit integer in 13 sortable base-32 digits. The encoding
is an order isomorphism between the integers below `2 ^ 64` and the valid TIDs, so
`next_commit_rev` is strictly above the rev that it replaces unless that rev is the last
TID of all, where its addition saturates.

* `isValidTid_iff`: the valid TIDs are the encoded 64-bit integers.
* `encodeTid_lt_iff`: TIDs compare as the integers that they encode.
* `commitRun_increasing_iff`: the revisions over a whole run of commits.
-/

namespace Ezpds.Repo

open Library

/-- `String::from_utf8` on bytes that are all ASCII. -/
def fromAscii (bytes : List UInt8) : String :=
  String.ofList (bytes.map fun b => Char.ofNat b.toNat)

def base32Sortable : List UInt8 :=
  strBytes "234567abcdefghijklmnopqrstuvwxyz"

/-- What the system gives `now_tid_int`: the microseconds since the UNIX epoch (`none`
for a clock before it) and a random word. -/
structure Clock where
  micros : Option Nat
  random : UInt32
  deriving DecidableEq, Repr

def nowTidInt (now : Clock) : Nat :=
  let micros := (now.micros.getD 0) % 2 ^ 64
  let clockId := (now.random &&& 0x3FF).toNat
  (micros <<< 10) % 2 ^ 64 ||| clockId

/-- The loop of `encode_tid`: it fills the array from its end, one digit a turn. -/
def encodeTidLoop : Nat → Nat → List UInt8 → List UInt8
  | 0, _, chars => chars
  | i + 1, v, chars => encodeTidLoop i (v >>> 5) (base32Sortable.getD (v &&& 0x1F) 0 :: chars)

def encodeTid (v : Nat) : String :=
  fromAscii (encodeTidLoop 13 v [])

def decodeTid (tid : String) : Nat :=
  (strBytes tid).foldl
    (fun v b => (v <<< 5) % 2 ^ 64 ||| (base32Sortable.findIdx? (· == b)).getD 0) 0

def saturatingAdd (v w : Nat) : Nat :=
  min (v + w) (2 ^ 64 - 1)

/-- `tidNew` is `Tid::new`, which keeps the text that it accepts. -/
def nextCommitRev (tidNew : String → Except String Unit) (now : Clock) (prevRev : String) :
    Except RecordError String :=
  let next := max (nowTidInt now) (saturatingAdd (decodeTid prevRev) 1)
  match tidNew (encodeTid next) with
  | .ok () => .ok (encodeTid next)
  | .error e => .error (.repo ("construct monotonic commit rev: " ++ e))

def isValidTid (value : String) : Bool :=
  if (strBytes value).length ≠ 13 then false
  else
    match value.toList with
    | [] => false
    | first :: rest =>
      "234567abcdefghij".toList.contains first &&
        rest.all ("234567abcdefghijklmnopqrstuvwxyz".toList.contains ·)

/-! ## The encoding is an order isomorphism -/

/-- The character of a digit. -/
def base32Char (d : Nat) : Char :=
  Char.ofNat (base32Sortable.getD d 0).toNat

def tidDigits (v : Nat) : List Nat :=
  fixedDigits 32 13 v

theorem base32Char_lt : ∀ d e, d < e → e < 32 → base32Char d < base32Char e := by
  have h : ∀ e < 32, ∀ d < e, base32Char d < base32Char e := by decide
  intro d e hde he
  exact h e he d hde

theorem encodeTidLoop_eq (n v : Nat) (chars : List UInt8) :
    encodeTidLoop n v chars =
      (fixedDigits 32 n v).map (base32Sortable.getD · 0) ++ chars := by
  induction n generalizing v chars with
  | zero => rfl
  | succ n ih =>
    have hDigit : v &&& 0x1F = v % 32 := Nat.and_two_pow_sub_one_eq_mod v 5
    have hShift : v >>> 5 = v / 32 := Nat.shiftRight_eq_div_pow v 5
    rw [encodeTidLoop, ih, hDigit, hShift, fixedDigits]
    simp

theorem toList_encodeTid (v : Nat) : (encodeTid v).toList = (tidDigits v).map base32Char := by
  simp [encodeTid, fromAscii, encodeTidLoop_eq, tidDigits, base32Char, List.map_map,
    Function.comp_def]

theorem strBytes_encoded {s : String} {ds : List Nat} (h : s.toList = ds.map base32Char)
    (hd : ∀ d ∈ ds, d < 32) : strBytes s = ds.map (base32Sortable.getD · 0) := by
  have hByte : ∀ d < 32,
      String.utf8EncodeChar (base32Char d) = [base32Sortable.getD d 0] := by decide
  rw [strBytes, h]
  clear h
  induction ds with
  | nil => rfl
  | cons d ds ih =>
    have hds := ih fun e he => hd e (List.mem_cons_of_mem _ he)
    rw [List.map_cons, List.flatMap_cons, hds, hByte d (hd d List.mem_cons_self)]
    rfl

/-- One turn of the loop of `decode_tid` on a character of the alphabet. -/
theorem decodeTid_turn {v d : Nat} (hd : d < 32) (hv : v * 32 + d < 2 ^ 64) :
    (v <<< 5) % 2 ^ 64 |||
      (base32Sortable.findIdx? (· == base32Sortable.getD d 0)).getD 0 = v * 32 + d := by
  have hIndex : ∀ d < 32,
      (base32Sortable.findIdx? (· == base32Sortable.getD d 0)).getD 0 = d := by decide
  have hShift : (v <<< 5) % 2 ^ 64 = v <<< 5 := by
    rw [Nat.shiftLeft_eq]
    apply Nat.mod_eq_of_lt
    omega
  have hOr : v <<< 5 ||| d = v <<< 5 + d := (Nat.shiftLeft_add_eq_or_of_lt hd v).symm
  rw [hIndex d hd, hShift, hOr, Nat.shiftLeft_eq]

theorem decodeTid_encoded {s : String} {ds : List Nat} (h : s.toList = ds.map base32Char)
    (hd : ∀ d ∈ ds, d < 32) (hv : digitsValue 32 ds < 2 ^ 64) :
    decodeTid s = digitsValue 32 ds := by
  rw [decodeTid, strBytes_encoded h hd]
  clear h
  induction ds using List.reverseRecOn with
  | nil => rfl
  | append_singleton ds d ih =>
    rw [digitsValue_append] at hv
    have hds := ih (fun e he => hd e (List.mem_append_left _ he)) (by omega)
    rw [List.map_append, List.foldl_append, hds, digitsValue_append]
    exact decodeTid_turn (hd d (by simp)) hv

theorem lt_of_mem_tidDigits {v d : Nat} (h : d ∈ tidDigits v) : d < 32 :=
  lt_of_mem_fixedDigits (by omega) h

theorem digitsValue_tidDigits {v : Nat} (h : v < 2 ^ 64) : digitsValue 32 (tidDigits v) = v := by
  rw [tidDigits, digitsValue_fixedDigits]
  apply Nat.mod_eq_of_lt
  omega

theorem decodeTid_encodeTid {v : Nat} (h : v < 2 ^ 64) : decodeTid (encodeTid v) = v := by
  have hValue := digitsValue_tidDigits h
  have hLt : digitsValue 32 (tidDigits v) < 2 ^ 64 := by
    rw [hValue]
    exact h
  rw [decodeTid_encoded (toList_encodeTid v) (fun _ => lt_of_mem_tidDigits) hLt, hValue]

/-- TIDs compare, as strings, as the integers that they encode. -/
theorem encodeTid_lt_iff {v w : Nat} (hv : v < 2 ^ 64) (hw : w < 2 ^ 64) :
    encodeTid v < encodeTid w ↔ v < w := by
  have hMem : ∀ u, ∀ d ∈ tidDigits u, d < 32 := fun _ _ => lt_of_mem_tidDigits
  calc encodeTid v < encodeTid w
      ↔ (tidDigits v).map base32Char < (tidDigits w).map base32Char := by
        rw [String.lt_iff_toList_lt, toList_encodeTid, toList_encodeTid]
    _ ↔ tidDigits v < tidDigits w :=
        map_digits_lt_iff (f := base32Char) base32Char_lt (hMem v) (hMem w)
    _ ↔ digitsValue 32 (tidDigits v) < digitsValue 32 (tidDigits w) :=
        lt_iff_digitsValue_lt (by simp [tidDigits]) (hMem v) (hMem w)
    _ ↔ v < w := by rw [digitsValue_tidDigits hv, digitsValue_tidDigits hw]

/-! ## Valid TIDs -/

theorem base32_first : "234567abcdefghij".toList = (List.range 16).map base32Char := by decide

theorem base32_alphabet :
    "234567abcdefghijklmnopqrstuvwxyz".toList = (List.range 32).map base32Char := by decide

/-- A string over the alphabet is the image of its digits. -/
theorem exists_digits {n : Nat} {cs : List Char}
    (h : ∀ c ∈ cs, c ∈ (List.range n).map base32Char) :
    ∃ ds : List Nat, cs = ds.map base32Char ∧ ∀ d ∈ ds, d < n := by
  induction cs with
  | nil => exact ⟨[], rfl, by simp⟩
  | cons c cs ih =>
    obtain ⟨ds, hcs, hds⟩ := ih fun e he => h e (List.mem_cons_of_mem _ he)
    obtain ⟨d, hd, hc⟩ := List.mem_map.mp (h c List.mem_cons_self)
    refine ⟨d :: ds, by rw [List.map_cons, hc, hcs], ?_⟩
    intro e he
    rcases List.mem_cons.mp he with rfl | he
    · exact List.mem_range.mp hd
    · exact hds e he

/-- The leading digit of a 64-bit integer is below 16: a TID has 65 bits to hold it. -/
theorem digitsValue_lt_iff {d : Nat} {ds : List Nat} (hLen : ds.length = 12)
    (hd : ∀ e ∈ ds, e < 32) : digitsValue 32 (d :: ds) < 2 ^ 64 ↔ d < 16 := by
  have hRest := digitsValue_lt hd
  rw [digitsValue_cons]
  rw [hLen] at hRest ⊢
  omega

theorem isValidTid_encoded {s : String} {d : Nat} {ds : List Nat}
    (h : s.toList = (d :: ds).map base32Char) (hLen : ds.length = 12) (hd : d < 16)
    (hds : ∀ e ∈ ds, e < 32) : isValidTid s = true := by
  have hAll : ∀ e ∈ d :: ds, e < 32 := by
    intro e he
    rcases List.mem_cons.mp he with rfl | he
    · omega
    · exact hds e he
  have hBytes : (strBytes s).length = 13 := by
    rw [strBytes_encoded h hAll]
    simp [hLen]
  rw [isValidTid, if_neg (by omega), h, base32_first, base32_alphabet]
  simp only [List.map_cons, Bool.and_eq_true, List.contains_iff_mem, List.all_eq_true]
  constructor
  · exact List.mem_map_of_mem (List.mem_range.mpr hd)
  · intro c hc
    obtain ⟨e, he, rfl⟩ := List.mem_map.mp hc
    exact List.mem_map_of_mem (List.mem_range.mpr (hds e he))

theorem isValidTid_digits {s : String} (h : isValidTid s = true) :
    ∃ d ds, s.toList = (d :: ds).map base32Char ∧ ds.length = 12 ∧ d < 16 ∧
      ∀ e ∈ ds, e < 32 := by
  by_cases hBytes : (strBytes s).length = 13
  · rw [isValidTid, if_neg (by omega)] at h
    cases hs : s.toList with
    | nil =>
      rw [hs] at h
      cases h
    | cons c cs =>
      rw [hs, base32_first, base32_alphabet] at h
      simp only [Bool.and_eq_true, List.contains_iff_mem, List.all_eq_true] at h
      obtain ⟨d, hd, hc⟩ := List.mem_map.mp h.1
      obtain ⟨ds, hcs, hds⟩ := exists_digits h.2
      have hToList : s.toList = (d :: ds).map base32Char := by
        rw [hs, List.map_cons, hc, hcs]
      have hd16 : d < 16 := List.mem_range.mp hd
      have hAll : ∀ e ∈ d :: ds, e < 32 := by
        intro e he
        rcases List.mem_cons.mp he with rfl | he
        · omega
        · exact hds e he
      rw [strBytes_encoded hToList hAll] at hBytes
      refine ⟨d, ds, by rw [← hs, hToList], ?_, hd16, hds⟩
      simpa using hBytes
  · rw [isValidTid, if_pos hBytes] at h
    cases h

theorem isValidTid_encodeTid {v : Nat} (h : v < 2 ^ 64) : isValidTid (encodeTid v) = true := by
  have hToList := toList_encodeTid v
  have hMem : ∀ d ∈ tidDigits v, d < 32 := fun _ => lt_of_mem_tidDigits
  have hLen : (tidDigits v).length = 13 := length_fixedDigits v
  have hValue := digitsValue_tidDigits h
  cases hDigits : tidDigits v with
  | nil => simp [hDigits] at hLen
  | cons d ds =>
    rw [hDigits] at hToList hMem hLen hValue
    have hLen12 : ds.length = 12 := by simpa using hLen
    have hds : ∀ e ∈ ds, e < 32 := fun e he => hMem e (List.mem_cons_of_mem _ he)
    have hd : d < 16 := by
      rw [← digitsValue_lt_iff hLen12 hds, hValue]
      exact h
    exact isValidTid_encoded hToList hLen12 hd hds

/-- The valid TIDs are exactly the encodings of the 64-bit integers. -/
theorem isValidTid_iff {s : String} :
    isValidTid s = true ↔ decodeTid s < 2 ^ 64 ∧ encodeTid (decodeTid s) = s := by
  constructor
  · intro h
    obtain ⟨d, ds, hToList, hLen, hd, hds⟩ := isValidTid_digits h
    have hAll : ∀ e ∈ d :: ds, e < 32 := by
      intro e he
      rcases List.mem_cons.mp he with rfl | he
      · omega
      · exact hds e he
    have hValue := (digitsValue_lt_iff hLen hds).mpr hd
    have hLen13 : (d :: ds).length = 13 := by simp [hLen]
    have hDigits := fixedDigits_digitsValue hAll
    rw [decodeTid_encoded hToList hAll hValue]
    refine ⟨hValue, ?_⟩
    rw [← String.toList_inj, toList_encodeTid, hToList, tidDigits, ← hLen13, hDigits]
  · rintro ⟨hValue, hEncode⟩
    rw [← hEncode]
    exact isValidTid_encodeTid hValue

theorem slash_notMem_of_isValidTid {s : String} (h : isValidTid s = true) : '/' ∉ s.toList := by
  have hChar : ∀ d < 32, base32Char d ≠ '/' := by decide
  obtain ⟨d, ds, hToList, _, hd, hds⟩ := isValidTid_digits h
  rw [hToList]
  intro hMem
  obtain ⟨e, he, hEq⟩ := List.mem_map.mp hMem
  rcases List.mem_cons.mp he with rfl | he
  · exact hChar e (by omega) hEq
  · exact hChar e (hds e he) hEq

/-! ## Runs of commits -/

/-- The encoding of `u64::MAX`. -/
def lastTid : String := "jzzzzzzzzzzzz"

/-- One commit at `now`, on a repository whose commits carry the revs `revs`, newest
first. -/
def commitRev (tidNew : String → Except String Unit) (revs : List String) (now : Clock) :
    Option (List String) :=
  match revs with
  | [] => none
  | prevRev :: older =>
    match nextCommitRev tidNew now prevRev with
    | .ok rev => some (rev :: prevRev :: older)
    | .error _ => none

theorem nowTidInt_lt (now : Clock) : nowTidInt now < 2 ^ 64 := by
  apply Nat.or_lt_two_pow
  · exact Nat.mod_lt _ (by omega)
  · have h := (now.random &&& 0x3FF).toNat_lt
    omega

theorem decodeTid_lastTid : decodeTid lastTid = 2 ^ 64 - 1 := by decide

variable {tidNew : String → Except String Unit}

/-- Valid TIDs compare as the integers that they decode to. -/
theorem lt_iff_decodeTid_lt {s t : String} (hs : isValidTid s = true) (ht : isValidTid t = true) :
    s < t ↔ decodeTid s < decodeTid t := by
  obtain ⟨hsValue, hsEncode⟩ := isValidTid_iff.mp hs
  obtain ⟨htValue, htEncode⟩ := isValidTid_iff.mp ht
  conv_lhs => rw [← hsEncode, ← htEncode]
  exact encodeTid_lt_iff hsValue htValue

theorem eq_lastTid_iff {s : String} (h : isValidTid s = true) :
    s = lastTid ↔ decodeTid s = 2 ^ 64 - 1 := by
  obtain ⟨_, hEncode⟩ := isValidTid_iff.mp h
  constructor
  · intro hEq
    rw [hEq]
    exact decodeTid_lastTid
  · intro hEq
    rw [← hEncode, hEq, ← decodeTid_lastTid]
    exact (isValidTid_iff.mp (by decide)).2

theorem le_lastTid {s : String} (h : isValidTid s = true) : s ≤ lastTid := by
  have hValue := (isValidTid_iff.mp h).1
  rw [← not_lt, lt_iff_decodeTid_lt (by decide) h, decodeTid_lastTid]
  omega

theorem next_lt (now : Clock) (prevRev : String) :
    max (nowTidInt now) (saturatingAdd (decodeTid prevRev) 1) < 2 ^ 64 := by
  have hNow := nowTidInt_lt now
  simp only [saturatingAdd]
  omega

/-- Whatever rev is replaced, the next one is a valid TID. -/
theorem nextCommitRev_valid (hNew : ∀ s, isValidTid s = true → tidNew s = .ok ()) (now : Clock)
    (prevRev : String) :
    ∃ rev, nextCommitRev tidNew now prevRev = .ok rev ∧ isValidTid rev = true := by
  have hValid := isValidTid_encodeTid (next_lt now prevRev)
  refine ⟨_, ?_, hValid⟩
  simp only [nextCommitRev, hNew _ hValid]

theorem nextCommitRev_eq {now : Clock} {prevRev rev : String}
    (hNext : nextCommitRev tidNew now prevRev = .ok rev) :
    rev = encodeTid (max (nowTidInt now) (saturatingAdd (decodeTid prevRev) 1)) ∧
      isValidTid rev = true := by
  rw [nextCommitRev] at hNext
  split at hNext
  · cases hNext
    exact ⟨rfl, isValidTid_encodeTid (next_lt now prevRev)⟩
  · cases hNext

/-- The next rev is valid, never below the rev that it replaces, and above it unless that is
the last TID. -/
theorem nextCommitRev_above {now : Clock} {prevRev rev : String} (h : isValidTid prevRev = true)
    (hNext : nextCommitRev tidNew now prevRev = .ok rev) :
    isValidTid rev = true ∧ prevRev ≤ rev ∧ (prevRev < rev ↔ prevRev ≠ lastTid) := by
  obtain ⟨hRev, hValid⟩ := nextCommitRev_eq hNext
  have hLt := next_lt now prevRev
  have hDecode : decodeTid rev = max (nowTidInt now) (saturatingAdd (decodeTid prevRev) 1) := by
    rw [hRev]
    exact decodeTid_encodeTid hLt
  have hValue := (isValidTid_iff.mp h).1
  simp only [saturatingAdd] at hDecode
  refine ⟨hValid, ?_, ?_⟩
  · rw [← not_lt, lt_iff_decodeTid_lt hValid h]
    omega
  · rw [lt_iff_decodeTid_lt h hValid, ne_eq, eq_lastTid_iff h]
    omega

/-- One commit: it succeeds with a valid rev, above the old one unless that is the last
TID. -/
theorem nextCommitRev_ok (hNew : ∀ s, isValidTid s = true → tidNew s = .ok ()) (now : Clock)
    {prevRev : String} (h : isValidTid prevRev = true) :
    ∃ rev, nextCommitRev tidNew now prevRev = .ok rev ∧ isValidTid rev = true ∧
      (prevRev < rev ↔ prevRev ≠ lastTid) := by
  obtain ⟨rev, hNext, hValid⟩ := nextCommitRev_valid hNew now prevRev
  exact ⟨rev, hNext, hValid, (nextCommitRev_above h hNext).2.2⟩

/-- The history of a repository that has a head: every rev is a valid TID. -/
def ValidHistory (revs : List String) : Prop :=
  revs ≠ [] ∧ ∀ rev ∈ revs, isValidTid rev = true

theorem commitRev_step (hNew : ∀ s, isValidTid s = true → tidNew s = .ok ())
    {revs : List String} (now : Clock) (h : ValidHistory revs) :
    ∃ rev, commitRev tidNew revs now = some (rev :: revs) ∧ ValidHistory (rev :: revs) ∧
      ((rev :: revs).IsChain (· > ·) ↔ revs.head? ≠ some lastTid ∧ revs.IsChain (· > ·)) := by
  obtain ⟨hNonempty, hValid⟩ := h
  cases revs with
  | nil => exact absurd rfl hNonempty
  | cons prevRev older =>
    obtain ⟨rev, hOk, hRev, hLt⟩ :=
      nextCommitRev_ok hNew now (hValid prevRev List.mem_cons_self)
    refine ⟨rev, ?_, ?_, ?_⟩
    · simp only [commitRev, hOk]
    · refine ⟨List.cons_ne_nil _ _, ?_⟩
      intro r hr
      rcases List.mem_cons.mp hr with rfl | hr
      · exact hRev
      · exact hValid r hr
    · rw [List.isChain_cons_cons, gt_iff_lt, hLt]
      simp

theorem commitRev_extends {revs revs' : List String} {now : Clock}
    (h : commitRev tidNew revs now = some revs') : ∃ rev, revs' = rev :: revs := by
  cases revs with
  | nil => cases h
  | cons prevRev older =>
    simp only [commitRev] at h
    cases hRev : nextCommitRev tidNew now prevRev with
    | error e => simp [hRev] at h
    | ok rev =>
      rw [hRev] at h
      cases h
      exact ⟨rev, rfl⟩

/-- From every valid rev and at all clock readings, every commit of a run succeeds with a
valid TID; the revs of the run increase strictly exactly when no commit replaces the last
TID. -/
theorem commitRun_increasing_iff (hNew : ∀ s, isValidTid s = true → tidNew s = .ok ())
    {prevRev : String} (hPrev : isValidTid prevRev = true) (clocks : List Clock) :
    ∃ revs, run (commitRev tidNew) [prevRev] clocks = some revs ∧
      (∀ rev ∈ revs, isValidTid rev = true) ∧
      (revs.IsChain (· > ·) ↔
        Along (commitRev tidNew) (fun revs _ => revs.head? ≠ some lastTid) [prevRev] clocks) := by
  have h0 : ValidHistory [prevRev] := ⟨List.cons_ne_nil _ _, by simpa using hPrev⟩
  have hStep : ∀ revs now revs', ValidHistory revs → commitRev tidNew revs now = some revs' →
      ValidHistory revs' ∧ (revs'.IsChain (· > ·) ↔
        revs.head? ≠ some lastTid ∧ revs.IsChain (· > ·)) := by
    intro revs now revs' hHistory hCommit
    obtain ⟨rev, hRun, hRest⟩ := commitRev_step hNew now hHistory
    rw [hCommit] at hRun
    cases hRun
    exact hRest
  have hTotal : ∀ revs now, ValidHistory revs →
      ∃ revs', commitRev tidNew revs now = some revs' ∧ ValidHistory revs' := by
    intro revs now hHistory
    obtain ⟨rev, hRun, hRest, _⟩ := commitRev_step hNew now hHistory
    exact ⟨rev :: revs, hRun, hRest⟩
  obtain ⟨revs, hRun, hHistory⟩ : ∃ revs, run (commitRev tidNew) [prevRev] clocks = some revs ∧
      ValidHistory revs := run_total hTotal h0
  refine ⟨revs, hRun, hHistory.2, ?_⟩
  apply run_guarded_iff (I := ValidHistory) (P := fun revs => revs.IsChain (· > ·)) _ _ _ h0
    (.singleton _) hRun
  · intro s now t hs ht
    exact (hStep s now t hs ht).1
  · intro s now t ht hChain
    obtain ⟨rev, rfl⟩ := commitRev_extends ht
    exact hChain.of_cons
  · intro s now t hs hChain ht
    rw [(hStep s now t hs ht).2]
    simp only [hChain, and_true]

/-- The clock of a run, the rev that it replaces, and a `Tid::new` that accepts what the
format says. -/
theorem commitRun_increasing_iff_resumed :
    isValidTid "3jzfcijpj2z2a" = true ∧
      ∃ revs, run (commitRev fun s => if isValidTid s then .ok () else .error "invalid TID")
          ["3jzfcijpj2z2a"] [⟨some 1700000000000000, 7⟩, ⟨some 5, 9⟩] = some revs ∧
        (∀ rev ∈ revs, isValidTid rev = true) ∧
        (revs.IsChain (· > ·) ↔
          Along (commitRev fun s => if isValidTid s then .ok () else .error "invalid TID")
            (fun revs _ => revs.head? ≠ some lastTid)
            ["3jzfcijpj2z2a"] [⟨some 1700000000000000, 7⟩, ⟨some 5, 9⟩]) :=
  ⟨by decide, commitRun_increasing_iff (fun s h => by rw [if_pos h]) (by decide) _⟩

/-- A repository whose head carries the last TID commits at that same rev again. -/
theorem commitRun_stuck_at_lastTid :
    isValidTid lastTid = true ∧
      run (commitRev fun s => if isValidTid s then .ok () else .error "invalid TID")
          [lastTid] [⟨some 1700000000000000, 7⟩] = some [lastTid, lastTid] ∧
      ¬ [lastTid, lastTid].IsChain (· > ·) := by
  decide

end Ezpds.Repo
