import Ezpds.Library.CappedLog
import Ezpds.Wallet.PlcMonitor
import Mathlib.Data.UInt

/-!
# The history of the monitor's sweeps

Every sweep is folded into a history: a log of what the last sweeps found, and for each identity
of the last sweep when the directory last answered for it. A sweep that repeats the one before it
within five minutes takes the place of its entry.

* `identities_historyOf`: the times of the last answers.
* `numbers_historyOf`: which sweep each entry is of.
* `sweep_history_iff`: background sweeps keep entries of their own where none repeats another.
-/

namespace Ezpds.Wallet

open Library

/-! ## The fold -/

/-- The times that the wallet prints and reads; an instant is a number of nanoseconds. -/
structure Rfc3339 where
  toRfc3339 : Int → String
  parseFromRfc3339 : String → Option Int

def NANOS_PER_SEC : Int := 1000000000

def MAX_SWEEP_RECORDS : Nat := 20

def COALESCE_SECS : Int := 5 * 60

def MONITOR_INTERVAL_SECS : UInt64 := 15 * 60

structure SweepRecord where
  atIso : String
  trigger : SweepTrigger
  identitiesChecked : UInt32
  identitiesFailed : UInt32
  unauthorizedFound : UInt32
  deriving DecidableEq

structure IdentityLastChecked where
  did : String
  lastVerifiedAt : Option String
  deriving DecidableEq

structure MonitorHistory where
  sweeps : List SweepRecord
  identities : List IdentityLastChecked
  intervalSecs : UInt64

/-- `MonitorHistory::default` -/
def MonitorHistory.empty : MonitorHistory := ⟨[], [], 0⟩

/-- A completed sweep. The index of managed DIDs has no DID twice. -/
structure Sweep where
  statuses : List IdentityStatus
  trigger : SweepTrigger
  time : Int
  distinct : (statuses.map IdentityStatus.did).Nodup

section Fold

variable (times : Rfc3339)

def sweepRecord (sweep : Sweep) : SweepRecord where
  atIso := times.toRfc3339 sweep.time
  trigger := sweep.trigger
  identitiesChecked := UInt32.ofNat sweep.statuses.length
  identitiesFailed := UInt32.ofNat (sweep.statuses.filter IdentityStatus.checkFailed).length
  unauthorizedFound := (sweep.statuses.map fun s => UInt32.ofNat s.unauthorizedChanges.length).sum

def coalescesInto (newest : Option SweepRecord) (next : SweepRecord) (time : Int) : Bool :=
  match newest with
  | none => false
  | some newest =>
    if newest.trigger ≠ next.trigger || newest.identitiesChecked ≠ next.identitiesChecked ||
        newest.identitiesFailed ≠ next.identitiesFailed ||
        newest.unauthorizedFound ≠ next.unauthorizedFound then false
    else
      match times.parseFromRfc3339 newest.atIso with
      -- `num_seconds` rounds towards zero, and an earlier time counts as close
      | some prevAt => (time - prevAt).tdiv NANOS_PER_SEC < COALESCE_SECS
      | none => false

def lastChecked (prev : List IdentityLastChecked) (time : Int) (s : IdentityStatus) :
    IdentityLastChecked where
  did := s.did
  lastVerifiedAt :=
    if s.checkFailed then
      (prev.find? fun e => e.did == s.did).bind IdentityLastChecked.lastVerifiedAt
    else some (times.toRfc3339 time)

def foldSweep (prev : MonitorHistory) (sweep : Sweep) : MonitorHistory where
  sweeps :=
    place MAX_SWEEP_RECORDS
      (coalescesInto times prev.sweeps.head? (sweepRecord times sweep) sweep.time)
      (sweepRecord times sweep) prev.sweeps
  identities := sweep.statuses.map (lastChecked times prev.identities sweep.time)
  intervalSecs := MONITOR_INTERVAL_SECS

/-- The history after sweeps, the latest first. -/
def historyOf : List Sweep → MonitorHistory
  | [] => MonitorHistory.empty
  | sweep :: earlier => foldSweep times (historyOf earlier) sweep

end Fold

/-! ## What the history stands for -/

def Sweep.covers (did : String) (sweep : Sweep) : Bool :=
  sweep.statuses.any fun s => s.did == did

/-- The directory answered for the identity. -/
def Sweep.verified (did : String) (sweep : Sweep) : Bool :=
  sweep.statuses.any fun s => s.did == did && !s.checkFailed

section Law

variable (times : Rfc3339)

/-- The time of the latest answer since the identity has been in every sweep. -/
def lastVerified (run : List Sweep) (did : String) : Option String :=
  ((run.takeWhile (Sweep.covers did)).find? (Sweep.verified did)).map fun sweep =>
    times.toRfc3339 sweep.time

def expectedIdentities (run : List Sweep) : List IdentityLastChecked :=
  (run.head?.elim [] Sweep.statuses).map fun s => ⟨s.did, lastVerified times run s.did⟩

/-- The sweeps that the entries are of, by their numbers. -/
def entryNumbers : List Sweep → List Nat
  | [] => []
  | sweep :: earlier =>
    place MAX_SWEEP_RECORDS
      (coalescesInto times (historyOf times earlier).sweeps.head? (sweepRecord times sweep)
        sweep.time)
      earlier.length (entryNumbers earlier)

/-- The record of the sweep of a number. -/
def recordNumbered (run : List Sweep) (i : Nat) : Option SweepRecord :=
  run.reverse[i]?.map (sweepRecord times)

/-- The identities are those of the last sweep with the times of their last answers, every entry
is that of a sweep, and a background sweep has its entry until the log is full of newer ones. -/
structure HistoryLaw (run : List Sweep) : Prop where
  identities : (historyOf times run).identities = expectedIdentities times run
  entries : (historyOf times run).sweeps.map some =
    (entryNumbers times run).map (recordNumbered times run)
  numbered : Numbered run.length (entryNumbers times run)
  background : ∀ later sweep earlier, run = later ++ sweep :: earlier →
    sweep.trigger = .background → Kept MAX_SWEEP_RECORDS (entryNumbers times run) earlier.length

/-- The next sweep finds what the one before it found, and finishes less than five minutes after
it, or at an earlier time. -/
structure Repeats (prev next : Sweep) : Prop where
  checked : (sweepRecord times prev).identitiesChecked = (sweepRecord times next).identitiesChecked
  failed : (sweepRecord times prev).identitiesFailed = (sweepRecord times next).identitiesFailed
  found : (sweepRecord times prev).unauthorizedFound = (sweepRecord times next).unauthorizedFound
  readable : (times.parseFromRfc3339 (times.toRfc3339 prev.time)).isSome = true
  close : next.time < prev.time / NANOS_PER_SEC * NANOS_PER_SEC + COALESCE_SECS * NANOS_PER_SEC

/-- A time that is printed to the second and read back is the time cut to the second. -/
def Rfc3339.ReadsBack : Prop :=
  ∀ time read, times.parseFromRfc3339 (times.toRfc3339 time) = some read →
    read = time / NANOS_PER_SEC * NANOS_PER_SEC

end Law

/-! ## Identities -/

variable {times : Rfc3339} {run earlier : List Sweep} {sweep prev next : Sweep} {did : String}

theorem lastVerified_cons_of_not_covers (h : sweep.covers did = false) :
    lastVerified times (sweep :: earlier) did = none := by
  rw [lastVerified, List.takeWhile_cons, h]
  rfl

theorem lastVerified_cons (h : sweep.covers did = true) :
    lastVerified times (sweep :: earlier) did =
      if sweep.verified did then some (times.toRfc3339 sweep.time)
      else lastVerified times earlier did := by
  rw [lastVerified, List.takeWhile_cons, h, if_pos rfl, List.find?_cons]
  split
  · rename_i hVerified
    rw [hVerified]
    rfl
  · rename_i hFailed
    rw [hFailed]
    rfl

/-- An identity has one status in a sweep. -/
theorem verified_eq {s : IdentityStatus} (h : s ∈ sweep.statuses) :
    sweep.verified s.did = !s.checkFailed := by
  cases hFailed : s.checkFailed with
  | false =>
    exact List.any_eq_true.mpr ⟨s, h, by simp [hFailed]⟩
  | true =>
    rw [Sweep.verified, Bool.not_true, List.any_eq_false]
    intro other hOther hVerified
    rw [Bool.and_eq_true, beq_iff_eq] at hVerified
    have hSame := List.inj_on_of_nodup_map sweep.distinct hOther h hVerified.1
    rw [hSame, hFailed] at hVerified
    exact absurd hVerified.2 (by simp)

theorem find?_expected : ((expectedIdentities times run).find? fun e => e.did == did).bind
    IdentityLastChecked.lastVerifiedAt = lastVerified times run did := by
  cases run with
  | nil => rfl
  | cons sweep earlier =>
    rw [expectedIdentities, List.head?_cons, Option.elim_some, List.find?_map]
    cases hFind : sweep.statuses.find?
        ((fun e : IdentityLastChecked => e.did == did) ∘ fun s =>
          ⟨s.did, lastVerified times (sweep :: earlier) s.did⟩) with
    | none =>
      rw [lastVerified_cons_of_not_covers]
      · rfl
      · rw [Sweep.covers, List.any_eq_false]
        exact List.find?_eq_none.mp hFind
    | some s =>
      have hDid : s.did = did := by simpa using List.find?_some hFind
      rw [Option.map_some, Option.bind_some, hDid]

/-- The identities of the last sweep, each with the time of its last answer. -/
theorem identities_historyOf : (historyOf times run).identities = expectedIdentities times run := by
  induction run with
  | nil => rfl
  | cons sweep earlier ih =>
    rw [historyOf, foldSweep, expectedIdentities, List.head?_cons, Option.elim_some]
    apply List.map_congr_left
    intro s hs
    have hCovers : sweep.covers s.did = true := List.any_eq_true.mpr ⟨s, hs, by simp⟩
    rw [lastChecked, lastVerified_cons hCovers, verified_eq hs, ih, find?_expected]
    cases s.checkFailed with
    | false => rfl
    | true => rfl

/-! ## Entries -/

theorem numbered_entryNumbers : Numbered run.length (entryNumbers times run) := by
  induction run with
  | nil => exact ⟨List.Pairwise.nil, by simp [entryNumbers]⟩
  | cons sweep earlier ih => exact ih.place

theorem recordNumbered_self :
    recordNumbered times (sweep :: earlier) earlier.length = some (sweepRecord times sweep) := by
  rw [recordNumbered, List.reverse_cons, List.getElem?_append_right (by simp)]
  simp

theorem recordNumbered_cons {i : Nat} (h : i < earlier.length) :
    recordNumbered times (sweep :: earlier) i = recordNumbered times earlier i := by
  rw [recordNumbered, List.reverse_cons, List.getElem?_append_left (by simpa using h),
    recordNumbered]

/-- Which sweep each entry is of. -/
theorem numbers_historyOf : (historyOf times run).sweeps.map some =
    (entryNumbers times run).map (recordNumbered times run) := by
  induction run with
  | nil => rfl
  | cons sweep earlier ih =>
    have hEarlier : (entryNumbers times earlier).map (recordNumbered times (sweep :: earlier)) =
        (entryNumbers times earlier).map (recordNumbered times earlier) := by
      apply List.map_congr_left
      intro i hi
      exact recordNumbered_cons (numbered_entryNumbers.past i hi)
    rw [historyOf, foldSweep, entryNumbers, map_place, map_place, recordNumbered_self, ih, hEarlier]

theorem head?_place {α : Type*} {cap : Nat} {replaces : Bool} {entry : α} {log : List α}
    (hCap : 0 < cap) : (place cap replaces entry log).head? = some entry := by
  unfold place
  split
  · rfl
  · rw [List.head?_take, if_neg hCap.ne']
    rfl

/-- The newest entry is that of the last sweep. -/
theorem newest_historyOf :
    (historyOf times (sweep :: earlier)).sweeps.head? = some (sweepRecord times sweep) :=
  head?_place (by decide)

theorem newest_entryNumbers : (entryNumbers times (sweep :: earlier)).head? = some earlier.length :=
  head?_place (by decide)

theorem seconds_lt {elapsed : Int} :
    elapsed.tdiv NANOS_PER_SEC < COALESCE_SECS ↔ elapsed < COALESCE_SECS * NANOS_PER_SEC := by
  unfold NANOS_PER_SEC COALESCE_SECS
  rcases Int.le_total 0 elapsed with hLater | hEarlier
  · rw [Int.tdiv_eq_ediv_of_nonneg hLater]
    omega
  · obtain ⟨back, rfl⟩ : ∃ back, elapsed = -back := ⟨-elapsed, (Int.neg_neg elapsed).symm⟩
    rw [Int.neg_tdiv, Int.tdiv_eq_ediv_of_nonneg (by omega)]
    omega

/-- Which background sweeps take the place of the one before them. -/
theorem coalescesInto_iff (hRead : times.ReadsBack) :
    coalescesInto times (some (sweepRecord times prev)) (sweepRecord times next) next.time = true ↔
      prev.trigger = next.trigger ∧ Repeats times prev next := by
  have hTrigger : ∀ sweep, (sweepRecord times sweep).trigger = sweep.trigger := fun _ => rfl
  have hAt : (sweepRecord times prev).atIso = times.toRfc3339 prev.time := rfl
  rw [coalescesInto, hTrigger, hTrigger, hAt]
  constructor
  · intro h
    split at h
    · cases h
    · rename_i hSame
      simp only [ne_eq, decide_not, Bool.or_eq_true, Bool.not_eq_true', decide_eq_false_iff_not,
        not_or, not_not] at hSame
      obtain ⟨⟨⟨hTriggers, hChecked⟩, hFailed⟩, hFound⟩ := hSame
      split at h
      · rename_i prevAt hParse
        have hClose := seconds_lt.mp (of_decide_eq_true h)
        have hTime := hRead _ _ hParse
        exact ⟨hTriggers, hChecked, hFailed, hFound, by rw [hParse]; rfl, by omega⟩
      · cases h
  · rintro ⟨hTriggers, hChecked, hFailed, hFound, hReadable, hClose⟩
    obtain ⟨prevAt, hParse⟩ := Option.isSome_iff_exists.mp hReadable
    have hTime := hRead _ _ hParse
    rw [if_neg (by simp [hTriggers, hChecked, hFailed, hFound]), hParse]
    exact decide_eq_true (seconds_lt.mpr (by omega))

/-- A background sweep that is repeated by the next has no entry any more. -/
theorem repeated_not_kept (hRead : times.ReadsBack) (hNext : next.trigger = .background)
    (hPrev : prev.trigger = .background) (h : Repeats times prev next) :
    ¬ Kept MAX_SWEEP_RECORDS (entryNumbers times (next :: prev :: earlier)) earlier.length := by
  have hNumbered := @numbered_entryNumbers times (prev :: earlier)
  have hNewest := @newest_entryNumbers times earlier prev
  rw [entryNumbers, newest_historyOf, (coalescesInto_iff hRead).mpr ⟨hPrev.trans hNext.symm, h⟩]
  cases hLog : entryNumbers times (prev :: earlier) with
  | nil =>
    rw [hLog] at hNewest
    cases hNewest
  | cons newest rest =>
    rw [hLog, List.head?_cons, Option.some_inj] at hNewest
    rw [hLog, hNewest] at hNumbered
    rw [hNewest]
    exact not_kept_of_replaced (by decide) hNumbered

/-- No background sweep repeats the background sweep before it. -/
def BackgroundApart (times : Rfc3339) (run : List Sweep) : Prop :=
  ∀ later next prev earlier, run = later ++ next :: prev :: earlier →
    next.trigger = .background → prev.trigger = .background → ¬ Repeats times prev next

theorem BackgroundApart.tail (h : BackgroundApart times (sweep :: earlier)) :
    BackgroundApart times earlier := by
  intro later next prev before hRun
  exact h (sweep :: later) next prev before (by rw [hRun, List.cons_append])

/-- Every background sweep keeps its entry, as the sweeps come in. -/
theorem background_kept (hRead : times.ReadsBack) (hApart : BackgroundApart times run) :
    ∀ later sweep earlier, run = later ++ sweep :: earlier → sweep.trigger = .background →
      Kept MAX_SWEEP_RECORDS (entryNumbers times run) earlier.length := by
  induction run with
  | nil =>
    intro later sweep earlier hRun
    exact absurd hRun (by simp)
  | cons newest run ih =>
    intro later sweep earlier hRun hTrigger
    cases later with
    | nil =>
      obtain ⟨rfl, rfl⟩ := List.cons.inj hRun
      exact kept_place_self (by decide)
    | cons _ later =>
      rw [List.cons_append] at hRun
      obtain ⟨rfl, rfl⟩ := List.cons.inj hRun
      have hKept := ih hApart.tail later sweep earlier rfl hTrigger
      refine hKept.place numbered_entryNumbers (by rw [List.length_append, List.length_cons]; omega)
        fun hCoalesces hNewest => ?_
      -- the entry that is replaced is the last sweep's, so the sweep is the one before
      cases later with
      | nil =>
        rw [List.nil_append, newest_historyOf, coalescesInto_iff hRead] at hCoalesces
        exact hApart [] newest sweep earlier rfl (hCoalesces.1.symm.trans hTrigger) hTrigger
          hCoalesces.2
      | cons last later =>
        rw [List.cons_append, newest_entryNumbers, Option.some_inj] at hNewest
        simp at hNewest
        omega

/-- The history after every sweep of a run. -/
theorem sweep_history_iff (times : Rfc3339) (hRead : times.ReadsBack) (run : List Sweep) :
    (∀ stage, stage <:+ run → HistoryLaw times stage) ↔ BackgroundApart times run := by
  constructor
  · intro h later next prev earlier hRun hNext hPrev hRepeats
    have hLaw := h (next :: prev :: earlier) ⟨later, hRun.symm⟩
    exact repeated_not_kept hRead hNext hPrev hRepeats
      (hLaw.background [next] prev earlier rfl hPrev)
  · rintro h stage ⟨before, rfl⟩
    have hApart : BackgroundApart times stage := by
      intro later next prev earlier hRun
      exact h (before ++ later) next prev earlier (by rw [hRun, List.append_assoc])
    exact ⟨identities_historyOf, numbers_historyOf, numbered_entryNumbers,
      background_kept hRead hApart⟩

/-! Three times of a morning, and sweeps of one identity. -/

def morning : List (Int × String) :=
  [(1785060000, "2026-07-26T10:00:00Z"), (1785060120, "2026-07-26T10:02:00Z"),
    (1785060900, "2026-07-26T10:15:00Z")]

def morningTimes : Rfc3339 where
  toRfc3339 time := ((morning.find? fun e => e.1 == time / NANOS_PER_SEC).map Prod.snd).getD ""
  parseFromRfc3339 text :=
    (morning.find? fun e => e.2 == text).map fun e => e.1 * NANOS_PER_SEC

theorem morningTimes_readsBack : morningTimes.ReadsBack := by
  intro time read h
  simp only [morningTimes] at h
  cases hFind : morning.find? fun e => e.1 == time / NANOS_PER_SEC with
  | none =>
    have hUnread : morning.find? (fun e => e.2 == "") = none := by decide +kernel
    rw [hFind, Option.map_none, Option.getD_none, hUnread] at h
    cases h
  | some entry =>
    have hTime : entry.1 = time / NANOS_PER_SEC := by simpa using List.find?_some hFind
    have hRead : ∀ e ∈ morning, morning.find? (fun e' => e'.2 == e.2) = some e := by
      decide +kernel
    rw [hFind, Option.map_some, Option.getD_some, hRead entry (List.mem_of_find?_eq_some hFind),
      Option.map_some, hTime] at h
    exact (Option.some_inj.mp h).symm

/-- A background sweep of one identity. -/
def timerSweep (seconds : Int) (checkFailed : Bool) : Sweep where
  statuses := [⟨"did:plc:a", checkFailed, []⟩]
  trigger := .background
  time := seconds * NANOS_PER_SEC
  distinct := List.nodup_singleton _

def quietRun : List Sweep := [timerSweep 1785060900 true, timerSweep 1785060000 false]

theorem quietRun_apart : BackgroundApart morningTimes quietRun := by
  intro later next prev earlier hRun _ _ hRepeats
  cases later with
  | nil =>
    obtain ⟨rfl, hRest⟩ := List.cons.inj hRun
    obtain ⟨rfl, _⟩ := List.cons.inj hRest
    exact absurd hRepeats.close (by decide)
  | cons _ later =>
    have hLength := congrArg List.length hRun
    simp only [quietRun, List.length_append, List.length_cons, List.length_nil] at hLength
    omega

/-- The second sweep got no answer. -/
theorem sweep_history_iff_sample :
    (historyOf morningTimes quietRun).identities =
        [⟨"did:plc:a", some "2026-07-26T10:00:00Z"⟩] ∧
      Kept MAX_SWEEP_RECORDS (entryNumbers morningTimes quietRun) 0 := by
  have hLaw := (sweep_history_iff morningTimes morningTimes_readsBack quietRun).mpr quietRun_apart
    quietRun List.suffix_rfl
  refine ⟨?_, hLaw.background [timerSweep 1785060900 true] (timerSweep 1785060000 false) [] rfl rfl⟩
  rw [hLaw.identities]
  decide +kernel

/-- A sweep of the timer two minutes after one in the background leaves one entry for the two. -/
theorem sweep_history_replaced :
    (historyOf morningTimes [timerSweep 1785060120 false, timerSweep 1785060000 false]).sweeps =
        [sweepRecord morningTimes (timerSweep 1785060120 false)] ∧
      ¬ HistoryLaw morningTimes [timerSweep 1785060120 false, timerSweep 1785060000 false] := by
  refine ⟨by decide +kernel, fun hLaw => ?_⟩
  have hFirst := hLaw.background [timerSweep 1785060120 false] (timerSweep 1785060000 false) []
    rfl rfl
  rcases hFirst with hMem | hMany
  · exact absurd hMem (by decide +kernel)
  · exact absurd hMany (by decide +kernel)

end Ezpds.Wallet
