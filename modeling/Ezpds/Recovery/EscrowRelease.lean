import Ezpds.Library.Run
import Mathlib.Data.List.Infix

/-!
# The release of an escrowed share

The server holds one share of an account and hands it out after a delay that the owner can use
to cancel. Every statement or transaction on the database is one step; what a request has read
and not yet used is its flight. The share is kept as the text that a delivery hands out: the
wrapping under the master key is undone before the transaction and changes nothing in it. The
log tells what has happened to the escrow row, newest first.

A delivery clears whatever release is in flight and hands out the share that its request has
read. `Undisturbed` is the condition on the opening of a release under which both are the ones
that the delivery is for.

* `releases_answer`: over every run within the condition, a share is handed out right after the
  request it answers, a full delay later, and is the share stored then.
* `disturbed_delivery`: outside the condition the next step can hand out a share early.
* `reopened_release_delivered`: a release is cancelled and opened again between the read and the
  clear of a poll.
-/

namespace Ezpds.Recovery

open Library

/-- A row of `recovery_escrow`; the release columns are both set or both null. -/
structure EscrowRow where
  share : String
  releaseRequestedAt : Option Nat
  releasePendingUntil : Option Nat
  deriving DecidableEq, Repr

structure OtpRow where
  tokenHash : String
  expiresAt : Nat
  usedAt : Option Nat
  deriving DecidableEq, Repr

/-- A request between two of its statements. -/
inductive Flight where
  | consumed (otp : String)
  | read (otp share : String)
  | ready (share : String)
  deriving DecidableEq, Repr

inductive Event where
  | deposited (share : String)
  | replaced (share : String)
  | deleted
  | requested (otp : String) (instant : Nat)
  | cancelled
  | released (share : String) (instant : Nat)
  deriving DecidableEq, Repr

structure State where
  now : Nat
  escrow : Option EscrowRow
  otps : List OtpRow
  flights : List Flight
  log : List Event
  deriving DecidableEq, Repr

inductive Action where
  | tick
  | initiate (tokenHash : String)
  | putEscrowShare (share : String)
  | deleteEscrowShare
  | cancel
  | consumeOtp (tokenHash : String)
  | readForOpen (otp : String)
  | openRelease (otp share : String)
  | poll
  | deliver (share : String)
  | abandon (flight : Flight)
  deriving DecidableEq, Repr

/-! ## Statements -/

namespace EscrowRow

/-- Both release columns back to null. -/
def cleared (row : EscrowRow) : EscrowRow :=
  { row with releaseRequestedAt := none, releasePendingUntil := none }

def inFlight (row : EscrowRow) : Bool := row.releaseRequestedAt.isSome

def available (now : Nat) (row : EscrowRow) : Bool :=
  row.releasePendingUntil.any fun pendingUntil => pendingUntil ≤ now

@[simp] theorem cleared_share (row : EscrowRow) : row.cleared.share = row.share := rfl

@[simp] theorem cleared_inFlight (row : EscrowRow) : row.cleared.inFlight = false := rfl

end EscrowRow

/-- The rows that `consume_recovery_otp` marks as used. -/
def OtpRow.live (tokenHash : String) (now : Nat) (row : OtpRow) : Bool :=
  row.tokenHash = tokenHash && row.usedAt.isNone && decide (now < row.expiresAt)

def consumeRecoveryOtp (tokenHash : String) (now : Nat) (otps : List OtpRow) : List OtpRow :=
  otps.map fun row => if row.live tokenHash now then { row with usedAt := some now } else row

def spent (otps : List OtpRow) (tokenHash : String) : Prop :=
  ∃ row ∈ otps, row.tokenHash = tokenHash ∧ row.usedAt.isSome = true

namespace Machine

/-- `delay` is `release_delay_secs`. -/
def step (delay : Nat) (s : State) : Action → Option State
  | .tick => some { s with now := s.now + 1 }
  | .initiate tokenHash =>
    -- the primary key, and a lifetime of an hour
    if tokenHash ∈ s.otps.map OtpRow.tokenHash then none
    else some { s with otps := ⟨tokenHash, s.now + 3600, none⟩ :: s.otps }
  | .putEscrowShare share =>
    match s.escrow with
    | none => some { s with
        escrow := some ⟨share, none, none⟩
        log := .deposited share :: s.log }
    | some row => some { s with
        escrow := some { row.cleared with share := share }
        log := .replaced share :: s.log }
  | .deleteEscrowShare =>
    match s.escrow with
    | none => some s
    | some _ => some { s with escrow := none, log := .deleted :: s.log }
  | .cancel =>
    match s.escrow with
    | none => some s
    | some row =>
      if row.inFlight then
        some { s with escrow := some row.cleared, log := .cancelled :: s.log }
      else some s
  | .consumeOtp tokenHash =>
    if s.otps.any (OtpRow.live tokenHash s.now) then
      some { s with
        otps := consumeRecoveryOtp tokenHash s.now s.otps
        flights := .consumed tokenHash :: s.flights }
    else some s
  | .readForOpen otp =>
    if .consumed otp ∈ s.flights then
      let flights := s.flights.erase (.consumed otp)
      match s.escrow with
      | none => some { s with flights := flights }
      | some row => some { s with flights := .read otp row.share :: flights }
    else none
  | .openRelease otp share =>
    if .read otp share ∈ s.flights then
      -- without a delay the share read before is handed out next
      let flights := s.flights.erase (.read otp share)
      let flights := if delay = 0 then .ready share :: flights else flights
      match s.escrow with
      | none => some { s with flights := flights }
      | some row => some { s with
          escrow := some { row with
            releaseRequestedAt := some s.now
            releasePendingUntil := some (s.now + delay) }
          flights := flights
          log := .requested otp s.now :: s.log }
    else none
  | .poll =>
    match s.escrow with
    | none => some s
    | some row =>
      if row.inFlight && row.available s.now then
        some { s with flights := .ready row.share :: s.flights }
      else some s
  | .deliver share =>
    if .ready share ∈ s.flights then
      let flights := s.flights.erase (.ready share)
      match s.escrow with
      | none => some { s with flights := flights }
      | some row =>
        -- the clear asks for a release in flight, not for the one that was read
        if row.inFlight then
          some { s with
            escrow := some row.cleared
            flights := flights
            log := .released share s.now :: s.log }
        else some { s with flights := flights }
    else none
  | .abandon flight =>
    if flight ∈ s.flights then some { s with flights := s.flights.erase flight } else none

end Machine

/-! ## What a release owes -/

/-- The share that the log has stored. -/
def stored : List Event → Option String
  | [] => none
  | .deposited share :: _ => some share
  | .replaced share :: _ => some share
  | .deleted :: _ => none
  | .requested .. :: past => stored past
  | .cancelled :: past => stored past
  | .released .. :: past => stored past

/-- A share handed out at `instant` answers the request right before it: nothing has cancelled,
voided, reopened or collected that release, it was opened with a used OTP a full delay ago, and
the share is the stored one. -/
def Answers (delay : Nat) (s : State) (past : List Event) (share : String) (instant : Nat) :
    Prop :=
  ∃ otp openedAt, past.head? = some (.requested otp openedAt) ∧ spent s.otps otp ∧
    openedAt + delay ≤ instant ∧ stored past = some share

/-- A flight that may hand out its share for a release of the stored share opened now. -/
def Flight.fits (delay : Nat) (storedShare : String) : Flight → Bool
  | .ready share => decide (delay = 0) && decide (share = storedShare)
  | _ => true

/-- A release is opened only when no other request has already decided to hand out a share:
with no delay, at least none but the stored one, which is also the one that the opening request
has read. -/
def Undisturbed (delay : Nat) (s : State) : Action → Prop
  | .openRelease _ share => ∀ row ∈ s.escrow,
      (delay = 0 → share = row.share) ∧ ∀ flight ∈ s.flights, flight.fits delay row.share = true
  | _ => True

instance (delay : Nat) (s : State) : ∀ a, Decidable (Undisturbed delay s a)
  | .openRelease _ share =>
    inferInstanceAs (Decidable (∀ row ∈ s.escrow, (delay = 0 → share = row.share) ∧
      ∀ flight ∈ s.flights, flight.fits delay row.share = true))
  | .tick | .initiate _ | .putEscrowShare _ | .deleteEscrowShare | .cancel | .consumeOtp _
  | .readForOpen _ | .poll | .deliver _ | .abandon _ => .isTrue trivial

/-! ## The invariant -/

variable {delay : Nat} {s t : State} {otp share tokenHash : String} {row : EscrowRow}

/-- What a request knows between its statements. -/
def Flight.Sound (s : State) : Flight → Prop
  | .consumed otp => spent s.otps otp
  | .read otp _ => spent s.otps otp
  | .ready share => ∀ row ∈ s.escrow, row.inFlight = true →
      row.available s.now = true ∧ row.share = share

/-- A release in flight is the last event of the log. -/
def Pending (delay : Nat) (s : State) (row : EscrowRow) : Prop :=
  row.inFlight = true → ∃ otp openedAt, s.log.head? = some (.requested otp openedAt) ∧
    spent s.otps otp ∧ row.releasePendingUntil = some (openedAt + delay)

structure Inv (delay : Nat) (s : State) : Prop where
  stored : stored s.log = s.escrow.map EscrowRow.share
  pending : ∀ row ∈ s.escrow, Pending delay s row
  flights : ∀ flight ∈ s.flights, flight.Sound s
  released : ∀ past share instant, .released share instant :: past <:+ s.log →
    Answers delay s past share instant

theorem spent_consume {other : String} {now : Nat} {otps : List OtpRow} (h : spent otps other) :
    spent (consumeRecoveryOtp tokenHash now otps) other := by
  obtain ⟨row, hRow, hHash, hUsed⟩ := h
  refine ⟨_, List.mem_map_of_mem hRow, ?_⟩
  split
  · exact ⟨hHash, rfl⟩
  · exact ⟨hHash, hUsed⟩

theorem spent_of_live {now : Nat} {otps : List OtpRow}
    (h : otps.any (OtpRow.live tokenHash now) = true) :
    spent (consumeRecoveryOtp tokenHash now otps) tokenHash := by
  obtain ⟨row, hRow, hLive⟩ := List.any_eq_true.mp h
  refine ⟨_, List.mem_map_of_mem hRow, ?_⟩
  rw [if_pos hLive]
  simp only [OtpRow.live, Bool.and_eq_true, decide_eq_true_eq] at hLive
  exact ⟨hLive.1.1, rfl⟩

theorem EscrowRow.available_mono {now later : Nat} (hLe : now ≤ later)
    (h : row.available now = true) : row.available later = true := by
  obtain ⟨pendingUntil, hUntil, hPast⟩ := (Option.any_eq_true _ _).mp h
  rw [decide_eq_true_eq] at hPast
  exact (Option.any_eq_true _ _).mpr ⟨pendingUntil, hUntil, decide_eq_true (hPast.trans hLe)⟩

theorem Answers.mono {past : List Event} {instant : Nat} (h : Answers delay s past share instant)
    (hSpent : ∀ otp, spent s.otps otp → spent t.otps otp) : Answers delay t past share instant := by
  obtain ⟨otp, openedAt, hHead, hOtp, hRest⟩ := h
  exact ⟨otp, openedAt, hHead, hSpent otp hOtp, hRest⟩

theorem Pending.mono (h : Pending delay s row) (hLog : t.log = s.log)
    (hSpent : ∀ otp, spent s.otps otp → spent t.otps otp) : Pending delay t row := by
  intro hFlight
  obtain ⟨otp, openedAt, hHead, hOtp, hUntil⟩ := h hFlight
  exact ⟨otp, openedAt, hLog ▸ hHead, hSpent otp hOtp, hUntil⟩

/-- A step that leaves the escrow row and the log alone. -/
theorem Inv.of_flights (h : Inv delay s) (hEscrow : t.escrow = s.escrow) (hLog : t.log = s.log)
    (hNow : s.now ≤ t.now) (hSpent : ∀ otp, spent s.otps otp → spent t.otps otp)
    (hFlights : ∀ flight ∈ t.flights, flight ∈ s.flights ∨ flight.Sound t) : Inv delay t where
  stored := by rw [hLog, hEscrow, h.stored]
  pending row hRow := (h.pending row (hEscrow ▸ hRow)).mono hLog hSpent
  flights flight hFlight := by
    rcases hFlights flight hFlight with hOld | hNew
    · have hSound := h.flights flight hOld
      cases flight with
      | consumed otp => exact hSpent otp hSound
      | read otp share => exact hSpent otp hSound
      | ready share =>
        intro row hRow hInFlight
        obtain ⟨hAvailable, hShare⟩ := hSound row (hEscrow ▸ hRow) hInFlight
        exact ⟨EscrowRow.available_mono hNow hAvailable, hShare⟩
    · exact hNew
  released past share instant hSuffix :=
    (h.released past share instant (hLog ▸ hSuffix)).mono hSpent

/-- A step that writes the escrow row and one event that is no release. -/
theorem Inv.of_event {event : Event} (h : Inv delay s) (hLog : t.log = event :: s.log)
    (hOtps : t.otps = s.otps) (hEvent : ∀ share instant, event ≠ .released share instant)
    (hStored : Recovery.stored t.log = t.escrow.map EscrowRow.share)
    (hPending : ∀ row ∈ t.escrow, Pending delay t row)
    (hFlights : ∀ flight ∈ t.flights, flight.Sound t) : Inv delay t where
  stored := hStored
  pending := hPending
  flights := hFlights
  released past share instant hSuffix := by
    rw [hLog, List.suffix_cons_iff] at hSuffix
    rcases hSuffix with hSame | hOld
    · exact absurd (List.cons.inj hSame).1.symm (hEvent share instant)
    · exact (h.released past share instant hOld).mono fun otp => by rw [hOtps]; exact id

/-- With no release in flight every ready request comes too late. -/
theorem Flight.sound_idle {flight : Flight} (h : flight.Sound s) (hOtps : t.otps = s.otps)
    (hIdle : ∀ row ∈ t.escrow, row.inFlight = false) : flight.Sound t := by
  cases flight with
  | consumed otp =>
    rw [Flight.Sound, hOtps]
    exact h
  | read otp share =>
    rw [Flight.Sound, hOtps]
    exact h
  | ready share =>
    intro row hRow hInFlight
    rw [hIdle row hRow] at hInFlight
    cases hInFlight

theorem pending_idle (hIdle : row.inFlight = false) : Pending delay s row := by
  intro hInFlight
  rw [hIdle] at hInFlight
  cases hInFlight

theorem inv_putEscrowShare (h : Inv delay s)
    (hStep : Machine.step delay s (.putEscrowShare share) = some t) : Inv delay t := by
  rw [Machine.step] at hStep
  split at hStep
  · cases hStep
    have hIdle : ∀ row ∈ some (EscrowRow.mk share none none), row.inFlight = false := by
      rintro _ ⟨⟩
      rfl
    refine h.of_event rfl rfl nofun rfl ?_ ?_
    · exact fun row hRow => pending_idle (hIdle row hRow)
    · exact fun flight hFlight => Flight.sound_idle (h.flights flight hFlight) rfl hIdle
  · rename_i row hRow
    cases hStep
    have hIdle : ∀ other ∈ some ({ row.cleared with share := share } : EscrowRow),
        other.inFlight = false := by
      rintro _ ⟨⟩
      rfl
    refine h.of_event rfl rfl nofun rfl ?_ ?_
    · exact fun row hRow => pending_idle (hIdle row hRow)
    · exact fun flight hFlight => Flight.sound_idle (h.flights flight hFlight) rfl hIdle

theorem inv_deleteEscrowShare (h : Inv delay s)
    (hStep : Machine.step delay s .deleteEscrowShare = some t) : Inv delay t := by
  rw [Machine.step] at hStep
  split at hStep
  · cases hStep
    exact h
  · cases hStep
    refine h.of_event rfl rfl nofun rfl nofun ?_
    exact fun flight hFlight => Flight.sound_idle (h.flights flight hFlight) rfl nofun

theorem inv_cancel (h : Inv delay s) (hStep : Machine.step delay s .cancel = some t) :
    Inv delay t := by
  rw [Machine.step] at hStep
  split at hStep
  · cases hStep
    exact h
  · rename_i row hRow
    split at hStep
    · cases hStep
      have hIdle : ∀ other ∈ some row.cleared, other.inFlight = false := by
        rintro _ ⟨⟩
        rfl
      refine h.of_event rfl rfl nofun ?_ ?_ ?_
      · rw [stored, h.stored, hRow]
        rfl
      · exact fun row hRow => pending_idle (hIdle row hRow)
      · exact fun flight hFlight => Flight.sound_idle (h.flights flight hFlight) rfl hIdle
    · cases hStep
      exact h

theorem inv_consumeOtp (h : Inv delay s)
    (hStep : Machine.step delay s (.consumeOtp tokenHash) = some t) : Inv delay t := by
  rw [Machine.step] at hStep
  split at hStep
  · rename_i hLive
    cases hStep
    refine h.of_flights rfl rfl (le_refl _) ?_ ?_
    · exact fun otp hOtp => spent_consume hOtp
    · intro flight hFlight
      rcases List.mem_cons.mp hFlight with rfl | hOld
      · exact .inr (spent_of_live hLive)
      · exact .inl hOld
  · cases hStep
    exact h

theorem inv_readForOpen (h : Inv delay s)
    (hStep : Machine.step delay s (.readForOpen otp) = some t) : Inv delay t := by
  obtain ⟨hFlight, hEq⟩ := Option.ite_none_right_eq_some.mp hStep
  have hSpent : spent s.otps otp := h.flights _ hFlight
  split at hEq
  · cases hEq
    refine h.of_flights rfl rfl (le_refl _) (fun _ => id) ?_
    exact fun flight hOld => .inl (List.mem_of_mem_erase hOld)
  · cases hEq
    refine h.of_flights rfl rfl (le_refl _) (fun _ => id) ?_
    intro flight hIn
    rcases List.mem_cons.mp hIn with rfl | hOld
    · exact .inr hSpent
    · exact .inl (List.mem_of_mem_erase hOld)

theorem inv_poll (h : Inv delay s) (hStep : Machine.step delay s .poll = some t) :
    Inv delay t := by
  rw [Machine.step] at hStep
  split at hStep
  · cases hStep
    exact h
  · rename_i row hRow
    split at hStep
    · rename_i hReady
      rw [Bool.and_eq_true] at hReady
      cases hStep
      refine h.of_flights rfl rfl (le_refl _) (fun _ => id) ?_
      intro flight hIn
      rcases List.mem_cons.mp hIn with rfl | hOld
      · right
        intro other hOther _
        rw [Option.mem_def, hRow] at hOther
        cases hOther
        exact ⟨hReady.2, rfl⟩
      · exact .inl hOld
    · cases hStep
      exact h

/-- A release opened within the condition suits every request that is ready. -/
theorem inv_openRelease (h : Inv delay s) (hQuiet : Undisturbed delay s (.openRelease otp share))
    (hStep : Machine.step delay s (.openRelease otp share) = some t) : Inv delay t := by
  obtain ⟨hFlight, hEq⟩ := Option.ite_none_right_eq_some.mp hStep
  have hSpent : spent s.otps otp := h.flights _ hFlight
  split at hEq
  · rename_i hNone
    cases hEq
    refine h.of_flights rfl rfl (le_refl _) (fun _ => id) ?_
    intro flight hIn
    split at hIn
    · rcases List.mem_cons.mp hIn with rfl | hOld
      · right
        intro row hRow
        rw [Option.mem_def, hNone] at hRow
        cases hRow
      · exact .inl (List.mem_of_mem_erase hOld)
    · exact .inl (List.mem_of_mem_erase hIn)
  · rename_i row hRow
    obtain ⟨hShare, hOthers⟩ := hQuiet row hRow
    cases hEq
    refine h.of_event rfl rfl nofun ?_ ?_ ?_
    · rw [stored, h.stored, hRow]
      rfl
    · rintro _ ⟨⟩ _
      exact ⟨otp, s.now, rfl, hSpent, rfl⟩
    · have hOld : ∀ flight ∈ s.flights, flight.Sound
          { s with
            escrow := some { row with
              releaseRequestedAt := some s.now
              releasePendingUntil := some (s.now + delay) } } := by
        intro flight hOld
        cases flight with
        | consumed otp => exact h.flights _ hOld
        | read otp share => exact h.flights _ hOld
        | ready other =>
          have hFits := hOthers _ hOld
          simp only [Flight.fits, Bool.and_eq_true, decide_eq_true_eq] at hFits
          rintro _ ⟨⟩ _
          refine ⟨?_, hFits.2.symm⟩
          simp [EscrowRow.available, hFits.1]
      intro flight hIn
      have hKept : ∀ flight ∈ s.flights.erase (.read otp share), flight.Sound
          { s with
            escrow := some { row with
              releaseRequestedAt := some s.now
              releasePendingUntil := some (s.now + delay) } } :=
        fun flight hIn => hOld flight (List.mem_of_mem_erase hIn)
      split at hIn
      · rename_i hZero
        rcases List.mem_cons.mp hIn with rfl | hIn
        · rintro _ ⟨⟩ _
          refine ⟨?_, (hShare hZero).symm⟩
          simp [EscrowRow.available, hZero]
        · exact hKept flight hIn
      · exact hKept flight hIn

/-- A delivery clears the release that its request has seen elapsed. -/
theorem inv_deliver (h : Inv delay s)
    (hStep : Machine.step delay s (.deliver share) = some t) : Inv delay t := by
  obtain ⟨hFlight, hEq⟩ := Option.ite_none_right_eq_some.mp hStep
  have hReady : Flight.Sound s (.ready share) := h.flights _ hFlight
  split at hEq
  · cases hEq
    refine h.of_flights rfl rfl (le_refl _) (fun _ => id) ?_
    exact fun flight hOld => .inl (List.mem_of_mem_erase hOld)
  · rename_i row hRow
    split at hEq
    · rename_i hInFlight
      cases hEq
      obtain ⟨hAvailable, hShare⟩ := hReady row hRow hInFlight
      have hIdle : ∀ other ∈ some row.cleared, other.inFlight = false := by
        rintro _ ⟨⟩
        rfl
      have hStored : stored s.log = some row.share := by
        rw [h.stored, hRow]
        rfl
      constructor
      · rw [stored, hStored]
        rfl
      · exact fun row hRow => pending_idle (hIdle row hRow)
      · intro flight hOld
        exact Flight.sound_idle (h.flights flight (List.mem_of_mem_erase hOld)) rfl hIdle
      · intro past other instant hSuffix
        rcases List.suffix_cons_iff.mp hSuffix with hSame | hOld
        · cases hSame
          obtain ⟨otp, openedAt, hHead, hOtp, hUntil⟩ := h.pending row hRow hInFlight
          refine ⟨otp, openedAt, hHead, hOtp, ?_, hShare ▸ hStored⟩
          simpa [EscrowRow.available, hUntil] using hAvailable
        · exact h.released past other instant hOld
    · cases hEq
      refine h.of_flights rfl rfl (le_refl _) (fun _ => id) ?_
      exact fun flight hOld => .inl (List.mem_of_mem_erase hOld)

theorem inv_step (s : State) (a : Action) (t : State) (h : Inv delay s)
    (hQuiet : Undisturbed delay s a) (hStep : Machine.step delay s a = some t) :
    Inv delay t := by
  cases a with
  | tick =>
    cases hStep
    exact h.of_flights rfl rfl (Nat.le_succ _) (fun _ => id) fun _ hOld => .inl hOld
  | initiate tokenHash =>
    obtain ⟨_, hEq⟩ := Option.ite_none_left_eq_some.mp hStep
    cases hEq
    refine h.of_flights rfl rfl (le_refl _) ?_ fun _ hOld => .inl hOld
    rintro otp ⟨row, hRow, hRest⟩
    exact ⟨row, List.mem_cons_of_mem _ hRow, hRest⟩
  | putEscrowShare share => exact inv_putEscrowShare h hStep
  | deleteEscrowShare => exact inv_deleteEscrowShare h hStep
  | cancel => exact inv_cancel h hStep
  | consumeOtp tokenHash => exact inv_consumeOtp h hStep
  | readForOpen otp => exact inv_readForOpen h hStep
  | openRelease otp share => exact inv_openRelease h hQuiet hStep
  | poll => exact inv_poll h hStep
  | deliver share => exact inv_deliver h hStep
  | abandon flight =>
    obtain ⟨_, hEq⟩ := Option.ite_none_right_eq_some.mp hStep
    cases hEq
    refine h.of_flights rfl rfl (le_refl _) (fun _ => id) ?_
    exact fun flight hOld => .inl (List.mem_of_mem_erase hOld)

/-! ## Runs -/

/-- An account without an escrow row. -/
def start (now : Nat) : State := ⟨now, none, [], [], []⟩

theorem inv_start {now : Nat} : Inv delay (start now) where
  stored := rfl
  pending := nofun
  flights := nofun
  released _ _ _ hSuffix := absurd (List.suffix_nil.mp hSuffix) nofun

/-- Over every run in which releases are opened undisturbed, each share that is handed out
answers the request right before it in the log: the release was opened with a used OTP, nothing
cancelled, voided or collected it since, its full delay is over, and the share is the one that
is stored. -/
theorem releases_answer {now : Nat} {as : List Action}
    (hQuiet : Along (Machine.step delay) (Undisturbed delay) (start now) as)
    (hRun : run (Machine.step delay) (start now) as = some t) :
    ∀ (past : List Event) (share : String) (instant : Nat),
      Event.released share instant :: past <:+ t.log → Answers delay t past share instant :=
  (run_invariant_along inv_step inv_start hQuiet hRun).released

/-- A release with a delay that is opened next to a ready request: that request can collect it
at once. -/
theorem disturbed_delivery {other : String} (hRow : s.escrow = some row) (hDelay : delay ≠ 0)
    (hReady : .ready share ∈ s.flights)
    (hStep : Machine.step delay s (.openRelease otp other) = some t) :
    ∃ u, Machine.step delay t (.deliver share) = some u ∧
      u.log = .released share s.now :: .requested otp s.now :: s.log ∧
      ¬ Answers delay u (.requested otp s.now :: s.log) share s.now := by
  obtain ⟨_, hEq⟩ := Option.ite_none_right_eq_some.mp hStep
  rw [hRow, if_neg hDelay] at hEq
  cases hEq
  have hOther : Flight.ready share ≠ .read otp other := nofun
  have hStill : Flight.ready share ∈ s.flights.erase (.read otp other) :=
    (List.mem_erase_of_ne hOther).mpr hReady
  refine ⟨_, by rw [Machine.step, if_pos hStill]; rfl, rfl, ?_⟩
  rintro ⟨_, openedAt, hHead, _, hElapsed, _⟩
  cases hHead
  omega

/-! ## A release opened again under a poll -/

def openedOnce : List Action :=
  [.putEscrowShare "share-2", .initiate "otp-1", .consumeOtp "otp-1", .readForOpen "otp-1",
    .openRelease "otp-1" "share-2", .tick]

theorem releases_answer_openedOnce :
    ∃ t past instant, run (Machine.step 1) (start 0) (openedOnce ++ [.poll, .deliver "share-2"]) =
        some t ∧ t.log = .released "share-2" instant :: past ∧
      Answers 1 t past "share-2" instant := by
  have hRun : run (Machine.step 1) (start 0) (openedOnce ++ [.poll, .deliver "share-2"]) = some
      { now := 1
        escrow := some ⟨"share-2", none, none⟩
        otps := [⟨"otp-1", 3600, some 0⟩]
        flights := []
        log := [.released "share-2" 1, .requested "otp-1" 0, .deposited "share-2"] } := by
    decide +kernel
  have hQuiet : Along (Machine.step 1) (Undisturbed 1) (start 0)
      (openedOnce ++ [.poll, .deliver "share-2"]) := by decide +kernel
  exact ⟨_, _, _, hRun, rfl, releases_answer hQuiet hRun _ _ _ (List.suffix_refl _)⟩

/-- The poll has seen the first release elapsed; the owner cancels it, a second one is opened,
and the poll collects that one before its delay. -/
theorem reopened_release_delivered :
    ∃ t past, run (Machine.step 1) (start 0)
        (openedOnce ++ [.poll, .cancel, .initiate "otp-2", .consumeOtp "otp-2",
          .readForOpen "otp-2", .openRelease "otp-2" "share-2", .deliver "share-2"]) = some t ∧
      t.log = .released "share-2" 1 :: past ∧ ¬ Answers 1 t past "share-2" 1 := by
  refine ⟨{
    now := 1
    escrow := some ⟨"share-2", none, none⟩
    otps := [⟨"otp-2", 3601, some 1⟩, ⟨"otp-1", 3600, some 0⟩]
    flights := []
    log := [.released "share-2" 1, .requested "otp-2" 1, .cancelled, .requested "otp-1" 0,
      .deposited "share-2"] }, _, by decide +kernel, rfl, ?_⟩
  rintro ⟨otp, openedAt, hHead, _, hElapsed, _⟩
  cases hHead
  omega

end Ezpds.Recovery
