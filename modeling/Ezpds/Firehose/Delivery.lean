import Ezpds.Firehose.Session

/-!
# Gap-free delivery

While no row lies above the in-memory frontier unannounced, a subscriber receives the
log after its cursor in order, without a gap. `Attached` is that condition on the world:
the frontier is settled, and a durable row above it belongs to a writer that is about to
`finish`. A handler dropped in between breaks it.

* `attached_moves`: every writer step but a cancellation keeps `Attached`.
* `deliveryInv_step`: what has been delivered, what is still in flight and what remains
  in the log are one sequence.
* `delivery_gapless`: the theorem over whole runs.
* `orphan_missed`: a run in which a cancellation hides a row from a subscriber.
-/

namespace Ezpds.Firehose

open Library

variable {Blob : Type}

/-! ## The world under a subscriber -/

/-- The steps of writers: emits, staged transactions and cancellations. -/
def Label.IsWriter : Label → Prop
  | .emit _ _ => True
  | .stage _ _ => True
  | .stageSync _ _ => True
  | .commit => True
  | .rollback => True
  | .finish => True
  | .cancel => True
  | _ => False

/-- Every durable row is at or below the frontier, or is about to be announced. -/
structure Attached (w : World Blob) : Prop where
  settled : Settled w
  announced : ∀ pending, w.writer = .committed pending →
    w.repoSeq.seqsIn w.lastSeq w.repoSeq.maxSeq = pending.events.map FirehoseEvent.seq

/-- The rows of a transaction staged at `MAX(seq)` are the ones above the frontier. -/
theorem seqsIn_of_staged {lastSeq : Nat} {log tx : RepoSeq Blob}
    {rows : List (Nat × EventRow Blob)} {pending : Pending}
    (hLast : lastSeq = log.maxSeq) (h : StagedRows lastSeq log tx rows pending) :
    tx.seqsIn lastSeq tx.maxSeq = pending.events.map FirehoseEvent.seq := by
  have hNext := nextSeq_of_eq hLast
  have hSeqs := h.seqs
  rw [h.keys] at hSeqs
  have hEvents := h.events_cases
  rw [hNext] at hEvents
  refine SeqTable.keysIn_eq ?_ ?_
  · rcases hEvents with ⟨hMap, _⟩ | ⟨hMap, _⟩
    · rw [hMap]
      simp
    · rw [hMap]
      simp
  · intro k
    constructor
    · intro hk
      have hMem : k ∈ tx.seqs := (hSeqs k).mpr (Or.inr hk)
      refine ⟨hMem, ?_, SeqTable.le_maxKey hMem⟩
      rcases hEvents with ⟨hMap, _⟩ | ⟨hMap, _⟩
      · rw [hMap] at hk
        simp only [List.mem_singleton] at hk
        omega
      · rw [hMap] at hk
        simp only [List.mem_cons, List.not_mem_nil, or_false] at hk
        omega
    · rintro ⟨hk, hlo, _⟩
      rcases (hSeqs k).mp hk with hk | hk
      · have : k ≤ log.maxSeq := SeqTable.le_maxKey hk
        omega
      · exact hk

section World

variable {Cid : Type} [CidText Cid] [DagCbor Blob] {w t : World Blob} {l : Label}

theorem attached_moves (hInv : FrontierInv w) (hAtt : Attached w) (hWriter : l.IsWriter)
    (hNoCancel : l ≠ .cancel) (h : Moves Cid w l t) : Attached t := by
  refine ⟨settled_moves hInv hAtt.settled hNoCancel h, ?_⟩
  cases h with
  | emitRefused => exact hAtt.announced
  | emitted hIdle hPrepare hInsert =>
    intro pending hCommitted
    cases hCommitted
    exact seqsIn_of_staged (hAtt.settled.of_idle hIdle) (StagedRows.single _ _ hInsert)
  | stageRefused => exact hAtt.announced
  | committed hStaged =>
    intro pending hCommitted
    cases hCommitted
    exact seqsIn_of_staged (hAtt.settled.of_staged hStaged) (hInv.staged hStaged)
  | staged | chained | abandoned | finished | cancelled =>
    intro pending hCommitted
    cases hCommitted
  | sweepEnded hLabel =>
    rcases hLabel with rfl | rfl | ⟨cutoff, rfl⟩
    · exact hWriter.elim
    · exact hWriter.elim
    · exact hWriter.elim
  | _ => exact hWriter.elim

/-- A writer step does not touch the log at or below the frontier. -/
theorem seqs_below_moves (hInv : FrontierInv w) (hWriter : l.IsWriter) (h : Moves Cid w l t)
    {k : Nat} (hk : k ≤ w.lastSeq) : k ∈ t.repoSeq.seqs ↔ k ∈ w.repoSeq.seqs := by
  have hNext := lt_nextSeq hInv.frontier
  cases h with
  | emitted hIdle hPrepare hInsert =>
    rw [RepoSeq.mem_seqs_insertEvent hInsert]
    constructor
    · rintro (rfl | hMem)
      · omega
      · exact hMem
    · exact Or.inr
  | committed hStaged =>
    have hRows := hInv.staged hStaged
    rw [hRows.seqs]
    constructor
    · rintro (hMem | hMem)
      · exact hMem
      · rcases hRows.keys_cases with hKeys | hKeys
        · rw [hKeys] at hMem
          simp only [List.mem_singleton] at hMem
          omega
        · rw [hKeys] at hMem
          simp only [List.mem_cons, List.not_mem_nil, or_false] at hMem
          omega
    · exact Or.inl
  | sweepPruned => exact hWriter.elim
  | _ => exact Iff.rfl

/-- Frames are sent and the frontier moves only in `finish`. -/
theorem sent_moves (hWriter : l.IsWriter) (h : Moves Cid w l t) :
    (t.lastSeq = w.lastSeq ∧ t.sent = w.sent) ∨
      ∃ pending, w.writer = .committed pending ∧ t.lastSeq = pending.seq ∧
        t.sent = w.sent ++ pending.events ∧ t.repoSeq = w.repoSeq := by
  cases h with
  | finished hCommitted => exact Or.inr ⟨_, hCommitted, rfl, rfl, rfl⟩
  | restarted => exact hWriter.elim
  | _ => exact Or.inl ⟨rfl, rfl⟩

end World

/-! ## The invariant of a live stream -/

/-- What is known of the page in flight, or of a reader between pages. -/
def PageInv (log : RepoSeq Blob) (reader : ReplayReader) :
    Option (List (StoredEventRow Blob)) → Prop
  | none => reader.done = true → log.seqsIn reader.after reader.upper = []
  | some rows =>
    reader.done = false ∧ reader.firstPage = false ∧
      rows.map (·.seq) ++ log.seqsIn (ReplayReader.lastSeq reader.after rows) reader.upper =
        log.seqsIn reader.after reader.upper ∧
      (rows.length < replayBatch →
        log.seqsIn (ReplayReader.lastSeq reader.after rows) reader.upper = [])

structure DeliveryInv (w : World Blob) (sub : Subscriber Blob) : Prop where
  attached : Attached w
  reach : sub.reader.cursor ≤ sub.reader.upper
  upper : sub.reader.upper ≤ w.lastSeq
  first : sub.reader.firstPage = true → sub.reader.after = sub.reader.cursor
  position : sub.position ≤ w.sent.length
  replayed : sub.replayed.map FirehoseEvent.seq ++
    w.repoSeq.seqsIn sub.reader.after sub.reader.upper =
      w.repoSeq.seqsIn sub.reader.cursor sub.reader.upper
  page : PageInv w.repoSeq sub.reader sub.page
  done : sub.replayDone = true →
    sub.page = none ∧ w.repoSeq.seqsIn sub.reader.after sub.reader.upper = []
  order : sub.replayDone = false → sub.streamed = []
  live : sub.streamed.map FirehoseEvent.seq ++
    (w.sent.drop sub.position).map FirehoseEvent.seq =
      w.repoSeq.seqsIn sub.reader.upper w.lastSeq

/-- A subscriber that attaches with the frontier at `MAX(seq)`. -/
theorem deliveryInv_subscribe {w : World Blob} (hIdle : w.writer = .idle)
    (hTop : w.lastSeq = w.repoSeq.maxSeq) {cursor : Nat} (hCursor : cursor ≤ w.lastSeq) :
    DeliveryInv w (Subscriber.attach cursor w.lastSeq w.sent.length) where
  attached := by
    refine ⟨?_, ?_⟩
    · unfold Settled
      rw [hIdle]
      exact hTop
    · intro pending hCommitted
      rw [hIdle] at hCommitted
      cases hCommitted
  reach := hCursor
  upper := le_rfl
  first := fun _ => rfl
  position := le_rfl
  replayed := rfl
  page := by
    intro hDone
    refine SeqTable.keysIn_eq_nil ?_
    simpa [Subscriber.attach, ReplayReader.new] using hDone
  done := by
    intro hDone
    cases hDone
  order := fun _ => rfl
  live := by
    show [] ++ (w.sent.drop w.sent.length).map FirehoseEvent.seq =
      w.repoSeq.seqsIn w.lastSeq w.lastSeq
    rw [List.drop_length, RepoSeq.seqsIn, SeqTable.keysIn_eq_nil le_rfl]
    rfl

namespace DeliveryInv

/-- A writer step under a subscriber. -/
theorem world {Cid : Type} [CidText Cid] [DagCbor Blob] {w t : World Blob} {l : Label}
    {sub : Subscriber Blob} (hInv : FrontierInv w) (h : DeliveryInv w sub)
    (hWriter : l.IsWriter) (hNoCancel : l ≠ .cancel) (hMoves : Moves Cid w l t) :
    DeliveryInv t sub := by
  have hBelow : ∀ a b, b ≤ w.lastSeq → t.repoSeq.seqsIn a b = w.repoSeq.seqsIn a b := by
    intro a b hb
    refine SeqTable.keysIn_congr ?_
    intro k hk
    exact seqs_below_moves hInv hWriter hMoves (hk.trans hb)
  have hPage : PageInv t.repoSeq sub.reader sub.page := by
    have hOld := h.page
    cases hP : sub.page with
    | none =>
      rw [hP] at hOld
      intro hDone
      rw [hBelow _ _ h.upper]
      exact hOld hDone
    | some rows =>
      rw [hP] at hOld
      obtain ⟨hOpen, hFirst, hSplit, hShort⟩ := hOld
      refine ⟨hOpen, hFirst, ?_, ?_⟩
      · rw [hBelow _ _ h.upper, hBelow _ _ h.upper]
        exact hSplit
      · intro hLen
        rw [hBelow _ _ h.upper]
        exact hShort hLen
  have hAttached := attached_moves hInv h.attached hWriter hNoCancel hMoves
  rcases sent_moves hWriter hMoves with ⟨hLast, hSent⟩ | ⟨pending, hCommitted, hLast, hSent, hLog⟩
  · refine ⟨hAttached, h.reach, by rw [hLast]; exact h.upper, h.first,
      by rw [hSent]; exact h.position, ?_, hPage, ?_, h.order, ?_⟩
    · rw [hBelow _ _ h.upper, hBelow _ _ h.upper]
      exact h.replayed
    · intro hDone
      rw [hBelow _ _ h.upper]
      exact h.done hDone
    · rw [hSent, hLast, hBelow _ _ le_rfl]
      exact h.live
  · have hEvents := h.attached.announced pending hCommitted
    have hSeq := h.attached.settled.of_committed hCommitted
    have hUp : w.lastSeq ≤ pending.seq := by
      rw [hSeq]
      exact hInv.frontier
    refine ⟨hAttached, h.reach, by rw [hLast]; exact h.upper.trans hUp, h.first, ?_, ?_, hPage, ?_,
      h.order, ?_⟩
    · rw [hSent, List.length_append]
      exact h.position.trans (Nat.le_add_right _ _)
    · rw [hLog]
      exact h.replayed
    · intro hDone
      rw [hLog]
      exact h.done hDone
    · rw [hSent, hLog, hLast, List.drop_append_of_le_length h.position, List.map_append,
        ← List.append_assoc, h.live, ← hEvents, hSeq]
      exact (SeqTable.keysIn_split h.upper hInv.frontier).symm

variable [DagCbor Blob] {w : World Blob} {sub sub' : Subscriber Blob}

omit [DagCbor Blob] in
theorem query (h : DeliveryInv w sub) (hQuery : sub.query w = some sub')
    (hLive : sub'.ended = none) : DeliveryInv w sub' := by
  obtain ⟨_, hNotDone, hPage, hCases⟩ := Subscriber.query_cases hQuery
  have hOld := h.page
  rw [hPage] at hOld
  rcases hCases with ⟨hDone, rfl⟩ | ⟨_, e, _, rfl⟩ | ⟨hOpen, reader, rows, hOk, rfl⟩
  · exact ⟨h.attached, h.reach, h.upper, h.first, h.position, h.replayed, h.page,
      fun _ => ⟨hPage, hOld hDone⟩, fun hFalse => (by cases hFalse), h.live⟩
  · cases hLive
  · obtain ⟨hRows, present, rfl, _⟩ := ReplayReader.query_ok h.first hOk
    obtain ⟨hSplit, hShort⟩ := ReplayReader.seqsIn_page hRows
    refine ⟨h.attached, h.reach, h.upper, fun hFirst => (by cases hFirst), h.position, h.replayed,
      ⟨hOpen, rfl, hSplit, hShort⟩, ?_, h.order, h.live⟩
    intro hDone
    rw [hNotDone] at hDone
    cases hDone

theorem absorb (h : DeliveryInv w sub) (hAbsorb : sub.absorb w = some sub')
    (hLive : sub'.ended = none) : DeliveryInv w sub' := by
  obtain ⟨_, rows, hPage, hCases⟩ := Subscriber.absorb_cases hAbsorb
  have hOld := h.page
  rw [hPage] at hOld
  obtain ⟨hOpen, hFirst, hSplit, hShort⟩ := hOld
  have hNotDone : sub.replayDone = false := by
    by_contra hDone
    have hNone := (h.done (by simpa using hDone)).1
    rw [hPage] at hNone
    cases hNone
  rcases hCases with ⟨e, _, rfl⟩ | ⟨reader, events, hOk, rfl⟩
  · cases hLive
  · obtain ⟨hSeqs, done, rfl, hEnd, _⟩ := ReplayReader.absorb_ok hOpen hOk
    have hRest : done = true →
        w.repoSeq.seqsIn (ReplayReader.lastSeq sub.reader.after rows) sub.reader.upper = [] := by
      intro hDone
      rcases hEnd hDone with hUpper | hLen
      · exact SeqTable.keysIn_eq_nil hUpper
      · exact hShort hLen
    refine ⟨h.attached, h.reach, h.upper, ?_, h.position, ?_, hRest, ?_, ?_, h.live⟩
    · intro hTrue
      rw [hFirst] at hTrue
      cases hTrue
    · rw [List.map_append, hSeqs, List.append_assoc, hSplit]
      exact h.replayed
    · intro hEmpty
      have hNil : rows.map (·.seq) = [] := by
        rw [← hSeqs, List.isEmpty_iff.mp hEmpty]
        rfl
      refine ⟨rfl, hShort ?_⟩
      rw [List.map_eq_nil_iff.mp hNil]
      exact Nat.succ_pos _
    · intro _
      exact h.order hNotDone

omit [DagCbor Blob] in
theorem recv {capacity : Nat} (h : DeliveryInv w sub)
    (hRecv : sub.recv capacity w = some sub') (hLive : sub'.ended = none) :
    DeliveryInv w sub' := by
  obtain ⟨_, hDone, rfl | ⟨event, hEvent, rfl⟩⟩ := Subscriber.recv_cases hRecv
  · cases hLive
  · obtain ⟨hLt, rfl⟩ := List.getElem?_eq_some_iff.mp hEvent
    refine ⟨h.attached, h.reach, h.upper, h.first, hLt, h.replayed, h.page, h.done, ?_, ?_⟩
    · intro hFalse
      rw [hDone] at hFalse
      cases hFalse
    · have hLiveOld := h.live
      rw [List.drop_eq_getElem_cons hLt, List.map_cons] at hLiveOld
      rw [List.map_append, List.append_assoc]
      exact hLiveOld

/-! ## What has been delivered -/

omit [DagCbor Blob] in
/-- Delivered frames, frames in flight and rows that a writer is about to announce make
up the log above the cursor. -/
theorem delivered_append (hInv : FrontierInv w) (h : DeliveryInv w sub)
    (hDone : sub.replayDone = true) :
    sub.delivered.map FirehoseEvent.seq ++
        ((w.sent.drop sub.position).map FirehoseEvent.seq ++
          w.repoSeq.seqsIn w.lastSeq w.repoSeq.maxSeq) =
      w.repoSeq.seqsAfter sub.reader.cursor := by
  have hReplayed := h.replayed
  rw [(h.done hDone).2, List.append_nil] at hReplayed
  have hLow : w.repoSeq.seqsIn sub.reader.cursor w.repoSeq.maxSeq =
      w.repoSeq.seqsIn sub.reader.cursor sub.reader.upper ++
        w.repoSeq.seqsIn sub.reader.upper w.repoSeq.maxSeq :=
    SeqTable.keysIn_split h.reach (h.upper.trans hInv.frontier)
  have hHigh : w.repoSeq.seqsIn sub.reader.upper w.repoSeq.maxSeq =
      w.repoSeq.seqsIn sub.reader.upper w.lastSeq ++
        w.repoSeq.seqsIn w.lastSeq w.repoSeq.maxSeq :=
    SeqTable.keysIn_split h.upper hInv.frontier
  rw [← RepoSeq.seqsIn_maxSeq, hLow, hHigh, ← h.live, ← hReplayed, Subscriber.delivered,
    List.map_append]
  simp only [List.append_assoc]

omit [DagCbor Blob] in
theorem delivered_initial (hInv : FrontierInv w) (h : DeliveryInv w sub) :
    sub.delivered.map FirehoseEvent.seq <+: w.repoSeq.seqsAfter sub.reader.cursor := by
  cases hDone : sub.replayDone with
  | true =>
    rw [← h.delivered_append hInv hDone]
    exact List.prefix_append _ _
  | false =>
    have hLow : w.repoSeq.seqsIn sub.reader.cursor w.repoSeq.maxSeq =
        w.repoSeq.seqsIn sub.reader.cursor sub.reader.upper ++
          w.repoSeq.seqsIn sub.reader.upper w.repoSeq.maxSeq :=
      SeqTable.keysIn_split h.reach (h.upper.trans hInv.frontier)
    rw [Subscriber.delivered, h.order hDone, List.append_nil, ← RepoSeq.seqsIn_maxSeq, hLow,
      ← h.replayed, List.append_assoc]
    exact List.prefix_append _ _

end DeliveryInv

/-! ## Whole runs -/

/-- Subscribing, the subscriber's own steps, and the steps of writers. -/
def SessionLabel.InScope : SessionLabel → Prop
  | .world l => l.IsWriter
  | _ => True

/-- No row is above the frontier unannounced when a subscriber attaches, and no handler
is dropped between its commit and `finish` while a stream is open. -/
def NoOrphan (s : Session Blob) : SessionLabel → Prop
  | .world .cancel => ∀ sub ∈ s.sub, sub.ended.isSome = true
  | .subscribe cursor =>
    cursor ≤ s.world.lastSeq → s.world.lastSeq = s.world.repoSeq.maxSeq
  | _ => True

instance decidableNoOrphan (s : Session Blob) (l : SessionLabel) : Decidable (NoOrphan s l) := by
  unfold NoOrphan
  split <;> infer_instance

/-- The replay is over, every frame sent has been taken, and no writer stands between
its commit and `finish`. -/
def CaughtUp (w : World Blob) (sub : Subscriber Blob) : Prop :=
  sub.replayDone = true ∧ sub.position = w.sent.length ∧
    ∀ pending, w.writer ≠ .committed pending

/-- What has been delivered is the beginning of the log above the cursor, in order, and
all of it once the subscriber has caught up. -/
def Gapless (w : World Blob) (sub : Subscriber Blob) : Prop :=
  (sub.delivered.map FirehoseEvent.seq).Pairwise (· < ·) ∧
    sub.delivered.map FirehoseEvent.seq <+: w.repoSeq.seqsAfter sub.reader.cursor ∧
    (CaughtUp w sub →
      sub.delivered.map FirehoseEvent.seq = w.repoSeq.seqsAfter sub.reader.cursor)

theorem DeliveryInv.gapless {w : World Blob} {sub : Subscriber Blob} (hInv : FrontierInv w)
    (h : DeliveryInv w sub) : Gapless w sub := by
  have hPrefix := h.delivered_initial hInv
  refine ⟨(w.repoSeq.seqsAfter_sorted _).sublist hPrefix.sublist, hPrefix, ?_⟩
  rintro ⟨hDone, hPosition, hWriter⟩
  have hTop : w.lastSeq = w.repoSeq.maxSeq := by
    have hSettled := h.attached.settled
    unfold Settled at hSettled
    split at hSettled
    · rename_i pending hCommitted
      exact absurd hCommitted (hWriter pending)
    · exact hSettled
  have hAll := h.delivered_append hInv hDone
  rw [hPosition, List.drop_length, hTop, RepoSeq.seqsIn, SeqTable.keysIn_eq_nil le_rfl] at hAll
  simpa using hAll

/-- The invariant of a run. -/
def SessionInv (s : Session Blob) : Prop :=
  FrontierInv s.world ∧
    ∀ sub, s.sub = some sub → sub.ended = none → DeliveryInv s.world sub

theorem sessionInv_boot (log : RepoSeq Blob) : SessionInv (Session.boot log) := by
  refine ⟨⟨fun k hk => hk, ?_, le_rfl, trivial, trivial⟩, ?_⟩
  · intro r hr
    exact SeqTable.le_maxKey (SeqTable.mem_keys_of_mem hr)
  · intro sub hSub
    cases hSub

section Run

variable {Cid : Type} [CidText Cid] [DagCbor Blob] {capacity : Nat}

theorem sessionInv_step {s t : Session Blob} {l : SessionLabel} (hInv : SessionInv s)
    (hScope : l.InScope) (hGuard : NoOrphan s l) (h : s.step Cid capacity l = some t) :
    SessionInv t := by
  obtain ⟨hWorld, hSubs⟩ := hInv
  cases sessionMoves_of_step Cid capacity h with
  | @world l w hLabel hMoves =>
    refine ⟨frontierInv_moves hWorld hMoves, ?_⟩
    intro sub hSub hLive
    have hNoCancel : l ≠ .cancel := by
      rintro rfl
      have := hGuard sub hSub
      rw [hLive] at this
      cases this
    exact (hSubs sub hSub hLive).world hWorld hScope hNoCancel hMoves
  | restarted => exact hScope.elim
  | @subscribed cursor hNone hIdle =>
    refine ⟨hWorld, ?_⟩
    intro sub hSub hLive
    cases hSub
    unfold Subscriber.subscribeFrom at hLive ⊢
    by_cases hCursor : cursor > s.world.lastSeq
    · simp [hCursor] at hLive
    · have hCursor' : cursor ≤ s.world.lastSeq := not_lt.mp hCursor
      simp only [if_neg hCursor]
      exact deliveryInv_subscribe hIdle (hGuard hCursor') hCursor'
  | queried hSub hQuery =>
    refine ⟨hWorld, ?_⟩
    intro sub' hSub' hLive
    cases hSub'
    exact (hSubs _ hSub (Subscriber.query_cases hQuery).1).query hQuery hLive
  | absorbed hSub hAbsorb =>
    refine ⟨hWorld, ?_⟩
    intro sub' hSub' hLive
    cases hSub'
    exact (hSubs _ hSub (Subscriber.absorb_cases hAbsorb).1).absorb hAbsorb hLive
  | received hSub hRecv =>
    refine ⟨hWorld, ?_⟩
    intro sub' hSub' hLive
    cases hSub'
    exact (hSubs _ hSub (Subscriber.recv_cases hRecv).1).recv hRecv hLive

end Run

/-- Over every run from any log, in which no orphaned row is there when a subscriber
attaches and no handler is dropped between commit and `finish` while its stream is open,
an open stream has delivered the log above its cursor without a gap. -/
theorem delivery_gapless (Cid : Type) [CidText Cid] [DagCbor Blob] (capacity : Nat)
    (log : RepoSeq Blob) (labels : List SessionLabel) (s : Session Blob)
    (hScope : ∀ l ∈ labels, l.InScope)
    (hGuard : Along (Session.step Cid capacity) NoOrphan (Session.boot log) labels)
    (hRun : run (Session.step Cid capacity) (Session.boot log) labels = some s)
    (sub : Subscriber Blob) (hSub : s.sub = some sub) (hOpen : sub.ended = none) :
    Gapless s.world sub := by
  have hInv : SessionInv s := by
    refine run_invariant_along ?_ (sessionInv_boot log) (hGuard.and (along_of_forall hScope))
      hRun
    intro s l t hInv hBoth h
    exact sessionInv_step hInv hBoth.2 hBoth.1 h
  exact (hInv.2 sub hSub hOpen).gapless hInv.1

/-! ## Runs on one log -/

def sampleIdentity : EventInput :=
  .identity { did := "did:plc:a", handle := none }

/-- Two events, a subscriber at cursor 1, and an event after it attached. -/
def followRun : List SessionLabel :=
  [.world (.emit sampleIdentity "t1"), .world .finish, .world (.emit sampleIdentity "t2"),
    .world .finish, .subscribe 1, .query, .world (.emit sampleIdentity "t3"), .absorb,
    .world .finish, .query, .recv]

/-- Event 2 becomes durable and its handler is dropped before `finish`; a subscriber at
cursor 1 then attaches below it, and the next event moves the frontier past it. -/
def orphanRun : List SessionLabel :=
  [.world (.emit sampleIdentity "t1"), .world .finish, .world (.emit sampleIdentity "t2"),
    .world .cancel, .subscribe 1, .world (.emit sampleIdentity "t3"), .world .finish,
    .query, .recv]

/-- The numbers delivered, the numbers above the cursor, and whether the stream is open. -/
def observe (s : Session Blob) : Option (List Nat × List Nat × Bool) :=
  s.sub.map fun sub =>
    (sub.delivered.map FirehoseEvent.seq, s.world.repoSeq.seqsAfter sub.reader.cursor,
      sub.ended.isNone)

theorem observe_some {s : Session Blob} {delivered log : List Nat} {live : Bool}
    (h : observe s = some (delivered, log, live)) :
    ∃ sub, s.sub = some sub ∧ sub.delivered.map FirehoseEvent.seq = delivered ∧
      s.world.repoSeq.seqsAfter sub.reader.cursor = log ∧ sub.ended.isNone = live := by
  obtain ⟨sub, hSub, hEq⟩ := Option.map_eq_some_iff.mp h
  simp only [Prod.mk.injEq] at hEq
  exact ⟨sub, hSub, hEq.1, hEq.2.1, hEq.2.2⟩

theorem followRun_gapless :
    ∃ (s : Session Stored) (sub : Subscriber Stored),
      run (Session.step String 1024) (Session.boot .empty) followRun = some s ∧
        s.sub = some sub ∧ sub.delivered.map FirehoseEvent.seq = [2, 3] ∧
        Gapless s.world sub := by
  have hObserve : (run (Session.step String 1024) (Session.boot (.empty : RepoSeq Stored))
      followRun).bind observe = some ([2, 3], [2, 3], true) := by
    decide
  obtain ⟨s, hRun, hs⟩ := Option.bind_eq_some_iff.mp hObserve
  obtain ⟨sub, hSub, hDelivered, _, hOpen⟩ := observe_some hs
  refine ⟨s, sub, hRun, hSub, hDelivered, ?_⟩
  refine delivery_gapless String 1024 .empty followRun s ?_ (by decide) hRun sub hSub
    (Option.isNone_iff_eq_none.mp hOpen)
  simp [followRun, SessionLabel.InScope, Label.IsWriter]

theorem orphan_missed :
    ¬ ∀ (labels : List SessionLabel) (s : Session Stored) (sub : Subscriber Stored),
      (∀ l ∈ labels, l.InScope) →
      run (Session.step String 1024) (Session.boot .empty) labels = some s →
      s.sub = some sub → sub.ended = none → Gapless s.world sub := by
  intro hClaim
  have hObserve : (run (Session.step String 1024) (Session.boot (.empty : RepoSeq Stored))
      orphanRun).bind observe = some ([3], [2, 3], true) := by
    decide
  obtain ⟨s, hRun, hs⟩ := Option.bind_eq_some_iff.mp hObserve
  obtain ⟨sub, hSub, hDelivered, hLog, hOpen⟩ := observe_some hs
  have hGap := hClaim orphanRun s sub (by simp [orphanRun, SessionLabel.InScope, Label.IsWriter])
    hRun hSub (Option.isNone_iff_eq_none.mp hOpen)
  have hPrefix := hGap.2.1
  rw [hDelivered, hLog] at hPrefix
  revert hPrefix
  decide

end Ezpds.Firehose
