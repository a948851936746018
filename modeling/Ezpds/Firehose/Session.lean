import Ezpds.Firehose.Frontier
import Ezpds.Firehose.Replay

/-!
# A subscriber beside the sequencer

`subscribe_from` and the socket loop of `subscribeRepos`: replay pages are read until a
batch comes back empty, then frames are taken from the broadcast channel. The machine
steps the world and one subscriber in any order; a subscriber only reads the world, so
other subscribers do not matter.

* `SessionMoves`, `sessionMoves_of_step`: everything one step can do.
-/

namespace Ezpds.Firehose

open Library

variable {Blob : Type}

/-- Why the server ended a stream. -/
inductive StreamEnd where
  | futureCursor (current : Nat)
  | replay (error : FirehoseError)
  | lagged

structure Subscriber (Blob : Type) where
  reader : ReplayReader
  /-- The page query has answered; its rows are not classified yet. -/
  page : Option (List (StoredEventRow Blob))
  replayDone : Bool
  replayed : List FirehoseEvent
  /-- How many frames of the channel the receiver has taken or was not there for. -/
  position : Nat
  streamed : List FirehoseEvent
  ended : Option StreamEnd

namespace Subscriber

/-- A subscriber with a reader over `(cursor, upper]` and a fresh receiver. -/
def attach (cursor upper position : Nat) : Subscriber Blob where
  reader := .new cursor upper
  page := none
  replayDone := false
  replayed := []
  position := position
  streamed := []
  ended := none

/-- The frames sent to the peer, in order. -/
def delivered (sub : Subscriber Blob) : List FirehoseEvent :=
  sub.replayed ++ sub.streamed

/-- `subscribe_from`: the receiver and the frontier are taken under the emit lock. -/
def subscribeFrom (w : World Blob) (cursor : Nat) : Subscriber Blob :=
  let sub := attach cursor w.lastSeq w.sent.length
  if cursor > w.lastSeq then { sub with ended := some (.futureCursor w.lastSeq) } else sub

section Steps

variable [DagCbor Blob]

/-- The first half of `next_batch`. A reader that is done answers with an empty batch,
which ends the replay. -/
def query (w : World Blob) (sub : Subscriber Blob) : Option (Subscriber Blob) :=
  if sub.ended.isSome || sub.replayDone || sub.page.isSome then none
  else if sub.reader.done then some { sub with replayDone := true }
  else
    match sub.reader.query w.repoSeq with
    | .error e => some { sub with ended := some (.replay e) }
    | .ok (reader, rows) => some { sub with reader := reader, page := some rows }

/-- The second half: classify the page against the prune floor of this moment. -/
def absorb (w : World Blob) (sub : Subscriber Blob) : Option (Subscriber Blob) :=
  if sub.ended.isSome then none
  else
    match sub.page with
    | none => none
    | some rows =>
      match sub.reader.absorb w.pruneFloor rows with
      | .error e => some { sub with ended := some (.replay e), page := none }
      | .ok (reader, events) =>
        some
          { sub with
            reader := reader
            page := none
            replayDone := events.isEmpty
            replayed := sub.replayed ++ events }

/-- `rx.recv()`: the next frame, or `Lagged` when the channel has overwritten it. -/
def recv (capacity : Nat) (w : World Blob) (sub : Subscriber Blob) :
    Option (Subscriber Blob) :=
  if sub.ended.isSome || !sub.replayDone then none
  else
    match w.sent[sub.position]? with
    | none => none
    | some event =>
      if w.sent.length - sub.position > capacity then some { sub with ended := some .lagged }
      else
        some { sub with position := sub.position + 1, streamed := sub.streamed ++ [event] }

end Steps

end Subscriber

structure Session (Blob : Type) where
  world : World Blob
  sub : Option (Subscriber Blob)

inductive SessionLabel where
  | world (l : Label)
  | subscribe (cursor : Nat)
  | query
  | absorb
  | recv

namespace Session

/-- A process that has just started over a log, with nobody connected. -/
def boot (log : RepoSeq Blob) : Session Blob where
  world := .new log log.table.rows
  sub := none

/-- One step of the world or of the subscriber. A restart closes the connection. -/
def step (Cid : Type) [CidText Cid] [DagCbor Blob] (capacity : Nat) (s : Session Blob) :
    SessionLabel → Option (Session Blob)
  | .world .restart => (s.world.step Cid .restart).map fun w => { world := w, sub := none }
  | .world l => (s.world.step Cid l).map fun w => { s with world := w }
  | .subscribe cursor =>
    match s.sub, s.world.writer with
    | none, .idle => some { s with sub := some (.subscribeFrom s.world cursor) }
    | _, _ => none
  | .query =>
    s.sub.bind fun sub => (sub.query s.world).map fun sub => { s with sub := some sub }
  | .absorb =>
    s.sub.bind fun sub => (sub.absorb s.world).map fun sub => { s with sub := some sub }
  | .recv =>
    s.sub.bind fun sub => (sub.recv capacity s.world).map fun sub => { s with sub := some sub }

end Session

/-! ## What one step can do -/

section Moves

variable (Cid : Type) [CidText Cid] [DagCbor Blob] (capacity : Nat)

inductive SessionMoves (s : Session Blob) : SessionLabel → Session Blob → Prop where
  | world {l : Label} {w : World Blob} (hLabel : l ≠ .restart) (hMoves : Moves Cid s.world l w) :
      SessionMoves s (.world l) { s with world := w }
  | restarted :
      SessionMoves s (.world .restart)
        { world := .new s.world.repoSeq s.world.durable, sub := none }
  | subscribed {cursor : Nat} (hNone : s.sub = none) (hIdle : s.world.writer = .idle) :
      SessionMoves s (.subscribe cursor)
        { s with sub := some (.subscribeFrom s.world cursor) }
  | queried {sub sub' : Subscriber Blob} (hSub : s.sub = some sub)
      (hQuery : sub.query s.world = some sub') :
      SessionMoves s .query { s with sub := some sub' }
  | absorbed {sub sub' : Subscriber Blob} (hSub : s.sub = some sub)
      (hAbsorb : sub.absorb s.world = some sub') :
      SessionMoves s .absorb { s with sub := some sub' }
  | received {sub sub' : Subscriber Blob} (hSub : s.sub = some sub)
      (hRecv : sub.recv capacity s.world = some sub') :
      SessionMoves s .recv { s with sub := some sub' }

theorem sessionMoves_of_step {s t : Session Blob} {l : SessionLabel}
    (h : s.step Cid capacity l = some t) : SessionMoves Cid capacity s l t := by
  cases l with
  | world l =>
    by_cases hLabel : l = .restart
    · subst hLabel
      cases h
      exact .restarted
    · have h' : (s.world.step Cid l).map (fun w => { s with world := w }) = some t := by
        cases l <;> first | exact absurd rfl hLabel | exact h
      obtain ⟨w, hw, rfl⟩ := Option.map_eq_some_iff.mp h'
      exact .world hLabel (moves_of_step Cid hw)
  | subscribe cursor =>
    simp only [Session.step] at h
    split at h
    · rename_i hNone hIdle
      cases h
      exact .subscribed hNone hIdle
    · cases h
  | query =>
    obtain ⟨sub, hSub, h⟩ := Option.bind_eq_some_iff.mp h
    obtain ⟨sub', hQuery, rfl⟩ := Option.map_eq_some_iff.mp h
    exact .queried hSub hQuery
  | absorb =>
    obtain ⟨sub, hSub, h⟩ := Option.bind_eq_some_iff.mp h
    obtain ⟨sub', hAbsorb, rfl⟩ := Option.map_eq_some_iff.mp h
    exact .absorbed hSub hAbsorb
  | recv =>
    obtain ⟨sub, hSub, h⟩ := Option.bind_eq_some_iff.mp h
    obtain ⟨sub', hRecv, rfl⟩ := Option.map_eq_some_iff.mp h
    exact .received hSub hRecv

end Moves

/-! ## The subscriber's own steps -/

namespace Subscriber

section Facts

variable [DagCbor Blob] {w : World Blob} {sub sub' : Subscriber Blob}

omit [DagCbor Blob] in
/-- A page query ends the replay, fails, or leaves a page to classify. -/
theorem query_cases (h : sub.query w = some sub') :
    sub.ended = none ∧ sub.replayDone = false ∧ sub.page = none ∧
      ((sub.reader.done = true ∧ sub' = { sub with replayDone := true }) ∨
        (sub.reader.done = false ∧ ∃ e, sub.reader.query w.repoSeq = .error e ∧
          sub' = { sub with ended := some (.replay e) }) ∨
        (sub.reader.done = false ∧ ∃ reader rows,
          sub.reader.query w.repoSeq = .ok (reader, rows) ∧
          sub' = { sub with reader := reader, page := some rows })) := by
  unfold query at h
  split at h
  · cases h
  · rename_i hOpen
    simp only [Bool.or_eq_true, not_or, Bool.not_eq_true, Option.isSome_eq_false_iff,
      Option.isNone_iff_eq_none] at hOpen
    refine ⟨hOpen.1.1, hOpen.1.2, hOpen.2, ?_⟩
    split at h
    · rename_i hDone
      cases h
      exact Or.inl ⟨hDone, rfl⟩
    · rename_i hDone
      have hDone' : sub.reader.done = false := by simpa using hDone
      split at h
      · rename_i e hErr
        cases h
        exact Or.inr (Or.inl ⟨hDone', e, hErr, rfl⟩)
      · rename_i reader rows hOk
        cases h
        exact Or.inr (Or.inr ⟨hDone', reader, rows, hOk, rfl⟩)

/-- Classifying a page fails, or delivers it. -/
theorem absorb_cases (h : sub.absorb w = some sub') :
    sub.ended = none ∧ ∃ rows, sub.page = some rows ∧
      ((∃ e, sub.reader.absorb w.pruneFloor rows = .error e ∧
          sub' = { sub with ended := some (.replay e), page := none }) ∨
        (∃ reader events, sub.reader.absorb w.pruneFloor rows = .ok (reader, events) ∧
          sub' = { sub with
            reader := reader
            page := none
            replayDone := events.isEmpty
            replayed := sub.replayed ++ events })) := by
  unfold absorb at h
  split at h
  · cases h
  · rename_i hOpen
    simp only [Bool.not_eq_true, Option.isSome_eq_false_iff, Option.isNone_iff_eq_none] at hOpen
    refine ⟨hOpen, ?_⟩
    split at h
    · cases h
    · rename_i rows hPage
      refine ⟨rows, hPage, ?_⟩
      split at h
      · rename_i e hErr
        cases h
        exact Or.inl ⟨e, hErr, rfl⟩
      · rename_i reader events hOk
        cases h
        exact Or.inr ⟨reader, events, hOk, rfl⟩

omit [DagCbor Blob] in
/-- A receive takes the next frame, or reports that it was overwritten. -/
theorem recv_cases {capacity : Nat} (h : sub.recv capacity w = some sub') :
    sub.ended = none ∧ sub.replayDone = true ∧
      (sub' = { sub with ended := some .lagged } ∨
        ∃ event, w.sent[sub.position]? = some event ∧
          sub' = { sub with
            position := sub.position + 1, streamed := sub.streamed ++ [event] }) := by
  unfold recv at h
  split at h
  · cases h
  · rename_i hOpen
    simp only [Bool.or_eq_true, not_or, Bool.not_eq_true, Option.isSome_eq_false_iff,
      Option.isNone_iff_eq_none] at hOpen
    refine ⟨hOpen.1, by simpa using hOpen.2, ?_⟩
    split at h
    · cases h
    · rename_i event hEvent
      split at h
      · cases h
        exact Or.inl rfl
      · cases h
        exact Or.inr ⟨event, hEvent, rfl⟩

end Facts

end Subscriber

end Ezpds.Firehose
