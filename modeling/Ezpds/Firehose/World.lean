import Ezpds.Firehose.Retention
import Ezpds.Firehose.Sequencer
import Ezpds.Library.Run

/-!
# The firehose machine

One process over the durable log: the table, the in-memory frontier and prune floor, the
frames sent on the broadcast channel, the holder of the emit lock and one retention pass.
Every step is one critical section or one database statement, so a run is an arbitrary
interleaving of writers, cancellations, sweeps and restarts.

The pool has a single connection, so an open transaction keeps every other write out;
the delete of a sweep is only enabled while no transaction is open.

* `World.step`: the machine.
* `Moves`, `moves_of_step`: everything one step can do, guards included.
-/

namespace Ezpds.Firehose

open Library

/-! ## State -/

/-- The holder of the emit lock. -/
inductive Writer (Blob : Type) where
  | idle
  /-- Rows inserted in the open transaction `tx`, not yet durable. -/
  | staged (tx : RepoSeq Blob) (rows : List (Nat × EventRow Blob)) (pending : Pending)
  /-- Rows durable, `last_seq` not stored and nothing broadcast yet. -/
  | committed (pending : Pending)

/-- How far a retention pass has come. -/
inductive SweepPhase where
  | idle
  | measured (config : FirehoseConfig) (maxSeq : Nat)
  | clamped (watermark : Nat)
  | noted (watermark : Nat)

structure World (Blob : Type) where
  repoSeq : RepoSeq Blob
  lastSeq : Nat
  pruneFloor : Nat
  sent : List FirehoseEvent
  writer : Writer Blob
  sweep : SweepPhase
  /-- Every row that ever became durable, in the order it did. -/
  durable : List (Nat × EventRow Blob)

/-- The inputs of `stage_commit` and `stage_account`. -/
inductive StageInput where
  | commit (input : CommitInput)
  | account (input : AccountInput)

def StageInput.toEvent : StageInput → EventInput
  | commit i => .commit i
  | account i => .account i

inductive Label where
  /-- `emit_commit`, `emit_account`, `emit_identity` or `emit_sync`, up to its insert. -/
  | emit (input : EventInput) (time : String)
  | stage (input : StageInput) (time : String)
  | stageSync (input : SyncInput) (time : String)
  | commit
  | rollback
  /-- Store `last_seq` and broadcast: the end of `emit_*` and of `Pending*::finish`. -/
  | finish
  /-- The handler is dropped after its rows became durable and before `finish`. -/
  | cancel
  | sweepMeasure (config : FirehoseConfig)
  | sweepBoundary (cutoff : Option String)
  | sweepNote
  | sweepPrune
  | sweepAbort
  | restart

namespace World

variable {Blob : Type}

/-- `Firehose::new` over an existing log. -/
def new (log : RepoSeq Blob) (durable : List (Nat × EventRow Blob)) : World Blob where
  repoSeq := log
  lastSeq := log.maxSeq
  pruneFloor := 0
  sent := []
  writer := .idle
  sweep := .idle
  durable := durable

/-- The first process over an empty log. -/
def start : World Blob := new .empty []

/-! ## Writers -/

section Writers

variable (Cid : Type) [CidText Cid] [DagCbor Blob]

/-- An `emit_*` call autocommits its row; a failed one changes nothing. -/
def emit (w : World Blob) (input : EventInput) (time : String) : Option (World Blob) :=
  match w.writer with
  | .idle =>
    match persist Cid w.lastSeq w.repoSeq input time with
    | .error _ => some w
    | .ok (seq, row, db) =>
      some
        { w with
          repoSeq := db
          durable := w.durable ++ [(seq, row)]
          writer := .committed ⟨input.event seq time, none⟩ }
  | _ => none

/-- `lock_emit`, `begin` and `stage_commit` or `stage_account`; a failed insert drops the
transaction and the lock. -/
def stage (w : World Blob) (input : StageInput) (time : String) : Option (World Blob) :=
  match w.writer with
  | .idle =>
    match persist Cid w.lastSeq w.repoSeq input.toEvent time with
    | .error _ => some w
    | .ok (seq, row, tx) =>
      some { w with writer := .staged tx [(seq, row)] ⟨input.toEvent.event seq time, none⟩ }
  | _ => none

def stageSync (w : World Blob) (input : SyncInput) (time : String) : Option (World Blob) :=
  match w.writer with
  | .staged tx rows ⟨primary, none⟩ =>
    let syncSeq := primary.seq + 1
    match stageSyncRow Cid tx input time syncSeq with
    | .error _ => some { w with writer := .idle }
    | .ok (row, tx) =>
      some
        { w with
          writer := .staged tx (rows ++ [(syncSeq, row)])
            ⟨primary, some ((EventInput.sync input).event syncSeq time)⟩ }
  | _ => none

end Writers

def commit (w : World Blob) : Option (World Blob) :=
  match w.writer with
  | .staged tx rows pending =>
    some
      { w with
        repoSeq := tx
        durable := w.durable ++ rows
        writer := .committed pending }
  | _ => none

def rollback (w : World Blob) : Option (World Blob) :=
  match w.writer with
  | .staged _ _ _ => some { w with writer := .idle }
  | _ => none

def finish (w : World Blob) : Option (World Blob) :=
  match w.writer with
  | .committed pending =>
    some
      { w with
        lastSeq := pending.seq
        sent := w.sent ++ pending.events
        writer := .idle }
  | _ => none

def cancel (w : World Blob) : Option (World Blob) :=
  match w.writer with
  | .committed _ => some { w with writer := .idle }
  | _ => none

/-! ## The retention pass -/

def beginSweep (w : World Blob) (config : FirehoseConfig) : Option (World Blob) :=
  match w.sweep with
  | .idle =>
    match Firehose.sweepMeasure config w.repoSeq with
    | .error _ => some w
    | .ok maxSeq => some { w with sweep := .measured config maxSeq }
  | _ => none

def boundSweep (w : World Blob) (cutoff : Option String) : Option (World Blob) :=
  match w.sweep with
  | .measured config maxSeq =>
    match sweepWatermark config cutoff maxSeq w.repoSeq with
    | .error _ => some { w with sweep := .idle }
    | .ok watermark => some { w with sweep := .clamped watermark }
  | _ => none

/-- `note_pruned`, an atomic `fetch_max`. -/
def notePruned (w : World Blob) : Option (World Blob) :=
  match w.sweep with
  | .clamped watermark =>
    some { w with pruneFloor := max w.pruneFloor watermark, sweep := .noted watermark }
  | _ => none

def pruneSweep (w : World Blob) : Option (World Blob) :=
  match w.writer, w.sweep with
  | .staged _ _ _, _ => none
  | _, .noted watermark =>
    match w.repoSeq.pruneBelow watermark with
    | .error _ => some { w with sweep := .idle }
    | .ok (_, db) => some { w with repoSeq := db, sweep := .idle }
  | _, _ => none

/-! ## Steps -/

/-- One step; `none` where the label is not enabled. -/
def step (Cid : Type) [CidText Cid] [DagCbor Blob] (w : World Blob) :
    Label → Option (World Blob)
  | .emit input time => w.emit Cid input time
  | .stage input time => w.stage Cid input time
  | .stageSync input time => w.stageSync Cid input time
  | .commit => w.commit
  | .rollback => w.rollback
  | .finish => w.finish
  | .cancel => w.cancel
  | .sweepMeasure config => w.beginSweep config
  | .sweepBoundary cutoff => w.boundSweep cutoff
  | .sweepNote => w.notePruned
  | .sweepPrune => w.pruneSweep
  | .sweepAbort => some { w with sweep := .idle }
  | .restart => some (new w.repoSeq w.durable)

end World

/-! ## What one step can do -/

section Moves

variable {Blob : Type} (Cid : Type) [CidText Cid] [DagCbor Blob]

/-- The outcomes of a step. -/
inductive Moves (w : World Blob) : Label → World Blob → Prop where
  | emitRefused {input : EventInput} {time : String}
      (hIdle : w.writer = .idle)
      (hFull : ∀ blob : Blob, input.prepare Cid time = .ok blob →
        i64Max < nextSeq w.lastSeq w.repoSeq) :
      Moves w (.emit input time) w
  | emitted {input : EventInput} {time : String} {blob : Blob} {db : RepoSeq Blob}
      (hIdle : w.writer = .idle) (hPrepare : input.prepare Cid time = .ok blob)
      (hInsert : w.repoSeq.insertEvent (nextSeq w.lastSeq w.repoSeq) (input.row time blob) =
        .ok db) :
      Moves w (.emit input time)
        { w with
          repoSeq := db
          durable := w.durable ++ [(nextSeq w.lastSeq w.repoSeq, input.row time blob)]
          writer := .committed ⟨input.event (nextSeq w.lastSeq w.repoSeq) time, none⟩ }
  | stageRefused {input : StageInput} {time : String} (hIdle : w.writer = .idle) :
      Moves w (.stage input time) w
  | staged {input : StageInput} {time : String} {blob : Blob} {tx : RepoSeq Blob}
      (hIdle : w.writer = .idle) (hPrepare : input.toEvent.prepare Cid time = .ok blob)
      (hInsert : w.repoSeq.insertEvent (nextSeq w.lastSeq w.repoSeq)
        (input.toEvent.row time blob) = .ok tx) :
      Moves w (.stage input time)
        { w with
          writer := .staged tx [(nextSeq w.lastSeq w.repoSeq, input.toEvent.row time blob)]
            ⟨input.toEvent.event (nextSeq w.lastSeq w.repoSeq) time, none⟩ }
  | chained {input : SyncInput} {time : String} {blob : Blob} {tx tx' : RepoSeq Blob}
      {rows : List (Nat × EventRow Blob)} {primary : FirehoseEvent}
      (hWriter : w.writer = .staged tx rows ⟨primary, none⟩)
      (hPrepare : (EventInput.sync input).prepare Cid time = .ok blob)
      (hInsert : tx.insertEvent (primary.seq + 1) ((EventInput.sync input).row time blob) =
        .ok tx') :
      Moves w (.stageSync input time)
        { w with
          writer := .staged tx'
            (rows ++ [(primary.seq + 1, (EventInput.sync input).row time blob)])
            ⟨primary, some ((EventInput.sync input).event (primary.seq + 1) time)⟩ }
  | abandoned {l : Label} {tx : RepoSeq Blob} {rows : List (Nat × EventRow Blob)}
      {pending : Pending} (hWriter : w.writer = .staged tx rows pending)
      (hLabel : l = .rollback ∨ ∃ input time, l = .stageSync input time) :
      Moves w l { w with writer := .idle }
  | committed {tx : RepoSeq Blob} {rows : List (Nat × EventRow Blob)} {pending : Pending}
      (hWriter : w.writer = .staged tx rows pending) :
      Moves w .commit
        { w with
          repoSeq := tx
          durable := w.durable ++ rows
          writer := .committed pending }
  | finished {pending : Pending} (hWriter : w.writer = .committed pending) :
      Moves w .finish
        { w with
          lastSeq := pending.seq
          sent := w.sent ++ pending.events
          writer := .idle }
  | cancelled {pending : Pending} (hWriter : w.writer = .committed pending) :
      Moves w .cancel { w with writer := .idle }
  | sweepInert {config : FirehoseConfig} : Moves w (.sweepMeasure config) w
  | sweepMeasured {config : FirehoseConfig} (hPos : 0 < w.repoSeq.maxSeq) :
      Moves w (.sweepMeasure config)
        { w with sweep := .measured config w.repoSeq.maxSeq }
  | sweepClamped {config : FirehoseConfig} {cutoff : Option String} {m watermark : Nat}
      (hSweep : w.sweep = .measured config m) (hPos : 0 < watermark) (hLt : watermark < m) :
      Moves w (.sweepBoundary cutoff) { w with sweep := .clamped watermark }
  | sweepNoted {watermark : Nat} (hSweep : w.sweep = .clamped watermark) :
      Moves w .sweepNote
        { w with pruneFloor := max w.pruneFloor watermark, sweep := .noted watermark }
  | sweepPruned {watermark : Nat} (hSweep : w.sweep = .noted watermark)
      (hWriter : ∀ tx rows pending, w.writer ≠ .staged tx rows pending) :
      Moves w .sweepPrune { w with repoSeq := w.repoSeq.prune watermark, sweep := .idle }
  | sweepEnded {l : Label}
      (hLabel : l = .sweepAbort ∨ l = .sweepPrune ∨ ∃ cutoff, l = .sweepBoundary cutoff) :
      Moves w l { w with sweep := .idle }
  | restarted : Moves w .restart (World.new w.repoSeq w.durable)

theorem moves_of_step {w t : World Blob} {l : Label} (h : w.step Cid l = some t) :
    Moves Cid w l t := by
  cases l with
  | emit input time =>
    simp only [World.step, World.emit] at h
    split at h
    · rename_i hIdle
      split at h
      · rename_i e hErr
        cases h
        refine .emitRefused hIdle ?_
        intro blob hBlob
        by_contra hLe
        obtain ⟨u, hu⟩ := persist_isOk hBlob (not_lt.mp hLe)
        rw [hErr] at hu
        cases hu
      · rename_i seq row db hOk
        cases h
        obtain ⟨blob, hBlob, rfl, rfl, hIns⟩ := persist_ok hOk
        exact .emitted hIdle hBlob hIns
    · cases h
  | stage input time =>
    simp only [World.step, World.stage] at h
    split at h
    · rename_i hIdle
      split at h
      · cases h
        exact .stageRefused hIdle
      · rename_i seq row db hOk
        cases h
        obtain ⟨blob, hBlob, rfl, rfl, hIns⟩ := persist_ok hOk
        exact .staged hIdle hBlob hIns
    · cases h
  | stageSync input time =>
    simp only [World.step, World.stageSync] at h
    split at h
    · rename_i tx rows primary hWriter
      split at h
      · cases h
        exact .abandoned hWriter (Or.inr ⟨input, time, rfl⟩)
      · rename_i row tx' hOk
        cases h
        obtain ⟨blob, hBlob, rfl, hIns⟩ := stageSyncRow_ok hOk
        exact .chained hWriter hBlob hIns
    · cases h
  | commit =>
    simp only [World.step, World.commit] at h
    split at h
    · rename_i hWriter
      cases h
      exact .committed hWriter
    · cases h
  | rollback =>
    simp only [World.step, World.rollback] at h
    split at h
    · rename_i hWriter
      cases h
      exact .abandoned hWriter (Or.inl rfl)
    · cases h
  | finish =>
    simp only [World.step, World.finish] at h
    split at h
    · rename_i hWriter
      cases h
      exact .finished hWriter
    · cases h
  | cancel =>
    simp only [World.step, World.cancel] at h
    split at h
    · rename_i hWriter
      cases h
      exact .cancelled hWriter
    · cases h
  | sweepMeasure config =>
    simp only [World.step, World.beginSweep] at h
    split at h
    · split at h
      · cases h
        exact .sweepInert
      · rename_i m hm
        cases h
        obtain ⟨rfl, hPos⟩ := sweepMeasure_ok hm
        exact .sweepMeasured hPos
    · cases h
  | sweepBoundary cutoff =>
    simp only [World.step, World.boundSweep] at h
    split at h
    · rename_i config m hSweep
      split at h
      · cases h
        exact .sweepEnded (Or.inr (Or.inr ⟨cutoff, rfl⟩))
      · rename_i watermark hw
        cases h
        exact .sweepClamped hSweep (sweepWatermark_lt hw).1 (sweepWatermark_lt hw).2
    · cases h
  | sweepNote =>
    simp only [World.step, World.notePruned] at h
    split at h
    · rename_i hSweep
      cases h
      exact .sweepNoted hSweep
    · cases h
  | sweepPrune =>
    simp only [World.step, World.pruneSweep] at h
    split at h
    · cases h
    · rename_i watermark hSweep hWriter
      split at h
      · cases h
        exact .sweepEnded (Or.inr (Or.inl rfl))
      · rename_i n db hOk
        cases h
        rw [RepoSeq.pruneBelow_ok hOk]
        exact .sweepPruned hSweep hWriter
    · cases h
  | sweepAbort =>
    cases h
    exact .sweepEnded (Or.inl rfl)
  | restart =>
    cases h
    exact .restarted

end Moves

end Ezpds.Firehose
