import Ezpds.Firehose.RepoSeq

/-!
# Taking a sequence number

`insert_at_frontier` tries the number after the in-memory frontier and, when a row holds
it already, the number after `MAX(seq)`. The staged paths hand the rows to the caller's
transaction and keep the events in a `Pending` handle until `finish`.

* `insertAtFrontier_ok`: an insertion takes exactly `nextSeq`.
* `nextSeq_gt_iff`: `nextSeq` is above every stored number unless the in-memory frontier
  lags and the row after it is gone.
-/

namespace Ezpds.Firehose

open Library

variable {Blob : Type}

/-- Insert one row at the sequence frontier, with one retry at `MAX(seq) + 1`. -/
def insertAtFrontier (lastSeq : Nat) (conn : RepoSeq Blob) (row : EventRow Blob) :
    Except FirehoseError (Nat × RepoSeq Blob) :=
  let seq := lastSeq + 1
  match conn.insertEvent seq row with
  | .ok conn => .ok (seq, conn)
  | .error .uniqueViolation =>
    let healedSeq := conn.maxSeq + 1
    match conn.insertEvent healedSeq row with
    | .ok conn => .ok (healedSeq, conn)
    | .error e => .error (.db e)
  | .error e => .error (.db e)

/-- The number that `insertAtFrontier` takes. -/
def nextSeq (lastSeq : Nat) (conn : RepoSeq Blob) : Nat :=
  if lastSeq + 1 ∈ conn.seqs then conn.maxSeq + 1 else lastSeq + 1

theorem nextSeq_pos (lastSeq : Nat) (conn : RepoSeq Blob) : 0 < nextSeq lastSeq conn := by
  unfold nextSeq
  split <;> omega

theorem nextSeq_not_mem (lastSeq : Nat) (conn : RepoSeq Blob) :
    nextSeq lastSeq conn ∉ conn.seqs := by
  unfold nextSeq
  split
  · intro h
    have : conn.maxSeq + 1 ≤ conn.maxSeq := SeqTable.le_maxKey h
    omega
  · assumption

theorem lt_nextSeq {lastSeq : Nat} {conn : RepoSeq Blob} (h : lastSeq ≤ conn.maxSeq) :
    lastSeq < nextSeq lastSeq conn := by
  unfold nextSeq
  split <;> omega

/-- The frontier lags only behind a row that directly follows it. -/
def FrontierCovered (lastSeq : Nat) (conn : RepoSeq Blob) : Prop :=
  lastSeq < conn.maxSeq → lastSeq + 1 ∈ conn.seqs

theorem nextSeq_gt_iff {lastSeq : Nat} {conn : RepoSeq Blob} (h : lastSeq ≤ conn.maxSeq) :
    conn.maxSeq < nextSeq lastSeq conn ↔ FrontierCovered lastSeq conn := by
  unfold nextSeq FrontierCovered
  split
  · rename_i hMem
    simp [hMem]
  · rename_i hMem
    simp only [hMem, imp_false]
    omega

theorem insertAtFrontier_ok {lastSeq seq : Nat} {conn u : RepoSeq Blob} {row : EventRow Blob} :
    insertAtFrontier lastSeq conn row = .ok (seq, u) ↔
      seq = nextSeq lastSeq conn ∧ conn.insertEvent seq row = .ok u := by
  unfold insertAtFrontier nextSeq
  by_cases hMem : lastSeq + 1 ∈ conn.seqs
  · have hv : conn.insertEvent (lastSeq + 1) row = .error .uniqueViolation :=
      RepoSeq.insertEvent_uniqueViolation.mpr ⟨conn.bounded _ hMem, hMem⟩
    rw [if_pos hMem]
    simp only [hv]
    split
    · rename_i v hIns
      simp only [Except.ok.injEq, Prod.mk.injEq]
      constructor
      · rintro ⟨rfl, rfl⟩
        exact ⟨rfl, hIns⟩
      · rintro ⟨rfl, hu⟩
        rw [hIns] at hu
        cases hu
        exact ⟨rfl, rfl⟩
    · rename_i e hIns
      simp only [reduceCtorEq, false_iff, not_and]
      rintro rfl hu
      rw [hIns] at hu
      cases hu
  · rw [if_neg hMem]
    simp only
    split
    · rename_i v hIns
      simp only [Except.ok.injEq, Prod.mk.injEq]
      constructor
      · rintro ⟨rfl, rfl⟩
        exact ⟨rfl, hIns⟩
      · rintro ⟨rfl, hu⟩
        rw [hIns] at hu
        cases hu
        exact ⟨rfl, rfl⟩
    · rename_i hIns
      exact absurd (RepoSeq.insertEvent_uniqueViolation.mp hIns).2 hMem
    · rename_i e _ hIns
      simp only [reduceCtorEq, false_iff, not_and]
      rintro rfl hu
      rw [hIns] at hu
      cases hu

/-- A representable next number is taken. -/
theorem insertAtFrontier_isOk {lastSeq : Nat} {conn : RepoSeq Blob} (row : EventRow Blob)
    (h : nextSeq lastSeq conn ≤ i64Max) :
    ∃ u, insertAtFrontier lastSeq conn row = .ok (nextSeq lastSeq conn, u) := by
  obtain ⟨u, hu⟩ := conn.insertEvent_isOk row h (nextSeq_not_mem lastSeq conn)
  exact ⟨u, insertAtFrontier_ok.mpr ⟨rfl, hu⟩⟩

/-! ## Staged events -/

/-- `PendingCommit`, `PendingAccount` and `PendingWithSync`: one staged event, with at
most one `#sync` chained onto it. -/
structure Pending where
  primary : FirehoseEvent
  sync : Option FirehoseEvent

namespace Pending

/-- The events that `finish` broadcasts, in order. -/
def events (p : Pending) : List FirehoseEvent :=
  p.primary :: p.sync.toList

/-- The number that `finish` stores in `last_seq`. -/
def seq (p : Pending) : Nat :=
  match p.sync with
  | none => p.primary.seq
  | some sync => sync.seq

end Pending

section Persist

variable (Cid : Type) [CidText Cid] [DagCbor Blob]

def EventInput.row (input : EventInput) (time : String) (blob : Blob) : EventRow Blob where
  did := input.did
  eventType := input.eventType
  event := blob
  sequencedAt := time

/-- What `emit_*` and `stage_*` do to the table before anything is broadcast: check and
encode the event, and insert its row at the frontier. -/
def persist (lastSeq : Nat) (conn : RepoSeq Blob) (input : EventInput) (time : String) :
    Except FirehoseError (Nat × EventRow Blob × RepoSeq Blob) := do
  let blob ← input.prepare Cid time
  let (seq, conn) ← insertAtFrontier lastSeq conn (input.row time blob)
  return (seq, input.row time blob, conn)

/-- `stage_sync_row`: the row of a chained `#sync`, at the number after the primary. -/
def stageSyncRow (conn : RepoSeq Blob) (input : SyncInput) (time : String) (seq : Nat) :
    Except FirehoseError (EventRow Blob × RepoSeq Blob) := do
  let blob ← (EventInput.sync input).prepare Cid time
  let row := (EventInput.sync input).row time blob
  let conn ← (conn.insertEvent seq row).mapError .db
  return (row, conn)

variable {Cid}

theorem persist_ok {lastSeq seq : Nat} {conn u : RepoSeq Blob} {input : EventInput}
    {time : String} {row : EventRow Blob}
    (h : persist Cid lastSeq conn input time = .ok (seq, row, u)) :
    ∃ blob, input.prepare Cid time = .ok blob ∧ row = input.row time blob ∧
      seq = nextSeq lastSeq conn ∧ conn.insertEvent seq row = .ok u := by
  obtain ⟨blob, hBlob, h⟩ := bind_ok.mp h
  obtain ⟨⟨s, c⟩, hIns, h⟩ := bind_ok.mp h
  cases h
  obtain ⟨rfl, hu⟩ := insertAtFrontier_ok.mp hIns
  exact ⟨blob, hBlob, rfl, rfl, hu⟩

theorem persist_isOk {lastSeq : Nat} {conn : RepoSeq Blob} {input : EventInput}
    {time : String} {blob : Blob} (hBlob : input.prepare Cid time = .ok blob)
    (h : nextSeq lastSeq conn ≤ i64Max) :
    ∃ u, persist Cid lastSeq conn input time =
      .ok (nextSeq lastSeq conn, input.row time blob, u) := by
  obtain ⟨u, hu⟩ := insertAtFrontier_isOk (input.row time blob) h
  exact ⟨u, bind_ok.mpr ⟨blob, hBlob, bind_ok.mpr ⟨_, hu, rfl⟩⟩⟩

theorem stageSyncRow_ok {seq : Nat} {conn u : RepoSeq Blob} {input : SyncInput}
    {time : String} {row : EventRow Blob}
    (h : stageSyncRow Cid conn input time seq = .ok (row, u)) :
    ∃ blob, (EventInput.sync input).prepare Cid time = .ok blob ∧
      row = (EventInput.sync input).row time blob ∧ conn.insertEvent seq row = .ok u := by
  obtain ⟨blob, hBlob, h⟩ := bind_ok.mp h
  obtain ⟨c, hIns, h⟩ := bind_ok.mp h
  cases h
  exact ⟨blob, hBlob, rfl, mapError_ok.mp hIns⟩

/-- A row written for an event decodes, to that event less its record values. -/
theorem decode_row [LawfulDagCbor Blob] {input : EventInput} {time : String} {blob : Blob}
    (h : input.prepare Cid time = .ok blob) (seq : Nat) :
    decodeStoredEvent seq (input.row time blob).eventType (input.row time blob).event =
      .ok (input.event seq time).eraseValues := by
  obtain ⟨_, _, h⟩ := bind_ok.mp h
  exact decodeStoredEvent_encode h seq

end Persist

end Ezpds.Firehose
