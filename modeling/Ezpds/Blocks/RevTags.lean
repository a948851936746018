import Ezpds.Blocks.Safety
import Ezpds.Library.Except
import Ezpds.Repo.Tid

/-!
# Revision tags and incremental exports

The ownership rows of one account, with the revision that each is tagged with, and the
record writes of that account. A write holds the account's lock from before it reads the
head until its sweep has ended, so there is at most one, and the head that its
compare-and-swap asks for is the head that it read. Every step is one database statement,
or one transaction where the code opens one.

`past` is no table: it remembers the heads that the account had, newest first.

* `State.step`: the machine. A write that has persisted its head leaves `tagging` only
  when no tag is pending.
* `getRepo_since_complete`: an export since a past head, on top of that head's repository,
  holds every block of the current one.
-/

namespace Ezpds.Blocks.RevTags

open Library Repo

/-! ## State -/

/-- A row of `block_owners`: its `rev` is NULL until the commit of the block is final. -/
structure OwnerRow (Cid : Type) where
  cid : Cid
  rev : Option String
  deriving DecidableEq

structure Head (Cid : Type) where
  root : Cid
  rev : String
  deriving DecidableEq

inductive WritePhase (Cid : Type) where
  | idle
  /-- The blocks that the engine wrote. -/
  | staging (staged : List Cid)
  /-- The new head is persisted; `pending` are the blocks that it still has to tag. -/
  | tagging (pending : List Cid)
  | sweeping (garbage : List Cid)
  deriving DecidableEq

def WritePhase.pending {Cid : Type} : WritePhase Cid → List Cid
  | .tagging pending => pending
  | _ => []

structure State (Cid : Type) where
  rows : List (OwnerRow Cid)
  head : Head Cid
  past : List (Head Cid)
  phase : WritePhase Cid

inductive Label (Cid : Type) where
  | beginWrite
  | writeBlock (cid : Cid)
  | commitWrite (root : Cid) (clocks : List Clock)
  | tagBlocks
  | selectUnreachable
  | deleteOwners
  | endWrite

def Label.isCommit {Cid : Type} : Label Cid → Bool
  | .commitWrite _ _ => true
  | _ => false

/-! ## Statements on the ownership rows -/

variable {Cid : Type} [DecidableEq Cid]

/-- `put_block`: `ON CONFLICT DO NOTHING`. -/
def putBlock (rows : List (OwnerRow Cid)) (cid : Cid) : List (OwnerRow Cid) :=
  if cid ∈ rows.map OwnerRow.cid then rows else rows ++ [⟨cid, none⟩]

/-- `UPDATE block_owners SET rev = ? WHERE cid IN (..)`. -/
def tagBlocksRev (rows : List (OwnerRow Cid)) (cids : List Cid) (rev : String) :
    List (OwnerRow Cid) :=
  rows.map fun row => if row.cid ∈ cids then { row with rev := some rev } else row

/-- `put_block_with_rev` with a rev: `ON CONFLICT DO UPDATE`. -/
def putBlockWithRev (rev : String) (rows : List (OwnerRow Cid)) (cid : Cid) :
    List (OwnerRow Cid) :=
  if cid ∈ rows.map OwnerRow.cid then tagBlocksRev rows [cid] rev
  else rows ++ [⟨cid, some rev⟩]

def deleteOwnerRows (rows : List (OwnerRow Cid)) (cids : List Cid) : List (OwnerRow Cid) :=
  rows.filter fun row => row.cid ∉ cids

/-- `rev > ?` holds of no NULL. -/
def listBlockCidsSince (rows : List (OwnerRow Cid)) (since : String) : List Cid :=
  (rows.filter fun row => row.rev.any (since < ·)).map OwnerRow.cid

/-! ## Steps -/

namespace State

/-- A genesis or an import: every block of the head carries its rev. -/
def opened (dag : Dag Cid) (rows : List (OwnerRow Cid)) (root : Cid) (rev : String) :
    State Cid where
  rows := (dag.reach root).foldl (putBlockWithRev rev) rows
  head := ⟨root, rev⟩
  past := []
  phase := .idle

def beginWrite (s : State Cid) : Option (State Cid) :=
  match s.phase with
  | .idle => some { s with phase := .staging [] }
  | _ => none

def writeBlock (s : State Cid) (cid : Cid) : Option (State Cid) :=
  match s.phase with
  | .staging staged =>
    some { s with rows := putBlock s.rows cid, phase := .staging (cid :: staged) }
  | _ => none

/-- The rev of the last of the commits that one write makes, from the rev of the head. -/
def nextRev (tidNew : String → Except String Unit) (rev : String) (clocks : List Clock) :
    Except RecordError String :=
  clocks.foldlM (fun prevRev now => nextCommitRev tidNew now prevRev) rev

/-- `collect_commit_diff` and the transaction that advances the head. The engine wrote
every block of the new head that the old one does not reach. -/
def commitWrite (dag : Dag Cid) (tidNew : String → Except String Unit) (s : State Cid)
    (root : Cid) (clocks : List Clock) : Option (State Cid) :=
  match s.phase, nextRev tidNew s.head.rev clocks with
  | .staging staged, .ok rev =>
    if clocks ≠ [] ∧ ∀ c ∈ dag.reach root, c ∈ staged ∨ c ∈ dag.reach s.head.root then
      let added := (dag.reach root).filter (· ∉ dag.reach s.head.root)
      some { s with
        head := ⟨root, rev⟩
        past := s.head :: s.past
        phase := .tagging added }
    else none
  | _, _ => none

def tagChunk : Nat := 500

/-- One statement of `tag_blocks_rev`. -/
def tagBlocks (s : State Cid) : Option (State Cid) :=
  match s.phase with
  | .tagging (c :: pending) =>
    some { s with
      rows := tagBlocksRev s.rows ((c :: pending).take tagChunk) s.head.rev
      phase := .tagging ((c :: pending).drop tagChunk) }
  | _ => none

/-- The listing of `delete_unreachable_blocks`, less the keep-set. -/
def selectUnreachable (dag : Dag Cid) (s : State Cid) : Option (State Cid) :=
  match s.phase with
  | .tagging [] =>
    let garbage := (s.rows.map OwnerRow.cid).filter (· ∉ dag.reach s.head.root)
    some { s with phase := .sweeping garbage }
  | _ => none

def deleteOwners (s : State Cid) : Option (State Cid) :=
  match s.phase with
  | .sweeping (c :: garbage) =>
    some { s with
      rows := deleteOwnerRows s.rows ((c :: garbage).take Blocks.State.sweepChunk)
      phase := .sweeping ((c :: garbage).drop Blocks.State.sweepChunk) }
  | _ => none

/-- The request returned, failed or was dropped, and not while a tag is pending. -/
def endWrite (s : State Cid) : Option (State Cid) :=
  match s.phase with
  | .idle | .tagging (_ :: _) => none
  | _ => some { s with phase := .idle }

def step (dag : Dag Cid) (tidNew : String → Except String Unit) (s : State Cid) :
    Label Cid → Option (State Cid)
  | .beginWrite => s.beginWrite
  | .writeBlock cid => s.writeBlock cid
  | .commitWrite root clocks => s.commitWrite dag tidNew root clocks
  | .tagBlocks => s.tagBlocks
  | .selectUnreachable => s.selectUnreachable dag
  | .deleteOwners => s.deleteOwners
  | .endWrite => s.endWrite

/-- The blocks that `getRepo` streams. An empty `since` is no `since`, and the block of the
head is always there. -/
def getRepo (dag : Dag Cid) (s : State Cid) (since : Option String) : List Cid :=
  match since.filter (· ≠ "") with
  | none => dag.reach s.head.root
  | some since =>
    let cids := listBlockCidsSince s.rows since
    if s.head.root ∈ cids then cids else cids ++ [s.head.root]

end State

/-! ## What the statements do to a tag -/

variable {rows : List (OwnerRow Cid)} {cids : List Cid} {cid c : Cid} {rev r : String}

/-- The account owns the block, and its row carries the tag. -/
def Tagged (rows : List (OwnerRow Cid)) (c : Cid) (r : String) : Prop :=
  (⟨c, some r⟩ : OwnerRow Cid) ∈ rows

theorem Tagged.putBlock (h : Tagged rows c r) : Tagged (putBlock rows cid) c r := by
  rw [RevTags.putBlock]
  split
  · exact h
  · exact List.mem_append_left _ h

theorem mem_putBlock : cid ∈ (putBlock rows cid).map OwnerRow.cid := by
  rw [putBlock]
  split
  · assumption
  · simp

theorem mem_putBlock_of_mem (h : c ∈ rows.map OwnerRow.cid) :
    c ∈ (putBlock rows cid).map OwnerRow.cid := by
  rw [putBlock]
  split
  · exact h
  · rw [List.map_append]
    exact List.mem_append_left _ h

theorem cids_tagBlocksRev :
    (tagBlocksRev rows cids rev).map OwnerRow.cid = rows.map OwnerRow.cid := by
  rw [tagBlocksRev, List.map_map]
  apply List.map_congr_left
  intro row _
  simp only [Function.comp_apply]
  split <;> rfl

theorem tagged_tagBlocksRev (hRow : c ∈ rows.map OwnerRow.cid) (hc : c ∈ cids) :
    Tagged (tagBlocksRev rows cids rev) c rev := by
  obtain ⟨row, hMem, rfl⟩ := List.mem_map.mp hRow
  refine List.mem_map.mpr ⟨row, hMem, ?_⟩
  rw [if_pos hc]

theorem Tagged.tagBlocksRev_of_notMem (h : Tagged rows c r) (hc : c ∉ cids) :
    Tagged (tagBlocksRev rows cids rev) c r := by
  refine List.mem_map.mpr ⟨_, h, ?_⟩
  rw [if_neg hc]

theorem tagged_putBlockWithRev : Tagged (putBlockWithRev rev rows cid) cid rev := by
  rw [putBlockWithRev]
  split
  · rename_i hRow
    exact tagged_tagBlocksRev hRow List.mem_cons_self
  · exact List.mem_append_right _ List.mem_cons_self

theorem Tagged.putBlockWithRev (h : Tagged rows c rev) :
    Tagged (putBlockWithRev rev rows cid) c rev := by
  rw [RevTags.putBlockWithRev]
  split
  · rename_i hRow
    by_cases hEq : c = cid
    · subst hEq
      exact tagged_tagBlocksRev hRow List.mem_cons_self
    · exact h.tagBlocksRev_of_notMem fun hc => hEq (List.mem_singleton.mp hc)
  · exact List.mem_append_left _ h

theorem tagged_foldl_putBlockWithRev (h : c ∈ cids ∨ Tagged rows c rev) :
    Tagged (cids.foldl (RevTags.putBlockWithRev rev) rows) c rev := by
  induction cids generalizing rows with
  | nil => exact h.resolve_left List.not_mem_nil
  | cons d cids ih =>
    apply ih
    rcases h with hc | h
    · rcases List.mem_cons.mp hc with rfl | hc
      · exact .inr tagged_putBlockWithRev
      · exact .inl hc
    · exact .inr h.putBlockWithRev

theorem Tagged.deleteOwnerRows (h : Tagged rows c r) (hc : c ∉ cids) :
    Tagged (deleteOwnerRows rows cids) c r :=
  List.mem_filter.mpr ⟨h, by simpa using hc⟩

omit [DecidableEq Cid] in
theorem mem_listBlockCidsSince {since : String} :
    c ∈ listBlockCidsSince rows since ↔ ∃ r, Tagged rows c r ∧ since < r := by
  rw [listBlockCidsSince, List.mem_map]
  constructor
  · rintro ⟨⟨d, tag⟩, hRow, rfl⟩
    obtain ⟨hMem, hRev⟩ := List.mem_filter.mp hRow
    cases tag with
    | none => cases hRev
    | some r => exact ⟨r, hMem, by simpa using hRev⟩
  · rintro ⟨r, hRow, hLt⟩
    exact ⟨_, List.mem_filter.mpr ⟨hRow, by simpa using hLt⟩, rfl⟩

/-! ## The revisions of one write -/

variable {tidNew : String → Except String Unit} {prevRev : String} {clocks : List Clock}

theorem nextRev_le (h : isValidTid prevRev = true)
    (hNext : State.nextRev tidNew prevRev clocks = .ok rev) :
    isValidTid rev = true ∧ prevRev ≤ rev := by
  induction clocks generalizing prevRev with
  | nil =>
    cases hNext
    exact ⟨h, le_refl _⟩
  | cons now clocks ih =>
    obtain ⟨mid, hMid, hRest⟩ := bind_ok.mp hNext
    obtain ⟨hValid, hLe, _⟩ := nextCommitRev_above h hMid
    obtain ⟨hRev, hAbove⟩ := ih hValid hRest
    exact ⟨hRev, le_trans hLe hAbove⟩

theorem nextRev_lt (h : isValidTid prevRev = true) (hLast : prevRev ≠ lastTid)
    (hClocks : clocks ≠ []) (hNext : State.nextRev tidNew prevRev clocks = .ok rev) :
    prevRev < rev := by
  cases clocks with
  | nil => exact absurd rfl hClocks
  | cons now clocks =>
    obtain ⟨mid, hMid, hRest⟩ := bind_ok.mp hNext
    obtain ⟨hValid, _, hLt⟩ := nextCommitRev_above h hMid
    exact lt_of_lt_of_le (hLt.mpr hLast) (nextRev_le hValid hRest).2

/-! ## The invariant -/

/-- The tag `r` of the block is newer than every past repository without it. -/
def Newer (dag : Dag Cid) (past : List (Head Cid)) (c : Cid) (r : String) : Prop :=
  ∀ h ∈ past, c ∉ dag.reach h.root → h.rev < r

structure Inv (dag : Dag Cid) (s : State Cid) : Prop where
  valid : isValidTid s.head.rev = true
  older : ∀ h ∈ s.past, h.rev < s.head.rev
  live : ∀ c ∈ dag.reach s.head.root,
    c ∈ s.phase.pending ∨ ∃ r, Tagged s.rows c r ∧ Newer dag s.past c r
  pending : ∀ c ∈ s.phase.pending, c ∈ s.rows.map OwnerRow.cid
  staged : ∀ staged, s.phase = .staging staged → ∀ c ∈ staged, c ∈ s.rows.map OwnerRow.cid
  garbage : ∀ garbage, s.phase = .sweeping garbage → ∀ c ∈ garbage, c ∉ dag.reach s.head.root

variable {dag : Dag Cid} {s t : State Cid}

theorem inv_opened {root : Cid} (h : isValidTid rev = true) :
    Inv dag (State.opened dag rows root rev) where
  valid := h
  older := by
    intro h hPast
    cases hPast
  live := by
    intro c hc
    refine .inr ⟨rev, tagged_foldl_putBlockWithRev (.inl hc), ?_⟩
    intro h hPast
    cases hPast
  pending := by
    intro c hc
    cases hc
  staged := by
    intro staged hPhase
    cases hPhase
  garbage := by
    intro garbage hPhase
    cases hPhase

omit [DecidableEq Cid] in
/-- Without a pending tag the whole head is tagged. -/
theorem Inv.tagged (h : Inv dag s) (hPending : s.phase.pending = []) :
    ∀ c ∈ dag.reach s.head.root, ∃ r, Tagged s.rows c r ∧ Newer dag s.past c r := by
  intro c hc
  apply (h.live c hc).resolve_left
  rw [hPending]
  exact List.not_mem_nil

omit [DecidableEq Cid] in
/-- A step that neither finds nor leaves a pending tag, and keeps the head and its tags. -/
theorem Inv.settled (h : Inv dag s) (hBefore : s.phase.pending = []) (hHead : t.head = s.head)
    (hPast : t.past = s.past) (hAfter : t.phase.pending = [])
    (hRows : ∀ c ∈ dag.reach s.head.root, ∀ r, Tagged s.rows c r → Tagged t.rows c r)
    (hStaged : ∀ staged, t.phase = .staging staged →
      ∀ c ∈ staged, c ∈ t.rows.map OwnerRow.cid)
    (hGarbage : ∀ garbage, t.phase = .sweeping garbage →
      ∀ c ∈ garbage, c ∉ dag.reach s.head.root) : Inv dag t where
  valid := hHead ▸ h.valid
  older := by
    rw [hHead, hPast]
    exact h.older
  live := by
    rw [hHead, hPast]
    intro c hc
    obtain ⟨r, hRow, hNewer⟩ := h.tagged hBefore c hc
    exact .inr ⟨r, hRows c hc r hRow, hNewer⟩
  pending := by
    rw [hAfter]
    intro c hc
    cases hc
  staged := hStaged
  garbage := by
    rw [hHead]
    exact hGarbage

omit [DecidableEq Cid] in
theorem inv_beginWrite (h : Inv dag s) (hStep : s.beginWrite = some t) : Inv dag t := by
  rw [State.beginWrite] at hStep
  split at hStep
  · rename_i hPhase
    cases hStep
    refine h.settled (by rw [hPhase]; rfl) rfl rfl rfl (fun _ _ _ hRow => hRow) ?_ ?_
    · intro staged hStaged c hc
      cases hStaged
      cases hc
    · intro garbage hGarbage
      cases hGarbage
  · cases hStep

theorem inv_writeBlock (h : Inv dag s) (hStep : s.writeBlock cid = some t) : Inv dag t := by
  rw [State.writeBlock] at hStep
  split at hStep
  · rename_i staged hPhase
    cases hStep
    refine h.settled (by rw [hPhase]; rfl) rfl rfl rfl (fun _ _ _ hRow => hRow.putBlock) ?_ ?_
    · intro staged' hStaged c hc
      cases hStaged
      rcases List.mem_cons.mp hc with rfl | hc
      · exact mem_putBlock
      · exact mem_putBlock_of_mem (h.staged staged hPhase c hc)
    · intro garbage hGarbage
      cases hGarbage
  · cases hStep

/-- What the new head keeps of the old one keeps its tag; what it adds is pending. -/
theorem inv_commitWrite {root : Cid} (h : Inv dag s) (hLast : s.head.rev ≠ lastTid)
    (hStep : s.commitWrite dag tidNew root clocks = some t) : Inv dag t := by
  rw [State.commitWrite] at hStep
  split at hStep
  · rename_i staged rev hPhase hNext
    split at hStep
    · rename_i hCommit
      cases hStep
      obtain ⟨hClocks, hStaged⟩ := hCommit
      have hTagged := h.tagged (by rw [hPhase]; rfl)
      have hLt := nextRev_lt h.valid hLast hClocks hNext
      refine ⟨(nextRev_le h.valid hNext).1, ?_, ?_, ?_, ?_, ?_⟩
      · intro past hPast
        rcases List.mem_cons.mp hPast with rfl | hPast
        · exact hLt
        · exact lt_trans (h.older past hPast) hLt
      · intro c hc
        by_cases hOld : c ∈ dag.reach s.head.root
        · obtain ⟨r, hRow, hNewer⟩ := hTagged c hOld
          refine .inr ⟨r, hRow, ?_⟩
          intro past hPast hMissing
          rcases List.mem_cons.mp hPast with rfl | hPast
          · exact absurd hOld hMissing
          · exact hNewer past hPast hMissing
        · exact .inl (List.mem_filter.mpr ⟨hc, by simpa using hOld⟩)
      · intro c hc
        obtain ⟨hNew, hOld⟩ := List.mem_filter.mp hc
        have hWritten := (hStaged c hNew).resolve_right (by simpa using hOld)
        exact h.staged staged hPhase c hWritten
      · intro staged' hPhase'
        cases hPhase'
      · intro garbage hGarbage
        cases hGarbage
    · cases hStep
  · cases hStep

theorem inv_tagBlocks (h : Inv dag s) (hStep : s.tagBlocks = some t) : Inv dag t := by
  rw [State.tagBlocks] at hStep
  split at hStep
  · rename_i d pending hPhase
    cases hStep
    have hPending : s.phase.pending = d :: pending := by rw [hPhase]; rfl
    refine ⟨h.valid, h.older, ?_, ?_, ?_, ?_⟩
    · intro c hc
      -- a block of this chunk gets the rev of the head, which is newer than every past one
      by_cases hChunk : c ∈ (d :: pending).take State.tagChunk
      · have hRow := h.pending c (hPending ▸ List.mem_of_mem_take hChunk)
        exact .inr ⟨_, tagged_tagBlocksRev hRow hChunk, fun past hPast _ => h.older past hPast⟩
      · rcases h.live c hc with hc | ⟨r, hRow, hNewer⟩
        · rw [hPending, ← List.take_append_drop State.tagChunk (d :: pending)] at hc
          exact .inl ((List.mem_append.mp hc).resolve_left hChunk)
        · exact .inr ⟨r, hRow.tagBlocksRev_of_notMem hChunk, hNewer⟩
    · intro c hc
      rw [cids_tagBlocksRev]
      exact h.pending c (hPending ▸ List.mem_of_mem_drop hc)
    · intro staged hStaged
      cases hStaged
    · intro garbage hGarbage
      cases hGarbage
  · cases hStep

theorem inv_selectUnreachable (h : Inv dag s) (hStep : s.selectUnreachable dag = some t) :
    Inv dag t := by
  rw [State.selectUnreachable] at hStep
  split at hStep
  · rename_i hPhase
    cases hStep
    refine h.settled (by rw [hPhase]; rfl) rfl rfl rfl (fun _ _ _ hRow => hRow) ?_ ?_
    · intro staged hStaged
      cases hStaged
    · intro garbage hGarbage c hc
      cases hGarbage
      simpa using (List.mem_filter.mp hc).2
  · cases hStep

theorem inv_deleteOwners (h : Inv dag s) (hStep : s.deleteOwners = some t) : Inv dag t := by
  rw [State.deleteOwners] at hStep
  split at hStep
  · rename_i d garbage hPhase
    cases hStep
    have hGarbage := h.garbage _ hPhase
    refine h.settled (by rw [hPhase]; rfl) rfl rfl rfl ?_ ?_ ?_
    · intro c hc r hRow
      have hKept : c ∉ (d :: garbage).take Blocks.State.sweepChunk := fun hChunk =>
        hGarbage c (List.mem_of_mem_take hChunk) hc
      exact hRow.deleteOwnerRows hKept
    · intro staged hStaged
      cases hStaged
    · intro rest hRest c hc
      cases hRest
      exact hGarbage c (List.mem_of_mem_drop hc)
  · cases hStep

omit [DecidableEq Cid] in
theorem inv_endWrite (h : Inv dag s) (hStep : s.endWrite = some t) : Inv dag t := by
  rw [State.endWrite] at hStep
  split at hStep
  · cases hStep
  · cases hStep
  · rename_i hIdle hPendingTags
    cases hStep
    have hPending : s.phase.pending = [] := by
      cases hPhase : s.phase with
      | tagging pending =>
        cases pending with
        | nil => rfl
        | cons d pending => exact absurd hPhase (hPendingTags d pending)
      | _ => rfl
    refine h.settled hPending rfl rfl rfl (fun _ _ _ hRow => hRow) ?_ ?_
    · intro staged hStaged
      cases hStaged
    · intro garbage hGarbage
      cases hGarbage

/-! ## Runs -/

/-- A commit does not replace the last TID. -/
def BelowLast (s : State Cid) (label : Label Cid) : Prop :=
  label.isCommit = true → s.head.rev ≠ lastTid

instance (s : State Cid) (label : Label Cid) : Decidable (BelowLast s label) :=
  inferInstanceAs (Decidable (_ → _))

theorem inv_step {label : Label Cid} (h : Inv dag s) (hLast : BelowLast s label)
    (hStep : s.step dag tidNew label = some t) : Inv dag t := by
  cases label with
  | beginWrite => exact inv_beginWrite h hStep
  | writeBlock cid => exact inv_writeBlock h hStep
  | commitWrite root clocks => exact inv_commitWrite h (hLast rfl) hStep
  | tagBlocks => exact inv_tagBlocks h hStep
  | selectUnreachable => exact inv_selectUnreachable h hStep
  | deleteOwners => exact inv_deleteOwners h hStep
  | endWrite => exact inv_endWrite h hStep

theorem mem_getRepo {since : String} (h : c ∈ dag.reach s.head.root)
    (hRow : Tagged s.rows c r) (hLt : since < r) : c ∈ s.getRepo dag (some since) := by
  rw [State.getRepo]
  split
  · exact h
  · rename_i since' hSince
    have hEq : since = since' := (Option.filter_eq_some_iff.mp hSince).1 |> Option.some.inj
    subst hEq
    have hListed := mem_listBlockCidsSince.mpr ⟨r, hRow, hLt⟩
    dsimp only
    split
    · exact hListed
    · exact List.mem_append_left _ hListed

/-- Over every run whose commits do not replace the last TID, and in every state of it in
which no tag is pending, an export since any head that the account had adds to the
repository of that head all that the current one has beyond it. -/
theorem getRepo_since_complete {root : Cid} {labels : List (Label Cid)}
    (hRev : isValidTid rev = true)
    (hAlong : Along (State.step dag tidNew) BelowLast (State.opened dag rows root rev) labels)
    (hRun : run (State.step dag tidNew) (State.opened dag rows root rev) labels = some s)
    (hTagged : s.phase.pending = []) :
    ∀ past ∈ s.head :: s.past, ∀ c ∈ dag.reach s.head.root,
      c ∈ dag.reach past.root ∨ c ∈ s.getRepo dag (some past.rev) := by
  have hInv : Inv dag s :=
    run_invariant_along (fun s label t hs hl hStep => inv_step hs hl hStep) (inv_opened hRev)
      hAlong hRun
  intro past hPast c hc
  by_cases hOld : c ∈ dag.reach past.root
  · exact .inl hOld
  · rcases List.mem_cons.mp hPast with rfl | hPast
    · exact absurd hc hOld
    · obtain ⟨r, hRow, hNewer⟩ := hInv.tagged hTagged c hc
      exact .inr (mem_getRepo hc hRow (hNewer past hPast hOld))

/-! ## A write on an ordinary rev, and one on the last -/

def acceptTid (value : String) : Except String Unit :=
  if isValidTid value then .ok () else .error "invalid TID"

/-- One write from the head 0 to the head 2, with its tags and its sweep. -/
def replaceHead : List (Label Nat) :=
  [.beginWrite, .writeBlock 2, .writeBlock 3, .commitWrite 2 [⟨some 1700000000000000, 7⟩],
    .tagBlocks, .selectUnreachable, .deleteOwners, .endWrite]

/-- The run of that write on a repository whose head carries `rev`. -/
def replaced (rev : String) : Option (State Nat) :=
  run (State.step pairDag acceptTid) (State.opened pairDag [] 0 rev) replaceHead

theorem getRepo_since_complete_replaceHead :
    ∃ s, replaced "3jzfcijpj2z2a" = some s ∧ ∀ past ∈ s.head :: s.past,
      ∀ c ∈ pairDag.reach s.head.root,
        c ∈ pairDag.reach past.root ∨ c ∈ s.getRepo pairDag (some past.rev) := by
  have hEnd : (replaced "3jzfcijpj2z2a").map (fun s => s.phase.pending) = some [] := by
    decide +kernel
  obtain ⟨s, hRun, hTagged⟩ := Option.map_eq_some_iff.mp hEnd
  exact ⟨s, hRun, getRepo_since_complete (by decide) (by decide +kernel) hRun hTagged⟩

/-- The write leaves the head at the rev that it replaced, so nothing is newer than that. -/
theorem getRepo_since_last_incomplete :
    ¬ ∀ (labels : List (Label Nat)) (s : State Nat),
      run (State.step pairDag acceptTid) (State.opened pairDag [] 0 lastTid) labels = some s →
      s.phase.pending = [] →
      ∀ past ∈ s.head :: s.past, ∀ c ∈ pairDag.reach s.head.root,
        c ∈ pairDag.reach past.root ∨ c ∈ s.getRepo pairDag (some past.rev) := by
  intro hClaim
  have hEnd : (replaced lastTid).map (fun s =>
      (s.phase.pending, s.head, s.past, s.getRepo pairDag (some lastTid))) =
        some ([], ⟨2, lastTid⟩, [⟨0, lastTid⟩], [2]) := by
    decide +kernel
  obtain ⟨s, hRun, hSeen⟩ := Option.map_eq_some_iff.mp hEnd
  simp only [Prod.mk.injEq] at hSeen
  obtain ⟨hPending, hHead, hPast, hExport⟩ := hSeen
  have hBlock := hClaim replaceHead s hRun hPending ⟨0, lastTid⟩
    (by rw [hPast]; exact List.mem_cons_of_mem _ List.mem_cons_self) 3 (by rw [hHead]; decide)
  rw [hExport] at hBlock
  revert hBlock
  decide

end Ezpds.Blocks.RevTags
