import Ezpds.Pds.CommitChain

/-!
# The history that the commit events tell

The ops of one commit event after the other, from the tree of some head on, are a chained log
of edits that leads to the tree of the head that the last event left.

* `grows_run`: what the events of a repository tell, over any run of the server.
-/

namespace Ezpds.Pds

open Library Repo Firehose

/-- A commit, as its event tells of it. -/
structure HistoryCommit (Cid : Type) where
  rev : String
  writes : List (Written Cid)

variable {Cid : Type}

def edits (commits : List (HistoryCommit Cid)) : List (Edit String Cid) :=
  (commits.flatMap HistoryCommit.writes).map Written.edit

def treeAfter (base : Repo.Tree Cid) (commits : List (HistoryCommit Cid)) : Repo.Tree Cid :=
  Edit.applyAll base (edits commits)

/-- Commits one on top of the other, from a head with the tree `base` on. -/
structure IsHistory (base : Repo.Tree Cid) (commits : List (HistoryCommit Cid)) : Prop where
  revs : commits.Pairwise fun c d => c.rev ≤ d.rev
  chained : Edit.Chained base (edits commits)
  kinded : ∀ c ∈ commits, ∀ w ∈ c.writes, w.Kinded
  collection : ∀ c ∈ commits, ∀ w ∈ c.writes, '/' ∉ w.collection.toList

/-- The event of the commit. -/
structure Tells [CidText Cid] (input : CommitInput) (c : HistoryCommit Cid) : Prop where
  rev : input.rev = c.rev
  ops : input.ops = c.writes.map Written.op

variable {base : Repo.Tree Cid} {commits later : List (HistoryCommit Cid)}

theorem edits_append : edits (commits ++ later) = edits commits ++ edits later := by
  simp [edits]

theorem treeAfter_append : treeAfter base (commits ++ later) =
    treeAfter (treeAfter base commits) later := by
  rw [treeAfter, edits_append, Edit.applyAll_append]
  rfl

theorem isHistory_nil : IsHistory base [] where
  revs := .nil
  chained := trivial
  kinded := by simp
  collection := by simp

theorem IsHistory.append (h : IsHistory base commits)
    (hLater : IsHistory (treeAfter base commits) later)
    (hRevs : ∀ c ∈ commits, ∀ d ∈ later, c.rev ≤ d.rev) : IsHistory base (commits ++ later) where
  revs := List.pairwise_append.mpr ⟨h.revs, hLater.revs, hRevs⟩
  chained := by
    rw [edits_append]
    exact Edit.chained_append.mpr ⟨h.chained, hLater.chained⟩
  kinded := by
    intro c hc
    rcases List.mem_append.mp hc with hc | hc
    · exact h.kinded c hc
    · exact hLater.kinded c hc
  collection := by
    intro c hc
    rcases List.mem_append.mp hc with hc | hc
    · exact h.collection c hc
    · exact hLater.collection c hc

theorem IsHistory.before (h : IsHistory base (commits ++ later)) : IsHistory base commits where
  revs := (List.pairwise_append.mp h.revs).1
  chained := by
    have hChained := h.chained
    rw [edits_append] at hChained
    exact (Edit.chained_append.mp hChained).1
  kinded c hc := h.kinded c (List.mem_append_left _ hc)
  collection c hc := h.collection c (List.mem_append_left _ hc)

namespace CommitChain

variable [CidText Cid] {enc : Encoders Cid} {s t u : State enc} {did : String}
  {old mid new : Repository enc}

/-- Between `s` and `t`, the events of `did` tell of `commits`, and these lead from the one
head to the other. -/
structure Grows (s t : State enc) (did : String) (old new : Repository enc)
    (commits : List (HistoryCommit Cid)) : Prop where
  before : headOf s.accounts did = some old
  after : headOf t.accounts did = some new
  rows : ∃ rows, t.rowsOf did = s.rowsOf did ++ rows ∧
    List.Forall₂ (fun row c => Tells row.input c) rows commits
  history : IsHistory old.tree commits
  tree : new.tree = treeAfter old.tree commits
  above : ∀ c ∈ commits, old.commit.rev ≤ c.rev
  below : ∀ c ∈ commits, c.rev ≤ new.commit.rev
  le : old.commit.rev ≤ new.commit.rev

namespace Grows

theorem refl (h : headOf s.accounts did = some old) : Grows s s did old old [] where
  before := h
  after := h
  rows := ⟨[], (List.append_nil _).symm, .nil⟩
  history := isHistory_nil
  tree := rfl
  above := by simp
  below := by simp
  le := le_refl _

/-- Neither the head nor the log of the repository changes. -/
theorem of_same (h : Grows s t did old new commits)
    (hHead : headOf u.accounts did = headOf t.accounts did)
    (hRows : u.rowsOf did = t.rowsOf did) : Grows s u did old new commits :=
  { h with
    after := hHead.trans h.after
    rows := by
      rw [hRows]
      exact h.rows }

theorem trans (h : Grows s t did old mid commits) (h' : Grows t u did mid new later) :
    Grows s u did old new (commits ++ later) where
  before := h.before
  after := h'.after
  rows := by
    obtain ⟨rows, hRows, hTells⟩ := h.rows
    obtain ⟨rows', hRows', hTells'⟩ := h'.rows
    refine ⟨rows ++ rows', ?_, List.rel_append hTells hTells'⟩
    rw [hRows', hRows, List.append_assoc]
  history := by
    have hLater := h'.history
    rw [h.tree] at hLater
    refine h.history.append hLater ?_
    intro c hc d hd
    exact le_trans (h.below c hc) (h'.above d hd)
  tree := by rw [h'.tree, h.tree, treeAfter_append]
  above := by
    intro c hc
    rcases List.mem_append.mp hc with hc | hc
    · exact h.above c hc
    · exact le_trans h.le (h'.above c hc)
  below := by
    intro c hc
    rcases List.mem_append.mp hc with hc | hc
    · exact le_trans (h.below c hc) h'.le
    · exact h'.below c hc
  le := le_trans h.le h'.le

end Grows

/-- The writes of one event took the tree from `old` to `new`. -/
structure Wrote (old new : Repository enc) (input : CommitInput) (ws : List (Written Cid)) :
    Prop where
  chained : Edit.Chained old.tree (ws.map Written.edit)
  tree : new.tree = Edit.applyAll old.tree (ws.map Written.edit)
  kinded : ∀ w ∈ ws, w.Kinded
  collection : ∀ w ∈ ws, '/' ∉ w.collection.toList
  ops : input.ops = ws.map Written.op

variable {read : Accounts enc} {landed : Landed enc} {env : RequestEnv Cid} {request : Request}
  {response : Response} {row : Row enc}

/-- A write that lands tells all of what it did. -/
theorem Lands.wrote [LinearOrder Cid] (h : Lands s did old new landed row)
    (hHead : headOf read did = headOf s.accounts did)
    (hHandle : handle env read request = .ok (some landed, response)) :
    ∃ ws, Wrote old new row.input ws := by
  obtain ⟨user, account, old', new', ws, _, hAccount, hDid, hLands, _⟩ := handle_ok hHandle
  have hUser : user.did = did := hDid.symm.trans h.did_eq
  rw [hUser] at hAccount
  have hRead : headOf read did = some old' := headOf_eq_some hAccount hLands.before
  have hOld : old' = old := Option.some.inj (hRead.symm.trans (hHead.trans h.before))
  have hNew : new' = new := Option.some.inj (hLands.after.symm.trans h.after)
  subst hOld hNew
  have hRow := h.row_eq
  rw [Landed.row, Option.map_eq_some_iff] at hRow
  obtain ⟨⟨input, car⟩, hEvent, rfl⟩ := hRow
  exact ⟨ws,
    { chained := hLands.chained
      tree := hLands.tree
      kinded := hLands.kinded
      collection := hLands.collection
      ops := (hLands.event input car hEvent).1.trans hLands.ops }⟩

/-- The history of one event. -/
theorem Lands.grows (h : Lands s did old new landed row) (hInv : Inv s)
    {ws : List (Written Cid)} (hWrote : Wrote old new row.input ws) (i : Nat) :
    Grows s ((s.land landed).setPhase i .done) did old new [⟨new.commit.rev, ws⟩] where
  before := h.before
  after := h.headOf_self
  rows := by
    refine ⟨[row], h.rowsOf_self, .cons ?_ .nil⟩
    exact ⟨h.announces.rev, hWrote.ops⟩
  history :=
    { revs := List.pairwise_singleton _ _
      chained := by simpa [edits] using hWrote.chained
      kinded := by simpa using hWrote.kinded
      collection := by simpa using hWrote.collection }
  tree := by simpa [treeAfter, edits] using hWrote.tree
  above := by simpa using (h.advances (hInv.revs did old h.before)).le
  below := by simp
  le := (h.advances (hInv.revs did old h.before)).le

variable [LinearOrder Cid] {a : Action Cid}

/-- A step that lands a write in the repository tells of it, and no other step changes its
head or its events. -/
theorem grows_step (h : Inv s) (hAssembled : a.Assembled) (hStep : s.step a = some t)
    (hOld : headOf s.accounts did = some old) : ∃ new commits, Grows s t did old new commits := by
  rcases step_cases h hStep hAssembled with
    ⟨hHeads, hLog, _⟩ | ⟨i, env, request, target, read, -, -, -, -, rfl, hPhase, -, -⟩
  · exact ⟨old, [], (Grows.refl hOld).of_same (hHeads did) (by rw [State.rowsOf, hLog]; rfl)⟩
  · simp only [State.step, hPhase, State.finish, Option.some.injEq] at hStep
    have hMem := List.mem_of_getElem? hPhase
    split at hStep
    · rename_i landed response hHandle
      obtain ⟨before, after, row, hLands⟩ :=
        lands_of_handle (h.assembled _ hMem) (h.held _ hMem) hHandle
      obtain ⟨ws, hWrote⟩ := hLands.wrote (h.held _ hMem).2 hHandle
      subst hStep
      by_cases hDid : did = target
      · subst hDid
        have hSame : before = old := Option.some.inj (hLands.before.symm.trans hOld)
        subst hSame
        exact ⟨after, _, hLands.grows h hWrote i⟩
      · exact ⟨old, [], (Grows.refl hOld).of_same (hLands.headOf_of_ne hDid)
          (hLands.rowsOf_of_ne hDid)⟩
    · subst hStep
      exact ⟨old, [], (Grows.refl hOld).of_same rfl rfl⟩

/-- Below the last TID, the events of a repository tell how its head came about, over any run
from any state that the server reaches. -/
theorem grows_run {actions : List (Action Cid)} (h : Inv s) (hOld : headOf s.accounts did = some old)
    (hAssembled : ∀ a ∈ actions, a.Assembled) (hBelow : Along State.step BelowLast s actions)
    (hRun : run State.step s actions = some t) :
    Inv t ∧ ∃ new commits, Grows s t did old new commits := by
  have hAll : Along State.step (fun _ a => a.Assembled) s actions := along_of_forall hAssembled
  refine run_invariant_along
    (I := fun t : State enc => Inv t ∧ ∃ new commits, Grows s t did old new commits) ?_
    ⟨h, old, [], Grows.refl hOld⟩ (hAll.and hBelow) hRun
  rintro t a u ⟨hInv, mid, commits, hGrows⟩ ⟨hA, hB⟩ hStep
  obtain ⟨new, later, hLater⟩ := grows_step hInv hA hStep hGrows.after
  exact ⟨inv_step hInv hA hB hStep, new, commits ++ later, hGrows.trans hLater⟩

end CommitChain

end Ezpds.Pds
