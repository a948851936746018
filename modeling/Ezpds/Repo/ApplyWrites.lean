import Ezpds.Repo.Repository

/-!
# Batches of writes

`apply_writes` runs a batch in order against the repository in memory, one commit a
mutation. Its outcomes are a chained log of edits of the tree: each reports what the key
held just before it ran.

* `applyOp_ok`: one write of the batch, as an edit.
* `applyWrites_ok`: a batch that succeeds.
* `applyWrites_advances`: its last commit's rev.
-/

namespace Ezpds.Repo

open Library

inductive WriteOp where
  | create (key : String) (value : Json)
  | update (key : String) (value : Json)
  | delete (key : String)

def WriteOp.key : WriteOp → String
  | create key _ => key
  | update key _ => key
  | delete key => key

def WriteOp.value : WriteOp → Option Json
  | create _ value => some value
  | update _ value => some value
  | delete _ => none

def WriteOp.isUpdate : WriteOp → Bool
  | update _ _ => true
  | _ => false

/-- `cid` is the new record block's (none for a delete), `prev` what the key held before. -/
structure WriteOutcome (Cid : Type) where
  key : String
  cid : Option Cid
  prev : Option Cid

variable {Cid : Type} [CidText Cid] {enc : Encoders Cid}

def WriteOutcome.edit (outcome : WriteOutcome Cid) : Edit String Cid where
  key := outcome.key
  prev := outcome.prev
  next := outcome.cid

def applyOp (signer : CommitSigner Cid) (env : WriteEnv) (repo : Repository enc) :
    WriteOp → Except RecordError (WriteOutcome Cid × Repository enc)
  | .create key value => do
    env.access
    if (repo.getRecordCid key).isSome then
      throw (.alreadyExists key)
    else
      let (cid, repo) ← repo.putRecordJson signer env key value
      return ({ key, cid := some cid, prev := none }, repo)
  | .update key value => do
    env.access
    let prev := repo.getRecordCid key
    let (cid, repo) ← repo.putRecordJson signer env key value
    return ({ key, cid := some cid, prev }, repo)
  | .delete key => do
    env.access
    let prev := repo.getRecordCid key
    if prev.isSome then
      let repo ← repo.deleteRecord signer env key
      return ({ key, cid := none, prev }, repo)
    else
      return ({ key, cid := none, prev }, repo)

/-- The loop of `apply_writes`; `env i` is what the `i`th write meets. -/
def applyWrites (signer : CommitSigner Cid) (env : Nat → WriteEnv) :
    Nat → Repository enc → List WriteOp →
      Except RecordError (List (WriteOutcome Cid) × Repository enc)
  | _, repo, [] => .ok ([], repo)
  | i, repo, op :: writes => do
    let (outcome, repo) ← applyOp signer (env i) repo op
    let (outcomes, repo) ← applyWrites signer env (i + 1) repo writes
    return (outcome :: outcomes, repo)

/-- The outcome that a write of each kind reports: a create found nothing, a delete left
nothing, and an update left a record whatever it found. -/
def OutcomeOf (enc : Encoders Cid) : WriteOp → WriteOutcome Cid → Prop
  | .create key value, o =>
    o.key = key ∧ o.prev = none ∧
      ∃ data, jsonToRecordValue enc.b64 value = .ok data ∧ o.cid = some (enc.recordBlock data)
  | .update key value, o =>
    o.key = key ∧
      ∃ data, jsonToRecordValue enc.b64 value = .ok data ∧ o.cid = some (enc.recordBlock data)
  | .delete key, o => o.key = key ∧ o.cid = none

variable {signer : CommitSigner Cid} {repo new : Repository enc}

theorem OutcomeOf.key_eq {op : WriteOp} {o : WriteOutcome Cid}
    (h : OutcomeOf enc op o) : o.key = op.key := by
  cases op with
  | create key value => exact h.1
  | update key value => exact h.1
  | delete key => exact h.1

/-- A write leaves a record exactly when it carries one. -/
theorem OutcomeOf.isSome_cid {op : WriteOp} {o : WriteOutcome Cid}
    (h : OutcomeOf enc op o) : o.cid.isSome = op.value.isSome := by
  cases op with
  | create key value =>
    obtain ⟨_, _, data, _, hCid⟩ := h
    simp [WriteOp.value, hCid]
  | update key value =>
    obtain ⟨_, data, _, hCid⟩ := h
    simp [WriteOp.value, hCid]
  | delete key => simp [WriteOp.value, h.2]

theorem applyOp_ok {env : WriteEnv} {op : WriteOp} {o : WriteOutcome Cid}
    (h : applyOp signer env repo op = .ok (o, new)) :
    OutcomeOf enc op o ∧ repo.tree.get? o.key = o.prev ∧ new.tree = o.edit.apply repo.tree := by
  cases op with
  | create key value =>
    obtain ⟨_, _, h⟩ := bind_ok.mp h
    split at h
    · cases h
    · rename_i hAbsent
      obtain ⟨⟨cid, r⟩, hPut, h⟩ := bind_ok.mp h
      cases h
      obtain ⟨data, hData, rfl, hTree⟩ := Repository.putRecordJson_ok hPut
      have hNone : repo.getRecordCid key = none := by simpa using hAbsent
      exact ⟨⟨rfl, rfl, data, hData, rfl⟩, hNone, hTree⟩
  | update key value =>
    obtain ⟨_, _, h⟩ := bind_ok.mp h
    obtain ⟨⟨cid, r⟩, hPut, h⟩ := bind_ok.mp h
    cases h
    obtain ⟨data, hData, rfl, hTree⟩ := Repository.putRecordJson_ok hPut
    exact ⟨⟨rfl, data, hData, rfl⟩, rfl, hTree⟩
  | delete key =>
    obtain ⟨_, _, h⟩ := bind_ok.mp h
    dsimp only at h
    split at h
    · obtain ⟨r, hDelete, h⟩ := bind_ok.mp h
      cases h
      exact ⟨⟨rfl, rfl⟩, rfl, Repository.deleteRecord_ok hDelete⟩
    · rename_i hAbsent
      cases h
      have hNone : repo.getRecordCid key = none := by simpa using hAbsent
      refine ⟨⟨rfl, rfl⟩, rfl, ?_⟩
      exact (Edit.apply_noop rfl hNone.symm).symm

/-- The outcomes of a batch are its edits of the tree, in order. -/
theorem applyWrites_ok {env : Nat → WriteEnv} {i : Nat} {writes : List WriteOp}
    {outcomes : List (WriteOutcome Cid)}
    (h : applyWrites signer env i repo writes = .ok (outcomes, new)) :
    List.Forall₂ (OutcomeOf enc) writes outcomes ∧
      Edit.Chained repo.tree (outcomes.map WriteOutcome.edit) ∧
      new.tree = Edit.applyAll repo.tree (outcomes.map WriteOutcome.edit) := by
  induction writes generalizing i repo outcomes with
  | nil =>
    cases h
    exact ⟨.nil, trivial, rfl⟩
  | cons op writes ih =>
    obtain ⟨⟨o, mid⟩, hOp, h⟩ := bind_ok.mp h
    obtain ⟨⟨os, last⟩, hRest, h⟩ := bind_ok.mp h
    cases h
    obtain ⟨hOutcome, hPrev, hTree⟩ := applyOp_ok hOp
    obtain ⟨hOutcomes, hChain, hLast⟩ := ih hRest
    rw [hTree] at hChain hLast
    exact ⟨.cons hOutcome hOutcomes, ⟨hPrev, hChain⟩, hLast⟩

/-! ## The rev of the new head -/

/-- Commits on top of `old` led to `new`: the rev is a TID again, and above the old one
unless that is the last TID. -/
structure Advances (old new : Repository enc) : Prop where
  valid : isValidTid new.commit.rev = true
  le : old.commit.rev ≤ new.commit.rev
  lt : old.commit.rev ≠ lastTid → old.commit.rev < new.commit.rev

/-- A delete of a key that held nothing. -/
def Noop (op : WriteOp) (o : WriteOutcome Cid) : Prop :=
  op.value = none ∧ o.prev = none

omit [CidText Cid] in
theorem Advances.trans {mid : Repository enc} (h : Advances repo mid) (h' : Advances mid new) :
    Advances repo new where
  valid := h'.valid
  le := le_trans h.le h'.le
  lt hLast := lt_of_lt_of_le (h.lt hLast) h'.le

omit [CidText Cid] in
theorem advances_finalize {tree : Tree Cid} {now : Clock} {rev : String}
    (hValid : isValidTid repo.commit.rev = true)
    (hNext : nextCommitRev enc.tidNew now repo.commit.rev = .ok rev) :
    Advances repo (repo.finalize signer tree rev) := by
  obtain ⟨hRev, hLe, hLt⟩ := nextCommitRev_above hValid hNext
  exact ⟨hRev, hLe, hLt.mpr⟩

theorem putRecordJson_advances {env : WriteEnv} {key : String} {json : Json} {cid : Cid}
    (hValid : isValidTid repo.commit.rev = true)
    (h : repo.putRecordJson signer env key json = .ok (cid, new)) : Advances repo new := by
  obtain ⟨data, _, h⟩ := bind_ok.mp h
  obtain ⟨_, _, h⟩ := bind_ok.mp h
  obtain ⟨⟨tree, c⟩, _, h⟩ := bind_ok.mp h
  obtain ⟨rev, hNext, h⟩ := bind_ok.mp h
  cases h
  exact advances_finalize hValid hNext

omit [CidText Cid] in
theorem deleteRecord_advances {env : WriteEnv} {key : String}
    (hValid : isValidTid repo.commit.rev = true)
    (h : repo.deleteRecord signer env key = .ok new) : Advances repo new := by
  obtain ⟨_, _, h⟩ := bind_ok.mp h
  obtain ⟨tree, _, h⟩ := bind_ok.mp h
  obtain ⟨rev, hNext, h⟩ := bind_ok.mp h
  cases h
  exact advances_finalize hValid hNext

theorem applyOp_advances {env : WriteEnv} {op : WriteOp} {o : WriteOutcome Cid}
    (hValid : isValidTid repo.commit.rev = true)
    (h : applyOp signer env repo op = .ok (o, new)) :
    Advances repo new ∨ (new = repo ∧ Noop op o) := by
  cases op with
  | create key value =>
    obtain ⟨_, _, h⟩ := bind_ok.mp h
    split at h
    · cases h
    · obtain ⟨⟨cid, r⟩, hPut, h⟩ := bind_ok.mp h
      cases h
      exact Or.inl (putRecordJson_advances hValid hPut)
  | update key value =>
    obtain ⟨_, _, h⟩ := bind_ok.mp h
    obtain ⟨⟨cid, r⟩, hPut, h⟩ := bind_ok.mp h
    cases h
    exact Or.inl (putRecordJson_advances hValid hPut)
  | delete key =>
    obtain ⟨_, _, h⟩ := bind_ok.mp h
    dsimp only at h
    split at h
    · obtain ⟨r, hDelete, h⟩ := bind_ok.mp h
      cases h
      exact Or.inl (deleteRecord_advances hValid hDelete)
    · rename_i hAbsent
      cases h
      have hNone : repo.getRecordCid key = none := by simpa using hAbsent
      exact Or.inr ⟨rfl, rfl, hNone⟩

/-- A batch commits unless each of its ops is a delete that finds nothing. -/
theorem applyWrites_advances {env : Nat → WriteEnv} {i : Nat} {writes : List WriteOp}
    {outcomes : List (WriteOutcome Cid)} (hValid : isValidTid repo.commit.rev = true)
    (h : applyWrites signer env i repo writes = .ok (outcomes, new)) :
    Advances repo new ∨ (new = repo ∧ List.Forall₂ Noop writes outcomes) := by
  induction writes generalizing i repo outcomes with
  | nil =>
    cases h
    exact Or.inr ⟨rfl, .nil⟩
  | cons op writes ih =>
    obtain ⟨⟨o, mid⟩, hOp, h⟩ := bind_ok.mp h
    obtain ⟨⟨os, last⟩, hRest, h⟩ := bind_ok.mp h
    cases h
    rcases applyOp_advances hValid hOp with hFirst | ⟨rfl, hNoop⟩
    · rcases ih hFirst.valid hRest with hLater | ⟨rfl, -⟩
      · exact Or.inl (hFirst.trans hLater)
      · exact Or.inl hFirst
    · rcases ih hValid hRest with hLater | ⟨rfl, hNoops⟩
      · exact Or.inl hLater
      · exact Or.inr ⟨rfl, .cons hNoop hNoops⟩

end Ezpds.Repo
