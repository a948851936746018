import Ezpds.Pds.WriteRoutes

/-!
# The CAR of a commit event

The blocks of a commit event are the difference of two reachable sets. The ops of the
event come from the request, so an op may list a record whose block is not among them:
the previous head reached the same content under another key, or a later op of the batch
replaced the record.

* `commit_car`: which blocks the CAR holds.
* `shared_record_left_out`: a created record whose block is not in the CAR.
-/

namespace Ezpds.Pds

open Library Repo Auth Firehose

variable {Cid : Type} [CidText Cid] [LinearOrder Cid] {enc : Encoders Cid}

/-- The CAR has the signed commit and the record of every create and update of the event. -/
structure CarComplete (input : CommitInput) (car : Car Cid) : Prop where
  commit : ∃ c ∈ car.blocks, input.commit = CidText.toText c
  records : ∀ op ∈ input.ops, op.action ≠ .delete →
    ∃ c ∈ car.blocks, op.cid = some (CidText.toText c)

/-- The CAR has the blocks that the new head reaches and the old one did not, and nothing
else decides whether the commit and the records of the ops are among them. -/
structure CarOfDiff (old new : Repository enc) (input : CommitInput) (car : Car Cid) :
    Prop where
  blocks : ∀ c, c ∈ car.blocks ↔ c ∈ collectReachableCids new ∧ c ∉ collectReachableCids old
  commit : input.commit = CidText.toText new.root ∧
    (new.root ∈ car.blocks ↔ new.root ∉ collectReachableCids old)
  records : ∀ op ∈ input.ops, op.action ≠ .delete → ∃ c, op.cid = some (CidText.toText c) ∧
    (c ∈ car.blocks ↔ c ∈ collectReachableCids new ∧ c ∉ collectReachableCids old) ∧
    (new.tree.get? op.path = some c → (c ∈ car.blocks ↔ c ∉ collectReachableCids old))

variable {env : RequestEnv Cid} {accounts : Accounts enc} {landed : Landed enc}
  {response : Response} {request : Request}

omit [LinearOrder Cid] in
/-- A create or update op carries the record's CID. -/
theorem Written.Kinded.next_of_ne_delete {w : Written Cid} (h : w.Kinded)
    (hAction : w.op.action ≠ .delete) : ∃ c, w.next = some c := by
  apply Option.isSome_iff_exists.mp
  obtain ⟨action, collection, rkey, prev, next, value⟩ := w
  cases action with
  | create => exact h.2
  | update => exact h
  | delete => exact absurd rfl hAction

/-- The CAR of a landed write's event is the difference of the two heads. -/
theorem commit_car {input : CommitInput} {car : Car Cid}
    (h : handle env accounts request = .ok (some landed, response))
    (hEvent : landed.event = some (input, car)) :
    ∃ account old new, accounts landed.did = some account ∧ account.repo = some old ∧
      landed.account.repo = some new ∧ CarOfDiff old new input car := by
  obtain ⟨user, account, old, new, ws, _, hAccount, hDid, hLands, _⟩ := handle_ok h
  obtain ⟨hOps, hCommit, rfl⟩ := hLands.event input car hEvent
  rw [← hDid] at hAccount
  have hBlocks : ∀ c, c ∈ (buildCar new.root (collectCommitDiff (some old) new).added).blocks ↔
      c ∈ collectReachableCids new ∧ c ∉ collectReachableCids old := by
    intro c
    rw [mem_buildCar, mem_added]
  refine ⟨account, old, new, hAccount, hLands.before, hLands.after, hBlocks, ⟨hCommit, ?_⟩, ?_⟩
  · have hRoot : new.root ∈ collectReachableCids new := mem_collectReachableCids.mpr (Or.inl rfl)
    rw [hBlocks]
    exact and_iff_right hRoot
  · intro op hOp hAction
    rw [hOps, hLands.ops] at hOp
    obtain ⟨w, hw, rfl⟩ := List.mem_map.mp hOp
    obtain ⟨c, hNext⟩ := (hLands.kinded w hw).next_of_ne_delete hAction
    refine ⟨c, by simp [Written.op, hNext], hBlocks c, ?_⟩
    intro hHeld
    have hReached : c ∈ collectReachableCids new :=
      mem_collectReachableCids.mpr (Or.inr (Or.inr ⟨_, hHeld⟩))
    rw [hBlocks]
    exact and_iff_right hReached

/-! ## One content under two keys -/

/-- A second record with the content that `app.bsky.feed.post/b` has. -/
def copyRequest : Request :=
  .createRecord "did:plc:alice" "app.bsky.feed.post" (some "a") (samplePost "one") none none

theorem commit_car_copyRequest :
    ∃ (landed : Landed sampleEncoders) (input : CommitInput) (car : Car String)
      (old new : Repository sampleEncoders),
      landed.event = some (input, car) ∧ landed.account.repo = some new ∧
      CarOfDiff old new input car := by
  have hEvent : ((landedOf (handle (sampleEnv "com.atproto.access") (sampleAccounts rewriteTree)
      copyRequest)).bind Landed.event).isSome = true := by
    decide +kernel
  obtain ⟨⟨input, car⟩, hSome⟩ := Option.isSome_iff_exists.mp hEvent
  obtain ⟨landed, hLanded, hEmitted⟩ := Option.bind_eq_some_iff.mp hSome
  obtain ⟨response, h⟩ := landedOf_eq_some.mp hLanded
  obtain ⟨account, old, new, _, _, hNew, hCar⟩ := commit_car h hEmitted
  exact ⟨landed, input, car, old, new, hEmitted, hNew, hCar⟩

theorem shared_record_left_out :
    ¬ ∀ (env : RequestEnv String) (accounts : Accounts sampleEncoders) (request : Request)
      (landed : Landed sampleEncoders) (response : Response) (input : CommitInput)
      (car : Car String),
      handle env accounts request = .ok (some landed, response) →
      landed.event = some (input, car) → CarComplete input car := by
  intro hClaim
  have hEmitted : ((landedOf (handle (sampleEnv "com.atproto.access") (sampleAccounts rewriteTree)
      copyRequest)).bind Landed.event).map (fun e => e.1.ops.map fun op =>
        (op.action, op.cid, e.2.blocks.contains "record one")) =
        some [(.create, some "record one", false)] := by
    decide +kernel
  obtain ⟨⟨input, car⟩, hSome, hOps⟩ := Option.map_eq_some_iff.mp hEmitted
  obtain ⟨landed, hLanded, hEvent⟩ := Option.bind_eq_some_iff.mp hSome
  obtain ⟨response, h⟩ := landedOf_eq_some.mp hLanded
  have hComplete := hClaim _ _ _ landed response input car h hEvent
  obtain ⟨op, hOp, hEq⟩ : ∃ op ∈ input.ops,
      (op.action, op.cid, car.blocks.contains "record one") =
        (.create, some "record one", false) := by
    rw [← List.mem_map, hOps]
    exact List.mem_singleton_self _
  simp only [Prod.mk.injEq] at hEq
  obtain ⟨hAction, hCid, hMissing⟩ := hEq
  obtain ⟨c, hMem, hText⟩ := hComplete.records op hOp (by simp [hAction])
  have hRecord : c = "record one" := Option.some.inj (hText.symm.trans hCid)
  rw [hRecord] at hMem
  simp [hMem] at hMissing

end Ezpds.Pds
