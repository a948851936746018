import Ezpds.Library.Parties
import Ezpds.Library.Run
import Ezpds.Pds.HeadMoves
import Mathlib.Data.List.Chain

/-!
# The commit chain of a repository

Any number of write requests run at once. Each waits for the write lock of its repository,
reads the head under it, builds the next head and its event from what it read, and then swaps
the head and stores the event in one transaction, while other repositories and the statuses of
all accounts move on. Events of one repository therefore link up: each starts where the one
before it ended. Their revs increase as long as the last TID is not reached, since there is no
rev above it.

* `Inv`, `inv_step`: the lock keeps the head as it was read, and the log ends at the head.
* `commit_chain`: heads and events move together, and the events of a repository are a chain.
* `chain_stuck_at_lastTid`: two commits with the same rev.
-/

namespace Ezpds.Pds.CommitChain

open Library Repo Firehose

variable {Cid : Type} [CidText Cid]

/-! ## Requests that share the server -/

/-- Where a request is. `read` is the accounts table as the request found it when it got the
lock of `did`. -/
inductive Phase (enc : Encoders Cid) where
  | waiting (env : RequestEnv Cid) (request : Request)
  | writing (env : RequestEnv Cid) (request : Request) (did : String) (read : Accounts enc)
  | done

variable {enc : Encoders Cid}

def Phase.holds (did : String) : Phase enc → Bool
  | writing _ _ d _ => d == did
  | _ => false

/-- A `#commit` row of `repo_seq`, with the head that the same transaction left. -/
structure Row (enc : Encoders Cid) where
  input : CommitInput
  head : Option (Repository enc)

structure State (enc : Encoders Cid) where
  accounts : Accounts enc
  phases : List (Phase enc)
  log : List (Row enc)

/-- `write` runs a handler from the head that it read to the end of its transaction;
`setActive` stands for the routes that change an account's status. -/
inductive Action (Cid : Type) where
  | arrive (env : RequestEnv Cid) (request : Request)
  | lock (i : Nat)
  | write (i : Nat)
  | drop (i : Nat)
  | setActive (did : String) (active : Bool)

def rootText (account : Account enc) : Option String :=
  account.repo.map fun repo => CidText.toText repo.root

/-- `advance_repo_root_if_active`: whether the update finds the row, at the root that was
read and still active. -/
def advanceRepoRootIfActive (accounts read : Accounts enc) (did : String) : Bool :=
  match accounts did, (read did).bind rootText with
  | some account, some expected => account.active && rootText account == some expected
  | _, _ => false

def Landed.row (landed : Landed enc) : Option (Row enc) :=
  landed.event.map fun event => { input := event.1, head := landed.account.repo }

def setActive (accounts : Accounts enc) (did : String) (active : Bool) : Accounts enc :=
  Function.update accounts did ((accounts did).map fun account => { account with active })

namespace State

def opened (accounts : Accounts enc) : State enc :=
  { accounts, phases := [], log := [] }

def setPhase (s : State enc) (i : Nat) (phase : Phase enc) : State enc :=
  { s with phases := s.phases.set i phase }

/-- The transaction of a handler that got as far: the new row and the staged event. -/
def land (s : State enc) (landed : Landed enc) : State enc :=
  { s with
    accounts := Function.update s.accounts landed.did (some landed.account)
    log := s.log ++ (Landed.row landed).toList }

/-- What a handler does with the head that it read; a failure anywhere rolls back all of it. -/
def finish [LinearOrder Cid] (s : State enc) (env : RequestEnv Cid) (request : Request) (did : String)
    (read : Accounts enc) : State enc :=
  match handle { env with activeAtCommit := advanceRepoRootIfActive s.accounts read did } read
      request with
  | .ok (some landed, _) => s.land landed
  | _ => s

def step [LinearOrder Cid] (s : State enc) : Action Cid → Option (State enc)
  | .arrive env request => some { s with phases := s.phases ++ [.waiting env request] }
  | .lock i =>
    match s.phases[i]? with
    | some (.waiting env request) =>
      match resolveRepoDid env request.repo with
      | .ok did =>
        if s.phases.any (Phase.holds did) then none
        else some (s.setPhase i (.writing env request did s.accounts))
      | .error _ => none
    | _ => none
  | .write i =>
    match s.phases[i]? with
    | some (.writing env request did read) =>
      some ((s.finish env request did read).setPhase i .done)
    | _ => none
  | .drop i => some (s.setPhase i .done)
  | .setActive did active => some { s with accounts := setActive s.accounts did active }

/-- The events of `did`, in order. -/
def rowsOf (s : State enc) (did : String) : List (Row enc) :=
  s.log.filter fun row => row.input.repo == did

end State

/-! ## Consecutive events -/

/-- `later` starts at the commit that `earlier` announced. -/
structure Follows (earlier later : Row enc) : Prop where
  since : later.input.since = some earlier.input.rev
  prevData : ∃ head, earlier.head = some head ∧
    earlier.input.commit = CidText.toText head.root ∧
    later.input.prevData = some (CidText.toText head.commit.data)
  rev : earlier.input.rev < later.input.rev

/-- A step swaps a head and stores its event, or does neither. -/
inductive Commits (s t : State enc) : Prop where
  | neither (hLog : t.log = s.log) (hHeads : ∀ did, headOf t.accounts did = headOf s.accounts did)
  | both (row : Row enc) (old new : Repository enc) (hLog : t.log = s.log ++ [row])
      (hOld : headOf s.accounts row.input.repo = some old)
      (hNew : headOf t.accounts row.input.repo = some new)
      (hHead : row.head = some new) (hRow : Announces row.input old new)
      (hRev : old.commit.rev < new.commit.rev)
      (hOthers : ∀ did, did ≠ row.input.repo → headOf t.accounts did = headOf s.accounts did)

/-- The diff and the CAR of the request's commit are computed. -/
def Action.Assembled : Action Cid → Prop
  | .arrive env _ => env.diffed = true ∧ env.carBuilt = true
  | _ => True

/-- The rev of the head that request `i` builds on. -/
def State.baseRev (s : State enc) (i : Nat) : Option String :=
  match s.phases[i]? with
  | some (.writing _ _ did _) => (headOf s.accounts did).map fun repo => repo.commit.rev
  | _ => none

/-- No request builds on a head whose rev is the last TID. -/
def BelowLast (s : State enc) : Action Cid → Prop
  | .write i => s.baseRev i ≠ some lastTid
  | _ => True

instance (s : State enc) : ∀ a, Decidable (BelowLast s a)
  | .write i => inferInstanceAs (Decidable (s.baseRev i ≠ some lastTid))
  | .arrive _ _ | .lock _ | .drop _ | .setActive _ _ => .isTrue trivial

/-! ## The invariant -/

def Phase.Assembled : Phase enc → Prop
  | waiting env _ => env.diffed = true ∧ env.carBuilt = true
  | writing env _ _ _ => env.diffed = true ∧ env.carBuilt = true
  | done => True

/-- A request that has the lock of its repository still sees the head that it read. -/
def Phase.ReadsHead (accounts : Accounts enc) : Phase enc → Prop
  | writing env request did read =>
    resolveRepoDid env request.repo = .ok did ∧ headOf read did = headOf accounts did
  | _ => True

/-- The row tells of the head that `accounts` has for `did`. -/
structure Names (accounts : Accounts enc) (did : String) (row : Row enc)
    (head : Repository enc) : Prop where
  current : headOf accounts did = some head
  head_eq : row.head = some head
  commit : row.input.commit = CidText.toText head.root
  rev : row.input.rev = head.commit.rev

structure Inv (s : State enc) : Prop where
  revs : ∀ did repo, headOf s.accounts did = some repo → isValidTid repo.commit.rev = true
  assembled : ∀ phase ∈ s.phases, phase.Assembled
  held : ∀ phase ∈ s.phases, phase.ReadsHead s.accounts
  locked : ∀ did, s.phases.countP (Phase.holds did) ≤ 1
  last : ∀ did row, (s.rowsOf did).getLast? = some row → ∃ head, Names s.accounts did row head
  chain : ∀ did, List.IsChain Follows (s.rowsOf did)

variable {s t : State enc} {accounts read : Accounts enc} {landed : Landed enc}
  {env : RequestEnv Cid} {request : Request} {did : String} {old new : Repository enc}
  {row : Row enc}

theorem inv_opened (hRevs : ∀ did repo, headOf accounts did = some repo →
    isValidTid repo.commit.rev = true) : Inv (State.opened accounts) where
  revs := hRevs
  assembled := by
    intro phase hPhase
    cases hPhase
  held := by
    intro phase hPhase
    cases hPhase
  locked did := Nat.zero_le _
  last := by
    intro did row hLast
    cases hLast
  chain did := .nil

omit [CidText Cid] in
theorem headOf_setActive (accounts : Accounts enc) (did other : String) (active : Bool) :
    headOf (setActive accounts did active) other = headOf accounts other := by
  rw [headOf, headOf, setActive]
  by_cases h : other = did
  · rw [h, Function.update_self, Option.bind_map]
    rfl
  · rw [Function.update_of_ne h]

omit [CidText Cid] in
/-- What an invariant says of the heads survives a change of status. -/
theorem Phase.ReadsHead.congr {accounts' : Accounts enc} {phase : Phase enc}
    (h : phase.ReadsHead accounts) (hHead : ∀ did, phase.holds did = true →
      headOf accounts' did = headOf accounts did) : phase.ReadsHead accounts' := by
  cases phase with
  | waiting env request => trivial
  | writing env request did read =>
    rw [ReadsHead, hHead did (by simp [holds])]
    exact h
  | done => trivial

/-! ## One write -/

/-- A write that lands on the head `old` of `did`. -/
structure Lands (s : State enc) (did : String) (old new : Repository enc) (landed : Landed enc)
    (row : Row enc) : Prop where
  did_eq : landed.did = did
  repo_eq : row.input.repo = did
  before : headOf s.accounts did = some old
  after : landed.account.repo = some new
  row_eq : Landed.row landed = some row
  head_eq : row.head = some new
  announces : Announces row.input old new
  advances : isValidTid old.commit.rev = true → Advances old new

/-- A handler that gets to its end lands on the head that it read. -/
theorem lands_of_handle [LinearOrder Cid] {response : Response}
    (hAssembled : env.diffed = true ∧ env.carBuilt = true)
    (hReads : (Phase.writing env request did read).ReadsHead s.accounts)
    (hHandle : handle { env with activeAtCommit := advanceRepoRootIfActive s.accounts read did } read
      request = .ok (some landed, response)) :
    ∃ old new row, Lands s did old new landed row := by
  obtain ⟨hDid, hHead⟩ := hReads
  obtain ⟨hResolved, old, new, hMoves⟩ := handle_moves hHandle
  have hSame : landed.did = did := by
    have hEq : Except.ok landed.did = (Except.ok did : Except ApiError String) :=
      hResolved.symm.trans hDid
    exact Except.ok.inj hEq
  obtain ⟨input, car, hEvent, hRepo, hAnnounces⟩ := hMoves.event hAssembled.1 hAssembled.2
  refine ⟨old, new, ⟨input, landed.account.repo⟩, ?_⟩
  exact
    { did_eq := hSame
      repo_eq := hRepo.trans hSame
      before := by
        rw [← hHead, ← hSame]
        exact hMoves.before
      after := hMoves.after
      row_eq := by rw [Landed.row, hEvent, Option.map_some]
      head_eq := hMoves.after
      announces := hAnnounces
      advances := hMoves.advances }

/-- A handler fails and changes nothing, or lands on the head that it read. -/
theorem finish_cases [LinearOrder Cid]
    (hAssembled : env.diffed = true ∧ env.carBuilt = true)
    (hReads : (Phase.writing env request did read).ReadsHead s.accounts) :
    s.finish env request did read = s ∨
      ∃ landed old new row, s.finish env request did read = s.land landed ∧
        Lands s did old new landed row := by
  rw [State.finish]
  split
  · rename_i landed response hHandle
    obtain ⟨old, new, row, hLands⟩ := lands_of_handle hAssembled hReads hHandle
    exact Or.inr ⟨landed, old, new, row, rfl, hLands⟩
  · exact Or.inl rfl

namespace Lands

theorem headOf_self (h : Lands s did old new landed row) :
    headOf (s.land landed).accounts did = some new := by
  rw [← h.did_eq, headOf, State.land]
  simp [h.after]

theorem headOf_of_ne (h : Lands s did old new landed row) {other : String} (hNe : other ≠ did) :
    headOf (s.land landed).accounts other = headOf s.accounts other := by
  rw [← h.did_eq] at hNe
  rw [headOf, headOf, State.land]
  simp only [Function.update_of_ne hNe]

theorem log_eq (h : Lands s did old new landed row) :
    (s.land landed).log = s.log ++ [row] := by
  rw [State.land, h.row_eq, Option.toList_some]

theorem rowsOf_self (h : Lands s did old new landed row) :
    (s.land landed).rowsOf did = s.rowsOf did ++ [row] := by
  rw [State.rowsOf, h.log_eq, List.filter_append]
  simp [State.rowsOf, h.repo_eq]

theorem rowsOf_of_ne (h : Lands s did old new landed row) {other : String} (hNe : other ≠ did) :
    (s.land landed).rowsOf other = s.rowsOf other := by
  rw [State.rowsOf, h.log_eq, List.filter_append]
  simp [State.rowsOf, h.repo_eq, Ne.symm hNe]

theorem names (h : Lands s did old new landed row) :
    Names (s.land landed).accounts did row new where
  current := h.headOf_self
  head_eq := h.head_eq
  commit := h.announces.commit
  rev := h.announces.rev

/-- The event of the write follows whatever the repository's last event was. -/
theorem follows (h : Lands s did old new landed row) {earlier : Row enc} {head : Repository enc}
    (hNames : Names s.accounts did earlier head) (hRev : old.commit.rev < new.commit.rev) :
    Follows earlier row := by
  have hHead : head = old := Option.some.inj (hNames.current.symm.trans h.before)
  rw [hHead] at hNames
  exact
    { since := by rw [h.announces.since, hNames.rev]
      prevData := ⟨old, hNames.head_eq, hNames.commit, h.announces.prevData⟩
      rev := by
        rw [hNames.rev, h.announces.rev]
        exact hRev }

theorem commits (h : Lands s did old new landed row) (hRev : old.commit.rev < new.commit.rev)
    (i : Nat) : Commits s ((s.land landed).setPhase i .done) := by
  obtain rfl := h.repo_eq
  exact .both row old new h.log_eq h.before h.headOf_self h.head_eq h.announces hRev
    fun other hNe => h.headOf_of_ne hNe

end Lands

/-! ## Steps -/

/-- A step that leaves the heads and the log alone, as every step but a landed write does. -/
theorem Inv.mono (h : Inv s) (hHeads : ∀ did, headOf t.accounts did = headOf s.accounts did)
    (hLog : t.log = s.log) (hAssembled : ∀ phase ∈ t.phases, phase.Assembled)
    (hHeld : ∀ phase ∈ t.phases, phase.ReadsHead t.accounts)
    (hLocked : ∀ did, t.phases.countP (Phase.holds did) ≤ 1) : Inv t where
  revs did repo hRepo := h.revs did repo (by rw [← hHeads]; exact hRepo)
  assembled := hAssembled
  held := hHeld
  locked := hLocked
  last := by
    intro did row hLast
    rw [State.rowsOf, hLog] at hLast
    obtain ⟨head, hNames⟩ := h.last did row hLast
    exact ⟨head, (hHeads did).trans hNames.current, hNames.head_eq, hNames.commit, hNames.rev⟩
  chain := by
    intro did
    rw [State.rowsOf, hLog]
    exact h.chain did

omit [CidText Cid] in
/-- Any phase may end without having changed anything. -/
theorem countP_set_done (i : Nat) (did : String) :
    (s.phases.set i .done).countP (Phase.holds did) ≤ s.phases.countP (Phase.holds did) := by
  cases hPhase : s.phases[i]? with
  | none => rw [List.set_eq_of_length_le (List.getElem?_eq_none_iff.mp hPhase)]
  | some phase =>
    have hCount := countP_set_add (Phase.holds did) Phase.done hPhase
    simp only [Phase.holds, Bool.toNat_false] at hCount
    omega

theorem Inv.done (h : Inv s) (i : Nat) : Inv (s.setPhase i .done) :=
  h.mono (fun _ => rfl) rfl (forall_mem_set h.assembled trivial) (forall_mem_set h.held trivial)
    fun did => le_trans (countP_set_done i did) (h.locked did)

/-- Once the writer of `did` is done, nobody has its lock. -/
theorem Inv.released (h : Inv s) {i : Nat}
    (hPhase : s.phases[i]? = some (.writing env request did read)) {phase : Phase enc}
    (hMem : phase ∈ s.phases.set i .done) : phase.holds did = false := by
  have hCount := countP_set_add (Phase.holds did) Phase.done hPhase
  have hLocked := h.locked did
  have hNone : (s.phases.set i .done).countP (Phase.holds did) = 0 := by
    simp only [Phase.holds, beq_self_eq_true, Bool.toNat_true, Bool.toNat_false] at hCount
    omega
  simpa using List.countP_eq_zero.mp hNone phase hMem

theorem Inv.land (h : Inv s) {i : Nat}
    (hPhase : s.phases[i]? = some (.writing env request did read))
    (hLands : Lands s did old new landed row) (hRev : old.commit.rev < new.commit.rev) :
    Inv ((s.land landed).setPhase i .done) where
  revs := by
    intro other repo hRepo
    by_cases hOther : other = did
    · rw [hOther] at hRepo
      have hNew : new = repo := Option.some.inj (hLands.headOf_self.symm.trans hRepo)
      rw [← hNew]
      exact (hLands.advances (h.revs did old hLands.before)).valid
    · exact h.revs other repo ((hLands.headOf_of_ne hOther).symm.trans hRepo)
  assembled := forall_mem_set h.assembled trivial
  held := by
    intro phase hMem
    have hHeld : ∀ phase ∈ s.phases.set i .done, phase.ReadsHead s.accounts :=
      forall_mem_set h.held trivial
    refine (hHeld phase hMem).congr ?_
    intro other hHolds
    have hNe : other ≠ did := by
      rintro rfl
      rw [h.released hPhase hMem] at hHolds
      cases hHolds
    exact hLands.headOf_of_ne hNe
  locked other := le_trans (countP_set_done i other) (h.locked other)
  last := by
    intro other last hLast
    by_cases hOther : other = did
    · have hEnd : (s.rowsOf did ++ [row]).getLast? = some last := by
        rw [← hLands.rowsOf_self, ← hOther]
        exact hLast
      have hRow : row = last := by simpa using hEnd
      rw [hOther, ← hRow]
      exact ⟨new, hLands.names⟩
    · have hBefore : (s.rowsOf other).getLast? = some last := by
        rw [← hLands.rowsOf_of_ne hOther]
        exact hLast
      obtain ⟨head, hNames⟩ := h.last other last hBefore
      exact ⟨head, (hLands.headOf_of_ne hOther).trans hNames.current, hNames.head_eq,
        hNames.commit, hNames.rev⟩
  chain := by
    intro other
    by_cases hOther : other = did
    · have hRows : ((s.land landed).setPhase i .done).rowsOf other = s.rowsOf did ++ [row] := by
        rw [hOther]
        exact hLands.rowsOf_self
      rw [hRows, List.isChain_append]
      refine ⟨h.chain did, .singleton row, ?_⟩
      intro earlier hEarlier later hLater
      obtain ⟨head, hNames⟩ := h.last did earlier hEarlier
      cases hLater
      exact hLands.follows hNames hRev
    · have hRows : ((s.land landed).setPhase i .done).rowsOf other = s.rowsOf other :=
        hLands.rowsOf_of_ne hOther
      rw [hRows]
      exact h.chain other

variable [LinearOrder Cid] {a : Action Cid}

/-- What a step does: it touches no head and no event, or it lands a write that took the lock. -/
theorem step_cases (h : Inv s) (hStep : s.step a = some t) (hAssembled : a.Assembled) :
    ((∀ did, headOf t.accounts did = headOf s.accounts did) ∧ t.log = s.log ∧ Inv t) ∨
      ∃ i env request did read landed old new row, a = .write i ∧
        s.phases[i]? = some (.writing env request did read) ∧
        t = (s.land landed).setPhase i .done ∧ Lands s did old new landed row := by
  cases a with
  | arrive env request =>
    cases hStep
    left
    refine ⟨fun _ => rfl, rfl, h.mono (fun _ => rfl) rfl ?_ ?_ ?_⟩
    · exact forall_mem_append_singleton h.assembled hAssembled
    · exact forall_mem_append_singleton h.held trivial
    · intro did
      rw [countP_append_singleton]
      exact h.locked did
  | lock i =>
    left
    simp only [State.step] at hStep
    split at hStep
    · rename_i env request hPhase
      split at hStep
      · rename_i did hDid
        split at hStep
        · cases hStep
        · rename_i hFree
          cases hStep
          have hMem := List.mem_of_getElem? hPhase
          refine ⟨fun _ => rfl, rfl, h.mono (fun _ => rfl) rfl ?_ ?_ ?_⟩
          · have hAssembled : env.diffed = true ∧ env.carBuilt = true := h.assembled _ hMem
            exact forall_mem_set h.assembled hAssembled
          · exact forall_mem_set h.held ⟨hDid, rfl⟩
          · intro other
            have hCount := countP_set_add (Phase.holds other)
              (.writing env request did s.accounts) hPhase
            have hLocked := h.locked other
            simp only [Phase.holds, Bool.toNat_false] at hCount
            by_cases hOther : did = other
            · have hNone : s.phases.countP (Phase.holds other) = 0 := by
                rw [← hOther, List.countP_eq_zero]
                simpa using hFree
              simp only [hOther, beq_self_eq_true, Bool.toNat_true] at hCount
              simp only [State.setPhase, hOther]
              omega
            · simp only [beq_eq_false_iff_ne.mpr hOther, Bool.toNat_false] at hCount
              simp only [State.setPhase]
              omega
      · cases hStep
    · cases hStep
  | write i =>
    simp only [State.step] at hStep
    split at hStep
    · rename_i env request did read hPhase
      cases hStep
      have hMem := List.mem_of_getElem? hPhase
      rcases finish_cases (h.assembled _ hMem) (h.held _ hMem) with
        hFailed | ⟨landed, old, new, row, hLanded, hLands⟩
      · left
        rw [hFailed]
        exact ⟨fun _ => rfl, rfl, h.done i⟩
      · right
        rw [hLanded]
        exact ⟨i, env, request, did, read, landed, old, new, row, rfl, hPhase, rfl, hLands⟩
    · cases hStep
  | drop i =>
    cases hStep
    exact Or.inl ⟨fun _ => rfl, rfl, h.done i⟩
  | setActive did active =>
    cases hStep
    left
    have hHeads := fun other => headOf_setActive s.accounts did other active
    refine ⟨hHeads, rfl, h.mono hHeads rfl h.assembled ?_ h.locked⟩
    intro phase hPhase
    exact (h.held phase hPhase).congr fun other _ => hHeads other

omit [LinearOrder Cid] in
/-- A write that lands below the last TID moves the head to a higher rev. -/
theorem Lands.rev_lt (h : Inv s) (hLands : Lands s did old new landed row) {i : Nat}
    (hPhase : s.phases[i]? = some (.writing env request did read))
    (hBelow : BelowLast s (.write i)) : old.commit.rev < new.commit.rev := by
  have hBase : s.baseRev i = some old.commit.rev := by
    rw [State.baseRev, hPhase]
    simp [hLands.before]
  apply (hLands.advances (h.revs did old hLands.before)).lt
  rintro hLast
  rw [hLast] at hBase
  exact hBelow hBase

theorem inv_step (h : Inv s) (hAssembled : a.Assembled) (hBelow : BelowLast s a)
    (hStep : s.step a = some t) : Inv t := by
  rcases step_cases h hStep hAssembled with
    ⟨_, _, hInv⟩ | ⟨i, env, request, did, read, landed, old, new, row, rfl, hPhase, rfl, hLands⟩
  · exact hInv
  · exact h.land hPhase hLands (hLands.rev_lt h hPhase hBelow)

theorem commits_step (h : Inv s) (hAssembled : a.Assembled) (hBelow : BelowLast s a)
    (hStep : s.step a = some t) : Commits s t := by
  rcases step_cases h hStep hAssembled with
    ⟨hHeads, hLog, _⟩ | ⟨i, env, request, did, read, landed, old, new, row, rfl, hPhase, rfl, hLands⟩
  · exact .neither hLog hHeads
  · exact hLands.commits (hLands.rev_lt h hPhase hBelow) i

/-! ## Runs -/

/-- Below the last TID, every step swaps a head and stores its event or does neither, and the
events of each repository are a chain. -/
theorem commit_chain {actions : List (Action Cid)}
    (hRevs : ∀ did repo, headOf accounts did = some repo → isValidTid repo.commit.rev = true)
    (hAssembled : ∀ a ∈ actions, a.Assembled)
    (hBelow : Along State.step BelowLast (State.opened accounts) actions)
    (hRun : run State.step (State.opened accounts) actions = some t) :
    Along State.step (fun s a => ∀ u, s.step a = some u → Commits s u) (State.opened accounts)
        actions ∧
      ∀ did, List.IsChain Follows (t.rowsOf did) := by
  have hAll : Along State.step (fun _ a => a.Assembled) (State.opened accounts) actions :=
    along_of_forall hAssembled
  have hGuard := hAll.and hBelow
  have hStep : ∀ (s : State enc) (a : Action Cid) (t : State enc), Inv s →
      a.Assembled ∧ BelowLast s a → s.step a = some t → Inv t :=
    fun _ _ _ h hG hStep => inv_step h hG.1 hG.2 hStep
  have hStart := inv_opened hRevs
  constructor
  · exact hGuard.of_invariant hStep (fun s a h hG u hu => commits_step h hG.1 hG.2 hu) hStart
  · exact (run_invariant_along hStep hStart hGuard hRun).chain

/-! ## Two writes of one account -/

/-- The account of the sample server, with a head at `rev`. -/
def accountsAt (rev : String) : Accounts sampleEncoders := fun did =>
  if did = "did:plc:alice" then
    some
      { repo := some
          { commit := { (sampleRepo rewriteTree).commit with rev }
            tree := rewriteTree
            data_eq := rfl }
        active := true
        recordCount := none }
  else none

def create (rkey : String) : Request :=
  .createRecord "did:plc:alice" "app.bsky.feed.post" (some rkey) (samplePost rkey) none none

/-- Both arrive before the first one has the lock. -/
def twoWrites : List (Action String) :=
  [.arrive (sampleEnv "com.atproto.access") (create "c"),
    .arrive (sampleEnv "com.atproto.access") (create "d"),
    .lock 0, .write 0, .lock 1, .write 1]

theorem headOf_accountsAt {rev did : String} {repo : Repository sampleEncoders}
    (h : headOf (accountsAt rev) did = some repo) : repo.commit.rev = rev := by
  simp only [headOf, accountsAt] at h
  split at h
  · cases h
    rfl
  · cases h

theorem twoWrites_assembled : ∀ a ∈ twoWrites, a.Assembled := by
  simp [twoWrites, Action.Assembled, sampleEnv]

theorem commit_chain_twoWrites : ∃ t : State sampleEncoders,
    run State.step (State.opened (accountsAt "3jzfcijpj2z2a")) twoWrites = some t ∧
      (t.rowsOf "did:plc:alice").length = 2 ∧
      ∀ did, List.IsChain Follows (t.rowsOf did) := by
  have hRuns : (run State.step (State.opened (accountsAt "3jzfcijpj2z2a")) twoWrites).any
      (fun t => (t.rowsOf "did:plc:alice").length == 2) = true := by
    decide +kernel
  obtain ⟨t, hRun, hTwo⟩ := (Option.any_eq_true _ _).mp hRuns
  have hRevs : ∀ did repo, headOf (accountsAt "3jzfcijpj2z2a") did = some repo →
      isValidTid repo.commit.rev = true := by
    intro did repo hRepo
    rw [headOf_accountsAt hRepo]
    decide
  have hChain := (commit_chain hRevs twoWrites_assembled (by decide +kernel) hRun).2
  exact ⟨t, hRun, eq_of_beq hTwo, hChain⟩

/-- Whether the events of `did` are two with the same rev. -/
def sameRevs (s : State sampleEncoders) (did : String) : Bool :=
  match s.rowsOf did with
  | [a, b] => a.input.rev == b.input.rev
  | _ => false

theorem chain_stuck_at_lastTid :
    ¬ ∀ (accounts : Accounts sampleEncoders) (actions : List (Action String))
      (t : State sampleEncoders),
      (∀ did repo, headOf accounts did = some repo → isValidTid repo.commit.rev = true) →
      (∀ a ∈ actions, a.Assembled) →
      run State.step (State.opened accounts) actions = some t →
      ∀ did, List.IsChain Follows (t.rowsOf did) := by
  intro hClaim
  have hRuns : (run State.step (State.opened (accountsAt lastTid)) twoWrites).any
      (fun t => sameRevs t "did:plc:alice") = true := by
    decide +kernel
  obtain ⟨t, hRun, hSame⟩ := (Option.any_eq_true _ _).mp hRuns
  have hRevs : ∀ did repo, headOf (accountsAt lastTid) did = some repo →
      isValidTid repo.commit.rev = true := by
    intro did repo hRepo
    rw [headOf_accountsAt hRepo]
    decide
  have hChain := hClaim _ _ t hRevs twoWrites_assembled hRun "did:plc:alice"
  simp only [sameRevs] at hSame
  split at hSame
  · rename_i a b hRows
    rw [hRows, List.isChain_pair] at hChain
    exact absurd (eq_of_beq hSame) hChain.rev.ne
  · cases hSame

end Ezpds.Pds.CommitChain
