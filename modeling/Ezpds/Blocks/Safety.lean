import Ezpds.Blocks.System

/-!
# Safety of the block sweep

Every block that a persisted head reaches stays in the table as long as its account keeps
it: owns it, or finds it protected. Writes keep this up for their own heads, since the lock
of the DID keeps every other write out of their sweep. The steps that install a head without
the lock do not look at a sweep under way, and the sweep looked at the head once, before it
listed what to delete.

* `Inv`, `inv_step`: the invariant, and that every step within the guard keeps it.
* `heads_complete`: no run within the guard loses a block of a persisted head.
* `import_swept`: an import whose blocks a sweep deletes.
-/

namespace Ezpds.Blocks

open Library

variable {Did Cid : Type} [DecidableEq Did] [DecidableEq Cid]

/-! ## The guard -/

/-- The sweep will delete the account's ownership of `c`, if it goes on. -/
def UpForDeletion (dag : Dag Cid) (c : Cid) : WritePhase Cid → Prop
  | .checked head => c ∉ dag.reach head
  | .sweeping garbage => c ∈ garbage
  | .reclaiming _ rest => c ∈ rest
  | _ => False

/-- No sweep of the DID is about to delete a block that the root reaches. -/
def Installable (dag : Dag Cid) (s : State Did Cid) (did : Did) (root : Cid) : Prop :=
  ∀ phase ∈ s.writers did, ∀ c ∈ dag.reach root, ¬ UpForDeletion dag c phase

/-- What the write of the DID lost with a deleted account, the root does not need. -/
def Unharmed (dag : Dag Cid) (s : State Did Cid) (did : Did) (root : Cid) : Prop :=
  ∀ phase ∈ s.writers did, match phase with
    | .staging expected _ lost => ∀ c ∈ dag.reach root, c ∈ lost → c ∈ dag.reach expected
    | _ => True

/-- A head is installed without the lock only where no sweep is about to delete its blocks,
and a write whose account was deleted under it does not land on what it lost. -/
def Guarded (dag : Dag Cid) (s : State Did Cid) : Label Did Cid → Prop
  | .createAccount did row => ∀ root ∈ row.root, Installable dag s did root
  | .importRepo did root => Installable dag s did root
  | .commitWrite did root _ => Unharmed dag s did root
  | _ => True

instance decidableUpForDeletion (dag : Dag Cid) (c : Cid) :
    (phase : WritePhase Cid) → Decidable (UpForDeletion dag c phase)
  | .staging _ _ _ => inferInstanceAs (Decidable False)
  | .committed _ => inferInstanceAs (Decidable False)
  | .checked head => inferInstanceAs (Decidable (c ∉ dag.reach head))
  | .sweeping garbage => inferInstanceAs (Decidable (c ∈ garbage))
  | .reclaiming _ rest => inferInstanceAs (Decidable (c ∈ rest))

instance (dag : Dag Cid) (s : State Did Cid) (did : Did) (root : Cid) :
    Decidable (Installable dag s did root) :=
  match h : s.writers did with
  | none => .isTrue (by simp [Installable, h])
  | some phase =>
    decidable_of_iff (∀ c ∈ dag.reach root, ¬ UpForDeletion dag c phase)
      (by simp [Installable, h])

instance (dag : Dag Cid) (s : State Did Cid) (did : Did) (root : Cid) :
    Decidable (Unharmed dag s did root) :=
  match h : s.writers did with
  | some (.staging expected staged lost) =>
    decidable_of_iff (∀ c ∈ dag.reach root, c ∈ lost → c ∈ dag.reach expected)
      (by simp [Unharmed, h])
  | none => .isTrue (by simp [Unharmed, h])
  | some (.committed _) => .isTrue (by simp [Unharmed, h])
  | some (.checked _) => .isTrue (by simp [Unharmed, h])
  | some (.sweeping _) => .isTrue (by simp [Unharmed, h])
  | some (.reclaiming _ _) => .isTrue (by simp [Unharmed, h])

instance decidableGuarded (dag : Dag Cid) (s : State Did Cid) :
    (label : Label Did Cid) → Decidable (Guarded dag s label)
  | .createAccount did row =>
    inferInstanceAs (Decidable (∀ root ∈ row.root, Installable dag s did root))
  | .importRepo did root => inferInstanceAs (Decidable (Installable dag s did root))
  | .commitWrite did root _ => inferInstanceAs (Decidable (Unharmed dag s did root))
  | .setLifecycle _ _ | .beginWrite _ | .writeBlock _ _ | .checkHead _ | .selectUnreachable _
  | .deleteOwners _ | .deleteBlocks _ | .endWrite _ | .purgeAccount _ => .isTrue trivial

/-! ## The invariant -/

/-- The head of the account, where it has one. -/
def State.head (s : State Did Cid) (did : Did) : Option Cid :=
  (s.accounts did).bind AccountRow.root

structure Inv (dag : Dag Cid) (s : State Did Cid) : Prop where
  heads : ∀ did root, s.head did = some root → ∀ c ∈ dag.reach root, s.store.Keeps did c
  staged : ∀ did expected staged lost, s.writers did = some (.staging expected staged lost) →
    ∀ c ∈ staged, c ∉ lost → s.store.Keeps did c
  sweeps : ∀ did phase root, s.writers did = some phase → s.head did = some root →
    ∀ c ∈ dag.reach root, ¬ UpForDeletion dag c phase

/-- The database at the migration that introduced ownership rows: every block it found is
protected, no head misses a block, and no request is under way. The empty one is a case. -/
structure Migrated (dag : Dag Cid) (s : State Did Cid) : Prop where
  idle : ∀ did, s.writers did = none
  protectedAll : ∀ c ∈ s.store.items, c ∈ s.store.pinned
  heads : ∀ did root, s.head did = some root → ∀ c ∈ dag.reach root, c ∈ s.store.items

variable {dag : Dag Cid} {s t : State Did Cid} {did : Did}

omit [DecidableEq Did] [DecidableEq Cid] in
theorem Migrated.inv (h : Migrated dag s) : Inv dag s where
  heads := fun did root hHead c hc => Or.inr (h.protectedAll c (h.heads did root hHead c hc))
  staged := by
    intro did expected staged lost hPhase
    rw [h.idle did] at hPhase
    cases hPhase
  sweeps := by
    intro did phase root hPhase
    rw [h.idle did] at hPhase
    cases hPhase

/-! ## Steps that install or remove a head -/

omit [DecidableEq Cid] in
theorem head_update {accounts : Did → Option (AccountRow Cid)} {row : Option (AccountRow Cid)}
    {store : OwnedStore Did Cid} {writers : Did → Option (WritePhase Cid)} {d : Did} :
    (State.mk (Function.update accounts did row) store writers).head d =
      if d = did then row.bind AccountRow.root else (accounts d).bind AccountRow.root := by
  by_cases h : d = did
  · subst h
    simp [State.head]
  · simp [State.head, h]

/-- A head is installed together with all its blocks. -/
theorem inv_install {row : AccountRow Cid} {root : Option Cid} (h : Inv dag s)
    (hRow : row.root = root)
    (hGuard : ∀ r ∈ root, Installable dag s did r) :
    Inv dag { s with
      accounts := Function.update s.accounts did (some row)
      store := s.store.putAll did (root.elim [] dag.reach) } where
  heads := by
    intro d r hHead c hc
    rw [head_update] at hHead
    by_cases hEq : d = did
    · rw [if_pos hEq] at hHead
      have hRoot : root = some r := hRow.symm.trans hHead
      apply OwnedStore.keeps_putAll.mpr
      right
      rw [hRoot]
      exact ⟨hEq, hc⟩
    · rw [if_neg hEq] at hHead
      exact (h.heads d r hHead c hc).putAll
  staged := by
    intro d expected staged lost hPhase c hc hKept
    exact (h.staged d expected staged lost hPhase c hc hKept).putAll
  sweeps := by
    intro d phase r hPhase hHead c hc
    rw [head_update] at hHead
    by_cases hEq : d = did
    · rw [if_pos hEq] at hHead
      subst hEq
      exact hGuard r (hRow.symm.trans hHead) phase hPhase c hc
    · rw [if_neg hEq] at hHead
      exact h.sweeps d phase r hPhase hHead c hc

theorem inv_createAccount {row : AccountRow Cid} (h : Inv dag s)
    (hGuard : ∀ root ∈ row.root, Installable dag s did root)
    (hStep : s.createAccount dag did row = some t) : Inv dag t := by
  rw [State.createAccount] at hStep
  split at hStep
  · cases hStep
  · cases hStep
    exact inv_install h rfl hGuard

theorem inv_importRepo {root : Cid} (h : Inv dag s) (hGuard : Installable dag s did root)
    (hStep : s.importRepo dag did root = some t) : Inv dag t := by
  rw [State.importRepo] at hStep
  split at hStep
  · cases hStep
  · rename_i row hRow
    split at hStep
    · cases hStep
      have hRow' : ({ row with root := some root } : AccountRow Cid).root = some root := rfl
      apply inv_install h hRow'
      intro r hr
      cases hr
      exact hGuard
    · cases hStep

omit [DecidableEq Cid] in
/-- Whatever the write had staged is lost. -/
theorem WritePhase.lose_staging {phase : WritePhase Cid} {expected : Cid} {staged lost : List Cid}
    (h : phase.lose = .staging expected staged lost) : staged = lost := by
  cases phase with
  | staging e st l =>
    cases h
    rfl
  | committed head => cases h
  | checked head => cases h
  | sweeping garbage => cases h
  | reclaiming chunk rest => cases h

/-- Deleting an account takes only its own rows; a block that another account keeps stays. -/
theorem inv_purgeAccount (h : Inv dag s) (hStep : s.purgeAccount did = some t) : Inv dag t := by
  rw [State.purgeAccount] at hStep
  split at hStep
  · cases hStep
  · cases hStep
    have hKeeps : ∀ d c, s.store.Keeps d c → d ≠ did →
        ((s.store.release did (s.store.ownedBy did)).reclaim (s.store.ownedBy did)).Keeps d c :=
      fun d c hKept hNe => OwnedStore.keeps_reclaim.mpr (hKept.release fun hEq => absurd hEq hNe)
    refine ⟨?_, ?_, ?_⟩
    · intro d r hHead c hc
      rw [head_update] at hHead
      by_cases hEq : d = did
      · rw [if_pos hEq] at hHead
        cases hHead
      · rw [if_neg hEq] at hHead
        exact hKeeps d c (h.heads d r hHead c hc) hEq
    · intro d expected staged lost hPhase c hc hKept
      by_cases hEq : d = did
      · subst hEq
        simp only [Function.update_self] at hPhase
        obtain ⟨phase, _, hLose⟩ := Option.map_eq_some_iff.mp hPhase
        exact absurd (WritePhase.lose_staging hLose ▸ hc) hKept
      · simp only [Function.update_of_ne hEq] at hPhase
        exact hKeeps d c (h.staged d expected staged lost hPhase c hc hKept) hEq
    · intro d phase r hPhase hHead c hc
      rw [head_update] at hHead
      by_cases hEq : d = did
      · rw [if_pos hEq] at hHead
        cases hHead
      · rw [if_neg hEq] at hHead
        simp only [Function.update_of_ne hEq] at hPhase
        exact h.sweeps d phase r hPhase hHead c hc

omit [DecidableEq Cid] in
theorem inv_setLifecycle {lifecycle : Lifecycle} (h : Inv dag s)
    (hStep : s.setLifecycle did lifecycle = some t) : Inv dag t := by
  rw [State.setLifecycle] at hStep
  split at hStep
  · cases hStep
  · rename_i row hRow
    cases hStep
    have hHead : ∀ d, (State.mk (Function.update s.accounts did (some { row with lifecycle }))
        s.store s.writers).head d = s.head d := by
      intro d
      rw [head_update]
      by_cases hEq : d = did
      · subst hEq
        simp [State.head, hRow]
      · rw [if_neg hEq]
        rfl
    refine ⟨?_, h.staged, ?_⟩
    · intro d r hr
      rw [hHead] at hr
      exact h.heads d r hr
    · intro d phase r hPhase hr
      rw [hHead] at hr
      exact h.sweeps d phase r hPhase hr

/-! ## Steps of a write -/

omit [DecidableEq Cid] in
/-- A step of the write of one DID that leaves the tables alone, or only adds to the store. -/
theorem inv_phase {store : OwnedStore Did Cid} {phase : Option (WritePhase Cid)}
    (h : Inv dag s) (hStore : ∀ d c, s.store.Keeps d c → store.Keeps d c)
    (hStaged : ∀ expected staged lost, phase = some (.staging expected staged lost) →
      ∀ c ∈ staged, c ∉ lost → store.Keeps did c)
    (hSweep : ∀ p root, phase = some p → s.head did = some root →
      ∀ c ∈ dag.reach root, ¬ UpForDeletion dag c p) :
    Inv dag { s with store, writers := Function.update s.writers did phase } where
  heads := fun d root hHead c hc => hStore d c (h.heads d root hHead c hc)
  staged := by
    intro d expected staged lost hPhase c hc hKept
    by_cases hEq : d = did
    · subst hEq
      exact hStaged expected staged lost (by simpa using hPhase) c hc hKept
    · simp only [Function.update_of_ne hEq] at hPhase
      exact hStore d c (h.staged d expected staged lost hPhase c hc hKept)
  sweeps := by
    intro d p root hPhase hHead
    by_cases hEq : d = did
    · subst hEq
      exact hSweep p root (by simpa using hPhase) hHead
    · simp only [Function.update_of_ne hEq] at hPhase
      exact h.sweeps d p root hPhase hHead

omit [DecidableEq Cid] in
theorem inv_beginWrite (h : Inv dag s) (hStep : s.beginWrite did = some t) : Inv dag t := by
  rw [State.beginWrite] at hStep
  split at hStep
  · split at hStep
    · cases hStep
      apply inv_phase h (fun d c hKept => hKept)
      · intro expected staged lost hPhase c hc
        cases hPhase
        cases hc
      · intro p root hPhase _ c _ hUp
        cases hPhase
        exact hUp
    · cases hStep
  · cases hStep

theorem inv_writeBlock {cid : Cid} (h : Inv dag s) (hStep : s.writeBlock did cid = some t) :
    Inv dag t := by
  rw [State.writeBlock] at hStep
  split at hStep
  · rename_i expected staged lost row hWriter hRow
    cases hStep
    apply inv_phase h
    · intro d c hKept
      exact OwnedStore.keeps_put.mpr (Or.inl hKept)
    · intro e st l hPhase c hc hKept
      cases hPhase
      rcases List.mem_cons.mp hc with rfl | hOld
      · exact OwnedStore.keeps_put.mpr (Or.inr ⟨rfl, rfl⟩)
      · by_cases hEq : c = cid
        · exact OwnedStore.keeps_put.mpr (Or.inr ⟨rfl, hEq⟩)
        · have hNotLost : c ∉ lost := by simpa [hEq] using hKept
          exact OwnedStore.keeps_put.mpr
            (Or.inl (h.staged did expected staged lost hWriter c hOld hNotLost))
    · intro p root hPhase _ c _ hUp
      cases hPhase
      exact hUp
  · cases hStep

/-- The new head is made of blocks that the write staged and blocks of the head it replaces. -/
theorem inv_commitWrite {root : Cid} {diffed : Bool} (h : Inv dag s)
    (hGuard : Unharmed dag s did root)
    (hStep : s.commitWrite dag did root diffed = some t) : Inv dag t := by
  rw [State.commitWrite] at hStep
  split at hStep
  · rename_i expected staged lost row hWriter hRow
    split at hStep
    · rename_i hCas
      obtain ⟨hRoot, _, hEngine⟩ := hCas
      cases hStep
      have hHead : s.head did = some expected := by simp [State.head, hRow, hRoot]
      have hNew : ∀ c ∈ dag.reach root, s.store.Keeps did c := by
        intro c hc
        by_cases hLost : c ∈ lost
        · have hOld := hGuard (.staging expected staged lost) hWriter c hc hLost
          exact h.heads did expected hHead c hOld
        · rcases hEngine c hc with hStaged | hOld
          · exact h.staged did expected staged lost hWriter c hStaged hLost
          · exact h.heads did expected hHead c hOld
      refine ⟨?_, ?_, ?_⟩
      · intro d r hr c hc
        rw [head_update] at hr
        by_cases hEq : d = did
        · rw [if_pos hEq] at hr
          cases hr
          subst hEq
          exact hNew c hc
        · rw [if_neg hEq] at hr
          exact h.heads d r hr c hc
      · intro d e st l hPhase
        by_cases hEq : d = did
        · subst hEq
          cases diffed with
          | true => simp at hPhase
          | false => simp at hPhase
        · simp only [Function.update_of_ne hEq] at hPhase
          exact h.staged d e st l hPhase
      · intro d p r hPhase hr c hc hUp
        rw [head_update] at hr
        by_cases hEq : d = did
        · subst hEq
          cases diffed with
          | true =>
            simp only [Function.update_self, if_true, Option.some.injEq] at hPhase
            subst hPhase
            exact hUp
          | false => simp at hPhase
        · rw [if_neg hEq] at hr
          simp only [Function.update_of_ne hEq] at hPhase
          exact h.sweeps d p r hPhase hr c hc hUp
    · cases hStep
  · cases hStep

/-! ## Steps of a sweep -/

theorem inv_checkHead (h : Inv dag s) (hStep : s.checkHead did = some t) : Inv dag t := by
  rw [State.checkHead] at hStep
  split at hStep
  · rename_i head hWriter
    cases hStep
    apply inv_phase h (fun d c hKept => hKept)
    · intro expected staged lost hPhase
      split at hPhase
      · cases hPhase
      · cases hPhase
    · intro p root hPhase hHead c hc hUp
      split at hPhase
      · rename_i hCurrent
        cases hPhase
        cases hCurrent.symm.trans hHead
        exact hUp hc
      · cases hPhase
  · cases hStep

theorem inv_selectUnreachable (h : Inv dag s) (hStep : s.selectUnreachable dag did = some t) :
    Inv dag t := by
  rw [State.selectUnreachable] at hStep
  split at hStep
  · rename_i head hWriter
    cases hStep
    apply inv_phase h (fun d c hKept => hKept)
    · intro expected staged lost hPhase
      cases hPhase
    · intro p root hPhase hHead c hc hUp
      cases hPhase
      have hNotKept : c ∉ dag.reach head := by
        simpa using (List.mem_filter.mp hUp).2
      exact h.sweeps did (.checked head) root hWriter hHead c hc hNotKept
  · cases hStep

theorem inv_deleteOwners (h : Inv dag s) (hStep : s.deleteOwners did = some t) : Inv dag t := by
  rw [State.deleteOwners] at hStep
  split at hStep
  · rename_i c₀ garbage hWriter
    cases hStep
    have hSafe : ∀ root, s.head did = some root → ∀ c ∈ dag.reach root, c ∉ c₀ :: garbage :=
      fun root hHead c hc => h.sweeps did (.sweeping (c₀ :: garbage)) root hWriter hHead c hc
    refine ⟨?_, ?_, ?_⟩
    · intro d root hHead c hc
      apply (h.heads d root hHead c hc).release
      rintro rfl hChunk
      exact hSafe root hHead c hc (List.mem_of_mem_take hChunk)
    · intro d expected staged lost hPhase c hc hKept
      by_cases hEq : d = did
      · subst hEq
        simp at hPhase
      · simp only [Function.update_of_ne hEq] at hPhase
        exact (h.staged d expected staged lost hPhase c hc hKept).release fun h => absurd h hEq
    · intro d p root hPhase hHead c hc hUp
      by_cases hEq : d = did
      · subst hEq
        simp only [Function.update_self, Option.some.injEq] at hPhase
        subst hPhase
        exact hSafe root hHead c hc (List.mem_of_mem_drop hUp)
      · simp only [Function.update_of_ne hEq] at hPhase
        exact h.sweeps d p root hPhase hHead c hc hUp
  · cases hStep

theorem inv_deleteBlocks (h : Inv dag s) (hStep : s.deleteBlocks did = some t) : Inv dag t := by
  rw [State.deleteBlocks] at hStep
  split at hStep
  · rename_i chunk rest hWriter
    cases hStep
    apply inv_phase h (fun d c hKept => OwnedStore.keeps_reclaim.mpr hKept)
    · intro expected staged lost hPhase
      cases hPhase
    · intro p root hPhase hHead c hc hUp
      cases hPhase
      exact h.sweeps did (.reclaiming chunk rest) root hWriter hHead c hc hUp
  · cases hStep

omit [DecidableEq Cid] in
theorem inv_endWrite (h : Inv dag s) (hStep : s.endWrite did = some t) : Inv dag t := by
  rw [State.endWrite] at hStep
  split at hStep
  · cases hStep
    apply inv_phase h (fun d c hKept => hKept)
    · intro expected staged lost hPhase
      cases hPhase
    · intro p root hPhase
      cases hPhase
  · cases hStep

/-! ## Runs -/

/-- Every step within the guard keeps the invariant. -/
theorem inv_step {label : Label Did Cid} (h : Inv dag s) (hGuard : Guarded dag s label)
    (hStep : s.step dag label = some t) : Inv dag t := by
  cases label with
  | createAccount did row => exact inv_createAccount h hGuard hStep
  | setLifecycle did lifecycle => exact inv_setLifecycle h hStep
  | beginWrite did => exact inv_beginWrite h hStep
  | writeBlock did cid => exact inv_writeBlock h hStep
  | commitWrite did root diffed => exact inv_commitWrite h hGuard hStep
  | checkHead did => exact inv_checkHead h hStep
  | selectUnreachable did => exact inv_selectUnreachable h hStep
  | deleteOwners did => exact inv_deleteOwners h hStep
  | deleteBlocks did => exact inv_deleteBlocks h hStep
  | endWrite did => exact inv_endWrite h hStep
  | importRepo did root => exact inv_importRepo h hGuard hStep
  | purgeAccount did => exact inv_purgeAccount h hStep

/-- Every block that a persisted head reaches is in the table, in every state that a run
within the guard reaches. -/
theorem heads_complete (hStart : Migrated dag s) {labels : List (Label Did Cid)}
    (hGuard : Along (State.step dag) (Guarded dag) s labels)
    (hRun : run (State.step dag) s labels = some t) :
    ∀ did row root, t.accounts did = some row → row.root = some root →
      ∀ c ∈ dag.reach root, c ∈ t.store.items := by
  have hInv : Inv dag t :=
    run_invariant_along (fun s label t hs hg hStep => inv_step hs hg hStep) hStart.inv hGuard hRun
  intro did row root hRow hRoot c hc
  have hHead : t.head did = some root := by simp [State.head, hRow, hRoot]
  exact (hInv.heads did root hHead c hc).mem

/-! ## An import between the check and the listing -/

/-- An even block is a commit, and the odd one after it the node of its tree. -/
def pairDag : Dag Nat where
  links := fun c => if c % 2 = 0 then [c + 1] else []
  reach := fun c => if c % 2 = 0 then [c, c + 1] else [c]
  mem_reach := by
    intro root c
    constructor
    · intro hc
      split at hc
      · rename_i hEven
        rcases List.mem_cons.mp hc with rfl | hNode
        · exact .refl
        · apply Relation.ReflTransGen.single
          rw [if_pos hEven]
          exact hNode
      · rw [List.mem_singleton.mp hc]
    · intro hPath
      induction hPath with
      | refl =>
        split
        · exact List.mem_cons_self
        · exact List.mem_cons_self
      | @tail b c _ hLink ih =>
        -- only the commit links to anything
        split at hLink
        · rename_i hEven
          cases List.mem_singleton.mp hLink
          split at ih
          · rename_i hRoot
            have hb : b = root ∨ b = root + 1 := by simpa using ih
            have hEq : b = root := by omega
            simp [hRoot, hEq]
          · rename_i hRoot
            rw [List.mem_singleton.mp ih] at hEven
            omega
        · cases hLink

def activeAccount : Lifecycle :=
  { deactivated := false, suspended := false, takenDown := false }

def deactivatedAccount : Lifecycle :=
  { deactivated := true, suspended := false, takenDown := false }

def emptyState : State Nat Nat where
  accounts := fun _ => none
  store := .empty
  writers := fun _ => none

theorem emptyState_migrated : Migrated pairDag emptyState where
  idle := fun _ => rfl
  protectedAll := by simp [emptyState, OwnedStore.empty]
  heads := by simp [emptyState, State.head]

/-- A write of account 0 that is about to look at the head for its sweep. -/
def sweepStart : List (Label Nat Nat) :=
  [.createAccount 0 ⟨some 0, activeAccount⟩, .beginWrite 0, .writeBlock 0 2, .writeBlock 0 3,
    .commitWrite 0 2 true, .checkHead 0]

/-- The account is deactivated and imports a repository once the sweep has ended. -/
def importAfterSweep : List (Label Nat Nat) :=
  sweepStart ++ [.selectUnreachable 0, .deleteOwners 0, .setLifecycle 0 deactivatedAccount,
    .deleteBlocks 0, .endWrite 0, .importRepo 0 4]

/-- The same, while the sweep is between its look at the head and its listing. -/
def importDuringSweep : List (Label Nat Nat) :=
  sweepStart ++ [.setLifecycle 0 deactivatedAccount, .importRepo 0 4, .selectUnreachable 0,
    .deleteOwners 0, .deleteBlocks 0, .endWrite 0]

/-- The head of account 0 and the blocks in the table at the end of a run. -/
def observe (labels : List (Label Nat Nat)) : Option (Option Nat × List Nat) :=
  (run (State.step pairDag) emptyState labels).map fun t => (t.head 0, t.store.items)

theorem heads_complete_importAfterSweep :
    ∃ t, run (State.step pairDag) emptyState importAfterSweep = some t ∧
      ∀ did row root, t.accounts did = some row → row.root = some root →
        ∀ c ∈ pairDag.reach root, c ∈ t.store.items := by
  have hEnd : (run (State.step pairDag) emptyState importAfterSweep).isSome = true := by
    decide
  obtain ⟨t, hRun⟩ := Option.isSome_iff_exists.mp hEnd
  exact ⟨t, hRun, heads_complete emptyState_migrated (by decide) hRun⟩

theorem import_swept :
    ¬ ∀ (labels : List (Label Nat Nat)) (t : State Nat Nat),
      run (State.step pairDag) emptyState labels = some t →
      ∀ did row root, t.accounts did = some row → row.root = some root →
        ∀ c ∈ pairDag.reach root, c ∈ t.store.items := by
  intro hClaim
  have hEnd : observe importDuringSweep = some (some 4, [3, 2]) := by
    decide
  obtain ⟨t, hRun, hSeen⟩ := Option.map_eq_some_iff.mp hEnd
  obtain ⟨hHead, hItems⟩ := Prod.mk.inj hSeen
  obtain ⟨row, hRow, hRoot⟩ := Option.bind_eq_some_iff.mp hHead
  have hStored := hClaim importDuringSweep t hRun 0 row 4 hRow hRoot 4 (by decide)
  rw [hItems] at hStored
  revert hStored
  decide

end Ezpds.Blocks
