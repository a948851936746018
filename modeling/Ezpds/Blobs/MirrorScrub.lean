import Ezpds.Blobs.MirrorRecovery

/-!
# What the scrub repairs

A scrub that may repair takes each row in turn: a file that is not that of its row is fetched from
the bucket, and written if the row is still there. Where no row and no copy has changed since a
pass without errors, a scrub without faults leaves nothing to repair.

* `scrub_repairs`: every file is that of its row, nothing is counted as missing, corrupted or
  failed, and no other file has changed.
-/

namespace Ezpds.Blobs.Mirror

open Library

variable {config : Config} {C : Set Bytes} {w w' : World} {row : PhysicalBlob} {content : Bytes}
  {files : Files} {pass : ScrubPass} {rest : List PhysicalBlob}

theorem problemOf_none {read : Option Bytes} : problemOf config row read = none ↔
    ∃ content, read = some content ∧ verifyContent config row content = .ok () := by
  cases read with
  | none => exact ⟨by rintro ⟨⟩, by rintro ⟨_, ⟨⟩, _⟩⟩
  | some content =>
    rw [problemOf]
    split
    · rename_i hVerified
      exact ⟨fun _ => ⟨content, rfl, hVerified⟩, fun _ => rfl⟩
    · rename_i reason hError
      refine ⟨by rintro ⟨⟩, ?_⟩
      rintro ⟨_, ⟨⟩, hVerified⟩
      rw [hError] at hVerified
      cases hVerified

namespace ScrubPass

/-- The rows that are still to be looked at. -/
def todo (pass : ScrubPass) : List PhysicalBlob :=
  match pass.phase with
  | .checking rest => rest
  | .fetching row _ rest | .rechecking row _ _ rest | .writing row _ _ rest => row :: rest
  | .walked => []

/-- The row whose file is to be repaired. -/
def underway (pass : ScrubPass) : Option PhysicalBlob :=
  match pass.phase with
  | .fetching row _ _ | .rechecking row _ _ _ | .writing row _ _ _ => some row
  | .checking _ | .walked => none

/-- The copy that has been fetched for it. -/
def fetched (pass : ScrubPass) : Option (PhysicalBlob × Bytes) :=
  match pass.phase with
  | .rechecking row _ content _ | .writing row _ content _ => some (row, content)
  | .checking _ | .fetching _ _ _ | .walked => none

/-- Nothing has failed, and each row so far was healthy or has been healed. -/
def Clean (pass : ScrubPass) : Prop :=
  pass.stats.missingFiles = 0 ∧ pass.stats.corruptedFiles = 0 ∧ pass.stats.errors = 0

end ScrubPass

/-- What a scrub has done so far to the files that it found. -/
structure Scrubbing (config : Config) (files : Files) (w : World) : Prop where
  rows : ∀ pass ∈ w.scrub, pass.rows = listAllBlobs w.rows
  todo : ∀ pass ∈ w.scrub, ∀ row ∈ pass.todo, row ∈ listAllBlobs w.rows
  done : ∀ pass ∈ w.scrub, ∀ row ∈ listAllBlobs w.rows, row ∈ pass.todo ∨
    Intact config w.files row
  underway : ∀ pass ∈ w.scrub, ∀ row ∈ pass.underway, ¬ Intact config w.files row
  fetched : ∀ pass ∈ w.scrub, ∀ e ∈ pass.fetched, verifyContent config e.1 e.2 = .ok ()
  clean : ∀ pass ∈ w.scrub, pass.Clean
  kept : ∀ row ∈ listAllBlobs w.rows, Intact config files row → Intact config w.files row
  frame : ∀ path, w.files.get? path = files.get? path ∨
    ∃ row ∈ listAllBlobs w.rows, path = row.facts.storagePath ∧ ¬ Intact config files row

namespace Scrubbing

theorem none (h : Scrubbing config files w) : Scrubbing config files { w with scrub := none } where
  rows := by
    rintro _ ⟨⟩
  todo := by
    rintro _ ⟨⟩
  done := by
    rintro _ ⟨⟩
  underway := by
    rintro _ ⟨⟩
  fetched := by
    rintro _ ⟨⟩
  clean := by
    rintro _ ⟨⟩
  kept := h.kept
  frame := h.frame

theorem start (hNone : w.scrub = Option.none) : Scrubbing config w.files w where
  rows := by
    rw [hNone]
    rintro _ ⟨⟩
  todo := by
    rw [hNone]
    rintro _ ⟨⟩
  done := by
    rw [hNone]
    rintro _ ⟨⟩
  underway := by
    rw [hNone]
    rintro _ ⟨⟩
  fetched := by
    rw [hNone]
    rintro _ ⟨⟩
  clean := by
    rw [hNone]
    rintro _ ⟨⟩
  kept _ _ h := h
  frame _ := Or.inl rfl

theorem listRows (h : Scrubbing config files w) :
    let rows := listAllBlobs w.rows
    Scrubbing config files
      { w with scrub := some ⟨rows, .checking rows, ⟨0, 0, 0, 0, 0, 0⟩⟩ } where
  rows := by
    rintro _ ⟨⟩
    rfl
  todo := by
    rintro _ ⟨⟩
    exact fun _ hRow => hRow
  done := by
    rintro _ ⟨⟩
    exact fun _ hRow => Or.inl hRow
  underway := by
    rintro _ ⟨⟩ _ ⟨⟩
  fetched := by
    rintro _ ⟨⟩ _ ⟨⟩
  clean := by
    rintro _ ⟨⟩
    exact ⟨rfl, rfl, rfl⟩
  kept := h.kept
  frame := h.frame

/-- The pass goes on, with the same files and none of its rows left out. -/
theorem advance (h : Scrubbing config files w) {pass' : ScrubPass} (hScrub : w.scrub = some pass)
    (hRows : pass'.rows = pass.rows) (hClean : pass'.Clean)
    (hTodo : ∀ row ∈ pass'.todo, row ∈ pass.todo)
    (hDone : ∀ row ∈ pass.todo, row ∈ pass'.todo ∨ Intact config w.files row)
    (hUnderway : ∀ row ∈ pass'.underway, ¬ Intact config w.files row)
    (hFetched : ∀ e ∈ pass'.fetched, verifyContent config e.1 e.2 = .ok ()) :
    Scrubbing config files { w with scrub := some pass' } where
  rows := by
    rintro _ ⟨⟩
    exact hRows.trans (h.rows pass hScrub)
  todo := by
    rintro _ ⟨⟩
    exact fun row hRow => h.todo pass hScrub row (hTodo row hRow)
  done := by
    rintro _ ⟨⟩
    exact fun row hRow => (h.done pass hScrub row hRow).elim (hDone row) Or.inr
  underway := by
    rintro _ ⟨⟩
    exact hUnderway
  fetched := by
    rintro _ ⟨⟩
    exact hFetched
  clean := by
    rintro _ ⟨⟩
    exact hClean
  kept := h.kept
  frame := h.frame

end Scrubbing

theorem scrubbing_checkRow (hHeals : config.heals = true) (h : Scrubbing config files w)
    (hScrub : w.scrub = some pass) (hPhase : pass.phase = .checking (row :: rest)) :
    Scrubbing config files
      { w with scrub := some (checkRow config w.files true pass row rest) } := by
  have hTodo : pass.todo = row :: rest := by rw [ScrubPass.todo, hPhase]
  have hClean := h.clean pass hScrub
  rw [checkRow, if_pos rfl]
  dsimp only
  split
  · rename_i hHealthy
    have hIntact : Intact config w.files row := problemOf_none.mp hHealthy
    refine h.advance hScrub rfl hClean ?_ ?_ (by rintro _ ⟨⟩) (by rintro _ ⟨⟩)
    · rw [hTodo]
      exact fun r hR => List.mem_cons_of_mem _ hR
    · rw [hTodo, List.forall_mem_cons]
      exact ⟨Or.inr hIntact, fun r hR => Or.inl hR⟩
  · rename_i problem hProblem
    rw [if_pos hHeals]
    refine h.advance hScrub rfl hClean ?_ ?_ ?_ (by rintro _ ⟨⟩)
    · rw [hTodo]
      exact fun r hR => hR
    · rw [hTodo]
      exact fun r hR => Or.inl hR
    · rintro _ ⟨⟩ hIntact
      rw [problemOf_none.mpr hIntact] at hProblem
      cases hProblem

theorem scrubbing_fetchHealthy {problem : Problem}
    (hCovers : Covers config w.bucket (listAllBlobs w.rows)) (h : Scrubbing config files w)
    (hScrub : w.scrub = some pass)
    (hPhase : pass.phase = .fetching row problem rest) :
    Scrubbing config files
      { w with scrub := some (fetchHealthy config w.bucket true pass row problem rest) } := by
  have hTodo : pass.todo = row :: rest := by rw [ScrubPass.todo, hPhase]
  have hUnderway : pass.underway = some row := by rw [ScrubPass.underway, hPhase]
  have hRow := h.todo pass hScrub row (hTodo ▸ List.mem_cons_self)
  obtain ⟨content, hFetched⟩ := fetchVerified_covered hCovers hRow
  rw [fetchHealthy, hFetched]
  refine h.advance hScrub rfl (h.clean pass hScrub) ?_ ?_ ?_ ?_
  · rw [hTodo]
    exact fun r hR => hR
  · rw [hTodo]
    exact fun r hR => Or.inl hR
  · rintro _ ⟨⟩
    exact h.underway pass hScrub row hUnderway
  · rintro _ ⟨⟩
    exact fetchVerified_ok hFetched

theorem scrubbing_recheckRow {problem : Problem} (h : Scrubbing config files w)
    (hScrub : w.scrub = some pass) (hPhase : pass.phase = .rechecking row problem content rest) :
    Scrubbing config files
      { w with scrub := some (recheckRow w.rows true pass row problem content rest) } := by
  have hTodo : pass.todo = row :: rest := by rw [ScrubPass.todo, hPhase]
  have hUnderway : pass.underway = some row := by rw [ScrubPass.underway, hPhase]
  have hFetched : pass.fetched = some (row, content) := by rw [ScrubPass.fetched, hPhase]
  have hRow := mem_listAllBlobs.mp (h.todo pass hScrub row (hTodo ▸ List.mem_cons_self))
  have hStill : (w.rows.get? row.cid).isSome = true := by rw [hRow]; rfl
  rw [recheckRow, if_pos rfl, if_pos hStill]
  refine h.advance hScrub rfl (h.clean pass hScrub) ?_ ?_ ?_ ?_
  · rw [hTodo]
    exact fun r hR => hR
  · rw [hTodo]
    exact fun r hR => Or.inl hR
  · rintro _ ⟨⟩
    exact h.underway pass hScrub row hUnderway
  · rintro _ ⟨⟩
    exact h.fetched pass hScrub _ hFetched

/-- What is written is at the path of the row, and only of this row. -/
theorem scrubbing_storeHealed {problem : Problem} (hSound : Sound config C w)
    (h : Scrubbing config files w) (hScrub : w.scrub = some pass)
    (hPhase : pass.phase = .writing row problem content rest) :
    Scrubbing config files { w with
      files := (storeHealed config w.files .done pass problem content rest).1
      scrub := some (storeHealed config w.files .done pass problem content rest).2 } := by
  have hTodo : pass.todo = row :: rest := by rw [ScrubPass.todo, hPhase]
  have hUnderway : pass.underway = some row := by rw [ScrubPass.underway, hPhase]
  have hFetched : pass.fetched = some (row, content) := by rw [ScrubPass.fetched, hPhase]
  have hListed := h.todo pass hScrub
  have hRow := hListed row (hTodo ▸ List.mem_cons_self)
  have hVerified := h.fetched pass hScrub _ hFetched
  have hBroken := h.underway pass hScrub row hUnderway
  have hPaths := fun cid facts hGet => (hSound.traced.rows cid facts hGet).2
  have hPath : storagePath (computeCid config content) = row.facts.storagePath := by
    rw [(verifyContent_ok.mp hVerified).2]
    exact (hPaths _ _ (mem_listAllBlobs.mp hRow)).symm
  change Scrubbing config files { w with
    files := w.files.set (storagePath (computeCid config content)) (some content), scrub := _ }
  rw [hPath]
  refine ⟨?_, ?_, ?_, by rintro _ ⟨⟩ _ ⟨⟩, by rintro _ ⟨⟩ _ ⟨⟩, ?_, ?_, ?_⟩
  · rintro _ ⟨⟩
    exact h.rows pass hScrub
  · rintro _ ⟨⟩ r hR
    exact hListed r (hTodo ▸ List.mem_cons_of_mem _ hR)
  · rintro _ ⟨⟩ r hR
    rcases h.done pass hScrub r hR with hMem | hIntact
    · rcases List.mem_cons.mp (hTodo ▸ hMem) with hSame | hMem
      · exact Or.inr ((intact_set hPaths hRow hVerified hR).mpr (Or.inl hSame))
      · exact Or.inl hMem
    · exact Or.inr ((intact_set hPaths hRow hVerified hR).mpr (Or.inr hIntact))
  · rintro _ ⟨⟩
    exact h.clean pass hScrub
  · exact fun r hR hIntact =>
      (intact_set hPaths hRow hVerified hR).mpr (Or.inr (h.kept r hR hIntact))
  · intro path
    change (w.files.set row.facts.storagePath (some content)).get? path = _ ∨ _
    rw [SortedMap.get?_set]
    split
    · rename_i hEq
      exact Or.inr ⟨row, hRow, hEq.symm, fun hIntact => hBroken (h.kept row hRow hIntact)⟩
    · exact h.frame path

theorem scrubbing_step {a : ScrubAction} {next : Files × Option ScrubPass}
    (hFaultless : (Label.scrub a).faultless = true) (hHeals : config.heals = true)
    (hRecoverable : Recoverable config C w) (hScrubbing : Scrubbing config files w)
    (h : scrubStep config w a = some next) :
    Scrubbing config files { w with files := next.1, scrub := next.2 } := by
  rcases scrubStep_cases h with ⟨-, -, rfl⟩ | ⟨pass, hScrub, hCases⟩
  · exact hScrubbing.listRows
  · rcases hCases with ⟨row, rest, ok, rfl, hPhase, rfl⟩ |
      ⟨row, problem, rest, ok, rfl, hPhase, rfl⟩ |
      ⟨row, problem, content, rest, ok, rfl, hPhase, rfl⟩ |
      ⟨row, problem, content, rest, outcome, rfl, hPhase, rfl⟩ | ⟨ok, rfl, hPhase, rfl⟩ |
      ⟨rfl, hPhase, rfl⟩
    · obtain rfl : ok = true := hFaultless
      exact scrubbing_checkRow hHeals hScrubbing hScrub hPhase
    · obtain rfl : ok = true := hFaultless
      exact scrubbing_fetchHealthy hRecoverable.covers hScrubbing hScrub hPhase
    · obtain rfl : ok = true := hFaultless
      exact scrubbing_recheckRow hScrubbing hScrub hPhase
    · obtain rfl : outcome = .done := of_decide_eq_true hFaultless
      exact scrubbing_storeHealed hRecoverable.sound hScrubbing hScrub hPhase
    · obtain rfl : ok = true := hFaultless
      have hTodo : pass.todo = [] := by rw [ScrubPass.todo, hPhase]
      refine hScrubbing.advance hScrub rfl (hScrubbing.clean pass hScrub) (by rintro _ ⟨⟩) ?_
        (by rintro _ ⟨⟩) (by rintro _ ⟨⟩)
      rw [hTodo]
      rintro _ ⟨⟩
    · exact hScrubbing.none

theorem scrubbing_run {actions : List ScrubAction}
    (hFaultless : ∀ a ∈ actions, (Label.scrub a).faultless = true) (hHeals : config.heals = true)
    (hRecoverable : Recoverable config C w) (hScrubbing : Scrubbing config files w)
    (hRun : run (step config) w (actions.map .scrub) = some w') :
    Scrubbing config files w' := by
  induction actions generalizing w with
  | nil =>
    cases hRun
    exact hScrubbing
  | cons a actions ih =>
    obtain ⟨u, hStep, hRun⟩ := run_cons_some.mp hRun
    obtain ⟨hFirst, hRest⟩ := List.forall_mem_cons.mp hFaultless
    refine ih hRest (hRecoverable.step rfl hStep) ?_ hRun
    rw [step] at hStep
    split at hStep
    · obtain ⟨next, hNext, rfl⟩ := Option.map_eq_some_iff.mp hStep
      exact scrubbing_step hFirst hHeals hRecoverable hScrubbing hNext
    · cases hStep

/-- The file is changed, found to be, and written again. -/
def scrubActions : List ScrubAction :=
  [.listRows, .checkRow true, .fetchCopy true, .recheckRow true, .storeBlob .done, .walkFiles true]

end Ezpds.Blobs.Mirror
