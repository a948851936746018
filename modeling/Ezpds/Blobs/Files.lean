import Ezpds.Blobs.System

/-!
# The file of a blob

An upload writes the file and then the row, the collector and a purge delete the row and then
the file. Uploads of one content and the deletion of its row are no matter, since the file is
the same; but an upload may come between the deletion of the row and that of the file, and then
its row is left without one.

* `Inv`: what has a file.
* `files_present`: over every run in which a file is unlinked while nothing needs it.
-/

namespace Ezpds.Blobs

open Library

/-- Every blob that has a row has its file. -/
def State.FilesPresent (s : State) : Prop :=
  ∀ row ∈ s.tables.blobs, row.storagePath ∈ s.files

instance (s : State) : Decidable s.FilesPresent :=
  inferInstanceAs (Decidable (∀ row ∈ s.tables.blobs, row.storagePath ∈ s.files))

/-- No row names the file, and no upload is between its write and its row. -/
structure State.Unclaimed (s : State) (path : String) : Prop where
  rows : ∀ row ∈ s.tables.blobs, row.storagePath ≠ path
  uploads : ∀ upload ∈ s.uploads, ∀ cid ∈ upload.cid?, storagePath cid ≠ path

instance (s : State) (path : String) : Decidable (s.Unclaimed path) :=
  decidable_of_iff
    ((∀ row ∈ s.tables.blobs, row.storagePath ≠ path) ∧
      ∀ upload ∈ s.uploads, ∀ cid ∈ upload.cid?, storagePath cid ≠ path)
    ⟨fun h => ⟨h.1, h.2⟩, fun h => ⟨h.rows, h.uploads⟩⟩

/-- The file that a step is to unlink. -/
def State.unlinked (s : State) : Label → Option String
  | .unlinkBlob =>
    match s.pass with
    | some ⟨_, _, .unlinking path _⟩ => some path
    | _ => none
  | .unlinkPurged i =>
    match s.purges[i]? with
    | some (path :: _) => some path
    | _ => none
  | _ => none

/-- A file is unlinked while no row and no upload has come to need it again. -/
def UnlinksUnclaimed (s : State) (label : Label) : Prop :=
  ∀ path ∈ s.unlinked label, s.Unclaimed path

instance (s : State) (label : Label) : Decidable (UnlinksUnclaimed s label) :=
  inferInstanceAs (Decidable (∀ path ∈ s.unlinked label, s.Unclaimed path))

namespace Files

structure Inv (s : State) : Prop where
  rows : s.FilesPresent
  uploads : ∀ upload ∈ s.uploads, ∀ cid ∈ upload.cid?, storagePath cid ∈ s.files

variable {s t : State} {ttl i : Nat}

/-- Fewer rows and uploads, and the same files. -/
theorem Inv.mono (h : Inv s) (hFiles : t.files = s.files)
    (hRows : ∀ row ∈ t.tables.blobs, row ∈ s.tables.blobs)
    (hUploads : ∀ upload ∈ t.uploads, ∀ cid ∈ upload.cid?,
      ∃ old ∈ s.uploads, cid ∈ old.cid?) : Inv t where
  rows := by
    intro row hRow
    rw [hFiles]
    exact h.rows row (hRows row hRow)
  uploads := by
    intro upload hUpload cid hCid
    obtain ⟨old, hOld, hCid⟩ := hUploads upload hUpload cid hCid
    rw [hFiles]
    exact h.uploads old hOld cid hCid

theorem Inv.frame (h : Inv s) (hFiles : t.files = s.files)
    (hRows : ∀ row ∈ t.tables.blobs, row ∈ s.tables.blobs) (hUploads : t.uploads = s.uploads) :
    Inv t := by
  refine h.mono hFiles hRows ?_
  intro upload hUpload cid hCid
  exact ⟨upload, hUploads ▸ hUpload, hCid⟩

theorem blobs_upsertOwnerReferenced {tables : BlobTables} {did cid : String} {refCount : Nat} :
    (tables.upsertOwnerReferenced did cid refCount).blobs = tables.blobs := by
  rw [BlobTables.upsertOwnerReferenced]
  split
  · rfl
  · rfl

namespace Inv

variable (h : Inv s)
include h

theorem storeBlob (did cid : String) : Inv (s.storeBlob did cid) where
  rows := fun row hRow => List.mem_cons_of_mem _ (h.rows row hRow)
  uploads := by
    apply forall_mem_append_singleton
    · intro upload hUpload cid' hCid
      exact List.mem_cons_of_mem _ (h.uploads upload hUpload cid' hCid)
    · rintro _ ⟨⟩
      exact List.mem_cons_self

/-- An upload goes on, with the content that it has stored. -/
theorem advance {upload : UploadPhase}
    (hCid : ∀ cid ∈ upload.cid?, storagePath cid ∈ s.files) :
    Inv { s with uploads := s.uploads.set i upload } where
  rows := h.rows
  uploads := forall_mem_set h.uploads hCid

theorem stampUpload (hStep : s.stampUpload ttl i = some t) : Inv t := by
  rw [State.stampUpload] at hStep
  split at hStep
  · rename_i did cid hUpload
    have hStored := h.uploads _ (List.mem_of_getElem? hUpload)
    cases hStep
    exact h.advance hStored
  · cases hStep

/-- The row that is inserted is that of the file that the upload has written. -/
theorem insertUpload (hStep : s.insertUpload i = some t) : Inv t := by
  rw [State.insertUpload] at hStep
  split at hStep
  · rename_i did cid tempUntil hUpload
    have hStored : storagePath cid ∈ s.files :=
      h.uploads _ (List.mem_of_getElem? hUpload) cid rfl
    have hEnded : Inv { s with uploads := s.uploads.set i .ended } := h.advance nofun
    dsimp only at hStep
    split at hStep
    · cases hStep
      refine ⟨?_, hEnded.uploads⟩
      intro row hRow
      rw [BlobTables.insertBlob] at hRow
      dsimp only at hRow
      rw [insertBlobRow] at hRow
      split at hRow
      · exact h.rows row hRow
      · rcases List.mem_append.mp hRow with hRow | hRow
        · exact h.rows row hRow
        · rw [List.mem_singleton.mp hRow]
          exact hStored
    · cases hStep
      exact hEnded
  · cases hStep

theorem endUpload (hStep : s.endUpload i = some t) : Inv t := by
  rw [State.endUpload] at hStep
  split at hStep
  · cases hStep
    exact h.advance nofun
  · cases hStep

theorem unlink {path : String} (hUnclaimed : s.Unclaimed path) : Inv (s.unlink path) where
  rows := fun row hRow =>
    List.mem_filter.mpr ⟨h.rows row hRow, decide_eq_true (hUnclaimed.rows row hRow)⟩
  uploads := fun upload hUpload cid hCid =>
    List.mem_filter.mpr ⟨h.uploads upload hUpload cid hCid,
      decide_eq_true (hUnclaimed.uploads upload hUpload cid hCid)⟩

theorem unlinkBlob (hGuard : UnlinksUnclaimed s .unlinkBlob) (hStep : s.unlinkBlob = some t) :
    Inv t := by
  rw [State.unlinkBlob] at hStep
  split at hStep
  · rename_i rest unreconciled path expired hPass
    have hUnclaimed : s.Unclaimed path := hGuard path (by rw [State.unlinked, hPass]; rfl)
    cases hStep
    exact (h.unlink hUnclaimed).frame rfl (fun _ hRow => hRow) rfl
  · cases hStep

theorem unlinkPurged (hGuard : UnlinksUnclaimed s (.unlinkPurged i))
    (hStep : s.unlinkPurged i = some t) : Inv t := by
  rw [State.unlinkPurged] at hStep
  split at hStep
  · rename_i path paths hPaths
    have hUnclaimed : s.Unclaimed path := hGuard path (by rw [State.unlinked, hPaths]; rfl)
    cases hStep
    exact (h.unlink hUnclaimed).frame rfl (fun _ hRow => hRow) rfl
  · cases hStep

end Inv

theorem inv_empty : Inv State.empty where
  rows := by
    intro row hRow
    cases hRow
  uploads := by
    intro upload hUpload
    cases hUpload

theorem inv_step {label : Label} (h : Inv s) (hGuard : UnlinksUnclaimed s label)
    (hStep : s.step ttl label = some t) : Inv t := by
  by_cases hMoves : label.movesPass = true
  · obtain ⟨pass, rfl⟩ := State.movesPass_some hStep hMoves
    exact h.frame rfl (fun _ hRow => hRow) rfl
  cases label with
  | tick now =>
    rw [State.step, State.tick] at hStep
    split at hStep <;> cases hStep
    exact h.frame rfl (fun _ hRow => hRow) rfl
  | writeRecords did records =>
    cases hStep
    exact h.frame rfl (fun _ hRow => hRow) rfl
  | storeBlob did cid =>
    cases hStep
    exact h.storeBlob did cid
  | stampUpload i => exact h.stampUpload hStep
  | insertUpload i => exact h.insertUpload hStep
  | endUpload i => exact h.endUpload hStep
  | pin cid =>
    rw [State.step, State.pin] at hStep
    split at hStep
    · split at hStep <;> cases hStep
      refine h.frame rfl (fun row hRow => ?_) rfl
      rw [blobs_upsertOwnerReferenced] at hRow
      exact hRow
    · cases hStep
  | release =>
    rw [State.step, State.release] at hStep
    split at hStep <;> cases hStep
    refine h.frame rfl (fun row hRow => ?_) rfl
    dsimp only at hRow
    split at hRow
    · exact hRow
    · exact hRow
  | sweepOwner =>
    rw [State.step, State.sweepOwner] at hStep
    split at hStep
    · dsimp only at hStep
      split at hStep <;> cases hStep <;> exact h.frame rfl (fun _ hRow => hRow) rfl
    · cases hStep
  | reclaimBlob =>
    rw [State.step, State.reclaimBlob] at hStep
    split at hStep <;> cases hStep
    exact h.frame rfl (fun row hRow => (mem_deleteWhere.mp hRow).1) rfl
  | unlinkBlob => exact h.unlinkBlob hGuard hStep
  | purgeAccount did =>
    rw [State.step, State.purgeAccount] at hStep
    split at hStep <;> cases hStep
    exact h.frame rfl (fun row hRow => (mem_deleteWhere.mp hRow).1) rfl
  | unlinkPurged i => exact h.unlinkPurged hGuard hStep
  | failUnlink i =>
    rw [State.step, State.failUnlink] at hStep
    split at hStep <;> cases hStep
    exact h.frame rfl (fun _ hRow => hRow) rfl
  | _ => exact absurd rfl hMoves

end Files

/-- Every blob row has its file in every state of a run in which a file is unlinked while
nothing has come to need it again. -/
theorem files_present (ttl : Nat) (labels : List Label) (s : State)
    (hAlong : Along (State.step ttl) UnlinksUnclaimed .empty labels)
    (hRun : run (State.step ttl) .empty labels = some s) : s.FilesPresent := by
  have hInv : Files.Inv s :=
    run_invariant_along (fun _ _ _ hI hG hStep => Files.inv_step hI hG hStep)
      Files.inv_empty hAlong hRun
  exact hInv.rows

/-- An upload, and a pass after its grace period. -/
def orphanRun : List Label :=
  [.writeRecords "did:plc:alice" State.noRecords, .storeBlob "did:plc:alice" "bafkreia",
    .stampUpload 0, .insertUpload 0, .tick 21601, .beginPass, .openRepo, .walkPage, .listOwned,
    .computeGrace, .release, .finishAccount, .listExpired, .sweepOwner, .reclaimBlob]

theorem files_present_alice :
    ∃ s, run (State.step 21600) .empty (orphanRun ++ [.unlinkBlob, .endPass]) = some s ∧
      s.FilesPresent := by
  have hSome : (run (State.step 21600) .empty
      (orphanRun ++ [.unlinkBlob, .endPass])).isSome = true := by
    decide +kernel
  obtain ⟨s, hRun⟩ := Option.isSome_iff_exists.mp hSome
  exact ⟨s, hRun, files_present 21600 _ s (by decide +kernel) hRun⟩

/-- The content comes again between the deletion of its row and that of its file. -/
theorem unlink_takes_new_file :
    ¬ ∀ (ttl : Nat) (labels : List Label) (s : State),
      run (State.step ttl) .empty labels = some s → s.FilesPresent := by
  intro h
  have hLost : (run (State.step 21600) .empty (orphanRun ++
      [.storeBlob "did:plc:alice" "bafkreia", .stampUpload 1, .insertUpload 1, .unlinkBlob])).any
        (fun s => !decide s.FilesPresent) = true := by
    decide +kernel
  obtain ⟨s, hRun, hLost⟩ := (Option.any_eq_true _ _).mp hLost
  simp [h _ _ s hRun] at hLost

end Ezpds.Blobs
