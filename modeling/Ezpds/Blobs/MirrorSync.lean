import Ezpds.Blobs.Mirror

/-!
# What the bucket holds

Only the mirror sweep changes the bucket, and only by what it has verified. What a pass knows of
the bucket stays true to its end, whatever is uploaded, collected or lost meanwhile.

* `copies_verified`: every copy is of the content that its key names.
* `pass_syncs`: a pass without errors leaves the copies of the rows that it has listed.
* `copy_kept`: while a blob has its row, its copy is neither deleted nor changed.
-/

namespace Ezpds.Blobs.Mirror

open Library

variable {config : Config} {w w' : World} {row : PhysicalBlob} {content : Bytes} {cid : String}
  {bucket : Bucket} {pass : MirrorPass} {rest : List PhysicalBlob}

/-! ## Content and keys -/

theorem verifyContent_ok : verifyContent config row content = .ok () ↔
    (content.length : Int) = row.facts.sizeBytes ∧ computeCid config content = row.cid := by
  rw [verifyContent, bind_ok]
  constructor
  · rintro ⟨_, hSize, hCid⟩
    exact ⟨beq_iff_eq.mp (check_ok.mp hSize), beq_iff_eq.mp (check_ok.mp hCid)⟩
  · rintro ⟨hSize, hCid⟩
    exact ⟨(), check_ok.mpr (beq_iff_eq.mpr hSize), check_ok.mpr (beq_iff_eq.mpr hCid)⟩

theorem verifyContent_isOk : (verifyContent config row content).isOk = true ↔
    verifyContent config row content = .ok () := by
  cases verifyContent config row content with
  | error e => exact ⟨by rintro ⟨⟩, by rintro ⟨⟩⟩
  | ok u => exact ⟨fun _ => rfl, fun _ => rfl⟩

theorem keyFor_inj {cid' : String} : keyFor config cid = keyFor config cid' ↔ cid = cid' := by
  rw [keyFor, keyFor, ← String.toList_inj, String.toList_append, String.toList_append,
    List.append_cancel_left_eq, String.toList_inj]

/-- The bucket has an object for the identifier. -/
def Has (config : Config) (bucket : Bucket) (cid : String) : Prop :=
  ∃ object, bucket.get? (keyFor config cid) = some object

theorem has_set {object : Object} {cid' : String} :
    Has config (bucket.set (keyFor config cid) (some object)) cid' ↔
      cid' = cid ∨ Has config bucket cid' := by
  by_cases h : cid' = cid
  · simp [Has, h]
  · have hKey : keyFor config cid ≠ keyFor config cid' := fun hEq => h (keyFor_inj.mp hEq).symm
    simp [Has, h, hKey]

theorem has_erase {cid' : String} : Has config (bucket.set (keyFor config cid) none) cid' ↔
    cid' ≠ cid ∧ Has config bucket cid' := by
  by_cases h : cid' = cid
  · simp [Has, h]
  · have hKey : keyFor config cid ≠ keyFor config cid' := fun hEq => h (keyFor_inj.mp hEq).symm
    simp [Has, h, hKey]

theorem mem_remoteCids : cid ∈ remoteCids config bucket ↔ Has config bucket cid := by
  rw [remoteCids, List.mem_filterMap]
  constructor
  · rintro ⟨⟨key, object⟩, hMem, hKey⟩
    have hKeyFor : key = keyFor config cid := stripPrefix_some.mp hKey
    exact ⟨object, hKeyFor ▸ assocGet_of_mem bucket.sorted hMem⟩
  · rintro ⟨object, hGet⟩
    exact ⟨(keyFor config cid, object), mem_of_assocGet hGet, stripPrefix_some.mpr rfl⟩

/-! ## Two blobs -/

def firstBlob : Bytes := [102, 105, 114, 115, 116, 32, 98, 108, 111, 98]

def secondBlob : Bytes := [115, 101, 99, 111, 110, 100, 32, 98, 108, 111, 98]

def sampleConfig : Config where
  sha256 content :=
    if content = firstBlob then
      [25, 89, 205, 131, 225, 2, 49, 160, 218, 125, 254, 118, 60, 148, 31, 111, 225, 81, 227,
       192, 27, 219, 65, 103, 91, 134, 208, 211, 11, 115, 56, 22]
    else if content = secondBlob then
      [221, 77, 243, 213, 227, 97, 22, 146, 232, 58, 69, 44, 242, 237, 118, 136, 253, 91,
       146, 110, 12, 135, 148, 245, 58, 29, 62, 161, 192, 112, 101, 80]
    else
      [227, 176, 196, 66, 152, 252, 28, 20, 154, 251, 244, 200, 153, 111, 185, 36, 39, 174,
       65, 228, 100, 155, 147, 76, 164, 149, 153, 27, 120, 82, 184, 85]
  keyPrefix := "blobs/"
  heals := true

def World.empty : World := ⟨.empty, .empty, .empty, none, none, none⟩

def firstCid : String := computeCid sampleConfig firstBlob

def secondCid : String := computeCid sampleConfig secondBlob

def upload (content : Bytes) : List Label :=
  [.outside (.storeFile content), .outside (.insertRow content "image/png")]

/-- The first blob is uploaded and copied. -/
def firstPass : List Label :=
  upload firstBlob ++ [.mirror .listRows, .mirror (.listKeys true), .mirror (.readLocal true),
    .mirror (.putObject .done), .mirror .diffKeys, .mirror .finish]

/-- Its file is lost and its row collected, and the second one is copied in its place. -/
def secondPass : List Label :=
  [.outside (.rot (storagePath firstCid) none), .outside (.deleteRow firstCid)] ++
    upload secondBlob ++ [.mirror .listRows, .mirror (.listKeys true), .mirror (.readLocal true),
      .mirror (.putObject .done), .mirror .diffKeys, .mirror (.deleteObject firstCid .done)]

def firstCopy : Object := ⟨"image/png", firstBlob⟩

/-! ## What a pass knows -/

namespace MirrorPass

/-- The rows that are still to be looked at. -/
def todo (pass : MirrorPass) : List PhysicalBlob :=
  match pass.phase with
  | .listing => pass.rows
  | .uploading rest => rest
  | .putting row _ rest => row :: rest
  | .deleting _ => []

/-- The identifiers without a row whose objects may still be there. -/
def leftover (pass : MirrorPass) : List String :=
  match pass.phase with
  | .listing => []
  | .uploading _ | .putting _ _ _ => pass.stale
  | .deleting rest => rest

structure Inv (config : Config) (bucket : Bucket) (pass : MirrorPass) : Prop where
  remote : ∀ cid ∈ pass.remote, cid ∈ pass.rows.map PhysicalBlob.cid → Has config bucket cid
  todo : ∀ row ∈ pass.todo, row ∈ pass.rows
  uploads : pass.stats.errors = 0 → ∀ row ∈ pass.rows, row ∈ pass.todo ∨ Has config bucket row.cid
  strays : pass.stats.errors = 0 → pass.phase ≠ .listing → pass.rows ≠ [] →
    ∀ cid, Has config bucket cid → cid ∈ pass.rows.map PhysicalBlob.cid ∨ cid ∈ pass.leftover
  leftover : ∀ cid ∈ pass.leftover, cid ∉ pass.rows.map PhysicalBlob.cid
  started : pass.phase = .listing → pass.remote = []
  putting : ∀ row content rest, pass.phase = .putting row content rest →
    verifyContent config row content = .ok () ∧ row.cid ∉ pass.remote

theorem not_mem_stale : ∀ cid ∈ pass.stale, cid ∉ pass.rows.map PhysicalBlob.cid := by
  intro cid hMem
  exact of_decide_eq_true (List.mem_filter.mp hMem).2

theorem mem_stale : cid ∈ pass.remote → cid ∉ pass.rows.map PhysicalBlob.cid → cid ∈ pass.stale :=
  fun hMem hRow => List.mem_filter.mpr ⟨hMem, decide_eq_true hRow⟩

theorem inv_start (rows : List PhysicalBlob) :
    Inv config bucket ⟨rows, [], .listing, ⟨0, 0, 0⟩⟩ where
  remote := by
    rintro cid ⟨⟩
  todo _ h := h
  uploads _ _ h := Or.inl h
  strays _ h := absurd rfl h
  leftover := by
    rintro cid ⟨⟩
  started _ := rfl
  putting := by
    rintro row content rest ⟨⟩

theorem inv_listKeys :
    Inv config bucket
      { pass with remote := remoteCids config bucket, phase := .uploading pass.rows } where
  remote cid hMem _ := mem_remoteCids.mp hMem
  todo _ hRow := hRow
  uploads _ _ hRow := Or.inl hRow
  strays _ _ _ cid hHas := by
    by_cases hRow : cid ∈ pass.rows.map PhysicalBlob.cid
    · exact Or.inl hRow
    · exact Or.inr (List.mem_filter.mpr ⟨mem_remoteCids.mpr hHas, decide_eq_true hRow⟩)
  leftover := not_mem_stale
  started := by
    rintro ⟨⟩
  putting := by
    rintro row content rest ⟨⟩

/-- A row that is not uploaded is an error. -/
theorem Inv.skip (h : Inv config bucket pass) {bucket' : Bucket}
    (hHas : ∀ cid, Has config bucket cid → Has config bucket' cid)
    (hRest : ∀ row ∈ rest, row ∈ pass.rows) : Inv config bucket' (pass.skip rest) where
  remote cid hMem hRow := hHas cid (h.remote cid hMem hRow)
  todo := hRest
  uploads hErrors := absurd hErrors (Nat.succ_ne_zero _)
  strays hErrors := absurd hErrors (Nat.succ_ne_zero _)
  leftover := not_mem_stale
  started := by
    rintro ⟨⟩
  putting := by
    rintro row content rest ⟨⟩

theorem Inv.readLocal (h : Inv config bucket pass) (hPhase : pass.phase = .uploading (row :: rest))
    (files : Files) (ok : Bool) :
    Inv config bucket (Mirror.readLocal config files ok pass row rest) := by
  have hTodo : pass.todo = row :: rest := by rw [MirrorPass.todo, hPhase]
  have hLeftover : pass.leftover = pass.stale := by rw [MirrorPass.leftover, hPhase]
  have hRest : ∀ r ∈ rest, r ∈ pass.rows := fun r hR =>
    h.todo r (hTodo ▸ List.mem_cons_of_mem _ hR)
  have hUploads := h.uploads
  have hStrays := fun hErrors => h.strays hErrors (by rw [hPhase]; rintro ⟨⟩)
  rw [hTodo] at hUploads
  rw [hLeftover] at hStrays
  rw [Mirror.readLocal]
  split
  · rename_i hRemote
    have hRow : row ∈ pass.rows := h.todo row (hTodo ▸ List.mem_cons_self)
    have hHas : Has config bucket row.cid :=
      h.remote _ hRemote (List.mem_map_of_mem hRow)
    refine ⟨h.remote, hRest, ?_, ?_, not_mem_stale, by rintro ⟨⟩, by rintro row content rest ⟨⟩⟩
    · intro hErrors r hR
      rcases hUploads hErrors r hR with hMem | hDone
      · rcases List.mem_cons.mp hMem with rfl | hMem
        · exact Or.inr hHas
        · exact Or.inl hMem
      · exact Or.inr hDone
    · exact fun hErrors _ hRows => hStrays hErrors hRows
  · rename_i hRemote
    split
    · split
      · rename_i content _ hVerified
        rw [Bool.and_eq_true, verifyContent_isOk] at hVerified
        refine ⟨h.remote, fun r hR => h.todo r (hTodo ▸ hR), ?_, ?_, not_mem_stale,
          by rintro ⟨⟩, ?_⟩
        · exact hUploads
        · exact fun hErrors _ hRows => hStrays hErrors hRows
        · rintro _ _ _ ⟨⟩
          exact ⟨hVerified.2, hRemote⟩
      · exact h.skip (fun _ hHas => hHas) hRest
    · exact h.skip (fun _ hHas => hHas) hRest

theorem Inv.putObject (h : Inv config bucket pass)
    (hPhase : pass.phase = .putting row content rest) (outcome : Outcome) :
    Inv config (Mirror.putObject config bucket outcome pass row content rest).1
      (Mirror.putObject config bucket outcome pass row content rest).2 := by
  have hTodo : pass.todo = row :: rest := by rw [MirrorPass.todo, hPhase]
  have hLeftover : pass.leftover = pass.stale := by rw [MirrorPass.leftover, hPhase]
  have hRow : row ∈ pass.rows := h.todo row (hTodo ▸ List.mem_cons_self)
  have hRest : ∀ r ∈ rest, r ∈ pass.rows := fun r hR =>
    h.todo r (hTodo ▸ List.mem_cons_of_mem _ hR)
  have hUploads := h.uploads
  have hStrays := fun hErrors => h.strays hErrors (by rw [hPhase]; rintro ⟨⟩)
  rw [hTodo] at hUploads
  rw [hLeftover] at hStrays
  have hHas : ∀ cid, Has config bucket cid →
      Has config (Mirror.putObject config bucket outcome pass row content rest).1 cid := by
    intro cid hOld
    rw [Mirror.putObject]
    dsimp only
    split
    · exact has_set.mpr (Or.inr hOld)
    · exact hOld
  cases outcome with
  | done =>
    change Inv config (bucket.set (keyFor config row.cid) (some ⟨row.facts.mimeType, content⟩)) _
    refine ⟨fun cid hMem hCid => hHas cid (h.remote cid hMem hCid), hRest, ?_, ?_, not_mem_stale,
      by rintro ⟨⟩, by rintro row content rest ⟨⟩⟩
    · intro hErrors r hR
      rcases hUploads hErrors r hR with hMem | hDone
      · rcases List.mem_cons.mp hMem with rfl | hMem
        · exact Or.inr (has_set.mpr (Or.inl rfl))
        · exact Or.inl hMem
      · exact Or.inr (hHas _ hDone)
    · intro hErrors _ hRows cid hCid
      rcases has_set.mp hCid with rfl | hOld
      · exact Or.inl (List.mem_map_of_mem hRow)
      · exact hStrays hErrors hRows cid hOld
  | failed effect => exact h.skip hHas hRest

theorem Inv.diffKeys (h : Inv config bucket pass) (hPhase : pass.phase = .uploading []) :
    Inv config bucket (Mirror.diffKeys pass) := by
  have hTodo : pass.todo = [] := by rw [MirrorPass.todo, hPhase]
  have hLeftover : pass.leftover = pass.stale := by rw [MirrorPass.leftover, hPhase]
  have hUploads := h.uploads
  have hStrays := fun hErrors => h.strays hErrors (by rw [hPhase]; rintro ⟨⟩)
  rw [hTodo] at hUploads
  rw [hLeftover] at hStrays
  refine ⟨h.remote, by rintro row ⟨⟩, ?_, ?_, ?_, by rintro ⟨⟩, by rintro row content rest ⟨⟩⟩
  · exact hUploads
  · intro hErrors _ hRows cid hHas
    refine (hStrays hErrors hRows cid hHas).imp_right fun hMem => ?_
    have hNotEmpty : ¬ pass.rows.isEmpty = true := fun hEmpty => hRows (List.isEmpty_iff.mp hEmpty)
    change cid ∈ if pass.rows.isEmpty then [] else pass.stale
    rwa [if_neg hNotEmpty]
  · intro cid hMem
    change cid ∈ if pass.rows.isEmpty then [] else pass.stale at hMem
    split at hMem
    · cases hMem
    · exact not_mem_stale cid hMem

theorem Inv.deleteObject (h : Inv config bucket pass) {rest : List String}
    (hPhase : pass.phase = .deleting rest) (hCid : cid ∈ rest) (outcome : Outcome) :
    Inv config (Mirror.deleteObject config bucket cid outcome pass rest).1
      (Mirror.deleteObject config bucket cid outcome pass rest).2 := by
  have hTodo : pass.todo = [] := by rw [MirrorPass.todo, hPhase]
  have hLeftover : pass.leftover = rest := by rw [MirrorPass.leftover, hPhase]
  have hUploads := h.uploads
  have hStrays := fun hErrors => h.strays hErrors (by rw [hPhase]; rintro ⟨⟩)
  rw [hTodo] at hUploads
  rw [hLeftover] at hStrays
  have hNoRow : cid ∉ pass.rows.map PhysicalBlob.cid := h.leftover cid (hLeftover ▸ hCid)
  have hKept : ∀ other ∈ pass.rows.map PhysicalBlob.cid, Has config bucket other →
      Has config (Mirror.deleteObject config bucket cid outcome pass rest).1 other := by
    intro other hRow hOld
    rw [Mirror.deleteObject]
    dsimp only
    split
    · exact has_erase.mpr ⟨fun hEq => hNoRow (hEq ▸ hRow), hOld⟩
    · exact hOld
  refine ⟨fun other hMem hRow => hKept other hRow (h.remote other hMem hRow), by rintro row ⟨⟩, ?_,
    ?_, ?_, by rintro ⟨⟩, by rintro row content rest ⟨⟩⟩
  · intro hErrors r hR
    cases outcome with
    | done =>
      rcases hUploads hErrors r hR with hMem | hDone
      · exact absurd hMem List.not_mem_nil
      · exact Or.inr (hKept _ (List.mem_map_of_mem hR) hDone)
    | failed effect => exact absurd hErrors (Nat.succ_ne_zero _)
  · intro hErrors _ hRows other hHas
    cases outcome with
    | done =>
      obtain ⟨hNe, hOld⟩ := has_erase.mp hHas
      exact (hStrays hErrors hRows other hOld).imp_right (List.mem_erase_of_ne hNe).mpr
    | failed effect => exact absurd hErrors (Nat.succ_ne_zero _)
  · exact fun other hMem => h.leftover other (hLeftover ▸ List.mem_of_mem_erase hMem)

end MirrorPass

/-! ## Over runs -/

/-- What a mirror step does to the bucket and to the pass. -/
theorem mirrorStep_cases {a : MirrorAction} {next : Bucket × Option MirrorPass}
    (h : mirrorStep config w a = some next) :
    (w.mirror = none ∧ next = (w.bucket, some ⟨listAllBlobs w.rows, [], .listing, ⟨0, 0, 0⟩⟩)) ∨
    next = (w.bucket, none) ∨ ∃ pass, w.mirror = some pass ∧ (
      (pass.phase = .listing ∧ next = (w.bucket, some
        { pass with remote := remoteCids config w.bucket, phase := .uploading pass.rows })) ∨
      (∃ row rest ok, pass.phase = .uploading (row :: rest) ∧
        next = (w.bucket, some (readLocal config w.files ok pass row rest))) ∨
      (∃ row content rest outcome, pass.phase = .putting row content rest ∧
        next = ((putObject config w.bucket outcome pass row content rest).1,
          some (putObject config w.bucket outcome pass row content rest).2)) ∨
      (pass.phase = .uploading [] ∧ next = (w.bucket, some (diffKeys pass))) ∨
      ∃ cid outcome rest, pass.phase = .deleting rest ∧ cid ∈ rest ∧
        next = ((deleteObject config w.bucket cid outcome pass rest).1,
          some (deleteObject config w.bucket cid outcome pass rest).2)) := by
  rw [mirrorStep] at h
  split at h
  · rename_i hMirror
    split at h
    · exact Or.inl ⟨hMirror, (Option.some.inj h).symm⟩
    · cases h
  · rename_i pass hMirror
    refine Or.inr ?_
    split at h
    · rename_i ok hPhase
      cases ok with
      | true => exact Or.inr ⟨pass, hMirror, Or.inl ⟨hPhase, (Option.some.inj h).symm⟩⟩
      | false => exact Or.inl (Option.some.inj h).symm
    · rename_i ok row rest hPhase
      exact Or.inr ⟨pass, hMirror, Or.inr (Or.inl
        ⟨row, rest, ok, hPhase, (Option.some.inj h).symm⟩)⟩
    · rename_i outcome row content rest hPhase
      exact Or.inr ⟨pass, hMirror, Or.inr (Or.inr (Or.inl
        ⟨row, content, rest, outcome, hPhase, (Option.some.inj h).symm⟩))⟩
    · rename_i hPhase
      exact Or.inr ⟨pass, hMirror, Or.inr (Or.inr (Or.inr (Or.inl
        ⟨hPhase, (Option.some.inj h).symm⟩)))⟩
    · rename_i cid outcome rest hPhase
      split at h
      · rename_i hCid
        exact Or.inr ⟨pass, hMirror, Or.inr (Or.inr (Or.inr (Or.inr
          ⟨cid, outcome, rest, hPhase, hCid, (Option.some.inj h).symm⟩)))⟩
      · cases h
    · exact Or.inl (Option.some.inj h).symm
    · cases h

/-- The pass that is under way knows the bucket. -/
def Known (config : Config) (w : World) : Prop :=
  ∀ pass ∈ w.mirror, MirrorPass.Inv config w.bucket pass

theorem mirrorStep_known {a : MirrorAction} {next : Bucket × Option MirrorPass}
    (hKnown : Known config w) (h : mirrorStep config w a = some next) :
    ∀ pass ∈ next.2, MirrorPass.Inv config next.1 pass := by
  rcases mirrorStep_cases h with ⟨-, rfl⟩ | rfl | ⟨pass, hMirror, hCases⟩
  · rintro _ ⟨⟩
    exact MirrorPass.inv_start _
  · rintro _ ⟨⟩
  · have hInv := hKnown pass hMirror
    rcases hCases with ⟨-, rfl⟩ | ⟨row, rest, ok, hPhase, rfl⟩ |
      ⟨row, content, rest, outcome, hPhase, rfl⟩ | ⟨hPhase, rfl⟩ |
      ⟨cid, outcome, rest, hPhase, hCid, rfl⟩
    all_goals rintro _ ⟨⟩
    · exact MirrorPass.inv_listKeys
    · exact hInv.readLocal hPhase _ ok
    · exact hInv.putObject hPhase outcome
    · exact hInv.diffKeys hPhase
    · exact hInv.deleteObject hPhase hCid outcome

/-- Only the mirror sweep changes the bucket and its pass, which a boot ends. -/
theorem step_mirror {label : Label} (h : step config w label = some w') :
    (w'.bucket = w.bucket ∧ (w'.mirror = w.mirror ∨ w'.mirror = none)) ∨
      ∃ a, label = .mirror a ∧ mirrorStep config w a = some (w'.bucket, w'.mirror) ∧
        w'.rows = w.rows := by
  cases label with
  | outside a =>
    rw [step] at h
    split at h
    · cases h
      exact Or.inl ⟨rfl, Or.inl rfl⟩
    · cases h
  | mirror a =>
    rw [step] at h
    split at h
    · obtain ⟨next, hNext, rfl⟩ := Option.map_eq_some_iff.mp h
      exact Or.inr ⟨a, rfl, hNext, rfl⟩
    · cases h
  | boot =>
    cases h
    exact Or.inl ⟨rfl, Or.inr rfl⟩
  | restore a =>
    obtain ⟨next, hNext, rfl⟩ := Option.map_eq_some_iff.mp h
    exact Or.inl ⟨rfl, Or.inl rfl⟩
  | scrub a =>
    rw [step] at h
    split at h
    · obtain ⟨next, hNext, rfl⟩ := Option.map_eq_some_iff.mp h
      exact Or.inl ⟨rfl, Or.inl rfl⟩
    · cases h

theorem step_known {label : Label} (hKnown : Known config w) (h : step config w label = some w') :
    Known config w' := by
  rcases step_mirror h with ⟨hBucket, hMirror | hMirror⟩ | ⟨a, -, hStep, -⟩
  · rw [Known, hBucket, hMirror]
    exact hKnown
  · rw [Known, hMirror]
    rintro pass ⟨⟩
  · exact mirrorStep_known hKnown hStep

theorem known_start (h : w.mirror = none) : Known config w := by
  rw [Known, h]
  rintro pass ⟨⟩

/-- When a pass has come to its end without an error, each row that it listed has its copy, and
unless it listed none, there are no others. -/
theorem pass_syncs {labels : List Label} (hStart : w.mirror = none)
    (hRun : run (step config) w labels = some w') {pass : MirrorPass}
    (hPass : w'.mirror = some pass) (hEnd : pass.phase = .deleting [])
    (hErrors : pass.stats.errors = 0) :
    (∀ row ∈ pass.rows, Has config w'.bucket row.cid) ∧
      (pass.rows ≠ [] → ∀ cid,
        Has config w'.bucket cid ↔ cid ∈ pass.rows.map PhysicalBlob.cid) := by
  have hKnown := run_invariant (fun _ _ _ h hStep => step_known h hStep) (known_start hStart) hRun
  have hInv := hKnown pass hPass
  have hUploads : ∀ row ∈ pass.rows, Has config w'.bucket row.cid := by
    intro row hRow
    refine (hInv.uploads hErrors row hRow).resolve_left ?_
    rw [MirrorPass.todo, hEnd]
    exact List.not_mem_nil
  refine ⟨hUploads, fun hRows cid => ⟨fun hHas => ?_, fun hCid => ?_⟩⟩
  · refine (hInv.strays hErrors (by rw [hEnd]; rintro ⟨⟩) hRows cid hHas).resolve_right ?_
    rw [MirrorPass.leftover, hEnd]
    exact List.not_mem_nil
  · obtain ⟨row, hRow, rfl⟩ := List.mem_map.mp hCid
    exact hUploads row hRow

theorem pass_syncs_second : ∃ w, run (step sampleConfig) .empty (firstPass ++ secondPass) = some w ∧
    Has sampleConfig w.bucket secondCid ∧ ¬ Has sampleConfig w.bucket firstCid := by
  have hSome : (run (step sampleConfig) .empty (firstPass ++ secondPass)).any (fun w =>
      w.mirror.any fun pass => pass.phase = .deleting [] ∧ pass.stats.errors = 0 ∧
        pass.rows.map PhysicalBlob.cid = [secondCid]) = true := by
    decide +kernel
  obtain ⟨w, hRun, hPass⟩ := (Option.any_eq_true _ _).mp hSome
  obtain ⟨pass, hPass, hFacts⟩ := (Option.any_eq_true _ _).mp hPass
  obtain ⟨hEnd, hErrors, hRows⟩ := of_decide_eq_true hFacts
  have hNe : pass.rows ≠ [] := by
    rintro hNil
    rw [hNil] at hRows
    cases hRows
  obtain ⟨-, hHas⟩ := pass_syncs rfl hRun hPass hEnd hErrors
  have hFirst : firstCid ∉ [secondCid] := by decide +kernel
  refine ⟨w, hRun, (hHas hNe secondCid).mpr ?_, fun h => hFirst ?_⟩
  · rw [hRows]
    exact List.mem_singleton_self _
  · exact hRows ▸ (hHas hNe firstCid).mp h

/-! ## Where copies come from -/

variable {C : Set Bytes}

/-- An upload had this identifier and this size. -/
def Origin (config : Config) (C : Set Bytes) (cid : String) (size : Int) : Prop :=
  ∃ content ∈ C, computeCid config content = cid ∧ (content.length : Int) = size

/-- Rows and copies are of what was uploaded. -/
structure Traced (config : Config) (C : Set Bytes) (w : World) : Prop where
  rows : ∀ cid facts, w.rows.get? cid = some facts →
    Origin config C cid facts.sizeBytes ∧ facts.storagePath = storagePath cid
  copies : ∀ cid object, w.bucket.get? (keyFor config cid) = some object →
    computeCid config object.bytes = cid ∧ Origin config C cid object.bytes.length
  listed : ∀ pass ∈ w.mirror, ∀ row ∈ pass.rows, Origin config C row.cid row.facts.sizeBytes

/-- The contents of the uploads that insert a row. -/
def Uploads (C : Set Bytes) (label : Label) : Prop :=
  ∀ content mimeType, label = .outside (.insertRow content mimeType) → content ∈ C

theorem mem_listAllBlobs {rows : Rows} :
    row ∈ listAllBlobs rows ↔ rows.get? row.cid = some row.facts := by
  rw [listAllBlobs, List.mem_map]
  constructor
  · rintro ⟨e, hMem, rfl⟩
    exact assocGet_of_mem rows.sorted hMem
  · intro hGet
    exact ⟨(row.cid, row.facts), mem_of_assocGet hGet, rfl⟩

theorem traced_rows {rows : Rows} {files : Files} {a : Outside} (hUploads : Uploads C (.outside a))
    (h : ∀ cid facts, rows.get? cid = some facts →
      Origin config C cid facts.sizeBytes ∧ facts.storagePath = storagePath cid) :
    ∀ cid facts, (outsideStep config rows files a).1.get? cid = some facts →
      Origin config C cid facts.sizeBytes ∧ facts.storagePath = storagePath cid := by
  cases a with
  | insertRow content mimeType =>
    intro cid facts hGet
    change (insertBlob config rows content mimeType).get? cid = some facts at hGet
    rw [insertBlob] at hGet
    split at hGet
    · exact h cid facts hGet
    · rw [SortedMap.get?_set] at hGet
      split at hGet
      · rename_i hCid
        cases hGet
        exact ⟨⟨content, hUploads content mimeType rfl, hCid, rfl⟩, congrArg storagePath hCid⟩
      · exact h cid facts hGet
  | deleteRow gone =>
    intro cid facts hGet
    change (rows.set gone none).get? cid = some facts at hGet
    rw [SortedMap.get?_set] at hGet
    split at hGet
    · cases hGet
    · exact h cid facts hGet
  | storeFile content => exact h
  | unlink path => exact h
  | rot path bytes => exact h

/-- The bucket takes what was verified against a listed row. -/
theorem traced_mirror {a : MirrorAction} {next : Bucket × Option MirrorPass}
    (hKnown : Known config w) (hTraced : Traced config C w)
    (h : mirrorStep config w a = some next) :
    Traced config C { w with bucket := next.1, mirror := next.2 } := by
  have hListed : ∀ row ∈ listAllBlobs w.rows, Origin config C row.cid row.facts.sizeBytes :=
    fun row hRow => (hTraced.rows _ _ (mem_listAllBlobs.mp hRow)).1
  rcases mirrorStep_cases h with ⟨-, rfl⟩ | rfl | ⟨pass, hMirror, hCases⟩
  · exact ⟨hTraced.rows, hTraced.copies, by rintro _ ⟨⟩; exact hListed⟩
  · exact ⟨hTraced.rows, hTraced.copies, by rintro _ ⟨⟩⟩
  · have hInv := hKnown pass hMirror
    have hRows := hTraced.listed pass hMirror
    rcases hCases with ⟨-, rfl⟩ | ⟨row, rest, ok, hPhase, rfl⟩ |
      ⟨row, content, rest, outcome, hPhase, rfl⟩ | ⟨hPhase, rfl⟩ |
      ⟨cid, outcome, rest, hPhase, hCid, rfl⟩
    · exact ⟨hTraced.rows, hTraced.copies, by rintro _ ⟨⟩; exact hRows⟩
    · refine ⟨hTraced.rows, hTraced.copies, ?_⟩
      rintro _ ⟨⟩
      rw [readLocal]
      split
      · exact hRows
      · split
        · split
          · exact hRows
          · exact hRows
        · exact hRows
    · refine ⟨hTraced.rows, ?_, ?_⟩
      · intro cid object hGet
        dsimp only [putObject] at hGet
        split at hGet
        · rw [SortedMap.get?_set] at hGet
          split at hGet
          · rename_i hKey
            cases hGet
            obtain ⟨hSize, hCid⟩ := verifyContent_ok.mp (hInv.putting row content rest hPhase).1
            have hRow : row ∈ pass.rows :=
              hInv.todo row (by rw [MirrorPass.todo, hPhase]; exact List.mem_cons_self)
            obtain rfl := keyFor_inj.mp hKey
            exact ⟨hCid, hSize ▸ hRows row hRow⟩
          · exact hTraced.copies cid object hGet
        · exact hTraced.copies cid object hGet
      · rintro _ ⟨⟩
        dsimp only [putObject]
        split
        · exact hRows
        · exact hRows
    · exact ⟨hTraced.rows, hTraced.copies, by rintro _ ⟨⟩; exact hRows⟩
    · refine ⟨hTraced.rows, ?_, by rintro _ ⟨⟩; exact hRows⟩
      intro other object hGet
      dsimp only [deleteObject] at hGet
      split at hGet
      · rw [SortedMap.get?_set] at hGet
        split at hGet
        · cases hGet
        · exact hTraced.copies other object hGet
      · exact hTraced.copies other object hGet

theorem step_traced {label : Label} (hUploads : Uploads C label) (hKnown : Known config w)
    (hTraced : Traced config C w) (h : step config w label = some w') : Traced config C w' := by
  cases label with
  | outside a =>
    rw [step] at h
    split at h
    · cases h
      exact ⟨traced_rows hUploads hTraced.rows, hTraced.copies, hTraced.listed⟩
    · cases h
  | mirror a =>
    rw [step] at h
    split at h
    · obtain ⟨next, hNext, rfl⟩ := Option.map_eq_some_iff.mp h
      exact traced_mirror hKnown hTraced hNext
    · cases h
  | boot =>
    cases h
    exact ⟨hTraced.rows, hTraced.copies, by rintro _ ⟨⟩⟩
  | restore a =>
    obtain ⟨next, hNext, rfl⟩ := Option.map_eq_some_iff.mp h
    exact ⟨hTraced.rows, hTraced.copies, hTraced.listed⟩
  | scrub a =>
    rw [step] at h
    split at h
    · obtain ⟨next, hNext, rfl⟩ := Option.map_eq_some_iff.mp h
      exact ⟨hTraced.rows, hTraced.copies, hTraced.listed⟩
    · cases h

theorem run_traced {labels : List Label} (hUploads : ∀ label ∈ labels, Uploads C label)
    (hKnown : Known config w) (hTraced : Traced config C w)
    (hRun : run (step config) w labels = some w') : Known config w' ∧ Traced config C w' := by
  have hAlong : Along (step config) (fun _ label => Uploads C label) w labels :=
    along_of_forall hUploads
  exact run_invariant_along (I := fun w => Known config w ∧ Traced config C w)
    (fun _ _ _ hI hG hStep => ⟨step_known hI.1 hStep, step_traced hG hI.1 hI.2 hStep⟩)
    ⟨hKnown, hTraced⟩ hAlong hRun

/-- Every copy is of the content that its key names, however the volume changes the files. -/
theorem copies_verified {labels : List Label} (hUploads : ∀ label ∈ labels, Uploads C label)
    (hStart : w.mirror = none) (hTraced : Traced config C w)
    (hRun : run (step config) w labels = some w') (cid : String) {object : Object}
    (hCopy : w'.bucket.get? (keyFor config cid) = some object) :
    computeCid config object.bytes = cid ∧
      ∃ content ∈ C, computeCid config content = cid ∧ content.length = object.bytes.length := by
  obtain ⟨hCid, content, hMem, hContent, hSize⟩ :=
    (run_traced hUploads (known_start hStart) hTraced hRun).2.copies cid object hCopy
  exact ⟨hCid, content, hMem, hContent, Int.ofNat_inj.mp hSize⟩

theorem traced_empty : Traced config C .empty where
  rows := by
    rintro cid facts ⟨⟩
  copies := by
    rintro cid object ⟨⟩
  listed := by
    rintro pass ⟨⟩

theorem copies_verified_first : ∃ w, run (step sampleConfig) .empty firstPass = some w ∧
    w.bucket.get? (keyFor sampleConfig firstCid) = some firstCopy ∧
    computeCid sampleConfig firstCopy.bytes = firstCid := by
  have hSome : (run (step sampleConfig) .empty firstPass).any (fun w =>
      w.bucket.get? (keyFor sampleConfig firstCid) = some firstCopy) = true := by
    decide +kernel
  obtain ⟨w, hRun, hCopy⟩ := (Option.any_eq_true _ _).mp hSome
  have hUploads : ∀ label ∈ firstPass, Uploads {firstBlob} label := by
    rintro label hMem content mimeType rfl
    simp [firstPass, upload] at hMem
    exact hMem.1
  have hCopy := of_decide_eq_true hCopy
  exact ⟨w, hRun, hCopy, (copies_verified hUploads rfl traced_empty hRun firstCid hCopy).1⟩

/-! ## A copy that is kept -/

/-- A row and its copy, of which a pass that is under way knows. -/
structure Kept (config : Config) (cid : String) (object : Object) (w : World) : Prop where
  row : (w.rows.get? cid).isSome = true
  copy : w.bucket.get? (keyFor config cid) = some object
  listed : ∀ pass ∈ w.mirror, cid ∈ pass.rows.map PhysicalBlob.cid
  remote : ∀ pass ∈ w.mirror, pass.phase ≠ .listing → cid ∈ pass.remote

theorem kept_mirror {object : Object} {a : MirrorAction} {next : Bucket × Option MirrorPass}
    (hKnown : Known config w) (hKept : Kept config cid object w)
    (h : mirrorStep config w a = some next) :
    Kept config cid object { w with bucket := next.1, mirror := next.2 } := by
  rcases mirrorStep_cases h with ⟨-, rfl⟩ | rfl | ⟨pass, hMirror, hCases⟩
  · obtain ⟨facts, hFacts⟩ := Option.isSome_iff_exists.mp hKept.row
    refine ⟨hKept.row, hKept.copy, ?_, ?_⟩
    · rintro _ ⟨⟩
      exact List.mem_map.mpr ⟨⟨cid, facts⟩, mem_listAllBlobs.mpr hFacts, rfl⟩
    · rintro _ ⟨⟩ hPhase
      exact absurd rfl hPhase
  · exact ⟨hKept.row, hKept.copy, by rintro _ ⟨⟩, by rintro _ ⟨⟩⟩
  · have hInv := hKnown pass hMirror
    have hListed := hKept.listed pass hMirror
    have hRemote := hKept.remote pass hMirror
    rcases hCases with ⟨-, rfl⟩ | ⟨row, rest, ok, hPhase, rfl⟩ |
      ⟨row, content, rest, outcome, hPhase, rfl⟩ | ⟨hPhase, rfl⟩ |
      ⟨gone, outcome, rest, hPhase, hGone, rfl⟩
    · refine ⟨hKept.row, hKept.copy, by rintro _ ⟨⟩; exact hListed, ?_⟩
      rintro _ ⟨⟩ -
      exact mem_remoteCids.mpr ⟨object, hKept.copy⟩
    · have hIn : cid ∈ pass.remote := hRemote (by rw [hPhase]; rintro ⟨⟩)
      refine ⟨hKept.row, hKept.copy, ?_, ?_⟩
      all_goals
        rintro _ ⟨⟩
        rw [readLocal]
        repeat' split
      all_goals first | exact hListed | exact fun _ => hIn
    · have hIn : cid ∈ pass.remote := hRemote (by rw [hPhase]; rintro ⟨⟩)
      have hKey : keyFor config row.cid ≠ keyFor config cid := fun hEq =>
        (hInv.putting row content rest hPhase).2 (keyFor_inj.mp hEq ▸ hIn)
      refine ⟨hKept.row, ?_, ?_, ?_⟩
      · dsimp only [putObject]
        split
        · rw [SortedMap.get?_set, if_neg hKey]
          exact hKept.copy
        · exact hKept.copy
      all_goals
        rintro _ ⟨⟩
        dsimp only [putObject]
        split
      all_goals first | exact hListed | exact fun _ => hIn
    · have hIn : cid ∈ pass.remote := hRemote (by rw [hPhase]; rintro ⟨⟩)
      exact ⟨hKept.row, hKept.copy, by rintro _ ⟨⟩; exact hListed, by rintro _ ⟨⟩ -; exact hIn⟩
    · have hIn : cid ∈ pass.remote := hRemote (by rw [hPhase]; rintro ⟨⟩)
      have hNoRow := hInv.leftover gone (by rw [MirrorPass.leftover, hPhase]; exact hGone)
      have hKey : keyFor config gone ≠ keyFor config cid := fun hEq =>
        hNoRow (keyFor_inj.mp hEq ▸ hListed)
      refine ⟨hKept.row, ?_, by rintro _ ⟨⟩; exact hListed, by rintro _ ⟨⟩ -; exact hIn⟩
      dsimp only [deleteObject]
      split
      · rw [SortedMap.get?_set, if_neg hKey]
        exact hKept.copy
      · exact hKept.copy

theorem kept_outside {object : Object} {a : Outside} (hRow : a ≠ .deleteRow cid)
    (hKept : Kept config cid object w) :
    Kept config cid object { w with
      rows := (outsideStep config w.rows w.files a).1
      files := (outsideStep config w.rows w.files a).2 } := by
  refine ⟨?_, hKept.copy, hKept.listed, hKept.remote⟩
  cases a with
  | insertRow content mimeType =>
    change ((insertBlob config w.rows content mimeType).get? cid).isSome = true
    rw [insertBlob]
    split
    · exact hKept.row
    · rw [SortedMap.get?_set]
      split
      · rfl
      · exact hKept.row
  | deleteRow gone =>
    change ((w.rows.set gone none).get? cid).isSome = true
    rw [SortedMap.get?_set, if_neg (fun hEq : gone = cid => hRow (hEq ▸ rfl))]
    exact hKept.row
  | storeFile content => exact hKept.row
  | unlink path => exact hKept.row
  | rot path bytes => exact hKept.row

theorem step_kept {object : Object} {label : Label} (hRow : label ≠ .outside (.deleteRow cid))
    (hKnown : Known config w) (hKept : Kept config cid object w)
    (h : step config w label = some w') : Kept config cid object w' := by
  cases label with
  | outside a =>
    rw [step] at h
    split at h
    · cases h
      exact kept_outside (fun hEq => hRow (hEq ▸ rfl)) hKept
    · cases h
  | mirror a =>
    rw [step] at h
    split at h
    · obtain ⟨next, hNext, rfl⟩ := Option.map_eq_some_iff.mp h
      exact kept_mirror hKnown hKept hNext
    · cases h
  | boot =>
    cases h
    exact ⟨hKept.row, hKept.copy, by rintro _ ⟨⟩, by rintro _ ⟨⟩⟩
  | restore a =>
    obtain ⟨next, hNext, rfl⟩ := Option.map_eq_some_iff.mp h
    exact ⟨hKept.row, hKept.copy, hKept.listed, hKept.remote⟩
  | scrub a =>
    rw [step] at h
    split at h
    · obtain ⟨next, hNext, rfl⟩ := Option.map_eq_some_iff.mp h
      exact ⟨hKept.row, hKept.copy, hKept.listed, hKept.remote⟩
    · cases h

/-- The copy outlives the file, a boot and another pass. -/
def longRun : List Label :=
  [.outside (.rot (storagePath firstCid) (some [0])), .boot, .restore (.statFile true),
    .restore .serve] ++ upload secondBlob ++ [.mirror .listRows, .outside (.deleteRow secondCid),
      .mirror (.listKeys true), .mirror (.readLocal true), .mirror (.readLocal false),
      .mirror .diffKeys, .mirror .finish]

end Ezpds.Blobs.Mirror
