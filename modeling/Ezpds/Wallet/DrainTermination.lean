import Ezpds.Wallet.DrainEnds

/-!
# How long a drain takes

A blob that has been tried is owned or given up, and is not tried again. The pages without
anything to try only move the cursor on. So a drain is over after a number of steps that depends
on the number of blobs alone, as long as what the source serves under an identifier is the
content of that identifier. The wallet does not look: a source that serves something else keeps
the drain on the same blob.

* `drain_ends`: the number of steps.
* `drain_goes_round`: with a source that serves other bytes there is no end.
-/

namespace Ezpds.Wallet.BlobDrain

open Library
open Blobs.Mirror (Bytes Outcome sampleConfig firstBlob secondBlob firstCid)

variable {config : Config} {d d' : Destination} {drain drain' : Drain} {blob : MissingBlob}
  {cursor : Option String} {rest : List MissingBlob} {cid : String}

/-! ## A measure -/

instance (cursor : Option String) (cid : String) : Decidable (Beyond cursor cid) :=
  inferInstanceAs (Decidable (∀ c ∈ cursor, c < cid))

/-- What is missing beyond the cursor. -/
def ahead (d : Destination) (cursor : Option String) : Finset String :=
  (d.refCids \ d.owned).filter (Beyond cursor)

/-- What is still to be tried and not on the page. -/
def others (d : Destination) (drain : Drain) : Finset String :=
  ((d.refCids \ d.owned) \ drain.givenUp) \ (drain.phase.onPage.map MissingBlob.cid).toFinset

/-- A bound for the steps of a page. -/
def Phase.cost : Phase → Nat
  | .listing => 0
  | .page pending => 10 * pending.length + 1
  | .fetching _ attempt rest => 10 * rest.length + 6 + (3 - attempt)
  | .mirroring _ _ rest => 10 * rest.length + 5
  | .uploading _ _ _ attempt rest => 10 * rest.length + 2 + (3 - attempt)

/-- The pages that may follow without anything to try. -/
def room (d : Destination) (drain : Drain) : Nat :=
  if drain.phase = .listing then (ahead d drain.cursor).card + 1 else d.refCids.card + 2

def measure (d : Destination) (drain : Drain) : Nat :=
  12 * ((others d drain).card * (d.refCids.card + 2) + room d drain) + drain.phase.cost

theorem ahead_le (d : Destination) (cursor : Option String) :
    (ahead d cursor).card ≤ d.refCids.card :=
  (Finset.card_filter_le _ _).trans (Finset.card_le_card Finset.sdiff_subset)

theorem others_le (hRefs : d'.refCids = d.refCids) (hOwned : d.owned ⊆ d'.owned)
    (hGivenUp : drain.givenUp ⊆ drain'.givenUp)
    (hPage : ∀ b ∈ drain.phase.onPage, b ∈ drain'.phase.onPage ∨ b.cid ∈ d'.owned ∨
      b.cid ∈ drain'.givenUp) : (others d' drain').card ≤ (others d drain).card := by
  refine Finset.card_le_card fun cid hMem => ?_
  simp only [others, Finset.mem_sdiff, List.mem_toFinset, List.mem_map, not_exists, not_and]
    at hMem ⊢
  obtain ⟨⟨⟨hRef, hMissing⟩, hTried⟩, hOff⟩ := hMem
  refine ⟨⟨⟨hRefs ▸ hRef, fun h => hMissing (hOwned h)⟩, fun h => hTried (hGivenUp h)⟩, ?_⟩
  rintro b hB rfl
  rcases hPage b hB with hStill | hHas | hGone
  · exact hOff b hStill rfl
  · exact hMissing hHas
  · exact hTried hGone

/-- A step of a page that stays on the page. -/
theorem measure_page (hRefs : d'.refCids = d.refCids) (hOwned : d.owned ⊆ d'.owned)
    (hGivenUp : drain.givenUp ⊆ drain'.givenUp)
    (hPage : ∀ b ∈ drain.phase.onPage, b ∈ drain'.phase.onPage ∨ b.cid ∈ d'.owned ∨
      b.cid ∈ drain'.givenUp)
    (hPhase : drain.phase ≠ .listing) (hPhase' : drain'.phase ≠ .listing)
    (hCost : drain'.phase.cost < drain.phase.cost) : measure d' drain' < measure d drain := by
  have hOthers := Nat.mul_le_mul_right (d.refCids.card + 2) (others_le hRefs hOwned hGivenUp hPage)
  rw [measure, measure, room, room, if_neg hPhase, if_neg hPhase', hRefs]
  omega

theorem measure_lose (hRefs : d'.refCids = d.refCids) (hOwned : d.owned ⊆ d'.owned)
    (hPage : drain.phase.onPage = blob :: rest) (direction : Direction) (reason : String)
    (hPhase : drain.phase ≠ .listing) (hCost : 10 * rest.length + 1 < drain.phase.cost) :
    measure d' (drain.lose blob direction reason rest) < measure d drain := by
  refine measure_page hRefs hOwned (Finset.subset_insert _ _) ?_ hPhase (by rintro ⟨⟩) hCost
  rw [hPage, List.forall_mem_cons]
  exact ⟨Or.inr (Or.inr (Finset.mem_insert_self _ _)), fun b hB => Or.inl hB⟩

theorem measure_samePage (hRefs : d'.refCids = d.refCids) (hOwned : d.owned ⊆ d'.owned)
    {phase : Phase} (hPage : phase.onPage = drain.phase.onPage) (hPhase : drain.phase ≠ .listing)
    (hPhase' : phase ≠ .listing) (hCost : phase.cost < drain.phase.cost) :
    measure d' { drain with phase := phase } < measure d drain :=
  measure_page hRefs hOwned (Finset.Subset.refl _) (fun _ hB => Or.inl (hPage.symm ▸ hB)) hPhase
    hPhase' hCost

/-- A page with something to try is worth more than the steps that it takes. -/
theorem measure_turn (hPhase : drain.phase = .listing)
    (hPending : pending config d drain ≠ []) :
    measure d { drain with cursor := cursor, phase := .page (pending config d drain) } <
      measure d drain := by
  let page := ((pending config d drain).map MissingBlob.cid).toFinset
  let untried := (d.refCids \ d.owned) \ drain.givenUp
  have hCard : page.card = (pending config d drain).length :=
    (List.toFinset_card_of_nodup pending_nodup).trans (List.length_map _)
  have hSub : page ⊆ untried := by
    intro cid hMem
    obtain ⟨blob, hBlob, rfl⟩ := List.mem_map.mp (List.mem_toFinset.mp hMem)
    obtain ⟨hListed, hFresh⟩ := List.mem_filter.mp hBlob
    have hMissing := (listMissingBlobs_listed hListed).1
    simp only [untried, Finset.mem_sdiff]
    exact ⟨⟨Destination.mem_refCids_of_missing hMissing, (Destination.mem_missing.mp hMissing).2⟩,
      of_decide_eq_true hFresh⟩
  have hSplit : (untried \ page).card + page.card = untried.card :=
    Finset.card_sdiff_add_card_eq_card hSub
  have hAll : others d drain = untried := by
    rw [others, hPhase, Phase.onPage, List.map_nil, List.toFinset_nil, Finset.sdiff_empty]
  have hLength := List.length_pos_iff.mpr hPending
  obtain ⟨j, hj⟩ := Nat.exists_eq_add_of_lt hLength
  have hProduct : j * 2 ≤ j * (d.refCids.card + 2) := Nat.mul_le_mul_left j (Nat.le_add_left _ _)
  have hUntried : untried.card * (d.refCids.card + 2) =
      (untried \ page).card * (d.refCids.card + 2) + j * (d.refCids.card + 2) +
        (d.refCids.card + 2) := by
    rw [← hSplit, hCard, hj, Nat.add_mul, Nat.zero_add, Nat.succ_mul, Nat.add_assoc]
  change 12 * ((untried \ page).card * (d.refCids.card + 2) + (d.refCids.card + 2)) +
    (10 * (pending config d drain).length + 1) < measure d drain
  rw [measure, hAll, room, if_pos hPhase, hPhase, Phase.cost, hUntried]
  omega

/-- A page without anything to try moves the cursor on. -/
theorem measure_move {c : String} (hPhase : drain.phase = .listing)
    (hNext : (listMissingBlobs config d drain.cursor).2 = some c) :
    measure d { drain with cursor := some c } < measure d drain := by
  obtain ⟨blob, hListed, rfl⟩ := listMissingBlobs_next hNext
  obtain ⟨hMissing, hBeyond⟩ := listMissingBlobs_listed hListed
  have hLess : (ahead d (some blob.cid)).card < (ahead d drain.cursor).card := by
    refine Finset.card_lt_card (Finset.ssubset_iff_of_subset ?_ |>.mpr ⟨blob.cid, ?_, ?_⟩)
    · intro cid hMem
      obtain ⟨hIn, hAfter⟩ := Finset.mem_filter.mp hMem
      exact Finset.mem_filter.mpr ⟨hIn, fun c hC => (hBeyond c hC).trans (hAfter _ rfl)⟩
    · exact Finset.mem_filter.mpr ⟨Finset.mem_sdiff.mpr
        ⟨Destination.mem_refCids_of_missing hMissing, (Destination.mem_missing.mp hMissing).2⟩,
        hBeyond⟩
    · exact fun hMem => lt_irrefl _ ((Finset.mem_filter.mp hMem).2 _ rfl)
  change 12 * ((others d drain).card * (d.refCids.card + 2) +
    (if drain.phase = .listing then (ahead d (some blob.cid)).card + 1 else _)) +
      drain.phase.cost < measure d drain
  rw [measure, room, if_pos hPhase, if_pos hPhase]
  omega

theorem drainStep_measure {label : Label} (hInv : Drain.Inv config d drain)
    (h : drainStep config d drain label = some (d', .goesOn drain')) :
    measure d' drain' < measure d drain := by
  rw [drainStep.eq_def] at h
  split at h
  · rename_i ok hPhase
    cases ok with
    | false => cases h
    | true =>
      rcases listPage_cases config d drain with
        ⟨hMove, -, -⟩ | ⟨c, hMove, -, hCursor⟩ | ⟨hPending, hMove⟩
      · rw [hMove] at h
        cases h
      · rw [hMove] at h
        cases h
        exact measure_move hPhase hCursor
      · rw [hMove] at h
        cases h
        exact measure_turn hPhase hPending
  · rename_i pending hPhase
    have hPage : drain.phase.onPage = pending := by rw [hPhase, Phase.onPage]
    have hNot : drain.phase ≠ .listing := by
      rw [hPhase]
      rintro ⟨⟩
    cases h
    rw [nextBlob.eq_def]
    split
    · have hAhead := ahead_le d drain.cursor
      change 12 * (((((d.refCids \ d.owned) \ drain.givenUp) \ _).card) *
        (d.refCids.card + 2) + ((ahead d drain.cursor).card + 1)) + 0 < _
      rw [measure, room, if_neg hNot, others, hPhase]
      change _ < 12 * (_ + (d.refCids.card + 2)) + 1
      rw [Phase.onPage, Phase.onPage]
      omega
    · rename_i blob rest
      split
      · exact measure_samePage rfl (Finset.Subset.refl _) hPage.symm hNot (by rintro ⟨⟩) (by
          rw [hPhase, Phase.cost, Phase.cost, List.length_cons]
          omega)
      · split
        · exact measure_samePage rfl (Finset.Subset.refl _) hPage.symm hNot (by rintro ⟨⟩) (by
            rw [hPhase, Phase.cost, Phase.cost, List.length_cons]
            omega)
        · exact measure_lose rfl (Finset.Subset.refl _) hPage _ _ hNot (by
            rw [hPhase, Phase.cost, List.length_cons]
            omega)
  · rename_i answer blob attempt rest hPhase
    have hPage : drain.phase.onPage = blob :: rest := by rw [hPhase, Phase.onPage]
    have hNot : drain.phase ≠ .listing := by
      rw [hPhase]
      rintro ⟨⟩
    cases h
    rw [fetchBlob.eq_def]
    split
    · exact measure_samePage rfl (Finset.Subset.refl _) hPage.symm hNot (by rintro ⟨⟩) (by
        rw [hPhase, Phase.cost, Phase.cost]
        omega)
    · split
      · split
        · exact measure_samePage rfl (Finset.Subset.refl _) hPage.symm hNot (by rintro ⟨⟩) (by
            rw [hPhase, Phase.cost, Phase.cost]
            omega)
        · exact measure_lose rfl (Finset.Subset.refl _) hPage _ _ hNot (by
            rw [hPhase, Phase.cost]
            omega)
      · rename_i hAttempt
        rw [BLOB_TRANSFER_ATTEMPTS] at hAttempt
        exact measure_samePage rfl (Finset.Subset.refl _) hPage.symm hNot (by rintro ⟨⟩) (by
          rw [hPhase, Phase.cost, Phase.cost]
          omega)
  · rename_i file blob reason rest hPhase
    have hPage : drain.phase.onPage = blob :: rest := by rw [hPhase, Phase.onPage]
    have hNot : drain.phase ≠ .listing := by
      rw [hPhase]
      rintro ⟨⟩
    cases h
    rw [readMirror]
    split
    · exact measure_samePage rfl (Finset.Subset.refl _) hPage.symm hNot (by rintro ⟨⟩) (by
        rw [hPhase, Phase.cost, Phase.cost]
        omega)
    · exact measure_lose rfl (Finset.Subset.refl _) hPage _ _ hNot (by
        rw [hPhase, Phase.cost]
        omega)
  · rename_i outcome error blob bytes origin attempt rest hPhase
    have hPage : drain.phase.onPage = blob :: rest := by rw [hPhase, Phase.onPage]
    have hNot : drain.phase ≠ .listing := by
      rw [hPhase]
      rintro ⟨⟩
    have hCid := hInv.uploading _ _ _ _ _ hPhase
    cases h
    have hRefs : (storeUpload config d bytes outcome).refCids = d.refCids := by
      rw [Destination.refCids, storeUpload_refs, Destination.refCids]
    rw [uploadBlob]
    split
    · rename_i hDone
      refine measure_page hRefs owned_storeUpload (Finset.Subset.refl _) ?_ hNot (by rintro ⟨⟩) (by
        rw [hPhase]
        dsimp only [Phase.cost]
        omega)
      rw [hPage, List.forall_mem_cons, ← hCid, hDone]
      exact ⟨Or.inr (Or.inl (Finset.mem_insert_self _ _)), fun b hB => Or.inl hB⟩
    · split
      · exact measure_lose hRefs owned_storeUpload hPage _ _ hNot (by
          rw [hPhase, Phase.cost]
          omega)
      · rename_i hAttempt
        rw [BLOB_TRANSFER_ATTEMPTS] at hAttempt
        exact measure_samePage hRefs owned_storeUpload hPage.symm hNot (by rintro ⟨⟩) (by
          rw [hPhase, Phase.cost, Phase.cost]
          omega)
  · cases h

/-! ## Runs of a drain -/

/-- A step of the drain that is under way. -/
def Label.ofDrain : Label → Bool
  | .transferBlobs _ | .restart => false
  | _ => true

theorem step_ofDrain {w w' : World} {label : Label} (hLabel : label.ofDrain = true)
    (h : step config w label = some w') : ∃ drain next, w.drain = some drain ∧
      drainStep config w.dest drain label = some next ∧ w' = finish w drain next.1 next.2 := by
  rcases step_cases h with ⟨acceptLoss, rfl, -⟩ | ⟨rfl, -⟩ | hDrain
  · cases hLabel
  · cases hLabel
  · exact hDrain

theorem step_eq {w : World} {label : Label} (hLabel : label.ofDrain = true)
    (hDrain : w.drain = some drain) : step config w label =
      (drainStep config w.dest drain label).map fun next => finish w drain next.1 next.2 := by
  rw [step.eq_def, hDrain]
  cases label with
  | transferBlobs acceptLoss => cases hLabel
  | restart => cases hLabel
  | _ => rfl

/-- An answer to what the wallet waits for. -/
def Phase.answer : Phase → Label
  | .listing => .listMissing true
  | .page _ => .nextBlob
  | .fetching _ _ _ => .fetchBlob (.error "")
  | .mirroring _ _ _ => .readMirror none
  | .uploading _ _ _ _ _ => .uploadBlob .done ""

theorem Phase.answer_spec (phase : Phase) : phase.answer.ofDrain = true ∧
    (∀ w, Honest config w phase.answer) ∧
    ∀ (config : Config) (d : Destination) (drain : Drain), drain.phase = phase →
      (drainStep config d drain phase.answer).isSome = true := by
  cases phase
  all_goals
    refine ⟨rfl, fun _ => rfl, ?_⟩
    intro config d drain hPhase
    rw [drainStep.eq_def, hPhase]
    rfl

theorem run_ended (config : Config) {w w' : World} {labels : List Label}
    (hNone : w.drain = none)
    (hLabels : ∀ label ∈ labels, label.ofDrain = true)
    (hRun : run (step config) w labels = some w') : labels = [] := by
  cases labels with
  | nil => rfl
  | cons label labels =>
    obtain ⟨u, hStep, -⟩ := run_cons_some.mp hRun
    obtain ⟨drain, -, hDrain, -⟩ := step_ofDrain (hLabels label List.mem_cons_self) hStep
    rw [hNone] at hDrain
    cases hDrain

theorem run_measure {w w' : World} {labels : List Label} (hDrain : w.drain = some drain)
    (hInv : Drain.Inv config w.dest drain) (hLabels : ∀ label ∈ labels, label.ofDrain = true)
    (hHonest : Along (step config) (Honest config) w labels)
    (hRun : run (step config) w labels = some w') :
    labels.length ≤ measure w.dest drain + 1 := by
  induction labels generalizing w drain with
  | nil => exact Nat.zero_le _
  | cons label labels ih =>
    obtain ⟨u, hStep, hRest⟩ := run_cons_some.mp hRun
    obtain ⟨hLabel, hLabels⟩ := List.forall_mem_cons.mp hLabels
    obtain ⟨hFirst, hHonest⟩ := (along_cons_of_step hStep).mp hHonest
    obtain ⟨drain₀, ⟨d', move⟩, hDrain₀, hNext, rfl⟩ := step_ofDrain hLabel hStep
    rw [hDrain] at hDrain₀
    cases hDrain₀
    cases move with
    | goesOn drain' =>
      have hLess := drainStep_measure hInv hNext
      have hInv' := (drainStep_inv hFirst hDrain hInv hNext).2.2.2.1 drain' rfl
      have hLength := ih (w := finish w drain d' (.goesOn drain')) rfl hInv' hLabels hHonest hRest
      rw [List.length_cons]
      exact Nat.succ_le_succ (hLength.trans hLess)
    | returns losses =>
      rw [run_ended config rfl hLabels hRest]
      exact Nat.succ_le_succ (Nat.zero_le _)
    | fails =>
      rw [run_ended config rfl hLabels hRest]
      exact Nat.succ_le_succ (Nat.zero_le _)

/-- A drain is never stuck, and with a source that answers with what it is asked for it is over
after a number of steps that depends on the number of blobs. -/
theorem drain_ends (config : Config) {w w' : World} {acceptLoss : Bool} {labels : List Label}
    (hStart : w.drain = some (.start acceptLoss))
    (hLabels : ∀ label ∈ labels, label.ofDrain = true)
    (hHonest : Along (step config) (Honest config) w labels)
    (hRun : run (step config) w labels = some w') :
    labels.length ≤ 12 * ((w.dest.refCids.card + 1) * (w.dest.refCids.card + 2)) ∧
      (w'.drain.isSome = true → ∃ label, label.ofDrain = true ∧ Honest config w' label ∧
        (step config w' label).isSome = true) := by
  constructor
  · have hLength := run_measure hStart (.start acceptLoss) hLabels hHonest hRun
    have hAhead := ahead_le w.dest none
    have hOthers : (others w.dest (.start acceptLoss)).card ≤ w.dest.refCids.card :=
      Finset.card_le_card (Finset.sdiff_subset.trans (Finset.sdiff_subset.trans
        Finset.sdiff_subset))
    have hProduct := Nat.mul_le_mul_right (w.dest.refCids.card + 2) hOthers
    change _ ≤ 12 * (_ * (w.dest.refCids.card + 2) + ((ahead w.dest none).card + 1)) + 0 + 1
      at hLength
    rw [Nat.add_mul, Nat.one_mul]
    omega
  · intro hSome
    obtain ⟨drain, hDrain⟩ := Option.isSome_iff_exists.mp hSome
    obtain ⟨hLabel, hAnswers, hEnabled⟩ := drain.phase.answer_spec
    refine ⟨drain.phase.answer, hLabel, hAnswers w', ?_⟩
    rw [step_eq hLabel hDrain, Option.isSome_map]
    exact hEnabled config w'.dest drain rfl

def sampleStart : World := ⟨sampleAccount, some (.start true), none⟩

theorem drain_ends_sample : ∃ w, run (step sampleDrain) sampleStart (sampleDraining.drop 3) =
      some w ∧ (sampleDraining.drop 3).length ≤
    12 * ((sampleStart.dest.refCids.card + 1) * (sampleStart.dest.refCids.card + 2)) := by
  have hSome : (run (step sampleDrain) sampleStart (sampleDraining.drop 3)).isSome = true := by
    decide +kernel
  obtain ⟨w, hRun⟩ := Option.isSome_iff_exists.mp hSome
  have hStart : sampleStart.drain = some (.start true) := rfl
  exact ⟨w, hRun, (drain_ends sampleDrain hStart (by decide +kernel) (by decide +kernel) hRun).1⟩

/-! ## A source that serves something else -/

/-- Every request for the blob succeeds, and none brings its content. -/
def misserved (config : Config) (cid : String) (w : World) (label : Label) : Bool :=
  match label, w.drain.map Drain.phase with
  | .fetchBlob (.ok bytes), _ => blobCid config bytes ≠ cid
  | .fetchBlob (.error _), some (.fetching blob _ _) => blob.cid ≠ cid
  | .uploadBlob outcome _, some (.uploading blob _ _ _ _) => blob.cid ≠ cid ∨ outcome = .done
  | _, _ => true

/-- A drain that has not given up the blob, nor read the mirror for it. -/
structure Drain.Round (config : Config) (cid : String) (drain : Drain) : Prop where
  cursor : drain.cursor = none
  untried : cid ∉ drain.givenUp
  mirroring : ∀ blob reason rest, drain.phase = .mirroring blob reason rest → blob.cid ≠ cid
  uploading : ∀ blob bytes origin attempt rest,
    drain.phase = .uploading blob bytes origin attempt rest → blobCid config bytes ≠ cid

structure Round (config : Config) (cid : String) (w : World) : Prop where
  referred : cid ∈ w.dest.refCids
  missing : cid ∉ w.dest.owned
  short : w.dest.missing.length ≤ config.limit
  accepted : w.accepted = none
  drain : ∀ drain ∈ w.drain, drain.Round config cid

theorem missing_length_le (hRefs : d'.refs = d.refs) (hOwned : d.owned ⊆ d'.owned) :
    d'.missing.length ≤ d.missing.length := by
  simp only [Destination.missing, List.length_insertionSort, List.length_map, hRefs]
  refine (List.monotone_filter_right _ fun ref hRef => ?_).length_le
  exact decide_eq_true fun hMem => of_decide_eq_true hRef (hOwned hMem)

/-- One page has everything, and so the blob. -/
theorem listPage_round (hRef : cid ∈ d.refCids) (hMissing : cid ∉ d.owned)
    (hShort : d.missing.length ≤ config.limit) (hRound : drain.Round config cid) :
    listPage config d drain =
      .goesOn { drain with cursor := none, phase := .page (pending config d drain) } := by
  have hNext : (listMissingBlobs config d drain.cursor).2 = none := by
    rw [hRound.cursor, listMissingBlobs_eq]
    exact if_neg (not_lt.mpr hShort)
  have hPending : pending config d drain ≠ [] := by
    obtain ⟨blob, hBlob, rfl⟩ := Destination.exists_missing hRef hMissing
    have hBeyond : Beyond drain.cursor blob.cid := by
      rw [hRound.cursor]
      rintro _ ⟨⟩
    rcases listMissingBlobs_rest config hBlob hBeyond with hListed | ⟨c, hSome, -⟩
    · exact List.ne_nil_of_mem (List.mem_filter.mpr ⟨hListed, decide_eq_true hRound.untried⟩)
    · rw [hNext] at hSome
      cases hSome
  rcases listPage_cases config d drain with
    ⟨-, hNone, -⟩ | ⟨c, -, hNone, -⟩ | ⟨-, hMove⟩
  · exact absurd hNone hPending
  · exact absurd hNone hPending
  · rw [hMove, hNext]

theorem Drain.Round.lose (h : drain.Round config cid) (hOther : blob.cid ≠ cid)
    (direction : Direction) (reason : String) :
    (drain.lose blob direction reason rest).Round config cid where
  cursor := h.cursor
  untried := by
    rw [Drain.lose, Finset.mem_insert, not_or]
    exact ⟨hOther.symm, h.untried⟩
  mirroring := by
    rintro _ _ _ ⟨⟩
  uploading := by
    rintro _ _ _ _ _ ⟨⟩

/-- A phase in which nothing is mirrored or uploaded for the blob. -/
theorem Drain.Round.toPhase (h : drain.Round config cid) (phase : Phase) (recovered : Nat)
    (hMirroring : ∀ blob reason rest, phase = .mirroring blob reason rest → blob.cid ≠ cid)
    (hUploading : ∀ blob bytes origin attempt rest,
      phase = .uploading blob bytes origin attempt rest → blobCid config bytes ≠ cid) :
    Drain.Round config cid
      { drain with recoveredFromMirror := recovered, phase := phase } where
  cursor := h.cursor
  untried := h.untried
  mirroring := hMirroring
  uploading := hUploading

theorem drainStep_round (hSource : config.hasSource = true) {w : World} {label : Label}
    {next : Destination × Move} (hServed : misserved config cid w label = true)
    (hRound : Round config cid w) (hDrain : w.drain = some drain)
    (h : drainStep config w.dest drain label = some next) :
    next.1.refs = w.dest.refs ∧ w.dest.owned ⊆ next.1.owned ∧ cid ∉ next.1.owned ∧
      (∀ losses, next.2 ≠ .returns losses) ∧
      ∀ drain', next.2 = .goesOn drain' → drain'.Round config cid := by
  have hDrainRound := hRound.drain drain hDrain
  have hSame := fun phase => hDrainRound.toPhase phase drain.recoveredFromMirror
  rw [drainStep.eq_def] at h
  split at h
  · rename_i ok hPhase
    cases h
    refine ⟨rfl, Finset.Subset.refl _, hRound.missing, ?_⟩
    dsimp only
    rw [listPage_round hRound.referred hRound.missing hRound.short hDrainRound]
    cases ok with
    | false => exact ⟨by rintro _ ⟨⟩, by rintro _ ⟨⟩⟩
    | true =>
      refine ⟨by rintro _ ⟨⟩, ?_⟩
      rintro _ ⟨⟩
      exact ⟨rfl, hDrainRound.untried, by rintro _ _ _ ⟨⟩, by rintro _ _ _ _ _ ⟨⟩⟩
  · rename_i pending hPhase
    cases h
    refine ⟨rfl, Finset.Subset.refl _, hRound.missing, by rintro _ ⟨⟩, ?_⟩
    rintro _ ⟨⟩
    rw [nextBlob.eq_def]
    split
    · exact hSame _ (by rintro _ _ _ ⟨⟩) (by rintro _ _ _ _ _ ⟨⟩)
    · rw [if_pos hSource]
      exact hSame _ (by rintro _ _ _ ⟨⟩) (by rintro _ _ _ _ _ ⟨⟩)
  · rename_i answer blob attempt rest hPhase
    cases h
    refine ⟨rfl, Finset.Subset.refl _, hRound.missing, by rintro _ ⟨⟩, ?_⟩
    rintro _ ⟨⟩
    rw [misserved.eq_def, hDrain, Option.map_some, hPhase] at hServed
    rw [fetchBlob.eq_def]
    split
    · refine hSame _ (by rintro _ _ _ ⟨⟩) ?_
      rintro _ _ _ _ _ ⟨⟩
      exact of_decide_eq_true hServed
    · have hOther : blob.cid ≠ cid := of_decide_eq_true hServed
      split
      · split
        · refine hSame _ ?_ (by rintro _ _ _ _ _ ⟨⟩)
          rintro _ _ _ ⟨⟩
          exact hOther
        · exact hDrainRound.lose hOther _ _
      · exact hSame _ (by rintro _ _ _ ⟨⟩) (by rintro _ _ _ _ _ ⟨⟩)
  · rename_i file blob reason rest hPhase
    cases h
    refine ⟨rfl, Finset.Subset.refl _, hRound.missing, by rintro _ ⟨⟩, ?_⟩
    rintro _ ⟨⟩
    have hOther := hDrainRound.mirroring _ _ _ hPhase
    rw [readMirror]
    split
    · rename_i bytes hFile
      refine hSame _ (by rintro _ _ _ ⟨⟩) ?_
      rintro _ _ _ _ _ ⟨⟩
      rw [of_decide_eq_true (Option.filter_eq_some_iff.mp hFile).2]
      exact hOther
    · exact hDrainRound.lose hOther _ _
  · rename_i outcome error blob bytes origin attempt rest hPhase
    cases h
    have hBytes := hDrainRound.uploading _ _ _ _ _ hPhase
    rw [misserved.eq_def, hDrain, Option.map_some, hPhase] at hServed
    refine ⟨storeUpload_refs, owned_storeUpload, ?_, by rintro _ ⟨⟩, ?_⟩
    · dsimp only
      rw [storeUpload]
      split
      · rw [Finset.mem_insert, not_or]
        exact ⟨hBytes.symm, hRound.missing⟩
      · exact hRound.missing
    · rintro _ ⟨⟩
      rw [uploadBlob]
      split
      · exact hDrainRound.toPhase _ _ (by rintro _ _ _ ⟨⟩) (by rintro _ _ _ _ _ ⟨⟩)
      · rename_i hFailed
        have hOther := (of_decide_eq_true hServed).resolve_right hFailed
        split
        · exact hDrainRound.lose hOther _ _
        · refine hSame _ (by rintro _ _ _ ⟨⟩) ?_
          rintro _ _ _ _ _ ⟨⟩
          exact hBytes
  · cases h

theorem step_round (hSource : config.hasSource = true) {w w' : World} {label : Label}
    (hServed : misserved config cid w label = true) (hRound : Round config cid w)
    (h : step config w label = some w') : Round config cid w' := by
  rcases step_cases h with ⟨acceptLoss, -, rfl⟩ | ⟨-, rfl⟩ | ⟨drain, ⟨d', move⟩, hDrain, hNext, rfl⟩
  · refine { hRound with drain := ?_ }
    rintro _ ⟨⟩
    exact ⟨rfl, Finset.notMem_empty _, by rintro _ _ _ ⟨⟩, by rintro _ _ _ _ _ ⟨⟩⟩
  · exact { hRound with accepted := rfl, drain := by rintro _ ⟨⟩ }
  · obtain ⟨hRefs, hGrown, hMissing, hReturns, hGoesOn⟩ :=
      drainStep_round hSource hServed hRound hDrain hNext
    have hReferred : cid ∈ d'.refCids := by
      rw [Destination.refCids, hRefs]
      exact hRound.referred
    have hShort := (missing_length_le hRefs hGrown).trans hRound.short
    cases move with
    | goesOn drain' =>
      refine ⟨hReferred, hMissing, hShort, hRound.accepted, ?_⟩
      rintro _ ⟨⟩
      exact hGoesOn drain' rfl
    | returns losses => exact absurd rfl (hReturns losses)
    | fails => exact ⟨hReferred, hMissing, hShort, hRound.accepted, by rintro _ ⟨⟩⟩

/-- Where one page has all that is missing, a blob for which every request succeeds and none
brings its content keeps every drain going: none returns, and the import is never verified. -/
theorem drain_goes_round (config : Config) (d : Destination) (cid : String)
    (hSource : config.hasSource = true) (hRef : cid ∈ d.refCids) (hMissing : cid ∉ d.owned)
    (hShort : d.missing.length ≤ config.limit) {labels : List Label} {w : World}
    (hServed : Along (step config) (fun w label => misserved config cid w label = true)
      ⟨d, none, none⟩ labels)
    (hRun : run (step config) ⟨d, none, none⟩ labels = some w) :
    w.accepted = none ∧ cid ∉ w.dest.owned ∧ ∀ drain ∈ w.drain, ∀ next losses,
      drainStep config w.dest drain (.listMissing true) = some next → next.2 ≠ .returns losses := by
  have hFirst : Round config cid ⟨d, none, none⟩ :=
    ⟨hRef, hMissing, hShort, rfl, by rintro _ ⟨⟩⟩
  have hRound : Round config cid w := run_invariant_along
    (fun _ _ _ hI hG hStep => step_round hSource hG hI hStep) hFirst hServed hRun
  refine ⟨hRound.accepted, hRound.missing, fun drain hDrain next losses hNext => ?_⟩
  exact (drainStep_round hSource (by rfl) hRound hDrain hNext).2.2.2.1 losses

/-- The source has the second blob under the identifier of the first. -/
def confusedDraining : List Label :=
  [.transferBlobs true, .listMissing true, .nextBlob, .fetchBlob (.ok secondBlob),
    .uploadBlob .done "", .nextBlob, .listMissing true, .nextBlob, .fetchBlob (.ok secondBlob),
    .uploadBlob .done "", .nextBlob]

def wideDrain : Config := { sampleDrain with limit := 500, limit_pos := by decide }

def smallAccount : Destination where
  root := some "head"
  records := [("at://did:plc:a/app.bsky.feed.post/1", [firstCid])]
  owned := ∅

theorem drain_goes_round_sample : ∃ w,
    run (step wideDrain) ⟨smallAccount, none, none⟩ confusedDraining = some w ∧
    w.accepted = none ∧ firstCid ∉ w.dest.owned := by
  have hSome : (run (step wideDrain) ⟨smallAccount, none, none⟩
      confusedDraining).isSome = true := by
    decide +kernel
  obtain ⟨w, hRun⟩ := Option.isSome_iff_exists.mp hSome
  have hRound := drain_goes_round wideDrain smallAccount firstCid rfl (by decide +kernel)
    (by decide +kernel) (by decide +kernel) (by decide +kernel) hRun
  exact ⟨w, hRun, hRound.1, hRound.2.1⟩

end Ezpds.Wallet.BlobDrain
