import Ezpds.Blobs.MirrorSync
import Ezpds.Wallet.BlobDrain

/-!
# The end of a drain

Every blob that a drain has not given up is owned, still to be tried on the page, or beyond the
cursor. A page with nothing to try and none after it is therefore the end, and what the
destination still misses is then on the list of losses.

* `drain_accounts`: what a drain returns.
* `verify_reconciles`: when an import verifies, over all attempts and restarts.
-/

namespace Ezpds.Wallet.BlobDrain

open Library
open Blobs.Mirror (Bytes Outcome sampleConfig firstBlob firstCid secondCid)

variable {config : Config} {d d' : Destination} {drain : Drain} {blob : MissingBlob}
  {cursor : Option String} {rest : List MissingBlob} {cid : String}

/-! ## Pages of what is missing -/

instance : Std.Total ByCid := ⟨fun a b => le_total a.cid b.cid⟩

instance : IsTrans MissingBlob ByCid := ⟨fun _ _ _ => le_trans⟩

namespace Destination

def refCids (d : Destination) : Finset String := (d.refs.map Prod.fst).toFinset

theorem keyed_refs (d : Destination) : Keyed Prod.fst d.refs := by
  rw [refs]
  split
  · exact keyed_firstWins .nil
  · exact .nil

theorem mem_missing :
    blob ∈ d.missing ↔ (blob.cid, blob.recordUri) ∈ d.refs ∧ blob.cid ∉ d.owned := by
  simp only [missing, List.mem_insertionSort, List.mem_map, List.mem_filter, decide_eq_true_eq]
  constructor
  · rintro ⟨ref, hRef, rfl⟩
    exact hRef
  · intro h
    exact ⟨(blob.cid, blob.recordUri), h, rfl⟩

theorem mem_refCids_of_missing (h : blob ∈ d.missing) : blob.cid ∈ d.refCids :=
  List.mem_toFinset.mpr (List.mem_map_of_mem (mem_missing.mp h).1)

theorem exists_missing (hRef : cid ∈ d.refCids) (hOwned : cid ∉ d.owned) :
    ∃ blob ∈ d.missing, blob.cid = cid := by
  obtain ⟨ref, hMem, rfl⟩ := List.mem_map.mp (List.mem_toFinset.mp hRef)
  exact ⟨⟨ref.1, ref.2⟩, mem_missing.mpr ⟨hMem, hOwned⟩, rfl⟩

theorem missing_sorted (d : Destination) : d.missing.Pairwise fun a b => a.cid < b.cid := by
  have hSorted : d.missing.Pairwise ByCid := List.pairwise_insertionSort _ _
  have hNodup : (d.missing.map MissingBlob.cid).Nodup := by
    rw [missing, ((List.perm_insertionSort _ _).map MissingBlob.cid).nodup_iff, List.map_map]
    exact (keyed_refs d).sublist (List.filter_sublist.map Prod.fst)
  exact (hSorted.and (List.pairwise_map.mp hNodup)).imp fun h => lt_of_le_of_ne h.1 h.2

end Destination

/-- Not yet reached by the cursor. -/
def Beyond (cursor : Option String) (cid : String) : Prop :=
  ∀ c ∈ cursor, c < cid

theorem listMissingBlobs_eq : listMissingBlobs config d cursor =
    ((d.fromCursor cursor).take config.limit,
      if config.limit < (d.fromCursor cursor).length then
        ((d.fromCursor cursor).take config.limit).getLast?.map MissingBlob.cid
      else none) := by
  have hLength : config.limit < ((d.fromCursor cursor).take (config.limit + 1)).length ↔
      config.limit < (d.fromCursor cursor).length := by
    rw [List.length_take]
    omega
  have hTake : ((d.fromCursor cursor).take (config.limit + 1)).take config.limit =
      (d.fromCursor cursor).take config.limit := by
    rw [List.take_take, min_eq_left (Nat.le_succ _)]
  simp only [listMissingBlobs, hTake, hLength]

theorem mem_dropWhile {rows : List MissingBlob} {c : String}
    (hSorted : rows.Pairwise fun a b => a.cid < b.cid) :
    blob ∈ rows.dropWhile (fun b => b.cid ≤ c) ↔ blob ∈ rows ∧ c < blob.cid := by
  induction rows with
  | nil => simp
  | cons a rows ih =>
    obtain ⟨hHead, hTail⟩ := List.pairwise_cons.mp hSorted
    rw [List.dropWhile_cons]
    by_cases ha : a.cid ≤ c
    · rw [if_pos (decide_eq_true ha), ih hTail, List.mem_cons]
      refine and_congr_left fun hBeyond => (or_iff_right ?_).symm
      rintro rfl
      exact absurd hBeyond (not_lt.mpr ha)
    · rw [if_neg (by simpa using ha)]
      refine ⟨fun hMem => ⟨hMem, ?_⟩, And.left⟩
      rcases List.mem_cons.mp hMem with rfl | hMem
      · exact not_le.mp ha
      · exact (not_le.mp ha).trans (hHead blob hMem)

theorem mem_fromCursor :
    blob ∈ d.fromCursor cursor ↔ blob ∈ d.missing ∧ Beyond cursor blob.cid := by
  cases cursor with
  | none => exact ⟨fun h => ⟨h, by rintro _ ⟨⟩⟩, And.left⟩
  | some c =>
    rw [Destination.fromCursor, mem_dropWhile d.missing_sorted]
    refine and_congr_right fun _ => ⟨?_, fun h => h c rfl⟩
    rintro h _ ⟨⟩
    exact h

theorem fromCursor_sorted : (d.fromCursor cursor).Pairwise fun a b => a.cid < b.cid := by
  cases cursor with
  | none => exact d.missing_sorted
  | some c => exact d.missing_sorted.sublist (List.dropWhile_sublist _)

theorem listMissingBlobs_listed (h : blob ∈ (listMissingBlobs config d cursor).1) :
    blob ∈ d.missing ∧ Beyond cursor blob.cid := by
  rw [listMissingBlobs_eq] at h
  exact mem_fromCursor.mp (List.mem_of_mem_take h)

theorem listMissingBlobs_sorted (config : Config) (d : Destination) (cursor : Option String) :
    (listMissingBlobs config d cursor).1.Pairwise fun a b => a.cid < b.cid := by
  rw [listMissingBlobs_eq]
  exact fromCursor_sorted.sublist (List.take_sublist _ _)

/-- The cursor that is handed out is a listed blob, and what is left out is beyond it. -/
theorem listMissingBlobs_next {c : String} (h : (listMissingBlobs config d cursor).2 = some c) :
    ∃ blob ∈ (listMissingBlobs config d cursor).1, blob.cid = c := by
  rw [listMissingBlobs_eq] at h ⊢
  split at h
  · obtain ⟨last, hLast, rfl⟩ := Option.map_eq_some_iff.mp h
    exact ⟨last, List.mem_of_getLast? hLast, rfl⟩
  · cases h

theorem listMissingBlobs_rest (config : Config) (hMissing : blob ∈ d.missing)
    (hBeyond : Beyond cursor blob.cid) :
    blob ∈ (listMissingBlobs config d cursor).1 ∨
      ∃ c, (listMissingBlobs config d cursor).2 = some c ∧ c < blob.cid := by
  have hMem := mem_fromCursor.mpr ⟨hMissing, hBeyond⟩
  have hSplit := List.take_append_drop config.limit (d.fromCursor cursor)
  rw [listMissingBlobs_eq]
  rcases List.mem_append.mp (hSplit.symm ▸ hMem) with hTake | hDrop
  · exact Or.inl hTake
  · right
    have hLength : config.limit < (d.fromCursor cursor).length := by
      have hPos := List.length_pos_of_mem hDrop
      rw [List.length_drop] at hPos
      omega
    have hNe : (d.fromCursor cursor).take config.limit ≠ [] := by
      have hLimit := config.limit_pos
      rw [Ne, ← List.length_eq_zero_iff, List.length_take]
      omega
    refine ⟨((d.fromCursor cursor).take config.limit).getLast hNe |>.cid, ?_, ?_⟩
    · rw [if_pos hLength, List.getLast?_eq_some_getLast hNe]
      rfl
    · have hSorted : ((d.fromCursor cursor).take config.limit ++
          (d.fromCursor cursor).drop config.limit).Pairwise fun a b => a.cid < b.cid := by
        rw [hSplit]
        exact fromCursor_sorted
      exact (List.pairwise_append.mp hSorted).2.2 _ (List.getLast_mem hNe) _ hDrop

/-! ## What a drain knows -/

/-- The blob that is under way and those of the page that come after it. -/
def Phase.onPage : Phase → List MissingBlob
  | .listing => []
  | .page pending => pending
  | .fetching blob _ rest | .mirroring blob _ rest | .uploading blob _ _ _ rest => blob :: rest

structure Drain.Inv (config : Config) (d : Destination) (drain : Drain) : Prop where
  listed : ∀ blob ∈ drain.phase.onPage, (blob.cid, blob.recordUri) ∈ d.refs
  fresh : ∀ blob ∈ drain.phase.onPage, blob.cid ∉ drain.givenUp
  nodup : (drain.phase.onPage.map MissingBlob.cid).Nodup
  losses : ∀ loss ∈ drain.losses, (loss.cid, loss.recordUri) ∈ d.refs
  lossCids : (drain.losses.map BlobLoss.cid).Nodup
  givenUp : ∀ cid, cid ∈ drain.givenUp ↔ cid ∈ drain.losses.map BlobLoss.cid
  uploading : ∀ blob bytes origin attempt rest,
    drain.phase = .uploading blob bytes origin attempt rest → blobCid config bytes = blob.cid
  covered : ∀ cid ∈ d.refCids, cid ∉ d.owned → cid ∉ drain.givenUp →
    Beyond drain.cursor cid ∨ cid ∈ drain.phase.onPage.map MissingBlob.cid

/-- What a drain that ends leaves. -/
structure Accounts (d : Destination) (losses : List BlobLoss) : Prop where
  referred : ∀ loss ∈ losses, (loss.cid, loss.recordUri) ∈ d.refs
  nodup : (losses.map BlobLoss.cid).Nodup
  covers : ∀ cid ∈ d.refCids, cid ∉ d.owned → cid ∈ losses.map BlobLoss.cid

/-- The source answers with the content that it is asked for. -/
def honest (config : Config) (w : World) (label : Label) : Bool :=
  match label, w.drain.map Drain.phase with
  | .fetchBlob (.ok bytes), some (.fetching blob _ _) => blobCid config bytes = blob.cid
  | _, _ => true

abbrev Honest (config : Config) (w : World) (label : Label) : Prop :=
  honest config w label = true

namespace Drain.Inv

theorem start (acceptLoss : Bool) : Drain.Inv config d (.start acceptLoss) where
  listed := by
    rintro _ ⟨⟩
  fresh := by
    rintro _ ⟨⟩
  nodup := List.nodup_nil
  losses := by
    rintro _ ⟨⟩
  lossCids := List.nodup_nil
  givenUp cid := by simp [Drain.start]
  uploading := by
    rintro _ _ _ _ _ ⟨⟩
  covered _ _ _ _ := Or.inl (by rintro _ ⟨⟩)

/-- The same page, in another phase. -/
theorem samePage (h : Drain.Inv config d drain) {phase : Phase}
    (hPage : phase.onPage = drain.phase.onPage)
    (hUploading : ∀ blob bytes origin attempt rest,
      phase = .uploading blob bytes origin attempt rest → blobCid config bytes = blob.cid) :
    Drain.Inv config d { drain with phase := phase } where
  listed := hPage ▸ h.listed
  fresh := hPage ▸ h.fresh
  nodup := hPage ▸ h.nodup
  losses := h.losses
  lossCids := h.lossCids
  givenUp := h.givenUp
  uploading := hUploading
  covered := hPage ▸ h.covered

theorem lose (h : Drain.Inv config d drain) (hPage : drain.phase.onPage = blob :: rest)
    (direction : Direction) (reason : String) :
    Drain.Inv config d (drain.lose blob direction reason rest) where
  listed b hB := h.listed b (hPage ▸ List.mem_cons_of_mem _ hB)
  fresh b hB := by
    have hNodup := h.nodup
    rw [hPage, List.map_cons, List.nodup_cons] at hNodup
    rw [Drain.lose, Finset.mem_insert, not_or]
    refine ⟨fun hEq => hNodup.1 (hEq ▸ List.mem_map_of_mem hB), ?_⟩
    exact h.fresh b (hPage ▸ List.mem_cons_of_mem _ hB)
  nodup := by
    have hNodup := h.nodup
    rw [hPage, List.map_cons, List.nodup_cons] at hNodup
    exact hNodup.2
  losses := by
    simp only [Drain.lose, List.forall_mem_append, List.forall_mem_singleton]
    exact ⟨h.losses, h.listed blob (hPage ▸ List.mem_cons_self)⟩
  lossCids := by
    have hFresh := h.fresh blob (hPage ▸ List.mem_cons_self)
    rw [Drain.lose, List.map_append, List.map_singleton, List.nodup_append_comm,
      List.singleton_append, List.nodup_cons]
    exact ⟨fun hMem => hFresh ((h.givenUp _).mpr hMem), h.lossCids⟩
  givenUp cid := by
    rw [Drain.lose, Finset.mem_insert, h.givenUp, List.map_append, List.map_singleton,
      List.mem_append, List.mem_singleton, or_comm]
  uploading := by
    rintro _ _ _ _ _ ⟨⟩
  covered cid hRef hOwned hGivenUp := by
    rw [Drain.lose, Finset.mem_insert, not_or] at hGivenUp
    refine (h.covered cid hRef hOwned hGivenUp.2).imp_right fun hMem => ?_
    rw [hPage, List.map_cons, List.mem_cons] at hMem
    exact hMem.resolve_left hGivenUp.1

/-- The page goes on behind a blob that the destination owns. -/
theorem leave (h : Drain.Inv config d drain) (hPage : drain.phase.onPage = blob :: rest)
    (hOwned : blob.cid ∈ d.owned) (recovered : Nat) :
    Drain.Inv config d
      { drain with recoveredFromMirror := recovered, phase := .page rest } where
  listed b hB := h.listed b (hPage ▸ List.mem_cons_of_mem _ hB)
  fresh b hB := h.fresh b (hPage ▸ List.mem_cons_of_mem _ hB)
  nodup := by
    have hNodup := h.nodup
    rw [hPage, List.map_cons, List.nodup_cons] at hNodup
    exact hNodup.2
  losses := h.losses
  lossCids := h.lossCids
  givenUp := h.givenUp
  uploading := by
    rintro _ _ _ _ _ ⟨⟩
  covered cid hRef hMissing hGivenUp := by
    refine (h.covered cid hRef hMissing hGivenUp).imp_right fun hMem => ?_
    rw [hPage, List.map_cons, List.mem_cons] at hMem
    exact hMem.resolve_left fun hEq => hMissing (hEq ▸ hOwned)

/-- An account that owns more. -/
theorem grow (h : Drain.Inv config d drain) (hRefs : d'.refs = d.refs)
    (hOwned : d.owned ⊆ d'.owned) : Drain.Inv config d' drain where
  listed := hRefs ▸ h.listed
  fresh := h.fresh
  nodup := h.nodup
  losses := hRefs ▸ h.losses
  lossCids := h.lossCids
  givenUp := h.givenUp
  uploading := h.uploading
  covered cid hRef hMissing :=
    h.covered cid (by rwa [Destination.refCids, ← hRefs]) fun hMem => hMissing (hOwned hMem)

end Drain.Inv

theorem storeUpload_refs {bytes : Bytes} {outcome : Outcome} :
    (storeUpload config d bytes outcome).refs = d.refs := by
  rw [storeUpload]
  split
  · rfl
  · rfl

theorem owned_storeUpload {bytes : Bytes} {outcome : Outcome} :
    d.owned ⊆ (storeUpload config d bytes outcome).owned := by
  rw [storeUpload]
  split
  · exact Finset.subset_insert _ _
  · exact Finset.Subset.refl _

/-- The page that is asked for, without what has been given up. -/
def pending (config : Config) (d : Destination) (drain : Drain) : List MissingBlob :=
  (listMissingBlobs config d drain.cursor).1.filter fun b => b.cid ∉ drain.givenUp

theorem pending_nodup : ((pending config d drain).map MissingBlob.cid).Nodup := by
  have hSorted := listMissingBlobs_sorted config d drain.cursor
  exact List.pairwise_map.mpr ((hSorted.sublist List.filter_sublist).imp ne_of_lt)

theorem listPage_cases (config : Config) (d : Destination) (drain : Drain) :
    (listPage config d drain = .returns drain.losses ∧ pending config d drain = [] ∧
      (listMissingBlobs config d drain.cursor).2 = none) ∨
    (∃ c, listPage config d drain = .goesOn { drain with cursor := some c } ∧
      pending config d drain = [] ∧ (listMissingBlobs config d drain.cursor).2 = some c) ∨
    (pending config d drain ≠ [] ∧ listPage config d drain = .goesOn { drain with
      cursor := (listMissingBlobs config d drain.cursor).2
      phase := .page (pending config d drain) }) := by
  rw [listPage.eq_def]
  dsimp only
  split
  · rename_i hPending hNext
    exact Or.inl ⟨rfl, hPending, hNext⟩
  · rename_i c hPending hNext
    exact Or.inr (Or.inl ⟨c, rfl, hPending, hNext⟩)
  · rename_i blob rest hPending
    have hNe : pending config d drain = blob :: rest := hPending
    exact Or.inr (Or.inr ⟨by rw [hNe]; exact List.cons_ne_nil _ _, by rw [hNe]⟩)

/-- What is missing and not given up is on the page or beyond the next cursor. -/
theorem pending_covers (hInv : Drain.Inv config d drain) (hPhase : drain.phase = .listing)
    (hRef : cid ∈ d.refCids) (hOwned : cid ∉ d.owned) (hGivenUp : cid ∉ drain.givenUp) :
    cid ∈ (pending config d drain).map MissingBlob.cid ∨
      ∃ c, (listMissingBlobs config d drain.cursor).2 = some c ∧ c < cid := by
  have hBeyond : Beyond drain.cursor cid := by
    refine (hInv.covered cid hRef hOwned hGivenUp).resolve_right ?_
    rw [hPhase]
    exact List.not_mem_nil
  obtain ⟨blob, hBlob, rfl⟩ := Destination.exists_missing hRef hOwned
  refine (listMissingBlobs_rest config hBlob hBeyond).imp_left fun hListed => ?_
  exact List.mem_map_of_mem (List.mem_filter.mpr ⟨hListed, decide_eq_true hGivenUp⟩)

theorem listPage_inv (hInv : Drain.Inv config d drain) (hPhase : drain.phase = .listing) :
    (∀ next, listPage config d drain = .goesOn next → Drain.Inv config d next) ∧
      ∀ losses, listPage config d drain = .returns losses → Accounts d losses := by
  have hCovers := fun cid => @pending_covers config d drain cid hInv hPhase
  rcases listPage_cases config d drain with
    ⟨hMove, hNone, hNext⟩ | ⟨c, hMove, hNone, hNext⟩ | ⟨-, hMove⟩
  · rw [hMove]
    refine ⟨by rintro _ ⟨⟩, ?_⟩
    rintro _ ⟨⟩
    refine ⟨hInv.losses, hInv.lossCids, fun cid hRef hOwned => ?_⟩
    by_contra hLoss
    have hGivenUp : cid ∉ drain.givenUp := fun hMem => hLoss ((hInv.givenUp cid).mp hMem)
    rcases hCovers cid hRef hOwned hGivenUp with hMem | ⟨c, hSome, -⟩
    · rw [hNone] at hMem
      cases hMem
    · rw [hNext] at hSome
      cases hSome
  · rw [hMove]
    refine ⟨?_, by rintro _ ⟨⟩⟩
    rintro _ ⟨⟩
    refine { hInv with covered := fun cid hRef hOwned hGivenUp => Or.inl ?_ }
    rcases hCovers cid hRef hOwned hGivenUp with hMem | ⟨c', hSome, hLess⟩
    · rw [hNone] at hMem
      cases hMem
    · rintro _ ⟨⟩
      rw [hNext] at hSome
      cases hSome
      exact hLess
  · rw [hMove]
    refine ⟨?_, by rintro _ ⟨⟩⟩
    rintro _ ⟨⟩
    refine { hInv with listed := ?_, fresh := ?_, nodup := ?_, uploading := ?_, covered := ?_ }
    · intro blob hMem
      exact (Destination.mem_missing.mp (listMissingBlobs_listed (List.mem_filter.mp hMem).1).1).1
    · exact fun blob hMem => of_decide_eq_true (List.mem_filter.mp hMem).2
    · exact pending_nodup
    · rintro _ _ _ _ _ ⟨⟩
    · intro cid hRef hOwned hGivenUp
      rcases hCovers cid hRef hOwned hGivenUp with hMem | ⟨c, hSome, hLess⟩
      · exact Or.inr hMem
      · refine Or.inl fun c' hC' => ?_
        rw [hSome] at hC'
        cases hC'
        exact hLess

/-- What a step of a drain does to the destination and to the drain. -/
theorem drainStep_inv {w : World} {label : Label} {next : Destination × Move}
    (hHonest : Honest config w label) (hDrain : w.drain = some drain)
    (hInv : Drain.Inv config w.dest drain) (h : drainStep config w.dest drain label = some next) :
    next.1.refs = w.dest.refs ∧ w.dest.owned ⊆ next.1.owned ∧
      (w.dest.owned ⊆ w.dest.refCids → next.1.owned ⊆ next.1.refCids) ∧
      (∀ drain', next.2 = .goesOn drain' → Drain.Inv config next.1 drain') ∧
      ∀ losses, next.2 = .returns losses → Accounts next.1 losses := by
  rw [drainStep.eq_def] at h
  split at h
  · rename_i ok hPhase
    cases h
    refine ⟨rfl, Finset.Subset.refl _, fun h => h, ?_⟩
    cases ok with
    | false => exact ⟨by rintro _ ⟨⟩, by rintro _ ⟨⟩⟩
    | true => exact listPage_inv hInv hPhase
  · rename_i pending hPhase
    cases h
    refine ⟨rfl, Finset.Subset.refl _, fun h => h, ?_, by rintro _ ⟨⟩⟩
    rintro _ ⟨⟩
    have hPage : drain.phase.onPage = pending := by rw [hPhase, Phase.onPage]
    rw [nextBlob.eq_def]
    split
    · exact hInv.samePage hPage.symm (by rintro _ _ _ _ _ ⟨⟩)
    · split
      · exact hInv.samePage hPage.symm (by rintro _ _ _ _ _ ⟨⟩)
      · split
        · exact hInv.samePage hPage.symm (by rintro _ _ _ _ _ ⟨⟩)
        · exact hInv.lose hPage _ _
  · rename_i answer blob attempt rest hPhase
    cases h
    refine ⟨rfl, Finset.Subset.refl _, fun h => h, ?_, by rintro _ ⟨⟩⟩
    rintro _ ⟨⟩
    have hPage : drain.phase.onPage = blob :: rest := by rw [hPhase, Phase.onPage]
    rw [fetchBlob.eq_def]
    split
    · rename_i bytes
      refine hInv.samePage hPage.symm ?_
      rintro _ _ _ _ _ ⟨⟩
      rw [Honest, honest.eq_def, hDrain, Option.map_some, hPhase] at hHonest
      exact of_decide_eq_true hHonest
    · split
      · split
        · exact hInv.samePage hPage.symm (by rintro _ _ _ _ _ ⟨⟩)
        · exact hInv.lose hPage _ _
      · exact hInv.samePage hPage.symm (by rintro _ _ _ _ _ ⟨⟩)
  · rename_i file blob reason rest hPhase
    cases h
    refine ⟨rfl, Finset.Subset.refl _, fun h => h, ?_, by rintro _ ⟨⟩⟩
    rintro _ ⟨⟩
    have hPage : drain.phase.onPage = blob :: rest := by rw [hPhase, Phase.onPage]
    rw [readMirror]
    split
    · rename_i bytes hFile
      refine hInv.samePage hPage.symm ?_
      rintro _ _ _ _ _ ⟨⟩
      exact of_decide_eq_true (Option.filter_eq_some_iff.mp hFile).2
    · exact hInv.lose hPage _ _
  · rename_i outcome error blob bytes origin attempt rest hPhase
    cases h
    have hCid := hInv.uploading _ _ _ _ _ hPhase
    have hPage : drain.phase.onPage = blob :: rest := by rw [hPhase, Phase.onPage]
    have hRefs : (storeUpload config w.dest bytes outcome).refs = w.dest.refs := storeUpload_refs
    have hOwned : w.dest.owned ⊆ (storeUpload config w.dest bytes outcome).owned :=
      owned_storeUpload
    have hGrown := hInv.grow hRefs hOwned
    refine ⟨hRefs, hOwned, fun hOwned => ?_, ?_, by rintro _ ⟨⟩⟩
    · rw [Destination.refCids, hRefs]
      rw [storeUpload]
      split
      · refine Finset.insert_subset ?_ hOwned
        rw [hCid]
        exact List.mem_toFinset.mpr (List.mem_map_of_mem
          (hInv.listed blob (hPage ▸ List.mem_cons_self)))
      · exact hOwned
    · rintro _ ⟨⟩
      rw [uploadBlob]
      split
      · rename_i hDone
        refine hGrown.leave hPage ?_ _
        rw [hDone, ← hCid]
        exact Finset.mem_insert_self _ _
      · split
        · exact hGrown.lose hPage _ _
        · refine hGrown.samePage hPage.symm ?_
          rintro _ _ _ _ _ ⟨⟩
          exact hCid
  · cases h

/-! ## Over runs -/

/-- `started` says that the account began with blobs that its records refer to. -/
structure World.Inv (config : Config) (started : Prop) (w : World) : Prop where
  owned : started → w.dest.owned ⊆ w.dest.refCids
  drain : ∀ drain ∈ w.drain, Drain.Inv config w.dest drain
  accepted : ∀ losses ∈ w.accepted, Accounts w.dest losses

theorem Accounts.grow {losses : List BlobLoss} (h : Accounts d losses) (hRefs : d'.refs = d.refs)
    (hOwned : d.owned ⊆ d'.owned) : Accounts d' losses where
  referred := hRefs ▸ h.referred
  nodup := h.nodup
  covers cid hRef hMissing :=
    h.covers cid (by rwa [Destination.refCids, ← hRefs]) fun hMem => hMissing (hOwned hMem)

theorem step_drain {w w' : World} {label : Label} (hDrain : w.drain = some drain)
    (hStart : ∀ acceptLoss, label ≠ .transferBlobs acceptLoss) (hRestart : label ≠ .restart)
    (h : step config w label = some w') :
    ∃ next, drainStep config w.dest drain label = some next ∧
      w' = finish w drain next.1 next.2 := by
  rw [step.eq_def, hDrain] at h
  cases label with
  | transferBlobs acceptLoss => exact absurd rfl (hStart acceptLoss)
  | restart => exact absurd rfl hRestart
  | _ =>
    obtain ⟨next, hNext, hEq⟩ := Option.map_eq_some_iff.mp h
    exact ⟨next, hNext, hEq.symm⟩

/-- A step begins anew, or is one of the drain that is under way. -/
theorem step_cases {w w' : World} {label : Label} (h : step config w label = some w') :
    (∃ acceptLoss, label = .transferBlobs acceptLoss ∧
      w' = { w with drain := some (.start acceptLoss) }) ∨
    (label = .restart ∧ w' = { w with drain := none, accepted := none }) ∨
    ∃ drain next, w.drain = some drain ∧ drainStep config w.dest drain label = some next ∧
      w' = finish w drain next.1 next.2 := by
  rw [step.eq_def] at h
  split at h
  · cases h
    exact Or.inl ⟨_, rfl, rfl⟩
  · cases h
    exact Or.inr (Or.inl ⟨rfl, rfl⟩)
  · rename_i drain _ _ hDrain
    obtain ⟨next, hNext, hEq⟩ := Option.map_eq_some_iff.mp h
    exact Or.inr (Or.inr ⟨drain, next, hDrain, hNext, hEq.symm⟩)
  · cases h

theorem step_inv {started : Prop} {w w' : World} {label : Label}
    (hHonest : Honest config w label) (hInv : w.Inv config started)
    (h : step config w label = some w') : w'.Inv config started := by
  rcases step_cases h with ⟨acceptLoss, -, rfl⟩ | ⟨-, rfl⟩ | ⟨drain, next, hDrain, hNext, rfl⟩
  · refine ⟨hInv.owned, ?_, hInv.accepted⟩
    rintro _ ⟨⟩
    exact .start acceptLoss
  · exact ⟨hInv.owned, by rintro _ ⟨⟩, by rintro _ ⟨⟩⟩
  · obtain ⟨hRefs, hGrown, hOwned, hGoesOn, hReturns⟩ :=
      drainStep_inv hHonest hDrain (hInv.drain drain hDrain) hNext
    have hAccepted := fun losses hMem => (hInv.accepted losses hMem).grow hRefs hGrown
    rw [finish.eq_def]
    split
    · rename_i drain' hMove
      refine ⟨fun hStarted => hOwned (hInv.owned hStarted), ?_, hAccepted⟩
      rintro _ ⟨⟩
      exact hGoesOn drain' hMove
    · rename_i losses hMove
      refine ⟨fun hStarted => hOwned (hInv.owned hStarted), by rintro _ ⟨⟩, ?_⟩
      dsimp only
      split
      · rintro _ ⟨⟩
        exact hReturns losses hMove
      · exact hAccepted
    · exact ⟨fun hStarted => hOwned (hInv.owned hStarted), by rintro _ ⟨⟩, hAccepted⟩

theorem run_inv {started : Prop} {w : World} {labels : List Label}
    (hStart : started → d.owned ⊆ d.refCids)
    (hHonest : Along (step config) (Honest config) ⟨d, none, none⟩ labels)
    (hRun : run (step config) ⟨d, none, none⟩ labels = some w) : w.Inv config started := by
  have hFirst : World.Inv config started ⟨d, none, none⟩ :=
    ⟨hStart, by rintro _ ⟨⟩, by rintro _ ⟨⟩⟩
  exact run_invariant_along (fun _ _ _ hI hG hStep => step_inv hG hI hStep) hFirst hHonest hRun

/-- When a drain returns, however often it was begun, what the destination still misses is on its
list of losses, once each and with the record that the destination reported for it. -/
theorem drain_accounts (config : Config) (d : Destination) {labels : List Label} {label : Label}
    {w : World} {losses : List BlobLoss}
    (hHonest : Along (step config) (Honest config) ⟨d, none, none⟩ labels)
    (hRun : run (step config) ⟨d, none, none⟩ labels = some w) (hDrain : w.drain = some drain)
    (hReturns : drainStep config w.dest drain label = some (d', .returns losses)) :
    (∀ loss ∈ losses, (loss.cid, loss.recordUri) ∈ d'.refs) ∧
      (losses.map BlobLoss.cid).Nodup ∧
      ∀ cid ∈ d'.refCids, cid ∈ d'.owned ∨ cid ∈ losses.map BlobLoss.cid := by
  have hInv : w.Inv config False := run_inv (fun h => h.elim) hHonest hRun
  have hListing : Honest config w label := by
    rw [drainStep.eq_def] at hReturns
    split at hReturns
    · rfl
    all_goals cases hReturns
  have hAccounts := (drainStep_inv hListing hDrain (hInv.drain drain hDrain) hReturns).2.2.2.2
    losses rfl
  refine ⟨hAccounts.referred, hAccounts.nodup, fun cid hRef => ?_⟩
  by_cases hOwned : cid ∈ d'.owned
  · exact Or.inl hOwned
  · exact Or.inr (hAccounts.covers cid hRef hOwned)

/-- A blob that two records refer to, and one that the source does not have. -/
def sampleAccount : Destination where
  root := some "head"
  records := [("at://did:plc:a/app.bsky.feed.post/1", [firstCid]),
    ("at://did:plc:a/app.bsky.feed.post/2", [firstCid, secondCid])]
  owned := ∅

def sampleDrain : Config where
  sha256 := sampleConfig.sha256
  limit := 1
  limit_pos := Nat.one_pos
  hasSource := true
  hasMirror := false

/-- The first attempt fails, and an upload is repeated. -/
def sampleDraining : List Label :=
  [.transferBlobs false, .listMissing false, .transferBlobs true, .listMissing true, .nextBlob,
    .fetchBlob (.ok firstBlob), .uploadBlob (.failed false) "timeout", .uploadBlob .done "",
    .nextBlob, .listMissing true, .nextBlob, .fetchBlob (.error "500"), .fetchBlob (.error "500"),
    .fetchBlob (.error "500"), .nextBlob]

def secondLoss : BlobLoss :=
  ⟨secondCid, "at://did:plc:a/app.bsky.feed.post/2", .source, "500"⟩

theorem drain_accounts_sample : ∃ w drain,
    run (step sampleDrain) ⟨sampleAccount, none, none⟩ sampleDraining = some w ∧
    w.drain = some drain ∧
    drainStep sampleDrain w.dest drain (.listMissing true) =
      some (w.dest, .returns [secondLoss]) ∧
    ∀ cid ∈ w.dest.refCids, cid ∈ w.dest.owned ∨ cid ∈ [secondCid] := by
  have hSome : (run (step sampleDrain) ⟨sampleAccount, none, none⟩ sampleDraining).any (fun w =>
      w.drain.any fun drain => drainStep sampleDrain w.dest drain (.listMissing true) =
        some (w.dest, .returns [secondLoss])) = true := by
    decide +kernel
  obtain ⟨w, hRun, hFacts⟩ := (Option.any_eq_true _ _).mp hSome
  obtain ⟨drain, hDrain, hReturns⟩ := (Option.any_eq_true _ _).mp hFacts
  have hReturns := of_decide_eq_true hReturns
  exact ⟨w, drain, hRun, hDrain, hReturns,
    (drain_accounts sampleDrain sampleAccount (by decide +kernel) hRun hDrain hReturns).2.2⟩

theorem mem_firstWins_keys {es : List (String × String)} :
    cid ∈ (firstWins [] es).map Prod.fst ↔ cid ∈ es.map Prod.fst := by
  simp only [List.mem_map, mem_firstWins, List.not_mem_nil, false_or, false_implies, implies_true,
    and_true]
  constructor
  · rintro ⟨ref, hFind, rfl⟩
    exact ⟨ref, List.mem_of_find?_eq_some hFind, rfl⟩
  · rintro ⟨ref, hMem, rfl⟩
    have hSome : (es.find? fun e => e.1 = ref.1).isSome = true :=
      List.find?_isSome.mpr ⟨ref, hMem, decide_eq_true rfl⟩
    obtain ⟨found, hFound⟩ := Option.isSome_iff_exists.mp hSome
    have hKey : found.1 = ref.1 := by simpa using List.find?_some hFound
    refine ⟨found, ?_, hKey⟩
    rw [hKey]
    exact hFound

/-- The blobs that are expected are those that are listed as missing or owned. -/
theorem expectedBlobs_eq (d : Destination) :
    (checkAccountStatus d).expectedBlobs = d.refCids.card := by
  rw [checkAccountStatus, Destination.refCids, Destination.refs]
  dsimp only
  split
  · congr 1
    ext cid
    rw [List.mem_toFinset, List.mem_toFinset, collectRepoBlobRefs, mem_firstWins_keys]
    simp
  · rfl

end Ezpds.Wallet.BlobDrain
