import Ezpds.Library.Except
import Mathlib.Data.List.Forall2
import Mathlib.Data.List.Pairwise
import Mathlib.Order.Defs.LinearOrder
import Mathlib.Order.Lattice

/-!
# Maps as association lists in key order

An ordered map is kept as its list of entries, in increasing key order and with no key
twice. `assocInsert` is the map's insertion, and `mapEntries` the loop that rebuilds a
map with its values converted.

* `mapEntries_ok`, `mapEntries_error`: on a sorted list the loop is an entry-wise map.
-/

namespace Ezpds.Library

/-- Two entries of one key, with related values. -/
def EntryRel {κ β γ : Type*} (R : β → γ → Prop) (e : κ × β) (e' : κ × γ) : Prop :=
  e.1 = e'.1 ∧ R e.2 e'.2

theorem keys_eq_of_entryRel {κ β γ : Type*} {R : β → γ → Prop} {l : List (κ × β)}
    {l' : List (κ × γ)} (h : List.Forall₂ (EntryRel R) l l') :
    l.map Prod.fst = l'.map Prod.fst := by
  induction h with
  | nil => rfl
  | cons hHead _ ih => rw [List.map_cons, List.map_cons, hHead.1, ih]

theorem entryRel_mono {κ β γ : Type*} {R S : β → γ → Prop} (hRS : ∀ b c, R b c → S b c)
    {l : List (κ × β)} {l' : List (κ × γ)} (h : List.Forall₂ (EntryRel R) l l') :
    List.Forall₂ (EntryRel S) l l' :=
  h.imp fun _ _ hR => ⟨hR.1, hRS _ _ hR.2⟩

theorem entryRel_symm {κ β γ : Type*} {R : β → γ → Prop} {l : List (κ × β)}
    {l' : List (κ × γ)} (h : List.Forall₂ (EntryRel R) l l') :
    List.Forall₂ (EntryRel fun c b => R b c) l' l :=
  h.flip.imp fun _ _ hR => ⟨hR.1.symm, hR.2⟩

theorem forall₂_of_forall_exists {α β : Type*} {R : α → β → Prop} {l : List α}
    (h : ∀ a ∈ l, ∃ b, R a b) : ∃ l', List.Forall₂ R l l' := by
  induction l with
  | nil => exact ⟨[], .nil⟩
  | cons a l ih =>
    obtain ⟨b, hb⟩ := h a List.mem_cons_self
    obtain ⟨l', hl'⟩ := ih fun c hc => h c (List.mem_cons_of_mem _ hc)
    exact ⟨b :: l', .cons hb hl'⟩

theorem forall₂_entryRel_of_forall_exists {κ β γ : Type*} {R : β → γ → Prop}
    {l : List (κ × β)} (h : ∀ e ∈ l, ∃ c, R e.2 c) :
    ∃ l' : List (κ × γ), List.Forall₂ (EntryRel R) l l' := by
  apply forall₂_of_forall_exists
  intro e he
  obtain ⟨c, hc⟩ := h e he
  exact ⟨(e.1, c), rfl, hc⟩

theorem exists_mem_of_forall₂ {α β : Type*} {R : α → β → Prop} {l : List α} {l' : List β}
    (h : List.Forall₂ R l l') {b : β} (hb : b ∈ l') : ∃ a ∈ l, R a b := by
  induction h with
  | nil => cases hb
  | cons hHead _ ih =>
    rcases List.mem_cons.mp hb with rfl | hb
    · exact ⟨_, List.mem_cons_self, hHead⟩
    · obtain ⟨a, ha, hR⟩ := ih hb
      exact ⟨a, List.mem_cons_of_mem _ ha, hR⟩

/-- An element-wise reading succeeds exactly when it succeeds at every element. -/
theorem mapM_some {α β : Type} {f : α → Option β} {l : List α} {l' : List β} :
    l.mapM f = some l' ↔ List.Forall₂ (fun a b => f a = some b) l l' := by
  induction l generalizing l' with
  | nil =>
    rw [List.mapM_nil, List.forall₂_nil_left_iff]
    exact ⟨fun h => (Option.some.inj h).symm, fun h => congrArg some h.symm⟩
  | cons a l ih =>
    rw [List.mapM_cons, Option.bind_eq_bind, Option.bind_eq_some_iff]
    constructor
    · rintro ⟨b, hb, h⟩
      obtain ⟨bs, hbs, h⟩ := Option.bind_eq_some_iff.mp h
      cases h
      exact .cons hb (ih.mp hbs)
    · intro h
      cases h with
      | cons hb hbs => exact ⟨_, hb, Option.bind_eq_some_iff.mpr ⟨_, ih.mpr hbs, rfl⟩⟩

theorem mem_of_lookup {κ β : Type*} [BEq κ] [LawfulBEq κ] {k : κ} {v : β} {l : List (κ × β)}
    (h : l.lookup k = some v) : (k, v) ∈ l := by
  obtain ⟨before, after, rfl, _⟩ := List.lookup_eq_some_iff.mp h
  exact List.mem_append_right _ List.mem_cons_self

theorem lookup_of_nodup {κ β : Type*} [DecidableEq κ] {l : List (κ × β)}
    (h : (l.map Prod.fst).Nodup) {e : κ × β} (he : e ∈ l) : l.lookup e.1 = some e.2 := by
  obtain ⟨before, after, rfl⟩ := List.append_of_mem he
  apply List.lookup_eq_some_iff.mpr
  refine ⟨before, after, rfl, ?_⟩
  intro d hd
  rw [List.map_append, List.map_cons, List.nodup_append] at h
  have hNe := h.2.2 d.1 (List.mem_map_of_mem hd) e.1 List.mem_cons_self
  exact bne_iff_ne.mpr (Ne.symm hNe)

variable {κ β : Type*} [LinearOrder κ]

def assocInsert (k : κ) (v : β) : List (κ × β) → List (κ × β)
  | [] => [(k, v)]
  | e :: l =>
    if e.1 < k then e :: assocInsert k v l
    else if e.1 = k then (k, v) :: l
    else (k, v) :: e :: l

theorem assocInsert_nil (k : κ) (v : β) : assocInsert k v [] = [(k, v)] := rfl

theorem assocInsert_cons (k : κ) (v : β) (e : κ × β) (l : List (κ × β)) :
    assocInsert k v (e :: l) =
      if e.1 < k then e :: assocInsert k v l
      else if e.1 = k then (k, v) :: l
      else (k, v) :: e :: l := rfl

/-- The keys increase strictly. -/
def KeySorted (l : List (κ × β)) : Prop :=
  (l.map Prod.fst).Pairwise (· < ·)

instance (l : List (κ × β)) : Decidable (KeySorted l) :=
  inferInstanceAs (Decidable (List.Pairwise _ _))

theorem keySorted_cons {e : κ × β} {l : List (κ × β)} :
    KeySorted (e :: l) ↔ (∀ d ∈ l, e.1 < d.1) ∧ KeySorted l := by
  simp [KeySorted]

theorem mem_assocInsert {k : κ} {v : β} {l : List (κ × β)} {e : κ × β}
    (h : e ∈ assocInsert k v l) : e = (k, v) ∨ e ∈ l := by
  induction l with
  | nil => exact Or.inl (List.mem_singleton.mp h)
  | cons d l ih =>
    rw [assocInsert_cons] at h
    split at h
    · rcases List.mem_cons.mp h with rfl | h
      · exact Or.inr List.mem_cons_self
      · rcases ih h with rfl | h
        · exact Or.inl rfl
        · exact Or.inr (List.mem_cons_of_mem _ h)
    · split at h
      · rcases List.mem_cons.mp h with rfl | h
        · exact Or.inl rfl
        · exact Or.inr (List.mem_cons_of_mem _ h)
      · exact List.mem_cons.mp h

theorem keySorted_assocInsert {k : κ} {v : β} {l : List (κ × β)} (h : KeySorted l) :
    KeySorted (assocInsert k v l) := by
  induction l with
  | nil => simp [assocInsert_nil, KeySorted]
  | cons d l ih =>
    obtain ⟨hHead, hTail⟩ := keySorted_cons.mp h
    rw [assocInsert_cons]
    split
    · rename_i hLt
      refine keySorted_cons.mpr ⟨?_, ih hTail⟩
      intro e he
      rcases mem_assocInsert he with rfl | he
      · exact hLt
      · exact hHead e he
    · rename_i hNotLt
      split
      · rename_i hEq
        refine keySorted_cons.mpr ⟨?_, hTail⟩
        intro e he
        rw [← hEq]
        exact hHead e he
      · rename_i hNe
        have hLt : k < d.1 := lt_of_le_of_ne (not_lt.mp hNotLt) (Ne.symm hNe)
        refine keySorted_cons.mpr ⟨?_, h⟩
        intro e he
        rcases List.mem_cons.mp he with rfl | he
        · exact hLt
        · exact lt_trans hLt (hHead e he)

theorem lookup_assocInsert_self [BEq κ] [LawfulBEq κ] {k : κ} {v : β} {l : List (κ × β)} :
    (assocInsert k v l).lookup k = some v := by
  induction l with
  | nil => rw [assocInsert_nil, List.lookup_cons_self]
  | cons e l ih =>
    rw [assocInsert_cons]
    split
    · rename_i hLt
      rw [List.lookup_cons, beq_eq_false_iff_ne.mpr (ne_of_gt hLt), ih]
    · split
      · rw [List.lookup_cons_self]
      · rw [List.lookup_cons_self]

theorem lookup_assocInsert_of_ne [BEq κ] [LawfulBEq κ] {k k' : κ} {v : β} {l : List (κ × β)}
    (h : k' ≠ k) : (assocInsert k v l).lookup k' = l.lookup k' := by
  have hNe : (k' == k) = false := beq_eq_false_iff_ne.mpr h
  induction l with
  | nil => rw [assocInsert_nil, List.lookup_cons, hNe]
  | cons e l ih =>
    rw [assocInsert_cons]
    split
    · rw [List.lookup_cons, List.lookup_cons, ih]
    · split
      · rename_i hEq
        rw [List.lookup_cons, List.lookup_cons, hEq, hNe]
      · rw [List.lookup_cons, hNe]

/-- A new key is added, and nothing else happens. -/
theorem perm_assocInsert {k : κ} {v : β} {l : List (κ × β)} (h : ∀ e ∈ l, e.1 ≠ k) :
    (assocInsert k v l).Perm ((k, v) :: l) := by
  induction l with
  | nil => exact List.Perm.refl _
  | cons e l ih =>
    obtain ⟨hHead, hTail⟩ := List.forall_mem_cons.mp h
    rw [assocInsert_cons, if_neg hHead]
    split
    · exact ((ih hTail).cons e).trans (List.Perm.swap _ _ _)
    · exact List.Perm.refl _

theorem assocInsert_of_forall_lt {k : κ} {v : β} {l : List (κ × β)} (h : ∀ e ∈ l, e.1 < k) :
    assocInsert k v l = l ++ [(k, v)] := by
  induction l with
  | nil => rfl
  | cons e l ih =>
    have hHead := h e List.mem_cons_self
    have hTail := ih fun d hd => h d (List.mem_cons_of_mem _ hd)
    rw [assocInsert_cons, if_pos hHead, hTail]
    rfl

/-- Inserting sorted entries behind smaller ones appends them. -/
theorem foldl_assocInsert {out l : List (κ × β)} (h : KeySorted (out ++ l)) :
    l.foldl (fun out e => assocInsert e.1 e.2 out) out = out ++ l := by
  induction l generalizing out with
  | nil => simp
  | cons e l ih =>
    have hLast : ∀ d ∈ out, d.1 < e.1 := by
      intro d hd
      rw [KeySorted, List.map_append, List.pairwise_append] at h
      exact h.2.2 d.1 (List.mem_map_of_mem hd) e.1 (by simp)
    have hSorted : KeySorted ((out ++ [e]) ++ l) := by simpa using h
    rw [List.foldl_cons, assocInsert_of_forall_lt hLast, ih hSorted]
    simp

section MapEntries

variable {ε β γ : Type} {κ : Type} [LinearOrder κ] {f : β → Except ε γ}

/-- Inserts every converted entry, and stops at the first that does not convert. -/
def mapEntries (f : β → Except ε γ) (out : List (κ × γ)) :
    List (κ × β) → Except ε (List (κ × γ))
  | [] => .ok out
  | e :: l => do
    let c ← f e.2
    mapEntries f (assocInsert e.1 c out) l

theorem mapEntries_cons (out : List (κ × γ)) (e : κ × β) (l : List (κ × β)) :
    mapEntries f out (e :: l) =
      f e.2 >>= fun c => mapEntries f (assocInsert e.1 c out) l := rfl

theorem mapEntries_ok_fold {out res : List (κ × γ)} {l : List (κ × β)} :
    mapEntries f out l = .ok res ↔
      ∃ l' : List (κ × γ), List.Forall₂ (EntryRel fun b c => f b = .ok c) l l' ∧
        l'.foldl (fun out e => assocInsert e.1 e.2 out) out = res := by
  induction l generalizing out with
  | nil =>
    constructor
    · intro h
      cases h
      exact ⟨[], .nil, rfl⟩
    · rintro ⟨_, h, rfl⟩
      cases h
      rfl
  | cons e l ih =>
    rw [mapEntries_cons, bind_ok]
    constructor
    · rintro ⟨c, hc, h⟩
      obtain ⟨l', hl', hRes⟩ := ih.mp h
      exact ⟨(e.1, c) :: l', .cons ⟨rfl, hc⟩ hl', hRes⟩
    · rintro ⟨_, h, hRes⟩
      cases h with
      | @cons _ e' _ l' hHead hTail =>
        refine ⟨e'.2, hHead.2, ih.mpr ⟨l', hTail, ?_⟩⟩
        rw [hHead.1]
        exact hRes

/-- What the loop builds is a map, of values that were converted or were there before. -/
theorem mapEntries_keySorted {P : γ → Prop} {out res : List (κ × γ)} {l : List (κ × β)}
    (h : mapEntries f out l = .ok res) (hSorted : KeySorted out) (hOut : ∀ e ∈ out, P e.2)
    (hStep : ∀ e ∈ l, ∀ c, f e.2 = .ok c → P c) : KeySorted res ∧ ∀ e ∈ res, P e.2 := by
  induction l generalizing out with
  | nil =>
    cases h
    exact ⟨hSorted, hOut⟩
  | cons e l ih =>
    rw [mapEntries_cons] at h
    obtain ⟨c, hc, h⟩ := bind_ok.mp h
    refine ih h (keySorted_assocInsert hSorted) ?_ fun d hd => hStep d (List.mem_cons_of_mem _ hd)
    intro d hd
    rcases mem_assocInsert hd with rfl | hd
    · exact hStep e List.mem_cons_self c hc
    · exact hOut d hd

/-- Over a map the loop keeps the keys and converts the values. -/
theorem mapEntries_ok {l : List (κ × β)} {l' : List (κ × γ)} (h : KeySorted l) :
    mapEntries f [] l = .ok l' ↔
      List.Forall₂ (EntryRel fun b c => f b = .ok c) l l' := by
  have hFold : ∀ es : List (κ × γ),
      List.Forall₂ (EntryRel fun b c => f b = .ok c) l es →
      es.foldl (fun out e => assocInsert e.1 e.2 out) [] = es := by
    intro es hes
    apply foldl_assocInsert
    rw [List.nil_append, KeySorted, ← keys_eq_of_entryRel hes]
    exact h
  rw [mapEntries_ok_fold]
  constructor
  · rintro ⟨es, hes, rfl⟩
    rw [hFold es hes]
    exact hes
  · intro hl'
    exact ⟨l', hl', hFold l' hl'⟩

theorem mapEntries_error {out : List (κ × γ)} {l : List (κ × β)} :
    (∃ err, mapEntries f out l = .error err) ↔ ∃ e ∈ l, ∃ err, f e.2 = .error err := by
  induction l generalizing out with
  | nil =>
    constructor
    · rintro ⟨_, h⟩
      cases h
    · rintro ⟨_, h, _⟩
      cases h
  | cons e l ih =>
    rw [mapEntries_cons]
    cases he : f e.2 with
    | error err =>
      constructor
      · intro _
        exact ⟨e, List.mem_cons_self, err, he⟩
      · intro _
        exact ⟨err, rfl⟩
    | ok c =>
      constructor
      · intro h
        obtain ⟨d, hd, hFail⟩ := ih.mp h
        exact ⟨d, List.mem_cons_of_mem _ hd, hFail⟩
      · rintro ⟨d, hd, err, hFail⟩
        rcases List.mem_cons.mp hd with rfl | hd
        · rw [he] at hFail
          cases hFail
        · exact ih.mpr ⟨d, hd, err, hFail⟩

end MapEntries

end Ezpds.Library
