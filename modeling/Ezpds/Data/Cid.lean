import Mathlib.Tactic.Common

/-!
# Content identifiers

The `cid` crate is not part of the repository. A CID is an arbitrary type here, and its
text form is a pair of functions; `LawfulCidText` is the one thing the repository relies
on.
-/

namespace Ezpds

/-- `Cid::to_string` and `Cid::try_from(&str)`. -/
class CidText (Cid : Type) where
  toText : Cid → String
  tryFrom : String → Except String Cid

/-- The text of a CID parses back to that CID. -/
class LawfulCidText (Cid : Type) [CidText Cid] : Prop where
  tryFrom_toText : ∀ c : Cid, CidText.tryFrom (CidText.toText c) = .ok c

attribute [simp] LawfulCidText.tryFrom_toText

theorem toText_injective {Cid : Type} [CidText Cid] [LawfulCidText Cid] {c d : Cid}
    (h : CidText.toText c = CidText.toText d) : c = d := by
  have hc := LawfulCidText.tryFrom_toText c
  rw [h, LawfulCidText.tryFrom_toText d] at hc
  cases hc
  rfl

/-- CIDs that are their own text: what concrete runs use. -/
instance : CidText String where
  toText := id
  tryFrom := .ok

instance : LawfulCidText String where
  tryFrom_toText := fun _ => rfl

end Ezpds
