import Ezpds.Data.Json

/-!
# Record values

`ipld_core::ipld::Ipld`, the data model that records are stored in. A double is its bit
pattern, an `i128` is an integer, and a map is its association list in key order.
-/

namespace Ezpds

open Library

inductive Ipld (Cid : Type) where
  | null
  | bool (b : Bool)
  | integer (i : Int)
  | float (bits : UInt64)
  | string (s : String)
  | bytes (bytes : List UInt8)
  | list (items : List (Ipld Cid))
  | map (entries : List (String × Ipld Cid))
  | link (cid : Cid)

namespace Ipld

variable {Cid : Type}

/-- Induction over a value: lists by their items, maps by their values. -/
@[elab_as_elim, induction_eliminator]
theorem ind {P : Ipld Cid → Prop} (null : P null) (bool : ∀ b, P (bool b))
    (integer : ∀ i, P (integer i)) (float : ∀ bits, P (float bits))
    (string : ∀ s, P (string s)) (bytes : ∀ bytes, P (.bytes bytes))
    (list : ∀ items, (∀ v ∈ items, P v) → P (list items))
    (map : ∀ entries, (∀ e ∈ entries, P e.2) → P (map entries)) (link : ∀ cid, P (link cid))
    (v : Ipld Cid) : P v := by
  apply @Ipld.rec Cid P (fun items => ∀ v ∈ items, P v) (fun entries => ∀ e ∈ entries, P e.2)
    (fun e => P e.2)
  · exact null
  · exact bool
  · exact integer
  · exact float
  · exact string
  · exact bytes
  · exact list
  · exact map
  · exact link
  · intro v hv
    cases hv
  · intro head tail hHead hTail v hv
    rcases List.mem_cons.mp hv with rfl | hv
    · exact hHead
    · exact hTail v hv
  · intro e he
    cases he
  · intro head tail hHead hTail e he
    rcases List.mem_cons.mp he with rfl | he
    · exact hHead
    · exact hTail e he
  · intro _ _ h
    exact h

/-- The integer `i` occurs in the value, at some depth. -/
inductive Occurs (i : Int) : Ipld Cid → Prop
  | integer : Occurs i (.integer i)
  | list {items : List (Ipld Cid)} {v : Ipld Cid} (hMem : v ∈ items) (h : Occurs i v) :
      Occurs i (.list items)
  | map {entries : List (String × Ipld Cid)} {e : String × Ipld Cid} (hMem : e ∈ entries)
      (h : Occurs i e.2) : Occurs i (.map entries)

end Ipld

end Ezpds
