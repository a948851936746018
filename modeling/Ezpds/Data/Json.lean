import Ezpds.Library.Binary64
import Ezpds.Library.SortedAssoc
import Mathlib.Data.String.Basic
import Mathlib.Tactic.Common

/-!
# JSON values

`serde_json::Value` as the repository builds it, without the `arbitrary_precision` and
`preserve_order` features: a number is a non-negative integer, a negative integer or a
double, and an object is a `BTreeMap`, kept here as its association list in key order.
-/

namespace Ezpds

open Library

def i64Max : Nat := 2 ^ 63 - 1

def u64Max : Nat := 2 ^ 64 - 1

/-- `serde_json::Number`: the parser and the constructors keep non-negative integers in
`posInt`, and only negative ones in `negInt`. A double is its bit pattern. -/
inductive Number where
  | posInt (n : UInt64)
  | negInt (n : Int64)
  | float (bits : UInt64)
  deriving DecidableEq, Repr

inductive Json where
  | null
  | bool (b : Bool)
  | number (n : Number)
  | string (s : String)
  | array (items : List Json)
  | object (fields : List (String × Json))

namespace Number

def asI64 : Number → Option Int
  | posInt n => if n.toNat ≤ i64Max then some n.toNat else none
  | negInt n => some n.toInt
  | float _ => none

def asU64 : Number → Option Int
  | posInt n => some n.toNat
  | negInt _ => none
  | float _ => none

/-- The exact value of `Number::as_f64`; infinities and NaN have none. -/
def asF64 : Number → Option ℚ
  | posInt n => some (mkRat (Binary64.round n.toNat) 1)
  | negInt n => some (mkRat (-(Binary64.round n.toInt.natAbs : Int)) 1)
  | float bits => Binary64.value bits

/-- The integer that a number is, without any conversion. -/
def integer : Number → Option Int
  | posInt n => some n.toNat
  | negInt n => some n.toInt
  | float bits => (Binary64.value bits).bind Binary64.integral

/-- `Number::from(i64)`. -/
def ofI64 (i : Int) : Number :=
  if i < 0 then negInt (Int64.ofInt i) else posInt (UInt64.ofNat i.toNat)

/-- `Number::from(u64)`. -/
def ofU64 (n : Nat) : Number :=
  posInt (UInt64.ofNat n)

/-- `Number::from_f64`, on the bit pattern: infinities and NaN have no JSON number. -/
def ofF64 (bits : UInt64) : Option Number :=
  if (bits >>> 52) &&& 0x7FF = 0x7FF then none else some (float bits)

end Number

namespace Json

/-- `Value::get`, by a key. -/
def get (j : Json) (key : String) : Option Json :=
  match j with
  | .object fields => fields.lookup key
  | _ => none

def isNull : Json → Bool
  | .null => true
  | _ => false

def asBool : Json → Option Bool
  | .bool b => some b
  | _ => none

def asStr : Json → Option String
  | .string s => some s
  | _ => none

def asArray : Json → Option (List Json)
  | .array items => some items
  | _ => none

def asObject : Json → Option (List (String × Json))
  | .object fields => some fields
  | _ => none

def asI64 : Json → Option Int
  | .number n => n.asI64
  | _ => none

def asU64 : Json → Option Nat
  | .number n => n.asU64.map Int.toNat
  | _ => none

def asF64 : Json → Option ℚ
  | .number n => n.asF64
  | _ => none

/-- A value and everything nested in it, at any depth. -/
inductive Within : Json → Json → Prop
  | self {j : Json} : Within j j
  | item {x j : Json} {items : List Json} : j ∈ items → Within x j → Within x (.array items)
  | field {x : Json} {e : String × Json} {fields : List (String × Json)} :
    e ∈ fields → Within x e.2 → Within x (.object fields)

theorem Within.trans {x y z : Json} (hxy : Within x y) (hyz : Within y z) : Within x z := by
  induction hyz with
  | self => exact hxy
  | item h _ ih => exact .item h ih
  | field h _ ih => exact .field h ih

/-- Induction over a value: arrays by their items, objects by their values. -/
@[elab_as_elim, induction_eliminator]
theorem ind {P : Json → Prop} (null : P null) (bool : ∀ b, P (bool b))
    (number : ∀ n, P (number n)) (string : ∀ s, P (string s))
    (array : ∀ items, (∀ j ∈ items, P j) → P (array items))
    (object : ∀ fields, (∀ e ∈ fields, P e.2) → P (object fields)) (j : Json) : P j := by
  apply @Json.rec P (fun items => ∀ j ∈ items, P j) (fun fields => ∀ e ∈ fields, P e.2)
    (fun e => P e.2)
  · exact null
  · exact bool
  · exact number
  · exact string
  · exact array
  · exact object
  · intro j hj
    cases hj
  · intro head tail hHead hTail j hj
    rcases List.mem_cons.mp hj with rfl | hj
    · exact hHead
    · exact hTail j hj
  · intro e he
    cases he
  · intro head tail hHead hTail e he
    rcases List.mem_cons.mp he with rfl | he
    · exact hHead
    · exact hTail e he
  · intro _ _ h
    exact h

mutual

/-- Every object in the value is a map: its keys increase strictly. -/
def WellFormed : Json → Prop
  | null => True
  | bool _ => True
  | number _ => True
  | string _ => True
  | array items => ItemsWellFormed items
  | object fields => KeySorted fields ∧ FieldsWellFormed fields

def ItemsWellFormed : List Json → Prop
  | [] => True
  | j :: items => j.WellFormed ∧ ItemsWellFormed items

def FieldsWellFormed : List (String × Json) → Prop
  | [] => True
  | (_, j) :: fields => j.WellFormed ∧ FieldsWellFormed fields

end

theorem itemsWellFormed_iff {items : List Json} :
    ItemsWellFormed items ↔ ∀ j ∈ items, j.WellFormed := by
  induction items with
  | nil => simp [ItemsWellFormed]
  | cons j items ih => simp [ItemsWellFormed, ih]

theorem fieldsWellFormed_iff {fields : List (String × Json)} :
    FieldsWellFormed fields ↔ ∀ e ∈ fields, e.2.WellFormed := by
  induction fields with
  | nil => simp [FieldsWellFormed]
  | cons e fields ih => simp [FieldsWellFormed, ih]

end Json

/-- A value that `serde_json` can hold. -/
structure JsonValue where
  json : Json
  wellFormed : json.WellFormed

end Ezpds
