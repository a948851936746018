import Ezpds.Repo.RecordPath
import Mathlib.Algebra.Group.Pi.Basic
import Mathlib.Data.UInt

/-!
# The set hash of a space repository

`LtHash` digests the records of a permissioned repository. An element expands to 1024
lanes of 16 bits, and a state is the lane-wise wrapping sum of its elements, so that one
record is put in or taken out without looking at the others. BLAKE3 and SHA-256 are not
part of the repository: they are parameters.

* `fromState_state`: the persisted bytes determine the state.
* `add_eq`, `remove_eq`: the two updates, in the group of states.
-/

namespace Ezpds.Spaces

open Repo

def LANES : Nat := 1024

def LTHASH_STATE_BYTES : Nat := LANES * 2

/-- `xof` is BLAKE3 in its extendable-output mode, one byte of output at a time. -/
structure SpaceCrypto where
  xof : List UInt8 → Nat → UInt8
  sha256 : List UInt8 → List UInt8

/-- `[u16; LANES]`. -/
abbrev LtHash : Type := Fin LANES → UInt16

inductive CryptoError where
  | space (message : String)
  deriving DecidableEq, Repr

def u16FromLeBytes (lo hi : UInt8) : UInt16 :=
  UInt16.ofNat (lo.toNat + hi.toNat * 256)

def u16ToLeBytes (lane : UInt16) : List UInt8 :=
  [UInt8.ofNat (lane.toNat % 256), UInt8.ofNat (lane.toNat / 256)]

namespace LtHash

def new : LtHash := fun _ => 0

def fromState (state : List UInt8) : Except CryptoError LtHash :=
  if state.length ≠ LTHASH_STATE_BYTES then
    .error (.space ("LtHash state must be " ++ toString LTHASH_STATE_BYTES ++ " bytes, got " ++
      toString state.length))
  else .ok fun i => u16FromLeBytes (state.getD (2 * i) 0) (state.getD (2 * i + 1) 0)

end LtHash

def expand (crypto : SpaceCrypto) (element : String) : LtHash :=
  fun i => u16FromLeBytes (crypto.xof (strBytes element) (2 * i))
    (crypto.xof (strBytes element) (2 * i + 1))

namespace LtHash

variable (crypto : SpaceCrypto)

def add (h : LtHash) (element : String) : LtHash :=
  fun i => h i + expand crypto element i

def remove (h : LtHash) (element : String) : LtHash :=
  fun i => h i - expand crypto element i

def state (h : LtHash) : List UInt8 :=
  (List.ofFn h).flatMap u16ToLeBytes

def digest (h : LtHash) : List UInt8 :=
  crypto.sha256 (state h)

variable {crypto} {h : LtHash} {element : String}

@[simp] theorem add_eq : add crypto h element = h + expand crypto element := rfl

@[simp] theorem remove_eq : remove crypto h element = h - expand crypto element := rfl

theorem new_eq_zero : new = 0 := rfl

end LtHash

def formatSetHashElement (collection rkey cid : String) : String :=
  collection ++ "/" ++ rkey ++ "/" ++ cid

/-! ## The persisted state -/

theorem u16FromLeBytes_u16ToLeBytes (lane : UInt16) :
    u16FromLeBytes (UInt8.ofNat (lane.toNat % 256)) (UInt8.ofNat (lane.toNat / 256)) = lane := by
  have hLt := lane.toNat_lt
  have hLow : lane.toNat % 256 < 256 := Nat.mod_lt _ (by omega)
  have hHigh : lane.toNat / 256 < 256 := by omega
  have hSum : lane.toNat % 256 + lane.toNat / 256 * 256 = lane.toNat := by omega
  simp only [u16FromLeBytes, UInt8.toNat_ofNat']
  rw [Nat.mod_eq_of_lt hLow, Nat.mod_eq_of_lt hHigh, hSum]
  exact UInt16.ofNat_toNat

/-- In a list of pairs laid flat, the pair of the `i`th entry is at `2 * i`. -/
theorem getD_flatMap_pair {α β : Type} {f g : α → β} {d : β} {l : List α} {i : Nat}
    (h : i < l.length) :
    (l.flatMap fun a => [f a, g a]).getD (2 * i) d = f l[i] ∧
      (l.flatMap fun a => [f a, g a]).getD (2 * i + 1) d = g l[i] := by
  induction l generalizing i with
  | nil => exact absurd h (by simp)
  | cons a l ih =>
    cases i with
    | zero => simp
    | succ i =>
      obtain ⟨hEven, hOdd⟩ := ih (i := i) (by simpa using h)
      rw [List.flatMap_cons, show 2 * (i + 1) = 2 * i + 1 + 1 by omega]
      exact ⟨hEven, hOdd⟩

namespace LtHash

theorem length_state (h : LtHash) : (state h).length = LTHASH_STATE_BYTES := by
  have hPair : ∀ lane ∈ List.ofFn h, (u16ToLeBytes lane).length = 2 := fun _ _ => rfl
  rw [state, List.length_flatMap, List.map_congr_left hPair, List.map_const',
    List.sum_replicate_nat, List.length_ofFn]
  rfl

/-- What is persisted is read back. -/
theorem fromState_state (h : LtHash) : fromState (state h) = .ok h := by
  rw [fromState, if_neg (not_not.mpr (length_state h))]
  apply congrArg Except.ok
  funext i
  have hLt : (i : Nat) < (List.ofFn h).length := by
    rw [List.length_ofFn]
    exact i.isLt
  obtain ⟨hLow, hHigh⟩ := getD_flatMap_pair (f := fun lane => UInt8.ofNat (UInt16.toNat lane % 256))
    (g := fun lane => UInt8.ofNat (UInt16.toNat lane / 256)) (d := 0) hLt
  rw [List.getElem_ofFn] at hLow hHigh
  show u16FromLeBytes ((state h).getD (2 * i) 0) ((state h).getD (2 * i + 1) 0) = h i
  rw [state]
  calc u16FromLeBytes (((List.ofFn h).flatMap u16ToLeBytes).getD (2 * i) 0)
        (((List.ofFn h).flatMap u16ToLeBytes).getD (2 * i + 1) 0)
      = u16FromLeBytes (UInt8.ofNat ((h i).toNat % 256)) (UInt8.ofNat ((h i).toNat / 256)) :=
        congrArg₂ u16FromLeBytes hLow hHigh
    _ = h i := u16FromLeBytes_u16ToLeBytes (h i)

end LtHash

end Ezpds.Spaces
