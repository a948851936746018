import Ezpds.Library.Except
import Mathlib.Tactic.Common

/-!
# API errors
-/

namespace Ezpds

/-- The codes that the modelled routes answer with. -/
inductive ErrorCode where
  | invalidClaim
  | invalidToken
  | insufficientScope
  | forbidden
  | notFound
  | rateLimited
  | serviceUnavailable
  | internalError
  | conflict
  | invalidSwap
  | invalidRequest
  | recordAlreadyExists
  | recordNotFound
  | repoNotFound
  | spaceNotFound
  | futureRev
  | payloadTooLarge
  | plcDirectoryError
  | invalidDelegationToken
  deriving DecidableEq, Repr

structure ApiError where
  code : ErrorCode
  message : String
  deriving DecidableEq, Repr

def ensure (condition : Bool) (error : ApiError) : Except ApiError Unit :=
  if condition then .ok () else .error error

theorem ensure_ok {condition : Bool} {error : ApiError} :
    ensure condition error = .ok () ↔ condition = true := by
  by_cases h : condition = true
  · simp [ensure, h]
  · simp [ensure, h]

/-- What follows a guard runs when the guard passes. -/
theorem ensure_bind_ok {α : Type} {condition : Bool} {error : ApiError}
    {next : Unit → Except ApiError α} {a : α} :
    ensure condition error >>= next = .ok a ↔ condition = true ∧ next () = .ok a := by
  rw [Library.bind_ok]
  constructor
  · rintro ⟨_, hEnsure, hNext⟩
    exact ⟨ensure_ok.mp hEnsure, hNext⟩
  · rintro ⟨hCondition, hNext⟩
    exact ⟨(), ensure_ok.mpr hCondition, hNext⟩

end Ezpds
