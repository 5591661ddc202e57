import Treasury.Core.Primitives
import Treasury.Kit.Docket

/-! Items under dual control: proposed by a preparer, then confirmed by a different
approver or rejected, and final from then on. -/
namespace Treasury
open Kit

inductive DualControlState where
  | asserted (preparer : ActorId)
  | confirmed (preparer approver : ActorId)
  | rejected (actor : ActorId) (reason : String)
  deriving DecidableEq

inductive DualControlError where
  | unknownItem (id : ContentHash)
  | invalidTransition
  | dualControlViolation
  deriving DecidableEq

def DualControlError.display : DualControlError → String
  | .unknownItem id => "unknown dual-control item: " ++ id.toHex
  | .invalidTransition => "invalid state transition"
  | .dualControlViolation => "dual-control violation: approver must differ from preparer"

namespace DualControlState

def isTerminal : DualControlState → Bool
  | .confirmed .. | .rejected .. => true
  | .asserted .. => false

theorem isTerminal_iff {s : DualControlState} : s.isTerminal = true ↔
    (∃ preparer approver, s = .confirmed preparer approver) ∨
      ∃ actor reason, s = .rejected actor reason := by
  cases s <;> simp [isTerminal]

def confirm (approver : ActorId) : DualControlState → Except DualControlError DualControlState
  | .asserted preparer =>
    if preparer = approver then .error .dualControlViolation
    else .ok (.confirmed preparer approver)
  | _ => .error .invalidTransition

def reject (actor : ActorId) (reason : String) (s : DualControlState) :
    Except DualControlError DualControlState :=
  if s.isTerminal then .error .invalidTransition else .ok (.rejected actor reason)

end DualControlState

abbrev DualControlQueue (P : Type) := Docket ContentHash P DualControlState

namespace DualControlQueue

variable {P : Type}

def propose (q : DualControlQueue P) (id : ContentHash) (payload : P) (preparer : ActorId) :
    DualControlQueue P := q.enter id payload (.asserted preparer)

def confirm (q : DualControlQueue P) (id : ContentHash) (approver : ActorId) :
    DualControlQueue P × Except DualControlError Unit :=
  q.move id (.unknownItem id) (DualControlState.confirm approver)

def reject (q : DualControlQueue P) (id : ContentHash) (actor : ActorId) (reason : String) :
    DualControlQueue P × Except DualControlError Unit :=
  q.move id (.unknownItem id) (DualControlState.reject actor reason)

def openItems (q : DualControlQueue P) : List ContentHash := q.keysWhere fun _ s => !s.isTerminal

end DualControlQueue

end Treasury
