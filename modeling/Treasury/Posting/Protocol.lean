import Treasury.Core.DualControl
import Treasury.Posting.Batch

/-! The posting protocol: what is known of every batch, moved on by evidence only. -/
namespace Treasury
open Kit

inductive PostingState where
  | awaitingApproval
  | readyToSubmit
  | submitting
  | posted (glRef : String) (responseEvidence : ContentHash)
  | unknown
  | verified (glRef : String) (readbackEvidence : ContentHash)
  | verificationFailed (missing unexpected : List ContentHash) (readbackEvidence : ContentHash)
  deriving DecidableEq

inductive PostingError where
  | unknownBatch (id : ContentHash)
  | invalidTransition
  | dualControl (error : DualControlError)
  | canon (error : CanonError)
  deriving DecidableEq

def PostingError.display : PostingError → String
  | .unknownBatch id => "unknown batch: " ++ id.toHex
  | .invalidTransition => "invalid posting transition"
  | .dualControl error => error.display
  | .canon error => error.display

structure PostingProtocol where
  approvals : DualControlQueue PostingBatch
  states : Finmap fun _ : ContentHash => PostingState

namespace PostingProtocol

def new : PostingProtocol := ⟨.empty, ∅⟩

def state (p : PostingProtocol) (id : ContentHash) : Option PostingState := p.states.lookup id

def approval (p : PostingProtocol) (id : ContentHash) : Option DualControlState := p.approvals.state id

def setState (p : PostingProtocol) (id : ContentHash) (s : PostingState) : PostingProtocol :=
  ⟨p.approvals, p.states.insert id s⟩

/-- One transition: the state of a known batch moves on if the step allows it. -/
def transition (p : PostingProtocol) (id : ContentHash) (next : PostingState → Option PostingState) :
    PostingProtocol × Except PostingError Unit :=
  match p.state id with
  | none => (p, .error (.unknownBatch id))
  | some s =>
    match next s with
    | none => (p, .error .invalidTransition)
    | some s => (p.setState id s, .ok ())

/-- The confirmation stays even when the state does not allow the release. -/
def release (p : PostingProtocol) (id : ContentHash) (approver : ActorId) :
    PostingProtocol × Except PostingError Unit :=
  match DualControlQueue.confirm p.approvals id approver with
  | (_, .error e) => (p, .error (.dualControl e))
  | (approvals, .ok _) =>
    transition ⟨approvals, p.states⟩ id fun
      | .awaitingApproval => some .readyToSubmit
      | _ => none

def beginSubmit (p : PostingProtocol) (id : ContentHash) :
    PostingProtocol × Except PostingError Unit :=
  p.transition id fun
    | .readyToSubmit => some .submitting
    | _ => none

def confirmPosted (p : PostingProtocol) (id : ContentHash) (glRef : String)
    (responseEvidence : ContentHash) : PostingProtocol × Except PostingError Unit :=
  p.transition id fun
    | .submitting => some (.posted glRef responseEvidence)
    | _ => none

def reportUnknown (p : PostingProtocol) (id : ContentHash) :
    PostingProtocol × Except PostingError Unit :=
  p.transition id fun
    | .submitting => some .unknown
    | _ => none

def resolveUnknown (p : PostingProtocol) (id : ContentHash)
    (found : Option (String × ContentHash)) : PostingProtocol × Except PostingError Unit :=
  p.transition id fun
    | .unknown =>
      match found with
      | some (glRef, responseEvidence) => some (.posted glRef responseEvidence)
      | none => some .readyToSubmit
    | _ => none

section
variable [External]

def register (p : PostingProtocol) (batch : PostingBatch) (preparer : ActorId) :
    PostingProtocol × Except PostingError ContentHash :=
  match batch.batchId with
  | .error e => (p, .error (.canon e))
  | .ok id =>
    let states := match p.state id with
      | some _ => p.states
      | none => p.states.insert id .awaitingApproval
    (⟨DualControlQueue.propose p.approvals id batch preparer, states⟩, .ok id)

/-- What the read-back says of a posted batch: its hashes, as a set, against the
batch's own, both ways. -/
def compare (expected readback : List ContentHash) (evidence : ContentHash) (glRef : String) :
    PostingState :=
  let missing := (expected.toFinset \ readback.toFinset).sort
  let unexpected := (readback.toFinset \ expected.toFinset).sort
  if missing.isEmpty ∧ unexpected.isEmpty then .verified glRef evidence
  else .verificationFailed missing unexpected evidence

def verify (p : PostingProtocol) (id : ContentHash) (readback : List ContentHash)
    (evidence : ContentHash) : PostingProtocol × Except PostingError Unit :=
  match p.approvals.payload id with
  | none => (p, .error (.unknownBatch id))
  | some batch =>
    match batch.entryFingerprint with
    | .error e => (p, .error (.canon e))
    | .ok expected =>
      p.transition id fun
        | .posted glRef _ => some (compare expected readback evidence glRef)
        | _ => none

end

end PostingProtocol

end Treasury
