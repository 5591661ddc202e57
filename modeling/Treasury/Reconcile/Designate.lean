import Mathlib.Data.List.DropRight
import Treasury.Kit.Docket
import Treasury.Reconcile.Decision

/-! Designations: what a movement is when it is not an internal transfer, under dual
control. -/
namespace Treasury
open Kit Kit.Json

def designationSchema : String := "treasury-reconcile/designation/v1"

/-- `char::is_whitespace`, the property `White_Space` of Unicode. -/
def isWhitespace (c : Char) : Bool :=
  let n := c.toNat
  (0x9 ≤ n ∧ n ≤ 0xd) ∨ (0x2000 ≤ n ∧ n ≤ 0x200a) ∨
    n ∈ [0x20, 0x85, 0xa0, 0x1680, 0x2028, 0x2029, 0x202f, 0x205f, 0x3000]

def trim (s : String) : String :=
  String.ofList ((s.toList.dropWhile isWhitespace).rdropWhile isWhitespace)

inductive NonPurchaseKind where
  | stakingReward
  | airdrop
  | forkProceeds
  | miningReward
  | other (description : String)
  deriving DecidableEq

def NonPurchaseKind.toJson : NonPurchaseKind → Value
  | .stakingReward => .object [("kind", .string "staking_reward")]
  | .airdrop => .object [("kind", .string "airdrop")]
  | .forkProceeds => .object [("kind", .string "fork_proceeds")]
  | .miningReward => .object [("kind", .string "mining_reward")]
  | .other description =>
    .object (ofEntries [("kind", .string "other"), ("detail", .string description)])

inductive LegClassification where
  | disposal
  | acquisition
  | nonPurchaseAcquisition (kind : NonPurchaseKind)
  deriving DecidableEq

def LegClassification.toJson : LegClassification → Value
  | .disposal => .object [("class", .string "disposal")]
  | .acquisition => .object [("class", .string "acquisition")]
  | .nonPurchaseAcquisition kind =>
    .object (ofEntries [("class", .string "non_purchase_acquisition"), ("detail", kind.toJson)])

structure DesignationProposal where
  leg : LegId
  classification : LegClassification
  policyHash : ContentHash
  deriving DecidableEq

inductive DesignateError where
  | vagueOther
  | unknownItem (id : ContentHash)
  | invalidTransition
  | dualControlViolation
  | notConfirmed
  | canon (error : CanonError)
  deriving DecidableEq

namespace DesignationProposal

/-- Another kind than the named ones needs a description that is not blank. -/
def vague (p : DesignationProposal) : Bool :=
  match p.classification with
  | .nonPurchaseAcquisition (.other description) => trim description = ""
  | _ => false

def envelope (p : DesignationProposal) : Value :=
  .object (ofEntries [("schema", .string designationSchema), ("leg", .string p.leg.toHex),
    ("classification", p.classification.toJson), ("policy", .string p.policyHash.toHex)])

def proposalHash [External] (p : DesignationProposal) : Except DesignateError ContentHash :=
  if p.vague then .error .vagueOther
  else
    match canonicalBytes p.envelope with
    | .error e => .error (.canon e)
    | .ok bytes => .ok (sha256 bytes)

end DesignationProposal

inductive DesignationState where
  | asserted (preparer : ActorId)
  | confirmed (preparer approver : ActorId)
  | rejected (actor : ActorId) (reason : String)
  deriving DecidableEq

namespace DesignationState

def isTerminal : DesignationState → Bool
  | .confirmed .. | .rejected .. => true
  | .asserted .. => false

theorem isTerminal_iff {s : DesignationState} : s.isTerminal = true ↔
    (∃ preparer approver, s = .confirmed preparer approver) ∨
      ∃ actor reason, s = .rejected actor reason := by
  cases s <;> simp [isTerminal]

def isConfirmed : DesignationState → Bool
  | .confirmed .. => true
  | _ => false

def confirm (approver : ActorId) : DesignationState → Except DesignateError DesignationState
  | .asserted preparer =>
    if preparer = approver then .error .dualControlViolation
    else .ok (.confirmed preparer approver)
  | _ => .error .invalidTransition

def reject (actor : ActorId) (reason : String) (s : DesignationState) :
    Except DesignateError DesignationState :=
  if s.isTerminal then .error .invalidTransition else .ok (.rejected actor reason)

theorem asserted_of_confirm {approver : ActorId} {s t : DesignationState}
    (h : s.confirm approver = .ok t) : s.isTerminal = false := by
  cases s <;> simp_all [confirm, isTerminal]

theorem asserted_of_reject {actor : ActorId} {reason : String} {s t : DesignationState}
    (h : s.reject actor reason = .ok t) : s.isTerminal = false := by
  cases s <;> simp_all [reject, isTerminal]

theorem not_confirmed {s : DesignationState} (h : s.isTerminal = false) :
    s.isConfirmed = false := by
  cases s <;> simp_all [isConfirmed, isTerminal]

end DesignationState

abbrev DesignationQueue := Docket ContentHash DesignationProposal DesignationState

namespace DesignationQueue

/-- A proposal that is already in the queue stays in its state. -/
def propose [External] (q : DesignationQueue) (proposal : DesignationProposal)
    (preparer : ActorId) : DesignationQueue × Except DesignateError ContentHash :=
  match proposal.proposalHash with
  | .error e => (q, .error e)
  | .ok id => (q.enter id proposal (.asserted preparer), .ok id)

def confirm (q : DesignationQueue) (id : ContentHash) (approver : ActorId) :
    DesignationQueue × Except DesignateError Unit :=
  q.move id (.unknownItem id) (DesignationState.confirm approver)

def reject (q : DesignationQueue) (id : ContentHash) (actor : ActorId) (reason : String) :
    DesignationQueue × Except DesignateError Unit :=
  q.move id (.unknownItem id) (DesignationState.reject actor reason)

/-- The legs with a confirmed designation, in order and once each. -/
def designatedLegs (q : DesignationQueue) : List LegId :=
  let confirmed := q.keysWhere fun _ s => s.isConfirmed
  dedupAdjacent (sortBy id (confirmed.filterMap fun key => (q.payload key).map (·.leg)))

theorem mem_designatedLegs {q : DesignationQueue} {leg : LegId} :
    leg ∈ q.designatedLegs ↔
      ∃ key p s, q.item key = some (p, s) ∧ s.isConfirmed ∧ p.leg = leg := by
  simp only [designatedLegs, mem_dedupAdjacent, mem_sortBy, List.mem_filterMap,
    Docket.mem_keysWhere, Option.map_eq_some_iff, Docket.payload]
  constructor
  · rintro ⟨key, ⟨p, s, found, confirmed⟩, _, ⟨_, same, rfl⟩, rfl⟩
    obtain rfl := Option.some.inj (found.symm.trans same)
    exact ⟨key, p, s, found, confirmed, rfl⟩
  · rintro ⟨key, p, s, found, confirmed, rfl⟩
    exact ⟨key, ⟨p, s, found, confirmed⟩, p, ⟨(p, s), found, rfl⟩, rfl⟩

end DesignationQueue

end Treasury
