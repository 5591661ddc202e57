import Treasury.Ledger.Event
import Treasury.Reconcile.Designate
import Treasury.Reconcile.Queue

/-! What is booked: a match that was netted, confirmed or rejected, and a designation that was
confirmed. -/
namespace Treasury
open Kit Kit.Json

def bookingSchema : String := "treasury-reconcile/booking/v1"

inductive BookError where
  | notAutoNet
  | notTerminal
  | canon (error : CanonError)
  deriving DecidableEq

namespace MatchProposal

/-- The members that every booking of a match has. -/
def bookingMembers (p : MatchProposal) (booking resolution : String) (decision : ContentHash) :
    List (String × Value) :=
  [("schema", .string bookingSchema), ("booking", .string booking),
    ("resolution", .string resolution), ("out_leg", .string p.outLeg.toHex),
    ("in_leg", .string p.inLeg.toHex), ("tier", p.tier.toJson),
    ("decision", .string decision.toHex)]

def autoMembers (p : MatchProposal) (decision : ContentHash) : List (String × Value) :=
  p.bookingMembers "internal_transfer_net" "auto" decision

def confirmedMembers (p : MatchProposal) (decision : ContentHash) : List (String × Value) :=
  p.bookingMembers "internal_transfer_net" "confirmed" decision

def rejectedMembers (p : MatchProposal) (decision : ContentHash) (reason : String) :
    List (String × Value) :=
  p.bookingMembers "not_internal_transfer" "rejected" decision ++ [("reason", .string reason)]

theorem bookingMembers_sorted (p : MatchProposal) (booking resolution : String)
    (decision : ContentHash) : ∀ e ∈ p.bookingMembers booking resolution decision, Sorted e.2 := by
  intro e he
  simp only [bookingMembers, List.mem_cons, List.not_mem_nil, or_false] at he
  rcases he with rfl | rfl | rfl | rfl | rfl | rfl | rfl
  · trivial
  · trivial
  · trivial
  · trivial
  · trivial
  · cases p.tier <;> trivial
  · trivial

theorem rejectedMembers_sorted (p : MatchProposal) (decision : ContentHash) (reason : String) :
    ∀ e ∈ p.rejectedMembers decision reason, Sorted e.2 := by
  intro e he
  rcases List.mem_append.mp he with shared | own
  · exact p.bookingMembers_sorted _ _ decision e shared
  · exact List.mem_singleton.mp own ▸ trivial

end MatchProposal

/-- An automatic net is a derived fact and names nobody. -/
def draftAutoNet [External] (proposal : MatchProposal) (tenant : TenantId)
    (eventTime : TimestampNs) : Except BookError EventDraft :=
  if proposal.disposition ≠ .autoNet then .error .notAutoNet
  else
    match proposal.decisionHash with
    | .error e => .error (.canon e)
    | .ok decision => .ok
      { tenant := tenant
        layer := .derivedFact
        eventTime := eventTime
        supersedes := none
        provenance := .derived proposal.configHash [proposal.outLeg, proposal.inLeg]
        payload := ⟨.object (ofEntries (proposal.autoMembers decision)),
          sorted_object (proposal.bookingMembers_sorted _ _ decision)⟩ }

/-- A confirmed match carries both actors, a rejected one the actor who rejected it. -/
def draftResolution [External] (proposal : MatchProposal) (state : QueueState) (tenant : TenantId)
    (eventTime : TimestampNs) : Except BookError EventDraft :=
  match proposal.decisionHash with
  | .error e => .error (.canon e)
  | .ok decision =>
    match state with
    | .confirmed preparer approver => .ok
      { tenant := tenant
        layer := .judgment
        eventTime := eventTime
        supersedes := none
        provenance := .judgment proposal.configHash [preparer, approver] [decision]
        payload := ⟨.object (ofEntries (proposal.confirmedMembers decision)),
          sorted_object (proposal.bookingMembers_sorted _ _ decision)⟩ }
    | .rejected actor reason => .ok
      { tenant := tenant
        layer := .judgment
        eventTime := eventTime
        supersedes := none
        provenance := .judgment proposal.configHash [actor] [decision]
        payload := ⟨.object (ofEntries (proposal.rejectedMembers decision reason)),
          sorted_object (proposal.rejectedMembers_sorted decision reason)⟩ }
    | .pending | .asserted _ => .error .notTerminal

def designationMembers (p : DesignationProposal) (id : ContentHash) : List (String × Value) :=
  [("schema", .string designationSchema), ("booking", .string "leg_designation"),
    ("leg", .string p.leg.toHex), ("classification", p.classification.toJson),
    ("proposal", .string id.toHex)]

theorem sorted_single (key : String) {v : Value} (sorted : Sorted v) :
    Sorted (.object [(key, v)]) := by
  simp [Sorted, sortedEntries_iff, sorted]

theorem sorted_pair (first second : String) {v w : Value} (before : Sorted v) (after : Sorted w) :
    Sorted (.object (ofEntries [(first, v), (second, w)])) := by
  refine sorted_object fun e he => ?_
  rcases List.mem_cons.mp he with rfl | rest
  · exact before
  · exact List.mem_singleton.mp rest ▸ after

theorem NonPurchaseKind.sorted (k : NonPurchaseKind) : Sorted k.toJson := by
  cases k with
  | stakingReward | airdrop | forkProceeds | miningReward => exact sorted_single "kind" trivial
  | other description => exact sorted_pair _ _ trivial trivial

theorem LegClassification.sorted (c : LegClassification) : Sorted c.toJson := by
  cases c with
  | disposal | acquisition => exact sorted_single "class" trivial
  | nonPurchaseAcquisition kind => exact sorted_pair _ _ trivial kind.sorted

theorem designationMembers_sorted (p : DesignationProposal) (id : ContentHash) :
    ∀ e ∈ designationMembers p id, Sorted e.2 := by
  intro e he
  simp only [designationMembers, List.mem_cons, List.not_mem_nil, or_false] at he
  rcases he with rfl | rfl | rfl | rfl | rfl
  · trivial
  · trivial
  · trivial
  · exact p.classification.sorted
  · trivial

/-- Only a confirmed designation is booked. -/
def draftDesignation [External] (proposal : DesignationProposal) (state : DesignationState)
    (tenant : TenantId) (eventTime : TimestampNs) : Except DesignateError EventDraft :=
  match state with
  | .confirmed preparer approver =>
    match proposal.proposalHash with
    | .error e => .error e
    | .ok id => .ok
      { tenant := tenant
        layer := .judgment
        eventTime := eventTime
        supersedes := none
        provenance := .judgment proposal.policyHash [preparer, approver] [id]
        payload := ⟨.object (ofEntries (designationMembers proposal id)),
          sorted_object (designationMembers_sorted proposal id)⟩ }
  | _ => .error .notConfirmed

theorem draftDesignation_confirmed [External] {p : DesignationProposal} {s : DesignationState}
    {tenant : TenantId} {t : TimestampNs} {d : EventDraft}
    (drafted : draftDesignation p s tenant t = .ok d) : ∃ preparer approver id,
      s = .confirmed preparer approver ∧ d.layer = .judgment ∧
      d.provenance = .judgment p.policyHash [preparer, approver] [id] ∧
      d.payload.value = .object (ofEntries (designationMembers p id)) := by
  cases s with
  | confirmed preparer approver =>
    simp only [draftDesignation] at drafted
    split at drafted
    · cases drafted
    · rename_i id _
      exact Except.ok.inj drafted ▸ ⟨preparer, approver, id, rfl, rfl, rfl, rfl⟩
  | asserted | rejected => cases drafted

end Treasury
