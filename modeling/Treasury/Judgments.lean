import Treasury.Ledger.Runs
import Treasury.Reconcile.Booking
import Treasury.Reconcile.Lifecycle
import Treasury.Reference
import Treasury.Scope.History

/-! Who approved the judgments: what the ledger asks of a judgment, and what the queues put
into those that they book. -/
namespace Treasury
open Kit Kit.Json

def Provenance.approvers : Provenance → List ActorId
  | .judgment _ approvers _ => approvers
  | _ => []

namespace EventDraft

/-- A judgment names somebody who approved it. -/
def Approved (d : EventDraft) : Prop := d.layer = .judgment → d.provenance.approvers ≠ []

/-- A judgment that two different actors approved. -/
def TwoApprovers (d : EventDraft) : Prop :=
  ∃ preparer approver, d.layer = .judgment ∧ d.provenance.approvers = [preparer, approver] ∧
    preparer ≠ approver

instance (d : EventDraft) : Decidable d.Approved := inferInstanceAs (Decidable (_ → _))

end EventDraft

namespace InMemoryLedger

def AllApproved (ledger : InMemoryLedger) : Prop :=
  ∀ tenant, ∀ e ∈ ledger.stream tenant, e.draft.Approved

def NamesApprover (ledger : InMemoryLedger) (call : EventDraft × TimestampNs) : Prop :=
  ledger.Passes call → call.1.Approved

theorem allApproved_new : new.AllApproved := by
  intro tenant e member
  simp at member

theorem allApproved_push {ledger : InMemoryLedger} {e : SealedEvent} :
    (ledger.push e).AllApproved ↔ ledger.AllApproved ∧ e.draft.Approved := by
  constructor
  · refine fun approved => ⟨fun tenant f member => approved tenant f ?_, ?_⟩
    · rw [stream_push]
      split
      · exact List.mem_append_left _ member
      · exact member
    · exact approved e.draft.tenant e (by simp [stream_push])
  · rintro ⟨old, last⟩ tenant f member
    rw [stream_push] at member
    split at member
    · rcases List.mem_append.mp member with before | new
      · exact old tenant f before
      · exact List.mem_singleton.mp new ▸ last
    · exact old tenant f member

variable [External]

theorem allApproved_appendCall (ledger : InMemoryLedger) (call : EventDraft × TimestampNs) :
    (ledger.appendCall call).AllApproved ↔ ledger.AllApproved ∧ ledger.NamesApprover call := by
  by_cases passes : ledger.Passes call
  · obtain ⟨e, same, pushed⟩ := passes.appendCall
    rw [pushed, allApproved_push, same]
    exact and_congr_right' ⟨fun approved _ => approved, fun names => names passes⟩
  · rw [appendCall_of_not_passes passes]
    exact (and_iff_left fun other => absurd other passes).symm

end InMemoryLedger

section
variable [External]

theorem twoApprovers_of_resolution {proposal : MatchProposal} {preparer approver : ActorId}
    {tenant : TenantId} {t : TimestampNs} {d : EventDraft} (differ : preparer ≠ approver)
    (drafted : draftResolution proposal (.confirmed preparer approver) tenant t = .ok d) :
    d.TwoApprovers := by
  simp only [draftResolution, proposal.decisionHash_eq, Except.ok.injEq] at drafted
  exact drafted ▸ ⟨preparer, approver, rfl, rfl, differ⟩

theorem twoApprovers_of_designation {proposal : DesignationProposal} {s : DesignationState}
    {tenant : TenantId} {t : TimestampNs} {d : EventDraft}
    (differ : ∀ preparer approver, s.signatures = some (preparer, approver) → preparer ≠ approver)
    (drafted : draftDesignation proposal s tenant t = .ok d) : d.TwoApprovers := by
  obtain ⟨preparer, approver, _, rfl, layer, provenance, _⟩ := draftDesignation_confirmed drafted
  exact ⟨preparer, approver, layer, provenance ▸ rfl, differ _ _ rfl⟩

theorem twoApprovers_of_scope {a : Scope.ScopeAssessment} {s : DualControlState}
    {t : TimestampNs} {d : EventDraft}
    (differ : ∀ preparer approver, s.signatures = some (preparer, approver) → preparer ≠ approver)
    (drafted : Scope.draftScopeJudgment a s t = .ok d) : d.TwoApprovers := by
  cases s with
  | confirmed preparer approver =>
    simp only [Scope.draftScopeJudgment, a.assessmentHash_eq, Except.ok.injEq] at drafted
    exact drafted ▸ ⟨preparer, approver, rfl, rfl, differ _ _ rfl⟩
  | asserted | rejected => cases drafted

end

section
variable {P S C ε R : Type} {act : Docket ContentHash P S → C → Docket ContentHash P S × Except ε R}
  {roles : Roles P C} {isTerminal : S → Bool} {signatures : S → Option (ActorId × ActorId)}
  {calls : List C}

theorem DualControlled.differ (controlled : DualControlled act roles isTerminal signatures calls)
    {id : ContentHash} {s : S} (reached : (run (advance act) .empty calls).state id = some s)
    (preparer approver : ActorId) (signed : signatures s = some (preparer, approver)) :
    preparer ≠ approver := by
  obtain ⟨⟨p, _⟩, found, rfl⟩ := Option.map_eq_some_iff.mp reached
  exact (controlled.signed id p _ preparer approver found signed).2.2

end

namespace InMemoryLedger

/-- The judgments of a ledger in use are all approved exactly if every judgment that was let in
named an approver. What the three queues draft of a confirmed item names two. -/
theorem judgments_approved_iff [External] :
    (∀ calls, (run appendCall new calls).AllApproved ↔ Along appendCall NamesApprover new calls) ∧
    (∀ (calls : List ConfirmationCall) (id : ContentHash) (preparer approver : ActorId),
      (run (advance ConfirmationQueue.perform) .empty calls).state id =
        some (.confirmed preparer approver) → ∀ proposal tenant t d,
      draftResolution proposal (.confirmed preparer approver) tenant t = .ok d → d.TwoApprovers) ∧
    (∀ (calls : List DesignationCall) (id : ContentHash) (s : DesignationState),
      (run (advance DesignationQueue.perform) .empty calls).state id = some s →
      ∀ proposal tenant t d, draftDesignation proposal s tenant t = .ok d → d.TwoApprovers) ∧
    ∀ (calls : List Scope.ScopeCall) (id : ContentHash) (s : DualControlState),
      (run (advance Scope.ScopeGate.perform) Scope.ScopeGate.new calls).state id = some s →
      ∀ a t d, Scope.draftScopeJudgment a s t = .ok d → d.TwoApprovers := by
  refine ⟨fun calls => ?_, ?_, ?_, ?_⟩
  · have whole := run_iff_along appendCall NamesApprover AllApproved allApproved_appendCall calls new
    exact whole.trans (and_iff_right allApproved_new)
  · intro calls id preparer approver reached proposal tenant t d drafted
    have differ := (ConfirmationQueue.controlled calls).differ reached preparer approver rfl
    exact twoApprovers_of_resolution differ drafted
  · intro calls id s reached proposal tenant t d drafted
    exact twoApprovers_of_designation ((DesignationQueue.controlled calls).differ reached) drafted
  · intro calls id s reached a t d drafted
    have queue := (Scope.ScopeGate.run_queue Scope.ScopeGate.new calls).1
    have reached : (run (advance Scope.ScopeGate.act) .empty calls).state id = some s :=
      queue ▸ reached
    exact twoApprovers_of_scope ((Scope.ScopeGate.controlled calls).differ reached) drafted

/-- A judgment that nobody approved. -/
def unapproved : EventDraft where
  tenant := ⟨"acme"⟩
  layer := .judgment
  eventTime := ⟨0⟩
  supersedes := none
  provenance := .judgment (.filled 2) [] []
  payload := ⟨.null, trivial⟩

theorem unapproved_enters :
    letI : External := reference
    ¬ (run appendCall new [(unapproved, ⟨0⟩)]).AllApproved := by
  intro approved
  have last := (@allApproved_appendCall reference new (unapproved, ⟨0⟩)).mp approved
  have passes : new.Passes (unapproved, ⟨0⟩) :=
    ⟨rfl, by simp [checkTime], rfl, trivial, by decide⟩
  exact last.2 passes rfl rfl

end InMemoryLedger

end Treasury
