import Treasury.Core.Lifecycle
import Treasury.Ledger.Event
import Treasury.Scope.Assessment

/-! The scope gate: assessments under dual control and, for each asset of a tenant, the one
that governs. -/
namespace Treasury.Scope
open Kit Kit.Json

inductive GateDecision where
  | proceed (assessment : ContentHash)
  | blockedOutOfScope (assessment : ContentHash) (verdict : ScopeVerdict)
  | blockedNoAssessment
  deriving DecidableEq

structure ScopeGate where
  queue : DualControlQueue ScopeAssessment
  confirmed : Finmap fun _ : TenantId × AssetId => ContentHash

namespace ScopeGate

def new : ScopeGate := ⟨.empty, ∅⟩

def propose [External] (g : ScopeGate) (assessment : ScopeAssessment) (preparer : ActorId) :
    ScopeGate × Except ScopeError ContentHash :=
  match assessment.assessmentHash with
  | .error e => (g, .error e)
  | .ok id => (⟨DualControlQueue.propose g.queue id assessment preparer, g.confirmed⟩, .ok id)

/-- The assessment that is confirmed governs its asset from now on. -/
def confirm (g : ScopeGate) (id : ContentHash) (approver : ActorId) :
    ScopeGate × Except DualControlError Unit :=
  match DualControlQueue.confirm g.queue id approver with
  | (queue, .error e) => (⟨queue, g.confirmed⟩, .error e)
  | (queue, .ok ()) =>
    match queue.payload id with
    | some a => (⟨queue, g.confirmed.insert (a.tenant, a.asset) id⟩, .ok ())
    | none => (⟨queue, g.confirmed⟩, .ok ())

def reject (g : ScopeGate) (id : ContentHash) (actor : ActorId) (reason : String) :
    ScopeGate × Except DualControlError Unit :=
  let (queue, answer) := DualControlQueue.reject g.queue id actor reason
  (⟨queue, g.confirmed⟩, answer)

def check (g : ScopeGate) (tenant : TenantId) (asset : AssetId) : GateDecision :=
  match g.confirmed.lookup (tenant, asset) with
  | none => .blockedNoAssessment
  | some id =>
    match g.queue.payload id with
    | none => .blockedNoAssessment
    | some a =>
      match a.verdict with
      | .inScope => .proceed id
      | .outOfScope notMet undetermined => .blockedOutOfScope id (.outOfScope notMet undetermined)

def state (g : ScopeGate) (id : ContentHash) : Option DualControlState := g.queue.state id

end ScopeGate

def judgmentMembers (a : ScopeAssessment) (id : ContentHash) : List (String × Value) :=
  [("schema", .string assessmentSchema), ("booking", .string "scope_designation"),
    ("asset", .string a.asset.value), ("criteria", a.criteria.toJson),
    ("verdict", a.verdict.toJson), ("assessment", .string id.toHex)]

theorem ScopeVerdict.sorted (v : ScopeVerdict) : Sorted v.toJson := by
  have names (cs : List Criterion) : Sorted (.array (cs.map Criterion.toJson)) := by
    refine (sortedItems_iff _).mpr fun v hv => ?_
    obtain ⟨c, _, rfl⟩ := List.mem_map.mp hv
    cases c <;> trivial
  refine sorted_object fun e he => ?_
  cases v with
  | inScope =>
    simp only [members, List.mem_singleton] at he
    subst he
    trivial
  | outOfScope notMet undetermined =>
    simp only [members, List.mem_cons, List.not_mem_nil, or_false] at he
    rcases he with rfl | rfl | rfl
    · trivial
    · exact names notMet
    · exact names undetermined

theorem judgmentMembers_sorted (a : ScopeAssessment) (id : ContentHash) :
    ∀ e ∈ judgmentMembers a id, Sorted e.2 := by
  intro e he
  simp only [judgmentMembers, List.mem_cons, List.not_mem_nil, or_false] at he
  rcases he with rfl | rfl | rfl | rfl | rfl | rfl
  · trivial
  · trivial
  · trivial
  · exact a.criteria.flat.sorted
  · exact a.verdict.sorted
  · trivial

/-- Both verdicts are booked, and only once they are confirmed. -/
def draftScopeJudgment [External] (assessment : ScopeAssessment) (state : DualControlState)
    (eventTime : TimestampNs) : Except ScopeError EventDraft :=
  match state with
  | .confirmed preparer approver =>
    match assessment.assessmentHash with
    | .error e => .error e
    | .ok id => .ok
      { tenant := assessment.tenant
        layer := .judgment
        eventTime := eventTime
        supersedes := none
        provenance := .judgment assessment.policyHash [preparer, approver] [id]
        payload := ⟨.object (ofEntries (judgmentMembers assessment id)),
          sorted_object (judgmentMembers_sorted assessment id)⟩ }
  | _ => .error .notConfirmed

inductive ScopeCall where
  | propose (assessment : ScopeAssessment) (preparer : ActorId)
  | confirm (id : ContentHash) (approver : ActorId)
  | reject (id : ContentHash) (actor : ActorId) (reason : String)

namespace ScopeGate
variable [External]

def perform (g : ScopeGate) :
    ScopeCall → ScopeGate × Except (ScopeError ⊕ DualControlError) (Option ContentHash)
  | .propose assessment preparer =>
    let (g, answer) := g.propose assessment preparer
    (g, (answer.mapError .inl).map some)
  | .confirm id approver =>
    let (g, answer) := g.confirm id approver
    (g, (answer.mapError .inr).map fun _ => none)
  | .reject id actor reason =>
    let (g, answer) := g.reject id actor reason
    (g, (answer.mapError .inr).map fun _ => none)

/-- What the calls do to the queue, whatever governs. -/
def act (q : DualControlQueue ScopeAssessment) (c : ScopeCall) :
    DualControlQueue ScopeAssessment ×
      Except (ScopeError ⊕ DualControlError) (Option ContentHash) :=
  let (g, answer) := perform ⟨q, ∅⟩ c
  (g.queue, answer)

end ScopeGate

end Treasury.Scope
