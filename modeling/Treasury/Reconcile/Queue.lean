import Treasury.Kit.Docket
import Treasury.Reconcile.Decision

/-! The confirmation queue. A preparer asserts a queued match, a different approver
confirms it, and anyone may reject it before that. -/
namespace Treasury
open Kit

inductive QueueState where
  | pending
  | asserted (preparer : ActorId)
  | confirmed (preparer approver : ActorId)
  | rejected (actor : ActorId) (reason : String)
  deriving DecidableEq

inductive QueueError where
  | unknownItem (id : ContentHash)
  | invalidTransition
  | dualControlViolation
  | canon (error : CanonError)
  deriving DecidableEq

namespace QueueState

def isTerminal : QueueState → Bool
  | .confirmed .. | .rejected .. => true
  | _ => false

theorem isTerminal_iff {s : QueueState} : s.isTerminal = true ↔
    (∃ preparer approver, s = .confirmed preparer approver) ∨
      ∃ actor reason, s = .rejected actor reason := by
  cases s <;> simp [isTerminal]

def assertMatch (preparer : ActorId) : QueueState → Except QueueError QueueState
  | .pending => .ok (.asserted preparer)
  | _ => .error .invalidTransition

def confirm (approver : ActorId) : QueueState → Except QueueError QueueState
  | .asserted preparer =>
    if preparer = approver then .error .dualControlViolation
    else .ok (.confirmed preparer approver)
  | _ => .error .invalidTransition

def reject (actor : ActorId) (reason : String) (s : QueueState) : Except QueueError QueueState :=
  if s.isTerminal then .error .invalidTransition else .ok (.rejected actor reason)

theorem assertMatch_eq_ok {preparer : ActorId} {s t : QueueState} :
    s.assertMatch preparer = .ok t ↔ s = .pending ∧ t = .asserted preparer := by
  cases s <;> simp [assertMatch, eq_comm]

theorem confirm_eq_ok {approver : ActorId} {s t : QueueState} :
    s.confirm approver = .ok t ↔
      ∃ preparer, s = .asserted preparer ∧ preparer ≠ approver ∧ t = .confirmed preparer approver := by
  cases s with
  | asserted preparer =>
    by_cases same : preparer = approver
    · simp [confirm, same]
    · simp [confirm, same, @eq_comm _ t]
  | pending | confirmed | rejected => simp [confirm]

theorem reject_eq_ok {actor : ActorId} {reason : String} {s t : QueueState} :
    s.reject actor reason = .ok t ↔ s.isTerminal = false ∧ t = .rejected actor reason := by
  cases final : s.isTerminal <;> simp [reject, final, eq_comm]

end QueueState

abbrev ConfirmationQueue := Docket ContentHash MatchProposal QueueState

namespace ConfirmationQueue

/-- A proposal that is already in the queue stays in its state. -/
def enqueue [External] (q : ConfirmationQueue) (proposal : MatchProposal) :
    ConfirmationQueue × Except QueueError ContentHash :=
  match proposal.decisionHash with
  | .error e => (q, .error (.canon e))
  | .ok id => (q.enter id proposal .pending, .ok id)

def assertMatch (q : ConfirmationQueue) (id : ContentHash) (preparer : ActorId) :
    ConfirmationQueue × Except QueueError Unit :=
  q.move id (.unknownItem id) (QueueState.assertMatch preparer)

def confirm (q : ConfirmationQueue) (id : ContentHash) (approver : ActorId) :
    ConfirmationQueue × Except QueueError Unit :=
  q.move id (.unknownItem id) (QueueState.confirm approver)

def reject (q : ConfirmationQueue) (id : ContentHash) (actor : ActorId) (reason : String) :
    ConfirmationQueue × Except QueueError Unit :=
  q.move id (.unknownItem id) (QueueState.reject actor reason)

def openItems (q : ConfirmationQueue) : List ContentHash := q.keysWhere fun _ s => !s.isTerminal

theorem mem_openItems {q : ConfirmationQueue} {id : ContentHash} :
    id ∈ q.openItems ↔ ∃ p s, q.item id = some (p, s) ∧ s.isTerminal = false := by
  simp [openItems, Docket.mem_keysWhere]

def enqueueAll [External] (proposals : List MatchProposal) : ConfirmationQueue :=
  proposals.foldl (fun q p => (q.enqueue p).1) .empty

variable [External]

theorem enqueue_eq (q : ConfirmationQueue) (p : MatchProposal) :
    q.enqueue p = (q.enter p.decision p .pending, .ok p.decision) := by
  rw [enqueue, p.decisionHash_eq]

theorem item_enqueueAll {proposals : List MatchProposal}
    (decisions : ∀ p ∈ proposals, ∀ q ∈ proposals, p.decision = q.decision → p = q)
    {id : ContentHash} {p : MatchProposal} {s : QueueState} :
    (enqueueAll proposals).item id = some (p, s) ↔
      p ∈ proposals ∧ id = p.decision ∧ s = .pending := by
  induction proposals using List.reverseRecOn generalizing id p s with
  | nil => simp [enqueueAll]
  | append_singleton proposals last ih =>
    have before := @ih fun p hp q hq => decisions p (by simp [hp]) q (by simp [hq])
    have added : enqueueAll (proposals ++ [last]) =
        (enqueueAll proposals).enter last.decision last .pending := by
      simp [enqueueAll, List.foldl_append, enqueue_eq]
    rw [added]
    by_cases same : id = last.decision
    · subst same
      have entered : ((enqueueAll proposals).item last.decision).getD (last, .pending) =
          (last, .pending) := by
        cases found : (enqueueAll proposals).item last.decision with
        | none => rfl
        | some i =>
          obtain ⟨c, t⟩ := i
          obtain ⟨hc, decision, rfl⟩ := before.mp found
          rw [decisions c (by simp [hc]) last (by simp) decision.symm]
          rfl
      rw [Docket.item_enter_self, entered]
      constructor
      · intro h
        obtain ⟨rfl, rfl⟩ := Prod.mk.inj (Option.some.inj h)
        simp
      · rintro ⟨hp, decision, rfl⟩
        rw [decisions p hp last (by simp) decision.symm]
    · rw [Docket.item_enter_other _ _ _ same, before]
      constructor
      · rintro ⟨hp, decision, pending⟩
        exact ⟨by simp [hp], decision, pending⟩
      · rintro ⟨hp, rfl, rfl⟩
        rcases List.mem_append.mp hp with hp | hp
        · exact ⟨hp, rfl, rfl⟩
        · exact absurd (congrArg MatchProposal.decision (List.mem_singleton.mp hp)) same

end ConfirmationQueue

end Treasury
