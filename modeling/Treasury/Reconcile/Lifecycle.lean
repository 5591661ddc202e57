import Treasury.Core.Lifecycle
import Treasury.Reconcile.Designate
import Treasury.Reconcile.Queue

/-! Dual control in the designation queue and in the confirmation queue. The designation queue
does what the generic queue does under the proposals' hashes. -/
namespace Treasury
open Kit

inductive DesignationCall where
  | propose (proposal : DesignationProposal) (preparer : ActorId)
  | confirm (id : ContentHash) (approver : ActorId)
  | reject (id : ContentHash) (actor : ActorId) (reason : String)

inductive ConfirmationCall where
  | enqueue (proposal : MatchProposal)
  | assertMatch (id : ContentHash) (preparer : ActorId)
  | confirm (id : ContentHash) (approver : ActorId)
  | reject (id : ContentHash) (actor : ActorId) (reason : String)

def DesignateError.ofDual : DualControlError → DesignateError
  | .unknownItem id => .unknownItem id
  | .invalidTransition => .invalidTransition
  | .dualControlViolation => .dualControlViolation

namespace DesignationState

def toDual : DesignationState → DualControlState
  | .asserted preparer => .asserted preparer
  | .confirmed preparer approver => .confirmed preparer approver
  | .rejected actor reason => .rejected actor reason

def decide : Verdict → DesignationState → Except DesignateError DesignationState
  | .confirm approver => confirm approver
  | .reject actor reason => reject actor reason

def signatures : DesignationState → Option (ActorId × ActorId)
  | .confirmed preparer approver => some (preparer, approver)
  | _ => none

theorem isTerminal_toDual (s : DesignationState) : s.toDual.isTerminal = s.isTerminal := by
  cases s <;> rfl

theorem signatures_toDual (s : DesignationState) : s.toDual.signatures = s.signatures := by
  cases s <;> rfl

theorem decide_toDual (v : Verdict) (s : DesignationState) :
    (s.decide v).map toDual = (s.toDual.decide v).mapError .ofDual := by
  cases v with
  | confirm approver =>
    cases s with
    | asserted preparer =>
      by_cases same : preparer = approver <;>
        simp [decide, confirm, toDual, DualControlState.decide, DualControlState.confirm, same,
          Except.map, Except.mapError, DesignateError.ofDual]
    | confirmed | rejected => rfl
  | reject actor reason => cases s <;> rfl

theorem decided_toDual {v : Verdict} {s t : DesignationState} (decided : s.decide v = .ok t) :
    s.toDual.decide v = .ok t.toDual := by
  have both := decide_toDual v s
  rw [decided] at both
  exact mapError_eq_ok.mp both.symm

theorem follows_toDual {s t : DesignationState} {vs : List Verdict}
    (follows : Docket.Follows decide s vs t) :
    Docket.Follows DualControlState.decide s.toDual vs t.toDual := by
  induction vs generalizing s with
  | nil => exact congrArg toDual follows
  | cons v vs ih =>
    obtain ⟨u, decided, later⟩ := follows
    exact ⟨u.toDual, decided_toDual decided, ih later⟩

theorem decide_final {s : DesignationState} (terminal : s.isTerminal = true) (v : Verdict)
    (t : DesignationState) : s.decide v ≠ .ok t := by
  intro decided
  exact DualControlState.decide_final (s.isTerminal_toDual.trans terminal) v t.toDual
    (decided_toDual decided)

end DesignationState

namespace DesignationQueue
variable [External]

def perform (q : DesignationQueue) :
    DesignationCall → DesignationQueue × Except DesignateError (Option ContentHash)
  | .propose proposal preparer =>
    let (q, answer) := q.propose proposal preparer
    (q, answer.map some)
  | .confirm id approver =>
    let (q, answer) := q.confirm id approver
    (q, answer.map fun _ => none)
  | .reject id actor reason =>
    let (q, answer) := q.reject id actor reason
    (q, answer.map fun _ => none)

def rules : Docket.Rules ContentHash DesignationState Verdict DesignateError where
  missing := .unknownItem
  next := DesignationState.decide

def translate :
    DesignationCall → Option (Docket.Call ContentHash DesignationProposal DesignationState Verdict)
  | .propose proposal preparer =>
    match proposal.proposalHash with
    | .ok id => some (.enter id proposal (.asserted preparer))
    | .error _ => none
  | .confirm id approver => some (.move id (.confirm approver))
  | .reject id actor reason => some (.move id (.reject actor reason))

def proposal (id : ContentHash) : DesignationCall → Option (DesignationProposal × ActorId)
  | .propose p preparer => if p.proposalHash = .ok id then some (p, preparer) else none
  | _ => none

def roles : Roles DesignationProposal DesignationCall where
  payload id c := (proposal id c).map Prod.fst
  preparer id c := (proposal id c).map Prod.snd
  approver id
    | .confirm key approver => if key = id then some approver else none
    | _ => none

theorem acts : Docket.Acts rules perform translate where
  performs d c call translated := by
    cases c with
    | propose p preparer =>
      cases hashed : p.proposalHash with
      | error e => simp [translate, hashed] at translated
      | ok id =>
        simp only [translate, hashed, Option.some.injEq] at translated
        subst translated
        refine ⟨some id, ?_⟩
        simp only [perform, propose, hashed]
        rfl
    | confirm id approver =>
      cases translated
      exact ⟨none, rfl⟩
    | reject id actor reason =>
      cases translated
      exact ⟨none, rfl⟩
  refuses d c none := by
    cases c with
    | propose p preparer =>
      cases hashed : p.proposalHash with
      | error e =>
        refine ⟨e, ?_⟩
        simp only [perform, propose, hashed]
        rfl
      | ok id => simp [translate, hashed] at none
    | confirm | reject => cases none

theorem entryBy_eq (id : ContentHash) (c : DesignationCall) :
    Docket.entryBy translate id c = (proposal id c).map fun i => (i.1, .asserted i.2) := by
  cases c with
  | propose p preparer =>
    cases hashed : p.proposalHash with
    | error e => simp [Docket.entryBy, translate, proposal, hashed]
    | ok key =>
      simp [Docket.entryBy, translate, Docket.Call.entry, proposal, hashed, apply_ite]
  | confirm | reject => rfl

theorem approver_eq (id : ContentHash) (c : DesignationCall) :
    roles.approver id c = (Docket.verbBy translate id c).bind Verdict.approver := by
  cases c with
  | propose p preparer =>
    cases hashed : p.proposalHash <;>
      simp [Docket.verbBy, translate, Docket.Call.verb, roles, hashed]
  | confirm key approver =>
    exact (Verdict.approver_move translate (.confirm key approver) rfl id).symm
  | reject key actor reason =>
    exact ((Verdict.approver_move translate (.reject key actor reason) rfl id).trans
      (ite_self none)).symm

theorem controlled (calls : List DesignationCall) :
    DualControlled perform roles DesignationState.isTerminal DesignationState.signatures calls := by
  refine dualControlled_of_proposals acts proposal entryBy_eq (fun _ _ => rfl) (fun _ _ => rfl)
    approver_eq (fun _ => DesignationState.decide_final) ?_ calls
  intro first vs s preparer approver follows signed
  obtain ⟨same, rfl, differ⟩ := DualControlState.follows_signed
    (DesignationState.follows_toDual follows) (s.signatures_toDual.trans signed)
  exact ⟨same, rfl, differ⟩

/-- The call as a call of the generic queue, where the proposal has a hash. -/
def keyed : DesignationCall → Option (DualControlCall DesignationProposal)
  | .propose proposal preparer =>
    match proposal.proposalHash with
    | .ok id => some (.propose id proposal preparer)
    | .error _ => none
  | .confirm id approver => some (.confirm id approver)
  | .reject id actor reason => some (.reject id actor reason)

/-- What the designation queue answers where the generic queue answers this. -/
def answered : DualControlCall DesignationProposal → Except DualControlError Unit →
    Except DesignateError (Option ContentHash)
  | .propose id _ _, .ok _ => .ok (some id)
  | _, .ok _ => .ok none
  | _, .error e => .error (.ofDual e)

/-- The queues hold the same items in corresponding states. -/
def Mirrors (q : DesignationQueue) (d : DualControlQueue DesignationProposal) : Prop :=
  ∀ id, d.item id = (q.item id).map fun i => (i.1, i.2.toDual)

omit [External] in
theorem Mirrors.move {q : DesignationQueue} {d : DualControlQueue DesignationProposal}
    (mirrors : Mirrors q d) (id : ContentHash) (v : Verdict) :
    (q.move id (.unknownItem id) (DesignationState.decide v)).2 =
        (d.move id (.unknownItem id) (DualControlState.decide v)).2.mapError .ofDual ∧
      Mirrors (q.move id (.unknownItem id) (DesignationState.decide v)).1
        (d.move id (.unknownItem id) (DualControlState.decide v)).1 := by
  have there := mirrors id
  unfold Docket.move
  cases found : q.item id with
  | none =>
    simp only [found, Option.map_none] at there
    simp only [there]
    exact ⟨rfl, mirrors⟩
  | some i =>
    obtain ⟨p, s⟩ := i
    simp only [found, Option.map_some] at there
    simp only [there]
    have both := DesignationState.decide_toDual v s
    cases decided : s.decide v with
    | error e =>
      cases generic : s.toDual.decide v with
      | error f =>
        simp only [decided, generic, Except.map, Except.mapError, Except.error.injEq] at both
        exact ⟨congrArg Except.error both, mirrors⟩
      | ok t => simp [decided, generic, Except.map, Except.mapError] at both
    | ok t =>
      simp only [DesignationState.decided_toDual decided]
      refine ⟨rfl, fun key => ?_⟩
      simp only [Docket.item_insert]
      split
      · rfl
      · exact mirrors key

theorem Mirrors.perform {q : DesignationQueue} {d : DualControlQueue DesignationProposal}
    (mirrors : Mirrors q d) {c : DesignationCall} {call : DualControlCall DesignationProposal}
    (keys : keyed c = some call) :
    (q.perform c).2 = answered call (DualControlQueue.perform d call).2 ∧
      Mirrors (q.perform c).1 (DualControlQueue.perform d call).1 := by
  cases c with
  | propose p preparer =>
    cases hashed : p.proposalHash with
    | error e => simp [keyed, hashed] at keys
    | ok id =>
      simp only [keyed, hashed, Option.some.injEq] at keys
      subst keys
      simp only [DesignationQueue.perform, DualControlQueue.perform, propose, hashed]
      refine ⟨rfl, fun key => ?_⟩
      have there := mirrors key
      by_cases same : key = id
      · subst same
        simp only [DualControlQueue.propose, Docket.item_enter_self, there]
        cases q.item key <;> rfl
      · simp only [DualControlQueue.propose, Docket.item_enter_other _ _ _ same, there]
  | confirm id approver =>
    cases keys
    obtain ⟨answer, after⟩ := mirrors.move id (.confirm approver)
    have answers (y : Except DualControlError Unit) :
        (y.mapError DesignateError.ofDual).map (fun _ => none) =
          answered (.confirm id approver) y := by cases y <;> rfl
    exact ⟨(congrArg (Except.map fun _ => none) answer).trans (answers _), after⟩
  | reject id actor reason =>
    cases keys
    obtain ⟨answer, after⟩ := mirrors.move id (.reject actor reason)
    have answers (y : Except DualControlError Unit) :
        (y.mapError DesignateError.ofDual).map (fun _ => none) =
          answered (.reject id actor reason) y := by cases y <;> rfl
    exact ⟨(congrArg (Except.map fun _ => none) answer).trans (answers _), after⟩

/-- On calls whose proposals have hashes the designation queue answers as the generic queue
does and stays in step with it. -/
theorem mirrors_run {q : DesignationQueue} {d : DualControlQueue DesignationProposal}
    (mirrors : Mirrors q d) {calls : List DesignationCall}
    {generic : List (DualControlCall DesignationProposal)}
    (keys : calls.mapM keyed = some generic) :
    results perform q calls =
        List.zipWith answered generic (results DualControlQueue.perform d generic) ∧
      Mirrors (run (advance perform) q calls)
        (run (advance DualControlQueue.perform) d generic) := by
  induction calls generalizing q d generic with
  | nil =>
    cases keys
    exact ⟨rfl, mirrors⟩
  | cons c calls ih =>
    simp only [List.mapM_cons, Option.bind_eq_bind, Option.bind_eq_some_iff, Option.pure_def,
      Option.some.injEq] at keys
    obtain ⟨call, first, rest, later, rfl⟩ := keys
    obtain ⟨answer, after⟩ := mirrors.perform first
    obtain ⟨answers, final⟩ := ih after later
    exact ⟨congrArg₂ List.cons answer answers, final⟩

end DesignationQueue

namespace QueueState

inductive Verb where
  | assertMatch (preparer : ActorId)
  | confirm (approver : ActorId)
  | reject (actor : ActorId) (reason : String)

def Verb.preparer : Verb → Option ActorId
  | .assertMatch preparer => some preparer
  | _ => none

def Verb.approver : Verb → Option ActorId
  | .confirm approver => some approver
  | _ => none

def follow : Verb → QueueState → Except QueueError QueueState
  | .assertMatch preparer => assertMatch preparer
  | .confirm approver => confirm approver
  | .reject actor reason => reject actor reason

def signatures : QueueState → Option (ActorId × ActorId)
  | .confirmed preparer approver => some (preparer, approver)
  | _ => none

theorem follow_cases {v : Verb} {s t : QueueState} (followed : s.follow v = .ok t) :
    (∃ preparer, v = .assertMatch preparer ∧ s = .pending ∧ t = .asserted preparer) ∨
    (∃ preparer approver, v = .confirm approver ∧ s = .asserted preparer ∧ preparer ≠ approver ∧
      t = .confirmed preparer approver) ∨
    ∃ actor reason, v = .reject actor reason ∧ s.isTerminal = false ∧
      t = .rejected actor reason := by
  cases v with
  | assertMatch preparer =>
    have made : s.assertMatch preparer = .ok t := followed
    exact .inl ⟨preparer, rfl, assertMatch_eq_ok.mp made⟩
  | confirm approver =>
    have made : s.confirm approver = .ok t := followed
    obtain ⟨preparer, rest⟩ := confirm_eq_ok.mp made
    exact .inr (.inl ⟨preparer, approver, rfl, rest⟩)
  | reject actor reason =>
    have made : s.reject actor reason = .ok t := followed
    exact .inr (.inr ⟨actor, reason, rfl, reject_eq_ok.mp made⟩)

theorem follow_final {s : QueueState} (terminal : s.isTerminal = true) (v : Verb) (t : QueueState) :
    s.follow v ≠ .ok t := by
  cases s <;> cases terminal <;> cases v <;> exact nofun

theorem follows_final {s t : QueueState} (terminal : s.isTerminal = true) {vs : List Verb}
    (follows : Docket.Follows follow s vs t) : vs = [] ∧ t = s := by
  cases vs with
  | nil => exact ⟨rfl, follows.symm⟩
  | cons v vs =>
    obtain ⟨u, first, _⟩ := follows
    exact absurd first (follow_final terminal v u)

theorem not_signed_rejected {actor preparer approver : ActorId} {reason : String} {vs : List Verb}
    {s : QueueState} (follows : Docket.Follows follow (.rejected actor reason) vs s)
    (signed : s.signatures = some (preparer, approver)) : False := by
  obtain ⟨_, rfl⟩ := follows_final rfl follows
  cases signed

theorem follows_asserted {first preparer approver : ActorId} {vs : List Verb} {s : QueueState}
    (follows : Docket.Follows follow (.asserted first) vs s)
    (signed : s.signatures = some (preparer, approver)) :
    first = preparer ∧ vs = [.confirm approver] ∧ preparer ≠ approver := by
  cases vs with
  | nil =>
    cases follows
    cases signed
  | cons v vs =>
    obtain ⟨u, made, later⟩ := follows
    rcases follow_cases made with ⟨_, _, same, _⟩ | ⟨a, b, rfl, same, differ, rfl⟩ |
      ⟨actor, reason, rfl, _, rfl⟩
    · cases same
    · cases same
      obtain ⟨rfl, rfl⟩ := follows_final rfl later
      cases signed
      exact ⟨rfl, rfl, differ⟩
    · exact (not_signed_rejected later signed).elim

theorem follows_signed {preparer approver : ActorId} {vs : List Verb} {s : QueueState}
    (follows : Docket.Follows follow .pending vs s)
    (signed : s.signatures = some (preparer, approver)) :
    vs = [.assertMatch preparer, .confirm approver] ∧ preparer ≠ approver := by
  cases vs with
  | nil =>
    cases follows
    cases signed
  | cons v vs =>
    obtain ⟨u, made, later⟩ := follows
    rcases follow_cases made with ⟨a, rfl, _, rfl⟩ | ⟨_, _, _, same, _⟩ |
      ⟨actor, reason, rfl, _, rfl⟩
    · obtain ⟨rfl, rfl, differ⟩ := follows_asserted later signed
      exact ⟨rfl, differ⟩
    · cases same
    · exact (not_signed_rejected later signed).elim

end QueueState

namespace ConfirmationQueue
variable [External]

def perform (q : ConfirmationQueue) :
    ConfirmationCall → ConfirmationQueue × Except QueueError (Option ContentHash)
  | .enqueue proposal =>
    let (q, answer) := q.enqueue proposal
    (q, answer.map some)
  | .assertMatch id preparer =>
    let (q, answer) := q.assertMatch id preparer
    (q, answer.map fun _ => none)
  | .confirm id approver =>
    let (q, answer) := q.confirm id approver
    (q, answer.map fun _ => none)
  | .reject id actor reason =>
    let (q, answer) := q.reject id actor reason
    (q, answer.map fun _ => none)

def rules : Docket.Rules ContentHash QueueState QueueState.Verb QueueError where
  missing := .unknownItem
  next := QueueState.follow

def translate :
    ConfirmationCall → Option (Docket.Call ContentHash MatchProposal QueueState QueueState.Verb)
  | .enqueue proposal => some (.enter proposal.decision proposal .pending)
  | .assertMatch id preparer => some (.move id (.assertMatch preparer))
  | .confirm id approver => some (.move id (.confirm approver))
  | .reject id actor reason => some (.move id (.reject actor reason))

def roles : Roles MatchProposal ConfirmationCall where
  payload id
    | .enqueue proposal => if proposal.decisionHash = .ok id then some proposal else none
    | _ => none
  preparer id
    | .assertMatch key preparer => if key = id then some preparer else none
    | _ => none
  approver id
    | .confirm key approver => if key = id then some approver else none
    | _ => none

theorem acts : Docket.Acts rules perform translate where
  performs d c call translated := by
    cases c with
    | enqueue p =>
      cases translated
      refine ⟨some p.decision, ?_⟩
      simp only [perform, enqueue_eq]
      rfl
    | assertMatch | confirm | reject =>
      cases translated
      exact ⟨none, rfl⟩
  refuses d c none := by cases c <;> cases none

theorem entryBy_eq (id : ContentHash) (c : ConfirmationCall) :
    Docket.entryBy translate id c = (roles.payload id c).map fun p => (p, .pending) := by
  cases c with
  | enqueue p =>
    simp [Docket.entryBy, translate, Docket.Call.entry, roles, p.decisionHash_eq, apply_ite]
  | assertMatch | confirm | reject => rfl

theorem signers_eq (id : ContentHash) (c : ConfirmationCall) :
    roles.preparer id c = (Docket.verbBy translate id c).bind QueueState.Verb.preparer ∧
      roles.approver id c = (Docket.verbBy translate id c).bind QueueState.Verb.approver := by
  cases c with
  | enqueue p => exact ⟨rfl, rfl⟩
  | assertMatch key _ | confirm key _ | reject key _ _ =>
    by_cases same : key = id <;>
      simp [Docket.verbBy, translate, Docket.Call.verb, roles, same, QueueState.Verb.preparer,
        QueueState.Verb.approver]

theorem moves_of_signed {taken : List ConfirmationCall} {id : ContentHash} {p : MatchProposal}
    {start s : QueueState} {preparer approver : ActorId}
    (origin : taken.findSome? (Docket.entryBy translate id) = some (p, start))
    (follows :
      Docket.Follows QueueState.follow start (taken.filterMap (Docket.verbBy translate id)) s)
    (signed : s.signatures = some (preparer, approver)) :
    taken.filterMap (roles.preparer id) = [preparer] ∧
      taken.filterMap (roles.approver id) = [approver] ∧ preparer ≠ approver := by
  have entry : Docket.entryBy translate id =
      (Option.map fun p => (p, .pending)) ∘ roles.payload id :=
    funext (entryBy_eq id)
  rw [entry, ← List.map_findSome?] at origin
  obtain ⟨_, _, same⟩ := Option.map_eq_some_iff.mp origin
  cases same
  obtain ⟨moves, differ⟩ := QueueState.follows_signed follows signed
  have first := funext fun c => (signers_eq id c).1
  have second := funext fun c => (signers_eq id c).2
  rw [first, second, ← List.filterMap_filterMap, ← List.filterMap_filterMap, moves]
  exact ⟨rfl, rfl, differ⟩

theorem controlled (calls : List ConfirmationCall) :
    DualControlled perform roles QueueState.isTerminal QueueState.signatures calls := by
  refine dualControlled_of_acts acts (fun id c => ?_) (fun _ => QueueState.follow_final) ?_ calls
  · rw [entryBy_eq, Option.map_map]
    exact Option.map_id'.symm
  · intro id taken p start s preparer approver origin follows signed
    obtain ⟨once, approved, differ⟩ := moves_of_signed origin follows signed
    refine ⟨?_, approved, differ⟩
    rw [← List.head?_filterMap, once]
    rfl

theorem asserted_once (calls : List ConfirmationCall) (id : ContentHash) (p : MatchProposal)
    (preparer approver : ActorId) (found : (run (advance perform) .empty calls).item id =
      some (p, .confirmed preparer approver)) :
    (succeeded perform .empty calls).filterMap (roles.preparer id) = [preparer] := by
  have lives := acts.lives calls id
  rw [found] at lives
  obtain ⟨start, origin, follows⟩ := lives.origin
  exact (moves_of_signed origin follows rfl).1

end ConfirmationQueue

/-- Dual control in all three queues over any calls, and the designation queue in step with the
generic one. -/
theorem dual_control_upheld [External] :
    (∀ (P : Type) (calls : List (DualControlCall P)),
      DualControlled DualControlQueue.perform DualControlQueue.roles DualControlState.isTerminal
        DualControlState.signatures calls ∧
      ListsOpen (run (advance DualControlQueue.perform) .empty calls)
        (DualControlQueue.openItems (run (advance DualControlQueue.perform) .empty calls))
        DualControlState.isTerminal) ∧
    (∀ calls : List DesignationCall,
      DualControlled DesignationQueue.perform DesignationQueue.roles DesignationState.isTerminal
        DesignationState.signatures calls) ∧
    (∀ calls : List ConfirmationCall,
      DualControlled ConfirmationQueue.perform ConfirmationQueue.roles QueueState.isTerminal
        QueueState.signatures calls ∧
      (∀ id p preparer approver, (run (advance ConfirmationQueue.perform) .empty calls).item id =
        some (p, .confirmed preparer approver) →
          (succeeded ConfirmationQueue.perform .empty calls).filterMap
            (ConfirmationQueue.roles.preparer id) = [preparer]) ∧
      ListsOpen (run (advance ConfirmationQueue.perform) .empty calls)
        (run (advance ConfirmationQueue.perform) .empty calls).openItems QueueState.isTerminal) ∧
    (∀ (calls : List DesignationCall) (generic : List (DualControlCall DesignationProposal)),
      calls.mapM DesignationQueue.keyed = some generic →
        results DesignationQueue.perform .empty calls =
          List.zipWith DesignationQueue.answered generic
            (results DualControlQueue.perform .empty generic) ∧
        DesignationQueue.Mirrors (run (advance DesignationQueue.perform) .empty calls)
          (run (advance DualControlQueue.perform) .empty generic)) ∧
    (∀ s : DualControlState, s.isTerminal = true ↔
      (∃ preparer approver, s = .confirmed preparer approver) ∨
        ∃ actor reason, s = .rejected actor reason) ∧
    (∀ s : DesignationState, s.isTerminal = true ↔
      (∃ preparer approver, s = .confirmed preparer approver) ∨
        ∃ actor reason, s = .rejected actor reason) ∧
    ∀ s : QueueState, s.isTerminal = true ↔
      (∃ preparer approver, s = .confirmed preparer approver) ∨
        ∃ actor reason, s = .rejected actor reason := by
  refine ⟨fun P calls => ⟨DualControlQueue.controlled calls, listsOpen_keysWhere _ _⟩,
    DesignationQueue.controlled, fun calls => ⟨ConfirmationQueue.controlled calls,
      ConfirmationQueue.asserted_once calls, listsOpen_keysWhere _ _⟩, fun calls generic keys => ?_,
    fun _ => DualControlState.isTerminal_iff, fun _ => DesignationState.isTerminal_iff,
    fun _ => QueueState.isTerminal_iff⟩
  exact DesignationQueue.mirrors_run (fun id => by simp) keys

end Treasury
