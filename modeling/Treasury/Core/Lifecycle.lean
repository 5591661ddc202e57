import Treasury.Core.DualControl
import Treasury.Kit.Lifecycle

/-! What dual control promises of a queue in use, and that the generic queue keeps it. -/
namespace Treasury
open Kit

/-- The part that an actor takes in an item by a call. -/
structure Roles (P C : Type) where
  payload : ContentHash → C → Option P
  preparer : ContentHash → C → Option ActorId
  approver : ContentHash → C → Option ActorId

/-- After these calls an item holds the payload first entered. If it is confirmed, its state
names who prepared it first and the one who approved it, and they differ. Final states stay, and
a call that fails changes nothing. -/
structure DualControlled {P S C ε R : Type}
    (act : Docket ContentHash P S → C → Docket ContentHash P S × Except ε R)
    (roles : Roles P C) (isTerminal : S → Bool) (signatures : S → Option (ActorId × ActorId))
    (calls : List C) : Prop where
  payload : ∀ id p s, (run (advance act) .empty calls).item id = some (p, s) →
    (succeeded act .empty calls).findSome? (roles.payload id) = some p
  signed : ∀ id p s preparer approver, (run (advance act) .empty calls).item id = some (p, s) →
    signatures s = some (preparer, approver) →
      (succeeded act .empty calls).findSome? (roles.preparer id) = some preparer ∧
        (succeeded act .empty calls).filterMap (roles.approver id) = [approver] ∧
        preparer ≠ approver
  final : ∀ id p s, (run (advance act) .empty calls).item id = some (p, s) →
    isTerminal s = true → ∀ more, (run (advance act) .empty (calls ++ more)).item id = some (p, s)
  refused : ∀ c e, (act (run (advance act) .empty calls) c).2 = .error e →
    (act (run (advance act) .empty calls) c).1 = run (advance act) .empty calls

/-- The open items are exactly those in a state that is not final, in order. -/
structure ListsOpen {P S : Type} (q : Docket ContentHash P S) (openItems : List ContentHash)
    (isTerminal : S → Bool) : Prop where
  sorted : openItems.Pairwise (· < ·)
  mem_iff : ∀ id, id ∈ openItems ↔ ∃ s, q.state id = some s ∧ isTerminal s = false

theorem listsOpen_keysWhere {P S : Type} (q : Docket ContentHash P S) (isTerminal : S → Bool) :
    ListsOpen q (q.keysWhere fun _ s => !isTerminal s) isTerminal where
  sorted := q.keysWhere_sorted _
  mem_iff id := by
    simp only [Docket.mem_keysWhere, Docket.state, Bool.not_eq_true', Option.map_eq_some_iff,
      Prod.exists, exists_eq_right]
    constructor
    · rintro ⟨p, s, found, undecided⟩
      exact ⟨s, ⟨p, found⟩, undecided⟩
    · rintro ⟨s, ⟨p, found⟩, undecided⟩
      exact ⟨p, s, found, undecided⟩

theorem map_unit {ε : Type} (x : Except ε Unit) : (x.map fun _ => ()) = x := by
  cases x <;> rfl

section
variable {P S M C ε R : Type} {rules : Docket.Rules ContentHash S M ε}
  {act : Docket ContentHash P S → C → Docket ContentHash P S × Except ε R}
  {translate : C → Option (Docket.Call ContentHash P S M)}

theorem dualControlled_of_acts (acts : Docket.Acts rules act translate) {roles : Roles P C}
    {isTerminal : S → Bool} {signatures : S → Option (ActorId × ActorId)}
    (payloads : ∀ id c, roles.payload id c = (Docket.entryBy translate id c).map Prod.fst)
    (stops : ∀ s, isTerminal s = true → ∀ m t, rules.next m s ≠ .ok t)
    (signs : ∀ id (taken : List C) p start s preparer approver,
      taken.findSome? (Docket.entryBy translate id) = some (p, start) →
      Docket.Follows rules.next start (taken.filterMap (Docket.verbBy translate id)) s →
      signatures s = some (preparer, approver) →
        taken.findSome? (roles.preparer id) = some preparer ∧
          taken.filterMap (roles.approver id) = [approver] ∧ preparer ≠ approver)
    (calls : List C) : DualControlled act roles isTerminal signatures calls where
  payload id p s found := by
    have lives := acts.lives calls id
    rw [found] at lives
    obtain ⟨start, origin, _⟩ := lives.origin
    have both : roles.payload id = Option.map Prod.fst ∘ Docket.entryBy translate id :=
      funext (payloads id)
    rw [both, ← List.map_findSome?, origin]
    rfl
  signed id p s preparer approver found signed := by
    have lives := acts.lives calls id
    rw [found] at lives
    obtain ⟨start, origin, follows⟩ := lives.origin
    exact signs id _ p start s preparer approver origin follows signed
  final id p s found terminal more := by
    rw [run_append]
    exact acts.final found (stops s terminal) more
  refused c e failed := acts.refused failed

theorem dualControlled_of_proposals (acts : Docket.Acts rules act translate) {roles : Roles P C}
    {isTerminal : S → Bool} {signatures : S → Option (ActorId × ActorId)}
    {asserted : ActorId → S} {approverOf : M → Option ActorId}
    (proposal : ContentHash → C → Option (P × ActorId))
    (entries : ∀ id c,
      Docket.entryBy translate id c = (proposal id c).map fun i => (i.1, asserted i.2))
    (payloads : ∀ id c, roles.payload id c = (proposal id c).map Prod.fst)
    (preparers : ∀ id c, roles.preparer id c = (proposal id c).map Prod.snd)
    (approvers : ∀ id c, roles.approver id c = (Docket.verbBy translate id c).bind approverOf)
    (stops : ∀ s, isTerminal s = true → ∀ m t, rules.next m s ≠ .ok t)
    (signs : ∀ first ms s preparer approver, Docket.Follows rules.next (asserted first) ms s →
      signatures s = some (preparer, approver) →
        first = preparer ∧ ms.filterMap approverOf = [approver] ∧ preparer ≠ approver)
    (calls : List C) : DualControlled act roles isTerminal signatures calls := by
  refine dualControlled_of_acts acts (fun id c => ?_) stops ?_ calls
  · rw [payloads, entries, Option.map_map]
    rfl
  · intro id taken p start s preparer approver origin follows signed
    have entry : Docket.entryBy translate id =
        (Option.map fun i => (i.1, asserted i.2)) ∘ proposal id :=
      funext (entries id)
    have first : roles.preparer id = Option.map Prod.snd ∘ proposal id := funext (preparers id)
    have second : roles.approver id = fun c => (Docket.verbBy translate id c).bind approverOf :=
      funext (approvers id)
    rw [entry, ← List.map_findSome?] at origin
    obtain ⟨⟨payload, actor⟩, proposed, same⟩ := Option.map_eq_some_iff.mp origin
    cases same
    obtain ⟨rfl, once, differ⟩ := signs _ _ _ _ _ follows signed
    refine ⟨?_, ?_, differ⟩
    · rw [first, ← List.map_findSome?, proposed]
      rfl
    · rw [second, ← List.filterMap_filterMap]
      exact once

end

inductive DualControlCall (P : Type) where
  | propose (id : ContentHash) (payload : P) (preparer : ActorId)
  | confirm (id : ContentHash) (approver : ActorId)
  | reject (id : ContentHash) (actor : ActorId) (reason : String)

inductive Verdict where
  | confirm (approver : ActorId)
  | reject (actor : ActorId) (reason : String)

def Verdict.approver : Verdict → Option ActorId
  | .confirm approver => some approver
  | .reject .. => none

theorem Verdict.approver_move {P S C : Type}
    (translate : C → Option (Docket.Call ContentHash P S Verdict)) (c : C) {key : ContentHash}
    {v : Verdict} (moves : translate c = some (.move key v)) (id : ContentHash) :
    (Docket.verbBy translate id c).bind Verdict.approver =
      if key = id then v.approver else none := by
  by_cases same : key = id <;> simp [Docket.verbBy, moves, Docket.Call.verb, same]

namespace DualControlState

def decide : Verdict → DualControlState → Except DualControlError DualControlState
  | .confirm approver => confirm approver
  | .reject actor reason => reject actor reason

def signatures : DualControlState → Option (ActorId × ActorId)
  | .confirmed preparer approver => some (preparer, approver)
  | _ => none

theorem decide_cases {v : Verdict} {s t : DualControlState} (decided : s.decide v = .ok t) :
    (∃ preparer approver, v = .confirm approver ∧ s = .asserted preparer ∧ preparer ≠ approver ∧
      t = .confirmed preparer approver) ∨
    ∃ preparer actor reason, v = .reject actor reason ∧ s = .asserted preparer ∧
      t = .rejected actor reason := by
  cases s with
  | asserted preparer =>
    cases v with
    | confirm approver =>
      simp only [decide, confirm] at decided
      split at decided
      · cases decided
      · rename_i differ
        exact .inl ⟨preparer, approver, rfl, rfl, differ, (Except.ok.inj decided).symm⟩
    | reject actor reason =>
      exact .inr ⟨preparer, actor, reason, rfl, rfl, (Except.ok.inj decided).symm⟩
  | confirmed | rejected => cases v <;> cases decided

theorem decide_final {s : DualControlState} (terminal : s.isTerminal = true) (v : Verdict)
    (t : DualControlState) : s.decide v ≠ .ok t := by
  intro decided
  rcases decide_cases decided with ⟨_, _, _, rfl, _⟩ | ⟨_, _, _, _, rfl, _⟩ <;> cases terminal

theorem follows_signed {first preparer approver : ActorId} {vs : List Verdict}
    {s : DualControlState} (follows : Docket.Follows decide (.asserted first) vs s)
    (signed : s.signatures = some (preparer, approver)) :
    first = preparer ∧ vs = [.confirm approver] ∧ preparer ≠ approver := by
  cases vs with
  | nil =>
    cases follows
    cases signed
  | cons v rest =>
    obtain ⟨u, decided, later⟩ := follows
    have ends : rest = [] ∧ u = s := by
      cases rest with
      | nil => exact ⟨rfl, later⟩
      | cons w rest =>
        obtain ⟨t, again, _⟩ := later
        rcases decide_cases decided with ⟨_, _, _, _, _, rfl⟩ | ⟨_, _, _, _, _, rfl⟩ <;>
          exact absurd again (decide_final rfl w t)
    obtain ⟨rfl, rfl⟩ := ends
    rcases decide_cases decided with ⟨a, b, rfl, same, differ, rfl⟩ | ⟨_, _, _, _, _, rfl⟩
    · cases same
      cases signed
      exact ⟨rfl, rfl, differ⟩
    · cases signed

end DualControlState

namespace DualControlQueue

variable {P : Type}

theorem confirm_cases (q : DualControlQueue P) (id : ContentHash) (approver : ActorId) :
    (∃ e, confirm q id approver = (q, .error e)) ∨
      ∃ p preparer, q.item id = some (p, .asserted preparer) ∧ preparer ≠ approver ∧
        confirm q id approver =
          (⟨q.items.insert id (p, .confirmed preparer approver)⟩, .ok ()) := by
  rcases q.move_cases id (DualControlError.unknownItem id) (DualControlState.confirm approver) with
    refused | ⟨p, old, new, found, confirmed, moved⟩
  · exact .inl refused
  · have decided : old.decide (.confirm approver) = .ok new := confirmed
    rcases DualControlState.decide_cases decided with
      ⟨preparer, _, same, rfl, differ, rfl⟩ | ⟨_, _, _, other, _⟩
    · cases same
      exact .inr ⟨p, preparer, found, differ, moved⟩
    · cases other

theorem reject_cases (q : DualControlQueue P) (id : ContentHash) (actor : ActorId)
    (reason : String) : (∃ e, reject q id actor reason = (q, .error e)) ∨
      ∃ p preparer, q.item id = some (p, .asserted preparer) ∧
        reject q id actor reason = (⟨q.items.insert id (p, .rejected actor reason)⟩, .ok ()) := by
  rcases q.move_cases id (DualControlError.unknownItem id)
    (DualControlState.reject actor reason) with
    refused | ⟨p, old, new, found, rejected, moved⟩
  · exact .inl refused
  · have decided : old.decide (.reject actor reason) = .ok new := rejected
    rcases DualControlState.decide_cases decided with
      ⟨_, _, other, _⟩ | ⟨preparer, _, _, same, rfl, rfl⟩
    · cases other
    · cases same
      exact .inr ⟨p, preparer, found, moved⟩

def perform (q : DualControlQueue P) :
    DualControlCall P → DualControlQueue P × Except DualControlError Unit
  | .propose id payload preparer => (propose q id payload preparer, .ok ())
  | .confirm id approver => confirm q id approver
  | .reject id actor reason => reject q id actor reason

def rules : Docket.Rules ContentHash DualControlState Verdict DualControlError where
  missing := .unknownItem
  next := DualControlState.decide

def translate : DualControlCall P → Option (Docket.Call ContentHash P DualControlState Verdict)
  | .propose id payload preparer => some (.enter id payload (.asserted preparer))
  | .confirm id approver => some (.move id (.confirm approver))
  | .reject id actor reason => some (.move id (.reject actor reason))

def proposal (id : ContentHash) : DualControlCall P → Option (P × ActorId)
  | .propose key payload preparer => if key = id then some (payload, preparer) else none
  | _ => none

def roles : Roles P (DualControlCall P) where
  payload id c := (proposal id c).map Prod.fst
  preparer id c := (proposal id c).map Prod.snd
  approver id
    | .confirm key approver => if key = id then some approver else none
    | _ => none

theorem acts : Docket.Acts rules (@perform P) translate where
  performs d c call translated := by
    refine ⟨(), ?_⟩
    cases c <;> cases translated
    · rfl
    · exact Prod.ext rfl (map_unit _).symm
    · exact Prod.ext rfl (map_unit _).symm
  refuses d c none := by cases c <;> cases none

theorem entryBy_eq (id : ContentHash) (c : DualControlCall P) :
    Docket.entryBy translate id c = (proposal id c).map fun i => (i.1, .asserted i.2) := by
  cases c <;> simp [Docket.entryBy, translate, Docket.Call.entry, proposal, apply_ite]

theorem approver_eq (id : ContentHash) (c : DualControlCall P) :
    roles.approver id c = (Docket.verbBy translate id c).bind Verdict.approver := by
  cases c with
  | propose => rfl
  | confirm key approver =>
    exact (Verdict.approver_move translate (.confirm key approver) rfl id).symm
  | reject key actor reason =>
    exact ((Verdict.approver_move translate (.reject key actor reason) rfl id).trans
      (ite_self none)).symm

theorem controlled (calls : List (DualControlCall P)) :
    DualControlled perform roles DualControlState.isTerminal DualControlState.signatures calls := by
  refine dualControlled_of_proposals acts proposal entryBy_eq (fun _ _ => rfl) (fun _ _ => rfl)
    approver_eq (fun _ => DualControlState.decide_final) ?_ calls
  intro first vs s preparer approver follows signed
  obtain ⟨same, rfl, differ⟩ := DualControlState.follows_signed follows signed
  exact ⟨same, rfl, differ⟩

end DualControlQueue

end Treasury
