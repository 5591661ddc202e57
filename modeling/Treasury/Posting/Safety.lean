import Treasury.Kit.Run
import Treasury.Posting.Verification

/-! Safety of the posting protocol over all runs: what each operation can do to one batch,
and what follows for approval, submission and verification. -/
namespace Treasury
open Kit

inductive PostingOp where
  | register (batch : PostingBatch) (preparer : ActorId)
  | release (id : ContentHash) (approver : ActorId)
  | beginSubmit (id : ContentHash)
  | confirmPosted (id : ContentHash) (glRef : String) (responseEvidence : ContentHash)
  | reportUnknown (id : ContentHash)
  | resolveUnknown (id : ContentHash) (found : Option (String × ContentHash))
  | verify (id : ContentHash) (readback : List ContentHash) (evidence : ContentHash)

namespace PostingProtocol

section
variable [External]

def perform (p : PostingProtocol) : PostingOp → PostingProtocol × Except PostingError Unit
  | .register batch preparer =>
    let (next, result) := p.register batch preparer
    (next, result.map fun _ => ())
  | .release id approver => p.release id approver
  | .beginSubmit id => p.beginSubmit id
  | .confirmPosted id glRef responseEvidence => p.confirmPosted id glRef responseEvidence
  | .reportUnknown id => p.reportUnknown id
  | .resolveUnknown id found => p.resolveUnknown id found
  | .verify id readback evidence => p.verify id readback evidence

def advance (p : PostingProtocol) (op : PostingOp) : PostingProtocol := (p.perform op).1

def Succeeds (p : PostingProtocol) (op : PostingOp) : Prop := (p.perform op).2 = .ok ()

end

theorem state_setState_other (p : PostingProtocol) {id other : ContentHash} (s : PostingState)
    (different : other ≠ id) : (p.setState id s).state other = p.state other :=
  Finmap.lookup_insert_of_ne p.states different

@[simp] theorem approval_setState (p : PostingProtocol) (id other : ContentHash) (s : PostingState) :
    (p.setState id s).approval other = p.approval other := rfl

theorem transition_cases (p : PostingProtocol) (id : ContentHash)
    (next : PostingState → Option PostingState) :
    (∃ e, p.transition id next = (p, .error e)) ∨
      ∃ old new, p.state id = some old ∧ next old = some new ∧
        p.transition id next = (p.setState id new, .ok ()) := by
  unfold transition
  cases found : p.state id with
  | none => exact .inl ⟨_, rfl⟩
  | some old =>
    cases moved : next old with
    | none => exact .inl ⟨.invalidTransition, by simp only [moved]⟩
    | some new => exact .inr ⟨old, new, rfl, moved, by simp only [moved]⟩

theorem transition_eq_ok {p q : PostingProtocol} {id : ContentHash}
    {next : PostingState → Option PostingState} : p.transition id next = (q, .ok ()) ↔
      ∃ old new, p.state id = some old ∧ next old = some new ∧ q = p.setState id new := by
  rcases transition_cases p id next with ⟨e, refused⟩ | ⟨old, new, before, moved, result⟩
  · refine iff_of_false (by simp [refused]) ?_
    rintro ⟨old, new, before, moved, _⟩
    simp [transition, before, moved] at refused
  · rw [result]
    constructor
    · intro same
      exact ⟨old, new, before, moved, (Prod.mk.inj same).1.symm⟩
    · rintro ⟨old', new', before', moved', rfl⟩
      obtain rfl := Option.some.inj (before.symm.trans before')
      obtain rfl := Option.some.inj (moved.symm.trans moved')
      rfl

/-- How one successful operation moves a batch. -/
inductive Moves [External] (id : ContentHash) :
    PostingOp → Option PostingState → Option PostingState → Prop
  | entered {batch : PostingBatch} {preparer : ActorId} : batch.batchId = .ok id →
      Moves id (.register batch preparer) none (some .awaitingApproval)
  | released {approver : ActorId} :
      Moves id (.release id approver) (some .awaitingApproval) (some .readyToSubmit)
  | submitted : Moves id (.beginSubmit id) (some .readyToSubmit) (some .submitting)
  | acknowledged {glRef : String} {evidence : ContentHash} :
      Moves id (.confirmPosted id glRef evidence) (some .submitting) (some (.posted glRef evidence))
  | lost : Moves id (.reportUnknown id) (some .submitting) (some .unknown)
  | found {glRef : String} {evidence : ContentHash} :
      Moves id (.resolveUnknown id (some (glRef, evidence))) (some .unknown)
        (some (.posted glRef evidence))
  | absent : Moves id (.resolveUnknown id none) (some .unknown) (some .readyToSubmit)
  | matched {readback : List ContentHash} {evidence response : ContentHash} {glRef : String} :
      Moves id (.verify id readback evidence) (some (.posted glRef response))
        (some (.verified glRef evidence))
  | differed {readback missing unexpected : List ContentHash} {evidence response : ContentHash}
      {glRef : String} : Moves id (.verify id readback evidence) (some (.posted glRef response))
        (some (.verificationFailed missing unexpected evidence))

section
variable [External]

theorem transition_moves {p : PostingProtocol} {op : PostingOp} {key : ContentHash}
    {next : PostingState → Option PostingState}
    (fits : ∀ old new, next old = some new → Moves key op (some old) (some new)) (id : ContentHash) :
    (p.transition key next).1.state id = p.state id ∨
      (p.transition key next).2 = .ok () ∧
        Moves id op (p.state id) ((p.transition key next).1.state id) := by
  rcases transition_cases p key next with ⟨e, refused⟩ | ⟨old, new, before, moved, result⟩
  · exact .inl (by rw [refused])
  · rw [result]
    by_cases same : id = key
    · subst same
      refine .inr ⟨rfl, ?_⟩
      rw [before, state_setState]
      exact fits old new moved
    · exact .inl (state_setState_other p new same)

omit [External] in
theorem transition_approvals (p : PostingProtocol) (id : ContentHash)
    (next : PostingState → Option PostingState) :
    (p.transition id next).1.approvals = p.approvals := by
  rcases transition_cases p id next with ⟨e, refused⟩ | ⟨old, new, _, _, result⟩
  · rw [refused]
  · rw [result]
    rfl

def onRelease : PostingState → Option PostingState
  | .awaitingApproval => some .readyToSubmit
  | _ => none

omit [External] in
theorem release_cases (p : PostingProtocol) (id : ContentHash) (approver : ActorId) :
    (∃ e, p.release id approver = (p, .error e)) ∨
      ∃ batch preparer, p.approvals.item id = some (batch, .asserted preparer) ∧
        preparer ≠ approver ∧ p.release id approver =
          transition ⟨⟨p.approvals.items.insert id (batch, .confirmed preparer approver)⟩, p.states⟩ id
            onRelease := by
  unfold release
  rcases Docket.move_cases p.approvals id (.unknownItem id) (DualControlState.confirm approver) with
    ⟨e, refused⟩ | ⟨batch, old, new, found, confirmed, moved⟩
  · exact .inl ⟨.dualControl e, by simp only [DualControlQueue.confirm, refused]⟩
  · cases old with
    | asserted preparer =>
      simp only [DualControlState.confirm] at confirmed
      split at confirmed
      · contradiction
      · rename_i different
        obtain rfl := Except.ok.inj confirmed
        refine .inr ⟨batch, preparer, found, different, ?_⟩
        simp only [DualControlQueue.confirm, moved]
        rfl
    | confirmed _ _ => simp [DualControlState.confirm] at confirmed
    | rejected _ _ => simp [DualControlState.confirm] at confirmed

omit [External] in
theorem release_eq_ok {p q : PostingProtocol} {id : ContentHash} {approver : ActorId}
    (released : p.release id approver = (q, .ok ())) :
    (∃ batch preparer, q.approvals.item id = some (batch, .confirmed preparer approver)) ∧
      q.state id = some .readyToSubmit := by
  rcases release_cases p id approver with ⟨e, refused⟩ | ⟨batch, preparer, _, _, result⟩
  · rw [refused] at released
    cases released
  · rw [result] at released
    obtain ⟨old, new, _, moved, rfl⟩ := transition_eq_ok.mp released
    refine ⟨⟨batch, preparer, Docket.item_insert_self ..⟩, ?_⟩
    cases old <;> simp only [onRelease, reduceCtorEq, Option.some.injEq] at moved
    subst moved
    exact state_setState ..

theorem register_eq (p : PostingProtocol) (batch : PostingBatch) (preparer : ActorId) :
    p.register batch preparer =
      (⟨p.approvals.enter batch.key batch (.asserted preparer),
        match p.state batch.key with
        | some _ => p.states
        | none => p.states.insert batch.key .awaitingApproval⟩, .ok batch.key) := by
  simp only [register, batch.batchId_eq]
  rfl

theorem submit_fresh {p : PostingProtocol} {batch : PostingBatch} {preparer approver : ActorId}
    (unknown : p.approvals.item batch.key = none) (unseen : p.state batch.key = none)
    (different : preparer ≠ approver) :
    ∃ p₁ p₂ p₃, p.register batch preparer = (p₁, .ok batch.key) ∧
      p₁.release batch.key approver = (p₂, .ok ()) ∧ p₂.beginSubmit batch.key = (p₃, .ok ()) ∧
      p₃.state batch.key = some .submitting ∧ p₃.approvals.payload batch.key = some batch := by
  let p₁ : PostingProtocol := ⟨⟨p.approvals.items.insert batch.key (batch, .asserted preparer)⟩,
    p.states.insert batch.key .awaitingApproval⟩
  let p₂ : PostingProtocol := ⟨⟨p₁.approvals.items.insert batch.key
    (batch, .confirmed preparer approver)⟩, p₁.states⟩
  have registered : p.register batch preparer = (p₁, .ok batch.key) := by
    rw [register_eq, unseen, Docket.enter, unknown]
  have awaiting : p₂.state batch.key = some .awaitingApproval := Finmap.lookup_insert p.states
  have released : p₁.release batch.key approver = (p₂.setState batch.key .readyToSubmit, .ok ()) := by
    have confirmed : DualControlQueue.confirm p₁.approvals batch.key approver =
        (p₂.approvals, .ok ()) := by
      simp [DualControlQueue.confirm, Docket.move, DualControlState.confirm, different, p₁, p₂]
    rw [release, confirmed]
    exact transition_eq_ok.mpr ⟨_, _, awaiting, rfl, rfl⟩
  have submitted : (p₂.setState batch.key .readyToSubmit).beginSubmit batch.key =
      ((p₂.setState batch.key .readyToSubmit).setState batch.key .submitting, .ok ()) :=
    transition_eq_ok.mpr ⟨_, _, state_setState .., rfl, rfl⟩
  refine ⟨p₁, _, _, registered, released, submitted, state_setState .., ?_⟩
  simp [setState, Docket.payload, p₂]

theorem register_known {p : PostingProtocol} {batch : PostingBatch} {i : PostingBatch × DualControlState}
    {s : PostingState} (item : p.approvals.item batch.key = some i)
    (here : p.state batch.key = some s) (preparer : ActorId) :
    p.register batch preparer = (p, .ok batch.key) := by
  rw [register_eq, here, Docket.enter, item]

omit [External] in
theorem release_confirmed {p : PostingProtocol} {id : ContentHash} {batch : PostingBatch}
    {preparer approver : ActorId} (item : p.approvals.item id = some (batch, .confirmed preparer approver))
    (again : ActorId) : p.release id again = (p, .error (.dualControl .invalidTransition)) := by
  simp [release, DualControlQueue.confirm, Docket.move, item, DualControlState.confirm]

theorem register_state (p : PostingProtocol) (batch : PostingBatch) (preparer : ActorId)
    (id : ContentHash) : (p.register batch preparer).1.state id =
      if id = batch.key then some ((p.state id).getD .awaitingApproval) else p.state id := by
  rw [register_eq]
  by_cases same : id = batch.key
  · subst same
    cases found : p.state batch.key with
    | none => simp [state]
    | some s => simpa [state] using found
  · cases found : p.state batch.key with
    | none => simp [state, same, Finmap.lookup_insert_of_ne _ same]
    | some s => simp [state, same]

theorem advance_moves (p : PostingProtocol) (op : PostingOp) (id : ContentHash) :
    (p.advance op).state id = p.state id ∨
      p.Succeeds op ∧ Moves id op (p.state id) ((p.advance op).state id) := by
  cases op with
  | register batch preparer =>
    simp only [advance, perform, Succeeds]
    rw [register_state, register_eq]
    split
    · rename_i same
      subst same
      cases found : p.state batch.key with
      | none => exact .inr ⟨rfl, .entered batch.batchId_eq⟩
      | some s => exact .inl rfl
    · exact .inl rfl
  | release key approver =>
    simp only [advance, perform, Succeeds]
    rcases release_cases p key approver with ⟨e, refused⟩ | ⟨batch, preparer, _, _, result⟩
    · exact .inl (by rw [refused])
    · rw [result]
      refine transition_moves (fun old new moved => ?_) id
      cases old <;> simp only [onRelease, reduceCtorEq, Option.some.injEq] at moved
      subst moved
      exact .released
  | beginSubmit key =>
    refine transition_moves (fun old new moved => ?_) id
    cases old <;> simp only [reduceCtorEq, Option.some.injEq] at moved
    subst moved
    exact .submitted
  | confirmPosted key glRef evidence =>
    refine transition_moves (fun old new moved => ?_) id
    cases old <;> simp only [reduceCtorEq, Option.some.injEq] at moved
    subst moved
    exact .acknowledged
  | reportUnknown key =>
    refine transition_moves (fun old new moved => ?_) id
    cases old <;> simp only [reduceCtorEq, Option.some.injEq] at moved
    subst moved
    exact .lost
  | resolveUnknown key found =>
    refine transition_moves (fun old new moved => ?_) id
    cases old <;> simp only [reduceCtorEq] at moved
    rcases found with _ | ⟨glRef, evidence⟩
    · obtain rfl := Option.some.inj moved
      exact .absent
    · obtain rfl := Option.some.inj moved
      exact .found
  | verify key readback evidence =>
    simp only [advance, perform, Succeeds, verify]
    cases p.approvals.payload key with
    | none => exact .inl rfl
    | some batch =>
      simp only [batch.entryFingerprint_eq]
      refine transition_moves (fun old new moved => ?_) id
      cases old <;> simp only [reduceCtorEq, Option.some.injEq] at moved
      subst moved
      by_cases same : ∀ h, h ∈ PostingBatch.fingerprint batch.hashes ↔ h ∈ readback
      · rw [compare_same _ _ same]
        exact .matched
      · obtain ⟨missing, unexpected, failed⟩ := compare_differ evidence _ same
        rw [failed]
        exact .differed

def registrant (id : ContentHash) : PostingOp → Option ActorId
  | .register batch preparer => if batch.batchId = .ok id then some preparer else none
  | _ => none

def firstRegistrant (id : ContentHash) (ops : List PostingOp) : Option ActorId :=
  ops.findSome? (registrant id)

omit [External] in
/-- How the first registrant, the approval and the posting state of a batch fit together. -/
inductive Paired : Option ActorId → Option DualControlState → Option PostingState → Prop
  | unseen : Paired none none none
  | awaiting (preparer : ActorId) :
      Paired (some preparer) (some (.asserted preparer)) (some .awaitingApproval)
  | approved {preparer approver : ActorId} {s : PostingState} : approver ≠ preparer →
      s ≠ .awaitingApproval → Paired (some preparer) (some (.confirmed preparer approver)) (some s)

/-- The two machines agree on every batch, and on who has registered it. -/
def Agrees (ops : List PostingOp) (p : PostingProtocol) : Prop :=
  ∀ id, Paired (firstRegistrant id ops) (p.approval id) (p.state id)

/-- Only registering and releasing concern the approval. -/
def Approves : PostingOp → Prop
  | .register .. | .release .. => True
  | _ => False

theorem advance_approvals (p : PostingProtocol) {op : PostingOp} (other : ¬Approves op) :
    (p.advance op).approvals = p.approvals := by
  cases op with
  | register => exact absurd trivial other
  | release => exact absurd trivial other
  | verify key readback evidence =>
    simp only [advance, perform, verify]
    cases p.approvals.payload key with
    | none => rfl
    | some batch =>
      simp only [batch.entryFingerprint_eq]
      exact transition_approvals ..
  | _ => exact transition_approvals ..

omit [External] in
theorem Paired.later {r : Option ActorId} {a : Option DualControlState} {s t : PostingState}
    (paired : Paired r a (some s)) (released : s ≠ .awaitingApproval)
    (released' : t ≠ .awaitingApproval) : Paired r a (some t) := by
  cases paired with
  | awaiting => exact absurd rfl released
  | approved different _ => exact .approved different released'

theorem Paired.moved {r : Option ActorId} {a : Option DualControlState} {id : ContentHash}
    {op : PostingOp} {s t : Option PostingState} (paired : Paired r a s) (moves : Moves id op s t)
    (other : ¬Approves op) : Paired r a t := by
  cases moves with
  | entered => exact absurd trivial other
  | released => exact absurd trivial other
  | _ => exact paired.later (by simp) (by simp)

section
omit [External]
variable {r : Option ActorId} {a : Option DualControlState} {s : Option PostingState}

theorem Paired.same_keys (paired : Paired r a s) : s.isSome ↔ a.isSome := by
  cases paired <;> simp

theorem Paired.awaiting_iff (paired : Paired r a s) :
    s = some .awaitingApproval ↔ ∃ preparer, a = some (.asserted preparer) := by
  cases paired with
  | unseen => simp
  | awaiting => simp
  | approved _ released => simp [released]

theorem Paired.confirmed {t : PostingState} (paired : Paired r a (some t))
    (released : t ≠ .awaitingApproval) : ∃ preparer approver,
      a = some (.confirmed preparer approver) ∧ r = some preparer ∧ approver ≠ preparer := by
  cases paired with
  | awaiting => exact absurd rfl released
  | approved different _ => exact ⟨_, _, rfl, rfl, different⟩

end

theorem firstRegistrant_append (id : ContentHash) (ops : List PostingOp) (op : PostingOp) :
    firstRegistrant id (ops ++ [op]) = (firstRegistrant id ops).or (registrant id op) := by
  simp only [firstRegistrant, List.findSome?_append, List.findSome?_singleton]

section
variable {ops : List PostingOp} {p : PostingProtocol}

theorem Agrees.release_cases (agrees : Agrees ops p) (id : ContentHash) (approver : ActorId) :
    (∃ e, p.release id approver = (p, .error e)) ∨
      ∃ batch preparer, p.approvals.item id = some (batch, .asserted preparer) ∧
        preparer ≠ approver ∧ p.release id approver =
          (setState ⟨⟨p.approvals.items.insert id (batch, .confirmed preparer approver)⟩, p.states⟩ id
            .readyToSubmit, .ok ()) := by
  rcases PostingProtocol.release_cases p id approver with
    refused | ⟨batch, preparer, found, different, result⟩
  · exact .inl refused
  · have paired := agrees id
    have asserted : p.approval id = some (.asserted preparer) := by
      simp [approval, Docket.state, found]
    rw [asserted] at paired
    have awaiting := paired.awaiting_iff.mpr ⟨preparer, rfl⟩
    refine .inr ⟨batch, preparer, found, different, ?_⟩
    rw [result, transition]
    simp only [state] at awaiting ⊢
    simp only [awaiting, onRelease]

theorem Agrees.refused (agrees : Agrees ops p) {op : PostingOp} {e : PostingError}
    (fails : (p.perform op).2 = .error e) : p.advance op = p := by
  have transition_refused {key : ContentHash} {next : PostingState → Option PostingState}
      (fails : (p.transition key next).2 = .error e) : (p.transition key next).1 = p := by
    rcases transition_cases p key next with ⟨_, refused⟩ | ⟨_, _, _, _, result⟩
    · rw [refused]
    · rw [result] at fails
      cases fails
  cases op with
  | register batch preparer =>
    simp only [perform, register_eq] at fails
    cases fails
  | release key approver =>
    simp only [perform, advance] at fails ⊢
    rcases agrees.release_cases key approver with ⟨_, refused⟩ | ⟨_, _, _, _, result⟩
    · rw [refused]
    · rw [result] at fails
      cases fails
  | verify key readback evidence =>
    simp only [perform, advance, verify] at fails ⊢
    cases found : p.approvals.payload key with
    | none => rfl
    | some batch =>
      simp only [found, batch.entryFingerprint_eq] at fails ⊢
      exact transition_refused fails
  | _ => exact transition_refused fails

theorem register_approval (p : PostingProtocol) (batch : PostingBatch) (preparer : ActorId)
    (id : ContentHash) : (p.register batch preparer).1.approval id =
      if id = batch.key then some ((p.approval id).getD (.asserted preparer)) else p.approval id := by
  rw [register_eq]
  unfold approval Docket.state
  by_cases same : id = batch.key
  · subst same
    rw [Docket.item_enter_self, if_pos rfl]
    cases p.approvals.item batch.key <;> rfl
  · rw [Docket.item_enter_other _ _ _ same, if_neg same]

theorem Agrees.register (agrees : Agrees ops p) (batch : PostingBatch) (preparer : ActorId) :
    Agrees (ops ++ [.register batch preparer]) (p.advance (.register batch preparer)) := by
  intro id
  have before := agrees id
  have approvals := register_approval p batch preparer id
  have states := register_state p batch preparer id
  simp only [firstRegistrant_append, registrant, batch.batchId_eq, Except.ok.injEq, advance, perform,
    approvals, states, @eq_comm _ batch.key id]
  split
  · generalize firstRegistrant id ops = r at before ⊢
    generalize p.approval id = a at before ⊢
    generalize p.state id = s at before ⊢
    cases before with
    | unseen => exact .awaiting preparer
    | awaiting q => exact .awaiting q
    | approved different released => exact .approved different released
  · rw [Option.or_none]
    exact before

theorem Agrees.release (agrees : Agrees ops p) (key : ContentHash) (approver : ActorId) :
    Agrees (ops ++ [.release key approver]) (p.advance (.release key approver)) := by
  intro id
  have before := agrees id
  have unregistered : registrant id (.release key approver) = none := rfl
  rw [firstRegistrant_append, unregistered, Option.or_none]
  simp only [advance, perform]
  rcases agrees.release_cases key approver with ⟨e, refused⟩ | ⟨batch, preparer, found, different, result⟩
  · rw [refused]
    exact before
  · rw [result, approval_setState]
    by_cases same : id = key
    · subst same
      have confirmed : approval ⟨⟨p.approvals.items.insert id
          (batch, .confirmed preparer approver)⟩, p.states⟩ id = some (.confirmed preparer approver) := by
        simp [approval, Docket.state]
      have asserted : p.approval id = some (.asserted preparer) := by
        simp [approval, Docket.state, found]
      rw [state_setState, confirmed]
      rw [asserted] at before
      generalize firstRegistrant id ops = r at before ⊢
      generalize p.state id = s at before
      cases before with
      | awaiting => exact .approved (Ne.symm different) (by simp)
    · have kept : approval ⟨⟨p.approvals.items.insert key
          (batch, .confirmed preparer approver)⟩, p.states⟩ id = p.approval id := by
        simp only [approval, Docket.state, Docket.item_insert, same, if_false]
      rw [state_setState_other _ _ same, kept]
      exact before

theorem Agrees.advance (agrees : Agrees ops p) (op : PostingOp) :
    Agrees (ops ++ [op]) (p.advance op) := by
  by_cases approves : Approves op
  · cases op with
    | register batch preparer => exact agrees.register batch preparer
    | release key approver => exact agrees.release key approver
    | _ => exact approves.elim
  · intro id
    have unregistered : registrant id op = none := by
      cases op <;> first | rfl | exact absurd trivial approves
    have kept : (p.advance op).approval id = p.approval id := by
      rw [approval, advance_approvals p approves, approval]
    rw [firstRegistrant_append, unregistered, Option.or_none, kept]
    rcases advance_moves p op id with same | ⟨_, moves⟩
    · rw [same]
      exact agrees id
    · exact (agrees id).moved moves approves

end

theorem agrees_run (ops : List PostingOp) : Agrees ops (run advance new ops) := by
  induction ops using List.reverseRecOn with
  | nil => exact fun id => .unseen
  | append_singleton ops op ih =>
    rw [run_append, run, run]
    exact ih.advance op

/-- The ledger has the batch, whatever reading it back has shown. -/
def IsPosted : PostingState → Prop
  | .posted .. | .verified .. | .verificationFailed .. => True
  | _ => False

def IsFinal : PostingState → Prop
  | .verified .. | .verificationFailed .. => True
  | _ => False

theorem Moves.stays_posted {id : ContentHash} {op : PostingOp} {s : PostingState}
    {t : Option PostingState} (moves : Moves id op (some s) t) (posted : IsPosted s) :
    ∃ next, t = some next ∧ IsPosted next := by
  cases moves with
  | matched => exact ⟨_, rfl, trivial⟩
  | differed => exact ⟨_, rfl, trivial⟩
  | _ => exact posted.elim

theorem Moves.not_final {id : ContentHash} {op : PostingOp} {s : PostingState}
    {t : Option PostingState} (moves : Moves id op (some s) t) : ¬IsFinal s := by
  cases moves <;> exact not_false

theorem posted_run {p : PostingProtocol} {id : ContentHash} {s : PostingState}
    (here : p.state id = some s) (posted : IsPosted s) (ops : List PostingOp) :
    ∃ t, (run advance p ops).state id = some t ∧ IsPosted t := by
  refine run_invariant advance (fun p => ∃ t, p.state id = some t ∧ IsPosted t) ?_ ops p ⟨s, here, posted⟩
  rintro p op ⟨t, now, posted⟩
  rcases advance_moves p op id with same | ⟨_, moves⟩
  · exact ⟨t, same.trans now, posted⟩
  · rw [now] at moves
    exact moves.stays_posted posted

theorem final_run {p : PostingProtocol} {id : ContentHash} {s : PostingState}
    (here : p.state id = some s) (final : IsFinal s) (ops : List PostingOp) :
    (run advance p ops).state id = some s := by
  refine run_invariant advance (fun p => p.state id = some s) ?_ ops p here
  intro p op now
  rcases advance_moves p op id with same | ⟨_, moves⟩
  · exact same.trans now
  · rw [now] at moves
    exact absurd final moves.not_final

/-- The acknowledgement of the batch was reported lost in the run. -/
def Reported (p : PostingProtocol) (id : ContentHash) (ops : List PostingOp) : Prop :=
  ∃ xs ys, ops = xs ++ .reportUnknown id :: ys ∧ (run advance p xs).Succeeds (.reportUnknown id)

/-- The acknowledgement was reported lost in the run and the batch was then proven absent. -/
def ProvenAbsent (p : PostingProtocol) (id : ContentHash) (ops : List PostingOp) : Prop :=
  ∃ xs ys zs, ops = xs ++ .reportUnknown id :: (ys ++ .resolveUnknown id none :: zs) ∧
    (run advance p xs).Succeeds (.reportUnknown id) ∧
    (run advance p (xs ++ .reportUnknown id :: ys)).Succeeds (.resolveUnknown id none)

theorem Reported.append {p : PostingProtocol} {id : ContentHash} {ops : List PostingOp}
    (h : Reported p id ops) (more : List PostingOp) : Reported p id (ops ++ more) := by
  obtain ⟨xs, ys, split, lost⟩ := h
  exact ⟨xs, ys ++ more, by simp [split], lost⟩

theorem ProvenAbsent.append {p : PostingProtocol} {id : ContentHash} {ops : List PostingOp}
    (h : ProvenAbsent p id ops) (more : List PostingOp) : ProvenAbsent p id (ops ++ more) := by
  obtain ⟨xs, ys, zs, split, lost, absent⟩ := h
  exact ⟨xs, ys, zs ++ more, by simp [split], lost, absent⟩

theorem since_submitted {p : PostingProtocol} {id : ContentHash}
    (submitting : p.state id = some .submitting) (ops : List PostingOp) :
    ∃ s, (run advance p ops).state id = some s ∧ s ≠ .awaitingApproval ∧
      (s = .unknown → Reported p id ops) ∧ (s = .readyToSubmit → ProvenAbsent p id ops) := by
  induction ops using List.reverseRecOn with
  | nil => exact ⟨.submitting, submitting, by simp, by simp, by simp⟩
  | append_singleton ops op ih =>
    obtain ⟨s, now, approved, unknown, ready⟩ := ih
    rw [run_append, run, run]
    rcases advance_moves (run advance p ops) op id with same | ⟨succeeds, moves⟩
    · exact ⟨s, same.trans now, approved, fun h => (unknown h).append _, fun h => (ready h).append _⟩
    · rw [now] at moves
      generalize ((run advance p ops).advance op).state id = t at moves ⊢
      cases moves with
      | released => exact absurd rfl approved
      | lost => exact ⟨.unknown, rfl, by simp, fun _ => ⟨ops, [], rfl, succeeds⟩, by simp⟩
      | absent =>
        obtain ⟨xs, ys, split, lost⟩ := unknown rfl
        subst split
        exact ⟨.readyToSubmit, rfl, by simp, by simp, fun _ => ⟨xs, ys, [], by simp, lost, succeeds⟩⟩
      | _ => exact ⟨_, rfl, by simp, by simp, by simp⟩

theorem succeeds_beginSubmit {p : PostingProtocol} {id : ContentHash}
    (succeeds : p.Succeeds (.beginSubmit id)) : p.state id = some .readyToSubmit ∧
      (p.advance (.beginSubmit id)).state id = some .submitting := by
  obtain ⟨old, new, before, moved, result⟩ := transition_eq_ok.mp (Prod.ext rfl succeeds)
  cases old <;> simp only [reduceCtorEq, Option.some.injEq] at moved
  subst moved
  have submitted : p.advance (.beginSubmit id) = p.setState id .submitting := result
  exact ⟨before, by rw [submitted, state_setState]⟩

/-- What the protocol guarantees of a batch in every state that operations lead to. -/
structure Safe (ops : List PostingOp) (p : PostingProtocol) (id : ContentHash) : Prop where
  same_keys : (p.state id).isSome ↔ (p.approval id).isSome
  awaiting_iff : p.state id = some .awaitingApproval ↔
    ∃ preparer, p.approval id = some (.asserted preparer)
  approved : ∀ s, p.state id = some s → s ≠ .awaitingApproval →
    ∃ preparer approver, p.approval id = some (.confirmed preparer approver) ∧
      firstRegistrant id ops = some preparer ∧ approver ≠ preparer
  /-- Between two submissions the first was reported lost, and the batch then proven absent. -/
  no_double_submit : p.Succeeds (.beginSubmit id) → ∀ later,
    (run advance (p.advance (.beginSubmit id)) later).Succeeds (.beginSubmit id) →
      ProvenAbsent (p.advance (.beginSubmit id)) id later
  stays_posted : ∀ s, p.state id = some s → IsPosted s → ∀ later,
    ∃ t, (run advance p later).state id = some t ∧ t ≠ .readyToSubmit ∧ t ≠ .submitting
  final : ∀ s, p.state id = some s → IsFinal s → ∀ later, (run advance p later).state id = some s
  /-- An operation that fails changes nothing. -/
  refused : ∀ op e, (p.perform op).2 = .error e → p.advance op = p

theorem protocol_safe (ops : List PostingOp) (id : ContentHash) :
    Safe ops (run advance new ops) id := by
  have agrees := agrees_run ops
  have paired := agrees id
  constructor
  · exact paired.same_keys
  · exact paired.awaiting_iff
  · intro s here released
    rw [here] at paired
    exact paired.confirmed released
  · intro first later second
    obtain ⟨s, now, _, _, ready⟩ := since_submitted (succeeds_beginSubmit first).2 later
    have again := (succeeds_beginSubmit second).1
    exact ready (Option.some.inj (now.symm.trans again))
  · intro s here posted later
    obtain ⟨t, now, still⟩ := posted_run here posted later
    refine ⟨t, now, ?_, ?_⟩
    · rintro rfl
      exact still
    · rintro rfl
      exact still
  · exact fun s here final later => final_run here final later
  · exact fun op e fails => agrees.refused fails

end

end PostingProtocol

end Treasury
