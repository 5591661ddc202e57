import Treasury.Kit.Run
import Treasury.Reconcile.Close
import Treasury.Reconcile.Designate
import Treasury.Reconcile.Queue

/-! The review of what the matcher left open: queued matches are decided and legs are
designated, in any order. Whether a leg that nobody has classified still blocks the close
depends on the rejections only. -/
namespace Treasury
open Kit

/-- The two queues in which humans decide. -/
structure Review where
  queue : ConfirmationQueue
  designations : DesignationQueue

inductive ReviewCall where
  | assertMatch (id : ContentHash) (preparer : ActorId)
  | confirm (id : ContentHash) (approver : ActorId)
  | reject (id : ContentHash) (actor : ActorId) (reason : String)
  | propose (proposal : DesignationProposal) (preparer : ActorId)
  | confirmDesignation (id : ContentHash) (approver : ActorId)
  | rejectDesignation (id : ContentHash) (actor : ActorId) (reason : String)

/-- The matcher's account of the legs: each is listed as unmatched or in a proposal. -/
structure MatchOutcome.Accounts (outcome : MatchOutcome) (legs : List TransferLeg) : Prop where
  listed : ∀ l ∈ legs, l.legId ∈ outcome.blockers.unmatchedLegs ↔
    ¬∃ p ∈ outcome.proposals, p.Mentions l.legId
  given : ∀ p ∈ outcome.proposals, ∀ leg, p.Mentions leg → ∃ l ∈ legs, l.legId = leg

namespace ConfirmationQueue

def Confirmed (q : ConfirmationQueue) (leg : LegId) : Prop :=
  ∃ id p preparer approver, q.item id = some (p, .confirmed preparer approver) ∧ p.Mentions leg

section
variable {q : ConfirmationQueue} {id : ContentHash} {p : MatchProposal} {old new : QueueState}

theorem mem_openItems_insert {key : ContentHash} :
    key ∈ openItems ⟨q.items.insert id (p, new)⟩ ↔
      key = id ∧ new.isTerminal = false ∨ key ≠ id ∧ key ∈ q.openItems := by
  simp only [mem_openItems, Docket.item_insert]
  split
  · rename_i same
    simp [same]
  · rename_i different
    simp [different]

theorem confirmed_insert (found : q.item id = some (p, old)) (undecided : old.isTerminal = false)
    {leg : LegId} (confirmed : q.Confirmed leg) :
    Confirmed ⟨q.items.insert id (p, new)⟩ leg := by
  obtain ⟨key, c, preparer, approver, decided, mentions⟩ := confirmed
  refine ⟨key, c, preparer, approver, ?_, mentions⟩
  have different : key ≠ id := by
    rintro rfl
    obtain ⟨_, rfl⟩ := Prod.mk.inj (Option.some.inj (found.symm.trans decided))
    contradiction
  rwa [Docket.item_insert, if_neg different]

theorem confirmed_of_insert_rejected {actor : ActorId} {reason : String} {leg : LegId}
    (confirmed : Confirmed ⟨q.items.insert id (p, .rejected actor reason)⟩ leg) :
    q.Confirmed leg := by
  obtain ⟨key, c, preparer, approver, decided, mentions⟩ := confirmed
  rw [Docket.item_insert] at decided
  split at decided
  · simp at decided
  · exact ⟨key, c, preparer, approver, decided, mentions⟩

end

end ConfirmationQueue

namespace DesignationQueue

theorem designated_insert {q : DesignationQueue} {id : ContentHash} {p : DesignationProposal}
    {old new : DesignationState} (found : q.item id = some (p, old))
    (undecided : old.isTerminal = false) {leg : LegId} (designated : leg ∈ q.designatedLegs) :
    leg ∈ designatedLegs ⟨q.items.insert id (p, new)⟩ := by
  obtain ⟨key, c, s, decided, confirmed, isLeg⟩ := mem_designatedLegs.mp designated
  refine mem_designatedLegs.mpr ⟨key, c, s, ?_, confirmed, isLeg⟩
  have different : key ≠ id := by
    rintro rfl
    obtain ⟨_, rfl⟩ := Prod.mk.inj (Option.some.inj (found.symm.trans decided))
    have open_ := DesignationState.not_confirmed undecided
    rw [open_] at confirmed
    contradiction
  rwa [Docket.item_insert, if_neg different]

variable [External]

theorem designated_propose {q : DesignationQueue} {proposal : DesignationProposal}
    {preparer : ActorId} {leg : LegId} (designated : leg ∈ q.designatedLegs) :
    leg ∈ (q.propose proposal preparer).1.designatedLegs := by
  unfold propose
  split
  · exact designated
  · obtain ⟨key, c, s, decided, confirmed, isLeg⟩ := mem_designatedLegs.mp designated
    exact mem_designatedLegs.mpr
      ⟨key, c, s, Docket.item_enter_of_some decided proposal _, confirmed, isLeg⟩

omit [External] in
theorem designated_confirm {q : DesignationQueue} {id : ContentHash} {approver : ActorId}
    {leg : LegId} (designated : leg ∈ q.designatedLegs) :
    leg ∈ (q.confirm id approver).1.designatedLegs := by
  unfold confirm
  rcases q.move_cases id (.unknownItem id) (DesignationState.confirm approver) with
    ⟨_, refused⟩ | ⟨p, old, new, found, moved, accepted⟩
  · rwa [refused]
  · rw [accepted]
    exact designated_insert found (DesignationState.asserted_of_confirm moved) designated

omit [External] in
theorem designated_reject {q : DesignationQueue} {id : ContentHash} {actor : ActorId}
    {reason : String} {leg : LegId} (designated : leg ∈ q.designatedLegs) :
    leg ∈ (q.reject id actor reason).1.designatedLegs := by
  unfold reject
  rcases q.move_cases id (.unknownItem id) (DesignationState.reject actor reason) with
    ⟨_, refused⟩ | ⟨p, old, new, found, moved, accepted⟩
  · rwa [refused]
  · rw [accepted]
    exact designated_insert found (DesignationState.asserted_of_reject moved) designated

end DesignationQueue

namespace Review

section
variable [External]

def step (r : Review) : ReviewCall → Review
  | .assertMatch id preparer => ⟨(r.queue.assertMatch id preparer).1, r.designations⟩
  | .confirm id approver => ⟨(r.queue.confirm id approver).1, r.designations⟩
  | .reject id actor reason => ⟨(r.queue.reject id actor reason).1, r.designations⟩
  | .propose proposal preparer => ⟨r.queue, (r.designations.propose proposal preparer).1⟩
  | .confirmDesignation id approver => ⟨r.queue, (r.designations.confirm id approver).1⟩
  | .rejectDesignation id actor reason => ⟨r.queue, (r.designations.reject id actor reason).1⟩

/-- The leg is netted without a human, confirmed as a match or designated. -/
def Classified (outcome : MatchOutcome) (r : Review) (leg : LegId) : Prop :=
  (∃ p ∈ outcome.proposals, p.disposition = .autoNet ∧ p.Mentions leg) ∨
    r.queue.Confirmed leg ∨ leg ∈ r.designations.designatedLegs

/-- The leg is unmatched or in a match that is still open. -/
def Blocking (outcome : MatchOutcome) (r : Review) (leg : LegId) : Prop :=
  leg ∈ outcome.blockers.unmatchedLegs ∨
    ∃ p ∈ outcome.proposals, p.Mentions leg ∧ p.decision ∈ r.queue.openItems

/-- Every leg that is not classified blocks the close. -/
def Complete (legs : List TransferLeg) (outcome : MatchOutcome) (r : Review) : Prop :=
  ∀ l ∈ legs, ¬r.Classified outcome l.legId → r.Blocking outcome l.legId

/-- A rejection drops no leg: what the rejected match held is classified, or it is in another
match that is open. -/
def Admits (outcome : MatchOutcome) (r : Review) : ReviewCall → Prop
  | .reject id _ _ => ∀ p s, r.queue.item id = some (p, s) → s.isTerminal = false →
      ∀ leg, p.Mentions leg → r.Classified outcome leg ∨
        ∃ q ∈ outcome.proposals, q.Mentions leg ∧ q.decision ≠ id ∧ q.decision ∈ r.queue.openItems
  | _ => True

/-- The queue holds the queued proposals, each under its decision hash. -/
structure Holds (outcome : MatchOutcome) (q : ConfirmationQueue) : Prop where
  held : ∀ p ∈ outcome.proposals, p.disposition = .queue → ∃ s, q.item p.decision = some (p, s)
  only : ∀ id p s, q.item id = some (p, s) → p ∈ outcome.proposals ∧ id = p.decision

section
variable {legs : List TransferLeg} {outcome : MatchOutcome} {r : Review}

/-- What keeps the legs classified, and the matches open whose legs are not, drops no leg. -/
theorem complete_of (complete : r.Complete legs outcome) {next : Review}
    (classified : ∀ leg, r.Classified outcome leg → next.Classified outcome leg)
    (opened : ∀ p ∈ outcome.proposals, p.decision ∈ r.queue.openItems →
      p.decision ∈ next.queue.openItems ∨ ∀ leg, p.Mentions leg → next.Classified outcome leg) :
    next.Complete legs outcome := by
  intro l inLegs unclassified
  rcases complete l inLegs fun before => unclassified (classified l.legId before) with
    unmatched | ⟨p, hp, mentions, isOpen⟩
  · exact .inl unmatched
  · rcases opened p hp isOpen with stillOpen | settled
    · exact .inr ⟨p, hp, mentions, stillOpen⟩
    · exact absurd (settled l.legId mentions) unclassified

theorem complete_designations (complete : r.Complete legs outcome) {next : DesignationQueue}
    (grown : ∀ leg ∈ r.designations.designatedLegs, leg ∈ next.designatedLegs) :
    Complete legs outcome ⟨r.queue, next⟩ := by
  apply complete_of complete
  · rintro leg (netted | confirmed | designated)
    · exact .inl netted
    · exact .inr (.inl confirmed)
    · exact .inr (.inr (grown leg designated))
  · exact fun p _ isOpen => .inl isOpen

variable {id : ContentHash} {p : MatchProposal} {old new : QueueState}

omit [External] in
theorem classified_insert (found : r.queue.item id = some (p, old))
    (undecided : old.isTerminal = false) {leg : LegId} (classified : r.Classified outcome leg) :
    Classified outcome ⟨⟨r.queue.items.insert id (p, new)⟩, r.designations⟩ leg := by
  rcases classified with netted | confirmed | designated
  · exact .inl netted
  · exact .inr (.inl (ConfirmationQueue.confirmed_insert found undecided confirmed))
  · exact .inr (.inr designated)

theorem holds_insert (holds : Holds outcome r.queue) (found : r.queue.item id = some (p, old)) :
    Holds outcome ⟨r.queue.items.insert id (p, new)⟩ := by
  constructor
  · intro c hc queued
    obtain ⟨s, foundC⟩ := holds.held c hc queued
    rw [Docket.item_insert]
    split
    · rename_i same
      rw [same, found] at foundC
      obtain ⟨rfl, _⟩ := Prod.mk.inj (Option.some.inj foundC)
      exact ⟨new, rfl⟩
    · exact ⟨s, foundC⟩
  · intro key c s foundC
    rw [Docket.item_insert] at foundC
    split at foundC
    · rename_i same
      obtain ⟨rfl, _⟩ := Prod.mk.inj (Option.some.inj foundC)
      exact same ▸ holds.only id p old found
    · exact holds.only key c s foundC

theorem holds_step (holds : Holds outcome r.queue) (call : ReviewCall) :
    Holds outcome (r.step call).queue := by
  have moved (id : ContentHash) (next : QueueState → Except QueueError QueueState) :
      Holds outcome (r.queue.move id (.unknownItem id) next).1 := by
    rcases r.queue.move_cases id (.unknownItem id) next with
      ⟨_, refused⟩ | ⟨p, old, new, found, _, accepted⟩
    · rwa [refused]
    · rw [accepted]
      exact holds_insert holds found
  cases call with
  | assertMatch id preparer => exact moved id _
  | confirm id approver => exact moved id _
  | reject id actor reason => exact moved id _
  | propose | confirmDesignation | rejectDesignation => exact holds

theorem complete_assertMatch (complete : r.Complete legs outcome) (id : ContentHash)
    (preparer : ActorId) : (r.step (.assertMatch id preparer)).Complete legs outcome := by
  simp only [step, ConfirmationQueue.assertMatch]
  rcases r.queue.move_cases id (.unknownItem id) (QueueState.assertMatch preparer) with
    ⟨_, refused⟩ | ⟨p, old, new, found, moved, accepted⟩
  · rwa [refused]
  · rw [accepted]
    obtain ⟨rfl, rfl⟩ := QueueState.assertMatch_eq_ok.mp moved
    apply complete_of complete fun leg => classified_insert found rfl
    intro c _ isOpen
    apply Or.inl
    rw [ConfirmationQueue.mem_openItems_insert]
    by_cases same : c.decision = id
    · exact .inl ⟨same, rfl⟩
    · exact .inr ⟨same, isOpen⟩

section
variable (decisions : ∀ p ∈ outcome.proposals, ∀ q ∈ outcome.proposals, p.decision = q.decision → p = q)
include decisions

theorem complete_confirm (holds : Holds outcome r.queue) (complete : r.Complete legs outcome)
    (id : ContentHash) (approver : ActorId) :
    (r.step (.confirm id approver)).Complete legs outcome := by
  simp only [step, ConfirmationQueue.confirm]
  rcases r.queue.move_cases id (.unknownItem id) (QueueState.confirm approver) with
    ⟨_, refused⟩ | ⟨p, old, new, found, moved, accepted⟩
  · rwa [refused]
  · rw [accepted]
    obtain ⟨preparer, rfl, _, rfl⟩ := QueueState.confirm_eq_ok.mp moved
    obtain ⟨inOutcome, key⟩ := holds.only id p _ found
    apply complete_of complete fun leg => classified_insert found rfl
    intro c hc isOpen
    by_cases same : c.decision = id
    · obtain rfl := decisions c hc p inOutcome (same.trans key)
      refine .inr fun leg mentions => .inr (.inl ⟨id, c, preparer, approver, ?_, mentions⟩)
      rw [Docket.item_insert, if_pos rfl]
    · exact .inl (ConfirmationQueue.mem_openItems_insert.mpr (.inr ⟨same, isOpen⟩))

theorem complete_reject (accounts : outcome.Accounts legs) (holds : Holds outcome r.queue)
    (complete : r.Complete legs outcome) (id : ContentHash) (actor : ActorId) (reason : String) :
    (r.step (.reject id actor reason)).Complete legs outcome ↔
      r.Admits outcome (.reject id actor reason) := by
  simp only [step, ConfirmationQueue.reject, Admits]
  rcases r.queue.move_cases id (.unknownItem id) (QueueState.reject actor reason) with
    ⟨_, refused⟩ | ⟨p, old, new, found, moved, accepted⟩
  · rw [refused]
    refine iff_of_true complete fun p s found undecided => ?_
    simp [Docket.move, found, QueueState.reject, undecided] at refused
  · rw [accepted]
    obtain ⟨undecided, rfl⟩ := QueueState.reject_eq_ok.mp moved
    obtain ⟨inOutcome, key⟩ := holds.only id p _ found
    constructor
    · intro after c s foundC _ leg mentions
      obtain ⟨rfl, rfl⟩ := Prod.mk.inj (Option.some.inj (found.symm.trans foundC))
      by_cases classified : r.Classified outcome leg
      · exact .inl classified
      · obtain ⟨l, inLegs, rfl⟩ := accounts.given p inOutcome leg mentions
        have unclassified : ¬Classified outcome
            ⟨⟨r.queue.items.insert id (p, .rejected actor reason)⟩, r.designations⟩ l.legId := by
          rintro (netted | confirmed | designated)
          · exact classified (.inl netted)
          · exact classified (.inr (.inl
              (ConfirmationQueue.confirmed_of_insert_rejected confirmed)))
          · exact classified (.inr (.inr designated))
        rcases after l inLegs unclassified with unmatched | ⟨q, hq, inQ, isOpen⟩
        · exact absurd ⟨p, inOutcome, mentions⟩ ((accounts.listed l inLegs).mp unmatched)
        · rcases ConfirmationQueue.mem_openItems_insert.mp isOpen with ⟨_, final⟩ | ⟨other, isOpen⟩
          · contradiction
          · exact .inr ⟨q, hq, inQ, other, isOpen⟩
    · intro admitted l inLegs unclassified
      have before : ¬r.Classified outcome l.legId := fun classified =>
        unclassified (classified_insert found undecided classified)
      rcases complete l inLegs before with unmatched | ⟨q, hq, inQ, isOpen⟩
      · exact .inl unmatched
      · by_cases same : q.decision = id
        · obtain rfl := decisions q hq p inOutcome (same.trans key)
          rcases admitted q old found undecided l.legId inQ with classified | ⟨c, hc, inC, other, isOpen⟩
          · exact absurd classified before
          · exact .inr ⟨c, hc, inC, ConfirmationQueue.mem_openItems_insert.mpr
              (.inr ⟨other, isOpen⟩)⟩
        · exact .inr ⟨q, hq, inQ, ConfirmationQueue.mem_openItems_insert.mpr
            (.inr ⟨same, isOpen⟩)⟩

theorem complete_step (accounts : outcome.Accounts legs) (holds : Holds outcome r.queue)
    (complete : r.Complete legs outcome) (call : ReviewCall) :
    (r.step call).Complete legs outcome ↔ r.Admits outcome call := by
  cases call with
  | assertMatch id preparer => exact iff_of_true (complete_assertMatch complete id preparer) trivial
  | confirm id approver =>
    exact iff_of_true (complete_confirm decisions holds complete id approver) trivial
  | reject id actor reason => exact complete_reject decisions accounts holds complete id actor reason
  | propose proposal preparer =>
    exact iff_of_true (complete_designations complete fun _ => DesignationQueue.designated_propose)
      trivial
  | confirmDesignation id approver =>
    exact iff_of_true (complete_designations complete fun _ => DesignationQueue.designated_confirm)
      trivial
  | rejectDesignation id actor reason =>
    exact iff_of_true (complete_designations complete fun _ => DesignationQueue.designated_reject)
      trivial

end

end

def opened (enqueued : List MatchProposal) (designations : DesignationQueue) : Review :=
  ⟨.enqueueAll enqueued, designations⟩

theorem opened_queue (enqueued : List MatchProposal) (designations : DesignationQueue) :
    (opened enqueued designations).queue = .enqueueAll enqueued := rfl

variable {legs : List TransferLeg} {outcome : MatchOutcome} {enqueued : List MatchProposal}

theorem opened_holds
    (decisions : ∀ p ∈ outcome.proposals, ∀ q ∈ outcome.proposals, p.decision = q.decision → p = q)
    (exactly : ∀ p, p ∈ enqueued ↔ p ∈ outcome.proposals ∧ p.disposition = .queue)
    (designations : DesignationQueue) : Holds outcome (opened enqueued designations).queue := by
  have waits {id : ContentHash} {p : MatchProposal} {s : QueueState} :=
    @ConfirmationQueue.item_enqueueAll _ enqueued (fun p hp q hq =>
      decisions p ((exactly p).mp hp).1 q ((exactly q).mp hq).1) id p s
  constructor
  · exact fun p hp queued => ⟨.pending, waits.mpr ⟨(exactly p).mpr ⟨hp, queued⟩, rfl, rfl⟩⟩
  · intro id p s found
    obtain ⟨hp, key, _⟩ := waits.mp found
    exact ⟨((exactly p).mp hp).1, key⟩

theorem opened_complete (accounts : outcome.Accounts legs)
    (decisions : ∀ p ∈ outcome.proposals, ∀ q ∈ outcome.proposals, p.decision = q.decision → p = q)
    (exactly : ∀ p, p ∈ enqueued ↔ p ∈ outcome.proposals ∧ p.disposition = .queue)
    (designations : DesignationQueue) : (opened enqueued designations).Complete legs outcome := by
  intro l inLegs unclassified
  by_cases mentioned : ∃ p ∈ outcome.proposals, p.Mentions l.legId
  · obtain ⟨p, hp, mentions⟩ := mentioned
    cases disposed : p.disposition with
    | autoNet => exact absurd (.inl ⟨p, hp, disposed, mentions⟩) unclassified
    | queue =>
      have waits := (ConfirmationQueue.item_enqueueAll fun p hp q hq =>
        decisions p ((exactly p).mp hp).1 q ((exactly q).mp hq).1).mpr
        ⟨(exactly p).mpr ⟨hp, disposed⟩, rfl, rfl⟩
      exact .inr ⟨p, hp, mentions, ConfirmationQueue.mem_openItems.mpr ⟨p, _, waits, rfl⟩⟩
  · exact .inl ((accounts.listed l inLegs).mpr mentioned)

end

end Review

section
variable [External]

theorem matchLegs_accounts {legs : List TransferLeg} {tenant : TenantId}
    (one : ∀ l ∈ legs, l.tenant = tenant) (distinct : (legs.map TransferLeg.legId).Nodup)
    {config : MatcherConfig} {outcome : MatchOutcome}
    (matched : matchLegs legs config = .ok outcome) : outcome.Accounts legs := by
  obtain ⟨configHash, evaluated⟩ := Matcher.matchLegs_eq one distinct config
  obtain rfl := Except.ok.inj (matched.symm.trans evaluated)
  constructor
  · exact fun l inLegs => mem_unmatchedLegs inLegs
  · intro p hp leg mentions
    obtain ⟨out, hout, inflow, hin, _, _, outLeg, inLeg, _⟩ := Matcher.proposal_pairs hp
    rcases mentions with rfl | rfl
    · exact ⟨out, hout, outLeg.symm⟩
    · exact ⟨inflow, hin, inLeg.symm⟩

/-- After every sequence of calls every leg that nobody has classified still blocks the
close, exactly if no rejection drops a leg. -/
theorem unclassified_block {legs : List TransferLeg} {tenant : TenantId}
    (one : ∀ l ∈ legs, l.tenant = tenant) (distinct : (legs.map TransferLeg.legId).Nodup)
    {config : MatcherConfig} {outcome : MatchOutcome}
    (matched : matchLegs legs config = .ok outcome)
    (injective : Set.InjOn sha256 {bytes | ∃ p ∈ outcome.proposals, p.bytes = bytes})
    {enqueued : List MatchProposal}
    (exactly : ∀ p, p ∈ enqueued ↔ p ∈ outcome.proposals ∧ p.disposition = .queue)
    (designations : DesignationQueue) (calls : List ReviewCall) :
    Throughout Review.step (Review.Complete legs outcome) (.opened enqueued designations) calls ↔
      Along Review.step (Review.Admits outcome) (.opened enqueued designations) calls := by
  have accounts := matchLegs_accounts one distinct matched
  have decisions (p) (hp : p ∈ outcome.proposals) (q) (hq : q ∈ outcome.proposals)
      (same : p.decision = q.decision) : p = q :=
    MatchProposal.bytes_injective (injective ⟨p, hp, rfl⟩ ⟨q, hq, rfl⟩ same)
  apply throughout_iff_along_within Review.step (Review.Admits outcome)
    (Review.Complete legs outcome) fun r => Review.Holds outcome r.queue
  · exact fun r call holds => Review.holds_step holds call
  · exact fun r call holds complete => Review.complete_step decisions accounts holds complete call
  · exact Review.opened_holds decisions exactly designations
  · exact Review.opened_complete accounts decisions exactly designations

end

def sentUnseen : List TransferLeg :=
  [smallMove 1 .outflow none none, smallMove 2 .inflow none none]

theorem sentUnseen_queued :
    letI : External := reference
    ∃ outcome p, matchLegs sentUnseen hourlyConfig = .ok outcome ∧ outcome.proposals = [p] ∧
      p.disposition = .queue ∧ outcome.blockers.unmatchedLegs = [] ∧ p.Mentions (.filled 1) := by
  let _ : External := reference
  have one : ∀ l ∈ sentUnseen, l.tenant = ⟨"acme"⟩ := by decide
  have distinct : (sentUnseen.map TransferLeg.legId).Nodup := by decide
  obtain ⟨configHash, matched⟩ := Matcher.matchLegs_eq one distinct hourlyConfig
  have proposals : Matcher.proposalsOf hourlyConfig configHash sentUnseen =
      [⟨.filled 1, .filled 2, .probabilistic, .queue, configHash⟩] := by rfl
  rw [proposals] at matched
  exact ⟨_, _, matched, rfl, rfl, rfl, .inl rfl⟩

theorem unclassified_block_confirmed :
    letI : External := reference
    ∃ outcome p, matchLegs sentUnseen hourlyConfig = .ok outcome ∧ outcome.proposals = [p] ∧
      Throughout Review.step (Review.Complete sentUnseen outcome) (.opened [p] .empty)
        [.assertMatch p.decision ⟨"alice"⟩, .confirm p.decision ⟨"bob"⟩] := by
  let _ : External := reference
  have one : ∀ l ∈ sentUnseen, l.tenant = ⟨"acme"⟩ := by decide
  have distinct : (sentUnseen.map TransferLeg.legId).Nodup := by decide
  obtain ⟨outcome, p, matched, proposals, queued, _⟩ := sentUnseen_queued
  have injective : Set.InjOn sha256 {bytes | ∃ p ∈ outcome.proposals, p.bytes = bytes} := by
    rw [proposals]
    rintro _ ⟨c, hc, rfl⟩ _ ⟨d, hd, rfl⟩ _
    rw [List.mem_singleton.mp hc, List.mem_singleton.mp hd]
  have exactly (c : MatchProposal) : c ∈ [p] ↔ c ∈ outcome.proposals ∧ c.disposition = .queue := by
    rw [proposals, List.mem_singleton]
    exact ⟨fun same => ⟨same, same ▸ queued⟩, And.left⟩
  exact ⟨outcome, p, matched, proposals, (unclassified_block one distinct matched injective exactly
    .empty _).mpr ⟨trivial, trivial, trivial⟩⟩

/-- The only match is rejected, and nothing says any more that its legs are unclassified. -/
theorem rejected_match_drops_legs :
    letI : External := reference
    ∃ outcome p, matchLegs sentUnseen hourlyConfig = .ok outcome ∧ outcome.proposals = [p] ∧
      p.disposition = .queue ∧
      ¬Throughout Review.step (Review.Complete sentUnseen outcome) (.opened [p] .empty)
        [.reject p.decision ⟨"bob"⟩ "a purchase"] := by
  let _ : External := reference
  obtain ⟨outcome, p, matched, proposals, queued, unmatched, mentions⟩ := sentUnseen_queued
  refine ⟨outcome, p, matched, proposals, queued, ?_⟩
  rintro ⟨_, after⟩
  have waits {id : ContentHash} {c : MatchProposal} {s : QueueState} :
      (Review.opened [p] .empty).queue.item id = some (c, s) ↔
        c ∈ [p] ∧ id = c.decision ∧ s = .pending := by
    rw [Review.opened_queue]
    exact ConfirmationQueue.item_enqueueAll (by simp)
  have undesignated : (Review.opened [p] .empty).designations = .empty := rfl
  generalize Review.opened [p] .empty = r at waits undesignated after
  have found : r.queue.item p.decision = some (p, .pending) :=
    waits.mpr ⟨List.mem_singleton_self p, rfl, rfl⟩
  have rejected : (r.queue.reject p.decision ⟨"bob"⟩ "a purchase").1 =
      ⟨r.queue.items.insert p.decision (p, .rejected ⟨"bob"⟩ "a purchase")⟩ := by
    simp only [ConfirmationQueue.reject, Docket.move, found]
    rfl
  simp only [Review.step, rejected] at after
  have blocking := after (smallMove 1 .outflow none none) List.mem_cons_self ?_
  · rcases blocking with listed | ⟨c, hc, _, isOpen⟩
    · rw [unmatched] at listed
      cases listed
    · rw [proposals, List.mem_singleton] at hc
      subst hc
      rcases ConfirmationQueue.mem_openItems_insert.mp isOpen with ⟨_, final⟩ | ⟨other, _⟩
      · cases final
      · exact other rfl
  · rintro (⟨c, hc, netted, _⟩ | confirmed | designated)
    · rw [proposals, List.mem_singleton] at hc
      subst hc
      cases queued.symm.trans netted
    · obtain ⟨_, _, _, _, decided, _⟩ := ConfirmationQueue.confirmed_of_insert_rejected confirmed
      obtain ⟨_, _, pending⟩ := waits.mp decided
      cases pending
    · obtain ⟨_, _, _, decided, _⟩ := DesignationQueue.mem_designatedLegs.mp designated
      simp [undesignated] at decided

end Treasury
