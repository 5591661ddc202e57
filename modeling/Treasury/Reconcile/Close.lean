import Treasury.Reconcile.Proposals
import Treasury.Reference

/-! What the blockers say: every leg is blocked or proposed, and if nothing blocks the
close, then the proposals pair the outflows with the inflows one to one. -/
namespace Treasury
open Kit

def Paired (proposals : List MatchProposal) (out inflow : TransferLeg) : Prop :=
  ∃ p ∈ proposals, p.outLeg = out.legId ∧ p.inLeg = inflow.legId

/-- Every outflow has exactly one inflow, every inflow exactly one outflow, and no leg is in
two proposals. -/
structure PerfectMatching (legs : List TransferLeg) (proposals : List MatchProposal) : Prop where
  outflows : ∀ out ∈ legs, out.direction = .outflow →
    ∃! inflow, inflow ∈ legs ∧ inflow.direction = .inflow ∧ Paired proposals out inflow
  inflows : ∀ inflow ∈ legs, inflow.direction = .inflow →
    ∃! out, out ∈ legs ∧ out.direction = .outflow ∧ Paired proposals out inflow
  once : proposals.Pairwise MatchProposal.Apart

/-- The two legs of a proposal, as the matcher is given them. -/
def PairsLegs (legs : List TransferLeg) (p : MatchProposal) : Prop :=
  ∃ out ∈ legs, ∃ inflow ∈ legs, out.direction = .outflow ∧ inflow.direction = .inflow ∧
    p.outLeg = out.legId ∧ p.inLeg = inflow.legId ∧ inflow.amount.asset = out.amount.asset

theorem MatchProposal.Apart.symm {p q : MatchProposal} (h : p.Apart q) : q.Apart p :=
  fun id inQ inP => h id inP inQ

theorem eq_of_mentions {proposals : List MatchProposal}
    (once : proposals.Pairwise MatchProposal.Apart) {p q : MatchProposal} (hp : p ∈ proposals)
    (hq : q ∈ proposals) {id : LegId} (inP : p.Mentions id) (inQ : q.Mentions id) : p = q := by
  by_contra different
  have : Std.Symm MatchProposal.Apart := ⟨fun _ _ => MatchProposal.Apart.symm⟩
  exact once.forall hp hq different id inP inQ

theorem perfectMatching {legs : List TransferLeg} {proposals : List MatchProposal}
    (distinct : (legs.map TransferLeg.legId).Nodup)
    (pairs : ∀ p ∈ proposals, PairsLegs legs p)
    (covered : ∀ l ∈ legs, ∃ p ∈ proposals, p.Mentions l.legId)
    (once : proposals.Pairwise MatchProposal.Apart) : PerfectMatching legs proposals := by
  have same {l m : TransferLeg} (hl : l ∈ legs) (hm : m ∈ legs) (h : l.legId = m.legId) : l = m :=
    List.inj_on_of_nodup_map distinct hl hm h
  constructor
  · intro out inLegs isOut
    obtain ⟨p, hp, mentions⟩ := covered out inLegs
    obtain ⟨o, ho, i, hi, oOut, iIn, outLeg, inLeg, _⟩ := pairs p hp
    have outLegs : p.outLeg = out.legId := by
      rcases mentions with h | h
      · exact h.symm
      · cases same inLegs hi (h.trans inLeg)
        rw [isOut] at iIn
        contradiction
    refine ⟨i, ⟨hi, iIn, p, hp, outLegs, inLeg⟩, ?_⟩
    rintro j ⟨hj, _, q, hq, outQ, inQ⟩
    obtain rfl := eq_of_mentions once hp hq (.inl outLegs.symm) (.inl outQ.symm)
    exact same hj hi (inQ.symm.trans inLeg)
  · intro inflow inLegs isIn
    obtain ⟨p, hp, mentions⟩ := covered inflow inLegs
    obtain ⟨o, ho, i, hi, oOut, iIn, outLeg, inLeg, _⟩ := pairs p hp
    have inLegs' : p.inLeg = inflow.legId := by
      rcases mentions with h | h
      · cases same inLegs ho (h.trans outLeg)
        rw [isIn] at oOut
        contradiction
      · exact h.symm
    refine ⟨o, ⟨ho, oOut, p, hp, outLeg, inLegs'⟩, ?_⟩
    rintro j ⟨hj, _, q, hq, outQ, inQ⟩
    obtain rfl := eq_of_mentions once hp hq (.inr inLegs'.symm) (.inr inQ.symm)
    exact same hj ho (outQ.symm.trans outLeg)
  · exact once

theorem mem_unmatchedLegs {legs : List TransferLeg} {proposals : List MatchProposal}
    {l : TransferLeg} (h : l ∈ legs) :
    l.legId ∈ Matcher.unmatchedLegs legs proposals ↔ ¬∃ p ∈ proposals, p.Mentions l.legId := by
  simp only [Matcher.unmatchedLegs, mem_sortBy, List.mem_map, List.mem_filter, List.mem_flatMap,
    decide_eq_true_eq, List.mem_cons, List.not_mem_nil, or_false, MatchProposal.Mentions]
  constructor
  · rintro ⟨m, ⟨_, absent⟩, same⟩
    rwa [same] at absent
  · exact fun absent => ⟨l, ⟨h, absent⟩, rfl⟩

section
variable [External]

/-- Legs of one tenant with distinct ids are always matched. Every leg is either listed as
unmatched or in a proposal, in at most one that consumes it; every proposal pairs an outflow
and an inflow of one asset; and if the close is permitted, everything is netted one to one. -/
theorem matchLegs_close {legs : List TransferLeg} {tenant : TenantId}
    (one : ∀ l ∈ legs, l.tenant = tenant) (distinct : (legs.map TransferLeg.legId).Nodup)
    (config : MatcherConfig) :
    ∃ outcome, matchLegs legs config = .ok outcome ∧
      (∀ l ∈ legs, l.legId ∈ outcome.blockers.unmatchedLegs ↔
        ¬∃ p ∈ outcome.proposals, p.Mentions l.legId) ∧
      (outcome.proposals.Pairwise fun p q => p.Strong → q.Strong → p.Apart q) ∧
      (∀ p ∈ outcome.proposals, PairsLegs legs p) ∧
      (outcome.blockers.closePermitted → (∀ p ∈ outcome.proposals, p.disposition = .autoNet) ∧
        PerfectMatching legs outcome.proposals) := by
  obtain ⟨configHash, matched⟩ := Matcher.matchLegs_eq one distinct config
  have strong := Matcher.strong_apart distinct config configHash
  have pairs (p) (h : p ∈ Matcher.proposalsOf config configHash legs) : PairsLegs legs p :=
    Matcher.proposal_pairs h
  refine ⟨_, matched, fun l h => mem_unmatchedLegs h,
    strong.imp fun apart consumes _ => apart consumes, pairs, fun permitted => ?_⟩
  simp only [CloseBlockers.closePermitted, Bool.and_eq_true, List.isEmpty_iff, List.map_eq_nil_iff,
    List.filter_eq_nil_iff, decide_eq_true_eq] at permitted
  obtain ⟨noneUnmatched, noneQueued⟩ := permitted
  have netted (p) (h : p ∈ Matcher.proposalsOf config configHash legs) :
      p.disposition = .autoNet := by
    cases disposed : p.disposition with
    | autoNet => rfl
    | queue => exact absurd disposed (noneQueued p h)
  refine ⟨netted, perfectMatching distinct pairs (fun l h => ?_) ?_⟩
  · by_contra absent
    have listed := (mem_unmatchedLegs h).mpr absent
    rw [noneUnmatched] at listed
    contradiction
  · apply strong.imp_of_mem
    intro p q hp _ apart
    exact apart (Matcher.proposal_tiers hp (netted p hp))

end

def smallMove (id : UInt8) (direction : Direction) (txHash address : Option String) :
    TransferLeg where
  legId := .filled id
  tenant := ⟨"acme"⟩
  venue := ⟨"kraken"⟩
  direction := direction
  amount := ⟨⟨"BTC"⟩, ⟨120, by decide, by decide⟩⟩
  fee := none
  txHash := txHash
  address := address
  eventTime := ⟨0⟩

def hourlyConfig : MatcherConfig where
  timeWindowNs := ⟨3600000000000, by decide, by decide⟩
  materialityAtoms := Finmap.singleton ⟨"BTC"⟩ ⟨200, by decide, by decide⟩

def sentAndReceived : List TransferLeg :=
  [smallMove 1 .outflow (some "0xabc") none, smallMove 2 .inflow (some "0xabc") none]

theorem matchLegs_close_sent :
    letI : External := reference
    ∃ outcome, matchLegs sentAndReceived hourlyConfig = .ok outcome ∧
      PerfectMatching sentAndReceived outcome.proposals := by
  let _ : External := reference
  have one : ∀ l ∈ sentAndReceived, l.tenant = ⟨"acme"⟩ := by decide
  have distinct : (sentAndReceived.map TransferLeg.legId).Nodup := by decide
  obtain ⟨outcome, matched, _, _, _, close⟩ := matchLegs_close one distinct hourlyConfig
  obtain ⟨configHash, evaluated⟩ := Matcher.matchLegs_eq one distinct hourlyConfig
  obtain rfl := Except.ok.inj (matched.symm.trans evaluated)
  exact ⟨_, matched, (close (by rfl)).2⟩

end Treasury
