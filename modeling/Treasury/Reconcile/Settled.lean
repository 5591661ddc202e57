import Treasury.Reconcile.Close

/-! When a leg netted without a human is in no other proposal. Tier 2 leaves the legs it
offers free, so a later outflow may still net an inflow that was already offered. -/
namespace Treasury
open Kit

/-- A leg that is netted without a human is in one proposal only. -/
def Settled (proposals : List MatchProposal) : Prop :=
  proposals.Pairwise fun p q => p.disposition = .autoNet ∨ q.disposition = .autoNet → p.Apart q

namespace Matcher

/-- In the second round, an inflow that is netted below materiality does not fit an earlier
outflow that was left without a partner. -/
def NoneOffered (config : MatcherConfig) (legs : List TransferLeg) : Prop :=
  (secondRound config legs).Pairwise fun earlier later => ∀ inflow,
    later.choice = some inflow → disposition config later.asker = .autoNet →
    amountAndWindowMatch earlier.asker inflow (expectedInflow earlier.asker) config →
    earlier.choice ≠ none

section
variable {legs : List TransferLeg} {config : MatcherConfig} {configHash : ContentHash}

theorem offered_of_weak {t : LegTurn} {p : MatchProposal}
    (made : p ∈ proposedBy config configHash (inflowsOf legs) t) (weak : ¬p.Strong) :
    t.choice = none ∧ ∃ i ∈ candidates config (inflowsOf legs) t.taken t.asker,
      p.outLeg = t.asker.legId ∧ p.inLeg = i.legId := by
  rcases mem_proposedBy.mp made with ⟨i, _, rfl⟩ | ⟨unpaired, i, candidate, rfl⟩
  · exact absurd (by simp [MatchProposal.Strong]) weak
  · exact ⟨unpaired, i, candidate, rfl, rfl⟩

theorem netted_of_autoNet {t : LegTurn} {p : MatchProposal}
    (made : p ∈ proposedBy config configHash (inflowsOf legs) t) (netted : p.disposition = .autoNet) :
    disposition config t.asker = .autoNet ∧ ∃ i, t.choice = some i ∧
      p.outLeg = t.asker.legId ∧ p.inLeg = i.legId := by
  rcases mem_proposedBy.mp made with ⟨i, chosen, rfl⟩ | ⟨_, i, _, rfl⟩
  · exact ⟨netted, i, chosen, rfl, rfl⟩
  · contradiction

theorem settled_within {t : LegTurn} :
    Settled (proposedBy config configHash (inflowsOf legs) t) := by
  cases chosen : t.choice with
  | some inflow => simp [Settled, proposedBy, chosen]
  | none =>
    simp only [Settled, proposedBy, chosen]
    apply List.pairwise_map.mpr
    apply List.pairwise_of_forall
    simp

variable (distinct : (legs.map TransferLeg.legId).Nodup)
include distinct

/-- Two turns leave the netted legs alone exactly if the later one nets nothing that the
earlier one offered. -/
theorem settled_turns {x y : LegTurn} (hx : x ∈ secondRound config legs)
    (hy : y ∈ secondRound config legs) (follows : Follows x y) :
    (∀ p ∈ proposedBy config configHash (inflowsOf legs) x,
      ∀ q ∈ proposedBy config configHash (inflowsOf legs) y,
        p.disposition = .autoNet ∨ q.disposition = .autoNet → p.Apart q) ↔
      ∀ inflow, y.choice = some inflow → disposition config y.asker = .autoNet →
        amountAndWindowMatch x.asker inflow (expectedInflow x.asker) config → x.choice ≠ none := by
  constructor
  · intro settled inflow chosen below fits unpaired
    have candidate := soleCorroborated_candidate ((turn_choice hy).2.2.symm.trans chosen)
    obtain ⟨inside, free, _⟩ := mem_candidates.mp candidate
    have freeBefore : inflow.legId ∉ x.taken := fun taken =>
      free (follows.taken (subset_takes TransferLeg.legId x.taken x.choice taken))
    have offered : ⟨x.asker.legId, inflow.legId, .probabilistic, .queue, configHash⟩ ∈
        proposedBy config configHash (inflowsOf legs) x :=
      mem_proposedBy.mpr (.inr ⟨unpaired, inflow,
        mem_candidates.mpr ⟨inside, freeBefore, fits⟩, rfl⟩)
    have netted : ⟨y.asker.legId, inflow.legId, .strongCorroboration, disposition config y.asker,
        configHash⟩ ∈ proposedBy config configHash (inflowsOf legs) y :=
      mem_proposedBy.mpr (.inl ⟨inflow, chosen, rfl⟩)
    exact settled _ offered _ netted (.inr below) inflow.legId (.inr rfl) (.inr rfl)
  · intro separate p hp q hq either
    obtain ⟨_, _, first⟩ := proposedBy_made hx hp
    obtain ⟨_, _, second⟩ := proposedBy_made hy hq
    by_cases strong : p.Strong
    · exact apart_of_follows distinct follows (secondRound_outflow hx) (secondRound_outflow hy)
        first second strong
    · have nets : q.disposition = .autoNet :=
        either.resolve_left fun netted => strong (strong_of_autoNet hp netted)
      obtain ⟨unpaired, j, candidate, outP, inP⟩ := offered_of_weak hp strong
      obtain ⟨inside, _, fits⟩ := mem_candidates.mp candidate
      obtain ⟨below, i, chosen, outQ, inQ⟩ := netted_of_autoNet hq nets
      have chosenInside := (mem_candidates.mp
        (soleCorroborated_candidate ((turn_choice hy).2.2.symm.trans chosen))).1
      apply apart_of_legs distinct (secondRound_outflow hx) (secondRound_outflow hy) inside
        chosenInside outP inP outQ inQ follows.askers
      intro same
      have sameLeg := List.inj_on_of_nodup_map distinct (mem_inflowsOf.mp inside).1
        (mem_inflowsOf.mp chosenInside).1 same
      exact separate i chosen below (sameLeg ▸ fits) unpaired

theorem settled_iff : Settled (proposalsOf config configHash legs) ↔ NoneOffered config legs := by
  have turns := secondRound_follows distinct config
  constructor
  · intro settled
    have second := (List.pairwise_append.mp settled).2.1
    apply (turns.and (List.pairwise_flatMap.mp second).2).imp_of_mem
    intro x y hx hy ⟨follows, apart⟩
    exact (settled_turns distinct hx hy follows).mp apart
  · intro separate
    have strong := strong_apart distinct config configHash
    obtain ⟨first, _, across⟩ := List.pairwise_append.mp strong
    have firstStrong (p) (h : p ∈ (firstRound legs).flatMap (nettedBy configHash)) : p.Strong := by
      obtain ⟨t, _, made⟩ := List.mem_flatMap.mp h
      exact strong_of_netted made
    apply List.pairwise_append.mpr
    refine ⟨?_, ?_, ?_⟩
    · apply first.imp_of_mem
      exact fun hp _ apart _ => apart (firstStrong _ hp)
    · apply List.pairwise_flatMap.mpr
      refine ⟨fun t _ => settled_within, ?_⟩
      apply (turns.and separate).imp_of_mem
      intro x y hx hy ⟨follows, apart⟩
      exact (settled_turns distinct hx hy follows).mpr apart
    · exact fun p hp q hq _ => across p hp q hq (firstStrong p hp)

end

end Matcher

/-- Legs of one tenant with distinct ids are always matched, and a leg netted without a human
is in one proposal only exactly if no outflow nets what was offered before. -/
theorem matchLegs_settled [External] {legs : List TransferLeg} {tenant : TenantId}
    (one : ∀ l ∈ legs, l.tenant = tenant) (distinct : (legs.map TransferLeg.legId).Nodup)
    (config : MatcherConfig) :
    ∃ outcome, matchLegs legs config = .ok outcome ∧
      (Settled outcome.proposals ↔ Matcher.NoneOffered config legs) := by
  obtain ⟨configHash, matched⟩ := Matcher.matchLegs_eq one distinct config
  exact ⟨_, matched, Matcher.settled_iff distinct⟩

theorem matchLegs_settled_sent :
    letI : External := reference
    ∃ outcome, matchLegs sentAndReceived hourlyConfig = .ok outcome ∧
      Settled outcome.proposals := by
  let _ : External := reference
  have one : ∀ l ∈ sentAndReceived, l.tenant = ⟨"acme"⟩ := by decide
  have distinct : (sentAndReceived.map TransferLeg.legId).Nodup := by decide
  obtain ⟨outcome, matched, exact⟩ := matchLegs_settled one distinct hourlyConfig
  exact ⟨outcome, matched, exact.mpr List.Pairwise.nil⟩

def twiceSent : List TransferLeg :=
  [smallMove 1 .outflow none none, smallMove 2 .inflow none (some "bc1q"),
    smallMove 3 .outflow none (some "bc1q")]

/-- The deposit is offered to the first withdrawal and netted with the second. -/
theorem offered_leg_netted :
    letI : External := reference
    ∃ outcome, matchLegs twiceSent hourlyConfig = .ok outcome ∧ ¬Settled outcome.proposals := by
  let _ : External := reference
  have one : ∀ l ∈ twiceSent, l.tenant = ⟨"acme"⟩ := by decide
  have distinct : (twiceSent.map TransferLeg.legId).Nodup := by decide
  obtain ⟨configHash, matched⟩ := Matcher.matchLegs_eq one distinct hourlyConfig
  refine ⟨_, matched, ?_⟩
  have proposals : Matcher.proposalsOf hourlyConfig configHash twiceSent =
      [⟨.filled 1, .filled 2, .probabilistic, .queue, configHash⟩,
        ⟨.filled 3, .filled 2, .strongCorroboration, .autoNet, configHash⟩] := by rfl
  simp only [proposals]
  intro settled
  have apart := (List.pairwise_cons.mp settled).1 _ List.mem_cons_self
  exact apart (.inr rfl) (.filled 2) (.inr rfl) (.inr rfl)

end Treasury
