import Treasury.Reconcile.Rounds

/-! What holds of the proposals of every run: whom they pair, and which of them keep
their legs to themselves. -/
namespace Treasury
open Kit

namespace MatchProposal

def Mentions (p : MatchProposal) (id : LegId) : Prop := id = p.outLeg ∨ id = p.inLeg

instance (p : MatchProposal) (id : LegId) : Decidable (p.Mentions id) :=
  inferInstanceAs (Decidable (_ ∨ _))

/-- No leg is in both proposals. -/
def Apart (p q : MatchProposal) : Prop := ∀ id, p.Mentions id → ¬q.Mentions id

/-- The proposal consumes its legs. -/
def Strong (p : MatchProposal) : Prop := p.tier ≠ .probabilistic

instance (p : MatchProposal) : Decidable p.Strong := inferInstanceAs (Decidable (_ ≠ _))

end MatchProposal

namespace Matcher

/-- The proposal is one that the turn makes. -/
structure MadeBy (inflows : List TransferLeg) (t : LegTurn) (inflow : TransferLeg)
    (p : MatchProposal) : Prop where
  outLeg : p.outLeg = t.asker.legId
  inLeg : p.inLeg = inflow.legId
  inside : inflow ∈ inflows
  free : inflow.legId ∉ t.taken
  asset : inflow.amount.asset = t.asker.amount.asset
  chosen : p.Strong → t.choice = some inflow

theorem asset_of_match {config : MatcherConfig} {out inflow : TransferLeg}
    (fits : amountAndWindowMatch out inflow (expectedInflow out) config = true) :
    inflow.amount.asset = out.amount.asset := by
  cases expected : expectedInflow out with
  | none => simp [amountAndWindowMatch, expected] at fits
  | some amount =>
    have same : inflow.amount = amount := by
      by_contra different
      simp [amountAndWindowMatch, expected, different] at fits
    rw [same]
    unfold expectedInflow at expected
    split at expected
    · rw [← Option.some.inj expected]
    · rename_i fee _
      cases difference : out.amount.checkedSub fee with
      | error e => simp [difference, Except.toOption] at expected
      | ok rest =>
        rw [difference] at expected
        rw [← Option.some.inj expected]
        exact (AssetAmount.checkedSub_eq_ok.mp difference).2.1

/-- Two turns of which the second sees what the first took. -/
structure Follows (x y : LegTurn) : Prop where
  askers : x.asker.legId ≠ y.asker.legId
  taken : takes TransferLeg.legId x.taken x.choice ⊆ y.taken

theorem apart_of_legs {legs : List TransferLeg} (distinct : (legs.map TransferLeg.legId).Nodup)
    {o u i j : TransferLeg} (ho : o ∈ outflowsOf legs) (hu : u ∈ outflowsOf legs)
    (hi : i ∈ inflowsOf legs) (hj : j ∈ inflowsOf legs) {p q : MatchProposal}
    (outP : p.outLeg = o.legId) (inP : p.inLeg = i.legId) (outQ : q.outLeg = u.legId)
    (inQ : q.inLeg = j.legId) (outs : o.legId ≠ u.legId) (ins : i.legId ≠ j.legId) :
    p.Apart q := by
  have apart := outflows_apart distinct
  rintro id (rfl | rfl) (same | same)
  · exact outs (outP.symm.trans (same.trans outQ))
  · exact apart o ho j hj (outP.symm.trans (same.trans inQ))
  · exact apart u hu i hi (outQ.symm.trans (same.symm.trans inP))
  · exact ins (inP.symm.trans (same.trans inQ))

/-- A strong proposal keeps its legs from every proposal of a later turn. -/
theorem apart_of_follows {legs : List TransferLeg}
    (distinct : (legs.map TransferLeg.legId).Nodup) {x y : LegTurn} (follows : Follows x y)
    (xOut : x.asker ∈ outflowsOf legs) (yOut : y.asker ∈ outflowsOf legs) {i j : TransferLeg}
    {p q : MatchProposal} (first : MadeBy (inflowsOf legs) x i p)
    (second : MadeBy (inflowsOf legs) y j q) (strong : p.Strong) : p.Apart q := by
  have inside : i.legId ∈ y.taken := by
    apply follows.taken
    simp [first.chosen strong, takes]
  apply apart_of_legs distinct xOut yOut first.inside second.inside first.outLeg first.inLeg
    second.outLeg second.inLeg follows.askers
  exact fun same => second.free (same ▸ inside)

theorem mem_nettedBy {configHash : ContentHash} {t : LegTurn} {p : MatchProposal} :
    p ∈ nettedBy configHash t ↔ ∃ i, t.choice = some i ∧
      p = ⟨t.asker.legId, i.legId, .deterministic, .autoNet, configHash⟩ := by
  cases chosen : t.choice <;> simp [nettedBy, chosen]

theorem mem_proposedBy {config : MatcherConfig} {configHash : ContentHash}
    {inflows : List TransferLeg} {t : LegTurn} {p : MatchProposal} :
    p ∈ proposedBy config configHash inflows t ↔
      (∃ i, t.choice = some i ∧ p = ⟨t.asker.legId, i.legId, .strongCorroboration,
        disposition config t.asker, configHash⟩) ∨
      t.choice = none ∧ ∃ i ∈ candidates config inflows t.taken t.asker,
        p = ⟨t.asker.legId, i.legId, .probabilistic, .queue, configHash⟩ := by
  cases chosen : t.choice <;> simp [proposedBy, chosen, eq_comm]

theorem strong_of_netted {configHash : ContentHash} {t : LegTurn} {p : MatchProposal}
    (made : p ∈ nettedBy configHash t) : p.Strong := by
  obtain ⟨i, _, rfl⟩ := mem_nettedBy.mp made
  simp [MatchProposal.Strong]

theorem strong_of_autoNet {config : MatcherConfig} {configHash : ContentHash}
    {inflows : List TransferLeg} {t : LegTurn} {p : MatchProposal}
    (made : p ∈ proposedBy config configHash inflows t) (netted : p.disposition = .autoNet) :
    p.Strong := by
  rcases mem_proposedBy.mp made with ⟨i, _, rfl⟩ | ⟨_, i, _, rfl⟩
  · simp [MatchProposal.Strong]
  · contradiction

theorem nettedBy_made {legs : List TransferLeg} {configHash : ContentHash} {t : LegTurn}
    (h : t ∈ firstRound legs) {p : MatchProposal} (made : p ∈ nettedBy configHash t) :
    ∃ i, MadeBy (inflowsOf legs) t i p := by
  obtain ⟨i, chosen, rfl⟩ := mem_nettedBy.mp made
  have free := (turn_choice h).2.2.symm.trans chosen
  obtain ⟨inside, unused, asset⟩ := sameTransaction_free free
  exact ⟨i, rfl, rfl, inside, unused, asset, fun _ => chosen⟩

theorem proposedBy_made {legs : List TransferLeg} {config : MatcherConfig}
    {configHash : ContentHash} {t : LegTurn} (h : t ∈ secondRound config legs) {p : MatchProposal}
    (made : p ∈ proposedBy config configHash (inflowsOf legs) t) :
    ∃ i ∈ candidates config (inflowsOf legs) t.taken t.asker, MadeBy (inflowsOf legs) t i p := by
  rcases mem_proposedBy.mp made with ⟨i, chosen, rfl⟩ | ⟨_, i, candidate, rfl⟩
  · have candidate := soleCorroborated_candidate ((turn_choice h).2.2.symm.trans chosen)
    obtain ⟨inside, unused, fits⟩ := mem_candidates.mp candidate
    exact ⟨i, candidate, rfl, rfl, inside, unused, asset_of_match fits, fun _ => chosen⟩
  · obtain ⟨inside, unused, fits⟩ := mem_candidates.mp candidate
    exact ⟨i, candidate, rfl, rfl, inside, unused, asset_of_match fits, fun strong =>
      absurd rfl strong⟩

theorem firstRound_asker {legs : List TransferLeg} {t : LegTurn} (h : t ∈ firstRound legs) :
    t.asker ∈ outflowsOf legs := (turn_choice h).1

theorem secondRound_asker {legs : List TransferLeg} {config : MatcherConfig} {t : LegTurn}
    (h : t ∈ secondRound config legs) :
    ∃ u ∈ firstRound legs, u.choice = none ∧ u.asker = t.asker := by
  obtain ⟨u, hu, same⟩ := List.mem_map.mp (turn_choice h).1
  obtain ⟨inFirst, none⟩ := List.mem_filter.mp hu
  exact ⟨u, inFirst, Option.isNone_iff_eq_none.mp none, same⟩

theorem secondRound_outflow {legs : List TransferLeg} {config : MatcherConfig} {t : LegTurn}
    (h : t ∈ secondRound config legs) : t.asker ∈ outflowsOf legs := by
  obtain ⟨u, inFirst, _, same⟩ := secondRound_asker h
  exact same ▸ firstRound_asker inFirst

theorem follows_of_ordered {round : List LegTurn}
    (ids : (round.map fun t => t.asker.legId).Nodup)
    (ordered : round.Pairwise fun x y => takes TransferLeg.legId x.taken x.choice ⊆ y.taken) :
    round.Pairwise Follows :=
  ((List.pairwise_map.mp ids).and ordered).imp fun ⟨askers, taken⟩ => ⟨askers, taken⟩

section
variable {legs : List TransferLeg} (distinct : (legs.map TransferLeg.legId).Nodup)
include distinct

theorem firstRound_ids : ((firstRound legs).map fun t => t.asker.legId).Nodup := by
  have ids := outflows_distinct distinct
  rw [← @turns_asker _ _ _ _ TransferLeg.legId (sameTransaction (inflowsOf legs)) ∅
    (outflowsOf legs), List.map_map] at ids
  exact ids

theorem firstRound_follows : (firstRound legs).Pairwise Follows :=
  follows_of_ordered (firstRound_ids distinct) (turns_ordered _ _)

theorem secondRound_follows (config : MatcherConfig) : (secondRound config legs).Pairwise Follows := by
  apply follows_of_ordered _ (turns_ordered _ _)
  have ids : ((leftOver legs).map TransferLeg.legId).Nodup := by
    rw [leftOver, List.map_map]
    exact (firstRound_ids distinct).sublist (List.filter_sublist.map _)
  rw [← @turns_asker _ _ _ _ TransferLeg.legId (soleCorroborated config (inflowsOf legs))
    (allTaken TransferLeg.legId (sameTransaction (inflowsOf legs)) ∅ (outflowsOf legs))
    (leftOver legs), List.map_map] at ids
  exact ids

theorem rounds_follow {config : MatcherConfig} {x y : LegTurn} (hx : x ∈ firstRound legs)
    (chose : x.choice ≠ none) (hy : y ∈ secondRound config legs) : Follows x y := by
  refine ⟨fun same => ?_, ?_⟩
  · obtain ⟨u, hu, none, sameAsker⟩ := secondRound_asker hy
    have ids := firstRound_ids distinct
    rw [← sameAsker] at same
    rw [List.inj_on_of_nodup_map ids hx hu same] at chose
    exact chose none
  · exact (takes_subset_allTaken hx).trans (turn_choice hy).2.1

theorem strong_apart (config : MatcherConfig) (configHash : ContentHash) :
    (proposalsOf config configHash legs).Pairwise fun p q => p.Strong → p.Apart q := by
  rw [proposalsOf, List.pairwise_append, List.pairwise_flatMap, List.pairwise_flatMap]
  refine ⟨⟨?_, ?_⟩, ⟨?_, ?_⟩, ?_⟩
  · intro t _
    cases chosen : t.choice <;> simp [nettedBy, chosen]
  · apply (firstRound_follows distinct).imp_of_mem
    intro x y hx hy follows p hp q hq
    obtain ⟨i, first⟩ := nettedBy_made hx hp
    obtain ⟨j, second⟩ := nettedBy_made hy hq
    exact apart_of_follows distinct follows (firstRound_asker hx) (firstRound_asker hy) first second
  · intro t _
    cases chosen : t.choice with
    | some inflow => simp [proposedBy, chosen]
    | none =>
      simp only [proposedBy, chosen]
      exact List.pairwise_map.mpr (List.pairwise_of_forall fun _ _ strong => absurd rfl strong)
  · apply (secondRound_follows distinct config).imp_of_mem
    intro x y hx hy follows p hp q hq
    obtain ⟨i, _, first⟩ := proposedBy_made hx hp
    obtain ⟨j, _, second⟩ := proposedBy_made hy hq
    exact apart_of_follows distinct follows (secondRound_outflow hx) (secondRound_outflow hy) first
      second
  · intro p hp q hq
    obtain ⟨x, hx, hp⟩ := List.mem_flatMap.mp hp
    obtain ⟨y, hy, hq⟩ := List.mem_flatMap.mp hq
    obtain ⟨i, first⟩ := nettedBy_made hx hp
    obtain ⟨j, _, second⟩ := proposedBy_made hy hq
    intro strong
    have chose : x.choice ≠ none := by simp [first.chosen strong]
    exact apart_of_follows distinct (rounds_follow distinct hx chose hy) (firstRound_asker hx)
      (secondRound_outflow hy) first second strong

end

theorem proposal_pairs {legs : List TransferLeg} {config : MatcherConfig}
    {configHash : ContentHash} {p : MatchProposal} (h : p ∈ proposalsOf config configHash legs) :
    ∃ out ∈ legs, ∃ inflow ∈ legs, out.direction = .outflow ∧ inflow.direction = .inflow ∧
      p.outLeg = out.legId ∧ p.inLeg = inflow.legId ∧ inflow.amount.asset = out.amount.asset := by
  have pairs {t : LegTurn} {i : TransferLeg} (asks : t.asker ∈ outflowsOf legs)
      (made : MadeBy (inflowsOf legs) t i p) : ∃ out ∈ legs, ∃ inflow ∈ legs,
        out.direction = .outflow ∧ inflow.direction = .inflow ∧ p.outLeg = out.legId ∧
          p.inLeg = inflow.legId ∧ inflow.amount.asset = out.amount.asset := by
    obtain ⟨outIn, out⟩ := mem_outflowsOf.mp asks
    obtain ⟨inIn, inflow⟩ := mem_inflowsOf.mp made.inside
    exact ⟨t.asker, outIn, i, inIn, out, inflow, made.outLeg, made.inLeg, made.asset⟩
  rcases List.mem_append.mp h with h | h
  · obtain ⟨t, ht, made⟩ := List.mem_flatMap.mp h
    obtain ⟨i, made⟩ := nettedBy_made ht made
    exact pairs (firstRound_asker ht) made
  · obtain ⟨t, ht, made⟩ := List.mem_flatMap.mp h
    obtain ⟨i, _, made⟩ := proposedBy_made ht made
    exact pairs (secondRound_outflow ht) made

/-- What is netted without a human consumes its legs; what is not strong is queued. -/
theorem proposal_tiers {legs : List TransferLeg} {config : MatcherConfig}
    {configHash : ContentHash} {p : MatchProposal} (h : p ∈ proposalsOf config configHash legs)
    (netted : p.disposition = .autoNet) : p.Strong := by
  rcases List.mem_append.mp h with h | h
  · obtain ⟨t, _, made⟩ := List.mem_flatMap.mp h
    exact strong_of_netted made
  · obtain ⟨t, _, made⟩ := List.mem_flatMap.mp h
    exact strong_of_autoNet made netted

end Matcher

end Treasury
