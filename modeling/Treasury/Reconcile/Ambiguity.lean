import Treasury.Reconcile.Close

/-! Which matches of tier 1 are ambiguous. The matcher looks at every outflow alone: it counts
the inflows that the outflow matches, and does not see that another outflow matches the same
inflow. What becomes of such a contest depends on materiality and on the order of the legs. -/
namespace Treasury
open Kit

namespace Matcher

/-- The legs match in amount minus fee, in time and in address. -/
def FullMatch (config : MatcherConfig) (out inflow : TransferLeg) : Prop :=
  amountAndWindowMatch out inflow (expectedInflow out) config ∧ addressesCorroborate out inflow

instance (config : MatcherConfig) (out inflow : TransferLeg) :
    Decidable (FullMatch config out inflow) := inferInstanceAs (Decidable (_ ∧ _))

/-- The inflows that tier 0 leaves without a partner. -/
def openInflows (legs : List TransferLeg) : List TransferLeg :=
  (inflowsOf legs).filter fun i => i.legId ∉
    allTaken TransferLeg.legId (sameTransaction (inflowsOf legs)) ∅ (outflowsOf legs)

/-- Where an inflow is the only match of an outflow and other outflows match it too, the first
is at or above materiality and the others come before it. -/
def ContestsQueued (config : MatcherConfig) (legs : List TransferLeg) : Prop :=
  ∀ o ∈ leftOver legs, ∀ i ∈ openInflows legs, FullMatch config o i →
    (∀ j ∈ openInflows legs, FullMatch config o j → j = i) →
    ∀ u ∈ leftOver legs, u ≠ o → FullMatch config u i →
      disposition config o = .queue ∧ legKey u < legKey o

instance (config : MatcherConfig) (legs : List TransferLeg) :
    Decidable (ContestsQueued config legs) := by
  unfold ContestsQueued
  infer_instance

theorem mem_corroborated {config : MatcherConfig} {inflows : List TransferLeg}
    {taken : Finset LegId} {out inflow : TransferLeg} :
    inflow ∈ corroborated config inflows taken out ↔
      inflow ∈ inflows ∧ inflow.legId ∉ taken ∧ FullMatch config out inflow := by
  rw [corroborated, List.mem_filter, mem_candidates, FullMatch, and_assoc, and_assoc]

theorem mem_openInflows {legs : List TransferLeg} {i : TransferLeg} :
    i ∈ openInflows legs ↔ i ∈ inflowsOf legs ∧ i.legId ∉
      allTaken TransferLeg.legId (sameTransaction (inflowsOf legs)) ∅ (outflowsOf legs) := by
  simp [openInflows]

theorem leftOver_sublist (legs : List TransferLeg) : (leftOver legs).Sublist (outflowsOf legs) := by
  have askers := @turns_asker _ _ _ _ TransferLeg.legId (sameTransaction (inflowsOf legs)) ∅
    (outflowsOf legs)
  conv_rhs => rw [← askers]
  exact List.filter_sublist.map _

theorem secondRound_split {config : MatcherConfig} {legs : List TransferLeg} {o : TransferLeg}
    (h : o ∈ leftOver legs) :
    ∃ before t after, secondRound config legs = before ++ t :: after ∧ t.asker = o := by
  have askers := @turns_asker _ _ _ _ TransferLeg.legId
    (soleCorroborated config (inflowsOf legs)) (allTaken TransferLeg.legId
      (sameTransaction (inflowsOf legs)) ∅ (outflowsOf legs)) (leftOver legs)
  obtain ⟨t, inRound, rfl⟩ := List.mem_map.mp (askers.symm ▸ h)
  obtain ⟨before, after, split⟩ := List.append_of_mem inRound
  exact ⟨before, t, after, split, rfl⟩

section
variable {legs : List TransferLeg} (distinct : (legs.map TransferLeg.legId).Nodup)
include distinct

theorem inflow_eq {i j : TransferLeg} (hi : i ∈ inflowsOf legs) (hj : j ∈ inflowsOf legs)
    (same : i.legId = j.legId) : i = j :=
  List.inj_on_of_nodup_map distinct (mem_inflowsOf.mp hi).1 (mem_inflowsOf.mp hj).1 same

theorem inflows_nodup : (inflowsOf legs).Nodup := by
  have ids := (sortBy_perm legKey (legs.filter fun l => l.direction = .inflow)).map
    TransferLeg.legId
  exact (ids.nodup_iff.mpr (distinct.sublist (List.filter_sublist.map _))).of_map _

theorem secondRound_ordered (config : MatcherConfig) :
    (secondRound config legs).Pairwise fun x y => legKey x.asker < legKey y.asker := by
  have sorted := sortBy_ordered legKey (legs.filter fun l => l.direction = .outflow)
  have strict : (outflowsOf legs).Pairwise fun o u => legKey o < legKey u := by
    refine (sorted.and (List.pairwise_map.mp (outflows_distinct distinct))).imp ?_
    rintro o u ⟨below, different⟩
    refine lt_of_le_of_ne below fun same => different ?_
    exact congrArg (fun k : TimestampNs ×ₗ LegId => (ofLex k).2) same
  have left := strict.sublist (leftOver_sublist legs)
  rw [← @turns_asker _ _ _ _ TransferLeg.legId (soleCorroborated config (inflowsOf legs))
    (allTaken TransferLeg.legId (sameTransaction (inflowsOf legs)) ∅ (outflowsOf legs))
    (leftOver legs), List.pairwise_map] at left
  exact left

/-- If contests are queued, no earlier turn takes an inflow that the asker matches. -/
theorem match_untaken {config : MatcherConfig} (queued : ContestsQueued config legs)
    {before after : List LegTurn} {t : LegTurn}
    (split : secondRound config legs = before ++ t :: after) {i : TransferLeg}
    (free : i ∈ openInflows legs) (fits : FullMatch config t.asker i) : i.legId ∉ t.taken := by
  induction sized : before.length using Nat.strong_induction_on
    generalizing before after t i with
  | h n ih =>
    intro taken
    rcases (mem_taken split).mp taken with start | ⟨u, earlier, b, chosen, same⟩
    · exact (mem_openInflows.mp free).2 start
    obtain ⟨first, second, rfl⟩ := List.append_of_mem earlier
    have splitU : secondRound config legs = first ++ u :: (second ++ t :: after) := by
      rw [split, List.append_assoc]
      rfl
    have inRound : u ∈ secondRound config legs := splitU ▸ by simp
    have askedLater : t ∈ secondRound config legs := split ▸ by simp
    obtain ⟨asks, grown, choice⟩ := turn_choice inRound
    have sole := soleCorroborated_eq_some.mp (choice.symm.trans chosen)
    -- the earlier asker took the inflow because it saw no other match, and there was none
    have inside : b ∈ corroborated config (inflowsOf legs) u.taken u.asker := by simp [sole]
    obtain ⟨bIn, bFree, bFits⟩ := mem_corroborated.mp inside
    obtain rfl := inflow_eq distinct bIn (mem_openInflows.mp free).1 same
    have alone : ∀ j ∈ openInflows legs, FullMatch config u.asker j → j = b := by
      intro j openJ fitsJ
      have shorter : first.length < n := by
        rw [← sized, List.length_append, List.length_cons]
        omega
      have untaken := ih first.length shorter splitU openJ fitsJ rfl
      have seen := mem_corroborated.mpr ⟨(mem_openInflows.mp openJ).1, untaken, fitsJ⟩
      rw [sole] at seen
      exact List.mem_singleton.mp seen
    have ordered := secondRound_ordered distinct config
    rw [splitU, List.pairwise_append, List.pairwise_cons] at ordered
    have below : legKey u.asker < legKey t.asker := ordered.2.1.1 t (by simp)
    have different : t.asker ≠ u.asker := fun h => absurd below (h ▸ lt_irrefl _)
    have above := (queued u.asker asks b free bFits alone t.asker (turn_choice askedLater).1
      different fits).2
    exact lt_asymm below above

end

end Matcher

/-- A leg in the direction that no proposal of tier 0 nets. -/
def OpenLeg (legs : List TransferLeg) (proposals : List MatchProposal) (d : Direction)
    (l : TransferLeg) : Prop :=
  l ∈ legs ∧ l.direction = d ∧ ∀ p ∈ proposals, p.tier = .deterministic → ¬p.Mentions l.legId

/-- The pair is proposed, and only for a human to confirm. -/
def QueuedPair (proposals : List MatchProposal) (out inflow : TransferLeg) : Prop :=
  Paired proposals out inflow ∧ ∀ p ∈ proposals, p.outLeg = out.legId → p.inLeg = inflow.legId →
    p.disposition = .queue

/-- What tier 1 nets without a human matches nothing else, and legs that compete for one leg are
queued with it. -/
structure Unambiguous (config : MatcherConfig) (legs : List TransferLeg)
    (proposals : List MatchProposal) : Prop where
  alone : ∀ p ∈ proposals, p.tier = .strongCorroboration → p.disposition = .autoNet →
    ∀ o ∈ legs, ∀ i ∈ legs, p.outLeg = o.legId → p.inLeg = i.legId →
      Matcher.FullMatch config o i ∧
      (∀ j, OpenLeg legs proposals .inflow j → Matcher.FullMatch config o j → j = i) ∧
      ∀ u, OpenLeg legs proposals .outflow u → Matcher.FullMatch config u i → u = o
  outflowsCompete : ∀ o u i, OpenLeg legs proposals .outflow o → OpenLeg legs proposals .outflow u →
    OpenLeg legs proposals .inflow i → o ≠ u → Matcher.FullMatch config o i →
    Matcher.FullMatch config u i → QueuedPair proposals o i ∧ QueuedPair proposals u i
  inflowsCompete : ∀ o i j, OpenLeg legs proposals .outflow o → OpenLeg legs proposals .inflow i →
    OpenLeg legs proposals .inflow j → i ≠ j → Matcher.FullMatch config o i →
    Matcher.FullMatch config o j → QueuedPair proposals o i ∧ QueuedPair proposals o j

namespace Matcher

variable {legs : List TransferLeg} (distinct : (legs.map TransferLeg.legId).Nodup)
  {config : MatcherConfig} {configHash : ContentHash}

theorem mem_deterministic {p : MatchProposal} :
    p ∈ proposalsOf config configHash legs ∧ p.tier = .deterministic ↔
      ∃ t ∈ firstRound legs, ∃ i, t.choice = some i ∧
        p = ⟨t.asker.legId, i.legId, .deterministic, .autoNet, configHash⟩ := by
  simp only [proposalsOf, List.mem_append, List.mem_flatMap, mem_nettedBy]
  constructor
  · rintro ⟨⟨t, inRound, made⟩ | ⟨t, _, made⟩, tier⟩
    · exact ⟨t, inRound, made⟩
    · rcases mem_proposedBy.mp made with ⟨i, _, rfl⟩ | ⟨_, i, _, rfl⟩ <;> cases tier
  · rintro ⟨t, inRound, i, chosen, rfl⟩
    exact ⟨.inl ⟨t, inRound, i, chosen, rfl⟩, rfl⟩

include distinct

theorem openLeg_outflow {o : TransferLeg} :
    OpenLeg legs (proposalsOf config configHash legs) .outflow o ↔ o ∈ leftOver legs := by
  constructor
  · rintro ⟨inLegs, out, unnetted⟩
    have ho := mem_outflowsOf.mpr ⟨inLegs, out⟩
    have askers := @turns_asker _ _ _ _ TransferLeg.legId (sameTransaction (inflowsOf legs)) ∅
      (outflowsOf legs)
    obtain ⟨t, inRound, rfl⟩ := List.mem_map.mp (askers.symm ▸ ho)
    refine List.mem_map_of_mem (List.mem_filter.mpr ⟨inRound, ?_⟩)
    rw [Option.isNone_iff_eq_none]
    by_contra chose
    obtain ⟨i, chosen⟩ := Option.ne_none_iff_exists'.mp chose
    obtain ⟨inside, tier⟩ := (@mem_deterministic legs config configHash _).mpr
      ⟨t, inRound, i, chosen, rfl⟩
    exact unnetted _ inside tier (.inl rfl)
  · intro left
    have ho := (leftOver_sublist legs).subset left
    refine ⟨(mem_outflowsOf.mp ho).1, (mem_outflowsOf.mp ho).2, fun p inside tier mentions => ?_⟩
    obtain ⟨t, inRound, i, chosen, rfl⟩ := mem_deterministic.mp ⟨inside, tier⟩
    obtain ⟨_, made⟩ := nettedBy_made inRound (mem_nettedBy.mpr ⟨i, chosen, rfl⟩)
    rcases mentions with same | same
    · obtain ⟨u, hu, rfl⟩ := List.mem_map.mp left
      obtain ⟨inFirst, none⟩ := List.mem_filter.mp hu
      have sameTurn := List.inj_on_of_nodup_map (firstRound_ids distinct) inFirst inRound same
      rw [sameTurn, chosen] at none
      cases none
    · exact outflows_apart distinct o ho _ made.inside (same.trans made.inLeg)

theorem openLeg_inflow {i : TransferLeg} :
    OpenLeg legs (proposalsOf config configHash legs) .inflow i ↔ i ∈ openInflows legs := by
  rw [mem_openInflows, mem_inflowsOf, OpenLeg, and_assoc]
  refine and_congr_right fun inLegs => and_congr_right fun inflow => ?_
  have hi := mem_inflowsOf.mpr ⟨inLegs, inflow⟩
  rw [mem_allTaken, not_or]
  constructor
  · refine fun unnetted => ⟨Finset.notMem_empty _, ?_⟩
    rintro ⟨t, inRound, b, chosen, same⟩
    obtain ⟨inside, tier⟩ := (@mem_deterministic legs config configHash _).mpr
      ⟨t, inRound, b, chosen, rfl⟩
    exact unnetted _ inside tier (.inr same.symm)
  · rintro ⟨_, unchosen⟩ p inside tier mentions
    obtain ⟨t, inRound, b, chosen, rfl⟩ := mem_deterministic.mp ⟨inside, tier⟩
    rcases mentions with same | same
    · exact outflows_apart distinct _ (firstRound_asker inRound) i hi same.symm
    · exact unchosen ⟨t, inRound, b, chosen, same.symm⟩

/-- The proposals of an outflow that tier 0 leaves are those of its turn in the second round. -/
theorem mem_proposals_of_turn {t : LegTurn} (inRound : t ∈ secondRound config legs)
    {p : MatchProposal} :
    p ∈ proposalsOf config configHash legs ∧ p.outLeg = t.asker.legId ↔
      p ∈ proposedBy config configHash (inflowsOf legs) t := by
  have asks := (turn_choice inRound).1
  constructor
  · rintro ⟨inside, out⟩
    rcases List.mem_append.mp inside with first | second
    · obtain ⟨u, inFirst, made⟩ := List.mem_flatMap.mp first
      obtain ⟨i, chosen, rfl⟩ := mem_nettedBy.mp made
      have unnetted := ((@openLeg_outflow legs distinct config configHash _).mpr asks).2.2
      exact absurd (.inl out.symm) (unnetted _ inside rfl)
    · obtain ⟨u, inSecond, made⟩ := List.mem_flatMap.mp second
      obtain ⟨i, _, by'⟩ := proposedBy_made inSecond made
      have ids : ((secondRound config legs).map fun t => t.asker.legId).Nodup :=
        List.pairwise_map.mpr ((secondRound_follows distinct config).imp Follows.askers)
      have same := List.inj_on_of_nodup_map ids inSecond inRound (by'.outLeg.symm.trans out)
      exact same ▸ made
  · intro made
    obtain ⟨i, _, by'⟩ := proposedBy_made inRound made
    exact ⟨List.mem_append_right _ (List.mem_flatMap.mpr ⟨t, inRound, made⟩), by'.outLeg⟩

theorem corroborated_at (queued : ContestsQueued config legs) {t : LegTurn}
    (inRound : t ∈ secondRound config legs) {i : TransferLeg} :
    i ∈ corroborated config (inflowsOf legs) t.taken t.asker ↔
      i ∈ openInflows legs ∧ FullMatch config t.asker i := by
  rw [mem_corroborated]
  constructor
  · rintro ⟨inside, free, fits⟩
    refine ⟨mem_openInflows.mpr ⟨inside, fun start => free ?_⟩, fits⟩
    exact (turn_choice inRound).2.1 start
  · rintro ⟨free, fits⟩
    obtain ⟨before, after, split⟩ := List.append_of_mem inRound
    exact ⟨(mem_openInflows.mp free).1, match_untaken distinct queued split free fits, fits⟩

theorem queuedPair (queued : ContestsQueued config legs) {o i : TransferLeg}
    (left : o ∈ leftOver legs) (free : i ∈ openInflows legs) (fits : FullMatch config o i)
    (contest : disposition config o = .queue ∨
      ∃ j ∈ openInflows legs, j ≠ i ∧ FullMatch config o j) :
    QueuedPair (proposalsOf config configHash legs) o i := by
  obtain ⟨before, t, after, split, rfl⟩ := @secondRound_split config _ _ left
  have inRound : t ∈ secondRound config legs := split ▸ by simp
  have seen (j : TransferLeg) := @corroborated_at legs distinct config queued t inRound j
  have choice := (turn_choice inRound).2.2
  have proposed (p : MatchProposal) :=
    @mem_proposals_of_turn legs distinct config configHash t inRound p
  cases chosen : t.choice with
  | some b =>
    have sole := soleCorroborated_eq_some.mp (choice.symm.trans chosen)
    simp only [sole, List.mem_singleton] at seen
    obtain rfl := (seen i).mpr ⟨free, fits⟩
    have human : disposition config t.asker = .queue := by
      rcases contest with human | ⟨j, openJ, other, fitsJ⟩
      · exact human
      · exact absurd ((seen j).mpr ⟨openJ, fitsJ⟩) other
    refine ⟨⟨⟨t.asker.legId, i.legId, .strongCorroboration, disposition config t.asker,
      configHash⟩, ?_, rfl, rfl⟩, fun p inside out _ => ?_⟩
    · exact ((proposed _).mpr (mem_proposedBy.mpr (.inl ⟨i, chosen, rfl⟩))).1
    · rcases mem_proposedBy.mp ((proposed p).mp ⟨inside, out⟩) with ⟨_, _, rfl⟩ | ⟨none, _⟩
      · exact human
      · cases chosen.symm.trans none
  | none =>
    have inside := (seen i).mpr ⟨free, fits⟩
    have candidate : i ∈ candidates config (inflowsOf legs) t.taken t.asker :=
      (List.mem_filter.mp inside).1
    refine ⟨⟨⟨t.asker.legId, i.legId, .probabilistic, .queue, configHash⟩, ?_, rfl, rfl⟩,
      fun p inside out _ => ?_⟩
    · exact ((proposed _).mpr (mem_proposedBy.mpr (.inr ⟨chosen, i, candidate, rfl⟩))).1
    · rcases mem_proposedBy.mp ((proposed p).mp ⟨inside, out⟩) with ⟨_, some, _⟩ | ⟨_, _, _, rfl⟩
      · cases chosen.symm.trans some
      · rfl

omit distinct in
theorem contest_of_rival (queued : ContestsQueued config legs) {o u i : TransferLeg}
    (left : o ∈ leftOver legs) (rival : u ∈ leftOver legs) (free : i ∈ openInflows legs)
    (other : u ≠ o) (fits : FullMatch config o i) (rivals : FullMatch config u i) :
    disposition config o = .queue ∨ ∃ j ∈ openInflows legs, j ≠ i ∧ FullMatch config o j := by
  by_cases second : ∃ j ∈ openInflows legs, j ≠ i ∧ FullMatch config o j
  · exact .inr second
  · refine .inl (queued o left i free fits (fun j openJ fitsJ => ?_) u rival other rivals).1
    by_contra different
    exact second ⟨j, openJ, different, fitsJ⟩

theorem unambiguous_of_queued (queued : ContestsQueued config legs) :
    Unambiguous config legs (proposalsOf config configHash legs) := by
  constructor
  · intro p inside tier netted o ho i hi out inl
    rcases List.mem_append.mp inside with first | second
    · obtain ⟨t, _, made⟩ := List.mem_flatMap.mp first
      obtain ⟨_, _, rfl⟩ := mem_nettedBy.mp made
      cases tier
    · obtain ⟨t, inRound, made⟩ := List.mem_flatMap.mp second
      rcases mem_proposedBy.mp made with ⟨b, chosen, rfl⟩ | ⟨_, _, _, rfl⟩
      · have seen (j : TransferLeg) := @corroborated_at legs distinct config queued t inRound j
        obtain ⟨left, _, choice⟩ := turn_choice inRound
        simp only [soleCorroborated_eq_some.mp (choice.symm.trans chosen), List.mem_singleton]
          at seen
        obtain ⟨free, fits⟩ := (seen b).mp rfl
        have asker := (leftOver_sublist legs).subset left
        obtain rfl := List.inj_on_of_nodup_map distinct (mem_outflowsOf.mp asker).1 ho out
        obtain rfl := List.inj_on_of_nodup_map distinct
          (mem_inflowsOf.mp (mem_openInflows.mp free).1).1 hi inl
        have alone (j) (openJ : j ∈ openInflows legs) (fitsJ : FullMatch config t.asker j) : j = b :=
          (seen j).mpr ⟨openJ, fitsJ⟩
        refine ⟨fits, fun j openJ => alone j ((openLeg_inflow distinct).mp openJ), ?_⟩
        intro u openU fitsU
        by_contra other
        have human := (queued _ left b free fits alone u ((openLeg_outflow distinct).mp openU) other
          fitsU).1
        cases human.symm.trans netted
      · cases tier
  · intro o u i openO openU openI different fits rivals
    rw [openLeg_outflow distinct] at openO openU
    rw [openLeg_inflow distinct] at openI
    constructor
    · exact queuedPair distinct queued openO openI fits
        (contest_of_rival queued openO openU openI different.symm fits rivals)
    · exact queuedPair distinct queued openU openI rivals
        (contest_of_rival queued openU openO openI different rivals fits)
  · intro o i j openO openI openJ different fits fitsJ
    rw [openLeg_outflow distinct] at openO
    rw [openLeg_inflow distinct] at openI openJ
    exact ⟨queuedPair distinct queued openO openI fits (.inr ⟨j, openJ, different.symm, fitsJ⟩),
      queuedPair distinct queued openO openJ fitsJ (.inr ⟨i, openI, different, fits⟩)⟩

theorem turn_of_paired {o i : TransferLeg} (left : o ∈ leftOver legs)
    (pair : Paired (proposalsOf config configHash legs) o i) :
    ∃ t ∈ secondRound config legs, t.asker = o ∧ i.legId ∉ t.taken := by
  obtain ⟨before, t, after, split, rfl⟩ := @secondRound_split config _ _ left
  have inRound : t ∈ secondRound config legs := split ▸ by simp
  obtain ⟨p, inside, out, inl⟩ := pair
  have made := (mem_proposals_of_turn distinct inRound).mp ⟨inside, out⟩
  obtain ⟨j, _, by'⟩ := proposedBy_made inRound made
  refine ⟨t, inRound, rfl, fun taken => by'.free ?_⟩
  exact (inl.symm.trans by'.inLeg) ▸ taken

theorem chooses_sole {t : LegTurn} (inRound : t ∈ secondRound config legs) {i : TransferLeg}
    (free : i ∈ openInflows legs) (untaken : i.legId ∉ t.taken) (fits : FullMatch config t.asker i)
    (alone : ∀ j ∈ openInflows legs, FullMatch config t.asker j → j = i) : t.choice = some i := by
  obtain ⟨_, grown, choice⟩ := turn_choice inRound
  rw [choice, soleCorroborated_eq_some, ← List.perm_singleton]
  have once : (corroborated config (inflowsOf legs) t.taken t.asker).Nodup :=
    ((inflows_nodup distinct).filter _).filter _
  refine (List.perm_ext_iff_of_nodup once (List.nodup_singleton i)).mpr fun j => ?_
  rw [mem_corroborated, List.mem_singleton]
  constructor
  · rintro ⟨inside, open', fitsJ⟩
    exact alone j (mem_openInflows.mpr ⟨inside, fun start => open' (grown start)⟩) fitsJ
  · rintro rfl
    exact ⟨(mem_openInflows.mp free).1, untaken, fits⟩

theorem queued_of_unambiguous
    (clear : Unambiguous config legs (proposalsOf config configHash legs)) :
    ContestsQueued config legs := by
  intro o left i free fits alone u rival other rivals
  obtain ⟨⟨pairO, human⟩, pairU, _⟩ := clear.outflowsCompete o u i ((openLeg_outflow distinct).mpr left)
    ((openLeg_outflow distinct).mpr rival) ((openLeg_inflow distinct).mpr free) other.symm fits rivals
  obtain ⟨t, inRound, rfl, untaken⟩ := turn_of_paired distinct left pairO
  obtain ⟨s, rivalIn, rfl, untakenS⟩ := turn_of_paired distinct rival pairU
  have chosen := chooses_sole distinct inRound free untaken fits alone
  constructor
  · obtain ⟨proposed, _⟩ := (@mem_proposals_of_turn legs distinct config configHash t inRound _).mpr
      (mem_proposedBy.mpr (.inl ⟨i, chosen, rfl⟩))
    exact human _ proposed rfl rfl
  · -- the rival had its turn before, since after this one the inflow is taken
    obtain ⟨before, after, split⟩ := List.append_of_mem inRound
    have ordered := secondRound_ordered distinct config
    have follows := secondRound_follows distinct config
    rw [split, List.pairwise_append, List.pairwise_cons] at ordered follows
    rw [split, List.mem_append, List.mem_cons] at rivalIn
    rcases rivalIn with earlier | rfl | later
    · exact ordered.2.2 s earlier t List.mem_cons_self
    · exact absurd rfl other
    · refine absurd ((follows.2.1.1 s later).taken ?_) untakenS
      simp [chosen, takes]

end Matcher

/-- Nothing ambiguous is netted exactly when every contest is one that the matcher queues. -/
theorem unambiguous_iff [External] {legs : List TransferLeg} {tenant : TenantId}
    (one : ∀ l ∈ legs, l.tenant = tenant) (distinct : (legs.map TransferLeg.legId).Nodup)
    (config : MatcherConfig) :
    ∃ outcome, matchLegs legs config = .ok outcome ∧
      (Unambiguous config legs outcome.proposals ↔ Matcher.ContestsQueued config legs) := by
  obtain ⟨configHash, matched⟩ := Matcher.matchLegs_eq one distinct config
  exact ⟨_, matched, Matcher.queued_of_unambiguous distinct,
    Matcher.unambiguous_of_queued distinct⟩

/-- One outflow, and two inflows of its amount at its address. -/
def twins : List TransferLeg :=
  [smallMove 1 .outflow none (some "bc1q"), smallMove 2 .inflow none (some "bc1q"),
    smallMove 3 .inflow none (some "bc1q")]

theorem unambiguous_twins :
    letI : External := reference
    ∃ outcome, matchLegs twins hourlyConfig = .ok outcome ∧
      Unambiguous hourlyConfig twins outcome.proposals := by
  let _ : External := reference
  have one : ∀ l ∈ twins, l.tenant = ⟨"acme"⟩ := by decide
  obtain ⟨outcome, matched, clear⟩ := unambiguous_iff one (by decide) hourlyConfig
  exact ⟨outcome, matched, clear.mpr (by decide)⟩

def rivals : List TransferLeg :=
  [smallMove 1 .outflow none (some "bc1q"), smallMove 2 .outflow none (some "bc1q"),
    smallMove 3 .inflow none (some "bc1q")]

/-- The outflow that comes first is netted with the inflow, without a human. -/
theorem rivals_netted :
    letI : External := reference
    ∃ outcome, matchLegs rivals hourlyConfig = .ok outcome ∧
      ¬Unambiguous hourlyConfig rivals outcome.proposals := by
  let _ : External := reference
  have distinct : (rivals.map TransferLeg.legId).Nodup := by decide
  have one : ∀ l ∈ rivals, l.tenant = ⟨"acme"⟩ := by decide
  obtain ⟨configHash, matched⟩ := Matcher.matchLegs_eq one distinct hourlyConfig
  refine ⟨_, matched, fun clear => ?_⟩
  have queued := Matcher.queued_of_unambiguous distinct clear
  revert queued
  decide

end Treasury
