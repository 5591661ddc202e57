import Mathlib.Algebra.Order.BigOperators.Group.List
import Mathlib.Algebra.Order.Field.Basic
import Mathlib.Data.Rat.Cast.Order
import Treasury.Reconcile.Corpus
import Treasury.Reconcile.Close
import Treasury.Reconcile.Reorder

/-! The accounts of a corpus: every proposal and every expected pair is counted once. No pair
is proposed twice, in the same round or in two, which is what the counts rest on. -/
namespace Treasury
open Kit

namespace Matcher

section
variable {legs : List TransferLeg} (distinct : (legs.map TransferLeg.legId).Nodup)
include distinct

theorem inflows_distinct : ((inflowsOf legs).map TransferLeg.legId).Nodup := by
  have perm := (sortBy_perm legKey (legs.filter fun l => l.direction = .inflow)).map
    TransferLeg.legId
  exact perm.nodup_iff.mpr (distinct.sublist (List.filter_sublist.map TransferLeg.legId))

theorem pairs_distinct (config : MatcherConfig) (configHash : ContentHash) :
    ((proposalsOf config configHash legs).map MatchProposal.pair).Nodup := by
  have apart {x y : LegTurn} {i j : TransferLeg} {p q : MatchProposal}
      (askers : x.asker.legId ≠ y.asker.legId) (first : MadeBy (inflowsOf legs) x i p)
      (second : MadeBy (inflowsOf legs) y j q) : p.pair ≠ q.pair := by
    intro same
    have outs : p.outLeg = q.outLeg := congrArg Prod.fst same
    exact askers (first.outLeg.symm.trans (outs.trans second.outLeg))
  apply List.pairwise_map.mpr
  rw [proposalsOf, List.pairwise_append, List.pairwise_flatMap, List.pairwise_flatMap]
  refine ⟨⟨?_, ?_⟩, ⟨?_, ?_⟩, ?_⟩
  · intro t _
    cases chosen : t.choice <;> simp [nettedBy, chosen]
  · apply (firstRound_follows distinct).imp_of_mem
    intro x y hx hy follows p hp q hq
    obtain ⟨i, first⟩ := nettedBy_made hx hp
    obtain ⟨j, second⟩ := nettedBy_made hy hq
    exact apart follows.askers first second
  · intro t _
    cases chosen : t.choice with
    | some inflow => simp [proposedBy, chosen]
    | none =>
      have ids : (candidates config (inflowsOf legs) t.taken t.asker).Pairwise
          fun i j => i.legId ≠ j.legId :=
        List.pairwise_map.mp ((inflows_distinct distinct).sublist (List.filter_sublist.map _))
      simp only [proposedBy, chosen]
      exact List.pairwise_map.mpr (ids.imp fun different same => different (congrArg Prod.snd same))
  · apply (secondRound_follows distinct config).imp_of_mem
    intro x y hx hy follows p hp q hq
    obtain ⟨i, _, first⟩ := proposedBy_made hx hp
    obtain ⟨j, _, second⟩ := proposedBy_made hy hq
    exact apart follows.askers first second
  · intro p hp q hq
    obtain ⟨x, hx, hp⟩ := List.mem_flatMap.mp hp
    obtain ⟨y, hy, hq⟩ := List.mem_flatMap.mp hq
    obtain ⟨i, first⟩ := nettedBy_made hx hp
    obtain ⟨j, _, second⟩ := proposedBy_made hy hq
    have chose : x.choice ≠ none := by
      simp [first.chosen (strong_of_netted hp)]
    exact apart (rounds_follow distinct hx chose hy).askers first second

/-- What is netted without a human uses up an outflow each time. -/
theorem autoNets_le (config : MatcherConfig) (configHash : ContentHash) :
    ((proposalsOf config configHash legs).filter fun p => p.disposition = .autoNet).length ≤
      legs.length := by
  have strong := strong_apart distinct config configHash
  have outs : (((proposalsOf config configHash legs).filter
      fun p => p.disposition = .autoNet).map MatchProposal.outLeg).Nodup := by
    apply List.pairwise_map.mpr
    apply (strong.filter _).imp_of_mem
    intro p q hp _ apart same
    obtain ⟨made, netted⟩ := List.mem_filter.mp hp
    exact apart (proposal_tiers made (of_decide_eq_true netted)) p.outLeg (.inl rfl) (.inl same)
  have inside : ((proposalsOf config configHash legs).filter
      fun p => p.disposition = .autoNet).map MatchProposal.outLeg ⊆ legs.map TransferLeg.legId := by
    intro id member
    obtain ⟨p, hp, rfl⟩ := List.mem_map.mp member
    obtain ⟨out, here, _, _, _, _, same, _⟩ := proposal_pairs (List.mem_filter.mp hp).1
    exact List.mem_map.mpr ⟨out, here, same.symm⟩
  simpa using (outs.subperm inside).length_le

theorem proposals_of_matched [External] {config : MatcherConfig} {outcome : MatchOutcome}
    (matched : matchLegs legs config = .ok outcome) :
    ∃ configHash, outcome.proposals = proposalsOf config configHash legs := by
  have unmixed : mixedTenants legs = false := by
    cases mixed : mixedTenants legs with
    | false => rfl
    | true => simp [matchLegs, mixed] at matched
  obtain ⟨tenant, one⟩ : ∃ tenant, ∀ l ∈ legs, l.tenant = tenant := by
    cases legs with
    | nil => exact ⟨⟨""⟩, by simp⟩
    | cons first rest =>
      exact ⟨first.tenant, fun l h => mixedTenants_eq_false.mp unmixed l h first List.mem_cons_self⟩
  obtain ⟨configHash, evaluated⟩ := matchLegs_eq one distinct config
  rw [matched] at evaluated
  exact ⟨configHash, congrArg MatchOutcome.proposals (Except.ok.inj evaluated)⟩

end

end Matcher

/-- A counter to which every element of a list adds its amount holds the sum, or the greatest
number where the sum is greater. -/
theorem counter_foldl {S α : Type} {hi : Int} (read : S → Bounded 0 hi) {amount : α → Int}
    (nonneg : ∀ a, 0 ≤ amount a) {step : S → α → S}
    (adds : ∀ s a, (read (step s a)).val = min ((read s).val + amount a) (hi - 1)) (l : List α)
    (s : S) : (read (l.foldl step s)).val = min ((read s).val + (l.map amount).sum) (hi - 1) := by
  induction l generalizing s with
  | nil =>
    have := (read s).upper
    simp only [List.foldl_nil, List.map_nil, List.sum_nil]
    omega
  | cons a l ih =>
    have rest : 0 ≤ (l.map amount).sum := List.sum_nonneg (by simpa using fun a _ => nonneg a)
    simp only [List.foldl_cons, ih, adds, List.map_cons, List.sum_cons]
    omega

theorem sum_indicator {α : Type} (q : α → Prop) [DecidablePred q] (l : List α) :
    (l.map fun a => if q a then (1 : Int) else 0).sum = l.countP q := by
  induction l with
  | nil => rfl
  | cons a l ih => by_cases holds : q a <;> simp [holds, ih, Int.add_comm]

theorem indicator_nonneg {α : Type} (q : α → Prop) [DecidablePred q] (a : α) :
    0 ≤ if q a then (1 : Int) else 0 := by
  split <;> decide

theorem countP_mem_comm {α : Type} [BEq α] [LawfulBEq α] {l m : List α} (nodupL : l.Nodup)
    (nodupM : m.Nodup) : l.countP (· ∈ m) = m.countP (· ∈ l) := by
  rw [List.countP_eq_length_filter, List.countP_eq_length_filter]
  apply List.Perm.length_eq
  apply (List.perm_ext_iff_of_nodup (nodupL.filter _) (nodupM.filter _)).mpr
  intro a
  simp [and_comm]

namespace CaseResult

/-- The counter of the proposals with one disposition that are, or are not, expected. -/
def counted (r : CaseResult) : Disposition → Bool → U64
  | .autoNet, true => r.autoTp
  | .autoNet, false => r.autoFp
  | .queue, true => r.queuedExpected
  | .queue, false => r.queuedUnexpected

def Is (expected : List (LegId × LegId)) (d : Disposition) (e : Bool) (p : MatchProposal) : Prop :=
  p.disposition = d ∧ expected.contains p.pair = e

instance (expected : List (LegId × LegId)) (d : Disposition) (e : Bool) :
    DecidablePred (Is expected d e) := fun _ => inferInstanceAs (Decidable (_ ∧ _))

theorem incremented (n : U64) :
    (n.saturatingAdd (.literal 1)).val = min (n.val + 1) (18446744073709551616 - 1) := by
  rw [Bounded.saturatingAdd_val, Bounded.literal_val (by decide) (by decide)]

theorem unchanged (n : U64) : n.val = min (n.val + 0) (18446744073709551616 - 1) := by
  have := n.upper
  omega

theorem count_counted (expected : List (LegId × LegId)) (r : CaseResult) (p : MatchProposal)
    (d : Disposition) (e : Bool) : ((r.count expected p).counted d e).val =
      min ((r.counted d e).val + (if Is expected d e p then 1 else 0))
        (18446744073709551616 - 1) := by
  by_cases here : p.pair ∈ expected <;> cases given : p.disposition <;> cases d <;> cases e <;>
    simp only [count, Is, List.contains_eq_mem, here, given, decide_true, decide_false, reduceCtorEq, and_true, and_false,
      if_true, if_false] <;>
    first | exact incremented _ | exact unchanged _

theorem count_missed (expected : List (LegId × LegId)) (r : CaseResult) (p : MatchProposal) :
    (r.count expected p).missed = r.missed := by
  unfold count
  split <;> rfl

theorem miss_missed (surfaced : List (LegId × LegId)) (r : CaseResult) (pair : LegId × LegId) :
    (r.miss surfaced pair).missed.val =
      min (r.missed.val + (if pair ∉ surfaced then 1 else 0)) (18446744073709551616 - 1) := by
  unfold miss
  by_cases shown : pair ∈ surfaced
  · simp only [shown, if_true, not_true, if_false]
    exact unchanged _
  · simp only [shown, if_false, not_false_iff, if_true]
    exact incremented _

theorem miss_counted (surfaced : List (LegId × LegId)) (r : CaseResult) (pair : LegId × LegId)
    (d : Disposition) (e : Bool) : (r.miss surfaced pair).counted d e = r.counted d e := by
  unfold miss
  split
  · rfl
  · cases d <;> cases e <;> rfl

theorem count_kinds (expected : List (LegId × LegId)) (proposals : List MatchProposal) :
    proposals.countP (Is expected .autoNet true) + proposals.countP (Is expected .autoNet false) +
      proposals.countP (Is expected .queue true) + proposals.countP (Is expected .queue false) =
        proposals.length := by
  induction proposals with
  | nil => rfl
  | cons p proposals ih =>
    by_cases here : p.pair ∈ expected <;> cases given : p.disposition <;>
      simp [Is, here, given] at ih ⊢ <;> omega

theorem count_netted (expected : List (LegId × LegId)) (proposals : List MatchProposal) :
    proposals.countP (Is expected .autoNet true) + proposals.countP (Is expected .autoNet false) =
      (proposals.filter fun p => p.disposition = .autoNet).length := by
  induction proposals with
  | nil => rfl
  | cons p proposals ih =>
    by_cases here : p.pair ∈ expected <;> cases given : p.disposition <;>
      simp [Is, here, given] at ih ⊢ <;> omega

theorem count_expected (expected : List (LegId × LegId)) (proposals : List MatchProposal) :
    proposals.countP (Is expected .autoNet true) + proposals.countP (Is expected .queue true) =
      (proposals.map MatchProposal.pair).countP (· ∈ expected) := by
  induction proposals with
  | nil => rfl
  | cons p proposals ih =>
    by_cases here : p.pair ∈ expected <;> cases given : p.disposition <;>
      simp [Is, here, given] at ih ⊢ <;> omega

theorem add_counted (totals r : CaseResult) (d : Disposition) (e : Bool) :
    (totals.add r).counted d e = (totals.counted d e).saturatingAdd (r.counted d e) := by
  cases d <;> cases e <;> rfl

end CaseResult

namespace LabeledCase

variable (c : LabeledCase) (proposals : List MatchProposal)

theorem result_counted (d : Disposition) (e : Bool) : ((c.result proposals).counted d e).val =
    min (proposals.countP (CaseResult.Is c.expected d e) : Int) (18446744073709551616 - 1) := by
  have kept (pairs : List (LegId × LegId)) (r : CaseResult) :
      (pairs.foldl (CaseResult.miss (proposals.map MatchProposal.pair)) r).counted d e =
        r.counted d e := by
    induction pairs generalizing r with
    | nil => rfl
    | cons pair pairs ih => rw [List.foldl_cons, ih, CaseResult.miss_counted]
  have zero : ((CaseResult.empty c.name).counted d e).val = 0 := by cases d <;> cases e <;> rfl
  rw [result, kept, counter_foldl (CaseResult.counted · d e) (indicator_nonneg _)
    (fun r p => CaseResult.count_counted c.expected r p d e), zero, zero_add, sum_indicator]

theorem result_missed : (c.result proposals).missed.val =
    min (c.expected.countP (· ∉ proposals.map MatchProposal.pair) : Int)
      (18446744073709551616 - 1) := by
  have kept (ps : List MatchProposal) (r : CaseResult) :
      (ps.foldl (CaseResult.count c.expected) r).missed = r.missed := by
    induction ps generalizing r with
    | nil => rfl
    | cons p ps ih => rw [List.foldl_cons, ih, CaseResult.count_missed]
  have zero : (CaseResult.empty c.name).missed.val = 0 := rfl
  rw [result, counter_foldl CaseResult.missed (indicator_nonneg _)
    (fun r pair => CaseResult.miss_missed (proposals.map MatchProposal.pair) r pair), kept, zero,
    zero_add, sum_indicator]

variable {c proposals}

theorem expected_le : c.expected.length ≤ c.expectedNets.length := by
  have shorter := (List.dedup_sublist (c.expectedNets.map ExpectedNet.pair)).length_le
  simpa [expected] using shorter

theorem count_pairs (distinct : (proposals.map MatchProposal.pair).Nodup) :
    proposals.countP (CaseResult.Is c.expected .autoNet true) +
      proposals.countP (CaseResult.Is c.expected .queue true) +
      c.expected.countP (· ∉ proposals.map MatchProposal.pair) = c.expected.length := by
  have common : (proposals.map MatchProposal.pair).countP (· ∈ c.expected) =
      c.expected.countP (· ∈ proposals.map MatchProposal.pair) :=
    countP_mem_comm distinct (List.nodup_dedup _)
  have split := List.length_eq_countP_add_countP
    (fun pair => decide (pair ∈ proposals.map MatchProposal.pair)) (l := c.expected)
  simp only [decide_eq_true_eq] at split
  rw [CaseResult.count_expected, common]
  exact split.symm

end LabeledCase

/-- The proposals on a case stand in memory together. -/
def LabeledCase.Held [External] (config : MatcherConfig) (c : LabeledCase) : Prop :=
  ∀ outcome, matchLegs c.legs config = .ok outcome → outcome.proposals.length < 2 ^ 64

/-- There are no more proposals than pairs of legs. -/
theorem LabeledCase.held_of_few [External] {config : MatcherConfig} {c : LabeledCase}
    (distinct : (c.legs.map TransferLeg.legId).Nodup) (few : c.legs.length < 2 ^ 32) :
    c.Held config := by
  intro outcome matched
  obtain ⟨configHash, made⟩ := Matcher.proposals_of_matched distinct matched
  have pairs := Matcher.pairs_distinct distinct config configHash
  have inside : outcome.proposals.map MatchProposal.pair ⊆
      (c.legs.map TransferLeg.legId) ×ˢ (c.legs.map TransferLeg.legId) := by
    intro pair member
    obtain ⟨p, hp, rfl⟩ := List.mem_map.mp member
    obtain ⟨out, outThere, inflow, inThere, _, _, same, same', _⟩ := Matcher.proposal_pairs (made ▸ hp)
    exact List.mem_product.mpr ⟨List.mem_map.mpr ⟨out, outThere, same.symm⟩,
      List.mem_map.mpr ⟨inflow, inThere, same'.symm⟩⟩
  rw [← made] at pairs
  have many := (pairs.subperm inside).length_le
  rw [List.length_map, List.length_product, List.length_map] at many
  calc outcome.proposals.length ≤ c.legs.length * c.legs.length := many
    _ < 2 ^ 32 * 2 ^ 32 := Nat.mul_lt_mul'' few few

/-- The counts of a case add up to its proposals and to its expected pairs. -/
def Accounted [External] (config : MatcherConfig) (c : LabeledCase) (r : CaseResult) : Prop :=
  ∃ outcome, matchLegs c.legs config = .ok outcome ∧
    r.autoTp.val + r.autoFp.val + r.queuedExpected.val + r.queuedUnexpected.val =
        outcome.proposals.length ∧
      r.autoTp.val + r.queuedExpected.val + r.missed.val = c.expected.length ∧
      r.autoTp.val + r.autoFp.val ≤ c.legs.length

theorem accounted [External] {config : MatcherConfig} {c : LabeledCase} {r : CaseResult}
    (evaluated : c.evaluate config = .ok r) (distinct : (c.legs.map TransferLeg.legId).Nodup)
    (held : c.Held config) (addressable : c.legs.length + c.expectedNets.length < 2 ^ 64) :
    Accounted config c r := by
  rcases matched : matchLegs c.legs config with e | outcome
  · simp [LabeledCase.evaluate, matched, Except.map] at evaluated
  · obtain ⟨configHash, made⟩ := Matcher.proposals_of_matched distinct matched
    obtain rfl : c.result outcome.proposals = r := by
      simpa [LabeledCase.evaluate, matched, Except.map] using evaluated
    have counted := c.result_counted outcome.proposals
    have missed := c.result_missed outcome.proposals
    have kinds := CaseResult.count_kinds c.expected outcome.proposals
    have netted := CaseResult.count_netted c.expected outcome.proposals
    have nets := Matcher.autoNets_le distinct config configHash
    have pairs := Matcher.pairs_distinct distinct config configHash
    rw [← made] at nets pairs
    have expected := @LabeledCase.count_pairs c outcome.proposals pairs
    have few := @LabeledCase.expected_le c
    have fits := held outcome matched
    have tp := counted .autoNet true
    have fp := counted .autoNet false
    have found := counted .queue true
    have other := counted .queue false
    refine ⟨outcome, matched, ?_⟩
    simp only [CaseResult.counted] at tp fp found other ⊢
    omega

theorem accounted_all [External] {config : MatcherConfig} {cs : List LabeledCase}
    {rs : List CaseResult} (each : List.Forall₂ (fun c r => c.evaluate config = .ok r) cs rs)
    (distinct : ∀ c ∈ cs, (c.legs.map TransferLeg.legId).Nodup)
    (held : ∀ c ∈ cs, c.Held config)
    (addressable : ∀ c ∈ cs, c.legs.length + c.expectedNets.length < 2 ^ 64) :
    List.Forall₂ (Accounted config) cs rs := by
  induction each with
  | nil => exact .nil
  | @cons c r cs rs evaluated _ ih =>
    obtain ⟨distinctHead, distinctTail⟩ := List.forall_mem_cons.mp distinct
    obtain ⟨heldHead, heldTail⟩ := List.forall_mem_cons.mp held
    obtain ⟨head, tail⟩ := List.forall_mem_cons.mp addressable
    exact .cons (accounted evaluated distinctHead heldHead head) (ih distinctTail heldTail tail)

theorem total_counted (rs : List CaseResult) (d : Disposition) (e : Bool) :
    ((rs.foldl CaseResult.add (.empty "")).counted d e).val =
      min (rs.map fun r => (r.counted d e).val).sum (2 ^ 64 - 1) := by
  have adds (totals r : CaseResult) : ((totals.add r).counted d e).val =
      min ((totals.counted d e).val + (r.counted d e).val) (18446744073709551616 - 1) := by
    rw [CaseResult.add_counted, Bounded.saturatingAdd_val]
  have zero : ((CaseResult.empty "").counted d e).val = 0 := by cases d <;> cases e <;> rfl
  rw [counter_foldl (CaseResult.counted · d e) (fun r => (r.counted d e).lower) adds, zero, zero_add]
  rfl

theorem total_missed (rs : List CaseResult) : (rs.foldl CaseResult.add (.empty "")).missed.val =
    min (rs.map fun r => r.missed.val).sum (2 ^ 64 - 1) := by
  rw [counter_foldl CaseResult.missed (fun r => r.missed.lower)
    (fun totals r => Bounded.saturatingAdd_val totals.missed r.missed)]
  exact congrArg₂ min (zero_add _) rfl

theorem sums_le [External] {config : MatcherConfig} {cs : List LabeledCase} {rs : List CaseResult}
    (each : List.Forall₂ (Accounted config) cs rs) :
    (rs.map (·.autoTp.val)).sum + (rs.map (·.autoFp.val)).sum ≤
        ((cs.map (·.legs.length)).sum : Nat) ∧
      (rs.map (·.autoTp.val)).sum + (rs.map (·.queuedExpected.val)).sum +
        (rs.map (·.missed.val)).sum ≤ ((cs.map (·.expectedNets.length)).sum : Nat) ∧
      0 ≤ (rs.map (·.autoTp.val)).sum ∧ 0 ≤ (rs.map (·.autoFp.val)).sum ∧
      0 ≤ (rs.map (·.queuedExpected.val)).sum ∧ 0 ≤ (rs.map (·.missed.val)).sum := by
  induction each with
  | nil => simp
  | @cons c r cs rs accounted _ ih =>
    obtain ⟨outcome, _, _, pairs, nets⟩ := accounted
    have few := @LabeledCase.expected_le c
    have tp := r.autoTp.lower
    have fp := r.autoFp.lower
    have found := r.queuedExpected.lower
    have missed := r.missed.lower
    simp only [List.map_cons, List.sum_cons, Nat.cast_add]
    omega

/-- The part in the whole as a rational, and one where there is nothing. -/
def portion (part rest : Int) : ℚ := if part + rest = 0 then 1 else part / (part + rest : Int)

def Ratio.value (r : Ratio) : ℚ := r.numerator.val / r.denominator.val

namespace Ratio

theorem atLeast_iff {a b : Ratio} (ha : 0 < a.denominator.val) (hb : 0 < b.denominator.val) :
    a.atLeast b ↔ b.value ≤ a.value := by
  have product (m n : U64) : (m.toU128.saturatingMul n.toU128).val = m.val * n.val := by
    apply Bounded.saturatingMul_val
    have := mul_le_mul (Int.le_sub_one_of_lt m.upper) (Int.le_sub_one_of_lt n.upper) n.lower
      (by decide)
    exact lt_of_le_of_lt this (by decide)
  have ha' : (0 : ℚ) < a.denominator.val := Int.cast_pos.mpr ha
  have hb' : (0 : ℚ) < b.denominator.val := Int.cast_pos.mpr hb
  rw [value, value, div_le_div_iff₀ hb' ha', atLeast, decide_eq_true_eq, Bounded.le_def, product,
    product]
  norm_cast

theorem share_value {part rest : U64} (fits : part.val + rest.val < 2 ^ 64) :
    (share part rest).value = portion part.val rest.val ∧ 0 < (share part rest).denominator.val := by
  have whole : (part.saturatingAdd rest).val = part.val + rest.val := by
    rw [Bounded.saturatingAdd_val]
    omega
  have nonneg := add_nonneg part.lower rest.lower
  unfold share portion
  dsimp only
  by_cases none : part.val + rest.val = 0
  · have zero : part.saturatingAdd rest = 0 := Bounded.ext_val (whole.trans none)
    simp [zero, none, value]
  · have nonzero : part.saturatingAdd rest ≠ 0 := fun same =>
      none (whole.symm.trans (congrArg Bounded.val same))
    rw [if_neg nonzero, if_neg none]
    refine ⟨by rw [value, whole], ?_⟩
    rw [whole]
    omega

end Ratio

/-- The targets as they are meant. -/
def Meets (report : CorpusReport) (targets : SloTargets) : Prop :=
  targets.minAutoPrecision.value ≤ portion report.autoTp.val report.autoFp.val ∧
    targets.minFoundRecall.value ≤
      portion (report.autoTp.val + report.queuedExpected.val) report.missed.val ∧
    report.missed.val ≤ targets.maxMissed.val

theorem sloCheck_iff {report : CorpusReport} {targets : SloTargets}
    (netted : report.autoTp.val + report.autoFp.val < 2 ^ 64)
    (expected : report.autoTp.val + report.queuedExpected.val + report.missed.val < 2 ^ 64)
    (precision : 0 < targets.minAutoPrecision.denominator.val)
    (finding : 0 < targets.minFoundRecall.denominator.val) :
    sloCheck report targets = [] ↔ Meets report targets := by
  have found : (report.autoTp.saturatingAdd report.queuedExpected).val =
      report.autoTp.val + report.queuedExpected.val := by
    have := report.missed.lower
    rw [Bounded.saturatingAdd_val]
    omega
  obtain ⟨precise, whole⟩ := @Ratio.share_value report.autoTp report.autoFp netted
  obtain ⟨recalled, all⟩ := @Ratio.share_value (report.autoTp.saturatingAdd report.queuedExpected)
    report.missed (by rw [found]; exact expected)
  rw [found] at recalled
  have first := Ratio.atLeast_iff whole precision
  have second := Ratio.atLeast_iff all finding
  rw [precise] at first
  rw [recalled] at second
  have third : ¬targets.maxMissed < report.missed ↔ report.missed.val ≤ targets.maxMissed.val := not_lt
  have passes (met : Bool) (v : SloViolation) : (if met then [] else [v]) = [] ↔ met := by
    cases met <;> simp
  simp only [sloCheck, CorpusReport.autoPrecision, CorpusReport.foundRecall, Meets, ← first, ← second,
    ← third, List.append_eq_nil_iff, ite_eq_right_iff, reduceCtorEq, imp_false, and_assoc]
  exact and_congr (passes _ _) (and_congr (passes _ _) Iff.rfl)

/-- What a report accounts for: each case is accounted for, the totals are the sums over the cases,
of which the last stops at the greatest number, and the check says whether the targets are met. -/
structure Exhaustive [External] (corpus : Corpus) (config : MatcherConfig) (report : CorpusReport) :
    Prop where
  cases : List.Forall₂ (Accounted config) corpus.cases report.perCase
  autoTp : report.autoTp.val = (report.perCase.map (·.autoTp.val)).sum
  autoFp : report.autoFp.val = (report.perCase.map (·.autoFp.val)).sum
  queuedExpected : report.queuedExpected.val = (report.perCase.map (·.queuedExpected.val)).sum
  queuedUnexpected : report.queuedUnexpected.val =
    min (report.perCase.map (·.queuedUnexpected.val)).sum (2 ^ 64 - 1)
  missed : report.missed.val = (report.perCase.map (·.missed.val)).sum
  slo : ∀ targets : SloTargets, 0 < targets.minAutoPrecision.denominator.val →
    0 < targets.minFoundRecall.denominator.val →
      (sloCheck report targets = [] ↔ Meets report targets)

theorem evaluate_exhaustive [External] {corpus : Corpus} {config : MatcherConfig}
    {report : CorpusReport} (evaluated : evaluate corpus config = .ok report)
    (distinct : ∀ c ∈ corpus.cases, (c.legs.map TransferLeg.legId).Nodup)
    (held : ∀ c ∈ corpus.cases, c.Held config) : Exhaustive corpus config report := by
  obtain ⟨corpusHash, _, rest⟩ := bind_eq_ok.mp evaluated
  obtain ⟨configHash, _, rest⟩ := bind_eq_ok.mp rest
  obtain ⟨rs, each, made⟩ := bind_eq_ok.mp rest
  obtain rfl := pure_eq_ok.mp made
  have addressable := corpus.addressable
  have cases : List.Forall₂ (Accounted config) corpus.cases rs := by
    have listed : ∀ c ∈ corpus.cases, c.legs.length + c.expectedNets.length < 2 ^ 64 := fun c h =>
      (List.le_sum_of_mem (List.mem_map_of_mem h)).trans_lt addressable
    exact accounted_all (mapM_eq_ok.mp each) distinct held listed
  obtain ⟨nets, pairs, tp, fp, found, missed⟩ := sums_le cases
  have totals := total_counted rs
  have totalTp := totals .autoNet true
  have totalFp := totals .autoNet false
  have totalFound := totals .queue true
  have totalMissed := total_missed rs
  rw [List.sum_map_add] at addressable
  simp only [CaseResult.counted] at totalTp totalFp totalFound
  constructor
  · exact cases
  · simp only [CorpusReport.ofCases]
    omega
  · simp only [CorpusReport.ofCases]
    omega
  · simp only [CorpusReport.ofCases]
    omega
  · exact totals .queue false
  · simp only [CorpusReport.ofCases]
    omega
  · intro targets precision finding
    apply sloCheck_iff _ _ precision finding
    · simp only [CorpusReport.ofCases]
      omega
    · simp only [CorpusReport.ofCases]
      omega

theorem evaluate_ok [External] {corpus : Corpus} {tenant : TenantId}
    (one : ∀ c ∈ corpus.cases, ∀ l ∈ c.legs, l.tenant = tenant)
    (distinct : ∀ c ∈ corpus.cases, (c.legs.map TransferLeg.legId).Nodup) (config : MatcherConfig) :
    ∃ corpusHash configHash rs, evaluate corpus config = .ok (.ofCases corpusHash configHash rs) ∧
      List.Forall₂ (fun c r => ∃ configHash, r = c.result (Matcher.proposalsOf config configHash c.legs))
        corpus.cases rs := by
  obtain ⟨corpusHash, hashed⟩ := corpus.corpusHash_ok
  obtain ⟨configHash, configured⟩ := config.configHash_ok
  have each (cs : List LabeledCase) (one : ∀ c ∈ cs, ∀ l ∈ c.legs, l.tenant = tenant)
      (distinct : ∀ c ∈ cs, (c.legs.map TransferLeg.legId).Nodup) :
      ∃ rs, List.Forall₂ (fun c r => c.evaluate config = .ok r) cs rs ∧ List.Forall₂
        (fun c r => ∃ configHash, r = c.result (Matcher.proposalsOf config configHash c.legs)) cs rs := by
    induction cs with
    | nil => exact ⟨[], .nil, .nil⟩
    | cons c cs ih =>
      obtain ⟨oneHead, oneTail⟩ := List.forall_mem_cons.mp one
      obtain ⟨distinctHead, distinctTail⟩ := List.forall_mem_cons.mp distinct
      obtain ⟨rs, evaluated, made⟩ := ih oneTail distinctTail
      obtain ⟨configHash, matched⟩ := Matcher.matchLegs_eq oneHead distinctHead config
      refine ⟨c.result (Matcher.proposalsOf config configHash c.legs) :: rs, .cons ?_ evaluated,
        .cons ⟨configHash, rfl⟩ made⟩
      rw [LabeledCase.evaluate, matched]
      rfl
  obtain ⟨rs, evaluated, made⟩ := each corpus.cases one distinct
  refine ⟨corpusHash, configHash, rs, ?_, made⟩
  rw [evaluate, hashed, configured]
  refine bind_eq_ok.mpr ⟨_, rfl, bind_eq_ok.mpr ⟨_, rfl, bind_eq_ok.mpr ⟨rs, ?_, rfl⟩⟩⟩
  exact mapM_eq_ok.mpr evaluated

/-- One pair of legs that is expected, and netted. -/
def labeled : Corpus :=
  ⟨[⟨"tx-hash", sentAndReceived, [⟨.filled 1, .filled 2⟩]⟩], by decide⟩

theorem evaluate_exhaustive_labeled :
    letI : External := reference
    ∃ report, evaluate labeled hourlyConfig = .ok report ∧ Exhaustive labeled hourlyConfig report := by
  let _ : External := reference
  have one : ∀ c ∈ labeled.cases, ∀ l ∈ c.legs, l.tenant = ⟨"acme"⟩ := by decide
  have distinct : ∀ c ∈ labeled.cases, (c.legs.map TransferLeg.legId).Nodup := by decide
  have few : ∀ c ∈ labeled.cases, c.legs.length < 2 ^ 32 := by decide
  obtain ⟨corpusHash, configHash, rs, evaluated, _⟩ := evaluate_ok one distinct hourlyConfig
  exact ⟨_, evaluated, evaluate_exhaustive evaluated distinct fun c member =>
    LabeledCase.held_of_few (distinct c member) (few c member)⟩

/- Legs that all look the same. -/

def numbered (i : Nat) : ContentHash :=
  ⟨(List.range 32).map fun k => UInt8.ofNat (i / 256 ^ k), by simp⟩

theorem numbered_inj {i j : Nat} (hi : i < 2 ^ 32) (hj : j < 2 ^ 32)
    (same : numbered i = numbered j) : i = j := by
  have digits (k : Nat) (inside : k < 32) : i / 256 ^ k % 256 = j / 256 ^ k % 256 := by
    have bytes : (numbered i).bytes[k]? = (numbered j).bytes[k]? := by rw [same]
    simp only [numbered, List.getElem?_map, List.getElem?_range inside, Option.map_some,
      Option.some.injEq] at bytes
    simpa using congrArg UInt8.toNat bytes
  have d₀ := digits 0 (by decide)
  have d₁ := digits 1 (by decide)
  have d₂ := digits 2 (by decide)
  have d₃ := digits 3 (by decide)
  omega

def anonymous (direction : Direction) (i : Nat) : TransferLeg where
  legId := numbered i
  tenant := ⟨"acme"⟩
  venue := ⟨"kraken"⟩
  direction := direction
  amount := ⟨⟨"BTC"⟩, .literal 1⟩
  fee := none
  txHash := none
  address := none
  eventTime := ⟨0⟩

def crowd (n : Nat) : List TransferLeg :=
  (List.range n).map (anonymous .outflow) ++ (List.range' n n).map (anonymous .inflow)

theorem crowd_distinct {n : Nat} (small : n + n ≤ 2 ^ 32) : ((crowd n).map TransferLeg.legId).Nodup := by
  have ids : (crowd n).map TransferLeg.legId = (List.range (n + n)).map numbered := by
    have joined := @List.range'_append_1 0 n n
    rw [Nat.zero_add] at joined
    rw [List.range_eq_range', ← joined, List.map_append, crowd, List.map_append, List.map_map,
      List.map_map, List.range_eq_range']
    rfl
  rw [ids]
  apply List.Nodup.map_on _ List.nodup_range
  intro i hi j hj same
  have below := List.mem_range.mp hi
  have below' := List.mem_range.mp hj
  exact numbered_inj (by omega) (by omega) same

theorem mem_crowd {n : Nat} {l : TransferLeg} (h : l ∈ crowd n) : ∃ d i, l = anonymous d i := by
  rcases List.mem_append.mp h with out | inflow
  · obtain ⟨i, _, rfl⟩ := List.mem_map.mp out
    exact ⟨_, i, rfl⟩
  · obtain ⟨i, _, rfl⟩ := List.mem_map.mp inflow
    exact ⟨_, i, rfl⟩

theorem crowd_length (n : Nat) : (Matcher.outflowsOf (crowd n)).length = n ∧
    (Matcher.inflowsOf (crowd n)).length = n := by
  simp [Matcher.outflowsOf, Matcher.inflowsOf, crowd, List.filter_map, Function.comp_def, anonymous]

theorem crowd_proposals (n : Nat) (configHash : ContentHash) :
    Matcher.proposalsOf hourlyConfig configHash (crowd n) =
      (Matcher.outflowsOf (crowd n)).flatMap fun out => (Matcher.inflowsOf (crowd n)).map fun inflow =>
        ⟨out.legId, inflow.legId, .probabilistic, .queue, configHash⟩ := by
  have member (o) (h : o ∈ Matcher.outflowsOf (crowd n)) : ∃ d i, o = anonymous d i :=
    mem_crowd (Matcher.mem_outflowsOf.mp h).1
  have member' (o) (h : o ∈ Matcher.inflowsOf (crowd n)) : ∃ d i, o = anonymous d i :=
    mem_crowd (Matcher.mem_inflowsOf.mp h).1
  have unnetted (taken : Finset LegId) (out) (h : out ∈ Matcher.outflowsOf (crowd n)) :
      Matcher.sameTransaction (Matcher.inflowsOf (crowd n)) taken out = none := by
    obtain ⟨d, i, rfl⟩ := member out h
    rfl
  have uncorroborated (taken : Finset LegId) (out) (h : out ∈ Matcher.outflowsOf (crowd n)) :
      Matcher.soleCorroborated hourlyConfig (Matcher.inflowsOf (crowd n)) taken out = none := by
    obtain ⟨d, i, rfl⟩ := member out h
    have nobody : Matcher.corroborated hourlyConfig (Matcher.inflowsOf (crowd n)) taken
        (anonymous d i) = [] := by
      apply List.filter_eq_nil_iff.mpr
      intro inflow candidate
      simp [Matcher.addressesCorroborate, anonymous]
    rw [Matcher.soleCorroborated, nobody]
  have everybody (out) (h : out ∈ Matcher.outflowsOf (crowd n)) :
      Matcher.candidates hourlyConfig (Matcher.inflowsOf (crowd n)) ∅ out =
        Matcher.inflowsOf (crowd n) := by
    obtain ⟨d, i, rfl⟩ := member out h
    apply List.filter_eq_self.mpr
    intro inflow inside
    obtain ⟨d', j, rfl⟩ := member' inflow inside
    have fits : Matcher.amountAndWindowMatch (anonymous d i) (anonymous d' j)
        (Matcher.expectedInflow (anonymous d i)) hourlyConfig = true := rfl
    simpa using fits
  obtain ⟨first, free⟩ := @turns_of_none _ _ _ _ TransferLeg.legId _ _ unnetted ∅
  have left : Matcher.leftOver (crowd n) = Matcher.outflowsOf (crowd n) := by
    simp [Matcher.leftOver, Matcher.firstRound, first, List.filter_map, Function.comp_def]
  obtain ⟨second, _⟩ := @turns_of_none _ _ _ _ TransferLeg.legId _ _ uncorroborated ∅
  rw [Matcher.proposalsOf, Matcher.secondRound, Matcher.firstRound, left, free, first, second]
  have nothing (outs : List TransferLeg) : (outs.flatMap fun _ => ([] : List MatchProposal)) = [] := by
    simp
  simp only [List.flatMap_map, Matcher.nettedBy, Matcher.proposedBy, nothing, List.nil_append]
  apply List.flatMap_congr
  intro out h
  rw [everybody out h]

theorem crowd_result (n : Nat) (configHash : ContentHash) :
    (LabeledCase.result ⟨"crowd", crowd n, []⟩
      (Matcher.proposalsOf hourlyConfig configHash (crowd n))).queuedUnexpected.val =
        min (n * n : Int) (2 ^ 64 - 1) := by
  have counted := LabeledCase.result_counted ⟨"crowd", crowd n, []⟩
    (Matcher.proposalsOf hourlyConfig configHash (crowd n)) .queue false
  have all : (Matcher.proposalsOf hourlyConfig configHash (crowd n)).countP
      (CaseResult.Is (LabeledCase.expected ⟨"crowd", crowd n, []⟩) .queue false) = n * n := by
    obtain ⟨outs, inflows⟩ := crowd_length n
    rw [List.countP_eq_length.mpr]
    · simp [crowd_proposals, List.length_flatMap, outs, inflows]
    · intro p made
      simp only [crowd_proposals, List.mem_flatMap, List.mem_map] at made
      obtain ⟨out, _, inflow, _, rfl⟩ := made
      simp [CaseResult.Is, LabeledCase.expected]
  rw [all] at counted
  simpa [CaseResult.counted] using counted

def crowds (k n : Nat) (small : k * (n + n) < 2 ^ 64) : Corpus where
  cases := List.replicate k ⟨"crowd", crowd n, []⟩
  addressable := by simpa [crowd, List.map_replicate] using small

theorem crowds_evaluated [External] {k n : Nat} (small : k * (n + n) < 2 ^ 64)
    (few : n + n < 2 ^ 32) : ∃ report, evaluate (crowds k n small) hourlyConfig = .ok report ∧
      (∀ c ∈ (crowds k n small).cases, (c.legs.map TransferLeg.legId).Nodup) ∧
      (∀ c ∈ (crowds k n small).cases, c.Held hourlyConfig) ∧
      report.queuedUnexpected.val =
        min (report.perCase.map (·.queuedUnexpected.val)).sum (2 ^ 64 - 1) ∧
      (report.perCase.map (·.queuedUnexpected.val)).sum = k * min (n * n : Int) (2 ^ 64 - 1) := by
  have alike : ∀ c ∈ (crowds k n small).cases, c = ⟨"crowd", crowd n, []⟩ := fun _ h =>
    List.eq_of_mem_replicate h
  have one : ∀ c ∈ (crowds k n small).cases, ∀ l ∈ c.legs, l.tenant = ⟨"acme"⟩ := by
    intro c h l inside
    rw [alike c h] at inside
    obtain ⟨d, i, rfl⟩ := mem_crowd inside
    rfl
  have distinct : ∀ c ∈ (crowds k n small).cases, (c.legs.map TransferLeg.legId).Nodup := by
    intro c h
    rw [alike c h]
    exact crowd_distinct few.le
  have held : ∀ c ∈ (crowds k n small).cases, c.Held hourlyConfig := by
    intro c h
    apply LabeledCase.held_of_few (distinct c h)
    rw [alike c h]
    simpa [crowd] using few
  obtain ⟨corpusHash, configHash, rs, evaluated, made⟩ := evaluate_ok one distinct hourlyConfig
  refine ⟨_, evaluated, distinct, held, total_counted rs .queue false, ?_⟩
  clear evaluated distinct held one alike
  simp only [crowds] at made
  simp only [CorpusReport.ofCases]
  clear small
  induction k generalizing rs with
  | zero =>
    cases made
    simp
  | succ k ih =>
    cases made with
    | cons head tail =>
      obtain ⟨configHash, rfl⟩ := head
      rw [List.map_cons, List.sum_cons, ih _ tail, crowd_result, Nat.cast_succ, add_one_mul, add_comm]

theorem crowds_small : 2 ^ 20 * (2 ^ 22 + 2 ^ 22) < 2 ^ 64 := by decide

/-- The total over many cases with alike legs stops one short of the sum. -/
theorem crowds_stop :
    letI : External := reference
    ∃ report, evaluate (crowds (2 ^ 20) (2 ^ 22) crowds_small) hourlyConfig = .ok report ∧
      (∀ c ∈ (crowds (2 ^ 20) (2 ^ 22) crowds_small).cases,
        (c.legs.map TransferLeg.legId).Nodup ∧ c.Held hourlyConfig) ∧
      report.queuedUnexpected.val = 2 ^ 64 - 1 ∧
      (report.perCase.map (·.queuedUnexpected.val)).sum = 2 ^ 64 := by
  let _ : External := reference
  obtain ⟨report, evaluated, distinct, held, total, sum⟩ :=
    crowds_evaluated crowds_small (by decide)
  refine ⟨report, evaluated, fun c h => ⟨distinct c h, held c h⟩, ?_, ?_⟩
  · rw [total, sum]
    decide
  · rw [sum]
    decide

end Treasury
