import Treasury.Reconcile.Close

/-! The matcher reads its legs in time order, so the order in which they were ingested is
lost: the two sides are sorted before they are matched, and so is what stays unmatched. -/
namespace Treasury
open Kit

namespace Matcher

theorem mixedTenants_eq_false {legs : List TransferLeg} :
    mixedTenants legs = false ↔ ∀ l ∈ legs, ∀ m ∈ legs, l.tenant = m.tenant := by
  cases legs with
  | nil => simp [mixedTenants]
  | cons first rest =>
    simp only [mixedTenants, List.any_eq_false, decide_eq_true_eq, not_not]
    constructor
    · intro same l hl m hm
      exact (same l hl).trans (same m hm).symm
    · intro same l hl
      exact same l hl first List.mem_cons_self

theorem mixedTenants_perm {legs others : List TransferLeg} (perm : legs.Perm others) :
    mixedTenants legs = mixedTenants others := by
  have alike : mixedTenants legs = false ↔ mixedTenants others = false := by
    simp only [mixedTenants_eq_false, perm.mem_iff]
  cases first : mixedTenants legs with
  | false => exact (alike.mp first).symm
  | true =>
    cases second : mixedTenants others with
    | false => exact absurd (alike.mpr second) (by simp [first])
    | true => rfl

theorem legKeys_distinct {legs : List TransferLeg} (distinct : (legs.map TransferLeg.legId).Nodup)
    (p : TransferLeg → Bool) : ((legs.filter p).map legKey).Nodup := by
  have ids : ((legs.filter p).map TransferLeg.legId).Nodup :=
    distinct.sublist (List.filter_sublist.map _)
  have second : TransferLeg.legId = (fun k : TimestampNs ×ₗ LegId => (ofLex k).2) ∘ legKey := rfl
  rw [second, ← List.map_map] at ids
  exact ids.of_map _

section
variable {legs others : List TransferLeg} (distinct : (legs.map TransferLeg.legId).Nodup)
  (perm : legs.Perm others)
include distinct perm

theorem outflowsOf_perm : outflowsOf legs = outflowsOf others :=
  sortBy_eq_of_perm (perm.filter _) (legKeys_distinct distinct _)

theorem inflowsOf_perm : inflowsOf legs = inflowsOf others :=
  sortBy_eq_of_perm (perm.filter _) (legKeys_distinct distinct _)

theorem unmatchedLegs_perm (proposals : List MatchProposal) :
    unmatchedLegs legs proposals = unmatchedLegs others proposals := by
  apply sortBy_eq_of_perm ((perm.filter _).map _)
  rw [List.map_id]
  exact distinct.sublist (List.filter_sublist.map _)

end

end Matcher

/-- The result of the matcher does not depend on the order of its legs. -/
theorem matchLegs_perm [External] {legs others : List TransferLeg}
    (distinct : (legs.map TransferLeg.legId).Nodup) (perm : legs.Perm others)
    (config : MatcherConfig) : matchLegs legs config = matchLegs others config := by
  simp only [matchLegs, Matcher.mixedTenants_perm perm, Matcher.outflowsOf_perm distinct perm,
    Matcher.inflowsOf_perm distinct perm, Matcher.unmatchedLegs_perm distinct perm]

def threeAtOnce : List TransferLeg :=
  [smallMove 3 .inflow (some "0xabc") none, smallMove 1 .outflow (some "0xabc") none,
    smallMove 2 .inflow (some "0xabc") none]

theorem matchLegs_perm_three :
    letI : External := reference
    matchLegs threeAtOnce hourlyConfig = matchLegs threeAtOnce.reverse hourlyConfig :=
  @matchLegs_perm reference _ _ (by decide) threeAtOnce.reverse_perm.symm hourlyConfig

end Treasury
