import Treasury.Conformance.AnchorSubmitter
import Treasury.Reference

/-! The fixture wallets under the suite: how many polls it takes the chain that they stand for to
bury a commitment, to the end of the range of heights. -/
namespace Treasury.Conformance
open Kit AnchorSubmitter

theorem shallow_of_not_deep {requiredDepth : U64} {c : Confirmation} (timely : ¬Premature c)
    (short : ¬Deep requiredDepth c) : Shallow requiredDepth c := by
  intro included seen
  have below : included ≤ c.currentHeight := by
    by_contra above
    exact timely ⟨included, seen, not_le.mp above⟩
  refine ⟨below, ?_⟩
  by_contra enough
  exact short ⟨included, seen, below, not_lt.mp enough⟩

namespace FixtureWallet
open FixtureChainSubmitter

theorem not_premature (included : Option U64) (start : U64) (blocks : Nat) :
    ¬Premature (shown included start blocks) := by
  rintro ⟨height, seen, above⟩
  have kept : height ≤ start.above blocks := by simpa using (Option.filter_eq_some_iff.mp seen).2
  exact absurd kept (not_le.mpr above)

/-- The chain has grown enough to bury a block at the height. -/
def Buried (requiredDepth included start : U64) (blocks : Nat) : Prop :=
  included ≤ start.above blocks ∧
    requiredDepth.val ≤ (start.above blocks).val - included.val + 1

instance decidableBuried (requiredDepth included start : U64) (blocks : Nat) :
    Decidable (Buried requiredDepth included start blocks) := inferInstanceAs (Decidable (_ ∧ _))

theorem deep_shown {requiredDepth start : U64} {included : Option U64} {blocks : Nat} :
    Deep requiredDepth (shown included start blocks) ↔
      ∃ height, included = some height ∧ Buried requiredDepth height start blocks := by
  constructor
  · rintro ⟨height, seen, below, enough⟩
    exact ⟨height, (Option.filter_eq_some_iff.mp seen).1, below, enough⟩
  · rintro ⟨height, rfl, below, enough⟩
    have seen : (shown (some height) start blocks).includedAt = some height := by
      simp [shown, below]
    exact ⟨height, seen, below, enough⟩

theorem Buried.mono {requiredDepth included start : U64} {few many : Nat}
    (buried : Buried requiredDepth included start few) (le : few ≤ many) :
    Buried requiredDepth included start many := by
  have higher := start.above_mono le
  refine ⟨buried.1.trans higher, ?_⟩
  have := Bounded.le_def.mp higher
  have := buried.2
  omega

theorem lastHeight_reports (included : Option U64) (start : U64) (polls : Nat) :
    lastHeight start (reports included start polls) = start.above polls := by
  cases polls with
  | zero => exact start.above_zero.symm
  | succ polls => simp [lastHeight, reports_succ, shown]

theorem forward_reports (included : Option U64) (start : U64) (polls : Nat) :
    Forward start (reports included start polls) := by
  induction polls with
  | zero => exact List.isChain_singleton _
  | succ polls ih =>
    rw [reports_succ, forward_concat, lastHeight_reports]
    exact ⟨ih, start.above_mono (Nat.le_succ polls)⟩

theorem polled_reports {wallet : FixtureChainSubmitter} (sent : wallet.broadcastHeight.isSome)
    (start : U64) (txRef : String) (polls : Nat) :
    Polled (poll txRef) (wallet.polledTimes start 0) (reports wallet.includedHeight start polls)
      (wallet.polledTimes start polls) := by
  induction polls with
  | zero => exact .nil
  | succ polls ih =>
    rw [reports_succ]
    exact ih.concat (poll_polledTimes sent start polls txRef)

theorem shallow_reports {requiredDepth start : U64} {included : Option U64} {polls : Nat}
    (short : ∀ height blocks, included = some height → 0 < blocks → blocks ≤ polls →
      ¬Buried requiredDepth height start blocks) :
    ∀ report ∈ reports included start polls, Shallow requiredDepth report := by
  intro report member
  obtain ⟨blocks, some, inside, rfl⟩ := mem_reports.mp member
  refine shallow_of_not_deep (not_premature included start blocks) fun deep => ?_
  obtain ⟨height, seen, buried⟩ := deep_shown.mp deep
  exact short height blocks seen some inside buried

theorem first_buried {requiredDepth included start : U64} {polls : Nat} (some : 0 < polls)
    (buried : Buried requiredDepth included start polls) :
    ∃ before, before < polls ∧ Buried requiredDepth included start (before + 1) ∧
      ∀ blocks, 0 < blocks → blocks ≤ before → ¬Buried requiredDepth included start blocks := by
  have reached : ∃ n, Buried requiredDepth included start (n + 1) :=
    ⟨polls - 1, by rwa [Nat.sub_add_cancel some]⟩
  refine ⟨Nat.find reached, ?_, Nat.find_spec reached, fun blocks positive inside early => ?_⟩
  · have least := Nat.find_min' reached (m := polls - 1) (by rwa [Nat.sub_add_cancel some])
    omega
  · have least := Nat.find_min reached (m := blocks - 1) (by omega)
    exact least (by rwa [Nat.sub_add_cancel positive])

theorem buried_in_range {requiredDepth tip blocks : U64} {polls : Nat}
    (included : tip.val + blocks.val < 18446744073709551616)
    (room : tip.val + polls < 18446744073709551616) :
    Buried requiredDepth (tip.saturatingAdd blocks) tip polls ↔
      blocks.val ≤ polls ∧ blocks.val + requiredDepth.val ≤ polls + 1 := by
  unfold Buried
  rw [Bounded.le_def, Bounded.saturatingAdd_val]
  simp only [U64.above]
  omega

section
variable [External] {targets : List AnchorTarget} {requiredDepth : U64} {pollBudget : U32}
  {anchoredAt : TimestampNs}

def nextRef (wallet : FixtureChainSubmitter) : String :=
  "fixture-tx-" ++ (wallet.seq.saturatingAdd (.literal 1)).val.repr

def inclusion (wallet : FixtureChainSubmitter) : Option U64 :=
  if wallet.neverConfirms then none else some (wallet.tip.saturatingAdd wallet.blocksToInclusion)

theorem sends_fixture (wallet : FixtureChainSubmitter) (nonempty : targets ≠ []) :
    ∃ sent : FixtureChainSubmitter,
      Sends submitter targets wallet ⟨nextRef wallet, wallet.tip⟩ (sent.polledTimes wallet.tip 0) ∧
      sent.broadcastHeight.isSome ∧ sent.includedHeight = inclusion wallet := by
  have heads : targets.map AnchorTarget.treeHead ≠ [] := by simpa using nonempty
  obtain ⟨aggregation, made⟩ := Aggregation.aggregate_isSome heads
  refine ⟨(broadcast aggregation.root wallet).1, ⟨aggregation, made, ?_, ?_⟩, rfl, rfl⟩
  · simp [submitter, broadcast, polledTimes, U64.above_zero, nextRef]
  · intro empty
    have letters := congrArg String.toList empty
    simp [nextRef] at letters

/-- The verdict on a fixture wallet in any state: with a target to anchor it is accepted exactly if
it confirms and the budget is large enough for its chain to bury the commitment, and otherwise the
suite says that it never confirmed. Where the heights stay in their range, a budget is large enough
if it reaches the block and the required depth above it. -/
theorem fixture_verdict (wallet : FixtureChainSubmitter) :
    (∃ confirmationPolicy receipts,
      (⟨requiredDepth⟩ : AnchorPolicy).policyHash = .ok confirmationPolicy ∧
      List.Forall₂ (AnchorPipeline.Attests (nextRef wallet) anchoredAt confirmationPolicy) targets
        receipts ∧
      (verifyAnchorSubmitterContract submitter targets requiredDepth pollBudget anchoredAt
        wallet).2 =
      if targets = [] then .error (.underlying "nothing to anchor")
      else if wallet.neverConfirms = false ∧ 0 < pollBudget.val.toNat ∧
          Buried requiredDepth (wallet.tip.saturatingAdd wallet.blocksToInclusion) wallet.tip
            pollBudget.val.toNat then .ok receipts
      else .error (.anchorNeverConfirmed requiredDepth pollBudget)) ∧
    (wallet.tip.val + wallet.blocksToInclusion.val < 18446744073709551616 →
      wallet.tip.val + pollBudget.val < 18446744073709551616 →
      (Buried requiredDepth (wallet.tip.saturatingAdd wallet.blocksToInclusion) wallet.tip
          pollBudget.val.toNat ↔
        wallet.blocksToInclusion.val ≤ pollBudget.val ∧
          wallet.blocksToInclusion.val + requiredDepth.val ≤ pollBudget.val + 1)) := by
  have hashed := AnchorPolicy.policyHash_eq ⟨requiredDepth⟩
  have polls : (pollBudget.val.toNat : Int) = pollBudget.val := Int.toNat_of_nonneg pollBudget.lower
  refine ⟨⟨_, _, hashed, AnchorPipeline.attested_iff.mpr rfl, ?_⟩, fun included room => ?_⟩
  case refine_2 => rw [buried_in_range included (polls ▸ room), polls]
  split_ifs with none burial
  · subst none
    rfl
  · obtain ⟨confirms, some, buried⟩ := burial
    obtain ⟨sent, sends, wasSent, included⟩ := sends_fixture wallet none
    obtain ⟨before, fewer, deep, early⟩ := first_buried some buried
    have seen : sent.includedHeight =
        Option.some (wallet.tip.saturatingAdd wallet.blocksToInclusion) := by
      rw [included, inclusion, confirms]
      rfl
    have buries : Buries submitter targets requiredDepth pollBudget wallet
        ⟨nextRef wallet, wallet.tip⟩ (reports sent.includedHeight wallet.tip before)
        (shown sent.includedHeight wallet.tip (before + 1))
        (sent.polledTimes wallet.tip (before + 1)) := by
      refine ⟨?reported, by simpa [reports] using fewer, ?forward, ?shallow, ?deep⟩
      case reported =>
        rw [← reports_succ]
        exact ⟨_, sends, polled_reports wasSent wallet.tip (nextRef wallet) (before + 1)⟩
      case forward =>
        rw [← reports_succ]
        exact forward_reports _ _ _
      case shallow =>
        refine shallow_reports fun height blocks same positive inside => ?_
        cases seen.symm.trans same
        exact early blocks positive inside
      case deep => exact deep_shown.mpr ⟨_, seen, deep⟩
    have reached : ¬wallet.tip.above (before + 1) <
      wallet.tip.saturatingAdd wallet.blocksToInclusion := not_lt.mpr deep.1
    have proved : calendarProof (nextRef wallet) (sent.polledTimes wallet.tip (before + 1)) =
        (sent.polledTimes wallet.tip (before + 1),
          .ok (sha256 (utf8 ("calendar-proof:" ++ nextRef wallet)))) := by
      simp only [calendarProof, polledTimes, seen, if_neg reached]
    exact congrArg Prod.snd (buries.accepted proved hashed)
  · obtain ⟨sent, sends, wasSent, included⟩ := sends_fixture wallet none
    have reported : Reports submitter targets wallet ⟨nextRef wallet, wallet.tip⟩
        (reports sent.includedHeight wallet.tip pollBudget.val.toNat)
        (sent.polledTimes wallet.tip pollBudget.val.toNat) :=
      ⟨_, sends, polled_reports wasSent wallet.tip (nextRef wallet) pollBudget.val.toNat⟩
    refine congrArg Prod.snd (reported.never_confirmed (by simp [reports]) (forward_reports _ _ _)
      (shallow_reports fun height blocks same positive inside => ?_))
    rw [included, inclusion] at same
    split_ifs at same with never
    intro buried
    cases same
    exact burial ⟨by simpa using never, positive.trans_le inside, buried.mono inside⟩

end

end FixtureWallet

end Treasury.Conformance
