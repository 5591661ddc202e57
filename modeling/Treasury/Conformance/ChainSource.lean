import Treasury.Chainsource.Node
import Treasury.Evidence.Faithful

/-! The contract of a chain source. What the suite compares is what is settled under the policy,
so that a node whose best chain changes above the settled height passes, and two nodes that have
forked above it agree. -/
namespace Treasury
open Kit Chainsource

namespace Chainsource

def SourceError.display : SourceError → String
  | .transport message => "source transport error: " ++ message
  | .chainMismatch => "chain mismatch"

def HistoryError.display : HistoryError → String
  | .canon error => error.display

def ReproError.display : ReproError → String
  | .notReproducible sourceId first second =>
    "source " ++ sourceId ++ " not reproducible: " ++ first.toHex ++ " != " ++ second.toHex
  | .source error => error.display
  | .history error => error.display

def ReconcileError.display : ReconcileError → String
  | .chainMismatch => "chain mismatch between sources and policy"
  | .source error => error.display
  | .history error => error.display

end Chainsource

namespace Conformance

inductive SourceViolation where
  | wrongChain (expected found : Chain)
  | emptySourceId
  | notReproducible (first second : ContentHash)
  | settledHistoryRewritten (settledHeight : U64) (low high : ContentHash)
  | sourcesDisagree
  | underlying (message : String)
  deriving DecidableEq

namespace SourceSuite

variable {W : Type}

def verifyIdentity (source : LiveSource W) (expected : Chain) : Except SourceViolation Unit :=
  if source.chain ≠ expected then .error (.wrongChain expected source.chain)
  else if source.sourceId = "" then .error .emptySourceId
  else .ok ()

def reproViolation : ReproError → SourceViolation
  | .notReproducible _ first second => .notReproducible first second
  | other => .underlying other.display

section
variable [External]

def verifyReproducible (source : LiveSource W) (policy : FinalityPolicy) (address : String)
    (observedHeight : U64) : Steps W SourceViolation ContentHash :=
  Steps.raise reproViolation (source.reproducibilityGate policy address observedHeight)

def verifySettledHistoryStable (source : LiveSource W) (policy : FinalityPolicy)
    (address : String) (lowTip highTip : U64) : Steps W SourceViolation Unit := do
  let settledHeight := policy.settledHeight lowTip
  let atLow ← Steps.raise (fun e => .underlying e.display) (source.addressHistory address lowTip)
  let atHigh ← Steps.raise (fun e => .underlying e.display) (source.addressHistory address highTip)
  let low ← Steps.lift ((atLow.settledTo settledHeight).historyHash.mapError
    fun e => .underlying e.display)
  let high ← Steps.lift ((atHigh.settledTo settledHeight).historyHash.mapError
    fun e => .underlying e.display)
  if low ≠ high then Steps.fail (.settledHistoryRewritten settledHeight low high) else return ()

def verifySourcesAgree (sourceA sourceB : LiveSource W) (policy : FinalityPolicy)
    (address : String) (observedHeight : U64) : Steps W SourceViolation ContentHash := do
  let report ← Steps.raise (fun e => .underlying e.display)
    (sourceA.reconcile sourceB policy address observedHeight)
  match report with
  | .agreed _ historyHash => return historyHash
  | .diverged .. => Steps.fail .sourcesDisagree

def verifyChainSourceContract (source : LiveSource W) (expected : Chain)
    (policy : FinalityPolicy) (address : String) (lowTip highTip : U64) :
    Steps W SourceViolation Unit := do
  let _ ← Steps.lift (verifyIdentity source expected)
  let _ ← verifyReproducible source policy address highTip
  verifySettledHistoryStable source policy address lowTip highTip

end

def Identified (source : LiveSource W) (expected : Chain) (policy : FinalityPolicy) : Prop :=
  source.chain = expected ∧ source.sourceId ≠ "" ∧ source.chain = policy.chain

theorem verifyIdentity_eq_ok {source : LiveSource W} {expected : Chain} :
    verifyIdentity source expected = .ok () ↔ source.chain = expected ∧ source.sourceId ≠ "" := by
  unfold verifyIdentity
  split_ifs with other empty
  · simp [other]
  · simp [empty]
  · simp [not_not.mp other, empty]

variable [External] {source sourceA sourceB : LiveSource W} {expected : Chain}
  {policy : FinalityPolicy} {address : String} {lowTip highTip observed : U64} {w next : W}

theorem verifySettledHistoryStable_eq_ok :
    verifySettledHistoryStable source policy address lowTip highTip w = (next, .ok ()) ↔
      ∃ low between high, source.Tells address lowTip w low between ∧
        source.Tells address highTip between high next ∧
        low.hashTo (policy.settledHeight lowTip) = high.hashTo (policy.settledHeight lowTip) := by
  unfold verifySettledHistoryStable
  simp only [AddressHistory.historyHash_eq, mapError_ok, Steps.lift_bind]
  rw [Steps.bind_eq_ok]
  constructor
  · rintro ⟨between, low, told, rest⟩
    obtain ⟨last, high, later, rest⟩ := Steps.bind_eq_ok.mp rest
    split at rest
    · cases rest
    · rename_i equal
      cases rest
      exact ⟨low, between, high, Steps.raise_eq_ok.mp told, Steps.raise_eq_ok.mp later,
        not_not.mp equal⟩
  · rintro ⟨low, between, high, told, later, equal⟩
    refine ⟨between, low, Steps.raise_eq_ok.mpr told,
      Steps.bind_eq_ok.mpr ⟨next, high, Steps.raise_eq_ok.mpr later, ?_⟩⟩
    refine congrFun (if_neg (not_not.mpr ?_)) next
    exact equal

theorem verifyChainSourceContract_eq_ok :
    verifyChainSourceContract source expected policy address lowTip highTip w = (next, .ok ()) ↔
      Identified source expected policy ∧ ∃ first u second v low x high,
        source.Tells address highTip w first u ∧ source.Tells address highTip u second v ∧
        source.Tells address lowTip v low x ∧ source.Tells address highTip x high next ∧
        first.hashTo (policy.settledHeight highTip) = second.hashTo (policy.settledHeight highTip) ∧
        low.hashTo (policy.settledHeight lowTip) = high.hashTo (policy.settledHeight lowTip) := by
  unfold verifyChainSourceContract
  rw [Steps.bind_eq_ok]
  constructor
  · rintro ⟨_, _, identified, rest⟩
    obtain ⟨rfl, identity⟩ := Prod.ext_iff.mp identified
    obtain ⟨v, _, reproduced, stable⟩ := Steps.bind_eq_ok.mp rest
    obtain ⟨chain, first, u, second, told, again, rfl, same⟩ :=
      LiveSource.reproducibilityGate_eq_ok.mp (Steps.raise_eq_ok.mp reproduced)
    obtain ⟨low, x, high, below, above, kept⟩ := verifySettledHistoryStable_eq_ok.mp stable
    obtain ⟨right, named⟩ := verifyIdentity_eq_ok.mp identity
    exact ⟨⟨right, named, chain⟩, first, u, second, v, low, x, high, told, again, below, above,
      same.symm, kept⟩
  · rintro ⟨⟨right, named, chain⟩, first, u, second, v, low, x, high, told, again, below, above,
      same, kept⟩
    refine ⟨w, (), Prod.ext rfl (verifyIdentity_eq_ok.mpr ⟨right, named⟩),
      Steps.bind_eq_ok.mpr ⟨v, _, Steps.raise_eq_ok.mpr
        (LiveSource.reproducibilityGate_eq_ok.mpr
          ⟨chain, first, u, second, told, again, rfl, same.symm⟩), ?_⟩⟩
    exact verifySettledHistoryStable_eq_ok.mpr ⟨low, x, high, below, above, kept⟩

theorem verifySettledHistoryStable_rewritten {height : U64} {one two : ContentHash} :
    verifySettledHistoryStable source policy address lowTip highTip w =
        (next, .error (.settledHistoryRewritten height one two)) ↔
      height = policy.settledHeight lowTip ∧ one ≠ two ∧
        ∃ low between high, source.Tells address lowTip w low between ∧
          source.Tells address highTip between high next ∧
          low.hashTo height = one ∧ high.hashTo height = two := by
  unfold verifySettledHistoryStable
  simp only [AddressHistory.historyHash_eq, mapError_ok, Steps.lift_bind]
  constructor
  · intro failed
    rcases Steps.bind_eq_error.mp failed with early | ⟨between, low, told, failed⟩
    · obtain ⟨_, _, other⟩ := Steps.raise_eq_error.mp early
      cases other
    · rcases Steps.bind_eq_error.mp failed with early | ⟨last, high, later, failed⟩
      · obtain ⟨_, _, other⟩ := Steps.raise_eq_error.mp early
        cases other
      · split at failed
        · rename_i differ
          cases failed
          exact ⟨rfl, differ, low, between, high, Steps.raise_eq_ok.mp told,
            Steps.raise_eq_ok.mp later, rfl, rfl⟩
        · cases failed
  · rintro ⟨rfl, differ, low, between, high, told, later, rfl, rfl⟩
    refine (Steps.bind_of_ok (Steps.raise_eq_ok.mpr told)).trans
      ((Steps.bind_of_ok (Steps.raise_eq_ok.mpr later)).trans ?_)
    exact congrFun (if_pos differ) next

omit [External] in
theorem reproViolation_notReproducible {e : ReproError} {one two : ContentHash} :
    reproViolation e = .notReproducible one two ↔ ∃ id, e = .notReproducible id one two := by
  cases e <;> simp [reproViolation]

omit [External] in
theorem verifyIdentity_ne {violation : SourceViolation}
    (chain : ∀ found, violation ≠ .wrongChain expected found) (named : violation ≠ .emptySourceId) :
    verifyIdentity source expected ≠ .error violation := by
  unfold verifyIdentity
  split_ifs <;> simp [eq_comm, chain, named]

theorem verifyChainSourceContract_eq_error {violation : SourceViolation}
    (chain : ∀ found, violation ≠ .wrongChain expected found) (named : violation ≠ .emptySourceId) :
    verifyChainSourceContract source expected policy address lowTip highTip w =
        (next, .error violation) ↔
      source.chain = expected ∧ source.sourceId ≠ "" ∧
        (verifyReproducible source policy address highTip w = (next, .error violation) ∨
          ∃ between hash, verifyReproducible source policy address highTip w = (between, .ok hash) ∧
            verifySettledHistoryStable source policy address lowTip highTip between =
              (next, .error violation)) := by
  unfold verifyChainSourceContract
  rcases identity : verifyIdentity source expected with e | done
  · constructor
    · intro failed
      have same : e = violation := by
        cases failed
        rfl
      exact absurd (same ▸ identity) (verifyIdentity_ne chain named)
    · rintro ⟨right, id, _⟩
      cases identity.symm.trans (verifyIdentity_eq_ok.mpr ⟨right, id⟩)
  · have known := verifyIdentity_eq_ok.mp identity
    rw [Steps.lift_bind, Steps.bind_eq_error, ← and_assoc, and_iff_right known]

theorem verifyReproducible_ne_rewritten {height : U64} {one two : ContentHash} :
    verifyReproducible source policy address observed w ≠
      (next, .error (.settledHistoryRewritten height one two)) := by
  intro failed
  obtain ⟨e, _, other⟩ := Steps.raise_eq_error.mp failed
  cases e <;> cases other

theorem verifySettledHistoryStable_ne_notReproducible {one two : ContentHash} :
    verifySettledHistoryStable source policy address lowTip highTip w ≠
      (next, .error (.notReproducible one two)) := by
  unfold verifySettledHistoryStable
  simp only [AddressHistory.historyHash_eq, mapError_ok, Steps.lift_bind]
  intro failed
  rcases Steps.bind_eq_error.mp failed with early | ⟨_, _, _, failed⟩
  · obtain ⟨_, _, other⟩ := Steps.raise_eq_error.mp early
    cases other
  · rcases Steps.bind_eq_error.mp failed with early | ⟨_, _, _, failed⟩
    · obtain ⟨_, _, other⟩ := Steps.raise_eq_error.mp early
      cases other
    · split at failed <;> cases failed

theorem contract_notReproducible {one two : ContentHash} :
    verifyChainSourceContract source expected policy address lowTip highTip w =
        (next, .error (.notReproducible one two)) ↔
      Identified source expected policy ∧ one ≠ two ∧ ∃ first between second,
        source.Tells address highTip w first between ∧
        source.Tells address highTip between second next ∧
        first.hashTo (policy.settledHeight highTip) = one ∧
        second.hashTo (policy.settledHeight highTip) = two := by
  rw [verifyChainSourceContract_eq_error (by simp) (by simp)]
  constructor
  · rintro ⟨right, named, failed | ⟨_, _, _, failed⟩⟩
    · obtain ⟨e, failed, same⟩ := Steps.raise_eq_error.mp failed
      obtain ⟨id, rfl⟩ := reproViolation_notReproducible.mp same
      obtain ⟨chain, _, differ, told⟩ := LiveSource.reproducibilityGate_notReproducible.mp failed
      exact ⟨⟨right, named, chain⟩, differ, told⟩
    · exact absurd failed verifySettledHistoryStable_ne_notReproducible
  · rintro ⟨⟨right, named, chain⟩, differ, told⟩
    refine ⟨right, named, .inl (Steps.raise_eq_error.mpr
      ⟨.notReproducible source.sourceId one two, ?_, rfl⟩)⟩
    exact LiveSource.reproducibilityGate_notReproducible.mpr ⟨chain, rfl, differ, told⟩

theorem contract_rewritten {height : U64} {one two : ContentHash} :
    verifyChainSourceContract source expected policy address lowTip highTip w =
        (next, .error (.settledHistoryRewritten height one two)) ↔
      Identified source expected policy ∧ height = policy.settledHeight lowTip ∧ one ≠ two ∧
        ∃ first u second v low x high, source.Tells address highTip w first u ∧
          source.Tells address highTip u second v ∧
          first.hashTo (policy.settledHeight highTip) =
            second.hashTo (policy.settledHeight highTip) ∧
          source.Tells address lowTip v low x ∧ source.Tells address highTip x high next ∧
          low.hashTo height = one ∧ high.hashTo height = two := by
  rw [verifyChainSourceContract_eq_error (by simp) (by simp)]
  constructor
  · rintro ⟨right, named, failed | ⟨v, _, reproduced, failed⟩⟩
    · exact absurd failed verifyReproducible_ne_rewritten
    · obtain ⟨chain, first, u, second, told, again, rfl, same⟩ :=
        LiveSource.reproducibilityGate_eq_ok.mp (Steps.raise_eq_ok.mp reproduced)
      obtain ⟨height, differ, low, x, high, below, above, hashes⟩ :=
        verifySettledHistoryStable_rewritten.mp failed
      exact ⟨⟨right, named, chain⟩, height, differ, first, u, second, v, low, x, high, told, again,
        same.symm, below, above, hashes⟩
  · rintro ⟨⟨right, named, chain⟩, height, differ, first, u, second, v, low, x, high, told, again,
      same, below, above, hashes⟩
    refine ⟨right, named, .inr ⟨v, _, Steps.raise_eq_ok.mpr
      (LiveSource.reproducibilityGate_eq_ok.mpr
        ⟨chain, first, u, second, told, again, rfl, same.symm⟩), ?_⟩⟩
    exact verifySettledHistoryStable_rewritten.mpr
      ⟨height, differ, low, x, high, below, above, hashes⟩

theorem verifySourcesAgree_told {between : W} {a b : AddressHistory}
    (chainA : sourceA.chain = policy.chain) (chainB : sourceB.chain = policy.chain)
    (toldA : sourceA.Tells address observed w a between)
    (toldB : sourceB.Tells address observed between b next) :
    verifySourcesAgree sourceA sourceB policy address observed w =
      (next, if a.hashTo (policy.settledHeight observed) = b.hashTo (policy.settledHeight observed)
        then .ok (a.hashTo (policy.settledHeight observed)) else .error .sourcesDisagree) := by
  have reported := LiveSource.reconcile_eq_ok.mpr ⟨chainA, chainB, a, between, b, toldA, toldB, rfl⟩
  unfold verifySourcesAgree
  rw [Steps.bind_of_ok (Steps.raise_eq_ok.mpr reported)]
  split <;> rfl

theorem verifySourcesAgree_disagree
    (failed : verifySourcesAgree sourceA sourceB policy address observed w =
      (next, .error .sourcesDisagree)) :
    ∃ a between b, sourceA.Tells address observed w a between ∧
      sourceB.Tells address observed between b next ∧
      a.hashTo (policy.settledHeight observed) ≠ b.hashTo (policy.settledHeight observed) := by
  unfold verifySourcesAgree at failed
  rcases Steps.bind_eq_error.mp failed with early | ⟨_, _, reported, failed⟩
  · obtain ⟨_, _, other⟩ := Steps.raise_eq_error.mp early
    cases other
  · obtain ⟨_, _, a, between, b, toldA, toldB, rfl⟩ :=
      LiveSource.reconcile_eq_ok.mp (Steps.raise_eq_ok.mp reported)
    split_ifs at failed with same
    · cases failed
    · cases failed
      exact ⟨a, between, b, toldA, toldB, same⟩

end SourceSuite

end Conformance

end Treasury
