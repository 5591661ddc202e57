import Mathlib.Data.Finmap
import Mathlib.Data.Set.Function
import Treasury.Chainsource.History
import Treasury.Kit.Except
import Treasury.Reference

/-! Two independent sources of one address: what is settled under the policy is compared by
its hash. Which of two agreeing answers the comparison accepts depends on the order in which
movements that tie under the sorting key are listed. -/
namespace Treasury.Chainsource
open Kit Kit.Json

inductive FinalityRule where
  | confirmationDepth (depth : U64)
  | externalFinalized
  deriving DecidableEq

structure FinalityPolicy where
  chain : Chain
  rule : FinalityRule
  deriving DecidableEq

def FinalityPolicy.settledHeight (policy : FinalityPolicy) (observed : U64) : U64 :=
  match policy.rule with
  | .confirmationDepth depth => observed.saturatingSub depth
  | .externalFinalized => observed

inductive SourceError where
  | transport (message : String)
  | chainMismatch
  deriving DecidableEq

structure ChainSource where
  chain : Chain
  sourceId : String
  addressHistory : String → U64 → Except SourceError AddressHistory

structure FixtureSource where
  chain : Chain
  sourceId : String
  histories : Finmap fun _ : String => AddressHistory

namespace FixtureSource

def new (chain : Chain) (sourceId : String) : FixtureSource := ⟨chain, sourceId, ∅⟩

def withHistory (self : FixtureSource) (history : AddressHistory) : FixtureSource :=
  { self with histories := self.histories.insert history.address history }

def source (self : FixtureSource) : ChainSource where
  chain := self.chain
  sourceId := self.sourceId
  addressHistory address observedHeight :=
    match self.histories.lookup address with
    | none => .ok ⟨self.chain, address, observedHeight, [], by decide⟩
    | some history => .ok history

end FixtureSource

inductive Reconciliation where
  | agreed (history : AddressHistory) (historyHash : ContentHash)
  | diverged (a b : String × ContentHash) (settledToHeight : U64)

inductive ReconcileError where
  | chainMismatch
  | source (error : SourceError)
  | history (error : HistoryError)
  deriving DecidableEq

def settledView (source : ChainSource) (address : String) (observedHeight settledToHeight : U64) :
    Except SourceError AddressHistory := do
  let history ← source.addressHistory address observedHeight
  return { history with settledToHeight := settledToHeight }

section
variable [External]

def reconcile (sourceA sourceB : ChainSource) (policy : FinalityPolicy) (address : String)
    (observedHeight : U64) : Except ReconcileError Reconciliation :=
  if sourceA.chain ≠ policy.chain ∨ sourceB.chain ≠ policy.chain ∨ sourceA.chain ≠ sourceB.chain then
    .error .chainMismatch
  else do
    let settledToHeight := policy.settledHeight observedHeight
    let historyA ← (settledView sourceA address observedHeight settledToHeight).mapError .source
    let historyB ← (settledView sourceB address observedHeight settledToHeight).mapError .source
    let hashA ← historyA.historyHash.mapError .history
    let hashB ← historyB.historyHash.mapError .history
    return if hashA = hashB then .agreed historyA hashA
      else .diverged (sourceA.sourceId, hashA) (sourceB.sourceId, hashB) settledToHeight

end

def Answers (source : ChainSource) (address : String) (observedHeight : U64) (h : AddressHistory) :
    Prop := source.addressHistory address observedHeight = .ok h

def AddressHistory.settledTo (h : AddressHistory) (height : U64) : AddressHistory :=
  { h with settledToHeight := height }

section
variable [External] {sourceA sourceB : ChainSource} {policy : FinalityPolicy} {address : String}
  {observed : U64} {a b : AddressHistory}

theorem reconcile_answers (chainA : sourceA.chain = policy.chain) (chainB : sourceB.chain = policy.chain)
    (answersA : Answers sourceA address observed a) (answersB : Answers sourceB address observed b) :
    reconcile sourceA sourceB policy address observed =
      .ok (if sha256 (a.settledTo (policy.settledHeight observed)).bytes =
          sha256 (b.settledTo (policy.settledHeight observed)).bytes then
        .agreed (a.settledTo (policy.settledHeight observed))
          (sha256 (a.settledTo (policy.settledHeight observed)).bytes)
      else .diverged (sourceA.sourceId, sha256 (a.settledTo (policy.settledHeight observed)).bytes)
        (sourceB.sourceId, sha256 (b.settledTo (policy.settledHeight observed)).bytes)
        (policy.settledHeight observed)) := by
  have view {source : ChainSource} {h : AddressHistory} (answers : Answers source address observed h)
      (height : U64) : settledView source address observed height = .ok (h.settledTo height) := by
    rw [settledView, answers]
    rfl
  have same : ¬(sourceA.chain ≠ policy.chain ∨ sourceB.chain ≠ policy.chain ∨
      sourceA.chain ≠ sourceB.chain) := by simp [chainA, chainB]
  simp only [reconcile, if_neg same, view answersA, view answersB]
  simp only [mapError_ok, AddressHistory.historyHash_eq]
  rfl

def Agreed (sourceA sourceB : ChainSource) (policy : FinalityPolicy) (address : String)
    (observed : U64) : Prop :=
  ∃ history hash, reconcile sourceA sourceB policy address observed = .ok (.agreed history hash)

/-- One chain, one address and the same settled movements, each as often. -/
def SameSettled (a b : AddressHistory) (height : U64) : Prop :=
  a.chain = b.chain ∧ a.address = b.address ∧
    (a.settledTo height).settled.Perm (b.settledTo height).settled

/-- Settled movements that tie under the sorting key are listed in one order. -/
def TiesAlike (a b : AddressHistory) (height : U64) : Prop :=
  ∀ key, withKey ChainMovement.key key (a.settledTo height).settled =
    withKey ChainMovement.key key (b.settledTo height).settled

omit [External] in
theorem TiesAlike.perm {height : U64} (alike : TiesAlike a b height) :
    (a.settledTo height).settled.Perm (b.settledTo height).settled := by
  have sorted := sortBy_perm ChainMovement.key (a.settledTo height).settled
  rw [sortBy_eq_iff.mpr alike] at sorted
  exact sorted.symm.trans (sortBy_perm ..)

theorem bytes_eq_of_ties {height : U64} (alike : TiesAlike a b height) (chain : a.chain = b.chain)
    (addresses : a.address = b.address) : (a.settledTo height).bytes = (b.settledTo height).bytes :=
  AddressHistory.bytes_eq_iff.mpr (AddressHistory.envelope_eq_iff.mpr ⟨chain, addresses, rfl, alike⟩)

section
variable (injective : Set.InjOn sha256 {(a.settledTo (policy.settledHeight observed)).bytes,
    (b.settledTo (policy.settledHeight observed)).bytes})
  (chainA : sourceA.chain = policy.chain) (chainB : sourceB.chain = policy.chain)
  (answersA : Answers sourceA address observed a) (answersB : Answers sourceB address observed b)
include injective chainA chainB answersA answersB

theorem agreed_iff : Agreed sourceA sourceB policy address observed ↔
    a.chain = b.chain ∧ a.address = b.address ∧ TiesAlike a b (policy.settledHeight observed) := by
  have hashes : sha256 (a.settledTo (policy.settledHeight observed)).bytes =
      sha256 (b.settledTo (policy.settledHeight observed)).bytes ↔
        a.chain = b.chain ∧ a.address = b.address ∧ TiesAlike a b (policy.settledHeight observed) := by
    rw [injective.eq_iff (by simp) (by simp), AddressHistory.bytes_eq_iff,
      AddressHistory.envelope_eq_iff]
    simp only [AddressHistory.settledTo, true_and, TiesAlike]
  rw [← hashes, Agreed, reconcile_answers chainA chainB answersA answersB]
  split
  · rename_i same
    exact iff_of_true ⟨_, _, rfl⟩ same
  · rename_i differ
    refine iff_of_false ?_ differ
    rintro ⟨_, _, agreed⟩
    cases Except.ok.inj agreed

/-- Agreement is equality of the settled histories exactly for answers that, if their settled
histories are equal, list tied movements in one order. -/
theorem agreement_exact_iff :
    (Agreed sourceA sourceB policy address observed ↔
      SameSettled a b (policy.settledHeight observed)) ↔
    (SameSettled a b (policy.settledHeight observed) →
      TiesAlike a b (policy.settledHeight observed)) := by
  rw [agreed_iff injective chainA chainB answersA answersB]
  constructor
  · exact fun exact same => (exact.mpr same).2.2
  · intro ordered
    constructor
    · rintro ⟨chain, addresses, alike⟩
      exact ⟨chain, addresses, alike.perm⟩
    · intro same
      exact ⟨same.1, same.2.1, ordered same⟩

end

end

def twoOutputs : List ChainMovement :=
  [⟨"t1", .inflow, ⟨⟨"BTC"⟩, ⟨513, by decide, by decide⟩⟩, ⟨17, by decide, by decide⟩⟩,
    ⟨"t1", .inflow, ⟨⟨"BTC"⟩, ⟨207, by decide, by decide⟩⟩, ⟨17, by decide, by decide⟩⟩]

def bitcoinDepth6 : FinalityPolicy := ⟨.bitcoin, .confirmationDepth ⟨6, by decide, by decide⟩⟩

def tip : U64 := ⟨103, by decide, by decide⟩

def bitcoinHistory (movements : List ChainMovement) (short : movements.length ≤ 2) : AddressHistory :=
  ⟨.bitcoin, "bc1q", tip, movements, by omega⟩

def bitcoinSource (movements : List ChainMovement) (short : movements.length ≤ 2) : ChainSource :=
  ((FixtureSource.new .bitcoin "core").withHistory (bitcoinHistory movements short)).source

theorem bitcoinSource_answers (movements : List ChainMovement) (short : movements.length ≤ 2) :
    Answers (bitcoinSource movements short) "bc1q" tip (bitcoinHistory movements short) := by
  simp [Answers, bitcoinSource, FixtureSource.source, FixtureSource.withHistory, FixtureSource.new,
    bitcoinHistory]

theorem injOn_pair_self [External] (b : Bytes) : Set.InjOn sha256 {b, b} := by
  rw [Set.pair_eq_singleton]
  exact Set.injOn_singleton _ _

theorem agreement_exact_iff_once :
    letI : External := reference
    Agreed (bitcoinSource twoOutputs (by decide)) (bitcoinSource twoOutputs (by decide)) bitcoinDepth6
        "bc1q" tip ↔ SameSettled (bitcoinHistory twoOutputs (by decide))
      (bitcoinHistory twoOutputs (by decide)) (bitcoinDepth6.settledHeight tip) := by
  let _ : External := reference
  have answers := bitcoinSource_answers twoOutputs (by decide)
  exact (agreement_exact_iff (injOn_pair_self _) rfl rfl answers answers).mpr fun _ _ => rfl

def listedEnvelope (movements : List ChainMovement) : Value :=
  .object (ofEntries [("schema", .string historySchema), ("chain", Chain.bitcoin.toJson),
    ("address", .string "bc1q"), ("settled_to_height", .string "97"),
    ("movements", .array (movements.map ChainMovement.toJson))])

theorem bitcoinHistory_envelope (movements : List ChainMovement) (short : movements.length ≤ 2)
    (tied : ∀ m ∈ movements, ∀ n ∈ movements, m.key = n.key)
    (settled : ∀ m ∈ movements, m.blockHeight ≤ bitcoinDepth6.settledHeight tip) :
    ((bitcoinHistory movements short).settledTo (bitcoinDepth6.settledHeight tip)).envelope =
      listedEnvelope movements := by
  have ordered : sortBy ChainMovement.key movements = movements :=
    sortBy_eq_self (List.pairwise_of_forall_mem_list fun m hm n hn => (tied m hm n hn).le)
  have kept : ((bitcoinHistory movements short).settledTo (bitcoinDepth6.settledHeight tip)).settled =
      movements :=
    List.filter_eq_self.mpr fun m hm => decide_eq_true (settled m hm)
  have height : (bitcoinDepth6.settledHeight tip).val.repr = "97" := by decide
  rw [AddressHistory.envelope, AddressHistory.ordered_settled, kept, ordered, listedEnvelope, ← height]
  rfl

theorem tied_outputs_diverge :
    letI : External := reference
    SameSettled (bitcoinHistory twoOutputs (by decide)) (bitcoinHistory twoOutputs.reverse (by decide))
        (bitcoinDepth6.settledHeight tip) ∧
      ¬Agreed (bitcoinSource twoOutputs (by decide)) (bitcoinSource twoOutputs.reverse (by decide))
        bitcoinDepth6 "bc1q" tip := by
  let _ : External := reference
  have digests : sha256 (utf8 (toText (listedEnvelope twoOutputs))) ≠
      sha256 (utf8 (toText (listedEnvelope twoOutputs.reverse))) := by
    simp only [toText, utf8_ofList]
    decide +kernel
  have same : SameSettled (bitcoinHistory twoOutputs (by decide))
      (bitcoinHistory twoOutputs.reverse (by decide)) (bitcoinDepth6.settledHeight tip) :=
    ⟨rfl, rfl, (List.reverse_perm twoOutputs).symm.filter _⟩
  refine ⟨same, ?_⟩
  rintro ⟨history, hash, agreed⟩
  rw [reconcile_answers rfl rfl (bitcoinSource_answers ..) (bitcoinSource_answers ..), if_neg] at agreed
  · cases Except.ok.inj agreed
  · unfold AddressHistory.bytes
    rw [bitcoinHistory_envelope, bitcoinHistory_envelope]
    · exact digests
    · decide
    · decide
    · decide
    · decide

end Treasury.Chainsource
