import Treasury.Reconcile.Proposals

/-! The labelled corpus and what the matcher's proposals on it are worth: counts of each case,
their totals, and the targets that a report is checked against, all without a float. -/
namespace Treasury
open Kit Kit.Json

def corpusSchema : String := "treasury-reconcile/corpus/v1"

structure ExpectedNet where
  outLeg : LegId
  inLeg : LegId

def ExpectedNet.pair (e : ExpectedNet) : LegId × LegId := (e.outLeg, e.inLeg)

def MatchProposal.pair (p : MatchProposal) : LegId × LegId := (p.outLeg, p.inLeg)

structure LabeledCase where
  name : String
  legs : List TransferLeg
  expectedNets : List ExpectedNet

/-- Every leg and every expected pair of a corpus is in memory under an address of its own. -/
structure Corpus where
  cases : List LabeledCase
  addressable : (cases.map fun c => c.legs.length + c.expectedNets.length).sum < 2 ^ 64

def Direction.toJson : Direction → Value
  | .outflow => .string "outflow"
  | .inflow => .string "inflow"

def optionJson {α : Type} (write : α → Value) : Option α → Value
  | none => .null
  | some a => write a

def TransferLeg.toJson (l : TransferLeg) : Value :=
  .object (ofEntries [("leg_id", .string l.legId.toHex), ("tenant", .string l.tenant.value),
    ("venue", .string l.venue.value), ("direction", l.direction.toJson),
    ("amount", l.amount.toJson), ("fee", optionJson AssetAmount.toJson l.fee),
    ("tx_hash", optionJson .string l.txHash), ("address", optionJson .string l.address),
    ("event_time", l.eventTime.toJson)])

def ExpectedNet.toJson (e : ExpectedNet) : Value :=
  .object (ofEntries [("out_leg", .string e.outLeg.toHex), ("in_leg", .string e.inLeg.toHex)])

def LabeledCase.toJson (c : LabeledCase) : Value :=
  .object (ofEntries [("name", .string c.name), ("legs", .array (c.legs.map TransferLeg.toJson)),
    ("expected_nets", .array (c.expectedNets.map ExpectedNet.toJson))])

theorem flat_optionJson {α : Type} {n : Nat} {write : α → Value} (h : ∀ a, Flat n (write a))
    (o : Option α) : Flat n (optionJson write o) := by
  cases o with
  | none => exact flat_null n
  | some a => exact h a

theorem TransferLeg.flat (l : TransferLeg) : Flat 2 l.toJson := by
  apply flat_object (by simp)
  intro e h
  simp only [List.mem_cons, List.not_mem_nil, or_false] at h
  rcases h with rfl | rfl | rfl | rfl | rfl | rfl | rfl | rfl | rfl
  · exact flat_string 1 _
  · exact flat_string 1 _
  · exact flat_string 1 _
  · cases l.direction <;> exact flat_string 1 _
  · exact l.amount.flat
  · exact flat_optionJson AssetAmount.flat l.fee
  · exact flat_optionJson (flat_string 1) l.txHash
  · exact flat_optionJson (flat_string 1) l.address
  · exact flat_string 1 _

theorem LabeledCase.flat (c : LabeledCase) : Flat 4 c.toJson := by
  apply flat_object (by simp)
  intro e h
  simp only [List.mem_cons, List.not_mem_nil, or_false] at h
  rcases h with rfl | rfl | rfl
  · exact flat_string 3 _
  · apply flat_array
    simp only [List.forall_mem_map]
    exact fun l _ => l.flat
  · apply flat_array
    simp only [List.forall_mem_map]
    exact fun e _ => (flat_object (by simp) (by simp) : Flat 1 e.toJson).mono (by decide)

namespace Corpus

def envelope (corpus : Corpus) : Value :=
  .object (ofEntries [("schema", .string corpusSchema),
    ("cases", .array (corpus.cases.map LabeledCase.toJson))])

def corpusHash [External] (corpus : Corpus) : Except CanonError ContentHash := do
  let bytes ← canonicalBytes corpus.envelope
  return sha256 bytes

theorem flat (corpus : Corpus) : Flat 6 corpus.envelope := by
  apply flat_object (by simp)
  intro e h
  simp only [List.mem_cons, List.not_mem_nil, or_false] at h
  rcases h with rfl | rfl
  · exact flat_string 5 _
  · apply flat_array
    simp only [List.forall_mem_map]
    exact fun c _ => c.flat

theorem corpusHash_ok [External] (corpus : Corpus) : ∃ h, corpus.corpusHash = .ok h := by
  rw [corpusHash, canonicalBytes_flat corpus.flat (by decide)]
  exact ⟨_, rfl⟩

end Corpus

/-- `u128`, from `0` to `2^128 - 1`. -/
abbrev U128 := Bounded 0 340282366920938463463374607431768211456

def U64.toU128 (n : U64) : U128 := ⟨n.val, n.lower, n.upper.trans (by decide)⟩

/-- An exact rational. -/
structure Ratio where
  numerator : U64
  denominator : U64

namespace Ratio

/-- Comparison by cross-multiplication. -/
def atLeast (a b : Ratio) : Bool :=
  let left := a.numerator.toU128.saturatingMul b.denominator.toU128
  let right := b.numerator.toU128.saturatingMul a.denominator.toU128
  right ≤ left

def share (part rest : U64) : Ratio :=
  let denominator := part.saturatingAdd rest
  if denominator = 0 then ⟨.literal 1, .literal 1⟩ else ⟨part, denominator⟩

end Ratio

structure CaseResult where
  name : String
  autoTp : U64
  autoFp : U64
  queuedExpected : U64
  queuedUnexpected : U64
  missed : U64

structure CorpusReport where
  corpusHash : ContentHash
  configHash : ContentHash
  perCase : List CaseResult
  autoTp : U64
  autoFp : U64
  queuedExpected : U64
  queuedUnexpected : U64
  missed : U64

namespace CorpusReport

def autoPrecision (r : CorpusReport) : Ratio := .share r.autoTp r.autoFp

/-- A queued pair counts as found. -/
def foundRecall (r : CorpusReport) : Ratio :=
  .share (r.autoTp.saturatingAdd r.queuedExpected) r.missed

end CorpusReport

structure SloTargets where
  minAutoPrecision : Ratio
  minFoundRecall : Ratio
  maxMissed : U64

inductive SloViolation where
  | autoPrecision (measured : Ratio)
  | foundRecall (measured : Ratio)
  | missed (measured : U64)

def sloCheck (report : CorpusReport) (targets : SloTargets) : List SloViolation :=
  let precision := report.autoPrecision
  let found := report.foundRecall
  (if precision.atLeast targets.minAutoPrecision then [] else [.autoPrecision precision]) ++
    (if found.atLeast targets.minFoundRecall then [] else [.foundRecall found]) ++
    (if targets.maxMissed < report.missed then [.missed report.missed] else [])

namespace CaseResult

def empty (name : String) : CaseResult := ⟨name, 0, 0, 0, 0, 0⟩

def count (expected : List (LegId × LegId)) (r : CaseResult) (p : MatchProposal) : CaseResult :=
  match p.disposition, decide (p.pair ∈ expected) with
  | .autoNet, true => { r with autoTp := r.autoTp.saturatingAdd (.literal 1) }
  | .autoNet, false => { r with autoFp := r.autoFp.saturatingAdd (.literal 1) }
  | .queue, true => { r with queuedExpected := r.queuedExpected.saturatingAdd (.literal 1) }
  | .queue, false => { r with queuedUnexpected := r.queuedUnexpected.saturatingAdd (.literal 1) }

/-- One more expected pair, which some proposal has to surface. -/
def miss (surfaced : List (LegId × LegId)) (r : CaseResult) (pair : LegId × LegId) : CaseResult :=
  if pair ∈ surfaced then r else { r with missed := r.missed.saturatingAdd (.literal 1) }

def add (totals r : CaseResult) : CaseResult :=
  { totals with
    autoTp := totals.autoTp.saturatingAdd r.autoTp
    autoFp := totals.autoFp.saturatingAdd r.autoFp
    queuedExpected := totals.queuedExpected.saturatingAdd r.queuedExpected
    queuedUnexpected := totals.queuedUnexpected.saturatingAdd r.queuedUnexpected
    missed := totals.missed.saturatingAdd r.missed }

end CaseResult

namespace LabeledCase

/-- The expected pairs as a set, whose order plays no part. -/
def expected (c : LabeledCase) : List (LegId × LegId) := (c.expectedNets.map ExpectedNet.pair).dedup

def result (c : LabeledCase) (proposals : List MatchProposal) : CaseResult :=
  let counted := proposals.foldl (CaseResult.count c.expected) (.empty c.name)
  c.expected.foldl (CaseResult.miss (proposals.map MatchProposal.pair)) counted

def evaluate [External] (config : MatcherConfig) (c : LabeledCase) : Except MatchError CaseResult :=
  (matchLegs c.legs config).map fun outcome => c.result outcome.proposals

end LabeledCase

def CorpusReport.ofCases (corpusHash configHash : ContentHash) (perCase : List CaseResult) :
    CorpusReport :=
  let totals := perCase.foldl CaseResult.add (.empty "")
  ⟨corpusHash, configHash, perCase, totals.autoTp, totals.autoFp, totals.queuedExpected,
    totals.queuedUnexpected, totals.missed⟩

def evaluate [External] (corpus : Corpus) (config : MatcherConfig) : Except MatchError CorpusReport := do
  let corpusHash ← corpus.corpusHash.mapError .canon
  let configHash ← config.configHash.mapError .canon
  let perCase ← corpus.cases.mapM (LabeledCase.evaluate config)
  return .ofCases corpusHash configHash perCase

end Treasury
