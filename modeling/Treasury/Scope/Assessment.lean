import Treasury.Evidence.Canon

/-! Scope assessments: six criteria, the verdict that follows from them and the hash that
commits to the whole. -/
namespace Treasury.Scope
open Kit Kit.Json

def assessmentSchema : String := "treasury-scope/assessment/v1"

inductive Criterion where
  | intangibleAsset
  | noEnforceableClaim
  | onDistributedLedger
  | cryptographicallySecured
  | fungible
  | notSelfIssued
  deriving DecidableEq

def Criterion.toJson : Criterion → Value
  | .intangibleAsset => .string "intangible_asset"
  | .noEnforceableClaim => .string "no_enforceable_claim"
  | .onDistributedLedger => .string "on_distributed_ledger"
  | .cryptographicallySecured => .string "cryptographically_secured"
  | .fungible => .string "fungible"
  | .notSelfIssued => .string "not_self_issued"

inductive CriterionStatus where
  | met
  | notMet
  | undetermined
  deriving DecidableEq

def CriterionStatus.toJson : CriterionStatus → Value
  | .met => .string "met"
  | .notMet => .string "not_met"
  | .undetermined => .string "undetermined"

structure CriteriaAssessment where
  intangibleAsset : CriterionStatus
  noEnforceableClaim : CriterionStatus
  onDistributedLedger : CriterionStatus
  cryptographicallySecured : CriterionStatus
  fungible : CriterionStatus
  notSelfIssued : CriterionStatus
  deriving DecidableEq

namespace CriteriaAssessment

def entries (c : CriteriaAssessment) : List (Criterion × CriterionStatus) :=
  [(.intangibleAsset, c.intangibleAsset), (.noEnforceableClaim, c.noEnforceableClaim),
    (.onDistributedLedger, c.onDistributedLedger),
    (.cryptographicallySecured, c.cryptographicallySecured), (.fungible, c.fungible),
    (.notSelfIssued, c.notSelfIssued)]

def members (c : CriteriaAssessment) : List (String × Value) :=
  [("intangible_asset", c.intangibleAsset.toJson),
    ("no_enforceable_claim", c.noEnforceableClaim.toJson),
    ("on_distributed_ledger", c.onDistributedLedger.toJson),
    ("cryptographically_secured", c.cryptographicallySecured.toJson),
    ("fungible", c.fungible.toJson), ("not_self_issued", c.notSelfIssued.toJson)]

def toJson (c : CriteriaAssessment) : Value := .object (ofEntries c.members)

/-- All six criteria are positively established. -/
structure AllMet (c : CriteriaAssessment) : Prop where
  intangibleAsset : c.intangibleAsset = .met
  noEnforceableClaim : c.noEnforceableClaim = .met
  onDistributedLedger : c.onDistributedLedger = .met
  cryptographicallySecured : c.cryptographicallySecured = .met
  fungible : c.fungible = .met
  notSelfIssued : c.notSelfIssued = .met

def status (c : CriteriaAssessment) : Criterion → CriterionStatus
  | .intangibleAsset => c.intangibleAsset
  | .noEnforceableClaim => c.noEnforceableClaim
  | .onDistributedLedger => c.onDistributedLedger
  | .cryptographicallySecured => c.cryptographicallySecured
  | .fungible => c.fungible
  | .notSelfIssued => c.notSelfIssued

def withStatus (c : CriteriaAssessment) (s : CriterionStatus) : List Criterion :=
  [.intangibleAsset, .noEnforceableClaim, .onDistributedLedger, .cryptographicallySecured,
    .fungible, .notSelfIssued].filter (c.status · = s)

theorem mem_withStatus {c : CriteriaAssessment} {s : CriterionStatus} {criterion : Criterion} :
    criterion ∈ c.withStatus s ↔ c.status criterion = s := by
  rw [withStatus, List.mem_filter, decide_eq_true_iff]
  exact and_iff_right (by cases criterion <;> simp)

theorem entries_withStatus (c : CriteriaAssessment) (s : CriterionStatus) :
    (c.entries.filter (·.2 = s)).map Prod.fst = c.withStatus s := by
  have listed : c.entries = [.intangibleAsset, .noEnforceableClaim, .onDistributedLedger,
      .cryptographicallySecured, .fungible, .notSelfIssued].map fun k => (k, c.status k) := rfl
  rw [listed, List.filter_map, List.map_map]
  exact List.map_id _

theorem allMet_iff {c : CriteriaAssessment} : c.AllMet ↔ ∀ k, c.status k = .met := by
  constructor
  · rintro ⟨⟩ k
    cases k <;> assumption
  · intro met
    exact ⟨met .intangibleAsset, met .noEnforceableClaim, met .onDistributedLedger,
      met .cryptographicallySecured, met .fungible, met .notSelfIssued⟩

end CriteriaAssessment

inductive ScopeVerdict where
  | inScope
  | outOfScope (notMet undetermined : List Criterion)
  deriving DecidableEq

def ScopeVerdict.members : ScopeVerdict → List (String × Value)
  | .inScope => [("verdict", .string "in_scope")]
  | .outOfScope notMet undetermined =>
    [("verdict", .string "out_of_scope"), ("not_met", .array (notMet.map Criterion.toJson)),
      ("undetermined", .array (undetermined.map Criterion.toJson))]

def ScopeVerdict.toJson (v : ScopeVerdict) : Value := .object (ofEntries v.members)

structure ScopeAssessment where
  tenant : TenantId
  asset : AssetId
  criteria : CriteriaAssessment
  policyHash : ContentHash
  deriving DecidableEq

inductive ScopeError where
  | notConfirmed
  | canon (error : CanonError)
  deriving DecidableEq

theorem CriterionStatus.toJson_injective {a b : CriterionStatus} (h : a.toJson = b.toJson) :
    a = b := by
  cases a <;> cases b <;> first | rfl | exact absurd (Value.string.inj h) (by decide)

theorem CriterionStatus.flat (s : CriterionStatus) (n : Nat) : Flat n s.toJson := by
  cases s <;> exact flat_string n _

namespace CriteriaAssessment

theorem toJson_injective {c d : CriteriaAssessment} (h : c.toJson = d.toJson) : c = d := by
  have same := ofEntries_injective (by simp [members]) (by simp [members]) (Value.object.inj h)
  simp only [members, List.cons.injEq, Prod.mk.injEq, true_and, and_true] at same
  obtain ⟨first, second, third, fourth, fifth, sixth⟩ := same
  cases c; cases d
  simp only [mk.injEq]
  exact ⟨CriterionStatus.toJson_injective first, CriterionStatus.toJson_injective second,
    CriterionStatus.toJson_injective third, CriterionStatus.toJson_injective fourth,
    CriterionStatus.toJson_injective fifth, CriterionStatus.toJson_injective sixth⟩

theorem flat (c : CriteriaAssessment) : Flat 1 c.toJson := by
  apply flat_object (by simp [members])
  intro e h
  simp only [members, List.mem_cons, List.not_mem_nil, or_false] at h
  rcases h with rfl | rfl | rfl | rfl | rfl | rfl <;> exact CriterionStatus.flat _ 0

end CriteriaAssessment

namespace ScopeAssessment

def members (a : ScopeAssessment) : List (String × Value) :=
  [("schema", .string assessmentSchema), ("tenant", .string a.tenant.value),
    ("asset", .string a.asset.value), ("criteria", a.criteria.toJson),
    ("policy", .string a.policyHash.toHex)]

def envelope (a : ScopeAssessment) : Value := .object (ofEntries a.members)

def assessmentHash [External] (a : ScopeAssessment) : Except ScopeError ContentHash :=
  match canonicalBytes a.envelope with
  | .error e => .error (.canon e)
  | .ok bytes => .ok (sha256 bytes)

/-- In scope when no criterion has failed and none is left open. -/
def verdict (a : ScopeAssessment) : ScopeVerdict :=
  let notMet := (a.criteria.entries.filter (·.2 = .notMet)).map Prod.fst
  let undetermined := (a.criteria.entries.filter (·.2 = .undetermined)).map Prod.fst
  if notMet.isEmpty ∧ undetermined.isEmpty then .inScope else .outOfScope notMet undetermined

theorem verdict_inScope {a : ScopeAssessment} : a.verdict = .inScope ↔ a.criteria.AllMet := by
  have none (s : CriterionStatus) : (a.criteria.withStatus s).isEmpty ↔
      ∀ k, a.criteria.status k ≠ s := by
    simp only [List.isEmpty_iff, List.eq_nil_iff_forall_not_mem,
      CriteriaAssessment.mem_withStatus, ne_eq]
  simp only [verdict, CriteriaAssessment.entries_withStatus, none, CriteriaAssessment.allMet_iff,
    ← forall_and, apply_ite (· = ScopeVerdict.inScope), reduceCtorEq, if_false_right,
    and_true]
  refine forall_congr' fun k => ?_
  cases a.criteria.status k <;> simp

theorem verdict_outOfScope {a : ScopeAssessment} {notMet undetermined : List Criterion} :
    a.verdict = .outOfScope notMet undetermined ↔ ¬a.criteria.AllMet ∧
      notMet = a.criteria.withStatus .notMet ∧
        undetermined = a.criteria.withStatus .undetermined := by
  rw [← verdict_inScope]
  simp only [verdict, CriteriaAssessment.entries_withStatus]
  split
  · simp
  · simp [eq_comm]

theorem envelope_injective {a b : ScopeAssessment} (h : a.envelope = b.envelope) : a = b := by
  have same := ofEntries_injective (by simp [members]) (by simp [members]) (Value.object.inj h)
  simp only [members, List.cons.injEq, Prod.mk.injEq, true_and, and_true, Value.string.injEq,
    ContentHash.toHex_inj] at same
  obtain ⟨tenant, asset, criteria, policy⟩ := same
  obtain ⟨⟨tenantA⟩, ⟨assetA⟩, criteriaA, policyA⟩ := a
  obtain ⟨⟨tenantB⟩, ⟨assetB⟩, criteriaB, policyB⟩ := b
  obtain rfl : tenantA = tenantB := tenant
  obtain rfl : assetA = assetB := asset
  obtain rfl : criteriaA = criteriaB := CriteriaAssessment.toJson_injective criteria
  obtain rfl : policyA = policyB := policy
  rfl

theorem flat (a : ScopeAssessment) : Flat 2 a.envelope := by
  apply flat_object (by simp [members])
  intro e h
  simp only [members, List.mem_cons, List.not_mem_nil, or_false] at h
  rcases h with rfl | rfl | rfl | rfl | rfl
  · exact flat_string 1 _
  · exact flat_string 1 _
  · exact flat_string 1 _
  · exact a.criteria.flat
  · exact flat_string 1 _

section
variable [External]

def bytes (a : ScopeAssessment) : Bytes := utf8 (toText a.envelope)

def key (a : ScopeAssessment) : ContentHash := sha256 a.bytes

theorem assessmentHash_eq (a : ScopeAssessment) : a.assessmentHash = .ok a.key := by
  rw [assessmentHash, canonicalBytes_flat a.flat (by decide)]
  rfl

theorem bytes_injective {a b : ScopeAssessment} (h : a.bytes = b.bytes) : a = b :=
  envelope_injective (toText_flat_injective a.flat b.flat h)

end

end ScopeAssessment

end Treasury.Scope
