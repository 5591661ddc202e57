import Treasury.Chainsource.Reconcile
import Treasury.Kit.Reorg
import Treasury.Kit.Steps

/-! Sources that can answer differently each time they are asked, as a node does whose best
chain changes, and the gate and the comparison over them. -/
namespace Treasury.Chainsource
open Kit Kit.Json

/-- A source over a world that its answers may change. -/
structure LiveSource (W : Type) where
  chain : Chain
  sourceId : String
  addressHistory : String → U64 → Steps W SourceError AddressHistory

inductive ReproError where
  | notReproducible (sourceId : String) (first second : ContentHash)
  | source (error : SourceError)
  | history (error : HistoryError)

def finalitySchema : String := "treasury-chainsource/finality-policy/v1"

def FinalityRule.members : FinalityRule → List (String × Value)
  | .confirmationDepth depth => [("kind", .string "confirmation_depth"), ("depth", depth.toJson)]
  | .externalFinalized => [("kind", .string "external_finalized")]

def FinalityRule.toJson (rule : FinalityRule) : Value := .object (ofEntries rule.members)

def FinalityPolicy.toJson (policy : FinalityPolicy) : Value :=
  .object (ofEntries [("schema", .string finalitySchema), ("chain", policy.chain.toJson),
    ("rule", policy.rule.toJson)])

namespace LiveSource

variable {W : Type}

def settledView (source : LiveSource W) (address : String) (observedHeight settledToHeight : U64) :
    Steps W SourceError AddressHistory := do
  let history ← source.addressHistory address observedHeight
  return { history with settledToHeight := settledToHeight }

section
variable [External]

def reconcile (sourceA sourceB : LiveSource W) (policy : FinalityPolicy) (address : String)
    (observedHeight : U64) : Steps W ReconcileError Reconciliation :=
  if sourceA.chain ≠ policy.chain ∨ sourceB.chain ≠ policy.chain ∨ sourceA.chain ≠ sourceB.chain then
    Steps.fail .chainMismatch
  else do
    let settledToHeight := policy.settledHeight observedHeight
    let historyA ← Steps.raise .source
      (sourceA.settledView address observedHeight settledToHeight)
    let historyB ← Steps.raise .source
      (sourceB.settledView address observedHeight settledToHeight)
    let hashA ← Steps.lift (historyA.historyHash.mapError .history)
    let hashB ← Steps.lift (historyB.historyHash.mapError .history)
    return if hashA = hashB then .agreed historyA hashA
      else .diverged (sourceA.sourceId, hashA) (sourceB.sourceId, hashB) settledToHeight

def settledHash (source : LiveSource W) (address : String) (observedHeight settledToHeight : U64) :
    Steps W ReproError ContentHash := do
  let view ← Steps.raise .source (source.settledView address observedHeight settledToHeight)
  Steps.lift (view.historyHash.mapError .history)

def reproducibilityGate (source : LiveSource W) (policy : FinalityPolicy) (address : String)
    (observedHeight : U64) : Steps W ReproError ContentHash :=
  if source.chain ≠ policy.chain then Steps.fail (.source .chainMismatch)
  else do
    let settledToHeight := policy.settledHeight observedHeight
    let first ← source.settledHash address observedHeight settledToHeight
    let second ← source.settledHash address observedHeight settledToHeight
    if first = second then return first
    else Steps.fail (.notReproducible source.sourceId first second)

end

def Tells (source : LiveSource W) (address : String) (observedHeight : U64) (w : W)
    (answer : AddressHistory) (next : W) : Prop :=
  source.addressHistory address observedHeight w = (next, .ok answer)

end LiveSource

/-- The hash of what a history says up to a height. -/
def AddressHistory.hashTo [External] (h : AddressHistory) (height : U64) : ContentHash :=
  sha256 (h.settledTo height).bytes

/-- One chain, one address, and the same movements up to a height with ties in one order. -/
def Alike (a b : AddressHistory) (height : U64) : Prop :=
  a.chain = b.chain ∧ a.address = b.address ∧ TiesAlike a b height

theorem Alike.trans {a b c : AddressHistory} {height : U64} (first : Alike a b height)
    (second : Alike b c height) : Alike a c height :=
  ⟨first.1.trans second.1, first.2.1.trans second.2.1,
    fun key => (first.2.2 key).trans (second.2.2 key)⟩

theorem Alike.symm {a b : AddressHistory} {height : U64} (alike : Alike a b height) :
    Alike b a height :=
  ⟨alike.1.symm, alike.2.1.symm, fun key => (alike.2.2 key).symm⟩

section
variable [External] {a b : AddressHistory} {height : U64}

theorem Alike.hashTo_eq (alike : Alike a b height) : a.hashTo height = b.hashTo height :=
  congrArg sha256 (bytes_eq_of_ties alike.2.2 alike.1 alike.2.1)

theorem hashTo_eq_iff
    (injective : Set.InjOn sha256 {(a.settledTo height).bytes, (b.settledTo height).bytes}) :
    a.hashTo height = b.hashTo height ↔ Alike a b height := by
  constructor
  · intro same
    have bytes := injective (by simp) (by simp) same
    obtain ⟨chain, address, _, alike⟩ :=
      AddressHistory.envelope_eq_iff.mp (AddressHistory.bytes_eq_iff.mp bytes)
    exact ⟨chain, address, alike⟩
  · exact Alike.hashTo_eq

end

namespace LiveSource

variable {W : Type} {source sourceA sourceB : LiveSource W} {policy : FinalityPolicy}
  {address : String} {observed settled : U64} {w next : W}

theorem settledView_eq_ok {view : AddressHistory} :
    source.settledView address observed settled w = (next, .ok view) ↔
      ∃ answer, source.Tells address observed w answer next ∧ view = answer.settledTo settled := by
  unfold settledView
  rw [Steps.bind_eq_ok]
  constructor
  · rintro ⟨_, answer, told, same⟩
    cases same
    exact ⟨answer, told, rfl⟩
  · rintro ⟨answer, told, rfl⟩
    exact ⟨next, answer, told, rfl⟩

variable [External]

theorem settledHash_eq_ok {hash : ContentHash} :
    source.settledHash address observed settled w = (next, .ok hash) ↔
      ∃ answer, source.Tells address observed w answer next ∧ answer.hashTo settled = hash := by
  unfold settledHash
  rw [Steps.bind_eq_ok]
  constructor
  · rintro ⟨between, view, viewed, hashed⟩
    obtain ⟨answer, told, rfl⟩ := settledView_eq_ok.mp (Steps.raise_eq_ok.mp viewed)
    rw [AddressHistory.historyHash_eq] at hashed
    cases hashed
    exact ⟨answer, told, rfl⟩
  · rintro ⟨answer, told, rfl⟩
    refine ⟨next, answer.settledTo settled,
      Steps.raise_eq_ok.mpr (settledView_eq_ok.mpr ⟨answer, told, rfl⟩), ?_⟩
    rw [AddressHistory.historyHash_eq]
    rfl

theorem reproducibilityGate_eq_ok {hash : ContentHash} :
    source.reproducibilityGate policy address observed w = (next, .ok hash) ↔
      source.chain = policy.chain ∧ ∃ first between second,
        source.Tells address observed w first between ∧
        source.Tells address observed between second next ∧
        first.hashTo (policy.settledHeight observed) = hash ∧
        second.hashTo (policy.settledHeight observed) = hash := by
  unfold reproducibilityGate
  by_cases other : source.chain ≠ policy.chain
  · rw [if_pos other]
    constructor
    · intro passed
      cases passed
    · exact fun ⟨same, _⟩ => absurd same other
  · rw [if_neg other, Steps.bind_eq_ok]
    constructor
    · rintro ⟨between, one, asked, passed⟩
      obtain ⟨last, two, again, passed⟩ := Steps.bind_eq_ok.mp passed
      obtain ⟨first, told, rfl⟩ := settledHash_eq_ok.mp asked
      obtain ⟨second, repeated, rfl⟩ := settledHash_eq_ok.mp again
      split at passed
      · rename_i same
        cases passed
        exact ⟨not_not.mp other, first, between, second, told, repeated, rfl, same.symm⟩
      · cases passed
    · rintro ⟨_, first, between, second, told, repeated, rfl, same⟩
      refine ⟨between, _, settledHash_eq_ok.mpr ⟨first, told, rfl⟩,
        Steps.bind_eq_ok.mpr ⟨next, _, settledHash_eq_ok.mpr ⟨second, repeated, rfl⟩, ?_⟩⟩
      rw [if_pos same.symm]
      rfl

theorem settledHash_ne_notReproducible {id : String} {one two : ContentHash} :
    source.settledHash address observed settled w ≠ (next, .error (.notReproducible id one two)) := by
  unfold settledHash
  intro failed
  rcases Steps.bind_eq_error.mp failed with viewed | ⟨_, view, _, hashed⟩
  · obtain ⟨_, _, other⟩ := Steps.raise_eq_error.mp viewed
    cases other
  · rw [AddressHistory.historyHash_eq] at hashed
    cases hashed

theorem reproducibilityGate_notReproducible {id : String} {one two : ContentHash} :
    source.reproducibilityGate policy address observed w =
        (next, .error (.notReproducible id one two)) ↔
      source.chain = policy.chain ∧ id = source.sourceId ∧ one ≠ two ∧
        ∃ first between second, source.Tells address observed w first between ∧
          source.Tells address observed between second next ∧
          first.hashTo (policy.settledHeight observed) = one ∧
          second.hashTo (policy.settledHeight observed) = two := by
  unfold reproducibilityGate
  by_cases other : source.chain ≠ policy.chain
  · rw [if_pos other]
    constructor
    · intro failed
      cases failed
    · exact fun ⟨same, _⟩ => absurd same other
  · rw [if_neg other]
    constructor
    · intro failed
      rcases Steps.bind_eq_error.mp failed with early | ⟨between, _, asked, failed⟩
      · exact absurd early settledHash_ne_notReproducible
      · rcases Steps.bind_eq_error.mp failed with early | ⟨_, _, again, failed⟩
        · exact absurd early settledHash_ne_notReproducible
        · obtain ⟨first, told, rfl⟩ := settledHash_eq_ok.mp asked
          obtain ⟨second, repeated, rfl⟩ := settledHash_eq_ok.mp again
          split at failed
          · cases failed
          · rename_i differ
            cases failed
            exact ⟨not_not.mp other, rfl, differ, first, between, second, told, repeated, rfl, rfl⟩
    · rintro ⟨_, rfl, differ, first, between, second, told, repeated, rfl, rfl⟩
      refine (Steps.bind_of_ok (settledHash_eq_ok.mpr ⟨first, told, rfl⟩)).trans
        ((Steps.bind_of_ok (settledHash_eq_ok.mpr ⟨second, repeated, rfl⟩)).trans ?_)
      rw [if_neg differ]
      rfl

theorem reconcile_eq_ok {report : Reconciliation} :
    sourceA.reconcile sourceB policy address observed w = (next, .ok report) ↔
      sourceA.chain = policy.chain ∧ sourceB.chain = policy.chain ∧ ∃ a between b,
        sourceA.Tells address observed w a between ∧ sourceB.Tells address observed between b next ∧
        report = if a.hashTo (policy.settledHeight observed) =
            b.hashTo (policy.settledHeight observed) then
          .agreed (a.settledTo (policy.settledHeight observed))
            (a.hashTo (policy.settledHeight observed))
        else .diverged (sourceA.sourceId, a.hashTo (policy.settledHeight observed))
          (sourceB.sourceId, b.hashTo (policy.settledHeight observed))
          (policy.settledHeight observed) := by
  unfold reconcile
  split
  · rename_i other
    constructor
    · intro reported
      cases reported
    · rintro ⟨chainA, chainB, _⟩
      simp [chainA, chainB] at other
  · rename_i same
    push Not at same
    rw [Steps.bind_eq_ok]
    constructor
    · rintro ⟨between, viewA, askedA, reported⟩
      obtain ⟨last, viewB, askedB, reported⟩ := Steps.bind_eq_ok.mp reported
      obtain ⟨a, toldA, rfl⟩ := settledView_eq_ok.mp (Steps.raise_eq_ok.mp askedA)
      obtain ⟨b, toldB, rfl⟩ := settledView_eq_ok.mp (Steps.raise_eq_ok.mp askedB)
      rw [AddressHistory.historyHash_eq, AddressHistory.historyHash_eq] at reported
      cases reported
      exact ⟨same.1, same.2.1, a, between, b, toldA, toldB, rfl⟩
    · rintro ⟨_, _, a, between, b, toldA, toldB, rfl⟩
      refine ⟨between, _, Steps.raise_eq_ok.mpr (settledView_eq_ok.mpr ⟨a, toldA, rfl⟩),
        Steps.bind_eq_ok.mpr ⟨next, _,
          Steps.raise_eq_ok.mpr (settledView_eq_ok.mpr ⟨b, toldB, rfl⟩), ?_⟩⟩
      rw [AddressHistory.historyHash_eq, AddressHistory.historyHash_eq]
      rfl

def still (source : ChainSource) : LiveSource W where
  chain := source.chain
  sourceId := source.sourceId
  addressHistory address observedHeight := Steps.lift (source.addressHistory address observedHeight)

theorem reconcile_still (a b : ChainSource) :
    (still a).reconcile (still b) policy address observed w =
      (w, Chainsource.reconcile a b policy address observed) := by
  unfold reconcile Chainsource.reconcile
  split
  · rw [if_pos (by assumption)]
    rfl
  · rw [if_neg (by assumption)]
    cases answeredA : a.addressHistory address observed <;>
      cases answeredB : b.addressHistory address observed <;>
      simp only [settledView, Chainsource.settledView, still, Steps.lift, Steps.raise, bind, pure,
        answeredA, answeredB, Except.bind, Except.pure, Except.mapError,
        AddressHistory.historyHash_eq]

end LiveSource

theorem FinalityRule.toJson_injective {a b : FinalityRule} (same : a.toJson = b.toJson) : a = b := by
  have distinct (r : FinalityRule) : (r.members.map Prod.fst).Nodup := by cases r <;> simp [members]
  have entries := Value.object.inj same
  have member (key : String) : lookup key a.members = lookup key b.members := by
    rw [← lookup_ofEntries _ (distinct a), ← lookup_ofEntries _ (distinct b), entries]
  have depths := member "depth"
  cases a <;> cases b <;> simp [members, lookup] at depths ⊢
  exact U64.toJson_injective depths

theorem FinalityPolicy.toJson_injective {a b : FinalityPolicy} (same : a.toJson = b.toJson) :
    a = b := by
  have members := ofEntries_injective (by simp) (by simp) (Value.object.inj same)
  simp only [List.cons.injEq, Prod.mk.injEq, true_and, and_true] at members
  obtain ⟨chain, rule⟩ := members
  cases a
  cases b
  cases Chain.toJson_injective chain
  cases FinalityRule.toJson_injective rule
  rfl

theorem FinalityRule.flat (rule : FinalityRule) : Flat 1 rule.toJson := by
  cases rule with
  | confirmationDepth depth => exact flat_object (by simp [members]) (by simp [members, U64.toJson])
  | externalFinalized => exact flat_object (by simp [members]) (by simp [members])

theorem FinalityPolicy.flat (policy : FinalityPolicy) : Flat 2 policy.toJson := by
  refine flat_object (by simp) ?_
  cases policy with
  | mk chain rule => cases chain <;> simp [Chain.toJson, FinalityRule.flat]

section
variable [External]

def FinalityPolicy.policyHash (policy : FinalityPolicy) : Except CanonError ContentHash := do
  let bytes ← canonicalBytes policy.toJson
  return sha256 bytes

theorem FinalityPolicy.policyHash_eq (policy : FinalityPolicy) :
    policy.policyHash = .ok (sha256 (utf8 (toText policy.toJson))) := by
  simp [policyHash, canonicalBytes_flat policy.flat (by decide)]

theorem FinalityPolicy.policyHash_eq_iff {a b : FinalityPolicy} (injective : Set.InjOn sha256
    {utf8 (toText a.toJson), utf8 (toText b.toJson)}) : a.policyHash = b.policyHash ↔ a = b := by
  constructor
  · intro same
    rw [policyHash_eq, policyHash_eq] at same
    have texts := injective (by simp) (by simp) (Except.ok.inj same)
    exact toJson_injective (toText_flat_injective a.flat b.flat texts)
  · exact congrArg _

end

end Treasury.Chainsource
