import Mathlib.Data.Finmap
import Mathlib.Data.Finset.Sort
import Treasury.Evidence.Canon
import Treasury.Reconcile.Leg

/-! The matcher's configuration and its proposals, each with the hash that commits to it. -/
namespace Treasury
open Kit Kit.Json

def configSchema : String := "treasury-reconcile/matcher-config/v1"

def decisionSchema : String := "treasury-reconcile/decision/v1"

structure MatcherConfig where
  timeWindowNs : I64
  materialityAtoms : Finmap fun _ : AssetId => I128

namespace MatcherConfig

/-- An asset without an entry has threshold zero. -/
def thresholdFor (config : MatcherConfig) (asset : AssetId) : I128 :=
  (config.materialityAtoms.lookup asset).getD 0

def materiality (config : MatcherConfig) : List (String × Value) :=
  config.materialityAtoms.keys.sort.map fun asset =>
    (asset.value, .string (config.thresholdFor asset).val.repr)

def envelope (config : MatcherConfig) : Value :=
  .object (ofEntries [("schema", .string configSchema),
    ("time_window_ns", .string config.timeWindowNs.val.repr),
    ("materiality_atoms", .object (ofEntries config.materiality))])

def configHash [External] (config : MatcherConfig) : Except CanonError ContentHash := do
  let bytes ← canonicalBytes config.envelope
  return sha256 bytes

theorem materiality_distinct (config : MatcherConfig) :
    (config.materiality.map Prod.fst).Nodup := by
  rw [materiality, List.map_map]
  exact (Finset.sort_nodup _ _).map fun _ _ => AssetId.ext_value

theorem flat (config : MatcherConfig) : Flat 2 config.envelope := by
  apply flat_object (by simp)
  intro e h
  simp only [List.mem_cons, List.not_mem_nil, or_false] at h
  rcases h with rfl | rfl | rfl
  · exact flat_string 1 _
  · exact flat_string 1 _
  · apply flat_object config.materiality_distinct
    intro e h
    obtain ⟨asset, _, rfl⟩ := List.mem_map.mp h
    exact flat_string 0 _

theorem configHash_ok [External] (config : MatcherConfig) : ∃ h, config.configHash = .ok h := by
  rw [configHash, canonicalBytes_flat config.flat (by decide)]
  exact ⟨_, rfl⟩

end MatcherConfig

inductive Tier where
  | deterministic
  | strongCorroboration
  | probabilistic
  deriving DecidableEq

def Tier.toJson : Tier → Value
  | .deterministic => .string "deterministic"
  | .strongCorroboration => .string "strong_corroboration"
  | .probabilistic => .string "probabilistic"

inductive Disposition where
  | autoNet
  | queue
  deriving DecidableEq

def Disposition.toJson : Disposition → Value
  | .autoNet => .string "auto_net"
  | .queue => .string "queue"

structure MatchProposal where
  outLeg : LegId
  inLeg : LegId
  tier : Tier
  disposition : Disposition
  configHash : ContentHash
  deriving DecidableEq

namespace MatchProposal

def members (p : MatchProposal) : List (String × Value) :=
  [("schema", .string decisionSchema), ("out_leg", .string p.outLeg.toHex),
    ("in_leg", .string p.inLeg.toHex), ("tier", p.tier.toJson),
    ("disposition", p.disposition.toJson), ("config", .string p.configHash.toHex)]

def envelope (p : MatchProposal) : Value := .object (ofEntries p.members)

def decisionHash [External] (p : MatchProposal) : Except CanonError ContentHash := do
  let bytes ← canonicalBytes p.envelope
  return sha256 bytes

theorem envelope_injective {p q : MatchProposal} (h : p.envelope = q.envelope) : p = q := by
  have same := ofEntries_injective (by simp [members]) (by simp [members]) (Value.object.inj h)
  simp only [members, List.cons.injEq, Prod.mk.injEq, true_and, and_true, Value.string.injEq,
    ContentHash.toHex_inj] at same
  obtain ⟨outLeg, inLeg, tier, disposition, config⟩ := same
  obtain ⟨outP, inP, tierP, dispositionP, configP⟩ := p
  obtain ⟨outQ, inQ, tierQ, dispositionQ, configQ⟩ := q
  obtain rfl : outP = outQ := outLeg
  obtain rfl : inP = inQ := inLeg
  obtain rfl : configP = configQ := config
  have tiers : tierP = tierQ := by cases tierP <;> cases tierQ <;> simp_all [Tier.toJson]
  have dispositions : dispositionP = dispositionQ := by
    cases dispositionP <;> cases dispositionQ <;> simp_all [Disposition.toJson]
  rw [tiers, dispositions]

theorem flat (p : MatchProposal) : Flat 1 p.envelope := by
  apply flat_object (by simp [members])
  intro e h
  simp only [members, List.mem_cons, List.not_mem_nil, or_false] at h
  rcases h with rfl | rfl | rfl | rfl | rfl | rfl
  · exact flat_string 0 _
  · exact flat_string 0 _
  · exact flat_string 0 _
  · cases p.tier <;> exact flat_string 0 _
  · cases p.disposition <;> exact flat_string 0 _
  · exact flat_string 0 _

section
variable [External]

def bytes (p : MatchProposal) : Bytes := utf8 (toText p.envelope)

def decision (p : MatchProposal) : ContentHash := sha256 p.bytes

theorem decisionHash_eq (p : MatchProposal) : p.decisionHash = .ok p.decision := by
  rw [decisionHash, canonicalBytes_flat p.flat (by decide)]
  rfl

theorem bytes_injective {p q : MatchProposal} (h : p.bytes = q.bytes) : p = q :=
  envelope_injective (toText_flat_injective p.flat q.flat h)

end

end MatchProposal

end Treasury
