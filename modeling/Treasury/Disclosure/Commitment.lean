import Treasury.Close.Checkpoint
import Treasury.Disclosure.Pack

/-! The hash of a disclosure pack: it can always be taken, and it commits to every member. -/
namespace Treasury
open Kit Kit.Json

def packSchema : String := "treasury-disclosure/pack/v1"

inductive PackError where
  | canon (error : CanonError)
  deriving DecidableEq

def RollForwardRow.toJson (row : RollForwardRow) : Value :=
  .object (ofEntries [("asset", .string row.asset.value), ("opening", row.opening.toJson),
    ("additions", row.additions.toJson), ("disposals", row.disposals.toJson),
    ("remeasurement", row.remeasurement.toJson), ("closing", row.closing.toJson),
    ("evidence", hashesJson row.evidence)])

theorem RollForwardRow.toJson_injective {a b : RollForwardRow} (h : a.toJson = b.toJson) :
    a = b := by
  have same := ofEntries_injective (by simp) (by simp) (Value.object.inj h)
  simp only [List.cons.injEq, Prod.mk.injEq, true_and, and_true, Value.string.injEq] at same
  obtain ⟨asset, opening, additions, disposals, remeasurement, closing, evidence⟩ := same
  obtain ⟨assetA, openingA, additionsA, disposalsA, remeasurementA, closingA, evidenceA⟩ := a
  obtain ⟨assetB, openingB, additionsB, disposalsB, remeasurementB, closingB, evidenceB⟩ := b
  obtain rfl : assetA = assetB := AssetId.ext_value asset
  obtain rfl : openingA = openingB := AssetAmount.toJson_injective opening
  obtain rfl : additionsA = additionsB := AssetAmount.toJson_injective additions
  obtain rfl : disposalsA = disposalsB := AssetAmount.toJson_injective disposals
  obtain rfl : remeasurementA = remeasurementB := AssetAmount.toJson_injective remeasurement
  obtain rfl : closingA = closingB := AssetAmount.toJson_injective closing
  obtain rfl : evidenceA = evidenceB := hashesJson_injective evidence
  rfl

theorem hashesJson_flat (hs : List ContentHash) : Flat 1 (hashesJson hs) := by
  refine flat_array fun v member => ?_
  obtain ⟨h, _, rfl⟩ := List.mem_map.mp member
  exact flat_string 0 _

theorem RollForwardRow.flat (row : RollForwardRow) : Flat 2 row.toJson :=
  flat_object (by simp) (by simp [AssetAmount.flat, hashesJson_flat])

def policyJson (policy : String × ContentHash) : Value :=
  .object (ofEntries [("kind", .string policy.1), ("policy", .string policy.2.toHex)])

theorem policyJson_injective {a b : String × ContentHash} (h : policyJson a = policyJson b) :
    a = b := by
  have same := ofEntries_injective (by simp) (by simp) (Value.object.inj h)
  simp only [List.cons.injEq, Prod.mk.injEq, true_and, and_true, Value.string.injEq,
    ContentHash.toHex_inj] at same
  exact Prod.ext same.1 same.2

theorem policyJson_flat (policy : String × ContentHash) : Flat 1 (policyJson policy) :=
  flat_object (by simp) (by simp)

namespace DisclosurePack

def members (pack : DisclosurePack) : List (String × Value) :=
  [("schema", .string packSchema), ("tenant", .string pack.tenant.value),
    ("period", .string pack.period), ("checkpoint", .string pack.checkpoint.toHex),
    ("valuation", .string pack.valuation.toHex),
    ("policies", .array (pack.policies.map policyJson)),
    ("anchor_receipt", nullable (fun r : ContentHash => .string r.toHex) pack.anchorReceipt),
    ("rows", .array (pack.rows.map RollForwardRow.toJson))]

def envelope (pack : DisclosurePack) : Value := .object (ofEntries pack.members)

theorem members_distinct (pack : DisclosurePack) : (pack.members.map Prod.fst).Nodup := by
  simp [members]

theorem envelope_injective {a b : DisclosurePack} (h : a.envelope = b.envelope) : a = b := by
  have same := ofEntries_injective (by simp [members]) a.members_distinct (Value.object.inj h)
  simp only [members, List.cons.injEq, Prod.mk.injEq, true_and, and_true, Value.string.injEq,
    Value.array.injEq, ContentHash.toHex_inj] at same
  obtain ⟨tenant, period, checkpoint, valuation, policies, receipt, rows⟩ := same
  obtain ⟨⟨tenantA⟩, periodA, checkpointA, valuationA, policiesA, receiptA, rowsA⟩ := a
  obtain ⟨⟨tenantB⟩, periodB, checkpointB, valuationB, policiesB, receiptB, rowsB⟩ := b
  obtain rfl : tenantA = tenantB := tenant
  obtain rfl : periodA = periodB := period
  obtain rfl : checkpointA = checkpointB := checkpoint
  obtain rfl : valuationA = valuationB := valuation
  obtain rfl : policiesA = policiesB :=
    List.map_injective_iff.mpr (fun _ _ => policyJson_injective) policies
  obtain rfl : receiptA = receiptB := nullable_hash_injective receipt
  obtain rfl : rowsA = rowsB :=
    List.map_injective_iff.mpr (fun _ _ => RollForwardRow.toJson_injective) rows
  rfl

theorem flat (pack : DisclosurePack) : Flat 4 pack.envelope := by
  have policies : Flat 2 (.array (pack.policies.map policyJson)) := by
    refine flat_array fun v member => ?_
    obtain ⟨policy, _, rfl⟩ := List.mem_map.mp member
    exact policyJson_flat policy
  have receipt : Flat 0 (nullable (fun r : ContentHash => .string r.toHex) pack.anchorReceipt) :=
    nullable_flat (fun r => flat_string 0 _) _
  have rows : Flat 3 (.array (pack.rows.map RollForwardRow.toJson)) := by
    refine flat_array fun v member => ?_
    obtain ⟨row, _, rfl⟩ := List.mem_map.mp member
    exact row.flat
  refine flat_object pack.members_distinct ?_
  simp only [members, List.forall_mem_cons, List.not_mem_nil, false_imp_iff, implies_true,
    and_true, flat_string, true_and]
  exact ⟨policies.mono (by decide), receipt.mono (by decide), rows⟩

variable [External]

def packHash (pack : DisclosurePack) : Except PackError ContentHash :=
  match canonicalBytes pack.envelope with
  | .error e => .error (.canon e)
  | .ok bytes => .ok (sha256 bytes)

def preimage (pack : DisclosurePack) : Bytes := utf8 (toText pack.envelope)

/-- A row has no float and a pack nests four deep, so that its hash can always be taken. -/
theorem packHash_eq (pack : DisclosurePack) : pack.packHash = .ok (sha256 pack.preimage) := by
  rw [packHash, canonicalBytes_flat pack.flat (by decide)]
  rfl

theorem preimage_injective {a b : DisclosurePack} (h : a.preimage = b.preimage) : a = b :=
  envelope_injective (toText_flat_injective a.flat b.flat h)

end DisclosurePack

namespace Valuation

theorem position_flat (p : Position) : Flat 2 p.toJson :=
  flat_object (by simp) (by simp [AssetAmount.flat])

theorem flat (v : Valuation) : Flat 4 v.envelope := by
  have positions : Flat 3 (.array (v.positions.map Position.toJson)) := by
    refine flat_array fun value member => ?_
    obtain ⟨p, _, rfl⟩ := List.mem_map.mp member
    exact position_flat p
  have amount (a : AssetAmount) : Flat 3 a.toJson := a.flat.mono (by decide)
  exact flat_object (by simp) (by simp [TimestampNs.toJson, positions, amount])

theorem keyHash_of_envelope {v w : Valuation} (h : v.envelope = w.envelope) :
    v.keyHash = w.keyHash := by
  have same := ofEntries_injective (by simp) (by simp) (Value.object.inj h)
  simp only [List.cons.injEq, Prod.mk.injEq, Value.string.injEq, ContentHash.toHex_inj] at same
  exact same.2.1.2

variable [External]

def preimage (v : Valuation) : Bytes := utf8 (toText v.envelope)

theorem valuationHash_eq (v : Valuation) : v.valuationHash = .ok (sha256 v.preimage) := by
  rw [valuationHash, canonicalBytes_flat v.flat (by decide)]
  rfl

theorem keyHash_of_preimage {v w : Valuation} (h : v.preimage = w.preimage) :
    v.keyHash = w.keyHash :=
  keyHash_of_envelope (toText_flat_injective v.flat w.flat h)

end Valuation

end Treasury
