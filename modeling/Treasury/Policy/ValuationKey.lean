import Treasury.Evidence.Canon

/-! The key of a valuation: the hashes of all that it is a function of. -/
namespace Treasury
open Kit Kit.Json

def valuationKeySchema : String := "treasury-policy/valuation-key/v1"

structure ValuationKey where
  lotsHash : ContentHash
  priceSnapshotHash : ContentHash
  policyHash : ContentHash
  deriving DecidableEq

namespace ValuationKey

def envelope (key : ValuationKey) : Value :=
  .object (ofEntries [("schema", .string valuationKeySchema), ("lots", .string key.lotsHash.toHex),
    ("price_snapshot", .string key.priceSnapshotHash.toHex),
    ("policy", .string key.policyHash.toHex)])

theorem envelope_injective {a b : ValuationKey} (h : a.envelope = b.envelope) : a = b := by
  have same := ofEntries_injective (by simp) (by simp) (Value.object.inj h)
  simp only [List.cons.injEq, Prod.mk.injEq, true_and, and_true, Value.string.injEq,
    ContentHash.toHex_inj] at same
  obtain ⟨lots, snapshot, policy⟩ := same
  cases a; cases b; cases lots; cases snapshot; cases policy
  rfl

theorem flat (key : ValuationKey) : Flat 1 key.envelope := flat_object (by simp) (by simp)

variable [External]

def keyHash (key : ValuationKey) : Except CanonError ContentHash := do
  let bytes ← canonicalBytes key.envelope
  return sha256 bytes

def preimage (key : ValuationKey) : Bytes := utf8 (toText key.envelope)

theorem keyHash_eq (key : ValuationKey) : key.keyHash = .ok (sha256 key.preimage) := by
  rw [keyHash, canonicalBytes_flat key.flat (by decide)]
  rfl

theorem preimage_injective {a b : ValuationKey} (h : a.preimage = b.preimage) : a = b :=
  envelope_injective (toText_flat_injective a.flat b.flat h)

end ValuationKey

end Treasury
