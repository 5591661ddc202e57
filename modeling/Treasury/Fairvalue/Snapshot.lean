import Treasury.Evidence.Canon
import Treasury.Kit.OrderedMap

/-! Prices for a reporting instant, and the hash that commits to them. -/
namespace Treasury
open Kit Kit.Json

def snapshotSchema : String := "treasury-fairvalue/price-snapshot/v1"

/-- So many minor units of the currency buy so many atoms. -/
structure Price where
  minorPerUnit : I128
  atomsPerUnit : I128
  deriving DecidableEq

def Price.toJson (p : Price) : Value :=
  .object (ofEntries [("minor_per_unit", .string p.minorPerUnit.val.repr),
    ("atoms_per_unit", .string p.atomsPerUnit.val.repr)])

theorem Price.toJson_injective {a b : Price} (h : a.toJson = b.toJson) : a = b := by
  have same := ofEntries_injective (by simp) (by simp) (Value.object.inj h)
  simp only [List.cons.injEq, Prod.mk.injEq, true_and, and_true, Value.string.injEq,
    Int.repr_inj] at same
  obtain ⟨minor, atoms⟩ := same
  obtain ⟨minorA, atomsA⟩ := a
  obtain ⟨minorB, atomsB⟩ := b
  obtain rfl : minorA = minorB := Bounded.ext_val minor
  obtain rfl : atomsA = atomsB := Bounded.ext_val atoms
  rfl

theorem Price.flat (p : Price) : Flat 1 p.toJson := flat_object (by simp) (by simp)

structure PriceSnapshot where
  currency : AssetId
  asOf : TimestampNs
  prices : Finmap fun _ : AssetId => Price

namespace PriceSnapshot

def priceMembers (s : PriceSnapshot) : List (String × Value) :=
  (inOrder s.prices).map fun e => (e.1.value, e.2.toJson)

def envelope (s : PriceSnapshot) : Value :=
  .object (ofEntries [("schema", .string snapshotSchema), ("currency", .string s.currency.value),
    ("as_of", s.asOf.toJson), ("prices", .object (ofEntries s.priceMembers))])

theorem priceMembers_distinct (s : PriceSnapshot) : (s.priceMembers.map Prod.fst).Nodup := by
  rw [priceMembers, List.map_map]
  have distinct := (inOrder_distinct s.prices).map fun _ _ => AssetId.ext_value
  rwa [List.map_map] at distinct

theorem mem_priceMembers {s : PriceSnapshot} {asset : AssetId} {price : Price} :
    (asset.value, price.toJson) ∈ s.priceMembers ↔ (asset, price) ∈ inOrder s.prices := by
  simp only [priceMembers, List.mem_map, Prod.mk.injEq]
  constructor
  · rintro ⟨⟨a, p⟩, member, sameAsset, samePrice⟩
    rwa [← AssetId.ext_value sameAsset, ← Price.toJson_injective samePrice]
  · intro member
    exact ⟨(asset, price), member, rfl, rfl⟩

theorem envelope_injective {s t : PriceSnapshot} (h : s.envelope = t.envelope) : s = t := by
  have same := ofEntries_injective (by simp) (by simp) (Value.object.inj h)
  simp only [List.cons.injEq, Prod.mk.injEq, true_and, and_true, Value.string.injEq,
    Value.object.injEq] at same
  obtain ⟨currency, asOf, members⟩ := same
  have listed (u : PriceSnapshot) (e : String × Value) :
      e ∈ u.priceMembers ↔ e ∈ ofEntries u.priceMembers :=
    ⟨mem_ofEntries u.priceMembers_distinct, mem_of_mem_ofEntries⟩
  have prices : s.prices = t.prices := eq_of_mem_inOrder fun asset price => by
    rw [← mem_priceMembers, ← mem_priceMembers, listed s, listed t, members]
  obtain ⟨⟨currencyS⟩, asOfS, pricesS⟩ := s
  obtain ⟨⟨currencyT⟩, asOfT, pricesT⟩ := t
  obtain rfl : currencyS = currencyT := currency
  obtain rfl : asOfS = asOfT := TimestampNs.toJson_injective asOf
  obtain rfl : pricesS = pricesT := prices
  rfl

theorem flat (s : PriceSnapshot) : Flat 3 s.envelope := by
  have prices : Flat 2 (.object (ofEntries s.priceMembers)) := by
    refine flat_object s.priceMembers_distinct fun e member => ?_
    obtain ⟨entry, _, rfl⟩ := List.mem_map.mp member
    exact Price.flat entry.2
  exact flat_object (by simp) (by simp [TimestampNs.toJson, prices])

variable [External]

def snapshotHash (s : PriceSnapshot) : Except CanonError ContentHash := do
  let bytes ← canonicalBytes s.envelope
  return sha256 bytes

def preimage (s : PriceSnapshot) : Bytes := utf8 (toText s.envelope)

theorem snapshotHash_eq (s : PriceSnapshot) : s.snapshotHash = .ok (sha256 s.preimage) := by
  rw [snapshotHash, canonicalBytes_flat s.flat (by decide)]
  rfl

theorem preimage_injective {s t : PriceSnapshot} (h : s.preimage = t.preimage) : s = t :=
  envelope_injective (toText_flat_injective s.flat t.flat h)

end PriceSnapshot

end Treasury
