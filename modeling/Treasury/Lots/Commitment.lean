import Treasury.Lots.Book

/-! What the hash of a book commits to: the tenant and, for each identity, the lots that have it
in their order. The order in which lots of different identities sit does not enter. -/
namespace Treasury
open Kit Kit.Json

theorem Lot.toJson_injective {l m : Lot} (h : l.toJson = m.toJson) : l = m := by
  have same := ofEntries_injective (by simp) (by simp) (Value.object.inj h)
  simp only [List.cons.injEq, Prod.mk.injEq, true_and, and_true, Value.string.injEq,
    Int.repr_inj, ContentHash.toHex_inj] at same
  obtain ⟨id, tenant, asset, venue, atoms, basis, fee, acquired, source, moved⟩ := same
  obtain ⟨idL, ⟨tenantL⟩, ⟨assetL⟩, ⟨venueL⟩, atomsL, basisL, feeL, acquiredL, sourceL, movedL⟩ := l
  obtain ⟨idM, ⟨tenantM⟩, ⟨assetM⟩, ⟨venueM⟩, atomsM, basisM, feeM, acquiredM, sourceM, movedM⟩ := m
  obtain rfl : idL = idM := id
  obtain rfl : tenantL = tenantM := tenant
  obtain rfl : assetL = assetM := asset
  obtain rfl : venueL = venueM := venue
  obtain rfl : atomsL = atomsM := Bounded.ext_val atoms
  obtain rfl : basisL = basisM := AssetAmount.toJson_injective basis
  obtain rfl : feeL = feeM := AssetAmount.toJson_injective fee
  obtain rfl : acquiredL = acquiredM := TimestampNs.toJson_injective acquired
  obtain rfl : sourceL = sourceM := source
  obtain rfl : movedL = movedM := movedFromJson_injective moved
  rfl

theorem Lot.flat (l : Lot) : Flat 2 l.toJson := by
  have moved : Flat 1 (movedFromJson l.movedFrom) := by
    cases l.movedFrom with
    | none => exact flat_null 1
    | some id => exact flat_string 1 id.toHex
  exact flat_object (by simp)
    (by simp [AssetAmount.flat, TimestampNs.toJson, moved])

namespace LotBook

def stateEnvelope (book : LotBook) : Value :=
  .object (ofEntries [("schema", .string lotsStateSchema), ("lot_schema", .string lotSchema),
    ("tenant", .string book.tenant.value),
    ("lots", .array ((sortBy Lot.lotId book.lots).map Lot.toJson))])

theorem stateEnvelope_flat (book : LotBook) : Flat 4 book.stateEnvelope := by
  have lots : Flat 3 (.array ((sortBy Lot.lotId book.lots).map Lot.toJson)) := by
    refine flat_array fun v member => ?_
    obtain ⟨l, _, rfl⟩ := List.mem_map.mp member
    exact l.flat
  exact flat_object (by simp) (by simp [lots])

theorem stateEnvelope_eq_iff {b c : LotBook} : b.stateEnvelope = c.stateEnvelope ↔
    b.tenant = c.tenant ∧ sortBy Lot.lotId b.lots = sortBy Lot.lotId c.lots := by
  constructor
  · intro h
    have same := ofEntries_injective (by simp) (by simp) (Value.object.inj h)
    simp only [List.cons.injEq, Prod.mk.injEq, true_and, and_true, Value.string.injEq,
      Value.array.injEq] at same
    obtain ⟨tenant, lots⟩ := same
    refine ⟨?_, List.map_injective_iff.mpr (fun _ _ => Lot.toJson_injective) lots⟩
    obtain ⟨⟨tenantB⟩, _⟩ := b
    obtain ⟨⟨tenantC⟩, _⟩ := c
    exact congrArg TenantId.mk tenant
  · rintro ⟨tenant, lots⟩
    simp only [stateEnvelope, tenant, lots]

theorem openLots_eq {b c : LotBook} (same : sortBy Lot.lotId b.lots = sortBy Lot.lotId c.lots) :
    b.openLots = c.openLots := by
  have byId := sortBy_eq_iff.mp same
  have both (l : List Lot) (k : TimestampNs ×ₗ LotId) : withKey lotKey k l =
      (withKey Lot.lotId (ofLex k).2 l).filter (·.acquiredAt = (ofLex k).1) := by
    simp only [withKey, List.filter_filter]
    refine List.filter_congr fun x _ => ?_
    rw [← Bool.decide_and, decide_eq_decide]
    constructor
    · rintro rfl
      exact ⟨rfl, rfl⟩
    · rintro ⟨time, id⟩
      exact congrArg toLex (Prod.ext time id)
  refine sortBy_eq_iff.mpr fun k => ?_
  rw [both, both, byId]

variable [External]

def statePreimage (book : LotBook) : Bytes := utf8 (toText book.stateEnvelope)

theorem lotsHash_eq (book : LotBook) : book.lotsHash = .ok (sha256 book.statePreimage) := by
  have written := canonicalBytes_flat book.stateEnvelope_flat (by decide)
  unfold stateEnvelope at written
  unfold lotsHash
  dsimp only
  rw [written]
  rfl

theorem statePreimage_eq_iff {b c : LotBook} : b.statePreimage = c.statePreimage ↔
    b.tenant = c.tenant ∧ sortBy Lot.lotId b.lots = sortBy Lot.lotId c.lots := by
  rw [← stateEnvelope_eq_iff]
  exact ⟨toText_flat_injective b.stateEnvelope_flat c.stateEnvelope_flat,
    fun same => by rw [statePreimage, same]; rfl⟩

end LotBook

end Treasury
