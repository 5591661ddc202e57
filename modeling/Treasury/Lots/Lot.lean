import Treasury.Evidence.Canon

/-! The lot: what is left of one acquisition, and the identity that commits to the
facts it was opened with. -/
namespace Treasury
open Kit Kit.Json

def lotSchema : String := "treasury-lots/lot/v1"

abbrev LotId := ContentHash

structure Lot where
  lotId : LotId
  tenant : TenantId
  asset : AssetId
  venue : VenueId
  atoms : I128
  costBasis : AssetAmount
  acquisitionFee : AssetAmount
  acquiredAt : TimestampNs
  sourceEvent : ContentHash
  movedFrom : Option LotId
  deriving DecidableEq

def movedFromJson : Option LotId → Value
  | none => .null
  | some id => .string id.toHex

def Lot.toJson (l : Lot) : Value :=
  .object (ofEntries [("lot_id", .string l.lotId.toHex), ("tenant", .string l.tenant.value),
    ("asset", .string l.asset.value), ("venue", .string l.venue.value),
    ("atoms", .string l.atoms.val.repr), ("cost_basis", l.costBasis.toJson),
    ("acquisition_fee", l.acquisitionFee.toJson), ("acquired_at", l.acquiredAt.toJson),
    ("source_event", .string l.sourceEvent.toHex), ("moved_from", movedFromJson l.movedFrom)])

/-- The facts a lot is opened with. -/
structure Opening where
  tenant : TenantId
  asset : AssetId
  venue : VenueId
  atoms : I128
  costBasis : AssetAmount
  acquisitionFee : AssetAmount
  acquiredAt : TimestampNs
  sourceEvent : ContentHash
  movedFrom : Option LotId

def Opening.members (o : Opening) : List (String × Value) :=
  [("schema", .string lotSchema), ("tenant", .string o.tenant.value),
    ("asset", .string o.asset.value), ("venue", .string o.venue.value),
    ("atoms", .string o.atoms.val.repr), ("cost_basis", o.costBasis.toJson),
    ("acquisition_fee", o.acquisitionFee.toJson), ("acquired_at", o.acquiredAt.toJson),
    ("source_event", .string o.sourceEvent.toHex), ("moved_from", movedFromJson o.movedFrom)]

def Opening.envelope (o : Opening) : Value := .object (ofEntries o.members)

def Opening.lot (o : Opening) (id : LotId) : Lot :=
  ⟨id, o.tenant, o.asset, o.venue, o.atoms, o.costBasis, o.acquisitionFee, o.acquiredAt,
    o.sourceEvent, o.movedFrom⟩

def lotId [External] (o : Opening) : Except CanonError LotId := do
  let bytes ← canonicalBytes o.envelope
  return sha256 bytes

theorem movedFromJson_injective {a b : Option LotId} (h : movedFromJson a = movedFromJson b) :
    a = b := by
  cases a with
  | none => cases b with
    | none => rfl
    | some b => cases h
  | some a => cases b with
    | none => cases h
    | some b => rw [ContentHash.toHex_injective (Value.string.inj h)]

theorem Opening.keys_distinct (o : Opening) : (o.members.map Prod.fst).Nodup := by
  simp [members]

theorem Opening.envelope_injective {o p : Opening} (h : o.envelope = p.envelope) : o = p := by
  have same := ofEntries_injective (by simp [members]) o.keys_distinct (Value.object.inj h)
  simp only [members, List.cons.injEq, Prod.mk.injEq, true_and, and_true, Value.string.injEq,
    Int.repr_inj, ContentHash.toHex_inj] at same
  obtain ⟨tenant, asset, venue, atoms, basis, fee, acquired, source, moved⟩ := same
  obtain ⟨⟨tenantO⟩, ⟨assetO⟩, ⟨venueO⟩, atomsO, basisO, feeO, acquiredO, sourceO, movedO⟩ := o
  obtain ⟨⟨tenantP⟩, ⟨assetP⟩, ⟨venueP⟩, atomsP, basisP, feeP, acquiredP, sourceP, movedP⟩ := p
  obtain rfl : tenantO = tenantP := tenant
  obtain rfl : assetO = assetP := asset
  obtain rfl : venueO = venueP := venue
  obtain rfl : atomsO = atomsP := Bounded.ext_val atoms
  obtain rfl : basisO = basisP := AssetAmount.toJson_injective basis
  obtain rfl : feeO = feeP := AssetAmount.toJson_injective fee
  obtain rfl : acquiredO = acquiredP := TimestampNs.toJson_injective acquired
  obtain rfl : sourceO = sourceP := source
  obtain rfl : movedO = movedP := movedFromJson_injective moved
  rfl

theorem Opening.flat (o : Opening) : Flat 2 o.envelope := by
  have moved : Flat 1 (movedFromJson o.movedFrom) := by
    cases o.movedFrom with
    | none => exact flat_null 1
    | some id => exact flat_string 1 id.toHex
  refine flat_object o.keys_distinct fun e he => ?_
  simp only [members, List.mem_cons, List.not_mem_nil, or_false] at he
  rcases he with rfl | rfl | rfl | rfl | rfl | rfl | rfl | rfl | rfl | rfl
  · exact flat_string 1 _
  · exact flat_string 1 _
  · exact flat_string 1 _
  · exact flat_string 1 _
  · exact flat_string 1 _
  · exact o.costBasis.flat
  · exact o.acquisitionFee.flat
  · exact flat_string 1 _
  · exact flat_string 1 _
  · exact moved

section
variable [External]

def Opening.bytes (o : Opening) : Bytes := utf8 (toText o.envelope)

theorem lotId_eq (o : Opening) : lotId o = .ok (sha256 o.bytes) := by
  rw [lotId, canonicalBytes_flat o.flat (by decide)]
  rfl

/-- The lot under the identity its facts commit to. -/
def Opening.opened (o : Opening) : Lot := o.lot (sha256 o.bytes)

theorem Opening.bytes_injective {o p : Opening} (h : o.bytes = p.bytes) : o = p :=
  envelope_injective (toText_flat_injective o.flat p.flat h)

end

end Treasury
