import Treasury.Core.Primitives

/-! Transfer legs, the matcher's input. -/
namespace Treasury
open Kit

abbrev LegId := ContentHash

inductive Direction where
  | outflow
  | inflow
  deriving DecidableEq

structure TransferLeg where
  legId : LegId
  tenant : TenantId
  venue : VenueId
  direction : Direction
  amount : AssetAmount
  fee : Option AssetAmount
  txHash : Option String
  address : Option String
  eventTime : TimestampNs
  deriving DecidableEq

end Treasury
