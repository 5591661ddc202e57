import Treasury.Kit.Except
import Treasury.Kit.Sort
import Treasury.Lots.Lot

/-! The lot book: acquisitions open lots, disposals relieve them under an elected
order, transfers move quantity without realizing. A call that fails leaves the
lots as they are at that point, so every operation returns them with its result. -/
namespace Treasury
open Kit Kit.Json

def lotsStateSchema : String := "treasury-lots/lots-state/v1"

inductive ReliefMethod where
  | fifo
  | specificLots (ids : List LotId)
  deriving DecidableEq

structure LotRelief where
  lotId : LotId
  atoms : I128
  basisRelieved : AssetAmount
  feeRelieved : AssetAmount
  deriving DecidableEq

structure DisposalResult where
  method : ReliefMethod
  policyHash : ContentHash
  reliefs : List LotRelief
  totalBasisRelieved : AssetAmount
  proceeds : AssetAmount
  realized : AssetAmount
  deriving DecidableEq

inductive LotError where
  | nonPositiveQuantity (atoms : I128)
  | negativeMoney
  | currencyMismatch
  | insufficientQuantity (requested available : I128)
  | unknownLot (id : LotId)
  | wrongLotTarget (id : LotId)
  | overflow
  | amount (error : AmountError)
  | canon (error : CanonError)
  deriving DecidableEq

def orOverflow {α : Type} : Option α → Except LotError α
  | none => .error .overflow
  | some a => .ok a

/-- The lots to relieve and how much to take from each. -/
abbrev ReliefPlan := List (LotId × I128)

structure LotBook where
  tenant : TenantId
  lots : List Lot
  deriving DecidableEq

def proRata (total part whole : I128) : Except LotError I128 := do
  let scaled ← orOverflow (total.checkedMul part)
  orOverflow (scaled.checkedDiv whole)

def findLot (lots : List Lot) (id : LotId) : Option Lot := lots.find? (·.lotId = id)

/-- One lot's share of a relief. The quantity is reduced before basis and fee. -/
def relieveLot (lot : Lot) (take : I128) : Lot × Except LotError LotRelief :=
  match proRata lot.costBasis.atoms take lot.atoms with
  | .error e => (lot, .error e)
  | .ok basisPart =>
    match proRata lot.acquisitionFee.atoms take lot.atoms with
    | .error e => (lot, .error e)
    | .ok feePart =>
      let currency := lot.costBasis.asset
      match lot.atoms.checkedSub take with
      | none => (lot, .error .overflow)
      | some atoms =>
        match lot.costBasis.atoms.checkedSub basisPart,
            lot.acquisitionFee.atoms.checkedSub feePart with
        | some basisLeft, some feeLeft =>
          ({ lot with atoms, costBasis := ⟨currency, basisLeft⟩, acquisitionFee := ⟨currency, feeLeft⟩ },
            .ok ⟨lot.lotId, take, ⟨currency, basisPart⟩, ⟨currency, feePart⟩⟩)
        | _, _ => ({ lot with atoms }, .error .overflow)

def relieveById (id : LotId) (take : I128) : List Lot → List Lot × Except LotError LotRelief
  | [] => ([], .error (.unknownLot id))
  | lot :: rest =>
    if lot.lotId = id then
      let (lot, result) := relieveLot lot take
      (lot :: rest, result)
    else
      let (rest, result) := relieveById id take rest
      (lot :: rest, result)

/-- The loop over the plan; the lots relieved before an error stay relieved. -/
def relieveAll (lots : List Lot) : ReliefPlan → List Lot × Except LotError (List LotRelief)
  | [] => (lots, .ok [])
  | (id, take) :: plan =>
    match relieveById id take lots with
    | (lots, .error e) => (lots, .error e)
    | (lots, .ok relief) =>
      match relieveAll lots plan with
      | (lots, .error e) => (lots, .error e)
      | (lots, .ok reliefs) => (lots, .ok (relief :: reliefs))

def applyRelief (lots : List Lot) (plan : ReliefPlan) :
    List Lot × Except LotError (List LotRelief) :=
  match relieveAll lots plan with
  | (lots, .error e) => (lots, .error e)
  | (lots, .ok reliefs) => (lots.filter (0 < ·.atoms), .ok reliefs)

def lotKey (l : Lot) : TimestampNs ×ₗ LotId := toLex (l.acquiredAt, l.lotId)

def namedLots (lots : List Lot) (asset : AssetId) (venue : VenueId) :
    List LotId → Except LotError (List Lot)
  | [] => .ok []
  | id :: ids =>
    match findLot lots id with
    | none => .error (.unknownLot id)
    | some lot =>
      if lot.asset ≠ asset ∨ lot.venue ≠ venue then .error (.wrongLotTarget id)
      else do
        let rest ← namedLots lots asset venue ids
        return lot :: rest

def candidates (lots : List Lot) (asset : AssetId) (venue : VenueId) :
    ReliefMethod → Except LotError (List Lot)
  | .fifo => .ok (sortBy lotKey (lots.filter fun l => l.asset = asset ∧ l.venue = venue))
  | .specificLots ids => namedLots lots asset venue ids

def sumAtoms (total : I128) : List Lot → Except LotError I128
  | [] => .ok total
  | lot :: rest => do
    let total ← orOverflow (total.checkedAdd lot.atoms)
    sumAtoms total rest

def planFrom (needed : I128) : List Lot → Except LotError ReliefPlan
  | [] => .ok []
  | lot :: rest =>
    if needed = 0 then .ok []
    else do
      let take := min needed lot.atoms
      let needed ← orOverflow (needed.checkedSub take)
      let plan ← planFrom needed rest
      return (lot.lotId, take) :: plan

namespace LotBook

def new (tenant : TenantId) : LotBook := ⟨tenant, []⟩

def openLots (book : LotBook) : List Lot := sortBy lotKey book.lots

def held (book : LotBook) (asset : AssetId) (venue : VenueId) : I128 :=
  book.lots.foldl
    (fun total l => if l.asset = asset ∧ l.venue = venue then total.saturatingAdd l.atoms else total) 0

def planRelief (book : LotBook) (asset : AssetId) (venue : VenueId) (atoms : I128)
    (method : ReliefMethod) : Except LotError ReliefPlan :=
  if atoms ≤ 0 then .error (.nonPositiveQuantity atoms)
  else do
    let ordered ← candidates book.lots asset venue method
    let available ← sumAtoms 0 ordered
    if available < atoms then .error (.insufficientQuantity atoms available)
    else planFrom atoms ordered

def checkCurrency (lots : List Lot) (currency : AssetId) : ReliefPlan → Except LotError Unit
  | [] => .ok ()
  | (id, _) :: plan =>
    match findLot lots id with
    | none => .error (.unknownLot id)
    | some lot =>
      if lot.costBasis.asset ≠ currency then .error .currencyMismatch
      else checkCurrency lots currency plan

def basisCurrency (book : LotBook) (plan : ReliefPlan) : Except LotError AssetId :=
  match plan with
  | [] => .error (.nonPositiveQuantity 0)
  | (firstId, _) :: _ =>
    match findLot book.lots firstId with
    | none => .error (.unknownLot firstId)
    | some first => do
      checkCurrency book.lots first.costBasis.asset plan
      return first.costBasis.asset

def sumBasis (total : AssetAmount) : List LotRelief → Except LotError AssetAmount
  | [] => .ok total
  | relief :: rest =>
    match total.checkedAdd relief.basisRelieved with
    | .error e => .error (.amount e)
    | .ok total => sumBasis total rest

def realize (method : ReliefMethod) (policyHash : ContentHash) (proceeds : AssetAmount)
    (currency : AssetId) (reliefs : List LotRelief) : Except LotError DisposalResult := do
  let total ← sumBasis ⟨currency, 0⟩ reliefs
  match proceeds.checkedSub total with
  | .error e => .error (.amount e)
  | .ok realized => .ok ⟨method, policyHash, reliefs, total, proceeds, realized⟩

def dispose (book : LotBook) (asset : AssetId) (venue : VenueId) (atoms : I128)
    (method : ReliefMethod) (policyHash : ContentHash) (proceeds : AssetAmount) :
    LotBook × Except LotError DisposalResult :=
  match book.planRelief asset venue atoms method with
  | .error e => (book, .error e)
  | .ok plan =>
    match book.basisCurrency plan with
    | .error e => (book, .error e)
    | .ok currency =>
      if proceeds.asset ≠ currency then (book, .error .currencyMismatch)
      else
        match applyRelief book.lots plan with
        | (lots, .error e) => (⟨book.tenant, lots⟩, .error e)
        | (lots, .ok reliefs) =>
          (⟨book.tenant, lots⟩, realize method policyHash proceeds currency reliefs)

def originsOf (lots : List Lot) : ReliefPlan → Except LotError (List (LotId × TimestampNs))
  | [] => .ok []
  | (id, _) :: plan =>
    match findLot lots id with
    | none => .error (.unknownLot id)
    | some lot => do
      let rest ← originsOf lots plan
      return (id, lot.acquiredAt) :: rest

section
variable [External]

def acquire (book : LotBook) (asset : AssetId) (venue : VenueId) (atoms : I128)
    (costBasis acquisitionFee : AssetAmount) (acquiredAt : TimestampNs)
    (sourceEvent : ContentHash) : LotBook × Except LotError LotId :=
  if atoms ≤ 0 then (book, .error (.nonPositiveQuantity atoms))
  else if costBasis.atoms < 0 ∨ acquisitionFee.atoms < 0 then (book, .error .negativeMoney)
  else if costBasis.asset ≠ acquisitionFee.asset then (book, .error .currencyMismatch)
  else
    let opening : Opening :=
      ⟨book.tenant, asset, venue, atoms, costBasis, acquisitionFee, acquiredAt, sourceEvent, none⟩
    match lotId opening with
    | .error e => (book, .error (.canon e))
    | .ok id => (⟨book.tenant, book.lots ++ [opening.lot id]⟩, .ok id)

def openMoved (tenant : TenantId) (asset : AssetId) (toVenue : VenueId)
    (transferEvent : ContentHash) (origins : List (LotId × TimestampNs)) (lots : List Lot) :
    List LotRelief → List Lot × Except LotError (List LotId)
  | [] => (lots, .ok [])
  | relief :: rest =>
    match origins.find? (·.1 = relief.lotId) with
    | none => (lots, .error (.unknownLot relief.lotId))
    | some (_, acquiredAt) =>
      let opening : Opening :=
        ⟨tenant, asset, toVenue, relief.atoms, relief.basisRelieved, relief.feeRelieved, acquiredAt,
          transferEvent, some relief.lotId⟩
      match lotId opening with
      | .error e => (lots, .error (.canon e))
      | .ok id =>
        match openMoved tenant asset toVenue transferEvent origins (lots ++ [opening.lot id]) rest with
        | (lots, .error e) => (lots, .error e)
        | (lots, .ok ids) => (lots, .ok (id :: ids))

def transfer (book : LotBook) (asset : AssetId) (fromVenue toVenue : VenueId) (atoms : I128)
    (transferEvent : ContentHash) : LotBook × Except LotError (List LotId) :=
  match book.planRelief asset fromVenue atoms .fifo with
  | .error e => (book, .error e)
  | .ok plan =>
    match originsOf book.lots plan with
    | .error e => (book, .error e)
    | .ok origins =>
      match applyRelief book.lots plan with
      | (lots, .error e) => (⟨book.tenant, lots⟩, .error e)
      | (lots, .ok reliefs) =>
        let (lots, result) :=
          openMoved book.tenant asset toVenue transferEvent origins lots reliefs
        (⟨book.tenant, lots⟩, result)

def lotsHash (book : LotBook) : Except LotError ContentHash :=
  let snapshot := sortBy Lot.lotId book.lots
  match canonicalBytes (.object (ofEntries [("schema", .string lotsStateSchema),
      ("lot_schema", .string lotSchema), ("tenant", .string book.tenant.value),
      ("lots", .array (snapshot.map Lot.toJson))])) with
  | .error e => .error (.canon e)
  | .ok bytes => .ok (sha256 bytes)

end

inductive Call where
  | acquire (asset : AssetId) (venue : VenueId) (atoms : I128)
      (costBasis acquisitionFee : AssetAmount) (acquiredAt : TimestampNs)
      (sourceEvent : ContentHash)
  | dispose (asset : AssetId) (venue : VenueId) (atoms : I128) (method : ReliefMethod)
      (policyHash : ContentHash) (proceeds : AssetAmount)
  | transfer (asset : AssetId) (fromVenue toVenue : VenueId) (atoms : I128)
      (transferEvent : ContentHash)

def perform [External] (book : LotBook) : Call → LotBook × Except LotError Unit
  | .acquire asset venue atoms costBasis acquisitionFee acquiredAt sourceEvent =>
    let (book, result) :=
      book.acquire asset venue atoms costBasis acquisitionFee acquiredAt sourceEvent
    (book, result.map fun _ => ())
  | .dispose asset venue atoms method policyHash proceeds =>
    let (book, result) := book.dispose asset venue atoms method policyHash proceeds
    (book, result.map fun _ => ())
  | .transfer asset fromVenue toVenue atoms transferEvent =>
    let (book, result) := book.transfer asset fromVenue toVenue atoms transferEvent
    (book, result.map fun _ => ())

def step [External] (book : LotBook) (call : Call) : LotBook := (book.perform call).1

end LotBook

end Treasury
