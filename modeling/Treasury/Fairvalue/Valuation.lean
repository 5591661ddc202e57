import Treasury.Fairvalue.Snapshot
import Treasury.Kit.Tally
import Treasury.Lots.Commitment
import Treasury.Policy.ValuationKey

/-! The valuation of a lot book at the prices of a snapshot: the open lots are added up for each
asset, and each sum is priced. -/
namespace Treasury
open Kit Kit.Json

def valuationSchema : String := "treasury-fairvalue/valuation/v1"

structure Position where
  asset : AssetId
  atoms : I128
  costBasis : AssetAmount
  fairValue : AssetAmount
  unrealized : AssetAmount
  deriving DecidableEq

structure Valuation where
  key : ValuationKey
  keyHash : ContentHash
  asOf : TimestampNs
  positions : List Position
  totalFairValue : AssetAmount
  totalUnrealized : AssetAmount
  deriving DecidableEq

inductive FvError where
  | missingPrice (asset : AssetId)
  | badPrice (asset : AssetId)
  | currencyMismatch
  | overflow
  | lots (error : LotError)
  | amount (error : AmountError)
  | canon (error : CanonError)
  deriving DecidableEq

def Position.toJson (p : Position) : Value :=
  .object (ofEntries [("asset", .string p.asset.value), ("atoms", .string p.atoms.val.repr),
    ("cost_basis", p.costBasis.toJson), ("fair_value", p.fairValue.toJson),
    ("unrealized", p.unrealized.toJson)])

/-- Atoms and cost basis of the lots of each asset. -/
abbrev Holdings := Finmap fun _ : AssetId => I128 × AssetAmount

def addLot (held : Holdings) (lot : Lot) : Except FvError Holdings :=
  match held.lookup lot.asset with
  | none => .ok (held.insert lot.asset (lot.atoms, lot.costBasis))
  | some (atoms, basis) =>
    match atoms.checkedAdd lot.atoms with
    | none => .error .overflow
    | some newAtoms => do
      let newBasis ← (basis.checkedAdd lot.costBasis).mapError .amount
      return held.insert lot.asset (newAtoms, newBasis)

def aggregateLots (currency : AssetId) (held : Holdings) : List Lot → Except FvError Holdings
  | [] => .ok held
  | lot :: rest =>
    if lot.costBasis.asset ≠ currency then .error .currencyMismatch
    else do
      let held ← addLot held lot
      aggregateLots currency held rest

def valuePosition (snapshot : PriceSnapshot) (asset : AssetId) (atoms : I128)
    (costBasis : AssetAmount) : Except FvError Position :=
  match snapshot.prices.lookup asset with
  | none => .error (.missingPrice asset)
  | some price =>
    if price.atomsPerUnit ≤ 0 then .error (.badPrice asset)
    else
      match atoms.checkedMul price.minorPerUnit with
      | none => .error .overflow
      | some scaled =>
        match scaled.checkedDiv price.atomsPerUnit with
        | none => .error .overflow
        | some valueMinor => do
          let fairValue : AssetAmount := ⟨snapshot.currency, valueMinor⟩
          let unrealized ← (fairValue.checkedSub costBasis).mapError .amount
          return ⟨asset, atoms, costBasis, fairValue, unrealized⟩

def valuePositions (snapshot : PriceSnapshot) (totalFairValue totalUnrealized : AssetAmount) :
    List (AssetId × I128 × AssetAmount) →
      Except FvError (List Position × AssetAmount × AssetAmount)
  | [] => .ok ([], totalFairValue, totalUnrealized)
  | (asset, atoms, costBasis) :: rest => do
    let position ← valuePosition snapshot asset atoms costBasis
    let totalFairValue ← (totalFairValue.checkedAdd position.fairValue).mapError .amount
    let totalUnrealized ← (totalUnrealized.checkedAdd position.unrealized).mapError .amount
    let (positions, totals) ← valuePositions snapshot totalFairValue totalUnrealized rest
    return (position :: positions, totals)

namespace Valuation

def envelope (v : Valuation) : Value :=
  .object (ofEntries [("schema", .string valuationSchema), ("key", .string v.keyHash.toHex),
    ("as_of", v.asOf.toJson), ("positions", .array (v.positions.map Position.toJson)),
    ("total_fair_value", v.totalFairValue.toJson),
    ("total_unrealized", v.totalUnrealized.toJson)])

def valuationHash [External] (v : Valuation) : Except FvError ContentHash :=
  match canonicalBytes v.envelope with
  | .error e => .error (.canon e)
  | .ok bytes => .ok (sha256 bytes)

end Valuation

/-- What is computed once the inputs are hashed. -/
def valueLots (key : ValuationKey) (keyHash : ContentHash) (snapshot : PriceSnapshot)
    (openLots : List Lot) : Except FvError Valuation := do
  let held ← aggregateLots snapshot.currency ∅ openLots
  let zero : AssetAmount := ⟨snapshot.currency, 0⟩
  let (positions, totalFairValue, totalUnrealized) ←
    valuePositions snapshot zero zero (inOrder held)
  return ⟨key, keyHash, snapshot.asOf, positions, totalFairValue, totalUnrealized⟩

def valueBook [External] (book : LotBook) (snapshot : PriceSnapshot) (policyHash : ContentHash) :
    Except FvError Valuation := do
  let lotsHash ← book.lotsHash.mapError .lots
  let priceSnapshotHash ← snapshot.snapshotHash.mapError .canon
  let key : ValuationKey := ⟨lotsHash, priceSnapshotHash, policyHash⟩
  let keyHash ← key.keyHash.mapError .canon
  valueLots key keyHash snapshot book.openLots

/-- What the lots of an asset add up to, in the currency. -/
structure Held (currency : AssetId) (lots : List Lot) (asset : AssetId) (atoms : I128)
    (costBasis : AssetAmount) : Prop where
  listed : ∃ l ∈ lots, l.asset = asset
  atoms : atoms.val = tally Lot.asset (·.atoms.val) asset lots
  currency : costBasis.asset = currency
  basis : costBasis.atoms.val = tally Lot.asset (·.costBasis.atoms.val) asset lots

/-- The map holds the sums of the lots, and nothing for an asset without lots. -/
def Sums (currency : AssetId) (lots : List Lot) (held : Holdings) : Prop :=
  ∀ asset, match held.lookup asset with
    | none => ∀ l ∈ lots, l.asset ≠ asset
    | some (atoms, costBasis) => Held currency lots asset atoms costBasis

variable {currency : AssetId} {lots : List Lot} {held out : Holdings}

theorem sums_empty (currency : AssetId) : Sums currency [] ∅ := by
  intro asset
  rw [Finmap.lookup_empty]
  exact fun _ member => absurd member List.not_mem_nil

theorem tally_one {K : Type} [DecidableEq K] (key : Lot → K) (amount : Lot → Int) (k : K)
    (lots : List Lot) (lot : Lot) : tally key amount k (lots ++ [lot]) =
      tally key amount k lots + if key lot = k then amount lot else 0 := by
  rw [tally_append, tally_cons, tally_nil, add_zero]

theorem tally_absent {amount : Lot → Int} {asset : AssetId} (absent : ∀ l ∈ lots, l.asset ≠ asset) :
    tally Lot.asset amount asset lots = 0 := by
  have none : lots.filter (fun l => l.asset = asset) = [] :=
    List.filter_eq_nil_iff.mpr fun l member => by simpa using absent l member
  rw [tally, none]
  rfl

theorem Sums.other {asset : AssetId} {lot : Lot} (sums : Sums currency lots held)
    (different : asset ≠ lot.asset) (entry : I128 × AssetAmount) :
    match (held.insert lot.asset entry).lookup asset with
    | none => ∀ l ∈ lots ++ [lot], l.asset ≠ asset
    | some (atoms, costBasis) => Held currency (lots ++ [lot]) asset atoms costBasis := by
  have before := sums asset
  rw [Finmap.lookup_insert_of_ne _ different]
  cases found : held.lookup asset with
  | none =>
    simp only [found] at before
    simp only [List.mem_append, List.mem_singleton]
    rintro l (earlier | rfl)
    · exact before l earlier
    · exact different.symm
  | some entry =>
    simp only [found] at before
    obtain ⟨⟨l, member, same⟩, atoms, currency, basis⟩ := before
    refine ⟨⟨l, List.mem_append_left _ member, same⟩, ?_, currency, ?_⟩
    · simp only [tally_one, if_neg different.symm, atoms, add_zero]
    · simp only [tally_one, if_neg different.symm, basis, add_zero]

theorem Sums.addLot {lot : Lot} (sums : Sums currency lots held)
    (same : lot.costBasis.asset = currency) (added : addLot held lot = .ok out) :
    Sums currency (lots ++ [lot]) out := by
  intro asset
  have mine := sums lot.asset
  unfold Treasury.addLot at added
  cases found : held.lookup lot.asset with
  | none =>
    simp only [found] at added mine
    cases added
    by_cases here : asset = lot.asset
    · subst here
      rw [Finmap.lookup_insert]
      refine ⟨⟨lot, by simp, rfl⟩, ?_, same, ?_⟩
      · simp [tally_one, tally_absent mine]
      · simp [tally_one, tally_absent mine]
    · exact sums.other here _
  | some entry =>
    obtain ⟨atoms, basis⟩ := entry
    simp only [found] at added mine
    cases summed : atoms.checkedAdd lot.atoms with
    | none => simp [summed] at added
    | some newAtoms =>
      simp only [summed] at added
      obtain ⟨newBasis, joined, inserted⟩ := bind_eq_ok.mp added
      cases pure_eq_ok.mp inserted
      obtain ⟨-, asset_eq, basis_eq⟩ := AssetAmount.checkedAdd_eq_ok.mp (mapError_eq_ok.mp joined)
      by_cases here : asset = lot.asset
      · subst here
        rw [Finmap.lookup_insert]
        refine ⟨⟨lot, by simp, rfl⟩, ?_, asset_eq.trans mine.currency, ?_⟩
        · simp only [tally_one, if_true, ← mine.atoms]
          exact (Bounded.checkedAdd_eq_some.mp summed).symm
        · simp only [tally_one, if_true, ← mine.basis]
          exact basis_eq.symm
      · exact sums.other here _

theorem aggregateLots_sums {rest : List Lot} (sums : Sums currency lots held)
    (aggregated : aggregateLots currency held rest = .ok out) :
    Sums currency (lots ++ rest) out := by
  induction rest generalizing lots held with
  | nil =>
    cases aggregated
    rwa [List.append_nil]
  | cons lot rest ih =>
    unfold aggregateLots at aggregated
    split at aggregated
    · cases aggregated
    · rename_i same
      obtain ⟨next, added, later⟩ := bind_eq_ok.mp aggregated
      have grown := ih (sums.addLot (not_not.mp same) added) later
      rwa [List.append_assoc] at grown

theorem Sums.unique {others : List Lot} (sums : Sums currency lots held)
    (sums' : Sums currency others out) (perm : lots.Perm others) : held = out := by
  refine Finmap.ext_lookup fun asset => ?_
  have left := sums asset
  have right := sums' asset
  cases found : held.lookup asset with
  | none =>
    cases found' : out.lookup asset with
    | none => rfl
    | some entry =>
      simp only [found, found'] at left right
      obtain ⟨l, member, same⟩ := right.listed
      exact absurd same (left l (perm.mem_iff.mpr member))
  | some entry =>
    cases found' : out.lookup asset with
    | none =>
      simp only [found, found'] at left right
      obtain ⟨l, member, same⟩ := left.listed
      exact absurd same (right l (perm.mem_iff.mp member))
    | some entry' =>
      obtain ⟨atoms, ⟨unit, basis⟩⟩ := entry
      obtain ⟨atoms', ⟨unit', basis'⟩⟩ := entry'
      simp only [found, found'] at left right
      obtain rfl : unit = unit' := left.currency.trans right.currency.symm
      obtain rfl : atoms = atoms' := Bounded.ext_val
        (left.atoms.trans ((tally_perm _ _ _ perm).trans right.atoms.symm))
      obtain rfl : basis = basis' := Bounded.ext_val
        (left.basis.trans ((tally_perm _ _ _ perm).trans right.basis.symm))
      rfl

structure Priced (snapshot : PriceSnapshot) (entry : AssetId × I128 × AssetAmount)
    (position : Position) : Prop where
  asset : position.asset = entry.1
  atoms : position.atoms = entry.2.1
  costBasis : position.costBasis = entry.2.2
  currency : position.fairValue.asset = snapshot.currency
  price : ∃ price, snapshot.prices.lookup entry.1 = some price ∧ 0 < price.atomsPerUnit.val ∧
    position.fairValue.atoms.val =
      (entry.2.1.val * price.minorPerUnit.val).tdiv price.atomsPerUnit.val
  unrealized : position.unrealized.atoms.val =
    position.fairValue.atoms.val - position.costBasis.atoms.val

theorem valuePosition_ok {snapshot : PriceSnapshot} {asset : AssetId} {atoms : I128}
    {costBasis : AssetAmount} {position : Position}
    (valued : valuePosition snapshot asset atoms costBasis = .ok position) :
    Priced snapshot (asset, atoms, costBasis) position := by
  unfold valuePosition at valued
  cases found : snapshot.prices.lookup asset with
  | none => simp [found] at valued
  | some price =>
    simp only [found] at valued
    split at valued
    · cases valued
    · rename_i positive
      cases multiplied : atoms.checkedMul price.minorPerUnit with
      | none => simp [multiplied] at valued
      | some scaled =>
        cases divided : scaled.checkedDiv price.atomsPerUnit with
        | none => simp [multiplied, divided] at valued
        | some valueMinor =>
          simp only [multiplied, divided] at valued
          obtain ⟨unrealized, subtracted, same⟩ := bind_eq_ok.mp valued
          cases pure_eq_ok.mp same
          obtain ⟨-, -, mark⟩ := AssetAmount.checkedSub_eq_ok.mp (mapError_eq_ok.mp subtracted)
          have scaled_eq := Bounded.checkedMul_eq_some.mp multiplied
          have value_eq := (Bounded.checkedDiv_eq_some.mp divided).2
          refine ⟨rfl, rfl, rfl, rfl, ⟨price, found, not_le.mp positive, ?_⟩, mark.symm⟩
          rw [scaled_eq]
          exact value_eq.symm

theorem valuePositions_ok {snapshot : PriceSnapshot} {totalFairValue totalUnrealized : AssetAmount}
    {entries : List (AssetId × I128 × AssetAmount)} {positions : List Position}
    {fairValue unrealized : AssetAmount}
    (valued : valuePositions snapshot totalFairValue totalUnrealized entries =
      .ok (positions, fairValue, unrealized)) :
    List.Forall₂ (Priced snapshot) entries positions ∧
      fairValue.asset = totalFairValue.asset ∧
      fairValue.atoms.val = totalFairValue.atoms.val +
        (positions.map (·.fairValue.atoms.val)).sum ∧
      unrealized.atoms.val = totalUnrealized.atoms.val +
        (positions.map (·.unrealized.atoms.val)).sum := by
  induction entries generalizing totalFairValue totalUnrealized positions with
  | nil =>
    cases valued
    simp
  | cons entry rest ih =>
    obtain ⟨asset, atoms, costBasis⟩ := entry
    unfold valuePositions at valued
    obtain ⟨position, priced, valued⟩ := bind_eq_ok.mp valued
    obtain ⟨nextFair, addedFair, valued⟩ := bind_eq_ok.mp valued
    obtain ⟨nextUnrealized, addedUnrealized, valued⟩ := bind_eq_ok.mp valued
    obtain ⟨⟨others, totals⟩, later, same⟩ := bind_eq_ok.mp valued
    cases pure_eq_ok.mp same
    obtain ⟨all, unit, fair, marks⟩ := ih later
    obtain ⟨-, unit', fair'⟩ := AssetAmount.checkedAdd_eq_ok.mp (mapError_eq_ok.mp addedFair)
    obtain ⟨-, -, marks'⟩ := AssetAmount.checkedAdd_eq_ok.mp (mapError_eq_ok.mp addedUnrealized)
    refine ⟨.cons (valuePosition_ok priced) all, unit.trans unit', ?_, ?_⟩
    · simp only [List.map_cons, List.sum_cons]
      omega
    · simp only [List.map_cons, List.sum_cons]
      omega

theorem priced_positions {snapshot : PriceSnapshot} {entries : List (AssetId × I128 × AssetAmount)}
    {positions : List Position} (all : List.Forall₂ (Priced snapshot) entries positions) :
    positions.map Position.asset = entries.map Prod.fst ∧
      ∀ p ∈ positions, p.fairValue.asset = snapshot.currency := by
  induction all with
  | nil => exact ⟨rfl, fun _ member => absurd member List.not_mem_nil⟩
  | cons first _ ih =>
    obtain ⟨assets, currencies⟩ := ih
    refine ⟨?_, List.forall_mem_cons.mpr ⟨first.currency, currencies⟩⟩
    rw [List.map_cons, List.map_cons, first.asset, assets]

theorem valueLots_ok {key : ValuationKey} {keyHash : ContentHash} {snapshot : PriceSnapshot}
    {v : Valuation} (valued : valueLots key keyHash snapshot lots = .ok v) :
    ∃ held, Sums snapshot.currency lots held ∧
      valuePositions snapshot ⟨snapshot.currency, 0⟩ ⟨snapshot.currency, 0⟩ (inOrder held) =
        .ok (v.positions, v.totalFairValue, v.totalUnrealized) ∧
      v = ⟨key, keyHash, snapshot.asOf, v.positions, v.totalFairValue, v.totalUnrealized⟩ := by
  unfold valueLots at valued
  obtain ⟨held, aggregated, valued⟩ := bind_eq_ok.mp valued
  obtain ⟨⟨positions, totals⟩, priced, same⟩ := bind_eq_ok.mp valued
  cases pure_eq_ok.mp same
  exact ⟨held, aggregateLots_sums (sums_empty _) aggregated, priced, rfl⟩

variable [External]

def valuationKey (book : LotBook) (snapshot : PriceSnapshot) (policyHash : ContentHash) :
    ValuationKey :=
  ⟨sha256 book.statePreimage, sha256 snapshot.preimage, policyHash⟩

theorem valueBook_eq (book : LotBook) (snapshot : PriceSnapshot) (policyHash : ContentHash) :
    valueBook book snapshot policyHash =
      valueLots (valuationKey book snapshot policyHash)
        (sha256 (valuationKey book snapshot policyHash).preimage) snapshot book.openLots := by
  unfold valueBook
  rw [LotBook.lotsHash_eq, PriceSnapshot.snapshotHash_eq]
  simp only [mapError_ok, ValuationKey.keyHash_eq]
  rfl

theorem valueBook_ok {book : LotBook} {snapshot : PriceSnapshot} {policyHash : ContentHash}
    {v : Valuation} (valued : valueBook book snapshot policyHash = .ok v) :
    v.keyHash = sha256 (valuationKey book snapshot policyHash).preimage ∧
      ∃ held, Sums snapshot.currency book.openLots held ∧
        valuePositions snapshot ⟨snapshot.currency, 0⟩ ⟨snapshot.currency, 0⟩ (inOrder held) =
          .ok (v.positions, v.totalFairValue, v.totalUnrealized) ∧ v.asOf = snapshot.asOf := by
  rw [valueBook_eq] at valued
  obtain ⟨held, sums, priced, same⟩ := valueLots_ok valued
  rw [same]
  exact ⟨rfl, held, sums, priced, rfl⟩

theorem valueBook_totals {book : LotBook} {snapshot : PriceSnapshot} {policyHash : ContentHash}
    {v : Valuation} (valued : valueBook book snapshot policyHash = .ok v) :
    (v.positions.map Position.asset).Pairwise (· < ·) ∧
      (∀ p ∈ v.positions, p.fairValue.asset = v.totalFairValue.asset) ∧
      v.totalFairValue.atoms.val = (v.positions.map (·.fairValue.atoms.val)).sum := by
  obtain ⟨-, held, -, priced, -⟩ := valueBook_ok valued
  obtain ⟨all, currency, total, -⟩ := valuePositions_ok priced
  obtain ⟨assets, units⟩ := priced_positions all
  refine ⟨?_, fun p member => (units p member).trans currency.symm, by simpa using total⟩
  rw [assets]
  exact List.pairwise_map.mpr (inOrder_sorted held)

end Treasury
