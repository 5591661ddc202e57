import Treasury.Fairvalue.Valuation
import Treasury.Reference

/-! A valuation against its definition. The quotient is truncated toward zero, which is the floor
where the scaled price is not negative or divides evenly. -/
namespace Treasury
open Kit

def Fits (z : Int) : Prop := -2 ^ 127 ≤ z ∧ z < 2 ^ 127

instance (z : Int) : Decidable (Fits z) := inferInstanceAs (Decidable (_ ∧ _))

def atomsOf (lots : List Lot) (asset : AssetId) : Int := tally Lot.asset (·.atoms.val) asset lots

def basisOf (lots : List Lot) (asset : AssetId) : Int :=
  tally Lot.asset (·.costBasis.atoms.val) asset lots

def heldAssets (lots : List Lot) : List AssetId := dedupAdjacent (sortBy id (lots.map Lot.asset))

/-- What the lots of an asset are worth, with the quotient as the code takes it. -/
def worth (snapshot : PriceSnapshot) (lots : List Lot) (asset : AssetId) : Int :=
  match snapshot.prices.lookup asset with
  | none => 0
  | some price => (atomsOf lots asset * price.minorPerUnit.val).tdiv price.atomsPerUnit.val

/-- What they are worth rounded toward minus infinity. -/
def floorWorth (snapshot : PriceSnapshot) (lots : List Lot) (asset : AssetId) : Int :=
  match snapshot.prices.lookup asset with
  | none => 0
  | some price => (atomsOf lots asset * price.minorPerUnit.val).fdiv price.atomsPerUnit.val

/-- Every basis is in the currency, and every asset has a price with a positive scale. -/
structure Priceable (snapshot : PriceSnapshot) (lots : List Lot) : Prop where
  currency : ∀ l ∈ lots, l.costBasis.asset = snapshot.currency
  priced : ∀ l ∈ lots, ∃ price, snapshot.prices.lookup l.asset = some price ∧
    0 < price.atomsPerUnit.val

/-- No sum and no product of the computation leaves 128 bits. -/
structure InRange (snapshot : PriceSnapshot) (lots : List Lot) : Prop where
  atoms : ∀ front, front <+: lots → ∀ asset, Fits (atomsOf front asset)
  basis : ∀ front, front <+: lots → ∀ asset, Fits (basisOf front asset)
  scaled : ∀ asset ∈ heldAssets lots, ∀ price, snapshot.prices.lookup asset = some price →
    Fits (atomsOf lots asset * price.minorPerUnit.val)
  mark : ∀ asset ∈ heldAssets lots, Fits (worth snapshot lots asset - basisOf lots asset)
  fairValues : ∀ front, front <+: heldAssets lots → Fits (front.map (worth snapshot lots)).sum
  marks : ∀ front, front <+: heldAssets lots →
    Fits (front.map fun asset => worth snapshot lots asset - basisOf lots asset).sum

/-- One position for each asset that is held, in order, at the value given for the asset. -/
structure ValuedAt (value : AssetId → Int) (snapshot : PriceSnapshot) (lots : List Lot)
    (v : Valuation) : Prop where
  ordered : (v.positions.map Position.asset).Pairwise (· < ·)
  held : ∀ asset, asset ∈ v.positions.map Position.asset ↔ ∃ l ∈ lots, l.asset = asset
  atoms : ∀ p ∈ v.positions, p.atoms.val = atomsOf lots p.asset
  costBasis : ∀ p ∈ v.positions, p.costBasis.asset = snapshot.currency ∧
    p.costBasis.atoms.val = basisOf lots p.asset
  fairValue : ∀ p ∈ v.positions, p.fairValue.asset = snapshot.currency ∧
    p.fairValue.atoms.val = value p.asset
  unrealized : ∀ p ∈ v.positions, p.unrealized.asset = snapshot.currency ∧
    p.unrealized.atoms.val = p.fairValue.atoms.val - p.costBasis.atoms.val
  totalFairValue : v.totalFairValue.asset = snapshot.currency ∧
    v.totalFairValue.atoms.val = (v.positions.map (·.fairValue.atoms.val)).sum
  totalUnrealized : v.totalUnrealized.asset = snapshot.currency ∧
    v.totalUnrealized.atoms.val =
      v.totalFairValue.atoms.val - (v.positions.map (·.costBasis.atoms.val)).sum

theorem mem_heldAssets {lots : List Lot} {asset : AssetId} :
    asset ∈ heldAssets lots ↔ ∃ l ∈ lots, l.asset = asset := by
  simp [heldAssets]

theorem heldAssets_ordered (lots : List Lot) : (heldAssets lots).Pairwise (· < ·) := by
  unfold heldAssets
  convert strict_dedup_sortBy (lots.map Lot.asset)

theorem tdiv_eq_fdiv_iff {n d : Int} (positive : 0 < d) :
    n.tdiv d = n.fdiv d ↔ 0 ≤ n ∨ d ∣ n := by
  rw [Int.tdiv_eq_ediv, Int.fdiv_eq_ediv_of_nonneg n positive.le, Int.sign_eq_one_of_pos positive]
  split
  · rename_i even
    simpa using even
  · rename_i uneven
    simpa using uneven

theorem fits_iff {z : Int} : Fits z ↔ ∃ b : I128, b.val = z := by
  constructor
  · rintro ⟨low, high⟩
    exact I128.exists_val low high
  · rintro ⟨b, rfl⟩
    exact ⟨b.lower, b.upper⟩

theorem Fits.tdiv {n d : Int} (fits : Fits n) (positive : 0 < d) : Fits (n.tdiv d) := by
  obtain ⟨low, high⟩ := fits
  have smaller := Int.natAbs_tdiv_le_natAbs n d
  rcases Int.le_total 0 n with up | down
  · have sign := Int.tdiv_nonneg up positive.le
    constructor <;> omega
  · have sign := Int.tdiv_nonneg (Int.neg_nonneg_of_nonpos down) positive.le
    rw [Int.neg_tdiv] at sign
    constructor <;> omega

theorem checkedAdd_fits {a b : AssetAmount} (same : a.asset = b.asset)
    (fits : Fits (a.atoms.val + b.atoms.val)) :
    ∃ c, a.checkedAdd b = .ok c ∧ c.asset = a.asset ∧ c.atoms.val = a.atoms.val + b.atoms.val := by
  obtain ⟨sum, sum_eq⟩ := fits_iff.mp fits
  exact ⟨⟨a.asset, sum⟩, AssetAmount.checkedAdd_eq_ok.mpr ⟨same, rfl, sum_eq.symm⟩, rfl, sum_eq⟩

section
variable {currency : AssetId} {done rest : List Lot} {held : Holdings}

theorem addLot_fits {lot : Lot} (sums : Sums currency done held)
    (same : lot.costBasis.asset = currency) (atoms : Fits (atomsOf (done ++ [lot]) lot.asset))
    (basis : Fits (basisOf (done ++ [lot]) lot.asset)) : ∃ out, addLot held lot = .ok out := by
  have mine := sums lot.asset
  unfold addLot
  cases found : held.lookup lot.asset with
  | none => exact ⟨_, rfl⟩
  | some entry =>
    obtain ⟨heldAtoms, heldBasis⟩ := entry
    simp only [found] at mine
    simp only [atomsOf, basisOf, tally_one, if_true, ← mine.atoms, ← mine.basis] at atoms basis
    obtain ⟨newAtoms, sum⟩ := fits_iff.mp atoms
    obtain ⟨newBasis, joined, -⟩ := checkedAdd_fits (mine.currency.trans same.symm) basis
    simp only [Bounded.checkedAdd_eq_some.mpr sum.symm, joined, mapError_ok]
    exact ⟨_, rfl⟩

theorem aggregateLots_fits (sums : Sums currency done held)
    (same : ∀ l ∈ rest, l.costBasis.asset = currency)
    (atoms : ∀ front, front <+: done ++ rest → ∀ asset, Fits (atomsOf front asset))
    (basis : ∀ front, front <+: done ++ rest → ∀ asset, Fits (basisOf front asset)) :
    ∃ out, aggregateLots currency held rest = .ok out := by
  induction rest generalizing done held with
  | nil => exact ⟨held, rfl⟩
  | cons lot rest ih =>
    obtain ⟨here, later⟩ := List.forall_mem_cons.mp same
    have whole : done ++ lot :: rest = done ++ [lot] ++ rest := by simp
    rw [whole] at atoms basis
    have front : done ++ [lot] <+: done ++ [lot] ++ rest := List.prefix_append _ _
    obtain ⟨next, added⟩ := addLot_fits sums here (atoms _ front _) (basis _ front _)
    obtain ⟨out, aggregated⟩ := ih (sums.addLot here added) later atoms basis
    refine ⟨out, ?_⟩
    rw [aggregateLots, if_neg (not_not.mpr here), added]
    exact aggregated

theorem aggregateLots_currency {out : Holdings}
    (aggregated : aggregateLots currency held rest = .ok out) :
    ∀ l ∈ rest, l.costBasis.asset = currency := by
  induction rest generalizing held with
  | nil => simp
  | cons lot rest ih =>
    unfold aggregateLots at aggregated
    split at aggregated
    · cases aggregated
    · rename_i same
      obtain ⟨next, -, later⟩ := bind_eq_ok.mp aggregated
      exact List.forall_mem_cons.mpr ⟨not_not.mp same, ih later⟩

end

/-- What an entry of the sums is worth, with the quotient as the code takes it. -/
def entryWorth (snapshot : PriceSnapshot) (entry : AssetId × I128 × AssetAmount) : Int :=
  match snapshot.prices.lookup entry.1 with
  | none => 0
  | some price => (entry.2.1.val * price.minorPerUnit.val).tdiv price.atomsPerUnit.val

/-- The entry has a price, and what is computed for it fits. -/
structure Valuable (snapshot : PriceSnapshot) (entry : AssetId × I128 × AssetAmount) : Prop where
  price : ∃ price, snapshot.prices.lookup entry.1 = some price ∧ 0 < price.atomsPerUnit.val ∧
    Fits (entry.2.1.val * price.minorPerUnit.val)
  currency : entry.2.2.asset = snapshot.currency
  mark : Fits (entryWorth snapshot entry - entry.2.2.atoms.val)

section
variable {snapshot : PriceSnapshot}

theorem valuePosition_fits {entry : AssetId × I128 × AssetAmount} (valuable : Valuable snapshot entry) :
    ∃ position, valuePosition snapshot entry.1 entry.2.1 entry.2.2 = .ok position ∧
      position.fairValue.asset = snapshot.currency ∧
      position.fairValue.atoms.val = entryWorth snapshot entry ∧
      position.unrealized.asset = snapshot.currency ∧
      position.unrealized.atoms.val = entryWorth snapshot entry - entry.2.2.atoms.val := by
  obtain ⟨⟨price, found, positive, product⟩, currency, mark⟩ := valuable
  simp only [entryWorth, found] at mark ⊢
  obtain ⟨scaled, scaled_eq⟩ := fits_iff.mp product
  obtain ⟨value, value_eq⟩ := fits_iff.mp (product.tdiv positive)
  rw [← value_eq] at mark ⊢
  obtain ⟨difference, difference_eq⟩ := fits_iff.mp mark
  have scale : ¬price.atomsPerUnit ≤ 0 := not_le.mpr positive
  have multiplied := Bounded.checkedMul_eq_some.mpr scaled_eq.symm
  have divided : scaled.checkedDiv price.atomsPerUnit = some value :=
    Bounded.checkedDiv_eq_some.mpr ⟨positive.ne', by rw [scaled_eq, value_eq]⟩
  have subtracted : AssetAmount.checkedSub ⟨snapshot.currency, value⟩ entry.2.2 =
      .ok ⟨snapshot.currency, difference⟩ :=
    AssetAmount.checkedSub_eq_ok.mpr ⟨currency.symm, rfl, difference_eq.symm⟩
  refine ⟨⟨entry.1, entry.2.1, entry.2.2, ⟨snapshot.currency, value⟩,
    ⟨snapshot.currency, difference⟩⟩, ?_, rfl, rfl, rfl, difference_eq⟩
  simp only [valuePosition, found, scale, if_false, multiplied, divided, subtracted, mapError_ok]
  rfl

theorem valuePositions_fits {entries : List (AssetId × I128 × AssetAmount)}
    {fairValue unrealized : AssetAmount} (valuable : ∀ e ∈ entries, Valuable snapshot e)
    (fairCurrency : fairValue.asset = snapshot.currency)
    (markCurrency : unrealized.asset = snapshot.currency)
    (fairFits : ∀ front, front <+: entries →
      Fits (fairValue.atoms.val + (front.map (entryWorth snapshot)).sum))
    (markFits : ∀ front, front <+: entries →
      Fits (unrealized.atoms.val +
        (front.map fun e => entryWorth snapshot e - e.2.2.atoms.val).sum)) :
    ∃ result, valuePositions snapshot fairValue unrealized entries = .ok result := by
  induction entries generalizing fairValue unrealized with
  | nil => exact ⟨_, rfl⟩
  | cons entry rest ih =>
    obtain ⟨here, later⟩ := List.forall_mem_cons.mp valuable
    obtain ⟨position, valued, fairAsset, fair, markAsset, mark⟩ := valuePosition_fits here
    have single : [entry] <+: entry :: rest := List.prefix_append [entry] rest
    have fairNow := fairFits _ single
    have markNow := markFits _ single
    simp only [List.map_cons, List.map_nil, List.sum_cons, List.sum_nil, add_zero] at fairNow markNow
    rw [← fair] at fairNow
    rw [← mark] at markNow
    obtain ⟨nextFair, addedFair, fairUnit, fairSum⟩ :=
      checkedAdd_fits (fairCurrency.trans fairAsset.symm) fairNow
    obtain ⟨nextMark, addedMark, markUnit, markSum⟩ :=
      checkedAdd_fits (markCurrency.trans markAsset.symm) markNow
    have behind (front : List (AssetId × I128 × AssetAmount)) (h : front <+: rest) :
        entry :: front <+: entry :: rest := List.cons_prefix_cons.mpr ⟨rfl, h⟩
    obtain ⟨result, valuedRest⟩ :=
      @ih nextFair nextMark later (fairUnit.trans fairCurrency) (markUnit.trans markCurrency)
        (fun front h => by
          rw [fairSum, fair, add_assoc]
          simpa using fairFits _ (behind front h))
        (fun front h => by
          rw [markSum, mark, add_assoc]
          simpa using markFits _ (behind front h))
    refine ⟨(position :: result.1, result.2), ?_⟩
    unfold valuePositions
    refine bind_eq_ok.mpr ⟨position, valued, ?_⟩
    refine bind_eq_ok.mpr ⟨nextFair, mapError_eq_ok.mpr addedFair, ?_⟩
    refine bind_eq_ok.mpr ⟨nextMark, mapError_eq_ok.mpr addedMark, ?_⟩
    exact bind_eq_ok.mpr ⟨result, valuedRest, rfl⟩

theorem valuePositions_marks {entries : List (AssetId × I128 × AssetAmount)}
    {fairValue unrealized fairTotal markTotal : AssetAmount} {positions : List Position}
    (currency : unrealized.asset = snapshot.currency)
    (valued : valuePositions snapshot fairValue unrealized entries =
      .ok (positions, fairTotal, markTotal)) :
    markTotal.asset = snapshot.currency ∧
      ∀ p ∈ positions, p.unrealized.asset = snapshot.currency := by
  induction entries generalizing fairValue unrealized positions with
  | nil =>
    cases valued
    exact ⟨currency, by simp⟩
  | cons entry rest ih =>
    obtain ⟨asset, atoms, costBasis⟩ := entry
    unfold valuePositions at valued
    obtain ⟨position, priced, valued⟩ := bind_eq_ok.mp valued
    obtain ⟨nextFair, -, valued⟩ := bind_eq_ok.mp valued
    obtain ⟨nextMark, added, valued⟩ := bind_eq_ok.mp valued
    obtain ⟨⟨others, totals⟩, later, same⟩ := bind_eq_ok.mp valued
    cases pure_eq_ok.mp same
    obtain ⟨mine, unit, -⟩ := AssetAmount.checkedAdd_eq_ok.mp (mapError_eq_ok.mp added)
    obtain ⟨total, units⟩ := ih (unit.trans currency) later
    exact ⟨total, List.forall_mem_cons.mpr ⟨mine.symm.trans currency, units⟩⟩

end

theorem priced_of_mem {snapshot : PriceSnapshot} {entries : List (AssetId × I128 × AssetAmount)}
    {positions : List Position} (all : List.Forall₂ (Priced snapshot) entries positions)
    {entry : AssetId × I128 × AssetAmount} (member : entry ∈ entries) :
    ∃ p ∈ positions, Priced snapshot entry p := by
  induction all with
  | nil => cases member
  | @cons _ p _ _ first _ ih =>
    rcases List.mem_cons.mp member with rfl | later
    · exact ⟨p, List.mem_cons_self, first⟩
    · obtain ⟨q, inRest, priced⟩ := ih later
      exact ⟨q, List.mem_cons_of_mem p inRest, priced⟩

theorem entry_of_mem {snapshot : PriceSnapshot} {entries : List (AssetId × I128 × AssetAmount)}
    {positions : List Position} (all : List.Forall₂ (Priced snapshot) entries positions)
    {p : Position} (member : p ∈ positions) : ∃ entry ∈ entries, Priced snapshot entry p := by
  induction all with
  | nil => cases member
  | @cons entry _ _ _ first _ ih =>
    rcases List.mem_cons.mp member with rfl | later
    · exact ⟨entry, List.mem_cons_self, first⟩
    · obtain ⟨e, inRest, priced⟩ := ih later
      exact ⟨e, List.mem_cons_of_mem entry inRest, priced⟩

theorem sum_sub {α : Type} (l : List α) (f g : α → Int) :
    (l.map fun a => f a - g a).sum = (l.map f).sum - (l.map g).sum := by
  induction l with
  | nil => rfl
  | cons a l ih =>
    simp only [List.map_cons, List.sum_cons, ih]
    omega

section
variable {snapshot : PriceSnapshot} {lots : List Lot} {held : Holdings}

theorem mem_entries {asset : AssetId} {entry : I128 × AssetAmount} :
    (asset, entry) ∈ inOrder held ↔ held.lookup asset = some entry := by
  -- the two lookups decide equality of assets in different ways
  convert mem_inOrder

theorem Sums.held_of_mem {currency : AssetId} (sums : Sums currency lots held)
    {entry : AssetId × I128 × AssetAmount} (member : entry ∈ inOrder held) :
    Held currency lots entry.1 entry.2.1 entry.2.2 := by
  have mine := sums entry.1
  rw [mem_entries.mp member] at mine
  exact mine

theorem Sums.exists_entry {currency : AssetId} (sums : Sums currency lots held) {asset : AssetId} :
    (∃ entry, (asset, entry) ∈ inOrder held) ↔ ∃ l ∈ lots, l.asset = asset := by
  constructor
  · rintro ⟨entry, member⟩
    exact (sums.held_of_mem member).listed
  · rintro ⟨l, inLots, same⟩
    have mine := sums asset
    cases found : held.lookup asset with
    | none =>
      rw [found] at mine
      exact absurd same (mine l inLots)
    | some entry => exact ⟨entry, mem_entries.mpr found⟩

theorem Sums.assets_eq {currency : AssetId} (sums : Sums currency lots held) :
    (inOrder held).map Prod.fst = heldAssets lots := by
  apply (List.pairwise_map.mpr (inOrder_sorted held)).eq_of_mem_iff (heldAssets_ordered lots)
  intro asset
  rw [mem_heldAssets, ← sums.exists_entry]
  simp

theorem Sums.worth_eq (sums : Sums snapshot.currency lots held)
    {entry : AssetId × I128 × AssetAmount} (member : entry ∈ inOrder held) :
    entryWorth snapshot entry = worth snapshot lots entry.1 := by
  unfold entryWorth worth atomsOf
  rw [(sums.held_of_mem member).atoms]

theorem Sums.front_sum (sums : Sums snapshot.currency lots held)
    {front : List (AssetId × I128 × AssetAmount)} (isFront : front <+: inOrder held) :
    front.map Prod.fst <+: heldAssets lots ∧
      (front.map (entryWorth snapshot)).sum =
        ((front.map Prod.fst).map (worth snapshot lots)).sum ∧
      (front.map fun e => entryWorth snapshot e - e.2.2.atoms.val).sum =
        ((front.map Prod.fst).map fun a => worth snapshot lots a - basisOf lots a).sum := by
  refine ⟨sums.assets_eq ▸ isFront.map Prod.fst, ?_, ?_⟩
  · rw [List.map_map]
    apply congrArg List.sum
    apply List.map_congr_left
    intro e member
    exact sums.worth_eq (isFront.subset member)
  · rw [List.map_map]
    apply congrArg List.sum
    apply List.map_congr_left
    intro e member
    have basis := (sums.held_of_mem (isFront.subset member)).basis
    simp only [Function.comp, sums.worth_eq (isFront.subset member), basisOf, basis]

theorem valueLots_priceable {key : ValuationKey} {keyHash : ContentHash} {v : Valuation}
    (valued : valueLots key keyHash snapshot lots = .ok v) : Priceable snapshot lots := by
  obtain ⟨held, sums, priced, -⟩ := valueLots_ok valued
  unfold valueLots at valued
  obtain ⟨_, aggregated, -⟩ := bind_eq_ok.mp valued
  refine ⟨aggregateLots_currency aggregated, fun l inLots => ?_⟩
  obtain ⟨entry, member⟩ := sums.exists_entry.mpr ⟨l, inLots, rfl⟩
  obtain ⟨p, -, isPriced⟩ := priced_of_mem (valuePositions_ok priced).1 member
  obtain ⟨price, found, positive, -⟩ := isPriced.price
  exact ⟨price, found, positive⟩

theorem valueLots_fits {key : ValuationKey} {keyHash : ContentHash} (inRange : InRange snapshot lots)
    (priceable : Priceable snapshot lots) : ∃ v, valueLots key keyHash snapshot lots = .ok v := by
  obtain ⟨held, aggregated⟩ := aggregateLots_fits (sums_empty snapshot.currency) priceable.currency
    (by simpa using inRange.atoms) (by simpa using inRange.basis)
  have sums := aggregateLots_sums (sums_empty _) aggregated
  rw [List.nil_append] at sums
  have isHeld {entry : AssetId × I128 × AssetAmount} (member : entry ∈ inOrder held) :
      entry.1 ∈ heldAssets lots := by
    rw [← sums.assets_eq]
    exact List.mem_map_of_mem member
  have valuable : ∀ e ∈ inOrder held, Valuable snapshot e := by
    intro e member
    obtain ⟨⟨l, inLots, same⟩, atoms, currency, basis⟩ := sums.held_of_mem member
    obtain ⟨price, found, positive⟩ := priceable.priced l inLots
    rw [same] at found
    refine ⟨⟨price, found, positive, ?_⟩, currency, ?_⟩
    · rw [atoms]
      exact inRange.scaled e.1 (isHeld member) price found
    · rw [sums.worth_eq member, basis]
      exact inRange.mark e.1 (isHeld member)
  obtain ⟨result, valued⟩ := @valuePositions_fits snapshot (inOrder held) ⟨snapshot.currency, 0⟩
    ⟨snapshot.currency, 0⟩ valuable rfl rfl
    (fun front isFront => by
      obtain ⟨assets, fair, -⟩ := sums.front_sum isFront
      rw [fair, I128.zero_val, zero_add]
      exact inRange.fairValues _ assets)
    (fun front isFront => by
      obtain ⟨assets, -, marks⟩ := sums.front_sum isFront
      rw [marks, I128.zero_val, zero_add]
      exact inRange.marks _ assets)
  unfold valueLots
  refine ⟨⟨key, keyHash, snapshot.asOf, result.1, result.2.1, result.2.2⟩, ?_⟩
  exact bind_eq_ok.mpr ⟨held, aggregated, bind_eq_ok.mpr ⟨result, valued, rfl⟩⟩

theorem valueLots_valued {key : ValuationKey} {keyHash : ContentHash} {v : Valuation}
    (valued : valueLots key keyHash snapshot lots = .ok v) :
    ValuedAt (worth snapshot lots) snapshot lots v := by
  obtain ⟨held, sums, priced, -⟩ := valueLots_ok valued
  obtain ⟨all, fairCurrency, fairTotal, markTotal⟩ := valuePositions_ok priced
  obtain ⟨markCurrency, marks⟩ := valuePositions_marks rfl priced
  have assets := (priced_positions all).1.trans sums.assets_eq
  have entryOf {p : Position} (member : p ∈ v.positions) : ∃ entry,
      Priced snapshot entry p ∧ Held snapshot.currency lots p.asset entry.2.1 entry.2.2 ∧
        p.fairValue.atoms.val = worth snapshot lots p.asset := by
    obtain ⟨entry, inEntries, isPriced⟩ := entry_of_mem all member
    obtain ⟨price, found, -, value⟩ := isPriced.price
    have worthOf : entryWorth snapshot entry = p.fairValue.atoms.val := by
      simp only [entryWorth, found, value]
    rw [isPriced.asset, ← sums.worth_eq inEntries]
    exact ⟨entry, isPriced, sums.held_of_mem inEntries, worthOf.symm⟩
  constructor
  case ordered =>
    rw [assets]
    exact heldAssets_ordered lots
  case held =>
    intro asset
    rw [assets, mem_heldAssets]
  case atoms =>
    intro p member
    obtain ⟨entry, isPriced, isHeld, -⟩ := entryOf member
    rw [isPriced.atoms]
    exact isHeld.atoms
  case costBasis =>
    intro p member
    obtain ⟨entry, isPriced, isHeld, -⟩ := entryOf member
    rw [isPriced.costBasis]
    exact ⟨isHeld.currency, isHeld.basis⟩
  case fairValue =>
    intro p member
    obtain ⟨entry, isPriced, -, value⟩ := entryOf member
    exact ⟨isPriced.currency, value⟩
  case unrealized =>
    intro p member
    obtain ⟨entry, isPriced, -⟩ := entryOf member
    exact ⟨marks p member, isPriced.unrealized⟩
  case totalFairValue => exact ⟨fairCurrency, by simpa using fairTotal⟩
  case totalUnrealized =>
    have difference (p) (member : p ∈ v.positions) : p.unrealized.atoms.val =
        p.fairValue.atoms.val - p.costBasis.atoms.val := by
      obtain ⟨entry, isPriced, -⟩ := entryOf member
      exact isPriced.unrealized
    refine ⟨markCurrency, ?_⟩
    rw [markTotal, fairTotal, List.map_congr_left difference, sum_sub]
    simp

/-- Where a price is known, the truncated quotient is the floor in exactly these cases. -/
theorem worth_eq_floor_iff {asset : AssetId} {price : Price}
    (found : snapshot.prices.lookup asset = some price) (positive : 0 < price.atomsPerUnit.val) :
    worth snapshot lots asset = floorWorth snapshot lots asset ↔
      0 ≤ atomsOf lots asset * price.minorPerUnit.val ∨
        price.atomsPerUnit.val ∣ atomsOf lots asset * price.minorPerUnit.val := by
  simp only [worth, floorWorth, found]
  exact tdiv_eq_fdiv_iff positive

end

section
variable [External]

/-- What a valuation should be: it is made exactly of lots that can be priced, and each position
is at the floor of what the asset is worth. -/
structure FloorValued (book : LotBook) (snapshot : PriceSnapshot) (policyHash : ContentHash) :
    Prop where
  made : (∃ v, valueBook book snapshot policyHash = .ok v) ↔ Priceable snapshot book.openLots
  valued : ∀ v, valueBook book snapshot policyHash = .ok v →
    ValuedAt (floorWorth snapshot book.openLots) snapshot book.openLots v

/-- Where nothing overflows, a valuation is what it should be exactly if there is none or no
asset has a negative product of atoms and price that leaves a remainder. -/
theorem floorValued_iff {book : LotBook} {snapshot : PriceSnapshot}
    (inRange : InRange snapshot book.openLots) (policyHash : ContentHash) :
    FloorValued book snapshot policyHash ↔
      (Priceable snapshot book.openLots → ∀ l ∈ book.openLots, ∀ price,
        snapshot.prices.lookup l.asset = some price →
          0 ≤ atomsOf book.openLots l.asset * price.minorPerUnit.val ∨
          price.atomsPerUnit.val ∣ atomsOf book.openLots l.asset * price.minorPerUnit.val) := by
  constructor
  · rintro ⟨made, valued⟩ priceable l inLots price found
    obtain ⟨v, made⟩ := made.mpr priceable
    have floor := valued v made
    rw [valueBook_eq] at made
    have actual := valueLots_valued made
    obtain ⟨other, foundToo, positive⟩ := priceable.priced l inLots
    obtain rfl := Option.some.inj (found.symm.trans foundToo)
    apply (worth_eq_floor_iff found positive).mp
    obtain ⟨p, member, same⟩ := List.mem_map.mp ((actual.held l.asset).mpr ⟨l, inLots, rfl⟩)
    rw [← same, ← (actual.fairValue p member).2, (floor.fairValue p member).2]
  · intro even
    have made : (∃ v, valueBook book snapshot policyHash = .ok v) ↔
        Priceable snapshot book.openLots := by
      rw [valueBook_eq]
      exact ⟨fun ⟨v, valued⟩ => valueLots_priceable valued, valueLots_fits inRange⟩
    refine ⟨made, fun v valued => ?_⟩
    have priceable := made.mp ⟨v, valued⟩
    rw [valueBook_eq] at valued
    have actual := valueLots_valued valued
    refine { actual with fairValue := fun p member => ?_ }
    obtain ⟨currency, value⟩ := actual.fairValue p member
    obtain ⟨l, inLots, same⟩ := (actual.held p.asset).mp (List.mem_map_of_mem member)
    obtain ⟨price, found, positive⟩ := priceable.priced l inLots
    refine ⟨currency, value.trans ?_⟩
    have exactly := even priceable l inLots price found
    rw [← same]
    exact (worth_eq_floor_iff found positive).mpr exactly

def oneAtom : Lot :=
  ⟨.filled 1, ⟨"acme"⟩, ⟨"BTC"⟩, ⟨"cold"⟩, .literal 1, ⟨⟨"USD"⟩, 0⟩, ⟨⟨"USD"⟩, 0⟩,
    ⟨.literal 10⟩, .filled 2, none⟩

def atomBook : LotBook := ⟨⟨"acme"⟩, [oneAtom]⟩

def threeAt (minor : I128) : PriceSnapshot :=
  ⟨⟨"USD"⟩, ⟨.literal 1000⟩, Finmap.singleton ⟨"BTC"⟩ ⟨minor, .literal 3⟩⟩

omit [External] in
theorem lookup_threeAt (minor : I128) :
    (threeAt minor).prices.lookup ⟨"BTC"⟩ = some ⟨minor, .literal 3⟩ :=
  Finmap.lookup_singleton_eq

omit [External] in
theorem inRange_threeAt {minor : I128} (small : minor.val.tdiv 3 = 0) :
    InRange (threeAt minor) atomBook.openLots := by
  have fronts {front : List Lot} (isFront : front <+: atomBook.openLots) :
      front = [] ∨ front = [oneAtom] := by
    have front' : front <+: [oneAtom] := isFront
    simpa [List.prefix_cons_iff] using front'
  have held : heldAssets atomBook.openLots = [⟨"BTC"⟩] := rfl
  have one : atomsOf atomBook.openLots ⟨"BTC"⟩ = 1 := rfl
  have free : basisOf atomBook.openLots ⟨"BTC"⟩ = 0 := rfl
  have nothing : worth (threeAt minor) atomBook.openLots ⟨"BTC"⟩ = 0 := by
    simp only [worth, lookup_threeAt, one, one_mul]
    exact small
  constructor
  case atoms =>
    intro front isFront asset
    rcases fronts isFront with rfl | rfl
    · exact (by decide : Fits 0)
    · simp only [atomsOf, tally_cons, tally_nil, add_zero]
      split <;> decide
  case basis =>
    intro front isFront asset
    rcases fronts isFront with rfl | rfl
    · exact (by decide : Fits 0)
    · simp only [basisOf, tally_cons, tally_nil, add_zero]
      split <;> decide
  case scaled =>
    intro asset isHeld price found
    obtain rfl : asset = ⟨"BTC"⟩ := by simpa [held] using isHeld
    obtain rfl := Option.some.inj ((lookup_threeAt minor).symm.trans found)
    rw [one, one_mul]
    exact ⟨minor.lower, minor.upper⟩
  case mark =>
    intro asset isHeld
    obtain rfl : asset = ⟨"BTC"⟩ := by simpa [held] using isHeld
    rw [nothing, free]
    decide
  case fairValues =>
    intro front isFront
    rw [held] at isFront
    rcases List.prefix_cons_iff.mp isFront with rfl | ⟨rest, rfl, none⟩
    · exact (by decide : Fits 0)
    · obtain rfl := List.prefix_nil.mp none
      simp only [List.map_cons, List.map_nil, List.sum_cons, List.sum_nil, nothing]
      decide
  case marks =>
    intro front isFront
    rw [held] at isFront
    rcases List.prefix_cons_iff.mp isFront with rfl | ⟨rest, rfl, none⟩
    · exact (by decide : Fits 0)
    · obtain rfl := List.prefix_nil.mp none
      simp only [List.map_cons, List.map_nil, List.sum_cons, List.sum_nil, nothing, free]
      decide

omit [External] in
theorem priceable_threeAt (minor : I128) : Priceable (threeAt minor) atomBook.openLots := by
  have only {l : Lot} (inLots : l ∈ atomBook.openLots) : l = oneAtom :=
    List.mem_singleton.mp inLots
  constructor
  · intro l inLots
    rw [only inLots]
    rfl
  · intro l inLots
    rw [only inLots]
    exact ⟨_, lookup_threeAt minor, (by decide : 0 < (.literal 3 : I128).val)⟩

omit [External] in
theorem floorValued_iff_third : letI : External := reference
    FloorValued atomBook (threeAt (.literal 1)) (.filled 9) := by
  let _ : External := reference
  apply (floorValued_iff (inRange_threeAt (by decide)) _).mpr
  intro _ l inLots price found
  obtain rfl : l = oneAtom := List.mem_singleton.mp inLots
  obtain rfl := Option.some.inj ((lookup_threeAt _).symm.trans found)
  exact .inl (by decide)

omit [External] in
/-- At a negative price a third of a minor unit is rounded up to nothing. -/
theorem negative_third : letI : External := reference
    InRange (threeAt (.literal (-1))) atomBook.openLots ∧
      ¬FloorValued atomBook (threeAt (.literal (-1))) (.filled 9) := by
  let _ : External := reference
  have inRange : InRange (threeAt (.literal (-1))) atomBook.openLots :=
    inRange_threeAt (by decide)
  refine ⟨inRange, ?_⟩
  rintro ⟨made, valued⟩
  obtain ⟨v, made⟩ := made.mpr (priceable_threeAt _)
  have floor := valued v made
  rw [valueBook_eq] at made
  have actual := valueLots_valued made
  obtain ⟨p, member, same⟩ := List.mem_map.mp
    ((actual.held ⟨"BTC"⟩).mpr ⟨oneAtom, List.mem_singleton_self _, rfl⟩)
  have values := (actual.fairValue p member).2.symm.trans (floor.fairValue p member).2
  have one : atomsOf atomBook.openLots ⟨"BTC"⟩ = 1 := rfl
  rw [same] at values
  simp only [worth, floorWorth, lookup_threeAt, one] at values
  exact absurd values (by decide)

end

end Treasury
