import Treasury.Disclosure.RollForward
import Treasury.Fairvalue.Memo

/-! The disclosure pack and its tie-out against a valuation. Each position is compared with the
first row of its asset, and each row only by its asset, so that a second row of an asset is not
compared with anything. -/
namespace Treasury
open Kit

inductive TieBreak where
  | missingRow (asset : AssetId)
  | extraRow (asset : AssetId)
  | closingMismatch (asset : AssetId) (closing fairValue : I128)
  deriving DecidableEq

structure DisclosurePack where
  tenant : TenantId
  period : String
  checkpoint : ContentHash
  valuation : ContentHash
  policies : List (String × ContentHash)
  anchorReceipt : Option ContentHash
  rows : List RollForwardRow

def tiePosition (rows : List RollForwardRow) (position : Position) : Option TieBreak :=
  match rows.find? (·.asset = position.asset) with
  | none => some (.missingRow position.asset)
  | some row =>
    if row.closing ≠ position.fairValue then
      some (.closingMismatch position.asset row.closing.atoms position.fairValue.atoms)
    else none

namespace DisclosurePack

def tieToValuation (pack : DisclosurePack) (valuation : Valuation) : List TieBreak :=
  let rowAssets := dedupAdjacent (sortBy id (pack.rows.map RollForwardRow.asset))
  let positionAssets := valuation.positions.map Position.asset
  valuation.positions.filterMap (tiePosition pack.rows) ++
    (rowAssets.filter (· ∉ positionAssets)).map .extraRow

def manifest (pack : DisclosurePack) : List ContentHash :=
  dedupAdjacent (sortBy id ([pack.checkpoint, pack.valuation] ++ pack.policies.map Prod.snd ++
    pack.anchorReceipt.toList ++ pack.rows.flatMap RollForwardRow.evidence))

theorem mem_manifest {pack : DisclosurePack} {hash : ContentHash} :
    hash ∈ pack.manifest ↔ hash = pack.checkpoint ∨ hash = pack.valuation ∨
      (∃ kind, (kind, hash) ∈ pack.policies) ∨ pack.anchorReceipt = some hash ∨
      ∃ row ∈ pack.rows, hash ∈ row.evidence := by
  simp [manifest]

end DisclosurePack

theorem tiePosition_eq_none {rows : List RollForwardRow} {position : Position} :
    tiePosition rows position = none ↔
      ∃ row, rows.find? (·.asset = position.asset) = some row ∧
        row.closing = position.fairValue := by
  unfold tiePosition
  cases rows.find? (·.asset = position.asset) with
  | none => simp
  | some row => simp

theorem tieToValuation_eq_nil {pack : DisclosurePack} {v : Valuation} :
    pack.tieToValuation v = [] ↔
      (∀ p ∈ v.positions, ∃ row, pack.rows.find? (·.asset = p.asset) = some row ∧
        row.closing = p.fairValue) ∧
      ∀ row ∈ pack.rows, ∃ p ∈ v.positions, p.asset = row.asset := by
  unfold DisclosurePack.tieToValuation
  simp only [List.append_eq_nil_iff, List.filterMap_eq_nil_iff, tiePosition_eq_none,
    List.map_eq_nil_iff, List.filter_eq_nil_iff, mem_dedupAdjacent, mem_sortBy,
    List.mem_map, decide_eq_true_eq, not_not, forall_exists_index, and_imp,
    forall_apply_eq_imp_iff₂]

/-- Rows and positions correspond one to one by asset, with closing equal to fair value, and the
closing balances sum to the total. -/
structure Ties (rows : List RollForwardRow) (v : Valuation) : Prop where
  matched : (rows.map fun r => (r.asset, r.closing)).Perm
    (v.positions.map fun p => (p.asset, p.fairValue))
  currency : ∀ r ∈ rows, r.closing.asset = v.totalFairValue.asset
  total : (rows.map (·.closing.atoms.val)).sum = v.totalFairValue.atoms.val

theorem matched_of_distinct {pack : DisclosurePack} {v : Valuation}
    (sorted : (v.positions.map Position.asset).Nodup) (tied : pack.tieToValuation v = [])
    (distinct : (pack.rows.map RollForwardRow.asset).Nodup) :
    (pack.rows.map fun r => (r.asset, r.closing)).Perm
      (v.positions.map fun p => (p.asset, p.fairValue)) := by
  obtain ⟨positions, rows⟩ := tieToValuation_eq_nil.mp tied
  have found (p : Position) (member : p ∈ v.positions) :
      ∃ r ∈ pack.rows, r.asset = p.asset ∧ r.closing = p.fairValue := by
    obtain ⟨r, first, closing⟩ := positions p member
    exact ⟨r, List.mem_of_find?_eq_some first, by simpa using List.find?_some first, closing⟩
  have pairsRows : (pack.rows.map fun r => (r.asset, r.closing)).Nodup :=
    List.Nodup.of_map Prod.fst (by rwa [List.map_map])
  have pairsPositions : (v.positions.map fun p => (p.asset, p.fairValue)).Nodup :=
    List.Nodup.of_map Prod.fst (by rwa [List.map_map])
  refine (List.perm_ext_iff_of_nodup pairsRows pairsPositions).mpr fun ⟨asset, amount⟩ => ?_
  simp only [List.mem_map, Prod.mk.injEq]
  constructor
  · rintro ⟨r, member, rfl, rfl⟩
    obtain ⟨p, inside, same⟩ := rows r member
    obtain ⟨other, listed, asset, closing⟩ := found p inside
    obtain rfl := List.inj_on_of_nodup_map distinct listed member (asset.trans same)
    exact ⟨p, inside, same, closing.symm⟩
  · rintro ⟨p, member, rfl, rfl⟩
    obtain ⟨r, listed, asset, closing⟩ := found p member
    exact ⟨r, listed, asset, closing⟩

/-- A pack without breaks ties to the valuation exactly when no asset has two rows. -/
theorem ties_iff [External] {book : LotBook} {snapshot : PriceSnapshot} {policyHash : ContentHash}
    {v : Valuation} (valued : valueBook book snapshot policyHash = .ok v) {pack : DisclosurePack}
    (tied : pack.tieToValuation v = []) :
    Ties pack.rows v ↔ (pack.rows.map RollForwardRow.asset).Nodup := by
  obtain ⟨sorted, currency, total⟩ := valueBook_totals valued
  have distinct : (v.positions.map Position.asset).Nodup := sorted.imp ne_of_lt
  constructor
  · intro ties
    have assets := ties.matched.map Prod.fst
    simp only [List.map_map] at assets
    exact assets.nodup_iff.mpr distinct
  · intro apart
    have matched := matched_of_distinct distinct tied apart
    refine ⟨matched, fun r member => ?_, ?_⟩
    · have listed := matched.mem_iff.mp (List.mem_map_of_mem member)
      obtain ⟨p, inside, same⟩ := List.mem_map.mp listed
      exact (congrArg (AssetAmount.asset ∘ Prod.snd) same).symm.trans (currency p inside)
    · have sums := (matched.map fun e => e.2.atoms.val).sum_eq
      simp only [List.map_map] at sums
      exact sums.trans total.symm

def dollars (minor : I128) : AssetAmount := ⟨⟨"USD"⟩, minor⟩

def purchases (closing : I128) : RollForwardRow where
  asset := ⟨"BTC"⟩
  opening := dollars 0
  additions := dollars closing
  disposals := dollars 0
  remeasurement := dollars 0
  closing := dollars closing
  evidence := []

def packOf (rows : List RollForwardRow) : DisclosurePack where
  tenant := ⟨"acme"⟩
  period := "2026Q2"
  checkpoint := .filled 7
  valuation := .filled 8
  policies := []
  anchorReceipt := none
  rows

def fairTotal : I128 := .literal 142

theorem tied_purchases {v : Valuation}
    (positions : v.positions.map (fun p => (p.asset, p.fairValue)) = [(⟨"BTC"⟩, dollars fairTotal)])
    (more : List I128) :
    (packOf ((fairTotal :: more).map purchases)).tieToValuation v = [] := by
  obtain ⟨p, only, same⟩ := List.map_eq_singleton_iff.mp positions
  obtain ⟨asset, fairValue⟩ := Prod.mk.inj same
  refine tieToValuation_eq_nil.mpr ⟨fun q member => ?_, fun row member => ?_⟩
  · rw [only, List.mem_singleton] at member
    subst member
    exact ⟨purchases fairTotal, by simp [packOf, purchases, asset], fairValue.symm⟩
  · obtain ⟨closing, -, rfl⟩ := List.mem_map.mp member
    exact ⟨p, only ▸ List.mem_singleton_self p, asset⟩

theorem ties_iff_purchases : letI : External := reference
    ∃ v, valueBook ⟨⟨"acme"⟩, twoLots⟩ closingPrices (.filled 3) = .ok v ∧
      (packOf [purchases fairTotal]).tieToValuation v = [] ∧ Ties [purchases fairTotal] v := by
  let _ : External := reference
  obtain ⟨v, valued, positions⟩ := valued_twoLots
  have tied := tied_purchases positions []
  exact ⟨v, valued, tied, (ties_iff valued tied).mpr (List.nodup_singleton _)⟩

/-- A second row of an asset is not compared, and the rows close at more than the total. -/
theorem second_row_unnoticed : letI : External := reference
    ∃ v, valueBook ⟨⟨"acme"⟩, twoLots⟩ closingPrices (.filled 3) = .ok v ∧
      (∀ row ∈ [purchases fairTotal, purchases (.literal 50)],
        RollForwardRow.new row.asset row.opening row.additions row.disposals row.remeasurement
          row.closing row.evidence = .ok row) ∧
      (packOf [purchases fairTotal, purchases (.literal 50)]).tieToValuation v = [] ∧
      ¬Ties [purchases fairTotal, purchases (.literal 50)] v := by
  let _ : External := reference
  obtain ⟨v, valued, positions⟩ := valued_twoLots
  refine ⟨v, valued, ?_, tied_purchases positions [.literal 50], fun ties => ?_⟩
  · simp only [List.forall_mem_cons, List.not_mem_nil, false_imp_iff, implies_true, and_true]
    exact ⟨rfl, rfl⟩
  · have lengths := (ties.matched.length_eq).trans (congrArg List.length positions)
    simp at lengths

end Treasury
