import Treasury.Fairvalue.Valuation
import Treasury.Reference

/-! The key of a valuation as a memo index: what has one key hash is one valuation, and neither
the order of the lots nor the order in which they were opened has a say in it. -/
namespace Treasury
open Kit

section
variable [External]

def valuationPreimages (book : LotBook) (snapshot : PriceSnapshot) (policyHash : ContentHash) :
    List Bytes :=
  [book.statePreimage, snapshot.preimage, (valuationKey book snapshot policyHash).preimage]

/-- Inputs with one key hash are the same inputs, up to the order of lots of different ids. -/
theorem inputs_eq {b c : LotBook} {s t : PriceSnapshot} {p q : ContentHash}
    (injective : Set.InjOn sha256
      {x | x ∈ valuationPreimages b s p ∨ x ∈ valuationPreimages c t q})
    (same : sha256 (valuationKey b s p).preimage = sha256 (valuationKey c t q).preimage) :
    (b.tenant = c.tenant ∧ sortBy Lot.lotId b.lots = sortBy Lot.lotId c.lots) ∧ s = t ∧ p = q := by
  have keys := ValuationKey.preimage_injective
    (injective (.inl (.tail _ (.tail _ (.head _)))) (.inr (.tail _ (.tail _ (.head _)))) same)
  simp only [valuationKey, ValuationKey.mk.injEq] at keys
  obtain ⟨lots, prices, policy⟩ := keys
  have states := injective (.inl (.head _)) (.inr (.head _)) lots
  have snapshots := injective (.inl (.tail _ (.head _))) (.inr (.tail _ (.head _))) prices
  exact ⟨LotBook.statePreimage_eq_iff.mp states, PriceSnapshot.preimage_injective snapshots, policy⟩

theorem valueBook_congr {b c : LotBook} (snapshot : PriceSnapshot) (policyHash : ContentHash)
    (tenant : b.tenant = c.tenant) (lots : sortBy Lot.lotId b.lots = sortBy Lot.lotId c.lots) :
    valueBook b snapshot policyHash = valueBook c snapshot policyHash := by
  have state := LotBook.statePreimage_eq_iff.mpr ⟨tenant, lots⟩
  simp only [valueBook_eq, valuationKey, state, LotBook.openLots_eq lots]

/-- Valuations with one key hash are one valuation, with one hash. What a valuation says does not
depend on the order of the lots, and where no two lots share an id its key does not either. -/
theorem memo_sound {b c : LotBook} {s t : PriceSnapshot} {p q : ContentHash} {v w : Valuation}
    (injective : Set.InjOn sha256
      {x | x ∈ valuationPreimages b s p ∨ x ∈ valuationPreimages c t q})
    (valuedB : valueBook b s p = .ok v) (valuedC : valueBook c t q = .ok w) :
    (v.keyHash = w.keyHash → v = w ∧ v.valuationHash = w.valuationHash) ∧
    (b.lots.Perm c.lots → s = t → v.positions = w.positions ∧
      v.totalFairValue = w.totalFairValue ∧ v.totalUnrealized = w.totalUnrealized ∧
      v.asOf = w.asOf) ∧
    (b.lots.Perm c.lots → (b.lots.map Lot.lotId).Nodup → b.tenant = c.tenant → s = t → p = q →
      v = w) := by
  obtain ⟨hashV, heldV, sumsV, pricedV, asOfV⟩ := valueBook_ok valuedB
  obtain ⟨hashW, heldW, sumsW, pricedW, asOfW⟩ := valueBook_ok valuedC
  refine ⟨fun same => ?_, ?_, ?_⟩
  · obtain ⟨⟨tenant, lots⟩, rfl, rfl⟩ :=
      inputs_eq injective (hashV.symm.trans (same.trans hashW))
    rw [valueBook_congr s p tenant lots, valuedC] at valuedB
    obtain rfl := Except.ok.inj valuedB
    exact ⟨rfl, rfl⟩
  · rintro perm rfl
    have openPerm : b.openLots.Perm c.openLots :=
      (sortBy_perm lotKey b.lots).trans (perm.trans (sortBy_perm lotKey c.lots).symm)
    obtain rfl := sumsV.unique sumsW openPerm
    rw [pricedV] at pricedW
    simp only [Except.ok.injEq, Prod.mk.injEq] at pricedW
    obtain ⟨positions, fairValue, unrealized⟩ := pricedW
    exact ⟨positions, fairValue, unrealized, asOfV.trans asOfW.symm⟩
  · rintro perm distinct tenant rfl rfl
    have lots := sortBy_eq_of_perm perm distinct
    rw [valueBook_congr s p tenant lots, valuedC] at valuedB
    exact (Except.ok.inj valuedB).symm

end

def bitcoinLot (id : UInt8) (atoms basis : I128) : Lot where
  lotId := .filled id
  tenant := ⟨"acme"⟩
  asset := ⟨"BTC"⟩
  venue := ⟨"v"⟩
  atoms
  costBasis := ⟨⟨"USD"⟩, basis⟩
  acquisitionFee := ⟨⟨"USD"⟩, 0⟩
  acquiredAt := ⟨0⟩
  sourceEvent := .filled 7
  movedFrom := none

def twoLots : List Lot :=
  [bitcoinLot 1 (.literal 7) (.literal 70), bitcoinLot 2 (.literal 3) (.literal 20)]

def closingPrices : PriceSnapshot where
  currency := ⟨"USD"⟩
  asOf := ⟨0⟩
  prices := Finmap.singleton ⟨"BTC"⟩ ⟨.literal 100, .literal 7⟩

theorem digests_twoLots : letI : External := reference
    ((valuationPreimages ⟨⟨"acme"⟩, twoLots⟩ closingPrices (.filled 3)).map sha256).Nodup := by
  let _ : External := reference
  simp only [valuationPreimages, ValuationKey.preimage, PriceSnapshot.preimage,
    LotBook.statePreimage, valuationKey, toText, utf8_ofList]
  decide +kernel

theorem valued_twoLots [External] : ∃ v,
    valueBook ⟨⟨"acme"⟩, twoLots⟩ closingPrices (.filled 3) = .ok v ∧
      v.positions.map (fun p => (p.asset, p.fairValue)) =
        [(⟨"BTC"⟩, ⟨⟨"USD"⟩, .literal 142⟩)] := by
  have openLots : LotBook.openLots ⟨⟨"acme"⟩, twoLots⟩ = twoLots := sortBy_eq_self (by decide)
  have held : aggregateLots ⟨"USD"⟩ ∅ twoLots = .ok (Finmap.singleton ⟨"BTC"⟩
      (.literal 10, ⟨⟨"USD"⟩, .literal 90⟩)) := rfl
  have priced : ∃ positions fairValue unrealized,
      valuePositions closingPrices ⟨⟨"USD"⟩, 0⟩ ⟨⟨"USD"⟩, 0⟩ [(⟨"BTC"⟩, .literal 10,
        ⟨⟨"USD"⟩, .literal 90⟩)] = .ok (positions, fairValue, unrealized) ∧
      positions.map (fun p => (p.asset, p.fairValue)) =
        [(⟨"BTC"⟩, ⟨⟨"USD"⟩, .literal 142⟩)] := ⟨_, _, _, rfl, rfl⟩
  obtain ⟨positions, fairValue, unrealized, made, total⟩ := priced
  rw [← inOrder_singleton] at made
  simp only [valueBook_eq, openLots]
  exact ⟨_, bind_eq_ok.mpr ⟨_, held, bind_eq_ok.mpr ⟨_, made, rfl⟩⟩, total⟩

theorem memo_sound_swapped : letI : External := reference
    ∃ v, valueBook ⟨⟨"acme"⟩, twoLots⟩ closingPrices (.filled 3) = .ok v ∧
      valueBook ⟨⟨"acme"⟩, twoLots.reverse⟩ closingPrices (.filled 3) = .ok v ∧
      v.positions.length = 1 := by
  let _ : External := reference
  have perm : twoLots.Perm twoLots.reverse := (List.reverse_perm twoLots).symm
  have distinct : (twoLots.map Lot.lotId).Nodup := by decide
  have state : LotBook.statePreimage ⟨⟨"acme"⟩, twoLots⟩ =
      LotBook.statePreimage ⟨⟨"acme"⟩, twoLots.reverse⟩ :=
    LotBook.statePreimage_eq_iff.mpr ⟨rfl, sortBy_eq_of_perm perm distinct⟩
  have injective : Set.InjOn sha256 {x |
      x ∈ valuationPreimages ⟨⟨"acme"⟩, twoLots⟩ closingPrices (.filled 3) ∨
      x ∈ valuationPreimages ⟨⟨"acme"⟩, twoLots.reverse⟩ closingPrices (.filled 3)} := by
    simp only [valuationPreimages, valuationKey, ← state, or_self]
    exact fun a inA b inB same => List.inj_on_of_nodup_map digests_twoLots inA inB same
  obtain ⟨v, valuedV, total⟩ := valued_twoLots
  have valuedW : valueBook ⟨⟨"acme"⟩, twoLots.reverse⟩ closingPrices (.filled 3) = .ok v :=
    (valueBook_congr _ _ rfl (sortBy_eq_of_perm perm distinct).symm).trans valuedV
  obtain ⟨same, -⟩ := (memo_sound injective valuedV valuedW).1 rfl
  exact ⟨v, valuedV, same ▸ valuedW, by simpa using congrArg List.length total⟩

end Treasury
