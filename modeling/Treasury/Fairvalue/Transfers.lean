import Treasury.Fairvalue.Memo
import Treasury.Fairvalue.Floor
import Treasury.Lots.Relocation

/-! What transfers between venues leave of a valuation: positions and totals depend only on what
the lots of each asset and currency amount to. -/
namespace Treasury
open Kit

/-- Two lists of lots, none of them empty, that amount to the same in each asset and currency. -/
structure SameHoldings (lots others : List Lot) : Prop where
  amounts : ∀ k, tally Lot.group Lot.amounts k lots = tally Lot.group Lot.amounts k others
  positive : ∀ l ∈ lots ++ others, 0 < l.atoms.val
  basis : ∀ l ∈ lots ++ others, 0 ≤ l.costBasis.atoms.val

theorem tally_unit {M : Type*} [AddCommMonoid M] (amount : Lot → M) {currency : AssetId}
    {lots : List Lot} (units : ∀ l ∈ lots, l.costBasis.asset = currency) (asset : AssetId) :
    tally Lot.group amount (asset, currency) lots = tally Lot.asset amount asset lots := by
  unfold tally
  congr 2
  refine List.filter_congr fun l member => decide_eq_decide.mpr ?_
  rw [Lot.group, Prod.mk.injEq, and_iff_left (units l member)]

namespace SameHoldings
variable {lots others : List Lot} {currency : AssetId} {held : Holdings}

theorem symm (same : SameHoldings lots others) : SameHoldings others lots where
  amounts k := (same.amounts k).symm
  positive l member := same.positive l (List.mem_append.mpr (List.mem_append.mp member).symm)
  basis l member := same.basis l (List.mem_append.mpr (List.mem_append.mp member).symm)

theorem atoms_eq (same : SameHoldings lots others) (k : AssetId × AssetId) :
    tally Lot.group (·.atoms.val) k lots = tally Lot.group (·.atoms.val) k others := by
  have atoms := congrArg (AddMonoidHom.fst Int (Int × Int)) (same.amounts k)
  rwa [map_tally, map_tally] at atoms

theorem basis_eq (same : SameHoldings lots others) (k : AssetId × AssetId) :
    tally Lot.group (·.costBasis.atoms.val) k lots =
      tally Lot.group (·.costBasis.atoms.val) k others := by
  have basis := congrArg
    ((AddMonoidHom.fst Int Int).comp (AddMonoidHom.snd Int (Int × Int))) (same.amounts k)
  rwa [map_tally, map_tally] at basis

theorem listed (same : SameHoldings lots others) {l : Lot} (member : l ∈ others) :
    ∃ m ∈ lots, m.group = l.group := by
  by_contra none
  have nothing := tally_none Lot.group (·.atoms.val) l.group
    fun m inLots alike => none ⟨m, inLots, alike⟩
  have some := le_tally Lot.group (fun m h => (same.positive m (List.mem_append_right _ h)).le) member
  rw [← same.atoms_eq, nothing] at some
  exact absurd (same.positive l (List.mem_append_right _ member)) (not_lt.mpr some)

theorem currency_eq (same : SameHoldings lots others)
    (units : ∀ l ∈ lots, l.costBasis.asset = currency) :
    ∀ l ∈ others, l.costBasis.asset = currency := by
  intro l member
  obtain ⟨m, inLots, alike⟩ := same.listed member
  exact (congrArg Prod.snd alike).symm.trans (units m inLots)

variable (same : SameHoldings lots others) (units : ∀ l ∈ lots, l.costBasis.asset = currency)
include same units

theorem atomsOf_eq (asset : AssetId) : atomsOf lots asset = atomsOf others asset := by
  rw [atomsOf, atomsOf, ← tally_unit _ units, ← tally_unit _ (same.currency_eq units)]
  exact same.atoms_eq _

theorem basisOf_eq (asset : AssetId) : basisOf lots asset = basisOf others asset := by
  rw [basisOf, basisOf, ← tally_unit _ units, ← tally_unit _ (same.currency_eq units)]
  exact same.basis_eq _

theorem sums_eq (sums : Sums currency lots held) : Sums currency others held := by
  intro asset
  have mine := sums asset
  cases found : held.lookup asset with
  | none =>
    simp only [found] at mine
    intro l member here
    obtain ⟨m, inLots, alike⟩ := same.listed member
    exact mine m inLots ((congrArg Prod.fst alike).trans here)
  | some entry =>
    obtain ⟨atoms, costBasis⟩ := entry
    simp only [found] at mine ⊢
    obtain ⟨⟨l, inLots, here⟩, atoms, unit, basis⟩ := mine
    obtain ⟨m, inOthers, alike⟩ := same.symm.listed inLots
    refine ⟨⟨m, inOthers, (congrArg Prod.fst alike).trans here⟩, ?_, unit, ?_⟩
    · exact atoms.trans (same.atomsOf_eq units asset)
    · exact basis.trans (same.basisOf_eq units asset)

end SameHoldings

theorem Sums.fits {lots : List Lot} {currency : AssetId} {held : Holdings}
    (sums : Sums currency lots held) (asset : AssetId) :
    Fits (atomsOf lots asset) ∧ Fits (basisOf lots asset) := by
  have mine := sums asset
  cases found : held.lookup asset with
  | none =>
    simp only [found] at mine
    rw [atomsOf, basisOf, tally_absent mine, tally_absent mine]
    exact ⟨by decide, by decide⟩
  | some entry =>
    obtain ⟨atoms, costBasis⟩ := entry
    simp only [found] at mine
    exact ⟨fits_iff.mpr ⟨_, mine.atoms⟩, fits_iff.mpr ⟨_, mine.basis⟩⟩

theorem SameHoldings.aggregates {lots others : List Lot} (same : SameHoldings lots others)
    {currency : AssetId} {held : Holdings}
    (aggregated : aggregateLots currency ∅ lots = .ok held) :
    aggregateLots currency ∅ others = .ok held := by
  have units := aggregateLots_currency aggregated
  have sums := same.sums_eq units (aggregateLots_sums (sums_empty currency) aggregated)
  have positive (l : Lot) (member : l ∈ others) := same.positive l (List.mem_append_right _ member)
  have basis (l : Lot) (member : l ∈ others) := same.basis l (List.mem_append_right _ member)
  have within {front : List Lot} (isFront : front <+: others) (amount : Lot → Int)
      (nonneg : ∀ l ∈ others, 0 ≤ amount l) {asset : AssetId}
      (fits : Fits (tally Lot.asset amount asset others)) :
      Fits (tally Lot.asset amount asset front) :=
    ⟨by
      have := tally_nonneg Lot.asset (fun l h => nonneg l (isFront.subset h)) asset
      omega, (tally_front_le Lot.asset nonneg isFront asset).trans_lt fits.2⟩
  obtain ⟨out, aggregates⟩ := aggregateLots_fits (sums_empty currency) (same.currency_eq units)
    (fun front isFront asset =>
      within isFront (·.atoms.val) (fun l h => (positive l h).le) (sums.fits asset).1)
    (fun front isFront asset => within isFront (·.costBasis.atoms.val) basis (sums.fits asset).2)
  rw [aggregates, (aggregateLots_sums (sums_empty currency) aggregates).unique sums (.refl _)]

theorem SameHoldings.valueLots {lots others : List Lot} (same : SameHoldings lots others)
    {key other : ValuationKey} {keyHash otherHash : ContentHash} {snapshot : PriceSnapshot}
    {v : Valuation} (valued : valueLots key keyHash snapshot lots = .ok v) :
    Treasury.valueLots other otherHash snapshot others =
      .ok { v with key := other, keyHash := otherHash } := by
  unfold Treasury.valueLots at valued ⊢
  obtain ⟨held, aggregated, valued⟩ := bind_eq_ok.mp valued
  obtain ⟨result, priced, made⟩ := bind_eq_ok.mp valued
  cases pure_eq_ok.mp made
  exact bind_eq_ok.mpr ⟨held, same.aggregates aggregated, bind_eq_ok.mpr ⟨result, priced, rfl⟩⟩

namespace LotBook
variable [External]

def ValuedAs (book : LotBook) (snapshot : PriceSnapshot) (policyHash : ContentHash)
    (positions : List Position) (fairValue unrealized : AssetAmount) : Prop :=
  ∃ v, valueBook book snapshot policyHash = .ok v ∧ v.positions = positions ∧
    v.totalFairValue = fairValue ∧ v.totalUnrealized = unrealized

theorem valuedAs_same {book other : LotBook} (same : SameHoldings book.openLots other.openLots)
    {snapshot : PriceSnapshot} {policyHash : ContentHash} {positions : List Position}
    {fairValue unrealized : AssetAmount}
    (valued : book.ValuedAs snapshot policyHash positions fairValue unrealized) :
    other.ValuedAs snapshot policyHash positions fairValue unrealized := by
  obtain ⟨v, made, hasPositions, hasFair, hasMarks⟩ := valued
  rw [valueBook_eq] at made
  exact ⟨_, (valueBook_eq ..).trans (same.valueLots made), hasPositions, hasFair, hasMarks⟩

/-- A book that only successful calls have led to: no lot is empty. -/
structure Full (envelopes : Set Bytes) (book : LotBook) : Prop extends Kept envelopes book where
  positive : ∀ l ∈ book.lots, 0 < l.atoms.val

theorem new_full (envelopes : Set Bytes) (tenant : TenantId) : (new tenant).Full envelopes :=
  ⟨⟨new_sound envelopes tenant, by simp [new]⟩, by simp [new]⟩

theorem positive_step {book : LotBook} (nonneg : ∀ l ∈ book.lots, l.NonNegative)
    (agree : Agree book.lots) (positive : ∀ l ∈ book.lots, 0 < l.atoms.val) {call : Call}
    (succeeds : book.Succeeds call) : ∀ l ∈ (book.step call).lots, 0 < l.atoms.val := by
  cases outcome nonneg agree call with
  | opened o opens does =>
    rw [step, does]
    refine List.forall_mem_append.mpr ⟨positive, List.forall_mem_singleton.mpr ?_⟩
    cases call with
    | acquire =>
      obtain ⟨⟨some, -⟩, h⟩ := Option.ite_none_right_eq_some.mp opens
      cases h
      exact some
    | dispose => contradiction
    | transfer => contradiction
  | refused e opens unplanned does => simp [Succeeds, does] at succeeds
  | stopped plan out e planned run does => simp [Succeeds, does] at succeeds
  | carried plan out reliefs planned run does settles =>
    rw [does]
    refine List.forall_mem_append.mpr ⟨fun l member => ?_, fun l member => ?_⟩
    · exact of_decide_eq_true (List.mem_filter.mp member).2
    · obtain ⟨o, isMoved, rfl⟩ := List.mem_map.mp member
      obtain ⟨entry, -, relief, lot, left, drawn, atoms, -⟩ := moved_drawn run.drawn isMoved
      have taken : relief.atoms = entry.2 := by rw [drawn.relieved.record]
      simp only [Opening.opened, Opening.lot, atoms, taken]
      exact drawn.positive

def Moves : Call → Prop
  | .transfer .. => True
  | .acquire .. | .dispose .. => False

section
variable {envelopes : Set Bytes} (injective : Set.InjOn sha256 envelopes)
include injective

theorem full_step {book : LotBook} (full : book.Full envelopes) {call : Call}
    (hashed : ∀ o, book.Opens call o → o.bytes ∈ envelopes) (succeeds : book.Succeeds call) :
    (book.step call).Full envelopes :=
  ⟨kept_step injective full.toKept call hashed,
    positive_step full.nonneg (full.agree injective) full.positive succeeds⟩

theorem moves_step {book : LotBook} (full : book.Full envelopes) {call : Call} (moves : Moves call)
    (succeeds : book.Succeeds call) (k : AssetId × AssetId) :
    (book.step call).openAmounts k = book.openAmounts k := by
  have balance := amounts_step full.nonneg (full.agree injective) full.tidy k succeeds
  cases call with
  | acquire => cases moves
  | dispose => cases moves
  | transfer asset fromVenue toVenue atoms transferEvent =>
    simpa only [relievedAmounts, acquiredAmounts, add_zero] using balance

omit injective in
theorem same_openLots {book other : LotBook} (full : book.Full envelopes)
    (fullToo : other.Full envelopes) (amounts : ∀ k, other.openAmounts k = book.openAmounts k) :
    SameHoldings book.openLots other.openLots where
  amounts k := by
    rw [openLots, openLots, tally_perm _ _ _ (sortBy_perm _ _), tally_perm _ _ _ (sortBy_perm _ _)]
    exact (amounts k).symm
  positive l member := by
    rcases List.mem_append.mp member with mine | theirs
    · exact full.positive l (mem_sortBy.mp mine)
    · exact fullToo.positive l (mem_sortBy.mp theirs)
  basis l member := by
    rcases List.mem_append.mp member with mine | theirs
    · exact (full.nonneg l (mem_sortBy.mp mine)).basis
    · exact (fullToo.nonneg l (mem_sortBy.mp theirs)).basis

/-- However lots are moved between venues, a book that could be valued still can, with the same
positions and totals, and one that could not still cannot. -/
theorem transfers_keep_value (tenant : TenantId) (calls transfers : List Call)
    (hashed : Along step (fun book call => ∀ o, book.Opens call o → o.bytes ∈ envelopes)
      (new tenant) (calls ++ transfers))
    (succeed : Along step Succeeds (new tenant) (calls ++ transfers))
    (moves : ∀ call ∈ transfers, Moves call) (snapshot : PriceSnapshot) (policyHash : ContentHash)
    (positions : List Position) (fairValue unrealized : AssetAmount) :
    (run step (new tenant) (calls ++ transfers)).ValuedAs snapshot policyHash positions fairValue
        unrealized ↔
      (run step (new tenant) calls).ValuedAs snapshot policyHash positions fairValue unrealized := by
  obtain ⟨before, after⟩ := (along_append _ _ _ _ _).mp (hashed.and succeed)
  have full := run_guarded step _ (Full envelopes)
    (fun _ _ full admitted => full_step injective full admitted.1 admitted.2) calls _
    (new_full envelopes tenant) before
  rw [run_append]
  generalize run step (new tenant) calls = book at full after ⊢
  have later := run_guarded step _
    (fun now => now.Full envelopes ∧ ∀ k, now.openAmounts k = book.openAmounts k)
    (fun now call same admitted => ⟨full_step injective same.1 admitted.1.1 admitted.1.2,
      fun k => (moves_step injective same.1 admitted.2 admitted.1.2 k).trans (same.2 k)⟩)
    transfers book ⟨full, fun _ => rfl⟩ (after.and (along_of_forall moves))
  have same := same_openLots full later.1 later.2
  exact ⟨valuedAs_same same.symm, valuedAs_same same⟩

end

def boughtPosition : Position :=
  ⟨⟨"BTC"⟩, .literal 100, ⟨⟨"USD"⟩, .literal 1000⟩, ⟨⟨"USD"⟩, .literal 1428⟩, ⟨⟨"USD"⟩, .literal 428⟩⟩

theorem valued_bought : ValuedAs ⟨⟨"acme"⟩, [bought.opened]⟩ closingPrices (.filled 3)
    [boughtPosition] ⟨⟨"USD"⟩, .literal 1428⟩ ⟨⟨"USD"⟩, .literal 428⟩ := by
  have openLots : openLots ⟨⟨"acme"⟩, [bought.opened]⟩ = [bought.opened] := rfl
  have held : aggregateLots ⟨"USD"⟩ ∅ [bought.opened] = .ok (Finmap.singleton ⟨"BTC"⟩
      (.literal 100, ⟨⟨"USD"⟩, .literal 1000⟩)) := rfl
  have priced : valuePositions closingPrices ⟨⟨"USD"⟩, 0⟩ ⟨⟨"USD"⟩, 0⟩ [(⟨"BTC"⟩, .literal 100,
        ⟨⟨"USD"⟩, .literal 1000⟩)] =
      .ok ([boughtPosition], ⟨⟨"USD"⟩, .literal 1428⟩, ⟨⟨"USD"⟩, .literal 428⟩) := rfl
  rw [← inOrder_singleton] at priced
  simp only [ValuedAs, valueBook_eq, openLots]
  exact ⟨_, bind_eq_ok.mpr ⟨_, held, bind_eq_ok.mpr ⟨_, priced, rfl⟩⟩, rfl, rfl, rfl⟩

theorem succeeds_moveForty : Succeeds ⟨⟨"acme"⟩, [bought.opened]⟩ moveForty := by
  have nonneg : ∀ l ∈ [bought.opened], l.NonNegative := List.forall_mem_singleton.mpr
    ⟨(by decide : 0 ≤ bought.atoms.val), (by decide : 0 ≤ bought.costBasis.atoms.val), le_rfl⟩
  have able : Relievable bought.opened forty := ⟨(by decide : 0 < bought.atoms.val),
    (by decide : bought.costBasis.atoms.val * forty.val < 2 ^ 127),
    (by decide : bought.acquisitionFee.atoms.val * forty.val < 2 ^ 127)⟩
  exact succeeds_of_carried nonneg (agree_of_distinct (by simp)) planned_some.1
    ⟨List.nodup_singleton _, List.forall_mem_singleton.mpr ⟨_, findLot_bought, able⟩⟩ trivial

omit [External] in
/-- Forty of the hundred are moved into custody. -/
theorem transfers_keep_value_forty :
    letI : External := reference
    (run step (new ⟨"acme"⟩) ([buy] ++ [moveForty])).ValuedAs closingPrices (.filled 3)
      [boughtPosition] ⟨⟨"USD"⟩, .literal 1428⟩ ⟨⟨"USD"⟩, .literal 428⟩ := by
  let _ : External := reference
  have separate : Set.InjOn sha256 {bought.bytes, movedForty.bytes} := by
    have digests : sha256 bought.bytes ≠ sha256 movedForty.bytes := by
      simp only [Opening.bytes, toText, utf8_ofList]
      decide +kernel
    exact Set.injOn_pair.mpr fun same => absurd same digests
  have held : step (new ⟨"acme"⟩) buy = ⟨⟨"acme"⟩, [bought.opened]⟩ := step_buy (new ⟨"acme"⟩) rfl
  refine (transfers_keep_value separate ⟨"acme"⟩ [buy] [moveForty] ?_ ?_
    (List.forall_mem_singleton.mpr trivial) _ _ _ _ _).mpr ?_
  · refine ⟨fun o opens => .inl (opens_buy rfl opens ▸ rfl), ?_, trivial⟩
    rw [held]
    exact fun o opens => .inr (opens_moveForty opens ▸ rfl)
  · refine ⟨succeeds_buy, ?_, trivial⟩
    rw [held]
    exact succeeds_moveForty
  · rw [run_buy]
    exact valued_bought

end LotBook

end Treasury
